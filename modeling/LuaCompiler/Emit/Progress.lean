import LuaCompiler.CommentQueue
import LuaCompiler.Emit.Context
import LuaCompiler.Registries
import LuaCompiler.Token.Scan

/-!
# Emission

Lowering a node gives text and leaves traces: comments leave their queue, library functions and
globals are registered, classes are declared, constructs that cannot be lowered are listed. `Emit`
is the monad of such lowerings.
-/

namespace LuaCompiler.Emit

/-- The constructs that have no counterpart. -/
inductive Unsupported where
  /-- a `return` inside a block of the chunk -/
  | returnOutsideFunction
  /-- a `goto` other than to the end of the innermost loop -/
  | goto (target : String)
  /-- a label other than at the end of the innermost loop -/
  | label
  /-- a generic loop over other than one iterator -/
  | iterators (count : Nat)
  /-- a field without a key in a class -/
  | positionalMember
  /-- a call of something that is not a call -/
  | callExpression
  /-- a library function without a name in its library -/
  | memberExpression
  /-- a native class without a table of members -/
  | classDeclaration
  /-- a function statement for other than a name or a member -/
  | functionDeclaration
  /-- a clause that lacks its condition -/
  | clause
deriving DecidableEq

namespace Unsupported

/-- The wording for a construct. -/
def message : Unsupported → String
  | .returnOutsideFunction => "Unsupported ReturnStatement outside a function body"
  | .goto target => "Unsupported goto target: " ++ target
  | .label => "Unsupported AST node type: LabelStatement"
  | .iterators count => "Unsupported iterator: " ++ toString count ++ " iterator expressions"
  | .positionalMember => "Unsupported class member: positional field"
  | .callExpression => "Unsupported AST node type: CallExpression"
  | .memberExpression => "Unsupported AST node type: MemberExpression"
  | .classDeclaration => "Unsupported AST node type: ClassDeclaration"
  | .functionDeclaration => "Unsupported AST node type: FunctionDeclaration"
  | .clause => "Unsupported AST node type: IfClause"

end Unsupported

/-- What lowering has left behind so far. -/
structure Progress where
  comments : CommentQueue
  registries : Registries
  /-- the classes to seal, in the order of their declaration -/
  classes : List String := []
  /-- the constructs that could not be lowered, in the order of the walk -/
  failures : List (Located Unsupported) := []
  /-- whether a nested function has referred to the receiver of the innermost method -/
  captured : Bool := false

end LuaCompiler.Emit

namespace LuaCompiler

/-- A lowering. -/
abbrev Emit (α : Type) := StateM Emit.Progress α

end LuaCompiler

namespace LuaCompiler.Emit

/-- The comments above a node. -/
def commentsBefore (span : Span) : Emit String :=
  modifyGet fun p =>
    let (text, comments) := p.comments.before span
    (text, { p with comments })

/-- The comments behind a node. -/
def commentsAfter (span : Span) : Emit String :=
  modifyGet fun p =>
    let (text, comments) := p.comments.after span
    (text, { p with comments })

/-- The comments left. -/
def commentsLeft : Emit String :=
  modifyGet fun p =>
    let (text, comments) := p.comments.flush
    (text, { p with comments })

/-- The text of a node with the comments around it. -/
def around (span : Span) (node : Emit String) : Emit String := do
  let before ← commentsBefore span
  let text ← node
  let after ← commentsAfter span
  return before ++ text ++ after

/-- Lists a construct that cannot be lowered, and gives a comment in its place. -/
def contain (unsupported : Unsupported) (span : Span) : Emit String := do
  modify fun p => { p with failures := p.failures ++ [⟨unsupported, span.start⟩] }
  return "/* " ++ Text.replace unsupported.message "*/" "* /" ++ " */"

/-- Registers the use of a library function. -/
def useSystemFunction (library name : String) : Emit Unit :=
  modify fun p => { p with registries := p.registries.recordSystemFunction library name }

/-- Adds a class to those to seal, once. -/
def declareClass (name : String) : Emit Unit :=
  modify fun p => if p.classes.contains name then p else { p with classes := p.classes ++ [name] }

/-- The statements that seal some classes. -/
def sealing (classes : List String) : String :=
  String.join (classes.map fun name => "l2j.finishClass(" ++ name ++ ");\n")

/-- A reference to a name: the receiver of the method, a library of the support module, or the name
in its own spelling. -/
def reference (ctx : Context) (name : String) : Emit String := do
  match ctx.receiver.filter (·.name == name) with
  | some receiver =>
    if receiver.depth == ctx.functionDepth then return "this"
    else
      modify fun p => { p with captured := true }
      return receiverAlias
  | none => return if ctx.isLibrary name then "l2j." ++ name else Name.asBinding name

/-- Lowers the body of a method, and tells whether a nested function refers to its receiver. What
was known of the enclosing method's receiver is kept. -/
def withReceiver {α : Type} (body : Emit α) : Emit (α × Bool) := do
  let outer := (← get).captured
  modify fun p => { p with captured := false }
  let result ← body
  let captured := (← get).captured
  modify fun p => { p with captured := outer }
  return (result, captured)

/-- Items parted by commas. -/
def commas (items : List String) : String := ", ".intercalate items

/-- A text in braces. -/
def braced (text : String) : String := "\x7b" ++ text ++ "\x7d"

/-- A text in parentheses. -/
def parens (text : String) : String := "(" ++ text ++ ")"

/-- A text in brackets. -/
def brackets (text : String) : String := "[" ++ text ++ "]"

/-- Statements of a block. -/
def sequence (statements : List String) : String := ";\n".intercalate statements

/-- A call of a function with arguments. -/
def callText (callee : String) (arguments : List String) : String :=
  callee ++ parens (commas arguments)

end LuaCompiler.Emit
