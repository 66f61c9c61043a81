import LuaCompiler.Generator.Statement

/-!
# The generator's walk

The recursion of a generator over a tree without a grammar. It takes nodes apart and hands the steps
for their parts to the steps for the nodes. `statement`, `expression` and `call` are the walk's
entries; a call of what is no call, a function statement without a fitting target and a clause
without the condition that its keyword wants are failures of the walk, contained in the statement
around them.
-/

namespace LuaCompiler.Generator

open Raw (outlines fieldOutlines)

/-- The standard iterator that is called with parentheses. -/
def iteratorFunction? : Raw.ExprKind → Option String
  | .call base .arguments _ => Emit.iteratorFunction? base.outline
  | _ => none

variable (file : File)

mutual

/-- An expression with the comments around it. -/
def expression : Raw.Expr → Attempt String
  | ⟨id, span, kind⟩ => around span (expressionKind .single id kind)

/-- An expression without the comments around it; the role is that of a call. -/
def expressionKind (role : Emit.Role) (id : NodeId) : Raw.ExprKind → Attempt String
  | .name name => lift (reference file (file.annotations.resolve id name))
  | .nil => return "undefined"
  | .boolean value => return if value then "true" else "false"
  | .number value raw => return Numeral.script value raw
  | .string raw => return StringLiteral.toScript raw
  | .vararg => return Emit.Role.single.vararg
  | .function f => do
    let text ← lift (function file (.plain f.outline) f.outline (functionBody f))
    return text.expression
  | .table fields => table (fieldOutlines fields) (fieldValues fields) (entries fields)
  | .binary operator left right =>
    binary file operator left.outline right.outline (expression left) (expression right)
  | .logical operator left right =>
    logical file operator left.outline right.outline (conjuncts left) (expression left)
      (expression right)
  | .unary operator argument => unary file operator (expression argument)
  | .member base _ identifier => member file base.outline identifier (expression base)
  | .index base index => do
    let baseText := Emit.asBase base.outline (← expression base)
    return baseText ++ Emit.brackets (← expression index)
  | .call base _ arguments =>
    call file role ⟨base.outline, outlines arguments⟩
      { callee := expression base
        owner := owner base
        arguments := list arguments
        firstArgument := first arguments
        native := ⟨firstMembers arguments, second arguments⟩ }

/-- The two operands of a conjunction. -/
def conjuncts : Raw.Expr → Attempt (String × String)
  | ⟨_, _, .logical _ left right⟩ => do
    let leftText ← expression left
    let rightText ← expression right
    return (leftText, rightText)
  | _ => return ("", "")

/-- What a member is a member of. -/
def owner : Raw.Expr → Attempt String
  | ⟨_, _, .member base _ _⟩ => expression base
  | _ => return ""

/-- What an index is an index of. -/
def indexBase : List Raw.Expr → Attempt String
  | ⟨_, _, .index base _⟩ :: _ => expression base
  | _ => return ""

/-- A list of values. -/
def list : List Raw.Expr → Attempt (List String)
  | [] => return []
  | first :: rest => do
    let text ← listed first.outline rest.isEmpty (expression first)
    return text :: (← list rest)

/-- Expressions in a row, each for itself. -/
def row : List Raw.Expr → Attempt (List String)
  | [] => return []
  | first :: rest => do
    let text ← expression first
    return text :: (← row rest)

/-- The first of some expressions. -/
def first : List Raw.Expr → Attempt String
  | [] => return ""
  | first :: _ => expression first

/-- The second of some expressions. -/
def second : List Raw.Expr → Attempt String
  | [] => return ""
  | _ :: rest => first rest

/-- The arguments of the first of some expressions, if it is a call. -/
def firstArguments : List Raw.Expr → Attempt (List String)
  | ⟨_, _, .call _ _ arguments⟩ :: _ => list arguments
  | _ => return []

/-- The members of the first of some expressions, if it is a table. -/
def firstMembers : List Raw.Expr → Step (List String)
  | ⟨_, _, .table fields⟩ :: _ => members fields
  | _ => return []

/-- Members and parent of the first of some expressions, if it is a call of `class`. -/
def firstNative : List Raw.Expr → ClassSteps
  | ⟨_, _, .call _ _ arguments⟩ :: _ => ⟨firstMembers arguments, second arguments⟩
  | _ => ⟨return [], return ""⟩

/-- The values of some fields as a list. -/
def fieldValues : List Raw.Field → Attempt (List String)
  | [] => return []
  | ⟨_, _, kind⟩ :: rest => do
    let text ← fieldValue rest.isEmpty kind
    return text :: (← fieldValues rest)

/-- The value of a field, which may be the last one of its list. -/
def fieldValue (isLast : Bool) : Raw.FieldKind → Attempt String
  | .positional value | .named _ value | .keyed _ value =>
    listed value.outline isLast (expression value)

/-- Fields one by one. -/
def entries : List Raw.Field → Attempt (List Emit.Entry)
  | [] => return []
  | ⟨_, _, kind⟩ :: rest => do
    let first ← entry kind
    return first :: (← entries rest)

/-- A field of a table. -/
def entry : Raw.FieldKind → Attempt Emit.Entry
  | .positional value => return .positional (← expression value)
  | .named key value => return .named (Name.asProperty key.name) (← expression value)
  | .keyed key value => do
    let keyText ← expression key
    return .computed keyText (← expression value)

/-- The fields of a class, each with its failure in its place. -/
def members : List Raw.Field → Step (List String)
  | [] => return []
  | ⟨_, span, kind⟩ :: rest => do
    let first ← contained span (classMember kind)
    return first :: (← members rest)

/-- A field of a class. -/
def classMember : Raw.FieldKind → Attempt String
  | .named key value =>
    memberValue file (Name.asProperty key.name) value.outline (expression value) (valueBody value)
  | .keyed key value => do
    let keyText ← expression key
    memberValue file (Emit.brackets keyText) value.outline (expression value) (valueBody value)
  | .positional _ => throw .positionalMember

/-- The body of a value that is a function. -/
def valueBody : Raw.Expr → Step (List String)
  | ⟨_, _, .function f⟩ => functionBody f
  | _ => return []

/-- The body of a function. -/
def functionBody : Raw.Function → Step (List String)
  | ⟨_, _, _, _, _, _, body⟩ => statements body

/-- Statements in a row, each with its failure in its place. -/
def statements : List Raw.Stmt → Step (List String)
  | [] => return []
  | ⟨id, span, kind⟩ :: rest => do
    let first ← contained span (statementKind id kind)
    return first :: (← statements rest)

/-- A statement without the comments around it. -/
def statementKind (id : NodeId) : Raw.StmtKind → Attempt String
  | .local vars init =>
    localStatement file id vars (outlines init)
      { arguments := firstArguments init
        native := firstNative init
        values := ⟨first init, list init⟩ }
  | .assignment targets init =>
    assignment file (outlines targets) (outlines init)
      { indexBase := indexBase targets
        firstTarget := first targets
        native := firstNative init
        targets := row targets
        values := ⟨first init, list init⟩ }
  | .call ⟨id, span, kind⟩ =>
    if Raw.Expr.isCall ⟨id, span, kind⟩ then expressionKind .statement id kind
    else throw .callExpression
  | .function ⟨id, span, target, isLocal, parameters, isVararg, body⟩ =>
    functionStatement file (target.map Raw.Expr.outline) isLocal
      ⟨id, span, parameters, isVararg, []⟩ (targetBase target) (statements body)
  | .return arguments =>
    returnStatement file (outlines arguments) (second arguments) ⟨first arguments, list arguments⟩
  | .break => return "break"
  | .goto label => gotoStatement file label
  | .label label => labelStatement file label
  | .block body => return Emit.braced (← lift (block (statements body)))
  | .while condition body => do
    let conditionText ← expression condition
    let bodyText ← lift (loopBody (Raw.endLabel? body) (statements body))
    return Emit.whileText conditionText bodyText
  | .repeat body condition => do
    let bodyText ← lift (loopBody (Raw.endLabel? body) (statements body))
    return Emit.repeatText bodyText (← expression condition)
  | .conditional cs => return "\n".intercalate (← clauses cs)
  | .forNumeric counter first last step body =>
    forNumeric
      (numericHeader file counter first.outline (step.map Raw.Expr.outline) (expression first)
        (expression last) (optional "1" step))
      (loopBody (Raw.endLabel? body) (statements body))
  | .forGeneric vars iterators body =>
    forGeneric file vars (outlines iterators) (source iterators)
      (loopBody (Raw.endLabel? body) (statements body))

/-- What the target of a function statement is a member of. -/
def targetBase : Option Raw.Expr → Attempt String
  | some target => owner target
  | none => return ""

/-- An expression that may be left out. -/
def optional (absent : String) : Option Raw.Expr → Attempt String
  | none => return absent
  | some e => expression e

/-- What a generic loop runs over, if that is one expression. -/
def source : List Raw.Expr → Attempt String
  | ⟨id, span, kind⟩ :: _ =>
    iterated (iteratorFunction? kind) (callArguments kind)
      (around span (expressionKind .single id kind))
  | [] => return ""

/-- The arguments of a call. -/
def callArguments : Raw.ExprKind → Attempt (List String)
  | .call _ _ arguments => list arguments
  | _ => return []

/-- The clauses of a conditional. -/
def clauses : List Raw.Clause → Attempt (List String)
  | [] => return []
  | ⟨_, _, kind, condition, body⟩ :: rest => do
    let conditionText ← clauseCondition condition
    let bodyText ← lift (block (statements body))
    let text ← clauseText kind conditionText bodyText
    return text :: (← clauses rest)

/-- The condition of a clause, if it has one. -/
def clauseCondition : Option Raw.Expr → Attempt (Option String)
  | none => return none
  | some condition => return some (← expression condition)

end

/-- A statement with the comments around it. -/
def statement (s : Raw.Stmt) : Step String :=
  contained s.span (statementKind file s.id s.kind)

/-- A call in some role, without the comments around it; what is no call is not generated. -/
def callExpression (role : Emit.Role) (e : Raw.Expr) : Attempt String :=
  if e.isCall then expressionKind file role e.id e.kind else throw .callExpression

/-- The text of a chunk: its statements, the classes left to seal if it has exported no value, and the
comments left. -/
def chunkText (exported : Bool) (classes : List String) (code tail : String) : String :=
  let sealed :=
    if exported || classes.isEmpty then code
    else (if code.isEmpty then "" else code ++ ";\n") ++ Emit.sealing classes
  if tail.isEmpty then sealed else sealed ++ "\n" ++ tail

/-- A chunk. -/
def chunk (body : List Raw.Stmt) : Step String := do
  let code := Emit.sequence (← statements file body)
  let g ← get
  let tail ← trace Emit.commentsLeft
  return chunkText g.exported g.classes code tail

end LuaCompiler.Generator
