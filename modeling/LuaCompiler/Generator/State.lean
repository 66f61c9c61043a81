import LuaCompiler.Emit.Progress
import LuaCompiler.Raw

/-!
# The generator

A generator walks over a tree and keeps two things. One is what it leaves behind besides text: the
comments not yet written, the registries, the classes to seal, the failures. The other is where in
the tree it stands, which decides what is written for a node. A part of the tree with a meaning of
its own is entered by a change of that position, and the position is put back when the part is left,
also if there is no text for the part.
-/

namespace LuaCompiler

/-- The receiver of the method that is being generated. -/
structure Generator.Receiver where
  name : String
  /-- how many functions enclose the method's body -/
  depth : Nat
  /-- whether a nested function has referred to the receiver -/
  captured : Bool
deriving DecidableEq

/-- A generator at some point of its walk. -/
structure Generator where
  comments : CommentQueue
  registries : Registries
  /-- the classes to seal, in the order of their declaration -/
  classes : List String := []
  /-- the constructs that could not be generated, in the order of the walk -/
  failures : List (Located Emit.Unsupported) := []
  /-- whether the chunk has exported a value -/
  exported : Bool := false
  /-- whether arithmetic goes through the support module -/
  operatorMode : Bool
  /-- how many blocks are open -/
  blockDepth : Nat := 0
  /-- how many functions are open -/
  functionDepth : Nat := 0
  receiver : Option Generator.Receiver := none
  /-- the parameters of each open function, innermost first -/
  parameters : List (List String) := []
  /-- whether a value is kept, so that `and` and `or` have to give Lua's value -/
  valueContext : Bool := false
  /-- the label at the end of each open loop of the function, innermost first -/
  loopLabels : List (Option String) := []

namespace Generator

/-- What is fixed for a file. -/
structure File where
  options : Options
  annotations : Scope.Annotations
  /-- the file's name without directories and extension -/
  name : String

/-- A step that always gives a result. -/
abbrev Step (α : Type) := StateM Generator α

/-- A step that may give a failure in place of a result. What it has left behind by then stays. -/
abbrev Attempt (α : Type) := ExceptT Emit.Unsupported (StateM Generator) α

/-- A step that gives a result, among steps that may not. -/
def lift {α : Type} (step : Step α) : Attempt α :=
  ExceptT.lift step

/-- What a step gave, result or failure. -/
def observe {α : Type} (attempt : Attempt α) : Step (Except Emit.Unsupported α) :=
  attempt.run

/-- Goes on with what a step gave. -/
def settle {α : Type} (outcome : Except Emit.Unsupported α) : Attempt α :=
  ExceptT.mk (pure outcome)

/-- The position of a generator, as the rules for texts look at it. -/
def context (file : File) (g : Generator) : Emit.Context where
  options := file.options
  annotations := file.annotations
  fileName := file.name
  operatorMode := g.operatorMode
  blockDepth := g.blockDepth
  functionDepth := g.functionDepth
  receiver := g.receiver.map fun receiver => ⟨receiver.name, receiver.depth⟩
  parameters := g.parameters.flatten
  valueContext := g.valueContext
  continueLabel := g.loopLabels.head?.join

/-- The position at which a step is taken. -/
def here (file : File) : Step Emit.Context := do
  return (← get).context file

/-! ## Traces -/

/-- What a generator has left behind. -/
def traces (g : Generator) : Emit.Progress where
  comments := g.comments
  registries := g.registries
  classes := g.classes
  failures := g.failures
  captured := g.receiver.any Receiver.captured

/-- A generator that has left something else behind. -/
def withTraces (g : Generator) (p : Emit.Progress) : Generator :=
  { g with comments := p.comments, registries := p.registries, classes := p.classes,
           failures := p.failures }

/-- A step that looks at the traces and adds to them, and leaves the position alone. -/
def trace {α : Type} (emit : Emit α) : Step α := fun g =>
  let (a, p) := emit.run g.traces
  (a, g.withTraces p)

/-- A node's text with the comments around it. Without a text the comments behind stay where they
are. -/
def around (span : Span) (node : Attempt String) : Attempt String := do
  let before ← lift (trace (Emit.commentsBefore span))
  let text ← node
  let after ← lift (trace (Emit.commentsAfter span))
  return before ++ text ++ after

/-- A node that has a text of its own, with the comments around it. -/
def fixed (span : Span) (text : String) : Step String :=
  trace (Emit.around span (pure text))

/-- A node with the comments around it, of which a failure gets no further: it is listed, and a
comment stands in place of the node. -/
def contained (span : Span) (node : Attempt String) : Step String := do
  let before ← trace (Emit.commentsBefore span)
  let text ← match ← observe node with
    | .ok text => pure text
    | .error unsupported => trace (Emit.contain unsupported span)
  let after ← trace (Emit.commentsAfter span)
  return before ++ text ++ after

/-! ## References -/

/-- How a name is written if it is the receiver's: a nested function takes it from a variable, and
that it does is noted. -/
def receiverToken (name : String) : Step (Option String) := do
  let g ← get
  match g.receiver with
  | none => return none
  | some receiver =>
    if receiver.name != name then return none
    else if receiver.depth == g.functionDepth then return some "this"
    else
      set { g with receiver := some { receiver with captured := true } }
      return some Emit.receiverAlias

/-- A reference to a name. -/
def reference (file : File) (name : String) : Step String := do
  match ← receiverToken name with
  | some token => return token
  | none =>
    let ctx ← here file
    return if ctx.isLibrary name then "l2j." ++ name else Name.asBinding name

/-! ## Blocks -/

/-- The statements of a block. -/
def block (statements : Step (List String)) : Step String := do
  modify fun g => { g with blockDepth := g.blockDepth + 1 }
  let texts ← statements
  modify fun g => { g with blockDepth := g.blockDepth - 1 }
  return Emit.sequence texts

/-- The statements of a loop, at whose end some label stands or none. -/
def loopBody (label : Option String) (statements : Step (List String)) : Step String := do
  modify fun g => { g with loopLabels := label :: g.loopLabels }
  let text ← block statements
  modify fun g => { g with loopLabels := g.loopLabels.tail }
  return text

end Generator

end LuaCompiler
