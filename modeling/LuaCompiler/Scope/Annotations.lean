import LuaCompiler.Name
import LuaCompiler.Scope.Event
import Std.Data.TreeMap
import Std.Data.TreeSet

/-!
# Annotations

What the generator has to know about declarations and references. JavaScript refuses a second `let`
of a name in one block, and a `let` hides its name in its own initialiser, where Lua still sees the
outer one. So a redeclared name is assigned to, and a name that its own initialiser reads, a
repeated parameter and a repeated placeholder get a fresh name. The facts are kept by node identity.
-/

namespace LuaCompiler.Scope

/-- Facts about nodes. -/
structure Annotations where
  /-- `local` statements that redeclare a name of their block -/
  duplicated : Std.TreeSet NodeId := ∅
  /-- declared identifiers that redeclare -/
  redeclared : Std.TreeSet NodeId := ∅
  /-- declared identifiers and references with a generated name -/
  renamed : Std.TreeMap NodeId String := ∅
  /-- references to locals -/
  localReferences : Std.TreeSet NodeId := ∅

namespace Annotations

/-- The name to use for a node that is spelled `name`. -/
def resolve (a : Annotations) (id : NodeId) (name : String) : String :=
  a.renamed.getD id name

/-- The name to declare for an identifier. -/
def nameOf (a : Annotations) (identifier : Identifier) : String :=
  a.resolve identifier.id identifier.name

end Annotations

/-- The walk over the events of a program: the locals of each open scope with their generated names,
innermost scope first, the facts so far, the last suffix given out, and the references so far, last
one first. -/
structure Analysis where
  scopes : List (List (String × Option String)) := []
  annotations : Annotations := {}
  suffix : Nat := 0
  reads : List (NodeId × String) := []

namespace Analysis

/-- What is bound to a name: nothing, or a local with or without a generated name. -/
def lookup? (t : Analysis) (name : String) : Option (Option String) :=
  t.scopes.findSome? (·.lookup name)

/-- What the innermost scope binds to a name. -/
def innermost? (t : Analysis) (name : String) : Option (Option String) :=
  t.scopes.head?.bind (·.lookup name)

/-- Binds a name in the innermost scope. -/
def bind (t : Analysis) (name : String) (generated : Option String) : Analysis :=
  match t.scopes with
  | [] => t
  | scope :: outer => { t with scopes := ((name, generated) :: scope) :: outer }

/-- Notes that a node has a generated name. -/
def noteRenamed (t : Analysis) (id : NodeId) (generated : String) : Analysis :=
  { t with annotations.renamed := t.annotations.renamed.insert id generated }

/-- The name that a suffix makes of a name. -/
def freshName (name : String) (suffix : Nat) : String :=
  if name = Name.placeholder then Name.placeholder ++ toString suffix
  else name ++ "_" ++ toString suffix

/-- Declares an identifier under a fresh name. -/
def rename (t : Analysis) (identifier : Identifier) : Analysis :=
  let suffix := t.suffix + 1
  let generated := freshName identifier.name suffix
  ({ t with suffix }.noteRenamed identifier.id generated).bind identifier.name (some generated)

/-- Whether a name was referred to by a node after `id`. -/
def readSince (t : Analysis) (id : NodeId) (name : String) : Bool :=
  (t.reads.takeWhile fun read => id < read.1).any fun read => read.2 == name

/-- Declares an identifier again in its scope: it keeps the name of the declaration before. -/
def redeclare (t : Analysis) (identifier : Identifier) : Analysis :=
  let noted := { t with annotations.redeclared := t.annotations.redeclared.insert identifier.id }
  match t.innermost? identifier.name with
  | some (some generated) => noted.noteRenamed identifier.id generated
  | _ => noted

/-- Declares a parameter or loop variable. -/
def parameter (t : Analysis) (identifier : Identifier) : Analysis :=
  if (t.innermost? identifier.name).isSome then t.rename identifier
  else t.bind identifier.name none

/-- Whether a declaration of one variable copies the variable's own name. -/
def copiesItself (vars : List Identifier) (init : List Expr) (name : String) : Bool :=
  match vars, init with
  | [_], [value] => value.isName name
  | _, _ => false

/-- Declares a variable of a `local` statement whose last variable is the node `last`. A variable
that its initialiser reads gets a fresh name, unless it copies a global of its name. -/
def declareOne (vars : List Identifier) (init : List Expr) (last : NodeId) (t : Analysis)
    (v : Identifier) : Analysis :=
  if v.name = Name.placeholder then
    if (t.lookup? v.name).isSome then t.rename v else t.bind v.name none
  else if (t.innermost? v.name).isSome then t.redeclare v
  else
    let copiesGlobal := (t.lookup? v.name).isNone && copiesItself vars init v.name
    if t.readSince last v.name && !copiesGlobal then t.rename v else t.bind v.name none

/-- Declares the variables of a `local` statement. -/
def declare (t : Analysis) (statement : NodeId) (vars : List Identifier) (init : List Expr) :
    Analysis :=
  let last := (vars.map Identifier.id).foldl max 0
  let declared := vars.foldl (declareOne vars init last) t
  if vars.any fun v => declared.annotations.redeclared.contains v.id then
    { declared with annotations.duplicated := declared.annotations.duplicated.insert statement }
  else declared

/-- Notes a reference, and what it refers to. -/
def reference (t : Analysis) (id : NodeId) (name : String) : Analysis :=
  let read := { t with reads := (id, name) :: t.reads }
  match t.lookup? name with
  | none => read
  | some generated =>
    let noted :=
      { read with annotations.localReferences := read.annotations.localReferences.insert id }
    match generated with
    | some generated => noted.noteRenamed id generated
    | none => noted

/-- What an event does to the walk. -/
def step (t : Analysis) : Event → Analysis
  | .enter _ => { t with scopes := [] :: t.scopes }
  | .leave => { t with scopes := t.scopes.tail }
  | .parameters identifiers => identifiers.foldl parameter t
  | .declare statement vars init => t.declare statement vars init
  | .declareFunction identifier =>
    if (t.innermost? identifier.name).isSome then t.redeclare identifier
    else t.bind identifier.name none
  | .reference id name => t.reference id name

end Analysis

/-- The walk after the events of a program. -/
def analyse (events : List Event) : Analysis :=
  events.foldl Analysis.step {}

end LuaCompiler.Scope
