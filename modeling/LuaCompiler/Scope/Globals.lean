import LuaCompiler.Scope.Event

/-!
# Globals

The names that a program refers to where no local of that name is visible, each once, in the order
of their first occurrence.
-/

namespace LuaCompiler.Scope

/-- The visible locals, innermost scope first, and the globals found, last one first. -/
structure Visibility where
  scopes : List (List String) := []
  found : List String := []

namespace Visibility

/-- Makes names visible in the innermost scope. -/
def declare (v : Visibility) (names : List String) : Visibility :=
  match v.scopes with
  | [] => v
  | scope :: outer => { v with scopes := (names.reverse ++ scope) :: outer }

/-- Whether a local of a name is visible. -/
def isLocal (v : Visibility) (name : String) : Bool :=
  v.scopes.any (·.contains name)

/-- What an event does to the visible locals and the globals found. -/
def step (v : Visibility) : Event → Visibility
  | .enter receiver =>
    { v with scopes := (if receiver then [receiverName] else []) :: v.scopes }
  | .leave => { v with scopes := v.scopes.tail }
  | .parameters identifiers => v.declare (identifiers.map Identifier.name)
  | .declare _ vars _ => v.declare (vars.map Identifier.name)
  | .declareFunction identifier => v.declare [identifier.name]
  | .reference _ name =>
    if v.isLocal name || v.found.contains name then v else { v with found := name :: v.found }

end Visibility

/-- The globals of a program, by its scope events. -/
def globals (events : List Event) : List String :=
  (events.foldl Visibility.step {}).found.reverse

end LuaCompiler.Scope
