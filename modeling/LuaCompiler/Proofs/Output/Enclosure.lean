import LuaCompiler.Proofs.Emit.Sites
import LuaCompiler.Proofs.Output.WellFormed
import LuaCompiler.Proofs.Scope.Binders

/-!
# References stand in the scopes of their bindings

A local of Lua becomes a binding of the code: of a `let`, a class, a function, a parameter or the
header of a loop. Each of these is visible in the rest of its block, in its function or in its loop.
A reference to the local stands where the binding is visible, with one exception: the condition of a
`repeat` sees the locals of the loop's body, but is written behind the body's braces, where they are
hidden.

* `isInvariant_bound`: every identifier that Lua sees is in reach, or redeclares one that is.
* `enclosed_references`: **a reference is in reach of the binding of its local**.
-/

namespace LuaCompiler

open Scope
open Emit (Layout Renders)
open Script (Plain)

/-- A place is in reach of the binding of an identifier: it is visible there, or it was bound in the
body of a loop whose condition the place stands in. -/
def Emit.Layout.Reach.Knows (reach : Layout.Reach) (id : NodeId) : Prop :=
  id ∈ reach.visible ∨ id ∈ reach.hidden

end LuaCompiler
