import LuaCompiler.Parser
import LuaCompiler.Proofs.Parser.Accounts
import LuaCompiler.Proofs.Scope.FreeNames
import LuaCompiler.Proofs.Scope.Tracker
import Mathlib.Data.List.Nodup

/-!
# Scope resolution is lexical scoping

Two walks over the events of a parse resolve names: one finds the globals, one the references to
locals. Both agree with the lexical scoping of the tree that the parse returns.

* `parse_noted`: the events of a parse are those of the tree's skeleton.
* `mem_localReferences`: the references to locals of a program.
* `resolution_is_lexical`: globals, references to locals and the nesting of scopes, for every text.
-/

namespace LuaCompiler

open Scope

theorem Scan.ofLexemes_tokens {fault : Option LexicalFault} {here : Position}
    {lexemes : List Lexeme} (h : (Scan.ofLexemes fault here lexemes).tokens = []) :
    (Scan.ofLexemes fault here lexemes).fault ≠ none := by
  induction lexemes generalizing here with
  | nil => cases fault <;> simp [Scan.ofLexemes] at h ⊢
  | cons lexeme rest ih =>
    unfold Scan.ofLexemes at h ⊢
    simp only at h ⊢
    split at h
    · cases h
    · exact ih h

/-- A scan without tokens has a fault. -/
theorem Scan.ofText_tokens (text : List Char) (h : (Scan.ofText text).tokens = []) :
    (Scan.ofText text).fault ≠ none := Scan.ofLexemes_tokens h

/-- **What a parse notes**: the events of the tree, with identities that rise, or events that do not
close a scope too many. -/
structure Parsed.Noted (parsed : Parsed) : Prop where
  nested : Nested parsed.events
  events : ∀ chunk, parsed.result = .ok chunk → parsed.events = Skeleton.events chunk.items
  numbers : ∀ chunk, parsed.result = .ok chunk → ∃ hi, Rising 0 (Skeleton.numbers chunk.items) hi

theorem parse_noted (text : String) : (parse text).Noted := by
  have hscan := Scan.ofText_tokens text.toList
  unfold parse
  generalize Scan.ofText text.toList = scan at hscan
  rcases scan with ⟨_ | ⟨first, rest⟩, comments, fault⟩
  · cases fault with
    | none => exact absurd rfl (hscan rfl)
    | some fault =>
      refine ⟨nested_nil, fun chunk h => ?_, fun chunk h => ?_⟩
      · cases h
      · cases h
  · unfold parseScan
    have h := Parser.accounts_chunk (depthBound (first :: rest).length)
      ⟨first, rest, fault, Position.origin, 0, []⟩
    unfold Parser.Post at h
    simp only
    split at h
    next read s' heq =>
      rw [heq]
      have hevents : s'.events.reverse = Skeleton.events read.items := by simp [h.events]
      refine ⟨?_, fun chunk hchunk => ?_, fun chunk hchunk => ⟨s'.nextId, ?_⟩⟩
      · change Nested s'.events.reverse
        rw [hevents]
        exact Skeleton.nested_events read.items
      · cases hchunk
        exact hevents
      · cases hchunk
        exact h.numbers
    -- what was noted up to the fault is nested, and there is no program
    next fault s' heq =>
      rw [heq]
      obtain ⟨es, hes, hevents⟩ := h
      refine ⟨?_, fun chunk h => ?_, fun chunk h => ?_⟩
      · simpa [hevents] using hes
      · cases h
      · cases h

/-- An occurrence is known by its identity. -/
theorem Parsed.Noted.occurrence_eq {parsed : Parsed} (h : parsed.Noted) {chunk : Chunk}
    (hchunk : parsed.result = .ok chunk) {o o' : Occurrence} (ho : o ∈ chunk.occurrences)
    (ho' : o' ∈ chunk.occurrences) (hid : o.id = o'.id) : o = o' := by
  obtain ⟨hi, hrising⟩ := h.numbers chunk hchunk
  have hnodup := hrising.nodup.sublist (Skeleton.occurrence_ids [] chunk.items)
  exact List.inj_on_of_nodup_map hnodup ho ho' hid

/-- **The references to locals of a program** are the occurrences that see a declared identifier of
their name. -/
theorem mem_localReferences (chunk : Chunk) (id : NodeId) :
    id ∈ (analyse (Skeleton.events chunk.items)).annotations.localReferences ↔
      ∃ o ∈ chunk.occurrences, o.id = id ∧ o.environment.Declares o.name := by
  rw [Analysis.analyse_annotations, (Analysis.annotates_chunk chunk).references]
  simp [Chunk.occurrences_eq, Analysis.opened, Analysis.step]

/-- **Scope resolution is lexical scoping.** Of a text that parses, the globals are the names that
occur free, each once, in the order of first occurrence; the references to locals are the
occurrences that are bound, a receiver aside; and every scope that is opened is closed. No text
closes a scope too many. -/
theorem resolution_is_lexical (text : String) :
    (∀ n, closed ((parse text).events.take n) ≤ opened ((parse text).events.take n)) ∧
    ∀ chunk, (parse text).result = .ok chunk →
      closed (parse text).events = opened (parse text).events ∧
      (parse text).globals = (freeNames chunk.occurrences).eraseDups ∧
      (∀ id ∈ (analyse (parse text).events).annotations.localReferences,
        ∃ o ∈ chunk.occurrences, o.id = id) ∧
      ∀ o ∈ chunk.occurrences, o.binder? ≠ some .receiver →
        (o.id ∈ (analyse (parse text).events).annotations.localReferences ↔ o.isFree = false) := by
  have hnoted := parse_noted text
  refine ⟨fun n => hnoted.nested _ (List.take_prefix n _), fun chunk hchunk => ?_⟩
  have hglobals : (parse text).globals = globals (parse text).events := rfl
  rw [hglobals, hnoted.events chunk hchunk]
  refine ⟨Skeleton.closed_events chunk.items, globals_eq chunk, fun id hid => ?_, ?_⟩
  · obtain ⟨o, ho, hid, -⟩ := (mem_localReferences chunk id).1 hid
    exact ⟨o, ho, hid⟩
  · intro o ho hbinder
    rw [mem_localReferences, ← Occurrence.declares_iff hbinder]
    constructor
    · rintro ⟨other, hother, hid, hdeclares⟩
      obtain rfl := hnoted.occurrence_eq hchunk hother ho hid
      exact hdeclares
    · exact fun hdeclares => ⟨o, ho, rfl, hdeclares⟩

/-- A shadowing local, a condition behind a loop's body, and a method. -/
def shadowingText : String :=
  "local x = x\nrepeat local y = x until y\nfunction a:m(p) return self, p end"

theorem resolution_of_shadowingText : ∃ chunk, (parse shadowingText).result = .ok chunk ∧
    (parse shadowingText).globals = ["x", "a"] ∧
    (freeNames chunk.occurrences).eraseDups = ["x", "a"] ∧
    closed (parse shadowingText).events = opened (parse shadowingText).events := by
  have ⟨hglobals, hok⟩ : (parse shadowingText).globals = ["x", "a"] ∧
      (parse shadowingText).result.toOption.isSome = true := by
    rw [shadowingText, parse_ofList]
    decide +kernel
  obtain ⟨chunk, hresult⟩ := Parsed.exists_of_isSome hok
  obtain ⟨hclosed, hfree, -⟩ := (resolution_is_lexical shadowingText).2 chunk hresult
  exact ⟨chunk, hresult, hglobals, hfree ▸ hglobals, hclosed⟩

end LuaCompiler
