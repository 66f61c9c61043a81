import LuaCompiler.Proofs.Output.WellFormed

/-!
# The comments of a file in its code

Lowering hands out the comments of a program one by one, and most rules write what they are handed.
`Layout.isFaithful` says of a program that no comment stands where a rule does otherwise: at the start
of a loop over numbers from one, in an operand that is written twice, among the members of a class
with a parent that has comments of its own. The other way to lose count is a class that is declared
under a name with a comment behind it, since sealing writes the name once more.

* `comments_compile`: **elsewhere, each comment of the source is written once and in source order**.
-/

namespace LuaCompiler

open Script (Plain Closed)
open Emit (Layout Mark Transcribes)

/-- The comments in front of code that is not clean. -/
def Output.errorComments (output : Output) : List String :=
  if output.isClean then [] else [errorComment (output.diagnostics.map Diagnostic.display)]

variable {source path : String} {registries : Registries} {chunk : Chunk}

/-- The walk over a program leaves no comment behind. -/
theorem waiting_layout (parsed : Parsed) (options : Options) (queue : CommentQueue) :
    ((parsed.layout path options registries chunk).run queue).2.waiting = [] := rfl

/-- Comments of a program that is lowered faithfully are all written, in their order. -/
theorem marks_layout (hfaithful : ((parse source).layout path {} registries chunk).isFaithful
    (.ofComments (parse source).comments) = true) :
    Mark.comments (((parse source).layout path {} registries chunk).run
      (.ofComments (parse source).comments)).1 = (parse source).comments := by
  have hwaiting := Layout.waiting_eq hfaithful
  have hascending : Ascending (parse source).comments :=
    comments_parse source ▸ Scan.ascending_ofText source.toList
  rw [waiting_layout, List.append_nil, CommentQueue.waiting_ofComments hascending] at hwaiting
  exact hwaiting.symm

/-- **The comments of the code are those of the source, each once and in source order**, behind the
list of errors and among the remarks on what could not be lowered, if the program is lowered
faithfully and no class is declared under a name with a comment. -/
theorem comments_compile (formatter : Formatter) (hparse : (parse source).result = .ok chunk)
    (hquote : '"' ∉ (moduleName path).toList)
    (hfaithful : ((parse source).layout path {} registries chunk).isFaithful
      (.ofComments (parse source).comments) = true)
    (hclasses : ∀ name ∈ (compile formatter source path registries {}).1.declaredClasses,
      Plain name) :
    ∃ marks found, Mark.comments marks = (parse source).comments ∧
      Ascending (parse source).comments ∧ Transcribes marks found ∧
      Script.comments (compile formatter source path registries {}).1.code =
        (compile formatter source path registries {}).1.errorComments ++
          found.map String.ofList := by
  have hascending : Ascending (parse source).comments :=
    comments_parse source ▸ Scan.ascending_ofText source.toList
  obtain ⟨found, hclosed, htranscribes⟩ := closed_lower registries hparse hquote
    (by decide : Plain ({} : Options).valueTypeNamespace)
  rw [compile_of_parse formatter path registries hparse] at hclasses ⊢
  refine ⟨_, found, marks_layout hfaithful, hascending, htranscribes hclasses, ?_⟩
  unfold Output.errorComments Output.isClean withErrors
  dsimp only
  -- the list of errors is one more comment in front of those of the program
  split
  · rw [hclosed.comments, List.nil_append]
  · rw [(closed_errorBlock _ hclosed).comments, List.map_cons, String.ofList_toList,
      List.singleton_append]

/-- Comments above, behind and inside statements. -/
def commentedText : String :=
  "-- a\nlocal x = 1 -- b\nif x then --[[c]]\n  f(x, -- d\n    2)\nend\n--[[e\n]] return x"

theorem comments_commentedText : ∃ chunk, (parse commentedText).result = .ok chunk ∧
    ∃ marks found, Mark.comments marks = (parse commentedText).comments ∧ Transcribes marks found ∧
      Script.comments (compile .keep commentedText "Game/UI/test.lua" .empty {}).1.code =
        found.map String.ofList := by
  have ⟨hfaithful, hclean⟩ : (parse commentedText).result.toOption.any (fun chunk =>
        ((parse commentedText).layout "Game/UI/test.lua" {} .empty chunk).isFaithful
          (.ofComments (parse commentedText).comments)) = true ∧
      (compile .keep commentedText "Game/UI/test.lua" .empty {}).1.isClean = true ∧
      (compile .keep commentedText "Game/UI/test.lua" .empty {}).1.declaredClasses = [] := by
    rw [compile, commentedText, parse_ofList]
    decide +kernel
  obtain ⟨chunk, hparse, hfaithful⟩ := Parsed.exists_of_any hfaithful
  obtain ⟨marks, found, hmarks, -, htranscribes, hcomments⟩ := comments_compile .keep hparse
    (by decide +kernel) hfaithful (by simp [hclean.2])
  rw [Output.errorComments, if_pos hclean.1, List.nil_append] at hcomments
  exact ⟨chunk, hparse, marks, found, hmarks, htranscribes, hcomments⟩

end LuaCompiler
