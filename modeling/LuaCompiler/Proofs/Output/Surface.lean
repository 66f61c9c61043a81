import LuaCompiler.Proofs.Emit.Recorded
import LuaCompiler.Proofs.Output.WellFormed
import LuaCompiler.Proofs.Scope.Apart

/-!
# The surface of the support module

The support module is built from the library functions that a run has recorded, so a function that
is written and not recorded is missing when the code runs. Whatever rule has written it, a function
of a library is recorded under the library and its name in the source. The function of the length
operator is not, nor is the search that gives all results; the program can define functions of its
own in a library; and `call` and `prototype` are there without being recorded.

* `Emit.Context.clear_of_parse`: a program's names are not taken for the support module.
* `provided_compile`: **every library function in the code is provided**.
-/

namespace LuaCompiler

open Scope (Analysis)
open Script (Usage Refers Silent Fixed Provided)
open Token (Kind)

/-! ## Names -/

theorem Scope.Analysis.underscore_mem_freshName (x : String) (k : Nat) :
    '_' ∈ (Analysis.freshName x k).toList := by
  obtain ⟨stem, hstem⟩ := Analysis.toList_freshName x k
  rw [hstem]
  exact List.mem_append_right _ List.mem_cons_self

variable {source path : String} {registries : Registries} {options : Options} {chunk : Chunk}

section Parsed

variable (hparse : (parse source).result = .ok chunk)

include hparse

/-- A name of a program is resolved to itself or to a name with an underscore. -/
theorem resolve_cases (id : NodeId) (name : String) :
    (parse source).annotations.resolve id name = name ∨
      '_' ∈ ((parse source).annotations.resolve id name).toList := by
  by_cases hid : id ∈ (parse source).annotations.renamed
  · obtain ⟨generated, hgenerated⟩ :=
      Option.isSome_iff_exists.1 (Std.TreeMap.mem_iff_isSome_getElem?.1 hid)
    obtain ⟨x, k, rfl⟩ := exists_freshName hparse hgenerated
    refine .inr ?_
    rw [Scope.Annotations.resolve, Std.TreeMap.getD_eq_getD_getElem?, hgenerated]
    exact Analysis.underscore_mem_freshName x k
  · exact .inl (Std.TreeMap.getD_eq_fallback hid)

/-- **The context of a program is clear.** -/
theorem Emit.Context.clear_of_parse {ctx : Context}
    (hannotations : ctx.annotations = (parse source).annotations)
    (hquote : '"' ∉ ctx.fileName.toList) (hslash : '\\' ∉ ctx.fileName.toList)
    (hspace : Fixed ctx.options.valueTypeNamespace) : ctx.Clear := by
  refine ⟨fun id name hname => ?_, fun id name hlibrary => ?_, hquote, hslash,
    fun _ => hspace.grounded⟩
  · rw [hannotations]
    refine ⟨Scope.isValid_resolve (shaped_of_parse hparse).2 id hname.valid, fun hsupport => ?_⟩
    rcases resolve_cases hparse id name with hsame | hunderscore
    · exact hname.ne (hsame.symm.trans hsupport)
    · rw [hsupport] at hunderscore
      exact absurd hunderscore (by decide)
  · rw [hannotations] at hlibrary ⊢
    have hnone : ∀ library ∈ Name.systemLibraries, '_' ∉ library.toList := by decide
    refine (resolve_cases hparse id name).resolve_right fun hunderscore => ?_
    exact hnone _ (List.contains_iff_mem.1 hlibrary) hunderscore

theorem clear_context (hquote : '"' ∉ (moduleName path).toList)
    (hspace : Fixed options.valueTypeNamespace) :
    ((parse source).context path options).Clear := by
  refine Emit.Context.clear_of_parse hparse (Parsed.context_annotations _ path options) ?_ ?_ ?_
  · rwa [Parsed.context_fileName]
  · rw [Parsed.context_fileName]
    exact slash_not_mem_moduleName path
  · rwa [Parsed.context_options]

/-- The tokens of a program that does not name the support module are clear. -/
theorem clear_of_parse (hnone : Kind.name "l2j" ∉ stmtTokens chunk.body) :
    Clear (stmtTokens chunk.body) :=
  Clear.of_spells (spells_block chunk.body (shaped_of_parse hparse).1) hnone

end Parsed

/-- A program starts with tidy comments and without classes. -/
theorem Parsed.ready_start {parsed : Parsed} (htidy : ∀ c ∈ parsed.comments, c.IsTidy)
    (registries : Registries) {I : List String → Prop} (hI : I []) :
    (parsed.start registries).Ready I :=
  ⟨fun c hc => htidy c (List.mem_mergeSort.1 hc), hI⟩

theorem tidy_parse (source : String) : ∀ c ∈ (parse source).comments, c.IsTidy := by
  rw [comments_parse]
  exact Scan.tidy_ofText source.toList

/-! ## Code -/

namespace Emit

/-- Classes are declared under names. -/
theorem keepsClasses_classText : KeepsClasses fun classes => ∀ c ∈ classes, ClassText c where
  allows classes c hclasses hc other hother := by
    rcases mem_withClass.1 hother with hother | rfl
    · exact hclasses other hother
    · exact hc
  refers _ hclasses c hc := refers_classText (hclasses c hc)

end Emit

/-- **Lowered code uses what is recorded then.** -/
theorem Parsed.refers_lower {parsed : Parsed} (registries : Registries)
    (hctx : (parsed.context path options).Clear) (hclear : Clear (stmtTokens chunk.body))
    (htidy : ∀ c ∈ parsed.comments, c.IsTidy) :
    Refers ⟨(lower path options registries parsed chunk).progress.registries.systemFunctions, true⟩
      true (lower path options registries parsed chunk).code := by
  have hwrites := Emit.registers_chunk (K := fun _ => True) hctx hclear Emit.keepsClasses_classText
  obtain ⟨-, hcode⟩ := hwrites (parsed.start registries)
    (Parsed.ready_start htidy registries (List.forall_mem_nil _)) fun _ _ => trivial
  rw [lower_eq]
  exact (hcode _ fun _ hfunction => hfunction).2 rfl

theorem silent_errorComment (errors : List String) : Silent (errorComment errors) := by
  rw [errorComment_eq]
  exact Comment.silent_framed ("\n".intercalate errors) (by decide) (by decide)

/-- The list of what was wrong mentions nothing. -/
theorem Script.Refers.withErrors {u : Usage} {dangling : Bool} {code : String}
    (h : Refers u dangling code) (diagnostics : List Diagnostic) :
    Refers u dangling (LuaCompiler.withErrors diagnostics code) := by
  unfold LuaCompiler.withErrors
  split
  · exact h
  · rw [errorBlock_eq]
    exact (h.beforeSilent (by decide)).beforeSilent (silent_errorComment _)

/-- What compiling a text that parses gives. -/
theorem compile_keep (path : String) (registries : Registries) (options : Options)
    (hparse : (parse source).result = .ok chunk) :
    compile .keep source path registries options =
      ({ code := withErrors ((lower path options registries (parse source) chunk).progress.failures.map
          (unsupportedDiagnostic path)) (lower path options registries (parse source) chunk).code
         diagnostics := (lower path options registries (parse source) chunk).progress.failures.map
          (unsupportedDiagnostic path)
         declaredClasses := (lower path options registries (parse source) chunk).progress.classes
         operatorMode := options.operatorMode.isEnabledFor path },
        (lower path options registries (parse source) chunk).progress.registries) := by
  have hreprint (code : String) (diagnostics : List Diagnostic) :
      reprint .keep options.format path code diagnostics = (code, diagnostics) := by
    unfold reprint
    split <;> rfl
  rw [compile_of_ok .keep path registries options hparse, Module.output, hreprint]

/-- **Every library function in the code is provided.**

Let a program parse that does not use the name of the support module itself. Wherever its code has
`l2j`, a library and a name behind one another, the function is recorded under its name in the
source, or it is that of the length operator, the search that gives all results in place of one that
is recorded, or a function that the program puts there or that every function has. -/
theorem provided_compile (registries : Registries) (hparse : (parse source).result = .ok chunk)
    (hnone : Kind.name "l2j" ∉ stmtTokens chunk.body) (hquote : '"' ∉ (moduleName path).toList)
    (hspace : Fixed options.valueTypeNamespace) {library name : String}
    (hlibrary : Name.isSystemLibrary library = true) {front behind : List Script.Lexeme}
    (hcode : Script.lexemes (compile .keep source path registries options).1.code =
      front ++ .word Script.supportName :: .sign '.' :: .word library.toList :: .sign '.' ::
        .word name.toList :: behind) :
    Provided (compile .keep source path registries options).2.systemFunctions library name behind := by
  have hlower := Parsed.refers_lower registries (clear_context hparse hquote hspace)
    (clear_of_parse hparse hnone) (tidy_parse source)
  rw [compile_keep path registries options hparse] at hcode ⊢
  obtain ⟨ls, hreads, hadmits⟩ := hlower.withErrors
    ((lower path options registries (parse source) chunk).progress.failures.map
      (unsupportedDiagnostic path))
  obtain rfl := hreads.lexemes.symm.trans hcode
  -- a mention in the code is one that the usage of the program admits
  have hadmitted := hadmits _ (Script.mem_mentions.2 ⟨front, rfl⟩) [] fun _ => nofun
  exact hadmitted.library library name behind hlibrary (by simp)

/-- A program that appends what a library function makes of a length. -/
def measuredText : String := "t[#t + 1] = string.format('%d', #t)"

theorem provided_measuredText : ∃ chunk front behind, (parse measuredText).result = .ok chunk ∧
    Kind.name "l2j" ∉ stmtTokens chunk.body ∧
    Script.lexemes (compile .keep measuredText "Game/UI/test.lua" .empty {}).1.code =
      front ++ .word Script.supportName :: .sign '.' :: .word "string".toList :: .sign '.' ::
        .word "format".toList :: behind ∧
    Provided (compile .keep measuredText "Game/UI/test.lua" .empty {}).2.systemFunctions "string"
      "format" behind := by
  have hparsed : (parse measuredText).result.toOption.any (fun chunk =>
      decide (Kind.name "l2j" ∉ stmtTokens chunk.body)) = true := by
    rw [measuredText, parse_ofList]
    decide +kernel
  have hcode : Script.lexemes (compile .keep measuredText "Game/UI/test.lua" .empty {}).1.code =
      Script.lexemes "l2j.table.insert(t, " ++ .word Script.supportName :: .sign '.' ::
        .word "string".toList :: .sign '.' :: .word "format".toList ::
          Script.lexemes "(\"%d\", l2j.table.length(t)))" := by
    rw [compile, measuredText, parse_ofList]
    decide +kernel
  obtain ⟨chunk, hparse, hnamed⟩ := Parsed.exists_of_any hparsed
  have hunnamed := of_decide_eq_true hnamed
  exact ⟨chunk, _, _, hparse, hunnamed, hcode,
    provided_compile .empty hparse hunnamed (by decide +kernel) (by decide) rfl hcode⟩

/-- **The function of the length operator is written and not recorded.** -/
example :
    (compile .keep measuredText "Game/UI/test.lua" .empty {}).1.code =
      "l2j.table.insert(t, l2j.string.format(\"%d\", l2j.table.length(t)))" ∧
    (compile .keep measuredText "Game/UI/test.lua" .empty {}).2.systemFunctions.names =
      ["string.format", "table.insert"] := by
  rw [compile, measuredText, parse_ofList]
  decide +kernel

end LuaCompiler
