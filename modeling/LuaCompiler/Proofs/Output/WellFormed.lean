import LuaCompiler.Proofs.Emit.Rendered
import LuaCompiler.Proofs.Generator.Compiled
import LuaCompiler.Proofs.Parser.Forward
import LuaCompiler.Proofs.Scope.Binders

/-!
# The code of a file is well formed

Whatever the source, the code that compiling gives can be read as a script from one end to the other:
every string, template and comment that is opened is ended, and brackets are closed in order. User
text comes into the code through names, strings, comments, messages and the name of the file; of
these only the last can break the code, by a double quote.

* `Module.layout`: the layout of a program, and `renders_lower`: the code is rendered as it says.
* `isWellFormed_compile`: **the code is well formed**.
-/

namespace LuaCompiler

open Script (Plain Closed)
open Emit (Layout Renders)

/-! ## The list of errors -/

/-- The comment that lists errors. -/
def errorComment (errors : List String) : String :=
  "/*\n" ++ Text.replace ("\n".intercalate errors) "*/" "* /" ++ "\n*/"

theorem errorBlock_eq (errors : List String) (code : String) :
    errorBlock errors code = errorComment errors ++ ("\n" ++ code) := by
  apply String.toList_inj.1
  simp [errorBlock, errorComment]

theorem errorComment_eq (errors : List String) :
    errorComment errors = "/*" ++ (String.singleton '\n' ++
      Text.replace ("\n".intercalate errors) "*/" "* /" ++ String.singleton '\n') ++ "*/" := by
  apply String.toList_inj.1
  simp [errorComment]

theorem closed_errorComment (errors : List String) :
    Closed (errorComment errors) [(errorComment errors).toList] := by
  rw [errorComment_eq]
  refine Script.closed_blockComment ?_
  exact (Script.contains_end_around (by decide) (by decide) _).trans
    (Script.contains_replace_end _)

theorem closed_errorBlock (errors : List String) {code : String} {found : List (List Char)}
    (h : Closed code found) :
    Closed (errorBlock errors code) ((errorComment errors).toList :: found) := by
  rw [errorBlock_eq]
  exact (closed_errorComment errors).append (Closed.plain_append (by decide) h)

/-! ## The name of a module -/

theorem slash_not_mem_replace (path : String) : '\\' ∉ (Text.replace path "\\" "/").toList := by
  rw [Text.replace, String.toList_ofList]
  have h : ∀ t : List Char, '\\' ∉ Text.replaceFrom ['\\'] ['/'] 0 t := by
    intro t
    rw [Script.replaceFrom_single]
    simp only [List.mem_flatMap, not_exists, not_and]
    intro c _
    split
    · decide
    next hc => simpa using Ne.symm hc
  exact h path.toList

theorem subset_splitName (name : String) : (Path.splitName name).1.toList ⊆ name.toList := by
  unfold Path.splitName
  dsimp only
  split
  · exact List.Subset.refl _
  · rw [String.toList_ofList]
    exact List.take_subset _ _

theorem subset_intercalate {part sep : List Char} {parts : List (List Char)} (h : part ∈ parts) :
    part ⊆ sep.intercalate parts := by
  induction parts with
  | nil => cases h
  | cons first rest ih =>
    cases rest with
    | nil =>
      rw [List.mem_singleton.1 h, List.intercalate_singleton]
      exact List.Subset.refl _
    | cons second rest =>
      rw [List.intercalate_cons_cons]
      rcases List.mem_cons.1 h with rfl | h
      · exact List.subset_append_of_subset_left _ (List.subset_append_left _ _)
      · exact List.subset_append_of_subset_right _ (ih h)

theorem subset_stem (path : String) : (Path.stem path).toList ⊆ path.toList := by
  unfold Path.stem
  cases hname : Path.fileName? path with
  | none => exact List.nil_subset _
  | some name =>
    have hparts : name ∈ Path.parts path :=
      List.mem_of_getLast? (Option.eq_some_of_filter_eq_some hname)
    obtain ⟨segment, hsegment, rfl⟩ := List.mem_map.1 (List.mem_filter.1 hparts).1
    refine List.Subset.trans (subset_splitName _) ?_
    rw [String.toList_ofList]
    have hjoin : ['/'].intercalate (path.toList.splitOn '/') = path.toList :=
      List.intercalate_splitOn '/'
    exact hjoin ▸ subset_intercalate hsegment

/-- The name of a module has no backslash. -/
theorem slash_not_mem_moduleName (path : String) : '\\' ∉ (moduleName path).toList :=
  fun h => slash_not_mem_replace path (subset_stem _ h)

/-! ## Lowered programs -/

theorem Parsed.context_options (parsed : Parsed) (path : String) (options : Options) :
    (parsed.context path options).options = options := by
  rw [Parsed.context]

theorem Parsed.context_annotations (parsed : Parsed) (path : String) (options : Options) :
    (parsed.context path options).annotations = parsed.annotations := by
  rw [Parsed.context, Parsed.annotations]

theorem Parsed.context_fileName (parsed : Parsed) (path : String) (options : Options) :
    (parsed.context path options).fileName = moduleName path := by
  rw [Parsed.context]

/-- **The layout of a program.** -/
def Parsed.layout (parsed : Parsed) (path : String) (options : Options) (registries : Registries)
    (chunk : Chunk) : Layout :=
  .chunk (parsed.context path options) (parsed.registries registries) chunk

variable {source path : String} {registries : Registries} {options : Options} {chunk : Chunk}

theorem lower_eq (parsed : Parsed) :
    lower path options registries parsed chunk =
      ⟨((Emit.chunk (parsed.context path options) chunk).run (parsed.start registries)).1,
        ((Emit.chunk (parsed.context path options) chunk).run (parsed.start registries)).2⟩ := rfl

/-- Lowered code is rendered as the layout of the program says, from the comments of its text on. -/
theorem renders_lower {parsed : Parsed} (registries : Registries) (hshaped : BlockShaped chunk.body)
    (hevents : ∀ event ∈ parsed.events, event.IsNamed)
    (htidy : ∀ c ∈ parsed.comments, c.IsTidy) (hquote : '"' ∉ (moduleName path).toList)
    (hvalueTypes : Plain options.valueTypeNamespace) :
    ∃ rest, Renders (lower path options registries parsed chunk).progress.classes
      (parsed.layout path options registries chunk) (.ofComments parsed.comments)
      (lower path options registries parsed chunk).code rest := by
  have hname := parsed.context_fileName path options
  have hctx : (parsed.context path options).Tame := by
    refine Emit.Context.tame_of_events hevents rfl ?_ ?_ hvalueTypes
    · rwa [hname]
    · rw [hname]
      exact slash_not_mem_moduleName path
  have hstart : (parsed.start registries).Sound (parsed.registries registries) :=
    ⟨fun c hc => htidy c (List.mem_mergeSort.1 hc), List.forall_mem_nil _, fun _ => rfl⟩
  have hemits := Emit.emits_chunk hctx hshaped (parsed.start registries) hstart
  rw [lower_eq]
  exact ⟨_, hemits.2.2 _ (List.Subset.refl _)⟩

/-- The code of a text that parses is rendered as the layout of the program says. -/
theorem renders_of_parse (registries : Registries) (hparse : (parse source).result = .ok chunk)
    (hquote : '"' ∉ (moduleName path).toList) (hvalueTypes : Plain options.valueTypeNamespace) :
    ∃ rest, Renders (lower path options registries (parse source) chunk).progress.classes
      ((parse source).layout path options registries chunk) (.ofComments (parse source).comments)
      (lower path options registries (parse source) chunk).code rest := by
  obtain ⟨hshaped, hevents⟩ := shaped_of_parse hparse
  have htidy : ∀ c ∈ (parse source).comments, c.IsTidy :=
    comments_parse source ▸ Scan.tidy_ofText source.toList
  exact renders_lower registries hshaped hevents htidy hquote hvalueTypes

/-- Lowered code is closed, and so are the names of the classes that it declares. -/
theorem closed_lower (registries : Registries) (hparse : (parse source).result = .ok chunk)
    (hquote : '"' ∉ (moduleName path).toList) (hvalueTypes : Plain options.valueTypeNamespace) :
    ∃ found, Closed (lower path options registries (parse source) chunk).code found ∧
      ((∀ c ∈ (lower path options registries (parse source) chunk).progress.classes, Plain c) →
        Emit.Transcribes (((parse source).layout path options registries chunk).run
          (.ofComments (parse source).comments)).1 found) := by
  have htidy : ∀ c ∈ (parse source).comments, c.IsTidy :=
    comments_parse source ▸ Scan.tidy_ofText source.toList
  obtain ⟨rest, hrenders⟩ := renders_of_parse registries hparse hquote hvalueTypes
  obtain ⟨-, hclosed⟩ := hrenders.closed fun c hc => htidy c (List.mem_mergeSort.1 hc)
  exact hclosed

theorem compile_of_parse (formatter : Formatter) (path : String) (registries : Registries)
    (hparse : (parse source).result = .ok chunk) :
    (compile formatter source path registries {}).1 =
      { code := withErrors ((lower path {} registries (parse source) chunk).progress.failures.map
          (unsupportedDiagnostic path)) (lower path {} registries (parse source) chunk).code
        diagnostics := (lower path {} registries (parse source) chunk).progress.failures.map
          (unsupportedDiagnostic path)
        declaredClasses := (lower path {} registries (parse source) chunk).progress.classes
        operatorMode := OperatorMode.isEnabledFor {} path } := by
  rw [compile_of_ok formatter path registries {} hparse]
  rfl

/-- **The code of a file is well formed**, whatever the source and the registries, if the file's name
has no double quote. -/
theorem isWellFormed_compile (formatter : Formatter) (source path : String)
    (registries : Registries) (hquote : '"' ∉ (moduleName path).toList) :
    Script.isWellFormed (compile formatter source path registries {}).1.code = true := by
  cases hparse : (parse source).result with
  | error fault =>
    -- what does not parse gives a list of errors and no code
    rw [compile_of_error formatter path registries {} hparse]
    exact (closed_errorBlock _ Script.plain_empty).isWellFormed
  | ok chunk =>
    obtain ⟨found, hclosed, -⟩ := closed_lower registries hparse hquote
      (by decide : Plain ({} : Options).valueTypeNamespace)
    rw [compile_of_parse formatter path registries hparse]
    unfold withErrors
    dsimp only
    split
    · exact hclosed.isWellFormed
    · exact (closed_errorBlock _ hclosed).isWellFormed

/-- A string, a comment and a jump that would break the code if they were copied. -/
def hostileText : String :=
  "local s = '\"`*/' --[[ */ \x7b ]] goto out -- (\nreturn [[$\x7bs\x7d`]]"

theorem isWellFormed_hostileText : '"' ∉ (moduleName "Game/UI/hostile.lua").toList ∧
    Script.isWellFormed (compile .keep hostileText "Game/UI/hostile.lua" .empty {}).1.code = true :=
  ⟨by decide +kernel, isWellFormed_compile .keep hostileText _ .empty (by decide +kernel)⟩

end LuaCompiler
