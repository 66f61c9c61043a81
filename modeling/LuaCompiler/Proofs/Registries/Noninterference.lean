import LuaCompiler.Proofs.Emit.Traces
import LuaCompiler.Proofs.Output.WellFormed
import LuaCompiler.Proofs.Scope.Declarative

/-!
# Files that do not interfere

The files of a run share the registries. What a file makes of them depends only on what they say
about the names that occur in the file, and all that a file does to them is to merge something into
them. So files without a common name can be compiled in any order.

* `Job`: a file to compile.
* `Job.Records`: what compiling a file merges into the registries, and `exists_records`.
* `registries_noninterference`: **foreign names make no difference, and files commute**.
-/

namespace LuaCompiler

open Scope

/-- The names that occur in the program of a text; none if it is no program. -/
def Parsed.names (parsed : Parsed) : List String :=
  match parsed.result with
  | .ok chunk => chunk.occurrences.map Occurrence.name
  | .error _ => []

/-- A file to compile. -/
structure Job where
  source : String
  path : String
  options : Options := {}

namespace Job

/-- Compiles a file. -/
def compile (formatter : Formatter) (job : Job) (r : Registries) : Output × Registries :=
  LuaCompiler.compile formatter job.source job.path r job.options

/-- The names that occur in a file. -/
def names (job : Job) : List String := (parse job.source).names

variable {formatter : Formatter} {job : Job} {r added : Registries}

/-- **What compiling a file records**: from all registries that agree with some on the names of the
file it gives the same output and merges the same. -/
structure Records (formatter : Formatter) (job : Job) (r added : Registries) : Prop where
  reads : ∀ name ∈ added.globalReads, name ∈ job.names
  initialized : ∀ name ∈ added.initializedGlobals, name ∈ job.names
  compile_eq : ∀ r', r.Agree job.names r' →
    job.compile formatter r' = ((job.compile formatter r).1, r'.merge added)

end Job

/-- What a program does to the registries of a run. -/
def Chunk.footprint (chunk : Chunk) (parsed : Parsed) (path : String) (options : Options) :
    Emit.Footprint :=
  (parsed.context path options).footprint (Skeleton.references chunk.items)

theorem Chunk.footprint_names (chunk : Chunk) (parsed : Parsed) (path : String)
    (options : Options) :
    (chunk.footprint parsed path options).names = chunk.occurrences.map Occurrence.name := by
  rw [Emit.Footprint.names, footprint, Emit.Context.footprint,
    Skeleton.references_eq [] chunk.items, List.map_map]
  rfl

/-- The globals that a program reads, those of the runtime aside. -/
def Parsed.reads (parsed : Parsed) : List String := parsed.globals.filter (!Name.isRuntime ·)

theorem Parsed.registries_eq (parsed : Parsed) (r : Registries) :
    parsed.registries r = r.merge (.ofReads parsed.reads) :=
  Registries.foldl_recordGlobalRead r parsed.reads

/-- **What lowering a program merges into the registries.** -/
theorem lower_merges (path : String) (options : Options) (r : Registries) (parsed : Parsed)
    (chunk : Chunk) :
    ∃ added, Emit.Admits (chunk.footprint parsed path options) (parsed.registries r) added ∧
      ∀ r', r.Agree (chunk.occurrences.map Occurrence.name) r' →
        lower path options r' parsed chunk =
          { code := (lower path options r parsed chunk).code
            progress := { (lower path options r parsed chunk).progress with
              registries := (parsed.registries r').merge added } } := by
  obtain ⟨added, hadmits, hrun⟩ :=
    Emit.confined_chunk (parsed.context path options) (List.Subset.refl _) (parsed.start r)
      (c := chunk)
  refine ⟨added, hadmits, fun r' hagree => ?_⟩
  have hknown : (parsed.registries r).Agree (chunk.footprint parsed path options).names
      (parsed.registries r') := by
    rw [chunk.footprint_names, parsed.registries_eq, parsed.registries_eq]
    exact hagree.merge _
  have hstart : (Emit.chunk (parsed.context path options) chunk).run (parsed.start r') = _ :=
    hrun (parsed.registries r') hknown
  rw [lower_eq, lower_eq, hstart]

/-- The globals of a program are the names that occur free. -/
theorem mem_globals_iff {source : String} {chunk : Chunk}
    (hparse : (parse source).result = .ok chunk) {name : String} :
    name ∈ (parse source).globals ↔ ∃ o ∈ chunk.occurrences, o.isFree = true ∧ o.name = name := by
  have hglobals : (parse source).globals = globals (parse source).events := rfl
  rw [hglobals, (parse_noted source).events chunk hparse, globals_eq, List.mem_eraseDups, freeNames]
  simp [and_assoc]

theorem compile_registries {source : String} {chunk : Chunk} (formatter : Formatter)
    (path : String) (r : Registries) (options : Options)
    (hparse : (parse source).result = .ok chunk) :
    (compile formatter source path r options).2 =
      (lower path options r (parse source) chunk).progress.registries := by
  rw [compile_of_ok formatter path r options hparse]
  rfl

/-- **Every file records something.** -/
theorem Job.exists_records (formatter : Formatter) (job : Job) (r : Registries) :
    ∃ added, Records formatter job r added := by
  cases hparse : (parse job.source).result with
  | error fault =>
    -- a text that does not parse records nothing
    have hfailed := fun r => compile_of_error formatter job.path r job.options hparse
    refine ⟨.empty, fun _ hname => absurd hname NameSet.not_mem_empty,
      fun _ hname => absurd hname NameSet.not_mem_empty, fun r' _ => ?_⟩
    rw [Job.compile, Job.compile, hfailed, hfailed, Registries.merge_empty]
  | ok chunk =>
    have hnames : job.names = chunk.occurrences.map Occurrence.name := by
      simp [Job.names, Parsed.names, hparse]
    -- what is lowered adds the same from all registries that agree on the names
    obtain ⟨added, hadmits, hlower⟩ :=
      lower_merges job.path job.options r (parse job.source) chunk
    refine ⟨(Registries.ofReads (parse job.source).reads).merge added, fun name hname => ?_,
      fun name hname => ?_, fun r' hagree => ?_⟩
    · have hread : name ∈ (Registries.ofReads (parse job.source).reads).globalReads := by
        rcases NameSet.mem_union.1 hname with hname | hname
        · exact hname
        · rw [hadmits.reads] at hname
          exact absurd hname NameSet.not_mem_empty
      -- a global that is read occurs in the text
      have hglobal : name ∈ (parse job.source).globals :=
        (List.mem_filter.1 (Registries.mem_ofReads.1 hread)).1
      obtain ⟨o, ho, -, rfl⟩ := (mem_globals_iff hparse).1 hglobal
      rw [hnames]
      exact List.mem_map_of_mem ho
    · rcases NameSet.mem_union.1 hname with hname | hname
      · exact absurd hname NameSet.not_mem_empty
      · obtain ⟨⟨id, hid, -⟩, -⟩ := hadmits.initialized name hname
        rw [hnames, ← chunk.footprint_names (parse job.source) job.path job.options]
        exact List.mem_map_of_mem (f := Prod.snd) hid
    · rw [hnames] at hagree
      rw [Job.compile, Job.compile, compile_of_ok formatter job.path r' job.options hparse,
        compile_of_ok formatter job.path r job.options hparse, hlower r' hagree, Module.output,
        Module.output, Parsed.registries_eq, Registries.merge_assoc]

theorem Job.Records.compile_self {formatter : Formatter} {job : Job} {r added : Registries}
    (h : Records formatter job r added) :
    job.compile formatter r = ((job.compile formatter r).1, r.merge added) :=
  h.compile_eq r (.refl _ _)

/-- **Files do not interfere.** From registries that agree on the names of a file, compiling the file
gives the same output and records the same, all of it about names of the file but for the library
functions. Two files without a common name can be compiled in either order: from all registries they
give the same outputs and leave the same registries behind. -/
theorem registries_noninterference (formatter : Formatter) :
    (∀ (job : Job) (r r' : Registries), r.Agree job.names r' →
      (job.compile formatter r').1 = (job.compile formatter r).1 ∧
      ∃ added : Registries, (∀ name ∈ added.globalReads, name ∈ job.names) ∧
        (∀ name ∈ added.initializedGlobals, name ∈ job.names) ∧
        (job.compile formatter r).2 = r.merge added ∧
        (job.compile formatter r').2 = r'.merge added) ∧
    ∀ (first second : Job) (r : Registries), (∀ name ∈ first.names, name ∉ second.names) →
      (first.compile formatter (second.compile formatter r).2).1 = (first.compile formatter r).1 ∧
      (second.compile formatter (first.compile formatter r).2).1 = (second.compile formatter r).1 ∧
      (second.compile formatter (first.compile formatter r).2).2 =
        (first.compile formatter (second.compile formatter r).2).2 := by
  refine ⟨fun job r r' hagree => ?_, fun first second r hdisjoint => ?_⟩
  · obtain ⟨added, hadded⟩ := job.exists_records formatter r
    rw [hadded.compile_eq r' hagree]
    exact ⟨rfl, added, hadded.reads, hadded.initialized, congrArg Prod.snd hadded.compile_self, rfl⟩
  · obtain ⟨added, hadded⟩ := first.exists_records formatter r
    obtain ⟨more, hmore⟩ := second.exists_records formatter r
    -- each file records names of its own only, so that the other one does not see them
    have hfirst : r.Agree first.names (r.merge more) := Registries.agree_merge r
      (fun name hname hmem => hdisjoint name hname (hmore.reads name hmem))
      (fun name hname hmem => hdisjoint name hname (hmore.initialized name hmem))
    have hsecond : r.Agree second.names (r.merge added) := Registries.agree_merge r
      (fun name hname hmem => hdisjoint name (hadded.reads name hmem) hname)
      (fun name hname hmem => hdisjoint name (hadded.initialized name hmem) hname)
    have hleft : (first.compile formatter r).2 = r.merge added :=
      congrArg Prod.snd hadded.compile_self
    have hright : (second.compile formatter r).2 = r.merge more :=
      congrArg Prod.snd hmore.compile_self
    rw [hleft, hright, hadded.compile_eq _ hfirst, hmore.compile_eq _ hsecond]
    exact ⟨rfl, rfl, Registries.merge_right_comm r added more⟩

/-- A file that makes a class and puts it at the end of a list. -/
def nodeJob : Job where
  source := "Node = \x7b\x7d list[#list + 1] = Node"
  path := "Game/UI/node.lua"

/-- A file about another class. -/
def shapeJob : Job := { source := "Shape = \x7b\x7d print(Shape)", path := "Game/UI/shape.lua" }

/-- Registries that know another class. -/
def shapeRegistries : Registries :=
  (Registries.empty.recordGlobalRead "Shape").recordInitializedGlobal "Shape"

theorem noninterference_of_classes :
    Registries.empty.Agree nodeJob.names shapeRegistries ∧
    (nodeJob.compile .keep shapeRegistries).1 = (nodeJob.compile .keep .empty).1 ∧
    (∀ name ∈ nodeJob.names, name ∉ shapeJob.names) ∧
    (shapeJob.compile .keep (nodeJob.compile .keep .empty).2).2 =
      (nodeJob.compile .keep (shapeJob.compile .keep .empty).2).2 ∧
    (nodeJob.compile .keep .empty).2.initializedGlobals.names = ["Node"] := by
  have hagree : Registries.empty.Agree nodeJob.names shapeRegistries := by decide +kernel
  have hdisjoint : ∀ name ∈ nodeJob.names, name ∉ shapeJob.names := by decide +kernel
  obtain ⟨hsame, hcommute⟩ := registries_noninterference .keep
  exact ⟨hagree, (hsame nodeJob _ _ hagree).1, hdisjoint,
    (hcommute nodeJob shapeJob .empty hdisjoint).2.2, by decide +kernel⟩

end LuaCompiler
