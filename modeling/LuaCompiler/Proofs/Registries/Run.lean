import LuaCompiler.Proofs.Registries.Noninterference
import LuaCompiler.Proofs.Scope.Binders

/-!
# The registries of a run

A run compiles files one after the other on one set of registries. The registries only grow; a file
adds the globals that it reads, and the globals that its assignments publish are among those and none
of the runtime's.

* `registriesAfter`: the registries behind some files.
* `Registries.Sound`: the invariant of a run, `Job.sound_compile` for one file and
  `sound_registriesAfter` for the run.
* `registries_of_run`: **what every file of a run does to the registries**.
-/

namespace LuaCompiler

open Scope

/-- The registries behind some files. -/
def registriesAfter (formatter : Formatter) (r : Registries) (jobs : List Job) : Registries :=
  jobs.foldl (fun r job => (job.compile formatter r).2) r

/-- **Published globals are read, and none is the runtime's.** -/
def Registries.Sound (r : Registries) : Prop :=
  ∀ name ∈ r.initializedGlobals, name ∈ r.globalReads ∧ Name.isRuntime name = false

/-! ## What is published -/

/-- A reference that is not to a local occurs free, or it is to a receiver. -/
theorem free_or_receiver {source : String} {chunk : Chunk}
    (hparse : (parse source).result = .ok chunk) {o : Occurrence} (ho : o ∈ chunk.occurrences)
    (hlocal : o.id ∉ (parse source).annotations.localReferences) :
    o.isFree = true ∨ o.binder? = some .receiver := by
  rw [Parsed.annotations, (parse_noted source).events chunk hparse, mem_localReferences] at hlocal
  by_cases hbinder : o.binder? = some .receiver
  · exact .inr hbinder
  · refine .inl (Bool.not_eq_false _ ▸ fun hbound => hlocal ⟨o, ho, rfl, ?_⟩)
    exact (Occurrence.declares_iff hbinder).2 hbound

/-- The references of a program stand for occurrences. -/
theorem occurrence_of_publishable {source path : String} {options : Options} {chunk : Chunk}
    (hparse : (parse source).result = .ok chunk) {r : Registries} {name : String}
    (h : Emit.Publishable (chunk.footprint (parse source) path options) r name) :
    ∃ o ∈ chunk.occurrences, o.name = name ∧ (o.isFree = true ∨ o.binder? = some .receiver) := by
  obtain ⟨id, hid, hlocal⟩ := h.reference
  have hmem : (id, name) ∈ Skeleton.references chunk.items := hid
  rw [Skeleton.references_eq [] chunk.items] at hmem
  obtain ⟨o, ho, heq⟩ := List.mem_map.1 hmem
  obtain ⟨rfl, rfl⟩ := Prod.mk.inj heq
  exact ⟨o, ho, rfl, free_or_receiver hparse ho hlocal⟩

/-- Only an occurrence of its name is bound to a receiver. -/
theorem name_of_receiver {source : String} {chunk : Chunk}
    (hparse : (parse source).result = .ok chunk) {o : Occurrence} (ho : o ∈ chunk.occurrences)
    (hbinder : o.binder? = some .receiver) : o.name = receiverName :=
  ((fit_of_parse hparse ho).keyed.name_eq hbinder).symm

/-- **Binding a local publishes nothing.** -/
theorem Emit.bind_registries {ctx : Emit.Context} {targets : Emit.Targets}
    (h : targets.isLocal = true) (init : List Expr) (values : List String) (p : Emit.Progress) :
    ((Emit.bind ctx targets init values).run p).2.registries = p.registries := by
  unfold Emit.bind
  split
  · rw [Emit.bindName_run, Emit.bindAs_run, Emit.publishes_of_isLocal h]
    rfl
  · rfl
  · rfl

/-! ## One file -/

namespace Job

variable {formatter : Formatter} {job : Job} {r : Registries} {chunk : Chunk} {name : String}

theorem registries_of_error {fault : Located SyntaxFault}
    (hparse : (parse job.source).result = .error fault) : (job.compile formatter r).2 = r := by
  rw [Job.compile, compile_of_error formatter job.path r job.options hparse]

/-- What a program merges: the globals that it reads, and what its lowering may merge. -/
theorem exists_admits (formatter : Formatter) (hparse : (parse job.source).result = .ok chunk)
    (r : Registries) :
    ∃ added, Emit.Admits (chunk.footprint (parse job.source) job.path job.options)
        ((parse job.source).registries r) added ∧
      (job.compile formatter r).2 = ((parse job.source).registries r).merge added := by
  obtain ⟨added, hadmits, hlower⟩ := lower_merges job.path job.options r (parse job.source) chunk
  refine ⟨added, hadmits, ?_⟩
  rw [Job.compile, compile_registries formatter job.path r job.options hparse,
    hlower r (.refl _ _)]

theorem mem_registries_reads : name ∈ ((parse job.source).registries r).globalReads ↔
    name ∈ r.globalReads ∨ name ∈ (parse job.source).globals ∧ Name.isRuntime name = false := by
  rw [Parsed.registries_eq]
  change name ∈ r.globalReads.union (Registries.ofReads (parse job.source).reads).globalReads ↔ _
  rw [NameSet.mem_union, Registries.mem_ofReads, Parsed.reads, List.mem_filter,
    Bool.not_eq_true']

theorem mem_globalReads (formatter : Formatter) (hparse : (parse job.source).result = .ok chunk)
    (r : Registries) :
    name ∈ (job.compile formatter r).2.globalReads ↔
      name ∈ r.globalReads ∨ name ∈ (parse job.source).globals ∧ Name.isRuntime name = false := by
  obtain ⟨added, hadmits, hregistries⟩ := exists_admits formatter hparse r
  rw [hregistries, ← mem_registries_reads]
  change name ∈ ((parse job.source).registries r).globalReads.union added.globalReads ↔ _
  rw [hadmits.reads, NameSet.union_empty]

/-- **A global that a file publishes** occurs there, free or as a receiver; it is read, and it is none
of the runtime's. -/
theorem published (formatter : Formatter) (hparse : (parse job.source).result = .ok chunk)
    (hself : receiverName ∉ job.options.valueTypes)
    (hname : name ∈ (job.compile formatter r).2.initializedGlobals)
    (hnew : name ∉ r.initializedGlobals) :
    (∃ o ∈ chunk.occurrences, o.name = name ∧ (o.isFree = true ∨ o.binder? = some .receiver)) ∧
      name ∈ (job.compile formatter r).2.globalReads ∧ Name.isRuntime name = false := by
  obtain ⟨added, hadmits, hregistries⟩ := exists_admits formatter hparse r
  have hadded : name ∈ added.initializedGlobals := by
    rw [hregistries, Parsed.registries_eq] at hname
    rcases NameSet.mem_union.1 hname with hbefore | hadded
    · rcases NameSet.mem_union.1 hbefore with hbefore | hnone
      · exact absurd hbefore hnew
      · exact absurd hnone NameSet.not_mem_empty
    · exact hadded
  have hpublishable := hadmits.initialized name hadded
  obtain ⟨o, ho, hoccurs, hfree⟩ := occurrence_of_publishable hparse hpublishable
  refine ⟨⟨o, ho, hoccurs, hfree⟩, ?_, hpublishable.foreign⟩
  rw [mem_globalReads formatter hparse]
  rcases hpublishable.known with hread | hvalueType
  · exact mem_registries_reads.1 (Registries.isGlobalRead_iff.1 hread)
  · -- a value type that is not read would have to be the receiver
    rcases hfree with hfree | hreceiver
    · exact .inr ⟨(mem_globals_iff hparse).2 ⟨o, ho, hfree, hoccurs⟩, hpublishable.foreign⟩
    · have hvalue : name ∈ job.options.valueTypes := List.contains_iff_mem.1 hvalueType
      rw [← hoccurs, name_of_receiver hparse ho hreceiver] at hvalue
      exact absurd hvalue hself

/-- **Registries only grow.** -/
theorem le_compile (formatter : Formatter) (job : Job) (r : Registries) (name : String) :
    (name ∈ r.systemFunctions → name ∈ (job.compile formatter r).2.systemFunctions) ∧
    (name ∈ r.globalReads → name ∈ (job.compile formatter r).2.globalReads) ∧
    (name ∈ r.initializedGlobals → name ∈ (job.compile formatter r).2.initializedGlobals) := by
  obtain ⟨added, hadded⟩ := job.exists_records formatter r
  rw [hadded.compile_self]
  exact ⟨fun h => NameSet.mem_union.2 (.inl h), fun h => NameSet.mem_union.2 (.inl h),
    fun h => NameSet.mem_union.2 (.inl h)⟩

/-- **One file keeps the invariant.** -/
theorem sound_compile (formatter : Formatter) (hself : receiverName ∉ job.options.valueTypes)
    (hsound : r.Sound) : (job.compile formatter r).2.Sound := by
  cases hparse : (parse job.source).result with
  | error fault => rwa [registries_of_error hparse]
  | ok chunk =>
    intro name hname
    by_cases hbefore : name ∈ r.initializedGlobals
    · obtain ⟨hread, hforeign⟩ := hsound name hbefore
      exact ⟨(le_compile formatter job r name).2.1 hread, hforeign⟩
    · exact (published formatter hparse hself hname hbefore).2

end Job

/-! ## Runs -/

/-- **A run keeps the invariant.** -/
theorem sound_registriesAfter (formatter : Formatter) {jobs : List Job}
    (hself : ∀ job ∈ jobs, receiverName ∉ job.options.valueTypes) {r : Registries}
    (hsound : r.Sound) : (registriesAfter formatter r jobs).Sound := by
  induction jobs generalizing r with
  | nil => exact hsound
  | cons job jobs ih =>
    obtain ⟨hfirst, hrest⟩ := List.forall_mem_cons.1 hself
    exact ih hrest (job.sound_compile formatter hfirst hsound)

theorem sound_empty : Registries.empty.Sound :=
  fun _ hname => absurd hname NameSet.not_mem_empty

/-- **What every file of a run does to the registries**, where no options make a value type of the
receiver's name. Behind some files, compiling one more loses nothing. A text that is no program
changes nothing. A program adds to the globals that are read exactly its own, those of the runtime
aside. The globals published so far are read and none is the runtime's; each one that the file
publishes occurs in it where no declared local of its name is visible: free, or as the receiver of a
method. Binding what is bound to a declared local publishes nothing. -/
theorem registries_of_run (formatter : Formatter) (jobs : List Job) (job : Job)
    (hself : ∀ other ∈ job :: jobs, receiverName ∉ other.options.valueTypes) :
    let before := registriesAfter formatter .empty jobs
    let after := (job.compile formatter before).2
    (∀ name, (name ∈ before.systemFunctions → name ∈ after.systemFunctions) ∧
      (name ∈ before.globalReads → name ∈ after.globalReads) ∧
      (name ∈ before.initializedGlobals → name ∈ after.initializedGlobals)) ∧
    (∀ fault, (parse job.source).result = .error fault → after = before) ∧
    (∀ name ∈ after.initializedGlobals,
      name ∈ after.globalReads ∧ Name.isRuntime name = false) ∧
    ∀ chunk, (parse job.source).result = .ok chunk →
      (∀ name, name ∈ after.globalReads ↔ name ∈ before.globalReads ∨
        name ∈ (parse job.source).globals ∧ Name.isRuntime name = false) ∧
      (∀ name ∈ after.initializedGlobals, name ∉ before.initializedGlobals →
        ∃ o ∈ chunk.occurrences, o.name = name ∧
          (o.isFree = true ∨ o.binder? = some .receiver)) ∧
      ∀ o ∈ chunk.occurrences, ∀ d, o.binder? = some (.declared d) →
        ∀ ctx : Emit.Context, ctx.annotations = (parse job.source).annotations →
          ∀ span texts init values p,
            ((Emit.bind ctx.asValue (Emit.assignedTargets ctx [⟨o.id, span, .name o.name⟩] texts)
              init values).run p).2.registries = p.registries := by
  intro before after
  obtain ⟨hlast, hjobs⟩ := List.forall_mem_cons.1 hself
  have hsound : before.Sound := sound_registriesAfter formatter hjobs sound_empty
  refine ⟨job.le_compile formatter before, fun fault hparse => Job.registries_of_error hparse,
    job.sound_compile formatter hlast hsound, fun chunk hparse => ⟨fun name => ?_, ?_, ?_⟩⟩
  · exact Job.mem_globalReads formatter hparse before
  · exact fun name hname hnew => (Job.published formatter hparse hlast hname hnew).1
  · intro o ho d hd ctx hctx span texts init values p
    refine Emit.bind_registries ?_ init values p
    change ctx.annotations.localReferences.contains o.id = true
    rw [hctx, Std.TreeSet.contains_iff_mem]
    -- a name that no local has is free or the receiver, and this one is bound to `d`
    by_contra hlocal
    rcases free_or_receiver hparse ho hlocal with hfree | hreceiver
    · rw [Occurrence.isFree, hd] at hfree
      cases hfree
    · rw [hd] at hreceiver
      cases hreceiver

/-- A file that reads a class of another file. -/
def readingJob : Job := { source := "print(Node)", path := "Game/UI/reading.lua" }

/-- A file that makes the class, and assigns to a local and to the receiver of a method. -/
def makingJob : Job where
  source := "Node = \x7b\x7d local count = 0 count = 1 function Node:reset() self = count end"
  path := "Game/UI/making.lua"

theorem registries_of_making :
    (∀ other ∈ [makingJob, readingJob], receiverName ∉ other.options.valueTypes) ∧
    (makingJob.compile .keep (registriesAfter .keep .empty [readingJob])).2.initializedGlobals.names =
      ["Node"] ∧
    ∀ name ∈ (makingJob.compile .keep
        (registriesAfter .keep .empty [readingJob])).2.initializedGlobals,
      name ∈ (makingJob.compile .keep (registriesAfter .keep .empty [readingJob])).2.globalReads ∧
        Name.isRuntime name = false := by
  have hself : ∀ other ∈ [makingJob, readingJob], receiverName ∉ other.options.valueTypes := by
    decide +kernel
  obtain ⟨-, -, hsound, -⟩ := registries_of_run .keep [readingJob] makingJob hself
  exact ⟨hself, by decide +kernel, hsound⟩

/-- The receiver of a method is no declared local: once a global of its name is read, assigning to it
publishes that global. -/
example : (Job.compile .keep ⟨"print(self) function M:f() self = 1 end", "Game/UI/test.lua", {}⟩
    .empty).2.initializedGlobals.names = ["self"] := by
  rw [Job.compile, compile, parse_ofList]
  decide +kernel

end LuaCompiler
