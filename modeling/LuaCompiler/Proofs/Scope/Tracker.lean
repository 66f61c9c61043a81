import LuaCompiler.Proofs.Rising
import LuaCompiler.Proofs.Scope.Resolution
import LuaCompiler.Scope.Annotations
import Mathlib.Data.List.Forall2

/-!
# The walk that annotates

The walk over scope events keeps, for each open scope, its locals with their generated names. Over
the events of a skeleton these locals are the declared identifiers of the environment, one part of
it for each open scope: `Tracks`.

* `Declared`: what a declaration does to the walk, with one lemma for each way to declare.
* `Annotates`, `run_events`: what a stretch of program does to the walk.
-/

namespace LuaCompiler.Scope.Analysis

/-- Generated names are made with suffixes that were given out. -/
def Generated (suffix : Nat) (scopes : List (List (String × Option String))) : Prop :=
  ∀ scope ∈ scopes, ∀ name generated, (name, some generated) ∈ scope →
    ∃ j, j ≤ suffix ∧ generated = freshName name j

/-- **The open scopes of the walk are the parts of an environment**, innermost first. -/
structure Tracks (t : Analysis) (envs : List Environment) : Prop where
  scopes : List.Forall₂ (fun scope env => ∀ name, name ∈ scope.map Prod.fst ↔
    Environment.Declares env name) t.scopes envs
  generated : Generated t.suffix t.scopes

variable {t t' t'' : Analysis} {env : Environment} {envs : List Environment} {ids ids' : List NodeId}
  {name : String} {v : Identifier}

/-- Names generated before stay generated. -/
theorem Generated.mono {suffix suffix' : Nat} {scopes : List (List (String × Option String))}
    (h : Generated suffix scopes) (hle : suffix ≤ suffix') : Generated suffix' scopes := by
  intro scope hscope name generated hmem
  obtain ⟨j, hj, heq⟩ := h scope hscope name generated hmem
  exact ⟨j, Nat.le_trans hj hle, heq⟩

/-- A scope knows the names it binds. -/
theorem lookup_isSome {scope : List (String × Option String)} :
    (scope.lookup name).isSome ↔ name ∈ scope.map Prod.fst := by
  rw [List.lookup_isSome_iff]
  simp

/-- What a scope knows stands in it. -/
theorem mem_of_lookup {scope : List (String × Option String)} {generated : Option String}
    (h : scope.lookup name = some generated) : (name, generated) ∈ scope := by
  obtain ⟨l₁, l₂, heq, -⟩ := List.lookup_eq_some_iff.1 h
  simp [heq]

/-- A local is found exactly where a declared identifier is visible. -/
theorem Tracks.lookup_iff (h : t.Tracks envs) :
    (t.lookup? name).isSome ↔ Environment.Declares envs.flatten name := by
  obtain ⟨hscopes, -⟩ := h
  unfold lookup?
  generalize t.scopes = scopes at hscopes
  induction hscopes with
  | nil => simp [Environment.Declares]
  | cons hfirst _ ih =>
    simp only [List.findSome?_isSome_iff, List.mem_cons, exists_eq_or_imp, List.flatten_cons] at ih ⊢
    rw [ih, lookup_isSome, hfirst]
    simp [Environment.Declares, exists_or]

/-- A name that was respelled was generated. -/
theorem Tracks.lookup_generated (h : t.Tracks envs) {generated : String}
    (hl : t.lookup? name = some (some generated)) :
    ∃ j, j ≤ t.suffix ∧ generated = freshName name j := by
  obtain ⟨scope, hscope, hl⟩ := List.exists_of_findSome?_eq_some hl
  exact h.generated scope hscope name generated (mem_of_lookup hl)

/-- The innermost scope knows what the innermost environment declares. -/
theorem Tracks.innermost_iff (h : t.Tracks (env :: envs)) :
    (t.innermost? name).isSome ↔ env.Declares name := by
  obtain ⟨hscopes, -⟩ := h
  unfold innermost?
  generalize t.scopes = scopes at hscopes
  cases hscopes with
  | cons hfirst _ => rw [← hfirst, ← lookup_isSome]; rfl

/-! ## Frames -/

/-- Suffixes only grow, and only nodes of a list get generated names. -/
structure Frame (t : Analysis) (ids : List NodeId) (t' : Analysis) : Prop where
  suffix : t.suffix ≤ t'.suffix
  renamed : ∀ id, id ∉ ids → t'.annotations.renamed[id]? = t.annotations.renamed[id]?

theorem Frame.refl (t : Analysis) (ids : List NodeId) : Frame t ids t :=
  ⟨Nat.le_refl _, fun _ _ => rfl⟩

/-- Changes in a row touch what each touches. -/
theorem Frame.trans (h : Frame t ids t') (h' : Frame t' ids' t'') :
    Frame t (ids ++ ids') t'' where
  suffix := Nat.le_trans h.suffix h'.suffix
  renamed id hid := by
    rw [List.mem_append, not_or] at hid
    rw [h'.renamed id hid.2, h.renamed id hid.1]

theorem Frame.subset (h : Frame t ids t') (hsub : ids ⊆ ids') : Frame t ids' t' :=
  ⟨h.suffix, fun id hid => h.renamed id fun hmem => hid (hsub hmem)⟩

/-- **What declaring identifiers does to the walk.** -/
structure Declared (t : Analysis) (identifiers : List Identifier) (t' : Analysis) : Prop where
  frame : Frame t (identifiers.map Identifier.id) t'
  reads : t'.reads = t.reads
  references : t'.annotations.localReferences = t.annotations.localReferences
  outer : t'.scopes.tail = t.scopes.tail
  tracks : ∀ {env envs}, t.Tracks (env :: envs) → t'.Tracks (env.declare identifiers :: envs)

theorem Declared.refl (t : Analysis) : Declared t [] t :=
  ⟨Frame.refl t _, rfl, rfl, rfl, fun h => h⟩

/-- Declarations in a row declare what each declares. -/
theorem Declared.trans {a b : List Identifier} (h : Declared t a t') (h' : Declared t' b t'') :
    Declared t (a ++ b) t'' where
  frame := by simpa using h.frame.trans h'.frame
  reads := by rw [h'.reads, h.reads]
  references := by rw [h'.references, h.references]
  outer := by rw [h'.outer, h.outer]
  tracks ht := by simpa [Environment.declare] using h'.tracks (h.tracks ht)

/-- Names that are declared one by one. -/
theorem declared_foldl {f : Analysis → Identifier → Analysis} {identifiers : List Identifier}
    (hf : ∀ t v, Declared t [v] (f t v)) : Declared t identifiers (identifiers.foldl f t) := by
  induction identifiers generalizing t with
  | nil => exact Declared.refl t
  | cons v rest ih => exact (hf t v).trans ih

/-- A binding is visible in the innermost environment. -/
theorem tracks_bind (h : t.Tracks (env :: envs)) {generated : Option String}
    (hg : ∀ g, generated = some g → ∃ j, j ≤ t.suffix ∧ g = freshName v.name j) :
    (t.bind v.name generated).Tracks (env.declare [v] :: envs) := by
  obtain ⟨hscopes, hgen⟩ := h
  unfold bind
  generalize t.scopes = scopes at hscopes hgen
  cases hscopes with
  | cons hfirst hrest =>
    constructor
    · refine List.Forall₂.cons (fun name => ?_) hrest
      rw [Environment.declares_declare, List.map_cons, List.mem_cons, hfirst]
      simp
    · intro scope hscope name g hmem
      rcases List.mem_cons.1 hscope with rfl | hscope
      · rcases List.mem_cons.1 hmem with heq | hmem
        · obtain ⟨rfl, hsome⟩ := Prod.mk.inj heq
          exact hg g hsome.symm
        · exact hgen _ (List.mem_cons_self ..) name g hmem
      · exact hgen scope (List.mem_cons_of_mem _ hscope) name g hmem

@[simp]
theorem bind_suffix (t : Analysis) (name : String) (generated : Option String) :
    (t.bind name generated).suffix = t.suffix := by
  unfold bind
  split <;> rfl

@[simp]
theorem bind_annotations (t : Analysis) (name : String) (generated : Option String) :
    (t.bind name generated).annotations = t.annotations := by
  unfold bind
  split <;> rfl

@[simp]
theorem bind_reads (t : Analysis) (name : String) (generated : Option String) :
    (t.bind name generated).reads = t.reads := by
  unfold bind
  split <;> rfl

/-- A binding leaves the outer scopes. -/
@[simp]
theorem bind_outer (t : Analysis) (name : String) (generated : Option String) :
    (t.bind name generated).scopes.tail = t.scopes.tail := by
  unfold bind
  split <;> simp [*]

/-- A name that is bound to itself is declared. -/
theorem declared_bind (t : Analysis) (v : Identifier) : Declared t [v] (t.bind v.name none) where
  frame := ⟨by simp, by simp⟩
  reads := by simp
  references := by simp
  outer := by simp
  tracks ht := tracks_bind ht (by simp)

/-- A note on an identifier touches that identifier. -/
theorem frame_noteRenamed (t : Analysis) (id : NodeId) (generated : String) :
    Frame t [id] (t.noteRenamed id generated) where
  suffix := Nat.le_refl _
  renamed other hother := by
    have hne : ¬ id = other := fun h => hother (by simp [h])
    simp [noteRenamed, Std.TreeMap.getElem?_insert, hne]

theorem renamed_noteRenamed (t : Analysis) (id : NodeId) (generated : String) :
    (t.noteRenamed id generated).annotations.renamed[id]? = some generated := by
  simp [noteRenamed]

/-- A redeclared variable is declared under a generated name. -/
theorem declared_rename (t : Analysis) (v : Identifier) : Declared t [v] (t.rename v) where
  frame := by
    have hframe := (frame_noteRenamed { t with suffix := t.suffix + 1 } v.id
      (freshName v.name (t.suffix + 1))).renamed
    exact ⟨by simp [rename, noteRenamed], by simpa [rename] using hframe⟩
  reads := by simp [rename, noteRenamed]
  references := by simp [rename, noteRenamed]
  outer := by simp [rename, noteRenamed]
  tracks ht := by
    have hgen : Generated (t.suffix + 1) t.scopes := ht.generated.mono (Nat.le_succ _)
    refine tracks_bind (t := { t with suffix := t.suffix + 1 }.noteRenamed v.id
      (freshName v.name (t.suffix + 1))) ⟨ht.scopes, hgen⟩ fun g hg => ?_
    exact ⟨t.suffix + 1, Nat.le_refl _, (Option.some.inj hg).symm⟩

/-- A name that is declared again in its scope is not declared anew. -/
theorem declared_redeclare (t : Analysis) (v : Identifier)
    (hv : (t.innermost? v.name).isSome) : Declared t [v] (t.redeclare v) where
  frame := by
    unfold redeclare
    split
    · exact ⟨Nat.le_refl _, fun id hid => (frame_noteRenamed t v.id _).renamed id hid⟩
    · exact ⟨Nat.le_refl _, fun _ _ => rfl⟩
  reads := by unfold redeclare; split <;> rfl
  references := by unfold redeclare; split <;> rfl
  outer := by unfold redeclare; split <;> rfl
  tracks {env envs} ht := by
    have hscopes : (t.redeclare v).scopes = t.scopes := by unfold redeclare; split <;> rfl
    have hsuffix : (t.redeclare v).suffix = t.suffix := by unfold redeclare; split <;> rfl
    have hdeclares := ht.innermost_iff.1 hv
    -- the scope has the name already, so declaring it again declares nothing new
    have hsame : ∀ name, (env.declare [v]).Declares name ↔ env.Declares name := by
      intro name
      rw [Environment.declares_declare]
      simp only [List.map_cons, List.map_nil, List.mem_singleton, or_iff_right_iff_imp]
      rintro rfl
      exact hdeclares
    refine ⟨?_, hsuffix ▸ hscopes ▸ ht.generated⟩
    rw [hscopes]
    obtain ⟨h, -⟩ := ht
    generalize t.scopes = scopes at h
    cases h with
    | cons hfirst hrest =>
      exact List.Forall₂.cons (fun name => (hfirst name).trans (hsame name).symm) hrest

theorem declared_parameter (t : Analysis) (v : Identifier) : Declared t [v] (t.parameter v) := by
  unfold parameter
  split
  · exact declared_rename t v
  · exact declared_bind t v

/-- Each variable of a `local` statement is declared, whichever way. -/
theorem declared_declareOne (vars : List Identifier) (init : List Expr) (last : NodeId)
    (t : Analysis) (v : Identifier) : Declared t [v] (declareOne vars init last t v) := by
  unfold declareOne
  split
  · split
    · exact declared_rename t v
    · exact declared_bind t v
  · split
    next hv => exact declared_redeclare t v hv
    · simp only
      split
      · exact declared_rename t v
      · exact declared_bind t v

/-- A `local` statement declares its variables. -/
theorem declared_declare (t : Analysis) (id : NodeId) (vars : List Identifier) (init : List Expr) :
    Declared t vars (t.declare id vars init) := by
  have h : Declared t vars
      (vars.foldl (declareOne vars init ((vars.map Identifier.id).foldl max 0)) t) :=
    declared_foldl (declared_declareOne vars init _)
  unfold declare
  simp only
  split
  · exact ⟨⟨h.frame.suffix, h.frame.renamed⟩, h.reads, h.references, h.outer,
      fun ht => ⟨(h.tracks ht).scopes, (h.tracks ht).generated⟩⟩
  · exact h

/-- A local function declares its name. -/
theorem declared_declareFunction (t : Analysis) (v : Identifier) :
    Declared t [v] (t.step (.declareFunction v)) := by
  change Declared t [v]
    (if (t.innermost? v.name).isSome then t.redeclare v else t.bind v.name none)
  split
  next hv => exact declared_redeclare t v hv
  · exact declared_bind t v

/-! ## Stretches of program -/

/-- **What a stretch of program does to the walk**: it ends in the same scope, tracks the bindings
visible behind, and has read and resolved the occurrences. -/
structure Annotates (t : Analysis) (es : List Event) (envs : List Environment) (env : Environment)
    (ids : List NodeId) (os : List Occurrence) : Prop where
  frame : Frame t ids (es.foldl step t)
  outer : (es.foldl step t).scopes.tail = t.scopes.tail
  tracks : (es.foldl step t).Tracks (env :: envs)
  reads : (es.foldl step t).reads = (os.map fun o => (o.id, o.name)).reverse ++ t.reads
  references : ∀ id, id ∈ (es.foldl step t).annotations.localReferences ↔
    id ∈ t.annotations.localReferences ∨ ∃ o ∈ os, o.id = id ∧ o.environment.Declares o.name

/-- Where nothing happens nothing is annotated. -/
theorem annotates_nil (ht : t.Tracks (env :: envs)) : Annotates t [] envs env [] [] where
  frame := Frame.refl t _
  outer := rfl
  tracks := ht
  reads := rfl
  references := by simp

/-- Two stretches, the second where the first has led. -/
theorem Annotates.append {es es' : List Event} {env' : Environment} {os os' : List Occurrence}
    (h : Annotates t es envs env ids os)
    (h' : (es.foldl step t).Tracks (env :: envs) →
      Annotates (es.foldl step t) es' envs env' ids' os') :
    Annotates t (es ++ es') envs env' (ids ++ ids') (os ++ os') := by
  have h' := h' h.tracks
  constructor
  · simpa only [List.foldl_append] using h.frame.trans h'.frame
  · rw [List.foldl_append, h'.outer, h.outer]
  · simpa only [List.foldl_append] using h'.tracks
  · rw [List.foldl_append, h'.reads, h.reads]
    simp
  · intro id
    rw [List.foldl_append, h'.references, h.references]
    simp only [List.mem_append, or_and_right, exists_or, or_assoc]

/-- An event that declares annotates its identifiers. -/
theorem annotates_declared (event : Event) {identifiers : List Identifier}
    (h : Declared t identifiers (t.step event)) (ht : t.Tracks (env :: envs)) :
    Annotates t [event] envs (env.declare identifiers) (identifiers.map Identifier.id) [] where
  frame := h.frame
  outer := h.outer
  tracks := h.tracks ht
  reads := h.reads
  references id := by simp [h.references]

/-- A reference is annotated by what is visible of its name. -/
theorem annotates_reference (ht : t.Tracks (env :: envs)) (id : NodeId) (name : String) :
    Annotates t [.reference id name] envs env [id] [⟨id, name, env ++ envs.flatten⟩] := by
  have hlookup : (t.lookup? name).isSome ↔ Environment.Declares (env ++ envs.flatten) name :=
    ht.lookup_iff
  have hstep : [Event.reference id name].foldl step t = t.reference id name := rfl
  -- one goal for each field, and only the last one asks what the name is bound to
  constructor <;> rw [hstep] <;> unfold reference
  · split
    · exact ⟨Nat.le_refl _, fun _ _ => rfl⟩
    · simp only
      split
      · exact ⟨Nat.le_refl _, fun other h => (frame_noteRenamed t id _).renamed other h⟩
      · exact ⟨Nat.le_refl _, fun _ _ => rfl⟩
  · split
    · rfl
    · simp only
      split <;> rfl
  · split
    · exact ⟨ht.scopes, ht.generated⟩
    · simp only
      split <;> exact ⟨ht.scopes, ht.generated⟩
  · split
    · rfl
    · simp only
      split <;> rfl
  · intro other
    cases hfound : t.lookup? name with
    | none =>
      have hfree : ¬ Environment.Declares (env ++ envs.flatten) name := by
        rw [← hlookup, hfound]
        simp
      simp [hfree]
    | some generated =>
      have hbound : Environment.Declares (env ++ envs.flatten) name := by
        rw [← hlookup, hfound]
        rfl
      cases generated <;> simp [noteRenamed, Std.TreeSet.mem_insert, hbound, or_comm]

/-- More may be touched than is annotated. -/
theorem Annotates.subset {es : List Event} {os : List Occurrence}
    (h : Annotates t es envs env ids os) (hsub : ids ⊆ ids') : Annotates t es envs env ids' os :=
  ⟨h.frame.subset hsub, h.outer, h.tracks, h.reads, h.references⟩

/-- The walk at the start of a scope. -/
def opened (t : Analysis) (receiver : Bool) (parameters : Option (List Identifier)) : Analysis :=
  (Event.enter receiver :: (parameters.map Event.parameters).toList).foldl step t

/-- The names of a scope's start are its parameters; the receiver is no local. -/
theorem declared_opened (t : Analysis) (receiver : Bool) (parameters : Option (List Identifier)) :
    Declared { t with scopes := [] :: t.scopes } (parameters.getD [])
      (t.opened receiver parameters) := by
  cases parameters with
  | none => exact Declared.refl _
  | some identifiers => exact declared_foldl declared_parameter

/-- In a scope that is opened its parameters are visible. -/
theorem tracks_opened (ht : t.Tracks envs) (receiver : Bool)
    (parameters : Option (List Identifier)) :
    (t.opened receiver parameters).Tracks (Environment.enter [] receiver parameters :: envs) := by
  have hentered : Tracks { t with scopes := [] :: t.scopes }
      ((if receiver then [(receiverName, .receiver)] else []) :: envs) := by
    refine ⟨List.Forall₂.cons (fun name => ?_) ht.scopes, fun scope hscope => ?_⟩
    · cases receiver <;> simp [Environment.Declares]
    · rcases List.mem_cons.1 hscope with rfl | hscope
      · simp
      · exact ht.generated scope hscope
  have h := (declared_opened t receiver parameters).tracks hentered
  simpa only [Environment.enter, List.append_nil] using h

/-- A scope is opened, its events happen, and it is left. -/
theorem foldl_scope (t : Analysis) (receiver : Bool) (parameters : Option (List Identifier))
    (es : List Event) : (Event.enter receiver ::
      ((parameters.map Event.parameters).toList ++ (es ++ [.leave]))).foldl step t =
      { es.foldl step (t.opened receiver parameters) with
        scopes := (es.foldl step (t.opened receiver parameters)).scopes.tail } := by
  rw [← List.append_assoc, ← List.cons_append, ← List.cons_append, List.foldl_append,
    List.foldl_append, List.foldl_cons, List.foldl_nil]
  rfl

/-- A scope ends where it began. -/
theorem annotates_scope (ht : t.Tracks (env :: envs)) (receiver : Bool)
    (parameters : Option (List Identifier)) {es : List Event} {env' : Environment}
    {os : List Occurrence}
    (hbody : Annotates (t.opened receiver parameters) es (env :: envs) env' ids os) :
    Annotates t (.enter receiver :: ((parameters.map Event.parameters).toList ++ (es ++ [.leave])))
      envs env ((parameters.getD []).map Identifier.id ++ ids) os := by
  have hopened := declared_opened t receiver parameters
  have hscopes : (es.foldl step (t.opened receiver parameters)).scopes.tail = t.scopes := by
    rw [hbody.outer, hopened.outer]
    rfl
  have hframe : Frame t ((parameters.getD []).map Identifier.id ++ ids)
      (es.foldl step (t.opened receiver parameters)) := by
    refine Frame.trans ?_ hbody.frame
    exact ⟨hopened.frame.suffix, hopened.frame.renamed⟩
  constructor <;> rw [foldl_scope, hscopes]
  · exact ⟨hframe.suffix, hframe.renamed⟩
  · exact ⟨ht.scopes, ht.generated.mono hframe.suffix⟩
  · rw [hbody.reads, hopened.reads]
  · intro id
    rw [hbody.references, hopened.references]

/-- **The walk over a stretch of program.** -/
theorem run_events {items : List Item} (hwf : Skeleton.WellFormed items)
    (ht : t.Tracks (env :: envs)) :
    Annotates t (Skeleton.events items) envs (Skeleton.bind env items) (Skeleton.numbers items)
      (Skeleton.occurrences (env ++ envs.flatten) items) := by
  induction items using Skeleton.induction generalizing t envs env with
  | nil => exact annotates_nil ht
  | reference id name rest ih => exact (annotates_reference ht id name).append (ih hwf.2)
  | functionName identifier rest ih => exact (annotates_reference ht _ _).append (ih hwf.2)
  | locals id vars init inner rest ihInner ih =>
    obtain ⟨⟨hplain, hinner⟩, hrest⟩ := hwf
    have hvalues := ihInner hinner ht
    rw [Skeleton.bind_plain hplain] at hvalues
    have hfirst := hvalues.append fun ht =>
      annotates_declared (.declare id vars init) (declared_declare _ id vars init) ht
    rw [List.append_nil] at hfirst
    -- the variables are numbered before the values and declared behind them
    have hids : Skeleton.numbers inner ++ vars.map Identifier.id ⊆
        vars.map Identifier.id ++ (Skeleton.numbers inner ++ [id]) := by
      intro n hn
      simp only [List.mem_append] at hn ⊢
      tauto
    have h := (hfirst.subset hids).append (ih hrest)
    rwa [← Environment.declare_append] at h
  | localFunction identifier rest ih =>
    have h := (annotates_declared _ (declared_declareFunction t identifier) ht).append (ih hwf.2)
    rwa [← Environment.declare_append] at h
  | scope receiver parameters header body rest ihHeader ihBody ih =>
    obtain ⟨⟨hplain, hheader, hbody⟩, hrest⟩ := hwf
    have hbefore := ihHeader hheader ht
    rw [Skeleton.bind_plain hplain] at hbefore
    have hscope := hbefore.append fun ht =>
      annotates_scope ht receiver parameters (ihBody hbody (tracks_opened ht receiver parameters))
    rw [List.flatten_cons, ← Environment.enter_append] at hscope
    refine (hscope.subset (fun n hn => ?_)).append (ih hrest)
    simp only [Item.numbers, List.mem_append] at hn ⊢
    tauto

/-! ## Programs -/

/-- The walk at the start of a program tracks nothing. -/
theorem tracks_start : Tracks (opened {} false none) [[]] :=
  tracks_opened (t := {}) ⟨.nil, fun _ h => nomatch h⟩ false none

/-- A program is annotated by its items. -/
theorem annotates_chunk (chunk : Chunk) :
    Annotates (opened {} false none) (Skeleton.events (stmtItems chunk.body)) []
      (Skeleton.bind [] (stmtItems chunk.body)) (Skeleton.numbers (stmtItems chunk.body))
      (Skeleton.occurrences [] (stmtItems chunk.body)) :=
  run_events (stmtItems_wellFormed chunk.body) tracks_start

/-- The end of a program annotates nothing more. -/
theorem analyse_annotations (chunk : Chunk) :
    (analyse (Skeleton.events chunk.items)).annotations =
      ((Skeleton.events (stmtItems chunk.body)).foldl step (opened {} false none)).annotations := by
  have hevents : Skeleton.events chunk.items =
      .enter false :: (Skeleton.events (stmtItems chunk.body) ++ [.leave]) := by
    simp [Chunk.items, Skeleton.events, Item.events]
  rw [analyse, hevents, List.foldl_cons, List.foldl_append]
  rfl

end LuaCompiler.Scope.Analysis
