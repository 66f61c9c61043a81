import LuaCompiler.Emit.Walk
import LuaCompiler.Proofs.Registries.Merge
import LuaCompiler.Proofs.Scope.Resolution

/-!
# The footprint of a lowering in the registries

A lowering asks the registries about names that are written in its node, and all it does to them is
to merge something into them. `Confined ctx refs m` says so of a lowering and the references of its
node: from any two registries that agree on the names of the references it gives the same text,
leaves the same traces and merges the same. What it merges are library functions, and globals that
an assignment to a reference publishes.

* `Skeleton.references`: the references of a stretch of program.
* `Publishable`, `Admits`: what a lowering may merge.
* `bindName_run`: **what binding a name does**.
* `Confined` and the steps that are so.

That a program has the footprint of its references is put together from the steps in
`Proofs/Emit/Traces.lean`.
-/

namespace LuaCompiler

namespace Scope

mutual

/-- The names that an item reads or assigns, with the identities of the nodes. -/
def Item.references : Item → List (NodeId × String)
  | .reference id name => [(id, name)]
  | .functionName identifier => [(identifier.id, identifier.name)]
  | .locals _ _ _ inner => Skeleton.references inner
  | .localFunction _ => []
  | .scope _ _ header body => Skeleton.references header ++ Skeleton.references body

/-- The names that a stretch of program reads or assigns. -/
def Skeleton.references : List Item → List (NodeId × String)
  | [] => []
  | first :: rest => first.references ++ Skeleton.references rest

end

namespace Skeleton

@[simp]
theorem references_append (a b : List Item) : references (a ++ b) = references a ++ references b := by
  induction a with
  | nil => rfl
  | cons first rest ih => simp [references, ih]

/-- The references of a stretch of program are its occurrences. -/
theorem references_eq (env : Environment) (items : List Item) :
    references items = (occurrences env items).map fun o => (o.id, o.name) := by
  induction items using induction generalizing env with
  | nil => rfl
  | reference id name rest ih | functionName identifier rest ih =>
    exact congrArg (List.cons _) (ih env)
  | locals id vars init inner rest ihInner ih =>
    rw [references, Item.references, occurrences, Item.occurrences, List.map_append, ihInner env,
      ih ((Item.locals id vars init inner).bind env)]
  | localFunction identifier rest ih => exact ih _
  | scope receiver parameters header body rest ihHeader ihBody ih =>
    rw [references, Item.references, occurrences, Item.occurrences, List.map_append,
      List.map_append, ihHeader env, ihBody (env.enter receiver parameters)]
    exact congrArg _ (ih env)

end Skeleton

end Scope

namespace Emit

open Scope

/-- **A footprint**: the references that a lowering looks at, and what decides whether assigning to
one publishes a global. -/
structure Footprint where
  references : List (NodeId × String)
  /-- the references to locals -/
  locals : Std.TreeSet NodeId
  valueTypes : List String

/-- The names of a footprint. -/
def Footprint.names (fp : Footprint) : List String := fp.references.map Prod.snd

/-- The footprint of some references in a context. -/
def Context.footprint (ctx : Context) (references : List (NodeId × String)) : Footprint where
  references
  locals := ctx.annotations.localReferences
  valueTypes := ctx.options.valueTypes

variable {α β : Type} {ctx : Context} {fp : Footprint} {refs : List (NodeId × String)}

/-- **A global that an assignment to one of some references can publish**: it is no name of the
runtime, it is read or a value type, and the reference does not refer to a local. -/
structure Publishable (fp : Footprint) (r : Registries) (name : String) : Prop where
  reference : ∃ id, (id, name) ∈ fp.references ∧ id ∉ fp.locals
  foreign : Name.isRuntime name = false
  known : r.isGlobalRead name = true ∨ fp.valueTypes.contains name = true

/-- **What a lowering may merge into the registries.** -/
structure Admits (fp : Footprint) (r added : Registries) : Prop where
  reads : added.globalReads = .empty
  initialized : ∀ name ∈ added.initializedGlobals, Publishable fp r name

/-- **A lowering with a footprint**: it asks only about the names of some references, and merges only
what they admit. -/
def Confined (fp : Footprint) (m : Emit α) : Prop :=
  ∀ p, ∃ added, Admits fp p.registries added ∧
    ∀ r, p.registries.Agree fp.names r → m.run { p with registries := r } =
      ((m.run p).1, { (m.run p).2 with registries := r.merge added })

/-- A walk that records nothing stays in any footprint. -/
theorem admits_empty (r : Registries) : Admits fp r .empty :=
  ⟨rfl, fun _ h => absurd h NameSet.not_mem_empty⟩

/-- What may be merged in turn may be merged at once. -/
theorem Admits.merge {r added more : Registries} (h : Admits fp r added)
    (h' : Admits fp (r.merge added) more) : Admits fp r (added.merge more) where
  reads := by
    have hunion : (added.merge more).globalReads = added.globalReads.union more.globalReads := rfl
    rw [hunion, h.reads, h'.reads]
    rfl
  initialized name hname := by
    rcases NameSet.mem_union.1 hname with hname | hname
    · exact h.initialized name hname
    · obtain ⟨hreference, hforeign, hknown⟩ := h'.initialized name hname
      refine ⟨hreference, hforeign, ?_⟩
      have hread : (r.merge added).globalReads = r.globalReads := by
        change r.globalReads.union added.globalReads = r.globalReads
        rw [h.reads, NameSet.union_empty]
      rwa [Registries.isGlobalRead, hread] at hknown

/-- What a lowering that has a footprint merges into its own registries. -/
theorem Confined.registries {m : Emit α} (h : Confined fp m) (p : Progress) :
    ∃ added, Admits fp p.registries added ∧
      (m.run p).2.registries = p.registries.merge added := by
  obtain ⟨added, hadmits, hrun⟩ := h p
  have hself := hrun p.registries (.refl _ _)
  exact ⟨added, hadmits, congrArg (fun result => result.2.registries) hself⟩

/-! ## The monad -/

/-- A text that is there already reads no global. -/
theorem confined_pure (a : α) : Confined fp (pure a) :=
  fun _ => ⟨.empty, admits_empty _, fun _ _ => rfl⟩

/-- Two actions in a row read the globals of both, the second those recorded by the first. -/
theorem Confined.bind {m : Emit α} {f : α → Emit β} (hm : Confined fp m)
    (hf : ∀ a, Confined fp (f a)) : Confined fp (m >>= f) := by
  intro p
  obtain ⟨added, hadmits, hrun⟩ := hm p
  have hself : (m.run p).2.registries = p.registries.merge added :=
    congrArg (fun result => result.2.registries) (hrun p.registries (.refl _ _))
  obtain ⟨more, hadmits', hrun'⟩ := hf (m.run p).1 (m.run p).2
  rw [hself] at hadmits' hrun'
  refine ⟨added.merge more, hadmits.merge hadmits', fun r hagree => ?_⟩
  -- the first part merges the same into both registries, so that they agree for the second
  have hfirst := hrun r hagree
  have hsecond := hrun' (r.merge added) (hagree.merge added)
  rw [Registries.merge_assoc] at hsecond
  rw [StateT.run_bind, StateT.run_bind]
  change (f (m.run { p with registries := r }).1).run (m.run { p with registries := r }).2 = _
  rw [hfirst]
  exact hsecond

/-- A lowering that has nothing to do with the registries. -/
theorem confined_of_apart {m : Emit α}
    (h : ∀ p r, m.run { p with registries := r } =
      ((m.run p).1, { (m.run p).2 with registries := r })) : Confined fp m :=
  fun p => ⟨.empty, admits_empty _, fun r _ => h p r⟩

/-- A lowering that uses traces other than the registries. -/
theorem confined_get {f : Progress → Emit β} (hsame : ∀ p r, f { p with registries := r } = f p)
    (hf : ∀ p, Confined fp (f p)) : Confined fp (get >>= f) := by
  intro p
  obtain ⟨added, hadmits, hrun⟩ := hf p p
  refine ⟨added, hadmits, fun r hagree => ?_⟩
  have hother := hrun r hagree
  rw [← hsame p r] at hother
  have hback : f { p with registries := r } = f p := hsame p r
  change (f { p with registries := r }).run { p with registries := r } = _
  rw [hother, hback]
  rfl

/-- A lowering that asks whether a global is read. -/
theorem confined_ask {f : Bool → Emit β} {name : String} (hname : name ∈ fp.names)
    (hf : ∀ b, Confined fp (f b)) :
    Confined fp (get >>= fun p => f (p.registries.isGlobalRead name)) := by
  intro p
  obtain ⟨added, hadmits, hrun⟩ := hf (p.registries.isGlobalRead name) p
  refine ⟨added, hadmits, fun r hagree => ?_⟩
  change (f (r.isGlobalRead name)).run { p with registries := r } = _
  rw [← (hagree name hname).1, hrun r hagree]
  rfl

/-- Both branches of a test are confined. -/
theorem Confined.ite {c : Prop} [Decidable c] {m m' : Emit α} (h : Confined fp m)
    (h' : Confined fp m') : Confined fp (if c then m else m') := by
  split
  · exact h
  · exact h'

/-! ## Primitives -/

theorem confined_commentsBefore (span : Span) : Confined fp (commentsBefore span) :=
  confined_of_apart fun _ _ => rfl

theorem confined_commentsAfter (span : Span) : Confined fp (commentsAfter span) :=
  confined_of_apart fun _ _ => rfl

theorem confined_commentsLeft : Confined fp commentsLeft := confined_of_apart fun _ _ => rfl

/-- The comments around a node are no globals. -/
theorem Confined.around {node : Emit String} (h : Confined fp node) (span : Span) :
    Confined fp (around span node) :=
  (confined_commentsBefore span).bind fun _ => h.bind fun _ =>
    (confined_commentsAfter span).bind fun _ => confined_pure _

theorem confined_contain (unsupported : Unsupported) (span : Span) :
    Confined fp (contain unsupported span) := confined_of_apart fun _ _ => rfl

/-- Declaring a class reads no global. -/
theorem confined_declareClass (name : String) : Confined fp (declareClass name) := by
  refine confined_of_apart fun p r => ?_
  change (PUnit.unit, if p.classes.contains name then { p with registries := r }
      else { p with registries := r, classes := p.classes ++ [name] }) =
    (PUnit.unit, { (if p.classes.contains name then p
      else { p with classes := p.classes ++ [name] } : Progress) with registries := r })
  split <;> rfl

/-- Recording a function reads no global. -/
theorem confined_useSystemFunction (library name : String) :
    Confined fp (useSystemFunction library name) := by
  intro p
  refine ⟨Registries.empty.recordSystemFunction library name,
    ⟨rfl, fun _ h => absurd h NameSet.not_mem_empty⟩, fun r _ => ?_⟩
  rw [← Registries.recordSystemFunction_eq]
  rfl

/-- A reference reads no global. -/
theorem confined_reference (name : String) : Confined fp (reference ctx name) := by
  unfold reference
  split
  · refine .ite (confined_pure _) ?_
    exact (confined_of_apart fun _ _ => rfl).bind fun _ => confined_pure _
  · exact confined_pure _

/-- What is confined below a receiver is confined above it. -/
theorem Confined.withReceiver {body : Emit α} (h : Confined fp body) :
    Confined fp (withReceiver body) := by
  refine confined_get (fun _ _ => rfl) fun p => ?_
  refine (confined_of_apart fun _ _ => rfl).bind fun _ => h.bind fun result => ?_
  refine confined_get (fun _ _ => rfl) fun q => ?_
  exact (confined_of_apart fun _ _ => rfl).bind fun _ => confined_pure _

/-- Recording a member reads no global. -/
theorem confined_useMember (base : Expr) (identifier : Identifier) :
    Confined fp (useMember ctx base identifier) := by
  unfold useMember
  split
  · exact .ite (confined_useSystemFunction _ _) (confined_pure _)
  · exact confined_pure _

/-! ## Binding a name -/

/-- Whether a name is bound as one that is new: the module's own, or a global published for the first
time. -/
def bindsNew (ctx : Context) (name value : String) (isFirst : Bool) : Bool :=
  name == "M" || name == ctx.fileName || (isFirst && !Text.contains value "l2j.require")

/-- Whether binding a name makes a class of its value. -/
def makesClass (ctx : Context) (name : String) (node : Expr) (value : String) (isFirst : Bool) :
    Bool :=
  bindsNew ctx name value isFirst && (ctx.isTop && canBecomeClass node value name ctx.fileName)

/-- The text that binds a name behind some lead. -/
def boundText (ctx : Context) (lead pattern name : String) (node : Expr) (value : String)
    (isFirst : Bool) : String :=
  if makesClass ctx name node value isFirst then
    lead ++ pattern ++ " = " ++ createClassText [value]
  else if bindsNew ctx name value isFirst then lead ++ pattern ++ " = " ++ value
  else bindPlain ctx lead pattern name node value

/-- The classes behind the declaration of one. -/
def withClass (classes : List String) (name : String) : List String :=
  if classes.contains name then classes else classes ++ [name]

theorem declareClass_run (name : String) (p : Progress) :
    (declareClass name).run p = (⟨⟩, { p with classes := withClass p.classes name }) := by
  change (PUnit.unit, if p.classes.contains name then p else _) = _
  unfold withClass
  split <;> rfl

/-- Binds a name behind some lead, once it is known whether that is for the first time. -/
def bindBehind (ctx : Context) (lead pattern name : String) (node : Expr) (value : String)
    (isFirst : Bool) : Emit String :=
  if bindsNew ctx name value isFirst then
    if ctx.isTop && canBecomeClass node value name ctx.fileName then do
      declareClass pattern
      return lead ++ pattern ++ " = " ++ createClassText [value]
    else return lead ++ pattern ++ " = " ++ value
  else return bindPlain ctx lead pattern name node value

/-- Binding a name behind its lead writes one text. -/
theorem bindBehind_run (lead pattern name : String) (node : Expr) (value : String) (isFirst : Bool)
    (p : Progress) :
    (bindBehind ctx lead pattern name node value isFirst).run p =
      (boundText ctx lead pattern name node value isFirst,
        { p with classes := if makesClass ctx name node value isFirst
          then withClass p.classes pattern else p.classes }) := by
  unfold bindBehind boundText makesClass
  cases bindsNew ctx name value isFirst with
  | false => rfl
  | true =>
    cases ctx.isTop && canBecomeClass node value name ctx.fileName with
    | false => rfl
    | true =>
      change ((declareClass pattern).run p >>= fun result => pure (_, result.2)) = _
      rw [declareClass_run]
      rfl

/-- Binds a name, once it is known whether it is published, and whether that is for the first time.
-/
def bindAs (ctx : Context) (targets : Targets) (name : String) (node : Expr) (value : String)
    (global isFirst : Bool) : Emit String := do
  if global then
    modify fun p => { p with registries := p.registries.recordInitializedGlobal name }
  bindBehind ctx (if global then "globalThis." else targets.lead) targets.pattern name node value
    isFirst

/-- A global is bound behind `globalThis`. -/
theorem bindAs_run (targets : Targets) (name : String) (node : Expr) (value : String)
    (global isFirst : Bool) (p : Progress) :
    (bindAs ctx targets name node value global isFirst).run p =
      (boundText ctx (if global then "globalThis." else targets.lead) targets.pattern name node value
          isFirst,
        { p with
          registries := if global then p.registries.recordInitializedGlobal name else p.registries
          classes := if makesClass ctx name node value isFirst
            then withClass p.classes targets.pattern else p.classes }) := by
  cases global with
  | false => exact bindBehind_run targets.lead targets.pattern name node value isFirst p
  | true =>
    exact bindBehind_run "globalThis." targets.pattern name node value isFirst
      { p with registries := p.registries.recordInitializedGlobal name }

/-- A local statement has one target for each variable. -/
theorem length_localTargets (ctx : Context) (id : NodeId) (vars : List Identifier) :
    (localTargets ctx id vars).2.texts.length = vars.length := by
  unfold localTargets
  dsimp only
  split
  · exact List.length_map _
  · exact List.length_map _

/-- **What binding a name does.** -/
theorem bindName_run (targets : Targets) (name : String) (node : Expr) (value : String)
    (p : Progress) :
    (bindName ctx targets name node value).run p =
      (bindAs ctx targets name node value (publishes ctx p.registries targets name node value)
        (publishes ctx p.registries targets name node value &&
          !p.registries.isInitializedGlobal name)).run p := rfl

/-- A local is never published. -/
theorem publishes_of_isLocal {targets : Targets} (h : targets.isLocal = true) (r : Registries)
    (name : String) (node : Expr) (value : String) :
    publishes ctx r targets name node value = false := by
  simp [publishes, h]

/-- All that publishing a name asks the registries is whether the name is read. -/
theorem publishes_congr {r r' : Registries} {name : String}
    (h : r.isGlobalRead name = r'.isGlobalRead name) (targets : Targets) (node : Expr)
    (value : String) :
    publishes ctx r targets name node value = publishes ctx r' targets name node value := by
  rw [publishes, publishes, h]

/-- What is published is a name of the file that is written at its top. -/
theorem publishes_cases {r : Registries} {targets : Targets} {name : String} {node : Expr}
    {value : String} (h : publishes ctx r targets name node value = true) :
    targets.isLocal = false ∧ Name.isRuntime name = false ∧
      (r.isGlobalRead name = true ∨ ctx.options.valueTypes.contains name = true) := by
  simp only [publishes, Bool.and_eq_true, Bool.not_eq_true', Bool.or_eq_true] at h
  obtain ⟨⟨⟨⟨⟨hlocal, hknown⟩, hforeign⟩, -⟩, -⟩, -⟩ := h
  exact ⟨hlocal, hforeign, hknown⟩

/-- Targets whose name is looked up in the registries only if it is one of some references. -/
def Targets.Within (targets : Targets) (fp : Footprint) : Prop :=
  targets.isLocal = true ∨ ∀ name, targets.single = some name → ∃ id, (id, name) ∈ fp.references ∧
    targets.isLocal = fp.locals.contains id

/-- The two questions that binding a name asks have the same answers from registries that agree. -/
theorem Targets.Within.answers {targets : Targets} (h : targets.Within fp) {name : String}
    (hsingle : targets.single = some name) (node : Expr) (value : String) {r r' : Registries}
    (hagree : r.Agree fp.names r') :
    publishes ctx r' targets name node value = publishes ctx r targets name node value ∧
      (publishes ctx r targets name node value && !r'.isInitializedGlobal name) =
        (publishes ctx r targets name node value && !r.isInitializedGlobal name) := by
  rcases h with hlocal | hreference
  · rw [publishes_of_isLocal hlocal, publishes_of_isLocal hlocal]
    exact ⟨rfl, rfl⟩
  · obtain ⟨id, hid, -⟩ := hreference name hsingle
    obtain ⟨hread, hinitialized⟩ := hagree name (List.mem_map.2 ⟨(id, name), hid, rfl⟩)
    rw [publishes_congr hread, hinitialized]
    exact ⟨rfl, rfl⟩

/-- A name that is bound is one of the footprint, where its globals are read and recorded. -/
theorem confined_bindName {targets : Targets} (h : targets.Within (ctx.footprint refs)) {name : String}
    (hsingle : targets.single = some name) (node : Expr) (value : String) :
    Confined (ctx.footprint refs) (bindName ctx targets name node value) := by
  intro p
  -- what is added is the name itself, if it is published
  refine ⟨if publishes ctx p.registries targets name node value
    then Registries.empty.recordInitializedGlobal name else .empty, ?_, fun r hagree => ?_⟩
  · split
    next hglobal =>
      obtain ⟨hlocal, hforeign, hknown⟩ := publishes_cases hglobal
      refine ⟨rfl, fun other hother => ?_⟩
      obtain rfl : other = name := by
        simpa [Registries.recordInitializedGlobal, Registries.empty] using hother
      rcases h with habsurd | hreference
      · rw [hlocal] at habsurd
        cases habsurd
      · obtain ⟨id, hid, heq⟩ := hreference other hsingle
        refine ⟨⟨id, hid, fun hmem => ?_⟩, hforeign, hknown⟩
        rw [hlocal, Std.TreeSet.contains_iff_mem.2 hmem] at heq
        cases heq
    · exact admits_empty _
  · -- the registries are asked for this name only, so those that agree on it answer the same
    obtain ⟨hsame, hfirst⟩ := h.answers hsingle node value hagree
    rw [bindName_run, bindName_run, hsame, hfirst, bindAs_run, bindAs_run]
    have hmerge : (if publishes ctx p.registries targets name node value
        then r.recordInitializedGlobal name else r) =
        r.merge (if publishes ctx p.registries targets name node value
          then Registries.empty.recordInitializedGlobal name else .empty) := by
      split
      · exact r.recordInitializedGlobal_eq name
      · rfl
    rw [hmerge]

/-- Binding several names reads none; a single one is bound as such. -/
theorem confined_bind (ctx : Context) {targets : Targets} (h : targets.Within (ctx.footprint refs))
    (init : List Expr) (values : List String) :
    Confined (ctx.footprint refs) (bind ctx targets init values) := by
  unfold bind
  split
  next hsingle => exact confined_bindName h hsingle _ _
  · exact confined_pure _
  · exact confined_pure _

/-! ## References of a tree -/

/-- A name is among the references of its items. -/
theorem mem_references_of_name {e : Expr} {name : String} (h : e.name? = some name) :
    (e.id, name) ∈ Skeleton.references e.items := by
  obtain ⟨id, span, kind⟩ := e
  cases kind with
  | name other =>
    obtain rfl : other = name := by simpa [Expr.name?] using h
    exact List.mem_singleton.2 rfl
  | _ => cases h

/-- The target of an assignment is one of its references. -/
theorem within_assignedTargets {targets : List Expr} (texts : List String)
    (h : Skeleton.references (exprItems targets) ⊆ refs) :
    (assignedTargets ctx targets texts).Within (ctx.footprint refs) := by
  unfold assignedTargets
  split
  next only =>
    refine .inr fun name hname => ⟨only.id, h ?_, rfl⟩
    simpa [exprItems] using mem_references_of_name hname
  · exact .inr fun _ hname => nomatch hname

/-- Local targets are local. -/
theorem isLocal_localTargets (id : NodeId) (vars : List Identifier) :
    (localTargets ctx id vars).2.isLocal = true := by
  unfold localTargets
  dsimp only
  split <;> rfl

/-- Two stretches refer within some names when each does. -/
theorem references_append_subset {a b : List Item} :
    Skeleton.references (a ++ b) ⊆ refs ↔
      Skeleton.references a ⊆ refs ∧ Skeleton.references b ⊆ refs := by
  rw [Skeleton.references_append, List.append_subset]

/-- So do a scope and what stands behind it. -/
theorem references_scope_subset {receiver : Bool} {parameters : Option (List Identifier)}
    {header body rest : List Item} :
    Skeleton.references (.scope receiver parameters header body :: rest) ⊆ refs ↔
      (Skeleton.references header ⊆ refs ∧ Skeleton.references body ⊆ refs) ∧
        Skeleton.references rest ⊆ refs := by
  rw [Skeleton.references, Item.references, List.append_subset, List.append_subset]

end Emit

end LuaCompiler
