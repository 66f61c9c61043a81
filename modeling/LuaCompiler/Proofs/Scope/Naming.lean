import LuaCompiler.Proofs.Scope.Tracker

/-!
# References have the names of their declarations

The walk finds a local by its name, innermost first, and gives a reference the name that the local
has. A name that is declared again in its scope is the local that was declared before, under one
name. So a reference is named like the declared identifier that it sees.

* `Declares`: the three ways to declare an identifier.
* `Follows`: the open scopes of the walk hold the names of the declared identifiers of an
  environment, and each identifier that is declared again shares the name of one that is not.
* `names_items`: **what a stretch of program names**, and `Chunk.resolves`: what a program names.
-/

namespace LuaCompiler

namespace Scope

/-- The declared identifier that a binder is. -/
def Binder.identifier? : Binder → Option Identifier
  | declared identifier => some identifier
  | receiver => none

namespace Environment

/-- The declared identifiers of an environment, innermost first. -/
def identifiers (env : Environment) : List Identifier := env.filterMap (·.2.identifier?)

/-- The innermost declared identifier of a name, also one that a receiver hides. -/
def find? (env : Environment) (name : String) : Option Identifier :=
  env.identifiers.find? (·.name == name)

/-- The identifiers of an environment come before those of the outer ones. -/
@[simp]
theorem identifiers_append (env outer : Environment) :
    identifiers (env ++ outer) = env.identifiers ++ outer.identifiers := List.filterMap_append

/-- Declared variables are innermost, the last first. -/
@[simp]
theorem identifiers_declare (env : Environment) (vars : List Identifier) :
    (env.declare vars).identifiers = vars.reverse ++ env.identifiers := by
  have hvars : (vars.map fun i => (i.name, Binder.declared i)).filterMap
      (fun entry => entry.2.identifier?) = vars := by
    simp [List.filterMap_map, Binder.identifier?]
  rw [declare, identifiers_append, identifiers, List.filterMap_reverse, hvars]

/-- Parameters are innermost in a scope that is entered. -/
@[simp]
theorem identifiers_enter (env : Environment) (receiver : Bool)
    (parameters : Option (List Identifier)) :
    (env.enter receiver parameters).identifiers = (parameters.getD []).reverse ++ env.identifiers := by
  have hreceiver : identifiers ((if receiver then [(receiverName, Binder.receiver)] else []) ++ env) =
      env.identifiers := by
    cases receiver <;> rfl
  rw [enter, identifiers_declare, hreceiver]

end Environment

namespace Annotations

/-- **Identifiers that are declared again share a name** with one of their name that is not. -/
def Merges (a : Annotations) (identifiers : List Identifier) : Prop :=
  ∀ d ∈ identifiers, d.id ∈ a.redeclared → ∃ first ∈ identifiers, first.name = d.name ∧
    a.renamed[first.id]? = a.renamed[d.id]? ∧ first.id ∉ a.redeclared

/-- **An occurrence is named like the declared identifier that it sees**, where identifiers that are
declared again share a name. -/
structure Resolves (a : Annotations) (o : Occurrence) : Prop where
  renamed : a.renamed[o.id]? = (o.environment.find? o.name).bind fun d => a.renamed[d.id]?
  merges : a.Merges o.environment.identifiers

/-- Two lists are merged when each is. -/
theorem Merges.append {a : Annotations} {first second : List Identifier} (h : a.Merges first)
    (h' : a.Merges second) : a.Merges (first ++ second) := by
  intro d hd hredeclared
  rcases List.mem_append.1 hd with hd | hd
  · obtain ⟨other, hother, hshares⟩ := h d hd hredeclared
    exact ⟨other, List.mem_append_left _ hother, hshares⟩
  · obtain ⟨other, hother, hshares⟩ := h' d hd hredeclared
    exact ⟨other, List.mem_append_right _ hother, hshares⟩

end Annotations

namespace Analysis

variable {t t' t'' : Analysis} {a : Annotations} {env env' env'' : Environment}
  {envs : List Environment} {ids ids' : List NodeId} {name : String} {v : Identifier}

/-! ## What a step leaves alone -/

/-- Only nodes of a list get a generated name or are declared again. -/
structure Spares (t : Analysis) (ids : List NodeId) (t' : Analysis) : Prop where
  renamed : ∀ id, id ∉ ids → t'.annotations.renamed[id]? = t.annotations.renamed[id]?
  redeclared : ∀ id, id ∉ ids → (id ∈ t'.annotations.redeclared ↔ id ∈ t.annotations.redeclared)

/-- Nothing that happens spares all. -/
theorem Spares.refl (t : Analysis) (ids : List NodeId) : Spares t ids t :=
  ⟨fun _ _ => rfl, fun _ _ => Iff.rfl⟩

/-- One change after the other touches the identifiers of both. -/
theorem Spares.trans (h : Spares t ids t') (h' : Spares t' ids' t'') :
    Spares t (ids ++ ids') t'' where
  renamed id hid := by
    rw [List.mem_append, not_or] at hid
    rw [h'.renamed id hid.2, h.renamed id hid.1]
  redeclared id hid := by
    rw [List.mem_append, not_or] at hid
    rw [h'.redeclared id hid.2, h.redeclared id hid.1]

theorem Spares.subset (h : Spares t ids t') (hsub : ids ⊆ ids') : Spares t ids' t' :=
  ⟨fun id hid => h.renamed id fun hmem => hid (hsub hmem),
    fun id hid => h.redeclared id fun hmem => hid (hsub hmem)⟩

/-- Annotations agree with the walk on some nodes. -/
def Agrees (a : Annotations) (ids : List NodeId) (t : Analysis) : Prop :=
  ∀ id ∈ ids, a.renamed[id]? = t.annotations.renamed[id]? ∧
    (id ∈ a.redeclared ↔ id ∈ t.annotations.redeclared)

/-- Annotations that agree behind a step agree before it on the nodes that the step leaves alone. -/
theorem Agrees.before (h : Agrees a ids t') (hspares : Spares t ids' t')
    (hdisjoint : ∀ id ∈ ids, id ∉ ids') : Agrees a ids t := fun id hid =>
  ⟨(h id hid).1.trans (hspares.renamed id (hdisjoint id hid)),
    (h id hid).2.trans (hspares.redeclared id (hdisjoint id hid))⟩

/-- Fewer identifiers agree as well. -/
theorem Agrees.subset (h : Agrees a ids' t) (hsub : ids ⊆ ids') : Agrees a ids t :=
  fun id hid => h id (hsub hid)

/-- The walk has not annotated a node. -/
structure Fresh (t : Analysis) (id : NodeId) : Prop where
  renamed : t.annotations.renamed[id]? = none
  redeclared : id ∉ t.annotations.redeclared

/-- What is not touched stays fresh. -/
theorem Fresh.after {id : NodeId} (h : t.Fresh id) (hspares : Spares t ids t') (hid : id ∉ ids) :
    t'.Fresh id :=
  ⟨(hspares.renamed id hid).trans h.renamed,
    fun hmem => h.redeclared ((hspares.redeclared id hid).1 hmem)⟩

/-! ## Declarations -/

/-- **The ways to declare an identifier**: under its own name, if that is new in its scope, under a
fresh one, or as the local that was declared before. -/
inductive Declares (t : Analysis) (v : Identifier) : Analysis → Prop where
  | bind (h : (t.innermost? v.name).isSome = false) : Declares t v (t.bind v.name none)
  | rename : Declares t v (t.rename v)
  | redeclare (h : (t.innermost? v.name).isSome = true) : Declares t v (t.redeclare v)

/-- What the innermost scope binds is bound. -/
theorem isSome_lookup_of_innermost {name : String} (h : (t.innermost? name).isSome = true) :
    (t.lookup? name).isSome = true := by
  obtain ⟨generated, hinnermost⟩ := Option.isSome_iff_exists.1 h
  obtain ⟨scope, hscope, hlookup⟩ := Option.bind_eq_some_iff.1 hinnermost
  rw [lookup?, List.findSome?_isSome_iff]
  exact ⟨scope, List.mem_of_mem_head? hscope, by rw [hlookup]; rfl⟩

/-- A parameter declares itself. -/
theorem declares_parameter (t : Analysis) (v : Identifier) : Declares t v (t.parameter v) := by
  unfold parameter
  split
  · exact .rename
  next h => exact .bind (Bool.eq_false_iff.2 h)

/-- Each variable of a `local` statement declares itself. -/
theorem declares_declareOne (vars : List Identifier) (init : List Expr) (last : NodeId)
    (t : Analysis) (v : Identifier) : Declares t v (declareOne vars init last t v) := by
  unfold declareOne
  split
  · split
    · exact .rename
    next h => exact .bind (Bool.eq_false_iff.2 fun hinner => h (isSome_lookup_of_innermost hinner))
  · split
    next h => exact .redeclare h
    next h =>
      dsimp only
      split
      · exact .rename
      · exact .bind (Bool.eq_false_iff.2 h)

/-- A local function declares itself. -/
theorem declares_declareFunction (t : Analysis) (v : Identifier) :
    Declares t v (t.step (.declareFunction v)) := by
  change Declares t v (if (t.innermost? v.name).isSome then t.redeclare v else t.bind v.name none)
  split
  next h => exact .redeclare h
  next h => exact .bind (Bool.eq_false_iff.2 h)

/-- A declaration touches its own identifier only. -/
theorem Declares.spares (h : Declares t v t') : Spares t [v.id] t' := by
  cases h with
  | bind => exact ⟨by simp, by simp⟩
  | rename =>
    refine ⟨fun id hid => ?_, fun id _ => by simp [Analysis.rename, noteRenamed]⟩
    have hne : ¬ v.id = id := fun heq => hid (by simp [heq])
    simp [Analysis.rename, noteRenamed, Std.TreeMap.getElem?_insert, hne]
  | redeclare =>
    have hinsert : ∀ id ∉ [v.id], id ∈ t.annotations.redeclared.insert v.id ↔
        id ∈ t.annotations.redeclared := by
      intro id hid
      have hne : ¬ v.id = id := fun heq => hid (by simp [heq])
      simp [Std.TreeSet.mem_insert, hne]
    unfold Analysis.redeclare
    split
    · exact ⟨fun id hid => (frame_noteRenamed t v.id _).renamed id hid, hinsert⟩
    · exact ⟨fun _ _ => rfl, hinsert⟩

/-- Declarations in a row touch their identifiers. -/
theorem spares_foldl {f : Analysis → Identifier → Analysis} (hf : ∀ t v, Declares t v (f t v))
    (vars : List Identifier) (t : Analysis) :
    Spares t (vars.map Identifier.id) (vars.foldl f t) := by
  induction vars generalizing t with
  | nil => exact Spares.refl t _
  | cons v rest ih => exact (hf t v).spares.trans (ih (f t v))

/-! ## The names of the open scopes -/

/-- A scope of the walk holds the names of the declared identifiers of an environment. -/
def Labels (a : Annotations) (scope : List (String × Option String)) (env : Environment) : Prop :=
  ∀ name, scope.lookup name = (env.find? name).map fun d => a.renamed[d.id]?

/-- **The open scopes of the walk hold the names that annotations give to declared identifiers.** -/
structure Follows (a : Annotations) (t : Analysis) (envs : List Environment) : Prop where
  scopes : List.Forall₂ (Labels a) t.scopes envs
  merges : ∀ env ∈ envs, a.Merges env.identifiers

/-- Annotations may change while the scopes stay. -/
theorem Follows.annotate (h : Follows a t envs) (hscopes : t'.scopes = t.scopes) :
    Follows a t' envs := ⟨hscopes ▸ h.scopes, h.merges⟩

/-- All that is visible is merged. -/
theorem Follows.merges_flatten (h : Follows a t envs) :
    a.Merges (Environment.identifiers envs.flatten) := by
  have hall := h.merges
  clear h
  induction envs with
  | nil => exact fun d hd => nomatch hd
  | cons env envs ih =>
    obtain ⟨hfirst, hrest⟩ := List.forall_mem_cons.1 hall
    rw [List.flatten_cons, Environment.identifiers_append]
    exact hfirst.append (ih hrest)

/-- The walk finds the name of the innermost declared identifier. -/
theorem Follows.lookup_eq (h : Follows a t envs) (name : String) :
    t.lookup? name = (Environment.find? envs.flatten name).map fun d => a.renamed[d.id]? := by
  obtain ⟨hscopes, -⟩ := h
  unfold lookup?
  generalize t.scopes = scopes at hscopes
  induction hscopes with
  | nil => rfl
  | @cons scope env scopes envs hfirst _ ih =>
    have hlabel := hfirst name
    rw [Environment.find?] at hlabel
    rw [List.findSome?_cons, List.flatten_cons, Environment.find?, Environment.identifiers_append,
      List.find?_append, hlabel]
    cases env.identifiers.find? (·.name == name) with
    | none => exact ih
    | some d => rfl

/-- The innermost scope knows a name as what the innermost environment declares. -/
theorem Follows.innermost_eq (h : Follows a t (env :: envs)) (name : String) :
    t.innermost? name = (env.find? name).map fun d => a.renamed[d.id]? := by
  obtain ⟨hscopes, -⟩ := h
  unfold innermost?
  generalize t.scopes = scopes at hscopes
  cases hscopes with
  | cons hfirst _ => exact hfirst name

/-- A declared name is found first. -/
theorem find?_declare (env : Environment) (v : Identifier) (name : String) :
    (env.declare [v]).find? name = if v.name = name then some v else env.find? name := by
  rw [Environment.find?, Environment.identifiers_declare, List.reverse_singleton,
    List.singleton_append, List.find?_cons]
  by_cases h : v.name = name
  · simp [h]
  · have hne : (v.name == name) = false := by simpa using h
    rw [hne, if_neg h]
    rfl

/-- A new local. -/
theorem Follows.bind (h : Follows a t (env :: envs)) (hv : v.id ∉ a.redeclared) :
    Follows a (t.bind v.name a.renamed[v.id]?) (env.declare [v] :: envs) := by
  obtain ⟨hscopes, hmerges⟩ := h
  obtain ⟨hmine, houter⟩ := List.forall_mem_cons.1 hmerges
  constructor
  · unfold Analysis.bind
    generalize t.scopes = scopes at hscopes
    cases hscopes with
    | cons hfirst hrest =>
      refine .cons (fun name => ?_) hrest
      rw [List.lookup_cons, find?_declare]
      by_cases heq : v.name = name
      · simp [heq]
      · have hne : (name == v.name) = false := by simpa using Ne.symm heq
        rw [hne, if_neg heq]
        exact hfirst name
  · refine List.forall_mem_cons.2 ⟨?_, houter⟩
    rw [Environment.identifiers_declare]
    refine Annotations.Merges.append (fun d hd hredeclared => ?_) hmine
    rw [List.reverse_singleton, List.mem_singleton] at hd
    rw [hd] at hredeclared
    exact absurd hredeclared hv

/-- A local that is declared again. -/
theorem Follows.again (h : Follows a t (env :: envs))
    (hv : t.innermost? v.name = some a.renamed[v.id]?) : Follows a t (env.declare [v] :: envs) := by
  obtain ⟨hmine, houter⟩ := List.forall_mem_cons.1 h.merges
  rw [h.innermost_eq] at hv
  obtain ⟨d, hfind, hshares⟩ := Option.map_eq_some_iff.1 hv
  have hd : d ∈ env.identifiers := List.mem_of_find?_eq_some hfind
  have hname : d.name = v.name := by simpa using List.find?_some hfind
  constructor
  · obtain ⟨hscopes, -⟩ := h
    generalize t.scopes = scopes at hscopes
    cases hscopes with
    | cons hfirst hrest =>
      refine .cons (fun name => ?_) hrest
      rw [find?_declare, hfirst name]
      by_cases heq : v.name = name
      · rw [if_pos heq, ← heq, hv]
        rfl
      · rw [if_neg heq]
  · refine List.forall_mem_cons.2 ⟨?_, houter⟩
    rw [Environment.identifiers_declare, List.reverse_singleton, List.singleton_append]
    intro e he hredeclared
    rcases List.mem_cons.1 he with rfl | he
    · -- the identifier found before is a first one, or shares the name of one
      by_cases hagain : d.id ∈ a.redeclared
      · obtain ⟨first, hfirst, hfirstName, hfirstShares, hnot⟩ := hmine d hd hagain
        exact ⟨first, List.mem_cons_of_mem _ hfirst, hfirstName.trans hname,
          hfirstShares.trans hshares, hnot⟩
      · exact ⟨d, List.mem_cons_of_mem _ hd, hname, hshares, hagain⟩
    · obtain ⟨first, hfirst, hshares⟩ := hmine e he hredeclared
      exact ⟨first, List.mem_cons_of_mem _ hfirst, hshares⟩

/-- **One declaration.** -/
theorem Declares.follows (h : Declares t v t') (hfresh : t.Fresh v.id) (hagree : Agrees a [v.id] t')
    (ht : Follows a t (env :: envs)) : Follows a t' (env.declare [v] :: envs) := by
  obtain ⟨hrenamed, hredeclared⟩ := hagree v.id (List.mem_singleton.2 rfl)
  -- as it is, under a generated name, or again under the name it has
  cases h with
  | bind =>
    rw [bind_annotations] at hrenamed hredeclared
    rw [hfresh.renamed] at hrenamed
    have hbind := ht.bind (v := v) fun hmem => hfresh.redeclared (hredeclared.1 hmem)
    rwa [hrenamed] at hbind
  | rename =>
    have hlabel : a.renamed[v.id]? = some (freshName v.name (t.suffix + 1)) := by
      rw [hrenamed]
      simp [Analysis.rename, noteRenamed]
    have hnot : v.id ∉ a.redeclared := by
      rw [hredeclared]
      simpa [Analysis.rename, noteRenamed] using hfresh.redeclared
    have hnoted : Follows a ({ t with suffix := t.suffix + 1 }.noteRenamed v.id
        (freshName v.name (t.suffix + 1))) (env :: envs) := ht.annotate rfl
    have hbind := hnoted.bind hnot
    rwa [hlabel] at hbind
  | redeclare hinnermost =>
    have hscopes : (t.redeclare v).scopes = t.scopes := by
      unfold Analysis.redeclare
      split <;> rfl
    obtain ⟨generated, hgenerated⟩ := Option.isSome_iff_exists.1 hinnermost
    have hlabel : a.renamed[v.id]? = generated := by
      rw [hrenamed]
      unfold Analysis.redeclare
      rw [hgenerated]
      cases generated with
      | none => exact hfresh.renamed
      | some generated => exact renamed_noteRenamed _ v.id generated
    exact (ht.again (hlabel ▸ hgenerated)).annotate hscopes

/-- **Declarations in a row.** -/
theorem follows_foldl {f : Analysis → Identifier → Analysis} (hf : ∀ t v, Declares t v (f t v))
    {vars : List Identifier} (hnodup : (vars.map Identifier.id).Nodup)
    (hfresh : ∀ v ∈ vars, t.Fresh v.id)
    (hagree : Agrees a (vars.map Identifier.id) (vars.foldl f t)) (ht : Follows a t (env :: envs)) :
    Follows a (vars.foldl f t) (env.declare vars :: envs) := by
  induction vars generalizing t env with
  | nil => exact ht
  | cons v rest ih =>
    obtain ⟨hnot, hrest⟩ := List.nodup_cons.1 hnodup
    obtain ⟨hfirst, hlater⟩ := List.forall_mem_cons.1 hfresh
    have hone : Agrees a [v.id] (f t v) :=
      (hagree.subset (List.cons_subset_cons _ (List.nil_subset _))).before (spares_foldl hf rest _)
        fun id hid => List.mem_singleton.1 hid ▸ hnot
    have hnext := ih hrest
      (fun w hw => (hlater w hw).after (hf t v).spares fun hmem => by
        rw [List.mem_singleton] at hmem
        exact hnot (hmem ▸ List.mem_map_of_mem hw))
      (hagree.subset (List.subset_cons_self _ _)) ((hf t v).follows hfirst hone ht)
    simpa [Environment.declare] using hnext

/-! ## Stretches of program -/

/-- What a `local` statement changes of the annotations, by whether it redeclares. -/
theorem declare_annotations (t : Analysis) (id : NodeId) (vars : List Identifier)
    (init : List Expr) :
    let declared := vars.foldl (declareOne vars init ((vars.map Identifier.id).foldl max 0)) t
    (t.declare id vars init).scopes = declared.scopes ∧
      (t.declare id vars init).annotations.renamed = declared.annotations.renamed ∧
      (t.declare id vars init).annotations.redeclared = declared.annotations.redeclared := by
  unfold declare
  dsimp only
  split
  · exact ⟨rfl, rfl, rfl⟩
  · exact ⟨rfl, rfl, rfl⟩

/-- A `local` statement touches its variables. -/
theorem spares_declare (t : Analysis) (id : NodeId) (vars : List Identifier) (init : List Expr) :
    Spares t (vars.map Identifier.id) (t.declare id vars init) := by
  obtain ⟨-, hrenamed, hredeclared⟩ := declare_annotations t id vars init
  have hfold := spares_foldl
    (declares_declareOne vars init ((vars.map Identifier.id).foldl max 0)) vars t
  exact ⟨hrenamed ▸ hfold.renamed, hredeclared ▸ hfold.redeclared⟩

/-- A reference touches its own number. -/
theorem spares_reference (t : Analysis) (id : NodeId) (name : String) :
    Spares t [id] (t.reference id name) := by
  unfold reference
  split
  · exact ⟨fun _ _ => rfl, fun _ _ => Iff.rfl⟩
  · dsimp only
    split
    · exact ⟨fun other h => (frame_noteRenamed t id _).renamed other h, fun _ _ => Iff.rfl⟩
    · exact ⟨fun _ _ => rfl, fun _ _ => Iff.rfl⟩

/-- Opening a scope touches its parameters. -/
theorem spares_opened (t : Analysis) (receiver : Bool) (parameters : Option (List Identifier)) :
    Spares t ((parameters.getD []).map Identifier.id) (t.opened receiver parameters) := by
  cases parameters with
  | none => exact ⟨fun _ _ => rfl, fun _ _ => Iff.rfl⟩
  | some identifiers =>
    have hfold := spares_foldl declares_parameter identifiers { t with scopes := [] :: t.scopes }
    exact ⟨hfold.renamed, hfold.redeclared⟩

/-- A scope touches its parameters and what its events do. -/
theorem spares_scope (t : Analysis) (receiver : Bool) (parameters : Option (List Identifier))
    {es : List Event} (h : Spares (t.opened receiver parameters) ids
      (es.foldl step (t.opened receiver parameters))) :
    Spares t ((parameters.getD []).map Identifier.id ++ ids)
      ((Event.enter receiver ::
        ((parameters.map Event.parameters).toList ++ (es ++ [.leave]))).foldl step t) := by
  have hboth := (spares_opened t receiver parameters).trans h
  rw [foldl_scope]
  exact ⟨hboth.renamed, hboth.redeclared⟩

/-- A stretch of program annotates its own nodes only. -/
theorem spares_events (items : List Item) (t : Analysis) :
    Spares t (Skeleton.numbers items) ((Skeleton.events items).foldl step t) := by
  induction items using Skeleton.induction generalizing t with
  | nil => exact Spares.refl t _
  | reference id name rest ih => exact (spares_reference t id name).trans (ih _)
  | functionName identifier rest ih =>
    exact (spares_reference t identifier.id identifier.name).trans (ih _)
  | locals id vars init inner rest ihInner ih =>
    have hfirst := (ihInner t).trans (spares_declare _ id vars init)
    rw [Skeleton.events, Item.events, List.foldl_append, List.foldl_append]
    refine Spares.trans (hfirst.subset fun n hn => ?_) (ih _)
    simp only [Item.numbers, List.mem_append] at hn ⊢
    tauto
  | localFunction identifier rest ih =>
    exact (declares_declareFunction t identifier).spares.trans (ih _)
  | scope receiver parameters header body rest ihHeader ihBody ih =>
    have hscope := (ihHeader t).trans (spares_scope _ receiver parameters (ihBody _))
    rw [Skeleton.events, Item.events, List.foldl_append, List.foldl_append]
    refine Spares.trans (hscope.subset fun n hn => ?_) (ih _)
    simp only [Item.numbers, List.mem_append] at hn ⊢
    tauto

/-- **What the walk over events names**, in all annotations that agree with it on its nodes. -/
def Names (a : Annotations) (t : Analysis) (es : List Event) (ids : List NodeId)
    (envs : List Environment) (env env' : Environment) (os : List Occurrence) : Prop :=
  Agrees a ids (es.foldl step t) → Follows a t (env :: envs) →
    Follows a (es.foldl step t) (env' :: envs) ∧ ∀ o ∈ os, a.Resolves o

/-- Names in two stretches, when the second touches none of the first. -/
theorem Names.append {es es' : List Event} {os os' : List Occurrence}
    (h : Names a t es ids envs env env' os) (h' : Names a (es.foldl step t) es' ids' envs env' env'' os')
    (hspares : Spares (es.foldl step t) ids' (es'.foldl step (es.foldl step t)))
    (hdisjoint : ∀ id ∈ ids, id ∉ ids') :
    Names a t (es ++ es') (ids ++ ids') envs env env'' (os ++ os') := by
  intro hagree ht
  rw [List.foldl_append] at hagree ⊢
  obtain ⟨hmiddle, hos⟩ :=
    h ((hagree.subset (List.subset_append_left _ _)).before hspares hdisjoint) ht
  obtain ⟨hlast, hos'⟩ := h' (hagree.subset (List.subset_append_right _ _)) hmiddle
  refine ⟨hlast, fun o ho => ?_⟩
  rcases List.mem_append.1 ho with ho | ho
  · exact hos o ho
  · exact hos' o ho

/-- More may be touched than is named. -/
theorem Names.subset {es : List Event} {os : List Occurrence}
    (h : Names a t es ids envs env env' os) (hsub : ids ⊆ ids') :
    Names a t es ids' envs env env' os := fun hagree ht => h (hagree.subset hsub) ht

/-- A reference is named as what is visible of its name. -/
theorem names_reference {id : NodeId} (hfresh : t.Fresh id) (name : String) :
    Names a t [.reference id name] [id] envs env env [⟨id, name, env ++ envs.flatten⟩] := by
  intro hagree ht
  have hlookup := ht.lookup_eq name
  have hrenamed := (hagree id (List.mem_singleton.2 rfl)).1
  change a.renamed[id]? = (t.reference id name).annotations.renamed[id]? at hrenamed
  -- a reference notes at most a name of its own and opens no scope
  have hscopes : (t.reference id name).scopes = t.scopes := by
    unfold reference
    split
    · rfl
    · dsimp only
      split <;> rfl
  refine ⟨ht.annotate hscopes, fun o ho => ?_⟩
  obtain rfl := List.mem_singleton.1 ho
  refine ⟨?_, ht.merges_flatten⟩
  change a.renamed[id]? = (Environment.find? (env :: envs).flatten name).bind _
  rw [hrenamed]
  unfold reference
  -- the lookup finds the binder that the environment gives
  cases hfound : Environment.find? (env :: envs).flatten name with
  | none =>
    rw [hfound] at hlookup
    rw [hlookup]
    exact hfresh.renamed
  | some d =>
    rw [hfound] at hlookup
    rw [hlookup, Option.map_some, Option.bind_some]
    cases a.renamed[d.id]? with
    | none => exact hfresh.renamed
    | some generated => exact renamed_noteRenamed _ id generated

/-- A `local` statement names its variables as they are declared. -/
theorem names_declare {id : NodeId} {vars : List Identifier} (init : List Expr)
    (hnodup : (vars.map Identifier.id).Nodup) (hfresh : ∀ v ∈ vars, t.Fresh v.id) :
    Names a t [.declare id vars init] (vars.map Identifier.id) envs env (env.declare vars) [] := by
  obtain ⟨hscopes, hrenamed, hredeclared⟩ := declare_annotations t id vars init
  intro hagree ht
  refine ⟨?_, fun _ ho => nomatch ho⟩
  have hfold := follows_foldl (declares_declareOne vars init _) hnodup hfresh
    (fun n hn => hrenamed ▸ hredeclared ▸ hagree n hn) ht
  exact hfold.annotate hscopes

theorem names_declareFunction (hfresh : t.Fresh v.id) :
    Names a t [.declareFunction v] [v.id] envs env (env.declare [v]) [] := fun hagree ht =>
  ⟨(declares_declareFunction t v).follows hfresh hagree ht, fun _ ho => nomatch ho⟩

/-- The parameters of a scope. -/
theorem follows_opened {receiver : Bool} {parameters : Option (List Identifier)}
    (hnodup : ((parameters.getD []).map Identifier.id).Nodup)
    (hfresh : ∀ v ∈ parameters.getD [], t.Fresh v.id)
    (hagree : Agrees a ((parameters.getD []).map Identifier.id) (t.opened receiver parameters))
    (ht : Follows a t envs) :
    Follows a (t.opened receiver parameters) (Environment.enter [] receiver parameters :: envs) := by
  have hentered : Follows a { t with scopes := [] :: t.scopes }
      ((if receiver then [(receiverName, .receiver)] else []) :: envs) := by
    refine ⟨.cons (fun name => ?_) ht.scopes, List.forall_mem_cons.2 ⟨?_, ht.merges⟩⟩
    · cases receiver <;> rfl
    · cases receiver <;> exact fun _ hd => nomatch hd
  rw [Environment.enter, List.append_nil]
  cases parameters with
  | none => exact hentered
  | some identifiers =>
    have hnew : ∀ v ∈ identifiers, Fresh { t with scopes := [] :: t.scopes } v.id :=
      fun v hv => ⟨(hfresh v hv).renamed, (hfresh v hv).redeclared⟩
    exact follows_foldl declares_parameter hnodup hnew hagree hentered

/-- A scope ends where it began. -/
theorem names_scope {receiver : Bool} {parameters : Option (List Identifier)} {es : List Event}
    {os : List Occurrence} (hnodup : ((parameters.getD []).map Identifier.id).Nodup)
    (hfresh : ∀ v ∈ parameters.getD [], t.Fresh v.id)
    (hdisjoint : ∀ v ∈ parameters.getD [], v.id ∉ ids)
    (hspares : Spares (t.opened receiver parameters) ids
      (es.foldl step (t.opened receiver parameters)))
    (hbody : Names a (t.opened receiver parameters) es ids (env :: envs)
      (Environment.enter [] receiver parameters) env' os) :
    Names a t (.enter receiver :: ((parameters.map Event.parameters).toList ++ (es ++ [.leave])))
      ((parameters.getD []).map Identifier.id ++ ids) envs env env os := by
  intro hagree ht
  -- the scope is opened, its events run inside, and it is left
  rw [foldl_scope] at hagree ⊢
  have hinside : Agrees a ((parameters.getD []).map Identifier.id ++ ids)
    (es.foldl step (t.opened receiver parameters)) := hagree
  have hopened := follows_opened hnodup hfresh
    ((hinside.subset (List.subset_append_left _ _)).before hspares fun id hid => by
      obtain ⟨v, hv, rfl⟩ := List.mem_map.1 hid
      exact hdisjoint v hv) ht
  obtain ⟨hend, hos⟩ := hbody (hinside.subset (List.subset_append_right _ _)) hopened
  refine ⟨⟨?_, fun e he => hend.merges e (List.mem_cons_of_mem _ he)⟩, hos⟩
  have hscopes := hend.scopes
  revert hscopes
  generalize (es.foldl step (t.opened receiver parameters)).scopes = scopes
  intro hscopes
  -- leaving drops the innermost scope
  cases hscopes with
  | cons _ hrest => exact hrest

/-- The walk has annotated no node from a number on. -/
def FreshFrom (t : Analysis) (lo : NodeId) : Prop := ∀ id, lo ≤ id → t.Fresh id

/-- Numbers behind those that were touched stay fresh. -/
theorem FreshFrom.after {lo hi : NodeId} (h : t.FreshFrom lo) (hspares : Spares t ids t')
    (hr : Rising lo ids hi) : t'.FreshFrom hi := fun id hid =>
  (h id (Nat.le_trans hr.le hid)).after hspares fun hmem => Nat.not_lt.2 hid (hr.mem hmem).2

/-- An item touches its own numbers. -/
theorem spares_item (item : Item) (t : Analysis) :
    Spares t item.numbers (item.events.foldl step t) := by
  have h := spares_events [item] t
  simpa [Skeleton.events, Skeleton.numbers] using h

/-- One item before others. -/
theorem names_cons {item : Item} {rest : List Item} {lo hi : NodeId}
    (hr : Rising lo (item.numbers ++ Skeleton.numbers rest) hi) (hfresh : t.FreshFrom lo)
    (hitem : Names a t item.events item.numbers envs env (item.bind env)
      (item.occurrences (env ++ envs.flatten)))
    (ih : ∀ {t : Analysis} {env : Environment} {lo : NodeId}, Rising lo (Skeleton.numbers rest) hi →
      t.FreshFrom lo → Names a t (Skeleton.events rest) (Skeleton.numbers rest) envs env
        (Skeleton.bind env rest) (Skeleton.occurrences (env ++ envs.flatten) rest)) :
    Names a t (Skeleton.events (item :: rest)) (Skeleton.numbers (item :: rest)) envs env
      (Skeleton.bind env (item :: rest))
      (Skeleton.occurrences (env ++ envs.flatten) (item :: rest)) := by
  obtain ⟨mid, hfirst, hlater⟩ := rising_append.1 hr
  have hafter : Names a (item.events.foldl step t) (Skeleton.events rest) (Skeleton.numbers rest)
      envs (item.bind env) _ (Skeleton.occurrences (item.bind env ++ envs.flatten) rest) :=
    ih hlater (hfresh.after (spares_item item t) hfirst)
  rw [← Item.bind_append] at hafter
  exact hitem.append hafter (spares_events rest _) fun id hid hmem => by
    have hlt := (hfirst.mem hid).2
    have hge := (hlater.mem hmem).1
    omega

theorem FreshFrom.weaken {lo lo' : NodeId} (h : t.FreshFrom lo) (hle : lo ≤ lo') :
    t.FreshFrom lo' := fun id hid => h id (Nat.le_trans hle hid)

/-- The values of a `local` statement do not see its variables. -/
theorem names_locals {id : NodeId} {vars : List Identifier} {init : List Expr} {inner : List Item}
    {lo first second : NodeId} (hplain : Skeleton.Plain inner)
    (hvars : Rising lo (vars.map Identifier.id) first)
    (hinner : Rising first (Skeleton.numbers inner) second) (hfresh : t.FreshFrom lo)
    (hvalues : Names a t (Skeleton.events inner) (Skeleton.numbers inner) envs env
      (Skeleton.bind env inner) (Skeleton.occurrences (env ++ envs.flatten) inner)) :
    Names a t (Item.locals id vars init inner).events (Item.locals id vars init inner).numbers envs
      env ((Item.locals id vars init inner).bind env)
      ((Item.locals id vars init inner).occurrences (env ++ envs.flatten)) := by
  rw [Skeleton.bind_plain hplain] at hvalues
  have happart : ∀ n ∈ Skeleton.numbers inner, n ∉ vars.map Identifier.id := fun n hn hmem => by
    have hlt := (hvars.mem hmem).2
    have hge := (hinner.mem hn).1
    omega
  -- the values leave the variables alone, which stand before them
  have hnew : ∀ v ∈ vars, Fresh ((Skeleton.events inner).foldl step t) v.id := fun v hv =>
    (hfresh v.id (hvars.mem (List.mem_map_of_mem hv)).1).after (spares_events inner t)
      fun hmem => happart v.id hmem (List.mem_map_of_mem hv)
  have hboth := hvalues.append (names_declare init hvars.nodup hnew)
    (spares_declare _ id vars init) happart
  rw [List.append_nil] at hboth
  refine hboth.subset fun n hn => ?_
  simp only [Item.numbers, List.mem_append] at hn ⊢
  tauto

/-- A scope sees its parameters, and its header does not. -/
theorem names_scopeItem {receiver : Bool} {parameters : Option (List Identifier)}
    {header body : List Item} {lo first second hi : NodeId} (hplain : Skeleton.Plain header)
    (hparameters : Rising lo ((parameters.getD []).map Identifier.id) first)
    (hheader : Rising first (Skeleton.numbers header) second)
    (hbody : Rising second (Skeleton.numbers body) hi) (hfresh : t.FreshFrom lo)
    (hbefore : Names a t (Skeleton.events header) (Skeleton.numbers header) envs env
      (Skeleton.bind env header) (Skeleton.occurrences (env ++ envs.flatten) header))
    (hinside : ∀ {t : Analysis} {own : Environment}, t.FreshFrom second →
      Names a t (Skeleton.events body) (Skeleton.numbers body) (env :: envs) own
        (Skeleton.bind own body) (Skeleton.occurrences (own ++ (env :: envs).flatten) body)) :
    Names a t (Item.scope receiver parameters header body).events
      (Item.scope receiver parameters header body).numbers envs env
      ((Item.scope receiver parameters header body).bind env)
      ((Item.scope receiver parameters header body).occurrences (env ++ envs.flatten)) := by
  -- the header binds nothing in the scope around it
  rw [Skeleton.bind_plain hplain] at hbefore
  have hspares := spares_events header t
  have hnew : ∀ v ∈ parameters.getD [], Fresh ((Skeleton.events header).foldl step t) v.id := by
    intro v hv
    have hv := hparameters.mem (List.mem_map_of_mem hv)
    refine (hfresh v.id hv.1).after hspares fun hmem => ?_
    have hge := (hheader.mem hmem).1
    omega
  -- nodes are numbered in their order, so what the header named is not named again
  have hopened : (((Skeleton.events header).foldl step t).opened receiver parameters).FreshFrom
      second := by
    intro n hn
    refine ((hfresh.weaken hparameters.le).after hspares hheader n hn).after (spares_opened ..) ?_
    exact fun hmem =>
      Nat.not_lt.2 (Nat.le_trans hheader.le hn) (hparameters.mem hmem).2
  have hscope := names_scope hparameters.nodup hnew
    (fun v hv hmem => by
      have hlt := (hparameters.mem (List.mem_map_of_mem hv)).2
      have hge := (hbody.mem hmem).1
      have hle := hheader.le
      omega)
    (spares_events body _) (hinside hopened)
  rw [List.flatten_cons, ← Environment.enter_append] at hscope
  -- header and body are numbered apart
  have hall := hbefore.append hscope (spares_scope _ receiver parameters (spares_events body _))
    fun n hn hmem => by
      have hn := hheader.mem hn
      rcases List.mem_append.1 hmem with hmem | hmem
      · have hlt := (hparameters.mem hmem).2
        omega
      · have hge := (hbody.mem hmem).1
        omega
  refine hall.subset fun n hn => ?_
  simp only [Item.numbers, List.mem_append] at hn ⊢
  tauto

/-- **What a stretch of program names.** -/
theorem names_items {items : List Item} {lo hi : NodeId} (hwf : Skeleton.WellFormed items)
    (hr : Rising lo (Skeleton.numbers items) hi) (hfresh : t.FreshFrom lo) :
    Names a t (Skeleton.events items) (Skeleton.numbers items) envs env (Skeleton.bind env items)
      (Skeleton.occurrences (env ++ envs.flatten) items) := by
  induction items using Skeleton.induction generalizing t env envs lo hi with
  | nil => exact fun _ ht => ⟨ht, fun _ ho => nomatch ho⟩
  | reference id name rest ih =>
    exact names_cons hr hfresh (names_reference (hfresh id hr.1) name) (ih hwf.2)
  | functionName identifier rest ih =>
    exact names_cons hr hfresh (names_reference (hfresh identifier.id hr.1) _) (ih hwf.2)
  | localFunction identifier rest ih =>
    exact names_cons hr hfresh (names_declareFunction (hfresh identifier.id hr.1)) (ih hwf.2)
  | locals id vars init inner rest ihInner ih =>
    refine names_cons hr hfresh ?_ (ih hwf.2)
    obtain ⟨mid, hitem, -⟩ := rising_append.1 hr
    obtain ⟨first, hvars, hlater⟩ := rising_append.1 hitem
    obtain ⟨second, hinner, -⟩ := rising_append.1 hlater
    -- the values are numbered behind the variables
    exact names_locals hwf.1.1 hvars hinner hfresh (ihInner hwf.1.2 hinner
      fun n hn => hfresh n (Nat.le_trans hvars.le hn))
  | scope receiver parameters header body rest ihHeader ihBody ih =>
    refine names_cons hr hfresh ?_ (ih hwf.2)
    obtain ⟨mid, hitem, -⟩ := rising_append.1 hr
    obtain ⟨first, hparameters, hlater⟩ := rising_append.1 hitem
    obtain ⟨second, hheader, hbody⟩ := rising_append.1 hlater
    obtain ⟨⟨hplain, hheaderWf, hbodyWf⟩, -⟩ := hwf
    exact names_scopeItem hplain hparameters hheader hbody hfresh
      (ihHeader hheaderWf hheader (hfresh.weaken hparameters.le)) (ihBody hbodyWf hbody)

/-! ## Programs -/

/-- At the start all numbers are fresh. -/
theorem freshFrom_start : (opened {} false none).FreshFrom 0 :=
  fun _ _ => ⟨rfl, fun h => nomatch h⟩

/-- At the start one scope is open, and empty. -/
theorem follows_start (a : Annotations) : Follows a (opened {} false none) [[]] :=
  ⟨.cons (fun _ => rfl) .nil, fun env henv d hd => by
    rw [List.mem_singleton.1 henv] at hd
    cases hd⟩

/-- The annotations of a program are those of the walk over its body. -/
theorem agrees_chunk (chunk : Chunk) :
    Agrees (analyse (Skeleton.events chunk.items)).annotations
      (Skeleton.numbers (stmtItems chunk.body))
      ((Skeleton.events (stmtItems chunk.body)).foldl step (opened {} false none)) := by
  rw [analyse_annotations]
  exact fun _ _ => ⟨rfl, Iff.rfl⟩

end Analysis

theorem Skeleton.numbers_chunk (chunk : Chunk) :
    Skeleton.numbers chunk.items = Skeleton.numbers (stmtItems chunk.body) := by
  simp [Chunk.items, Skeleton.numbers, Item.numbers]

end Scope

open Scope

/-- **A program's references have the names of the declarations that they see**, if its identities
rise. -/
theorem Chunk.resolves (chunk : Chunk) {hi : NodeId}
    (hr : Rising 0 (Skeleton.numbers chunk.items) hi) {o : Occurrence} (ho : o ∈ chunk.occurrences) :
    (analyse (Skeleton.events chunk.items)).annotations.Resolves o := by
  rw [Skeleton.numbers_chunk] at hr
  rw [chunk.occurrences_eq] at ho
  have hbody := Analysis.names_items (stmtItems_wellFormed chunk.body) hr Analysis.freshFrom_start
    (Analysis.agrees_chunk chunk) (Analysis.follows_start _)
  exact hbody.2 o ho

end LuaCompiler
