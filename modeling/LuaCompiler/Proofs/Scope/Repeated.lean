import LuaCompiler.Proofs.Scope.Naming

/-!
# Names that are declared again

A scope lists the identifiers it declares in the order of their declarations, parameters first. An
identifier that is marked as declared again has the name of one before it in the list of its own
scope, and in generated code the two are one name.

* `Skeleton.scopes`: the declared identifiers of each scope of a stretch of program.
* `Annotations.Repeats`: what is said about one scope.
* `Lasting`: what holds on from one declaration of a scope to the next; `recalls_items`: it holds of all
  scopes, by one recursion over the program.
* `mem_scopes_of_redeclared`: only identifiers of a scope are marked.
-/

namespace LuaCompiler

namespace Scope

/-- The identifiers that an item declares in the scope where it stands. -/
def Item.declared : Item → List Identifier
  | .locals _ vars _ _ => vars
  | .localFunction identifier => [identifier]
  | _ => []

/-- The identifiers that a stretch of program declares in the scope where it stands. -/
def Skeleton.declared : List Item → List Identifier
  | [] => []
  | first :: rest => first.declared ++ Skeleton.declared rest

mutual

/-- The declared identifiers of each scope in an item, in the order of their declarations. -/
def Item.scopes : Item → List (List Identifier)
  | .locals _ _ _ inner => Skeleton.scopes inner
  | .scope _ parameters header body =>
    Skeleton.scopes header ++
      (parameters.getD [] ++ Skeleton.declared body) :: Skeleton.scopes body
  | _ => []

/-- The declared identifiers of each scope in a stretch of program. -/
def Skeleton.scopes : List Item → List (List Identifier)
  | [] => []
  | first :: rest => first.scopes ++ Skeleton.scopes rest

end

/-- Two stretches declare what each declares. -/
theorem Skeleton.declared_append (a b : List Item) :
    Skeleton.declared (a ++ b) = Skeleton.declared a ++ Skeleton.declared b := by
  induction a with
  | nil => rfl
  | cons first rest ih =>
    rw [List.cons_append, Skeleton.declared, Skeleton.declared, ih, List.append_assoc]

theorem Skeleton.mem_scopes {items : List Item} {scope : List Identifier} :
    scope ∈ Skeleton.scopes items ↔ ∃ item ∈ items, scope ∈ item.scopes := by
  induction items with
  | nil => simp [Skeleton.scopes]
  | cons first rest ih => simp [Skeleton.scopes, ih]

namespace Environment

/-- The declared identifiers of an environment, in the order of their declarations. -/
def declared (env : Environment) : List Identifier := env.identifiers.reverse

@[simp]
theorem declared_declare (env : Environment) (vars : List Identifier) :
    (env.declare vars).declared = env.declared ++ vars := by
  simp [declared]

@[simp]
theorem declared_enter (receiver : Bool) (parameters : Option (List Identifier)) :
    (enter [] receiver parameters).declared = parameters.getD [] := by
  rw [declared, identifiers_enter, List.reverse_append, List.reverse_reverse]
  rfl

/-- What a stretch binds is what it declares. -/
@[simp]
theorem declared_bind (env : Environment) (items : List Item) :
    (Skeleton.bind env items).declared = env.declared ++ Skeleton.declared items := by
  induction items generalizing env with
  | nil => simp [Skeleton.bind, Skeleton.declared]
  | cons first rest ih =>
    have hfirst : (first.bind env).declared = env.declared ++ first.declared := by
      cases first <;> simp [Item.bind, Item.declared]
    change (Skeleton.bind (first.bind env) rest).declared = _
    rw [ih, hfirst, Skeleton.declared, List.append_assoc]

end Environment

/-- **Identifiers that are declared again have an earlier declaration**, of their name and under one
name in generated code. -/
def Annotations.Repeats (a : Annotations) (declared : List Identifier) : Prop :=
  ∀ d ∈ declared, d.id ∈ a.redeclared → ∃ first, [first, d].Sublist declared ∧
    first.name = d.name ∧ a.renamed[first.id]? = a.renamed[d.id]?

/-- One more identifier, which is not declared again or has an earlier declaration. -/
theorem Annotations.Repeats.snoc {a : Annotations} {declared : List Identifier} {v : Identifier}
    (h : a.Repeats declared) (hv : v.id ∈ a.redeclared → ∃ first ∈ declared, first.name = v.name ∧
      a.renamed[first.id]? = a.renamed[v.id]?) : a.Repeats (declared ++ [v]) := by
  intro d hd hredeclared
  rcases List.mem_append.1 hd with hd | hd
  · obtain ⟨first, hsub, hshares⟩ := h d hd hredeclared
    exact ⟨first, hsub.trans (List.sublist_append_left _ _), hshares⟩
  · obtain rfl := List.mem_singleton.1 hd
    obtain ⟨first, hfirst, hshares⟩ := hv hredeclared
    exact ⟨first, (List.singleton_sublist.2 hfirst).append (List.Sublist.refl [d]), hshares⟩

namespace Analysis

variable {t t' : Analysis} {a : Annotations} {env : Environment} {envs : List Environment}
  {v : Identifier}

/-- **What lasts in a scope** from one declaration to the next: it holds before there is any, and with
one identifier more, in whatever way that is declared. -/
structure Lasting (a : Annotations) (P : List Identifier → Prop) : Prop where
  nil : P []
  snoc : ∀ {t t' : Analysis} {v : Identifier} {env : Environment} {envs : List Environment},
    Declares t v t' → t.Fresh v.id → Agrees a [v.id] t' → Follows a t (env :: envs) →
      P env.declared → P (env.declared ++ [v])

/-- **Repetitions last.** -/
theorem lasting_repeats (a : Annotations) : Lasting a a.Repeats where
  nil _ hd := nomatch hd
  snoc := by
    intro t t' v env envs h hfresh hagree ht hrepeats
    obtain ⟨hrenamed, hredeclared⟩ := hagree v.id (List.mem_singleton.2 rfl)
    refine hrepeats.snoc fun hagain => ?_
    rw [hredeclared] at hagain
    cases h with
    | bind => exact absurd (by simpa using hagain) hfresh.redeclared
    | rename => exact absurd (by simpa [Analysis.rename, noteRenamed] using hagain) hfresh.redeclared
    | redeclare hinnermost =>
      -- the innermost scope holds the name of the identifier that is declared again
      rw [ht.innermost_eq, Option.isSome_map] at hinnermost
      obtain ⟨d, hfind⟩ := Option.isSome_iff_exists.1 hinnermost
      have hd : d ∈ env.declared := List.mem_reverse.2 (List.mem_of_find?_eq_some hfind)
      refine ⟨d, hd, by simpa using List.find?_some hfind, ?_⟩
      have hinner : t.innermost? v.name = some a.renamed[d.id]? := by
        rw [ht.innermost_eq, hfind, Option.map_some]
      rw [hrenamed, Analysis.redeclare, hinner]
      cases a.renamed[d.id]? with
      | none => exact hfresh.renamed.symm
      | some generated => exact (renamed_noteRenamed _ v.id generated).symm

variable {P : List Identifier → Prop}

/-- **Declarations in a row.** -/
theorem Lasting.foldl (hP : Lasting a P) {f : Analysis → Identifier → Analysis}
    (hf : ∀ t v, Declares t v (f t v)) {vars : List Identifier}
    (hnodup : (vars.map Identifier.id).Nodup) (hfresh : ∀ v ∈ vars, t.Fresh v.id)
    (hagree : Agrees a (vars.map Identifier.id) (vars.foldl f t)) (ht : Follows a t (env :: envs))
    (h : P env.declared) : P (env.declare vars).declared := by
  induction vars generalizing t env with
  | nil => exact h
  | cons v rest ih =>
    obtain ⟨hnot, hrest⟩ := List.nodup_cons.1 hnodup
    obtain ⟨hfirst, hlater⟩ := List.forall_mem_cons.1 hfresh
    have hone : Agrees a [v.id] (f t v) :=
      (hagree.subset (List.cons_subset_cons _ (List.nil_subset _))).before (spares_foldl hf rest _)
        fun id hid => List.mem_singleton.1 hid ▸ hnot
    have hstep : P (env.declare [v]).declared := by
      rw [Environment.declared_declare]
      exact hP.snoc (hf t v) hfirst hone ht h
    have hnext := ih hrest
      (fun w hw => (hlater w hw).after (hf t v).spares fun hmem => by
        rw [List.mem_singleton] at hmem
        exact hnot (hmem ▸ List.mem_map_of_mem hw))
      (hagree.subset (List.subset_cons_self _ _)) ((hf t v).follows hfirst hone ht) hstep
    simpa [Environment.declare] using hnext

/-- **What the walk over events says about scopes**, in all annotations that agree with it on its
nodes. -/
def Recalls (P : List Identifier → Prop) (a : Annotations) (t : Analysis) (es : List Event)
    (ids : List NodeId) (envs : List Environment) (env env' : Environment)
    (scopes : List (List Identifier)) : Prop :=
  Agrees a ids (es.foldl step t) → Follows a t (env :: envs) → P env.declared →
    P env'.declared ∧ ∀ scope ∈ scopes, P scope

/-- One item before others. -/
theorem recalls_cons {item : Item} {rest : List Item} {lo hi : NodeId}
    (hwf : Skeleton.WellFormed (item :: rest))
    (hr : Rising lo (item.numbers ++ Skeleton.numbers rest) hi) (hfresh : t.FreshFrom lo)
    (hitem : Recalls P a t item.events item.numbers envs env (item.bind env) item.scopes)
    (ih : ∀ {t : Analysis} {env : Environment} {lo : NodeId}, Rising lo (Skeleton.numbers rest) hi →
      t.FreshFrom lo → Recalls P a t (Skeleton.events rest) (Skeleton.numbers rest) envs env
        (Skeleton.bind env rest) (Skeleton.scopes rest)) :
    Recalls P a t (Skeleton.events (item :: rest)) (Skeleton.numbers (item :: rest)) envs env
      (Skeleton.bind env (item :: rest)) (Skeleton.scopes (item :: rest)) := by
  intro hagree ht hheld
  obtain ⟨mid, hfirst, hlater⟩ := rising_append.1 hr
  rw [Skeleton.events, List.foldl_append] at hagree
  -- the rest has later numbers, so it leaves what the item has noted
  have hbefore : Agrees a item.numbers (item.events.foldl step t) := by
    refine (hagree.subset (List.subset_append_left _ _)).before (spares_events rest _) ?_
    intro id hid hmem
    have hlt := (hfirst.mem hid).2
    have hge := (hlater.mem hmem).1
    omega
  have hfollows : Follows a (item.events.foldl step t) (item.bind env :: envs) := by
    have hone : Names a t (Skeleton.events [item]) (Skeleton.numbers [item]) envs env _ _ :=
      names_items ⟨hwf.1, trivial⟩ (by simpa [Skeleton.numbers] using hfirst) hfresh
    simp only [Skeleton.events, Skeleton.numbers, List.append_nil] at hone
    exact (hone hbefore ht).1
  obtain ⟨hown, hscopes⟩ := hitem hbefore ht hheld
  obtain ⟨hend, hscopes'⟩ := ih hlater (hfresh.after (spares_item item t) hfirst)
    (hagree.subset (List.subset_append_right _ _)) hfollows hown
  refine ⟨hend, fun scope hscope => ?_⟩
  rcases List.mem_append.1 hscope with hscope | hscope
  · exact hscopes scope hscope
  · exact hscopes' scope hscope

/-- A `local` statement recalls what its scope has declared: the values come first and declare
nothing there, then the variables one by one. -/
theorem recalls_locals (hP : Lasting a P) {id : NodeId} {vars : List Identifier} {init : List Expr}
    {inner : List Item} {lo hi : NodeId}
    (hwf : (Item.locals id vars init inner).WellFormed)
    (hr : Rising lo (Item.locals id vars init inner).numbers hi) (hfresh : t.FreshFrom lo)
    (hinner : ∀ {lo hi : NodeId}, Rising lo (Skeleton.numbers inner) hi → t.FreshFrom lo →
      Recalls P a t (Skeleton.events inner) (Skeleton.numbers inner) envs env
        (Skeleton.bind env inner) (Skeleton.scopes inner)) :
    Recalls P a t (Item.locals id vars init inner).events (Item.locals id vars init inner).numbers
      envs env ((Item.locals id vars init inner).bind env)
      (Item.locals id vars init inner).scopes := by
  obtain ⟨hplain, hinnerWf⟩ := hwf
  obtain ⟨first, hvars, hlater⟩ := rising_append.1 hr
  obtain ⟨second, hvalues, -⟩ := rising_append.1 hlater
  have happart : ∀ n ∈ Skeleton.numbers inner, n ∉ vars.map Identifier.id := fun n hn hmem => by
    have hlt := (hvars.mem hmem).2
    have hge := (hvalues.mem hn).1
    omega
  intro hagree ht hheld
  rw [Item.events, List.foldl_append] at hagree
  obtain ⟨-, hrenamed, hredeclared⟩ :=
    declare_annotations ((Skeleton.events inner).foldl step t) id vars init
  have hwhole : Skeleton.numbers inner ⊆ (Item.locals id vars init inner).numbers := by
    simp [Item.numbers]
  have hbehind : Agrees a (Skeleton.numbers inner) ((Skeleton.events inner).foldl step t) :=
    (hagree.subset hwhole).before (spares_declare _ id vars init) happart
  have hlow := hfresh.weaken hvars.le
  have hitems : Names a t (Skeleton.events inner) (Skeleton.numbers inner) envs env _ _ :=
    names_items hinnerWf hvalues hlow
  have hnames := hitems hbehind ht
  rw [Skeleton.bind_plain hplain] at hnames
  -- the values leave the variables alone, which stand before them
  have hnew : ∀ v ∈ vars, Fresh ((Skeleton.events inner).foldl step t) v.id := fun v hv =>
    (hfresh v.id (hvars.mem (List.mem_map_of_mem hv)).1).after (spares_events inner t)
      fun hmem => happart v.id hmem (List.mem_map_of_mem hv)
  have hdeclared : Agrees a (vars.map Identifier.id) (((Skeleton.events inner).foldl step t).declare
      id vars init) := hagree.subset (List.subset_append_left _ _)
  refine ⟨?_, (hinner hvalues hlow hbehind ht hheld).2⟩
  exact hP.foldl (declares_declareOne vars init _) hvars.nodup hnew
    (fun n hn => hrenamed ▸ hredeclared ▸ hdeclared n hn) hnames.1 hheld

/-- A scope starts with its parameters. -/
theorem Lasting.opened (hP : Lasting a P) {receiver : Bool} {parameters : Option (List Identifier)}
    (hnodup : ((parameters.getD []).map Identifier.id).Nodup)
    (hfresh : ∀ v ∈ parameters.getD [], t.Fresh v.id)
    (hagree : Agrees a ((parameters.getD []).map Identifier.id) (t.opened receiver parameters))
    (ht : Follows a t envs) : P (Environment.enter [] receiver parameters).declared := by
  have hstart : (if receiver then [(receiverName, Binder.receiver)] else [] : Environment).declared
      = [] := by
    cases receiver <;> rfl
  have hempty : P (if receiver then [(receiverName, Binder.receiver)] else [] : Environment).declared :=
    hstart ▸ hP.nil
  rw [Environment.enter, List.append_nil]
  cases parameters with
  | none => exact hempty
  | some identifiers =>
    have hentered : Follows a (t.opened receiver none) (Environment.enter [] receiver none :: envs) :=
      follows_opened List.nodup_nil (fun _ hv => absurd hv List.not_mem_nil)
        (fun _ hid => absurd hid List.not_mem_nil) ht
    rw [Environment.enter, List.append_nil] at hentered
    have hnew : ∀ v ∈ identifiers, Fresh { t with scopes := [] :: t.scopes } v.id :=
      fun v hv => ⟨(hfresh v hv).renamed, (hfresh v hv).redeclared⟩
    exact hP.foldl declares_parameter hnodup hnew hagree hentered hempty

/-- A scope recalls what its own parameters and statements declare, and leaves what the outer scopes
have declared as it was. The header is gone through before the scope is entered. -/
theorem recalls_scope (hP : Lasting a P) {receiver : Bool} {parameters : Option (List Identifier)}
    {header body : List Item} {lo hi : NodeId}
    (hwf : (Item.scope receiver parameters header body).WellFormed)
    (hr : Rising lo (Item.scope receiver parameters header body).numbers hi)
    (hfresh : t.FreshFrom lo)
    (hheader : ∀ {lo hi : NodeId}, Rising lo (Skeleton.numbers header) hi → t.FreshFrom lo →
      Recalls P a t (Skeleton.events header) (Skeleton.numbers header) envs env
        (Skeleton.bind env header) (Skeleton.scopes header))
    (hbody : ∀ {t : Analysis} {own : Environment} {lo hi : NodeId},
      Rising lo (Skeleton.numbers body) hi → t.FreshFrom lo →
      Recalls P a t (Skeleton.events body) (Skeleton.numbers body) (env :: envs) own
        (Skeleton.bind own body) (Skeleton.scopes body)) :
    Recalls P a t (Item.scope receiver parameters header body).events
      (Item.scope receiver parameters header body).numbers envs env
      ((Item.scope receiver parameters header body).bind env)
      (Item.scope receiver parameters header body).scopes := by
  obtain ⟨hplain, hheaderWf, -⟩ := hwf
  obtain ⟨first, hparameters, hlater⟩ := rising_append.1 hr
  obtain ⟨second, hbefore, hinside⟩ := rising_append.1 hlater
  intro hagree ht hheld
  rw [Item.events, List.foldl_append, foldl_scope] at hagree
  generalize ht₁ : (Skeleton.events header).foldl step t = t₁ at hagree
  have hspares : Spares t (Skeleton.numbers header) t₁ := ht₁ ▸ spares_events header t
  have hlast : Agrees a (Item.scope receiver parameters header body).numbers
      ((Skeleton.events body).foldl step (t₁.opened receiver parameters)) := hagree
  -- header, parameters and body number nodes of their own and annotate no others
  have hopened : Agrees a ((parameters.getD []).map Identifier.id)
      (t₁.opened receiver parameters) := by
    refine (hlast.subset (List.subset_append_left _ _)).before (spares_events body _) ?_
    intro id hid hmem
    have hlt := (hparameters.mem hid).2
    have hge := (hinside.mem hmem).1
    have hle := hbefore.le
    omega
  have hmiddle : Agrees a (Skeleton.numbers header) ((Skeleton.events header).foldl step t) := by
    rw [ht₁]
    refine Agrees.before ?_ ((spares_opened t₁ receiver parameters).trans (spares_events body _)) ?_
    · refine hlast.subset fun n hn => ?_
      simp only [Item.numbers, List.mem_append]
      exact .inr (.inl hn)
    · intro id hid hmem
      have hid := hbefore.mem hid
      rcases List.mem_append.1 hmem with hmem | hmem
      · have hlt := (hparameters.mem hmem).2
        omega
      · have hge := (hinside.mem hmem).1
        omega
  have hlow := hfresh.weaken hparameters.le
  have hitems : Names a t (Skeleton.events header) (Skeleton.numbers header) envs env _ _ :=
    names_items hheaderWf hbefore hlow
  have hnames := hitems hmiddle ht
  rw [Skeleton.bind_plain hplain, ht₁] at hnames
  have hnew : ∀ v ∈ parameters.getD [], t₁.Fresh v.id := by
    intro v hv
    have hv := hparameters.mem (List.mem_map_of_mem hv)
    refine (hfresh v.id hv.1).after hspares fun hmem => ?_
    have hge := (hbefore.mem hmem).1
    omega
  have hstart : (t₁.opened receiver parameters).FreshFrom second := by
    intro n hn
    refine (hlow.after hspares hbefore n hn).after (spares_opened ..) fun hmem => ?_
    exact Nat.not_lt.2 (Nat.le_trans hbefore.le hn) (hparameters.mem hmem).2
  have hown := hP.opened hparameters.nodup hnew hopened hnames.1
  have hfollows := follows_opened hparameters.nodup hnew hopened hnames.1
  have hwhole : Skeleton.numbers body ⊆ (Item.scope receiver parameters header body).numbers := by
    simp [Item.numbers]
  obtain ⟨hscope, hscopes⟩ := hbody hinside hstart (hlast.subset hwhole) hfollows hown
  -- the scopes of the header, the scope itself, and those inside its body
  refine ⟨hheld, fun scope hmem => ?_⟩
  rcases List.mem_append.1 hmem with hmem | hmem
  · exact (hheader hbefore hlow hmiddle ht hheld).2 scope hmem
  · rcases List.mem_cons.1 hmem with rfl | hmem
    · rwa [Environment.declared_bind, Environment.declared_enter] at hscope
    · exact hscopes scope hmem

/-- **What a stretch of program says about its scopes.** -/
theorem recalls_items (hP : Lasting a P) {items : List Item} {lo hi : NodeId} (hwf : Skeleton.WellFormed items)
    (hr : Rising lo (Skeleton.numbers items) hi) (hfresh : t.FreshFrom lo) :
    Recalls P a t (Skeleton.events items) (Skeleton.numbers items) envs env (Skeleton.bind env items)
      (Skeleton.scopes items) := by
  induction items using Skeleton.induction generalizing t env envs lo hi with
  | nil => exact fun _ _ hheld => ⟨hheld, fun _ hscope => nomatch hscope⟩
  | reference id name rest ih =>
    exact recalls_cons hwf hr hfresh
      (fun _ _ hheld => ⟨hheld, fun _ hscope => nomatch hscope⟩) (ih hwf.2)
  | functionName identifier rest ih =>
    exact recalls_cons hwf hr hfresh
      (fun _ _ hheld => ⟨hheld, fun _ hscope => nomatch hscope⟩) (ih hwf.2)
  | localFunction identifier rest ih =>
    refine recalls_cons hwf hr hfresh (fun hagree ht hheld => ⟨?_, fun _ hscope => nomatch hscope⟩)
      (ih hwf.2)
    change P (env.declare [identifier]).declared
    rw [Environment.declared_declare]
    -- a local function is declared before its body, so the scope grows by it at once
    exact hP.snoc (declares_declareFunction t identifier) (hfresh identifier.id hr.1) hagree ht hheld
  | locals id vars init inner rest ihInner ih =>
    obtain ⟨mid, hitem, -⟩ := rising_append.1 hr
    exact recalls_cons hwf hr hfresh (recalls_locals hP hwf.1 hitem hfresh (ihInner hwf.1.2)) (ih hwf.2)
  | scope receiver parameters header body rest ihHeader ihBody ih =>
    obtain ⟨mid, hitem, -⟩ := rising_append.1 hr
    exact recalls_cons hwf hr hfresh
      (recalls_scope hP hwf.1 hitem hfresh (ihHeader hwf.1.2.1) (ihBody hwf.1.2.2)) (ih hwf.2)

end Analysis

/-! ## Which identifiers are marked -/

/-- The identifiers that an event declares. -/
def Event.declared : Event → List Identifier
  | .parameters identifiers => identifiers
  | .declare _ vars _ => vars
  | .declareFunction identifier => [identifier]
  | _ => []

/-- A stretch that declares nothing has no declarations. -/
theorem Skeleton.declared_plain {items : List Item} (h : Skeleton.Plain items) :
    Skeleton.declared items = [] := by
  induction items with
  | nil => rfl
  | cons first rest ih =>
    obtain ⟨hfirst, hrest⟩ := Skeleton.plain_cons.1 h
    rw [Skeleton.declared, ih hrest, List.append_nil]
    cases first with
    | locals | localFunction => cases hfirst
    | _ => rfl

/-- The declarations of a stretch of program are those of the scope where it stands and those of the
scopes in it. -/
theorem mem_declared_events {items : List Item} (hwf : Skeleton.WellFormed items) {d : Identifier} :
    d ∈ (Skeleton.events items).flatMap Event.declared ↔
      d ∈ Skeleton.declared items ∨ d ∈ (Skeleton.scopes items).flatten := by
  induction items using Skeleton.induction with
  | nil => simp [Skeleton.events, Skeleton.declared, Skeleton.scopes]
  | reference id name rest ih | functionName identifier rest ih | localFunction identifier rest ih =>
    rw [Skeleton.events, List.flatMap_append, List.mem_append, ih hwf.2, ← or_assoc,
      Skeleton.declared, List.mem_append]
    simp [Item.events, Event.declared, Item.declared, Skeleton.scopes, Item.scopes]
  | locals id vars init inner rest ihInner ih =>
    obtain ⟨⟨hplain, hinner⟩, hrest⟩ := hwf
    have hvalues := ihInner hinner
    -- values declare nothing in the scope of the statement
    rw [Skeleton.declared_plain hplain] at hvalues
    rw [Skeleton.events, List.flatMap_append, List.mem_append, ih hrest, Item.events,
      List.flatMap_append, List.mem_append, hvalues]
    simp only [Event.declared, Skeleton.declared, Item.declared, Skeleton.scopes, Item.scopes,
      List.flatMap_cons, List.flatMap_nil, List.flatten_append, List.append_nil, List.mem_append,
      List.not_mem_nil, false_or]
    simp only [or_assoc, or_left_comm, or_comm]
  | scope receiver parameters header body rest ihHeader ihBody ih =>
    obtain ⟨⟨hplain, hheader, hbody⟩, hrest⟩ := hwf
    have hbefore := ihHeader hheader
    rw [Skeleton.declared_plain hplain] at hbefore
    -- parameters are declared inside the scope, with the variables of its body
    have hparameters : (parameters.map Event.parameters).toList.flatMap Event.declared =
        parameters.getD [] := by
      cases parameters <;> simp [Event.declared]
    rw [Skeleton.events, List.flatMap_append, List.mem_append, ih hrest, Item.events,
      List.flatMap_append, List.mem_append, hbefore, List.flatMap_cons, List.flatMap_append,
      List.flatMap_append, hparameters]
    simp only [Event.declared, Skeleton.declared, Item.declared, Skeleton.scopes, Item.scopes,
      List.flatMap_cons, List.flatMap_nil, List.flatten_append, List.flatten_cons, List.nil_append,
      List.append_nil, List.mem_append, ihBody hbody, List.not_mem_nil, false_or]
    simp only [or_assoc, or_left_comm]

namespace Analysis

/-- An event marks identifiers that it declares. -/
theorem redeclared_step {t : Analysis} {event : Event} {id : NodeId}
    (hid : id ∈ (t.step event).annotations.redeclared) :
    id ∈ t.annotations.redeclared ∨ id ∈ event.declared.map Identifier.id := by
  by_cases hmem : id ∈ event.declared.map Identifier.id
  · exact .inr hmem
  · refine .inl ?_
    cases event with
    | enter receiver => exact hid
    | leave => exact hid
    | parameters identifiers =>
      exact ((spares_foldl declares_parameter identifiers t).redeclared id hmem).1 hid
    | declare statement vars init =>
      exact ((spares_declare t statement vars init).redeclared id hmem).1 hid
    | declareFunction identifier =>
      exact ((declares_declareFunction t identifier).spares.redeclared id hmem).1 hid
    | reference other name =>
      change id ∈ (t.reference other name).annotations.redeclared at hid
      unfold reference at hid
      split at hid
      · exact hid
      · dsimp only at hid
        split at hid
        · exact hid
        · exact hid

/-- What redeclares was declared by an event. -/
theorem redeclared_foldl {t : Analysis} {es : List Event} {id : NodeId}
    (hid : id ∈ (es.foldl step t).annotations.redeclared) :
    id ∈ t.annotations.redeclared ∨ ∃ d ∈ es.flatMap Event.declared, d.id = id := by
  induction es generalizing t with
  | nil => exact .inl hid
  | cons event rest ih =>
    rcases ih hid with hstep | ⟨d, hd, heq⟩
    · rcases redeclared_step hstep with hbefore | hmem
      · exact .inl hbefore
      · obtain ⟨d, hd, heq⟩ := List.mem_map.1 hmem
        exact .inr ⟨d, List.mem_append_left _ hd, heq⟩
    · exact .inr ⟨d, List.mem_append_right _ hd, heq⟩

end Analysis

end Scope

open Scope

/-- **The declared identifiers of each scope of a program**, in the order of their declarations. -/
def Chunk.scopes (chunk : Chunk) : List (List Identifier) := Skeleton.scopes chunk.items

/-- **Identifiers that are marked as declared again are declared in a scope.** -/
theorem Chunk.mem_scopes_of_redeclared (chunk : Chunk) {id : NodeId}
    (hid : id ∈ (analyse (Skeleton.events chunk.items)).annotations.redeclared) :
    ∃ scope ∈ chunk.scopes, ∃ d ∈ scope, d.id = id := by
  rcases Analysis.redeclared_foldl hid with hstart | ⟨d, hd, heq⟩
  · cases hstart
  · rcases (mem_declared_events chunk.items_wellFormed).1 hd with hown | hmem
    · cases hown
    · obtain ⟨scope, hscope, hd⟩ := List.mem_flatten.1 hmem
      exact ⟨scope, hscope, d, hd, heq⟩

/-- **What lasts holds of the scopes of a program**, if its identities rise. -/
theorem Chunk.forall_scopes (chunk : Chunk) {hi : NodeId}
    (hr : Rising 0 (Skeleton.numbers chunk.items) hi) {P : List Identifier → Prop}
    (hP : Analysis.Lasting (analyse (Skeleton.events chunk.items)).annotations P)
    {scope : List Identifier} (hscope : scope ∈ chunk.scopes) : P scope := by
  rw [Skeleton.numbers_chunk] at hr
  obtain ⟨hown, hinside⟩ := Analysis.recalls_items hP (stmtItems_wellFormed chunk.body) hr
    Analysis.freshFrom_start (Analysis.agrees_chunk chunk) (Analysis.follows_start _) hP.nil
  have hscopes : chunk.scopes =
      Skeleton.declared (stmtItems chunk.body) :: Skeleton.scopes (stmtItems chunk.body) := by
    simp [Chunk.scopes, Chunk.items, Skeleton.scopes, Item.scopes]
  rw [hscopes] at hscope
  rcases List.mem_cons.1 hscope with rfl | hscope
  · rwa [Environment.declared_bind] at hown
  · exact hinside scope hscope

/-- **The scopes of a program repeat names of their own**, if its identities rise. -/
theorem Chunk.repeats (chunk : Chunk) {hi : NodeId}
    (hr : Rising 0 (Skeleton.numbers chunk.items) hi) {scope : List Identifier}
    (hscope : scope ∈ chunk.scopes) :
    (analyse (Skeleton.events chunk.items)).annotations.Repeats scope :=
  chunk.forall_scopes hr (Analysis.lasting_repeats _) hscope

end LuaCompiler
