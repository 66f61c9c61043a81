import LuaCompiler.Proofs.Emit.Sites
import LuaCompiler.Proofs.Emit.Spelling
import LuaCompiler.Proofs.Output.WellFormed
import LuaCompiler.Proofs.Scope.Binders

/-!
# References to receivers

A method has its receiver beside its parameters or as its first one. In the code the receiver is
`this`, and a variable that holds it in the functions inside the method. Lowering knows the receiver
of the innermost method by its name, and forgets it in a function with a parameter of that name.

* `Receives`: what is known of the receiver at a place, and `isInvariant_receives`: it is known at
  all places.
* `receiver_references`: **a reference to the receiver is written as the receiver**, and a reference
  to something else is not, if it has another name, a generated name, or is one to a parameter of a
  function inside the method. A local of the method with the name of the receiver is the case that
  is left.
-/

namespace LuaCompiler

open Scope (Annotations Binder Environment Occurrence)

namespace Emit

/-- Whether a binder is the receiver that a function takes. -/
def Reception.binds : Reception → Binder → Bool
  | beside, .receiver => true
  | parameter identifier, .declared d => d == identifier
  | _, _ => false

/-- A receiver has the name of what binds it. -/
theorem Reception.name?_eq {m : Reception} {b : Binder} (h : m.binds b = true) :
    m.name? = some b.name := by
  cases m with
  | none => cases b <;> cases h
  | beside =>
    cases b with
    | receiver => rfl
    | declared d => cases h
  | parameter v =>
    cases b with
    | receiver => cases h
    | declared d =>
      have hd : d = v := by simpa [binds] using h
      rw [hd]
      rfl

namespace Layout.Reach

/-- The functions between a place and the innermost method around it. -/
def inner (reach : Reach) : List Frame := reach.functions.takeWhile (·.reception == .none)

/-- How the innermost method around a place takes its receiver. -/
def method? (reach : Reach) : Option Reception :=
  (reach.functions.map Frame.reception).find? (· != .none)

/-- The parameters of the functions inside the innermost method. -/
def innerParameters (reach : Reach) : List NodeId := reach.inner.flatMap Frame.parameters

end Layout.Reach

open Layout (Reach Frame IsInvariant)

/-- **What is known of the receiver at a place.** Some receiver is known: it is that of the innermost
method, and no parameter of a function inside the method has its name. None is known: there is no
method, or a parameter of a function inside has its name, which is bound to something else then. -/
structure Receives (receiver : Option Receiver) (depth : Nat) (env : Environment) (reach : Reach) :
    Prop where
  parameters : ∀ id ∈ reach.innerParameters, id ∈ env.ids
  first : ∀ v, reach.method? = some (.parameter v) → v ∈ env.identifiers
  outside : reach.method? = none → receiver = none
  known : ∀ m r, reach.method? = some m → receiver = some r →
    m.name? = some r.name ∧ r.name ∈ receiverNames ∧ r.depth + reach.inner.length = depth ∧
      ∀ d ∈ env.identifiers, d.id ∈ reach.innerParameters → d.name ≠ r.name
  forgotten : ∀ m, reach.method? = some m → receiver = none →
    ∃ d ∈ env.identifiers, d.id ∈ reach.innerParameters ∧ m.name? = some d.name
  hidden : ∀ m name b, reach.method? = some m → receiver = none → m.name? = some name →
    env.lookup name = some b → m.binds b = false

variable {receiver : Option Receiver} {depth : Nat} {env : Environment} {reach : Reach}
  {vars : List Identifier}

/-- The receiver is none of the identifiers that are declared behind. -/
theorem Receives.binds_eq_false (h : Receives receiver depth env reach)
    (hnodup : (env.declare vars).ids.Nodup) {m : Reception} (hm : reach.method? = some m)
    {v : Identifier} (hv : v ∈ vars) : m.binds (.declared v) = false := by
  rw [Environment.ids_declare] at hnodup
  by_contra hbinds
  rw [Bool.not_eq_false] at hbinds
  cases m with
  | none | beside => cases hbinds
  | parameter w =>
    have heq : v = w := by simpa [Reception.binds] using hbinds
    subst heq
    exact List.disjoint_of_nodup_append hnodup (Environment.mem_ids (h.first v hm))
      (List.mem_map_of_mem hv)

/-- Declarations leave the receiver known or not. -/
theorem Receives.declare (h : Receives receiver depth env reach)
    (hnodup : (env.declare vars).ids.Nodup) :
    Receives receiver depth (env.declare vars) reach where
  parameters id hid := by
    rw [Environment.ids_declare]
    exact List.mem_append_left _ (h.parameters id hid)
  first v hv := by
    rw [Environment.identifiers_declare]
    exact List.mem_append_right _ (h.first v hv)
  outside := h.outside
  known m r hm hr := by
    obtain ⟨hname, hnames, hdepth, hinner⟩ := h.known m r hm hr
    refine ⟨hname, hnames, hdepth, fun d hd hid => ?_⟩
    rw [Environment.identifiers_declare, List.mem_append, List.mem_reverse] at hd
    -- a variable that is declared now has an identity of its own, none of the parameters'
    rcases hd with hd | hd
    · rw [Environment.ids_declare] at hnodup
      exact absurd (List.mem_map_of_mem hd)
        (List.disjoint_of_nodup_append hnodup (h.parameters d.id hid))
    · exact hinner d hd hid
  forgotten m hm hr := by
    obtain ⟨d, hd, hforgotten⟩ := h.forgotten m hm hr
    rw [Environment.identifiers_declare]
    exact ⟨d, List.mem_append_right _ hd, hforgotten⟩
  hidden m name b hm hr hname hb := by
    rcases Environment.lookup_declare hb with ⟨v, hv, -, rfl⟩ | hb
    · exact h.binds_eq_false hnodup hm hv
    · exact h.hidden m name b hm hr hname hb

/-- A function without a receiver hides the one that is known if a parameter has its name. -/
theorem Receives.call (h : Receives receiver depth env reach)
    (hnodup : (env.declare vars).ids.Nodup) :
    Receives (receiver.filter fun r => !vars.any fun p => p.name == r.name) (depth + 1)
      (env.declare vars) (reach.enter ⟨.none, (vars.map Identifier.id).reverse⟩) := by
  have hdeclared := h.declare hnodup
  have hparameters : (reach.enter ⟨.none, (vars.map Identifier.id).reverse⟩).innerParameters =
      (vars.map Identifier.id).reverse ++ reach.innerParameters := rfl
  have hinner : (reach.enter ⟨.none, (vars.map Identifier.id).reverse⟩).inner.length =
      reach.inner.length + 1 := rfl
  have hides (m : Reception) (r : Receiver) (hm : reach.method? = some m) (hr : receiver = some r)
      (hnone : (some r).filter (fun r => !vars.any fun p => p.name == r.name) = none) :
      ∃ p ∈ vars, m.name? = some p.name := by
    have hany : (vars.any fun p => p.name == r.name) = true := by
      simpa [Option.filter_some] using hnone
    obtain ⟨p, hp, hpname⟩ := List.any_eq_true.1 hany
    obtain ⟨hrname, -⟩ := h.known m r hm hr
    exact ⟨p, hp, by rw [hrname, beq_iff_eq.1 hpname]⟩
  have hdeclares {v : Identifier} (hv : v ∈ vars) : v ∈ (env.declare vars).identifiers := by
    rw [Environment.identifiers_declare]
    exact List.mem_append_left _ (List.mem_reverse.2 hv)
  refine ⟨fun id hid => ?_, hdeclared.first, fun hm => ?_, fun m r hm hr => ?_, fun m hm hr => ?_, ?_⟩
  · rw [hparameters, List.mem_append, List.mem_reverse] at hid
    rcases hid with hid | hid
    · rw [Environment.ids_declare]
      exact List.mem_append_right _ hid
    · exact hdeclared.parameters id hid
  · rw [h.outside hm]
    rfl
  · obtain ⟨hr, hnone⟩ := Option.filter_eq_some_iff.1 hr
    obtain ⟨hname, hnames, hdepth, hfree⟩ := hdeclared.known m r hm hr
    refine ⟨hname, hnames, by rw [hinner]; omega, fun d hd hid => ?_⟩
    rw [hparameters, List.mem_append, List.mem_reverse] at hid
    rcases hid with hid | hid
    · obtain ⟨v, hv, hid⟩ := List.mem_map.1 hid
      obtain rfl := Environment.identifier_eq hnodup hd (hdeclares hv) hid.symm
      intro heq
      rw [Bool.not_eq_true', List.any_eq_false] at hnone
      exact hnone d hv (beq_iff_eq.2 heq)
    · exact hfree d hd hid
  · cases receiver with
    | none =>
      obtain ⟨d, hd, hid, hname⟩ := hdeclared.forgotten m hm rfl
      exact ⟨d, hd, List.mem_append_right _ hid, hname⟩
    | some r =>
      obtain ⟨p, hp, hpname⟩ := hides m r hm rfl hr
      refine ⟨p, hdeclares hp, List.mem_append_left _ ?_, hpname⟩
      exact List.mem_reverse.2 (List.mem_map_of_mem hp)
  · intro m name b hm hr hname hb
    cases receiver with
    | none => exact hdeclared.hidden m name b hm rfl hname hb
    | some r =>
      -- a parameter hides the receiver, so its name is bound to a parameter
      obtain ⟨p, hp, hpname⟩ := hides m r hm rfl hr
      rw [hpname, Option.some.injEq] at hname
      obtain ⟨w, hw, hlookup⟩ : ∃ w ∈ vars, (env.declare vars).lookup p.name = some (.declared w) :=
        Environment.exists_lookup_declare hp
      rw [hname, hb, Option.some.injEq] at hlookup
      rw [hlookup]
      exact h.binds_eq_false hnodup hm hw

/-- In a method its receiver is known. -/
theorem receives_method {reception : Reception} {name : String} (shown : List Identifier)
    (hname : reception.name? = some name) (hnames : name ∈ receiverNames) (depth : Nat)
    (env : Environment) (reach : Reach) :
    Receives (some ⟨name, depth⟩) depth
      (env.enter reception.isBeside (some (reception.parameters ++ shown)))
      (reach.enter ⟨reception, (shown.map Identifier.id).reverse⟩) := by
  -- inside a new method no function has been entered yet
  have hmethod : (reach.enter ⟨reception, (shown.map Identifier.id).reverse⟩).method? =
        some reception ∧
      (reach.enter ⟨reception, (shown.map Identifier.id).reverse⟩).inner = [] := by
    cases reception with
    | none => cases hname
    | beside | parameter v => exact ⟨rfl, rfl⟩
  have hinner : (reach.enter ⟨reception, (shown.map Identifier.id).reverse⟩).innerParameters = [] := by
    rw [Reach.innerParameters, hmethod.2, List.flatMap_nil]
  refine ⟨fun id hid => ?_, fun v hv => ?_, fun hm => ?_, fun m r hm hr => ?_,
    fun m hm hr => (nomatch hr), fun m name b hm hr => (nomatch hr)⟩
  · rw [hinner] at hid
    cases hid
  · rw [hmethod.1, Option.some.injEq] at hv
    subst hv
    rw [Environment.identifiers_enter]
    exact List.mem_append_left _ (List.mem_reverse.2 List.mem_cons_self)
  · rw [hmethod.1] at hm
    cases hm
  · rw [hmethod.1, Option.some.injEq] at hm
    subst hm
    cases hr
    refine ⟨hname, hnames, by rw [hmethod.2]; rfl, fun d _ hid => ?_⟩
    rw [hinner] at hid
    cases hid

/-- **What is known of the receiver is known at all places.** -/
theorem isInvariant_receives (a : Annotations) : IsInvariant fun ctx env reach =>
    ctx.annotations = a ∧ (env.ids.Nodup → Receives ctx.receiver ctx.functionDepth env reach) where
  context h hreceiver hdepth hannotations :=
    ⟨hannotations.trans h.1, by rw [hreceiver, hdepth]; exact h.2⟩
  declare := by
    rintro ctx env reach ids vars ⟨rfl, h⟩ -
    refine ⟨rfl, fun hnodup => ?_⟩
    -- what is declared later has other identities than what stands there
    have hbefore : env.ids.Nodup := by
      rw [Environment.ids_declare] at hnodup
      exact hnodup.of_append_left
    obtain ⟨hparameters, hfirst, houtside, hknown, hforgotten, hhidden⟩ :=
      (h hbefore).declare hnodup
    exact ⟨hparameters, hfirst, houtside, hknown, hforgotten, hhidden⟩
  hide := by
    rintro ctx env reach ids ⟨rfl, h⟩
    refine ⟨rfl, fun hnodup => ?_⟩
    obtain ⟨hparameters, hfirst, houtside, hknown, hforgotten, hhidden⟩ := h hnodup
    exact ⟨hparameters, hfirst, houtside, hknown, hforgotten, hhidden⟩
  function := by
    rintro ctx env reach reception shown ⟨rfl, h⟩ hnames
    refine ⟨rfl, fun hnodup => ?_⟩
    cases hname : reception.name? with
    | some name => exact receives_method shown hname (hnames name hname) _ env reach
    | none =>
      -- a function without a receiver leaves the one around it
      have hreception : reception = .none := by
        cases reception with
        | none => rfl
        | beside | parameter v => cases hname
      subst hreception
      have hbefore : env.ids.Nodup := by
        rw [Environment.ids_enter] at hnodup
        exact hnodup.of_append_left
      exact (h hbefore).call hnodup

/-! ## How references are written -/

theorem referenceText_of_receiver {ctx : Context} {r : Receiver} (h : ctx.receiver = some r) :
    referenceText ctx r.name = if r.depth == ctx.functionDepth then "this" else receiverAlias := by
  have hfilter : (some r).filter (·.name == r.name) = some r :=
    Option.filter_some_pos (beq_self_eq_true r.name)
  rw [referenceText, h, hfilter]

/-- A reference is bound to the receiver of the innermost method around it. -/
def Layout.Site.IsReceiver (site : Layout.Site) (o : Occurrence) : Prop :=
  ∃ m b, site.reach.method? = some m ∧ o.binder? = some b ∧ m.binds b = true

/-- **A reference is told apart from the receiver** of the innermost method: it has another name, a
generated one, or the name of a parameter of a function inside the method. -/
def Layout.Site.IsToldApart (a : Annotations) (site : Layout.Site) (o : Occurrence) : Prop :=
  (∀ m, site.reach.method? = some m → m.name? ≠ some o.name) ∨ a.renamed[o.id]? ≠ none ∨
    ∃ d ∈ o.environment.identifiers, d.name = o.name ∧ d.id ∈ site.reach.innerParameters

variable {a : Annotations} {site : Layout.Site} {o : Occurrence}

theorem resolve_of_none (h : a.renamed[o.id]? = none) : a.resolve o.id o.name = o.name := by
  rw [Annotations.resolve, Std.TreeMap.getD_eq_getD_getElem?, h, Option.getD_none]

/-- A reference to the receiver without a generated name is not told apart from it. -/
theorem not_isToldApart (hfit : a.Fit o)
    (h : Receives site.word.context.receiver site.word.context.functionDepth o.environment site.reach)
    (hreceiver : site.IsReceiver o) (hnone : a.renamed[o.id]? = none) : ¬ site.IsToldApart a o := by
  obtain ⟨m, b, hm, hb, hbinds⟩ := hreceiver
  have hname : m.name? = some o.name := hfit.keyed.name_eq hb ▸ Reception.name?_eq hbinds
  rintro (hother | hrenamed | ⟨d, hd, hdname, hid⟩)
  · exact hother m hm hname
  · exact hrenamed hnone
  · cases hr : site.word.context.receiver with
    | none =>
      have hhidden := h.hidden m o.name b hm hr hname hb
      rw [hbinds] at hhidden
      cases hhidden
    | some r =>
      obtain ⟨hrname, -, -, hinner⟩ := h.known m r hm hr
      rw [hrname, Option.some.injEq] at hname
      exact hinner d hd hid (hdname.trans hname.symm)

/-- A reference that is not told apart from the receiver is one to the name that is known. -/
theorem exists_receiver
    (h : Receives site.word.context.receiver site.word.context.functionDepth o.environment site.reach)
    (happart : ¬ site.IsToldApart a o) :
    ∃ r, site.word.context.receiver = some r ∧ r.name = a.resolve o.id o.name ∧
      r.depth + site.reach.inner.length = site.word.context.functionDepth := by
  simp only [Layout.Site.IsToldApart, not_or, not_forall, not_not, not_exists, not_and] at happart
  obtain ⟨⟨m, hm, hname⟩, hnone, hinner⟩ := happart
  cases hr : site.word.context.receiver with
  | some r =>
    obtain ⟨hrname, -, hdepth, -⟩ := h.known m r hm hr
    rw [hrname, Option.some.injEq] at hname
    exact ⟨r, rfl, hname.trans (resolve_of_none hnone).symm, hdepth⟩
  | none =>
    obtain ⟨d, hd, hid, hdname⟩ := h.forgotten m hm hr
    rw [hname, Option.some.injEq] at hdname
    exact absurd hid (hinner d hd hdname.symm)

/-- A reference that is told apart from the receiver is not one to the name that is known. -/
theorem receiver_name_ne (hfit : a.Fit o)
    (h : Receives site.word.context.receiver site.word.context.functionDepth o.environment site.reach)
    (happart : site.IsToldApart a o) {r : Receiver} (hr : site.word.context.receiver = some r) :
    r.name ≠ a.resolve o.id o.name := by
  intro heq
  obtain ⟨m, hm⟩ : ∃ m, site.reach.method? = some m := by
    cases hm : site.reach.method? with
    | none => simp [h.outside hm] at hr
    | some m => exact ⟨m, rfl⟩
  obtain ⟨hname, hnames, -, hinner⟩ := h.known m r hm hr
  rcases hfit.generated with hnone | ⟨j, hj⟩
  · rw [resolve_of_none hnone] at heq
    rcases happart with hother | hrenamed | ⟨d, hd, hdname, hid⟩
    · exact hother m hm (heq ▸ hname)
    · exact hrenamed hnone
    · exact hinner d hd hid (hdname.trans heq.symm)
  · -- a generated name has an underscore, and the name of a receiver has none
    have hgenerated : a.resolve o.id o.name = Scope.Analysis.freshName o.name j := by
      rw [Annotations.resolve, Std.TreeMap.getD_eq_getD_getElem?, hj, Option.getD_some]
    have hunderscore := underscore_mem_freshName o.name j
    rw [← hgenerated, ← heq] at hunderscore
    have hplain : ∀ name ∈ receiverNames, '_' ∉ name.toList := by decide
    exact hplain r.name hnames hunderscore

end Emit

open Emit (Layout Renders)
open Script (Plain)

/-- **A name in the code is an occurrence of the program**, at which it is known what receives. -/
theorem exists_occurrence {source : String} {chunk : Chunk} {path : String}
    {registries : Registries} {options : Options} (hparse : (parse source).result = .ok chunk)
    {site : Layout.Site}
    (hsite : site ∈ ((parse source).layout path options registries chunk).sites {}) :
    ∃ o ∈ chunk.occurrences, o.id = site.word.id ∧ o.name = site.word.name ∧
      site.word.context.annotations = (parse source).annotations ∧
        (parse source).annotations.Fit o ∧
        Emit.Receives site.word.context.receiver site.word.context.functionDepth o.environment
          site.reach := by
  -- outside of all methods there is no receiver that a name could be taken for
  have hstart : Emit.Receives none 0 [] {} :=
    ⟨fun _ hid => (nomatch hid), fun _ hm => (nomatch hm), fun _ => rfl, fun _ _ hm => (nomatch hm),
      fun _ hm => (nomatch hm), fun _ _ _ hm => (nomatch hm)⟩
  obtain ⟨o, ho, hid, hname, hannotations, hreceives⟩ := Layout.occurs_chunk
    (Emit.isInvariant_receives (parse source).annotations) ⟨rfl, fun _ => hstart⟩ chunk hsite
  have hfit := fit_of_parse hparse ho
  exact ⟨o, ho, hid, hname, hannotations, hfit, hreceives hfit.nodup⟩

end LuaCompiler
