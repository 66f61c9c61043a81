import LuaCompiler.Proofs.Emit.Lays

/-!
# The places of names

Every name that the code of a program writes is an occurrence of the program. A program is laid out
along its items, so that what the place in the code is in reach of can be compared with what Lua
sees at the occurrence.

* `Layout.IsInvariant`: **what has to be shown of a relation** between the context of a node, the
  bindings that Lua sees there and the reach of its place, so that it holds of all names.
* `Layout.Carries`: the names of a stretch of program, with the relation behind it, and
  `Layout.Lays.carries`: **what is laid out carries the relation**.
* `Layout.occurs_chunk`: the names of a program.
-/

namespace LuaCompiler.Emit

open Scope (Environment Item Occurrence Skeleton.occurrences Skeleton.bind Skeleton.Plain)

namespace Layout

/-! ## Relations between a program and its code -/

/-- **A relation that holds of all names of a program once it holds of the start**: it does not look
at more of a context than receiver, depth and annotations; it is kept where identifiers are
declared, which are bound in the code or redeclare; it is kept where bindings are hidden that were
visible; and it is kept in functions. -/
structure IsInvariant (I : Context → Environment → Reach → Prop) : Prop where
  context {ctx ctx' : Context} {env : Environment} {reach : Reach} (h : I ctx env reach)
    (hreceiver : ctx'.receiver = ctx.receiver) (hdepth : ctx'.functionDepth = ctx.functionDepth)
    (hannotations : ctx'.annotations = ctx.annotations) : I ctx' env reach
  declare {ctx : Context} {env : Environment} {reach : Reach} {ids : List NodeId}
    {vars : List Identifier} (h : I ctx env reach)
    (hvars : ∀ v ∈ vars, v.id ∈ ids ∨ v.id ∈ ctx.annotations.redeclared) :
    I ctx (env.declare vars) (reach.see ids)
  hide {ctx : Context} {env : Environment} {reach : Reach} {ids : List NodeId}
    (h : I ctx env (reach.see ids)) : I ctx env (reach.hide ids)
  function {ctx : Context} {env : Environment} {reach : Reach} (reception : Reception)
    (shown : List Identifier) (h : I ctx env reach)
    (hnames : ∀ name ∈ reception.name?, name ∈ receiverNames) :
    I (ctx.inFunction (reception.parameters ++ shown) shown reception.name?)
      (env.enter reception.isBeside (some (reception.parameters ++ shown)))
      (reach.enter ⟨reception, (shown.map Identifier.id).reverse⟩)

/-- The names that a layout writes are occurrences of a stretch of program, and a relation holds
where they stand. -/
def Occurs (I : Context → Environment → Reach → Prop) (env : Environment) (reach : Reach)
    (items : List Item) (l : Layout) : Prop :=
  ∀ site ∈ l.sites reach, ∃ o ∈ Skeleton.occurrences env items,
    o.id = site.word.id ∧ o.name = site.word.name ∧ I site.word.context o.environment site.reach

/-- A layout whose names occur, with the relation behind it. -/
structure Carries (I : Context → Environment → Reach → Prop) (ctx : Context) (env : Environment)
    (reach : Reach) (items : List Item) (l : Layout) : Prop where
  occurs : Occurs I env reach items l
  behind : I ctx (Skeleton.bind env items) (reach.see l.exposed)

variable {I : Context → Environment → Reach → Prop} {ctx : Context} {registries : Registries}
  {env : Environment} {reach : Reach} {items items' : List Item} {a b l : Layout}

/-- Bindings more that are visible keep a relation. -/
theorem IsInvariant.see (hI : IsInvariant I) (h : I ctx env reach) (ids : List NodeId) :
    I ctx env (reach.see ids) :=
  hI.declare h (List.forall_mem_nil _)

/-! ## Occurrences -/

/-- The occurrences of a stretch of program that declares nothing for the items behind. -/
theorem occurrences_plain (hplain : Skeleton.Plain items) :
    Skeleton.occurrences env items = items.flatMap (·.occurrences env) := by
  induction items with
  | nil => rfl
  | cons first rest ih =>
    obtain ⟨hfirst, hrest⟩ := Scope.Skeleton.plain_cons.1 hplain
    have hbind : first.bind env = env := by
      cases first <;> first | rfl | simp [Item.isPlain] at hfirst
    rw [Skeleton.occurrences, hbind, ih hrest, List.flatMap_cons]

/-- A part of a stretch that declares nothing has a part of its occurrences. -/
theorem occurrences_subset (hplain : Skeleton.Plain items') (hsub : items ⊆ items') :
    Skeleton.occurrences env items ⊆ Skeleton.occurrences env items' := by
  have hitems : Skeleton.Plain items := fun item hitem => hplain item (hsub hitem)
  rw [occurrences_plain hplain, occurrences_plain hitems]
  intro o ho
  obtain ⟨item, hitem, ho⟩ := List.mem_flatMap.1 ho
  exact List.mem_flatMap.2 ⟨item, hsub hitem, ho⟩

/-- The occurrences of two stretches, the second behind what the first binds. -/
theorem occurrences_append_items (env : Environment) (items items' : List Item) :
    Skeleton.occurrences env (items ++ items') = Skeleton.occurrences env items ++
      Skeleton.occurrences (Skeleton.bind env items) items' := by
  induction items generalizing env with
  | nil => rfl
  | cons first rest ih =>
    rw [List.cons_append, Skeleton.occurrences, Skeleton.occurrences, ih, List.append_assoc]
    rfl

/-- More occurrences may be there than are written. -/
theorem Occurs.subset (h : Occurs I env reach items l) {env' : Environment}
    (hsub : Skeleton.occurrences env items ⊆ Skeleton.occurrences env' items') :
    Occurs I env' reach items' l := by
  intro site hsite
  obtain ⟨o, ho, hsame⟩ := h site hsite
  exact ⟨o, hsub ho, hsame⟩

/-! ## Bindings -/

/-- Layouts without names stand in a row without names. -/
theorem sites_row {ls : List Layout} (h : ∀ l ∈ ls, ∀ reach, l.sites reach = []) (reach : Reach) :
    (row ls).sites reach = [] := by
  fun_induction row ls generalizing reach with
  | case1 => rfl
  | case2 only => exact h only (List.mem_singleton.2 rfl) reach
  | case3 first rest _ ih =>
    rw [sites, h first List.mem_cons_self, ih fun l hl => h l (List.mem_cons_of_mem _ hl)]
    rfl

/-- Layouts in a row bind what each of them binds, innermost first. -/
theorem exposed_row (ls : List Layout) :
    (row ls).exposed = (ls.reverse.map exposed).flatten := by
  fun_induction row ls with
  | case1 => rfl
  | case2 only => simp
  | case3 first rest _ ih => simp [exposed, ih]

/-- Bindings of identifiers, which write no name that occurs. -/
structure Binds (l : Layout) (ids : List NodeId) : Prop where
  sites : ∀ reach, l.sites reach = []
  exposed : l.exposed = ids

/-- One identifier is bound. -/
theorem binds_binding (id : NodeId) (name : String) : Binds (.binding id name) [id] :=
  ⟨fun _ => rfl, rfl⟩

/-- Parameters are bound in the order of the text, so the last is the innermost. -/
theorem binds_parameters (ctx : Context) (shown : List Identifier) (isVararg : Bool) :
    Binds (parameters ctx shown isVararg) (shown.map Identifier.id).reverse := by
  constructor
  · refine sites_row fun l hl reach => ?_
    rcases List.mem_append.1 hl with hl | hl
    · obtain ⟨v, -, rfl⟩ := List.mem_map.1 hl
      rfl
    · cases isVararg with
      | false => cases hl
      | true => rw [List.mem_singleton.1 hl, Layout.sites]
  · have hrest : ((if isVararg then [Layout.blank] else []).reverse.map Layout.exposed).flatten =
        [] := by
      cases isVararg <;> rfl
    have hshown : (shown.map fun v => Layout.binding v.id (ctx.declaredName v)).reverse.map
        Layout.exposed = (shown.map Identifier.id).reverse.map fun id => [id] := by
      simp [List.map_reverse, Function.comp_def, Layout.exposed]
    rw [parameters, exposed_row, List.reverse_append, List.map_append, List.flatten_append, hrest,
      hshown, List.nil_append, ← List.flatMap_def, List.flatMap_singleton']

/-- So are the variables of a loop or a `local` statement. -/
theorem binds_bindings (ctx : Context) (vars : List Identifier) :
    Binds (bindings ctx vars) (vars.map Identifier.id).reverse := by
  have h := binds_parameters ctx vars false
  rwa [parameters, if_neg Bool.false_ne_true, List.append_nil] at h

/-! ## Layouts put together -/

/-- A layout whose names occur, for a stretch that declares nothing. -/
theorem carries_plain (hplain : Skeleton.Plain items) (hexposed : l.exposed = [])
    (hoccurs : Occurs I env reach items l) (h : I ctx env reach) :
    Carries I ctx env reach items l := by
  refine ⟨hoccurs, ?_⟩
  rw [Scope.Skeleton.bind_plain hplain, hexposed]
  exact h

/-- A text without names binds nothing. -/
theorem exposed_silent (h : l.isSilent = true) : l.exposed = [] := by
  cases l <;> first | rfl | cases h

/-- A text without names has no site. -/
theorem sites_silent (h : l.isSilent = true) (reach : Reach) : l.sites reach = [] := by
  cases l <;> first | rfl | cases h

/-- One stretch after the other. -/
theorem Carries.append (ha : Carries I ctx env reach items a)
    (hb : I ctx (Skeleton.bind env items) (reach.see a.exposed) →
      Carries I ctx (Skeleton.bind env items) (reach.see a.exposed) items' b) :
    Carries I ctx env reach (items ++ items') (.append a b) := by
  have hb := hb ha.behind
  constructor
  · intro site hsite
    rw [occurrences_append_items]
    rcases List.mem_append.1 hsite with hsite | hsite
    · obtain ⟨o, ho, hsame⟩ := ha.occurs site hsite
      exact ⟨o, List.mem_append_left _ ho, hsame⟩
    · obtain ⟨o, ho, hsame⟩ := hb.occurs site hsite
      exact ⟨o, List.mem_append_right _ ho, hsame⟩
  · have hbehind := hb.behind
    rw [Reach.see, Reach.see, ← List.append_assoc] at hbehind
    rw [Skeleton.bind, List.foldl_append]
    exact hbehind

/-- A text for a part of a stretch that declares nothing. -/
theorem Carries.part (h : Carries I ctx env reach items l) (hplain : Skeleton.Plain items')
    (hsub : items ⊆ items') : Carries I ctx env reach items' l := by
  refine ⟨h.occurs.subset (occurrences_subset hplain hsub), ?_⟩
  have hbehind := h.behind
  rw [Scope.Skeleton.bind_plain fun item hitem => hplain item (hsub hitem)] at hbehind
  rw [Scope.Skeleton.bind_plain hplain]
  exact hbehind

/-- A `local` statement that binds all its variables that do not redeclare. -/
theorem carries_locals {id : NodeId} {vars : List Identifier} {init : List Expr}
    {ids : List NodeId} {names : Layout} (hI : IsInvariant I) (h : I ctx env reach)
    (hnames : Binds names ids)
    (hids : ∀ v ∈ vars, v.id ∈ ids ∨ v.id ∈ ctx.annotations.redeclared)
    (hvalues : Carries I ctx env (reach.see ids) items l) :
    Carries I ctx env reach [.locals id vars init items] (.append names l) := by
  constructor
  · intro site hsite
    rw [sites, hnames.sites, hnames.exposed, List.nil_append] at hsite
    obtain ⟨o, ho, hsame⟩ := hvalues.occurs site hsite
    exact ⟨o, List.mem_append_left _ ho, hsame⟩
  · rw [exposed, hnames.exposed]
    exact hI.declare h fun v hv => (hids v hv).imp_left (List.mem_append_right _)

/-- A variable that is bound by itself. -/
theorem mem_ids_singleton (v : Identifier) :
    ∀ w ∈ [v], w.id ∈ [v.id] ∨ w.id ∈ ctx.annotations.redeclared :=
  fun _ hw => .inl (List.mem_singleton.2 (congrArg _ (List.mem_singleton.1 hw)))

/-- Each variable of a `local` statement is bound, or redeclares. -/
theorem mem_newVars (ctx : Context) (id : NodeId) {vars : List Identifier} {v : Identifier}
    (hv : v ∈ vars) :
    v.id ∈ ((newVars ctx id vars).map Identifier.id).reverse ∨
      v.id ∈ ctx.annotations.redeclared := by
  by_cases hredeclared : v.id ∈ ctx.annotations.redeclared
  · exact .inr hredeclared
  · refine .inl (List.mem_reverse.2 (List.mem_map_of_mem ?_))
    unfold newVars
    split
    · rw [Std.TreeSet.mem_iff_contains, Bool.not_eq_true] at hredeclared
      exact List.mem_filter.2 ⟨hv, by rw [hredeclared]; rfl⟩
    · exact hv

/-- A block. -/
theorem Carries.block (h : Carries I ctx env reach items l) (hctx : I ctx env reach) :
    Carries I ctx env reach [.scope false none [] items] (.braces true l) := by
  refine carries_plain plain_scope rfl (fun site hsite => ?_) hctx
  obtain ⟨o, ho, hsame⟩ := h.occurs site hsite
  exact ⟨o, List.mem_append_left _ ho, hsame⟩

/-- A loop with variables of its own. The code binds them before the header, which does not see
them. -/
theorem carries_region {vars : List Identifier} {header body : Layout} (hI : IsInvariant I)
    (h : I ctx env reach)
    (hheader : ∀ {reach}, I ctx env reach → Carries I ctx env reach items' header)
    (hbody : ∀ {env reach}, I ctx env reach → Carries I ctx env reach items body) :
    Carries I ctx env reach [.scope false (some vars) items' items]
      (.region (.append (bindings ctx vars) header) (.braces true body)) := by
  have hnames := binds_bindings ctx vars
  have hheader := hheader (hI.see h (vars.map Identifier.id).reverse)
  have hbody : Carries I ctx (env.declare vars)
      (reach.see (header.exposed ++ (vars.map Identifier.id).reverse)) items body := by
    refine hbody (hI.declare h fun v hv => .inl (List.mem_append_right _ ?_))
    exact List.mem_reverse.2 (List.mem_map_of_mem hv)
  have hsites : (Layout.append (bindings ctx vars) header).sites reach =
      header.sites (reach.see (vars.map Identifier.id).reverse) := by
    rw [sites, hnames.sites, hnames.exposed, List.nil_append]
  refine carries_plain plain_scope rfl (fun site hsite => ?_) h
  rw [Scope.Skeleton.occurrences_single, Item.occurrences]
  rw [sites, hsites, exposed, hnames.exposed] at hsite
  rcases List.mem_append.1 hsite with hsite | hsite
  · obtain ⟨o, ho, hsame⟩ := hheader.occurs site hsite
    exact ⟨o, List.mem_append_left _ ho, hsame⟩
  · obtain ⟨o, ho, hsame⟩ := hbody.occurs site hsite
    exact ⟨o, List.mem_append_right _ ho, hsame⟩

/-- A loop with a condition behind its body: Lua sees the locals of the body there, and the code
does not. -/
theorem carries_loopUntil (hI : IsInvariant I) (h : I ctx env reach)
    (hbody : Carries I ctx env reach items a)
    (hcondition : ∀ {env reach}, I ctx env reach → Carries I ctx env reach items' b) :
    Carries I ctx env reach [.scope false none [] (items ++ items')] (.loopUntil a b) := by
  have hcondition := hcondition (hI.hide hbody.behind)
  refine carries_plain plain_scope rfl (fun site hsite => ?_) h
  rw [Scope.Skeleton.occurrences_single, Item.occurrences, occurrences_append_items]
  rcases List.mem_append.1 hsite with hsite | hsite
  · obtain ⟨o, ho, hsame⟩ := hbody.occurs site hsite
    exact ⟨o, List.mem_append_right _ (List.mem_append_left _ ho), hsame⟩
  · obtain ⟨o, ho, hsame⟩ := hcondition.occurs site hsite
    exact ⟨o, List.mem_append_right _ (List.mem_append_right _ ho), hsame⟩

/-- A function. -/
theorem carries_callable {convention : Convention} {names : List Identifier} {receiver : Bool}
    (hI : IsInvariant I) (h : I ctx env reach) (hfits : convention.Fits names receiver)
    (isVararg : Bool)
    (hbody : ∀ {env reach}, I (ctx.inFunction names convention.shown convention.receiver) env reach →
      Carries I (ctx.inFunction names convention.shown convention.receiver) env reach items l) :
    Carries I ctx env reach [.scope receiver (some names) [] items]
      (.callable (reception convention names) (parameters ctx convention.shown isVararg)
        (.braces true l)) := by
  have hnames := binds_parameters ctx convention.shown isVararg
  have hinside := hI.function (reception convention names) convention.shown h
    (hfits.name ▸ hfits.names)
  rw [← hfits.split, ← hfits.name, hfits.isBeside] at hinside
  refine carries_plain plain_scope rfl (fun site hsite => ?_) h
  rw [sites, hnames.sites, hnames.exposed, List.nil_append] at hsite
  obtain ⟨o, ho, hsame⟩ := (hbody hinside).occurs site hsite
  exact ⟨o, List.mem_append_left _ ho, hsame⟩

/-! ## Programs -/

/-- **What is laid out along a stretch of program writes names that occur in it**, and a relation
that is kept holds behind the stretch. -/
theorem Lays.carries (hI : IsInvariant I) (h : Lays ctx items l) :
    ∀ {env : Environment} {reach : Reach}, I ctx env reach → Carries I ctx env reach items l := by
  -- one case for each way to lay out, whatever was visible before
  induction h with
  | silent hplain hsilent =>
    intro env reach hctx
    refine carries_plain hplain (exposed_silent hsilent) (fun site hsite => ?_) hctx
    rw [sites_silent hsilent] at hsite
    cases hsite
  | word id name isTarget hplain hitem =>
    intro env reach hctx
    refine carries_plain (Scope.Skeleton.plain_cons.2 ⟨hplain, Scope.Skeleton.plain_nil⟩) rfl
      (fun site hsite => ?_) hctx
    obtain rfl := List.mem_singleton.1 hsite
    exact ⟨_, List.mem_append_left _ (hitem env), rfl, rfl, hctx⟩
  | around _ _ ih | twice _ _ ih => exact fun hctx => ⟨(ih hctx).occurs, (ih hctx).behind⟩
  | bare _ ih | unlessBlank _ ih => exact fun hctx => ⟨(ih hctx).occurs, (ih hctx).behind⟩
  | braces hplain _ ih => exact fun hctx => carries_plain hplain rfl (ih hctx).occurs hctx
  | append _ _ iha ihb => exact fun hctx => (iha hctx).append ihb
  | swapped _ _ _ iha ihb | enclosing _ _ _ iha ihb =>
    intro env reach hctx
    have hboth := (iha hctx).append ihb
    exact ⟨hboth.occurs, hboth.behind⟩
  | part hplain hsub _ ih => exact fun hctx => (ih hctx).part hplain hsub
  | within hagrees _ ih =>
    intro env reach hctx
    have hinside := ih (hI.context hctx hagrees.receiver hagrees.functionDepth hagrees.annotations)
    exact ⟨hinside.occurs, hI.context hinside.behind hagrees.receiver.symm
      hagrees.functionDepth.symm hagrees.annotations.symm⟩
  | @locals ctx _ _ id vars init _ _ ih =>
    intro env reach hctx
    exact carries_locals hI hctx (binds_bindings ctx _) (fun v hv => mem_newVars ctx id hv)
      (ih (hI.see hctx _))
  | moduleTable id v value items hname hvalue =>
    intro env reach hctx
    exact ⟨fun _ hsite => (nomatch hsite), hI.declare hctx (mem_ids_singleton v)⟩
  | localClass id v _ _ _ _ ih =>
    intro env reach hctx
    exact carries_locals hI hctx (binds_binding v.id _) (mem_ids_singleton v) (ih (hI.see hctx _))
  | localFunction name _ =>
    intro env reach hctx
    exact ⟨fun _ hsite => (nomatch hsite), hI.declare hctx (mem_ids_singleton name)⟩
  | redeclared name hredeclared =>
    intro env reach hctx
    exact ⟨fun _ hsite => (nomatch hsite),
      hI.declare hctx fun v hv => .inr (List.mem_singleton.1 hv ▸ hredeclared)⟩
  | block _ ih => exact fun hctx => (ih hctx).block hctx
  | region _ _ _ _ ihheader ihbody => exact fun hctx => carries_region hI hctx ihheader ihbody
  | loopUntil _ _ _ ihbody ihcondition =>
    exact fun hctx => carries_loopUntil hI hctx (ihbody hctx) ihcondition
  | callable hfits isVararg _ ih => exact fun hctx => carries_callable hI hctx hfits isVararg ih

/-- **The names that the code of a program writes are occurrences of the program**, and what holds
of the start and is kept holds where they stand. -/
theorem occurs_chunk (hI : IsInvariant I) (h : I ctx [] {}) (chunk : Chunk) {site : Site}
    (hsite : site ∈ (Layout.chunk ctx registries chunk).sites {}) :
    ∃ o ∈ chunk.occurrences, o.id = site.word.id ∧ o.name = site.word.name ∧
      I site.word.context o.environment site.reach := by
  have hbody : site ∈ (statements ctx registries chunk.body).sites {} := by
    rcases List.mem_append.1 hsite with hsite | hsite
    · exact hsite
    · rcases List.mem_append.1 hsite with hsite | hsite
      · split at hsite <;> cases hsite
      · cases hsite
  rw [chunk.occurrences_eq]
  exact ((lays_statements ctx chunk.body).carries hI h).occurs site hbody

end Layout

end LuaCompiler.Emit
