import LuaCompiler.Proofs.Scope.Tracker

/-!
# Names that a declaration and its values share

A `let` hides its name in its own initialiser, where Lua still sees the name outside. So the walk
gives a variable that its own values read a fresh name, with a suffix that no name read there has.

* `Site`: an item in its block, with what the block has declared before it and what is visible
  outside the block.
* `Shadowing`, `shadowing_declareOne`: the declarations of one statement, one by one.
* `renames_items`: a variable and a name that its values read from outside the block are kept apart,
  at every site of a program.
-/

namespace LuaCompiler

namespace Scope

/-- An item in its block. -/
structure Site where
  /-- what is visible outside the block -/
  outer : Environment
  /-- what the block has bound before the item -/
  own : Environment
  item : Item

mutual

/-- The sites inside an item of a block. -/
def Item.sites (outer own : Environment) : Item → List Site
  | .locals _ _ _ inner => Skeleton.sites outer own inner
  | .scope receiver parameters header body =>
    Skeleton.sites outer own header ++
      Skeleton.sites (own ++ outer) (Environment.enter [] receiver parameters) body
  | _ => []

/-- The sites of a stretch of a block, those of the blocks in it among them. -/
def Skeleton.sites (outer own : Environment) : List Item → List Site
  | [] => []
  | first :: rest =>
    ⟨outer, own, first⟩ :: (first.sites outer own ++ Skeleton.sites outer (first.bind own) rest)

end

/-- A name has no generated name, or one with a suffix up to a bound. -/
def Annotations.Names (a : Annotations) (bound : Nat) (o : Occurrence) : Prop :=
  a.renamed[o.id]? = none ∨ o.environment.Declares o.name ∧
    ∃ j, j ≤ bound ∧ a.renamed[o.id]? = some (Analysis.freshName o.name j)

/-- **A variable is kept apart from the names of its values**: a variable whose values read its name
from outside the block has a fresh name, with a suffix above that of the name read. A placeholder
is not kept apart, nor the copy of a name that nothing declares outside. -/
def Annotations.Separates (a : Annotations) (site : Site) : Prop :=
  ∀ id vars init inner, site.item = .locals id vars init inner →
    ∀ v ∈ vars, ∀ r ∈ Skeleton.occurrences site.own inner, r.isFree = true → r.name = v.name →
      v.name ≠ Name.placeholder →
      ¬ (Analysis.copiesItself vars init v.name = true ∧ ¬ site.outer.Declares v.name) →
      ∃ k, a.renamed[v.id]? = some (Analysis.freshName v.name k) ∧
        (a.renamed[r.id]? = none ∨
          ∃ j, j < k ∧ a.renamed[r.id]? = some (Analysis.freshName r.name j))

/-- Names generated within a bound are within a greater one. -/
theorem Annotations.Names.mono {a : Annotations} {bound bound' : Nat} {o : Occurrence}
    (h : a.Names bound o) (hle : bound ≤ bound') : a.Names bound' o :=
  h.imp_right fun ⟨hd, j, hj, heq⟩ => ⟨hd, j, Nat.le_trans hj hle, heq⟩

/-- Only `local` statements have something to keep apart. -/
theorem Annotations.separates_of_ne {a : Annotations} {site : Site}
    (h : ∀ id vars init inner, site.item ≠ .locals id vars init inner) : a.Separates site :=
  fun id vars init inner heq => absurd heq (h id vars init inner)

namespace Analysis

variable {t t' : Analysis} {env : Environment} {envs : List Environment} {vars : List Identifier}
  {init : List Expr} {last : NodeId} {x : String} {bound : Nat}

/-! ## The declarations of one statement -/

/-- The walk declares the variables of a statement that reads a name `x` from outside the block:
either no variable was `x` so far, or `x` has a suffix above the bound. -/
structure Shadowing (t : Analysis) (vars : List Identifier) (init : List Expr) (last : NodeId)
    (bound : Nat) (x : String) : Prop where
  isOpen : t.scopes ≠ []
  suffix : bound ≤ t.suffix
  isRead : t.readSince last x = true
  outside : (t.lookup? x).isSome = true ∨ copiesItself vars init x = false
  innermost : t.innermost? x = none ∨
    ∃ k, bound < k ∧ t.innermost? x = some (some (freshName x k))

/-- A name that is bound is known as what it is bound to. -/
theorem innermost_bind_self (h : t.scopes ≠ []) (name : String) (generated : Option String) :
    (t.bind name generated).innermost? name = some generated := by
  unfold bind innermost?
  split
  · contradiction
  · simp

/-- Another name is known as before. -/
theorem innermost_bind_ne {name : String} (h : x ≠ name) (generated : Option String) :
    (t.bind name generated).innermost? x = t.innermost? x := by
  unfold bind innermost?
  split
  · rfl
  next scope outer hscopes =>
    have hne : (x == name) = false := by simpa using h
    simp [hscopes, List.lookup_cons, hne]

/-- A name that was known stays known. -/
theorem lookup_bind (h : (t.lookup? x).isSome = true) (name : String) (generated : Option String) :
    ((t.bind name generated).lookup? x).isSome = true := by
  unfold bind
  split
  · exact h
  next scope outer hscopes =>
    simp only [lookup?, List.findSome?_isSome_iff, hscopes, List.mem_cons, exists_eq_or_imp] at h ⊢
    rcases h with h | h
    · rw [lookup_isSome] at h ⊢
      exact .inl (List.mem_cons_of_mem _ h)
    · exact .inr h

theorem bind_scopes_ne_nil (h : t.scopes ≠ []) (name : String) (generated : Option String) :
    (t.bind name generated).scopes ≠ [] := by
  unfold bind
  split
  · exact h
  · simp

/-- Binding a name reads none. -/
theorem readSince_bind (t : Analysis) (name : String) (generated : Option String) :
    (t.bind name generated).readSince last x = t.readSince last x := by
  simp [readSince]

/-- Another variable leaves the name as it was. -/
theorem Shadowing.bind_ne (h : t.Shadowing vars init last bound x) {name : String} (hx : x ≠ name)
    (generated : Option String) : (t.bind name generated).Shadowing vars init last bound x where
  isOpen := bind_scopes_ne_nil h.isOpen name generated
  suffix := by simpa using h.suffix
  isRead := by rw [readSince_bind]; exact h.isRead
  outside := h.outside.imp_left fun h => lookup_bind h name generated
  innermost := by rw [innermost_bind_ne hx]; exact h.innermost

/-- Annotations may change while a name is shadowed. -/
theorem Shadowing.annotate (h : t.Shadowing vars init last bound x) (a : Annotations) :
    { t with annotations := a }.Shadowing vars init last bound x :=
  ⟨h.isOpen, h.suffix, h.isRead, h.outside, h.innermost⟩

/-- Another variable is renamed while a name is shadowed. -/
theorem Shadowing.rename_ne (h : t.Shadowing vars init last bound x) {v : Identifier}
    (hx : x ≠ v.name) : (t.rename v).Shadowing vars init last bound x := by
  have hnext : { t with suffix := t.suffix + 1 }.Shadowing vars init last bound x :=
    ⟨h.isOpen, Nat.le_succ_of_le h.suffix, h.isRead, h.outside, h.innermost⟩
  exact (hnext.annotate _).bind_ne hx _

theorem Shadowing.redeclare (h : t.Shadowing vars init last bound x) (v : Identifier) :
    (t.redeclare v).Shadowing vars init last bound x := by
  unfold Analysis.redeclare
  split <;> exact h.annotate _

/-- The name itself gets a suffix above the bound. -/
theorem Shadowing.rename_self (h : t.Shadowing vars init last bound x) {v : Identifier}
    (hx : v.name = x) : (t.rename v).Shadowing vars init last bound x ∧
      (t.rename v).annotations.renamed[v.id]? = some (freshName x (t.suffix + 1)) := by
  subst hx
  have hrenamed := renamed_noteRenamed { t with suffix := t.suffix + 1 } v.id
    (freshName v.name (t.suffix + 1))
  have hopen : ({ t with suffix := t.suffix + 1 }.noteRenamed v.id
      (freshName v.name (t.suffix + 1))).scopes ≠ [] := h.isOpen
  refine ⟨⟨?_, ?_, ?_, ?_, .inr ⟨t.suffix + 1, Nat.lt_succ_of_le h.suffix, ?_⟩⟩, ?_⟩
  · exact bind_scopes_ne_nil hopen v.name _
  · simpa [rename, noteRenamed] using Nat.le_succ_of_le h.suffix
  · rw [rename, readSince_bind]
    exact h.isRead
  · exact h.outside.imp_left fun h => lookup_bind h v.name _
  · exact innermost_bind_self hopen v.name _
  · simpa [rename] using hrenamed

/-- **One variable** of a statement that reads a name from outside the block. -/
theorem shadowing_declareOne (h : t.Shadowing vars init last bound x) (hx : x ≠ Name.placeholder)
    (v : Identifier) :
    (declareOne vars init last t v).Shadowing vars init last bound x ∧
      (v.name = x → ∃ k, bound < k ∧ (declareOne vars init last t v).annotations.renamed[v.id]? =
        some (freshName x k)) := by
  by_cases hv : v.name = x
  · -- the first variable of this name is renamed, later ones keep its name
    have hnot : ¬ v.name = Name.placeholder := hv ▸ hx
    unfold declareOne
    rw [if_neg hnot, hv]
    rcases h.innermost with hnone | ⟨k, hk, hsome⟩
    · have hglobal : ((t.lookup? x).isNone && copiesItself vars init x) = false := by
        rcases h.outside with hsome | hcopy
        · simp [Option.isNone_eq_false_iff.2 hsome]
        · simp [hcopy]
      obtain ⟨hnext, hrenamed⟩ := h.rename_self hv
      simp only [hnone, Option.isSome_none, Bool.false_eq_true, if_false, h.isRead, hglobal,
        Bool.not_false, Bool.and_self, if_true]
      exact ⟨hnext, fun _ => ⟨t.suffix + 1, Nat.lt_succ_of_le h.suffix, hrenamed⟩⟩
    · simp only [hsome, Option.isSome_some, if_true]
      refine ⟨h.redeclare v, fun _ => ⟨k, hk, ?_⟩⟩
      unfold Analysis.redeclare
      rw [hv, hsome]
      exact renamed_noteRenamed _ v.id _
  · have hne : x ≠ v.name := fun heq => hv heq.symm
    refine ⟨?_, fun heq => absurd heq hv⟩
    unfold declareOne
    split
    · split
      · exact h.rename_ne hne
      · exact h.bind_ne hne none
    · split
      · exact h.redeclare v
      · simp only
        split
        · exact h.rename_ne hne
        · exact h.bind_ne hne none

/-- **All variables** of a statement that reads a name from outside the block. -/
theorem shadowing_declare {todo : List Identifier} (h : t.Shadowing vars init last bound x)
    (hx : x ≠ Name.placeholder) (hnodup : (todo.map Identifier.id).Nodup) {v : Identifier}
    (hv : v ∈ todo) (hname : v.name = x) :
    ∃ k, bound < k ∧ (todo.foldl (declareOne vars init last) t).annotations.renamed[v.id]? =
      some (freshName x k) := by
  induction todo generalizing t with
  | nil => cases hv
  | cons first rest ih =>
    obtain ⟨hnext, hfirst⟩ := shadowing_declareOne h hx first
    rw [List.map_cons, List.nodup_cons] at hnodup
    rcases List.mem_cons.1 hv with rfl | hv
    · obtain ⟨k, hk, hrenamed⟩ := hfirst hname
      have hframe : Frame (declareOne vars init last t v) (rest.map Identifier.id)
          (rest.foldl (declareOne vars init last) (declareOne vars init last t v)) :=
        (declared_foldl (declared_declareOne vars init last)).frame
      exact ⟨k, hk, by rw [List.foldl_cons, hframe.renamed v.id hnodup.1, hrenamed]⟩
    · exact ih hnext hnodup.2 hv

/-! ## Stretches of program -/

/-- The walk has read and named only nodes below a number. -/
structure Below (t : Analysis) (lo : NodeId) : Prop where
  reads : ∀ read ∈ t.reads, read.1 < lo
  renamed : ∀ id, lo ≤ id → t.annotations.renamed[id]? = none

/-- **What the walk over events keeps apart**, in all annotations that agree with it on the nodes it
has named. -/
def Renames (t : Analysis) (es : List Event) (ids : List NodeId) (os : List Occurrence)
    (sites : List Site) : Prop :=
  ∀ a : Annotations,
    (∀ id ∈ ids, a.renamed[id]? = (es.foldl step t).annotations.renamed[id]?) →
    (∀ o ∈ os, a.Names (es.foldl step t).suffix o) ∧ ∀ site ∈ sites, a.Separates site

/-- Two stretches, the second where the first has led. -/
theorem Renames.append {es es' : List Event} {ids ids' : List NodeId} {os os' : List Occurrence}
    {ss ss' : List Site} (h : Renames t es ids os ss)
    (h' : Renames (es.foldl step t) es' ids' os' ss')
    (hframe : Frame (es.foldl step t) ids' (es'.foldl step (es.foldl step t)))
    (hdisjoint : ∀ id ∈ ids, id ∉ ids') :
    Renames t (es ++ es') (ids ++ ids') (os ++ os') (ss ++ ss') := by
  intro a ha
  rw [List.foldl_append] at ha ⊢
  obtain ⟨hnames, hsites⟩ := h a fun id hid => by
    rw [ha id (List.mem_append_left _ hid), hframe.renamed id (hdisjoint id hid)]
  obtain ⟨hnames', hsites'⟩ := h' a fun id hid => ha id (List.mem_append_right _ hid)
  constructor
  · intro o ho
    rcases List.mem_append.1 ho with ho | ho
    · exact (hnames o ho).mono hframe.suffix
    · exact hnames' o ho
  · intro site hsite
    rcases List.mem_append.1 hsite with hsite | hsite
    · exact hsites site hsite
    · exact hsites' site hsite

/-- The walk stays below the next number. -/
theorem Annotates.below {es : List Event} {ids : List NodeId} {os : List Occurrence} {lo hi : NodeId}
    (h : Annotates t es envs env ids os) (hb : t.Below lo) (hr : Rising lo ids hi)
    (hos : ∀ o ∈ os, o.id ∈ ids) : (es.foldl step t).Below hi where
  reads read hread := by
    rw [h.reads, List.mem_append, List.mem_reverse, List.mem_map] at hread
    rcases hread with ⟨o, ho, rfl⟩ | hread
    · exact (hr.mem (hos o ho)).2
    · exact Nat.lt_of_lt_of_le (hb.reads read hread) hr.le
  renamed id hid := by
    have hnot : id ∉ ids := fun hmem => Nat.not_lt.2 hid (hr.mem hmem).2
    rw [h.frame.renamed id hnot]
    exact hb.renamed id (Nat.le_trans hr.le hid)

/-- A reference is renamed by what it resolves to. -/
theorem renames_reference (ht : t.Tracks (env :: envs)) {id : NodeId} (name : String) {site : Site}
    (hid : t.annotations.renamed[id]? = none)
    (hsite : ∀ id vars init inner, site.item ≠ .locals id vars init inner) :
    Renames t [.reference id name] [id] [⟨id, name, env ++ envs.flatten⟩] [site] := by
  intro a ha
  have ha := ha id (List.mem_singleton.2 rfl)
  constructor
  · intro o ho
    obtain rfl := List.mem_singleton.1 ho
    change a.renamed[id]? = (t.reference id name).annotations.renamed[id]? at ha
    change a.Names (t.reference id name).suffix _
    unfold Annotations.Names
    rw [ha]
    unfold reference
    -- a free name, a declared one without a generated name, or one with it
    cases hl : t.lookup? name with
    | none => exact .inl hid
    | some generated =>
      cases generated with
      | none => exact .inl hid
      | some generated =>
        obtain ⟨j, hj, rfl⟩ := ht.lookup_generated hl
        exact .inr ⟨ht.lookup_iff.1 (by rw [hl]; rfl), j, hj, renamed_noteRenamed _ id _⟩
  · intro s hs
    obtain rfl := List.mem_singleton.1 hs
    exact Annotations.separates_of_ne hsite

/-- An item is annotated as it is resolved. -/
theorem run_item {item : Item} (hwf : item.WellFormed) (ht : t.Tracks (env :: envs)) :
    Annotates t item.events envs (item.bind env) item.numbers
      (item.occurrences (env ++ envs.flatten)) := by
  have h : Annotates t (Skeleton.events [item]) envs (Skeleton.bind env [item])
      (Skeleton.numbers [item]) (Skeleton.occurrences (env ++ envs.flatten) [item]) :=
    run_events ⟨hwf, trivial⟩ ht
  simpa [Skeleton.events, Skeleton.numbers, Skeleton.occurrences, Skeleton.bind] using h

/-- One item before others. -/
theorem renames_cons {item : Item} {rest : List Item} {lo hi : NodeId} (hwf : item.WellFormed)
    (hrest : Skeleton.WellFormed rest) (ht : t.Tracks (env :: envs))
    (hr : Rising lo (item.numbers ++ Skeleton.numbers rest) hi) (hb : t.Below lo)
    (hitem : Renames t item.events item.numbers (item.occurrences (env ++ envs.flatten))
      (⟨envs.flatten, env, item⟩ :: item.sites envs.flatten env))
    (ih : ∀ {t : Analysis} {env : Environment} {lo : NodeId}, t.Tracks (env :: envs) →
      Rising lo (Skeleton.numbers rest) hi → t.Below lo →
      Renames t (Skeleton.events rest) (Skeleton.numbers rest)
        (Skeleton.occurrences (env ++ envs.flatten) rest) (Skeleton.sites envs.flatten env rest)) :
    Renames t (Skeleton.events (item :: rest)) (Skeleton.numbers (item :: rest))
      (Skeleton.occurrences (env ++ envs.flatten) (item :: rest))
      (Skeleton.sites envs.flatten env (item :: rest)) := by
  obtain ⟨mid, hfirst, hlater⟩ := rising_append.1 hr
  have hrun := run_item hwf ht
  -- what occurs in the item is numbered there, so the rest leaves its name as it is
  have hids : ∀ o ∈ item.occurrences (env ++ envs.flatten), o.id ∈ item.numbers := by
    intro o ho
    have hsub := Skeleton.occurrence_ids (env ++ envs.flatten) [item]
    simp only [Skeleton.occurrences, Skeleton.numbers, List.append_nil] at hsub
    exact hsub.subset (List.mem_map_of_mem ho)
  have hafter := ih hrun.tracks hlater (hrun.below hb hfirst hids)
  rw [← Item.bind_append] at hafter
  exact hitem.append hafter (run_events hrest hrun.tracks).frame
    fun id hid hmem => by
      have hlt := (hfirst.mem hid).2
      have hge := (hlater.mem hmem).1
      omega

/-- A name that occurs behind the last variable of a statement counts as read. -/
theorem Annotates.isRead {es : List Event} {ids : List NodeId} {os : List Occurrence}
    (h : Annotates t es envs env ids os) (hlast : ∀ o ∈ os, last < o.id) {r : Occurrence}
    (hr : r ∈ os) :
    (es.foldl step t).readSince last r.name = true := by
  have hall : ∀ read ∈ (os.map fun o => (o.id, o.name)).reverse, decide (last < read.1) = true := by
    intro read hread
    obtain ⟨o, ho, rfl⟩ := List.mem_map.1 (List.mem_reverse.1 hread)
    exact decide_eq_true (hlast o ho)
  rw [readSince, h.reads, List.takeWhile_append_of_pos hall, List.any_append, Bool.or_eq_true]
  exact .inl (List.any_eq_true.2 ⟨_, List.mem_reverse.2 (List.mem_map_of_mem hr), beq_self_eq_true _⟩)

/-- A `local` statement renames its variables one by one. -/
theorem declare_renamed (t : Analysis) (id : NodeId) (vars : List Identifier) (init : List Expr) :
    (t.declare id vars init).annotations.renamed =
      (vars.foldl (declareOne vars init ((vars.map Identifier.id).foldl max 0)) t).annotations.renamed
    := by
  unfold declare
  simp only
  split <;> rfl

/-- The greatest of some numbers below a bound is below it. -/
theorem foldl_max_lt {ns : List Nat} {start bound : Nat} (hstart : start < bound)
    (h : ∀ n ∈ ns, n < bound) : ns.foldl max start < bound := by
  induction ns generalizing start with
  | nil => exact hstart
  | cons n ns ih =>
    have hn := h n (List.mem_cons_self ..)
    exact ih (by omega) fun m hm => h m (List.mem_cons_of_mem _ hm)

/-- **A `local` statement keeps its variables apart from the names that its values read.** -/
theorem separates_locals {a : Annotations} {id : NodeId} {inner : List Item}
    (hrun : Annotates t (Skeleton.events inner) envs env (Skeleton.numbers inner)
      (Skeleton.occurrences (env ++ envs.flatten) inner))
    (hnames : ∀ o ∈ Skeleton.occurrences (env ++ envs.flatten) inner,
      a.Names ((Skeleton.events inner).foldl step t).suffix o)
    (hagree : ∀ v ∈ vars, a.renamed[v.id]? = (((Skeleton.events inner).foldl step t).declare
      id vars init).annotations.renamed[v.id]?)
    (hnodup : (vars.map Identifier.id).Nodup)
    (hlast : ∀ v ∈ vars, ∀ o ∈ Skeleton.occurrences (env ++ envs.flatten) inner,
      (vars.map Identifier.id).foldl max 0 < o.id) :
    a.Separates ⟨envs.flatten, env, .locals id vars init inner⟩ := by
  intro id' vars' init' inner' heq v hv r hr hfree hname hplaceholder hcopy
  cases heq
  -- the read has another environment in the whole program, but the same node
  have ho : r.within envs.flatten ∈ Skeleton.occurrences (env ++ envs.flatten) inner := by
    rw [Skeleton.occurrences_append]
    exact List.mem_map_of_mem hr
  have hread := hrun.isRead (hlast v hv) ho
  rw [Occurrence.within_name, hname] at hread
  have houter := Skeleton.not_declares_of_isFree hr hfree
  -- what is read stands outside the block, and the first variable of its name shadows it
  have hshadowing : ((Skeleton.events inner).foldl step t).Shadowing vars init
      ((vars.map Identifier.id).foldl max 0) ((Skeleton.events inner).foldl step t).suffix v.name := by
    refine ⟨fun hnil => ?_, Nat.le_refl _, hread, ?_, .inl ?_⟩
    · have hscopes := hrun.tracks.scopes
      rw [hnil] at hscopes
      cases hscopes
    · by_cases hdeclares : Environment.Declares envs.flatten v.name
      · refine .inl (hrun.tracks.lookup_iff.2 ?_)
        obtain ⟨i, hi⟩ := hdeclares
        exact ⟨i, List.mem_append_right _ hi⟩
      · exact .inr (Bool.eq_false_iff.2 fun h => hcopy ⟨h, hdeclares⟩)
    · rw [← Option.not_isSome_iff_eq_none, hrun.tracks.innermost_iff, ← hname]
      exact houter
  obtain ⟨k, hk, hrenamed⟩ := shadowing_declare hshadowing hplaceholder hnodup hv rfl
  refine ⟨k, ?_, ?_⟩
  · rw [hagree v hv, declare_renamed]
    exact hrenamed
  · rcases hnames _ ho with hnone | ⟨-, j, hj, hsome⟩
    · exact .inl hnone
    · exact .inr ⟨j, Nat.lt_of_le_of_lt hj hk, hsome⟩

/-- A `local` statement renames the variables its values or its scope have read. -/
theorem renames_locals {id : NodeId} {inner : List Item} {lo hi : NodeId}
    (hplain : Skeleton.Plain inner) (hwf : Skeleton.WellFormed inner) (ht : t.Tracks (env :: envs))
    (hr : Rising lo (Item.locals id vars init inner).numbers hi)
    (hinner : Renames t (Skeleton.events inner) (Skeleton.numbers inner)
      (Skeleton.occurrences (env ++ envs.flatten) inner) (Skeleton.sites envs.flatten env inner)) :
    Renames t (Item.locals id vars init inner).events (Item.locals id vars init inner).numbers
      ((Item.locals id vars init inner).occurrences (env ++ envs.flatten))
      (⟨envs.flatten, env, .locals id vars init inner⟩ ::
        (Item.locals id vars init inner).sites envs.flatten env) := by
  obtain ⟨mid, hvars, hrest⟩ := rising_append.1 hr
  obtain ⟨mid', hvalues, -⟩ := rising_append.1 hrest
  have hrun := run_events hwf ht
  rw [Skeleton.bind_plain hplain] at hrun
  intro a ha
  rw [Item.events, List.foldl_append] at ha ⊢
  have hdeclared := declared_declare ((Skeleton.events inner).foldl step t) id vars init
  -- the values are named as they were before the declaration
  have hvaluesAgree : ∀ n ∈ Skeleton.numbers inner, a.renamed[n]? =
      ((Skeleton.events inner).foldl step t).annotations.renamed[n]? := by
    intro n hn
    rw [ha n (List.mem_append_right _ (List.mem_append_left _ hn))]
    refine hdeclared.frame.renamed n fun hmem => ?_
    have hlt := (hvars.mem hmem).2
    have hge := (hvalues.mem hn).1
    omega
  obtain ⟨hnames, hsites⟩ := hinner a hvaluesAgree
  refine ⟨fun o ho => (hnames o ho).mono hdeclared.frame.suffix, fun site hsite => ?_⟩
  rcases List.mem_cons.1 hsite with rfl | hsite
  · refine separates_locals hrun hnames (fun v hv => ?_) hvars.nodup fun v hv o ho => ?_
    · exact ha v.id (List.mem_append_left _ (List.mem_map_of_mem hv))
    · have hge := (hvalues.mem ((Skeleton.occurrence_ids _ inner).subset
        (List.mem_map_of_mem ho))).1
      have hv := (hvars.mem (List.mem_map_of_mem hv)).2
      refine foldl_max_lt (by omega) fun n hn => ?_
      have hn := (hvars.mem hn).2
      omega
  · exact hsites site hsite

/-- Numbers below a bound stay there. -/
theorem Declared.below {identifiers : List Identifier} {lo : NodeId}
    (h : Declared t identifiers t') (hb : t.Below lo)
    (hlt : ∀ id ∈ identifiers.map Identifier.id, id < lo) : t'.Below lo where
  reads read hread := hb.reads read (h.reads ▸ hread)
  renamed id hid := by
    rw [h.frame.renamed id fun hmem => Nat.not_lt.2 hid (hlt id hmem)]
    exact hb.renamed id hid

/-- A scope renames what its items do; names of the outer scopes stay as they were. -/
theorem renames_scope {receiver : Bool} {parameters : Option (List Identifier)}
    {header body : List Item} {lo hi : NodeId}
    (hwf : (Item.scope receiver parameters header body).WellFormed) (ht : t.Tracks (env :: envs))
    (hr : Rising lo (Item.scope receiver parameters header body).numbers hi) (hb : t.Below lo)
    (hheader : ∀ {lo : NodeId}, Rising lo (Skeleton.numbers header) hi → t.Below lo →
      Renames t (Skeleton.events header) (Skeleton.numbers header)
        (Skeleton.occurrences (env ++ envs.flatten) header)
        (Skeleton.sites envs.flatten env header))
    (hbody : ∀ {t : Analysis} {own : Environment} {lo : NodeId}, t.Tracks (own :: env :: envs) →
      Rising lo (Skeleton.numbers body) hi → t.Below lo →
      Renames t (Skeleton.events body) (Skeleton.numbers body)
        (Skeleton.occurrences (own ++ (env :: envs).flatten) body)
        (Skeleton.sites (env :: envs).flatten own body)) :
    Renames t (Item.scope receiver parameters header body).events
      (Item.scope receiver parameters header body).numbers
      ((Item.scope receiver parameters header body).occurrences (env ++ envs.flatten))
      (⟨envs.flatten, env, .scope receiver parameters header body⟩ ::
        (Item.scope receiver parameters header body).sites envs.flatten env) := by
  obtain ⟨hplain, hheaderWf, hbodyWf⟩ := hwf
  obtain ⟨first, hparameters, hrest⟩ := rising_append.1 hr
  obtain ⟨second, hbefore, hinside⟩ := rising_append.1 hrest
  have hbFirst : t.Below first :=
    ⟨fun read hread => Nat.lt_of_lt_of_le (hb.reads read hread) hparameters.le,
      fun n hn => hb.renamed n (Nat.le_trans hparameters.le hn)⟩
  have hrun := run_events hheaderWf ht
  rw [Skeleton.bind_plain hplain] at hrun
  have hbSecond := hrun.below hbFirst hbefore fun o ho =>
    (Skeleton.occurrence_ids _ header).subset (List.mem_map_of_mem ho)
  have hopened := tracks_opened hrun.tracks receiver parameters
  have hdeclared := declared_opened ((Skeleton.events header).foldl step t) receiver parameters
  have hbOpened := hdeclared.below ⟨hbSecond.reads, hbSecond.renamed⟩ fun id hid =>
    Nat.lt_of_lt_of_le (hparameters.mem hid).2 hbefore.le
  have hinner := hbody hopened hinside hbOpened
  have hscope := annotates_scope hrun.tracks receiver parameters (run_events hbodyWf hopened)
  -- leaving the scope names nothing
  have hleft : Renames ((Skeleton.events header).foldl step t) (.enter receiver ::
      ((parameters.map Event.parameters).toList ++ (Skeleton.events body ++ [.leave])))
      ((parameters.getD []).map Identifier.id ++ Skeleton.numbers body)
      (Skeleton.occurrences (Environment.enter (env ++ envs.flatten) receiver parameters) body)
      (Skeleton.sites (env ++ envs.flatten) (Environment.enter [] receiver parameters) body) := by
    intro a ha
    rw [foldl_scope] at ha ⊢
    rw [Environment.enter_append]
    exact hinner a fun id hid => ha id (List.mem_append_right _ hid)
  -- what the header names, the scope does not name again
  have hall := (hheader (hbefore.mono (Nat.le_refl _) hinside.le) hbFirst).append hleft hscope.frame
    fun id hid hmem => by
      have hid := hbefore.mem hid
      rcases List.mem_append.1 hmem with hmem | hmem
      · have := (hparameters.mem hmem).2
        omega
      · have := (hinside.mem hmem).1
        omega
  intro a ha
  obtain ⟨hnames, hsites⟩ := hall a fun id hid => ha id (by
    simp only [Item.numbers, List.mem_append] at hid ⊢
    tauto)
  refine ⟨hnames, fun site hsite => ?_⟩
  rcases List.mem_cons.1 hsite with rfl | hsite
  · exact Annotations.separates_of_ne (by simp)
  · exact hsites site hsite

/-- **The walk keeps apart what it should**, at every site of a stretch of program. -/
theorem renames_items {items : List Item} {lo hi : NodeId} (hwf : Skeleton.WellFormed items)
    (ht : t.Tracks (env :: envs)) (hr : Rising lo (Skeleton.numbers items) hi) (hb : t.Below lo) :
    Renames t (Skeleton.events items) (Skeleton.numbers items)
      (Skeleton.occurrences (env ++ envs.flatten) items) (Skeleton.sites envs.flatten env items) := by
  induction items using Skeleton.induction generalizing t env envs lo hi with
  | nil => exact fun _ _ => ⟨fun _ ho => (nomatch ho), fun _ hs => (nomatch hs)⟩
  | reference id name rest ih =>
    refine renames_cons hwf.1 hwf.2 ht hr hb ?_ (ih hwf.2)
    exact renames_reference ht name (hb.renamed id hr.1) (by simp)
  | functionName identifier rest ih =>
    refine renames_cons hwf.1 hwf.2 ht hr hb ?_ (ih hwf.2)
    exact renames_reference ht _ (hb.renamed identifier.id hr.1) (by simp)
  | locals id vars init inner rest ihInner ih =>
    refine renames_cons hwf.1 hwf.2 ht hr hb ?_ (ih hwf.2)
    obtain ⟨mid, hitem, -⟩ := rising_append.1 hr
    obtain ⟨first, hvars, hlater⟩ := rising_append.1 hitem
    obtain ⟨second, hinner, -⟩ := rising_append.1 hlater
    -- the identities of the values lie behind those of the variables
    have hvalues := ihInner hwf.1.2 ht hinner
      ⟨fun read hread => Nat.lt_of_lt_of_le (hb.reads read hread) hvars.le,
        fun n hn => hb.renamed n (Nat.le_trans hvars.le hn)⟩
    exact renames_locals hwf.1.1 hwf.1.2 ht hitem hvalues
  | localFunction identifier rest ih =>
    refine renames_cons hwf.1 hwf.2 ht hr hb ?_ (ih hwf.2)
    intro a _
    refine ⟨fun _ ho => (nomatch ho), fun site hsite => ?_⟩
    obtain rfl := List.mem_singleton.1 hsite
    -- a local function is no declaration with values, so nothing is asked of its site
    exact Annotations.separates_of_ne (by simp)
  | scope receiver parameters header body rest ihHeader ihBody ih =>
    refine renames_cons hwf.1 hwf.2 ht hr hb ?_ (ih hwf.2)
    obtain ⟨mid, hitem, -⟩ := rising_append.1 hr
    exact renames_scope hwf.1 ht hitem hb (ihHeader hwf.1.2.1 ht) (ihBody hwf.1.2.2)

end Analysis

end Scope

/-- The sites of a program. -/
def Chunk.sites (chunk : Chunk) : List Scope.Site :=
  Scope.Skeleton.sites [] [] chunk.items

open Scope

/-- A program is renamed by its items. -/
theorem Chunk.renames (chunk : Chunk) {hi : NodeId}
    (hr : Rising 0 (Skeleton.numbers chunk.items) hi) :
    (∀ o ∈ chunk.occurrences, (analyse (Skeleton.events chunk.items)).annotations.Names
      ((Skeleton.events (stmtItems chunk.body)).foldl Analysis.step
        (Analysis.opened {} false none)).suffix o) ∧
    ∀ site ∈ Skeleton.sites [] [] (stmtItems chunk.body),
      (analyse (Skeleton.events chunk.items)).annotations.Separates site := by
  have hnumbers : Skeleton.numbers chunk.items = Skeleton.numbers (stmtItems chunk.body) := by
    simp [Chunk.items, Skeleton.numbers, Item.numbers]
  have hb : (Analysis.opened {} false none).Below 0 := ⟨by simp [Analysis.opened, Analysis.step], fun _ _ => rfl⟩
  have hrenames := Analysis.renames_items (stmtItems_wellFormed chunk.body) Analysis.tracks_start
    (hnumbers ▸ hr) hb
  rw [Analysis.analyse_annotations, chunk.occurrences_eq]
  exact hrenames _ fun _ _ => rfl

end LuaCompiler
