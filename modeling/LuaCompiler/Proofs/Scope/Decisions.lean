import LuaCompiler.Proofs.Scope.Apart
import LuaCompiler.Proofs.Scope.Renaming

/-!
# Which variables get generated names

The walk decides about the variables of a `local` statement when the statement ends. It reads the log
of all references backwards, as long as they have higher identities than the last variable. Identities
are given out in the order of the text, so these are the references in the statement's values, and
the decision is one about the tree.

* `Skeleton.Mentions`: a name occurs in a stretch of program.
* `Site.Splits`: **a site splits the events and the identities of a program**, and `exists_splits`:
  every site does.
* `Annotates.readSince_iff`: the log tells what the values mention.
* `decided_declare`: what becomes of one variable of a statement.
* `local_names_match_tree`: which variables of a program get generated names, and which are marked.
-/

namespace LuaCompiler

namespace Scope

/-- **A name occurs in a stretch of program**, bound there or not, in the functions there too. -/
def Skeleton.Mentions (items : List Item) (name : String) : Prop :=
  ∃ o ∈ Skeleton.occurrences [] items, o.name = name

/-- What is visible outside does not matter for what occurs. -/
theorem Skeleton.mentions_iff (env : Environment) {items : List Item} {name : String} :
    Skeleton.Mentions items name ↔ ∃ o ∈ Skeleton.occurrences env items, o.name = name := by
  have hwithin := Skeleton.occurrences_append [] env items
  rw [List.nil_append] at hwithin
  simp [Skeleton.Mentions, hwithin]

/-- **Annotations introduce a variable**: it is not marked, and has a generated name exactly if it is
to have one. -/
structure Annotations.Introduces (a : Annotations) (v : Identifier) (generated : Prop) : Prop where
  renamed_iff : v.id ∈ a.renamed ↔ generated
  freshName : ∀ name, a.renamed[v.id]? = some name → ∃ k, name = Analysis.freshName v.name k
  unmarked : v.id ∉ a.redeclared

theorem Annotations.Introduces.agree {a a' : Annotations} {v : Identifier} {generated : Prop}
    (h : a.Introduces v generated) (hrenamed : a'.renamed[v.id]? = a.renamed[v.id]?)
    (hredeclared : v.id ∈ a'.redeclared ↔ v.id ∈ a.redeclared) : a'.Introduces v generated where
  renamed_iff := by
    rw [Std.TreeMap.mem_iff_isSome_getElem?, hrenamed, ← Std.TreeMap.mem_iff_isSome_getElem?]
    exact h.renamed_iff
  freshName name hname := h.freshName name (hrenamed ▸ hname)
  unmarked hmem := h.unmarked (hredeclared.1 hmem)

/-! ## Where a site stands -/

/-- **A site splits the events and the identities of a stretch of program** into those before it, its
own and those behind it. What is noted before it is numbered before it, and leads the walk into the
scopes of the site. -/
structure Site.Splits (site : Site) (envs : List Environment) (env : Environment)
    (items : List Item) : Prop where
  wellFormed : site.item.WellFormed
  parts : ∃ (before behind : List Event) (low high : List NodeId) (inner : List Environment),
    Skeleton.events items = before ++ (site.item.events ++ behind) ∧
    Skeleton.numbers items = low ++ (site.item.numbers ++ high) ∧
    before.flatMap Event.numbers ⊆ low ∧ inner.flatten = site.outer ∧
    ∀ t : Analysis, t.Tracks (env :: envs) →
      (before.foldl Analysis.step t).Tracks (site.own :: inner)

namespace Site.Splits

variable {site : Site} {envs : List Environment} {env : Environment} {first : Item}
  {rest : List Item}

/-- The first item of a stretch of program. -/
theorem head (hwf : first.WellFormed) :
    Splits ⟨envs.flatten, env, first⟩ envs env (first :: rest) where
  wellFormed := hwf
  parts := ⟨[], Skeleton.events rest, [], Skeleton.numbers rest, envs, rfl, rfl,
    List.nil_subset _, rfl, fun _ ht => ht⟩

/-- A site behind the first item. -/
theorem tail (hwf : first.WellFormed) (h : Splits site envs (first.bind env) rest) :
    Splits site envs env (first :: rest) where
  wellFormed := h.wellFormed
  parts := by
    obtain ⟨before, behind, low, high, inner, hevents, hnumbers, hlow, houter, htracks⟩ := h.parts
    refine ⟨first.events ++ before, behind, first.numbers ++ low, high, inner, ?_, ?_, ?_, houter, ?_⟩
    · rw [Skeleton.events, hevents, List.append_assoc]
    · rw [Skeleton.numbers, hnumbers, List.append_assoc]
    · have hfirst := (Skeleton.perm_numbers [first]).subset
      simp only [Skeleton.events, Skeleton.numbers, List.append_nil] at hfirst
      rw [List.flatMap_append]
      exact List.append_subset.2 ⟨List.subset_append_of_subset_left _ hfirst,
        List.subset_append_of_subset_right _ hlow⟩
    · intro t ht
      rw [List.foldl_append]
      exact htracks _ (Analysis.run_item hwf ht).tracks

/-- A site in the first item, which is a scope or holds values. -/
theorem inside {envs' : List Environment} {env' : Environment} {items : List Item}
    (h : Splits site envs' env' items) (front back : List Event) (low high : List NodeId)
    (hevents : first.events = front ++ (Skeleton.events items ++ back))
    (hnumbers : first.numbers = low ++ (Skeleton.numbers items ++ high))
    (hlow : front.flatMap Event.numbers ⊆ low)
    (htracks : ∀ t : Analysis, t.Tracks (env :: envs) →
      (front.foldl Analysis.step t).Tracks (env' :: envs')) :
    Splits site envs env (first :: rest) where
  wellFormed := h.wellFormed
  parts := by
    obtain ⟨before, behind, low', high', inner, hevents', hnumbers', hlow', houter, htracks'⟩ :=
      h.parts
    refine ⟨front ++ before, behind ++ (back ++ Skeleton.events rest), low ++ low',
      high' ++ (high ++ Skeleton.numbers rest), inner, ?_, ?_, ?_, houter, ?_⟩
    · rw [Skeleton.events, hevents, hevents']
      simp only [List.append_assoc]
    · rw [Skeleton.numbers, hnumbers, hnumbers']
      simp only [List.append_assoc]
    · rw [List.flatMap_append]
      exact List.append_subset.2 ⟨List.subset_append_of_subset_left _ hlow,
        List.subset_append_of_subset_right _ hlow'⟩
    · intro t ht
      rw [List.foldl_append]
      exact htracks' _ (htracks t ht)

end Site.Splits

/-- The header of a scope stands before the scope, among what is visible there. -/
theorem Analysis.tracks_header {t : Analysis} {env : Environment} {envs : List Environment}
    {header : List Item} (hplain : Skeleton.Plain header) (hwf : Skeleton.WellFormed header)
    (ht : t.Tracks (env :: envs)) :
    ((Skeleton.events header).foldl Analysis.step t).Tracks (env :: envs) := by
  have hrun := Analysis.run_events hwf ht
  rw [Skeleton.bind_plain hplain] at hrun
  exact hrun.tracks

/-- **Every site of a stretch of program splits it.** -/
theorem Skeleton.exists_splits (envs : List Environment) {env : Environment} {items : List Item}
    (hwf : Skeleton.WellFormed items) {site : Site}
    (hsite : site ∈ Skeleton.sites envs.flatten env items) : site.Splits envs env items := by
  induction items using Skeleton.induction generalizing envs env with
  | nil => cases hsite
  | reference id name rest ih | functionName identifier rest ih | localFunction identifier rest ih =>
    rcases List.mem_cons.1 hsite with rfl | hsite
    · exact .head hwf.1
    · exact .tail hwf.1 (ih envs hwf.2 hsite)
  | locals id vars init inner rest ihInner ih =>
    rcases List.mem_cons.1 hsite with rfl | hsite
    · exact .head hwf.1
    rcases List.mem_append.1 hsite with hsite | hsite
    · -- the variables are numbered before the values and declared behind them
      exact .inside (ihInner envs hwf.1.2 hsite) [] [.declare id vars init] (vars.map Identifier.id) [id]
        rfl rfl (List.nil_subset _) fun t ht => ht
    · exact .tail hwf.1 (ih envs hwf.2 hsite)
  | scope receiver parameters header body rest ihHeader ihBody ih =>
    obtain ⟨⟨hplain, hheader, hbody⟩, hrest⟩ := hwf
    rcases List.mem_cons.1 hsite with rfl | hsite
    · exact .head ⟨hplain, hheader, hbody⟩
    rcases List.mem_append.1 hsite with hsite | hsite
    · rcases List.mem_append.1 hsite with hsite | hsite
      · exact .inside (ihHeader envs hheader hsite) [] _ ((parameters.getD []).map Identifier.id)
          (Skeleton.numbers body) rfl rfl (List.nil_subset _) fun t ht => ht
      · have hopening : (parameters.map Event.parameters).toList.flatMap Event.numbers =
            (parameters.getD []).map Identifier.id := by
          cases parameters <;> simp [Event.numbers]
        -- in the body, the environment of the scope itself is the innermost one
        have hinner : site.Splits (env :: envs) (Environment.enter [] receiver parameters) body :=
          ihBody (env :: envs) hbody hsite
        refine .inside hinner (Skeleton.events header ++
            .enter receiver :: (parameters.map Event.parameters).toList) [.leave]
          ((parameters.getD []).map Identifier.id ++ Skeleton.numbers header) [] ?_ ?_ ?_ ?_
        · simp [Item.events]
        · simp [Item.numbers]
        · have hbefore := (Skeleton.perm_numbers header).subset
          rw [List.flatMap_append, List.flatMap_cons, hopening]
          refine List.append_subset.2 ⟨?_, ?_⟩
          · exact List.subset_append_of_subset_right _ hbefore
          · exact List.subset_append_left _ _
        · intro t ht
          rw [List.foldl_append]
          exact Analysis.tracks_opened (Analysis.tracks_header hplain hheader ht) receiver parameters
    · exact .tail ⟨hplain, hheader, hbody⟩ (ih envs hrest hsite)

namespace Analysis

variable {t t' : Analysis} {a : Annotations} {env : Environment} {envs : List Environment}
  {vars earlier later : List Identifier} {init : List Expr} {last id : NodeId} {v : Identifier}
  {name : String} {mentioned copies : Prop}

/-! ## The log of references -/

theorem reads_step {event : Event} {read : NodeId × String} (h : read ∈ (t.step event).reads) :
    read ∈ t.reads ∨ read.1 ∈ event.numbers := by
  cases event with
  | enter receiver | leave => exact .inl h
  | parameters identifiers =>
    exact .inl ((declared_foldl declared_parameter : Declared t identifiers _).reads ▸ h)
  | declare statement vars init => exact .inl ((declared_declare t statement vars init).reads ▸ h)
  | declareFunction identifier => exact .inl ((declared_declareFunction t identifier).reads ▸ h)
  | reference other name =>
    have hreads : (t.reference other name).reads = (other, name) :: t.reads := by
      unfold reference
      split
      · rfl
      · dsimp only
        split <;> rfl
    change read ∈ (t.reference other name).reads at h
    rw [hreads, List.mem_cons] at h
    rcases h with rfl | h
    · exact .inr (List.mem_singleton_self _)
    · exact .inl h

/-- What is in the log was noted by an event. -/
theorem reads_foldl {es : List Event} {read : NodeId × String} (h : read ∈ (es.foldl step t).reads) :
    read ∈ t.reads ∨ read.1 ∈ es.flatMap Event.numbers := by
  induction es generalizing t with
  | nil => exact .inl h
  | cons event rest ih =>
    rw [List.flatMap_cons, List.mem_append]
    rcases ih h with h | h
    · exact (reads_step h).imp_right .inl
    · exact .inr (.inr h)

/-- **The log tells what a stretch of program mentions**, read back to a number between what stands
in the log before and what is mentioned. -/
theorem Annotates.readSince_iff {es : List Event} {ids : List NodeId} {os : List Occurrence}
    (h : Annotates t es envs env ids os) (name : String) (hlast : ∀ o ∈ os, last < o.id)
    (hearly : ∀ read ∈ t.reads, read.1 ≤ last) :
    (es.foldl step t).readSince last name = true ↔ ∃ o ∈ os, o.name = name := by
  refine ⟨fun hread => ?_, fun ⟨o, ho, hname⟩ => hname ▸ h.isRead hlast ho⟩
  have hbehind : ∀ read ∈ (os.map fun o => (o.id, o.name)).reverse,
      decide (last < read.1) = true := by
    intro read hread
    obtain ⟨o, ho, rfl⟩ := List.mem_map.1 (List.mem_reverse.1 hread)
    exact decide_eq_true (hlast o ho)
  -- the first reference of the log before ends the search
  have hbefore : t.reads.takeWhile (fun read => last < read.1) = [] := by
    cases hreads : t.reads with
    | nil => rfl
    | cons read rest =>
      have hle := hearly read (hreads ▸ List.mem_cons_self)
      rw [List.takeWhile_cons_of_neg]
      simpa using hle
  rw [readSince, h.reads, List.takeWhile_append_of_pos hbehind, hbefore, List.append_nil] at hread
  obtain ⟨read, hread, heq⟩ := List.any_eq_true.1 hread
  obtain ⟨o, ho, rfl⟩ := List.mem_map.1 (List.mem_reverse.1 hread)
  exact ⟨o, ho, beq_iff_eq.1 heq⟩

/-! ## One variable of a statement -/

theorem renamed_rename (t : Analysis) (v : Identifier) :
    (t.rename v).annotations.renamed[v.id]? = some (freshName v.name (t.suffix + 1)) := by
  simp [rename, noteRenamed]

theorem redeclared_redeclare (t : Analysis) (v : Identifier) :
    v.id ∈ (t.redeclare v).annotations.redeclared := by
  unfold redeclare
  split <;> simp [noteRenamed]

/-- A variable that its scope has declared before. -/
theorem declareOne_again (ht : t.Tracks (env :: envs)) (hname : v.name ≠ Name.placeholder)
    (h : env.Declares v.name) : declareOne vars init last t v = t.redeclare v := by
  rw [declareOne, if_neg hname, if_pos (ht.innermost_iff.2 h)]

/-- A placeholder gets a generated name if one is visible. -/
theorem declareOne_placeholder (ht : t.Tracks (env :: envs)) (hname : v.name = Name.placeholder) :
    let visible := Environment.Declares (env ++ envs.flatten) v.name
    visible ∧ declareOne vars init last t v = t.rename v ∨
      ¬ visible ∧ declareOne vars init last t v = t.bind v.name none := by
  intro visible
  have hlookup : (t.lookup? v.name).isSome = true ↔ visible := ht.lookup_iff
  rw [declareOne, if_pos hname]
  split
  next hsome => exact .inl ⟨hlookup.1 hsome, rfl⟩
  next hnone => exact .inr ⟨fun hvisible => hnone (hlookup.2 hvisible), rfl⟩

/-- **A variable that is new in its scope** gets a generated name if the log mentions it, but for the
copy of a name that nothing declares. -/
theorem declareOne_new (ht : t.Tracks (env :: envs)) (hname : v.name ≠ Name.placeholder)
    (h : ¬ env.Declares v.name) :
    let renames := t.readSince last v.name = true ∧ ¬ (copiesItself vars init v.name = true ∧
      ¬ Environment.Declares (env ++ envs.flatten) v.name)
    renames ∧ declareOne vars init last t v = t.rename v ∨
      ¬ renames ∧ declareOne vars init last t v = t.bind v.name none := by
  intro renames
  have hlookup : (t.lookup? v.name).isNone = true ↔
      ¬ Environment.Declares (env ++ envs.flatten) v.name := by
    rw [← List.flatten_cons, ← ht.lookup_iff]
    simp
  have hcase : (t.readSince last v.name &&
      !((t.lookup? v.name).isNone && copiesItself vars init v.name)) = true ↔ renames := by
    rw [Bool.and_eq_true, Bool.not_eq_true', ← Bool.not_eq_true, Bool.and_eq_true, hlookup, and_comm
      (a := ¬ Environment.Declares (env ++ envs.flatten) v.name)]
  rw [declareOne, if_neg hname, if_neg fun hinnermost => h (ht.innermost_iff.1 hinnermost)]
  dsimp only
  split
  next hrename => exact .inl ⟨hcase.1 hrename, rfl⟩
  next hbind => exact .inr ⟨fun hrename => hbind (hcase.2 hrename), rfl⟩

/-- What becomes of a variable that is not marked. -/
theorem introduces_of_cases {generated : Prop} (hfresh : t.Fresh v.id)
    (hcases : generated ∧ t' = t.rename v ∨ ¬ generated ∧ t' = t.bind v.name none) :
    t'.annotations.Introduces v generated := by
  rcases hcases with ⟨hyes, rfl⟩ | ⟨hno, rfl⟩
  · have hrenamed := renamed_rename t v
    refine ⟨iff_of_true ?_ hyes, fun name hname => ⟨t.suffix + 1, ?_⟩, ?_⟩
    · rw [Std.TreeMap.mem_iff_isSome_getElem?, hrenamed]
      rfl
    · rw [hrenamed] at hname
      exact (Option.some.inj hname).symm
    · simpa [rename, noteRenamed] using hfresh.redeclared
  · rw [bind_annotations]
    refine ⟨iff_of_false ?_ hno, fun name hname => ?_, hfresh.redeclared⟩
    · rw [Std.TreeMap.mem_iff_isSome_getElem?, hfresh.renamed]
      exact Bool.false_ne_true
    · rw [hfresh.renamed] at hname
      cases hname

/-- The annotations of a variable are those that its own declaration makes. -/
theorem declare_at (t : Analysis) (id : NodeId) (init : List Expr)
    (hnodup : ((earlier ++ v :: later).map Identifier.id).Nodup) :
    let vars := earlier ++ v :: later
    let last := (vars.map Identifier.id).foldl max 0
    let one := declareOne vars init last (earlier.foldl (declareOne vars init last) t) v
    (t.declare id vars init).annotations.renamed[v.id]? = one.annotations.renamed[v.id]? ∧
      (v.id ∈ (t.declare id vars init).annotations.redeclared ↔
        v.id ∈ one.annotations.redeclared) := by
  intro vars last one
  obtain ⟨-, hrenamed, hredeclared⟩ := declare_annotations t id vars init
  have hspares := spares_foldl (declares_declareOne vars init last) later one
  have hlater : v.id ∉ later.map Identifier.id := by
    rw [List.map_append, List.map_cons] at hnodup
    exact (List.nodup_cons.1 hnodup.of_append_right).1
  have hfold : vars.foldl (declareOne vars init last) t =
      later.foldl (declareOne vars init last) one := by
    simp only [vars, List.foldl_append, List.foldl_cons, one]
  rw [hrenamed, hredeclared, hfold]
  exact ⟨hspares.renamed v.id hlater, hspares.redeclared v.id hlater⟩

/-- **What is decided about one variable of a `local` statement**, where its scope has declared `env`
so far: `mentioned` says whether its values mention it, `copies` whether its value is just its name. -/
structure Decides (a : Annotations) (env outer : Environment) (v : Identifier)
    (mentioned copies : Prop) : Prop where
  placeholder : v.name = Name.placeholder →
    a.Introduces v (Environment.Declares (env ++ outer) v.name)
  new : v.name ≠ Name.placeholder → ¬ env.Declares v.name →
    a.Introduces v (mentioned ∧ ¬ (copies ∧ ¬ Environment.Declares (env ++ outer) v.name))
  again : v.name ≠ Name.placeholder → env.Declares v.name → v.id ∈ a.redeclared

/-- The decision is the same in all annotations that agree on the variable. -/
theorem Decides.agree {a' : Annotations} {outer : Environment}
    (h : Decides a env outer v mentioned copies) (hrenamed : a'.renamed[v.id]? = a.renamed[v.id]?)
    (hredeclared : v.id ∈ a'.redeclared ↔ v.id ∈ a.redeclared) :
    Decides a' env outer v mentioned copies where
  placeholder hname := (h.placeholder hname).agree hrenamed hredeclared
  new hname hnew := (h.new hname hnew).agree hrenamed hredeclared
  again hname hdeclares := hredeclared.2 (h.again hname hdeclares)

/-- **The declaration of a statement decides about each of its variables.** -/
theorem decided_declare (ht : t.Tracks (env :: envs))
    (hnodup : ((earlier ++ v :: later).map Identifier.id).Nodup) (hfresh : t.Fresh v.id) :
    Decides (t.declare id (earlier ++ v :: later) init).annotations (env.declare earlier) envs.flatten
      v (t.readSince (((earlier ++ v :: later).map Identifier.id).foldl max 0) v.name = true)
      (copiesItself (earlier ++ v :: later) init v.name = true) := by
  obtain ⟨hrenamed, hredeclared⟩ := declare_at t id init hnodup
  generalize hvars : earlier ++ v :: later = vars at *
  set last := (vars.map Identifier.id).foldl max 0
  have hdeclared : Declared t earlier (earlier.foldl (declareOne vars init last) t) :=
    declared_foldl (declared_declareOne vars init last)
  have hspares := spares_foldl (declares_declareOne vars init last) earlier t
  set before := earlier.foldl (declareOne vars init last) t
  have htracks := hdeclared.tracks ht
  have hread : before.readSince last v.name = t.readSince last v.name := by
    rw [readSince, readSince, hdeclared.reads]
  -- the variables before it are other nodes
  have hother : v.id ∉ earlier.map Identifier.id := by
    intro hmem
    rw [← hvars, List.map_append, List.map_cons] at hnodup
    exact (List.nodup_append'.1 hnodup).2.2 hmem List.mem_cons_self
  have hclean : before.Fresh v.id := hfresh.after hspares hother
  refine Decides.agree ⟨fun hname => ?_, fun hname hnew => ?_, fun hname hdeclares => ?_⟩ hrenamed
    hredeclared
  · exact introduces_of_cases hclean (declareOne_placeholder htracks hname)
  · rw [← hread]
    exact introduces_of_cases hclean (declareOne_new htracks hname hnew)
  · rw [declareOne_again htracks hname hdeclares]
    exact redeclared_redeclare before v

theorem le_foldl_max {ns : List Nat} {start n : Nat} (h : n ≤ start ∨ n ∈ ns) :
    n ≤ ns.foldl max start := by
  induction ns generalizing start with
  | nil => exact h.resolve_right List.not_mem_nil
  | cons m rest ih =>
    refine ih ?_
    rcases h with h | h
    · exact .inl (Nat.le_trans h (Nat.le_max_left _ _))
    · rcases List.mem_cons.1 h with rfl | h
      · exact .inl (Nat.le_max_right _ _)
      · exact .inr h

/-- **A `local` statement**, where the walk has noted only nodes below the statement's. -/
theorem decided_locals {inner : List Item} {lo hi : NodeId}
    (hwf : (Item.locals id (earlier ++ v :: later) init inner).WellFormed)
    (hr : Rising lo (Item.locals id (earlier ++ v :: later) init inner).numbers hi)
    (ht : t.Tracks (env :: envs)) (hfresh : t.FreshFrom lo) (hearly : ∀ read ∈ t.reads, read.1 < lo) :
    Decides ((Item.locals id (earlier ++ v :: later) init inner).events.foldl step t).annotations
      (env.declare earlier) envs.flatten v (Skeleton.Mentions inner v.name)
      (copiesItself (earlier ++ v :: later) init v.name = true) := by
  obtain ⟨hplain, hinner⟩ := hwf
  obtain ⟨mid, hvars, hrest⟩ := rising_append.1 hr
  obtain ⟨stop, hvalues, -⟩ := rising_append.1 hrest
  have hrun := run_events hinner ht
  rw [Skeleton.bind_plain hplain] at hrun
  have hv : v.id ∈ (earlier ++ v :: later).map Identifier.id :=
    List.mem_map_of_mem (List.mem_append_right _ List.mem_cons_self)
  -- the last variable stands between what the log had before and what the values refer to
  have hlow : v.id ≤ ((earlier ++ v :: later).map Identifier.id).foldl max 0 :=
    le_foldl_max (.inr hv)
  have hhigh : ((earlier ++ v :: later).map Identifier.id).foldl max 0 < mid :=
    foldl_max_lt (Nat.lt_of_le_of_lt (Nat.zero_le _) (hvars.mem hv).2) fun n hn => (hvars.mem hn).2
  have hread := hrun.readSince_iff v.name
    (fun o ho => Nat.lt_of_lt_of_le hhigh (hvalues.mem ((Skeleton.occurrence_ids _ inner).subset
      (List.mem_map_of_mem ho))).1)
    (fun read hread => by
      have hbefore := Nat.lt_of_lt_of_le (hearly read hread) (hvars.mem hv).1
      exact Nat.le_trans (Nat.le_of_lt hbefore) hlow)
  have hclean : Fresh ((Skeleton.events inner).foldl step t) v.id :=
    (hfresh v.id (hvars.mem hv).1).after (spares_events inner t) fun hmem => by
      have hbehind := (hvalues.mem hmem).1
      have hbefore := (hvars.mem hv).2
      omega
  rw [Item.events, List.foldl_append]
  rw [Skeleton.mentions_iff (env ++ envs.flatten), ← hread]
  exact decided_declare hrun.tracks hvars.nodup hclean

end Analysis

end Scope

open Scope

/-- A program has a site for itself and those of its body. -/
theorem Chunk.sites_eq (chunk : Chunk) :
    chunk.sites = ⟨[], [], .scope false none [] (stmtItems chunk.body)⟩ ::
      Skeleton.sites [] [] (stmtItems chunk.body) := by
  simp [Chunk.sites, Chunk.items, Skeleton.sites, Item.sites, Environment.enter, Environment.declare]

/-- What is noted at a site is noted in the program. -/
theorem Chunk.mem_events_of_site (chunk : Chunk) {site : Site} (hsite : site ∈ chunk.sites)
    {event : Event} (hevent : event ∈ site.item.events) : event ∈ Skeleton.events chunk.items := by
  have hitems : Skeleton.events chunk.items =
      (Item.scope false none [] (stmtItems chunk.body)).events := List.append_nil _
  rw [chunk.sites_eq] at hsite
  rcases List.mem_cons.1 hsite with rfl | hsite
  · exact hitems ▸ hevent
  · obtain ⟨-, before, behind, -, -, -, hevents, -⟩ :=
      Skeleton.exists_splits [] (stmtItems_wellFormed chunk.body) hsite
    have hbody : event ∈ Skeleton.events (stmtItems chunk.body) := by
      rw [hevents]
      exact List.mem_append_right _ (List.mem_append_left _ hevent)
    rw [hitems]
    exact List.mem_cons_of_mem _ (List.mem_append_right _ (List.mem_append_left _ hbody))

/-- **Every `local` statement of a program is decided about** by what its values mention. -/
theorem Chunk.decides (chunk : Chunk) {hi : NodeId}
    (hr : Rising 0 (Skeleton.numbers chunk.items) hi) {site : Site} (hsite : site ∈ chunk.sites)
    {id : NodeId} {init : List Expr} {inner : List Item} {earlier later : List Identifier}
    {v : Identifier} (hitem : site.item = .locals id (earlier ++ v :: later) init inner) :
    Analysis.Decides (analyse (Skeleton.events chunk.items)).annotations
      (site.own.declare earlier) site.outer v (Skeleton.Mentions inner v.name)
      (Analysis.copiesItself (earlier ++ v :: later) init v.name = true) := by
  rw [chunk.sites_eq] at hsite
  rcases List.mem_cons.1 hsite with rfl | hsite
  · cases hitem
  obtain ⟨hwf, before, behind, low, high, envs, hevents, hnumbers, hlow, houter, htracks⟩ :=
    Skeleton.exists_splits [] (stmtItems_wellFormed chunk.body) hsite
  rw [hitem] at hwf hevents hnumbers
  have hnodup : ((Skeleton.events (stmtItems chunk.body)).flatMap Event.numbers).Nodup :=
    (Skeleton.perm_numbers _).nodup_iff.2 (Skeleton.numbers_chunk chunk ▸ hr).nodup
  rw [Skeleton.numbers_chunk, hnumbers] at hr
  obtain ⟨lo, hbefore, hr⟩ := rising_append.1 hr
  obtain ⟨hi', hown, -⟩ := rising_append.1 hr
  set t := before.foldl Analysis.step (Analysis.opened {} false none) with ht
  -- what is noted in front of the statement is about nodes below its own
  have hfresh : t.FreshFrom lo := fun n hn =>
    (Analysis.freshFrom_start n (Nat.zero_le n)).after (Analysis.spares_foldl_step before _)
      fun hmem => Nat.not_lt.2 hn (hbefore.mem (hlow hmem)).2
  have hearly : ∀ read ∈ t.reads, read.1 < lo := by
    intro read hread
    rcases Analysis.reads_foldl hread with hstart | hmem
    · cases hstart
    · exact (hbefore.mem (hlow hmem)).2
  have hdecides := Analysis.decided_locals hwf hown (htracks _ Analysis.tracks_start) hfresh hearly
  -- what stands behind the statement is about other nodes
  have hspares := Analysis.spares_foldl_step behind
    ((Item.locals id (earlier ++ v :: later) init inner).events.foldl Analysis.step t)
  have hv : v.id ∉ behind.flatMap Event.numbers := by
    intro hmem
    rw [hevents, List.flatMap_append, List.flatMap_append] at hnodup
    refine (List.nodup_append'.1 hnodup.of_append_right).2.2 ?_ hmem
    simp [Item.events, Event.numbers]
  have hend : (Skeleton.events (stmtItems chunk.body)).foldl Analysis.step
      (Analysis.opened {} false none) = behind.foldl Analysis.step
        ((Item.locals id (earlier ++ v :: later) init inner).events.foldl Analysis.step t) := by
    rw [hevents, List.foldl_append, List.foldl_append]
  rw [Analysis.analyse_annotations, hend, ← houter]
  exact hdecides.agree (hspares.renamed v.id hv) (hspares.redeclared v.id hv)

/-- A `local` statement copies its own name: it is `local x = x`. -/
theorem Scope.Analysis.copiesItself_iff {earlier later : List Identifier} {v : Identifier}
    {init : List Expr} {name : String} :
    Analysis.copiesItself (earlier ++ v :: later) init name = true ↔
      earlier = [] ∧ later = [] ∧ ∃ value, init = [value] ∧ value.isName name = true := by
  unfold Analysis.copiesItself
  constructor
  · intro h
    split at h
    next x value hvars =>
      cases earlier with
      | nil =>
        obtain ⟨-, rfl⟩ := List.cons.inj hvars
        exact ⟨rfl, rfl, value, rfl, h⟩
      | cons first rest => simp at hvars
    next => cases h
  · rintro ⟨rfl, rfl, value, rfl, h⟩
    exact h

/-- **The names of locals match the tree.** Let `v` be a variable of a `local` statement whose scope
has declared `site.own` before the statement, and `earlier` by it before `v`. If `v` is new among
these, it has a generated name exactly if its name occurs in the statement's values, also in functions
there, but for the statement `local x = x` where no declaration of `x` is visible. If it is not, it is
marked as declared again, and so is the statement. A placeholder is never marked: it has a generated
name exactly if one is visible. -/
theorem local_names_match_tree (text : String) (chunk : Chunk)
    (hparse : (parse text).result = .ok chunk) (site : Site) (hsite : site ∈ chunk.sites) (id : NodeId)
    (init : List Expr) (earlier later : List Identifier) (v : Identifier)
    (hitem : site.item = .locals id (earlier ++ v :: later) init (exprItems init)) :
    let a := (parse text).annotations
    let declared := site.own.declare earlier
    (v.name ≠ Name.placeholder → ¬ declared.Declares v.name →
      (v.id ∈ a.renamed ↔ Skeleton.Mentions (exprItems init) v.name ∧
        ¬ ((earlier = [] ∧ later = [] ∧ ∃ value, init = [value] ∧ value.isName v.name = true) ∧
          ¬ Environment.Declares (declared ++ site.outer) v.name)) ∧
      (∀ name, a.renamed[v.id]? = some name → ∃ k, name = Analysis.freshName v.name k) ∧
      v.id ∉ a.redeclared) ∧
    (v.name ≠ Name.placeholder → declared.Declares v.name →
      v.id ∈ a.redeclared ∧ id ∈ a.duplicated) ∧
    (v.name = Name.placeholder →
      (v.id ∈ a.renamed ↔ Environment.Declares (declared ++ site.outer) v.name) ∧
      v.id ∉ a.redeclared) := by
  intro a declared
  have hnoted := parse_noted text
  obtain ⟨hi, hrising⟩ := hnoted.numbers chunk hparse
  -- what the walk over the tree decides of the variable
  have hdecides := chunk.decides hrising hsite hitem
  rw [← hnoted.events chunk hparse] at hdecides
  refine ⟨fun hname hnew => ?_, fun hname hdeclares => ?_, fun hname => ?_⟩
  · have hnames := hdecides.new hname hnew
    rw [Analysis.copiesItself_iff] at hnames
    exact ⟨hnames.renamed_iff, hnames.freshName, hnames.unmarked⟩
  · have hagain : v.id ∈ a.redeclared := hdecides.again hname hdeclares
    -- the statement is marked with the variable
    have hevent : .declare id (earlier ++ v :: later) init ∈ Skeleton.events chunk.items :=
      chunk.mem_events_of_site hsite (by simp [hitem, Item.events])
    have hmem : v ∈ earlier ++ v :: later := List.mem_append_right _ List.mem_cons_self
    exact ⟨hagain, (flags_of_parse hparse).statements id _ init hevent ⟨v, hmem, hagain⟩⟩
  · have hnames := hdecides.placeholder hname
    exact ⟨hnames.renamed_iff, hnames.unmarked⟩

/-- A program of one `local` statement with two variables: the statement's identity, the variables and
the values. -/
def Chunk.pair? (chunk : Chunk) : Option (NodeId × Identifier × Identifier × List Expr) :=
  match chunk.body with
  | [⟨id, _, .local [v, w] init⟩] => some (id, v, w, init)
  | _ => none

theorem Chunk.site_of_pair {chunk : Chunk} {id : NodeId} {v w : Identifier} {init : List Expr}
    (h : chunk.pair? = some (id, v, w, init)) :
    ⟨[], [], .locals id [v, w] init (exprItems init)⟩ ∈ chunk.sites := by
  unfold Chunk.pair? at h
  split at h
  next id' span v' w' init' hbody =>
    cases h
    rw [chunk.sites_eq, hbody]
    exact List.mem_cons_of_mem _ List.mem_cons_self
  next => cases h

/-- A statement whose values mention its variables, and that declares its second one again. -/
def mentioningText : String := "local x, x = function() return x end"

theorem local_names_match_tree_mentioningText : ∃ chunk, (parse mentioningText).result = .ok chunk ∧
    ∃ id v w init, chunk.pair? = some (id, v, w, init) ∧
      v.id ∈ (parse mentioningText).annotations.renamed ∧
      w.id ∈ (parse mentioningText).annotations.redeclared ∧
      id ∈ (parse mentioningText).annotations.duplicated := by
  have hany : (parse mentioningText).result.toOption.any (fun chunk => chunk.pair?.any
      fun parts => parts.2.1.name == "x" && parts.2.2.1.name == "x" &&
        (Skeleton.occurrences [] (exprItems parts.2.2.2)).any (·.name == "x")) = true := by
    rw [mentioningText, parse_ofList]
    decide +kernel
  obtain ⟨chunk, hparse, hany⟩ := Parsed.exists_of_any hany
  obtain ⟨⟨id, v, w, init⟩, hpair, htest⟩ := (Option.any_eq_true ..).1 hany
  simp only [Bool.and_eq_true, beq_iff_eq, List.any_eq_true] at htest
  obtain ⟨⟨hv, hw⟩, o, ho, hname⟩ := htest
  have hsite := Chunk.site_of_pair hpair
  obtain ⟨hfirst, -, -⟩ :=
    local_names_match_tree mentioningText chunk hparse _ hsite id init [] [w] v rfl
  obtain ⟨-, hsecond, -⟩ :=
    local_names_match_tree mentioningText chunk hparse _ hsite id init [v] [] w rfl
  -- nothing is declared in front of the first name, and the first is in front of the second
  have hnew : ¬ Environment.Declares (Environment.declare [] []) v.name := by
    rintro ⟨_, hnone⟩
    cases hnone
  have hagain : Environment.Declares (Environment.declare [] [v]) w.name :=
    Environment.declares_declare.2 (.inl (by simp [hv, hw]))
  have hrenamed : v.id ∈ (parse mentioningText).annotations.renamed := by
    refine (hfirst (by rw [hv]; decide) hnew).1.2 ⟨⟨o, ho, hname.trans hv.symm⟩, ?_⟩
    rintro ⟨⟨_, hlater, _⟩, _⟩
    cases hlater
  exact ⟨chunk, hparse, id, v, w, init, hpair, hrenamed, hsecond (by rw [hw]; decide) hagain⟩

/-- **A placeholder that its scope has declared is not marked**: it gets a name of its own. -/
theorem placeholder_is_not_redeclared : ∃ chunk, (parse "local _, _ = 1, 2").result = .ok chunk ∧
    ∃ id v w init, chunk.pair? = some (id, v, w, init) ∧ v.name = w.name ∧
      w.id ∉ (parse "local _, _ = 1, 2").annotations.redeclared ∧
      id ∉ (parse "local _, _ = 1, 2").annotations.duplicated := by
  have hany : (parse "local _, _ = 1, 2").result.toOption.any (fun chunk => chunk.pair?.any
      fun (id, v, w, _) => v.name == w.name &&
        !(parse "local _, _ = 1, 2").annotations.redeclared.contains w.id &&
        !(parse "local _, _ = 1, 2").annotations.duplicated.contains id) = true := by
    rw [parse_ofList]
    decide +kernel
  obtain ⟨chunk, hparse, hany⟩ := Parsed.exists_of_any hany
  obtain ⟨⟨id, v, w, init⟩, hpair, htest⟩ := (Option.any_eq_true ..).1 hany
  simp only [Bool.and_eq_true, beq_iff_eq, Bool.not_eq_true', ← Bool.not_eq_true,
    Std.TreeSet.contains_iff_mem] at htest
  obtain ⟨⟨hname, hmarked⟩, hstatement⟩ := htest
  exact ⟨chunk, hparse, id, v, w, init, hpair, hname, hmarked, hstatement⟩

end LuaCompiler
