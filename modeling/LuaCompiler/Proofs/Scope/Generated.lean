import LuaCompiler.Proofs.Emit.Spelling
import LuaCompiler.Proofs.Scope.Binders
import LuaCompiler.Proofs.Scope.Repeated

/-!
# Names of declarations and references

Generated names are numbered through the whole file: each new one takes the next suffix, in the order
in which declarations are made. All other nodes with a generated name have it from a declaration. The
suffix can be read off a generated name, so no two of them are alike.

* `Annotations.anew`: the declared identifiers that got a name of their own.
* `Issues`: **what a stretch of the walk does to the generated names**, with one lemma for each way to
  declare and one for each event, and `issues_foldl_step` for the run.
* `Issues.nodup`: generated names differ.
* `declared_names_agree`: references, repeated declarations and generated names of a text.
-/

namespace LuaCompiler

namespace Scope

/-- The identifiers that have a generated name and do not share it with an earlier declaration. -/
def Annotations.anew (a : Annotations) (declared : List Identifier) : List Identifier :=
  declared.filter fun d => a.renamed.contains d.id && !a.redeclared.contains d.id

@[simp]
theorem Annotations.anew_append (a : Annotations) (first second : List Identifier) :
    a.anew (first ++ second) = a.anew first ++ a.anew second := List.filter_append ..

namespace Analysis

variable {t t' t'' : Analysis} {a : Annotations} {v : Identifier} {generated : String}

/-! ## The suffix of a generated name -/

/-- A generated name ends with its number. -/
theorem toList_freshName (x : String) (k : Nat) :
    ∃ stem, (freshName x k).toList = stem ++ '_' :: (toString k).toList := by
  unfold freshName
  split
  · exact ⟨[], by simp [Name.placeholder]⟩
  · exact ⟨x.toList, by simp⟩

theorem underscore_not_mem_toString (k : Nat) : '_' ∉ (toString k).toList := by
  intro hmem
  rw [Nat.toString_eq_ofList_toDigits, String.toList_ofList] at hmem
  exact absurd (Nat.isDigit_of_mem_toDigits (by decide) (by decide) hmem) (by decide)

/-- **A generated name tells its suffix**: the digits behind its last underscore. -/
theorem suffix_eq_of_freshName {x y : String} {j k : Nat} (h : freshName x j = freshName y k) :
    j = k := by
  obtain ⟨stem, hx⟩ := toList_freshName x j
  obtain ⟨stem', hy⟩ := toList_freshName y k
  have hlast : ∀ (stem : List Char) (n : Nat),
      (stem ++ '_' :: (toString n).toList).reverse.takeWhile (· != '_') =
        (toString n).toList.reverse := by
    intro stem n
    rw [List.reverse_append, List.reverse_cons, List.append_assoc,
      List.takeWhile_append_of_pos]
    · simp
    · intro c hc
      have hne : c ≠ '_' := fun heq =>
        underscore_not_mem_toString n (heq ▸ List.mem_reverse.1 hc)
      simpa using hne
  have hdigits : (toString j).toList.reverse = (toString k).toList.reverse := by
    rw [← hlast stem j, ← hlast stem' k, ← hx, ← hy, h]
  exact Nat.repr_injective (String.toList_injective (List.reverse_injective hdigits))

/-! ## Where generated names come from -/

/-- The walk has handed out a generated name. -/
def Knows (t : Analysis) (generated : String) : Prop :=
  (∃ scope ∈ t.scopes, ∃ name, (name, some generated) ∈ scope) ∨
    ∃ id : NodeId, t.annotations.renamed[id]? = some generated

/-- A name that is bound may be known as one name more. -/
theorem knows_bind {name : String} {g : Option String} (h : (t.bind name g).Knows generated) :
    t.Knows generated ∨ g = some generated := by
  rcases h with ⟨scope, hscope, other, hmem⟩ | ⟨id, hid⟩
  · unfold bind at hscope
    split at hscope
    · exact .inl (.inl ⟨scope, hscope, other, hmem⟩)
    next inner outer heq =>
      rcases List.mem_cons.1 hscope with rfl | hscope
      · rcases List.mem_cons.1 hmem with heq | hmem
        · exact .inr (Prod.mk.inj heq).2.symm
        · exact .inl (.inl ⟨inner, heq ▸ List.mem_cons_self, other, hmem⟩)
      · exact .inl (.inl ⟨scope, heq ▸ List.mem_cons_of_mem _ hscope, other, hmem⟩)
  · rw [bind_annotations] at hid
    exact .inl (.inr ⟨id, hid⟩)

theorem knows_noteRenamed {id : NodeId} {g : String}
    (h : (t.noteRenamed id g).Knows generated) : t.Knows generated ∨ g = generated := by
  rcases h with hscope | ⟨other, hother⟩
  · exact .inl (.inl hscope)
  · by_cases heq : other = id
    · rw [heq, renamed_noteRenamed] at hother
      exact .inr (Option.some.inj hother)
    · have hsame := (frame_noteRenamed t id g).renamed other (by simpa using heq)
      exact .inl (.inr ⟨other, hsame ▸ hother⟩)

/-- What is known depends on the open scopes and the generated names only. -/
theorem Knows.annotate (h : t'.Knows generated) (hscopes : t'.scopes = t.scopes)
    (hrenamed : t'.annotations.renamed = t.annotations.renamed) : t.Knows generated := by
  unfold Knows at h ⊢
  rwa [hscopes, hrenamed] at h

theorem knows_of_lookup {name : String} (h : t.lookup? name = some (some generated)) :
    t.Knows generated := by
  obtain ⟨scope, hscope, hl⟩ := List.exists_of_findSome?_eq_some h
  exact .inl ⟨scope, hscope, name, mem_of_lookup hl⟩

theorem knows_of_innermost {name : String} (h : t.innermost? name = some (some generated)) :
    t.Knows generated := by
  obtain ⟨scope, hscope, hl⟩ := Option.bind_eq_some_iff.1 h
  exact .inl ⟨scope, List.mem_of_mem_head? hscope, name, mem_of_lookup hl⟩

/-- **What a stretch of the walk does to the generated names**: it gives the next suffixes to
identifiers that it declares, in their order, and hands out no other name. -/
structure Issues (a : Annotations) (t : Analysis) (declared : List Identifier) (t' : Analysis) :
    Prop where
  suffix : t'.suffix = t.suffix + (a.anew declared).length
  names : (a.anew declared).map a.nameOf =
    (a.anew declared).mapIdx fun i d => freshName d.name (t.suffix + i + 1)
  known : ∀ generated, t'.Knows generated →
    t.Knows generated ∨ generated ∈ (a.anew declared).map a.nameOf

theorem Issues.refl (a : Annotations) (t : Analysis) : Issues a t [] t := ⟨rfl, rfl, fun _ => .inl⟩

/-- Names issued in a row, from the numbers that are left. -/
theorem Issues.trans {first second : List Identifier} (h : Issues a t first t')
    (h' : Issues a t' second t'') : Issues a t (first ++ second) t'' where
  suffix := by
    rw [h'.suffix, h.suffix, Annotations.anew_append, List.length_append]
    omega
  names := by
    rw [Annotations.anew_append, List.map_append, List.mapIdx_append, h.names, h'.names, h.suffix]
    congr 2
    funext i d
    congr 1
    omega
  known generated hknows := by
    rw [Annotations.anew_append, List.map_append, List.mem_append]
    rcases h'.known generated hknows with hmiddle | hnew
    · exact (h.known generated hmiddle).imp_right .inl
    · exact .inr (.inr hnew)

/-- A stretch that names nothing. -/
theorem issues_none {declared : List Identifier} (hnone : a.anew declared = [])
    (hsuffix : t'.suffix = t.suffix) (hknown : ∀ generated, t'.Knows generated → t.Knows generated) :
    Issues a t declared t' where
  suffix := by simp [hnone, hsuffix]
  names := by simp [hnone]
  known generated hknows := .inl (hknown generated hknows)

/-- What is annotated besides makes no difference. -/
theorem Issues.annotate {declared : List Identifier} (h : Issues a t declared t')
    (hsuffix : t''.suffix = t'.suffix) (hscopes : t''.scopes = t'.scopes)
    (hrenamed : t''.annotations.renamed = t'.annotations.renamed) : Issues a t declared t'' where
  suffix := hsuffix.trans h.suffix
  names := h.names
  known generated hknows := h.known generated (hknows.annotate hscopes hrenamed)

/-- **One declaration.** -/
theorem Declares.issues (h : Declares t v t') (hfresh : t.Fresh v.id) (hagree : Agrees a [v.id] t') :
    Issues a t [v] t' := by
  obtain ⟨hrenamed, hredeclared⟩ := hagree v.id (List.mem_singleton.2 rfl)
  cases h with
  | bind =>
    rw [bind_annotations, hfresh.renamed] at hrenamed
    refine issues_none ?_ (bind_suffix ..) fun generated hknows => ?_
    · have hnot : v.id ∉ a.renamed := by simp [Std.TreeMap.mem_iff_isSome_getElem?, hrenamed]
      simp [Annotations.anew, hnot]
    · exact (knows_bind hknows).resolve_right nofun
  | rename =>
    -- the next number is taken, and nothing later changes what the variable is called
    have hlabel : a.renamed[v.id]? = some (freshName v.name (t.suffix + 1)) := by
      rw [hrenamed]
      simp [Analysis.rename, noteRenamed]
    have hnot : v.id ∉ a.redeclared := by
      rw [hredeclared]
      simpa [Analysis.rename, noteRenamed] using hfresh.redeclared
    have hanew : a.anew [v] = [v] := by
      have hmem : v.id ∈ a.renamed := Std.TreeMap.mem_iff_isSome_getElem?.2 (by simp [hlabel])
      have hcontains : a.redeclared.contains v.id = false := Bool.eq_false_iff.2 (by simpa using hnot)
      simp [Annotations.anew, hmem, hcontains]
    have hname : a.nameOf v = freshName v.name (t.suffix + 1) := by
      simp [Annotations.nameOf, Annotations.resolve, Std.TreeMap.getD_eq_getD_getElem?, hlabel]
    refine ⟨?_, ?_, fun generated hknows => ?_⟩
    · simp [Analysis.rename, noteRenamed, hanew]
    · simp [hanew, hname]
    · rw [hanew, List.map_singleton, List.mem_singleton, hname]
      rcases knows_bind hknows with hnoted | heq
      · rcases knows_noteRenamed hnoted with hbefore | heq
        · exact .inl (hbefore.annotate rfl rfl)
        · exact .inr heq.symm
      · exact .inr (Option.some.inj heq).symm
  | redeclare hinnermost =>
    -- a variable that redeclares takes the name that is there, and issues none
    have hagain : v.id ∈ a.redeclared := by
      rw [hredeclared]
      unfold Analysis.redeclare
      split
      · simp [noteRenamed]
      · simp
    have hanew : a.anew [v] = [] := by simp [Annotations.anew, hagain]
    unfold Analysis.redeclare
    split
    next g hg =>
      refine issues_none hanew rfl fun generated hknows => ?_
      rcases knows_noteRenamed hknows with hbefore | rfl
      · exact hbefore.annotate rfl rfl
      · exact knows_of_innermost hg
    · exact issues_none hanew rfl fun _ hknows => hknows.annotate rfl rfl

/-- **Declarations in a row.** -/
theorem issues_foldl {f : Analysis → Identifier → Analysis} (hf : ∀ t v, Declares t v (f t v))
    {vars : List Identifier} (hnodup : (vars.map Identifier.id).Nodup)
    (hfresh : ∀ v ∈ vars, t.Fresh v.id)
    (hagree : Agrees a (vars.map Identifier.id) (vars.foldl f t)) :
    Issues a t vars (vars.foldl f t) := by
  induction vars generalizing t with
  | nil => exact Issues.refl a t
  | cons v rest ih =>
    obtain ⟨hnot, hrest⟩ := List.nodup_cons.1 hnodup
    obtain ⟨hfirst, hlater⟩ := List.forall_mem_cons.1 hfresh
    have hone : Agrees a [v.id] (f t v) :=
      (hagree.subset (List.cons_subset_cons _ (List.nil_subset _))).before (spares_foldl hf rest _)
        fun id hid => List.mem_singleton.1 hid ▸ hnot
    have hnext := ih hrest
      (fun w hw => (hlater w hw).after (hf t v).spares fun hmem => by
        rw [List.mem_singleton] at hmem
        exact hnot (hmem ▸ List.mem_map_of_mem hw))
      (hagree.subset (List.subset_cons_self _ _))
    exact ((hf t v).issues hfirst hone).trans hnext

/-! ## Events -/

end Analysis

/-- The identities of the nodes that an event is about. -/
def Event.numbers : Event → List NodeId
  | .parameters identifiers => identifiers.map Identifier.id
  | .declare statement vars _ => vars.map Identifier.id ++ [statement]
  | .declareFunction identifier => [identifier.id]
  | .reference id _ => [id]
  | _ => []

/-- The events of a stretch of program are about its nodes, each once. -/
theorem Skeleton.perm_numbers (items : List Item) :
    ((Skeleton.events items).flatMap Event.numbers).Perm (Skeleton.numbers items) := by
  induction items using Skeleton.induction with
  | nil => exact .nil
  | reference id name rest ih | functionName identifier rest ih | localFunction identifier rest ih =>
    exact ih.cons _
  | locals id vars init inner rest ihInner ih =>
    rw [Skeleton.events, Item.events, List.flatMap_append, List.flatMap_append]
    refine List.Perm.append ?_ ih
    have hswap := ihInner.append_right (vars.map Identifier.id ++ [id])
    refine List.Perm.trans (by simpa [Event.numbers] using hswap) ?_
    rw [Item.numbers, ← List.append_assoc, ← List.append_assoc]
    exact List.perm_append_comm.append_right [id]
  | scope receiver parameters header body rest ihHeader ihBody ih =>
    have hparameters : (parameters.map Event.parameters).toList.flatMap Event.numbers =
        (parameters.getD []).map Identifier.id := by
      cases parameters <;> simp [Event.numbers]
    have hbody : ((Event.enter receiver :: ((parameters.map Event.parameters).toList ++
        (Skeleton.events body ++ [.leave]))).flatMap Event.numbers).Perm
        ((parameters.getD []).map Identifier.id ++ Skeleton.numbers body) := by
      simpa [Event.numbers, hparameters] using ihBody.append_left _
    rw [Skeleton.events, Item.events, List.flatMap_append, List.flatMap_append]
    refine List.Perm.append ((ihHeader.append hbody).trans ?_) ih
    rw [Item.numbers, ← List.append_assoc, ← List.append_assoc]
    exact List.perm_append_comm.append_right _

namespace Analysis

variable {t t' : Analysis} {a : Annotations}

/-- An event touches its own numbers. -/
theorem spares_step (t : Analysis) (event : Event) : Spares t event.numbers (t.step event) := by
  cases event with
  | enter receiver | leave => exact ⟨fun _ _ => rfl, fun _ _ => Iff.rfl⟩
  | parameters identifiers => exact spares_foldl declares_parameter identifiers t
  | declare statement vars init =>
    exact (spares_declare t statement vars init).subset (List.subset_append_left _ _)
  | declareFunction identifier => exact (declares_declareFunction t identifier).spares
  | reference id name => exact spares_reference t id name

theorem spares_foldl_step (es : List Event) (t : Analysis) :
    Spares t (es.flatMap Event.numbers) (es.foldl step t) := by
  induction es generalizing t with
  | nil => exact Spares.refl t _
  | cons event rest ih => exact (spares_step t event).trans (ih _)

/-- A reference issues no name. -/
theorem issues_reference (t : Analysis) (id : NodeId) (name : String) :
    Issues a t [] (t.reference id name) := by
  unfold reference
  split
  · exact issues_none rfl rfl fun _ hknows => hknows.annotate rfl rfl
  next g hlookup =>
    dsimp only
    split
    next g =>
      refine issues_none rfl rfl fun generated hknows => ?_
      rcases knows_noteRenamed hknows with hbefore | rfl
      · exact hbefore.annotate rfl rfl
      · exact knows_of_lookup hlookup
    · exact issues_none rfl rfl fun _ hknows => hknows.annotate rfl rfl

/-- **One event.** -/
theorem issues_step (event : Event) (hnodup : event.numbers.Nodup)
    (hfresh : ∀ id ∈ event.numbers, t.Fresh id) (hagree : Agrees a event.numbers (t.step event)) :
    Issues a t event.declared (t.step event) := by
  cases event with
  | enter receiver =>
    refine issues_none rfl rfl fun generated hknows => ?_
    rcases hknows with ⟨scope, hscope, name, hmem⟩ | hrenamed
    · rcases List.mem_cons.1 hscope with rfl | hscope
      · cases hmem
      · exact .inl ⟨scope, hscope, name, hmem⟩
    · exact .inr hrenamed
  | leave =>
    refine issues_none rfl rfl fun generated hknows => ?_
    rcases hknows with ⟨scope, hscope, name, hmem⟩ | hrenamed
    · exact .inl ⟨scope, List.mem_of_mem_tail hscope, name, hmem⟩
    · exact .inr hrenamed
  | parameters identifiers =>
    exact issues_foldl declares_parameter hnodup
      (fun v hv => hfresh v.id (List.mem_map_of_mem hv)) hagree
  | declare statement vars init =>
    -- behind its variables the statement may be marked, which issues no name
    obtain ⟨hscopes, hrenamed, hredeclared⟩ := declare_annotations t statement vars init
    have hsuffix : (t.declare statement vars init).suffix =
        (vars.foldl (declareOne vars init ((vars.map Identifier.id).foldl max 0)) t).suffix := by
      unfold declare
      dsimp only
      split <;> rfl
    have hvars : Agrees a (vars.map Identifier.id) (t.declare statement vars init) :=
      hagree.subset (List.subset_append_left _ _)
    have hfold := issues_foldl (declares_declareOne vars init _) (List.Nodup.of_append_left hnodup)
      (fun v hv => hfresh v.id (List.mem_append_left _ (List.mem_map_of_mem hv)))
      (fun n hn => hrenamed ▸ hredeclared ▸ hvars n hn)
    exact hfold.annotate hsuffix hscopes hrenamed
  | declareFunction identifier =>
    exact (declares_declareFunction t identifier).issues
      (hfresh identifier.id (List.mem_singleton.2 rfl)) hagree
  | reference id name => exact issues_reference t id name

/-- **The walk over events.** -/
theorem issues_foldl_step {es : List Event} (hnodup : (es.flatMap Event.numbers).Nodup)
    (hfresh : ∀ id ∈ es.flatMap Event.numbers, t.Fresh id)
    (hagree : Agrees a (es.flatMap Event.numbers) (es.foldl step t)) :
    Issues a t (es.flatMap Event.declared) (es.foldl step t) := by
  induction es generalizing t with
  | nil => exact Issues.refl a t
  | cons event rest ih =>
    rw [List.flatMap_cons] at hnodup hfresh hagree
    obtain ⟨hone, hrest, happart⟩ := List.nodup_append'.1 hnodup
    have hfirst : Agrees a event.numbers (t.step event) :=
      (hagree.subset (List.subset_append_left _ _)).before (spares_foldl_step rest _)
        fun id hid hmem => happart hid hmem
    have hlater : ∀ id ∈ rest.flatMap Event.numbers, (t.step event).Fresh id := fun id hid =>
      (hfresh id (List.mem_append_right _ hid)).after (spares_step t event)
        fun hmem => happart hmem hid
    exact (issues_step event hone (fun id hid => hfresh id (List.mem_append_left _ hid)) hfirst).trans
      (ih hrest hlater (hagree.subset (List.subset_append_right _ _)))

/-- **Generated names differ.** -/
theorem Issues.nodup {declared : List Identifier} (h : Issues a t declared t') :
    ((a.anew declared).map a.nameOf).Nodup := by
  rw [h.names, List.nodup_iff_injective_getElem]
  intro i j heq
  simp only [List.getElem_mapIdx] at heq
  have hsuffix := suffix_eq_of_freshName heq
  exact Fin.ext (by omega)

end Analysis

end Scope

open Scope

/-- The identifiers that a text declares, in the order in which the parse makes the declarations. -/
def Parsed.declared (parsed : Parsed) : List Identifier := parsed.events.flatMap Event.declared

/-- The names of a program are issued from the first number on. -/
theorem issues_of_parse {source : String} {chunk : Chunk}
    (hparse : (parse source).result = .ok chunk) :
    Analysis.Issues (parse source).annotations {} (parse source).declared
      (analyse (parse source).events) := by
  obtain ⟨hi, hrising⟩ := (parse_noted source).numbers chunk hparse
  have hevents := (parse_noted source).events chunk hparse
  -- identities differ, so that no identifier is declared by two events
  have hnodup : ((parse source).events.flatMap Event.numbers).Nodup := by
    rw [hevents]
    exact (Skeleton.perm_numbers chunk.items).nodup_iff.2 hrising.nodup
  exact Analysis.issues_foldl_step hnodup (fun _ _ => ⟨rfl, fun hmem => nomatch hmem⟩)
    fun _ _ => ⟨rfl, Iff.rfl⟩

/-- **Declarations and references agree on names.** Of a text that parses: what is bound to a
declared identifier has its name; only declared identifiers are marked as declared again, and each
has the name of an earlier one in its scope; the generated names are numbered from one on in the order
of the declarations that made them, no two are alike, and there are no others. -/
theorem declared_names_agree {source : String} {chunk : Chunk}
    (hparse : (parse source).result = .ok chunk) :
    let a := (parse source).annotations
    let anew := a.anew (parse source).declared
    (∀ o ∈ chunk.occurrences, ∀ d, o.binder? = some (.declared d) →
      a.resolve o.id o.name = a.nameOf d) ∧
    (∀ id ∈ a.redeclared, ∃ scope ∈ chunk.scopes, ∃ d ∈ scope, d.id = id) ∧
    (∀ scope ∈ chunk.scopes, ∀ d ∈ scope, d.id ∈ a.redeclared →
      ∃ first, [first, d].Sublist scope ∧ first.name = d.name ∧ a.nameOf first = a.nameOf d) ∧
    anew.map a.nameOf = anew.mapIdx (fun i d => Analysis.freshName d.name (i + 1)) ∧
    (anew.map a.nameOf).Nodup ∧
    ∀ (id : NodeId) generated, a.renamed[id]? = some generated →
      generated ∈ anew.map a.nameOf := by
  have hissues := issues_of_parse hparse
  obtain ⟨hi, hrising⟩ := (parse_noted source).numbers chunk hparse
  have hevents := (parse_noted source).events chunk hparse
  refine ⟨fun o ho d hd => (fit_of_parse hparse ho).resolve_eq hd, fun id hid => ?_,
    fun scope hscope d hd hredeclared => ?_, ?_, hissues.nodup, fun id generated hid => ?_⟩
  · rw [Parsed.annotations, hevents] at hid
    exact chunk.mem_scopes_of_redeclared hid
  · rw [Parsed.annotations, hevents] at hredeclared ⊢
    obtain ⟨first, hsub, hname, hshares⟩ := chunk.repeats hrising hscope d hd hredeclared
    refine ⟨first, hsub, hname, ?_⟩
    rw [Annotations.nameOf, Annotations.nameOf, hname]
    exact Annotations.resolve_congr hshares d.name
  · simpa using hissues.names
  · -- a generated name that is known was known at the start or issued, and at the start none is
    rcases hissues.known generated (.inr ⟨id, hid⟩) with hstart | hmem
    · rcases hstart with ⟨scope, hscope, -⟩ | ⟨other, hother⟩
      · cases hscope
      · cases hother
    · exact hmem

/-- A name that its own initialiser reads, declared again, and placeholders. -/
def repeatingText : String :=
  "local a, _ = 1\ndo local a = a + 1 local a = a local _ = a end"

theorem declared_names_agree_repeatingText : ∃ chunk,
    (parse repeatingText).result = .ok chunk ∧
    ((parse repeatingText).annotations.anew (parse repeatingText).declared).map
      (parse repeatingText).annotations.nameOf = ["a_1", "_2"] ∧
    ∃ scope ∈ chunk.scopes, ∃ d ∈ scope, ∃ first, [first, d].Sublist scope ∧ first.name = d.name ∧
      (parse repeatingText).annotations.nameOf first =
        (parse repeatingText).annotations.nameOf d := by
  have ⟨hgenerated, hagain, hok⟩ :
      ((parse repeatingText).annotations.anew (parse repeatingText).declared).map
        (parse repeatingText).annotations.nameOf = ["a_1", "_2"] ∧
      (parse repeatingText).annotations.redeclared.isEmpty = false ∧
      (parse repeatingText).result.toOption.isSome = true := by
    rw [repeatingText, parse_ofList]
    decide +kernel
  obtain ⟨chunk, hresult⟩ := Parsed.exists_of_isSome hok
  obtain ⟨-, hdeclared, hrepeats, -⟩ := declared_names_agree hresult
  obtain ⟨id, hid⟩ := Std.TreeSet.isEmpty_eq_false_iff_exists_mem.1 hagain
  obtain ⟨scope, hscope, d, hd, rfl⟩ := hdeclared id hid
  exact ⟨chunk, hresult, hgenerated, scope, hscope, d, hd, hrepeats scope hscope d hd hid⟩

end LuaCompiler
