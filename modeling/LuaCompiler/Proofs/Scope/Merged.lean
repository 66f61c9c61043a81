import LuaCompiler.Proofs.Scope.Apart

/-!
# Declarations that are merged

A declaration that is marked as one that declares again takes the name of an earlier one of its scope.
That may be marked itself, but some declaration of the scope is not: the one that all of them are merged
with. A variable of a `local` statement that is thrown away is never marked.

* `Annotations.Joins`: what a declaration shares with the one it is merged with.
* `Annotations.Founded`: **merged declarations have one to be merged with**; `lasting_founded`,
  `founded_of_parse`: they have.
* `placeholder_of_parse`: a placeholder of a `local` statement is never marked.
-/

namespace LuaCompiler

namespace Scope

/-- An identifier is declared under the name of another, which is not declared again itself. -/
structure Annotations.Joins (a : Annotations) (first d : Identifier) : Prop where
  name : first.name = d.name
  renamed : a.renamed[first.id]? = a.renamed[d.id]?
  new : first.id ∉ a.redeclared

/-- **Identifiers that are declared again are merged with an earlier one** of their scope that is not.
-/
def Annotations.Founded (a : Annotations) (declared : List Identifier) : Prop :=
  ∀ d ∈ declared, d.id ∈ a.redeclared → ∃ first, [first, d].Sublist declared ∧ a.Joins first d

/-- Of two identifiers in a row of two lists, the first one stands in the first list, or both stand in
the second. -/
theorem mem_or_sublist_of_append {first d : Identifier} {front behind : List Identifier}
    (h : [first, d].Sublist (front ++ behind)) : first ∈ front ∨ [first, d].Sublist behind := by
  obtain ⟨before, after, heq, hbefore, hafter⟩ := List.sublist_append_iff.1 h
  cases before with
  | nil => exact .inr (heq ▸ hafter)
  | cons head before =>
    obtain ⟨rfl, -⟩ := List.cons.inj heq
    exact .inl (hbefore.subset List.mem_cons_self)

namespace Analysis

variable {t : Analysis} {a : Annotations} {v : Identifier} {vars : List Identifier}

/-- What a name is repeated from is repeated itself, or is what both are merged with. -/
theorem founded_snoc {declared : List Identifier} (h : a.Founded declared)
    (hrepeats : v.id ∈ a.redeclared → ∃ first ∈ declared, first.name = v.name ∧
      a.renamed[first.id]? = a.renamed[v.id]?) : a.Founded (declared ++ [v]) := by
  intro d hd hredeclared
  rcases List.mem_append.1 hd with hd | hd
  · obtain ⟨first, hsub, hjoins⟩ := h d hd hredeclared
    exact ⟨first, hsub.trans (List.sublist_append_left _ _), hjoins⟩
  · obtain rfl := List.mem_singleton.1 hd
    have hbehind {first : Identifier} (hfirst : first ∈ declared) :
        [first, d].Sublist (declared ++ [d]) :=
      (List.singleton_sublist.2 hfirst).append (List.Sublist.refl [d])
    obtain ⟨before, hbefore, hname, hrenamed⟩ := hrepeats hredeclared
    by_cases hagain : before.id ∈ a.redeclared
    · obtain ⟨first, hsub, hjoins⟩ := h before hbefore hagain
      have hfirst : first ∈ declared := hsub.subset List.mem_cons_self
      exact ⟨first, hbehind hfirst,
        ⟨hjoins.name.trans hname, hjoins.renamed.trans hrenamed, hjoins.new⟩⟩
    · exact ⟨before, hbehind hbefore, ⟨hname, hrenamed, hagain⟩⟩

/-- **Merging lasts.** -/
theorem lasting_founded (a : Annotations) : Lasting a a.Founded where
  nil _ hd := nomatch hd
  snoc := by
    intro t t' v env envs h hfresh hagree ht hfounded
    refine founded_snoc hfounded fun hagain => ?_
    -- the repetition of a name is read off the scope with the name alone
    obtain ⟨first, hsub, hshares⟩ := (lasting_repeats a).snoc h hfresh hagree ht
      (fun d hd hmarked => (hfounded d hd hmarked).imp fun first hfirst =>
        ⟨hfirst.1, hfirst.2.name, hfirst.2.renamed⟩) v (by simp) hagain
    refine ⟨first, (mem_or_sublist_of_append hsub).resolve_right fun hend => ?_, hshares⟩
    have hlength := hend.length_le
    simp at hlength

/-! ## Placeholders -/

/-- A placeholder of a `local` statement is bound or renamed. -/
theorem redeclared_placeholder (init : List Expr) (last : NodeId) (t : Analysis)
    (hv : v.name = Name.placeholder) :
    (declareOne vars init last t v).annotations.redeclared = t.annotations.redeclared := by
  unfold declareOne
  rw [if_pos hv]
  split
  · rw [rename, bind_annotations]
    rfl
  · rw [bind_annotations]

/-- What a `local` statement marks is a variable that is kept. -/
theorem redeclared_declare {statement : NodeId} {init : List Expr} {id : NodeId}
    (h : id ∈ (t.declare statement vars init).annotations.redeclared) :
    id ∈ t.annotations.redeclared ∨ ∃ v ∈ vars, v.id = id ∧ v.name ≠ Name.placeholder := by
  rw [(declare_annotations t statement vars init).2.2] at h
  generalize (vars.map Identifier.id).foldl max 0 = last at h
  suffices hall : ∀ (rest : List Identifier) (t : Analysis), rest ⊆ vars →
      id ∈ (rest.foldl (declareOne vars init last) t).annotations.redeclared →
      id ∈ t.annotations.redeclared ∨ ∃ v ∈ vars, v.id = id ∧ v.name ≠ Name.placeholder from
    hall vars t (List.Subset.refl _) h
  intro rest
  induction rest with
  | nil => exact fun t _ h => .inl h
  | cons v rest ih =>
    intro t hsub h
    obtain ⟨hv, hrest⟩ := List.cons_subset.1 hsub
    rcases ih _ hrest h with hmem | hvar
    · by_cases hname : v.name = Name.placeholder
      · exact .inl (redeclared_placeholder init last t hname ▸ hmem)
      · by_cases hid : v.id = id
        · exact .inr ⟨v, hv, hid, hname⟩
        · have hspares := (declares_declareOne vars init last t v).spares
          exact .inl ((hspares.redeclared id (by simpa using Ne.symm hid)).1 hmem)
    · exact .inr hvar

/-- **A placeholder of a `local` statement is not marked**, if each node is met once. -/
theorem placeholder_foldl {es : List Event} (hnodup : (es.flatMap Event.numbers).Nodup)
    (hfresh : ∀ id ∈ es.flatMap Event.numbers, t.Fresh id) {statement : NodeId} {init : List Expr}
    (hmem : .declare statement vars init ∈ es) (hv : v ∈ vars) (hname : v.name = Name.placeholder) :
    v.id ∉ (es.foldl step t).annotations.redeclared := by
  induction es generalizing t with
  | nil => cases hmem
  | cons event rest ih =>
    rw [List.flatMap_cons] at hnodup hfresh
    obtain ⟨hfirst, hrest, happart⟩ := List.nodup_append'.1 hnodup
    rw [List.foldl_cons]
    rcases List.mem_cons.1 hmem with rfl | hmem
    · have hid : v.id ∈ (Event.declare statement vars init).numbers :=
        List.mem_append_left _ (List.mem_map_of_mem hv)
      intro hmarked
      have hbefore := ((spares_foldl_step rest _).redeclared v.id fun h => happart hid h).1 hmarked
      rcases redeclared_declare hbefore with hstart | ⟨w, hw, hsame, hkept⟩
      · exact (hfresh v.id (List.mem_append_left _ hid)).redeclared hstart
      · -- the variables of a statement have numbers of their own
        have hvars : (vars.map Identifier.id).Nodup := (List.nodup_append'.1 hfirst).1
        obtain rfl := List.inj_on_of_nodup_map hvars hw hv hsame
        exact hkept hname
    · refine ih hrest (fun id hid => ?_) hmem
      exact (hfresh id (List.mem_append_right _ hid)).after (spares_step t event)
        fun h => happart h hid

end Analysis

end Scope

/-! ## Texts -/

open Scope

variable {source : String} {chunk : Chunk}

theorem founded_of_parse (hparse : (parse source).result = .ok chunk) {scope : List Identifier}
    (hscope : scope ∈ chunk.scopes) : (parse source).annotations.Founded scope := by
  obtain ⟨hi, hrising⟩ := (parse_noted source).numbers chunk hparse
  rw [Parsed.annotations, (parse_noted source).events chunk hparse]
  exact chunk.forall_scopes hrising (Analysis.lasting_founded _) hscope

theorem placeholder_of_parse (hparse : (parse source).result = .ok chunk) {statement : NodeId}
    {vars : List Identifier} {init : List Expr}
    (hmem : .declare statement vars init ∈ Skeleton.events chunk.items) {v : Identifier}
    (hv : v ∈ vars) (hname : v.name = Name.placeholder) :
    v.id ∉ (parse source).annotations.redeclared := by
  obtain ⟨hi, hrising⟩ := (parse_noted source).numbers chunk hparse
  rw [Parsed.annotations, (parse_noted source).events chunk hparse]
  exact Analysis.placeholder_foldl ((Skeleton.perm_numbers chunk.items).nodup_iff.2 hrising.nodup)
    (fun _ _ => ⟨rfl, Std.TreeSet.not_mem_emptyc⟩) hmem hv hname

end LuaCompiler
