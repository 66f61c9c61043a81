import LuaCompiler.Proofs.Scope.Declarative
import LuaCompiler.Proofs.Scope.Naming
import LuaCompiler.Proofs.Scope.Renaming

/-!
# What names are bound to

The bindings that are visible at an occurrence are kept under their names, and no identifier is
declared twice among them. So an occurrence that is bound to a declared identifier has its name, also
in generated code.

* `Skeleton.forall_environment`: what holds of all environments of a stretch of program.
* `Annotations.Fit`: what the annotations of a program say about its occurrences, and
  `fit_of_parse`: they say so.
* `Annotations.Fit.resolve_eq`: **the name of an occurrence is that of what it is bound to**.
-/

namespace LuaCompiler

namespace Scope

/-- The name that a binder binds. -/
def Binder.name : Binder → String
  | declared identifier => identifier.name
  | receiver => receiverName

namespace Environment

variable {env : Environment} {name : String} {b : Binder}

/-- What a declaration makes visible. -/
theorem lookup_declare {vars : List Identifier} (h : (env.declare vars).lookup name = some b) :
    (∃ v ∈ vars, v.name = name ∧ b = .declared v) ∨ env.lookup name = some b := by
  rw [declare, List.lookup_append, Option.or_eq_some_iff] at h
  rcases h with h | ⟨-, h⟩
  · obtain ⟨before, behind, heq, -⟩ := List.lookup_eq_some_iff.1 h
    have hmem : (name, b) ∈ (vars.map fun i => (i.name, Binder.declared i)).reverse := by
      rw [heq]
      exact List.mem_append_right _ List.mem_cons_self
    obtain ⟨v, hv, heq⟩ := List.mem_map.1 (List.mem_reverse.1 hmem)
    obtain ⟨rfl, rfl⟩ := Prod.mk.inj heq
    exact .inl ⟨v, hv, rfl, rfl⟩
  · exact .inr h

/-- A declaration hides what was bound to its names. -/
theorem exists_lookup_declare {vars : List Identifier} {v : Identifier} (hv : v ∈ vars) :
    ∃ w ∈ vars, (env.declare vars).lookup v.name = some (.declared w) := by
  have hmem : (v.name, Binder.declared v) ∈ (vars.map fun i => (i.name, Binder.declared i)).reverse :=
    List.mem_reverse.2 (List.mem_map.2 ⟨v, hv, rfl⟩)
  cases hl : (vars.map fun i => (i.name, Binder.declared i)).reverse.lookup v.name with
  | none => exact absurd (List.lookup_eq_none_iff.1 hl _ hmem) (by simp)
  | some b =>
    have hb : declare [] vars = (vars.map fun i => (i.name, Binder.declared i)).reverse :=
      List.append_nil _
    rcases lookup_declare (hb ▸ hl) with ⟨w, hw, -, rfl⟩ | hnil
    · exact ⟨w, hw, by rw [declare, List.lookup_append, hl, Option.some_or]⟩
    · cases hnil

/-- Bindings are kept under their names. -/
def Keyed (env : Environment) : Prop := ∀ entry ∈ env, entry.1 = entry.2.name

theorem Keyed.declare (h : env.Keyed) (vars : List Identifier) : (env.declare vars).Keyed := by
  intro entry hentry
  rcases List.mem_append.1 hentry with hentry | hentry
  · obtain ⟨v, -, rfl⟩ := List.mem_map.1 (List.mem_reverse.1 hentry)
    rfl
  · exact h entry hentry

theorem Keyed.enter (h : env.Keyed) (receiver : Bool) (parameters : Option (List Identifier)) :
    (env.enter receiver parameters).Keyed := by
  refine Keyed.declare (fun entry hentry => ?_) _
  cases receiver with
  | false => exact h entry hentry
  | true =>
    rcases List.mem_cons.1 hentry with rfl | hentry
    · rfl
    · exact h entry hentry

theorem Keyed.name_eq (h : env.Keyed) (hb : env.lookup name = some b) : b.name = name := by
  obtain ⟨before, behind, rfl, -⟩ := List.lookup_eq_some_iff.1 hb
  exact (h (name, b) (List.mem_append_right _ List.mem_cons_self)).symm

/-- A name that is bound to a declared identifier finds it. -/
theorem Keyed.find?_eq (h : env.Keyed) {d : Identifier}
    (hd : env.lookup name = some (.declared d)) : env.find? name = some d := by
  induction env with
  | nil => cases hd
  | cons first rest ih =>
    obtain ⟨hfirst, hrest⟩ := List.forall_mem_cons.1 h
    obtain ⟨key, binder⟩ := first
    rw [List.lookup_cons] at hd
    by_cases hkey : name = key
    · simp only [hkey, BEq.rfl, Option.some.injEq] at hd
      subst hd hkey
      have hname : d.name = name := hfirst.symm
      simp [find?, identifiers, Binder.identifier?, hname]
    · have hne : (name == key) = false := by simpa using hkey
      rw [hne] at hd
      cases binder with
      | receiver => exact ih hrest hd
      | declared e =>
        have hother : (e.name == name) = false := by
          have hname : key = e.name := hfirst
          simpa [← hname] using Ne.symm hkey
        have hcons : identifiers ((key, .declared e) :: rest) = e :: identifiers rest := rfl
        rw [find?, hcons, List.find?_cons, hother]
        exact ih hrest hd

/-- The identities of the declared identifiers, in the order of their declarations. -/
def ids (env : Environment) : List NodeId := (env.identifiers.map Identifier.id).reverse

@[simp]
theorem ids_declare (env : Environment) (vars : List Identifier) :
    (env.declare vars).ids = env.ids ++ vars.map Identifier.id := by
  simp [ids]

@[simp]
theorem ids_enter (env : Environment) (receiver : Bool) (parameters : Option (List Identifier)) :
    (env.enter receiver parameters).ids = env.ids ++ (parameters.getD []).map Identifier.id := by
  simp [ids]

theorem mem_ids {d : Identifier} (h : d ∈ env.identifiers) : d.id ∈ env.ids :=
  List.mem_reverse.2 (List.mem_map_of_mem h)

/-- Identifiers with one identity are one. -/
theorem identifier_eq (h : env.ids.Nodup) {d e : Identifier} (hd : d ∈ env.identifiers)
    (he : e ∈ env.identifiers) (hid : d.id = e.id) : d = e :=
  List.inj_on_of_nodup_map (List.nodup_reverse.1 h) hd he hid

end Environment

namespace Skeleton

/-- **What holds of all environments of a stretch of program**: what declarations and scopes keep. -/
theorem forall_environment {P : Environment → Prop}
    (hdeclare : ∀ env vars, P env → P (Environment.declare env vars))
    (henter : ∀ env receiver parameters, P env → P (Environment.enter env receiver parameters))
    {env : Environment} {items : List Item} (h : P env) {o : Occurrence}
    (ho : o ∈ occurrences env items) : P o.environment := by
  induction items using induction generalizing env with
  | nil => cases ho
  | reference id name rest ih | functionName identifier rest ih =>
    rcases List.mem_cons.1 ho with rfl | ho
    · exact h
    · exact ih h ho
  | locals id vars init inner rest ihInner ih =>
    rcases List.mem_append.1 ho with ho | ho
    · exact ihInner h ho
    · exact ih (hdeclare env vars h) ho
  | localFunction identifier rest ih => exact ih (hdeclare env [identifier] h) ho
  | scope receiver parameters header body rest ihHeader ihBody ih =>
    rcases List.mem_append.1 ho with ho | ho
    · rcases List.mem_append.1 ho with ho | ho
      · exact ihHeader h ho
      · exact ihBody (henter env receiver parameters h) ho
    · exact ih h ho

/-- The identifiers visible at an occurrence are those visible before, and some of the stretch of
program, in its order. -/
theorem sublist_ids {env : Environment} {items : List Item} {o : Occurrence}
    (ho : o ∈ occurrences env items) : o.environment.ids.Sublist (env.ids ++ numbers items) := by
  induction items using induction generalizing env with
  | nil => cases ho
  | reference id name rest ih | functionName identifier rest ih =>
    rcases List.mem_cons.1 ho with rfl | ho
    · exact List.sublist_append_left _ _
    · exact (ih ho).trans (List.Sublist.append_left (List.sublist_cons_self _ _) _)
  | locals id vars init inner rest ihInner ih =>
    rcases List.mem_append.1 ho with ho | ho
    · refine (ihInner ho).trans (List.Sublist.append_left ?_ _)
      simp [numbers, Item.numbers]
    · have hrest := ih ho
      -- what follows is read where the variables are bound, so their identities come first
      rw [Item.bind, Environment.ids_declare, List.append_assoc] at hrest
      refine hrest.trans (List.Sublist.append_left ?_ _)
      simp [numbers, Item.numbers]
  | localFunction identifier rest ih =>
    have hrest := ih ho
    rw [Item.bind, Environment.ids_declare, List.append_assoc] at hrest
    exact hrest
  | scope receiver parameters header body rest ihHeader ihBody ih =>
    rcases List.mem_append.1 ho with ho | ho
    · rcases List.mem_append.1 ho with ho | ho
      · refine (ihHeader ho).trans (List.Sublist.append_left ?_ _)
        simp [numbers, Item.numbers]
      · have hbody := ihBody ho
        rw [Environment.ids_enter, List.append_assoc] at hbody
        refine hbody.trans (List.Sublist.append_left ?_ _)
        simp [numbers, Item.numbers]
    · exact (ih ho).trans (List.Sublist.append_left (List.sublist_append_right _ _) _)

end Skeleton

/-- Nodes with one generated name, or without, have one name. -/
theorem Annotations.resolve_congr {a : Annotations} {id id' : NodeId}
    (h : a.renamed[id]? = a.renamed[id']?) (name : String) : a.resolve id name = a.resolve id' name := by
  rw [resolve, resolve, Std.TreeMap.getD_eq_getD_getElem?, Std.TreeMap.getD_eq_getD_getElem?, h]

/-- **Annotations fit an occurrence**: the bindings visible there are kept under their names and told
apart by their identities, the occurrence is named like the identifier that it sees, and that is its
own name or one generated from it. -/
structure Annotations.Fit (a : Annotations) (o : Occurrence) : Prop where
  keyed : o.environment.Keyed
  nodup : o.environment.ids.Nodup
  resolves : a.Resolves o
  generated : a.renamed[o.id]? = none ∨ ∃ j, a.renamed[o.id]? = some (Analysis.freshName o.name j)

/-- **The name of an occurrence is that of the declared identifier that it is bound to.** -/
theorem Annotations.Fit.resolve_eq {a : Annotations} {o : Occurrence} (h : a.Fit o) {d : Identifier}
    (hd : o.binder? = some (.declared d)) : a.resolve o.id o.name = a.nameOf d := by
  have hname : d.name = o.name := h.keyed.name_eq hd
  have hrenamed := h.resolves.renamed
  rw [h.keyed.find?_eq hd, Option.bind_some] at hrenamed
  rw [nameOf, hname]
  exact resolve_congr hrenamed o.name

end Scope

open Scope

/-- The annotations of a text. -/
def Parsed.annotations (parsed : Parsed) : Annotations := (analyse parsed.events).annotations

/-- **The annotations of a text fit the occurrences of its program.** -/
theorem fit_of_parse {source : String} {chunk : Chunk} (hparse : (parse source).result = .ok chunk)
    {o : Occurrence} (ho : o ∈ chunk.occurrences) : (parse source).annotations.Fit o := by
  obtain ⟨hi, hrising⟩ := (parse_noted source).numbers chunk hparse
  rw [Parsed.annotations, (parse_noted source).events chunk hparse]
  refine ⟨?_, hrising.nodup.sublist (Skeleton.sublist_ids ho), chunk.resolves hrising ho, ?_⟩
  · exact Skeleton.forall_environment (fun _ vars h => h.declare vars)
      (fun _ receiver parameters h => h.enter receiver parameters) (List.forall_mem_nil _) ho
  · exact ((chunk.renames hrising).1 o ho).imp_right fun ⟨_, j, _, hj⟩ => ⟨j, hj⟩

end LuaCompiler
