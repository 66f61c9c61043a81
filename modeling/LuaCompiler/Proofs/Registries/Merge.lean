import LuaCompiler.Registries
import Mathlib.Tactic.Tauto

/-!
# Merging registries

What is recorded is merged into the registries, and merging is a union of sets: the order does not
count. Two registries agree on some names if asking about these names does not tell them apart; what
is merged into both keeps that.

* `Registries.merge_assoc`, `Registries.merge_right_comm`, `Registries.merge_empty`.
* `Registries.Agree`: registries that cannot be told apart by some names.
-/

namespace LuaCompiler

namespace NameSet

variable {a b : NameSet} {name x : String}

@[simp]
theorem not_mem_empty : name ∉ NameSet.empty := List.not_mem_nil

theorem mem_insertAll {set : NameSet} {names : List String} :
    x ∈ set.insertAll names ↔ x ∈ set ∨ x ∈ names := by
  induction names generalizing set with
  | nil => simp [insertAll]
  | cons first rest ih =>
    change x ∈ (set.insert first).insertAll rest ↔ _
    rw [ih, mem_insert, List.mem_cons]
    tauto

@[simp]
theorem mem_union : x ∈ a.union b ↔ x ∈ a ∨ x ∈ b := mem_insertAll

theorem contains_union : (a.union b).contains name = (a.contains name || b.contains name) := by
  rw [Bool.eq_iff_iff, Bool.or_eq_true, contains_iff, contains_iff, contains_iff, mem_union]

@[simp]
theorem union_empty (a : NameSet) : a.union .empty = a := rfl

end NameSet

namespace Registries

variable {r r' added : Registries} {names : List String} {name : String}

/-- Registries are what is recorded in them. -/
theorem ext {a b : Registries} (hcalls : ∀ n, n ∈ a.systemFunctions ↔ n ∈ b.systemFunctions)
    (hreads : ∀ n, n ∈ a.globalReads ↔ n ∈ b.globalReads)
    (hinitialized : ∀ n, n ∈ a.initializedGlobals ↔ n ∈ b.initializedGlobals) : a = b := by
  obtain ⟨calls, reads, initialized⟩ := a
  obtain ⟨calls', reads', initialized'⟩ := b
  obtain rfl : calls = calls' := NameSet.ext hcalls
  obtain rfl : reads = reads' := NameSet.ext hreads
  obtain rfl : initialized = initialized' := NameSet.ext hinitialized
  rfl

@[simp]
theorem merge_empty (r : Registries) : r.merge .empty = r := rfl

/-- Registries may be merged in any grouping. -/
theorem merge_assoc (a b c : Registries) : (a.merge b).merge c = a.merge (b.merge c) := by
  apply ext
  · simp [merge, or_assoc]
  · simp [merge, or_assoc]
  · simp [merge, or_assoc]

/-- **What is merged can be merged in any order.** -/
theorem merge_right_comm (a b c : Registries) : (a.merge b).merge c = (a.merge c).merge b := by
  apply ext
  · simp [merge, or_right_comm]
  · simp [merge, or_right_comm]
  · simp [merge, or_right_comm]

/-! ## Recording is merging -/

/-- Recording a function is merging what records it alone. -/
theorem recordSystemFunction_eq (r : Registries) (library name : String) :
    r.recordSystemFunction library name = r.merge (empty.recordSystemFunction library name) := by
  apply ext
  · simp [recordSystemFunction, merge, empty, or_comm]
  · simp [recordSystemFunction, merge, empty]
  · simp [recordSystemFunction, merge, empty]

/-- So is recording a global. -/
theorem recordInitializedGlobal_eq (r : Registries) (name : String) :
    r.recordInitializedGlobal name = r.merge (empty.recordInitializedGlobal name) := by
  apply ext
  · simp [recordInitializedGlobal, merge, empty]
  · simp [recordInitializedGlobal, merge, empty]
  · simp [recordInitializedGlobal, merge, empty, or_comm]

/-- The registries that hold some globals that are read. -/
def ofReads (reads : List String) : Registries := { globalReads := .ofList reads }

theorem mem_ofReads {reads : List String} : name ∈ (ofReads reads).globalReads ↔ name ∈ reads := by
  simp [ofReads, NameSet.ofList, NameSet.mem_insertAll]

/-- Reads that are recorded one by one are recorded together. -/
theorem foldl_recordGlobalRead (r : Registries) (reads : List String) :
    reads.foldl recordGlobalRead r = r.merge (ofReads reads) := by
  have hfold : reads.foldl recordGlobalRead r =
      { r with globalReads := r.globalReads.insertAll reads } := by
    induction reads generalizing r with
    | nil => rfl
    | cons first rest ih => exact ih (r.recordGlobalRead first)
  rw [hfold]
  apply ext
  · simp [merge, ofReads]
  · simp [merge, ofReads, NameSet.ofList, NameSet.mem_insertAll]
  · simp [merge, ofReads]

/-! ## Asking -/

theorem isGlobalRead_merge : (r.merge added).isGlobalRead name =
    (r.isGlobalRead name || added.isGlobalRead name) := NameSet.contains_union

theorem isInitializedGlobal_merge : (r.merge added).isInitializedGlobal name =
    (r.isInitializedGlobal name || added.isInitializedGlobal name) := NameSet.contains_union

theorem isGlobalRead_iff : r.isGlobalRead name = true ↔ name ∈ r.globalReads :=
  NameSet.contains_iff

theorem isInitializedGlobal_iff : r.isInitializedGlobal name = true ↔
    name ∈ r.initializedGlobals := NameSet.contains_iff

/-- **Registries that some names cannot tell apart.** -/
def Agree (names : List String) (r r' : Registries) : Prop :=
  ∀ name ∈ names, r.isGlobalRead name = r'.isGlobalRead name ∧
    r.isInitializedGlobal name = r'.isInitializedGlobal name

instance (names : List String) (r r' : Registries) : Decidable (Agree names r r') :=
  inferInstanceAs (Decidable (∀ name ∈ names, _ ∧ _))

theorem Agree.refl (names : List String) (r : Registries) : Agree names r r :=
  fun _ _ => ⟨rfl, rfl⟩

/-- What is recorded besides keeps two registries in agreement. -/
theorem Agree.merge (h : Agree names r r') (added : Registries) :
    Agree names (r.merge added) (r'.merge added) := by
  intro name hname
  obtain ⟨hread, hinitialized⟩ := h name hname
  rw [isGlobalRead_merge, isGlobalRead_merge, isInitializedGlobal_merge, isInitializedGlobal_merge,
    hread, hinitialized]
  exact ⟨rfl, rfl⟩

/-- Merging other names makes no difference. -/
theorem agree_merge (r : Registries) (hreads : ∀ name ∈ names, name ∉ added.globalReads)
    (hinitialized : ∀ name ∈ names, name ∉ added.initializedGlobals) :
    Agree names r (r.merge added) := by
  intro name hname
  have hread : added.isGlobalRead name = false :=
    Bool.eq_false_iff.2 fun h => hreads name hname (isGlobalRead_iff.1 h)
  have hinit : added.isInitializedGlobal name = false :=
    Bool.eq_false_iff.2 fun h => hinitialized name hname (isInitializedGlobal_iff.1 h)
  rw [isGlobalRead_merge, isInitializedGlobal_merge, hread, hinit, Bool.or_false, Bool.or_false]
  exact ⟨rfl, rfl⟩

end Registries

end LuaCompiler
