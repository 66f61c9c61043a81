/-!
# Rising numbers

Identities are given out by counting. `Rising lo ns hi` says that the numbers `ns` were given out in
this order while a counter went from `lo` to `hi`.
-/

namespace LuaCompiler

/-- Numbers that rise strictly, from `lo` on and below `hi`. -/
def Rising (lo : Nat) : List Nat → Nat → Prop
  | [], hi => lo ≤ hi
  | n :: ns, hi => lo ≤ n ∧ Rising (n + 1) ns hi

theorem Rising.le {lo hi : Nat} {ns : List Nat} (h : Rising lo ns hi) : lo ≤ hi := by
  induction ns generalizing lo with
  | nil => exact h
  | cons n ns ih =>
    have := ih h.2
    have := h.1
    omega

theorem rising_append {lo hi : Nat} {a b : List Nat} :
    Rising lo (a ++ b) hi ↔ ∃ mid, Rising lo a mid ∧ Rising mid b hi := by
  induction a generalizing lo with
  | nil =>
    refine ⟨fun h => ⟨lo, Nat.le_refl lo, h⟩, fun ⟨mid, hle, h⟩ => ?_⟩
    cases b with
    | nil => exact Nat.le_trans hle h
    | cons n ns => exact ⟨Nat.le_trans hle h.1, h.2⟩
  | cons n ns ih =>
    simp only [List.cons_append, Rising, ih]
    constructor
    · rintro ⟨hlo, mid, ha, hb⟩
      exact ⟨mid, ⟨hlo, ha⟩, hb⟩
    · rintro ⟨mid, ⟨hlo, ha⟩, hb⟩
      exact ⟨hlo, mid, ha, hb⟩

theorem Rising.mem {lo hi n : Nat} {ns : List Nat} (h : Rising lo ns hi) (hn : n ∈ ns) :
    lo ≤ n ∧ n < hi := by
  induction ns generalizing lo with
  | nil => cases hn
  | cons m ns ih =>
    rcases List.mem_cons.1 hn with rfl | hn
    · exact ⟨h.1, h.2.le⟩
    · have := ih h.2 hn
      have := h.1
      omega

theorem Rising.nodup {lo hi : Nat} {ns : List Nat} (h : Rising lo ns hi) : ns.Nodup := by
  induction ns generalizing lo with
  | nil => exact List.nodup_nil
  | cons n ns ih =>
    refine List.nodup_cons.2 ⟨fun hn => ?_, ih h.2⟩
    have := (h.2.mem hn).1
    omega

theorem Rising.mono {lo lo' hi hi' : Nat} {ns : List Nat} (h : Rising lo ns hi) (hlo : lo' ≤ lo)
    (hhi : hi ≤ hi') : Rising lo' ns hi' := by
  induction ns generalizing lo lo' with
  | nil => exact Nat.le_trans hlo (Nat.le_trans h hhi)
  | cons n ns ih => exact ⟨Nat.le_trans hlo h.1, ih h.2 (Nat.le_refl _)⟩

theorem Rising.pairwise {lo hi : Nat} {ns : List Nat} (h : Rising lo ns hi) :
    ns.Pairwise (· < ·) := by
  induction ns generalizing lo with
  | nil => exact .nil
  | cons n ns ih => exact List.pairwise_cons.2 ⟨fun m hm => (h.2.mem hm).1, ih h.2⟩

theorem Rising.add_length_le {lo hi : Nat} {ns : List Nat} (h : Rising lo ns hi) :
    lo + ns.length ≤ hi := by
  induction ns generalizing lo with
  | nil => exact h
  | cons n ns ih =>
    have hrest := ih h.2
    have hfirst := h.1
    rw [List.length_cons]
    omega

/-- As many rising numbers as there are between two bounds are all of them. -/
theorem Rising.eq_range {lo hi : Nat} {ns : List Nat} (h : Rising lo ns hi)
    (hlength : lo + ns.length = hi) : ns = List.range' lo ns.length := by
  induction ns generalizing lo with
  | nil => rfl
  | cons n ns ih =>
    have hfirst := h.1
    have hrest := h.2.add_length_le
    rw [List.length_cons] at hlength
    obtain rfl : n = lo := by omega
    rw [List.length_cons, List.range'_succ, ← ih h.2 (by omega)]

end LuaCompiler
