/-!
# Sets of names

A finite set of names, kept as a strictly rising list, so that two sets with the same members are
equal: `NameSet.ext`. The order is that of code points, which is the order of UTF-8 bytes.
-/

namespace LuaCompiler

/-- A finite set of names in rising order. -/
structure NameSet where
  names : List String
  rising : names.Pairwise (· < ·)

namespace NameSet

/-- The set without members. -/
def empty : NameSet := ⟨[], .nil⟩

instance : Membership String NameSet := ⟨fun set name => name ∈ set.names⟩

/-- Puts a name at its place in a rising list. -/
def insertInto (name : String) : List String → List String
  | [] => [name]
  | other :: rest =>
    if name < other then name :: other :: rest
    else if name = other then other :: rest
    else other :: insertInto name rest

theorem mem_insertInto (name x : String) (names : List String) :
    x ∈ insertInto name names ↔ x = name ∨ x ∈ names := by
  induction names with
  | nil => simp [insertInto]
  | cons other rest ih =>
    unfold insertInto
    split
    · simp
    · split
      · rename_i h
        subst h
        simp
      · simp only [List.mem_cons, ih]
        grind

theorem pairwise_insertInto (name : String) (names : List String)
    (h : names.Pairwise (· < ·)) : (insertInto name names).Pairwise (· < ·) := by
  induction names with
  | nil => simp [insertInto]
  | cons other rest ih =>
    obtain ⟨hother, hrest⟩ := List.pairwise_cons.1 h
    unfold insertInto
    split
    · rename_i hlt
      refine List.pairwise_cons.2 ⟨fun x hx => ?_, h⟩
      rcases List.mem_cons.1 hx with rfl | hx
      · exact hlt
      · exact String.lt_trans hlt (hother x hx)
    · split
      · exact h
      · rename_i hnlt hne
        refine List.pairwise_cons.2 ⟨fun x hx => ?_, ih hrest⟩
        rcases (mem_insertInto name x rest).1 hx with rfl | hx
        · rcases Std.lt_trichotomy x other with hlt | heq | hgt
          · exact absurd hlt hnlt
          · exact absurd heq hne
          · exact hgt
        · exact hother x hx

/-- Adds a name. -/
def insert (set : NameSet) (name : String) : NameSet :=
  ⟨insertInto name set.names, pairwise_insertInto name set.names set.rising⟩

/-- Whether a name is a member. -/
def contains (set : NameSet) (name : String) : Bool :=
  set.names.contains name

/-- Adds every name of a list. -/
def insertAll (set : NameSet) (names : List String) : NameSet :=
  names.foldl insert set

/-- The set of the names in a list. -/
def ofList (names : List String) : NameSet :=
  empty.insertAll names

/-- The members of either set. -/
def union (a b : NameSet) : NameSet :=
  a.insertAll b.names

@[simp]
theorem mem_insert {set : NameSet} {name x : String} :
    x ∈ set.insert name ↔ x = name ∨ x ∈ set :=
  mem_insertInto name x set.names

@[simp]
theorem contains_iff {set : NameSet} {name : String} : set.contains name = true ↔ name ∈ set := by
  simp [contains, Membership.mem]

/-- **Sets with the same members are equal.** -/
theorem ext {a b : NameSet} (h : ∀ name, name ∈ a ↔ name ∈ b) : a = b := by
  obtain ⟨as, ha⟩ := a
  obtain ⟨bs, hb⟩ := b
  have hnodup {l : List String} (hl : l.Pairwise (· < ·)) : l.Nodup := by
    refine List.Pairwise.imp (fun {x y} (hlt : x < y) => ?_) hl
    rintro rfl
    exact String.lt_irrefl _ hlt
  have hperm : as.Perm bs := (List.perm_ext_iff_of_nodup (hnodup ha) (hnodup hb)).2 h
  have : as = bs := hperm.eq_of_pairwise
    (fun _ _ _ _ hlt hgt => absurd (String.lt_trans hlt hgt) (String.lt_irrefl _)) ha hb
  subst this
  rfl

end NameSet

end LuaCompiler
