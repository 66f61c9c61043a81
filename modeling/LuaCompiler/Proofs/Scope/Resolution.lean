import LuaCompiler.Proofs.Scope.Skeleton

/-!
# Resolution of names

Lua's lexical scoping, by recursion on the skeleton of a program. An occurrence of a name comes with
the bindings that are visible where it stands, innermost first; the first one for its name is what
it is bound to, and without one it is free.

* `Item.bind`: what is visible behind an item.
* `Skeleton.occurrences`: the occurrences of names in a stretch of program.
* `Skeleton.occurrence_ids`: they have identities of the skeleton, in its order.
-/

namespace LuaCompiler

namespace Scope

/-- What a name can be bound to: a declared identifier, or the receiver of a method. -/
inductive Binder where
  | declared (identifier : Identifier)
  | receiver

/-- The visible bindings, innermost first. -/
abbrev Environment := List (String × Binder)

namespace Environment

/-- Makes identifiers visible, the last one innermost. -/
def declare (env : Environment) (identifiers : List Identifier) : Environment :=
  (identifiers.map fun i => (i.name, Binder.declared i)).reverse ++ env

/-- What is visible at the start of a scope. -/
def enter (env : Environment) (receiver : Bool) (parameters : Option (List Identifier)) :
    Environment :=
  declare ((if receiver then [(receiverName, .receiver)] else []) ++ env) (parameters.getD [])

/-- Whether a declared identifier of a name is visible, also one that a receiver hides. -/
def Declares (env : Environment) (name : String) : Prop :=
  ∃ identifier, (name, Binder.declared identifier) ∈ env

theorem declares_declare {env : Environment} {identifiers : List Identifier} {name : String} :
    (env.declare identifiers).Declares name ↔
      name ∈ identifiers.map Identifier.name ∨ env.Declares name := by
  simp only [Declares, declare, List.mem_append, List.mem_reverse, List.mem_map, exists_or]
  refine or_congr ⟨?_, ?_⟩ Iff.rfl
  · rintro ⟨i, j, hj, heq⟩
    obtain ⟨rfl, -⟩ := Prod.mk.inj heq
    exact ⟨j, hj, rfl⟩
  · rintro ⟨i, hi, rfl⟩
    exact ⟨i, i, hi, rfl⟩

end Environment

/-- An occurrence of a name, with the bindings visible there. -/
structure Occurrence where
  id : NodeId
  name : String
  environment : Environment

namespace Occurrence

/-- **What an occurrence is bound to.** -/
def binder? (o : Occurrence) : Option Binder := o.environment.lookup o.name

/-- An occurrence where more is visible outside. -/
def within (o : Occurrence) (outer : Environment) : Occurrence :=
  { o with environment := o.environment ++ outer }

@[simp]
theorem within_id (o : Occurrence) (outer : Environment) : (o.within outer).id = o.id := rfl

@[simp]
theorem within_name (o : Occurrence) (outer : Environment) : (o.within outer).name = o.name := rfl

/-- Whether an occurrence is bound to nothing. -/
def isFree (o : Occurrence) : Bool := o.binder?.isNone

/-- An occurrence that is not bound to a receiver sees a declared identifier of its name exactly if
it is bound. -/
theorem declares_iff {o : Occurrence} (h : o.binder? ≠ some .receiver) :
    o.environment.Declares o.name ↔ o.isFree = false := by
  unfold isFree binder? at *
  generalize o.environment = env at *
  generalize o.name = name at *
  induction env with
  | nil => simp [Environment.Declares]
  | cons first rest ih =>
    obtain ⟨key, binder⟩ := first
    rw [List.lookup_cons] at h ⊢
    by_cases hkey : name = key
    · subst hkey
      cases binder with
      | declared i => simp [Environment.Declares]
      | receiver => simp at h
    · have hne : (name == key) = false := by simpa using hkey
      rw [hne] at h ⊢
      rw [← ih h]
      simp [Environment.Declares, hkey]

theorem not_declares_of_isFree {o : Occurrence} (h : o.isFree = true) :
    ¬ o.environment.Declares o.name := by
  rintro ⟨identifier, hmem⟩
  have hnone : o.environment.lookup o.name = none := by simpa [isFree, binder?] using h
  rw [List.lookup_eq_none_iff] at hnone
  simpa using hnone _ hmem

end Occurrence

/-- **What is visible behind an item.** -/
def Item.bind (env : Environment) : Item → Environment
  | .locals _ vars _ _ => env.declare vars
  | .localFunction identifier => env.declare [identifier]
  | _ => env

mutual

/-- The occurrences in an item, where some bindings are visible. -/
def Item.occurrences (env : Environment) : Item → List Occurrence
  | .reference id name => [⟨id, name, env⟩]
  | .functionName identifier => [⟨identifier.id, identifier.name, env⟩]
  | .locals _ _ _ inner => Skeleton.occurrences env inner
  | .localFunction _ => []
  | .scope receiver parameters header body =>
    Skeleton.occurrences env header ++ Skeleton.occurrences (env.enter receiver parameters) body

/-- **The occurrences of names** in a stretch of program, where some bindings are visible before it.
-/
def Skeleton.occurrences (env : Environment) : List Item → List Occurrence
  | [] => []
  | first :: rest => first.occurrences env ++ Skeleton.occurrences (first.bind env) rest

end

theorem Environment.declare_append (env outer : Environment) (identifiers : List Identifier) :
    Environment.declare (env ++ outer) identifiers = env.declare identifiers ++ outer := by
  simp [Environment.declare]

theorem Environment.enter_append (outer : Environment) (receiver : Bool)
    (parameters : Option (List Identifier)) :
    Environment.enter outer receiver parameters =
      Environment.enter [] receiver parameters ++ outer := by
  cases receiver <;> simp [Environment.enter, Environment.declare]

/-- What an item binds comes before what was visible. -/
theorem Item.bind_append (env outer : Environment) (item : Item) :
    item.bind (env ++ outer) = item.bind env ++ outer := by
  cases item <;> simp [Item.bind, Environment.declare_append]

namespace Skeleton

/-- What is visible behind a stretch of program. -/
def bind (env : Environment) (items : List Item) : Environment := items.foldl Item.bind env

/-- Plain items change nothing for what stands behind them. -/
theorem bind_plain {items : List Item} (h : Plain items) (env : Environment) :
    bind env items = env := by
  induction items with
  | nil => rfl
  | cons first rest ih =>
    obtain ⟨hfirst, hrest⟩ := plain_cons.1 h
    have hbind : first.bind env = env := by
      cases first <;> first | rfl | simp [Item.isPlain] at hfirst
    rw [bind, List.foldl_cons, hbind]
    exact ih hrest

theorem occurrences_single (env : Environment) (item : Item) :
    occurrences env [item] = item.occurrences env := List.append_nil _

/-- The bindings visible before a stretch of program stay visible, if hidden, at its occurrences. -/
theorem suffix_environment {env : Environment} {items : List Item} {o : Occurrence}
    (ho : o ∈ occurrences env items) : env <:+ o.environment := by
  induction items using induction generalizing env with
  | nil => cases ho
  | reference id name rest ih =>
    rcases List.mem_cons.1 ho with rfl | ho
    · exact List.suffix_refl env
    · exact ih ho
  | functionName identifier rest ih =>
    rcases List.mem_cons.1 ho with rfl | ho
    · exact List.suffix_refl env
    · exact ih ho
  | locals id vars init inner rest ihInner ih =>
    rcases List.mem_append.1 ho with ho | ho
    · exact ihInner ho
    · exact (List.suffix_append _ env).trans (ih ho)
  | localFunction identifier rest ih => exact (List.suffix_append _ env).trans (ih ho)
  | scope receiver parameters header body rest ihHeader ihBody ih =>
    rcases List.mem_append.1 ho with ho | ho
    · rcases List.mem_append.1 ho with ho | ho
      · exact ihHeader ho
      · rw [Environment.enter_append] at ho
        exact (List.suffix_append _ env).trans (ihBody ho)
    · exact ih ho

/-- A free occurrence stands where no identifier of its name was declared before. -/
theorem not_declares_of_isFree {env : Environment} {items : List Item} {o : Occurrence}
    (ho : o ∈ occurrences env items) (hfree : o.isFree = true) : ¬ env.Declares o.name := by
  rintro ⟨identifier, hmem⟩
  exact Occurrence.not_declares_of_isFree hfree ⟨identifier, (suffix_environment ho).subset hmem⟩

/-- What is visible outside stays visible inside, behind all that is bound there. -/
theorem occurrences_append (env outer : Environment) (items : List Item) :
    occurrences (env ++ outer) items = (occurrences env items).map (·.within outer) := by
  induction items using induction generalizing env outer with
  | nil => rfl
  | reference id name rest ih => exact congrArg (⟨id, name, env ++ outer⟩ :: ·) (ih env outer)
  | functionName identifier rest ih =>
    exact congrArg (⟨identifier.id, identifier.name, env ++ outer⟩ :: ·) (ih env outer)
  | locals id vars init inner rest ihInner ih =>
    simp only [occurrences, Item.occurrences, Item.bind, List.map_append]
    rw [ihInner env outer, Environment.declare_append, ih (env.declare vars) outer]
  | localFunction identifier rest ih =>
    simp only [occurrences, Item.occurrences, Item.bind, List.nil_append]
    rw [Environment.declare_append, ih (env.declare [identifier]) outer]
  | scope receiver parameters header body rest ihHeader ihBody ih =>
    simp only [occurrences, Item.occurrences, Item.bind, List.map_append]
    rw [ihHeader env outer, Environment.enter_append (env ++ outer), ← List.append_assoc,
      ← Environment.enter_append, ihBody (env.enter receiver parameters) outer, ih env outer]

/-- Occurrences have identities of the skeleton, in its order. -/
theorem occurrence_ids (env : Environment) (items : List Item) :
    ((occurrences env items).map Occurrence.id).Sublist (numbers items) := by
  induction items using induction generalizing env with
  | nil => exact List.Sublist.refl []
  | reference id name rest ih => exact (ih env).cons_cons id
  | functionName identifier rest ih => exact (ih env).cons_cons identifier.id
  | locals id vars init inner rest ihInner ih =>
    have h := (ihInner env).append (ih (env.declare vars))
    simp only [occurrences, Item.occurrences, Item.bind, List.map_append, numbers, Item.numbers]
    refine h.trans ?_
    simp
  | localFunction identifier rest ih => exact (ih _).cons identifier.id
  | scope receiver parameters header body rest ihHeader ihBody ih =>
    have h := (ihHeader env).append ((ihBody (env.enter receiver parameters)).append (ih env))
    simp only [occurrences, Item.occurrences, Item.bind, List.map_append, numbers, Item.numbers,
      List.append_assoc]
    exact h.trans (List.sublist_append_right _ _)

/-- The names that occur in a stretch of program are noted. -/
theorem reference_mem_events {env : Environment} {items : List Item} {o : Occurrence}
    (h : o ∈ occurrences env items) : .reference o.id o.name ∈ events items := by
  induction items using induction generalizing env with
  | nil => cases h
  | reference id name rest ih | functionName identifier rest ih =>
    rcases List.mem_cons.1 h with rfl | h
    · exact List.mem_cons_self
    · exact List.mem_cons_of_mem _ (ih h)
  | locals id vars init inner rest ihInner ih =>
    rcases List.mem_append.1 h with h | h
    · exact List.mem_append_left _ (List.mem_append_left _ (ihInner h))
    · exact List.mem_append_right _ (ih h)
  | localFunction identifier rest ih => exact List.mem_cons_of_mem _ (ih h)
  | scope receiver parameters header body rest ihHeader ihBody ih =>
    rcases List.mem_append.1 h with h | h
    · refine List.mem_append_left _ ?_
      rcases List.mem_append.1 h with h | h
      · exact List.mem_append_left _ (ihHeader h)
      · refine List.mem_append_right _ (List.mem_cons_of_mem _ (List.mem_append_right _ ?_))
        exact List.mem_append_left _ (ihBody h)
    · exact List.mem_append_right _ (ih h)

end Skeleton

end Scope

/-- The occurrences of names in a program. -/
def Chunk.occurrences (chunk : Chunk) : List Scope.Occurrence :=
  Scope.Skeleton.occurrences [] chunk.items

theorem Chunk.occurrences_eq (chunk : Chunk) :
    chunk.occurrences = Scope.Skeleton.occurrences [] (stmtItems chunk.body) := by
  simp [Chunk.occurrences, Chunk.items, Scope.Skeleton.occurrences, Scope.Item.occurrences,
    Scope.Environment.enter, Scope.Environment.declare]

end LuaCompiler
