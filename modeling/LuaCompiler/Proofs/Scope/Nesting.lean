import LuaCompiler.Proofs.Scope.Skeleton

/-!
# Nesting of scopes

A scope is closed only after it was opened: `Nested` says so of a list of events, which may leave
scopes open. The events of a skeleton are nested and leave none open.

* `Skeleton.nested_events`, `Skeleton.closed_events`: the events of a skeleton.
* `Nested.scope`: an opened scope can be closed behind nested events.
-/

namespace LuaCompiler.Scope

/-- Whether an event opens a scope. -/
def Event.isEnter : Event → Bool
  | .enter _ => true
  | _ => false

/-- Whether an event closes a scope. -/
def Event.isLeave : Event → Bool
  | .leave => true
  | _ => false

/-- The number of scopes that events open. -/
def opened (es : List Event) : Nat := es.countP Event.isEnter

/-- The number of scopes that events close. -/
def closed (es : List Event) : Nat := es.countP Event.isLeave

/-- **No scope is closed before it is opened.** -/
def Nested (es : List Event) : Prop := ∀ p, p <+: es → closed p ≤ opened p

@[simp]
theorem opened_append (a b : List Event) : opened (a ++ b) = opened a + opened b :=
  List.countP_append

@[simp]
theorem closed_append (a b : List Event) : closed (a ++ b) = closed a + closed b :=
  List.countP_append

@[simp]
theorem opened_cons (e : Event) (es : List Event) :
    opened (e :: es) = opened es + if e.isEnter then 1 else 0 := List.countP_cons

@[simp]
theorem closed_cons (e : Event) (es : List Event) :
    closed (e :: es) = closed es + if e.isLeave then 1 else 0 := List.countP_cons

@[simp]
theorem opened_nil : opened [] = 0 := rfl

@[simp]
theorem closed_nil : closed [] = 0 := rfl

theorem Nested.le {es : List Event} (h : Nested es) : closed es ≤ opened es :=
  h es (List.prefix_refl es)

theorem nested_nil : Nested [] := by
  intro p hp
  rw [List.prefix_nil.1 hp]
  simp

theorem Nested.append {a b : List Event} (ha : Nested a) (hb : Nested b) : Nested (a ++ b) := by
  intro p hp
  rcases List.prefix_or_prefix_of_prefix hp (List.prefix_append a b) with hp | ⟨q, rfl⟩
  · exact ha p hp
  · have h1 := ha.le
    have h2 := hb q ((List.prefix_append_right_inj a).1 hp)
    simp only [closed_append, opened_append]
    omega

/-- An event may follow nested events, a closing one if a scope is open. -/
theorem Nested.snoc {es : List Event} (h : Nested es) {e : Event}
    (he : closed es + closed [e] ≤ opened es + opened [e]) : Nested (es ++ [e]) := by
  intro p hp
  rcases List.prefix_concat_iff.1 hp with rfl | hp
  · simpa only [closed_append, opened_append] using he
  · exact h p hp

theorem nested_enter (receiver : Bool) : Nested [.enter receiver] :=
  nested_nil.snoc (by simp [Event.isEnter, Event.isLeave])

/-- **A scope around nested events is nested.** -/
theorem Nested.scope {es : List Event} (h : Nested es) (receiver : Bool) :
    Nested (.enter receiver :: (es ++ [.leave])) := by
  have hle := h.le
  have hopen : Nested (.enter receiver :: es) := (nested_enter receiver).append h
  refine hopen.snoc ?_
  simp [Event.isEnter, Event.isLeave]
  omega

theorem nested_single {e : Event} (he : e.isLeave = false) : Nested [e] :=
  nested_nil.snoc (by simp [he])

theorem nested_parameters (parameters : Option (List Identifier)) :
    Nested (parameters.map Event.parameters).toList := by
  cases parameters with
  | none => exact nested_nil
  | some identifiers => exact nested_single rfl

namespace Skeleton

/-- **A skeleton closes what it opens.** -/
theorem closed_events (items : List Item) : closed (events items) = opened (events items) := by
  induction items using induction with
  | nil => rfl
  | reference id name rest ih => simp [events, Item.events, ih, Event.isEnter, Event.isLeave]
  | functionName identifier rest ih => simp [events, Item.events, ih, Event.isEnter, Event.isLeave]
  | locals id vars init inner rest ihInner ih =>
    simp [events, Item.events, ihInner, ih, Event.isEnter, Event.isLeave]
  | localFunction identifier rest ih =>
    simp [events, Item.events, ih, Event.isEnter, Event.isLeave]
  | scope receiver parameters header body rest ihHeader ihBody ih =>
    cases parameters <;>
      simp [events, Item.events, ihHeader, ihBody, ih, Event.isEnter, Event.isLeave] <;> omega

/-- **The scopes of a skeleton are nested.** -/
theorem nested_events (items : List Item) : Nested (events items) := by
  induction items using induction with
  | nil => exact nested_nil
  | reference id name rest ih => exact (nested_single (e := .reference id name) rfl).append ih
  | functionName identifier rest ih =>
    exact (nested_single (e := .reference identifier.id identifier.name) rfl).append ih
  | locals id vars init inner rest ihInner ih =>
    exact (ihInner.append (nested_single (e := .declare id vars init) rfl)).append ih
  | localFunction identifier rest ih =>
    exact (nested_single (e := .declareFunction identifier) rfl).append ih
  | scope receiver parameters header body rest ihHeader ihBody ih =>
    have hbody := ((nested_parameters parameters).append ihBody).scope receiver
    simpa [events, Item.events] using ihHeader.append (hbody.append ih)

end Skeleton

end LuaCompiler.Scope
