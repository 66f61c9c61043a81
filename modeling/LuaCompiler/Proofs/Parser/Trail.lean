import LuaCompiler.Proofs.Parser.Run
import LuaCompiler.Proofs.Rising
import LuaCompiler.Proofs.Scope.Nesting

/-!
# What a parser leaves behind

A parser that succeeds has noted events and given out identities, in rising order; `Trail s es ns s'`
says which ones on the way from `s` to `s'`. A parser that fails has noted events that may leave scopes open but
never close one too many: `Strays s s'`. `Notes p es ns` says so of all runs of `p`, and
`Trail.bind` puts such parsers in a row.

* `Trail.bind`, `Trail.leaving`, `Trail.note`: the trail grows from step to step.
* `notes_advance`, `notes_name` and others: the steps that every production is made of.
-/

namespace LuaCompiler

open Scope (Event Item Nested closed opened)

namespace Parser

variable {α β : Type} {s s₀ s₁ s' : State} {es : List Event} {ns : List NodeId}

/-- **What was noted and given out** on the way from one state to another. -/
structure Trail (s : State) (es : List Event) (ns : List NodeId) (s' : State) : Prop where
  events : s'.events = es.reverse ++ s.events
  numbers : Rising s.nextId ns s'.nextId
  nested : Nested es

/-- The events noted on the way from one state to another do not close a scope too many. -/
def Strays (s s' : State) : Prop :=
  ∃ es, Nested es ∧ s'.events = es.reverse ++ s.events

/-- The events and identities that a parser notes and gives out, if it gives a value. -/
def Notes (p : Parser α) (es : α → List Event) (ns : α → List NodeId) : Prop :=
  ∀ s, Post p s (fun a s' => Trail s (es a) (ns a) s') (Strays s)

/-- A parser that notes nothing, and gives out nothing that matters for scoping. -/
abbrev Silent (p : Parser α) : Prop := Notes p (fun _ => []) (fun _ => [])

theorem Trail.refl (s : State) : Trail s [] [] s :=
  ⟨rfl, Nat.le_refl _, Scope.nested_nil⟩

theorem Trail.strays (h : Trail s es ns s') : Strays s s' := ⟨es, h.nested, h.events⟩

/-- What was noted first stands before what was noted then. -/
theorem Trail.trans {es' : List Event} {ns' : List NodeId} (h : Trail s₀ es ns s)
    (h' : Trail s es' ns' s') : Trail s₀ (es ++ es') (ns ++ ns') s' where
  events := by rw [h'.events, h.events, List.reverse_append, List.append_assoc]
  numbers := rising_append.2 ⟨s.nextId, h.numbers, h'.numbers⟩
  nested := h.nested.append h'.nested

/-- A parser that failed has strayed from the start. -/
theorem Trail.trans_strays (h : Trail s₀ es ns s) (h' : Strays s s') : Strays s₀ s' := by
  obtain ⟨es', hes', he⟩ := h'
  refine ⟨es ++ es', h.nested.append hes', ?_⟩
  rw [he, h.events, List.reverse_append, List.append_assoc]

/-- **One parser behind another.** -/
theorem Trail.bind {p : Parser α} {g : α → Parser β} {es' : α → List Event} {ns' : α → List NodeId}
    {Q : β → State → Prop} (h : Trail s₀ es ns s) (hp : Notes p es' ns')
    (hg : ∀ a s', Trail s₀ (es ++ es' a) (ns ++ ns' a) s' → Post (g a) s' Q (Strays s₀)) :
    Post (p >>= g) s Q (Strays s₀) := by
  rw [post_bind]
  exact (hp s).mono (fun a s' h' => hg a s' (h.trans h')) (fun s' h' => h.trans_strays h')

/-- A silent parser before another leaves the trail as it is. -/
theorem Trail.skip {p : Parser α} {g : α → Parser β} {Q : β → State → Prop}
    (h : Trail s₀ es ns s) (hp : Silent p)
    (hg : ∀ a s', Trail s₀ es ns s' → Post (g a) s' Q (Strays s₀)) :
    Post (p >>= g) s Q (Strays s₀) :=
  h.bind hp fun a s' h' => hg a s' (by simpa using h')

/-- One of two parsers before another. -/
theorem Trail.join {c : Prop} [Decidable c] {p q : Parser α} {g : α → Parser β}
    {es' : α → List Event} {ns' : α → List NodeId} {Q : β → State → Prop} (h : Trail s₀ es ns s)
    (hp : c → Notes p es' ns') (hq : ¬ c → Notes q es' ns')
    (hg : ∀ a s', Trail s₀ (es ++ es' a) (ns ++ ns' a) s' → Post (g a) s' Q (Strays s₀)) :
    Post (if c then p >>= g else q >>= g) s Q (Strays s₀) := by
  split
  next hc => exact h.bind (hp hc) hg
  next hc => exact h.bind (hq hc) hg

/-- The last parser of a row. -/
theorem Trail.last {p : Parser α} {es' : α → List Event} {ns' : α → List NodeId}
    {Q : α → State → Prop} (h : Trail s₀ es ns s) (hp : Notes p es' ns')
    (hg : ∀ a s', Trail s₀ (es ++ es' a) (ns ++ ns' a) s' → Q a s') :
    Post p s Q (Strays s₀) :=
  (hp s).mono (fun a s' h' => hg a s' (h.trans h')) (fun _ h' => h.trans_strays h')

/-- An event is noted, which closes no scope that is not open. -/
theorem Trail.noted (event : Event) (h : Trail s₀ es ns s)
    (he : closed es + closed [event] ≤ opened es + opened [event]) :
    Trail s₀ (es ++ [event]) ns { s with events := event :: s.events } where
  events := by simp [h.events]
  numbers := h.numbers
  nested := h.nested.snoc he

/-- An event before another parser; it closes a scope only if one is open. -/
theorem Trail.note {event : Event} {g : Unit → Parser β} {Q : β → State → Prop}
    (h : Trail s₀ es ns s) (he : closed es + closed [event] ≤ opened es + opened [event])
    (hg : ∀ s', Trail s₀ (es ++ [event]) ns s' → Post (g ()) s' Q (Strays s₀)) :
    Post (Parser.note event >>= g) s Q (Strays s₀) := by
  rw [post_bind, post_note]
  exact hg _ (h.noted event he)

/-- A parser in an open scope, which is then closed, also if the parser fails. -/
theorem Trail.leaving {p : Parser α} {g : α → Parser β} {items : α → List Item}
    {Q : β → State → Prop} (h : Trail s₀ es ns s) (ho : closed es < opened es)
    (hp : Notes p (fun a => Scope.Skeleton.events (items a))
      (fun a => Scope.Skeleton.numbers (items a)))
    (hg : ∀ a s', Trail s₀ (es ++ (Scope.Skeleton.events (items a) ++ [.leave]))
      (ns ++ Scope.Skeleton.numbers (items a)) s' → Post (g a) s' Q (Strays s₀)) :
    Post (Parser.leaving p >>= g) s Q (Strays s₀) := by
  rw [post_bind, post_leaving]
  refine (hp s).mono (fun a s' h' => hg a s'.left ?_) (fun s' h' => ?_)
  · have hclosed := Scope.Skeleton.closed_events (items a)
    have := (h.trans h').noted .leave (by
      simp [Event.isEnter, Event.isLeave]
      omega)
    rwa [List.append_assoc] at this
  · obtain ⟨es', hes', he⟩ := h'
    have hle := hes'.le
    refine ⟨es ++ es' ++ [.leave], (h.nested.append hes').snoc ?_, ?_⟩
    · simp [Event.isEnter, Event.isLeave]
      omega
    · simp [State.left, he, h.events]

/-! ## Single steps -/

/-- A parser that notes nothing and numbers nothing back. -/
theorem silent_of_state {p : Parser α}
    (h : ∀ s, Post p s (fun _ s' => s'.events = s.events ∧ s.nextId ≤ s'.nextId)
      (fun s' => s'.events = s.events)) : Silent p := fun s =>
  (h s).mono (fun _ _ h' => ⟨h'.1, h'.2, Scope.nested_nil⟩) (fun _ h' => ⟨[], Scope.nested_nil, h'⟩)

/-- Reading a token notes nothing. -/
theorem silent_advance : Silent advance := by
  refine silent_of_state fun s => ?_
  unfold advance
  rw [post_bind, post_get]
  split <;> simp

theorem silent_peek : Silent peek := silent_of_state fun _ => ⟨rfl, Nat.le_refl _⟩

theorem silent_here : Silent here := silent_of_state fun _ => ⟨rfl, Nat.le_refl _⟩

theorem silent_get : Silent get := silent_of_state fun _ => ⟨rfl, Nat.le_refl _⟩

theorem silent_isNext (kind : Token.Kind) : Silent (isNext kind) :=
  silent_of_state fun _ => ⟨rfl, Nat.le_refl _⟩

theorem silent_spanFrom (start : Position) : Silent (spanFrom start) :=
  silent_of_state fun _ => ⟨rfl, Nat.le_refl _⟩

theorem notes_exhausted {es : α → List Event} {ns : α → List NodeId} :
    Notes (exhausted : Parser α) es ns := fun _ => ⟨[], Scope.nested_nil, rfl⟩

/-- What is there already has been noted. -/
theorem notes_pure {a : α} {es : α → List Event} {ns : α → List NodeId} (he : es a = [])
    (hn : ns a = []) : Notes (pure a) es ns := by
  intro s
  rw [post_pure, he, hn]
  exact Trail.refl s

/-- A number is taken. -/
theorem notes_freshId : Notes freshId (fun _ => []) (fun id => [id]) := fun _ =>
  ⟨rfl, ⟨Nat.le_refl _, Nat.le_refl _⟩, Scope.nested_nil⟩

theorem silent_freshId : Silent freshId := fun _ => ⟨rfl, Nat.le_succ _, Scope.nested_nil⟩

/-- Looking for a token notes nothing. -/
theorem silent_accept (kind : Token.Kind) : Silent (accept kind) := by
  intro s
  refine (Trail.refl s).skip (silent_isNext kind) fun b s' h => ?_
  cases b with
  | true => exact h.skip silent_advance fun _ s' h => h
  | false => exact h

/-- Asking for one notes nothing. -/
theorem silent_expect (kind : Token.Kind) : Silent (expect kind) := by
  intro s
  refine (Trail.refl s).skip (silent_isNext kind) fun b s' h => ?_
  cases b with
  | true => exact h.skip silent_advance fun _ s' h => h
  | false => exact h.strays

theorem silent_acceptWord (word : Keyword) : Silent (acceptWord word) := silent_accept _

theorem silent_acceptSign (sign : Symbol) : Silent (acceptSign sign) := silent_accept _

theorem silent_expectWord (word : Keyword) : Silent (expectWord word) := silent_expect _

theorem silent_expectSign (sign : Symbol) : Silent (expectSign sign) := silent_expect _

/-- A name takes a number and notes nothing. -/
theorem notes_name : Notes name (fun _ => []) (fun identifier => [identifier.id]) := by
  intro s
  refine (Trail.refl s).skip silent_peek fun kind s' h => ?_
  split
  · refine h.skip silent_advance fun token s' h => ?_
    exact h.bind notes_freshId fun id s' h => h
  · exact h.strays

/-- A name that is no variable. -/
theorem silent_name : Silent name := fun s =>
  (notes_name s).imp fun _ _ h => ⟨h.events, h.numbers.le, h.nested⟩

end Parser

end LuaCompiler
