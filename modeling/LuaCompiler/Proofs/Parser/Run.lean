import LuaCompiler.Parser.Grammar

/-!
# Runs of a parser

`Post p s Q E` says how a run of the parser `p` from the state `s` ends: with a value and a state in
`Q`, or with a failure in a state in `E`. With `E` empty it says that the parser succeeds, with `E`
full it speaks only of the runs that succeed.

* `post_bind`: a run of two parsers in a row is a run of the second where the first has ended.
* `Post.mono`: weaker endings.
* One rewrite rule for each of the steps that every production is made of.
-/

namespace LuaCompiler.Parser

variable {α β : Type} {s : State} {E E' : State → Prop}

/-- **How a run ends**: with a value and a state in `Q`, or with a failure in a state in `E`. -/
def Post (p : Parser α) (s : State) (Q : α → State → Prop) (E : State → Prop) : Prop :=
  match p.run s with
  | (.ok a, s') => Q a s'
  | (.error _, s') => E s'

theorem Post.mono {p : Parser α} {Q Q' : α → State → Prop} (h : Post p s Q E)
    (hQ : ∀ a s', Q a s' → Q' a s') (hE : ∀ s', E s' → E' s') : Post p s Q' E' := by
  unfold Post at h ⊢
  split at h
  · exact hQ _ _ h
  · exact hE _ h

theorem Post.imp {p : Parser α} {Q Q' : α → State → Prop} (h : Post p s Q E)
    (hQ : ∀ a s', Q a s' → Q' a s') : Post p s Q' E :=
  h.mono hQ fun _ => id

@[simp]
theorem post_pure {a : α} {Q : α → State → Prop} : Post (pure a) s Q E ↔ Q a s := Iff.rfl

@[simp]
theorem post_bind {p : Parser α} {f : α → Parser β} {Q : β → State → Prop} :
    Post (p >>= f) s Q E ↔ Post p s (fun a s' => Post (f a) s' Q E) E := by
  have hrun : (p >>= f).run s = ExceptT.bindCont f (p.run s).1 (p.run s).2 := rfl
  unfold Post
  rw [hrun]
  rcases p.run s with ⟨_ | a, s'⟩ <;> rfl

@[simp]
theorem post_map {p : Parser α} {f : α → β} {Q : β → State → Prop} :
    Post (f <$> p) s Q E ↔ Post p s (fun a s' => Q (f a) s') E := by
  rw [map_eq_pure_bind, post_bind]
  rfl

@[simp]
theorem post_get {Q : State → State → Prop} : Post get s Q E ↔ Q s s := Iff.rfl

@[simp]
theorem post_set {t : State} {Q : PUnit → State → Prop} : Post (set t) s Q E ↔ Q ⟨⟩ t := Iff.rfl

@[simp]
theorem post_failAt {fault : SyntaxFault} {place : Position} {Q : α → State → Prop} :
    Post (failAt fault place) s Q E ↔ E s := Iff.rfl

@[simp]
theorem post_peek {Q : Token.Kind → State → Prop} : Post peek s Q E ↔ Q s.current.kind s := Iff.rfl

@[simp]
theorem post_here {Q : Position → State → Prop} :
    Post here s Q E ↔ Q s.current.span.start s := Iff.rfl

@[simp]
theorem post_unexpected {fault : Token.Kind → SyntaxFault} {Q : α → State → Prop} :
    Post (unexpected fault) s Q E ↔ E s := Iff.rfl

@[simp]
theorem post_exhausted {Q : α → State → Prop} : Post exhausted s Q E ↔ E s := Iff.rfl

@[simp]
theorem post_isNext {kind : Token.Kind} {Q : Bool → State → Prop} :
    Post (isNext kind) s Q E ↔ Q (s.current.kind == kind) s := Iff.rfl

@[simp]
theorem post_freshId {Q : NodeId → State → Prop} :
    Post freshId s Q E ↔ Q s.nextId { s with nextId := s.nextId + 1 } := Iff.rfl

@[simp]
theorem post_spanFrom {start : Position} {Q : Span → State → Prop} :
    Post (spanFrom start) s Q E ↔ Q ⟨start, s.previousEnd⟩ s := Iff.rfl

@[simp]
theorem post_note {event : Scope.Event} {Q : Unit → State → Prop} :
    Post (note event) s Q E ↔ Q () { s with events := event :: s.events } := Iff.rfl

/-- The state of a parser that has just left a scope. -/
def State.left (s : State) : State := { s with events := .leave :: s.events }

@[simp]
theorem post_leaving {body : Parser α} {Q : α → State → Prop} :
    Post (leaving body) s Q E ↔ Post body s (fun a s' => Q a s'.left) (fun s' => E s'.left) := by
  have hrun : (leaving body).run s = ((body.run s).1, (body.run s).2.left) := rfl
  unfold Post
  rw [hrun]
  rcases body.run s with ⟨_ | a, s'⟩ <;> rfl

@[simp]
theorem post_ite {c : Prop} [Decidable c] {p q : Parser α} {Q : α → State → Prop} :
    Post (if c then p else q) s Q E ↔ if c then Post p s Q E else Post q s Q E := by
  split <;> rfl

end LuaCompiler.Parser
