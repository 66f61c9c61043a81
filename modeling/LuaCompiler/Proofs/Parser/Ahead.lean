import LuaCompiler.Proofs.Parser.Run

/-!
# Parsers on the tokens ahead

`Ahead s kinds` says which tokens a parser has still to read, up to the end of the text. `Reads p
kinds Q` says that the parser `p` succeeds wherever these tokens are ahead, whatever the identities
and places, and leaves a value and remaining tokens in `Q`. `Takes p kinds follow R` is the case of
a production: it reads exactly `kinds`, if a token in `follow` comes next, and its value is in `R`.

* `Reads.bind` and one rule for each step, in the order in which a production takes them.
* `Takes.bind`: a production before others.
-/

namespace LuaCompiler.Parser

open Token (Kind)

variable {α β : Type} {s : State} {kind k : Kind} {kinds rest : List Kind}

/-- **The tokens ahead of a parser**: the current one and those behind it, up to the end. -/
structure Ahead (s : State) (kinds : List Kind) : Prop where
  kinds : (s.current :: s.rest).map Token.kind = kinds ++ [.eof]
  ending : s.ending = none

/-- The token to be read next. -/
def next (kinds : List Kind) : Kind := kinds.headD .eof

@[simp]
theorem next_cons (k : Kind) (kinds : List Kind) : next (k :: kinds) = k := rfl

@[simp]
theorem next_nil : next [] = .eof := rfl

/-- The next token is the first of those ahead. -/
theorem Ahead.current (h : Ahead s kinds) : s.current.kind = next kinds := by
  have hkinds := h.kinds
  cases kinds with
  | nil => exact (List.cons.inj hkinds).1
  | cons k kinds => exact (List.cons.inj hkinds).1

/-- **A parser reads some tokens**: with them ahead it succeeds, with a value and remaining tokens in
`Q`. -/
def Reads (p : Parser α) (kinds : List Kind) (Q : α → List Kind → Prop) : Prop :=
  ∀ s, Ahead s kinds → Post p s (fun a s' => ∃ rest, Ahead s' rest ∧ Q a rest) fun _ => False

variable {p : Parser α} {f : α → Parser β} {Q : β → List Kind → Prop}

/-- Less may be asked of what is read. -/
theorem Reads.imp {Q Q' : α → List Kind → Prop} (h : Reads p kinds Q)
    (hQ : ∀ a rest, Q a rest → Q' a rest) : Reads p kinds Q' :=
  fun s hs => (h s hs).imp fun _ _ ⟨rest, hrest, ha⟩ => ⟨rest, hrest, hQ _ rest ha⟩

/-- One parser reads on where the other ended. -/
theorem Reads.bind (h : Reads p kinds fun a rest => Reads (f a) rest Q) :
    Reads (p >>= f) kinds Q := by
  intro s hs
  rw [post_bind]
  exact (h s hs).imp fun a s' ⟨rest, hrest, ha⟩ => ha s' hrest

theorem Reads.pure {a : β} (h : Q a kinds) : Reads (pure a) kinds Q :=
  fun _ hs => post_pure.2 ⟨kinds, hs, h⟩

theorem Reads.peek {f : Kind → Parser β} (h : Reads (f (next kinds)) kinds Q) :
    Reads (Parser.peek >>= f) kinds Q := by
  intro s hs
  rw [post_bind, post_peek, hs.current]
  exact h s hs

theorem Reads.isNext {f : Bool → Parser β} (h : Reads (f (next kinds == kind)) kinds Q) :
    Reads (Parser.isNext kind >>= f) kinds Q := by
  intro s hs
  rw [post_bind, post_isNext, hs.current]
  exact h s hs

theorem Reads.here {f : Position → Parser β} (h : ∀ start, Reads (f start) kinds Q) :
    Reads (Parser.here >>= f) kinds Q := by
  intro s hs
  rw [post_bind, post_here]
  exact h _ s hs

theorem Reads.freshId {f : NodeId → Parser β} (h : ∀ id, Reads (f id) kinds Q) :
    Reads (Parser.freshId >>= f) kinds Q := by
  intro s hs
  rw [post_bind, post_freshId]
  exact h _ _ ⟨hs.kinds, hs.ending⟩

theorem Reads.spanFrom {f : Span → Parser β} {start : Position} (h : ∀ span, Reads (f span) kinds Q) :
    Reads (Parser.spanFrom start >>= f) kinds Q := by
  intro s hs
  rw [post_bind, post_spanFrom]
  exact h _ s hs

theorem Reads.note {f : Unit → Parser β} {event : Scope.Event} (h : Reads (f ()) kinds Q) :
    Reads (Parser.note event >>= f) kinds Q := by
  intro s hs
  rw [post_bind, post_note]
  exact h _ ⟨hs.kinds, hs.ending⟩

theorem Reads.leaving {Q : α → List Kind → Prop} (h : Reads p kinds Q) :
    Reads (Parser.leaving p) kinds Q := by
  intro s hs
  rw [post_leaving]
  exact (h s hs).imp fun a s' ⟨rest, hrest, ha⟩ => ⟨rest, ⟨hrest.kinds, hrest.ending⟩, ha⟩

/-- One token is read. -/
theorem Reads.advance {f : Token → Parser β}
    (h : ∀ token, token.kind = k → Reads (f token) kinds Q) :
    Reads (Parser.advance >>= f) (k :: kinds) Q := by
  intro s hs
  have hkinds := hs.kinds
  rw [post_bind, Parser.advance, post_bind, post_get]
  cases hrest : s.rest with
  | nil =>
    rw [hrest] at hkinds
    have hnil := (List.cons.inj hkinds).2
    simp at hnil
  | cons token rest =>
    rw [hrest, List.cons_append] at hkinds
    obtain ⟨hcurrent, htail⟩ := List.cons.inj hkinds
    exact h _ hcurrent _ ⟨htail, hs.ending⟩

/-- A token that is there is taken. -/
theorem Reads.accept {f : Bool → Parser β} (h : Reads (f true) kinds Q) :
    Reads (Parser.accept k >>= f) (k :: kinds) Q := by
  rw [Parser.accept, bind_assoc]
  apply Reads.isNext
  simp only [next_cons, beq_self_eq_true, if_true, bind_assoc]
  exact Reads.advance fun _ _ => h

/-- One that is not there is left. -/
theorem Reads.refuse {f : Bool → Parser β} (hk : next kinds ≠ k) (h : Reads (f false) kinds Q) :
    Reads (Parser.accept k >>= f) kinds Q := by
  rw [Parser.accept, bind_assoc]
  apply Reads.isNext
  have hne : (next kinds == k) = false := by simpa using hk
  simp only [hne, Bool.false_eq_true, if_false]
  exact h

/-- A token that has to be there is read. -/
theorem Reads.expect {f : Unit → Parser β} (h : Reads (f ()) kinds Q) :
    Reads (Parser.expect k >>= f) (k :: kinds) Q := by
  rw [Parser.expect, bind_assoc]
  apply Reads.isNext
  simp only [next_cons, beq_self_eq_true, if_true, bind_assoc]
  exact Reads.advance fun _ _ => h

/-- A name is read, whatever its number and its place. -/
theorem Reads.name {f : Identifier → Parser β} {word : String}
    (h : ∀ id span, Reads (f ⟨id, word, span⟩) kinds Q) :
    Reads (Parser.name >>= f) (.name word :: kinds) Q := by
  rw [Parser.name, bind_assoc]
  apply Reads.peek
  simp only [next_cons, bind_assoc]
  exact Reads.advance fun token _ => Reads.freshId fun id => h id token.span

/-- A node is made without reading. -/
theorem Reads.expr {f : Expr → Parser β} {start : Position} {kind : ExprKind}
    (h : ∀ id span, Reads (f ⟨id, span, kind⟩) kinds Q) :
    Reads (Parser.expr start kind >>= f) kinds Q := by
  simp only [Parser.expr, bind_assoc]
  exact Reads.freshId fun id => Reads.spanFrom fun span => h id span

theorem Reads.stmt {start : Position} {kind : StmtKind} {Q : Stmt → List Kind → Prop}
    (h : ∀ id span, Q ⟨id, span, kind⟩ kinds) : Reads (Parser.stmt start kind) kinds Q :=
  Reads.freshId fun id => Reads.spanFrom fun span => Reads.pure (h id span)

/-- **A production takes some tokens**: with them ahead, and a token in `follow` behind them, it
reads them and no more, and its value is in `R`. -/
def Takes (p : Parser α) (kinds : List Kind) (follow : Kind → Prop) (R : α → Prop) : Prop :=
  ∀ rest, follow (next rest) → Reads p (kinds ++ rest) fun a rest' => rest' = rest ∧ R a

variable {follow : Kind → Prop} {R : α → Prop}

/-- A phrase is read, and then what stands behind it. -/
theorem Takes.bind (h : Takes p kinds follow R) (hrest : follow (next rest))
    (hf : ∀ a, R a → Reads (f a) rest Q) : Reads (p >>= f) (kinds ++ rest) Q := by
  apply Reads.bind
  refine (h rest hrest).imp ?_
  rintro a _ ⟨rfl, ha⟩
  exact hf a ha

theorem Takes.leaving (h : Takes p kinds follow R) : Takes (leaving p) kinds follow R :=
  fun rest hrest => (h rest hrest).leaving

end LuaCompiler.Parser
