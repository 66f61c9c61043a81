import LuaCompiler.Proofs.Parser.Ahead
import LuaCompiler.Proofs.Parser.Printer

/-!
# Reading operators

An expression is read operand by operand: what follows an operand is an operator that takes it as
its left operand, or the end of the expression. `Climbs kinds e floor reach` says that the tokens of
`e` are read as `e`, and then the operators behind it, for every limit below `floor` and if no
operator behind binds tighter than `reach`. This is stated for the whole rest of the text, so that
an expression can be the left operand of what comes next.

* `climbs_connective`, `climbs_unary`, `climbs_simple`: from the operands to the expression.
* `Climbs.takes`: an expression that stands alone.
-/

namespace LuaCompiler.Parser

open Token (Kind)

variable {kinds more rest : List Kind} {k : Kind} {e : Expr} {id : NodeId} {span : Span}
  {floor reach b limit : Nat}

/-! ## What can come first and what can follow -/

/-- Whether a token goes on an expression with a member, an index or a call. -/
def opensSuffix : Kind → Bool
  | .symbol .dot | .symbol .leftBracket | .symbol .colon | .symbol .leftParen
  | .symbol .leftBrace | .string _ => true
  | _ => false

/-- A token that ends an expression, but for operators that bind tighter than `n`. -/
def Stops (n : Nat) (k : Kind) : Prop :=
  opensSuffix k = false ∧ ∀ c, Connective.ofToken? k = some c → c.leftPriority ≤ n

theorem stops_of_none {n : Nat} (hk : opensSuffix k = false) (hc : Connective.ofToken? k = none) :
    Stops n k := by
  refine ⟨hk, fun c h => ?_⟩
  rw [hc] at h
  cases h

theorem Stops.mono {m n : Nat} (h : Stops m k) (hle : m ≤ n) : Stops n k :=
  ⟨h.1, fun c hc => Nat.le_trans (h.2 c hc) hle⟩

/-- Whether a token can start an expression. -/
def opensExpr : Kind → Bool
  | .name _ | .number .. | .string _ | .keyword .nil | .keyword .true | .keyword .false
  | .keyword .function | .keyword .not | .symbol .ellipsis | .symbol .leftBrace
  | .symbol .leftParen | .symbol .minus | .symbol .hash | .symbol .tilde => true
  | _ => false

/-- Whether tokens start like a field with a name. -/
def startsNamed : List Kind → Bool
  | .name _ :: k :: _ => k == .symbol .assign
  | _ => false

/-- **How an expression starts**: with a token of its own, and not like a field with a name. -/
structure Starts (kinds : List Kind) : Prop where
  opens : opensExpr (next kinds) = true
  positional : ∀ rest, next rest ≠ .symbol .assign → startsNamed (kinds ++ rest) = false

theorem Starts.ne_nil (h : Starts kinds) : kinds ≠ [] := by
  rintro rfl
  exact absurd h.opens (by decide)

theorem Starts.length_pos (h : Starts kinds) : 0 < kinds.length :=
  List.length_pos_iff.2 h.ne_nil

theorem Starts.next_append (h : Starts kinds) (more : List Kind) :
    next (kinds ++ more) = next kinds := by
  cases kinds with
  | nil => exact absurd rfl h.ne_nil
  | cons k kinds => rfl

theorem Starts.append (h : Starts kinds) (hne : more ≠ []) (hmore : next more ≠ .symbol .assign) :
    Starts (kinds ++ more) where
  opens := by rw [h.next_append]; exact h.opens
  positional rest _ := by
    rw [List.append_assoc]
    apply h.positional
    cases more with
    | nil => exact absurd rfl hne
    | cons k more => exact hmore

theorem Starts.of_ne_name (hk : opensExpr k = true) (hname : ∀ word, k ≠ .name word) :
    Starts (k :: kinds) where
  opens := hk
  positional rest _ := by
    rw [List.cons_append]
    unfold startsNamed
    split
    next heq => exact absurd (List.cons.inj heq).1 (hname _)
    · rfl

theorem Starts.name (word : String) : Starts [.name word] where
  opens := rfl
  positional rest hrest := by
    cases rest with
    | nil => rfl
    | cons k rest => simpa [startsNamed] using hrest

/-! ## Operators -/

/-- **An expression and the operators behind it**: reading its tokens is reading the operators
behind it, with a tree for it that differs only in identities and places, and with a bound that has
shrunk by no more than its length. -/
structure Climbs (kinds : List Kind) (e : Expr) (floor reach : Nat) : Prop where
  starts : Starts kinds
  reads : ∀ {b limit : Nat} {rest : List Kind} {Q : Expr → List Kind → Prop},
    4 * kinds.length ≤ b → limit < floor → Stops reach (next rest) →
    (∀ e' b' start, e'.bare = e.bare → b ≤ b' + kinds.length →
      Reads (operators b' start limit e') rest Q) →
    Reads (subexpression b limit) (kinds ++ rest) Q

theorem reads_operators_stop {start : Position} {left : Expr} {Q : Expr → List Kind → Prop}
    (hb : 0 < b) (hstop : Stops limit (next rest)) (hQ : Q left rest) :
    Reads (operators b start limit left) rest Q := by
  obtain ⟨b, rfl⟩ : ∃ m, b = m + 1 := ⟨b - 1, by omega⟩
  rw [operators]
  apply Reads.peek
  cases hc : Connective.ofToken? (next rest) with
  | none => exact Reads.pure hQ
  | some c =>
    dsimp only
    rw [if_pos (hstop.2 c hc)]
    exact Reads.pure hQ

/-- **An expression that stands alone**: its tokens are taken if what follows stops at the limit. -/
theorem Climbs.takes (h : Climbs kinds e floor reach) (hb : 4 * kinds.length ≤ b)
    (hfloor : limit < floor) (hreach : limit ≤ reach) :
    Takes (subexpression b limit) kinds (Stops limit) fun e' => e'.bare = e.bare := by
  intro rest hrest
  have hpos := h.starts.length_pos
  apply h.reads hb hfloor (hrest.mono hreach)
  intro e' b' start he' hb'
  exact reads_operators_stop (by omega) hrest ⟨rfl, he'⟩

theorem ofToken_sign (c : Connective) : Connective.ofToken? c.sign = some c := by
  cases c with
  | binary operator => cases operator <;> rfl
  | logical operator => cases operator <;> rfl

theorem sign_ne_assign (c : Connective) : c.sign ≠ .symbol .assign := by
  cases c with
  | binary operator => cases operator <;> decide
  | logical operator => cases operator <;> decide

theorem stops_sign {c : Connective} {n : Nat} (h : c.leftPriority ≤ n) : Stops n c.sign := by
  constructor
  · cases c with
    | binary operator => cases operator <;> rfl
    | logical operator => cases operator <;> rfl
  · intro c' hc'
    rw [ofToken_sign] at hc'
    cases hc'
    exact h

theorem bare_apply (c : Connective) {id id' : NodeId} {span span' : Span} {left left' right right' : Expr}
    (hl : left'.bare = left.bare) (hr : right'.bare = right.bare) :
    (Expr.mk id' span' (c.apply left' right')).bare = (Expr.mk id span (c.apply left right)).bare := by
  cases c <;> simp [Connective.apply, Expr.bare, ExprKind.bare, hl, hr]

/-- **Two operands and the operator between them.** The left one has to reach down to the operator,
and the operator on its right side down to the right one. -/
theorem climbs_connective {c : Connective} {left right : Expr} {kindsL kindsR : List Kind}
    {floorL reachL floorR reachR : Nat} (hl : Climbs kindsL left floorL reachL)
    (hr : Climbs kindsR right floorR reachR) (hfloorL : c.leftPriority ≤ floorL)
    (hreachL : c.leftPriority ≤ reachL) (hfloorR : c.rightPriority < floorR)
    (hreachR : c.rightPriority ≤ reachR) :
    Climbs (kindsL ++ c.sign :: kindsR) ⟨id, span, c.apply left right⟩ c.leftPriority
      c.rightPriority where
  starts := hl.starts.append (by simp) (sign_ne_assign c)
  reads {b limit rest Q} hb hlimit hrest hQ := by
    simp only [List.length_append, List.length_cons] at hb hQ
    have hpos := hr.starts.length_pos
    rw [List.append_assoc, List.cons_append]
    have hstops : Stops reachL (next (c.sign :: (kindsR ++ rest))) := stops_sign hreachL
    apply hl.reads (by omega) (by omega) hstops
    intro left' b' start hleft hb'
    obtain ⟨b', rfl⟩ : ∃ m, b' = m + 1 := ⟨b' - 1, by omega⟩
    rw [operators]
    apply Reads.peek
    rw [next_cons, ofToken_sign]
    dsimp only
    -- the operator binds more than the limit, so the loop takes it
    rw [if_neg (by omega)]
    refine Reads.advance fun _ _ => ?_
    apply (hr.takes (by omega) hfloorR hreachR).bind hrest
    intro right' hright
    refine Reads.expr fun id span => ?_
    exact hQ _ b' start (bare_apply c hleft hright) (by omega)

/-- No operator binds just as tightly as the right side of a power. -/
theorem stops_twelve (h : Stops 13 k) : Stops 12 k := by
  refine ⟨h.1, fun c hc => ?_⟩
  have hle := h.2 c hc
  cases c with
  | binary operator => cases operator <;> simp_all [Connective.leftPriority]
  | logical operator => cases operator <;> simp_all [Connective.leftPriority]

theorem unary_ofToken_sign (operator : UnaryOperator) :
    UnaryOperator.ofToken? operator.sign = some operator := by
  cases operator <;> rfl

theorem starts_unary (operator : UnaryOperator) : Starts (operator.sign :: kinds) := by
  apply Starts.of_ne_name
  · cases operator <;> rfl
  · cases operator <;> simp [UnaryOperator.sign]

/-- **An operand and the operator before it.** -/
theorem climbs_unary {operator : UnaryOperator} {argument : Expr}
    (h : Climbs kinds argument floor reach) (hfloor : UnaryOperator.priority < floor)
    (hreach : UnaryOperator.priority ≤ reach) :
    Climbs (operator.sign :: kinds) ⟨id, span, .unary operator argument⟩ 15 13 where
  starts := starts_unary operator
  reads {b limit rest Q} hb _ hrest hQ := by
    simp only [List.length_cons] at hb hQ
    have hpos := h.starts.length_pos
    obtain ⟨b, rfl⟩ : ∃ m, b = m + 1 := ⟨b - 1, by omega⟩
    rw [subexpression]
    refine Reads.here fun start => Reads.peek ?_
    rw [List.cons_append, next_cons, unary_ofToken_sign]
    refine Reads.advance fun _ _ => ?_
    apply (h.takes (by omega) hfloor hreach).bind (stops_twelve hrest)
    intro argument' hargument
    refine Reads.expr fun id span => hQ _ b start ?_ (by omega)
    simp [Expr.bare, ExprKind.bare, hargument]

/-- **An operand without operators of its own.** -/
theorem climbs_simple (hstarts : Starts kinds) (hunary : UnaryOperator.ofToken? (next kinds) = none)
    (h : ∀ b, 4 * kinds.length ≤ b + 1 →
      Takes (simple (suffixed b) (table b (subexpression b 0)) (function b)) kinds
        (fun k => opensSuffix k = false) fun e' => e'.bare = e.bare) :
    Climbs kinds e 15 14 where
  starts := hstarts
  reads {b limit rest Q} hb _ hrest hQ := by
    have hpos := hstarts.length_pos
    obtain ⟨b, rfl⟩ : ∃ m, b = m + 1 := ⟨b - 1, by omega⟩
    rw [subexpression]
    refine Reads.here fun start => Reads.peek ?_
    rw [hstarts.next_append, hunary]
    dsimp only
    apply (h b hb).bind hrest.1
    intro e' he'
    exact hQ e' b start he' (by omega)

/-- The token of a literal opens an expression, and is neither a name nor an operator. -/
theorem opens_of_literal {kind : ExprKind} (h : literal? k = some kind) :
    opensExpr k = true ∧ (∀ word, k ≠ .name word) ∧ UnaryOperator.ofToken? k = none := by
  unfold literal? at h
  split at h <;> cases h
  all_goals exact ⟨rfl, nofun, rfl⟩

/-- **A literal.** -/
theorem climbs_literal {kind : ExprKind} (hk : literal? k = some kind) :
    Climbs [k] ⟨id, span, kind⟩ 15 14 := by
  obtain ⟨hopens, hname, hunary⟩ := opens_of_literal hk
  apply climbs_simple (Starts.of_ne_name hopens hname) hunary
  intro b _ rest _
  rw [simple]
  refine Reads.here fun start => Reads.peek ?_
  rw [List.singleton_append, next_cons, hk]
  refine Reads.advance fun _ _ => ?_
  simp only [expr]
  refine Reads.freshId fun id => Reads.spanFrom fun span => Reads.pure ⟨rfl, ?_⟩
  simp [Expr.bare]

end LuaCompiler.Parser
