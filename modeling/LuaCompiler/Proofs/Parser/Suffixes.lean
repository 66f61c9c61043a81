import LuaCompiler.Proofs.Parser.Climbing

/-!
# Reading members, indices and calls

A primary expression is read, and then every member, index and call behind it. `Chains kinds e` says
that reading the tokens of `e` is reading what goes on it, as `Climbs` does for operators; so an
expression can be the base of what comes next.

* `Chains.append`: one more suffix.
* `Chains.climbs`: a chain is an operand.
* `Expr.Readable`: an expression is read as itself, as an operand and as a base.
-/

namespace LuaCompiler

namespace Parser

open Token (Kind)

variable {kinds more rest : List Kind} {k : Kind} {e base : Expr} {id : NodeId} {span : Span}
  {b : Nat}

/-- **An expression and what goes on it**: reading its tokens is reading the suffixes behind it,
with a tree for it that differs only in identities and places. -/
structure Chains (kinds : List Kind) (e : Expr) : Prop where
  starts : Starts kinds
  first : (∃ word, next kinds = .name word) ∨ next kinds = .symbol .leftParen
  reads : ∀ {b : Nat} {rest : List Kind} {Q : Expr → List Kind → Prop},
    4 * kinds.length ≤ b + 1 →
    (∀ e' b' start, e'.bare = e.bare → b ≤ b' + kinds.length →
      Reads (suffixes b' start e') rest Q) →
    Reads (suffixed b) (kinds ++ rest) Q

theorem chains_name (word : String) : Chains [.name word] ⟨id, span, .name word⟩ where
  starts := Starts.name word
  first := .inl ⟨word, rfl⟩
  reads {b rest Q} hb hQ := by
    simp only [List.length_singleton] at hb hQ
    obtain ⟨b, rfl⟩ : ∃ m, b = m + 1 := ⟨b - 1, by omega⟩
    rw [suffixed]
    refine Reads.here fun start => ?_
    simp only [primary, bind_assoc]
    refine Reads.here fun _ => Reads.peek ?_
    rw [List.singleton_append, next_cons]
    refine Reads.bind (Reads.name fun id span => Reads.note (Reads.pure ?_))
    exact hQ _ b start (by simp [Identifier.toExpr, Expr.bare, ExprKind.bare]) (Nat.le_refl _)

/-- **An expression in parentheses.** -/
theorem chains_enclosed {floor reach : Nat} (h : Climbs kinds e floor reach) (hfloor : 0 < floor) :
    Chains (enclosed kinds) e where
  starts := Starts.of_ne_name rfl (by simp)
  first := .inr rfl
  reads {b rest Q} hb hQ := by
    simp only [enclosed, List.length_cons, List.length_append, List.length_nil] at hb hQ
    obtain ⟨b, rfl⟩ : ∃ m, b = m + 1 := ⟨b - 1, by omega⟩
    rw [suffixed]
    refine Reads.here fun start => ?_
    simp only [primary, bind_assoc]
    refine Reads.here fun _ => Reads.peek ?_
    rw [enclosed, List.cons_append, List.append_assoc, next_cons]
    simp only [bind_assoc]
    refine Reads.advance fun _ _ => ?_
    have hstops : Stops 0 (next ([.symbol .rightParen] ++ rest)) := stops_of_none rfl rfl
    apply (h.takes (by omega) hfloor (Nat.zero_le _)).bind hstops
    intro e' he'
    refine Reads.expect (Reads.spanFrom fun span => Reads.bind (Reads.pure ?_))
    refine hQ _ b start ?_ (by omega)
    rw [← he']
    cases e'
    rfl

/-- **One more suffix.** -/
theorem Chains.append (h : Chains kinds base) (hne : more ≠ [])
    (hmore : next more ≠ .symbol .assign)
    (hsuffix : ∀ {b : Nat} {base' : Expr} {start : Position} {rest : List Kind},
      4 * more.length + 1 ≤ b → base'.bare = base.bare →
      Reads (suffix? (subexpression b 0) (callOf (expressions b) (table b (subexpression b 0)))
        start base') (more ++ rest) fun e? rest' => rest' = rest ∧ ∃ e', e? = some e' ∧
          e'.bare = e.bare) :
    Chains (kinds ++ more) e where
  starts := h.starts.append hne hmore
  first := by
    rw [h.starts.next_append]
    exact h.first
  reads {b rest Q} hb hQ := by
    rw [List.length_append] at hb hQ
    have hpos := h.starts.length_pos
    have hpos' := List.length_pos_iff.2 hne
    rw [List.append_assoc]
    apply h.reads (by omega)
    intro base' b' start hbase hb'
    obtain ⟨b', rfl⟩ : ∃ m, b' = m + 1 := ⟨b' - 1, by omega⟩
    rw [suffixes]
    apply Reads.bind
    refine (hsuffix (by omega) hbase).imp ?_
    rintro _ _ ⟨rfl, e', rfl, he'⟩
    exact hQ e' b' start he' (by omega)

/-- **A chain that stands alone.** -/
theorem Chains.takes (h : Chains kinds e) (hb : 4 * kinds.length ≤ b + 1) :
    Takes (suffixed b) kinds (fun k => opensSuffix k = false) fun e' => e'.bare = e.bare := by
  intro rest hrest
  have hpos := h.starts.length_pos
  apply h.reads hb
  intro e' b' start he' hb'
  obtain ⟨b', rfl⟩ : ∃ m, b' = m + 1 := ⟨b' - 1, by omega⟩
  rw [suffixes]
  simp only [suffix?, bind_assoc]
  apply Reads.peek
  split
  case h_7 => exact Reads.pure ⟨rfl, he'⟩
  all_goals
    rename_i heq
    rw [heq] at hrest
    cases hrest

/-- **A chain is an operand.** -/
theorem Chains.climbs (h : Chains kinds e) : Climbs kinds e 15 14 := by
  have hunary : UnaryOperator.ofToken? (next kinds) = none := by
    rcases h.first with ⟨word, hfirst⟩ | hfirst <;> rw [hfirst] <;> rfl
  apply climbs_simple h.starts hunary
  intro b hb rest hrest
  rw [simple]
  refine Reads.here fun start => Reads.peek ?_
  rw [h.starts.next_append]
  rcases h.first with ⟨word, hfirst⟩ | hfirst
  · rw [hfirst]
    exact h.takes hb rest hrest
  · rw [hfirst]
    exact h.takes hb rest hrest

/-! ## Expressions that are read as themselves -/

end Parser

/-- Operators that bind no tighter than this cannot have an expression as operand without
parentheses. -/
def ExprKind.floor (kind : ExprKind) : Nat :=
  match kind.connective? with
  | some c => c.leftPriority
  | none => 15

/-- The tightest operator that can follow an expression and not take its last operand from it. -/
def ExprKind.reach (kind : ExprKind) : Nat :=
  match kind.connective? with
  | some c => c.rightPriority
  | none => if kind.isUnary then 13 else 14

namespace Parser

/-- **An expression is read as itself**, as an operand, as a base and as the one table of a call. -/
structure Readable (e : Expr) : Prop where
  climbs : Climbs e.tokens e e.kind.floor e.kind.reach
  chains : e.kind.isSuffixed = true → Chains e.tokens e
  constructs : e.isTable = true → ∀ {b : Nat}, 4 * e.tokens.length ≤ b + 1 →
    Takes (table b (subexpression b 0)) e.tokens (fun _ => True) fun e' => e'.bare = e.bare

/-- The priorities of an operator, by its level. -/
theorem priorities (c : Connective) :
    (c.level ≤ 7 ∧ 1 ≤ c.level ∧ c.leftPriority = c.level ∧ c.rightPriority = c.level ∧
      c.groupsRight = false) ∨
    (c.level = 8 ∧ c.leftPriority = 9 ∧ c.rightPriority = 8 ∧ c.groupsRight = true) ∨
    (c.level = 9 ∧ c.leftPriority = 10 ∧ c.rightPriority = 10 ∧ c.groupsRight = false) ∨
    (c.level = 10 ∧ c.leftPriority = 11 ∧ c.rightPriority = 11 ∧ c.groupsRight = false) ∨
    (c.level = 12 ∧ c.leftPriority = 14 ∧ c.rightPriority = 13 ∧ c.groupsRight = true) := by
  cases c with
  | binary operator => cases operator <;> decide
  | logical operator => cases operator <;> decide

theorem floor_pos (kind : ExprKind) : 0 < kind.floor := by
  unfold ExprKind.floor
  split
  next c _ => have := priorities c; omega
  · decide

/-- An operand that needs no parentheses on the left of an operator binds tight enough there. -/
theorem priority_left {c : Connective} {kind : ExprKind} (h : c.enclosesLeft kind = false) :
    c.leftPriority ≤ kind.floor ∧ c.leftPriority ≤ kind.reach := by
  have hc := priorities c
  unfold Connective.enclosesLeft ExprKind.level at h
  unfold ExprKind.floor ExprKind.reach
  cases hconnective : kind.connective? with
  | some c' =>
    have hc' := priorities c'
    simp only [hconnective, Bool.or_eq_false_iff, decide_eq_false_iff_not,
      Bool.and_eq_false_iff, beq_eq_false_iff_ne] at h
    dsimp only
    rcases h.2 with hne | hgroups
    · omega
    · rw [hgroups] at hc
      simp only [Bool.false_eq_true, and_false, or_false, false_or] at hc
      omega
  | none =>
    simp only [hconnective, Bool.or_eq_false_iff, decide_eq_false_iff_not] at h
    dsimp only
    cases hunary : kind.isUnary with
    | true =>
      simp only [hunary, UnaryOperator.level, if_true] at h ⊢
      omega
    | false =>
      simp only [Bool.false_eq_true, if_false]
      omega

/-- An operand that needs no parentheses on the right of an operator binds tight enough there. -/
theorem priority_right {c : Connective} {kind : ExprKind} (h : c.enclosesRight kind = false) :
    c.rightPriority < kind.floor ∧ c.rightPriority ≤ kind.reach := by
  have hc := priorities c
  unfold Connective.enclosesRight ExprKind.level at h
  unfold ExprKind.floor ExprKind.reach
  -- a binary operator has two priorities, a unary one has one, and all else binds tightest
  cases hconnective : kind.connective? with
  | some c' =>
    have hc' := priorities c'
    have hunary : kind.isUnary = false := by
      cases kind <;> first | rfl | cases hconnective
    simp only [hconnective, hunary, Bool.not_false, Bool.true_and, Bool.or_eq_false_iff,
      decide_eq_false_iff_not, Bool.and_eq_false_iff, beq_eq_false_iff_ne] at h
    dsimp only
    rcases h.2 with hne | hgroups
    · omega
    · rw [Bool.not_eq_false'] at hgroups
      rw [hgroups] at hc
      simp only [Bool.true_eq_false, and_false, false_or] at hc
      omega
  | none =>
    dsimp only
    cases kind.isUnary with
    | true =>
      simp only [if_true]
      omega
    | false =>
      simp only [Bool.false_eq_true, if_false]
      omega

/-- **The left operand of an operator**, with parentheses if it needs them. -/
theorem Readable.left (h : Readable e) (c : Connective) : ∃ floor reach,
    Climbs (encloseIf (c.enclosesLeft e.kind) e.tokens) e floor reach ∧
      c.leftPriority ≤ floor ∧ c.leftPriority ≤ reach := by
  cases hencloses : c.enclosesLeft e.kind with
  | true =>
    have := priorities c
    exact ⟨15, 14, (chains_enclosed h.climbs (floor_pos _)).climbs, by omega, by omega⟩
  | false => exact ⟨_, _, h.climbs, priority_left hencloses⟩

/-- **The right operand of an operator**, with parentheses if it needs them. -/
theorem Readable.right (h : Readable e) (c : Connective) : ∃ floor reach,
    Climbs (encloseIf (c.enclosesRight e.kind) e.tokens) e floor reach ∧
      c.rightPriority < floor ∧ c.rightPriority ≤ reach := by
  cases hencloses : c.enclosesRight e.kind with
  | true =>
    have := priorities c
    exact ⟨15, 14, (chains_enclosed h.climbs (floor_pos _)).climbs, by omega, by omega⟩
  | false => exact ⟨_, _, h.climbs, priority_right hencloses⟩

/-- **The operand of an operator before it**, with parentheses if it needs them. -/
theorem Readable.argument (h : Readable e) : ∃ floor reach,
    Climbs (encloseIf (e.kind.level < UnaryOperator.level) e.tokens) e floor reach ∧
      UnaryOperator.priority < floor ∧ UnaryOperator.priority ≤ reach := by
  by_cases hlevel : e.kind.level < UnaryOperator.level
  · rw [decide_eq_true hlevel]
    exact ⟨15, 14, (chains_enclosed h.climbs (floor_pos _)).climbs, by decide, by decide⟩
  · rw [decide_eq_false hlevel]
    refine ⟨_, _, h.climbs, ?_⟩
    unfold ExprKind.level UnaryOperator.level at hlevel
    unfold ExprKind.floor ExprKind.reach UnaryOperator.priority
    cases hconnective : e.kind.connective? with
    | some c =>
      have := priorities c
      simp only [hconnective] at hlevel
      dsimp only
      omega
    | none => cases e.kind.isUnary <;> decide

/-- **The base of a member, an index or a call**, with parentheses if it needs them. -/
theorem Readable.base (h : Readable e) :
    Chains (encloseIf (!e.kind.isSuffixed) e.tokens) e := by
  cases hsuffixed : e.kind.isSuffixed with
  | true => exact h.chains hsuffixed
  | false => exact chains_enclosed h.climbs (floor_pos _)

theorem Readable.takes (h : Readable e) (hb : 4 * e.tokens.length ≤ b) :
    Takes (subexpression b 0) e.tokens (Stops 0) fun e' => e'.bare = e.bare :=
  h.climbs.takes hb (floor_pos _) (Nat.zero_le _)

end Parser

end LuaCompiler
