import LuaCompiler.Proofs.Script.Expression

/-!
# Grouped expressions

An expression in which every operator between two values stands in parentheses of its own is read as
it was grouped, whatever the levels of the operators. Only an operator before a value has none, and
as the base of a power it is refused.

* `Written tree ts`: the tokens of a tree that is grouped so.
* `ofTokens?_written`: **they are read as the tree**, or not at all if an operator is misplaced.
-/

namespace LuaCompiler.Script

namespace Expression

/-- A member of a member of a name. -/
def path (head : String) (members : List String) : Expression := members.foldl .member (.name head)

/-- The tokens of a path. -/
def pathTokens (head : String) (members : List String) : List Token :=
  .word head :: members.flatMap fun text => [.sign ".", .word text]

/-- **The tokens of a grouped tree.** The value behind an operator may have parentheses or not. -/
inductive Written : Expression → List Token → Prop
  | path (head : String) (members : List String) (h : reservedWords.contains head = false) :
    Written (path head members) (pathTokens head members)
  | number (text : String) : Written (.number text) [.number text]
  | unary (operator : UnaryOperator) {a : Expression} {ts : List Token} (h : Written a ts) :
    Written (.unary operator a) (.sign operator.sign :: ts)
  | unaryGrouped (operator : UnaryOperator) {a : Expression} {ts : List Token} (h : Written a ts) :
    Written (.unary operator a) (.sign operator.sign :: .sign "(" :: (ts ++ [.sign ")"]))
  | binary (operator : BinaryOperator) {a b : Expression} {ts us : List Token} (ha : Written a ts)
    (hb : Written b us) : Written (.binary operator a b)
      (.sign "(" :: (ts ++ .sign operator.sign :: (us ++ [.sign ")"])))
  | call (head : String) (members : List String) (h : reservedWords.contains head = false)
    {a : Expression} {ts : List Token} (ha : Written a ts) :
    Written (.call (path head members) a) (pathTokens head members ++ .sign "(" :: (ts ++ [.sign ")"]))
  | callBinary (head : String) (members : List String) (h : reservedWords.contains head = false)
    (operator : BinaryOperator) {a b : Expression} {ts us : List Token} (ha : Written a ts)
    (hb : Written b us) : Written (.call (path head members) (.binary operator a b))
      (pathTokens head members ++ .sign "(" :: (ts ++ .sign operator.sign :: (us ++ [.sign ")"])))

/-! ## What follows -/

/-- What follows a value with all its members and calls. -/
structure Ends (rest : List Token) : Prop where
  call : behind? "(" rest = none
  member : behind? "." rest = none

theorem ends_nil : Ends [] := ⟨rfl, rfl⟩

theorem ends_close (rest : List Token) : Ends (.sign ")" :: rest) := ⟨rfl, rfl⟩

/-- An operator ends its left operand. -/
theorem ends_sign (operator : BinaryOperator) (rest : List Token) :
    Ends (.sign operator.sign :: rest) := by
  cases operator <;> exact ⟨rfl, rfl⟩

/-- A unary sign is read as its operator. -/
@[simp]
theorem unarySign_sign (operator : UnaryOperator) (rest : List Token) :
    unarySign? (.sign operator.sign :: rest) = some (operator, rest) := by
  cases operator <;> rfl

/-- Every binary sign but that of powers climbs. -/
theorem binarySign_sign {operator : BinaryOperator} (h : operator ≠ .power) (rest : List Token) :
    binarySign? (.sign operator.sign :: rest) = some (operator, rest) := by
  cases operator <;> first | rfl | exact absurd rfl h

/-- No other sign is that of powers. -/
theorem behind_power {operator : BinaryOperator} (h : operator ≠ .power) (rest : List Token) :
    behind? "**" (.sign operator.sign :: rest) = none := by
  cases operator <;> first | rfl | exact absurd rfl h

variable {fuel limit : Nat} {base a b : Expression} {ts us rest : List Token}

/-- Where an operand ends no suffix is read. -/
theorem suffixes_ends (h : Ends rest) (hfuel : 0 < fuel) :
    suffixes? fuel base rest = some (base, rest) := by
  obtain ⟨f, rfl⟩ := Nat.exists_eq_add_of_lt hfuel
  rw [Nat.zero_add]
  match rest with
  | [] => rfl
  | .word _ :: _ => rfl
  | .number _ :: _ => rfl
  | .sign s :: more =>
    have hcall : s ≠ "(" := fun heq => by simpa [behind?, heq] using h.call
    have hmember : s ≠ "." := fun heq => by simpa [behind?, heq] using h.member
    rw [suffixes?, if_neg hcall, if_neg hmember]

/-- Members are read as suffixes, one by one. -/
theorem suffixes_members (members : List String) (base : Expression) (rest : List Token) :
    suffixes? (fuel + members.length) base
        (members.flatMap (fun text => [Token.sign ".", Token.word text]) ++ rest) =
      suffixes? fuel (members.foldl .member base) rest := by
  induction members generalizing base with
  | nil => rfl
  | cons text more ih =>
    rw [List.length_cons, ← Nat.add_assoc, List.flatMap_cons, List.append_assoc, List.cons_append,
      List.cons_append, List.nil_append, suffixes?, if_neg (by decide), if_pos rfl]
    exact ih (.member base text)

/-- A path is read up to what is done with it. -/
theorem operand_path {head : String} {members : List String}
    (h : reservedWords.contains head = false) (rest : List Token) :
    operand? (fuel + members.length + 2) (pathTokens head members ++ rest) =
      suffixes? (fuel + 1) (path head members) rest := by
  rw [operand?, pathTokens, List.cons_append, primary?, h]
  have hfuel : fuel + members.length + 1 = fuel + 1 + members.length := by omega
  rw [hfuel]
  exact suffixes_members members (.name head) rest

/-- A path of members is placed by itself. -/
theorem isPlaced_path (head : String) (members : List String) :
    (path head members).isPlaced = true := by
  have hall : ∀ (members : List String) (base : Expression), base.isPlaced = true →
      (members.foldl Expression.member base).isPlaced = true := by
    intro members
    induction members with
    | nil => exact fun _ h => h
    | cons text more ih => exact fun base h => ih (.member base text) h
  exact hall members (.name head) rfl

/-- And is no unary operator. -/
theorem isUnary_path (head : String) (members : List String) :
    (path head members).isUnary = false := by
  have hall : ∀ (members : List String) (base : Expression), base.isUnary = false →
      (members.foldl Expression.member base).isUnary = false := by
    intro members
    induction members with
    | nil => exact fun _ h => h
    | cons text more ih => exact fun base h => ih (.member base text) rfl
  exact hall members (.name head) rfl

/-! ## Reading one tree

The fuel that reading asks for is counted in tokens: at one token the readers for an enclosed
expression, a level, a power, an operator, an operand and a value follow each other. -/

/-- **A tree is read off some tokens**, by the readers that a value can stand before. -/
structure Reads (tree : Expression) (ts : List Token) : Prop where
  sign : ∀ rest, (unarySign? (ts ++ rest)).isSome = tree.isUnary
  unary : ∀ {fuel rest}, 8 * ts.length ≤ fuel → Ends rest →
    unary? fuel (ts ++ rest) = tree.placed.map (·, rest)
  operand : tree.isUnary = false → ∀ {fuel rest}, 8 * ts.length ≤ fuel + 1 → Ends rest →
    operand? fuel (ts ++ rest) = tree.placed.map (·, rest)

/-- A tree that is no operator before a value is read by the reader for operands. -/
theorem Reads.ofOperand {tree : Expression} (hunary : tree.isUnary = false) (hlength : 0 < ts.length)
    (hsign : ∀ rest, (unarySign? (ts ++ rest)).isSome = false)
    (h : ∀ {fuel rest}, 8 * ts.length ≤ fuel + 1 → Ends rest →
      operand? fuel (ts ++ rest) = tree.placed.map (·, rest)) : Reads tree ts where
  sign rest := by rw [hsign, hunary]
  unary {fuel rest} hfuel hends := by
    obtain ⟨f, rfl⟩ : ∃ f, fuel = f + 1 := ⟨fuel - 1, by omega⟩
    have hnone : unarySign? (ts ++ rest) = none := by simpa using hsign rest
    rw [unary?, hnone]
    exact h hfuel hends
  operand _ _ _ := h

/-- An operand without a power behind it. -/
theorem Reads.power (h : Reads a ts) (hfuel : 8 * ts.length + 1 ≤ fuel) (hends : Ends rest)
    (hpower : behind? "**" rest = none) : power? fuel (ts ++ rest) = a.placed.map (·, rest) := by
  obtain ⟨f, rfl⟩ : ∃ f, fuel = f + 1 := ⟨fuel - 1, by omega⟩
  rw [power?, h.sign]
  cases hunary : a.isUnary with
  | true => exact h.unary (by omega) hends
  | false =>
    rw [if_neg (by decide), h.operand hunary (by omega) hends]
    cases a.placed with
    | none => rfl
    | some a => simp [hpower]

/-- An operator between two values does not go on behind an expression of a level. -/
def Below (limit : Nat) (rest : List Token) : Prop :=
  behind? "**" rest = none ∧
    ∀ operator more, binarySign? rest = some (operator, more) → operator.level < limit

/-- Nothing is climbed below the limit. -/
theorem climb_below (h : Below limit rest) (hfuel : 0 < fuel) :
    climb? fuel limit a rest = some (a, rest) := by
  obtain ⟨f, rfl⟩ := Nat.exists_eq_add_of_lt hfuel
  rw [Nat.zero_add, climb?]
  split
  next operator more heq => rw [if_neg (Nat.not_le.2 (h.2 operator more heq))]
  · rfl

theorem below_close (limit : Nat) (rest : List Token) : Below limit (.sign ")" :: rest) :=
  ⟨rfl, fun _ _ h => nomatch h⟩

theorem below_nil (limit : Nat) : Below limit [] := ⟨rfl, fun _ _ h => nomatch h⟩

/-- An operand below the limit. -/
theorem Reads.binary (h : Reads a ts) (hfuel : 8 * ts.length + 2 ≤ fuel) (hends : Ends rest)
    (hbelow : Below limit rest) : binary? fuel limit (ts ++ rest) = a.placed.map (·, rest) := by
  obtain ⟨f, rfl⟩ : ∃ f, fuel = f + 1 := ⟨fuel - 1, by omega⟩
  rw [binary?, h.power (by omega) hends hbelow.1]
  cases a.placed with
  | none => rfl
  | some a => exact climb_below hbelow (by omega)

/-- An operand up to its bracket. -/
theorem Reads.enclosed (h : Reads a ts) (hfuel : 8 * ts.length + 3 ≤ fuel) (rest : List Token) :
    enclosed? fuel (ts ++ .sign ")" :: rest) = a.placed.map (·, rest) := by
  obtain ⟨f, rfl⟩ : ∃ f, fuel = f + 1 := ⟨fuel - 1, by omega⟩
  rw [enclosed?, h.binary (by omega) (ends_close rest) (below_close 0 rest)]
  cases a.placed with
  | none => rfl
  | some a => rfl

/-! ## Two operands -/

/-- The operand of a sign is placed alone. -/
theorem placed_unary (operator : UnaryOperator) (a : Expression) :
    (Expression.unary operator a).placed = a.placed.map (.unary operator) := by
  unfold placed
  rw [isPlaced]
  split <;> rfl

/-- The argument of a call is placed alone. -/
theorem placed_call {callee : Expression} (h : callee.isPlaced = true) (a : Expression) :
    (Expression.call callee a).placed = a.placed.map (.call callee) := by
  unfold placed
  rw [isPlaced, h, Bool.true_and]
  split <;> rfl

/-- Operands are placed alone, unless a sign stands under a power. -/
theorem placed_binary {operator : BinaryOperator} (h : operator ≠ .power ∨ a.isUnary = false) :
    (Expression.binary operator a b).placed =
      a.placed.bind fun left => b.placed.map (.binary operator left) := by
  have hplace : (operator == .power && a.isUnary) = false := by
    rcases h with h | h
    · simp [h]
    · simp [h]
  unfold placed
  rw [isPlaced, hplace, Bool.not_false, Bool.and_true]
  cases a.isPlaced <;> cases b.isPlaced <;> rfl

/-- A sign under a power is no expression. -/
theorem placed_powerOfUnary (h : a.isUnary = true) :
    (Expression.binary .power a b).placed = none := by
  simp [placed, isPlaced, h]

/-- Two operands of an operator that groups to the left. -/
theorem Reads.enclosed_leftward {operator : BinaryOperator} (hpower : operator ≠ .power)
    (ha : Reads a ts) (hb : Reads b us) (hfuel : 8 * (ts.length + us.length) + 6 ≤ fuel)
    (rest : List Token) :
    enclosed? fuel (ts ++ .sign operator.sign :: (us ++ .sign ")" :: rest)) =
      (Expression.binary operator a b).placed.map (·, rest) := by
  obtain ⟨f, rfl⟩ : ∃ f, fuel = f + 4 := ⟨fuel - 4, by omega⟩
  rw [placed_binary (.inl hpower), enclosed?, binary?,
    ha.power (by omega) (ends_sign operator _) (behind_power hpower _)]
  cases a.placed with
  | none => rfl
  | some a =>
    simp only [Option.map_some, Option.bind_some]
    rw [climb?, binarySign_sign hpower]
    dsimp only
    rw [if_pos (Nat.zero_le _), hb.binary (by omega) (ends_close rest) (below_close _ rest)]
    cases b.placed with
    | none => rfl
    | some b =>
      simp only [Option.map_some, Option.bind_some]
      rw [climb_below (below_close 0 rest) (by omega)]
      rfl

/-- Base and exponent of a power: an operator before a value is read without the power behind it,
which then nothing takes. -/
theorem Reads.enclosed_power (ha : Reads a ts) (hb : Reads b us)
    (hfuel : 8 * (ts.length + us.length) + 6 ≤ fuel) (rest : List Token) :
    enclosed? fuel (ts ++ .sign "**" :: (us ++ .sign ")" :: rest)) =
      (Expression.binary .power a b).placed.map (·, rest) := by
  obtain ⟨f, rfl⟩ : ∃ f, fuel = f + 4 := ⟨fuel - 4, by omega⟩
  have hends : Ends (.sign "**" :: (us ++ .sign ")" :: rest)) := ends_sign .power _
  rw [enclosed?, binary?, power?, ha.sign]
  -- a unary operator cannot stand in front of the base of a power
  cases hunary : a.isUnary with
  | true =>
    rw [placed_powerOfUnary hunary, if_pos rfl, ha.unary (by omega) hends]
    cases a.placed with
    | none => rfl
    | some a => rfl
  | false =>
    rw [placed_binary (.inr hunary), if_neg (by decide), ha.operand hunary (by omega) hends]
    cases a.placed with
    | none => rfl
    | some a =>
      simp only [Option.map_some, Option.bind_some, behind?, if_true]
      rw [hb.power (by omega) (ends_close rest) rfl]
      cases b.placed with
      | none => rfl
      | some b =>
        simp only [Option.map_some, Option.bind_some]
        rw [climb_below (below_close 0 rest) (by omega)]
        rfl

/-- Two operands and their sign up to the bracket. -/
theorem Reads.enclosed_binary (operator : BinaryOperator) (ha : Reads a ts) (hb : Reads b us)
    (hfuel : 8 * (ts.length + us.length) + 6 ≤ fuel) (rest : List Token) :
    enclosed? fuel (ts ++ .sign operator.sign :: (us ++ .sign ")" :: rest)) =
      (Expression.binary operator a b).placed.map (·, rest) := by
  by_cases hpower : operator = .power
  · subst hpower
    exact ha.enclosed_power hb hfuel rest
  · exact ha.enclosed_leftward hpower hb hfuel rest

/-! ## Grouped trees -/

/-- A member is two tokens. -/
theorem length_pathTokens (head : String) (members : List String) :
    (pathTokens head members).length = 2 * members.length + 1 := by
  induction members with
  | nil => rfl
  | cons text more ih =>
    simp only [pathTokens, List.flatMap_cons, List.length_cons, List.length_append,
      List.length_nil] at ih ⊢
    omega

/-- A path is read when its head is no word of the language. -/
theorem reads_path {head : String} (members : List String)
    (h : reservedWords.contains head = false) :
    Reads (path head members) (pathTokens head members) := by
  refine .ofOperand (isUnary_path head members) (by simp [pathTokens]) (fun _ => rfl) ?_
  intro fuel rest hfuel hends
  rw [length_pathTokens] at hfuel
  obtain ⟨f, rfl⟩ : ∃ f, fuel = f + members.length + 2 := ⟨fuel - members.length - 2, by omega⟩
  rw [operand_path h, suffixes_ends hends (by omega), placed, isPlaced_path]
  rfl

/-- **A tree is read off tokens that a parenthesis closes.** -/
def ReadsEnclosed (tree : Expression) (ts : List Token) : Prop :=
  ∀ fuel rest, 8 * ts.length ≤ fuel → enclosed? fuel (ts ++ rest) = tree.placed.map (·, rest)

/-- The bracket behind an operand is read. -/
theorem Reads.close (h : Reads a ts) : ReadsEnclosed a (ts ++ [.sign ")"]) := by
  intro fuel rest hfuel
  rw [List.length_append, List.length_singleton] at hfuel
  simpa using h.enclosed (by omega) rest

/-- The bracket behind two operands is read. -/
theorem Reads.closeBinary (operator : BinaryOperator) (ha : Reads a ts) (hb : Reads b us) :
    ReadsEnclosed (.binary operator a b) (ts ++ .sign operator.sign :: (us ++ [.sign ")"])) := by
  intro fuel rest hfuel
  simp only [List.length_append, List.length_cons] at hfuel
  simpa using ha.enclosed_binary operator hb (by omega) rest

/-- What stands in parentheses is an operand. -/
theorem ReadsEnclosed.operand {tree : Expression} (h : ReadsEnclosed tree ts)
    (hfuel : 8 * ts.length + 2 ≤ fuel) (hends : Ends rest) :
    operand? fuel (.sign "(" :: ts ++ rest) = tree.placed.map (·, rest) := by
  obtain ⟨f, rfl⟩ : ∃ f, fuel = f + 2 := ⟨fuel - 2, by omega⟩
  rw [operand?, List.cons_append, primary?, if_pos rfl, h f rest (by omega)]
  cases tree.placed with
  | none => rfl
  | some tree => exact suffixes_ends hends (by omega)

/-- The argument of a call stands in parentheses. -/
theorem ReadsEnclosed.call {head : String} (members : List String) {argument : Expression}
    (hhead : reservedWords.contains head = false) (h : ReadsEnclosed argument ts) :
    Reads (.call (path head members) argument) (pathTokens head members ++ .sign "(" :: ts) := by
  refine .ofOperand rfl (by simp [pathTokens]) (fun _ => rfl) ?_
  intro fuel rest hfuel hends
  rw [List.length_append, List.length_cons, length_pathTokens] at hfuel
  obtain ⟨f, rfl⟩ : ∃ f, fuel = f + 1 + members.length + 2 :=
    ⟨fuel - members.length - 3, by omega⟩
  rw [List.append_assoc, operand_path hhead, List.cons_append, suffixes?, if_pos rfl,
    h (f + 1) rest (by omega), placed_call (isPlaced_path head members)]
  cases argument.placed with
  | none => rfl
  | some argument => exact suffixes_ends hends (by omega)

/-- An operator goes before whatever the reader of operators takes. -/
theorem reads_unary (operator : UnaryOperator)
    (h : ∀ fuel rest, 8 * ts.length ≤ fuel → Ends rest →
      unary? fuel (ts ++ rest) = a.placed.map (·, rest)) :
    Reads (.unary operator a) (.sign operator.sign :: ts) where
  sign rest := by
    rw [List.cons_append, unarySign_sign]
    rfl
  unary {fuel rest} hfuel hends := by
    rw [List.length_cons] at hfuel
    obtain ⟨f, rfl⟩ : ∃ f, fuel = f + 1 := ⟨fuel - 1, by omega⟩
    rw [List.cons_append, unary?, unarySign_sign, placed_unary]
    dsimp only
    rw [h f rest (by omega) hends]
    cases a.placed with
    | none => rfl
    | some a => rfl
  operand h := nomatch h

/-- **What is written for a tree is read as the tree**, by induction on the writing. -/
theorem reads_written {tree : Expression} (h : Written tree ts) : Reads tree ts := by
  induction h with
  | path head members h => exact reads_path members h
  | number text =>
    refine .ofOperand rfl (by simp) (fun _ => rfl) ?_
    intro fuel rest hfuel hends
    obtain ⟨f, rfl⟩ : ∃ f, fuel = f + 2 := ⟨fuel - 2, by simp at hfuel; omega⟩
    exact suffixes_ends hends (by omega)
  | unary operator _ ih => exact reads_unary operator fun _ _ hfuel hends => ih.unary hfuel hends
  | unaryGrouped operator _ ih =>
    refine reads_unary operator fun fuel rest hfuel hends => ?_
    rw [List.length_cons] at hfuel
    obtain ⟨f, rfl⟩ : ∃ f, fuel = f + 1 := ⟨fuel - 1, by omega⟩
    exact ih.close.operand (by omega) hends
  | binary operator _ _ iha ihb =>
    refine .ofOperand rfl (by simp) (fun _ => rfl) fun hfuel hends => ?_
    rw [List.length_cons] at hfuel
    exact (iha.closeBinary operator ihb).operand (by omega) hends
  | call head members h _ ih => exact ih.close.call members h
  | callBinary head members h operator _ _ iha ihb =>
    exact (iha.closeBinary operator ihb).call members h

/-- **The tokens of a grouped tree are read as the tree** if its operators are well placed, and as
nothing if not. -/
theorem ofTokens?_written {tree : Expression} (h : Written tree ts) :
    ofTokens? ts = tree.placed := by
  have hread : binary? (8 * ts.length + 8) 0 (ts ++ []) = tree.placed.map (·, []) :=
    (reads_written h).binary (by omega) ends_nil (below_nil 0)
  rw [List.append_nil] at hread
  rw [ofTokens?, hread]
  cases tree.placed with
  | none => rfl
  | some tree => rfl

end Expression

end LuaCompiler.Script
