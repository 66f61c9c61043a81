import LuaCompiler.Proofs.Emit.NumericLoops
import LuaCompiler.Proofs.Script.Calculation
import LuaCompiler.Proofs.Script.StringValues

/-!
# Constant expressions

An expression of whole numerals, strings and the operators that calculate with them is written as a
calculation. Two operators are not kept. The remainder has the sign of the right operand in Lua and
that of the left one in a script. And what puts strings together in a script adds numbers, so two
whole numbers are put together in Lua and added in a script.

* `IsConstant`: a constant expression, and `luaConstant?`: **its value in Lua**.
* `calculation`: what a constant expression is written as.
* `Constant.isKept`, `isKept`: whether an operator, and all literals and operators of an expression,
  are kept.
* `value?_ofOperator`: **which operators keep their value**.
* `calculation_of_text`: **the text of a constant expression is read as its calculation, which has
  the expression's value** if all of it is kept.
-/

namespace LuaCompiler

namespace Emit

open Script (Arithmetic Calculation Composes Consists Datum Piece Silent decimalUnits)
open Script.Calculation (Written)
open Script.Decision (opening closing)

/-! ## Values in Lua -/

/-- The operators of constants: sum, difference, product, whole quotient and remainder, and the one
that puts strings together. -/
def constantOperators : List BinaryOperator := [.add, .sub, .mul, .floorDiv, .mod, .concat]

/-- **An expression of whole numerals and strings** with the minus sign and these operators. -/
inductive IsConstant : Expr → Prop
  | integer {id span value raw n} (h : Numeral.whole? raw.toList = some n) :
    IsConstant ⟨id, span, .number value raw⟩
  | string {id span raw} (h : (Token.Kind.string raw).isSpelled = true) :
    IsConstant ⟨id, span, .string raw⟩
  | negative {id span e} (h : IsConstant e) : IsConstant ⟨id, span, .unary .neg e⟩
  | binary {id span left right} (operator : BinaryOperator)
    (h : operator ∈ constantOperators) (hleft : IsConstant left) (hright : IsConstant right) :
    IsConstant ⟨id, span, .binary operator left right⟩

/-- The value of a constant expression: a whole number, or the code units of a string. -/
inductive Constant where
  | integer (n : Int)
  | text (units : List Nat)
deriving DecidableEq

namespace Constant

/-- What is put together where a string is wanted. -/
def units : Constant → List Nat
  | integer n => decimalUnits n
  | text units => units

/-- The same value in a script. -/
def datum : Constant → Datum
  | integer n => .number n
  | text units => .text units

/-- A whole number that numbers of 64 bits hold exactly, and its neighbours as well. -/
def ofInt? (n : Int) : Option Constant := if n.natAbs < 2 ^ 53 then some (.integer n) else none

/-- The minus sign in Lua. -/
def negative? : Constant → Option Constant
  | integer n => ofInt? (-n)
  | text _ => none

/-- **What an operator gives in Lua**: a quotient is rounded down, and a remainder is what is left
then. -/
def binary? : BinaryOperator → Constant → Constant → Option Constant
  | .add, integer a, integer b => ofInt? (a + b)
  | .sub, integer a, integer b => ofInt? (a - b)
  | .mul, integer a, integer b => ofInt? (a * b)
  | .floorDiv, integer a, integer b => if b = 0 then none else ofInt? (a.fdiv b)
  | .mod, integer a, integer b => if b = 0 then none else ofInt? (a.fmod b)
  | .concat, a, b => some (text (a.units ++ b.units))
  | _, _, _ => none

/-- Whether an operator gives the same in a script: a remainder if there is none or the operands
have one sign, and a string unless it is put together from two numbers. -/
def isKept : BinaryOperator → Constant → Constant → Bool
  | .mod, integer a, integer b => b ∣ a ∨ (0 ≤ a ↔ 0 ≤ b)
  | .concat, integer _, integer _ => false
  | _, _, _ => true

end Constant

mutual

/-- **The value of a constant expression in Lua**, if it has one and all numbers on the way are
exact. -/
def luaConstant? : Expr → Option Constant
  | ⟨_, _, kind⟩ => luaConstantKind? kind

/-- The value of a constant expression of a kind in Lua. -/
def luaConstantKind? : ExprKind → Option Constant
  | .number _ raw => (Numeral.luaInteger? raw.toList).bind Constant.ofInt?
  | .string raw => (StringLiteral.luaUnits? raw).map .text
  | .unary .neg e => (luaConstant? e).bind Constant.negative?
  | .binary operator left right =>
    (luaConstant? left).bind fun a => (luaConstant? right).bind fun b => Constant.binary? operator a b
  | _ => none

end

mutual

/-- **Whether all literals and operators of a constant expression are kept.** -/
def isKept : Expr → Bool
  | ⟨_, _, kind⟩ => isKeptKind kind

/-- Whether all literals and operators of a constant expression of a kind are kept. -/
def isKeptKind : ExprKind → Bool
  | .number _ raw =>
    !Script.hasSpareZero (raw.toList.takeWhile Char.isDigit) &&
      (Numeral.hexDigits? raw.toList).all fun digits => Numeral.hexNumber digits < 2 ^ 63
  | .string raw => StringLiteral.carries raw
  | .unary _ e => isKept e
  | .binary operator left right =>
    isKept left && isKept right &&
      (luaConstant? left).all fun a => (luaConstant? right).all fun b => Constant.isKept operator a b
  | _ => true

end

/-! ## Calculations -/

/-- The operator that is written for one of Lua. -/
def arithmetic : BinaryOperator → Arithmetic
  | .sub => .minus
  | .mul => .times
  | .floorDiv => .divide
  | .mod => .remainder
  | _ => .plus

/-- The calculation of an operator: a quotient is rounded down. -/
def ofOperator (operator : BinaryOperator) (left right : Calculation) : Calculation :=
  if operator = .floorDiv then .rounded (.binary .divide left right)
  else .binary (arithmetic operator) left right

mutual

/-- **What a constant expression is written as.** -/
def calculation : Expr → Calculation
  | ⟨_, _, kind⟩ => kindCalculation kind

/-- What a constant expression of a kind is written as. -/
def kindCalculation : ExprKind → Calculation
  | .number _ raw => .word raw.toList
  | .string raw => .literal (StringLiteral.toScript raw).toList
  | .unary _ e => .negative (calculation e)
  | .binary operator left right => ofOperator operator (calculation left) (calculation right)
  | _ => .word []

end

section Values

variable {a b v : Constant} {cl cr : Calculation} {operator : BinaryOperator}

theorem units?_datum (v : Constant) : v.datum.units? = some v.units := by
  cases v with
  | integer n =>
    rw [Constant.datum, Datum.units?, Rat.den_intCast, if_pos rfl, Rat.num_intCast]
    rfl
  | text units => rfl

theorem eq_of_ofInt? {n : Int} (h : Constant.ofInt? n = some v) : v = .integer n := by
  unfold Constant.ofInt? at h
  split at h
  · exact (Option.some.inj h).symm
  · cases h

/-- A quotient is rounded down in both languages. -/
theorem floor_div (a : Int) (b : Int) : ⌊(a : Rat) / (b : Rat)⌋ = a.fdiv b := by
  obtain ⟨n, rfl | rfl⟩ := b.eq_nat_or_neg
  · rw [Int.fdiv_eq_ediv_of_nonneg _ (Int.natCast_nonneg n)]
    exact Rat.floor_intCast_div_natCast a n
  · have hopposite := Rat.floor_intCast_div_natCast (-a) n
    rw [← Int.fdiv_eq_ediv_of_nonneg _ (Int.natCast_nonneg n)] at hopposite
    rw [← Int.neg_fdiv_neg, Int.neg_neg, ← hopposite]
    push_cast
    rw [div_neg, neg_div]

/-- **When both remainders are one.** -/
theorem tmod_eq_fmod_iff {a b : Int} (hb : b ≠ 0) :
    a.tmod b = a.fmod b ↔ b ∣ a ∨ (0 ≤ a ↔ 0 ≤ b) := by
  rw [Int.tmod_eq_fmod]
  by_cases hdvd : b ∣ a
  · simp [hdvd]
  · rw [if_neg hdvd]
    split <;> split <;> omega

/-- Every operator but the one that puts strings together is between whole numbers. -/
theorem integers_of_binary? (hconcat : operator ≠ .concat)
    (h : Constant.binary? operator a b = some v) : ∃ m n, a = .integer m ∧ b = .integer n := by
  cases a with
  | integer m =>
    cases b with
    | integer n => exact ⟨m, n, rfl, rfl⟩
    | text units => cases operator <;> contradiction
  | text units => cases operator <;> contradiction

/-- The quotient of whole numbers. -/
theorem result?_divide (m : Int) {n : Int} (hn : n ≠ 0) :
    Arithmetic.divide.result? (.number m) (.number n) = some (.number ((m : Rat) / n)) := by
  have hzero : ¬ (n : Rat) = 0 := Int.cast_ne_zero.2 hn
  rw [Arithmetic.result?, if_neg hzero]

/-- The remainder of whole numbers. -/
theorem result?_remainder (m : Int) {n : Int} (hn : n ≠ 0) :
    Arithmetic.remainder.result? (.number m) (.number n) = some (.number (m.tmod n : Int)) := by
  have hwhole : (m : Rat).den = 1 ∧ (n : Rat).den = 1 ∧ (n : Rat) ≠ 0 :=
    ⟨Rat.den_intCast m, Rat.den_intCast n, Int.cast_ne_zero.2 hn⟩
  rw [Arithmetic.result?, if_pos hwhole, Rat.num_intCast, Rat.num_intCast]

/-- **When two values are put together as in Lua**: if one of them is a string. -/
theorem result?_plus_iff (a b : Constant) :
    Arithmetic.plus.result? a.datum b.datum = some (.text (a.units ++ b.units)) ↔
      Constant.isKept .concat a b = true := by
  have hunits : a.datum.units?.bind (fun front => b.datum.units?.map fun back =>
      Datum.text (front ++ back)) = some (.text (a.units ++ b.units)) := by
    rw [units?_datum, units?_datum, Option.bind_some, Option.map_some]
  cases a with
  | text units => exact ⟨fun _ => rfl, fun _ => hunits⟩
  | integer m =>
    cases b with
    | text units => exact ⟨fun _ => rfl, fun _ => hunits⟩
    -- two numbers are added
    | integer n => exact ⟨nofun, nofun⟩

/-- **Which operators keep their value**: those that are kept, and no others. -/
theorem value?_ofOperator (hoperator : operator ∈ constantOperators)
    (hl : cl.value? = some a.datum) (hr : cr.value? = some b.datum)
    (h : Constant.binary? operator a b = some v) :
    (ofOperator operator cl cr).value? = some v.datum ↔ Constant.isKept operator a b = true := by
  have hbinary (sign : Arithmetic) :
      (Calculation.binary sign cl cr).value? = sign.result? a.datum b.datum := by
    rw [Calculation.value?, hl, hr, Option.bind_some, Option.bind_some]
  by_cases hconcat : operator = .concat
  · subst hconcat
    obtain rfl := Option.some.inj h
    rw [← result?_plus_iff, ← hbinary]
    rfl
  -- all operators but concatenation take whole numbers
  obtain ⟨m, n, rfl, rfl⟩ := integers_of_binary? hconcat h
  have hdatum (k : Int) : (Constant.integer k).datum = .number k := rfl
  simp only [hdatum] at hbinary
  cases operator with
  | add =>
    obtain rfl := eq_of_ofInt? h
    rw [hdatum, Int.cast_add]
    exact ⟨fun _ => rfl, fun _ => hbinary .plus⟩
  | sub =>
    obtain rfl := eq_of_ofInt? h
    rw [hdatum, Int.cast_sub]
    exact ⟨fun _ => rfl, fun _ => hbinary .minus⟩
  | mul =>
    obtain rfl := eq_of_ofInt? h
    rw [hdatum, Int.cast_mul]
    exact ⟨fun _ => rfl, fun _ => hbinary .times⟩
  | floorDiv =>
    rw [Constant.binary?] at h
    split at h
    · cases h
    next hzero =>
      obtain rfl := eq_of_ofInt? h
      have hquotient := (hbinary .divide).trans (result?_divide m hzero)
      refine ⟨fun _ => rfl, fun _ => ?_⟩
      rw [ofOperator, if_pos rfl, Calculation.value?, hquotient, hdatum, ← floor_div]
  | mod =>
    rw [Constant.binary?] at h
    split at h
    · cases h
    next hzero =>
      obtain rfl := eq_of_ofInt? h
      -- the remainder of division towards zero is the one of Lua for some operands only
      have hremainder : (ofOperator .mod cl cr).value? = some (.number (m.tmod n : Int)) :=
        (hbinary .remainder).trans (result?_remainder m hzero)
      rw [hremainder, hdatum, Constant.isKept, decide_eq_true_eq, ← tmod_eq_fmod_iff hzero,
        Option.some_inj, Datum.number.injEq, Int.cast_inj]
  | concat => exact absurd rfl hconcat
  | _ => exact absurd hoperator (by decide)

/-- A whole numeral is a word for the number that it is in Lua. -/
theorem value?_integer (value : Binary64.Magnitude) {raw : String} {n : Nat}
    (hwhole : Numeral.whole? raw.toList = some n)
    (h : luaConstantKind? (.number value raw) = some v)
    (hkept : isKeptKind (.number value raw) = true) :
    (Calculation.word raw.toList).value? = some v.datum := by
  rw [isKeptKind, Bool.and_eq_true] at hkept
  obtain ⟨hzero, hwraps⟩ := hkept
  have hnumber := Script.numberOf?_whole hwhole (by simpa using hzero)
  -- 63 bits are not wrapped
  have hexact : (if (Numeral.hexDigits? raw.toList).isSome then Numeral.wrapped n else n) = n := by
    rcases Numeral.whole?_cases hwhole with ⟨hdecimal, -⟩ | ⟨digits, hhex, -, -, hdigits⟩
    · rw [hdecimal, if_neg (by decide)]
    · rw [hhex, Option.all_some, decide_eq_true_eq, hdigits] at hwraps
      rw [hhex, if_pos Option.isSome_some]
      exact (Numeral.wrapped_eq_iff n).2 hwraps
  rw [luaConstantKind?, Numeral.luaInteger?, hwhole, Option.map_some, hexact,
    Option.bind_some] at h
  rw [Calculation.value?, hnumber, eq_of_ofInt? h, Option.map_some, Constant.datum,
    Int.cast_natCast]

/-- What the operands of an operator give, and what the operator makes of it. -/
theorem luaConstant?_binary {id : NodeId} {span : Span} {left right : Expr}
    (h : luaConstant? ⟨id, span, .binary operator left right⟩ = some v) :
    ∃ a b, luaConstant? left = some a ∧ luaConstant? right = some b ∧
      Constant.binary? operator a b = some v := by
  obtain ⟨a, ha, h⟩ := Option.bind_eq_some_iff.1 h
  obtain ⟨b, hb, h⟩ := Option.bind_eq_some_iff.1 h
  exact ⟨a, b, ha, hb, h⟩

/-- **The calculation of a constant expression has the expression's value** if all of it is kept. -/
theorem value?_calculation {e : Expr} (he : IsConstant e) (h : luaConstant? e = some v)
    (hkept : isKept e = true) : (calculation e).value? = some v.datum := by
  induction he generalizing v with
  | @integer id span value raw n hwhole => exact value?_integer value hwhole h hkept
  | @string id span raw hspelled =>
    obtain ⟨units, hunits, rfl⟩ := Option.map_eq_some_iff.1 h
    have hliteral := StringLiteral.literalUnits_toScript hspelled hunits hkept
    change (Calculation.literal (StringLiteral.toScript raw).toList).value? = _
    rw [Calculation.value?, String.ofList_toList, hliteral]
    rfl
  | @negative id span e he ih =>
    obtain ⟨a, ha, h⟩ := Option.bind_eq_some_iff.1 h
    have hvalue := ih ha hkept
    change (Calculation.negative (calculation e)).value? = _
    cases a with
    | integer n =>
      rw [eq_of_ofInt? h, Calculation.value?, hvalue, Constant.datum, Constant.datum, Int.cast_neg]
    | text units => cases h
  | @binary id span left right operator hoperator hl hr ihl ihr =>
    obtain ⟨a, b, ha, hb, h⟩ := luaConstant?_binary h
    obtain ⟨hoperands, hagrees⟩ := Bool.and_eq_true_iff.1 hkept
    obtain ⟨hleft, hright⟩ := Bool.and_eq_true_iff.1 hoperands
    rw [ha, hb, Option.all_some, Option.all_some] at hagrees
    exact (value?_ofOperator hoperator (ihl ha hleft) (ihr hb hright) h).2 hagrees

end Values

/-! ## Texts -/

section Texts

variable {s t : String} {ps qs : List Piece} {cl cr : Calculation} {operator : BinaryOperator}

/-- A text that is written for a calculation. -/
def Calculates (c : Calculation) (text : String) : Prop := ∃ ps, Written c ps ∧ Composes text ps

theorem composes_parens (h : Composes t ps) : Composes (parens t) (opening ++ (ps ++ closing)) := by
  have hopen : Composes "(" opening := by decide
  have hclose : Composes ")" closing := by decide
  have hfront := hopen.append h (.inl (by decide)) (.inl (by decide))
  rw [parens, ← List.append_assoc]
  exact hfront.append hclose (.inr (by decide)) (.inr (by decide))

/-- An operator between two texts. -/
theorem composes_operator (hoperator : operator ∈ constantOperators) (hs : Composes s ps)
    (ht : Composes t qs) :
    Composes (s ++ " " ++ operatorSign operator ++ " " ++ t)
      (ps ++ .sign (arithmetic operator).sign :: qs) := by
  have hsign : ∀ operator ∈ constantOperators,
      let sign := " " ++ operatorSign operator ++ " "
      Composes sign [.sign (arithmetic operator).sign] ∧
        (Script.startsWord sign = false ∧ Script.endsWord sign = false ∧ sign ≠ "") ∧
        sign.toList.head? ≠ some '-' ∧ sign.toList.getLast? ≠ some '-' := by decide
  obtain ⟨hcomposes, hword, hminus⟩ := hsign operator hoperator
  have hall := hs.join hcomposes ht hword hminus
  simpa only [String.append_assoc, List.append_assoc, List.singleton_append] using hall

/-- **An operator between the texts of two calculations** is written as one. -/
theorem calculates_nativeBinary (hoperator : operator ∈ constantOperators)
    (hl : Calculates cl s) (hr : Calculates cr t) :
    Calculates (ofOperator operator cl cr) (nativeBinary operator s t) := by
  obtain ⟨ps, hps, hs⟩ := hl
  obtain ⟨qs, hqs, ht⟩ := hr
  have hparens := composes_parens (composes_operator hoperator hs ht)
  -- a floored quotient is a call around the calculation, the others are in brackets
  by_cases hfloor : operator = .floorDiv
  · subst hfloor
    have hfront : Composes "Math.floor" [.word "Math".toList, .sign '.', .word "floor".toList] := by
      decide
    -- the bracket ends the name of the function
    have hstart : Script.startsWord (parens (s ++ " " ++ "/" ++ " " ++ t)) = false := by
      rw [parens]
      exact Script.startsWord_append_of (Script.startsWord_append_of (by decide) (by decide) _)
        (by simp) _
    have hall := hfront.append hparens (.inr hstart) (.inl (by decide))
    have htext : nativeBinary .floorDiv s t =
        "Math.floor" ++ parens (s ++ " " ++ operatorSign .floorDiv ++ " " ++ t) := by
      have hquotient : " / " = " " ++ operatorSign .floorDiv ++ " " := by decide
      rw [nativeBinary, hquotient]
      simp only [String.append_assoc]
    rw [htext]
    refine ⟨_, .rounded .divide hps hqs, ?_⟩
    simpa [Calculation.rounding, opening, arithmetic] using hall
  · have htext : nativeBinary operator s t =
        parens (s ++ " " ++ operatorSign operator ++ " " ++ t) := by
      unfold nativeBinary
      split
      · exact absurd rfl hfloor
      · rfl
    rw [htext, ofOperator, if_neg hfloor]
    refine ⟨_, .binary (arithmetic operator) hps hqs, ?_⟩
    simpa using hparens

/-- **A minus sign before the text of a calculation.** -/
theorem calculates_minus {ctx : Context} {c : Calculation} (hmode : ctx.operatorMode = false)
    (h : Calculates c t) : Calculates (.negative c) (unaryText ctx .neg t) := by
  obtain ⟨ps, hps, ht⟩ := h
  have hminus : Composes "-" [.sign '-'] := by decide
  rw [unaryText, hmode, if_neg Bool.false_ne_true]
  split
  -- parentheses keep the sign apart from another one
  · refine ⟨_, .negative (.parens hps), ?_⟩
    refine hminus.append (composes_parens ht) (.inl (by decide)) (.inr ?_)
    simp [parens]
  next hstart =>
    have hhead : t.toList.head? ≠ some '-' := by
      intro hhead
      obtain ⟨tail, htail⟩ := List.head?_eq_some_iff.1 hhead
      exact hstart (by simp [Text.startsWith, htail])
    exact ⟨_, .negative hps, hminus.append ht (.inl (by decide)) (.inr hhead)⟩

end Texts

section Expressions

variable {ctx : Context} {e : Expr} {v : Constant}

/-- The comments around a calculation are no part of it. -/
theorem calculates_around {node : Emit String} {c : Calculation} (h : Delivers node (Calculates c))
    (span : Span) : Delivers (around span node) (Calculates c) := by
  refine h.around (fun front t back hfront hback ht => ?_) span
  obtain ⟨ps, hps, ht⟩ := ht
  exact ⟨ps, hps, ht.within hfront hback⟩

/-- **A constant expression is written as its calculation.** A string beside a comparison may be the
name of a type. -/
theorem calculates_expression (hmode : ctx.operatorMode = false) (he : IsConstant e) (role : Role)
    (hrole : ∀ raw, e.kind = .string raw → role.string raw = StringLiteral.toScript raw) :
    Delivers (expression ctx role e) (Calculates (calculation e)) := by
  induction he generalizing role with
  | @integer id span value raw n hwhole =>
    obtain ⟨hchars, hempty⟩ := word_of_whole? hwhole
    have hword : raw.toList ≠ "Math".toList := by
      intro heq
      rw [heq] at hwhole
      cases hwhole
    rw [expression]
    refine calculates_around ?_ span
    rw [expressionKind, Script.script_eq_raw (Numeral.isHexFloat_of_whole? hwhole)]
    exact delivers_pure ⟨_, .word hword, (consists_word hchars hempty).composes (by simp)⟩
  | @string id span raw hspelled =>
    rw [expression]
    refine calculates_around ?_ span
    rw [expressionKind, hrole raw rfl]
    exact delivers_pure ⟨_, .literal _, (Script.consists_toScript raw).composes (by simp)⟩
  | @negative id span e he ih =>
    rw [expression]
    refine calculates_around ?_ span
    rw [expressionKind]
    refine (ih .single fun raw _ => ?_).bind fun t ht => delivers_pure (calculates_minus hmode ht)
    exact if_neg fun h => absurd h.1 (by decide)
  | @binary id span left right operator hoperator hl hr ihl ihr =>
    have hplain (raw : String) : Role.single.string raw = StringLiteral.toScript raw :=
      if_neg fun h => absurd h.1 (by decide)
    -- no operator of constants is a comparison, beside which strings can be names of types
    have hsingle : ∀ operator ∈ constantOperators, Role.operand operator = .single := by decide
    rw [expression]
    refine calculates_around ?_ span
    rw [expressionKind, hsingle operator hoperator]
    refine (ihl .single fun raw _ => hplain raw).bind fun s hs => ?_
    refine (ihr .single fun raw _ => hplain raw).bind fun t ht => ?_
    have htext : binaryText ctx operator (left.isString || right.isString) s t =
        nativeBinary operator s t := by
      rw [binaryText, hmode]
      rfl
    rw [htext]
    exact delivers_pure (calculates_nativeBinary hoperator hs ht)

/-- **The text of a constant expression** outside operator mode is one calculation, with whatever
comments of the source inside. If all literals and operators of the expression are kept, the
calculation has the expression's value in Lua. And an operator between operands that are kept loses
its value if it is a remainder that is not zero and whose operands have different signs, or if it
puts two whole numbers together, and in no other case. -/
theorem calculation_of_text (hmode : ctx.operatorMode = false) (he : IsConstant e)
    (hv : luaConstant? e = some v) {p : Progress} (hcomments : ∀ c ∈ p.comments.waiting, c.IsTidy)
    (role : Role)
    (hrole : ∀ raw, e.kind = .string raw → role.string raw = StringLiteral.toScript raw) :
    Calculation.read ((expression ctx role e).run p).1 = some (calculation e) ∧
      (isKept e = true → (calculation e).value? = some v.datum) ∧
      ∀ id span operator left right a b, e = ⟨id, span, .binary operator left right⟩ →
        luaConstant? left = some a → luaConstant? right = some b →
          isKept left = true → isKept right = true →
            ((calculation e).value? = some v.datum ↔ Constant.isKept operator a b = true) := by
  obtain ⟨⟨ps, hps, htext⟩, -⟩ := calculates_expression hmode he role hrole p hcomments
  refine ⟨Calculation.read_written hps htext, value?_calculation he hv, ?_⟩
  rintro id span operator left right a b rfl ha hb hleft hright
  obtain ⟨a', b', ha', hb', hoperator⟩ := luaConstant?_binary hv
  obtain rfl : a' = a := Option.some.inj (ha'.symm.trans ha)
  obtain rfl : b' = b := Option.some.inj (hb'.symm.trans hb)
  cases he with
  | binary _ hmem hl hr =>
    exact value?_ofOperator hmem (value?_calculation hl ha hleft) (value?_calculation hr hb hright)
      hoperator

/-- `- -7 // 2 .. ': ' .. (0x11 - 20) * 3 % -4` -/
def constantSample : Expr :=
  ⟨0, default, .binary .concat
    ⟨1, default, .binary .floorDiv ⟨2, default, .unary .neg (minusSample 3 7 "7")⟩
      (wholeSample 5 2 "2")⟩
    ⟨6, default, .binary .concat ⟨7, default, .string "': '"⟩
      ⟨8, default, .binary .mod
        ⟨9, default, .binary .mul
          ⟨10, default, .binary .sub (wholeSample 11 17 "0x11") (wholeSample 12 20 "20")⟩
          (wholeSample 13 3 "3")⟩
        (minusSample 14 4 "4")⟩⟩⟩

theorem calculation_of_text_constantSample :
    let ctx : Context := { options := {}, annotations := {}, fileName := "m", operatorMode := false }
    let p : Progress := { comments := ⟨[], 0⟩, registries := .empty }
    let text := "(Math.floor(-(-7) / 2) + (\": \" + (((0x11 - 20) * 3) % -4)))"
    IsConstant constantSample ∧
      luaConstant? constantSample = some (.text (Text.units "3: -1".toList)) ∧
      ((expression ctx .single constantSample).run p).1 = text ∧
      ∃ c, Calculation.read text = some c ∧ c.value? = some (.text (Text.units "3: -1".toList)) := by
  intro ctx p text
  have hwhole (id : NodeId) (n : Nat) (raw : String)
      (h : (Numeral.whole? raw.toList).isSome = true) : IsConstant (wholeSample id n raw) := by
    obtain ⟨m, hm⟩ := Option.isSome_iff_exists.1 h
    exact .integer hm
  have hconstant : IsConstant constantSample :=
    .binary .concat (by decide)
      (.binary .floorDiv (by decide) (.negative (.negative (hwhole 4 7 "7" (by decide))))
        (hwhole 5 2 "2" (by decide)))
      (.binary .concat (by decide) (.string (by decide +kernel))
        (.binary .mod (by decide)
          (.binary .mul (by decide)
            (.binary .sub (by decide) (hwhole 11 17 "0x11" (by decide))
              (hwhole 12 20 "20" (by decide)))
            (hwhole 13 3 "3" (by decide)))
          (.negative (hwhole 15 4 "4" (by decide)))))
  have hlua : luaConstant? constantSample = some (.text (Text.units "3: -1".toList)) := by
    decide +kernel
  have htext : ((expression ctx .single constantSample).run p).1 = text := by decide +kernel
  have hmode : ctx.operatorMode = false := rfl
  obtain ⟨hread, hvalue, -⟩ :=
    calculation_of_text (p := p) hmode hconstant hlua (List.forall_mem_nil _) .single nofun
  rw [htext] at hread
  exact ⟨hconstant, hlua, htext, _, hread, hvalue (by decide +kernel)⟩

/-- A remainder of operands with different signs, and two numbers put together. -/
example :
    (compile .keep "local n = -7 % 3" "Game/UI/test.lua" .empty {}).1.code = "let n = (-7 % 3)" ∧
      (Calculation.read "(-7 % 3)").bind Calculation.value? = some (.number (-1)) ∧
      Constant.binary? .mod (.integer (-7)) (.integer 3) = some (.integer 2) ∧
    (compile .keep "local s = 1 .. 2" "Game/UI/test.lua" .empty {}).1.code = "let s = (1 + 2)" ∧
      (Calculation.read "(1 + 2)").bind Calculation.value? = some (.number 3) ∧
      Constant.binary? .concat (.integer 1) (.integer 2) = some (.text [49, 50]) := by
  repeat rw [compile, parse_ofList]
  decide +kernel

end Expressions

end Emit

end LuaCompiler
