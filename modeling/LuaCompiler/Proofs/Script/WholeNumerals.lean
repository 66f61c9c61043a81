import LuaCompiler.Proofs.Script.NumeralValues

/-!
# Whole numerals

A numeral of digits alone, decimal or hexadecimal, spells a whole number. The number of 64 bits that
stands for it may be rounded, but is nothing for zero alone and one for one alone: rounding takes no
number of at least two below two.

* `Binary64.Magnitude.isSized`: what a number of 64 bits tells of the whole number it stands for.
* `Numeral.isSized_of_value?`: **the number of a whole numeral tells zero, one and the others apart**.
* `Script.numberOf?_whole`: what a script reads.
-/

namespace LuaCompiler

namespace Binary64

/-! ## Numbers of at least two -/

/-- A number of at least two that is not rounded away. -/
def Magnitude.isAtLeastTwo : Magnitude → Bool
  | finite significand exponent => 2 ^ 52 ≤ significand && -51 ≤ exponent
  | infinite => true
  | nan => false

/-- What a number of 64 bits tells of the whole number that it stands for: that it is zero, that it
is one, or that it is greater. -/
def Magnitude.isSized (value : Magnitude) : Nat → Bool
  | 0 => value = zero
  | 1 => value = one
  | _ => value.isAtLeastTwo

theorem le_roundDiv {q num den : Nat} (hden : 0 < den) (h : q * den ≤ num) :
    q ≤ roundDiv num den := by
  have hq : q ≤ num / den := (Nat.le_div_iff_mul_le hden).2 h
  unfold roundDiv
  dsimp only
  split <;> omega

/-- The power of two below a fraction of at least two. -/
theorem log2Ratio_spec {num den : Nat} (hden : 0 < den) (h : 2 * den ≤ num) :
    ∃ k : Nat, log2Ratio num den = (k + 1 : Nat) ∧ den * 2 ^ (k + 1) ≤ num := by
  have hnum : num ≠ 0 := by omega
  have hlower : den < 2 ^ (den.log2 + 1) := Nat.lt_log2_self
  have hupper : 2 ^ num.log2 ≤ num := Nat.log2_self_le hnum
  have hmore : den.log2 + 1 ≤ num.log2 := by
    rw [Nat.le_log2 hnum, Nat.pow_succ]
    have hself : 2 ^ den.log2 ≤ den := Nat.log2_self_le (by omega)
    omega
  obtain ⟨k, hk⟩ : ∃ k, num.log2 = den.log2 + 1 + k := ⟨_, (Nat.add_sub_of_le hmore).symm⟩
  have hestimate : (num.log2 : Int) - den.log2 = (k + 1 : Nat) := by omega
  unfold log2Ratio dyadic
  dsimp only
  rw [hestimate, if_pos (Int.natCast_nonneg _), Int.toNat_natCast, Nat.mul_one]
  split
  next hle => exact ⟨k, rfl, hle⟩
  next hlt =>
    -- the estimate is one too high, so it is two at least
    obtain ⟨j, rfl⟩ : ∃ j, k = j + 1 := by
      refine ⟨k - 1, (Nat.sub_add_cancel (Nat.pos_of_ne_zero fun hzero => hlt ?_)).symm⟩
      rw [hzero]
      change den * 2 ≤ num
      omega
    refine ⟨j, by omega, ?_⟩
    calc den * 2 ^ (j + 1) ≤ 2 ^ (den.log2 + 1) * 2 ^ (j + 1) := Nat.mul_le_mul_right _ hlower.le
      _ = 2 ^ num.log2 := by rw [← Nat.pow_add, hk]
      _ ≤ num := hupper

namespace Magnitude

variable {v : Magnitude}

theorem isAtLeastTwo_finite {significand : Nat} {exponent : Int} :
    (finite significand exponent).isAtLeastTwo = true ↔ 2 ^ 52 ≤ significand ∧ -51 ≤ exponent := by
  rw [isAtLeastTwo, Bool.and_eq_true, decide_eq_true_eq, decide_eq_true_eq]

/-- **Rounding takes no number of at least two below two.** -/
theorem isAtLeastTwo_ofRatio {num den : Nat} (hden : 0 < den) (h : 2 * den ≤ num) :
    (ofRatio num den).isAtLeastTwo = true := by
  obtain ⟨k, hlog, hpower⟩ := log2Ratio_spec hden h
  have hexponent : max (log2Ratio num den - (precision - 1 : Nat)) leastExponent = (k : Int) - 51 := by
    rw [hlog]
    simp only [precision, leastExponent]
    omega
  -- the quotient is scaled to 53 digits, whichever way the exponent goes
  have hsignificand : 2 ^ 52 ≤
      roundDiv (num * (dyadic 1 (-((k : Int) - 51))).1) (den * (dyadic 1 (-((k : Int) - 51))).2) := by
    unfold dyadic
    split
    next hle =>
      refine le_roundDiv (by omega) ?_
      have hsum : 52 = (k + 1) + (-((k : Int) - 51)).toNat := by omega
      calc 2 ^ 52 * (den * 1) = den * 2 ^ (k + 1) * 2 ^ (-((k : Int) - 51)).toNat := by
            rw [Nat.mul_assoc, ← Nat.pow_add, ← hsum]
            ring
        _ ≤ num * 2 ^ (-((k : Int) - 51)).toNat := Nat.mul_le_mul_right _ hpower
        _ = _ := by
          change _ = num * (1 * 2 ^ (-((k : Int) - 51)).toNat)
          rw [Nat.one_mul]
    next hgt =>
      have hsum : k + 1 = 52 + (- -((k : Int) - 51)).toNat := by omega
      refine le_roundDiv (Nat.mul_pos hden (Nat.pow_pos (by decide))) ?_
      calc 2 ^ 52 * (den * 2 ^ (- -((k : Int) - 51)).toNat) = den * 2 ^ (k + 1) := by
            rw [hsum, Nat.pow_add]
            ring
        _ ≤ num * 1 := by omega
  -- rounding up to the next power only makes the exponent larger
  unfold ofRatio
  rw [if_neg (by omega), hexponent]
  dsimp only
  split
  · split
    · rfl
    · exact isAtLeastTwo_finite.2 ⟨Nat.le_refl _, by omega⟩
  · split
    · rfl
    · exact isAtLeastTwo_finite.2 ⟨hsignificand, by omega⟩

theorem isAtLeastTwo_ofDyadic {n : Nat} {e : Int} (h : 2 ^ (1 - e).toNat ≤ n) :
    (ofDyadic n e).isAtLeastTwo = true := by
  unfold ofDyadic
  by_cases he : 0 ≤ e
  · rw [dyadic, if_pos he]
    refine isAtLeastTwo_ofRatio Nat.one_pos ?_
    calc 2 * 1 = 2 ^ 1 := rfl
      _ ≤ 2 ^ ((1 - e).toNat + e.toNat) := Nat.pow_le_pow_right (by decide) (by omega)
      _ = 2 ^ (1 - e).toNat * 2 ^ e.toNat := Nat.pow_add ..
      _ ≤ n * 2 ^ e.toNat := Nat.mul_le_mul_right _ h
  · rw [dyadic, if_neg he]
    refine isAtLeastTwo_ofRatio (Nat.two_pow_pos _) ?_
    have hsplit : (1 - e).toNat = (-e).toNat + 1 := by omega
    calc 2 * 2 ^ (-e).toNat = 2 ^ (1 - e).toNat := by rw [hsplit, Nat.pow_succ, Nat.mul_comm]
      _ ≤ n := h

/-- A number of at least two times one of at least one. -/
theorem isAtLeastTwo_mul (hv : v.isAtLeastTwo = true) {q : Int} (hq : -52 ≤ q) :
    (v.mul (finite (2 ^ 52) q)).isAtLeastTwo = true := by
  cases v with
  | infinite => rfl
  | nan => cases hv
  | finite a p =>
    rw [isAtLeastTwo_finite] at hv
    refine isAtLeastTwo_ofDyadic ?_
    calc 2 ^ (1 - (p + q)).toNat ≤ 2 ^ (52 + 52) := Nat.pow_le_pow_right (by decide) (by omega)
      _ = 2 ^ 52 * 2 ^ 52 := Nat.pow_add ..
      _ ≤ a * 2 ^ 52 := Nat.mul_le_mul_right _ hv.1

/-- A number of at least two and another one. -/
theorem isAtLeastTwo_add (hv : v.isAtLeastTwo = true) (b : Nat) (q : Int) :
    (v.add (finite b q)).isAtLeastTwo = true := by
  cases v with
  | infinite => rfl
  | nan => cases hv
  | finite a p =>
    rw [isAtLeastTwo_finite] at hv
    refine isAtLeastTwo_ofDyadic (Nat.le_trans ?_ (Nat.le_add_right _ _))
    calc 2 ^ (1 - min p q).toNat ≤ 2 ^ (52 + (p - min p q).toNat) :=
          Nat.pow_le_pow_right (by decide) (by omega)
      _ = 2 ^ 52 * 2 ^ (p - min p q).toNat := Nat.pow_add ..
      _ ≤ a * 2 ^ (p - min p q).toNat := Nat.mul_le_mul_right _ hv.1

theorem isSized_of_le {n : Nat} (hn : 2 ≤ n) (hv : v.isAtLeastTwo = true) : v.isSized n = true := by
  obtain ⟨k, rfl⟩ : ∃ k, n = k + 2 := ⟨n - 2, by omega⟩
  exact hv

/-- **The number one stands for one alone.** -/
theorem eq_one_iff {n : Nat} (h : v.isSized n = true) : v = one ↔ n = 1 := by
  match n with
  | 0 =>
    rw [isSized, decide_eq_true_eq] at h
    subst h
    decide
  | 1 => simpa [isSized] using h
  | k + 2 =>
    have hbig : v.isAtLeastTwo = true := h
    have hone : ¬ one.isAtLeastTwo = true := by decide
    exact ⟨fun heq => absurd (heq ▸ hbig) hone, fun heq => by omega⟩

/-- **A number above zero stands for one.** -/
theorem isPositive_iff {n : Nat} (h : v.isSized n = true) : v.isPositive = true ↔ 0 < n := by
  match n with
  | 0 =>
    rw [isSized, decide_eq_true_eq] at h
    subst h
    decide
  | 1 =>
    rw [isSized, decide_eq_true_eq] at h
    subst h
    decide
  | k + 2 =>
    have hbig : v.isAtLeastTwo = true := h
    refine ⟨fun _ => by omega, fun _ => ?_⟩
    cases v with
    | infinite => rfl
    | nan => cases hbig
    | finite a p =>
      have hne : a ≠ 0 := by
        have hle := (isAtLeastTwo_finite.1 hbig).1
        omega
      simpa [isPositive] using hne

end Magnitude

end Binary64

namespace Numeral

open Binary64 (Magnitude)
open Script (digitValue)

variable {raw digits : List Char}

/-- **The whole number that a numeral of digits alone spells.** -/
def whole? (raw : List Char) : Option Nat :=
  match hexDigits? raw with
  | some digits =>
    if digits.isEmpty || !digits.all isHexDigit then none else some (hexNumber digits)
  | none => if raw.isEmpty || !raw.all Char.isDigit then none else some (natOf raw)

/-- The whole number that a numeral of digits alone is in Lua: a hexadecimal one has 64 bits. -/
def luaInteger? (raw : List Char) : Option Int :=
  (whole? raw).map fun n => if (hexDigits? raw).isSome then wrapped n else n

/-! ## Decimal numerals -/

/-- The value of a decimal numeral of digits alone. -/
theorem decimal?_digits (hne : raw.isEmpty = false) (h : ∀ c ∈ raw, c.isDigit = true) :
    decimal? raw = some (.ofDecimal (natOf raw) 0) := by
  have htake : raw.takeWhile Char.isDigit = raw := List.takeWhile_eq_self_iff.2 h
  have hdrop : raw.dropWhile Char.isDigit = [] := List.dropWhile_eq_nil_iff.2 h
  rw [decimal?, htake, hdrop]
  simp [fraction, exponent?, hne]

theorem isSized_ofDecimal (n : Nat) : (Magnitude.ofDecimal n 0).isSized n = true := by
  match n with
  | 0 => decide
  | 1 => decide +kernel
  | k + 2 =>
    refine Magnitude.isSized_of_le (by omega) ?_
    unfold Magnitude.ofDecimal
    dsimp only
    split
    next hzero => omega
    · split
      · rfl
      · rw [if_pos (Int.le_refl 0)]
        refine Magnitude.isAtLeastTwo_ofRatio Nat.one_pos ?_
        change 2 * 1 ≤ (k + 2) * 1
        omega

/-! ## Hexadecimal numerals -/

theorem hexDigit?_eq {c : Char} (h : isHexDigit c = true) :
    hexDigit? c = some (digitValue c) ∧ digitValue c < 16 := by
  have hall : ∀ n < 103, isHexDigit (Char.ofNat n) = true →
      hexDigit? (Char.ofNat n) = some (digitValue (Char.ofNat n)) ∧
        digitValue (Char.ofNat n) < 16 := by decide +kernel
  have hlt : c.toNat < 103 := by
    simp only [isHexDigit, Bool.or_eq_true, Bool.and_eq_true, decide_eq_true_eq,
      Char.isDigit_iff_toNat, Char.le_def, UInt32.le_iff_toNat_le] at h
    have hnine : '9'.toNat = 57 := rfl
    have hf : 'f'.val.toNat = 102 := rfl
    have hF : 'F'.val.toNat = 70 := rfl
    have hc : c.val.toNat = c.toNat := rfl
    omega
  have hc := hall c.toNat hlt
  rw [Char.ofNat_toNat] at hc
  exact hc h

theorem mapM_hexDigit? (h : ∀ c ∈ digits, isHexDigit c = true) :
    digits.mapM hexDigit? = some (digits.map digitValue) := by
  induction digits with
  | nil => rfl
  | cons c cs ih =>
    obtain ⟨hc, hcs⟩ := List.forall_mem_cons.1 h
    rw [List.mapM_cons, (hexDigit?_eq hc).1, ih hcs]
    rfl

/-- The number sixteen times another one and a digit more. -/
theorem isSized_addWhole {v : Magnitude} {n d : Nat} (hv : v.isSized n = true) (hd : d < 16) :
    (addWhole v d).isSized (n * 16 + d) = true := by
  have hnone : ∀ d < 16, (addWhole .zero d).isSized d = true := by decide +kernel
  have hone : ∀ d < 16, (addWhole .one d).isSized (16 + d) = true := by decide +kernel
  match n with
  | 0 =>
    rw [Magnitude.isSized, decide_eq_true_eq] at hv
    subst hv
    rw [Nat.zero_mul, Nat.zero_add]
    exact hnone d hd
  | 1 =>
    rw [Magnitude.isSized, decide_eq_true_eq] at hv
    subst hv
    rw [Nat.one_mul]
    exact hone d hd
  | k + 2 =>
    refine Magnitude.isSized_of_le (by omega) ?_
    have hsixteen : Magnitude.ofNat 16 = .finite (2 ^ 52) (-48) := by decide +kernel
    have hfinite : ∀ d < 16, (Magnitude.ofNat d).isFinite = true := by decide +kernel
    -- a magnitude of two or more stays so when it is multiplied by sixteen
    have hproduct : (v.mul (.ofNat 16)).isAtLeastTwo = true := by
      rw [hsixteen]
      exact Magnitude.isAtLeastTwo_mul hv (by decide)
    unfold addWhole
    cases hdigit : Magnitude.ofNat d with
    | finite b q => exact Magnitude.isAtLeastTwo_add hproduct b q
    | infinite | nan =>
      have hfalse := hfinite d hd
      rw [hdigit] at hfalse
      cases hfalse

theorem isSized_foldl {v : Magnitude} {n : Nat} (hv : v.isSized n = true)
    (h : ∀ c ∈ digits, isHexDigit c = true) :
    ((digits.map digitValue).foldl addWhole v).isSized
      (digits.foldl (fun n c => n * 16 + digitValue c) n) = true := by
  induction digits generalizing v n with
  | nil => exact hv
  | cons c cs ih =>
    obtain ⟨hc, hcs⟩ := List.forall_mem_cons.1 h
    rw [List.map_cons, List.foldl_cons, List.foldl_cons]
    exact ih (isSized_addWhole hv (hexDigit?_eq hc).2) hcs

/-- A number times the power of two of a numeral without an exponent. -/
theorem isSized_mul_powerOfTwo {v : Magnitude} {n : Nat} (hv : v.isSized n = true) :
    (v.mul (.powerOfTwo 0)).isSized n = true := by
  match n with
  | 0 =>
    rw [Magnitude.isSized, decide_eq_true_eq] at hv
    subst hv
    decide +kernel
  | 1 =>
    rw [Magnitude.isSized, decide_eq_true_eq] at hv
    subst hv
    decide +kernel
  | k + 2 =>
    have hpower : Magnitude.powerOfTwo 0 = .finite (2 ^ 52) (-52) := by decide +kernel
    rw [hpower]
    exact Magnitude.isAtLeastTwo_mul hv (by decide)

/-- A hexadecimal digit is neither a point nor the mark of an exponent. -/
theorem plain_of_isHexDigit {c : Char} (h : isHexDigit c = true) : c ≠ '.' ∧ isPower c = false := by
  have hsigns : ['.', 'p', 'P'].any isHexDigit = false := by decide
  have hne (d : Char) (hd : d ∈ ['.', 'p', 'P']) : c ≠ d := by
    rintro rfl
    exact List.any_eq_false.1 hsigns c hd h
  refine ⟨hne '.' (by simp), ?_⟩
  simp [isPower, hne 'p' (by simp), hne 'P' (by simp)]

/-- The value of a hexadecimal numeral of digits alone. -/
theorem hex?_digits (hne : digits.isEmpty = false) (h : ∀ c ∈ digits, isHexDigit c = true) :
    hex? digits = some (((digits.map digitValue).foldl addWhole .zero).mul (.powerOfTwo 0)) := by
  have hplain : ∀ c ∈ digits, c ≠ '.' ∧ isPower c = false := fun c hc => plain_of_isHexDigit (h c hc)
  have hmantissa : digits.takeWhile (!isPower ·) = digits :=
    List.takeWhile_eq_self_iff.2 fun c hc => by simp [(hplain c hc).2]
  have hexponent : digits.dropWhile (!isPower ·) = [] :=
    List.dropWhile_eq_nil_iff.2 fun c hc => by simp [(hplain c hc).2]
  have hwhole : digits.takeWhile (· != '.') = digits :=
    List.takeWhile_eq_self_iff.2 fun c hc => by simp [(hplain c hc).1]
  have hplaces : digits.dropWhile (· != '.') = [] :=
    List.dropWhile_eq_nil_iff.2 fun c hc => by simp [(hplain c hc).1]
  have hsome : digits ≠ [] := by simpa using hne
  simp [hex?, hmantissa, hexponent, hwhole, hplaces, mapM_hexDigit? h, hsome]

/-- A whole numeral has digits alone. -/
theorem whole?_cases {n : Nat} (h : whole? raw = some n) :
    (hexDigits? raw = none ∧ raw.isEmpty = false ∧ (∀ c ∈ raw, c.isDigit = true) ∧ natOf raw = n) ∨
      ∃ digits, hexDigits? raw = some digits ∧ digits.isEmpty = false ∧
        (∀ c ∈ digits, isHexDigit c = true) ∧ hexNumber digits = n := by
  unfold whole? at h
  cases hhex : hexDigits? raw with
  | none =>
    rw [hhex] at h
    dsimp only at h
    split at h
    · cases h
    next hdigits =>
      simp only [Bool.or_eq_true, not_or, Bool.not_eq_true, Bool.not_eq_false', List.all_eq_true]
        at hdigits
      exact .inl ⟨rfl, hdigits.1, hdigits.2, Option.some.inj h⟩
  | some digits =>
    rw [hhex] at h
    dsimp only at h
    split at h
    · cases h
    next hdigits =>
      simp only [Bool.or_eq_true, not_or, Bool.not_eq_true, Bool.not_eq_false', List.all_eq_true]
        at hdigits
      exact .inr ⟨digits, rfl, hdigits.1, hdigits.2, Option.some.inj h⟩

/-- **The number of a whole numeral tells zero, one and the others apart.** -/
theorem isSized_of_value? {value : Magnitude} {n : Nat} (h : value? raw = some value)
    (hn : whole? raw = some n) : value.isSized n = true := by
  unfold value? at h
  rcases whole?_cases hn with ⟨hhex, hne, hdigits, rfl⟩ | ⟨digits, hhex, hne, hdigits, rfl⟩
  · rw [hhex] at h
    dsimp only at h
    rw [decimal?_digits hne hdigits] at h
    obtain rfl := Option.some.inj h
    exact isSized_ofDecimal _
  · rw [hhex] at h
    dsimp only at h
    rw [hex?_digits hne hdigits] at h
    obtain rfl := Option.some.inj h
    exact isSized_mul_powerOfTwo (isSized_foldl (by decide) hdigits)

theorem isHexFloat_of_whole? {n : Nat} (h : whole? raw = some n) : isHexFloat raw = false := by
  unfold isHexFloat
  rcases whole?_cases h with ⟨hhex, -⟩ | ⟨digits, hhex, -, hdigits, -⟩
  · rw [hhex]
  · rw [hhex]
    refine List.any_eq_false.2 fun c hc => ?_
    obtain ⟨hpoint, hpower⟩ := plain_of_isHexDigit (hdigits c hc)
    simp [hpoint, hpower]

end Numeral

namespace Script

open Numeral (whole?)

/-- **What a script reads for a whole numeral** without a spare zero: the number that it spells. -/
theorem numberOf?_whole {raw : List Char} {n : Nat} (h : whole? raw = some n)
    (hzero : hasSpareZero (raw.takeWhile Char.isDigit) = false) :
    numberOf? (String.ofList raw) = some (n : Rat) := by
  have hplain := Numeral.isHexFloat_of_whole? h
  rcases Numeral.whole?_cases h with ⟨hhex, hne, hdigits, rfl⟩ | ⟨digits, hhex, hne, hdigits, rfl⟩
  · have hdecimal := Numeral.decimal?_digits hne hdigits
    have htake : raw.takeWhile Char.isDigit = raw := List.takeWhile_eq_self_iff.2 hdigits
    have hdrop : raw.dropWhile Char.isDigit = [] := List.dropWhile_eq_nil_iff.2 hdigits
    rw [numberOf?_decimal hhex (by rw [hdecimal]; rfl) hzero, Numeral.luaDecimal?, htake, hdrop]
    simp [Numeral.fraction, Numeral.exponent?, hne]
  · rw [Numeral.isHexFloat, hhex] at hplain
    have hvalue := Numeral.hex?_digits hne hdigits
    exact (numberOf?_hex hhex (isNumeral_of_hex? hhex hplain (by rw [hvalue]; rfl))).1

end Script

end LuaCompiler
