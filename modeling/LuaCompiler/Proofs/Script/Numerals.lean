import LuaCompiler.Proofs.Script.Expression

/-!
# Numerals of Lua in a script

A decimal numeral of Lua is written as it is, and so is a hexadecimal one without a point and an
exponent; any other hexadecimal numeral is written in decimal. What is written is a numeral of
JavaScript, with two exceptions: JavaScript has no decimal numeral with a spare zero in front, and no
numeral for a number that is not finite.

* `Binary64.shortest_digits_pos`: the shortest decimal of a positive number is positive.
* `isNumeral_script`: **which numerals carry over**.
-/

namespace LuaCompiler

namespace Binary64

/-- Whether a magnitude is a number. -/
def Magnitude.isFinite : Magnitude → Bool
  | finite .. => true
  | _ => false

/-! ## The shortest decimal is positive -/

theorem dyadic_pos (e : Int) : 0 < (dyadic 1 e).1 ∧ 0 < (dyadic 1 e).2 := by
  unfold dyadic
  split
  · exact ⟨Nat.mul_pos Nat.one_pos (Nat.pow_pos (by decide)), Nat.one_pos⟩
  · exact ⟨Nat.one_pos, Nat.pow_pos (by decide)⟩

namespace Basin

variable {b : Basin}

theorem of_pos {significand : Nat} (h : 0 < significand) (exponent : Int) :
    0 < (of significand exponent).low ∧ 0 < (of significand exponent).centre ∧
      0 < (of significand exponent).den := by
  obtain ⟨hunit, hden⟩ := dyadic_pos (exponent - 2)
  unfold of
  dsimp only
  refine ⟨Nat.mul_pos ?_ hunit, Nat.mul_pos (by omega) hunit, hden⟩
  split <;> omega

theorem scale_pos (hlow : 0 < b.low) (hden : 0 < b.den) (e : Int) :
    0 < (b.scale e).low ∧ 0 < (b.scale e).den := by
  have hpow (k : Nat) : 0 < Nat.pow 10 k := Nat.pow_pos (by decide)
  unfold scale
  split
  · exact ⟨hlow, Nat.mul_pos hden (hpow _)⟩
  · exact ⟨Nat.mul_pos hlow (hpow _), hden⟩

/-- No unit is too few for a basin above zero. -/
theorem nearest?_pos (hlow : 0 < b.low) {n : Nat} (h : b.nearest? = some n) : 0 < n := by
  have hholds (n : Nat) (h : b.holds n = true) : 0 < n := by
    refine Nat.pos_of_ne_zero fun hzero => ?_
    subst hzero
    unfold holds at h
    split at h
    · simp only [Nat.zero_mul, Bool.and_eq_true, decide_eq_true_eq] at h
      omega
    · simp only [Nat.zero_mul, Bool.and_eq_true, decide_eq_true_eq] at h
      omega
  unfold nearest? at h
  dsimp only at h
  split at h
  next hbelow _ =>
    split at h
    · exact Option.some.inj h ▸ hholds _ hbelow
    · exact Option.some.inj h ▸ Nat.succ_pos _
  next hbelow _ => exact Option.some.inj h ▸ hholds _ hbelow
  · exact Option.some.inj h ▸ Nat.succ_pos _
  · cases h

/-- A search that ends on a grid below the centre ends above zero. -/
theorem search_digits_pos (hlow : 0 < b.low) (hden : 0 < b.den) (fuel : Nat) (e : Int)
    (hlast : (b.scale (e - fuel)).den ≤ (b.scale (e - fuel)).centre) :
    0 < (b.search fuel e).digits := by
  induction fuel generalizing e with
  | zero =>
    rw [Int.natCast_zero, Int.sub_zero] at hlast
    exact Nat.div_pos hlast (scale_pos hlow hden e).2
  | succ fuel ih =>
    unfold search
    split
    next digits h => exact nearest?_pos (scale_pos hlow hden e).1 h
    · refine ih (e - 1) ?_
      have hsame : e - 1 - (fuel : Int) = e - ((fuel + 1 : Nat) : Int) := by omega
      rwa [hsame]

/-- Twenty grids below the first, the centre is above the unit. -/
theorem den_le_centre (hcentre : 0 < b.centre) (hden : 0 < b.den) :
    (b.scale (b.top - 20)).den ≤ (b.scale (b.top - 20)).centre := by
  unfold top
  split
  next hle =>
    -- the quotient has as many digits as the first grid says, which is a power of ten too many
    set quotient := b.centre / b.den with hquotient
    set places := (Nat.toDigits 10 quotient).length with hplaces
    have hpos : 0 < quotient := Nat.div_pos hle hden
    unfold scale
    split
    next hnonneg =>
      have hpower : 10 ^ (places - 20) ≤ quotient := by
        by_cases hzero : places - 20 = 0
        · rw [hzero]
          exact hpos
        · by_contra hlt
          have hshort := (Nat.length_toDigits_le_iff (by decide) (Nat.pos_of_ne_zero hzero)).2
            (Nat.not_le.1 hlt)
          omega
      have hsame : ((places : Int) - 20).toNat = places - 20 := by omega
      rw [hsame]
      calc b.den * 10 ^ (places - 20) ≤ b.den * quotient := Nat.mul_le_mul_left _ hpower
        _ ≤ b.centre := Nat.mul_div_le b.centre b.den
    · exact hle.trans (Nat.le_mul_of_pos_right _ (Nat.pow_pos (by decide)))
  next hlt =>
    set quotient := b.den / b.centre with hquotient
    set places := (Nat.toDigits 10 quotient).length with hplaces
    have hpower : quotient < 10 ^ places :=
      (Nat.length_toDigits_le_iff (by decide) Nat.length_toDigits_pos).1 (Nat.le_refl _)
    unfold scale
    rw [if_neg (by omega)]
    have hmore : 10 ^ places ≤ Nat.pow 10 (-(2 - (places : Int) - 20)).toNat :=
      Nat.pow_le_pow_right (by decide) (by omega)
    calc b.den ≤ b.centre * (quotient + 1) := (Nat.lt_mul_div_succ b.den hcentre).le
      _ ≤ b.centre * 10 ^ places := Nat.mul_le_mul_left _ hpower
      _ ≤ _ := Nat.mul_le_mul_left _ hmore

end Basin

/-- **The shortest decimal of a positive number is positive.** -/
theorem shortest_digits_pos {significand : Nat} (h : 0 < significand) (exponent : Int) :
    0 < (shortest significand exponent).digits := by
  obtain ⟨hlow, hcentre, hden⟩ := Basin.of_pos h exponent
  exact Basin.search_digits_pos hlow hden 20 _ (Basin.den_le_centre hcentre hden)

end Binary64

namespace Script

open Binary64 Numeral

variable {text whole places rest cs : List Char}

/-! ## Decimal numerals -/

theorem behindDigits_of_nat? (h : (int?.nat? cs).isSome = true) : behindDigits cs = some [] := by
  unfold int?.nat? at h
  split at h
  next hdigits =>
    rw [Bool.and_eq_true, List.all_eq_true] at hdigits
    obtain ⟨hne, hall⟩ := hdigits
    cases cs with
    | nil => cases hne
    | cons c cs =>
      obtain ⟨hc, hcs⟩ := List.forall_mem_cons.1 hall
      rw [behindDigits, if_pos hc, List.dropWhile_eq_nil_iff.2 hcs]
  · cases h

theorem isSome_nat? (h : (int? cs).isSome = true) : (int?.nat? (withoutSign cs)).isSome = true := by
  cases hnat : int?.nat? (withoutSign cs) with
  | some n => rfl
  | none =>
    unfold int? at h
    split at h
    next ds =>
      have hnat : int?.nat? ds = none := hnat
      simp [hnat] at h
    next ds =>
      have hnat : int?.nat? ds = none := hnat
      simp [hnat] at h
    next hminus hplus =>
      have hsame : withoutSign cs = cs := by
        cases cs with
        | nil => rfl
        | cons d ds =>
          refine if_neg ?_
          simp only [Bool.or_eq_true, beq_iff_eq, not_or]
          exact ⟨fun heq => hplus ds (heq ▸ rfl), fun heq => hminus ds (heq ▸ rfl)⟩
      rw [hsame] at hnat
      simp [hnat] at h

theorem behindExponent_of_exponent? (h : (exponent? rest).isSome = true) :
    behindExponent rest = some [] := by
  cases rest with
  | nil => rfl
  | cons c cs =>
    unfold exponent? at h
    dsimp only at h
    split at h
    next hc =>
      have hmark : (c == 'e' || c == 'E') = true := by simpa using hc
      rw [behindExponent, if_pos hmark]
      exact behindDigits_of_nat? (isSome_nat? h)
    · cases h

/-- **A decimal numeral carries over, unless it has a spare zero.** -/
theorem isNumeral_of_decimal? (hhex : hexDigits? text = none) (h : (decimal? text).isSome = true) :
    isNumeral (String.ofList text) = !hasSpareZero (text.takeWhile Char.isDigit) := by
  unfold decimal? at h
  dsimp only at h
  split at h
  · cases h
  next hdigits =>
    have hend := behindExponent_of_exponent? (by simpa using h)
    have hstart : startsNumeral text = true := by
      cases text with
      | nil => exact absurd rfl hdigits
      | cons c cs =>
        by_cases hc : c.isDigit = true
        · simp [startsNumeral, hc]
        · -- without digits in front there are some behind a point
          rw [List.takeWhile_cons_of_neg hc, List.dropWhile_cons_of_neg hc] at hdigits
          unfold fraction at hdigits
          split at hdigits
          next heq =>
            obtain ⟨rfl, rfl⟩ := List.cons.inj heq
            cases cs with
            | nil => exact absurd rfl hdigits
            | cons d ds =>
              by_cases hd : d.isDigit = true
              · simp [startsNumeral, hd]
              · rw [List.takeWhile_cons_of_neg hd] at hdigits
                exact absurd rfl hdigits
          · exact absurd rfl hdigits
    unfold isNumeral behindNumeral
    rw [String.toList_ofList, hstart, hhex, Bool.true_and]
    dsimp only
    rw [Bool.eq_false_iff.2 hdigits, Bool.false_or, hend]
    cases hasSpareZero (text.takeWhile Char.isDigit) <;> rfl

/-! ## Written numbers -/

theorem hasSpareZero_of_head (h : cs.head? ≠ some '0') : hasSpareZero cs = false := by
  unfold hasSpareZero
  split
  · exact absurd rfl h
  · rfl

/-- A positive number has no zero in front. -/
theorem head?_toDigits {n : Nat} (h : 0 < n) : (Nat.toDigits 10 n).head? ≠ some '0' := by
  induction n using Nat.strongRecOn with
  | _ n ih =>
    rw [Nat.toDigits_eq_if (by decide)]
    split
    next hlt =>
      have hdigit : ∀ k < 10, 0 < k → Nat.digitChar k ≠ '0' := by decide
      simpa using hdigit n hlt h
    next hle =>
      rw [List.head?_append, Option.or_of_isSome (by simp [Nat.toDigits_ne_nil])]
      exact ih (n / 10) (by omega) (by omega)

/-- Digits, and perhaps digits behind a point, are a numeral without a spare zero in front. -/
theorem isNumeral_digits (hwhole : ∀ c ∈ whole, c.isDigit = true) (hne : whole ≠ [])
    (hzero : hasSpareZero whole = false)
    (hrest : rest = [] ∨ ∃ places, rest = '.' :: places ∧ ∀ c ∈ places, c.isDigit = true) :
    isNumeral (String.ofList (whole ++ rest)) = true := by
  have hstops : ∀ c ∈ rest.head?, c.isDigit = false := by
    rcases hrest with rfl | ⟨places, rfl, -⟩
    · exact fun _ h => nomatch h
    · exact fun c hc => Option.some.inj hc ▸ rfl
  have htake : (whole ++ rest).takeWhile Char.isDigit = whole ∧
      (whole ++ rest).dropWhile Char.isDigit = rest := by
    rw [List.takeWhile_append_of_pos hwhole, List.dropWhile_append_of_pos hwhole]
    cases rest with
    | nil => simp
    | cons c rest => simp [hstops c rfl]
  -- a point and digits are no mark of another base
  have hhex : hexDigits? (whole ++ rest) = none := by
    have hall : ∀ c ∈ whole ++ rest, c.isDigit = true ∨ c = '.' := by
      intro c hc
      rcases List.mem_append.1 hc with hc | hc
      · exact .inl (hwhole c hc)
      · rcases hrest with rfl | ⟨places, rfl, hplaces⟩
        · cases hc
        · exact (List.mem_cons.1 hc).symm.imp_left (hplaces c)
    unfold hexDigits?
    split
    next heq => exact absurd (hall 'x' (by simp [heq])) (by decide)
    next heq => exact absurd (hall 'X' (by simp [heq])) (by decide)
    · rfl
  have hdecimal : (decimal? (whole ++ rest)).isSome = true := by
    have hnonempty : whole.isEmpty = false := by simpa using hne
    unfold decimal?
    rw [htake.1, htake.2]
    rcases hrest with rfl | ⟨places, rfl, hplaces⟩
    · simp [fraction, hnonempty, exponent?]
    · have hplaces' : places.dropWhile Char.isDigit = [] := List.dropWhile_eq_nil_iff.2 hplaces
      simp [fraction, hnonempty, hplaces', exponent?]
  rw [isNumeral_of_decimal? hhex hdecimal, htake.1, hzero]
  rfl

theorem isNumeral_text {d : Decimal} (h : 0 < d.digits) : isNumeral d.text = true := by
  have hdigits : ∀ c ∈ Nat.toDigits 10 d.digits, c.isDigit = true := fun c hc =>
    Nat.isDigit_of_mem_toDigits (by decide) (by decide) hc
  have hhead := head?_toDigits h
  have hzeros (k : Nat) : ∀ c ∈ List.replicate k '0', c.isDigit = true := fun c hc =>
    (List.mem_replicate.1 hc).2 ▸ rfl
  unfold Decimal.text
  dsimp only
  split
  · rw [← List.append_nil (Nat.toDigits 10 d.digits ++ _)]
    refine isNumeral_digits (List.forall_mem_append.2 ⟨hdigits, hzeros _⟩)
      (List.append_ne_nil_of_left_ne_nil Nat.toDigits_ne_nil _) (hasSpareZero_of_head ?_) (.inl rfl)
    rwa [List.head?_append, Option.or_of_isSome (by simp [Nat.toDigits_ne_nil])]
  next hneg =>
    set zeros := (-d.exponent).toNat + 1 - (Nat.toDigits 10 d.digits).length with hzerosCount
    set padded := List.replicate zeros '0' ++ Nat.toDigits 10 d.digits with hpadded
    have hlength : padded.length = zeros + (Nat.toDigits 10 d.digits).length := by
      rw [hpadded, List.length_append, List.length_replicate]
    have hall : ∀ c ∈ padded, c.isDigit = true := List.forall_mem_append.2 ⟨hzeros _, hdigits⟩
    have hmore : (-d.exponent).toNat < padded.length := by omega
    refine isNumeral_digits (fun c hc => hall c (List.mem_of_mem_take hc)) ?_ ?_
      (.inr ⟨_, rfl, fun c hc => hall c (List.mem_of_mem_drop hc)⟩)
    · refine List.ne_nil_of_length_pos ?_
      rw [List.length_take]
      omega
    · by_cases hzero : zeros = 0
      · refine hasSpareZero_of_head ?_
        rw [List.head?_take, if_neg (by omega), hpadded, hzero]
        exact hhead
      · -- zeros in front are as many as the point needs, and one more
        have hone : padded.length - (-d.exponent).toNat = 1 := by omega
        rw [hone]
        cases padded with
        | nil => rfl
        | cons c cs => cases cs <;> simp [hasSpareZero]

/-! ## Numerals that carry over -/

/-- Whether the JavaScript text of a numeral is a numeral: a decimal one has no spare zero, and a
hexadecimal one with a point or an exponent is finite. -/
def isPortable (value : Magnitude) (raw : String) : Bool :=
  match hexDigits? raw.toList with
  | some digits => !(digits.any fun c => c == '.' || isPower c) || value.isFinite
  | none => !hasSpareZero (raw.toList.takeWhile Char.isDigit)

theorem isNumeral_magnitude (value : Magnitude) : isNumeral value.text = value.isFinite := by
  cases value with
  | finite significand exponent =>
    unfold Magnitude.text
    dsimp only
    split
    · exact (by decide : isNumeral "0" = true)
    next hne => exact isNumeral_text (shortest_digits_pos (Nat.pos_of_ne_zero hne) exponent)
  | infinite => decide
  | nan => decide

theorem isHexDigit_of_hexDigit? {c : Char} {n : Nat} (h : hexDigit? c = some n) :
    isHexDigit c = true := by
  unfold hexDigit? at h
  unfold isHexDigit
  split at h
  next hc => simp [hc]
  · split at h
    next hc => simp [hc]
    · split at h
      next hc => simp [hc]
      · cases h

theorem isHexDigit_of_mapM (h : (cs.mapM hexDigit?).isSome = true) : ∀ c ∈ cs, isHexDigit c = true := by
  induction cs with
  | nil => exact List.forall_mem_nil _
  | cons c cs ih =>
    rw [List.mapM_cons] at h
    cases hc : hexDigit? c with
    | none => simp [hc] at h
    | some n =>
      refine List.forall_mem_cons.2 ⟨isHexDigit_of_hexDigit? hc, ih ?_⟩
      cases hcs : cs.mapM hexDigit? with
      | none => simp [hc, hcs] at h
      | some ns => rfl

/-- A hexadecimal numeral without a point and an exponent has digits and nothing else. -/
theorem isNumeral_of_hex? {digits : List Char} (hhex : hexDigits? text = some digits)
    (hplain : (digits.any fun c => c == '.' || isPower c) = false)
    (h : (hex? digits).isSome = true) : isNumeral (String.ofList text) = true := by
  have hnone : ∀ c ∈ digits, c ≠ '.' ∧ isPower c = false := by
    intro c hc
    have hfalse := List.any_eq_false.1 hplain c hc
    simpa using hfalse
  -- without a point and a power, the digits are all of the mantissa
  have hmantissa : digits.takeWhile (!isPower ·) = digits :=
    List.takeWhile_eq_self_iff.2 fun c hc => by simp [(hnone c hc).2]
  have hwhole : digits.takeWhile (· != '.') = digits :=
    List.takeWhile_eq_self_iff.2 fun c hc => by simp [(hnone c hc).1]
  have hexponent : digits.dropWhile (!isPower ·) = [] :=
    List.dropWhile_eq_nil_iff.2 fun c hc => by simp [(hnone c hc).2]
  have hdigits : (digits.mapM hexDigit?).isSome = true := by
    cases hmap : digits.mapM hexDigit? with
    | none => simp [hex?, hmantissa, hexponent, hwhole, hmap] at h
    | some ns => rfl
  have hall := isHexDigit_of_mapM hdigits
  have hstart : startsNumeral text = true := by
    unfold hexDigits? at hhex
    split at hhex
    · rfl
    · rfl
    · cases hhex
  have hne : digits.isEmpty = false := by
    cases digits with
    | nil => exact absurd h (by decide)
    | cons c cs => rfl
  unfold isNumeral behindNumeral
  rw [String.toList_ofList, hstart, hhex]
  dsimp only
  rw [List.takeWhile_eq_self_iff.2 hall, List.dropWhile_eq_nil_iff.2 hall, hne]
  rfl

/-- **Which numerals carry over.** -/
theorem isNumeral_script {value : Magnitude} {raw : String}
    (h : Numeral.value? raw.toList = some value) :
    isNumeral (Numeral.script value raw) = isPortable value raw := by
  unfold Numeral.value? at h
  unfold Numeral.script isPortable
  cases hhex : hexDigits? raw.toList with
  | some digits =>
    rw [hhex] at h
    dsimp only at h ⊢
    cases hplain : digits.any fun c => c == '.' || isPower c with
    | true => simpa using isNumeral_magnitude value
    | false => simpa using isNumeral_of_hex? hhex hplain (by rw [h]; rfl)
  | none =>
    rw [hhex] at h
    dsimp only at h ⊢
    have hdecimal := isNumeral_of_decimal? hhex (by rw [h]; rfl)
    rwa [String.ofList_toList] at hdecimal

end Script

end LuaCompiler
