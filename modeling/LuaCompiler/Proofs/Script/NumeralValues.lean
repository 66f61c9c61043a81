import LuaCompiler.Compile
import LuaCompiler.Proofs.Script.Numerals
import LuaCompiler.Proofs.Script.Values
import LuaCompiler.Proofs.Token.Spelled
import Mathlib.Data.List.Induction
import Mathlib.Data.Nat.Digits.Defs
import Mathlib.Data.Rat.Cast.Defs
import Mathlib.Tactic.FieldSimp
import Mathlib.Tactic.Ring

/-!
# The values of numerals

A numeral stands for a rational number in Lua and in JavaScript, whatever a machine later makes of
it. Both languages read the digits by their places. They differ twice: a decimal numeral with a spare
zero in front is none in strict JavaScript, and Lua reads a hexadecimal numeral as a whole number of
64 bits with a sign, where JavaScript goes on counting.

* `Numeral.luaValue?`: the number that a numeral is in Lua, decimal or hexadecimal without a point
  and an exponent.
* `Script.numberOf?`: the number that a numeral is in JavaScript.
* `Script.numeral_keeps_value`: **which numerals keep their value**.
-/

namespace LuaCompiler

open Binary64 (Magnitude)

/-! ## Lua -/

namespace Numeral

/-- Whether a numeral is a hexadecimal one with a point or an exponent. -/
def isHexFloat (raw : List Char) : Bool :=
  match hexDigits? raw with
  | some digits => digits.any fun c => c == '.' || isPower c
  | none => false

/-- A whole number in 64 bits of which the first one is the sign. -/
def wrapped (n : Nat) : Int := Int.bmod n (2 ^ 64)

/-- The number that a decimal numeral is in Lua. -/
def luaDecimal? (raw : List Char) : Option Rat :=
  let whole := raw.takeWhile Char.isDigit
  let (places, rest) := fraction (raw.dropWhile Char.isDigit)
  if whole.isEmpty && places.isEmpty then none
  else (exponent? rest).map fun (e : Int) =>
    natOf (whole ++ places) * (10 : Rat) ^ (e - places.length)

/-- **The number that a numeral is in Lua**, if it is decimal or hexadecimal without a point and an
exponent. A hexadecimal one is a whole number of 64 bits with a sign. -/
def luaValue? (raw : List Char) : Option Rat :=
  match hexDigits? raw with
  | some digits =>
    if digits.isEmpty || !digits.all isHexDigit then none else some (wrapped (hexNumber digits))
  | none => luaDecimal? raw

/-- What 63 bits hold needs no wrapping, and nothing else is kept. -/
theorem wrapped_eq_iff (n : Nat) : wrapped n = n ↔ n < 2 ^ 63 := by
  unfold wrapped
  rw [Int.bmod_def]
  split <;> omega

end Numeral

/-! ## JavaScript -/

namespace Script

open Numeral (hexDigits? hexNumber isHexFloat luaValue? luaDecimal? natOf)

variable {raw text digits whole places rest : List Char}

/-- The value of a digit. -/
def digitValue (c : Char) : Nat := (Numeral.hexDigit? c).getD 0

/-- The value of digits by their places. -/
def positional (base : Nat) (digits : List Char) : Nat :=
  Nat.ofDigits base (digits.reverse.map digitValue)

/-- The exponent that is written behind the digits of a decimal numeral, with its mark. -/
def exponentOf : List Char → Int
  | [] => 0
  | _ :: '-' :: digits => -(positional 10 digits : Int)
  | _ :: '+' :: digits => positional 10 digits
  | _ :: digits => positional 10 digits

/-- **The number that a numeral is in strict JavaScript**: digits by their places, those behind a
point after it, times a power of ten. -/
def numberOf? (text : String) : Option Rat :=
  if isNumeral text then
    match hexDigits? text.toList with
    | some digits => some (positional 16 digits)
    | none =>
      let whole := text.toList.takeWhile Char.isDigit
      let (places, rest) := Numeral.fraction (text.toList.dropWhile Char.isDigit)
      some ((positional 10 whole + positional 10 places / (10 : Rat) ^ places.length) *
        (10 : Rat) ^ exponentOf rest)
  else none

/-! ## Both readings -/

/-- Digits that are counted up from the front are read by their places. -/
theorem foldl_digits (base : Nat) (f : Char → Nat) (digits : List Char) :
    digits.foldl (fun n c => n * base + f c) 0 = Nat.ofDigits base (digits.reverse.map f) := by
  induction digits using List.reverseRecOn with
  | nil => rfl
  | append_singleton digits c ih =>
    rw [List.foldl_append, ih, List.reverse_append, List.reverse_singleton, List.singleton_append,
      List.map_cons, Nat.ofDigits_cons, Nat.mul_comm, Nat.add_comm]
    rfl

theorem hexNumber_eq (digits : List Char) : hexNumber digits = positional 16 digits :=
  foldl_digits 16 digitValue digits

theorem natOf_eq (h : ∀ c ∈ digits, c.isDigit = true) : natOf digits = positional 10 digits := by
  have hvalue : ∀ c ∈ digits.reverse, c.toNat - '0'.toNat = digitValue c := by
    intro c hc
    rw [digitValue, Numeral.hexDigit?, if_pos (h c (List.mem_reverse.1 hc))]
    rfl
  rw [natOf, foldl_digits, positional, List.map_congr_left hvalue]

/-- Places behind a point go on with the digits before it. -/
theorem positional_append (base : Nat) (whole places : List Char) :
    positional base (whole ++ places) =
      positional base whole * base ^ places.length + positional base places := by
  rw [positional, List.reverse_append, List.map_append, Nat.ofDigits_append, List.length_map,
    List.length_reverse]
  simp only [positional]
  ring

theorem natOf_of_nat? {n : Nat} (h : Numeral.int?.nat? digits = some n) :
    n = positional 10 digits := by
  unfold Numeral.int?.nat? at h
  split at h
  next hdigits =>
    rw [Bool.and_eq_true, List.all_eq_true] at hdigits
    exact (Option.some.inj h).symm.trans (natOf_eq hdigits.2)
  · cases h

/-- **Both languages read one exponent.** -/
theorem exponentOf_eq {e : Int} (h : Numeral.exponent? rest = some e) : exponentOf rest = e := by
  cases rest with
  | nil => exact Option.some.inj h
  | cons c cs =>
    unfold Numeral.exponent? at h
    dsimp only at h
    split at h
    · unfold Numeral.int? at h
      split at h
      all_goals
        simp only [Option.map_eq_some_iff, Option.bind_eq_bind, Option.bind_eq_some_iff,
          Option.pure_def, Option.some.injEq] at h
        obtain ⟨_, ⟨n, hn, rfl⟩, rfl⟩ := h
        rw [natOf_of_nat? hn]
      · rfl
      · rfl
      next hminus hplus =>
        unfold exponentOf
        split <;> simp_all
    · cases h

/-- Digits behind a point, moved before it. -/
theorem shift_places (whole places k : Nat) (e : Int) :
    ((whole * 10 ^ k + places : Nat) : Rat) * 10 ^ (e - k) =
      (whole + places / (10 : Rat) ^ k) * 10 ^ e := by
  have hten : (10 : Rat) ≠ 0 := by norm_num
  have hpower : (10 : Rat) ^ k ≠ 0 := pow_ne_zero k hten
  rw [zpow_sub₀ hten, zpow_natCast]
  push_cast
  field_simp

/-- The digits behind a point are digits. -/
theorem isDigit_of_mem_fraction : ∀ c ∈ (Numeral.fraction rest).1, c.isDigit = true := by
  intro c hc
  unfold Numeral.fraction at hc
  split at hc
  · exact List.mem_takeWhile_imp hc
  · cases hc

/-- A decimal numeral is a number in Lua. -/
theorem isSome_luaDecimal? (h : (Numeral.decimal? text).isSome = true) :
    (luaDecimal? text).isSome = true := by
  unfold Numeral.decimal? at h
  unfold luaDecimal?
  dsimp only at h ⊢
  split at h
  · cases h
  next hsome =>
    rw [if_neg hsome]
    simpa using h

/-- **A decimal numeral without a spare zero is one number in both languages.** -/
theorem numberOf?_decimal (hhex : hexDigits? text = none)
    (h : (Numeral.decimal? text).isSome = true)
    (hzero : hasSpareZero (text.takeWhile Char.isDigit) = false) :
    numberOf? (String.ofList text) = luaDecimal? text := by
  have hnumeral : isNumeral (String.ofList text) = true := by
    rw [isNumeral_of_decimal? hhex h, hzero]
    rfl
  unfold Numeral.decimal? at h
  dsimp only at h
  split at h
  · cases h
  next hsome =>
    rw [Option.isSome_map, Option.isSome_iff_exists] at h
    obtain ⟨e, he⟩ := h
    set whole := text.takeWhile Char.isDigit with hwhole
    set places := (Numeral.fraction (text.dropWhile Char.isDigit)).1 with hplaces
    have hdigits : ∀ c ∈ whole ++ places, c.isDigit = true :=
      List.forall_mem_append.2
        ⟨fun c hc => List.mem_takeWhile_imp hc, fun c hc => isDigit_of_mem_fraction c hc⟩
    rw [luaDecimal?, numberOf?, if_pos hnumeral, String.toList_ofList, hhex]
    dsimp only
    rw [if_neg hsome, he, exponentOf_eq he, ← hwhole, ← hplaces, natOf_eq hdigits,
      positional_append, Option.map_some, shift_places]

/-- A hexadecimal numeral has digits and nothing else. -/
theorem isHexDigit_of_isNumeral (hhex : hexDigits? text = some digits)
    (h : isNumeral (String.ofList text) = true) :
    (digits.isEmpty || !digits.all Numeral.isHexDigit) = false := by
  have hbehind := (Bool.and_eq_true_iff.1 h).2
  rw [behindNumeral, String.toList_ofList, hhex, beq_iff_eq] at hbehind
  dsimp only at hbehind
  split at hbehind
  · cases hbehind
  next hsome =>
    have hall := List.dropWhile_eq_nil_iff.1 (Option.some.inj hbehind)
    have hne : digits.isEmpty = false := by
      cases digits with
      | nil => exact absurd rfl hsome
      | cons => rfl
    simpa [hne] using hall

/-- **A hexadecimal numeral without a point and an exponent is the number of its digits**, which Lua
wraps. -/
theorem numberOf?_hex (hhex : hexDigits? text = some digits)
    (h : isNumeral (String.ofList text) = true) :
    numberOf? (String.ofList text) = some (hexNumber digits : Rat) ∧
      luaValue? text = some (Numeral.wrapped (hexNumber digits) : Rat) := by
  have hdigits := isHexDigit_of_isNumeral hhex h
  constructor
  · rw [numberOf?, if_pos h, String.toList_ofList, hhex]
    dsimp only
    rw [hexNumber_eq]
  · rw [luaValue?, hhex]
    dsimp only
    rw [if_neg (by simp [hdigits])]

/-! ## Numerals of a source -/

/-- The numeral of a token has a value. -/
theorem value?_of_mem {source : List Char} {value : Magnitude} {raw : String} {span : Span}
    (h : ⟨.number value raw, span⟩ ∈ (Scan.ofText source).tokens) :
    Numeral.value? raw.toList = some value := by
  rcases Scan.good_ofText source _ h with hspelled | heof
  · exact Numeral.value?_of_isSpelled hspelled
  · cases heof

/-- What is written for a numeral that is no hexadecimal one with a point or an exponent. -/
theorem script_eq_raw {value : Magnitude} {raw : String} (h : isHexFloat raw.toList = false) :
    Numeral.script value raw = raw := by
  unfold Numeral.script
  unfold isHexFloat at h
  split
  next digits hhex =>
    rw [hhex] at h
    exact if_neg (by simpa using h)
  · rfl

/-- **Numerals keep their value.** A numeral of a source, unless it is a hexadecimal one with a point
or an exponent, is a number `q` in Lua. What is written for it is a numeral of strict JavaScript
unless it has a spare zero in front; and then it is `q`, unless `q` is a hexadecimal numeral that
Lua had to wrap. -/
theorem numeral_keeps_value {source : String} {value : Magnitude} {raw : String} {span : Span}
    (h : ⟨.number value raw, span⟩ ∈ (Scan.ofText source.toList).tokens)
    (hplain : isHexFloat raw.toList = false) :
    ∃ q, luaValue? raw.toList = some q ∧
      isNumeral (Numeral.script value raw) = !hasSpareZero (raw.toList.takeWhile Char.isDigit) ∧
      (numberOf? (Numeral.script value raw) = some q ↔
        hasSpareZero (raw.toList.takeWhile Char.isDigit) = false ∧
          ∀ digits ∈ hexDigits? raw.toList, hexNumber digits < 2 ^ 63) := by
  have hvalue := value?_of_mem h
  have hportable := isNumeral_script hvalue
  rw [script_eq_raw hplain] at hportable ⊢
  unfold Numeral.value? at hvalue
  unfold isPortable at hportable
  unfold isHexFloat at hplain
  cases hhex : hexDigits? raw.toList with
  | none =>
    rw [hhex] at hvalue hportable
    dsimp only at hvalue hportable
    have hdecimal : (Numeral.decimal? raw.toList).isSome = true := by rw [hvalue]; rfl
    obtain ⟨q, hq⟩ := Option.isSome_iff_exists.1 (isSome_luaDecimal? hdecimal)
    have hlua : luaValue? raw.toList = some q := by rw [luaValue?, hhex, hq]
    refine ⟨q, hlua, hportable, ?_⟩
    cases hzero : hasSpareZero (raw.toList.takeWhile Char.isDigit) with
    | true =>
      rw [hzero] at hportable
      simp [numberOf?, hportable]
    | false =>
      have hnumber := numberOf?_decimal hhex hdecimal hzero
      rw [String.ofList_toList] at hnumber
      simp [hnumber, hq]
  | some digits =>
    rw [hhex] at hplain hportable
    dsimp only at hplain hportable
    -- the only digit in front of the mark is the zero that belongs to it
    have hzero : hasSpareZero (raw.toList.takeWhile Char.isDigit) = false := by
      unfold hexDigits? at hhex
      split at hhex
      next heq => rw [heq]; rfl
      next heq => rw [heq]; rfl
      · cases hhex
    rw [hplain, Bool.not_false, Bool.true_or] at hportable
    have hnumber := numberOf?_hex hhex (by rw [String.ofList_toList, hportable])
    rw [String.ofList_toList] at hnumber
    refine ⟨_, hnumber.2, by rw [hportable, hzero]; rfl, ?_⟩
    have hsame : (hexNumber digits : Rat) = (Numeral.wrapped (hexNumber digits) : Rat) ↔
        hexNumber digits < 2 ^ 63 := by
      rw [← Numeral.wrapped_eq_iff, eq_comm, ← Int.cast_natCast, Int.cast_inj]
    simp [hnumber.1, hsame, hzero]

/-- A source of numerals: a fraction with an exponent, one with a spare zero, one that Lua wraps. -/
def numeralsText : String := "return 12.50e-1, 010, 0xFFFFFFFFFFFFFFFF"

theorem numeral_keeps_value_numeralsText :
    ⟨.number (.ofDecimal 1250 (-3)) "12.50e-1", ⟨⟨1, 7⟩, ⟨1, 15⟩⟩⟩ ∈
        (Scan.ofText numeralsText.toList).tokens ∧
      isHexFloat "12.50e-1".toList = false ∧
      ∃ q, luaValue? "12.50e-1".toList = some q ∧
        isNumeral (Numeral.script (.ofDecimal 1250 (-3)) "12.50e-1") =
          !hasSpareZero ("12.50e-1".toList.takeWhile Char.isDigit) ∧
        (numberOf? (Numeral.script (.ofDecimal 1250 (-3)) "12.50e-1") = some q ↔
          hasSpareZero ("12.50e-1".toList.takeWhile Char.isDigit) = false ∧
            ∀ digits ∈ hexDigits? "12.50e-1".toList, hexNumber digits < 2 ^ 63) := by
  have htoken : ⟨.number (.ofDecimal 1250 (-3)) "12.50e-1", ⟨⟨1, 7⟩, ⟨1, 15⟩⟩⟩ ∈
      (Scan.ofText numeralsText.toList).tokens := by
    rw [numeralsText, String.toList_ofList]
    decide +kernel
  have hplain : isHexFloat "12.50e-1".toList = false := by decide
  exact ⟨htoken, hplain, numeral_keeps_value htoken hplain⟩

-- a spare zero makes the numeral none, and JavaScript counts on where Lua wraps
example :
    (compile .keep "x = 010" "Game/UI/test.lua" .empty {}).1.code = "globalThis.x = 010" ∧
      isNumeral "010" = false ∧
    (compile .keep "x = 0xFFFFFFFFFFFFFFFF" "Game/UI/test.lua" .empty {}).1.code =
      "globalThis.x = 0xFFFFFFFFFFFFFFFF" ∧
      luaValue? "0xFFFFFFFFFFFFFFFF".toList = some (-1) ∧
      numberOf? "0xFFFFFFFFFFFFFFFF" = some 18446744073709551615 := by
  repeat rw [compile, parse_ofList]
  decide +kernel

end Script

end LuaCompiler
