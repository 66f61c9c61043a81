/-!
# Binary floating-point magnitudes

The numbers that 64 bits hold, without their sign: `significand * 2 ^ exponent` with a significand
of at most 53 bits. All arithmetic is exact in `Nat` and then rounded once, to the nearest number
and of two nearest to the one with an even significand: `Magnitude.ofRatio`.
-/

namespace LuaCompiler.Binary64

/-- The quotient of two numbers, rounded to the nearest one and from the middle to the even one. -/
def roundDiv (num den : Nat) : Nat :=
  let quotient := num / den
  let rest := 2 * (num % den)
  if rest < den ∨ (rest = den ∧ quotient % 2 = 0) then quotient else quotient + 1

/-- The fraction for `n * 2 ^ e`. -/
def dyadic (n : Nat) (e : Int) : Nat × Nat :=
  if 0 ≤ e then (n * Nat.pow 2 e.toNat, 1) else (n, Nat.pow 2 (-e).toNat)

/-- The exponent of the greatest power of two that is at most the positive fraction `num / den`. -/
def log2Ratio (num den : Nat) : Int :=
  let estimate : Int := (num.log2 : Int) - (den.log2 : Int)
  let (n, d) := dyadic den estimate
  if n ≤ num * d then estimate else estimate - 1

/-- The exponent of the smallest positive number. -/
def leastExponent : Int := -1074

/-- The exponent of the greatest number. -/
def greatestExponent : Int := 971

/-- The number of bits of a significand. -/
def precision : Nat := 53

/-- A number of 64 bits without its sign. -/
inductive Magnitude where
  | finite (significand : Nat) (exponent : Int)
  | infinite
  | nan
deriving DecidableEq

namespace Magnitude

/-- Nothing. -/
def zero : Magnitude := finite 0 leastExponent

/-- The number nearest to `num / den`. -/
def ofRatio (num den : Nat) : Magnitude :=
  if num = 0 then zero
  else
    let exponent := max (log2Ratio num den - (precision - 1 : Nat)) leastExponent
    let (n, d) := dyadic 1 (-exponent)
    let significand := roundDiv (num * n) (den * d)
    let (significand, exponent) :=
      if significand = Nat.pow 2 precision then (Nat.pow 2 (precision - 1), exponent + 1)
      else (significand, exponent)
    if greatestExponent < exponent then infinite else finite significand exponent

/-- The number nearest to `n * 2 ^ e`. -/
def ofDyadic (n : Nat) (e : Int) : Magnitude :=
  let (num, den) := dyadic n e
  ofRatio num den

/-- The number nearest to a whole number. -/
def ofNat (n : Nat) : Magnitude := ofRatio n 1

/-- One. -/
def one : Magnitude := ofNat 1

/-- The number nearest to `digits * 10 ^ exponent`. Beyond 310 decimal places before the point every
number is infinite, beyond 330 behind it every number is zero. -/
def ofDecimal (digits : Nat) (exponent : Int) : Magnitude :=
  let size : Int := (Nat.toDigits 10 digits).length + exponent
  if digits = 0 ∨ size < -330 then zero
  else if 310 < size then infinite
  else if 0 ≤ exponent then ofRatio (digits * Nat.pow 10 exponent.toNat) 1
  else ofRatio digits (Nat.pow 10 (-exponent).toNat)

/-- The sum, rounded. -/
def add : Magnitude → Magnitude → Magnitude
  | nan, _ => nan
  | _, nan => nan
  | infinite, _ => infinite
  | _, infinite => infinite
  | finite a p, finite b q =>
    let low := min p q
    ofDyadic (a * Nat.pow 2 (p - low).toNat + b * Nat.pow 2 (q - low).toNat) low

/-- The product, rounded; nothing times infinity is no number. -/
def mul : Magnitude → Magnitude → Magnitude
  | nan, _ => nan
  | _, nan => nan
  | infinite, finite b _ => if b = 0 then nan else infinite
  | finite a _, infinite => if a = 0 then nan else infinite
  | infinite, infinite => infinite
  | finite a p, finite b q => ofDyadic (a * b) (p + q)

/-- The power `2 ^ e`, where a negative power is the reciprocal of the positive one: below the least
number it is zero, above the greatest infinite. -/
def powerOfTwo (e : Int) : Magnitude :=
  if 1024 ≤ e then infinite else if e ≤ -1024 then zero else ofDyadic 1 e

/-- Whether a number is above zero. -/
def isPositive : Magnitude → Bool
  | finite significand _ => significand != 0
  | infinite => true
  | nan => false

end Magnitude

/-- A number of 64 bits. -/
structure Signed where
  negative : Bool
  magnitude : Magnitude
deriving DecidableEq

/-- The difference, rounded. -/
def Magnitude.sub : Magnitude → Magnitude → Signed
  | nan, _ => ⟨false, nan⟩
  | _, nan => ⟨false, nan⟩
  | infinite, infinite => ⟨false, nan⟩
  | infinite, _ => ⟨false, infinite⟩
  | _, infinite => ⟨true, infinite⟩
  | finite a p, finite b q =>
    let low := min p q
    let minuend := a * Nat.pow 2 (p - low).toNat
    let subtrahend := b * Nat.pow 2 (q - low).toNat
    if minuend < subtrahend then ⟨true, ofDyadic (subtrahend - minuend) low⟩
    else ⟨false, ofDyadic (minuend - subtrahend) low⟩

end LuaCompiler.Binary64
