import LuaCompiler.Binary64.Basic

/-!
# Shortest decimals

The decimal with the fewest digits among those that round to a given number, and of these the one
nearest to it. It is found on the grids of the powers of ten from coarse to fine: on each grid only
the two neighbours of the number can do. `Signed.text` writes it out in full, without an exponent.
-/

namespace LuaCompiler.Binary64

/-- A decimal, `digits * 10 ^ exponent`. -/
structure Decimal where
  digits : Nat
  exponent : Int
deriving DecidableEq

/-- The numbers that round to one number: from `low` to `high` around `centre`, all over `den`; the
ends belong to them if `closed`. -/
structure Basin where
  low : Nat
  centre : Nat
  high : Nat
  den : Nat
  closed : Bool

namespace Basin

/-- The basin of `significand * 2 ^ exponent`. The number below a power of two is only half as far
away as the one above. -/
def of (significand : Nat) (exponent : Int) : Basin :=
  let narrow := significand = Nat.pow 2 (precision - 1) ∧ leastExponent < exponent
  let (unit, den) := dyadic 1 (exponent - 2)
  { low := (4 * significand - if narrow then 1 else 2) * unit
    centre := 4 * significand * unit
    high := (4 * significand + 2) * unit
    den
    closed := significand % 2 = 0 }

/-- The basin measured in units of `10 ^ e`. -/
def scale (b : Basin) (e : Int) : Basin :=
  if 0 ≤ e then { b with den := b.den * Nat.pow 10 e.toNat }
  else
    let factor := Nat.pow 10 (-e).toNat
    { b with low := b.low * factor, centre := b.centre * factor, high := b.high * factor }

/-- Whether a whole number of units lies in the basin. -/
def holds (b : Basin) (n : Nat) : Bool :=
  if b.closed then b.low ≤ n * b.den && n * b.den ≤ b.high
  else b.low < n * b.den && n * b.den < b.high

/-- The whole number of units in the basin that is nearest to its centre, from the middle the
greater one; only the two neighbours of the centre are tried. -/
def nearest? (b : Basin) : Option Nat :=
  let below := b.centre / b.den
  let above := below + 1
  match b.holds below, b.holds above with
  | true, true => if 2 * (b.centre % b.den) < b.den then some below else some above
  | true, false => some below
  | false, true => some above
  | false, false => none

/-- The first hit on the grids `10 ^ e`, `10 ^ (e - 1)`, and so on for `fuel` grids; without a hit,
the neighbour below on the last one. -/
def search (b : Basin) : Nat → Int → Decimal
  | 0, e => ⟨(b.scale e).centre / (b.scale e).den, e⟩
  | fuel + 1, e =>
    match (b.scale e).nearest? with
    | some digits => ⟨digits, e⟩
    | none => search b fuel (e - 1)

/-- A power of ten above the centre. -/
def top (b : Basin) : Int :=
  if b.den ≤ b.centre then (Nat.toDigits 10 (b.centre / b.den)).length
  else 2 - ((Nat.toDigits 10 (b.den / b.centre)).length : Int)

end Basin

/-- The shortest decimal for a positive finite number. Seventeen digits always do, and the search
starts at most two grids above the first. -/
def shortest (significand : Nat) (exponent : Int) : Decimal :=
  let basin := Basin.of significand exponent
  basin.search 20 basin.top

/-- A decimal written out in full. -/
def Decimal.text (d : Decimal) : String :=
  let digits := Nat.toDigits 10 d.digits
  if 0 ≤ d.exponent then String.ofList (digits ++ List.replicate d.exponent.toNat '0')
  else
    let places := (-d.exponent).toNat
    let padded := List.replicate (places + 1 - digits.length) '0' ++ digits
    let whole := padded.length - places
    String.ofList (padded.take whole ++ '.' :: padded.drop whole)

/-- A magnitude in the fewest digits, never with an exponent. -/
def Magnitude.text : Magnitude → String
  | .finite significand exponent =>
    if significand = 0 then "0" else (shortest significand exponent).text
  | .infinite => "inf"
  | .nan => "NaN"

/-- A number in the fewest digits, never with an exponent; nothing has no sign. -/
def Signed.text (value : Signed) : String :=
  if value.negative then "-" ++ value.magnitude.text else value.magnitude.text

end LuaCompiler.Binary64
