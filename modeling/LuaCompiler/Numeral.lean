import LuaCompiler.Binary64.Shortest

/-!
# Numerals

The value of a Lua numeral, decimal or hexadecimal, and its JavaScript text. A decimal numeral has
the number nearest to it; a hexadecimal one is built digit by digit and rounds at each step.
-/

namespace LuaCompiler.Numeral

open Binary64

/-- Whether a character is a hexadecimal digit. -/
def isHexDigit (c : Char) : Bool :=
  c.isDigit || ('a' ≤ c && c ≤ 'f') || ('A' ≤ c && c ≤ 'F')

/-- The value of a hexadecimal digit. -/
def hexDigit? (c : Char) : Option Nat :=
  if c.isDigit then some (c.toNat - '0'.toNat)
  else if 'a' ≤ c ∧ c ≤ 'f' then some (c.toNat - 'a'.toNat + 10)
  else if 'A' ≤ c ∧ c ≤ 'F' then some (c.toNat - 'A'.toNat + 10)
  else none

/-- The value of a run of decimal digits. -/
def natOf (digits : List Char) : Nat :=
  digits.foldl (fun n c => n * 10 + (c.toNat - '0'.toNat)) 0

/-- The value of a non-empty run of decimal digits with or without a sign. -/
def int? : List Char → Option Int
  | '-' :: digits => (nat? digits).map fun n => -(n : Int)
  | '+' :: digits => (nat? digits).map fun n => (n : Int)
  | digits => (nat? digits).map fun n => (n : Int)
where
  /-- The value of a non-empty run of decimal digits. -/
  nat? (digits : List Char) : Option Nat :=
    if !digits.isEmpty && digits.all Char.isDigit then some (natOf digits) else none

/-- The exponent part of a decimal numeral, none if it is left out. -/
def exponent? : List Char → Option Int
  | [] => some 0
  | c :: cs => if c = 'e' ∨ c = 'E' then int? cs else none

/-- The digits behind a point, if there is one, and what follows them. -/
def fraction : List Char → List Char × List Char
  | '.' :: cs => (cs.takeWhile Char.isDigit, cs.dropWhile Char.isDigit)
  | cs => ([], cs)

/-- The value of a decimal numeral: digits with at most one point among them, then perhaps an
exponent. -/
def decimal? (raw : List Char) : Option Magnitude :=
  let whole := raw.takeWhile Char.isDigit
  let (places, rest) := fraction (raw.dropWhile Char.isDigit)
  if whole.isEmpty && places.isEmpty then none
  else (exponent? rest).map fun e =>
    Magnitude.ofDecimal (natOf (whole ++ places)) (e - places.length)

/-- The exponents of two that a hexadecimal numeral may have. -/
def hexExponent? (text : List Char) : Option Int :=
  (int? text).filter fun e => -2147483648 ≤ e && e < 2147483648

/-- Adds the whole digits of a hexadecimal numeral to a value. -/
def addWhole (value : Magnitude) (digit : Nat) : Magnitude :=
  (value.mul (.ofNat 16)).add (.ofNat digit)

/-- Adds a digit behind the point of a hexadecimal numeral to a value, and shrinks the scale for the
next one. -/
def addPlace : Magnitude × Magnitude → Nat → Magnitude × Magnitude
  | (value, scale), digit =>
    (value.add ((Magnitude.ofNat digit).mul scale), scale.mul (.ofRatio 1 16))

/-- Whether a character opens the exponent of a hexadecimal numeral. -/
def isPower (c : Char) : Bool := c == 'p' || c == 'P'

/-- The value of a hexadecimal numeral, given without its `0x`. -/
def hex? (text : List Char) : Option Magnitude := do
  let mantissa := text.takeWhile (!isPower ·)
  let exponent ← match text.dropWhile (!isPower ·) with
    | [] => some 0
    | _ :: cs => hexExponent? cs
  let whole ← (mantissa.takeWhile (· != '.')).mapM hexDigit?
  let places ← ((mantissa.dropWhile (· != '.')).drop 1).mapM hexDigit?
  if whole.isEmpty && places.isEmpty then none
  else
    let value := whole.foldl addWhole .zero
    let (value, _) := places.foldl addPlace (value, .ofRatio 1 16)
    some (value.mul (.powerOfTwo exponent))

/-- What follows the mark of a hexadecimal numeral, if `raw` is one. -/
def hexDigits? : List Char → Option (List Char)
  | '0' :: 'x' :: digits => some digits
  | '0' :: 'X' :: digits => some digits
  | _ => none

/-- The value of a numeral. -/
def value? (raw : List Char) : Option Magnitude :=
  match hexDigits? raw with
  | some digits => hex? digits
  | none => decimal? raw

/-- How many characters at the front of a text belong to the decimal numeral before it: digits,
points, and exponent marks with their sign. -/
def decimalRun : List Char → Nat
  | [] => 0
  | c :: cs =>
    if c.isDigit || c == '.' then 1 + decimalRun cs
    else if c == 'e' || c == 'E' then
      match cs with
      | sign :: rest =>
        if sign == '+' || sign == '-' then 2 + decimalRun rest else 1 + decimalRun (sign :: rest)
      | [] => 1
    else 0

/-- How many characters at the front of a text belong to the hexadecimal numeral before it. -/
def hexRun : List Char → Nat
  | [] => 0
  | c :: cs =>
    if isHexDigit c || c == '.' then 1 + hexRun cs
    else if isPower c then
      match cs with
      | sign :: rest =>
        if sign == '+' || sign == '-' then 2 + hexRun rest else 1 + hexRun (sign :: rest)
      | [] => 1
    else 0

/-- How many characters behind the first one belong to a numeral that starts with it. -/
def run (first : Char) (rest : List Char) : Nat :=
  match hexDigits? (first :: rest) with
  | some digits => 1 + hexRun digits
  | none => (decimalRun (first :: rest)) - 1

/-- The JavaScript text of a numeral: its own, since both languages read it alike, but for a
hexadecimal numeral with a point or an exponent, which is written in decimal. -/
def script (value : Magnitude) (raw : String) : String :=
  match hexDigits? raw.toList with
  | some digits => if digits.any fun c => c == '.' || isPower c then value.text else raw
  | none => raw

end LuaCompiler.Numeral
