import LuaCompiler.Numeral

/-!
# The values of literals

A string literal and a template of JavaScript have a value, a list of **code units**: a character
counts as one or as two, and an escape names a unit by its number or a character by its code point.

* `Text.codeUnits`: the code units of a code point; `Text.units`: those of a text.
* `Script.escape?`: what an escape stands for.
* `Script.literalUnits?`: **the value of a literal**, of a string in double quotes or a template.
* `Script.spelledUnits?`: the same behind the opening sign; `Spells out units` says that a piece of a
  literal adds some units to it, whatever follows, with `Spells.append` for pieces in a row.
-/

namespace LuaCompiler

/-- The code units of a code point. -/
def Text.codeUnits (code : Nat) : List Nat :=
  if code < 0x10000 then [code]
  else [0xd800 + (code - 0x10000) / 0x400, 0xdc00 + (code - 0x10000) % 0x400]

/-- The code units of a text. -/
def Text.units (text : List Char) : List Nat := text.flatMap fun c => codeUnits c.toNat

@[simp]
theorem Text.units_nil : units [] = [] := rfl

@[simp]
theorem Text.units_cons (c : Char) (text : List Char) :
    units (c :: text) = codeUnits c.toNat ++ units text := rfl

/-- A code point is at most this number. -/
def Text.lastCode : Nat := 0x10ffff

/-- The value of a run of hexadecimal digits. -/
def Numeral.hexNumber (digits : List Char) : Nat :=
  digits.foldl (fun n c => n * 16 + (hexDigit? c).getD 0) 0

namespace Script

open Text (codeUnits lastCode)

/-- The characters that end a line. -/
def isLineEnd (c : Char) : Bool := ['\n', '\r', '\u2028', '\u2029'].contains c

/-- Letters that stand for a control character behind a backslash. -/
def controlEscapes : List (Char × Nat) :=
  [('b', 8), ('t', 9), ('n', 10), ('v', 11), ('f', 12), ('r', 13)]

/-- What a code point in braces stands for, behind the opening brace, and how many characters are
read. -/
def bracedCode? (text : List Char) : Option (List Nat × Nat) :=
  let digits := text.takeWhile Numeral.isHexDigit
  if digits.isEmpty || lastCode < Numeral.hexNumber digits then none
  else match text.drop digits.length with
    | '\x7d' :: _ => some (codeUnits (Numeral.hexNumber digits), digits.length + 1)
    | _ => none

/-- What a code unit of some hexadecimal digits stands for, and how many characters are read. -/
def fixedCode? (width : Nat) (text : List Char) : Option (List Nat × Nat) :=
  let digits := text.take width
  if digits.length = width ∧ digits.all Numeral.isHexDigit then
    some ([Numeral.hexNumber digits], width)
  else none

/-- **What an escape stands for**, behind its backslash, and how many characters are read. A line may
go on in the next one; a digit other than a lone zero is no escape in strict code. -/
def escape? : List Char → Option (List Nat × Nat)
  | [] => none
  | 'x' :: cs => (fixedCode? 2 cs).map fun (units, width) => (units, width + 1)
  | 'u' :: '\x7b' :: cs => (bracedCode? cs).map fun (units, width) => (units, width + 2)
  | 'u' :: cs => (fixedCode? 4 cs).map fun (units, width) => (units, width + 1)
  | '\r' :: '\n' :: _ => some ([], 2)
  | c :: cs =>
    if isLineEnd c then some ([], 1)
    else if c.isDigit then
      if c = '0' ∧ ¬ cs.head?.any Char.isDigit then some ([0], 1) else none
    else match controlEscapes.lookup c with
      | some unit => some ([unit], 1)
      | none => some (codeUnits c.toNat, 1)

/-- The kinds of literals. -/
inductive Quotation where
  | string
  | template
deriving DecidableEq

namespace Quotation

/-- The sign that opens a literal and ends it. -/
def sign : Quotation → Char
  | string => '"'
  | template => '\x60'

/-- What a character that opens no escape stands for in front of some text, and how many characters
of the text belong to it. A string ends in its line. A template keeps its line ends, all as line
feeds, and a substitution is no part of its text. -/
def plain? (quotation : Quotation) (c : Char) (text : List Char) : Option (List Nat × Nat) :=
  match quotation with
  | string => if c = '\n' ∨ c = '\r' then none else some (codeUnits c.toNat, 0)
  | template =>
    if c = '$' ∧ text.head? = some '\x7b' then none
    else if c = '\r' then some ([10], if text.head? = some '\n' then 1 else 0)
    else some (codeUnits c.toNat, 0)

end Quotation

/-- The code units of a literal from behind its opening sign to its end, if it ends with the text;
the first `skip` characters are read already. -/
def spelledUnits? (quotation : Quotation) : Nat → List Char → Option (List Nat)
  | _, [] => none
  | skip + 1, _ :: cs => spelledUnits? quotation skip cs
  | 0, c :: cs =>
    if c = quotation.sign then if cs.isEmpty then some [] else none
    else match if c = '\\' then escape? cs else quotation.plain? c cs with
      | some (units, width) => (spelledUnits? quotation width cs).map (units ++ ·)
      | none => none

/-- **The value of a literal**: that of a text that is one string or one template and nothing else.
-/
def literalUnits? (text : String) : Option (List Nat) :=
  match text.toList with
  | '"' :: cs => spelledUnits? .string 0 cs
  | '\x60' :: cs => spelledUnits? .template 0 cs
  | _ => none

/-! ## Pieces of a literal -/

variable {quotation : Quotation} {units : List Nat} {c : Char} {t v : List Char}

theorem spelledUnits_skip (quotation : Quotation) (t v : List Char) :
    spelledUnits? quotation t.length (t ++ v) = spelledUnits? quotation 0 v := by
  induction t with
  | nil => rfl
  | cons c t ih =>
    rw [List.length_cons, List.cons_append, spelledUnits?]
    exact ih

/-- A piece of a literal adds some code units to it, whatever follows. -/
def Spells (quotation : Quotation) (t : List Char) (units : List Nat) : Prop :=
  ∀ v, spelledUnits? quotation 0 (t ++ v) = (spelledUnits? quotation 0 v).map (units ++ ·)

theorem spells_nil : Spells quotation [] [] := by
  intro v
  simp

theorem Spells.append {more : List Nat} (h : Spells quotation t units)
    (h' : Spells quotation v more) : Spells quotation (t ++ v) (units ++ more) := by
  intro rest
  rw [List.append_assoc, h, h', Option.map_map]
  congr 1
  funext tail
  exact (List.append_assoc ..).symm

/-- An escape of the characters `t`. -/
theorem spells_escape (hsign : quotation.sign ≠ '\\')
    (h : ∀ v, escape? (t ++ v) = some (units, t.length)) : Spells quotation ('\\' :: t) units := by
  intro v
  rw [List.cons_append, spelledUnits?, if_neg (Ne.symm hsign), if_pos rfl, h]
  dsimp only
  rw [spelledUnits_skip]

/-- A character of its own. -/
theorem spells_char (hsign : c ≠ quotation.sign) (hslash : c ≠ '\\')
    (h : ∀ v, quotation.plain? c v = some (units, 0)) : Spells quotation [c] units := by
  intro v
  rw [List.singleton_append, spelledUnits?, if_neg hsign, if_neg hslash, h]

/-- A whole literal. -/
theorem Spells.whole (h : Spells quotation t units) :
    literalUnits? (String.ofList (quotation.sign :: t ++ [quotation.sign])) = some units := by
  have hend : spelledUnits? quotation 0 [quotation.sign] = some [] := by
    simp [spelledUnits?]
  have hbody : spelledUnits? quotation 0 (t ++ [quotation.sign]) = some units := by
    rw [h, hend, Option.map_some, List.append_nil]
  rw [literalUnits?, String.toList_ofList]
  cases quotation with
  | string => exact hbody
  | template => exact hbody

end Script

end LuaCompiler
