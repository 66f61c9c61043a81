import LuaCompiler.Proofs.Script.Decision
import LuaCompiler.Proofs.Script.NumeralValues
import Mathlib.Data.Rat.Floor

/-!
# Calculations in a script

The part of JavaScript in which generated code calculates: words, literals, the minus sign, the
operators of arithmetic between two operands in parentheses, and rounding down. Numbers are rational,
a remainder has the sign of its left operand, and the plus sign adds two numbers and puts anything
else together as strings.

Two minus signs side by side are a sign of their own, which pieces do not show. So a script in which
the scanner meets two of them is no calculation.

* `Calculation.value?`: what a calculation gives.
* `Calculation.read`: the calculation that a script is read as.
* `Composes text ps`: a text of some pieces in which no two minus signs meet, and
  `Composes.append`: texts that grow together neither in a word nor in a minus sign.
* `Calculation.read_written`: **a text of pieces written for a calculation is read as it.**
-/

namespace LuaCompiler.Script

open Decision (behind? opening closing behind?_append)

/-! ## Values -/

/-- What a calculation gives: a number, or the code units of a string. -/
inductive Datum where
  | number (value : Rat)
  | text (units : List Nat)
deriving DecidableEq

/-- The code units of a whole number in decimal digits. -/
def decimalUnits (n : Int) : List Nat := Text.units (toString n).toList

/-- What is put together where a string is wanted. -/
def Datum.units? : Datum → Option (List Nat)
  | number value => if value.den = 1 then some (decimalUnits value.num) else none
  | text units => some units

/-- The operators of a calculation. -/
inductive Arithmetic where
  | plus
  | minus
  | times
  | divide
  | remainder
deriving DecidableEq

namespace Arithmetic

/-- The sign of an operator. -/
def sign : Arithmetic → Char
  | plus => '+'
  | minus => '-'
  | times => '*'
  | divide => '/'
  | remainder => '%'

/-- The operator of a sign. -/
def ofSign? (c : Char) : Option Arithmetic :=
  [plus, minus, times, divide, remainder].find? (·.sign == c)

theorem ofSign?_sign (operator : Arithmetic) : ofSign? operator.sign = some operator := by
  cases operator <;> decide

/-- **What an operator gives**: nothing is divided by zero, and only whole numbers leave a remainder.
-/
def result? : Arithmetic → Datum → Datum → Option Datum
  | plus, .number a, .number b => some (.number (a + b))
  | plus, a, b => a.units?.bind fun front => b.units?.map fun back => .text (front ++ back)
  | minus, .number a, .number b => some (.number (a - b))
  | times, .number a, .number b => some (.number (a * b))
  | divide, .number a, .number b => if b = 0 then none else some (.number (a / b))
  | remainder, .number a, .number b =>
    if a.den = 1 ∧ b.den = 1 ∧ b ≠ 0 then some (.number (a.num.tmod b.num : Int)) else none
  | _, _, _ => none

end Arithmetic

/-- **A calculation.** -/
inductive Calculation where
  | word (text : List Char)
  | literal (text : List Char)
  | negative (e : Calculation)
  | rounded (e : Calculation)
  | binary (operator : Arithmetic) (left right : Calculation)
deriving DecidableEq

namespace Calculation

/-- **What a calculation gives**, if it gives a number or a string. -/
def value? : Calculation → Option Datum
  | word text => (numberOf? (String.ofList text)).map .number
  | literal text => (literalUnits? (String.ofList text)).map .text
  | negative e =>
    match e.value? with
    | some (.number value) => some (.number (-value))
    | _ => none
  | rounded e =>
    match e.value? with
    | some (.number value) => some (.number (⌊value⌋ : Int))
    | _ => none
  | binary operator left right =>
    left.value?.bind fun a => right.value?.bind fun b => operator.result? a b

/-! ## Reading -/

/-- The function that rounds down, with the parenthesis behind it. -/
def rounding : List Piece := [.word "Math".toList, .sign '.', .word "floor".toList, .sign '(']

/-- Reads what parentheses hold, behind the opening one: an operand, or two with an operator between
them. -/
def enclosed? (operand? : List Piece → Option (Calculation × List Piece)) (ps : List Piece) :
    Option (Calculation × List Piece) := do
  let (left, ps) ← operand? ps
  match ps with
  | .sign c :: rest =>
    match Arithmetic.ofSign? c with
    | some operator => do
      let (right, rest) ← operand? rest
      return (.binary operator left right, ← behind? closing rest)
    | none => return (left, ← behind? closing ps)
  | _ => none

/-- Reads an operand from the front of some pieces. -/
def operand? : Nat → List Piece → Option (Calculation × List Piece)
  | _ + 1, .literal text :: ps => some (.literal text, ps)
  | fuel + 1, .sign c :: ps =>
    if c = '-' then (operand? fuel ps).map fun (e, rest) => (.negative e, rest)
    else if c = '(' then enclosed? (operand? fuel) ps
    else none
  | fuel + 1, .word text :: ps =>
    match behind? rounding (.word text :: ps) with
    | some inner => (enclosed? (operand? fuel) inner).map fun (e, rest) => (.rounded e, rest)
    | none => some (.word text, ps)
  | _, _ => none

/-! ## Writing -/

/-- **Pieces written for a calculation.** -/
inductive Written : Calculation → List Piece → Prop
  | word {text} (h : text ≠ "Math".toList) : Written (.word text) [.word text]
  | literal (text) : Written (.literal text) [.literal text]
  | negative {e ps} (h : Written e ps) : Written (.negative e) (.sign '-' :: ps)
  | parens {e ps} (h : Written e ps) : Written e (opening ++ (ps ++ closing))
  | binary {left right ps qs} (operator : Arithmetic) (hleft : Written left ps)
    (hright : Written right qs) : Written (.binary operator left right)
      (opening ++ (ps ++ .sign operator.sign :: (qs ++ closing)))
  | rounded {left right ps qs} (operator : Arithmetic) (hleft : Written left ps)
    (hright : Written right qs) : Written (.rounded (.binary operator left right))
      (rounding ++ (ps ++ .sign operator.sign :: (qs ++ closing)))

variable {e left right : Calculation} {ps qs rest : List Piece} {fuel : Nat}

/-- One operand in parentheses is read. -/
theorem enclosed?_one {operand : List Piece → Option (Calculation × List Piece)}
    (h : ∀ rest, operand (ps ++ rest) = some (e, rest)) (rest : List Piece) :
    enclosed? operand (ps ++ (closing ++ rest)) = some (e, rest) := by
  have hno : Arithmetic.ofSign? ')' = none := by decide
  have hclose : closing ++ rest = .sign ')' :: rest := rfl
  rw [enclosed?, h, hclose]
  simp only [Option.bind_eq_bind, Option.bind_some, hno]
  rw [← hclose, behind?_append]
  rfl

/-- Two operands with an operator between them are read. -/
theorem enclosed?_two {operand : List Piece → Option (Calculation × List Piece)}
    (hleft : ∀ rest, operand (ps ++ rest) = some (left, rest))
    (hright : ∀ rest, operand (qs ++ rest) = some (right, rest)) (operator : Arithmetic)
    (rest : List Piece) :
    enclosed? operand (ps ++ (.sign operator.sign :: (qs ++ (closing ++ rest)))) =
      some (.binary operator left right, rest) := by
  rw [enclosed?, hleft]
  simp only [Option.bind_eq_bind, Option.bind_some, Arithmetic.ofSign?_sign, hright, behind?_append]
  rfl

/-- Another word is no function. -/
theorem behind?_rounding_word {text : List Char} (h : text ≠ "Math".toList) (rest : List Piece) :
    behind? rounding (.word text :: rest) = none := by
  unfold behind?
  split
  next hstart =>
    obtain ⟨hword, -⟩ := List.cons_prefix_cons.1 (List.isPrefixOf_iff_prefix.1 hstart)
    exact absurd (Piece.word.inj hword).symm h
  · rfl

/-- **Pieces written for a calculation are read as the calculation**, whatever follows. -/
theorem operand?_written (h : Written e ps) (hfuel : ps.length < fuel) (rest : List Piece) :
    operand? fuel (ps ++ rest) = some (e, rest) := by
  induction h generalizing fuel rest with
  | word h =>
    obtain ⟨fuel, rfl⟩ : ∃ n, fuel = n + 1 := ⟨fuel - 1, by omega⟩
    -- a numeral is not the word that calls the rounding function
    rw [List.singleton_append, operand?, behind?_rounding_word h]
  | literal text =>
    obtain ⟨fuel, rfl⟩ : ∃ n, fuel = n + 1 := ⟨fuel - 1, by omega⟩
    rfl
  | @negative e ps h ih =>
    rw [List.length_cons] at hfuel
    obtain ⟨fuel, rfl⟩ : ∃ n, fuel = n + 1 := ⟨fuel - 1, by omega⟩
    rw [List.cons_append, operand?, if_pos rfl, ih (by omega)]
    rfl
  | @parens e ps h ih =>
    simp only [List.length_append, opening, closing, List.length_singleton] at hfuel
    obtain ⟨fuel, rfl⟩ : ∃ n, fuel = n + 1 := ⟨fuel - 1, by omega⟩
    have hinner (rest : List Piece) : operand? fuel (ps ++ rest) = some (e, rest) :=
      ih (by omega) rest
    rw [List.append_assoc, List.append_assoc, opening, List.singleton_append, operand?,
      if_neg (by decide), if_pos rfl]
    exact enclosed?_one hinner rest
  | @binary left right ps qs operator hleft hright ihleft ihright =>
    simp only [List.length_append, List.length_cons, opening, closing] at hfuel
    obtain ⟨fuel, rfl⟩ : ∃ n, fuel = n + 1 := ⟨fuel - 1, by omega⟩
    have hfirst (rest : List Piece) : operand? fuel (ps ++ rest) = some (left, rest) :=
      ihleft (by omega) rest
    have hsecond (rest : List Piece) : operand? fuel (qs ++ rest) = some (right, rest) :=
      ihright (by omega) rest
    rw [List.append_assoc, List.append_assoc, List.cons_append, List.append_assoc, opening,
      List.singleton_append, operand?, if_neg (by decide), if_pos rfl]
    exact enclosed?_two hfirst hsecond operator rest
  | @rounded left right ps qs operator hleft hright ihleft ihright =>
    simp only [List.length_append, List.length_cons, rounding, closing, List.length_nil] at hfuel
    obtain ⟨fuel, rfl⟩ : ∃ n, fuel = n + 1 := ⟨fuel - 1, by omega⟩
    have hfirst (rest : List Piece) : operand? fuel (ps ++ rest) = some (left, rest) :=
      ihleft (by omega) rest
    have hsecond (rest : List Piece) : operand? fuel (qs ++ rest) = some (right, rest) :=
      ihright (by omega) rest
    -- behind the name of the rounding function stands a bracket as any other
    have hcall (rest : List Piece) : operand? (fuel + 1) (rounding ++ rest) =
        (enclosed? (operand? fuel) rest).map fun (e, rest) => (.rounded e, rest) := by
      have hfront : rounding ++ rest = .word "Math".toList ::
          ([.sign '.', .word "floor".toList, .sign '('] ++ rest) := rfl
      rw [hfront, operand?, ← hfront, behind?_append]
    rw [List.append_assoc, List.append_assoc, List.cons_append, List.append_assoc, hcall,
      enclosed?_two hfirst hsecond]
    rfl

end Calculation

/-! ## Minus signs -/

/-- Whether a character is a minus sign of code. -/
def Scanner.isMinus (s : Scanner) (c : Char) : Bool := (s.step c).2.contains (.sign '-')

/-- Whether two minus signs of code stand side by side in a text, behind one or not. -/
def meetsDecrement : Scanner → Bool → List Char → Bool
  | _, _, [] => false
  | s, after, c :: cs => (after && s.isMinus c) || meetsDecrement (s.step c).1 (s.isMinus c) cs

/-- Whether a text, behind a minus sign of code or not, ends behind one. -/
def endsMinus : Scanner → Bool → List Char → Bool
  | _, after, [] => after
  | s, _, c :: cs => endsMinus (s.step c).1 (s.isMinus c) cs

/-- The calculation that a script is read as, if it is one. -/
def Calculation.read (script : String) : Option Calculation :=
  if meetsDecrement .start false script.toList then none
  else match Calculation.operand? ((pieces script).length + 1) (pieces script) with
    | some (e, []) => some e
    | _ => none

section Minus

variable {s : Scanner} {c : Char} {after : Bool} {t v : List Char}

theorem meetsDecrement_append (s : Scanner) (after : Bool) (t v : List Char) :
    meetsDecrement s after (t ++ v) =
      (meetsDecrement s after t || meetsDecrement (s.run t).1 (endsMinus s after t) v) := by
  induction t generalizing s after with
  | nil => rfl
  | cons c cs ih =>
    rw [List.cons_append, meetsDecrement, meetsDecrement, ih, Bool.or_assoc]
    rfl

/-- A minus sign of code is a minus sign. -/
theorem eq_of_isMinus (h : s.isMinus c = true) : c = '-' := by
  have hword (word : List Char) : Lexeme.sign '-' ∉ Scanner.ofWord word := by
    unfold Scanner.ofWord
    split <;> simp
  -- in code, each sign is told as itself
  have hcode {word : List Char} (hmem : Lexeme.sign '-' ∈ (Scanner.codeStep word c).2) : c = '-' := by
    unfold Scanner.codeStep at hmem
    split at hmem
    · cases hmem
    · rw [List.mem_append] at hmem
      have hsign := hmem.resolve_left (hword word)
      unfold Scanner.signStep at hsign
      split_ifs at hsign
      · cases hsign
      · cases hsign
      · cases hsign
      · cases hsign
      · exact (Lexeme.sign.inj (List.mem_singleton.1 hsign)).symm
  rw [Scanner.isMinus, List.contains_iff_mem] at h
  -- behind a slash that starts no comment the character is read as code
  obtain ⟨mode, word⟩ := s
  cases mode with
  | code => exact hcode h
  | slash =>
    unfold Scanner.step at h
    dsimp only at h
    split_ifs at h
    · cases h
    · cases h
    · rw [List.mem_cons] at h
      exact hcode (h.resolve_left (by decide))
  | stringEscape | templateEscape => cases h
  | string | template | line | block | star =>
    unfold Scanner.step at h
    dsimp only at h
    split_ifs at h
    all_goals simp at h

/-- The scanner in the middle of a word tells a minus sign as well. -/
theorem isMinus_word (word : List Char) (c : Char) :
    Scanner.isMinus ⟨.code, word⟩ c = Scanner.start.isMinus c := by
  by_cases hc : Emit.isWordChar c = true
  · have hstep (word : List Char) : (Scanner.step ⟨.code, word⟩ c).2 = [] := by
      rw [Scanner.step, Scanner.codeStep, if_pos hc]
    rw [Scanner.isMinus, Scanner.isMinus, hstep, Scanner.start, hstep]
  · have hcode : Scanner.step ⟨.code, word⟩ c =
        ((Scanner.start.step c).1, Scanner.ofWord word ++ (Scanner.start.step c).2) :=
      Scanner.codeStep_of_sign (by simpa using hc) word
    have hword : (Scanner.ofWord word).contains (.sign '-') = false := by
      unfold Scanner.ofWord
      split <;> simp
    rw [Scanner.isMinus, Scanner.isMinus, hcode, List.contains_append, hword, Bool.false_or]

/-- What the scanner has of a word does not matter. -/
theorem meetsDecrement_word (word : List Char) (after : Bool) (t : List Char) :
    meetsDecrement ⟨.code, word⟩ after t = meetsDecrement .start after t := by
  induction t generalizing word after with
  | nil => rfl
  | cons c cs ih =>
    rw [meetsDecrement, meetsDecrement, isMinus_word]
    by_cases hc : Emit.isWordChar c = true
    · have hstep (word : List Char) : (Scanner.step ⟨.code, word⟩ c).1 = ⟨.code, word ++ [c]⟩ := by
        rw [Scanner.step, Scanner.codeStep, if_pos hc]
      rw [hstep, Scanner.start, hstep, ih, ih]
    · have hcode : Scanner.step ⟨.code, word⟩ c =
          ((Scanner.start.step c).1, Scanner.ofWord word ++ (Scanner.start.step c).2) :=
        Scanner.codeStep_of_sign (by simpa using hc) word
      rw [hcode]

/-- Without minus signs no two of them meet. -/
theorem meetsDecrement_of_not_mem (h : .sign '-' ∉ (s.run t).2) (after : Bool) :
    meetsDecrement s after t = false := by
  induction t generalizing s after with
  | nil => rfl
  | cons c cs ih =>
    rw [Scanner.run_cons, List.mem_append, not_or] at h
    have hminus : s.isMinus c = false := by
      rw [Scanner.isMinus, List.contains_eq_mem, decide_eq_false h.1]
    rw [meetsDecrement, hminus, Bool.and_false, Bool.false_or, ih h.2]

/-- Another character in front parts two minus signs. -/
theorem meetsDecrement_of_head (h : t.head? ≠ some '-') (after : Bool) :
    meetsDecrement s after t = meetsDecrement s false t := by
  cases t with
  | nil => rfl
  | cons c cs =>
    have hminus : s.isMinus c = false := by
      rw [← Bool.not_eq_true]
      exact fun hc => h (congrArg some (eq_of_isMinus hc))
    rw [meetsDecrement, meetsDecrement, hminus, Bool.and_false, Bool.false_and]

/-- Another character at the end parts two minus signs. -/
theorem endsMinus_of_last (h : t.getLast? ≠ some '-') (s : Scanner) :
    endsMinus s false t = false := by
  -- the last character alone decides
  have hlast (s : Scanner) (after : Bool) (c : Char) (hc : c ≠ '-') (t : List Char) :
      endsMinus s after (t ++ [c]) = false := by
    induction t generalizing s after with
    | nil =>
      rw [← Bool.not_eq_true]
      exact fun hminus => hc (eq_of_isMinus hminus)
    | cons d t ih =>
      rw [List.cons_append, endsMinus]
      exact ih _ _
  rcases List.eq_nil_or_concat t with rfl | ⟨front, c, rfl⟩
  · rfl
  · rw [List.concat_eq_append] at h ⊢
    exact hlast s false c (fun hc => h (by rw [hc]; simp)) front

end Minus

/-! ## Texts of calculations -/

/-- **A text has some pieces, and no two minus signs meet in it.** -/
structure Composes (text : String) (ps : List Piece) : Prop where
  consists : Consists text ps
  apart : meetsDecrement .start false text.toList = false

instance (text : String) (ps : List Piece) : Decidable (Composes text ps) :=
  decidable_of_iff (Consists text ps ∧ meetsDecrement .start false text.toList = false)
    ⟨fun h => ⟨h.1, h.2⟩, fun h => ⟨h.1, h.2⟩⟩

section Texts

variable {text other : String} {ps qs : List Piece}

/-- **Texts that grow together neither in a word nor in a minus sign** have the pieces of both. -/
theorem Composes.append (h : Composes text ps) (h' : Composes other qs)
    (hword : endsWord text = false ∨ startsWord other = false)
    (hminus : text.toList.getLast? ≠ some '-' ∨ other.toList.head? ≠ some '-') :
    Composes (text ++ other) (ps ++ qs) := by
  refine ⟨h.consists.append h'.consists hword, ?_⟩
  have hstate : (Scanner.start.run text.toList).1 =
      ⟨.code, (Scanner.start.run text.toList).1.word⟩ := by
    rw [← h.consists.1.1]
  have hother : meetsDecrement .start (endsMinus .start false text.toList) other.toList = false := by
    rcases hminus with hlast | hhead
    · rw [endsMinus_of_last hlast]
      exact h'.apart
    · rw [meetsDecrement_of_head hhead]
      exact h'.apart
  rw [String.toList_append, meetsDecrement_append, h.apart, Bool.false_or, hstate,
    meetsDecrement_word, hother]

/-- **Texts with a sign between them** that belongs to no word and is no minus sign at its ends. -/
theorem Composes.join {sign : String} {rs : List Piece} (h : Composes text ps)
    (hsign : Composes sign rs) (h' : Composes other qs)
    (hword : startsWord sign = false ∧ endsWord sign = false ∧ sign ≠ "")
    (hminus : sign.toList.head? ≠ some '-' ∧ sign.toList.getLast? ≠ some '-') :
    Composes (text ++ sign ++ other) (ps ++ rs ++ qs) := by
  obtain ⟨hstart, hend, hne⟩ := hword
  have hlast : (text ++ sign).toList.getLast? = sign.toList.getLast? := by
    have hlist : sign.toList ≠ [] := fun hnil => hne (String.toList_inj.1 hnil)
    rw [String.toList_append, List.getLast?_append_of_ne_nil _ hlist]
  refine (h.append hsign (.inr hstart) (.inr hminus.1)).append h'
    (.inl (endsWord_append_of hend hne _)) (.inl ?_)
  rw [hlast]
  exact hminus.2

/-- A text without minus signs. -/
theorem Consists.composes (h : Consists text ps) (hnone : .sign '-' ∉ ps) : Composes text ps := by
  refine ⟨h, meetsDecrement_of_not_mem (fun hmem => hnone ?_) false⟩
  have hlexeme : Lexeme.sign '-' ∈ ps.map Piece.lexeme := by
    rw [← h.1.2]
    exact List.mem_append_left _ hmem
  obtain ⟨p, hp, heq⟩ := List.mem_map.1 hlexeme
  cases p with
  | sign c =>
    obtain rfl : c = '-' := Lexeme.sign.inj heq
    exact hp
  | word text => cases heq
  | literal text => cases heq

/-- Blanks and comments start and end with no minus sign. -/
theorem Silent.minus (h : Silent text) :
    text.toList.head? ≠ some '-' ∧ text.toList.getLast? ≠ some '-' := by
  obtain ⟨-, -, hmode, hnone⟩ := h
  have hrun := (List.append_eq_nil_iff.1 hnone).1
  -- in code a minus sign is a lexeme, and elsewhere it does not lead back to code
  have hstep (s : Scanner) : (s.step '-').2 ≠ [] ∨ (s.step '-').1.mode ≠ .code := by
    obtain ⟨mode, word⟩ := s
    cases mode with
    | code =>
      have hcode : (Scanner.step ⟨.code, word⟩ '-').2 = Scanner.ofWord word ++ [.sign '-'] := rfl
      exact .inl (by simp [hcode])
    | slash => exact .inl (List.cons_ne_nil _ _)
    | _ => exact .inr nofun
  refine ⟨fun hhead => ?_, fun hlast => ?_⟩
  · obtain ⟨cs, htext⟩ := List.head?_eq_some_iff.1 hhead
    have hminus : (Scanner.start.step '-').2 = [.sign '-'] := by decide
    rw [htext, Scanner.run_cons, hminus] at hrun
    cases hrun
  · obtain ⟨front, htext⟩ := List.getLast?_eq_some_iff.1 hlast
    rw [htext, Scanner.run_append, Scanner.run_cons, Scanner.run_nil] at hrun hmode
    have hend : ((Scanner.start.run front).1.step '-').2 = [] :=
      (List.append_eq_nil_iff.1 (List.append_eq_nil_iff.1 hrun).2).1
    exact (hstep _).elim (absurd hend) (absurd hmode)

/-- Blanks and comments around a text. -/
theorem Composes.within (h : Composes text ps) {front back : String} (hfront : Silent front)
    (hback : Silent back) : Composes (front ++ text ++ back) ps := by
  have hfirst : Composes front [] := hfront.consists.composes List.not_mem_nil
  have hlast : Composes back [] := hback.consists.composes List.not_mem_nil
  have hboth := (hfirst.append h (.inl hfront.2.1) (.inl hfront.minus.2)).append hlast
    (.inr hback.1) (.inr hback.minus.1)
  rwa [List.nil_append, List.append_nil] at hboth

end Texts

/-- **A text of pieces written for a calculation is read as it.** -/
theorem Calculation.read_written {e : Calculation} {script : String} {ps : List Piece}
    (h : Written e ps) (hscript : Composes script ps) : read script = some e := by
  have hread := operand?_written h (Nat.lt_succ_self _) []
  rw [List.append_nil] at hread
  rw [read, if_neg (by simp [hscript.apart]), hscript.consists.pieces, hread]

end LuaCompiler.Script
