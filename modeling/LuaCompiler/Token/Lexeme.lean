import LuaCompiler.Numeral
import LuaCompiler.Token

/-!
# Lexemes

A text is cut from left to right into lexemes: blanks, comments and tokens. `Lexeme.cut?` decides
from the text ahead which lexeme comes first and how far it reaches; `lexemes` repeats it until the
text ends or nothing fits. Since a lexeme takes its first character and a number of those behind it,
the lexemes tile the text: `Lexemes.flatMap_text_ofText`.
-/

namespace LuaCompiler

/-- What can be wrong with a text as a sequence of lexemes. -/
inductive LexicalFault where
  | unfinishedString
  | unfinishedLongString
  | unfinishedLongComment
  | malformedNumber (raw : String)
  | unexpectedSymbol (found : Char)
deriving DecidableEq

namespace LexicalFault

/-- The wording of a fault. -/
def message : LexicalFault → String
  | unfinishedString => "unfinished string"
  | unfinishedLongString => "unfinished long string"
  | unfinishedLongComment => "unfinished long comment"
  | malformedNumber raw => "malformed number near '" ++ raw ++ "'"
  | unexpectedSymbol found => "unexpected symbol near '" ++ String.singleton found ++ "'"

end LexicalFault

namespace Lexeme

/-- The classes of lexemes. -/
inductive Kind where
  | blank
  | lineComment
  /-- a comment in long brackets of a level -/
  | blockComment (level : Nat)
  | token (kind : Token.Kind)
deriving DecidableEq

/-- Whether a character parts tokens. -/
def isSpace (c : Char) : Bool :=
  [' ', '\t', '\r', '\n', '\x0b', '\x0c'].contains c

/-- Whether a character can start a name. -/
def isNameStart (c : Char) : Bool := c.isAlpha || c == '_'

/-- Whether a character can go on a name. -/
def isNameRest (c : Char) : Bool := c.isAlphanum || c == '_'

/-- The level of the long bracket that opens with a bracket in front of `rest`. -/
def longLevel? (rest : List Char) : Option Nat :=
  match rest.dropWhile (· == '=') with
  | '[' :: _ => some (rest.takeWhile (· == '=')).length
  | _ => none

/-- The closing bracket of a level. -/
def closing (level : Nat) : List Char :=
  ']' :: List.replicate level '=' ++ [']']

/-- How many characters lead up to and through the first closing bracket of a level. -/
def throughClosing? (level : Nat) : List Char → Option Nat
  | [] => none
  | c :: cs =>
    if (closing level).isPrefixOf (c :: cs) then some (level + 2)
    else (throughClosing? level cs).map (· + 1)

/-- The blanks that an escape in a string drops. -/
def isEscapedSpace (c : Char) : Bool :=
  [' ', '\t', '\r', '\n', '\x0c'].contains c

/-- Where the scanner of a short string stands: between characters, behind a backslash, or behind an
escape that drops blanks. -/
inductive Inside where
  | plain
  | escaped
  | blanks
deriving DecidableEq

/-- How many characters lead up to and through the quote that ends a short string; none if a line
break or the end of the text comes first. -/
def throughQuote? (quote : Char) : Inside → List Char → Option Nat
  | _, [] => none
  | .escaped, c :: cs =>
    (throughQuote? quote (if c = 'z' then .blanks else .plain) cs).map (· + 1)
  | inside, c :: cs =>
    if inside = .blanks ∧ isEscapedSpace c then (throughQuote? quote .blanks cs).map (· + 1)
    else if c = quote then some 1
    else if c = '\n' then none
    else (throughQuote? quote (if c = '\\' then .escaped else .plain) cs).map (· + 1)

/-- A lexeme's class, and how many characters behind its first one belong to it. -/
structure Cut where
  kind : Kind
  more : Nat

/-- The blanks that start with a blank. -/
def cutBlank (rest : List Char) : Cut :=
  ⟨.blank, (rest.takeWhile isSpace).length⟩

/-- The comment whose dashes stand before `rest`. -/
def cutComment (rest : List Char) : Except LexicalFault Cut :=
  let line : Cut := ⟨.lineComment, 1 + (rest.takeWhile (· != '\n')).length⟩
  match rest with
  | '[' :: inner =>
    match longLevel? inner with
    | some level =>
      match throughClosing? level (inner.drop (level + 1)) with
      | some n => .ok ⟨.blockComment level, 1 + (level + 2) + n⟩
      | none => .error .unfinishedLongComment
    | none => .ok line
  | _ => .ok line

/-- The name or keyword that starts with a letter. -/
def cutName (first : Char) (rest : List Char) : Cut :=
  let more := rest.takeWhile isNameRest
  let word := String.ofList (first :: more)
  let kind := match Keyword.ofText? word with
    | some keyword => .keyword keyword
    | none => .name word
  ⟨.token kind, more.length⟩

/-- The numeral that starts with a digit or a point. -/
def cutNumber (first : Char) (rest : List Char) : Except LexicalFault Cut :=
  let more := Numeral.run first rest
  let raw := first :: rest.take more
  match Numeral.value? raw with
  | some value => .ok ⟨.token (.number value (String.ofList raw)), more⟩
  | none => .error (.malformedNumber (String.ofList raw))

/-- The short string that a quote opens. -/
def cutString (quote : Char) (rest : List Char) : Except LexicalFault Cut :=
  match throughQuote? quote .plain rest with
  | some more => .ok ⟨.token (.string (String.ofList (quote :: rest.take more))), more⟩
  | none => .error .unfinishedString

/-- The long string that a bracket of a level opens. -/
def cutLongString (level : Nat) (rest : List Char) : Except LexicalFault Cut :=
  match throughClosing? level (rest.drop (level + 1)) with
  | some n =>
    let more := level + 1 + n
    .ok ⟨.token (.string (String.ofList ('[' :: rest.take more))), more⟩
  | none => .error .unfinishedLongString

/-- The symbol that starts with a character. -/
def cutSymbol (first : Char) (rest : List Char) : Except LexicalFault Cut :=
  match Symbol.longest? (first :: rest) with
  | some symbol => .ok ⟨.token (.symbol symbol), symbol.text.length - 1⟩
  | none => .error (.unexpectedSymbol first)

/-- Whether a text goes on with a digit. -/
def startsWithDigit : List Char → Bool
  | c :: _ => c.isDigit
  | [] => false

/-- The lexeme at the front of a text that starts with `first`. -/
def cut? (first : Char) (rest : List Char) : Except LexicalFault Cut :=
  if isSpace first then .ok (cutBlank rest)
  else if first = '-' ∧ rest.head? = some '-' then cutComment (rest.drop 1)
  else if isNameStart first then .ok (cutName first rest)
  else if first.isDigit ∨ (first = '.' ∧ startsWithDigit rest) then cutNumber first rest
  else if first = '"' ∨ first = '\x27' then cutString first rest
  else if first = '[' then
    match longLevel? rest with
    | some level => cutLongString level rest
    | none => cutSymbol first rest
  else cutSymbol first rest

end Lexeme

/-- A stretch of text and its class. -/
structure Lexeme where
  kind : Lexeme.Kind
  text : List Char
deriving DecidableEq

/-- A text cut into lexemes, and what stopped the cutting before the text's end. -/
structure Lexemes where
  lexemes : List Lexeme
  fault : Option LexicalFault

namespace Lexemes

/-- One lexeme in front of others. -/
def cons (lexeme : Lexeme) (rest : Lexemes) : Lexemes :=
  { rest with lexemes := lexeme :: rest.lexemes }

/-- Cuts a text whose first `skip` characters belong to a lexeme already cut. -/
def ofTextFrom : Nat → List Char → Lexemes
  | _, [] => ⟨[], none⟩
  | skip + 1, _ :: cs => ofTextFrom skip cs
  | 0, c :: cs =>
    match Lexeme.cut? c cs with
    | .ok cut => cons ⟨cut.kind, c :: cs.take cut.more⟩ (ofTextFrom cut.more cs)
    | .error fault => ⟨[], some fault⟩

/-- The lexemes of a text. -/
def ofText (text : List Char) : Lexemes :=
  ofTextFrom 0 text

theorem flatMap_text_ofTextFrom (skip : Nat) (text : List Char)
    (h : (ofTextFrom skip text).fault = none) :
    (ofTextFrom skip text).lexemes.flatMap Lexeme.text = text.drop skip := by
  fun_induction ofTextFrom skip text with
  | case1 => simp
  | case2 skip c cs ih => simpa using ih h
  | case3 c cs cut hcut ih =>
    simp only [cons] at h ⊢
    simp [ih h]
  | case4 => simp at h

/-- **The lexemes of a text without fault are the text.** -/
theorem flatMap_text_ofText (text : List Char) (h : (ofText text).fault = none) :
    (ofText text).lexemes.flatMap Lexeme.text = text := by
  simpa [ofText] using flatMap_text_ofTextFrom 0 text h

end Lexemes

end LuaCompiler
