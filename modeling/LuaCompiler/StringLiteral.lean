import LuaCompiler.Text.Search

/-!
# String literals

A Lua string literal, given by its source text with the delimiters, becomes a JavaScript literal: a
short string a double-quoted string, a long string a template. The short form is read by a small
machine, `Reading`, one character at a time, so that every function here is structural.
-/

namespace LuaCompiler.StringLiteral

/-- Whether a literal is written with long brackets. -/
def isLong : List Char → Bool
  | '[' :: _ => true
  | _ => false

/-- The level of the long bracket that opens a literal: the number of its equals signs. -/
def level (raw : List Char) : Nat :=
  (raw.tail.takeWhile (· == '=')).length

/-- A long string drops one line break after its opening bracket. -/
def dropFirstBreak : List Char → List Char
  | '\r' :: '\n' :: cs => cs
  | '\n' :: cs => cs
  | cs => cs

/-- The text between the delimiters of a literal; a literal too short to have both has none. -/
def contentOf (raw : List Char) : List Char :=
  if isLong raw then
    let width := level raw + 2
    if Text.byteCount raw < width + width then []
    else dropFirstBreak (Text.dropLastBytes width (Text.dropBytes width raw))
  else if 2 ≤ Text.byteCount raw then Text.dropLastBytes 1 (Text.dropBytes 1 raw)
  else []

/-- Where the reader of a short string stands. -/
inductive Reading where
  /-- between characters -/
  | plain
  /-- after a backslash -/
  | escaped
  /-- behind an escape that drops the blanks after it -/
  | blanks
  /-- inside a decimal escape: how many digits were read, and their value -/
  | digits (count value : Nat)

/-- Two lower-case hexadecimal digits. -/
def hexPair (n : Nat) : List Char :=
  [Nat.digitChar (n / 16), Nat.digitChar (n % 16)]

/-- A code unit written by number; a number above 255 is written as 255. -/
def unitEscape (value : Nat) : List Char :=
  '\\' :: 'x' :: hexPair (min value 255)

/-- A character of a short string, outside an escape. -/
def plainStep (c : Char) : List Char × Reading :=
  if c = '"' then (['\\', '"'], .plain)
  else if c = '\\' then ([], .escaped)
  else if c = '\n' then (['\\', 'n'], .plain)
  else if c = '\r' then (['\\', 'r'], .plain)
  else ([c], .plain)

/-- The character behind a backslash. -/
def escapedStep (c : Char) : List Char × Reading :=
  if c = 'a' then (unitEscape 7, .plain)
  else if ['n', 't', 'r', 'b', 'f', 'v', '\\', '"'].contains c then (['\\', c], .plain)
  else if c = '\n' then (['\\', 'n'], .plain)
  else if c = 'z' then ([], .blanks)
  else if c = 'x' ∨ c = 'u' then (['\\', c], .plain)
  else if c.isDigit then ([], .digits 1 (c.toNat - '0'.toNat))
  else ([c], .plain)

/-- What one character adds to the JavaScript literal, and where the reader stands after it. -/
def step : Reading → Char → List Char × Reading
  | .plain, c => plainStep c
  | .escaped, c => escapedStep c
  | .blanks, c => if Text.isBlank c then ([], .blanks) else plainStep c
  | .digits count value, c =>
    if count < 3 && c.isDigit then ([], .digits (count + 1) (value * 10 + (c.toNat - '0'.toNat)))
    else
      let (out, reading) := plainStep c
      (unitEscape value ++ out, reading)

/-- What the end of the string adds: a lone backslash stands for itself. -/
def finish : Reading → List Char
  | .escaped => ['\\', '\\']
  | .digits _ value => unitEscape value
  | _ => []

/-- The inside of the double-quoted literal, from where the reader stands. -/
def quotedFrom : Reading → List Char → List Char
  | reading, [] => finish reading
  | reading, c :: cs =>
    let (out, next) := step reading c
    out ++ quotedFrom next cs

/-- The inside of a template: backslashes, backticks and the opening of a substitution are
escaped. -/
def templateOf (content : List Char) : List Char :=
  let slashes := Text.replaceFrom ['\\'] ['\\', '\\'] 0 content
  let ticks := Text.replaceFrom ['\x60'] ['\\', '\x60'] 0 slashes
  Text.replaceFrom ['$', '\x7b'] ['\\', '$', '\x7b'] 0 ticks

/-- The text between the delimiters of a literal. -/
def content (raw : String) : String :=
  String.ofList (contentOf raw.toList)

/-- The JavaScript literal for a Lua literal. -/
def toScript (raw : String) : String :=
  if isLong raw.toList then
    String.ofList ('\x60' :: templateOf (contentOf raw.toList) ++ ['\x60'])
  else
    String.ofList ('"' :: quotedFrom .plain (contentOf raw.toList) ++ ['"'])

end LuaCompiler.StringLiteral
