import LuaCompiler.Binary64.Basic
import LuaCompiler.Position

/-!
# Tokens

The words of Lua: names, numerals, strings, keywords and symbols. Keywords and symbols are closed
types, each with its spelling in source text and its label in messages.
-/

namespace LuaCompiler

/-- The words that Lua reserves. -/
inductive Keyword where
  | and | break | do | else | elseIf | end | false | for | function | goto | if | in | local | nil
  | not | or | repeat | return | then | true | until | while
deriving DecidableEq

namespace Keyword

/-- Every keyword, in the order of the alphabet. -/
def all : List Keyword :=
  [.and, .break, .do, .else, .elseIf, .end, .false, .for, .function, .goto, .if, .in, .local, .nil,
    .not, .or, .repeat, .return, .then, .true, .until, .while]

/-- How a keyword is written. -/
def text : Keyword → String
  | .and => "and" | .break => "break" | .do => "do" | .else => "else" | .elseIf => "elseif"
  | .end => "end" | .false => "false" | .for => "for" | .function => "function" | .goto => "goto"
  | .if => "if" | .in => "in" | .local => "local" | .nil => "nil" | .not => "not" | .or => "or"
  | .repeat => "repeat" | .return => "return" | .then => "then" | .true => "true"
  | .until => "until" | .while => "while"

/-- What messages call a keyword. -/
def label : Keyword → String
  | .and => "And" | .break => "Break" | .do => "Do" | .else => "Else" | .elseIf => "ElseIf"
  | .end => "End" | .false => "False" | .for => "For" | .function => "Function" | .goto => "Goto"
  | .if => "If" | .in => "In" | .local => "Local" | .nil => "Nil" | .not => "Not" | .or => "Or"
  | .repeat => "Repeat" | .return => "Return" | .then => "Then" | .true => "True"
  | .until => "Until" | .while => "While"

/-- The keyword that is written so. -/
def ofText? (word : String) : Option Keyword :=
  all.find? fun keyword => keyword.text == word

end Keyword

/-- The signs of Lua. -/
inductive Symbol where
  | ellipsis | concat | doubleSlash | equal | notEqual | lessEqual | shiftLeft | greaterEqual
  | shiftRight | doubleColon | dot | slash | assign | tilde | less | greater | colon | plus | minus
  | star | percent | caret | hash | ampersand | pipe | leftParen | rightParen | leftBrace
  | rightBrace | leftBracket | rightBracket | semicolon | comma
deriving DecidableEq

namespace Symbol

/-- Every symbol, a longer one before each that it starts with. -/
def all : List Symbol :=
  [.ellipsis, .concat, .doubleSlash, .equal, .notEqual, .lessEqual, .shiftLeft, .greaterEqual,
    .shiftRight, .doubleColon, .dot, .slash, .assign, .tilde, .less, .greater, .colon, .plus,
    .minus, .star, .percent, .caret, .hash, .ampersand, .pipe, .leftParen, .rightParen, .leftBrace,
    .rightBrace, .leftBracket, .rightBracket, .semicolon, .comma]

/-- How a symbol is written. -/
def text : Symbol → String
  | .ellipsis => "..." | .concat => ".." | .doubleSlash => "//" | .equal => "==" | .notEqual => "~="
  | .lessEqual => "<=" | .shiftLeft => "<<" | .greaterEqual => ">=" | .shiftRight => ">>"
  | .doubleColon => "::" | .dot => "." | .slash => "/" | .assign => "=" | .tilde => "~"
  | .less => "<" | .greater => ">" | .colon => ":" | .plus => "+" | .minus => "-" | .star => "*"
  | .percent => "%" | .caret => "^" | .hash => "#" | .ampersand => "&" | .pipe => "|"
  | .leftParen => "(" | .rightParen => ")" | .leftBrace => "\x7b" | .rightBrace => "\x7d"
  | .leftBracket => "[" | .rightBracket => "]" | .semicolon => ";" | .comma => ","

/-- What messages call a symbol. -/
def label : Symbol → String
  | .ellipsis => "Ellipsis" | .concat => "Concat" | .doubleSlash => "DoubleSlash" | .equal => "EqEq"
  | .notEqual => "NotEq" | .lessEqual => "Le" | .shiftLeft => "Shl" | .greaterEqual => "Ge"
  | .shiftRight => "Shr" | .doubleColon => "DoubleColon" | .dot => "Dot" | .slash => "Slash"
  | .assign => "Assign" | .tilde => "Tilde" | .less => "Lt" | .greater => "Gt" | .colon => "Colon"
  | .plus => "Plus" | .minus => "Minus" | .star => "Star" | .percent => "Percent"
  | .caret => "Caret" | .hash => "Hash" | .ampersand => "Amp" | .pipe => "Pipe"
  | .leftParen => "LParen" | .rightParen => "RParen" | .leftBrace => "LBrace"
  | .rightBrace => "RBrace" | .leftBracket => "LBracket" | .rightBracket => "RBracket"
  | .semicolon => "Semicolon" | .comma => "Comma"

/-- The longest symbol at the front of a text. -/
def longest? (text : List Char) : Option Symbol :=
  all.find? fun symbol => symbol.text.toList.isPrefixOf text

end Symbol

/-- A token without its place. -/
inductive Token.Kind where
  | name (word : String)
  | number (value : Binary64.Magnitude) (raw : String)
  /-- a string, by its source text with the delimiters -/
  | string (raw : String)
  | keyword (word : Keyword)
  | symbol (sign : Symbol)
  /-- the end of the text -/
  | eof
deriving DecidableEq

namespace Token.Kind

/-- How a token is written. -/
def text : Kind → String
  | .name word => word
  | .number _ raw => raw
  | .string raw => raw
  | .keyword word => word.text
  | .symbol sign => sign.text
  | .eof => "<eof>"

/-- How messages quote a token. -/
def describe : Kind → String
  | .name word => "'" ++ word ++ "'"
  | .number _ raw => "'" ++ raw ++ "'"
  | .string raw => raw
  | .keyword word => word.label
  | .symbol sign => sign.label
  | .eof => "<eof>"

/-- What a token is called: its class, or the one token that its class has. -/
def label : Kind → String
  | .name _ => "Name"
  | .number .. => "Number"
  | .string _ => "Str"
  | .keyword word => word.label
  | .symbol sign => sign.label
  | .eof => "Eof"

end Token.Kind

/-- A token and its place. -/
structure Token where
  kind : Token.Kind
  span : Span
deriving DecidableEq

end LuaCompiler
