import LuaCompiler.Comment
import LuaCompiler.Token.Lexeme

/-!
# Scanning

A source text as its tokens and its comments, each with its span, and the fault that ends it early,
if there is one. A first line that starts with `#!` is no Lua and is passed over.
-/

namespace LuaCompiler

/-- Something wrong at a place. -/
structure Located (α : Type) where
  fault : α
  position : Position
deriving DecidableEq

/-- A scanned text. The tokens end with the end of the text, or before the fault. -/
structure Scan where
  tokens : List Token
  comments : List Comment
  fault : Option (Located LexicalFault)

namespace Scan

/-- A text without its trailing carriage returns. -/
def dropReturns (text : List Char) : List Char :=
  (text.reverse.dropWhile (· == '\r')).reverse

/-- The comment that a lexeme of a class is, if it is one. -/
def comment? (kind : Lexeme.Kind) (text : List Char) (span : Span) : Option Comment :=
  match kind with
  | .lineComment =>
    let raw := dropReturns text
    some ⟨String.ofList (raw.drop 2), String.ofList raw, false, span⟩
  | .blockComment level =>
    let inner := (text.drop (level + 4)).take (text.length - (level + 4) - (level + 2))
    some ⟨String.ofList inner, String.ofList text, true, span⟩
  | _ => none

/-- The scan of lexemes that start at a place and end with a fault, if there is one. -/
def ofLexemes (fault : Option LexicalFault) : Position → List Lexeme → Scan
  | here, [] =>
    match fault with
    | none => ⟨[⟨.eof, ⟨here, here⟩⟩], [], none⟩
    | some fault => ⟨[], [], some ⟨fault, here⟩⟩
  | here, lexeme :: rest =>
    let there := here.advance lexeme.text
    let span : Span := ⟨here, there⟩
    let scan := ofLexemes fault there rest
    match lexeme.kind with
    | .token kind => { scan with tokens := ⟨kind, span⟩ :: scan.tokens }
    | kind => { scan with comments := (comment? kind lexeme.text span).toList ++ scan.comments }

/-- The first line of a text, if it names an interpreter. -/
def interpreterLine : List Char → List Char
  | '#' :: '!' :: rest => '#' :: '!' :: rest.takeWhile (· != '\n')
  | _ => []

/-- The scan of a text. -/
def ofText (text : List Char) : Scan :=
  let line := interpreterLine text
  let cut := Lexemes.ofText (text.drop line.length)
  ofLexemes cut.fault (Position.origin.advance line) cut.lexemes

end Scan

end LuaCompiler
