import LuaCompiler.Diagnostic
import LuaCompiler.Parser.Grammar
import LuaCompiler.Scope.Globals

/-!
# Parsing a text

`parse` reads a whole text: the program or the first fault, and in both cases the scope events noted
on the way. The bound on the depth of the descent grows with the number of tokens.
-/

namespace LuaCompiler

/-- What parsing a text gives. -/
structure Parsed where
  result : Except (Located SyntaxFault) Chunk
  /-- the scope events in the order of the text, up to the fault if there is one -/
  events : List Scope.Event
  comments : List Comment

namespace Parsed

/-- The globals of the program. -/
def globals (parsed : Parsed) : List String := Scope.globals parsed.events

variable {parsed : Parsed}

/-- What is said of the program that was read says that one was read. -/
theorem exists_of_map {α : Type} {f : Chunk → α} {value : α}
    (h : parsed.result.toOption.map f = some value) :
    ∃ chunk, parsed.result = .ok chunk ∧ f chunk = value := by
  obtain ⟨result, events, comments⟩ := parsed
  cases result with
  | error fault => cases h
  | ok chunk => exact ⟨chunk, rfl, Option.some.inj h⟩

theorem exists_of_any {p : Chunk → Bool} (h : parsed.result.toOption.any p = true) :
    ∃ chunk, parsed.result = .ok chunk ∧ p chunk = true := by
  obtain ⟨result, events, comments⟩ := parsed
  cases result with
  | error fault => cases h
  | ok chunk => exact ⟨chunk, rfl, h⟩

theorem exists_of_isSome (h : parsed.result.toOption.isSome = true) :
    ∃ chunk, parsed.result = .ok chunk := by
  obtain ⟨result, events, comments⟩ := parsed
  cases result with
  | error fault => cases h
  | ok chunk => exact ⟨chunk, rfl⟩

end Parsed

/-- How deep the descent into a text of some tokens can go: between two tokens it passes at most
eight productions. -/
def depthBound (tokens : Nat) : Nat := 8 * (tokens + 2)

/-- Parses scanned tokens. -/
def parseScan (scan : Scan) : Parsed :=
  match scan.tokens, scan.fault with
  | [], some fault => ⟨.error ⟨.lexical fault.fault, fault.position⟩, [], scan.comments⟩
  | [], none => ⟨.ok ⟨[], ⟨Position.origin, Position.origin⟩⟩, [], scan.comments⟩
  | first :: rest, ending =>
    let start : Parser.State := ⟨first, rest, ending, Position.origin, 0, []⟩
    let (result, state) := (Parser.chunk (depthBound scan.tokens.length)).run start
    ⟨result, state.events.reverse, scan.comments⟩

/-- Parses a text. -/
def parse (text : String) : Parsed :=
  parseScan (Scan.ofText text.toList)

/-- **A text is parsed from its characters.** A literal is its characters by definition, and a parse
that starts with them is much faster to check than one that has to read them from the bytes. -/
theorem parse_ofList (characters : List Char) :
    parse (String.ofList characters) = parseScan (Scan.ofText characters) := by
  rw [parse, String.toList_ofList]

/-- The diagnostic for a syntax fault in a file. -/
def syntaxDiagnostic (file : String) (fault : Located SyntaxFault) : Diagnostic where
  code := .parse
  message := fault.fault.message
  file
  line := fault.position.line
  column := fault.position.column

end LuaCompiler
