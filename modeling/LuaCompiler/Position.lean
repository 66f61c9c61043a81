/-!
# Positions and spans

A position is a line, counted from one, and a column, counted in UTF-8 bytes from the last line
feed. Reading a text moves a position over it: `Position.advance`. A span is the stretch between two
positions.
-/

namespace LuaCompiler

/-- A place in a source text: line from one, column in bytes from zero. -/
structure Position where
  line : Nat
  column : Nat
deriving DecidableEq, Inhabited

namespace Position

/-- The first place of every text. -/
def origin : Position := ⟨1, 0⟩

/-- The place after one character: a line feed opens a line, all else widens the column by its
bytes. -/
def next (p : Position) (c : Char) : Position :=
  if c = '\n' then ⟨p.line + 1, 0⟩ else ⟨p.line, p.column + c.utf8Size⟩

/-- The place after a text. -/
def advance (p : Position) (text : List Char) : Position :=
  text.foldl next p

@[simp]
theorem advance_nil (p : Position) : p.advance [] = p := rfl

@[simp]
theorem advance_cons (p : Position) (c : Char) (text : List Char) :
    p.advance (c :: text) = (p.next c).advance text := rfl

/-- **Reading in two parts is reading at once.** -/
theorem advance_append (p : Position) (s t : List Char) :
    p.advance (s ++ t) = (p.advance s).advance t :=
  List.foldl_append

/-- Reading order: by line, then by column. -/
def le (p q : Position) : Bool :=
  p.line < q.line || (p.line == q.line && p.column ≤ q.column)

end Position

/-- The stretch of text from `start` up to, and without, `stop`. -/
structure Span where
  start : Position
  stop : Position
deriving DecidableEq, Inhabited

namespace Span

/-- The stretch from the start of one span to the end of another. -/
def through (a b : Span) : Span := ⟨a.start, b.stop⟩

end Span

end LuaCompiler
