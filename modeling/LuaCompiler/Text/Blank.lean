/-!
# Blank characters

The characters with the Unicode property `White_Space`. Trimming generated text and the `\z` escape
of a string use this class; the class of blanks between tokens is smaller and stands with the
lexemes.
-/

namespace LuaCompiler.Text

/-- The code points of the property `White_Space`, as inclusive ranges in rising order. -/
def blankRanges : List (Nat × Nat) :=
  [(0x9, 0xD), (0x20, 0x20), (0x85, 0x85), (0xA0, 0xA0), (0x1680, 0x1680), (0x2000, 0x200A),
    (0x2028, 0x2029), (0x202F, 0x202F), (0x205F, 0x205F), (0x3000, 0x3000)]

/-- Whether a character has the property `White_Space`. -/
def isBlank (c : Char) : Bool :=
  blankRanges.any fun (lo, hi) => lo ≤ c.toNat && c.toNat ≤ hi

end LuaCompiler.Text
