import LuaCompiler.Text.Blank

/-!
# Searching and replacing in text

Substring search, replacement from left to right without overlap, trimming of blanks, and cutting by
bytes. The functions on `List Char` carry the rules; those on `String` only convert.
-/

namespace LuaCompiler.Text

/-- Whether `needle` stands somewhere in a text; the empty needle stands everywhere. -/
def occurs (needle : List Char) : List Char → Bool
  | [] => needle.isEmpty
  | c :: cs => needle.isPrefixOf (c :: cs) || occurs needle cs

/-- Copies a text with every occurrence of the non-empty `old` replaced by `new`, scanning from the
left; the first `skip` characters belong to an occurrence already replaced. -/
def replaceFrom (old new : List Char) : Nat → List Char → List Char
  | _, [] => []
  | skip + 1, _ :: cs => replaceFrom old new skip cs
  | 0, c :: cs =>
    if old.isPrefixOf (c :: cs) then new ++ replaceFrom old new (old.length - 1) cs
    else c :: replaceFrom old new 0 cs

/-- Copies a text with the first occurrence of `old` replaced by `new`. -/
def replaceFirstIn (old new : List Char) : List Char → List Char
  | [] => []
  | c :: cs =>
    if old.isPrefixOf (c :: cs) then new ++ (c :: cs).drop old.length
    else c :: replaceFirstIn old new cs

/-- The bytes a text takes in UTF-8. -/
def byteCount (text : List Char) : Nat :=
  text.foldl (fun n c => n + c.utf8Size) 0

/-- What remains of a text after its first `n` bytes; a character cut in two is gone whole. -/
def dropBytes : Nat → List Char → List Char
  | 0, cs => cs
  | _ + 1, [] => []
  | n + 1, c :: cs => dropBytes (n + 1 - c.utf8Size) cs

/-- What remains of a text without its last `n` bytes. -/
def dropLastBytes (n : Nat) (text : List Char) : List Char :=
  (dropBytes n text.reverse).reverse

/-- Whether `needle` stands somewhere in `text`. -/
def contains (text needle : String) : Bool :=
  occurs needle.toList text.toList

/-- `text` with every occurrence of the non-empty `old` replaced by `new`. -/
def replace (text old new : String) : String :=
  String.ofList (replaceFrom old.toList new.toList 0 text.toList)

/-- `text` with the first occurrence of `old` replaced by `new`. -/
def replaceFirst (text old new : String) : String :=
  String.ofList (replaceFirstIn old.toList new.toList text.toList)

/-- Whether `text` starts with `head`. -/
def startsWith (text head : String) : Bool :=
  head.toList.isPrefixOf text.toList

/-- `text` without the blanks before it. -/
def trimStart (text : String) : String :=
  String.ofList (text.toList.dropWhile isBlank)

/-- `text` without the blanks around it. -/
def trim (text : String) : String :=
  String.ofList ((text.toList.dropWhile isBlank).reverse.dropWhile isBlank).reverse

end LuaCompiler.Text
