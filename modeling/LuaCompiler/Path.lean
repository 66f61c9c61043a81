import LuaCompiler.Text.Search

/-!
# Paths

A path is a text whose parts are separated by slashes; empty parts and single dots mean nothing. The
last part is a file's name, and what follows the last dot in it, unless the dot comes first, is the
name's extension.
-/

namespace LuaCompiler.Path

/-- The parts of a path, as they are written. -/
def segments (path : String) : List String :=
  (path.toList.splitOn '/').map String.ofList

/-- The parts of a path that mean something. -/
def parts (path : String) : List String :=
  (segments path).filter fun part => part != "" && part != "."

/-- The name of the file that a path leads to. -/
def fileName? (path : String) : Option String :=
  (parts path).getLast?.filter (· != "..")

/-- A name before and behind its last dot. A name without a dot, or with no more than one in front,
has nothing behind one. -/
def splitName (name : String) : String × Option String :=
  let after := (name.toList.reverse.takeWhile (· != '.')).reverse
  let before := name.toList.take (name.toList.length - after.length - 1)
  if !name.toList.contains '.' || before.isEmpty then (name, none)
  else (String.ofList before, some (String.ofList after))

/-- The name of the file that a path leads to, without its extension. -/
def stem (path : String) : String :=
  (fileName? path).elim "" fun name => (splitName name).1

/-- The extension of the file that a path leads to. -/
def extension? (path : String) : Option String :=
  (fileName? path).bind fun name => (splitName name).2

/-- The order of paths: part by part, each by its characters. -/
def le (a b : String) : Bool := !decide (parts b < parts a)

/-- The path of an entry of a directory. -/
def join (directory name : String) : String :=
  if directory.toList.getLast? == some '/' then directory ++ name else directory ++ "/" ++ name

end LuaCompiler.Path
