/-!
# Names

A Lua name can be a word that JavaScript reserves. `Name.asBinding` spells it where it binds or
refers, `Name.asProperty` after a dot, where reserved words are legal. The tables of library and
runtime names stand here too.
-/

namespace LuaCompiler.Name

/-- The name that a declaration throws its value away with. -/
def placeholder : String := "_"

/-- Library tables whose members live in the support module under the same name. -/
def systemLibraries : List String :=
  ["table", "io", "string", "package", "math", "debug", "os", "utf8", "json", "rapidjson"]

/-- Names that the Lua runtime itself provides; a program that reads one reads no global of its
own. -/
def runtimeNames : List String :=
  systemLibraries ++
    ["_G", "setmetatable", "rawget", "rawset", "rawlen", "type", "assert", "__VERSION", "dofile",
      "error", "getmetatable", "tonumber", "tostring", "xpcall", "pcall", "pairs", "ipairs",
      "print", "next", "select", "require"]

/-- Whether a name is that of a library table. -/
def isSystemLibrary (name : String) : Bool := systemLibraries.contains name

/-- Whether the Lua runtime provides a name. -/
def isRuntime (name : String) : Bool := runtimeNames.contains name

/-- Names with a spelling of their own, everywhere. -/
def fixedSpellings : List (String × String) :=
  [("constructor", "_constructor"), ("extends", "_extends"), ("class", "_class"),
    ("default", "_js_default"), ("debugger", "_debugger"), ("var", "varInfo"), ("super", "Super"),
    ("new", "New"), ("import", "Import"), ("package", "Package")]

/-- Words that JavaScript reserves, that are Lua names, and that have no spelling of their own. -/
def reservedWords : List String :=
  ["case", "catch", "const", "continue", "delete", "enum", "export", "finally", "instanceof",
    "null", "switch", "this", "throw", "try", "void", "with", "yield", "let", "static",
    "implements", "interface", "private", "protected", "public", "await"]

/-- Spelling of a name that binds or refers. -/
def asBinding (name : String) : String :=
  if name = "typeof" then "l2j.typeof"
  else match fixedSpellings.lookup name with
    | some spelling => spelling
    | none => if reservedWords.contains name then "_" ++ name else name

/-- Spelling of a name after a dot. -/
def asProperty (name : String) : String :=
  (fixedSpellings.lookup name).getD name

end LuaCompiler.Name
