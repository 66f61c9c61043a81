import LuaCompiler.Text.Search

/-!
# Diagnostics

What the compiler says about a file that it could not compile cleanly: a code, a message and a
place. A file with diagnostics has them listed in a comment in front of its code, `errorBlock`.
-/

namespace LuaCompiler

/-- The kinds of diagnostic. -/
inductive DiagnosticCode where
  /-- the text is not Lua -/
  | parse
  /-- a construct has no counterpart -/
  | generate
  /-- the generated code could not be printed afresh -/
  | format
  /-- the file could not be read -/
  | io
  /-- a code of someone else -/
  | other (text : String)
deriving DecidableEq

namespace DiagnosticCode

/-- The code as it is written. -/
def text : DiagnosticCode → String
  | parse => "L2J-PARSE-001"
  | generate => "L2J-GEN-001"
  | format => "L2J-FORMAT-001"
  | io => "L2J-IO-001"
  | other text => text

/-- The code that is written so. -/
def ofText (text : String) : DiagnosticCode :=
  ([parse, generate, format, io].find? fun code => code.text == text).getD (other text)

/-- What the compiler promises in the matter that a code is about. -/
def guarantee : DiagnosticCode → String
  | parse => "Only syntactically valid Lua 5.3 is translated."
  | generate =>
    "Unsupported constructs are contained to their node; the rest of the file is still translated."
  | format => "Formatted output is produced only from parseable JavaScript."
  | io => "Every discovered source file is either translated or reported."
  | other _ => "Unknown diagnostic."

/-- The class of a code. -/
def errorType : DiagnosticCode → String
  | generate => "UNSUPPORTED_CONSTRUCT"
  | io => "IO_ERROR"
  | _ => "SYNTAX_ERROR"

end DiagnosticCode

/-- One problem found in one file. -/
structure Diagnostic where
  code : DiagnosticCode
  message : String
  file : String
  line : Nat
  column : Nat
  context : Option String := none
  hints : List String := []
deriving DecidableEq

namespace Diagnostic

/-- The diagnostic on one line: code, place, message. -/
def display (d : Diagnostic) : String :=
  d.code.text ++ " " ++ d.file ++ ":" ++ toString d.line ++ ":" ++ toString d.column ++ " " ++
    d.message

end Diagnostic

/-- `code` behind one comment that lists `errors`, a line each; the errors cannot close the
comment. -/
def errorBlock (errors : List String) (code : String) : String :=
  "/*\n" ++ Text.replace ("\n".intercalate errors) "*/" "* /" ++ "\n*/\n" ++ code

end LuaCompiler
