import LuaCompiler.Compile
import LuaCompiler.FileTree

/-!
# Batches

`Batch.compile` compiles files one after the other. Only the registries go from one file to the
next, so formatting, which they have no part in, waits until all files are compiled. A file that
cannot be read gets a diagnostic for an output.
-/

namespace LuaCompiler.Batch

/-- A file and what compiling it gave. -/
structure FileOutput where
  path : String
  output : Output

/-- What gives the text of a file. -/
abbrev Reader := String → Except ReadError String

/-- The diagnostic for a file that cannot be read. -/
def readDiagnostic (file : String) (error : ReadError) : Diagnostic where
  code := .io
  message := "Failed to read file: " ++ error.message
  file
  line := 0
  column := 0

/-- Reads and compiles one file, without formatting it. -/
def compileFile (reader : Reader) (options : Options) (registries : Registries) (path : String) :
    Output × Registries :=
  match reader path with
  | .ok source => LuaCompiler.compile .keep source path registries { options with format := false }
  | .error error =>
    (.failed (readDiagnostic path error) (options.operatorMode.isEnabledFor path), registries)

/-- Reads and compiles files in order, without formatting them. -/
def compileFiles (reader : Reader) (options : Options) (registries : Registries) :
    List String → List FileOutput × Registries
  | [] => ([], registries)
  | path :: paths =>
    let (output, registries) := compileFile reader options registries path
    let (outputs, registries) := compileFiles reader options registries paths
    (⟨path, output⟩ :: outputs, registries)

/-- Formats an output with nothing wrong; any other stays as it is. -/
def formatOutput (formatter : Formatter) (file : FileOutput) : FileOutput :=
  if file.output.isClean then
    let (code, diagnostics) := reprint formatter true file.path file.output.code []
    { file with output := { file.output with code := withErrors diagnostics code, diagnostics } }
  else file

/-- Compiles files in order, and formats them if asked for. -/
def compile (formatter : Formatter) (reader : Reader) (paths : List String)
    (registries : Registries) (options : Options) : List FileOutput × Registries :=
  let (outputs, registries) := compileFiles reader options registries paths
  (if options.format then outputs.map (formatOutput formatter) else outputs, registries)

/-- Compiles the Lua files that a path leads to, in the order of paths. -/
def compileTree (formatter : Formatter) (tree : FileTree) (path : String) (registries : Registries)
    (options : Options) : List FileOutput × Registries :=
  compile formatter tree.read (tree.luaFiles path) registries options

end LuaCompiler.Batch
