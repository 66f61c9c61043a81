import LuaCompiler.Emit.Walk
import LuaCompiler.Generator.Walk
import LuaCompiler.Parser
import LuaCompiler.Path

/-!
# Compiling a file

`compile` makes one JavaScript module of one Lua file. It never fails: what is wrong with the file
comes back as diagnostics, listed in a comment in front of the code. The registries of the run go in
and come out. `compileParsed` is what it does with a text that is parsed already: `generate` walks over
the tree of the program and gives the module. `lower` gives the same module, of a text that parses, by
a walk that hands the position of a node down and has none to put back.
-/

namespace LuaCompiler

/-- What compiling a file gives. -/
structure Output where
  code : String
  diagnostics : List Diagnostic
  /-- the classes made by the support module, in the order of their declaration -/
  declaredClasses : List String
  operatorMode : Bool

namespace Output

/-- Whether nothing was wrong. -/
def isClean (output : Output) : Bool := output.diagnostics.isEmpty

/-- The output for a file that has nothing but a diagnostic. -/
def failed (diagnostic : Diagnostic) (operatorMode : Bool) : Output where
  code := errorBlock [diagnostic.display] ""
  diagnostics := [diagnostic]
  declaredClasses := []
  operatorMode

end Output

/-- Something that prints JavaScript afresh, or says why it cannot. -/
abbrev Formatter := String → Except String String

/-- The formatter that keeps the code. -/
def Formatter.keep : Formatter := .ok

/-- The diagnostic for code that a formatter refuses. -/
def formatDiagnostic (file message : String) : Diagnostic where
  code := .format
  message
  file
  line := 0
  column := 0
  hints := ["The unformatted output is kept below the error block."]

/-- The diagnostic for a construct that could not be lowered. -/
def unsupportedDiagnostic (file : String) (failure : Located Emit.Unsupported) : Diagnostic where
  code := .generate
  message := failure.fault.message
  file
  line := failure.position.line
  column := failure.position.column

/-- The name of a file without directories and extension; a backslash in its path counts as a slash.
-/
def moduleName (path : String) : String :=
  Path.stem (Text.replace path "\\" "/")

/-- A module before formatting. -/
structure Module where
  code : String
  progress : Emit.Progress

namespace Parsed

/-- The registries of a run that knows the globals of a program. -/
def registries (parsed : Parsed) (registries : Registries) : Registries :=
  (parsed.globals.filter (!Name.isRuntime ·)).foldl Registries.recordGlobalRead registries

/-- What is fixed for the file of a program. -/
def file (parsed : Parsed) (path : String) (options : Options) : Generator.File where
  options
  annotations := (Scope.analyse parsed.events).annotations
  name := moduleName path

/-- The generator that comes to a program. -/
def generator (parsed : Parsed) (path : String) (options : Options) (registries : Registries) :
    Generator where
  comments := .ofComments parsed.comments
  registries := parsed.registries registries
  operatorMode := options.operatorMode.isEnabledFor path

/-- The context of a program. -/
def context (parsed : Parsed) (path : String) (options : Options) : Emit.Context where
  options
  annotations := (Scope.analyse parsed.events).annotations
  fileName := moduleName path
  operatorMode := options.operatorMode.isEnabledFor path

/-- The progress from which a program is lowered. -/
def start (parsed : Parsed) (registries : Registries) : Emit.Progress where
  comments := .ofComments parsed.comments
  registries := parsed.registries registries

end Parsed

/-- Generates a program. -/
def generate (path : String) (options : Options) (registries : Registries) (parsed : Parsed)
    (chunk : Chunk) : Module :=
  let (code, after) := (Generator.chunk (parsed.file path options) (rawBlock chunk.body)).run
    (parsed.generator path options registries)
  ⟨code, after.traces⟩

/-- Lowers a program. -/
def lower (path : String) (options : Options) (registries : Registries) (parsed : Parsed)
    (chunk : Chunk) : Module :=
  let (code, progress) := (Emit.chunk (parsed.context path options) chunk).run
    (parsed.start registries)
  ⟨code, progress⟩

/-- The code of a module, printed afresh if asked for, and the diagnostics with the formatter's own.
-/
def reprint (formatter : Formatter) (wanted : Bool) (path code : String)
    (diagnostics : List Diagnostic) : String × List Diagnostic :=
  if wanted then
    match formatter code with
    | .ok formatted => (formatted, diagnostics)
    | .error message => (code, diagnostics ++ [formatDiagnostic path message])
  else (code, diagnostics)

/-- The code behind the list of what was wrong, if something was. -/
def withErrors (diagnostics : List Diagnostic) (code : String) : String :=
  if diagnostics.isEmpty then code else errorBlock (diagnostics.map Diagnostic.display) code

/-- What comes out for a file with its module: the code printed afresh if asked for, behind the list of
what was wrong. -/
def Module.output (module : Module) (formatter : Formatter) (path : String) (options : Options) :
    Output × Registries :=
  let failures := module.progress.failures.map (unsupportedDiagnostic path)
  let (code, diagnostics) := reprint formatter options.format path module.code failures
  ({ code := withErrors diagnostics code
     diagnostics
     declaredClasses := module.progress.classes
     operatorMode := options.operatorMode.isEnabledFor path },
    module.progress.registries)

/-- Compiles a parsed text. -/
def compileParsed (formatter : Formatter) (parsed : Parsed) (path : String) (registries : Registries)
    (options : Options) : Output × Registries :=
  match parsed.result with
  | .error fault =>
    (.failed (syntaxDiagnostic path fault) (options.operatorMode.isEnabledFor path), registries)
  | .ok chunk => (generate path options registries parsed chunk).output formatter path options

/-- Compiles one file. -/
def compile (formatter : Formatter) (source path : String) (registries : Registries)
    (options : Options) : Output × Registries :=
  compileParsed formatter (parse source) path registries options

end LuaCompiler
