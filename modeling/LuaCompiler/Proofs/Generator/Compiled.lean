import LuaCompiler.Compile
import LuaCompiler.Proofs.Generator.Agreement

/-!
# Programs are generated as they are lowered

The generator comes to a program at the outermost position, with nothing left behind but the registries of
the run and the comments of the text. There it agrees with the lowering, so of a text that parses the
module that is generated is the module that is lowered, and what is proved of the lowering is proved of
the output.

* `generate_eq_lower`: **a text that parses is generated as it is lowered.**
* `compile_of_ok`, `compile_of_error`: the two things that can come out for a text.
-/

namespace LuaCompiler

variable {source path : String} {options : Options} {registries : Registries} {parsed : Parsed}
  {chunk : Chunk}

/-- Without a receiver none is captured, and a generator has left behind just what it holds. -/
theorem Generator.traces_holding_of_none {g : Generator} {p : Emit.Progress} (hg : g.receiver = none)
    (hp : p.captured = false) : (g.holding p).traces = p := by
  rw [traces_holding, hg, Option.isSome_none, Bool.false_and, ← hp]

/-- **A program of the grammar is generated as it is lowered.** -/
theorem generate_eq_lower (h : BlockShaped chunk.body) :
    generate path options registries parsed chunk = lower path options registries parsed chunk := by
  have hcontext : (parsed.generator path options registries).context (parsed.file path options) =
      parsed.context path options := by
    simp only [Parsed.context, Generator.context, Parsed.file, Parsed.generator, Option.map_none,
      List.flatten_nil, List.head?_nil, Option.join_none]
  have hstart : parsed.generator path options registries =
      (parsed.generator path options registries).holding (parsed.start registries) := rfl
  have hframe := Emit.framed_chunk (parsed.context path options) chunk (parsed.start registries)
  have hcaptured : ((Emit.chunk (parsed.context path options) chunk).run
      (parsed.start registries)).2.captured = false :=
    hframe.captured.resolve_right fun hreceived => nomatch hreceived.1
  unfold generate
  rw [hstart, Generator.does_chunk h rfl (parsed.start registries) hcontext rfl]
  dsimp only
  rw [Generator.traces_holding_of_none rfl hcaptured]
  rfl

/-- **What compiling a text that parses gives** is what the lowering of its tree gives. -/
theorem compile_of_ok (formatter : Formatter) (path : String) (registries : Registries)
    (options : Options) (hparse : (parse source).result = .ok chunk) :
    compile formatter source path registries options =
      (lower path options registries (parse source) chunk).output formatter path options := by
  rw [compile, compileParsed, hparse, ← generate_eq_lower (shaped_of_parse hparse).1]

/-- A text that does not parse gives its fault and leaves the registries alone. -/
theorem compile_of_error {fault : Located SyntaxFault} (formatter : Formatter)
    (path : String) (registries : Registries) (options : Options)
    (hparse : (parse source).result = .error fault) :
    compile formatter source path registries options =
      (.failed (syntaxDiagnostic path fault) (options.operatorMode.isEnabledFor path), registries) := by
  rw [compile, compileParsed, hparse]

end LuaCompiler
