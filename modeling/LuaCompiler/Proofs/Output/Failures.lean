import LuaCompiler.Proofs.Emit.Traces
import LuaCompiler.Proofs.Output.WellFormed

/-!
# What lowering can fail at

A program that parses fails to be lowered only at its faults: a `return` in a block, a jump or a label
that is not the end of the innermost loop, a generic loop over other than one iterator, a member of a
class without a key. A program without them has no diagnostics, and none of the rules for calls, classes
and functions meets a node that it cannot take apart.

* `failures_sublist`: the failures of a lowering are faults of the program, in its order.
* `generate_lists_constructs`: the branches of the generator for other nodes are out of its reach.
* `diagnostics_are_faults`: **what a program is told of are its faults.**
-/

namespace LuaCompiler

open Emit (Context Role)

variable {source : String} {chunk : Chunk} (formatter : Formatter) (path : String)
  (registries : Registries) (options : Options)

/-- The failures of a lowering are faults of the program, in the order of its text. -/
theorem failures_sublist (parsed : Parsed) (chunk : Chunk) :
    List.Sublist (lower path options registries parsed chunk).progress.failures chunk.faults := by
  have hframe := Emit.framed_chunk (parsed.context path options) chunk (parsed.start registries)
  obtain ⟨new, hnew, hfailures⟩ := hframe.failures
  rw [lower_eq]
  dsimp only
  rw [hfailures]
  exact hnew

/-- **A program that parses is told of constructs only.** Five branches of the generator are for nodes
whose parts are not those of their kind: a call that calls nothing, a library function without its two
names, a class without a table, a function statement for other than a name or a member, a clause
without a condition. The tree of a text that parses has no such node, and none of them is listed. -/
theorem generate_lists_constructs (hparse : (parse source).result = .ok chunk) :
    Emit.Constructs (generate path options registries (parse source) chunk).progress.failures := by
  rw [generate_eq_lower (shaped_of_parse hparse).1]
  exact fun fault hfault => constructs_stmtFaults .top chunk.body fault
    ((failures_sublist path registries options (parse source) chunk).subset hfault)

/-- The diagnostics of a program are its failures, followed by what a formatter says. -/
theorem diagnostics_compile (hparse : (parse source).result = .ok chunk) :
    ∃ printed, (compile formatter source path registries options).1.diagnostics =
        (lower path options registries (parse source) chunk).progress.failures.map
          (unsupportedDiagnostic path) ++ printed ∧
      (∀ d ∈ printed, d.code = .format) ∧ (options.format = false → printed = []) := by
  rw [compile_of_ok formatter path registries options hparse]
  unfold Module.output reprint
  dsimp only
  cases options.format with
  | false => exact ⟨[], (List.append_nil _).symm, List.forall_mem_nil _, fun _ => rfl⟩
  | true =>
    rw [if_pos rfl]
    split
    · exact ⟨[], (List.append_nil _).symm, List.forall_mem_nil _, fun _ => rfl⟩
    next message _ =>
      refine ⟨[formatDiagnostic path message], rfl, ?_, fun h => nomatch h⟩
      exact List.forall_mem_singleton.2 rfl

/-- **What a program is told of are its faults.** Every diagnostic for a construct is that of a fault of
the program, without faults and formatter there is none, and an expression fails only at faults inside
it. The tree of a program has the shapes that the rules take apart: a call where a call is lowered, a
name or a member where a function is defined, and at each call what its rule asks for. -/
theorem diagnostics_are_faults (hparse : (parse source).result = .ok chunk) :
    (∀ d ∈ (compile formatter source path registries options).1.diagnostics, d.code = .generate →
      ∃ fault ∈ chunk.faults, d = unsupportedDiagnostic path fault) ∧
    (chunk.faults = [] → options.format = false →
      (compile formatter source path registries options).1.diagnostics = []) ∧
    (∀ (ctx : Context) (role : Role) (e : Expr) p, ∃ new, List.Sublist new (e.faults ctx.place false) ∧
      ((Emit.expression ctx role e).run p).2.failures = p.failures ++ new) ∧
    BlockShaped chunk.body ∧ ∀ ctx site, Emit.IsServed ctx site := by
  obtain ⟨printed, hdiagnostics, hprinted, hnone⟩ :=
    diagnostics_compile formatter path registries options hparse
  have hfailures := failures_sublist path registries options (parse source) chunk
  refine ⟨fun d hd hcode => ?_, fun hfaults hformat => ?_,
    fun ctx role e p => (Emit.framed_expression e ctx role p).failures, (shaped_of_parse hparse).1,
    Emit.isServed⟩
  · rw [hdiagnostics, List.mem_append] at hd
    rcases hd with hd | hd
    · obtain ⟨fault, hfault, rfl⟩ := List.mem_map.1 hd
      exact ⟨fault, hfailures.subset hfault, rfl⟩
    · -- what the formatter says has a code of its own
      rw [hprinted d hd] at hcode
      cases hcode
  · rw [hfaults, List.sublist_nil] at hfailures
    rw [hdiagnostics, hfailures, hnone hformat]
    rfl

/-- The five constructs, beside jumps to the end of a loop and a class whose members have keys. -/
def faultyText : String :=
  "while a do goto done ::done:: end do return end goto b ::c:: for d in e, f do end " ++
    "local G = class(\x7b1, h = 2\x7d) return function() return class(\x7bi = 3\x7d) end"

/-- Constructs like the five that have a counterpart. -/
def faultlessText : String :=
  "while a do goto done ::done:: end for b in c do end " ++
    "local D = class(\x7be = \x7b1\x7d\x7d) return function() return D end"

theorem diagnostics_faultyText : (∃ chunk, (parse faultyText).result = .ok chunk ∧
    chunk.faults.map Located.fault =
      [.returnOutsideFunction, .goto "b", .label, .iterators 2, .positionalMember] ∧
    ∀ d ∈ (compile .keep faultyText "Game/UI/faulty.lua" .empty {}).1.diagnostics,
      d.code = .generate → ∃ fault ∈ chunk.faults,
        d = unsupportedDiagnostic "Game/UI/faulty.lua" fault) ∧
    ∃ chunk, (parse faultlessText).result = .ok chunk ∧ chunk.faults = [] ∧
      (compile .keep faultlessText "Game/UI/faultless.lua" .empty {}).1.diagnostics = [] := by
  have hfaulty : (parse faultyText).result.toOption.map (fun chunk =>
      chunk.faults.map Located.fault) = some [.returnOutsideFunction, .goto "b", .label,
        .iterators 2, .positionalMember] := by
    unfold faultyText
    rw [← String.ofList_append, parse_ofList]
    decide +kernel
  have hfaultless : (parse faultlessText).result.toOption.map Chunk.faults = some [] := by
    unfold faultlessText
    rw [← String.ofList_append, parse_ofList]
    decide +kernel
  constructor
  · obtain ⟨chunk, hparse, hfaulty⟩ := Parsed.exists_of_map hfaulty
    exact ⟨chunk, hparse, hfaulty, (diagnostics_are_faults .keep _ .empty {} hparse).1⟩
  · obtain ⟨chunk, hparse, hfaultless⟩ := Parsed.exists_of_map hfaultless
    exact ⟨chunk, hparse, hfaultless,
      (diagnostics_are_faults .keep _ .empty {} hparse).2.1 hfaultless rfl⟩

end LuaCompiler
