import LuaCompiler.Batch
import LuaCompiler.Proofs.Registries.Noninterference

/-!
# Files that fail are isolated

The files of a batch hand on nothing but the registries, and a file that cannot be read or that holds
no program hands them on as they came. So such a file can be left out, and nothing else changes.

* `keepAt`: what is left of a list when some positions are taken out.
* `Batch.holdsProgram`: whether a file can be read and parsed, and `registries_compileFile` for one
  that cannot.
* `Batch.compileFiles_keepAt`: the run, by induction on the files.
* `Batch.compile_isolates_failures`: **failing files make no difference to the others**.
-/

namespace LuaCompiler

/-- The elements of a list at the positions that are kept, in order. -/
def keepAt {α : Type} (kept : Nat → Bool) : List α → List α
  | [] => []
  | x :: xs =>
    if kept 0 then x :: keepAt (fun i => kept (i + 1)) xs else keepAt (fun i => kept (i + 1)) xs

variable {α β : Type}

theorem keepAt_map (f : α → β) (kept : Nat → Bool) (xs : List α) :
    keepAt kept (xs.map f) = (keepAt kept xs).map f := by
  induction xs generalizing kept with
  | nil => rfl
  | cons x xs ih =>
    simp only [List.map_cons, keepAt, ih]
    split <;> rfl

namespace Batch

/-- Whether a file can be read and holds a program. -/
def holdsProgram (reader : Reader) (path : String) : Bool :=
  match reader path with
  | .ok source => (parse source).result.isOk
  | .error _ => false

variable {reader : Reader} {path : String} {paths : List String} {options : Options}

/-- **A file that fails hands the registries on.** -/
theorem registries_compileFile (h : holdsProgram reader path = false) (r : Registries) :
    (compileFile reader options r path).2 = r := by
  unfold compileFile
  unfold holdsProgram at h
  cases hread : reader path with
  | error error => rfl
  | ok source =>
    rw [hread] at h
    cases hparse : (parse source).result with
    | ok chunk => simp [hparse, Except.isOk, Except.toBool] at h
    | error fault => exact congrArg Prod.snd (compile_of_error .keep path r _ hparse)

theorem compileFiles_cons (r : Registries) (path : String) (paths : List String) :
    compileFiles reader options r (path :: paths) =
      (⟨path, (compileFile reader options r path).1⟩ ::
        (compileFiles reader options (compileFile reader options r path).2 paths).1,
      (compileFiles reader options (compileFile reader options r path).2 paths).2) := rfl

theorem paths_compileFiles (r : Registries) (paths : List String) :
    (compileFiles reader options r paths).1.map FileOutput.path = paths := by
  induction paths generalizing r with
  | nil => rfl
  | cons path paths ih => rw [compileFiles_cons, List.map_cons, ih]

/-- **A run without some of its failing files** gives the other outputs and the same registries. -/
theorem compileFiles_keepAt (kept : Nat → Bool) (r : Registries)
    (hfails : ∀ i (h : i < paths.length), kept i = false → holdsProgram reader paths[i] = false) :
    compileFiles reader options r (keepAt kept paths) =
      (keepAt kept (compileFiles reader options r paths).1,
        (compileFiles reader options r paths).2) := by
  induction paths generalizing kept r with
  | nil => rfl
  | cons path paths ih =>
    have hrest : ∀ i (h : i < paths.length), kept (i + 1) = false →
        holdsProgram reader paths[i] = false :=
      fun i h => hfails (i + 1) (Nat.succ_lt_succ h)
    rw [compileFiles_cons, keepAt, keepAt]
    cases hkept : kept 0 with
    | true =>
      rw [if_pos rfl, if_pos rfl, compileFiles_cons, ih _ _ hrest]
    | false =>
      -- the file left out is one that fails, so the rest starts from the same registries
      have hsame : (compileFile reader options r path).2 = r :=
        registries_compileFile (hfails 0 (Nat.succ_pos _) hkept) r
      rw [if_neg Bool.false_ne_true, if_neg Bool.false_ne_true, hsame]
      exact ih _ r hrest

theorem paths_map_formatOutput (formatter : Formatter) (files : List FileOutput) :
    (files.map (formatOutput formatter)).map FileOutput.path = files.map FileOutput.path := by
  rw [List.map_map]
  refine List.map_congr_left fun file _ => ?_
  simp only [Function.comp_apply, formatOutput]
  split <;> rfl

/-- **Failing files make no difference to the others.** A batch gives one output for each file, in
order. If some files that cannot be read or hold no program are taken out of it, wherever they stand,
the outputs of the files that are left and the registries behind them stay the same. -/
theorem compile_isolates_failures (formatter : Formatter) (reader : Reader) (paths : List String)
    (r : Registries) (options : Options) :
    (compile formatter reader paths r options).1.map FileOutput.path = paths ∧
    ∀ kept : Nat → Bool,
      (∀ i (h : i < paths.length), kept i = false → holdsProgram reader paths[i] = false) →
      compile formatter reader (keepAt kept paths) r options =
        (keepAt kept (compile formatter reader paths r options).1,
          (compile formatter reader paths r options).2) := by
  unfold compile
  dsimp only
  refine ⟨?_, fun kept hfails => ?_⟩
  · split
    · rw [paths_map_formatOutput, paths_compileFiles]
    · exact paths_compileFiles r paths
  · rw [compileFiles_keepAt kept r hfails]
    dsimp only
    split
    · -- formatting goes file by file, so it does not matter which of them are left out
      rw [keepAt_map]
    · rfl

/-- A file that makes a class, one that breaks off, one that is not there, and one that uses the
class. -/
def mixedReader : Reader
  | "Game/node.lua" => .ok "Node = \x7b\x7d"
  | "Game/broken.lua" => .ok "Node = "
  | "Game/use.lua" => .ok "Node = \x7b\x7d print(Node, string.len(s))"
  | _ => .error .notFound

def mixedPaths : List String :=
  ["Game/broken.lua", "Game/node.lua", "Game/absent.lua", "Game/broken.lua", "Game/use.lua"]

/-- Without the absent file and the second broken one. -/
def mixedKept (i : Nat) : Bool := i != 2 && i != 3

theorem isolates_mixedPaths :
    (∀ i (h : i < mixedPaths.length),
      mixedKept i = false → holdsProgram mixedReader mixedPaths[i] = false) ∧
    keepAt mixedKept mixedPaths = ["Game/broken.lua", "Game/node.lua", "Game/use.lua"] ∧
    compile .keep mixedReader (keepAt mixedKept mixedPaths) .empty {} =
      (keepAt mixedKept (compile .keep mixedReader mixedPaths .empty {}).1,
        (compile .keep mixedReader mixedPaths .empty {}).2) ∧
    (compile .keep mixedReader mixedPaths .empty {}).2.initializedGlobals.names = ["Node"] := by
  have hfails : ∀ i (h : i < mixedPaths.length),
      mixedKept i = false → holdsProgram mixedReader mixedPaths[i] = false := by decide +kernel
  exact ⟨hfails, by decide +kernel,
    (compile_isolates_failures .keep mixedReader mixedPaths .empty {}).2 mixedKept hfails,
    by decide +kernel⟩

end Batch

end LuaCompiler
