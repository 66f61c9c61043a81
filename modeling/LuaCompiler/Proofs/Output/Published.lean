import LuaCompiler.Proofs.Output.Declarations
import LuaCompiler.Proofs.Scope.Binders

/-!
# Function statements

A function statement assigns to a name. The code defines a function of that name and publishes it in
the table of globals. This is the assignment if the name is a global: whatever else refers to the
global is written alike. If the name is that of a local, the function is a second definition under
the name of the local's own binding, beside it or hiding it, and a global comes to be that was not
there.

* `Emit.functionStatement_run`: the text of a function statement.
* `resolve_of_isFree`: a global keeps its name.
* `publishes_functionStatement`: **what a function statement defines**.
-/

namespace LuaCompiler

open Scope

namespace Emit

/-- **The text of a function statement**: a definition, and its publication. -/
theorem functionStatement_run (ctx : Context) (id : NodeId) (span : Span) (name : Identifier)
    (f : FunctionBody) (p : Progress) :
    (statement ctx id span (.function (.name name) f)).run p =
      (let text := (function ctx (.plain f) f).run p
       ("function " ++ ctx.declaredName name ++ parens text.1.parameters ++ braced text.1.body ++
          "\n_G." ++ ctx.declaredName name ++ " = " ++ ctx.declaredName name ++ ";\n", text.2)) := by
  rw [statement]
  rfl

end Emit

/-- A node without a generated name keeps its own. -/
theorem Scope.Annotations.resolve_of_none {a : Annotations} {id : NodeId}
    (h : a.renamed[id]? = none) (name : String) : a.resolve id name = name := by
  rw [resolve, Std.TreeMap.getD_eq_getD_getElem?, h]
  rfl

/-- Where a name is declared, the environment holds an identifier of that name. -/
theorem Scope.Environment.find?_eq_none {env : Environment} (hkeyed : env.Keyed) {name : String}
    (h : ¬ env.Declares name) : env.find? name = none := by
  rw [find?, List.find?_eq_none]
  intro d hd hname
  obtain ⟨⟨key, binder⟩, hentry, hbinder⟩ := List.mem_filterMap.1 hd
  cases binder with
  | receiver => cases hbinder
  | declared e =>
    have hkey : key = e.name := hkeyed _ hentry
    have hed : e = d := Option.some.inj hbinder
    subst hed
    have hsame : e.name = name := by simpa using hname
    rw [hkey, hsame] at hentry
    exact h ⟨e, hentry⟩

/-- **A global keeps its name.** -/
theorem Scope.Annotations.Fit.resolve_of_isFree {a : Annotations} {o : Occurrence} (h : a.Fit o)
    (hfree : o.isFree = true) : a.resolve o.id o.name = o.name := by
  have hnone := Environment.find?_eq_none h.keyed (Occurrence.not_declares_of_isFree hfree)
  refine Annotations.resolve_of_none ?_ o.name
  rw [h.resolves.renamed, hnone]
  rfl

variable {source : String} {chunk : Chunk}

/-- **What a function statement defines.** Let `name` be the name of a function statement of a
program, and `o` the occurrence that it is. Whatever the context, the statement becomes a function
of the spelling of `name` and an assignment of it to the global table; the spelling can be bound, but
for three names. A global is spelled like all other mentions of the global in the program. A local is
spelled like the identifier that declares it. -/
theorem publishes_functionStatement (hparse : (parse source).result = .ok chunk)
    {ctx : Emit.Context} (hctx : ctx.annotations = (parse source).annotations) {o : Occurrence}
    (ho : o ∈ chunk.occurrences) {name : Identifier} (hid : name.id = o.id)
    (hname : name.name = o.name) (id : NodeId) (span : Span) (f : FunctionBody) :
    ∃ spelling,
      (∀ p, (Emit.statement ctx id span (.function (.name name) f)).run p =
        (let text := (Emit.function ctx (.plain f) f).run p
         ("function " ++ spelling ++ Emit.parens text.1.parameters ++ Emit.braced text.1.body ++
            "\n_G." ++ spelling ++ " = " ++ spelling ++ ";\n", text.2))) ∧
      Script.isBindable spelling =
        !unbindableNames.contains ((parse source).annotations.resolve o.id o.name) ∧
      (o.isFree = true → ∀ mention ∈ chunk.occurrences, mention.name = o.name →
        mention.isFree = true →
          spelling = Name.asBinding ((parse source).annotations.resolve mention.id mention.name) ∧
          (parse source).annotations.resolve mention.id mention.name = name.name) ∧
      ∀ d, o.binder? = some (.declared d) → spelling = (parse source).annotations.spelling d := by
  have hfit := fit_of_parse hparse ho
  have hspelling : ctx.declaredName name =
      Name.asBinding ((parse source).annotations.resolve o.id o.name) := by
    rw [Emit.Context.declaredName, Annotations.nameOf, hctx, hid, hname]
  -- an occurrence is noted where a name is read, and only valid names are
  have hvalid : Name.isValid o.name = true := by
    have hmem := Skeleton.reference_mem_events ho
    rw [← (parse_noted source).events chunk hparse] at hmem
    exact (shaped_of_parse hparse).2 _ hmem
  refine ⟨_, fun p => hspelling ▸ Emit.functionStatement_run ctx id span name f p,
    isBindable_asBinding (isValid_resolve (shaped_of_parse hparse).2 o.id hvalid), ?_, ?_⟩
  · intro hfree mention hmention hsame hfree'
    have hmentioned := (fit_of_parse hparse hmention).resolve_of_isFree hfree'
    rw [hfit.resolve_of_isFree hfree, hmentioned, hsame, hname]
    exact ⟨rfl, rfl⟩
  · intro d hd
    rw [hfit.resolve_eq hd, Annotations.spelling]

/-- A local that is declared first and defined by a function statement, as mutual recursion needs. -/
def forwardText : String := "local f function f() end function g() f() end"

theorem publishes_forwardText : ∃ chunk, (parse forwardText).result = .ok chunk ∧
    ∃ o ∈ chunk.occurrences, o.id = 2 ∧ o.name = "f" ∧ o.isFree = false ∧
      ∀ (span : Span) (f : FunctionBody), ∃ spelling, ∀ p,
        ((Emit.statement ((parse forwardText).context "Game/UI/test.lua" {}) 4 span
          (.function (.name ⟨2, "f", span⟩) f)).run p).1 =
        (let text := ((Emit.function ((parse forwardText).context "Game/UI/test.lua" {}) (.plain f)
            f).run p).1
         "function " ++ spelling ++ Emit.parens text.parameters ++ Emit.braced text.body ++
           "\n_G." ++ spelling ++ " = " ++ spelling ++ ";\n") := by
  have hoccurs : (parse forwardText).result.toOption.any (fun chunk => chunk.occurrences.any fun o =>
      o.id == 2 && o.name == "f" && !o.isFree) = true := by
    rw [forwardText, parse_ofList]
    decide +kernel
  obtain ⟨chunk, hparse, hoccurs⟩ := Parsed.exists_of_any hoccurs
  simp only [List.any_eq_true, Bool.and_eq_true, beq_iff_eq, Bool.not_eq_true'] at hoccurs
  obtain ⟨o, ho, ⟨hid, hname⟩, hfree⟩ := hoccurs
  refine ⟨chunk, hparse, o, ho, hid, hname, hfree, fun span f => ?_⟩
  have hnamed : (⟨2, "f", span⟩ : Identifier).id = o.id := hid.symm
  obtain ⟨spelling, hrun, -⟩ := publishes_functionStatement hparse
    (Parsed.context_annotations _ "Game/UI/test.lua" {}) ho hnamed hname.symm 4 span f
  exact ⟨spelling, fun p => congrArg Prod.fst (hrun p)⟩

/-- **A local that a function statement assigns to is declared twice**, and published. -/
example :
    (compile .keep forwardText "Game/UI/test.lua" .empty {}).1.code =
      "let f;\nfunction f()\x7b\x7d\n_G.f = f;\n;\nfunction g()\x7bf()\x7d\n_G.g = g;\n" := by
  rw [compile, forwardText, parse_ofList]
  decide +kernel

end LuaCompiler
