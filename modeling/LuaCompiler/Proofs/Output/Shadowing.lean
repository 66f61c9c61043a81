import LuaCompiler.Proofs.Emit.Spelling
import LuaCompiler.Proofs.Emit.Visible
import LuaCompiler.Proofs.Output.Sealing
import LuaCompiler.Proofs.Scope.Binders

/-!
# Parameters that hide libraries

A parameter with the name of a library hides the library in its function, also where a `local` of
that name hides the parameter in turn. A use of the name is then lowered as one of any local: the
name is the one that the code binds, nothing of the support module is written, and no library
function is registered. Three library functions are told by their names alone, whatever the names are
bound to.

* `CallSite.ignoresScope`, `Expr.ignoresScope`: the calls that are told by names alone.
* `Expr.usedBase?`: what is used by a member, a call, or a call of a member.
* `boundUse`: the lowering of a use of a bound name, and `expressionKind_use`: **a use of a hidden
  library is lowered so**.
* `hiddenLibrary_uses`: the uses of hidden libraries in a program.
-/

namespace LuaCompiler

open Scope (Annotations Occurrence receiverName)
open Scope.Analysis (freshName)

/-! ## Uses -/

/-- Whether a call is taken for one of a library function whatever its names are bound to:
`string.format` with a literal format and values, `table.insert` with two or three arguments, and
`table.concat` with any. -/
def CallSite.ignoresScope (site : CallSite) : Bool :=
  let count := site.arguments.length
  site.callsLibrary "string" "format" && 1 < count && site.arguments.head?.any Expr.isString ||
    site.callsLibrary "table" "insert" && (count == 3 || count == 2) ||
    site.callsLibrary "table" "concat" && 1 ≤ count

namespace Expr

/-- Whether an expression is a call that is told by names alone: one of certain library functions,
or of the constructor of a host value. -/
def ignoresScope (valueTypes : List String) (e : Expr) : Bool :=
  match e.kind with
  | .call base _ arguments =>
    CallSite.ignoresScope ⟨base, arguments⟩ || base.name?.any valueTypes.contains
  | _ => false

/-- What is used: the owner of a member, what is called, or the owner of the member that is called.
-/
def usedBase? (e : Expr) : Option Expr :=
  match e.kind with
  | .member base _ _ => some base
  | .call base _ _ =>
    match base.kind with
    | .member owner _ _ => some owner
    | _ => some base
  | _ => none

/-- The arguments of a call. -/
def arguments (e : Expr) : List Expr :=
  match e.kind with
  | .call _ _ arguments => arguments
  | _ => []

end Expr

namespace Emit

/-- A member of a name that the code binds, or the name itself. -/
def boundCallee (binding : String) (kind : ExprKind) : Emit String :=
  match kind with
  | .member base _ identifier => do
    return memberText (← around base.span (pure binding)) identifier
  | _ => pure binding

/-- **A use of a name that the code binds**: nothing of the support module is written. -/
def boundUse (ctx : Context) (binding : String) (kind : ExprKind) : Emit String :=
  match kind with
  | .call base _ arguments => do
    let callee ← around base.span (boundCallee binding base.kind)
    let texts ← expressions ctx .spread arguments
    return callText (if needsExplicitCall ctx callee then callee ++ ".call" else callee) texts
  | kind => boundCallee binding kind

/-! ## Names -/

section Names

variable {ctx : Context} {library name : String}

/-- The names that a binding of a library's name can have. -/
def IsNameFor (library name : String) : Prop := name = library ∨ ∃ k, name = freshName library k

theorem library_spellings : ∀ library ∈ Name.systemLibraries, library ∉ receiverNames ∧
    library ≠ Name.placeholder ∧ '.' ∉ library.toList ∧ '.' ∉ (Name.asBinding library).toList ∧
      (Name.asBinding library).toList.all Text.isBlank = false := by
  decide +kernel

theorem underscore_free : (∀ name ∈ receiverNames, '_' ∉ name.toList) ∧
    ∀ name ∈ Name.systemLibraries, '_' ∉ name.toList := by
  decide +kernel

/-- The spelling of a name for a library is no member of the support module, and not blank. -/
theorem IsNameFor.spelling (h : IsNameFor library name)
    (hlibrary : library ∈ Name.systemLibraries) :
    '.' ∉ (Name.asBinding name).toList ∧
      ∃ c ∈ (Name.asBinding name).toList, Text.isBlank c = false := by
  obtain ⟨-, hplaceholder, hdot, hspelled⟩ := library_spellings library hlibrary
  rcases h with rfl | ⟨k, rfl⟩
  · exact ⟨hspelled.1, by simpa using hspelled.2⟩
  · rw [asBinding_freshName]
    refine ⟨?_, '_', underscore_mem_freshName library k, by decide +kernel⟩
    have hdigits : '.' ∉ (toString k).toList := by
      intro hmem
      rw [Nat.toString_eq_ofList_toDigits, String.toList_ofList] at hmem
      exact absurd (Nat.isDigit_of_mem_toDigits (by decide) (by decide) hmem) (by decide)
    rw [freshName, if_neg hplaceholder, String.toList_append, String.toList_append]
    simp only [List.mem_append, not_or]
    exact ⟨⟨hdot, by decide⟩, hdigits⟩

/-- **A name for a hidden library is written as it is bound.** -/
theorem reference_hidden (hreceiver : ∀ receiver ∈ ctx.receiver, receiver.name ∈ receiverNames)
    (hlibrary : library ∈ Name.systemLibraries) (hparameter : library ∈ ctx.parameters)
    (hname : IsNameFor library name) : reference ctx name = pure (Name.asBinding name) := by
  have hnone : ctx.receiver.filter (·.name == name) = none := by
    refine Option.filter_eq_none_iff.2 fun receiver h hsame => ?_
    have hmem := hreceiver receiver h
    rw [beq_iff_eq.1 hsame] at hmem
    rcases hname with rfl | ⟨k, rfl⟩
    · exact (library_spellings _ hlibrary).1 hmem
    · exact underscore_free.1 _ hmem (underscore_mem_freshName library k)
  have hlibrary' : ctx.isLibrary name = false := by
    rcases hname with rfl | ⟨k, rfl⟩
    · simp [Context.isLibrary, Context.isParameter, hparameter]
    · have hnot : freshName library k ∉ Name.systemLibraries := fun hmem =>
        underscore_free.2 _ hmem (underscore_mem_freshName library k)
      simp [Context.isLibrary, Name.isSystemLibrary, hnot]
  rw [reference, hnone, hlibrary']
  rfl

end Names

/-! ## Calls -/

section Calls

variable {ctx : Context} {library : String} {id : NodeId} {site : CallSite}

/-- A name at a node, or a member of that name. -/
inductive NameOrMember (name : String) (id : NodeId) : Expr → Prop
  | name (span : Span) : NameOrMember name id ⟨id, span, .name name⟩
  | member (ownId : NodeId) (ownSpan span : Span) (indexer : Indexer) (identifier : Identifier) :
    NameOrMember name id ⟨ownId, ownSpan, .member ⟨id, span, .name name⟩ indexer identifier⟩

theorem calls_eq_false (h : NameOrMember library id site.base) {name : String}
    (hname : library ≠ name) : site.calls name = false := by
  obtain ⟨base, arguments⟩ := site
  cases h with
  | name => exact beq_eq_false_iff_ne.2 fun heq => hname (Option.some.inj heq)
  | member => rfl

/-- A dotted member of a library is a library function before it is a method. -/
theorem passesReceiver_eq_false (h : NameOrMember library id site.base)
    (hlibrary : library ∈ Name.systemLibraries) (hsystem : site.callsSystemFunction = false)
    (receiver : Option String) : receiver.any site.passesReceiver = false := by
  obtain ⟨base, arguments⟩ := site
  cases receiver with
  | none => rfl
  | some receiver =>
    cases h with
    | name => rfl
    | member _ _ _ indexer =>
      cases indexer with
      | colon => rfl
      | dot =>
        have hcalled : Name.isSystemLibrary library = false := hsystem
        rw [Name.isSystemLibrary, List.contains_eq_mem, decide_eq_false_iff_not] at hcalled
        exact absurd hlibrary hcalled

/-- What a library function that is called by its dotted name is hidden by. -/
theorem isParameter_of_callsSystemFunction (h : NameOrMember library id site.base)
    (hparameter : library ∈ ctx.parameters) (hsystem : site.callsSystemFunction = true) :
    site.base.qualifiedName?.any (fun (name, _) => ctx.isParameter name) = true := by
  obtain ⟨base, arguments⟩ := site
  cases h with
  | name => cases hsystem
  | member => exact List.contains_iff_mem.2 hparameter

/-- **A call of a hidden library, or of a member of one, is lowered as any call**, unless it is told
by names alone. -/
theorem patternAt_use (h : NameOrMember library id site.base)
    (hlibrary : library ∈ Name.systemLibraries) (hparameter : library ∈ ctx.parameters)
    (hscope : site.ignoresScope = false)
    (hvalue : site.base.name?.any ctx.options.valueTypes.contains = false) :
    patternAt ctx site = .generic := by
  -- the library is none of the functions that are told by their names
  have hcalls (name : String) (hname : name ∉ Name.systemLibraries) : site.calls name = false :=
    calls_eq_false h fun heq => hname (heq ▸ hlibrary)
  have hselects : site.selectsVararg = false := by
    unfold CallSite.selectsVararg
    split
    · rw [hcalls "select" (by decide), Bool.false_and]
    · rfl
  simp only [CallSite.ignoresScope, Bool.or_eq_false_iff] at hscope
  obtain ⟨⟨hformat, hinsert⟩, hconcat⟩ := hscope
  have hinsertAt : (site.callsLibrary "table" "insert" && site.arguments.length == 3) = false ∧
      (site.callsLibrary "table" "insert" && site.arguments.length == 2) = false := by
    simpa [Bool.and_or_distrib_left] using hinsert
  -- every other pattern asks for a name that the callee does not have
  have hpattern (receiver : Option String) : site.pattern receiver ctx.options.valueTypes =
      if site.callsSystemFunction then .systemFunction else .generic := by
    simp only [CallSite.pattern, hcalls "class" (by decide), hcalls "error" (by decide),
      hcalls "type" (by decide), hcalls "require" (by decide), hcalls "assert" (by decide), hselects,
      hformat, hinsertAt, hconcat, hvalue, Bool.false_and, Bool.false_eq_true, if_false]
    split
    · rfl
    next hsystem =>
      rw [passesReceiver_eq_false h hlibrary (Bool.eq_false_iff.2 hsystem),
        if_neg Bool.false_ne_true]
  rw [patternAt, hpattern]
  cases hsystem : site.callsSystemFunction with
  | false => rfl
  | true =>
    dsimp only
    rw [if_pos rfl, if_pos ⟨rfl, isParameter_of_callsSystemFunction h hparameter hsystem⟩]

end Calls

/-! ## Lowerings -/

section Lowerings

variable {ctx : Context} {library binding : String} {id : NodeId} {base e : Expr}

/-- What a use is: a member, or a call of a name or a member. -/
theorem use_cases (hused : e.usedBase? = some base) (hname : base.name? = some library) :
    (∃ indexer identifier, e.kind = .member base indexer identifier) ∧
        NameOrMember library base.id e ∨
      ∃ callee style arguments, e.kind = .call callee style arguments ∧
        NameOrMember library base.id callee := by
  -- a base with a name is that name, so the callee or the member is over it
  obtain ⟨baseId, baseSpan, baseKind⟩ := base
  obtain rfl : baseKind = .name library := by
    cases baseKind <;> cases hname
    rfl
  obtain ⟨id, span, kind⟩ := e
  cases kind with
  | member owner indexer identifier =>
    obtain rfl : owner = ⟨baseId, baseSpan, .name library⟩ := Option.some.inj hused
    exact .inl ⟨⟨indexer, identifier, rfl⟩, .member _ _ _ _ _⟩
  | call callee style arguments =>
    refine .inr ⟨callee, style, arguments, rfl, ?_⟩
    obtain ⟨calleeId, calleeSpan, calleeKind⟩ := callee
    cases calleeKind with
    | member owner indexer identifier =>
      obtain rfl : owner = ⟨baseId, baseSpan, .name library⟩ := Option.some.inj hused
      exact .member _ _ _ _ _
    | name =>
      cases hused
      exact .name _
    | _ => cases hused
  | _ => cases hused

theorem NameOrMember.items_eq (h : NameOrMember library id e) :
    e.items = [.reference id library] := by
  cases h <;> rfl

/-- The base of a use occurs in it. -/
theorem occurs_base (hused : e.usedBase? = some base) (hname : base.name? = some library)
    (env : Scope.Environment) :
    ⟨base.id, library, env⟩ ∈ Scope.Skeleton.occurrences env e.items := by
  have hreference : [.reference base.id library] ⊆ e.items := by
    rcases use_cases hused hname with ⟨-, h⟩ | ⟨callee, style, arguments, hkind, h⟩
    · rw [h.items_eq]
      exact List.Subset.refl _
    · obtain ⟨ownId, span, kind⟩ := e
      obtain rfl : kind = .call callee style arguments := hkind
      rw [← h.items_eq]
      exact List.subset_append_left _ _
  exact Layout.occurrences_subset e.items_plain.1 hreference List.mem_cons_self

/-- A hidden library that is called, or a member of one. -/
theorem expressionKind_nameOrMember (h : NameOrMember library id e)
    (hparameter : library ∈ ctx.parameters)
    (hreference : reference ctx (ctx.annotations.resolve id library) = pure binding) (role : Role) :
    expressionKind ctx role e.id e.kind = boundCallee binding e.kind := by
  cases h with
  | name span =>
    rw [expressionKind, hreference]
    rfl
  | member ownId ownSpan span indexer identifier =>
    have hhidden : ctx.isLibrary library = false := by
      simp [Context.isLibrary, Context.isParameter, hparameter]
    have hunused : useMember ctx ⟨id, span, .name library⟩ identifier = pure () := by
      rw [useMember]
      simp only [Expr.name?, hhidden, Bool.false_eq_true, if_false]
    rw [expressionKind, hunused, expression, expressionKind, hreference]
    rfl

/-- **A use of a hidden library is lowered as one of a bound name.** -/
theorem expressionKind_use (hused : e.usedBase? = some base) (hname : base.name? = some library)
    (hlibrary : library ∈ Name.systemLibraries) (hparameter : library ∈ ctx.parameters)
    (hreference : reference ctx (ctx.annotations.resolve base.id library) = pure binding)
    (hscope : e.ignoresScope ctx.options.valueTypes = false) (role : Role) :
    expressionKind ctx role e.id e.kind = boundUse ctx binding e.kind := by
  rcases use_cases hused hname with
    ⟨⟨indexer, identifier, hkind⟩, h⟩ | ⟨callee, style, arguments, hkind, h⟩
  · rw [expressionKind_nameOrMember h hparameter hreference, hkind]
    rfl
  · simp only [Expr.ignoresScope, hkind, Bool.or_eq_false_iff] at hscope
    have hpattern := patternAt_use h hlibrary hparameter hscope.1 hscope.2
    have hplain (text : String) : asBase callee text = text := by cases h <;> rfl
    have hcallee : expression ctx .single callee =
        around callee.span (boundCallee binding callee.kind) := by
      rw [← expressionKind_nameOrMember h hparameter hreference .single]
      cases callee
      rw [expression]
    rw [hkind, expressionKind, call, hpattern]
    simp only [genericCall, hplain, hcallee, boundUse]

/-- What a use of a bound name records is what its arguments record. -/
theorem boundUse_registries (ctx : Context) (binding : String) (e : Expr) (p : Progress) :
    ∃ q, q.registries = p.registries ∧ ((boundUse ctx binding e.kind).run p).2.registries =
      ((expressions ctx .spread e.arguments).run q).2.registries := by
  have hcallee (kind : ExprKind) (q : Progress) :
      ((boundCallee binding kind).run q).2.registries = q.registries := by
    cases kind <;> rfl
  obtain ⟨id, span, kind⟩ := e
  cases kind with
  | call base style arguments =>
    refine ⟨((around base.span (boundCallee binding base.kind)).run p).2, ?_, rfl⟩
    exact hcallee base.kind ((commentsBefore base.span).run p).2
  | _ =>
    refine ⟨p, rfl, ?_⟩
    rw [Expr.arguments, expressions]
    exact hcallee _ p

/-- The name stands in what a use of it writes. -/
theorem part_boundCallee (binding : String) (kind : ExprKind) (p : Progress) :
    HasPart ((boundCallee binding kind).run p).1 binding := by
  cases kind with
  | member base indexer identifier =>
    exact ((((HasPart.refl binding).behind _).before _).before _).before _
  | _ => exact .refl _

theorem part_boundUse (ctx : Context) (binding : String) (kind : ExprKind) (p : Progress) :
    HasPart ((boundUse ctx binding kind).run p).1 binding := by
  cases kind with
  | call base style arguments =>
    have hcallee := ((part_boundCallee binding base.kind
      ((commentsBefore base.span).run p).2).behind
        ((commentsBefore base.span).run p).1).before
          ((commentsAfter base.span).run ((boundCallee binding base.kind).run
            ((commentsBefore base.span).run p).2).2).1
    refine HasPart.callee ?_ _
    split
    · exact hcallee.before _
    · exact hcallee
  | _ => exact part_boundCallee binding _ p

end Lowerings

/-- **An expression uses a bound name**: it is lowered as a use of the name that the code binds for
an identifier, that is no member of the support module, and nothing is registered for it. -/
structure UsesBinding (ctx : Context) (identifier : Identifier) (e : Expr) : Prop where
  lowering : ∀ role, expressionKind ctx role e.id e.kind =
    boundUse ctx (ctx.declaredName identifier) e.kind
  spelling : ∀ member, ctx.declaredName identifier ≠ "l2j." ++ member
  registries : ∀ role p, ∃ q, q.registries = p.registries ∧
    ((expressionKind ctx role e.id e.kind).run p).2.registries =
      ((expressions ctx .spread e.arguments).run q).2.registries

/-- The code of a program has that of its statements. -/
theorem part_chunk (ctx : Context) (c : Chunk) (p : Progress) :
    HasPart ((chunk ctx c).run p).1 (sequence ((statements ctx c.body).run p).1) := by
  rw [chunk_run]
  dsimp only
  refine HasPart.before ?_ _
  split
  · exact .refl _
  · refine HasPart.before ?_ _
    split
    next hempty =>
      rw [String.isEmpty_iff.1 hempty]
      exact .refl _
    · exact (HasPart.refl _).before _

end Emit

/-! ## Programs -/

section Programs

open Emit (Context Convention Holds HasPart IsNameFor Reaches StatementPart Step Task UsesBinding)

variable {source : String} {chunk : Chunk} {library : String}

/-- A name is what it is bound to, or generated from it. -/
theorem Scope.Annotations.Fit.isNameFor {a : Annotations} {o : Occurrence} (h : a.Fit o) :
    IsNameFor o.name (a.resolve o.id o.name) := by
  rw [Annotations.resolve, Std.TreeMap.getD_eq_getD_getElem?]
  rcases h.generated with hnone | ⟨k, hsome⟩
  · exact .inl (by rw [hnone, Option.getD_none])
  · exact .inr ⟨k, by rw [hsome, Option.getD_some]⟩

/-- The text of what is reached stands in lowered code, if it is not blank. -/
theorem bears_lower (path : String) (registries : Registries) (options : Options)
    {part : Context × Task}
    (h : Reaches ((parse source).context path options, .block chunk.body) part) :
    ∃ text, part.2.Gives part.1 text ∧
      Emit.Bears (lower path options registries (parse source) chunk).code text := by
  have hwhole := Emit.part_chunk ((parse source).context path options) chunk
    ((parse source).start registries)
  obtain ⟨text, htext, hbears⟩ := h.bears ⟨(parse source).start registries, rfl⟩
  exact ⟨text, htext, hbears.within hwhole⟩

/-- **The text of what is reached stands in the code of the program**, if it is not blank. -/
theorem holds_compile (path : String) (registries : Registries) (options : Options)
    (hparse : (parse source).result = .ok chunk) {part : Context × Task}
    (h : Reaches ((parse source).context path options, .block chunk.body) part) :
    ∃ text, part.2.Gives part.1 text ∧
      Emit.Bears (compile .keep source path registries options).1.code text := by
  obtain ⟨text, htext, hbears⟩ := bears_lower path registries options h
  refine ⟨text, htext, hbears.within ?_⟩
  rw [compile_keep path registries options hparse]
  obtain ⟨front, -, hfront⟩ := exists_withErrors
    ((lower path options registries (parse source) chunk).progress.failures.map
      (unsupportedDiagnostic path))
  dsimp only
  rw [hfront]
  exact (HasPart.refl _).behind front

/-- What a name of a hidden library is bound to. -/
theorem exists_binder (hparse : (parse source).result = .ok chunk) {o : Occurrence}
    (ho : o ∈ chunk.occurrences) (hlibrary : o.name ∈ Name.systemLibraries)
    (hdeclares : o.environment.Declares o.name) : ∃ d, o.binder? = some (.declared d) := by
  have hreceiver : o.binder? ≠ some .receiver := by
    intro hbinder
    have hself : o.name = receiverName := ((fit_of_parse hparse ho).keyed.name_eq hbinder).symm
    rw [hself] at hlibrary
    exact absurd hlibrary (by decide)
  have hbound := (Occurrence.declares_iff hreceiver).1 hdeclares
  rw [Occurrence.isFree, Option.isNone_eq_false_iff] at hbound
  obtain ⟨binder, hbinder⟩ := Option.isSome_iff_exists.1 hbound
  cases binder with
  | declared d => exact ⟨d, hbinder⟩
  | receiver => exact absurd hbinder hreceiver

/-- **A parameter hides a library.**

Let a program parse, let a function of it have a parameter with the name of a library, and let a
member, a call or a call of a member be lowered inside the function, whose base is that name. The
base is an occurrence of the program that is bound to a declared identifier: the parameter, or what
hides it in turn. Unless the call is told by names alone, it is lowered as a use of the name that the
code binds for that identifier, whatever the member, the arguments and the way to call; its text
stands in the code of the program, and nothing is registered for it. -/
theorem hiddenLibrary_uses (path : String) (registries : Registries) (options : Options)
    (hparse : (parse source).result = .ok chunk) {outer inner : Context} {isMethod : Bool}
    {convention : Convention} {f : FunctionBody} {base e : Expr}
    (hfunction : Reaches ((parse source).context path options, .block chunk.body)
      (outer, .function isMethod convention f))
    (hinside : Reaches (outer, .function isMethod convention f) (inner, .expression e))
    (hlibrary : library ∈ Name.systemLibraries)
    (hparameter : library ∈ f.parameters.map Identifier.name) (hused : e.usedBase? = some base)
    (hname : base.name? = some library) (hscope : e.ignoresScope options.valueTypes = false) :
    ∃ o ∈ chunk.occurrences, o.id = base.id ∧ o.name = library ∧
      ∃ d, o.binder? = some (.declared d) ∧ UsesBinding inner d e ∧
        ∃ text, (Task.expression e).Gives inner text ∧
          Holds (compile .keep source path registries options).1.code text := by
  have hreaches := hfunction.trans hinside
  have hsees := Reaches.sees hreaches (Emit.sees_chunk chunk rfl rfl)
  have hknown : library ∈ inner.parameters := hinside.function_parameters hparameter
  obtain ⟨env, hdeclares, hoccurrences⟩ := hsees.scope
  -- the base is an occurrence of the program, where the parameter is visible
  have ho : ⟨base.id, library, env⟩ ∈ chunk.occurrences := 
    hoccurrences (Emit.occurs_base hused hname env)
  have hfit := fit_of_parse hparse ho
  obtain ⟨d, hd⟩ := exists_binder hparse ho hlibrary (hdeclares library hknown)
  have hdeclared : inner.declaredName d =
      Name.asBinding (inner.annotations.resolve base.id library) := by
    rw [Context.declaredName, hsees.annotations]
    exact congrArg Name.asBinding (hfit.resolve_eq hd).symm
  have hnameFor : IsNameFor library (inner.annotations.resolve base.id library) := by
    rw [hsees.annotations]
    exact hfit.isNameFor
  obtain ⟨hdot, c, hc, hblank⟩ := hnameFor.spelling hlibrary
  have hreference : Emit.reference inner (inner.annotations.resolve base.id library) =
      pure (inner.declaredName d) := by
    rw [hdeclared]
    exact Emit.reference_hidden hsees.receiver hlibrary hknown hnameFor
  have hvalueTypes : inner.options = options := hsees.options
  have hlowering (role : Emit.Role) : Emit.expressionKind inner role e.id e.kind =
      Emit.boundUse inner (inner.declaredName d) e.kind :=
    Emit.expressionKind_use hused hname hlibrary hknown hreference (hvalueTypes ▸ hscope) role
  refine ⟨_, ho, rfl, rfl, d, hd, ⟨hlowering, fun member heq => hdot ?_, fun role p => ?_⟩, ?_⟩
  · rw [← hdeclared, heq]
    simp
  · rw [hlowering]
    exact Emit.boundUse_registries inner _ e p
  · obtain ⟨text, ⟨role, p, rfl⟩, hbears⟩ := holds_compile path registries options hparse hreaches
    refine ⟨_, ⟨role, p, rfl⟩, hbears.resolve_right fun hblanks => ?_⟩
    -- the name itself is not blank
    have hpart := Emit.part_boundUse inner (inner.declaredName d) e.kind p
    rw [← hlowering role, hdeclared] at hpart
    rw [hblanks c (hpart.subset hc)] at hblank
    cases hblank

/-- The function that a program consists of, and what the function gives back, if that is all. -/
def Chunk.returned? (chunk : Chunk) : Option (FunctionBody × Expr) :=
  match chunk.body with
  | [⟨_, _, .function (.name _) f⟩] =>
    match f.body with
    | [⟨_, _, .return [e]⟩] => some (f, e)
    | _ => none
  | _ => none

theorem reaches_returned {f : FunctionBody} {e : Expr} (h : chunk.returned? = some (f, e))
    (ctx : Context) :
    Reaches (ctx, .block chunk.body) (ctx, .function false (.plain f) f) ∧
      Reaches (ctx, .function false (.plain f) f)
        (ctx.inFunction f.parameters f.parameters none, .expression e) := by
  unfold Chunk.returned? at h
  split at h
  next id span name g hbody =>
    split at h
    next stmtId stmtSpan e' hreturn =>
      obtain ⟨rfl, rfl⟩ := Prod.mk.inj (Option.some.inj h)
      have hfunction : Step ctx (.block chunk.body) ctx
          (.statement ⟨id, span, .function (.name name) g⟩) :=
        .statement (hbody ▸ List.mem_singleton_self _)
      let inner := ctx.inFunction g.parameters g.parameters none
      have hbody : Step ctx (.function false (.plain g) g) inner (.block g.body) := .body _ _ g
      have hstatement : Step inner (.block g.body) inner
          (.statement ⟨stmtId, stmtSpan, .return [e']⟩) :=
        .statement (hreturn ▸ List.mem_singleton_self _)
      have hreturned : StatementPart inner (.return [e']) inner (.expression e') :=
        .returned rfl rfl (List.mem_singleton_self _)
      exact ⟨hfunction.reaches.trans (Step.part (.function name g)).reaches,
        hbody.reaches.trans (hstatement.reaches.trans (Step.part hreturned).reaches)⟩
    · cases h
  · cases h

end Programs

/-- A function with a parameter that hides a library. -/
def hidingText : String := "function f(string, s) return string.byte(s, 1) end"

theorem hiddenLibrary_uses_hidingText : ∃ chunk f e base,
    (parse hidingText).result = .ok chunk ∧ chunk.returned? = some (f, e) ∧
    e.usedBase? = some base ∧ base.name? = some "string" ∧
    (∃ inner, ∃ o ∈ chunk.occurrences, o.id = base.id ∧ o.name = "string" ∧
      ∃ d, o.binder? = some (.declared d) ∧ Emit.UsesBinding inner d e ∧
        ∃ text, (Emit.Task.expression e).Gives inner text ∧
          Emit.Holds (compile .keep hidingText "Game/UI/test.lua" .empty {}).1.code text) ∧
    (compile .keep hidingText "Game/UI/test.lua" .empty {}).1.code =
      "function f(string, s)\x7breturn string.byte(s, 1)\x7d\n_G.f = f;\n" ∧
    (compile .keep hidingText "Game/UI/test.lua" .empty {}).2.systemFunctions.names = [] := by
  -- what the parser finds in the text
  have hshape : ((parse hidingText).result.toOption.bind Chunk.returned?).map (fun (f, e) =>
      (f.parameters.map Identifier.name, e.usedBase?.bind Expr.name?,
        e.ignoresScope ({} : Options).valueTypes)) =
        some (["string", "s"], some "string", false) := by
    rw [hidingText, parse_ofList]
    decide +kernel
  cases hparse : (parse hidingText).result with
  | error fault => simp [hparse, Except.toOption] at hshape
  | ok chunk =>
    rw [hparse] at hshape
    obtain ⟨⟨f, e⟩, hreturned, hshape⟩ := Option.map_eq_some_iff.1 hshape
    obtain ⟨hparameters, hname, hscope⟩ : f.parameters.map Identifier.name = ["string", "s"] ∧
        e.usedBase?.bind Expr.name? = some "string" ∧
        e.ignoresScope ({} : Options).valueTypes = false := by
      simpa using hshape
    obtain ⟨base, hused, hname⟩ := Option.bind_eq_some_iff.1 hname
    obtain ⟨hfunction, hinside⟩ := reaches_returned hreturned
      ((parse hidingText).context "Game/UI/test.lua" {})
    let outer := (parse hidingText).context "Game/UI/test.lua" {}
    -- the context around the function is that of the file
    refine ⟨chunk, f, e, base, rfl, hreturned, hused, hname,
      ⟨outer.inFunction f.parameters f.parameters none, ?_⟩, ?_⟩
    · exact hiddenLibrary_uses "Game/UI/test.lua" .empty {} hparse hfunction hinside (by decide)
        (by rw [hparameters]; decide) hused hname hscope
    · rw [compile, hidingText, parse_ofList]
      decide +kernel

/-- A call of `string.format` with a literal is told by its names alone. -/
example :
    (compile .keep "function f(string) return string.format(\"%d\", 1) end" "a.lua" .empty
      {}).1.code =
      "function f(string)\x7breturn l2j.string.format(\"%d\", 1)\x7d\n_G.f = f;\n" := by
  rw [compile, parse_ofList]
  decide +kernel

end LuaCompiler
