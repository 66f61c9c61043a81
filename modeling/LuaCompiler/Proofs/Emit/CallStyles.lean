import LuaCompiler.Emit.Walk
import LuaCompiler.Proofs.Emit.Outline
import LuaCompiler.Proofs.Tree.CallStyles

/-!
# Lowering and call styles

A lowering looks at what is called and with which arguments, and hardly ever at how the call is written:
each rule gives the same for a tree and for the tree with chosen calls in parentheses, since the two have
one outline. Only a generic loop looks at the style of the call that it runs over.

* One lemma for each rule, up to `call_unsugared` and `assignment_unsugared`.
* `iterated_unsugared`: what a loop runs over, unless its call is one of `pairs` or `ipairs` that loses its
  sugar.
* `expression_unsugared`, `statements_unsugared`: **the walk**.
-/

namespace LuaCompiler

namespace Emit

variable {chosen : NodeId → Bool} (ctx : Context)

/-! ## Rules for expressions -/

/-- A base is bracketed by its kind alone, which the call style is no part of. -/
@[simp]
theorem asBase_unsugared (e : Expr) (text : String) :
    asBase (e.unsugared chosen) text = asBase e text := by
  rw [← asBase_outline, Expr.outline_unsugared, asBase_outline]

/-- Whether an operand may be written twice does not depend on the style of a call. -/
@[simp]
theorem isRepeatable_unsugared (e : Expr) : isRepeatable (e.unsugared chosen) = isRepeatable e := by
  rw [← isRepeatable_outline, Expr.outline_unsugared, isRepeatable_outline]

@[simp]
theorem isLogical_unsugared (e : Expr) : isLogical (e.unsugared chosen) = isLogical e := by
  rw [← isLogical_outline, Expr.outline_unsugared, isLogical_outline]

@[simp]
theorem isConjunction_unsugared (e : Expr) :
    isConjunction (e.unsugared chosen) = isConjunction e := by
  rw [← isConjunction_outline, Expr.outline_unsugared, isConjunction_outline]

/-- The library a member is taken from is read off a name, and a name has no style. -/
@[simp]
theorem useMember_unsugared (base : Expr) (identifier : Identifier) :
    useMember ctx (base.unsugared chosen) identifier = useMember ctx base identifier := by
  rw [useMember, useMember, Expr.name?_unsugared]

/-- Whether a table spreads its last field is told by the kinds of the fields. -/
@[simp]
theorem spreadsFields_unsugared (fields : List Field) :
    spreadsFields (fieldsUnsugared chosen fields) = spreadsFields fields := by
  rw [← spreadsFields_outline, fieldOutlines_unsugared, spreadsFields_outline]

/-- The text of a table from its entries looks at the fields for spreading only. -/
@[simp]
theorem tableText_unsugared (fields : List Field) (entries : List Entry) :
    tableText (fieldsUnsugared chosen fields) entries = tableText fields entries := by
  rw [tableText, tableText, spreadsFields_unsugared]

/-! ## Rules for calls -/

@[simp]
theorem isTable_unsugared (e : Expr) : isTable (e.unsugared chosen) = isTable e := by
  rw [← isTable_outline, Expr.outline_unsugared, isTable_outline]

/-- A class with a body of its own stays one. -/
@[simp]
theorem isNativeClass_unsugared (arguments : List Expr) :
    isNativeClass (arguments.map (Expr.unsugared chosen)) = isNativeClass arguments := by
  simp [isNativeClass, List.head?_map, Option.any_map]

/-- A call that makes a class stays one. -/
@[simp]
theorem isClassCall_unsugared (base : Expr) (arguments : List Expr) :
    isClassCall (base.unsugared chosen) (arguments.map (Expr.unsugared chosen)) =
      isClassCall base arguments := by
  simp [isClassCall]

/-- A call site with the chosen calls in parentheses. -/
def siteUnsugared (chosen : NodeId → Bool) (site : CallSite) : CallSite :=
  ⟨site.base.unsugared chosen, site.arguments.map (Expr.unsugared chosen)⟩

/-- What the patterns of a call look at is its outline, and that has no style. -/
theorem outline_siteUnsugared (site : CallSite) :
    (siteUnsugared chosen site).outline = site.outline := by
  simp [CallSite.outline, siteUnsugared]

/-- The pattern of a call is the pattern of the call with arguments in parentheses. -/
theorem patternAt_unsugared (site : CallSite) :
    patternAt ctx (siteUnsugared chosen site) = patternAt ctx site := by
  rw [← patternAt_outline, outline_siteUnsugared, patternAt_outline]

/-- A call by any of its patterns looks at the site's outline, and not at the style. -/
theorem call_unsugared (role : Role) (site : CallSite) (parts : CallParts) :
    call ctx role (siteUnsugared chosen site) parts = call ctx role site parts := by
  have hgeneric : genericCall ctx (siteUnsugared chosen site) parts = genericCall ctx site parts := by
    simp [genericCall, siteUnsugared]
  -- the rules look into an argument or the callee only for what keeps its kind
  have hindex (index : Expr) (text : Emit String) :
      selectText (index.unsugared chosen) text = selectText index text := by
    rw [Expr.unsugared_eq]
    cases hkind : index.kind <;> simp [selectText, hkind, ExprKind.unsugared]
  -- the tests of the owner read its outline, which has no styles
  have hself (owner : Expr) (identifier : Identifier) :
      selfCall ctx (siteUnsugared chosen site) parts (owner.unsugared chosen) identifier =
        selfCall ctx site parts owner identifier := by
    have hforeign (registries : Registries) :
        isForeignGlobal ctx registries (owner.unsugared chosen) =
          isForeignGlobal ctx registries owner := by
      rw [← isForeignGlobal_outline, Expr.outline_unsugared, isForeignGlobal_outline]
    have hpath : keepsPath ctx (site.base.unsugared chosen) (owner.unsugared chosen) =
        keepsPath ctx site.base owner := by
      rw [← keepsPath_outline, Expr.outline_unsugared, Expr.outline_unsugared, keepsPath_outline]
    simp [selfCall, siteUnsugared, hforeign, hpath]
  unfold call
  rw [patternAt_unsugared, hgeneric]
  cases patternAt ctx site with
  | classFactory => simp [classCall, siteUnsugared]
  | selectIndex => cases harguments : site.arguments <;> simp [siteUnsugared, harguments, hindex]
  | systemFunction => simp [siteUnsugared]
  | selfCall =>
    have hbase : (siteUnsugared chosen site).base.kind =
        site.base.kind.unsugared chosen site.base.id := by
      rw [siteUnsugared, Expr.unsugared_eq]
    rw [hbase]
    cases site.base.kind with
    | member owner indexer identifier => simp [ExprKind.unsugared, hself]
    | _ => simp [ExprKind.unsugared]
  | valueType => simp [siteUnsugared]
  | _ => rfl

/-! ## Rules for declarations and assignments -/

theorem isMultiValue_unsugared (e : Expr) : isMultiValue (e.unsugared chosen) = isMultiValue e := by
  rw [← isMultiValue_outline, Expr.outline_unsugared, isMultiValue_outline]

/-- The role of the last value is told by its kind. -/
theorem valuesRole_unsugared (init : List Expr) :
    valuesRole (init.map (Expr.unsugared chosen)) = valuesRole init := by
  rcases init with _ | ⟨first, _ | ⟨second, rest⟩⟩ <;> simp [valuesRole, isMultiValue_unsugared]

/-- The role in which a binding reads its last value is told by that value's kind. -/
@[simp]
theorem bindRole_unsugared (targets : Nat) (init : List Expr) :
    bindRole targets (init.map (Expr.unsugared chosen)) = bindRole targets init := by
  simp [bindRole, valuesRole_unsugared]

/-- Values are packed by whether the last spreads. -/
theorem packValues_unsugared (init : List Expr) (values : List String) :
    packValues (init.map (Expr.unsugared chosen)) values = packValues init values := by
  rcases init with _ | ⟨first, _ | ⟨second, rest⟩⟩ <;> simp [packValues, isMultiValue_unsugared]

/-- One name is bound by whether its value is a table. -/
theorem bindName_unsugared (targets : Targets) (name : String) (node : Expr) (value : String) :
    bindName ctx targets name (node.unsugared chosen) value =
      bindName ctx targets name node value := by
  rw [← bindName_outline, Expr.outline_unsugared, bindName_outline]

/-- A binding looks at its values for tables and for spreading only. -/
@[simp]
theorem bind_unsugared (targets : Targets) (init : List Expr) (values : List String) :
    bind ctx targets (init.map (Expr.unsugared chosen)) values = bind ctx targets init values := by
  unfold bind
  rw [packValues_unsugared]
  rcases init with _ | ⟨node, _ | ⟨second, rest⟩⟩
  · simp
  · rw [List.map_singleton]
    rcases targets.texts with _ | ⟨target, _ | ⟨other, more⟩⟩
    · rfl
    · rcases values with _ | ⟨value, _ | ⟨other, more⟩⟩
      · rfl
      · cases targets.single with
        | none => rfl
        | some name => exact bindName_unsugared ctx targets name node value
      · rfl
    · rfl
  · simp

/-- An index that appends is told by the length in it, which holds no call. -/
theorem isAppend_unsugared (base index : Expr) :
    isAppend (base.unsugared chosen) (index.unsugared chosen) = isAppend base index := by
  rw [← isAppend_outline, Expr.outline_unsugared, Expr.outline_unsugared, isAppend_outline]

/-- An assignment that appends stays one, to the same base rewritten. -/
theorem appendBase_unsugared (targets init : List Expr) :
    appendBase? (targets.map (Expr.unsugared chosen)) (init.map (Expr.unsugared chosen)) =
      (appendBase? targets init).map (Expr.unsugared chosen) := by
  rcases targets with _ | ⟨⟨id, span, kind⟩, _ | ⟨second, more⟩⟩
  · simp [appendBase?]
  · rcases init with _ | ⟨value, _ | ⟨other, rest⟩⟩
    · cases kind <;> simp [appendBase?, Expr.unsugared, ExprKind.unsugared]
    · cases kind with
      | index base index =>
        simp only [List.map_singleton, Expr.unsugared, ExprKind.unsugared, appendBase?,
          isAppend_unsugared]
        split <;> rfl
      | _ => simp [appendBase?, Expr.unsugared, ExprKind.unsugared]
    · cases kind <;> simp [appendBase?, Expr.unsugared, ExprKind.unsugared]
  · simp [appendBase?]

/-- An assignment that defines a class stays one. -/
theorem definesClass_unsugared (targets init : List Expr) :
    definesClass (targets.map (Expr.unsugared chosen)) (init.map (Expr.unsugared chosen)) =
      definesClass targets init := by
  rcases targets with _ | ⟨target, _ | ⟨second, more⟩⟩
  · simp [definesClass]
  · rcases init with _ | ⟨⟨id, span, kind⟩, _ | ⟨other, rest⟩⟩
    · simp [definesClass]
    · cases kind <;> simp [definesClass, Expr.unsugared, ExprKind.unsugared]
    · simp [definesClass]
  · simp [definesClass]

theorem assignClass_unsugared (target : Expr) (parts : AssignmentParts) :
    assignClass ctx (target.unsugared chosen) parts = assignClass ctx target parts := by
  rw [Expr.unsugared_eq]
  unfold assignClass
  cases target.kind <;> simp [ExprKind.unsugared]

/-- Assignments look at their targets and values by kind, so the style plays no part. -/
@[simp]
theorem assignment_unsugared (targets init : List Expr) (parts : AssignmentParts) :
    assignment ctx (targets.map (Expr.unsugared chosen)) (init.map (Expr.unsugared chosen)) parts =
      assignment ctx targets init parts := by
  have htargets (texts : List String) :
      assignedTargets ctx (targets.map (Expr.unsugared chosen)) texts =
        assignedTargets ctx targets texts := by
    rcases targets with _ | ⟨target, _ | ⟨second, more⟩⟩ <;> simp [assignedTargets]
  unfold assignment
  rw [appendBase_unsugared, definesClass_unsugared]
  cases appendBase? targets init with
  | some base => simp
  | none =>
    simp only [Option.map_none, htargets, bind_unsugared]
    cases definesClass targets init with
    | false => rfl
    | true =>
      cases targets with
      | nil => rfl
      | cons target more => simp [assignClass_unsugared]

/-- Local statements look at their values by kind, so the style plays no part. -/
@[simp]
theorem localStatement_unsugared (id : NodeId) (vars : List Identifier) (init : List Expr)
    (parts : LocalParts) :
    localStatement ctx id vars (init.map (Expr.unsugared chosen)) parts =
      localStatement ctx id vars init parts := by
  have hempty (value : Expr) : isEmptyTable (value.unsugared chosen) = isEmptyTable value := by
    rw [← isEmptyTable_outline, Expr.outline_unsugared, isEmptyTable_outline]
  have hclass (v : Identifier) (value : Expr) :
      localClass? ctx v (value.unsugared chosen) parts = localClass? ctx v value parts := by
    unfold localClass?
    rw [hempty, Expr.unsugared_eq]
    cases value.kind <;> simp [ExprKind.unsugared]
  have hbinding : localBinding ctx id vars (init.map (Expr.unsugared chosen)) parts =
      localBinding ctx id vars init parts := by
    simp [localBinding]
  unfold localStatement
  rw [hbinding]
  rcases vars with _ | ⟨v, _ | ⟨w, more⟩⟩
  · rfl
  · rcases init with _ | ⟨value, _ | ⟨other, rest⟩⟩
    · rfl
    · simp only [List.map_singleton, hclass]
    · rfl
  · rfl

/-! ## Rules for the other statements -/

/-- A step is negative by its sign or its digits. -/
theorem isNegative_unsugared (step : Expr) : isNegative (step.unsugared chosen) = isNegative step := by
  rw [← isNegative_outline, Expr.outline_unsugared, isNegative_outline]

/-- The header of a numeric loop looks for the literal one and the sign of the step. -/
@[simp]
theorem forNumericHeader_unsugared (name : String) (first : Expr) (step : Option Expr)
    (firstText lastText stepText : String) :
    forNumericHeader name (first.unsugared chosen) (stepUnsugared chosen step) firstText lastText
      stepText = forNumericHeader name first step firstText lastText stepText := by
  have hstep : (stepUnsugared chosen step).any isNegative = step.any isNegative := by
    cases step <;> simp [stepUnsugared, isNegative_unsugared]
  simp [forNumericHeader, hstep]

/-- Whether a function returns a failure is told by the kinds of what it returns. -/
@[simp]
theorem isFailure_unsugared (arguments : List Expr) :
    isFailure (arguments.map (Expr.unsugared chosen)) = isFailure arguments := by
  rw [← isFailure_outline, List.map_map]
  simp only [Function.comp_def, Expr.outline_unsugared, isFailure_outline]

/-- A `return` counts its values and looks for a failure, and neither has a style. -/
@[simp]
theorem returnStatement_unsugared (arguments : List Expr) (second : Emit String)
    (all : Emit (List String)) :
    returnStatement ctx (arguments.map (Expr.unsugared chosen)) second all =
      returnStatement ctx arguments second all := by
  simp [returnStatement]

theorem packRole_unsugared (arguments : List Expr) :
    packRole (arguments.map (Expr.unsugared chosen)) = packRole arguments := by
  simp [packRole]

/-- A function of its own is written from its names and its blocks' outline. -/
theorem plain_unsugared (f : FunctionBody) :
    Convention.plain (f.unsugared chosen) = Convention.plain f := by
  cases f
  rw [FunctionBody.unsugared, Convention.plain, Convention.plain]

/-- The first parameter as the receiver is told by its name. -/
theorem ofFirstParameter_unsugared (f : FunctionBody) :
    Convention.ofFirstParameter (f.unsugared chosen) = Convention.ofFirstParameter f := by
  cases f
  rw [FunctionBody.unsugared]
  rfl

/-- The convention of a function statement is told by its indexer. -/
theorem ofIndexer_unsugared (indexer : Indexer) (f : FunctionBody) :
    Convention.ofIndexer indexer (f.unsugared chosen) = Convention.ofIndexer indexer f := by
  cases indexer with
  | dot => exact ofFirstParameter_unsugared f
  | colon =>
    cases f
    rw [FunctionBody.unsugared]
    rfl

/-- A block is rewritten statement by statement. -/
theorem blockUnsugared_eq (body : List Stmt) :
    blockUnsugared chosen body =
      body.map fun stmt => ⟨stmt.id, stmt.span, stmt.kind.unsugared chosen⟩ := by
  induction body with
  | nil => rw [blockUnsugared, List.map_nil]
  | cons first rest ih =>
    cases first
    rw [blockUnsugared, ih, List.map_cons]

/-- The continue label of a loop is looked for among statements that hold no call. -/
@[simp]
theorem inLoop_unsugared (body : List Stmt) :
    ctx.inLoop (blockUnsugared chosen body) = ctx.inLoop body := by
  unfold Context.inLoop
  rw [blockUnsugared_eq, List.getLast?_map]
  rcases body.getLast? with _ | ⟨id, span, kind⟩
  · rfl
  · cases kind <;> simp [StmtKind.unsugared]

/-! ## The walk -/

/-- No call of a list is chosen. -/
def Spares (chosen : NodeId → Bool) (calls : List NodeId) : Prop := ∀ id ∈ calls, chosen id = false

omit ctx in
/-- A choice spares two lists of loops when it spares each. -/
theorem spares_append {a b : List NodeId} :
    Spares chosen (a ++ b) ↔ Spares chosen a ∧ Spares chosen b := List.forall_mem_append

/-- The iterator of a loop is found by its name. -/
theorem iteratorFunction_unsugared (base : Expr) :
    iteratorFunction? (base.unsugared chosen) = iteratorFunction? base := by
  rw [← iteratorFunction?_outline, Expr.outline_unsugared, iteratorFunction?_outline]

omit ctx in
/-- A choice that spares the loops over a call without parentheses takes no such call. -/
theorem iteratorFunction_of_spares {id : NodeId} {span : Span} {base : Expr} {style : CallStyle}
    {arguments : List Expr} (h : Spares chosen (loopSugar [⟨id, span, .call base style arguments⟩]))
    (hsugar : style ≠ .arguments ∧ chosen id = true) : iteratorFunction? base = none := by
  cases hname : base.name? with
  | none => simp [iteratorFunction?, hname]
  | some name =>
    have hother : ¬ (base.isName "pairs" = true ∨ base.isName "ipairs" = true) := by
      intro hstandard
      rw [loopSugar, if_pos ⟨hsugar.1, hstandard⟩] at h
      have hfree := h id (List.mem_singleton_self id)
      rw [hsugar.2] at hfree
      cases hfree
    rw [not_or] at hother
    simp only [Expr.isName, hname, beq_iff_eq, Option.some.injEq] at hother
    simp [iteratorFunction?, hname, hother.1, hother.2]

mutual

/-- The text of an expression does not depend on the style of the chosen calls in it. -/
theorem expression_unsugared : ∀ (e : Expr) (ctx : Context) (role : Role),
    Spares chosen e.sugaredIterators →
    expression ctx role (e.unsugared chosen) = expression ctx role e
  | ⟨id, span, kind⟩, ctx, role, h => by
    rw [Expr.unsugared, expression, expression, expressionKind_unsugared kind id ctx role h]

/-- Node by node: only a call has a style, and `call_unsugared` settles that. -/
theorem expressionKind_unsugared : ∀ (kind : ExprKind) (id : NodeId) (ctx : Context) (role : Role),
    Spares chosen kind.sugaredIterators →
    expressionKind ctx role id (kind.unsugared chosen id) = expressionKind ctx role id kind
  | .name _, _, _, _, _ | .nil, _, _, _, _ | .boolean _, _, _, _, _ | .number _ _, _, _, _, _
  | .string _, _, _, _, _ | .vararg, _, _, _, _ => by simp only [ExprKind.unsugared]
  | .function f, id, ctx, role, h => by
    simp only [ExprKind.unsugared, expressionKind, plain_unsugared,
      function_unsugared f ctx _ h]
  | .table fields, id, ctx, role, h => by
    simp only [ExprKind.unsugared, expressionKind, spreadsFields_unsugared, tableText_unsugared,
      entries_unsugared fields ctx _ h]
  | .binary operator left right, id, ctx, role, h => by
    obtain ⟨hleft, hright⟩ := spares_append.1 h
    simp only [ExprKind.unsugared, expressionKind, expression_unsugared left ctx _ hleft,
      expression_unsugared right ctx _ hright, Expr.isString_unsugared]
  | .logical operator left right, id, ctx, role, h => by
    obtain ⟨hleft, hright⟩ := spares_append.1 h
    simp only [ExprKind.unsugared, expressionKind, isConjunction_unsugared, isLogical_unsugared,
      isRepeatable_unsugared, conjuncts_unsugared left ctx hleft,
      expression_unsugared left ctx _ hleft, expression_unsugared right ctx _ hright]
  | .unary operator argument, id, ctx, role, h => by
    simp only [ExprKind.unsugared, expressionKind, expression_unsugared argument ctx _ h]
  | .member base indexer identifier, id, ctx, role, h => by
    simp only [ExprKind.unsugared, expressionKind, useMember_unsugared, asBase_unsugared,
      expression_unsugared base ctx _ h]
  | .index base index, id, ctx, role, h => by
    obtain ⟨hbase, hindex⟩ := spares_append.1 h
    simp only [ExprKind.unsugared, expressionKind, asBase_unsugared,
      expression_unsugared base ctx _ hbase, expression_unsugared index ctx _ hindex]
  | .call base style arguments, id, ctx, role, h => by
    obtain ⟨hbase, harguments⟩ := spares_append.1 h
    rw [ExprKind.unsugared, expressionKind, expressionKind, exprsUnsugared_eq,
      expression_unsugared base ctx _ hbase, owner_unsugared base ctx hbase,
      expressions_unsugared arguments ctx _ harguments,
      firstExpression_unsugared arguments ctx harguments,
      classBody_unsugared arguments ctx harguments]
    exact call_unsugared ctx role ⟨base, arguments⟩ _

/-- The operands of a chain of `and` are rewritten one by one. -/
theorem conjuncts_unsugared : ∀ (e : Expr) (ctx : Context), Spares chosen e.sugaredIterators →
    conjuncts ctx (e.unsugared chosen) = conjuncts ctx e
  | ⟨_, _, kind⟩, ctx, h => by
    rw [Expr.unsugared]
    cases kind with
    | logical operator left right =>
      obtain ⟨hleft, hright⟩ := spares_append.1 h
      simp only [ExprKind.unsugared, conjuncts, expression_unsugared left ctx _ hleft,
        expression_unsugared right ctx _ hright]
    | _ => simp only [ExprKind.unsugared, conjuncts]

theorem owner_unsugared : ∀ (e : Expr) (ctx : Context), Spares chosen e.sugaredIterators →
    owner ctx (e.unsugared chosen) = owner ctx e
  | ⟨_, _, kind⟩, ctx, h => by
    rw [Expr.unsugared]
    cases kind with
    | member base indexer identifier =>
      simp only [ExprKind.unsugared, owner, expression_unsugared base ctx _ h]
    | _ => simp only [ExprKind.unsugared, owner]

/-- An appended base is the base of an index expression, rewritten. -/
theorem indexBase_unsugared : ∀ (es : List Expr) (ctx : Context),
    Spares chosen (exprsSugaredIterators es) →
    indexBase ctx (es.map (Expr.unsugared chosen)) = indexBase ctx es
  | [], _, _ => rfl
  | ⟨_, _, kind⟩ :: _, ctx, h => by
    rw [List.map_cons, Expr.unsugared]
    cases kind with
    | index base index =>
      simp only [ExprKind.unsugared, indexBase,
        expression_unsugared base ctx _ (spares_append.1 (spares_append.1 h).1).1]
    | _ => simp only [ExprKind.unsugared, indexBase]

/-- A list of expressions is rewritten element by element, the last in its own role. -/
theorem expressions_unsugared : ∀ (es : List Expr) (ctx : Context) (last : Role),
    Spares chosen (exprsSugaredIterators es) →
    expressions ctx last (es.map (Expr.unsugared chosen)) = expressions ctx last es
  | [], _, _, _ => rfl
  | [only], ctx, last, h => by
    simp only [List.map_cons, List.map_nil, expressions,
      expression_unsugared only ctx _ (spares_append.1 h).1]
  | first :: second :: rest, ctx, last, h => by
    obtain ⟨hfirst, hrest⟩ := spares_append.1 h
    have ih := expressions_unsugared (second :: rest) ctx last hrest
    rw [List.map_cons] at ih
    simp only [List.map_cons, expressions, expression_unsugared first ctx _ hfirst, ih]

theorem firstExpression_unsugared : ∀ (es : List Expr) (ctx : Context),
    Spares chosen (exprsSugaredIterators es) →
    firstExpression ctx (es.map (Expr.unsugared chosen)) = firstExpression ctx es
  | [], _, _ => rfl
  | first :: _, ctx, h => expression_unsugared first ctx _ (spares_append.1 h).1

theorem secondExpression_unsugared : ∀ (es : List Expr) (ctx : Context),
    Spares chosen (exprsSugaredIterators es) →
    secondExpression ctx (es.map (Expr.unsugared chosen)) = secondExpression ctx es
  | [], _, _ => rfl
  | _ :: rest, ctx, h => firstExpression_unsugared rest ctx (spares_append.1 h).2

/-- The body of a class is the table among its arguments. -/
theorem classBody_unsugared : ∀ (es : List Expr) (ctx : Context),
    Spares chosen (exprsSugaredIterators es) →
    classBody ctx (es.map (Expr.unsugared chosen)) = classBody ctx es
  | [], _, _ => rfl
  | ⟨_, _, kind⟩ :: rest, ctx, h => by
    obtain ⟨hfirst, hrest⟩ := spares_append.1 h
    rw [List.map_cons, Expr.unsugared]
    cases kind with
    | table fields =>
      simp only [ExprKind.unsugared, classBody, members_unsugared fields ctx.asValue hfirst,
        parent_unsugared rest ctx hrest]
    | _ => simp only [ExprKind.unsugared, classBody]

/-- The parent of a class is the argument behind its table. -/
theorem parent_unsugared : ∀ (es : List Expr) (ctx : Context),
    Spares chosen (exprsSugaredIterators es) →
    parent ctx (es.map (Expr.unsugared chosen)) = parent ctx es
  | [], _, _ => rfl
  | first :: _, ctx, h => by
    simp only [List.map_cons, parent, asBase_unsugared,
      expression_unsugared first ctx _ (spares_append.1 h).1]

/-- The arguments of a call are rewritten as any list of expressions. -/
theorem callArguments_unsugared : ∀ (es : List Expr) (ctx : Context),
    Spares chosen (exprsSugaredIterators es) →
    callArguments ctx (es.map (Expr.unsugared chosen)) = callArguments ctx es
  | [], _, _ => rfl
  | ⟨_, _, kind⟩ :: rest, ctx, h => by
    rw [List.map_cons, Expr.unsugared]
    cases kind with
    | call base style arguments =>
      simp only [ExprKind.unsugared, callArguments, exprsUnsugared_eq,
        expressions_unsugared arguments ctx _ (spares_append.1 (spares_append.1 h).1).2]
    | _ => simp only [ExprKind.unsugared, callArguments]

theorem valueClassBody_unsugared : ∀ (es : List Expr) (ctx : Context),
    Spares chosen (exprsSugaredIterators es) →
    valueClassBody ctx (es.map (Expr.unsugared chosen)) = valueClassBody ctx es
  | [], _, _ => rfl
  | ⟨_, _, kind⟩ :: rest, ctx, h => by
    rw [List.map_cons, Expr.unsugared]
    cases kind with
    | call base style arguments =>
      simp only [ExprKind.unsugared, valueClassBody, exprsUnsugared_eq,
        classBody_unsugared arguments ctx (spares_append.1 (spares_append.1 h).1).2]
    | _ => simp only [ExprKind.unsugared, valueClassBody]

/-- The entries of a table are rewritten field by field. -/
theorem entries_unsugared : ∀ (fields : List Field) (ctx : Context) (last : Role),
    Spares chosen (fieldsSugaredIterators fields) →
    entries ctx last (fieldsUnsugared chosen fields) = entries ctx last fields
  | [], _, _, _ => by rw [fieldsUnsugared]
  | ⟨_, _, kind⟩ :: rest, ctx, last, h => by
    obtain ⟨hkind, hrest⟩ := spares_append.1 h
    have hempty : (fieldsUnsugared chosen rest).isEmpty = rest.isEmpty := by
      simp [fieldsUnsugared_eq]
    simp only [fieldsUnsugared, entries, hempty, entry_unsugared kind ctx _ hkind,
      entries_unsugared rest ctx last hrest]

theorem entry_unsugared : ∀ (kind : FieldKind) (ctx : Context) (role : Role),
    Spares chosen kind.sugaredIterators →
    entry ctx role (kind.unsugared chosen) = entry ctx role kind
  | .positional value, ctx, role, h => by
    simp only [FieldKind.unsugared, entry, expression_unsugared value ctx _ h]
  | .named key value, ctx, role, h => by
    simp only [FieldKind.unsugared, entry, expression_unsugared value ctx _ h]
  | .keyed key value, ctx, role, h => by
    obtain ⟨hkey, hvalue⟩ := spares_append.1 h
    simp only [FieldKind.unsugared, entry, expression_unsugared key ctx _ hkey,
      expression_unsugared value ctx _ hvalue]

/-- The members of a class body are rewritten field by field. -/
theorem members_unsugared : ∀ (fields : List Field) (ctx : Context),
    Spares chosen (fieldsSugaredIterators fields) →
    members ctx (fieldsUnsugared chosen fields) = members ctx fields
  | [], _, _ => by rw [fieldsUnsugared]
  | ⟨_, _, kind⟩ :: rest, ctx, h => by
    obtain ⟨hkind, hrest⟩ := spares_append.1 h
    simp only [fieldsUnsugared, members, member_unsugared kind ctx _ hkind,
      members_unsugared rest ctx hrest]

theorem member_unsugared : ∀ (kind : FieldKind) (ctx : Context) (span : Span),
    Spares chosen kind.sugaredIterators →
    member ctx span (kind.unsugared chosen) = member ctx span kind
  | .positional value, _, _, _ => by simp only [FieldKind.unsugared, member]
  | .named key value, ctx, span, h => by
    simp only [FieldKind.unsugared, member, memberValue_unsugared value ctx _ h]
  | .keyed key value, ctx, span, h => by
    obtain ⟨hkey, hvalue⟩ := spares_append.1 h
    simp only [FieldKind.unsugared, member, expression_unsugared key ctx _ hkey,
      memberValue_unsugared value ctx _ hvalue]

/-- A member is written by whether its value is a function. -/
theorem memberValue_unsugared : ∀ (value : Expr) (ctx : Context) (key : String),
    Spares chosen value.sugaredIterators →
    memberValue ctx key (value.unsugared chosen) = memberValue ctx key value
  | ⟨id, span, kind⟩, ctx, key, h => by
    have hkind := expressionKind_unsugared kind id ctx .single h
    rw [Expr.unsugared]
    cases kind with
    | function f =>
      simp only [ExprKind.unsugared, memberValue, ofFirstParameter_unsugared,
        function_unsugared f ctx _ h]
    | _ => simp only [ExprKind.unsugared, memberValue] at hkind ⊢ <;> simp only [hkind]

/-- A function is written from its names, which stay, and its body. -/
theorem function_unsugared : ∀ (f : FunctionBody) (ctx : Context) (convention : Convention),
    Spares chosen f.sugaredIterators →
    function ctx convention (f.unsugared chosen) = function ctx convention f
  | ⟨_, _, parameters, isVararg, body⟩, ctx, convention, h => by
    simp only [FunctionBody.unsugared, function, statements_unsugared body _ h]

/-- A block is written statement by statement. -/
theorem statements_unsugared : ∀ (body : List Stmt) (ctx : Context),
    Spares chosen (blockSugaredIterators body) →
    statements ctx (blockUnsugared chosen body) = statements ctx body
  | [], _, _ => by rw [blockUnsugared]
  | ⟨id, span, kind⟩ :: rest, ctx, h => by
    obtain ⟨hkind, hrest⟩ := spares_append.1 h
    simp only [blockUnsugared, statements, statement_unsugared kind id span ctx hkind,
      statements_unsugared rest ctx hrest]

/-- Statement by statement. Only a loop over `pairs` looks at the style of a call, and those the
choice spares. -/
theorem statement_unsugared : ∀ (kind : StmtKind) (id : NodeId) (span : Span) (ctx : Context),
    Spares chosen kind.sugaredIterators →
    statement ctx id span (kind.unsugared chosen) = statement ctx id span kind
  | .local vars init, id, span, ctx, h => by
    simp only [StmtKind.unsugared, statement, exprsUnsugared_eq, localStatement_unsugared,
      bindRole_unsugared, callArguments_unsugared init ctx h, valueClassBody_unsugared init ctx h,
      expressions_unsugared init ctx.asValue _ h]
  | .assignment targets init, id, span, ctx, h => by
    obtain ⟨htargets, hinit⟩ := spares_append.1 h
    simp only [StmtKind.unsugared, statement, exprsUnsugared_eq, assignment_unsugared,
      bindRole_unsugared, List.length_map, indexBase_unsugared targets ctx htargets,
      firstExpression_unsugared targets ctx htargets, firstExpression_unsugared init ctx hinit,
      valueClassBody_unsugared init ctx hinit, expressions_unsugared targets ctx.asValue _ htargets,
      expressions_unsugared init ctx.asValue _ hinit]
  | .call ⟨id, _, kind⟩, _, _, ctx, h => by
    simp only [StmtKind.unsugared, Expr.unsugared, statement,
      expressionKind_unsugared kind id ctx .statement h]
  | .localFunction name f, _, _, ctx, h => by
    simp only [StmtKind.unsugared, statement, plain_unsugared, function_unsugared f ctx _ h]
  | .function (.name name) f, _, _, ctx, h => by
    simp only [StmtKind.unsugared, FunctionTarget.unsugared, statement, plain_unsugared,
      function_unsugared f ctx _ (spares_append.1 h).2]
  | .function (.member _ _ base indexer name) f, _, _, ctx, h => by
    obtain ⟨hbase, hf⟩ := spares_append.1 h
    simp only [StmtKind.unsugared, FunctionTarget.unsugared, statement, asBase_unsugared,
      ofIndexer_unsugared, expression_unsugared base ctx _ hbase, function_unsugared f ctx _ hf]
  | .return arguments, _, _, ctx, h => by
    simp only [StmtKind.unsugared, statement, exprsUnsugared_eq, returnStatement_unsugared,
      packRole_unsugared, secondExpression_unsugared arguments ctx h,
      expressions_unsugared arguments ctx _ h]
  | .break, _, _, _, _ | .goto _, _, _, _, _ | .label _, _, _, _, _ => by
    simp only [StmtKind.unsugared]
  | .block body, _, _, ctx, h => by
    simp only [StmtKind.unsugared, statement, statements_unsugared body _ h]
  | .while condition body, _, _, ctx, h => by
    obtain ⟨hcondition, hbody⟩ := spares_append.1 h
    simp only [StmtKind.unsugared, statement, inLoop_unsugared,
      expression_unsugared condition ctx _ hcondition, statements_unsugared body _ hbody]
  | .repeat body condition, _, _, ctx, h => by
    obtain ⟨hbody, hcondition⟩ := spares_append.1 h
    simp only [StmtKind.unsugared, statement, inLoop_unsugared,
      expression_unsugared condition ctx _ hcondition, statements_unsugared body _ hbody]
  | .conditional ⟨_, _, condition, body⟩ others otherwise, _, _, ctx, h => by
    obtain ⟨hfront, hotherwise⟩ := spares_append.1 h
    obtain ⟨hfirst, hothers⟩ := spares_append.1 hfront
    obtain ⟨hcondition, hbody⟩ := spares_append.1 hfirst
    simp only [StmtKind.unsugared, Clause.unsugared, statement,
      expression_unsugared condition ctx _ hcondition, statements_unsugared body _ hbody,
      clauses_unsugared others ctx hothers, elseClause_unsugared otherwise ctx hotherwise]
  | .forNumeric counter first last step body, _, _, ctx, h => by
    obtain ⟨hfront, hbody⟩ := spares_append.1 h
    obtain ⟨hbounds, hstep⟩ := spares_append.1 hfront
    obtain ⟨hfirst, hlast⟩ := spares_append.1 hbounds
    simp only [StmtKind.unsugared, statement, inLoop_unsugared, forNumericHeader_unsugared,
      expression_unsugared first ctx.asBound _ hfirst,
      expression_unsugared last ctx.asBound _ hlast, optional_unsugared step ctx.asBound _ hstep,
      statements_unsugared body _ hbody]
  | .forGeneric vars [iterator] body, _, _, ctx, h => by
    obtain ⟨hfront, hbody⟩ := spares_append.1 h
    obtain ⟨hloop, hiterators⟩ := spares_append.1 hfront
    -- of a loop the choice spares its own call as well as the loops below
    simp only [StmtKind.unsugared, exprsUnsugared_eq, List.map_cons, List.map_nil, statement,
      inLoop_unsugared, iterated_unsugared iterator ctx hloop (spares_append.1 hiterators).1,
      statements_unsugared body _ hbody]
  | .forGeneric _ [] _, _, _, _, _ => by
    simp only [StmtKind.unsugared, exprsUnsugared_eq, List.map_nil, statement]
  | .forGeneric _ (first :: second :: rest) _, _, _, _, _ => by
    simp only [StmtKind.unsugared, exprsUnsugared_eq, List.map_cons, statement, List.length_cons,
      List.length_map]

theorem optional_unsugared : ∀ (step : Option Expr) (ctx : Context) (absent : String),
    Spares chosen (stepSugaredIterators step) →
    optional ctx absent (stepUnsugared chosen step) = optional ctx absent step
  | none, _, _, _ => by rw [stepUnsugared]
  | some e, ctx, absent, h => by
    simp only [stepUnsugared, optional, expression_unsugared e ctx _ h]

/-- What a loop runs over, unless it is a standard iterator whose call loses its sugar. -/
theorem iterated_unsugared : ∀ (iterator : Expr) (ctx : Context),
    Spares chosen (loopSugar [iterator]) → Spares chosen iterator.sugaredIterators →
    iterated ctx (iterator.unsugared chosen) = iterated ctx iterator
  | ⟨id, span, kind⟩, ctx, hloop, h => by
    have hkind := expressionKind_unsugared kind id ctx .single h
    rw [Expr.unsugared]
    cases kind with
    | call base style arguments =>
      have harguments := expressions_unsugared arguments ctx .spread (spares_append.1 h).2
      by_cases hsugar : style ≠ .arguments ∧ chosen id = true
      · -- a call that loses its sugar is no standard iterator
        have hnone : iteratorFunction? base = none := iteratorFunction_of_spares hloop hsugar
        rw [ExprKind.unsugared, if_pos hsugar.2] at hkind ⊢
        rw [iterated, iteratorFunction_unsugared, hnone, hkind]
        cases style with
        | arguments => exact absurd rfl hsugar.1
        | table | string => rfl
      · have hstyle : (if chosen id = true then CallStyle.arguments else style) = style := by
          cases style with
          | arguments => exact ite_self _
          | table | string => exact if_neg fun hchosen => hsugar ⟨nofun, hchosen⟩
        rw [ExprKind.unsugared, hstyle, exprsUnsugared_eq] at hkind ⊢
        cases style with
        | arguments => rw [iterated, iterated, iteratorFunction_unsugared, harguments, hkind]
        | table | string => exact congrArg (around span) hkind
    | _ => simp only [ExprKind.unsugared, iterated] at hkind ⊢ <;> simp only [hkind]

/-- The clauses of a conditional are rewritten one by one. -/
theorem clauses_unsugared : ∀ (clauses : List Clause) (ctx : Context),
    Spares chosen (clausesSugaredIterators clauses) →
    Emit.clauses ctx (clausesUnsugared chosen clauses) = Emit.clauses ctx clauses
  | [], _, _ => by rw [clausesUnsugared]
  | ⟨_, _, condition, body⟩ :: rest, ctx, h => by
    obtain ⟨hfirst, hrest⟩ := spares_append.1 h
    obtain ⟨hcondition, hbody⟩ := spares_append.1 hfirst
    simp only [clausesUnsugared, Clause.unsugared, Emit.clauses,
      expression_unsugared condition ctx _ hcondition, statements_unsugared body _ hbody,
      clauses_unsugared rest ctx hrest]

theorem elseClause_unsugared : ∀ (otherwise : Option ElseClause) (ctx : Context),
    Spares chosen (elseSugaredIterators otherwise) →
    elseClause ctx (elseUnsugared chosen otherwise) = elseClause ctx otherwise
  | none, _, _ => by rw [elseUnsugared]
  | some ⟨_, _, body⟩, ctx, h => by
    simp only [elseUnsugared, elseClause, statements_unsugared body _ h]

end

end Emit

end LuaCompiler
