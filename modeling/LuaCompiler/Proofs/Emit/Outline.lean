import LuaCompiler.Emit.Binding
import LuaCompiler.Emit.Call
import LuaCompiler.Emit.Statement
import LuaCompiler.Proofs.Tree.Outline

/-!
# Rules and outlines

A rule for a node gets the texts of the parts from elsewhere and looks at the parts themselves only to
decide between a few forms. Each such decision can be made on the outlines of the parts.

* One lemma for each question that a rule asks, from `asBase_outline` to `isNegative_outline`.
* `patternAt_outline`, `bindName_outline`: the rules that ask several.
-/

namespace LuaCompiler.Emit

variable (ctx : Context)

/-! ## Expressions -/

/-- A base is bracketed by its kind. -/
@[simp]
theorem asBase_outline (e : Expr) (text : String) : asBase e.raw.outline text = asBase e text := by
  obtain ⟨id, span, kind⟩ := e
  cases kind <;> rfl

/-- An operand may be written twice if it is a name or a literal. -/
@[simp]
theorem isRepeatable_outline (e : Expr) : isRepeatable e.raw.outline = isRepeatable e := by
  obtain ⟨id, span, kind⟩ := e
  cases kind <;> rfl

@[simp]
theorem isLogical_outline (e : Expr) : isLogical e.raw.outline = isLogical e := by
  obtain ⟨id, span, kind⟩ := e
  cases kind <;> rfl

@[simp]
theorem isConjunction_outline (e : Expr) : isConjunction e.raw.outline = isConjunction e := by
  obtain ⟨id, span, kind⟩ := e
  cases kind with
  | logical operator left right => cases operator <;> rfl
  | _ => rfl

/-- A library is told by its name. -/
@[simp]
theorem useMember_outline (base : Expr) (identifier : Identifier) :
    useMember ctx base.raw.outline identifier = useMember ctx base identifier := by
  rw [useMember, useMember, Expr.name?_outline]

/-- A table spreads by the kinds of its fields. -/
@[simp]
theorem spreadsFields_outline (fields : List Field) :
    spreadsFields (Raw.fieldOutlines (rawFields fields)) = spreadsFields fields := by
  simp only [spreadsFields, fieldOutlines_raw, List.all_map, List.getLast?_map, Option.any_map,
    Function.comp_def, FieldKind.isPositional_outline, FieldKind.value_outline,
    Expr.isVararg_outline]

/-! ## Calls and classes -/

/-- A table is one by its kind. -/
@[simp]
theorem isTable_outline (e : Expr) : isTable e.raw.outline = isTable e := by
  obtain ⟨id, span, kind⟩ := e
  cases kind <;> rfl

/-- And is empty by its fields. -/
@[simp]
theorem isEmptyTable_outline (e : Expr) : isEmptyTable e.raw.outline = isEmptyTable e := by
  obtain ⟨id, span, kind⟩ := e
  cases kind with
  | table fields =>
    exact (congrArg List.isEmpty (fieldOutlines_raw fields)).trans List.isEmpty_map
  | _ => rfl

/-- A class has a body of its own when a table is among its arguments. -/
@[simp]
theorem isNativeClass_outline (arguments : List Expr) :
    isNativeClass (arguments.map fun e => e.raw.outline) = isNativeClass arguments := by
  simp [isNativeClass, List.head?_map, Option.any_map]

/-- A class is made by a call of that name. -/
@[simp]
theorem isClassCall_outline (base : Expr) (arguments : List Expr) :
    isClassCall base.raw.outline (arguments.map fun e => e.raw.outline) =
      isClassCall base arguments := by
  simp [isClassCall]

/-- **A call is lowered by the pattern of its outline.** -/
theorem patternAt_outline (site : CallSite) : patternAt ctx site.outline = patternAt ctx site := by
  rw [patternAt, patternAt, CallSite.pattern_outline, CallSite.outline, Expr.qualifiedName?_outline]

/-- A global is told by its name. -/
@[simp]
theorem isForeignGlobal_outline (registries : Registries) (owner : Expr) :
    isForeignGlobal ctx registries owner.raw.outline = isForeignGlobal ctx registries owner := by
  rw [isForeignGlobal, isForeignGlobal, Expr.name?_outline]

/-- A callee keeps the path of its owner by their names. -/
@[simp]
theorem keepsPath_outline (callee owner : Expr) :
    keepsPath ctx callee.raw.outline owner.raw.outline = keepsPath ctx callee owner := by
  rw [keepsPath, keepsPath, CallSite.hasDirectKey_outline, Expr.rootName?_outline]

/-- An iterator is told by its name. -/
@[simp]
theorem iteratorFunction?_outline (base : Expr) :
    iteratorFunction? base.raw.outline = iteratorFunction? base := by
  rw [iteratorFunction?, iteratorFunction?, Expr.name?_outline]

/-! ## Declarations and assignments -/

/-- Only calls and varargs have several values. -/
@[simp]
theorem isMultiValue_outline (e : Expr) : isMultiValue e.raw.outline = isMultiValue e := by
  obtain ⟨id, span, kind⟩ := e
  cases kind <;> rfl

@[simp]
theorem canBecomeClass_outline (e : Expr) (value name fileName : String) :
    canBecomeClass e.raw.outline value name fileName = canBecomeClass e value name fileName := by
  obtain ⟨id, span, kind⟩ := e
  cases kind <;> rfl

@[simp]
theorem bindName_outline (targets : Targets) (name : String) (node : Expr) (value : String) :
    bindName ctx targets name node.raw.outline value = bindName ctx targets name node value := by
  simp [bindName, publishes, isRuntimeValue, bindPlain, copiedName]

/-- Two paths are the same by their names. -/
@[simp]
theorem sameReference_outline : ∀ a b : Expr,
    sameReference a.raw.outline b.raw.outline = sameReference a b
  | ⟨_, _, kind⟩, ⟨_, _, other⟩ => by
    cases kind with
    | name a => cases other <;> rfl
    | member base indexer identifier =>
      cases other with
      | member base' indexer' identifier' =>
        exact congrArg ((indexer == indexer' && identifier.name == identifier'.name) && ·)
          (sameReference_outline base base')
      | _ => rfl
    | _ => rfl

/-- The length of a table names the table. -/
@[simp]
theorem isLengthOf_outline (base e : Expr) :
    isLengthOf base.raw.outline e.raw.outline = isLengthOf base e := by
  obtain ⟨id, span, kind⟩ := e
  cases kind with
  | unary operator argument =>
    cases operator with
    | len => exact sameReference_outline argument base
    | _ => rfl
  | _ => rfl

/-- An append is told by the length in its index. -/
@[simp]
theorem isAppend_outline (base index : Expr) :
    isAppend base.raw.outline index.raw.outline = isAppend base index := by
  obtain ⟨id, span, kind⟩ := index
  cases kind with
  | binary operator left right =>
    cases operator <;> simp [isAppend, Expr.kind_outline, ExprKind.raw, Raw.ExprKind.outline]
  | _ => rfl

/-- So its base is found among the outlines. -/
theorem appendBase?_outline (targets init : List Expr) :
    appendBase? (targets.map fun e => e.raw.outline) (init.map fun e => e.raw.outline) =
      (appendBase? targets init).map fun e => e.raw.outline := by
  rcases targets with _ | ⟨⟨id, span, kind⟩, _ | ⟨second, more⟩⟩
  · rfl
  · rcases init with _ | ⟨value, _ | ⟨other, rest⟩⟩
    · cases kind <;> rfl
    · cases kind with
      | index base index =>
        simp only [List.map_singleton, Expr.outline_eq ⟨id, span, .index base index⟩, ExprKind.raw,
          Raw.ExprKind.outline, appendBase?, isAppend_outline]
        split <;> rfl
      | _ => rfl
    · cases kind <;> rfl
  · simp [appendBase?]

/-- Targets are told by their names. -/
@[simp]
theorem assignedTargets_outline (targets : List Expr) (texts : List String) :
    assignedTargets ctx (targets.map fun e => e.raw.outline) texts =
      assignedTargets ctx targets texts := by
  rcases targets with _ | ⟨target, _ | ⟨second, more⟩⟩ <;> simp [assignedTargets]

/-! ## Other statements -/

/-- A failure is a `nil` and a message. -/
@[simp]
theorem isFailure_outline (arguments : List Expr) :
    isFailure (arguments.map fun e => e.raw.outline) = isFailure arguments := by
  rcases arguments with _ | ⟨first, _ | ⟨second, _ | ⟨third, rest⟩⟩⟩ <;> simp [isFailure]

/-- A step is negative by its sign. -/
@[simp]
theorem isNegative_outline (step : Expr) : isNegative step.raw.outline = isNegative step := by
  obtain ⟨id, span, kind⟩ := step
  cases kind with
  | unary operator argument =>
    obtain ⟨id, span, kind⟩ := argument
    cases operator <;> cases kind <;> rfl
  | _ => rfl

/-- The header of a loop looks for a literal one and the sign of the step. -/
@[simp]
theorem forNumericHeader_outline (name : String) (first : Expr) (step : Option Expr)
    (firstText lastText stepText : String) :
    forNumericHeader name first.raw.outline (step.map fun e => e.raw.outline) firstText lastText
      stepText = forNumericHeader name first step firstText lastText stepText := by
  simp [forNumericHeader, Option.any_map]

end LuaCompiler.Emit
