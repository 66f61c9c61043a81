import LuaCompiler.Emit.Binding
import LuaCompiler.Emit.Statement
import LuaCompiler.Generator.Expression

/-!
# Steps for statements

The steps that a generator takes at a statement, given the steps for the parts of the statement.
The bounds of a numeric loop and the values of a declaration or an assignment have a position of
their own, which is put back before a failure in them goes on.
-/

namespace LuaCompiler.Generator

/-! ## Declarations and assignments -/

/-- The values for several targets as one; a lone plain value is wrapped, since it cannot be taken
apart. -/
def packFor (init : List Expr) (steps : Values) : Attempt String := do
  match init with
  | [only] =>
    if Emit.isMultiValue only then pack init steps else return Emit.brackets (← steps.first)
  | _ => pack init steps

/-- Binds targets to values. -/
def bind (file : File) (targets : Emit.Targets) (init : List Expr) (steps : Values) :
    Attempt String := do
  if targets.texts.length ≤ 1 ∧ init.length ≤ 1 then
    let value ← steps.first
    match init, targets.single with
    | [node], some name =>
      let ctx ← lift (here file)
      lift (trace (Emit.bindName ctx targets name node value))
    | _, _ => return targets.lead ++ targets.pattern ++ " = " ++ value
  else
    return Emit.bindMany targets (← packFor init steps)

/-- The steps for a `local` statement. -/
structure LocalSteps where
  /-- for the arguments of the first value, if it is a call -/
  arguments : Attempt (List String)
  /-- for the first value, if it is a native class -/
  native : ClassSteps
  values : Values

/-- The class that a `local` statement of one variable and one value defines, if it does: the
module's own table, a native class, or a class made by the support module. -/
def localClass (file : File) (vars : List Identifier) (init : List Expr) (steps : LocalSteps) :
    Attempt (Option String) := do
  match vars, init with
  | [v], [value] =>
    let ctx ← lift (here file)
    let name := ctx.declaredName v
    if ctx.isTop && Emit.isModuleName ctx v.name && Emit.isEmptyTable value then
      lift (trace (Emit.declareClass name))
      return some ("let " ++ name ++ " = " ++ Emit.createClassText ["\"" ++ file.name ++ "\""])
    else match value.kind with
      | .call base _ arguments =>
        if !Emit.isClassCall base arguments then return none
        else if Emit.isNativeClass arguments then
          return some (← nativeClass (some name) arguments steps.native)
        else
          if ctx.isTop then lift (trace (Emit.declareClass name))
          return some ("let " ++ name ++ " = " ++ Emit.createClassText (← steps.arguments))
      | _ => return none
  | _, _ => return none

/-- A `local` statement. -/
def localStatement (file : File) (id : NodeId) (vars : List Identifier) (init : List Expr)
    (steps : LocalSteps) : Attempt String := do
  match ← localClass file vars init steps with
  | some text => return text
  | none =>
    let ctx ← lift (here file)
    let (declarations, targets) := Emit.localTargets ctx id vars
    if init.isEmpty then return declarations ++ Emit.localWithoutValues targets
    else
      let valueContext := (← get).valueContext
      modify fun g => { g with valueContext := true }
      let outcome ← lift (observe (bind file targets init steps.values))
      modify fun g => { g with valueContext := valueContext }
      return declarations ++ (← settle outcome)

/-- The steps for an assignment. -/
structure AssignmentSteps where
  /-- for the base of the first target, if the target is an index -/
  indexBase : Attempt String
  firstTarget : Attempt String
  /-- for the first value, if it is a native class -/
  native : ClassSteps
  targets : Attempt (List String)
  values : Values

/-- A value that is put one behind the end of a table. -/
def lengthAppend (targets init : List Expr) (steps : AssignmentSteps) :
    Attempt (Option String) := do
  match Emit.appendBase? targets init with
  | some base =>
    lift (trace (Emit.useSystemFunction "table" "insert"))
    let table := Emit.asBase base (← steps.indexBase)
    return some (Emit.callText "l2j.table.insert" [table, ← steps.values.first])
  | none => return none

/-- A native class that is assigned to a target. -/
def assignedClass (file : File) (targets init : List Expr) (steps : AssignmentSteps) :
    Attempt (Option String) := do
  match targets, init with
  | [target], [⟨_, _, .call base _ arguments⟩] =>
    if Emit.isClassCall base arguments && Emit.isNativeClass arguments then
      match target.kind with
      | .name name =>
        let ctx ← lift (here file)
        let registries := (← get).registries
        let className := Name.asBinding (file.annotations.resolve target.id name)
        let lead := if registries.isGlobalRead name &&
            !file.annotations.localReferences.contains target.id && !ctx.isParameter name then
          "globalThis." else ""
        let text ← nativeClass (some className) arguments steps.native
        return some (lead ++ className ++ " = " ++ text)
      | _ =>
        let targetText ← steps.firstTarget
        return some (targetText ++ " = " ++ (← nativeClass none arguments steps.native))
    else return none
  | _, _ => return none

/-- An assignment of values to targets. -/
def assignValues (file : File) (targets init : List Expr) (steps : AssignmentSteps) :
    Attempt String := do
  let texts ← steps.targets
  let ctx ← lift (here file)
  bind file (Emit.assignedTargets ctx targets texts) init steps.values

/-- An assignment. -/
def assignment (file : File) (targets init : List Expr) (steps : AssignmentSteps) :
    Attempt String := do
  match ← lengthAppend targets init steps with
  | some text => return text
  | none =>
    match ← assignedClass file targets init steps with
    | some text => return text
    | none =>
      let valueContext := (← get).valueContext
      modify fun g => { g with valueContext := true }
      let outcome ← lift (observe (assignValues file targets init steps))
      modify fun g => { g with valueContext := valueContext }
      settle outcome

/-! ## Function statements -/

/-- A function statement for a target or for none. -/
def functionStatement (file : File) (target : Option Expr) (isLocal : Bool) (outline : FunctionBody)
    (base : Attempt String) (statements : Step (List String)) : Attempt String := do
  match target with
  | some ⟨id, _, .name name⟩ =>
    let text ← lift (function file (.plain outline) outline statements)
    return text.named (Name.asBinding (file.annotations.resolve id name)) isLocal
      (file.annotations.redeclared.contains id)
  | some ⟨_, _, .member owner indexer identifier⟩ =>
    let convention := Emit.Convention.ofIndexer indexer outline
    let baseText := Emit.asBase owner (← base)
    let text ← lift (function file convention outline statements)
    return text.assigned convention baseText identifier
  | _ => throw .functionDeclaration

/-- A method or an initialised property of a class. -/
def memberValue (file : File) (key : String) (value : Expr) (plain : Attempt String)
    (statements : Step (List String)) : Attempt String := do
  match value.kind with
  | .function outline =>
    let convention := Emit.Convention.ofFirstParameter outline
    let text ← lift (function file convention outline statements)
    return text.member convention key
  | _ => return key ++ " = " ++ (← plain) ++ ";"

/-! ## Control -/

/-- A `return`. In the chunk it exports a value, before which all classes are sealed; a block of the
chunk cannot return. -/
def returnStatement (file : File) (arguments : List Expr) (second : Attempt String)
    (values : Values) : Attempt String := do
  let ctx ← lift (here file)
  if !Emit.allowsReturn ctx then throw .returnOutsideFunction
  else if Emit.isFailure arguments then
    return "throw new Error" ++ Emit.parens (← second)
  else
    let packed ← pack arguments values
    let ctx ← lift (here file)
    if ctx.isTop then
      modify fun g => { g with exported := true }
      return Emit.exportText ctx (← get).classes packed
    else return Emit.returnText packed

/-- A jump: to the end of the innermost loop or nowhere. -/
def gotoStatement (file : File) (label : Identifier) : Attempt String := do
  let ctx ← lift (here file)
  if ctx.continueLabel = some label.name then return "continue"
  else throw (.goto label.name)

/-- A label: at the end of the innermost loop or nowhere. -/
def labelStatement (file : File) (label : Identifier) : Attempt String := do
  let ctx ← lift (here file)
  if ctx.continueLabel = some label.name then return ""
  else throw .label

/-- A clause of a conditional, as its keyword wants it. -/
def clauseText (kind : Raw.ClauseKind) (condition : Option String) (body : String) :
    Attempt String :=
  match kind, condition with
  | .opening, some condition => return Emit.ifText condition body
  | .further, some condition => return Emit.elseIfText condition body
  | .closing, _ => return Emit.elseText body
  | _, none => throw .clause

/-- The header of a loop over numbers. -/
def numericHeader (file : File) (counter : Identifier) (first : Expr) (step : Option Expr)
    (firstStep lastStep stepStep : Attempt String) : Attempt String := do
  let firstText ← firstStep
  let lastText ← lastStep
  let stepText ← stepStep
  let ctx ← lift (here file)
  return Emit.forNumericHeader (ctx.declaredName counter) first step firstText lastText stepText

/-- A loop over numbers. Its bounds are numbers, to which the operators are applied as they are. -/
def forNumeric (header : Attempt String) (body : Step String) : Attempt String := do
  let operatorMode := (← get).operatorMode
  modify fun g => { g with operatorMode := false }
  let outcome ← lift (observe header)
  modify fun g => { g with operatorMode := operatorMode }
  let headerText ← settle outcome
  return headerText ++ " " ++ Emit.braced (← lift body)

/-- What a generic loop runs over: a standard iterator has a counterpart in the support module. -/
def iterated (function : Option String) (arguments : Attempt (List String))
    (plain : Attempt String) : Attempt String := do
  match function with
  | some name => return Emit.callText ("l2j." ++ name) (← arguments)
  | none => plain

/-- A loop over what an iterator gives; over none or several there is no loop. -/
def forGeneric (file : File) (vars : List Identifier) (iterators : List Expr)
    (source : Attempt String) (body : Step String) : Attempt String := do
  if iterators.length = 1 then
    let sourceText ← source
    let ctx ← lift (here file)
    return Emit.forGenericText ctx vars sourceText (← lift body)
  else throw (.iterators iterators.length)

end LuaCompiler.Generator
