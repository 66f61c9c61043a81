import LuaCompiler.Emit.Call
import LuaCompiler.Generator.State

/-!
# Steps for expressions

The steps that a generator takes at an expression, given the steps for the parts of the expression.
What decides between them is asked of the expression's outline; what depends on the generator's
position is read when it is needed, behind the parts that are generated before.
-/

namespace LuaCompiler.Generator

/-! ## Values and operators -/

/-- The steps for some values: for the first of them, and for all of them as a list. -/
structure Values where
  first : Attempt String
  all : Attempt (List String)

/-- A value in a list. A last one that is the rest of the arguments gives all of them. -/
def listed (value : Expr) (isLast : Bool) (step : Attempt String) : Attempt String :=
  if value.isVararg && isLast then lift (fixed value.span "...varargs") else step

/-- The values of a list as one: nothing, the only one, or an array. -/
def pack (values : List Expr) (steps : Values) : Attempt String := do
  match values with
  | [] => return ""
  | [only] => if only.isVararg then lift (fixed only.span "[...varargs]") else steps.first
  | _ => return Emit.brackets (Emit.commas (← steps.all))

/-- An operand. A type compared with `"table"` is compared with what tables are at run time. -/
def operand (operator : BinaryOperator) (operand : Expr) (step : Attempt String) :
    Attempt String :=
  if operator.isComparison && CallSite.literal? operand == some "table" then
    lift (fixed operand.span "\"object\"")
  else step

/-- An operator between two operands. -/
def binary (file : File) (operator : BinaryOperator) (left right : Expr)
    (leftStep rightStep : Attempt String) : Attempt String := do
  let leftText ← operand operator left leftStep
  let rightText ← operand operator right rightStep
  let ctx ← lift (here file)
  return Emit.binaryText ctx operator (left.isString || right.isString) leftText rightText

/-- A logical operator between two operands, of which the left one may be a conjunction. -/
def logical (file : File) (operator : LogicalOperator) (left right : Expr)
    (conjuncts : Attempt (String × String)) (leftStep rightStep : Attempt String) :
    Attempt String := do
  if operator = .or && Emit.isConjunction left && !Emit.isLogical right then
    let (condition, consequent) ← conjuncts
    return Emit.conditionalText condition consequent (← rightStep)
  else
    let leftText ← leftStep
    let rightText ← rightStep
    let ctx ← lift (here file)
    return Emit.logicalText ctx operator (Emit.isRepeatable left) leftText rightText

/-- An operator before an operand. -/
def unary (file : File) (operator : UnaryOperator) (step : Attempt String) : Attempt String := do
  let text ← step
  let ctx ← lift (here file)
  return Emit.unaryText ctx operator text

/-- A member of a base. -/
def member (file : File) (base : Expr) (identifier : Identifier) (step : Attempt String) :
    Attempt String := do
  let ctx ← lift (here file)
  lift (trace (Emit.useMember ctx base identifier))
  return Emit.memberText (Emit.asBase base (← step)) identifier

/-- A table constructor, given the steps for the values of its fields as a list and for the fields
one by one. -/
def table (fields : List Field) (values : Attempt (List String)) (entries : Attempt (List Emit.Entry)) :
    Attempt String := do
  if fields.isEmpty then return "\x7b\x7d"
  else if fields.all (·.kind.isPositional) then
    let items ← values
    if Emit.spreadsFields fields then
      return "l2j.convertJsArrayToLuaTable" ++ Emit.parens (Emit.brackets (Emit.commas items))
    else return Emit.braced (Emit.commas (Emit.entryTexts 1 (items.map .positional)))
  else return Emit.braced (Emit.commas (Emit.entryTexts 1 (← entries)))

/-! ## Functions -/

/-- Parameters and body of a function, of which some parameters are written and which may bring a
receiver. All that the body changes of the position is put back behind it: a receiver of an enclosing
method only if the function has hidden it. -/
def functionParts (file : File) (parameters shown : List Identifier) (isVararg : Bool)
    (receiver : Option String) (statements : Step (List String)) : Step Emit.FunctionText := do
  modify fun g => { g with functionDepth := g.functionDepth + 1 }
  let depth := (← get).functionDepth
  let outer := (← get).receiver
  let hides := receiver.isNone && outer.any fun r => shown.any fun p => p.name == r.name
  let installed := receiver.isSome || hides
  if installed then
    modify fun g => { g with receiver := receiver.map fun name => ⟨name, depth, false⟩ }
  let valueContext := (← get).valueContext
  modify fun g => { g with valueContext := false }
  let loopLabels := (← get).loopLabels
  modify fun g => { g with loopLabels := [] }
  modify fun g => { g with parameters := parameters.map Identifier.name :: g.parameters }
  let ctx ← here file
  let parameterText := Emit.parameterText ctx shown isVararg
  let body ← block statements
  let captured := receiver.isSome && (← get).receiver.any Receiver.captured
  modify fun g => { g with parameters := g.parameters.tail }
  modify fun g => { g with loopLabels := loopLabels }
  modify fun g => { g with valueContext := valueContext }
  if installed then
    modify fun g => { g with receiver := outer }
  modify fun g => { g with functionDepth := g.functionDepth - 1 }
  let lead := if captured then "let " ++ Emit.receiverAlias ++ " = this;\n" else ""
  return ⟨parameterText, lead ++ body⟩

/-- A function under a convention. -/
def function (file : File) (convention : Emit.Convention) (outline : FunctionBody)
    (statements : Step (List String)) : Step Emit.FunctionText :=
  functionParts file outline.parameters convention.shown outline.isVararg convention.receiver
    statements

/-! ## Classes -/

/-- The steps for a class: for the fields of its table, and for its parent. -/
structure ClassSteps where
  members : Step (List String)
  parent : Attempt String

/-- The members of a class, whose values are kept. -/
def classBody (members : Step (List String)) : Step (List String) := do
  let valueContext := (← get).valueContext
  modify fun g => { g with valueContext := true }
  let texts ← members
  modify fun g => { g with valueContext := valueContext }
  return texts

/-- The parent of a class: what follows the table of its members. -/
def parent (behind : List Expr) (step : Attempt String) : Attempt (Option String) := do
  match behind with
  | [] => return none
  | first :: _ => return some (Emit.asBase first (← step))

/-- The native class that a call of `class` with a table makes. The members are generated before the
parent, which stands behind them. -/
def nativeClass (name : Option String) (arguments : List Expr) (steps : ClassSteps) :
    Attempt String := do
  match arguments with
  | ⟨_, _, .table _⟩ :: behind =>
    let members ← lift (classBody steps.members)
    let parent ← parent behind steps.parent
    return Emit.classText name parent members
  | _ => throw .classDeclaration

/-! ## Calls -/

/-- The steps for the parts of a call. -/
structure CallSteps where
  /-- for what is called -/
  callee : Attempt String
  /-- for what the callee is a member of -/
  owner : Attempt String
  arguments : Attempt (List String)
  firstArgument : Attempt String
  /-- for the class, if the call is one of `class` with a table -/
  native : ClassSteps

/-- A call of whatever the callee denotes. -/
def genericCall (file : File) (site : CallSite) (steps : CallSteps) : Attempt String := do
  let callee := Emit.asBase site.base (← steps.callee)
  let arguments ← steps.arguments
  let ctx ← lift (here file)
  return Emit.callText (if Emit.needsExplicitCall ctx callee then callee ++ ".call" else callee)
    arguments

/-- A call of a function of the support module. -/
def supportCall (steps : CallSteps) (function : String) : Attempt String := do
  return Emit.callText function (← steps.arguments)

/-- A call of a library function. -/
def libraryCall (steps : CallSteps) (library name : String) : Attempt String := do
  lift (trace (Emit.useSystemFunction library name))
  supportCall steps ("l2j." ++ library ++ "." ++ Name.asProperty name)

/-- A call of a member with the receiver of the enclosing method as first argument. -/
def selfCall (file : File) (site : CallSite) (steps : CallSteps) (owner : Expr)
    (identifier : Identifier) : Attempt String := do
  let ctx ← lift (here file)
  let registries := (← get).registries
  if Emit.isForeignGlobal ctx registries owner then
    let callee ← steps.callee
    return Emit.callText callee (← steps.arguments)
  else
    let base := Emit.asBase owner (← steps.owner)
    let path := if Emit.keepsPath ctx site.base owner then base else base ++ ".prototype"
    return Emit.callText (Emit.memberText path identifier ++ ".call") (← steps.arguments)

/-- One of the values left, by its number. -/
def select (index : Expr) (step : Attempt String) : Attempt String := do
  match index.kind with
  | .number value _ => return "varargs" ++ Emit.brackets (value.sub .one).text
  | _ => return "varargs" ++ Emit.brackets ((← step) ++ " - 1")

/-- A class made where the call stands. -/
def classCall (site : CallSite) (steps : CallSteps) : Attempt String := do
  if Emit.isNativeClass site.arguments then nativeClass none site.arguments steps.native
  else return Emit.createClassText (← steps.arguments)

/-- A call, generated by its pattern. -/
def callBy (file : File) (role : Emit.Role) (site : CallSite) (steps : CallSteps) :
    CallPattern → Attempt String
  | .classFactory => classCall site steps
  | .selectLength => return "varargs.length"
  | .selectIndex =>
    match site.arguments with
    | index :: _ => select index steps.firstArgument
    | [] => throw .callExpression
  | .stringFormat => libraryCall steps "string" "format"
  | .error => do return Emit.errorText role (← steps.firstArgument)
  | .tableInsert | .tableInsertAt => libraryCall steps "table" "insert"
  | .tableConcat => do
    lift (trace (Emit.useSystemFunction "table" "concat"))
    let arguments ← steps.arguments
    return Emit.callText "l2j.table.concat"
      (if arguments.length = 1 then arguments ++ ["\"\""] else arguments)
  | .type => supportCall steps "l2j.luaType"
  | .systemFunction =>
    match site.base.qualifiedName? with
    | some (library, name) => libraryCall steps library name
    | none => throw .memberExpression
  | .require => supportCall steps "l2j.require"
  | .selfCall =>
    match site.base.kind with
    | .member owner _ identifier => selfCall file site steps owner identifier
    | _ => genericCall file site steps
  | .valueType => do
    let name := site.base.name?.getD ""
    return "new " ++ file.options.valueTypeNamespace ++ "." ++
      Emit.callText name (← steps.arguments)
  | .assert => supportCall steps "l2j.assert"
  | .generic => genericCall file site steps

/-- A call, in some role. -/
def call (file : File) (role : Emit.Role) (site : CallSite) (steps : CallSteps) :
    Attempt String := do
  let ctx ← lift (here file)
  callBy file role site steps (Emit.patternAt ctx site)

end LuaCompiler.Generator
