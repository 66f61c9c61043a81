import LuaCompiler.Emit.Class
import LuaCompiler.Emit.Expression

/-!
# Rules for declarations and assignments

A declaration and an assignment end alike: targets, an equals sign, and one value or several packed
into an array. A global that is assigned at the top level becomes a class of the support module,
once in a run.
-/

namespace LuaCompiler.Emit

/-- What a declaration or an assignment binds. -/
structure Targets where
  /-- whether the target is known to be local -/
  isLocal : Bool
  /-- what is written before the targets -/
  lead : String
  texts : List String
  /-- the name of the target, if it is one name -/
  single : Option String

/-- The targets as they are written: one as it is, several as a pattern. -/
def Targets.pattern (targets : Targets) : String :=
  match targets.texts with
  | [only] => only
  | texts => brackets (commas texts)

/-- A text with its first search for a position in a string replaced by one that gives all results.
-/
def findAll (text : String) : String :=
  Text.replaceFirst text "l2j.string.find(" "l2j.string.findWithRet("

/-- Whether an expression can give several values. -/
def isMultiValue (e : Expr) : Bool :=
  match e.kind with
  | .call .. | .vararg => true
  | _ => false

/-- Where the last of the values for several targets stands. -/
def valuesRole (init : List Expr) : Role :=
  match init with
  | [only] => if isMultiValue only then .packed else .single
  | _ => .spread

/-- The values for several targets as one; a lone plain value is wrapped, since it cannot be taken
apart. -/
def packValues (init : List Expr) (values : List String) : String :=
  match init with
  | [only] => if isMultiValue only then packText values else brackets (commas values)
  | _ => packText values

/-- Binds several targets or several values. -/
def bindMany (targets : Targets) (packed : String) : String :=
  targets.lead ++ targets.pattern ++ " = " ++ findAll packed

/-- Whether a character belongs to a word. Words in generated text are ASCII. -/
def isWordChar (c : Char) : Bool := c.isAlphanum || c == '_'

/-- Whether a value comes from a namespace of the host or from the making of a metatable. -/
def isExternalValue (value : String) : Bool :=
  Text.startsWith value "CS." || Text.startsWith value "Tweening." ||
    (Text.startsWith value "setmetatable" &&
      !((value.toList.drop "setmetatable".length).head?.any isWordChar))

/-- Whether a value can be made a class. -/
def canBecomeClass (node : Expr) (value name fileName : String) : Bool :=
  let value := Text.trim value
  if isExternalValue value || value == "M" || value == "undefined" then false
  else if name == "M" && value == fileName then false
  else match node.kind with
    | .nil | .boolean _ | .number .. | .string _ | .function _ => false
    | _ => true

/-- Whether an expression is a name that the Lua runtime provides. -/
def isRuntimeValue (e : Expr) : Bool := e.name?.any Name.isRuntime

/-- Whether assigning to a name publishes a global. -/
def publishes (ctx : Context) (registries : Registries) (targets : Targets) (name : String)
    (node : Expr) (value : String) : Bool :=
  !targets.isLocal && (registries.isGlobalRead name || ctx.options.valueTypes.contains name) &&
    !Name.isRuntime name && !isRuntimeValue node && Text.trim value != targets.pattern &&
    !ctx.isParameter name

/-- A value that is a name, as it is bound to a name: a global of the runtime, or of the same name,
is fetched from the global object. -/
def copiedName (ctx : Context) (name source : String) (node : Expr) (value : String) : String :=
  if (Name.isRuntime source || source == name) && !Name.isSystemLibrary source &&
      !ctx.annotations.localReferences.contains node.id && !ctx.isParameter source then
    "globalThis." ++ value
  else value

/-- Binds a name that does not become a class. -/
def bindPlain (ctx : Context) (lead pattern name : String) (node : Expr) (value : String) :
    String :=
  match node.name? with
  | some source => lead ++ pattern ++ " = " ++ copiedName ctx name source node value
  | none =>
    if Text.startsWith (Text.trimStart value) "l2j.string.find(" then
      lead ++ brackets pattern ++ " = " ++ findAll value
    else lead ++ pattern ++ " = " ++ value

/-- Binds a name to one value. -/
def bindName (ctx : Context) (targets : Targets) (name : String) (node : Expr) (value : String) :
    Emit String := do
  let registries := (← get).registries
  let pattern := targets.pattern
  let global := publishes ctx registries targets name node value
  let lead := if global then "globalThis." else targets.lead
  let isFirst := global && !registries.isInitializedGlobal name
  if global then
    modify fun p => { p with registries := p.registries.recordInitializedGlobal name }
  if name == "M" || name == ctx.fileName || (isFirst && !Text.contains value "l2j.require") then
    if ctx.isTop && canBecomeClass node value name ctx.fileName then
      declareClass pattern
      return lead ++ pattern ++ " = " ++ createClassText [value]
    else return lead ++ pattern ++ " = " ++ value
  else return bindPlain ctx lead pattern name node value

/-- Binds targets to the lowered values of some expressions. -/
def bind (ctx : Context) (targets : Targets) (init : List Expr) (values : List String) :
    Emit String := do
  match targets.texts, init, values, targets.single with
  | [_], [node], [value], some name => bindName ctx targets name node value
  | [_], [_], [value], none => return targets.lead ++ targets.pattern ++ " = " ++ value
  | _, _, _, _ => return bindMany targets (packValues init values)

/-- Where the last of the values of a binding stands. -/
def bindRole (targets : Nat) (init : List Expr) : Role :=
  if targets = 1 ∧ init.length = 1 then .single else valuesRole init

/-- The names of a `local` statement, what is written before them, and the declarations that have to
come first: only new names are declared. -/
def localTargets (ctx : Context) (id : NodeId) (vars : List Identifier) : String × Targets :=
  let names := vars.map ctx.declaredName
  let single := match vars with
    | [only] => some only.name
    | _ => none
  if ctx.annotations.duplicated.contains id then
    let fresh := (vars.filter fun v => !ctx.annotations.redeclared.contains v.id).map
      ctx.declaredName
    (if fresh.isEmpty then "" else "let " ++ commas fresh ++ ";\n", ⟨true, "", names, single⟩)
  else ("", ⟨true, "let ", names, single⟩)

/-- A `local` statement without values. -/
def localWithoutValues (targets : Targets) : String :=
  if targets.lead.isEmpty then sequence (targets.texts.map (· ++ " = undefined"))
  else "let " ++ commas targets.texts

/-- Whether a name is that of the module a file defines. -/
def isModuleName (ctx : Context) (name : String) : Bool :=
  name == "M" || name == ctx.fileName

/-- Whether one expression is the same name or path of members as another. -/
def sameReference : Expr → Expr → Bool
  | ⟨_, _, .name a⟩, ⟨_, _, .name b⟩ => a == b
  | ⟨_, _, .member a i x⟩, ⟨_, _, .member b j y⟩ => i == j && x.name == y.name && sameReference a b
  | _, _ => false

/-- Whether an expression is the length of another. -/
def isLengthOf (base e : Expr) : Bool :=
  match e.kind with
  | .unary .len argument => sameReference argument base
  | _ => false

/-- Whether an index is one behind the end of its base. -/
def isAppend (base index : Expr) : Bool :=
  match index.kind with
  | .binary .add left right =>
    (isLengthOf base left && right.isNumber .one) || (isLengthOf base right && left.isNumber .one)
  | _ => false

/-- The base of a target one behind whose end a value is put. -/
def appendBase? (targets init : List Expr) : Option Expr :=
  match targets, init with
  | [⟨_, _, .index base index⟩], [_] => if isAppend base index then some base else none
  | _, _ => none

/-- Whether a single value is a native class. -/
def definesClass (targets init : List Expr) : Bool :=
  match targets, init with
  | [_], [⟨_, _, .call base _ arguments⟩] => isClassCall base arguments && isNativeClass arguments
  | _, _ => false

/-- The lowerings of the parts of an assignment. -/
structure AssignmentParts where
  /-- the base of the first target, if the target is an index -/
  indexBase : Emit String
  firstTarget : Emit String
  firstValue : Emit String
  /-- members and parent of the first value, if it is a native class -/
  classBody : Emit (List String × Option String)
  /-- the targets and the values, which are kept -/
  targets : Emit (List String)
  values : Emit (List String)

/-- A native class assigned to a target. -/
def assignClass (ctx : Context) (target : Expr) (parts : AssignmentParts) : Emit String := do
  match target.kind with
  | .name name =>
    let registries := (← get).registries
    let className := Name.asBinding (ctx.annotations.resolve target.id name)
    let lead := if registries.isGlobalRead name &&
        !ctx.annotations.localReferences.contains target.id && !ctx.isParameter name then
      "globalThis." else ""
    let (members, parent) ← parts.classBody
    return lead ++ className ++ " = " ++ classText (some className) parent members
  | _ =>
    let text ← parts.firstTarget
    let (members, parent) ← parts.classBody
    return text ++ " = " ++ classText none parent members

/-- What an assignment binds, once the targets are lowered. -/
def assignedTargets (ctx : Context) (targets : List Expr) (texts : List String) : Targets :=
  match targets with
  | [only] => ⟨ctx.annotations.localReferences.contains only.id, "", texts, only.name?⟩
  | _ => ⟨false, "", texts, none⟩

/-- An assignment. -/
def assignment (ctx : Context) (targets init : List Expr) (parts : AssignmentParts) :
    Emit String := do
  match appendBase? targets init with
  | some base =>
    useSystemFunction "table" "insert"
    let table := asBase base (← parts.indexBase)
    return callText "l2j.table.insert" [table, ← parts.firstValue]
  | none =>
    match definesClass targets init, targets with
    | true, target :: _ => assignClass ctx target parts
    | _, _ =>
      let texts ← parts.targets
      bind ctx.asValue (assignedTargets ctx targets texts) init (← parts.values)

/-- The lowerings of the parts of a `local` statement. -/
structure LocalParts where
  /-- the arguments of the first value, if it is a call -/
  arguments : Emit (List String)
  /-- members and parent of the first value, if it is a native class -/
  classBody : Emit (List String × Option String)
  /-- the values, which are kept -/
  values : Emit (List String)

/-- The class that a `local` statement of one variable and one value defines, if it does: the
module's own table, a native class, or a class made by the support module. -/
def localClass? (ctx : Context) (v : Identifier) (value : Expr) (parts : LocalParts) :
    Option (Emit String) :=
  let name := ctx.declaredName v
  if ctx.isTop && isModuleName ctx v.name && isEmptyTable value then
    some do
      declareClass name
      return "let " ++ name ++ " = " ++ createClassText ["\"" ++ ctx.fileName ++ "\""]
  else match value.kind with
    | .call base _ arguments =>
      if !isClassCall base arguments then none
      else if isNativeClass arguments then some do
        let (members, parent) ← parts.classBody
        return classText (some name) parent members
      else some do
        if ctx.isTop then declareClass name
        return "let " ++ name ++ " = " ++ createClassText (← parts.arguments)
    | _ => none

/-- A `local` statement that defines no class. -/
def localBinding (ctx : Context) (id : NodeId) (vars : List Identifier) (init : List Expr)
    (parts : LocalParts) : Emit String := do
  let (declarations, targets) := localTargets ctx id vars
  if init.isEmpty then return declarations ++ localWithoutValues targets
  else return declarations ++ (← bind ctx.asValue targets init (← parts.values))

/-- A `local` statement. -/
def localStatement (ctx : Context) (id : NodeId) (vars : List Identifier) (init : List Expr)
    (parts : LocalParts) : Emit String :=
  let binding := localBinding ctx id vars init parts
  match vars, init with
  | [v], [value] => (localClass? ctx v value parts).getD binding
  | _, _ => binding

end LuaCompiler.Emit
