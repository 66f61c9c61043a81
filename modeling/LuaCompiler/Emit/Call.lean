import LuaCompiler.CallSite
import LuaCompiler.Emit.Class
import LuaCompiler.Emit.Expression

/-!
# Rules for calls

A call is lowered by its pattern. The rules get the lowerings of the call's parts and run those that
they need, in the order in which the parts are written.
-/

namespace LuaCompiler.Emit

/-- The lowerings of the parts of a call. -/
structure CallParts where
  /-- what is called -/
  callee : Emit String
  /-- what the callee is a member of -/
  owner : Emit String
  arguments : Emit (List String)
  firstArgument : Emit String
  /-- members and parent, if the call is one of `class` with a table -/
  classBody : Emit (List String × Option String)

/-- The pattern of a call at a node: a parameter hides a library of its name. -/
def patternAt (ctx : Context) (site : CallSite) : CallPattern :=
  let pattern := site.pattern (ctx.receiver.map Receiver.name) ctx.options.valueTypes
  if pattern = .systemFunction ∧
      site.base.qualifiedName?.any (fun (library, _) => ctx.isParameter library) then .generic
  else pattern

/-- Whether a callee has to be called through `call`. -/
def needsExplicitCall (ctx : Context) (callee : String) : Bool :=
  Text.contains callee "prototype" || ctx.options.addCallKeys.any (Text.contains callee)

/-- A call of whatever the callee denotes. -/
def genericCall (ctx : Context) (site : CallSite) (parts : CallParts) : Emit String := do
  let callee := asBase site.base (← parts.callee)
  let arguments ← parts.arguments
  return callText (if needsExplicitCall ctx callee then callee ++ ".call" else callee) arguments

/-- A call of a function of the support module. -/
def supportCall (parts : CallParts) (function : String) : Emit String := do
  return callText function (← parts.arguments)

/-- A call of a library function. -/
def libraryCall (parts : CallParts) (library name : String) : Emit String := do
  useSystemFunction library name
  supportCall parts ("l2j." ++ library ++ "." ++ Name.asProperty name)

/-- Whether an owner is a global other than the receiver. -/
def isForeignGlobal (ctx : Context) (registries : Registries) (owner : Expr) : Bool :=
  owner.name?.any fun name =>
    registries.isGlobalRead name && ctx.receiver.map Receiver.name != some name

/-- Whether a method called with the receiver is reached by its path as written: some name in it
stands for a bound function, or the path starts at the receiver. -/
def keepsPath (ctx : Context) (callee owner : Expr) : Bool :=
  CallSite.hasDirectKey callee ||
    owner.rootName?.any fun root => ctx.receiver.map Receiver.name == some root

/-- A call of a member with the receiver of the enclosing method as first argument. -/
def selfCall (ctx : Context) (site : CallSite) (parts : CallParts) (owner : Expr)
    (identifier : Identifier) : Emit String := do
  if isForeignGlobal ctx (← get).registries owner then
    let callee ← parts.callee
    return callText callee (← parts.arguments)
  else
    let base := asBase owner (← parts.owner)
    let path := if keepsPath ctx site.base owner then base else base ++ ".prototype"
    return callText (memberText path identifier ++ ".call") (← parts.arguments)

/-- An error raised where the call stands. -/
def errorText (role : Role) (message : String) : String :=
  let raise := "throw new Error" ++ parens message
  if role = .statement then raise else "(() => " ++ braced (" " ++ raise ++ "; ") ++ ")()"

/-- One of the values left, by its number. -/
def selectText (index : Expr) (text : Emit String) : Emit String := do
  match index.kind with
  | .number value _ => return "varargs" ++ brackets (value.sub .one).text
  | _ => return "varargs" ++ brackets ((← text) ++ " - 1")

/-- A class made where the call stands. -/
def classCall (site : CallSite) (parts : CallParts) : Emit String := do
  if isNativeClass site.arguments then
    let (members, parent) ← parts.classBody
    return classText none parent members
  else return createClassText (← parts.arguments)

/-- A call, lowered by its pattern. -/
def call (ctx : Context) (role : Role) (site : CallSite) (parts : CallParts) : Emit String := do
  match patternAt ctx site with
  | .classFactory => classCall site parts
  | .selectLength => return "varargs.length"
  | .selectIndex =>
    match site.arguments with
    | index :: _ => selectText index parts.firstArgument
    | [] => genericCall ctx site parts
  | .stringFormat => libraryCall parts "string" "format"
  | .error => return errorText role (← parts.firstArgument)
  | .tableInsert | .tableInsertAt => libraryCall parts "table" "insert"
  | .tableConcat =>
    useSystemFunction "table" "concat"
    let arguments ← parts.arguments
    return callText "l2j.table.concat"
      (if arguments.length = 1 then arguments ++ ["\"\""] else arguments)
  | .type => supportCall parts "l2j.luaType"
  | .systemFunction =>
    match site.base.qualifiedName? with
    | some (library, name) => libraryCall parts library name
    | none => genericCall ctx site parts
  | .require => supportCall parts "l2j.require"
  | .selfCall =>
    match site.base.kind with
    | .member owner _ identifier => selfCall ctx site parts owner identifier
    | _ => genericCall ctx site parts
  | .valueType =>
    let name := site.base.name?.getD ""
    return "new " ++ ctx.options.valueTypeNamespace ++ "." ++
      callText name (← parts.arguments)
  | .assert => supportCall parts "l2j.assert"
  | .generic => genericCall ctx site parts

end LuaCompiler.Emit
