import LuaCompiler.Name
import LuaCompiler.StringLiteral
import LuaCompiler.Tree

/-!
# Call sites

A call is classified by its shape alone: what is called and with which arguments. The patterns are
tried in a fixed order and the first that fits decides how the call is lowered.
-/

namespace LuaCompiler

/-- How calls are lowered. -/
inductive CallPattern where
  /-- `class(...)` -/
  | classFactory
  /-- `select('#', ...)` -/
  | selectLength
  /-- `select(n, ...)` -/
  | selectIndex
  /-- `string.format` with a literal format and values -/
  | stringFormat
  | error
  | tableInsert
  | tableInsertAt
  | tableConcat
  | type
  /-- a function of a library table -/
  | systemFunction
  | require
  /-- a function of a member, called with the receiver of the enclosing method -/
  | selfCall
  /-- the constructor of a host value -/
  | valueType
  | assert
  | generic
deriving DecidableEq

/-- What is called, and with which arguments. -/
structure CallSite where
  base : Expr
  arguments : List Expr

namespace CallSite

/-- Whether a name is called. -/
def calls (site : CallSite) (name : String) : Bool :=
  site.base.isName name

/-- Whether a library function is called: `library.name`, or a local copy of it named
`library_name`. -/
def callsLibrary (site : CallSite) (library name : String) : Bool :=
  match site.base.qualifiedName? with
  | some qualified => qualified == (library, name)
  | none => site.base.isName (library ++ "_" ++ name)

/-- Whether a member of a library table is called by its dotted name. -/
def callsSystemFunction (site : CallSite) : Bool :=
  match site.base.kind with
  | .member base .dot _ => base.name?.any Name.isSystemLibrary
  | _ => false

/-- Whether a dotted member is called with a receiver as first argument. -/
def passesReceiver (site : CallSite) (receiver : String) : Bool :=
  match site.base.kind with
  | .member _ .dot _ => site.arguments.head?.any (·.isName receiver)
  | _ => false

/-- Whether the second of two arguments is the rest of the function's own arguments. -/
def selectsVararg (site : CallSite) : Bool :=
  match site.arguments with
  | [_, rest] => site.calls "select" && rest.isVararg
  | _ => false

/-- The content of a string literal. -/
def literal? (e : Expr) : Option String :=
  match e.kind with
  | .string raw => some (StringLiteral.content raw)
  | _ => none

/-- The pattern of a call, in a method with a receiver or outside any, where some names construct
host values. -/
def pattern (site : CallSite) (receiver : Option String) (valueTypes : List String) :
    CallPattern :=
  let count := site.arguments.length
  let first := site.arguments.head?
  if site.calls "class" && 1 ≤ count then .classFactory
  else if site.selectsVararg then
    if first.bind literal? == some "#" then .selectLength else .selectIndex
  else if site.callsLibrary "string" "format" && 1 < count && first.any Expr.isString then
    .stringFormat
  else if site.calls "error" then .error
  else if site.callsLibrary "table" "insert" && count == 3 then .tableInsertAt
  else if site.callsLibrary "table" "insert" && count == 2 then .tableInsert
  else if site.callsLibrary "table" "concat" && 1 ≤ count then .tableConcat
  else if site.calls "type" then .type
  else if site.callsSystemFunction then .systemFunction
  else if site.calls "require" then .require
  else if receiver.any site.passesReceiver then .selfCall
  else if site.base.name?.any valueTypes.contains then .valueType
  else if site.calls "assert" then .assert
  else .generic

/-- Member names that stand for a function already bound. -/
def directKeys : List String := ["super", "callFunc", "toplevel"]

mutual

/-- Whether some name in a chain of members and indices stands for a bound function. -/
def hasDirectKey : Expr → Bool
  | ⟨_, _, kind⟩ => kindHasDirectKey kind

/-- Whether some name in the chain that an expression of a kind is stands for a bound function. -/
def kindHasDirectKey : ExprKind → Bool
  | .name name => directKeys.contains name
  | .member base _ identifier => directKeys.contains identifier.name || hasDirectKey base
  | .index base _ => hasDirectKey base
  | _ => false

end

end CallSite

end LuaCompiler
