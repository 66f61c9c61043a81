import LuaCompiler.Options
import LuaCompiler.Scope.Annotations

/-!
# The context of a node

What a node's lowering depends on besides the node: the file and its options, and where in the tree
the node stands. A context is handed down to the children and never changed by them.
-/

namespace LuaCompiler.Emit

/-- The receiver of a method: its name, and how many functions enclose the method's body. -/
structure Receiver where
  name : String
  depth : Nat
deriving DecidableEq

/-- What is known at a node. -/
structure Context where
  options : Options
  annotations : Scope.Annotations
  /-- the file's name without directories and extension -/
  fileName : String
  /-- whether arithmetic goes through the support module -/
  operatorMode : Bool
  /-- how many blocks enclose the node -/
  blockDepth : Nat := 0
  /-- how many functions enclose the node -/
  functionDepth : Nat := 0
  /-- the receiver of the innermost method, unless a parameter hides it -/
  receiver : Option Receiver := none
  /-- the parameters of all enclosing functions -/
  parameters : List String := []
  /-- whether the node's value is kept, so that `and` and `or` have to give Lua's value -/
  valueContext : Bool := false
  /-- the label at the end of the innermost loop's body -/
  continueLabel : Option String := none

/-- How a nested function refers to the receiver of its method. -/
def receiverAlias : String := "thisArg"

namespace Context

/-- Whether the node stands directly in the chunk. -/
def isTop (ctx : Context) : Bool := ctx.blockDepth == 0

/-- Whether a name is a parameter of an enclosing function. -/
def isParameter (ctx : Context) (name : String) : Bool := ctx.parameters.contains name

/-- Whether a name is a library table that no parameter hides. -/
def isLibrary (ctx : Context) (name : String) : Bool :=
  Name.isSystemLibrary name && !ctx.isParameter name

/-- The name that a declared identifier has in generated code. -/
def declaredName (ctx : Context) (identifier : Identifier) : String :=
  Name.asBinding (ctx.annotations.nameOf identifier)

/-- The context of what a block holds. -/
def inBlock (ctx : Context) : Context := { ctx with blockDepth := ctx.blockDepth + 1 }

/-- The context of what the body of a loop holds. -/
def inLoop (ctx : Context) (body : List Stmt) : Context :=
  let label := match body.getLast? with
    | some ⟨_, _, .label label⟩ => some label.name
    | _ => none
  { ctx.inBlock with continueLabel := label }

/-- The context of a value that is kept. -/
def asValue (ctx : Context) : Context := { ctx with valueContext := true }

/-- The context of numbers that bound a loop. -/
def asBound (ctx : Context) : Context := { ctx with operatorMode := false }

/-- The context of a function's body. A method brings its own receiver; another function hides the
receiver if one of its parameters has the receiver's name. -/
def inFunction (ctx : Context) (parameters shown : List Identifier) (receiver : Option String) :
    Context :=
  let depth := ctx.functionDepth + 1
  let inner := match receiver with
    | some name => some ⟨name, depth⟩
    | none => ctx.receiver.filter fun r => !shown.any fun p => p.name == r.name
  { ctx.inBlock with
    functionDepth := depth
    receiver := inner
    parameters := parameters.map Identifier.name ++ ctx.parameters
    valueContext := false
    continueLabel := none }

end Context

end LuaCompiler.Emit
