import LuaCompiler.Tree

/-!
# Scope events

What happens to the scopes of a program, in the order of its text: scopes are entered and left,
names are declared and referred to. A parser notes these events as it goes; what a name means is
worked out from them afterwards.
-/

namespace LuaCompiler.Scope

/-- One thing that happens to the scopes of a program. -/
inductive Event where
  /-- a block or function body begins; a method's has the receiver `self` -/
  | enter (receiver : Bool)
  /-- the innermost scope ends -/
  | leave
  /-- parameters or loop variables of the scope just entered -/
  | parameters (identifiers : List Identifier)
  /-- a `local` statement ends -/
  | declare (statement : NodeId) (vars : List Identifier) (init : List Expr)
  /-- the name of a `local function`, before its body -/
  | declareFunction (identifier : Identifier)
  /-- a name is read or assigned -/
  | reference (id : NodeId) (name : String)

/-- The name of the implicit receiver of a method. -/
def receiverName : String := "self"

end LuaCompiler.Scope
