import LuaCompiler.Token
import LuaCompiler.Tree

/-!
# Priorities of operators

Which tokens are operators, and how tightly each binds on its left and on its right. A greater
number binds tighter; an operator that binds looser on its right than on its left groups to the
right.
-/

namespace LuaCompiler

/-- An operator between two expressions. -/
inductive Connective where
  | binary (operator : BinaryOperator)
  | logical (operator : LogicalOperator)
deriving DecidableEq

namespace Connective

/-- The operator that a token is between two expressions. -/
def ofToken? : Token.Kind → Option Connective
  | .keyword .or => some (.logical .or)
  | .keyword .and => some (.logical .and)
  | .symbol .less => some (.binary .lt)
  | .symbol .greater => some (.binary .gt)
  | .symbol .lessEqual => some (.binary .le)
  | .symbol .greaterEqual => some (.binary .ge)
  | .symbol .notEqual => some (.binary .ne)
  | .symbol .equal => some (.binary .eq)
  | .symbol .pipe => some (.binary .bitOr)
  | .symbol .tilde => some (.binary .bitXor)
  | .symbol .ampersand => some (.binary .bitAnd)
  | .symbol .shiftLeft => some (.binary .shiftLeft)
  | .symbol .shiftRight => some (.binary .shiftRight)
  | .symbol .concat => some (.binary .concat)
  | .symbol .plus => some (.binary .add)
  | .symbol .minus => some (.binary .sub)
  | .symbol .star => some (.binary .mul)
  | .symbol .slash => some (.binary .div)
  | .symbol .doubleSlash => some (.binary .floorDiv)
  | .symbol .percent => some (.binary .mod)
  | .symbol .caret => some (.binary .pow)
  | _ => none

/-- How tightly an operator binds what stands on its left. -/
def leftPriority : Connective → Nat
  | .logical .or => 1
  | .logical .and => 2
  | .binary .lt | .binary .gt | .binary .le | .binary .ge | .binary .ne | .binary .eq => 3
  | .binary .bitOr => 4
  | .binary .bitXor => 5
  | .binary .bitAnd => 6
  | .binary .shiftLeft | .binary .shiftRight => 7
  | .binary .concat => 9
  | .binary .add | .binary .sub => 10
  | .binary .mul | .binary .div | .binary .floorDiv | .binary .mod => 11
  | .binary .pow => 14

/-- How tightly an operator binds what stands on its right; concatenation and power group to the
right. -/
def rightPriority : Connective → Nat
  | .binary .concat => 8
  | .binary .pow => 13
  | connective => connective.leftPriority

/-- The expression that an operator makes of two. -/
def apply : Connective → Expr → Expr → ExprKind
  | .binary operator, left, right => .binary operator left right
  | .logical operator, left, right => .logical operator left right

end Connective

namespace UnaryOperator

/-- The operator that a token is before an expression. -/
def ofToken? : Token.Kind → Option UnaryOperator
  | .keyword .not => some .not
  | .symbol .minus => some .neg
  | .symbol .hash => some .len
  | .symbol .tilde => some .bitNot
  | _ => none

/-- How tightly every such operator binds. -/
def priority : Nat := 12

end UnaryOperator

end LuaCompiler
