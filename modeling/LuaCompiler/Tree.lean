import LuaCompiler.Binary64.Basic
import LuaCompiler.Position

/-!
# The syntax tree

Lua programs as trees. Every node has a span and an identity, a number given in the order in which
nodes are completed, so that facts about nodes can be kept in tables beside the tree. Parentheses
leave no node of their own.
-/

namespace LuaCompiler

/-- The identity of a node within one tree. -/
abbrev NodeId := Nat

/-- A name at a place. -/
structure Identifier where
  id : NodeId
  name : String
  span : Span
deriving DecidableEq

/-- The operators between two values, `and` and `or` aside. -/
inductive BinaryOperator where
  | add | sub | mul | div | floorDiv | mod | pow | concat
  | eq | ne | lt | le | gt | ge
  | bitAnd | bitOr | bitXor | shiftLeft | shiftRight
deriving DecidableEq

namespace BinaryOperator

/-- Whether an operator compares. -/
def isComparison : BinaryOperator → Bool
  | eq | ne | lt | le | gt | ge => true
  | _ => false

end BinaryOperator

/-- The operators that do not always look at their right operand. -/
inductive LogicalOperator where
  | and | or
deriving DecidableEq

/-- The operators before one value. -/
inductive UnaryOperator where
  | not | neg | len | bitNot
deriving DecidableEq

/-- The sign between a value and the name of its member. -/
inductive Indexer where
  | dot | colon
deriving DecidableEq

/-- The ways to write the arguments of a call: in parentheses, as one table, as one string. -/
inductive CallStyle where
  | arguments | table | string
deriving DecidableEq

mutual

/-- An expression. -/
structure Expr where
  id : NodeId
  span : Span
  kind : ExprKind

/-- An expression without its identity and place. -/
inductive ExprKind where
  | name (name : String)
  | nil
  | boolean (value : Bool)
  | number (value : Binary64.Magnitude) (raw : String)
  /-- a string, by its source text with the delimiters -/
  | string (raw : String)
  | vararg
  | function (function : FunctionBody)
  | table (fields : List Field)
  | binary (operator : BinaryOperator) (left right : Expr)
  | logical (operator : LogicalOperator) (left right : Expr)
  | unary (operator : UnaryOperator) (argument : Expr)
  | member (base : Expr) (indexer : Indexer) (identifier : Identifier)
  | index (base index : Expr)
  /-- a call; in the table and string styles the arguments are the one table or string -/
  | call (base : Expr) (style : CallStyle) (arguments : List Expr)

/-- A field of a table constructor. -/
structure Field where
  id : NodeId
  span : Span
  kind : FieldKind

/-- A field without its identity and place. -/
inductive FieldKind where
  /-- `name = value` -/
  | named (key : Identifier) (value : Expr)
  /-- `[key] = value` -/
  | keyed (key value : Expr)
  /-- `value` -/
  | positional (value : Expr)

/-- Parameters and body of a function. -/
structure FunctionBody where
  id : NodeId
  span : Span
  parameters : List Identifier
  isVararg : Bool
  body : List Stmt

/-- What a function statement assigns to: a name, or a member of what a chain of names denotes. -/
inductive FunctionTarget where
  | name (identifier : Identifier)
  | member (id : NodeId) (span : Span) (base : Expr) (indexer : Indexer) (identifier : Identifier)

/-- A statement. -/
structure Stmt where
  id : NodeId
  span : Span
  kind : StmtKind

/-- A statement without its identity and place. -/
inductive StmtKind where
  | local (vars : List Identifier) (init : List Expr)
  | assignment (targets init : List Expr)
  | call (expression : Expr)
  | localFunction (name : Identifier) (function : FunctionBody)
  | function (target : FunctionTarget) (function : FunctionBody)
  | return (arguments : List Expr)
  | break
  | goto (label : Identifier)
  | label (label : Identifier)
  | block (body : List Stmt)
  | while (condition : Expr) (body : List Stmt)
  | repeat (body : List Stmt) (condition : Expr)
  | conditional (first : Clause) (others : List Clause) (otherwise : Option ElseClause)
  | forNumeric (counter : Identifier) (first last : Expr) (step : Option Expr) (body : List Stmt)
  | forGeneric (vars : List Identifier) (iterators : List Expr) (body : List Stmt)

/-- A condition and what is done if it holds. -/
structure Clause where
  id : NodeId
  span : Span
  condition : Expr
  body : List Stmt

/-- What is done if no condition holds. -/
structure ElseClause where
  id : NodeId
  span : Span
  body : List Stmt

end

/-- A whole program. -/
structure Chunk where
  body : List Stmt
  span : Span

namespace Expr

/-- The name that an expression is. -/
def name? (e : Expr) : Option String :=
  match e.kind with
  | .name name => some name
  | _ => none

/-- Whether an expression is a name. -/
def isName (e : Expr) (name : String) : Bool :=
  e.name? == some name

/-- Whether an expression is the rest of the arguments. -/
def isVararg (e : Expr) : Bool :=
  match e.kind with
  | .vararg => true
  | _ => false

/-- Whether an expression is a string literal. -/
def isString (e : Expr) : Bool :=
  match e.kind with
  | .string _ => true
  | _ => false

/-- Whether an expression is a numeral with a value. -/
def isNumber (e : Expr) (expected : Binary64.Magnitude) : Bool :=
  match e.kind with
  | .number value _ => value == expected
  | _ => false

/-- Whether an expression is `nil`. -/
def isNil (e : Expr) : Bool :=
  match e.kind with
  | .nil => true
  | _ => false

/-- Whether an expression is a call. -/
def isCall (e : Expr) : Bool :=
  match e.kind with
  | .call .. => true
  | _ => false

/-- Whether an expression can be assigned to. -/
def isAssignable (e : Expr) : Bool :=
  match e.kind with
  | .name _ | .member .. | .index .. => true
  | _ => false

/-- The two names of a member of a name. -/
def qualifiedName? (e : Expr) : Option (String × String) :=
  match e.kind with
  | .member base _ identifier => base.name?.map fun library => (library, identifier.name)
  | _ => none

mutual

/-- The name at the root of a chain of members and indices. -/
def rootName? : Expr → Option String
  | ⟨_, _, kind⟩ => rootNameOfKind? kind

/-- The root of the chain that an expression of a kind is. -/
def rootNameOfKind? : ExprKind → Option String
  | .name name => some name
  | .member base _ _ => rootName? base
  | .index base _ => rootName? base
  | _ => none

end

end Expr

/-- A name that stands as an expression. -/
def Identifier.toExpr (identifier : Identifier) : Expr :=
  ⟨identifier.id, identifier.span, .name identifier.name⟩

/-- The target of a function statement as an expression. -/
def FunctionTarget.toExpr : FunctionTarget → Expr
  | .name identifier => identifier.toExpr
  | .member id span base indexer identifier => ⟨id, span, .member base indexer identifier⟩

/-- Whether a function statement defines a method with an implicit receiver. -/
def FunctionTarget.isMethod : FunctionTarget → Bool
  | .member _ _ _ .colon _ => true
  | _ => false

/-- The name of the first parameter. -/
def FunctionBody.firstParameter? (function : FunctionBody) : Option String :=
  function.parameters.head?.map Identifier.name

/-- The value of a field. -/
def FieldKind.value : FieldKind → Expr
  | .named _ value => value
  | .keyed _ value => value
  | .positional value => value

/-- Whether a field has its place for a key. -/
def FieldKind.isPositional : FieldKind → Bool
  | .positional _ => true
  | _ => false

/-- What a kind of statement is called. -/
def StmtKind.typeName : StmtKind → String
  | .local .. => "LocalStatement"
  | .assignment .. => "AssignmentStatement"
  | .call _ => "CallStatement"
  | .localFunction .. | .function .. => "FunctionDeclaration"
  | .return _ => "ReturnStatement"
  | .break => "BreakStatement"
  | .goto _ => "GotoStatement"
  | .label _ => "LabelStatement"
  | .block _ => "DoStatement"
  | .while .. => "WhileStatement"
  | .repeat .. => "RepeatStatement"
  | .conditional .. => "IfStatement"
  | .forNumeric .. => "ForNumericStatement"
  | .forGeneric .. => "ForGenericStatement"

end LuaCompiler
