import LuaCompiler.Tree

/-!
# Trees without a grammar

The trees of `LuaCompiler.Expr` and its companions have the shapes that a text can have. The trees
here have less to them: a function statement may assign to any expression or to none, a conditional
is any list of clauses with or without conditions. A generator that is handed a tree by someone else
than the parser has to do with these. `Expr.raw` forgets what the grammar knows.

What decides how an expression is generated is never inside the body of a function, and hardly ever
how a call is written, so that it can be asked of the expression's `outline`, which is a tree of the
grammar.
-/

namespace LuaCompiler.Raw

/-- What introduces a clause of a conditional. -/
inductive ClauseKind where
  /-- `if` -/
  | opening
  /-- `elseif` -/
  | further
  /-- `else` -/
  | closing
deriving DecidableEq

mutual

/-- An expression. -/
structure Expr where
  id : NodeId
  span : Span
  kind : ExprKind

/-- An expression without its identity and place. -/
inductive ExprKind where
  | name (name : String)
  | nil
  | boolean (value : Bool)
  | number (value : Binary64.Magnitude) (raw : String)
  /-- a string, by its source text with the delimiters -/
  | string (raw : String)
  | vararg
  | function (function : Function)
  | table (fields : List Field)
  | binary (operator : BinaryOperator) (left right : Expr)
  | logical (operator : LogicalOperator) (left right : Expr)
  | unary (operator : UnaryOperator) (argument : Expr)
  | member (base : Expr) (indexer : Indexer) (identifier : Identifier)
  | index (base index : Expr)
  | call (base : Expr) (style : CallStyle) (arguments : List Expr)

/-- A field of a table constructor. -/
structure Field where
  id : NodeId
  span : Span
  kind : FieldKind

/-- A field without its identity and place. -/
inductive FieldKind where
  /-- `name = value` -/
  | named (key : Identifier) (value : Expr)
  /-- `[key] = value` -/
  | keyed (key value : Expr)
  /-- `value` -/
  | positional (value : Expr)

/-- A function: a value, or what a statement assigns to a target. -/
structure Function where
  id : NodeId
  span : Span
  target : Option Expr
  isLocal : Bool
  parameters : List Identifier
  isVararg : Bool
  body : List Stmt

/-- A statement. -/
structure Stmt where
  id : NodeId
  span : Span
  kind : StmtKind

/-- A statement without its identity and place. -/
inductive StmtKind where
  | local (vars : List Identifier) (init : List Expr)
  | assignment (targets init : List Expr)
  | call (expression : Expr)
  | function (function : Function)
  | return (arguments : List Expr)
  | break
  | goto (label : Identifier)
  | label (label : Identifier)
  | block (body : List Stmt)
  | while (condition : Expr) (body : List Stmt)
  | repeat (body : List Stmt) (condition : Expr)
  | conditional (clauses : List Clause)
  | forNumeric (counter : Identifier) (first last : Expr) (step : Option Expr) (body : List Stmt)
  | forGeneric (vars : List Identifier) (iterators : List Expr) (body : List Stmt)

/-- What is done if a condition holds, or what is done without one. -/
structure Clause where
  id : NodeId
  span : Span
  kind : ClauseKind
  condition : Option Expr
  body : List Stmt

end

/-- Whether an expression is a call. -/
def Expr.isCall (e : Expr) : Bool :=
  match e.kind with
  | .call .. => true
  | _ => false

/-- The label at the end of a block. -/
def endLabel? (body : List Stmt) : Option String :=
  match body.getLast? with
  | some ⟨_, _, .label label⟩ => some label.name
  | _ => none

/-! ## Outlines -/

/-- Parameters of a function, without its body. -/
def Function.outline (function : Function) : FunctionBody :=
  ⟨function.id, function.span, function.parameters, function.isVararg, []⟩

mutual

/-- An expression without the bodies of its functions, its calls all written with parentheses. -/
def Expr.outline : Expr → LuaCompiler.Expr
  | ⟨id, span, kind⟩ => ⟨id, span, kind.outline⟩

/-- The outline of an expression of a kind. -/
def ExprKind.outline : ExprKind → LuaCompiler.ExprKind
  | .name name => .name name
  | .nil => .nil
  | .boolean value => .boolean value
  | .number value raw => .number value raw
  | .string raw => .string raw
  | .vararg => .vararg
  | .function function => .function function.outline
  | .table fields => .table (fieldOutlines fields)
  | .binary operator left right => .binary operator left.outline right.outline
  | .logical operator left right => .logical operator left.outline right.outline
  | .unary operator argument => .unary operator argument.outline
  | .member base indexer identifier => .member base.outline indexer identifier
  | .index base index => .index base.outline index.outline
  | .call base _ arguments => .call base.outline .arguments (outlines arguments)

/-- The outlines of some expressions. -/
def outlines : List Expr → List LuaCompiler.Expr
  | [] => []
  | first :: rest => first.outline :: outlines rest

/-- The outlines of some fields. -/
def fieldOutlines : List Field → List LuaCompiler.Field
  | [] => []
  | ⟨id, span, kind⟩ :: rest => ⟨id, span, kind.outline⟩ :: fieldOutlines rest

/-- The outline of a field. -/
def FieldKind.outline : FieldKind → LuaCompiler.FieldKind
  | .named key value => .named key value.outline
  | .keyed key value => .keyed key.outline value.outline
  | .positional value => .positional value.outline

end

end LuaCompiler.Raw

/-! ## Forgetting the grammar -/

namespace LuaCompiler

mutual

/-- An expression of the grammar. -/
def Expr.raw : Expr → Raw.Expr
  | ⟨id, span, kind⟩ => ⟨id, span, kind.raw⟩

/-- A kind of expression of the grammar. -/
def ExprKind.raw : ExprKind → Raw.ExprKind
  | .name name => .name name
  | .nil => .nil
  | .boolean value => .boolean value
  | .number value raw => .number value raw
  | .string raw => .string raw
  | .vararg => .vararg
  | .function f => .function (f.raw none false)
  | .table fields => .table (rawFields fields)
  | .binary operator left right => .binary operator left.raw right.raw
  | .logical operator left right => .logical operator left.raw right.raw
  | .unary operator argument => .unary operator argument.raw
  | .member base indexer identifier => .member base.raw indexer identifier
  | .index base index => .index base.raw index.raw
  | .call base style arguments => .call base.raw style (rawExprs arguments)

/-- Expressions of the grammar. -/
def rawExprs : List Expr → List Raw.Expr
  | [] => []
  | first :: rest => first.raw :: rawExprs rest

/-- Fields of the grammar. -/
def rawFields : List Field → List Raw.Field
  | [] => []
  | ⟨id, span, kind⟩ :: rest => ⟨id, span, kind.raw⟩ :: rawFields rest

/-- A field of the grammar. -/
def FieldKind.raw : FieldKind → Raw.FieldKind
  | .named key value => .named key value.raw
  | .keyed key value => .keyed key.raw value.raw
  | .positional value => .positional value.raw

/-- A function of the grammar, assigned to a target or to none. -/
def FunctionBody.raw (target : Option Raw.Expr) (isLocal : Bool) : FunctionBody → Raw.Function
  | ⟨id, span, parameters, isVararg, body⟩ =>
    ⟨id, span, target, isLocal, parameters, isVararg, rawBlock body⟩

/-- The target of a function statement of the grammar. -/
def FunctionTarget.raw : FunctionTarget → Raw.Expr
  | .name ⟨id, name, span⟩ => ⟨id, span, .name name⟩
  | .member id span base indexer identifier => ⟨id, span, .member base.raw indexer identifier⟩

/-- Statements of the grammar. -/
def rawBlock : List Stmt → List Raw.Stmt
  | [] => []
  | ⟨id, span, kind⟩ :: rest => ⟨id, span, kind.raw⟩ :: rawBlock rest

/-- A statement of the grammar. -/
def StmtKind.raw : StmtKind → Raw.StmtKind
  | .local vars init => .local vars (rawExprs init)
  | .assignment targets init => .assignment (rawExprs targets) (rawExprs init)
  | .call e => .call e.raw
  | .localFunction ⟨id, name, span⟩ f => .function (f.raw (some ⟨id, span, .name name⟩) true)
  | .function target f => .function (f.raw (some target.raw) false)
  | .return arguments => .return (rawExprs arguments)
  | .break => .break
  | .goto label => .goto label
  | .label label => .label label
  | .block body => .block (rawBlock body)
  | .while condition body => .while condition.raw (rawBlock body)
  | .repeat body condition => .repeat (rawBlock body) condition.raw
  | .conditional ⟨id, span, condition, body⟩ others otherwise =>
    .conditional (⟨id, span, .opening, some condition.raw, rawBlock body⟩ ::
      rawClauses others ++ rawElse otherwise)
  | .forNumeric counter first last step body =>
    .forNumeric counter first.raw last.raw (rawStep step) (rawBlock body)
  | .forGeneric vars iterators body => .forGeneric vars (rawExprs iterators) (rawBlock body)

/-- The step of a loop of the grammar. -/
def rawStep : Option Expr → Option Raw.Expr
  | none => none
  | some step => some step.raw

/-- The clauses of a conditional of the grammar between its first and its last. -/
def rawClauses : List Clause → List Raw.Clause
  | [] => []
  | ⟨id, span, condition, body⟩ :: rest =>
    ⟨id, span, .further, some condition.raw, rawBlock body⟩ :: rawClauses rest

/-- The last clause of a conditional of the grammar. -/
def rawElse : Option ElseClause → List Raw.Clause
  | none => []
  | some ⟨id, span, body⟩ => [⟨id, span, .closing, none, rawBlock body⟩]

end

end LuaCompiler
