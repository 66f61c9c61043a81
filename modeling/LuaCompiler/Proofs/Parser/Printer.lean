import LuaCompiler.Parser.Priority
import LuaCompiler.Proofs.Token.Spaced

/-!
# Printing trees

The tokens of a tree, in the order in which they are written. Each statement is closed by a
semicolon, and an operand stands in parentheses only where it would be grouped otherwise without
them: by the **levels** of Lua's operators, from `or`, the loosest, to `^`, the tightest.

* `Expr.tokens`, `stmtTokens`: the tokens of a tree.
* `Expr.Shaped`, `BlockShaped`: the trees that the grammar knows. A colon stands only before the
  member that is called, a `return` only at the end of a block, and leaves are spelled right.
* `Expr.bare`, `blockBare`: a tree without the identities and places of its nodes.
-/

namespace LuaCompiler

open Token (Kind)

/-! ## Levels of operators -/

namespace Connective

/-- The level of an operator between two operands; a looser operator has a lower one. -/
def level : Connective → Nat
  | .logical .or => 1
  | .logical .and => 2
  | .binary .lt | .binary .gt | .binary .le | .binary .ge | .binary .ne | .binary .eq => 3
  | .binary .bitOr => 4
  | .binary .bitXor => 5
  | .binary .bitAnd => 6
  | .binary .shiftLeft | .binary .shiftRight => 7
  | .binary .concat => 8
  | .binary .add | .binary .sub => 9
  | .binary .mul | .binary .div | .binary .floorDiv | .binary .mod => 10
  | .binary .pow => 12

/-- Whether an operator groups to the right. -/
def groupsRight : Connective → Bool
  | .binary .concat | .binary .pow => true
  | _ => false

/-- How an operator between two operands is written. -/
def sign : Connective → Kind
  | .logical .or => .keyword .or
  | .logical .and => .keyword .and
  | .binary .lt => .symbol .less
  | .binary .gt => .symbol .greater
  | .binary .le => .symbol .lessEqual
  | .binary .ge => .symbol .greaterEqual
  | .binary .ne => .symbol .notEqual
  | .binary .eq => .symbol .equal
  | .binary .bitOr => .symbol .pipe
  | .binary .bitXor => .symbol .tilde
  | .binary .bitAnd => .symbol .ampersand
  | .binary .shiftLeft => .symbol .shiftLeft
  | .binary .shiftRight => .symbol .shiftRight
  | .binary .concat => .symbol .concat
  | .binary .add => .symbol .plus
  | .binary .sub => .symbol .minus
  | .binary .mul => .symbol .star
  | .binary .div => .symbol .slash
  | .binary .floorDiv => .symbol .doubleSlash
  | .binary .mod => .symbol .percent
  | .binary .pow => .symbol .caret

end Connective

namespace UnaryOperator

/-- The level of every operator before one operand: between `*` and `^`. -/
def level : Nat := 11

/-- How an operator before one operand is written. -/
def sign : UnaryOperator → Kind
  | .not => .keyword .not
  | .neg => .symbol .minus
  | .len => .symbol .hash
  | .bitNot => .symbol .tilde

end UnaryOperator

namespace ExprKind

/-- The operator between the two operands of an expression. -/
def connective? : ExprKind → Option Connective
  | .binary operator .. => some (.binary operator)
  | .logical operator .. => some (.logical operator)
  | _ => none

/-- Whether an expression is an operator before one operand. -/
def isUnary : ExprKind → Bool
  | .unary .. => true
  | _ => false

/-- The level of an expression, which is above all operators if it has none. -/
def level (kind : ExprKind) : Nat :=
  match kind.connective? with
  | some connective => connective.level
  | none => if kind.isUnary then UnaryOperator.level else 13

/-- Whether an expression can be called and have members without parentheses. -/
def isSuffixed : ExprKind → Bool
  | .name _ | .member .. | .index .. | .call .. => true
  | _ => false

end ExprKind

namespace Connective

/-- Whether the left operand of an operator needs parentheses. -/
def enclosesLeft (c : Connective) (left : ExprKind) : Bool :=
  left.level < c.level || (left.level == c.level && c.groupsRight)

/-- Whether the right operand of an operator needs parentheses. An operator before its operand needs
none there, however loose it is. -/
def enclosesRight (c : Connective) (right : ExprKind) : Bool :=
  !right.isUnary && (right.level < c.level || (right.level == c.level && !c.groupsRight))

end Connective

/-! ## The tokens of a tree -/

/-- Tokens in parentheses. -/
def enclosed (kinds : List Kind) : List Kind :=
  .symbol .leftParen :: (kinds ++ [.symbol .rightParen])

/-- Tokens in parentheses, if they need them. -/
def encloseIf (needed : Bool) (kinds : List Kind) : List Kind :=
  if needed then enclosed kinds else kinds

/-- Items with a comma between each two. -/
def commaSeparated : List (List Kind) → List Kind
  | [] => []
  | [kinds] => kinds
  | kinds :: rest => kinds ++ .symbol .comma :: commaSeparated rest

/-- The sign before a member. -/
def Indexer.sign : Indexer → Kind
  | .dot => .symbol .dot
  | .colon => .symbol .colon

/-- The arguments of a call, as a style writes them. -/
def CallStyle.write (style : CallStyle) (arguments : List (List Kind)) : List Kind :=
  match style with
  | .arguments => enclosed (commaSeparated arguments)
  | .table | .string => commaSeparated arguments

/-- Names with a comma between each two. -/
def nameTokens (names : List Identifier) : List Kind :=
  commaSeparated (names.map fun n => [.name n.name])

/-- The parameters of a function; the rest of the arguments comes last. -/
def parameterTokens (parameters : List Identifier) (isVararg : Bool) : List Kind :=
  commaSeparated ((parameters.map fun n => [Kind.name n.name]) ++
    if isVararg then [[.symbol .ellipsis]] else [])

/-- The values behind the equals sign of a `local` statement, if there are any. -/
def initTokens (values : List (List Kind)) : List Kind :=
  if values.isEmpty then [] else .symbol .assign :: commaSeparated values

mutual

/-- The tokens of an expression. -/
def Expr.tokens : Expr → List Kind
  | ⟨_, _, kind⟩ => kind.tokens

def ExprKind.tokens : ExprKind → List Kind
  | .name name => [.name name]
  | .nil => [.keyword .nil]
  | .boolean true => [.keyword .true]
  | .boolean false => [.keyword .false]
  | .number value raw => [.number value raw]
  | .string raw => [.string raw]
  | .vararg => [.symbol .ellipsis]
  | .function f => .keyword .function :: f.tokens
  | .table fields =>
    .symbol .leftBrace :: (commaSeparated (fieldTokens fields) ++ [.symbol .rightBrace])
  | .binary operator left right =>
    encloseIf ((Connective.binary operator).enclosesLeft left.kind) left.tokens ++
      (Connective.binary operator).sign ::
        encloseIf ((Connective.binary operator).enclosesRight right.kind) right.tokens
  | .logical operator left right =>
    encloseIf ((Connective.logical operator).enclosesLeft left.kind) left.tokens ++
      (Connective.logical operator).sign ::
        encloseIf ((Connective.logical operator).enclosesRight right.kind) right.tokens
  | .unary operator argument =>
    operator.sign :: encloseIf (argument.kind.level < UnaryOperator.level) argument.tokens
  | .member base indexer identifier =>
    encloseIf (!base.kind.isSuffixed) base.tokens ++ [indexer.sign, .name identifier.name]
  | .index base index =>
    encloseIf (!base.kind.isSuffixed) base.tokens ++
      .symbol .leftBracket :: (index.tokens ++ [.symbol .rightBracket])
  | .call base style arguments =>
    encloseIf (!base.kind.isSuffixed) base.tokens ++ style.write (exprTokens arguments)

/-- The tokens of each of some expressions. -/
def exprTokens : List Expr → List (List Kind)
  | [] => []
  | first :: rest => first.tokens :: exprTokens rest

def fieldTokens : List Field → List (List Kind)
  | [] => []
  | ⟨_, _, kind⟩ :: rest => kind.tokens :: fieldTokens rest

def FieldKind.tokens : FieldKind → List Kind
  | .named key value => .name key.name :: .symbol .assign :: value.tokens
  | .keyed key value =>
    .symbol .leftBracket :: (key.tokens ++ .symbol .rightBracket :: .symbol .assign :: value.tokens)
  | .positional value => value.tokens

def FunctionBody.tokens : FunctionBody → List Kind
  | ⟨_, _, parameters, isVararg, body⟩ =>
    enclosed (parameterTokens parameters isVararg) ++ (stmtTokens body ++ [.keyword .end])

/-- The tokens of what a function statement assigns to. -/
def FunctionTarget.tokens : FunctionTarget → List Kind
  | .name identifier => [.name identifier.name]
  | .member _ _ base indexer identifier => base.tokens ++ [indexer.sign, .name identifier.name]

/-- The tokens of a block: those of its statements, each before a semicolon. -/
def stmtTokens : List Stmt → List Kind
  | [] => []
  | ⟨_, _, kind⟩ :: rest => kind.tokens ++ .symbol .semicolon :: stmtTokens rest

def StmtKind.tokens : StmtKind → List Kind
  | .local vars init => .keyword .local :: (nameTokens vars ++ initTokens (exprTokens init))
  | .assignment targets init =>
    commaSeparated (exprTokens targets) ++ .symbol .assign :: commaSeparated (exprTokens init)
  | .call expression => expression.tokens
  | .localFunction name f => .keyword .local :: .keyword .function :: .name name.name :: f.tokens
  | .function target f => .keyword .function :: (target.tokens ++ f.tokens)
  | .return arguments => .keyword .return :: commaSeparated (exprTokens arguments)
  | .break => [.keyword .break]
  | .goto label => [.keyword .goto, .name label.name]
  | .label label => [.symbol .doubleColon, .name label.name, .symbol .doubleColon]
  | .block body => .keyword .do :: (stmtTokens body ++ [.keyword .end])
  | .while condition body =>
    .keyword .while :: (condition.tokens ++ .keyword .do :: (stmtTokens body ++ [.keyword .end]))
  | .repeat body condition =>
    .keyword .repeat :: (stmtTokens body ++ .keyword .until :: condition.tokens)
  | .conditional first others otherwise =>
    .keyword .if :: (first.tokens ++ (clauseTokens others ++ (elseTokens otherwise ++
      [.keyword .end])))
  | .forNumeric counter first last step body =>
    .keyword .for :: .name counter.name :: .symbol .assign :: (first.tokens ++ .symbol .comma ::
      (last.tokens ++ (stepTokens step ++ .keyword .do :: (stmtTokens body ++ [.keyword .end]))))
  | .forGeneric vars iterators body =>
    .keyword .for :: (nameTokens vars ++ .keyword .in :: (commaSeparated (exprTokens iterators) ++
      .keyword .do :: (stmtTokens body ++ [.keyword .end])))

def stepTokens : Option Expr → List Kind
  | none => []
  | some step => .symbol .comma :: step.tokens

def Clause.tokens : Clause → List Kind
  | ⟨_, _, condition, body⟩ => condition.tokens ++ .keyword .then :: stmtTokens body

def clauseTokens : List Clause → List Kind
  | [] => []
  | first :: rest => .keyword .elseIf :: (first.tokens ++ clauseTokens rest)

def elseTokens : Option ElseClause → List Kind
  | none => []
  | some ⟨_, _, body⟩ => .keyword .else :: stmtTokens body

end

/-- The canonical text of a program: its tokens with a blank between each two. -/
def Chunk.print (chunk : Chunk) : String :=
  spaced (stmtTokens chunk.body)

/-! ## The trees of the grammar -/

namespace Expr

/-- Whether an expression is a table constructor. -/
def isTable (e : Expr) : Bool :=
  match e.kind with
  | .table _ => true
  | _ => false

mutual

/-- Whether an expression is a chain of names parted by points. -/
def isChain : Expr → Bool
  | ⟨_, _, kind⟩ => isChainKind kind

/-- Whether an expression of a kind is a chain of names. -/
def isChainKind : ExprKind → Bool
  | .name _ => true
  | .member base .dot _ => isChain base
  | _ => false

end

end Expr

/-- Whether a style can write some arguments: every list in parentheses, else one table or string.
-/
def CallStyle.fits : CallStyle → List Expr → Bool
  | .arguments, _ => true
  | .table, [argument] => argument.isTable
  | .string, [argument] => argument.isString
  | _, _ => false

/-- Whether a statement is a `return`. -/
def StmtKind.isReturn : StmtKind → Bool
  | .return _ => true
  | _ => false

mutual

/-- An expression of the grammar, which is called or not. -/
def Expr.Shaped (called : Bool) : Expr → Prop
  | ⟨_, _, kind⟩ => kind.Shaped called

def ExprKind.Shaped (called : Bool) : ExprKind → Prop
  | .name name => Name.isValid name = true
  | .nil | .boolean _ | .vararg => True
  | .number value raw => (Kind.number value raw).isSpelled = true
  | .string raw => (Kind.string raw).isSpelled = true
  | .function f => f.Shaped
  | .table fields => FieldsShaped fields
  | .binary _ left right => left.Shaped false ∧ right.Shaped false
  | .logical _ left right => left.Shaped false ∧ right.Shaped false
  | .unary _ argument => argument.Shaped false
  | .member base indexer identifier =>
    base.Shaped false ∧ (indexer = .colon → called = true) ∧ Name.isValid identifier.name = true
  | .index base index => base.Shaped false ∧ index.Shaped false
  | .call base style arguments =>
    base.Shaped true ∧ style.fits arguments = true ∧ ExprsShaped arguments

def ExprsShaped : List Expr → Prop
  | [] => True
  | first :: rest => first.Shaped false ∧ ExprsShaped rest

def FieldsShaped : List Field → Prop
  | [] => True
  | ⟨_, _, kind⟩ :: rest => kind.Shaped ∧ FieldsShaped rest

def FieldKind.Shaped : FieldKind → Prop
  | .named key value => Name.isValid key.name = true ∧ value.Shaped false
  | .keyed key value => key.Shaped false ∧ value.Shaped false
  | .positional value => value.Shaped false

def FunctionBody.Shaped : FunctionBody → Prop
  | ⟨_, _, parameters, _, body⟩ =>
    (∀ n ∈ parameters, Name.isValid n.name = true) ∧ BlockShaped body

/-- A name, or members of a name of which only the last may be a method. -/
def FunctionTarget.Shaped : FunctionTarget → Prop
  | .name identifier => Name.isValid identifier.name = true
  | .member _ _ base _ identifier =>
    base.isChain = true ∧ base.Shaped false ∧ Name.isValid identifier.name = true

/-- A block of the grammar: `return` comes last. -/
def BlockShaped : List Stmt → Prop
  | [] => True
  | ⟨_, _, kind⟩ :: rest => kind.Shaped ∧ (kind.isReturn = true → rest = []) ∧ BlockShaped rest

def StmtKind.Shaped : StmtKind → Prop
  | .local vars init =>
    vars ≠ [] ∧ (∀ n ∈ vars, Name.isValid n.name = true) ∧ ExprsShaped init
  | .assignment targets init =>
    targets ≠ [] ∧ (∀ target ∈ targets, target.isAssignable = true) ∧ ExprsShaped targets ∧
      init ≠ [] ∧ ExprsShaped init
  | .call expression => expression.isCall = true ∧ expression.Shaped false
  | .localFunction name f => Name.isValid name.name = true ∧ f.Shaped
  | .function target f => target.Shaped ∧ f.Shaped
  | .return arguments => ExprsShaped arguments
  | .break => True
  | .goto label | .label label => Name.isValid label.name = true
  | .block body => BlockShaped body
  | .while condition body => condition.Shaped false ∧ BlockShaped body
  | .repeat body condition => BlockShaped body ∧ condition.Shaped false
  | .conditional first others otherwise =>
    first.Shaped ∧ ClausesShaped others ∧ ElseShaped otherwise
  | .forNumeric counter first last step body =>
    Name.isValid counter.name = true ∧ first.Shaped false ∧ last.Shaped false ∧ StepShaped step ∧
      BlockShaped body
  | .forGeneric vars iterators body =>
    vars ≠ [] ∧ (∀ n ∈ vars, Name.isValid n.name = true) ∧ iterators ≠ [] ∧ ExprsShaped iterators ∧
      BlockShaped body

def StepShaped : Option Expr → Prop
  | none => True
  | some step => step.Shaped false

def Clause.Shaped : Clause → Prop
  | ⟨_, _, condition, body⟩ => condition.Shaped false ∧ BlockShaped body

def ClausesShaped : List Clause → Prop
  | [] => True
  | first :: rest => first.Shaped ∧ ClausesShaped rest

def ElseShaped : Option ElseClause → Prop
  | none => True
  | some ⟨_, _, body⟩ => BlockShaped body

end

/-! ## Printed tokens are spelled right -/

def Spells (kinds : List Kind) : Prop := ∀ k ∈ kinds, k.isSpelled = true

namespace Spells

variable {k : Kind} {kinds more : List Kind}

@[simp]
theorem nil : Spells [] := fun _ h => (nomatch h)

@[simp]
theorem cons_iff : Spells (k :: kinds) ↔ k.isSpelled = true ∧ Spells kinds :=
  List.forall_mem_cons

@[simp]
theorem append_iff : Spells (kinds ++ more) ↔ Spells kinds ∧ Spells more :=
  List.forall_mem_append

attribute [simp] Keyword.isSpelled Symbol.isSpelled

@[simp]
theorem enclosed_iff : Spells (enclosed kinds) ↔ Spells kinds := by
  simp [enclosed]

@[simp]
theorem encloseIf_iff {needed : Bool} : Spells (encloseIf needed kinds) ↔ Spells kinds := by
  cases needed <;> simp [encloseIf]

/-- A list is spelled right when its items are. -/
theorem commaSeparated {items : List (List Kind)} (h : ∀ kinds ∈ items, Spells kinds) :
    Spells (commaSeparated items) := by
  induction items with
  | nil => exact nil
  | cons kinds items ih =>
    have hfirst := h kinds (List.mem_cons_self ..)
    have ih := ih fun kinds hkinds => h kinds (List.mem_cons_of_mem _ hkinds)
    cases items with
    | nil => exact hfirst
    | cons second items => exact append_iff.2 ⟨hfirst, cons_iff.2 ⟨Symbol.isSpelled _, ih⟩⟩

theorem names {names : List Identifier} (h : ∀ n ∈ names, Name.isValid n.name = true) :
    ∀ kinds ∈ names.map fun n => [Kind.name n.name], Spells kinds := by
  intro kinds hkinds
  obtain ⟨n, hn, rfl⟩ := List.mem_map.1 hkinds
  simp [Name.isSpelled (h n hn)]

@[simp]
theorem connective (c : Connective) : c.sign.isSpelled = true := by
  cases c with
  | binary operator => cases operator <;> simp [Connective.sign]
  | logical operator => cases operator <;> simp [Connective.sign]

@[simp]
theorem unary (operator : UnaryOperator) : operator.sign.isSpelled = true := by
  cases operator <;> simp [UnaryOperator.sign]

@[simp]
theorem indexer (i : Indexer) : i.sign.isSpelled = true := by
  cases i <;> simp [Indexer.sign]

/-- The arguments of a call are spelled right when each is, in every style. -/
theorem write {style : CallStyle} {arguments : List (List Kind)}
    (h : ∀ kinds ∈ arguments, Spells kinds) : Spells (style.write arguments) := by
  cases style <;> simp [CallStyle.write, commaSeparated h]

theorem init {values : List (List Kind)} (h : ∀ kinds ∈ values, Spells kinds) :
    Spells (initTokens values) := by
  unfold initTokens
  split
  · exact nil
  · simp [commaSeparated h]

/-- Parameters are spelled right when they are identifiers. -/
theorem parameters {ps : List Identifier} {isVararg : Bool}
    (h : ∀ n ∈ ps, Name.isValid n.name = true) : Spells (parameterTokens ps isVararg) := by
  apply commaSeparated
  intro kinds hkinds
  rcases List.mem_append.1 hkinds with hkinds | hkinds
  · exact names h kinds hkinds
  · cases isVararg with
    | true =>
      obtain rfl := List.mem_singleton.1 hkinds
      simp
    | false => cases hkinds

end Spells

mutual

/-- **The printed tokens of an expression are spelled right.** -/
theorem Expr.spells : ∀ (e : Expr) {called : Bool}, e.Shaped called → Spells e.tokens
  | ⟨_, _, kind⟩, _, h => kind.spells h

/-- A node that is shaped as the parser makes them is spelled right. -/
theorem ExprKind.spells : ∀ (kind : ExprKind) {called : Bool}, kind.Shaped called →
    Spells kind.tokens
  | .name _, _, h => by simp [ExprKind.tokens, Name.isSpelled h]
  | .nil, _, _ | .boolean true, _, _ | .boolean false, _, _ | .vararg, _, _ => by
    simp [ExprKind.tokens]
  | .number .., _, h => Spells.cons_iff.2 ⟨h, Spells.nil⟩
  | .string _, _, h => Spells.cons_iff.2 ⟨h, Spells.nil⟩
  | .function f, _, h => by simp [ExprKind.tokens, f.spells h]
  | .table fields, _, h => by
    simp [ExprKind.tokens, Spells.commaSeparated (spells_fields fields h)]
  | .binary _ left right, _, h => by simp [ExprKind.tokens, left.spells h.1, right.spells h.2]
  | .logical _ left right, _, h => by simp [ExprKind.tokens, left.spells h.1, right.spells h.2]
  | .unary _ argument, _, h => by simp [ExprKind.tokens, argument.spells h]
  | .member base _ _, _, h => by
    simp [ExprKind.tokens, base.spells h.1, Name.isSpelled h.2.2]
  | .index base index, _, h => by simp [ExprKind.tokens, base.spells h.1, index.spells h.2]
  | .call base _ arguments, _, h => by
    simp [ExprKind.tokens, base.spells h.1, Spells.write (spells_exprs arguments h.2.2)]

theorem spells_exprs : ∀ es : List Expr, ExprsShaped es → ∀ kinds ∈ exprTokens es, Spells kinds
  | [], _, _, hkinds => (nomatch hkinds)
  | first :: rest, h, kinds, hkinds => by
    rcases List.mem_cons.1 hkinds with heq | hkinds
    · rw [heq]
      exact first.spells h.1
    · exact spells_exprs rest h.2 kinds hkinds

theorem spells_fields : ∀ fields : List Field, FieldsShaped fields →
    ∀ kinds ∈ fieldTokens fields, Spells kinds
  | [], _, _, hkinds => (nomatch hkinds)
  | ⟨_, _, kind⟩ :: rest, h, kinds, hkinds => by
    rcases List.mem_cons.1 hkinds with heq | hkinds
    · rw [heq]
      exact kind.spells h.1
    · exact spells_fields rest h.2 kinds hkinds

theorem FieldKind.spells : ∀ kind : FieldKind, kind.Shaped → Spells kind.tokens
  | .named _ value, h => by simp [FieldKind.tokens, Name.isSpelled h.1, value.spells h.2]
  | .keyed key value, h => by simp [FieldKind.tokens, key.spells h.1, value.spells h.2]
  | .positional value, h => value.spells h

theorem FunctionBody.spells : ∀ f : FunctionBody, f.Shaped → Spells f.tokens
  | ⟨_, _, _, _, body⟩, h => by
    simp [FunctionBody.tokens, Spells.parameters h.1, spells_block body h.2]

theorem FunctionTarget.spells : ∀ target : FunctionTarget, target.Shaped → Spells target.tokens
  | .name _, h => by simp [FunctionTarget.tokens, Name.isSpelled h]
  | .member _ _ base _ _, h => by
    simp [FunctionTarget.tokens, base.spells h.2.1, Name.isSpelled h.2.2]

/-- So is a block. -/
theorem spells_block : ∀ body : List Stmt, BlockShaped body → Spells (stmtTokens body)
  | [], _ => Spells.nil
  | ⟨_, _, kind⟩ :: rest, h => by
    simp [stmtTokens, kind.spells h.1, spells_block rest h.2.2]

/-- So is a statement of any kind. -/
theorem StmtKind.spells : ∀ kind : StmtKind, kind.Shaped → Spells kind.tokens
  | .local _ init, h => by
    simp [StmtKind.tokens, nameTokens, Spells.commaSeparated (Spells.names h.2.1),
      Spells.init (spells_exprs init h.2.2)]
  | .assignment targets init, h => by
    simp [StmtKind.tokens, Spells.commaSeparated (spells_exprs targets h.2.2.1),
      Spells.commaSeparated (spells_exprs init h.2.2.2.2)]
  | .call expression, h => expression.spells h.2
  | .localFunction _ f, h => by simp [StmtKind.tokens, Name.isSpelled h.1, f.spells h.2]
  | .function target f, h => by simp [StmtKind.tokens, target.spells h.1, f.spells h.2]
  | .return arguments, h => by
    simp [StmtKind.tokens, Spells.commaSeparated (spells_exprs arguments h)]
  | .break, _ => by simp [StmtKind.tokens]
  | .goto _, h => by simp [StmtKind.tokens, Name.isSpelled h]
  | .label _, h => by simp [StmtKind.tokens, Name.isSpelled h]
  | .block body, h => by simp [StmtKind.tokens, spells_block body h]
  | .while condition body, h => by
    simp [StmtKind.tokens, condition.spells h.1, spells_block body h.2]
  | .repeat body condition, h => by
    simp [StmtKind.tokens, spells_block body h.1, condition.spells h.2]
  | .conditional first others otherwise, h => by
    simp [StmtKind.tokens, first.spells h.1, spells_clauses others h.2.1,
      spells_else otherwise h.2.2]
  | .forNumeric _ first last step body, h => by
    simp [StmtKind.tokens, Name.isSpelled h.1, first.spells h.2.1, last.spells h.2.2.1,
      spells_step step h.2.2.2.1, spells_block body h.2.2.2.2]
  | .forGeneric _ iterators body, h => by
    simp [StmtKind.tokens, nameTokens, Spells.commaSeparated (Spells.names h.2.1),
      Spells.commaSeparated (spells_exprs iterators h.2.2.2.1), spells_block body h.2.2.2.2]

theorem spells_step : ∀ step : Option Expr, StepShaped step → Spells (stepTokens step)
  | none, _ => Spells.nil
  | some step, h => by simp [stepTokens, Expr.spells step h]

theorem Clause.spells : ∀ c : Clause, c.Shaped → Spells c.tokens
  | ⟨_, _, condition, body⟩, h => by
    simp [Clause.tokens, condition.spells h.1, spells_block body h.2]

theorem spells_clauses : ∀ clauses : List Clause, ClausesShaped clauses →
    Spells (clauseTokens clauses)
  | [], _ => Spells.nil
  | first :: rest, h => by simp [clauseTokens, first.spells h.1, spells_clauses rest h.2]

theorem spells_else : ∀ otherwise : Option ElseClause, ElseShaped otherwise →
    Spells (elseTokens otherwise)
  | none, _ => Spells.nil
  | some ⟨_, _, body⟩, h => by simp [elseTokens, spells_block body h]

end

/-! ## Trees without identities and places -/

/-- A name without its identity and place. -/
def Identifier.bare (identifier : Identifier) : Identifier := ⟨0, identifier.name, default⟩

mutual

/-- An expression without identities and places. -/
def Expr.bare : Expr → Expr
  | ⟨_, _, kind⟩ => ⟨0, default, kind.bare⟩

def ExprKind.bare : ExprKind → ExprKind
  | .function f => .function f.bare
  | .table fields => .table (fieldsBare fields)
  | .binary operator left right => .binary operator left.bare right.bare
  | .logical operator left right => .logical operator left.bare right.bare
  | .unary operator argument => .unary operator argument.bare
  | .member base indexer identifier => .member base.bare indexer identifier.bare
  | .index base index => .index base.bare index.bare
  | .call base style arguments => .call base.bare style (exprsBare arguments)
  | kind => kind

def exprsBare : List Expr → List Expr
  | [] => []
  | first :: rest => first.bare :: exprsBare rest

def fieldsBare : List Field → List Field
  | [] => []
  | ⟨_, _, kind⟩ :: rest => ⟨0, default, kind.bare⟩ :: fieldsBare rest

def FieldKind.bare : FieldKind → FieldKind
  | .named key value => .named key.bare value.bare
  | .keyed key value => .keyed key.bare value.bare
  | .positional value => .positional value.bare

def FunctionBody.bare : FunctionBody → FunctionBody
  | ⟨_, _, parameters, isVararg, body⟩ =>
    ⟨0, default, parameters.map Identifier.bare, isVararg, blockBare body⟩

def FunctionTarget.bare : FunctionTarget → FunctionTarget
  | .name identifier => .name identifier.bare
  | .member _ _ base indexer identifier => .member 0 default base.bare indexer identifier.bare

def blockBare : List Stmt → List Stmt
  | [] => []
  | ⟨_, _, kind⟩ :: rest => ⟨0, default, kind.bare⟩ :: blockBare rest

def StmtKind.bare : StmtKind → StmtKind
  | .local vars init => .local (vars.map Identifier.bare) (exprsBare init)
  | .assignment targets init => .assignment (exprsBare targets) (exprsBare init)
  | .call expression => .call expression.bare
  | .localFunction name f => .localFunction name.bare f.bare
  | .function target f => .function target.bare f.bare
  | .return arguments => .return (exprsBare arguments)
  | .break => .break
  | .goto label => .goto label.bare
  | .label label => .label label.bare
  | .block body => .block (blockBare body)
  | .while condition body => .while condition.bare (blockBare body)
  | .repeat body condition => .repeat (blockBare body) condition.bare
  | .conditional first others otherwise =>
    .conditional first.bare (clausesBare others) (elseBare otherwise)
  | .forNumeric counter first last step body =>
    .forNumeric counter.bare first.bare last.bare (stepBare step) (blockBare body)
  | .forGeneric vars iterators body =>
    .forGeneric (vars.map Identifier.bare) (exprsBare iterators) (blockBare body)

def stepBare : Option Expr → Option Expr
  | none => none
  | some step => some step.bare

def Clause.bare : Clause → Clause
  | ⟨_, _, condition, body⟩ => ⟨0, default, condition.bare, blockBare body⟩

def clausesBare : List Clause → List Clause
  | [] => []
  | first :: rest => first.bare :: clausesBare rest

def elseBare : Option ElseClause → Option ElseClause
  | none => none
  | some ⟨_, _, body⟩ => some ⟨0, default, blockBare body⟩

end

/-- A program without identities and places. -/
def Chunk.bare (chunk : Chunk) : Chunk := ⟨blockBare chunk.body, default⟩

end LuaCompiler
