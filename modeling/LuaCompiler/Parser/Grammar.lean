import LuaCompiler.Parser.Basic
import LuaCompiler.Parser.Priority

/-!
# The grammar

Lua by recursive descent, with a bound on the depth of the descent as first argument: every
production hands a smaller bound to the productions it uses. Productions that only put others in a
row take them as arguments and stand before the recursion, which then does nothing but choose and
descend.
-/

namespace LuaCompiler.Parser

/-! ## Names -/

/-- The annotation in angle brackets that a local variable may have; it means nothing here. -/
def attributeMark : Parser Unit := do
  if ← acceptSign .less then
    let _ ← name
    expectSign .greater

/-- Variables of a `local` statement, parted by commas. -/
def localNames : Nat → Parser (List Identifier)
  | 0 => exhausted
  | bound + 1 => do
    let first ← name
    attributeMark
    if ← acceptSign .comma then return first :: (← localNames bound)
    else return [first]

/-- Names behind commas. -/
def moreNames : Nat → Parser (List Identifier)
  | 0 => exhausted
  | bound + 1 => do
    if ← acceptSign .comma then
      let next ← name
      return next :: (← moreNames bound)
    else return []

/-- Parameters of a function, parted by commas, and whether the last one takes all arguments left.
-/
def parameterNames : Nat → Parser (List Identifier × Bool)
  | 0 => exhausted
  | bound + 1 => do
    if ← acceptSign .ellipsis then return ([], true)
    else
      let first ← name
      if ← acceptSign .comma then
        let (others, isVararg) ← parameterNames bound
        return (first :: others, isVararg)
      else return ([first], false)

/-- The parameters between the parentheses of a function. -/
def parameters (bound : Nat) : Parser (List Identifier × Bool) := do
  if ← isNext (.symbol .rightParen) then return ([], false)
  else parameterNames bound

/-- The sign before a member, if one comes next. -/
def indexer? : Parser (Option Indexer) := do
  match ← peek with
  | .symbol .dot => return some .dot
  | .symbol .colon => return some .colon
  | _ => return none

/-- The members behind what a function statement assigns to so far; behind a colon there is only
one. -/
def targetMembers : Nat → FunctionTarget → Parser FunctionTarget
  | 0, _ => exhausted
  | bound + 1, target => do
    match ← indexer? with
    | none => return target
    | some indexer =>
      let _ ← advance
      let identifier ← name
      let base := target.toExpr
      let span := base.span.through identifier.span
      let member := FunctionTarget.member (← freshId) span base indexer identifier
      match indexer with
      | .colon => return member
      | .dot => targetMembers bound member

/-- What a function statement assigns to. -/
def functionTarget (bound : Nat) : Parser FunctionTarget := do
  let root ← name
  note (.reference root.id root.name)
  targetMembers bound (.name root)

/-! ## Productions without recursion of their own -/

/-- A block in a scope of its own. -/
def innerBlock (block : Parser (List Stmt)) : Parser (List Stmt) := do
  note (.enter false)
  leaving block

/-- The body of a loop that declares variables. -/
def loopBody (vars : List Identifier) (block : Parser (List Stmt)) : Parser (List Stmt) := do
  expectWord .do
  note (.enter false)
  note (.parameters vars)
  let body ← leaving block
  expectWord .end
  return body

/-- Parameters and body of a function that starts at a place. -/
def functionWith (bound : Nat) (block : Parser (List Stmt)) (start : Position) (isMethod : Bool) :
    Parser FunctionBody := do
  note (.enter isMethod)
  expectSign .leftParen
  let (identifiers, isVararg) ← parameters bound
  expectSign .rightParen
  note (.parameters identifiers)
  let body ← leaving block
  expectWord .end
  return ⟨← freshId, ← spanFrom start, identifiers, isVararg, body⟩

/-- Whether a block ends here. -/
def isBlockEnd : Parser Bool := do
  match ← peek with
  | .keyword .end | .keyword .else | .keyword .elseIf | .keyword .until | .eof => return true
  | _ => return false

/-- A `return` statement, which ends its block. -/
def returnStatement (expressions : Parser (List Expr)) : Parser Stmt := do
  let start ← here
  let _ ← advance
  let arguments ← if (← isBlockEnd) || (← isNext (.symbol .semicolon)) then pure []
    else expressions
  let _ ← acceptSign .semicolon
  let statement ← stmt start (.return arguments)
  if ← isBlockEnd then return statement
  else unexpected (.expected (.keyword .end))

/-- A `local` statement that starts at a place, behind its keyword. -/
def localStatement (bound : Nat) (expressions : Parser (List Expr)) (start : Position) :
    Parser Stmt := do
  let vars ← localNames bound
  let init ← if ← acceptSign .assign then expressions else pure []
  let id ← freshId
  note (.declare id vars init)
  return ⟨id, ← spanFrom start, .local vars init⟩

/-- A `local function` statement that starts at a place, behind its keywords. -/
def localFunction (function : Position → Bool → Parser FunctionBody) (start : Position) :
    Parser StmtKind := do
  let identifier ← name
  note (.declareFunction identifier)
  return .localFunction identifier (← function start false)

/-- A function statement that starts at a place, behind its keyword. -/
def functionStatement (bound : Nat) (function : Position → Bool → Parser FunctionBody)
    (start : Position) : Parser StmtKind := do
  let target ← functionTarget bound
  return .function target (← function start target.isMethod)

/-- A condition, `then` and what is done if it holds, from a place on. -/
def clause (expression : Parser Expr) (block : Parser (List Stmt)) (start : Position) :
    Parser Clause := do
  let condition ← expression
  expectWord .then
  let body ← innerBlock block
  return ⟨← freshId, ← spanFrom start, condition, body⟩

/-- The clauses behind the first one of a conditional. -/
def clauses (expression : Parser Expr) (block : Parser (List Stmt)) :
    Nat → Parser (List Clause × Option ElseClause)
  | 0 => exhausted
  | bound + 1 => do
    let start ← here
    if ← acceptWord .elseIf then
      let next ← clause expression block start
      let (others, otherwise) ← clauses expression block bound
      return (next :: others, otherwise)
    else if ← acceptWord .else then
      let body ← innerBlock block
      return ([], some ⟨← freshId, ← spanFrom start, body⟩)
    else return ([], none)

/-- A conditional. -/
def conditional (bound : Nat) (expression : Parser Expr) (block : Parser (List Stmt)) :
    Parser StmtKind := do
  let start ← here
  let _ ← advance
  let first ← clause expression block start
  let (others, otherwise) ← clauses expression block bound
  expectWord .end
  return .conditional first others otherwise

/-- A loop with a condition before its body. -/
def whileLoop (expression : Parser Expr) (block : Parser (List Stmt)) : Parser StmtKind := do
  let _ ← advance
  let condition ← expression
  expectWord .do
  let body ← innerBlock block
  expectWord .end
  return .while condition body

/-- A loop with a condition behind its body, which sees the body's locals. -/
def repeatLoop (expression : Parser Expr) (block : Parser (List Stmt)) : Parser StmtKind := do
  let _ ← advance
  note (.enter false)
  let body ← block
  expectWord .until
  let condition ← expression
  note .leave
  return .repeat body condition

/-- A block statement. -/
def blockStatement (block : Parser (List Stmt)) : Parser StmtKind := do
  let _ ← advance
  let body ← innerBlock block
  expectWord .end
  return .block body

/-- A loop over numbers or over what iterators give. -/
def forLoop (bound : Nat) (expression : Parser Expr) (expressions : Parser (List Expr))
    (block : Parser (List Stmt)) : Parser StmtKind := do
  let _ ← advance
  let first ← name
  if ← acceptSign .assign then
    let start ← expression
    expectSign .comma
    let stop ← expression
    let step ← if ← acceptSign .comma then some <$> expression else pure none
    return .forNumeric first start stop step (← loopBody [first] block)
  else
    let vars := first :: (← moreNames bound)
    expectWord .in
    let iterators ← expressions
    return .forGeneric vars iterators (← loopBody vars block)

/-- Expressions behind commas. -/
def moreTargets (suffixed : Parser Expr) : Nat → Parser (List Expr)
  | 0 => exhausted
  | bound + 1 => do
    if ← acceptSign .comma then
      let next ← suffixed
      return next :: (← moreTargets suffixed bound)
    else return []

/-- Fails at the first of some expressions that cannot be assigned to. -/
def checkTargets (targets : List Expr) : Parser Unit :=
  match targets.find? (!·.isAssignable) with
  | some target => failAt .notAssignable target.span.start
  | none => return ()

/-- An assignment or a call. -/
def expressionStatement (bound : Nat) (suffixed : Parser Expr) (expressions : Parser (List Expr)) :
    Parser StmtKind := do
  let first ← suffixed
  if (← isNext (.symbol .assign)) || (← isNext (.symbol .comma)) then
    let targets := first :: (← moreTargets suffixed bound)
    checkTargets targets
    expectSign .assign
    return .assignment targets (← expressions)
  else if first.isCall then return .call first
  else failAt .notStatement first.span.start

/-- A jump to a label. -/
def gotoStatement : Parser StmtKind := do
  let _ ← advance
  return .goto (← name)

/-- A label. -/
def labelStatement : Parser StmtKind := do
  let _ ← advance
  let label ← name
  expectSign .doubleColon
  return .label label

/-- Whether a name and an equals sign come next. -/
def isNamedField : Parser Bool := do
  match ← peek with
  | .name _ =>
    let state ← get
    match state.rest, state.ending with
    | next :: _, _ => return next.kind == .symbol .assign
    | [], some fault => failAt (.lexical fault.fault) fault.position
    | [], none => return false
  | _ => return false

/-- A field of a table constructor, without its identity and place. -/
def fieldKind (expression : Parser Expr) : Parser FieldKind := do
  if ← acceptSign .leftBracket then
    let key ← expression
    expectSign .rightBracket
    expectSign .assign
    return .keyed key (← expression)
  else if ← isNamedField then
    let key ← name
    expectSign .assign
    return .named key (← expression)
  else return .positional (← expression)

/-- A field of a table constructor. -/
def field (expression : Parser Expr) : Parser Field := do
  let start ← here
  let kind ← fieldKind expression
  return ⟨← freshId, ← spanFrom start, kind⟩

/-- Fields up to the brace that closes the constructor, each but the last behind a comma or
semicolon. -/
def fields (expression : Parser Expr) : Nat → Parser (List Field)
  | 0 => exhausted
  | bound + 1 => do
    if ← isNext (.symbol .rightBrace) then return []
    else
      let first ← field expression
      if (← acceptSign .comma) then return first :: (← fields expression bound)
      else if (← acceptSign .semicolon) then return first :: (← fields expression bound)
      else return [first]

/-- A table constructor. -/
def table (bound : Nat) (expression : Parser Expr) : Parser Expr := do
  let start ← here
  expectSign .leftBrace
  let items ← fields expression bound
  expectSign .rightBrace
  expr start (.table items)

/-- The call of a base with the arguments that come next. -/
def callOf (expressions : Parser (List Expr)) (table : Parser Expr) (base : Expr) :
    Parser ExprKind := do
  match ← peek with
  | .symbol .leftParen =>
    let _ ← advance
    let arguments ← if ← isNext (.symbol .rightParen) then pure [] else expressions
    expectSign .rightParen
    return .call base .arguments arguments
  | .symbol .leftBrace => return .call base .table [← table]
  | .string raw =>
    let token ← advance
    return .call base .string [⟨← freshId, token.span, .string raw⟩]
  | _ => unexpected .argumentsExpected

/-- A name, or an expression in parentheses, which then has their span. -/
def primary (expression : Parser Expr) : Parser Expr := do
  let start ← here
  match ← peek with
  | .name _ =>
    let identifier ← name
    note (.reference identifier.id identifier.name)
    return identifier.toExpr
  | .symbol .leftParen =>
    let _ ← advance
    let inner ← expression
    expectSign .rightParen
    return { inner with span := ← spanFrom start }
  | _ => unexpected .unexpectedSymbol

/-- A member, index or call of what was read from a place on, if one comes next. -/
def suffix? (expression : Parser Expr) (call : Expr → Parser ExprKind) (start : Position)
    (base : Expr) : Parser (Option Expr) := do
  match ← peek with
  | .symbol .dot =>
    let _ ← advance
    let identifier ← name
    return some (← expr start (.member base .dot identifier))
  | .symbol .leftBracket =>
    let _ ← advance
    let index ← expression
    expectSign .rightBracket
    return some (← expr start (.index base index))
  | .symbol .colon =>
    let _ ← advance
    let identifier ← name
    let method ← expr start (.member base .colon identifier)
    return some (← expr start (← call method))
  | .symbol .leftParen | .symbol .leftBrace | .string _ =>
    return some (← expr start (← call base))
  | _ => return none

/-- The literal that comes next, if one does. -/
def literal? : Token.Kind → Option ExprKind
  | .keyword .nil => some .nil
  | .keyword .true => some (.boolean true)
  | .keyword .false => some (.boolean false)
  | .number value raw => some (.number value raw)
  | .string raw => some (.string raw)
  | .symbol .ellipsis => some .vararg
  | _ => none

/-- An operand: a literal, a constructor, a function, or a suffixed expression. -/
def simple (suffixed table : Parser Expr) (function : Position → Bool → Parser FunctionBody) :
    Parser Expr := do
  let start ← here
  let kind ← peek
  match literal? kind with
  | some literal =>
    let _ ← advance
    expr start literal
  | none =>
    match kind with
    | .symbol .leftBrace => table
    | .keyword .function =>
      let _ ← advance
      let body ← function start false
      expr start (.function body)
    | _ => suffixed

/-! ## The recursion -/

mutual

/-- A block: statements up to where a block can end. -/
def block : Nat → Parser (List Stmt)
  | 0 => exhausted
  | bound + 1 => do
    if ← isBlockEnd then return []
    else if ← isNext (.keyword .return) then
      return [← returnStatement (expressions bound)]
    else if ← acceptSign .semicolon then block bound
    else
      let first ← statement bound
      return first :: (← block bound)

/-- A statement other than `return`. -/
def statement : Nat → Parser Stmt
  | 0 => exhausted
  | bound + 1 => do
    let start ← here
    match ← peek with
    | .keyword .local =>
      let _ ← advance
      if ← acceptWord .function then stmt start (← localFunction (function bound) start)
      else localStatement bound (expressions bound) start
    | .keyword .function =>
      let _ ← advance
      stmt start (← functionStatement bound (function bound) start)
    | .keyword .if => stmt start (← conditional bound (subexpression bound 0) (block bound))
    | .keyword .while => stmt start (← whileLoop (subexpression bound 0) (block bound))
    | .keyword .do => stmt start (← blockStatement (block bound))
    | .keyword .repeat => stmt start (← repeatLoop (subexpression bound 0) (block bound))
    | .keyword .for =>
      stmt start (← forLoop bound (subexpression bound 0) (expressions bound) (block bound))
    | .keyword .break =>
      let _ ← advance
      stmt start .break
    | .keyword .goto => stmt start (← gotoStatement)
    | .symbol .doubleColon => stmt start (← labelStatement)
    | _ => stmt start (← expressionStatement bound (suffixed bound) (expressions bound))

/-- Parameters and body of a function that starts at a place. -/
def function : Nat → Position → Bool → Parser FunctionBody
  | 0, _, _ => exhausted
  | bound + 1, start, isMethod => functionWith bound (block bound) start isMethod

/-- Expressions parted by commas, at least one. -/
def expressions : Nat → Parser (List Expr)
  | 0 => exhausted
  | bound + 1 => do
    let first ← subexpression bound 0
    if ← acceptSign .comma then return first :: (← expressions bound)
    else return [first]

/-- An expression whose operators all bind tighter than a limit. -/
def subexpression : Nat → Nat → Parser Expr
  | 0, _ => exhausted
  | bound + 1, limit => do
    let start ← here
    match UnaryOperator.ofToken? (← peek) with
    | some operator =>
      let _ ← advance
      let argument ← subexpression bound UnaryOperator.priority
      operators bound start limit (← expr start (.unary operator argument))
    | none =>
      let first ← simple (suffixed bound) (table bound (subexpression bound 0)) (function bound)
      operators bound start limit first

/-- The operators behind an expression from a place on, as long as they bind tighter than a limit.
-/
def operators : Nat → Position → Nat → Expr → Parser Expr
  | 0, _, _, _ => exhausted
  | bound + 1, start, limit, left => do
    match Connective.ofToken? (← peek) with
    | some connective =>
      if connective.leftPriority ≤ limit then return left
      else
        let _ ← advance
        let right ← subexpression bound connective.rightPriority
        operators bound start limit (← expr start (connective.apply left right))
    | none => return left

/-- A primary expression and its members, indices and calls. -/
def suffixed : Nat → Parser Expr
  | 0 => exhausted
  | bound + 1 => do
    let start ← here
    suffixes bound start (← primary (subexpression bound 0))

/-- The members, indices and calls behind an expression from a place on. -/
def suffixes : Nat → Position → Expr → Parser Expr
  | 0, _, _ => exhausted
  | bound + 1, start, base => do
    let call := callOf (expressions bound) (table bound (subexpression bound 0))
    match ← suffix? (subexpression bound 0) call start base with
    | some next => suffixes bound start next
    | none => return base

end

/-- A whole program. -/
def chunk (bound : Nat) : Parser Chunk := do
  note (.enter false)
  let body ← block bound
  note .leave
  let state ← get
  if state.current.kind == .eof then return ⟨body, ⟨Position.origin, state.current.span.stop⟩⟩
  else unexpected (.expected .eof)

end LuaCompiler.Parser
