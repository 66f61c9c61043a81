import LuaCompiler.Parser.Grammar

/-!
# Calls of productions

The grammar once more, with what a production uses as an argument: a call of a production is its
body over the calls in it. So it can be said which calls a call makes, and in which states.

* `Production`, `Call`: the productions that use themselves or each other, and the calls of them. A
  loop over names, fields, clauses or targets is a production that goes on by using itself.
* `Call.body`, `run_eq_body`: **a call is its body over the calls in it.**
* `Call.raise_run_eq_body`: and so is the call with a greater bound.
* `Visit.Uses`: what a call gives in a state depends on what another gives in a state of its own.
-/

namespace LuaCompiler

namespace Parser

variable {α : Type}

/-! ## Productions with the loops in them as arguments -/

section Rows

variable (block : Parser (List Stmt)) (expression suffixed : Parser Expr)
  (expressions : Parser (List Expr)) (function : Position → Bool → Parser FunctionBody)

/-- A `local` statement over its names. -/
def localStatementOver (names : Parser (List Identifier)) (start : Position) : Parser Stmt := do
  let vars ← names
  let init ← if ← acceptSign .assign then expressions else pure []
  let id ← freshId
  note (.declare id vars init)
  return ⟨id, ← spanFrom start, .local vars init⟩

/-- The parameters between the parentheses of a function, over their names. -/
def parametersOver (names : Parser (List Identifier × Bool)) :
    Parser (List Identifier × Bool) := do
  if ← isNext (.symbol .rightParen) then return ([], false)
  else names

/-- A function over the names of its parameters. -/
def functionOver (names : Parser (List Identifier × Bool)) (start : Position) (isMethod : Bool) :
    Parser FunctionBody := do
  note (.enter isMethod)
  expectSign .leftParen
  let (identifiers, isVararg) ← parametersOver names
  expectSign .rightParen
  note (.parameters identifiers)
  let body ← leaving block
  expectWord .end
  return ⟨← freshId, ← spanFrom start, identifiers, isVararg, body⟩

/-- What a function statement assigns to, over the members behind its first name. -/
def functionTargetOver (members : FunctionTarget → Parser FunctionTarget) :
    Parser FunctionTarget := do
  let root ← name
  note (.reference root.id root.name)
  members (.name root)

/-- A function statement over the members of what it assigns to. -/
def functionStatementOver (members : FunctionTarget → Parser FunctionTarget) (start : Position) :
    Parser StmtKind := do
  let target ← functionTargetOver members
  return .function target (← function start target.isMethod)

/-- A conditional over its further clauses. -/
def conditionalOver (others : Parser (List Clause × Option ElseClause)) : Parser StmtKind := do
  let start ← here
  let _ ← advance
  let first ← clause expression block start
  let (more, otherwise) ← others
  expectWord .end
  return .conditional first more otherwise

/-- A `for` loop over its further names. -/
def forLoopOver (names : Parser (List Identifier)) : Parser StmtKind := do
  let _ ← advance
  let first ← name
  if ← acceptSign .assign then
    let start ← expression
    expectSign .comma
    let stop ← expression
    let step ← if ← acceptSign .comma then some <$> expression else pure none
    return .forNumeric first start stop step (← loopBody [first] block)
  else
    let vars := first :: (← names)
    expectWord .in
    let iterators ← expressions
    return .forGeneric vars iterators (← loopBody vars block)

/-- An assignment or a call over its further targets. -/
def expressionStatementOver (others : Parser (List Expr)) : Parser StmtKind := do
  let first ← suffixed
  if (← isNext (.symbol .assign)) || (← isNext (.symbol .comma)) then
    let targets := first :: (← others)
    checkTargets targets
    expectSign .assign
    return .assignment targets (← expressions)
  else if first.isCall then return .call first
  else failAt .notStatement first.span.start

/-- A table constructor over its fields. -/
def tableOver (items : Parser (List Field)) : Parser Expr := do
  let start ← here
  expectSign .leftBrace
  let read ← items
  expectSign .rightBrace
  expr start (.table read)

end Rows

/-! ## Calls -/

/-- **The productions** that use themselves or each other. -/
inductive Production where
  | block | statement | function | expressions | subexpression | operators | suffixed | suffixes
  | clauses | fields | moreTargets | localNames | moreNames | parameterNames | targetMembers
deriving DecidableEq

/-- **A call of a production**: its bound and its arguments. A loop over phrases has a bound for its
rounds, and one for the productions that read the phrases. -/
inductive Call : Type → Type where
  | block (bound : Nat) : Call (List Stmt)
  | statement (bound : Nat) : Call Stmt
  | function (bound : Nat) (start : Position) (isMethod : Bool) : Call FunctionBody
  | expressions (bound : Nat) : Call (List Expr)
  | subexpression (bound limit : Nat) : Call Expr
  | operators (bound : Nat) (start : Position) (limit : Nat) (left : Expr) : Call Expr
  | suffixed (bound : Nat) : Call Expr
  | suffixes (bound : Nat) (start : Position) (base : Expr) : Call Expr
  | clauses (phrases bound : Nat) : Call (List Clause × Option ElseClause)
  | fields (phrases bound : Nat) : Call (List Field)
  | moreTargets (phrases bound : Nat) : Call (List Expr)
  | localNames (bound : Nat) : Call (List Identifier)
  | moreNames (bound : Nat) : Call (List Identifier)
  | parameterNames (bound : Nat) : Call (List Identifier × Bool)
  | targetMembers (bound : Nat) (target : FunctionTarget) : Call FunctionTarget

namespace Call

/-- The production that is called. -/
def production : Call α → Production
  | block _ => .block
  | statement _ => .statement
  | function .. => .function
  | expressions _ => .expressions
  | subexpression .. => .subexpression
  | operators .. => .operators
  | suffixed _ => .suffixed
  | suffixes .. => .suffixes
  | clauses .. => .clauses
  | fields .. => .fields
  | moreTargets .. => .moreTargets
  | localNames _ => .localNames
  | moreNames _ => .moreNames
  | parameterNames _ => .parameterNames
  | targetMembers .. => .targetMembers

/-- How deep a call can go: the least of its bounds. -/
def bound : Call α → Nat
  | block bound | statement bound | function bound .. | expressions bound | subexpression bound _
  | operators bound .. | suffixed bound | suffixes bound .. | localNames bound | moreNames bound
  | parameterNames bound | targetMembers bound _ => bound
  | clauses phrases bound | fields phrases bound | moreTargets phrases bound => min phrases bound

/-- The parser that a call is. -/
def run : Call α → Parser α
  | block bound => Parser.block bound
  | statement bound => Parser.statement bound
  | function bound start isMethod => Parser.function bound start isMethod
  | expressions bound => Parser.expressions bound
  | subexpression bound limit => Parser.subexpression bound limit
  | operators bound start limit left => Parser.operators bound start limit left
  | suffixed bound => Parser.suffixed bound
  | suffixes bound start base => Parser.suffixes bound start base
  | clauses phrases bound =>
    Parser.clauses (Parser.subexpression phrases 0) (Parser.block phrases) bound
  | fields phrases bound => Parser.fields (Parser.subexpression phrases 0) bound
  | moreTargets phrases bound => Parser.moreTargets (Parser.suffixed phrases) bound
  | localNames bound => Parser.localNames bound
  | moreNames bound => Parser.moreNames bound
  | parameterNames bound => Parser.parameterNames bound
  | targetMembers bound target => Parser.targetMembers bound target

/-- **The body of a call**, over what the calls in it do. -/
def body (ask : {β : Type} → Call β → Parser β) : Call α → Parser α
  | block (bound + 1) => do
    if ← isBlockEnd then return []
    else if ← isNext (.keyword .return) then
      return [← returnStatement (ask (expressions bound))]
    else if ← acceptSign .semicolon then ask (block bound)
    else
      let first ← ask (statement bound)
      return first :: (← ask (block bound))
  | statement (bound + 1) => do
    let start ← here
    let expression := ask (subexpression bound 0)
    let function := fun start isMethod => ask (function bound start isMethod)
    match ← peek with
    | .keyword .local =>
      let _ ← advance
      if ← acceptWord .function then stmt start (← localFunction function start)
      else localStatementOver (ask (expressions bound)) (ask (localNames bound)) start
    | .keyword .function =>
      let _ ← advance
      let members := fun target => ask (targetMembers bound target)
      stmt start (← functionStatementOver function members start)
    | .keyword .if =>
      stmt start (← conditionalOver (ask (block bound)) expression (ask (clauses bound bound)))
    | .keyword .while => stmt start (← whileLoop expression (ask (block bound)))
    | .keyword .do => stmt start (← blockStatement (ask (block bound)))
    | .keyword .repeat => stmt start (← repeatLoop expression (ask (block bound)))
    | .keyword .for =>
      stmt start (← forLoopOver (ask (block bound)) expression (ask (expressions bound))
        (ask (moreNames bound)))
    | .keyword .break =>
      let _ ← advance
      stmt start .break
    | .keyword .goto => stmt start (← gotoStatement)
    | .symbol .doubleColon => stmt start (← labelStatement)
    | _ =>
      stmt start (← expressionStatementOver (ask (suffixed bound)) (ask (expressions bound))
        (ask (moreTargets bound bound)))
  | function (bound + 1) start isMethod =>
    functionOver (ask (block bound)) (ask (parameterNames bound)) start isMethod
  | expressions (bound + 1) => do
    let first ← ask (subexpression bound 0)
    if ← acceptSign .comma then return first :: (← ask (expressions bound))
    else return [first]
  | subexpression (bound + 1) limit => do
    let start ← here
    match UnaryOperator.ofToken? (← peek) with
    | some operator =>
      let _ ← advance
      let argument ← ask (subexpression bound UnaryOperator.priority)
      ask (operators bound start limit (← expr start (.unary operator argument)))
    | none =>
      let first ← simple (ask (suffixed bound)) (tableOver (ask (fields bound bound)))
        fun start isMethod => ask (function bound start isMethod)
      ask (operators bound start limit first)
  | operators (bound + 1) start limit left => do
    match Connective.ofToken? (← peek) with
    | some connective =>
      if connective.leftPriority ≤ limit then return left
      else
        let _ ← advance
        let right ← ask (subexpression bound connective.rightPriority)
        ask (operators bound start limit (← expr start (connective.apply left right)))
    | none => return left
  | suffixed (bound + 1) => do
    let start ← here
    ask (suffixes bound start (← primary (ask (subexpression bound 0))))
  | suffixes (bound + 1) start base => do
    let call := callOf (ask (expressions bound)) (tableOver (ask (fields bound bound)))
    match ← suffix? (ask (subexpression bound 0)) call start base with
    | some next => ask (suffixes bound start next)
    | none => return base
  | clauses phrases (bound + 1) => do
    let start ← here
    if ← acceptWord .elseIf then
      let next ← clause (ask (subexpression phrases 0)) (ask (block phrases)) start
      let (others, otherwise) ← ask (clauses phrases bound)
      return (next :: others, otherwise)
    else if ← acceptWord .else then
      let body ← innerBlock (ask (block phrases))
      return ([], some ⟨← freshId, ← spanFrom start, body⟩)
    else return ([], none)
  | fields phrases (bound + 1) => do
    if ← isNext (.symbol .rightBrace) then return []
    else
      let first ← field (ask (subexpression phrases 0))
      if (← acceptSign .comma) then return first :: (← ask (fields phrases bound))
      else if (← acceptSign .semicolon) then return first :: (← ask (fields phrases bound))
      else return [first]
  | moreTargets phrases (bound + 1) => do
    if ← acceptSign .comma then
      let next ← ask (suffixed phrases)
      return next :: (← ask (moreTargets phrases bound))
    else return []
  | localNames (bound + 1) => do
    let first ← name
    attributeMark
    if ← acceptSign .comma then return first :: (← ask (localNames bound))
    else return [first]
  | moreNames (bound + 1) => do
    if ← acceptSign .comma then
      let next ← name
      return next :: (← ask (moreNames bound))
    else return []
  | parameterNames (bound + 1) => do
    if ← acceptSign .ellipsis then return ([], true)
    else
      let first ← name
      if ← acceptSign .comma then
        let (others, isVararg) ← ask (parameterNames bound)
        return (first :: others, isVararg)
      else return ([first], false)
  | targetMembers (bound + 1) target => do
    match ← indexer? with
    | none => return target
    | some indexer =>
      let _ ← advance
      let identifier ← name
      let base := target.toExpr
      let span := base.span.through identifier.span
      let member := FunctionTarget.member (← freshId) span base indexer identifier
      match indexer with
      | .colon => return member
      | .dot => ask (targetMembers bound member)
  | block 0 | statement 0 | function 0 .. | expressions 0 | subexpression 0 _ | operators 0 ..
  | suffixed 0 | suffixes 0 .. | clauses _ 0 | fields _ 0 | moreTargets _ 0 | localNames 0
  | moreNames 0 | parameterNames 0 | targetMembers 0 _ => exhausted

/-- **A call is its body over the calls in it.** -/
theorem run_eq_body (call : Call α) : call.run = call.body run := by
  cases call with
  | block bound | statement bound | function bound | expressions bound | subexpression bound
  | operators bound | suffixed bound | suffixes bound | clauses phrases bound | fields phrases bound
  | moreTargets phrases bound | localNames bound | moreNames bound | parameterNames bound
  | targetMembers bound => cases bound <;> rfl

/-- The call with a greater bound. -/
def raise : Call α → Call α
  | block bound => block (bound + 1)
  | statement bound => statement (bound + 1)
  | function bound start isMethod => function (bound + 1) start isMethod
  | expressions bound => expressions (bound + 1)
  | subexpression bound limit => subexpression (bound + 1) limit
  | operators bound start limit left => operators (bound + 1) start limit left
  | suffixed bound => suffixed (bound + 1)
  | suffixes bound start base => suffixes (bound + 1) start base
  | clauses phrases bound => clauses (phrases + 1) (bound + 1)
  | fields phrases bound => fields (phrases + 1) (bound + 1)
  | moreTargets phrases bound => moreTargets (phrases + 1) (bound + 1)
  | localNames bound => localNames (bound + 1)
  | moreNames bound => moreNames (bound + 1)
  | parameterNames bound => parameterNames (bound + 1)
  | targetMembers bound target => targetMembers (bound + 1) target

/-- **A greater bound is handed on**: the call with it is the body over calls with greater bounds. -/
theorem raise_run_eq_body (call : Call α) (h : call.bound ≠ 0) :
    call.raise.run = call.body fun other => other.raise.run := by
  cases call with
  | block bound | statement bound | function bound | expressions bound | subexpression bound
  | operators bound | suffixed bound | suffixes bound | localNames bound | moreNames bound
  | parameterNames bound | targetMembers bound =>
    cases bound with
    | zero => exact absurd rfl h
    | succ bound => rfl
  | clauses phrases bound | fields phrases bound | moreTargets phrases bound =>
    cases bound with
    | zero => exact absurd (Nat.min_zero _) h
    | succ bound => rfl

end Call

/-! ## Visits -/

/-- What fails first fails in a row. -/
theorem run_bind_error {β : Type} {p : Parser α} {f : α → Parser β} {s : State}
    {fault : Located SyntaxFault} (h : (p.run s).1 = .error fault) :
    ((p >>= f).run s).1 = .error fault := by
  change (ExceptT.bindCont f (p.run s).1 (p.run s).2).1 = _
  rw [h]
  rfl

/-- **A call in a state.** -/
structure Visit where
  {value : Type}
  call : Call value
  state : State

namespace Visit

/-- The production that is called. -/
def production (visit : Visit) : Production := visit.call.production

/-- What the call gives in the state, and the state that it leaves. -/
def outcome (visit : Visit) : Except (Located SyntaxFault) visit.value × State :=
  visit.call.run.run visit.state

/-- What the call gives in the state if the calls in it do something else. -/
def outcomeOver (ask : {β : Type} → Call β → Parser β) (visit : Visit) :
    Except (Located SyntaxFault) visit.value × State :=
  (visit.call.body ask).run visit.state

/-- **One visit uses another**: were the outcome of that one another, and all else as it is, then its
own outcome could be another. -/
def Uses (visit other : Visit) : Prop :=
  ∃ ask : {β : Type} → Call β → Parser β,
    (∀ place : Visit, place ≠ other → (ask place.call).run place.state = place.outcome) ∧
      visit.outcomeOver ask ≠ visit.outcome

open Classical in
/-- The calls as they are, but for one visit, which fails. -/
noncomputable def failing (other : Visit) {β : Type} (call : Call β) : Parser β := fun s =>
  if (⟨call, s⟩ : Visit) = other then (.error ⟨.tooDeep, Position.origin⟩, s) else call.run.run s

/-- **A visit that fails with another uses it.** -/
theorem uses_of_fails {visit other : Visit}
    (hfails : ∀ (ask : {β : Type} → Call β → Parser β) (fault : Located SyntaxFault),
      ((ask other.call).run other.state).1 = .error fault → (visit.outcomeOver ask).1 = .error fault)
    (hok : visit.outcome.1.isOk = true) : visit.Uses other := by
  refine ⟨failing other, fun place hne => if_neg hne, fun hsame => ?_⟩
  have hfailed : ((failing other other.call).run other.state).1 =
      .error ⟨.tooDeep, Position.origin⟩ := congrArg Prod.fst (if_pos rfl)
  rw [← hsame, hfails (failing other) _ hfailed] at hok
  cases hok

end Visit

end Parser

end LuaCompiler
