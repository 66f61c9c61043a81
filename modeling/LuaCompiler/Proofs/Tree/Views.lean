import LuaCompiler.Parser

/-!
# Views

A program is the same up to some of what it says: where its nodes stand, and how the texts of its
strings are written. A **view** replaces both, and keeps everything else, identities among it. Two
programs that look the same through their views differ in nothing but that.

* `Token.seen`, `Comment.seen`, `Expr.seen`, `Stmt.seen`, `Chunk.seen`: tokens, comments and trees
  through a view.
* `Scope.Event.seen`, `SyntaxFault.seen`, `Parser.State.seen`: what a parser notes, fails with and
  stands at.
* `globals_seen`: a view leaves the globals as they are.
-/

namespace LuaCompiler

/-- A way to look at a program: at its places, and at the texts of its strings. -/
structure View where
  place : Position → Position
  text : String → String

namespace View

/-- Places are not looked at. -/
def placeless : View := ⟨fun _ => Position.origin, id⟩

/-- Both ends of a span are seen at their places. -/
def span (v : View) (span : Span) : Span := ⟨v.place span.start, v.place span.stop⟩

@[simp]
theorem span_mk (v : View) (start stop : Position) :
    v.span ⟨start, stop⟩ = ⟨v.place start, v.place stop⟩ := rfl

end View

/-! ## Tokens and comments -/

/-- A token without its place, through a view. -/
def Token.Kind.seen (v : View) : Token.Kind → Token.Kind
  | .string raw => .string (v.text raw)
  | kind => kind

/-- A token through a view. -/
def Token.seen (v : View) (token : Token) : Token := ⟨token.kind.seen v, v.span token.span⟩

/-- A comment through a view. -/
def Comment.seen (v : View) (comment : Comment) : Comment where
  value := v.text comment.value
  raw := v.text comment.raw
  isBlock := comment.isBlock
  span := v.span comment.span

namespace Token.Kind

/-- A view changes strings only. -/
theorem seen_cases (v : View) (kind : Token.Kind) :
    kind.seen v = kind ∨ ∃ raw, kind = .string raw ∧ kind.seen v = .string (v.text raw) := by
  cases kind with
  | string raw => exact .inr ⟨raw, rfl, rfl⟩
  | _ => exact .inl rfl

/-- A token that is no string looks like itself only. -/
theorem seen_beq {v : View} {kind wanted : Token.Kind} (h : ∀ raw, wanted ≠ .string raw) :
    (kind.seen v == wanted) = (kind == wanted) := by
  rcases seen_cases v kind with hsame | ⟨raw, rfl, hstring⟩
  · rw [hsame]
  · rw [hstring, beq_false_of_ne (h _).symm, beq_false_of_ne (h _).symm]

theorem seen_of_text {v : View} (h : v.text = id) (kind : Token.Kind) : kind.seen v = kind := by
  rcases seen_cases v kind with hsame | ⟨raw, rfl, hstring⟩
  · exact hsame
  · rw [hstring, h]
    rfl

end Token.Kind

/-! ## Trees -/

/-- A name through a view. -/
def Identifier.seen (v : View) (identifier : Identifier) : Identifier :=
  { identifier with span := v.span identifier.span }

mutual

/-- An expression through a view. -/
def Expr.seen (v : View) : Expr → Expr
  | ⟨id, span, kind⟩ => ⟨id, v.span span, kind.seen v⟩

def ExprKind.seen (v : View) : ExprKind → ExprKind
  | .string raw => .string (v.text raw)
  | .function f => .function (f.seen v)
  | .table fields => .table (fieldsSeen v fields)
  | .binary operator left right => .binary operator (left.seen v) (right.seen v)
  | .logical operator left right => .logical operator (left.seen v) (right.seen v)
  | .unary operator argument => .unary operator (argument.seen v)
  | .member base indexer identifier => .member (base.seen v) indexer (identifier.seen v)
  | .index base index => .index (base.seen v) (index.seen v)
  | .call base style arguments => .call (base.seen v) style (exprsSeen v arguments)
  | kind => kind

def exprsSeen (v : View) : List Expr → List Expr
  | [] => []
  | first :: rest => first.seen v :: exprsSeen v rest

def fieldsSeen (v : View) : List Field → List Field
  | [] => []
  | ⟨id, span, kind⟩ :: rest => ⟨id, v.span span, kind.seen v⟩ :: fieldsSeen v rest

def FieldKind.seen (v : View) : FieldKind → FieldKind
  | .named key value => .named (key.seen v) (value.seen v)
  | .keyed key value => .keyed (key.seen v) (value.seen v)
  | .positional value => .positional (value.seen v)

def FunctionBody.seen (v : View) : FunctionBody → FunctionBody
  | ⟨id, span, parameters, isVararg, body⟩ =>
    ⟨id, v.span span, parameters.map (Identifier.seen v), isVararg, blockSeen v body⟩

def FunctionTarget.seen (v : View) : FunctionTarget → FunctionTarget
  | .name identifier => .name (identifier.seen v)
  | .member id span base indexer identifier =>
    .member id (v.span span) (base.seen v) indexer (identifier.seen v)

/-- A block through a view. -/
def blockSeen (v : View) : List Stmt → List Stmt
  | [] => []
  | ⟨id, span, kind⟩ :: rest => ⟨id, v.span span, kind.seen v⟩ :: blockSeen v rest

def StmtKind.seen (v : View) : StmtKind → StmtKind
  | .local vars init => .local (vars.map (Identifier.seen v)) (exprsSeen v init)
  | .assignment targets init => .assignment (exprsSeen v targets) (exprsSeen v init)
  | .call expression => .call (expression.seen v)
  | .localFunction name f => .localFunction (name.seen v) (f.seen v)
  | .function target f => .function (target.seen v) (f.seen v)
  | .return arguments => .return (exprsSeen v arguments)
  | .break => .break
  | .goto label => .goto (label.seen v)
  | .label label => .label (label.seen v)
  | .block body => .block (blockSeen v body)
  | .while condition body => .while (condition.seen v) (blockSeen v body)
  | .repeat body condition => .repeat (blockSeen v body) (condition.seen v)
  | .conditional first others otherwise =>
    .conditional (first.seen v) (clausesSeen v others) (elseSeen v otherwise)
  | .forNumeric counter first last step body =>
    .forNumeric (counter.seen v) (first.seen v) (last.seen v) (stepSeen v step) (blockSeen v body)
  | .forGeneric vars iterators body =>
    .forGeneric (vars.map (Identifier.seen v)) (exprsSeen v iterators) (blockSeen v body)

def stepSeen (v : View) : Option Expr → Option Expr
  | none => none
  | some step => some (step.seen v)

def Clause.seen (v : View) : Clause → Clause
  | ⟨id, span, condition, body⟩ => ⟨id, v.span span, condition.seen v, blockSeen v body⟩

def clausesSeen (v : View) : List Clause → List Clause
  | [] => []
  | first :: rest => first.seen v :: clausesSeen v rest

def elseSeen (v : View) : Option ElseClause → Option ElseClause
  | none => none
  | some ⟨id, span, body⟩ => some ⟨id, v.span span, blockSeen v body⟩

end

attribute [simp] Expr.seen ExprKind.seen exprsSeen fieldsSeen FieldKind.seen FunctionBody.seen
  FunctionTarget.seen blockSeen StmtKind.seen stepSeen Clause.seen clausesSeen elseSeen

/-- A field through a view. -/
def Field.seen (v : View) (field : Field) : Field :=
  ⟨field.id, v.span field.span, field.kind.seen v⟩

/-- A statement through a view. -/
def Stmt.seen (v : View) (statement : Stmt) : Stmt :=
  ⟨statement.id, v.span statement.span, statement.kind.seen v⟩

/-- A program through a view. -/
def Chunk.seen (v : View) (chunk : Chunk) : Chunk := ⟨blockSeen v chunk.body, v.span chunk.span⟩

section Trees

variable (v : View)

theorem Expr.seen_eq (e : Expr) : e.seen v = ⟨e.id, v.span e.span, e.kind.seen v⟩ := by
  cases e
  rw [Expr.seen]

theorem exprsSeen_nil : exprsSeen v [] = [] := by rw [exprsSeen]

theorem fieldsSeen_cons (first : Field) (rest : List Field) :
    fieldsSeen v (first :: rest) = first.seen v :: fieldsSeen v rest := by
  cases first
  rw [fieldsSeen, Field.seen]

theorem blockSeen_cons (first : Stmt) (rest : List Stmt) :
    blockSeen v (first :: rest) = first.seen v :: blockSeen v rest := by
  cases first
  rw [blockSeen, Stmt.seen]

/-- A name that stands as an expression looks like the name. -/
theorem Identifier.seen_toExpr (identifier : Identifier) :
    identifier.toExpr.seen v = (identifier.seen v).toExpr := by
  simp [toExpr, seen]

theorem FunctionTarget.seen_toExpr (target : FunctionTarget) :
    target.toExpr.seen v = (target.seen v).toExpr := by
  cases target with
  | name identifier => simp [toExpr, Identifier.seen_toExpr]
  | member id span base indexer identifier => simp [toExpr]

theorem FunctionTarget.isMethod_seen (target : FunctionTarget) :
    (target.seen v).isMethod = target.isMethod := by
  cases target with
  | name identifier => simp [isMethod]
  | member id span base indexer identifier => cases indexer <;> simp [isMethod]

theorem Expr.isCall_seen (e : Expr) : (e.seen v).isCall = e.isCall := by
  rw [Expr.seen_eq]
  cases hkind : e.kind <;> simp [isCall, hkind]

theorem Expr.isAssignable_seen (e : Expr) : (e.seen v).isAssignable = e.isAssignable := by
  rw [Expr.seen_eq]
  cases hkind : e.kind <;> simp [isAssignable, hkind]

theorem Connective.apply_seen (connective : Connective) (left right : Expr) :
    (connective.apply left right).seen v = connective.apply (left.seen v) (right.seen v) := by
  cases connective <;> rw [apply, apply, ExprKind.seen]

end Trees

/-! ## What a parser notes and where it stands -/

/-- A scope event through a view. -/
def Scope.Event.seen (v : View) : Event → Event
  | .parameters identifiers => .parameters (identifiers.map (Identifier.seen v))
  | .declare id vars init => .declare id (vars.map (Identifier.seen v)) (exprsSeen v init)
  | .declareFunction identifier => .declareFunction (identifier.seen v)
  | event => event

/-- A fault through a view. -/
def SyntaxFault.seen (v : View) : SyntaxFault → SyntaxFault
  | .expected wanted found => .expected wanted (found.seen v)
  | .nameExpected found => .nameExpected (found.seen v)
  | .argumentsExpected found => .argumentsExpected (found.seen v)
  | .unexpectedSymbol found => .unexpectedSymbol (found.seen v)
  | fault => fault

/-- A fault at a place, through a view. -/
def Located.seen (v : View) (fault : Located SyntaxFault) : Located SyntaxFault :=
  ⟨fault.fault.seen v, v.place fault.position⟩

/-- The state of a parser through a view. -/
def Parser.State.seen (v : View) (s : State) : State where
  current := s.current.seen v
  rest := s.rest.map (Token.seen v)
  ending := s.ending.map fun fault => ⟨fault.fault, v.place fault.position⟩
  previousEnd := v.place s.previousEnd
  nextId := s.nextId
  events := s.events.map (Scope.Event.seen v)

/-- Faults tell of tokens by their texts, and a view that keeps these keeps the message. -/
theorem SyntaxFault.message_seen {v : View} (h : v.text = id) (fault : SyntaxFault) :
    (fault.seen v).message = fault.message := by
  cases fault <;> simp [seen, Token.Kind.seen_of_text h]

/-- **A view leaves the globals as they are.** -/
theorem Scope.globals_seen (v : View) (events : List Event) :
    globals (events.map (Event.seen v)) = globals events := by
  have hname : Identifier.name ∘ Identifier.seen v = Identifier.name := rfl
  have hstep (visible : Visibility) (event : Event) :
      visible.step (event.seen v) = visible.step event := by
    cases event <;> simp [Event.seen, Visibility.step, Identifier.seen, hname]
  unfold globals
  rw [List.foldl_map]
  simp only [hstep]

end LuaCompiler
