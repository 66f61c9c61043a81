import LuaCompiler.Scope.Event
import LuaCompiler.Token.Scan

/-!
# Parsers

A parser moves over scanned tokens, numbers the nodes it builds, and notes scope events. It keeps
its state also when it fails, so that the events up to a fault are not lost. Each step forward looks
one token ahead; a lexical fault behind the current token shows as soon as the token is consumed.
-/

namespace LuaCompiler

/-- What can be wrong with a text as a program. -/
inductive SyntaxFault where
  | lexical (fault : LexicalFault)
  /-- one token is wanted and another found -/
  | expected (wanted found : Token.Kind)
  | nameExpected (found : Token.Kind)
  | argumentsExpected (found : Token.Kind)
  | unexpectedSymbol (found : Token.Kind)
  /-- an assignment to something other than a name, a member or an index -/
  | notAssignable
  /-- an expression that is neither called nor assigned to -/
  | notStatement
  /-- more nesting than the bound given to the parser -/
  | tooDeep

namespace SyntaxFault

/-- The wording of a fault. -/
def message : SyntaxFault → String
  | lexical fault => fault.message
  | expected wanted found => "'" ++ wanted.text ++ "' expected near " ++ found.describe
  | nameExpected found => "<name> expected near " ++ found.describe
  | argumentsExpected found => "function arguments expected near " ++ found.describe
  | unexpectedSymbol found => "unexpected symbol near " ++ found.describe
  | notAssignable => "cannot assign to this expression"
  | notStatement => "syntax error, expected a call or assignment"
  | tooDeep => "nesting too deep"

end SyntaxFault

namespace Parser

/-- Where a parser stands. -/
structure State where
  /-- the token to be read next -/
  current : Token
  /-- the tokens behind it -/
  rest : List Token
  /-- the lexical fault behind all tokens -/
  ending : Option (Located LexicalFault)
  /-- the end of the token read last -/
  previousEnd : Position
  nextId : NodeId
  /-- the events so far, last one first -/
  events : List Scope.Event

end Parser

/-- A parser for values of a type. -/
abbrev Parser (α : Type) := ExceptT (Located SyntaxFault) (StateM Parser.State) α

namespace Parser

/-- Fails at a place. -/
def failAt {α : Type} (fault : SyntaxFault) (position : Position) : Parser α :=
  throw ⟨fault, position⟩

/-- The token to be read next. -/
def peek : Parser Token.Kind := do
  return (← get).current.kind

/-- Where the token to be read next starts. -/
def here : Parser Position := do
  return (← get).current.span.start

/-- Fails at the current token. -/
def unexpected {α : Type} (fault : Token.Kind → SyntaxFault) : Parser α := do
  failAt (fault (← peek)) (← here)

/-- Reads a token. The end of the text is read again and again. -/
def advance : Parser Token := do
  let state ← get
  match state.rest, state.ending with
  | next :: rest, _ =>
    set { state with current := next, rest, previousEnd := state.current.span.stop }
    return state.current
  | [], some fault => failAt (.lexical fault.fault) fault.position
  | [], none =>
    set { state with previousEnd := state.current.span.stop }
    return state.current

/-- Whether a token comes next. -/
def isNext (kind : Token.Kind) : Parser Bool := do
  return (← peek) == kind

/-- Reads a token if it comes next. -/
def accept (kind : Token.Kind) : Parser Bool := do
  if ← isNext kind then
    let _ ← advance
    return true
  else return false

/-- Reads a token that has to come next. -/
def expect (kind : Token.Kind) : Parser Unit := do
  if ← isNext kind then
    let _ ← advance
  else unexpected (.expected kind)

/-- Reads a keyword if it comes next. -/
def acceptWord (word : Keyword) : Parser Bool := accept (.keyword word)

/-- Reads a symbol if it comes next. -/
def acceptSign (sign : Symbol) : Parser Bool := accept (.symbol sign)

/-- Reads a keyword that has to come next. -/
def expectWord (word : Keyword) : Parser Unit := expect (.keyword word)

/-- Reads a symbol that has to come next. -/
def expectSign (sign : Symbol) : Parser Unit := expect (.symbol sign)

/-- A new node identity. -/
def freshId : Parser NodeId := do
  let state ← get
  set { state with nextId := state.nextId + 1 }
  return state.nextId

/-- The span from a place to the end of the token read last. -/
def spanFrom (start : Position) : Parser Span := do
  return ⟨start, (← get).previousEnd⟩

/-- Notes a scope event. -/
def note (event : Scope.Event) : Parser Unit :=
  modify fun state => { state with events := event :: state.events }

/-- Runs a parser and then leaves the scope, also if the parser fails. -/
def leaving {α : Type} (body : Parser α) : Parser α :=
  ExceptT.mk do
    let result ← body.run
    modify fun state => { state with events := .leave :: state.events }
    return result

/-- An expression that starts at a place and ends with the token read last. -/
def expr (start : Position) (kind : ExprKind) : Parser Expr := do
  return ⟨← freshId, ← spanFrom start, kind⟩

/-- A statement that starts at a place and ends with the token read last. -/
def stmt (start : Position) (kind : StmtKind) : Parser Stmt := do
  return ⟨← freshId, ← spanFrom start, kind⟩

/-- A name. -/
def name : Parser Identifier := do
  match ← peek with
  | .name word =>
    let token ← advance
    return ⟨← freshId, word, token.span⟩
  | _ => unexpected .nameExpected

/-- The failure of a parser that has used up its bound. -/
def exhausted {α : Type} : Parser α := do
  failAt .tooDeep (← here)

end Parser

end LuaCompiler
