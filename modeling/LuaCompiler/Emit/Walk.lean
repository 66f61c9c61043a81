import LuaCompiler.Emit.Binding
import LuaCompiler.Emit.Call
import LuaCompiler.Emit.Statement

/-!
# The walk over the tree

The recursion of the lowering. It only takes nodes apart and hands the lowerings of their parts to
the rules; each part is lowered at most once, in the order that its rule asks for.
-/

namespace LuaCompiler.Emit

mutual

/-- An expression with the comments around it. -/
def expression (ctx : Context) (role : Role) : Expr → Emit String
  | ⟨id, span, kind⟩ => around span (expressionKind ctx role id kind)

/-- An expression without the comments around it. -/
def expressionKind (ctx : Context) (role : Role) (id : NodeId) : ExprKind → Emit String
  | .name name => reference ctx (ctx.annotations.resolve id name)
  | .nil => return "undefined"
  | .boolean value => return if value then "true" else "false"
  | .number value raw => return Numeral.script value raw
  | .string raw => return role.string raw
  | .vararg => return role.vararg
  | .function f => do
    let text ← function ctx (.plain f) f
    return text.expression
  | .table fields => do
    let last := if spreadsFields fields then .spread else .single
    return tableText fields (← entries ctx last fields)
  | .binary operator left right => do
    let role := Role.operand operator
    let leftText ← expression ctx role left
    let rightText ← expression ctx role right
    return binaryText ctx operator (left.isString || right.isString) leftText rightText
  | .logical operator left right => do
    if operator = .or && isConjunction left && !isLogical right then
      let (condition, consequent) ← conjuncts ctx left
      return conditionalText condition consequent (← expression ctx .single right)
    else
      let leftText ← expression ctx .single left
      let rightText ← expression ctx .single right
      return logicalText ctx operator (isRepeatable left) leftText rightText
  | .unary operator argument => do
    return unaryText ctx operator (← expression ctx .single argument)
  | .member base _ identifier => do
    useMember ctx base identifier
    return memberText (asBase base (← expression ctx .single base)) identifier
  | .index base index => do
    let baseText := asBase base (← expression ctx .single base)
    return baseText ++ brackets (← expression ctx .single index)
  | .call base _ arguments =>
    call ctx role ⟨base, arguments⟩
      { callee := expression ctx .single base
        owner := owner ctx base
        arguments := expressions ctx .spread arguments
        firstArgument := firstExpression ctx arguments
        classBody := classBody ctx arguments }

/-- The two operands of a conjunction. -/
def conjuncts (ctx : Context) : Expr → Emit (String × String)
  | ⟨_, _, .logical _ left right⟩ => do
    let leftText ← expression ctx .single left
    let rightText ← expression ctx .single right
    return (leftText, rightText)
  | _ => return ("", "")

/-- What a member is a member of. -/
def owner (ctx : Context) : Expr → Emit String
  | ⟨_, _, .member base _ _⟩ => expression ctx .single base
  | _ => return ""

/-- What an index is an index of. -/
def indexBase (ctx : Context) : List Expr → Emit String
  | ⟨_, _, .index base _⟩ :: _ => expression ctx .single base
  | _ => return ""

/-- Expressions in a row, of which only the last stands in a role of its own. -/
def expressions (ctx : Context) (last : Role) : List Expr → Emit (List String)
  | [] => return []
  | [only] => do return [← expression ctx last only]
  | first :: rest => do
    let text ← expression ctx .single first
    return text :: (← expressions ctx last rest)

/-- The first of some expressions. -/
def firstExpression (ctx : Context) : List Expr → Emit String
  | [] => return ""
  | first :: _ => expression ctx .single first

/-- The second of some expressions. -/
def secondExpression (ctx : Context) : List Expr → Emit String
  | [] => return ""
  | _ :: rest => firstExpression ctx rest

/-- Members and parent of the class with some arguments. -/
def classBody (ctx : Context) : List Expr → Emit (List String × Option String)
  | ⟨_, _, .table fields⟩ :: rest => do
    let texts ← members ctx.asValue fields
    return (texts, ← parent ctx rest)
  | _ => return ([], none)

/-- The parent of a class: what follows the table of its members. -/
def parent (ctx : Context) : List Expr → Emit (Option String)
  | [] => return none
  | first :: _ => do return some (asBase first (← expression ctx .single first))

/-- The arguments of the first of some expressions, if it is a call. -/
def callArguments (ctx : Context) : List Expr → Emit (List String)
  | ⟨_, _, .call _ _ arguments⟩ :: _ => expressions ctx .spread arguments
  | _ => return []

/-- Members and parent of the first of some expressions, if it is a native class. -/
def valueClassBody (ctx : Context) : List Expr → Emit (List String × Option String)
  | ⟨_, _, .call _ _ arguments⟩ :: _ => classBody ctx arguments
  | _ => return ([], none)

/-- The fields of a table, of which only the last stands in a role of its own. -/
def entries (ctx : Context) (last : Role) : List Field → Emit (List Entry)
  | [] => return []
  | ⟨_, _, kind⟩ :: rest => do
    let first ← entry ctx (if rest.isEmpty then last else .single) kind
    return first :: (← entries ctx last rest)

/-- A field of a table. -/
def entry (ctx : Context) (role : Role) : FieldKind → Emit Entry
  | .positional value => return .positional (← expression ctx role value)
  | .named key value => return .named (Name.asProperty key.name) (← expression ctx .single value)
  | .keyed key value => do
    let keyText ← expression ctx .single key
    return .computed keyText (← expression ctx .single value)

/-- The fields of a class, with the comments around them. -/
def members (ctx : Context) : List Field → Emit (List String)
  | [] => return []
  | ⟨_, span, kind⟩ :: rest => do
    let first ← around span (member ctx span kind)
    return first :: (← members ctx rest)

/-- A field of a class. -/
def member (ctx : Context) (span : Span) : FieldKind → Emit String
  | .named key value => memberValue ctx (Name.asProperty key.name) value
  | .keyed key value => do
    let keyText ← expression ctx .single key
    memberValue ctx (brackets keyText) value
  | .positional _ => contain .positionalMember span

/-- A method or an initialised property of a class. -/
def memberValue (ctx : Context) (key : String) : Expr → Emit String
  | ⟨_, _, .function f⟩ => do
    let convention := Convention.ofFirstParameter f
    let text ← function ctx convention f
    return text.member convention key
  | ⟨id, span, kind⟩ => do
    let text ← around span (expressionKind ctx .single id kind)
    return key ++ " = " ++ text ++ ";"

/-- Parameters and body of a function. -/
def function (ctx : Context) (convention : Convention) : FunctionBody → Emit FunctionText
  | ⟨_, _, parameters, isVararg, body⟩ => do
    let inner := ctx.inFunction parameters convention.shown convention.receiver
    if convention.receiver.isSome then
      let (texts, captured) ← withReceiver (statements inner body)
      return functionText ctx convention isVararg captured texts
    else return functionText ctx convention isVararg false (← statements inner body)

/-- Statements in a row. -/
def statements (ctx : Context) : List Stmt → Emit (List String)
  | [] => return []
  | ⟨id, span, kind⟩ :: rest => do
    let first ← around span (statement ctx id span kind)
    return first :: (← statements ctx rest)

/-- A statement without the comments around it. -/
def statement (ctx : Context) (id : NodeId) (span : Span) : StmtKind → Emit String
  | .local vars init =>
    localStatement ctx id vars init
      { arguments := callArguments ctx init
        classBody := valueClassBody ctx init
        values := expressions ctx.asValue (bindRole vars.length init) init }
  | .assignment targets init =>
    assignment ctx targets init
      { indexBase := indexBase ctx targets
        firstTarget := firstExpression ctx targets
        firstValue := firstExpression ctx init
        classBody := valueClassBody ctx init
        targets := expressions ctx.asValue .single targets
        values := expressions ctx.asValue (bindRole targets.length init) init }
  | .call ⟨id, _, kind⟩ => expressionKind ctx .statement id kind
  | .localFunction name f => do
    let text ← function ctx (.plain f) f
    return text.named (ctx.declaredName name) true (ctx.annotations.redeclared.contains name.id)
  | .function (.name name) f => do
    let text ← function ctx (.plain f) f
    return text.named (ctx.declaredName name) false false
  | .function (.member _ _ base indexer name) f => do
    let baseText := asBase base (← expression ctx .single base)
    let convention := Convention.ofIndexer indexer f
    let text ← function ctx convention f
    return text.assigned convention baseText name
  | .return arguments =>
    if allowsReturn ctx then
      returnStatement ctx arguments (secondExpression ctx arguments)
        (expressions ctx (packRole arguments) arguments)
    else contain .returnOutsideFunction span
  | .break => return "break"
  | .goto label => gotoStatement ctx label span
  | .label label => labelStatement ctx label span
  | .block body => return braced (sequence (← statements ctx.inBlock body))
  | .while condition body => do
    let conditionText ← expression ctx .single condition
    return whileText conditionText (sequence (← statements (ctx.inLoop body) body))
  | .repeat body condition => do
    let bodyText := sequence (← statements (ctx.inLoop body) body)
    return repeatText bodyText (← expression ctx .single condition)
  | .conditional ⟨_, _, condition, body⟩ others otherwise => do
    let conditionText ← expression ctx .single condition
    let first := ifText conditionText (sequence (← statements ctx.inBlock body))
    let middle ← clauses ctx others
    return "\n".intercalate (first :: middle ++ (← elseClause ctx otherwise))
  | .forNumeric counter first last step body => do
    let firstText ← expression ctx.asBound .single first
    let lastText ← expression ctx.asBound .single last
    let stepText ← optional ctx.asBound "1" step
    let header := forNumericHeader (ctx.declaredName counter) first step firstText lastText stepText
    return header ++ " " ++ braced (sequence (← statements (ctx.inLoop body) body))
  | .forGeneric vars [iterator] body => do
    let source ← iterated ctx iterator
    return forGenericText ctx vars source (sequence (← statements (ctx.inLoop body) body))
  | .forGeneric _ iterators _ => contain (.iterators iterators.length) span

/-- An expression that may be left out. -/
def optional (ctx : Context) (absent : String) : Option Expr → Emit String
  | none => return absent
  | some e => expression ctx .single e

/-- What a generic loop runs over: a standard iterator has a counterpart in the support module. -/
def iterated (ctx : Context) : Expr → Emit String
  | ⟨id, span, .call base .arguments arguments⟩ =>
    match iteratorFunction? base with
    | some name => do return callText ("l2j." ++ name) (← expressions ctx .spread arguments)
    | none => around span (expressionKind ctx .single id (.call base .arguments arguments))
  | ⟨id, span, kind⟩ => around span (expressionKind ctx .single id kind)

/-- The clauses of a conditional between its first and its last. -/
def clauses (ctx : Context) : List Clause → Emit (List String)
  | [] => return []
  | ⟨_, _, condition, body⟩ :: rest => do
    let conditionText ← expression ctx .single condition
    let first := elseIfText conditionText (sequence (← statements ctx.inBlock body))
    return first :: (← clauses ctx rest)

/-- The last clause of a conditional, if there is one. -/
def elseClause (ctx : Context) : Option ElseClause → Emit (List String)
  | none => return []
  | some ⟨_, _, body⟩ => do return [elseText (sequence (← statements ctx.inBlock body))]

end

attribute [grind =] expression expressionKind conjuncts owner indexBase expressions firstExpression
  secondExpression classBody parent callArguments valueClassBody entries entry members member
  memberValue function statements statement optional iterated clauses elseClause

/-- A chunk: its statements, the classes left to seal, and the comments left. -/
def chunk (ctx : Context) (chunk : Chunk) : Emit String := do
  let body := sequence (← statements ctx chunk.body)
  let classes := (← get).classes
  let sealed :=
    if exportsValue chunk || classes.isEmpty then body
    else (if body.isEmpty then "" else body ++ ";\n") ++ sealing classes
  let tail ← commentsLeft
  return if tail.isEmpty then sealed else sealed ++ "\n" ++ tail

end LuaCompiler.Emit
