import LuaCompiler.Emit.Walk
import LuaCompiler.Proofs.Emit.Layout

/-!
# The layout of a program

The layout of every node, by the same recursion as the walk over the tree. It depends on the node
and its context, and on the globals that programs read, which decide how a method is called; it does
not depend on any text.

The rules that do not write a text once and in its place are

* a loop over numbers from one, which writes a zero for its start: `loopStart`;
* `and` and `or` of a value that is kept, with a left operand that can be repeated: `logical`;
* a native class, whose heading names the parent behind the members it was made after: `classBody`.

The condition behind the body of a loop stands outside the body's braces: `Layout.loopUntil`.
-/

namespace LuaCompiler.Emit.Layout

/-- Layouts in a row. -/
def row : List Layout → Layout
  | [] => .blank
  | [only] => only
  | first :: rest => .append first (row rest)

/-- The bindings of declared identifiers. -/
def bindings (ctx : Context) (vars : List Identifier) : Layout :=
  row (vars.map fun v => .binding v.id (ctx.declaredName v))

/-- The identifiers that a `local` statement binds: in one that redeclares, those that are new. -/
def newVars (ctx : Context) (id : NodeId) (vars : List Identifier) : List Identifier :=
  if ctx.annotations.duplicated.contains id then
    vars.filter fun v => !ctx.annotations.redeclared.contains v.id
  else vars

/-- How a function with some parameters takes its receiver. -/
def reception (convention : Convention) (parameters : List Identifier) : Reception :=
  match convention.receiver, parameters with
  | none, _ => .none
  | some _, first :: _ =>
    if convention.shown.length < parameters.length then .parameter first else .beside
  | some _, [] => .beside

/-- The parameters of a function that are written. -/
def parameters (ctx : Context) (shown : List Identifier) (isVararg : Bool) : Layout :=
  row (shown.map (fun v => .binding v.id (ctx.declaredName v)) ++ if isVararg then [.blank] else [])

/-- The layouts of the parts of a call. -/
structure CallLayouts where
  callee : Layout
  owner : Layout
  arguments : Layout
  firstArgument : Layout
  classBody : Layout

/-- The layouts of the parts of an assignment. -/
structure AssignmentLayouts where
  indexBase : Layout
  firstTarget : Layout
  firstValue : Layout
  classBody : Layout
  targets : Layout
  values : Layout

/-- The layouts of the parts of a `local` statement. -/
structure LocalLayouts where
  arguments : Layout
  classBody : Layout
  values : Layout

/-- The layout of a class without members and parent. -/
def emptyClass : Layout := .swapped (.braces false .blank) .blank

/-- The layout of a logical operator. A left operand that is repeated stands around the right one
or before it. -/
def logical (ctx : Context) (operator : LogicalOperator) (repeatable : Bool)
    (left right : Layout) : Layout :=
  if ctx.valueContext && repeatable then
    match operator with
    | .and => .enclosing left right
    | .or => .append (.twice left) right
  else .append left right

/-- The layout of a call of whatever the callee denotes. -/
def genericCall (parts : CallLayouts) : Layout := .append parts.callee parts.arguments

/-- The layout of a call, which may be a statement. An error raised elsewhere stands in a function
of its own. -/
def call (ctx : Context) (registries : Registries) (isStatement : Bool) (site : CallSite)
    (parts : CallLayouts) : Layout :=
  match patternAt ctx site with
  | .classFactory => if isNativeClass site.arguments then parts.classBody else parts.arguments
  | .selectLength => .blank
  | .selectIndex =>
    match site.arguments with
    | ⟨_, _, .number ..⟩ :: _ => .blank
    | _ :: _ => parts.firstArgument
    | [] => genericCall parts
  | .error => if isStatement then parts.firstArgument else .braces true parts.firstArgument
  | .systemFunction =>
    if site.base.qualifiedName?.isSome then parts.arguments else genericCall parts
  | .selfCall =>
    match site.base.kind with
    | .member owner _ _ =>
      if isForeignGlobal ctx registries owner then genericCall parts
      else .append parts.owner parts.arguments
    | _ => genericCall parts
  | .generic => genericCall parts
  | .stringFormat | .tableInsert | .tableInsertAt | .tableConcat | .type | .require | .valueType
  | .assert => parts.arguments

/-- The layout of the class that a `local` statement defines, if it does. -/
def localClass? (ctx : Context) (v : Identifier) (value : Expr) (parts : LocalLayouts) :
    Option Layout :=
  let name := .binding v.id (ctx.declaredName v)
  if ctx.isTop && isModuleName ctx v.name && isEmptyTable value then some name
  else match value.kind with
    | .call base _ arguments =>
      if !isClassCall base arguments then none
      else if isNativeClass arguments then some (.append name parts.classBody)
      else some (.append name parts.arguments)
    | _ => none

/-- The layout of a `local` statement. -/
def localStatement (ctx : Context) (id : NodeId) (vars : List Identifier) (init : List Expr)
    (parts : LocalLayouts) : Layout :=
  let binding := .append (bindings ctx (newVars ctx id vars))
    (if init.isEmpty then .blank else parts.values)
  match vars, init with
  | [v], [value] => (localClass? ctx v value parts).getD binding
  | _, _ => binding

/-- The layout of an assignment. -/
def assignment (ctx : Context) (targets init : List Expr) (parts : AssignmentLayouts) : Layout :=
  match appendBase? targets init with
  | some _ => .append parts.indexBase parts.firstValue
  | none =>
    match definesClass targets init, targets with
    | true, ⟨id, _, .name name⟩ :: _ => .append (.word ⟨ctx, id, name, true⟩) parts.classBody
    | true, _ :: _ => .append parts.firstTarget parts.classBody
    | _, _ => .append parts.targets parts.values

/-- The layout of a `return` with the layouts of its second argument and of all of them. -/
def returnStatement (ctx : Context) (arguments : List Expr) (second all : Layout) : Layout :=
  if isFailure arguments then second
  else if ctx.isTop then .append .sealing (.unlessBlank all)
  else all

/-- The layout of the start of a loop over numbers, which is not written if it is one. -/
def loopStart (first : Expr) (layout : Layout) : Layout :=
  if first.isNumber .one then .dropped layout else layout

/-- The layout of a jump or a label: nothing at the end of the innermost loop, a remark elsewhere. -/
def jump (ctx : Context) (label : Identifier) (unsupported : Unsupported) : Layout :=
  if ctx.continueLabel = some label.name then .blank else .remark unsupported

mutual

/-- An expression with the comments around it. -/
def expression (ctx : Context) (registries : Registries) : Expr → Layout
  | ⟨id, span, kind⟩ => .around span (expressionKind ctx registries false id kind)

/-- An expression without the comments around it. -/
def expressionKind (ctx : Context) (registries : Registries) (isStatement : Bool) (id : NodeId) :
    ExprKind → Layout
  | .name name => .word ⟨ctx, id, name, false⟩
  | .nil | .boolean _ | .number .. | .string _ | .vararg => .blank
  | .function f => function ctx registries (.plain f) f
  | .table fields =>
    if spreadsFields fields then entries ctx registries fields
    else .braces false (entries ctx registries fields)
  | .binary _ left right =>
    .append (expression ctx registries left) (expression ctx registries right)
  | .logical operator left right =>
    if operator = .or && isConjunction left && !isLogical right then
      .append (conjuncts ctx registries left) (expression ctx registries right)
    else logical ctx operator (isRepeatable left) (expression ctx registries left)
      (expression ctx registries right)
  | .unary _ argument => expression ctx registries argument
  | .member base _ _ => expression ctx registries base
  | .index base index =>
    .append (expression ctx registries base) (expression ctx registries index)
  | .call base _ arguments =>
    call ctx registries isStatement ⟨base, arguments⟩
      { callee := expression ctx registries base
        owner := owner ctx registries base
        arguments := expressions ctx registries arguments
        firstArgument := firstExpression ctx registries arguments
        classBody := classBody ctx registries arguments }

/-- The two operands of a conjunction. -/
def conjuncts (ctx : Context) (registries : Registries) : Expr → Layout
  | ⟨_, _, .logical _ left right⟩ =>
    .append (expression ctx registries left) (expression ctx registries right)
  | _ => .blank

/-- What a member is a member of. -/
def owner (ctx : Context) (registries : Registries) : Expr → Layout
  | ⟨_, _, .member base _ _⟩ => expression ctx registries base
  | _ => .blank

/-- What an index is an index of. -/
def indexBase (ctx : Context) (registries : Registries) : List Expr → Layout
  | ⟨_, _, .index base _⟩ :: _ => expression ctx registries base
  | _ => .blank

/-- Expressions in a row. -/
def expressions (ctx : Context) (registries : Registries) : List Expr → Layout
  | [] => .blank
  | [only] => expression ctx registries only
  | first :: rest => .append (expression ctx registries first) (expressions ctx registries rest)

/-- The first of some expressions. -/
def firstExpression (ctx : Context) (registries : Registries) : List Expr → Layout
  | [] => .blank
  | first :: _ => expression ctx registries first

/-- The second of some expressions. -/
def secondExpression (ctx : Context) (registries : Registries) : List Expr → Layout
  | [] => .blank
  | _ :: rest => firstExpression ctx registries rest

/-- Members and parent of the class with some arguments. -/
def classBody (ctx : Context) (registries : Registries) : List Expr → Layout
  | ⟨_, _, .table fields⟩ :: rest =>
    .swapped (.braces false (members ctx.asValue registries fields)) (parent ctx registries rest)
  | _ => emptyClass

/-- The parent of a class. -/
def parent (ctx : Context) (registries : Registries) : List Expr → Layout
  | [] => .blank
  | first :: _ => expression ctx registries first

/-- The arguments of the first of some expressions, if it is a call. -/
def callArguments (ctx : Context) (registries : Registries) : List Expr → Layout
  | ⟨_, _, .call _ _ arguments⟩ :: _ => expressions ctx registries arguments
  | _ => .blank

/-- Members and parent of the first of some expressions, if it is a native class. -/
def valueClassBody (ctx : Context) (registries : Registries) : List Expr → Layout
  | ⟨_, _, .call _ _ arguments⟩ :: _ => classBody ctx registries arguments
  | _ => emptyClass

/-- The fields of a table. -/
def entries (ctx : Context) (registries : Registries) : List Field → Layout
  | [] => .blank
  | ⟨_, _, kind⟩ :: rest => .append (entry ctx registries kind) (entries ctx registries rest)

/-- A field of a table. -/
def entry (ctx : Context) (registries : Registries) : FieldKind → Layout
  | .positional value => expression ctx registries value
  | .named _ value => expression ctx registries value
  | .keyed key value => .append (expression ctx registries key) (expression ctx registries value)

/-- The fields of a class, with the comments around them. -/
def members (ctx : Context) (registries : Registries) : List Field → Layout
  | [] => .blank
  | ⟨_, span, kind⟩ :: rest =>
    .append (.around span (member ctx registries kind)) (members ctx registries rest)

/-- A field of a class. -/
def member (ctx : Context) (registries : Registries) : FieldKind → Layout
  | .named _ value => memberValue ctx registries value
  | .keyed key value => .append (expression ctx registries key) (memberValue ctx registries value)
  | .positional _ => .remark .positionalMember

/-- A method or an initialised property of a class. -/
def memberValue (ctx : Context) (registries : Registries) : Expr → Layout
  | ⟨_, _, .function f⟩ => function ctx registries (.ofFirstParameter f) f
  | ⟨id, span, kind⟩ => .around span (expressionKind ctx registries false id kind)

/-- Parameters and body of a function. -/
def function (ctx : Context) (registries : Registries) (convention : Convention) :
    FunctionBody → Layout
  | ⟨_, _, names, isVararg, body⟩ =>
    .callable (reception convention names) (parameters ctx convention.shown isVararg)
      (.braces true (statements (ctx.inFunction names convention.shown convention.receiver)
        registries body))

/-- Statements in a row. -/
def statements (ctx : Context) (registries : Registries) : List Stmt → Layout
  | [] => .blank
  | ⟨id, span, kind⟩ :: rest =>
    .append (.around span (statement ctx registries id kind)) (statements ctx registries rest)

/-- A statement without the comments around it. -/
def statement (ctx : Context) (registries : Registries) (id : NodeId) : StmtKind → Layout
  | .local vars init =>
    localStatement ctx id vars init
      { arguments := callArguments ctx registries init
        classBody := valueClassBody ctx registries init
        values := expressions ctx.asValue registries init }
  | .assignment targets init =>
    assignment ctx targets init
      { indexBase := indexBase ctx registries targets
        firstTarget := firstExpression ctx registries targets
        firstValue := firstExpression ctx registries init
        classBody := valueClassBody ctx registries init
        targets := expressions ctx.asValue registries targets
        values := expressions ctx.asValue registries init }
  | .call ⟨id, _, kind⟩ => expressionKind ctx registries true id kind
  | .localFunction name f =>
    .append (if ctx.annotations.redeclared.contains name.id then .blank
        else .binding name.id (ctx.declaredName name))
      (function ctx registries (.plain f) f)
  | .function (.name name) f =>
    .append (.word ⟨ctx, name.id, name.name, true⟩) (function ctx registries (.plain f) f)
  | .function (.member _ _ base indexer _) f =>
    .append (expression ctx registries base) (function ctx registries (.ofIndexer indexer f) f)
  | .return arguments =>
    if allowsReturn ctx then
      returnStatement ctx arguments (secondExpression ctx registries arguments)
        (expressions ctx registries arguments)
    else .remark .returnOutsideFunction
  | .break => .blank
  | .goto label => jump ctx label (.goto label.name)
  | .label label => jump ctx label .label
  | .block body => .braces true (statements ctx.inBlock registries body)
  | .while condition body =>
    .append (expression ctx registries condition)
      (.braces true (statements (ctx.inLoop body) registries body))
  | .repeat body condition =>
    .loopUntil (statements (ctx.inLoop body) registries body) (expression ctx registries condition)
  | .conditional ⟨_, _, condition, body⟩ others otherwise =>
    .append (.append (expression ctx registries condition)
        (.braces true (statements ctx.inBlock registries body)))
      (.append (clauses ctx registries others) (elseClause ctx registries otherwise))
  | .forNumeric counter first last step body =>
    .region (.append (.binding counter.id (ctx.declaredName counter))
        (.append (loopStart first (expression ctx.asBound registries first))
          (.append (expression ctx.asBound registries last) (optional ctx.asBound registries step))))
      (.braces true (statements (ctx.inLoop body) registries body))
  | .forGeneric vars [iterator] body =>
    .region (.append (bindings ctx vars) (iterated ctx registries iterator))
      (.braces true (statements (ctx.inLoop body) registries body))
  | .forGeneric _ iterators _ => .remark (.iterators iterators.length)

/-- An expression that may be left out. -/
def optional (ctx : Context) (registries : Registries) : Option Expr → Layout
  | none => .blank
  | some e => expression ctx registries e

/-- What a generic loop runs over. -/
def iterated (ctx : Context) (registries : Registries) : Expr → Layout
  | ⟨id, span, .call base .arguments arguments⟩ =>
    if (iteratorFunction? base).isSome then expressions ctx registries arguments
    else .around span (expressionKind ctx registries false id (.call base .arguments arguments))
  | ⟨id, span, kind⟩ => .around span (expressionKind ctx registries false id kind)

/-- The clauses of a conditional between its first and its last. -/
def clauses (ctx : Context) (registries : Registries) : List Clause → Layout
  | [] => .blank
  | ⟨_, _, condition, body⟩ :: rest =>
    .append (.append (expression ctx registries condition)
        (.braces true (statements ctx.inBlock registries body)))
      (clauses ctx registries rest)

/-- The last clause of a conditional, if there is one. -/
def elseClause (ctx : Context) (registries : Registries) : Option ElseClause → Layout
  | none => .blank
  | some ⟨_, _, body⟩ => .braces true (statements ctx.inBlock registries body)

end

/-- A program: its statements, the classes left to seal, and the comments left. -/
def chunk (ctx : Context) (registries : Registries) (chunk : Chunk) : Layout :=
  .append (statements ctx registries chunk.body)
    (.append (if exportsValue chunk then .blank else .sealing) .remaining)

end LuaCompiler.Emit.Layout
