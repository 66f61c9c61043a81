import LuaCompiler.Emit.Progress
import LuaCompiler.Numeral
import LuaCompiler.StringLiteral

/-!
# Rules for expressions

How the text of an expression is put together from the texts of its parts. What the rest of the
arguments and the string `"table"` become depends on where they stand: their `Role`.
-/

namespace LuaCompiler.Emit

/-- Where an expression stands. -/
inductive Role where
  /-- where one value is wanted -/
  | single
  /-- last in a list of values: all values left go into the list -/
  | spread
  /-- alone where several values make one: all values left go into an array -/
  | packed
  /-- beside a comparison -/
  | compared
  /-- alone as a statement -/
  | statement
deriving DecidableEq

namespace Role

/-- The rest of the arguments. -/
def vararg : Role → String
  | spread => "...varargs"
  | packed => "[...varargs]"
  | _ => "varargs[0]"

/-- A string literal. A type compared with `"table"` is compared with what tables are at run time.
-/
def string (role : Role) (raw : String) : String :=
  if role = compared ∧ StringLiteral.content raw = "table" then "\"object\""
  else StringLiteral.toScript raw

/-- Where the operands of an operator stand. -/
def operand (operator : BinaryOperator) : Role :=
  if operator.isComparison then compared else single

end Role

/-- The base of a member, an index or a call, in parentheses where JavaScript needs them. -/
def asBase (base : Expr) (text : String) : String :=
  match base.kind with
  | .number .. | .string _ | .function _ | .table _ | .unary .. => parens text
  | _ => text

/-- JavaScript's sign for an operator; floor division has none and is a quotient to be rounded. -/
def operatorSign : BinaryOperator → String
  | .add => "+" | .sub => "-" | .mul => "*" | .div => "/" | .floorDiv => "/" | .mod => "%"
  | .pow => "**" | .concat => "+" | .eq => "===" | .ne => "!==" | .lt => "<" | .le => "<="
  | .gt => ">" | .ge => ">=" | .bitAnd => "&" | .bitOr => "|" | .bitXor => "^"
  | .shiftLeft => "<<" | .shiftRight => ">>"

/-- The function of the support module that does an operator's work in operator mode. -/
def operatorFunction? : BinaryOperator → Option String
  | .add => some "l2j.add"
  | .sub => some "l2j.sub"
  | .mul => some "l2j.mul"
  | .div => some "l2j.div"
  | .eq => some "l2j.eq"
  | .ne => some "!l2j.eq"
  | _ => none

/-- An operator between two texts. -/
def nativeBinary (operator : BinaryOperator) (left right : String) : String :=
  match operator with
  | .floorDiv => "Math.floor" ++ parens (left ++ " / " ++ right)
  | _ => parens (left ++ " " ++ operatorSign operator ++ " " ++ right)

/-- An operator between the texts of two operands; a string literal is never an operand of the
support module. -/
def binaryText (ctx : Context) (operator : BinaryOperator) (hasString : Bool)
    (left right : String) : String :=
  match if ctx.operatorMode && !hasString then operatorFunction? operator else none with
  | some function => callText function [left, right]
  | none => nativeBinary operator left right

/-- An operator before a text. -/
def unaryText (ctx : Context) (operator : UnaryOperator) (argument : String) : String :=
  match operator with
  | .not => "!" ++ argument
  | .len => callText "l2j.table.length" [argument]
  | .bitNot => "~" ++ argument
  | .neg =>
    if ctx.operatorMode then callText "l2j.neg" [argument]
    else if Text.startsWith argument "-" then "-" ++ parens argument
    else "-" ++ argument

/-- JavaScript's own sign for a logical operator. -/
def logicalSign : LogicalOperator → String
  | .and => "&&"
  | .or => "||"

/-- Whether an operand can be evaluated twice without effect. -/
def isRepeatable (e : Expr) : Bool :=
  match e.kind with
  | .name _ | .nil | .boolean _ | .number .. | .string _ => true
  | _ => false

/-- A logical operator whose value is kept: the left operand is evaluated once or can be repeated,
and truth is Lua's. -/
def logicalValue (operator : LogicalOperator) (repeatable : Bool) (left right : String) : String :=
  let condition := "l2j.condition" ++ parens left
  match operator, repeatable with
  | .and, true => parens (condition ++ " ? " ++ right ++ " : " ++ left)
  | .or, true => parens (condition ++ " ? " ++ left ++ " : " ++ right)
  | .and, false => callText "l2j.and" [left, "() => " ++ parens right]
  | .or, false => callText "l2j.or" [left, "() => " ++ parens right]

/-- A logical operator between two texts. -/
def logicalText (ctx : Context) (operator : LogicalOperator) (repeatable : Bool)
    (left right : String) : String :=
  if ctx.valueContext then logicalValue operator repeatable left right
  else parens (left ++ " " ++ logicalSign operator ++ " " ++ right)

/-- `condition and consequent or alternate`. -/
def conditionalText (condition consequent alternate : String) : String :=
  parens ("l2j.condition" ++ parens condition ++ " ? " ++ parens consequent ++ " : " ++
    parens alternate)

/-- Whether an expression is a conjunction. -/
def isConjunction (e : Expr) : Bool :=
  match e.kind with
  | .logical .and _ _ => true
  | _ => false

/-- Whether an expression is built by a logical operator. -/
def isLogical (e : Expr) : Bool :=
  match e.kind with
  | .logical .. => true
  | _ => false

/-- Registers a member as a library function if its base is a library. -/
def useMember (ctx : Context) (base : Expr) (identifier : Identifier) : Emit Unit :=
  match base.name? with
  | some library =>
    if ctx.isLibrary library then useSystemFunction library identifier.name else pure ()
  | none => pure ()

/-- A member of a base. -/
def memberText (base : String) (identifier : Identifier) : String :=
  base ++ "." ++ Name.asProperty identifier.name

/-- The values of a list as one: nothing, the only one, or an array. -/
def packText : List String → String
  | [] => ""
  | [only] => only
  | items => brackets (commas items)

/-- Where the last of some values to be packed stands. -/
def packRole (values : List Expr) : Role :=
  if values.length = 1 then .packed else .spread

/-- A field of a table constructor, lowered. -/
inductive Entry where
  | positional (value : String)
  | named (key value : String)
  | computed (key value : String)

/-- Entries with the positional ones numbered from a number on. -/
def entryTexts : Nat → List Entry → List String
  | _, [] => []
  | n, .positional value :: rest => (toString n ++ ": " ++ value) :: entryTexts (n + 1) rest
  | n, .named key value :: rest => (key ++ ": " ++ value) :: entryTexts n rest
  | n, .computed key value :: rest => (brackets key ++ ": " ++ value) :: entryTexts n rest

/-- The value of an entry. -/
def Entry.value : Entry → String
  | positional value => value
  | named _ value => value
  | computed _ value => value

/-- Whether all fields are positional and the last one is the rest of the arguments. -/
def spreadsFields (fields : List Field) : Bool :=
  fields.all (·.kind.isPositional) && fields.getLast?.any (·.kind.value.isVararg)

/-- A table constructor with some fields, of which the entries are the lowered form. -/
def tableText (fields : List Field) (entries : List Entry) : String :=
  if spreadsFields fields then
    "l2j.convertJsArrayToLuaTable" ++ parens (brackets (commas (entries.map Entry.value)))
  else braced (commas (entryTexts 1 entries))

end LuaCompiler.Emit
