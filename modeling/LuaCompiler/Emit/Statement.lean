import LuaCompiler.Emit.Class
import LuaCompiler.Emit.Expression

/-!
# Rules for the other statements

Conditionals, loops, jumps and `return`. A loop over numbers from one counts from zero, since it
usually walks over the indices of an array. `return nil, message` raises an error. A `return` in the
chunk is the module's export, before which all classes are sealed.
-/

namespace LuaCompiler.Emit

/-- The first clause of a conditional. -/
def ifText (condition body : String) : String :=
  "if " ++ parens condition ++ " " ++ braced body

/-- A further clause of a conditional. -/
def elseIfText (condition body : String) : String :=
  "else " ++ ifText condition body

/-- The last clause of a conditional. -/
def elseText (body : String) : String :=
  "else " ++ braced body

/-- A loop with a condition before its body. -/
def whileText (condition body : String) : String :=
  "while " ++ parens condition ++ " " ++ braced body

/-- A loop that ends when a condition behind its body holds. -/
def repeatText (body condition : String) : String :=
  "do " ++ braced body ++ " while " ++ parens ("!" ++ parens condition)

/-- Whether a step is a negative numeral. -/
def isNegative (step : Expr) : Bool :=
  match step.kind with
  | .unary .neg ⟨_, _, .number value _⟩ => value.isPositive
  | _ => false

/-- The header of a loop over numbers. -/
def forNumericHeader (name : String) (first : Expr) (step : Option Expr)
    (firstText lastText stepText : String) : String :=
  let descending := step.any isNegative
  let rebased := first.isNumber .one
  let compare := (if descending then ">" else "<") ++ if rebased then "" else "="
  "for " ++ parens ("let " ++ name ++ " = " ++ (if rebased then "0" else firstText) ++ "; " ++
    name ++ " " ++ compare ++ " " ++ lastText ++ "; " ++ name ++ " = " ++ name ++ " + " ++ stepText)

/-- The function of the support module for a standard iterator. -/
def iteratorFunction? (base : Expr) : Option String :=
  base.name?.filter fun name => name == "pairs" || name == "ipairs"

/-- A loop over what an iterator gives. -/
def forGenericText (ctx : Context) (vars : List Identifier) (iterator body : String) :
    String :=
  let target := match vars.map ctx.declaredName with
    | [only] => only
    | names => brackets (commas names)
  "for " ++ parens ("let " ++ target ++ " of " ++ iterator) ++ " " ++ braced body

/-- Whether the arguments of `return` say that something failed. -/
def isFailure (arguments : List Expr) : Bool :=
  match arguments with
  | [first, _] => first.isNil
  | _ => false

/-- The export of a module. -/
def exportText (ctx : Context) (classes : List String) (packed : String) : String :=
  let value := if (Text.trim packed).isEmpty then "undefined" else packed
  let target := if ctx.options.asEsm then "export default " else "exports.default = "
  sealing classes ++ target ++ value

/-- A `return` in a function. A value that starts with a line break or a comment is wrapped, so that
it stays behind its keyword. -/
def returnText (packed : String) : String :=
  match packed.toList with
  | [] => "return"
  | c :: _ => if c == '\n' || c == '/' then "return " ++ parens packed else "return " ++ packed

/-- A `return` with some arguments, given the lowerings of its second argument and of all of them.
-/
def returnStatement (ctx : Context) (arguments : List Expr) (second : Emit String)
    (all : Emit (List String)) : Emit String := do
  if isFailure arguments then return "throw new Error" ++ parens (← second)
  else
    let packed := packText (← all)
    if ctx.isTop then return exportText ctx (← get).classes packed
    else return returnText packed

/-- Whether a `return` can stand at a node. -/
def allowsReturn (ctx : Context) : Bool := ctx.isTop || ctx.functionDepth != 0

/-- A jump: to the end of the innermost loop or nowhere. -/
def gotoStatement (ctx : Context) (label : Identifier) (span : Span) : Emit String :=
  if ctx.continueLabel = some label.name then return "continue"
  else contain (.goto label.name) span

/-- A label: at the end of the innermost loop or nowhere. -/
def labelStatement (ctx : Context) (label : Identifier) (span : Span) : Emit String :=
  if ctx.continueLabel = some label.name then return ""
  else contain .label span

/-- Whether a chunk exports a value. -/
def exportsValue (chunk : Chunk) : Bool :=
  match chunk.body.getLast? with
  | some ⟨_, _, .return arguments⟩ => !isFailure arguments
  | _ => false

end LuaCompiler.Emit
