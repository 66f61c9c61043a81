import LuaCompiler.Emit.Progress

/-!
# Rules for classes and functions

Lua programs build classes from tables. `class({...}, Parent)` becomes a class of JavaScript whose
members are the table's fields, `class(Parent)` a class made by the support module. A function with
a first parameter `self` is a method, one with a first parameter `cls` a static method; the
parameter then is the receiver and is not written.
-/

namespace LuaCompiler.Emit

/-- Whether a call is one of `class` with at least one argument. -/
def isClassCall (base : Expr) (arguments : List Expr) : Bool :=
  base.isName "class" && !arguments.isEmpty

/-- Whether an expression is a table constructor. -/
def isTable (e : Expr) : Bool :=
  match e.kind with
  | .table _ => true
  | _ => false

/-- Whether an expression is the empty table. -/
def isEmptyTable (e : Expr) : Bool :=
  match e.kind with
  | .table fields => fields.isEmpty
  | _ => false

/-- Whether the arguments of `class` define a native class: the first one lists the members. -/
def isNativeClass (arguments : List Expr) : Bool :=
  arguments.head?.any isTable

/-- A native class, with or without a name and a parent. -/
def classText (name parent : Option String) (members : List String) : String :=
  let heading := "class" ++ (name.map (" " ++ ·)).getD "" ++
    (parent.map (" extends " ++ ·)).getD ""
  heading ++ " " ++ braced ("\n" ++ "\n".intercalate members ++ "\n")

/-- A class made by the support module. -/
def createClassText (arguments : List String) : String :=
  callText "l2j.createClass" arguments

/-- How a function takes its receiver. -/
structure Convention where
  /-- the receiver's name, for a method -/
  receiver : Option String
  /-- the parameters to write -/
  shown : List Identifier
  /-- whether the function belongs to the instances of a class -/
  onInstances : Bool

/-- A function whose parameters are all its own. -/
def Convention.plain (function : FunctionBody) : Convention :=
  ⟨none, function.parameters, false⟩

/-- A function defined behind a dot: its first parameter says whether it is a method. -/
def Convention.ofFirstParameter (function : FunctionBody) : Convention :=
  match function.firstParameter? with
  | some "self" => ⟨some "self", function.parameters.tail, true⟩
  | some "cls" => ⟨some "cls", function.parameters.tail, false⟩
  | _ => .plain function

/-- A function defined behind a dot or colon. -/
def Convention.ofIndexer (indexer : Indexer) (function : FunctionBody) : Convention :=
  match indexer with
  | .colon => ⟨some "self", function.parameters, true⟩
  | .dot => .ofFirstParameter function

/-- The parameters of a function as they are written. -/
def parameterText (ctx : Context) (shown : List Identifier) (isVararg : Bool) : String :=
  commas (shown.map ctx.declaredName ++ if isVararg then ["...varargs"] else [])

/-- Parameters and body of a lowered function. -/
structure FunctionText where
  parameters : String
  body : String

/-- A lowered function. A method that nested functions refer to keeps its receiver in a variable. -/
def functionText (ctx : Context) (convention : Convention) (isVararg captured : Bool)
    (statements : List String) : FunctionText where
  parameters := parameterText ctx convention.shown isVararg
  body :=
    (if captured then "let " ++ receiverAlias ++ " = this;\n" else "") ++ sequence statements

/-- A function that is a value. -/
def FunctionText.expression (f : FunctionText) : String :=
  "function " ++ parens f.parameters ++ braced f.body

/-- A function as a member of a native class. -/
def FunctionText.member (f : FunctionText) (convention : Convention) (key : String) : String :=
  (if convention.receiver == some "cls" then "static " else "") ++ key ++ parens f.parameters ++
    " " ++ braced f.body

/-- A function statement for a name. A local that redeclares is assigned to; a global is published.
-/
def FunctionText.named (f : FunctionText) (name : String) (isLocal redeclares : Bool) : String :=
  let declaration := "function " ++ name ++ parens f.parameters ++ braced f.body
  if isLocal then
    if redeclares then name ++ " = " ++ f.expression else declaration
  else declaration ++ "\n_G." ++ name ++ " = " ++ name ++ ";\n"

/-- A function statement for a member of a base. -/
def FunctionText.assigned (f : FunctionText) (convention : Convention) (base : String)
    (identifier : Identifier) : String :=
  let owner := if convention.onInstances then base ++ ".prototype" else base
  owner ++ "." ++ Name.asProperty identifier.name ++ " = " ++ f.expression

end LuaCompiler.Emit
