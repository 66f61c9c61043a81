import LuaCompiler.Parser
import LuaCompiler.Proofs.Tree.Outline

/-!
# Call styles

`f{...}` and `f"..."` are other ways to write `f({...})` and `f("...")`. `unsugared chosen` writes the
chosen calls of a tree with parentheses and leaves everything else as it is: places, identities, what is
called and with which argument.

* `Expr.unsugared`, `Chunk.unsugared`, `Parsed.unsugared`: trees and programs with chosen calls in
  parentheses.
* `Chunk.sugaredIterators`: the calls of `pairs` and `ipairs` without parentheses that a generic loop
  runs over.
* `Expr.outline_unsugared`: the outline of a tree stays as it is, and with it all that the outline
  tells.
-/

namespace LuaCompiler

/-! ## Trees -/

section Trees

variable (chosen : NodeId → Bool)

mutual

/-- An expression with the chosen calls in parentheses. -/
def Expr.unsugared : Expr → Expr
  | ⟨id, span, kind⟩ => ⟨id, span, kind.unsugared id⟩

def ExprKind.unsugared (id : NodeId) : ExprKind → ExprKind
  | .function f => .function f.unsugared
  | .table fields => .table (fieldsUnsugared fields)
  | .binary operator left right => .binary operator left.unsugared right.unsugared
  | .logical operator left right => .logical operator left.unsugared right.unsugared
  | .unary operator argument => .unary operator argument.unsugared
  | .member base indexer identifier => .member base.unsugared indexer identifier
  | .index base index => .index base.unsugared index.unsugared
  | .call base style arguments =>
    .call base.unsugared (if chosen id then .arguments else style) (exprsUnsugared arguments)
  | kind => kind

def exprsUnsugared : List Expr → List Expr
  | [] => []
  | first :: rest => first.unsugared :: exprsUnsugared rest

def fieldsUnsugared : List Field → List Field
  | [] => []
  | ⟨id, span, kind⟩ :: rest => ⟨id, span, kind.unsugared⟩ :: fieldsUnsugared rest

def FieldKind.unsugared : FieldKind → FieldKind
  | .named key value => .named key value.unsugared
  | .keyed key value => .keyed key.unsugared value.unsugared
  | .positional value => .positional value.unsugared

def FunctionBody.unsugared : FunctionBody → FunctionBody
  | ⟨id, span, parameters, isVararg, body⟩ => ⟨id, span, parameters, isVararg, blockUnsugared body⟩

def FunctionTarget.unsugared : FunctionTarget → FunctionTarget
  | .name identifier => .name identifier
  | .member id span base indexer identifier => .member id span base.unsugared indexer identifier

/-- A block with the chosen calls in parentheses. -/
def blockUnsugared : List Stmt → List Stmt
  | [] => []
  | ⟨id, span, kind⟩ :: rest => ⟨id, span, kind.unsugared⟩ :: blockUnsugared rest

def StmtKind.unsugared : StmtKind → StmtKind
  | .local vars init => .local vars (exprsUnsugared init)
  | .assignment targets init => .assignment (exprsUnsugared targets) (exprsUnsugared init)
  | .call expression => .call expression.unsugared
  | .localFunction name f => .localFunction name f.unsugared
  | .function target f => .function target.unsugared f.unsugared
  | .return arguments => .return (exprsUnsugared arguments)
  | .break => .break
  | .goto label => .goto label
  | .label label => .label label
  | .block body => .block (blockUnsugared body)
  | .while condition body => .while condition.unsugared (blockUnsugared body)
  | .repeat body condition => .repeat (blockUnsugared body) condition.unsugared
  | .conditional first others otherwise =>
    .conditional first.unsugared (clausesUnsugared others) (elseUnsugared otherwise)
  | .forNumeric counter first last step body =>
    .forNumeric counter first.unsugared last.unsugared (stepUnsugared step) (blockUnsugared body)
  | .forGeneric vars iterators body =>
    .forGeneric vars (exprsUnsugared iterators) (blockUnsugared body)

def stepUnsugared : Option Expr → Option Expr
  | none => none
  | some step => some step.unsugared

def Clause.unsugared : Clause → Clause
  | ⟨id, span, condition, body⟩ => ⟨id, span, condition.unsugared, blockUnsugared body⟩

def clausesUnsugared : List Clause → List Clause
  | [] => []
  | first :: rest => first.unsugared :: clausesUnsugared rest

def elseUnsugared : Option ElseClause → Option ElseClause
  | none => none
  | some ⟨id, span, body⟩ => some ⟨id, span, blockUnsugared body⟩

end

attribute [grind =] Expr.unsugared ExprKind.unsugared FieldKind.unsugared FunctionBody.unsugared
  StmtKind.unsugared

/-- A program with the chosen calls in parentheses. -/
def Chunk.unsugared (chunk : Chunk) : Chunk := { chunk with body := blockUnsugared chosen chunk.body }

end Trees

/-! ## Iterators -/

/-- The call that a generic loop runs over, if it is one of `pairs` or `ipairs` without parentheses. -/
def loopSugar : List Expr → List NodeId
  | [⟨id, _, .call base style _⟩] =>
    if style ≠ .arguments ∧ (base.isName "pairs" ∨ base.isName "ipairs") then [id] else []
  | _ => []

mutual

/-- The calls of `pairs` and `ipairs` without parentheses that the generic loops in an expression run
over. -/
def Expr.sugaredIterators : Expr → List NodeId
  | ⟨_, _, kind⟩ => kind.sugaredIterators

def ExprKind.sugaredIterators : ExprKind → List NodeId
  | .function f => f.sugaredIterators
  | .table fields => fieldsSugaredIterators fields
  | .binary _ left right => left.sugaredIterators ++ right.sugaredIterators
  | .logical _ left right => left.sugaredIterators ++ right.sugaredIterators
  | .unary _ argument => argument.sugaredIterators
  | .member base _ _ => base.sugaredIterators
  | .index base index => base.sugaredIterators ++ index.sugaredIterators
  | .call base _ arguments => base.sugaredIterators ++ exprsSugaredIterators arguments
  | _ => []

def exprsSugaredIterators : List Expr → List NodeId
  | [] => []
  | first :: rest => first.sugaredIterators ++ exprsSugaredIterators rest

def fieldsSugaredIterators : List Field → List NodeId
  | [] => []
  | ⟨_, _, kind⟩ :: rest => kind.sugaredIterators ++ fieldsSugaredIterators rest

def FieldKind.sugaredIterators : FieldKind → List NodeId
  | .named _ value => value.sugaredIterators
  | .keyed key value => key.sugaredIterators ++ value.sugaredIterators
  | .positional value => value.sugaredIterators

def FunctionBody.sugaredIterators : FunctionBody → List NodeId
  | ⟨_, _, _, _, body⟩ => blockSugaredIterators body

def FunctionTarget.sugaredIterators : FunctionTarget → List NodeId
  | .name _ => []
  | .member _ _ base _ _ => base.sugaredIterators

/-- The same in a block. -/
def blockSugaredIterators : List Stmt → List NodeId
  | [] => []
  | ⟨_, _, kind⟩ :: rest => kind.sugaredIterators ++ blockSugaredIterators rest

def StmtKind.sugaredIterators : StmtKind → List NodeId
  | .local _ init => exprsSugaredIterators init
  | .assignment targets init => exprsSugaredIterators targets ++ exprsSugaredIterators init
  | .call expression => expression.sugaredIterators
  | .localFunction _ f => f.sugaredIterators
  | .function target f => target.sugaredIterators ++ f.sugaredIterators
  | .return arguments => exprsSugaredIterators arguments
  | .break | .goto _ | .label _ => []
  | .block body => blockSugaredIterators body
  | .while condition body => condition.sugaredIterators ++ blockSugaredIterators body
  | .repeat body condition => blockSugaredIterators body ++ condition.sugaredIterators
  | .conditional first others otherwise =>
    first.sugaredIterators ++ clausesSugaredIterators others ++ elseSugaredIterators otherwise
  | .forNumeric _ first last step body =>
    first.sugaredIterators ++ last.sugaredIterators ++ stepSugaredIterators step ++
      blockSugaredIterators body
  | .forGeneric _ iterators body =>
    loopSugar iterators ++ exprsSugaredIterators iterators ++ blockSugaredIterators body

def stepSugaredIterators : Option Expr → List NodeId
  | none => []
  | some step => step.sugaredIterators

def Clause.sugaredIterators : Clause → List NodeId
  | ⟨_, _, condition, body⟩ => condition.sugaredIterators ++ blockSugaredIterators body

def clausesSugaredIterators : List Clause → List NodeId
  | [] => []
  | first :: rest => first.sugaredIterators ++ clausesSugaredIterators rest

def elseSugaredIterators : Option ElseClause → List NodeId
  | none => []
  | some ⟨_, _, body⟩ => blockSugaredIterators body

end

/-- **The calls of `pairs` and `ipairs` without parentheses that the generic loops of a program run
over.** -/
def Chunk.sugaredIterators (chunk : Chunk) : List NodeId := blockSugaredIterators chunk.body

/-! ## Shapes -/

section Shapes

variable {chosen : NodeId → Bool}

theorem Expr.unsugared_eq (e : Expr) :
    e.unsugared chosen = ⟨e.id, e.span, e.kind.unsugared chosen e.id⟩ := by
  cases e
  rfl

@[simp]
theorem exprsUnsugared_eq (es : List Expr) :
    exprsUnsugared chosen es = es.map (Expr.unsugared chosen) := by
  induction es with
  | nil => rfl
  | cons first rest ih => exact congrArg (List.cons (first.unsugared chosen)) ih

theorem fieldsUnsugared_eq (fields : List Field) :
    fieldsUnsugared chosen fields =
      fields.map fun field => ⟨field.id, field.span, field.kind.unsugared chosen⟩ := by
  induction fields with
  | nil => rw [fieldsUnsugared, List.map_nil]
  | cons first rest ih =>
    cases first
    rw [fieldsUnsugared, ih, List.map_cons]

@[simp]
theorem Expr.id_unsugared (e : Expr) : (e.unsugared chosen).id = e.id := by rw [unsugared_eq]

open Raw (outlines fieldOutlines)

mutual

/-- **An outline does not know how calls are written**: it answers for the tree with and without
the chosen calls in parentheses. -/
@[simp]
theorem Expr.outline_unsugared : ∀ e : Expr, (e.unsugared chosen).raw.outline = e.raw.outline
  | ⟨id, span, kind⟩ => by
    simp only [Expr.unsugared, Expr.raw, Raw.Expr.outline, kind.outline_unsugared id]

theorem ExprKind.outline_unsugared : ∀ (kind : ExprKind) (id : NodeId),
    (kind.unsugared chosen id).raw.outline = kind.raw.outline
  | .name _, _ | .nil, _ | .boolean _, _ | .number .., _ | .string _, _ | .vararg, _ => by
    simp only [ExprKind.unsugared]
  | .function ⟨_, _, _, _, _⟩, _ => by
    rw [ExprKind.unsugared, FunctionBody.unsugared]
    rfl
  | .table fields, _ => by
    simp only [ExprKind.unsugared, ExprKind.raw, Raw.ExprKind.outline,
      fieldOutlines_unsugared fields]
  | .binary _ left right, _ => by
    simp only [ExprKind.unsugared, ExprKind.raw, Raw.ExprKind.outline, left.outline_unsugared,
      right.outline_unsugared]
  | .logical _ left right, _ => by
    simp only [ExprKind.unsugared, ExprKind.raw, Raw.ExprKind.outline, left.outline_unsugared,
      right.outline_unsugared]
  | .unary _ argument, _ => by
    simp only [ExprKind.unsugared, ExprKind.raw, Raw.ExprKind.outline, argument.outline_unsugared]
  | .member base _ _, _ => by
    simp only [ExprKind.unsugared, ExprKind.raw, Raw.ExprKind.outline, base.outline_unsugared]
  | .index base index, _ => by
    simp only [ExprKind.unsugared, ExprKind.raw, Raw.ExprKind.outline, base.outline_unsugared,
      index.outline_unsugared]
  | .call base _ arguments, _ => by
    simp only [ExprKind.unsugared, ExprKind.raw, Raw.ExprKind.outline, base.outline_unsugared,
      outlines_unsugared arguments]

theorem outlines_unsugared : ∀ es : List Expr,
    outlines (rawExprs (exprsUnsugared chosen es)) = outlines (rawExprs es)
  | [] => by rw [exprsUnsugared]
  | first :: rest => by
    simp only [exprsUnsugared, rawExprs, outlines, first.outline_unsugared,
      outlines_unsugared rest]

theorem fieldOutlines_unsugared : ∀ fields : List Field,
    fieldOutlines (rawFields (fieldsUnsugared chosen fields)) = fieldOutlines (rawFields fields)
  | [] => by rw [fieldsUnsugared]
  | ⟨_, _, kind⟩ :: rest => by
    simp only [fieldsUnsugared, rawFields, fieldOutlines, kind.outline_unsugared,
      fieldOutlines_unsugared rest]

theorem FieldKind.outline_unsugared : ∀ kind : FieldKind,
    (kind.unsugared chosen).raw.outline = kind.raw.outline
  | .named _ value => by
    simp only [FieldKind.unsugared, FieldKind.raw, Raw.FieldKind.outline, value.outline_unsugared]
  | .keyed key value => by
    simp only [FieldKind.unsugared, FieldKind.raw, Raw.FieldKind.outline, key.outline_unsugared,
      value.outline_unsugared]
  | .positional value => by
    simp only [FieldKind.unsugared, FieldKind.raw, Raw.FieldKind.outline, value.outline_unsugared]

end

@[simp]
theorem Expr.name?_unsugared (e : Expr) : (e.unsugared chosen).name? = e.name? := by
  rw [← name?_outline, outline_unsugared, name?_outline]

@[simp]
theorem Expr.isName_unsugared (e : Expr) (name : String) :
    (e.unsugared chosen).isName name = e.isName name := by
  rw [isName, isName, name?_unsugared]

@[simp]
theorem Expr.isString_unsugared (e : Expr) : (e.unsugared chosen).isString = e.isString := by
  rw [← isString_outline, outline_unsugared, isString_outline]

@[simp]
theorem Expr.isNumber_unsugared (e : Expr) (value : Binary64.Magnitude) :
    (e.unsugared chosen).isNumber value = e.isNumber value := by
  rw [← isNumber_outline, outline_unsugared, isNumber_outline]

@[simp]
theorem Expr.qualifiedName?_unsugared (e : Expr) :
    (e.unsugared chosen).qualifiedName? = e.qualifiedName? := by
  rw [← qualifiedName?_outline, outline_unsugared, qualifiedName?_outline]

end Shapes

end LuaCompiler
