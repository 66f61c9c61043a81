import LuaCompiler.Scope.Event

/-!
# The scoping skeleton of a program

Scoping looks at little of a program: where names are declared and referred to, and which stretches
are scopes of their own. The skeleton of a tree keeps just that, in the order of the text. It says
once, construct by construct, how Lua scopes:

* a `local` declares its variables behind its values, a `local function` its name before its body;
* parameters and loop variables belong to the scope of the body, a loop's bounds and iterators do
  not;
* the condition of a `repeat` stands in the scope of the loop's body;
* the scope of a method has a receiver.

`Skeleton.events` are the scope events of a skeleton, `Skeleton.numbers` the identities in it.
-/

namespace LuaCompiler

namespace Scope

/-- One thing that a stretch of program says about scopes. -/
inductive Item where
  /-- a name is read or assigned -/
  | reference (id : NodeId) (name : String)
  /-- a name is assigned by a function statement -/
  | functionName (identifier : Identifier)
  /-- a `local` statement: its variables are visible behind what its values say -/
  | locals (id : NodeId) (vars : List Identifier) (init : List Expr) (inner : List Item)
  /-- the name of a `local function` -/
  | localFunction (identifier : Identifier)
  /-- a scope of its own, with or without a list of parameters or loop variables; the header stands
  between these and the scope, and does not see them -/
  | scope (receiver : Bool) (parameters : Option (List Identifier)) (header body : List Item)

mutual

/-- The events that an item gives rise to. -/
def Item.events : Item → List Event
  | .reference id name => [.reference id name]
  | .functionName identifier => [.reference identifier.id identifier.name]
  | .locals id vars init inner => Skeleton.events inner ++ [.declare id vars init]
  | .localFunction identifier => [.declareFunction identifier]
  | .scope receiver parameters header body =>
    Skeleton.events header ++ .enter receiver ::
      ((parameters.map Event.parameters).toList ++ (Skeleton.events body ++ [.leave]))

/-- The events that a skeleton gives rise to. -/
def Skeleton.events : List Item → List Event
  | [] => []
  | first :: rest => first.events ++ Skeleton.events rest

end

mutual

/-- The identities of references, declared names and `local` statements in an item, in the order in
which they are given out. -/
def Item.numbers : Item → List NodeId
  | .reference id _ => [id]
  | .functionName identifier => [identifier.id]
  | .locals id vars _ inner => vars.map Identifier.id ++ (Skeleton.numbers inner ++ [id])
  | .localFunction identifier => [identifier.id]
  | .scope _ parameters header body =>
    (parameters.getD []).map Identifier.id ++ (Skeleton.numbers header ++ Skeleton.numbers body)

/-- The identities in a skeleton, in the order in which they are given out. -/
def Skeleton.numbers : List Item → List NodeId
  | [] => []
  | first :: rest => first.numbers ++ Skeleton.numbers rest

end

/-- Whether an item declares nothing for the items behind it. -/
def Item.isPlain : Item → Bool
  | .locals .. | .localFunction _ => false
  | _ => true

/-- A stretch of program that declares nothing for what stands behind it, as expressions do. -/
def Skeleton.Plain (items : List Item) : Prop := ∀ item ∈ items, item.isPlain = true

mutual

/-- Values and headers in an item are those of expressions. -/
def Item.WellFormed : Item → Prop
  | .locals _ _ _ inner => Skeleton.Plain inner ∧ Skeleton.WellFormed inner
  | .scope _ _ header body =>
    Skeleton.Plain header ∧ Skeleton.WellFormed header ∧ Skeleton.WellFormed body
  | _ => True

/-- Values and headers in a skeleton are those of expressions. -/
def Skeleton.WellFormed : List Item → Prop
  | [] => True
  | first :: rest => first.WellFormed ∧ Skeleton.WellFormed rest

end

namespace Skeleton

/-- The induction on a skeleton, item by item and into the items. -/
theorem induction {P : List Item → Prop} (nil : P [])
    (reference : ∀ id name rest, P rest → P (.reference id name :: rest))
    (functionName : ∀ identifier rest, P rest → P (.functionName identifier :: rest))
    (locals : ∀ id vars init inner rest, P inner → P rest → P (.locals id vars init inner :: rest))
    (localFunction : ∀ identifier rest, P rest → P (.localFunction identifier :: rest))
    (scope : ∀ receiver parameters header body rest, P header → P body → P rest →
      P (.scope receiver parameters header body :: rest)) : ∀ items, P items
  | [] => nil
  | .reference id name :: rest =>
    reference id name rest (induction nil reference functionName locals localFunction scope rest)
  | .functionName identifier :: rest =>
    functionName identifier rest
      (induction nil reference functionName locals localFunction scope rest)
  | .locals id vars init inner :: rest =>
    locals id vars init inner rest
      (induction nil reference functionName locals localFunction scope inner)
      (induction nil reference functionName locals localFunction scope rest)
  | .localFunction identifier :: rest =>
    localFunction identifier rest
      (induction nil reference functionName locals localFunction scope rest)
  | .scope receiver parameters header body :: rest =>
    scope receiver parameters header body rest
      (induction nil reference functionName locals localFunction scope header)
      (induction nil reference functionName locals localFunction scope body)
      (induction nil reference functionName locals localFunction scope rest)

@[simp]
theorem events_append (a b : List Item) : events (a ++ b) = events a ++ events b := by
  induction a with
  | nil => rfl
  | cons first rest ih => simp [events, ih]

/-- An event of a stretch is one of its items'. -/
theorem mem_events {items : List Item} {event : Event} :
    event ∈ events items ↔ ∃ item ∈ items, event ∈ item.events := by
  induction items with
  | nil => simp [events]
  | cons first rest ih => simp [events, ih]

@[simp]
theorem numbers_append (a b : List Item) : numbers (a ++ b) = numbers a ++ numbers b := by
  induction a with
  | nil => rfl
  | cons first rest ih => simp [numbers, ih]

@[simp]
theorem plain_nil : Plain [] := fun _ h => nomatch h

/-- A stretch declares nothing when its parts do not. -/
@[simp]
theorem plain_append {a b : List Item} : Plain (a ++ b) ↔ Plain a ∧ Plain b := by
  simp [Plain, or_imp, forall_and]

@[simp]
theorem plain_cons {first : Item} {rest : List Item} :
    Plain (first :: rest) ↔ first.isPlain = true ∧ Plain rest := by
  simp [Plain]

@[simp]
theorem wellFormed_append {a b : List Item} :
    WellFormed (a ++ b) ↔ WellFormed a ∧ WellFormed b := by
  induction a with
  | nil => simp [WellFormed]
  | cons first rest ih => simp [WellFormed, ih, and_assoc]

end Skeleton

end Scope

open Scope (Item)

/-! ## The skeleton of a tree -/

mutual

/-- The skeleton of an expression. -/
def Expr.items : Expr → List Item
  | ⟨id, _, kind⟩ => kind.items id

/-- The skeleton of an expression with an identity. -/
def ExprKind.items (id : NodeId) : ExprKind → List Item
  | .name name => [.reference id name]
  | .function f => f.items false
  | .table fields => fieldItems fields
  | .binary _ left right => left.items ++ right.items
  | .logical _ left right => left.items ++ right.items
  | .unary _ argument => argument.items
  | .member base _ _ => base.items
  | .index base index => base.items ++ index.items
  | .call base _ arguments => base.items ++ exprItems arguments
  | _ => []

/-- The skeleton of expressions in a row. -/
def exprItems : List Expr → List Item
  | [] => []
  | first :: rest => first.items ++ exprItems rest

/-- The skeleton of a table constructor. -/
def fieldItems : List Field → List Item
  | [] => []
  | ⟨_, _, kind⟩ :: rest => kind.items ++ fieldItems rest

/-- The skeleton of a field. -/
def FieldKind.items : FieldKind → List Item
  | .named _ value => value.items
  | .keyed key value => key.items ++ value.items
  | .positional value => value.items

/-- The skeleton of a function with or without a receiver. -/
def FunctionBody.items (receiver : Bool) : FunctionBody → List Item
  | ⟨_, _, parameters, _, body⟩ => [.scope receiver (some parameters) [] (stmtItems body)]

/-- The skeleton of what a function statement assigns to. -/
def FunctionTarget.items : FunctionTarget → List Item
  | .name identifier => [.functionName identifier]
  | .member _ _ base _ _ => base.items

/-- The skeleton of a block. -/
def stmtItems : List Stmt → List Item
  | [] => []
  | ⟨id, _, kind⟩ :: rest => kind.items id ++ stmtItems rest

/-- The skeleton of a statement with an identity. -/
def StmtKind.items (id : NodeId) : StmtKind → List Item
  | .local vars init => [.locals id vars init (exprItems init)]
  | .assignment targets init => exprItems targets ++ exprItems init
  | .call expression => expression.items
  | .localFunction name f => .localFunction name :: f.items false
  | .function target f => target.items ++ f.items target.isMethod
  | .return arguments => exprItems arguments
  | .block body => [.scope false none [] (stmtItems body)]
  | .while condition body => condition.items ++ [.scope false none [] (stmtItems body)]
  | .repeat body condition => [.scope false none [] (stmtItems body ++ condition.items)]
  | .conditional ⟨_, _, condition, body⟩ others otherwise =>
    condition.items ++ .scope false none [] (stmtItems body) ::
      (clauseItems others ++ elseItems otherwise)
  | .forNumeric counter first last step body =>
    [.scope false (some [counter]) (first.items ++ (last.items ++ stepItems step)) (stmtItems body)]
  | .forGeneric vars iterators body =>
    [.scope false (some vars) (exprItems iterators) (stmtItems body)]
  | _ => []

/-- The skeleton of the step of a loop. -/
def stepItems : Option Expr → List Item
  | none => []
  | some step => step.items

/-- The skeleton of clauses behind the first. -/
def clauseItems : List Clause → List Item
  | [] => []
  | ⟨_, _, condition, body⟩ :: rest =>
    condition.items ++ .scope false none [] (stmtItems body) :: clauseItems rest

/-- The skeleton of the last clause. -/
def elseItems : Option ElseClause → List Item
  | none => []
  | some ⟨_, _, body⟩ => [.scope false none [] (stmtItems body)]

end

/-- The skeleton of a program, which is one scope. -/
def Chunk.items (chunk : Chunk) : List Item :=
  [.scope false none [] (stmtItems chunk.body)]

/-! ## Trees have well-formed skeletons -/

open Scope.Skeleton (Plain WellFormed)

mutual

/-- An expression declares nothing, and its scopes are well formed. -/
theorem Expr.items_plain : ∀ e : Expr, Plain e.items ∧ WellFormed e.items
  | ⟨id, _, kind⟩ => kind.items_plain id

/-- Node by node: only functions open scopes. -/
theorem ExprKind.items_plain (id : NodeId) :
    ∀ kind : ExprKind, Plain (kind.items id) ∧ WellFormed (kind.items id)
  | .name name => by simp [ExprKind.items, Item.isPlain, WellFormed, Item.WellFormed]
  | .nil | .boolean _ | .number .. | .string _ | .vararg => by simp [ExprKind.items, WellFormed]
  | .function f => f.items_plain false
  | .table fields => fieldItems_plain fields
  | .binary _ left right => by simp [ExprKind.items, left.items_plain, right.items_plain]
  | .logical _ left right => by simp [ExprKind.items, left.items_plain, right.items_plain]
  | .unary _ argument => argument.items_plain
  | .member base _ _ => base.items_plain
  | .index base index => by simp [ExprKind.items, base.items_plain, index.items_plain]
  | .call base _ arguments => by
    simp [ExprKind.items, base.items_plain, exprItems_plain arguments]

theorem exprItems_plain : ∀ es : List Expr, Plain (exprItems es) ∧ WellFormed (exprItems es)
  | [] => by simp [exprItems, WellFormed]
  | first :: rest => by simp [exprItems, first.items_plain, exprItems_plain rest]

theorem fieldItems_plain :
    ∀ fields : List Field, Plain (fieldItems fields) ∧ WellFormed (fieldItems fields)
  | [] => by simp [fieldItems, WellFormed]
  | ⟨_, _, kind⟩ :: rest => by simp [fieldItems, kind.items_plain, fieldItems_plain rest]

theorem FieldKind.items_plain : ∀ kind : FieldKind, Plain kind.items ∧ WellFormed kind.items
  | .named _ value => value.items_plain
  | .keyed key value => by simp [FieldKind.items, key.items_plain, value.items_plain]
  | .positional value => value.items_plain

theorem FunctionBody.items_plain (receiver : Bool) :
    ∀ f : FunctionBody, Plain (f.items receiver) ∧ WellFormed (f.items receiver)
  | ⟨_, _, parameters, _, body⟩ => by
    simp [FunctionBody.items, Item.isPlain, WellFormed, Item.WellFormed, stmtItems_wellFormed body]

theorem FunctionTarget.items_wellFormed :
    ∀ target : FunctionTarget, WellFormed target.items
  | .name _ => by simp [FunctionTarget.items, WellFormed, Item.WellFormed]
  | .member _ _ base _ _ => base.items_plain.2

/-- A block is well formed. -/
theorem stmtItems_wellFormed : ∀ body : List Stmt, WellFormed (stmtItems body)
  | [] => trivial
  | ⟨id, _, kind⟩ :: rest => by
    simp [stmtItems, kind.items_wellFormed id, stmtItems_wellFormed rest]

/-- Statement by statement: the values before the variables, the header of a loop outside its scope.
-/
theorem StmtKind.items_wellFormed (id : NodeId) : ∀ kind : StmtKind, WellFormed (kind.items id)
  -- expressions declare nothing, so the items of the values are plain
  | .local vars init => by
    simp [StmtKind.items, WellFormed, Item.WellFormed, exprItems_plain init]
  | .assignment targets init => by
    simp [StmtKind.items, exprItems_plain targets, exprItems_plain init]
  | .call expression => expression.items_plain.2
  | .localFunction name f => ⟨trivial, (f.items_plain false).2⟩
  | .function target f => by
    simp [StmtKind.items, target.items_wellFormed, f.items_plain target.isMethod]
  | .return arguments => (exprItems_plain arguments).2
  | .break | .goto _ | .label _ => trivial
  | .block body => by simp [StmtKind.items, WellFormed, Item.WellFormed, stmtItems_wellFormed body]
  | .while condition body => by
    simp [StmtKind.items, WellFormed, Item.WellFormed, condition.items_plain,
      stmtItems_wellFormed body]
  | .repeat body condition => by
    simp [StmtKind.items, WellFormed, Item.WellFormed, condition.items_plain,
      stmtItems_wellFormed body]
  | .conditional ⟨_, _, condition, body⟩ others otherwise => by
    simp [StmtKind.items, WellFormed, Item.WellFormed, condition.items_plain,
      stmtItems_wellFormed body, clauseItems_wellFormed others, elseItems_wellFormed otherwise]
  | .forNumeric counter first last step body => by
    simp [StmtKind.items, WellFormed, Item.WellFormed, first.items_plain, last.items_plain,
      stepItems_plain step, stmtItems_wellFormed body]
  | .forGeneric vars iterators body => by
    simp [StmtKind.items, WellFormed, Item.WellFormed, exprItems_plain iterators,
      stmtItems_wellFormed body]

theorem stepItems_plain : ∀ step : Option Expr, Plain (stepItems step) ∧ WellFormed (stepItems step)
  | none => by simp [stepItems, WellFormed]
  | some step => step.items_plain

theorem clauseItems_wellFormed : ∀ clauses : List Clause, WellFormed (clauseItems clauses)
  | [] => trivial
  | ⟨_, _, condition, body⟩ :: rest => by
    simp [clauseItems, WellFormed, Item.WellFormed, condition.items_plain,
      stmtItems_wellFormed body, clauseItems_wellFormed rest]

theorem elseItems_wellFormed : ∀ otherwise : Option ElseClause, WellFormed (elseItems otherwise)
  | none => trivial
  | some ⟨_, _, body⟩ => by
    simp [elseItems, WellFormed, Item.WellFormed, stmtItems_wellFormed body]

end

/-- **Values and headers of a program are those of expressions.** -/
theorem Chunk.items_wellFormed (chunk : Chunk) : WellFormed chunk.items := by
  simp [Chunk.items, WellFormed, Item.WellFormed, stmtItems_wellFormed]

end LuaCompiler
