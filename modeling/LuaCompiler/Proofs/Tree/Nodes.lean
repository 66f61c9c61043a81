import LuaCompiler.Proofs.Rising
import LuaCompiler.Proofs.Token.Comments
import LuaCompiler.Tree

/-!
# The nodes of a tree

Statements, clauses, functions, expressions, fields and names are all **nodes**: each has an identity,
a span, and the nodes that it is made of. `Node` keeps just that of a tree, so that what is said about
every node is said once. A name that stands as an expression is one node. What a function statement
assigns to belongs to the function, whose span it lies in.

* `Node.allOf`: the nodes of a tree in the order in which they are completed, each behind those inside
  it.
* `InRow`: nodes that follow one another between two places, each with its own parts in a row between
  its ends. `InRow.mem_all` says it of every node inside.
* `Expr.node`, `stmtNodes`, `Chunk.nodes`: the nodes of a syntax tree.
-/

namespace LuaCompiler

/-- A node: its identity, its span, and the nodes that it is made of, in the order of the text. -/
structure Node where
  id : NodeId
  span : Span
  children : List Node

namespace Node

mutual

/-- A node and the nodes inside it, each behind those inside it. -/
def all : Node → List Node
  | ⟨id, span, children⟩ => allOf children ++ [⟨id, span, children⟩]

/-- Nodes in a row and the nodes inside them. -/
def allOf : List Node → List Node
  | [] => []
  | first :: rest => first.all ++ allOf rest

end

theorem all_eq (node : Node) : node.all = allOf node.children ++ [node] := by
  cases node
  rw [all]

@[simp]
theorem allOf_nil : allOf [] = [] := by rw [allOf]

theorem allOf_cons (first : Node) (rest : List Node) :
    allOf (first :: rest) = allOf first.children ++ first :: allOf rest := by
  rw [allOf, all_eq, List.append_assoc, List.singleton_append]

@[simp]
theorem allOf_append (a b : List Node) : allOf (a ++ b) = allOf a ++ allOf b := by
  induction a with
  | nil => rw [List.nil_append, allOf_nil, List.nil_append]
  | cons first rest ih => simp [allOf_cons, ih]

mutual

/-- What is inside a node among others is part of what is inside them. -/
theorem sublist_all : ∀ {node inner : Node}, inner ∈ node.all → inner.all.Sublist node.all
  | ⟨id, span, children⟩, inner, h => by
    rw [all, List.mem_append, List.mem_singleton] at h
    rcases h with h | rfl
    · rw [all]
      exact (sublist_allOf h).trans (List.sublist_append_left _ _)
    · exact List.Sublist.refl _

theorem sublist_allOf : ∀ {nodes : List Node} {inner : Node},
    inner ∈ allOf nodes → inner.all.Sublist (allOf nodes)
  | [], _, h => by
    rw [allOf] at h
    cases h
  | first :: rest, _, h => by
    rw [allOf, List.mem_append] at h
    rw [allOf]
    rcases h with h | h
    · exact (sublist_all h).trans (List.sublist_append_left _ _)
    · exact (sublist_allOf h).trans (List.sublist_append_right _ _)

end

end Node

/-! ## Nodes in a row -/

mutual

/-- A node is well placed: what it is made of stands in a row between its ends. -/
def Node.Nested : Node → Prop
  | ⟨_, span, children⟩ => InRow span.start children span.stop

/-- **Nodes in a row between two places**: each is well placed and starts where the one before it has
ended, or later. -/
def InRow : Position → List Node → Position → Prop
  | lo, [], hi => lo.le hi = true
  | lo, first :: rest, hi =>
    lo.le first.span.start = true ∧ first.Nested ∧ InRow first.span.stop rest hi

end

theorem Node.nested_iff {node : Node} :
    node.Nested ↔ InRow node.span.start node.children node.span.stop := by
  cases node
  rw [Node.Nested]

theorem inRow_nil {lo hi : Position} : InRow lo [] hi ↔ lo.le hi = true := by
  rw [InRow]

theorem inRow_cons {lo hi : Position} {first : Node} {rest : List Node} :
    InRow lo (first :: rest) hi ↔
      lo.le first.span.start = true ∧ first.Nested ∧ InRow first.span.stop rest hi := by
  rw [InRow]

mutual

/-- A well placed node does not end before it starts. -/
theorem Node.Nested.le : ∀ {node : Node}, node.Nested → node.span.start.le node.span.stop = true
  | ⟨_, _, children⟩, h => by
    rw [Node.Nested] at h
    exact InRow.le h

theorem InRow.le : ∀ {nodes : List Node} {lo hi : Position}, InRow lo nodes hi → lo.le hi = true
  | [], _, _, h => inRow_nil.1 h
  | first :: rest, _, _, h => by
    obtain ⟨hstart, hfirst, hrest⟩ := inRow_cons.1 h
    exact Position.le_trans (Position.le_trans hstart hfirst.le) (InRow.le hrest)

end

section Rows

variable {lo lo' hi hi' : Position} {nodes : List Node} {node : Node}

theorem InRow.mono (h : InRow lo nodes hi) (hlo : lo'.le lo = true) (hhi : hi.le hi' = true) :
    InRow lo' nodes hi' := by
  induction nodes generalizing lo lo' with
  | nil => exact inRow_nil.2 (Position.le_trans hlo (Position.le_trans h.le hhi))
  | cons first rest ih =>
    obtain ⟨hstart, hfirst, hrest⟩ := inRow_cons.1 h
    exact inRow_cons.2 ⟨Position.le_trans hlo hstart, hfirst, ih hrest (Position.le_refl _)⟩

theorem InRow.append {mid : Position} {more : List Node} (h : InRow lo nodes mid)
    (hmore : InRow mid more hi) : InRow lo (nodes ++ more) hi := by
  induction nodes generalizing lo with
  | nil => exact hmore.mono h.le (Position.le_refl hi)
  | cons first rest ih =>
    obtain ⟨hstart, hfirst, hrest⟩ := inRow_cons.1 h
    exact inRow_cons.2 ⟨hstart, hfirst, ih hrest⟩

/-- The first nodes of a row. -/
theorem InRow.front {more : List Node} (h : InRow lo (nodes ++ more) hi) : InRow lo nodes hi := by
  induction nodes generalizing lo with
  | nil => exact inRow_nil.2 h.le
  | cons first rest ih =>
    obtain ⟨hstart, hfirst, hrest⟩ := inRow_cons.1 h
    exact inRow_cons.2 ⟨hstart, hfirst, ih hrest⟩

/-- A node between two places is a row of its own. -/
theorem inRow_single (hstart : lo.le node.span.start = true) (h : node.Nested)
    (hstop : node.span.stop.le hi = true) : InRow lo [node] hi :=
  inRow_cons.2 ⟨hstart, h, inRow_nil.2 hstop⟩

/-- A node from the start of one node to the end of the next. -/
theorem InRow.hull {a b : Node} (h : InRow lo [a, b] hi) (id : NodeId) :
    InRow lo [⟨id, a.span.through b.span, [a, b]⟩] hi := by
  obtain ⟨hstart, ha, hrest⟩ := inRow_cons.1 h
  obtain ⟨hbetween, hb, hstop⟩ := inRow_cons.1 hrest
  have hparts : InRow a.span.start [a, b] b.span.stop :=
    inRow_cons.2 ⟨Position.le_refl _, ha, inRow_single hbetween hb (Position.le_refl _)⟩
  exact inRow_single hstart (Node.nested_iff.2 hparts) (inRow_nil.1 hstop)

/-- One span lies in another. -/
def Span.Encloses (outer inner : Span) : Prop :=
  outer.start.le inner.start = true ∧ inner.stop.le outer.stop = true

/-- One span ends before another starts. -/
def Span.Precedes (a b : Span) : Prop := a.stop.le b.start = true

theorem InRow.mem (h : InRow lo nodes hi) (hnode : node ∈ nodes) :
    node.Nested ∧ Span.Encloses ⟨lo, hi⟩ node.span := by
  induction nodes generalizing lo with
  | nil => cases hnode
  | cons first rest ih =>
    obtain ⟨hstart, hfirst, hrest⟩ := inRow_cons.1 h
    rcases List.mem_cons.1 hnode with rfl | hnode
    · exact ⟨hfirst, hstart, hrest.le⟩
    · obtain ⟨hnested, hlo, hhi⟩ := ih hrest hnode
      have hfront : lo.le first.span.stop = true := Position.le_trans hstart hfirst.le
      exact ⟨hnested, Position.le_trans hfront hlo, hhi⟩

/-- Nodes in a row do not overlap. -/
theorem InRow.pairwise (h : InRow lo nodes hi) :
    nodes.Pairwise fun a b => a.span.Precedes b.span := by
  induction nodes generalizing lo with
  | nil => exact .nil
  | cons first rest ih =>
    obtain ⟨-, -, hrest⟩ := inRow_cons.1 h
    exact List.pairwise_cons.2 ⟨fun later hlater => (hrest.mem hlater).2.1, ih hrest⟩

end Rows

mutual

/-- The nodes inside a well placed node are well placed and lie in its span. -/
theorem Node.Nested.mem_all : ∀ {node inner : Node}, node.Nested → inner ∈ node.all →
    inner.Nested ∧ node.span.Encloses inner.span
  | ⟨_, span, children⟩, inner, h, hinner => by
    rw [Node.all, List.mem_append, List.mem_singleton] at hinner
    rcases hinner with hinner | rfl
    · rw [Node.Nested] at h
      exact InRow.mem_all h hinner
    · exact ⟨h, Position.le_refl _, Position.le_refl _⟩

/-- **Every node inside a row** is well placed and lies between the ends of the row. -/
theorem InRow.mem_all : ∀ {nodes : List Node} {inner : Node} {lo hi : Position},
    InRow lo nodes hi → inner ∈ Node.allOf nodes → inner.Nested ∧ Span.Encloses ⟨lo, hi⟩ inner.span
  | [], _, _, _, _, hinner => by
    rw [Node.allOf] at hinner
    cases hinner
  | first :: rest, _, _, _, h, hinner => by
    obtain ⟨hstart, hfirst, hrest⟩ := inRow_cons.1 h
    rw [Node.allOf, List.mem_append] at hinner
    rcases hinner with hinner | hinner
    · obtain ⟨hnested, hlo, hhi⟩ := hfirst.mem_all hinner
      exact ⟨hnested, Position.le_trans hstart hlo, Position.le_trans hhi hrest.le⟩
    · obtain ⟨hnested, hlo, hhi⟩ := InRow.mem_all hrest hinner
      exact ⟨hnested, Position.le_trans (Position.le_trans hstart hfirst.le) hlo, hhi⟩

end

/-! ## The nodes of a syntax tree -/

/-- The node of a name. -/
def Identifier.node (identifier : Identifier) : Node := ⟨identifier.id, identifier.span, []⟩

mutual

/-- The node of an expression. -/
def Expr.node : Expr → Node
  | ⟨id, span, kind⟩ => ⟨id, span, kind.children⟩

/-- The nodes that an expression is made of. -/
def ExprKind.children : ExprKind → List Node
  | .function f => [⟨f.id, f.span, f.children⟩]
  | .table fields => fieldNodes fields
  | .binary _ left right => [left.node, right.node]
  | .logical _ left right => [left.node, right.node]
  | .unary _ argument => [argument.node]
  | .member base _ identifier => [base.node, identifier.node]
  | .index base index => [base.node, index.node]
  | .call base _ arguments => base.node :: exprNodes arguments
  | _ => []

def exprNodes : List Expr → List Node
  | [] => []
  | first :: rest => first.node :: exprNodes rest

def fieldNodes : List Field → List Node
  | [] => []
  | ⟨id, span, kind⟩ :: rest => ⟨id, span, kind.children⟩ :: fieldNodes rest

def FieldKind.children : FieldKind → List Node
  | .named key value => [key.node, value.node]
  | .keyed key value => [key.node, value.node]
  | .positional value => [value.node]

/-- The parameters and statements of a function. -/
def FunctionBody.children : FunctionBody → List Node
  | ⟨_, _, parameters, _, body⟩ => parameters.map Identifier.node ++ stmtNodes body

/-- The node of what a function statement assigns to. -/
def FunctionTarget.node : FunctionTarget → Node
  | .name identifier => identifier.node
  | .member id span base _ identifier => ⟨id, span, [base.node, identifier.node]⟩

/-- The nodes of a block. -/
def stmtNodes : List Stmt → List Node
  | [] => []
  | ⟨id, span, kind⟩ :: rest => ⟨id, span, kind.children⟩ :: stmtNodes rest

/-- The nodes that a statement is made of. -/
def StmtKind.children : StmtKind → List Node
  | .local vars init => vars.map Identifier.node ++ exprNodes init
  | .assignment targets init => exprNodes targets ++ exprNodes init
  | .call expression => [expression.node]
  | .localFunction name f => [⟨f.id, f.span, name.node :: f.children⟩]
  | .function target f => [⟨f.id, f.span, target.node :: f.children⟩]
  | .return arguments => exprNodes arguments
  | .break => []
  | .goto label => [label.node]
  | .label label => [label.node]
  | .block body => stmtNodes body
  | .while condition body => condition.node :: stmtNodes body
  | .repeat body condition => stmtNodes body ++ [condition.node]
  | .conditional ⟨id, span, condition, body⟩ others otherwise =>
    ⟨id, span, condition.node :: stmtNodes body⟩ :: (clauseNodes others ++ elseNodes otherwise)
  | .forNumeric counter first last step body =>
    counter.node :: first.node :: last.node :: (stepNodes step ++ stmtNodes body)
  | .forGeneric vars iterators body =>
    vars.map Identifier.node ++ (exprNodes iterators ++ stmtNodes body)

def stepNodes : Option Expr → List Node
  | none => []
  | some step => [step.node]

def clauseNodes : List Clause → List Node
  | [] => []
  | ⟨id, span, condition, body⟩ :: rest =>
    ⟨id, span, condition.node :: stmtNodes body⟩ :: clauseNodes rest

def elseNodes : Option ElseClause → List Node
  | none => []
  | some ⟨id, span, body⟩ => [⟨id, span, stmtNodes body⟩]

end

/-- The node of a function, whose name comes first if it has one. -/
def FunctionBody.node (front : List Node) (f : FunctionBody) : Node :=
  ⟨f.id, f.span, front ++ f.children⟩

/-- The node of a statement. -/
def Stmt.node (statement : Stmt) : Node :=
  ⟨statement.id, statement.span, statement.kind.children⟩

/-- The node of a field. -/
def Field.node (field : Field) : Node := ⟨field.id, field.span, field.kind.children⟩

/-- The node of a clause. -/
def Clause.node (clause : Clause) : Node :=
  ⟨clause.id, clause.span, clause.condition.node :: stmtNodes clause.body⟩

/-- The statements of a program. -/
def Chunk.nodes (chunk : Chunk) : List Node := stmtNodes chunk.body

theorem Expr.node_eq (e : Expr) : e.node = ⟨e.id, e.span, e.kind.children⟩ := by
  cases e
  rw [Expr.node]

theorem stmtNodes_cons (first : Stmt) (rest : List Stmt) :
    stmtNodes (first :: rest) = first.node :: stmtNodes rest := by
  cases first
  rw [stmtNodes, Stmt.node]

theorem fieldNodes_cons (first : Field) (rest : List Field) :
    fieldNodes (first :: rest) = first.node :: fieldNodes rest := by
  cases first
  rw [fieldNodes, Field.node]

theorem clauseNodes_cons (first : Clause) (rest : List Clause) :
    clauseNodes (first :: rest) = first.node :: clauseNodes rest := by
  cases first
  rw [clauseNodes, Clause.node]

theorem children_conditional (first : Clause) (others : List Clause)
    (otherwise : Option ElseClause) :
    (StmtKind.conditional first others otherwise).children =
      first.node :: (clauseNodes others ++ elseNodes otherwise) := by
  cases first
  rw [StmtKind.children, Clause.node]

/-- A name that a function statement assigns to is the node of the name. -/
theorem FunctionTarget.node_toExpr (target : FunctionTarget) : target.toExpr.node = target.node := by
  cases target with
  | name identifier =>
    simp [toExpr, Identifier.toExpr, Expr.node, ExprKind.children, node, Identifier.node]
  | member id span base indexer identifier => simp [toExpr, Expr.node, ExprKind.children, node]

end LuaCompiler
