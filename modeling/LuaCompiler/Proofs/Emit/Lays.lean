import LuaCompiler.Proofs.Emit.Placement
import LuaCompiler.Proofs.Scope.Resolution

/-!
# How a program is laid out

The walk that lowers a node and the one that scopes it go through the tree side by side. The layout
of a node is put together from those of its parts, for the items of the parts in a row. There are
few ways to do so, and what follows the program along its code is proved once for each of them.

* `Convention.Fits`: how a function takes its receiver, and that every function takes it so.
* `Layout.Lays`: **the ways to lay out a stretch of a program**.
* `Layout.lays_call`, `Layout.lays_localStatement`, `Layout.lays_assignment`: the rules with several
  forms, from the layouts of their parts.
* `Layout.lays_expression`, `Layout.lays_statements`: **every node is laid out in these ways**.
-/

namespace LuaCompiler.Emit

open Scope (Environment Item Skeleton.occurrences Skeleton.Plain)

/-! ## How functions take their receivers -/

/-- Whether a receiver stands beside the parameters. -/
def Reception.isBeside (reception : Reception) : Bool := reception == .beside

/-- The names of receivers. -/
def receiverNames : List String := ["self", "cls"]

/-- A convention that takes a function with some parameters as its reception says, in a scope with
or without a receiver of its own. -/
structure Convention.Fits (convention : Convention) (parameters : List Identifier)
    (receiver : Bool) : Prop where
  split : parameters = (Layout.reception convention parameters).parameters ++ convention.shown
  name : convention.receiver = (Layout.reception convention parameters).name?
  names : ∀ name ∈ convention.receiver, name ∈ receiverNames
  isBeside : (Layout.reception convention parameters).isBeside = receiver

/-- A plain function has no receiver, and shows all its parameters. -/
theorem Convention.fits_plain (f : FunctionBody) : (plain f).Fits f.parameters false :=
  ⟨rfl, rfl, fun _ h => (nomatch h), rfl⟩

/-- A member may take its receiver from its first parameter, which is then not shown. -/
theorem Convention.fits_ofFirstParameter (f : FunctionBody) :
    (ofFirstParameter f).Fits f.parameters false := by
  have hmethod (name : String) (onInstances : Bool) (hname : name ∈ receiverNames)
      (h : f.firstParameter? = some name) :
      Fits ⟨some name, f.parameters.tail, onInstances⟩ f.parameters false := by
    obtain ⟨first, hfirst, rfl⟩ := Option.map_eq_some_iff.1 h
    obtain ⟨rest, hparameters⟩ := List.head?_eq_some_iff.1 hfirst
    have hreception : Layout.reception ⟨some first.name, rest, onInstances⟩ (first :: rest) =
        .parameter first := if_pos (Nat.lt_succ_self rest.length)
    rw [hparameters, List.tail_cons]
    refine ⟨?_, ?_, fun _ h => Option.mem_some.1 h ▸ hname, ?_⟩
    · rw [hreception]
      rfl
    · rw [hreception]
      rfl
    · rw [hreception]
      rfl
  unfold ofFirstParameter
  split
  next h => exact hmethod "self" true (by decide) h
  next h => exact hmethod "cls" false (by decide) h
  · exact fits_plain f

/-- A method takes its receiver beside its parameters. -/
theorem Convention.fits_ofIndexer (indexer : Indexer) (f : FunctionBody) :
    (ofIndexer indexer f).Fits f.parameters (indexer == .colon) := by
  cases indexer with
  | dot => exact fits_ofFirstParameter f
  | colon =>
    have hreception : Layout.reception (ofIndexer .colon f) f.parameters = .beside := by
      unfold Layout.reception ofIndexer
      cases f.parameters with
      | nil => rfl
      | cons first rest => exact if_neg (Nat.lt_irrefl _)
    refine ⟨?_, ?_, fun _ h => Option.mem_some.1 h ▸ (by decide), ?_⟩
    · rw [hreception]
      rfl
    · rw [hreception]
      rfl
    · rw [hreception]
      rfl

/-! ## The ways to lay out a stretch of a program -/

/-- Contexts in which names and functions mean the same. -/
structure Context.Agrees (ctx ctx' : Context) : Prop where
  receiver : ctx'.receiver = ctx.receiver
  functionDepth : ctx'.functionDepth = ctx.functionDepth
  annotations : ctx'.annotations = ctx.annotations
  fileName : ctx'.fileName = ctx.fileName

namespace Layout

/-- A text without names, bindings and scopes. -/
def isSilent : Layout → Bool
  | blank | remark _ | sealing | remaining | dropped _ => true
  | _ => false

/-- **A stretch of a program, lowered in a context, is laid out as a layout.** What stands in the
order of the walk stands for the items in their order. Some layouts are repeated or turned around,
or stand for a part of their stretch only; such a stretch declares nothing. -/
inductive Lays : Context → List Item → Layout → Prop
  /-- a text that writes no name -/
  | silent {ctx : Context} {items : List Item} {l : Layout} (hplain : Skeleton.Plain items)
      (h : l.isSilent = true) : Lays ctx items l
  /-- a name, where it occurs -/
  | word {ctx : Context} {item : Item} (id : NodeId) (name : String) (isTarget : Bool)
      (hplain : item.isPlain = true) (h : ∀ env, ⟨id, name, env⟩ ∈ item.occurrences env) :
      Lays ctx [item] (.word ⟨ctx, id, name, isTarget⟩)
  /-- a text with comments around it -/
  | around {ctx : Context} {items : List Item} {l : Layout} (span : Span) (h : Lays ctx items l) :
      Lays ctx items (.around span l)
  /-- a text in braces that are no scope -/
  | bare {ctx : Context} {items : List Item} {l : Layout} (h : Lays ctx items l) :
      Lays ctx items (.braces false l)
  /-- a text in braces that are a scope, for a stretch that declares nothing -/
  | braces {ctx : Context} {items : List Item} {l : Layout} (hplain : Skeleton.Plain items)
      (h : Lays ctx items l) : Lays ctx items (.braces true l)
  /-- a text, or a word in its place -/
  | unlessBlank {ctx : Context} {items : List Item} {l : Layout} (h : Lays ctx items l) :
      Lays ctx items (.unlessBlank l)
  /-- one stretch after the other -/
  | append {ctx : Context} {items items' : List Item} {a b : Layout} (ha : Lays ctx items a)
      (hb : Lays ctx items' b) : Lays ctx (items ++ items') (.append a b)
  /-- the second text before the first -/
  | swapped {ctx : Context} {items items' : List Item} {a b : Layout}
      (hplain : Skeleton.Plain (items ++ items')) (ha : Lays ctx items a) (hb : Lays ctx items' b) :
      Lays ctx (items ++ items') (.swapped a b)
  /-- the first text around the second -/
  | enclosing {ctx : Context} {items items' : List Item} {a b : Layout}
      (hplain : Skeleton.Plain (items ++ items')) (ha : Lays ctx items a) (hb : Lays ctx items' b) :
      Lays ctx (items ++ items') (.enclosing a b)
  /-- a text twice in a row -/
  | twice {ctx : Context} {items : List Item} {l : Layout} (hplain : Skeleton.Plain items)
      (h : Lays ctx items l) : Lays ctx items (.twice l)
  /-- a text for a part of the stretch -/
  | part {ctx : Context} {items items' : List Item} {l : Layout} (hplain : Skeleton.Plain items')
      (hsub : items ⊆ items') (h : Lays ctx items l) : Lays ctx items' l
  /-- a text that is lowered in another context -/
  | within {ctx ctx' : Context} {items : List Item} {l : Layout} (hctx : ctx.Agrees ctx')
      (h : Lays ctx' items l) : Lays ctx items l
  /-- a `local` statement that binds the variables it does not redeclare -/
  | locals {ctx : Context} {items : List Item} {l : Layout} (id : NodeId) (vars : List Identifier)
      (init : List Expr) (hplain : Skeleton.Plain items) (h : Lays ctx items l) :
      Lays ctx [.locals id vars init items] (.append (bindings ctx (newVars ctx id vars)) l)
  /-- a `local` statement that makes the table of the module -/
  | moduleTable {ctx : Context} (id : NodeId) (v : Identifier) (value : Expr) (items : List Item)
      (hname : isModuleName ctx v.name = true) (hvalue : isEmptyTable value = true) :
      Lays ctx [.locals id [v] [value] items] (.binding v.id (ctx.declaredName v))
  /-- a `local` statement that makes a class -/
  | localClass {ctx : Context} {items : List Item} {l : Layout} (id : NodeId) (v : Identifier)
      {value base : Expr} {style : CallStyle} {arguments : List Expr}
      (hkind : value.kind = .call base style arguments) (hcall : isClassCall base arguments = true)
      (hplain : Skeleton.Plain items) (h : Lays ctx items l) :
      Lays ctx [.locals id [v] [value] items] (.append (.binding v.id (ctx.declaredName v)) l)
  /-- the name of a local function -/
  | localFunction {ctx : Context} (name : Identifier)
      (h : name.id ∉ ctx.annotations.redeclared) :
      Lays ctx [.localFunction name] (.binding name.id (ctx.declaredName name))
  /-- the name of a local function that redeclares -/
  | redeclared {ctx : Context} (name : Identifier) (h : name.id ∈ ctx.annotations.redeclared) :
      Lays ctx [.localFunction name] .blank
  /-- a block -/
  | block {ctx : Context} {items : List Item} {l : Layout} (h : Lays ctx items l) :
      Lays ctx [.scope false none [] items] (.braces true l)
  /-- a loop with variables of its own, which its header does not see -/
  | region {ctx : Context} {items items' : List Item} {header body : Layout}
      (vars : List Identifier) (hplain : Skeleton.Plain items') (hheader : Lays ctx items' header)
      (hbody : Lays ctx items body) :
      Lays ctx [.scope false (some vars) items' items]
        (.region (.append (bindings ctx vars) header) (.braces true body))
  /-- a loop with a condition behind its body, which sees the locals of the body in the program and
  not in the code -/
  | loopUntil {ctx : Context} {items items' : List Item} {a b : Layout}
      (hplain : Skeleton.Plain items') (hbody : Lays ctx items a) (hcondition : Lays ctx items' b) :
      Lays ctx [.scope false none [] (items ++ items')] (.loopUntil a b)
  /-- a function -/
  | callable {ctx : Context} {items : List Item} {l : Layout} {convention : Convention}
      {names : List Identifier} {receiver : Bool} (hfits : convention.Fits names receiver)
      (isVararg : Bool)
      (hbody : Lays (ctx.inFunction names convention.shown convention.receiver) items l) :
      Lays ctx [.scope receiver (some names) [] items]
        (.callable (reception convention names) (parameters ctx convention.shown isVararg)
          (.braces true l))

variable {ctx : Context} {registries : Registries} {items items' : List Item} {a b l : Layout}

/-- A blank may stand for any stretch that declares nothing. -/
theorem lays_blank (hplain : Skeleton.Plain items) : Lays ctx items .blank := .silent hplain rfl

/-- A layout for the first of two stretches. -/
theorem Lays.left (h : Lays ctx items l) (hplain : Skeleton.Plain (items ++ items')) :
    Lays ctx (items ++ items') l := h.part hplain (List.subset_append_left _ _)

/-- A layout for the second of two stretches. -/
theorem Lays.right (h : Lays ctx items' l) (hplain : Skeleton.Plain (items ++ items')) :
    Lays ctx (items ++ items') l := h.part hplain (List.subset_append_right _ _)

/-- Two layouts in a row for one stretch that declares nothing. -/
theorem Lays.both (hplain : Skeleton.Plain items) (ha : Lays ctx items a) (hb : Lays ctx items b) :
    Lays ctx items (.append a b) :=
  (ha.append hb).part hplain (List.append_subset.2 ⟨List.Subset.refl _, List.Subset.refl _⟩)

theorem Lays.asValue (h : Lays ctx.asValue items l) : Lays ctx items l :=
  have hctx : ctx.Agrees ctx.asValue := ⟨rfl, rfl, rfl, rfl⟩
  h.within hctx

theorem Lays.asBound (h : Lays ctx.asBound items l) : Lays ctx items l :=
  have hctx : ctx.Agrees ctx.asBound := ⟨rfl, rfl, rfl, rfl⟩
  h.within hctx

/-- A block is lowered in a context of its own. -/
theorem Lays.inBlock (h : Lays ctx.inBlock items l) :
    Lays ctx [.scope false none [] items] (.braces true l) :=
  have hctx : ctx.Agrees ctx.inBlock := ⟨rfl, rfl, rfl, rfl⟩
  .block (h.within hctx)

theorem Lays.inLoop {body : List Stmt} (h : Lays (ctx.inLoop body) items l) : Lays ctx items l :=
  have hctx : ctx.Agrees (ctx.inLoop body) := ⟨rfl, rfl, rfl, rfl⟩
  h.within hctx

/-! ## Rules with several forms -/

/-- An operator whose value is kept writes a repeatable left operand twice. -/
theorem lays_logical (operator : LogicalOperator) (repeatable : Bool)
    (hplain : Skeleton.Plain (items ++ items')) (ha : Lays ctx items a) (hb : Lays ctx items' b) :
    Lays ctx (items ++ items') (logical ctx operator repeatable a b) := by
  unfold logical
  split
  · cases operator with
    | and => exact .enclosing hplain ha hb
    | or => exact (Lays.twice (Scope.Skeleton.plain_append.1 hplain).1 ha).append hb
  · exact ha.append hb

/-- A class without members may stand for any stretch that declares nothing. -/
theorem lays_emptyClass (hplain : Skeleton.Plain items) : Lays ctx items emptyClass :=
  have hnil := Scope.Skeleton.plain_nil
  (Lays.swapped hnil (lays_blank hnil).bare (lays_blank hnil)).part hplain (List.nil_subset _)

/-- A call is laid out as its callee or its owner, and its arguments. -/
theorem lays_call (isStatement : Bool) (site : CallSite) {parts : CallLayouts}
    (hplain : Skeleton.Plain (items ++ items')) (hcallee : Lays ctx items parts.callee)
    (howner : Lays ctx items parts.owner) (harguments : Lays ctx items' parts.arguments)
    (hfirst : Lays ctx items' parts.firstArgument) (hclass : Lays ctx items' parts.classBody) :
    Lays ctx (items ++ items') (call ctx registries isStatement site parts) := by
  have hgeneric : Lays ctx (items ++ items') (genericCall parts) := hcallee.append harguments
  -- each rule lays out the callee and the arguments, the arguments alone, or neither
  unfold call
  split
  · split
    · exact hclass.right hplain
    · exact harguments.right hplain
  · exact lays_blank hplain
  · split
    · exact lays_blank hplain
    · exact hfirst.right hplain
    · exact hgeneric
  · split
    · exact hfirst.right hplain
    · exact .braces hplain (hfirst.right hplain)
  · split
    · exact harguments.right hplain
    · exact hgeneric
  · split
    · split
      · exact hgeneric
      · exact howner.append harguments
    · exact hgeneric
  · exact hgeneric
  all_goals exact harguments.right hplain

/-- A `local` statement is laid out as its variables and its values, or as a class. -/
theorem lays_localStatement {id : NodeId} {vars : List Identifier} {init : List Expr}
    {parts : LocalLayouts} (hplain : Skeleton.Plain items)
    (harguments : Lays ctx items parts.arguments) (hclass : Lays ctx items parts.classBody)
    (hvalues : Lays ctx items parts.values) :
    Lays ctx [.locals id vars init items] (localStatement ctx id vars init parts) := by
  have hbinding : Lays ctx [.locals id vars init items]
      (.append (bindings ctx (newVars ctx id vars))
        (if init.isEmpty then .blank else parts.values)) := by
    refine .locals id vars init hplain ?_
    split
    · exact lays_blank hplain
    · exact hvalues
  -- the rules for classes come first, and do not ask whether the statement is marked
  unfold localStatement
  dsimp only
  split
  next v value =>
    unfold localClass?
    dsimp only
    split
    next htable =>
      rw [Bool.and_assoc, Bool.and_eq_true, Bool.and_eq_true] at htable
      exact .moduleTable id v value items htable.2.1 htable.2.2
    · split
      next base style arguments hkind =>
        split
        · exact hbinding
        next hcall =>
          have hcall : isClassCall base arguments = true := by simpa using hcall
          split
          · exact .localClass id v hkind hcall hplain hclass
          · exact .localClass id v hkind hcall hplain harguments
      · exact hbinding
  · exact hbinding

/-- An assignment is laid out as a part of its targets and a part of its values. -/
theorem lays_assignment {targets init : List Expr} {parts : AssignmentLayouts}
    (hbase : Lays ctx (exprItems targets) parts.indexBase)
    (hfirst : Lays ctx (exprItems targets) parts.firstTarget)
    (hvalue : Lays ctx (exprItems init) parts.firstValue)
    (hclass : Lays ctx (exprItems init) parts.classBody)
    (htargets : Lays ctx (exprItems targets) parts.targets)
    (hvalues : Lays ctx (exprItems init) parts.values) :
    Lays ctx (exprItems targets ++ exprItems init) (assignment ctx targets init parts) := by
  unfold assignment
  split
  · exact hbase.append hvalue
  · split
    next id span name rest _ _ =>
      have hword : Lays ctx [.reference id name] (.word ⟨ctx, id, name, true⟩) :=
        .word id name true rfl fun _ => List.mem_singleton.2 rfl
      have hplain := (exprItems_plain (⟨id, span, .name name⟩ :: rest)).1
      exact (hword.left hplain).append hclass
    · exact hfirst.append hclass
    · exact htargets.append hvalues

/-- A `return` is laid out as its second argument or as all of them. -/
theorem lays_returnStatement {arguments : List Expr} (hplain : Skeleton.Plain items)
    (ha : Lays ctx items a) (hb : Lays ctx items b) :
    Lays ctx items (returnStatement ctx arguments a b) := by
  unfold returnStatement
  split
  · exact ha
  · split
    · exact .both hplain (.silent hplain rfl) hb.unlessBlank
    · exact hb

/-- A jump or a label is a remark, or nothing. -/
theorem lays_jump (label : Identifier) (unsupported : Unsupported) :
    Lays ctx [] (jump ctx label unsupported) := by
  unfold jump
  split
  · exact lays_blank Scope.Skeleton.plain_nil
  · exact .silent Scope.Skeleton.plain_nil rfl

/-- The start of a loop over numbers is thrown away if it is one. -/
theorem lays_loopStart (first : Expr) (hplain : Skeleton.Plain items) (h : Lays ctx items l) :
    Lays ctx items (loopStart first l) := by
  unfold loopStart
  split
  · exact .silent hplain rfl
  · exact h

/-! ## Programs -/

theorem plain_scope {receiver : Bool} {parameters : Option (List Identifier)}
    {header body : List Item} : Skeleton.Plain [.scope receiver parameters header body] :=
  Scope.Skeleton.plain_cons.2 ⟨rfl, Scope.Skeleton.plain_nil⟩

-- by the recursion of the layout
mutual

/-- **Every expression is laid out along its items**, whatever globals programs read. -/
theorem lays_expression (ctx : Context) :
    ∀ e : Expr, Lays ctx e.items (expression ctx registries e)
  | ⟨id, span, kind⟩ => (lays_expressionKind ctx false id kind).around span

/-- Node by node: what is written once and in its place is appended, and only logical operators and
classes repeat or turn around. -/
theorem lays_expressionKind (ctx : Context) (isStatement : Bool) (id : NodeId) :
    ∀ kind : ExprKind, Lays ctx (kind.items id) (expressionKind ctx registries isStatement id kind)
  | .name name => .word id name false rfl fun _ => List.mem_singleton.2 rfl
  | .nil | .boolean _ | .number .. | .string _ | .vararg => lays_blank Scope.Skeleton.plain_nil
  | .function f => lays_function ctx f (Convention.fits_plain f)
  | .table fields => by
    have hentries := lays_entries ctx fields
    unfold expressionKind
    split
    · exact hentries
    · exact hentries.bare
  | .binary _ left right => (lays_expression ctx left).append (lays_expression ctx right)
  | .logical operator left right => by
    have hright := lays_expression ctx right
    unfold expressionKind
    split
    · -- a choice is laid out from the operands of its condition
      exact (lays_conjuncts ctx left).append hright
    · exact lays_logical operator (isRepeatable left)
        (ExprKind.items_plain id (.logical operator left right)).1 (lays_expression ctx left) hright
  | .unary _ argument => lays_expression ctx argument
  | .member base _ _ => lays_expression ctx base
  | .index base index => (lays_expression ctx base).append (lays_expression ctx index)
  | .call base style arguments =>
    lays_call isStatement ⟨base, arguments⟩ (ExprKind.items_plain id (.call base style arguments)).1
      (lays_expression ctx base) (lays_owner ctx base) (lays_expressions ctx arguments)
      (lays_firstExpression ctx arguments) (lays_classBody ctx arguments)

theorem lays_conjuncts (ctx : Context) : ∀ e : Expr, Lays ctx e.items (conjuncts ctx registries e)
  | ⟨id, _, kind⟩ => by
    cases kind with
    | logical operator left right =>
      exact (lays_expression ctx left).append (lays_expression ctx right)
    | _ => exact lays_blank (ExprKind.items_plain id _).1

theorem lays_owner (ctx : Context) : ∀ e : Expr, Lays ctx e.items (owner ctx registries e)
  | ⟨id, _, kind⟩ => by
    cases kind with
    | member base _ _ => exact lays_expression ctx base
    | _ => exact lays_blank (ExprKind.items_plain id _).1

theorem lays_indexBase (ctx : Context) :
    ∀ es : List Expr, Lays ctx (exprItems es) (indexBase ctx registries es)
  | [] => lays_blank Scope.Skeleton.plain_nil
  | ⟨id, span, kind⟩ :: rest => by
    cases kind with
    | index base index =>
      refine (lays_expression ctx base).part (exprItems_plain _).1 ?_
      exact List.subset_append_of_subset_left _ (List.subset_append_left _ _)
    | _ => exact lays_blank (exprItems_plain _).1

theorem lays_expressions (ctx : Context) :
    ∀ es : List Expr, Lays ctx (exprItems es) (expressions ctx registries es)
  | [] => lays_blank Scope.Skeleton.plain_nil
  | [only] => (lays_expression ctx only).left (exprItems_plain [only]).1
  | first :: second :: rest =>
    (lays_expression ctx first).append (lays_expressions ctx (second :: rest))

theorem lays_firstExpression (ctx : Context) :
    ∀ es : List Expr, Lays ctx (exprItems es) (firstExpression ctx registries es)
  | [] => lays_blank Scope.Skeleton.plain_nil
  | first :: rest => (lays_expression ctx first).left (exprItems_plain (first :: rest)).1

theorem lays_secondExpression (ctx : Context) :
    ∀ es : List Expr, Lays ctx (exprItems es) (secondExpression ctx registries es)
  | [] => lays_blank Scope.Skeleton.plain_nil
  | first :: rest => (lays_firstExpression ctx rest).right (exprItems_plain (first :: rest)).1

theorem lays_classBody (ctx : Context) :
    ∀ es : List Expr, Lays ctx (exprItems es) (classBody ctx registries es)
  | [] => lays_emptyClass Scope.Skeleton.plain_nil
  | ⟨id, span, kind⟩ :: rest => by
    have hplain := (exprItems_plain (⟨id, span, kind⟩ :: rest)).1
    cases kind with
    | table fields =>
      exact .swapped hplain (lays_members ctx.asValue fields).asValue.bare (lays_parent ctx rest)
    | _ => exact lays_emptyClass hplain

theorem lays_parent (ctx : Context) :
    ∀ es : List Expr, Lays ctx (exprItems es) (parent ctx registries es)
  | [] => lays_blank Scope.Skeleton.plain_nil
  | first :: rest => (lays_expression ctx first).left (exprItems_plain (first :: rest)).1

theorem lays_callArguments (ctx : Context) :
    ∀ es : List Expr, Lays ctx (exprItems es) (callArguments ctx registries es)
  | [] => lays_blank Scope.Skeleton.plain_nil
  | ⟨id, span, kind⟩ :: rest => by
    cases kind with
    | call base style arguments =>
      refine (lays_expressions ctx arguments).part (exprItems_plain _).1 ?_
      exact List.subset_append_of_subset_left _ (List.subset_append_right _ _)
    | _ => exact lays_blank (exprItems_plain _).1

theorem lays_valueClassBody (ctx : Context) :
    ∀ es : List Expr, Lays ctx (exprItems es) (valueClassBody ctx registries es)
  | [] => lays_emptyClass Scope.Skeleton.plain_nil
  | ⟨id, span, kind⟩ :: rest => by
    cases kind with
    | call base style arguments =>
      refine (lays_classBody ctx arguments).part (exprItems_plain _).1 ?_
      exact List.subset_append_of_subset_left _ (List.subset_append_right _ _)
    | _ => exact lays_emptyClass (exprItems_plain _).1

theorem lays_entries (ctx : Context) :
    ∀ fields : List Field, Lays ctx (fieldItems fields) (entries ctx registries fields)
  | [] => lays_blank Scope.Skeleton.plain_nil
  | ⟨_, _, kind⟩ :: rest => (lays_entry ctx kind).append (lays_entries ctx rest)

theorem lays_entry (ctx : Context) :
    ∀ kind : FieldKind, Lays ctx kind.items (entry ctx registries kind)
  | .positional value => lays_expression ctx value
  | .named _ value => lays_expression ctx value
  | .keyed key value => (lays_expression ctx key).append (lays_expression ctx value)

/-- The members of a class stand in the order of the fields. -/
theorem lays_members (ctx : Context) :
    ∀ fields : List Field, Lays ctx (fieldItems fields) (members ctx registries fields)
  | [] => lays_blank Scope.Skeleton.plain_nil
  | ⟨_, span, kind⟩ :: rest => ((lays_member ctx kind).around span).append (lays_members ctx rest)

theorem lays_member (ctx : Context) :
    ∀ kind : FieldKind, Lays ctx kind.items (member ctx registries kind)
  | .named _ value => lays_memberValue ctx value
  | .keyed key value => (lays_expression ctx key).append (lays_memberValue ctx value)
  | .positional value => .silent value.items_plain.1 rfl

theorem lays_memberValue (ctx : Context) :
    ∀ e : Expr, Lays ctx e.items (memberValue ctx registries e)
  | ⟨id, span, kind⟩ => by
    have hkind := (lays_expressionKind ctx false id kind).around span
    cases kind with
    | function f => exact lays_function ctx f (Convention.fits_ofFirstParameter f)
    | _ => exact hkind

/-- A function is laid out as its shown parameters and its body. -/
theorem lays_function (ctx : Context) {convention : Convention} {receiver : Bool} :
    ∀ f : FunctionBody, convention.Fits f.parameters receiver →
      Lays ctx (f.items receiver) (function ctx registries convention f)
  | ⟨_, _, _, isVararg, body⟩, hfits => .callable hfits isVararg (lays_statements _ body)

/-- **Every block is laid out along its items.** -/
theorem lays_statements (ctx : Context) :
    ∀ body : List Stmt, Lays ctx (stmtItems body) (statements ctx registries body)
  | [] => lays_blank Scope.Skeleton.plain_nil
  | ⟨id, span, kind⟩ :: rest =>
    ((lays_statement ctx id kind).around span).append (lays_statements ctx rest)

/-- Every statement is laid out along its items. The bodies of blocks and loops are lowered in
contexts of their own, in which names mean the same. -/
theorem lays_statement (ctx : Context) (id : NodeId) :
    ∀ kind : StmtKind, Lays ctx (kind.items id) (statement ctx registries id kind)
  | .local _ init =>
    lays_localStatement (exprItems_plain init).1 (lays_callArguments ctx init)
      (lays_valueClassBody ctx init) (lays_expressions ctx.asValue init).asValue
  | .assignment targets init =>
    lays_assignment (lays_indexBase ctx targets) (lays_firstExpression ctx targets)
      (lays_firstExpression ctx init) (lays_valueClassBody ctx init)
      (lays_expressions ctx.asValue targets).asValue (lays_expressions ctx.asValue init).asValue
  | .call ⟨id, _, kind⟩ => lays_expressionKind ctx true id kind
  | .localFunction name f => by
    -- the name of a local function is a binding, unless it redeclares
    have hname : Lays ctx [.localFunction name]
        (if ctx.annotations.redeclared.contains name.id then .blank
          else .binding name.id (ctx.declaredName name)) := by
      split
      next h => exact .redeclared name (Std.TreeSet.contains_iff_mem.1 h)
      next h => exact .localFunction name fun hmem => h (Std.TreeSet.contains_iff_mem.2 hmem)
    exact hname.append (lays_function ctx f (Convention.fits_plain f))
  | .function (.name name) f => by
    have hword : Lays ctx [.functionName name] (.word ⟨ctx, name.id, name.name, true⟩) :=
      .word name.id name.name true rfl fun _ => List.mem_singleton.2 rfl
    exact hword.append (lays_function ctx f (Convention.fits_plain f))
  | .function (.member id span base indexer name) f => by
    -- the tree calls a method what the convention reads off the indexer
    have hmethod : FunctionTarget.isMethod (.member id span base indexer name) =
        (indexer == .colon) := by
      cases indexer <;> rfl
    have hf : Lays ctx (f.items (indexer == .colon))
        (function ctx registries (.ofIndexer indexer f) f) :=
      lays_function ctx f (Convention.fits_ofIndexer indexer f)
    rw [← hmethod] at hf
    exact (lays_expression ctx base).append hf
  | .return arguments => by
    have hplain := (exprItems_plain arguments).1
    unfold statement
    split
    · exact lays_returnStatement hplain (lays_secondExpression ctx arguments)
        (lays_expressions ctx arguments)
    · exact .silent hplain rfl
  | .break => lays_blank Scope.Skeleton.plain_nil
  | .goto label => lays_jump label _
  | .label label => lays_jump label _
  | .block body => (lays_statements ctx.inBlock body).inBlock
  | .while condition body =>
    (lays_expression ctx condition).append (.block (lays_statements (ctx.inLoop body) body).inLoop)
  | .repeat body condition =>
    .loopUntil condition.items_plain.1 (lays_statements (ctx.inLoop body) body).inLoop
      (lays_expression ctx condition)
  | .conditional ⟨_, _, condition, body⟩ others otherwise => by
    have hfirst := (lays_expression ctx condition).append (lays_statements ctx.inBlock body).inBlock
    have hall := hfirst.append ((lays_clauses ctx others).append (lays_elseClause ctx otherwise))
    rw [List.append_assoc] at hall
    exact hall
  | .forNumeric counter first last step body => by
    -- the bounds declare nothing, so the counter is the only variable of the header
    have hplain := Scope.Skeleton.plain_append.2 ⟨first.items_plain.1,
      Scope.Skeleton.plain_append.2 ⟨last.items_plain.1, (stepItems_plain step).1⟩⟩
    have hfirst := lays_loopStart first first.items_plain.1 (lays_expression ctx.asBound first).asBound
    have hbounds := (lays_expression ctx.asBound last).append (lays_optional ctx.asBound step)
    exact .region [counter] hplain (hfirst.append hbounds.asBound)
      (lays_statements (ctx.inLoop body) body).inLoop
  | .forGeneric vars [iterator] body =>
    have hplain := (exprItems_plain [iterator]).1
    .region vars hplain ((lays_iterated ctx iterator).left hplain)
      (lays_statements (ctx.inLoop body) body).inLoop
  | .forGeneric _ [] _ => .silent plain_scope rfl
  | .forGeneric _ (_ :: _ :: _) _ => .silent plain_scope rfl

theorem lays_optional (ctx : Context) :
    ∀ e : Option Expr, Lays ctx (stepItems e) (optional ctx registries e)
  | none => lays_blank Scope.Skeleton.plain_nil
  | some e => lays_expression ctx e

/-- What a loop runs over is the arguments of its iterator, or the call. -/
theorem lays_iterated (ctx : Context) : ∀ e : Expr, Lays ctx e.items (iterated ctx registries e)
  | ⟨id, span, kind⟩ => by
    have hkind := (lays_expressionKind ctx false id kind).around span
    cases kind with
    | call base style arguments =>
      have hplain := (ExprKind.items_plain id (.call base style arguments)).1
      cases style with
      | arguments =>
        unfold iterated
        split
        · exact (lays_expressions ctx arguments).right hplain
        · exact hkind
      | _ => exact hkind
    | _ => exact hkind

theorem lays_clauses (ctx : Context) :
    ∀ cs : List Clause, Lays ctx (clauseItems cs) (clauses ctx registries cs)
  | [] => lays_blank Scope.Skeleton.plain_nil
  | ⟨_, _, condition, body⟩ :: rest => by
    have hfirst := (lays_expression ctx condition).append (lays_statements ctx.inBlock body).inBlock
    have hall := hfirst.append (lays_clauses ctx rest)
    rw [List.append_assoc] at hall
    exact hall

theorem lays_elseClause (ctx : Context) :
    ∀ otherwise : Option ElseClause,
      Lays ctx (elseItems otherwise) (elseClause ctx registries otherwise)
  | none => lays_blank Scope.Skeleton.plain_nil
  | some ⟨_, _, body⟩ => (lays_statements ctx.inBlock body).inBlock

end

end Layout

end LuaCompiler.Emit
