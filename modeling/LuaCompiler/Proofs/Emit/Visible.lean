import LuaCompiler.Proofs.Emit.Sites
import LuaCompiler.Proofs.Emit.Tasks

/-!
# What is visible at a task

The lowering hands down the names of parameters, and Lua's scoping hands down bindings. Where a
program is taken apart both go down together: a parameter that the lowering knows of is a binding
that Lua sees, and the names in a part occur in the whole.

* `Contains`: a stretch of program holds another one.
* `Step.contains`: **what is taken up stands in the whole**, where all is visible that was.
* `Reaches.sees`: the bindings at what is reached, and `Reaches.parameters`: the parameters there.
-/

namespace LuaCompiler.Emit

open Relation (ReflTransGen)
open Scope (Environment Item Occurrence Skeleton.occurrences Skeleton.bind Skeleton.Plain)

/-! ## Stretches of program -/

/-- A stretch of program holds another one: the names in that one occur in it, and what is visible
before it is visible there. -/
structure Contains (env : Environment) (items : List Item) (env' : Environment)
    (items' : List Item) : Prop where
  occurrences : Skeleton.occurrences env' items' ⊆ Skeleton.occurrences env items
  declares : ∀ name, env.Declares name → env'.Declares name

section Stretches

variable {env env' env'' : Environment} {items items' items'' : List Item} {item : Item}

theorem Contains.refl (env : Environment) (items : List Item) : Contains env items env items :=
  ⟨List.Subset.refl _, fun _ h => h⟩

/-- A stretch in a stretch. -/
theorem Contains.trans (h : Contains env items env' items')
    (h' : Contains env' items' env'' items'') : Contains env items env'' items'' :=
  ⟨List.Subset.trans h'.occurrences h.occurrences, fun name hname =>
    h'.declares name (h.declares name hname)⟩

/-- Some items of a stretch that declares nothing. -/
theorem contains_of_subset (hplain : Skeleton.Plain items) (h : items' ⊆ items) :
    Contains env items env items' :=
  ⟨Layout.occurrences_subset hplain h, fun _ h => h⟩

/-- The first of two stretches sees what the whole does. -/
theorem contains_left (env : Environment) (items items' : List Item) :
    Contains env (items ++ items') env items := by
  refine ⟨?_, fun _ h => h⟩
  rw [Layout.occurrences_append_items]
  exact List.subset_append_left _ _

/-- What a stretch declares leaves visible what was. -/
theorem declares_bind {name : String} (h : env.Declares name) (items : List Item) :
    (Skeleton.bind env items).Declares name := by
  induction items generalizing env with
  | nil => exact h
  | cons first rest ih =>
    refine ih ?_
    cases first with
    | locals | localFunction => exact Environment.declares_declare.2 (.inr h)
    | reference | functionName | scope => exact h

/-- The second sees what the first binds as well. -/
theorem contains_right (env : Environment) (items items' : List Item) :
    Contains env (items ++ items') (Skeleton.bind env items) items' := by
  refine ⟨?_, fun name h => declares_bind h items⟩
  rw [Layout.occurrences_append_items]
  exact List.subset_append_right _ _

/-- The values of a `local` statement see what stands before it. -/
theorem contains_values (env : Environment) (id : NodeId) (vars : List Identifier)
    (init : List Expr) (inner : List Item) :
    Contains env [.locals id vars init inner] env inner := by
  refine ⟨?_, fun _ h => h⟩
  rw [Scope.Skeleton.occurrences_single, Item.occurrences]
  exact List.Subset.refl _

/-- What is visible outside a scope is declared inside, and so are its parameters. -/
theorem declares_enter (env : Environment) (receiver : Bool) (parameters : Option (List Identifier))
    {name : String} (h : name ∈ (parameters.getD []).map Identifier.name ∨ env.Declares name) :
    (env.enter receiver parameters).Declares name := by
  refine Environment.declares_declare.2 (h.imp_right ?_)
  rintro ⟨identifier, hmem⟩
  exact ⟨identifier, List.mem_append_right _ hmem⟩

/-- The header of a scope sees what stands outside. -/
theorem contains_header (env : Environment) (receiver : Bool)
    (parameters : Option (List Identifier)) (header body : List Item) :
    Contains env [.scope receiver parameters header body] env header := by
  refine ⟨?_, fun _ h => h⟩
  rw [Scope.Skeleton.occurrences_single, Item.occurrences]
  exact List.subset_append_left _ _

/-- The body of a scope sees its parameters. -/
theorem contains_body (env : Environment) (receiver : Bool) (parameters : Option (List Identifier))
    (header body : List Item) :
    Contains env [.scope receiver parameters header body] (env.enter receiver parameters) body := by
  refine ⟨?_, fun name h => declares_enter env receiver parameters (.inr h)⟩
  rw [Scope.Skeleton.occurrences_single, Item.occurrences]
  exact List.subset_append_right _ _

/-- A block in a stretch that declares nothing. -/
theorem contains_block (hplain : Skeleton.Plain items)
    (h : .scope false none [] items' ∈ items) : Contains env items env items' := by
  have hblock : Contains env items env [.scope false none [] items'] :=
    contains_of_subset hplain (List.cons_subset.2 ⟨h, List.nil_subset _⟩)
  exact hblock.trans (contains_body env false none [] items')

end Stretches

/-! ## Tasks -/

/-- The skeleton of a task. -/
def Task.items : Task → List Item
  | .expression e => e.items
  | .function isMethod _ f => f.items isMethod
  | .block body => stmtItems body
  | .statement s => s.kind.items s.id

section Expressions

variable {ctx inner : Context} {t : Task} {e c : Expr}

/-- Expressions in a row have the items of each. -/
theorem items_subset_exprItems {es : List Expr} (h : e ∈ es) : e.items ⊆ exprItems es := by
  induction es with
  | nil => cases h
  | cons first rest ih =>
    rcases List.mem_cons.1 h with rfl | h
    · exact List.subset_append_left _ _
    · exact List.subset_append_of_subset_right _ (ih h)

/-- So have fields. -/
theorem items_subset_fieldItems {fields : List Field} {field : Field} (h : field ∈ fields) :
    field.kind.items ⊆ fieldItems fields := by
  induction fields with
  | nil => cases h
  | cons first rest ih =>
    obtain ⟨id, span, kind⟩ := first
    rcases List.mem_cons.1 h with rfl | h
    · exact List.subset_append_left _ _
    · exact List.subset_append_of_subset_right _ (ih h)

theorem items_value_subset (kind : FieldKind) : kind.value.items ⊆ kind.items := by
  cases kind with
  | positional value | named key value => exact List.Subset.refl _
  | keyed key value => exact List.subset_append_right _ _

/-- And the parts of a member. -/
theorem MemberPart.items_subset {kind : FieldKind} {part : Expr} (h : MemberPart kind part) :
    part.items ⊆ kind.items := by
  cases h with
  | named key h => exact List.Subset.refl _
  | key key value => exact List.subset_append_left _ _
  | keyed key h => exact List.subset_append_right _ _

/-- The items of a class stand in those of its arguments. -/
theorem ClassPart.items_subset {arguments : List Expr} (h : ClassPart ctx arguments inner t) :
    t.items ⊆ exprItems arguments := by
  have hfield {id : NodeId} {span : Span} {fields : List Field} {rest : List Expr} {field : Field}
      (hfield : field ∈ fields) :
      field.kind.items ⊆ exprItems (⟨id, span, .table fields⟩ :: rest) :=
    List.subset_append_of_subset_left _ (items_subset_fieldItems hfield)
  cases h with
  | member hmem h => exact List.Subset.trans h.items_subset (hfield hmem)
  | namedMethod hmem => exact hfield hmem
  | keyedMethod hmem =>
    exact List.Subset.trans (List.subset_append_right _ _) (hfield hmem)
  | parent =>
    exact List.subset_append_of_subset_right _ (List.subset_append_left _ _)

/-- The items of an operand stand in those of the whole. -/
theorem Operand.items_subset (h : Operand ctx e c) : c.items ⊆ e.items := by
  -- each operand is a part of the node, and so are its items
  cases h with
  | binaryLeft | logicalLeft => exact List.subset_append_left _ _
  | binaryRight | logicalRight => exact List.subset_append_right _ _
  | condition =>
    exact List.subset_append_of_subset_left _ (List.subset_append_left _ _)
  | consequent =>
    exact List.subset_append_of_subset_left _ (List.subset_append_right _ _)
  | unary | member => exact List.Subset.refl _
  | indexBase => exact List.subset_append_left _ _
  | index => exact List.subset_append_right _ _
  | field hfield =>
    exact List.Subset.trans (items_value_subset _) (items_subset_fieldItems hfield)
  | key hfield hkind =>
    refine List.Subset.trans ?_ (items_subset_fieldItems hfield)
    rw [hkind]
    exact List.subset_append_left _ _
  | callee | owner => exact List.subset_append_left _ _
  | argument _ hargument =>
    exact List.subset_append_of_subset_right _ (items_subset_exprItems hargument)
  | message | selected =>
    exact List.subset_append_of_subset_right _ (items_subset_exprItems List.mem_cons_self)
  | classMember _ _ hfield hpart =>
    refine List.subset_append_of_subset_right _ (List.subset_append_of_subset_left _ ?_)
    exact List.Subset.trans hpart.items_subset (items_subset_fieldItems hfield)
  | classParent =>
    refine List.subset_append_of_subset_right _ (List.subset_append_of_subset_right _ ?_)
    exact List.subset_append_left _ _

end Expressions

section Statements

variable {ctx inner : Context} {t : Task} {env : Environment}

/-- A clause is its condition and a scope. -/
theorem items_subset_clauseItems {clauses : List Clause} {clause : Clause} (h : clause ∈ clauses) :
    clause.condition.items ⊆ clauseItems clauses ∧
      .scope false none [] (stmtItems clause.body) ∈ clauseItems clauses := by
  induction clauses with
  | nil => cases h
  | cons first rest ih =>
    obtain ⟨id, span, condition, body⟩ := first
    rcases List.mem_cons.1 h with rfl | h
    · exact ⟨List.subset_append_left _ _, List.mem_append_right _ List.mem_cons_self⟩
    · obtain ⟨hcondition, hbody⟩ := ih h
      refine ⟨List.subset_append_of_subset_right _ ?_, List.mem_append_right _ ?_⟩
      · exact List.subset_cons_of_subset _ hcondition
      · exact List.mem_cons_of_mem _ hbody

theorem plain_clauseItems (clauses : List Clause) : Skeleton.Plain (clauseItems clauses) := by
  induction clauses with
  | nil => exact Scope.Skeleton.plain_nil
  | cons first rest ih =>
    obtain ⟨id, span, condition, body⟩ := first
    have hblock : (Item.scope false none [] (stmtItems body)).isPlain = true := rfl
    refine Scope.Skeleton.plain_append.2 ⟨condition.items_plain.1, ?_⟩
    exact Scope.Skeleton.plain_cons.2 ⟨hblock, ih⟩

theorem plain_elseItems (otherwise : Option ElseClause) :
    Skeleton.Plain (elseItems otherwise) := by
  cases otherwise with
  | none => exact Scope.Skeleton.plain_nil
  | some last =>
    obtain ⟨id, span, body⟩ := last
    exact Scope.Skeleton.plain_cons.2 ⟨rfl, Scope.Skeleton.plain_nil⟩

/-- A conditional declares nothing behind it. -/
theorem plain_conditional (id : NodeId) (first : Clause) (others : List Clause)
    (otherwise : Option ElseClause) :
    Skeleton.Plain ((StmtKind.conditional first others otherwise).items id) := by
  obtain ⟨clauseId, span, condition, body⟩ := first
  have hblock : (Item.scope false none [] (stmtItems body)).isPlain = true := rfl
  refine Scope.Skeleton.plain_append.2 ⟨condition.items_plain.1, ?_⟩
  refine Scope.Skeleton.plain_cons.2 ⟨hblock, ?_⟩
  exact Scope.Skeleton.plain_append.2 ⟨plain_clauseItems others, plain_elseItems otherwise⟩

/-- The parts of a `local` statement stand in its values. -/
theorem StatementPart.contains_local {vars : List Identifier} {init : List Expr}
    (h : StatementPart ctx (.local vars init) inner t) (id : NodeId) (env : Environment) :
    Contains env ((StmtKind.local vars init).items id) env t.items := by
  refine (contains_values env id vars init _).trans
    (contains_of_subset (exprItems_plain init).1 ?_)
  cases h with
  | bound hclass he => exact items_subset_exprItems he
  | localClass hclass hnative h =>
    refine List.Subset.trans ?_ (items_subset_exprItems (List.mem_singleton_self _))
    exact List.subset_append_of_subset_right _ h.items_subset
  | localArgument hclass hnative he =>
    refine List.Subset.trans ?_ (items_subset_exprItems (List.mem_singleton_self _))
    exact List.subset_append_of_subset_right _ (items_subset_exprItems he)

/-- The parts of an assignment stand in its targets or its values. -/
theorem StatementPart.contains_assignment {targets init : List Expr}
    (h : StatementPart ctx (.assignment targets init) inner t) (id : NodeId) (env : Environment) :
    Contains env ((StmtKind.assignment targets init).items id) env t.items := by
  have hplain : Skeleton.Plain ((StmtKind.assignment targets init).items id) :=
    Scope.Skeleton.plain_append.2 ⟨(exprItems_plain targets).1, (exprItems_plain init).1⟩
  refine contains_of_subset hplain ?_
  cases h with
  | target happend hclass he =>
    exact List.subset_append_of_subset_left _ (items_subset_exprItems he)
  | assigned happend hclass he =>
    exact List.subset_append_of_subset_right _ (items_subset_exprItems he)
  | appendBase h =>
    refine List.subset_append_of_subset_left _ ?_
    refine List.Subset.trans ?_ (items_subset_exprItems (List.mem_singleton_self _))
    exact List.subset_append_left _ _
  | appendValue h =>
    exact List.subset_append_of_subset_right _ (items_subset_exprItems (List.mem_singleton_self _))
  | classTarget happend hclass hnative hname =>
    exact List.subset_append_of_subset_left _ (items_subset_exprItems (List.mem_singleton_self _))
  | assignedClass happend hclass hnative h =>
    refine List.subset_append_of_subset_right _ ?_
    refine List.Subset.trans ?_ (items_subset_exprItems (List.mem_singleton_self _))
    exact List.subset_append_of_subset_right _ h.items_subset

/-- The parts of a conditional stand in its clauses, which declare nothing around them. -/
theorem StatementPart.contains_conditional {first : Clause} {others : List Clause}
    {otherwise : Option ElseClause}
    (h : StatementPart ctx (.conditional first others otherwise) inner t) (id : NodeId)
    (env : Environment) : ∃ env',
      Contains env ((StmtKind.conditional first others otherwise).items id) env' t.items := by
  have hplain := plain_conditional id first others otherwise
  obtain ⟨clauseId, clauseSpan, condition, body⟩ := first
  cases h with
  | firstCondition => exact ⟨env, contains_left env condition.items _⟩
  | firstBody =>
    refine ⟨env, contains_block hplain ?_⟩
    exact List.mem_append_right _ List.mem_cons_self
  | condition hclause =>
    refine ⟨env, contains_of_subset hplain ?_⟩
    refine List.subset_append_of_subset_right _ (List.subset_cons_of_subset _ ?_)
    exact List.subset_append_of_subset_left _ (items_subset_clauseItems hclause).1
  | consequent hclause =>
    refine ⟨env, contains_block hplain ?_⟩
    refine List.mem_append_right _ (List.mem_cons_of_mem _ ?_)
    exact List.mem_append_left _ (items_subset_clauseItems hclause).2
  | otherwise _ _ last =>
    obtain ⟨lastId, lastSpan, lastBody⟩ := last
    refine ⟨env, contains_block hplain ?_⟩
    refine List.mem_append_right _ (List.mem_cons_of_mem _ ?_)
    exact List.mem_append_right _ (List.mem_singleton_self _)

/-- The parts of a loop over numbers stand in its header or its body. -/
theorem StatementPart.contains_forNumeric {counter : Identifier} {first last : Expr}
    {step : Option Expr} {body : List Stmt}
    (h : StatementPart ctx (.forNumeric counter first last step body) inner t) (id : NodeId)
    (env : Environment) : ∃ env',
      Contains env ((StmtKind.forNumeric counter first last step body).items id) env' t.items := by
  have hheader := contains_header env false (some [counter])
    (first.items ++ (last.items ++ stepItems step)) (stmtItems body)
  cases h with
  | first hone => exact ⟨env, hheader.trans (contains_left env first.items _)⟩
  | last =>
    refine ⟨Skeleton.bind env first.items, hheader.trans ?_⟩
    exact (contains_right env first.items _).trans (contains_left _ last.items _)
  | step _ _ _ step =>
    refine ⟨Skeleton.bind (Skeleton.bind env first.items) last.items, hheader.trans ?_⟩
    exact (contains_right env first.items _).trans (contains_right _ last.items step.items)
  | counted => exact ⟨_, contains_body env false (some [counter]) _ _⟩

/-- The parts of a generic loop stand in its header or its body. -/
theorem StatementPart.contains_forGeneric {vars : List Identifier} {iterators : List Expr}
    {body : List Stmt} (h : StatementPart ctx (.forGeneric vars iterators body) inner t) (id : NodeId)
    (env : Environment) :
    ∃ env', Contains env ((StmtKind.forGeneric vars iterators body).items id) env' t.items := by
  have hheader {part : List Item} (hpart : part ⊆ exprItems iterators) :
      Contains env ((StmtKind.forGeneric vars iterators body).items id) env part :=
    (contains_header env false (some vars) _ _).trans
      (contains_of_subset (exprItems_plain iterators).1 hpart)
  cases h with
  | iterator => exact ⟨env, hheader (items_subset_exprItems (List.mem_singleton_self _))⟩
  | iterated hstandard he =>
    refine ⟨env, hheader ?_⟩
    refine List.Subset.trans ?_ (items_subset_exprItems (List.mem_singleton_self _))
    exact List.subset_append_of_subset_right _ (items_subset_exprItems he)
  | repeated => exact ⟨_, contains_body env false (some vars) _ _⟩

/-- **What a statement takes up stands in it.** -/
theorem StatementPart.contains {kind : StmtKind} (h : StatementPart ctx kind inner t) (id : NodeId)
    (env : Environment) : ∃ env', Contains env (kind.items id) env' t.items := by
  -- expressions stand in the environment of the statement, blocks in one of their own
  cases kind with
  | «local» => exact ⟨env, h.contains_local id env⟩
  | assignment => exact ⟨env, h.contains_assignment id env⟩
  | conditional => exact h.contains_conditional id env
  | forNumeric => exact h.contains_forNumeric id env
  | forGeneric => exact h.contains_forGeneric id env
  | call e =>
    cases h with
    | call e => exact ⟨env, .refl _ _⟩
  | localFunction name f =>
    cases h with
    | localFunction name f =>
      exact ⟨_, contains_right env [.localFunction name] (f.items false)⟩
  | function target f =>
    cases h with
    | function name f => exact ⟨_, contains_right env [.functionName name] (f.items false)⟩
    | owner targetId span base indexer name f => exact ⟨env, contains_left env base.items _⟩
    | method targetId span base indexer name f =>
      cases indexer <;> exact ⟨_, contains_right env base.items _⟩
  | «return» arguments =>
    have hplain : Skeleton.Plain (exprItems arguments) := (exprItems_plain arguments).1
    cases h with
    | returned hallows hfailure he =>
      exact ⟨env, contains_of_subset hplain (items_subset_exprItems he)⟩
    | raised hallows hfailure =>
      refine ⟨env, contains_of_subset hplain (items_subset_exprItems ?_)⟩
      exact List.mem_cons_of_mem _ (List.mem_singleton_self _)
  | block body =>
    cases h with
    | block body => exact ⟨_, contains_body env false none [] _⟩
  | «while» condition body =>
    cases h with
    | whileCondition condition body => exact ⟨env, contains_left env condition.items _⟩
    | whileBody condition body =>
      exact ⟨_, (contains_right env condition.items _).trans (contains_body _ false none [] _)⟩
  | «repeat» body condition =>
    cases h with
    | repeatBody body condition =>
      exact ⟨_, (contains_body env false none [] _).trans (contains_left _ (stmtItems body) _)⟩
    | repeatCondition body condition =>
      exact ⟨_, (contains_body env false none [] _).trans (contains_right _ (stmtItems body) _)⟩
  | «break» | goto | label => cases h

/-- **A statement of a block stands in it**, behind what the ones before it declare. -/
theorem contains_statement {body : List Stmt} {s : Stmt} (h : s ∈ body) (env : Environment) :
    ∃ env', Contains env (stmtItems body) env' (s.kind.items s.id) := by
  induction body generalizing env with
  | nil => cases h
  | cons first rest ih =>
    obtain ⟨id, span, kind⟩ := first
    rcases List.mem_cons.1 h with rfl | h
    · exact ⟨env, contains_left env (kind.items id) _⟩
    · obtain ⟨env', hrest⟩ := ih h (Skeleton.bind env (kind.items id))
      exact ⟨env', (contains_right env (kind.items id) _).trans hrest⟩

end Statements

/-! ## Steps -/

section Steps

variable {ctx inner : Context} {t u : Task} {env : Environment}

/-- What is taken up stands in the whole. -/
theorem Step.contains (h : Step ctx t inner u) (env : Environment) :
    ∃ env', Contains env t.items env' u.items := by
  cases h with
  | @operand e c h => exact ⟨env, contains_of_subset e.items_plain.1 h.items_subset⟩
  | value id span f => exact ⟨env, .refl _ _⟩
  | @«class» id span base style arguments inner t hpattern h =>
    refine ⟨env, contains_of_subset (ExprKind.items_plain id (.call base style arguments)).1 ?_⟩
    exact List.subset_append_of_subset_right _ h.items_subset
  | body isMethod convention f =>
    obtain ⟨id, span, parameters, isVararg, body⟩ := f
    exact ⟨_, contains_body env isMethod (some parameters) [] (stmtItems body)⟩
  | statement hs => exact contains_statement hs env
  | part h => exact h.contains _ env

/-- **What a task is surrounded by**: it is lowered with the options and annotations of the program;
all parameters that the lowering knows of are bound; the names in it occur in the program. -/
structure Sees (start : Context) (all : List Occurrence) (whole : Context × Task) : Prop where
  options : whole.1.options = start.options
  annotations : whole.1.annotations = start.annotations
  receiver : ∀ receiver ∈ whole.1.receiver, receiver.name ∈ receiverNames
  convention : ∀ isMethod convention f, whole.2 = .function isMethod convention f →
    convention.Fits f.parameters isMethod
  scope : ∃ env : Environment, (∀ name ∈ whole.1.parameters, env.Declares name) ∧
    Skeleton.occurrences env whole.2.items ⊆ all

/-- A context that differs in nothing that tells names apart. -/
structure Context.SameNames (ctx ctx' : Context) : Prop where
  options : ctx'.options = ctx.options
  annotations : ctx'.annotations = ctx.annotations
  receiver : ctx'.receiver = ctx.receiver
  parameters : ctx'.parameters = ctx.parameters

/-- The parts of a class are lowered where names mean the same. -/
theorem ClassPart.sameNames {arguments : List Expr} (h : ClassPart ctx arguments inner t) :
    ctx.SameNames inner := by
  cases h <;> exact ⟨rfl, rfl, rfl, rfl⟩

/-- So are the parts of a statement. -/
theorem StatementPart.sameNames {kind : StmtKind} (h : StatementPart ctx kind inner t) :
    ctx.SameNames inner := by
  cases h with
  | localClass _ _ h | assignedClass _ _ _ h => exact h.sameNames
  | _ => exact ⟨rfl, rfl, rfl, rfl⟩

section Conventions

variable {isMethod : Bool} {convention : Convention} {f : FunctionBody}

/-- A method takes its receiver as its convention says. -/
theorem ClassPart.fits {arguments : List Expr}
    (h : ClassPart ctx arguments inner (.function isMethod convention f)) :
    convention.Fits f.parameters isMethod := by
  cases h <;> exact Convention.fits_ofFirstParameter f

/-- So does a function that a statement names. -/
theorem StatementPart.fits {kind : StmtKind}
    (h : StatementPart ctx kind inner (.function isMethod convention f)) :
    convention.Fits f.parameters isMethod := by
  cases h with
  | localClass _ _ h | assignedClass _ _ _ h => exact h.fits
  | localFunction | function => exact Convention.fits_plain f
  | method _ _ _ indexer => exact Convention.fits_ofIndexer indexer f

/-- A function is lowered by a convention that fits it. -/
theorem Step.fits (h : Step ctx t inner (.function isMethod convention f)) :
    convention.Fits f.parameters isMethod := by
  cases h with
  | value => exact Convention.fits_plain f
  | «class» hpattern h => exact h.fits
  | part h => exact h.fits

end Conventions

/-- A step other than into the body of a function. -/
theorem Step.sameNames (h : Step ctx t inner u)
    (ht : ∀ isMethod convention f, t ≠ .function isMethod convention f) : ctx.SameNames inner := by
  cases h with
  | body isMethod convention f => exact absurd rfl (ht isMethod convention f)
  | «class» _ h => exact h.sameNames
  | part h => exact h.sameNames
  | operand | value | statement => exact ⟨rfl, rfl, rfl, rfl⟩

end Steps

section Runs

variable {start ctx inner : Context} {all : List Occurrence} {t u : Task}
  {whole part : Context × Task}

/-- In the body of a function its parameters are visible as well. -/
theorem Sees.body {isMethod : Bool} {convention : Convention} {f : FunctionBody}
    (h : Sees start all (ctx, .function isMethod convention f)) :
    Sees start all
      (ctx.inFunction f.parameters convention.shown convention.receiver, .block f.body) := by
  obtain ⟨env, hparameters, hoccurrences⟩ := h.scope
  obtain ⟨id, span, parameters, isVararg, body⟩ := f
  have hfits := h.convention isMethod convention _ rfl
  have hbody := contains_body env isMethod (some parameters) [] (stmtItems body)
  refine ⟨h.options, h.annotations, fun receiver hreceiver => ?_, fun _ _ _ h => (nomatch h), ?_⟩
  · cases hname : convention.receiver with
    | some name =>
      simp only [Context.inFunction, hname, Option.mem_some] at hreceiver
      exact hreceiver ▸ hfits.names name hname
    | none =>
      simp only [Context.inFunction, hname, Option.mem_def, Option.filter_eq_some_iff] at hreceiver
      exact h.receiver receiver hreceiver.1
  · refine ⟨env.enter isMethod (some parameters), fun name hname => ?_,
      List.Subset.trans hbody.occurrences hoccurrences⟩
    exact declares_enter env isMethod (some parameters)
      ((List.mem_append.1 hname).imp_right (hparameters name))

/-- **What a step leaves true.** -/
theorem Sees.step (hsees : Sees start all (ctx, t)) (h : Step ctx t inner u) :
    Sees start all (inner, u) := by
  by_cases ht : ∃ isMethod convention f, t = .function isMethod convention f
  · obtain ⟨isMethod, convention, f, rfl⟩ := ht
    cases h
    exact hsees.body
  · have hnames := h.sameNames fun isMethod convention f heq => ht ⟨isMethod, convention, f, heq⟩
    obtain ⟨env, hparameters, hoccurrences⟩ := hsees.scope
    obtain ⟨env', hcontains⟩ := h.contains env
    refine ⟨hnames.options.trans hsees.options, hnames.annotations.trans hsees.annotations, ?_, ?_,
      env', ?_, ?_⟩
    · exact fun receiver hreceiver => hsees.receiver receiver (hnames.receiver ▸ hreceiver)
    · rintro isMethod convention f rfl
      exact h.fits
    · exact fun name hname => hcontains.declares name (hparameters name (hnames.parameters ▸ hname))
    · exact List.Subset.trans hcontains.occurrences hoccurrences

/-- **What is visible at a task that is reached**, by induction on the steps. -/
theorem Reaches.sees (h : Reaches whole part) (hwhole : Sees start all whole) :
    Sees start all part := by
  induction h with
  | refl => exact hwhole
  | tail _ hstep ih => exact ih.step hstep

/-- Parameters stay parameters. -/
theorem Step.parameters (h : Step ctx t inner u) : ctx.parameters ⊆ inner.parameters := by
  by_cases ht : ∃ isMethod convention f, t = .function isMethod convention f
  · obtain ⟨isMethod, convention, f, rfl⟩ := ht
    cases h
    exact List.subset_append_right _ _
  · have hnames := h.sameNames fun isMethod convention f heq => ht ⟨isMethod, convention, f, heq⟩
    rw [hnames.parameters]
    exact List.Subset.refl _

/-- Parameters stay parameters in what is reached. -/
theorem Reaches.parameters (h : Reaches whole part) :
    whole.1.parameters ⊆ part.1.parameters := by
  induction h with
  | refl => exact List.Subset.refl _
  | tail _ hstep ih => exact List.Subset.trans ih hstep.parameters

/-- **The parameters of a function are known inside it.** -/
theorem Reaches.function_parameters {isMethod : Bool} {convention : Convention} {f : FunctionBody}
    {e : Expr} (h : Reaches (ctx, .function isMethod convention f) (inner, .expression e)) :
    f.parameters.map Identifier.name ⊆ inner.parameters := by
  rcases ReflTransGen.cases_head h with heq | ⟨⟨first, u⟩, hstep, hrest⟩
  · cases heq
  · cases hstep with
    | body =>
      have hinside : Context.parameters _ ⊆ inner.parameters := Reaches.parameters hrest
      exact List.Subset.trans (List.subset_append_left _ ctx.parameters) hinside

/-- The names in a program are visible in its chunk. -/
theorem sees_chunk {ctx : Context} (chunk : Chunk) (hparameters : ctx.parameters = [])
    (hreceiver : ctx.receiver = none) :
    Sees ctx chunk.occurrences (ctx, .block chunk.body) := by
  refine ⟨rfl, rfl, fun receiver h => ?_, fun _ _ _ h => (nomatch h), [], fun name h => ?_, ?_⟩
  · rw [hreceiver] at h
    cases h
  · rw [hparameters] at h
    cases h
  · rw [Chunk.occurrences_eq]
    exact List.Subset.refl _

end Runs

end LuaCompiler.Emit
