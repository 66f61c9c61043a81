import LuaCompiler.Proofs.Parser.Trail

/-!
# Parsers account for the skeleton

What a production notes is the skeleton of what it returns: the events are those of the skeleton, in
its order, and the identities in it rise. `Accounts p items` says so of a parser whose values have
the skeletons `items`. The productions that extend what was read before are `Extends`: what was
noted for the base becomes what is noted for the result.

* `accounted`: every production accounts for its skeleton, by induction on the bound.
* `accounts_chunk`: so does a whole program.
-/

namespace LuaCompiler.Parser

open Scope (Event Item Skeleton.events Skeleton.numbers)

variable {α β : Type} {s s₀ s' : State} {base : List Item}

/-- What was noted and given out is a skeleton. -/
abbrev Covers (s : State) (items : List Item) (s' : State) : Prop :=
  Trail s (Skeleton.events items) (Skeleton.numbers items) s'

/-- **A parser accounts for the skeletons** of its values. -/
abbrev Accounts (p : Parser α) (items : α → List Item) : Prop :=
  Notes p (fun a => Skeleton.events (items a)) (fun a => Skeleton.numbers (items a))

/-- A parser accounts for the skeletons of statements, whatever identities these get. -/
def AccountsKind (p : Parser StmtKind) : Prop :=
  ∀ s, Post p s (fun kind s' => ∀ id, Covers s (kind.items id) s') (Strays s)

/-- A parser accounts for what its values have more than a base that was read before. -/
def Extends (p : Parser α) (base : List Item) (items : α → List Item) : Prop :=
  ∀ s₀ s, Covers s₀ base s → Post p s (fun a s' => Covers s₀ (items a) s') (Strays s₀)

/-- A parser is called and its items join those that were read. -/
theorem Trail.call {p : Parser α} {g : α → Parser β} {items : α → List Item}
    {Q : β → State → Prop} (h : Covers s₀ base s) (hp : Accounts p items)
    (hg : ∀ a s', Covers s₀ (base ++ items a) s' → Post (g a) s' Q (Strays s₀)) :
    Post (p >>= g) s Q (Strays s₀) :=
  Trail.bind h hp fun a s' h => hg a s' (by simpa [Covers] using h)

/-- The same at the start of a node. -/
theorem Trail.callFirst {p : Parser α} {g : α → Parser β} {items : α → List Item}
    {Q : β → State → Prop} (h : Trail s₀ [] [] s) (hp : Accounts p items)
    (hg : ∀ a s', Covers s₀ (items a) s' → Post (g a) s' Q (Strays s₀)) :
    Post (p >>= g) s Q (Strays s₀) :=
  h.bind hp hg

/-- The same for a statement's kind, whose items do not wait for its number. -/
theorem Trail.callKind {p : Parser StmtKind} {g : StmtKind → Parser β} {Q : β → State → Prop}
    (h : Trail s₀ [] [] s) (hp : AccountsKind p)
    (hg : ∀ kind s', (∀ id, Covers s₀ (kind.items id) s') → Post (g kind) s' Q (Strays s₀)) :
    Post (p >>= g) s Q (Strays s₀) := by
  rw [post_bind]
  exact (hp s).mono (fun kind s' h' => hg kind s' fun id => h.trans (h' id))
    (fun s' h' => h.trans_strays h')

/-- Another way to write a skeleton. -/
theorem Trail.as {items : List Item} (h : Covers s₀ base s) (heq : base = items) :
    Covers s₀ items s := heq ▸ h

/-- A statement has the skeleton of its kind. -/
theorem extends_stmt {start : Position} {kind : StmtKind} (h : ∀ id, Covers s₀ (kind.items id) s) :
    Post (stmt start kind) s (fun statement s' => Covers s₀ (stmtItems [statement]) s')
      (Strays s₀) := by
  have hid : Covers s₀ (kind.items s.nextId) { s with nextId := s.nextId + 1 } := by
    simpa using (h s.nextId).trans (silent_freshId s)
  exact hid.as (by simp [stmtItems])

/-- An expression has the skeleton of its kind. -/
theorem extends_expr {start : Position} {kind : ExprKind} (h : ∀ id, Covers s₀ (kind.items id) s) :
    Post (expr start kind) s (fun e s' => Covers s₀ e.items s') (Strays s₀) := by
  have hid : Covers s₀ (kind.items s.nextId) { s with nextId := s.nextId + 1 } := by
    simpa using (h s.nextId).trans (silent_freshId s)
  exact hid.as (by simp [Expr.items])

/-! ## Names -/

/-- An attribute mentions no name. -/
theorem silent_attributeMark : Silent attributeMark := by
  intro s
  refine (Trail.refl s).skip (silent_acceptSign _) fun b s' h => ?_
  cases b with
  | true =>
    refine h.skip silent_name fun _ s' h => ?_
    exact h.last (silent_expectSign _) fun _ _ h => h
  | false => exact h

/-- The names behind `local` are numbered in their order. -/
theorem notes_localNames (bound : Nat) :
    Notes (localNames bound) (fun _ => []) (fun vars => vars.map Identifier.id) := by
  induction bound with
  | zero => exact notes_exhausted
  | succ bound ih =>
    intro s
    unfold localNames
    refine (Trail.refl s).bind notes_name fun first s' h => ?_
    refine h.skip silent_attributeMark fun _ s' h => ?_
    refine h.skip (silent_acceptSign _) fun b s' h => ?_
    cases b with
    | true => exact h.bind ih fun others s' h => h
    | false => exact h

/-- So are the names behind a comma. -/
theorem notes_moreNames (bound : Nat) :
    Notes (moreNames bound) (fun _ => []) (fun vars => vars.map Identifier.id) := by
  induction bound with
  | zero => exact notes_exhausted
  | succ bound ih =>
    intro s
    unfold moreNames
    refine (Trail.refl s).skip (silent_acceptSign _) fun b s' h => ?_
    cases b with
    | true =>
      refine h.bind notes_name fun first s' h => ?_
      exact h.bind ih fun others s' h => h
    | false => exact h

/-- The parameters of a function are numbered in their order. -/
theorem notes_parameterNames (bound : Nat) :
    Notes (parameterNames bound) (fun _ => []) (fun read => read.1.map Identifier.id) := by
  induction bound with
  | zero => exact notes_exhausted
  | succ bound ih =>
    intro s
    unfold parameterNames
    refine (Trail.refl s).skip (silent_acceptSign _) fun b s' h => ?_
    cases b with
    | true => exact h
    | false =>
      refine h.bind notes_name fun first s' h => ?_
      refine h.skip (silent_acceptSign _) fun b s' h => ?_
      cases b with
      | true => exact h.bind ih fun others s' h => h
      | false => exact h

/-- So are the parameters in their brackets. -/
theorem notes_parameters (bound : Nat) :
    Notes (parameters bound) (fun _ => []) (fun read => read.1.map Identifier.id) := by
  intro s
  refine (Trail.refl s).skip (silent_isNext _) fun b s' h => ?_
  cases b with
  | true => exact h
  | false => exact h.last (notes_parameterNames bound) fun _ _ h => h

/-- A dot or a colon mentions no name. -/
theorem silent_indexer : Silent indexer? := by
  intro s
  refine (Trail.refl s).skip silent_peek fun kind s' h => ?_
  split <;> exact h

/-- A name that a function statement assigns to is a name that is referred to. -/
theorem Trail.toExpr {target : FunctionTarget} (h : Covers s₀ target.items s) :
    Covers s₀ target.toExpr.items s := by
  cases target <;> exact h

/-- The members of a function's target mention no name. -/
theorem extends_targetMembers (bound : Nat) (target : FunctionTarget) :
    Extends (targetMembers bound target) target.items FunctionTarget.items := by
  induction bound generalizing target with
  | zero => exact fun s₀ s h => h.strays
  | succ bound ih =>
    intro s₀ s h
    unfold targetMembers
    refine Trail.skip h silent_indexer fun sign s' h => ?_
    cases sign with
    | none => exact h
    | some sign =>
      refine Trail.skip h silent_advance fun _ s' h => ?_
      refine Trail.skip h silent_name fun identifier s' h => ?_
      refine Trail.skip h silent_freshId fun id s' h => ?_
      cases sign with
      | colon => exact h.toExpr
      | dot => exact ih _ s₀ s' h.toExpr

/-- The target of a function statement mentions its first name. -/
theorem accounts_functionTarget (bound : Nat) :
    Accounts (functionTarget bound) FunctionTarget.items := by
  intro s
  refine (Trail.refl s).bind notes_name fun root s' h => ?_
  refine h.note (by simp [Event.isEnter, Event.isLeave]) fun s' h => ?_
  exact extends_targetMembers bound (.name root) s s' h

section Productions

variable {block : Parser (List Stmt)} {expression suffixed table : Parser Expr}
  {expressions : Parser (List Expr)} {function : Position → Bool → Parser FunctionBody}

/-! ## Scopes -/

/-- A block is a scope without parameters around its statements. -/
theorem accounts_innerBlock (hblock : Accounts block stmtItems) :
    Accounts (innerBlock block) fun body => [.scope false none [] (stmtItems body)] := by
  intro s
  refine (Trail.refl s).note (by simp [Event.isEnter, Event.isLeave]) fun s' h => ?_
  rw [← bind_pure (leaving block)]
  refine h.leaving (by simp [Event.isEnter, Event.isLeave]) hblock fun body s' h => ?_
  simpa [Skeleton.events, Skeleton.numbers, Item.events, Item.numbers] using h

/-- A loop enters its scope, declares its variables there and leaves it behind its body. -/
theorem notes_loopBody (vars : List Identifier) (hblock : Accounts block stmtItems) :
    Notes (loopBody vars block)
      (fun body => .enter false :: .parameters vars :: (Skeleton.events (stmtItems body) ++ [.leave]))
      (fun body => Skeleton.numbers (stmtItems body)) := by
  intro s
  refine (Trail.refl s).skip (silent_expectWord _) fun _ s' h => ?_
  refine h.note (by simp [Event.isEnter, Event.isLeave]) fun s' h => ?_
  refine h.note (by simp [Event.isEnter, Event.isLeave]) fun s' h => ?_
  refine h.leaving (by simp [Event.isEnter, Event.isLeave]) hblock fun body s' h => ?_
  exact h.skip (silent_expectWord _) fun _ s' h => h

/-- A function is a scope with its parameters, and with the receiver of a method. -/
theorem accounts_functionWith (bound : Nat) (start : Position) (isMethod : Bool)
    (hblock : Accounts block stmtItems) :
    Accounts (functionWith bound block start isMethod) (FunctionBody.items isMethod) := by
  intro s
  refine (Trail.refl s).note (by simp [Event.isEnter, Event.isLeave]) fun s' h => ?_
  refine h.skip (silent_expectSign _) fun _ s' h => ?_
  refine h.bind (notes_parameters bound) fun read s' h => ?_
  refine h.skip (silent_expectSign _) fun _ s' h => ?_
  refine h.note (by simp [Event.isEnter, Event.isLeave]) fun s' h => ?_
  refine h.leaving (by simp [Event.isEnter, Event.isLeave]) hblock fun body s' h => ?_
  refine h.skip (silent_expectWord _) fun _ s' h => ?_
  refine h.skip silent_freshId fun id s' h => ?_
  refine h.skip (silent_spanFrom _) fun span s' h => ?_
  simpa [FunctionBody.items, Skeleton.events, Skeleton.numbers, Item.events, Item.numbers] using h

/-- The condition of a `repeat` loop stands in the scope of its body. -/
theorem accounts_repeatLoop (hexpression : Accounts expression Expr.items)
    (hblock : Accounts block stmtItems) :
    AccountsKind (repeatLoop expression block) := by
  intro s
  refine (Trail.refl s).skip silent_advance fun _ s' h => ?_
  refine h.note (by simp [Event.isEnter, Event.isLeave]) fun s' h => ?_
  refine h.bind hblock fun body s' h => ?_
  refine h.skip (silent_expectWord _) fun _ s' h => ?_
  refine h.bind hexpression fun condition s' h => ?_
  refine h.note ?_ fun s' h => ?_
  · have hbody := Scope.Skeleton.closed_events (stmtItems body)
    have hcondition := Scope.Skeleton.closed_events condition.items
    simp [Event.isEnter, Event.isLeave]
    omega
  · intro id
    simpa [Covers, StmtKind.items, Skeleton.events, Skeleton.numbers, Item.events, Item.numbers]
      using h

/-! ## Statements -/

/-- Looking for the end of a block mentions no name. -/
theorem silent_isBlockEnd : Silent isBlockEnd := by
  intro s
  refine (Trail.refl s).skip silent_peek fun kind s' h => ?_
  split <;> exact h

/-- A `return` has the items of its arguments. -/
theorem accounts_returnStatement (hexpressions : Accounts expressions exprItems) :
    Accounts (returnStatement expressions) fun statement => stmtItems [statement] := by
  intro s
  unfold returnStatement
  refine (Trail.refl s).skip silent_here fun start s' h => ?_
  refine h.skip silent_advance fun _ s' h => ?_
  refine h.skip silent_isBlockEnd fun isEnd s' h => ?_
  refine h.skip (silent_isNext _) fun isSemicolon s' h => ?_
  refine h.join (fun _ => notes_pure rfl rfl) (fun _ => hexpressions) fun arguments s' h => ?_
  refine h.skip (silent_acceptSign _) fun _ s' h => ?_
  rw [post_bind]
  refine (extends_stmt fun id => by simpa [Covers, StmtKind.items] using h).imp
    fun statement s' h => ?_
  refine Trail.skip h silent_isBlockEnd fun isEnd s' h => ?_
  cases isEnd with
  | true => exact h
  | false => exact h.strays

/-- The variables of a `local` statement are declared behind its values. -/
theorem accounts_localStatement (bound : Nat) (hexpressions : Accounts expressions exprItems)
    (start : Position) :
    Accounts (localStatement bound expressions start) fun statement => stmtItems [statement] := by
  intro s
  unfold localStatement
  refine (Trail.refl s).bind (notes_localNames bound) fun vars s' h => ?_
  refine h.skip (silent_acceptSign _) fun b s' h => ?_
  refine h.join (fun _ => hexpressions) (fun _ => notes_pure rfl rfl) fun init s' h => ?_
  refine h.bind notes_freshId fun id s' h => ?_
  refine h.note ?_ fun s' h => ?_
  · have := Scope.Skeleton.closed_events (exprItems init)
    simp [Event.isEnter, Event.isLeave]
    omega
  refine h.skip (silent_spanFrom start) fun span s' h => ?_
  simpa [stmtItems, StmtKind.items, Skeleton.events, Skeleton.numbers, Item.events, Item.numbers]
    using h

/-- The name of a local function is declared before its body. -/
theorem accounts_localFunction
    (hfunction : ∀ start isMethod, Accounts (function start isMethod) (FunctionBody.items isMethod))
    (start : Position) :
    AccountsKind (localFunction function start) := by
  intro s
  refine (Trail.refl s).bind notes_name fun identifier s' h => ?_
  refine h.note (by simp [Event.isEnter, Event.isLeave]) fun s' h => ?_
  have hname : Covers s [.localFunction identifier] s' := h
  refine Trail.call hname (hfunction start false) fun f s' h id => ?_
  exact h.as (by simp [StmtKind.items])

/-- A function statement has the items of its target and of its function. -/
theorem accounts_functionStatement (bound : Nat)
    (hfunction : ∀ start isMethod, Accounts (function start isMethod) (FunctionBody.items isMethod))
    (start : Position) :
    AccountsKind (functionStatement bound function start) := by
  intro s
  refine (Trail.refl s).callFirst (accounts_functionTarget bound)
    fun target s' h => ?_
  refine Trail.call h (hfunction start target.isMethod) fun f s' h id => ?_
  exact h.as (by simp [StmtKind.items])

/-- A clause is its condition and a block. -/
theorem accounts_clause (hexpression : Accounts expression Expr.items)
    (hblock : Accounts block stmtItems) (start : Position) :
    Accounts (clause expression block start) fun clause => clauseItems [clause] := by
  intro s
  refine (Trail.refl s).callFirst hexpression fun condition s' h => ?_
  refine Trail.skip h (silent_expectWord _) fun _ s' h => ?_
  refine Trail.call h (accounts_innerBlock hblock) fun body s' h => ?_
  refine Trail.skip h silent_freshId fun id s' h => ?_
  refine Trail.skip h (silent_spanFrom _) fun span s' h => ?_
  exact h.as (by simp [clauseItems])

theorem clauseItems_cons (first : Clause) (rest : List Clause) :
    clauseItems (first :: rest) = clauseItems [first] ++ clauseItems rest := by
  cases first
  simp [clauseItems]

/-- Clauses follow each other, and the last may have no condition. -/
theorem accounts_clauses (hexpression : Accounts expression Expr.items)
    (hblock : Accounts block stmtItems) (bound : Nat) :
    Accounts (clauses expression block bound)
      fun read => clauseItems read.1 ++ elseItems read.2 := by
  induction bound with
  | zero => exact notes_exhausted
  | succ bound ih =>
    intro s
    unfold clauses
    refine (Trail.refl s).skip silent_here fun start s' h => ?_
    refine h.skip (silent_acceptWord _) fun isNext s' h => ?_
    cases isNext with
    | true =>
      refine h.callFirst (accounts_clause hexpression hblock start)
        fun first s' h => ?_
      refine Trail.call h ih fun others s' h => ?_
      exact h.as (by simp [clauseItems_cons first others.1])
    | false =>
      refine h.skip (silent_acceptWord _) fun isLast s' h => ?_
      cases isLast with
      | true =>
        refine h.callFirst (accounts_innerBlock hblock) fun body s' h => ?_
        refine Trail.skip h silent_freshId fun id s' h => ?_
        exact Trail.skip h (silent_spanFrom _) fun span s' h => h
      | false => exact h

/-- A conditional is its first clause and the others. -/
theorem accounts_conditional (bound : Nat) (hexpression : Accounts expression Expr.items)
    (hblock : Accounts block stmtItems) :
    AccountsKind (conditional bound expression block) := by
  intro s
  refine (Trail.refl s).skip silent_here fun start s' h => ?_
  refine h.skip silent_advance fun _ s' h => ?_
  refine h.callFirst (accounts_clause hexpression hblock start) fun first s' h => ?_
  refine Trail.call h (accounts_clauses hexpression hblock bound) fun others s' h => ?_
  refine Trail.skip h (silent_expectWord _) fun _ s' h => ?_
  exact fun id => h.as (by cases first; simp [StmtKind.items, clauseItems])

/-- A `while` loop is its condition and a block. -/
theorem accounts_whileLoop (hexpression : Accounts expression Expr.items)
    (hblock : Accounts block stmtItems) :
    AccountsKind (whileLoop expression block) := by
  intro s
  refine (Trail.refl s).skip silent_advance fun _ s' h => ?_
  refine h.callFirst hexpression fun condition s' h => ?_
  refine Trail.skip h (silent_expectWord _) fun _ s' h => ?_
  refine Trail.call h (accounts_innerBlock hblock) fun body s' h => ?_
  exact Trail.skip h (silent_expectWord _) fun _ s' h id => h.as (by simp [StmtKind.items])

theorem accounts_blockStatement (hblock : Accounts block stmtItems) :
    AccountsKind (blockStatement block) := by
  intro s
  refine (Trail.refl s).skip silent_advance fun _ s' h => ?_
  refine h.callFirst (accounts_innerBlock hblock) fun body s' h => ?_
  exact Trail.skip h (silent_expectWord _) fun _ s' h id => h.as (by simp [StmtKind.items])

theorem accounts_step (hexpression : Accounts expression Expr.items) :
    Accounts (some <$> expression) stepItems := by
  intro s
  rw [post_map]
  exact hexpression s

/-- A `for` loop is a scope with its variables, whose header does not see them. -/
theorem accounts_forLoop (bound : Nat) (hexpression : Accounts expression Expr.items)
    (hexpressions : Accounts expressions exprItems) (hblock : Accounts block stmtItems)
    :
    AccountsKind (forLoop bound expression expressions block) := by
  intro s
  unfold forLoop
  refine (Trail.refl s).skip silent_advance fun _ s' h => ?_
  refine h.bind notes_name fun first s' h => ?_
  refine h.skip (silent_acceptSign _) fun isNumeric s' h => ?_
  -- either way the bounds come first, and the variables open the scope of the body
  cases isNumeric with
  | true =>
    refine h.bind hexpression fun start s' h => ?_
    refine h.skip (silent_expectSign _) fun _ s' h => ?_
    refine h.bind hexpression fun stop s' h => ?_
    refine h.skip (silent_acceptSign _) fun hasStep s' h => ?_
    refine h.join (fun _ => accounts_step hexpression) (fun _ => notes_pure rfl rfl)
      fun step s' h => ?_
    refine h.bind (notes_loopBody [first] hblock) fun body s' h id => ?_
    simpa [Covers, StmtKind.items, Skeleton.events, Skeleton.numbers, Item.events, Item.numbers]
      using h
  | false =>
    refine h.bind (notes_moreNames bound) fun others s' h => ?_
    refine h.skip (silent_expectWord _) fun _ s' h => ?_
    refine h.bind hexpressions fun iterators s' h => ?_
    refine h.bind (notes_loopBody _ hblock) fun body s' h id => ?_
    simpa [Covers, StmtKind.items, Skeleton.events, Skeleton.numbers, Item.events, Item.numbers]
      using h

/-- The targets of an assignment stand in their order. -/
theorem accounts_moreTargets (hsuffixed : Accounts suffixed Expr.items) (bound : Nat) :
    Accounts (moreTargets suffixed bound) exprItems := by
  induction bound with
  | zero => exact notes_exhausted
  | succ bound ih =>
    intro s
    unfold moreTargets
    refine (Trail.refl s).skip (silent_acceptSign _) fun b s' h => ?_
    cases b with
    | true =>
      refine h.callFirst hsuffixed fun first s' h => ?_
      refine Trail.call h ih fun others s' h => ?_
      exact h.as (by simp [exprItems])
    | false => exact h

/-- Checking the targets mentions no name. -/
theorem silent_checkTargets (targets : List Expr) : Silent (checkTargets targets) := by
  intro s
  unfold checkTargets
  split
  · exact (Trail.refl s).strays
  · exact Trail.refl s

/-- A call or an assignment has the items of its expressions. -/
theorem accounts_expressionStatement (bound : Nat) (hsuffixed : Accounts suffixed Expr.items)
    (hexpressions : Accounts expressions exprItems) :
    AccountsKind (expressionStatement bound suffixed expressions) := by
  intro s
  unfold expressionStatement
  refine (Trail.refl s).callFirst hsuffixed fun first s' h => ?_
  refine Trail.skip h (silent_isNext _) fun isAssign s' h => ?_
  refine Trail.skip h (silent_isNext _) fun isComma s' h => ?_
  split
  · refine Trail.call h (accounts_moreTargets hsuffixed bound) fun others s' h => ?_
    refine Trail.skip h (silent_checkTargets _) fun _ s' h => ?_
    refine Trail.skip h (silent_expectSign _) fun _ s' h => ?_
    refine Trail.call h hexpressions fun init s' h => ?_
    exact fun id => h.as (by simp [StmtKind.items, exprItems])
  · split
    · exact fun id => h.as (by simp [StmtKind.items])
    · exact h.strays

theorem accounts_gotoStatement : AccountsKind gotoStatement := by
  intro s
  refine (Trail.refl s).skip silent_advance fun _ s' h => ?_
  exact h.skip silent_name fun label s' h id => h

theorem accounts_labelStatement : AccountsKind labelStatement := by
  intro s
  refine (Trail.refl s).skip silent_advance fun _ s' h => ?_
  refine h.skip silent_name fun label s' h => ?_
  exact h.skip (silent_expectSign _) fun _ s' h id => h

/-! ## Expressions -/

/-- Looking ahead for a named field mentions no name. -/
theorem silent_isNamedField : Silent isNamedField := by
  intro s
  refine (Trail.refl s).skip silent_peek fun kind s' h => ?_
  split
  · refine h.skip silent_get fun state s' h => ?_
    split
    · exact h
    · exact h.strays
    · exact h
  · exact h

/-- A field has the items of its key and its value. -/
theorem accounts_fieldKind (hexpression : Accounts expression Expr.items) :
    Accounts (fieldKind expression) FieldKind.items := by
  intro s
  unfold fieldKind
  refine (Trail.refl s).skip (silent_acceptSign _) fun isKeyed s' h => ?_
  cases isKeyed with
  | true =>
    refine h.callFirst hexpression fun key s' h => ?_
    refine Trail.skip h (silent_expectSign _) fun _ s' h => ?_
    refine Trail.skip h (silent_expectSign _) fun _ s' h => ?_
    exact Trail.call h hexpression fun value s' h => h.as (by simp [FieldKind.items])
  | false =>
    refine h.skip silent_isNamedField fun isNamed s' h => ?_
    cases isNamed with
    | true =>
      refine h.skip silent_name fun key s' h => ?_
      refine h.skip (silent_expectSign _) fun _ s' h => ?_
      exact h.callFirst hexpression fun value s' h =>
        h.as (by simp [FieldKind.items])
    | false =>
      exact h.callFirst hexpression fun value s' h =>
        h.as (by simp [FieldKind.items])

theorem accounts_field (hexpression : Accounts expression Expr.items) :
    Accounts (field expression) fun read => fieldItems [read] := by
  intro s
  refine (Trail.refl s).skip silent_here fun start s' h => ?_
  refine h.callFirst (accounts_fieldKind hexpression) fun kind s' h => ?_
  refine Trail.skip h silent_freshId fun id s' h => ?_
  exact Trail.skip h (silent_spanFrom _) fun span s' h => h.as (by simp [fieldItems])

theorem fieldItems_cons (first : Field) (rest : List Field) :
    fieldItems (first :: rest) = fieldItems [first] ++ fieldItems rest := by
  cases first
  simp [fieldItems]

/-- The fields of a table stand in their order. -/
theorem accounts_fields (hexpression : Accounts expression Expr.items) (bound : Nat) :
    Accounts (fields expression bound) fieldItems := by
  induction bound with
  | zero => exact notes_exhausted
  | succ bound ih =>
    intro s
    unfold fields
    refine (Trail.refl s).skip (silent_isNext _) fun isEnd s' h => ?_
    cases isEnd with
    | true => exact h
    | false =>
      refine h.callFirst (accounts_field hexpression) fun first s' h => ?_
      -- behind a comma or a semicolon the fields go on
      have hmore : ∀ s', Covers s ([] ++ fieldItems [first]) s' →
          Post (do return first :: (← fields expression bound)) s'
            (fun read s' => Covers s (fieldItems read) s') (Strays s) := by
        intro s' h
        refine Trail.call h ih fun others s' h => ?_
        exact h.as (by simp [fieldItems_cons first others])
      refine Trail.skip h (silent_acceptSign _) fun isComma s' h => ?_
      cases isComma with
      | true => exact hmore s' h
      | false =>
        refine Trail.skip h (silent_acceptSign _) fun isSemicolon s' h => ?_
        cases isSemicolon with
        | true => exact hmore s' h
        | false => exact h

theorem accounts_table (hexpression : Accounts expression Expr.items) (bound : Nat) :
    Accounts (Parser.table bound expression) Expr.items := by
  intro s
  refine (Trail.refl s).skip silent_here fun start s' h => ?_
  refine h.skip (silent_expectSign _) fun _ s' h => ?_
  refine h.callFirst (accounts_fields hexpression bound) fun items s' h => ?_
  refine Trail.skip h (silent_expectSign _) fun _ s' h => ?_
  exact extends_expr fun id => h.as (by simp [ExprKind.items])

/-- The arguments of a call stand behind the callee. -/
theorem extends_callOf (hexpressions : Accounts expressions exprItems)
    (htable : Accounts table Expr.items) (base : Expr) (h : Covers s₀ base.items s) :
    Post (callOf expressions table base) s (fun kind s' => ∀ id, Covers s₀ (kind.items id) s')
      (Strays s₀) := by
  unfold callOf
  refine Trail.skip h silent_peek fun kind s' h => ?_
  split
  · refine Trail.skip h silent_advance fun _ s' h => ?_
    refine Trail.skip h (silent_isNext _) fun isEmpty s' h => ?_
    refine Trail.join h (fun _ => notes_pure rfl rfl) (fun _ => hexpressions)
      fun arguments s' h => ?_
    refine h.skip (silent_expectSign _) fun _ s' h id => ?_
    simpa [Covers, ExprKind.items] using h
  · refine Trail.call h htable fun argument s' h id => ?_
    exact h.as (by simp [ExprKind.items, exprItems])
  · refine Trail.skip h silent_advance fun token s' h => ?_
    refine Trail.skip h silent_freshId fun id s' h id => ?_
    exact h.as (by simp [ExprKind.items, exprItems, Expr.items])
  · exact h.strays

/-- A name or a bracketed expression. -/
theorem accounts_primary (hexpression : Accounts expression Expr.items) :
    Accounts (primary expression) Expr.items := by
  intro s
  unfold primary
  refine (Trail.refl s).skip silent_here fun start s' h => ?_
  refine h.skip silent_peek fun kind s' h => ?_
  split
  · refine h.bind notes_name fun identifier s' h => ?_
    exact h.note (by simp [Event.isEnter, Event.isLeave]) fun s' h => h
  · refine h.skip silent_advance fun _ s' h => ?_
    refine h.callFirst hexpression fun inner s' h => ?_
    refine Trail.skip h (silent_expectSign _) fun _ s' h => ?_
    refine Trail.skip h (silent_spanFrom _) fun span s' h => ?_
    exact h.as (by cases inner; simp [Expr.items])
  · exact h.strays

/-- A suffix extends the items of what it stands behind. -/
theorem extends_suffix {call : Expr → Parser ExprKind}
    (hexpression : Accounts expression Expr.items)
    (hcall : ∀ base s, Covers s₀ base.items s →
      Post (call base) s (fun kind s' => ∀ id, Covers s₀ (kind.items id) s') (Strays s₀))
    (start : Position) (base : Expr) (h : Covers s₀ base.items s) :
    Post (suffix? expression call start base) s
      (fun next s' => Covers s₀ (next.getD base).items s') (Strays s₀) := by
  unfold suffix?
  -- a call of a base stands behind a colon and behind nothing
  have hcalled : ∀ callee s, Covers s₀ callee.items s →
      Post (do return some (← expr start (← call callee))) s
        (fun next s' => Covers s₀ (next.getD base).items s') (Strays s₀) := by
    intro callee s h
    rw [post_bind]
    refine (hcall callee s h).imp fun kind s' h => ?_
    rw [post_bind]
    exact extends_expr h
  refine Trail.skip h silent_peek fun kind s' h => ?_
  split
  · refine Trail.skip h silent_advance fun _ s' h => ?_
    refine Trail.skip h silent_name fun identifier s' h => ?_
    rw [post_bind]
    exact extends_expr fun id => h.as (by simp [ExprKind.items])
  · refine Trail.skip h silent_advance fun _ s' h => ?_
    refine Trail.call h hexpression fun index s' h => ?_
    refine Trail.skip h (silent_expectSign _) fun _ s' h => ?_
    rw [post_bind]
    exact extends_expr fun id => h.as (by simp [ExprKind.items])
  · refine Trail.skip h silent_advance fun _ s' h => ?_
    refine Trail.skip h silent_name fun identifier s' h => ?_
    rw [post_bind]
    refine (extends_expr fun id => h.as (by simp [ExprKind.items])).imp fun method s' h => ?_
    exact hcalled method s' h
  · exact hcalled base s' h
  · exact hcalled base s' h
  · exact hcalled base s' h
  · exact h

/-- A literal mentions no name. -/
theorem literal_items {kind : Token.Kind} {literal : ExprKind} (h : literal? kind = some literal)
    (id : NodeId) : literal.items id = [] := by
  unfold literal? at h
  split at h <;> cases h <;> simp [ExprKind.items]

/-- A literal, a table, a function, or what has suffixes. -/
theorem accounts_simple (hsuffixed : Accounts suffixed Expr.items)
    (htable : Accounts table Expr.items)
    (hfunction : ∀ start isMethod, Accounts (function start isMethod) (FunctionBody.items isMethod)) :
    Accounts (simple suffixed table function) Expr.items := by
  intro s
  unfold simple
  refine (Trail.refl s).skip silent_here fun start s' h => ?_
  refine h.skip silent_peek fun kind s' h => ?_
  split
  next literal hliteral =>
    refine h.skip silent_advance fun _ s' h => ?_
    refine extends_expr fun id => ?_
    rw [literal_items hliteral]
    exact h
  next =>
    split
    · exact h.last htable fun _ _ h => h
    · refine h.skip silent_advance fun _ s' h => ?_
      refine h.callFirst (hfunction start false) fun body s' h => ?_
      exact extends_expr fun id => h.as (by simp [ExprKind.items])
    · exact h.last hsuffixed fun _ _ h => h

end Productions

/-! ## The recursion -/

/-- An operator has the items of both operands. -/
theorem apply_items (connective : Connective) (left right : Expr) (id : NodeId) :
    (connective.apply left right).items id = left.items ++ right.items := by
  cases connective <;> simp [Connective.apply, ExprKind.items]

/-- The productions with a bound account for their skeletons. -/
structure Accounted (bound : Nat) : Prop where
  block : Accounts (block bound) stmtItems
  statement : Accounts (statement bound) fun statement => stmtItems [statement]
  function : ∀ start isMethod,
    Accounts (Parser.function bound start isMethod) (FunctionBody.items isMethod)
  expressions : Accounts (expressions bound) exprItems
  subexpression : ∀ limit, Accounts (subexpression bound limit) Expr.items
  operators : ∀ start limit left, Extends (operators bound start limit left) left.items Expr.items
  suffixed : Accounts (suffixed bound) Expr.items
  suffixes : ∀ start base, Extends (suffixes bound start base) base.items Expr.items

theorem stmtItems_cons (first : Stmt) (rest : List Stmt) :
    stmtItems (first :: rest) = stmtItems [first] ++ stmtItems rest := by
  cases first
  simp [stmtItems]

namespace Accounted

variable {bound : Nat}

/-- Statements follow each other in a block, one level below. -/
theorem block_succ (ih : Accounted bound) : Accounts (Parser.block (bound + 1)) stmtItems := by
  intro s
  unfold Parser.block
  refine (Trail.refl s).skip silent_isBlockEnd fun isEnd s' h => ?_
  cases isEnd with
  | true => exact h
  | false =>
    refine h.skip (silent_isNext _) fun isReturn s' h => ?_
    cases isReturn with
    | true =>
      exact h.callFirst (accounts_returnStatement ih.expressions)
        fun statement s' h => h
    | false =>
      refine h.skip (silent_acceptSign _) fun isSemicolon s' h => ?_
      cases isSemicolon with
      | true => exact h.last ih.block fun _ _ h => h
      | false =>
        refine h.callFirst ih.statement fun first s' h => ?_
        refine Trail.call h ih.block fun rest s' h => ?_
        exact h.as (by simp [stmtItems_cons first rest])

/-- A statement of each kind, from the productions one level below. -/
theorem statement_succ (ih : Accounted bound) :
    Accounts (Parser.statement (bound + 1)) fun statement => stmtItems [statement] := by
  intro s
  have hexpression := ih.subexpression 0
  unfold Parser.statement
  refine (Trail.refl s).skip silent_here fun start s' h => ?_
  refine h.skip silent_peek fun kind s' h => ?_
  -- wrapping a statement notes nothing, so it accounts for what its kind notes
  have hkind : ∀ {p : Parser StmtKind} {s'}, AccountsKind p → Trail s [] [] s' →
      Post (do stmt start (← p)) s' (fun statement s' => Covers s (stmtItems [statement]) s')
        (Strays s) := by
    intro p s' hp h
    exact h.callKind hp fun kind s' h => extends_stmt h
  split
  · refine h.skip silent_advance fun _ s' h => ?_
    refine h.skip (silent_acceptWord _) fun isFunction s' h => ?_
    cases isFunction with
    | true => exact hkind (accounts_localFunction ih.function start) h
    | false => exact h.last (accounts_localStatement bound ih.expressions start) fun _ _ h => h
  · refine h.skip silent_advance fun _ s' h => ?_
    exact hkind (accounts_functionStatement bound ih.function start) h
  · exact hkind (accounts_conditional bound hexpression ih.block) h
  · exact hkind (accounts_whileLoop hexpression ih.block) h
  · exact hkind (accounts_blockStatement ih.block) h
  · exact hkind (accounts_repeatLoop hexpression ih.block) h
  · exact hkind (accounts_forLoop bound hexpression ih.expressions ih.block) h
  · refine h.skip silent_advance fun _ s' h => ?_
    exact extends_stmt fun id => h
  · exact hkind accounts_gotoStatement h
  · exact hkind accounts_labelStatement h
  · exact hkind (accounts_expressionStatement bound ih.suffixed ih.expressions) h

theorem expressions_succ (ih : Accounted bound) :
    Accounts (Parser.expressions (bound + 1)) exprItems := by
  intro s
  unfold Parser.expressions
  refine (Trail.refl s).callFirst (ih.subexpression 0) fun first s' h => ?_
  refine Trail.skip h (silent_acceptSign _) fun isComma s' h => ?_
  cases isComma with
  | true =>
    exact Trail.call h ih.expressions fun rest s' h => h.as (by simp [exprItems])
  | false => exact h.as (by simp [exprItems])

/-- An operand and the operators behind it, one level below. -/
theorem subexpression_succ (ih : Accounted bound) (limit : Nat) :
    Accounts (Parser.subexpression (bound + 1) limit) Expr.items := by
  intro s
  unfold Parser.subexpression
  refine (Trail.refl s).skip silent_here fun start s' h => ?_
  refine h.skip silent_peek fun kind s' h => ?_
  split
  · refine h.skip silent_advance fun _ s' h => ?_
    refine h.callFirst (ih.subexpression _) fun argument s' h => ?_
    rw [post_bind]
    refine (extends_expr fun id => h.as (by simp [ExprKind.items])).imp fun first s' h => ?_
    exact ih.operators start limit first s s' h
  · refine h.callFirst (accounts_simple ih.suffixed
      (accounts_table (ih.subexpression 0) bound) ih.function) fun first s' h => ?_
    exact ih.operators start limit first s s' h

/-- Operators extend the items of their left operand. -/
theorem operators_succ (ih : Accounted bound) (start : Position) (limit : Nat) (left : Expr) :
    Extends (Parser.operators (bound + 1) start limit left) left.items Expr.items := by
  intro s₀ s h
  unfold Parser.operators
  refine Trail.skip h silent_peek fun kind s' h => ?_
  split
  · rw [post_ite]
    split
    · exact h
    · refine Trail.skip h silent_advance fun _ s' h => ?_
      refine Trail.call h (ih.subexpression _) fun right s' h => ?_
      rw [post_bind]
      refine (extends_expr fun id => h.as (apply_items ..).symm).imp fun next s' h => ?_
      exact ih.operators start limit next s₀ s' h
  · exact h

theorem suffixed_succ (ih : Accounted bound) :
    Accounts (Parser.suffixed (bound + 1)) Expr.items := by
  intro s
  unfold Parser.suffixed
  refine (Trail.refl s).skip silent_here fun start s' h => ?_
  refine h.callFirst (accounts_primary (ih.subexpression 0)) fun base s' h => ?_
  exact ih.suffixes start base s s' h

/-- Suffixes extend the items of their base. -/
theorem suffixes_succ (ih : Accounted bound) (start : Position) (base : Expr) :
    Extends (Parser.suffixes (bound + 1) start base) base.items Expr.items := by
  intro s₀ s h
  unfold Parser.suffixes
  have htable := accounts_table (ih.subexpression 0) bound
  rw [post_bind]
  refine (extends_suffix (ih.subexpression 0)
    (fun base s h => extends_callOf ih.expressions htable base h) start base h).imp
    fun next s' h => ?_
  cases next with
  | some next => exact ih.suffixes start next s₀ s' h
  | none => exact h

end Accounted

/-- **Every production accounts for its skeleton.** -/
theorem accounted (bound : Nat) : Accounted bound := by
  induction bound with
  | zero =>
    refine ⟨notes_exhausted, notes_exhausted, fun _ _ => notes_exhausted, notes_exhausted,
      fun _ => notes_exhausted, ?_, notes_exhausted, ?_⟩
    · exact fun _ _ _ _ _ h => h.strays
    · exact fun _ _ _ _ h => h.strays
  | succ bound ih =>
    exact
      { block := ih.block_succ
        statement := ih.statement_succ
        function := fun start isMethod => accounts_functionWith bound start isMethod ih.block
        expressions := ih.expressions_succ
        subexpression := ih.subexpression_succ
        operators := ih.operators_succ
        suffixed := ih.suffixed_succ
        suffixes := ih.suffixes_succ }

/-- **A program accounts for its skeleton.** -/
theorem accounts_chunk (bound : Nat) : Accounts (chunk bound) Chunk.items := by
  intro s
  refine (Trail.refl s).note (by simp [Event.isEnter, Event.isLeave]) fun s' h => ?_
  refine h.bind (accounted bound).block fun body s' h => ?_
  refine h.note ?_ fun s' h => ?_
  · have := Scope.Skeleton.closed_events (stmtItems body)
    simp [Event.isEnter, Event.isLeave]
    omega
  refine h.skip silent_get fun state s' h => ?_
  split
  · simpa [Chunk.items, Skeleton.events, Skeleton.numbers, Item.events, Item.numbers] using h
  · exact h.strays

end LuaCompiler.Parser
