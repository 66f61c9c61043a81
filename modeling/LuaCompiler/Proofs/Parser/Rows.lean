import LuaCompiler.Proofs.Parser.Growth

/-!
# The nodes of every production

The grammar, production by production: what each builds stands in a row over what it read. The place
where a node starts is taken before its first token, or handed down by the production that read it;
its end is the end of the token read last. In parentheses a node that is complete gets a new span.

* `continues_targetMembers`: the one kind of node whose span is put together from its parts.
* `Grown.attributeMark`: the one place where an identity is lost.
* `growing`: **every production grows its nodes in a row**, by induction on the bound.
* `State.Tidy.chunk`: a whole program.
-/

namespace LuaCompiler.Parser

open Token (Kind)

variable {α : Type} {plain : Prop} {s s' : State} {place : Position} {number : Nat}
  {nodes : List Node}

/-! ## Names -/

/-- A name is one token, and grows a node of its own. -/
theorem State.Tidy.name (hs : s.Tidy plain) :
    Post name s (fun identifier s' => (∃ word, s.current.kind = .name word) ∧ Next s s' ∧
      Grown plain s.current.span.start s.nextId [identifier.node] s') fun _ => True := by
  unfold Parser.name
  rw [post_bind, post_peek]
  split
  next word heq =>
    have hleaf := hs.leaf (Identifier.mk · word ·) Identifier.node fun _ _ => rfl
    exact hleaf.imp fun _ _ h => ⟨⟨word, heq⟩, h⟩
  next => trivial

/-- A name begins a node. -/
theorem begins_name : Begins plain name fun identifier => [identifier.node] :=
  fun _ hs => hs.name.imp fun _ _ h => h.2.2

/-- The name of an attribute takes an identity; a plain source has none here. -/
theorem Grown.attributeMark (h : Grown plain place number nodes s)
    (hplain : plain → s.current.kind ≠ .symbol .less) :
    Post attributeMark s (fun _ s' => Grown plain place number nodes s' ∧ (plain → s' = s))
      fun _ => True := by
  unfold Parser.attributeMark
  rw [acceptSign, accept, bind_assoc, post_bind, post_isNext]
  split
  next heq =>
    have hmarked : ¬ plain := fun hp => hplain hp (eq_of_beq heq)
    rw [bind_assoc]
    refine h.skip begins_advance.grows fun _ s' h => ?_
    rw [pure_bind]
    refine h.bind begins_name.grows fun mark s' h => ?_
    refine h.last (begins_expectSign _).grows fun _ s' h => ?_
    rw [List.append_nil] at h
    exact ⟨h.forget hmarked, fun hp => absurd hp hmarked⟩
  next => exact ⟨h, fun _ => rfl⟩

/-- No attribute stands behind the names that come next. -/
def State.Unattributed (s : State) : Prop := isAttributed (s.ahead.map Token.kind) = false

/-- Behind `local` no attribute is ahead if none is used. -/
theorem unattributed_behind (h : usesAttribute (s.ahead.map Token.kind) = false)
    (hlocal : s.current.kind = .keyword .local) (hnext : Next s s') : s'.Unattributed := by
  rcases hnext with hnext | ⟨-, hnext⟩
  · rw [State.ahead, List.map_cons, hlocal] at h
    rw [State.Unattributed, hnext]
    exact isAttributed_of_local h
  · rw [State.Unattributed, hnext, List.map_cons, hlocal]
    rfl

/-- Behind the first name no attribute begins, and none behind the names after a comma. -/
theorem State.Unattributed.behind {word : String} (h : s.Unattributed)
    (hname : s.current.kind = .name word) (hnext : Next s s') :
    s'.current.kind ≠ .symbol .less ∧ (s'.current.kind = .symbol .comma →
      ∀ s'', Next s' s'' → s''.Unattributed) := by
  rcases hnext with hnext | ⟨-, hnext⟩
  · unfold State.Unattributed at h
    rw [State.ahead, List.map_cons, hname, ← hnext, State.ahead, List.map_cons] at h
    refine ⟨fun hless => ?_, fun hcomma s'' hnext' => ?_⟩
    · rw [hless] at h
      cases h
    · rw [hcomma] at h
      rcases hnext' with hnext' | ⟨-, hnext'⟩
      · rw [State.Unattributed, hnext']
        exact h
      · rw [State.Unattributed, hnext', List.map_cons, hcomma]
        rfl
  · have hcurrent : s'.current = s.current := (List.cons.inj hnext).1
    simp [hcurrent, hname]

/-- The names behind `local` grow their nodes, and the last may have an attribute. -/
theorem begins_localNames (bound : Nat) (hs : s.Tidy plain) (hplain : plain → s.Unattributed) :
    Post (localNames bound) s
      (fun vars s' => Grown plain s.current.span.start s.nextId (vars.map Identifier.node) s')
      fun _ => True := by
  induction bound generalizing s with
  | zero => trivial
  | succ bound ih =>
    unfold localNames
    rw [post_bind]
    refine hs.name.imp fun first s' ⟨⟨word, hname⟩, hnext, h⟩ => ?_
    rw [post_bind]
    refine (h.attributeMark fun hp => ((hplain hp).behind hname hnext).1).imp
      fun _ s'' ⟨h, hsame⟩ => ?_
    refine h.tidy.accept (fun t hcomma hnext' h' => ?_) h
    have hmore : plain → t.Unattributed := by
      intro hp
      have heq := hsame hp
      subst heq
      exact ((hplain hp).behind hname hnext).2 hcomma t hnext'
    have hcomma := h.trans (h'.before h.tidy.previousEnd_le)
    refine post_bind.2 ((ih h'.tidy hmore).imp fun others s' hothers => ?_)
    exact hcomma.trans (hothers.before h'.tidy.previousEnd_le)

/-- So do the names behind a comma. -/
theorem grows_moreNames (bound : Nat) :
    Grows plain (moreNames bound) fun vars => vars.map Identifier.node := by
  induction bound with
  | zero => exact fun _ _ => trivial
  | succ bound ih =>
    intro s hs
    unfold moreNames
    refine (Grown.refl hs).skip (grows_acceptSign _) fun isComma s' h => ?_
    cases isComma with
    | true =>
      refine h.bind begins_name.grows fun next s' h => ?_
      exact h.bind ih fun others s' h => h
    | false => exact h

/-- The parameters of a function grow their nodes in their order. -/
theorem grows_parameterNames (bound : Nat) :
    Grows plain (parameterNames bound) fun read => read.1.map Identifier.node := by
  induction bound with
  | zero => exact fun _ _ => trivial
  | succ bound ih =>
    intro s hs
    unfold parameterNames
    refine (Grown.refl hs).skip (grows_acceptSign _) fun isEllipsis s' h => ?_
    cases isEllipsis with
    | true => exact h
    | false =>
      refine h.bind begins_name.grows fun first s' h => ?_
      refine h.skip (grows_acceptSign _) fun isComma s' h => ?_
      cases isComma with
      | true => exact h.bind ih fun others s' h => h
      | false => exact h

/-- So do the parameters in their brackets. -/
theorem grows_parameters (bound : Nat) :
    Grows plain (parameters bound) fun read => read.1.map Identifier.node := by
  intro s hs
  refine (Grown.refl hs).skip (grows_isNext _) fun isEnd s' h => ?_
  cases isEnd with
  | true => exact h
  | false => exact h.last (grows_parameterNames bound) fun _ _ h => h

/-- What a function statement assigns to spans its parts, from the first name to the last. -/
theorem continues_targetMembers (bound : Nat) (target : FunctionTarget) :
    Continues plain place [target.node] (targetMembers bound target) fun read => [read.node] := by
  induction bound generalizing target with
  | zero => exact fun _ _ _ => trivial
  | succ bound ih =>
    intro number s h
    unfold targetMembers indexer?
    rw [bind_assoc, post_bind, post_peek]
    -- behind either sign a name is read, and the target becomes the base of a member
    have hmember (sign : Indexer) (g : FunctionTarget → Parser FunctionTarget)
        (hg : ∀ target, Continues plain place [target.node] (g target) fun read => [read.node]) :
        Post (do
          let _ ← advance
          let identifier ← name
          let base := target.toExpr
          let span := base.span.through identifier.span
          let member := FunctionTarget.member (← freshId) span base sign identifier
          g member) s (fun read s' => Grown plain place number [read.node] s') fun _ => True := by
      refine h.skip begins_advance.grows fun _ s' h => ?_
      refine h.bind begins_name.grows fun identifier s' h => ?_
      rw [post_bind, post_freshId]
      refine hg _ number _ ?_
      have hspan : target.toExpr.span = target.node.span := by
        rw [← FunctionTarget.node_toExpr, Expr.node_eq]
      refine (h.cover (h.row.hull s'.nextId)).as ?_
      rw [FunctionTarget.node, FunctionTarget.node_toExpr, hspan]
      rfl
    split
    next => exact hmember .dot _ ih
    next => exact hmember .colon pure fun _ _ _ h => h
    next => exact h

/-- The target of a function statement is one node. -/
theorem begins_functionTarget (bound : Nat) :
    Begins plain (functionTarget bound) fun target => [target.node] := by
  intro s hs
  refine hs.bind begins_name fun root s' h => ?_
  refine h.note fun s' h => ?_
  exact continues_targetMembers bound (.name root) _ s' (h.as (by rw [FunctionTarget.node]))

section Productions

variable {block : Parser (List Stmt)} {expression suffixed table : Parser Expr}
  {expressions : Parser (List Expr)} {function : Position → Bool → Parser FunctionBody}

/-! ## Scopes -/

/-- A block grows the nodes of its statements. -/
theorem grows_innerBlock (hblock : Grows plain block stmtNodes) :
    Grows plain (innerBlock block) stmtNodes := by
  intro s hs
  refine (Grown.refl hs).note fun s' h => ?_
  exact h.last hblock.leaving fun _ _ h => h

/-- So does the body of a loop. -/
theorem grows_loopBody (vars : List Identifier) (hblock : Grows plain block stmtNodes) :
    Grows plain (loopBody vars block) stmtNodes := by
  intro s hs
  refine (Grown.refl hs).skip (begins_expectWord _).grows fun _ s' h => ?_
  refine h.note fun s' h => ?_
  refine h.note fun s' h => ?_
  refine h.bind hblock.leaving fun body s' h => ?_
  exact h.skip (begins_expectWord _).grows fun _ s' h => h

/-- A function takes the nodes built since its start, its name among them. -/
theorem continues_functionWith (bound : Nat) (isMethod : Bool) (front : List Node)
    (hblock : Grows plain block stmtNodes) :
    Continues plain place front (functionWith bound block place isMethod)
      fun f => [f.node front] := by
  intro number s h
  refine h.note fun s' h => ?_
  refine h.skip (begins_expectSign _).grows fun _ s' h => ?_
  refine h.bind (grows_parameters bound) fun read s' h => ?_
  refine h.skip (begins_expectSign _).grows fun _ s' h => ?_
  refine h.note fun s' h => ?_
  refine h.bind hblock.leaving fun body s' h => ?_
  refine h.skip (begins_expectWord _).grows fun _ s' h => ?_
  refine h.build (fun id span => FunctionBody.mk id span read.1 read.2 body) fun id span => ?_
  rw [FunctionBody.node, FunctionBody.children, List.append_assoc]

/-! ## Statements -/

/-- A `return` is one node over its arguments. -/
theorem begins_returnStatement (hexpressions : Begins plain expressions exprNodes) :
    Begins plain (returnStatement expressions) fun statement => [statement.node] := by
  intro s hs
  unfold returnStatement
  rw [post_bind, post_here]
  refine hs.bind begins_advance fun _ s' h => ?_
  refine h.skip grows_isBlockEnd fun isEnd s' h => ?_
  refine h.skip (grows_isNext _) fun isSemicolon s' h => ?_
  refine h.join (fun s hs => (Grown.refl hs).as (by rw [exprNodes])) hexpressions.grows
    fun arguments s' h => ?_
  refine h.skip (grows_acceptSign _) fun _ s' h => ?_
  rw [post_bind]
  refine (h.as (by rw [StmtKind.children, List.nil_append])).stmt.imp fun statement s' h => ?_
  refine h.skip grows_isBlockEnd fun isEnd s' h => ?_
  cases isEnd with
  | true => exact h
  | false => trivial

/-- A `local` statement is one node over its variables and its values. -/
theorem Grown.localStatement (bound : Nat) (hexpressions : Begins plain expressions exprNodes)
    (h : Grown plain place number [] s) (hplain : plain → s.Unattributed) :
    Post (localStatement bound expressions place) s
      (fun statement s' => Grown plain place number [statement.node] s') fun _ => True := by
  unfold Parser.localStatement
  rw [post_bind]
  refine (begins_localNames bound h.tidy hplain).imp fun vars s' hvars => ?_
  have h := h.trans (hvars.before h.tidy.previousEnd_le)
  refine h.skip (grows_acceptSign _) fun _ s' h => ?_
  refine h.join hexpressions.grows (fun s hs => (Grown.refl hs).as (by rw [exprNodes]))
    fun init s' h => ?_
  rw [post_bind, post_freshId, post_bind, post_note, post_bind, post_spanFrom]
  have hclosed := h.close.noted (.declare s'.nextId vars init)
  exact hclosed.as (by rw [Stmt.node, StmtKind.children, List.nil_append])

/-- A local function goes on from its name to its body. -/
theorem continues_localFunction
    (hfunction : ∀ place isMethod front, Continues plain place front (function place isMethod)
      fun f => [f.node front]) :
    Continues plain place [] (localFunction function place) StmtKind.children := by
  intro number s h
  refine h.bind begins_name.grows fun identifier s' h => ?_
  refine h.note fun s' h => ?_
  refine h.continue (hfunction place false _) fun f s' h => ?_
  exact h.as (by simp [StmtKind.children, FunctionBody.node])

/-- A function statement goes on from its target to its function. -/
theorem continues_functionStatement (bound : Nat)
    (hfunction : ∀ place isMethod front, Continues plain place front (function place isMethod)
      fun f => [f.node front]) :
    Continues plain place [] (functionStatement bound function place) StmtKind.children := by
  intro number s h
  refine h.bind (begins_functionTarget bound).grows fun target s' h => ?_
  refine h.continue (hfunction place target.isMethod _) fun f s' h => ?_
  exact h.as (by simp [StmtKind.children, FunctionBody.node])

/-- A clause is one node over its condition and its block. -/
theorem continues_clause (hexpression : Begins plain expression fun e => [e.node])
    (hblock : Grows plain block stmtNodes) :
    Continues plain place [] (clause expression block place) fun clause => [clause.node] := by
  intro number s h
  refine h.bind hexpression.grows fun condition s' h => ?_
  refine h.skip (begins_expectWord _).grows fun _ s' h => ?_
  refine h.bind (grows_innerBlock hblock) fun body s' h => ?_
  exact h.build (fun id span => Clause.mk id span condition body) fun _ _ => rfl

/-- Clauses grow their nodes in their order, the last without a condition. -/
theorem grows_clauses (hexpression : Begins plain expression fun e => [e.node])
    (hblock : Grows plain block stmtNodes) (bound : Nat) :
    Grows plain (clauses expression block bound)
      fun read => clauseNodes read.1 ++ elseNodes read.2 := by
  induction bound with
  | zero => exact fun _ _ => trivial
  | succ bound ih =>
    intro s hs
    unfold clauses
    rw [post_bind, post_here]
    refine hs.accept (fun s' _ _ h => ?_) (hs.accept (fun s' _ _ h => ?_) ?_)
    · refine h.continue (continues_clause hexpression hblock) fun first s' h => ?_
      refine h.bind ih fun others s' h => ?_
      refine (h.before hs.previousEnd_le).as ?_
      simp [clauseNodes_cons]
    · refine h.bind (grows_innerBlock hblock) fun body s' h => ?_
      rw [post_bind, post_freshId, post_bind, post_spanFrom]
      refine (h.close.before hs.previousEnd_le).as ?_
      simp [clauseNodes, elseNodes]
    · exact (Grown.refl hs).as (by simp [clauseNodes, elseNodes])

/-- A conditional stands over its clauses. -/
theorem begins_conditional (bound : Nat) (hexpression : Begins plain expression fun e => [e.node])
    (hblock : Grows plain block stmtNodes) :
    Begins plain (conditional bound expression block) StmtKind.children := by
  intro s hs
  unfold conditional
  rw [post_bind, post_here]
  refine hs.bind begins_advance fun _ s' h => ?_
  refine h.continue (continues_clause hexpression hblock) fun first s' h => ?_
  refine h.bind (grows_clauses hexpression hblock bound) fun others s' h => ?_
  refine h.skip (begins_expectWord _).grows fun _ s' h => ?_
  exact h.as (children_conditional ..)

/-- A `while` loop stands over its condition and its body. -/
theorem begins_whileLoop (hexpression : Begins plain expression fun e => [e.node])
    (hblock : Grows plain block stmtNodes) :
    Begins plain (whileLoop expression block) StmtKind.children := by
  intro s hs
  refine hs.bind begins_advance fun _ s' h => ?_
  refine h.bind hexpression.grows fun condition s' h => ?_
  refine h.skip (begins_expectWord _).grows fun _ s' h => ?_
  refine h.bind (grows_innerBlock hblock) fun body s' h => ?_
  refine h.skip (begins_expectWord _).grows fun _ s' h => ?_
  exact h.as (by simp [StmtKind.children])

/-- A `repeat` loop stands over its body and its condition. -/
theorem begins_repeatLoop (hexpression : Begins plain expression fun e => [e.node])
    (hblock : Grows plain block stmtNodes) :
    Begins plain (repeatLoop expression block) StmtKind.children := by
  intro s hs
  refine hs.bind begins_advance fun _ s' h => ?_
  refine h.note fun s' h => ?_
  refine h.bind hblock fun body s' h => ?_
  refine h.skip (begins_expectWord _).grows fun _ s' h => ?_
  refine h.bind hexpression.grows fun condition s' h => ?_
  refine h.note fun s' h => ?_
  exact h.as (by simp [StmtKind.children])

theorem begins_blockStatement (hblock : Grows plain block stmtNodes) :
    Begins plain (blockStatement block) StmtKind.children := by
  intro s hs
  refine hs.bind begins_advance fun _ s' h => ?_
  refine h.bind (grows_innerBlock hblock) fun body s' h => ?_
  refine h.skip (begins_expectWord _).grows fun _ s' h => ?_
  exact h.as (by simp [StmtKind.children])

theorem grows_step (hexpression : Begins plain expression fun e => [e.node]) :
    Grows plain (some <$> expression) stepNodes := by
  intro s hs
  rw [post_map]
  exact (hexpression.grows s hs).imp fun e s' h => h.as (by rw [stepNodes])

/-- A `for` loop stands over its variables, its header and its body. -/
theorem begins_forLoop (bound : Nat) (hexpression : Begins plain expression fun e => [e.node])
    (hexpressions : Begins plain expressions exprNodes) (hblock : Grows plain block stmtNodes) :
    Begins plain (forLoop bound expression expressions block) StmtKind.children := by
  intro s hs
  unfold forLoop
  refine hs.bind begins_advance fun _ s' h => ?_
  refine h.bind begins_name.grows fun first s' h => ?_
  refine h.skip (grows_acceptSign _) fun isNumeric s' h => ?_
  cases isNumeric with
  | true =>
    refine h.bind hexpression.grows fun start s' h => ?_
    refine h.skip (begins_expectSign _).grows fun _ s' h => ?_
    refine h.bind hexpression.grows fun stop s' h => ?_
    refine h.skip (grows_acceptSign _) fun hasStep s' h => ?_
    refine h.join (grows_step hexpression) (fun s hs => (Grown.refl hs).as (by rw [stepNodes]))
      fun step s' h => ?_
    refine h.bind (grows_loopBody [first] hblock) fun body s' h => ?_
    exact h.as (by simp [StmtKind.children])
  | false =>
    refine h.bind (grows_moreNames bound) fun others s' h => ?_
    refine h.skip (begins_expectWord _).grows fun _ s' h => ?_
    refine h.bind hexpressions.grows fun iterators s' h => ?_
    refine h.bind (grows_loopBody _ hblock) fun body s' h => ?_
    exact h.as (by simp [StmtKind.children])

/-- The targets of an assignment grow their nodes in their order. -/
theorem grows_moreTargets (hsuffixed : Begins plain suffixed fun e => [e.node]) (bound : Nat) :
    Grows plain (moreTargets suffixed bound) exprNodes := by
  induction bound with
  | zero => exact fun _ _ => trivial
  | succ bound ih =>
    intro s hs
    unfold moreTargets
    refine (Grown.refl hs).skip (grows_acceptSign _) fun isComma s' h => ?_
    cases isComma with
    | true =>
      refine h.bind hsuffixed.grows fun next s' h => ?_
      refine h.bind ih fun others s' h => ?_
      exact h.as (by simp [exprNodes])
    | false => exact h.as (by rw [exprNodes])

/-- Checking the targets grows nothing. -/
theorem grows_checkTargets (targets : List Expr) :
    Grows plain (checkTargets targets) fun _ => [] := by
  intro s hs
  unfold checkTargets
  split
  next => trivial
  next => exact Grown.refl hs

/-- A call or an assignment stands over its expressions. -/
theorem begins_expressionStatement (bound : Nat)
    (hsuffixed : Begins plain suffixed fun e => [e.node])
    (hexpressions : Begins plain expressions exprNodes) :
    Begins plain (expressionStatement bound suffixed expressions) StmtKind.children := by
  intro s hs
  unfold expressionStatement
  refine hs.bind hsuffixed fun first s' h => ?_
  refine h.skip (grows_isNext _) fun isAssign s' h => ?_
  refine h.skip (grows_isNext _) fun isComma s' h => ?_
  split
  · refine h.bind (grows_moreTargets hsuffixed bound) fun others s' h => ?_
    refine h.skip (grows_checkTargets _) fun _ s' h => ?_
    refine h.skip (begins_expectSign _).grows fun _ s' h => ?_
    refine h.bind hexpressions.grows fun init s' h => ?_
    exact h.as (by simp [StmtKind.children, exprNodes])
  · split
    · exact h.as (by rw [StmtKind.children])
    · trivial

theorem begins_gotoStatement : Begins plain gotoStatement StmtKind.children := by
  intro s hs
  refine hs.bind begins_advance fun _ s' h => ?_
  refine h.bind begins_name.grows fun label s' h => ?_
  exact h.as (by rw [StmtKind.children, List.nil_append])

theorem begins_labelStatement : Begins plain labelStatement StmtKind.children := by
  intro s hs
  refine hs.bind begins_advance fun _ s' h => ?_
  refine h.bind begins_name.grows fun label s' h => ?_
  refine h.skip (begins_expectSign _).grows fun _ s' h => ?_
  exact h.as (by rw [StmtKind.children, List.nil_append])

/-! ## Expressions -/

/-- A field stands over its key and its value. -/
theorem begins_fieldKind (hexpression : Begins plain expression fun e => [e.node]) :
    Begins plain (fieldKind expression) FieldKind.children := by
  intro s hs
  unfold fieldKind
  refine hs.accept (fun s' _ _ h => ?_) ?_
  · refine h.bind hexpression.grows fun key s' h => ?_
    refine h.skip (begins_expectSign _).grows fun _ s' h => ?_
    refine h.skip (begins_expectSign _).grows fun _ s' h => ?_
    refine h.bind hexpression.grows fun value s' h => ?_
    exact h.as (by simp [FieldKind.children])
  · -- looking ahead for the sign behind a name reads nothing
    have hnamed : Post isNamedField s (fun _ s' => s' = s) fun _ => True := by
      unfold isNamedField
      rw [post_bind, post_peek]
      split
      · rw [post_bind, post_get]
        split <;> trivial
      · rfl
    refine post_bind.2 (hnamed.imp fun isNamed s' hsame => ?_)
    subst hsame
    cases isNamed with
    | true =>
      refine hs.bind begins_name fun key s' h => ?_
      refine h.skip (begins_expectSign _).grows fun _ s' h => ?_
      refine h.bind hexpression.grows fun value s' h => ?_
      exact h.as (by simp [FieldKind.children])
    | false =>
      refine hs.bind hexpression fun value s' h => ?_
      exact h.as (by rw [FieldKind.children])

/-- A field is one node. -/
theorem begins_field (hexpression : Begins plain expression fun e => [e.node]) :
    Begins plain (field expression) fun read => [read.node] := by
  intro s hs
  unfold field
  rw [post_bind, post_here]
  refine hs.bind (begins_fieldKind hexpression) fun kind s' h => ?_
  exact h.build (fun id span => Field.mk id span kind) fun _ _ => rfl

/-- The fields of a table grow their nodes in their order. -/
theorem grows_fields (hexpression : Begins plain expression fun e => [e.node]) (bound : Nat) :
    Grows plain (fields expression bound) fieldNodes := by
  induction bound with
  | zero => exact fun _ _ => trivial
  | succ bound ih =>
    intro s hs
    unfold fields
    refine (Grown.refl hs).skip (grows_isNext _) fun isEnd s' h => ?_
    cases isEnd with
    | true => exact h.as (by rw [fieldNodes])
    | false =>
      refine h.bind (begins_field hexpression).grows fun first s' h => ?_
      -- behind a comma or a semicolon the fields go on
      have hmore : ∀ s', Grown plain s.previousEnd s.nextId ([] ++ [first.node]) s' →
          Post (do return first :: (← fields expression bound)) s'
            (fun read s' => Grown plain s.previousEnd s.nextId (fieldNodes read) s')
            fun _ => True := by
        intro s' h
        refine h.bind ih fun others s' h => ?_
        exact h.as (by simp [fieldNodes_cons])
      refine h.skip (grows_acceptSign _) fun isComma s' h => ?_
      cases isComma with
      | true => exact hmore s' h
      | false =>
        refine h.skip (grows_acceptSign _) fun isSemicolon s' h => ?_
        cases isSemicolon with
        | true => exact hmore s' h
        | false => exact h.as (by simp [fieldNodes_cons, fieldNodes])

/-- A table is one node over its fields. -/
theorem begins_table (hexpression : Begins plain expression fun e => [e.node]) (bound : Nat) :
    Begins plain (Parser.table bound expression) fun e => [e.node] := by
  intro s hs
  unfold Parser.table
  rw [post_bind, post_here]
  refine hs.bind (begins_expectSign _) fun _ s' h => ?_
  refine h.bind (grows_fields hexpression bound) fun items s' h => ?_
  refine h.skip (begins_expectSign _).grows fun _ s' h => ?_
  exact (h.as (by rw [ExprKind.children, List.nil_append])).expr

/-- A call goes on from its callee to its arguments. -/
theorem continues_callOf (hexpressions : Begins plain expressions exprNodes)
    (htable : Begins plain table fun e => [e.node]) (base : Expr) :
    Continues plain place [base.node] (callOf expressions table base) ExprKind.children := by
  intro number s h
  unfold callOf
  rw [post_bind, post_peek]
  split
  · refine h.skip begins_advance.grows fun _ s' h => ?_
    refine h.skip (grows_isNext _) fun isEmpty s' h => ?_
    refine h.join (fun s hs => (Grown.refl hs).as (by rw [exprNodes])) hexpressions.grows
      fun arguments s' h => ?_
    refine h.skip (begins_expectSign _).grows fun _ s' h => ?_
    exact h.as (by simp [ExprKind.children])
  · refine h.bind htable.grows fun argument s' h => ?_
    exact h.as (by simp [ExprKind.children, exprNodes])
  next raw _ =>
    have hstring := h.tidy.leaf (fun id span => Expr.mk id span (.string raw)) Expr.node
      fun _ _ => by simp [Expr.node, ExprKind.children]
    rw [post_bind] at hstring ⊢
    refine hstring.imp fun token s' hread => ?_
    rw [post_bind, post_freshId] at hread ⊢
    have hargument := h.trans (hread.2.before h.tidy.previousEnd_le)
    exact hargument.as (by simp [ExprKind.children, exprNodes])
  · trivial

/-- A name or a bracketed expression is one node. -/
theorem begins_primary (hexpression : Begins plain expression fun e => [e.node]) :
    Begins plain (primary expression) fun e => [e.node] := by
  intro s hs
  unfold primary
  rw [post_bind, post_here, post_bind, post_peek]
  split
  · refine hs.bind begins_name fun identifier s' h => ?_
    refine h.note fun s' h => ?_
    exact h.as (by simp [Identifier.toExpr, Expr.node, ExprKind.children, Identifier.node])
  · refine hs.bind begins_advance fun _ s' h => ?_
    refine h.bind hexpression.grows fun inner s' h => ?_
    refine h.skip (begins_expectSign _).grows fun _ s' h => ?_
    rw [post_bind, post_spanFrom]
    exact h.widen.as (by simp [Expr.node_eq])
  · trivial

/-- A suffix goes on from the node it stands behind. -/
theorem continues_suffix {call : Expr → Parser ExprKind}
    (hexpression : Begins plain expression fun e => [e.node])
    (hcall : ∀ base, Continues plain place [base.node] (call base) ExprKind.children)
    (base : Expr) :
    Continues plain place [base.node] (suffix? expression call place base)
      fun next => [(next.getD base).node] := by
  intro number s h
  -- a call covers the callee, which is the base or the method that was just read
  have hcalled (callee : Expr) : Continues plain place [callee.node]
      (do return some (← expr place (← call callee))) fun next => [(next.getD base).node] := by
    intro number s h
    refine h.continue (hcall callee) fun kind s' h => ?_
    exact post_bind.2 h.expr
  unfold suffix?
  rw [post_bind, post_peek]
  split
  · refine h.skip begins_advance.grows fun _ s' h => ?_
    refine h.bind begins_name.grows fun identifier s' h => ?_
    exact post_bind.2 (h.as (by simp [ExprKind.children])).expr
  · refine h.skip begins_advance.grows fun _ s' h => ?_
    refine h.bind hexpression.grows fun index s' h => ?_
    refine h.skip (begins_expectSign _).grows fun _ s' h => ?_
    exact post_bind.2 (h.as (by simp [ExprKind.children])).expr
  · refine h.skip begins_advance.grows fun _ s' h => ?_
    refine h.bind begins_name.grows fun identifier s' h => ?_
    refine post_bind.2 ((h.as (by simp [ExprKind.children])).expr.imp fun method s' h => ?_)
    exact hcalled method number s' h
  · exact hcalled base number s h
  · exact hcalled base number s h
  · exact hcalled base number s h
  · exact h

/-- A literal has no nodes below. -/
theorem literal_children {kind : Kind} {literal : ExprKind} (h : literal? kind = some literal) :
    literal.children = [] := by
  unfold literal? at h
  split at h <;> cases h <;> simp [ExprKind.children]

/-- A literal, a table, a function, or what has suffixes is one node. -/
theorem begins_simple (hsuffixed : Begins plain suffixed fun e => [e.node])
    (htable : Begins plain table fun e => [e.node])
    (hfunction : ∀ place isMethod front, Continues plain place front (function place isMethod)
      fun f => [f.node front]) :
    Begins plain (simple suffixed table function) fun e => [e.node] := by
  intro s hs
  unfold simple
  rw [post_bind, post_here, post_bind, post_peek]
  split
  next literal hliteral =>
    refine hs.bind begins_advance fun _ s' h => ?_
    exact (h.as (literal_children hliteral)).expr
  next =>
    split
    · exact htable s hs
    · refine hs.bind begins_advance fun _ s' h => ?_
      refine h.continue (hfunction _ false []) fun body s' h => ?_
      exact (h.as (by simp [ExprKind.children, FunctionBody.node])).expr
    · exact hsuffixed s hs

end Productions

/-! ## The recursion -/

/-- An operator stands over its operands. -/
theorem apply_children (connective : Connective) (left right : Expr) :
    (connective.apply left right).children = [left.node, right.node] := by
  cases connective <;> rw [Connective.apply, ExprKind.children]

/-- The productions with a bound grow their nodes in a row. -/
structure Growing (plain : Prop) (bound : Nat) : Prop where
  block : Grows plain (block bound) stmtNodes
  statement : Begins plain (statement bound) fun statement => [statement.node]
  function : ∀ place isMethod front, Continues plain place front
    (Parser.function bound place isMethod) fun f => [f.node front]
  expressions : Begins plain (expressions bound) exprNodes
  subexpression : ∀ limit, Begins plain (subexpression bound limit) fun e => [e.node]
  operators : ∀ place limit left,
    Continues plain place [left.node] (operators bound place limit left) fun e => [e.node]
  suffixed : Begins plain (suffixed bound) fun e => [e.node]
  suffixes : ∀ place base,
    Continues plain place [base.node] (suffixes bound place base) fun e => [e.node]

namespace Growing

variable {bound : Nat}

/-- The statements of a block grow in their order, one level below. -/
theorem block_succ (ih : Growing plain bound) :
    Grows plain (Parser.block (bound + 1)) stmtNodes := by
  intro s hs
  unfold Parser.block
  refine (Grown.refl hs).skip grows_isBlockEnd fun isEnd s' h => ?_
  cases isEnd with
  | true => exact h.as (by rw [stmtNodes])
  | false =>
    refine h.skip (grows_isNext _) fun isReturn s' h => ?_
    cases isReturn with
    | true =>
      refine h.bind (begins_returnStatement ih.expressions).grows fun statement s' h => ?_
      exact h.as (by simp [stmtNodes_cons, stmtNodes])
    | false =>
      refine h.skip (grows_acceptSign _) fun isSemicolon s' h => ?_
      cases isSemicolon with
      | true => exact h.last ih.block fun _ _ h => h
      | false =>
        refine h.bind ih.statement.grows fun first s' h => ?_
        refine h.bind ih.block fun rest s' h => ?_
        exact h.as (by simp [stmtNodes_cons])

/-- A statement of each kind is one node, from the productions one level below. -/
theorem statement_succ (ih : Growing plain bound) :
    Begins plain (Parser.statement (bound + 1)) fun statement => [statement.node] := by
  intro s hs
  have hexpression := ih.subexpression 0
  -- a statement that is built from its parts reads its keyword by itself
  have hkind {p : Parser StmtKind} (hp : Begins plain p StmtKind.children) :
      Post (do stmt s.current.span.start (← p)) s
        (fun statement s' => Grown plain s.current.span.start s.nextId [statement.node] s')
        fun _ => True :=
    hs.bind hp fun _ _ h => h.stmt
  unfold Parser.statement
  rw [post_bind, post_here, post_bind, post_peek]
  split
  next heq =>
    refine post_bind.2 (hs.read.imp fun _ s' hread => ?_)
    obtain ⟨-, -, h, hnext⟩ := hread
    refine h.tidy.accept (fun t _ _ h' => ?_) (h.localStatement bound ih.expressions ?_)
    · have h := h.trans (h'.before h.tidy.previousEnd_le)
      refine h.continue (continues_localFunction ih.function) fun _ s' h => ?_
      exact h.stmt
    · -- the sign of an attribute stands behind the word `local` only
      exact fun hplain => unattributed_behind (hs.unmarked hplain) heq hnext
  · refine hs.bind begins_advance fun _ s' h => ?_
    refine h.continue (continues_functionStatement bound ih.function) fun _ s' h => ?_
    exact h.stmt
  · exact hkind (begins_conditional bound hexpression ih.block)
  · exact hkind (begins_whileLoop hexpression ih.block)
  · exact hkind (begins_blockStatement ih.block)
  · exact hkind (begins_repeatLoop hexpression ih.block)
  · exact hkind (begins_forLoop bound hexpression ih.expressions ih.block)
  · refine hs.bind begins_advance fun _ s' h => ?_
    exact (h.as (by rw [StmtKind.children])).stmt
  · exact hkind begins_gotoStatement
  · exact hkind begins_labelStatement
  · exact hkind (begins_expressionStatement bound ih.suffixed ih.expressions)

theorem expressions_succ (ih : Growing plain bound) :
    Begins plain (Parser.expressions (bound + 1)) exprNodes := by
  intro s hs
  unfold Parser.expressions
  refine hs.bind (ih.subexpression 0) fun first s' h => ?_
  refine h.skip (grows_acceptSign _) fun isComma s' h => ?_
  cases isComma with
  | true =>
    refine h.bind ih.expressions.grows fun rest s' h => ?_
    exact h.as (by simp [exprNodes])
  | false => exact h.as (by simp [exprNodes])

/-- An operand and the operators behind it are one node. -/
theorem subexpression_succ (ih : Growing plain bound) (limit : Nat) :
    Begins plain (Parser.subexpression (bound + 1) limit) fun e => [e.node] := by
  intro s hs
  unfold Parser.subexpression
  rw [post_bind, post_here, post_bind, post_peek]
  split
  next operator _ =>
    refine hs.bind begins_advance fun _ s' h => ?_
    refine h.bind (ih.subexpression _).grows fun argument s' h => ?_
    have hchildren : (ExprKind.unary operator argument).children = [argument.node] := by
      rw [ExprKind.children]
    exact post_bind.2 ((h.as hchildren).expr.imp fun first s' h =>
      ih.operators _ limit first _ s' h)
  next =>
    refine hs.bind (begins_simple ih.suffixed (begins_table (ih.subexpression 0) bound) ih.function)
      fun first s' h => ?_
    exact ih.operators _ limit first _ s' h

/-- Operators go on from their left operand. -/
theorem operators_succ (ih : Growing plain bound) (place : Position) (limit : Nat) (left : Expr) :
    Continues plain place [left.node] (Parser.operators (bound + 1) place limit left)
      fun e => [e.node] := by
  intro number s h
  unfold Parser.operators
  rw [post_bind, post_peek]
  split
  next connective _ =>
    rw [post_ite]
    split
    · exact h
    · refine h.skip begins_advance.grows fun _ s' h => ?_
      refine h.bind (ih.subexpression _).grows fun right s' h => ?_
      have happlied := (h.as (apply_children connective left right)).expr
      exact post_bind.2 (happlied.imp fun next s' h => ih.operators place limit next _ s' h)
  next => exact h

theorem suffixed_succ (ih : Growing plain bound) :
    Begins plain (Parser.suffixed (bound + 1)) fun e => [e.node] := by
  intro s hs
  unfold Parser.suffixed
  rw [post_bind, post_here]
  refine hs.bind (begins_primary (ih.subexpression 0)) fun base s' h => ?_
  exact ih.suffixes _ base _ s' h

/-- Suffixes go on from their base. -/
theorem suffixes_succ (ih : Growing plain bound) (place : Position) (base : Expr) :
    Continues plain place [base.node] (Parser.suffixes (bound + 1) place base)
      fun e => [e.node] := by
  intro number s h
  unfold Parser.suffixes
  have htable := begins_table (ih.subexpression 0) bound
  have hcall (callee : Expr) : Continues plain place [callee.node]
      (callOf (Parser.expressions bound) (Parser.table bound (Parser.subexpression bound 0)) callee)
      ExprKind.children := continues_callOf ih.expressions htable callee
  refine h.continue (continues_suffix (ih.subexpression 0) hcall base) fun next s' h => ?_
  cases next with
  | some next => exact ih.suffixes place next number s' h
  | none => exact h

end Growing

/-- **Every production grows its nodes in a row.** -/
theorem growing (plain : Prop) (bound : Nat) : Growing plain bound := by
  induction bound with
  | zero =>
    exact ⟨fun _ _ => trivial, fun _ _ => trivial, fun _ _ _ _ _ _ => trivial, fun _ _ => trivial,
      fun _ _ _ => trivial, fun _ _ _ _ _ _ => trivial, fun _ _ => trivial,
      fun _ _ _ _ _ => trivial⟩
  | succ bound ih =>
    exact
      { block := ih.block_succ
        statement := ih.statement_succ
        function := fun _ isMethod front => continues_functionWith bound isMethod front ih.block
        expressions := ih.expressions_succ
        subexpression := ih.subexpression_succ
        operators := ih.operators_succ
        suffixed := ih.suffixed_succ
        suffixes := ih.suffixes_succ }

/-- **A whole program**: its statements stand in a row, and its span ends with the text. -/
theorem State.Tidy.chunk (bound : Nat) (hs : s.Tidy plain) :
    Post (chunk bound) s (fun chunk s' => Grown plain s.previousEnd s.nextId chunk.nodes s' ∧
      chunk.span = ⟨Position.origin, s'.current.span.stop⟩) fun _ => True := by
  refine (Grown.refl hs).note fun s' h => ?_
  refine h.bind (growing plain bound).block fun body s' h => ?_
  refine h.note fun s' h => ?_
  rw [post_bind, post_get, post_ite]
  split
  next => exact ⟨h, rfl⟩
  next => trivial

end LuaCompiler.Parser
