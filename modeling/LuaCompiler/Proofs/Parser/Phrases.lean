import LuaCompiler.Proofs.Parser.Taken

/-!
# The phrases of every production

The grammar, production by production: the tokens that a production takes are a phrase of its
category, if those of the productions that it uses are. A statement is recognised behind its first
expression, by the shape of the tree. Since parentheses leave no node, the tree of an expression in
parentheses has the same shape.

* `Phrase`: what the tokens of a production are.
* `Spelt`, `Prefixed`: what the tokens of an expression are, and what they are as the head of a
  statement.
* `Spelt.wrapped`: **an expression in parentheses** is the head of a statement only where
  parentheses may stand around one.
-/

namespace LuaCompiler.Parser

open Token (Kind)
open Grammar (Category Derives)

variable {α : Type} {wrapping : Prop} {s s' : State} {ts us : List Kind}

/-- Some tokens are a phrase of a category, if no head of a statement in what they stand for is in
parentheses or this may be. -/
def Phrase (wrapping : Prop) (category : Category) (heads : α → List Expr) (_ : Span) (a : α)
    (ts : List Kind) : Prop :=
  Clean wrapping (heads a) → Derives wrapping category ts

/-- **The tokens of an expression**: a phrase, and if the expression can head a statement, one that
can stand there. -/
structure Spelt (wrapping : Prop) (span : Span) (e : Expr) (ts : List Kind) : Prop where
  span : e.span = span
  anchored : e.Anchored
  exp : Clean wrapping e.heads → Derives wrapping .exp ts
  var : e.isAssignable = true → Clean wrapping (e :: e.heads) → Derives wrapping .var ts
  call : e.isCall = true → Clean wrapping (e :: e.heads) → Derives wrapping .functioncall ts

/-- The tokens of an expression that can have members, indices and calls behind it. -/
structure Prefixed (wrapping : Prop) (span : Span) (e : Expr) (ts : List Kind) : Prop
    extends Spelt wrapping span e ts where
  prefixexp : Clean wrapping e.heads → Derives wrapping .prefixexp ts

/-- An expression that can head no statement. -/
theorem Spelt.of_exp {span : Span} {e : Expr} (hspan : e.span = span) (hhead : e.isHead = false)
    (hanchored : e.Anchored) (hexp : Clean wrapping e.heads → Derives wrapping .exp ts) :
    Spelt wrapping span e ts := by
  obtain ⟨hassign, hcall⟩ := Bool.or_eq_false_iff.1 hhead
  exact ⟨hspan, hanchored, hexp, fun h => absurd h (by simp [hassign]),
    fun h => absurd h (by simp [hcall])⟩

/-- A name, member or index. -/
theorem Prefixed.of_var {span : Span} {e : Expr} (hspan : e.span = span)
    (hcall : e.isCall = false) (hanchored : e.Anchored)
    (hvar : Clean wrapping e.heads → Derives wrapping .var ts) :
    Prefixed wrapping span e ts where
  span := hspan
  anchored := hanchored
  exp h := .prefixed (.var (hvar h))
  var _ h := hvar (clean_cons.1 h).2
  call h := absurd h (by simp [hcall])
  prefixexp h := .var (hvar h)

/-- A call. -/
theorem Prefixed.of_call {span : Span} {e : Expr} (hspan : e.span = span)
    (hassign : e.isAssignable = false) (hanchored : e.Anchored)
    (hcall : Clean wrapping e.heads → Derives wrapping .functioncall ts) :
    Prefixed wrapping span e ts where
  span := hspan
  anchored := hanchored
  exp h := .prefixed (.call (hcall h))
  var h := absurd h (by simp [hassign])
  call _ h := hcall (clean_cons.1 h).2
  prefixexp h := .call (hcall h)

/-- **An expression in parentheses** can head a statement only if this may be. -/
theorem Spelt.wrapped {span : Span} {e : Expr} {lo hi : Position} (h : Spelt wrapping span e ts)
    (hlo : span.start.le lo = false) (hhi : hi.le span.stop = false) :
    Prefixed wrapping ⟨lo, hi⟩ { e with span := ⟨lo, hi⟩ }
      (.symbol .leftParen :: ts ++ [.symbol .rightParen]) := by
  obtain ⟨hanchored, hbare⟩ := Expr.wrapped h.anchored (h.span ▸ hlo) (h.span ▸ hhi)
  have hheads : ({ e with span := ⟨lo, hi⟩ } : Expr).heads = e.heads := by simp [Expr.heads_eq]
  have hparen (hclean : Clean wrapping e.heads) := Derives.paren (h.exp hclean)
  have hwrapping (hhead : e.isHead = true)
      (hclean : Clean wrapping ({ e with span := ⟨lo, hi⟩ } :: e.heads)) : wrapping := by
    refine (clean_cons.1 hclean).1.resolve_right fun hall => ?_
    simpa [hbare hhead] using hall _ (List.mem_singleton.2 rfl)
  refine ⟨⟨rfl, hanchored, ?_, fun hassign => ?_, fun hcall => ?_⟩, ?_⟩ <;> rw [hheads]
  · exact fun hclean => .prefixed (hparen hclean)
  · intro hclean
    have hw := hwrapping (Bool.or_eq_true_iff.2 (.inl hassign)) hclean
    exact .wrappedVar hw (h.var hassign (.inl hw))
  · intro hclean
    have hw := hwrapping (Bool.or_eq_true_iff.2 (.inr hcall)) hclean
    exact .wrappedCall hw (h.call hcall (.inl hw))
  · exact hparen

/-! ## Names -/

/-- An attribute is a name in angle brackets, or nothing. -/
theorem yields_attributeMark (wrapping : Prop) :
    Yields attributeMark fun _ _ ts => Derives wrapping .attrib ts := by
  intro s hs
  refine (Took.refl hs).acceptSign (fun s' h => ?_) ⟨[], .noAttrib, .refl hs⟩
  refine h.bind yields_name fun mark us s' hname h => ?_
  obtain ⟨hus, -⟩ := hname
  refine h.last (yields_expectSign _) fun _ vs s' hvs h => ?_
  subst hus hvs
  exact ⟨_, .attrib mark.name, h⟩

/-- The names behind `local` are a list with attributes. -/
theorem yields_localNames (wrapping : Prop) (bound : Nat) :
    Yields (localNames bound) fun _ _ ts => Derives wrapping .attnamelist ts := by
  induction bound with
  | zero => exact yields_exhausted
  | succ bound ih =>
    intro s hs
    unfold localNames
    refine (Took.refl hs).bind yields_name fun first us s' hname h => ?_
    obtain ⟨hus, -⟩ := hname
    subst hus
    refine h.bind (yields_attributeMark wrapping) fun _ as s' has h => ?_
    refine h.acceptSign (fun s' h => ?_) ⟨_, .oneAttname first.name has, h⟩
    refine h.bind ih fun others vs s' hvs h => ?_
    exact ⟨_, by simpa using Derives.moreAttnames first.name has hvs, h⟩

/-- Names behind commas go on a list of names. -/
theorem yields_moreNames (wrapping : Prop) (bound : Nat) : Yields (moreNames bound)
    fun _ _ ts => ∀ name, Derives wrapping .namelist (.name name :: ts) := by
  induction bound with
  | zero => exact yields_exhausted
  | succ bound ih =>
    intro s hs
    unfold moreNames
    refine (Took.refl hs).acceptSign (fun s' h => ?_) ⟨[], .oneName, .refl hs⟩
    refine h.bind yields_name fun next us s' hname h => ?_
    obtain ⟨hus, -⟩ := hname
    subst hus
    refine h.bind ih fun others vs s' hvs h => ?_
    exact ⟨_, fun name => .moreNames name (hvs next.name), h⟩

/-- A name before some parameters. -/
theorem derives_parlist_cons (name : String) (h : Derives wrapping .parlist ts) :
    Derives wrapping .parlist (.name name :: .symbol .comma :: ts) := by
  cases h with
  | parameters hns => exact .parameters (.moreNames name hns)
  | moreParameters hns => exact .moreParameters (.moreNames name hns)
  | anyParameters => exact .moreParameters (.oneName name)

/-- Parameters are names, and may end with varargs. -/
theorem yields_parameterNames (wrapping : Prop) (bound : Nat) :
    Yields (parameterNames bound) fun _ _ ts => Derives wrapping .parlist ts := by
  induction bound with
  | zero => exact yields_exhausted
  | succ bound ih =>
    intro s hs
    unfold parameterNames
    refine (Took.refl hs).acceptSign (fun s' h => ⟨_, .anyParameters, h⟩) ?_
    refine (Took.refl hs).bind yields_name fun first us s' hname h => ?_
    obtain ⟨hus, -⟩ := hname
    subst hus
    refine h.acceptSign (fun s' h => ?_) ⟨_, .parameters (.oneName first.name), h⟩
    refine h.bind ih fun others vs s' hvs h => ?_
    exact ⟨_, derives_parlist_cons first.name hvs, h⟩

/-- The brackets of a function may be empty. -/
theorem yields_parameters (wrapping : Prop) (bound : Nat) :
    Yields (parameters bound) fun _ _ ts => ts = [] ∨ Derives wrapping .parlist ts := by
  intro s hs
  unfold parameters
  rw [post_bind, post_isNext]
  split
  next => exact ⟨[], .inl rfl, .refl hs⟩
  next =>
    exact (Took.refl hs).last (yields_parameterNames wrapping bound)
      fun _ us s' hus h => ⟨_, .inr hus, h⟩

/-- The members of a function's target go on a dotted name, and the last may follow a colon. -/
theorem yields_targetMembers (wrapping : Prop) (bound : Nat) (target : FunctionTarget) :
    Yields (targetMembers bound target)
      fun _ _ ts => ∀ n, Derives wrapping .dotted n → Derives wrapping .funcname (n ++ ts) := by
  -- along the members, with what has been read as the name so far
  induction bound generalizing target with
  | zero => exact yields_exhausted
  | succ bound ih =>
    intro s hs
    unfold targetMembers indexer?
    rw [bind_assoc, post_bind, post_peek]
    split
    next hdot =>
      refine (Took.refl hs).advance hdot nofun fun s' h => ?_
      refine h.bind yields_name fun identifier us s' hname h => ?_
      obtain ⟨hus, -⟩ := hname
      subst hus
      rw [post_bind, post_freshId]
      refine (h.numbered _).last (ih _) fun _ vs s' hvs h => ⟨_, fun n hn => ?_, h⟩
      simpa using hvs _ (.dot identifier.name hn)
    next hcolon =>
      refine (Took.refl hs).advance hcolon nofun fun s' h => ?_
      refine h.bind yields_name fun identifier us s' hname h => ?_
      obtain ⟨hus, -⟩ := hname
      subst hus
      rw [post_bind, post_freshId]
      exact ⟨_, fun n hn => .method identifier.name hn, h.numbered _⟩
    next =>
      refine ⟨[], fun n hn => ?_, .refl hs⟩
      rw [List.append_nil]
      exact .funcname hn

/-- The target of a function statement is a name with members. -/
theorem yields_functionTarget (wrapping : Prop) (bound : Nat) :
    Yields (functionTarget bound) fun _ _ ts => Derives wrapping .funcname ts := by
  intro s hs
  refine (Took.refl hs).bind yields_name fun root us s' hname h => ?_
  obtain ⟨hus, -⟩ := hname
  subst hus
  refine h.note fun s' h => ?_
  exact h.last (yields_targetMembers wrapping bound _)
    fun _ vs s' hvs h => ⟨_, hvs _ (.root root.name), h⟩

section Productions

variable {block : Parser (List Stmt)} {expression suffixed table : Parser Expr}
  {expressions : Parser (List Expr)} {function : Position → Bool → Parser FunctionBody}

/-! ## Scopes -/

/-- A block in a scope of its own is a block. -/
theorem yields_innerBlock (hblock : Yields block (Phrase wrapping .block stmtHeads)) :
    Yields (innerBlock block) (Phrase wrapping .block stmtHeads) := by
  intro s hs
  refine (Took.refl hs).note fun s' h => ?_
  exact h.last hblock.leaving fun _ us s' hus h => ⟨_, hus, h⟩

/-- The body of a loop, between its two keywords. -/
theorem yields_loopBody (vars : List Identifier)
    (hblock : Yields block (Phrase wrapping .block stmtHeads)) :
    Yields (loopBody vars block) fun _ body ts => ∃ b, ts = .keyword .do :: b ++ [.keyword .end] ∧
      (Clean wrapping (stmtHeads body) → Derives wrapping .block b) := by
  intro s hs
  refine (Took.refl hs).bind (yields_expectWord _) fun _ us s' hus h => ?_
  refine h.note fun s' h => ?_
  refine h.note fun s' h => ?_
  refine h.bind hblock.leaving fun body bs s' hbs h => ?_
  refine h.bind (yields_expectWord _) fun _ vs s' hvs h => ?_
  subst hus hvs
  exact ⟨_, ⟨bs, by simp, hbs⟩, h⟩

/-- A function is its parameters in brackets and its block. -/
theorem yields_functionWith (bound : Nat) (place : Position) (isMethod : Bool)
    (hblock : Yields block (Phrase wrapping .block stmtHeads)) :
    Yields (functionWith bound block place isMethod)
      (Phrase wrapping .funcbody FunctionBody.heads) := by
  intro s hs
  refine (Took.refl hs).note fun s' h => ?_
  refine h.bind (yields_expectSign _) fun _ us s' hus h => ?_
  refine h.bind (yields_parameters wrapping bound) fun read ps s' hps h => ?_
  refine h.bind (yields_expectSign _) fun _ vs s' hvs h => ?_
  refine h.note fun s' h => ?_
  refine h.bind hblock.leaving fun body bs s' hbs h => ?_
  refine h.bind (yields_expectWord _) fun _ ws s' hws h => ?_
  subst hus hvs hws
  rw [post_bind, post_freshId, post_bind, post_spanFrom]
  refine ⟨_, fun hclean => ?_, h.numbered _⟩
  rw [FunctionBody.heads] at hclean
  rcases hps with rfl | hps
  · simpa using Derives.noParameters (hbs hclean)
  · simpa using Derives.funcbody hps (hbs hclean)

/-! ## Statements -/

/-- The arguments of a call are a list, or none. -/
theorem yields_arguments
    (hexpressions : Yields expressions (Phrase wrapping .explist exprHeads)) :
    Yields expressions fun _ es ts => Clean wrapping (exprHeads es) →
      ts = [] ∨ Derives wrapping .explist ts :=
  hexpressions.mono fun _ _ _ h hclean => .inr (h hclean)

theorem yields_noArguments :
    Yields (pure []) fun _ es ts => Clean wrapping (exprHeads es) →
      ts = [] ∨ Derives wrapping .explist ts :=
  yields_pure fun _ _ => .inl rfl

/-- A `return` may have values and a semicolon. -/
theorem yields_returnStatement
    (hexpressions : Yields expressions (Phrase wrapping .explist exprHeads)) :
    YieldsAt (.keyword .return) (returnStatement expressions)
      (Phrase wrapping .retstat fun statement => statement.kind.heads) := by
  intro s hs hkind
  unfold returnStatement
  rw [post_bind, post_here]
  refine (Took.refl hs).advance hkind nofun fun s' h => ?_
  refine h.skip yields_isBlockEnd fun isEnd s' h => ?_
  refine h.skip (yields_isNext _) fun isSemicolon s' h => ?_
  refine h.join yields_noArguments (yields_arguments hexpressions) fun arguments es s' hes h => ?_
  -- what follows the values, with or without a semicolon, is the end of the block
  have hfinish {ts : List Kind} {t : State} (h : Took s ts t)
      (hts : Clean wrapping (exprHeads arguments) → Derives wrapping .retstat ts) :
      Post (do
        let statement ← stmt s.current.span.start (.return arguments)
        if ← isBlockEnd then return statement
        else unexpected (.expected (.keyword .end))) t
        (fun statement t' => ∃ ts, Phrase wrapping .retstat (fun statement => statement.kind.heads)
          ⟨s.current.span.start, t'.previousEnd⟩ statement ts ∧ Took s ts t') fun _ => True := by
    rw [post_bind]
    refine h.stmt.imp fun statement t' htaken => ?_
    obtain ⟨hstatement, h⟩ := htaken
    refine h.skip yields_isBlockEnd fun isEnd t' h => ?_
    cases isEnd with
    | true =>
      refine ⟨_, fun hclean => hts ?_, h⟩
      dsimp only at hclean
      rwa [hstatement, StmtKind.heads] at hclean
    | false => trivial
  refine h.acceptSign (fun t h => hfinish h fun hclean => ?_) (hfinish h fun hclean => ?_)
  · rcases hes hclean with rfl | hes
    · exact .returnNoneEnd
    · exact .returnEnd hes
  · rcases hes hclean with rfl | hes
    · exact .returnNone
    · exact .return hes

/-- A `local` statement, behind its keyword. -/
theorem yields_localStatement (bound : Nat) (place : Position)
    (hexpressions : Yields expressions (Phrase wrapping .explist exprHeads)) :
    Yields (localStatement bound expressions place) fun _ statement ts =>
      Clean wrapping statement.kind.heads → Derives wrapping .stat (.keyword .local :: ts) := by
  intro s hs
  unfold localStatement
  refine (Took.refl hs).bind (yields_localNames wrapping bound) fun vars ns s' hns h => ?_
  have hfinish {ts : List Kind} {t : State} (init : List Expr) (h : Took s ts t)
      (hts : Clean wrapping (exprHeads init) → Derives wrapping .stat (.keyword .local :: ts)) :
      Post (do
        let id ← freshId
        note (.declare id vars init)
        return ⟨id, ← spanFrom place, .local vars init⟩) t
        (fun (statement : Stmt) t' => ∃ ts, (Clean wrapping statement.kind.heads →
          Derives wrapping .stat (.keyword .local :: ts)) ∧ Took s ts t') fun _ => True := by
    rw [post_bind, post_freshId]
    refine (h.numbered _).note fun t h => ?_
    rw [post_bind, post_spanFrom]
    refine ⟨_, fun hclean => hts ?_, h⟩
    rwa [StmtKind.heads] at hclean
  refine h.acceptSign (fun t h => ?_) (hfinish [] h fun _ => .local hns)
  refine h.bind hexpressions fun init es t hes h => hfinish init h fun hclean => ?_
  simpa using Derives.localInit hns (hes hclean)

/-- A `local function` statement, behind its keywords. -/
theorem yields_localFunction (place : Position)
    (hfunction : ∀ place isMethod, Yields (function place isMethod)
      (Phrase wrapping .funcbody FunctionBody.heads)) :
    Yields (localFunction function place) fun _ kind ts => Clean wrapping kind.heads →
      Derives wrapping .stat (.keyword .local :: .keyword .function :: ts) := by
  intro s hs
  refine (Took.refl hs).bind yields_name fun identifier us s' hname h => ?_
  obtain ⟨hus, -⟩ := hname
  subst hus
  refine h.note fun s' h => ?_
  refine h.bind (hfunction _ _) fun f fs s' hfs h => ⟨_, fun hclean => ?_, h⟩
  rw [StmtKind.heads] at hclean
  exact .localFunction identifier.name (hfs hclean)

/-- A function statement, behind its keyword. -/
theorem yields_functionStatement (bound : Nat) (place : Position)
    (hfunction : ∀ place isMethod, Yields (function place isMethod)
      (Phrase wrapping .funcbody FunctionBody.heads)) :
    Yields (functionStatement bound function place) fun _ kind ts => Clean wrapping kind.heads →
      Derives wrapping .stat (.keyword .function :: ts) := by
  intro s hs
  refine (Took.refl hs).bind (yields_functionTarget wrapping bound) fun target us s' hus h => ?_
  refine h.bind (hfunction _ _) fun f fs s' hfs h => ⟨_, fun hclean => ?_, h⟩
  rw [StmtKind.heads] at hclean
  exact .function hus (hfs hclean)

/-- A condition, `then` and a block. -/
theorem yields_clause (hexpression : Yields expression (Phrase wrapping .exp Expr.heads))
    (hblock : Yields block (Phrase wrapping .block stmtHeads)) (place : Position) :
    Yields (clause expression block place) fun _ clause ts =>
      ∃ e b, ts = e ++ .keyword .then :: b ∧
        (Clean wrapping clause.condition.heads → Derives wrapping .exp e) ∧
        (Clean wrapping (stmtHeads clause.body) → Derives wrapping .block b) := by
  intro s hs
  refine (Took.refl hs).bind hexpression fun condition es s' hes h => ?_
  refine h.bind (yields_expectWord _) fun _ us s' hus h => ?_
  subst hus
  refine h.bind (yields_innerBlock hblock) fun body bs s' hbs h => ?_
  rw [post_bind, post_freshId, post_bind, post_spanFrom]
  exact ⟨_, ⟨es, bs, by simp, hes, hbs⟩, h.numbered _⟩

/-- Clauses follow each other up to `end`. -/
theorem yields_clauses (hexpression : Yields expression (Phrase wrapping .exp Expr.heads))
    (hblock : Yields block (Phrase wrapping .block stmtHeads)) (bound : Nat) :
    Yields (clauses expression block bound) fun _ read ts =>
      Clean wrapping (clauseHeads read.1 ++ elseHeads read.2) →
        Derives wrapping .clauses ts := by
  induction bound with
  | zero => exact yields_exhausted
  | succ bound ih =>
    intro s hs
    unfold clauses
    rw [post_bind, post_here]
    refine (Took.refl hs).acceptWord (fun s' h => ?_) ((Took.refl hs).acceptWord
      (fun s' h => ?_) ⟨[], fun _ => .noClause, .refl hs⟩)
    · refine h.bind (yields_clause hexpression hblock _) fun next us s' hus h => ?_
      obtain ⟨e, b, rfl, he, hb⟩ := hus
      refine h.bind ih fun read vs s' hvs h => ⟨_, fun hclean => ?_, h⟩
      obtain ⟨id, span, condition, body⟩ := next
      simp only [clauseHeads, List.append_assoc, clean_append] at hclean hvs
      obtain ⟨hcondition, hbody, hothers, hotherwise⟩ := hclean
      simpa using Derives.elseIf (he hcondition) (hb hbody) (hvs ⟨hothers, hotherwise⟩)
    · refine h.bind (yields_innerBlock hblock) fun body bs s' hbs h => ?_
      rw [post_bind, post_freshId, post_bind, post_spanFrom]
      refine ⟨_, fun hclean => .else (hbs ?_), h.numbered _⟩
      simpa [clauseHeads, elseHeads] using hclean

/-- A conditional is a statement. -/
theorem yields_conditional (bound : Nat)
    (hexpression : Yields expression (Phrase wrapping .exp Expr.heads))
    (hblock : Yields block (Phrase wrapping .block stmtHeads)) :
    YieldsAt (.keyword .if) (conditional bound expression block)
      (Phrase wrapping .stat StmtKind.heads) := by
  intro s hs hkind
  unfold conditional
  rw [post_bind, post_here]
  refine (Took.refl hs).advance hkind nofun fun s' h => ?_
  refine h.bind (yields_clause hexpression hblock _) fun first us s' hus h => ?_
  obtain ⟨e, b, rfl, he, hb⟩ := hus
  refine h.bind (yields_clauses hexpression hblock bound) fun read cs s' hcs h => ?_
  refine h.bind (yields_expectWord _) fun _ ws s' hws h => ⟨_, fun hclean => ?_, h⟩
  subst hws
  obtain ⟨id, span, condition, body⟩ := first
  simp only [StmtKind.heads, List.append_assoc, clean_append] at hclean hcs
  obtain ⟨hcondition, hbody, hothers, hotherwise⟩ := hclean
  simpa using Derives.if (he hcondition) (hb hbody) (hcs ⟨hothers, hotherwise⟩)

/-- A `while` loop is a statement. -/
theorem yields_whileLoop (hexpression : Yields expression (Phrase wrapping .exp Expr.heads))
    (hblock : Yields block (Phrase wrapping .block stmtHeads)) :
    YieldsAt (.keyword .while) (whileLoop expression block)
      (Phrase wrapping .stat StmtKind.heads) := by
  intro s hs hkind
  refine (Took.refl hs).advance hkind nofun fun s' h => ?_
  refine h.bind hexpression fun condition es s' hes h => ?_
  refine h.bind (yields_expectWord _) fun _ us s' hus h => ?_
  refine h.bind (yields_innerBlock hblock) fun body bs s' hbs h => ?_
  refine h.bind (yields_expectWord _) fun _ ws s' hws h => ⟨_, fun hclean => ?_, h⟩
  subst hus hws
  rw [StmtKind.heads, clean_append] at hclean
  simpa using Derives.while (hes hclean.1) (hbs hclean.2)

/-- A `repeat` loop is a statement. -/
theorem yields_repeatLoop (hexpression : Yields expression (Phrase wrapping .exp Expr.heads))
    (hblock : Yields block (Phrase wrapping .block stmtHeads)) :
    YieldsAt (.keyword .repeat) (repeatLoop expression block)
      (Phrase wrapping .stat StmtKind.heads) := by
  intro s hs hkind
  refine (Took.refl hs).advance hkind nofun fun s' h => ?_
  refine h.note fun s' h => ?_
  refine h.bind hblock fun body bs s' hbs h => ?_
  refine h.bind (yields_expectWord _) fun _ us s' hus h => ?_
  refine h.bind hexpression fun condition es s' hes h => ?_
  refine h.note fun s' h => ⟨_, fun hclean => ?_, h⟩
  subst hus
  rw [StmtKind.heads, clean_append] at hclean
  simpa using Derives.repeat (hbs hclean.1) (hes hclean.2)

theorem yields_blockStatement (hblock : Yields block (Phrase wrapping .block stmtHeads)) :
    YieldsAt (.keyword .do) (blockStatement block) (Phrase wrapping .stat StmtKind.heads) := by
  intro s hs hkind
  refine (Took.refl hs).advance hkind nofun fun s' h => ?_
  refine h.bind (yields_innerBlock hblock) fun body bs s' hbs h => ?_
  refine h.bind (yields_expectWord _) fun _ us s' hus h => ⟨_, fun hclean => ?_, h⟩
  subst hus
  rw [StmtKind.heads] at hclean
  exact .do (hbs hclean)

theorem yields_step (hexpression : Yields expression (Phrase wrapping .exp Expr.heads)) :
    Yields (some <$> expression) (Phrase wrapping .exp stepHeads) := by
  intro s hs
  rw [post_map]
  refine (hexpression s hs).imp fun e s' htaken => ?_
  obtain ⟨ts, hts, h⟩ := htaken
  refine ⟨ts, fun hclean => hts ?_, h⟩
  rwa [stepHeads] at hclean

/-- A `for` loop is a statement, over numbers or over an iterator. -/
theorem yields_forLoop (bound : Nat)
    (hexpression : Yields expression (Phrase wrapping .exp Expr.heads))
    (hexpressions : Yields expressions (Phrase wrapping .explist exprHeads))
    (hblock : Yields block (Phrase wrapping .block stmtHeads)) :
    YieldsAt (.keyword .for) (forLoop bound expression expressions block)
      (Phrase wrapping .stat StmtKind.heads) := by
  intro s hs hkind
  unfold forLoop
  refine (Took.refl hs).advance hkind nofun fun s' h => ?_
  refine h.bind yields_name fun first us s' hname h => ?_
  obtain ⟨hus, -⟩ := hname
  subst hus
  -- the sign behind the first name makes it a loop over numbers
  refine h.acceptSign (fun s' h => ?_) ?_
  · refine h.bind hexpression fun start es s' hes h => ?_
    refine h.bind (yields_expectSign _) fun _ cs s' hcs h => ?_
    subst hcs
    refine h.bind hexpression fun stop ls s' hls h => ?_
    refine h.acceptSign (fun s' h => ?_) ?_
    · refine h.bind (yields_step hexpression) fun step sts s' hsts h => ?_
      refine h.bind (yields_loopBody [first] hblock) fun body bs s' hbs h => ?_
      refine ⟨_, fun hclean => ?_, h⟩
      obtain ⟨b, rfl, hb⟩ := hbs
      simp only [StmtKind.heads, List.append_assoc, clean_append] at hclean
      obtain ⟨hstart, hstop, hstep, hbody⟩ := hclean
      simpa using Derives.forStep first.name (hes hstart) (hls hstop) (hsts hstep) (hb hbody)
    · -- without a second comma there is no step
      change Post (loopBody [first] block >>= fun body =>
        pure (StmtKind.forNumeric first start stop none body)) _ _ _
      refine h.bind (yields_loopBody [first] hblock) fun body bs s' hbs h => ?_
      refine ⟨_, fun hclean => ?_, h⟩
      obtain ⟨b, rfl, hb⟩ := hbs
      simp only [StmtKind.heads, stepHeads, List.append_assoc, List.nil_append,
        clean_append] at hclean
      obtain ⟨hstart, hstop, hbody⟩ := hclean
      simpa using Derives.forNumeric first.name (hes hstart) (hls hstop) (hb hbody)
  · -- a generic loop
    refine h.bind (yields_moreNames wrapping bound) fun others ns s' hns h => ?_
    refine h.bind (yields_expectWord _) fun _ us s' hus h => ?_
    subst hus
    refine h.bind hexpressions fun iterators es s' hes h => ?_
    refine h.bind (yields_loopBody _ hblock) fun body bs s' hbs h => ⟨_, fun hclean => ?_, h⟩
    obtain ⟨b, rfl, hb⟩ := hbs
    rw [StmtKind.heads, clean_append] at hclean
    simpa using Derives.forGeneric (hns first.name) (hes hclean.1) (hb hclean.2)

/-- What is assigned to behind a first target. -/
theorem yields_moreTargets (hsuffixed : Yields suffixed (Prefixed wrapping)) (bound : Nat) :
    Yields (moreTargets suffixed bound) fun _ targets ts =>
      (∀ e ∈ targets, e.isAssignable = true) → Clean wrapping targets →
        Clean wrapping (exprHeads targets) →
        ∀ v, Derives wrapping .var v → Derives wrapping .varlist (v ++ ts) := by
  induction bound with
  | zero => exact yields_exhausted
  | succ bound ih =>
    intro s hs
    unfold moreTargets
    refine (Took.refl hs).acceptSign (fun s' h => ?_) ?_
    · refine h.bind hsuffixed fun next us s' hus h => ?_
      refine h.bind ih fun others vs s' hvs h => ⟨_, fun hall htargets hinside v hv => ?_, h⟩
      obtain ⟨hnext, hothers⟩ := List.forall_mem_cons.1 hall
      obtain ⟨hbare, hbares⟩ := clean_cons.1 htargets
      rw [exprHeads, clean_append] at hinside
      have hvar := hus.var hnext (clean_cons.2 ⟨hbare, hinside.1⟩)
      simpa using Derives.moreVars hv (hvs hothers hbares hinside.2 us hvar)
    · refine ⟨[], fun _ _ _ v hv => ?_, .refl hs⟩
      rw [List.append_nil]
      exact .oneVar hv

/-- Targets that were checked can be assigned to. -/
theorem yields_checkTargets (targets : List Expr) : Yields (checkTargets targets)
    fun _ _ ts => ts = [] ∧ ∀ e ∈ targets, e.isAssignable = true := by
  intro s hs
  unfold checkTargets
  split
  next => trivial
  next hnone =>
    refine ⟨[], ⟨rfl, fun e he => ?_⟩, .refl hs⟩
    simpa using List.find?_eq_none.1 hnone e he

/-- An expression that stands as a statement is a call, or the first target of an assignment. -/
theorem yields_expressionStatement (bound : Nat)
    (hsuffixed : Yields suffixed (Prefixed wrapping))
    (hexpressions : Yields expressions (Phrase wrapping .explist exprHeads)) :
    Yields (expressionStatement bound suffixed expressions)
      (Phrase wrapping .stat StmtKind.heads) := by
  intro s hs
  unfold expressionStatement
  refine (Took.refl hs).bind hsuffixed fun first us s' hus h => ?_
  refine h.skip (yields_isNext _) fun isAssign s' h => ?_
  refine h.skip (yields_isNext _) fun isComma s' h => ?_
  split
  · refine h.bind (yields_moreTargets hsuffixed bound) fun others vs s' hvs h => ?_
    refine h.bind (yields_checkTargets _) fun _ ws s' htaken h => ?_
    obtain ⟨hws, hall⟩ := htaken
    refine h.bind (yields_expectSign _) fun _ as s' has h => ?_
    subst hws has
    refine h.bind hexpressions fun init es s' hes h => ⟨_, fun hclean => ?_, h⟩
    -- the targets have passed the check, so each is a variable of the grammar
    obtain ⟨hfirst, hothers⟩ := List.forall_mem_cons.1 hall
    rw [StmtKind.heads, clean_append, clean_append, exprHeads, clean_append] at hclean
    obtain ⟨⟨htargets, hinner, hinners⟩, hinit⟩ := hclean
    obtain ⟨hbare, hbares⟩ := clean_cons.1 htargets
    have hvar := hus.var hfirst (clean_cons.2 ⟨hbare, hinner⟩)
    simpa using Derives.assignment (hvs hothers hbares hinners us hvar) (hes hinit)
  · split
    next hcall =>
      refine ⟨_, fun hclean => ?_, h⟩
      rw [StmtKind.heads] at hclean
      exact .callStat (hus.call hcall hclean)
    next => trivial

/-- A jump is a statement. -/
theorem yields_gotoStatement :
    YieldsAt (.keyword .goto) gotoStatement (Phrase wrapping .stat StmtKind.heads) := by
  intro s hs hkind
  refine (Took.refl hs).advance hkind nofun fun s' h => ?_
  refine h.bind yields_name fun label us s' hname h => ?_
  obtain ⟨hus, -⟩ := hname
  refine ⟨_, fun _ => ?_, h⟩
  subst hus
  exact .goto label.name

/-- A label is a statement. -/
theorem yields_labelStatement :
    YieldsAt (.symbol .doubleColon) labelStatement (Phrase wrapping .stat StmtKind.heads) := by
  intro s hs hkind
  refine (Took.refl hs).advance hkind nofun fun s' h => ?_
  refine h.bind yields_name fun label us s' hname h => ?_
  obtain ⟨hus, -⟩ := hname
  refine h.bind (yields_expectSign _) fun _ vs s' hvs h => ⟨_, fun _ => ?_, h⟩
  subst hus hvs
  exact .labelStat (.label label.name)

/-! ## Expressions -/

/-- Looking ahead takes nothing. -/
theorem yields_isNamedField : Yields isNamedField fun _ _ ts => ts = [] := by
  intro s hs
  unfold isNamedField
  rw [post_bind, post_peek]
  split
  · rw [post_bind, post_get]
    split
    · exact ⟨[], rfl, .refl hs⟩
    · trivial
    · exact ⟨[], rfl, .refl hs⟩
  · exact ⟨[], rfl, .refl hs⟩

/-- A field is keyed, named or positional. -/
theorem yields_fieldKind (hexpression : Yields expression (Phrase wrapping .exp Expr.heads)) :
    Yields (fieldKind expression) (Phrase wrapping .field FieldKind.heads) := by
  intro s hs
  unfold fieldKind
  refine (Took.refl hs).acceptSign (fun s' h => ?_) ?_
  · refine h.bind hexpression fun key ks s' hks h => ?_
    refine h.bind (yields_expectSign _) fun _ us s' hus h => ?_
    refine h.bind (yields_expectSign _) fun _ vs s' hvs h => ?_
    refine h.bind hexpression fun value ws s' hws h => ⟨_, fun hclean => ?_, h⟩
    subst hus hvs
    rw [FieldKind.heads, clean_append] at hclean
    simpa using Derives.keyed (hks hclean.1) (hws hclean.2)
  · -- without a bracket, the sign behind a name tells whether it is a key
    refine (Took.refl hs).skip yields_isNamedField fun isNamed s' h => ?_
    cases isNamed with
    | true =>
      refine h.bind yields_name fun key us s' hname h => ?_
      obtain ⟨hus, -⟩ := hname
      refine h.bind (yields_expectSign _) fun _ vs s' hvs h => ?_
      refine h.bind hexpression fun value ws s' hws h => ⟨_, fun hclean => ?_, h⟩
      subst hus hvs
      rw [FieldKind.heads] at hclean
      exact .named key.name (hws hclean)
    | false =>
      refine h.bind hexpression fun value ws s' hws h => ⟨_, fun hclean => ?_, h⟩
      rw [FieldKind.heads] at hclean
      exact .positional (hws hclean)

theorem yields_field (hexpression : Yields expression (Phrase wrapping .exp Expr.heads)) :
    Yields (field expression) (Phrase wrapping .field fun field => field.kind.heads) := by
  intro s hs
  unfold field
  rw [post_bind, post_here]
  refine (Took.refl hs).bind (yields_fieldKind hexpression) fun kind us s' hus h => ?_
  rw [post_bind, post_freshId, post_bind, post_spanFrom]
  exact ⟨_, hus, h.numbered _⟩

/-- Fields are separated by commas or semicolons, and may end with one. -/
theorem yields_fields (hexpression : Yields expression (Phrase wrapping .exp Expr.heads))
    (bound : Nat) :
    Yields (fields expression bound) fun _ items ts => Clean wrapping (fieldHeads items) →
      ts = [] ∨ Derives wrapping .fieldlist ts := by
  induction bound with
  | zero => exact yields_exhausted
  | succ bound ih =>
    intro s hs
    unfold fields
    refine (Took.refl hs).skip (yields_isNext _) fun isEnd s' h => ?_
    cases isEnd with
    | true => exact ⟨[], fun _ => .inl rfl, h⟩
    | false =>
      refine h.bind (yields_field hexpression) fun first us s' hus h => ?_
      -- behind a separator other fields follow, or the table ends
      have hmore {o : Kind} (ho : o ∈ Grammar.fieldSeparators) {t : State}
          (h : Took s ([] ++ us ++ [o]) t) :
          Post (do return first :: (← fields expression bound)) t
            (fun items t' => ∃ ts, (Clean wrapping (fieldHeads items) →
              ts = [] ∨ Derives wrapping .fieldlist ts) ∧ Took s ts t') fun _ => True := by
        refine h.bind ih fun others vs t hvs h => ⟨_, fun hclean => ?_, h⟩
        rw [fieldHeads_cons, clean_append] at hclean
        rcases hvs hclean.2 with rfl | hvs
        · exact .inr (by simpa using Derives.lastField (hus hclean.1) ho)
        · exact .inr (by simpa using Derives.moreFields (hus hclean.1) ho hvs)
      refine h.acceptSign (fun s' h => hmore (by decide) h)
        (h.acceptSign (fun s' h => hmore (by decide) h) ⟨_, fun hclean => ?_, h⟩)
      rw [fieldHeads_cons, clean_append] at hclean
      exact .inr (.oneField (hus hclean.1))

/-- A table is its fields in braces. -/
theorem yields_table (hexpression : Yields expression (Phrase wrapping .exp Expr.heads))
    (bound : Nat) :
    Yields (Parser.table bound expression) fun span e ts => Spelt wrapping span e ts ∧
      (Clean wrapping e.heads → Derives wrapping .tableconstructor ts) := by
  intro s hs
  unfold Parser.table
  rw [post_bind, post_here]
  refine (Took.refl hs).bind (yields_expectSign _) fun _ us s' hus h => ?_
  refine h.bind (yields_fields hexpression bound) fun items fs s' hfs h => ?_
  refine h.bind (yields_expectSign _) fun _ vs s' hvs h => ?_
  subst hus hvs
  rw [← bind_pure (Parser.expr _ _)]
  refine h.expr fun id s'' hend h => ?_
  have htable (hclean : Clean wrapping (fieldHeads items)) : Derives wrapping .tableconstructor
      ([] ++ [.symbol .leftBrace] ++ fs ++ [.symbol .rightBrace]) := by
    rcases hfs hclean with rfl | hfs
    · exact .noFields
    · exact .fields hfs
  have hheads (span : Span) : Expr.heads ⟨id, span, .table items⟩ = fieldHeads items := by
    rw [Expr.heads, ExprKind.heads]
  refine ⟨_, ⟨.of_exp (by rw [hend]) rfl trivial fun hclean => ?_, fun hclean => ?_⟩, h⟩
  · exact .table (htable (hheads _ ▸ hclean))
  · exact htable (hheads _ ▸ hclean)

/-- The call of a base: what stands behind the base is the arguments. -/
def Called (wrapping : Prop) (base : Expr) (_ : Span) (kind : ExprKind) (ts : List Kind) : Prop :=
  ∃ style arguments, kind = .call base style arguments ∧
    (Clean wrapping (exprHeads arguments) → Derives wrapping .args ts)

/-- A call has arguments in brackets, a string or a table. -/
theorem yields_callOf (hexpressions : Yields expressions (Phrase wrapping .explist exprHeads))
    (htable : Yields table fun span e ts => Spelt wrapping span e ts ∧
      (Clean wrapping e.heads → Derives wrapping .tableconstructor ts)) (base : Expr) :
    Yields (callOf expressions table base) (Called wrapping base) := by
  intro s hs
  unfold callOf
  rw [post_bind, post_peek]
  split
  -- arguments in brackets, a table, or a string
  next hkind =>
    refine (Took.refl hs).advance hkind nofun fun s' h => ?_
    refine h.skip (yields_isNext _) fun isEmpty s' h => ?_
    refine h.join yields_noArguments (yields_arguments hexpressions) fun arguments es s' hes h => ?_
    refine h.bind (yields_expectSign _) fun _ us s' hus h => ⟨_, ⟨_, _, rfl, fun hclean => ?_⟩, h⟩
    subst hus
    rcases hes hclean with rfl | hes
    · exact .noArgs
    · exact .args hes
  next =>
    refine (Took.refl hs).bind htable fun argument us s' hus h => ?_
    refine ⟨_, ⟨_, _, rfl, fun hclean => ?_⟩, h⟩
    rw [exprHeads, clean_append] at hclean
    exact .tableArg (hus.2 hclean.1)
  next raw hkind =>
    refine (Took.refl hs).advance hkind nofun fun s' h => ?_
    rw [post_bind, post_freshId]
    exact ⟨_, ⟨_, _, rfl, fun _ => .stringArg raw⟩, h.numbered _⟩
  next => trivial

/-- A name, or an expression in brackets. -/
theorem yields_primary (hexpression : Yields expression (Spelt wrapping)) :
    Yields (primary expression) (Prefixed wrapping) := by
  intro s hs
  unfold primary
  rw [post_bind, post_here, post_bind, post_peek]
  split
  · refine (Took.refl hs).bind yields_name fun identifier us s' hname h => ?_
    obtain ⟨hus, hspan, hstop⟩ := hname
    rw [post_bind, post_note]
    refine ⟨_, .of_var hspan rfl ?_ fun _ => hus ▸ .name identifier.name, h.noted _⟩
    change (identifier.span.start.advance identifier.name.toList).le identifier.span.stop = true
    rw [hspan, hstop]
    exact Position.le_refl _
  next hkind =>
    -- the parentheses start before what they hold, and end behind it
    rw [post_bind]
    refine (hs.read (by simp [hkind]) (hkind ▸ Symbol.text_ne_nil _)).imp fun _ t htaken => ?_
    obtain ⟨hopen, h⟩ := htaken
    rw [hkind] at h
    refine h.bind hexpression fun inner us t' hus h' => ?_
    rw [post_bind]
    refine h'.steady.expectSign.imp fun _ t'' htaken => ?_
    obtain ⟨hclose, h''⟩ := htaken
    rw [post_bind, post_spanFrom]
    refine ⟨_, hus.wrapped ?_ hclose, h'.trans h''⟩
    refine Bool.eq_false_iff.2 fun hle => ?_
    simp [Position.le_trans h.steady.ordered.1 hle] at hopen
  · trivial

/-- A suffix goes on with a base, if there is one. -/
theorem Took.suffix {call : Expr → Parser ExprKind} {place : Position}
    (hexpression : Yields expression (Phrase wrapping .exp Expr.heads))
    (hcall : ∀ base, Yields (call base) (Called wrapping base)) {base : Expr} (h : Took s ts s')
    (hbase : Prefixed wrapping ⟨place, s'.previousEnd⟩ base ts) :
    Post (suffix? expression call place base) s' (fun next s'' => ∃ us,
      Prefixed wrapping ⟨place, s''.previousEnd⟩ (next.getD base) us ∧ Took s us s'')
      fun _ => True := by
  have hanchored {start : Position} (hstart : start = place) : place.le start = true :=
    hstart ▸ Position.le_refl _
  have hbegin : base.span.start = place := by rw [hbase.span]
  have hcalled : Post (do return some (← Parser.expr place (← call base))) s'
      (fun next s'' => ∃ us, Prefixed wrapping ⟨place, s''.previousEnd⟩ (next.getD base) us ∧
        Took s us s'') fun _ => True := by
    refine h.bind (hcall base) fun kind us t hcalled h => ?_
    obtain ⟨style, arguments, hkind, hus⟩ := hcalled
    subst hkind
    refine h.expr fun id t' hend h => ⟨_, .of_call (hend ▸ rfl) rfl (hanchored hbegin) ?_, h⟩
    intro hclean
    rw [Option.getD_some, Expr.heads, ExprKind.heads, clean_append] at hclean
    exact .functioncall (hbase.prefixexp hclean.1) (hus hclean.2)
  -- a member, an index, a method with its arguments, or arguments
  unfold suffix?
  rw [post_bind, post_peek]
  split
  next hkind =>
    refine h.advance hkind (by simp) fun t h => ?_
    refine h.bind yields_name fun identifier us t hname h => ?_
    obtain ⟨hus, -⟩ := hname
    refine h.expr fun id t' hend h => ⟨_, .of_var (hend ▸ rfl) rfl (hanchored hbegin) ?_, h⟩
    intro hclean
    rw [Option.getD_some, Expr.heads, ExprKind.heads] at hclean
    simpa [hus] using Derives.member identifier.name (hbase.prefixexp hclean)
  next hkind =>
    refine h.advance hkind (by simp) fun t h => ?_
    refine h.bind hexpression fun index us t hus h => ?_
    refine h.bind (yields_expectSign _) fun _ vs t hvs h => ?_
    refine h.expr fun id t' hend h => ⟨_, .of_var (hend ▸ rfl) rfl (hanchored hbegin) ?_, h⟩
    intro hclean
    rw [Option.getD_some, Expr.heads, ExprKind.heads, clean_append] at hclean
    simpa [hvs] using Derives.index (hbase.prefixexp hclean.1) (hus hclean.2)
  next hkind =>
    refine h.advance hkind (by simp) fun t h => ?_
    refine h.bind yields_name fun identifier us t hname h => ?_
    obtain ⟨hus, -⟩ := hname
    refine h.expr fun id t' hend h => ?_
    refine h.bind (hcall _) fun kind vs t'' hcalled h => ?_
    obtain ⟨style, arguments, hkind, hvs⟩ := hcalled
    subst hkind
    refine h.expr fun id t' hend h => ⟨_, .of_call (hend ▸ rfl) rfl (hanchored rfl) ?_, h⟩
    intro hclean
    rw [Option.getD_some, Expr.heads, ExprKind.heads, clean_append, Expr.heads,
      ExprKind.heads] at hclean
    simpa [hus] using Derives.methodcall identifier.name (hbase.prefixexp hclean.1) (hvs hclean.2)
  · exact hcalled
  · exact hcalled
  · exact hcalled
  · exact ⟨ts, hbase, h⟩

/-- A literal is an expression of one token. -/
theorem derives_literal (wrapping : Prop) {kind : Kind} {literal : ExprKind}
    (h : literal? kind = some literal) :
    kind ≠ .eof ∧ Derives wrapping .exp [kind] ∧
      ∀ id span, (Expr.mk id span literal).isHead = false ∧ (Expr.mk id span literal).Anchored := by
  unfold literal? at h
  split at h <;> cases h <;> refine ⟨nofun, ?_, fun _ _ => ⟨rfl, trivial⟩⟩
  exacts [.nil, .true, .false, .number _ _, .string _, .vararg]

/-- A literal, a table, a function, or a prefix with suffixes is an expression. -/
theorem yields_simple (hsuffixed : Yields suffixed (Prefixed wrapping))
    (htable : Yields table fun span e ts => Spelt wrapping span e ts ∧
      (Clean wrapping e.heads → Derives wrapping .tableconstructor ts))
    (hfunction : ∀ place isMethod, Yields (function place isMethod)
      (Phrase wrapping .funcbody FunctionBody.heads)) :
    Yields (simple suffixed table function) (Spelt wrapping) := by
  intro s hs
  unfold simple
  rw [post_bind, post_here, post_bind, post_peek]
  split
  -- a literal is one token and has no suffix
  next literal hliteral =>
    obtain ⟨hne, hexp, hkind⟩ := derives_literal wrapping hliteral
    refine (Took.refl hs).advance rfl hne fun t h => ?_
    rw [← bind_pure (Parser.expr _ _)]
    refine h.expr fun id t' hend h => ⟨_, .of_exp (hend ▸ rfl) ?_ ?_ fun _ => hexp, h⟩
    · exact (hkind _ _).1
    · exact (hkind _ _).2
  next =>
    split
    · exact htable.mono (fun _ _ _ h => h.1) s hs
    next hkind =>
      refine (Took.refl hs).advance hkind nofun fun t h => ?_
      refine h.bind (hfunction _ _) fun body us t hus h => ?_
      rw [← bind_pure (Parser.expr _ _)]
      refine h.expr fun id t' hend h => ⟨_, .of_exp (hend ▸ rfl) rfl trivial fun hclean => ?_, h⟩
      rw [Expr.heads, ExprKind.heads] at hclean
      exact .functiondef (hus hclean)
    · exact hsuffixed.mono (fun _ _ _ h => h.toSpelt) s hs

end Productions

end LuaCompiler.Parser
