import LuaCompiler.Proofs.Parser.Operands

/-!
# Reading statements

Every statement is read as itself if its expressions and blocks are, and a block if its statements
are.

* `FunctionReadable`, `StatementReadable`, `BlockReadable`: read as itself.
* `blockReadable`: from the statements to the block.
-/

namespace LuaCompiler.Parser

open Token (Kind)

variable {kinds rest : List Kind} {k : Kind} {e condition : Expr} {es : List Expr} {id : NodeId}
  {span : Span} {b : Nat} {body : List Stmt}

-- the equations of these are derived once, before the many proofs that go by them
attribute [simp] block statement
attribute [grind =] StmtKind.tokens StmtKind.bare

/-! ## Blocks -/

/-- Whether a token ends a block. -/
def endsBlock : Kind → Bool
  | .keyword .end | .keyword .else | .keyword .elseIf | .keyword .until | .eof => true
  | _ => false

/-- **A block is read as itself.** -/
structure BlockReadable (body : List Stmt) : Prop where
  takes : ∀ {b : Nat}, 4 * (stmtTokens body).length + 1 ≤ b →
    Takes (block b) (stmtTokens body) (fun k => endsBlock k = true)
      fun body' => blockBare body' = blockBare body

/-- **Parameters and body of a function are read as themselves.** -/
structure FunctionReadable (f : FunctionBody) : Prop where
  takes : ∀ {b : Nat} {start : Position} {isMethod : Bool}, 4 * f.tokens.length ≤ b →
    Takes (function b start isMethod) f.tokens (fun _ => True) fun f' => f'.bare = f.bare

/-- Whether a block ends is told by the next token. -/
theorem Reads.isBlockEnd {β : Type} {f : Bool → Parser β} {Q : β → List Kind → Prop}
    (h : Reads (f (endsBlock (next kinds))) kinds Q) : Reads (isBlockEnd >>= f) kinds Q := by
  simp only [Parser.isBlockEnd, bind_assoc]
  refine Reads.peek (Reads.bind ?_)
  unfold endsBlock at h
  split <;> exact Reads.pure (by simp_all)

/-! ## Names in a row -/

/-- A list is its first item and the others behind commas. -/
theorem commaSeparated_cons (kinds : List Kind) (items : List (List Kind)) :
    commaSeparated (kinds :: items) = kinds ++ items.flatMap (.symbol .comma :: ·) := by
  induction items generalizing kinds with
  | nil => simp [commaSeparated]
  | cons second items ih => rw [commaSeparated, ih, List.flatMap_cons, List.cons_append]; simp

/-- Items behind a token each are no fewer than tokens. -/
theorem length_le_flatMap_cons {α : Type} (k : Kind) (f : α → List Kind) (items : List α) :
    items.length ≤ (items.flatMap fun a => k :: f a).length := by
  induction items with
  | nil => exact Nat.le_refl _
  | cons a items ih =>
    rw [List.flatMap_cons, List.length_append, List.length_cons, List.length_cons]
    omega

/-- The names of a `local` statement are read back. -/
theorem takes_localNames {vars : List Identifier} {bound : Nat} (hvars : vars ≠ [])
    (hbound : vars.length ≤ bound) :
    Takes (localNames bound) (nameTokens vars)
      (fun k => k ≠ .symbol .comma ∧ k ≠ .symbol .less)
      fun vars' => vars'.map Identifier.bare = vars.map Identifier.bare := by
  induction vars generalizing bound with
  | nil => exact absurd rfl hvars
  | cons v vars ih =>
    rw [List.length_cons] at hbound
    obtain ⟨bound, rfl⟩ : ∃ m, bound = m + 1 := ⟨bound - 1, by omega⟩
    intro rest hrest
    rw [localNames]
    -- the comma behind a name tells whether there is another
    cases vars with
    | nil =>
      simp only [nameTokens, List.map_cons, List.map_nil, commaSeparated, List.cons_append,
        List.nil_append, attributeMark, bind_assoc]
      refine Reads.name fun id span => Reads.refuse hrest.2 ?_
      refine Reads.bind (Reads.pure (Reads.refuse hrest.1 (Reads.pure ⟨rfl, ?_⟩)))
      simp [Identifier.bare]
    | cons second vars =>
      have htail := @ih bound (by simp) (by simpa using hbound)
      simp only [nameTokens, List.map_cons, commaSeparated, List.cons_append, List.nil_append,
        attributeMark, bind_assoc] at htail ⊢
      refine Reads.name fun id span => Reads.refuse (by simp) ?_
      refine Reads.bind (Reads.pure (Reads.accept ?_))
      apply htail.bind hrest
      intro vars' hvars'
      refine Reads.pure ⟨rfl, ?_⟩
      rw [List.map_cons, hvars']
      simp [Identifier.bare]

/-- So are the names behind commas. -/
theorem takes_moreNames {vars : List Identifier} {bound : Nat} (hbound : vars.length < bound) :
    Takes (moreNames bound) (vars.flatMap fun v => [.symbol .comma, .name v.name])
      (fun k => k ≠ .symbol .comma)
      fun vars' => vars'.map Identifier.bare = vars.map Identifier.bare := by
  induction vars generalizing bound with
  | nil =>
    obtain ⟨bound, rfl⟩ : ∃ m, bound = m + 1 := ⟨bound - 1, by omega⟩
    intro rest hrest
    rw [moreNames]
    exact Reads.refuse hrest (Reads.pure ⟨rfl, rfl⟩)
  | cons v vars ih =>
    rw [List.length_cons] at hbound
    obtain ⟨bound, rfl⟩ : ∃ m, bound = m + 1 := ⟨bound - 1, by omega⟩
    intro rest hrest
    rw [moreNames]
    simp only [List.flatMap_cons, List.cons_append, List.nil_append]
    refine Reads.accept (Reads.name fun id span => ?_)
    apply (ih (by omega)).bind hrest
    intro vars' hvars'
    refine Reads.pure ⟨rfl, ?_⟩
    rw [List.map_cons, hvars']
    simp [Identifier.bare]

/-- The first of several parameters stands before a comma. -/
theorem parameterTokens_cons (p : Identifier) {ps : List Identifier} {isVararg : Bool}
    (h : ps ≠ [] ∨ isVararg = true) :
    parameterTokens (p :: ps) isVararg =
      .name p.name :: .symbol .comma :: parameterTokens ps isVararg := by
  cases ps with
  | nil =>
    obtain rfl : isVararg = true := h.resolve_left fun h => h rfl
    rfl
  | cons q ps => rfl

/-- **The parameters of a function**, up to the parenthesis behind them. -/
theorem takes_parameterNames {ps : List Identifier} {isVararg : Bool} {bound : Nat}
    (hne : ps ≠ [] ∨ isVararg = true) (hbound : ps.length < bound) :
    Takes (parameterNames bound) (parameterTokens ps isVararg) (fun k => k = .symbol .rightParen)
      fun r => r.1.map Identifier.bare = ps.map Identifier.bare ∧ r.2 = isVararg := by
  induction ps generalizing bound with
  | nil =>
    obtain ⟨bound, rfl⟩ : ∃ m, bound = m + 1 := ⟨bound - 1, by omega⟩
    obtain rfl : isVararg = true := hne.resolve_left fun h => h rfl
    intro rest hrest
    rw [parameterNames]
    exact Reads.accept (Reads.pure ⟨rfl, rfl, rfl⟩)
  | cons p ps ih =>
    rw [List.length_cons] at hbound
    obtain ⟨bound, rfl⟩ : ∃ m, bound = m + 1 := ⟨bound - 1, by omega⟩
    intro rest hrest
    rw [parameterNames]
    -- a comma stands behind a name unless it is the last parameter
    by_cases hmore : ps ≠ [] ∨ isVararg = true
    · rw [parameterTokens_cons p hmore, List.cons_append, List.cons_append]
      refine Reads.refuse (by simp) (Reads.name fun id span => Reads.accept ?_)
      apply (ih hmore (by omega)).bind hrest
      rintro ⟨ps', isVararg'⟩ ⟨hps, hvararg⟩
      refine Reads.pure ⟨rfl, ?_, hvararg⟩
      rw [List.map_cons, List.map_cons, hps]
      rfl
    · obtain ⟨hps, hvararg⟩ := not_or.1 hmore
      obtain rfl := not_not.1 hps
      obtain rfl := Bool.eq_false_iff.2 hvararg
      refine Reads.refuse (by simp [parameterTokens, commaSeparated]) ?_
      refine Reads.name fun id span => Reads.refuse (by simp [hrest]) ?_
      exact Reads.pure ⟨rfl, rfl, rfl⟩

/-- The parameters of a function are read back, and whether it has varargs. -/
theorem takes_parameters {ps : List Identifier} {isVararg : Bool} {bound : Nat}
    (hbound : ps.length < bound) :
    Takes (parameters bound) (parameterTokens ps isVararg) (fun k => k = .symbol .rightParen)
      fun r => r.1.map Identifier.bare = ps.map Identifier.bare ∧ r.2 = isVararg := by
  intro rest hrest
  rw [parameters]
  refine Reads.isNext ?_
  by_cases hne : ps ≠ [] ∨ isVararg = true
  · have hopen : (next (parameterTokens ps isVararg ++ rest) == .symbol .rightParen) = false := by
      cases ps with
      | nil =>
        obtain rfl : isVararg = true := hne.resolve_left fun h => h rfl
        rfl
      | cons p ps =>
        rw [parameterTokens, List.map_cons, List.cons_append, commaSeparated_cons]
        rfl
    rw [hopen]
    exact takes_parameterNames hne hbound rest hrest
  · obtain ⟨hps, hvararg⟩ := not_or.1 hne
    obtain rfl := not_not.1 hps
    obtain rfl := Bool.eq_false_iff.2 hvararg
    rw [show parameterTokens [] false ++ rest = rest from rfl, hrest]
    exact Reads.pure ⟨rfl, rfl, rfl⟩

theorem length_le_parameterTokens (ps : List Identifier) (isVararg : Bool) :
    ps.length ≤ (parameterTokens ps isVararg).length := by
  have hle := length_le_commaSeparated
    (show ∀ kinds ∈ (ps.map fun n => [Kind.name n.name]) ++
      if isVararg then [[.symbol .ellipsis]] else [], kinds ≠ [] by
        intro kinds hkinds
        rcases List.mem_append.1 hkinds with hkinds | hkinds
        · obtain ⟨n, -, rfl⟩ := List.mem_map.1 hkinds
          simp
        · cases isVararg <;> simp_all)
  rw [List.length_append, List.length_map] at hle
  exact Nat.le_trans (Nat.le_add_right _ _) hle

/-- **A function.** -/
theorem functionReadable {ps : List Identifier} {isVararg : Bool}
    (h : BlockReadable body) : FunctionReadable ⟨id, span, ps, isVararg, body⟩ := by
  refine ⟨fun {b start isMethod} hb rest _ => ?_⟩
  have hparameters := length_le_parameterTokens ps isVararg
  simp only [FunctionBody.tokens, enclosed, List.length_append, List.length_cons, List.length_nil,
    List.cons_append, List.append_assoc, List.nil_append] at hb ⊢
  obtain ⟨b, rfl⟩ : ∃ m, b = m + 1 := ⟨b - 1, by omega⟩
  rw [function, functionWith]
  refine Reads.note (Reads.expect ?_)
  apply (takes_parameters (by omega)).bind rfl
  rintro ⟨ps', isVararg'⟩ ⟨hps, rfl⟩
  refine Reads.expect (Reads.note ?_)
  apply (h.takes (by omega)).leaving.bind rfl
  intro body' hbody
  refine Reads.expect (Reads.freshId fun id' => Reads.spanFrom fun span' => Reads.pure ⟨rfl, ?_⟩)
  simp [FunctionBody.bare, hps, hbody]

/-- **A function as an operand.** -/
theorem climbs_function {f : FunctionBody} (h : FunctionReadable f) :
    Climbs (ExprKind.function f).tokens ⟨id, span, .function f⟩ 15 14 := by
  have hfirst : next (ExprKind.function f).tokens = .keyword .function := rfl
  have hstarts : Starts (ExprKind.function f).tokens := Starts.of_ne_name rfl (by simp)
  apply climbs_simple hstarts (by rw [hfirst]; rfl)
  intro b hb rest _
  rw [simple]
  refine Reads.here fun start => Reads.peek ?_
  rw [hstarts.next_append, hfirst]
  simp only [ExprKind.tokens, List.length_cons, List.cons_append] at hb ⊢
  refine Reads.advance fun _ _ => ?_
  apply (h.takes (by omega)).bind trivial
  intro f' hf'
  simp only [expr]
  refine Reads.freshId fun id => Reads.spanFrom fun span => Reads.pure ⟨rfl, ?_⟩
  simp [Expr.bare, ExprKind.bare, hf']

/-! ## Statements -/

/-- Whether a token can start a statement other than `return`. -/
def opensStatement : Kind → Bool
  | .keyword .local | .keyword .function | .keyword .if | .keyword .while | .keyword .do
  | .keyword .repeat | .keyword .for | .keyword .break | .keyword .goto | .symbol .doubleColon
  | .name _ | .symbol .leftParen => true
  | _ => false

/-- **A statement is read as itself**; a `return`, which is read with its block, has arguments that
are. -/
structure StatementReadable (kind : StmtKind) : Prop where
  returns : ∀ arguments, kind = .return arguments → ∀ e ∈ arguments, Readable e
  opens : kind.isReturn = false → opensStatement (next kind.tokens) = true
  takes : kind.isReturn = false → ∀ {b : Nat}, 4 * kind.tokens.length ≤ b →
    Takes (statement b) kind.tokens (fun k => k = .symbol .semicolon)
      fun s' => s'.kind.bare = kind.bare

variable {kind : StmtKind}

/-- A statement that a production of its own reads, chosen by its first token. -/
theorem statementReadable (hreturn : ∀ arguments, kind ≠ .return arguments)
    (hopens : opensStatement (next kind.tokens) = true)
    (h : ∀ {b : Nat}, 4 * kind.tokens.length ≤ b + 1 →
      Takes (statement (b + 1)) kind.tokens (fun k => k = .symbol .semicolon)
        fun s' => s'.kind.bare = kind.bare) : StatementReadable kind where
  returns arguments heq := absurd heq (hreturn arguments)
  opens _ := hopens
  takes _ {b} hb := by
    have hpos : 0 < kind.tokens.length := by
      rw [List.length_pos_iff]
      intro hnil
      rw [hnil] at hopens
      cases hopens
    obtain ⟨b, rfl⟩ : ∃ m, b = m + 1 := ⟨b - 1, by omega⟩
    exact h hb

/-- A block that can be read is read in a scope of its own. -/
theorem BlockReadable.innerBlock (h : BlockReadable body)
    (hb : 4 * (stmtTokens body).length + 1 ≤ b) :
    Takes (innerBlock (block b)) (stmtTokens body) (fun k => endsBlock k = true)
      fun body' => blockBare body' = blockBare body := by
  intro rest hrest
  rw [Parser.innerBlock]
  exact Reads.note ((h.takes hb).leaving rest hrest)

theorem readable_break : StatementReadable .break := by
  refine statementReadable (by simp) rfl fun {b} _ rest _ => ?_
  rw [statement]
  refine Reads.here fun start => Reads.peek (Reads.advance fun _ _ => ?_)
  exact Reads.stmt fun id span => ⟨rfl, rfl⟩

/-- A jump is read back. -/
theorem readable_goto (label : Identifier) : StatementReadable (.goto label) := by
  refine statementReadable (by simp) rfl fun {b} _ rest _ => ?_
  rw [statement]
  refine Reads.here fun start => Reads.peek ?_
  simp only [StmtKind.tokens, List.cons_append, List.nil_append, next_cons, gotoStatement,
    bind_assoc]
  refine Reads.advance fun _ _ => Reads.name fun id span => Reads.bind (Reads.pure ?_)
  exact Reads.stmt fun id span => ⟨rfl, rfl⟩

/-- A label is read back. -/
theorem readable_label (label : Identifier) : StatementReadable (.label label) := by
  refine statementReadable (by simp) rfl fun {b} _ rest _ => ?_
  rw [statement]
  refine Reads.here fun start => Reads.peek ?_
  simp only [StmtKind.tokens, List.cons_append, List.nil_append, next_cons, labelStatement,
    bind_assoc]
  refine Reads.advance fun _ _ => Reads.name fun id span => Reads.expect (Reads.bind (Reads.pure ?_))
  exact Reads.stmt fun id span => ⟨rfl, rfl⟩

/-- A block is read back when its statements are. -/
theorem readable_block (h : BlockReadable body) : StatementReadable (.block body) := by
  refine statementReadable (by simp) rfl fun {b} hb rest _ => ?_
  simp only [StmtKind.tokens, List.length_cons, List.length_append, List.length_nil,
    List.cons_append, List.append_assoc, List.nil_append] at hb ⊢
  rw [statement]
  refine Reads.here fun start => Reads.peek ?_
  simp only [next_cons, blockStatement, bind_assoc]
  refine Reads.advance fun _ _ => ?_
  apply (h.innerBlock (by omega)).bind rfl
  intro body' hbody
  refine Reads.expect (Reads.bind (Reads.pure (Reads.stmt fun id span => ⟨rfl, ?_⟩)))
  simp [StmtKind.bare, hbody]

/-- A `while` loop is read back when its condition and body are. -/
theorem readable_while (hc : Readable condition) (h : BlockReadable body) :
    StatementReadable (.while condition body) := by
  refine statementReadable (by simp) rfl fun {b} hb rest _ => ?_
  simp only [StmtKind.tokens, List.length_cons, List.length_append, List.length_nil,
    List.cons_append, List.append_assoc, List.nil_append] at hb ⊢
  rw [statement]
  refine Reads.here fun start => Reads.peek ?_
  simp only [next_cons, whileLoop, bind_assoc]
  refine Reads.advance fun _ _ => ?_
  have hdo : Stops 0 (next (.keyword .do :: (stmtTokens body ++ .keyword .end :: rest))) :=
    stops_of_none rfl rfl
  apply (hc.takes (by omega)).bind hdo
  intro condition' hcondition
  refine Reads.expect ?_
  apply (h.innerBlock (by omega)).bind rfl
  intro body' hbody
  refine Reads.expect (Reads.bind (Reads.pure (Reads.stmt fun id span => ⟨rfl, ?_⟩)))
  simp [StmtKind.bare, hcondition, hbody]

/-- So is a `repeat` loop. -/
theorem readable_repeat (h : BlockReadable body) (hc : Readable condition) :
    StatementReadable (.repeat body condition) := by
  refine statementReadable (by simp) rfl fun {b} hb rest hrest => ?_
  simp only [StmtKind.tokens, List.length_cons, List.length_append, List.cons_append,
    List.append_assoc] at hb ⊢
  rw [statement]
  refine Reads.here fun start => Reads.peek ?_
  simp only [next_cons, repeatLoop, bind_assoc]
  refine Reads.advance fun _ _ => Reads.note ?_
  apply (h.takes (by omega)).bind rfl
  intro body' hbody
  refine Reads.expect ?_
  have hstops : Stops 0 (next rest) := by rw [hrest]; exact stops_of_none rfl rfl
  apply (hc.takes (by omega)).bind hstops
  intro condition' hcondition
  refine Reads.note (Reads.bind (Reads.pure (Reads.stmt fun id span => ⟨rfl, ?_⟩)))
  simp [StmtKind.bare, hcondition, hbody]

/-- A local function is read back when its function is. -/
theorem readable_localFunction {f : FunctionBody} (name : Identifier) (h : FunctionReadable f) :
    StatementReadable (.localFunction name f) := by
  refine statementReadable (by simp) rfl fun {b} hb rest _ => ?_
  simp only [StmtKind.tokens, List.length_cons, List.cons_append] at hb ⊢
  rw [statement]
  refine Reads.here fun start => Reads.peek (Reads.advance fun _ _ => Reads.accept ?_)
  simp only [if_true, localFunction, bind_assoc]
  refine Reads.name fun id span => Reads.note ?_
  apply (h.takes (by omega)).bind trivial
  intro f' hf'
  refine Reads.bind (Reads.pure (Reads.stmt fun id span => ⟨rfl, ?_⟩))
  simp [StmtKind.bare, Identifier.bare, hf']

/-- **A `local` statement**, with values or without. -/
theorem readable_local {vars : List Identifier} (hvars : vars ≠ []) (h : ∀ e ∈ es, Readable e) :
    StatementReadable (.local vars es) := by
  refine statementReadable (by simp) rfl fun {b} hb rest hrest => ?_
  simp only [StmtKind.tokens, List.length_cons, List.length_append, List.cons_append,
    List.append_assoc] at hb ⊢
  have hcount : vars.length ≤ (nameTokens vars).length := by
    have hle := length_le_commaSeparated
      (show ∀ kinds ∈ vars.map fun n => [Kind.name n.name], kinds ≠ [] by simp)
    rwa [List.length_map] at hle
  -- the word `function` would make it a local function
  have hfunction : next (nameTokens vars ++ (initTokens (exprTokens es) ++ rest)) ≠
      .keyword .function := by
    cases vars with
    | nil => exact absurd rfl hvars
    | cons v vars =>
      rw [nameTokens, List.map_cons, commaSeparated_cons]
      simp
  rw [statement]
  refine Reads.here fun start => Reads.peek (Reads.advance fun _ _ => Reads.refuse hfunction ?_)
  simp only [Bool.false_eq_true, if_false, localStatement]
  -- a declaration without values has no sign between names and values
  by_cases hnil : es = []
  · subst hnil
    have hstops : next rest ≠ .symbol .comma ∧ next rest ≠ .symbol .less := by simp [hrest]
    apply (takes_localNames hvars (by omega)).bind hstops
    intro vars' hvars'
    refine Reads.refuse (by simp [hrest]) (Reads.bind (Reads.pure ?_))
    refine Reads.freshId fun id => Reads.note (Reads.spanFrom fun span => Reads.pure ⟨rfl, ?_⟩)
    simp [StmtKind.bare, hvars']
  · have hinit : initTokens (exprTokens es) = .symbol .assign :: commaSeparated (exprTokens es) := by
      cases es with
      | nil => exact absurd rfl hnil
      | cons e es => rfl
    rw [hinit, List.length_cons] at hb
    rw [hinit, List.cons_append]
    apply (takes_localNames hvars (by omega)).bind (by simp)
    intro vars' hvars'
    refine Reads.accept ?_
    have hstops : StopsRow (next rest) := by
      rw [hrest]
      exact stopsRow_of_none rfl rfl (by simp)
    apply (takes_expressions hnil h (by omega)).bind hstops
    intro es' hes'
    refine Reads.freshId fun id => Reads.note (Reads.spanFrom fun span => Reads.pure ⟨rfl, ?_⟩)
    simp [StmtKind.bare, hvars', hes']

/-! ## Clauses and loops -/

/-- A clause is read as itself. -/
def ClauseReadable (c : Clause) : Prop := Readable c.condition ∧ BlockReadable c.body

/-- The last clause of a conditional is read as itself. -/
def ElseReadable : Option ElseClause → Prop
  | none => True
  | some c => BlockReadable c.body

/-- A clause is read up to the end of its block. -/
theorem takes_clause {c : Clause} {start : Position} (h : ClauseReadable c)
    (hb : 4 * c.tokens.length ≤ b) :
    Takes (clause (subexpression b 0) (block b) start) c.tokens (fun k => endsBlock k = true)
      fun c' => c'.bare = c.bare := by
  obtain ⟨id, span, condition, body⟩ := c
  obtain ⟨hc, hbody⟩ : Readable condition ∧ BlockReadable body := h
  intro rest hrest
  simp only [Clause.tokens, List.length_append, List.length_cons, List.append_assoc,
    List.cons_append] at hb ⊢
  rw [clause]
  have hthen : Stops 0 (next (.keyword .then :: (stmtTokens body ++ rest))) := stops_of_none rfl rfl
  apply (hc.takes (by omega)).bind hthen
  intro condition' hcondition
  refine Reads.expect ?_
  apply (hbody.innerBlock (by omega)).bind hrest
  intro body' hbody'
  refine Reads.freshId fun id' => Reads.spanFrom fun span' => Reads.pure ⟨rfl, ?_⟩
  simp only [Clause.bare, hbody']
  rw [hcondition]

/-- The first clause ends before any others. -/
theorem clausesEnd {others : List Clause} {otherwise : Option ElseClause} :
    endsBlock (next (clauseTokens others ++ (elseTokens otherwise ++ .keyword .end :: rest))) =
      true := by
  cases others with
  | nil =>
    cases otherwise with
    | none => rfl
    | some c =>
      cases c
      rfl
  | cons c others => rfl

/-- **The clauses behind the first**, up to the end of the conditional. -/
theorem takes_clauses {others : List Clause} {otherwise : Option ElseClause} {bound : Nat}
    (h : ∀ c ∈ others, ClauseReadable c) (ho : ElseReadable otherwise)
    (hb : 4 * (clauseTokens others).length + 4 * (elseTokens otherwise).length ≤ b)
    (hbound : others.length < bound) :
    Takes (clauses (subexpression b 0) (block b) bound)
      (clauseTokens others ++ elseTokens otherwise) (fun k => k = .keyword .end)
      fun r => clausesBare r.1 = clausesBare others ∧ elseBare r.2 = elseBare otherwise := by
  induction others generalizing bound with
  | nil =>
    obtain ⟨bound, rfl⟩ : ∃ m, bound = m + 1 := ⟨bound - 1, by omega⟩
    intro rest hrest
    rw [clauses]
    refine Reads.here fun start => ?_
    -- no `elseif` is left: what may follow is the last clause
    cases otherwise with
    | none =>
      refine Reads.refuse (by simp [clauseTokens, elseTokens, hrest]) ?_
      refine Reads.refuse (by simp [clauseTokens, elseTokens, hrest]) ?_
      exact Reads.pure ⟨rfl, rfl, rfl⟩
    | some c =>
      obtain ⟨id, span, body⟩ := c
      simp only [clauseTokens, elseTokens, List.length_cons, List.nil_append, List.cons_append]
        at hb ⊢
      refine Reads.refuse (by simp) (Reads.accept ?_)
      apply ((show BlockReadable body from ho).innerBlock (by omega)).bind (by rw [hrest]; rfl)
      intro body' hbody
      refine Reads.freshId fun id' => Reads.spanFrom fun span' => Reads.pure ⟨rfl, rfl, ?_⟩
      simp [elseBare, hbody]
  | cons c others ih =>
    rw [List.length_cons] at hbound
    obtain ⟨bound, rfl⟩ : ∃ m, bound = m + 1 := ⟨bound - 1, by omega⟩
    intro rest hrest
    simp only [clauseTokens, List.length_cons, List.length_append, List.cons_append,
      List.append_assoc] at hb ⊢
    -- a clause ends before any of the words that may follow its block
    have hend : rest = .keyword .end :: rest.tail := by
      cases rest with
      | nil => cases hrest
      | cons k rest =>
        obtain rfl : k = .keyword .end := hrest
        rfl
    rw [clauses]
    refine Reads.here fun start => Reads.accept ?_
    apply (takes_clause (h c (List.mem_cons_self ..)) (by omega)).bind
      (by rw [hend]; exact clausesEnd)
    intro c' hc'
    have htail := @ih bound (fun c hc => h c (List.mem_cons_of_mem _ hc)) (by omega)
      (by omega) rest hrest
    rw [List.append_assoc] at htail
    refine Reads.bind (htail.imp ?_)
    rintro ⟨others', otherwise'⟩ _ ⟨rfl, hothers, hotherwise⟩
    refine Reads.pure ⟨rfl, ?_, hotherwise⟩
    simp only [clausesBare, hc']
    rw [hothers]

theorem length_le_clauseTokens (others : List Clause) :
    others.length ≤ (clauseTokens others).length := by
  induction others with
  | nil => exact Nat.le_refl _
  | cons c others ih =>
    rw [clauseTokens]
    simp only [List.length_cons, List.length_append]
    omega

/-- **A conditional.** -/
theorem readable_conditional {first : Clause} {others : List Clause} {otherwise : Option ElseClause}
    (hfirst : ClauseReadable first) (h : ∀ c ∈ others, ClauseReadable c)
    (ho : ElseReadable otherwise) : StatementReadable (.conditional first others otherwise) := by
  refine statementReadable (by simp) rfl fun {b} hb rest _ => ?_
  have hcount := length_le_clauseTokens others
  simp only [StmtKind.tokens, List.length_cons, List.length_append, List.length_nil,
    List.cons_append, List.append_assoc, List.nil_append] at hb ⊢
  rw [statement]
  refine Reads.here fun start => Reads.peek ?_
  simp only [next_cons, conditional, bind_assoc]
  refine Reads.here fun _ => Reads.advance fun _ _ => ?_
  apply (takes_clause hfirst (by omega)).bind clausesEnd
  intro first' hfirst'
  have hclauses := takes_clauses h ho (b := b) (by omega) (show others.length < b by omega)
    (.keyword .end :: rest) rfl
  rw [List.append_assoc] at hclauses
  refine Reads.bind (hclauses.imp ?_)
  rintro ⟨others', otherwise'⟩ _ ⟨rfl, hothers, hotherwise⟩
  refine Reads.expect (Reads.bind (Reads.pure (Reads.stmt fun id span => ⟨rfl, ?_⟩)))
  simp only [StmtKind.bare, hfirst']
  rw [hothers, hotherwise]

/-- The body of a loop is read up to its `end`. -/
theorem reads_loopBody {β : Type} {vars : List Identifier} {f : List Stmt → Parser β}
    {Q : β → List Kind → Prop} (h : BlockReadable body) (hb : 4 * (stmtTokens body).length + 1 ≤ b)
    (hf : ∀ body', blockBare body' = blockBare body → Reads (f body') rest Q) :
    Reads (loopBody vars (block b) >>= f)
      (.keyword .do :: (stmtTokens body ++ .keyword .end :: rest)) Q := by
  simp only [loopBody, bind_assoc]
  refine Reads.expect (Reads.note (Reads.note ?_))
  refine (h.takes hb).leaving.bind rfl fun body' hbody => ?_
  exact Reads.expect (Reads.bind (Reads.pure (hf body' hbody)))

/-- **A loop over numbers**, with a step or without. -/
theorem readable_forNumeric {counter : Identifier} {first last : Expr} {step : Option Expr}
    (hfirst : Readable first) (hlast : Readable last) (hstep : ∀ e, step = some e → Readable e)
    (h : BlockReadable body) : StatementReadable (.forNumeric counter first last step body) := by
  refine statementReadable (by simp) rfl fun {b} hb rest _ => ?_
  simp only [StmtKind.tokens, List.length_cons, List.length_append, List.length_nil,
    List.cons_append, List.append_assoc, List.nil_append] at hb ⊢
  rw [statement]
  refine Reads.here fun start => Reads.peek ?_
  -- the sign behind the counter tells the two sorts of loops apart
  simp only [next_cons, forLoop, bind_assoc]
  refine Reads.advance fun _ _ => Reads.name fun id span => Reads.accept ?_
  simp only [if_true, bind_assoc]
  refine (hfirst.takes (by omega)).bind ?_ fun first' hfirst' => Reads.expect ?_
  · exact stops_of_none rfl rfl
  refine (hlast.takes (by omega)).bind ?_ fun last' hlast' => ?_
  · cases step <;> exact stops_of_none rfl rfl
  -- a step is written behind a second comma
  cases step with
  | none =>
    simp only [stepTokens, List.nil_append]
    refine Reads.refuse (by simp) (Reads.bind (Reads.bind (Reads.pure ?_)))
    refine reads_loopBody h (by omega) fun body' hbody => Reads.pure ?_
    refine Reads.stmt fun id' span' => ⟨rfl, ?_⟩
    simp [StmtKind.bare, Identifier.bare, stepBare, hfirst', hlast', hbody]
  | some step =>
    simp only [stepTokens, List.length_cons, List.cons_append] at hb ⊢
    refine Reads.accept (Reads.bind ?_)
    simp only [if_true, map_eq_pure_bind, bind_assoc, pure_bind]
    refine ((hstep step rfl).takes (by omega)).bind ?_ fun step' hstep' => ?_
    · exact stops_of_none rfl rfl
    refine reads_loopBody h (by omega) fun body' hbody => Reads.pure ?_
    refine Reads.stmt fun id' span' => ⟨rfl, ?_⟩
    simp [StmtKind.bare, Identifier.bare, stepBare, hfirst', hlast', hstep', hbody]

/-- **A loop over what iterators give.** -/
theorem readable_forGeneric {vars : List Identifier} (hvars : vars ≠ []) (hes : es ≠ [])
    (hiterators : ∀ e ∈ es, Readable e) (h : BlockReadable body) :
    StatementReadable (.forGeneric vars es body) := by
  refine statementReadable (by simp) rfl fun {b} hb rest _ => ?_
  cases vars with
  | nil => exact absurd rfl hvars
  | cons v vars =>
    have htokens : nameTokens (v :: vars) =
        .name v.name :: vars.flatMap fun v => [.symbol .comma, .name v.name] := by
      rw [nameTokens, List.map_cons, commaSeparated_cons, List.flatMap_map]
      rfl
    have hcount := length_le_flatMap_cons (.symbol .comma) (fun v => [Kind.name v.name]) vars
    simp only [StmtKind.tokens, htokens, List.length_cons, List.length_append, List.length_nil,
      List.cons_append, List.append_assoc, List.nil_append] at hb ⊢
    rw [statement]
    refine Reads.here fun start => Reads.peek ?_
    simp only [next_cons, forLoop, bind_assoc]
    -- no sign of assignment behind the first name, so it is no loop over numbers
    have hassign : next ((vars.flatMap fun v => [Kind.symbol .comma, .name v.name]) ++ .keyword .in ::
        (commaSeparated (exprTokens es) ++ .keyword .do ::
          (stmtTokens body ++ .keyword .end :: rest))) ≠ .symbol .assign := by
      cases vars <;> simp
    refine Reads.advance fun _ _ => Reads.name fun id span => Reads.refuse hassign ?_
    simp only [Bool.false_eq_true, if_false, bind_assoc]
    refine (takes_moreNames (by omega)).bind (by simp) fun vars' hvars' => Reads.expect ?_
    refine (takes_expressions hes hiterators (by omega)).bind ?_ fun es' hes' => ?_
    · exact stopsRow_of_none rfl rfl (by simp)
    refine reads_loopBody h (by omega) fun body' hbody => Reads.bind (Reads.pure ?_)
    refine Reads.stmt fun id' span' => ⟨rfl, ?_⟩
    simp [StmtKind.bare, hes', hbody, hvars']
    rfl

/-! ## Function statements -/

/-- **A chain of names before what a function statement defines in it**: reading it is reading the
members behind it. -/
structure Leads (kinds : List Kind) (e : Expr) : Prop where
  ne_nil : kinds ≠ []
  reads : ∀ {b : Nat} {rest : List Kind} {Q : FunctionTarget → List Kind → Prop},
    kinds.length ≤ b →
    (∀ target b', target.toExpr.bare = e.bare → b ≤ b' + kinds.length →
      Reads (targetMembers b' target) rest Q) →
    Reads (functionTarget b) (kinds ++ rest) Q

/-- A chain may begin with a name. -/
theorem leads_name (word : String) : Leads [.name word] ⟨id, span, .name word⟩ where
  ne_nil := by simp
  reads {b rest Q} _ hQ := by
    rw [functionTarget]
    refine Reads.name fun id span => Reads.note (hQ _ b ?_ (by simp))
    simp [FunctionTarget.toExpr, Identifier.toExpr, Expr.bare, ExprKind.bare]

/-- A dot or a colon is read by its sign. -/
theorem Reads.indexer {β : Type} (indexer : Indexer) {f : Option Indexer → Parser β}
    {Q : β → List Kind → Prop} (h : Reads (f (some indexer)) (indexer.sign :: rest) Q) :
    Reads (indexer? >>= f) (indexer.sign :: rest) Q := by
  simp only [indexer?, bind_assoc]
  refine Reads.peek (Reads.bind ?_)
  cases indexer <;> exact Reads.pure h

/-- A chain goes on with a member. -/
theorem leads_member {base : Expr} (h : Leads kinds base) (identifier : Identifier) :
    Leads (kinds ++ [.symbol .dot, .name identifier.name])
      ⟨id, span, .member base .dot identifier⟩ where
  ne_nil := by simp
  reads {b rest Q} hb hQ := by
    simp only [List.length_append, List.length_cons, List.length_nil] at hb hQ
    rw [List.append_assoc]
    refine h.reads (by omega) fun target b' htarget hb' => ?_
    obtain ⟨b', rfl⟩ : ∃ m, b' = m + 1 := ⟨b' - 1, by omega⟩
    rw [targetMembers]
    refine Reads.indexer .dot (Reads.advance fun _ _ => ?_)
    refine Reads.name fun id span => Reads.freshId fun id' => hQ _ b' ?_ (by omega)
    rw [FunctionTarget.toExpr]
    simp only [Expr.bare, ExprKind.bare, Identifier.bare, htarget]

/-- A chain of members is read as a suffixed expression. -/
theorem isSuffixed_of_isChain {e : Expr} (h : e.isChain = true) : e.kind.isSuffixed = true := by
  obtain ⟨id, span, kind⟩ := e
  cases kind with
  | name word => rfl
  | member base indexer identifier => rfl
  | _ => cases h

mutual

/-- **Chains of names lead.** -/
theorem leads_chain : ∀ e : Expr, e.isChain = true → Leads e.tokens e
  | ⟨_, _, kind⟩, h => leads_chainKind kind h

/-- Every chain of members is led to by its tokens. -/
theorem leads_chainKind : ∀ (kind : ExprKind) {id : NodeId} {span : Span},
    Expr.isChainKind kind = true → Leads kind.tokens ⟨id, span, kind⟩
  | .name word, _, _, _ => leads_name word
  | .member base .dot identifier, _, _, h => by
    rw [ExprKind.tokens, isSuffixed_of_isChain h]
    exact leads_member (leads_chain base h) identifier

end

/-- **What a function statement assigns to**, up to the parameters. -/
theorem takes_functionTarget {target : FunctionTarget} (h : target.Shaped)
    (hb : target.tokens.length < b) :
    Takes (functionTarget b) target.tokens (fun k => k = .symbol .leftParen)
      fun target' => target'.bare = target.bare := by
  intro rest hrest
  -- in front of the parameters a target ends
  have hstop : ∀ {bound : Nat} {target' : FunctionTarget}, 0 < bound →
      target'.bare = target.bare → Reads (targetMembers bound target') rest
        fun target' rest' => rest' = rest ∧ target'.bare = target.bare := by
    intro bound target' hbound htarget
    obtain ⟨bound, rfl⟩ : ∃ m, bound = m + 1 := ⟨bound - 1, by omega⟩
    simp only [targetMembers, indexer?, bind_assoc]
    refine Reads.peek ?_
    rw [hrest]
    exact Reads.bind (Reads.pure (Reads.pure ⟨rfl, htarget⟩))
  cases target with
  | name identifier =>
    rw [functionTarget]
    refine Reads.name fun id span => Reads.note (hstop (by omega) ?_)
    simp [FunctionTarget.bare, Identifier.bare]
  | member id span base indexer identifier =>
    obtain ⟨hchain, -⟩ := h
    simp only [FunctionTarget.tokens, List.length_append, List.length_cons, List.length_nil,
      List.append_assoc, List.cons_append, List.nil_append] at hb ⊢
    -- the members of a target are read one by one, so its base is a target as well
    refine (leads_chain base hchain).reads (by omega) fun target b' htarget hb' => ?_
    obtain ⟨b', rfl⟩ : ∃ m, b' = m + 1 := ⟨b' - 1, by omega⟩
    rw [targetMembers]
    refine Reads.indexer indexer (Reads.advance fun _ _ => ?_)
    refine Reads.name fun id' span' => Reads.freshId fun id'' => ?_
    -- what was read so far is the base, but for places and identities
    have hmember : (FunctionTarget.member id'' (target.toExpr.span.through span') target.toExpr
        indexer ⟨id', identifier.name, span'⟩).bare =
        (FunctionTarget.member id span base indexer identifier).bare := by
      simp only [FunctionTarget.bare, Identifier.bare, htarget]
    cases indexer with
    | dot => exact hstop (by omega) hmember
    | colon => exact Reads.pure ⟨rfl, hmember⟩

theorem FunctionBody.tokens_first (f : FunctionBody) (more : List Kind) :
    next (f.tokens ++ more) = .symbol .leftParen := by
  cases f
  rfl

/-- **A function statement.** -/
theorem readable_function {target : FunctionTarget} {f : FunctionBody} (ht : target.Shaped)
    (h : FunctionReadable f) : StatementReadable (.function target f) := by
  refine statementReadable (by simp) rfl fun {b} hb rest _ => ?_
  simp only [StmtKind.tokens, List.length_cons, List.length_append, List.cons_append,
    List.append_assoc] at hb ⊢
  rw [statement]
  refine Reads.here fun start => Reads.peek (Reads.advance fun _ _ => ?_)
  simp only [functionStatement, bind_assoc]
  refine (takes_functionTarget ht (by omega)).bind (FunctionBody.tokens_first f rest) ?_
  intro target' htarget
  refine (h.takes (by omega)).bind trivial fun f' hf' => Reads.bind (Reads.pure ?_)
  refine Reads.stmt fun id span => ⟨rfl, ?_⟩
  simp [StmtKind.bare, htarget, hf']

/-! ## Assignments and calls -/

/-- Numbers and spans do not tell whether an expression can be assigned to. -/
theorem isAssignable_bare (e : Expr) : e.bare.isAssignable = e.isAssignable := by
  obtain ⟨id, span, kind⟩ := e
  cases kind <;> rfl

/-- Nor whether it is a call. -/
theorem isCall_bare (e : Expr) : e.bare.isCall = e.isCall := by
  obtain ⟨id, span, kind⟩ := e
  cases kind <;> rfl

theorem isSuffixed_of_isAssignable (h : e.isAssignable = true) : e.kind.isSuffixed = true := by
  obtain ⟨id, span, kind⟩ := e
  cases kind <;> first | rfl | cases h

theorem isSuffixed_of_isCall (h : e.isCall = true) : e.kind.isSuffixed = true := by
  obtain ⟨id, span, kind⟩ := e
  cases kind <;> first | rfl | cases h

/-- A chain begins as a statement may. -/
theorem Chains.opensStatement (h : Chains kinds e) : opensStatement (next kinds) = true := by
  rcases h.first with ⟨word, hfirst⟩ | hfirst <;> rw [hfirst] <;> rfl

/-- A statement that starts with an expression. -/
theorem reads_expressionStatement (h : Chains kinds e) {Q : Stmt → List Kind → Prop}
    (hQ : ∀ start, Reads (expressionStatement b (suffixed b) (expressions b) >>= stmt start)
      (kinds ++ rest) Q) :
    Reads (statement (b + 1)) (kinds ++ rest) Q := by
  rw [statement]
  refine Reads.here fun start => Reads.peek ?_
  rw [h.starts.next_append]
  rcases h.first with ⟨word, hfirst⟩ | hfirst
  · rw [hfirst]
    exact hQ start
  · rw [hfirst]
    exact hQ start

/-- The targets behind commas are read back. -/
theorem takes_moreTargets {bound : Nat} (h : ∀ e ∈ es, Chains e.tokens e)
    (hb : 4 * (es.flatMap fun e => .symbol .comma :: e.tokens).length ≤ b)
    (hbound : es.length < bound) :
    Takes (moreTargets (suffixed b) bound) (es.flatMap fun e => .symbol .comma :: e.tokens)
      (fun k => k = .symbol .assign) fun es' => exprsBare es' = exprsBare es := by
  induction es generalizing bound with
  | nil =>
    obtain ⟨bound, rfl⟩ : ∃ m, bound = m + 1 := ⟨bound - 1, by omega⟩
    intro rest hrest
    rw [moreTargets]
    exact Reads.refuse (by simp [hrest]) (Reads.pure ⟨rfl, rfl⟩)
  | cons e es ih =>
    rw [List.length_cons] at hbound
    obtain ⟨bound, rfl⟩ : ∃ m, bound = m + 1 := ⟨bound - 1, by omega⟩
    intro rest hrest
    simp only [List.flatMap_cons, List.length_append, List.length_cons, List.cons_append,
      List.append_assoc] at hb ⊢
    rw [moreTargets]
    refine Reads.accept ?_
    refine ((h e (List.mem_cons_self ..)).takes (by omega)).bind ?_ fun e' he' => ?_
    · cases es with
      | nil => rw [List.flatMap_nil, List.nil_append, hrest]; rfl
      | cons second es => rfl
    refine (ih (fun e he => h e (List.mem_cons_of_mem _ he)) (by omega) (by omega)).bind hrest ?_
    intro es' hes'
    refine Reads.pure ⟨rfl, ?_⟩
    simp [exprsBare, he', hes']

/-- Targets that differ in identities and places only can be assigned to alike. -/
theorem checkTargets_eq {targets targets' : List Expr} (h : exprsBare targets' = exprsBare targets)
    (ha : ∀ e ∈ targets, e.isAssignable = true) : checkTargets targets' = pure () := by
  have hfind : targets'.find? (!·.isAssignable) = none := by
    rw [List.find?_eq_none]
    intro e' he'
    have hmem : e'.bare ∈ exprsBare targets := by
      rw [← h, exprsBare_eq]
      exact List.mem_map_of_mem he'
    rw [exprsBare_eq] at hmem
    obtain ⟨e, he, hbare⟩ := List.mem_map.1 hmem
    rw [← isAssignable_bare, ← hbare, isAssignable_bare, ha e he]
    decide
  rw [checkTargets, hfind]

/-- **An assignment.** -/
theorem readable_assignment {targets : List Expr} (htargets : targets ≠ [])
    (ha : ∀ e ∈ targets, e.isAssignable = true) (ht : ∀ e ∈ targets, Readable e) (hes : es ≠ [])
    (h : ∀ e ∈ es, Readable e) : StatementReadable (.assignment targets es) := by
  have hchains : ∀ e ∈ targets, Chains e.tokens e :=
    fun e he => (ht e he).chains (isSuffixed_of_isAssignable (ha e he))
  cases targets with
  | nil => exact absurd rfl htargets
  | cons target targets =>
    have htarget := hchains target (List.mem_cons_self ..)
    have htokens : commaSeparated (exprTokens (target :: targets)) =
        target.tokens ++ targets.flatMap fun e => .symbol .comma :: e.tokens := by
      rw [exprTokens, commaSeparated_cons, exprTokens_eq, List.flatMap_map]
    have hcount := length_le_flatMap_cons (.symbol .comma) Expr.tokens targets
    refine statementReadable (by simp) ?_ fun {b} hb rest hrest => ?_
    · rw [StmtKind.tokens, htokens, List.append_assoc, htarget.starts.next_append]
      exact htarget.opensStatement
    simp only [StmtKind.tokens, htokens, List.length_append, List.length_cons, List.append_assoc,
      List.cons_append] at hb ⊢
    refine reads_expressionStatement htarget fun start => ?_
    simp only [expressionStatement, bind_assoc]
    refine (htarget.takes (by omega)).bind ?_ fun target' htarget' => ?_
    · cases targets <;> rfl
    refine Reads.isNext (Reads.isNext ?_)
    -- a sign of assignment or a comma tells an assignment from a call
    have hgoes : (next ((targets.flatMap fun e => .symbol .comma :: e.tokens) ++ .symbol .assign ::
        (commaSeparated (exprTokens es) ++ rest)) == .symbol .assign ||
        next ((targets.flatMap fun e => .symbol .comma :: e.tokens) ++ .symbol .assign ::
        (commaSeparated (exprTokens es) ++ rest)) == .symbol .comma) = true := by
      cases targets <;> rfl
    rw [hgoes, if_pos rfl]
    simp only [bind_assoc]
    refine (takes_moreTargets (fun e he => hchains e (List.mem_cons_of_mem _ he)) (by omega)
      (by omega)).bind rfl fun targets' htargets' => ?_
    have hbare : exprsBare (target' :: targets') = exprsBare (target :: targets) := by
      rw [exprsBare, exprsBare, htarget', htargets']
    -- whether a target can be assigned to is told without places and identities
    rw [checkTargets_eq hbare ha, pure_bind]
    refine Reads.expect ?_
    have hstops : StopsRow (next rest) := by
      rw [hrest]
      exact stopsRow_of_none rfl rfl (by simp)
    refine (takes_expressions hes h (by omega)).bind hstops fun es' hes' => ?_
    refine Reads.bind (Reads.pure (Reads.stmt fun id span => ⟨rfl, ?_⟩))
    simp only [StmtKind.bare]
    rw [hbare, hes']

/-- **A call that stands alone.** -/
theorem readable_call (hcall : e.isCall = true) (h : Readable e) : StatementReadable (.call e) := by
  have hchains := h.chains (isSuffixed_of_isCall hcall)
  refine statementReadable (by simp) hchains.opensStatement fun {b} hb rest hrest => ?_
  rw [StmtKind.tokens] at hb ⊢
  refine reads_expressionStatement hchains fun start => ?_
  simp only [expressionStatement, bind_assoc]
  refine (hchains.takes hb).bind (by rw [hrest]; rfl) fun e' he' => ?_
  refine Reads.isNext (Reads.isNext ?_)
  have hcall' : e'.isCall = true := by rw [← isCall_bare, he', isCall_bare, hcall]
  rw [hrest, hcall']
  refine Reads.bind (Reads.pure (Reads.stmt fun id span => ⟨rfl, ?_⟩))
  simp [StmtKind.bare, he']

/-! ## Blocks -/

theorem blockBare_cons (s : Stmt) (body : List Stmt) :
    blockBare (s :: body) = ⟨0, default, s.kind.bare⟩ :: blockBare body := by
  cases s
  rfl

/-- Each statement ends with a semicolon. -/
theorem stmtTokens_cons (s : Stmt) (body : List Stmt) :
    stmtTokens (s :: body) = s.kind.tokens ++ .symbol .semicolon :: stmtTokens body := by
  cases s
  rfl

/-- What begins an expression ends no block. -/
theorem opensExpr_not_ends {k : Kind} (h : opensExpr k = true) :
    endsBlock k = false ∧ k ≠ .symbol .semicolon := by
  unfold opensExpr at h
  split at h
  all_goals first | exact ⟨rfl, by simp⟩ | cases h

/-- What begins a statement ends no block. -/
theorem opensStatement_not_ends {k : Kind} (h : opensStatement k = true) :
    endsBlock k = false ∧ k ≠ .keyword .return ∧ k ≠ .symbol .semicolon := by
  unfold opensStatement at h
  split at h
  all_goals first | exact ⟨rfl, by simp, by simp⟩ | cases h

/-- **A `return` at the end of its block.** -/
theorem takes_returnStatement (h : ∀ e ∈ es, Readable e)
    (hb : 4 * (commaSeparated (exprTokens es)).length + 1 ≤ b) :
    Takes (returnStatement (expressions b))
      (.keyword .return :: (commaSeparated (exprTokens es) ++ [.symbol .semicolon]))
      (fun k => endsBlock k = true) fun s' => s'.kind.bare = (StmtKind.return es).bare := by
  intro rest hrest
  simp only [List.cons_append, List.append_assoc, List.nil_append]
  rw [returnStatement]
  refine Reads.here fun start => Reads.advance fun _ _ => Reads.isBlockEnd (Reads.isNext ?_)
  -- the printer ends a return with a semicolon, and the block ends behind it
  have hclose : ∀ arguments, exprsBare arguments = exprsBare es →
      Reads (acceptSign .semicolon >>= fun _ => stmt start (.return arguments) >>= fun statement =>
        isBlockEnd >>= fun ends =>
          if ends = true then pure statement else unexpected (.expected (.keyword .end)))
        (.symbol .semicolon :: rest)
        fun s' rest' => rest' = rest ∧ s'.kind.bare = (StmtKind.return es).bare := by
    intro arguments harguments
    refine Reads.accept (Reads.bind (Reads.stmt fun id span => Reads.isBlockEnd ?_))
    rw [hrest]
    refine Reads.pure ⟨rfl, ?_⟩
    simp [StmtKind.bare, harguments]
  -- what comes first tells whether there are values
  by_cases hnil : es = []
  · subst hnil
    exact Reads.bind (Reads.pure (hclose [] rfl))
  · have hstarts := starts_expressions hnil h
    obtain ⟨hends, hsemicolon⟩ := opensExpr_not_ends hstarts.opens
    rw [hstarts.next_append, hends, beq_eq_false_iff_ne.2 hsemicolon]
    refine (takes_expressions hnil h hb).bind ?_ fun es' hes' => hclose es' hes'
    exact stopsRow_of_none rfl rfl (by simp)

/-- A semicolon before the rest of a block. -/
theorem takes_semicolon {follow : Kind → Prop} {R : List Stmt → Prop}
    (h : Takes (block b) kinds follow R) :
    Takes (block (b + 1)) (.symbol .semicolon :: kinds) follow R := by
  intro rest hrest
  rw [block]
  exact Reads.isBlockEnd (Reads.isNext (Reads.accept (h rest hrest)))

/-- **A block**, if its statements are read as themselves. -/
theorem blockReadable (hshaped : BlockShaped body) (h : ∀ s ∈ body, StatementReadable s.kind) :
    BlockReadable body := by
  refine ⟨fun {b} hb => ?_⟩
  induction body generalizing b with
  | nil =>
    obtain ⟨b, rfl⟩ : ∃ m, b = m + 1 := ⟨b - 1, by omega⟩
    intro rest hrest
    rw [block]
    refine Reads.isBlockEnd ?_
    rw [stmtTokens, List.nil_append, hrest]
    exact Reads.pure ⟨rfl, rfl⟩
  | cons s body ih =>
    obtain ⟨id, span, kind⟩ := s
    obtain ⟨-, hlast, hbody⟩ := hshaped
    have hkind : StatementReadable kind := h _ (List.mem_cons_self ..)
    have hrest := fun s hs => h s (List.mem_cons_of_mem _ hs)
    obtain ⟨b, rfl⟩ : ∃ m, b = m + 1 := ⟨b - 1, by omega⟩
    intro rest hends
    simp only [stmtTokens_cons, List.length_append, List.length_cons, List.append_assoc,
      List.cons_append] at hb ⊢
    rw [block]
    refine Reads.isBlockEnd ?_
    by_cases hreturn : kind.isReturn = true
    · -- nothing but the end of the block comes behind a `return`
      obtain rfl := hlast hreturn
      cases kind with
      | «return» arguments =>
        simp only [StmtKind.tokens, List.length_cons, List.cons_append, stmtTokens,
          List.nil_append] at hb ⊢
        refine Reads.isNext ?_
        rw [next_cons, beq_self_eq_true, if_pos rfl]
        have hreads := takes_returnStatement (hkind.returns arguments rfl) (b := b) (by omega) rest hends
        simp only [List.cons_append, List.append_assoc, List.nil_append] at hreads
        refine Reads.bind (hreads.imp ?_)
        rintro s' _ ⟨rfl, hs'⟩
        refine Reads.pure ⟨rfl, ?_⟩
        rw [blockBare_cons, blockBare_cons, hs']
      | _ => cases hreturn
    · -- a semicolon is printed behind it, so that the next statement is not read as part of it
      have hopens := hkind.opens (Bool.eq_false_iff.2 hreturn)
      obtain ⟨hend, hword, hsemicolon⟩ := opensStatement_not_ends hopens
      have hnext : ∀ more, next (kind.tokens ++ more) = next kind.tokens := by
        intro more
        cases htokens : kind.tokens with
        | nil =>
          rw [htokens] at hopens
          cases hopens
        | cons k kinds => rfl
      rw [hnext, hend]
      refine Reads.isNext ?_
      rw [hnext, beq_eq_false_iff_ne.2 hword]
      refine Reads.refuse (by rw [hnext]; exact hsemicolon) ?_
      refine (hkind.takes (Bool.eq_false_iff.2 hreturn) (by omega)).bind rfl fun s' hs' => ?_
      obtain ⟨b, rfl⟩ : ∃ m, b = m + 1 := ⟨b - 1, by omega⟩
      refine (takes_semicolon (ih hbody hrest (by omega))).bind hends fun body' hbody' => ?_
      refine Reads.pure ⟨rfl, ?_⟩
      rw [blockBare_cons, blockBare_cons, hs', hbody']

end LuaCompiler.Parser
