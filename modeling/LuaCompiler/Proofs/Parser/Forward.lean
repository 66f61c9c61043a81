import LuaCompiler.Parser
import LuaCompiler.Proofs.Parser.Run

/-!
# Parsers move forward

A parser takes tokens from the front of those that a scan left to it: it makes none up and puts none
back, whether it succeeds or fails. Looking one token ahead takes nothing.

* `Forward`: the tokens that are left are the last ones of those that were there before.
* `forward`: **every production moves forward**, by induction on the bound.
* `ends_chunk`: so a program is read only up to the end of its text (`eof_mem_of_parse`).
-/

namespace LuaCompiler

namespace Parser

variable {α β : Type}

/-- The tokens that a parser has before it. -/
def State.ahead (s : State) : List Token := s.current :: s.rest

/-- **A state behind another**: some tokens were taken from the front, and nothing else changed about
what was scanned. -/
structure Forward (s s' : State) : Prop where
  ahead : s'.ahead <:+ s.ahead
  ending : s'.ending = s.ending

theorem Forward.refl (s : State) : Forward s s := ⟨List.suffix_refl _, rfl⟩

theorem Forward.trans {s s' s'' : State} (h : Forward s s') (h' : Forward s' s'') : Forward s s'' :=
  ⟨h'.ahead.trans h.ahead, h'.ending.trans h.ending⟩

/-- A parser moves forward, also if it fails. -/
def Moves (p : Parser α) : Prop :=
  ∀ s, Post p s (fun _ => Forward s) (Forward s)

/-! ## Steps -/

/-- Parsers in a row move forward if each does. -/
theorem Moves.bind {p : Parser α} {g : α → Parser β} (hp : Moves p) (hg : ∀ a, Moves (g a)) :
    Moves (p >>= g) := by
  intro s
  rw [post_bind]
  exact (hp s).imp fun a s' h => (hg a s').mono (fun _ _ h' => h.trans h') fun _ h' => h.trans h'

theorem Moves.ite {c : Prop} [Decidable c] {p q : Parser α} (hp : Moves p) (hq : Moves q) :
    Moves (if c then p else q) := by
  split
  · exact hp
  · exact hq

/-- A scope is left without moving. -/
theorem Moves.leaving {p : Parser α} (hp : Moves p) : Moves (leaving p) := by
  intro s
  rw [post_leaving]
  exact (hp s).mono (fun _ _ h => ⟨h.ahead, h.ending⟩) fun _ h => ⟨h.ahead, h.ending⟩

theorem moves_pure (a : α) : Moves (pure a) := fun s => Forward.refl s

theorem moves_get : Moves get := fun s => Forward.refl s

theorem moves_peek : Moves peek := fun s => Forward.refl s

theorem moves_here : Moves here := fun s => Forward.refl s

theorem moves_isNext (kind : Token.Kind) : Moves (isNext kind) := fun s => Forward.refl s

theorem moves_spanFrom (start : Position) : Moves (spanFrom start) := fun s => Forward.refl s

theorem moves_freshId : Moves freshId := fun s => ⟨List.suffix_refl s.ahead, rfl⟩

theorem moves_note (event : Scope.Event) : Moves (note event) :=
  fun s => ⟨List.suffix_refl s.ahead, rfl⟩

theorem moves_failAt (fault : SyntaxFault) (place : Position) : Moves (failAt (α := α) fault place) :=
  fun s => Forward.refl s

theorem moves_unexpected (fault : Token.Kind → SyntaxFault) : Moves (unexpected (α := α) fault) :=
  fun s => Forward.refl s

theorem moves_exhausted : Moves (exhausted (α := α)) := fun s => Forward.refl s

/-- A token is taken from the front; the end of the text stays. -/
theorem moves_advance : Moves advance := by
  intro s
  unfold advance
  rw [post_bind, post_get]
  split
  next next rest hrest =>
    have hahead : s.ahead = s.current :: next :: rest := by rw [State.ahead, hrest]
    exact ⟨hahead ▸ List.suffix_cons _ _, rfl⟩
  · exact Forward.refl s
  · exact ⟨List.suffix_refl s.ahead, rfl⟩

/-- A token that is not accepted stays. -/
theorem moves_accept (kind : Token.Kind) : Moves (accept kind) :=
  (moves_isNext kind).bind fun _ =>
    .ite (moves_advance.bind fun _ => moves_pure true) (moves_pure false)

theorem moves_expect (kind : Token.Kind) : Moves (expect kind) :=
  (moves_isNext kind).bind fun _ =>
    .ite (moves_advance.bind fun _ => moves_pure ()) (moves_unexpected _)

theorem moves_acceptWord (word : Keyword) : Moves (acceptWord word) := moves_accept _

theorem moves_acceptSign (sign : Symbol) : Moves (acceptSign sign) := moves_accept _

theorem moves_expectWord (word : Keyword) : Moves (expectWord word) := moves_expect _

theorem moves_expectSign (sign : Symbol) : Moves (expectSign sign) := moves_expect _

/-- What is built behind the last token read. -/
theorem moves_build {start : Position} (build : NodeId → Span → α) :
    Moves (do return build (← freshId) (← spanFrom start)) :=
  moves_freshId.bind fun _ => (moves_spanFrom start).bind fun _ => moves_pure _

theorem moves_expr (start : Position) (kind : ExprKind) : Moves (expr start kind) :=
  moves_build fun id span => Expr.mk id span kind

theorem moves_stmt (start : Position) (kind : StmtKind) : Moves (stmt start kind) :=
  moves_build fun id span => Stmt.mk id span kind

/-! ## Names -/

/-- A name takes a token. -/
theorem moves_name : Moves name := by
  refine moves_peek.bind fun kind => ?_
  split
  · exact moves_advance.bind fun _ => moves_freshId.bind fun _ => moves_pure _
  · exact moves_unexpected _

theorem moves_attributeMark : Moves attributeMark :=
  (moves_acceptSign _).bind fun _ =>
    .ite (moves_name.bind fun _ => moves_expectSign _) (moves_pure ())

/-- The names behind `local`. -/
theorem moves_localNames (bound : Nat) : Moves (localNames bound) := by
  induction bound with
  | zero => exact moves_exhausted
  | succ bound ih =>
    exact moves_name.bind fun _ => moves_attributeMark.bind fun _ => (moves_acceptSign _).bind
      fun _ => .ite (ih.bind fun _ => moves_pure _) (moves_pure _)

theorem moves_moreNames (bound : Nat) : Moves (moreNames bound) := by
  induction bound with
  | zero => exact moves_exhausted
  | succ bound ih =>
    exact (moves_acceptSign _).bind fun _ =>
      .ite (moves_name.bind fun _ => ih.bind fun _ => moves_pure _) (moves_pure _)

/-- The parameters of a function. -/
theorem moves_parameters (bound : Nat) : Moves (parameters bound) := by
  have hnames : Moves (parameterNames bound) := by
    induction bound with
    | zero => exact moves_exhausted
    | succ bound ih =>
      exact (moves_acceptSign _).bind fun _ => .ite (moves_pure _) (moves_name.bind fun _ =>
        (moves_acceptSign _).bind fun _ => .ite (ih.bind fun _ => moves_pure _) (moves_pure _))
  exact (moves_isNext _).bind fun _ => .ite (moves_pure _) hnames

/-- The members that a function's target goes on with. -/
theorem moves_targetMembers (bound : Nat) (target : FunctionTarget) :
    Moves (targetMembers bound target) := by
  induction bound generalizing target with
  | zero => exact moves_exhausted
  | succ bound ih =>
    have hindexer : Moves indexer? := moves_peek.bind fun kind => by split <;> exact moves_pure _
    refine hindexer.bind fun sign => ?_
    cases sign with
    | none => exact moves_pure target
    | some sign =>
      refine moves_advance.bind fun _ => moves_name.bind fun _ => moves_freshId.bind fun _ => ?_
      cases sign with
      | colon => exact moves_pure _
      | dot => exact ih _

theorem moves_functionTarget (bound : Nat) : Moves (functionTarget bound) :=
  moves_name.bind fun _ => (moves_note _).bind fun _ => moves_targetMembers bound _

/-! ## Productions without recursion of their own -/

section Productions

variable {block : Parser (List Stmt)} {expression suffixed table : Parser Expr}
  {expressions : Parser (List Expr)} {function : Position → Bool → Parser FunctionBody}

theorem moves_innerBlock (hblock : Moves block) : Moves (innerBlock block) :=
  (moves_note _).bind fun _ => hblock.leaving

theorem moves_loopBody (vars : List Identifier) (hblock : Moves block) :
    Moves (loopBody vars block) :=
  (moves_expectWord _).bind fun _ => (moves_note _).bind fun _ => (moves_note _).bind fun _ =>
    hblock.leaving.bind fun _ => (moves_expectWord _).bind fun _ => moves_pure _

/-- Parameters and body of a function. -/
theorem moves_functionWith (bound : Nat) (hblock : Moves block) (start : Position)
    (isMethod : Bool) : Moves (functionWith bound block start isMethod) :=
  (moves_note _).bind fun _ => (moves_expectSign _).bind fun _ => (moves_parameters bound).bind
    fun _ => (moves_expectSign _).bind fun _ => (moves_note _).bind fun _ => hblock.leaving.bind
    fun _ => (moves_expectWord _).bind fun _ => moves_build _

theorem moves_isBlockEnd : Moves isBlockEnd :=
  moves_peek.bind fun kind => by split <;> exact moves_pure _

/-- A `return` with its expressions. -/
theorem moves_returnStatement (hexpressions : Moves expressions) :
    Moves (returnStatement expressions) := by
  refine moves_here.bind fun start => moves_advance.bind fun _ => moves_isBlockEnd.bind fun _ =>
    (moves_isNext _).bind fun _ => ?_
  have hfinish (arguments : List Expr) : Moves (do
      let _ ← acceptSign .semicolon
      let statement ← stmt start (.return arguments)
      if ← isBlockEnd then return statement
      else unexpected (.expected (.keyword .end))) :=
    (moves_acceptSign _).bind fun _ => (moves_stmt _ _).bind fun _ => moves_isBlockEnd.bind
      fun _ => .ite (moves_pure _) (moves_unexpected _)
  exact .ite (hfinish []) (hexpressions.bind hfinish)

/-- A `local` statement with its names and values. -/
theorem moves_localStatement (bound : Nat) (hexpressions : Moves expressions) (start : Position) :
    Moves (localStatement bound expressions start) := by
  refine (moves_localNames bound).bind fun vars => (moves_acceptSign _).bind fun _ => ?_
  have hfinish (init : List Expr) : Moves (do
      let id ← freshId
      note (.declare id vars init)
      return (⟨id, ← spanFrom start, .local vars init⟩ : Stmt)) :=
    moves_freshId.bind fun _ => (moves_note _).bind fun _ => (moves_spanFrom _).bind fun _ =>
      moves_pure _
  exact .ite (hexpressions.bind hfinish) (hfinish [])

theorem moves_localFunction (hfunction : ∀ start isMethod, Moves (function start isMethod))
    (start : Position) : Moves (localFunction function start) :=
  moves_name.bind fun _ => (moves_note _).bind fun _ => (hfunction start false).bind fun _ =>
    moves_pure _

theorem moves_functionStatement (bound : Nat)
    (hfunction : ∀ start isMethod, Moves (function start isMethod)) (start : Position) :
    Moves (functionStatement bound function start) :=
  (moves_functionTarget bound).bind fun _ => (hfunction start _).bind fun _ => moves_pure _

theorem moves_clause (hexpression : Moves expression) (hblock : Moves block) (start : Position) :
    Moves (clause expression block start) :=
  hexpression.bind fun _ => (moves_expectWord _).bind fun _ => (moves_innerBlock hblock).bind
    fun _ => moves_build _

/-- The clauses of a conditional behind the first. -/
theorem moves_clauses (hexpression : Moves expression) (hblock : Moves block) (bound : Nat) :
    Moves (clauses expression block bound) := by
  induction bound with
  | zero => exact moves_exhausted
  | succ bound ih =>
    refine moves_here.bind fun start => (moves_acceptWord _).bind fun _ => .ite ?_
      ((moves_acceptWord _).bind fun _ => .ite ?_ (moves_pure _))
    · exact (moves_clause hexpression hblock start).bind fun _ => ih.bind fun _ => moves_pure _
    · exact (moves_innerBlock hblock).bind fun _ => moves_build _

theorem moves_conditional (bound : Nat) (hexpression : Moves expression) (hblock : Moves block) :
    Moves (conditional bound expression block) :=
  moves_here.bind fun start => moves_advance.bind fun _ =>
    (moves_clause hexpression hblock start).bind fun _ =>
    (moves_clauses hexpression hblock bound).bind fun _ => (moves_expectWord _).bind fun _ =>
    moves_pure _

theorem moves_whileLoop (hexpression : Moves expression) (hblock : Moves block) :
    Moves (whileLoop expression block) :=
  moves_advance.bind fun _ => hexpression.bind fun _ => (moves_expectWord _).bind fun _ =>
    (moves_innerBlock hblock).bind fun _ => (moves_expectWord _).bind fun _ => moves_pure _

theorem moves_repeatLoop (hexpression : Moves expression) (hblock : Moves block) :
    Moves (repeatLoop expression block) :=
  moves_advance.bind fun _ => (moves_note _).bind fun _ => hblock.bind fun _ =>
    (moves_expectWord _).bind fun _ => hexpression.bind fun _ => (moves_note _).bind fun _ =>
    moves_pure _

theorem moves_blockStatement (hblock : Moves block) : Moves (blockStatement block) :=
  moves_advance.bind fun _ => (moves_innerBlock hblock).bind fun _ => (moves_expectWord _).bind
    fun _ => moves_pure _

/-- Both kinds of `for` loops. -/
theorem moves_forLoop (bound : Nat) (hexpression : Moves expression)
    (hexpressions : Moves expressions) (hblock : Moves block) :
    Moves (forLoop bound expression expressions block) := by
  refine moves_advance.bind fun _ => moves_name.bind fun first => (moves_acceptSign _).bind
    fun _ => .ite ?_ ?_
  · refine hexpression.bind fun start => (moves_expectSign _).bind fun _ => hexpression.bind
      fun stop => (moves_acceptSign _).bind fun _ => ?_
    have hfinish (step : Option Expr) :
        Moves (do return StmtKind.forNumeric first start stop step (← loopBody [first] block)) :=
      (moves_loopBody _ hblock).bind fun _ => moves_pure _
    refine .ite ?_ (hfinish none)
    rw [map_eq_pure_bind, bind_assoc]
    exact hexpression.bind fun step => hfinish (some step)
  · exact (moves_moreNames bound).bind fun _ => (moves_expectWord _).bind fun _ =>
      hexpressions.bind fun _ => (moves_loopBody _ hblock).bind fun _ => moves_pure _

theorem moves_moreTargets (hsuffixed : Moves suffixed) (bound : Nat) :
    Moves (moreTargets suffixed bound) := by
  induction bound with
  | zero => exact moves_exhausted
  | succ bound ih =>
    exact (moves_acceptSign _).bind fun _ =>
      .ite (hsuffixed.bind fun _ => ih.bind fun _ => moves_pure _) (moves_pure _)

/-- A call as a statement, or an assignment. -/
theorem moves_expressionStatement (bound : Nat) (hsuffixed : Moves suffixed)
    (hexpressions : Moves expressions) :
    Moves (expressionStatement bound suffixed expressions) := by
  have hcheck (targets : List Expr) : Moves (checkTargets targets) := by
    unfold checkTargets
    split
    · exact moves_failAt _ _
    · exact moves_pure ()
  refine hsuffixed.bind fun first => (moves_isNext _).bind fun _ => (moves_isNext _).bind
    fun _ => .ite ?_ (.ite (moves_pure _) (moves_failAt _ _))
  exact (moves_moreTargets hsuffixed bound).bind fun _ => (hcheck _).bind fun _ =>
    (moves_expectSign _).bind fun _ => hexpressions.bind fun _ => moves_pure _

theorem moves_gotoStatement : Moves gotoStatement :=
  moves_advance.bind fun _ => moves_name.bind fun _ => moves_pure _

theorem moves_labelStatement : Moves labelStatement :=
  moves_advance.bind fun _ => moves_name.bind fun _ => (moves_expectSign _).bind fun _ =>
    moves_pure _

/-- Looking ahead takes no token. -/
theorem moves_isNamedField : Moves isNamedField := by
  refine moves_peek.bind fun kind => ?_
  split
  · refine moves_get.bind fun state => ?_
    split
    · exact moves_pure _
    · exact moves_failAt _ _
    · exact moves_pure _
  · exact moves_pure _

/-- A field: the look at a second token takes none. -/
theorem moves_field (hexpression : Moves expression) : Moves (field expression) := by
  have hkind : Moves (fieldKind expression) := by
    refine (moves_acceptSign _).bind fun _ => .ite ?_ (moves_isNamedField.bind fun _ => .ite ?_ ?_)
    · exact hexpression.bind fun _ => (moves_expectSign _).bind fun _ => (moves_expectSign _).bind
        fun _ => hexpression.bind fun _ => moves_pure _
    · exact moves_name.bind fun _ => (moves_expectSign _).bind fun _ => hexpression.bind
        fun _ => moves_pure _
    · exact hexpression.bind fun _ => moves_pure _
  exact moves_here.bind fun _ => hkind.bind fun _ => moves_build _

/-- The fields of a table. -/
theorem moves_fields (hexpression : Moves expression) (bound : Nat) :
    Moves (fields expression bound) := by
  induction bound with
  | zero => exact moves_exhausted
  | succ bound ih =>
    have hmore (first : Field) : Moves (do return first :: (← fields expression bound)) :=
      ih.bind fun _ => moves_pure _
    exact (moves_isNext _).bind fun _ => .ite (moves_pure _) ((moves_field hexpression).bind
      fun first => (moves_acceptSign _).bind fun _ => .ite (hmore first) ((moves_acceptSign _).bind
      fun _ => .ite (hmore first) (moves_pure _)))

theorem moves_table (bound : Nat) (hexpression : Moves expression) :
    Moves (Parser.table bound expression) :=
  moves_here.bind fun _ => (moves_expectSign _).bind fun _ => (moves_fields hexpression bound).bind
    fun _ => (moves_expectSign _).bind fun _ => moves_expr _ _

/-- A call with arguments of one of the three kinds. -/
theorem moves_callOf (hexpressions : Moves expressions) (htable : Moves table) (base : Expr) :
    Moves (callOf expressions table base) := by
  refine moves_peek.bind fun kind => ?_
  split
  · refine moves_advance.bind fun _ => (moves_isNext _).bind fun _ => ?_
    have hfinish (arguments : List Expr) : Moves (do
        expectSign .rightParen
        return ExprKind.call base .arguments arguments) :=
      (moves_expectSign _).bind fun _ => moves_pure _
    exact .ite (hfinish []) (hexpressions.bind hfinish)
  · exact htable.bind fun _ => moves_pure _
  · exact moves_advance.bind fun _ => moves_freshId.bind fun _ => moves_pure _
  · exact moves_unexpected _

theorem moves_primary (hexpression : Moves expression) : Moves (primary expression) := by
  refine moves_here.bind fun _ => moves_peek.bind fun kind => ?_
  split
  · exact moves_name.bind fun _ => (moves_note _).bind fun _ => moves_pure _
  · exact moves_advance.bind fun _ => hexpression.bind fun _ => (moves_expectSign _).bind
      fun _ => (moves_spanFrom _).bind fun _ => moves_pure _
  · exact moves_unexpected _

/-- A member, an index or a call behind an expression. -/
theorem moves_suffix {call : Expr → Parser ExprKind} (hexpression : Moves expression)
    (hcall : ∀ base, Moves (call base)) (start : Position) (base : Expr) :
    Moves (suffix? expression call start base) := by
  have hbuilt (kind : ExprKind) : Moves (do return some (← expr start kind)) :=
    (moves_expr start kind).bind fun _ => moves_pure _
  refine moves_peek.bind fun kind => ?_
  split
  · exact moves_advance.bind fun _ => moves_name.bind fun _ => hbuilt _
  · exact moves_advance.bind fun _ => hexpression.bind fun _ => (moves_expectSign _).bind
      fun _ => hbuilt _
  · exact moves_advance.bind fun _ => moves_name.bind fun _ => (moves_expr start _).bind
      fun method => (hcall method).bind hbuilt
  · exact (hcall base).bind hbuilt
  · exact (hcall base).bind hbuilt
  · exact (hcall base).bind hbuilt
  · exact moves_pure none

/-- A literal, a table, a function or a chain of suffixes. -/
theorem moves_simple (hsuffixed : Moves suffixed) (htable : Moves table)
    (hfunction : ∀ start isMethod, Moves (function start isMethod)) :
    Moves (simple suffixed table function) := by
  refine moves_here.bind fun start => moves_peek.bind fun kind => ?_
  split
  · exact moves_advance.bind fun _ => moves_expr _ _
  · split
    · exact htable
    · exact moves_advance.bind fun _ => (hfunction start false).bind fun _ => moves_expr _ _
    · exact hsuffixed

end Productions

/-! ## The recursion -/

/-- The productions with a bound move forward. -/
structure AllMove (bound : Nat) : Prop where
  block : Moves (block bound)
  statement : Moves (statement bound)
  function : ∀ start isMethod, Moves (function bound start isMethod)
  expressions : Moves (expressions bound)
  subexpression : ∀ limit, Moves (subexpression bound limit)
  operators : ∀ start limit left, Moves (operators bound start limit left)
  suffixed : Moves (suffixed bound)
  suffixes : ∀ start base, Moves (suffixes bound start base)

namespace AllMove

variable {bound : Nat}

theorem block_succ (ih : AllMove bound) : Moves (Parser.block (bound + 1)) := by
  unfold Parser.block
  refine moves_isBlockEnd.bind fun _ => .ite (moves_pure _) ((moves_isNext _).bind fun _ => .ite ?_
    ((moves_acceptSign _).bind fun _ => .ite ih.block ?_))
  · exact (moves_returnStatement ih.expressions).bind fun _ => moves_pure _
  · exact ih.statement.bind fun _ => ih.block.bind fun _ => moves_pure _

/-- Statements, one level deeper, each kind by its first token. -/
theorem statement_succ (ih : AllMove bound) : Moves (Parser.statement (bound + 1)) := by
  have hexpression := ih.subexpression 0
  have hstmt {start : Position} {p : Parser StmtKind} (hp : Moves p) :
      Moves (do stmt start (← p)) := hp.bind fun kind => moves_stmt start kind
  unfold Parser.statement
  refine moves_here.bind fun start => moves_peek.bind fun kind => ?_
  split
  · exact moves_advance.bind fun _ => (moves_acceptWord _).bind fun _ =>
      .ite (hstmt (moves_localFunction ih.function start))
        (moves_localStatement bound ih.expressions start)
  · exact moves_advance.bind fun _ => hstmt (moves_functionStatement bound ih.function start)
  · exact hstmt (moves_conditional bound hexpression ih.block)
  · exact hstmt (moves_whileLoop hexpression ih.block)
  · exact hstmt (moves_blockStatement ih.block)
  · exact hstmt (moves_repeatLoop hexpression ih.block)
  · exact hstmt (moves_forLoop bound hexpression ih.expressions ih.block)
  · exact moves_advance.bind fun _ => moves_stmt _ _
  · exact hstmt moves_gotoStatement
  · exact hstmt moves_labelStatement
  · exact hstmt (moves_expressionStatement bound ih.suffixed ih.expressions)

theorem expressions_succ (ih : AllMove bound) : Moves (Parser.expressions (bound + 1)) := by
  unfold Parser.expressions
  exact (ih.subexpression 0).bind fun _ => (moves_acceptSign _).bind fun _ =>
    .ite (ih.expressions.bind fun _ => moves_pure _) (moves_pure _)

/-- Operands with the operators between them, one level deeper. -/
theorem subexpression_succ (ih : AllMove bound) (limit : Nat) :
    Moves (Parser.subexpression (bound + 1) limit) := by
  unfold Parser.subexpression
  refine moves_here.bind fun start => moves_peek.bind fun kind => ?_
  split
  · exact moves_advance.bind fun _ => (ih.subexpression _).bind fun _ => (moves_expr start _).bind
      fun e => ih.operators start limit e
  · exact (moves_simple ih.suffixed (moves_table bound (ih.subexpression 0)) ih.function).bind
      fun first => ih.operators start limit first

/-- The operators behind an operand, one level deeper. -/
theorem operators_succ (ih : AllMove bound) (start : Position) (limit : Nat) (left : Expr) :
    Moves (Parser.operators (bound + 1) start limit left) := by
  unfold Parser.operators
  refine moves_peek.bind fun kind => ?_
  split
  · exact .ite (moves_pure _) (moves_advance.bind fun _ => (ih.subexpression _).bind fun _ =>
      (moves_expr start _).bind fun e => ih.operators start limit e)
  · exact moves_pure _

/-- The suffixes behind an expression, one level deeper. -/
theorem suffixes_succ (ih : AllMove bound) (start : Position) (base : Expr) :
    Moves (Parser.suffixes (bound + 1) start base) := by
  have htable := moves_table bound (ih.subexpression 0)
  unfold Parser.suffixes
  refine (moves_suffix (ih.subexpression 0) (fun base => moves_callOf ih.expressions htable base)
    start base).bind fun next => ?_
  cases next with
  | some next => exact ih.suffixes start next
  | none => exact moves_pure base

end AllMove

/-- **Every production moves forward**, whatever its bound. -/
theorem forward (bound : Nat) : AllMove bound := by
  induction bound with
  | zero => exact ⟨moves_exhausted, moves_exhausted, fun _ _ => moves_exhausted, moves_exhausted,
      fun _ => moves_exhausted, fun _ _ _ => moves_exhausted, moves_exhausted,
      fun _ _ => moves_exhausted⟩
  | succ bound ih =>
    exact
      { block := ih.block_succ
        statement := ih.statement_succ
        function := moves_functionWith bound ih.block
        expressions := ih.expressions_succ
        subexpression := ih.subexpression_succ
        operators := ih.operators_succ
        suffixed := moves_here.bind fun start =>
          (moves_primary (ih.subexpression 0)).bind fun base => ih.suffixes start base
        suffixes := ih.suffixes_succ }

/-- A program that is read ends with one of the tokens that were scanned, and that is the end of the
text. -/
theorem ends_chunk (bound : Nat) (s : State) :
    Post (chunk bound) s (fun _ _ => ∃ token ∈ s.ahead, token.kind = .eof) fun _ => True := by
  unfold chunk
  rw [post_bind, post_note, post_bind]
  refine ((forward bound).block _).mono (fun body s' h => ?_) fun _ _ => trivial
  rw [post_bind, post_note, post_bind, post_get, post_ite]
  split
  next heof => exact ⟨s'.current, h.ahead.subset List.mem_cons_self, by simpa using heof⟩
  · trivial

end Parser

/-- A program that is read from a text is read up to the end of the text. -/
theorem eof_mem_of_parse {source : String} {chunk : Chunk}
    (hparse : (parse source).result = .ok chunk) :
    (Scan.ofText source.toList).tokens = [] ∧ (Scan.ofText source.toList).fault = none ∨
      ∃ token ∈ (Scan.ofText source.toList).tokens, token.kind = .eof := by
  unfold parse parseScan at hparse
  split at hparse
  · cases hparse
  next htokens hfault => exact .inl ⟨htokens, hfault⟩
  next first rest htokens =>
    have hends := Parser.ends_chunk (depthBound (Scan.ofText source.toList).tokens.length)
      ⟨first, rest, (Scan.ofText source.toList).fault, Position.origin, 0, []⟩
    unfold Parser.Post at hends
    dsimp only at hparse
    split at hends
    next hrun => exact .inr (htokens ▸ hends)
    next hrun =>
      rw [hrun] at hparse
      cases hparse

/-- Looking ahead loses no comment of a text and repeats none. -/
theorem comments_parse (source : String) :
    (parse source).comments = (Scan.ofText source.toList).comments := by
  unfold parse parseScan
  split <;> rfl

end LuaCompiler
