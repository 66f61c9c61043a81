import LuaCompiler.Proofs.Parser.Placed

/-!
# Assignments start with their targets

An expression of names, members, indices and calls starts with the token that it is read from, and
an assignment is read from its first target on. So nothing of the text stands between the start of
an assignment and its first target.

* `Parser.Makes p s Q`: a run of a parser that succeeds gives a value with the property `Q`.
* `starts_of_parse`: **an assignment of a program starts where its first target starts**.
-/

namespace LuaCompiler

namespace Parser

variable {α β : Type} {s : State} {place : Position} {Q : α → Prop} {R : β → Prop}

/-- **The value of a run that succeeds has a property.** -/
def Makes (p : Parser α) (s : State) (Q : α → Prop) : Prop :=
  Post p s (fun a _ => Q a) fun _ => True

/-- A run of two parsers of which the first gives a value with a property. -/
theorem Makes.bind {p : Parser α} {f : α → Parser β} (hp : Makes p s Q)
    (hf : ∀ a, Q a → ∀ s', Makes (f a) s' R) : Makes (p >>= f) s R :=
  post_bind.2 (hp.imp fun a s' ha => hf a ha s')

/-- A parser behind one whose value does not matter. -/
theorem makes_then {p : Parser α} {f : α → Parser β} (hf : ∀ a s', Makes (f a) s' R) :
    Makes (p >>= f) s R := by
  refine Makes.bind (Q := fun _ => True) ?_ fun a _ => hf a
  unfold Makes Post
  split <;> trivial

theorem makes_pure {a : α} (h : Q a) : Makes (pure a) s Q := h

/-- Both branches of a test make it. -/
theorem Makes.ite {c : Prop} [Decidable c] {p q : Parser α} (hp : c → Makes p s Q)
    (hq : ¬ c → Makes q s Q) : Makes (if c then p else q) s Q := by
  split
  next h => exact hp h
  next h => exact hq h

/-! ## Expressions -/

theorem makes_expr (kind : ExprKind) : Makes (expr place kind) s fun e => e.span.start = place :=
  makes_then fun _ _ => rfl

theorem makes_name :
    Makes name s fun identifier => identifier.span.start = s.current.span.start := by
  unfold name
  refine post_bind.2 (post_peek.2 ?_)
  split
  · -- the token that is read is the one that comes next
    refine post_bind.2 ?_
    have hread : Makes advance s fun token => token = s.current := by
      unfold advance
      refine post_bind.2 (post_get.2 ?_)
      dsimp only
      split
      · exact makes_then fun _ _ => rfl
      · trivial
      · exact makes_then fun _ _ => rfl
    exact hread.imp fun token _ htoken => makes_then fun _ _ =>
      makes_pure (congrArg (fun token : Token => token.span.start) htoken)
  · trivial

/-- A prefix starts at its first token. -/
theorem makes_primary (expression : Parser Expr) :
    Makes (primary expression) s fun e => e.span.start = s.current.span.start := by
  unfold primary
  refine post_bind.2 (post_here.2 (post_bind.2 (post_peek.2 ?_)))
  split
  · exact makes_name.bind fun _ hname _ => makes_then fun _ _ => hname
  · exact makes_then fun _ _ => makes_then fun _ _ => makes_then fun _ _ => rfl
  · trivial

/-- What goes on from a place on starts there. -/
theorem makes_suffix (expression : Parser Expr) (call : Expr → Parser ExprKind) (base : Expr) :
    Makes (suffix? expression call place base) s fun next => ∀ e ∈ next, e.span.start = place := by
  have hsome {p : Parser ExprKind} {s : State} : Makes (do return some (← expr place (← p))) s
      fun next => ∀ e ∈ next, e.span.start = place :=
    makes_then fun kind _ => (makes_expr kind).bind fun e he _ =>
      makes_pure fun _ hmem => Option.some.inj hmem ▸ he
  unfold suffix?
  refine post_bind.2 (post_peek.2 ?_)
  split
  · exact makes_then fun _ _ => makes_then fun identifier _ =>
      hsome (p := pure (.member base .dot identifier))
  · exact makes_then fun _ _ => makes_then fun index _ => makes_then fun _ _ =>
      hsome (p := pure (.index base index))
  · exact makes_then fun _ _ => makes_then fun _ _ => makes_then fun method _ =>
      hsome (p := call method)
  · exact hsome (p := call base)
  · exact hsome (p := call base)
  · exact hsome (p := call base)
  · exact makes_pure fun _ hnone => by cases hnone

/-- Suffixes do not move the start. -/
theorem makes_suffixes (bound : Nat) : ∀ (s : State) (base : Expr), base.span.start = place →
    Makes (suffixes bound place base) s fun e => e.span.start = place := by
  induction bound with
  | zero => exact fun _ _ _ => trivial
  | succ bound ih =>
    intro s base hbase
    unfold suffixes
    refine (makes_suffix _ _ base).bind fun next hnext s' => ?_
    cases next with
    | some next => exact ih s' next (hnext next rfl)
    | none => exact hbase

/-- **An expression that can be assigned to starts with the token that it is read from.** -/
theorem makes_suffixed (bound : Nat) :
    Makes (suffixed bound) s fun e => e.span.start = s.current.span.start := by
  cases bound with
  | zero => exact trivial
  | succ bound =>
    unfold suffixed
    refine post_bind.2 (post_here.2 ?_)
    exact (makes_primary _).bind fun base hbase s' => makes_suffixes bound s' base hbase

/-! ## Statements -/

/-- The first target of an assignment. -/
def firstTarget? : StmtKind → Option Expr
  | .assignment (target :: _) _ => some target
  | _ => none

/-- An assignment starts with its first target. -/
def StartsAt (place : Position) (kind : StmtKind) : Prop :=
  ∀ target ∈ firstTarget? kind, target.span.start = place

theorem startsAt_of {kind : StmtKind} (h : firstTarget? kind = none) : StartsAt place kind := by
  intro target htarget
  rw [h] at htarget
  cases htarget

theorem makes_localFunction (function : Position → Bool → Parser FunctionBody) (start : Position) :
    Makes (localFunction function start) s (StartsAt place) :=
  makes_then fun _ _ => makes_then fun _ _ => makes_then fun _ _ => startsAt_of rfl

/-- A `local` statement has no target. -/
theorem makes_localStatement (bound : Nat) (expressions : Parser (List Expr)) (start : Position) :
    Makes (localStatement bound expressions start) s
      fun stmt => ∀ place, StartsAt place stmt.kind := by
  have hfinish (vars : List Identifier) (init : List Expr) (s : State) :
      Makes (do
        let id ← freshId
        note (.declare id vars init)
        return ⟨id, ← spanFrom start, .local vars init⟩) s
        fun stmt : Stmt => ∀ place, StartsAt place stmt.kind :=
    makes_then fun _ _ => makes_then fun _ _ => makes_then fun _ _ => fun _ => startsAt_of rfl
  refine makes_then fun vars _ => makes_then fun isAssigned _ => .ite (fun _ => ?_) fun _ => ?_
  · exact makes_then fun init s' => hfinish vars init s'
  · exact hfinish vars [] _

theorem makes_functionStatement (bound : Nat) (function : Position → Bool → Parser FunctionBody)
    (start : Position) : Makes (functionStatement bound function start) s (StartsAt place) :=
  makes_then fun _ _ => makes_then fun _ _ => startsAt_of rfl

theorem makes_conditional (bound : Nat) (expression : Parser Expr) (block : Parser (List Stmt)) :
    Makes (conditional bound expression block) s (StartsAt place) :=
  makes_then fun _ _ => makes_then fun _ _ => makes_then fun _ _ => makes_then fun _ _ =>
    makes_then fun _ _ => startsAt_of rfl

theorem makes_whileLoop (expression : Parser Expr) (block : Parser (List Stmt)) :
    Makes (whileLoop expression block) s (StartsAt place) :=
  makes_then fun _ _ => makes_then fun _ _ => makes_then fun _ _ => makes_then fun _ _ =>
    makes_then fun _ _ => startsAt_of rfl

theorem makes_repeatLoop (expression : Parser Expr) (block : Parser (List Stmt)) :
    Makes (repeatLoop expression block) s (StartsAt place) :=
  makes_then fun _ _ => makes_then fun _ _ => makes_then fun _ _ => makes_then fun _ _ =>
    makes_then fun _ _ => makes_then fun _ _ => startsAt_of rfl

theorem makes_blockStatement (block : Parser (List Stmt)) :
    Makes (blockStatement block) s (StartsAt place) :=
  makes_then fun _ _ => makes_then fun _ _ => makes_then fun _ _ => startsAt_of rfl

theorem makes_forLoop (bound : Nat) (expression : Parser Expr) (expressions : Parser (List Expr))
    (block : Parser (List Stmt)) :
    Makes (forLoop bound expression expressions block) s (StartsAt place) := by
  refine makes_then fun _ _ => makes_then fun first _ => makes_then fun isNumeric _ => ?_
  refine .ite (fun _ => ?_) fun _ => ?_
  · refine makes_then fun start _ => makes_then fun _ _ => makes_then fun stop _ =>
      makes_then fun hasStep _ => .ite (fun _ => ?_) fun _ => ?_
    · rw [map_eq_pure_bind, bind_assoc]
      exact makes_then fun _ _ => makes_then fun _ _ => makes_then fun _ _ => startsAt_of rfl
    · exact makes_then fun _ _ => makes_then fun _ _ => startsAt_of rfl
  · exact makes_then fun _ _ => makes_then fun _ _ => makes_then fun _ _ => makes_then fun _ _ =>
      startsAt_of rfl

/-- A call or an assignment starts at its first target. -/
theorem makes_expressionStatement (bound bound' : Nat) (expressions : Parser (List Expr)) :
    Makes (expressionStatement bound (suffixed bound') expressions) s
      (StartsAt s.current.span.start) := by
  refine (makes_suffixed bound').bind fun first hfirst _ => makes_then fun _ _ =>
    makes_then fun _ _ => .ite (fun _ => ?_) fun _ =>
      .ite (fun _ => startsAt_of rfl) fun _ => trivial
  refine makes_then fun _ _ => makes_then fun _ _ => makes_then fun _ _ => makes_then fun _ _ => ?_
  intro target htarget
  exact Option.some.inj htarget ▸ hfirst

/-- A `return` has no target. -/
theorem makes_returnStatement (expressions : Parser (List Expr)) :
    Makes (returnStatement expressions) s fun stmt => ∀ place, StartsAt place stmt.kind := by
  have hfinish (start : Position) (arguments : List Expr) (s : State) :
      Makes (do
        let _ ← acceptSign .semicolon
        let statement ← stmt start (.return arguments)
        if ← isBlockEnd then return statement
        else unexpected (.expected (.keyword .end))) s
        fun stmt : Stmt => ∀ place, StartsAt place stmt.kind := by
    have hreturn (s : State) : Makes (stmt start (.return arguments)) s
        fun stmt => ∀ place, StartsAt place stmt.kind :=
      makes_then fun _ _ => makes_then fun _ _ => fun _ => startsAt_of rfl
    exact makes_then fun _ s' => (hreturn s').bind fun _ h _ => makes_then fun _ _ =>
      .ite (fun _ => h) fun _ => trivial
  refine makes_then fun start _ => makes_then fun _ _ => makes_then fun _ _ => makes_then fun _ _ =>
    .ite (fun _ => ?_) fun _ => ?_
  · exact hfinish start [] _
  · exact makes_then fun arguments s' => hfinish start arguments s'

/-- **A statement that is an assignment starts with its first target.** -/
theorem makes_statement (bound : Nat) :
    Makes (statement bound) s fun stmt => StartsAt stmt.span.start stmt.kind := by
  cases bound with
  | zero => exact trivial
  | succ bound =>
    -- wrapping keeps the place at which the statement starts
    have hstmt {p : Parser StmtKind} {s : State} {place : Position}
        (h : Makes p s (StartsAt place)) :
        Makes (do stmt place (← p)) s fun stmt => StartsAt stmt.span.start stmt.kind :=
      h.bind fun _ hkind _ => makes_then fun _ _ => hkind
    unfold statement
    refine post_bind.2 (post_here.2 (post_bind.2 (post_peek.2 ?_)))
    split
    · refine makes_then fun _ _ => makes_then fun _ _ => .ite (fun _ => ?_) fun _ => ?_
      · exact hstmt (makes_localFunction _ _)
      · exact (makes_localStatement _ _ _).imp fun stmt _ h => h stmt.span.start
    · exact makes_then fun _ _ => hstmt (makes_functionStatement _ _ _)
    · exact hstmt (makes_conditional _ _ _)
    · exact hstmt (makes_whileLoop _ _)
    · exact hstmt (makes_blockStatement _)
    · exact hstmt (makes_repeatLoop _ _)
    · exact hstmt (makes_forLoop _ _ _ _)
    · exact makes_then fun _ _ => makes_then fun _ _ => startsAt_of rfl
    · exact hstmt (makes_then fun _ _ => makes_then fun _ _ => startsAt_of rfl)
    · exact hstmt (makes_then fun _ _ => makes_then fun _ _ => makes_then fun _ _ =>
        startsAt_of rfl)
    · exact hstmt (makes_expressionStatement _ _ _)

/-- Each statement of a block starts at its first target. -/
theorem makes_block (bound : Nat) : ∀ s, Makes (block bound) s fun body =>
    ∀ stmt ∈ body, StartsAt stmt.span.start stmt.kind := by
  induction bound with
  | zero => exact fun _ => trivial
  | succ bound ih =>
    intro s
    unfold block
    refine makes_then fun _ _ => .ite (fun _ => List.forall_mem_nil _) fun _ =>
      makes_then fun _ _ => .ite (fun _ => ?_) fun _ => makes_then fun _ _ =>
        .ite (fun _ => ih _) fun _ => ?_
    · exact (makes_returnStatement _).bind fun first hfirst _ =>
        List.forall_mem_singleton.2 (hfirst _)
    · exact (makes_statement bound).bind fun first hfirst _ => (ih _).bind fun rest hrest _ =>
        List.forall_mem_cons.2 ⟨hfirst, hrest⟩

end Parser

/-- **An assignment of a program starts where its first target starts.** -/
theorem starts_of_parse {source : String} {chunk : Chunk} (h : (parse source).result = .ok chunk) :
    ∀ stmt ∈ chunk.body, Parser.StartsAt stmt.span.start stmt.kind := by
  obtain ⟨first, rest, s', -, hrun⟩ := run_of_parse h
  have hchunk : Parser.Makes (Parser.chunk (depthBound (Scan.ofText source.toList).tokens.length))
      ⟨first, rest, (Scan.ofText source.toList).fault, Position.origin, 0, []⟩
      fun chunk => ∀ stmt ∈ chunk.body, Parser.StartsAt stmt.span.start stmt.kind :=
    Parser.makes_then fun _ _ => (Parser.makes_block _ _).bind fun _ hbody _ =>
      Parser.makes_then fun _ _ => Parser.makes_then fun _ _ =>
        .ite (fun _ => hbody) fun _ => trivial
  unfold Parser.Makes Parser.Post at hchunk
  rw [hrun] at hchunk
  exact hchunk

end LuaCompiler
