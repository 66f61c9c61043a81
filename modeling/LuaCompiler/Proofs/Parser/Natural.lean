import LuaCompiler.Proofs.Parser.Run
import LuaCompiler.Proofs.Tree.Views

/-!
# Parsers look at tokens only

What a parser does depends on the classes of the tokens, and on nothing else: not on where they
stand, and not on how strings are written. So a parser in a state that is seen through a view does
the same as in the state itself, and what it gives is what is seen through the view.

* `Follows v f p q`: the parser `q` does in every state seen through `v` what `p` does in the state,
  and gives `f` of what `p` gives.
* `Follows.bind` and one rule for each step that productions are made of.
* `natural`: **every production follows itself**, by induction on the bound.
-/

namespace LuaCompiler.Parser

open Token (Kind)

variable {α β γ δ : Type} {v : View}

/-- What a run ends with, through a view. -/
def endSeen (v : View) (f : α → β) :
    Except (Located SyntaxFault) α → Except (Located SyntaxFault) β
  | .ok a => .ok (f a)
  | .error fault => .error (fault.seen v)

/-- **A parser follows another**: in a state seen through a view it does what the other does in the
state. -/
def Follows (v : View) (f : α → β) (p : Parser α) (q : Parser β) : Prop :=
  ∀ s, q.run (s.seen v) = (endSeen v f (p.run s).1, (p.run s).2.seen v)

/-- **One parser behind another.** -/
theorem Follows.bind {f : α → β} {g : γ → δ} {p : Parser α} {q : Parser β} {k : α → Parser γ}
    {l : β → Parser δ} (hp : Follows v f p q) (hk : ∀ a, Follows v g (k a) (l (f a))) :
    Follows v g (p >>= k) (q >>= l) := by
  intro s
  have hfirst : (p >>= k).run s = ExceptT.bindCont k (p.run s).1 (p.run s).2 := rfl
  have hseen : (q >>= l).run (s.seen v) =
      ExceptT.bindCont l (q.run (s.seen v)).1 (q.run (s.seen v)).2 := rfl
  rw [hfirst, hseen, hp s]
  rcases p.run s with ⟨_ | a, s'⟩
  · rfl
  · exact hk a s'

/-- A scope is left in both states. -/
theorem Follows.leaving {f : α → β} {p : Parser α} {q : Parser β} (hp : Follows v f p q) :
    Follows v f (leaving p) (leaving q) := by
  intro s
  have hfirst : (Parser.leaving p).run s = ((p.run s).1, (p.run s).2.left) := rfl
  have hseen : (Parser.leaving q).run (s.seen v) =
      ((q.run (s.seen v)).1, (q.run (s.seen v)).2.left) := rfl
  rw [hfirst, hseen, hp s]
  rfl

/-- Two parsers that decide alike. -/
theorem Follows.ite {f : α → β} {c : Prop} [Decidable c] {p p' : Parser α} {q q' : Parser β}
    (hp : Follows v f p q) (hp' : Follows v f p' q') :
    Follows v f (if c then p else p') (if c then q else q') := by
  split
  next => exact hp
  next => exact hp'

/-- One of two parsers before another. -/
theorem Follows.join {f : α → β} {g : γ → δ} {c : Prop} [Decidable c] {p p' : Parser α}
    {q q' : Parser β} {k : α → Parser γ} {l : β → Parser δ} (hp : Follows v f p q)
    (hp' : Follows v f p' q') (hk : ∀ a, Follows v g (k a) (l (f a))) :
    Follows v g (if c then p >>= k else p' >>= k) (if c then q >>= l else q' >>= l) :=
  .ite (hp.bind hk) (hp'.bind hk)

theorem follows_pure {f : α → β} {a : α} {b : β} (h : b = f a) :
    Follows v f (pure a) (pure b) := by
  intro s
  rw [h]
  rfl

/-! ## Single steps -/

/-- The token ahead is seen through the view. -/
theorem follows_peek : Follows v (Kind.seen v) peek peek := fun _ => rfl

/-- What a parser does next depends on the token to be read: a string, or a token that looks like
itself. -/
theorem follows_next {f : α → β} {k : Kind → Parser α} {l : Kind → Parser β}
    (hsame : ∀ kind, kind.seen v = kind → Follows v f (k kind) (l kind))
    (hstring : ∀ raw, Follows v f (k (.string raw)) (l (.string (v.text raw)))) :
    Follows v f (peek >>= k) (peek >>= l) := by
  refine follows_peek.bind fun kind => ?_
  rcases Kind.seen_cases v kind with heq | ⟨raw, rfl, -⟩
  · rw [heq]
    exact hsame kind heq
  · exact hstring raw

/-- The place is seen through the view. -/
theorem follows_here : Follows v v.place here here := fun _ => rfl

theorem follows_get : Follows v (State.seen v) get get := fun _ => rfl

/-- A fault is seen through the view, at the place that is seen. -/
theorem follows_failAt {f : α → β} (fault : SyntaxFault) (place : Position) :
    Follows v f (failAt fault place) (failAt (fault.seen v) (v.place place)) := fun _ => rfl

/-- A fault about the token ahead is one about the token that is seen. -/
theorem follows_unexpected {f : α → β} {fault : Kind → SyntaxFault}
    (h : ∀ kind, (fault kind).seen v = fault (kind.seen v)) :
    Follows v f (unexpected fault) (unexpected fault) := by
  refine follows_peek.bind fun kind => follows_here.bind fun place => ?_
  rw [← h]
  exact follows_failAt _ _

theorem follows_exhausted {f : α → β} : Follows v f exhausted exhausted := fun _ => rfl

theorem follows_freshId : Follows v id freshId freshId := fun _ => rfl

/-- A span is seen through the view. -/
theorem follows_spanFrom (place : Position) :
    Follows v v.span (spanFrom place) (spanFrom (v.place place)) := fun _ => rfl

/-- An event is noted as it is seen. -/
theorem follows_note (event : Scope.Event) :
    Follows v id (note event) (note (event.seen v)) := fun _ => rfl

/-- Whether a token comes next is the same through a view, unless the token is a string. -/
theorem follows_isNext {wanted : Kind} (h : ∀ raw, wanted ≠ .string raw) :
    Follows v id (isNext wanted) (isNext wanted) :=
  follows_peek.bind fun _ => follows_pure (Kind.seen_beq h)

theorem follows_isSign (sign : Symbol) :
    Follows v id (isNext (.symbol sign)) (isNext (.symbol sign)) := follows_isNext nofun

theorem follows_isWord (word : Keyword) :
    Follows v id (isNext (.keyword word)) (isNext (.keyword word)) := follows_isNext nofun

/-- A view has no part in which token is read. -/
theorem follows_advance : Follows v (Token.seen v) advance advance := by
  rintro ⟨current, rest, ending, previousEnd, nextId, events⟩
  cases rest with
  | cons next rest => rfl
  | nil => cases ending <;> rfl

/-- A token is accepted through a view as without it. -/
theorem follows_accept {wanted : Kind} (h : ∀ raw, wanted ≠ .string raw) :
    Follows v id (accept wanted) (accept wanted) :=
  (follows_isNext h).bind fun _ => .ite (follows_advance.bind fun _ => follows_pure rfl)
    (follows_pure rfl)

/-- A token is expected through a view as without it. -/
theorem follows_expect {wanted : Kind} (h : ∀ raw, wanted ≠ .string raw) :
    Follows v id (expect wanted) (expect wanted) :=
  (follows_isNext h).bind fun _ => .ite (follows_advance.bind fun _ => follows_pure rfl)
    (follows_unexpected fun _ => rfl)

theorem follows_acceptWord (word : Keyword) : Follows v id (acceptWord word) (acceptWord word) :=
  follows_accept nofun

theorem follows_acceptSign (sign : Symbol) : Follows v id (acceptSign sign) (acceptSign sign) :=
  follows_accept nofun

theorem follows_expectWord (word : Keyword) : Follows v id (expectWord word) (expectWord word) :=
  follows_expect nofun

theorem follows_expectSign (sign : Symbol) : Follows v id (expectSign sign) (expectSign sign) :=
  follows_expect nofun

/-- What is built at a place, with an identity and a span. -/
theorem follows_build {f : α → β} {build : NodeId → Span → α} {build' : NodeId → Span → β}
    (place : Position) (h : ∀ id span, f (build id span) = build' id (v.span span)) :
    Follows v f (do return build (← freshId) (← spanFrom place))
      (do return build' (← freshId) (← spanFrom (v.place place))) :=
  follows_freshId.bind fun _ => (follows_spanFrom place).bind fun _ => follows_pure (h _ _).symm

/-- A node over kinds that are seen. -/
theorem follows_expr (place : Position) {kind kind' : ExprKind} (h : kind' = kind.seen v) :
    Follows v (Expr.seen v) (expr place kind) (expr (v.place place) kind') :=
  follows_build place fun _ _ => by rw [h, Expr.seen]

/-- A statement over kinds that are seen. -/
theorem follows_stmt (place : Position) {kind kind' : StmtKind} (h : kind' = kind.seen v) :
    Follows v (Stmt.seen v) (stmt place kind) (stmt (v.place place) kind') :=
  follows_build place fun _ _ => by rw [h, Stmt.seen]

/-! ## Names -/

/-- A name is read as it is: views change no names. -/
theorem follows_name : Follows v (Identifier.seen v) name name := by
  refine follows_next (fun kind _ => ?_) fun raw => follows_unexpected fun _ => rfl
  split
  next word =>
    refine follows_advance.bind fun token => follows_freshId.bind fun id => ?_
    exact follows_pure rfl
  next => exact follows_unexpected fun _ => rfl

theorem follows_attributeMark : Follows v id attributeMark attributeMark :=
  (follows_acceptSign _).bind fun _ => .ite
    (follows_name.bind fun _ => follows_expectSign _) (follows_pure rfl)

/-- The names behind `local`. -/
theorem follows_localNames (bound : Nat) :
    Follows v (List.map (Identifier.seen v)) (localNames bound) (localNames bound) := by
  induction bound with
  | zero => exact follows_exhausted
  | succ bound ih =>
    refine follows_name.bind fun first => follows_attributeMark.bind fun _ => ?_
    refine (follows_acceptSign _).bind fun _ => .ite ?_ (follows_pure rfl)
    exact ih.bind fun others => follows_pure rfl

theorem follows_moreNames (bound : Nat) :
    Follows v (List.map (Identifier.seen v)) (moreNames bound) (moreNames bound) := by
  induction bound with
  | zero => exact follows_exhausted
  | succ bound ih =>
    refine (follows_acceptSign _).bind fun _ => .ite ?_ (follows_pure rfl)
    exact follows_name.bind fun next => ih.bind fun others => follows_pure rfl

/-- The names in the parentheses of a function. -/
theorem follows_parameterNames (bound : Nat) :
    Follows v (Prod.map (List.map (Identifier.seen v)) id) (parameterNames bound)
      (parameterNames bound) := by
  induction bound with
  | zero => exact follows_exhausted
  | succ bound ih =>
    refine (follows_acceptSign _).bind fun _ => .ite (follows_pure rfl) ?_
    refine follows_name.bind fun first => (follows_acceptSign _).bind fun _ => ?_
    exact .ite (ih.bind fun others => follows_pure rfl) (follows_pure rfl)

theorem follows_parameters (bound : Nat) :
    Follows v (Prod.map (List.map (Identifier.seen v)) id) (parameters bound) (parameters bound) :=
  (follows_isSign _).bind fun _ => .ite (follows_pure rfl) (follows_parameterNames bound)

theorem follows_indexer : Follows v id indexer? indexer? := by
  refine follows_next (fun kind _ => ?_) fun raw => follows_pure rfl
  split <;> exact follows_pure rfl

/-- The members that a function's target goes on with. -/
theorem follows_targetMembers (bound : Nat) (target : FunctionTarget) :
    Follows v (FunctionTarget.seen v) (targetMembers bound target)
      (targetMembers bound (target.seen v)) := by
  induction bound generalizing target with
  | zero => exact follows_exhausted
  | succ bound ih =>
    unfold targetMembers
    refine follows_indexer.bind fun sign => ?_
    cases sign with
    | none => exact follows_pure rfl
    | some sign =>
      refine follows_advance.bind fun _ => follows_name.bind fun identifier => ?_
      refine follows_freshId.bind fun id => ?_
      -- the member is seen as it is built from what is seen of its parts
      have hmember : (FunctionTarget.member id (target.toExpr.span.through identifier.span)
          target.toExpr sign identifier).seen v =
            .member id ((target.seen v).toExpr.span.through (identifier.seen v).span)
              (target.seen v).toExpr sign (identifier.seen v) := by
        rw [FunctionTarget.seen, ← FunctionTarget.seen_toExpr, Expr.seen_eq]
        rfl
      cases sign with
      | colon => exact follows_pure hmember.symm
      | dot =>
        have hmore := ih (.member id (target.toExpr.span.through identifier.span) target.toExpr
          .dot identifier)
        rw [hmember] at hmore
        exact hmore

/-- The target of a function statement. -/
theorem follows_functionTarget (bound : Nat) :
    Follows v (FunctionTarget.seen v) (functionTarget bound) (functionTarget bound) := by
  refine follows_name.bind fun root => (follows_note _).bind fun _ => ?_
  have hmembers := follows_targetMembers (v := v) bound (.name root)
  rw [FunctionTarget.seen] at hmembers
  exact hmembers

section Productions

variable {block : Parser (List Stmt)} {expression suffixed table : Parser Expr}
  {expressions : Parser (List Expr)} {function : Position → Bool → Parser FunctionBody}

/-! ## Scopes -/

theorem follows_innerBlock (hblock : Follows v (blockSeen v) block block) :
    Follows v (blockSeen v) (innerBlock block) (innerBlock block) :=
  (follows_note _).bind fun _ => hblock.leaving

/-- The body of a loop, with its variables. -/
theorem follows_loopBody (vars : List Identifier) (hblock : Follows v (blockSeen v) block block) :
    Follows v (blockSeen v) (loopBody vars block)
      (loopBody (vars.map (Identifier.seen v)) block) := by
  refine (follows_expectWord _).bind fun _ => (follows_note _).bind fun _ => ?_
  refine (follows_note (.parameters vars)).bind fun _ => hblock.leaving.bind fun body => ?_
  exact (follows_expectWord _).bind fun _ => follows_pure rfl

/-- Parameters and body of a function. -/
theorem follows_functionWith (bound : Nat) (hblock : Follows v (blockSeen v) block block)
    (place : Position) (isMethod : Bool) :
    Follows v (FunctionBody.seen v) (functionWith bound block place isMethod)
      (functionWith bound block (v.place place) isMethod) := by
  refine (follows_note _).bind fun _ => (follows_expectSign _).bind fun _ => ?_
  refine (follows_parameters bound).bind fun read => (follows_expectSign _).bind fun _ => ?_
  refine (follows_note (.parameters read.1)).bind fun _ => hblock.leaving.bind fun body => ?_
  refine (follows_expectWord _).bind fun _ => ?_
  exact follows_build place fun _ _ => by rw [FunctionBody.seen]; rfl

/-! ## Statements -/

theorem follows_isBlockEnd : Follows v id isBlockEnd isBlockEnd := by
  refine follows_next (fun kind _ => ?_) fun raw => follows_pure rfl
  split <;> exact follows_pure rfl

/-- A `return` with its expressions. -/
theorem follows_returnStatement (hexpressions : Follows v (exprsSeen v) expressions expressions) :
    Follows v (Stmt.seen v) (returnStatement expressions) (returnStatement expressions) := by
  refine follows_here.bind fun place => follows_advance.bind fun _ => ?_
  refine follows_isBlockEnd.bind fun isEnd => (follows_isSign _).bind fun isSemicolon => ?_
  refine .join (follows_pure (exprsSeen_nil v).symm) hexpressions fun arguments => ?_
  refine (follows_acceptSign _).bind fun _ => ?_
  refine (follows_stmt place (by rw [StmtKind.seen])).bind fun statement => ?_
  exact follows_isBlockEnd.bind fun _ => .ite (follows_pure rfl) (follows_unexpected fun _ => rfl)

/-- A `local` statement with its names and values. -/
theorem follows_localStatement (bound : Nat)
    (hexpressions : Follows v (exprsSeen v) expressions expressions) (place : Position) :
    Follows v (Stmt.seen v) (localStatement bound expressions place)
      (localStatement bound expressions (v.place place)) := by
  refine (follows_localNames bound).bind fun vars => (follows_acceptSign _).bind fun _ => ?_
  refine .join hexpressions (follows_pure (exprsSeen_nil v).symm) fun init => ?_
  refine follows_freshId.bind fun id => (follows_note (.declare id vars init)).bind fun _ => ?_
  refine (follows_spanFrom place).bind fun span => follows_pure ?_
  rw [Stmt.seen, StmtKind.seen]
  rfl

/-- A local function. -/
theorem follows_localFunction
    (hfunction : ∀ place isMethod, Follows v (FunctionBody.seen v) (function place isMethod)
      (function (v.place place) isMethod)) (place : Position) :
    Follows v (StmtKind.seen v) (localFunction function place)
      (localFunction function (v.place place)) := by
  refine follows_name.bind fun identifier => ?_
  refine (follows_note (.declareFunction identifier)).bind fun _ => ?_
  exact (hfunction place false).bind fun f => follows_pure (by rw [StmtKind.seen])

/-- A function statement. -/
theorem follows_functionStatement (bound : Nat)
    (hfunction : ∀ place isMethod, Follows v (FunctionBody.seen v) (function place isMethod)
      (function (v.place place) isMethod)) (place : Position) :
    Follows v (StmtKind.seen v) (functionStatement bound function place)
      (functionStatement bound function (v.place place)) := by
  refine (follows_functionTarget bound).bind fun target => ?_
  rw [FunctionTarget.isMethod_seen]
  exact (hfunction place target.isMethod).bind fun f => follows_pure (by rw [StmtKind.seen])

/-- A clause of a conditional. -/
theorem follows_clause (hexpression : Follows v (Expr.seen v) expression expression)
    (hblock : Follows v (blockSeen v) block block) (place : Position) :
    Follows v (Clause.seen v) (clause expression block place)
      (clause expression block (v.place place)) := by
  refine hexpression.bind fun condition => (follows_expectWord _).bind fun _ => ?_
  refine (follows_innerBlock hblock).bind fun body => ?_
  exact follows_build place fun _ _ => by rw [Clause.seen]

/-- The clauses of a conditional behind the first. -/
theorem follows_clauses (hexpression : Follows v (Expr.seen v) expression expression)
    (hblock : Follows v (blockSeen v) block block) (bound : Nat) :
    Follows v (Prod.map (clausesSeen v) (elseSeen v)) (clauses expression block bound)
      (clauses expression block bound) := by
  induction bound with
  | zero => exact follows_exhausted
  | succ bound ih =>
    refine follows_here.bind fun place => (follows_acceptWord _).bind fun _ => .ite ?_ ?_
    · refine (follows_clause hexpression hblock place).bind fun next => ih.bind fun others => ?_
      exact follows_pure (by simp)
    · refine (follows_acceptWord _).bind fun _ => .ite ?_ (follows_pure ?_)
      · refine (follows_innerBlock hblock).bind fun body => ?_
        exact follows_build place fun _ _ => by simp
      · simp

/-- A conditional. -/
theorem follows_conditional (bound : Nat)
    (hexpression : Follows v (Expr.seen v) expression expression)
    (hblock : Follows v (blockSeen v) block block) :
    Follows v (StmtKind.seen v) (conditional bound expression block)
      (conditional bound expression block) := by
  refine follows_here.bind fun place => follows_advance.bind fun _ => ?_
  refine (follows_clause hexpression hblock place).bind fun first => ?_
  refine (follows_clauses hexpression hblock bound).bind fun others => ?_
  exact (follows_expectWord _).bind fun _ => follows_pure (by rw [StmtKind.seen])

theorem follows_whileLoop (hexpression : Follows v (Expr.seen v) expression expression)
    (hblock : Follows v (blockSeen v) block block) :
    Follows v (StmtKind.seen v) (whileLoop expression block) (whileLoop expression block) := by
  refine follows_advance.bind fun _ => hexpression.bind fun condition => ?_
  refine (follows_expectWord _).bind fun _ => (follows_innerBlock hblock).bind fun body => ?_
  exact (follows_expectWord _).bind fun _ => follows_pure (by rw [StmtKind.seen])

theorem follows_repeatLoop (hexpression : Follows v (Expr.seen v) expression expression)
    (hblock : Follows v (blockSeen v) block block) :
    Follows v (StmtKind.seen v) (repeatLoop expression block) (repeatLoop expression block) := by
  refine follows_advance.bind fun _ => (follows_note _).bind fun _ => hblock.bind fun body => ?_
  refine (follows_expectWord _).bind fun _ => hexpression.bind fun condition => ?_
  exact (follows_note _).bind fun _ => follows_pure (by rw [StmtKind.seen])

theorem follows_blockStatement (hblock : Follows v (blockSeen v) block block) :
    Follows v (StmtKind.seen v) (blockStatement block) (blockStatement block) := by
  refine follows_advance.bind fun _ => (follows_innerBlock hblock).bind fun body => ?_
  exact (follows_expectWord _).bind fun _ => follows_pure (by rw [StmtKind.seen])

theorem follows_step (hexpression : Follows v (Expr.seen v) expression expression) :
    Follows v (stepSeen v) (some <$> expression) (some <$> expression) := by
  rw [map_eq_pure_bind]
  exact hexpression.bind fun e => follows_pure (by rw [stepSeen])

/-- Both kinds of `for` loops. -/
theorem follows_forLoop (bound : Nat) (hexpression : Follows v (Expr.seen v) expression expression)
    (hexpressions : Follows v (exprsSeen v) expressions expressions)
    (hblock : Follows v (blockSeen v) block block) :
    Follows v (StmtKind.seen v) (forLoop bound expression expressions block)
      (forLoop bound expression expressions block) := by
  refine follows_advance.bind fun _ => follows_name.bind fun first => ?_
  refine (follows_acceptSign _).bind fun _ => .ite ?_ ?_
  · refine hexpression.bind fun start => (follows_expectSign _).bind fun _ => ?_
    refine hexpression.bind fun stop => (follows_acceptSign _).bind fun _ => ?_
    refine .join (follows_step hexpression) (follows_pure (by rw [stepSeen])) fun step => ?_
    refine (follows_loopBody [first] hblock).bind fun body => ?_
    exact follows_pure (by rw [StmtKind.seen])
  · refine (follows_moreNames bound).bind fun others => (follows_expectWord _).bind fun _ => ?_
    refine hexpressions.bind fun iterators => ?_
    refine (follows_loopBody (first :: others) hblock).bind fun body => ?_
    exact follows_pure (by rw [StmtKind.seen]; rfl)

theorem follows_moreTargets (hsuffixed : Follows v (Expr.seen v) suffixed suffixed) (bound : Nat) :
    Follows v (exprsSeen v) (moreTargets suffixed bound) (moreTargets suffixed bound) := by
  induction bound with
  | zero => exact follows_exhausted
  | succ bound ih =>
    refine (follows_acceptSign _).bind fun _ => .ite ?_ (follows_pure (exprsSeen_nil v).symm)
    exact hsuffixed.bind fun next => ih.bind fun others => follows_pure (by rw [exprsSeen])

/-- Whether an expression can be assigned to is the same through a view. -/
theorem follows_checkTargets (targets : List Expr) :
    Follows v id (checkTargets targets) (checkTargets (exprsSeen v targets)) := by
  have hfind : (exprsSeen v targets).find? (!·.isAssignable) =
      (targets.find? (!·.isAssignable)).map (Expr.seen v) := by
    induction targets with
    | nil => rw [exprsSeen_nil]; rfl
    | cons first rest ih =>
      rw [exprsSeen, List.find?_cons, List.find?_cons, Expr.isAssignable_seen, ih]
      split <;> rfl
  unfold checkTargets
  rw [hfind]
  cases targets.find? (!·.isAssignable) with
  | none => exact follows_pure rfl
  | some target =>
    have hfail := follows_failAt (v := v) (f := @id Unit) .notAssignable target.span.start
    rw [Option.map_some, Expr.seen_eq]
    exact hfail

/-- A call as a statement, or an assignment. -/
theorem follows_expressionStatement (bound : Nat)
    (hsuffixed : Follows v (Expr.seen v) suffixed suffixed)
    (hexpressions : Follows v (exprsSeen v) expressions expressions) :
    Follows v (StmtKind.seen v) (expressionStatement bound suffixed expressions)
      (expressionStatement bound suffixed expressions) := by
  refine hsuffixed.bind fun first => (follows_isSign _).bind fun _ => ?_
  refine (follows_isSign _).bind fun _ => .ite ?_ ?_
  · refine (follows_moreTargets hsuffixed bound).bind fun others => ?_
    rw [← exprsSeen]
    refine (follows_checkTargets _).bind fun _ => (follows_expectSign _).bind fun _ => ?_
    exact hexpressions.bind fun init => follows_pure (by rw [StmtKind.seen])
  · rw [Expr.isCall_seen]
    refine .ite (follows_pure (by rw [StmtKind.seen])) ?_
    rw [Expr.seen_eq]
    exact follows_failAt _ _

theorem follows_gotoStatement : Follows v (StmtKind.seen v) gotoStatement gotoStatement :=
  follows_advance.bind fun _ => follows_name.bind fun _ => follows_pure (by rw [StmtKind.seen])

theorem follows_labelStatement : Follows v (StmtKind.seen v) labelStatement labelStatement :=
  follows_advance.bind fun _ => follows_name.bind fun _ => (follows_expectSign _).bind fun _ =>
    follows_pure (by rw [StmtKind.seen])

/-! ## Expressions -/

/-- Two tokens tell whether a field has a name, and no view changes them. -/
theorem follows_isNamedField : Follows v id isNamedField isNamedField := by
  refine follows_next (fun kind _ => ?_) fun raw => follows_pure rfl
  split
  next =>
    refine follows_get.bind ?_
    rintro ⟨current, rest, ending, previousEnd, nextId, events⟩
    cases rest with
    | cons next rest => exact follows_pure (Kind.seen_beq fun _ => Kind.noConfusion)
    | nil =>
      cases ending with
      | some fault => exact follows_failAt (.lexical fault.fault) fault.position
      | none => exact follows_pure rfl
  next => exact follows_pure rfl

/-- A field with a name, with a key or with neither. -/
theorem follows_fieldKind (hexpression : Follows v (Expr.seen v) expression expression) :
    Follows v (FieldKind.seen v) (fieldKind expression) (fieldKind expression) := by
  refine (follows_acceptSign _).bind fun _ => .ite ?_ ?_
  · refine hexpression.bind fun key => (follows_expectSign _).bind fun _ => ?_
    refine (follows_expectSign _).bind fun _ => hexpression.bind fun value => ?_
    exact follows_pure (by rw [FieldKind.seen])
  · refine follows_isNamedField.bind fun _ => .ite ?_ ?_
    · refine follows_name.bind fun key => (follows_expectSign _).bind fun _ => ?_
      exact hexpression.bind fun value => follows_pure (by rw [FieldKind.seen])
    · exact hexpression.bind fun value => follows_pure (by rw [FieldKind.seen])

theorem follows_field (hexpression : Follows v (Expr.seen v) expression expression) :
    Follows v (Field.seen v) (field expression) (field expression) := by
  refine follows_here.bind fun place => (follows_fieldKind hexpression).bind fun kind => ?_
  exact follows_build place fun _ _ => rfl

/-- The fields of a table. -/
theorem follows_fields (hexpression : Follows v (Expr.seen v) expression expression) (bound : Nat) :
    Follows v (fieldsSeen v) (fields expression bound) (fields expression bound) := by
  induction bound with
  | zero => exact follows_exhausted
  | succ bound ih =>
    refine (follows_isSign _).bind fun _ => .ite (follows_pure (by rw [fieldsSeen])) ?_
    refine (follows_field hexpression).bind fun first => ?_
    have hmore : Follows v (fieldsSeen v) (do return first :: (← fields expression bound))
        (do return first.seen v :: (← fields expression bound)) :=
      ih.bind fun others => follows_pure (fieldsSeen_cons v first others).symm
    refine (follows_acceptSign _).bind fun _ => .ite hmore ?_
    refine (follows_acceptSign _).bind fun _ => .ite hmore (follows_pure ?_)
    rw [fieldsSeen_cons, fieldsSeen]

theorem follows_table (bound : Nat) (hexpression : Follows v (Expr.seen v) expression expression) :
    Follows v (Expr.seen v) (Parser.table bound expression) (Parser.table bound expression) := by
  refine follows_here.bind fun place => (follows_expectSign _).bind fun _ => ?_
  refine (follows_fields hexpression bound).bind fun items => ?_
  refine (follows_expectSign _).bind fun _ => ?_
  exact follows_expr place (by rw [ExprKind.seen])

/-- A call with arguments of one of the three kinds. -/
theorem follows_callOf (hexpressions : Follows v (exprsSeen v) expressions expressions)
    (htable : Follows v (Expr.seen v) table table) (base : Expr) :
    Follows v (ExprKind.seen v) (callOf expressions table base)
      (callOf expressions table (base.seen v)) := by
  have hstring (raw : String) : Follows v (ExprKind.seen v)
      (do
        let token ← advance
        return .call base .string [⟨← freshId, token.span, .string raw⟩])
      (do
        let token ← advance
        return .call (base.seen v) .string [⟨← freshId, token.span, .string (v.text raw)⟩]) := by
    refine follows_advance.bind fun token => follows_freshId.bind fun id => follows_pure ?_
    simp [Token.seen]
  refine follows_next (fun kind hsame => ?_) hstring
  split
  · refine follows_advance.bind fun _ => (follows_isSign _).bind fun _ => ?_
    refine .join (follows_pure (exprsSeen_nil v).symm) hexpressions fun arguments => ?_
    exact (follows_expectSign _).bind fun _ => follows_pure (by rw [ExprKind.seen])
  · exact htable.bind fun argument => follows_pure (by simp)
  next raw =>
    have h := hstring raw
    rw [Kind.string.inj hsame] at h
    exact h
  · exact follows_unexpected fun _ => rfl

/-- A name, or an expression in parentheses, which gets a new span. -/
theorem follows_primary (hexpression : Follows v (Expr.seen v) expression expression) :
    Follows v (Expr.seen v) (primary expression) (primary expression) := by
  refine follows_here.bind fun place => ?_
  refine follows_next (fun kind _ => ?_) fun raw => follows_unexpected fun _ => rfl
  split
  · refine follows_name.bind fun identifier => (follows_note _).bind fun _ => ?_
    exact follows_pure (Identifier.seen_toExpr v identifier).symm
  · refine follows_advance.bind fun _ => hexpression.bind fun inner => ?_
    refine (follows_expectSign _).bind fun _ => (follows_spanFrom place).bind fun span => ?_
    exact follows_pure (by simp [Expr.seen_eq])
  · exact follows_unexpected fun _ => rfl

/-- A member, an index or a call behind an expression. -/
theorem follows_suffix {call : Expr → Parser ExprKind}
    (hexpression : Follows v (Expr.seen v) expression expression)
    (hcall : ∀ base, Follows v (ExprKind.seen v) (call base) (call (base.seen v)))
    (place : Position) (base : Expr) :
    Follows v (Option.map (Expr.seen v)) (suffix? expression call place base)
      (suffix? expression call (v.place place) (base.seen v)) := by
  have hcalled (callee : Expr) : Follows v (Option.map (Expr.seen v))
      (do return some (← expr place (← call callee)))
      (do return some (← expr (v.place place) (← call (callee.seen v)))) :=
    (hcall callee).bind fun kind => (follows_expr place rfl).bind fun e => follows_pure rfl
  refine follows_next (fun kind _ => ?_) fun raw => hcalled base
  split
  · refine follows_advance.bind fun _ => follows_name.bind fun identifier => ?_
    exact (follows_expr place (by rw [ExprKind.seen])).bind fun e => follows_pure rfl
  · refine follows_advance.bind fun _ => hexpression.bind fun index => ?_
    refine (follows_expectSign _).bind fun _ => ?_
    exact (follows_expr place (by rw [ExprKind.seen])).bind fun e => follows_pure rfl
  · refine follows_advance.bind fun _ => follows_name.bind fun identifier => ?_
    exact (follows_expr place (by rw [ExprKind.seen])).bind fun method => hcalled method
  · exact hcalled base
  · exact hcalled base
  · exact hcalled base
  · exact follows_pure rfl

/-- A token is a literal through a view if it is one. -/
theorem literal_seen (kind : Kind) :
    literal? (kind.seen v) = (literal? kind).map (ExprKind.seen v) := by
  cases kind with
  | string raw => simp [literal?, Kind.seen]
  | keyword word => cases word <;> simp [literal?, Kind.seen]
  | symbol sign => cases sign <;> simp [literal?, Kind.seen]
  | _ => simp [literal?, Kind.seen]

/-- A literal, a table, a function or a chain of suffixes. -/
theorem follows_simple (hsuffixed : Follows v (Expr.seen v) suffixed suffixed)
    (htable : Follows v (Expr.seen v) table table)
    (hfunction : ∀ place isMethod, Follows v (FunctionBody.seen v) (function place isMethod)
      (function (v.place place) isMethod)) :
    Follows v (Expr.seen v) (simple suffixed table function) (simple suffixed table function) := by
  refine follows_here.bind fun place => follows_peek.bind fun kind => ?_
  rw [literal_seen]
  cases hliteral : literal? kind with
  | some literal => exact follows_advance.bind fun _ => follows_expr place rfl
  | none =>
    rcases Kind.seen_cases v kind with heq | ⟨raw, rfl, -⟩
    · rw [heq, Option.map_none]
      dsimp only
      split
      · exact htable
      · refine follows_advance.bind fun _ => (hfunction place false).bind fun body => ?_
        exact follows_expr place (by rw [ExprKind.seen])
      · exact hsuffixed
    · cases hliteral

end Productions

/-! ## The recursion -/

/-- No view changes which operators stand before operands. -/
theorem unaryOperator_seen (kind : Kind) :
    UnaryOperator.ofToken? (kind.seen v) = UnaryOperator.ofToken? kind := by
  rcases Kind.seen_cases v kind with heq | ⟨raw, rfl, hstring⟩
  · rw [heq]
  · rfl

/-- No view changes which operators stand between operands. -/
theorem connective_seen (kind : Kind) :
    Connective.ofToken? (kind.seen v) = Connective.ofToken? kind := by
  rcases Kind.seen_cases v kind with heq | ⟨raw, rfl, hstring⟩
  · rw [heq]
  · rfl

/-- The productions with a bound follow themselves. -/
structure Natural (v : View) (bound : Nat) : Prop where
  block : Follows v (blockSeen v) (block bound) (block bound)
  statement : Follows v (Stmt.seen v) (statement bound) (statement bound)
  function : ∀ place isMethod, Follows v (FunctionBody.seen v)
    (Parser.function bound place isMethod) (Parser.function bound (v.place place) isMethod)
  expressions : Follows v (exprsSeen v) (expressions bound) (expressions bound)
  subexpression : ∀ limit,
    Follows v (Expr.seen v) (subexpression bound limit) (subexpression bound limit)
  operators : ∀ place limit left, Follows v (Expr.seen v) (operators bound place limit left)
    (operators bound (v.place place) limit (left.seen v))
  suffixed : Follows v (Expr.seen v) (suffixed bound) (suffixed bound)
  suffixes : ∀ place base, Follows v (Expr.seen v) (suffixes bound place base)
    (suffixes bound (v.place place) (base.seen v))

namespace Natural

variable {bound : Nat}

/-- Blocks, one level deeper. -/
theorem block_succ (ih : Natural v bound) :
    Follows v (blockSeen v) (Parser.block (bound + 1)) (Parser.block (bound + 1)) := by
  unfold Parser.block
  refine follows_isBlockEnd.bind fun _ => .ite (follows_pure (by rw [blockSeen])) ?_
  refine (follows_isWord _).bind fun _ => .ite ?_ ?_
  · refine (follows_returnStatement ih.expressions).bind fun statement => follows_pure ?_
    rw [blockSeen_cons, blockSeen]
  · refine (follows_acceptSign _).bind fun _ => .ite ih.block ?_
    refine ih.statement.bind fun first => ih.block.bind fun rest => follows_pure ?_
    rw [blockSeen_cons]

/-- Statements, one level deeper, each kind by its first token. -/
theorem statement_succ (ih : Natural v bound) :
    Follows v (Stmt.seen v) (Parser.statement (bound + 1)) (Parser.statement (bound + 1)) := by
  have hexpression := ih.subexpression 0
  unfold Parser.statement
  refine follows_here.bind fun place => ?_
  have hkind {p q : Parser StmtKind} (hp : Follows v (StmtKind.seen v) p q) :
      Follows v (Stmt.seen v) (do stmt place (← p)) (do stmt (v.place place) (← q)) :=
    hp.bind fun kind => follows_stmt place rfl
  have hother := hkind (follows_expressionStatement bound ih.suffixed ih.expressions)
  refine follows_next (fun kind _ => ?_) fun raw => hother
  split
  · refine follows_advance.bind fun _ => (follows_acceptWord _).bind fun _ => .ite ?_ ?_
    · exact hkind (follows_localFunction ih.function place)
    · exact follows_localStatement bound ih.expressions place
  · refine follows_advance.bind fun _ => ?_
    exact hkind (follows_functionStatement bound ih.function place)
  · exact hkind (follows_conditional bound hexpression ih.block)
  · exact hkind (follows_whileLoop hexpression ih.block)
  · exact hkind (follows_blockStatement ih.block)
  · exact hkind (follows_repeatLoop hexpression ih.block)
  · exact hkind (follows_forLoop bound hexpression ih.expressions ih.block)
  · exact follows_advance.bind fun _ => follows_stmt place (by rw [StmtKind.seen])
  · exact hkind follows_gotoStatement
  · exact hkind follows_labelStatement
  · exact hother

/-- Expressions parted by commas, one level deeper. -/
theorem expressions_succ (ih : Natural v bound) :
    Follows v (exprsSeen v) (Parser.expressions (bound + 1)) (Parser.expressions (bound + 1)) := by
  unfold Parser.expressions
  refine (ih.subexpression 0).bind fun first => (follows_acceptSign _).bind fun _ => .ite ?_ ?_
  · exact ih.expressions.bind fun rest => follows_pure (by rw [exprsSeen])
  · exact follows_pure (by rw [exprsSeen, exprsSeen])

/-- Operands with the operators between them, one level deeper. -/
theorem subexpression_succ (ih : Natural v bound) (limit : Nat) :
    Follows v (Expr.seen v) (Parser.subexpression (bound + 1) limit)
      (Parser.subexpression (bound + 1) limit) := by
  unfold Parser.subexpression
  refine follows_here.bind fun place => follows_peek.bind fun kind => ?_
  rw [unaryOperator_seen]
  split
  · refine follows_advance.bind fun _ => (ih.subexpression _).bind fun argument => ?_
    refine (follows_expr place (by rw [ExprKind.seen])).bind fun first => ?_
    exact ih.operators place limit first
  · refine (follows_simple ih.suffixed (follows_table bound (ih.subexpression 0))
      ih.function).bind fun first => ?_
    exact ih.operators place limit first

/-- The operators behind an operand, one level deeper. -/
theorem operators_succ (ih : Natural v bound) (place : Position) (limit : Nat) (left : Expr) :
    Follows v (Expr.seen v) (Parser.operators (bound + 1) place limit left)
      (Parser.operators (bound + 1) (v.place place) limit (left.seen v)) := by
  unfold Parser.operators
  refine follows_peek.bind fun kind => ?_
  rw [connective_seen]
  split
  next connective _ =>
    refine .ite (follows_pure rfl) (follows_advance.bind fun _ => ?_)
    refine (ih.subexpression _).bind fun right => ?_
    refine (follows_expr place (Connective.apply_seen ..).symm).bind fun next => ?_
    exact ih.operators place limit next
  next => exact follows_pure rfl

/-- The suffixes behind an expression, one level deeper. -/
theorem suffixes_succ (ih : Natural v bound) (place : Position) (base : Expr) :
    Follows v (Expr.seen v) (Parser.suffixes (bound + 1) place base)
      (Parser.suffixes (bound + 1) (v.place place) (base.seen v)) := by
  unfold Parser.suffixes
  have htable := follows_table bound (ih.subexpression 0)
  refine (follows_suffix (ih.subexpression 0) (follows_callOf ih.expressions htable) place
    base).bind fun next => ?_
  cases next with
  | some next => exact ih.suffixes place next
  | none => exact follows_pure rfl

end Natural

/-- **Every production follows itself.** -/
theorem natural (v : View) (bound : Nat) : Natural v bound := by
  induction bound with
  | zero =>
    exact ⟨follows_exhausted, follows_exhausted, fun _ _ => follows_exhausted, follows_exhausted,
      fun _ => follows_exhausted, fun _ _ _ => follows_exhausted, follows_exhausted,
      fun _ _ => follows_exhausted⟩
  | succ bound ih =>
    exact
      { block := ih.block_succ
        statement := ih.statement_succ
        function := follows_functionWith bound ih.block
        expressions := ih.expressions_succ
        subexpression := ih.subexpression_succ
        operators := ih.operators_succ
        suffixed := follows_here.bind fun place =>
          (follows_primary (ih.subexpression 0)).bind fun base => ih.suffixes place base
        suffixes := ih.suffixes_succ }

/-- A whole program, through a view that has its first place in common. -/
theorem follows_chunk (horigin : v.place Position.origin = Position.origin) (bound : Nat) :
    Follows v (Chunk.seen v) (chunk bound) (chunk bound) := by
  refine (follows_note _).bind fun _ => (natural v bound).block.bind fun body => ?_
  refine (follows_note _).bind fun _ => follows_get.bind fun s => ?_
  have hend : ((s.seen v).current.kind == .eof) = (s.current.kind == .eof) := Kind.seen_beq nofun
  rw [hend]
  refine .ite (follows_pure ?_) (follows_unexpected fun _ => rfl)
  rw [Chunk.seen, View.span_mk, horigin]
  rfl

end LuaCompiler.Parser
