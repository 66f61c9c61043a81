import LuaCompiler.Parser
import LuaCompiler.Proofs.Parser.Printer
import LuaCompiler.Proofs.Parser.Run
import LuaCompiler.Proofs.Token.Spelled

/-!
# Parsed trees are trees of the grammar

A parser before tokens that are spelled right gives trees of the grammar: names are names, a colon
stands only before the member that is called, a `return` only at the end of a block. `Gives p Q`
says that the values of `p` have the property `Q`.

* `shaped`: every production gives trees of the grammar, by induction on the bound.
* `shaped_of_parse`: so does parsing a text, whatever the text, and the events noted on the way are
  about names.
-/

namespace LuaCompiler

open Token (Kind)

/-- Names of which none is a reserved word. -/
def NamesValid (names : List Identifier) : Prop := ∀ n ∈ names, Name.isValid n.name = true

theorem NamesValid.cons {first : Identifier} {rest : List Identifier}
    (hfirst : Name.isValid first.name = true) (hrest : NamesValid rest) :
    NamesValid (first :: rest) :=
  List.forall_mem_cons.2 ⟨hfirst, hrest⟩

theorem namesValid_nil : NamesValid [] := List.forall_mem_nil _

/-- An event about names of which none is a reserved word. -/
def Scope.Event.IsNamed : Scope.Event → Prop
  | .enter _ | .leave => True
  | .parameters names | .declare _ names _ => NamesValid names
  | .declareFunction identifier => Name.isValid identifier.name = true
  | .reference _ name => Name.isValid name = true

namespace Parser

variable {α β : Type}

/-- The tokens that a parser has before it can stand in a text, and what it has noted is about
names. -/
structure State.Good (s : State) : Prop where
  current : Scan.Good s.current
  rest : ∀ token ∈ s.rest, Scan.Good token
  events : ∀ event ∈ s.events, event.IsNamed

/-- Noting an event about names keeps a state good. -/
theorem State.Good.note {s : State} (h : s.Good) {event : Scope.Event} (hevent : event.IsNamed) :
    State.Good { s with events := event :: s.events } :=
  ⟨h.current, h.rest, List.forall_mem_cons.2 ⟨hevent, h.events⟩⟩

/-- **The values of a parser have a property**, if the tokens before it can stand in a text. -/
def Gives (p : Parser α) (Q : α → Prop) : Prop :=
  ∀ s, s.Good → Post p s (fun a s' => Q a ∧ s'.Good) fun _ => True

section Steps

variable {P Q : α → Prop}

/-- What a parser gives is handed to the parser behind it. -/
theorem Gives.bind {p : Parser α} {g : α → Parser β} {R : β → Prop} (hp : Gives p P)
    (hg : ∀ a, P a → Gives (g a) R) : Gives (p >>= g) R := by
  intro s hs
  rw [post_bind]
  exact (hp s hs).imp fun a s' h => hg a h.1 s' h.2

/-- A property of the values may be weakened. -/
theorem Gives.imp {p : Parser α} (hp : Gives p P) (h : ∀ a, P a → Q a) : Gives p Q :=
  fun s hs => (hp s hs).imp fun a _ ha => ⟨h a ha.1, ha.2⟩

theorem gives_pure {a : α} (h : Q a) : Gives (pure a) Q := fun _ hs => ⟨h, hs⟩

theorem gives_failAt {fault : SyntaxFault} {place : Position} : Gives (failAt (α := α) fault place) Q :=
  fun _ _ => trivial

theorem gives_unexpected {fault : Kind → SyntaxFault} : Gives (unexpected (α := α) fault) Q :=
  fun _ _ => trivial

theorem gives_exhausted : Gives (exhausted (α := α)) Q := fun _ _ => trivial

theorem Gives.ite {c : Prop} [Decidable c] {p q : Parser α} (hp : c → Gives p Q)
    (hq : ¬ c → Gives q Q) : Gives (if c then p else q) Q := by
  split
  next h => exact hp h
  next h => exact hq h

/-- A scope is left whether its parser succeeds or fails. -/
theorem Gives.leaving {p : Parser α} (hp : Gives p Q) : Gives (leaving p) Q := by
  intro s hs
  rw [post_leaving]
  exact (hp s hs).imp fun _ _ h => ⟨h.1, h.2.note trivial⟩

theorem gives_get : Gives get State.Good := fun _ hs => ⟨hs, hs⟩

/-- The token ahead is spelled right, or the text ends. -/
theorem gives_peek : Gives peek fun kind => kind.isSpelled = true ∨ kind = .eof :=
  fun _ hs => ⟨hs.current, hs⟩

theorem gives_here : Gives here fun _ => True := fun _ hs => ⟨trivial, hs⟩

theorem gives_freshId : Gives freshId fun _ => True :=
  fun _ hs => ⟨trivial, hs.current, hs.rest, hs.events⟩

theorem gives_spanFrom (start : Position) : Gives (spanFrom start) fun _ => True :=
  fun _ hs => ⟨trivial, hs⟩

theorem gives_note (event : Scope.Event) (h : event.IsNamed) : Gives (note event) fun _ => True :=
  fun _ hs => ⟨trivial, hs.note h⟩

theorem gives_isNext (kind : Kind) : Gives (isNext kind) fun _ => True :=
  fun _ hs => ⟨trivial, hs⟩

/-- A token that is read leaves the rest spelled right. -/
theorem gives_advance : Gives advance fun _ => True := by
  intro s hs
  unfold advance
  rw [post_bind, post_get]
  split
  next next rest hrest =>
    have hgood := hs.rest
    rw [hrest] at hgood
    exact ⟨trivial, hgood next List.mem_cons_self, fun t ht => hgood t (List.mem_cons_of_mem _ ht),
      hs.events⟩
  · trivial
  · exact ⟨trivial, hs.current, hs.rest, hs.events⟩

theorem gives_accept (kind : Kind) : Gives (accept kind) fun _ => True :=
  (gives_isNext kind).bind fun _ _ =>
    .ite (fun _ => gives_advance.bind fun _ _ => gives_pure trivial) fun _ => gives_pure trivial

theorem gives_expect (kind : Kind) : Gives (expect kind) fun _ => True :=
  (gives_isNext kind).bind fun _ _ =>
    .ite (fun _ => gives_advance.bind fun _ _ => gives_pure trivial) fun _ => gives_unexpected

theorem gives_acceptWord (word : Keyword) : Gives (acceptWord word) fun _ => True := gives_accept _

theorem gives_acceptSign (sign : Symbol) : Gives (acceptSign sign) fun _ => True := gives_accept _

theorem gives_expectWord (word : Keyword) : Gives (expectWord word) fun _ => True := gives_expect _

theorem gives_expectSign (sign : Symbol) : Gives (expectSign sign) fun _ => True := gives_expect _

/-- A node is as its kind. -/
theorem gives_expr {start : Position} {kind : ExprKind} {called : Bool} (h : kind.Shaped called) :
    Gives (expr start kind) (Expr.Shaped called) :=
  gives_freshId.bind fun _ _ => (gives_spanFrom start).bind fun _ _ =>
    gives_pure (by simpa [Expr.Shaped] using h)

/-- A statement is as its kind. -/
theorem gives_stmt {start : Position} (kind : StmtKind) (h : kind.Shaped) :
    Gives (stmt start kind) fun s => s.kind = kind ∧ s.kind.Shaped :=
  gives_freshId.bind fun _ _ => (gives_spanFrom start).bind fun _ _ => gives_pure ⟨rfl, h⟩

end Steps

/-! ## Names -/

/-- A name that is read is a name. -/
theorem gives_name : Gives name fun identifier => Name.isValid identifier.name = true := by
  refine gives_peek.bind fun kind hkind => ?_
  split
  · refine gives_advance.bind fun _ _ => gives_freshId.bind fun _ _ => gives_pure ?_
    rcases hkind with hkind | hkind
    · exact Name.isValid_of_isSpelled hkind
    · cases hkind
  · exact gives_unexpected

theorem gives_attributeMark : Gives attributeMark fun _ => True :=
  (gives_acceptSign _).bind fun _ _ => .ite
    (fun _ => gives_name.bind fun _ _ => gives_expectSign _) fun _ => gives_pure trivial

/-- The names behind `local` are names, and there is one. -/
theorem gives_localNames (bound : Nat) :
    Gives (localNames bound) fun vars => vars ≠ [] ∧ NamesValid vars := by
  induction bound with
  | zero => exact gives_exhausted
  | succ bound ih =>
    refine gives_name.bind fun first hfirst => gives_attributeMark.bind fun _ _ =>
      (gives_acceptSign _).bind fun _ _ => .ite (fun _ => ?_) fun _ => ?_
    · exact ih.bind fun rest hrest => gives_pure ⟨List.cons_ne_nil _ _, hrest.2.cons hfirst⟩
    · exact gives_pure ⟨List.cons_ne_nil _ _, namesValid_nil.cons hfirst⟩

theorem gives_moreNames (bound : Nat) : Gives (moreNames bound) NamesValid := by
  induction bound with
  | zero => exact gives_exhausted
  | succ bound ih =>
    refine (gives_acceptSign _).bind fun _ _ => .ite (fun _ => ?_) fun _ => ?_
    · exact gives_name.bind fun first hfirst => ih.bind fun rest hrest =>
        gives_pure (hrest.cons hfirst)
    · exact gives_pure namesValid_nil

/-- The parameters of a function are names. -/
theorem gives_parameterNames (bound : Nat) :
    Gives (parameterNames bound) fun read => NamesValid read.1 := by
  induction bound with
  | zero => exact gives_exhausted
  | succ bound ih =>
    refine (gives_acceptSign _).bind fun _ _ => .ite (fun _ => gives_pure namesValid_nil) fun _ => ?_
    refine gives_name.bind fun first hfirst => (gives_acceptSign _).bind fun _ _ =>
      .ite (fun _ => ?_) fun _ => gives_pure (namesValid_nil.cons hfirst)
    exact ih.bind fun read hread => gives_pure (hread.cons hfirst)

theorem gives_parameters (bound : Nat) :
    Gives (parameters bound) fun read => NamesValid read.1 :=
  (gives_isNext _).bind fun _ _ =>
    .ite (fun _ => gives_pure namesValid_nil) fun _ => gives_parameterNames bound

theorem gives_indexer : Gives indexer? fun _ => True :=
  gives_peek.bind fun kind _ => by split <;> exact gives_pure trivial

/-- A target that members can follow: a chain of names. -/
def IsChainTarget (target : FunctionTarget) : Prop :=
  target.Shaped ∧ target.toExpr.isChain = true ∧ target.toExpr.Shaped false

/-- A function's target goes on with members, the last of which may stand behind a colon. -/
theorem gives_targetMembers (bound : Nat) {target : FunctionTarget} (h : IsChainTarget target) :
    Gives (targetMembers bound target) FunctionTarget.Shaped := by
  induction bound generalizing target with
  | zero => exact gives_exhausted
  | succ bound ih =>
    refine gives_indexer.bind fun sign _ => ?_
    cases sign with
    | none => exact gives_pure h.1
    | some sign =>
      refine gives_advance.bind fun _ _ => gives_name.bind fun identifier hname =>
        gives_freshId.bind fun id _ => ?_
      obtain ⟨-, hchain, hshaped⟩ := h
      cases sign with
      | colon => exact gives_pure ⟨hchain, hshaped, hname⟩
      | dot =>
        refine ih ⟨⟨hchain, hshaped, hname⟩, ?_, ?_⟩
        · simpa [FunctionTarget.toExpr, Expr.isChain, Expr.isChainKind] using hchain
        · simpa [FunctionTarget.toExpr, Expr.Shaped, ExprKind.Shaped] using ⟨hshaped, hname⟩

/-- The target of a function statement is a name or a chain of members. -/
theorem gives_functionTarget (bound : Nat) :
    Gives (functionTarget bound) FunctionTarget.Shaped := by
  refine gives_name.bind fun root hroot => (gives_note (.reference root.id root.name) hroot).bind fun _ _ =>
    gives_targetMembers bound ⟨hroot, ?_, ?_⟩
  · simp [FunctionTarget.toExpr, Identifier.toExpr, Expr.isChain, Expr.isChainKind]
  · simpa [FunctionTarget.toExpr, Identifier.toExpr, Expr.Shaped, ExprKind.Shaped] using hroot

/-! ## Productions without recursion of their own -/

/-- What may not be called may be called as well. -/
theorem shaped_called {e : Expr} (h : e.Shaped false) : e.Shaped true := by
  obtain ⟨id, span, kind⟩ := e
  cases kind with
  | member base indexer identifier =>
    obtain ⟨hbase, -, hname⟩ := h
    exact ⟨hbase, fun _ => rfl, hname⟩
  | _ => exact h

/-- Some expressions, at least one. -/
def ExprsGiven (es : List Expr) : Prop := es ≠ [] ∧ ExprsShaped es

section Productions

variable {block : Parser (List Stmt)} {expression suffixed table : Parser Expr}
  {expressions : Parser (List Expr)} {function : Position → Bool → Parser FunctionBody}

/-- A block with a scope of its own is a block. -/
theorem gives_innerBlock (hblock : Gives block BlockShaped) : Gives (innerBlock block) BlockShaped :=
  (gives_note (.enter false) trivial).bind fun _ _ => hblock.leaving

/-- The body of a loop is a block, whose variables are names. -/
theorem gives_loopBody {vars : List Identifier} (hvars : NamesValid vars)
    (hblock : Gives block BlockShaped) : Gives (loopBody vars block) BlockShaped :=
  (gives_expectWord _).bind fun _ _ => (gives_note (.enter false) trivial).bind fun _ _ =>
    (gives_note (.parameters vars) hvars).bind fun _ _ => hblock.leaving.bind fun _ hbody =>
      (gives_expectWord _).bind fun _ _ => gives_pure hbody

/-- A function has names for parameters and a block for its body. -/
theorem gives_functionWith (bound : Nat) (start : Position) (isMethod : Bool)
    (hblock : Gives block BlockShaped) :
    Gives (functionWith bound block start isMethod) FunctionBody.Shaped :=
  (gives_note (.enter isMethod) trivial).bind fun _ _ => (gives_expectSign _).bind fun _ _ =>
    (gives_parameters bound).bind fun read hnames => (gives_expectSign _).bind fun _ _ =>
    (gives_note (.parameters read.1) hnames).bind fun _ _ => hblock.leaving.bind fun _ hbody =>
    (gives_expectWord _).bind fun _ _ => gives_freshId.bind fun _ _ =>
    (gives_spanFrom _).bind fun _ _ => gives_pure ⟨hnames, hbody⟩

theorem gives_isBlockEnd : Gives isBlockEnd fun _ => True :=
  gives_peek.bind fun kind _ => by split <;> exact gives_pure trivial

/-- A `return` gives expressions, and maybe none. -/
theorem gives_returnStatement (hexpressions : Gives expressions ExprsGiven) :
    Gives (returnStatement expressions) fun s => s.kind.Shaped := by
  refine gives_here.bind fun start _ => gives_advance.bind fun _ _ => gives_isBlockEnd.bind
    fun isEnd _ => (gives_isNext _).bind fun isSemicolon _ => ?_
  have hfinish (arguments : List Expr) (h : ExprsShaped arguments) :
      Gives (do
        let _ ← acceptSign .semicolon
        let statement ← stmt start (.return arguments)
        if ← isBlockEnd then return statement
        else unexpected (.expected (.keyword .end))) fun s => s.kind.Shaped :=
    (gives_acceptSign _).bind fun _ _ => (gives_stmt (.return arguments) h).bind fun _ hs =>
      gives_isBlockEnd.bind fun _ _ => .ite (fun _ => gives_pure hs.2) fun _ => gives_unexpected
  refine .ite (fun _ => ?_) fun _ => ?_
  · exact hfinish [] trivial
  · exact hexpressions.bind fun arguments h => hfinish arguments h.2

/-- A `local` statement declares names, and is no `return`. -/
theorem gives_localStatement (bound : Nat) (hexpressions : Gives expressions ExprsGiven)
    (start : Position) :
    Gives (localStatement bound expressions start)
      fun s => s.kind.Shaped ∧ s.kind.isReturn = false := by
  refine (gives_localNames bound).bind fun vars hvars => (gives_acceptSign _).bind fun _ _ => ?_
  have hfinish (init : List Expr) (h : ExprsShaped init) :
      Gives (do
        let id ← freshId
        note (.declare id vars init)
        return ⟨id, ← spanFrom start, .local vars init⟩)
        fun s : Stmt => s.kind.Shaped ∧ s.kind.isReturn = false :=
    gives_freshId.bind fun id _ => (gives_note (.declare id vars init) hvars.2).bind fun _ _ =>
      (gives_spanFrom _).bind fun _ _ => gives_pure ⟨⟨hvars.1, hvars.2, h⟩, rfl⟩
  refine .ite (fun _ => ?_) fun _ => ?_
  · exact hexpressions.bind fun init h => hfinish init h.2
  · exact hfinish [] trivial

/-- A statement other than `return`. -/
def GivesOther (p : Parser StmtKind) : Prop :=
  Gives p fun kind => kind.Shaped ∧ kind.isReturn = false

/-- A local function has a name. -/
theorem gives_localFunction
    (hfunction : ∀ start isMethod, Gives (function start isMethod) FunctionBody.Shaped)
    (start : Position) : GivesOther (localFunction function start) :=
  gives_name.bind fun name hname => (gives_note (.declareFunction name) hname).bind fun _ _ =>
    (hfunction start false).bind fun _ hf => gives_pure ⟨⟨hname, hf⟩, rfl⟩

/-- A function statement has a target. -/
theorem gives_functionStatement (bound : Nat)
    (hfunction : ∀ start isMethod, Gives (function start isMethod) FunctionBody.Shaped)
    (start : Position) : GivesOther (functionStatement bound function start) :=
  (gives_functionTarget bound).bind fun target htarget =>
    (hfunction start target.isMethod).bind fun _ hf => gives_pure ⟨⟨htarget, hf⟩, rfl⟩

/-- A clause has a condition and a block. -/
theorem gives_clause (hexpression : Gives expression (Expr.Shaped false))
    (hblock : Gives block BlockShaped) (start : Position) :
    Gives (clause expression block start) Clause.Shaped :=
  hexpression.bind fun _ hcondition => (gives_expectWord _).bind fun _ _ =>
    (gives_innerBlock hblock).bind fun _ hbody => gives_freshId.bind fun _ _ =>
    (gives_spanFrom _).bind fun _ _ => gives_pure ⟨hcondition, hbody⟩

/-- The clauses of a conditional, the last of which may have no condition. -/
theorem gives_clauses (hexpression : Gives expression (Expr.Shaped false))
    (hblock : Gives block BlockShaped) (bound : Nat) :
    Gives (clauses expression block bound)
      fun read => ClausesShaped read.1 ∧ ElseShaped read.2 := by
  induction bound with
  | zero => exact gives_exhausted
  | succ bound ih =>
    refine gives_here.bind fun start _ => (gives_acceptWord _).bind fun _ _ =>
      .ite (fun _ => ?_) fun _ => (gives_acceptWord _).bind fun _ _ =>
        .ite (fun _ => ?_) fun _ => gives_pure ⟨trivial, trivial⟩
    · exact (gives_clause hexpression hblock start).bind fun _ hclause =>
        ih.bind fun _ hread => gives_pure ⟨⟨hclause, hread.1⟩, hread.2⟩
    · exact (gives_innerBlock hblock).bind fun _ hbody => gives_freshId.bind fun _ _ =>
        (gives_spanFrom _).bind fun _ _ => gives_pure ⟨trivial, hbody⟩

theorem gives_conditional (bound : Nat) (hexpression : Gives expression (Expr.Shaped false))
    (hblock : Gives block BlockShaped) : GivesOther (conditional bound expression block) :=
  gives_here.bind fun start _ => gives_advance.bind fun _ _ =>
    (gives_clause hexpression hblock start).bind fun _ hfirst =>
    (gives_clauses hexpression hblock bound).bind fun _ hread =>
    (gives_expectWord _).bind fun _ _ => gives_pure ⟨⟨hfirst, hread.1, hread.2⟩, rfl⟩

theorem gives_whileLoop (hexpression : Gives expression (Expr.Shaped false))
    (hblock : Gives block BlockShaped) : GivesOther (whileLoop expression block) :=
  gives_advance.bind fun _ _ => hexpression.bind fun _ hcondition =>
    (gives_expectWord _).bind fun _ _ => (gives_innerBlock hblock).bind fun _ hbody =>
    (gives_expectWord _).bind fun _ _ => gives_pure ⟨⟨hcondition, hbody⟩, rfl⟩

theorem gives_repeatLoop (hexpression : Gives expression (Expr.Shaped false))
    (hblock : Gives block BlockShaped) : GivesOther (repeatLoop expression block) :=
  gives_advance.bind fun _ _ => (gives_note (.enter false) trivial).bind fun _ _ => hblock.bind fun _ hbody =>
    (gives_expectWord _).bind fun _ _ => hexpression.bind fun _ hcondition =>
    (gives_note .leave trivial).bind fun _ _ => gives_pure ⟨⟨hbody, hcondition⟩, rfl⟩

theorem gives_blockStatement (hblock : Gives block BlockShaped) :
    GivesOther (blockStatement block) :=
  gives_advance.bind fun _ _ => (gives_innerBlock hblock).bind fun _ hbody =>
    (gives_expectWord _).bind fun _ _ => gives_pure ⟨hbody, rfl⟩

/-- A loop over numbers has two or three bounds; a generic one has names and expressions. -/
theorem gives_forLoop (bound : Nat) (hexpression : Gives expression (Expr.Shaped false))
    (hexpressions : Gives expressions ExprsGiven) (hblock : Gives block BlockShaped) :
    GivesOther (forLoop bound expression expressions block) := by
  refine gives_advance.bind fun _ _ => gives_name.bind fun first hname =>
    (gives_acceptSign _).bind fun _ _ => .ite (fun _ => ?_) fun _ => ?_
  · refine hexpression.bind fun start hstart => (gives_expectSign _).bind fun _ _ =>
      hexpression.bind fun stop hstop => (gives_acceptSign _).bind fun _ _ => ?_
    have hfinish (step : Option Expr) (hstep : StepShaped step) :
        GivesOther (do return .forNumeric first start stop step (← loopBody [first] block)) :=
      (gives_loopBody (namesValid_nil.cons hname) hblock).bind fun _ hbody =>
        gives_pure ⟨⟨hname, hstart, hstop, hstep, hbody⟩, rfl⟩
    refine .ite (fun _ => ?_) fun _ => ?_
    · rw [map_eq_pure_bind, bind_assoc]
      exact hexpression.bind fun step hstep => hfinish (some step) hstep
    · exact hfinish none trivial
  · exact (gives_moreNames bound).bind fun vars hvars => (gives_expectWord _).bind fun _ _ =>
      hexpressions.bind fun _ hiterators => (gives_loopBody (hvars.cons hname) hblock).bind
        fun _ hbody => gives_pure
          ⟨⟨List.cons_ne_nil _ _, hvars.cons hname, hiterators.1, hiterators.2, hbody⟩, rfl⟩

theorem gives_moreTargets (hsuffixed : Gives suffixed (Expr.Shaped false)) (bound : Nat) :
    Gives (moreTargets suffixed bound) ExprsShaped := by
  induction bound with
  | zero => exact gives_exhausted
  | succ bound ih =>
    refine (gives_acceptSign _).bind fun _ _ => .ite (fun _ => ?_) fun _ => gives_pure trivial
    exact hsuffixed.bind fun _ hnext => ih.bind fun _ hrest => gives_pure ⟨hnext, hrest⟩

/-- Targets that pass the check can be assigned to. -/
theorem gives_checkTargets (targets : List Expr) :
    Gives (checkTargets targets) fun _ => ∀ target ∈ targets, target.isAssignable = true := by
  unfold checkTargets
  split
  · exact gives_failAt
  next hnone =>
    refine gives_pure fun target htarget => ?_
    have hnot := List.find?_eq_none.1 hnone target htarget
    simpa using hnot

/-- An expression as a statement is a call, or stands before an assignment. -/
theorem gives_expressionStatement (bound : Nat) (hsuffixed : Gives suffixed (Expr.Shaped false))
    (hexpressions : Gives expressions ExprsGiven) :
    GivesOther (expressionStatement bound suffixed expressions) := by
  refine hsuffixed.bind fun first hfirst => (gives_isNext _).bind fun _ _ =>
    (gives_isNext _).bind fun _ _ => .ite (fun _ => ?_) fun _ => .ite (fun hcall => ?_)
      fun _ => gives_failAt
  · exact (gives_moreTargets hsuffixed bound).bind fun rest hrest =>
      (gives_checkTargets (first :: rest)).bind fun _ hassignable =>
      (gives_expectSign _).bind fun _ _ => hexpressions.bind fun _ hinit =>
      gives_pure ⟨⟨List.cons_ne_nil _ _, hassignable, ⟨hfirst, hrest⟩, hinit.1, hinit.2⟩, rfl⟩
  · exact gives_pure ⟨⟨hcall, hfirst⟩, rfl⟩

theorem gives_gotoStatement : GivesOther gotoStatement :=
  gives_advance.bind fun _ _ => gives_name.bind fun _ hname => gives_pure ⟨hname, rfl⟩

theorem gives_labelStatement : GivesOther labelStatement :=
  gives_advance.bind fun _ _ => gives_name.bind fun _ hname => (gives_expectSign _).bind
    fun _ _ => gives_pure ⟨hname, rfl⟩

theorem gives_isNamedField : Gives isNamedField fun _ => True := by
  refine gives_peek.bind fun kind _ => ?_
  split
  · refine gives_get.bind fun state _ => ?_
    split
    · exact gives_pure trivial
    · exact gives_failAt
    · exact gives_pure trivial
  · exact gives_pure trivial

/-- A field has a name, a key or neither. -/
theorem gives_fieldKind (hexpression : Gives expression (Expr.Shaped false)) :
    Gives (fieldKind expression) FieldKind.Shaped := by
  refine (gives_acceptSign _).bind fun _ _ => .ite (fun _ => ?_) fun _ =>
    gives_isNamedField.bind fun _ _ => .ite (fun _ => ?_) fun _ => ?_
  · exact hexpression.bind fun _ hkey => (gives_expectSign _).bind fun _ _ =>
      (gives_expectSign _).bind fun _ _ => hexpression.bind fun _ hvalue =>
      gives_pure ⟨hkey, hvalue⟩
  · exact gives_name.bind fun _ hkey => (gives_expectSign _).bind fun _ _ =>
      hexpression.bind fun _ hvalue => gives_pure ⟨hkey, hvalue⟩
  · exact hexpression.bind fun _ hvalue => gives_pure hvalue

theorem fieldsShaped_cons {first : Field} {rest : List Field} (hfirst : first.kind.Shaped)
    (hrest : FieldsShaped rest) : FieldsShaped (first :: rest) := by
  cases first
  exact ⟨hfirst, hrest⟩

theorem gives_field (hexpression : Gives expression (Expr.Shaped false)) :
    Gives (field expression) fun f => f.kind.Shaped :=
  gives_here.bind fun _ _ => (gives_fieldKind hexpression).bind fun _ hkind =>
    gives_freshId.bind fun _ _ => (gives_spanFrom _).bind fun _ _ => gives_pure hkind

/-- The fields of a table, parted by commas or semicolons. -/
theorem gives_fields (hexpression : Gives expression (Expr.Shaped false)) (bound : Nat) :
    Gives (fields expression bound) FieldsShaped := by
  induction bound with
  | zero => exact gives_exhausted
  | succ bound ih =>
    refine (gives_isNext _).bind fun _ _ => .ite (fun _ => gives_pure trivial) fun _ =>
      (gives_field hexpression).bind fun first hfirst => (gives_acceptSign _).bind fun _ _ =>
        .ite (fun _ => ?_) fun _ => (gives_acceptSign _).bind fun _ _ =>
          .ite (fun _ => ?_) fun _ => gives_pure (fieldsShaped_cons hfirst trivial)
    · exact ih.bind fun _ hrest => gives_pure (fieldsShaped_cons hfirst hrest)
    · exact ih.bind fun _ hrest => gives_pure (fieldsShaped_cons hfirst hrest)

/-- A table constructor of the grammar. -/
def GivesTable (p : Parser Expr) : Prop :=
  Gives p fun e => e.Shaped false ∧ e.isTable = true

theorem gives_table (bound : Nat) (hexpression : Gives expression (Expr.Shaped false)) :
    GivesTable (Parser.table bound expression) :=
  gives_here.bind fun _ _ => (gives_expectSign _).bind fun _ _ =>
    (gives_fields hexpression bound).bind fun _ hfields => (gives_expectSign _).bind fun _ _ =>
    gives_freshId.bind fun _ _ => (gives_spanFrom _).bind fun _ _ => gives_pure ⟨hfields, rfl⟩

/-- A call is one of an expression, behind a colon maybe, with arguments of one of three kinds. -/
theorem gives_callOf {base : Expr} (hexpressions : Gives expressions ExprsGiven)
    (htable : GivesTable table) (hbase : base.Shaped true) :
    Gives (callOf expressions table base) (ExprKind.Shaped false) := by
  refine gives_peek.bind fun kind hkind => ?_
  split
  · refine gives_advance.bind fun _ _ => (gives_isNext _).bind fun _ _ => ?_
    have hfinish (arguments : List Expr) (h : ExprsShaped arguments) :
        Gives (do
          expectSign .rightParen
          return ExprKind.call base .arguments arguments) (ExprKind.Shaped false) :=
      (gives_expectSign _).bind fun _ _ => gives_pure ⟨hbase, rfl, h⟩
    refine .ite (fun _ => ?_) fun _ => ?_
    · exact hfinish [] trivial
    · exact hexpressions.bind fun arguments h => hfinish arguments h.2
  · exact htable.bind fun _ h => gives_pure ⟨hbase, h.2, h.1, trivial⟩
  · refine gives_advance.bind fun _ _ => gives_freshId.bind fun _ _ =>
      gives_pure ⟨hbase, rfl, ?_, trivial⟩
    rcases hkind with hkind | hkind
    · exact hkind
    · cases hkind
  · exact gives_unexpected

/-- A primary expression is a name, or any expression in parentheses. -/
theorem gives_primary (hexpression : Gives expression (Expr.Shaped false)) :
    Gives (primary expression) (Expr.Shaped false) := by
  refine gives_here.bind fun _ _ => gives_peek.bind fun kind _ => ?_
  split
  · exact gives_name.bind fun name hname =>
      (gives_note (.reference name.id name.name) hname).bind fun _ _ => gives_pure hname
  · refine gives_advance.bind fun _ _ => hexpression.bind fun inner hinner =>
      (gives_expectSign _).bind fun _ _ => (gives_spanFrom _).bind fun _ _ => gives_pure ?_
    obtain ⟨id, span, kind⟩ := inner
    exact hinner
  · exact gives_unexpected

/-- An expression with one suffix more: a member, an index or a call. -/
theorem gives_suffix {call : Expr → Parser ExprKind} {base : Expr}
    (hexpression : Gives expression (Expr.Shaped false))
    (hcall : ∀ base : Expr, base.Shaped true → Gives (call base) (ExprKind.Shaped false))
    (start : Position) (hbase : base.Shaped false) :
    Gives (suffix? expression call start base) fun next => ∀ e, next = some e → e.Shaped false := by
  have hsome {e : Expr} (he : e.Shaped false) :
      Gives (pure (some e)) fun next => ∀ e, next = some e → e.Shaped false :=
    gives_pure fun _ heq => Option.some.inj heq ▸ he
  -- a call of a base stands behind a colon and behind nothing
  have hcalled (callee : Expr) (h : callee.Shaped true) :
      Gives (do return some (← expr start (← call callee)))
        fun next => ∀ e, next = some e → e.Shaped false :=
    (hcall callee h).bind fun _ hkind => (gives_expr hkind).bind fun _ he => hsome he
  refine gives_peek.bind fun kind _ => ?_
  split
  · refine gives_advance.bind fun _ _ => gives_name.bind fun identifier hname => ?_
    have hkind : (ExprKind.member base .dot identifier).Shaped false :=
      ⟨hbase, fun h => absurd h (by decide), hname⟩
    exact (gives_expr hkind).bind fun _ he => hsome he
  · refine gives_advance.bind fun _ _ => hexpression.bind fun index hindex =>
      (gives_expectSign _).bind fun _ _ => ?_
    have hkind : (ExprKind.index base index).Shaped false := ⟨hbase, hindex⟩
    exact (gives_expr hkind).bind fun _ he => hsome he
  · refine gives_advance.bind fun _ _ => gives_name.bind fun identifier hname => ?_
    have hkind : (ExprKind.member base .colon identifier).Shaped true :=
      ⟨hbase, fun _ => rfl, hname⟩
    exact (gives_expr hkind).bind fun method hmethod => hcalled method hmethod
  · exact hcalled base (shaped_called hbase)
  · exact hcalled base (shaped_called hbase)
  · exact hcalled base (shaped_called hbase)
  · exact gives_pure fun e heq => absurd heq (Option.some_ne_none e).symm

/-- A literal is as its token is spelled. -/
theorem literal_shaped {kind : Kind} {literal : ExprKind}
    (hkind : kind.isSpelled = true ∨ kind = .eof) (h : literal? kind = some literal) :
    literal.Shaped false := by
  unfold literal? at h
  split at h
  next => cases h; trivial
  next => cases h; trivial
  next => cases h; trivial
  next => cases h; exact hkind.resolve_right fun heq => nomatch heq
  next => cases h; exact hkind.resolve_right fun heq => nomatch heq
  next => cases h; trivial
  next => cases h

/-- A simple expression is a literal, a table, a function or a chain of suffixes. -/
theorem gives_simple (hsuffixed : Gives suffixed (Expr.Shaped false)) (htable : GivesTable table)
    (hfunction : ∀ start isMethod, Gives (function start isMethod) FunctionBody.Shaped) :
    Gives (simple suffixed table function) (Expr.Shaped false) := by
  refine gives_here.bind fun start _ => gives_peek.bind fun kind hkind => ?_
  split
  next literal hliteral =>
    exact gives_advance.bind fun _ _ => gives_expr (literal_shaped hkind hliteral)
  next =>
    split
    · exact htable.imp fun _ h => h.1
    · exact gives_advance.bind fun _ _ => (hfunction start false).bind fun _ hf => gives_expr hf
    · exact hsuffixed

end Productions

/-! ## The recursion -/

/-- The productions with a bound give trees of the grammar. -/
structure Shaped (bound : Nat) : Prop where
  block : Gives (block bound) BlockShaped
  statement : Gives (statement bound) fun s => s.kind.Shaped ∧ s.kind.isReturn = false
  function : ∀ start isMethod, Gives (Parser.function bound start isMethod) FunctionBody.Shaped
  expressions : Gives (expressions bound) ExprsGiven
  subexpression : ∀ limit, Gives (subexpression bound limit) (Expr.Shaped false)
  operators : ∀ start limit (left : Expr), left.Shaped false →
    Gives (operators bound start limit left) (Expr.Shaped false)
  suffixed : Gives (suffixed bound) (Expr.Shaped false)
  suffixes : ∀ start (base : Expr), base.Shaped false →
    Gives (suffixes bound start base) (Expr.Shaped false)

namespace Shaped

variable {bound : Nat}

/-- A statement before a block, of which only the last may be a `return`. -/
theorem blockShaped_cons {first : Stmt} {rest : List Stmt} (hfirst : first.kind.Shaped)
    (hreturn : first.kind.isReturn = true → rest = []) (hrest : BlockShaped rest) :
    BlockShaped (first :: rest) := by
  cases first
  exact ⟨hfirst, hreturn, hrest⟩

/-- Blocks, one level deeper. -/
theorem block_succ (ih : Shaped bound) : Gives (Parser.block (bound + 1)) BlockShaped := by
  unfold Parser.block
  refine gives_isBlockEnd.bind fun _ _ => .ite (fun _ => gives_pure trivial) fun _ =>
    (gives_isNext _).bind fun _ _ => .ite (fun _ => ?_) fun _ =>
      (gives_acceptSign _).bind fun _ _ => .ite (fun _ => ih.block) fun _ => ?_
  · exact (gives_returnStatement ih.expressions).bind fun _ hs =>
      gives_pure (blockShaped_cons hs (fun _ => rfl) trivial)
  · refine ih.statement.bind fun first hfirst => ih.block.bind fun rest hrest =>
      gives_pure (blockShaped_cons hfirst.1 (fun hreturn => ?_) hrest)
    rw [hfirst.2] at hreturn
    cases hreturn

/-- Statements, one level deeper: none of them is a `return`. -/
theorem statement_succ (ih : Shaped bound) :
    Gives (Parser.statement (bound + 1)) fun s => s.kind.Shaped ∧ s.kind.isReturn = false := by
  have hexpression := ih.subexpression 0
  have hstmt {start : Position} {p : Parser StmtKind} (hp : GivesOther p) :
      Gives (do stmt start (← p)) fun s => s.kind.Shaped ∧ s.kind.isReturn = false :=
    hp.bind fun _ hkind => (gives_stmt _ hkind.1).imp fun _ hs => ⟨hs.2, hs.1 ▸ hkind.2⟩
  unfold Parser.statement
  refine gives_here.bind fun start _ => gives_peek.bind fun kind _ => ?_
  split
  · refine gives_advance.bind fun _ _ => (gives_acceptWord _).bind fun _ _ =>
      .ite (fun _ => ?_) fun _ => ?_
    · exact hstmt (gives_localFunction ih.function start)
    · exact gives_localStatement bound ih.expressions start
  · exact gives_advance.bind fun _ _ => hstmt (gives_functionStatement bound ih.function start)
  · exact hstmt (gives_conditional bound hexpression ih.block)
  · exact hstmt (gives_whileLoop hexpression ih.block)
  · exact hstmt (gives_blockStatement ih.block)
  · exact hstmt (gives_repeatLoop hexpression ih.block)
  · exact hstmt (gives_forLoop bound hexpression ih.expressions ih.block)
  · exact gives_advance.bind fun _ _ => (gives_stmt .break trivial).imp
      fun _ hs => ⟨hs.2, hs.1 ▸ rfl⟩
  · exact hstmt gives_gotoStatement
  · exact hstmt gives_labelStatement
  · exact hstmt (gives_expressionStatement bound ih.suffixed ih.expressions)

/-- Expressions parted by commas, one level deeper. -/
theorem expressions_succ (ih : Shaped bound) :
    Gives (Parser.expressions (bound + 1)) ExprsGiven := by
  unfold Parser.expressions
  refine (ih.subexpression 0).bind fun first hfirst => (gives_acceptSign _).bind fun _ _ =>
    .ite (fun _ => ?_) fun _ => gives_pure ⟨List.cons_ne_nil _ _, hfirst, trivial⟩
  exact ih.expressions.bind fun rest hrest => gives_pure ⟨List.cons_ne_nil _ _, hfirst, hrest.2⟩

/-- Operands with the operators between them, one level deeper. -/
theorem subexpression_succ (ih : Shaped bound) (limit : Nat) :
    Gives (Parser.subexpression (bound + 1) limit) (Expr.Shaped false) := by
  unfold Parser.subexpression
  refine gives_here.bind fun start _ => gives_peek.bind fun kind _ => ?_
  split
  next operator _ =>
    refine gives_advance.bind fun _ _ => (ih.subexpression _).bind fun argument hargument => ?_
    have hkind : (ExprKind.unary operator argument).Shaped false := hargument
    exact (gives_expr hkind).bind fun e he => ih.operators start limit e he
  · exact (gives_simple ih.suffixed (gives_table bound (ih.subexpression 0)) ih.function).bind
      fun first hfirst => ih.operators start limit first hfirst

/-- An operator put on two trees of the grammar. -/
theorem apply_shaped (connective : Connective) {left right : Expr} (hleft : left.Shaped false)
    (hright : right.Shaped false) : (connective.apply left right).Shaped false := by
  cases connective with
  | binary operator => exact ⟨hleft, hright⟩
  | logical operator => exact ⟨hleft, hright⟩

/-- The operators behind an operand, one level deeper. -/
theorem operators_succ (ih : Shaped bound) (start : Position) (limit : Nat) {left : Expr}
    (hleft : left.Shaped false) :
    Gives (Parser.operators (bound + 1) start limit left) (Expr.Shaped false) := by
  unfold Parser.operators
  refine gives_peek.bind fun kind _ => ?_
  split
  next connective _ =>
    refine .ite (fun _ => gives_pure hleft) fun _ => ?_
    exact gives_advance.bind fun _ _ => (ih.subexpression _).bind fun right hright =>
      (gives_expr (apply_shaped connective hleft hright)).bind
        fun e he => ih.operators start limit e he
  · exact gives_pure hleft

/-- The suffixes behind an expression, one level deeper. -/
theorem suffixes_succ (ih : Shaped bound) (start : Position) {base : Expr}
    (hbase : base.Shaped false) :
    Gives (Parser.suffixes (bound + 1) start base) (Expr.Shaped false) := by
  have htable := gives_table bound (ih.subexpression 0)
  unfold Parser.suffixes
  refine (gives_suffix (ih.subexpression 0)
    (fun _ h => gives_callOf ih.expressions htable h) start hbase).bind fun next hnext => ?_
  cases next with
  | some next => exact ih.suffixes start next (hnext next rfl)
  | none => exact gives_pure hbase

end Shaped

/-- **The productions give trees of the grammar**, whatever their bound. -/
theorem shaped (bound : Nat) : Shaped bound := by
  induction bound with
  | zero => exact ⟨gives_exhausted, gives_exhausted, fun _ _ => gives_exhausted, gives_exhausted,
      fun _ => gives_exhausted, fun _ _ _ _ => gives_exhausted, gives_exhausted,
      fun _ _ _ => gives_exhausted⟩
  | succ bound ih =>
    refine
      { block := ih.block_succ
        statement := ih.statement_succ
        function := fun start isMethod => ?_
        expressions := ih.expressions_succ
        subexpression := ih.subexpression_succ
        operators := fun start limit left h => ih.operators_succ start limit h
        suffixed := ?_
        suffixes := fun start base h => ih.suffixes_succ start h }
    · exact gives_functionWith bound start isMethod ih.block
    · exact gives_here.bind fun start _ => (gives_primary (ih.subexpression 0)).bind
        fun base hbase => ih.suffixes start base hbase

/-- **The body of a program is a block.** -/
theorem gives_chunk (bound : Nat) : Gives (chunk bound) fun c => BlockShaped c.body :=
  (gives_note (.enter false) trivial).bind fun _ _ => (shaped bound).block.bind fun _ hbody =>
    (gives_note .leave trivial).bind fun _ _ => gives_get.bind fun _ _ =>
    .ite (fun _ => gives_pure hbody) fun _ => gives_unexpected

end Parser

/-- **A parsed text is a tree of the grammar**, and all that was noted is about names. -/
theorem shaped_of_parse {text : String} {chunk : Chunk} (h : (parse text).result = .ok chunk) :
    BlockShaped chunk.body ∧ ∀ event ∈ (parse text).events, event.IsNamed := by
  have hgood := Scan.good_ofText text.toList
  unfold parse parseScan at h ⊢
  split at h
  · cases h
  · cases h
    exact ⟨trivial, List.forall_mem_nil _⟩
  next ending first rest htokens =>
    rw [htokens] at hgood
    have hgives := Parser.gives_chunk (depthBound (Scan.ofText text.toList).tokens.length)
      ⟨first, rest, (Scan.ofText text.toList).fault, Position.origin, 0, []⟩
      ⟨hgood first List.mem_cons_self, fun t ht => hgood t (List.mem_cons_of_mem _ ht),
        List.forall_mem_nil _⟩
    unfold Parser.Post at hgives
    dsimp only at h ⊢
    split at hgives
    next hrun =>
      rw [hrun] at h ⊢
      cases h
      exact ⟨hgives.1, fun event he => hgives.2.events event (List.mem_reverse.1 he)⟩
    next hrun =>
      rw [hrun] at h
      cases h

end LuaCompiler
