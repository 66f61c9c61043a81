import LuaCompiler.Proofs.Parser.Calls
import LuaCompiler.Proofs.Parser.Progress

/-!
# Descents make progress

A production takes its first token before it descends, or descends to a production of a lower rank, and
behind a token that it took it goes forward only. So a call rests on calls nearer to the end of the
text, and a descent that comes back to a production has taken a token.

* `LeadsTo`: the calls that a call may use, by tokens taken and by rank.
* `AlikeBelow.body`: **a call does what its body does over calls that are alike where the call leads.**
* `alike_of_body`: and so do calls and what is put for them, by induction on the way that is left.
* `Visit.Uses.leads`, `Visit.past_of_uses`: **a visit leads to those that it uses, and a visit to the
  production it came from is past a token.**
-/

namespace LuaCompiler

namespace Parser

variable {α β : Type} {s s' : State} {v : Probe}

/-! ## Productions without recursion of their own -/

section Rows

variable {block block' : Parser (List Stmt)} {expression expression' suffixed suffixed' : Parser Expr}
  {expressions expressions' : Parser (List Expr)}
  {function function' : Position → Bool → Parser FunctionBody}

/-- A block past a state asks for its statements there. -/
theorem after_innerBlock (hblock : After v s block block') :
    After v s (innerBlock block) (innerBlock block') :=
  (after_note _).bind fun _ => hblock.leaving

theorem after_loopBody (vars : List Identifier) (hblock : After v s block block') :
    After v s (loopBody vars block) (loopBody vars block') :=
  (after_expectWord _).bind fun _ => (after_note _).bind fun _ => (after_note _).bind fun _ =>
    hblock.leaving.bind fun _ => (after_expectWord _).bind fun _ => after_pure _

theorem after_parametersOver {names names' : Parser (List Identifier × Bool)}
    (hnames : After v s names names') :
    After v s (parametersOver names) (parametersOver names') :=
  (after_isNext _).bind fun _ => .ite (after_pure _) hnames

/-- A function reads its bracket before it asks for anything. -/
theorem alike_functionOver {names names' : Parser (List Identifier × Bool)} (start : Position)
    (isMethod : Bool) (hblock : After v s block block') (hnames : After v s names names') :
    Alike v (functionOver block names start isMethod) (functionOver block' names' start isMethod) s
      fun _ => Past s := by
  refine .note ?_
  -- the note changes nothing about the tokens
  have hpast {s' : State} (h : Past { s with events := .enter isMethod :: s.events } s') :
      Past s s' := ⟨h.ahead, h.ending⟩
  have hnoted {α : Type} {p q : Parser α} (h : After v s p q) :
      After v { s with events := .enter isMethod :: s.events } p q := fun s' h' => h s' (hpast h')
  refine ((alike_expectSign _).after fun _ => (after_parametersOver (hnoted hnames)).bind
    fun read => (after_expectSign _).bind fun _ => (after_note _).bind fun _ => ?_).imp
    fun _ _ _ h => hpast h
  exact (hnoted hblock).leaving.bind fun body => (after_expectWord _).bind fun _ =>
    after_build start _

/-- A `return` is read before its arguments. -/
theorem alike_returnStatement (hkind : s.current.kind ≠ .eof)
    (hexpressions : After v s expressions expressions') :
    Alike v (returnStatement expressions) (returnStatement expressions') s fun _ => Past s := by
  refine .here ((alike_advance hkind).after fun _ => after_isBlockEnd.bind fun _ =>
    (after_isNext _).bind fun _ => .join (after_pure []) hexpressions fun arguments => ?_)
  exact (after_acceptSign _).bind fun _ => (after_stmt _ _).bind fun _ => after_isBlockEnd.bind
    fun _ => .ite (after_pure _) (after_unexpected nofun)

/-- A `local` statement past its keyword asks for names and values. -/
theorem after_localStatementOver {names names' : Parser (List Identifier)} (start : Position)
    (hexpressions : After v s expressions expressions') (hnames : After v s names names') :
    After v s (localStatementOver expressions names start)
      (localStatementOver expressions' names' start) := by
  refine hnames.bind fun vars => (after_acceptSign _).bind fun _ => ?_
  refine .join hexpressions (after_pure []) fun init => ?_
  exact after_freshId.bind fun _ => (after_note _).bind fun _ => (after_spanFrom _).bind fun _ =>
    after_pure _

theorem after_localFunction
    (hfunction : ∀ start isMethod, After v s (function start isMethod) (function' start isMethod))
    (start : Position) : After v s (localFunction function start) (localFunction function' start) :=
  after_name.bind fun _ => (after_note _).bind fun _ => (hfunction start false).bind fun _ =>
    after_pure _

/-- A function statement past its keyword asks for the members of its target and for its function.
-/
theorem after_functionStatementOver {members members' : FunctionTarget → Parser FunctionTarget}
    (hfunction : ∀ start isMethod, After v s (function start isMethod) (function' start isMethod))
    (hmembers : ∀ target, After v s (members target) (members' target)) (start : Position) :
    After v s (functionStatementOver function members start)
      (functionStatementOver function' members' start) :=
  (after_name.bind fun _ => (after_note _).bind fun _ => hmembers _).bind fun _ =>
    (hfunction start _).bind fun _ => after_pure _

theorem after_clause (hexpression : After v s expression expression')
    (hblock : After v s block block') (start : Position) :
    After v s (clause expression block start) (clause expression' block' start) :=
  hexpression.bind fun _ => (after_expectWord _).bind fun _ => (after_innerBlock hblock).bind
    fun _ => after_build start _

/-- A conditional reads its keyword before its first condition. -/
theorem alike_conditionalOver {others others' : Parser (List Clause × Option ElseClause)}
    (hkind : s.current.kind ≠ .eof) (hexpression : After v s expression expression')
    (hblock : After v s block block') (hothers : After v s others others') :
    Alike v (conditionalOver block expression others) (conditionalOver block' expression' others') s
      fun _ => Past s :=
  .here ((alike_advance hkind).after fun _ => (after_clause hexpression hblock _).bind fun _ =>
    hothers.bind fun _ => (after_expectWord _).bind fun _ => after_pure _)

/-- A `while` loop reads its keyword before its condition. -/
theorem alike_whileLoop (hkind : s.current.kind ≠ .eof)
    (hexpression : After v s expression expression') (hblock : After v s block block') :
    Alike v (whileLoop expression block) (whileLoop expression' block') s fun _ => Past s :=
  (alike_advance hkind).after fun _ => hexpression.bind fun _ => (after_expectWord _).bind fun _ =>
    (after_innerBlock hblock).bind fun _ => (after_expectWord _).bind fun _ => after_pure _

/-- A `repeat` loop reads its keyword before its body. -/
theorem alike_repeatLoop (hkind : s.current.kind ≠ .eof)
    (hexpression : After v s expression expression') (hblock : After v s block block') :
    Alike v (repeatLoop expression block) (repeatLoop expression' block') s fun _ => Past s :=
  (alike_advance hkind).after fun _ => (after_note _).bind fun _ => hblock.bind fun _ =>
    (after_expectWord _).bind fun _ => hexpression.bind fun _ => (after_note _).bind fun _ =>
    after_pure _

/-- A block reads its keyword before its statements. -/
theorem alike_blockStatement (hkind : s.current.kind ≠ .eof) (hblock : After v s block block') :
    Alike v (blockStatement block) (blockStatement block') s fun _ => Past s :=
  (alike_advance hkind).after fun _ => (after_innerBlock hblock).bind fun _ =>
    (after_expectWord _).bind fun _ => after_pure _

/-- A `for` loop reads its keyword and its first name before anything else. -/
theorem alike_forLoopOver {names names' : Parser (List Identifier)} (hkind : s.current.kind ≠ .eof)
    (hexpression : After v s expression expression')
    (hexpressions : After v s expressions expressions') (hblock : After v s block block')
    (hnames : After v s names names') :
    Alike v (forLoopOver block expression expressions names)
      (forLoopOver block' expression' expressions' names') s fun _ => Past s := by
  refine (alike_advance hkind).after fun _ => after_name.bind fun first =>
    (after_acceptSign _).bind fun _ => .ite ?_ ?_
  · refine hexpression.bind fun start => (after_expectSign _).bind fun _ => hexpression.bind
      fun stop => (after_acceptSign _).bind fun _ => ?_
    have hstep : After v s (some <$> expression) (some <$> expression') := by
      rw [map_eq_pure_bind, map_eq_pure_bind]
      exact hexpression.bind fun _ => after_pure _
    exact .join hstep (after_pure none) fun _ => (after_loopBody _ hblock).bind fun _ =>
      after_pure _
  · exact hnames.bind fun _ => (after_expectWord _).bind fun _ => hexpressions.bind fun _ =>
      (after_loopBody _ hblock).bind fun _ => after_pure _

/-- Checking the targets reads nothing. -/
theorem after_checkTargets (targets : List Expr) :
    After v s (checkTargets targets) (checkTargets targets) := by
  intro s' _
  unfold checkTargets
  split
  · exact alike_failAt .notAssignable nofun _
  · exact .pure trivial

/-- A call or an assignment reads an expression first, which takes a token. -/
theorem alike_expressionStatementOver {others others' : Parser (List Expr)}
    (hsuffixed : Alike v suffixed suffixed' s fun _ => Past s)
    (hexpressions : After v s expressions expressions') (hothers : After v s others others') :
    Alike v (expressionStatementOver suffixed expressions others)
      (expressionStatementOver suffixed' expressions' others') s fun _ => Past s := by
  refine hsuffixed.after fun first => (after_isNext _).bind fun _ => (after_isNext _).bind
    fun _ => .ite ?_ (.ite (after_pure _) fun _ _ => alike_failAt .notStatement nofun _)
  exact hothers.bind fun _ => (after_checkTargets _).bind fun _ => (after_expectSign _).bind
    fun _ => hexpressions.bind fun _ => after_pure _

theorem alike_gotoStatement (hkind : s.current.kind ≠ .eof) :
    Alike v gotoStatement gotoStatement s fun _ => Past s :=
  (alike_advance hkind).after fun _ => after_name.bind fun _ => after_pure _

theorem alike_labelStatement (hkind : s.current.kind ≠ .eof) :
    Alike v labelStatement labelStatement s fun _ => Past s :=
  (alike_advance hkind).after fun _ => after_name.bind fun _ => (after_expectSign _).bind fun _ =>
    after_pure _

/-- Looking behind a name takes nothing, and does not look behind the end of the text. -/
theorem Alike.isNamedField {f g : Bool → Parser α} {Q : α → State → Prop}
    (h : ∀ isNamed, Alike v (f isNamed) (g isNamed) s Q) :
    Alike v (Parser.isNamedField >>= f) (Parser.isNamedField >>= g) s Q := by
  have hsame : Alike v Parser.isNamedField Parser.isNamedField s fun _ s' => s' = s := by
    refine .peek ?_
    split
    next word heq =>
      intro hs
      have hending := hs.ending_ne_none (by simp [heq])
      obtain ⟨current, rest, ending, previousEnd, nextId, events⟩ := s
      cases rest with
      | cons next rest => exact ⟨rfl, Forward.refl _, rfl⟩
      | nil =>
        -- behind a name there is a token or a fault
        cases ending with
        | none => exact absurd rfl (hending rfl)
        | some fault => exact ⟨rfl, fun heq => nomatch heq⟩
    next => exact .pure rfl
  exact hsame.bind fun isNamed s' _ heq => heq ▸ h isNamed

/-- A field asks for its value where it starts, or past its key. -/
theorem alike_field (hnow : Alike v expression expression' s fun _ => Past s)
    (hexpression : After v s expression expression') :
    Alike v (field expression) (field expression') s fun _ => Past s := by
  have hkind : Alike v (fieldKind expression) (fieldKind expression') s fun _ => Past s := by
    refine .acceptSign (fun s' hpast => ?_) (.isNamedField fun _ => .ite ?_ ?_)
    · exact (hexpression.bind fun _ => (after_expectSign _).bind fun _ => (after_expectSign _).bind
        fun _ => hexpression.bind fun _ => after_pure _).past hpast
    · exact alike_name.after fun _ => (after_expectSign _).bind fun _ => hexpression.bind fun _ =>
        after_pure _
    · exact hnow.after fun _ => after_pure _
  exact .here (hkind.after fun kind => after_build _ fun id span => Field.mk id span kind)

/-- A table reads its brace before its fields. -/
theorem alike_tableOver {items items' : Parser (List Field)} (hitems : After v s items items') :
    Alike v (tableOver items) (tableOver items') s fun _ => Past s :=
  .here ((alike_expectSign _).after fun _ => hitems.bind fun _ => (after_expectSign _).bind
    fun _ => after_expr _ _)

/-- A call reads the sign of its arguments before they are asked for. -/
theorem alike_callOf {items items' : Parser (List Field)}
    (hexpressions : After v s expressions expressions') (hitems : After v s items items')
    (base : Expr) : Alike v (callOf expressions (tableOver items) base)
      (callOf expressions' (tableOver items') base) s fun _ => Past s := by
  refine .peek ?_
  split
  next heq =>
    refine (alike_advance (by simp [heq])).after fun _ => (after_isNext _).bind fun _ => ?_
    exact .join (after_pure []) hexpressions fun _ => (after_expectSign _).bind fun _ => after_pure _
  next => exact (alike_tableOver hitems).after fun _ => after_pure _
  next raw heq =>
    exact (alike_advance (by simp [heq])).after fun _ => after_freshId.bind fun _ => after_pure _
  next => exact alike_unexpected nofun

/-- A bracketed expression is asked for past the bracket. -/
theorem alike_primary (hexpression : After v s expression expression') :
    Alike v (primary expression) (primary expression') s fun _ => Past s := by
  refine .here (.peek ?_)
  split
  next => exact alike_name.after fun _ => (after_note _).bind fun _ => after_pure _
  next heq =>
    exact (alike_advance (by simp [heq])).after fun _ => hexpression.bind fun _ =>
      (after_expectSign _).bind fun _ => (after_spanFrom _).bind fun _ => after_pure _
  next => exact alike_unexpected nofun

/-- A suffix that is read was taken. -/
theorem alike_suffix {items items' : Parser (List Field)}
    (hexpression : After v s expression expression')
    (hexpressions : After v s expressions expressions') (hitems : After v s items items')
    (start : Position) (base : Expr) :
    Alike v (suffix? expression (callOf expressions (tableOver items)) start base)
      (suffix? expression' (callOf expressions' (tableOver items')) start base) s
      fun next s' => next.isSome = true → Past s s' := by
  have hbuilt (kind : ExprKind) : After v s (do return some (← expr start kind))
      (do return some (← expr start kind)) :=
    (after_expr start kind).bind fun _ => after_pure _
  -- the name of a method is read before its arguments, so they may call on more
  have hcall (base : Expr) : After v s (callOf expressions (tableOver items) base)
      (callOf expressions' (tableOver items') base) := fun s' hpast =>
    (alike_callOf (hexpressions.mono hpast) (hitems.mono hpast) base).any
  -- arguments are the only part that is read at once, without a token before it
  have hcalled : Alike v
      (do return some (← expr start (← callOf expressions (tableOver items) base)))
      (do return some (← expr start (← callOf expressions' (tableOver items') base))) s
      fun next s' => next.isSome = true → Past s s' :=
    ((alike_callOf hexpressions hitems base).after hbuilt).whenever
  refine .peek ?_
  split
  next heq =>
    exact ((alike_advance (by simp [heq])).after fun _ => after_name.bind fun _ =>
      hbuilt _).whenever
  next heq =>
    exact ((alike_advance (by simp [heq])).after fun _ => hexpression.bind fun _ =>
      (after_expectSign _).bind fun _ => hbuilt _).whenever
  next heq =>
    exact ((alike_advance (by simp [heq])).after fun _ => after_name.bind fun _ =>
      (after_expr start _).bind fun _ => (hcall _).bind hbuilt).whenever
  next => exact hcalled
  next => exact hcalled
  next => exact hcalled
  next => exact .pure fun h => nomatch h

/-- Of the simple expressions only the suffixed are asked for where they start. -/
theorem alike_simple {items items' : Parser (List Field)}
    (hsuffixed : Alike v suffixed suffixed' s fun _ => Past s) (hitems : After v s items items')
    (hfunction : ∀ start isMethod, After v s (function start isMethod) (function' start isMethod)) :
    Alike v (simple suffixed (tableOver items) function)
      (simple suffixed' (tableOver items') function') s fun _ => Past s := by
  refine .here (.peek ?_)
  split
  next literal heq =>
    have hkind : s.current.kind ≠ .eof := fun heof => by simp [heof, literal?] at heq
    exact (alike_advance hkind).after fun _ => after_expr _ _
  next =>
    split
    next => exact alike_tableOver hitems
    next heq =>
      exact (alike_advance (by simp [heq])).after fun _ => (hfunction _ _).bind fun _ =>
        after_expr _ _
    next => exact hsuffixed

end Rows

/-! ## Where calls lead -/

/-- How far a production can descend before it takes a token. -/
def Production.rank : Production → Nat
  | .block | .expressions | .fields => 2
  | .statement | .subexpression => 1
  | _ => 0

/-- Whether a production takes a token whenever it succeeds. -/
def Production.takes : Production → Bool
  | .statement | .function | .expressions | .subexpression | .suffixed | .localNames
  | .parameterNames => true
  | _ => false

/-- **Where a call leads** from a state: with at most one less of its bound to the same place, if the
rank is lower there, or past a token. -/
structure LeadsTo (call : Call α) (s : State) (other : Call β) (s' : State) : Prop where
  bound : call.bound ≤ other.bound + 1
  forward : Forward s s'
  descends : Past s s' ∨ other.production.rank < call.production.rank

/-- Where a call leads, other answers are alike. -/
def AlikeBelow (v : Probe) (ask : {β : Type} → Call β → Parser β) (call : Call α) (s : State) : Prop :=
  ∀ {β : Type} (other : Call β) (s' : State), LeadsTo call s other s' →
    Alike v other.run (ask other) s' fun _ s'' => other.production.takes = true → Past s' s''

section Bodies

variable {ask : {β : Type} → Call β → Parser β}

/-- Past a state any production may be asked for, one level below. -/
theorem AlikeBelow.after {call : Call α} (h : AlikeBelow v ask call s) (other : Call β)
    (hbound : call.bound ≤ other.bound + 1) : After v s other.run (ask other) :=
  fun s' hpast => (h other s' ⟨hbound, hpast.forward, .inl hpast⟩).any

/-- Where it stands a call may ask for productions of lower rank that take a token. -/
theorem AlikeBelow.now {call : Call α} (h : AlikeBelow v ask call s) (other : Call β)
    (hbound : call.bound ≤ other.bound + 1)
    (hrank : other.production.rank < call.production.rank)
    (htakes : other.production.takes = true) :
    Alike v other.run (ask other) s fun _ => Past s :=
  (h other s ⟨hbound, Forward.refl s, .inr hrank⟩).imp fun _ _ _ hpast => hpast htakes

namespace AlikeBelow

variable {bound phrases : Nat}

/-- A block asks for a statement, and past it for the rest. -/
theorem block (h : AlikeBelow v ask (.block (bound + 1)) s) :
    Alike v ((Call.block (bound + 1)).body Call.run) ((Call.block (bound + 1)).body ask) s
      fun _ _ => True := by
  have hblock := h.after (.block bound) (Nat.le_refl _)
  refine .isBlockEnd fun _ => .ite (.pure trivial) (.isNext ?_)
  split
  next hreturn =>
    have hkind : s.current.kind ≠ .eof := by simp [eq_of_beq hreturn]
    exact ((alike_returnStatement hkind (h.after (.expressions bound) (Nat.le_refl _))).after
      fun _ => after_pure _).any
  next =>
    refine .acceptSign hblock ?_
    -- a statement starts where the block stands, and only its success takes a token
    exact ((h.now (.statement bound) (Nat.le_refl _) (Nat.lt_succ_self _) rfl).after fun _ =>
      hblock.bind fun _ => after_pure _).any

/-- A statement reads its keyword, or asks for a suffixed expression where it starts. -/
theorem statement (h : AlikeBelow v ask (.statement (bound + 1)) s) :
    Alike v ((Call.statement (bound + 1)).body Call.run) ((Call.statement (bound + 1)).body ask) s
      fun _ => Past s := by
  have hblock := h.after (.block bound) (Nat.le_refl _)
  have hexpression := h.after (.subexpression bound 0) (Nat.le_refl _)
  have hexpressions := h.after (.expressions bound) (Nat.le_refl _)
  have hfunction (start : Position) (isMethod : Bool) :=
    h.after (.function bound start isMethod) (Nat.le_refl _)
  have hstmt {start : Position} {p q : Parser StmtKind} (hp : Alike v p q s fun _ => Past s) :
      Alike v (do stmt start (← p)) (do stmt start (← q)) s fun _ => Past s :=
    hp.after fun kind => after_stmt start kind
  -- the word in front says which statement it is, and all that is asked stands behind it
  refine .here (.peek ?_)
  split
  next heq =>
    refine (alike_advance (by simp [heq])).after fun _ => (after_acceptWord _).bind fun _ => ?_
    exact .ite ((after_localFunction hfunction _).bind fun _ => after_stmt _ _)
      (after_localStatementOver _ hexpressions (h.after (.localNames bound) (Nat.le_refl _)))
  next heq =>
    refine (alike_advance (by simp [heq])).after fun _ => ?_
    exact (after_functionStatementOver hfunction
      (fun target => h.after (.targetMembers bound target) (Nat.le_refl _)) _).bind fun _ =>
        after_stmt _ _
  next heq =>
    have hbound : bound + 1 ≤ min bound bound + 1 := by omega
    exact hstmt (alike_conditionalOver (by simp [heq]) hexpression hblock
      (h.after (.clauses bound bound) hbound))
  next heq => exact hstmt (alike_whileLoop (by simp [heq]) hexpression hblock)
  next heq => exact hstmt (alike_blockStatement (by simp [heq]) hblock)
  next heq => exact hstmt (alike_repeatLoop (by simp [heq]) hexpression hblock)
  next heq =>
    exact hstmt (alike_forLoopOver (by simp [heq]) hexpression hexpressions hblock
      (h.after (.moreNames bound) (Nat.le_refl _)))
  next heq => exact (alike_advance (by simp [heq])).after fun _ => after_stmt _ _
  next heq => exact hstmt (alike_gotoStatement (by simp [heq]))
  next heq => exact hstmt (alike_labelStatement (by simp [heq]))
  next =>
    have hbound : bound + 1 ≤ min bound bound + 1 := by omega
    exact hstmt (alike_expressionStatementOver
      (h.now (.suffixed bound) (Nat.le_refl _) (Nat.lt_succ_self _) rfl) hexpressions
      (h.after (.moreTargets bound bound) hbound))

theorem function {start : Position} {isMethod : Bool}
    (h : AlikeBelow v ask (.function (bound + 1) start isMethod) s) :
    Alike v ((Call.function (bound + 1) start isMethod).body Call.run)
      ((Call.function (bound + 1) start isMethod).body ask) s fun _ => Past s :=
  alike_functionOver start isMethod (h.after (.block bound) (Nat.le_refl _))
    (h.after (.parameterNames bound) (Nat.le_refl _))

theorem expressions (h : AlikeBelow v ask (.expressions (bound + 1)) s) :
    Alike v ((Call.expressions (bound + 1)).body Call.run)
      ((Call.expressions (bound + 1)).body ask) s fun _ => Past s := by
  refine (h.now (.subexpression bound 0) (Nat.le_refl _) (Nat.lt_succ_self _) rfl).after fun _ =>
    (after_acceptSign _).bind fun _ => ?_
  exact .ite ((h.after (.expressions bound) (Nat.le_refl _)).bind fun _ => after_pure _)
    (after_pure _)

/-- An operand takes a token, so the operators are asked for past it. -/
theorem subexpression {limit : Nat} (h : AlikeBelow v ask (.subexpression (bound + 1) limit) s) :
    Alike v ((Call.subexpression (bound + 1) limit).body Call.run)
      ((Call.subexpression (bound + 1) limit).body ask) s fun _ => Past s := by
  have hoperators (left : Expr) :=
    h.after (.operators bound s.current.span.start limit left) (Nat.le_refl _)
  refine .here (.peek ?_)
  split
  next operator heq =>
    have hkind : s.current.kind ≠ .eof := fun heof => by simp [heof, UnaryOperator.ofToken?] at heq
    refine (alike_advance hkind).after fun _ => ?_
    exact (h.after (.subexpression bound UnaryOperator.priority) (Nat.le_refl _)).bind fun _ =>
      (after_expr _ _).bind hoperators
  next =>
    have hbound : bound + 1 ≤ min bound bound + 1 := by omega
    -- a constructor and a function stand behind their first token, a suffixed expression does not
    refine (alike_simple (h.now (.suffixed bound) (Nat.le_refl _) (Nat.lt_succ_self _) rfl)
      (h.after (.fields bound bound) hbound) fun start isMethod => ?_).after hoperators
    exact h.after (.function bound start isMethod) (Nat.le_refl _)

/-- An operator is read before its right operand is asked for. -/
theorem operators {start : Position} {limit : Nat} {left : Expr}
    (h : AlikeBelow v ask (.operators (bound + 1) start limit left) s) :
    Alike v ((Call.operators (bound + 1) start limit left).body Call.run)
      ((Call.operators (bound + 1) start limit left).body ask) s fun _ _ => True := by
  refine .peek ?_
  split
  next connective heq =>
    have hkind : s.current.kind ≠ .eof := fun heof => by simp [heof, Connective.ofToken?] at heq
    refine .ite (.pure trivial) ((alike_advance hkind).after fun _ => ?_).any
    exact (h.after (.subexpression bound connective.rightPriority) (Nat.le_refl _)).bind fun _ =>
      (after_expr _ _).bind fun left => h.after (.operators bound start limit left) (Nat.le_refl _)
  next => exact .pure trivial

theorem suffixed (h : AlikeBelow v ask (.suffixed (bound + 1)) s) :
    Alike v ((Call.suffixed (bound + 1)).body Call.run) ((Call.suffixed (bound + 1)).body ask) s
      fun _ => Past s :=
  .here ((alike_primary (h.after (.subexpression bound 0) (Nat.le_refl _))).after fun base =>
    h.after (.suffixes bound s.current.span.start base) (Nat.le_refl _))

/-- A suffix is read before the next is asked for. -/
theorem suffixes {start : Position} {base : Expr}
    (h : AlikeBelow v ask (.suffixes (bound + 1) start base) s) :
    Alike v ((Call.suffixes (bound + 1) start base).body Call.run)
      ((Call.suffixes (bound + 1) start base).body ask) s fun _ _ => True := by
  have hbound : bound + 1 ≤ min bound bound + 1 := by omega
  refine (alike_suffix (h.after (.subexpression bound 0) (Nat.le_refl _))
    (h.after (.expressions bound) (Nat.le_refl _)) (h.after (.fields bound bound) hbound)
    start base).bind fun next s' _ hpast => ?_
  -- another round comes only behind a suffix that was taken
  cases next with
  | none => exact .pure trivial
  | some next => exact h.after (.suffixes bound start next) (Nat.le_refl _) s' (hpast rfl)

theorem clauses (h : AlikeBelow v ask (.clauses phrases (bound + 1)) s) :
    Alike v ((Call.clauses phrases (bound + 1)).body Call.run)
      ((Call.clauses phrases (bound + 1)).body ask) s fun _ _ => True := by
  have hphrase : min phrases (bound + 1) ≤ phrases + 1 := by omega
  have hround : min phrases (bound + 1) ≤ min phrases bound + 1 := by omega
  have hblock := h.after (.block phrases) hphrase
  refine .here (.acceptWord ?_ (.acceptWord ?_ (.pure trivial)))
  · exact (after_clause (h.after (.subexpression phrases 0) hphrase) hblock _).bind fun _ =>
      (h.after (.clauses phrases bound) hround).bind fun _ => after_pure _
  · exact (after_innerBlock hblock).bind fun _ => after_freshId.bind fun _ =>
      (after_spanFrom _).bind fun _ => after_pure _

/-- A field takes a token, so the others are asked for past it. -/
theorem fields (h : AlikeBelow v ask (.fields phrases (bound + 1)) s) :
    Alike v ((Call.fields phrases (bound + 1)).body Call.run)
      ((Call.fields phrases (bound + 1)).body ask) s fun _ _ => True := by
  have hphrase : min phrases (bound + 1) ≤ phrases + 1 := by omega
  have hround : min phrases (bound + 1) ≤ min phrases bound + 1 := by omega
  have hmore (first : Field) :
      After v s (do return first :: (← (Call.fields phrases bound).run))
        (do return first :: (← ask (.fields phrases bound))) :=
    (h.after (.fields phrases bound) hround).bind fun _ => after_pure _
  refine .isNext (.ite (.pure trivial) ?_)
  exact ((alike_field (h.now (.subexpression phrases 0) hphrase (Nat.lt_succ_self _) rfl)
    (h.after (.subexpression phrases 0) hphrase)).after fun first =>
      (after_acceptSign _).bind fun _ => .ite (hmore first) ((after_acceptSign _).bind fun _ =>
        .ite (hmore first) (after_pure _))).any

theorem moreTargets (h : AlikeBelow v ask (.moreTargets phrases (bound + 1)) s) :
    Alike v ((Call.moreTargets phrases (bound + 1)).body Call.run)
      ((Call.moreTargets phrases (bound + 1)).body ask) s fun _ _ => True := by
  have hphrase : min phrases (bound + 1) ≤ phrases + 1 := by omega
  have hround : min phrases (bound + 1) ≤ min phrases bound + 1 := by omega
  refine .acceptSign ?_ (.pure trivial)
  exact (h.after (.suffixed phrases) hphrase).bind fun _ =>
    (h.after (.moreTargets phrases bound) hround).bind fun _ => after_pure _

theorem localNames (h : AlikeBelow v ask (.localNames (bound + 1)) s) :
    Alike v ((Call.localNames (bound + 1)).body Call.run)
      ((Call.localNames (bound + 1)).body ask) s fun _ => Past s :=
  alike_name.after fun _ => after_attributeMark.bind fun _ => (after_acceptSign _).bind fun _ =>
    .ite ((h.after (.localNames bound) (Nat.le_refl _)).bind fun _ => after_pure _) (after_pure _)

theorem moreNames (h : AlikeBelow v ask (.moreNames (bound + 1)) s) :
    Alike v ((Call.moreNames (bound + 1)).body Call.run)
      ((Call.moreNames (bound + 1)).body ask) s fun _ _ => True := by
  refine .acceptSign ?_ (.pure trivial)
  exact after_name.bind fun _ => (h.after (.moreNames bound) (Nat.le_refl _)).bind fun _ =>
    after_pure _

theorem parameterNames (h : AlikeBelow v ask (.parameterNames (bound + 1)) s) :
    Alike v ((Call.parameterNames (bound + 1)).body Call.run)
      ((Call.parameterNames (bound + 1)).body ask) s fun _ => Past s := by
  refine .acceptSign (fun _ => (after_pure _).past) ?_
  exact alike_name.after fun _ => (after_acceptSign _).bind fun _ =>
    .ite ((h.after (.parameterNames bound) (Nat.le_refl _)).bind fun _ => after_pure _)
      (after_pure _)

/-- A member is read with its sign before the next is asked for. -/
theorem targetMembers {target : FunctionTarget}
    (h : AlikeBelow v ask (.targetMembers (bound + 1) target) s) :
    Alike v ((Call.targetMembers (bound + 1) target).body Call.run)
      ((Call.targetMembers (bound + 1) target).body ask) s fun _ _ => True := by
  refine .indexer fun indexer hkind => ?_
  cases indexer with
  | none => exact .pure trivial
  | some indexer =>
    refine ((alike_advance (hkind rfl)).after fun _ => after_name.bind fun _ =>
      after_freshId.bind fun _ => ?_).any
    cases indexer with
    | colon => exact after_pure _
    | dot => exact h.after (.targetMembers bound _) (Nat.le_refl _)

/-- **A call does what its body does** over calls that are alike where the call leads. -/
theorem body {call : Call α} (h : AlikeBelow v ask call s) (hdeep : call.bound = 0 → v.mayExhaust) :
    Alike v call.run (call.body ask) s fun _ s' => call.production.takes = true → Past s s' := by
  -- a bound of zero is exhausted at once; any other call is one of the lemmas above
  rw [Call.run_eq_body]
  cases call with
  | block bound =>
    cases bound with
    | zero => exact alike_exhausted (hdeep rfl)
    | succ bound => exact h.block.imp fun _ _ _ _ => nofun
  | statement bound =>
    cases bound with
    | zero => exact alike_exhausted (hdeep rfl)
    | succ bound => exact h.statement.whenever
  | function bound start isMethod =>
    cases bound with
    | zero => exact alike_exhausted (hdeep rfl)
    | succ bound => exact h.function.whenever
  | expressions bound =>
    cases bound with
    | zero => exact alike_exhausted (hdeep rfl)
    | succ bound => exact h.expressions.whenever
  | subexpression bound limit =>
    cases bound with
    | zero => exact alike_exhausted (hdeep rfl)
    | succ bound => exact h.subexpression.whenever
  | operators bound start limit left =>
    cases bound with
    | zero => exact alike_exhausted (hdeep rfl)
    | succ bound => exact h.operators.imp fun _ _ _ _ => nofun
  | suffixed bound =>
    cases bound with
    | zero => exact alike_exhausted (hdeep rfl)
    | succ bound => exact h.suffixed.whenever
  | suffixes bound start base =>
    cases bound with
    | zero => exact alike_exhausted (hdeep rfl)
    | succ bound => exact h.suffixes.imp fun _ _ _ _ => nofun
  | clauses phrases bound =>
    cases bound with
    | zero => exact alike_exhausted (hdeep (Nat.min_zero _))
    | succ bound => exact h.clauses.imp fun _ _ _ _ => nofun
  | fields phrases bound =>
    cases bound with
    | zero => exact alike_exhausted (hdeep (Nat.min_zero _))
    | succ bound => exact h.fields.imp fun _ _ _ _ => nofun
  | moreTargets phrases bound =>
    cases bound with
    | zero => exact alike_exhausted (hdeep (Nat.min_zero _))
    | succ bound => exact h.moreTargets.imp fun _ _ _ _ => nofun
  | localNames bound =>
    cases bound with
    | zero => exact alike_exhausted (hdeep rfl)
    | succ bound => exact h.localNames.whenever
  | moreNames bound =>
    cases bound with
    | zero => exact alike_exhausted (hdeep rfl)
    | succ bound => exact h.moreNames.imp fun _ _ _ _ => nofun
  | parameterNames bound =>
    cases bound with
    | zero => exact alike_exhausted (hdeep rfl)
    | succ bound => exact h.parameterNames.whenever
  | targetMembers bound target =>
    cases bound with
    | zero => exact alike_exhausted (hdeep rfl)
    | succ bound => exact h.targetMembers.imp fun _ _ _ _ => nofun

end AlikeBelow

end Bodies

/-! ## All calls -/

/-- The way that is left to a call: each token ahead lets it descend to the lowest rank once more. -/
def Call.way (call : Call α) (s : State) : Nat := 3 * s.rest.length + call.production.rank

/-- There are three levels of productions. -/
theorem Production.rank_le (production : Production) : production.rank ≤ 2 := by
  cases production <;> decide

/-- Where a call leads, less of the way is left. -/
theorem LeadsTo.way_lt {call : Call α} {other : Call β} (h : LeadsTo call s other s') :
    other.way s' < call.way s := by
  have hforward := h.forward.length_le
  have hrank := other.production.rank_le
  unfold Call.way
  rcases h.descends with hpast | hlower
  · have hlength := hpast.length_lt
    omega
  · omega

/-- **Calls and what is put for them are alike**, if that is their bodies over what is put for the calls
in them, and they have bound enough for the way that is left. -/
theorem alike_of_body (ask : {β : Type} → Call β → Parser β)
    (hask : ∀ {β : Type} (call : Call β), v.mayExhaust ∨ call.bound ≠ 0 → ask call = call.body ask)
    (call : Call α) (s : State) (hway : v.mayExhaust ∨ call.way s < call.bound) :
    Alike v call.run (ask call) s fun _ s' => call.production.takes = true → Past s s' := by
  -- the way that is left bounds the induction, since it is less wherever the call leads
  obtain ⟨way, hle⟩ : ∃ way, call.way s < way := ⟨_, Nat.lt_succ_self _⟩
  induction way generalizing α s with
  | zero => exact absurd hle (Nat.not_lt_zero _)
  | succ way ih =>
    have hbound : v.mayExhaust ∨ call.bound ≠ 0 := hway.imp_right Nat.ne_zero_of_lt
    rw [hask call hbound]
    refine AlikeBelow.body (fun other s' hleads => ?_) fun hzero =>
      hbound.resolve_right fun hne => hne hzero
    have hless := hleads.way_lt
    have hhanded := hleads.bound
    exact ih other s' (hway.imp_right fun _ => by omega) (by omega)

/-- A call does the same with a trap behind the end of the text, and has bound enough for the way that
is left to it. -/
theorem alike_run (call : Call α) (s : State) (hway : v.mayExhaust ∨ call.way s < call.bound) :
    Alike v call.run call.run s fun _ s' => call.production.takes = true → Past s s' :=
  alike_of_body Call.run (fun call _ => call.run_eq_body) call s hway

/-- **A greater bound changes nothing** if there is bound enough for the way that is left. -/
theorem alike_raise (call : Call α) (s : State) (hway : call.way s < call.bound) :
    Alike ⟨none, False⟩ call.run call.raise.run s fun _ s' =>
      call.production.takes = true → Past s s' := by
  refine alike_of_body (fun call => call.raise.run) (fun other hbound => ?_) call s (.inr hway)
  exact other.raise_run_eq_body (hbound.resolve_left id)

/-! ## What a visit uses -/

/-- The outcome of a call rests on the calls where it leads. -/
theorem body_congr {ask : {β : Type} → Call β → Parser β} {call : Call α} (hs : s.IsEnded)
    (h : ∀ {β : Type} (other : Call β) (s' : State), LeadsTo call s other s' →
      (ask other).run s' = other.run.run s') : (call.body ask).run s = call.run.run s := by
  have hbelow : AlikeBelow ⟨none, True⟩ ask call s := by
    intro β other s' hleads hs'
    have hrun := alike_run (v := ⟨none, True⟩) other s' (.inl trivial) hs'
    rw [State.trapped_none] at hrun ⊢
    rw [h other s' hleads]
    exact hrun
  have hsame := (hbelow.body (fun _ => trivial) hs).1
  rwa [State.trapped_none, State.trapped_none] at hsame

namespace Visit

variable {visit other : Visit}

/-- **A visit leads to those that it uses.** -/
theorem Uses.leads (h : visit.Uses other) (hs : visit.state.IsEnded) :
    LeadsTo visit.call visit.state other.call other.state := by
  obtain ⟨ask, hask, hne⟩ := h
  -- or else what is asked for is the same wherever the call leads, and so is its outcome
  refine Classical.byContradiction fun hnot => hne (body_congr hs fun call s' hleads => ?_)
  exact hask ⟨call, s'⟩ fun heq => hnot (heq ▸ hleads)

/-- Of two visits one of which uses the other by the way of others, the latter is past a token or of a
lower rank. -/
theorem descends_of_uses (h : Relation.TransGen Uses visit other) (hs : visit.state.IsEnded) :
    Forward visit.state other.state ∧ (Past visit.state other.state ∨
      other.production.rank < visit.production.rank) := by
  induction h with
  | single huses => exact ⟨(huses.leads hs).forward, (huses.leads hs).descends⟩
  | tail _ huses ih =>
    obtain ⟨hforward, hdescends⟩ := ih
    have hleads := huses.leads (hforward.isEnded hs)
    refine ⟨hforward.trans hleads.forward, ?_⟩
    -- the rank falls until a token is taken, and what was taken stays taken
    rcases hdescends, hleads.descends with ⟨hpast | hlower, hpast' | hlower'⟩
    · exact .inl (hpast.trans hleads.forward)
    · exact .inl (hpast.trans hleads.forward)
    · exact .inl (hforward.past hpast')
    · exact .inr (Nat.lt_trans hlower' hlower)

/-- **A descent that comes back to a production has taken a token.** -/
theorem past_of_uses (h : Relation.TransGen Uses visit other) (hs : visit.state.IsEnded)
    (hproduction : visit.production = other.production) : Past visit.state other.state := by
  refine (descends_of_uses h hs).2.resolve_right fun hlower => ?_
  rw [hproduction] at hlower
  exact Nat.lt_irrefl _ hlower

end Visit

end Parser

end LuaCompiler
