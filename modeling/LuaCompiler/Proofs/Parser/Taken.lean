import LuaCompiler.Proofs.Parser.Derivation
import LuaCompiler.Proofs.Parser.Growth

/-!
# What a parser takes

A parser that succeeds has taken some tokens from the front of those ahead of it, and what it gives
says which phrase of the grammar they are. The end of the text is the one token that can be read
without being taken; no production reads it.

* `Chunk.heads`: the expressions that a program assigns to or calls as statements. Parentheses leave
  no node, but they widen a span; `Expr.isBare` says that there are none around an expression.
* `Took s ts s'`: some tokens were taken between two states.
* `Yields p D`: what a parser takes is as `D` says, with `Took.bind` for parsers in a row and one
  lemma for each of the steps that productions are made of.
-/

namespace LuaCompiler

open Token (Kind)
open Grammar (Derives)

/-! ## Expressions that head a statement -/

mutual

/-- What the statements in an expression assign to or call. -/
def Expr.heads : Expr → List Expr
  | ⟨_, _, kind⟩ => kind.heads

/-- What the statements in an expression of a kind assign to or call. -/
def ExprKind.heads : ExprKind → List Expr
  | .function f => f.heads
  | .table fields => fieldHeads fields
  | .binary _ left right => left.heads ++ right.heads
  | .logical _ left right => left.heads ++ right.heads
  | .unary _ argument => argument.heads
  | .member base _ _ => base.heads
  | .index base index => base.heads ++ index.heads
  | .call base _ arguments => base.heads ++ exprHeads arguments
  | _ => []

def exprHeads : List Expr → List Expr
  | [] => []
  | first :: rest => first.heads ++ exprHeads rest

def fieldHeads : List Field → List Expr
  | [] => []
  | ⟨_, _, kind⟩ :: rest => kind.heads ++ fieldHeads rest

def FieldKind.heads : FieldKind → List Expr
  | .named _ value => value.heads
  | .keyed key value => key.heads ++ value.heads
  | .positional value => value.heads

def FunctionBody.heads : FunctionBody → List Expr
  | ⟨_, _, _, _, body⟩ => stmtHeads body

/-- What the statements of a block assign to or call. -/
def stmtHeads : List Stmt → List Expr
  | [] => []
  | ⟨_, _, kind⟩ :: rest => kind.heads ++ stmtHeads rest

/-- What a statement and those inside it assign to or call. -/
def StmtKind.heads : StmtKind → List Expr
  | .local _ init => exprHeads init
  | .assignment targets init => targets ++ exprHeads targets ++ exprHeads init
  | .call expression => expression :: expression.heads
  | .localFunction _ f => f.heads
  | .function _ f => f.heads
  | .return arguments => exprHeads arguments
  | .break => []
  | .goto _ => []
  | .label _ => []
  | .block body => stmtHeads body
  | .while condition body => condition.heads ++ stmtHeads body
  | .repeat body condition => stmtHeads body ++ condition.heads
  | .conditional ⟨_, _, condition, body⟩ others otherwise =>
    condition.heads ++ stmtHeads body ++ clauseHeads others ++ elseHeads otherwise
  | .forNumeric _ first last step body =>
    first.heads ++ last.heads ++ stepHeads step ++ stmtHeads body
  | .forGeneric _ iterators body => exprHeads iterators ++ stmtHeads body

def stepHeads : Option Expr → List Expr
  | none => []
  | some step => step.heads

def clauseHeads : List Clause → List Expr
  | [] => []
  | ⟨_, _, condition, body⟩ :: rest => condition.heads ++ stmtHeads body ++ clauseHeads rest

def elseHeads : Option ElseClause → List Expr
  | none => []
  | some ⟨_, _, body⟩ => stmtHeads body

end

attribute [simp] ExprKind.heads FieldKind.heads FunctionBody.heads StmtKind.heads

/-- What the statements of a program assign to or call, those of its functions among them. -/
def Chunk.heads (chunk : Chunk) : List Expr := stmtHeads chunk.body

theorem Expr.heads_eq (e : Expr) : e.heads = e.kind.heads := by
  cases e
  rw [Expr.heads]

/-- The heads of a block are those of its statements. -/
theorem stmtHeads_cons (first : Stmt) (rest : List Stmt) :
    stmtHeads (first :: rest) = first.kind.heads ++ stmtHeads rest := by
  cases first
  rw [stmtHeads]

/-- The heads of a table are those of its fields. -/
theorem fieldHeads_cons (first : Field) (rest : List Field) :
    fieldHeads (first :: rest) = first.kind.heads ++ fieldHeads rest := by
  cases first
  rw [fieldHeads]

/-! ## Expressions in parentheses -/

/-- Whether nothing stands around an expression within its span: a name fills its span, and a chain
starts where its base does. Parentheses around it would come first. -/
def Expr.isBare (e : Expr) : Bool :=
  match e.kind with
  | .name name => e.span.stop == e.span.start.advance name.toList
  | .member base _ _ | .index base _ | .call base _ _ => base.span.start == e.span.start
  | _ => true

/-- An expression whose span holds its name, or the start of its base. -/
def Expr.Anchored (e : Expr) : Prop :=
  match e.kind with
  | .name name => (e.span.start.advance name.toList).le e.span.stop = true
  | .member base _ _ | .index base _ | .call base _ _ => e.span.start.le base.span.start = true
  | _ => True

/-- Whether an expression can head a statement. -/
def Expr.isHead (e : Expr) : Bool := e.isAssignable || e.isCall

namespace Position

variable {p q : Position}

theorem le_of_not_le (h : q.le p = false) : p.le q = true := by
  simp [le] at h ⊢
  omega

/-- A place that is not before another is not it. -/
theorem ne_of_le_of_lt {r : Position} (h : p.le q = true) (h' : r.le q = false) : r ≠ p := by
  rintro rfl
  simp [h] at h'

/-- Places keep their order when the same character is passed. -/
theorem next_mono (h : p.le q = true) (c : Char) : (p.next c).le (q.next c) = true := by
  unfold next
  simp only [le] at h ⊢
  split
  · simp_all
    omega
  · simp_all

/-- And when the same text is. -/
theorem advance_mono (h : p.le q = true) (text : List Char) :
    (p.advance text).le (q.advance text) = true := by
  induction text generalizing p q with
  | nil => exact h
  | cons c cs ih => exact ih (next_mono h c)

/-- A place is not behind the next one. -/
theorem not_next_le (p : Position) (c : Char) : (p.next c).le p = false := by
  have := c.utf8Size_pos
  unfold next
  split <;> simp [le]
  omega

/-- Nor behind any text that is passed. -/
theorem not_advance_le {text : List Char} (p : Position) (h : text ≠ []) :
    (p.advance text).le p = false := by
  obtain ⟨c, cs, rfl⟩ := List.exists_cons_of_ne_nil h
  refine Bool.eq_false_iff.2 fun hle => ?_
  have hback := le_trans (le_advance (p.next c) cs) hle
  simp [not_next_le] at hback

end Position

/-- **Parentheses around an expression show in its span.** -/
theorem Expr.wrapped {e : Expr} {lo hi : Position} (h : e.Anchored)
    (hlo : e.span.start.le lo = false) (hhi : hi.le e.span.stop = false) :
    ({ e with span := ⟨lo, hi⟩ } : Expr).Anchored ∧
      (e.isHead = true → ({ e with span := ⟨lo, hi⟩ } : Expr).isBare = false) := by
  obtain ⟨id, span, kind⟩ := e
  have hle := Position.le_of_not_le hlo
  cases kind <;> simp only [Anchored, isBare, isHead, isAssignable, isCall, beq_eq_false_iff_ne]
    at h hlo hhi ⊢
  case name name =>
    have hname := Position.le_trans (Position.advance_mono hle name.toList) h
    exact ⟨Position.le_trans hname (Position.le_of_not_le hhi),
      fun _ => Position.ne_of_le_of_lt hname hhi⟩
  case member base _ _ | index base _ | call base _ _ =>
    refine ⟨Position.le_trans hle h, fun _ heq => ?_⟩
    rw [heq, hlo] at h
    cases h
  all_goals simp

/-- **No head of a statement is in parentheses**, unless this may be. -/
def Clean (wrapping : Prop) (heads : List Expr) : Prop :=
  wrapping ∨ ∀ e ∈ heads, e.isBare = true

section Clean

variable {wrapping : Prop}

/-- Heads in a row are clean when all are. -/
@[simp]
theorem clean_append {hs hs' : List Expr} :
    Clean wrapping (hs ++ hs') ↔ Clean wrapping hs ∧ Clean wrapping hs' := by
  rw [Clean, List.forall_mem_append, or_and_left]
  rfl

theorem clean_cons {e : Expr} {hs : List Expr} :
    Clean wrapping (e :: hs) ↔ Clean wrapping [e] ∧ Clean wrapping hs :=
  @clean_append wrapping [e] hs

end Clean

theorem Symbol.text_ne_nil (sign : Symbol) : (Kind.symbol sign).text.toList ≠ [] := by
  cases sign <;> decide

namespace Parser

variable {α β : Type} {s s' s'' : State} {ts us : List Kind} {kind : Kind}

/-! ## Tokens that were taken -/

/-- A state before tokens in order, each as wide as its text, of which the last one is the text's
end if there is no fault behind it. -/
structure State.Steady (s : State) : Prop where
  ordered : InOrder s.previousEnd s.ahead
  spelled : ∀ token ∈ s.ahead, token.kind ≠ .eof →
    token.span.stop = token.span.start.advance token.kind.text.toList
  ends : s.ending = none → ∀ token ∈ s.ahead.getLast?, token.kind = .eof

/-- **Some tokens were taken** between two states. -/
structure Took (s : State) (ts : List Kind) (s' : State) : Prop where
  kinds : s.ahead.map Token.kind = ts ++ s'.ahead.map Token.kind
  steady : s'.Steady

theorem Took.refl (hs : s.Steady) : Took s [] s := ⟨rfl, hs⟩

/-- What was taken first stands before what was taken then. -/
theorem Took.trans (h : Took s ts s') (h' : Took s' us s'') : Took s (ts ++ us) s'' :=
  ⟨by rw [h.kinds, h'.kinds, List.append_assoc], h'.steady⟩

/-- Noting an event takes nothing. -/
theorem Took.noted (event : Scope.Event) (h : Took s ts s') :
    Took s ts { s' with events := event :: s'.events } :=
  ⟨h.kinds, h.steady.ordered, h.steady.spelled, h.steady.ends⟩

/-- Numbering a node takes nothing. -/
theorem Took.numbered (id : NodeId) (h : Took s ts s') : Took s ts { s' with nextId := id } :=
  ⟨h.kinds, h.steady.ordered, h.steady.spelled, h.steady.ends⟩

/-- What a parser takes, from the place where it starts to the end of the last token, is as `D`
says. -/
def Yields (p : Parser α) (D : Span → α → List Kind → Prop) : Prop :=
  ∀ s, s.Steady → Post p s (fun a s' =>
    ∃ ts, D ⟨s.current.span.start, s'.previousEnd⟩ a ts ∧ Took s ts s') fun _ => True

/-- A parser that is run where a token comes next. -/
def YieldsAt (kind : Kind) (p : Parser α) (D : Span → α → List Kind → Prop) : Prop :=
  ∀ s, s.Steady → s.current.kind = kind → Post p s (fun a s' =>
    ∃ ts, D ⟨s.current.span.start, s'.previousEnd⟩ a ts ∧ Took s ts s') fun _ => True

/-- A parser that goes on with what was taken since a place. -/
def Resumes (D : Span → α → List Kind → Prop) (place : Position) (a : α) (p : Parser α) : Prop :=
  ∀ s ts s', Took s ts s' → D ⟨place, s'.previousEnd⟩ a ts → Post p s' (fun b s'' =>
    ∃ us, D ⟨place, s''.previousEnd⟩ b us ∧ Took s us s'') fun _ => True

section Sequence

variable {p : Parser α} {g : α → Parser β} {D : Span → α → List Kind → Prop}
  {Q : β → State → Prop}

/-- Less may be said of what is taken. -/
theorem Yields.mono {D' : Span → α → List Kind → Prop} (hp : Yields p D)
    (h : ∀ span a ts, D span a ts → D' span a ts) : Yields p D' := by
  intro s hs
  refine (hp s hs).imp fun a s' htaken => ?_
  obtain ⟨ts, hts, htook⟩ := htaken
  exact ⟨ts, h _ _ _ hts, htook⟩

/-- A parser in a row. -/
theorem Took.bind (h : Took s ts s') (hp : Yields p D)
    (hg : ∀ a us s'', D ⟨s'.current.span.start, s''.previousEnd⟩ a us → Took s (ts ++ us) s'' →
      Post (g a) s'' Q fun _ => True) : Post (p >>= g) s' Q fun _ => True := by
  rw [post_bind]
  refine (hp s' h.steady).imp fun a s'' htaken => ?_
  obtain ⟨us, hus, h'⟩ := htaken
  exact hg a us s'' hus (h.trans h')

/-- A parser that takes nothing. -/
theorem Took.skip (h : Took s ts s') (hp : Yields p fun _ _ us => us = [])
    (hg : ∀ a s'', Took s ts s'' → Post (g a) s'' Q fun _ => True) :
    Post (p >>= g) s' Q fun _ => True :=
  h.bind hp fun a us s'' hus h' => hg a s'' (by rwa [hus, List.append_nil] at h')

/-- The last parser of a row. -/
theorem Took.last {Q : α → State → Prop} (h : Took s ts s') (hp : Yields p D)
    (hg : ∀ a us s'', D ⟨s'.current.span.start, s''.previousEnd⟩ a us → Took s (ts ++ us) s'' →
      Q a s'') : Post p s' Q fun _ => True := by
  refine (hp s' h.steady).imp fun a s'' htaken => ?_
  obtain ⟨us, hus, h'⟩ := htaken
  exact hg a us s'' hus (h.trans h')

/-- An event is noted while tokens are taken. -/
theorem Took.note {event : Scope.Event} {g : Unit → Parser β} (h : Took s ts s')
    (hg : ∀ s'', Took s ts s'' → Post (g ()) s'' Q fun _ => True) :
    Post (Parser.note event >>= g) s' Q fun _ => True := by
  rw [post_bind, post_note]
  exact hg _ (h.noted event)

/-- One of two parsers before another. -/
theorem Took.join {c : Prop} [Decidable c] {q : Parser α} (h : Took s ts s') (hp : Yields p D)
    (hq : Yields q D)
    (hg : ∀ a us s'', D ⟨s'.current.span.start, s''.previousEnd⟩ a us → Took s (ts ++ us) s'' →
      Post (g a) s'' Q fun _ => True) :
    Post (if c then p >>= g else q >>= g) s' Q fun _ => True := by
  split
  next => exact h.bind hp hg
  next => exact h.bind hq hg

end Sequence

/-- A scope is left behind what was taken. -/
theorem Yields.leaving {p : Parser α} {D : Span → α → List Kind → Prop} (hp : Yields p D) :
    Yields (leaving p) D := by
  intro s hs
  rw [post_leaving]
  refine (hp s hs).mono (fun a s' htaken => ?_) fun _ _ => trivial
  obtain ⟨ts, hts, h⟩ := htaken
  exact ⟨ts, hts, h.noted .leave⟩

theorem yields_pure {a : α} {D : Span → α → List Kind → Prop} (h : ∀ span, D span a []) :
    Yields (pure a) D :=
  fun _ hs => ⟨[], h _, .refl hs⟩

theorem yields_isNext (kind : Kind) : Yields (isNext kind) fun _ _ ts => ts = [] :=
  fun _ hs => ⟨[], rfl, .refl hs⟩

/-- Looking for the end of a block takes nothing. -/
theorem yields_isBlockEnd : Yields isBlockEnd fun _ _ ts => ts = [] := by
  intro s hs
  unfold isBlockEnd
  rw [post_bind, post_peek]
  split <;> exact ⟨[], rfl, .refl hs⟩

theorem yields_exhausted {D : Span → α → List Kind → Prop} : Yields (exhausted (α := α)) D :=
  fun _ _ => trivial

/-! ## Single steps -/

/-- **A token that is not the end of the text is taken when it is read.** -/
theorem State.Steady.advance (hs : s.Steady) (hkind : s.current.kind ≠ .eof) :
    Post advance s (fun token s' => token = s.current ∧ s'.previousEnd = s.current.span.stop ∧
      Took s [s.current.kind] s') fun _ => True := by
  obtain ⟨-, -, hrest⟩ := hs.ordered
  unfold Parser.advance
  rw [post_bind, post_get]
  split
  next next rest heq =>
    have hahead : s.ahead = s.current :: next :: rest := by rw [State.ahead, heq]
    rw [heq] at hrest
    refine ⟨rfl, rfl, by rw [hahead]; rfl, hrest, fun token htoken => hs.spelled token ?_,
      fun hend token htoken => hs.ends hend token ?_⟩
    · exact hahead ▸ List.mem_cons_of_mem _ htoken
    · rw [hahead, List.getLast?_cons_cons]
      exact htoken
  next => trivial
  next heq hend =>
    -- without a fault behind it, the last token would be the end of the text
    refine absurd (hs.ends hend s.current ?_) hkind
    rw [State.ahead, heq]
    rfl

/-- Reading a token of some width moves the end of what was read. -/
theorem State.Steady.read (hs : s.Steady) (hkind : s.current.kind ≠ .eof)
    (htext : s.current.kind.text.toList ≠ []) :
    Post Parser.advance s (fun _ s' => s'.previousEnd.le s.current.span.start = false ∧
      Took s [s.current.kind] s') fun _ => True := by
  refine (hs.advance hkind).imp fun _ s' htaken => ?_
  obtain ⟨-, hend, h⟩ := htaken
  refine ⟨?_, h⟩
  rw [hend, hs.spelled s.current List.mem_cons_self hkind]
  exact Position.not_advance_le _ htext

/-- A symbol has some width, so the end of what was read moves. -/
theorem State.Steady.expectSign {sign : Symbol} (hs : s.Steady) :
    Post (Parser.expectSign sign) s (fun _ s' => s'.previousEnd.le s.previousEnd = false ∧
      Took s [.symbol sign] s') fun _ => True := by
  rw [Parser.expectSign, expect, post_bind, post_isNext]
  split
  next heq =>
    have hkind := eq_of_beq heq
    have htext : s.current.kind.text.toList ≠ [] := by
      rw [hkind]
      exact Symbol.text_ne_nil sign
    refine post_bind.2 ((hs.read (by simp [hkind]) htext).imp fun _ s' htaken => ?_)
    obtain ⟨hend, h⟩ := htaken
    refine ⟨?_, hkind ▸ h⟩
    · refine Bool.eq_false_iff.2 fun hle => ?_
      simp [Position.le_trans hle hs.ordered.1] at hend
  next => trivial

/-- A token that is known is taken. -/
theorem Took.advance {g : Token → Parser β} {Q : β → State → Prop} (h : Took s ts s')
    (hkind : s'.current.kind = kind) (hne : kind ≠ .eof)
    (hg : ∀ s'', Took s (ts ++ [kind]) s'' → Post (g s'.current) s'' Q fun _ => True) :
    Post (Parser.advance >>= g) s' Q fun _ => True := by
  rw [post_bind]
  refine (h.steady.advance (hkind ▸ hne)).imp fun token s'' htaken => ?_
  obtain ⟨htoken, -, h'⟩ := htaken
  rw [htoken]
  exact hg s'' (h.trans (hkind ▸ h'))

/-- A token is taken, or nothing is. -/
theorem Took.accept {g : Bool → Parser β} {Q : β → State → Prop} (h : Took s ts s')
    (hne : kind ≠ .eof)
    (htrue : ∀ s'', Took s (ts ++ [kind]) s'' → Post (g true) s'' Q fun _ => True)
    (hfalse : Post (g false) s' Q fun _ => True) :
    Post (Parser.accept kind >>= g) s' Q fun _ => True := by
  rw [Parser.accept, bind_assoc, post_bind, post_isNext]
  split
  next heq =>
    rw [bind_assoc]
    exact h.advance (eq_of_beq heq) hne htrue
  next => exact hfalse

/-- The same for a sign. -/
theorem Took.acceptSign {sign : Symbol} {g : Bool → Parser β} {Q : β → State → Prop}
    (h : Took s ts s')
    (htrue : ∀ s'', Took s (ts ++ [.symbol sign]) s'' → Post (g true) s'' Q fun _ => True)
    (hfalse : Post (g false) s' Q fun _ => True) :
    Post (Parser.acceptSign sign >>= g) s' Q fun _ => True :=
  h.accept (fun h => nomatch h) htrue hfalse

/-- The same for a keyword. -/
theorem Took.acceptWord {word : Keyword} {g : Bool → Parser β} {Q : β → State → Prop}
    (h : Took s ts s')
    (htrue : ∀ s'', Took s (ts ++ [.keyword word]) s'' → Post (g true) s'' Q fun _ => True)
    (hfalse : Post (g false) s' Q fun _ => True) :
    Post (Parser.acceptWord word >>= g) s' Q fun _ => True :=
  h.accept (fun h => nomatch h) htrue hfalse

/-- A token that has to be there is taken. -/
theorem yields_expect (hne : kind ≠ .eof) : Yields (expect kind) fun _ _ ts => ts = [kind] := by
  intro s hs
  rw [expect, post_bind, post_isNext]
  split
  next heq =>
    exact (Took.refl hs).advance (eq_of_beq heq) hne fun s' h => ⟨[kind], rfl, h⟩
  next => trivial

theorem yields_expectWord (word : Keyword) :
    Yields (expectWord word) fun _ _ ts => ts = [.keyword word] := yields_expect nofun

theorem yields_expectSign (sign : Symbol) :
    Yields (expectSign sign) fun _ _ ts => ts = [.symbol sign] := yields_expect nofun

/-- A name is one token, over its own span. -/
theorem yields_name : Yields name fun span identifier ts =>
    ts = [.name identifier.name] ∧ identifier.span = span ∧
      span.stop = span.start.advance identifier.name.toList := by
  intro s hs
  unfold name
  rw [post_bind, post_peek]
  split
  next word heq =>
    have hne : s.current.kind ≠ .eof := by simp [heq]
    rw [post_bind]
    refine (hs.advance hne).imp fun token s' htaken => ?_
    obtain ⟨htoken, hend, h⟩ := htaken
    rw [post_bind, post_freshId, post_pure]
    refine ⟨[.name word], ⟨rfl, ?_, ?_⟩, (heq ▸ h).numbered _⟩
    · rw [htoken, hend]
    · rw [hend, hs.spelled s.current List.mem_cons_self hne, heq]
      rfl
  next => trivial

/-- A statement is built behind the last token read. -/
theorem Took.stmt {place : Position} {kind : StmtKind} (h : Took s ts s') :
    Post (Parser.stmt place kind) s' (fun statement s'' => statement.kind = kind ∧ Took s ts s'')
      fun _ => True := by
  unfold Parser.stmt
  rw [post_bind, post_freshId, post_bind, post_spanFrom]
  exact ⟨rfl, h.numbered _⟩

/-- An expression is built behind the last token read. -/
theorem Took.expr {place : Position} {kind : ExprKind} {g : Expr → Parser β}
    {Q : β → State → Prop} (h : Took s ts s')
    (hg : ∀ id s'', s''.previousEnd = s'.previousEnd → Took s ts s'' →
      Post (g ⟨id, ⟨place, s'.previousEnd⟩, kind⟩) s'' Q fun _ => True) :
    Post (Parser.expr place kind >>= g) s' Q fun _ => True := by
  unfold Parser.expr
  rw [post_bind, post_bind, post_freshId, post_bind, post_spanFrom]
  exact hg _ _ rfl (h.numbered _)

end Parser

end LuaCompiler
