import LuaCompiler.Proofs.Parser.Forward

/-!
# Parsers that take tokens

Two parsers are compared in a state: the second one has a trap behind the end of the text, and what it
uses may be something else. Where both do the same, no step looks behind the end, and what was read was
taken.

* `Past`: a token was taken. `Past.trans`, `Forward.past`: and then others, or others before.
* `Alike`: two parsers do the same in a state, and run out of bound only if they may. `After`: they do
  so wherever a token was taken.
* `Alike.bind`, `Alike.after`: **what two parsers do in a row is alike if it is in each of them.**
* `alike_advance`: **a token is taken without a look behind the end of the text**, if it is not the end.
-/

namespace LuaCompiler

namespace Parser

variable {α β : Type} {s s' s'' : State}

/-! ## Tokens taken -/

/-- **A state past another**: the token to be read next was taken, and maybe others behind it. -/
structure Past (s s' : State) : Prop where
  ahead : s'.ahead <:+ s.rest
  ending : s'.ending = s.ending

/-- What is past a state lies ahead of it. -/
theorem Past.forward (h : Past s s') : Forward s s' :=
  ⟨h.ahead.trans (List.suffix_cons _ _), h.ending⟩

/-- One token read is enough on the way. -/
theorem Past.trans (h : Past s s') (h' : Forward s' s'') : Past s s'' :=
  ⟨h'.ahead.trans h.ahead, h'.ending.trans h.ending⟩

/-- The same with the token read at the end. -/
theorem Forward.past (h : Forward s s') (h' : Past s' s'') : Past s s'' := by
  refine ⟨h'.ahead.trans ?_, h'.ending.trans h.ending⟩
  rcases List.suffix_cons_iff.1 h.ahead with heq | hsuffix
  · have hrest : s'.rest = s.rest := (List.cons.inj heq).2
    exact hrest ▸ List.suffix_refl _
  · exact (List.suffix_cons _ _).trans hsuffix

/-- Past a state fewer tokens are left. -/
theorem Past.length_lt (h : Past s s') : s'.rest.length < s.rest.length := h.ahead.length_le

/-- Ahead of a state no more tokens are left. -/
theorem Forward.length_le (h : Forward s s') : s'.rest.length ≤ s.rest.length :=
  Nat.le_of_succ_le_succ h.ahead.length_le

/-- A state whose last token is the end of the text, if there is no fault behind it. -/
def State.IsEnded (s : State) : Prop :=
  s.ending = none → ∀ token ∈ s.ahead.getLast?, token.kind = .eof

/-- The last token stays last. -/
theorem Forward.isEnded (h : Forward s s') (hs : s.IsEnded) : s'.IsEnded := by
  intro hending
  obtain ⟨taken, htaken⟩ := h.ahead
  have hlast : s.ahead.getLast? = s'.ahead.getLast? := by
    rw [← htaken, List.getLast?_append]
    simp [State.ahead, List.getLast?_cons]
  exact hlast ▸ hs (h.ending ▸ hending)

/-- The tokens do not end before the end of the text. -/
theorem State.IsEnded.ending_ne_none (hs : s.IsEnded) (hkind : s.current.kind ≠ .eof)
    (hrest : s.rest = []) : s.ending ≠ none := by
  intro hending
  refine hkind (hs hending s.current ?_)
  rw [State.ahead, hrest]
  rfl

/-! ## Parsers compared -/

/-- A state with a fault behind its tokens, if there is none yet. -/
def State.trapped (s : State) (trap : Option (Located LexicalFault)) : State :=
  { s with ending := s.ending.or trap }

theorem State.trapped_none (s : State) : s.trapped none = s := by
  rw [trapped, Option.or_none]

/-- What two parsers are compared for: the second one has a trap behind the end of the text, and they
may run out of bound or must not. -/
structure Probe where
  trap : Option (Located LexicalFault)
  mayExhaust : Prop

variable {v : Probe}

/-- How a run from a state may end: further on and as `Q` says, or with a fault, but out of bound only
if it may. -/
def Probe.Allows (v : Probe) (s : State) (Q : α → State → Prop) :
    Except (Located SyntaxFault) α × State → Prop
  | (.ok a, s') => Forward s s' ∧ Q a s'
  | (.error fault, _) => fault.fault = .tooDeep → v.mayExhaust

/-- **Two parsers do the same** in a state, and end as they may. -/
def Alike (v : Probe) (p q : Parser α) (s : State) (Q : α → State → Prop) : Prop :=
  s.IsEnded → q.run (s.trapped v.trap) = ((p.run s).1, (p.run s).2.trapped v.trap) ∧
    v.Allows s Q (p.run s)

/-- Two parsers do the same wherever a token was taken. -/
def After (v : Probe) (s : State) (p q : Parser α) : Prop :=
  ∀ s', Past s s' → Alike v p q s' fun _ _ => True

section Sequence

variable {p q : Parser α} {f g : α → Parser β} {Q : β → State → Prop}

/-- What is allowed from a state is allowed from one before it. -/
theorem Probe.Allows.imp {Q Q' : α → State → Prop} {run : Except (Located SyntaxFault) α × State}
    (h : v.Allows s Q run) (hforward : Forward s' s)
    (hQ : ∀ a s'', Forward s s'' → Q a s'' → Q' a s'') : v.Allows s' Q' run := by
  rcases run with ⟨fault | a, s''⟩
  · exact h
  · exact ⟨hforward.trans h.1, hQ a s'' h.1 h.2⟩

theorem Alike.imp {Q Q' : α → State → Prop} (h : Alike v p q s Q)
    (hQ : ∀ a s', Forward s s' → Q a s' → Q' a s') : Alike v p q s Q' :=
  fun hs => ⟨(h hs).1, (h hs).2.imp (Forward.refl s) hQ⟩

/-- Two runs are alike whatever is asked of their results. -/
theorem Alike.any {Q : α → State → Prop} (h : Alike v p q s Q) : Alike v p q s fun _ _ => True :=
  h.imp fun _ _ _ _ => trivial

/-- What was taken in any case was taken in some. -/
theorem Alike.whenever {c : α → Prop} (h : Alike v p q s fun _ => Past s) :
    Alike v p q s fun a s' => c a → Past s s' :=
  h.imp fun _ _ _ hpast _ => hpast

/-- One parser behind another. -/
theorem Alike.bind {R : α → State → Prop} (h : Alike v p q s R)
    (hk : ∀ a s', Forward s s' → R a s' → Alike v (f a) (g a) s' Q) :
    Alike v (p >>= f) (q >>= g) s Q := by
  intro hs
  obtain ⟨hsame, hend⟩ := h hs
  have hfirst : (p >>= f).run s = ExceptT.bindCont f (p.run s).1 (p.run s).2 := rfl
  have hsecond : (q >>= g).run (s.trapped v.trap) = ExceptT.bindCont g
    (q.run (s.trapped v.trap)).1 (q.run (s.trapped v.trap)).2 := rfl
  rw [hfirst, hsecond, hsame]
  rcases hrun : p.run s with ⟨fault | a, s'⟩ <;> rw [hrun] at hend
  · exact ⟨rfl, hend⟩
  · obtain ⟨hforward, hR⟩ := hend
    obtain ⟨hsame', hend'⟩ := hk a s' hforward hR (hforward.isEnded hs)
    exact ⟨hsame', hend'.imp hforward fun _ _ _ hQ => hQ⟩

/-- Behind a token that was read, two parsers that agree there agree. -/
theorem After.past (h : After v s p q) (hpast : Past s s') : Alike v p q s' fun _ => Past s :=
  (h s' hpast).imp fun _ _ hforward _ => hpast.trans hforward

/-- What comes behind a token that was taken. -/
theorem Alike.after (h : Alike v p q s fun _ => Past s) (hk : ∀ a, After v s (f a) (g a)) :
    Alike v (p >>= f) (q >>= g) s fun _ => Past s :=
  h.bind fun a _ _ hpast => (hk a).past hpast

/-- A test on what both know. -/
theorem Alike.ite {c : Prop} [Decidable c] {p' q' : Parser α} {Q : α → State → Prop}
    (h : Alike v p q s Q) (h' : Alike v p' q' s Q) :
    Alike v (if c then p else p') (if c then q else q') s Q := by
  split
  · exact h
  · exact h'

/-- Runs that are alike in every state past one are alike in a row. -/
theorem After.bind (h : After v s p q) (hk : ∀ a, After v s (f a) (g a)) :
    After v s (p >>= f) (q >>= g) :=
  fun s' hpast => (h s' hpast).bind fun a s'' hforward _ => hk a s'' (hpast.trans hforward)

theorem After.ite {c : Prop} [Decidable c] {p' q' : Parser α} (h : After v s p q)
    (h' : After v s p' q') : After v s (if c then p else p') (if c then q else q') :=
  fun s' hpast => (h s' hpast).ite (h' s' hpast)

/-- One of two parsers before another. -/
theorem After.join {c : Prop} [Decidable c] {p' q' : Parser α} (h : After v s p q)
    (h' : After v s p' q') (hk : ∀ a, After v s (f a) (g a)) :
    After v s (if c then p >>= f else p' >>= f) (if c then q >>= g else q' >>= g) :=
  .ite (h.bind hk) (h'.bind hk)

/-- A state further on asks for less. -/
theorem After.mono (h : After v s p q) (hpast : Past s s') : After v s' p q :=
  fun s'' hpast' => h s'' (hpast.trans hpast'.forward)

/-- A scope is left in both runs. -/
theorem After.leaving (h : After v s p q) : After v s (leaving p) (leaving q) := by
  intro s' hpast hs
  obtain ⟨hsame, hend⟩ := h s' hpast hs
  have hfirst : (Parser.leaving p).run s' = ((p.run s').1, (p.run s').2.left) := rfl
  have hsecond : (Parser.leaving q).run (s'.trapped v.trap) =
    ((q.run (s'.trapped v.trap)).1, (q.run (s'.trapped v.trap)).2.left) := rfl
  rw [hfirst, hsecond, hsame]
  rcases hrun : p.run s' with ⟨fault | a, s''⟩ <;> rw [hrun] at hend
  · exact ⟨rfl, hend⟩
  · exact ⟨rfl, ⟨hend.1.ahead, hend.1.ending⟩, trivial⟩

end Sequence

/-! ## Single steps -/

section Steps

variable {p q : Parser α} {Q : α → State → Prop} {kind : Token.Kind}

theorem Alike.pure {a : α} (h : Q a s) : Alike v (pure a) (pure a) s Q :=
  fun _ => ⟨rfl, Forward.refl s, h⟩

/-- Both runs know the place. -/
theorem Alike.here {f g : Position → Parser α}
    (h : Alike v (f s.current.span.start) (g s.current.span.start) s Q) :
    Alike v (Parser.here >>= f) (Parser.here >>= g) s Q := h

/-- Both runs see the same token. -/
theorem Alike.peek {f g : Token.Kind → Parser α}
    (h : Alike v (f s.current.kind) (g s.current.kind) s Q) :
    Alike v (Parser.peek >>= f) (Parser.peek >>= g) s Q := h

/-- Both runs see whether a token is next. -/
theorem Alike.isNext {f g : Bool → Parser α}
    (h : Alike v (f (s.current.kind == kind)) (g (s.current.kind == kind)) s Q) :
    Alike v (Parser.isNext kind >>= f) (Parser.isNext kind >>= g) s Q := h

/-- Both runs note the same event. -/
theorem Alike.note {event : Scope.Event} {f g : Unit → Parser α}
    (h : Alike v (f ()) (g ()) { s with events := event :: s.events } Q) :
    Alike v (Parser.note event >>= f) (Parser.note event >>= g) s Q :=
  fun hs => ⟨(h hs).1, (h hs).2.imp ⟨List.suffix_refl _, rfl⟩ fun _ _ _ hQ => hQ⟩

/-- Both runs fail with the same fault, which is not the bound's. -/
theorem alike_failAt (fault : SyntaxFault) (h : fault ≠ .tooDeep) (place : Position) :
    Alike v (failAt fault place) (failAt fault place) s Q :=
  fun _ => ⟨rfl, fun heq => absurd heq h⟩

/-- So do they at a token that is not expected. -/
theorem alike_unexpected {fault : Token.Kind → SyntaxFault} (h : ∀ found, fault found ≠ .tooDeep) :
    Alike v (unexpected fault) (unexpected fault) s Q :=
  alike_failAt _ (h s.current.kind) _

/-- A run may exhaust its bound only where that is allowed. -/
theorem alike_exhausted (h : v.mayExhaust) : Alike v exhausted exhausted s Q :=
  fun _ => ⟨rfl, fun _ => h⟩

/-- **A token is taken**, and what stands behind the end of the text is not looked at. -/
theorem alike_advance (hkind : s.current.kind ≠ .eof) :
    Alike v advance advance s fun _ => Past s := by
  intro hs
  have hending := hs.ending_ne_none hkind
  obtain ⟨current, rest, ending, previousEnd, nextId, events⟩ := s
  cases rest with
  | cons next rest => exact ⟨rfl, ⟨List.suffix_cons _ _, rfl⟩, List.suffix_refl _, rfl⟩
  | nil =>
    cases ending with
    -- the only place where the two could part: the end of the text, which is not this token
    | none => exact absurd rfl (hending rfl)
    | some fault => exact ⟨rfl, fun heq => nomatch heq⟩

/-- A token is read in both runs or in neither; if it is, they go on past the state. -/
theorem Alike.accept {f g : Bool → Parser α} (hkind : kind ≠ .eof)
    (htrue : ∀ s', Past s s' → Alike v (f true) (g true) s' Q)
    (hfalse : Alike v (f false) (g false) s Q) :
    Alike v (Parser.accept kind >>= f) (Parser.accept kind >>= g) s Q := by
  rw [Parser.accept, bind_assoc, bind_assoc]
  refine .isNext ?_
  split
  next heq =>
    rw [bind_assoc, bind_assoc]
    refine (alike_advance (eq_of_beq heq ▸ hkind)).bind fun _ s' _ hpast => ?_
    exact htrue s' hpast
  next => exact hfalse

/-- The same for a sign. -/
theorem Alike.acceptSign {f g : Bool → Parser α} {sign : Symbol}
    (htrue : ∀ s', Past s s' → Alike v (f true) (g true) s' Q)
    (hfalse : Alike v (f false) (g false) s Q) :
    Alike v (Parser.acceptSign sign >>= f) (Parser.acceptSign sign >>= g) s Q :=
  .accept nofun htrue hfalse

/-- The same for a keyword. -/
theorem Alike.acceptWord {f g : Bool → Parser α} {word : Keyword}
    (htrue : ∀ s', Past s s' → Alike v (f true) (g true) s' Q)
    (hfalse : Alike v (f false) (g false) s Q) :
    Alike v (Parser.acceptWord word >>= f) (Parser.acceptWord word >>= g) s Q :=
  .accept nofun htrue hfalse

/-- A token that has to be there is read. -/
theorem alike_expect (hkind : kind ≠ .eof) :
    Alike v (expect kind) (expect kind) s fun _ => Past s := by
  refine .isNext ?_
  split
  next heq =>
    refine (alike_advance (eq_of_beq heq ▸ hkind)).bind fun _ s' _ hpast => ?_
    exact .pure hpast
  next => exact alike_unexpected nofun

theorem alike_expectSign (sign : Symbol) :
    Alike v (expectSign sign) (expectSign sign) s fun _ => Past s := alike_expect nofun

/-- A name is read. -/
theorem alike_name : Alike v name name s fun _ => Past s := by
  refine .peek ?_
  split
  next word heq =>
    refine (alike_advance (by simp [heq])).bind fun _ s' _ hpast => ?_
    exact fun _ => ⟨rfl, ⟨List.suffix_refl _, rfl⟩, hpast.ahead, hpast.ending⟩
  next => exact alike_unexpected nofun

/-- Both runs see whether a block ends. -/
theorem Alike.isBlockEnd {f g : Bool → Parser α} (h : ∀ isEnd, Alike v (f isEnd) (g isEnd) s Q) :
    Alike v (Parser.isBlockEnd >>= f) (Parser.isBlockEnd >>= g) s Q := by
  unfold Parser.isBlockEnd
  rw [bind_assoc, bind_assoc]
  refine .peek ?_
  split <;> exact h _

/-- A dot or a colon is seen in both runs, and is not the end of the text. -/
theorem Alike.indexer {f g : Option Indexer → Parser α}
    (h : ∀ indexer, (indexer.isSome = true → s.current.kind ≠ .eof) →
      Alike v (f indexer) (g indexer) s Q) :
    Alike v (Parser.indexer? >>= f) (Parser.indexer? >>= g) s Q := by
  unfold Parser.indexer?
  rw [bind_assoc, bind_assoc]
  refine .peek ?_
  split
  next heq => exact h (some .dot) fun _ => by simp [heq]
  next heq => exact h (some .colon) fun _ => by simp [heq]
  next => exact h none nofun

/-! ### Behind a token -/

/-- Parsers that agree in every state agree past one. -/
theorem after_of {Q : State → α → State → Prop} (h : ∀ s', Alike v p q s' (Q s')) :
    After v s p q := fun s' _ => (h s').any

theorem after_pure (a : α) : After v s (pure a) (pure a) := fun _ _ => .pure trivial

theorem after_isNext (kind : Token.Kind) : After v s (isNext kind) (isNext kind) :=
  fun _ _ => .pure trivial

theorem after_freshId : After v s freshId freshId :=
  fun _ _ _ => ⟨rfl, ⟨List.suffix_refl _, rfl⟩, trivial⟩

theorem after_spanFrom (place : Position) : After v s (spanFrom place) (spanFrom place) :=
  fun _ _ => .pure trivial

theorem after_note (event : Scope.Event) : After v s (note event) (note event) :=
  fun _ _ _ => ⟨rfl, ⟨List.suffix_refl _, rfl⟩, trivial⟩

theorem after_unexpected {fault : Token.Kind → SyntaxFault} (h : ∀ found, fault found ≠ .tooDeep) :
    After v s (unexpected (α := α) fault) (unexpected fault) := fun _ _ => alike_unexpected h

theorem after_acceptSign (sign : Symbol) : After v s (acceptSign sign) (acceptSign sign) := by
  intro s' _
  have h : Alike v (acceptSign sign >>= pure) (acceptSign sign >>= pure) s' fun _ _ => True :=
    .acceptSign (fun _ _ => .pure trivial) (.pure trivial)
  rwa [bind_pure] at h

theorem after_acceptWord (word : Keyword) : After v s (acceptWord word) (acceptWord word) := by
  intro s' _
  have h : Alike v (acceptWord word >>= pure) (acceptWord word >>= pure) s' fun _ _ => True :=
    .acceptWord (fun _ _ => .pure trivial) (.pure trivial)
  rwa [bind_pure] at h

theorem after_expectSign (sign : Symbol) : After v s (expectSign sign) (expectSign sign) :=
  after_of fun _ => alike_expectSign sign

theorem after_expectWord (word : Keyword) : After v s (expectWord word) (expectWord word) :=
  after_of fun _ => alike_expect nofun

theorem after_name : After v s name name := after_of fun _ => alike_name

theorem after_isBlockEnd : After v s isBlockEnd isBlockEnd := by
  intro s' _
  have h : Alike v (isBlockEnd >>= pure) (isBlockEnd >>= pure) s' fun _ _ => True :=
    .isBlockEnd fun _ => .pure trivial
  rwa [bind_pure] at h

/-- What is built behind the last token taken. -/
theorem after_build (place : Position) (build : NodeId → Span → α) :
    After v s (do return build (← freshId) (← spanFrom place))
      (do return build (← freshId) (← spanFrom place)) :=
  after_freshId.bind fun _ => (after_spanFrom place).bind fun _ => after_pure _

theorem after_expr (place : Position) (kind : ExprKind) :
    After v s (expr place kind) (expr place kind) :=
  after_build place fun id span => Expr.mk id span kind

theorem after_stmt (place : Position) (kind : StmtKind) :
    After v s (stmt place kind) (stmt place kind) :=
  after_build place fun id span => Stmt.mk id span kind

theorem after_attributeMark : After v s attributeMark attributeMark :=
  (after_acceptSign _).bind fun _ => .ite
    (after_name.bind fun _ => after_expectSign _) (after_pure ())

end Steps

end Parser

end LuaCompiler
