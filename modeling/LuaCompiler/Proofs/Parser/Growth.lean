import LuaCompiler.Proofs.Parser.Forward
import LuaCompiler.Proofs.Tree.Nodes

/-!
# Parsers grow trees in a row

A production reads a stretch of tokens and builds nodes over it. The nodes stand in a row between
the place where the production started and the end of the token that it read last, and their
identities were given out in the order in which the nodes were completed. The name of an attribute
takes an identity that no node has; without attributes every identity is that of a node.

* `Grown plain place number nodes s`: the nodes that were built since a place and an identity.
* `Grows`, `Begins`, `Continues`: productions that may read nothing, that read something, and that
  go on with nodes built before.
* `State.Tidy.read`, `Grown.close`: a token is read, a node is completed.
-/

namespace LuaCompiler

open Token (Kind)

/-! ## Attributes -/

/-- Whether one of the names behind `local`, parted by commas, has an attribute. -/
def isAttributed : List Kind → Bool
  | .name _ :: .symbol .less :: _ => true
  | .name _ :: .symbol .comma :: rest => isAttributed rest
  | _ => false

/-- Whether a `local` statement among some tokens has an attribute. -/
def usesAttribute : List Kind → Bool
  | [] => false
  | kind :: rest => kind == .keyword .local && isAttributed rest || usesAttribute rest

theorem usesAttribute_tail {kind : Kind} {rest : List Kind}
    (h : usesAttribute (kind :: rest) = false) : usesAttribute rest = false :=
  (Bool.or_eq_false_iff.1 h).2

/-- Behind `local` no attribute is ahead if none is used. -/
theorem isAttributed_of_local {rest : List Kind}
    (h : usesAttribute (.keyword .local :: rest) = false) : isAttributed rest = false := by
  simpa using (Bool.or_eq_false_iff.1 h).1

namespace Parser

variable {α β : Type} {plain : Prop} {s s' : State} {place : Position} {number : Nat}
  {nodes : List Node}

/-! ## What was built -/

/-- Tokens in the order of the text, from a place on. -/
def InOrder : Position → List Token → Prop
  | _, [] => True
  | lo, token :: rest =>
    lo.le token.span.start = true ∧ token.span.start.le token.span.stop = true ∧
      InOrder token.span.stop rest

/-- A state before tokens in order, of which the last one is empty if it is the text's end. If the
source is `plain`, no attribute is ahead. -/
structure State.Tidy (plain : Prop) (s : State) : Prop where
  ordered : InOrder s.previousEnd s.ahead
  ends : s.ending = none → ∀ token ∈ s.ahead.getLast?, token.span.stop = token.span.start
  unmarked : plain → usesAttribute (s.ahead.map Token.kind) = false

theorem State.Tidy.previousEnd_le (h : s.Tidy plain) :
    s.previousEnd.le s.current.span.start = true := h.ordered.1

/-- **The nodes that were built since a place and an identity.** They stand in a row up to the end
of the token read last, and their identities rise. In a plain source no identity is left out. -/
structure Grown (plain : Prop) (place : Position) (number : Nat) (nodes : List Node) (s : State) :
    Prop where
  row : InRow place nodes s.previousEnd
  numbers : Rising number ((Node.allOf nodes).map Node.id) s.nextId
  dense : plain → number + (Node.allOf nodes).length = s.nextId
  tidy : s.Tidy plain

/-- A parser builds nodes behind the token read last. -/
def Grows (plain : Prop) (p : Parser α) (nodes : α → List Node) : Prop :=
  ∀ s, s.Tidy plain →
    Post p s (fun a s' => Grown plain s.previousEnd s.nextId (nodes a) s') fun _ => True

/-- A parser reads a token and builds nodes from there on. -/
def Begins (plain : Prop) (p : Parser α) (nodes : α → List Node) : Prop :=
  ∀ s, s.Tidy plain →
    Post p s (fun a s' => Grown plain s.current.span.start s.nextId (nodes a) s') fun _ => True

/-- A parser goes on with nodes that were built since a place. -/
def Continues (plain : Prop) (place : Position) (base : List Node) (p : Parser α)
    (nodes : α → List Node) : Prop :=
  ∀ number s, Grown plain place number base s →
    Post p s (fun a s' => Grown plain place number (nodes a) s') fun _ => True

theorem Grown.refl (hs : s.Tidy plain) : Grown plain s.previousEnd s.nextId [] s where
  row := inRow_nil.2 (Position.le_refl _)
  numbers := by simp [Rising]
  dense _ := by simp
  tidy := hs

/-- Nodes that grow behind others stand behind them. -/
theorem Grown.trans {more : List Node} (h : Grown plain place number nodes s)
    (h' : Grown plain s.previousEnd s.nextId more s') :
    Grown plain place number (nodes ++ more) s' where
  row := h.row.append h'.row
  numbers := by
    rw [Node.allOf_append, List.map_append]
    exact rising_append.2 ⟨s.nextId, h.numbers, h'.numbers⟩
  dense hplain := by
    have hfirst := h.dense hplain
    have hrest := h'.dense hplain
    rw [Node.allOf_append, List.length_append]
    omega
  tidy := h'.tidy

/-- Nodes stand behind an earlier place as well. -/
theorem Grown.before {lo : Position} (h : Grown plain place number nodes s)
    (hlo : lo.le place = true) : Grown plain lo number nodes s :=
  ⟨h.row.mono hlo (Position.le_refl _), h.numbers, h.dense, h.tidy⟩

/-- What begins at a token grows. -/
theorem Begins.grows {p : Parser α} {nodes : α → List Node} (hp : Begins plain p nodes) :
    Grows plain p nodes :=
  fun s hs => (hp s hs).imp fun _ _ h => h.before hs.previousEnd_le

/-- A node is completed over the nodes built last, with a span of its own. -/
theorem Grown.cover {span : Span} (h : Grown plain place number nodes s)
    (hrow : InRow place [⟨s.nextId, span, nodes⟩] s.previousEnd) :
    Grown plain place number [⟨s.nextId, span, nodes⟩] { s with nextId := s.nextId + 1 } where
  row := hrow
  numbers := by
    rw [Node.allOf_cons, Node.allOf_nil, List.map_append]
    exact rising_append.2 ⟨s.nextId, h.numbers, Nat.le_refl _, Nat.le_refl _⟩
  dense hplain := by
    have hinner := h.dense hplain
    simp only [Node.allOf_cons, Node.allOf_nil, List.length_append, List.length_singleton]
    omega
  tidy := ⟨h.tidy.ordered, h.tidy.ends, h.tidy.unmarked⟩

/-- **A node is completed**: it takes the nodes built since it started. -/
theorem Grown.close (h : Grown plain place number nodes s) :
    Grown plain place number [⟨s.nextId, ⟨place, s.previousEnd⟩, nodes⟩]
      { s with nextId := s.nextId + 1 } :=
  h.cover (inRow_single (Position.le_refl _) (Node.nested_iff.2 h.row) (Position.le_refl _))

/-- A node in parentheses has their span. -/
theorem Grown.widen {node : Node} (h : Grown plain place number [node] s) :
    Grown plain place number [{ node with span := ⟨place, s.previousEnd⟩ }] s := by
  obtain ⟨hstart, hnested, hstop⟩ := inRow_cons.1 h.row
  have hchildren := (Node.nested_iff.1 hnested).mono hstart (inRow_nil.1 hstop)
  refine ⟨inRow_single (Position.le_refl _) (Node.nested_iff.2 hchildren) (Position.le_refl _),
    ?_, fun hplain => ?_, h.tidy⟩
  · simpa only [Node.allOf_cons, Node.allOf_nil, List.map_append, List.map_cons] using h.numbers
  · simpa only [Node.allOf_cons, Node.allOf_nil, List.length_append, List.length_cons]
      using h.dense hplain

/-- Nodes that no tree keeps leave a gap in the identities. -/
theorem Grown.forget {more : List Node} (h : Grown plain place number (nodes ++ more) s)
    (hplain : ¬ plain) : Grown plain place number nodes s := by
  have hnumbers := h.numbers
  rw [Node.allOf_append, List.map_append] at hnumbers
  obtain ⟨mid, hnodes, hmore⟩ := rising_append.1 hnumbers
  exact ⟨h.row.front, hnodes.mono (Nat.le_refl _) hmore.le, fun hp => absurd hp hplain, h.tidy⟩

theorem Grown.as {nodes' : List Node} (h : Grown plain place number nodes s)
    (he : nodes' = nodes) : Grown plain place number nodes' s := he ▸ h

/-- An event leaves the nodes as they are. -/
theorem Grown.noted (event : Scope.Event) (h : Grown plain place number nodes s) :
    Grown plain place number nodes { s with events := event :: s.events } :=
  ⟨h.row, h.numbers, h.dense, h.tidy.ordered, h.tidy.ends, h.tidy.unmarked⟩

/-! ## Parsers in a row -/

section Sequence

variable {p : Parser α} {g : α → Parser β} {more : α → List Node} {Q : β → State → Prop}

/-- A parser is called, and its nodes join those that have grown. -/
theorem Grown.bind (h : Grown plain place number nodes s) (hp : Grows plain p more)
    (hg : ∀ a s', Grown plain place number (nodes ++ more a) s' → Post (g a) s' Q fun _ => True) :
    Post (p >>= g) s Q fun _ => True := by
  rw [post_bind]
  exact (hp s h.tidy).imp fun a s' h' => hg a s' (h.trans h')

/-- A parser that builds nothing before another. -/
theorem Grown.skip (h : Grown plain place number nodes s) (hp : Grows plain p fun _ => [])
    (hg : ∀ a s', Grown plain place number nodes s' → Post (g a) s' Q fun _ => True) :
    Post (p >>= g) s Q fun _ => True :=
  h.bind hp fun a s' h' => hg a s' (by rwa [List.append_nil] at h')

/-- Noting an event grows nothing. -/
theorem Grown.note {event : Scope.Event} {g : Unit → Parser β}
    (h : Grown plain place number nodes s)
    (hg : ∀ s', Grown plain place number nodes s' → Post (g ()) s' Q fun _ => True) :
    Post (Parser.note event >>= g) s Q fun _ => True := by
  rw [post_bind, post_note]
  exact hg _ (h.noted event)

/-- One of two parsers before another. -/
theorem Grown.join {c : Prop} [Decidable c] {q : Parser α} (h : Grown plain place number nodes s)
    (hp : Grows plain p more) (hq : Grows plain q more)
    (hg : ∀ a s', Grown plain place number (nodes ++ more a) s' → Post (g a) s' Q fun _ => True) :
    Post (if c then p >>= g else q >>= g) s Q fun _ => True := by
  split
  next => exact h.bind hp hg
  next => exact h.bind hq hg

/-- The last parser of a row. -/
theorem Grown.last {Q : α → State → Prop} (h : Grown plain place number nodes s)
    (hp : Grows plain p more)
    (hg : ∀ a s', Grown plain place number (nodes ++ more a) s' → Q a s') :
    Post p s Q fun _ => True :=
  (hp s h.tidy).imp fun a s' h' => hg a s' (h.trans h')

/-- The first parser of a production that starts here. -/
theorem State.Tidy.bind (hs : s.Tidy plain) (hp : Begins plain p more)
    (hg : ∀ a s', Grown plain s.current.span.start s.nextId (more a) s' →
      Post (g a) s' Q fun _ => True) : Post (p >>= g) s Q fun _ => True := by
  rw [post_bind]
  exact (hp s hs).imp hg

/-- A parser that goes on with the nodes built so far, before another. -/
theorem Grown.continue {base : List Node} (h : Grown plain place number base s)
    (hp : Continues plain place base p more)
    (hg : ∀ a s', Grown plain place number (more a) s' → Post (g a) s' Q fun _ => True) :
    Post (p >>= g) s Q fun _ => True := by
  rw [post_bind]
  exact (hp number s h).imp hg

end Sequence

/-! ## Single steps -/

theorem Grows.leaving {p : Parser α} {more : α → List Node} (hp : Grows plain p more) :
    Grows plain (leaving p) more := by
  intro s hs
  rw [post_leaving]
  exact (hp s hs).mono (fun _ _ h => h.noted .leave) fun _ _ => trivial

theorem grows_isBlockEnd : Grows plain isBlockEnd fun _ => [] := by
  intro s hs
  unfold isBlockEnd
  rw [post_bind, post_peek]
  split <;> exact Grown.refl hs

theorem grows_isNext (kind : Kind) : Grows plain (isNext kind) fun _ => [] :=
  fun _ hs => Grown.refl hs

/-- The tokens ahead once a token was read: those behind it, or the end of the text once more. -/
def Next (s s' : State) : Prop := s'.ahead = s.rest ∨ s.rest = [] ∧ s'.ahead = [s.current]

/-- **Reading a token** moves the place behind it. -/
theorem State.Tidy.read (hs : s.Tidy plain) :
    Post advance s (fun token s' => token = s.current ∧ s'.previousEnd = s.current.span.stop ∧
      Grown plain s.current.span.start s.nextId [] s' ∧ Next s s') fun _ => True := by
  obtain ⟨-, hcurrent, hrest⟩ := hs.ordered
  have hgrown {s' : State} (hend : s'.previousEnd = s.current.span.stop)
      (hid : s'.nextId = s.nextId) (htidy : s'.Tidy plain) :
      Grown plain s.current.span.start s.nextId [] s' := by
    refine ⟨inRow_nil.2 (hend ▸ hcurrent), ?_, fun _ => ?_, htidy⟩
    · simp [Rising, hid]
    · simp [hid]
  unfold advance
  rw [post_bind, post_get]
  split
  next next rest heq =>
    have hahead : s.ahead = s.current :: next :: rest := by rw [State.ahead, heq]
    rw [heq] at hrest
    refine ⟨rfl, rfl, hgrown rfl rfl ⟨hrest, fun hend token htoken => ?_, fun hplain => ?_⟩,
      .inl heq.symm⟩
    · have hlast := hs.ends hend token
      rw [hahead, List.getLast?_cons_cons] at hlast
      exact hlast htoken
    · have hmarked := hs.unmarked hplain
      rw [hahead, List.map_cons] at hmarked
      exact usesAttribute_tail hmarked
  next => trivial
  next heq hend =>
    have hahead : s.ahead = [s.current] := by rw [State.ahead, heq]
    have hempty : s.current.span.stop = s.current.span.start := by
      apply hs.ends hend
      rw [hahead]
      rfl
    refine ⟨rfl, rfl, hgrown rfl rfl ⟨?_, hs.ends, hs.unmarked⟩, .inr ⟨heq, hahead⟩⟩
    -- the end of the text has no width, so it can be read again
    change InOrder s.current.span.stop s.ahead
    rw [hahead]
    exact ⟨hempty ▸ Position.le_refl _, hcurrent, trivial⟩

theorem begins_advance : Begins plain advance fun _ => [] :=
  fun _ hs => hs.read.imp fun _ _ h => h.2.2.1

/-- A token that is taken is no node. -/
theorem grows_accept (kind : Kind) : Grows plain (accept kind) fun _ => [] := by
  intro s hs
  refine (Grown.refl hs).skip (grows_isNext kind) fun b s' h => ?_
  cases b with
  | true => exact h.skip begins_advance.grows fun _ s' h => h
  | false => exact h

/-- What a production does that starts with a token or without it. -/
theorem State.Tidy.accept {kind : Kind} {g : Bool → Parser β} {Q : β → State → Prop}
    (hs : s.Tidy plain)
    (htrue : ∀ s', s.current.kind = kind → Next s s' →
      Grown plain s.current.span.start s.nextId [] s' → Post (g true) s' Q fun _ => True)
    (hfalse : Post (g false) s Q fun _ => True) :
    Post (Parser.accept kind >>= g) s Q fun _ => True := by
  rw [Parser.accept, bind_assoc, post_bind, post_isNext]
  split
  next heq =>
    rw [bind_assoc, post_bind]
    exact hs.read.imp fun _ s' ⟨_, _, h, hnext⟩ => htrue s' (eq_of_beq heq) hnext h
  next => exact hfalse

/-- A token that has to be there is no node. -/
theorem begins_expect (kind : Kind) : Begins plain (expect kind) fun _ => [] := by
  intro s hs
  rw [expect, post_bind, post_isNext]
  split
  next => exact hs.bind begins_advance fun _ s' h => h
  next => trivial

theorem begins_expectWord (word : Keyword) : Begins plain (expectWord word) fun _ => [] :=
  begins_expect _

theorem begins_expectSign (sign : Symbol) : Begins plain (expectSign sign) fun _ => [] :=
  begins_expect _

theorem grows_acceptSign (sign : Symbol) : Grows plain (acceptSign sign) fun _ => [] :=
  grows_accept _

/-- A node that is one token. -/
theorem State.Tidy.leaf (build : NodeId → Span → α) (node : α → Node) (hs : s.Tidy plain)
    (hnode : ∀ id span, node (build id span) = ⟨id, span, []⟩) :
    Post (do
      let token ← advance
      return build (← freshId) token.span) s
      (fun a s' => Next s s' ∧ Grown plain s.current.span.start s.nextId [node a] s')
      fun _ => True := by
  rw [post_bind]
  refine hs.read.imp fun token s' ⟨htoken, hend, h, hnext⟩ => ?_
  rw [post_bind, post_freshId, post_pure, hnode, htoken]
  have hspan : s.current.span = ⟨s.current.span.start, s'.previousEnd⟩ := by rw [hend]
  rw [hspan]
  exact ⟨hnext, h.close⟩

/-- What is built behind the last token read takes the nodes built since its start. -/
theorem Grown.build {node : α → Node} (build : NodeId → Span → α)
    (h : Grown plain place number nodes s)
    (hnode : ∀ id span, node (build id span) = ⟨id, span, nodes⟩) :
    Post (do return build (← freshId) (← spanFrom place)) s
      (fun a s' => Grown plain place number [node a] s') fun _ => True := by
  rw [post_bind, post_freshId, post_bind, post_spanFrom, post_pure, hnode]
  exact h.close

/-- Nodes that have grown become one expression. -/
theorem Grown.expr {kind : ExprKind} (h : Grown plain place number kind.children s) :
    Post (Parser.expr place kind) s (fun e s' => Grown plain place number [e.node] s')
      fun _ => True :=
  h.build (fun id span => Expr.mk id span kind) fun _ _ => by rw [Expr.node]

/-- Or one statement. -/
theorem Grown.stmt {kind : StmtKind} (h : Grown plain place number kind.children s) :
    Post (Parser.stmt place kind) s
      (fun statement s' => Grown plain place number [statement.node] s')
      fun _ => True :=
  h.build (fun id span => Stmt.mk id span kind) fun _ _ => rfl

end Parser

end LuaCompiler
