import LuaCompiler.Parser
import LuaCompiler.Proofs.Parser.Statements

/-!
# The parser undoes printing

The parser takes the printed text of a tree to that tree, up to identities and places. The proof
follows the tree: each node is read as itself if its parts are, by the theorems for its production,
and the text is scanned as the tokens that were printed.

* `Expr.reading`, `blockReadable_of_shaped`: every tree of the grammar is read as itself.
* `parse_print`: the whole program.
-/

namespace LuaCompiler

open Token (Kind)

namespace Parser

variable {id : NodeId} {span : Span} {kind : ExprKind} {e base : Expr}

/-! ## Expressions -/

theorem readable_of_chains (hs : kind.isSuffixed = true) (h : Chains kind.tokens ⟨id, span, kind⟩) :
    Readable ⟨id, span, kind⟩ where
  climbs := by
    have hclimbs := h.climbs
    cases kind <;> first | exact hclimbs | cases hs
  chains _ := h
  constructs ht := by
    cases kind with
    | table fields => cases hs
    | _ => cases ht

theorem readable_of_climbs (hs : kind.isSuffixed = false)
    (ht : (Expr.mk id span kind).isTable = false)
    (h : Climbs kind.tokens ⟨id, span, kind⟩ kind.floor kind.reach) :
    Readable ⟨id, span, kind⟩ where
  climbs := h
  chains hs' := by
    rw [show kind.isSuffixed = true from hs'] at hs
    cases hs
  constructs ht' := by
    rw [ht'] at ht
    cases ht

/-- **An expression is read as itself**, or it is a method that is called. -/
def Reading (called : Bool) (e : Expr) : Prop :=
  Readable e ∨ called = true ∧ ∃ id span base identifier,
    e = ⟨id, span, .member base .colon identifier⟩ ∧ Readable base

theorem Reading.readable (h : Reading false e) : Readable e :=
  h.resolve_right fun h => (nomatch h.1)

theorem readable_call_of_reading {style : CallStyle} {arguments : List Expr}
    (hbase : Reading true base) (hfits : style.fits arguments = true)
    (h : ∀ e ∈ arguments, Readable e) : Readable ⟨id, span, .call base style arguments⟩ := by
  apply readable_of_chains rfl
  rw [ExprKind.tokens]
  rcases hbase with hbase | ⟨-, baseId, baseSpan, inner, identifier, rfl, hinner⟩
  · exact chains_call hbase.base hfits h
  · have hmethod : Chains _
        ⟨id, span, .call ⟨baseId, baseSpan, .member inner .colon identifier⟩ style arguments⟩ :=
      chains_method hinner.base identifier hfits h
    rw [← List.append_assoc] at hmethod
    exact hmethod

theorem climbs_binary {c : Connective} {left right : Expr} (hl : Readable left)
    (hr : Readable right) :
    Climbs (encloseIf (c.enclosesLeft left.kind) left.tokens ++
      c.sign :: encloseIf (c.enclosesRight right.kind) right.tokens)
      ⟨id, span, c.apply left right⟩ c.leftPriority c.rightPriority := by
  obtain ⟨floorL, reachL, hleft, hfloorL, hreachL⟩ := hl.left c
  obtain ⟨floorR, reachR, hright, hfloorR, hreachR⟩ := hr.right c
  exact climbs_connective hleft hright hfloorL hreachL hfloorR hreachR

end Parser

open LuaCompiler.Parser

mutual

/-- **Every expression of the grammar is read as itself.** -/
theorem Expr.reading : ∀ (e : Expr) {called : Bool}, e.Shaped called → Reading called e
  | ⟨_, _, kind⟩, _, h => kind.reading h

theorem ExprKind.reading : ∀ (kind : ExprKind) {called : Bool} {id : NodeId} {span : Span},
    kind.Shaped called → Reading called ⟨id, span, kind⟩
  | .name word, _, _, _, _ => .inl (readable_of_chains rfl (chains_name word))
  | .nil, _, _, _, _ => .inl (readable_of_climbs rfl rfl (climbs_literal rfl))
  | .boolean true, _, _, _, _ => .inl (readable_of_climbs rfl rfl (climbs_literal rfl))
  | .boolean false, _, _, _, _ => .inl (readable_of_climbs rfl rfl (climbs_literal rfl))
  | .number .., _, _, _, _ => .inl (readable_of_climbs rfl rfl (climbs_literal rfl))
  | .string _, _, _, _, _ => .inl (readable_of_climbs rfl rfl (climbs_literal rfl))
  | .vararg, _, _, _, _ => .inl (readable_of_climbs rfl rfl (climbs_literal rfl))
  | .function f, _, _, _, h => .inl (readable_of_climbs rfl rfl (climbs_function (f.readable h)))
  | .table fields, _, _, _, h => by
    have hfields := fieldsReadable fields h
    -- a table reads as an operand and as the argument of a call
    exact .inl ⟨climbs_table hfields, fun hs => (nomatch hs),
      fun _ {b} hb => takes_table hfields hb⟩
  | .binary operator left right, _, _, _, h =>
    .inl (readable_of_climbs rfl rfl
      (climbs_binary (c := .binary operator) (left.reading h.1).readable (right.reading h.2).readable))
  | .logical operator left right, _, _, _, h =>
    .inl (readable_of_climbs rfl rfl
      (climbs_binary (c := .logical operator) (left.reading h.1).readable
        (right.reading h.2).readable))
  | .unary operator argument, _, _, _, h => by
    obtain ⟨floor, reach, hargument, hfloor, hreach⟩ := (argument.reading h).readable.argument
    -- the operand is in brackets if it binds less than the operator
    exact .inl (readable_of_climbs rfl rfl (climbs_unary hargument hfloor hreach))
  | .member base .dot identifier, _, _, _, h =>
    .inl (readable_of_chains rfl (chains_member (base.reading h.1).readable.base identifier))
  | .member base .colon identifier, _, id, span, h =>
    .inr ⟨h.2.1 rfl, id, span, base, identifier, rfl, (base.reading h.1).readable⟩
  | .index base index, _, _, _, h =>
    .inl (readable_of_chains rfl
      (chains_index (base.reading h.1).readable.base (index.reading h.2).readable))
  | .call base style arguments, _, _, _, h =>
    .inl (readable_call_of_reading (base.reading h.1) h.2.1 (exprsReadable arguments h.2.2))

theorem exprsReadable : ∀ es : List Expr, ExprsShaped es → ∀ e ∈ es, Readable e
  | [], _, _, he => (nomatch he)
  | first :: rest, h, e, he => by
    rcases List.mem_cons.1 he with heq | he
    · rw [heq]
      exact (first.reading h.1).readable
    · exact exprsReadable rest h.2 e he

theorem fieldsReadable : ∀ fields : List Field, FieldsShaped fields →
    ∀ f ∈ fields, FieldReadable f.kind
  | [], _, _, hf => (nomatch hf)
  | ⟨_, _, kind⟩ :: rest, h, f, hf => by
    rcases List.mem_cons.1 hf with rfl | hf
    · exact kind.readable h.1
    · exact fieldsReadable rest h.2 f hf

theorem FieldKind.readable : ∀ kind : FieldKind, kind.Shaped → FieldReadable kind
  | .named _ value, h => (value.reading h.2).readable
  | .keyed key value, h => ⟨(key.reading h.1).readable, (value.reading h.2).readable⟩
  | .positional value, h => (Expr.reading value h).readable

theorem FunctionBody.readable : ∀ f : FunctionBody, f.Shaped → FunctionReadable f
  | ⟨_, _, _, _, body⟩, h => functionReadable (blockReadable h.2 (stmtsReadable body h.2))

theorem stmtsReadable : ∀ body : List Stmt, BlockShaped body → ∀ s ∈ body, StatementReadable s.kind
  | [], _, _, hs => (nomatch hs)
  | ⟨_, _, kind⟩ :: rest, h, s, hs => by
    rcases List.mem_cons.1 hs with rfl | hs
    · exact kind.readable h.1
    · exact stmtsReadable rest h.2.2 s hs

theorem StmtKind.readable : ∀ kind : StmtKind, kind.Shaped → StatementReadable kind
  | .local _ init, h => readable_local h.1 (exprsReadable init h.2.2)
  | .assignment targets init, h =>
    readable_assignment h.1 h.2.1 (exprsReadable targets h.2.2.1) h.2.2.2.1
      (exprsReadable init h.2.2.2.2)
  | .call expression, h => readable_call h.1 (expression.reading h.2).readable
  | .localFunction name f, h => readable_localFunction name (f.readable h.2)
  | .function _ f, h => readable_function h.1 (f.readable h.2)
  | .return arguments, h =>
    ⟨fun _ heq => by cases heq; exact exprsReadable arguments h, fun h => (nomatch h),
      fun h => (nomatch h)⟩
  | .break, _ => readable_break
  | .goto label, _ => readable_goto label
  | .label label, _ => readable_label label
  | .block body, h => readable_block (blockReadable h (stmtsReadable body h))
  | .while condition body, h =>
    readable_while (condition.reading h.1).readable (blockReadable h.2 (stmtsReadable body h.2))
  | .repeat body condition, h =>
    readable_repeat (blockReadable h.1 (stmtsReadable body h.1)) (condition.reading h.2).readable
  | .conditional first others otherwise, h =>
    readable_conditional (first.readable h.1) (clausesReadable others h.2.1)
      (elseReadable otherwise h.2.2)
  | .forNumeric _ first last step body, h =>
    readable_forNumeric (first.reading h.2.1).readable (last.reading h.2.2.1).readable
      (stepReadable step h.2.2.2.1) (blockReadable h.2.2.2.2 (stmtsReadable body h.2.2.2.2))
  | .forGeneric _ iterators body, h =>
    readable_forGeneric h.1 h.2.2.1 (exprsReadable iterators h.2.2.2.1)
      (blockReadable h.2.2.2.2 (stmtsReadable body h.2.2.2.2))

theorem stepReadable : ∀ step : Option Expr, StepShaped step → ∀ e, step = some e → Readable e
  | none, _, _, heq => (nomatch heq)
  | some step, h, _, heq => by
    cases heq
    exact (Expr.reading step h).readable

theorem Clause.readable : ∀ c : Clause, c.Shaped → ClauseReadable c
  | ⟨_, _, condition, body⟩, h =>
    ⟨(condition.reading h.1).readable, blockReadable h.2 (stmtsReadable body h.2)⟩

theorem clausesReadable : ∀ clauses : List Clause, ClausesShaped clauses →
    ∀ c ∈ clauses, ClauseReadable c
  | [], _, _, hc => (nomatch hc)
  | first :: rest, h, c, hc => by
    rcases List.mem_cons.1 hc with heq | hc
    · rw [heq]
      exact first.readable h.1
    · exact clausesReadable rest h.2 c hc

theorem elseReadable : ∀ otherwise : Option ElseClause, ElseShaped otherwise → ElseReadable otherwise
  | none, _ => trivial
  | some ⟨_, _, body⟩, h => blockReadable h (stmtsReadable body h)

end

/-! ## Programs -/

/-- **The tokens of a program are read as the program.** -/
theorem reads_chunk {body : List Stmt} {b : Nat} (h : BlockShaped body)
    (hb : 4 * (stmtTokens body).length + 1 ≤ b) :
    Reads (Parser.chunk b) (stmtTokens body) fun c _ => c.bare = (Chunk.mk body default).bare := by
  have hblock := (blockReadable h (stmtsReadable body h)).takes hb
  rw [Parser.chunk]
  refine Reads.note ?_
  -- nothing stands behind the statements but the end of the text
  rw [← List.append_nil (stmtTokens body)]
  refine hblock.bind rfl fun body' hbody => Reads.note ?_
  intro s hs
  rw [post_bind, post_get, hs.current, next_nil, beq_self_eq_true, if_pos rfl, post_pure]
  exact ⟨[], hs, by simp [Chunk.bare, hbody]⟩

/-- **The parser undoes printing**: the canonical text of every tree of the grammar is parsed, and as
the same tree up to identities and places. -/
theorem parse_print (chunk : Chunk) (h : BlockShaped chunk.body) :
    ∃ parsed, (parse chunk.print).result = .ok parsed ∧ parsed.bare = chunk.bare := by
  obtain ⟨hkinds, hfault⟩ := Scan.kinds_spaced (spells_block chunk.body h)
  unfold parse parseScan Chunk.print
  generalize Scan.ofText (spaced (stmtTokens chunk.body)).toList = scan at hkinds hfault
  obtain ⟨tokens, comments, fault⟩ := scan
  obtain rfl : fault = none := hfault
  cases tokens with
  | nil => simp at hkinds
  | cons first rest =>
    have hlength := congrArg List.length hkinds
    simp only [List.length_map, List.length_append, List.length_cons, List.length_nil] at hlength
    -- the parser takes its bound from the number of tokens, which is enough to read them
    have hreads := reads_chunk h (b := depthBound (first :: rest).length)
      (by rw [depthBound, List.length_cons]; omega)
    have hpost := hreads ⟨first, rest, none, Position.origin, 0, []⟩ ⟨hkinds, rfl⟩
    dsimp only
    unfold Post at hpost
    split at hpost
    next parsed s' hrun =>
      obtain ⟨-, -, hbare⟩ := hpost
      exact ⟨parsed, by rw [hrun], hbare⟩
    · exact hpost.elim

/-- A program with operators that need parentheses and operators that need none, and with the call
of a method of a string. -/
def groupingSample : Chunk :=
  let node (kind : ExprKind) : Expr := ⟨0, default, kind⟩
  let name (word : String) : Expr := node (.name word)
  let left := node (.binary .concat (name "a") (name "b"))
  let right := node (.unary .neg (node (.binary .pow (name "c") (node (.unary .neg (name "d"))))))
  let fields : List Field := [⟨0, default, .positional (node .vararg)⟩]
  let method := node (.member (node (.string "'s'")) .colon ⟨0, "m", default⟩)
  ⟨[⟨0, default, .local [⟨0, "x", default⟩] [node (.binary .concat left right)]⟩,
    ⟨0, default, .return [node (.call method .table [node (.table fields)])]⟩], default⟩

theorem parse_print_groupingSample :
    groupingSample.print = "local x = ( a .. b ) .. - c ^ - d ; return ( 's' ) : m \x7b ... \x7d ;" ∧
    BlockShaped groupingSample.body ∧
    ∃ parsed, (parse groupingSample.print).result = .ok parsed ∧
      parsed.bare = groupingSample.bare := by
  have hshaped : BlockShaped groupingSample.body := by
    simp only [groupingSample, BlockShaped, StmtKind.Shaped, ExprsShaped, Expr.Shaped,
      ExprKind.Shaped, FieldsShaped, FieldKind.Shaped]
    decide +kernel
  exact ⟨by decide +kernel, hshaped, parse_print groupingSample hshaped⟩

end LuaCompiler
