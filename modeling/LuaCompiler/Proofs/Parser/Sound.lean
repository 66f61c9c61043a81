import LuaCompiler.Proofs.Parser.Phrases
import LuaCompiler.Proofs.Parser.Placed

/-!
# Only Lua is accepted

What is accepted is Lua with parentheses around the heads of statements, and Lua where no head has
them.

* `sound`: **what every production takes**, by induction on the bound.
* `parse_is_lua`: a text that parses is a program, and one of Lua if all heads are bare.
-/

namespace LuaCompiler

open Token (Kind)
open Grammar (Derives)

namespace Parser

variable {wrapping : Prop} {s s' : State} {ts us : List Kind}

/-! ## The recursion -/

/-- **What the productions with a bound take.** -/
structure Sound (wrapping : Prop) (bound : Nat) : Prop where
  block : Yields (block bound) (Phrase wrapping .block stmtHeads)
  statement : Yields (statement bound) (Phrase wrapping .stat fun statement => statement.kind.heads)
  function : ∀ place isMethod, Yields (Parser.function bound place isMethod)
    (Phrase wrapping .funcbody FunctionBody.heads)
  expressions : Yields (expressions bound) (Phrase wrapping .explist exprHeads)
  subexpression : ∀ limit, Yields (subexpression bound limit) (Spelt wrapping)
  operators : ∀ place limit left,
    Resumes (Spelt wrapping) place left (operators bound place limit left)
  suffixed : Yields (suffixed bound) (Prefixed wrapping)
  suffixes : ∀ place base,
    Resumes (Prefixed wrapping) place base (suffixes bound place base)

namespace Sound

variable {bound : Nat}

theorem expression (ih : Sound wrapping bound) :
    Yields (Parser.subexpression bound 0) (Phrase wrapping .exp Expr.heads) :=
  (ih.subexpression 0).mono fun _ _ _ h => h.exp

theorem block_succ (ih : Sound wrapping bound) :
    Yields (Parser.block (bound + 1)) (Phrase wrapping .block stmtHeads) := by
  intro s hs
  unfold Parser.block
  refine (Took.refl hs).skip yields_isBlockEnd fun isEnd s' h => ?_
  -- the end, a return, a semicolon, or one more statement
  cases isEnd with
  | true => exact ⟨[], fun _ => .emptyBlock, h⟩
  | false =>
    rw [if_neg Bool.false_ne_true, post_bind, post_isNext]
    split
    next hreturn =>
      rw [post_bind]
      refine (yields_returnStatement ih.expressions s' h.steady (eq_of_beq hreturn)).imp
        fun statement t htaken => ?_
      obtain ⟨us, hus, h'⟩ := htaken
      refine ⟨us, fun hclean => ?_, h.trans h'⟩
      rw [stmtHeads_cons, clean_append] at hclean
      exact .last (hus hclean.1)
    next =>
      refine h.acceptSign (fun t h => ?_) ?_
      · refine h.last ih.block fun rest us t hus h => ⟨_, fun hclean => ?_, h⟩
        exact .more .semicolon (hus hclean)
      · refine h.bind ih.statement fun first us t hus h => ?_
        refine h.bind ih.block fun rest vs t hvs h => ⟨_, fun hclean => ?_, h⟩
        rw [stmtHeads_cons, clean_append] at hclean
        exact .more (hus hclean.1) (hvs hclean.2)

theorem statement_succ (ih : Sound wrapping bound) :
    Yields (Parser.statement (bound + 1))
      (Phrase wrapping .stat fun statement => statement.kind.heads) := by
  intro s hs
  -- a statement whose keyword has been read, with the tokens read so far before its own
  have hbuilt {p : Parser StmtKind} {t : State} {ts : List Kind} (h : Took s ts t)
      (D : StmtKind → List Kind → Prop) (hp : Yields p fun _ => D)
      (hD : ∀ kind us, D kind us → Clean wrapping kind.heads → Derives wrapping .stat (ts ++ us)) :
      Post (do stmt s.current.span.start (← p)) t (fun statement t' => ∃ us,
        (Clean wrapping statement.kind.heads → Derives wrapping .stat us) ∧ Took s us t')
        fun _ => True := by
    refine h.bind hp fun kind us t hus h => ?_
    refine h.stmt.imp fun statement t' htaken => ?_
    obtain ⟨hstatement, h⟩ := htaken
    refine ⟨_, fun hclean => ?_, h⟩
    exact hD kind us hus (hstatement ▸ hclean)
  -- a statement that reads its keyword by itself
  have hat {kind : Kind} {p : Parser StmtKind} (hkind : s.current.kind = kind)
      (hp : YieldsAt kind p (Phrase wrapping .stat StmtKind.heads)) :
      Post (do stmt s.current.span.start (← p)) s (fun statement t' => ∃ us,
        (Clean wrapping statement.kind.heads → Derives wrapping .stat us) ∧ Took s us t')
        fun _ => True := by
    rw [post_bind]
    refine (hp s hs hkind).imp fun kind t htaken => ?_
    obtain ⟨us, hus, h⟩ := htaken
    refine h.stmt.imp fun statement t' htaken => ?_
    obtain ⟨hstatement, h⟩ := htaken
    refine ⟨_, fun hclean => hus ?_, h⟩
    exact hstatement ▸ hclean
  unfold Parser.statement
  rw [post_bind, post_here, post_bind, post_peek]
  split
  next hkind =>
    refine (Took.refl hs).advance hkind (by simp) fun t h => ?_
    refine h.acceptWord (fun t h => ?_) ?_
    · exact hbuilt h _ (yields_localFunction _ ih.function) fun _ _ h => h
    · exact h.last (yields_localStatement bound _ ih.expressions) fun _ us t hus h => ⟨_, hus, h⟩
  next hkind =>
    refine (Took.refl hs).advance hkind (by simp) fun t h => ?_
    exact hbuilt h _ (yields_functionStatement bound _ ih.function) fun _ _ h => h
  next hkind => exact hat hkind (yields_conditional bound ih.expression ih.block)
  next hkind => exact hat hkind (yields_whileLoop ih.expression ih.block)
  next hkind => exact hat hkind (yields_blockStatement ih.block)
  next hkind => exact hat hkind (yields_repeatLoop ih.expression ih.block)
  next hkind => exact hat hkind (yields_forLoop bound ih.expression ih.expressions ih.block)
  next hkind =>
    refine (Took.refl hs).advance hkind (by simp) fun t h => ?_
    refine h.stmt.imp fun statement t' htaken => ?_
    obtain ⟨-, h⟩ := htaken
    exact ⟨_, fun _ => .break, h⟩
  next hkind => exact hat hkind yields_gotoStatement
  next hkind => exact hat hkind yields_labelStatement
  next =>
    exact hbuilt (Took.refl hs) _ (yields_expressionStatement bound ih.suffixed ih.expressions)
      fun _ _ h => h

theorem expressions_succ (ih : Sound wrapping bound) :
    Yields (Parser.expressions (bound + 1)) (Phrase wrapping .explist exprHeads) := by
  intro s hs
  unfold Parser.expressions
  refine (Took.refl hs).bind ih.expression fun first us s' hus h => ?_
  refine h.acceptSign (fun t h => ?_) ⟨_, fun hclean => ?_, h⟩
  · refine h.bind ih.expressions fun rest vs t hvs h => ⟨_, fun hclean => ?_, h⟩
    rw [exprHeads, clean_append] at hclean
    simpa using Derives.moreExps (hus hclean.1) (hvs hclean.2)
  · rw [exprHeads, clean_append] at hclean
    exact .oneExp (hus hclean.1)

theorem unary_mem {kind : Kind} {operator : UnaryOperator}
    (h : UnaryOperator.ofToken? kind = some operator) : kind ∈ Grammar.unaryOperators := by
  unfold UnaryOperator.ofToken? at h
  split at h <;> cases h <;> decide

theorem binary_mem {kind : Kind} {connective : Connective}
    (h : Connective.ofToken? kind = some connective) : kind ∈ Grammar.binaryOperators := by
  unfold Connective.ofToken? at h
  split at h <;> cases h <;> decide

theorem subexpression_succ (ih : Sound wrapping bound) (limit : Nat) :
    Yields (Parser.subexpression (bound + 1) limit) (Spelt wrapping) := by
  intro s hs
  unfold Parser.subexpression
  rw [post_bind, post_here, post_bind, post_peek]
  split
  next operator hoperator =>
    have hmem := unary_mem hoperator
    have hne : s.current.kind ≠ .eof := fun heof => by rw [heof] at hmem; revert hmem; decide
    refine (Took.refl hs).advance rfl hne fun t h => ?_
    refine h.bind (ih.subexpression _) fun argument us t hus h => ?_
    refine h.expr fun id t' hend h => ih.operators _ limit _ s _ t' h ?_
    refine .of_exp (hend ▸ rfl) rfl trivial fun hclean => ?_
    rw [Expr.heads, ExprKind.heads] at hclean
    exact .unary hmem (hus.exp hclean)
  next =>
    have htable := yields_table ih.expression bound
    rw [post_bind]
    refine (yields_simple ih.suffixed htable ih.function s hs).imp fun first t htaken => ?_
    obtain ⟨us, hus, h⟩ := htaken
    exact ih.operators _ limit first s us t h hus

theorem operators_succ (ih : Sound wrapping bound) (place : Position) (limit : Nat) (left : Expr) :
    Resumes (Spelt wrapping) place left (Parser.operators (bound + 1) place limit left) := by
  intro s ts s' h hleft
  unfold Parser.operators
  rw [post_bind, post_peek]
  split
  next connective hconnective =>
    have hmem := binary_mem hconnective
    have hne : s'.current.kind ≠ .eof := fun heof => by rw [heof] at hmem; revert hmem; decide
    rw [post_ite]
    split
    · exact ⟨ts, hleft, h⟩
    · refine h.advance rfl hne fun t h => ?_
      refine h.bind (ih.subexpression _) fun right us t hus h => ?_
      refine h.expr fun id t' hend h => ih.operators place limit _ s _ t' h ?_
      refine .of_exp (hend ▸ rfl) (by cases connective <;> rfl) (by cases connective <;> trivial) ?_
      intro hclean
      have hheads : (connective.apply left right).heads = left.heads ++ right.heads := by
        cases connective <;> rw [Connective.apply, ExprKind.heads]
      rw [Expr.heads, hheads, clean_append] at hclean
      simpa using Derives.binary (hleft.exp hclean.1) hmem (hus.exp hclean.2)
  next => exact ⟨ts, hleft, h⟩

theorem suffixed_succ (ih : Sound wrapping bound) :
    Yields (Parser.suffixed (bound + 1)) (Prefixed wrapping) := by
  intro s hs
  unfold Parser.suffixed
  rw [post_bind, post_here, post_bind]
  refine (yields_primary (ih.subexpression 0) s hs).imp fun base t htaken => ?_
  obtain ⟨us, hus, h⟩ := htaken
  exact ih.suffixes _ base s us t h hus

theorem suffixes_succ (ih : Sound wrapping bound) (place : Position) (base : Expr) :
    Resumes (Prefixed wrapping) place base (Parser.suffixes (bound + 1) place base) := by
  intro s ts s' h hbase
  have htable := yields_table ih.expression bound
  have hcall (callee : Expr) := yields_callOf ih.expressions htable callee
  unfold Parser.suffixes
  rw [post_bind]
  refine (h.suffix ih.expression hcall hbase).imp fun next t htaken => ?_
  obtain ⟨us, hus, h⟩ := htaken
  cases next with
  | some next => exact ih.suffixes place next s us t h hus
  | none => exact ⟨us, hus, h⟩

end Sound

/-- **What every production takes is a phrase of its category.** -/
theorem sound (wrapping : Prop) (bound : Nat) : Sound wrapping bound := by
  induction bound with
  | zero =>
    exact ⟨yields_exhausted, yields_exhausted, fun _ _ => yields_exhausted, yields_exhausted,
      fun _ => yields_exhausted, fun _ _ _ _ _ _ _ _ => trivial, yields_exhausted,
      fun _ _ _ _ _ _ _ => trivial⟩
  | succ bound ih =>
    exact
      { block := ih.block_succ
        statement := ih.statement_succ
        function := fun place isMethod => yields_functionWith bound place isMethod ih.block
        expressions := ih.expressions_succ
        subexpression := ih.subexpression_succ
        operators := ih.operators_succ
        suffixed := ih.suffixed_succ
        suffixes := ih.suffixes_succ }

/-- **A whole program** is a block up to the end of the text. -/
theorem State.Steady.chunk (wrapping : Prop) (bound : Nat) (hs : s.Steady) :
    Post (chunk bound) s (fun chunk s' => s'.current.kind = .eof ∧ ∃ ts, Took s ts s' ∧
      (Clean wrapping chunk.heads → Derives wrapping .block ts)) fun _ => True := by
  refine (Took.refl hs).note fun s' h => ?_
  refine h.bind (sound wrapping bound).block fun body us s' hus h => ?_
  refine h.note fun s' h => ?_
  rw [post_bind, post_get, post_ite]
  split
  next heof => exact ⟨eq_of_beq heof, _, h, hus⟩
  next => trivial

end Parser

/-! ## Texts -/

/-- A token of a text is as wide as its own text. -/
theorem Scan.width_ofLexemes {fault : Option LexicalFault} {lexemes : List Lexeme}
    (h : ∀ lexeme ∈ lexemes, lexeme.kind.Fits lexeme.text) (here : Position) :
    ∀ token ∈ (ofLexemes fault here lexemes).tokens, token.kind ≠ .eof →
      token.span.stop = token.span.start.advance token.kind.text.toList := by
  induction lexemes generalizing here with
  | nil => cases fault <;> simp [ofLexemes]
  | cons lexeme rest ih =>
    obtain ⟨hfirst, hothers⟩ := List.forall_mem_cons.1 h
    have hrest := ih hothers (here.advance lexeme.text)
    unfold ofLexemes
    dsimp only
    split
    next kind hkind =>
      refine List.forall_mem_cons.2 ⟨fun _ => ?_, hrest⟩
      rw [hkind] at hfirst
      exact congrArg here.advance hfirst.2.symm
    next => exact hrest

/-- A parser over the tokens of a text starts steady. -/
theorem steady_ofText {source : List Char} {first : Token} {rest : List Token}
    (h : (Scan.ofText source).tokens = first :: rest) :
    Parser.State.Steady ⟨first, rest, (Scan.ofText source).fault, Position.origin, 0, []⟩ := by
  have hahead : Parser.State.ahead ⟨first, rest, (Scan.ofText source).fault, .origin, 0, []⟩ =
      (Scan.ofText source).tokens := by rw [h, Parser.State.ahead]
  refine ⟨?_, ?_, fun hfault token htoken => ?_⟩
  · rw [hahead]
    exact Scan.inOrder_ofText source
  · rw [hahead]
    exact Scan.width_ofLexemes (fun lexeme hl => (Lexemes.fits_of_mem hl).2) _
  · obtain ⟨front, place, heof, -⟩ := Scan.ofText_eof hfault
    rw [hahead, heof, List.getLast?_concat, Option.mem_some_iff] at htoken
    rw [← htoken]

/-- The end of a text comes once, behind everything else. -/
theorem eq_of_append_eof {ts us more : List Kind} (h : ts ++ [.eof] = us ++ .eof :: more)
    (heof : Kind.eof ∉ ts) : us = ts := by
  rcases List.append_eq_append_iff.1 h with ⟨_ | ⟨k, as⟩, rfl, has⟩ | ⟨_ | ⟨k, cs⟩, rfl, hcs⟩
  · exact List.append_nil ts
  · simp at has
  · exact (List.append_nil us).symm
  · obtain ⟨rfl, -⟩ := List.cons.inj hcs
    exact absurd (List.mem_append_right us List.mem_cons_self) heof

/-- **What a text that parses derives**, whether parentheses may stand around the heads of
statements or not. -/
theorem derives_of_parse {source : String} {chunk : Chunk} {kinds : List Kind} (wrapping : Prop)
    (hparse : (parse source).result = .ok chunk)
    (hkinds : (Scan.ofText source.toList).tokens.map Token.kind = kinds ++ [.eof])
    (heof : Kind.eof ∉ kinds) (hclean : Clean wrapping chunk.heads) :
    Derives wrapping .block kinds := by
  obtain ⟨first, rest, s', htokens, hrun⟩ := run_of_parse hparse
  have htook := (steady_ofText htokens).chunk wrapping
    (depthBound (Scan.ofText source.toList).tokens.length)
  unfold Parser.Post at htook
  rw [hrun] at htook
  obtain ⟨hlast, ts, h, hderives⟩ := htook
  -- the parser stops at an end of text, and the tokens have one only
  have hsplit : kinds ++ [.eof] = ts ++ .eof :: s'.rest.map Token.kind := by
    rw [← hkinds, htokens, ← hlast]
    exact h.kinds
  exact eq_of_append_eof hsplit heof ▸ hderives hclean

/-- **Only Lua is accepted**, parentheses around the heads of statements aside. The tokens of a text
that parses, without the end of the text, are a block of the grammar in which parentheses may stand
around what is assigned to and around the call of a call statement. If no head of a statement is in
parentheses, they are a block of Lua. -/
theorem parse_is_lua {source : String} {chunk : Chunk}
    (hparse : (parse source).result = .ok chunk) :
    ∃ kinds, (Scan.ofText source.toList).tokens.map Token.kind = kinds ++ [.eof] ∧
      Derives True .block kinds ∧
      ((∀ e ∈ chunk.heads, e.isBare = true) → Derives False .block kinds) := by
  obtain ⟨front, place, htokens, hspelled⟩ := Scan.ofText_eof (scan_fault_of_parse hparse)
  have hkinds : (Scan.ofText source.toList).tokens.map Token.kind =
      front.map Token.kind ++ [.eof] := by rw [htokens, List.map_append]; rfl
  have heof : Kind.eof ∉ front.map Token.kind := by
    intro hmem
    obtain ⟨token, htoken, hkind⟩ := List.mem_map.1 hmem
    have := hspelled token htoken
    rw [hkind] at this
    exact absurd this (by decide +kernel)
  exact ⟨_, hkinds, derives_of_parse True hparse hkinds heof (.inl trivial),
    fun hbare => derives_of_parse False hparse hkinds heof (.inr hbare)⟩

/-- Heads of statements that have parentheses in them, but not around them. -/
def bareText : String :=
  "local f <const>, g = 1; (f).x, g[(f)] = 2, (g)\n;(f)(g):h { function() (g).y() end }"

theorem parse_bareText : ∃ chunk kinds, (parse bareText).result = .ok chunk ∧
    chunk.heads.length = 4 ∧ (∀ e ∈ chunk.heads, e.isBare = true) ∧
    (Scan.ofText bareText.toList).tokens.map Token.kind = kinds ++ [.eof] ∧
    Derives False .block kinds := by
  have hheads : (parse bareText).result.toOption.map (fun chunk =>
      (chunk.heads.length, chunk.heads.all Expr.isBare)) = some (4, true) := by
    rw [bareText, parse_ofList]
    decide +kernel
  obtain ⟨chunk, hresult, hheads⟩ := Parsed.exists_of_map hheads
  obtain ⟨hlength, hall⟩ := Prod.mk.inj hheads
  have hbare := List.all_eq_true.1 hall
  obtain ⟨kinds, hkinds, -, hderives⟩ := parse_is_lua hresult
  exact ⟨chunk, kinds, hresult, hlength, hbare, hkinds, hderives hbare⟩

/-- What is assigned to stands in parentheses. -/
def wrappedText : String := "(a) = 1"

/-- **An assignment to a name in parentheses is accepted**, although no rule of Lua derives it. -/
theorem accepts_wrappedText : (parse wrappedText).result.isOk = true ∧
    ∀ kinds, (Scan.ofText wrappedText.toList).tokens.map Token.kind = kinds ++ [.eof] →
      ¬ Derives False .block kinds := by
  refine ⟨by decide +kernel, fun kinds hkinds hderives => ?_⟩
  have hdrop := congrArg List.dropLast hkinds
  rw [List.dropLast_concat] at hdrop
  have hapart := (Grammar.isApart_of_derives hderives).1 false
  rw [← hdrop] at hapart
  exact absurd hapart (by decide +kernel)

end LuaCompiler
