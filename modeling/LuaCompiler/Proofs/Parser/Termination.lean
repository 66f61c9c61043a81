import LuaCompiler.Proofs.Parser.Descent
import LuaCompiler.Proofs.Token.Tiling

/-!
# The front end terminates

The tokens of a source take its bytes, and the parser takes the tokens: so there is an end to both.

* `Scan.takesBytes_ofText`: every token but the end of a source takes a byte of it at least.
* `Parser.Reached`: the visits of calls in states that parsing a source comes to.
* `parseWithin_eq_parse`: **no bound matters that is greater than five times the bytes of a source.**
* `front_end_terminates`: all of it together.
-/

namespace LuaCompiler

/-! ## The bytes of tokens -/

/-- **A token takes bytes of a source**: at least one, where it stands, and they spell it. -/
def Token.Takes (bytes : List UInt8) (token : Token) : Prop :=
  ∃ start stop, start < stop ∧ stop ≤ bytes.length ∧
    token.span = ⟨.ofOffset bytes start, .ofOffset bytes stop⟩ ∧
    Text.bytes token.kind.text = bytes.extract start stop

namespace Tile

/-- Tiles in a row take a byte each at least. -/
theorem Consecutive.add_length_le {start stop : Nat} {tiles : List Tile}
    (h : Consecutive start tiles stop) : start + tiles.length ≤ stop := by
  induction tiles generalizing start with
  | nil => exact Nat.le_of_eq h
  | cons tile rest ih =>
    obtain ⟨hstart, hlt, hrest⟩ := h
    have hbehind := ih hrest
    rw [List.length_cons]
    omega

theorem Consecutive.mem {start stop : Nat} {tiles : List Tile} (h : Consecutive start tiles stop)
    {tile : Tile} (htile : tile ∈ tiles) : tile.start < tile.stop ∧ tile.stop ≤ stop := by
  induction tiles generalizing start with
  | nil => cases htile
  | cons first rest ih =>
    obtain ⟨-, hlt, hrest⟩ := h
    rcases List.mem_cons.1 htile with rfl | hmem
    · exact ⟨hlt, Nat.le_of_add_right_le hrest.add_length_le⟩
    · exact ih hrest hmem

end Tile

namespace Scan

/-- **A scan takes bytes of a source**: it gives tokens that do, no more of them than there are bytes,
and then the end of the source or a fault. -/
def TakesBytes (scan : Scan) (bytes : List UInt8) : Prop :=
  ∃ front, (∀ token ∈ front, token.kind ≠ .eof ∧ token.Takes bytes) ∧ front.length ≤ bytes.length ∧
    (scan.fault = none ∧ (∃ place, scan.tokens = front ++ [⟨.eof, ⟨place, place⟩⟩]) ∨
      scan.fault.isSome = true ∧ scan.tokens = front)

theorem takesBytes_ofText (text : List Char) : (ofText text).TakesBytes (Text.encode text) := by
  obtain ⟨tiles, stop, htiled, hstop, -⟩ := tiled_ofText text
  refine ⟨tiles.filterMap (Tile.token? (Text.encode text)), fun token htoken => ?_, ?_, ?_⟩
  · obtain ⟨tile, htile, htold⟩ := List.mem_filterMap.1 htoken
    obtain ⟨hlt, hle⟩ := htiled.consecutive.mem htile
    have hsound := htiled.sound tile htile
    unfold Tile.token? at htold
    split at htold
    next kind hkind =>
      rw [Tile.IsSound, hkind] at hsound
      cases htold
      exact ⟨hsound.1, tile.start, tile.stop, hlt, Nat.le_trans hle hstop, rfl, hsound.2⟩
    · cases htold
  · have hcount := htiled.consecutive.add_length_le
    have hkept := List.length_filterMap_le (Tile.token? (Text.encode text)) tiles
    omega
  · have htokens := htiled.tokens
    cases hfault : (ofText text).fault with
    | none =>
      rw [hfault] at htokens
      exact .inl ⟨rfl, _, htokens⟩
    | some fault =>
      rw [hfault] at htokens
      exact .inr ⟨rfl, htokens.trans (List.append_nil _)⟩

/-- Behind the first token of a text there are no more than it has bytes. -/
theorem length_rest_le {text : List Char} {first : Token} {rest : List Token}
    (h : (ofText text).tokens = first :: rest) : rest.length ≤ (Text.encode text).length := by
  obtain ⟨front, -, hfront, ⟨-, place, htokens⟩ | ⟨-, htokens⟩⟩ := takesBytes_ofText text <;>
  · have hlength := congrArg List.length (h.symm.trans htokens)
    simp only [List.length_cons, List.length_append, List.length_nil] at hlength
    omega

end Scan

/-! ## Programs -/

namespace Parser

variable {v : Probe} {s : State}

/-- A program over its block. -/
def chunkOver (block : Parser (List Stmt)) : Parser Chunk := do
  note (.enter false)
  let body ← block
  note .leave
  let state ← get
  if state.current.kind == .eof then return ⟨body, ⟨Position.origin, state.current.span.stop⟩⟩
  else unexpected (.expected .eof)

theorem chunk_eq_chunkOver (bound : Nat) : chunk bound = chunkOver (Call.block bound).run := rfl

/-- Programs are alike whose blocks are. -/
theorem alike_chunkOver {block block' : Parser (List Stmt)}
    (h : ∀ s', s'.rest = s.rest → Alike v block block' s' fun _ _ => True) :
    Alike v (chunkOver block) (chunkOver block') s fun _ _ => True := by
  refine .note ?_
  refine (h { s with events := .enter false :: s.events } rfl).bind fun body s' _ _ => ?_
  refine .note ?_
  change Alike v (if s'.current.kind == .eof then _ else _) (if s'.current.kind == .eof then _ else _)
    _ _
  exact .ite (.pure trivial) (alike_unexpected nofun)

/-- **A program is read the same** with a trap behind the end of its text, and within a bound that is
enough for its tokens it is read out. -/
theorem alike_chunk (bound : Nat) (h : v.mayExhaust ∨ 3 * s.rest.length + 2 < bound) :
    Alike v (chunk bound) (chunk bound) s fun _ _ => True := by
  rw [chunk_eq_chunkOver]
  refine alike_chunkOver fun s' hrest => (alike_run (.block bound) s' ?_).any
  rwa [Call.way, hrest]

/-- At the end of a text there is an empty program. -/
theorem chunk_run_eof {bound : Nat} (h : bound ≠ 0) (hkind : s.current.kind = .eof) :
    (chunk bound).run s = (.ok ⟨[], ⟨Position.origin, s.current.span.stop⟩⟩,
      { s with events := .leave :: .enter false :: s.events }) := by
  obtain ⟨bound, rfl⟩ := Nat.exists_eq_add_one_of_ne_zero h
  obtain ⟨⟨kind, span⟩, rest, ending, previousEnd, nextId, events⟩ := s
  cases hkind
  rfl

/-- More than a bound that is enough changes nothing. -/
theorem chunk_run_of_le {bound bound' : Nat} (hs : s.IsEnded) (h : 3 * s.rest.length + 2 < bound)
    (hle : bound ≤ bound') : (chunk bound').run s = (chunk bound).run s := by
  induction hle with
  | refl => rfl
  | @step bound' hle ih =>
    have hraised : Alike ⟨none, False⟩ (chunk bound') (chunk (bound' + 1)) s fun _ _ => True := by
      rw [chunk_eq_chunkOver, chunk_eq_chunkOver]
      refine alike_chunkOver fun s' hrest => (alike_raise (.block bound') s' ?_).any
      rw [Call.way, hrest]
      exact Nat.lt_of_lt_of_le h hle
    have hsame := (hraised hs).1
    rw [State.trapped_none, State.trapped_none] at hsame
    exact hsame.trans ih

/-- Bounds that are enough make no difference. -/
theorem chunk_run_eq {bound bound' : Nat} (hs : s.IsEnded) (h : 3 * s.rest.length + 2 < bound)
    (h' : 3 * s.rest.length + 2 < bound') : (chunk bound).run s = (chunk bound').run s := by
  rcases Nat.le_total bound bound' with hle | hle
  · exact (chunk_run_of_le hs h hle).symm
  · exact chunk_run_of_le hs h' hle

end Parser

/-! ## Sources -/

/-- Parses scanned tokens with a bound on the depth of the descent. -/
def parseWithin (bound : Nat) (scan : Scan) : Parsed :=
  match scan.tokens, scan.fault with
  | [], some fault => ⟨.error ⟨.lexical fault.fault, fault.position⟩, [], scan.comments⟩
  | [], none => ⟨.ok ⟨[], ⟨Position.origin, Position.origin⟩⟩, [], scan.comments⟩
  | first :: rest, ending =>
    let start : Parser.State := ⟨first, rest, ending, Position.origin, 0, []⟩
    let (result, state) := (Parser.chunk bound).run start
    ⟨result, state.events.reverse, scan.comments⟩

theorem parseScan_eq_parseWithin (scan : Scan) :
    parseScan scan = parseWithin (depthBound scan.tokens.length) scan := rfl

theorem parseWithin_nil {scan : Scan} (h : scan.tokens = []) (bound : Nat) :
    parseWithin bound scan = scan.fault.elim
      ⟨.ok ⟨[], ⟨Position.origin, Position.origin⟩⟩, [], scan.comments⟩
      fun fault => ⟨.error ⟨.lexical fault.fault, fault.position⟩, [], scan.comments⟩ := by
  obtain ⟨tokens, comments, fault⟩ := scan
  subst h
  cases fault <;> rfl

theorem parseWithin_cons {scan : Scan} {first : Token} {rest : List Token}
    (h : scan.tokens = first :: rest) (bound : Nat) :
    let run := (Parser.chunk bound).run ⟨first, rest, scan.fault, Position.origin, 0, []⟩
    parseWithin bound scan = ⟨run.1, run.2.events.reverse, scan.comments⟩ := by
  obtain ⟨tokens, comments, fault⟩ := scan
  subst h
  rfl

/-- **The visits that parsing a source comes to**, with any bound: that of its block, and those that a
visit uses that it comes to. -/
inductive Parser.Reached (source : String) : Parser.Visit → Prop
  | start {first : Token} {rest : List Token} (bound : Nat)
    (h : (Scan.ofText source.toList).tokens = first :: rest) :
    Reached source ⟨.block bound,
      ⟨first, rest, (Scan.ofText source.toList).fault, Position.origin, 0, [.enter false]⟩⟩
  | use {visit other : Parser.Visit} (h : Reached source visit) (huses : visit.Uses other) :
    Reached source other

section Source

variable {source : String} {first : Token} {rest : List Token}

/-- The tokens of a source end with the end of it, if there is no fault. -/
theorem isEnded_ofText {text : List Char} {s : Parser.State}
    (htokens : (Scan.ofText text).tokens = s.ahead) (hending : s.ending = (Scan.ofText text).fault) :
    s.IsEnded := by
  intro hnone token htoken
  obtain ⟨place, rfl⟩ := Scan.ofText_last (hending ▸ hnone) token (htokens ▸ htoken)
  rfl

theorem Parser.Reached.isEnded {visit : Parser.Visit} (h : Parser.Reached source visit) :
    visit.state.IsEnded := by
  induction h with
  | start bound htokens => exact isEnded_ofText htokens rfl
  | use _ huses ih => exact (huses.leads ih).forward.isEnded ih

/-- **What stands behind the end of a source is not looked at**: a fault put there is not met. -/
theorem parseScan_trapped {text : List Char} (hfault : (Scan.ofText text).fault = none)
    (trap : Located LexicalFault) :
    parseScan { Scan.ofText text with fault := some trap } = parseScan (Scan.ofText text) := by
  have hended (s : Parser.State) (h : (Scan.ofText text).tokens = s.ahead)
      (hending : s.ending = (Scan.ofText text).fault) : s.IsEnded := isEnded_ofText h hending
  obtain ⟨front, place, htokens, -⟩ := Scan.ofText_eof hfault
  generalize Scan.ofText text = scan at hended hfault htokens ⊢
  obtain ⟨tokens, comments, fault⟩ := scan
  cases hfault
  cases tokens with
  | nil => exact absurd htokens.symm (List.append_ne_nil_of_right_ne_nil _ (List.cons_ne_nil _ _))
  | cons first rest =>
    have hsame := (Parser.alike_chunk (v := ⟨some trap, True⟩)
      (depthBound (first :: rest).length) (.inl trivial)
      (hended ⟨first, rest, none, Position.origin, 0, []⟩ rfl rfl)).1
    exact congrArg (fun run => Parsed.mk run.1 run.2.events.reverse comments) hsame

/-- The bound of a parse is enough for its tokens. -/
theorem lt_depthBound (first : Token) (rest : List Token) :
    3 * rest.length + 2 < depthBound (first :: rest).length := by
  rw [depthBound, List.length_cons]
  omega

/-- **Bounds that are enough make no difference**, and five times the bytes of a source are. -/
theorem parseWithin_eq_parse {bound : Nat} (hbound : 5 * (Text.bytes source).length < bound) :
    parseWithin bound (Scan.ofText source.toList) = parse source := by
  rw [Text.bytes_eq] at hbound
  rw [parse, parseScan_eq_parseWithin]
  generalize source.toList = text at hbound ⊢
  cases htokens : (Scan.ofText text).tokens with
  | nil => rw [parseWithin_nil htokens, parseWithin_nil htokens]
  | cons first rest =>
    rw [parseWithin_cons htokens, parseWithin_cons htokens]
    have hparse := lt_depthBound first rest
    cases text with
    | nil =>
      -- of an empty source only its end is looked at
      cases htokens
      rw [Parser.chunk_run_eof (Nat.ne_zero_of_lt hbound) rfl,
        Parser.chunk_run_eof (Nat.ne_zero_of_lt hparse) rfl]
    | cons c cs =>
      -- a byte at least, so that twice of it make up for the two ranks of the first block
      have hpos := List.length_pos_iff.2 (Text.encode_ne_nil (List.cons_ne_nil c cs))
      have hrest := Scan.length_rest_le htokens
      have henough : 3 * rest.length + 2 < bound := by omega
      rw [Parser.chunk_run_eq (isEnded_ofText htokens rfl) henough hparse]

/-- A source is never too deep for the bound of its parse. -/
theorem fault_ne_tooDeep {fault : Located SyntaxFault} (h : (parse source).result = .error fault) :
    fault.fault ≠ .tooDeep := by
  rw [parse, parseScan_eq_parseWithin] at h
  cases htokens : (Scan.ofText source.toList).tokens with
  | nil =>
    rw [parseWithin_nil htokens] at h
    cases hfault : (Scan.ofText source.toList).fault <;> rw [hfault] at h <;> cases h
    intro hdeep
    cases hdeep
  | cons first rest =>
    rw [parseWithin_cons htokens, htokens] at h
    -- the bound is enough, so that no visit is one that finds it used up
    have hends := (Parser.alike_chunk (v := ⟨none, False⟩) _ (.inr (lt_depthBound first rest))
      (isEnded_ofText (s := ⟨first, rest, _, Position.origin, 0, []⟩) htokens rfl)).2
    generalize ExceptT.run (Parser.chunk _) _ = run at h hends
    obtain ⟨result, s'⟩ := run
    subst h
    exact hends

end Source

/-! ## All of it -/

/-- **The front end terminates.** The scan of a source gives tokens that take one byte of it at least,
and then its end or a fault. Of the visits that parsing the source comes to, one that is used by another
of the same production, itself or by the way of others, stands at least a token further on: each round
of a loop and each descent takes a token. The end of the source is not taken: a fault behind it would
not be met. So a bound of more than five times the bytes of the source is not used up: a parse within it
is the parse of the source, which gives a program or a fault of the source. -/
theorem front_end_terminates (source : String) :
    (Scan.ofText source.toList).TakesBytes (Text.bytes source) ∧
    (∀ visit other, Parser.Reached source visit →
      Relation.TransGen Parser.Visit.Uses visit other → visit.production = other.production →
        Parser.Past visit.state other.state) ∧
    ((Scan.ofText source.toList).fault = none → ∀ trap,
      parseScan { Scan.ofText source.toList with fault := some trap } = parse source) ∧
    (∀ bound, 5 * (Text.bytes source).length < bound →
      parseWithin bound (Scan.ofText source.toList) = parse source) ∧
    ((∃ chunk, (parse source).result = .ok chunk) ∨
      ∃ fault, (parse source).result = .error fault ∧ fault.fault ≠ .tooDeep) := by
  refine ⟨?_, fun visit other hreached huses hproduction => ?_, fun hfault trap => ?_,
    fun bound hbound => parseWithin_eq_parse hbound, ?_⟩
  · rw [Text.bytes_eq]
    exact Scan.takesBytes_ofText source.toList
  · exact Parser.Visit.past_of_uses huses hreached.isEnded hproduction
  · exact parseScan_trapped hfault trap
  · cases hresult : (parse source).result with
    | ok chunk => exact .inl ⟨chunk, rfl⟩
    | error fault => exact .inr ⟨fault, rfl, fault_ne_tooDeep hresult⟩

/-- A block statement without a statement in it. -/
def emptyBlockText : String := "do end"

/-- Where the parser starts over it, behind the note of its scope. -/
def emptyBlockStart : Parser.State :=
  ⟨⟨.keyword .do, ⟨⟨1, 0⟩, ⟨1, 2⟩⟩⟩, [⟨.keyword .end, ⟨⟨1, 3⟩, ⟨1, 6⟩⟩⟩, ⟨.eof, ⟨⟨1, 6⟩, ⟨1, 6⟩⟩⟩],
    none, Position.origin, 0, [.enter false]⟩

/-- Where it stands inside the block. -/
def emptyBlockInside : Parser.State :=
  ⟨⟨.keyword .end, ⟨⟨1, 3⟩, ⟨1, 6⟩⟩⟩, [⟨.eof, ⟨⟨1, 6⟩, ⟨1, 6⟩⟩⟩], none, ⟨1, 2⟩, 0,
    [.enter false, .enter false]⟩

/-- The block uses a statement, and the statement a block. -/
theorem uses_emptyBlock : Relation.TransGen Parser.Visit.Uses ⟨.block 3, emptyBlockStart⟩
    ⟨.block 1, emptyBlockInside⟩ := by
  have hstatement : Parser.Visit.Uses ⟨.block 3, emptyBlockStart⟩ ⟨.statement 2, emptyBlockStart⟩ :=
    Parser.Visit.uses_of_fails (fun ask _ h => Parser.run_bind_error (p := ask (.statement 2)) h)
      (by decide)
  have hblock : Parser.Visit.Uses ⟨.statement 2, emptyBlockStart⟩ ⟨.block 1, emptyBlockInside⟩ := by
    refine Parser.Visit.uses_of_fails (fun ask fault h => ?_) (by decide)
    have hinner : ((Parser.blockStatement (ask (.block 1))).run emptyBlockStart).1 = .error fault :=
      Parser.run_bind_error (p := Parser.innerBlock (ask (.block 1))) h
    exact Parser.run_bind_error (p := Parser.blockStatement (ask (.block 1))) hinner
  exact (Relation.TransGen.single hstatement).tail hblock

theorem front_end_terminates_emptyBlockText :
    Parser.Reached emptyBlockText ⟨.block 3, emptyBlockStart⟩ ∧
    Parser.Past emptyBlockStart emptyBlockInside ∧
    (∀ trap, parseScan { Scan.ofText emptyBlockText.toList with fault := some trap } =
      parse emptyBlockText) ∧
    5 * (Text.bytes emptyBlockText).length < 31 ∧
    parseWithin 31 (Scan.ofText emptyBlockText.toList) = parse emptyBlockText ∧
    ∃ chunk, (parse emptyBlockText).result = .ok chunk := by
  have ⟨htokens, hfault, hparses⟩ :
      (Scan.ofText emptyBlockText.toList).tokens = emptyBlockStart.ahead ∧
      (Scan.ofText emptyBlockText.toList).fault = none ∧
      (parse emptyBlockText).result.toOption.isSome = true := by
    rw [emptyBlockText, parse_ofList, String.toList_ofList]
    decide +kernel
  have hlength : 5 * (Text.bytes emptyBlockText).length < 31 := by decide +kernel
  have hreached := Parser.Reached.start 3 htokens
  rw [hfault] at hreached
  obtain ⟨-, hprogress, htrap, hbound, -⟩ := front_end_terminates emptyBlockText
  exact ⟨hreached, hprogress _ _ hreached uses_emptyBlock rfl, htrap hfault, hlength,
    hbound 31 hlength, Parsed.exists_of_isSome hparses⟩

end LuaCompiler
