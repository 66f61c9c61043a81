import LuaCompiler.Proofs.Parser.Respaced
import LuaCompiler.Proofs.Token.LineEndings

/-!
# Programs with returns

A text and the same text with a carriage return before every line feed are parsed to the same
program, with the same identities and globals, if no short string goes on in the next line behind a
backslash. Such a string is the one thing that the returns break: the text with returns is then
refused.

* `Scan.Returned`: how a scan changes.
* `Scan.returned_ofText`: the scan of a text with returns, or the string that breaks it.
* `StringLiteral.toScript_returned`: a short string is written as the same literal.
* `parse_returned`: **when the text with returns is a program, and which one it is.**
-/

namespace LuaCompiler

open Text (withReturns)

/-- A place goes down one line at each break. -/
theorem Position.line_advance (p : Position) (text : List Char) :
    (p.advance text).line = p.line + text.count '\n' := by
  induction text generalizing p with
  | nil => rfl
  | cons c text ih =>
    rw [advance_cons, ih, next, List.count_cons]
    by_cases h : c = '\n'
    · simp only [h, if_true, beq_self_eq_true]
      omega
    · simp [h]

/-! ## Lexemes -/

namespace Lexeme

variable {lexeme lexeme' : Lexeme}

/-- What a lexeme opens of lines stays as it is. -/
theorem Returned.count_eq (h : Returned lexeme lexeme') :
    lexeme'.text.count '\n' = lexeme.text.count '\n' := by
  cases h with
  | blank h => exact h
  | line h => rfl
  | lineReturn h => simp [List.count_append]
  | block level inner => simp [List.count_append, Text.count_withReturns]
  | token text h => exact Text.count_withReturns text

/-- A return at the end of a line is dropped. -/
theorem dropReturns_return (text : List Char) :
    Scan.dropReturns (text ++ ['\r']) = Scan.dropReturns text := by
  simp [Scan.dropReturns]

/-- Dropping returns makes no break. -/
theorem not_mem_dropReturns {text : List Char} (h : '\n' ∉ text) :
    '\n' ∉ Scan.dropReturns text := by
  unfold Scan.dropReturns
  rw [List.mem_reverse]
  exact fun hmem => h (List.mem_reverse.1 ((List.dropWhile_sublist _).subset hmem))

/-- A line comment has no line feed for a return to stand before. -/
theorem seen_lineComment {text : List Char} (h : '\n' ∉ text) {span span' : Span}
    (hspan : View.lines.span span' = View.returning.span span) :
    (Scan.comment? .lineComment text span').map (Comment.seen .lines) =
      (Scan.comment? .lineComment text span).map (Comment.seen .returning) := by
  have hraw := not_mem_dropReturns h
  have hvalue : '\n' ∉ (Scan.dropReturns text).drop 2 :=
    fun hmem => hraw (List.mem_of_mem_drop hmem)
  simp only [Scan.comment?, Option.map_some, Comment.seen, hspan]
  simp only [View.lines, View.returning, id, Text.returned_ofList, Text.withReturns_of_line hraw,
    Text.withReturns_of_line hvalue]

/-- What stands between the brackets of a comment. -/
theorem comment_block (level : Nat) (inner : List Char) (span : Span) :
    Scan.comment? (.blockComment level) (opening level ++ inner ++ closing level) span =
      some ⟨String.ofList inner, String.ofList (opening level ++ inner ++ closing level), true,
        span⟩ := by
  have hopening : (opening level).length = level + 4 := by simp [opening]
  have hlength : (opening level ++ inner ++ closing level).length - (level + 4) - (level + 2) =
      inner.length := by
    rw [List.length_append, List.length_append, hopening, length_closing]
    omega
  rw [Scan.comment?, hlength, List.append_assoc, List.drop_left' hopening, List.take_left]

/-- The brackets of a block hold no break. -/
theorem withReturns_block (level : Nat) (inner : List Char) :
    withReturns (opening level ++ inner ++ closing level) =
      opening level ++ withReturns inner ++ closing level := by
  have hopening : '\n' ∉ opening level := by simp [opening]
  have hclosing : '\n' ∉ closing level := fun hmem => (not_mem_closing level _ hmem).1 rfl
  rw [Text.withReturns_append, Text.withReturns_append, Text.withReturns_of_line hopening,
    Text.withReturns_of_line hclosing]

/-- The comment that a lexeme is looks the same. -/
theorem Returned.comment_eq (h : Returned lexeme lexeme') {span span' : Span}
    (hspan : View.lines.span span' = View.returning.span span) :
    (Scan.comment? lexeme'.kind lexeme'.text span').map (Comment.seen .lines) =
      (Scan.comment? lexeme.kind lexeme.text span).map (Comment.seen .returning) := by
  cases h with
  | blank h | token text h => rfl
  | line h => exact seen_lineComment h hspan
  | lineReturn h =>
    rw [← seen_lineComment h hspan]
    simp only [Scan.comment?, dropReturns_return]
  | block level inner =>
    dsimp only
    rw [comment_block, comment_block]
    simp only [Option.map_some, Comment.seen, hspan]
    simp only [View.lines, View.returning, id, Text.returned_ofList, withReturns_block]

end Lexeme

/-! ## Scans -/

namespace Scan

/-- **How a scan changes** where no string escapes a line break: nothing but columns, and returns in
strings and comments. -/
structure Returned (scan scan' : Scan) : Prop where
  tokens : scan'.tokens.map (Token.seen .lines) = scan.tokens.map (Token.seen .returning)
  comments : scan'.comments.map (Comment.seen .lines) = scan.comments.map (Comment.seen .returning)
  fault : scan'.fault = none ↔ scan.fault = none
  whole : ∀ token ∈ scan.tokens, token.kind.escapesBreak = false

/-- A scan with a string that escapes a line break, and a scan that stops there. -/
structure Broken (scan scan' : Scan) : Prop where
  escapes : ∃ token ∈ scan.tokens, token.kind.escapesBreak = true
  fault : scan'.fault ≠ none

variable {fault fault' : Option LexicalFault} {here here' : Position} {lexeme lexeme' : Lexeme}
  {rest rest' : List Lexeme}

/-- A token is read behind what stands before it. -/
theorem ofLexemes_token {kind : Token.Kind} {text : List Char} :
    ofLexemes fault here (⟨.token kind, text⟩ :: rest) =
      let scan := ofLexemes fault (here.advance text) rest
      { scan with tokens := ⟨kind, ⟨here, here.advance text⟩⟩ :: scan.tokens } := rfl

/-- Any other lexeme makes no token. -/
theorem ofLexemes_other (h : ∀ kind, lexeme.kind ≠ .token kind) :
    ofLexemes fault here (lexeme :: rest) =
      let scan := ofLexemes fault (here.advance lexeme.text) rest
      { scan with comments :=
          (comment? lexeme.kind lexeme.text ⟨here, here.advance lexeme.text⟩).toList ++
            scan.comments } := by
  obtain ⟨kind, text⟩ := lexeme
  cases kind with
  | token kind => exact absurd rfl (h kind)
  | blank | lineComment | blockComment => rfl

/-- A token that is read later is among those that are read. -/
theorem mem_tokens_ofLexemes_cons {token : Token}
    (h : token ∈ (ofLexemes fault (here.advance lexeme.text) rest).tokens) :
    token ∈ (ofLexemes fault here (lexeme :: rest)).tokens := by
  obtain ⟨kind, text⟩ := lexeme
  cases kind with
  | token kind => exact List.mem_cons_of_mem _ h
  | blank | lineComment | blockComment => exact h

/-- A fault is that of what is read later. -/
theorem fault_ofLexemes_cons : (ofLexemes fault here (lexeme :: rest)).fault =
    (ofLexemes fault (here.advance lexeme.text) rest).fault := by
  obtain ⟨kind, text⟩ := lexeme
  cases kind <;> rfl

/-- Two scans that are broken stay so with a lexeme before. -/
theorem Broken.cons
    (h : Broken (ofLexemes fault (here.advance lexeme.text) rest)
      (ofLexemes fault' (here'.advance lexeme'.text) rest')) :
    Broken (ofLexemes fault here (lexeme :: rest)) (ofLexemes fault' here' (lexeme' :: rest')) := by
  obtain ⟨⟨token, hmem, hescapes⟩, hfault⟩ := h
  exact ⟨⟨token, mem_tokens_ofLexemes_cons hmem, hescapes⟩, fault_ofLexemes_cons ▸ hfault⟩

/-- One lexeme more. -/
theorem Returned.cons (hlexeme : Lexeme.Returned lexeme lexeme') (hline : here'.line = here.line)
    (h : Returned (ofLexemes fault (here.advance lexeme.text) rest)
      (ofLexemes fault' (here'.advance lexeme'.text) rest')) :
    Returned (ofLexemes fault here (lexeme :: rest))
      (ofLexemes fault' here' (lexeme' :: rest')) := by
  have hspan : View.lines.span ⟨here', here'.advance lexeme'.text⟩ =
      View.returning.span ⟨here, here.advance lexeme.text⟩ := by
    simp only [View.span_mk, View.lines, View.returning, Position.line_advance, hlexeme.count_eq,
      hline]
  have hcomment := hlexeme.comment_eq hspan
  -- faults stand behind all lexemes
  have hfault : (ofLexemes fault' here' (lexeme' :: rest')).fault = none ↔
      (ofLexemes fault here (lexeme :: rest)).fault = none := by
    rw [fault_ofLexemes_cons, fault_ofLexemes_cons]
    exact h.fault
  cases hlexeme with
  | token text hwhole =>
    rw [ofLexemes_token, ofLexemes_token] at hfault ⊢
    refine ⟨?_, h.comments, hfault, List.forall_mem_cons.2 ⟨hwhole, h.whole⟩⟩
    have hfirst (kind : Token.Kind) : (kind.seen .returning).seen .lines = kind.seen .returning :=
      Token.Kind.seen_of_text rfl _
    simp only [List.map_cons, h.tokens, Token.seen, hspan, hfirst]
  | blank | line | lineReturn | block =>
    rw [ofLexemes_other (by simp), ofLexemes_other (by simp)] at hfault ⊢
    refine ⟨h.tokens, ?_, hfault, h.whole⟩
    simp only [List.map_append, h.comments, ← Option.toList_map, hcomment]

/-- **Lexemes that match** are scanned alike, up to a string that escapes a line break. -/
theorem returned_of_matches {cut cut' : Lexemes} (h : cut.Matches cut')
    (hline : here'.line = here.line) :
    Returned (ofLexemes cut.fault here cut.lexemes) (ofLexemes cut'.fault here' cut'.lexemes) ∨
      Broken (ofLexemes cut.fault here cut.lexemes) (ofLexemes cut'.fault here' cut'.lexemes) := by
  induction h generalizing here here' with
  | done fault =>
    left
    cases fault with
    | none =>
      refine ⟨?_, rfl, Iff.rfl, by simp [ofLexemes, Token.Kind.escapesBreak]⟩
      simp [ofLexemes, Token.seen, View.lines, View.returning, hline, Token.Kind.seen]
    | some fault => exact ⟨rfl, rfl, by simp [ofLexemes], by simp [ofLexemes]⟩
  | @cons lexeme lexeme' rest rest' hlexeme hrest ih =>
    have hthere : (here'.advance lexeme'.text).line = (here.advance lexeme.text).line := by
      rw [Position.line_advance, Position.line_advance, hlexeme.count_eq, hline]
    exact (ih hthere).imp (Returned.cons hlexeme hline) Broken.cons
  | escaped rest hescapes =>
    right
    exact ⟨⟨_, List.mem_cons_self, hescapes⟩, by simp [ofLexemes]⟩

/-- A line that names an interpreter is the first line of a text. -/
theorem interpreterLine_eq (text : List Char) :
    interpreterLine text =
      if ['#', '!'].isPrefixOf text then text.takeWhile (· != '\n') else [] := by
  unfold interpreterLine
  split
  next rest => simp
  next hother =>
    rw [if_neg]
    intro hstarts
    obtain ⟨rest, rfl⟩ := List.isPrefixOf_iff_prefix.1 hstarts
    exact hother rest rfl

/-- **The scan of a text with returns**: it looks like the scan of the text, or some string breaks
it. -/
theorem returned_ofText (text : List Char) :
    Returned (ofText text) (ofText (withReturns text)) ∨
      Broken (ofText text) (ofText (withReturns text)) := by
  unfold ofText
  dsimp only
  rw [interpreterLine_eq, interpreterLine_eq, Text.isPrefixOf_withReturns (by simp)]
  by_cases hstarts : ['#', '!'].isPrefixOf text = true
  · rw [if_pos hstarts, if_pos hstarts, Lexeme.drop_takeWhile, Lexeme.drop_takeWhile]
    obtain ⟨haligned, hline⟩ := Lexeme.firstLine_withReturns text
    refine returned_of_matches (Lexemes.matches_aligned haligned) ?_
    -- a return at the end of the line opens no line
    rw [Position.line_advance, Position.line_advance]
    rcases hline with hline | hline
    · rw [hline]
    · simp [hline, List.count_append]
  · rw [if_neg hstarts, if_neg hstarts]
    exact returned_of_matches (Lexemes.matches_aligned (.whole text)) rfl

end Scan

/-! ## Short strings -/

namespace Lexeme

variable {quote c : Char} {cs inner : List Char} {n : Nat} {inside : Inside}

/-- Where the scanner of a short string stands behind a character. -/
def Inside.next : Inside → Char → Inside
  | .plain, c => if c = '\\' then .escaped else .plain
  | .escaped, c => if c = 'z' then .blanks else .plain
  | .blanks, c => if isEscapedSpace c then .blanks else if c = '\\' then .escaped else .plain

/-- A short string that goes on behind a character. -/
theorem throughQuote_next (h : throughQuote? quote inside (c :: cs) = some (n + 1)) (hn : n ≠ 0) :
    throughQuote? quote (inside.next c) cs = some n ∧ (inside = .plain → c ≠ '\n') := by
  by_cases hinside : inside = .escaped
  · subst hinside
    rw [throughQuote?] at h
    exact ⟨by simpa [Inside.next] using h, fun hplain => by cases hplain⟩
  · have hnext : inside.next c = if inside = .blanks ∧ isEscapedSpace c = true then .blanks
        else if c = '\\' then .escaped else .plain := by
      cases inside <;> simp_all [Inside.next]
    rw [throughQuote_cons inside hinside] at h
    rw [hnext]
    split at h
    next hblank =>
      rw [if_pos hblank]
      refine ⟨by simpa using h, ?_⟩
      rintro rfl
      cases hblank.1
    next hblank =>
      rw [if_neg hblank]
      split at h
      -- at the quote the string is over
      · simp at h
        exact absurd h hn
      split at h
      · cases h
      next hline => exact ⟨by simpa using h, fun _ => hline⟩

/-- A short string ends with its quote. -/
theorem throughQuote_split (h : throughQuote? quote inside cs = some n) :
    ∃ inner, cs.take n = inner ++ [quote] := by
  fun_induction throughQuote? quote inside cs generalizing n with
  | case1 => cases h
  | case4 inside cs =>
    cases h
    exact ⟨[], rfl⟩
  | case5 => cases h
  | case2 c cs ih | case3 inside c cs _ _ ih | case6 inside c cs _ _ _ _ ih =>
    obtain ⟨m, hm, rfl⟩ := Option.map_eq_some_iff.1 h
    obtain ⟨inner, hinner⟩ := ih hm
    exact ⟨c :: inner, by rw [List.take_succ_cons, hinner, List.cons_append]⟩

/-- What stands behind escapes no break when the whole does not. -/
theorem escapesBreak_append {a b : List Char} (h : StringLiteral.escapesBreak (a ++ b) = false) :
    StringLiteral.escapesBreak b = false := by
  induction a with
  | nil => exact h
  | cons c a ih =>
    rw [List.cons_append, StringLiteral.escapesBreak, Bool.or_eq_false_iff] at h
    exact ih h.2

/-- So neither does what follows a character. -/
theorem escapesBreak_next
    (h : StringLiteral.escapesBreak (inside.before ++ c :: inner) = false) :
    StringLiteral.escapesBreak ((inside.next c).before ++ inner) = false := by
  by_cases hnext : inside.next c = .escaped
  · have hslash : c = '\\' := by
      cases inside <;> simp only [Inside.next] at hnext <;> split at hnext <;> simp_all
    rw [hnext]
    exact escapesBreak_append (hslash ▸ h)
  · rw [Inside.before_eq_nil hnext, List.nil_append]
    rw [List.append_cons] at h
    exact escapesBreak_append h

end Lexeme

namespace StringLiteral

open Lexeme (Inside throughQuote? isEscapedSpace)

variable {quote c : Char} {inner : List Char} {inside : Inside} {reading : Reading}

/-- Where the reader of a short string may stand when its scanner stands somewhere: behind an escape
that drops blanks, the reader drops more of them. -/
def Agrees : Inside → Reading → Prop
  | .plain, reading => reading ≠ .escaped
  | .escaped, reading => reading = .escaped
  | .blanks, reading => reading = .blanks

theorem isBlank_of_isEscapedSpace (h : isEscapedSpace c = true) : Text.isBlank c = true := by
  simp only [isEscapedSpace, List.contains_eq_mem, List.mem_cons, List.not_mem_nil, or_false,
    decide_eq_true_eq] at h
  rcases h with rfl | rfl | rfl | rfl | rfl <;> decide

/-- Outside an escape only a backslash matters. -/
theorem plainStep_reading (c : Char) : (plainStep c).2 = if c = '\\' then .escaped else .plain := by
  unfold plainStep
  split_ifs <;> simp_all

/-- Behind a backslash both readers agree on where they are. -/
theorem escapedStep_reading (c : Char) : Agrees (Inside.escaped.next c) (escapedStep c).2 := by
  rw [Inside.next]
  by_cases hz : c = 'z'
  · subst hz
    rfl
  · rw [if_neg hz]
    unfold escapedStep
    rw [if_neg hz]
    split_ifs <;> exact nofun

/-- Outside an escape, a backslash and nothing else opens one. -/
theorem step_reading (h : reading ≠ .escaped) (c : Char) :
    (step reading c).2 = .escaped ↔ c = '\\' := by
  have hplain : (plainStep c).2 = .escaped ↔ c = '\\' := by
    rw [plainStep_reading]
    split_ifs <;> simp_all
  cases reading with
  | escaped => contradiction
  | plain => exact hplain
  | blanks =>
    rw [step]
    split
    next hblank =>
      refine ⟨nofun, ?_⟩
      rintro rfl
      exact absurd hblank (by decide)
    · exact hplain
  | digits count value =>
    rw [step]
    split
    next hdigit =>
      refine ⟨nofun, ?_⟩
      rintro rfl
      simp at hdigit
    · exact hplain

/-- Scanner and reader of a short string go on together. -/
theorem Agrees.step (h : Agrees inside reading) (c : Char) :
    Agrees (inside.next c) (step reading c).2 := by
  -- outside an escape both look for a backslash
  have hslash (hreading : reading ≠ .escaped) :
      Agrees (if c = '\\' then .escaped else .plain) (StringLiteral.step reading c).2 := by
    split
    next hc => exact (step_reading hreading c).2 hc
    next hc => exact fun hescaped => hc ((step_reading hreading c).1 hescaped)
  cases inside with
  | escaped =>
    cases h
    exact escapedStep_reading c
  | plain => exact hslash h
  | blanks =>
    cases h
    by_cases hspace : isEscapedSpace c = true
    · rw [Inside.next, if_pos hspace, StringLiteral.step,
        if_pos (isBlank_of_isEscapedSpace hspace)]
      rfl
    · rw [Inside.next, if_neg hspace]
      exact hslash nofun

/-- **Inside a short string**, returns are dropped with the line feeds behind them. -/
theorem quotedFrom_withReturns (hagrees : Agrees inside reading)
    (h : throughQuote? quote inside (inner ++ [quote]) = some (inner.length + 1))
    (hbreak : escapesBreak (inside.before ++ (inner ++ [quote])) = false) :
    quotedFrom reading (withReturns inner) = quotedFrom reading inner := by
  -- scanner and reader go over the string together, and the scanner passes a line feed only behind
  -- an escape that drops blanks: there the reader drops the return too
  induction inner generalizing inside reading with
  | nil => rfl
  | cons c inner ih =>
    obtain ⟨hnext, hplain⟩ := Lexeme.throughQuote_next h (by simp)
    have hrest := ih (hagrees.step c) hnext (Lexeme.escapesBreak_next hbreak)
    by_cases hc : c = '\n'
    · subst hc
      cases inside with
      | plain => exact absurd rfl (hplain rfl)
      | escaped => simp [Inside.before, escapesBreak] at hbreak
      | blanks =>
        cases hagrees
        exact hrest
    · rw [Text.withReturns_cons hc, quotedFrom, quotedFrom]
      exact congrArg _ hrest

/-- A character is one byte at least. -/
theorem length_le_byteCount (text : List Char) : text.length ≤ Text.byteCount text := by
  have hfrom (n : Nat) : n + text.length ≤ text.foldl (fun n c => n + c.utf8Size) n := by
    induction text generalizing n with
    | nil => exact Nat.le_refl n
    | cons c text ih =>
      have hsize := c.utf8Size_pos
      have hrest := ih (n + c.utf8Size)
      rw [List.foldl_cons, List.length_cons]
      omega
  simpa [Text.byteCount] using hfrom 0

/-- What stands between two quotes. -/
theorem contentOf_quoted (hquote : quote = '"' ∨ quote = '\x27') (inner : List Char) :
    contentOf (quote :: (inner ++ [quote])) = inner := by
  have hsize : quote.utf8Size = 1 := by rcases hquote with rfl | rfl <;> rfl
  have hlength : 2 ≤ Text.byteCount (quote :: (inner ++ [quote])) :=
    Nat.le_trans (by simp) (length_le_byteCount _)
  have hdrop (text : List Char) : Text.dropBytes 1 (quote :: text) = text := by
    rw [Text.dropBytes, hsize, Text.dropBytes]
  rw [contentOf, Lexeme.isLong_quoted hquote, if_neg (by decide), if_pos hlength, hdrop,
    Text.dropLastBytes, List.reverse_append, List.reverse_singleton, List.singleton_append, hdrop,
    List.reverse_reverse]

/-- A quoted string is written by reading its inside. -/
theorem toScript_quoted (hquote : quote = '"' ∨ quote = '\x27') {raw : String}
    (h : raw.toList = quote :: (inner ++ [quote])) :
    toScript raw = String.ofList ('"' :: quotedFrom .plain inner ++ ['"']) := by
  rw [toScript, h, Lexeme.isLong_quoted hquote, if_neg (by decide), contentOf_quoted hquote]

/-- A short string is its inside between two quotes. -/
theorem exists_quoted {raw : String} (h : (Token.Kind.string raw).isSpelled = true)
    (hshort : isLong raw.toList = false) :
    ∃ quote inner, (quote = '"' ∨ quote = '\x27') ∧ raw.toList = quote :: (inner ++ [quote]) ∧
      throughQuote? quote .plain (inner ++ [quote]) = some (inner.length + 1) := by
  obtain ⟨c, cs, htext, hcut⟩ := Token.Kind.isSpelled_iff.1 h
  change raw.toList = c :: cs at htext
  -- only the cut for short strings gives a string that is not long
  rcases Lexeme.cut_token_cases hcut with ⟨-, h⟩ | ⟨-, h⟩ | ⟨hquote, h⟩ | ⟨rfl, -⟩ | h
  · unfold Lexeme.cutName at h
    dsimp only at h
    split at h <;> cases h
  · unfold Lexeme.cutNumber at h
    dsimp only at h
    split at h <;> cases h
  · unfold Lexeme.cutString at h
    split at h
    next more hmore =>
      obtain rfl : more = cs.length := (Lexeme.Cut.mk.inj (Except.ok.inj h)).2
      obtain ⟨inner, hinner⟩ := Lexeme.throughQuote_split hmore
      rw [List.take_length] at hinner
      subst hinner
      exact ⟨c, inner, hquote, htext, by simpa using hmore⟩
    · cases h
  · rw [htext] at hshort
    cases hshort
  · unfold Lexeme.cutSymbol at h
    split at h <;> cases h

/-- **A short string is written as the same literal**, unless it escapes a line break. -/
theorem toScript_returned {raw : String} (h : (Token.Kind.string raw).isSpelled = true)
    (hshort : isLong raw.toList = false) (hbreak : (Token.Kind.string raw).escapesBreak = false) :
    toScript (Text.returned raw) = toScript raw := by
  obtain ⟨quote, inner, hquote, hraw, hthrough⟩ := exists_quoted h hshort
  have hline : quote ≠ '\n' := by rcases hquote with rfl | rfl <;> decide
  have hslash : quote ≠ '\\' := by rcases hquote with rfl | rfl <;> decide
  have hend : withReturns [quote] = [quote] := Text.withReturns_cons hline []
  have hreturned : (Text.returned raw).toList = quote :: (withReturns inner ++ [quote]) := by
    rw [Text.returned, String.toList_ofList, hraw, Text.withReturns_cons hline,
      Text.withReturns_append, hend]
  have hwhole : escapesBreak (inner ++ [quote]) = false := by
    rwa [Token.Kind.escapesBreak, hshort, hraw, Lexeme.escapesBreak_cons hslash] at hbreak
  have hplain : Agrees .plain .plain := fun hescaped => by cases hescaped
  rw [toScript_quoted hquote hreturned, toScript_quoted hquote hraw,
    quotedFrom_withReturns hplain hthrough hwhole]

/-- A long string begins with a bracket. -/
theorem isLong_iff (text : List Char) : isLong text = true ↔ text.head? = some '[' := by
  unfold isLong
  split
  · exact ⟨fun _ => rfl, fun _ => rfl⟩
  next hother =>
    refine ⟨nofun, fun hhead => ?_⟩
    obtain ⟨tail, rfl⟩ := List.head?_eq_some_iff.1 hhead
    exact absurd rfl (hother tail)

/-- Returns make no string long. -/
theorem isLong_returned (raw : String) :
    isLong (Text.returned raw).toList = isLong raw.toList := by
  rw [Text.returned, String.toList_ofList, Bool.eq_iff_iff, isLong_iff, isLong_iff,
    Text.head?_withReturns (by decide) (by decide)]

end StringLiteral

/-! ## Programs -/

/-- Of a place, only its line is looked at. Short strings are seen as the literals that are written
for them, and long ones are not looked at. -/
def View.scripts : View where
  place p := ⟨p.line, 0⟩
  text raw := if StringLiteral.isLong raw.toList then "" else StringLiteral.toScript raw

/-- A token is written alike when it escapes no break. -/
theorem Token.Kind.scripts_returned {kind : Token.Kind} (h : kind = .eof ∨ kind.isSpelled = true)
    (hbreak : kind.escapesBreak = false) :
    (kind.seen .returning).seen .scripts = kind.seen .scripts := by
  cases kind with
  | string raw =>
    have hspelled : (Token.Kind.string raw).isSpelled = true := h.resolve_left nofun
    simp only [Token.Kind.seen, View.returning, View.scripts, StringLiteral.isLong_returned]
    by_cases hlong : StringLiteral.isLong raw.toList = true
    · rw [if_pos hlong, if_pos hlong]
    · rw [if_neg hlong, if_neg hlong,
        StringLiteral.toScript_returned hspelled (Bool.eq_false_iff.2 hlong) hbreak]
  | _ => rfl

/-- The tokens of a scan with returns are written as the same literals. -/
theorem Scan.Returned.scripts {scan scan' : Scan} (h : scan.Returned scan')
    (hspelled : ∀ token ∈ scan.tokens, token.kind = .eof ∨ token.kind.isSpelled = true) :
    scan'.tokens.map (Token.seen .scripts) = scan.tokens.map (Token.seen .scripts) := by
  have hlines (token : Token) : (token.seen .lines).seen .scripts = token.seen .scripts := by
    simp only [Token.seen, Token.Kind.seen_of_text (v := .lines) rfl]
    rfl
  have hreturning : ∀ token ∈ scan.tokens,
      (token.seen .returning).seen .scripts = token.seen .scripts := by
    intro token htoken
    have hkind := Token.Kind.scripts_returned (hspelled token htoken) (h.whole token htoken)
    simp only [Token.seen, hkind]
    rfl
  calc scan'.tokens.map (Token.seen .scripts)
      = (scan'.tokens.map (Token.seen .lines)).map (Token.seen .scripts) := by
        simp only [List.map_map, Function.comp_def, hlines]
    _ = (scan.tokens.map (Token.seen .returning)).map (Token.seen .scripts) := by rw [h.tokens]
    _ = scan.tokens.map (Token.seen .scripts) := by
        rw [List.map_map]
        exact List.map_congr_left hreturning

/-- Every token of a text without a fault is spelled right. -/
theorem spelled_of_fault {text : List Char} (h : (Scan.ofText text).fault = none) :
    ∀ token ∈ (Scan.ofText text).tokens, token.kind = .eof ∨ token.kind.isSpelled = true := by
  obtain ⟨front, place, htokens, hfront⟩ := Scan.ofText_eof h
  intro token htoken
  rw [htokens, List.mem_append, List.mem_singleton] at htoken
  rcases htoken with htoken | rfl
  · exact .inr (hfront token htoken)
  · exact .inl rfl

/-- **A text with returns** is a program exactly if the text is one and none of its short strings
goes on behind a backslash in the next line. Both programs are then the same up to columns and to
returns in strings, with the same identities, globals and literals for short strings, and have the
same comments up to returns. -/
theorem parse_returned (source : String) :
    ((∃ chunk, (parse (Text.returned source)).result = .ok chunk) ↔
      (∃ chunk, (parse source).result = .ok chunk) ∧
        ∀ token ∈ (Scan.ofText source.toList).tokens, token.kind.escapesBreak = false) ∧
    ∀ chunk chunk', (parse source).result = .ok chunk →
      (parse (Text.returned source)).result = .ok chunk' →
      chunk'.seen .lines = chunk.seen .returning ∧ chunk'.seen .scripts = chunk.seen .scripts ∧
      (parse (Text.returned source)).globals = (parse source).globals ∧
      (parse (Text.returned source)).comments.map (Comment.seen .lines) =
        (parse source).comments.map (Comment.seen .returning) := by
  have htext : (Text.returned source).toList = withReturns source.toList := String.toList_ofList
  have hscan := Scan.returned_ofText source.toList
  rw [← htext] at hscan
  rcases hscan with hscan | hscan
  · -- the scans match, so that the parser takes the same way over both
    have hends (hfault : (Scan.ofText source.toList).fault = none) :=
      parse_seen (v := .lines) (w := .returning) rfl rfl hscan.tokens (hscan.fault.2 hfault) hfault
    refine ⟨⟨?_, ?_⟩, ?_⟩
    · rintro ⟨chunk', hchunk'⟩
      have hfault := hscan.fault.1 (scan_fault_of_parse hchunk')
      obtain ⟨chunk, hchunk, -⟩ := ok_of_endSeen (hends hfault).1.symm hchunk'
      exact ⟨⟨chunk, hchunk⟩, hscan.whole⟩
    · rintro ⟨⟨chunk, hchunk⟩, -⟩
      obtain ⟨chunk', hchunk', -⟩ := ok_of_endSeen (hends (scan_fault_of_parse hchunk)).1 hchunk
      exact ⟨chunk', hchunk'⟩
    · intro chunk chunk' hchunk hchunk'
      have hfault := scan_fault_of_parse hchunk
      obtain ⟨hresult, -, hglobals⟩ := hends hfault
      obtain ⟨hscripts, -, -⟩ := parse_seen (v := .scripts) (w := .scripts) rfl rfl
        (hscan.scripts (spelled_of_fault hfault)) (hscan.fault.2 hfault) hfault
      rw [hchunk, hchunk'] at hresult hscripts
      refine ⟨Except.ok.inj hresult, Except.ok.inj hscripts, hglobals, ?_⟩
      rw [comments_parse, comments_parse]
      exact hscan.comments
  · -- the string that breaks the scan stands in the text, and no program is read behind it
    obtain ⟨⟨token, htoken, hescapes⟩, hfault⟩ := hscan
    have hnone : ∀ chunk', (parse (Text.returned source)).result ≠ .ok chunk' :=
      fun chunk' hchunk' => hfault (scan_fault_of_parse hchunk')
    refine ⟨⟨?_, ?_⟩, ?_⟩
    · rintro ⟨chunk', hchunk'⟩
      exact absurd hchunk' (hnone chunk')
    · rintro ⟨-, hwhole⟩
      rw [hwhole token htoken] at hescapes
      cases hescapes
    · intro chunk chunk' _ hchunk'
      exact absurd hchunk' (hnone chunk')

/-- Two lines in a string, in a comment and in long brackets, behind a line that names an
interpreter. -/
def linedText : String := "#!lua\nx = \"a\\z\n  b\" -- c\n--[[d\ne]] y = [[\nf]]\n"

theorem parse_returned_linedText : ∃ chunk chunk', (parse linedText).result = .ok chunk ∧
    (parse (Text.returned linedText)).result = .ok chunk' ∧
    chunk'.seen .lines = chunk.seen .returning ∧ chunk'.seen .scripts = chunk.seen .scripts ∧
    (parse (Text.returned linedText)).comments.map Comment.value = [" c", "d\r\ne"] := by
  have ⟨hok, hwhole⟩ : (parse linedText).result.toOption.isSome = true ∧
      ∀ token ∈ (Scan.ofText linedText.toList).tokens, token.kind.escapesBreak = false := by
    rw [linedText, parse_ofList, String.toList_ofList]
    decide +kernel
  obtain ⟨chunk, hchunk⟩ := Parsed.exists_of_isSome hok
  obtain ⟨hiff, hsame⟩ := parse_returned linedText
  obtain ⟨chunk', hchunk'⟩ := hiff.2 ⟨⟨chunk, hchunk⟩, hwhole⟩
  obtain ⟨hlines, hscripts, -, -⟩ := hsame chunk chunk' hchunk hchunk'
  exact ⟨chunk, chunk', hchunk, hchunk', hlines, hscripts, by decide +kernel⟩

/-- A backslash takes the return alone, and the string is not finished in its line. -/
example : (parse "x = \"a\\\nb\"").result.toOption.isSome = true ∧
    (parse (Text.returned "x = \"a\\\nb\"")).result.toOption.isSome = false := by
  decide +kernel

end LuaCompiler
