import LuaCompiler.Proofs.Token.Spelled
import LuaCompiler.Proofs.Tree.Views
import LuaCompiler.StringLiteral

/-!
# Line endings

`Text.withReturns` puts a carriage return before every line feed of a text. The text is then cut
into the same lexemes, with one exception: a short string may go on behind a backslash and a line
feed, but not behind a backslash, a carriage return and a line feed, since the backslash takes the
return alone.

* `Text.withReturns`: the text with both characters at the end of each line.
* `Lexeme.Returned`: how a lexeme changes; a line comment takes the return along.
* `Lexemes.Matches`: how the lexemes of a text change, up to a string that escapes a line break.
* `Lexemes.matches_aligned`: **the lexemes of a text with returns match those of the text.**
-/

namespace LuaCompiler

namespace Text

/-- A text with a carriage return before every line feed. -/
def withReturns : List Char → List Char
  | [] => []
  | c :: cs => if c = '\n' then '\r' :: '\n' :: withReturns cs else c :: withReturns cs

variable {c : Char} {a b cs : List Char}

@[simp]
theorem withReturns_nil : withReturns [] = [] := rfl

@[simp]
theorem withReturns_break (cs : List Char) :
    withReturns ('\n' :: cs) = '\r' :: '\n' :: withReturns cs := rfl

theorem withReturns_cons (h : c ≠ '\n') (cs : List Char) :
    withReturns (c :: cs) = c :: withReturns cs := by
  rw [withReturns, if_neg h]

/-- Line breaks are respelled piece by piece. -/
theorem withReturns_append (a b : List Char) :
    withReturns (a ++ b) = withReturns a ++ withReturns b := by
  induction a with
  | nil => rfl
  | cons c a ih =>
    by_cases h : c = '\n'
    · subst h
      rw [List.cons_append, withReturns_break, withReturns_break, ih, List.cons_append,
        List.cons_append]
    · rw [List.cons_append, withReturns_cons h, withReturns_cons h, ih, List.cons_append]

/-- A text of one line stays as it is. -/
theorem withReturns_of_line (h : '\n' ∉ cs) : withReturns cs = cs := by
  induction cs with
  | nil => rfl
  | cons c cs ih =>
    rw [List.mem_cons, not_or] at h
    rw [withReturns_cons (Ne.symm h.1), ih h.2]

/-- The number of lines stays as it is. -/
theorem count_withReturns (cs : List Char) : (withReturns cs).count '\n' = cs.count '\n' := by
  induction cs with
  | nil => rfl
  | cons c cs ih =>
    by_cases h : c = '\n'
    · subst h
      simp [ih]
    · rw [withReturns_cons h, List.count_cons, List.count_cons, ih]

/-- A run of characters that go with both or with neither of the two that end a line. -/
theorem takeWhile_withReturns {p : Char → Bool} (hp : p '\r' = p '\n') (cs : List Char) :
    (withReturns cs).takeWhile p = withReturns (cs.takeWhile p) := by
  induction cs with
  | nil => rfl
  | cons c cs ih =>
    by_cases h : c = '\n'
    · subst h
      cases hbreak : p '\n' <;> simp [hp, hbreak, ih]
    · rw [withReturns_cons h, List.takeWhile_cons, List.takeWhile_cons]
      split
      · rw [withReturns_cons h, ih]
      · rfl

/-- What is dropped before a break does not depend on how breaks are spelled. -/
theorem dropWhile_withReturns {p : Char → Bool} (hp : p '\r' = p '\n') (cs : List Char) :
    (withReturns cs).dropWhile p = withReturns (cs.dropWhile p) := by
  induction cs with
  | nil => rfl
  | cons c cs ih =>
    by_cases h : c = '\n'
    · subst h
      cases hbreak : p '\n' <;> simp [hp, hbreak, ih]
    · rw [withReturns_cons h, List.dropWhile_cons, List.dropWhile_cons]
      split
      · exact ih
      · rw [withReturns_cons h]

/-- What a text starts with, within its first line. -/
theorem isPrefixOf_withReturns {p : List Char} (hp : ∀ c ∈ p, c ≠ '\n' ∧ c ≠ '\r')
    (cs : List Char) : p.isPrefixOf (withReturns cs) = p.isPrefixOf cs := by
  induction p generalizing cs with
  | nil => simp
  | cons d p ih =>
    obtain ⟨hd, hp⟩ := List.forall_mem_cons.1 hp
    cases cs with
    | nil => rfl
    | cons c cs =>
      by_cases h : c = '\n'
      · subst h
        rw [withReturns_break, List.isPrefixOf_cons_cons, List.isPrefixOf_cons_cons,
          beq_false_of_ne hd.1, beq_false_of_ne hd.2, Bool.false_and, Bool.false_and]
      · rw [withReturns_cons h, List.isPrefixOf_cons_cons, List.isPrefixOf_cons_cons, ih hp]

/-- The first character is the same unless it is part of a break. -/
theorem head?_withReturns {d : Char} (hn : d ≠ '\n') (hr : d ≠ '\r') (cs : List Char) :
    (withReturns cs).head? = some d ↔ cs.head? = some d := by
  cases cs with
  | nil => rfl
  | cons c cs =>
    by_cases h : c = '\n'
    · subst h
      simp [hn.symm, hr.symm]
    · rw [withReturns_cons h]
      rfl

/-- A source with a carriage return before every line feed. -/
def returned (source : String) : String := String.ofList (withReturns source.toList)

/-- The respelled text of some characters. -/
theorem returned_ofList (cs : List Char) :
    returned (String.ofList cs) = String.ofList (withReturns cs) := by
  rw [returned, String.toList_ofList]

end Text

open Text (withReturns)

namespace View

/-- Of a place, only its line is looked at. -/
def lines : View := ⟨fun p => ⟨p.line, 0⟩, id⟩

/-- Of a place, only its line is looked at, and strings are seen with returns. -/
def returning : View := ⟨fun p => ⟨p.line, 0⟩, Text.returned⟩

end View

/-! ## Numerals -/

namespace Numeral

/-- A number has no break in it, so its end is found alike. -/
theorem partsRun_withReturns {isPart isMark : Char → Bool}
    (hpart : isPart '\n' = false ∧ isPart '\r' = false)
    (hmark : isMark '\n' = false ∧ isMark '\r' = false) (cs : List Char) :
    partsRun isPart isMark (withReturns cs) = partsRun isPart isMark cs := by
  have hne {d : Char} {p : Char → Bool} (hp : p '\n' = false) (hd : p d = true) : d ≠ '\n' := by
    rintro rfl
    rw [hp] at hd
    cases hd
  fun_induction partsRun isPart isMark cs with
  | case1 => rfl
  | case2 c cs hc ih =>
    rw [Text.withReturns_cons (hne hpart.1 hc), partsRun_of_isPart hc, ih]
  | case3 c hc hm sign rest hsign ih =>
    have hs : sign ≠ '\n' := by
      rintro rfl
      cases hsign
    rw [Text.withReturns_cons (hne hmark.1 hm), Text.withReturns_cons hs, partsRun, if_neg hc,
      if_pos hm, if_pos hsign, ih]
  | case4 c hc hm sign rest hsign ih =>
    rw [Text.withReturns_cons (hne hmark.1 hm)]
    -- a return between mark and line feed is no sign either
    by_cases hs : sign = '\n'
    · subst hs
      rw [Text.withReturns_break] at ih ⊢
      rw [partsRun, if_neg hc, if_pos hm, if_neg (by decide), ih]
    · rw [Text.withReturns_cons hs] at ih ⊢
      rw [partsRun, if_neg hc, if_pos hm, if_neg hsign, ih]
  | case5 c hc hm =>
    rw [Text.withReturns_cons (hne hmark.1 hm), Text.withReturns_nil, partsRun, if_neg hc,
      if_pos hm]
  | case6 c cs hc hm =>
    by_cases h : c = '\n'
    · subst h
      rw [Text.withReturns_break, partsRun_of_other hpart.2 hmark.2]
    · rw [Text.withReturns_cons h, partsRun_of_other (by simpa using hc) (by simpa using hm)]

/-- The digits of an escape end before a break. -/
theorem hexDigits_withReturns (cs : List Char) :
    hexDigits? (withReturns cs) = (hexDigits? cs).map withReturns := by
  match cs with
  | [] => rfl
  | [c] =>
    by_cases hc : c = '\n'
    · subst hc
      rfl
    · rw [Text.withReturns_cons hc]
      simp [hexDigits?]
  | c :: d :: cs =>
    by_cases hc : c = '\n'
    · subst hc
      simp [hexDigits?]
    by_cases hd : d = '\n'
    · subst hd
      simp [Text.withReturns_cons hc, hexDigits?]
    rw [Text.withReturns_cons hc, Text.withReturns_cons hd]
    unfold hexDigits?
    split <;> simp_all

/-- A numeral ends where its line does, or before. -/
theorem run_withReturns {c : Char} (hc : c ≠ '\n') (cs : List Char) :
    run c (withReturns cs) = run c cs := by
  unfold run
  rw [← Text.withReturns_cons hc, hexDigits_withReturns, decimalRun_eq, decimalRun_eq,
    partsRun_withReturns (by decide) (by decide)]
  cases hexDigits? (c :: cs) with
  | none => rfl
  | some digits =>
    rw [Option.map_some]
    dsimp only
    rw [hexRun_eq, hexRun_eq, partsRun_withReturns (by decide) (by decide)]

end Numeral

/-! ## Strings and long brackets -/

/-- Whether a backslash stands before a line feed. -/
def StringLiteral.escapesBreak : List Char → Bool
  | [] => false
  | c :: cs => c == '\\' && cs.head? == some '\n' || escapesBreak cs

/-- Whether a token is a short string that goes on in the next line, behind a backslash. -/
def Token.Kind.escapesBreak : Token.Kind → Bool
  | .string raw => !StringLiteral.isLong raw.toList && StringLiteral.escapesBreak raw.toList
  | _ => false

namespace Lexeme

open StringLiteral (escapesBreak)

variable {quote c : Char} {cs : List Char} {level n : Nat}

/-- Only a backslash escapes a break. -/
theorem escapesBreak_cons (h : c ≠ '\\') (cs : List Char) :
    escapesBreak (c :: cs) = escapesBreak cs := by
  rw [escapesBreak, beq_false_of_ne h, Bool.false_and, Bool.false_or]

/-- A backslash before another character escapes none. -/
theorem escapesBreak_slash (h : cs.head? ≠ some '\n') :
    escapesBreak ('\\' :: cs) = escapesBreak cs := by
  rw [escapesBreak, beq_false_of_ne h, Bool.and_false, Bool.false_or]

/-- The backslash behind which the scanner of a short string stands. -/
def Inside.before : Inside → List Char
  | .escaped => ['\\']
  | _ => []

/-- Only behind a backslash something was read before. -/
theorem Inside.before_eq_nil {inside : Inside} (h : inside ≠ .escaped) : inside.before = [] := by
  cases inside with
  | escaped => contradiction
  | plain | blanks => rfl

/-- The end of a quoted string by its next character, outside an escape. -/
theorem throughQuote_cons (inside : Inside) (h : inside ≠ .escaped) (c : Char) (cs : List Char) :
    throughQuote? quote inside (c :: cs) =
      if inside = .blanks ∧ isEscapedSpace c then (throughQuote? quote .blanks cs).map (· + 1)
      else if c = quote then some 1
      else if c = '\n' then none
      else (throughQuote? quote (if c = '\\' then .escaped else .plain) cs).map (· + 1) := by
  cases inside with
  | escaped => contradiction
  | plain | blanks => rfl

/-- A plain string ends before a break, without its quote. -/
theorem throughQuote_plain_break (hquote : quote ≠ '\n') (cs : List Char) :
    throughQuote? quote .plain ('\n' :: cs) = none := by
  rw [throughQuote_cons .plain nofun, if_neg (by simp), if_neg hquote.symm, if_pos rfl]

/-- So a quoted string that ends does not begin with a break. -/
theorem throughQuote_plain_head (hquote : quote ≠ '\n')
    (h : throughQuote? quote .plain cs = some n) :
    (cs.take n).head? ≠ some '\n' := by
  intro hhead
  cases cs with
  | nil => cases h
  | cons d cs =>
    cases n with
    | zero => cases hhead
    | succ n =>
      cases hhead
      rw [throughQuote_plain_break hquote] at h
      cases h

/-- How far a short string reaches with returns, if it reaches over some characters without. -/
def quotedLength (before text : List Char) : Option Nat :=
  if escapesBreak (before ++ text) then none else some (withReturns text).length

/-- One character before others that are read in the same way. -/
theorem quotedLength_cons {before before' : List Char} {width : Nat} {length : Option Nat}
    (hwidth : ∀ text, (withReturns (c :: text)).length = (withReturns text).length + width)
    (hsame : ∀ n, length = some n →
      escapesBreak (before ++ c :: cs.take n) = escapesBreak (before' ++ cs.take n)) :
    (length.bind fun n => quotedLength before' (cs.take n)).map (· + width) =
      (length.map (· + 1)).bind fun n => quotedLength before ((c :: cs).take n) := by
  cases length with
  | none => rfl
  | some n =>
    simp only [Option.map_some, Option.bind_some, List.take_succ_cons, quotedLength, hsame n rfl,
      hwidth]
    split <;> rfl

/-- **A short string with returns** ends at the same quote, unless it escapes a line break: then it
ends at the line feed, which is no longer escaped. -/
theorem throughQuote_withReturns (hquote : quote ≠ '\n' ∧ quote ≠ '\r') (inside : Inside)
    (cs : List Char) : throughQuote? quote inside (withReturns cs) =
      (throughQuote? quote inside cs).bind fun n => quotedLength inside.before (cs.take n) := by
  have hone {c : Char} (hc : c ≠ '\n') (text : List Char) :
      (withReturns (c :: text)).length = (withReturns text).length + 1 := by
    rw [Text.withReturns_cons hc, List.length_cons]
  have hplain : Inside.plain ≠ .escaped := by decide
  have hblanks : Inside.blanks ≠ .escaped := by decide
  fun_induction throughQuote? quote inside cs with
  | case1 inside => cases inside <;> rfl
  | case2 c cs ih =>
    by_cases hc : c = '\n'
    · -- the backslash takes the return, and the line feed behind it ends the line
      subst hc
      rw [Text.withReturns_break, throughQuote?, if_neg (by decide),
        throughQuote_plain_break hquote.1]
      cases throughQuote? quote _ cs with
      | none => rfl
      | some n => simp [quotedLength, Inside.before, escapesBreak]
    · rw [Text.withReturns_cons hc, throughQuote?, ih]
      refine quotedLength_cons (hone hc) fun n hn => ?_
      have hbefore : (if c = 'z' then Inside.blanks else .plain).before = [] := by split <;> rfl
      rw [hbefore, Inside.before, List.singleton_append, List.nil_append,
        escapesBreak_slash (by simpa using hc)]
      -- a backslash that is escaped itself escapes nothing
      by_cases hslash : c = '\\'
      · subst hslash
        exact escapesBreak_slash (throughQuote_plain_head hquote.1 hn)
      · exact escapesBreak_cons hslash _
  | case3 inside c cs hinside hblank ih =>
    obtain ⟨rfl, hspace⟩ := hblank
    have hslash : c ≠ '\\' := by
      rintro rfl
      exact absurd hspace (by decide)
    have hsame (n : Nat) : escapesBreak (Inside.blanks.before ++ c :: cs.take n) =
        escapesBreak (Inside.blanks.before ++ cs.take n) := escapesBreak_cons hslash _
    by_cases hc : c = '\n'
    · subst hc
      rw [Text.withReturns_break, throughQuote_cons .blanks hblanks, if_pos (by decide),
        throughQuote_cons .blanks hblanks, if_pos (by decide), ih, Option.map_map]
      have htwo (text : List Char) : (withReturns ('\n' :: text)).length =
          (withReturns text).length + 2 := rfl
      exact quotedLength_cons htwo fun n _ => hsame n
    · rw [Text.withReturns_cons hc, throughQuote_cons .blanks hblanks, if_pos ⟨rfl, hspace⟩, ih]
      exact quotedLength_cons (hone hc) fun n _ => hsame n
  | case4 inside cs hinside hblank =>
    rw [Text.withReturns_cons hquote.1, throughQuote_cons inside hinside, if_neg hblank, if_pos rfl]
    simp [quotedLength, Inside.before_eq_nil hinside, escapesBreak, Text.withReturns_cons hquote.1]
  | case5 inside cs hinside hblank =>
    cases inside with
    | escaped => exact absurd rfl hinside
    | blanks => exact absurd ⟨rfl, by decide⟩ hblank
    | plain =>
      rw [Text.withReturns_break, throughQuote_cons .plain hplain, if_neg (by simp),
        if_neg hquote.2.symm, if_neg (by decide), if_neg (by decide),
        throughQuote_plain_break hquote.1]
      rfl
  | case6 inside c cs hinside hblank hne hline ih =>
    rw [Text.withReturns_cons hline, throughQuote_cons inside hinside, if_neg hblank, if_neg hne,
      if_neg hline, ih]
    refine quotedLength_cons (hone hline) fun n _ => ?_
    rw [Inside.before_eq_nil hinside]
    by_cases hslash : c = '\\'
    · rw [if_pos hslash, hslash]
      rfl
    · rw [if_neg hslash]
      exact escapesBreak_cons hslash _

/-- A closing bracket has no break in it. -/
theorem not_mem_closing (level : Nat) : ∀ d ∈ closing level, d ≠ '\n' ∧ d ≠ '\r' := by
  intro d hd
  simp only [closing, List.cons_append, List.mem_cons, List.mem_append, List.mem_replicate,
    List.not_mem_nil, or_false] at hd
  rcases hd with rfl | ⟨-, rfl⟩ | rfl <;> decide

/-- A long bracket is closed by the same bracket, further on by the returns. -/
theorem throughClosing_withReturns (level : Nat) (cs : List Char) :
    throughClosing? level (withReturns cs) =
      (throughClosing? level cs).map fun n => (withReturns (cs.take n)).length := by
  induction cs with
  | nil => rfl
  | cons c cs ih =>
    have hstarts := Text.isPrefixOf_withReturns (not_mem_closing level) (c :: cs)
    by_cases hc : c = '\n'
    · subst hc
      -- no closing bracket starts at a return or a line feed
      have hnone (d : Char) (hd : d ≠ ']') (text : List Char) :
          (closing level).isPrefixOf (d :: text) = false := by
        rw [closing, List.cons_append, List.isPrefixOf_cons_cons, beq_false_of_ne hd.symm,
          Bool.false_and]
      rw [Text.withReturns_break, throughClosing?, throughClosing?, throughClosing?,
        hnone _ (by decide), hnone _ (by decide), hnone _ (by decide)]
      simp only [Bool.false_eq_true, if_false, ih, Option.map_map]
      congr 1
    · rw [Text.withReturns_cons hc] at hstarts ⊢
      rw [throughClosing?, throughClosing?, hstarts, ih]
      split
      next hclosing =>
        obtain ⟨rest, heq⟩ := List.isPrefixOf_iff_prefix.1 hclosing
        -- the closing bracket has no line feed in it, so it is as long as before
        have htake : (c :: cs).take (level + 2) = closing level := by
          rw [← heq, ← length_closing level, List.take_left]
        have hline : '\n' ∉ closing level := fun hmem => (not_mem_closing level _ hmem).1 rfl
        rw [Option.map_some, htake, Text.withReturns_of_line hline, length_closing]
      next =>
        rw [Option.map_map, Option.map_map]
        congr 1
        funext n
        simp [Text.withReturns_cons hc]

/-- An opening bracket has no break in it. -/
theorem longLevel_withReturns (cs : List Char) : longLevel? (withReturns cs) = longLevel? cs := by
  induction cs with
  | nil => rfl
  | cons c cs ih =>
    by_cases hc : c = '='
    · subst hc
      rw [Text.withReturns_cons (by decide), longLevel_equals, longLevel_equals, ih]
    by_cases hn : c = '\n'
    · subst hn
      rfl
    · rw [Text.withReturns_cons hn, longLevel_other hc, longLevel_other hc]

/-- What opens a long bracket, behind its first bracket. -/
theorem longLevel_split (h : longLevel? cs = some level) :
    ∃ body, cs = List.replicate level '=' ++ '[' :: body := by
  induction cs generalizing level with
  | nil => cases h
  | cons c cs ih =>
    by_cases hc : c = '='
    · subst hc
      rw [longLevel_equals] at h
      obtain ⟨m, hm, rfl⟩ := Option.map_eq_some_iff.1 h
      obtain ⟨body, rfl⟩ := ih hm
      exact ⟨body, by rw [List.replicate_succ, List.cons_append]⟩
    · rw [longLevel_other hc] at h
      split at h
      next hopen =>
        cases h
        exact ⟨cs, by rw [hopen, List.replicate_zero, List.nil_append]⟩
      next => cases h

/-- Behind an opening bracket stands the body. -/
theorem drop_opened (level : Nat) (body : List Char) :
    (List.replicate level '=' ++ '[' :: body).drop (level + 1) = body := by
  rw [List.append_cons, List.drop_left' (by simp)]

/-- What is taken of a long bracket takes the opening and some of the body. -/
theorem take_opened (level n : Nat) (body : List Char) :
    (List.replicate level '=' ++ '[' :: body).take (level + 1 + n) =
      List.replicate level '=' ++ '[' :: body.take n := by
  have hlength : level + 1 = (List.replicate level '=' ++ ['[']).length := by simp
  rw [List.append_cons, List.append_cons _ _ (body.take n), hlength, List.take_length_add_append]

/-- The breaks of a long bracket are those of its body. -/
theorem withReturns_opened (level : Nat) (body : List Char) :
    withReturns (List.replicate level '=' ++ '[' :: body) =
      List.replicate level '=' ++ '[' :: withReturns body := by
  rw [Text.withReturns_append, Text.withReturns_of_line (by simp),
    Text.withReturns_cons (by decide)]

/-- What a closing bracket closes. -/
theorem throughClosing_split (h : throughClosing? level cs = some n) :
    ∃ inner, cs.take n = inner ++ closing level := by
  induction cs generalizing n with
  | nil => cases h
  | cons c cs ih =>
    rw [throughClosing?] at h
    split at h
    next hclosing =>
      cases h
      obtain ⟨rest, heq⟩ := List.isPrefixOf_iff_prefix.1 hclosing
      exact ⟨[], by rw [← heq, ← length_closing level, List.take_left, List.nil_append]⟩
    next =>
      obtain ⟨m, hm, rfl⟩ := Option.map_eq_some_iff.1 h
      obtain ⟨inner, hinner⟩ := ih hm
      exact ⟨c :: inner, by rw [List.take_succ_cons, hinner, List.cons_append]⟩

/-! ## Cuts -/

/-- What opens a comment in long brackets. -/
def opening (level : Nat) : List Char := '-' :: '-' :: '[' :: (List.replicate level '=' ++ ['['])

/-- **How a lexeme changes**: blanks get returns, a line comment takes along the return behind it,
and long brackets and strings get returns inside. A short string that escapes a line break has no
counterpart. -/
inductive Returned : Lexeme → Lexeme → Prop
  | blank {text text' : List Char} (h : text'.count '\n' = text.count '\n') :
    Returned ⟨.blank, text⟩ ⟨.blank, text'⟩
  | line {text : List Char} (h : '\n' ∉ text) : Returned ⟨.lineComment, text⟩ ⟨.lineComment, text⟩
  | lineReturn {text : List Char} (h : '\n' ∉ text) :
    Returned ⟨.lineComment, text⟩ ⟨.lineComment, text ++ ['\r']⟩
  | block (level : Nat) (inner : List Char) :
    Returned ⟨.blockComment level, opening level ++ inner ++ closing level⟩
      ⟨.blockComment level, opening level ++ withReturns inner ++ closing level⟩
  | token {kind : Token.Kind} (text : List Char) (h : kind.escapesBreak = false) :
    Returned ⟨.token kind, text⟩ ⟨.token (kind.seen .returning), withReturns text⟩

/-- What is left of a text and of the same text with returns: behind a line comment the return is
gone. -/
inductive Aligned : List Char → List Char → Prop
  | whole (cs : List Char) : Aligned cs (withReturns cs)
  | behindReturn (cs : List Char) : Aligned ('\n' :: cs) ('\n' :: withReturns cs)

/-- The lexeme that is cut off a text, and what is left. -/
def piece (c : Char) (cs : List Char) (cut : Cut) : Lexeme × List Char :=
  (⟨cut.kind, c :: cs.take cut.more⟩, cs.drop cut.more)

/-- **How a cut changes**: it fails in the same way, it cuts off a lexeme that matches, or it fails
at a string that escapes a line break. -/
inductive CutMatches :
    Except LexicalFault (Lexeme × List Char) → Except LexicalFault (Lexeme × List Char) → Prop
  | error (fault : LexicalFault) : CutMatches (.error fault) (.error fault)
  | ok {lexeme lexeme' : Lexeme} {rest rest' : List Char} (h : Returned lexeme lexeme')
    (hrest : Aligned rest rest') : CutMatches (.ok (lexeme, rest)) (.ok (lexeme', rest'))
  | escaped {kind : Token.Kind} {text rest : List Char} (h : kind.escapesBreak = true) :
    CutMatches (.ok (⟨.token kind, text⟩, rest)) (.error .unfinishedString)

/-- Breaks are respelled before and behind any place. -/
theorem withReturns_split (n : Nat) (cs : List Char) :
    withReturns cs = withReturns (cs.take n) ++ withReturns (cs.drop n) := by
  rw [← Text.withReturns_append, List.take_append_drop]

/-- As many characters as the respelled start has are the respelled start. -/
theorem take_withReturns (n : Nat) (cs : List Char) :
    (withReturns cs).take (withReturns (cs.take n)).length = withReturns (cs.take n) := by
  rw [withReturns_split n cs, List.take_left]

/-- Behind them stands the respelled rest. -/
theorem drop_withReturns (n : Nat) (cs : List Char) :
    (withReturns cs).drop (withReturns (cs.take n)).length = withReturns (cs.drop n) := by
  rw [withReturns_split n cs, List.drop_left]

/-- A token without breaks is cut at the same place. -/
theorem CutMatches.token {kind : Token.Kind} (hc : c ≠ '\n') (h : kind.escapesBreak = false)
    (cs : List Char) (n : Nat) :
    CutMatches (.ok (piece c cs ⟨.token kind, n⟩)) (.ok (piece c (withReturns cs)
      ⟨.token (kind.seen .returning), (withReturns (cs.take n)).length⟩)) := by
  unfold piece
  dsimp only
  rw [take_withReturns, drop_withReturns, ← Text.withReturns_cons hc]
  exact .ok (.token _ h) (.whole _)

/-- A token that is no string and lies in one line. -/
theorem CutMatches.plain {kind : Token.Kind} (hc : c ≠ '\n') (hn : n ≤ cs.length)
    (hline : '\n' ∉ cs.take n) (hkind : ∀ raw, kind ≠ .string raw) :
    CutMatches (.ok (piece c cs ⟨.token kind, n⟩))
      (.ok (piece c (withReturns cs) ⟨.token kind, n⟩)) := by
  have hplain : kind.escapesBreak = false ∧ kind.seen .returning = kind := by
    cases kind with
    | string raw => exact absurd rfl (hkind raw)
    | _ => exact ⟨rfl, rfl⟩
  have hmatches := CutMatches.token hc hplain.1 cs n
  rw [hplain.2, Text.withReturns_of_line hline, List.length_take_of_le hn] at hmatches
  exact hmatches

theorem length_takeWhile_le (p : Char → Bool) (cs : List Char) :
    (cs.takeWhile p).length ≤ cs.length := (List.takeWhile_prefix p).length_le

theorem take_takeWhile (p : Char → Bool) (cs : List Char) :
    cs.take (cs.takeWhile p).length = cs.takeWhile p :=
  (List.prefix_iff_eq_take.1 (List.takeWhile_prefix p)).symm

theorem drop_takeWhile (p : Char → Bool) (cs : List Char) :
    cs.drop (cs.takeWhile p).length = cs.dropWhile p := by
  induction cs with
  | nil => rfl
  | cons c cs ih =>
    rw [List.takeWhile_cons, List.dropWhile_cons]
    split
    · rw [List.length_cons, List.drop_succ_cons, ih]
    · rfl

/-- A name ends before a break. -/
theorem matches_cutName (hc : c ≠ '\n') (cs : List Char) :
    CutMatches (.ok (piece c cs (cutName c cs)))
      (.ok (piece c (withReturns cs) (cutName c (withReturns cs)))) := by
  have hline : '\n' ∉ cs.takeWhile isNameRest := by
    intro hmem
    exact absurd (List.mem_takeWhile_imp hmem) (by decide)
  have hsame : (withReturns cs).takeWhile isNameRest = cs.takeWhile isNameRest := by
    rw [Text.takeWhile_withReturns (by decide), Text.withReturns_of_line hline]
  unfold cutName
  rw [hsame]
  dsimp only
  refine .plain hc (length_takeWhile_le ..) ?_ ?_
  · rwa [take_takeWhile]
  · split <;> exact nofun

/-- A number ends before a break. -/
theorem matches_cutNumber (hc : (c.isDigit || c == '.') = true) (cs : List Char) :
    CutMatches ((cutNumber c cs).map (piece c cs))
      ((cutNumber c (withReturns cs)).map (piece c (withReturns cs))) := by
  have hbreak : c ≠ '\n' := by
    rintro rfl
    exact absurd hc (by decide)
  obtain ⟨hlength, -, hchars⟩ := Numeral.run_take hc cs
  have hline : '\n' ∉ cs.take (Numeral.run c cs) := fun hmem => absurd (hchars _ hmem) (by decide)
  have htake : (withReturns cs).take (Numeral.run c cs) = cs.take (Numeral.run c cs) := by
    have htake := take_withReturns (Numeral.run c cs) cs
    rwa [Text.withReturns_of_line hline, List.length_take_of_le hlength] at htake
  unfold cutNumber
  rw [Numeral.run_withReturns hbreak]
  dsimp only
  rw [htake]
  split
  next value _ => exact .plain hbreak hlength hline nofun
  next => exact .error _

/-- A symbol is told by characters that are no break. -/
theorem matches_cutSymbol (hc : c ≠ '\n') (cs : List Char) :
    CutMatches ((cutSymbol c cs).map (piece c cs))
      ((cutSymbol c (withReturns cs)).map (piece c (withReturns cs))) := by
  -- no symbol has a line ending in it, so the returns that are put in leave it whole
  have hchars (symbol : Symbol) : ∀ d ∈ symbol.text.toList, d ≠ '\n' ∧ d ≠ '\r' := by
    have hall : symbol.text.toList.all (fun d => d != '\n' && d != '\r') = true := by
      cases symbol <;> rfl
    simpa using hall
  have hsame : Symbol.longest? (c :: withReturns cs) = Symbol.longest? (c :: cs) := by
    rw [← Text.withReturns_cons hc]
    unfold Symbol.longest?
    congr 1
    funext symbol
    exact Text.isPrefixOf_withReturns (hchars symbol) _
  unfold cutSymbol
  rw [hsame]
  split
  next symbol hsymbol =>
    have hfound := List.find?_some hsymbol
    have hstarts : symbol.text.toList <+: c :: cs := List.isPrefixOf_iff_prefix.1 hfound
    obtain ⟨more, htext, hmore⟩ : ∃ more, symbol.text.toList = c :: more ∧ more <+: cs := by
      cases htext : symbol.text.toList with
      | nil => cases symbol <;> cases htext
      | cons d more =>
        rw [htext, List.cons_prefix_cons] at hstarts
        exact ⟨more, by rw [hstarts.1], hstarts.2⟩
    have hlength : symbol.text.length - 1 = more.length := by
      rw [← String.length_toList, htext, List.length_cons, Nat.add_sub_cancel]
    rw [hlength]
    refine .plain hc hmore.length_le ?_ nofun
    rw [← List.prefix_iff_eq_take.1 hmore]
    intro hmem
    exact (hchars symbol '\n' (htext ▸ List.mem_cons_of_mem _ hmem)).1 rfl
  next => exact .error _

/-- The text of a string is seen with its breaks respelled. -/
theorem seen_string (hc : c ≠ '\n') (text : List Char) :
    (Token.Kind.string (String.ofList (c :: text))).seen .returning =
      .string (String.ofList (c :: withReturns text)) := by
  rw [← Text.withReturns_cons hc, ← Text.returned_ofList]
  rfl

/-- A string is cut where its respelled text ends. -/
theorem CutMatches.string {m : Nat} (hc : c ≠ '\n') (hm : m = (withReturns (cs.take n)).length)
    (h : (Token.Kind.string (String.ofList (c :: cs.take n))).escapesBreak = false) :
    CutMatches (.ok (piece c cs ⟨.token (.string (String.ofList (c :: cs.take n))), n⟩))
      (.ok (piece c (withReturns cs)
        ⟨.token (.string (String.ofList (c :: (withReturns cs).take m))), m⟩)) := by
  have hmatches := CutMatches.token hc h cs n
  rw [seen_string hc] at hmatches
  rwa [hm, take_withReturns]

/-- A quoted string is no long bracket. -/
theorem isLong_quoted (hquote : quote = '"' ∨ quote = '\x27') (text : List Char) :
    StringLiteral.isLong (quote :: text) = false := by
  rcases hquote with rfl | rfl <;> rfl

/-- A quoted string ends at the same quote. A break in it is escaped, which is left out here. -/
theorem matches_cutString (hquote : quote = '"' ∨ quote = '\x27') (cs : List Char) :
    CutMatches ((cutString quote cs).map (piece quote cs))
      ((cutString quote (withReturns cs)).map (piece quote (withReturns cs))) := by
  have hbreak : quote ≠ '\n' ∧ quote ≠ '\r' := by rcases hquote with rfl | rfl <;> decide
  have hslash : quote ≠ '\\' := by rcases hquote with rfl | rfl <;> decide
  have hescapes (text : List Char) :
      (Token.Kind.string (String.ofList (quote :: text))).escapesBreak = escapesBreak text := by
    rw [Token.Kind.escapesBreak, String.toList_ofList, isLong_quoted hquote,
      escapesBreak_cons hslash]
    rfl
  unfold cutString
  rw [throughQuote_withReturns hbreak]
  cases throughQuote? quote .plain cs with
  | none => exact .error _
  | some n =>
    have hlength : quotedLength Inside.plain.before (cs.take n) =
        if escapesBreak (cs.take n) then none else some (withReturns (cs.take n)).length := rfl
    rw [Option.bind_some, hlength]
    cases hbreaks : escapesBreak (cs.take n) with
    | true => exact .escaped ((hescapes _).trans hbreaks)
    | false => exact .string hbreak.1 rfl ((hescapes _).trans hbreaks)

/-- A long string ends at the same bracket. -/
theorem matches_cutLongString (hlevel : longLevel? cs = some level) :
    CutMatches ((cutLongString level cs).map (piece '[' cs))
      ((cutLongString level (withReturns cs)).map (piece '[' (withReturns cs))) := by
  obtain ⟨body, hbody⟩ := longLevel_split hlevel
  have hdrop : cs.drop (level + 1) = body := by rw [hbody, drop_opened]
  have hreturned : (withReturns cs).drop (level + 1) = withReturns body := by
    rw [hbody, withReturns_opened, drop_opened]
  unfold cutLongString
  rw [hdrop, hreturned, throughClosing_withReturns]
  cases throughClosing? level body with
  | none => exact .error _
  | some n =>
    refine .string (by decide) ?_ ?_
    · rw [hbody, take_opened, withReturns_opened]
      simp
      omega
    · rw [Token.Kind.escapesBreak, String.toList_ofList]
      rfl

/-- A blank takes the spaces that follow. -/
theorem piece_blank (c : Char) (cs : List Char) :
    piece c cs (cutBlank cs) = (⟨.blank, c :: cs.takeWhile isSpace⟩, cs.dropWhile isSpace) := by
  unfold piece cutBlank
  rw [take_takeWhile, drop_takeWhile]

/-- Blanks with the same first character. -/
theorem matches_cutBlank (c : Char) (cs : List Char) :
    CutMatches (.ok (piece c cs (cutBlank cs)))
      (.ok (piece c (withReturns cs) (cutBlank (withReturns cs)))) := by
  rw [piece_blank, piece_blank, Text.takeWhile_withReturns (by decide),
    Text.dropWhile_withReturns (by decide)]
  refine .ok (.blank ?_) (.whole _)
  rw [List.count_cons, List.count_cons, Text.count_withReturns]

/-- Blanks that start with a line break. -/
theorem matches_cutBlank_break (cs : List Char) :
    CutMatches (.ok (piece '\n' cs (cutBlank cs)))
      (.ok (piece '\r' ('\n' :: withReturns cs) (cutBlank ('\n' :: withReturns cs)))) := by
  rw [piece_blank, piece_blank, List.takeWhile_cons_of_pos (by decide),
    List.dropWhile_cons_of_pos (by decide), Text.takeWhile_withReturns (by decide),
    Text.dropWhile_withReturns (by decide)]
  refine .ok (.blank ?_) (.whole _)
  simp [Text.count_withReturns]

/-- A comment in long brackets, which goes on up to the closing bracket. -/
theorem piece_opening (level n : Nat) (body : List Char) :
    piece '-' ('-' :: '[' :: (List.replicate level '=' ++ '[' :: body))
        ⟨.blockComment level, 1 + (level + 2) + n⟩ =
      (⟨.blockComment level, opening level ++ body.take n⟩, body.drop n) := by
  have hsplit : '-' :: '[' :: (List.replicate level '=' ++ '[' :: body) =
      (opening level).tail ++ body := by simp [opening]
  have hlength : 1 + (level + 2) + n = (opening level).tail.length + n := by
    simp [opening]
    omega
  unfold piece
  dsimp only
  rw [hsplit, hlength, List.take_length_add_append, List.drop_length_add_append]
  rfl

/-- A comment with a bracket ends where the bracket is closed. -/
theorem cutComment_block (h : longLevel? cs = some level) :
    cutComment ('[' :: cs) = match throughClosing? level (cs.drop (level + 1)) with
      | some n => .ok ⟨.blockComment level, 1 + (level + 2) + n⟩
      | none => .error .unfinishedLongComment := by
  cases hclosing : throughClosing? level (cs.drop (level + 1)) <;>
    simp only [cutComment, h, hclosing]

/-- Any other comment ends with its line. -/
theorem cutComment_line (h : ∀ inner, cs = '[' :: inner → longLevel? inner = none) :
    cutComment cs = .ok ⟨.lineComment, 1 + (cs.takeWhile (· != '\n')).length⟩ := by
  unfold cutComment
  dsimp only
  split
  next inner => rw [h inner rfl]
  next => rfl

/-- A comment in brackets ends at the same bracket. -/
theorem matches_block (h : longLevel? cs = some level) :
    CutMatches ((cutComment ('[' :: cs)).map (piece '-' ('-' :: '[' :: cs)))
      ((cutComment ('[' :: withReturns cs)).map (piece '-' ('-' :: '[' :: withReturns cs))) := by
  rw [cutComment_block h, cutComment_block ((longLevel_withReturns cs).trans h)]
  obtain ⟨body, rfl⟩ := longLevel_split h
  rw [withReturns_opened, drop_opened, drop_opened, throughClosing_withReturns]
  cases hclosing : throughClosing? level body with
  | none => exact .error _
  | some n =>
    obtain ⟨inner, hinner⟩ := throughClosing_split hclosing
    have hline : '\n' ∉ closing level := fun hmem => (not_mem_closing level _ hmem).1 rfl
    change CutMatches (.ok (piece _ _ _)) (.ok (piece _ _ _))
    rw [piece_opening, piece_opening, take_withReturns, drop_withReturns, hinner,
      Text.withReturns_append, Text.withReturns_of_line hline, ← List.append_assoc,
      ← List.append_assoc]
    exact .ok (.block level inner) (.whole _)

/-- A line comment takes the rest of the line. -/
theorem piece_line (cs : List Char) :
    piece '-' ('-' :: cs) ⟨.lineComment, 1 + (cs.takeWhile (· != '\n')).length⟩ =
      (⟨.lineComment, '-' :: '-' :: cs.takeWhile (· != '\n')⟩, cs.dropWhile (· != '\n')) := by
  unfold piece
  dsimp only
  rw [Nat.add_comm, List.take_succ_cons, List.drop_succ_cons, take_takeWhile, drop_takeWhile]

/-- The first line of a text takes along the return that it ends with. -/
theorem firstLine_withReturns (cs : List Char) :
    Aligned (cs.dropWhile (· != '\n')) ((withReturns cs).dropWhile (· != '\n')) ∧
      ((withReturns cs).takeWhile (· != '\n') = cs.takeWhile (· != '\n') ∨
        (withReturns cs).takeWhile (· != '\n') = cs.takeWhile (· != '\n') ++ ['\r']) := by
  induction cs with
  | nil => exact ⟨.whole [], .inl rfl⟩
  | cons c cs ih =>
    by_cases hc : c = '\n'
    · subst hc
      exact ⟨.behindReturn cs, .inr rfl⟩
    · have hgo : (c != '\n') = true := bne_iff_ne.2 hc
      simp only [Text.withReturns_cons hc, List.dropWhile_cons, List.takeWhile_cons, hgo, if_true,
        List.cons_append]
      exact ⟨ih.1, ih.2.imp (congrArg _) (congrArg _)⟩

theorem not_mem_firstLine (cs : List Char) : '\n' ∉ cs.takeWhile (· != '\n') :=
  fun hmem => absurd (List.mem_takeWhile_imp hmem) (by decide)

/-- A line comment reaches over the return that its line ends with. -/
theorem matches_line (cs : List Char) :
    CutMatches
      (.ok (piece '-' ('-' :: cs) ⟨.lineComment, 1 + (cs.takeWhile (· != '\n')).length⟩))
      (.ok (piece '-' ('-' :: withReturns cs)
        ⟨.lineComment, 1 + ((withReturns cs).takeWhile (· != '\n')).length⟩)) := by
  have hdashes : '\n' ∉ '-' :: '-' :: cs.takeWhile (· != '\n') := by
    simpa using not_mem_firstLine cs
  rw [piece_line, piece_line]
  obtain ⟨hrest, hline | hline⟩ := firstLine_withReturns cs
  · rw [hline]
    exact .ok (.line hdashes) hrest
  · rw [hline]
    exact .ok (.lineReturn hdashes) hrest

/-- A comment on a line takes the return before the break as well; one in brackets ends alike. -/
theorem matches_cutComment (cs : List Char) :
    CutMatches ((cutComment cs).map (piece '-' ('-' :: cs)))
      ((cutComment (withReturns cs)).map (piece '-' ('-' :: withReturns cs))) := by
  -- a comment is a block if a long bracket follows, with returns or without
  by_cases hblock : ∃ inner level, cs = '[' :: inner ∧ longLevel? inner = some level
  · obtain ⟨inner, level, rfl, hlevel⟩ := hblock
    rw [Text.withReturns_cons (by decide)]
    exact matches_block hlevel
  · have hline : ∀ inner, cs = '[' :: inner → longLevel? inner = none := by
      intro inner hinner
      cases hlevel : longLevel? inner with
      | none => rfl
      | some level => exact absurd ⟨inner, level, hinner, hlevel⟩ hblock
    -- putting returns in neither makes nor breaks the bracket
    have hreturned : ∀ inner, withReturns cs = '[' :: inner → longLevel? inner = none := by
      intro inner hinner
      have hhead := (Text.head?_withReturns (d := '[') (by decide) (by decide) cs).1
        (by rw [hinner]; rfl)
      obtain ⟨rest, rfl⟩ : ∃ rest, cs = '[' :: rest := by
        cases cs with
        | nil => cases hhead
        | cons c rest => exact ⟨rest, by cases hhead; rfl⟩
      rw [Text.withReturns_cons (by decide)] at hinner
      rw [← (List.cons.inj hinner).2, longLevel_withReturns]
      exact hline rest rfl
    rw [cutComment_line hline, cutComment_line hreturned]
    exact matches_line cs

theorem cut_space (h : isSpace c = true) (cs : List Char) : cut? c cs = .ok (cutBlank cs) :=
  if_pos h

/-- Cuts of texts with the same first character. -/
theorem matches_cut_first (hc : c ≠ '\n') (cs : List Char) :
    CutMatches ((cut? c cs).map (piece c cs))
      ((cut? c (withReturns cs)).map (piece c (withReturns cs))) := by
  have hdigit : startsWithDigit (withReturns cs) = startsWithDigit cs := by
    cases cs with
    | nil => rfl
    | cons d cs =>
      by_cases hd : d = '\n'
      · subst hd
        rfl
      · rw [Text.withReturns_cons hd]
        rfl
  have hdash := Text.head?_withReturns (d := '-') (by decide) (by decide) cs
  unfold cut?
  simp only [hdigit, longLevel_withReturns, hdash]
  -- no test of the first characters tells the texts apart, so one rule cuts both
  by_cases hspace : isSpace c = true
  · rw [if_pos hspace, if_pos hspace]
    exact matches_cutBlank c cs
  rw [if_neg hspace, if_neg hspace]
  by_cases hcomment : c = '-' ∧ cs.head? = some '-'
  · rw [if_pos hcomment, if_pos hcomment]
    obtain ⟨rfl, hhead⟩ := hcomment
    obtain ⟨rest, rfl⟩ : ∃ rest, cs = '-' :: rest := by
      cases cs with
      | nil => cases hhead
      | cons d rest => exact ⟨rest, by cases hhead; rfl⟩
    rw [Text.withReturns_cons (by decide)]
    exact matches_cutComment rest
  rw [if_neg hcomment, if_neg hcomment]
  by_cases hname : isNameStart c = true
  · rw [if_pos hname, if_pos hname]
    exact matches_cutName hc cs
  rw [if_neg hname, if_neg hname]
  by_cases hnumber : c.isDigit = true ∨ (c = '.' ∧ startsWithDigit cs = true)
  · rw [if_pos hnumber, if_pos hnumber]
    refine matches_cutNumber ?_ cs
    rcases hnumber with hdigit | ⟨rfl, -⟩
    · rw [hdigit, Bool.true_or]
    · rfl
  rw [if_neg hnumber, if_neg hnumber]
  by_cases hquote : c = '"' ∨ c = '\x27'
  · rw [if_pos hquote, if_pos hquote]
    exact matches_cutString hquote cs
  rw [if_neg hquote, if_neg hquote]
  by_cases hbracket : c = '['
  · rw [if_pos hbracket, if_pos hbracket]
    subst hbracket
    cases hlevel : longLevel? cs with
    | some level => exact matches_cutLongString hlevel
    | none => exact matches_cutSymbol hc cs
  rw [if_neg hbracket, if_neg hbracket]
  exact matches_cutSymbol hc cs

/-- **Cuts match.** -/
theorem matches_cut {c' : Char} {cs' : List Char} (h : Aligned (c :: cs) (c' :: cs')) :
    CutMatches ((cut? c cs).map (piece c cs)) ((cut? c' cs').map (piece c' cs')) := by
  generalize hx : c :: cs = x at h
  generalize hy : c' :: cs' = y at h
  cases h with
  | whole =>
    subst hx
    by_cases hc : c = '\n'
    · subst hc
      cases hy
      rw [cut_space (by decide), cut_space (by decide)]
      exact matches_cutBlank_break cs
    · rw [Text.withReturns_cons hc] at hy
      cases hy
      exact matches_cut_first hc cs
  | behindReturn rest =>
    cases hx
    cases hy
    rw [cut_space (by decide), cut_space (by decide)]
    exact matches_cutBlank '\n' cs

end Lexeme

/-! ## Lexemes -/

namespace Lexemes

open Lexeme (Returned Aligned piece)

/-- **How the lexemes of a text change**, up to the first string that escapes a line break. -/
inductive Matches : Lexemes → Lexemes → Prop
  | done (fault : Option LexicalFault) : Matches ⟨[], fault⟩ ⟨[], fault⟩
  | cons {lexeme lexeme' : Lexeme} {rest rest' : Lexemes} (h : Returned lexeme lexeme')
    (hrest : Matches rest rest') : Matches (cons lexeme rest) (cons lexeme' rest')
  | escaped {kind : Token.Kind} {text : List Char} (rest : Lexemes) (h : kind.escapesBreak = true) :
    Matches (cons ⟨.token kind, text⟩ rest) ⟨[], some .unfinishedString⟩

/-- A text read from some place is the rest of it. -/
theorem ofTextFrom_eq_drop (skip : Nat) (cs : List Char) :
    ofTextFrom skip cs = ofText (cs.drop skip) := by
  induction cs generalizing skip with
  | nil => cases skip <;> rfl
  | cons c cs ih =>
    cases skip with
    | zero => rfl
    | succ skip => exact ih skip

/-- A text is cut into the lexeme at its front and those of what is left. -/
theorem ofText_cons (c : Char) (cs : List Char) :
    ofText (c :: cs) = match (Lexeme.cut? c cs).map (piece c cs) with
      | .ok (lexeme, rest) => cons lexeme (ofText rest)
      | .error fault => ⟨[], some fault⟩ := by
  rw [ofText, ofTextFrom]
  cases Lexeme.cut? c cs with
  | error fault => rfl
  | ok cut =>
    dsimp only [Except.map, piece]
    rw [ofTextFrom_eq_drop]

/-- **The lexemes of a text with returns match those of the text.** -/
theorem matches_aligned {text text' : List Char} (h : Aligned text text') :
    Matches (ofText text) (ofText text') := by
  -- each cut leaves less of the text, and what is left is aligned again
  induction hlength : text.length using Nat.strong_induction_on generalizing text text' with
  | _ length ih =>
    cases text with
    | nil =>
      cases h
      exact .done none
    | cons c cs =>
      obtain ⟨c', cs', rfl⟩ : ∃ c' cs', text' = c' :: cs' := by
        cases h with
        | behindReturn => exact ⟨_, _, rfl⟩
        | whole =>
          by_cases hc : c = '\n'
          · subst hc
            exact ⟨_, _, rfl⟩
          · exact ⟨_, _, Text.withReturns_cons hc cs⟩
      have hcut := Lexeme.matches_cut h
      have hshort : ∀ lexeme rest, (Lexeme.cut? c cs).map (piece c cs) = .ok (lexeme, rest) →
          rest.length < length := by
        intro lexeme rest heq
        cases hok : Lexeme.cut? c cs with
        | error fault =>
          rw [hok] at heq
          cases heq
        | ok cut =>
          rw [hok] at heq
          cases heq
          rw [← hlength, List.length_drop, List.length_cons]
          omega
      rw [ofText_cons, ofText_cons]
      generalize (Lexeme.cut? c cs).map (piece c cs) = front at hcut hshort ⊢
      generalize (Lexeme.cut? c' cs').map (piece c' cs') = front' at hcut ⊢
      cases hcut with
      | error fault => exact .done (some fault)
      | ok hlexeme hrest => exact .cons hlexeme (ih _ (hshort _ _ rfl) hrest rfl)
      | escaped hescapes => exact .escaped _ hescapes

end Lexemes

end LuaCompiler
