import LuaCompiler.Token.Scan
import Mathlib.Data.List.TakeWhile

/-!
# Tokens parted by blanks

A token whose text is cut as that token is still cut so in front of a blank: no cut reaches over the
blank. So tokens written with a blank between each two are scanned as themselves.

* `Token.Kind.isSpelled`: a token's text is cut as the token.
* `Lexeme.cut_append_blank`: a blank behind a token's text changes nothing about the cut.
* `Scan.kinds_spaced`: the tokens that spaced tokens are scanned as.
-/

namespace LuaCompiler

namespace Lexeme

variable {level : Nat} {quote c : Char} {cs more : List Char} {n : Nat}

/-! ## Cuts in front of a blank -/

/-- A run over a whole text ends there before a blank. -/
theorem length_takeWhile_blank {p : Char → Bool} (hp : p ' ' = false)
    (h : (cs.takeWhile p).length = cs.length) : (cs ++ ' ' :: more).takeWhile p = cs := by
  have hall : ∀ x ∈ cs, p x = true := by
    rw [← List.takeWhile_eq_self_iff]
    exact (List.takeWhile_prefix p).eq_of_length h
  rw [List.takeWhile_append_of_pos hall, List.takeWhile_cons_of_neg (by simp [hp]), List.append_nil]

/-- A string that ends is not changed by what stands behind it. -/
theorem throughQuote_append {inside : Inside} (h : throughQuote? quote inside cs = some n) :
    throughQuote? quote inside (cs ++ more) = some n := by
  -- the state inside the string does not depend on what follows its end
  fun_induction throughQuote? quote inside cs generalizing n with
  | case1 => cases h
  | case2 c cs ih =>
    obtain ⟨m, hm, rfl⟩ := Option.map_eq_some_iff.1 h
    simp [throughQuote?, ih hm]
  | case3 inside c cs hinside hblank ih =>
    obtain ⟨m, hm, rfl⟩ := Option.map_eq_some_iff.1 h
    cases inside with
    | escaped => contradiction
    | plain => simp at hblank
    | blanks => simp [throughQuote?, hblank.2, ih hm]
  | case4 inside cs hinside hblank =>
    cases h
    cases inside with
    | escaped => contradiction
    | plain => simp [throughQuote?]
    | blanks =>
      have hquote : isEscapedSpace quote = false := by simpa using hblank
      simp [throughQuote?, hquote]
  | case5 => cases h
  | case6 inside c cs hinside hblank hquote hline ih =>
    obtain ⟨m, hm, rfl⟩ := Option.map_eq_some_iff.1 h
    cases inside with
    | escaped => contradiction
    | plain => simp [throughQuote?, hquote, hline, ih hm]
    | blanks =>
      have hc : isEscapedSpace c = false := by simpa using hblank
      simp [throughQuote?, hquote, hline, hc, ih hm]

theorem length_closing (level : Nat) : (closing level).length = level + 2 := by
  simp [closing]

/-- A closing bracket stands within the text. -/
theorem throughClosing_bounds (h : throughClosing? level cs = some n) :
    level + 2 ≤ n ∧ n ≤ cs.length := by
  induction cs generalizing n with
  | nil => cases h
  | cons c cs ih =>
    rw [throughClosing?] at h
    split at h
    next hclosing =>
      cases h
      have hlength := (List.isPrefixOf_iff_prefix.1 hclosing).length_le
      rw [length_closing] at hlength
      exact ⟨Nat.le_refl _, hlength⟩
    · obtain ⟨m, hm, rfl⟩ := Option.map_eq_some_iff.1 h
      obtain ⟨hlow, hhigh⟩ := ih hm
      rw [List.length_cons]
      omega

/-- A long bracket that is closed is not changed by what stands behind it. -/
theorem throughClosing_append (h : throughClosing? level cs = some n) :
    throughClosing? level (cs ++ more) = some n := by
  induction cs generalizing n with
  | nil => cases h
  | cons c cs ih =>
    rw [throughClosing?] at h
    rw [List.cons_append, throughClosing?]
    split at h
    next hclosing =>
      have hlong : (closing level).isPrefixOf (c :: (cs ++ more)) = true := by
        rw [List.isPrefixOf_iff_prefix, ← List.cons_append]
        exact (List.isPrefixOf_iff_prefix.1 hclosing).trans (List.prefix_append ..)
      rw [if_pos hlong]
      exact h
    next hclosing =>
      obtain ⟨m, hm, rfl⟩ := Option.map_eq_some_iff.1 h
      -- the bracket that closes lies behind, so there is room for one here
      have hroom : (closing level).length ≤ (c :: cs).length := by
        have := throughClosing_bounds hm
        rw [length_closing, List.length_cons]
        omega
      have hshort : ¬ (closing level).isPrefixOf (c :: (cs ++ more)) = true := by
        rw [List.isPrefixOf_iff_prefix, ← List.cons_append]
        intro hprefix
        exact hclosing (List.isPrefixOf_iff_prefix.2
          (List.prefix_of_prefix_length_le hprefix (List.prefix_append ..) hroom))
      rw [if_neg hshort, ih hm]
      rfl

/-- An equals sign more is a level more. -/
theorem longLevel_equals (cs : List Char) :
    longLevel? ('=' :: cs) = (longLevel? cs).map (· + 1) := by
  unfold longLevel?
  simp only [List.dropWhile_cons, List.takeWhile_cons, beq_self_eq_true, if_true, List.length_cons]
  split <;> rfl

/-- Any other character ends the level, and opens the bracket or none. -/
theorem longLevel_other (hc : c ≠ '=') (cs : List Char) :
    longLevel? (c :: cs) = if c = '[' then some 0 else none := by
  unfold longLevel?
  have hne : (c == '=') = false := by simpa using hc
  simp only [List.dropWhile_cons, List.takeWhile_cons, hne, Bool.false_eq_true, if_false]
  split
  next heq =>
    cases heq
    rfl
  next hopen =>
    rw [if_neg]
    rintro rfl
    exact hopen cs rfl

/-- A blank behind does not open a bracket. -/
theorem longLevel_append_blank (cs more : List Char) :
    longLevel? (cs ++ ' ' :: more) = longLevel? cs := by
  induction cs with
  | nil => rfl
  | cons c cs ih =>
    rw [List.cons_append]
    by_cases hc : c = '='
    · rw [hc, longLevel_equals, longLevel_equals, ih]
    · rw [longLevel_other hc, longLevel_other hc]

theorem decimalRun_blank (more : List Char) : Numeral.decimalRun (' ' :: more) = 0 := by
  unfold Numeral.decimalRun
  rfl

/-- A blank ends the digits of a number. -/
theorem decimalRun_append_blank (cs more : List Char) :
    Numeral.decimalRun (cs ++ ' ' :: more) = Numeral.decimalRun cs := by
  fun_induction Numeral.decimalRun cs with
  | case1 => exact decimalRun_blank more
  | case2 c cs hc ih =>
    rw [List.cons_append, Numeral.decimalRun.eq_def]
    dsimp only
    rw [if_pos hc, ih]
  | case3 c hc he sign rest hsign ih =>
    rw [List.cons_append, Numeral.decimalRun.eq_def]
    dsimp only [List.cons_append]
    rw [if_neg hc, if_pos he, if_pos hsign, ih]
  | case4 c hc he sign rest hsign ih =>
    simp only [List.cons_append] at ih ⊢
    rw [Numeral.decimalRun, if_neg hc, if_pos he, if_neg hsign, ih]
  | case5 c hc he =>
    simp only [List.cons_append, List.nil_append]
    rw [Numeral.decimalRun, if_neg hc, if_pos he, if_neg (by decide), decimalRun_blank]
  | case6 c cs hc he =>
    rw [List.cons_append, Numeral.decimalRun.eq_def]
    dsimp only
    rw [if_neg hc, if_neg he]

theorem hexRun_blank (more : List Char) : Numeral.hexRun (' ' :: more) = 0 := by
  unfold Numeral.hexRun
  rfl

/-- And those in hexadecimal. -/
theorem hexRun_append_blank (cs more : List Char) :
    Numeral.hexRun (cs ++ ' ' :: more) = Numeral.hexRun cs := by
  fun_induction Numeral.hexRun cs with
  | case1 => exact hexRun_blank more
  | case2 c cs hc ih =>
    rw [List.cons_append, Numeral.hexRun.eq_def]
    dsimp only
    rw [if_pos hc, ih]
  | case3 c hc he sign rest hsign ih =>
    rw [List.cons_append, Numeral.hexRun.eq_def]
    dsimp only [List.cons_append]
    rw [if_neg hc, if_pos he, if_pos hsign, ih]
  | case4 c hc he sign rest hsign ih =>
    simp only [List.cons_append] at ih ⊢
    rw [Numeral.hexRun, if_neg hc, if_pos he, if_neg hsign, ih]
  | case5 c hc he =>
    simp only [List.cons_append, List.nil_append]
    rw [Numeral.hexRun, if_neg hc, if_pos he, if_neg (by decide), hexRun_blank]
  | case6 c cs hc he =>
    rw [List.cons_append, Numeral.hexRun.eq_def]
    dsimp only
    rw [if_neg hc, if_neg he]

/-- The mark of a hexadecimal number stands before its digits. -/
theorem hexDigits_append_blank (cs more : List Char) :
    Numeral.hexDigits? (cs ++ ' ' :: more) =
      (Numeral.hexDigits? cs).map (· ++ ' ' :: more) := by
  match cs with
  | [] => rfl
  | [c] =>
    unfold Numeral.hexDigits?
    simp
  | c :: d :: cs =>
    unfold Numeral.hexDigits?
    simp only [List.cons_append]
    split <;> simp_all

/-- A number ends before a blank. -/
theorem numeralRun_append_blank (first : Char) (cs more : List Char) :
    Numeral.run first (cs ++ ' ' :: more) = Numeral.run first cs := by
  unfold Numeral.run
  rw [← List.cons_append, hexDigits_append_blank, decimalRun_append_blank]
  cases Numeral.hexDigits? (first :: cs) with
  | none => rfl
  | some digits => simp [hexRun_append_blank]

/-- A sign ends before a blank. -/
theorem longest_append_blank (symbol : Symbol) (more : List Char) :
    Symbol.longest? (symbol.text.toList ++ ' ' :: more) = some symbol := by
  cases symbol <;> rfl

variable {kind : Token.Kind}

/-- A name ends before a blank. -/
theorem cutName_append_blank (h : cutName c cs = ⟨.token kind, cs.length⟩) :
    cutName c (cs ++ ' ' :: more) = ⟨.token kind, cs.length⟩ := by
  unfold cutName at h ⊢
  obtain ⟨hkind, hlength⟩ := Cut.mk.inj h
  have hself : cs.takeWhile isNameRest = cs :=
    (List.takeWhile_prefix isNameRest).eq_of_length hlength
  rw [hself] at hkind
  rw [length_takeWhile_blank (by decide) hlength]
  dsimp only
  rw [hkind]

/-- A number is cut before a blank. -/
theorem cutNumber_append_blank (h : cutNumber c cs = .ok ⟨.token kind, cs.length⟩) :
    cutNumber c (cs ++ ' ' :: more) = .ok ⟨.token kind, cs.length⟩ := by
  unfold cutNumber at h ⊢
  rw [numeralRun_append_blank]
  dsimp only at h ⊢
  split at h
  next value hvalue =>
    have hlength : Numeral.run c cs = cs.length := congrArg Cut.more (Except.ok.inj h)
    rw [hlength, List.take_length] at h hvalue
    rw [hlength, List.take_left, hvalue]
    exact h
  · cases h

/-- A string is cut behind its quote. -/
theorem cutString_append (h : cutString quote cs = .ok ⟨.token kind, cs.length⟩) :
    cutString quote (cs ++ more) = .ok ⟨.token kind, cs.length⟩ := by
  unfold cutString at h ⊢
  split at h
  next n hn =>
    have hlength : n = cs.length := congrArg Cut.more (Except.ok.inj h)
    subst hlength
    rw [throughQuote_append hn]
    dsimp only
    rw [List.take_left]
    rw [List.take_length] at h
    exact h
  · cases h

/-- A long string is cut behind its closing bracket. -/
theorem cutLongString_append (hlevel : level + 1 ≤ cs.length)
    (h : cutLongString level cs = .ok ⟨.token kind, cs.length⟩) :
    cutLongString level (cs ++ more) = .ok ⟨.token kind, cs.length⟩ := by
  unfold cutLongString at h ⊢
  split at h
  next n hn =>
    have hlength : level + 1 + n = cs.length := congrArg Cut.more (Except.ok.inj h)
    dsimp only at h ⊢
    rw [hlength, List.take_length] at h
    rw [List.drop_append_of_le_length hlevel, throughClosing_append hn]
    dsimp only
    rw [hlength, List.take_left]
    exact h
  · cases h

/-- A sign is cut before a blank. -/
theorem cutSymbol_append_blank (h : cutSymbol c cs = .ok ⟨.token kind, cs.length⟩) :
    cutSymbol c (cs ++ ' ' :: more) = .ok ⟨.token kind, cs.length⟩ := by
  unfold cutSymbol at h ⊢
  split at h
  next symbol hsymbol =>
    obtain ⟨hkind, hlength⟩ := Cut.mk.inj (Except.ok.inj h)
    have hprefix : symbol.text.toList <+: c :: cs := by
      have hfound := List.find?_some hsymbol
      exact List.isPrefixOf_iff_prefix.1 hfound
    have hpos : 0 < symbol.text.length := by cases symbol <;> decide
    have htext : symbol.text.toList = c :: cs := by
      apply hprefix.eq_of_length
      rw [String.length_toList, List.length_cons]
      omega
    rw [← List.cons_append, ← htext, longest_append_blank]
    rw [← hkind, ← hlength]
  · cases h

/-- An opening bracket is not longer than its text. -/
theorem longLevel_length (h : longLevel? cs = some level) : level + 1 ≤ cs.length := by
  induction cs generalizing level with
  | nil => cases h
  | cons d cs ih =>
    by_cases hd : d = '='
    · rw [hd, longLevel_equals] at h
      obtain ⟨m, hm, rfl⟩ := Option.map_eq_some_iff.1 h
      have := ih hm
      rw [List.length_cons]
      omega
    · rw [longLevel_other hd] at h
      split at h
      · cases h
        simp
      · cases h

/-- A comment is no token. -/
theorem cutComment_ne_token (cs : List Char) (n : Nat) : cutComment cs ≠ .ok ⟨.token kind, n⟩ := by
  intro h
  unfold cutComment at h
  dsimp only at h
  repeat' split at h
  all_goals cases h

/-- **A blank behind a token changes nothing**: a text that is cut as one token is cut so in front
of a blank too. -/
theorem cut_append_blank (h : cut? c cs = .ok ⟨.token kind, cs.length⟩) :
    cut? c (cs ++ ' ' :: more) = .ok ⟨.token kind, cs.length⟩ := by
  unfold cut? at h ⊢
  -- what is looked at behind the first character is the same, or a blank now
  have hdash : (cs ++ ' ' :: more).head? = some '-' ↔ cs.head? = some '-' := by
    cases cs <;> simp
  have hdigit : startsWithDigit (cs ++ ' ' :: more) = startsWithDigit cs := by
    cases cs <;> rfl
  rw [hdigit, longLevel_append_blank]
  simp only [hdash]
  split at h
  · cases h
  · rw [if_neg ‹_›]
    split at h
    · -- from here on, one sort of token after another
      exact absurd h (cutComment_ne_token _ _)
    · rw [if_neg ‹_›]
      split at h
      · rw [if_pos ‹_›, cutName_append_blank (Except.ok.inj h)]
      · rw [if_neg ‹_›]
        split at h
        · rw [if_pos ‹_›, cutNumber_append_blank h]
        · rw [if_neg ‹_›]
          split at h
          · rw [if_pos ‹_›, cutString_append h]
          · rw [if_neg ‹_›]
            split at h
            · rw [if_pos ‹_›]
              split at h
              next level hlevel => exact cutLongString_append (longLevel_length hlevel) h
              · exact cutSymbol_append_blank h
            · rw [if_neg ‹_›, cutSymbol_append_blank h]

/-- A token does not begin with a space. -/
theorem isSpace_eq_false_of_cut {more : Nat} (h : cut? c cs = .ok ⟨.token kind, more⟩) :
    isSpace c = false := by
  unfold cut? at h
  split at h
  · cases h
  next hspace => simpa using hspace

end Lexeme

open Lexeme (cut?)

/-! ## Words -/

/-- **Whether a token is spelled right**: its text is cut as the token. -/
def Token.Kind.isSpelled (kind : Token.Kind) : Bool :=
  match kind.text.toList with
  | [] => false
  | c :: cs =>
    match cut? c cs with
    | .ok cut => cut.kind == .token kind && cut.more == cs.length
    | .error _ => false

/-- A token is spelled right when it is cut out of its own text. -/
theorem Token.Kind.isSpelled_iff {kind : Token.Kind} :
    kind.isSpelled = true ↔
      ∃ c cs, kind.text.toList = c :: cs ∧ cut? c cs = .ok ⟨.token kind, cs.length⟩ := by
  unfold isSpelled
  cases htext : kind.text.toList with
  | nil => simp
  | cons c cs =>
    simp only [List.cons.injEq, exists_and_left, and_assoc, exists_eq_left']
    cases cut? c cs with
    | error fault => simp
    | ok cut =>
      obtain ⟨kind', more⟩ := cut
      simp

theorem Keyword.isSpelled (word : Keyword) : (Token.Kind.keyword word).isSpelled = Bool.true := by
  cases word <;> decide +kernel

theorem Symbol.isSpelled (sign : Symbol) : (Token.Kind.symbol sign).isSpelled = true := by
  cases sign <;> decide +kernel

/-- Whether a text is a name: a letter or underscore, then letters, digits and underscores, and no
word that is reserved. -/
def Name.isValid (name : String) : Bool :=
  match name.toList with
  | [] => false
  | c :: cs => (c.isAlpha || c == '_') && cs.all (fun d => d.isAlphanum || d == '_') &&
    Keyword.all.all fun word => word.text != name

/-- An identifier is spelled as a name. -/
theorem Name.isSpelled {name : String} (h : Name.isValid name = true) :
    (Token.Kind.name name).isSpelled = true := by
  unfold Name.isValid at h
  split at h
  · cases h
  next c cs hname =>
    simp only [Bool.and_eq_true, List.all_eq_true, bne_iff_ne] at h
    obtain ⟨⟨hc, hcs⟩, hword⟩ := h
    have hself : cs.takeWhile Lexeme.isNameRest = cs := List.takeWhile_eq_self_iff.2 hcs
    have hofText : Keyword.ofText? name = none := by
      rw [Keyword.ofText?, List.find?_eq_none]
      intro word hmem
      simpa using hword word hmem
    have hback : String.ofList (c :: cs) = name := by rw [← hname, String.ofList_toList]
    have hcut : Lexeme.cutName c cs = ⟨.token (.name name), cs.length⟩ := by
      unfold Lexeme.cutName
      dsimp only
      rw [hself, hback, hofText]
    -- no blank begins a name
    have hspace : Lexeme.isSpace c = false := by
      by_contra hspace
      have hblank : c ∈ [' ', '\t', '\r', '\n', '\x0b', '\x0c'] :=
        List.contains_iff_mem.1 (Bool.not_eq_false _ ▸ hspace)
      simp only [List.mem_cons, List.not_mem_nil, or_false] at hblank
      rcases hblank with rfl | rfl | rfl | rfl | rfl | rfl <;> exact absurd hc (by decide)
    refine Token.Kind.isSpelled_iff.2 ⟨c, cs, hname, ?_⟩
    unfold cut?
    rw [if_neg (by simp [hspace]), if_neg, if_pos (show Lexeme.isNameStart c = true from hc), hcut]
    rintro ⟨rfl, -⟩
    exact absurd hc (by decide)

/-! ## Spaced tokens -/

/-- Tokens with a blank between each two. -/
def spaced (kinds : List Token.Kind) : String :=
  " ".intercalate (kinds.map Token.Kind.text)

theorem toList_spaced_single (k : Token.Kind) : (spaced [k]).toList = k.text.toList := by
  simp [spaced]

/-- Tokens are written with a blank between them. -/
theorem toList_spaced_cons (k l : Token.Kind) (rest : List Token.Kind) :
    (spaced (k :: l :: rest)).toList = k.text.toList ++ ' ' :: (spaced (l :: rest)).toList := by
  simp [spaced, String.toList_intercalate, List.intercalate]

/-- The lexemes of spaced tokens. -/
def spacedLexemes : List Token.Kind → List Lexeme
  | [] => []
  | [k] => [⟨.token k, k.text.toList⟩]
  | k :: rest => ⟨.token k, k.text.toList⟩ :: ⟨.blank, [' ']⟩ :: spacedLexemes rest

namespace Lexemes

/-- A text is read on behind what was read of it. -/
theorem ofTextFrom_append (cs more : List Char) :
    ofTextFrom cs.length (cs ++ more) = ofTextFrom 0 more := by
  induction cs with
  | nil => rfl
  | cons c cs ih => exact ih

/-- A blank before a text that does not start with one. -/
theorem ofTextFrom_blank {c : Char} (hc : Lexeme.isSpace c = false) (cs : List Char) :
    ofTextFrom 0 (' ' :: c :: cs) = cons ⟨.blank, [' ']⟩ (ofTextFrom 0 (c :: cs)) := by
  have hcut : cut? ' ' (c :: cs) = .ok ⟨.blank, 0⟩ := by
    unfold cut? Lexeme.cutBlank
    rw [if_pos (by decide), List.takeWhile_cons_of_neg (by simp [hc])]
    rfl
  rw [ofTextFrom, hcut]
  rfl

/-- **Spaced tokens are cut as themselves.** -/
theorem ofText_spaced {ks : List Token.Kind} (h : ∀ k ∈ ks, k.isSpelled = true) :
    ofText (spaced ks).toList = ⟨spacedLexemes ks, none⟩ := by
  unfold ofText
  induction ks with
  | nil => rfl
  | cons k rest ih =>
    obtain ⟨c, cs, htext, hcut⟩ := Token.Kind.isSpelled_iff.1 (h k (List.mem_cons_self ..))
    have ih := ih fun l hl => h l (List.mem_cons_of_mem _ hl)
    cases rest with
    | nil =>
      rw [toList_spaced_single, spacedLexemes, htext, ofTextFrom, hcut]
      have hend := ofTextFrom_append cs []
      rw [List.append_nil] at hend
      simp [hend, ofTextFrom, cons]
    | cons l rest =>
      obtain ⟨d, ds, hstart, hcut'⟩ :=
        Token.Kind.isSpelled_iff.1 (h l (List.mem_cons_of_mem _ (List.mem_cons_self ..)))
      -- a token does not start with a blank, so the one that separates is all that is skipped
      obtain ⟨tail, htail⟩ : ∃ tail, (spaced (l :: rest)).toList = d :: tail := by
        cases rest with
        | nil => exact ⟨ds, by rw [toList_spaced_single, hstart]⟩
        | cons m rest => exact ⟨_, by rw [toList_spaced_cons, hstart]; rfl⟩
      have hblank := ofTextFrom_blank (Lexeme.isSpace_eq_false_of_cut hcut') tail
      rw [← htail, ih] at hblank
      rw [toList_spaced_cons, spacedLexemes, htext, List.cons_append, ofTextFrom,
        Lexeme.cut_append_blank hcut]
      dsimp only
      rw [ofTextFrom_append, hblank, List.take_left]
      · rfl
      · simp

end Lexemes

namespace Scan

/-- Tokens between blanks are the tokens, and the end. -/
theorem kinds_ofLexemes (here : Position) (ks : List Token.Kind) :
    (ofLexemes none here (spacedLexemes ks)).tokens.map Token.kind = ks ++ [.eof] ∧
      (ofLexemes none here (spacedLexemes ks)).fault = none := by
  induction ks generalizing here with
  | nil => exact ⟨rfl, rfl⟩
  | cons k rest ih =>
    cases rest with
    | nil => exact ⟨rfl, rfl⟩
    | cons l rest =>
      obtain ⟨htokens, hfault⟩ := ih ((here.advance k.text.toList).advance [' '])
      constructor
      · simpa [spacedLexemes, ofLexemes] using htokens
      · simpa [spacedLexemes, ofLexemes] using hfault

/-- A token that starts with a hash is the hash. -/
theorem eq_nil_of_cut_hash {kind : Token.Kind} {cs : List Char}
    (h : cut? '#' cs = .ok ⟨.token kind, cs.length⟩) : cs = [] := by
  have hcut : cut? '#' cs = .ok ⟨.token (.symbol .hash), 0⟩ := rfl
  rw [hcut] at h
  exact List.eq_nil_of_length_eq_zero (congrArg Lexeme.Cut.more (Except.ok.inj h)).symm

/-- Spaced tokens do not start like an interpreter's line. -/
theorem interpreterLine_spaced {ks : List Token.Kind} (h : ∀ k ∈ ks, k.isSpelled = true) :
    interpreterLine (spaced ks).toList = [] := by
  unfold interpreterLine
  split
  next more hstart =>
    cases ks with
    | nil => cases hstart
    | cons k rest =>
      obtain ⟨c, cs, htext, hcut⟩ := Token.Kind.isSpelled_iff.1 (h k (List.mem_cons_self ..))
      cases rest with
      | nil =>
        rw [toList_spaced_single, htext] at hstart
        cases hstart
        cases eq_nil_of_cut_hash hcut
      | cons l rest =>
        rw [toList_spaced_cons, htext, List.cons_append] at hstart
        obtain ⟨rfl, htail⟩ := List.cons.inj hstart
        rw [eq_nil_of_cut_hash hcut] at htail
        cases htail
  · rfl

/-- **Spaced tokens are scanned as themselves.** -/
theorem kinds_spaced {ks : List Token.Kind} (h : ∀ k ∈ ks, k.isSpelled = true) :
    (ofText (spaced ks).toList).tokens.map Token.kind = ks ++ [.eof] ∧
      (ofText (spaced ks).toList).fault = none := by
  unfold ofText
  rw [interpreterLine_spaced h]
  dsimp only
  rw [List.length_nil, List.drop_zero, Lexemes.ofText_spaced h]
  exact kinds_ofLexemes _ ks

end Scan

end LuaCompiler
