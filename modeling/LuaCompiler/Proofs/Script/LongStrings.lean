import LuaCompiler.Proofs.Parser.LineEndings
import LuaCompiler.Proofs.Script.Literals
import LuaCompiler.Proofs.Script.Values

/-!
# Long strings

A long string is read as one token, and the template that is written for it has the string's text as
its value.

* `Lexeme.throughClosing_content`: the first closing bracket of a level is the one behind the
  content.
* `StringLiteral.templateOf_cons`: what one character of the content adds to the template.
* `Script.spelledUnits_templateLines`: the value of the inside of a template is the content, with the
  line breaks of a template.
* `Script.longString_roundTrip`: **a long string is one token, and its value is its text.**
-/

namespace LuaCompiler

open Lexeme (closing throughClosing? longLevel?)

/-- A text in long brackets of a level. -/
def StringLiteral.longString (level : Nat) (content : List Char) : List Char :=
  '[' :: (List.replicate level '=' ++ '[' :: (content ++ closing level))

/-- A text without the line feed it starts with. -/
def Text.withoutFirstBreak : List Char → List Char
  | '\n' :: cs => cs
  | cs => cs

/-! ## One token -/

namespace Lexeme

variable {level : Nat} {content : List Char}

/-- What stands before a bracket that ends some equals signs is all of them. -/
theorem eq_replicate_of_bracket {front rest : List Char}
    (h : List.replicate level '=' ++ [']'] = front ++ ']' :: rest) :
    front = List.replicate level '=' := by
  rcases List.append_eq_append_iff.1 h with ⟨more, rfl, hmore⟩ | ⟨more, heq, hmore⟩
  · cases more with
    | nil => exact List.append_nil _
    | cons d more => simp at hmore
  · cases more with
    | nil => rw [heq, List.append_nil]
    | cons d more =>
      obtain rfl : ']' = d := (List.cons.inj hmore).1
      have hmem : ']' ∈ List.replicate level '=' := heq ▸ by simp
      exact absurd (List.eq_of_mem_replicate hmem) (by decide)

/-- **The closing bracket is not found early**, if the content neither holds it nor ends in all of it
but its last character. -/
theorem throughClosing_content (hinside : ¬ closing level <:+: content)
    (hend : ¬ ']' :: List.replicate level '=' <:+ content) :
    throughClosing? level (content ++ closing level) = some (content.length + (level + 2)) := by
  induction content with
  | nil =>
    have hprefix : (closing level).isPrefixOf (closing level) = true :=
      List.isPrefixOf_iff_prefix.2 (List.prefix_refl _)
    rw [List.nil_append, List.length_nil, Nat.zero_add]
    rw [closing, List.cons_append] at hprefix ⊢
    rw [throughClosing?, closing, List.cons_append, if_pos hprefix]
  | cons c cs ih =>
    have hprefix : ¬ (closing level).isPrefixOf (c :: (cs ++ closing level)) = true := by
      rw [List.isPrefixOf_iff_prefix]
      rintro ⟨rest, heq⟩
      rw [← List.cons_append, List.append_eq_append_iff] at heq
      rcases heq with ⟨more, hcontent, -⟩ | ⟨more, hclosing, hrest⟩
      · exact hinside ⟨[], more, by rw [hcontent, List.nil_append]⟩
      -- a bracket that starts in the content and ends behind it
      cases more with
      | nil => exact hinside ⟨[], [], by rw [hclosing]; simp⟩
      | cons d more =>
        rw [closing, List.cons_append] at hclosing hrest
        obtain ⟨rfl, hbehind⟩ := List.cons.inj hclosing
        obtain ⟨rfl, -⟩ := List.cons.inj hrest
        rw [eq_replicate_of_bracket hbehind] at hend
        exact hend (List.suffix_refl _)
    rw [List.cons_append, throughClosing?, if_neg hprefix,
      ih (fun h => hinside (h.trans (List.suffix_cons ..).isInfix))
        (fun h => hend (h.trans (List.suffix_cons ..))), Option.map_some, List.length_cons]
    congr 1
    omega

theorem longLevel_opened (level : Nat) (body : List Char) :
    longLevel? (List.replicate level '=' ++ '[' :: body) = some level := by
  induction level with
  | zero => rfl
  | succ level ih => rw [List.replicate_succ, List.cons_append, longLevel_equals, ih]; rfl

end Lexeme

open StringLiteral (longString)

variable {level : Nat} {content : List Char}

/-- A long string is cut as one token. -/
theorem Lexeme.cut_longString (hinside : ¬ closing level <:+: content)
    (hend : ¬ ']' :: List.replicate level '=' <:+ content) :
    cut? '[' (longString level content).tail =
      .ok ⟨.token (.string (String.ofList (longString level content))),
        (longString level content).tail.length⟩ := by
  have hcut : cut? '[' (longString level content).tail =
      cutLongString level (longString level content).tail := by
    unfold cut?
    rw [longString, List.tail_cons, longLevel_opened]
    rfl
  have hwhole : level + 1 + (content.length + (level + 2)) =
      (longString level content).tail.length := by
    rw [longString, List.tail_cons, List.length_append, List.length_cons, List.length_append,
      length_closing, List.length_replicate]
    omega
  rw [hcut, cutLongString]
  nth_rewrite 1 [longString]
  rw [List.tail_cons, drop_opened, throughClosing_content hinside hend]
  dsimp only
  rw [hwhole, List.take_length]
  rfl

/-- **A long string is scanned as one token** that spans it. -/
theorem Scan.ofText_longString (hinside : ¬ closing level <:+: content)
    (hend : ¬ ']' :: List.replicate level '=' <:+ content) :
    ofText (longString level content) =
      ⟨[⟨.string (String.ofList (longString level content)),
          ⟨.origin, Position.origin.advance (longString level content)⟩⟩,
        ⟨.eof, ⟨Position.origin.advance (longString level content),
          Position.origin.advance (longString level content)⟩⟩], [], none⟩ := by
  have hspelled : (Token.Kind.string (String.ofList (longString level content))).isSpelled = true := by
    refine Token.Kind.isSpelled_iff.2 ⟨'[', (longString level content).tail, ?_,
      Lexeme.cut_longString hinside hend⟩
    exact String.toList_ofList
  have hspaced : spaced [.string (String.ofList (longString level content))] =
      String.ofList (longString level content) := by
    rw [← String.toList_inj, toList_spaced_single]
    rfl
  have hone : ∀ k ∈ [Token.Kind.string (String.ofList (longString level content))],
      k.isSpelled = true := by
    simpa using hspelled
  have hline := interpreterLine_spaced hone
  have hlexemes := Lexemes.ofText_spaced hone
  rw [hspaced, String.toList_ofList] at hline hlexemes
  rw [ofText, hline, List.length_nil, List.drop_zero, hlexemes]
  simp [spacedLexemes, ofLexemes, Token.Kind.text]

/-! ## The text of the string -/

theorem Text.dropBytes_append {front : List Char} (h : ∀ c ∈ front, c.utf8Size = 1)
    (t : List Char) : dropBytes front.length (front ++ t) = t := by
  induction front with
  | nil => rw [List.length_nil, List.nil_append, dropBytes]
  | cons c front ih =>
    rw [List.cons_append, List.length_cons, dropBytes, h c (List.mem_cons_self ..),
      Nat.add_sub_cancel, ih fun d hd => h d (List.mem_cons_of_mem _ hd)]

namespace StringLiteral

theorem dropFirstBreak_of_line (h : '\r' ∉ content) :
    dropFirstBreak content = Text.withoutFirstBreak content := by
  unfold dropFirstBreak
  split
  · simp at h
  · rfl
  next hbreak =>
    unfold Text.withoutFirstBreak
    split
    next tail _ => exact absurd rfl (hbreak tail)
    · rfl

/-- **The text of a long string** is its content without the line break it starts with. -/
theorem contentOf_brackets (level : Nat) (content : List Char) :
    contentOf (longString level content) = dropFirstBreak content := by
  have hlevel : StringLiteral.level (longString level content) = level := by
    simp [StringLiteral.level, longString, List.takeWhile_append_of_pos]
  have hlong : ¬ Text.byteCount (longString level content) < level + 2 + (level + 2) := by
    have hcount := length_le_byteCount (longString level content)
    have hlength : level + 2 + (level + 2) ≤ (longString level content).length := by
      simp [longString, Lexeme.length_closing]
      omega
    omega
  -- brackets and signs are a byte each, so counting bytes drops just them
  have hopening : Text.dropBytes (level + 2) (longString level content) =
      content ++ closing level := by
    have hfront : ∀ c ∈ '[' :: (List.replicate level '=' ++ ['[']), c.utf8Size = 1 := by
      intro c hc
      simp at hc
      rcases hc with rfl | ⟨-, rfl⟩ | rfl <;> rfl
    simpa [longString] using Text.dropBytes_append hfront (content ++ closing level)
  have hclosing : Text.dropLastBytes (level + 2) (content ++ closing level) = content := by
    have hback : ∀ c ∈ (closing level).reverse, c.utf8Size = 1 := by
      intro c hc
      simp [closing] at hc
      rcases hc with rfl | ⟨-, rfl⟩ | rfl <;> rfl
    have hdrop := Text.dropBytes_append hback content.reverse
    rw [List.length_reverse, Lexeme.length_closing] at hdrop
    rw [Text.dropLastBytes, List.reverse_append, hdrop, List.reverse_reverse]
  have hopen : isLong (longString level content) = true := rfl
  rw [contentOf, if_pos hopen, hlevel, if_neg hlong, hopening, hclosing]

theorem contentOf_longString (hreturn : '\r' ∉ content) :
    contentOf (longString level content) = Text.withoutFirstBreak content := by
  rw [contentOf_brackets, dropFirstBreak_of_line hreturn]

/-! ## The template -/

/-- A text with the line breaks of a template: a return is a line feed, and so is a return with a line
feed behind it. -/
def templateLines : List Char → List Char
  | '\r' :: '\n' :: cs => '\n' :: templateLines cs
  | '\r' :: cs => '\n' :: templateLines cs
  | c :: cs => c :: templateLines cs
  | [] => []

theorem templateLines_of_line (h : '\r' ∉ content) : templateLines content = content := by
  induction content with
  | nil => rfl
  | cons c cs ih =>
    rw [List.mem_cons, not_or] at h
    rw [templateLines, ih h.2]
    · rintro tail rfl
      exact absurd rfl h.1
    · rintro rfl
      exact absurd rfl h.1

/-- Whether a character is escaped in a template, in front of the rest. -/
def isMarked (c : Char) (rest : List Char) : Prop :=
  c = '\\' ∨ c = '\x60' ∨ c = '$' ∧ rest.head? = some '\x7b'

instance (c : Char) (rest : List Char) : Decidable (isMarked c rest) :=
  inferInstanceAs (Decidable (_ ∨ _))

/-- Escapes of openings of substitutions. -/
theorem replaceFrom_opening (c : Char) (t : List Char) :
    Text.replaceFrom ['$', '\x7b'] ['\\', '$', '\x7b'] 0 (c :: t) =
      (if c = '$' ∧ t.head? = some '\x7b' then ['\\', c] else [c]) ++
        Text.replaceFrom ['$', '\x7b'] ['\\', '$', '\x7b'] 0 t := by
  cases t with
  | nil => simp [Text.replaceFrom, List.isPrefixOf]
  | cons d t =>
    by_cases hopen : c = '$' ∧ d = '\x7b'
    · obtain ⟨rfl, rfl⟩ := hopen
      simp [Text.replaceFrom, List.isPrefixOf]
    · have hprefix : ['$', '\x7b'].isPrefixOf (c :: d :: t) = false := by
        simp only [List.isPrefixOf_cons_cons, Bool.and_eq_false_iff, beq_eq_false_iff_ne]
        grind
      rw [Text.replaceFrom, hprefix]
      simp [hopen]

/-- **What one character adds to a template.** No replacement touches what the one before it has
written. -/
theorem templateOf_cons (c : Char) (cs : List Char) :
    templateOf (c :: cs) = (if isMarked c cs then ['\\', c] else [c]) ++ templateOf cs := by
  unfold templateOf
  dsimp only
  rw [Script.replaceFrom_single, Script.replaceFrom_single, Script.replaceFrom_single,
    Script.replaceFrom_single, List.flatMap_cons, List.flatMap_append]
  have hhead : ((cs.flatMap fun d => if d = '\\' then ['\\', '\\'] else [d]).flatMap
      fun d => if d = '\x60' then ['\\', '\x60'] else [d]).head? = some '\x7b' ↔
        cs.head? = some '\x7b' := by
    cases cs with
    | nil => simp
    | cons d ds =>
      by_cases hslash : d = '\\'
      · simp [hslash]
      · by_cases htick : d = '\x60' <;> simp [hslash, htick]
  by_cases hslash : c = '\\'
  · simp [hslash, isMarked, replaceFrom_opening]
  by_cases htick : c = '\x60'
  · simp [htick, isMarked, replaceFrom_opening]
  · simp [hslash, htick, isMarked, replaceFrom_opening, hhead]

/-- A character at the front of a template that no escape has is one of the text. -/
theorem head_templateOf {c : Char} {t rest : List Char} (hc : c ≠ '\\' ∧ c ≠ '\x60')
    (h : (templateOf t ++ '\x60' :: rest).head? = some c) : t.head? = some c := by
  cases t with
  | nil => exact absurd (Option.some.inj h).symm hc.2
  | cons d ds =>
    rw [templateOf_cons] at h
    split at h
    · exact absurd (Option.some.inj h).symm hc.1
    · exact h

end StringLiteral

namespace Script

open StringLiteral (templateOf templateLines isMarked templateOf_cons)

/-- An escaped character of a template stands for itself. -/
theorem spells_marked {c : Char} {rest : List Char} (h : isMarked c rest) :
    Spells .template ['\\', c] (Text.codeUnits c.toNat) := by
  refine spells_escape (by decide) fun v => ?_
  rcases h with rfl | rfl | ⟨rfl, -⟩ <;> rfl

/-- A line feed behind a return in a template is one in the text. -/
theorem templateReturn (cs : List Char) :
    Quotation.template.plain? '\r' (templateOf cs ++ ['\x60']) =
      some ([10], if cs.head? = some '\n' then 1 else 0) := by
  have hhead : (templateOf cs ++ ['\x60']).head? = some '\n' ↔ cs.head? = some '\n' := by
    refine ⟨StringLiteral.head_templateOf (by decide), fun h => ?_⟩
    obtain ⟨tail, rfl⟩ := List.head?_eq_some_iff.1 h
    rw [templateOf_cons, if_neg (by simp [isMarked])]
    rfl
  have hopen : ¬ ('\r' = '$' ∧ (templateOf cs ++ ['\x60']).head? = some '\x7b') := by
    rintro ⟨heq, -⟩
    cases heq
  rw [Quotation.plain?, if_neg hopen, if_pos rfl]
  simp only [hhead]

/-- **The value of the inside of a template** is the text it is written for, with the line breaks of
a template. -/
theorem spelledUnits_templateLines (t : List Char) :
    spelledUnits? .template 0 (templateOf t ++ ['\x60']) = some (Text.units (templateLines t)) := by
  have hreturn (cs : List Char) : templateOf ('\r' :: cs) = '\r' :: templateOf cs := by
    rw [templateOf_cons, if_neg (by simp [isMarked])]
    rfl
  fun_induction templateLines t with
  | case1 cs ih =>
    -- a return and the line feed behind it are one line break
    have hline : templateOf ('\n' :: cs) = '\n' :: templateOf cs := by
      rw [templateOf_cons, if_neg (by simp [isMarked])]
      rfl
    rw [hreturn, List.cons_append, spelledUnits?, if_neg (by decide), if_neg (by decide),
      templateReturn, hline, List.cons_append]
    simp only [List.head?_cons, if_true]
    rw [spelledUnits?, ih]
    rfl
  | case2 cs hother ih =>
    -- a return alone is a line break, too
    have hhead : ¬ cs.head? = some '\n' := by
      rintro hhead
      obtain ⟨tail, rfl⟩ := List.head?_eq_some_iff.1 hhead
      exact hother tail rfl
    rw [hreturn, List.cons_append, spelledUnits?, if_neg (by decide), if_neg (by decide),
      templateReturn, if_neg hhead]
    dsimp only
    rw [ih]
    rfl
  | case3 c cs hpair hreturn ih =>
    -- any other character is escaped, or stands for itself
    rw [templateOf_cons, List.append_assoc, Text.units_cons]
    split
    next hmarked => rw [spells_marked hmarked, ih, Option.map_some]
    next hplain =>
      simp only [isMarked, not_or, not_and] at hplain
      obtain ⟨hslash, htick, hdollar⟩ := hplain
      have hopen : ¬ (c = '$' ∧ (templateOf cs ++ ['\x60']).head? = some '\x7b') :=
        fun h => hdollar h.1 (StringLiteral.head_templateOf (by decide) h.2)
      have hself : Quotation.template.plain? c (templateOf cs ++ ['\x60']) =
          some (Text.codeUnits c.toNat, 0) := by
        rw [Quotation.plain?, if_neg hopen, if_neg hreturn]
      have hsign : c ≠ Quotation.template.sign := htick
      rw [List.singleton_append, spelledUnits?, if_neg hsign, if_neg hslash, hself]
      dsimp only
      rw [ih, Option.map_some]
  | case4 => rfl

theorem spelledUnits_templateOf (t : List Char) (hreturn : '\r' ∉ t) :
    spelledUnits? .template 0 (templateOf t ++ ['\x60']) = some (Text.units t) := by
  rw [spelledUnits_templateLines, StringLiteral.templateLines_of_line hreturn]

/-- **Long strings round-trip.** A content without carriage return that neither holds the closing
bracket of a level nor ends in all of it but the last character is scanned, in brackets of the level,
as one token; the token's text is the content without the line feed it starts with, and the literal
that is written for it has that text as its value. -/
theorem longString_roundTrip (level : Nat) (content : List Char) (hreturn : '\r' ∉ content)
    (hinside : ¬ closing level <:+: content)
    (hend : ¬ ']' :: List.replicate level '=' <:+ content) :
    let raw := longString level content
    let stop := Position.origin.advance raw
    Scan.ofText raw =
      ⟨[⟨.string (String.ofList raw), ⟨.origin, stop⟩⟩, ⟨.eof, ⟨stop, stop⟩⟩], [], none⟩ ∧
    StringLiteral.content (String.ofList raw) = String.ofList (Text.withoutFirstBreak content) ∧
    literalUnits? (StringLiteral.toScript (String.ofList raw)) =
      some (Text.units (Text.withoutFirstBreak content)) := by
  intro raw stop
  have hcontent : StringLiteral.contentOf (String.ofList raw).toList =
      Text.withoutFirstBreak content := by
    rw [String.toList_ofList, StringLiteral.contentOf_longString hreturn]
  refine ⟨Scan.ofText_longString hinside hend, ?_, ?_⟩
  · rw [StringLiteral.content, hcontent]
  · have hlong : StringLiteral.isLong (String.ofList raw).toList = true := by
      rw [String.toList_ofList]
      rfl
    -- dropping the first line ending brings no return in
    have hkept : '\r' ∉ Text.withoutFirstBreak content := by
      unfold Text.withoutFirstBreak
      split
      · exact fun hmem => hreturn (List.mem_cons_of_mem _ hmem)
      · exact hreturn
    rw [StringLiteral.toScript, if_pos hlong, hcontent, literalUnits?, String.toList_ofList]
    exact spelledUnits_templateOf _ hkept

/-- Brackets of other levels, the signs of a template, and all of the closing bracket but its last
character, inside. -/
theorem longString_roundTrip_marked :
    let content := "\n]] `$\x7bx\x7d` \\ ]===] ]==\n".toList
    ('\r' ∉ content ∧ ¬ closing 2 <:+: content ∧ ¬ ']' :: List.replicate 2 '=' <:+ content) ∧
    StringLiteral.toScript (String.ofList (longString 2 content)) =
      "\x60]] \\\x60\\$\x7bx\x7d\\\x60 \\\\ ]===] ]==\n\x60" ∧
    literalUnits? (StringLiteral.toScript (String.ofList (longString 2 content))) =
      some (Text.units content.tail) := by
  refine ⟨by decide +kernel, by decide +kernel, ?_⟩
  exact (longString_roundTrip 2 _ (by decide +kernel) (by decide +kernel) (by decide +kernel)).2.2

end Script

end LuaCompiler
