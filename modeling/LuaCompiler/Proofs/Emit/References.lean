import LuaCompiler.Emit.Call
import LuaCompiler.Emit.Statement
import LuaCompiler.Proofs.Emit.Leaves
import LuaCompiler.Proofs.Script.Mentions

/-!
# What the texts of the rules refer to

For every rule that puts a text together: if its parts refer to the support module as a usage admits,
then so does the text. Most rules close what they are given, by brackets or by a sign behind it. The
texts that can be left dangling in a library table are names, operators before a name, and what ends
in one of these.

* `Name.IsClear`: a name that is not taken for the support module.
* `Shows u ctx kind text`: the text of an expression of a kind, and `IsBase`: the text of a base.
* `IsBase.member`: **a member of a library is admitted where it is recorded**.
-/

namespace LuaCompiler

open Script (Quiet Refers Grounded Silent Reads Provided supportName Fixed Lead Trail Link)

variable {u : Script.Usage} {dangling dangling' : Bool} {s t v : String} {ts : List String}

/-! ## Comments -/

/-- The stars in a block comment cannot end it, so nothing of it is read. -/
theorem Comment.silent_block (value : String) :
    Silent ("/*" ++ Text.replace value "*/" "* /" ++ "*/") := by
  refine ⟨?_, Script.endsWord_append_of (by decide) (by decide) _,
    Script.reads_blockComment (Script.contains_replace_end value)⟩
  simp [Script.startsWord, Emit.isWordChar]

/-- A block comment that has a character on either side of its text. -/
theorem Comment.silent_framed (value : String) {c : Char} (hstar : c ≠ '*') (hslash : c ≠ '/') :
    Silent ("/*" ++ (String.singleton c ++ Text.replace value "*/" "* /" ++ String.singleton c) ++
      "*/") := by
  refine ⟨?_, Script.endsWord_append_of (by decide) (by decide) _, Script.reads_blockComment
    ((Script.contains_end_around hstar hslash _).trans (Script.contains_replace_end value))⟩
  simp [Script.startsWord, Emit.isWordChar]

/-- Nothing of a line comment is read. -/
theorem Comment.silent_line {value : String} (h : '\n' ∉ value.toList) :
    Silent ("//" ++ value ++ "\n") := by
  refine ⟨?_, Script.endsWord_append_of (by decide) (by decide) _, Script.reads_lineComment h⟩
  simp [Script.startsWord, Emit.isWordChar]

/-- Nothing of a tidy comment before a node is read. -/
theorem Comment.silent_leading {comment : Comment} (h : comment.IsTidy) :
    Silent (comment.leading ++ "\n") := by
  unfold Comment.leading
  split
  · exact (silent_block comment.value).append (by decide)
  next hline => exact silent_line (h (by simpa using hline))

/-- Nothing of a tidy comment behind a node is read. -/
theorem Comment.silent_trailing {comment : Comment} (h : comment.IsTidy) :
    Silent (comment.trailing ++ "\n") := by
  unfold Comment.trailing
  split
  · exact silent_leading h
  · refine silent_line ?_
    have hfeed := Script.newline_not_mem_replaceFrom comment.value.toList
    simpa [Text.replace] using hfeed

namespace CommentQueue

/-- Breaks are not read. -/
theorem silent_breaks (here there : Nat) : Silent (breaks here there) := by
  have hall (n : Nat) : Silent (String.ofList (List.replicate n '\n')) := by
    induction n with
    | zero => decide
    | succ n ih =>
      have heq : String.ofList (List.replicate (n + 1) '\n') =
          "\n" ++ String.ofList (List.replicate n '\n') := by
        apply String.toList_inj.1
        simp [List.replicate_succ]
      rw [heq]
      exact Silent.append (by decide) ih
  exact hall _

/-- Comments on lines of their own are not read. -/
theorem silent_lines {render : Comment → String} {comments : List Comment}
    (h : ∀ c ∈ comments, Silent (render c ++ "\n")) : Silent (lines render comments) := by
  induction comments with
  | nil => exact (by decide : Silent "")
  | cons c cs ih =>
    have heq : lines render (c :: cs) = render c ++ "\n" ++ lines render cs := by
      simp [lines, String.join_cons]
    rw [heq]
    exact (h c List.mem_cons_self).append (ih fun d hd => h d (List.mem_cons_of_mem c hd))

/-- Comments and the breaks between them are not read. -/
theorem silent_leadingLines {comments : List Comment} (h : ∀ c ∈ comments, c.IsTidy)
    (target line : Nat) : Silent (leadingLines target line comments) := by
  induction comments generalizing line with
  | nil => exact silent_breaks line target
  | cons c cs ih =>
    have heq : leadingLines target line (c :: cs) =
        breaks line c.span.start.line ++ (c.leading ++ "\n") ++ leadingLines target
          (max (max line c.span.start.line) (c.span.stop.line + 1)) cs := by
      rw [leadingLines, @String.append_assoc (breaks _ _)]
    rw [heq]
    exact ((silent_breaks _ _).append (Comment.silent_leading (h c List.mem_cons_self))).append
      (ih (fun d hd => h d (List.mem_cons_of_mem c hd)) _)

variable {queue : CommentQueue} (h : ∀ c ∈ queue.waiting, c.IsTidy)

include h

/-- What the queue writes before a node is not read. -/
theorem silent_before (span : Span) : Silent (queue.before span).1 :=
  silent_leadingLines (fun c hc => h c ((List.takeWhile_prefix _).subset hc)) _ _

/-- What it writes behind a node is not read. -/
theorem silent_after (span : Span) : Silent (queue.after span).1 :=
  silent_lines fun c hc => Comment.silent_trailing (h c ((List.takeWhile_prefix _).subset hc))

/-- What it writes at the end is not read. -/
theorem silent_flush : Silent queue.flush.1 :=
  silent_lines fun c hc => Comment.silent_leading (h c hc)

end CommentQueue

/-! ## Words -/

/-- A word other than the name of the support module. -/
structure IsWord (text : String) : Prop where
  chars : ∀ c ∈ text.toList, Emit.isWordChar c = true
  ne : text ≠ "l2j"

/-- A word refers to no library by itself. -/
theorem IsWord.grounded (h : IsWord t) : Grounded u t := by
  refine ⟨_, Script.reads_word h.chars, fun post hpost => ?_⟩
  have hnone : Script.Lexeme.word supportName ∉ Script.Scanner.ofWord t.toList := by
    unfold Script.Scanner.ofWord
    split
    · exact List.not_mem_nil
    · intro hmem
      exact h.ne (String.toList_inj.1 (Script.Lexeme.word.inj (List.mem_singleton.1 hmem)).symm)
  rw [Script.mentions_eq_nil hnone] at hpost
  cases hpost

/-- A text that opens nothing and lacks a letter of the name of the support module. -/
theorem grounded_quiet (h : Quiet t) (hletter : 'l' ∉ t.toList) : Grounded u t := by
  obtain ⟨ls, hreads, hwords⟩ := Script.reads_quiet h
  refine ⟨ls, hreads, fun post hpost => ?_⟩
  have hnone : Script.Lexeme.word supportName ∉ ls := fun hmem =>
    hletter (hwords supportName hmem (by decide))
  rw [Script.mentions_eq_nil hnone] at hpost
  cases hpost

namespace Name

/-- **A name that is not taken for the support module.** -/
structure IsClear (name : String) : Prop where
  valid : isValid name = true
  ne : name ≠ "l2j"

variable {name : String}

/-- An identifier is made of the characters of words. -/
theorem isWordChar_of_isValid (h : isValid name = true) :
    ∀ c ∈ name.toList, Emit.isWordChar c = true := by
  unfold isValid at h
  split at h
  · cases h
  next c cs hname =>
    simp only [Bool.and_eq_true, Bool.or_eq_true, beq_iff_eq, List.all_eq_true] at h
    obtain ⟨⟨hfirst, hrest⟩, -⟩ := h
    rw [hname]
    refine List.forall_mem_cons.2 ⟨?_, fun d hd => ?_⟩
    · rcases hfirst with hfirst | rfl
      · simp [Emit.isWordChar, Char.isAlphanum, hfirst]
      · rfl
    · simpa [Emit.isWordChar] using hrest d hd

/-- So is the spelling of a property. -/
theorem isWordChar_asProperty (h : isValid name = true) :
    ∀ c ∈ (asProperty name).toList, Emit.isWordChar c = true := by
  have hall : ∀ entry ∈ fixedSpellings, entry.2.toList.all Emit.isWordChar = true := by decide
  unfold asProperty
  cases hlookup : fixedSpellings.lookup name with
  | none => exact isWordChar_of_isValid h
  | some spelling =>
    obtain ⟨before, behind, heq, -⟩ := List.lookup_eq_some_iff.1 hlookup
    exact List.all_eq_true.1 (hall (name, spelling) (by simp [heq]))

/-- A name that is bound is one word; `typeof` alone is written as a member. -/
theorem isWordChar_asBinding (h : isValid name = true) (hne : name ≠ "typeof") :
    ∀ c ∈ (asBinding name).toList, Emit.isWordChar c = true := by
  have hproperty := isWordChar_asProperty h
  unfold asProperty at hproperty
  rw [asBinding, if_neg hne]
  cases hlookup : fixedSpellings.lookup name with
  | some spelling => rwa [hlookup] at hproperty
  | none =>
    dsimp only
    split
    · have hunderscore : ∀ c ∈ "_".toList, Emit.isWordChar c = true := List.forall_mem_singleton.2 rfl
      rw [String.toList_append]
      exact List.forall_mem_append.2 ⟨hunderscore, isWordChar_of_isValid h⟩
    · exact isWordChar_of_isValid h

theorem fixedSpellings_ne_support : ∀ entry ∈ fixedSpellings, entry.2 ≠ "l2j" := by decide

/-- No property is spelled as the namespace, unless its name is. -/
theorem asProperty_ne (h : name ≠ "l2j") : asProperty name ≠ "l2j" := by
  unfold asProperty
  cases hlookup : fixedSpellings.lookup name with
  | none => exact h
  | some spelling =>
    obtain ⟨before, behind, heq, -⟩ := List.lookup_eq_some_iff.1 hlookup
    exact fixedSpellings_ne_support (name, spelling) (by simp [heq])

theorem IsClear.isWord (h : IsClear name) : IsWord name := ⟨isWordChar_of_isValid h.valid, h.ne⟩

/-- A name that is not the namespace's refers to no library. -/
theorem IsClear.grounded (h : IsClear name) : Grounded u name := h.isWord.grounded

theorem IsClear.isWord_asProperty (h : IsClear name) : IsWord (asProperty name) :=
  ⟨isWordChar_asProperty h.valid, asProperty_ne h.ne⟩

theorem IsClear.grounded_asProperty (h : IsClear name) : Grounded u (asProperty name) :=
  h.isWord_asProperty.grounded

/-- What a name that is no library is spelled as. -/
def IsSpelling (text : String) : Prop := IsWord text ∨ text = "l2j.typeof"

theorem IsSpelling.grounded (h : IsSpelling t) : Grounded u t := by
  rcases h with hword | rfl
  · exact hword.grounded
  · exact Fixed.grounded (by decide)

/-- A clear name is bound by itself or with the mark of a keyword. -/
theorem IsClear.isSpelling (h : IsClear name) : IsSpelling (asBinding name) := by
  unfold asBinding
  split
  · exact .inr rfl
  · refine .inl ?_
    split
    next spelling hlookup => simpa [asProperty, hlookup] using h.isWord_asProperty
    · split
      · refine ⟨fun c hc => ?_, fun heq => ?_⟩
        · rw [String.toList_append, List.mem_append] at hc
          have hunderscore : "_".toList.all Emit.isWordChar = true := by decide
          exact hc.elim (fun hc => List.all_eq_true.1 hunderscore c hc)
            (isWordChar_of_isValid h.valid c)
        · have hfirst := congrArg (fun text => text.toList.head?) heq
          simp at hfirst
      · exact h.isWord

end Name

theorem isWordChar_of_isDigit {c : Char} (h : c.isDigit = true) : Emit.isWordChar c = true := by
  simp [Emit.isWordChar, Char.isAlphanum, h]

/-- A number in digits refers to no library. -/
theorem grounded_toString (n : Nat) : Grounded u (toString n) := by
  refine IsWord.grounded ⟨fun c hc => isWordChar_of_isDigit (isDigit_of_mem_toString hc), fun heq => ?_⟩
  have hl : 'l' ∈ (toString n).toList := heq ▸ (by decide)
  exact absurd (isDigit_of_mem_toString hl) (by decide)

/-! ## Numerals -/

/-- Neither does a number in binary64. -/
theorem grounded_magnitude (m : Binary64.Magnitude) : Grounded u m.text := by
  unfold Binary64.Magnitude.text
  split
  · split
    · exact Fixed.grounded (by decide)
    next significand exponent _ =>
      exact grounded_quiet (Binary64.Decimal.quiet_text _) fun hl =>
        absurd (Binary64.Decimal.isNumeralChar_text _ 'l' hl) (by decide)
  · exact Fixed.grounded (by decide)
  · exact Fixed.grounded (by decide)

/-- Nor one with a sign. -/
theorem grounded_signed (value : Binary64.Signed) : Grounded u value.text := by
  unfold Binary64.Signed.text
  split
  · exact (grounded_magnitude value.magnitude).before (by decide)
  · exact grounded_magnitude value.magnitude

/-- Nor a numeral as it is spelled. -/
theorem grounded_numeral {value : Binary64.Magnitude} {raw : String}
    (h : (Token.Kind.number value raw).isSpelled = true) :
    Grounded u (Numeral.script value raw) := by
  have hraw : Grounded u raw := by
    have hchars := Numeral.isNumeralChar_of_isSpelled h
    exact grounded_quiet (fun c hc => isQuiet_of_isNumeralChar (hchars c hc)) fun hl =>
      absurd (hchars 'l' hl) (by decide)
  unfold Numeral.script
  split
  · split
    · exact grounded_magnitude value
    · exact hraw
  · exact hraw

namespace Emit

variable {ctx : Context}

/-! ## Names -/

/-- A text of a kind with blanks and comments around it. -/
def Padded (P : String → Prop) (text : String) : Prop :=
  ∃ s t v, text = s ++ t ++ v ∧ Silent s ∧ Silent v ∧ P t

/-- Less may be said of the text inside. -/
theorem Padded.imp {P Q : String → Prop} (h : Padded P t) (himp : ∀ t, P t → Q t) : Padded Q t := by
  obtain ⟨s, n, v, rfl, hs, hv, hn⟩ := h
  exact ⟨s, n, v, rfl, hs, hv, himp n hn⟩

/-- Comments on both sides stay padding. -/
theorem Padded.within {P : String → Prop} (h : Padded P t) (hs : Silent s) (hv : Silent v) :
    Padded P (s ++ t ++ v) := by
  obtain ⟨front, n, back, rfl, hfront, hback, hn⟩ := h
  exact ⟨s ++ front, n, back ++ v, by simp only [String.append_assoc], hs.append hfront,
    hback.append hv, hn⟩

theorem Padded.of_self {P : String → Prop} (h : P t) : Padded P t :=
  ⟨"", t, "", by simp, by decide, by decide, h⟩

/-- What a name is written as: its spelling, or the library that it is. -/
def IsNamed (ctx : Context) (name text : String) : Prop :=
  Name.IsSpelling text ∨ ctx.isLibrary name = true ∧ text = "l2j." ++ name

/-- **What a class is declared under**: a name or a library, with the comments around it. -/
abbrev ClassText : String → Prop :=
  Padded fun text => Name.IsSpelling text ∨
    ∃ library, Name.isSystemLibrary library = true ∧ text = "l2j." ++ library

/-! ## Bases -/

/-- The lexemes of a library of the support module. -/
def libraryLexemes (library : String) : List Script.Lexeme :=
  [.word supportName, .sign '.', .word library.toList]

/-- The text of a base: one that does not dangle, or the library that the base is. -/
def IsBase (u : Script.Usage) (ctx : Context) (base : Expr) (text : String) : Prop :=
  Grounded u text ∨ ∃ library, base.name? = some library ∧ ctx.isLibrary library = true ∧
    Reads text (libraryLexemes library)

/-- **The text of an expression of a kind**: a name can be a library and uses nothing else, and what an
operator stands before can dangle. -/
def Shows (u : Script.Usage) (ctx : Context) (kind : ExprKind) (text : String) : Prop :=
  match kind with
  | .name name => Padded (IsNamed ctx name) text
  | .unary .. => Refers u true text
  | _ => Grounded u text

/-- A library that the context hides is one of the system's. -/
theorem Context.isSystemLibrary_of_isLibrary {library : String} (h : ctx.isLibrary library = true) :
    Name.isSystemLibrary library = true :=
  (Bool.and_eq_true_iff.1 h).1

/-- A qualified library is mentioned once, before what stands behind it. -/
theorem mentions_library {library : String} (h : Name.isSystemLibrary library = true)
    (more : List Script.Lexeme) : Script.mentions (libraryLexemes library ++ more) =
      (.sign '.' :: .word library.toList :: more) :: Script.mentions more := by
  have hne : Script.Lexeme.word library.toList ≠ .word supportName := by
    have hall : ∀ other ∈ Name.systemLibraries, other.toList ≠ supportName := by decide
    exact fun heq => hall library (List.contains_iff_mem.1 h) (Script.Lexeme.word.inj heq)
  have hcons : libraryLexemes library ++ more =
      .word supportName :: .sign '.' :: .word library.toList :: more := rfl
  rw [hcons, Script.mentions, if_pos rfl, Script.mentions, if_neg (by decide), Script.mentions,
    if_neg hne]

/-- A library refers to itself. -/
theorem refers_library {library : String} (h : Name.isSystemLibrary library = true)
    (ht : Reads t (libraryLexemes library)) : Refers u true t := by
  refine ⟨_, ht, fun post hpost rest hrest => ?_⟩
  rw [← List.append_nil (libraryLexemes library), mentions_library h] at hpost
  obtain rfl := List.mem_singleton.1 hpost
  exact Script.Usage.admits_library library h (hrest rfl)

/-- What a member is taken from refers to what it shows. -/
theorem IsBase.refers {base : Expr} (h : IsBase u ctx base t) : Refers u true t := by
  rcases h with h | ⟨library, -, hlibrary, hreads⟩
  · exact h.weaken true
  · exact refers_library (Context.isSystemLibrary_of_isLibrary hlibrary) hreads

/-- A library under the namespace is read as such. -/
theorem reads_library {library : String} (h : Name.isSystemLibrary library = true) :
    Reads ("l2j." ++ library) (libraryLexemes library) := by
  have hall : ∀ other ∈ Name.systemLibraries, Reads ("l2j." ++ other) (libraryLexemes other) := by
    decide
  exact hall library (List.contains_iff_mem.1 h)

/-- A class is declared under a text that any usage admits. -/
theorem refers_classText (h : ClassText t) (u : Script.Usage) : Refers u true t := by
  obtain ⟨s, n, v, rfl, hs, hv, hn⟩ := h
  rcases hn with hspelling | ⟨library, hlibrary, rfl⟩
  · exact (hspelling.grounded.weaken true).within hs hv
  · exact (refers_library hlibrary (reads_library hlibrary)).within hs hv

/-- A reference is a name, a path of members, or a library. -/
theorem Shows.classText {name : String} (h : Shows u ctx (.name name) t) : ClassText t :=
  Padded.imp h fun _ hnamed => hnamed.imp_right fun hlibrary =>
    ⟨name, Context.isSystemLibrary_of_isLibrary hlibrary.1, hlibrary.2⟩

/-- The text of a name does not dangle, or it is that of a library. -/
theorem Shows.name_cases {name : String} (h : Shows u ctx (.name name) t) :
    Grounded u t ∨ ctx.isLibrary name = true ∧ Reads t (libraryLexemes name) := by
  obtain ⟨s, n, v, rfl, hs, hv, hn⟩ := h
  rcases hn with hspelling | ⟨hlibrary, rfl⟩
  · exact .inl (hspelling.grounded.within hs hv)
  · have hreads := reads_library (Context.isSystemLibrary_of_isLibrary hlibrary)
    have hall := (hs.2.2.append hreads (.inl hs.2.1)).append hv.2.2 (.inr hv.1)
    exact .inr ⟨hlibrary, by simpa using hall⟩

/-- A text that shows an expression refers to what was recorded. -/
theorem Shows.refers {kind : ExprKind} (h : Shows u ctx kind t) : Refers u true t := by
  cases kind with
  | name name => exact refers_classText h.classText u
  | unary => exact h
  | _ => exact Refers.weaken h true

/-- The brackets around a base change nothing of what it shows. -/
theorem Shows.asBase {base : Expr} (h : Shows u ctx base.kind t) :
    IsBase u ctx base (asBase base t) := by
  obtain ⟨id, span, kind⟩ := base
  cases kind with
  | name name =>
    rcases h.name_cases with h | ⟨hlibrary, hreads⟩
    · exact .inl h
    · exact .inr ⟨name, rfl, hlibrary, hreads⟩
  | number | string | function | table | unary => exact .inl (Shows.refers h).parens
  | _ => exact .inl h

/-- A member of a library, and what comes with it. -/
theorem grounded_libraryMember {library name : String} {more : List Script.Lexeme}
    (hlibrary : Name.isSystemLibrary library = true) (ht : Reads t (libraryLexemes library))
    (hs : Reads s (.sign '.' :: .word name.toList :: more)) (hstart : Script.startsWord s = false)
    (hnone : .word supportName ∉ Script.Lexeme.sign '.' :: .word name.toList :: more)
    (hprovided : ∀ rest, Provided u.functions library name (more ++ rest)) : Grounded u (t ++ s) := by
  refine ⟨_, ht.append hs (.inr hstart), fun post hpost rest _ => ?_⟩
  rw [mentions_library hlibrary, Script.mentions_eq_nil hnone] at hpost
  obtain rfl := List.mem_singleton.1 hpost
  exact Script.Usage.admits_member hlibrary (hprovided rest)

/-- A member of a base, and what comes with it. -/
theorem IsBase.append {base : Expr} {name : String} {more : List Script.Lexeme}
    (h : IsBase u ctx base t) (hs : Reads s (.sign '.' :: .word name.toList :: more))
    (hstart : Script.startsWord s = false)
    (hnone : .word supportName ∉ Script.Lexeme.sign '.' :: .word name.toList :: more)
    (hprovided : ∀ library, base.name? = some library → ctx.isLibrary library = true →
      ∀ rest, Provided u.functions library name (more ++ rest)) : Grounded u (t ++ s) := by
  rcases h with h | ⟨library, hname, hlibrary, hreads⟩
  · refine Refers.append h ⟨_, hs, fun post hpost => ?_⟩ (.inr hstart)
    rw [Script.mentions_eq_nil hnone] at hpost
    cases hpost
  · exact grounded_libraryMember (Context.isSystemLibrary_of_isLibrary hlibrary) hreads hs hstart
      hnone (hprovided library hname hlibrary)

/-- The spelling of a property is read as one word. -/
theorem reads_property {name : String} (h : Name.isValid name = true) :
    Reads (Name.asProperty name) [.word (Name.asProperty name).toList] := by
  have hreads := Script.reads_word (Name.isWordChar_asProperty h)
  have hne : (Name.asProperty name).toList.isEmpty = false := by
    have hall : ∀ entry ∈ Name.fixedSpellings, entry.2.toList.isEmpty = false := by decide
    unfold Name.asProperty
    cases hlookup : Name.fixedSpellings.lookup name with
    | none =>
      refine Bool.eq_false_iff.2 fun hempty => ?_
      have hnil : name.toList = [] := List.isEmpty_iff.1 hempty
      simp [Name.isValid, hnil] at h
    | some spelling =>
      obtain ⟨before, behind, heq, -⟩ := List.lookup_eq_some_iff.1 hlookup
      exact hall (name, spelling) (by simp [heq])
  rwa [Script.Scanner.ofWord, hne, if_neg Bool.false_ne_true] at hreads

/-- A member is read as a dot and a word. -/
theorem reads_dotted {name : String} (h : Name.isValid name = true) :
    Reads ("." ++ Name.asProperty name) [.sign '.', .word (Name.asProperty name).toList] :=
  Reads.append (by decide : Reads "." [.sign '.']) (reads_property h) (.inl (by decide))

/-- A member is not the namespace. -/
theorem support_not_mem_dotted {name : String} (h : name ≠ "l2j") :
    Script.Lexeme.word supportName ∉ [.sign '.', .word (Name.asProperty name).toList] := by
  simp only [List.mem_cons, reduceCtorEq, Script.Lexeme.word.injEq, List.not_mem_nil, or_false,
    false_or]
  exact fun heq => Name.asProperty_ne h (String.toList_inj.1 heq.symm)

/-- **A member of a library is admitted where it is recorded.** -/
theorem IsBase.member {base : Expr} {identifier : Identifier} (h : IsBase u ctx base t)
    (hname : Name.IsClear identifier.name)
    (hrecorded : ∀ library, base.name? = some library → ctx.isLibrary library = true →
      library ++ "." ++ identifier.name ∈ u.functions) : Grounded u (memberText t identifier) := by
  rw [memberText, String.append_assoc]
  exact h.append (reads_dotted hname.valid) (Script.startsWord_append_of (by decide) (by decide) _)
    (support_not_mem_dotted hname.ne)
    fun library hbase hlibrary _ => .recorded (hrecorded library hbase hlibrary)

/-- What every function and every class has. -/
theorem IsBase.native {base : Expr} (h : IsBase u ctx base t) :
    Grounded u (t ++ ".call") ∧ Grounded u (t ++ ".prototype") := by
  have hcall : Reads ".call" [.sign '.', .word "call".toList] := by decide
  have hprototype : Reads ".prototype" [.sign '.', .word "prototype".toList] := by decide
  exact ⟨h.append hcall (by decide) (by decide) fun _ _ _ _ => .native (.inl rfl),
    h.append hprototype (by decide) (by decide) fun _ _ _ _ => .native (.inr rfl)⟩

/-- **A library function that is recorded.** -/
theorem grounded_libraryFunction {library name : String}
    (hlibrary : Name.isSystemLibrary library = true) (hname : Name.IsClear name)
    (hrecorded : library ++ "." ++ name ∈ u.functions) :
    Grounded u ("l2j." ++ library ++ "." ++ Name.asProperty name) := by
  rw [String.append_assoc]
  exact grounded_libraryMember hlibrary (reads_library hlibrary) (reads_dotted hname.valid)
    (Script.startsWord_append_of (by decide) (by decide) _) (support_not_mem_dotted hname.ne)
    fun _ => .recorded hrecorded

/-- The function of the length operator. -/
theorem grounded_length : Grounded u "l2j.table.length" := by
  have htable : Reads "l2j.table" (libraryLexemes "table") := by decide
  have hlength : Reads ".length" [.sign '.', .word "length".toList] := by decide
  have hmember : Grounded u ("l2j.table" ++ ".length") :=
    grounded_libraryMember rfl htable hlength (by decide) (by decide) fun _ => .length
  exact hmember

/-- A member of a text that does not dangle. -/
theorem grounded_member {identifier : Identifier} (h : Grounded u t)
    (hname : Name.IsClear identifier.name) : Grounded u (memberText t identifier) :=
  have hdot : Grounded u (t ++ ".") := Refers.append h (Fixed.grounded (by decide)) (.inr (by decide))
  hdot.append hname.grounded_asProperty (.inl (Script.endsWord_append_of (by decide) (by decide) _))

end Emit

end LuaCompiler
