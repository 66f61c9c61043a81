import LuaCompiler.Emit.Binding
import LuaCompiler.Proofs.Script.Literals
import Mathlib.Tactic.SplitIfs

/-!
# The lexemes of a script

A script of JavaScript cut into words and signs, one character at a time. A string and a template
are one lexeme each, whatever they hold; blanks and comments are none. Nothing is refused: that
brackets and literals of generated code are closed is known from reading it.

* `Scanner.run_append`: scanning in two parts is scanning at once.
* `Reads text ls`: a text of code has the lexemes `ls`, and `Reads.append`: texts that do not grow
  together at their ends have the lexemes of both.
* `reads_toScript`, `reads_lineComment`, `reads_blockComment`: literals and comments.
-/

namespace LuaCompiler.Script

open Emit (isWordChar)

/-- The pieces of a script. -/
inductive Lexeme where
  | word (text : List Char)
  | sign (c : Char)
  /-- a string or a template -/
  | literal
deriving DecidableEq

/-- Where the scanner of a script stands. -/
inductive Mode where
  | code
  /-- behind a slash in code -/
  | slash
  | string
  /-- behind a backslash in a string -/
  | stringEscape
  | template
  /-- behind a backslash in a template -/
  | templateEscape
  | line
  | block
  /-- behind an asterisk in a block comment -/
  | star
deriving DecidableEq

/-- The scanner of a script: where it stands, and what it has of a word. -/
structure Scanner where
  mode : Mode
  word : List Char
deriving DecidableEq

namespace Scanner

/-- The scanner between two lexemes. -/
def start : Scanner := ⟨.code, []⟩

/-- The scanner in another mode, without a word. -/
abbrev into (mode : Mode) : Scanner := ⟨mode, []⟩

/-- The lexeme that some characters of a word are. -/
def ofWord (word : List Char) : List Lexeme := if word.isEmpty then [] else [.word word]

/-- The scanner behind a character of code that belongs to no word, and the sign that it is. -/
def signStep (c : Char) : Scanner × List Lexeme :=
  if c = '/' then (into .slash, [])
  else if c = '"' then (into .string, [])
  else if c = '\x60' then (into .template, [])
  else if Text.isBlank c then (start, [])
  else (start, [.sign c])

/-- A character of code, behind some characters of a word. -/
def codeStep (word : List Char) (c : Char) : Scanner × List Lexeme :=
  if isWordChar c then (⟨.code, word ++ [c]⟩, [])
  else ((signStep c).1, ofWord word ++ (signStep c).2)

/-- The scanner behind a character, and the lexemes that the character ends. -/
def step (s : Scanner) (c : Char) : Scanner × List Lexeme :=
  match s.mode with
  | .code => codeStep s.word c
  | .slash =>
    if c = '/' then (into .line, [])
    else if c = '*' then (into .block, [])
    else ((codeStep [] c).1, .sign '/' :: (codeStep [] c).2)
  | .string =>
    if c = '"' then (start, [.literal])
    else if c = '\\' then (into .stringEscape, [])
    else (into .string, [])
  | .stringEscape => (into .string, [])
  | .template =>
    if c = '\x60' then (start, [.literal])
    else if c = '\\' then (into .templateEscape, [])
    else (into .template, [])
  | .templateEscape => (into .template, [])
  | .line => if c = '\n' then (start, []) else (into .line, [])
  | .block => if c = '*' then (into .star, []) else (into .block, [])
  | .star =>
    if c = '/' then (start, []) else if c = '*' then (into .star, []) else (into .block, [])

/-- The scanner behind a text, and the lexemes that end in the text. -/
def run (s : Scanner) : List Char → Scanner × List Lexeme
  | [] => (s, [])
  | c :: cs => ((run (s.step c).1 cs).1, (s.step c).2 ++ (run (s.step c).1 cs).2)

/-- The lexeme that ends with the script. -/
def finish (s : Scanner) : List Lexeme := if s.mode = .slash then [.sign '/'] else ofWord s.word

end Scanner

/-- **The lexemes of a script.** -/
def lexemes (script : String) : List Lexeme :=
  (Scanner.start.run script.toList).2 ++ (Scanner.start.run script.toList).1.finish

/-! ## Scanning in parts -/

variable {s : Scanner} {t v : List Char}

namespace Scanner

@[simp]
theorem run_nil (s : Scanner) : s.run [] = (s, []) := rfl

@[simp]
theorem run_cons (s : Scanner) (c : Char) (cs : List Char) :
    s.run (c :: cs) = (((s.step c).1.run cs).1, (s.step c).2 ++ ((s.step c).1.run cs).2) := rfl

/-- **Scanning in two parts is scanning at once.** -/
theorem run_append (s : Scanner) (t v : List Char) :
    s.run (t ++ v) = (((s.run t).1.run v).1, (s.run t).2 ++ ((s.run t).1.run v).2) := by
  induction t generalizing s with
  | nil => rfl
  | cons c cs ih => simp only [List.cons_append, run_cons, ih, List.append_assoc]

/-- A text is scanned on from where its start has led. -/
theorem run_append_of_eq {next : Scanner} {found : List Lexeme} (h : s.run t = (next, found))
    (v : List Char) : s.run (t ++ v) = ((next.run v).1, found ++ (next.run v).2) := by
  rw [run_append, h]

/-- A character that ends no lexeme, before a text in which none ends. -/
theorem run_cons_silent {c : Char} {cs : List Char} {next last : Scanner}
    (hstep : s.step c = (next, [])) (h : next.run cs = (last, [])) :
    s.run (c :: cs) = (last, []) := by
  rw [run_cons, hstep, h]
  rfl

@[simp]
theorem ofWord_nil : ofWord [] = [] := rfl

theorem signStep_word (c : Char) : (signStep c).1.word = [] := by
  unfold signStep
  split_ifs <;> rfl

/-- A character that belongs to no word ends the word before it. -/
theorem codeStep_of_sign {c : Char} (h : isWordChar c = false) (word : List Char) :
    codeStep word c = ((codeStep [] c).1, ofWord word ++ (codeStep [] c).2) := by
  simp [codeStep, h]

/-- Behind a character that belongs to no word there is none. -/
theorem step_word {c : Char} (h : isWordChar c = false) (s : Scanner) : (s.step c).1.word = [] := by
  have hcode (word : List Char) : (codeStep word c).1.word = [] := by
    simp [codeStep, h, signStep_word]
  obtain ⟨mode, word⟩ := s
  cases mode with
  | code => exact hcode word
  | slash =>
    unfold step
    dsimp only
    split_ifs
    · rfl
    · rfl
    · exact hcode []
  | stringEscape | templateEscape => rfl
  | string | template | line | block | star =>
    unfold step
    dsimp only
    split_ifs <;> rfl

end Scanner

/-! ## Texts of code -/

/-- **The lexemes of a text of code**: from code the scanner comes back to code, or to the middle of
a word. -/
def Reads (text : String) (ls : List Lexeme) : Prop :=
  (Scanner.start.run text.toList).1.mode = .code ∧
    (Scanner.start.run text.toList).2 ++ Scanner.ofWord (Scanner.start.run text.toList).1.word = ls

instance (text : String) (ls : List Lexeme) : Decidable (Reads text ls) :=
  inferInstanceAs (Decidable (_ ∧ _))

/-- Whether a text starts with a character of a word. -/
def startsWord (text : String) : Bool := text.toList.head?.any isWordChar

/-- Whether a text ends with a character of a word. -/
def endsWord (text : String) : Bool := text.toList.getLast?.any isWordChar

variable {text other : String} {ls ms : List Lexeme}

theorem Reads.lexemes (h : Reads text ls) : lexemes text = ls := by
  obtain ⟨hmode, rfl⟩ := h
  rw [Script.lexemes, Scanner.finish, hmode, if_neg (by decide)]

theorem reads_empty : Reads "" [] := by decide

/-- A text that ends with no word leaves none. -/
theorem word_of_endsWord (h : endsWord text = false) :
    (Scanner.start.run text.toList).1.word = [] := by
  rcases List.eq_nil_or_concat text.toList with hnil | ⟨front, c, hconcat⟩
  · rw [hnil]
    rfl
  · have hc : isWordChar c = false := by simpa [endsWord, hconcat] using h
    rw [hconcat, List.concat_eq_append, Scanner.run_append]
    exact Scanner.step_word hc _

/-- **Texts that do not grow together** have the lexemes of both. -/
theorem Reads.append (h : Reads text ls) (h' : Reads other ms)
    (hapart : endsWord text = false ∨ startsWord other = false) :
    Reads (text ++ other) (ls ++ ms) := by
  obtain ⟨hmode, rfl⟩ := h
  obtain ⟨hmode', rfl⟩ := h'
  have hstate : (Scanner.start.run text.toList).1 =
      ⟨.code, (Scanner.start.run text.toList).1.word⟩ := by rw [← hmode]
  by_cases hend : endsWord text = false
  · rw [word_of_endsWord hend] at hstate ⊢
    rw [Reads, String.toList_append, Scanner.run_append, hstate]
    exact ⟨hmode', by simp [Scanner.start]⟩
  · have hstart := hapart.resolve_left hend
    generalize (Scanner.start.run text.toList).1.word = word at hstate ⊢
    rw [Reads, String.toList_append, Scanner.run_append, hstate]
    cases hother : other.toList with
    | nil => exact ⟨rfl, by simp [Scanner.start]⟩
    | cons c cs =>
      have hc : isWordChar c = false := by simpa [startsWord, hother] using hstart
      -- the first character of the other text ends the word of this one
      have hstep : Scanner.step ⟨.code, word⟩ c =
          ((Scanner.start.step c).1, Scanner.ofWord word ++ (Scanner.start.step c).2) :=
        Scanner.codeStep_of_sign hc word
      rw [hother] at hmode'
      rw [Scanner.run_cons, hstep]
      exact ⟨hmode', by simp⟩

/-! ### Words -/

/-- The characters of a word are kept until it ends. -/
theorem run_word (h : ∀ c ∈ t, isWordChar c = true) (word : List Char) :
    Scanner.run ⟨.code, word⟩ t = (⟨.code, word ++ t⟩, []) := by
  induction t generalizing word with
  | nil => simp
  | cons c cs ih =>
    obtain ⟨hc, hcs⟩ := List.forall_mem_cons.1 h
    have hstep : Scanner.step ⟨.code, word⟩ c = (⟨.code, word ++ [c]⟩, []) := if_pos hc
    rw [Scanner.run_cons, hstep, ih hcs]
    simp

/-- A word. -/
theorem reads_word (h : ∀ c ∈ text.toList, isWordChar c = true) :
    Reads text (Scanner.ofWord text.toList) := by
  rw [Reads, Scanner.start, run_word h]
  exact ⟨rfl, rfl⟩

/-- The words of a text that opens no literal and no comment are made of its characters. -/
theorem run_words (h : ∀ c ∈ t, isQuiet c = true) (word : List Char) :
    (Scanner.run ⟨.code, word⟩ t).1.mode = .code ∧
      ∀ w, Lexeme.word w ∈ (Scanner.run ⟨.code, word⟩ t).2 ++
        Scanner.ofWord (Scanner.run ⟨.code, word⟩ t).1.word → w ⊆ word ++ t := by
  -- along the text, with the word that has been read so far
  induction t generalizing word with
  | nil =>
    refine ⟨rfl, fun w hw => ?_⟩
    unfold Scanner.ofWord at hw
    split at hw
    · simp at hw
    · simp_all
  | cons c cs ih =>
    obtain ⟨hc, hcs⟩ := List.forall_mem_cons.1 h
    by_cases hword : isWordChar c = true
    · have hstep : Scanner.step ⟨.code, word⟩ c = (⟨.code, word ++ [c]⟩, []) := if_pos hword
      rw [Scanner.run_cons, hstep]
      simpa using ih hcs (word ++ [c])
    · rw [Bool.not_eq_true] at hword
      -- a quiet sign opens neither a string nor a comment
      have hsign : Scanner.signStep c = (Scanner.start, if Text.isBlank c then [] else [.sign c]) := by
        have hne := hc
        simp only [isQuiet, List.contains_eq_mem, List.mem_cons, List.not_mem_nil, or_false,
          Bool.not_eq_true', decide_eq_false_iff_not, not_or] at hne
        rw [Scanner.signStep, if_neg hne.1, if_neg hne.2.1, if_neg hne.2.2.1]
        split_ifs <;> rfl
      have hstep : Scanner.step ⟨.code, word⟩ c =
          (Scanner.start, Scanner.ofWord word ++ if Text.isBlank c then [] else [.sign c]) := by
        simp [Scanner.step, Scanner.codeStep, hword, hsign]
      obtain ⟨hmode, hwords⟩ := ih hcs []
      rw [Scanner.run_cons, hstep]
      refine ⟨hmode, fun w hw => ?_⟩
      rw [List.append_assoc, List.mem_append] at hw
      rcases hw with hw | hw
      · rw [List.mem_append] at hw
        rcases hw with hw | hw
        · unfold Scanner.ofWord at hw
          split at hw
          · simp at hw
          · simp_all
        · split at hw <;> simp at hw
      · exact List.Subset.trans (hwords w hw)
          (List.subset_append_of_subset_right _ (List.subset_cons_self c cs))

/-- A text of code that opens no literal and no comment, and what its words are made of. -/
theorem reads_quiet (h : Quiet text) :
    ∃ ls, Reads text ls ∧ ∀ w, Lexeme.word w ∈ ls → w ⊆ text.toList := by
  obtain ⟨hmode, hwords⟩ := run_words h []
  exact ⟨_, ⟨hmode, rfl⟩, hwords⟩

/-! ### Strings -/

/-- A text inside a string: it does not end the string. -/
def InString (v : List Char) : Prop :=
  (Scanner.into .string).run v = (Scanner.into .string, [])

/-- Texts within a string in a row. -/
theorem InString.append (h : InString t) (h' : InString v) : InString (t ++ v) := by
  rw [InString, Scanner.run_append_of_eq h, h']
  rfl

theorem inString_nil : InString [] := rfl

theorem inString_char {c : Char} (hquote : c ≠ '"') (hslash : c ≠ '\\') : InString [c] := by
  simp [InString, Scanner.step, hquote, hslash]

theorem inString_escaped (c : Char) : InString ['\\', c] := by
  simp [InString, Scanner.step]

/-- An escape of a code unit stays within a string. -/
theorem inString_unitEscape (n : Nat) : InString (StringLiteral.unitEscape n) := by
  have hle : min n 255 ≤ 255 := Nat.min_le_right n 255
  have hhigh := digitChar_hex (min n 255 / 16) (by omega)
  have hlow := digitChar_hex (min n 255 % 16) (by omega)
  exact ((inString_escaped 'x').append (inString_char hhigh.1 hhigh.2)).append
    (inString_char hlow.1 hlow.2)

/-- So does a plain character. -/
theorem inString_plainStep (c : Char) : InString (StringLiteral.plainStep c).1 := by
  unfold StringLiteral.plainStep
  split_ifs with hquote hslash
  · exact inString_escaped _
  · exact inString_nil
  · exact inString_escaped _
  · exact inString_escaped _
  · exact inString_char hquote hslash

/-- So does an escaped one. -/
theorem inString_escapedStep (c : Char) : InString (StringLiteral.escapedStep c).1 := by
  unfold StringLiteral.escapedStep
  split_ifs with hbell hkept
  · exact inString_unitEscape 7
  · exact inString_escaped _
  · exact inString_escaped _
  · exact inString_nil
  · exact inString_escaped _
  · exact inString_nil
  · simp only [List.contains_eq_mem, List.mem_cons, List.not_mem_nil, or_false,
      decide_eq_true_eq, not_or] at hkept
    exact inString_char hkept.2.2.2.2.2.2.2 hkept.2.2.2.2.2.2.1

theorem inString_step (reading : StringLiteral.Reading) (c : Char) :
    InString (StringLiteral.step reading c).1 := by
  cases reading with
  | plain => exact inString_plainStep c
  | escaped => exact inString_escapedStep c
  | blanks =>
    rw [StringLiteral.step]
    split
    · exact inString_nil
    · exact inString_plainStep c
  | digits count value =>
    rw [StringLiteral.step]
    split
    · exact inString_nil
    · exact (inString_unitEscape value).append (inString_plainStep c)

/-- So does all that is written of a quoted string. -/
theorem inString_quotedFrom (reading : StringLiteral.Reading) (t : List Char) :
    InString (StringLiteral.quotedFrom reading t) := by
  induction t generalizing reading with
  | nil =>
    cases reading with
    | plain | blanks => exact inString_nil
    | escaped => exact inString_escaped _
    | digits count value => exact inString_unitEscape value
  | cons c cs ih => exact (inString_step reading c).append (ih _)

/-- A text in double quotes. -/
theorem reads_quoted (h : InString v) : Reads (String.ofList ('"' :: v ++ ['"'])) [.literal] := by
  have hopen : Scanner.start.step '"' = (Scanner.into .string, []) := by decide
  rw [Reads, String.toList_ofList, List.cons_append, Scanner.run_cons, hopen,
    Scanner.run_append_of_eq h]
  exact ⟨rfl, rfl⟩

/-- A name in double quotes that holds neither a quote nor a backslash. -/
theorem reads_quote {text : String} (hquote : '"' ∉ text.toList) (hslash : '\\' ∉ text.toList) :
    Reads ("\"" ++ text ++ "\"") [.literal] := by
  have hinside (t : List Char) (hquote : '"' ∉ t) (hslash : '\\' ∉ t) : InString t := by
    induction t with
    | nil => exact inString_nil
    | cons c cs ih =>
      rw [List.mem_cons, not_or] at hquote hslash
      exact (inString_char (Ne.symm hquote.1) (Ne.symm hslash.1)).append (ih hquote.2 hslash.2)
  have heq : "\"" ++ text ++ "\"" = String.ofList ('"' :: text.toList ++ ['"']) := by
    apply String.toList_inj.1
    simp
  rw [heq]
  exact reads_quoted (hinside _ hquote hslash)

/-! ### Templates -/

/-- The mode of the scanner of a template. -/
def Inside.mode : Inside → Mode
  | plain => .template
  | escaped => .templateEscape
  | dollar => .template

/-- A template is scanned to its end, in whatever reading it stands. -/
theorem scan_inTemplate {inside next : Inside} (h : inTemplate inside t = some next) :
    (Scanner.into inside.mode).run t = (Scanner.into next.mode, []) := by
  fun_induction inTemplate inside t with
  | case1 inside =>
    cases h
    rfl
  | case2 c cs ih => exact Scanner.run_cons_silent rfl (ih h)
  | case3 => cases h
  | case4 inside cs hinside htick ih =>
    cases inside with
    | escaped => exact absurd rfl hinside
    | plain | dollar => exact Scanner.run_cons_silent rfl (ih h)
  | case5 inside cs hinside htick hslash ih =>
    cases inside with
    | escaped => exact absurd rfl hinside
    | plain | dollar => exact Scanner.run_cons_silent rfl (ih h)
  | case6 => cases h
  | case7 c cs htick hslash hdollar hbrace hinside ih =>
    exact Scanner.run_cons_silent ((if_neg htick).trans (if_neg hslash)) (ih h)
  | case8 inside c cs hinside htick hslash hdollar hother ih =>
    cases inside with
    | escaped => exact absurd rfl hinside
    | dollar => exact absurd rfl hother
    | plain => exact Scanner.run_cons_silent ((if_neg htick).trans (if_neg hslash)) (ih h)

/-- A template is one literal. -/
theorem reads_template (t : List Char) :
    Reads (String.ofList ('\x60' :: StringLiteral.templateOf t ++ ['\x60'])) [.literal] := by
  obtain ⟨next, hnext, hne⟩ := inTemplate_templateOf t
  have hopen : Scanner.start.step '\x60' = (Scanner.into .template, []) := by decide
  have hinside : (Scanner.into .template).run (StringLiteral.templateOf t) =
      (Scanner.into next.mode, []) := scan_inTemplate hnext
  have hmode : next.mode = .template := by
    cases next with
    | escaped => exact absurd rfl hne
    | plain | dollar => rfl
  rw [Reads, String.toList_ofList, List.cons_append, Scanner.run_cons, hopen,
    Scanner.run_append_of_eq hinside, hmode]
  exact ⟨rfl, rfl⟩

/-- **The literal for a string is one lexeme**, whatever is written in the string. -/
theorem reads_toScript (raw : String) : Reads (StringLiteral.toScript raw) [.literal] := by
  unfold StringLiteral.toScript
  split
  · exact reads_template _
  · exact reads_quoted (inString_quotedFrom .plain _)

/-! ### Comments -/

/-- A line comment is scanned to the end of its line. -/
theorem scan_line (h : '\n' ∉ v) : (Scanner.into .line).run v = (Scanner.into .line, []) := by
  induction v with
  | nil => rfl
  | cons c cs ih =>
    have hstep : (Scanner.into .line).step c = (Scanner.into .line, []) :=
      if_neg (Ne.symm (List.ne_of_not_mem_cons h))
    exact Scanner.run_cons_silent hstep (ih (List.not_mem_of_not_mem_cons h))

/-- A line comment and the line feed behind it. -/
theorem reads_lineComment {value : String} (h : '\n' ∉ value.toList) :
    Reads ("//" ++ value ++ "\n") [] := by
  have hopen : Scanner.start.run ['/', '/'] = (Scanner.into .line, []) := by decide
  have htext : ("//" ++ value ++ "\n").toList = ['/', '/'] ++ (value.toList ++ ['\n']) := by simp
  rw [Reads, htext, Scanner.run_append_of_eq hopen, Scanner.run_append_of_eq (scan_line h)]
  exact ⟨rfl, rfl⟩

/-- The text of a block comment that nothing in it ends, from behind an asterisk or not. -/
theorem scan_block (starred : Bool)
    (hv : Text.occurs ['*', '/'] (if starred then '*' :: v else v) = false) :
    ∃ starred' : Bool, (Scanner.into (if starred then .star else .block)).run v =
      (Scanner.into (if starred' then .star else .block), []) := by
  induction v generalizing starred with
  | nil => exact ⟨starred, rfl⟩
  | cons c cs ih =>
    -- only a slash behind a star ends the comment, and there is none
    have hnext : ∃ next : Bool, (Scanner.into (if starred then .star else .block)).step c =
        (Scanner.into (if next then .star else .block), []) ∧
        Text.occurs ['*', '/'] (if next then '*' :: cs else cs) = false := by
      by_cases hc : c = '*'
      · subst hc
        refine ⟨true, by cases starred <;> rfl, ?_⟩
        cases starred with
        | false => simpa using hv
        | true => simpa [Text.occurs] using (Bool.or_eq_false_iff.1 hv).2
      · cases starred with
        | false =>
          refine ⟨false, if_neg hc, ?_⟩
          simpa using (Bool.or_eq_false_iff.1 hv).2
        | true =>
          obtain ⟨hend, hrest⟩ := Bool.or_eq_false_iff.1 hv
          have hslash : c ≠ '/' := by
            rintro rfl
            simp at hend
          refine ⟨false, (if_neg hslash).trans (if_neg hc), ?_⟩
          simpa using (Bool.or_eq_false_iff.1 hrest).2
    obtain ⟨next, hstep, hocc⟩ := hnext
    obtain ⟨last, hlast⟩ := ih next hocc
    exact ⟨last, Scanner.run_cons_silent hstep hlast⟩

/-- A block comment. -/
theorem reads_blockComment {value : String} (h : Text.contains value "*/" = false) :
    Reads ("/*" ++ value ++ "*/") [] := by
  have hopen : Scanner.start.run ['/', '*'] = (Scanner.into .block, []) := by decide
  have htext : ("/*" ++ value ++ "*/").toList = ['/', '*'] ++ (value.toList ++ ['*', '/']) := by
    simp
  obtain ⟨starred, hblock⟩ := scan_block (v := value.toList) false (by simpa [Text.contains] using h)
  rw [if_neg Bool.false_ne_true] at hblock
  rw [Reads, htext, Scanner.run_append_of_eq hopen, Scanner.run_append_of_eq hblock]
  cases starred <;> exact ⟨rfl, rfl⟩

end LuaCompiler.Script
