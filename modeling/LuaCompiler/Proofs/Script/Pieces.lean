import LuaCompiler.Proofs.Script.Mentions

/-!
# The pieces of a script

The lexemes of a script together with the texts of its literals, which the lexemes leave out. Blanks
and comments are no pieces.

* `literals`: the texts of the literals of a script, in their order.
* `Consists text ps`: a text of code has the pieces `ps`, and `Consists.append`: texts that do not grow
  together at their ends have the pieces of both.
* `consists_toScript`: a literal is one piece, its text.
* `consists_atoms`: a text of words and of the signs that numerals and members have.
-/

namespace LuaCompiler.Script

open Emit (isWordChar)

/-- A lexeme with what a literal says. -/
inductive Piece where
  | word (text : List Char)
  | sign (c : Char)
  | literal (text : List Char)
deriving DecidableEq

namespace Piece

/-- The lexeme that a piece is. -/
def lexeme : Piece → Lexeme
  | word text => .word text
  | sign c => .sign c
  | literal _ => .literal

/-- The text of a literal. -/
def text? : Piece → Option (List Char)
  | literal text => some text
  | _ => none

/-- A lexeme that is no literal, as a piece. -/
def ofLexeme : Lexeme → Piece
  | .word text => word text
  | .sign c => sign c
  | .literal => literal []

end Piece

/-! ## Literals -/

/-- Whether a scanner is inside a literal. -/
def Mode.inLiteral : Mode → Bool
  | string | stringEscape | template | templateEscape => true
  | _ => false

/-- The texts of the literals that end in a text, for a scanner that is inside a literal of which it
has some characters, or inside none. -/
def literalsFrom (s : Scanner) (raw : List Char) : List Char → List (List Char)
  | [] => []
  | c :: cs =>
    let raw := if s.mode.inLiteral then raw ++ [c] else [c]
    if Lexeme.literal ∈ (s.step c).2 then raw :: literalsFrom (s.step c).1 raw cs
    else literalsFrom (s.step c).1 raw cs

/-- **The texts of the literals of a script**, in their order. -/
def literals (script : String) : List (List Char) := literalsFrom .start [] script.toList

/-- Lexemes with the texts of the literals among them. -/
def fill : List Lexeme → List (List Char) → List Piece
  | .literal :: ls, text :: texts => .literal text :: fill ls texts
  | l :: ls, texts => .ofLexeme l :: fill ls texts
  | [], _ => []

/-- **The pieces of a script.** -/
def pieces (script : String) : List Piece := fill (lexemes script) (literals script)

variable {s : Scanner} {t v raw : List Char} {c : Char}

/-- What the scanner has of a literal does not matter outside of one. -/
theorem literalsFrom_raw (h : s.mode.inLiteral = false) (raw raw' t : List Char) :
    literalsFrom s raw t = literalsFrom s raw' t := by
  cases t with
  | nil => rfl
  | cons c cs => simp [literalsFrom, h]

/-- What the scanner has of a word does not matter. -/
theorem literalsFrom_word (word raw t : List Char) :
    literalsFrom ⟨.code, word⟩ raw t = literalsFrom .start raw t := by
  induction t generalizing word raw with
  | nil => rfl
  | cons c cs ih =>
    by_cases hc : isWordChar c = true
    · have hstep (word : List Char) : Scanner.step ⟨.code, word⟩ c = (⟨.code, word ++ [c]⟩, []) :=
        if_pos hc
      simp only [literalsFrom, Scanner.start, hstep, ih]
      rfl
    · rw [Bool.not_eq_true] at hc
      have hstep : Scanner.step ⟨.code, word⟩ c =
          ((Scanner.start.step c).1, Scanner.ofWord word ++ (Scanner.start.step c).2) :=
        Scanner.codeStep_of_sign hc word
      have hword : Lexeme.literal ∉ Scanner.ofWord word := by
        unfold Scanner.ofWord
        split <;> simp
      simp only [literalsFrom, hstep, List.mem_append, hword, false_or]
      rfl

/-- **The literals of a text in two parts**, of which the first ends outside of one. -/
theorem literalsFrom_append (h : (s.run t).1.mode = .code) (raw v : List Char) :
    literalsFrom s raw (t ++ v) = literalsFrom s raw t ++ literalsFrom .start [] v := by
  induction t generalizing s raw with
  | nil =>
    obtain ⟨mode, word⟩ := s
    obtain rfl : mode = .code := h
    rw [List.nil_append, literalsFrom_word, literalsFrom_raw rfl raw []]
    rfl
  | cons c cs ih =>
    have hrest : ((s.step c).1.run cs).1.mode = .code := h
    simp only [List.cons_append, literalsFrom, ih hrest]
    split <;> rfl

/-- Where no literal ends there is none. -/
theorem literalsFrom_eq_nil (h : Lexeme.literal ∉ (s.run t).2) (raw : List Char) :
    literalsFrom s raw t = [] := by
  induction t generalizing s raw with
  | nil => rfl
  | cons c cs ih =>
    rw [Scanner.run_cons, List.mem_append, not_or] at h
    rw [literalsFrom, if_neg h.1, ih h.2]

/-- From inside a literal, a character that ends it not stays inside. -/
theorem inLiteral_step (h : s.mode.inLiteral = true) (hsilent : (s.step c).2 = []) :
    (s.step c).1.mode.inLiteral = true := by
  obtain ⟨mode, word⟩ := s
  cases mode with
  | string | template =>
    unfold Scanner.step at hsilent ⊢
    dsimp only at hsilent ⊢
    split_ifs at hsilent ⊢
    all_goals rfl
  | stringEscape | templateEscape => rfl
  | _ => cases h

/-- The characters of a literal are kept until it ends. -/
theorem literalsFrom_inside (h : s.mode.inLiteral = true) (hsilent : (s.run t).2 = [])
    (raw v : List Char) :
    literalsFrom s raw (t ++ v) = literalsFrom (s.run t).1 (raw ++ t) v ∧
      (s.run t).1.mode.inLiteral = true := by
  induction t generalizing s raw with
  | nil => simpa using h
  | cons c cs ih =>
    rw [Scanner.run_cons] at hsilent ⊢
    obtain ⟨hstep, hrest⟩ := List.append_eq_nil_iff.1 hsilent
    have hnone : Lexeme.literal ∉ (s.step c).2 := by simp [hstep]
    obtain ⟨heq, hinside⟩ := ih (inLiteral_step h hstep) hrest (raw ++ [c])
    refine ⟨?_, hinside⟩
    rw [List.cons_append, literalsFrom, if_pos h, if_neg hnone, heq]
    simp

/-! ## Texts of code -/

/-- **The pieces of a text of code.** -/
def Consists (text : String) (ps : List Piece) : Prop :=
  Reads text (ps.map Piece.lexeme) ∧ literals text = ps.filterMap Piece.text?

instance (text : String) (ps : List Piece) : Decidable (Consists text ps) :=
  inferInstanceAs (Decidable (_ ∧ _))

variable {text other : String} {ls : List Lexeme} {ps qs : List Piece}

theorem fill_map (ps : List Piece) : fill (ps.map Piece.lexeme) (ps.filterMap Piece.text?) = ps := by
  induction ps with
  | nil => rfl
  | cons p ps ih =>
    cases p with
    | word text =>
      change Piece.word text :: fill (ps.map Piece.lexeme) (ps.filterMap Piece.text?) = _
      rw [ih]
    | sign c =>
      change Piece.sign c :: fill (ps.map Piece.lexeme) (ps.filterMap Piece.text?) = _
      rw [ih]
    | literal text =>
      change Piece.literal text :: fill (ps.map Piece.lexeme) (ps.filterMap Piece.text?) = _
      rw [ih]

theorem Consists.pieces (h : Consists text ps) : pieces text = ps := by
  rw [Script.pieces, h.1.lexemes, h.2, fill_map]

/-- **Texts that do not grow together** have the pieces of both. -/
theorem Consists.append (h : Consists text ps) (h' : Consists other qs)
    (hapart : endsWord text = false ∨ startsWord other = false) :
    Consists (text ++ other) (ps ++ qs) := by
  refine ⟨by simpa using h.1.append h'.1 hapart, ?_⟩
  rw [literals, String.toList_append, literalsFrom_append h.1.1, ← literals, ← literals, h.2, h'.2,
    List.filterMap_append]

/-- **Texts with a sign between them** that belongs to no word. -/
theorem Consists.join {sign : String} {rs : List Piece} (h : Consists text ps)
    (hsign : Consists sign rs) (h' : Consists other qs)
    (hapart : startsWord sign = false ∧ endsWord sign = false ∧ sign ≠ "") :
    Consists (text ++ sign ++ other) (ps ++ rs ++ qs) := by
  obtain ⟨hstart, hend, hne⟩ := hapart
  exact (h.append hsign (.inr hstart)).append h' (.inl (endsWord_append_of hend hne _))

/-- A text without literals. -/
theorem Reads.consists (h : Reads text ls) (hnone : Lexeme.literal ∉ ls) :
    Consists text (ls.map .ofLexeme) := by
  have hlexemes : (ls.map Piece.ofLexeme).map Piece.lexeme = ls := by
    rw [List.map_map]
    refine List.map_id'' (fun l => ?_) ls
    cases l <;> rfl
  have htexts : (ls.map Piece.ofLexeme).filterMap Piece.text? = [] := by
    rw [List.filterMap_eq_nil_iff]
    intro p hp
    obtain ⟨l, hl, rfl⟩ := List.mem_map.1 hp
    cases l with
    | literal => exact absurd hl hnone
    | word | sign => rfl
  refine ⟨by rwa [hlexemes], ?_⟩
  rw [htexts, literals, literalsFrom_eq_nil]
  obtain ⟨-, rfl⟩ := h
  exact fun hmem => hnone (List.mem_append_left _ hmem)

/-- Blanks and comments have no pieces. -/
theorem Silent.consists (h : Silent text) : Consists text [] :=
  h.2.2.consists List.not_mem_nil

/-- Blanks and comments around a text. -/
theorem Consists.within (h : Consists text ps) {front back : String} (hfront : Silent front)
    (hback : Silent back) : Consists (front ++ text ++ back) ps := by
  have h := (hfront.consists.append h (.inl hfront.2.1)).append hback.consists (.inr hback.1)
  simpa using h

/-! ### Literals -/

/-- A literal: a character opens it, another closes it, and nothing between them does. -/
theorem consists_literal {q : Char} (inside : Mode) (hopen : Scanner.start.step q = (.into inside, []))
    (hinside : inside.inLiteral = true) {last : Mode}
    (hv : (Scanner.into inside).run v = (.into last, []))
    (hclose : (Scanner.into last).step q = (.start, [.literal])) :
    Consists (String.ofList (q :: v ++ [q])) [.literal (q :: v ++ [q])] := by
  have hrun : Scanner.start.run (q :: v ++ [q]) = (.start, [.literal]) := by
    rw [List.cons_append, Scanner.run_cons, hopen, Scanner.run_append_of_eq hv, Scanner.run_cons,
      hclose]
    rfl
  have hsilent : ((Scanner.into inside).run v).2 = [] := by rw [hv]
  obtain ⟨hkept, hlast⟩ := literalsFrom_inside hinside hsilent [q] [q]
  rw [hv] at hkept hlast
  have hlast : (Scanner.into last).mode.inLiteral = true := hlast
  have hfirst : literalsFrom .start [] (q :: v ++ [q]) =
      literalsFrom (.into inside) [q] (v ++ [q]) := by
    rw [List.cons_append, literalsFrom, hopen, if_neg List.not_mem_nil]
    rfl
  refine ⟨?_, ?_⟩
  · rw [Reads, String.toList_ofList, hrun]
    exact ⟨rfl, rfl⟩
  · rw [literals, String.toList_ofList, hfirst, hkept, literalsFrom, if_pos hlast, hclose,
      if_pos (List.mem_singleton_self _)]
    rfl

/-- **The literal for a string is one piece**, its text. -/
theorem consists_toScript (raw : String) :
    Consists (StringLiteral.toScript raw) [.literal (StringLiteral.toScript raw).toList] := by
  unfold StringLiteral.toScript
  split
  · obtain ⟨next, hnext, hne⟩ := inTemplate_templateOf (StringLiteral.contentOf raw.toList)
    have hmode : next.mode = .template := by
      cases next with
      | escaped => exact absurd rfl hne
      | plain | dollar => rfl
    have hinside := scan_inTemplate hnext
    rw [hmode] at hinside
    rw [String.toList_ofList]
    exact consists_literal .template (by decide) rfl hinside (by decide)
  · rw [String.toList_ofList]
    exact consists_literal .string (by decide) rfl (inString_quotedFrom .plain _)
      (by decide)

/-! ### Words and signs -/

/-- The characters of names, members and numerals. -/
def isAtomChar (c : Char) : Bool := isWordChar c || ['.', '+', '-'].contains c

/-- A word, a literal, or a sign that stands in a member or a numeral. -/
def Piece.isAtom : Piece → Bool
  | .sign c => isAtomChar c
  | _ => true

theorem run_atom (h : ∀ c ∈ t, isAtomChar c = true) (word : List Char) :
    (Scanner.run ⟨.code, word⟩ t).1.mode = .code ∧
      (∀ l ∈ (Scanner.run ⟨.code, word⟩ t).2 ++ Scanner.ofWord (Scanner.run ⟨.code, word⟩ t).1.word,
        l ≠ .literal ∧ (Piece.ofLexeme l).isAtom = true) ∧
      (word ++ t ≠ [] →
        (Scanner.run ⟨.code, word⟩ t).2 ++ Scanner.ofWord (Scanner.run ⟨.code, word⟩ t).1.word ≠
          []) := by
  have hword (word : List Char) :
      ∀ l ∈ Scanner.ofWord word, l ≠ .literal ∧ (Piece.ofLexeme l).isAtom = true := by
    intro l hl
    unfold Scanner.ofWord at hl
    split at hl
    · cases hl
    · rw [List.mem_singleton.1 hl]
      exact ⟨by simp, rfl⟩
  -- along the text, with the word that has been read so far
  induction t generalizing word with
  | nil =>
    refine ⟨rfl, hword word, fun hne => ?_⟩
    simp_all [Scanner.ofWord]
  | cons c cs ih =>
    obtain ⟨hc, hcs⟩ := List.forall_mem_cons.1 h
    by_cases hpart : isWordChar c = true
    · have hstep : Scanner.step ⟨.code, word⟩ c = (⟨.code, word ++ [c]⟩, []) := if_pos hpart
      obtain ⟨hmode, hall, hne⟩ := ih hcs (word ++ [c])
      rw [Scanner.run_cons, hstep]
      exact ⟨hmode, hall, fun _ => hne (by simp)⟩
    · -- an atom has three signs, none of which starts a comment
      have hsign : Scanner.signStep c = (.start, [.sign c]) := by
        have hmem : c = '.' ∨ c = '+' ∨ c = '-' := by simpa [isAtomChar, hpart] using hc
        rcases hmem with rfl | rfl | rfl <;> rfl
      have hstep : Scanner.step ⟨.code, word⟩ c = (.start, Scanner.ofWord word ++ [.sign c]) := by
        have hcode := Scanner.codeStep_of_sign (by simpa using hpart) word
        rw [Scanner.step, hcode, Scanner.codeStep, if_neg hpart, hsign]
        rfl
      obtain ⟨hmode, hrest, -⟩ := ih hcs []
      rw [Scanner.run_cons, hstep]
      refine ⟨hmode, ?_, fun _ => by simp⟩
      simp only [List.append_assoc, List.forall_mem_append, List.forall_mem_singleton] at hrest ⊢
      exact ⟨hword word, ⟨by simp, hc⟩, hrest.1, hrest.2⟩

/-- **A text of words and of the signs of members and numerals.** -/
theorem consists_atoms (h : ∀ c ∈ text.toList, isAtomChar c = true) (hne : text ≠ "") :
    ∃ ps, Consists text ps ∧ ps ≠ [] ∧ ∀ p ∈ ps, p.isAtom = true := by
  obtain ⟨hmode, hall, hsome⟩ := run_atom h []
  have hreads : Reads text ((Scanner.start.run text.toList).2 ++
      Scanner.ofWord (Scanner.start.run text.toList).1.word) := ⟨hmode, rfl⟩
  have htext : [] ++ text.toList ≠ [] := fun hnil => hne (String.toList_inj.1 hnil)
  refine ⟨_, hreads.consists fun hmem => (hall _ hmem).1 rfl, ?_, fun p hp => ?_⟩
  · rw [Ne, List.map_eq_nil_iff]
    exact hsome htext
  obtain ⟨l, hl, rfl⟩ := List.mem_map.1 hp
  exact (hall l hl).2

end LuaCompiler.Script
