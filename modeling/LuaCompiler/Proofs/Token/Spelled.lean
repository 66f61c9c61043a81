import LuaCompiler.Proofs.Token.Spaced

/-!
# Scanned tokens are spelled right

A cut depends on no more of the text than the lexeme that it cuts off: cutting the lexeme alone
gives the same cut. So every token of a scanned text is one that could have been printed.

* `Lexeme.isSpelled_of_cut`: the text of a token that was cut off is cut as that token.
* `Scan.good_ofText`: every token of a text is spelled right or the text's end.
* `Name.isValid_of_isSpelled`, `Numeral.isNumeralChar_of_isSpelled`: what names and numerals are
  made of.
-/

namespace LuaCompiler

namespace Numeral

/-- Whether a character can stand in a numeral. -/
def isNumeralChar (c : Char) : Bool :=
  isHexDigit c || ['x', 'X', 'p', 'P', '.', '+', '-'].contains c

variable {c : Char} {cs : List Char}

/-- A digit in hexadecimal may stand in a numeral. -/
theorem isNumeralChar_of_isHexDigit (h : isHexDigit c = true) : isNumeralChar c = true := by
  rw [isNumeralChar, h, Bool.true_or]

theorem isNumeralChar_of_isDigit (h : c.isDigit = true) : isNumeralChar c = true :=
  isNumeralChar_of_isHexDigit (by simp [isHexDigit, h])

/-- How many characters at the front of a text belong to a numeral, of which some characters are a
part and some mark an exponent, with its sign. -/
def partsRun (isPart isMark : Char → Bool) : List Char → Nat
  | [] => 0
  | c :: cs =>
    if isPart c then 1 + partsRun isPart isMark cs
    else if isMark c then
      match cs with
      | sign :: rest =>
        if sign == '+' || sign == '-' then 2 + partsRun isPart isMark rest
        else 1 + partsRun isPart isMark (sign :: rest)
      | [] => 1
    else 0

attribute [grind =] partsRun

/-- A part of a number continues it. -/
theorem partsRun_of_isPart {isPart isMark : Char → Bool} (h : isPart c = true) (cs : List Char) :
    partsRun isPart isMark (c :: cs) = 1 + partsRun isPart isMark cs := by
  rw [partsRun.eq_def]
  simp [h]

/-- Any other character ends it, unless it is a mark. -/
theorem partsRun_of_other {isPart isMark : Char → Bool} (hpart : isPart c = false)
    (hmark : isMark c = false) (cs : List Char) : partsRun isPart isMark (c :: cs) = 0 := by
  rw [partsRun.eq_def]
  simp [hpart, hmark]

/-- A decimal number is a run of digits and dots, with an exponent. -/
theorem decimalRun_eq (cs : List Char) :
    decimalRun cs = partsRun (fun c => c.isDigit || c == '.') (fun c => c == 'e' || c == 'E') cs := by
  fun_induction decimalRun cs with
  | case1 => rfl
  | case2 c cs hc ih => rw [partsRun_of_isPart hc, ih]
  | case3 c hc hmark sign rest hsign ih => rw [partsRun, if_neg hc, if_pos hmark, if_pos hsign, ih]
  | case4 c hc hmark sign rest hsign ih => rw [partsRun, if_neg hc, if_pos hmark, if_neg hsign, ih]
  | case5 c hc hmark => rw [partsRun, if_neg hc, if_pos hmark]
  | case6 c cs hc hmark => rw [partsRun_of_other (by simpa using hc) (by simpa using hmark)]

/-- A hexadecimal number is a run of its digits and dots, with a power of two. -/
theorem hexRun_eq (cs : List Char) :
    hexRun cs = partsRun (fun c => isHexDigit c || c == '.') isPower cs := by
  fun_induction hexRun cs with
  | case1 => rfl
  | case2 c cs hc ih => rw [partsRun_of_isPart hc, ih]
  | case3 c hc hmark sign rest hsign ih => rw [partsRun, if_neg hc, if_pos hmark, if_pos hsign, ih]
  | case4 c hc hmark sign rest hsign ih => rw [partsRun, if_neg hc, if_pos hmark, if_neg hsign, ih]
  | case5 c hc hmark => rw [partsRun, if_neg hc, if_pos hmark]
  | case6 c cs hc hmark => rw [partsRun_of_other (by simpa using hc) (by simpa using hmark)]

section Run

variable {isPart isMark : Char → Bool}

/-- A run is not longer than its text. -/
theorem partsRun_le (cs : List Char) : partsRun isPart isMark cs ≤ cs.length := by
  fun_induction partsRun isPart isMark cs <;> simp_all <;> omega

/-- A run is that of its own characters. -/
theorem partsRun_take (cs : List Char) :
    partsRun isPart isMark (cs.take (partsRun isPart isMark cs)) = partsRun isPart isMark cs := by
  fun_induction partsRun isPart isMark cs with
  | case1 => rfl
  | case2 c cs hc ih =>
    rw [Nat.add_comm, List.take_succ_cons, partsRun_of_isPart hc, ih, Nat.add_comm]
  | case3 c hc hmark sign rest hsign ih =>
    rw [Nat.add_comm, List.take_succ_cons, List.take_succ_cons, partsRun, if_neg hc, if_pos hmark,
      if_pos hsign, ih, Nat.add_comm]
  | case4 c hc hmark sign rest hsign ih =>
    rw [Nat.add_comm, List.take_succ_cons]
    -- the run ends behind the mark, or goes on with the character that is no sign
    cases hn : partsRun isPart isMark (sign :: rest) with
    | zero => simp [partsRun, hc, hmark]
    | succ n =>
      rw [hn, List.take_succ_cons] at ih
      rw [List.take_succ_cons, partsRun, if_neg hc, if_pos hmark, if_neg hsign, ih, Nat.add_comm]
  | case5 c hc hmark => simp [partsRun, hc, hmark]
  | case6 c cs hc hmark => rfl

/-- A run holds characters of numerals only. -/
theorem partsRun_chars (hpart : ∀ c, isPart c = true → isNumeralChar c = true)
    (hmark : ∀ c, isMark c = true → isNumeralChar c = true) (cs : List Char) :
    ∀ d ∈ cs.take (partsRun isPart isMark cs), isNumeralChar d = true := by
  fun_induction partsRun isPart isMark cs with
  | case1 => simp
  | case2 c cs hc ih =>
    rw [Nat.add_comm, List.take_succ_cons]
    exact List.forall_mem_cons.2 ⟨hpart c hc, ih⟩
  | case3 c hc hm sign rest hsign ih =>
    have hs : isNumeralChar sign = true := by
      simp only [Bool.or_eq_true, beq_iff_eq] at hsign
      rcases hsign with rfl | rfl <;> decide
    rw [Nat.add_comm, List.take_succ_cons, List.take_succ_cons]
    exact List.forall_mem_cons.2 ⟨hmark c hm, List.forall_mem_cons.2 ⟨hs, ih⟩⟩
  | case4 c hc hm sign rest hsign ih =>
    rw [Nat.add_comm, List.take_succ_cons]
    exact List.forall_mem_cons.2 ⟨hmark c hm, ih⟩
  | case5 c hc hm => simpa using hmark c hm
  | case6 c cs hc hm => simp

end Run

/-- A hexadecimal number has its mark behind a zero. -/
theorem hexDigits_eq_some {digits : List Char} (h : hexDigits? (c :: cs) = some digits) :
    c = '0' ∧ ∃ mark, cs = mark :: digits ∧ (mark = 'x' ∨ mark = 'X') := by
  unfold hexDigits? at h
  split at h
  next heq =>
    cases h
    simp_all
  next heq =>
    cases h
    simp_all
  · cases h

/-- The run of a numeral that starts with a digit or a point. -/
theorem run_eq (hc : (c.isDigit || c == '.') = true) (cs : List Char) :
    (hexDigits? (c :: cs) = none ∧ run c cs = decimalRun cs) ∨
      ∃ digits mark, hexDigits? (c :: cs) = some digits ∧ c = '0' ∧ cs = mark :: digits ∧
        (mark = 'x' ∨ mark = 'X') ∧ run c cs = 1 + hexRun digits := by
  unfold run
  cases hhex : hexDigits? (c :: cs) with
  | none =>
    refine .inl ⟨rfl, ?_⟩
    have hrun : decimalRun (c :: cs) = 1 + decimalRun cs := by
      rw [decimalRun_eq, decimalRun_eq, partsRun_of_isPart hc]
    simp only [hrun, Nat.add_sub_cancel_left]
  | some digits =>
    obtain ⟨hzero, mark, hcs, hmark⟩ := hexDigits_eq_some hhex
    exact .inr ⟨digits, mark, rfl, hzero, hcs, hmark, rfl⟩

/-- A number that is cut out is as long by itself, and holds characters of numerals only. -/
theorem run_take (hc : (c.isDigit || c == '.') = true) (cs : List Char) :
    run c cs ≤ cs.length ∧ run c (cs.take (run c cs)) = run c cs ∧
      ∀ d ∈ cs.take (run c cs), isNumeralChar d = true := by
  rcases run_eq hc cs with ⟨hhex, hrun⟩ | ⟨digits, mark, hhex, rfl, rfl, hmark, hrun⟩
  · -- a decimal numeral that is cut off behind its run does not turn into a hexadecimal one
    have hnone : hexDigits? (c :: cs.take (run c cs)) = none := by
      cases hsome : hexDigits? (c :: cs.take (run c cs)) with
      | none => rfl
      | some digits =>
        obtain ⟨rfl, mark, hcs, hmark⟩ := hexDigits_eq_some hsome
        obtain ⟨d, ds, rfl⟩ : ∃ d ds, cs = d :: ds := by
          cases cs with
          | nil => simp at hcs
          | cons d ds => exact ⟨d, ds, rfl⟩
        have hd : d = mark := by
          cases hn : run '0' (d :: ds) with
          | zero => simp [hn] at hcs
          | succ n =>
            rw [hn, List.take_succ_cons] at hcs
            exact (List.cons.inj hcs).1
        subst hd
        rcases hmark with rfl | rfl <;> simp [hexDigits?] at hhex
    refine ⟨?_, ?_, ?_⟩
    · rw [hrun, decimalRun_eq]
      exact partsRun_le cs
    · rcases run_eq hc (cs.take (run c cs)) with ⟨-, hrun'⟩ | ⟨digits, _, hhex', -⟩
      · rw [hrun', hrun, decimalRun_eq, decimalRun_eq]
        exact partsRun_take cs
      · rw [hnone] at hhex'
        cases hhex'
    · rw [hrun, decimalRun_eq]
      refine partsRun_chars (fun d hd => ?_) (fun d hd => ?_) cs
      · simp only [Bool.or_eq_true] at hd
        rcases hd with hd | hd
        · exact isNumeralChar_of_isDigit hd
        · simp_all [isNumeralChar]
      · simp only [Bool.or_eq_true, beq_iff_eq] at hd
        rcases hd with rfl | rfl <;> decide
  · rw [hrun, Nat.add_comm, List.take_succ_cons]
    refine ⟨?_, ?_, ?_⟩
    · rw [List.length_cons, hexRun_eq]
      exact Nat.succ_le_succ (partsRun_le digits)
    · have hrun' : run '0' (mark :: digits.take (hexRun digits)) =
          1 + hexRun (digits.take (hexRun digits)) := by
        rcases hmark with rfl | rfl <;> rfl
      rw [hrun', hexRun_eq, hexRun_eq, partsRun_take, Nat.add_comm]
    · refine List.forall_mem_cons.2 ⟨by rcases hmark with rfl | rfl <;> decide, ?_⟩
      rw [hexRun_eq]
      refine partsRun_chars (fun d hd => ?_) (fun d hd => ?_) digits
      · simp only [Bool.or_eq_true] at hd
        rcases hd with hd | hd
        · exact isNumeralChar_of_isHexDigit hd
        · simp_all [isNumeralChar]
      · simp only [isPower, Bool.or_eq_true, beq_iff_eq] at hd
        rcases hd with rfl | rfl <;> decide

end Numeral

namespace Lexeme

variable {c quote : Char} {cs : List Char} {kind : Token.Kind} {n level : Nat}

/-- A string ends within its text. -/
theorem throughQuote_le {inside : Inside} (h : throughQuote? quote inside cs = some n) :
    n ≤ cs.length := by
  fun_induction throughQuote? quote inside cs generalizing n with
  | case1 => cases h
  | case2 c cs ih | case3 _ c cs _ _ ih | case6 _ c cs _ _ _ _ ih =>
    obtain ⟨m, hm, rfl⟩ := Option.map_eq_some_iff.1 h
    simpa using ih hm
  | case4 =>
    cases h
    simp
  | case5 => cases h

/-- A string that is cut out ends as it did. -/
theorem throughQuote_take {inside : Inside} (h : throughQuote? quote inside cs = some n) :
    throughQuote? quote inside (cs.take n) = some n := by
  fun_induction throughQuote? quote inside cs generalizing n with
  | case1 => cases h
  | case2 c cs ih =>
    obtain ⟨m, hm, rfl⟩ := Option.map_eq_some_iff.1 h
    rw [List.take_succ_cons, throughQuote?, ih hm]
    rfl
  | case3 inside c cs hinside hblank ih =>
    obtain ⟨m, hm, rfl⟩ := Option.map_eq_some_iff.1 h
    rw [List.take_succ_cons, throughQuote?, if_pos hblank, ih hm]
    · rfl
    · exact hinside
  | case4 inside cs hinside hblank =>
    cases h
    rw [List.take_succ_cons, throughQuote?, if_neg hblank, if_pos rfl]
    exact hinside
  | case5 => cases h
  | case6 inside c cs hinside hblank hquote hline ih =>
    obtain ⟨m, hm, rfl⟩ := Option.map_eq_some_iff.1 h
    rw [List.take_succ_cons, throughQuote?, if_neg hblank, if_neg hquote, if_neg hline, ih hm]
    · rfl
    · exact hinside

/-- So does a long string. -/
theorem throughClosing_take (h : throughClosing? level cs = some n) :
    throughClosing? level (cs.take n) = some n := by
  induction cs generalizing n with
  | nil => cases h
  | cons c cs ih =>
    rw [throughClosing?] at h
    split at h
    next hclosing =>
      cases h
      obtain ⟨rest, heq⟩ := List.isPrefixOf_iff_prefix.1 hclosing
      have htake : (c :: cs).take (level + 2) = closing level := by
        rw [← heq, ← length_closing level, List.take_left]
      rw [htake, closing, List.cons_append, throughClosing?, if_pos]
      exact List.isPrefixOf_iff_prefix.2 (List.prefix_refl _)
    next hclosing =>
      obtain ⟨m, hm, rfl⟩ := Option.map_eq_some_iff.1 h
      rw [List.take_succ_cons, throughClosing?, if_neg, ih hm]
      · rfl
      · intro hprefix
        refine hclosing (List.isPrefixOf_iff_prefix.2 ?_)
        rw [← List.take_succ_cons] at hprefix
        exact (List.isPrefixOf_iff_prefix.1 hprefix).trans (List.take_prefix _ _)

/-- And an opening bracket is opened. -/
theorem longLevel_take (h : longLevel? cs = some level) (hn : level + 1 ≤ n) :
    longLevel? (cs.take n) = some level := by
  induction cs generalizing level n with
  | nil => cases h
  | cons d cs ih =>
    obtain ⟨n, rfl⟩ : ∃ m, n = m + 1 := ⟨n - 1, by omega⟩
    rw [List.take_succ_cons]
    by_cases hd : d = '='
    · rw [hd, longLevel_equals] at h ⊢
      obtain ⟨m, hm, rfl⟩ := Option.map_eq_some_iff.1 h
      rw [ih hm (by omega)]
      rfl
    · rwa [longLevel_other hd] at h ⊢

/-! ## One lemma for each class of tokens -/

/-- A word that is no keyword is an identifier. -/
theorem isValid_of_cutName (hc : isNameStart c = true)
    (hword : Keyword.ofText? (String.ofList (c :: cs.takeWhile isNameRest)) = none) :
    Name.isValid (String.ofList (c :: cs.takeWhile isNameRest)) = true := by
  rw [Keyword.ofText?, List.find?_eq_none] at hword
  unfold Name.isValid
  rw [String.toList_ofList]
  simp only [Bool.and_eq_true, List.all_eq_true, bne_iff_ne]
  refine ⟨⟨hc, fun d hd => ?_⟩, fun word hmem => by simpa using hword word hmem⟩
  have hrest : isNameRest d = true := List.mem_takeWhile_imp hd
  exact hrest

/-- A name that is cut out is spelled right. -/
theorem isSpelled_of_cutName (hc : isNameStart c = true)
    (h : cutName c cs = ⟨.token kind, n⟩) : kind.isSpelled = true := by
  unfold cutName at h
  dsimp only at h
  split at h
  next word hword =>
    obtain ⟨hkind, -⟩ := Cut.mk.inj h
    obtain rfl := Kind.token.inj hkind
    exact Keyword.isSpelled word
  next hword =>
    obtain ⟨hkind, -⟩ := Cut.mk.inj h
    obtain rfl := Kind.token.inj hkind
    exact Name.isSpelled (isValid_of_cutName hc hword)

/-- A digit starts nothing but a numeral. -/
theorem cut_of_digit (hc : c.isDigit = true ∨ (c = '.' ∧ startsWithDigit cs = true)) :
    cut? c cs = cutNumber c cs := by
  -- no other sort of token starts with a digit, nor with a point in front of one
  have hclass : isSpace c = false ∧ c ≠ '-' ∧ isNameStart c = false := by
    rcases hc with hc | ⟨rfl, -⟩
    · have hbounds : 48 ≤ c.toNat ∧ c.toNat ≤ 57 := by
        simpa [Char.isDigit, UInt32.le_iff_toNat_le] using hc
      have hne (d : Char) (hd : d.toNat < 48 ∨ 57 < d.toNat) : c ≠ d := by
        rintro rfl
        omega
      refine ⟨?_, hne '-' (by decide), ?_⟩
      · have h := fun d hd => hne d hd
        simp [isSpace, h ' ' (by decide), h '\t' (by decide), h '\r' (by decide),
          h '\n' (by decide), h '\x0b' (by decide), h '\x0c' (by decide)]
      · have hunderscore := hne '_' (by decide)
        have halpha : c.isAlpha = false := by
          rw [← Bool.not_eq_true]
          intro halpha
          delta Char.isAlpha Char.isUpper Char.isLower at halpha
          simp only [Bool.or_eq_true, Bool.and_eq_true, decide_eq_true_eq, UInt32.le_iff_toNat_le,
            ge_iff_le] at halpha
          have hnat : c.toNat = c.val.toNat := rfl
          have hA : 'A'.val.toNat = 65 := rfl
          have ha : 'a'.val.toNat = 97 := rfl
          omega
        simp [isNameStart, halpha, hunderscore]
    · decide
  unfold cut?
  rw [if_neg (by simp [hclass.1]), if_neg (by simp [hclass.2.1]), if_neg (by simp [hclass.2.2]),
    if_pos hc]

/-- So is a number. -/
theorem isSpelled_of_cutNumber (hc : c.isDigit = true ∨ (c = '.' ∧ startsWithDigit cs = true))
    (h : cutNumber c cs = .ok ⟨.token kind, n⟩) : kind.isSpelled = true := by
  have hpart : (c.isDigit || c == '.') = true := by
    rcases hc with hc | ⟨rfl, -⟩
    · simp [hc]
    · rfl
  unfold cutNumber at h
  dsimp only at h
  split at h
  next value hvalue =>
    obtain ⟨hkind, hn⟩ := Cut.mk.inj (Except.ok.inj h)
    obtain rfl := Kind.token.inj hkind
    obtain ⟨hle, htake, -⟩ := Numeral.run_take hpart cs
    rw [hn] at hvalue hle htake ⊢
    have hlength : (cs.take n).length = n := by
      rw [List.length_take]
      omega
    refine Token.Kind.isSpelled_iff.2 ⟨c, cs.take n, String.toList_ofList, ?_⟩
    have hc' : c.isDigit = true ∨ (c = '.' ∧ startsWithDigit (cs.take n) = true) := by
      rcases hc with hc | ⟨rfl, hdigit⟩
      · exact .inl hc
      · refine .inr ⟨rfl, ?_⟩
        -- a digit behind the point belongs to the run
        cases cs with
        | nil => cases hdigit
        | cons d ds =>
          cases n with
          | zero =>
            have hrun := Numeral.run_eq (c := '.') rfl (d :: ds)
            have hd : d.isDigit = true := hdigit
            rcases hrun with ⟨-, hrun⟩ | ⟨_, _, _, hzero, _⟩
            · rw [hn, Numeral.decimalRun_eq,
                Numeral.partsRun_of_isPart (by simp [hd])] at hrun
              omega
            · exact absurd hzero (by decide)
          | succ n => exact hdigit
    rw [cut_of_digit hc']
    unfold cutNumber
    dsimp only
    rw [htake, List.take_of_length_le (Nat.le_of_eq hlength), hvalue, hlength]
  · cases h

theorem cut_of_quote (hc : c = '"' ∨ c = '\x27') : cut? c cs = cutString c cs := by
  rcases hc with rfl | rfl
  · rfl
  · rfl

/-- So is a string. -/
theorem isSpelled_of_cutString (hc : c = '"' ∨ c = '\x27')
    (h : cutString c cs = .ok ⟨.token kind, n⟩) : kind.isSpelled = true := by
  unfold cutString at h
  split at h
  next more hmore =>
    obtain ⟨hkind, rfl⟩ := Cut.mk.inj (Except.ok.inj h)
    obtain rfl := Kind.token.inj hkind
    have hlength : (cs.take more).length = more := by
      have := throughQuote_le hmore
      rw [List.length_take]
      omega
    refine Token.Kind.isSpelled_iff.2 ⟨c, cs.take more, String.toList_ofList, ?_⟩
    rw [cut_of_quote hc]
    unfold cutString
    rw [throughQuote_take hmore]
    dsimp only
    rw [List.take_of_length_le (Nat.le_of_eq hlength), hlength]
  · cases h

/-- So is a long string. -/
theorem isSpelled_of_cutLongString (hlevel : longLevel? cs = some level)
    (h : cutLongString level cs = .ok ⟨.token kind, n⟩) : kind.isSpelled = true := by
  unfold cutLongString at h
  split at h
  next more hmore =>
    obtain ⟨hkind, hn⟩ := Cut.mk.inj (Except.ok.inj h)
    obtain rfl := Kind.token.inj hkind
    obtain ⟨-, hbound⟩ := throughClosing_bounds hmore
    have hopen := longLevel_length hlevel
    have hlength : (cs.take (level + 1 + more)).length = level + 1 + more := by
      rw [List.length_drop] at hbound
      rw [List.length_take]
      omega
    refine Token.Kind.isSpelled_iff.2
      ⟨'[', cs.take (level + 1 + more), String.toList_ofList, ?_⟩
    -- cut off behind its closing bracket, the text is still taken for a long string
    have hcut : cut? '[' (cs.take (level + 1 + more)) =
        cutLongString level (cs.take (level + 1 + more)) := by
      have hlevel' := longLevel_take hlevel (n := level + 1 + more) (by omega)
      unfold cut?
      rw [if_neg (by decide), if_neg (fun h => absurd h.1 (by decide)), if_neg (by decide),
        if_neg (by rintro (h | ⟨h, -⟩) <;> exact absurd h (by decide)), if_neg (by decide),
        if_pos rfl, hlevel']
    rw [hcut]
    unfold cutLongString
    rw [List.drop_take, Nat.add_sub_cancel_left, throughClosing_take hmore]
    dsimp only
    rw [List.take_of_length_le (Nat.le_of_eq hlength), hlength]
  · cases h

/-- So is a sign. -/
theorem isSpelled_of_cutSymbol (h : cutSymbol c cs = .ok ⟨.token kind, n⟩) :
    kind.isSpelled = true := by
  unfold cutSymbol at h
  split at h
  next symbol hsymbol =>
    obtain ⟨hkind, -⟩ := Cut.mk.inj (Except.ok.inj h)
    obtain rfl := Kind.token.inj hkind
    exact Symbol.isSpelled symbol
  · cases h

/-- The cuts that give a token. -/
theorem cut_token_cases (h : cut? c cs = .ok ⟨.token kind, n⟩) :
    (isNameStart c = true ∧ cutName c cs = ⟨.token kind, n⟩) ∨
      ((c.isDigit = true ∨ (c = '.' ∧ startsWithDigit cs = true)) ∧
        cutNumber c cs = .ok ⟨.token kind, n⟩) ∨
      ((c = '"' ∨ c = '\x27') ∧ cutString c cs = .ok ⟨.token kind, n⟩) ∨
      (c = '[' ∧ ∃ level, longLevel? cs = some level ∧
        cutLongString level cs = .ok ⟨.token kind, n⟩) ∨
      cutSymbol c cs = .ok ⟨.token kind, n⟩ := by
  unfold cut? at h
  split at h
  · cases h
  split at h
  · exact absurd h (cutComment_ne_token _ _)
  split at h
  next hname => exact .inl ⟨hname, Except.ok.inj h⟩
  split at h
  next hdigit => exact .inr (.inl ⟨hdigit, h⟩)
  split at h
  next hquote => exact .inr (.inr (.inl ⟨hquote, h⟩))
  split at h
  next hbracket =>
    split at h
    next level hlevel => exact .inr (.inr (.inr (.inl ⟨hbracket, level, hlevel, h⟩)))
    · exact .inr (.inr (.inr (.inr h)))
  · exact .inr (.inr (.inr (.inr h)))

/-- **A token that was cut off is spelled right.** -/
theorem isSpelled_of_cut (h : cut? c cs = .ok ⟨.token kind, n⟩) : kind.isSpelled = true := by
  rcases cut_token_cases h with ⟨hc, h⟩ | ⟨hc, h⟩ | ⟨hc, h⟩ | ⟨-, level, hlevel, h⟩ | h
  · exact isSpelled_of_cutName hc h
  · exact isSpelled_of_cutNumber hc h
  · exact isSpelled_of_cutString hc h
  · exact isSpelled_of_cutLongString hlevel h
  · exact isSpelled_of_cutSymbol h

end Lexeme

/-! ## What spelled tokens are made of -/

open Lexeme in
/-- A name that is spelled right is an identifier. -/
theorem Name.isValid_of_isSpelled {name : String} (h : (Token.Kind.name name).isSpelled = true) :
    Name.isValid name = true := by
  obtain ⟨c, cs, -, hcut⟩ := Token.Kind.isSpelled_iff.1 h
  rcases cut_token_cases hcut with ⟨hc, hname⟩ | ⟨-, h⟩ | ⟨-, h⟩ | ⟨-, level, -, h⟩ | h
  · unfold cutName at hname
    dsimp only at hname
    split at hname
    · cases (Cut.mk.inj hname).1
    next hword =>
      obtain rfl := Token.Kind.name.inj (Kind.token.inj (Cut.mk.inj hname).1)
      exact isValid_of_cutName hc hword
  · unfold cutNumber at h
    dsimp only at h
    split at h <;> cases h
  · unfold cutString at h
    split at h <;> cases h
  · unfold cutLongString at h
    split at h <;> cases h
  · unfold cutSymbol at h
    split at h <;> cases h

open Lexeme in
/-- A numeral that is spelled right is cut off as one. -/
theorem Numeral.exists_cutNumber {value : Binary64.Magnitude} {raw : String}
    (h : (Token.Kind.number value raw).isSpelled = true) :
    ∃ c cs n, (c.isDigit = true ∨ (c = '.' ∧ startsWithDigit cs = true)) ∧
      cutNumber c cs = .ok ⟨.token (.number value raw), n⟩ := by
  obtain ⟨c, cs, -, hcut⟩ := Token.Kind.isSpelled_iff.1 h
  rcases cut_token_cases hcut with ⟨-, hname⟩ | ⟨hc, hnumber⟩ | ⟨-, h⟩ | ⟨-, level, -, h⟩ | h
  · unfold cutName at hname
    dsimp only at hname
    split at hname <;> cases (Cut.mk.inj hname).1
  · exact ⟨c, cs, _, hc, hnumber⟩
  · unfold cutString at h
    split at h <;> cases h
  · unfold cutLongString at h
    split at h <;> cases h
  · unfold cutSymbol at h
    split at h <;> cases h

open Lexeme in
/-- A numeral that is spelled right holds characters of numerals only. -/
theorem Numeral.isNumeralChar_of_isSpelled {value : Binary64.Magnitude} {raw : String}
    (h : (Token.Kind.number value raw).isSpelled = true) :
    ∀ c ∈ raw.toList, isNumeralChar c = true := by
  obtain ⟨c, cs, n, hc, hnumber⟩ := exists_cutNumber h
  have hpart : (c.isDigit || c == '.') = true := by
    rcases hc with hc | ⟨rfl, -⟩
    · simp [hc]
    · rfl
  have hfirst : isNumeralChar c = true := by
    rcases hc with hc | ⟨rfl, -⟩
    · exact isNumeralChar_of_isDigit hc
    · rfl
  unfold cutNumber at hnumber
  dsimp only at hnumber
  split at hnumber
  · obtain ⟨-, rfl⟩ := Token.Kind.number.inj (Kind.token.inj (Cut.mk.inj (Except.ok.inj hnumber)).1)
    rw [String.toList_ofList]
    exact List.forall_mem_cons.2 ⟨hfirst, (run_take hpart cs).2.2⟩
  · cases hnumber

open Lexeme in
/-- A numeral that is spelled right has the value of its text. -/
theorem Numeral.value?_of_isSpelled {value : Binary64.Magnitude} {raw : String}
    (h : (Token.Kind.number value raw).isSpelled = true) :
    Numeral.value? raw.toList = some value := by
  obtain ⟨c, cs, n, -, hnumber⟩ := exists_cutNumber h
  unfold cutNumber at hnumber
  dsimp only at hnumber
  split at hnumber
  next hvalue =>
    obtain ⟨rfl, rfl⟩ :=
      Token.Kind.number.inj (Kind.token.inj (Cut.mk.inj (Except.ok.inj hnumber)).1)
    rwa [String.toList_ofList]
  · cases hnumber

/-! ## Scanned texts -/

namespace Scan

/-- A token that a text can hold: one that is spelled right, or the text's end. -/
def Good (token : Token) : Prop := token.kind.isSpelled = true ∨ token.kind = .eof

/-- Every token of a text is spelled right. -/
theorem isSpelled_of_mem_lexemes {skip : Nat} {text : List Char} {lexeme : Lexeme}
    {kind : Token.Kind} (h : lexeme ∈ (Lexemes.ofTextFrom skip text).lexemes)
    (hkind : lexeme.kind = .token kind) : kind.isSpelled = true := by
  fun_induction Lexemes.ofTextFrom skip text with
  | case1 => cases h
  | case2 skip c cs ih => exact ih h
  | case3 c cs cut hcut ih =>
    rcases List.mem_cons.1 h with rfl | h
    · obtain ⟨_, n⟩ := cut
      cases hkind
      exact Lexeme.isSpelled_of_cut hcut
    · exact ih h
  | case4 => cases h

/-- So is every token that is handed to the parser. -/
theorem good_ofLexemes {fault : Option LexicalFault} {lexemes : List Lexeme}
    (h : ∀ lexeme ∈ lexemes, ∀ kind, lexeme.kind = .token kind → kind.isSpelled = true)
    (here : Position) : ∀ token ∈ (ofLexemes fault here lexemes).tokens, Good token := by
  induction lexemes generalizing here with
  | nil =>
    cases fault with
    | none => simp [ofLexemes, Good]
    | some fault => simp [ofLexemes]
  | cons lexeme rest ih =>
    have hrest := ih (fun l hl => h l (List.mem_cons_of_mem _ hl)) (here.advance lexeme.text)
    rw [ofLexemes]
    cases hkind : lexeme.kind with
    | token kind =>
      simp only [List.mem_cons]
      rintro token (rfl | htoken)
      · exact .inl (h lexeme List.mem_cons_self kind hkind)
      · exact hrest token htoken
    | blank | lineComment | blockComment level => exact hrest

/-- **Every token of a text is spelled right.** -/
theorem good_ofText (text : List Char) : ∀ token ∈ (ofText text).tokens, Good token :=
  good_ofLexemes (fun _ h _ hkind => isSpelled_of_mem_lexemes h hkind) _

end Scan

end LuaCompiler
