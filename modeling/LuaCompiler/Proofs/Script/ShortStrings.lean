import LuaCompiler.Proofs.Parser.LineEndings
import LuaCompiler.Proofs.Script.Values

/-!
# Short strings

The value of a short string, escape by escape, and the value of the literal that is written for it.
Three escapes are not kept: a carriage return behind a backslash is copied, and ends the literal
early; of a line feed and a carriage return behind a backslash the return is kept as a character; and
the escape that drops blanks also drops blanks that are none in Lua.

* `StringLiteral.shortEscape?`: what an escape stands for in Lua.
* `StringLiteral.shortValue?`: **the value of a short string**, if its escapes are valid.
* `StringLiteral.isKept`: whether an escape is none of the three.
* `StringLiteral.written_kept`: an escape that is kept is written with its value.
* `StringLiteral.shortString_value`: **a short string keeps its value** if its escapes are kept, and
  is no literal at all if one of them is a carriage return.
-/

namespace LuaCompiler

namespace StringLiteral

open Lexeme (isSpace)
open Script (spelledUnits? literalUnits? fixedCode? bracedCode?)
open Text (codeUnits)

/-! ## The value in Lua -/

/-- Letters and signs that stand for a character behind a backslash. -/
def letterEscapes : List (Char × Nat) :=
  [('a', 7), ('b', 8), ('t', 9), ('n', 10), ('v', 11), ('f', 12), ('r', 13), ('"', 34),
    ('\x27', 39), ('\\', 92)]

/-- **What an escape stands for**, behind its backslash, and how many characters are read; none if it
is not valid. The two characters that end a line are one line break in either order. -/
def shortEscape? : List Char → Option (List Nat × Nat)
  | 'x' :: cs => (fixedCode? 2 cs).map fun (units, width) => (units, width + 1)
  | 'u' :: '\x7b' :: cs => (bracedCode? cs).map fun (units, width) => (units, width + 2)
  | 'z' :: cs => some ([], (cs.takeWhile isSpace).length + 1)
  | '\n' :: '\r' :: _ => some ([10], 2)
  | '\r' :: '\n' :: _ => some ([10], 2)
  | '\n' :: _ => some ([10], 1)
  | '\r' :: _ => some ([10], 1)
  | text =>
    let digits := (text.take 3).takeWhile Char.isDigit
    if digits.isEmpty then
      (text.head?.bind (List.lookup · letterEscapes)).map fun unit => ([unit], 1)
    else if Numeral.natOf digits ≤ 255 then some ([Numeral.natOf digits], digits.length)
    else none

/-- The code units of the inside of a short string, if its escapes are valid; the first `skip`
characters are read already. -/
def shortUnits? : Nat → List Char → Option (List Nat)
  | _, [] => some []
  | skip + 1, _ :: cs => shortUnits? skip cs
  | 0, c :: cs =>
    if c = '\\' then
      match shortEscape? cs with
      | some (units, width) => (shortUnits? width cs).map (units ++ ·)
      | none => none
    else (shortUnits? 0 cs).map (codeUnits c.toNat ++ ·)

/-- The texts behind the backslashes that open the escapes of a short string. -/
def escapesFrom : Nat → List Char → List (List Char)
  | _, [] => []
  | skip + 1, _ :: cs => escapesFrom skip cs
  | 0, c :: cs =>
    if c = '\\' then cs :: escapesFrom (((shortEscape? cs).map Prod.snd).getD 1) cs
    else escapesFrom 0 cs

/-- What stands between the quotes of a short string. -/
def inside (raw : String) : List Char := raw.toList.tail.dropLast

/-- **The value of a short string**, if its escapes are valid: a character stands for itself. -/
def shortValue? (raw : String) : Option (List Nat) := shortUnits? 0 (inside raw)

/-- The texts behind the backslashes that open the escapes of a short string. -/
def escapes (raw : String) : List (List Char) := escapesFrom 0 (inside raw)

/-- Whether an escape is kept: a line break is a line feed alone, and no other blank stands behind
blanks that are dropped. -/
def isKept : List Char → Bool
  | '\r' :: _ => false
  | '\n' :: '\r' :: _ => false
  | 'z' :: cs => !(cs.dropWhile isSpace).head?.any Text.isBlank
  | _ => true

/-! ## Characters -/

variable {c : Char} {cs : List Char} {units : List Nat} {width : Nat}

/-- A character outside an escape. -/
theorem spells_plainStep (h : c ≠ '\\') :
    Script.Spells .string (plainStep c).1 (codeUnits c.toNat) ∧ (plainStep c).2 = .plain := by
  have hreading := plainStep_reading c
  rw [if_neg h] at hreading
  refine ⟨?_, hreading⟩
  by_cases hquote : c = '"'
  · subst hquote
    exact Script.spells_escape (by decide) fun v => rfl
  by_cases hline : c = '\n'
  · subst hline
    exact Script.spells_escape (by decide) fun v => rfl
  by_cases hret : c = '\r'
  · subst hret
    exact Script.spells_escape (by decide) fun v => rfl
  · rw [plainStep, if_neg hquote, if_neg h, if_neg hline, if_neg hret]
    exact Script.spells_char hquote h fun v => if_neg (not_or.2 ⟨hline, hret⟩)

theorem quotedFrom_plain (h : c ≠ '\\') (cs : List Char) :
    quotedFrom .plain (c :: cs) = (plainStep c).1 ++ quotedFrom .plain cs := by
  rw [quotedFrom, step, ← (spells_plainStep h).2]

/-- Characters that are written as themselves. -/
theorem quotedFrom_self {t : List Char} (h : ∀ c ∈ t, plainStep c = ([c], .plain))
    (rest : List Char) : quotedFrom .plain (t ++ rest) = t ++ quotedFrom .plain rest := by
  induction t with
  | nil => rfl
  | cons c t ih =>
    rw [List.cons_append, quotedFrom, step, h c (List.mem_cons_self ..)]
    dsimp only
    rw [ih fun d hd => h d (List.mem_cons_of_mem _ hd)]
    rfl

theorem plainStep_hexDigit (h : Numeral.isHexDigit c = true) : plainStep c = ([c], .plain) := by
  have hne : c ≠ '"' ∧ c ≠ '\\' ∧ c ≠ '\n' ∧ c ≠ '\r' := by
    refine ⟨?_, ?_, ?_, ?_⟩ <;> (rintro rfl; exact absurd h (by decide))
  rw [plainStep, if_neg hne.1, if_neg hne.2.1, if_neg hne.2.2.1, if_neg hne.2.2.2]

theorem quotedFrom_blanks (cs : List Char) :
    quotedFrom .blanks cs = quotedFrom .plain (cs.dropWhile Text.isBlank) := by
  induction cs with
  | nil => rfl
  | cons c cs ih =>
    by_cases hblank : Text.isBlank c = true
    · rw [quotedFrom, step, if_pos hblank, List.dropWhile_cons_of_pos hblank]
      exact ih
    · rw [quotedFrom, step, if_neg hblank, List.dropWhile_cons_of_neg hblank]
      rfl

/-! ## Escapes -/

/-- Escapes are opened where a string is read in Lua. -/
theorem quotedFrom_slash (cs : List Char) : quotedFrom .plain ('\\' :: cs) = quotedFrom .escaped cs :=
  rfl

/-- A decimal escape ends behind its third digit, or before a character that is no digit. -/
theorem quotedFrom_digits {digits rest : List Char} {count value : Nat}
    (hdigits : ∀ c ∈ digits, c.isDigit = true) (hcount : count + digits.length ≤ 3)
    (hrest : count + digits.length = 3 ∨ rest.head?.any Char.isDigit = false) :
    quotedFrom (.digits count value) (digits ++ rest) =
      unitEscape (digits.foldl (fun n c => n * 10 + (c.toNat - '0'.toNat)) value) ++
        quotedFrom .plain rest := by
  induction digits generalizing count value with
  | nil =>
    cases rest with
    | nil => simp [quotedFrom, finish]
    | cons c rest =>
      -- three digits were read, or the next character is none
      have hstop : ¬ (decide (count < 3) && c.isDigit) = true := by
        rcases hrest with hthree | hother
        · simp [show count = 3 from hthree]
        · simp [show c.isDigit = false from hother]
      rw [List.nil_append, quotedFrom, step, if_neg hstop, List.foldl_nil]
      dsimp only
      rw [List.append_assoc]
      rfl
  | cons c digits ih =>
    rw [List.length_cons] at hcount hrest
    have hgo : (decide (count < 3) && c.isDigit) = true := by
      rw [hdigits c (List.mem_cons_self ..)]
      simp
      omega
    rw [List.cons_append, quotedFrom, step, if_pos hgo, List.foldl_cons]
    exact ih (fun d hd => hdigits d (List.mem_cons_of_mem _ hd)) (by omega)
      (hrest.imp_left (by omega))

theorem fixedCode_hexPair : ∀ n ≤ 255, ∀ v, fixedCode? 2 (hexPair n ++ v) = some ([n], 2) := by
  have hpairs : ∀ n < 256,
      (hexPair n).all Numeral.isHexDigit = true ∧ Numeral.hexNumber (hexPair n) = n := by
    decide +kernel
  intro n hn v
  obtain ⟨hall, hvalue⟩ := hpairs n (by omega)
  have htake : (hexPair n ++ v).take 2 = hexPair n := rfl
  rw [fixedCode?, htake, if_pos ⟨rfl, hall⟩, hvalue]

/-- A code unit that is written by number. -/
theorem spells_unitEscape {n : Nat} (h : n ≤ 255) : Script.Spells .string (unitEscape n) [n] := by
  refine Script.spells_escape (by decide) fun v => ?_
  have hpair := fixedCode_hexPair n h v
  rw [Nat.min_eq_left h, List.cons_append, Script.escape?, hpair]
  rfl

/-- The digits of a decimal escape, and what stands behind them. -/
theorem digits_split (text : List Char) :
    ∃ rest, text = (text.take 3).takeWhile Char.isDigit ++ rest ∧
      (((text.take 3).takeWhile Char.isDigit).length = 3 ∨ rest.head?.any Char.isDigit = false) := by
  have hsplit := List.takeWhile_append_dropWhile (p := Char.isDigit) (l := text.take 3)
  cases hmore : (text.take 3).dropWhile Char.isDigit with
  | nil =>
    rw [hmore, List.append_nil] at hsplit
    rw [hsplit]
    refine ⟨text.drop 3, (List.take_append_drop 3 text).symm, ?_⟩
    by_cases hlong : 3 ≤ text.length
    · exact .inl (List.length_take_of_le hlong)
    · rw [List.drop_of_length_le (by omega)]
      exact .inr rfl
  | cons d more =>
    rw [hmore] at hsplit
    refine ⟨d :: more ++ text.drop 3, ?_, .inr ?_⟩
    · rw [← List.append_assoc, hsplit, List.take_append_drop]
    · simpa [hmore] using List.head?_dropWhile_not Char.isDigit (text.take 3)

theorem spells_letter {unit : Nat} (h : letterEscapes.lookup c = some unit) :
    Script.Spells .string (escapedStep c).1 [unit] ∧ (escapedStep c).2 = .plain := by
  obtain ⟨front, back, hlist, -⟩ := List.lookup_eq_some_iff.1 h
  have hmem : (c, unit) ∈ letterEscapes := by simp [hlist]
  simp only [letterEscapes, List.mem_cons, Prod.mk.injEq, List.not_mem_nil, or_false] at hmem
  rcases hmem with ⟨rfl, rfl⟩ | ⟨rfl, rfl⟩ | ⟨rfl, rfl⟩ | ⟨rfl, rfl⟩ | ⟨rfl, rfl⟩ | ⟨rfl, rfl⟩ |
    ⟨rfl, rfl⟩ | ⟨rfl, rfl⟩ | ⟨rfl, rfl⟩ | ⟨rfl, rfl⟩ <;> refine ⟨?_, rfl⟩
  · exact spells_unitEscape (by decide)
  case' inr.inr.inr.inr.inr.inr.inr.inr.inl =>
    exact Script.spells_char (by decide) (by decide) fun v => rfl
  all_goals exact Script.spells_escape (by decide) fun v => rfl

/-- An escape of a string is written as a piece of a literal with the same value, and the string goes
on behind the escape. -/
def Written (cs : List Char) (units : List Nat) (width : Nat) : Prop :=
  ∃ piece, Script.Spells .string piece units ∧
    quotedFrom .escaped cs = piece ++ quotedFrom .plain (cs.drop width)

/-- Two hexadecimal digits. -/
theorem written_fixed (h : fixedCode? 2 cs = some (units, width)) :
    Written ('x' :: cs) units (width + 1) := by
  unfold fixedCode? at h
  dsimp only at h
  split at h
  next hdigits =>
    obtain ⟨rfl, rfl⟩ := Prod.mk.inj (Option.some.inj h)
    have hself : ∀ c ∈ cs.take 2, plainStep c = ([c], .plain) :=
      fun c hc => plainStep_hexDigit (List.all_eq_true.1 hdigits.2 c hc)
    refine ⟨'\\' :: 'x' :: cs.take 2, Script.spells_escape (by decide) fun v => ?_, ?_⟩
    · have htake : (cs.take 2 ++ v).take 2 = cs.take 2 := List.take_left' hdigits.1
      rw [List.cons_append, Script.escape?, fixedCode?, htake, if_pos hdigits, Option.map_some,
        List.length_cons, hdigits.1]
    · calc quotedFrom .escaped ('x' :: cs)
          = ['\\', 'x'] ++ quotedFrom .plain (cs.take 2 ++ cs.drop 2) := by
            rw [List.take_append_drop]
            rfl
        _ = '\\' :: 'x' :: cs.take 2 ++ quotedFrom .plain (('x' :: cs).drop (2 + 1)) := by
            rw [quotedFrom_self hself]
            rfl
  · cases h

/-- A code point in braces, in front of any text. -/
theorem bracedCode_append {digits : List Char} (hhex : ∀ c ∈ digits, Numeral.isHexDigit c = true)
    (hne : digits ≠ []) (hle : Numeral.hexNumber digits ≤ Text.lastCode) (v : List Char) :
    bracedCode? (digits ++ '\x7d' :: v) =
      some (codeUnits (Numeral.hexNumber digits), digits.length + 1) := by
  have hrun : (digits ++ '\x7d' :: v).takeWhile Numeral.isHexDigit = digits := by
    rw [List.takeWhile_append_of_pos hhex, List.takeWhile_cons_of_neg (by decide), List.append_nil]
  have hvalid : ¬ (digits.isEmpty || Text.lastCode < Numeral.hexNumber digits) = true := by
    simp [hne, hle]
  rw [bracedCode?, hrun, if_neg hvalid, List.drop_left]
  rfl

/-- A code point in braces. -/
theorem written_braced (h : bracedCode? cs = some (units, width)) :
    Written ('u' :: '\x7b' :: cs) units (width + 2) := by
  have hhex : ∀ c ∈ cs.takeWhile Numeral.isHexDigit, Numeral.isHexDigit c = true :=
    fun c hc => List.mem_takeWhile_imp hc
  have hsplit : cs = cs.takeWhile Numeral.isHexDigit ++
      cs.drop (cs.takeWhile Numeral.isHexDigit).length := by
    rw [Lexeme.drop_takeWhile, List.takeWhile_append_dropWhile]
  unfold bracedCode? at h
  dsimp only at h
  generalize cs.takeWhile Numeral.isHexDigit = digits at h hhex hsplit
  split at h
  · cases h
  next hdigits =>
    simp only [Bool.or_eq_true, List.isEmpty_iff, decide_eq_true_eq, not_or, Nat.not_lt] at hdigits
    split at h
    next rest hrest =>
      obtain ⟨rfl, rfl⟩ := Prod.mk.inj (Option.some.inj h)
      rw [hrest] at hsplit
      -- in the literal the escape is spelled as in the source
      have hself : ∀ c ∈ '\x7b' :: (digits ++ ['\x7d']), plainStep c = ([c], .plain) := by
        intro c hc
        simp only [List.mem_cons, List.mem_append, List.not_mem_nil, or_false] at hc
        rcases hc with rfl | hdigit | rfl
        · rfl
        · exact plainStep_hexDigit (hhex c hdigit)
        · rfl
      refine ⟨'\\' :: 'u' :: '\x7b' :: (digits ++ ['\x7d']),
        Script.spells_escape (by decide) fun v => ?_, ?_⟩
      · rw [List.cons_append, List.cons_append, List.append_assoc, List.singleton_append,
          Script.escape?, bracedCode_append hhex hdigits.1 hdigits.2, Option.map_some]
        simp
      · have hrest : cs.drop (digits.length + 1) = rest := by
          rw [hsplit, List.append_cons, List.drop_left' (by simp)]
        calc quotedFrom .escaped ('u' :: '\x7b' :: cs)
            = ['\\', 'u'] ++ quotedFrom .plain ('\x7b' :: cs) := rfl
          _ = ['\\', 'u'] ++ quotedFrom .plain ('\x7b' :: (digits ++ ['\x7d']) ++ rest) := by
              rw [hsplit, List.append_cons]
              rfl
          _ = '\\' :: 'u' :: '\x7b' :: (digits ++ ['\x7d']) ++
                quotedFrom .plain (('u' :: '\x7b' :: cs).drop (digits.length + 1 + 2)) := by
              rw [quotedFrom_self hself, List.drop_succ_cons, List.drop_succ_cons, hrest]
              rfl
    · cases h

theorem escapedStep_digit (hc : c.isDigit = true) :
    escapedStep c = ([], .digits 1 (c.toNat - '0'.toNat)) := by
  have hne {d : Char} (hd : d.isDigit = false) : c ≠ d := by
    rintro rfl
    rw [hd] at hc
    cases hc
  have hkept : ['n', 't', 'r', 'b', 'f', 'v', '\\', '"'].contains c = false := by
    simp [hne]
  rw [escapedStep, if_neg (hne rfl), hkept, if_neg (by decide), if_neg (hne rfl), if_neg (hne rfl),
    if_neg (not_or.2 ⟨hne rfl, hne rfl⟩), if_pos hc]

/-- A decimal escape. -/
theorem written_decimal (hc : c.isDigit = true)
    (hle : Numeral.natOf (((c :: cs).take 3).takeWhile Char.isDigit) ≤ 255) :
    Written (c :: cs) [Numeral.natOf (((c :: cs).take 3).takeWhile Char.isDigit)]
      (((c :: cs).take 3).takeWhile Char.isDigit).length := by
  obtain ⟨rest, hsplit, hrest⟩ := digits_split (c :: cs)
  have hdigits : ((c :: cs).take 3).takeWhile Char.isDigit =
      c :: (cs.take 2).takeWhile Char.isDigit := by
    rw [List.take_succ_cons, List.takeWhile_cons_of_pos hc]
  have hall : ∀ d ∈ (cs.take 2).takeWhile Char.isDigit, d.isDigit = true :=
    fun d hd => List.mem_takeWhile_imp hd
  have hlength : ((cs.take 2).takeWhile Char.isDigit).length ≤ 2 :=
    ((List.takeWhile_prefix _).length_le).trans (List.length_take_le ..)
  rw [hdigits] at hle hsplit hrest ⊢
  generalize (cs.take 2).takeWhile Char.isDigit = more at *
  rw [List.cons_append, List.cons.injEq] at hsplit
  obtain ⟨-, rfl⟩ := hsplit
  refine ⟨unitEscape (Numeral.natOf (c :: more)), spells_unitEscape hle, ?_⟩
  rw [quotedFrom, step, escapedStep_digit hc, List.length_cons, List.drop_succ_cons, List.drop_left]
  dsimp only
  rw [List.nil_append, quotedFrom_digits hall (by omega) (hrest.imp_left (by simp; omega))]
  simp [Numeral.natOf]

/-- More blanks are dropped than in Lua. -/
theorem dropWhile_isBlank (cs : List Char) :
    cs.dropWhile Text.isBlank = (cs.dropWhile isSpace).dropWhile Text.isBlank := by
  have hspace {c : Char} (h : isSpace c = true) : Text.isBlank c = true := by
    simp only [isSpace, List.contains_eq_mem, List.mem_cons, List.not_mem_nil, or_false,
      decide_eq_true_eq] at h
    rcases h with rfl | rfl | rfl | rfl | rfl | rfl <;> decide
  have hall : ∀ c ∈ cs.takeWhile isSpace, Text.isBlank c = true :=
    fun c hc => hspace (List.mem_takeWhile_imp hc)
  nth_rewrite 1 [← List.takeWhile_append_dropWhile (p := isSpace) (l := cs)]
  rw [List.dropWhile_append_of_pos hall]

/-- Blanks that are dropped, if no other blank stands behind them. -/
theorem written_blanks (hkept : isKept ('z' :: cs) = true) :
    Written ('z' :: cs) [] ((cs.takeWhile isSpace).length + 1) := by
  have hdrop : cs.dropWhile Text.isBlank = cs.dropWhile isSpace := by
    rw [dropWhile_isBlank]
    cases hrest : cs.dropWhile isSpace with
    | nil => rfl
    | cons c rest =>
      rw [isKept, hrest] at hkept
      exact List.dropWhile_cons_of_neg (by simpa using hkept)
  refine ⟨[], Script.spells_nil, ?_⟩
  rw [List.drop_succ_cons, Lexeme.drop_takeWhile, ← hdrop]
  exact quotedFrom_blanks cs

/-- **An escape that is kept** is written with its value. -/
theorem written_kept (h : shortEscape? cs = some (units, width)) (hkept : isKept cs = true) :
    Written cs units width := by
  unfold shortEscape? at h
  split at h
  next cs =>
    obtain ⟨⟨units, width⟩, hcode, heq⟩ := Option.map_eq_some_iff.1 h
    cases heq
    exact written_fixed hcode
  next cs =>
    obtain ⟨⟨units, width⟩, hcode, heq⟩ := Option.map_eq_some_iff.1 h
    cases heq
    exact written_braced hcode
  next cs =>
    cases h
    exact written_blanks hkept
  · cases hkept
  · cases hkept
  next cs _ =>
    cases h
    exact ⟨['\\', 'n'], Script.spells_escape (by decide) fun v => rfl, rfl⟩
  · cases hkept
  next hother =>
    dsimp only at h
    split at h
    -- no digits: a letter or a sign of the table
    next hnone =>
      obtain ⟨unit, hunit, heq⟩ := Option.map_eq_some_iff.1 h
      obtain ⟨c, hhead, hlookup⟩ := Option.bind_eq_some_iff.1 hunit
      obtain ⟨tail, rfl⟩ := List.head?_eq_some_iff.1 hhead
      cases heq
      obtain ⟨hspells, hreading⟩ := spells_letter hlookup
      refine ⟨_, hspells, ?_⟩
      rw [quotedFrom, step, ← hreading]
      rfl
    -- up to three decimal digits
    next hsome =>
      split at h
      next hle =>
        cases h
        cases cs with
        | nil => exact absurd rfl hsome
        | cons c cs =>
          have hc : c.isDigit = true := by
            by_contra hc
            rw [List.take_succ_cons, List.takeWhile_cons_of_neg hc] at hsome
            exact hsome rfl
          exact written_decimal hc hle
      · cases h

/-! ## Strings -/

variable {skip : Nat} {t : List Char}

theorem escapesFrom_slash (h : shortEscape? cs = some (units, width)) :
    escapesFrom 0 ('\\' :: cs) = cs :: escapesFrom width cs := by
  rw [escapesFrom, if_pos rfl, h]
  rfl

/-- The inside of a short string whose escapes are kept. -/
theorem spells_quotedFrom (h : shortUnits? skip t = some units)
    (hkept : ∀ text ∈ escapesFrom skip t, isKept text = true) :
    Script.Spells .string (quotedFrom .plain (t.drop skip)) units := by
  fun_induction shortUnits? skip t generalizing units with
  | case1 skip =>
    cases h
    rw [List.drop_nil]
    exact Script.spells_nil
  | case2 skip c cs ih => exact ih h hkept
  | case3 cs escaped width hescape ih =>
    obtain ⟨more, hmore, rfl⟩ := Option.map_eq_some_iff.1 h
    rw [escapesFrom_slash hescape, List.forall_mem_cons] at hkept
    obtain ⟨piece, hpiece, hwritten⟩ := written_kept hescape hkept.1
    rw [List.drop_zero, quotedFrom_slash, hwritten]
    exact hpiece.append (ih hmore hkept.2)
  | case4 => cases h
  | case5 c cs hslash ih =>
    obtain ⟨more, hmore, rfl⟩ := Option.map_eq_some_iff.1 h
    rw [escapesFrom, if_neg hslash] at hkept
    rw [List.drop_zero, quotedFrom_plain hslash]
    exact (spells_plainStep hslash).1.append (ih hmore hkept)

/-- Characters that are no escapes keep a literal as it is: no literal stays none. -/
theorem spelledUnits_plain {t rest v : List Char} (hplain : '\\' ∉ t)
    (h : spelledUnits? .string 0 (quotedFrom .plain (t ++ rest) ++ v) = none) :
    spelledUnits? .string 0 (quotedFrom .plain rest ++ v) = none := by
  induction t with
  | nil => exact h
  | cons c t ih =>
    rw [List.mem_cons, not_or] at hplain
    have hslash : c ≠ '\\' := Ne.symm hplain.1
    rw [List.cons_append, quotedFrom_plain hslash, List.append_assoc, (spells_plainStep hslash).1,
      Option.map_eq_none_iff] at h
    exact ih hplain.2 h

/-- An escape that is not a carriage return goes on to no literal, if what stands behind it is none.
-/
theorem spelledUnits_escaped {v : List Char} (h : shortEscape? cs = some (units, width))
    (hreturn : cs.head? ≠ some '\r')
    (hnone : spelledUnits? .string 0 (quotedFrom .plain (cs.drop width) ++ v) = none) :
    spelledUnits? .string 0 (quotedFrom .escaped cs ++ v) = none := by
  by_cases hkept : isKept cs = true
  · obtain ⟨piece, hpiece, hwritten⟩ := written_kept h hkept
    rw [hwritten, List.append_assoc, hpiece, hnone, Option.map_none]
  · unfold isKept at hkept
    split at hkept
    · exact absurd rfl hreturn
    next cs =>
      -- the return is written as an escape of its own
      cases h
      have hline : Script.Spells .string ['\\', 'n', '\\', 'r'] [10, 13] :=
        (Script.spells_escape (t := ['n']) (by decide) fun v => rfl).append
          (Script.spells_escape (t := ['r']) (by decide) fun v => rfl)
      have hwritten : quotedFrom .escaped ('\n' :: '\r' :: cs) =
          ['\\', 'n', '\\', 'r'] ++ quotedFrom .plain cs := rfl
      rw [hwritten, List.append_assoc, hline]
      exact Option.map_eq_none_iff.2 hnone
    next cs =>
      -- blanks that are dropped are no escapes
      cases h
      rw [List.drop_succ_cons, Lexeme.drop_takeWhile,
        ← List.takeWhile_append_dropWhile (p := Text.isBlank) (l := cs.dropWhile isSpace),
        ← dropWhile_isBlank] at hnone
      have hslash : '\\' ∉ (cs.dropWhile isSpace).takeWhile Text.isBlank :=
        fun hmem => absurd (List.mem_takeWhile_imp hmem) (by decide)
      have hbehind := spelledUnits_plain hslash hnone
      rwa [← quotedFrom_blanks] at hbehind
    · contradiction

/-- The inside of a short string that escapes a carriage return. -/
theorem spelledUnits_return {v : List Char} (h : shortUnits? skip t = some units)
    (hreturn : ∃ text ∈ escapesFrom skip t, text.head? = some '\r') :
    spelledUnits? .string 0 (quotedFrom .plain (t.drop skip) ++ v) = none := by
  fun_induction shortUnits? skip t generalizing units with
  | case1 skip =>
    obtain ⟨text, hmem, -⟩ := hreturn
    rw [escapesFrom] at hmem
    cases hmem
  | case2 skip c cs ih => exact ih h hreturn
  | case3 cs escaped width hescape ih =>
    obtain ⟨more, hmore, -⟩ := Option.map_eq_some_iff.1 h
    rw [escapesFrom_slash hescape] at hreturn
    simp only [List.mem_cons, exists_eq_or_imp] at hreturn
    rw [List.drop_zero, quotedFrom_slash]
    -- the first escape of a return ends the reading; behind any other it goes on
    by_cases hhead : cs.head? = some '\r'
    · obtain ⟨tail, rfl⟩ := List.head?_eq_some_iff.1 hhead
      rfl
    · exact spelledUnits_escaped hescape hhead (ih hmore (hreturn.resolve_left hhead))
  | case4 => cases h
  | case5 c cs hslash ih =>
    obtain ⟨more, hmore, -⟩ := Option.map_eq_some_iff.1 h
    rw [escapesFrom, if_neg hslash] at hreturn
    have hnone := ih hmore hreturn
    rw [List.drop_zero] at hnone ⊢
    rw [quotedFrom_plain hslash, List.append_assoc, (spells_plainStep hslash).1, hnone,
      Option.map_none]

/-- **Short strings keep their values** where their escapes are kept: a short string that the scanner
takes and whose escapes are valid is written as one literal with its value, if no escape is a
carriage return, a line feed with a return behind it, or a drop of blanks with a blank behind it that
is none in Lua. With an escaped carriage return the text that is written is no literal at all. -/
theorem shortString_value {raw : String} (hspelled : (Token.Kind.string raw).isSpelled = true)
    (hshort : isLong raw.toList = false) (hvalue : shortValue? raw = some units) :
    ((∀ text ∈ escapes raw, isKept text = true) → literalUnits? (toScript raw) = some units) ∧
    ((∃ text ∈ escapes raw, text.head? = some '\r') → literalUnits? (toScript raw) = none) := by
  obtain ⟨quote, inner, hquote, hraw, -⟩ := exists_quoted hspelled hshort
  have hinside : inside raw = inner := by
    rw [inside, hraw, List.tail_cons, List.dropLast_concat]
  rw [shortValue?, hinside] at hvalue
  rw [escapes, hinside, toScript_quoted hquote hraw]
  constructor
  · intro hkept
    exact (spells_quotedFrom hvalue hkept).whole
  · intro hreturn
    rw [literalUnits?, String.toList_ofList]
    exact spelledUnits_return hvalue hreturn

/-- Every kind of escape that is kept, in single quotes. -/
theorem shortString_value_escapes :
    let raw := "'\\a\\065\\6b\\x4a\\u\x7b1F600\x7d\\z \n\t\\'\"\\\nz'"
    ((Token.Kind.string raw).isSpelled = true ∧ isLong raw.toList = false) ∧
    toScript raw = "\"\\x07\\x41\\x06b\\x4a\\u\x7b1F600\x7d'\\\"\\nz\"" ∧
    literalUnits? (toScript raw) = some [7, 65, 6, 98, 74, 0xd83d, 0xde00, 39, 34, 10, 122] := by
  refine ⟨by decide +kernel, by decide +kernel, ?_⟩
  exact (shortString_value (by decide +kernel) (by decide +kernel) (by decide +kernel)).1
    (by decide +kernel)

/-- Of two characters that end a line behind a backslash the return is kept as a character, and a
blank that is none in Lua is dropped with the blanks before it. -/
example : shortValue? "\"\\\n\r\"" = some [10] ∧
    literalUnits? (toScript "\"\\\n\r\"") = some [10, 13] ∧
    shortValue? "\"a\\z \u00a0b\"" = some [97, 0xa0, 98] ∧
    literalUnits? (toScript "\"a\\z \u00a0b\"") = some [97, 98] := by
  decide +kernel

end StringLiteral

end LuaCompiler
