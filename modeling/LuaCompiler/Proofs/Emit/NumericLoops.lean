import LuaCompiler.Compile
import LuaCompiler.Proofs.Emit.Introductions
import LuaCompiler.Proofs.Emit.Truth
import LuaCompiler.Proofs.Output.Declarations
import LuaCompiler.Proofs.Script.CountingLoop

/-!
# Numeric loops

A numeric loop between whole numbers is written as a counting loop. A loop that starts at one is
started at zero and leaves its bound out: going up it goes round as often as before, but going down
it stops two rounds' distance short.

* `WholeLiteral e n`: an expression is a whole number in digits, with or without a minus, that Lua
  does not wrap.
* `isNegative_iff`, `isNumber_one_iff`: the sign of a step and the start at one are told right.
* `numericLoop_rounds`: **how often the loop for a numeric loop goes round**.
-/

namespace LuaCompiler.Emit

open Script (Consists Piece CountingLoop Comparison)
open Script.CountingLoop (IsInteger)

/-! ## Whole numbers in a source -/

/-- A numeral of digits alone, without a spare zero in front, for a number that Lua does not wrap. -/
def IsWhole (e : Expr) (n : Nat) : Prop :=
  ∃ value raw, e.kind = .number value raw ∧ (Token.Kind.number value raw).isSpelled = true ∧
    Numeral.whole? raw.toList = some n ∧ Numeral.luaInteger? raw.toList = some (n : Int) ∧
      Script.hasSpareZero (raw.toList.takeWhile Char.isDigit) = false

/-- **A whole number in digits**, with or without a minus. -/
inductive WholeLiteral : Expr → Int → Prop
  | plain {e n} (h : IsWhole e n) : WholeLiteral e n
  | minus {id span e n} (h : IsWhole e n) : WholeLiteral ⟨id, span, .unary .neg e⟩ (-n)

/-- The step of a loop: a whole number in digits, or one if it is left out. -/
def WholeStep : Option Expr → Int → Prop
  | none, s => s = 1
  | some e, s => WholeLiteral e s

section Signs

variable {e : Expr} {step : Option Expr} {n : Nat} {a s : Int}

theorem IsWhole.isSized (h : IsWhole e n) :
    ∃ value raw, e.kind = .number value raw ∧ value.isSized n = true := by
  obtain ⟨value, raw, hkind, hspelled, hwhole, -⟩ := h
  exact ⟨value, raw, hkind,
    Numeral.isSized_of_value? (Numeral.value?_of_isSpelled hspelled) hwhole⟩

/-- **The start at one is told right**, though numbers are rounded. -/
theorem isNumber_one_iff (h : WholeLiteral e a) : e.isNumber .one = decide (a = 1) := by
  cases h with
  | @plain e n h =>
    obtain ⟨value, raw, hkind, hsized⟩ := h.isSized
    have hone := Binary64.Magnitude.eq_one_iff hsized
    rw [Expr.isNumber, hkind, Bool.eq_iff_iff]
    simp only [beq_iff_eq, decide_eq_true_eq, hone]
    omega
  | @minus id span e n h =>
    have hne : ¬ -(n : Int) = 1 := by omega
    simp [Expr.isNumber, hne]

/-- **The sign of a step is told right.** -/
theorem isNegative_iff (h : WholeLiteral e s) : isNegative e = decide (s < 0) := by
  cases h with
  | @plain e n h =>
    obtain ⟨value, raw, hkind, -⟩ := h
    have hup : ¬ (n : Int) < 0 := by omega
    simp [isNegative, hkind, hup]
  | @minus id span e n h =>
    obtain ⟨value, raw, hkind, hsized⟩ := h.isSized
    obtain ⟨id', span', kind⟩ := e
    obtain rfl : kind = .number value raw := hkind
    have hpositive := Binary64.Magnitude.isPositive_iff hsized
    rw [isNegative, Bool.eq_iff_iff, hpositive, decide_eq_true_eq]
    omega

theorem any_isNegative_iff (h : WholeStep step s) : step.any isNegative = decide (s < 0) := by
  cases step with
  | none =>
    obtain rfl : s = 1 := h
    rfl
  | some e => exact isNegative_iff h

end Signs

/-! ## Texts of whole numbers -/

section Texts

variable {ctx : Context} {e : Expr} {step : Option Expr} {n : Nat} {a s : Int} {t : String}
  {name : String} {raw : List Char} {ps qs rs : List Piece}

/-- A word is one piece. -/
theorem consists_word (h : ∀ c ∈ t.toList, isWordChar c = true) (hempty : t ≠ "") :
    Consists t [.word t.toList] := by
  have hreads := Script.reads_word h
  have hlist : ¬ t.toList.isEmpty = true := by
    rw [List.isEmpty_iff]
    exact fun hnil => hempty (String.toList_inj.1 hnil)
  rw [Script.Scanner.ofWord, if_neg hlist] at hreads
  exact hreads.consists (by simp)

/-- A whole numeral is a word. -/
theorem word_of_whole? {raw : String} (h : Numeral.whole? raw.toList = some n) :
    (∀ c ∈ raw.toList, isWordChar c = true) ∧ raw ≠ "" := by
  have hdigit {c : Char} (hc : c.isDigit = true) : isWordChar c = true := by
    simp [isWordChar, Char.isAlphanum, hc]
  refine ⟨?_, by rintro rfl; cases h⟩
  rcases Numeral.whole?_cases h with ⟨-, -, hdigits, -⟩ | ⟨digits, hhex, -, hdigits, -⟩
  · exact fun c hc => hdigit (hdigits c hc)
  · have hhexes : ∀ c ∈ digits, isWordChar c = true := fun c hc => by
      simp [isWordChar, isAlphanum_of_isHexDigit (hdigits c hc)]
    unfold Numeral.hexDigits? at hhex
    split at hhex
    next heq =>
      obtain rfl := Option.some.inj hhex
      rw [heq]
      exact List.forall_mem_cons.2 ⟨by decide, List.forall_mem_cons.2 ⟨by decide, hhexes⟩⟩
    next heq =>
      obtain rfl := Option.some.inj hhex
      rw [heq]
      exact List.forall_mem_cons.2 ⟨by decide, List.forall_mem_cons.2 ⟨by decide, hhexes⟩⟩
    · cases hhex

/-- A whole numeral is written as one word, its own text. -/
theorem IsWhole.produces (h : IsWhole e n) (ctx : Context) (role : Role) :
    ∃ raw, CountingLoop.whole? raw = some (n : Int) ∧
      Produces (expression ctx role e) (· = [.word raw]) := by
  obtain ⟨value, raw, hkind, hspelled, hwhole, -, hzero⟩ := h
  obtain ⟨id, span, kind⟩ := e
  obtain rfl : kind = .number value raw := hkind
  refine ⟨raw.toList, CountingLoop.whole?_eq hwhole hzero, ?_⟩
  obtain ⟨hchars, hempty⟩ := word_of_whole? hwhole
  rw [expression]
  refine Produces.around ?_ span
  rw [expressionKind, Script.script_eq_raw (Numeral.isHexFloat_of_whole? hwhole)]
  exact produces_pure ⟨_, rfl, consists_word hchars hempty⟩

/-- A text that starts with a word starts with no minus. -/
theorem startsWith_minus (h : Consists t [.word raw]) : Text.startsWith t "-" = false := by
  by_contra hminus
  rw [Bool.not_eq_false, Text.startsWith, List.isPrefixOf_iff_prefix] at hminus
  obtain ⟨rest, hrest⟩ := hminus
  have hlexemes := h.1.2
  have hstep : Script.Scanner.start.step '-' = (Script.Scanner.start, [.sign '-']) := by decide
  have hlist : t.toList = '-' :: rest := hrest.symm
  rw [hlist, Script.Scanner.run_cons, hstep] at hlexemes
  cases hlexemes

/-- **A whole number in digits is written as what is read as it.** -/
theorem WholeLiteral.produces (h : WholeLiteral e a) (ctx : Context)
    (hmode : ctx.operatorMode = false) (role : Role) : Produces (expression ctx role e) (IsInteger · a) := by
  cases h with
  | @plain e n h =>
    obtain ⟨raw, hraw, hproduces⟩ := h.produces ctx role
    intro p hp
    obtain ⟨⟨_, rfl, hconsists⟩, htidy⟩ := hproduces p hp
    exact ⟨⟨_, .plain hraw, hconsists⟩, htidy⟩
  | @minus id span e n h =>
    obtain ⟨raw, hraw, hproduces⟩ := h.produces ctx .single
    rw [expression]
    refine Produces.around ?_ span
    rw [expressionKind]
    refine hproduces.bind fun t ht => ?_
    obtain ⟨_, rfl, hconsists⟩ := ht
    have hminus : Consists "-" [.sign '-'] := by decide
    rw [unaryText, hmode, startsWith_minus hconsists]
    exact produces_pure ⟨_, .minus hraw, hminus.append hconsists (.inl (by decide))⟩

theorem WholeStep.produces (h : WholeStep step s) (ctx : Context)
    (hmode : ctx.operatorMode = false) : Produces (optional ctx "1" step) (IsInteger · s) := by
  cases step with
  | none =>
    obtain rfl : s = 1 := h
    have hone : CountingLoop.whole? "1".toList = some ((1 : Nat) : Int) := by decide +kernel
    rw [optional]
    exact produces_pure ⟨_, .plain hone, by decide⟩
  | some e =>
    have h : WholeLiteral e s := h
    rw [optional]
    exact h.produces ctx hmode .single

/-! ## Headers -/

/-- The name of a counter is one word, and strict code can bind it. -/
theorem counter_word {counter : Identifier} (hvalid : Name.isValid (ctx.annotations.nameOf counter) = true)
    (hbound : unbindableNames.contains (ctx.annotations.nameOf counter) = false) :
    Script.isBindable (ctx.declaredName counter) = true ∧
      Consists (ctx.declaredName counter) [.word (ctx.declaredName counter).toList] := by
  have hbindable : Script.isBindable (ctx.declaredName counter) = true := by
    rw [Context.declaredName, isBindable_asBinding hvalid, hbound]
    rfl
  have htypeof : ctx.annotations.nameOf counter ≠ "typeof" := by
    intro heq
    rw [heq] at hbound
    cases hbound
  exact ⟨hbindable, consists_word (Name.isWordChar_asBinding hvalid htypeof)
    (isAtomChar_asBinding hvalid).2⟩

/-- **The pieces of a header.** -/
theorem consists_header {first : Expr} (ha : WholeLiteral first a) (hs : WholeStep step s) (b : Int)
    (hname : Consists name [.word name.toList])
    {firstText lastText stepText : String} (hfirst : Consists firstText ps)
    (hlast : Consists lastText qs) (hstep : Consists stepText rs) :
    Consists (forNumericHeader name first step firstText lastText stepText)
      (CountingLoop.header name.toList (CountingLoop.numeric name.toList a b s).comparison
        (if a = 1 then [.word "0".toList] else ps) qs rs) := by
  have hrebased : first.isNumber .one = decide (a = 1) := isNumber_one_iff ha
  have hdown : step.any isNegative = decide (s < 0) := any_isNegative_iff hs
  have hstart : Consists (if a = 1 then "0" else firstText) (if a = 1 then [.word "0".toList] else ps) := by
    split
    · decide
    · exact hfirst
  -- the comparison follows the sign of the step, and is strict for a loop from one
  have hcompare : Consists ((if s < 0 then ">" else "<") ++ if a = 1 then "" else "=")
      (CountingLoop.sign (CountingLoop.numeric name.toList a b s).comparison) := by
    by_cases hone : a = 1
    · by_cases hneg : s < 0
      · simp only [CountingLoop.numeric, hone, hneg, if_true]
        decide
      · simp only [CountingLoop.numeric, hone, hneg, if_true, if_false]
        decide
    · by_cases hneg : s < 0
      · simp only [CountingLoop.numeric, hone, hneg, if_true, if_false]
        decide
      · simp only [CountingLoop.numeric, hone, hneg, if_false]
        decide
  have hlet : Consists "let " [.word "let".toList] := by decide
  have hequals : Consists " = " [.sign '='] := by decide
  have hthen : Consists "; " [.sign ';'] := by decide
  have hblank : Consists " " [] := by decide
  have hplus : Consists " + " [.sign '+'] := by decide
  have hdeclared := (hlet.append hname (.inl (by decide))).join hequals hstart (by decide)
  have hcondition := ((hdeclared.join hthen hname (by decide)).join hblank hcompare
    (by decide)).join hblank hlast (by decide)
  have hmoved := ((hcondition.join hthen hname (by decide)).join hequals hname (by decide)).join
    hplus hstep (by decide)
  have hfor : Consists "for " [.word "for".toList] := by decide
  have hall := hfor.append (consists_parens hmoved) (.inl (by decide))
  unfold forNumericHeader
  simp only [hrebased, hdown, decide_eq_true_eq]
  simpa [CountingLoop.header, Script.Decision.opening, Script.Decision.closing] using hall

/-- **The header of a loop between whole numbers is read as its loop.** -/
theorem ofPieces?_forNumericHeader {first : Expr} {b : Int} (ha : WholeLiteral first a)
    (hs : WholeStep step s) (hbindable : Script.isBindable name = true)
    (hname : Consists name [.word name.toList])
    {firstText lastText stepText : String} (hfirst : Consists firstText ps) (hps : IsInteger ps a)
    (hlast : Consists lastText qs) (hqs : IsInteger qs b) (hstep : Consists stepText rs)
    (hrs : IsInteger rs s) :
    CountingLoop.ofPieces?
      (Script.pieces (forNumericHeader name first step firstText lastText stepText)) =
        some (CountingLoop.numeric name.toList a b s) := by
  have hbindable : Script.isBindable (String.ofList name.toList) = true := by
    rwa [String.ofList_toList]
  have hzero : IsInteger [.word "0".toList] (0 : Nat) := .plain (by decide +kernel)
  have hstart : IsInteger (if a = 1 then [.word "0".toList] else ps) (if a = 1 then 0 else a) := by
    split
    · exact hzero
    · exact hps
  rw [(consists_header ha hs b hname hfirst hlast hstep).pieces]
  exact CountingLoop.ofPieces?_header _ hbindable hstart hqs hrs

end Texts

/-! ## Loops -/

/-- **How often the loop for a numeric loop goes round.** A loop from `a` to `b` by `s`, all of them
whole numbers in digits, is written as a counting loop whose body is in braces. If the body leaves
the counter alone, the loop written ends after as many rounds as Lua's, unless that goes down from
one: then it goes round as often as Lua's would to `b + 2`. -/
theorem numericLoop_rounds (ctx : Context) (id : NodeId) (span : Span) (counter : Identifier)
    (body : List Stmt) {first last : Expr} {step : Option Expr} {a b s : Int}
    (ha : WholeLiteral first a) (hb : WholeLiteral last b) (hs : WholeStep step s) (hne : s ≠ 0)
    (hvalid : Name.isValid (ctx.annotations.nameOf counter) = true)
    (hbound : unbindableNames.contains (ctx.annotations.nameOf counter) = false)
    {p : Progress} (hcomments : ∀ c ∈ p.comments.waiting, c.IsTidy) :
    ∃ header q loop n,
      ((statement ctx id span (.forNumeric counter first last step body)).run p).1 =
        header ++ " " ++ braced (sequence ((statements (ctx.inLoop body) body).run q).1) ∧
      CountingLoop.ofPieces? (Script.pieces header) = some loop ∧
      loop.counter = (ctx.declaredName counter).toList ∧
      loop.GoesRound n ∧
      Rounds (isInside (if a = 1 ∧ s < 0 then b + 2 else b) s) s a n := by
  obtain ⟨n, hrounds⟩ := exists_rounds (CountingLoop.reached a b s) hne a
  obtain ⟨hbindable, hname⟩ := counter_word hvalid hbound
  -- the bounds are lowered in turn, and each one leaves tidy comments to the next
  obtain ⟨⟨ps, hps, hfirst⟩, hp⟩ := ha.produces ctx.asBound rfl .single p hcomments
  obtain ⟨⟨qs, hqs, hlast⟩, hp⟩ := hb.produces ctx.asBound rfl .single _ hp
  obtain ⟨⟨rs, hrs, hstep⟩, hp⟩ := hs.produces ctx.asBound rfl _ hp
  obtain ⟨rest, hrun⟩ := forNumeric_run ctx id span counter first last step body p
  exact ⟨_, rest, CountingLoop.numeric (ctx.declaredName counter).toList a b s, n, hrun,
    ofPieces?_forNumericHeader ha hs hbindable hname hfirst hps hlast hqs hstep hrs, rfl,
    CountingLoop.goesRound_numeric _ a b s hrounds, hrounds⟩

/-- A whole number in digits. -/
def wholeSample (id : NodeId) (n : Nat) (raw : String) : Expr := ⟨id, default, .number (.ofNat n) raw⟩

/-- A negative whole number in digits. -/
def minusSample (id : NodeId) (n : Nat) (raw : String) : Expr :=
  ⟨id, default, .unary .neg (wholeSample (id + 1) n raw)⟩

/-- `for i = 0x10, -3, -4 do end` goes round five times. -/
theorem numericLoop_rounds_countdown :
    let ctx : Context := { options := {}, annotations := {}, fileName := "m", operatorMode := true }
    let p : Progress := { comments := ⟨[], 0⟩, registries := .empty }
    WholeLiteral (wholeSample 1 16 "0x10") 16 ∧ WholeLiteral (minusSample 2 3 "3") (-(3 : Nat)) ∧
      WholeStep (some (minusSample 4 4 "4")) (-(4 : Nat)) ∧ (-(4 : Nat) : Int) ≠ 0 ∧
      ∃ header q loop n,
        ((statement ctx 6 default (.forNumeric ⟨0, "i", default⟩ (wholeSample 1 16 "0x10")
            (minusSample 2 3 "3") (some (minusSample 4 4 "4")) [])).run p).1 =
          header ++ " " ++ braced (sequence ((statements (ctx.inLoop []) []).run q).1) ∧
        CountingLoop.ofPieces? (Script.pieces header) = some loop ∧
        loop.counter = (ctx.declaredName ⟨0, "i", default⟩).toList ∧
        loop.GoesRound n ∧ n = 5 := by
  intro ctx p
  have hfirst : WholeLiteral (wholeSample 1 16 "0x10") 16 :=
    .plain ⟨_, _, rfl, by decide +kernel, by decide, by decide +kernel, by decide⟩
  have hlast : WholeLiteral (minusSample 2 3 "3") (-(3 : Nat)) :=
    .minus ⟨_, _, rfl, by decide +kernel, by decide, by decide +kernel, by decide⟩
  have hstep : WholeStep (some (minusSample 4 4 "4")) (-(4 : Nat)) :=
    WholeLiteral.minus ⟨_, _, rfl, by decide +kernel, by decide, by decide +kernel, by decide⟩
  have hname : ctx.annotations.nameOf ⟨0, "i", default⟩ = "i" := by
    simp [ctx, Scope.Annotations.nameOf, Scope.Annotations.resolve]
  obtain ⟨header, q, loop, n, hrun, hread, hcounter, hround, hlua⟩ :=
    numericLoop_rounds (p := p) ctx 6 default ⟨0, "i", default⟩ [] hfirst hlast hstep (by decide)
      (by rw [hname]; decide) (by rw [hname]; decide) (List.forall_mem_nil _)
  -- 16, 12, 8, 4, 0, and -4 is past the end
  have hfive : Rounds (isInside (-3) (-4)) (-4) 16 5 :=
    .goesOn (by decide) (.goesOn (by decide) (.goesOn (by decide) (.goesOn (by decide)
      (.goesOn (by decide) (.ends (by decide))))))
  exact ⟨hfirst, hlast, hstep, by decide, header, q, loop, n, hrun, hread, hcounter, hround,
    hlua.unique hfive⟩

/-- **Down from one a loop stops short**: `for i = 1, 1, -1` goes round once, and the loop that is
written for it never does. -/
theorem countdown_from_one_stops_short :
    (compile .keep "for i = 1, 1, -1 do f() end" "Game/UI/test.lua" .empty {}).1.code =
        "for (let i = 0; i > 1; i = i + -1) \x7bf()\x7d" ∧
      CountingLoop.ofPieces? (Script.pieces "for (let i = 0; i > 1; i = i + -1)") =
        some ⟨['i'], 0, .greater, 1, -1⟩ ∧
      CountingLoop.GoesRound ⟨['i'], 0, .greater, 1, -1⟩ 0 ∧
      Rounds (isInside 1 (-1)) (-1) 1 1 ∧
      ¬ ∃ n, CountingLoop.GoesRound ⟨['i'], 0, .greater, 1, -1⟩ n ∧
        Rounds (isInside 1 (-1)) (-1) 1 n := by
  have hnever : CountingLoop.GoesRound ⟨['i'], 0, .greater, 1, -1⟩ 0 := .ends (by decide)
  have honce : Rounds (isInside 1 (-1)) (-1) 1 1 := .goesOn (by decide) (.ends (by decide))
  refine ⟨by decide +kernel, by decide +kernel, hnever, honce, ?_⟩
  rintro ⟨n, hround, hlua⟩
  have hzero : n = 0 := Rounds.unique hround hnever
  have hone : n = 1 := hlua.unique honce
  omega

end LuaCompiler.Emit
