import LuaCompiler.Proofs.Emit.Logic
import LuaCompiler.Proofs.Emit.References
import LuaCompiler.Proofs.Script.Decision

/-!
# The value of logical operators

An expression of names, literals, `and` and `or` whose value is kept is written as a decision, and
the decision has the value that Lua gives, but for one shape. `c and a or b`, where `b` is built by
no logical operator, is written as a choice by `c` alone: where `c` holds and `a` does not, Lua
takes `b` and the text takes `a`.

* `luaValue`: the value of such an expression in Lua, and `decidedValue`: the one that its text
  decides for.
* `Judged`: no choice is misjudged, and `Judged.decidedValue_eq`: then both values are one.
* `value_of_text`: **the value of the text of a logical expression**.
-/

namespace LuaCompiler.Emit

open Script (Decision Consists Silent Piece pieces)
open Script.Decision (Written opening closing arrow support atomValue)

/-! ## Logical expressions -/

/-- **An expression of names, literals, `and` and `or`.** -/
inductive Logical : Expr → Prop
  | name {id span name} (h : Name.isValid name = true) : Logical ⟨id, span, .name name⟩
  | nil {id span} : Logical ⟨id, span, .nil⟩
  | boolean {id span} (value : Bool) : Logical ⟨id, span, .boolean value⟩
  | number {id span value raw} (h : (Token.Kind.number value raw).isSpelled = true) :
    Logical ⟨id, span, .number value raw⟩
  | string {id span} (raw : String) : Logical ⟨id, span, .string raw⟩
  | logical {id span} (operator : LogicalOperator) {left right} (hleft : Logical left)
    (hright : Logical right) : Logical ⟨id, span, .logical operator left right⟩

/-- What names stand for, and what string literals say. -/
structure Meaning where
  names : String → Value
  strings : String → String

mutual

/-- **The value of a logical expression in Lua.** -/
def luaValue (m : Meaning) : Expr → Value
  | ⟨_, _, kind⟩ => luaKindValue m kind

/-- The value of a logical expression of a kind in Lua. -/
def luaKindValue (m : Meaning) : ExprKind → Value
  | .name name => m.names name
  | .boolean value => .boolean value
  | .number value _ => .number ⟨false, value⟩
  | .string raw => .string (m.strings raw)
  | .logical operator left right => .logical operator (luaValue m left) (luaValue m right)
  | _ => .nil

end

mutual

/-- **The value that the text of a logical expression decides for**: a choice between two values is
decided by its condition alone. -/
def decidedValue (m : Meaning) : Expr → Value
  | ⟨_, _, kind⟩ => decidedKindValue m kind

/-- The value that the text of a logical expression of a kind decides for. -/
def decidedKindValue (m : Meaning) : ExprKind → Value
  | .logical operator left right =>
    if isChoice operator left right then
      if (decidedConjuncts m left).1.holds then (decidedConjuncts m left).2 else decidedValue m right
    else .logical operator (decidedValue m left) (decidedValue m right)
  | kind => luaKindValue m kind

/-- The values that the texts of the operands of a conjunction decide for. -/
def decidedConjuncts (m : Meaning) : Expr → Value × Value
  | ⟨_, _, .logical _ left right⟩ => (decidedValue m left, decidedValue m right)
  | _ => (.nil, .nil)

end

/-- A choice is not misjudged: where its condition holds, its consequent holds as well or is the
alternate anyway. -/
def JudgedChoice (m : Meaning) : Expr → Expr → Prop
  | ⟨_, _, .logical _ condition consequent⟩, alternate =>
    (luaValue m condition).holds = true →
      (luaValue m consequent).holds = true ∨ luaValue m consequent = luaValue m alternate
  | _, _ => True

mutual

/-- **No choice in a logical expression is misjudged.** -/
def Judged (m : Meaning) : Expr → Prop
  | ⟨_, _, kind⟩ => JudgedKind m kind

/-- No choice in a logical expression of a kind is misjudged. -/
def JudgedKind (m : Meaning) : ExprKind → Prop
  | .logical operator left right =>
    Judged m left ∧ Judged m right ∧ (isChoice operator left right = true → JudgedChoice m left right)
  | _ => True

end

section Values

variable {m : Meaning} {e left right : Expr} {id : NodeId} {span : Span}

/-- The value of a choice. -/
theorem decidedValue_choice {id' : NodeId} {span' : Span} (c a : Expr)
    (h : isLogical right = false) :
    decidedValue m ⟨id, span, .logical .or ⟨id', span', .logical .and c a⟩ right⟩ =
      if (decidedValue m c).holds then decidedValue m a else decidedValue m right := by
  have hchoice : isChoice .or ⟨id', span', .logical .and c a⟩ right = true := by
    rw [isChoice, h]
    rfl
  rw [decidedValue, decidedKindValue, if_pos hchoice, decidedConjuncts]

/-- The value of another logical operator. -/
theorem decidedValue_logical {operator : LogicalOperator} (h : isChoice operator left right = false) :
    decidedValue m ⟨id, span, .logical operator left right⟩ =
      .logical operator (decidedValue m left) (decidedValue m right) := by
  rw [decidedValue, decidedKindValue, if_neg (by simp [h])]

/-- **Where no choice is misjudged, the text decides for Lua's value.** -/
theorem Judged.decidedValue_eq (he : Logical e) (h : Judged m e) :
    decidedValue m e = luaValue m e := by
  -- the operands of a conjunction are looked at by the disjunction behind it
  suffices hboth : (Judged m e → decidedValue m e = luaValue m e) ∧
      ∀ id span operator c a, e = ⟨id, span, .logical operator c a⟩ → Judged m e →
        decidedValue m c = luaValue m c ∧ decidedValue m a = luaValue m a from hboth.1 h
  clear h
  induction he with
  | name | nil | boolean | number | string => exact ⟨fun _ => rfl, by rintro _ _ _ _ _ ⟨⟩⟩
  | @logical id span operator left right hleft hright ihleft ihright =>
    refine ⟨fun h => ?_, ?_⟩
    · obtain ⟨hl, hr, hchoice⟩ := h
      cases hshape : isChoice operator left right with
      | false =>
        rw [decidedValue_logical hshape, ihleft.1 hl, ihright.1 hr]
        rfl
      | true =>
        obtain ⟨rfl, hnone, id', span', c, a, rfl⟩ := eq_of_isChoice hshape
        obtain ⟨hc, ha⟩ := ihleft.2 _ _ _ _ _ rfl hl
        have hjudged : (luaValue m c).holds = true →
          (luaValue m a).holds = true ∨ luaValue m a = luaValue m right := hchoice hshape
        rw [decidedValue_choice c a hnone, hc, ha, ihright.1 hr]
        change _ = Value.logical .or (.logical .and (luaValue m c) (luaValue m a)) (luaValue m right)
        cases hholds : (luaValue m c).holds with
        | false => simp [Value.logical, hholds]
        | true =>
          rcases hjudged hholds with ha | ha
          · simp [Value.logical, hholds, ha]
          · simp [Value.logical, hholds, ha]
    · rintro _ _ _ _ _ ⟨⟩ ⟨hl, hr, -⟩
      exact ⟨ihleft.1 hl, ihright.1 hr⟩

end Values

/-! ## Texts of decisions -/

section Texts

variable {s t v : String} {ps qs rs : List Piece}

theorem consists_parens (h : Consists t ps) : Consists (parens t) (opening ++ (ps ++ closing)) := by
  have hopen : Consists "(" opening := by decide
  have hclose : Consists ")" closing := by decide
  have hfront := hopen.append h (.inl (by decide))
  rw [parens, ← List.append_assoc]
  exact hfront.append hclose (.inr (by decide))

/-- The arguments of a call in parentheses behind what is called. -/
theorem consists_parensBehind (hs : Consists s ps) (ht : Consists t qs) :
    Consists (s ++ parens t) (ps ++ (opening ++ (qs ++ closing))) := by
  have hstart : Script.startsWord (parens t) = false := by
    rw [parens]
    exact Script.startsWord_append_of (Script.startsWord_append_of (by decide) (by decide) _)
      (by simp) _
  exact hs.append (consists_parens ht) (.inr hstart)

theorem consists_condition (h : Consists t ps) : Consists ("l2j.condition" ++ parens t)
    (support "condition" ++ (opening ++ (ps ++ closing))) :=
  consists_parensBehind (by decide) h

/-- The conditional operator in parentheses. -/
theorem consists_choose (hs : Consists s ps) (ht : Consists t qs) (hv : Consists v rs) :
    Consists (parens (s ++ " ? " ++ t ++ " : " ++ v))
      (opening ++ (ps ++ (.sign '?' :: (qs ++ (.sign ':' :: (rs ++ closing)))))) := by
  have hthen : Consists " ? " [.sign '?'] := by decide
  have helse : Consists " : " [.sign ':'] := by decide
  have hfront := hs.append hthen (.inr (by decide))
  have hmiddle := hfront.append ht (.inl (Script.endsWord_append_of (by decide) (by decide) _))
  have hcolon := hmiddle.append helse (.inr (by decide))
  have hall := hcolon.append hv (.inl (Script.endsWord_append_of (by decide) (by decide) _))
  simpa using consists_parens hall

/-- A function of the support module and the function that it is given. -/
theorem consists_lazy {callee : String} (hcallee : Consists callee rs) (hs : Consists s ps)
    (ht : Consists t qs) : Consists (callText callee [s, "() => " ++ parens t])
      (rs ++ (opening ++ (ps ++ (arrow ++ (opening ++ (qs ++ closing) ++ closing))))) := by
  have harrow : Consists ", () => " arrow := by decide
  have hfront := hs.append harrow (.inr (by decide))
  have hall := hfront.append (consists_parens ht)
    (.inl (Script.endsWord_append_of (by decide) (by decide) _))
  have htext : commas [s, "() => " ++ parens t] = s ++ ", () => " ++ parens t := by
    have hjoin : ", () => " = ", " ++ "() => " := by decide
    rw [hjoin]
    simp only [commas, String.intercalate_cons_cons, String.intercalate_singleton,
      String.append_assoc]
  rw [callText, htext]
  simpa using consists_parensBehind hcallee hall

end Texts

/-- **A lowering delivers a text with a property**, whatever comments wait. -/
def Delivers (node : Emit String) (P : String → Prop) : Prop :=
  ∀ p, (∀ c ∈ p.comments.waiting, c.IsTidy) →
    P (node.run p).1 ∧ ∀ c ∈ (node.run p).2.comments.waiting, c.IsTidy

/-- **A lowering produces some pieces**, with the comments of the source around its parts. -/
def Produces (node : Emit String) (Q : List Piece → Prop) : Prop :=
  ∀ p, (∀ c ∈ p.comments.waiting, c.IsTidy) →
    (∃ ps, Q ps ∧ Consists (node.run p).1 ps) ∧
      ∀ c ∈ (node.run p).2.comments.waiting, c.IsTidy

/-- **A lowering writes a decision**, with the comments of the source around its parts. -/
def Decides (node : Emit String) (d : Decision) : Prop :=
  ∀ p, (∀ c ∈ p.comments.waiting, c.IsTidy) →
    (∃ ps, Written d ps ∧ Consists (node.run p).1 ps) ∧
      ∀ c ∈ (node.run p).2.comments.waiting, c.IsTidy

section Lowerings

variable {node : Emit String} {P P' : String → Prop} {Q R : List Piece → Prop}
  {d d' d'' : Decision}

/-- The comments around a node change no property that blanks and comments leave alone. -/
theorem Delivers.around (h : Delivers node P)
    (hwithin : ∀ front t back, Silent front → Silent back → P t → P (front ++ t ++ back))
    (span : Span) : Delivers (around span node) P := by
  intro p hp
  have hbefore : ∀ c ∈ (p.comments.before span).2.waiting, c.IsTidy :=
    fun c hc => hp c ((List.dropWhile_suffix _).subset hc)
  obtain ⟨htext, htidy⟩ := h ((commentsBefore span).run p).2 hbefore
  refine ⟨?_, fun c hc => htidy c ((List.dropWhile_suffix _).subset hc)⟩
  exact hwithin _ _ _ (CommentQueue.silent_before hp span) (CommentQueue.silent_after htidy span)
    htext

theorem delivers_pure {text : String} (h : P text) : Delivers (pure text) P := fun _ hp => ⟨h, hp⟩

/-- A text put together from a text with a property. -/
theorem Delivers.bind {f : String → Emit String} (h : Delivers node P)
    (hf : ∀ t, P t → Delivers (f t) P') : Delivers (node >>= f) P' := by
  intro p hp
  obtain ⟨htext, htidy⟩ := h p hp
  exact hf _ htext _ htidy

theorem Produces.delivers (h : Produces node Q) :
    Delivers node fun t => ∃ ps, Q ps ∧ Consists t ps := h

/-- The comments around a node are no pieces. -/
theorem Produces.around (h : Produces node Q) (span : Span) : Produces (around span node) Q := by
  refine h.delivers.around (fun front t back hfront hback ht => ?_) span
  obtain ⟨ps, hps, hconsists⟩ := ht
  exact ⟨ps, hps, hconsists.within hfront hback⟩

theorem produces_pure {text : String} (h : ∃ ps, Q ps ∧ Consists text ps) : Produces (pure text) Q :=
  fun _ hp => ⟨h, hp⟩

/-- A text put together from a text of some pieces. -/
theorem Produces.bind {f : String → Emit String} (h : Produces node Q)
    (hf : ∀ t, (∃ ps, Q ps ∧ Consists t ps) → Produces (f t) R) : Produces (node >>= f) R :=
  h.delivers.bind fun t ht => (hf t ht).delivers

/-- The comments around a node are no pieces. -/
theorem Decides.around (h : Decides node d) (span : Span) : Decides (around span node) d :=
  Produces.around h span

theorem decides_pure {text : String} (h : ∃ ps, Written d ps ∧ Consists text ps) :
    Decides (pure text) d :=
  produces_pure h

/-- A text put together from the text of a decision. -/
theorem Decides.bind {f : String → Emit String} (h : Decides node d)
    (hf : ∀ t, (∃ ps, Written d ps ∧ Consists t ps) → Decides (f t) d') : Decides (node >>= f) d' :=
  Produces.bind h hf

end Lowerings

/-! ## Leaves -/

section Leaves

variable {ctx : Context} {role : Role}

theorem isAtomChar_of_isWordChar {c : Char} (h : isWordChar c = true) :
    Script.isAtomChar c = true := by
  simp [Script.isAtomChar, h]

theorem isAtomChar_of_isNumeralChar {c : Char} (h : Numeral.isNumeralChar c = true) :
    Script.isAtomChar c = true := by
  simp only [Numeral.isNumeralChar, Bool.or_eq_true, List.contains_iff_mem] at h
  rcases h with h | h
  · exact isAtomChar_of_isWordChar (by simp [isWordChar, isAlphanum_of_isHexDigit h])
  · exact List.all_eq_true.1
      (by decide : ['x', 'X', 'p', 'P', '.', '+', '-'].all Script.isAtomChar = true) c h

/-- A fixed text of words and of the signs of members and numerals. -/
theorem isAtomChar_of_all {text : String}
    (h : text.toList.all Script.isAtomChar = true ∧ text ≠ "") :
    (∀ c ∈ text.toList, Script.isAtomChar c = true) ∧ text ≠ "" :=
  ⟨List.all_eq_true.1 h.1, h.2⟩

/-- A text of words and of the signs of members and numerals is an atom. -/
theorem written_atoms {text : String} (h : ∀ c ∈ text.toList, Script.isAtomChar c = true)
    (hne : text ≠ "") : Written (.atom (pieces text)) (pieces text) ∧ Consists text (pieces text) := by
  obtain ⟨ps, hconsists, hps, hatom⟩ := Script.consists_atoms h hne
  rw [hconsists.pieces]
  exact ⟨.atom hps hatom, hconsists⟩

theorem isAtomChar_asBinding {name : String} (h : Name.isValid name = true) :
    (∀ c ∈ (Name.asBinding name).toList, Script.isAtomChar c = true) ∧ Name.asBinding name ≠ "" := by
  have hword := Name.isWordChar_of_isValid h
  have hfixed : ∀ entry ∈ Name.fixedSpellings,
      entry.2.toList.all Script.isAtomChar = true ∧ entry.2 ≠ "" := by decide
  unfold Name.asBinding
  split
  · exact isAtomChar_of_all (by decide)
  · split
    next spelling hlookup =>
      obtain ⟨before, behind, heq, -⟩ := List.lookup_eq_some_iff.1 hlookup
      exact isAtomChar_of_all (hfixed (name, spelling) (by simp [heq]))
    · split
      · refine ⟨fun c hc => ?_, by simp⟩
        rw [String.toList_append, List.mem_append] at hc
        have hunderscore : ∀ c ∈ "_".toList, Script.isAtomChar c = true :=
          (isAtomChar_of_all (by decide)).1
        exact hc.elim (hunderscore c) fun hc => isAtomChar_of_isWordChar (hword c hc)
      · refine ⟨fun c hc => isAtomChar_of_isWordChar (hword c hc), ?_⟩
        rintro rfl
        cases h

theorem isAtomChar_referenceText (ctx : Context) {name : String} (h : Name.isValid name = true) :
    (∀ c ∈ (referenceText ctx name).toList, Script.isAtomChar c = true) ∧
      referenceText ctx name ≠ "" := by
  unfold referenceText
  split
  · split
    · exact isAtomChar_of_all (by decide)
    · exact isAtomChar_of_all (by decide)
  · split
    · refine ⟨fun c hc => ?_, by simp⟩
      rw [String.toList_append, List.mem_append] at hc
      have hmodule : ∀ c ∈ "l2j.".toList, Script.isAtomChar c = true :=
        (isAtomChar_of_all (by decide)).1
      exact hc.elim (hmodule c) fun hc =>
        isAtomChar_of_isWordChar (Name.isWordChar_of_isValid h c hc)
    · exact isAtomChar_asBinding h

theorem isAtomChar_magnitude (value : Binary64.Magnitude) :
    (∀ c ∈ value.text.toList, Script.isAtomChar c = true) ∧ value.text ≠ "" := by
  have hdecimal (d : Binary64.Decimal) : d.text ≠ "" := by
    intro heq
    have hlist := congrArg String.toList heq
    unfold Binary64.Decimal.text at hlist
    dsimp only at hlist
    split at hlist
    · simp [Nat.toDigits_ne_nil] at hlist
    · simp at hlist
  unfold Binary64.Magnitude.text
  split
  · split
    · exact isAtomChar_of_all (by decide)
    · exact ⟨fun c hc => isAtomChar_of_isNumeralChar (Binary64.Decimal.isNumeralChar_text _ c hc),
        hdecimal _⟩
  · exact isAtomChar_of_all (by decide)
  · exact isAtomChar_of_all (by decide)

theorem isAtomChar_numeral {value : Binary64.Magnitude} {raw : String}
    (h : (Token.Kind.number value raw).isSpelled = true) :
    (∀ c ∈ (Numeral.script value raw).toList, Script.isAtomChar c = true) ∧
      Numeral.script value raw ≠ "" := by
  have hraw : (∀ c ∈ raw.toList, Script.isAtomChar c = true) ∧ raw ≠ "" := by
    refine ⟨fun c hc => isAtomChar_of_isNumeralChar (Numeral.isNumeralChar_of_isSpelled h c hc), ?_⟩
    rintro rfl
    cases h
  unfold Numeral.script
  split
  · split
    · exact isAtomChar_magnitude value
    · exact hraw
  · exact hraw

/-- A reference to a name. -/
theorem decides_reference {name : String} (h : Name.isValid name = true) :
    Decides (reference ctx name) (.atom (pieces (referenceText ctx name))) := by
  obtain ⟨hchars, hne⟩ := isAtomChar_referenceText ctx h
  have hatom := written_atoms hchars hne
  intro p hp
  have hrun : ((reference ctx name).run p).1 = referenceText ctx name ∧
      ((reference ctx name).run p).2.comments = p.comments := by
    unfold reference referenceText
    cases ctx.receiver.filter (·.name == name) with
    | none => exact ⟨rfl, rfl⟩
    | some receiver =>
      dsimp only
      cases receiver.depth == ctx.functionDepth <;> exact ⟨rfl, rfl⟩
  rw [hrun.1, hrun.2]
  exact ⟨⟨_, hatom⟩, hp⟩

end Leaves

/-! ## The value of a text -/

mutual

/-- **The atoms of a script agree with the leaves of a logical expression**: a name, a numeral and a
string are in JavaScript what they are in Lua. -/
def Agrees (ctx : Context) (ρ : List Piece → Value) (m : Meaning) : Expr → Prop
  | ⟨id, _, kind⟩ => AgreesKind ctx ρ m id kind

/-- The atoms of a script agree with the leaves of a logical expression of a kind. -/
def AgreesKind (ctx : Context) (ρ : List Piece → Value) (m : Meaning) (id : NodeId) :
    ExprKind → Prop
  | .name name =>
    atomValue ρ (pieces (referenceText ctx (ctx.annotations.resolve id name))) = m.names name
  | .number value raw =>
    atomValue ρ (pieces (Numeral.script value raw)) = .number ⟨false, value⟩
  | .string raw => atomValue ρ (pieces (StringLiteral.toScript raw)) = .string (m.strings raw)
  | .logical _ left right => Agrees ctx ρ m left ∧ Agrees ctx ρ m right
  | _ => True

end

/-- **An expression is written as a decision** with the value that its text decides for. -/
def IsWritten (ctx : Context) (e : Expr) (d : Decision) : Prop :=
  (∀ role, role ≠ .compared → Decides (expression ctx role e) d) ∧
    ∀ ρ m, Agrees ctx ρ m e → d.value ρ = decidedValue m e

section Expressions

variable {ctx : Context} {e left right : Expr} {id : NodeId} {span : Span}
  {dl dr : Decision}

/-- A leaf is written as an atom. -/
theorem isWritten_atom {kind : ExprKind} (ps : List Piece)
    (h : ∀ role, role ≠ .compared → Decides (expressionKind ctx role id kind) (.atom ps))
    (hvalue : ∀ ρ m, AgreesKind ctx ρ m id kind → atomValue ρ ps = decidedKindValue m kind) :
    IsWritten ctx ⟨id, span, kind⟩ (.atom ps) :=
  ⟨fun role hrole => (h role hrole).around span, hvalue⟩

/-- A choice is written as one. -/
theorem isWritten_choice {c a : Expr} {id' : NodeId} {span' : Span} {dc da : Decision}
    (hshape : isLogical right = false) (hc : IsWritten ctx c dc) (ha : IsWritten ctx a da)
    (hr : IsWritten ctx right dr) :
    IsWritten ctx ⟨id, span, .logical .or ⟨id', span', .logical .and c a⟩ right⟩
      (.choose (.condition dc) da dr) := by
  refine ⟨fun role _ => ?_, fun ρ m hagrees => ?_⟩
  · rw [expression]
    refine Decides.around ?_ span
    rw [expressionKind_choice ctx role id c a hshape]
    refine (hc.1 .single (by decide)).bind fun conditionText hconditionText => ?_
    refine (ha.1 .single (by decide)).bind fun consequentText hconsequentText => ?_
    refine (hr.1 .single (by decide)).bind fun alternateText halternateText => ?_
    obtain ⟨ps, hps, hconditionText⟩ := hconditionText
    obtain ⟨qs, hqs, hconsequentText⟩ := hconsequentText
    obtain ⟨rs, hrs, halternateText⟩ := halternateText
    refine decides_pure ⟨_, .choose (.condition hps) (.parens hqs) (.parens hrs), ?_⟩
    exact consists_choose (consists_condition hconditionText) (consists_parens hconsequentText)
      (consists_parens halternateText)
  · obtain ⟨⟨hagreesc, hagreesa⟩, hagreesr⟩ := hagrees
    rw [decidedValue_choice c a hshape, Decision.value_choose_condition, hc.2 ρ m hagreesc,
      ha.2 ρ m hagreesa, hr.2 ρ m hagreesr]

/-- Another logical operator is written as a choice between its operands, or by a function of the
support module. -/
theorem isWritten_logical (hctx : ctx.valueContext = true) {operator : LogicalOperator}
    (hshape : isChoice operator left right = false) (hl : IsWritten ctx left dl)
    (hr : IsWritten ctx right dr) :
    ∃ d, IsWritten ctx ⟨id, span, .logical operator left right⟩ d := by
  -- the texts of the operands, put together by the rule for values
  have hdecides {d : Decision} (hrule : ∀ leftText rightText,
      (∃ ps, Written dl ps ∧ Consists leftText ps) → (∃ qs, Written dr qs ∧ Consists rightText qs) →
        ∃ rs, Written d rs ∧
          Consists (logicalValue operator (isRepeatable left) leftText rightText) rs) (role : Role) :
      Decides (expression ctx role ⟨id, span, .logical operator left right⟩) d := by
    rw [expression]
    refine Decides.around ?_ span
    rw [expressionKind_logical ctx role id hshape]
    refine (hl.1 .single (by decide)).bind fun leftText hleftText => ?_
    refine (hr.1 .single (by decide)).bind fun rightText hrightText => ?_
    rw [logicalText, hctx, if_pos rfl]
    exact decides_pure (hrule leftText rightText hleftText hrightText)
  have hvalue {d : Decision} (hrule : ∀ ρ,
      d.value ρ = .logical operator (dl.value ρ) (dr.value ρ)) :
      ∀ ρ m, Agrees ctx ρ m ⟨id, span, .logical operator left right⟩ →
        d.value ρ = decidedValue m ⟨id, span, .logical operator left right⟩ := by
    intro ρ m hagrees
    rw [decidedValue_logical hshape, hrule, hl.2 ρ m hagrees.1, hr.2 ρ m hagrees.2]
  -- a left operand that can be written twice is chosen by its truth; any other is passed on
  cases hrepeatable : isRepeatable left with
  | true =>
    rw [hrepeatable] at hdecides
    cases operator with
    | and =>
      refine ⟨.choose (.condition dl) dr dl, fun role _ => hdecides ?_ role, hvalue fun _ => rfl⟩
      rintro leftText rightText ⟨ps, hps, hleft⟩ ⟨qs, hqs, hright⟩
      exact ⟨_, .choose (.condition hps) hqs hps,
        consists_choose (consists_condition hleft) hright hleft⟩
    | or =>
      refine ⟨.choose (.condition dl) dl dr, fun role _ => hdecides ?_ role, hvalue fun _ => rfl⟩
      rintro leftText rightText ⟨ps, hps, hleft⟩ ⟨qs, hqs, hright⟩
      exact ⟨_, .choose (.condition hps) hps hqs,
        consists_choose (consists_condition hleft) hleft hright⟩
  | false =>
    rw [hrepeatable] at hdecides
    cases operator with
    | and =>
      have hoperator : Decision.operator? (support "and") = some .and := by decide
      have hcallee : Consists "l2j.and" (support "and") := by decide
      refine ⟨.logical .and dl dr, fun role _ => hdecides ?_ role, hvalue fun _ => rfl⟩
      rintro leftText rightText ⟨ps, hps, hleft⟩ ⟨qs, hqs, hright⟩
      exact ⟨_, .logical .and hoperator hps (.parens hqs), consists_lazy hcallee hleft hright⟩
    | or =>
      have hoperator : Decision.operator? (support "or") = some .or := by decide
      have hcallee : Consists "l2j.or" (support "or") := by decide
      refine ⟨.logical .or dl dr, fun role _ => hdecides ?_ role, hvalue fun _ => rfl⟩
      rintro leftText rightText ⟨ps, hps, hleft⟩ ⟨qs, hqs, hright⟩
      exact ⟨_, .logical .or hoperator hps (.parens hqs), consists_lazy hcallee hleft hright⟩

/-- **A logical expression is written as a decision** where its value is kept. -/
theorem exists_isWritten (hctx : ctx.valueContext = true)
    (hnames : ∀ id name, Name.isValid name = true →
      Name.isValid (ctx.annotations.resolve id name) = true) (h : Logical e) :
    ∃ d, IsWritten ctx e d := by
  -- the operands of a conjunction are looked at by the disjunction behind it
  suffices hboth : (∃ d, IsWritten ctx e d) ∧
      ∀ id span operator c a, e = ⟨id, span, .logical operator c a⟩ →
        (∃ d, IsWritten ctx c d) ∧ ∃ d, IsWritten ctx a d from hboth.1
  induction h with
  | @name id span name h =>
    refine ⟨⟨_, isWritten_atom _ (fun role _ => ?_) fun _ _ hagrees => hagrees⟩,
      by rintro _ _ _ _ _ ⟨⟩⟩
    rw [expressionKind]
    exact decides_reference (hnames id name h)
  | nil =>
    refine ⟨⟨_, isWritten_atom [.word "undefined".toList] (fun role _ => ?_)
      fun _ _ _ => rfl⟩, by rintro _ _ _ _ _ ⟨⟩⟩
    rw [expressionKind]
    exact decides_pure ⟨_, .atom (by decide) (by decide), by decide⟩
  | boolean value =>
    cases value with
    | true =>
      refine ⟨⟨_, isWritten_atom [.word "true".toList] (fun role _ => ?_)
        fun _ _ _ => rfl⟩, by rintro _ _ _ _ _ ⟨⟩⟩
      rw [expressionKind]
      exact decides_pure ⟨_, .atom (by decide) (by decide), by decide⟩
    | false =>
      refine ⟨⟨_, isWritten_atom [.word "false".toList] (fun role _ => ?_)
        fun _ _ _ => rfl⟩, by rintro _ _ _ _ _ ⟨⟩⟩
      rw [expressionKind]
      exact decides_pure ⟨_, .atom (by decide) (by decide), by decide⟩
  | number h =>
    obtain ⟨hchars, hne⟩ := isAtomChar_numeral h
    refine ⟨⟨_, isWritten_atom _ (fun role _ => ?_) fun _ _ hagrees => hagrees⟩,
      by rintro _ _ _ _ _ ⟨⟩⟩
    rw [expressionKind]
    exact decides_pure ⟨_, written_atoms hchars hne⟩
  | string raw =>
    have hconsists := Script.consists_toScript raw
    refine ⟨⟨_, isWritten_atom _ (fun role hrole => ?_) fun _ _ hagrees => hagrees⟩,
      by rintro _ _ _ _ _ ⟨⟩⟩
    have htext : role.string raw = StringLiteral.toScript raw := by
      rw [Role.string, if_neg fun h => hrole h.1]
    rw [expressionKind, htext, hconsists.pieces]
    exact decides_pure ⟨_, .atom (by simp) (by simp [Piece.isAtom]), hconsists⟩
  | @logical id span operator left right hleft hright ihleft ihright =>
    refine ⟨?_, ?_⟩
    · obtain ⟨dr, hr⟩ := ihright.1
      cases hshape : isChoice operator left right with
      | false =>
        obtain ⟨dl, hl⟩ := ihleft.1
        exact isWritten_logical hctx hshape hl hr
      | true =>
        obtain ⟨rfl, hnone, id', span', c, a, rfl⟩ := eq_of_isChoice hshape
        obtain ⟨⟨dc, hc⟩, da, ha⟩ := ihleft.2 _ _ _ _ _ rfl
        exact ⟨_, isWritten_choice hnone hc ha hr⟩
    · rintro _ _ _ _ _ ⟨⟩
      exact ⟨ihleft.1, ihright.1⟩

/-- **The value of the text of a logical expression** whose value is kept. The text is one decision,
with whatever comments of the source inside. Given that names and literals are in JavaScript what
they are in Lua, its value is the one that a reader gets who decides each choice between two values
by the condition alone; and that is Lua's value where no choice is misjudged. A choice at the top
that is misjudged gives its consequent, and Lua its alternate. -/
theorem value_of_text (hctx : ctx.valueContext = true)
    (hnames : ∀ id name, Name.isValid name = true →
      Name.isValid (ctx.annotations.resolve id name) = true)
    (h : Logical e) {p : Progress} (hcomments : ∀ c ∈ p.comments.waiting, c.IsTidy) (role : Role)
    (hrole : role ≠ .compared) :
    ∃ d, Decision.read ((expression ctx role e).run p).1 = some d ∧
      ∀ ρ m, Agrees ctx ρ m e → d.value ρ = decidedValue m e ∧
        (Judged m e → d.value ρ = luaValue m e) ∧
        ∀ id id' span span' c a b, e = ⟨id, span, .logical .or ⟨id', span', .logical .and c a⟩ b⟩ →
          isLogical b = false → Judged m c → Judged m a →
            (luaValue m c).holds = true → (luaValue m a).holds = false →
              d.value ρ = luaValue m a ∧ luaValue m e = luaValue m b := by
  obtain ⟨d, hdecides, hvalue⟩ := exists_isWritten hctx hnames h
  obtain ⟨⟨ps, hps, hconsists⟩, -⟩ := hdecides role hrole p hcomments
  refine ⟨d, Decision.read_written hps hconsists, fun ρ m hagrees => ⟨hvalue ρ m hagrees, ?_, ?_⟩⟩
  · intro hjudged
    rw [hvalue ρ m hagrees, hjudged.decidedValue_eq h]
  · rintro id id' span span' c a b rfl hb hc ha hholds hfails
    -- both operators stand at the top, so their operands are logical expressions of their own
    have hlogical : Logical c ∧ Logical a := by
      cases h with
      | logical _ hleft _ =>
        cases hleft with
        | logical _ hc ha => exact ⟨hc, ha⟩
    refine ⟨?_, ?_⟩
    · rw [hvalue ρ m hagrees, decidedValue_choice c a hb, hc.decidedValue_eq hlogical.1,
        ha.decidedValue_eq hlogical.2, if_pos hholds]
    · simp [luaValue, luaKindValue, Value.logical, hholds, hfails]

/-- `a and b or c`. -/
def choiceSample : Expr :=
  ⟨5, default, .logical .or ⟨3, default, .logical .and (nameSample 1 "a") (nameSample 2 "b")⟩
    (nameSample 4 "c")⟩

/-- `a` is true, `b` is false, and another name stands for one. -/
def choiceMeaning : Meaning where
  names name := if name = "a" then .boolean true else if name = "b" then .boolean false
    else .number ⟨false, .one⟩
  strings _ := ""

/-- The same of the atoms of a script. -/
def choiceAtoms (ps : List Piece) : Value :=
  if ps = [.word "a".toList] then .boolean true else if ps = [.word "b".toList] then .boolean false
  else .number ⟨false, .one⟩

theorem value_of_choiceSample :
    let ctx : Context := { options := {}, annotations := {}, fileName := "m", operatorMode := false,
                           valueContext := true }
    let p : Progress := { comments := ⟨[], 0⟩, registries := .empty }
    Logical choiceSample ∧ Agrees ctx choiceAtoms choiceMeaning choiceSample ∧
      ∃ d, Decision.read ((expression ctx .single choiceSample).run p).1 = some d ∧
        d.value choiceAtoms = .boolean false ∧
        luaValue choiceMeaning choiceSample = .number ⟨false, .one⟩ := by
  intro ctx p
  have hresolve (id : NodeId) (name : String) : ctx.annotations.resolve id name = name := by
    simp [ctx, Scope.Annotations.resolve]
  have hlogical : Logical choiceSample :=
    .logical .or (.logical .and (.name (by decide)) (.name (by decide))) (.name (by decide))
  have hagrees : Agrees ctx choiceAtoms choiceMeaning choiceSample := by
    simp only [choiceSample, nameSample, Agrees, AgreesKind, hresolve]
    have ha : pieces (referenceText ctx "a") = [.word "a".toList] := by decide
    have hb : pieces (referenceText ctx "b") = [.word "b".toList] := by decide
    have hc : pieces (referenceText ctx "c") = [.word "c".toList] := by decide
    rw [ha, hb, hc]
    exact ⟨⟨rfl, rfl⟩, rfl⟩
  have hnames : ∀ id name, Name.isValid name = true →
      Name.isValid (ctx.annotations.resolve id name) = true :=
    fun id name h => (hresolve id name).symm ▸ h
  obtain ⟨d, hread, hvalue⟩ := value_of_text (p := p) rfl hnames hlogical (List.forall_mem_nil _)
    .single (by decide)
  obtain ⟨-, -, hmisjudged⟩ := hvalue _ _ hagrees
  -- the condition holds and the consequent does not: the choice that is misjudged
  obtain ⟨htext, hlua⟩ := hmisjudged _ _ _ _ _ _ _ rfl rfl trivial trivial rfl rfl
  exact ⟨hlogical, hagrees, d, hread, htext, hlua⟩

end Expressions

/-- **A choice by a false value behind a true condition**: with `and` and `or` for the alternate, the
same operands are decided as in Lua. -/
example :
    (compile .keep "local x = a and b or c" "Game/UI/test.lua" .empty {}).1.code =
      "let x = (l2j.condition(a) ? (b) : (c))" ∧
    (compile .keep "local x = a and b or (c or c)" "Game/UI/test.lua" .empty {}).1.code =
      "let x = l2j.or((l2j.condition(a) ? b : a), () => ((l2j.condition(c) ? c : c)))" := by
  repeat rw [compile, parse_ofList]
  decide +kernel

end LuaCompiler.Emit
