import LuaCompiler.Proofs.Emit.Rendering
import LuaCompiler.Proofs.Emit.Spelling
import LuaCompiler.Proofs.Parser.Shaped
import LuaCompiler.Proofs.Scope.Tracker

/-!
# Names and numerals in generated code

The texts that a program itself brings into generated code, strings and comments aside, are quiet:
they open and close nothing. Those are names, in their own spelling or a generated one, and
numerals.

* `Scope.named_analyse`: generated names are names.
* `Context.Tame`: a context whose names and texts can be written into code.
-/

namespace LuaCompiler

open Script (Plain Quiet isQuiet)

/-! ## Characters -/

/-- Letters and digits are quiet. -/
theorem isQuiet_of_isAlphanum {c : Char} (h : c.isAlphanum = true) : isQuiet c = true := by
  rw [isQuiet, Bool.not_eq_true', ← Bool.not_eq_true, List.contains_iff_mem]
  intro hmem
  simp only [List.mem_cons, List.not_mem_nil, or_false] at hmem
  rcases hmem with rfl | rfl | rfl | rfl | rfl | rfl | rfl | rfl | rfl | rfl
  all_goals exact absurd h (by decide)

theorem isQuiet_of_isDigit {c : Char} (h : c.isDigit = true) : isQuiet c = true :=
  isQuiet_of_isAlphanum (by simp [Char.isAlphanum, h])

/-- A digit in hexadecimal is a letter or a digit. -/
theorem isAlphanum_of_isHexDigit {c : Char} (h : Numeral.isHexDigit c = true) :
    c.isAlphanum = true := by
  simp only [Numeral.isHexDigit, Bool.or_eq_true, Bool.and_eq_true, decide_eq_true_eq] at h
  delta Char.isAlphanum Char.isAlpha Char.isUpper Char.isLower
  simp only [Bool.or_eq_true, Bool.and_eq_true, decide_eq_true_eq]
  rcases h with (h | ⟨hlow, hhigh⟩) | ⟨hlow, hhigh⟩
  · exact .inr h
  · exact .inl (.inr ⟨hlow, Char.le_trans hhigh (by decide)⟩)
  · exact .inl (.inl ⟨hlow, Char.le_trans hhigh (by decide)⟩)

/-- The characters of numerals are quiet. -/
theorem isQuiet_of_isNumeralChar {c : Char} (h : Numeral.isNumeralChar c = true) :
    isQuiet c = true := by
  simp only [Numeral.isNumeralChar, Bool.or_eq_true, List.contains_iff_mem] at h
  rcases h with h | h
  · exact isQuiet_of_isAlphanum (isAlphanum_of_isHexDigit h)
  · have hsigns : ['x', 'X', 'p', 'P', '.', '+', '-'].all isQuiet = true := by decide
    exact List.all_eq_true.1 hsigns c h

/-! ## Names -/

namespace Name

variable {name : String}

/-- An identifier is quiet. -/
theorem quiet_of_isValid (h : isValid name = true) : Quiet name := by
  unfold isValid at h
  split at h
  · cases h
  next c cs hname =>
    simp only [Bool.and_eq_true, Bool.or_eq_true, beq_iff_eq, List.all_eq_true] at h
    obtain ⟨⟨hfirst, hrest⟩, -⟩ := h
    rw [Quiet, hname]
    refine List.forall_mem_cons.2 ⟨?_, fun d hd => ?_⟩
    · rcases hfirst with hfirst | rfl
      · exact isQuiet_of_isAlphanum (by simp [Char.isAlphanum, hfirst])
      · rfl
    · rcases hrest d hd with hd | rfl
      · exact isQuiet_of_isAlphanum hd
      · rfl

/-- The fixed spellings are quiet. -/
theorem quiet_of_lookup {spelling : String} (h : fixedSpellings.lookup name = some spelling) :
    Quiet spelling := by
  have hall : ∀ entry ∈ fixedSpellings, Quiet entry.2 := by decide
  obtain ⟨before, behind, heq, -⟩ := List.lookup_eq_some_iff.1 h
  exact hall (name, spelling) (by simp [heq])

/-- A quiet name is bound in quiet text. -/
theorem quiet_asBinding (h : Quiet name) : Quiet (asBinding name) := by
  unfold asBinding
  split
  · decide
  · split
    next hlookup => exact quiet_of_lookup hlookup
    · split
      · exact Quiet.append (by decide) h
      · exact h

/-- A quiet name is quiet as a property. -/
theorem quiet_asProperty (h : Quiet name) : Quiet (asProperty name) := by
  unfold asProperty
  cases hlookup : fixedSpellings.lookup name with
  | none => exact h
  | some spelling => exact quiet_of_lookup hlookup

end Name

/-- A natural number is written in digits. -/
theorem isDigit_of_mem_toString {n : Nat} {c : Char} (h : c ∈ (toString n).toList) :
    c.isDigit = true := by
  rw [show toString n = n.repr from rfl, Nat.toList_repr] at h
  exact Nat.isDigit_of_mem_toDigits (by decide) (by decide) h

theorem quiet_toString (n : Nat) : Quiet (toString n) :=
  fun _ hc => isQuiet_of_isDigit (isDigit_of_mem_toString hc)

/-! ## Generated names -/

namespace Scope

/-- The generated names of an analysis are names. -/
structure Analysis.IsNamed (t : Analysis) : Prop where
  scopes : ∀ scope ∈ t.scopes, ∀ entry ∈ scope, ∀ generated, entry.2 = some generated →
    Name.isValid generated = true
  renamed : ∀ (id : NodeId) generated, t.annotations.renamed[id]? = some generated → Name.isValid generated = true

namespace Analysis

variable {t : Analysis}

/-- A generated name is an identifier when the name it comes from is. -/
theorem isValid_freshName {name : String} (h : Name.isValid name = true) (k : Nat) :
    Name.isValid (freshName name k) = true := by
  have hdigits : ∀ d ∈ (toString k).toList, (d.isAlphanum || d == '_') = true := fun d hd => by
    simp [Char.isAlphanum, isDigit_of_mem_toString hd]
  have hword : Keyword.all.all (fun word => word.text != freshName name k) = true := by
    -- no keyword ends in a digit
    have hkeywords : ∀ word ∈ Keyword.all, Emit.endsInDigit word.text = false := by decide
    rw [List.all_eq_true]
    intro word hmem
    rw [bne_iff_ne]
    intro heq
    have hdigit := hkeywords word hmem
    rw [heq, Emit.endsInDigit_freshName] at hdigit
    cases hdigit
  unfold Name.isValid at h ⊢
  split at h
  · cases h
  next c cs hname =>
    simp only [Bool.and_eq_true, List.all_eq_true] at h
    obtain ⟨⟨hfirst, hrest⟩, -⟩ := h
    have htext : ∃ ds, (freshName name k).toList = c :: ds ∧
        ds.all (fun d => d.isAlphanum || d == '_') = true := by
      unfold freshName
      split
      next hplaceholder =>
        have hchars : Name.placeholder.toList = ['_'] := by decide
        rw [hplaceholder, hchars] at hname
        obtain ⟨rfl, rfl⟩ := List.cons.inj hname
        exact ⟨(toString k).toList, by simp [hchars], List.all_eq_true.2 hdigits⟩
      · refine ⟨cs ++ '_' :: (toString k).toList, by simp [hname], ?_⟩
        rw [List.all_append, List.all_cons, List.all_eq_true.2 hrest, List.all_eq_true.2 hdigits]
        rfl
    obtain ⟨ds, heq, hds⟩ := htext
    rw [heq]
    simp only [Bool.and_eq_true]
    exact ⟨⟨hfirst, hds⟩, hword⟩

/-- Only the names of the scopes and the renamed identifiers count. -/
theorem IsNamed.congr {t' : Analysis} (h : t.IsNamed) (hscopes : t'.scopes = t.scopes)
    (hrenamed : t'.annotations.renamed = t.annotations.renamed) : t'.IsNamed :=
  ⟨hscopes ▸ h.scopes, hrenamed ▸ h.renamed⟩

/-- A name is bound, to itself or to a generated identifier. -/
theorem IsNamed.bind (h : t.IsNamed) (name : String) {generated : Option String}
    (hg : ∀ g, generated = some g → Name.isValid g = true) : (t.bind name generated).IsNamed := by
  obtain ⟨scopes, annotations, suffix, reads⟩ := t
  cases scopes with
  | nil => exact h
  | cons scope outer =>
    obtain ⟨hscope, houter⟩ := List.forall_mem_cons.1 h.scopes
    refine ⟨List.forall_mem_cons.2 ⟨List.forall_mem_cons.2 ⟨hg, hscope⟩, houter⟩, h.renamed⟩

theorem IsNamed.bindPlain (h : t.IsNamed) (name : String) : (t.bind name none).IsNamed :=
  h.bind name fun _ hg => nomatch hg

/-- An identifier is renamed to another one. -/
theorem IsNamed.noteRenamed (h : t.IsNamed) (id : NodeId) {generated : String}
    (hg : Name.isValid generated = true) : (t.noteRenamed id generated).IsNamed := by
  refine ⟨h.scopes, fun other g hother => ?_⟩
  rw [Analysis.noteRenamed, Std.TreeMap.getElem?_insert] at hother
  split at hother
  · exact Option.some.inj hother ▸ hg
  · exact h.renamed other g hother

/-- A redeclared variable gets a generated identifier. -/
theorem IsNamed.rename (h : t.IsNamed) {v : Identifier} (hv : Name.isValid v.name = true) :
    (t.rename v).IsNamed := by
  have hfresh := isValid_freshName hv (t.suffix + 1)
  have hnoted : IsNamed ({ t with suffix := t.suffix + 1 }.noteRenamed v.id
      (freshName v.name (t.suffix + 1))) := by
    refine IsNamed.noteRenamed ?_ v.id hfresh
    exact h.congr rfl rfl
  exact hnoted.bind v.name fun g hg => Option.some.inj hg ▸ hfresh

/-- What the innermost scope knows a name as is an identifier. -/
theorem IsNamed.innermost (h : t.IsNamed) {name generated : String}
    (hg : t.innermost? name = some (some generated)) : Name.isValid generated = true := by
  obtain ⟨scope, hscope, hlookup⟩ := Option.bind_eq_some_iff.1 hg
  exact h.scopes scope (List.mem_of_head? hscope) _ (mem_of_lookup hlookup) _ rfl

/-- What any scope knows a name as is an identifier. -/
theorem IsNamed.lookup (h : t.IsNamed) {name generated : String}
    (hg : t.lookup? name = some (some generated)) : Name.isValid generated = true := by
  obtain ⟨scope, hscope, hlookup⟩ := List.exists_of_findSome?_eq_some hg
  exact h.scopes scope hscope _ (mem_of_lookup hlookup) _ rfl

theorem IsNamed.redeclare (h : t.IsNamed) (v : Identifier) : (t.redeclare v).IsNamed := by
  unfold Analysis.redeclare
  split
  next generated hgenerated =>
    refine IsNamed.noteRenamed ?_ v.id (h.innermost hgenerated)
    exact h.congr rfl rfl
  · exact ⟨h.scopes, h.renamed⟩

theorem IsNamed.parameter (h : t.IsNamed) {v : Identifier} (hv : Name.isValid v.name = true) :
    (t.parameter v).IsNamed := by
  unfold Analysis.parameter
  split
  · exact h.rename hv
  · exact h.bindPlain v.name

/-- One variable is declared, redeclared or renamed. -/
theorem IsNamed.declareOne (h : t.IsNamed) {v : Identifier} (hv : Name.isValid v.name = true)
    (vars : List Identifier) (init : List Expr) (last : NodeId) :
    (declareOne vars init last t v).IsNamed := by
  unfold Analysis.declareOne
  dsimp only
  split_ifs
  · exact h.rename hv
  · exact h.bindPlain v.name
  · exact h.redeclare v
  · exact h.rename hv
  · exact h.bindPlain v.name

/-- What each of some names keeps, all of them keep. -/
theorem IsNamed.foldl {f : Analysis → Identifier → Analysis}
    (hf : ∀ t v, t.IsNamed → Name.isValid v.name = true → (f t v).IsNamed) {vars : List Identifier}
    (h : t.IsNamed) (hvars : ∀ v ∈ vars, Name.isValid v.name = true) : (vars.foldl f t).IsNamed := by
  induction vars generalizing t with
  | nil => exact h
  | cons v vs ih =>
    obtain ⟨hv, hvs⟩ := List.forall_mem_cons.1 hvars
    exact ih (hf t v h hv) hvs

/-- A `local` statement declares its variables. -/
theorem IsNamed.declare (h : t.IsNamed) (id : NodeId) {vars : List Identifier} (init : List Expr)
    (hvars : ∀ v ∈ vars, Name.isValid v.name = true) : (t.declare id vars init).IsNamed := by
  have hdeclared := h.foldl (fun _ _ ht hv => ht.declareOne hv vars init
    ((vars.map Identifier.id).foldl max 0)) hvars
  unfold Analysis.declare
  dsimp only
  split
  · exact ⟨hdeclared.scopes, hdeclared.renamed⟩
  · exact hdeclared

/-- A reference notes the identifier it resolves to. -/
theorem IsNamed.reference (h : t.IsNamed) (id : NodeId) (name : String) :
    (t.reference id name).IsNamed := by
  unfold Analysis.reference
  dsimp only
  split
  · exact ⟨h.scopes, h.renamed⟩
  next generated hgenerated =>
    split
    · refine IsNamed.noteRenamed ?_ id (h.lookup hgenerated)
      exact h.congr rfl rfl
    · exact ⟨h.scopes, h.renamed⟩

/-- Every event keeps identifiers identifiers. -/
theorem IsNamed.step (h : t.IsNamed) {event : Event} (hevent : event.IsNamed) :
    (t.step event).IsNamed := by
  cases event with
  | enter receiver => exact ⟨List.forall_mem_cons.2 ⟨List.forall_mem_nil _, h.scopes⟩, h.renamed⟩
  | leave => exact ⟨fun scope hscope => h.scopes scope (List.mem_of_mem_tail hscope), h.renamed⟩
  | parameters identifiers =>
    exact h.foldl (fun _ _ ht hv => ht.parameter hv) hevent
  | declare id vars init => exact h.declare id init hevent
  | declareFunction identifier =>
    unfold Analysis.step
    dsimp only
    split
    · exact h.redeclare identifier
    · exact h.bindPlain identifier.name
  | reference id name => exact h.reference id name

end Analysis

/-- **Generated names are names**, if what the events are about are. -/
theorem named_analyse {events : List Event} (h : ∀ event ∈ events, event.IsNamed) :
    (analyse events).IsNamed := by
  have hstart : Analysis.IsNamed {} := ⟨List.forall_mem_nil _, fun _ _ h => by simp at h⟩
  have hrun : ∀ (es : List Event) (t : Analysis), (∀ e ∈ es, e.IsNamed) → t.IsNamed →
      (es.foldl Analysis.step t).IsNamed := by
    intro es
    induction es with
    | nil => exact fun _ _ ht => ht
    | cons e es ih =>
      intro t hes ht
      obtain ⟨he, hrest⟩ := List.forall_mem_cons.1 hes
      exact ih _ hrest (ht.step he)
  exact hrun events {} h hstart

/-- What a name is resolved to is a name. -/
theorem isValid_resolve {events : List Event} (h : ∀ event ∈ events, event.IsNamed) (id : NodeId)
    {name : String} (hname : Name.isValid name = true) :
    Name.isValid ((analyse events).annotations.resolve id name) = true := by
  rw [Annotations.resolve, Std.TreeMap.getD_eq_getD_getElem?]
  cases hrenamed : (analyse events).annotations.renamed[id]? with
  | none => exact hname
  | some generated => exact (named_analyse h).renamed id generated hrenamed

end Scope

/-! ## Numerals -/

namespace Binary64

/-- A decimal is written in the characters of numerals. -/
theorem Decimal.isNumeralChar_text (d : Decimal) :
    ∀ c ∈ d.text.toList, Numeral.isNumeralChar c = true := by
  have hdigit : ∀ c ∈ Nat.toDigits 10 d.digits, Numeral.isNumeralChar c = true := fun c hc =>
    Numeral.isNumeralChar_of_isDigit (Nat.isDigit_of_mem_toDigits (by decide) (by decide) hc)
  have hzeros (n : Nat) : ∀ c ∈ List.replicate n '0', Numeral.isNumeralChar c = true :=
    fun c hc => by
      rw [List.eq_of_mem_replicate hc]
      rfl
  unfold Decimal.text
  dsimp only
  intro c hc
  split at hc
  · rw [String.toList_ofList, List.mem_append] at hc
    exact hc.elim (hdigit c) (hzeros _ c)
  · have hpadded (n : Nat) : ∀ c ∈ List.replicate n '0' ++ Nat.toDigits 10 d.digits,
        Numeral.isNumeralChar c = true :=
      fun c hc => (List.mem_append.1 hc).elim (hzeros n c) (hdigit c)
    rw [String.toList_ofList, List.mem_append, List.mem_cons] at hc
    rcases hc with hc | rfl | hc
    · exact hpadded _ c (List.mem_of_mem_take hc)
    · rfl
    · exact hpadded _ c (List.mem_of_mem_drop hc)

theorem Decimal.quiet_text (d : Decimal) : Quiet d.text :=
  fun c hc => isQuiet_of_isNumeralChar (d.isNumeralChar_text c hc)

theorem Magnitude.quiet_text (m : Magnitude) : Quiet m.text := by
  unfold Magnitude.text
  split
  · split
    · decide
    · exact Decimal.quiet_text _
  · decide
  · decide

theorem Signed.quiet_text (value : Signed) : Quiet value.text := by
  unfold Signed.text
  split
  · exact Quiet.append (by decide) value.magnitude.quiet_text
  · exact value.magnitude.quiet_text

end Binary64

/-- A numeral is quiet as it is spelled. -/
theorem Numeral.quiet_script {value : Binary64.Magnitude} {raw : String}
    (h : (Token.Kind.number value raw).isSpelled = true) : Quiet (script value raw) := by
  have hraw : Quiet raw := fun c hc => isQuiet_of_isNumeralChar (isNumeralChar_of_isSpelled h c hc)
  unfold script
  split
  · split
    · exact value.quiet_text
    · exact hraw
  · exact hraw

/-! ## Contexts -/

namespace Emit

/-- **A context whose names and texts can be written into code.** -/
structure Context.Tame (ctx : Context) : Prop where
  names : ∀ id name, Name.isValid name = true →
    Name.isValid (ctx.annotations.resolve id name) = true
  quote : '"' ∉ ctx.fileName.toList
  slash : '\\' ∉ ctx.fileName.toList
  valueTypes : Plain ctx.options.valueTypeNamespace

namespace Context.Tame

variable {ctx : Context} (h : ctx.Tame)

include h

theorem inBlock : ctx.inBlock.Tame := ⟨h.names, h.quote, h.slash, h.valueTypes⟩

theorem inLoop (body : List Stmt) : (ctx.inLoop body).Tame :=
  ⟨h.names, h.quote, h.slash, h.valueTypes⟩

theorem asValue : ctx.asValue.Tame := ⟨h.names, h.quote, h.slash, h.valueTypes⟩

theorem asBound : ctx.asBound.Tame := ⟨h.names, h.quote, h.slash, h.valueTypes⟩

/-- A function's own names do not make a context wild. -/
theorem inFunction (parameters shown : List Identifier) (receiver : Option String) :
    (ctx.inFunction parameters shown receiver).Tame :=
  ⟨h.names, h.quote, h.slash, h.valueTypes⟩

/-- An identifier is declared in plain text. -/
theorem declaredName {v : Identifier} (hv : Name.isValid v.name = true) :
    Plain (ctx.declaredName v) :=
  Script.plain_of_quiet (Name.quiet_asBinding (Name.quiet_of_isValid (h.names v.id v.name hv)))

omit h in
/-- A reference that is no receiver is plain. -/
theorem plain_referenceText {name : String} (hname : Quiet name) : Plain (referenceText ctx name) := by
  unfold referenceText
  split
  · split <;> decide
  · split
    · exact Script.plain_of_quiet (Quiet.append (by decide) hname)
    · exact Script.plain_of_quiet (Name.quiet_asBinding hname)

/-- A name is written in plain text wherever it stands. -/
theorem wordText (id : NodeId) {name : String} (isTarget : Bool)
    (hname : Name.isValid name = true) : Plain (Word.text ⟨ctx, id, name, isTarget⟩) := by
  have hresolved := Name.quiet_of_isValid (h.names id name hname)
  cases isTarget with
  | false => exact plain_referenceText hresolved
  | true => exact Script.plain_of_quiet (Name.quiet_asBinding hresolved)

/-- So is the name of the file. -/
theorem fileNameText : Plain ("\"" ++ ctx.fileName ++ "\"") :=
  Script.plain_quote h.quote h.slash

end Context.Tame

/-- The context of a program is tame. -/
theorem Context.tame_of_events {ctx : Context} {events : List Scope.Event}
    (hevents : ∀ event ∈ events, event.IsNamed)
    (hannotations : ctx.annotations = (Scope.analyse events).annotations)
    (hquote : '"' ∉ ctx.fileName.toList) (hslash : '\\' ∉ ctx.fileName.toList)
    (hvalueTypes : Plain ctx.options.valueTypeNamespace) : ctx.Tame := by
  refine ⟨fun id name hname => ?_, hquote, hslash, hvalueTypes⟩
  rw [hannotations]
  exact Scope.isValid_resolve hevents id hname

end Emit

end LuaCompiler
