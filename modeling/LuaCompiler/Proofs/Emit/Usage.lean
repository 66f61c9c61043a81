import LuaCompiler.Proofs.Emit.References

/-!
# The texts of the rules keep to a usage

For every rule that puts a text together: if its parts refer to the support module as a usage admits,
then so does the text.

* `Entry.Refers`, `FunctionText.Refers`: parts that are not yet texts.
* `grounded_sealing`: what seals classes, where that is admitted.
-/

namespace LuaCompiler.Emit

open Script (Refers Grounded Silent Reads Provided Fixed Lead Trail Link)

variable {u : Script.Usage} {dangling dangling' : Bool} {s t v : String} {ts us : List String}
  {ctx : Context}

/-! ## Operators -/

/-- An operator refers to what its operands do, which the blanks around the sign keep apart. -/
theorem grounded_nativeBinary (hs : Refers u dangling s) (ht : Refers u dangling' t)
    (operator : BinaryOperator) : Grounded u (nativeBinary operator s t) := by
  have hfloor : Grounded u "Math.floor" := Fixed.grounded (by decide)
  unfold nativeBinary
  split
  · exact hfloor.parensBehind (hs.between (by decide) ht)
  · have hsign : Link (" " ++ operatorSign operator ++ " ") := by cases operator <;> decide
    have h := hs.between hsign ht
    rw [← String.append_assoc, ← String.append_assoc] at h
    exact h.parens

/-- The functions that operators call have fixed names. -/
theorem fixed_operatorFunction {operator : BinaryOperator} {function : String}
    (h : operatorFunction? operator = some function) : Fixed function := by
  cases operator <;> cases h <;> decide

/-- The same when the operator is a call. -/
theorem grounded_binaryText (hs : Refers u true s) (ht : Refers u true t) (operator : BinaryOperator)
    (hasString : Bool) : Grounded u (binaryText ctx operator hasString s t) := by
  unfold binaryText
  split
  next function hfunction =>
    have hname : operatorFunction? operator = some function := by
      split at hfunction
      · exact hfunction
      · cases hfunction
    have hfixed : Grounded u function := (fixed_operatorFunction hname).grounded
    exact hfixed.call (List.forall_mem_cons.2 ⟨hs, List.forall_mem_singleton.2 ht⟩)
  · exact grounded_nativeBinary hs ht operator

/-- An operator before its operand refers to what that does. -/
theorem refers_unaryText (h : Refers u true t) (operator : UnaryOperator) :
    Refers u true (unaryText ctx operator t) := by
  have hcall {function : String} (hf : Grounded u function) :
      Refers u true (callText function [t]) :=
    (hf.call (List.forall_mem_singleton.2 h)).weaken true
  cases operator with
  | not => exact h.before (by decide)
  | len => exact hcall grounded_length
  | bitNot => exact h.before (by decide)
  | neg =>
    unfold unaryText
    dsimp only
    split_ifs
    · exact hcall (Fixed.grounded (by decide))
    · exact (h.parens.before (by decide)).weaken true
    · exact h.before (by decide)

/-- A condition is a call of the namespace with a fixed name. -/
theorem grounded_condition (h : Refers u dangling t) : Grounded u ("l2j.condition" ++ parens t) :=
  (Fixed.grounded (by decide) : Grounded u "l2j.condition").parensBehind h

/-- A logical operator refers to what its operands do, written once or twice. -/
theorem grounded_logicalText (hs : Refers u true s) (ht : Refers u true t)
    (operator : LogicalOperator) (repeatable : Bool) :
    Grounded u (logicalText ctx operator repeatable s t) := by
  have hchoice {a b c : String} (ha : Grounded u a) (hb : Refers u true b) (hc : Refers u true c) :
      Grounded u (parens (a ++ " ? " ++ b ++ " : " ++ c)) :=
    ((ha.between (s := " ? ") (by decide) hb).between (s := " : ") (by decide) hc).parens
  have hcall {function : String} (hf : Grounded u function) :
      Grounded u (callText function [s, "() => " ++ parens t]) :=
    hf.call (List.forall_mem_cons.2
      ⟨hs, List.forall_mem_singleton.2 ((ht.parens.before (by decide)).weaken true)⟩)
  unfold logicalText
  cases ctx.valueContext with
  | false =>
    have hsign : Link (" " ++ logicalSign operator ++ " ") := by cases operator <;> decide
    have h := hs.between hsign ht
    rw [← String.append_assoc, ← String.append_assoc] at h
    exact h.parens
  | true =>
    unfold logicalValue
    cases operator <;> cases repeatable
    · exact hcall (Fixed.grounded (by decide))
    · exact hchoice (grounded_condition hs) ht hs
    · exact hcall (Fixed.grounded (by decide))
    · exact hchoice (grounded_condition hs) hs ht

theorem grounded_conditionalText (hs : Refers u true s) (ht : Refers u true t)
    (hv : Refers u true v) : Grounded u (conditionalText s t v) := by
  have hconsequent := (grounded_condition hs).between (s := " ? ") (by decide) ht.parens
  exact (hconsequent.between (s := " : ") (by decide) hv.parens).parens

/-! ## Lists and tables -/

/-- Packed values refer to what each does. -/
theorem refers_packText (h : ∀ t ∈ ts, Refers u true t) : Refers u true (packText ts) := by
  unfold packText
  split
  · exact Script.grounded_empty.weaken true
  next only => exact h only (List.mem_singleton_self only)
  · exact (Script.refers_commas h).brackets.weaken true

/-- The texts of an entry keep to a usage. -/
def Entry.Refers (u : Script.Usage) : Entry → Prop
  | .positional value => Script.Refers u true value
  | .named key value => Grounded u key ∧ Script.Refers u true value
  | .computed key value => Script.Refers u true key ∧ Script.Refers u true value

variable {entries : List Entry}

/-- An entry refers to what its value does. -/
theorem Entry.Refers.value {entry : Entry} (h : entry.Refers u) : Script.Refers u true entry.value := by
  cases entry with
  | positional value => exact h
  | named key value | computed key value => exact h.2

/-- Entries are written in texts that refer to what they do. -/
theorem refers_entryTexts (h : ∀ entry ∈ entries, entry.Refers u) (n : Nat) :
    ∀ t ∈ entryTexts n entries, Refers u true t := by
  induction entries generalizing n with
  | nil => exact List.forall_mem_nil _
  | cons entry rest ih =>
    obtain ⟨hentry, hrest⟩ := List.forall_mem_cons.1 h
    cases entry with
    | positional value =>
      exact List.forall_mem_cons.2 ⟨(grounded_toString n).between (s := ": ") (by decide) hentry,
        ih hrest (n + 1)⟩
    | named key value =>
      exact List.forall_mem_cons.2 ⟨hentry.1.between (s := ": ") (by decide) hentry.2, ih hrest n⟩
    | computed key value =>
      exact List.forall_mem_cons.2 ⟨hentry.1.brackets.between (s := ": ") (by decide) hentry.2,
        ih hrest n⟩

/-- A table refers to what its entries do. -/
theorem grounded_tableText (h : ∀ entry ∈ entries, entry.Refers u) (fields : List Field) :
    Grounded u (tableText fields entries) := by
  have hconvert : Grounded u "l2j.convertJsArrayToLuaTable" := Fixed.grounded (by decide)
  unfold tableText
  split
  · refine hconvert.parensBehind (Script.refers_commas fun t ht => ?_).brackets
    obtain ⟨entry, hentry, rfl⟩ := List.mem_map.1 ht
    exact (h entry hentry).value
  · exact (Script.refers_commas (refers_entryTexts h 1)).braced

/-! ## Classes -/

/-- Texts on lines of their own. -/
theorem grounded_lines (h : ∀ t ∈ ts, Grounded u t) : Grounded u ("\n".intercalate ts) := by
  induction ts with
  | nil => exact Script.grounded_empty
  | cons t ts ih =>
    obtain ⟨ht, hts⟩ := List.forall_mem_cons.1 h
    cases ts with
    | nil => simpa using ht
    | cons v ts =>
      rw [String.intercalate_cons_cons]
      exact (ht.behindSilent (by decide : Silent "\n")).append (ih hts)
        (.inl (Script.endsWord_append_of (by decide) (by decide) t))

/-- Members and parent of a class keep to a usage. -/
def ClassRefers (u : Script.Usage) (body : List String × Option String) : Prop :=
  (∀ t ∈ body.1, Grounded u t) ∧ ∀ t ∈ body.2, Refers u true t

variable {body : List String × Option String}

/-- A class refers to what its members, its parent and its name do. -/
theorem ClassRefers.text (h : ClassRefers u body) (name : Option String)
    (hname : ∀ n ∈ name, Grounded u n) : Grounded u (classText name body.2 body.1) := by
  obtain ⟨members, parent⟩ := body
  have hclass : Grounded u ("class" ++ (name.map (" " ++ ·)).getD "") := by
    have hword : Grounded u "class" := Fixed.grounded (by decide)
    cases name with
    | none => exact hword.behindSilent (by decide)
    | some name =>
      rw [Option.map_some, Option.getD_some]
      exact hword.append ((hname name rfl).beforeSilent (s := " ") (by decide))
        (.inr (Script.startsWord_append_of (by decide) (by decide) _))
  have hheading : Refers u true ("class" ++ (name.map (" " ++ ·)).getD "" ++
      (parent.map (" extends " ++ ·)).getD "") := by
    cases parent with
    | none => exact (hclass.behindSilent (by decide)).weaken true
    | some parent =>
      rw [Option.map_some, Option.getD_some, ← String.append_assoc]
      exact hclass.between (s := " extends ") (by decide) (h.2 parent rfl)
  have hmembers := ((grounded_lines h.1).beforeSilent (s := "\n") (by decide)).behindSilent
    (v := "\n") (by decide)
  exact (hheading.behindSilent (v := " ") (by decide)).bracedBehind hmembers

theorem grounded_createClassText (h : ∀ t ∈ ts, Refers u true t) : Grounded u (createClassText ts) :=
  (Fixed.grounded (by decide) : Grounded u "l2j.createClass").call h

/-! ## Functions -/

/-- Parameters and body of a function keep to a usage. -/
structure FunctionText.Refers (u : Script.Usage) (f : FunctionText) : Prop where
  parameters : Script.Refers u true f.parameters
  body : Script.Refers u true f.body

/-- Values in brackets refer to what each does. -/
theorem refers_sequence (h : ∀ t ∈ ts, Refers u true t) : Refers u true (sequence ts) :=
  Script.refers_intercalate (by decide) h

section Function

variable {f : FunctionText} (h : f.Refers u)

include h

/-- The text of a function behind its name. -/
theorem FunctionText.Refers.behind (ht : Grounded u t) :
    Grounded u (t ++ parens f.parameters ++ braced f.body) :=
  (ht.parensBehind h.parameters).bracedBehind h.body

theorem FunctionText.Refers.expression : Grounded u f.expression :=
  h.behind (Fixed.grounded (by decide))

/-- A method refers to what its key and its body do. -/
theorem FunctionText.Refers.member (convention : Convention) {key : String} (hkey : Grounded u key) :
    Grounded u (f.member convention key) := by
  have hlead : Grounded u ((if convention.receiver == some "cls" then "static " else "") ++ key) := by
    split
    · exact hkey.before (by decide)
    · exact hkey.beforeSilent (by decide)
  exact ((hlead.parensBehind h.parameters).behindSilent (v := " ") (by decide)).bracedBehind h.body

/-- A function with a name is assigned or declared; neither refers to more. -/
theorem FunctionText.Refers.named (ht : Grounded u t) (isLocal redeclares : Bool) :
    Grounded u (f.named t isLocal redeclares) := by
  have hdeclaration := h.behind (ht.before (s := "function ") (by decide))
  have hglobal : Grounded u "\n_G." := Fixed.grounded (by decide)
  unfold FunctionText.named
  dsimp only
  split
  · split
    · exact ht.between (by decide) h.expression
    · exact hdeclaration
  · have hpublished := (hdeclaration.append (hglobal.append ht (.inl (by decide)))
      (.inr (Script.startsWord_append_of (by decide) (by decide) t)))
    have hall := (hpublished.between (s := " = ") (by decide) ht).behind (s := ";\n") (by decide)
    simpa only [String.append_assoc] using hall

/-- **A function that the program puts into a library.** -/
theorem FunctionText.Refers.assigned {base : Expr} (hbase : IsBase u ctx base t)
    (convention : Convention) {identifier : Identifier} (hname : Name.IsClear identifier.name) :
    Grounded u (f.assigned convention t identifier) := by
  unfold FunctionText.assigned
  dsimp only
  split
  · exact (grounded_member hbase.native.2 hname).between (by decide) h.expression
  · -- the key is written as a member, which records nothing of the base
    have hkey : Reads ("." ++ Name.asProperty identifier.name ++ " = function ")
        [.sign '.', .word (Name.asProperty identifier.name).toList, .sign '=',
          .word "function".toList] :=
      (reads_dotted hname.valid).append (by decide) (.inr (by decide))
    have hstart : Script.startsWord
        ("." ++ Name.asProperty identifier.name ++ " = function ") = false :=
      Script.startsWord_append_of (Script.startsWord_append_of (by decide) (by decide) _)
        (fun hempty => by simpa using congrArg String.toList hempty) _
    have hnone : Script.Lexeme.word Script.supportName ∉
        [.sign '.', .word (Name.asProperty identifier.name).toList, .sign '=',
          .word "function".toList] := by
      have hdotted := support_not_mem_dotted hname.ne
      have hfunction : Script.supportName ≠ "function".toList := by decide
      simp only [List.mem_cons, reduceCtorEq, Script.Lexeme.word.injEq, List.not_mem_nil, or_false,
        false_or] at hdotted ⊢
      exact fun hmem => hmem.elim hdotted hfunction
    have hhead := hbase.append hkey hstart hnone fun library _ _ _ => .assigned
    have heq : t ++ "." ++ Name.asProperty identifier.name ++ " = " ++ f.expression =
        t ++ ("." ++ Name.asProperty identifier.name ++ " = function ") ++ parens f.parameters ++
          braced f.body := by
      apply String.toList_inj.1
      simp [FunctionText.expression]
    rw [heq]
    exact h.behind hhead

end Function

/-- A function refers to what its parameters and its body do. -/
theorem refers_functionText (convention : Convention)
    (hshown : ∀ n ∈ convention.shown, Grounded u (ctx.declaredName n))
    (isVararg captured : Bool) (h : ∀ t ∈ ts, Refers u true t) :
    (functionText ctx convention isVararg captured ts).Refers u := by
  constructor
  · refine Script.refers_commas fun t ht => ?_
    rw [List.mem_append, List.mem_map] at ht
    rcases ht with ⟨n, hn, rfl⟩ | ht
    · exact (hshown n hn).weaken true
    · split at ht
      · rw [List.mem_singleton.1 ht]
        exact (Fixed.grounded (by decide)).weaken true
      · cases ht
  · unfold functionText
    dsimp only
    split
    · exact (refers_sequence h).before (by decide)
    · exact (refers_sequence h).beforeSilent (by decide)

/-! ## Statements -/

theorem grounded_ifText (hs : Refers u dangling s) (ht : Refers u dangling' t) :
    Grounded u (ifText s t) :=
  (((Fixed.grounded (by decide) : Grounded u "if ").parensBehind hs).behindSilent (v := " ")
    (by decide)).bracedBehind ht

theorem grounded_elseIfText (hs : Refers u dangling s) (ht : Refers u dangling' t) :
    Grounded u (elseIfText s t) :=
  (grounded_ifText hs ht).before (by decide)

theorem grounded_elseText (h : Refers u dangling t) : Grounded u (elseText t) :=
  (Fixed.grounded (by decide) : Grounded u "else ").bracedBehind h

theorem grounded_whileText (hs : Refers u dangling s) (ht : Refers u dangling' t) :
    Grounded u (whileText s t) :=
  (((Fixed.grounded (by decide) : Grounded u "while ").parensBehind hs).behindSilent (v := " ")
    (by decide)).bracedBehind ht

/-- A loop refers to what its body and its condition do. -/
theorem grounded_repeatText (hs : Refers u dangling s) (ht : Refers u dangling' t) :
    Grounded u (repeatText s t) := by
  have hbody := (Fixed.grounded (by decide) : Grounded u "do ").bracedBehind hs
  exact (hbody.behind (s := " while ") (by decide)).parensBehind
    (ht.parens.before (s := "!") (by decide))

/-- The header of a loop counts up or down, with fixed texts. -/
theorem grounded_forNumericHeader {name : String} (hname : Grounded u name) (first : Expr)
    (step : Option Expr) (hs : Refers u true s) (ht : Refers u true t) (hv : Refers u true v) :
    Grounded u (forNumericHeader name first step s t v) := by
  have hstart : Refers u true (if first.isNumber .one then "0" else s) := by
    split
    · exact (Fixed.grounded (by decide)).weaken true
    · exact hs
  have hcompare : Link (" " ++ ((if step.any isNegative then ">" else "<") ++
      if first.isNumber .one then "" else "=") ++ " ") := by
    cases step.any isNegative <;> cases first.isNumber .one <;> decide
  have hinit := ((hname.before (s := "let ") (by decide)).between (s := " = ") (by decide)
    hstart).between (s := "; ") (by decide) hname
  have htest := (hinit.between hcompare ht).between (s := "; ") (by decide) hname
  have hnext := (htest.between (s := " = ") (by decide) hname).between (s := " + ") (by decide) hv
  have hall := (Fixed.grounded (by decide) : Grounded u "for ").parensBehind hnext
  simpa only [forNumericHeader, String.append_assoc] using hall

/-- A generic loop refers to what it runs over and what its body does. -/
theorem grounded_forGenericText {vars : List Identifier}
    (hvars : ∀ n ∈ vars, Grounded u (ctx.declaredName n)) (hs : Refers u dangling s)
    (ht : Refers u dangling' t) : Grounded u (forGenericText ctx vars s t) := by
  have hnames : ∀ t ∈ vars.map ctx.declaredName, Grounded u t := fun t ht => by
    obtain ⟨n, hn, rfl⟩ := List.mem_map.1 ht
    exact hvars n hn
  obtain ⟨target, htext, htarget⟩ : ∃ target, forGenericText ctx vars s t =
      "for " ++ parens ("let " ++ target ++ " of " ++ s) ++ " " ++ braced t ∧ Grounded u target := by
    refine ⟨_, rfl, ?_⟩
    split
    next only honly => exact hnames only (by rw [honly]; exact List.mem_singleton_self only)
    · exact (Script.refers_commas fun t ht => (hnames t ht).weaken true).brackets
  rw [htext]
  have hheader := (htarget.before (s := "let ") (by decide)).between (s := " of ") (by decide) hs
  exact (((Fixed.grounded (by decide) : Grounded u "for ").parensBehind hheader).behindSilent
    (v := " ") (by decide)).bracedBehind ht

/-- Classes are sealed one by one. -/
theorem sealing_cons (t : String) (ts : List String) :
    sealing (t :: ts) = "l2j.finishClass(" ++ t ++ ");\n" ++ sealing ts := by
  simp [sealing, String.join_cons]

/-- What seals classes ends no word. -/
theorem endsWord_sealing (ts : List String) : Script.endsWord (sealing ts) = false := by
  induction ts with
  | nil => rfl
  | cons t ts ih =>
    rw [sealing_cons]
    exact Script.endsWord_append (Script.endsWord_append_of (by decide) (by decide) _) ih

/-- **What seals classes**, where that is admitted. -/
theorem grounded_sealing (hseals : u.seals = true) (h : ∀ t ∈ ts, Refers u true t) :
    Grounded u (sealing ts) := by
  have hfinish : Grounded u "l2j.finishClass(" := by
    refine ⟨[.word Script.supportName, .sign '.', .word "finishClass".toList, .sign '('], by decide,
      fun post hpost rest _ => ?_⟩
    obtain rfl : post = [.sign '.', .word "finishClass".toList, .sign '('] :=
      List.mem_singleton.1 hpost
    refine ⟨fun library name behind hlibrary heq => ?_, fun hnone => absurd hseals (by simp [hnone])⟩
    exact absurd (List.cons.inj (List.cons.inj heq).2).2 (by simp)
  induction ts with
  | nil => exact Script.grounded_empty
  | cons t ts ih =>
    obtain ⟨ht, hts⟩ := List.forall_mem_cons.1 h
    have hfirst := (Refers.append hfinish ht (.inl (by decide))).behind (s := ");\n") (by decide)
    rw [sealing_cons]
    exact hfirst.append (ih hts) (.inl (Script.endsWord_append_of (by decide) (by decide) _))

/-- What a file returns stands behind the sealing of its classes, which is recorded. -/
theorem refers_exportText (hseals : u.seals = true) (hts : ∀ t ∈ ts, Refers u true t)
    (h : Refers u true t) : Refers u true (exportText ctx ts t) := by
  have hvalue : Refers u true (if (Text.trim t).isEmpty then "undefined" else t) := by
    split
    · exact (Fixed.grounded (by decide)).weaken true
    · exact h
  have htarget : Lead (if ctx.options.asEsm then "export default " else "exports.default = ") := by
    split <;> decide
  have hall := Refers.append (grounded_sealing hseals hts) (hvalue.before htarget)
    (.inl (endsWord_sealing ts))
  rw [← String.append_assoc] at hall
  exact hall

theorem refers_returnText (h : Refers u true t) : Refers u true (returnText t) := by
  unfold returnText
  split
  · exact (Fixed.grounded (by decide)).weaken true
  · split
    · exact (h.parens.before (by decide)).weaken true
    · exact h.before (by decide)

/-! ## Bindings -/

/-- Targets in brackets refer to what each does. -/
theorem refers_pattern {targets : Targets} (h : ∀ t ∈ targets.texts, Refers u true t) :
    Refers u true targets.pattern := by
  unfold Targets.pattern
  split
  next only honly => exact h only (by rw [honly]; exact List.mem_singleton_self only)
  · exact (Script.refers_commas h).brackets.weaken true

theorem refers_packValues (init : List Expr) (h : ∀ t ∈ ts, Refers u true t) :
    Refers u true (packValues init ts) := by
  unfold packValues
  split
  · split
    · exact refers_packText h
    · exact (Script.refers_commas h).brackets.weaken true
  · exact refers_packText h

/-- The start of a binding: what is written before its targets. -/
def IsLead (lead : String) : Prop := lead = "" ∨ lead = "let " ∨ lead = "globalThis."

/-- A name and its value, with a lead that is fixed. -/
theorem refers_bound {lead : String} (hlead : IsLead lead) (hs : Refers u dangling s)
    (ht : Refers u dangling' t) : Refers u dangling' (lead ++ s ++ " = " ++ t) := by
  have hfront : Refers u dangling (lead ++ s) := by
    rcases hlead with rfl | rfl | rfl
    · exact hs.beforeSilent (by decide)
    · exact hs.before (by decide)
    · exact hs.before (by decide)
  exact hfront.between (by decide) ht

theorem refers_copiedName (name source : String) (node : Expr) (h : Refers u true t) :
    Refers u true (copiedName ctx name source node t) := by
  unfold copiedName
  split
  · exact h.before (by decide)
  · exact h

/-- A value bound to a name refers to what both do. -/
theorem refers_bindPlain {lead : String} (hlead : IsLead lead) (hs : Refers u true s)
    (ht : Refers u true t) (name : String) (node : Expr) :
    Refers u true (bindPlain ctx lead s name node t) := by
  unfold bindPlain
  split
  · exact refers_bound hlead hs (refers_copiedName name _ node ht)
  · split
    · exact refers_bound hlead hs.brackets ht.findAll
    · exact refers_bound hlead hs ht

/-! ## Calls and remarks -/

/-- An error is raised by a fixed text around its message. -/
theorem grounded_errorText (h : Refers u dangling t) (role : Role) : Grounded u (errorText role t) := by
  have hraise := (Fixed.grounded (by decide) : Grounded u "throw new Error").parensBehind h
  unfold errorText
  dsimp only
  split
  · exact hraise
  · have hbody := (hraise.beforeSilent (s := " ") (by decide)).behind (s := "; ") (by decide)
    exact (hbody.braced.before (s := "(() => ") (by decide)).behind (s := ")()") (by decide)

/-- Nothing of a remark is read. -/
theorem silent_remark (unsupported : Unsupported) :
    Silent ("/* " ++ Text.replace unsupported.message "*/" "* /" ++ " */") := by
  have h := Comment.silent_framed unsupported.message (by decide : ' ' ≠ '*') (by decide)
  have htext : "/* " ++ Text.replace unsupported.message "*/" "* /" ++ " */" = "/*" ++
      (String.singleton ' ' ++ Text.replace unsupported.message "*/" "* /" ++ String.singleton ' ') ++
        "*/" := by
    apply String.toList_inj.1
    simp
  rw [htext]
  exact h

end LuaCompiler.Emit
