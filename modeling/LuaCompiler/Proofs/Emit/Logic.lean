import LuaCompiler.Compile
import Mathlib.Data.List.Infix
import Mathlib.Logic.Relation

/-!
# Logical operators in values

The values of a declaration and of an assignment are kept, so `and` and `or` have to give Lua's
value: they are written by way of the support module's truth, however deep they stand in a value. The
functions inside a value are another matter, as are the arguments of calls that are not lowered at
all. A value that is appended to a table, the arguments of a class that is made by the support
module, and the parent of a native class are lowered as conditions are, in the context of the
statement; there JavaScript's own operators are written.

* `Operand`: what an expression is put together from, and `Operand.exhibits`: its text is a part of
  the text of the whole.
* `Kept`: how a logical operator is written where its value is kept.
* `keeps_values`: **the logical operators in the values of a declaration or an assignment**.
-/

namespace LuaCompiler.Emit

open Relation (ReflTransGen)

/-! ## Parts of texts -/

/-- A text stands somewhere in another. -/
def HasPart (text part : String) : Prop := part.toList <:+: text.toList

section Parts

variable {s t part : String} {ts : List String}

theorem HasPart.refl (t : String) : HasPart t t := List.infix_refl _

/-- A part of a part is a part. -/
theorem HasPart.trans (h : HasPart s t) (h' : HasPart t part) : HasPart s part :=
  List.IsInfix.trans h' h

theorem HasPart.behind (h : HasPart t part) (s : String) : HasPart (s ++ t) part := by
  rw [HasPart, String.toList_append]
  exact List.IsInfix.trans h (List.suffix_append _ _).isInfix

theorem HasPart.before (h : HasPart t part) (s : String) : HasPart (t ++ s) part := by
  rw [HasPart, String.toList_append]
  exact List.IsInfix.trans h (List.prefix_append _ _).isInfix

theorem HasPart.parens (h : HasPart t part) : HasPart (parens t) part := (h.behind "(").before ")"

theorem HasPart.brackets (h : HasPart t part) : HasPart (brackets t) part :=
  (h.behind "[").before "]"

theorem HasPart.braced (h : HasPart t part) : HasPart (braced t) part :=
  (h.behind "\x7b").before "\x7d"

/-- The brackets around a base keep the parts of it. -/
theorem HasPart.asBase (h : HasPart t part) (base : Expr) : HasPart (asBase base t) part := by
  unfold Emit.asBase
  split
  all_goals first | exact h.parens | exact h

/-- A text in a list is part of the list with separators. -/
theorem HasPart.intercalate (ht : t ∈ ts) (h : HasPart t part) (sep : String) :
    HasPart (sep.intercalate ts) part := by
  induction ts with
  | nil => cases ht
  | cons first rest ih =>
    cases rest with
    | nil =>
      rw [List.mem_singleton.1 ht] at h
      rwa [String.intercalate_singleton]
    | cons second rest =>
      rw [String.intercalate_cons_cons]
      rcases List.mem_cons.1 ht with rfl | ht
      · exact (h.before _).before _
      · exact (ih ht).behind _

/-- A text in the arguments is part of the call. -/
theorem HasPart.call (ht : t ∈ ts) (h : HasPart t part) (callee : String) :
    HasPart (callText callee ts) part := by
  have hcommas : HasPart (commas ts) part := h.intercalate ht ", "
  exact hcommas.parens.behind callee

/-- A text in the callee is part of the call. -/
theorem HasPart.callee (h : HasPart t part) (ts : List String) : HasPart (callText t ts) part :=
  h.before _

end Parts

/-! ## Lowerings that write an expression -/

variable {ctx : Context} {e c n : Expr} {p : Progress}

/-- A text of an expression, in some role and from some progress. -/
def TextOf (ctx : Context) (e : Expr) (text : String) : Prop :=
  ∃ role p, ((expression ctx role e).run p).1 = text

/-- **A lowering writes an expression**, wherever it starts. -/
def Exhibits (ctx : Context) (m : Emit String) (c : Expr) : Prop :=
  ∀ p, ∃ part, TextOf ctx c part ∧ HasPart (m.run p).1 part

/-- A lowering writes an expression in one of its texts. -/
def ExhibitsAmong (ctx : Context) (m : Emit (List String)) (c : Expr) : Prop :=
  ∀ p, ∃ text ∈ (m.run p).1, ∃ part, TextOf ctx c part ∧ HasPart text part

section Rules

variable {α : Type} {m : Emit String} {ms : Emit (List String)}

/-- An expression exhibits itself. -/
theorem exhibits_expression (ctx : Context) (role : Role) (c : Expr) :
    Exhibits ctx (expression ctx role c) c :=
  fun p => ⟨_, ⟨role, p, rfl⟩, .refl _⟩

/-- A lowering whose text goes into another. -/
theorem Exhibits.bind {f : String → Emit String} (h : Exhibits ctx m c)
    (hf : ∀ t p part, HasPart t part → HasPart ((f t).run p).1 part) : Exhibits ctx (m >>= f) c := by
  intro p
  obtain ⟨part, hpart, hhas⟩ := h p
  exact ⟨part, hpart, hf _ _ part hhas⟩

/-- A lowering of which one text goes into another. -/
theorem ExhibitsAmong.bind {f : List String → Emit String} (h : ExhibitsAmong ctx ms c)
    (hf : ∀ ts p t part, t ∈ ts → HasPart t part → HasPart ((f ts).run p).1 part) :
    Exhibits ctx (ms >>= f) c := by
  intro p
  obtain ⟨text, htext, part, hpart, hhas⟩ := h p
  exact ⟨part, hpart, hf _ _ text part htext hhas⟩

/-- A lowering behind another one. -/
theorem Exhibits.after {m : Emit α} {f : α → Emit String} (h : ∀ a, Exhibits ctx (f a) c) :
    Exhibits ctx (m >>= f) c :=
  fun _ => h _ _

/-- The comments around a node keep its parts. -/
theorem Exhibits.around (h : Exhibits ctx m c) (span : Span) : Exhibits ctx (around span m) c := by
  intro p
  obtain ⟨part, hpart, hhas⟩ := h ((commentsBefore span).run p).2
  exact ⟨part, hpart, (hhas.behind _).before _⟩

/-- Each of some expressions in a row is written. -/
theorem exhibits_expressions (ctx : Context) {es : List Expr} (role : Role) (hc : c ∈ es) :
    ExhibitsAmong ctx (expressions ctx role es) c := by
  intro p
  induction es generalizing p with
  | nil => cases hc
  | cons first rest ih =>
    cases rest with
    | nil =>
      rw [List.mem_singleton.1 hc]
      exact ⟨_, List.mem_singleton_self _, _, ⟨role, p, rfl⟩, .refl _⟩
    | cons second rest =>
      rw [expressions]
      · rcases List.mem_cons.1 hc with rfl | hc
        · exact ⟨_, List.mem_cons_self, _, ⟨.single, p, rfl⟩, .refl _⟩
        · obtain ⟨text, htext, hpart⟩ := ih hc ((expression ctx .single first).run p).2
          exact ⟨text, List.mem_cons_of_mem _ htext, hpart⟩
      · rintro ⟨⟩

/-- The first of some expressions is written. -/
theorem exhibits_firstExpression (ctx : Context) (first : Expr) (rest : List Expr) :
    Exhibits ctx (firstExpression ctx (first :: rest)) first := by
  rw [firstExpression]
  exact exhibits_expression ctx .single first

end Rules

/-! ## Calls -/

/-- Whether a call lowers all its arguments, one behind the other. -/
def lowersArguments (pattern : CallPattern) (arguments : List Expr) : Bool :=
  match pattern with
  | .classFactory => !isNativeClass arguments
  | .selectLength | .selectIndex | .error => false
  | _ => true

section Calls

variable {parts : CallParts} {site : CallSite}

theorem exhibits_supportCall (h : ExhibitsAmong ctx parts.arguments c) (function : String) :
    Exhibits ctx (supportCall parts function) c :=
  h.bind fun _ _ _ _ ht hpart => hpart.call ht function

theorem exhibits_libraryCall (h : ExhibitsAmong ctx parts.arguments c) (library name : String) :
    Exhibits ctx (libraryCall parts library name) c :=
  .after fun _ => exhibits_supportCall h _

theorem exhibits_genericCall (h : ExhibitsAmong ctx parts.arguments c) (site : CallSite) :
    Exhibits ctx (genericCall ctx site parts) c :=
  .after fun _ => h.bind fun _ _ _ _ ht hpart => hpart.call ht _

/-- The callee of a call without a pattern is part of its text. -/
theorem exhibits_genericCallee (h : Exhibits ctx parts.callee c) (site : CallSite) :
    Exhibits ctx (genericCall ctx site parts) c := by
  refine h.bind fun t p part hpart => ?_
  have hbase := hpart.asBase site.base
  change HasPart (callText (if needsExplicitCall ctx (asBase site.base t) then
    asBase site.base t ++ ".call" else asBase site.base t) (parts.arguments.run p).1) part
  split
  · exact (hbase.before _).callee _
  · exact hbase.callee _

/-- An argument of a call of a member is part of its text. -/
theorem exhibits_selfCall (h : ExhibitsAmong ctx parts.arguments c) (site : CallSite) (owner : Expr)
    (identifier : Identifier) : Exhibits ctx (selfCall ctx site parts owner identifier) c := by
  refine .after fun p => ?_
  split
  · exact .after fun _ => h.bind fun _ _ _ _ ht hpart => hpart.call ht _
  · exact .after fun _ => h.bind fun _ _ _ _ ht hpart => hpart.call ht _

/-- The owner of a call of a member is part of its text, alone or in the callee. -/
theorem exhibits_selfCallOwner (hcallee : Exhibits ctx parts.callee c)
    (howner : Exhibits ctx parts.owner c) (site : CallSite) (owner : Expr)
    (identifier : Identifier) : Exhibits ctx (selfCall ctx site parts owner identifier) c := by
  refine .after fun p => ?_
  split
  · exact hcallee.bind fun t p part hpart => hpart.callee _
  · refine howner.bind fun t p part hpart => ?_
    have hbase := hpart.asBase owner
    change HasPart (callText (memberText (if keepsPath ctx site.base owner then asBase owner t
      else asBase owner t ++ ".prototype") identifier ++ ".call") (parts.arguments.run p).1) part
    refine HasPart.callee (HasPart.before ?_ _) _
    unfold memberText
    split
    · exact (hbase.before _).before _
    · exact ((hbase.before _).before _).before _

/-- The message of an error is part of its text in every role. -/
theorem exhibits_errorText (h : Exhibits ctx parts.firstArgument c) (role : Role) :
    Exhibits ctx (do return errorText role (← parts.firstArgument)) c := by
  refine h.bind fun t p part hpart => ?_
  have hraise := hpart.parens.behind "throw new Error"
  change HasPart (errorText role t) part
  unfold errorText
  dsimp only
  split
  · exact hraise
  · exact (((hraise.behind _).before _).braced.behind _).before _

/-- An index of `select` that is no literal is part of its text. -/
theorem exhibits_selectText (h : Exhibits ctx parts.firstArgument c) {index : Expr}
    (hindex : ∀ value raw, index.kind ≠ .number value raw) :
    Exhibits ctx (selectText index parts.firstArgument) c := by
  unfold selectText
  split
  next value raw hkind => exact absurd hkind (hindex value raw)
  · exact h.bind fun t p part hpart => ((hpart.before _).brackets.behind _)

/-- **The arguments of a call are written** if it lowers them all. -/
theorem exhibits_callArguments (h : ExhibitsAmong ctx parts.arguments c) (role : Role)
    (hlowers : lowersArguments (patternAt ctx site) site.arguments = true) :
    Exhibits ctx (call ctx role site parts) c := by
  unfold call
  cases hpattern : patternAt ctx site with
  | classFactory =>
    have hnative : isNativeClass site.arguments = false := by
      simpa [lowersArguments, hpattern] using hlowers
    dsimp only
    rw [classCall, hnative, if_neg (by decide)]
    exact h.bind fun _ _ _ _ ht hpart => hpart.call ht _
  | selectLength | selectIndex | error => simp [lowersArguments, hpattern] at hlowers
  | stringFormat | tableInsert | tableInsertAt => exact exhibits_libraryCall h _ _
  | tableConcat =>
    refine .after fun _ => h.bind fun ts p t part ht hpart => ?_
    refine hpart.call (t := t) ?_ "l2j.table.concat"
    split
    · exact List.mem_append_left _ ht
    · exact ht
  | type | require | assert => exact exhibits_supportCall h _
  | systemFunction =>
    dsimp only
    split
    · exact exhibits_libraryCall h _ _
    · exact exhibits_genericCall h site
  | selfCall =>
    dsimp only
    split
    · exact exhibits_selfCall h site _ _
    · exact exhibits_genericCall h site
  | valueType => exact h.bind fun _ _ _ _ ht hpart => (hpart.call ht _).behind _
  | generic => exact exhibits_genericCall h site

/-- What is called is written in a call of no pattern. -/
theorem exhibits_callee (h : Exhibits ctx parts.callee c) (role : Role)
    (hpattern : patternAt ctx site = .generic) : Exhibits ctx (call ctx role site parts) c := by
  unfold call
  rw [hpattern]
  exact exhibits_genericCallee h site

/-- What a method called with the receiver is a member of is written. -/
theorem exhibits_callOwner {baseId : NodeId} {baseSpan : Span} {owner : Expr} {indexer : Indexer}
    {identifier : Identifier} {arguments : List Expr} (hcallee : Exhibits ctx parts.callee c)
    (howner : Exhibits ctx parts.owner c) (role : Role)
    (hpattern : patternAt ctx ⟨⟨baseId, baseSpan, .member owner indexer identifier⟩, arguments⟩ =
      .selfCall) :
    Exhibits ctx (call ctx role
      ⟨⟨baseId, baseSpan, .member owner indexer identifier⟩, arguments⟩ parts) c := by
  unfold call
  rw [hpattern]
  exact exhibits_selfCallOwner hcallee howner _ owner identifier

/-- The message of an error is written. -/
theorem exhibits_message (h : Exhibits ctx parts.firstArgument c) (role : Role)
    (hpattern : patternAt ctx site = .error) : Exhibits ctx (call ctx role site parts) c := by
  unfold call
  rw [hpattern]
  exact exhibits_errorText h role

/-- The number by which an argument is selected is written, if it is no numeral. -/
theorem exhibits_selected {base argument : Expr} {arguments : List Expr}
    (h : Exhibits ctx parts.firstArgument c) (role : Role)
    (hpattern : patternAt ctx ⟨base, argument :: arguments⟩ = .selectIndex)
    (hargument : ∀ value raw, argument.kind ≠ .number value raw) :
    Exhibits ctx (call ctx role ⟨base, argument :: arguments⟩ parts) c := by
  unfold call
  rw [hpattern]
  exact exhibits_selectText h hargument

end Calls

/-! ## Classes -/

/-- What the members of a native class are put together from: keys, and values that are no methods.
-/
inductive MemberPart : FieldKind → Expr → Prop
  | named (key : Identifier) {value : Expr} (h : ∀ f, value.kind ≠ .function f) :
    MemberPart (.named key value) value
  | key (key value : Expr) : MemberPart (.keyed key value) key
  | keyed (key : Expr) {value : Expr} (h : ∀ f, value.kind ≠ .function f) :
    MemberPart (.keyed key value) value

section Classes

variable {fields : List Field} {field : Field}

/-- A member that is no function exhibits its value. -/
theorem exhibits_memberValue (key : String) {value : Expr} (h : ∀ f, value.kind ≠ .function f) :
    Exhibits ctx (memberValue ctx key value) value := by
  obtain ⟨id, span, kind⟩ := value
  rw [memberValue]
  · refine Exhibits.bind (m := expression ctx .single ⟨id, span, kind⟩)
      (exhibits_expression ctx .single _) fun t p part hpart => ?_
    exact (hpart.behind _).before _
  · rintro f rfl
    exact h f rfl

/-- The key of a member is part of its text. -/
theorem part_memberValue (key : String) (value : Expr) (p : Progress) :
    HasPart ((memberValue ctx key value).run p).1 key := by
  obtain ⟨id, span, kind⟩ := value
  cases kind with
  | function f =>
    rw [memberValue]
    change HasPart (FunctionText.member _ _ key) key
    unfold FunctionText.member
    exact ((((HasPart.refl key).behind _).before _).before _).before _
  | _ =>
    rw [memberValue]
    · exact (((HasPart.refl key).before _).before _).before _
    · rintro _ ⟨⟩

/-- A member exhibits its key and its value. -/
theorem exhibits_member (span : Span) {kind : FieldKind} (h : MemberPart kind c) :
    Exhibits ctx (member ctx span kind) c := by
  cases h with
  | named key h =>
    rw [member]
    exact exhibits_memberValue _ h
  | key key value =>
    rw [member]
    refine (exhibits_expression ctx .single c).bind fun t p part hpart => ?_
    exact (part_memberValue _ value p).trans hpart.brackets
  | keyed key h =>
    rw [member]
    exact .after fun _ => exhibits_memberValue _ h

/-- A class body exhibits what its fields exhibit. -/
theorem exhibits_members (ctx : Context) (hfield : field ∈ fields) (h : MemberPart field.kind c) :
    ExhibitsAmong ctx (members ctx fields) c := by
  intro p
  induction fields generalizing p with
  | nil => cases hfield
  | cons first rest ih =>
    obtain ⟨id, span, kind⟩ := first
    rw [members]
    rcases List.mem_cons.1 hfield with rfl | hfield
    · obtain ⟨part, hpart, hhas⟩ := (exhibits_member span h).around span p
      exact ⟨_, List.mem_cons_self, part, hpart, hhas⟩
    · obtain ⟨text, htext, hpart⟩ := ih hfield ((around span (member ctx span kind)).run p).2
      exact ⟨text, List.mem_cons_of_mem _ htext, hpart⟩

/-- A lowering of a class writes an expression in its members or its parent. -/
def ExhibitsInClass (ctx : Context) (m : Emit (List String × Option String)) (c : Expr) : Prop :=
  ∀ p, ∃ text, (text ∈ (m.run p).1.1 ∨ (m.run p).1.2 = some text) ∧
    ∃ part, TextOf ctx c part ∧ HasPart text part

/-- What stands in a class body or in the parent is part of the class. -/
theorem part_classText {name parent : Option String} {texts : List String} {text part : String}
    (h : text ∈ texts ∨ parent = some text) (hpart : HasPart text part) :
    HasPart (classText name parent texts) part := by
  unfold classText
  dsimp only
  rcases h with htext | rfl
  · have hbody := ((hpart.intercalate htext "\n").behind "\n").before "\n"
    exact hbody.braced.behind _
  · exact (((hpart.behind " extends ").behind _).before _).before _

/-- The body of a class exhibits the members of the table. -/
theorem exhibits_classBody (ctx : Context) (tableId : NodeId) (tableSpan : Span) (rest : List Expr)
    (hfield : field ∈ fields) (h : MemberPart field.kind c) :
    ExhibitsInClass ctx.asValue (classBody ctx (⟨tableId, tableSpan, .table fields⟩ :: rest)) c := by
  intro p
  obtain ⟨text, htext, hpart⟩ := exhibits_members ctx.asValue hfield h p
  rw [classBody]
  exact ⟨text, .inl htext, hpart⟩

theorem isNativeClass_table (tableId : NodeId) (tableSpan : Span) (fields : List Field)
    (rest : List Expr) : isNativeClass (⟨tableId, tableSpan, .table fields⟩ :: rest) = true := rfl

/-- The body of a class comes with the parent's text. -/
theorem exhibits_parent (ctx : Context) (tableId : NodeId) (tableSpan : Span) (fields : List Field)
    (c : Expr) (rest : List Expr) :
    ExhibitsInClass ctx
      (classBody ctx (⟨tableId, tableSpan, .table fields⟩ :: c :: rest)) c := by
  intro p
  obtain ⟨part, hpart, hhas⟩ :=
    exhibits_expression ctx .single c ((members ctx.asValue fields).run p).2
  rw [classBody]
  exact ⟨_, .inr rfl, part, hpart, hhas.asBase c⟩

/-- What is made of a class body and its parent keeps the parts of both. -/
theorem ExhibitsInClass.bind {m : Emit (List String × Option String)}
    {f : List String × Option String → Emit String} (h : ExhibitsInClass ctx m c)
    (hf : ∀ (body : List String × Option String) p text part,
      (text ∈ body.1 ∨ body.2 = some text) → HasPart text part → HasPart ((f body).run p).1 part) :
    Exhibits ctx (m >>= f) c := by
  intro p
  obtain ⟨text, htext, part, hpart, hhas⟩ := h p
  exact ⟨part, hpart, hf _ _ text part htext hhas⟩

/-- A class with a body of its own exhibits what its body does. -/
theorem exhibits_nativeClass {parts : CallParts} {site : CallSite} {role : Role}
    (hpattern : patternAt ctx site = .classFactory) (hnative : isNativeClass site.arguments = true)
    (h : ExhibitsInClass ctx parts.classBody c) : Exhibits ctx (call ctx role site parts) c := by
  unfold call
  rw [hpattern]
  dsimp only
  rw [classCall, hnative, if_pos rfl]
  exact h.bind fun _ _ _ _ htext hpart => part_classText htext hpart

end Classes

/-! ## What an expression is put together from -/

/-- Whether `or` is written with the operands of the conjunction before it. -/
def isChoice (operator : LogicalOperator) (left right : Expr) : Bool :=
  operator = .or && isConjunction left && !isLogical right

/-- **What an expression is put together from**, the functions inside it aside: its operands, but of
`c and a or b` the three, and of a call the arguments that it lowers. What is called is an operand
where it is no name of a library. The members of a native class are operands where a value is kept.
-/
inductive Operand (ctx : Context) : Expr → Expr → Prop
  | binaryLeft {id span operator} (left right : Expr) :
    Operand ctx ⟨id, span, .binary operator left right⟩ left
  | binaryRight {id span operator} (left right : Expr) :
    Operand ctx ⟨id, span, .binary operator left right⟩ right
  | logicalLeft {id span operator left right} (h : isChoice operator left right = false) :
    Operand ctx ⟨id, span, .logical operator left right⟩ left
  | logicalRight {id span operator} (left right : Expr) :
    Operand ctx ⟨id, span, .logical operator left right⟩ right
  | condition {id span id' span' c a b} (h : isLogical b = false) :
    Operand ctx ⟨id, span, .logical .or ⟨id', span', .logical .and c a⟩ b⟩ c
  | consequent {id span id' span' c a b} (h : isLogical b = false) :
    Operand ctx ⟨id, span, .logical .or ⟨id', span', .logical .and c a⟩ b⟩ a
  | unary {id span operator} (argument : Expr) :
    Operand ctx ⟨id, span, .unary operator argument⟩ argument
  | member {id span indexer identifier} (base : Expr) :
    Operand ctx ⟨id, span, .member base indexer identifier⟩ base
  | indexBase {id span} (base index : Expr) : Operand ctx ⟨id, span, .index base index⟩ base
  | index {id span} (base index : Expr) : Operand ctx ⟨id, span, .index base index⟩ index
  | field {id span fields} {field : Field} (h : field ∈ fields) :
    Operand ctx ⟨id, span, .table fields⟩ field.kind.value
  | key {id span fields} {field : Field} {key value} (h : field ∈ fields)
    (hkind : field.kind = .keyed key value) : Operand ctx ⟨id, span, .table fields⟩ key
  | callee {id span base style arguments} (h : patternAt ctx ⟨base, arguments⟩ = .generic) :
    Operand ctx ⟨id, span, .call base style arguments⟩ base
  | owner {id span baseId baseSpan owner indexer identifier style arguments}
    (h : patternAt ctx ⟨⟨baseId, baseSpan, .member owner indexer identifier⟩, arguments⟩ =
      .selfCall) :
    Operand ctx ⟨id, span, .call ⟨baseId, baseSpan, .member owner indexer identifier⟩ style
      arguments⟩ owner
  | argument {id span base style arguments argument}
    (h : lowersArguments (patternAt ctx ⟨base, arguments⟩) arguments = true)
    (hargument : argument ∈ arguments) :
    Operand ctx ⟨id, span, .call base style arguments⟩ argument
  | message {id span base style argument arguments}
    (h : patternAt ctx ⟨base, argument :: arguments⟩ = .error) :
    Operand ctx ⟨id, span, .call base style (argument :: arguments)⟩ argument
  | selected {id span base style argument arguments}
    (h : patternAt ctx ⟨base, argument :: arguments⟩ = .selectIndex)
    (hargument : ∀ value raw, argument.kind ≠ .number value raw) :
    Operand ctx ⟨id, span, .call base style (argument :: arguments)⟩ argument
  | classMember {id span base style tableId tableSpan fields rest} {field : Field} {part}
    (h : patternAt ctx ⟨base, ⟨tableId, tableSpan, .table fields⟩ :: rest⟩ = .classFactory)
    (hctx : ctx.valueContext = true) (hfield : field ∈ fields) (hpart : MemberPart field.kind part) :
    Operand ctx ⟨id, span, .call base style (⟨tableId, tableSpan, .table fields⟩ :: rest)⟩ part
  | classParent {id span base style tableId tableSpan fields parent rest}
    (h : patternAt ctx ⟨base, ⟨tableId, tableSpan, .table fields⟩ :: parent :: rest⟩ =
      .classFactory) :
    Operand ctx ⟨id, span, .call base style
      (⟨tableId, tableSpan, .table fields⟩ :: parent :: rest)⟩ parent

/-- In value context nothing changes by asking for a value. -/
theorem Context.asValue_eq (h : ctx.valueContext = true) : ctx.asValue = ctx := by
  cases ctx
  cases h
  rfl

section Expressions

variable {role : Role} {id : NodeId} {span : Span} {left right base : Expr}

/-- The text of a node is the text of its kind with comments around. -/
theorem exhibits_kind {kind : ExprKind} (h : Exhibits ctx (expressionKind ctx role id kind) c) :
    Exhibits ctx (expression ctx role ⟨id, span, kind⟩) c := by
  rw [expression]
  exact h.around span

/-- Both operands are part of an operator's text. -/
theorem parts_nativeBinary {a b part : String} (operator : BinaryOperator)
    (h : HasPart a part ∨ HasPart b part) : HasPart (nativeBinary operator a b) part := by
  unfold nativeBinary
  split
  · rcases h with h | h
    · exact ((h.before _).before _).parens.behind _
    · exact (h.behind _).parens.behind _
  · rcases h with h | h
    · exact ((((h.before _).before _).before _).before _).parens
    · exact (h.behind _).parens

/-- The same of an operator that is a call of the namespace in some settings. -/
theorem parts_binaryText {a b part : String} (operator : BinaryOperator) (hasString : Bool)
    (h : HasPart a part ∨ HasPart b part) :
    HasPart (binaryText ctx operator hasString a b) part := by
  unfold binaryText
  split
  · rcases h with h | h
    · exact h.call (by simp) _
    · exact h.call (by simp) _
  · exact parts_nativeBinary operator h

/-- Both operands are part of a logical operator's value, though one may stand twice. -/
theorem parts_logicalValue {a b part : String} (operator : LogicalOperator) (repeatable : Bool)
    (h : HasPart a part ∨ HasPart b part) :
    HasPart (logicalValue operator repeatable a b) part := by
  rcases h with h | h
  · cases operator <;> cases repeatable <;> unfold logicalValue
    · exact h.call (by simp) _
    · exact (h.behind _).parens
    · exact h.call (by simp) _
    · exact (((h.behind _).before _).before _).parens
  · cases operator <;> cases repeatable <;> unfold logicalValue
    · exact (h.parens.behind "() => ").call (by simp) _
    · exact (((h.behind _).before _).before _).parens
    · exact (h.parens.behind "() => ").call (by simp) _
    · exact (h.behind _).parens

/-- Both operands are part of a logical operator's text in and out of value context. -/
theorem parts_logicalText {a b part : String} (operator : LogicalOperator) (repeatable : Bool)
    (h : HasPart a part ∨ HasPart b part) :
    HasPart (logicalText ctx operator repeatable a b) part := by
  unfold logicalText
  split
  · exact parts_logicalValue operator repeatable h
  · rcases h with h | h
    · exact ((((h.before _).before _).before _).before _).parens
    · exact (h.behind _).parens

/-- The operand is part of a unary operator's text. -/
theorem parts_unaryText {t part : String} (operator : UnaryOperator) (h : HasPart t part) :
    HasPart (unaryText ctx operator t) part := by
  unfold unaryText
  split
  · exact h.behind _
  · exact h.call (by simp) _
  · exact h.behind _
  · split
    · exact h.call (by simp) _
    · split
      · exact h.parens.behind _
      · exact h.behind _

/-- Each field has an entry that holds the text of its value. -/
theorem exhibits_entryValue (ctx : Context) {fields : List Field} {field : Field} (role : Role)
    (hfield : field ∈ fields) (p : Progress) :
    ∃ entry ∈ ((entries ctx role fields).run p).1, TextOf ctx field.kind.value entry.value := by
  induction fields generalizing p with
  | nil => cases hfield
  | cons first rest ih =>
    obtain ⟨firstId, firstSpan, kind⟩ := first
    rw [entries]
    rcases List.mem_cons.1 hfield with rfl | hfield
    · refine ⟨_, List.mem_cons_self, ?_⟩
      cases kind with
      | positional value =>
        rw [entry]
        exact ⟨_, p, rfl⟩
      | named key value =>
        rw [entry]
        exact ⟨.single, p, rfl⟩
      | keyed key value =>
        rw [entry]
        exact ⟨.single, ((expression ctx .single key).run p).2, rfl⟩
    · obtain ⟨found, hfound, htext⟩ := ih hfield
        ((entry ctx (if rest.isEmpty then role else .single) kind).run p).2
      exact ⟨found, List.mem_cons_of_mem _ hfound, htext⟩

/-- Each keyed field has an entry that holds the text of its key. -/
theorem exhibits_entryKey (ctx : Context) {fields : List Field} {field : Field} {key value : Expr}
    (role : Role) (hfield : field ∈ fields) (hkind : field.kind = .keyed key value) (p : Progress) :
    ∃ keyText valueText, .computed keyText valueText ∈ ((entries ctx role fields).run p).1 ∧
      TextOf ctx key keyText := by
  induction fields generalizing p with
  | nil => cases hfield
  | cons first rest ih =>
    obtain ⟨firstId, firstSpan, kind⟩ := first
    rw [entries]
    rcases List.mem_cons.1 hfield with rfl | hfield
    · obtain rfl : kind = .keyed key value := hkind
      rw [entry]
      exact ⟨_, _, List.mem_cons_self, .single, p, rfl⟩
    · obtain ⟨keyText, valueText, hfound, htext⟩ := ih hfield
        ((entry ctx (if rest.isEmpty then role else .single) kind).run p).2
      exact ⟨keyText, valueText, List.mem_cons_of_mem _ hfound, htext⟩

/-- What stands in an entry stands in the texts of the entries, however they are counted. -/
theorem parts_entryTexts {entry : Entry} {part : String} {all : List Entry} (hentry : entry ∈ all)
    (h : HasPart entry.value part ∨ ∃ key value, entry = .computed key value ∧ HasPart key part)
    (n : Nat) : ∃ text ∈ entryTexts n all, HasPart text part := by
  -- along the entries, with the number of values in front
  induction all generalizing n with
  | nil => cases hentry
  | cons first rest ih =>
    rcases List.mem_cons.1 hentry with rfl | hrest
    · cases entry with
      | positional value =>
        refine ⟨_, List.mem_cons_self, ?_⟩
        rcases h with h | ⟨_, _, heq, -⟩
        · exact h.behind _
        · cases heq
      | named key value =>
        refine ⟨_, List.mem_cons_self, ?_⟩
        rcases h with h | ⟨_, _, heq, -⟩
        · exact h.behind _
        · cases heq
      | computed key value =>
        refine ⟨_, List.mem_cons_self, ?_⟩
        rcases h with h | ⟨_, _, heq, h⟩
        · exact h.behind _
        · cases heq
          exact (h.brackets.before _).before _
    · cases first with
      | positional value =>
        obtain ⟨text, htext, hpart⟩ := ih hrest (n + 1)
        exact ⟨text, List.mem_cons_of_mem _ htext, hpart⟩
      | named key value | computed key value =>
        obtain ⟨text, htext, hpart⟩ := ih hrest n
        exact ⟨text, List.mem_cons_of_mem _ htext, hpart⟩

/-- A value is part of its table's text, spread or not. -/
theorem part_tableText {fields : List Field} {entry : Entry} {all : List Entry}
    (hentry : entry ∈ all) : HasPart (tableText fields all) entry.value := by
  unfold tableText
  split
  · have hvalue := (HasPart.refl entry.value).intercalate (List.mem_map_of_mem hentry) ", "
    exact hvalue.brackets.parens.behind _
  · obtain ⟨text, hmem, hpart⟩ := parts_entryTexts hentry (.inl (.refl _)) 1
    exact (hpart.intercalate hmem ", ").braced

/-- A key is part of its table's text unless the table spreads. -/
theorem part_tableText_key {fields : List Field} {key value : String} {all : List Entry}
    (hspreads : spreadsFields fields = false) (hentry : .computed key value ∈ all) :
    HasPart (tableText fields all) key := by
  obtain ⟨text, hmem, hpart⟩ := parts_entryTexts hentry (.inr ⟨_, _, rfl, .refl _⟩) 1
  rw [tableText, hspreads, if_neg (by decide)]
  exact (hpart.intercalate hmem ", ").braced

/-- A table exhibits the values of its fields. -/
theorem exhibits_field {fields : List Field} {field : Field} (hfield : field ∈ fields) :
    Exhibits ctx (expressionKind ctx role id (.table fields)) field.kind.value := by
  intro p
  rw [expressionKind]
  obtain ⟨entry, hentry, htext⟩ := exhibits_entryValue ctx
    (if spreadsFields fields = true then .spread else .single) hfield p
  exact ⟨entry.value, htext, part_tableText hentry⟩

/-- A table exhibits the keys of its fields. -/
theorem exhibits_key {fields : List Field} {field : Field} {key value : Expr}
    (hfield : field ∈ fields) (hkind : field.kind = .keyed key value) :
    Exhibits ctx (expressionKind ctx role id (.table fields)) key := by
  intro p
  have hspreads : spreadsFields fields = false := by
    have hall : fields.all (·.kind.isPositional) = false := by
      rw [List.all_eq_false]
      exact ⟨field, hfield, by simp [hkind, FieldKind.isPositional]⟩
    rw [spreadsFields, hall, Bool.false_and]
  rw [expressionKind]
  obtain ⟨keyText, valueText, hentry, htext⟩ := exhibits_entryKey ctx
    (if spreadsFields fields = true then .spread else .single) hfield hkind p
  exact ⟨keyText, htext, part_tableText_key hspreads hentry⟩

/-- A member exhibits what it is taken from. -/
theorem exhibits_memberBase {indexer : Indexer} {identifier : Identifier} :
    Exhibits ctx (expressionKind ctx role id (.member base indexer identifier)) base := by
  rw [expressionKind]
  refine .after fun _ => (exhibits_expression ctx .single base).bind fun t p part hpart => ?_
  exact ((hpart.asBase base).before _).before _

/-- A choice is `a and b or c` with no logical operator in `c`. -/
theorem eq_of_isChoice {operator : LogicalOperator} (h : isChoice operator left right = true) :
    operator = .or ∧ isLogical right = false ∧ ∃ id span condition consequent,
      left = ⟨id, span, .logical .and condition consequent⟩ := by
  simp only [isChoice, Bool.and_eq_true, decide_eq_true_eq, Bool.not_eq_true'] at h
  obtain ⟨⟨hoperator, hleft⟩, hright⟩ := h
  refine ⟨hoperator, hright, ?_⟩
  obtain ⟨id, span, kind⟩ := left
  unfold isConjunction at hleft
  split at hleft
  next condition consequent hkind =>
    obtain rfl : kind = .logical .and condition consequent := hkind
    exact ⟨id, span, condition, consequent, rfl⟩
  · cases hleft

/-- A choice between two values. -/
theorem expressionKind_choice (ctx : Context) (role : Role) (id : NodeId) {id' : NodeId}
    {span' : Span} (condition consequent : Expr) (h : isLogical right = false) :
    expressionKind ctx role id
        (.logical .or ⟨id', span', .logical .and condition consequent⟩ right) = (do
      let conditionText ← expression ctx .single condition
      let consequentText ← expression ctx .single consequent
      let alternateText ← expression ctx .single right
      return conditionalText conditionText consequentText alternateText) := by
  have hchoice : (decide (LogicalOperator.or = .or) &&
      isConjunction ⟨id', span', .logical .and condition consequent⟩ && !isLogical right) = true := by
    rw [h]
    rfl
  rw [expressionKind, if_pos hchoice, conjuncts]
  simp only [bind_assoc, pure_bind]

/-- Another logical operator. -/
theorem expressionKind_logical (ctx : Context) (role : Role) (id : NodeId)
    {operator : LogicalOperator} (h : isChoice operator left right = false) :
    expressionKind ctx role id (.logical operator left right) = (do
      let leftText ← expression ctx .single left
      let rightText ← expression ctx .single right
      return logicalText ctx operator (isRepeatable left) leftText rightText) := by
  rw [isChoice] at h
  rw [expressionKind, if_neg (by simp [h])]

/-- **The text of an operand is a part of the text of the whole**, and not of the comments around it.
-/
theorem Operand.exhibits_kind (h : Operand ctx e c) (role : Role) :
    Exhibits ctx (expressionKind ctx role e.id e.kind) c := by
  cases h with
  | binaryLeft left right =>
    rw [expressionKind]
    exact (exhibits_expression ctx _ c).bind fun t p part hpart =>
      parts_binaryText _ _ (.inl hpart)
  | binaryRight left right =>
    rw [expressionKind]
    exact .after fun _ => (exhibits_expression ctx _ c).bind fun t p part hpart =>
      parts_binaryText _ _ (.inr hpart)
  | logicalLeft hchoice =>
    rw [expressionKind_logical ctx role _ hchoice]
    exact (exhibits_expression ctx _ c).bind fun t p part hpart =>
      parts_logicalText _ _ (.inl hpart)
  | @logicalRight _ _ operator left right =>
    -- right of an `or` that ends a choice stands its alternate, in parentheses
    by_cases hchoice : isChoice operator left c = true
    · obtain ⟨rfl, hright, leftId, leftSpan, condition, consequent, rfl⟩ := eq_of_isChoice hchoice
      rw [expressionKind_choice ctx role _ condition consequent hright]
      exact .after fun _ => .after fun _ => (exhibits_expression ctx _ c).bind fun t p part hpart =>
        (hpart.parens.behind _).parens
    · rw [expressionKind_logical ctx role _ (by simpa using hchoice)]
      exact .after fun _ => (exhibits_expression ctx _ c).bind fun t p part hpart =>
        parts_logicalText _ _ (.inr hpart)
  | condition hright =>
    rw [expressionKind_choice ctx role _ _ _ hright]
    exact (exhibits_expression ctx _ c).bind fun t p part hpart =>
      (((((hpart.parens.behind _).before _).before _).before _).before _).parens
  | consequent hright =>
    rw [expressionKind_choice ctx role _ _ _ hright]
    exact .after fun _ => (exhibits_expression ctx _ c).bind fun t p part hpart =>
      (((hpart.parens.behind _).before _).before _).parens
  | unary argument =>
    rw [expressionKind]
    exact (exhibits_expression ctx _ c).bind fun t p part hpart => parts_unaryText _ hpart
  | member base => exact exhibits_memberBase
  | indexBase base index =>
    rw [expressionKind]
    exact (exhibits_expression ctx _ c).bind fun t p part hpart => (hpart.asBase c).before _
  | index base index =>
    rw [expressionKind]
    exact .after fun _ => (exhibits_expression ctx _ c).bind fun t p part hpart =>
      hpart.brackets.behind _
  | field hfield => exact exhibits_field hfield
  | key hfield hkind => exact exhibits_key hfield hkind
  | callee hpattern =>
    rw [expressionKind]
    refine exhibits_callee ?_ role hpattern
    exact exhibits_expression ctx .single c
  | @owner _ _ baseId baseSpan _ indexer identifier style arguments hpattern =>
    -- the owner of a method call is lowered by itself, or as the base of its callee
    have hcallee : Exhibits ctx
        (expression ctx .single ⟨baseId, baseSpan, .member c indexer identifier⟩) c :=
      Emit.exhibits_kind exhibits_memberBase
    have howner : Exhibits ctx
        (Emit.owner ctx ⟨baseId, baseSpan, .member c indexer identifier⟩) c := by
      rw [Emit.owner]
      exact exhibits_expression ctx .single c
    rw [expressionKind]
    refine exhibits_callOwner ?_ ?_ role hpattern
    · exact hcallee
    · exact howner
  | argument hlowers hargument =>
    rw [expressionKind]
    refine exhibits_callArguments ?_ role hlowers
    exact exhibits_expressions ctx .spread hargument
  | @message _ _ _ _ _ arguments hpattern =>
    rw [expressionKind]
    refine exhibits_message ?_ role hpattern
    exact exhibits_firstExpression ctx c arguments
  | @selected _ _ _ _ _ arguments hpattern hargument =>
    rw [expressionKind]
    refine exhibits_selected ?_ role hpattern hargument
    exact exhibits_firstExpression ctx c arguments
  | @classMember _ _ _ _ tableId tableSpan _ rest _ _ hpattern hctx hfield hpart =>
    rw [expressionKind]
    have hclass := exhibits_classBody ctx tableId tableSpan rest hfield hpart
    rw [Context.asValue_eq hctx] at hclass
    refine exhibits_nativeClass hpattern (isNativeClass_table _ _ _ _) ?_
    exact hclass
  | @classParent _ _ _ _ tableId tableSpan fields _ rest hpattern =>
    rw [expressionKind]
    refine exhibits_nativeClass hpattern (isNativeClass_table _ _ _ _) ?_
    exact exhibits_parent ctx tableId tableSpan fields c rest

/-- A node exhibits each of its operands. -/
theorem Operand.exhibits (h : Operand ctx e c) (role : Role) :
    Exhibits ctx (expression ctx role e) c := by
  obtain ⟨id, span, kind⟩ := e
  exact Emit.exhibits_kind (h.exhibits_kind role)

/-- **What an expression is put together from, at any depth,** is written where it is. -/
theorem exhibits_of_reaches (h : ReflTransGen (Operand ctx) e n) (role : Role) :
    Exhibits ctx (expression ctx role e) n := by
  induction h with
  | refl => exact exhibits_expression ctx role e
  | tail _ hoperand ih =>
    intro p
    obtain ⟨text, ⟨role', p', rfl⟩, hhas⟩ := ih p
    obtain ⟨part, hpart, hhas'⟩ := hoperand.exhibits role' p'
    exact ⟨part, hpart, hhas.trans hhas'⟩

end Expressions

/-! ## Logical operators -/

/-- What a logical operator is written as where its value is kept, by its rule for values, with the
comments around it. -/
def valueText (ctx : Context) (span : Span) (operator : LogicalOperator) (left right : Expr)
    (p : Progress) : String :=
  let above := (commentsBefore span).run p
  let first := (expression ctx .single left).run above.2
  let second := (expression ctx .single right).run first.2
  above.1 ++ logicalValue operator (isRepeatable left) first.1 second.1 ++
    ((commentsAfter span).run second.2).1

/-- What `c and a or b` is written as if it is a choice, with the comments around it. -/
def choiceText (ctx : Context) (span : Span) (c a b : Expr) (p : Progress) : String :=
  let above := (commentsBefore span).run p
  let condition := (expression ctx .single c).run above.2
  let consequent := (expression ctx .single a).run condition.2
  let alternate := (expression ctx .single b).run consequent.2
  above.1 ++ conditionalText condition.1 consequent.1 alternate.1 ++
    ((commentsAfter span).run alternate.2).1

/-- **The text that a logical operator has where its value is kept**, in some role and from some
progress: the one that its rule for values gives, or that of the choice that it is. The conjunction of a
choice has no text of its own, and the text is that of the choice. -/
inductive Kept (ctx : Context) : Expr → String → Prop
  | value {id span operator left right} (role : Role) (p : Progress)
    (h : ((expression ctx role ⟨id, span, .logical operator left right⟩).run p).1 =
      valueText ctx span operator left right p) :
    Kept ctx ⟨id, span, .logical operator left right⟩ (valueText ctx span operator left right p)
  | choice {id span id' span' c a b} (role : Role) (p : Progress)
    (h : ((expression ctx role ⟨id, span, .logical .or ⟨id', span', .logical .and c a⟩ b⟩).run p).1 =
      choiceText ctx span c a b p) :
    Kept ctx ⟨id, span, .logical .or ⟨id', span', .logical .and c a⟩ b⟩ (choiceText ctx span c a b p)
  | conjunct {id span id' span' c a b} (role : Role) (p : Progress)
    (h : ((expression ctx role ⟨id, span, .logical .or ⟨id', span', .logical .and c a⟩ b⟩).run p).1 =
      choiceText ctx span c a b p) :
    Kept ctx ⟨id', span', .logical .and c a⟩ (choiceText ctx span c a b p)

/-- **A logical operator stands in an expression**, outside the functions in it: it is what the
expression is put together from, or the conjunction of such a choice. -/
inductive Stands (ctx : Context) (e : Expr) : Expr → Prop
  | operator {id span operator left right}
    (h : ReflTransGen (Operand ctx) e ⟨id, span, .logical operator left right⟩) :
    Stands ctx e ⟨id, span, .logical operator left right⟩
  | conjunct {id span left right}
    (h : ReflTransGen (Operand ctx) e ⟨id, span, .logical .or left right⟩)
    (hchoice : isChoice .or left right = true) : Stands ctx e left

section Values

variable {id : NodeId} {span : Span} {left right : Expr}

/-- A choice is written as the ternary on its condition. -/
theorem expression_choice (ctx : Context) (role : Role) (id id' : NodeId) (span span' : Span)
    (c a : Expr) {b : Expr} (h : isLogical b = false) (p : Progress) :
    ((expression ctx role ⟨id, span, .logical .or ⟨id', span', .logical .and c a⟩ b⟩).run p).1 =
      choiceText ctx span c a b p := by
  rw [expression, expressionKind_choice ctx role id c a h]
  rfl

/-- Every other logical operator in value context is written by its kept value. -/
theorem expression_value (hctx : ctx.valueContext = true) (role : Role) (id : NodeId) (span : Span)
    {operator : LogicalOperator} (h : isChoice operator left right = false) (p : Progress) :
    ((expression ctx role ⟨id, span, .logical operator left right⟩).run p).1 =
      valueText ctx span operator left right p := by
  have htext (s t : String) : logicalText ctx operator (isRepeatable left) s t =
      logicalValue operator (isRepeatable left) s t := by
    rw [logicalText, hctx, if_pos rfl]
  rw [expression, expressionKind_logical ctx role id h]
  simp only [htext]
  rfl

/-- **The text of a logical operator whose value is kept**, in whatever role and from whatever progress.
-/
theorem kept_logical (hctx : ctx.valueContext = true) (operator : LogicalOperator) (role : Role)
    (p : Progress) :
    Kept ctx ⟨id, span, .logical operator left right⟩
        ((expression ctx role ⟨id, span, .logical operator left right⟩).run p).1 ∧
      (isChoice operator left right = true → Kept ctx left
        ((expression ctx role ⟨id, span, .logical operator left right⟩).run p).1) := by
  by_cases hchoice : isChoice operator left right = true
  · obtain ⟨rfl, hright, leftId, leftSpan, condition, consequent, rfl⟩ := eq_of_isChoice hchoice
    have htext := expression_choice ctx role id leftId span leftSpan condition consequent hright p
    rw [htext]
    exact ⟨.choice role p htext, fun _ => .conjunct role p htext⟩
  · have htext := expression_value hctx role id span (by simpa using hchoice) p
    rw [htext]
    exact ⟨.value role p htext, fun h => absurd h hchoice⟩

/-- **A logical operator is written as kept**, wherever it stands in a value. -/
theorem kept_of_stands (hctx : ctx.valueContext = true) (h : Stands ctx e n) (role : Role)
    (p : Progress) : ∃ own, Kept ctx n own ∧ HasPart ((expression ctx role e).run p).1 own := by
  cases h with
  | operator h =>
    obtain ⟨own, ⟨role', p', rfl⟩, hhas⟩ := exhibits_of_reaches h role p
    exact ⟨_, (kept_logical hctx _ role' p').1, hhas⟩
  | conjunct h hchoice =>
    obtain ⟨own, ⟨role', p', rfl⟩, hhas⟩ := exhibits_of_reaches h role p
    exact ⟨_, (kept_logical hctx _ role' p').2 hchoice, hhas⟩

/-- Some texts hold the logical operators of an expression, as kept. -/
def KeepsAmong (ctx : Context) (texts : List String) (e : Expr) : Prop :=
  ∀ n, Stands ctx e n → ∃ text ∈ texts, ∃ part, Kept ctx n part ∧ HasPart text part

/-- A list of values keeps the value of each of its elements. -/
theorem keepsAmong_expressions (hctx : ctx.valueContext = true) {es : List Expr} (role : Role)
    (he : e ∈ es) (p : Progress) : KeepsAmong ctx ((expressions ctx role es).run p).1 e := by
  intro n hn
  obtain ⟨text, htext, _, ⟨role', p', rfl⟩, hhas⟩ := exhibits_expressions ctx role he p
  obtain ⟨part, hkept, hpart⟩ := kept_of_stands hctx hn role' p'
  exact ⟨text, htext, part, hkept, hhas.trans hpart⟩

end Values

/-! ## Declarations and assignments -/

/-- Whether a `local` statement defines a class: the module's own table, or the value of a class
call. -/
def definesLocalClass (ctx : Context) (vars : List Identifier) (init : List Expr) : Bool :=
  match vars, init with
  | [v], [value] => (ctx.isTop && isModuleName ctx v.name && isEmptyTable value) ||
    match value.kind with
    | .call base _ arguments => isClassCall base arguments
    | _ => false
  | _, _ => false

section Statements

variable {id : NodeId} {span : Span} {vars : List Identifier} {init targets : List Expr}

/-- A `local` statement that defines no class binds its values. -/
theorem localStatement_eq_binding {parts : LocalParts} (h : definesLocalClass ctx vars init = false) :
    localStatement ctx id vars init parts = localBinding ctx id vars init parts := by
  unfold localStatement
  dsimp only
  split
  next v value =>
    obtain ⟨hmodule, hcall⟩ := Bool.or_eq_false_iff.1 h
    have hclass : localClass? ctx v value parts = none := by
      unfold localClass?
      dsimp only
      rw [hmodule, if_neg (by decide)]
      split
      next base _ arguments hkind =>
        rw [hkind] at hcall
        dsimp only at hcall
        rw [hcall]
        rfl
      · rfl
    rw [hclass, Option.getD_none]
  · rfl

/-- The class that a `local` statement defines, native. -/
theorem localStatement_native {parts : LocalParts} {v : Identifier} {valueId : NodeId}
    {valueSpan : Span} {base : Expr} {style : CallStyle} {arguments : List Expr}
    (hclass : isClassCall base arguments = true) (hnative : isNativeClass arguments = true) :
    localStatement ctx id [v] [⟨valueId, valueSpan, .call base style arguments⟩] parts = (do
      let body ← parts.classBody
      return classText (some (ctx.declaredName v)) body.2 body.1) := by
  have hmodule : isEmptyTable ⟨valueId, valueSpan, .call base style arguments⟩ = false := rfl
  have hsome : localClass? ctx v ⟨valueId, valueSpan, .call base style arguments⟩ parts = some (do
      let body ← parts.classBody
      return classText (some (ctx.declaredName v)) body.2 body.1) := by
    unfold localClass?
    dsimp only
    rw [hmodule, Bool.and_false, if_neg (by decide), hclass, hnative]
    rfl
  unfold localStatement
  dsimp only
  rw [hsome, Option.getD_some]

/-- An assignment that neither appends nor defines a class binds its values. -/
theorem assignment_binding {parts : AssignmentParts} (happend : appendBase? targets init = none)
    (hno : definesClass targets init = false) :
    assignment ctx targets init parts = (do
      let texts ← parts.targets
      bind ctx.asValue (assignedTargets ctx targets texts) init (← parts.values)) := by
  unfold assignment
  rw [happend]
  dsimp only
  rw [hno]

/-- A native class that is assigned. -/
theorem assignment_native {parts : AssignmentParts} {target : Expr} {valueId : NodeId}
    {valueSpan : Span} {base : Expr} {style : CallStyle} {arguments : List Expr}
    (happend : appendBase? [target] [⟨valueId, valueSpan, .call base style arguments⟩] = none)
    (hclass : isClassCall base arguments = true) (hnative : isNativeClass arguments = true) :
    assignment ctx [target] [⟨valueId, valueSpan, .call base style arguments⟩] parts =
      assignClass ctx target parts := by
  have hdefines :
      definesClass [target] [⟨valueId, valueSpan, .call base style arguments⟩] = true := by
    rw [definesClass, hclass, hnative]
    rfl
  unfold assignment
  rw [happend, hdefines]

/-- A native class that is assigned holds what it is put together from. -/
theorem exhibits_assignClass {parts : AssignmentParts} (target : Expr)
    (h : ExhibitsInClass ctx.asValue parts.classBody c) :
    Exhibits ctx.asValue (assignClass ctx target parts) c := by
  unfold assignClass
  split
  · exact .after fun _ => h.bind fun _ _ _ _ htext hpart => (part_classText htext hpart).behind _
  · exact .after fun _ => h.bind fun _ _ _ _ htext hpart => (part_classText htext hpart).behind _

/-- A statement that binds one target to a native class with some members. -/
inductive DefinesNative (fields : List Field) : StmtKind → Prop
  | local (v : Identifier) {valueId valueSpan base style tableId tableSpan rest}
    (h : isClassCall base (⟨tableId, tableSpan, .table fields⟩ :: rest) = true) :
    DefinesNative fields (.local [v] [⟨valueId, valueSpan,
      .call base style (⟨tableId, tableSpan, .table fields⟩ :: rest)⟩])
  | assigned (target : Expr) {valueId valueSpan base style tableId tableSpan rest}
    (happend : ∀ value, appendBase? [target] [value] = none)
    (h : isClassCall base (⟨tableId, tableSpan, .table fields⟩ :: rest) = true) :
    DefinesNative fields (.assignment [target] [⟨valueId, valueSpan,
      .call base style (⟨tableId, tableSpan, .table fields⟩ :: rest)⟩])

/-- **A statement that defines a native class** writes what the members are put together from. -/
theorem DefinesNative.exhibits {fields : List Field} {field : Field} {kind : StmtKind}
    (h : DefinesNative fields kind) (hfield : field ∈ fields) (hpart : MemberPart field.kind c) :
    Exhibits ctx.asValue (statement ctx id span kind) c := by
  cases h with
  | @«local» v _ _ _ _ tableId tableSpan rest hclass =>
    have hbody := exhibits_classBody ctx tableId tableSpan rest hfield hpart
    rw [statement, localStatement_native hclass (isNativeClass_table _ _ _ _)]
    exact hbody.bind fun _ _ _ _ htext hpart => part_classText htext hpart
  | @assigned target _ _ _ _ tableId tableSpan rest happend hclass =>
    have hbody := exhibits_classBody ctx tableId tableSpan rest hfield hpart
    rw [statement, assignment_native (happend _) hclass (isNativeClass_table _ _ _ _)]
    exact exhibits_assignClass target hbody

/-- Logical operators in what a lowering writes are written as kept. -/
theorem Exhibits.keeps {m : Emit String} (h : Exhibits ctx m c) (hctx : ctx.valueContext = true)
    (hn : Stands ctx c n) (p : Progress) : ∃ part, Kept ctx n part ∧ HasPart (m.run p).1 part := by
  obtain ⟨_, ⟨role, p', rfl⟩, hhas⟩ := h p
  obtain ⟨part, hkept, hpart⟩ := kept_of_stands hctx hn role p'
  exact ⟨part, hkept, hhas.trans hpart⟩

/-- **The logical operators in the values of a declaration or an assignment** are written by way of
the support module's truth, in whatever context the statement stands: in each value that a `local`
statement binds, in each value that an assignment binds, and in the members of a native class that a
statement of either kind defines. Three kinds of values are bound in neither way: what is appended
to a table, the arguments of a class that the support module makes for a `local` statement, and the
parent of a native class. -/
theorem keeps_values (ctx : Context) (id : NodeId) (span : Span) :
    (∀ vars init p, init ≠ [] → definesLocalClass ctx vars init = false →
      ∃ values q,
        (expressions ctx.asValue (bindRole vars.length init) init).run p = (values, q) ∧
        ((statement ctx id span (.local vars init)).run p).1 = (localTargets ctx id vars).1 ++
          ((bind ctx.asValue (localTargets ctx id vars).2 init values).run q).1 ∧
        ∀ e ∈ init, KeepsAmong ctx.asValue values e) ∧
    (∀ targets init p, appendBase? targets init = none → definesClass targets init = false →
      ∃ texts q values r,
        (expressions ctx.asValue .single targets).run p = (texts, q) ∧
        (expressions ctx.asValue (bindRole targets.length init) init).run q = (values, r) ∧
        (statement ctx id span (.assignment targets init)).run p =
          (bind ctx.asValue (assignedTargets ctx targets texts) init values).run r ∧
        ∀ e ∈ init, KeepsAmong ctx.asValue values e) ∧
    ∀ fields kind, DefinesNative fields kind → ∀ field ∈ fields, ∀ e, MemberPart field.kind e →
      ∀ n, Stands ctx.asValue e n → ∀ p, ∃ part, Kept ctx.asValue n part ∧
        HasPart ((statement ctx id span kind).run p).1 part := by
  refine ⟨fun vars init p hinit hno => ?_, fun targets init p happend hno => ?_,
    fun fields kind hkind field hfield e he n hn p => ?_⟩
  · -- the two statements that bind values run the list of values and then bind it
    have hvalues : init.isEmpty = false := List.isEmpty_eq_false_iff.2 hinit
    refine ⟨_, _, rfl, ?_, fun e he => keepsAmong_expressions rfl _ he p⟩
    rw [statement, localStatement_eq_binding hno, localBinding, hvalues]
    rfl
  · refine ⟨_, _, _, _, rfl, rfl, ?_, fun e he => keepsAmong_expressions rfl _ he _⟩
    rw [statement, assignment_binding happend hno]
    rfl
  · -- the text of a class holds the texts of its members
    exact (hkind.exhibits hfield he).keeps rfl hn p

/-- A name, and `a or b`. -/
def nameSample (id : NodeId) (name : String) : Expr := ⟨id, default, .name name⟩

def orSample : Expr := ⟨3, default, .logical .or (nameSample 1 "a") (nameSample 2 "b")⟩

/-- `f(a or b)`. -/
def argumentSample : Expr := ⟨5, default, .call (nameSample 4 "f") .arguments [orSample]⟩

/-- A member `v = a or b` of a native class, and `class({ v = a or b })`. -/
def memberSample : Field := ⟨6, default, .named ⟨7, "v", default⟩ orSample⟩

def classSample : Expr :=
  ⟨9, default, .call (nameSample 8 "class") .arguments [⟨10, default, .table [memberSample]⟩]⟩

theorem keeps_orSample :
    let ctx : Context := { options := {}, annotations := {}, fileName := "m", operatorMode := false }
    let p : Progress := { comments := ⟨[], 0⟩, registries := .empty }
    (∃ values q, (expressions ctx.asValue .single [argumentSample]).run p = (values, q) ∧
      ((statement ctx 0 default (.local [⟨11, "x", default⟩] [argumentSample])).run p).1 =
        (localTargets ctx 0 [⟨11, "x", default⟩]).1 ++
          ((bind ctx.asValue (localTargets ctx 0 [⟨11, "x", default⟩]).2 [argumentSample]
            values).run q).1 ∧
      ∃ text ∈ values, ∃ part, Kept ctx.asValue orSample part ∧ HasPart text part) ∧
    (∃ texts q values r, (expressions ctx.asValue .single [nameSample 11 "x"]).run p = (texts, q) ∧
      (expressions ctx.asValue .single [argumentSample]).run q = (values, r) ∧
      ∃ text ∈ values, ∃ part, Kept ctx.asValue orSample part ∧ HasPart text part) ∧
    ∃ part, Kept ctx.asValue orSample part ∧
      HasPart ((statement ctx 0 default
        (.assignment [nameSample 11 "x"] [classSample])).run p).1 part := by
  intro ctx p
  -- the disjunction is the argument of a call, two steps below the value
  have hstands : Stands ctx.asValue argumentSample orSample :=
    .operator (.single (.argument (by decide) (List.mem_singleton_self _)))
  obtain ⟨hlocal, hassigned, hclass⟩ := keeps_values ctx 0 default
  refine ⟨?_, ?_, ?_⟩
  · obtain ⟨values, q, hvalues, htext, hkeeps⟩ :=
      hlocal [⟨11, "x", default⟩] [argumentSample] p (by simp) (by decide)
    exact ⟨values, q, hvalues, htext, hkeeps _ (List.mem_singleton_self _) _ hstands⟩
  · obtain ⟨texts, q, values, r, htexts, hvalues, -, hkeeps⟩ :=
      hassigned [nameSample 11 "x"] [argumentSample] p (by decide) (by decide)
    exact ⟨texts, q, values, r, htexts, hvalues, hkeeps _ (List.mem_singleton_self _) _ hstands⟩
  · have hnative : DefinesNative [memberSample] (.assignment [nameSample 11 "x"] [classSample]) :=
      .assigned _ (fun _ => rfl) (by decide)
    exact hclass _ _ hnative _ (List.mem_singleton_self _) _ (.named _ (by rintro f ⟨⟩)) _
      (.operator .refl) p

end Statements

/-- **Values are lowered as conditions are** where they are appended to a table, and in a class that
the support module makes for a `local` statement: JavaScript's operators stand in them. Behind
another index the same value is written by way of the support module's truth. -/
example :
    (compile .keep "t[#t + 1] = a and b t[i] = a and b" "Game/UI/test.lua" .empty {}).1.code =
      "l2j.table.insert(t, (a && b));\nt[i] = (l2j.condition(a) ? b : a)" ∧
    (compile .keep "local x = class(a or b)" "Game/UI/test.lua" .empty {}).1.code =
      "let x = l2j.createClass((a || b));\nl2j.finishClass(x);\n" := by
  repeat rw [compile, parse_ofList]
  decide +kernel

end LuaCompiler.Emit
