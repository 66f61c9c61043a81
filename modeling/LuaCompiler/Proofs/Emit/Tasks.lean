import LuaCompiler.Proofs.Emit.Footprint
import LuaCompiler.Proofs.Emit.Logic
import LuaCompiler.Proofs.Emit.Rendering

/-!
# The tasks of the walk

The walk takes a program apart: a block into statements, a statement into expressions, functions and
blocks, a function into its body. `Step` says which parts a lowering takes up, and in which context;
what is not lowered, such as what stands behind the message of an error, is no part. Down a function
the context gains its parameters.

* `Step`: a part that a lowering takes up.
* `Step.bears`: **the text of a part stands in the text of the whole**, but for what a binding does
  to the searches for a position in it.
* `Reaches.bears`: so does the text of what is reached in many steps.
-/

namespace LuaCompiler.Emit

open Relation (ReflTransGen)

/-! ## Texts inside texts -/

/-- **A text holds another**: as a part, also where a binding has replaced the first search for a
position in it. -/
inductive Holds : String → String → Prop
  | part {text part : String} (h : HasPart text part) : Holds text part
  | found {text part : String} (h : Holds text part) : Holds (findAll text) part
  | within {text inner part : String} (h : HasPart text inner) (hinner : Holds inner part) :
    Holds text part

/-- A text of blanks. -/
def IsBlank (text : String) : Prop := ∀ c ∈ text.toList, Text.isBlank c = true

/-- A text holds another one, if that is not blank. -/
def Bears (text part : String) : Prop := Holds text part ∨ IsBlank part

section Texts

variable {text inner part : String} {texts : List String}

/-- A part that is held by a part is held. -/
theorem Holds.trans (h : Holds text inner) (hinner : Holds inner part) : Holds text part := by
  induction h with
  | part h => exact .within h hinner
  | found _ ih => exact .found (ih hinner)
  | within h _ ih => exact .within h (ih hinner)

/-- Part of a blank text is blank. -/
theorem IsBlank.of_part (hblank : IsBlank text) (h : HasPart text part) : IsBlank part :=
  fun c hc => hblank c (h.subset hc)

/-- What is found is never blank, so nothing was found in a text that is blank. -/
theorem isBlank_of_findAll (h : IsBlank (findAll text)) : IsBlank text := by
  have hlist (cs : List Char) (hcs : ∀ c ∈ Text.replaceFirstIn "l2j.string.find(".toList
      "l2j.string.findWithRet(".toList cs, Text.isBlank c = true) :
      ∀ c ∈ cs, Text.isBlank c = true := by
    induction cs with
    | nil => exact List.forall_mem_nil _
    | cons first rest ih =>
      unfold Text.replaceFirstIn at hcs
      split at hcs
      · exact absurd (hcs 'l' (List.mem_append_left _ (by decide))) (by decide)
      · obtain ⟨hfirst, hrest⟩ := List.forall_mem_cons.1 hcs
        exact List.forall_mem_cons.2 ⟨hfirst, ih hrest⟩
  refine hlist text.toList fun c hc => h c ?_
  rwa [findAll, Text.replaceFirst, String.toList_ofList]

/-- What a blank text holds is blank. -/
theorem Holds.isBlank (h : Holds text part) (hblank : IsBlank text) : IsBlank part := by
  induction h with
  | part h => exact hblank.of_part h
  | found _ ih => exact ih (isBlank_of_findAll hblank)
  | within h _ ih => exact ih (hblank.of_part h)

/-- A text bears its parts. -/
theorem HasPart.bears (h : HasPart text part) : Bears text part := .inl (.part h)

/-- What a text bears may bear more. -/
theorem Bears.trans (h : Bears text inner) (hinner : Bears inner part) : Bears text part := by
  rcases hinner with hinner | hblank
  · exact h.imp (·.trans hinner) hinner.isBlank
  · exact .inr hblank

/-- A text bears what a part of it does. -/
theorem Bears.within (hinner : Bears inner part) (h : HasPart text inner) : Bears text part :=
  h.bears.trans hinner

/-- Searches that are respelled leave what a text bears. -/
theorem Bears.found (h : Bears text part) : Bears (findAll text) part := h.imp_left .found

end Texts

/-! ## Tasks -/

/-- What a lowering is at work on. A function comes with the convention by which it takes its
receiver, and with whether it is a method with a receiver beside its parameters. -/
inductive Task where
  | expression (e : Expr)
  | function (isMethod : Bool) (convention : Convention) (f : FunctionBody)
  | block (body : List Stmt)
  | statement (s : Stmt)

/-- **A text of a task**: what its lowering gives in some role, from some progress. The comments
around a node are not part of it. -/
def Task.Gives (ctx : Context) : Task → String → Prop
  | .expression e, text => ∃ role p, ((expressionKind ctx role e.id e.kind).run p).1 = text
  | .function _ convention f, text => ∃ p, ((Emit.function ctx convention f).run p).1.body = text
  | .block body, text => ∃ p, sequence ((statements ctx body).run p).1 = text
  | .statement s, text => ∃ p, ((Emit.statement ctx s.id s.span s.kind).run p).1 = text

/-- What a native class is put together from: the members of its table, and its parent. -/
inductive ClassPart (ctx : Context) : List Expr → Context → Task → Prop
  | member {id span fields rest part} {field : Field} (hfield : field ∈ fields)
    (h : MemberPart field.kind part) :
    ClassPart ctx (⟨id, span, .table fields⟩ :: rest) ctx.asValue (.expression part)
  | namedMethod {id span fields rest fieldId fieldSpan key valueId valueSpan f}
    (hfield : ⟨fieldId, fieldSpan, .named key ⟨valueId, valueSpan, .function f⟩⟩ ∈ fields) :
    ClassPart ctx (⟨id, span, .table fields⟩ :: rest) ctx.asValue
      (.function false (.ofFirstParameter f) f)
  | keyedMethod {id span fields rest fieldId fieldSpan key valueId valueSpan f}
    (hfield : ⟨fieldId, fieldSpan, .keyed key ⟨valueId, valueSpan, .function f⟩⟩ ∈ fields) :
    ClassPart ctx (⟨id, span, .table fields⟩ :: rest) ctx.asValue
      (.function false (.ofFirstParameter f) f)
  | parent {id span fields parent rest} :
    ClassPart ctx (⟨id, span, .table fields⟩ :: parent :: rest) ctx (.expression parent)

/-- Whether a loop runs over a standard iterator, which is not called as it is written. -/
def iteratesStandard (iterator : Expr) : Bool :=
  match iterator.kind with
  | .call base .arguments _ => (iteratorFunction? base).isSome
  | _ => false

/-- **What a statement is put together from.** -/
inductive StatementPart (ctx : Context) : StmtKind → Context → Task → Prop
  | bound {vars init e} (h : definesLocalClass ctx vars init = false) (he : e ∈ init) :
    StatementPart ctx (.local vars init) ctx.asValue (.expression e)
  | localClass {v id span base style arguments inner t} (hclass : isClassCall base arguments = true)
    (hnative : isNativeClass arguments = true) (h : ClassPart ctx arguments inner t) :
    StatementPart ctx (.local [v] [⟨id, span, .call base style arguments⟩]) inner t
  | localArgument {v id span base style arguments e} (hclass : isClassCall base arguments = true)
    (hnative : isNativeClass arguments = false) (he : e ∈ arguments) :
    StatementPart ctx (.local [v] [⟨id, span, .call base style arguments⟩]) ctx (.expression e)
  | target {targets init e} (happend : appendBase? targets init = none)
    (hclass : definesClass targets init = false) (he : e ∈ targets) :
    StatementPart ctx (.assignment targets init) ctx.asValue (.expression e)
  | assigned {targets init e} (happend : appendBase? targets init = none)
    (hclass : definesClass targets init = false) (he : e ∈ init) :
    StatementPart ctx (.assignment targets init) ctx.asValue (.expression e)
  | appendBase {id span base index value} (h : isAppend base index = true) :
    StatementPart ctx (.assignment [⟨id, span, .index base index⟩] [value]) ctx (.expression base)
  | appendValue {id span base index value} (h : isAppend base index = true) :
    StatementPart ctx (.assignment [⟨id, span, .index base index⟩] [value]) ctx (.expression value)
  | classTarget {target id span base style arguments}
    (happend : appendBase? [target] [⟨id, span, .call base style arguments⟩] = none)
    (hclass : isClassCall base arguments = true) (hnative : isNativeClass arguments = true)
    (hname : target.name? = none) :
    StatementPart ctx (.assignment [target] [⟨id, span, .call base style arguments⟩]) ctx
      (.expression target)
  | assignedClass {target id span base style arguments inner t}
    (happend : appendBase? [target] [⟨id, span, .call base style arguments⟩] = none)
    (hclass : isClassCall base arguments = true) (hnative : isNativeClass arguments = true)
    (h : ClassPart ctx arguments inner t) :
    StatementPart ctx (.assignment [target] [⟨id, span, .call base style arguments⟩]) inner t
  | call (e : Expr) : StatementPart ctx (.call e) ctx (.expression e)
  | localFunction (name : Identifier) (f : FunctionBody) :
    StatementPart ctx (.localFunction name f) ctx (.function false (.plain f) f)
  | function (name : Identifier) (f : FunctionBody) :
    StatementPart ctx (.function (.name name) f) ctx (.function false (.plain f) f)
  | owner (id : NodeId) (span : Span) (base : Expr) (indexer : Indexer) (name : Identifier)
    (f : FunctionBody) :
    StatementPart ctx (.function (.member id span base indexer name) f) ctx (.expression base)
  | method (id : NodeId) (span : Span) (base : Expr) (indexer : Indexer) (name : Identifier)
    (f : FunctionBody) :
    StatementPart ctx (.function (.member id span base indexer name) f) ctx
      (.function (indexer == .colon) (.ofIndexer indexer f) f)
  | returned {arguments e} (hallows : allowsReturn ctx = true)
    (hfailure : isFailure arguments = false) (he : e ∈ arguments) :
    StatementPart ctx (.return arguments) ctx (.expression e)
  | raised {first message} (hallows : allowsReturn ctx = true) (hfailure : first.isNil = true) :
    StatementPart ctx (.return [first, message]) ctx (.expression message)
  | block (body : List Stmt) : StatementPart ctx (.block body) ctx.inBlock (.block body)
  | whileCondition (condition : Expr) (body : List Stmt) :
    StatementPart ctx (.while condition body) ctx (.expression condition)
  | whileBody (condition : Expr) (body : List Stmt) :
    StatementPart ctx (.while condition body) (ctx.inLoop body) (.block body)
  | repeatBody (body : List Stmt) (condition : Expr) :
    StatementPart ctx (.repeat body condition) (ctx.inLoop body) (.block body)
  | repeatCondition (body : List Stmt) (condition : Expr) :
    StatementPart ctx (.repeat body condition) ctx (.expression condition)
  | firstCondition (first : Clause) (others : List Clause) (otherwise : Option ElseClause) :
    StatementPart ctx (.conditional first others otherwise) ctx (.expression first.condition)
  | firstBody (first : Clause) (others : List Clause) (otherwise : Option ElseClause) :
    StatementPart ctx (.conditional first others otherwise) ctx.inBlock (.block first.body)
  | condition {first others otherwise} {clause : Clause} (h : clause ∈ others) :
    StatementPart ctx (.conditional first others otherwise) ctx (.expression clause.condition)
  | consequent {first others otherwise} {clause : Clause} (h : clause ∈ others) :
    StatementPart ctx (.conditional first others otherwise) ctx.inBlock (.block clause.body)
  | otherwise (first : Clause) (others : List Clause) (last : ElseClause) :
    StatementPart ctx (.conditional first others (some last)) ctx.inBlock (.block last.body)
  | first {counter first last step body} (h : first.isNumber .one = false) :
    StatementPart ctx (.forNumeric counter first last step body) ctx.asBound (.expression first)
  | last (counter : Identifier) (first last : Expr) (step : Option Expr) (body : List Stmt) :
    StatementPart ctx (.forNumeric counter first last step body) ctx.asBound (.expression last)
  | step (counter : Identifier) (first last step : Expr) (body : List Stmt) :
    StatementPart ctx (.forNumeric counter first last (some step) body) ctx.asBound
      (.expression step)
  | counted (counter : Identifier) (first last : Expr) (step : Option Expr) (body : List Stmt) :
    StatementPart ctx (.forNumeric counter first last step body) (ctx.inLoop body) (.block body)
  | iterator {vars iterator body} (h : iteratesStandard iterator = false) :
    StatementPart ctx (.forGeneric vars [iterator] body) ctx (.expression iterator)
  | iterated {vars id span base arguments body e}
    (h : iteratesStandard ⟨id, span, .call base .arguments arguments⟩ = true) (he : e ∈ arguments) :
    StatementPart ctx (.forGeneric vars [⟨id, span, .call base .arguments arguments⟩] body) ctx
      (.expression e)
  | repeated (vars : List Identifier) (iterator : Expr) (body : List Stmt) :
    StatementPart ctx (.forGeneric vars [iterator] body) (ctx.inLoop body) (.block body)

/-- **A part that a lowering takes up**, with the context it is lowered in. -/
inductive Step (ctx : Context) : Task → Context → Task → Prop
  | operand {e c : Expr} (h : Operand ctx e c) : Step ctx (.expression e) ctx (.expression c)
  | value (id : NodeId) (span : Span) (f : FunctionBody) :
    Step ctx (.expression ⟨id, span, .function f⟩) ctx (.function false (.plain f) f)
  | class {id span base style arguments inner t}
    (hpattern : patternAt ctx ⟨base, arguments⟩ = .classFactory)
    (h : ClassPart ctx arguments inner t) :
    Step ctx (.expression ⟨id, span, .call base style arguments⟩) inner t
  | body (isMethod : Bool) (convention : Convention) (f : FunctionBody) :
    Step ctx (.function isMethod convention f)
      (ctx.inFunction f.parameters convention.shown convention.receiver) (.block f.body)
  | statement {body : List Stmt} {s : Stmt} (h : s ∈ body) :
    Step ctx (.block body) ctx (.statement s)
  | part {s : Stmt} {inner : Context} {t : Task} (h : StatementPart ctx s.kind inner t) :
    Step ctx (.statement s) inner t

/-- What is taken up in many steps. -/
def Reaches : Context × Task → Context × Task → Prop :=
  ReflTransGen fun whole part => Step whole.1 whole.2 part.1 part.2

/-- One step reaches its task. -/
theorem Step.reaches {ctx inner : Context} {t u : Task} (h : Step ctx t inner u) :
    Reaches (ctx, t) (inner, u) := .single h

/-! ## Lowerings that write texts of a kind -/

/-- A lowering writes a text of a kind, wherever it starts. -/
def Yields (P : String → Prop) (m : Emit String) : Prop :=
  ∀ p, ∃ part, P part ∧ Bears (m.run p).1 part

/-- A lowering writes a text of a kind in one of its texts. -/
def YieldsAmong (P : String → Prop) (ms : Emit (List String)) : Prop :=
  ∀ p, ∃ text ∈ (ms.run p).1, ∃ part, P part ∧ Bears text part

/-- A lowering of a class writes a text of a kind in its members or its parent. -/
def YieldsInClass (P : String → Prop) (m : Emit (List String × Option String)) : Prop :=
  ∀ p, ∃ text, (text ∈ (m.run p).1.1 ∨ (m.run p).1.2 = some text) ∧ ∃ part, P part ∧ Bears text part

section Rules

variable {α : Type} {P : String → Prop} {m : Emit String} {ms : Emit (List String)}
  {ctx : Context} {e : Expr}

/-- A lowering whose text goes into another. -/
theorem Yields.bind {f : String → Emit String} (h : Yields P m)
    (hf : ∀ t p, HasPart ((f t).run p).1 t) : Yields P (m >>= f) := by
  intro p
  obtain ⟨part, hpart, hbears⟩ := h p
  exact ⟨part, hpart, hbears.within (hf _ _)⟩

/-- A lowering of which one text goes into another. -/
theorem YieldsAmong.bind {f : List String → Emit String} (h : YieldsAmong P ms)
    (hf : ∀ ts p t part, t ∈ ts → Bears t part → Bears ((f ts).run p).1 part) :
    Yields P (ms >>= f) := by
  intro p
  obtain ⟨text, htext, part, hpart, hbears⟩ := h p
  exact ⟨part, hpart, hf _ _ text part htext hbears⟩

/-- What is made of a class body and its parent yields what these yield. -/
theorem YieldsInClass.bind {m : Emit (List String × Option String)}
    {f : List String × Option String → Emit String} (h : YieldsInClass P m)
    (hf : ∀ (body : List String × Option String) p text,
      (text ∈ body.1 ∨ body.2 = some text) → HasPart ((f body).run p).1 text) :
    Yields P (m >>= f) := by
  intro p
  obtain ⟨text, htext, part, hpart, hbears⟩ := h p
  exact ⟨part, hpart, hbears.within (hf _ _ text htext)⟩

/-- A lowering behind another one. -/
theorem Yields.after {m : Emit α} {f : α → Emit String} (h : ∀ a, Yields P (f a)) :
    Yields P (m >>= f) :=
  fun _ => h _ _

/-- What texts yield does not depend on what came before. -/
theorem YieldsAmong.after {m : Emit α} {f : α → Emit (List String)} (h : ∀ a, YieldsAmong P (f a)) :
    YieldsAmong P (m >>= f) :=
  fun _ => h _ _

/-- The text of a node stands within the comments around it. -/
theorem part_around (span : Span) (m : Emit String) (p : Progress) :
    ∃ q, HasPart ((around span m).run p).1 (m.run q).1 :=
  ⟨_, ((HasPart.refl _).behind _).before _⟩

/-- The comments around a node keep what it yields. -/
theorem Yields.around (h : Yields P m) (span : Span) : Yields P (around span m) := by
  intro p
  obtain ⟨q, hhas⟩ := part_around span m p
  obtain ⟨part, hpart, hbears⟩ := h q
  exact ⟨part, hpart, hbears.within hhas⟩

/-- An expression holds the text of its kind, from some later state. -/
theorem part_expression (ctx : Context) (role : Role) (e : Expr) (p : Progress) :
    ∃ q, HasPart ((expression ctx role e).run p).1
      ((expressionKind ctx role e.id e.kind).run q).1 := by
  obtain ⟨id, span, kind⟩ := e
  rw [expression]
  exact part_around span _ p

/-- What a lowering writes of an expression. -/
theorem Exhibits.yields (h : Exhibits ctx m e) : Yields ((Task.expression e).Gives ctx) m := by
  intro p
  obtain ⟨_, ⟨role, q, rfl⟩, hhas⟩ := h p
  obtain ⟨r, hinner⟩ := part_expression ctx role e q
  exact ⟨_, ⟨role, r, rfl⟩, (hhas.trans hinner).bears⟩

/-- Texts that exhibit an expression give its task. -/
theorem ExhibitsAmong.yields (h : ExhibitsAmong ctx ms e) :
    YieldsAmong ((Task.expression e).Gives ctx) ms := by
  intro p
  obtain ⟨text, htext, _, ⟨role, q, rfl⟩, hhas⟩ := h p
  obtain ⟨r, hinner⟩ := part_expression ctx role e q
  exact ⟨text, htext, _, ⟨role, r, rfl⟩, (hhas.trans hinner).bears⟩

/-- So do class bodies. -/
theorem ExhibitsInClass.yields {m : Emit (List String × Option String)}
    (h : ExhibitsInClass ctx m e) : YieldsInClass ((Task.expression e).Gives ctx) m := by
  intro p
  obtain ⟨text, htext, _, ⟨role, q, rfl⟩, hhas⟩ := h p
  obtain ⟨r, hinner⟩ := part_expression ctx role e q
  exact ⟨text, htext, _, ⟨role, r, rfl⟩, (hhas.trans hinner).bears⟩

theorem yields_expression (ctx : Context) (role : Role) (e : Expr) :
    Yields ((Task.expression e).Gives ctx) (expression ctx role e) :=
  (exhibits_expression ctx role e).yields

/-- Expressions in a row give the task of each. -/
theorem yields_expressions (ctx : Context) {es : List Expr} (role : Role) (he : e ∈ es) :
    YieldsAmong ((Task.expression e).Gives ctx) (expressions ctx role es) :=
  (exhibits_expressions ctx role he).yields

/-- A block whose statements go into a text. -/
theorem yields_block (ctx : Context) (body : List Stmt) {f : List String → Emit String}
    (hf : ∀ ts p, HasPart ((f ts).run p).1 (sequence ts)) :
    Yields ((Task.block body).Gives ctx) (statements ctx body >>= f) :=
  fun p => ⟨_, ⟨p, rfl⟩, (hf _ _).bears⟩

/-- A function whose body goes into a text. -/
theorem yields_function (ctx : Context) (isMethod : Bool) (convention : Convention)
    (fn : FunctionBody) {f : FunctionText → Emit String}
    (hf : ∀ text p, HasPart ((f text).run p).1 text.body) :
    Yields ((Task.function isMethod convention fn).Gives ctx) (function ctx convention fn >>= f) :=
  fun p => ⟨_, ⟨p, rfl⟩, (hf _ _).bears⟩

end Rules

/-! ## Functions -/

section Functions

variable (f : FunctionText)

theorem part_functionExpression : HasPart f.expression f.body := by
  unfold FunctionText.expression
  exact (HasPart.refl f.body).braced.behind _

/-- A method holds its body. -/
theorem part_functionMember (convention : Convention) (key : String) :
    HasPart (f.member convention key) f.body := by
  unfold FunctionText.member
  exact (HasPart.refl f.body).braced.behind _

/-- A function with a name holds its body, assigned or declared. -/
theorem part_functionNamed (name : String) (isLocal redeclares : Bool) :
    HasPart (f.named name isLocal redeclares) f.body := by
  have hdeclaration := (HasPart.refl f.body).braced.behind
    ("function " ++ name ++ parens f.parameters)
  unfold FunctionText.named
  dsimp only
  split
  · split
    · exact (part_functionExpression f).behind _
    · exact hdeclaration
  · exact ((((hdeclaration.before _).before _).before _).before _).before _

/-- A function that is assigned to a member holds its body. -/
theorem part_functionAssigned (convention : Convention) (base : String) (identifier : Identifier) :
    HasPart (f.assigned convention base identifier) f.body := by
  unfold FunctionText.assigned
  dsimp only
  exact (part_functionExpression f).behind _

/-- And the text of the member's owner. -/
theorem part_functionOwner (convention : Convention) (base : String) (identifier : Identifier) :
    HasPart (f.assigned convention base identifier) base := by
  unfold FunctionText.assigned
  dsimp only
  split
  · exact (((((HasPart.refl base).before _).before _).before _).before _).before _
  · exact ((((HasPart.refl base).before _).before _).before _).before _

end Functions

/-! ## Classes -/

section Classes

variable {ctx inner : Context} {t : Task} {P : String → Prop}

/-- A function as a member of a class. -/
theorem yields_memberFunction (ctx : Context) (key : String) (id : NodeId) (span : Span)
    (f : FunctionBody) :
    Yields ((Task.function false (.ofFirstParameter f) f).Gives ctx)
      (memberValue ctx key ⟨id, span, .function f⟩) := by
  rw [memberValue]
  exact yields_function ctx false (.ofFirstParameter f) f fun text p =>
    part_functionMember text _ key

/-- What one of the members of a class writes is written by all. -/
theorem yieldsAmong_members {fields : List Field} {field : Field} (hfield : field ∈ fields)
    (h : Yields P (member ctx field.span field.kind)) : YieldsAmong P (members ctx fields) := by
  intro p
  induction fields generalizing p with
  | nil => cases hfield
  | cons first rest ih =>
    obtain ⟨firstId, firstSpan, kind⟩ := first
    rw [members]
    rcases List.mem_cons.1 hfield with rfl | hfield
    · obtain ⟨part, hpart, hbears⟩ := h.around firstSpan p
      exact ⟨_, List.mem_cons_self, part, hpart, hbears⟩
    · obtain ⟨text, htext, hpart⟩ :=
        ih hfield ((around firstSpan (member ctx firstSpan kind)).run p).2
      exact ⟨text, List.mem_cons_of_mem _ htext, hpart⟩

/-- **The parts of a native class are written in its members or its parent.** -/
theorem ClassPart.yields {arguments : List Expr} (h : ClassPart ctx arguments inner t) :
    YieldsInClass (t.Gives inner) (classBody ctx arguments) := by
  have hmembers {id : NodeId} {span : Span} {fields : List Field} {rest : List Expr}
      (h : YieldsAmong (t.Gives inner) (members ctx.asValue fields)) :
      YieldsInClass (t.Gives inner) (classBody ctx (⟨id, span, .table fields⟩ :: rest)) := by
    intro p
    obtain ⟨text, htext, hpart⟩ := h p
    rw [classBody]
    exact ⟨text, .inl htext, hpart⟩
  cases h with
  | member hfield h => exact hmembers (yieldsAmong_members hfield (exhibits_member _ h).yields)
  | namedMethod hfield =>
    refine hmembers (yieldsAmong_members hfield ?_)
    dsimp only
    rw [Emit.member]
    exact yields_memberFunction _ _ _ _ _
  | keyedMethod hfield =>
    refine hmembers (yieldsAmong_members hfield ?_)
    dsimp only
    rw [Emit.member]
    exact .after fun _ => yields_memberFunction _ _ _ _ _
  | parent => exact (exhibits_parent ctx _ _ _ _ _).yields

/-- A class that has parts has a body of its own. -/
theorem isNativeClass_of_part {arguments : List Expr} (h : ClassPart ctx arguments inner t) :
    isNativeClass arguments = true := by
  cases h <;> rfl

/-- A native class that is written with a name or without. -/
theorem YieldsInClass.classText {m : Emit (List String × Option String)} (h : YieldsInClass P m)
    {f : List String × Option String → Emit String} {name : Option String}
    (hf : ∀ body p, HasPart ((f body).run p).1 (classText name body.2 body.1)) :
    Yields P (m >>= f) :=
  h.bind fun body p _ htext => (hf body p).trans (part_classText htext (.refl _))

end Classes

/-! ## Statements that bind -/

section Binding

variable {ctx : Context} {targets : Targets} {init : List Expr} {texts : List String}
  {text : String}

theorem part_commas (h : text ∈ texts) : HasPart (commas texts) text :=
  (HasPart.refl text).intercalate h ", "

/-- Targets hold the text of each. -/
theorem part_pattern (h : text ∈ targets.texts) : HasPart targets.pattern text := by
  unfold Targets.pattern
  split
  next only heq =>
    rw [heq, List.mem_singleton] at h
    rw [h]
    exact .refl _
  · exact (part_commas h).brackets

/-- Packed values hold the text of each. -/
theorem part_packText (h : text ∈ texts) : HasPart (packText texts) text := by
  unfold packText
  split
  · cases h
  · rw [List.mem_singleton.1 h]
    exact .refl _
  · exact (part_commas h).brackets

theorem part_packValues (init : List Expr) (h : text ∈ texts) :
    HasPart (packValues init texts) text := by
  unfold packValues
  split
  · split
    · exact part_packText h
    · exact (part_commas h).brackets
  · exact part_packText h

/-- A copy of a varying name holds its value. -/
theorem part_copiedName (name source : String) (node : Expr) (value : String) :
    HasPart (copiedName ctx name source node value) value := by
  unfold copiedName
  split
  · exact (HasPart.refl _).behind _
  · exact .refl _

/-- What a binding of a name writes: its target, and its value. -/
theorem bears_bindPlain (lead pattern name : String) (node : Expr) (value : String) :
    Bears (bindPlain ctx lead pattern name node value) value ∧
      HasPart (bindPlain ctx lead pattern name node value) pattern := by
  have hlead {rest : String} : HasPart (lead ++ pattern ++ " = " ++ rest) pattern :=
    (((HasPart.refl pattern).behind lead).before " = ").before rest
  unfold bindPlain
  split
  · exact ⟨((part_copiedName name _ node value).behind _).bears, hlead⟩
  · split
    · refine ⟨(HasPart.bears (.refl value)).found.within ((HasPart.refl _).behind _), ?_⟩
      exact (((HasPart.refl pattern).brackets.behind lead).before " = ").before _
    · exact ⟨((HasPart.refl value).behind _).bears, hlead⟩

/-- What a binding of a name writes, if the name may become a class. -/
theorem bears_boundText (ctx : Context) (lead pattern name : String) (node : Expr) (value : String)
    (isFirst : Bool) :
    Bears (boundText ctx lead pattern name node value isFirst) value ∧
      HasPart (boundText ctx lead pattern name node value isFirst) pattern := by
  have hlead {rest : String} : HasPart (lead ++ pattern ++ " = " ++ rest) pattern :=
    (((HasPart.refl pattern).behind lead).before " = ").before rest
  unfold boundText
  split
  · have hcreate : HasPart (createClassText [value]) value :=
      (HasPart.refl value).call (List.mem_singleton_self _) "l2j.createClass"
    exact ⟨(hcreate.behind _).bears, hlead⟩
  · split
    · exact ⟨((HasPart.refl value).behind _).bears, hlead⟩
    · exact bears_bindPlain lead pattern name node value

/-- **A binding writes its values**, and its targets. -/
theorem bears_bind (ctx : Context) (targets : Targets) (init : List Expr) (values : List String)
    (p : Progress) :
    (∀ value ∈ values, Bears ((bind ctx targets init values).run p).1 value) ∧
      ∀ target ∈ targets.texts, HasPart ((bind ctx targets init values).run p).1 target := by
  have hlead {rest : String} : HasPart (targets.lead ++ targets.pattern ++ " = " ++ rest)
      targets.pattern :=
    (((HasPart.refl _).behind targets.lead).before " = ").before rest
  unfold bind
  split
  next node value name _ _ =>
    rw [bindName_run, bindAs_run]
    obtain ⟨hvalue, hpattern⟩ := bears_boundText ctx
      (if publishes ctx p.registries targets name node value = true then "globalThis."
        else targets.lead) targets.pattern name node value
      (publishes ctx p.registries targets name node value && !p.registries.isInitializedGlobal name)
    refine ⟨fun v hv => ?_, fun target htarget => hpattern.trans (part_pattern htarget)⟩
    rw [List.mem_singleton.1 hv]
    exact hvalue
  next value _ _ =>
    refine ⟨fun v hv => ?_, fun target htarget => hlead.trans (part_pattern htarget)⟩
    rw [List.mem_singleton.1 hv]
    exact ((HasPart.refl value).behind _).bears
  · refine ⟨fun v hv => ?_, fun target htarget => hlead.trans (part_pattern htarget)⟩
    exact (part_packValues _ hv).bears.found.within ((HasPart.refl _).behind _)

end Binding

/-! ## Returns -/

section Returns

variable {ctx : Context} {P : String → Prop} {all : Emit (List String)}

/-- What a file returns is borne behind the sealing of its classes. -/
theorem bears_exportText (ctx : Context) (classes : List String) {packed part : String}
    (h : Bears packed part) : Bears (exportText ctx classes packed) part := by
  by_cases hblank : (Text.trim packed).isEmpty = true
  · exact .inr (h.elim (·.isBlank (isBlank_of_trim hblank)) id)
  · unfold exportText
    dsimp only
    rw [if_neg hblank]
    exact h.within ((HasPart.refl packed).behind _)

/-- What is returned is borne, unless it is blank. -/
theorem bears_returnText {packed part : String} (h : Bears packed part) :
    Bears (returnText packed) part := by
  unfold returnText
  split
  next hempty =>
    have hblank : IsBlank packed := by
      intro c hc
      rw [hempty] at hc
      cases hc
    exact .inr (h.elim (·.isBlank hblank) id)
  · split
    · exact h.within ((HasPart.refl _).parens.behind _)
    · exact h.within ((HasPart.refl _).behind _)

/-- The values of a `return` are written, if it does not raise an error. -/
theorem yields_returnStatement {arguments : List Expr} (hfailure : isFailure arguments = false)
    (second : Emit String) (h : YieldsAmong P all) :
    Yields P (returnStatement ctx arguments second all) := by
  unfold returnStatement
  rw [hfailure, if_neg Bool.false_ne_true]
  refine h.bind fun texts p text part htext hbears => ?_
  have hpacked := hbears.within (part_packText htext)
  dsimp only
  split
  · exact bears_exportText ctx p.classes hpacked
  · exact bears_returnText hpacked

end Returns

/-! ## Statements -/

section Statements

variable {ctx inner : Context} {t : Task} {P : String → Prop}

/-- The header of a loop holds its bounds, and its start unless that is one. -/
theorem part_forHeader (name : String) (first : Expr) (step : Option Expr)
    (firstText lastText stepText : String) :
    (first.isNumber .one = false →
      HasPart (forNumericHeader name first step firstText lastText stepText) firstText) ∧
    HasPart (forNumericHeader name first step firstText lastText stepText) lastText ∧
    HasPart (forNumericHeader name first step firstText lastText stepText) stepText := by
  unfold forNumericHeader
  dsimp only
  refine ⟨fun h => ?_, ?_, ?_⟩
  · rw [h, if_neg Bool.false_ne_true]
    refine HasPart.behind (HasPart.parens ?_) "for "
    iterate 12 refine HasPart.before ?_ _
    exact (HasPart.refl _).behind _
  · refine HasPart.behind (HasPart.parens ?_) "for "
    iterate 6 refine HasPart.before ?_ _
    exact (HasPart.refl _).behind _
  · exact ((HasPart.refl _).behind _).parens.behind _

theorem part_ifText (condition body : String) :
    HasPart (ifText condition body) condition ∧ HasPart (ifText condition body) body := by
  unfold ifText
  exact ⟨(((HasPart.refl _).parens.behind _).before _).before _, (HasPart.refl _).braced.behind _⟩

/-- What one of the clauses of a conditional writes. -/
theorem yieldsAmong_clauses {clauses : List Clause} {clause : Clause} (hclause : clause ∈ clauses) :
    YieldsAmong ((Task.expression clause.condition).Gives ctx) (Emit.clauses ctx clauses) ∧
      YieldsAmong ((Task.block clause.body).Gives ctx.inBlock) (Emit.clauses ctx clauses) := by
  induction clauses with
  | nil => cases hclause
  | cons first rest ih =>
    obtain ⟨id, span, condition, body⟩ := first
    rw [Emit.clauses]
    rcases List.mem_cons.1 hclause with rfl | hclause
    · constructor
      · intro p
        obtain ⟨part, hpart, hbears⟩ := yields_expression ctx .single condition p
        refine ⟨_, List.mem_cons_self, part, hpart, hbears.within ?_⟩
        exact (part_ifText _ _).1.behind _
      · intro p
        refine ⟨_, List.mem_cons_self, _, ⟨((expression ctx .single condition).run p).2, rfl⟩, ?_⟩
        exact ((part_ifText _ _).2.behind _).bears
    · obtain ⟨hcondition, hbody⟩ := ih hclause
      refine ⟨.after fun _ => .after fun _ => fun p => ?_,
        .after fun _ => .after fun _ => fun p => ?_⟩
      · obtain ⟨text, htext, hpart⟩ := hcondition p
        exact ⟨text, List.mem_cons_of_mem _ htext, hpart⟩
      · obtain ⟨text, htext, hpart⟩ := hbody p
        exact ⟨text, List.mem_cons_of_mem _ htext, hpart⟩

/-- A block in braces at the end of a statement. -/
theorem part_block (lead text : String) : HasPart (lead ++ braced text) text :=
  (HasPart.refl text).braced.behind lead

/-- Statements that bind write their values. -/
theorem yields_localBinding {id : NodeId} {vars : List Identifier} {init : List Expr}
    {parts : LocalParts} (hinit : init ≠ []) (h : YieldsAmong P parts.values) :
    Yields P (localBinding ctx id vars init parts) := by
  have hempty : init.isEmpty = false := List.isEmpty_eq_false_iff.2 hinit
  unfold localBinding
  dsimp only
  rw [hempty, if_neg Bool.false_ne_true]
  refine h.bind fun values p value part hvalue hbears => ?_
  have hvalues := (bears_bind ctx.asValue (localTargets ctx id vars).2 init values p).1 value hvalue
  exact (hvalues.trans hbears).within ((HasPart.refl _).behind _)

/-- The class that a `local` statement defines, made by the support module. -/
theorem localStatement_created {id : NodeId} {v : Identifier} {valueId : NodeId} {valueSpan : Span}
    {base : Expr} {style : CallStyle} {arguments : List Expr} {parts : LocalParts}
    (hclass : isClassCall base arguments = true) (hnative : isNativeClass arguments = false) :
    localStatement ctx id [v] [⟨valueId, valueSpan, .call base style arguments⟩] parts = (do
      if ctx.isTop then declareClass (ctx.declaredName v)
      return "let " ++ ctx.declaredName v ++ " = " ++ createClassText (← parts.arguments)) := by
  have hmodule : isEmptyTable ⟨valueId, valueSpan, .call base style arguments⟩ = false := rfl
  unfold localStatement localClass?
  dsimp only
  rw [hmodule, Bool.and_false, if_neg (by decide), hclass, hnative]
  rfl

/-- The table behind whose end a value is put, and the value. -/
theorem assignment_append {targetId : NodeId} {targetSpan : Span} {base index value : Expr}
    {parts : AssignmentParts} (h : isAppend base index = true) :
    assignment ctx [⟨targetId, targetSpan, .index base index⟩] [value] parts = (do
      useSystemFunction "table" "insert"
      let table := asBase base (← parts.indexBase)
      return callText "l2j.table.insert" [table, ← parts.firstValue]) := by
  have happend : appendBase? [⟨targetId, targetSpan, .index base index⟩] [value] = some base :=
    if_pos h
  unfold assignment
  rw [happend]

/-- The targets of an assignment are their texts. -/
theorem texts_assignedTargets (ctx : Context) (targets : List Expr) (texts : List String) :
    (assignedTargets ctx targets texts).texts = texts := by
  unfold assignedTargets
  split <;> rfl

/-- A loop over anything else runs over its value. -/
theorem iterated_plain {iterator : Expr} (h : iteratesStandard iterator = false) :
    iterated ctx iterator = expression ctx .single iterator := by
  obtain ⟨id, span, kind⟩ := iterator
  cases kind with
  | call base style arguments =>
    cases style with
    | arguments =>
      have hnone : iteratorFunction? base = none :=
        Option.isNone_iff_eq_none.1 (Option.isSome_eq_false_iff.1 h)
      rw [Emit.iterated, hnone, expression]
    | table | string => rw [Emit.iterated, expression]; simp
  | _ => rw [Emit.iterated, expression]; simp

/-- A loop over a standard iterator runs over the iterator's arguments. -/
theorem iterated_standard (ctx : Context) {id : NodeId} {span : Span} {base : Expr}
    {arguments : List Expr}
    (h : iteratesStandard ⟨id, span, .call base .arguments arguments⟩ = true) :
    ∃ name, iterated ctx ⟨id, span, .call base .arguments arguments⟩ =
      (do return callText ("l2j." ++ name) (← expressions ctx .spread arguments)) := by
  obtain ⟨name, hname⟩ := Option.isSome_iff_exists.1 h
  exact ⟨name, by rw [Emit.iterated, hname]⟩

/-- The parts of a `local` statement are written in it. -/
theorem StatementPart.yields_local {vars : List Identifier} {init : List Expr}
    (h : StatementPart ctx (.local vars init) inner t) (id : NodeId) (span : Span) :
    Yields (t.Gives inner) (Emit.statement ctx id span (.local vars init)) := by
  cases h with
  | @bound vars init e hno he =>
    rw [Emit.statement, localStatement_eq_binding hno]
    refine yields_localBinding (List.ne_nil_of_mem he) ?_
    exact yields_expressions ctx.asValue _ he
  | localClass hclass hnative h =>
    rw [Emit.statement, localStatement_native hclass hnative]
    exact YieldsInClass.classText (ClassPart.yields h) fun body p => .refl _
  | @localArgument v _ _ _ _ arguments e hclass hnative he =>
    rw [Emit.statement, localStatement_created hclass hnative]
    have hcreated : Yields ((Task.expression e).Gives ctx) (do
        return "let " ++ ctx.declaredName v ++ " = " ++
          createClassText (← expressions ctx .spread arguments)) := by
      refine (yields_expressions ctx .spread he).bind fun ts p text part htext hbears => ?_
      exact hbears.within (((HasPart.refl text).call htext _).behind _)
    split
    · exact .after fun _ => hcreated
    · exact hcreated

/-- The parts of an assignment are written in it. -/
theorem StatementPart.yields_assignment {targets init : List Expr}
    (h : StatementPart ctx (.assignment targets init) inner t) (id : NodeId) (span : Span) :
    Yields (t.Gives inner) (Emit.statement ctx id span (.assignment targets init)) := by
  cases h with
  | @target targets init e happend hno he =>
    rw [Emit.statement, assignment_binding happend hno]
    refine (yields_expressions ctx.asValue .single he).bind fun ts p text part htext hbears => ?_
    refine hbears.within ((bears_bind _ _ init _ _).2 text ?_)
    rwa [texts_assignedTargets]
  | assigned happend hno he =>
    rw [Emit.statement, assignment_binding happend hno]
    refine .after fun texts => (yields_expressions ctx.asValue _ he).bind ?_
    intro values p value part hvalue hbears
    exact ((bears_bind _ _ _ values p).1 value hvalue).trans hbears
  | @appendBase _ _ base _ _ happend =>
    rw [Emit.statement, assignment_append happend]
    refine .after fun _ => (yields_expression ctx .single base).bind fun text p => ?_
    exact ((HasPart.refl text).asBase base).call List.mem_cons_self _
  | @appendValue _ _ base _ value happend =>
    rw [Emit.statement, assignment_append happend]
    refine .after fun _ => .after fun _ => ?_
    refine Yields.bind (m := expression ctx .single value) (yields_expression ctx .single value) ?_
    exact fun text p => (HasPart.refl text).call (by simp) _
  | @classTarget target _ _ _ _ _ happend hclass hnative hname =>
    rw [Emit.statement, assignment_native happend hclass hnative]
    unfold assignClass
    split
    next name hkind =>
      rw [Expr.name?, hkind] at hname
      cases hname
    · refine Yields.bind (m := expression ctx .single target)
        (yields_expression ctx .single target) ?_
      exact fun text p => ((HasPart.refl text).before _).before _
  | @assignedClass target _ _ _ _ _ _ _ happend hclass hnative h =>
    rw [Emit.statement, assignment_native happend hclass hnative]
    unfold assignClass
    split
    · refine .after fun _ => YieldsInClass.bind (ClassPart.yields h) fun body p text htext => ?_
      exact (part_classText htext (.refl text)).behind _
    · refine .after fun _ => YieldsInClass.bind (ClassPart.yields h) fun body p text htext => ?_
      exact (part_classText htext (.refl text)).behind _

/-- The parts of a conditional are written in it. -/
theorem StatementPart.yields_conditional {first : Clause} {others : List Clause}
    {otherwise : Option ElseClause}
    (h : StatementPart ctx (.conditional first others otherwise) inner t) (id : NodeId) (span : Span) :
    Yields (t.Gives inner)
      (Emit.statement ctx id span (.conditional first others otherwise)) := by
  cases h with
  | firstCondition first others otherwise =>
    obtain ⟨clauseId, clauseSpan, condition, body⟩ := first
    rw [Emit.statement]
    refine (yields_expression ctx .single condition).bind fun text p => ?_
    exact (part_ifText _ _).1.intercalate (List.mem_append_left _ List.mem_cons_self) _
  | firstBody first others otherwise =>
    obtain ⟨clauseId, clauseSpan, condition, body⟩ := first
    rw [Emit.statement]
    refine .after fun _ => yields_block ctx.inBlock body fun ts p => ?_
    exact (part_ifText _ _).2.intercalate (List.mem_append_left _ List.mem_cons_self) _
  | @condition first others otherwise clause hclause =>
    obtain ⟨clauseId, clauseSpan, condition, body⟩ := first
    rw [Emit.statement]
    refine .after fun _ => .after fun _ => (yieldsAmong_clauses hclause).1.bind ?_
    intro ts p text part htext hbears
    refine hbears.within ((HasPart.refl text).intercalate ?_ _)
    exact List.mem_append_left _ (List.mem_cons_of_mem _ htext)
  | @consequent first others otherwise clause hclause =>
    obtain ⟨clauseId, clauseSpan, condition, body⟩ := first
    rw [Emit.statement]
    refine .after fun _ => .after fun _ => (yieldsAmong_clauses hclause).2.bind ?_
    intro ts p text part htext hbears
    refine hbears.within ((HasPart.refl text).intercalate ?_ _)
    exact List.mem_append_left _ (List.mem_cons_of_mem _ htext)
  | otherwise first others last =>
    obtain ⟨clauseId, clauseSpan, condition, body⟩ := first
    obtain ⟨lastId, lastSpan, lastBody⟩ := last
    rw [Emit.statement]
    refine .after fun _ => .after fun _ => .after fun middle => ?_
    rw [elseClause, bind_assoc]
    refine yields_block ctx.inBlock lastBody fun ts p => ?_
    exact (part_block "else " _).intercalate
      (List.mem_append_right _ (List.mem_singleton_self _)) _

/-- The parts of a loop over numbers are written in it. -/
theorem StatementPart.yields_forNumeric {counter : Identifier} {first last : Expr}
    {step : Option Expr} {body : List Stmt}
    (h : StatementPart ctx (.forNumeric counter first last step body) inner t) (id : NodeId)
    (span : Span) : Yields (t.Gives inner)
      (Emit.statement ctx id span (.forNumeric counter first last step body)) := by
  cases h with
  | @first counter first last step body hone =>
    rw [Emit.statement]
    refine (yields_expression ctx.asBound .single first).bind fun text p => ?_
    exact (((part_forHeader _ first step text _ _).1 hone).before _).before _
  | last counter first last step body =>
    rw [Emit.statement]
    refine .after fun firstText =>
      (yields_expression ctx.asBound .single last).bind fun text p => ?_
    exact ((part_forHeader _ first step firstText text _).2.1.before _).before _
  | step counter first last step body =>
    rw [Emit.statement, optional]
    refine .after fun firstText => .after fun lastText => ?_
    refine (yields_expression ctx.asBound .single step).bind fun text p => ?_
    exact ((part_forHeader _ first (some step) firstText lastText text).2.2.before _).before _
  | counted counter first last step body =>
    rw [Emit.statement]
    refine .after fun _ => .after fun _ => .after fun _ => ?_
    exact yields_block (ctx.inLoop body) body fun ts p => part_block _ _

/-- The parts of a generic loop are written in it. -/
theorem StatementPart.yields_forGeneric {vars : List Identifier} {iterators : List Expr}
    {body : List Stmt} (h : StatementPart ctx (.forGeneric vars iterators body) inner t) (id : NodeId)
    (span : Span) :
    Yields (t.Gives inner) (Emit.statement ctx id span (.forGeneric vars iterators body)) := by
  cases h with
  | @iterator vars iterator body hstandard =>
    rw [Emit.statement, iterated_plain hstandard]
    refine (yields_expression ctx .single iterator).bind fun text p => ?_
    exact ((((HasPart.refl text).behind _).parens.behind _).before _).before _
  | iterated hstandard he =>
    obtain ⟨name, heq⟩ := iterated_standard ctx hstandard
    rw [Emit.statement, heq, bind_assoc]
    refine (yields_expressions ctx .spread he).bind fun ts p text part htext hbears => ?_
    have hcall := (HasPart.refl text).call htext ("l2j." ++ name)
    exact hbears.within ((((hcall.behind _).parens.behind _).before _).before _)
  | repeated vars iterator body =>
    rw [Emit.statement]
    exact .after fun _ => yields_block (ctx.inLoop body) body fun ts p => part_block _ _

/-- **The parts of a statement are written in it.** -/
theorem StatementPart.yields {kind : StmtKind} (h : StatementPart ctx kind inner t) (id : NodeId)
    (span : Span) : Yields (t.Gives inner) (Emit.statement ctx id span kind) := by
  -- each part is run behind those in front of it, and what is around its text keeps it
  cases kind with
  | «local» => exact h.yields_local id span
  | assignment => exact h.yields_assignment id span
  | conditional => exact h.yields_conditional id span
  | forNumeric => exact h.yields_forNumeric id span
  | forGeneric => exact h.yields_forGeneric id span
  | call e =>
    cases h with
    | call e =>
      obtain ⟨callId, callSpan, kind⟩ := e
      rw [Emit.statement]
      exact fun p => ⟨_, ⟨.statement, p, rfl⟩, (HasPart.refl _).bears⟩
  | localFunction name f =>
    cases h with
    | localFunction name f =>
      rw [Emit.statement]
      exact yields_function ctx false _ f fun text p => part_functionNamed text
        (ctx.declaredName name) true (ctx.annotations.redeclared.contains name.id)
  | function target f =>
    cases h with
    | function name f =>
      rw [Emit.statement]
      exact yields_function ctx false _ f fun text p => part_functionNamed text
        (ctx.declaredName name) false false
    | owner targetId targetSpan base indexer name f =>
      rw [Emit.statement]
      refine (yields_expression ctx .single base).bind fun text p => ?_
      refine HasPart.trans ?_ ((HasPart.refl text).asBase base)
      exact part_functionOwner _ (.ofIndexer indexer f) (asBase base text) name
    | method targetId targetSpan base indexer name f =>
      rw [Emit.statement]
      refine .after fun owner => yields_function ctx _ _ f fun text p => ?_
      exact part_functionAssigned text (.ofIndexer indexer f) (asBase base owner) name
  | «return» arguments =>
    cases h with
    | returned hallows hfailure he =>
      rw [Emit.statement, if_pos hallows]
      exact yields_returnStatement hfailure _ (yields_expressions ctx _ he)
    | @raised first message hallows hfailure =>
      have hfails : isFailure [first, message] = true := hfailure
      rw [Emit.statement, if_pos hallows, returnStatement, hfails, if_pos rfl, secondExpression,
        firstExpression]
      refine (yields_expression ctx .single message).bind fun text p => ?_
      exact (HasPart.refl text).parens.behind _
  | block body =>
    cases h with
    | block body =>
      rw [Emit.statement]
      exact yields_block ctx.inBlock body fun ts p => (HasPart.refl _).braced
  | «while» condition body =>
    cases h with
    | whileCondition condition body =>
      rw [Emit.statement]
      refine (yields_expression ctx .single condition).bind fun text p => ?_
      exact (((HasPart.refl text).parens.behind _).before _).before _
    | whileBody condition body =>
      rw [Emit.statement]
      exact .after fun _ => yields_block (ctx.inLoop body) body fun ts p => part_block _ _
  | «repeat» body condition =>
    cases h with
    | repeatBody body condition =>
      rw [Emit.statement]
      refine yields_block (ctx.inLoop body) body fun ts p => ?_
      exact (((HasPart.refl _).braced.behind "do ").before _).before _
    | repeatCondition body condition =>
      rw [Emit.statement]
      refine .after fun _ => (yields_expression ctx .single condition).bind fun text p => ?_
      exact (((HasPart.refl text).parens.behind "!").parens).behind _
  | «break» | goto | label => cases h

end Statements

/-! ## Steps -/

section Steps

variable {ctx inner : Context} {t u : Task} {text : String}

/-- The body of a function is written in it, behind the variable that may hold its receiver. -/
theorem part_functionBody (ctx : Context) (convention : Convention) (f : FunctionBody)
    (p : Progress) : ∃ part,
      (Task.block f.body).Gives (ctx.inFunction f.parameters convention.shown convention.receiver)
        part ∧ HasPart ((Emit.function ctx convention f).run p).1.body part := by
  obtain ⟨id, span, parameters, isVararg, body⟩ := f
  rw [Emit.function]
  dsimp only
  split
  · exact ⟨_, ⟨{ p with captured := false }, rfl⟩, (HasPart.refl _).behind _⟩
  · exact ⟨_, ⟨p, rfl⟩, (HasPart.refl _).behind _⟩

/-- The statements of a block are written in it. -/
theorem yieldsAmong_statements (ctx : Context) {body : List Stmt} {s : Stmt} (hs : s ∈ body) :
    YieldsAmong ((Task.statement s).Gives ctx) (statements ctx body) := by
  intro p
  induction body generalizing p with
  | nil => cases hs
  | cons first rest ih =>
    obtain ⟨id, span, kind⟩ := first
    rw [statements]
    rcases List.mem_cons.1 hs with rfl | hs
    · obtain ⟨q, hhas⟩ := part_around span (Emit.statement ctx id span kind) p
      exact ⟨_, List.mem_cons_self, _, ⟨q, rfl⟩, hhas.bears⟩
    · obtain ⟨text, htext, hpart⟩ := ih hs ((around span (Emit.statement ctx id span kind)).run p).2
      exact ⟨text, List.mem_cons_of_mem _ htext, hpart⟩

/-- A native class as a value. -/
theorem yields_nativeClass {base : Expr} {style : CallStyle} {arguments : List Expr}
    (hpattern : patternAt ctx ⟨base, arguments⟩ = .classFactory)
    (h : ClassPart ctx arguments inner t)
    (role : Role) (id : NodeId) :
    Yields (t.Gives inner) (expressionKind ctx role id (.call base style arguments)) := by
  rw [expressionKind, call, hpattern]
  dsimp only
  rw [classCall, isNativeClass_of_part h, if_pos rfl]
  exact YieldsInClass.classText h.yields fun body p => .refl _

/-- **The text of a part stands in the text of the whole.** -/
theorem Step.bears (h : Step ctx t inner u) (ht : t.Gives ctx text) :
    ∃ part, u.Gives inner part ∧ Bears text part := by
  cases h with
  | operand h =>
    obtain ⟨role, p, rfl⟩ := ht
    exact (h.exhibits_kind role).yields p
  | value id span f =>
    obtain ⟨role, p, rfl⟩ := ht
    refine ⟨_, ⟨p, rfl⟩, ?_⟩
    rw [expressionKind]
    exact (part_functionExpression _).bears
  | «class» hpattern h =>
    obtain ⟨role, p, rfl⟩ := ht
    exact yields_nativeClass hpattern h role _ p
  | body isMethod convention f =>
    obtain ⟨p, rfl⟩ := ht
    obtain ⟨part, hpart, hhas⟩ := part_functionBody ctx convention f p
    exact ⟨part, hpart, hhas.bears⟩
  | statement hs =>
    obtain ⟨p, rfl⟩ := ht
    obtain ⟨text, htext, part, hpart, hbears⟩ := yieldsAmong_statements ctx hs p
    exact ⟨part, hpart, hbears.within ((HasPart.refl text).intercalate htext ";\n")⟩
  | part h =>
    obtain ⟨p, rfl⟩ := ht
    exact h.yields _ _ p

/-- **The text of what is reached stands in the text of the start.** -/
theorem Reaches.bears {whole part : Context × Task} (h : Reaches whole part)
    (hwhole : whole.2.Gives whole.1 text) :
    ∃ inside, part.2.Gives part.1 inside ∧ Bears text inside := by
  induction h with
  | refl => exact ⟨text, hwhole, (HasPart.refl text).bears⟩
  | tail _ hstep ih =>
    obtain ⟨inside, hinside, hbears⟩ := ih
    obtain ⟨part, hpart, hbears'⟩ := hstep.bears hinside
    exact ⟨part, hpart, hbears.trans hbears'⟩

end Steps

end LuaCompiler.Emit
