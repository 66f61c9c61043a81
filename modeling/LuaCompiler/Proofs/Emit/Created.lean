import LuaCompiler.Proofs.Emit.Recorded
import LuaCompiler.Proofs.Emit.Traces
import LuaCompiler.Proofs.Parser.Targets
import LuaCompiler.Proofs.Registries.Wrapping

/-!
# Statements that declare classes

Classes are declared by statements that stand directly in the chunk and bind one name to a class
that they make. A block declares its classes in the order of these statements, and none of them
twice.

A class is declared under the text that the statement binds. That is the name alone, except where a
comment starts on the line on which the target of an assignment ends: it is written behind the
target and becomes a part of the text, so that a class with such a text is taken for another one.

* `Lowered.Declares`: **a statement that declares a class**, in front of whose text the name stands.
* `Lowered.classes_cases`, `declared_statements`: what a statement and what a block declares.
* `isBare_target`: **when the text of a class is a name**.
-/

namespace LuaCompiler

namespace Emit

variable {ctx : Context}

/-! ## Statements that declare classes -/

/-- What stands before a name that is bound: the declarations of other names, and a keyword or the
global table. -/
def Leads (lead : String) : Prop :=
  ∃ declarations start, lead = declarations ++ start ∧ IsLead start ∧
    (declarations = "" ∨ ∃ names, declarations = "let " ++ commas names ++ ";\n")

theorem IsLead.leads {start : String} (h : IsLead start) : Leads start :=
  ⟨"", start, String.empty_append.symm, h, .inl rfl⟩

/-- A lowering declares a class under a text, behind some classes, and binds the text to the
class. -/
structure Creates (classes : List String) (result : String × Progress) (c : String) : Prop where
  classes : result.2.classes = withClass classes c
  text : ∃ lead arguments, Leads lead ∧
    result.1 = lead ++ c ++ " = " ++ createClassText arguments

/-- The text of the name that a statement binds, if it binds one. -/
def Lowered.target? (l : Lowered) : Option String :=
  match l.stmt.kind with
  | .local [v] _ => some (l.ctx.declaredName v)
  | .assignment [⟨id, span, .name name⟩] _ =>
    some ((expression l.ctx.asValue .single ⟨id, span, .name name⟩).run l.progress).1
  | _ => none

/-- **A statement that declares a class**: it stands directly in the chunk, and binds a name to a
class of the support module. -/
structure Lowered.Declares (l : Lowered) (c : String) : Prop where
  top : l.ctx.isTop = true
  target : l.target? = some c
  creates : Creates l.progress.classes l.run c

section Rules

variable {p : Progress}

/-- **What binding targets does to the classes**: nothing, or it makes a class of the one value and
declares it under the text of the one name. -/
theorem creates_bind (ctx : Context) {targets : Targets} (hlead : IsLead targets.lead)
    (init : List Expr) (values : List String) :
    ((bind ctx targets init values).run p).2.classes = p.classes ∨ ctx.isTop = true ∧
      targets.single.isSome = true ∧ ∃ c, targets.texts = [c] ∧
        ((bind ctx targets init values).run p).2.classes = withClass p.classes c ∧
        ∃ start value, IsLead start ∧ ((bind ctx targets init values).run p).1 =
          start ++ c ++ " = " ++ createClassText [value] := by
  unfold bind
  split
  next c node value name htexts hname =>
    -- one name and one value: the only targets for which a class can be made
    have hpattern : targets.pattern = c := by rw [Targets.pattern, htexts]
    rw [bindName_run, bindAs_run, hpattern]
    cases hmakes : makesClass ctx name node value
        (publishes ctx p.registries targets name node value &&
          !p.registries.isInitializedGlobal name) with
    | false => exact .inl rfl
    | true =>
      have htop := (Bool.and_eq_true_iff.1 (Bool.and_eq_true_iff.1 hmakes).2).1
      refine .inr ⟨htop, by rw [hname]; rfl, c, htexts, rfl, _, value, ?_, if_pos hmakes⟩
      split
      · exact .inr (.inr rfl)
      · exact hlead
  · exact .inl rfl
  · exact .inl rfl

/-- Some declarations may lead a local statement. -/
theorem leads_localTargets (ctx : Context) (id : NodeId) (vars : List Identifier)
    {start : String} (h : IsLead start) : Leads ((localTargets ctx id vars).1 ++ start) := by
  refine ⟨_, start, rfl, h, ?_⟩
  unfold localTargets
  dsimp only
  split
  · split
    · exact .inl rfl
    · exact .inr ⟨_, rfl⟩
  · exact .inl rfl

theorem isLead_localTargets (ctx : Context) (id : NodeId) (vars : List Identifier) :
    IsLead (localTargets ctx id vars).2.lead := by
  unfold localTargets
  dsimp only
  split
  · exact .inl rfl
  · exact .inr (.inl rfl)

/-- A lowering that declares no class. -/
def DeclaresNone {α : Type} (m : Emit α) : Prop := ∀ p, (m.run p).2.classes = p.classes

/-- A walk that keeps every invariant on classes declares none. -/
theorem DeclaresNone.of {α : Type} {references : List (NodeId × String)}
    {faults : List (Located Unsupported)} {captured : Bool} {m : Emit α}
    (h : ∀ I, Traced (ctx.bounds references I) faults captured m) : DeclaresNone m :=
  fun p => (h (· = p.classes)).keeps p rfl

/-- The parts of a `local` statement declare no class. -/
structure LocalParts.DeclareNone (parts : LocalParts) : Prop where
  arguments : DeclaresNone parts.arguments
  classBody : DeclaresNone parts.classBody
  values : DeclaresNone parts.values

/-- The parts of an assignment declare no class. -/
structure AssignmentParts.DeclareNone (parts : AssignmentParts) : Prop where
  indexBase : DeclaresNone parts.indexBase
  firstTarget : DeclaresNone parts.firstTarget
  firstValue : DeclaresNone parts.firstValue
  classBody : DeclaresNone parts.classBody
  targets : DeclaresNone parts.targets
  values : DeclaresNone parts.values

/-- What a definition of a class does to the classes: nothing, or it declares the variable. -/
theorem creates_localClass {parts : LocalParts} (h : parts.DeclareNone) {v : Identifier}
    {value : Expr} {m : Emit String} (hm : localClass? ctx v value parts = some m) :
    (m.run p).2.classes = p.classes ∨ ctx.isTop = true ∧
      ∃ w, [v] = [w] ∧ Creates p.classes (m.run p) (ctx.declaredName w) := by
  have hlet : Leads "let " := IsLead.leads (.inr (.inl rfl))
  unfold localClass? at hm
  dsimp only at hm
  split at hm
  next hmodule =>
    obtain rfl := Option.some.inj hm
    have htop := (Bool.and_eq_true_iff.1 (Bool.and_eq_true_iff.1 hmodule).1).1
    refine .inr ⟨htop, v, rfl, ?_, "let ", ["\"" ++ ctx.fileName ++ "\""], hlet, rfl⟩
    exact congrArg (fun result => result.2.classes) (declareClass_run (ctx.declaredName v) p)
  · split at hm
    · split at hm
      · cases hm
      · split at hm
        · obtain rfl := Option.some.inj hm
          exact .inl (h.classBody p)
        · obtain rfl := Option.some.inj hm
          -- only at the top level is the class noted, and before its arguments are lowered
          by_cases htop : ctx.isTop = true
          · rw [if_pos htop]
            refine .inr ⟨htop, v, rfl, ?_, "let ", _, hlet, rfl⟩
            exact (h.arguments ((declareClass (ctx.declaredName v)).run p).2).trans
              (congrArg (fun result => result.2.classes) (declareClass_run (ctx.declaredName v) p))
          · rw [if_neg htop]
            exact .inl (h.arguments p)
    · cases hm

/-- **What a `local` statement does to the classes**: nothing, or it declares its one variable. -/
theorem creates_localStatement {parts : LocalParts} (h : parts.DeclareNone) (id : NodeId)
    (vars : List Identifier) (init : List Expr) :
    ((localStatement ctx id vars init parts).run p).2.classes = p.classes ∨ ctx.isTop = true ∧
      ∃ v, vars = [v] ∧
        Creates p.classes ((localStatement ctx id vars init parts).run p) (ctx.declaredName v) := by
  have hvalues (p : Progress) : (parts.values.run p).2.classes = p.classes := h.values p
  have hbinding : ((localBinding ctx id vars init parts).run p).2.classes = p.classes ∨
      ctx.isTop = true ∧ ∃ v, vars = [v] ∧
        Creates p.classes ((localBinding ctx id vars init parts).run p) (ctx.declaredName v) := by
    unfold localBinding
    dsimp only
    split
    · exact .inl rfl
    · -- a bound value declares a class only if it is bound alone
      rcases creates_bind ctx.asValue (p := (parts.values.run p).2)
        (isLead_localTargets ctx id vars) init (parts.values.run p).1 with
        hsame | ⟨htop, -, c, htexts, hclasses, start, value, hstart, htext⟩
      · exact .inl (hsame.trans (hvalues p))
      · rw [texts_localTargets] at htexts
        obtain ⟨v, rest, rfl, rfl, hrest⟩ := List.map_eq_cons_iff.1 htexts
        rw [List.map_eq_nil_iff.1 hrest] at hclasses htext ⊢
        refine .inr ⟨htop, v, rfl, hclasses.trans (by rw [hvalues]), _, [value],
          leads_localTargets ctx id [v] hstart, ?_⟩
        refine (congrArg ((localTargets ctx id [v]).1 ++ ·) htext).trans ?_
        simp only [String.append_assoc]
  unfold localStatement
  dsimp only
  split
  next v value =>
    cases hclass : localClass? ctx v value parts with
    | none => exact hbinding
    | some m => exact creates_localClass h hclass
  · exact hbinding

/-- **What an assignment does to the classes**: nothing, or it declares its one target, a name. -/
theorem creates_assignment {parts : AssignmentParts} (h : parts.DeclareNone)
    (targets init : List Expr) :
    ((assignment ctx targets init parts).run p).2.classes = p.classes ∨ ctx.isTop = true ∧
      ∃ target c, targets = [target] ∧ target.name?.isSome = true ∧
        (parts.targets.run p).1 = [c] ∧
        Creates p.classes ((assignment ctx targets init parts).run p) c := by
  let bound : Emit String := do
    let texts ← parts.targets
    bind ctx.asValue (assignedTargets ctx targets texts) init (← parts.values)
  have hbound : (bound.run p).2.classes = p.classes ∨ ctx.isTop = true ∧
      ∃ target c, targets = [target] ∧ target.name?.isSome = true ∧
        (parts.targets.run p).1 = [c] ∧ Creates p.classes (bound.run p) c := by
    have hvalues : ((parts.values.run (parts.targets.run p).2)).2.classes = p.classes :=
      (h.values _).trans (h.targets p)
    have hlead (texts : List String) : IsLead (assignedTargets ctx targets texts).lead := by
      unfold assignedTargets
      split <;> exact .inl rfl
    rcases creates_bind ctx.asValue (p := (parts.values.run (parts.targets.run p).2).2)
      (hlead (parts.targets.run p).1) init (parts.values.run (parts.targets.run p).2).1 with
      hsame | ⟨htop, hsingle, c, htexts, hclasses, start, value, hstart, htext⟩
    · exact .inl (hsame.trans hvalues)
    · refine .inr ⟨htop, ?_⟩
      unfold assignedTargets at hsingle htexts
      split at hsingle
      next target =>
        exact ⟨target, c, rfl, hsingle, htexts, hclasses.trans (by rw [hvalues]), start, [value],
          hstart.leads, htext⟩
      · cases hsingle
  unfold assignment
  split
  · exact .inl ((h.firstValue _).trans (h.indexBase
      ((useSystemFunction "table" "insert").run p).2))
  · split
    next target _ _ _ =>
      -- the class is made of the value, which declares none
      left
      unfold assignClass
      split
      · exact h.classBody p
      · exact (h.classBody _).trans (h.firstTarget p)
    · exact hbound

end Rules

/-- **What a statement does to the classes**: nothing, or it declares one. -/
theorem Lowered.classes_cases (l : Lowered) :
    l.run.2.classes = l.progress.classes ∨ ∃ c, l.Declares c := by
  obtain ⟨ctx, ⟨id, span, kind⟩, p⟩ := l
  cases kind with
  | «local» vars init =>
    -- expressions declare no classes, so only the statement itself can
    have hparts : LocalParts.DeclareNone
        { arguments := callArguments ctx init
          classBody := valueClassBody ctx init
          values := expressions ctx.asValue (bindRole vars.length init) init } :=
      { arguments := .of fun _ => traced_callArguments .empty init ctx (List.Subset.refl _)
        classBody := .of fun _ => traced_valueClassBody .empty init ctx (List.Subset.refl _)
        values := .of fun _ => traced_expressions .empty init ctx.asValue _ (List.Subset.refl _) }
    refine (creates_localStatement hparts id vars init).imp (fun h => h) ?_
    rintro ⟨htop, v, rfl, hcreates⟩
    exact ⟨_, htop, rfl, hcreates⟩
  | assignment targets init =>
    have hparts : AssignmentParts.DeclareNone
        { indexBase := indexBase ctx targets
          firstTarget := firstExpression ctx targets
          firstValue := firstExpression ctx init
          classBody := valueClassBody ctx init
          targets := expressions ctx.asValue .single targets
          values := expressions ctx.asValue (bindRole targets.length init) init } :=
      { indexBase := .of fun _ => traced_indexBase .empty targets ctx (List.Subset.refl _)
        firstTarget := .of fun _ => traced_firstExpression .empty targets ctx (List.Subset.refl _)
        firstValue := .of fun _ => traced_firstExpression .empty init ctx (List.Subset.refl _)
        classBody := .of fun _ => traced_valueClassBody .empty init ctx (List.Subset.refl _)
        targets := .of fun _ => traced_expressions .empty targets ctx.asValue _ (List.Subset.refl _)
        values := .of fun _ => traced_expressions .empty init ctx.asValue _ (List.Subset.refl _) }
    refine (creates_assignment hparts targets init).imp (fun h => h) ?_
    rintro ⟨htop, ⟨targetId, targetSpan, target⟩, c, rfl, hname, htexts, hcreates⟩
    cases target with
    | name name => exact ⟨c, htop, congrArg some (List.cons.inj htexts).1, hcreates⟩
    | _ => cases hname
  | _ => exact .inl (keeps_statement (I := (· = p.classes)) id span _ ctx
      (by rintro - ⟨⟩) p rfl)

/-! ## The classes of a block -/

theorem ctx_lowered {ctx : Context} {body : List Stmt} {p : Progress} {l : Lowered}
    (h : l ∈ lowered ctx body p) : l.ctx = ctx := by
  induction body generalizing p with
  | nil => cases h
  | cons stmt rest ih =>
    rcases List.mem_cons.1 h with rfl | h
    · rfl
    · exact ih h

theorem stmt_mem_of_lowered {ctx : Context} {body : List Stmt} {p : Progress} {l : Lowered}
    (h : l ∈ lowered ctx body p) : l.stmt ∈ body := by
  have hmem : l.stmt ∈ (lowered ctx body p).map Lowered.stmt := List.mem_map_of_mem h
  rwa [stmt_lowered] at hmem

/-- A block is lowered statement by statement. -/
theorem lowered_append (ctx : Context) (before behind : List Stmt) (p : Progress) :
    lowered ctx (before ++ behind) p =
      lowered ctx before p ++ lowered ctx behind ((statements ctx before).run p).2 := by
  induction before generalizing p with
  | nil => rfl
  | cons stmt rest ih =>
    obtain ⟨id, span, kind⟩ := stmt
    exact congrArg (List.cons _) (ih ((around span (statement ctx id span kind)).run p).2)

/-- Whether a statement is the export of a program. -/
def Lowered.exports (l : Lowered) : Bool := exportsStatement l.ctx l.stmt.kind

theorem Lowered.Declares.exports {l : Lowered} {c : String} (h : l.Declares c) :
    l.exports = false := by
  obtain ⟨ctx, ⟨id, span, kind⟩, p⟩ := l
  cases kind with
  | «return» => exact absurd h.target (by rintro ⟨⟩)
  | _ => rfl

/-- The export declares no class. -/
theorem exports_of_declares {created : List Lowered} {names : List String}
    (h : List.Forall₂ Lowered.Declares created names) : ∀ l ∈ created, l.exports = false := by
  induction h with
  | nil => exact List.forall_mem_nil _
  | cons hfirst _ ih => exact List.forall_mem_cons.2 ⟨hfirst.exports, ih⟩

/-- Each name that is created is declared by a statement. -/
theorem exists_declares {created : List Lowered} {names : List String}
    (h : List.Forall₂ Lowered.Declares created names) :
    ∀ c ∈ names, ∃ l ∈ created, l.Declares c := by
  induction h with
  | nil => exact List.forall_mem_nil _
  | cons hfirst _ ih =>
    refine List.forall_mem_cons.2 ⟨⟨_, List.mem_cons_self, hfirst⟩, fun c hc => ?_⟩
    obtain ⟨l, hl, hdeclares⟩ := ih c hc
    exact ⟨l, List.mem_cons_of_mem _ hl, hdeclares⟩

/-- **The classes behind a block** are those before it and one for each of some of its statements,
which declare them in this order. -/
theorem declared_statements (ctx : Context) (body : List Stmt) (p : Progress) :
    ∃ created new, created.Sublist (lowered ctx body p) ∧
      ((statements ctx body).run p).2.classes = p.classes ++ new ∧
      List.Forall₂ Lowered.Declares created new := by
  induction body generalizing p with
  | nil => exact ⟨[], [], .slnil, (List.append_nil _).symm, .nil⟩
  | cons stmt rest ih =>
    obtain ⟨id, span, kind⟩ := stmt
    let first : Lowered := ⟨ctx, ⟨id, span, kind⟩, ((commentsBefore span).run p).2⟩
    obtain ⟨created, new, hsub, hclasses, hdeclares⟩ :=
      ih ((around span (statement ctx id span kind)).run p).2
    have hfirst : ((around span (statement ctx id span kind)).run p).2.classes =
        first.run.2.classes := rfl
    have hrest : ((statements ctx (⟨id, span, kind⟩ :: rest)).run p).2.classes =
        first.run.2.classes ++ new := hfirst ▸ hclasses
    have hsame : first.progress.classes = p.classes := rfl
    rw [hrest]
    rcases first.classes_cases with hnone | ⟨c, hc⟩
    · exact ⟨created, new, hsub.cons _, by rw [hnone, hsame], hdeclares⟩
    · have hbehind := hc.creates.classes
      rw [hsame, withClass] at hbehind
      split at hbehind
      -- a text that is declared already is not declared again: its statement is passed over
      · exact ⟨created, new, hsub.cons _, by rw [hbehind], hdeclares⟩
      · refine ⟨first :: created, c :: new, hsub.cons_cons _, ?_, .cons hc hdeclares⟩
        rw [hbehind, List.append_assoc]
        rfl

/-- Declaring a class twice is declaring it once. -/
theorem declarable_nodup : Declarable List.Nodup := by
  intro classes c h
  unfold withClass
  split
  · exact h
  next hnone =>
    rw [List.nodup_append]
    refine ⟨h, List.nodup_singleton c, fun a ha b hb => ?_⟩
    rw [List.mem_singleton.1 hb]
    rintro rfl
    exact hnone (List.contains_iff_mem.2 ha)

end Emit

/-! ## Comments around a target -/

namespace CommentQueue

variable {outer span : Span}

/-- Nothing stands above a node that starts where one around it starts. -/
theorem before_before (queue : CommentQueue) (h : span.start = outer.start) :
    ((queue.before outer).2.before span).1 = "" := by
  have hnone : (queue.waiting.dropWhile (startsAbove outer.start.line)).takeWhile
      (startsAbove outer.start.line) = [] := by
    rw [List.takeWhile_eq_nil_iff]
    exact List.dropWhile_get_zero_not _ _
  simp only [before, h, hnone, leadingLines, breaks]
  rw [Nat.sub_eq_zero_of_le (Nat.le_succ_of_le (Nat.le_max_right _ _))]
  rfl

/-- Nothing stands behind a node if no comment starts on its last line. -/
theorem after_eq_empty {queue : CommentQueue}
    (h : ∀ comment ∈ queue.waiting, comment.span.start.line ≠ span.stop.line) :
    (queue.after span).1 = "" := by
  have hnone : queue.waiting.takeWhile (startsOn span.stop.line) = [] := by
    rw [List.takeWhile_eq_nil_iff]
    intro hlength
    simpa [startsOn] using h _ (List.getElem_mem hlength)
  simp only [after, hnone]
  rfl

end CommentQueue

namespace Emit

variable {ctx : Context}

/-- **A name as code refers to it**: in its spelling, or as a library of the support module. -/
def IsBare (text : String) : Prop :=
  ∃ name, Name.isValid name = true ∧
    (text = Name.asBinding name ∨ Name.isSystemLibrary name = true ∧ text = "l2j." ++ name)

/-- The target of an assignment to one. -/
def oneTarget? : StmtKind → Option Expr
  | .assignment [target] _ => some target
  | _ => none

/-- A statement assigns to one target and a comment starts on the line on which the target ends. -/
def CommentsTarget (comments : List Comment) (stmt : Stmt) : Prop :=
  ∃ target ∈ oneTarget? stmt.kind,
    ∃ comment ∈ comments, comment.span.start.line = target.span.stop.line

instance (comments : List Comment) (stmt : Stmt) : Decidable (CommentsTarget comments stmt) :=
  inferInstanceAs (Decidable (∃ target ∈ oneTarget? stmt.kind,
    ∃ comment ∈ comments, comment.span.start.line = target.span.stop.line))

/-- Without a receiver a reference is a bare name. -/
theorem isBare_referenceText (hreceiver : ctx.receiver = none) {name : String}
    (h : Name.isValid name = true) : IsBare (referenceText ctx name) := by
  refine ⟨name, h, ?_⟩
  rw [referenceText, hreceiver]
  dsimp only [Option.filter_none]
  split
  next hlibrary => exact .inr ⟨(Bool.and_eq_true_iff.1 hlibrary).1, rfl⟩
  · exact .inl rfl

/-- A name is written with the comments around it. -/
theorem expression_name_run (hreceiver : ctx.receiver = none) (role : Role) (id : NodeId)
    (span : Span) (name : String) (p : Progress) :
    ((expression ctx role ⟨id, span, .name name⟩).run p).1 =
      (p.comments.before span).1 ++ referenceText ctx (ctx.annotations.resolve id name) ++
        ((p.comments.before span).2.after span).1 := by
  have hreference (name : String) (q : Progress) :
      (reference ctx name).run q = (referenceText ctx name, q) := by
    unfold reference referenceText
    rw [hreceiver]
    rfl
  let q : Progress := { p with comments := (p.comments.before span).2 }
  have hrun : ((expression ctx role ⟨id, span, .name name⟩).run p).1 =
      (p.comments.before span).1 ++ ((reference ctx (ctx.annotations.resolve id name)).run q).1 ++
        ((((reference ctx (ctx.annotations.resolve id name)).run q).2.comments).after span).1 := rfl
  rw [hrun, hreference]

/-- Where a statement of a block is lowered, the comments above it are written. -/
theorem progress_lowered {body : List Stmt} {p : Progress} {l : Lowered}
    (h : l ∈ lowered ctx body p) : ∃ queue : CommentQueue, queue.waiting <:+ p.comments.waiting ∧
      l.progress.comments = (queue.before l.stmt.span).2 := by
  induction body generalizing p with
  | nil => cases h
  | cons stmt rest ih =>
    rcases List.mem_cons.1 h with rfl | h
    · exact ⟨p.comments, List.suffix_rfl, rfl⟩
    · obtain ⟨queue, hsuffix, hprogress⟩ := ih h
      obtain ⟨id, span, kind⟩ := stmt
      have hframe := ((framed_statement id span kind ctx).around span p).comments
      exact ⟨queue, hsuffix.trans hframe, hprogress⟩

theorem shaped_of_mem {body : List Stmt} (h : BlockShaped body) :
    ∀ stmt ∈ body, stmt.kind.Shaped := by
  induction body with
  | nil => exact List.forall_mem_nil _
  | cons first rest ih =>
    obtain ⟨id, span, kind⟩ := first
    exact List.forall_mem_cons.2 ⟨h.1, ih h.2.2⟩

/-- **A name that a statement binds is written without anything around it**, unless a comment starts
on the line on which the target of the assignment ends. -/
theorem isBare_target {body : List Stmt} {p : Progress} {l : Lowered}
    (hnames : ∀ id name, Name.isValid name = true →
      Name.isValid (ctx.annotations.resolve id name) = true)
    (hreceiver : ctx.receiver = none) (hl : l ∈ lowered ctx body p) (hshaped : l.stmt.kind.Shaped)
    (hstart : Parser.StartsAt l.stmt.span.start l.stmt.kind)
    (hnone : ¬ CommentsTarget p.comments.waiting l.stmt) {c : String} (hc : l.target? = some c) :
    IsBare c := by
  obtain rfl := ctx_lowered hl
  obtain ⟨queue, hqueue, hprogress⟩ := progress_lowered hl
  unfold Lowered.target? at hc
  split at hc
  next v init hkind =>
    obtain rfl := Option.some.inj hc
    rw [hkind] at hshaped
    exact ⟨_, hnames v.id v.name (hshaped.2.1 v List.mem_cons_self), .inl rfl⟩
  next id span name init hkind =>
    obtain rfl := Option.some.inj hc
    rw [hkind] at hshaped hstart
    -- the comments above the target are above the statement, so they are written by now
    have habove : ((queue.before l.stmt.span).2.before span).1 = "" :=
      queue.before_before (hstart _ rfl)
    have hbehind : (((queue.before l.stmt.span).2.before span).2.after span).1 = "" := by
      refine CommentQueue.after_eq_empty fun comment hmem hline => hnone ?_
      have hwaiting : comment ∈ p.comments.waiting :=
        hqueue.subset ((List.dropWhile_suffix _).subset ((List.dropWhile_suffix _).subset hmem))
      exact ⟨_, by rw [hkind]; rfl, comment, hwaiting, hline⟩
    have hvalid : Name.isValid name = true := hshaped.2.2.1.1
    have hvalue : l.ctx.asValue.receiver = none := hreceiver
    rw [expression_name_run hvalue, hprogress, habove, hbehind, String.empty_append,
      String.append_empty]
    exact isBare_referenceText hvalue (hnames id name hvalid)
  · cases hc

end Emit
end LuaCompiler
