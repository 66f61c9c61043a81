import LuaCompiler.Proofs.Registries.Run

/-!
# Globals become classes once

A global that is assigned directly in a file becomes a class of the support module: its value is
wrapped. What publishes a global for the first time is noted in the registries, and they keep it, so
that a run wraps a global once.

* `Lowered`: a statement where it is lowered; `Lowered.wraps`: whether its text wraps a name.
* `Lowered.new_of_wraps`: **what wraps a global finds it new and leaves it published**.
* `spent`: a global can be wrapped once; `Emit.spent_lowered`, `Job.spent_lowered` and
  `spent_loweredOf`: what a block, a file and a run wrap is spent.
* `wraps_at_most_once`: **a run wraps a global at most once**.
-/

namespace LuaCompiler

namespace Emit

variable {ctx : Context} {name : String}

/-! ## Texts that wrap a value -/

/-- The text that publishes a name with its value made a class. -/
def wrapText (target value : String) : String :=
  "globalThis." ++ target ++ " = " ++ createClassText [value]

theorem length_wrapText (target value : String) :
    (wrapText target value).length = target.length + value.length + 31 := by
  have hlead : "globalThis.".length = 11 := rfl
  have hequals : " = ".length = 3 := rfl
  have hcreate : (createClassText [value]).length = value.length + 17 := by
    have hcallee : "l2j.createClass(".length = 16 := rfl
    change ("l2j.createClass(" ++ value ++ ")").length = _
    rw [String.length_append, String.length_append, hcallee]
    change 16 + value.length + 1 = _
    omega
  rw [wrapText, String.length_append, String.length_append, String.length_append, hlead, hequals,
    hcreate]
  omega

theorem length_replaceFirstIn {old new : List Char} (h : old.length ≤ new.length)
    (text : List Char) :
    (Text.replaceFirstIn old new text).length ≤ text.length + (new.length - old.length) := by
  induction text with
  | nil => exact Nat.zero_le _
  | cons c cs ih =>
    unfold Text.replaceFirstIn
    split
    next hhead =>
      have hlength := (List.isPrefixOf_iff_prefix.1 hhead).length_le
      rw [List.length_append, List.length_drop]
      omega
    next =>
      rw [List.length_cons, List.length_cons]
      omega

theorem length_findAll (text : String) : (findAll text).length ≤ text.length + 7 := by
  have hshort : "l2j.string.find(".toList.length ≤ "l2j.string.findWithRet(".toList.length := by
    decide
  have h := length_replaceFirstIn hshort text.toList
  rw [String.length_toList] at h
  rw [findAll, Text.replaceFirst, String.length_ofList]
  exact h

theorem length_copiedName (ctx : Context) (name source : String) (node : Expr) (value : String) :
    (copiedName ctx name source node value).length ≤ value.length + 11 := by
  unfold copiedName
  split
  · have hglobal : "globalThis.".length = 11 := rfl
    rw [String.length_append, hglobal, Nat.add_comm]
  · exact Nat.le_add_right _ _

/-- **A name that is bound plainly gets a shorter text than one whose value is wrapped.** -/
theorem length_bindPlain (ctx : Context) (name : String) {lead : String} (h : lead.length ≤ 11)
    (pattern : String) (node : Expr) (value : String) :
    (bindPlain ctx lead pattern name node value).length < pattern.length + value.length + 31 := by
  have hequals : " = ".length = 3 := rfl
  unfold bindPlain
  split
  next source _ =>
    have hcopied := length_copiedName ctx name source node value
    rw [String.length_append, String.length_append, String.length_append, hequals]
    omega
  next =>
    split
    · have hfind := length_findAll value
      have hbrackets : (brackets pattern).length = pattern.length + 2 := by
        change ("[" ++ pattern ++ "]").length = _
        rw [String.length_append, String.length_append]
        change 1 + pattern.length + 1 = _
        omega
      rw [String.length_append, String.length_append, String.length_append, hequals, hbrackets]
      omega
    · rw [String.length_append, String.length_append, String.length_append, hequals]
      omega

/-- Only making a class of a value wraps it. -/
theorem makesClass_of_boundText {lead pattern value : String} {node : Expr} {isFirst : Bool}
    (hlead : lead.length ≤ 11)
    (h : boundText ctx lead pattern name node value isFirst = wrapText pattern value) :
    makesClass ctx name node value isFirst = true := by
  have hlength := length_wrapText pattern value
  rw [← h, boundText] at hlength
  -- every other text that binds the name is too short
  by_contra hnone
  rw [if_neg hnone] at hlength
  split at hlength
  · have hequals : " = ".length = 3 := rfl
    rw [String.length_append, String.length_append, String.length_append, hequals] at hlength
    omega
  · have hplain := length_bindPlain ctx name hlead pattern node value
    omega

/-- A native class ends in a brace, a wrapped value in a parenthesis. -/
theorem classText_ne_wrapText (lead : String) (className parent : Option String)
    (members : List String) (target value : String) :
    lead ++ classText className parent members ≠ wrapText target value := by
  obtain ⟨native, hnative⟩ : ∃ front, classText className parent members = front ++ "\x7d" :=
    ⟨_, String.append_assoc.symm⟩
  obtain ⟨made, hmade⟩ : ∃ front, createClassText [value] = front ++ ")" :=
    ⟨_, String.append_assoc.symm⟩
  intro h
  rw [wrapText, hnative, hmade, ← String.append_assoc, ← String.append_assoc] at h
  have hlast := congrArg (fun text => text.toList.getLast?) h
  simp only [String.toList_append] at hlast
  rw [List.getLast?_append_of_ne_nil _ (by decide),
    List.getLast?_append_of_ne_nil _ (by decide)] at hlast
  exact absurd hlast (by decide)

/-! ## Statements where they are lowered -/

/-- A statement where it is lowered: its context, and what lowering has left behind when the comments
above it are written. -/
structure Lowered where
  ctx : Context
  stmt : Stmt
  progress : Progress

/-- An assignment of a value to a name. -/
structure Assigned where
  name : String
  target : String
  value : String
  /-- what lowering has left behind when both sides are written -/
  progress : Progress

namespace Lowered

/-- Lowers a statement, the comments around it aside. -/
def run (l : Lowered) : String × Progress :=
  (statement l.ctx l.stmt.id l.stmt.span l.stmt.kind).run l.progress

/-- The text of a statement, without the comments around it. -/
def text (l : Lowered) : String := l.run.1

/-- The two sides of an assignment of one value to a name. -/
def assigned? (l : Lowered) : Option Assigned :=
  match l.stmt.kind with
  | .assignment [⟨id, span, .name name⟩] [value] =>
    let target := (expression l.ctx.asValue .single ⟨id, span, .name name⟩).run l.progress
    let value := (expression l.ctx.asValue .single value).run target.2
    some ⟨name, target.1, value.1, value.2⟩
  | _ => none

/-- **Whether a statement wraps a name**: it assigns a value to the name, and its text publishes the
target with the value made a class. -/
def wraps (l : Lowered) (name : String) : Bool :=
  l.assigned?.any fun a => a.name == name && l.text == wrapText a.target a.value

end Lowered

/-- The statements of a block where they are lowered. -/
def lowered (ctx : Context) : List Stmt → Progress → List Lowered
  | [], _ => []
  | stmt :: rest, p =>
    ⟨ctx, stmt, ((commentsBefore stmt.span).run p).2⟩ ::
      lowered ctx rest
        ((around stmt.span (statement ctx stmt.id stmt.span stmt.kind)).run p).2

theorem stmt_lowered (ctx : Context) (body : List Stmt) (p : Progress) :
    (lowered ctx body p).map Lowered.stmt = body := by
  induction body generalizing p with
  | nil => rfl
  | cons stmt rest ih => exact congrArg (List.cons stmt) (ih _)

/-- **The texts of a block are those of its statements where they are lowered**, with comments around
them. -/
theorem texts_lowered (ctx : Context) (body : List Stmt) (p : Progress) :
    List.Forall₂ (fun l text => ∃ before behind, text = before ++ l.text ++ behind)
      (lowered ctx body p) ((statements ctx body).run p).1 := by
  induction body generalizing p with
  | nil => exact .nil
  | cons stmt rest ih =>
    obtain ⟨id, span, kind⟩ := stmt
    refine .cons ⟨((commentsBefore span).run p).1, ?_, ?_⟩ (ih _)
    · exact ((commentsAfter span).run
        (Lowered.run ⟨ctx, ⟨id, span, kind⟩, ((commentsBefore span).run p).2⟩).2).1
    · rfl

/-! ## One statement -/

/-- A native class that is assigned to a name is written as one. -/
theorem assignClass_text (id : NodeId) (span : Span) (name : String) (parts : AssignmentParts)
    (p : Progress) : ∃ lead className parent members,
      ((assignClass ctx ⟨id, span, .name name⟩ parts).run p).1 =
        lead ++ classText className parent members :=
  ⟨_, _, _, _, rfl⟩

/-- **How an assignment of a value to a name is lowered**: the name is bound to the value, unless the
value is a native class. -/
theorem Lowered.run_cases {l : Lowered} {a : Assigned} (h : l.assigned? = some a) :
    (∃ isLocal node, l.run =
      (bindName l.ctx.asValue ⟨isLocal, "", [a.target], some a.name⟩ a.name node a.value).run
        a.progress) ∨
    ∃ lead className parent members, l.text = lead ++ classText className parent members := by
  obtain ⟨ctx, ⟨id, span, kind⟩, p⟩ := l
  unfold Lowered.assigned? at h
  split at h
  next nameId nameSpan name value hkind =>
    obtain rfl : kind = .assignment [⟨nameId, nameSpan, .name name⟩] [value] := hkind
    obtain rfl := Option.some.inj h
    cases hclass : definesClass [⟨nameId, nameSpan, .name name⟩] [value] with
    | false =>
      refine .inl ⟨ctx.annotations.localReferences.contains nameId, value, ?_⟩
      simp only [Lowered.run, statement, assignment, appendBase?, hclass]
      rfl
    | true =>
      simp only [Lowered.text, Lowered.run, statement, assignment, appendBase?, hclass]
      exact .inr (assignClass_text nameId nameSpan name _ p)
  next => cases h

/-- A lowering that has a footprint takes back nothing that is published. -/
theorem Confined.isInitializedGlobal {α : Type} {fp : Footprint} {m : Emit α} (h : Confined fp m)
    {p : Progress} (hbefore : p.registries.isInitializedGlobal name = true) :
    (m.run p).2.registries.isInitializedGlobal name = true := by
  obtain ⟨added, -, hmerge⟩ := h.registries p
  rw [hmerge, Registries.isInitializedGlobal_merge, hbefore, Bool.true_or]

theorem Lowered.isInitializedGlobal_run (l : Lowered)
    (h : l.progress.registries.isInitializedGlobal name = true) :
    l.run.2.registries.isInitializedGlobal name = true :=
  (confined_statement l.stmt.id l.stmt.span l.stmt.kind l.ctx
    (List.Subset.refl _)).isInitializedGlobal h

/-- Writing both sides of an assignment takes back nothing that is published. -/
theorem Lowered.isInitializedGlobal_assigned {l : Lowered} {a : Assigned}
    (h : l.assigned? = some a) (hbefore : l.progress.registries.isInitializedGlobal name = true) :
    a.progress.registries.isInitializedGlobal name = true := by
  unfold Lowered.assigned? at h
  split at h
  next id span assigned value _ =>
    obtain rfl := Option.some.inj h
    have htarget := confined_expression ⟨id, span, .name assigned⟩ l.ctx.asValue .single
      (List.Subset.refl _)
    have hvalue := confined_expression value l.ctx.asValue .single (List.Subset.refl _)
    exact hvalue.isInitializedGlobal (htarget.isInitializedGlobal hbefore)
  next => cases h

/-- A global whose binding makes a class is published for the first time, directly in its file. -/
theorem isFirst_of_makesClass {node : Expr} {value : String} {isFirst : Bool}
    (hmodule : name ≠ "M") (hfile : name ≠ ctx.fileName)
    (h : makesClass ctx name node value isFirst = true) : isFirst = true ∧ ctx.isTop = true := by
  simp only [makesClass, bindsNew, Bool.and_eq_true, Bool.or_eq_true, beq_iff_eq] at h
  obtain ⟨(hname | hname) | hfirst, htop, -⟩ := h
  · exact absurd hname hmodule
  · exact absurd hname hfile
  · exact ⟨hfirst.1, htop⟩

theorem Lowered.wraps_iff {l : Lowered} : l.wraps name = true ↔
    ∃ a, l.assigned? = some a ∧ a.name = name ∧ l.text = wrapText a.target a.value := by
  unfold Lowered.wraps
  cases l.assigned? with
  | none => simp
  | some a => simp

/-- **What wraps a global finds it new and leaves it published**, and it stands directly in its
file. -/
theorem Lowered.new_of_wraps {l : Lowered} (hmodule : name ≠ "M") (hfile : name ≠ l.ctx.fileName)
    (h : l.wraps name = true) :
    l.progress.registries.isInitializedGlobal name = false ∧
      l.run.2.registries.isInitializedGlobal name = true ∧ l.ctx.isTop = true := by
  obtain ⟨a, ha, rfl, htext⟩ := Lowered.wraps_iff.1 h
  obtain ⟨isLocal, node, hrun⟩ | ⟨lead, className, parent, members, hclass⟩ := Lowered.run_cases ha
  · -- the name is bound: its text is that of a class, so it has been published for the first time
    rw [bindName_run, bindAs_run] at hrun
    rw [Lowered.text, hrun] at htext
    have hlead (global : Bool) : (if global then "globalThis." else "").length ≤ 11 := by
      cases global <;> decide
    have hmakes := makesClass_of_boundText (hlead _) htext
    obtain ⟨hfirst, htop⟩ := isFirst_of_makesClass hmodule hfile hmakes
    rw [Bool.and_eq_true, Bool.not_eq_true'] at hfirst
    refine ⟨Bool.eq_false_iff.2 fun hbefore => ?_, ?_, htop⟩
    · rw [Lowered.isInitializedGlobal_assigned ha hbefore] at hfirst
      exact absurd hfirst.2 (by decide)
    · rw [hrun]
      simp [hfirst.1, Registries.isInitializedGlobal_iff, Registries.recordInitializedGlobal]
  · exact absurd (hclass.symm.trans htext) (classText_ne_wrapText _ _ _ _ _ _)

/-! ## Many statements -/

/-- What is spent of the one time that a global can be wrapped: all of it once it is published. -/
def spent (r : Registries) (name : String) : Nat := (r.isInitializedGlobal name).toNat

/-- **A statement that wraps a global spends what is left.** -/
theorem Lowered.spent_run (l : Lowered) (hmodule : name ≠ "M") (hfile : name ≠ l.ctx.fileName) :
    (l.wraps name).toNat + spent l.progress.registries name ≤ spent l.run.2.registries name := by
  unfold spent
  cases hwraps : l.wraps name with
  | true =>
    obtain ⟨hbefore, hbehind, -⟩ := Lowered.new_of_wraps hmodule hfile hwraps
    rw [hbefore, hbehind]
    decide
  | false =>
    rw [Bool.toNat_false, Nat.zero_add]
    cases hbefore : l.progress.registries.isInitializedGlobal name with
    | true => rw [l.isInitializedGlobal_run hbefore]
    | false => exact Nat.zero_le _

/-- **What a block wraps is spent.** -/
theorem spent_lowered (ctx : Context) (hmodule : name ≠ "M") (hfile : name ≠ ctx.fileName)
    (body : List Stmt) (p : Progress) :
    (lowered ctx body p).countP (·.wraps name) + spent p.registries name ≤
      spent ((statements ctx body).run p).2.registries name := by
  induction body generalizing p with
  | nil => exact Nat.le_of_eq (Nat.zero_add _)
  | cons stmt rest ih =>
    obtain ⟨id, span, kind⟩ := stmt
    have hfirst := Lowered.spent_run ⟨ctx, ⟨id, span, kind⟩, ((commentsBefore span).run p).2⟩
      hmodule hfile
    have hrest := ih ((around span (statement ctx id span kind)).run p).2
    have hbool (b : Bool) : (if b = true then 1 else 0) = b.toNat := by cases b <;> rfl
    rw [lowered, List.countP_cons, hbool]
    -- comments leave the registries alone
    change (Lowered.wraps _ name).toNat + spent p.registries name ≤
      spent ((around span (statement ctx id span kind)).run p).2.registries name at hfirst
    refine Nat.le_trans ?_ hrest
    dsimp only
    omega

end Emit

/-! ## Files and runs -/

/-- The statements of a file where they are lowered, those of its blocks and functions aside; none if
it is no program. -/
def Job.lowered (job : Job) (r : Registries) : List Emit.Lowered :=
  match (parse job.source).result with
  | .ok chunk =>
    Emit.lowered ((parse job.source).context job.path job.options) chunk.body
      ((parse job.source).start r)
  | .error _ => []

/-- The statements of a run where they are lowered, file after file. -/
def loweredOf (formatter : Formatter) : Registries → List Job → List Emit.Lowered
  | _, [] => []
  | r, job :: jobs => job.lowered r ++ loweredOf formatter (job.compile formatter r).2 jobs

/-- Behind its statements a program leaves the registries alone. -/
theorem Emit.chunk_registries (ctx : Emit.Context) (chunk : Chunk) (p : Emit.Progress) :
    ((Emit.chunk ctx chunk).run p).2.registries =
      ((Emit.statements ctx chunk.body).run p).2.registries := rfl

/-- What seals classes comes behind the statements of a program. -/
theorem Emit.sealed_starts (body : String) (isSealed : Bool) (classes : List String) :
    ∃ rest, (if isSealed then body
      else (if body.isEmpty then "" else body ++ ";\n") ++ Emit.sealing classes) = body ++ rest := by
  split
  · exact ⟨"", String.append_empty.symm⟩
  · split
    next hempty =>
      rw [String.isEmpty_iff] at hempty
      exact ⟨Emit.sealing classes, by rw [hempty]⟩
    next => exact ⟨_, String.append_assoc⟩

/-- **The code of a program starts with the texts of its statements.** -/
theorem Emit.chunk_code (ctx : Emit.Context) (chunk : Chunk) (p : Emit.Progress) :
    ∃ rest, ((Emit.chunk ctx chunk).run p).1 =
      Emit.sequence ((Emit.statements ctx chunk.body).run p).1 ++ rest := by
  let behind := ((Emit.statements ctx chunk.body).run p).2
  let tail := (Emit.commentsLeft.run behind).1
  obtain ⟨rest, hsealed⟩ := Emit.sealed_starts
    (Emit.sequence ((Emit.statements ctx chunk.body).run p).1)
    (Emit.exportsValue chunk || behind.classes.isEmpty) behind.classes
  change ∃ rest, (if tail.isEmpty then _ else _ ++ "\n" ++ tail) = _
  split
  · exact ⟨rest, hsealed⟩
  · refine ⟨rest ++ "\n" ++ tail, (congrArg (· ++ "\n" ++ tail) hsealed).trans ?_⟩
    rw [String.append_assoc, String.append_assoc, String.append_assoc]

/-- Reading globals publishes none. -/
theorem Parsed.spent_start (parsed : Parsed) (r : Registries) (name : String) :
    Emit.spent (parsed.start r).registries name = Emit.spent r name := by
  have hmerge : (parsed.start r).registries = r.merge (.ofReads parsed.reads) :=
    parsed.registries_eq r
  rw [Emit.spent, hmerge, Registries.isInitializedGlobal_merge]
  exact congrArg Bool.toNat (Bool.or_false _)

/-- **What a file wraps is spent.** -/
theorem Job.spent_lowered (formatter : Formatter) (job : Job) (r : Registries) {name : String}
    (hmodule : name ≠ "M") (hfile : name ≠ moduleName job.path) :
    (job.lowered r).countP (·.wraps name) + Emit.spent r name ≤
      Emit.spent (job.compile formatter r).2 name := by
  unfold Job.lowered
  cases hparse : (parse job.source).result with
  | error fault =>
    rw [Job.registries_of_error hparse]
    exact Nat.le_of_eq (Nat.zero_add _)
  | ok chunk =>
    rw [← (parse job.source).context_fileName job.path job.options] at hfile
    have hbody := Emit.spent_lowered _ hmodule hfile chunk.body ((parse job.source).start r)
    rw [Job.compile, compile_registries formatter job.path r job.options hparse, lower_eq,
      Emit.chunk_registries, ← (parse job.source).spent_start]
    exact hbody

/-- **What a run wraps is spent.** -/
theorem spent_loweredOf (formatter : Formatter) {jobs : List Job} (r : Registries) {name : String}
    (hmodule : name ≠ "M") (hfiles : ∀ job ∈ jobs, name ≠ moduleName job.path) :
    (loweredOf formatter r jobs).countP (·.wraps name) + Emit.spent r name ≤
      Emit.spent (registriesAfter formatter r jobs) name := by
  induction jobs generalizing r with
  | nil => exact Nat.le_of_eq (Nat.zero_add _)
  | cons job jobs ih =>
    obtain ⟨hfile, hrest⟩ := List.forall_mem_cons.1 hfiles
    have hjob := job.spent_lowered formatter r hmodule hfile
    have hjobs := ih (job.compile formatter r).2 hrest
    rw [loweredOf, List.countP_append]
    -- what this file spends, the files behind it find spent
    refine Nat.le_trans ?_ hjobs
    omega

/-- **A run wraps a global at most once**, and never if it is published at the start, where the global
is neither `M` nor the name of a file of the run. The statements that count stand directly in their
files, since no statement of a block or function wraps the global; they are all the statements of a
program, and the code of the program starts with their texts, with comments around them. -/
theorem wraps_at_most_once (formatter : Formatter) (r : Registries) (jobs : List Job)
    (name : String) (hmodule : name ≠ "M") (hfiles : ∀ job ∈ jobs, name ≠ moduleName job.path) :
    (loweredOf formatter r jobs).countP (·.wraps name) ≤ 1 ∧
    (name ∈ r.initializedGlobals → ∀ l ∈ loweredOf formatter r jobs, l.wraps name = false) ∧
    (∀ l : Emit.Lowered, name ≠ l.ctx.fileName → l.ctx.isTop = false → l.wraps name = false) ∧
    ∀ job ∈ jobs, ∀ r chunk, (parse job.source).result = .ok chunk →
      (job.lowered r).map Emit.Lowered.stmt = chunk.body ∧
      ∃ texts rest, (lower job.path job.options r (parse job.source) chunk).code =
          Emit.sequence texts ++ rest ∧
        List.Forall₂ (fun l text => ∃ before behind, text = before ++ l.text ++ behind)
          (job.lowered r) texts := by
  have hspent := spent_loweredOf formatter r hmodule hfiles
  have hbound : Emit.spent (registriesAfter formatter r jobs) name ≤ 1 := Bool.toNat_le _
  refine ⟨by omega, fun hinitialized l hl => ?_, fun l hfile hinner => ?_,
    fun job _ r chunk hparse => ?_⟩
  · -- all is spent at the start, so that nothing is left to count
    have hstart : Emit.spent r name = 1 := by
      rw [Emit.spent, Registries.isInitializedGlobal_iff.2 hinitialized]
      rfl
    have hnone : (loweredOf formatter r jobs).countP (·.wraps name) = 0 := by omega
    exact Bool.eq_false_iff.2 (List.countP_eq_zero.1 hnone l hl)
  · -- a statement that wraps stands at the top of its file
    refine Bool.eq_false_iff.2 fun hwraps => ?_
    rw [(Emit.Lowered.new_of_wraps hmodule hfile hwraps).2.2] at hinner
    cases hinner
  · rw [Job.lowered, hparse, lower_eq]
    obtain ⟨rest, hcode⟩ := Emit.chunk_code ((parse job.source).context job.path job.options) chunk
      ((parse job.source).start r)
    exact ⟨Emit.stmt_lowered _ _ _, _, rest, hcode, Emit.texts_lowered _ _ _⟩

/-- Two files that assign to one global, the first of them twice, and between the two a file that
assigns to it in a function. -/
def sharingJobs : List Job :=
  [{ source := "Node = \x7b\x7d Node = Other", path := "Game/UI/first.lua" },
    { source := "local function reset() Node = \x7b\x7d end", path := "Game/UI/second.lua" },
    { source := "Node = \x7b\x7d", path := "Game/UI/third.lua" }]

/-- Such a run wraps the global once. -/
theorem wraps_node_once : "Node" ≠ "M" ∧
    (∀ job ∈ sharingJobs, "Node" ≠ moduleName job.path) ∧
    (loweredOf .keep .empty sharingJobs).countP (·.wraps "Node") = 1 := by
  have hmodule : "Node" ≠ "M" := by decide
  have hfiles : ∀ job ∈ sharingJobs, "Node" ≠ moduleName job.path := by decide +kernel
  have hsome : 1 ≤ (loweredOf .keep .empty sharingJobs).countP (·.wraps "Node") := by
    decide +kernel
  exact ⟨hmodule, hfiles,
    Nat.le_antisymm (wraps_at_most_once .keep .empty sharingJobs "Node" hmodule hfiles).1 hsome⟩

/-- A value that the program itself makes a class is written as one, whether or not its global is
published; and two globals can be written alike. -/
theorem classes_assigned_twice :
    "N" ≠ "M" ∧ "N" ≠ moduleName "Game/UI/test.lua" ∧
    (compile .keep "N = class(A) N = class(B)" "Game/UI/test.lua" .empty {}).1.code =
      "globalThis.N = l2j.createClass(l2j.createClass(A));\n" ++
      "globalThis.N = l2j.createClass(B);\nl2j.finishClass(N);\n" ∧
    (compile .keep "N = class(B)" "Game/UI/test.lua"
      { initializedGlobals := .ofList ["N"] } {}).1.code = "globalThis.N = l2j.createClass(B)" ∧
    (compile .keep "class = \x7b\x7d _class = \x7b\x7d" "Game/UI/test.lua" .empty {}).1.code =
      "globalThis._class = l2j.createClass(\x7b\x7d);\n" ++
      "globalThis._class = l2j.createClass(\x7b\x7d);\nl2j.finishClass(_class);\n" := by
  repeat rw [compile, parse_ofList]
  decide +kernel

end LuaCompiler
