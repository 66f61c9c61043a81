import LuaCompiler.Generator.Walk
import LuaCompiler.Proofs.Emit.Frame

/-!
# What a generator puts back

A generator changes its position on the way into a part of the tree and puts it back on the way out.
Whatever the tree is, whatever generator comes to it, and whether it gives a text or a failure: behind
a statement, an expression or a call the position is the one before, save that the receiver may now
be known to be captured, and the traces have only been added to.

* `Kept`: **what a walk leaves as it was**, `Keeps` a step that does so.
* One lemma for each way into a part: `Keeps.block`, `Keeps.loopBody`, `Keeps.classBody`,
  `keeps_functionParts`, `Tries.forNumeric`, `Tries.localStatement`, `Tries.assignment`.
* `walk_keeps_position`: **the walk puts back what it changes**.
-/

namespace LuaCompiler.Generator

variable {α β : Type} {file : File}

/-- A receiver as it was, or known to be captured. -/
def MayCapture (before after : Option Receiver) : Prop :=
  after = before ∨ after = before.map fun receiver => { receiver with captured := true }

/-- **What a walk leaves as it was**: the position of the generator, the receiver up to whether it is
captured. To the traces the walk only adds: failures and classes at the end of their lists,
something to the registries; comments leave their queue from its front. -/
structure Kept (g h : Generator) : Prop where
  operatorMode : h.operatorMode = g.operatorMode
  blockDepth : h.blockDepth = g.blockDepth
  functionDepth : h.functionDepth = g.functionDepth
  parameters : h.parameters = g.parameters
  valueContext : h.valueContext = g.valueContext
  loopLabels : h.loopLabels = g.loopLabels
  receiver : MayCapture g.receiver h.receiver
  failures : g.failures <+: h.failures
  classes : g.classes <+: h.classes
  registries : ∃ added, h.registries = g.registries.merge added
  comments : h.comments.waiting <:+ g.comments.waiting

theorem MayCapture.trans {a b c : Option Receiver} (h : MayCapture a b) (h' : MayCapture b c) :
    MayCapture a c := by
  rcases h with rfl | rfl
  · exact h'
  · rcases h' with rfl | rfl
    · exact .inr rfl
    · refine .inr ?_
      rw [Option.map_map]
      rfl

namespace Kept

variable {g h k : Generator}

/-- Nothing is left otherwise by doing nothing. -/
theorem refl (g : Generator) : Kept g g where
  operatorMode := rfl
  blockDepth := rfl
  functionDepth := rfl
  parameters := rfl
  valueContext := rfl
  loopLabels := rfl
  receiver := .inl rfl
  failures := List.prefix_rfl
  classes := List.prefix_rfl
  registries := ⟨.empty, (Registries.merge_empty _).symm⟩
  comments := List.suffix_rfl

/-- What two steps leave as it was, both together leave. -/
theorem trans (hgh : Kept g h) (hhk : Kept h k) : Kept g k where
  operatorMode := hhk.operatorMode.trans hgh.operatorMode
  blockDepth := hhk.blockDepth.trans hgh.blockDepth
  functionDepth := hhk.functionDepth.trans hgh.functionDepth
  parameters := hhk.parameters.trans hgh.parameters
  valueContext := hhk.valueContext.trans hgh.valueContext
  loopLabels := hhk.loopLabels.trans hgh.loopLabels
  receiver := hgh.receiver.trans hhk.receiver
  failures := hgh.failures.trans hhk.failures
  classes := hgh.classes.trans hhk.classes
  registries := by
    obtain ⟨added, hh⟩ := hgh.registries
    obtain ⟨more, hk⟩ := hhk.registries
    exact ⟨added.merge more, by rw [hk, hh, Registries.merge_assoc]⟩
  comments := hhk.comments.trans hgh.comments

end Kept

/-- **A step that puts back what it changes.** -/
def Keeps (step : Step α) : Prop := ∀ g : Generator, Kept g (step.run g).2

/-- A step that puts back what it changes, whether it gives a result or a failure. -/
def Tries (attempt : Attempt α) : Prop := Keeps (observe attempt)

/-! ## The monads -/

theorem keeps_pure (a : α) : Keeps (pure a) := fun g => .refl g

/-- Steps in a row put the position back if each does. -/
theorem Keeps.bind {step : Step α} {next : α → Step β} (h : Keeps step)
    (hnext : ∀ a, Keeps (next a)) : Keeps (step >>= next) :=
  fun g => (h g).trans (hnext (step.run g).1 (step.run g).2)

theorem tries_pure (a : α) : Tries (pure a : Attempt α) := keeps_pure (Except.ok a)

/-- Giving up where nothing has been changed leaves the position as it is. -/
theorem tries_throw (unsupported : Emit.Unsupported) : Tries (throw unsupported : Attempt α) :=
  keeps_pure (Except.error unsupported)

/-- Behind a failure nothing is done any more. -/
theorem Tries.bind {attempt : Attempt α} {next : α → Attempt β} (h : Tries attempt)
    (hnext : ∀ a, Tries (next a)) : Tries (attempt >>= next) := by
  have hcont (outcome : Except Emit.Unsupported α) : Keeps (ExceptT.bindCont next outcome) := by
    cases outcome with
    | ok a => exact hnext a
    | error unsupported => exact keeps_pure (Except.error unsupported)
  exact Keeps.bind h hcont

theorem Tries.map {attempt : Attempt α} (h : Tries attempt) (f : α → β) :
    Tries (do return f (← attempt)) :=
  h.bind fun _ => tries_pure _

theorem Keeps.lift {step : Step α} (h : Keeps step) : Tries (lift step) :=
  h.bind fun _ => keeps_pure _

theorem tries_get {next : Generator → Attempt β} (h : ∀ g, Tries (next g)) :
    Tries (get >>= next) :=
  fun g => h g g

/-- Going on with an outcome that is known changes nothing. -/
theorem tries_settle (outcome : Except Emit.Unsupported α) : Tries (settle outcome) :=
  keeps_pure outcome

theorem Tries.ite {c : Prop} [Decidable c] {attempt other : Attempt α} (h : Tries attempt)
    (hother : Tries other) : Tries (if c then attempt else other) := by
  split
  · exact h
  · exact hother

theorem keeps_here : Keeps (here file) := fun g => .refl g

/-! ## Traces -/

/-- What a lowering adds to the traces is added to those of the generator. -/
theorem keeps_trace {faults : List (Located Emit.Unsupported)} {emit : Emit α}
    (h : Emit.Framed false faults emit) : Keeps (trace emit) := fun g =>
  let hframe := h g.traces
  { Kept.refl g with
    failures := by
      obtain ⟨new, -, hnew⟩ := hframe.failures
      exact ⟨new, hnew.symm⟩
    classes := hframe.classes
    registries := hframe.registries
    comments := hframe.comments }

/-- The comments around a node are no part of the position, and if the node fails those behind it
stay. -/
theorem Tries.around {node : Attempt String} (h : Tries node) (span : Span) :
    Tries (around span node) :=
  (keeps_trace (Emit.framed_commentsBefore span)).lift.bind fun _ => h.bind fun _ =>
    (keeps_trace (Emit.framed_commentsAfter span)).lift.map _

theorem keeps_fixed (span : Span) (text : String) : Keeps (fixed span text) :=
  keeps_trace ((Emit.framed_pure text : Emit.Framed false [] _).around span)

/-- A node whose failure is contained puts the position back whether it fails or not. -/
theorem Tries.contained {node : Attempt String} (h : Tries node) (span : Span) :
    Keeps (contained span node) :=
  (keeps_trace (Emit.framed_commentsBefore span)).bind fun _ => by
    refine Keeps.bind h fun outcome => ?_
    cases outcome with
    | ok text =>
      exact (keeps_trace (Emit.framed_commentsAfter span)).bind fun _ => keeps_pure _
    | error unsupported =>
      exact (keeps_trace (Emit.framed_contain unsupported span)).bind fun _ =>
        (keeps_trace (Emit.framed_commentsAfter span)).bind fun _ => keeps_pure _

theorem tries_useSystemFunction (library name : String) :
    Tries (Generator.lift (trace (Emit.useSystemFunction library name))) :=
  (keeps_trace (Emit.framed_useSystemFunction library name)).lift

theorem tries_declareClass (name : String) : Tries (Generator.lift (trace (Emit.declareClass name))) :=
  (keeps_trace (Emit.framed_declareClass name)).lift

/-- A name is written as the receiver's if it is, from where it stands. -/
theorem receiverToken_run (name : String) (g : Generator) :
    (receiverToken name).run g = match g.receiver with
      | none => (none, g)
      | some receiver =>
        if receiver.name != name then (none, g)
        else if receiver.depth == g.functionDepth then (some "this", g)
        else (some Emit.receiverAlias,
          { g with receiver := some { receiver with captured := true } }) := by
  unfold receiverToken
  cases hreceiver : g.receiver with
  | none =>
    simp only [StateT.run_bind, StateT.run_get, pure_bind, hreceiver]
    rfl
  | some receiver =>
    simp only [StateT.run_bind, StateT.run_get, pure_bind, hreceiver]
    split
    · rfl
    · split <;> rfl

/-- A reference may note that the receiver is captured, and does nothing else. -/
theorem keeps_receiverToken (name : String) : Keeps (receiverToken name) := fun g => by
  rw [receiverToken_run]
  cases hreceiver : g.receiver with
  | none => exact .refl g
  | some receiver =>
    dsimp only
    split
    · exact .refl g
    · split
      · exact .refl g
      · exact { Kept.refl g with receiver := .inr (by rw [hreceiver]; rfl) }

/-- A reference notes at most that the receiver is captured. -/
theorem keeps_reference (name : String) : Keeps (reference file name) := by
  refine (keeps_receiverToken name).bind fun token => ?_
  cases token with
  | none => exact keeps_here.bind fun _ => keeps_pure _
  | some token => exact keeps_pure _

/-! ## Ways into a part -/

/-- Behind a block one block less is open. -/
theorem Keeps.block {statements : Step (List String)} (h : Keeps statements) :
    Keeps (block statements) := fun g =>
  let hinner := h { g with blockDepth := g.blockDepth + 1 }
  { hinner with blockDepth := congrArg (· - 1) hinner.blockDepth }

/-- The label of a loop is taken off again behind its body. -/
theorem Keeps.loopBody {statements : Step (List String)} (h : Keeps statements)
    (label : Option String) : Keeps (loopBody label statements) := fun g =>
  let hinner := h.block { g with loopLabels := label :: g.loopLabels }
  { hinner with loopLabels := congrArg List.tail hinner.loopLabels }

/-- Whether a value is kept is as before behind the members of a class. -/
theorem Keeps.classBody {members : Step (List String)} (h : Keeps members) :
    Keeps (classBody members) := fun g =>
  let hinner := h { g with valueContext := true }
  { hinner with valueContext := rfl }

/-- Whether a function changes the receiver: it brings one, or a parameter of it hides the one around
it. -/
def installs (shown : List Identifier) (receiver : Option String) (g : Generator) : Bool :=
  receiver.isSome ||
    (receiver.isNone && g.receiver.any fun r => shown.any fun p => p.name == r.name)

/-- A generator at the body of a function. -/
def enterFunction (parameters shown : List Identifier) (receiver : Option String)
    (g : Generator) : Generator :=
  { g with
    functionDepth := g.functionDepth + 1
    receiver :=
      if installs shown receiver g then
        receiver.map fun name => ⟨name, g.functionDepth + 1, false⟩
      else g.receiver
    valueContext := false
    loopLabels := []
    parameters := parameters.map Identifier.name :: g.parameters }

/-- A generator behind a function that it came to in some position. -/
def leaveFunction (shown : List Identifier) (receiver : Option String) (g h : Generator) :
    Generator :=
  { h with
    functionDepth := h.functionDepth - 1
    receiver := if installs shown receiver g then g.receiver else h.receiver
    valueContext := g.valueContext
    loopLabels := g.loopLabels
    parameters := h.parameters.tail }

/-- **What generating a function does.** -/
theorem functionParts_run (parameters shown : List Identifier) (isVararg : Bool)
    (receiver : Option String) (statements : Step (List String)) (g : Generator) :
    (functionParts file parameters shown isVararg receiver statements).run g =
      let inner := (block statements).run (enterFunction parameters shown receiver g)
      (⟨Emit.parameterText ((enterFunction parameters shown receiver g).context file) shown isVararg,
        (if receiver.isSome && inner.2.receiver.any Receiver.captured
          then "let " ++ Emit.receiverAlias ++ " = this;\n" else "") ++ inner.1⟩,
        leaveFunction shown receiver g inner.2) := by
  have hinstalls : (receiver.isSome || (receiver.isNone && g.receiver.any fun r =>
      shown.any fun p => p.name == r.name)) = installs shown receiver g := rfl
  unfold functionParts enterFunction leaveFunction
  cases h : installs shown receiver g with
  | false =>
    rw [h] at hinstalls
    simp only [StateT.run_bind, StateT.run_get, StateT.run_modify, pure_bind, hinstalls]
    rfl
  | true =>
    rw [h] at hinstalls
    simp only [StateT.run_bind, StateT.run_get, StateT.run_modify, pure_bind, hinstalls]
    rfl

/-- Behind a function the receiver is the one before, which the body knew or did not. -/
theorem keeps_functionParts {statements : Step (List String)} (h : Keeps statements)
    (parameters shown : List Identifier) (isVararg : Bool) (receiver : Option String) :
    Keeps (functionParts file parameters shown isVararg receiver statements) := fun g => by
  rw [functionParts_run]
  have hinner := h.block (enterFunction parameters shown receiver g)
  refine { hinner with
    functionDepth := congrArg (· - 1) hinner.functionDepth
    parameters := congrArg List.tail hinner.parameters
    valueContext := rfl
    loopLabels := rfl
    receiver := ?_ }
  have hentered : (enterFunction parameters shown receiver g).receiver =
      if installs shown receiver g then
        receiver.map fun name => ⟨name, g.functionDepth + 1, false⟩
      else g.receiver := rfl
  have hreceiver := hinner.receiver
  rw [hentered] at hreceiver
  dsimp only [leaveFunction]
  split
  · exact .inl rfl
  next hinstalls =>
    rw [if_neg hinstalls] at hreceiver
    exact hreceiver

/-- A function puts back all that its body changes of the position. -/
theorem keeps_function {statements : Step (List String)} (h : Keeps statements)
    (convention : Emit.Convention) (outline : FunctionBody) :
    Keeps (function file convention outline statements) :=
  keeps_functionParts h _ _ _ _

/-- The value context is put back before a failure in the values goes on. -/
theorem Tries.valued {attempt : Attempt α} {next : Except Emit.Unsupported α → Attempt β}
    (h : Tries attempt) (hnext : ∀ outcome, Tries (next outcome)) :
    Tries (do
      let valueContext := (← get).valueContext
      modify fun g => { g with valueContext := true }
      let outcome ← Generator.lift (observe attempt)
      modify fun g => { g with valueContext := valueContext }
      next outcome) := fun g => by
  let inner := (observe attempt).run { g with valueContext := true }
  have hinner : Kept { g with valueContext := true } inner.2 := h _
  have hback : Kept g { inner.2 with valueContext := g.valueContext } :=
    { hinner with valueContext := rfl }
  exact hback.trans (hnext inner.1 _)

/-- The operator mode is put back before a failure in the bounds goes on. -/
theorem Tries.forNumeric {header : Attempt String} {body : Step String} (h : Tries header)
    (hbody : Keeps body) : Tries (forNumeric header body) := fun g => by
  let inner := (observe header).run { g with operatorMode := false }
  have hinner : Kept { g with operatorMode := false } inner.2 := h _
  have hback : Kept g { inner.2 with operatorMode := g.operatorMode } :=
    { hinner with operatorMode := rfl }
  have hnext (headerText : String) : Tries (do
      return headerText ++ " " ++ Emit.braced (← lift body)) := hbody.lift.map _
  exact hback.trans ((tries_settle inner.1).bind hnext _)

/-! ## Steps for expressions -/

/-- Steps for values that put back what they change. -/
structure Values.Try (steps : Values) : Prop where
  first : Tries steps.first
  all : Tries steps.all

theorem Tries.listed {step : Attempt String} (h : Tries step) (value : Expr) (isLast : Bool) :
    Tries (listed value isLast step) :=
  .ite (keeps_fixed _ _).lift h

/-- Values that are packed are lowered alone, in a row, or not at all. -/
theorem Values.Try.pack {steps : Values} (h : steps.Try) (values : List Expr) :
    Tries (pack values steps) := by
  unfold Generator.pack
  split
  · exact tries_pure _
  · exact .ite (keeps_fixed _ _).lift h.first
  · exact h.all.map _

theorem Tries.operand {step : Attempt String} (h : Tries step) (operator : BinaryOperator)
    (value : Expr) : Tries (operand operator value step) :=
  .ite (keeps_fixed _ _).lift h

theorem Tries.binary {leftStep rightStep : Attempt String} (hleft : Tries leftStep)
    (hright : Tries rightStep) (operator : BinaryOperator) (left right : Expr) :
    Tries (binary file operator left right leftStep rightStep) :=
  (hleft.operand operator left).bind fun _ => (hright.operand operator right).bind fun _ =>
    keeps_here.lift.map _

/-- A choice lowers the operands of its conjunction in place of the conjunction. -/
theorem Tries.logical {conjuncts : Attempt (String × String)} {leftStep rightStep : Attempt String}
    (hconjuncts : Tries conjuncts) (hleft : Tries leftStep) (hright : Tries rightStep)
    (operator : LogicalOperator) (left right : Expr) :
    Tries (logical file operator left right conjuncts leftStep rightStep) :=
  .ite (hconjuncts.bind fun _ => hright.map _)
    (hleft.bind fun _ => hright.bind fun _ => keeps_here.lift.map _)

theorem Tries.unary {step : Attempt String} (h : Tries step) (operator : UnaryOperator) :
    Tries (unary file operator step) :=
  h.bind fun _ => keeps_here.lift.map _

theorem Tries.member {step : Attempt String} (h : Tries step) (base : Expr)
    (identifier : Identifier) : Tries (member file base identifier step) :=
  keeps_here.lift.bind fun _ => (keeps_trace (Emit.framed_useMember base identifier)).lift.bind
    fun _ => h.map _

theorem Tries.table {values : Attempt (List String)} {entries : Attempt (List Emit.Entry)}
    (hvalues : Tries values) (hentries : Tries entries) (fields : List Field) :
    Tries (table fields values entries) :=
  .ite (tries_pure _) (.ite (hvalues.bind fun _ => .ite (tries_pure _) (tries_pure _))
    (hentries.map _))

/-- Steps for a class that put back what they change. -/
structure ClassSteps.Try (steps : ClassSteps) : Prop where
  members : Keeps steps.members
  parent : Tries steps.parent

/-- A class without a table of members fails before anything is changed. -/
theorem ClassSteps.Try.nativeClass {steps : ClassSteps} (h : steps.Try) (name : Option String)
    (arguments : List Expr) : Tries (nativeClass name arguments steps) := by
  unfold Generator.nativeClass
  split
  next behind =>
    have hparent : Tries (Generator.parent behind steps.parent) := by
      unfold Generator.parent
      split
      · exact tries_pure _
      · exact h.parent.map _
    exact h.members.classBody.lift.bind fun _ => hparent.map _
  · exact tries_throw _

/-- Steps for the parts of a call that put back what they change. -/
structure CallSteps.Try (steps : CallSteps) : Prop where
  callee : Tries steps.callee
  owner : Tries steps.owner
  arguments : Tries steps.arguments
  firstArgument : Tries steps.firstArgument
  native : steps.native.Try

section Call

variable {site : CallSite} {steps : CallSteps}

theorem tries_genericCall (h : steps.Try) : Tries (genericCall file site steps) :=
  h.callee.bind fun _ => h.arguments.bind fun _ => keeps_here.lift.map _

theorem tries_supportCall (h : steps.Try) (function : String) :
    Tries (supportCall steps function) :=
  h.arguments.map _

theorem tries_libraryCall (h : steps.Try) (library name : String) :
    Tries (libraryCall steps library name) :=
  (tries_useSystemFunction library name).bind fun _ => tries_supportCall h _

/-- Either way of calling a method with the receiver lowers the arguments behind its base. -/
theorem tries_selfCall (h : steps.Try) (owner : Expr) (identifier : Identifier) :
    Tries (selfCall file site steps owner identifier) :=
  keeps_here.lift.bind fun _ => tries_get fun _ =>
    .ite (h.callee.bind fun _ => h.arguments.map _) (h.owner.bind fun _ => h.arguments.map _)

theorem tries_classCall (h : steps.Try) : Tries (classCall site steps) :=
  .ite (h.native.nativeClass _ _) (h.arguments.map _)

theorem Tries.select {step : Attempt String} (h : Tries step) (index : Expr) :
    Tries (select index step) := by
  unfold Generator.select
  split
  · exact tries_pure _
  · exact h.map _

/-- **A call puts back what its parts change**, whatever its pattern. -/
theorem tries_call (role : Emit.Role) (h : steps.Try) : Tries (call file role site steps) := by
  refine keeps_here.lift.bind fun ctx => ?_
  unfold callBy
  split
  · exact tries_classCall h
  · exact tries_pure _
  · split
    · exact h.firstArgument.select _
    · exact tries_throw _
  · exact tries_libraryCall h _ _
  · exact h.firstArgument.map _
  · exact tries_libraryCall h _ _
  · exact tries_libraryCall h _ _
  · exact (tries_useSystemFunction _ _).bind fun _ => h.arguments.map _
  · exact tries_supportCall h _
  · split
    · exact tries_libraryCall h _ _
    · exact tries_throw _
  · exact tries_supportCall h _
  · split
    · exact tries_selfCall h _ _
    · exact tries_genericCall h
  · exact h.arguments.map _
  · exact tries_supportCall h _
  · exact tries_genericCall h

end Call

/-! ## Steps for statements -/

theorem Values.Try.packFor {steps : Values} (h : steps.Try) (init : List Expr) :
    Tries (packFor init steps) := by
  unfold Generator.packFor
  split
  · exact .ite (h.pack _) (h.first.map _)
  · exact h.pack _

/-- What is bound is lowered as one value or as several. -/
theorem Values.Try.bind {steps : Values} (h : steps.Try) (targets : Emit.Targets)
    (init : List Expr) : Tries (bind file targets init steps) := by
  refine .ite (h.first.bind fun value => ?_) ?_
  · split
    · exact keeps_here.lift.bind fun ctx =>
        (keeps_trace (Emit.framed_bindName ctx _ _ _ _)).lift
    · exact tries_pure _
  · exact (h.packFor init).map _

/-- Steps for a `local` statement that put back what they change. -/
structure LocalSteps.Try (steps : LocalSteps) : Prop where
  arguments : Tries steps.arguments
  native : steps.native.Try
  values : steps.values.Try

/-- A `local` statement that defines no class is left to the rule for values. -/
theorem LocalSteps.Try.localClass {steps : LocalSteps} (h : steps.Try) (vars : List Identifier)
    (init : List Expr) : Tries (localClass file vars init steps) := by
  unfold Generator.localClass
  split
  · refine keeps_here.lift.bind fun ctx => .ite ((tries_declareClass _).map _) ?_
    split
    · refine .ite (tries_pure _) (.ite ((h.native.nativeClass _ _).map _) ?_)
      exact .ite ((tries_declareClass _).bind fun _ => h.arguments.map _) (h.arguments.map _)
    · exact tries_pure _
  · exact tries_pure _

/-- **A `local` statement puts back what its parts change.** -/
theorem LocalSteps.Try.localStatement {steps : LocalSteps} (h : steps.Try) (id : NodeId)
    (vars : List Identifier) (init : List Expr) :
    Tries (localStatement file id vars init steps) := by
  refine (h.localClass vars init).bind fun text => ?_
  cases text with
  | some text => exact tries_pure _
  | none =>
    refine keeps_here.lift.bind fun ctx => .ite (tries_pure _) ?_
    exact (h.values.bind _ init).valued fun outcome => (tries_settle outcome).map _

/-- Steps for an assignment that put back what they change. -/
structure AssignmentSteps.Try (steps : AssignmentSteps) : Prop where
  indexBase : Tries steps.indexBase
  firstTarget : Tries steps.firstTarget
  native : steps.native.Try
  targets : Tries steps.targets
  values : steps.values.Try

/-- Putting a value behind the end of a table lowers the table and the value. -/
theorem AssignmentSteps.Try.lengthAppend {steps : AssignmentSteps} (h : steps.Try)
    (targets init : List Expr) : Tries (lengthAppend targets init steps) := by
  unfold Generator.lengthAppend
  split
  · exact (tries_useSystemFunction _ _).bind fun _ => h.indexBase.bind fun _ =>
      h.values.first.map _
  · exact tries_pure _

/-- A class is assigned to a name as it is written, or to a target that is lowered. -/
theorem AssignmentSteps.Try.assignedClass {steps : AssignmentSteps} (h : steps.Try)
    (targets init : List Expr) : Tries (assignedClass file targets init steps) := by
  unfold Generator.assignedClass
  split
  · refine .ite ?_ (tries_pure _)
    split
    · exact keeps_here.lift.bind fun _ => tries_get fun _ => (h.native.nativeClass _ _).map _
    · exact h.firstTarget.bind fun _ => (h.native.nativeClass _ _).map _
  · exact tries_pure _

/-- **An assignment puts back what its parts change.** -/
theorem AssignmentSteps.Try.assignment {steps : AssignmentSteps} (h : steps.Try)
    (targets init : List Expr) : Tries (assignment file targets init steps) := by
  refine (h.lengthAppend targets init).bind fun text => ?_
  cases text with
  | some text => exact tries_pure _
  | none =>
    refine (h.assignedClass targets init).bind fun text => ?_
    cases text with
    | some text => exact tries_pure _
    | none =>
      have hvalues : Tries (assignValues file targets init steps) :=
        h.targets.bind fun _ => keeps_here.lift.bind fun _ => h.values.bind _ init
      exact hvalues.valued tries_settle

/-- A function statement fails for a target that is neither a name nor a member. -/
theorem Tries.functionStatement {base : Attempt String} {statements : Step (List String)}
    (hbase : Tries base) (hbody : Keeps statements) (target : Option Expr) (isLocal : Bool)
    (outline : FunctionBody) :
    Tries (functionStatement file target isLocal outline base statements) := by
  unfold Generator.functionStatement
  split
  · exact (keeps_function hbody _ _).lift.map _
  · exact hbase.bind fun _ => (keeps_function hbody _ _).lift.map _
  · exact tries_throw _

theorem Tries.memberValue {plain : Attempt String} {statements : Step (List String)}
    (hplain : Tries plain) (hbody : Keeps statements) (key : String) (value : Expr) :
    Tries (memberValue file key value plain statements) := by
  unfold Generator.memberValue
  split
  · exact (keeps_function hbody _ _).lift.map _
  · exact hplain.map _

/-- A `return` where none may stand fails before its values are lowered. -/
theorem Tries.returnStatement {second : Attempt String} {values : Values} (hsecond : Tries second)
    (hvalues : values.Try) (arguments : List Expr) :
    Tries (returnStatement file arguments second values) := by
  refine keeps_here.lift.bind fun _ => .ite (tries_throw _) (.ite (hsecond.map _) ?_)
  refine (hvalues.pack _).bind fun packed => keeps_here.lift.bind fun ctx => .ite ?_ (tries_pure _)
  exact fun g => { Kept.refl g with }

theorem tries_gotoStatement (label : Identifier) : Tries (gotoStatement file label) :=
  keeps_here.lift.bind fun _ => .ite (tries_pure _) (tries_throw _)

theorem tries_labelStatement (label : Identifier) : Tries (labelStatement file label) :=
  keeps_here.lift.bind fun _ => .ite (tries_pure _) (tries_throw _)

/-- A clause that lacks its condition fails. -/
theorem tries_clauseText (kind : Raw.ClauseKind) (condition : Option String) (body : String) :
    Tries (clauseText kind condition body) := by
  unfold clauseText
  split
  · exact tries_pure _
  · exact tries_pure _
  · exact tries_pure _
  · exact tries_throw _

/-- The bounds of a loop over numbers are lowered one by one, and each can fail. -/
theorem Tries.numericHeader {firstStep lastStep stepStep : Attempt String} (hfirst : Tries firstStep)
    (hlast : Tries lastStep) (hstep : Tries stepStep) (counter : Identifier) (first : Expr)
    (step : Option Expr) :
    Tries (numericHeader file counter first step firstStep lastStep stepStep) :=
  hfirst.bind fun _ => hlast.bind fun _ => hstep.bind fun _ => keeps_here.lift.map _

theorem Tries.iterated {arguments : Attempt (List String)} {plain : Attempt String}
    (harguments : Tries arguments) (hplain : Tries plain) (function : Option String) :
    Tries (iterated function arguments plain) := by
  cases function with
  | some name => exact harguments.map _
  | none => exact hplain

/-- A loop over other than one iterator fails before its body is lowered. -/
theorem Tries.forGeneric {source : Attempt String} {body : Step String} (hsource : Tries source)
    (hbody : Keeps body) (vars : List Identifier) (iterators : List Expr) :
    Tries (forGeneric file vars iterators source body) :=
  .ite (hsource.bind fun _ => keeps_here.lift.bind fun _ => hbody.lift.map _) (tries_throw _)

/-! ## The walk -/

mutual

/-- Expressions, whatever stands in them. -/
theorem tries_expression : ∀ e : Raw.Expr, Tries (expression file e)
  | ⟨id, span, kind⟩ => (tries_expressionKind kind .single id).around span

/-- Expressions without the comments around them. -/
theorem tries_expressionKind : ∀ (kind : Raw.ExprKind) (role : Emit.Role) (id : NodeId),
    Tries (expressionKind file role id kind)
  | .name _, _, _ => (keeps_reference _).lift
  | .nil, _, _ | .boolean _, _, _ | .number .., _, _ | .string _, _, _ | .vararg, _, _ =>
    tries_pure _
  | .function f, _, _ => (keeps_function (keeps_functionBody f) _ _).lift.map _
  | .table fields, _, _ => (tries_fieldValues fields).table (tries_entries fields) _
  | .binary _ left right, _, _ => (tries_expression left).binary (tries_expression right) _ _ _
  | .logical _ left right, _, _ =>
    (tries_conjuncts left).logical (tries_expression left) (tries_expression right) _ _ _
  | .unary _ argument, _, _ => (tries_expression argument).unary _
  | .member base _ _, _, _ => (tries_expression base).member _ _
  | .index base index, _, _ =>
    (tries_expression base).bind fun _ => (tries_expression index).map _
  | .call base _ arguments, role, _ =>
    tries_call role
      { callee := tries_expression base
        owner := tries_owner base
        arguments := tries_list arguments
        firstArgument := tries_first arguments
        native := ⟨keeps_firstMembers arguments, tries_second arguments⟩ }

theorem tries_conjuncts : ∀ e : Raw.Expr, Tries (conjuncts file e)
  | ⟨_, _, kind⟩ => by
    cases kind with
    | logical operator left right =>
      exact (tries_expression left).bind fun _ => (tries_expression right).map _
    | _ => exact tries_pure _

theorem tries_owner : ∀ e : Raw.Expr, Tries (owner file e)
  | ⟨_, _, kind⟩ => by
    cases kind with
    | member base indexer identifier => exact tries_expression base
    | _ => exact tries_pure _

theorem tries_indexBase : ∀ es : List Raw.Expr, Tries (indexBase file es)
  | [] => tries_pure _
  | ⟨_, _, kind⟩ :: _ => by
    cases kind with
    | index base index => exact tries_expression base
    | _ => exact tries_pure _

theorem tries_list : ∀ es : List Raw.Expr, Tries (list file es)
  | [] => tries_pure _
  | first :: rest =>
    ((tries_expression first).listed _ _).bind fun _ => (tries_list rest).map _

theorem tries_row : ∀ es : List Raw.Expr, Tries (row file es)
  | [] => tries_pure _
  | first :: rest => (tries_expression first).bind fun _ => (tries_row rest).map _

theorem tries_first : ∀ es : List Raw.Expr, Tries (first file es)
  | [] => tries_pure _
  | first :: _ => tries_expression first

theorem tries_second : ∀ es : List Raw.Expr, Tries (second file es)
  | [] => tries_pure _
  | _ :: rest => tries_first rest

theorem tries_firstArguments : ∀ es : List Raw.Expr, Tries (firstArguments file es)
  | [] => tries_pure _
  | ⟨_, _, kind⟩ :: _ => by
    cases kind with
    | call base style arguments => exact tries_list arguments
    | _ => exact tries_pure _

theorem keeps_firstMembers : ∀ es : List Raw.Expr, Keeps (firstMembers file es)
  | [] => keeps_pure _
  | ⟨_, _, kind⟩ :: _ => by
    cases kind with
    | table fields => exact keeps_members fields
    | _ => exact keeps_pure _

theorem tries_firstNative : ∀ es : List Raw.Expr, (firstNative file es).Try
  | [] => ⟨keeps_pure _, tries_pure _⟩
  | ⟨_, _, kind⟩ :: _ => by
    cases kind with
    | call base style arguments => exact ⟨keeps_firstMembers arguments, tries_second arguments⟩
    | _ => exact ⟨keeps_pure _, tries_pure _⟩

theorem tries_fieldValues : ∀ fields : List Raw.Field, Tries (fieldValues file fields)
  | [] => tries_pure _
  | ⟨_, _, kind⟩ :: rest => (tries_fieldValue kind _).bind fun _ => (tries_fieldValues rest).map _

theorem tries_fieldValue : ∀ (kind : Raw.FieldKind) (isLast : Bool),
    Tries (fieldValue file isLast kind)
  | .positional value, _ | .named _ value, _ | .keyed _ value, _ =>
    (tries_expression value).listed _ _

theorem tries_entries : ∀ fields : List Raw.Field, Tries (entries file fields)
  | [] => tries_pure _
  | ⟨_, _, kind⟩ :: rest => (tries_entry kind).bind fun _ => (tries_entries rest).map _

theorem tries_entry : ∀ kind : Raw.FieldKind, Tries (entry file kind)
  | .positional value => (tries_expression value).map _
  | .named _ value => (tries_expression value).map _
  | .keyed key value => (tries_expression key).bind fun _ => (tries_expression value).map _

/-- The members of a class: a failure is contained in the member. -/
theorem keeps_members : ∀ fields : List Raw.Field, Keeps (members file fields)
  | [] => keeps_pure _
  | ⟨_, span, kind⟩ :: rest =>
    ((tries_classMember kind).contained span).bind fun _ =>
      (keeps_members rest).bind fun _ => keeps_pure _

theorem tries_classMember : ∀ kind : Raw.FieldKind, Tries (classMember file kind)
  | .named _ value => (tries_expression value).memberValue (keeps_valueBody value) _ _
  | .keyed key value =>
    (tries_expression key).bind fun _ =>
      (tries_expression value).memberValue (keeps_valueBody value) _ _
  | .positional _ => tries_throw _

theorem keeps_valueBody : ∀ e : Raw.Expr, Keeps (valueBody file e)
  | ⟨_, _, kind⟩ => by
    cases kind with
    | function f => exact keeps_functionBody f
    | _ => exact keeps_pure _

/-- The statements of a function. -/
theorem keeps_functionBody : ∀ f : Raw.Function, Keeps (functionBody file f)
  | ⟨_, _, _, _, _, _, body⟩ => keeps_statements body

/-- **Statements in a row put back what they change.** -/
theorem keeps_statements : ∀ body : List Raw.Stmt, Keeps (statements file body)
  | [] => keeps_pure _
  | ⟨id, span, kind⟩ :: rest =>
    ((tries_statementKind kind id).contained span).bind fun _ =>
      (keeps_statements rest).bind fun _ => keeps_pure _

/-- Statements without the comments around them, each by its rule. -/
theorem tries_statementKind : ∀ (kind : Raw.StmtKind) (id : NodeId),
    Tries (statementKind file id kind)
  | .local vars init, id =>
    LocalSteps.Try.localStatement
      { arguments := tries_firstArguments init
        native := tries_firstNative init
        values := ⟨tries_first init, tries_list init⟩ } id vars _
  | .assignment targets init, _ =>
    AssignmentSteps.Try.assignment
      { indexBase := tries_indexBase targets
        firstTarget := tries_first targets
        native := tries_firstNative init
        targets := tries_row targets
        values := ⟨tries_first init, tries_list init⟩ } _ _
  | .call ⟨id, _, kind⟩, _ => .ite (tries_expressionKind kind .statement id) (tries_throw _)
  | .function ⟨_, _, target, _, _, _, body⟩, _ =>
    (tries_targetBase target).functionStatement (keeps_statements body) _ _ _
  | .return arguments, _ =>
    (tries_second arguments).returnStatement ⟨tries_first arguments, tries_list arguments⟩ _
  | .break, _ => tries_pure _
  | .goto label, _ => tries_gotoStatement label
  | .label label, _ => tries_labelStatement label
  | .block body, _ => (keeps_statements body).block.lift.map _
  | .while condition body, _ =>
    (tries_expression condition).bind fun _ => ((keeps_statements body).loopBody _).lift.map _
  | .repeat body condition, _ =>
    ((keeps_statements body).loopBody _).lift.bind fun _ => (tries_expression condition).map _
  | .conditional cs, _ => (tries_clauses cs).map _
  | .forNumeric counter first last step body, _ =>
    ((tries_expression first).numericHeader (tries_expression last) (tries_optional step "1") counter
      _ _).forNumeric ((keeps_statements body).loopBody _)
  | .forGeneric vars iterators body, _ =>
    (tries_source iterators).forGeneric ((keeps_statements body).loopBody _) vars _

theorem tries_targetBase : ∀ target : Option Raw.Expr, Tries (targetBase file target)
  | none => tries_pure _
  | some target => tries_owner target

theorem tries_optional : ∀ (e : Option Raw.Expr) (absent : String), Tries (optional file absent e)
  | none, _ => tries_pure _
  | some e, _ => tries_expression e

theorem tries_source : ∀ es : List Raw.Expr, Tries (source file es)
  | [] => tries_pure _
  | ⟨id, span, kind⟩ :: _ =>
    (tries_callArguments kind).iterated ((tries_expressionKind kind .single id).around span) _

theorem tries_callArguments : ∀ kind : Raw.ExprKind, Tries (callArguments file kind)
  | .call _ _ arguments => tries_list arguments
  | .name _ | .nil | .boolean _ | .number .. | .string _ | .vararg | .function _ | .table _
  | .binary .. | .logical .. | .unary .. | .member .. | .index .. => tries_pure _

/-- The clauses of a conditional, up to the first that fails. -/
theorem tries_clauses : ∀ cs : List Raw.Clause, Tries (clauses file cs)
  | [] => tries_pure _
  | ⟨_, _, kind, condition, body⟩ :: rest =>
    (tries_clauseCondition condition).bind fun _ => (keeps_statements body).block.lift.bind fun _ =>
      (tries_clauseText kind _ _).bind fun _ => (tries_clauses rest).map _

theorem tries_clauseCondition : ∀ condition : Option Raw.Expr,
    Tries (clauseCondition file condition)
  | none => tries_pure _
  | some condition => (tries_expression condition).map _

end

/-- **The walk puts back what it changes**, whatever the tree and the generator: behind a statement,
an expression and a call, generated or not, the generator is where it was before, and has only added
to the traces. -/
theorem walk_keeps_position (file : File) (g : Generator) :
    (∀ s, Kept g ((statement file s).run g).2) ∧
    (∀ e, Kept g ((expression file e).run.run g).2) ∧
    ∀ role e, Kept g ((callExpression file role e).run.run g).2 := by
  refine ⟨fun s => ?_, fun e => tries_expression e g, fun role e => ?_⟩
  · exact (tries_statementKind s.kind s.id).contained s.span g
  · exact (tries_expressionKind e.kind role e.id).ite (tries_throw _) g

end LuaCompiler.Generator
