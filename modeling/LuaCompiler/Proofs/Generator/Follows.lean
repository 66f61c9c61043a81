import LuaCompiler.Proofs.Emit.Outline
import LuaCompiler.Proofs.Emit.ValueLists
import LuaCompiler.Proofs.Generator.Frame

/-!
# Steps that follow a lowering

The walk of `Emit` hands the context of a node down and keeps only the traces; a generator keeps its
position too, changes it and puts it back. A step follows a lowering if from a generator at a position
it gives what the lowering gives in the context of that position, and leaves the generator where it was
with the traces of the lowering.

* `holding`: a generator at a position, with traces of its own.
* `Does`, `Follows`, `Settles`: **what it is to follow a lowering**, for steps that give a result, for
  those that may fail, and for nodes whose failures are contained.
* `Follows.bind`, `does_trace`, `does_reference`, `Does.block`, `Does.functionParts`: the monads, the
  traces, and the ways into a part of the tree.
* `follows_call`, `follows_localStatement`, `follows_assignment` and the lemmas before them: one for each
  rule.
-/

namespace LuaCompiler.Generator

open Emit (Context Progress Unsupported)

variable {α β : Type} {file : File} {ctx : Context}

/-- A generator at the position of another, with traces of its own. -/
def holding (g : Generator) (p : Progress) : Generator :=
  { g.withTraces p with
    receiver := g.receiver.map fun receiver => { receiver with captured := p.captured } }

/-- A generator that has exported a value besides, or has not. -/
def exporting (g : Generator) (exports : Bool) : Generator :=
  { g with exported := g.exported || exports }

/-- **A step that does what a lowering does.** -/
def Does (file : File) (ctx : Context) (exports : Bool) (step : Step α) (emit : Emit α) : Prop :=
  ∀ (g : Generator) (p : Progress), g.context file = ctx →
    step.run (g.holding p) = ((emit.run p).1, (g.exporting exports).holding (emit.run p).2)

/-- **A step that may fail and, where it follows a lowering, does not.** -/
def Follows (file : File) (ctx : Context) (attempt : Attempt α) (emit : Emit α) : Prop :=
  ∀ (g : Generator) (p : Progress), g.context file = ctx →
    (observe attempt).run (g.holding p) = (.ok (emit.run p).1, g.holding (emit.run p).2)

/-- A step that follows a lowering and exports a value besides, or does not. -/
def Exports (file : File) (ctx : Context) (exports : Bool) (attempt : Attempt α) (emit : Emit α) :
    Prop :=
  ∀ (g : Generator) (p : Progress), g.context file = ctx →
    (observe attempt).run (g.holding p) =
      (.ok (emit.run p).1, (g.exporting exports).holding (emit.run p).2)

/-- **A node that is generated as it is lowered**, or fails at once where the lowering lists a failure.
-/
def Settles (file : File) (ctx : Context) (exports : Bool) (span : Span) (attempt : Attempt String)
    (emit : Emit String) : Prop :=
  Exports file ctx exports attempt emit ∨
  exports = false ∧ ∃ unsupported, emit = Emit.contain unsupported span ∧
    ∀ g : Generator, g.context file = ctx → (observe attempt).run g = (.error unsupported, g)

/-! ## Positions and traces -/

/-- The traces are no part of the position. -/
@[simp]
theorem context_holding (g : Generator) (p : Progress) : (g.holding p).context file = g.context file := by
  have hreceiver : (g.holding p).receiver.map (fun r => (⟨r.name, r.depth⟩ : Emit.Receiver)) =
      g.receiver.map fun r => ⟨r.name, r.depth⟩ := by
    rw [holding, Option.map_map]
    rfl
  unfold context
  rw [hreceiver]
  rfl

@[simp]
theorem exporting_false (g : Generator) : g.exporting false = g := by
  rw [exporting, Bool.or_false]

/-- To have exported a value once is to have exported one. -/
@[simp]
theorem exporting_exporting (g : Generator) (a b : Bool) :
    (g.exporting a).exporting b = g.exporting (a || b) := by
  rw [exporting, exporting, exporting, Bool.or_assoc]

/-- **What a generator has left behind is what it holds**, but for the capture of a receiver where
there is none. -/
theorem traces_holding (g : Generator) (p : Progress) :
    (g.holding p).traces = { p with captured := g.receiver.isSome && p.captured } := by
  have hcaptured : (g.holding p).receiver.any Receiver.captured =
      (g.receiver.isSome && p.captured) := by
    rw [holding]
    cases g.receiver <;> simp
  unfold traces
  rw [hcaptured]
  rfl

/-! ## The monads -/

theorem does_pure (a : α) : Does file ctx false (pure a) (pure a) := fun g p _ => by
  rw [exporting_false]
  rfl

/-- Steps in a row do what lowerings in a row do. -/
theorem Does.bind {b c : Bool} {step : Step α} {emit : Emit α} {next : α → Step β}
    {more : α → Emit β} (h : Does file ctx b step emit)
    (hnext : ∀ a, Does file ctx c (next a) (more a)) :
    Does file ctx (b || c) (step >>= next) (emit >>= more) := fun g p hctx => by
  rw [StateT.run_bind, h g p hctx, ← exporting_exporting]
  exact hnext _ (g.exporting b) _ hctx

theorem Does.map {b : Bool} {step : Step α} {emit : Emit α} (h : Does file ctx b step emit)
    (f : α → β) : Does file ctx b (do return f (← step)) (do return f (← emit)) := by
  have hmap := h.bind fun a => does_pure (f a)
  rwa [Bool.or_false] at hmap

/-- What a step does if it exports nothing, from any traces. -/
theorem Does.run {step : Step α} {emit : Emit α} (h : Does file ctx false step emit) (g : Generator)
    (p : Progress) (hctx : g.context file = ctx) :
    step.run (g.holding p) = ((emit.run p).1, g.holding (emit.run p).2) := by
  rw [h g p hctx, exporting_false]

theorem follows_pure (a : α) : Follows file ctx (pure a) (pure a) := fun _ _ _ => rfl

/-- What comes behind a step may rely on what every result of the lowering has. -/
theorem Follows.bind_of {P : α → Prop} {attempt : Attempt α} {emit : Emit α} {next : α → Attempt β}
    {more : α → Emit β} (h : Follows file ctx attempt emit) (hresult : ∀ p, P (emit.run p).1)
    (hnext : ∀ a, P a → Follows file ctx (next a) (more a)) :
    Follows file ctx (attempt >>= next) (emit >>= more) := fun g p hctx => by
  have hbind : observe (attempt >>= next) = observe attempt >>= ExceptT.bindCont next := rfl
  rw [hbind, StateT.run_bind, h g p hctx]
  exact hnext _ (hresult p) g _ hctx

/-- Attempts in a row follow lowerings in a row. -/
theorem Follows.bind {attempt : Attempt α} {emit : Emit α} {next : α → Attempt β}
    {more : α → Emit β} (h : Follows file ctx attempt emit)
    (hnext : ∀ a, Follows file ctx (next a) (more a)) :
    Follows file ctx (attempt >>= next) (emit >>= more) :=
  h.bind_of (P := fun _ => True) (fun _ => trivial) fun a _ => hnext a

theorem Follows.map {attempt : Attempt α} {emit : Emit α} (h : Follows file ctx attempt emit)
    (f : α → β) : Follows file ctx (do return f (← attempt)) (do return f (← emit)) :=
  h.bind fun a => follows_pure (f a)

/-- A lowering may be written in another way. -/
theorem Follows.congr {attempt : Attempt α} {emit other : Emit α} (h : Follows file ctx attempt emit)
    (heq : ∀ p, other.run p = emit.run p) : Follows file ctx attempt other := fun g p hctx => by
  rw [heq p]
  exact h g p hctx

/-- What is found is given, and nothing else is tried. -/
theorem Follows.found {attempt : Attempt (Option String)} {emit : Emit String}
    {other : Attempt String} (h : Follows file ctx attempt (do return some (← emit))) :
    Follows file ctx (attempt >>= fun text => match text with
      | some text => pure text
      | none => other) emit := by
  have htext : Follows file ctx (attempt >>= fun text => match text with
      | some text => pure text
      | none => other) ((do return some (← emit)) >>= fun text => pure (text.getD "")) :=
    h.bind_of (P := (·.isSome = true)) (fun _ => rfl) fun text htext => by
      obtain ⟨text, rfl⟩ := Option.isSome_iff_exists.1 htext
      exact follows_pure text
  exact htext

/-- Whatever position a generator stands at, the context of it is one of the file. -/
theorem Follows.within {attempt : Attempt α} {emit : Emit α}
    (h : ctx.options = file.options ∧ ctx.annotations = file.annotations ∧ ctx.fileName = file.name →
      Follows file ctx attempt emit) : Follows file ctx attempt emit := fun g p hctx =>
  h (by subst hctx; exact ⟨rfl, rfl, rfl⟩) g p hctx

/-- An attempt that decides follows a lowering that decides alike. -/
theorem Follows.ite {c : Prop} [Decidable c] {attempt attempt' : Attempt α} {emit emit' : Emit α}
    (h : c → Follows file ctx attempt emit) (h' : ¬c → Follows file ctx attempt' emit') :
    Follows file ctx (if c then attempt else attempt') (if c then emit else emit') := by
  split
  next hc => exact h hc
  next hc => exact h' hc

/-- A step that always gives a result follows as an attempt. -/
theorem Does.lift {step : Step α} {emit : Emit α} (h : Does file ctx false step emit) :
    Follows file ctx (Generator.lift step) emit := fun g p hctx => by
  have hlift : observe (Generator.lift step) = step >>= fun a => pure (.ok a) := rfl
  rw [hlift, StateT.run_bind, h.run g p hctx]
  rfl

/-- A step that reads the position reads the context of the lowering. -/
theorem Follows.here {next : Context → Attempt β} {emit : Emit β} (h : Follows file ctx (next ctx) emit) :
    Follows file ctx (Generator.lift (Generator.here file) >>= next) emit := fun g p hctx => by
  have hrun : (observe (Generator.lift (Generator.here file) >>= next)).run (g.holding p) =
      (observe (next ((g.holding p).context file))).run (g.holding p) := rfl
  rw [hrun, context_holding, hctx]
  exact h g p hctx

/-- A step that looks at its position does as at that position. -/
theorem Does.here {exports : Bool} {next : Context → Step β} {emit : Emit β}
    (h : Does file ctx exports (next ctx) emit) :
    Does file ctx exports (Generator.here file >>= next) emit := fun g p hctx => by
  have hrun : (Generator.here file >>= next).run (g.holding p) =
      (next ((g.holding p).context file)).run (g.holding p) := rfl
  rw [hrun, context_holding, hctx]
  exact h g p hctx

/-- A step that reads what is left behind so far reads what the lowering has left behind. -/
theorem Follows.read {next : Generator → Attempt β} {more : Progress → Emit β}
    (h : ∀ (g : Generator) (p : Progress), Follows file ctx (next (g.holding p)) (more p)) :
    Follows file ctx (get >>= next) (get >>= more) :=
  fun g p hctx => h g p g p hctx

/-! ## Traces -/

/-- A lowering that neither knows nor says whether the receiver is captured. -/
def Blind (emit : Emit α) : Prop :=
  ∀ (p : Progress) (captured : Bool),
    emit.run { p with captured } = ((emit.run p).1, { (emit.run p).2 with captured })

theorem blind_pure (a : α) : Blind (pure a) := fun _ _ => rfl

/-- Lowerings in a row do not look at whether a value is exported if none does. -/
theorem Blind.bind {emit : Emit α} {more : α → Emit β} (h : Blind emit)
    (hmore : ∀ a, Blind (more a)) : Blind (emit >>= more) := fun p captured => by
  rw [StateT.run_bind, h p captured]
  exact hmore _ _ captured

theorem blind_commentsBefore (span : Span) : Blind (Emit.commentsBefore span) := fun _ _ => rfl

theorem blind_commentsAfter (span : Span) : Blind (Emit.commentsAfter span) := fun _ _ => rfl

theorem blind_commentsLeft : Blind Emit.commentsLeft := fun _ _ => rfl

theorem Blind.around {node : Emit String} (h : Blind node) (span : Span) :
    Blind (Emit.around span node) :=
  (blind_commentsBefore span).bind fun _ => h.bind fun _ =>
    (blind_commentsAfter span).bind fun _ => blind_pure _

theorem blind_contain (unsupported : Unsupported) (span : Span) :
    Blind (Emit.contain unsupported span) := fun _ _ => rfl

theorem blind_useSystemFunction (library name : String) :
    Blind (Emit.useSystemFunction library name) := fun _ _ => rfl

theorem blind_useMember (base : Expr) (identifier : Identifier) :
    Blind (Emit.useMember ctx base identifier) := by
  unfold Emit.useMember
  split
  · split
    · exact blind_useSystemFunction _ _
    · exact blind_pure _
  · exact blind_pure _

theorem blind_declareClass (name : String) : Blind (Emit.declareClass name) := fun p captured => by
  rw [Emit.declareClass_run, Emit.declareClass_run]

theorem blind_bindName (targets : Emit.Targets) (name : String) (node : Expr) (value : String) :
    Blind (Emit.bindName ctx targets name node value) := fun p captured => by
  rw [Emit.bindName_run, Emit.bindName_run, Emit.bindAs_run, Emit.bindAs_run]

/-- **A step on the traces does what the lowering does that it is given by.** -/
theorem does_trace {emit : Emit α} (h : Blind emit) : Does file ctx false (trace emit) emit :=
  fun g p _ => by
  have hcaptured : (emit.run p).2.captured = p.captured :=
    (congrArg (fun r => Progress.captured r.2) (h p p.captured) : (emit.run p).2.captured = _)
  have hrun : (trace emit).run (g.holding p) = ((emit.run (g.holding p).traces).1,
      (g.holding p).withTraces (emit.run (g.holding p).traces).2) := rfl
  rw [hrun, traces_holding, h p, exporting_false]
  unfold holding
  rw [hcaptured]
  rfl

/-- A node that follows does so with the comments around it. -/
theorem Follows.around {node : Attempt String} {emit : Emit String} (h : Follows file ctx node emit)
    (span : Span) : Follows file ctx (around span node) (Emit.around span emit) :=
  (does_trace (blind_commentsBefore span)).lift.bind fun _ => h.bind fun _ =>
    (does_trace (blind_commentsAfter span)).lift.map _

/-- A node with a text of its own. -/
theorem does_fixed (span : Span) (text : String) :
    Does file ctx false (fixed span text) (Emit.around span (pure text)) :=
  does_trace ((blind_pure text).around span)

/-- The text of a node, or what is listed in its place. -/
theorem contained_eq (span : Span) (node : Attempt String) :
    contained span node = do
      let before ← trace (Emit.commentsBefore span)
      let text ← observe node >>= fun outcome => match outcome with
        | .ok text => pure text
        | .error unsupported => trace (Emit.contain unsupported span)
      let after ← trace (Emit.commentsAfter span)
      return before ++ text ++ after := by
  simp only [bind_assoc]
  refine congrArg _ (funext fun before => congrArg _ (funext fun outcome => ?_))
  cases outcome <;> rfl

/-- **A failure is listed where the lowering lists it.** -/
theorem Settles.contained {exports : Bool} {span : Span} {node : Attempt String}
    {emit : Emit String} (h : Settles file ctx exports span node emit) :
    Does file ctx exports (contained span node) (Emit.around span emit) := by
  have hnode : Does file ctx exports (observe node >>= fun outcome => match outcome with
      | .ok text => pure text
      | .error unsupported => trace (Emit.contain unsupported span)) emit := fun g p hctx => by
    rw [StateT.run_bind]
    rcases h with h | ⟨rfl, unsupported, rfl, h⟩
    · rw [h g p hctx]
      rfl
    · rw [h _ ((context_holding g p).trans hctx)]
      exact does_trace (blind_contain unsupported span) g p hctx
  have hbefore : Does file ctx false (trace (Emit.commentsBefore span)) (Emit.commentsBefore span) :=
    does_trace (blind_commentsBefore span)
  have haround := hbefore.bind fun before =>
    hnode.bind fun text =>
      (does_trace (blind_commentsAfter span)).map fun behind => before ++ text ++ behind
  rw [Bool.or_false, Bool.false_or] at haround
  rw [contained_eq]
  exact haround

/-- An attempt that follows exports nothing. -/
theorem Follows.exports {attempt : Attempt α} {emit : Emit α} (h : Follows file ctx attempt emit) :
    Exports file ctx false attempt emit := fun g p hctx => by
  rw [exporting_false]
  exact h g p hctx

theorem Follows.bind_exports {exports : Bool} {attempt : Attempt α} {emit : Emit α}
    {next : α → Attempt β} {more : α → Emit β} (h : Follows file ctx attempt emit)
    (hnext : ∀ a, Exports file ctx exports (next a) (more a)) :
    Exports file ctx exports (attempt >>= next) (emit >>= more) := fun g p hctx => by
  have hbind : observe (attempt >>= next) = observe attempt >>= ExceptT.bindCont next := rfl
  rw [hbind, StateT.run_bind, h g p hctx]
  exact hnext _ g _ hctx

/-- A node that follows has no failure to be contained. -/
theorem Follows.settles {node : Attempt String} {emit : Emit String} (h : Follows file ctx node emit)
    (span : Span) : Settles file ctx false span node emit :=
  .inl h.exports

/-- A node that looks at its position settles as at that position. -/
theorem Settles.here {exports : Bool} {span : Span} {next : Context → Attempt String}
    {emit : Emit String} (h : Settles file ctx exports span (next ctx) emit) :
    Settles file ctx exports span (Generator.lift (Generator.here file) >>= next) emit := by
  have hrun (g : Generator) : (observe (Generator.lift (Generator.here file) >>= next)).run g =
      (observe (next (g.context file))).run g := rfl
  rcases h with h | ⟨hexports, unsupported, hemit, h⟩
  · refine .inl fun g p hctx => ?_
    rw [hrun, context_holding, hctx]
    exact h g p hctx
  · refine .inr ⟨hexports, unsupported, hemit, fun g hctx => ?_⟩
    rw [hrun, hctx]
    exact h g hctx

/-- **A failure is contained as the lowering lists it.** -/
theorem settles_throw (unsupported : Unsupported) (span : Span) :
    Settles file ctx false span (throw unsupported) (Emit.contain unsupported span) :=
  .inr ⟨rfl, unsupported, rfl, fun _ _ => rfl⟩

/-- Whether a name is the receiver's is decided from the position, and that a nested function refers to
the receiver is noted on both sides. -/
theorem receiverToken_holding (file : File) (name : String) (g : Generator) (p : Progress) :
    (receiverToken name).run (g.holding p) =
      match (g.context file).receiver.filter (·.name == name) with
      | some receiver =>
        if receiver.depth == (g.context file).functionDepth then (some "this", g.holding p)
        else (some Emit.receiverAlias, g.holding { p with captured := true })
      | none => (none, g.holding p) := by
  have hholding : (g.holding p).receiver =
      g.receiver.map fun r => { r with captured := p.captured } := rfl
  have hcontext : (g.context file).receiver = g.receiver.map fun r => ⟨r.name, r.depth⟩ := rfl
  rw [receiverToken_run, hholding, hcontext]
  cases hreceiver : g.receiver with
  | none => rfl
  | some r =>
    rw [Option.map_some, Option.map_some, Option.filter_some]
    dsimp only
    -- only a reference under the name of the receiver sets the mark
    by_cases hname : r.name = name
    · have hsame : (r.name == name) = true := beq_iff_eq.2 hname
      have hother : (r.name != name) = false := by rw [bne, hsame]; rfl
      rw [hsame, hother, if_pos rfl, if_neg Bool.false_ne_true]
      have hnoted : ({ g.holding p with receiver := some ⟨r.name, r.depth, true⟩ } : Generator) =
          g.holding { p with captured := true } := by
        rw [holding, holding, hreceiver]
        rfl
      rw [hnoted]
      rfl
    · have hsame : (r.name == name) = false := beq_eq_false_iff_ne.2 hname
      have hother : (r.name != name) = true := by rw [bne, hsame]; rfl
      rw [hsame, hother, if_pos rfl, if_neg Bool.false_ne_true]

/-- A reference is written alike, and captures the receiver alike. -/
theorem does_reference (name : String) :
    Does file ctx false (reference file name) (Emit.reference ctx name) := fun g p hctx => by
  subst hctx
  rw [exporting_false, reference, StateT.run_bind, receiverToken_holding file,
    Emit.reference]
  cases (g.context file).receiver.filter (·.name == name) with
  | none =>
    have hplain : Does file (g.context file) false (do
        let ctx ← here file
        return if ctx.isLibrary name then "l2j." ++ name else Name.asBinding name)
        (pure (if (g.context file).isLibrary name then "l2j." ++ name else Name.asBinding name)) :=
      Does.here (does_pure _)
    exact hplain.run g p rfl
  | some receiver =>
    dsimp only
    split <;> rfl

/-- A name is referred to in its own spelling. -/
theorem follows_name (id : NodeId) (name : String) :
    Follows file ctx (lift (reference file (file.annotations.resolve id name)))
      (Emit.reference ctx (ctx.annotations.resolve id name)) :=
  .within fun ⟨_, hannotations, _⟩ => by
    rw [hannotations]
    exact (does_reference _).lift

/-! ## Ways into a part -/

/-- The body of a block is followed in the context of what the block holds. -/
theorem Does.block {exports : Bool} {statements : Step (List String)} {emit : Emit (List String)}
    (h : Does file ctx.inBlock (ctx.inBlock.isTop && exports) statements emit) :
    Does file ctx false (Generator.block statements) (do return Emit.sequence (← emit)) := fun g p hctx => by
  have hinner := h { g with blockDepth := g.blockDepth + 1 } p (by rw [← hctx]; rfl)
  have hrun : (Generator.block statements).run (g.holding p) =
      let inner := statements.run (holding { g with blockDepth := g.blockDepth + 1 } p)
      (Emit.sequence inner.1, { inner.2 with blockDepth := inner.2.blockDepth - 1 }) := rfl
  have hinside : (ctx.inBlock.isTop && exports) = false := rfl
  rw [hinside, exporting_false] at hinner
  rw [hrun, hinner, exporting_false]
  rfl

/-- The inside of a loop is that of a block, with the label at the end of the loop. -/
theorem inLoop_eq (ctx : Context) (body : List Stmt) :
    ctx.inLoop body = { ctx.inBlock with continueLabel := Raw.endLabel? (rawBlock body) } := by
  have hlast : (rawBlock body).getLast? =
      body.getLast?.map fun s => ⟨s.id, s.span, s.kind.raw⟩ := by
    have hmap : rawBlock body = body.map fun s => ⟨s.id, s.span, s.kind.raw⟩ := by
      induction body with
      | nil => rfl
      | cons first rest ih =>
        obtain ⟨id, span, kind⟩ := first
        exact congrArg (List.cons ⟨id, span, kind.raw⟩) ih
    rw [hmap, List.getLast?_map]
  unfold Context.inLoop Raw.endLabel?
  rw [hlast]
  rcases body.getLast? with _ | ⟨id, span, kind⟩
  · rfl
  · cases kind with
    | conditional first others otherwise => cases first; rfl
    | _ => rfl

/-- The body of a loop, whose label is that of the last statement. -/
theorem Does.loopBody {exports : Bool} {statements : Step (List String)} {emit : Emit (List String)}
    (body : List Stmt)
    (h : Does file (ctx.inLoop body) ((ctx.inLoop body).isTop && exports) statements emit) :
    Does file ctx false (Generator.loopBody (Raw.endLabel? (rawBlock body)) statements)
      (do return Emit.sequence (← emit)) := fun g p hctx => by
  let label := Raw.endLabel? (rawBlock body)
  let inside : Context := { ctx with continueLabel := label }
  have hinside : ctx.inLoop body = inside.inBlock := inLoop_eq ctx body
  rw [hinside] at h
  have hblock := h.block.run { g with loopLabels := label :: g.loopLabels } p (by subst hctx; rfl)
  have hrun : (Generator.loopBody label statements).run (g.holding p) =
      let inner := (Generator.block statements).run
        (holding { g with loopLabels := label :: g.loopLabels } p)
      (inner.1, { inner.2 with loopLabels := inner.2.loopLabels.tail }) := rfl
  rw [hrun, hblock, exporting_false]
  rfl

theorem Does.classBody {members : Step (List String)} {emit : Emit (List String)}
    (h : Does file ctx.asValue false members emit) :
    Does file ctx false (Generator.classBody members) emit := fun g p hctx => by
  have hinner := h.run { g with valueContext := true } p (by rw [← hctx]; rfl)
  have hrun : (Generator.classBody members).run (g.holding p) =
      let inner := members.run (holding { g with valueContext := true } p)
      (inner.1, { inner.2 with valueContext := g.valueContext }) := rfl
  rw [hrun, hinner, exporting_false]
  rfl

/-! ### Functions -/

variable {parameters shown : List Identifier} {receiver : Option String}

/-- What a function sets for its body does not depend on the traces. -/
theorem installs_holding (shown : List Identifier) (receiver : Option String) (g : Generator)
    (p : Progress) : installs shown receiver (g.holding p) = installs shown receiver g := by
  have hholding : (g.holding p).receiver =
      g.receiver.map fun r => { r with captured := p.captured } := rfl
  rw [installs, installs, hholding, Option.any_map]

/-- What holds at the body of a function: a method has a receiver that nothing has referred to yet. -/
theorem enterFunction_holding (g : Generator) (p : Progress) :
    enterFunction parameters shown receiver (g.holding p) =
      (enterFunction parameters shown receiver g).holding
        { p with captured := receiver.isNone && p.captured } := by
  unfold enterFunction
  rw [installs_holding]
  cases receiver with
  | some name => rfl
  | none => cases installs shown none g <;> rfl

/-- The position at the body of a function is the context of the body, a block aside. -/
theorem context_enterFunction (g : Generator) :
    ((enterFunction parameters shown receiver g).context file).inBlock =
      (g.context file).inFunction parameters shown receiver := by
  have hreceiver : (enterFunction parameters shown receiver g).receiver.map
        (fun r => (⟨r.name, r.depth⟩ : Emit.Receiver)) =
      ((g.context file).inFunction parameters shown receiver).receiver := by
    cases receiver with
    | some name => rfl
    | none =>
      have houter : ((g.context file).inFunction parameters shown none).receiver =
          (g.receiver.map fun r => (⟨r.name, r.depth⟩ : Emit.Receiver)).filter
            fun r => !shown.any fun p => p.name == r.name := rfl
      rw [houter]
      unfold enterFunction installs
      dsimp only
      cases g.receiver with
      | none => rfl
      | some r =>
        simp only [Option.isSome_none, Option.isNone_none, Option.any_some, Option.map_some,
          Option.filter_some, Option.map_none, Bool.false_or, Bool.true_and]
        cases shown.any fun p => p.name == r.name <;> rfl
  unfold context
  rw [hreceiver]
  rfl

/-- Behind a function the position is the one before, and what the body found out of a receiver counts
where it is a receiver that was there before. -/
theorem leaveFunction_holding (g : Generator) (p q : Progress) :
    leaveFunction shown receiver (g.holding p)
        ((enterFunction parameters shown receiver g).holding q) =
      g.holding { q with
        captured := if installs shown receiver g then p.captured else q.captured } := by
  unfold leaveFunction enterFunction
  rw [installs_holding]
  cases installs shown receiver g <;> rfl

/-- **A function is generated as it is lowered.** Its body may know of another receiver than what is
around it, or of none; a body without a receiver finds out nothing of any. -/
theorem does_function {exports : Bool} {convention : Emit.Convention} {f : FunctionBody}
    {statements : Step (List String)} {emit : Emit (List String)}
    (h : Does file (ctx.inFunction f.parameters convention.shown convention.receiver)
      ((ctx.inFunction f.parameters convention.shown convention.receiver).isTop && exports)
      statements emit)
    (hcaptured : (ctx.inFunction f.parameters convention.shown convention.receiver).receiver = none →
      ∀ p, (emit.run p).2.captured = p.captured) :
    Does file ctx false (function file convention { f with body := [] } statements)
      (if convention.receiver.isSome then do
        let (texts, captured) ← Emit.withReceiver emit
        return Emit.functionText ctx convention f.isVararg captured texts
      else return Emit.functionText ctx convention f.isVararg false (← emit)) := fun g p hctx => by
  subst hctx
  rw [exporting_false, function, functionParts_run, enterFunction_holding]
  rw [← context_enterFunction] at h
  have hblock := h.block.run _ { p with captured := convention.receiver.isNone && p.captured } rfl
  rw [hblock]
  dsimp only
  rw [leaveFunction_holding]
  obtain ⟨receiver, shown, onInstances⟩ := convention
  cases receiver with
  | some name => rfl
  | none =>
    let q := (emit.run p).2
    have hsame : (if installs shown none g then p.captured else q.captured) = q.captured := by
      split
      next hinstalls =>
        -- a parameter hides the receiver, so that the body has none
        have hnone : (enterFunction f.parameters shown none g).receiver = none := if_pos hinstalls
        refine (hcaptured ?_ p).symm
        rw [← context_enterFunction]
        exact congrArg (Option.map fun r => (⟨r.name, r.depth⟩ : Emit.Receiver)) hnone
      · rfl
    have hq : { q with captured := if installs shown none g then p.captured else q.captured } = q := by
      rw [hsame]
    exact Prod.ext rfl (congrArg g.holding hq)

/-! ## Roles -/

/-- A call has one form wherever its value is wanted. -/
theorem call_role {role : Emit.Role} (hrole : role ≠ .statement) (site : CallSite)
    (parts : Emit.CallParts) :
    Emit.call ctx role site parts = Emit.call ctx .single site parts := by
  have herror (message : String) : Emit.errorText role message = Emit.errorText .single message := by
    rw [Emit.errorText, Emit.errorText, if_neg hrole, if_neg nofun]
  unfold Emit.call
  simp only [herror]

/-- Only the rest of the arguments and the type of tables have forms of their own where one value is
wanted. -/
theorem expression_role (role : Emit.Role) (hrole : role ≠ .statement) {e : Expr}
    (hvararg : e.isVararg = true → role.vararg = Emit.Role.single.vararg)
    (hstring : role = .compared → CallSite.literal? e ≠ some "table") :
    Emit.expression ctx role e = Emit.expression ctx .single e := by
  obtain ⟨id, span, kind⟩ := e
  cases kind with
  | vararg => exact congrArg (fun text => Emit.around span (pure text)) (hvararg rfl)
  | string raw =>
    have htext : role.string raw = Emit.Role.single.string raw := by
      rw [Emit.Role.string, Emit.Role.string, if_neg (fun h => hstring h.1 (congrArg some h.2)),
        if_neg fun h => nomatch h.1]
    exact congrArg (fun text => Emit.around span (pure text)) htext
  | call base style arguments => exact congrArg (Emit.around span) (call_role hrole _ _)
  | _ => rfl

/-- The values of `...` are written by the role that they stand in. -/
theorem expression_vararg {e : Expr} (h : e.isVararg = true) (role : Emit.Role) :
    Emit.expression ctx role e = Emit.around e.span (pure role.vararg) := by
  obtain ⟨id, span, kind⟩ := e
  cases kind with
  | vararg => rfl
  | _ => cases h

/-! ## Rules for expressions -/

section Expressions

variable {step : Attempt String}

/-- A value in a list, of which the last can stand for several. -/
theorem Follows.listed {e : Expr} (h : Follows file ctx step (Emit.expression ctx .single e))
    (isLast : Bool) :
    Follows file ctx (Generator.listed e.raw.outline isLast step)
      (Emit.expression ctx (if isLast then .spread else .single) e) := by
  unfold Generator.listed
  rw [Expr.isVararg_outline, Expr.span_outline]
  cases hvararg : e.isVararg with
  | true =>
    rw [expression_vararg hvararg] at h ⊢
    cases isLast with
    | true => exact (does_fixed _ _).lift
    | false => exact h
  | false =>
    cases isLast with
    | true =>
      rw [if_pos rfl, expression_role .spread nofun (fun h => nomatch hvararg.symm.trans h) nofun]
      exact h
    | false => exact h

/-- Steps for values that follow the lowerings of some expressions. -/
structure Values.Follow (file : File) (ctx : Context) (es : List Expr) (steps : Values) : Prop where
  first : Follows file ctx steps.first (Emit.firstExpression ctx es)
  all : Follows file ctx steps.all (Emit.expressions ctx .spread es)

/-- The texts of two or more expressions are packed into an array. -/
theorem packText_expressions (first second : Expr) (rest : List Expr) (p : Progress) :
    (do return Emit.packText (← Emit.expressions ctx .spread (first :: second :: rest))).run p =
      (do return Emit.brackets (Emit.commas
        (← Emit.expressions ctx .spread (first :: second :: rest)))).run p := by
  have hlength := Emit.length_expressions ctx .spread (first :: second :: rest) p
  have hpack : ∀ texts : List String, texts.length = (first :: second :: rest).length →
      Emit.packText texts = Emit.brackets (Emit.commas texts)
    | _ :: _ :: _, _ => rfl
  exact Prod.ext (hpack _ hlength) rfl

/-- Values that are packed follow in the role that packing gives them. -/
theorem Values.Follow.pack {es : List Expr} {steps : Values} (h : steps.Follow file ctx es) :
    Follows file ctx (Generator.pack (es.map fun e => e.raw.outline) steps)
      (do return Emit.packText (← Emit.expressions ctx (Emit.packRole es) es)) := by
  match es with
  | [] => exact follows_pure ""
  | [only] =>
    have hone : (do return Emit.packText (← Emit.expressions ctx .packed [only])) =
        Emit.expression ctx .packed only := by
      simp [Emit.expressions, Emit.packText]
    have hrole : Emit.packRole [only] = .packed := rfl
    rw [hrole, hone, List.map_singleton]
    unfold Generator.pack
    dsimp only
    rw [Expr.isVararg_outline, Expr.span_outline]
    cases hvararg : only.isVararg with
    | true =>
      rw [expression_vararg hvararg]
      exact (does_fixed _ _).lift
    | false =>
      rw [expression_role .packed nofun (fun h => nomatch hvararg.symm.trans h) nofun]
      exact h.first
  | first :: second :: rest =>
    -- several values are spread into one list
    have hrole : Emit.packRole (first :: second :: rest) = .spread := if_neg (by simp)
    rw [hrole]
    exact (h.all.map fun texts => Emit.brackets (Emit.commas texts)).congr
      (packText_expressions first second rest)

/-- An operand that may be several values is written as one. -/
theorem Follows.operand {e : Expr} (h : Follows file ctx step (Emit.expression ctx .single e))
    (operator : BinaryOperator) :
    Follows file ctx (Generator.operand operator e.raw.outline step)
      (Emit.expression ctx (Emit.Role.operand operator) e) := by
  unfold Generator.operand
  rw [CallSite.literal?_outline, Expr.span_outline, Emit.Role.operand]
  cases operator.isComparison with
  | false => exact h
  | true =>
    by_cases htable : CallSite.literal? e = some "table"
    · have htext : Emit.expression ctx .compared e = Emit.around e.span (pure "\"object\"") := by
        obtain ⟨id, span, kind⟩ := e
        cases kind with
        | string raw =>
          exact congrArg (fun text => Emit.around span (pure text))
            (if_pos ⟨rfl, Option.some.inj htable⟩)
        | _ => cases htable
      rw [htable, if_pos rfl, htext]
      exact (does_fixed _ _).lift
    · rw [if_neg (by simpa using htable), if_pos rfl,
        expression_role .compared nofun (fun _ => rfl) fun _ => htable]
      exact h

variable {left right : Expr} {leftStep rightStep : Attempt String}

theorem Follows.binary (hleft : Follows file ctx leftStep (Emit.expression ctx .single left))
    (hright : Follows file ctx rightStep (Emit.expression ctx .single right))
    (operator : BinaryOperator) :
    Follows file ctx
      (Generator.binary file operator left.raw.outline right.raw.outline leftStep rightStep) (do
        let leftText ← Emit.expression ctx (Emit.Role.operand operator) left
        let rightText ← Emit.expression ctx (Emit.Role.operand operator) right
        return Emit.binaryText ctx operator (left.isString || right.isString) leftText
          rightText) := by
  refine (hleft.operand operator).bind fun leftText => (hright.operand operator).bind fun rightText =>
    .here ?_
  rw [Expr.isString_outline, Expr.isString_outline]
  exact follows_pure _

/-- A choice is made of the same three operands. -/
theorem Follows.logical {conjuncts : Attempt (String × String)} {emit : Emit (String × String)}
    (hconjuncts : Follows file ctx conjuncts emit)
    (hleft : Follows file ctx leftStep (Emit.expression ctx .single left))
    (hright : Follows file ctx rightStep (Emit.expression ctx .single right))
    (operator : LogicalOperator) :
    Follows file ctx
      (Generator.logical file operator left.raw.outline right.raw.outline conjuncts leftStep rightStep)
      (do
        if operator = .or && Emit.isConjunction left && !Emit.isLogical right then
          let (condition, consequent) ← emit
          return Emit.conditionalText condition consequent (← Emit.expression ctx .single right)
        else
          let leftText ← Emit.expression ctx .single left
          let rightText ← Emit.expression ctx .single right
          return Emit.logicalText ctx operator (Emit.isRepeatable left) leftText rightText) := by
  unfold Generator.logical
  rw [Emit.isConjunction_outline, Emit.isLogical_outline, Emit.isRepeatable_outline]
  refine .ite (fun _ => ?_) fun _ => ?_
  · exact hconjuncts.bind fun _ => hright.map _
  · exact hleft.bind fun _ => hright.bind fun _ => .here (follows_pure _)

theorem Follows.unary {e : Expr} (h : Follows file ctx step (Emit.expression ctx .single e))
    (operator : UnaryOperator) :
    Follows file ctx (Generator.unary file operator step)
      (do return Emit.unaryText ctx operator (← Emit.expression ctx .single e)) :=
  h.bind fun _ => .here (follows_pure _)

theorem Follows.member {base : Expr} (h : Follows file ctx step (Emit.expression ctx .single base))
    (identifier : Identifier) :
    Follows file ctx (Generator.member file base.raw.outline identifier step) (do
      Emit.useMember ctx base identifier
      return Emit.memberText (Emit.asBase base (← Emit.expression ctx .single base)) identifier) := by
  unfold Generator.member
  simp only [Emit.useMember_outline, Emit.asBase_outline]
  exact .here ((does_trace (blind_useMember _ _)).lift.bind fun _ => h.map _)

/-! ### Tables -/

/-- Fields without keys give values and nothing else. -/
theorem entries_positional (role : Emit.Role) : ∀ (fields : List Field) (p : Progress),
    fields.all (·.kind.isPositional) = true →
    ((((Emit.entries ctx role fields).run p).1.map Emit.Entry.value).map .positional) =
      ((Emit.entries ctx role fields).run p).1
  | [], _, _ => rfl
  | ⟨_, _, .positional _⟩ :: rest, _, h => by
    have ih := entries_positional role rest
    rw [List.all_cons, Bool.and_eq_true] at h
    exact congrArg (List.cons _) (ih _ h.2)
  | ⟨_, _, .named ..⟩ :: _, _, h | ⟨_, _, .keyed ..⟩ :: _, _, h => by cases h

/-- Without the rest of the arguments at its end, a list of values has one form. -/
theorem entries_spread : ∀ fields : List Field, fields.all (·.kind.isPositional) = true →
    fields.getLast?.any (·.kind.value.isVararg) = false →
    Emit.entries ctx .spread fields = Emit.entries ctx .single fields
  | [], _, _ => rfl
  | [⟨_, _, .positional value⟩], _, hlast => by
    have hvalue : Emit.expression ctx .spread value = Emit.expression ctx .single value :=
      expression_role .spread nofun (fun h => nomatch hlast.symm.trans h) nofun
    simp only [Emit.entries, List.isEmpty_nil, if_true, Emit.entry, hvalue]
  | [⟨_, _, .named ..⟩], h, _ | [⟨_, _, .keyed ..⟩], h, _ => by cases h
  | ⟨_, _, kind⟩ :: second :: rest, h, hlast => by
    rw [List.all_cons, Bool.and_eq_true] at h
    rw [List.getLast?_cons_cons] at hlast
    simp only [Emit.entries.eq_2, entries_spread (second :: rest) h.2 hlast, List.isEmpty_cons,
      Bool.false_eq_true, if_false]

/-- **A table is written from the same entries**, which are spread if all are positional. -/
theorem Follows.table {fields : List Field} {values : Attempt (List String)}
    {entries : Attempt (List Emit.Entry)}
    (hvalues : fields.all (·.kind.isPositional) = true → Follows file ctx values
      (do return (← Emit.entries ctx .spread fields).map Emit.Entry.value))
    (hentries : Follows file ctx entries (Emit.entries ctx .single fields)) :
    Follows file ctx (Generator.table (Raw.fieldOutlines (rawFields fields)) values entries)
      (do
        let last := if Emit.spreadsFields fields then .spread else .single
        return Emit.tableText fields (← Emit.entries ctx last fields)) := by
  -- the rule looks at the outlines of the fields, which are as many and of the same kinds
  have hempty : (Raw.fieldOutlines (rawFields fields)).isEmpty = fields.isEmpty := by
    rw [fieldOutlines_raw, List.isEmpty_map]
  have hall : (Raw.fieldOutlines (rawFields fields)).all (·.kind.isPositional) =
      fields.all (·.kind.isPositional) := by
    rw [fieldOutlines_raw, List.all_map]
    exact congrArg (fields.all ·) (funext fun field => field.kind.isPositional_outline)
  unfold Generator.table
  rw [hempty, hall, Emit.spreadsFields_outline]
  cases fields with
  | nil => exact follows_pure _
  | cons first rest =>
    rw [List.isEmpty_cons, if_neg Bool.false_ne_true]
    cases hpositional : (first :: rest).all (·.kind.isPositional) with
    | true =>
      rw [if_pos rfl]
      cases hspreads : Emit.spreadsFields (first :: rest) with
      | true =>
        simp only [if_true]
        refine (((hvalues hpositional).map fun items => "l2j.convertJsArrayToLuaTable" ++
          Emit.parens (Emit.brackets (Emit.commas items))).congr fun p => ?_)
        simp [Emit.tableText, hspreads]
      | false =>
        -- a table whose last field does not spread takes its values one by one
        have hlast : (first :: rest).getLast?.any (·.kind.value.isVararg) = false := by
          rw [Emit.spreadsFields, hpositional, Bool.true_and] at hspreads
          exact hspreads
        rw [entries_spread _ hpositional hlast] at hvalues
        simp only [Bool.false_eq_true, if_false]
        refine ((hvalues hpositional).map fun items =>
          Emit.braced (Emit.commas (Emit.entryTexts 1 (items.map .positional)))).congr fun p => ?_
        have htext (entries : List Emit.Entry)
            (h : (entries.map Emit.Entry.value).map .positional = entries) :
            Emit.tableText (first :: rest) entries = Emit.braced (Emit.commas
              (Emit.entryTexts 1 ((entries.map Emit.Entry.value).map .positional))) := by
          rw [h, Emit.tableText, hspreads, if_neg Bool.false_ne_true]
        exact Prod.ext (htext _ (entries_positional _ _ _ hpositional)) rfl
    | false =>
      have hspreads : Emit.spreadsFields (first :: rest) = false := by
        rw [Emit.spreadsFields, hpositional, Bool.false_and]
      rw [if_neg Bool.false_ne_true, hspreads, if_neg Bool.false_ne_true]
      refine (hentries.map fun entries =>
        Emit.braced (Emit.commas (Emit.entryTexts 1 entries))).congr fun p => ?_
      simp [Emit.tableText, hspreads]

end Expressions

/-! ## Rules for classes and calls -/

section Calls

/-- Steps for a class that follow the lowerings of the arguments of `class`. -/
structure ClassSteps.Follow (file : File) (ctx : Context) (arguments : List Expr)
    (steps : ClassSteps) : Prop where
  members : ∀ id span fields rest, arguments = ⟨id, span, .table fields⟩ :: rest →
    Does file ctx.asValue false steps.members (Emit.members ctx.asValue fields)
  parent : Follows file ctx steps.parent (Emit.secondExpression ctx arguments)

/-- **A native class.** -/
theorem ClassSteps.Follow.nativeClass {arguments : List Expr} {steps : ClassSteps}
    (h : steps.Follow file ctx arguments) (hnative : Emit.isNativeClass arguments = true)
    (name : Option String) :
    Follows file ctx (Generator.nativeClass name (arguments.map fun e => e.raw.outline) steps) (do
      let (members, parent) ← Emit.classBody ctx arguments
      return Emit.classText name parent members) := by
  obtain ⟨id, span, fields, behind, rfl⟩ := Emit.isNativeClass_cases hnative
  have hparent : Follows file ctx
      (Generator.parent (behind.map fun e => e.raw.outline) steps.parent)
      (Emit.parent ctx behind) := by
    cases behind with
    | nil => exact follows_pure none
    | cons first rest =>
      rw [List.map_cons, Generator.parent]
      simp only [Emit.asBase_outline]
      exact h.parent.map fun text => some (Emit.asBase first text)
  have hclass := (h.members id span fields behind rfl).classBody.lift.bind fun members =>
    hparent.map fun parent => Emit.classText name parent members
  exact hclass.congr fun p => rfl

/-- Steps for the parts of a call that follow the lowerings of the parts. -/
structure CallSteps.Follow (file : File) (ctx : Context) (site : CallSite) (steps : CallSteps)
    (parts : Emit.CallParts) : Prop where
  callee : Follows file ctx steps.callee parts.callee
  owner : Follows file ctx steps.owner parts.owner
  arguments : Follows file ctx steps.arguments parts.arguments
  firstArgument : Follows file ctx steps.firstArgument parts.firstArgument
  native : Emit.isNativeClass site.arguments = true → ∀ name, Follows file ctx
    (nativeClass name site.outline.arguments steps.native) (do
      let (members, parent) ← parts.classBody
      return Emit.classText name parent members)

variable {site : CallSite} {steps : CallSteps} {parts : Emit.CallParts}

theorem follows_useSystemFunction (library name : String) :
    Follows file ctx (lift (trace (Emit.useSystemFunction library name)))
      (Emit.useSystemFunction library name) :=
  (does_trace (blind_useSystemFunction library name)).lift

theorem follows_genericCall (h : steps.Follow file ctx site parts) :
    Follows file ctx (genericCall file site.outline steps) (Emit.genericCall ctx site parts) := by
  unfold genericCall Emit.genericCall CallSite.outline
  simp only [Emit.asBase_outline]
  exact h.callee.bind fun _ => h.arguments.bind fun _ => .here (follows_pure _)

theorem follows_supportCall (h : steps.Follow file ctx site parts) (function : String) :
    Follows file ctx (supportCall steps function) (Emit.supportCall parts function) :=
  h.arguments.map _

theorem follows_libraryCall (h : steps.Follow file ctx site parts) (library name : String) :
    Follows file ctx (libraryCall steps library name) (Emit.libraryCall parts library name) :=
  (follows_useSystemFunction library name).bind fun _ => follows_supportCall h _

/-- A call with the receiver is decided by the globals read so far. -/
theorem follows_selfCall (h : steps.Follow file ctx site parts) (owner : Expr)
    (identifier : Identifier) :
    Follows file ctx (selfCall file site.outline steps owner.raw.outline identifier)
      (Emit.selfCall ctx site parts owner identifier) := by
  unfold selfCall Emit.selfCall CallSite.outline
  simp only [Emit.isForeignGlobal_outline, Emit.asBase_outline, Emit.keepsPath_outline]
  refine .here (.read fun g p => .ite (fun _ => ?_) fun _ => ?_)
  · exact h.callee.bind fun _ => h.arguments.map _
  · exact h.owner.bind fun _ => h.arguments.map _

theorem follows_select (h : steps.Follow file ctx site parts) (index : Expr) :
    Follows file ctx (select index.raw.outline steps.firstArgument)
      (Emit.selectText index parts.firstArgument) := by
  have hother := h.firstArgument.map fun text => "varargs" ++ Emit.brackets (text ++ " - 1")
  obtain ⟨id, span, kind⟩ := index
  cases kind with
  | number value raw => exact follows_pure _
  | _ => exact hother

theorem follows_classCall (h : steps.Follow file ctx site parts) :
    Follows file ctx (classCall site.outline steps) (Emit.classCall site parts) := by
  have hnative : Emit.isNativeClass site.outline.arguments = Emit.isNativeClass site.arguments :=
    Emit.isNativeClass_outline _
  unfold classCall Emit.classCall
  rw [hnative]
  exact .ite (fun hnative => h.native hnative none) fun _ => h.arguments.map _

/-- **A call is generated as it is lowered**, whatever its pattern; that the rules for the patterns find
what they take apart keeps their failures away. -/
theorem follows_call (role : Emit.Role) (h : steps.Follow file ctx site parts) :
    Follows file ctx (call file role site.outline steps) (Emit.call ctx role site parts) := by
  refine .within fun ⟨hoptions, _, _⟩ => ?_
  have hserved := Emit.isServed ctx site
  have hname : site.outline.base.name? = site.base.name? := Expr.name?_outline _
  have hqualified : site.outline.base.qualifiedName? = site.base.qualifiedName? :=
    Expr.qualifiedName?_outline _
  refine .here ?_
  -- the generator looks for the pattern in the outline, where it is the same
  rw [Emit.patternAt_outline]
  unfold callBy Emit.call
  cases hpattern : Emit.patternAt ctx site with
  | classFactory => exact follows_classCall h
  | selectLength => exact follows_pure _
  | selectIndex =>
    -- the pattern gives the shape, so the failing branch of the rule is not taken
    obtain ⟨index, rest, harguments⟩ := hserved.selectIndex hpattern
    have houtline : site.outline.arguments = [index.raw.outline, rest.raw.outline] :=
      congrArg (List.map fun e : Expr => e.raw.outline) harguments
    dsimp only
    rw [houtline, harguments]
    exact follows_select h index
  | stringFormat => exact follows_libraryCall h _ _
  | error => exact h.firstArgument.map _
  | tableInsert => exact follows_libraryCall h _ _
  | tableInsertAt => exact follows_libraryCall h _ _
  | tableConcat => exact (follows_useSystemFunction _ _).bind fun _ => h.arguments.map _
  | type => exact follows_supportCall h _
  | systemFunction =>
    obtain ⟨library, name, hnames⟩ := hserved.systemFunction hpattern
    dsimp only
    rw [hqualified, hnames]
    exact follows_libraryCall h _ _
  | require => exact follows_supportCall h _
  | selfCall =>
    obtain ⟨owner, indexer, identifier, hkind⟩ := hserved.selfCall hpattern
    have houtline : site.outline.base.kind = .member owner.raw.outline indexer identifier := by
      rw [CallSite.outline, Expr.kind_outline, hkind]
      rfl
    dsimp only
    rw [houtline, hkind]
    exact follows_selfCall h owner identifier
  | valueType =>
    dsimp only
    rw [hname, hoptions]
    exact h.arguments.map _
  | assert => exact follows_supportCall h _
  | generic => exact follows_genericCall h

end Calls

/-! ## Rules for declarations and assignments -/

section Bindings

variable {vars : List Identifier} {targets init : List Expr}

/-- What a loop or a binding packs follows in the role of its values. -/
theorem Values.Follow.packFor {steps : Values} (h : steps.Follow file ctx init) :
    Follows file ctx (Generator.packFor (init.map fun e => e.raw.outline) steps)
      (do return Emit.packValues init (← Emit.expressions ctx (Emit.valuesRole init) init)) := by
  match init with
  | [] => exact h.pack
  | [only] =>
    unfold Generator.packFor Emit.packValues Emit.valuesRole
    dsimp only [List.map_singleton]
    rw [Emit.isMultiValue_outline]
    cases Emit.isMultiValue only with
    | true => exact h.pack
    | false =>
      refine (h.first.map Emit.brackets).congr fun p => ?_
      have hone (text : String) : Emit.commas [text] = text := String.intercalate_singleton
      simp [Emit.expressions, Emit.firstExpression, hone]
  | first :: second :: rest =>
    have hrole : Emit.packRole (first :: second :: rest) = .spread := if_neg (by simp)
    have hpack := h.pack
    rw [hrole] at hpack
    exact hpack

/-- Several targets or several values are bound as one pattern to one array. -/
theorem bind_of_many {targets : Emit.Targets} (h : ¬(targets.texts.length = 1 ∧ init.length = 1))
    (values : List String) :
    Emit.bind ctx targets init values =
      pure (Emit.bindMany targets (Emit.packValues init values)) := by
  unfold Emit.bind
  split
  next htexts _ => exact absurd ⟨by rw [htexts]; rfl, rfl⟩ h
  next htexts _ => exact absurd ⟨by rw [htexts]; rfl, rfl⟩ h
  · rfl

/-- **Values are bound alike**, one alone or several packed. -/
theorem Values.Follow.bind {steps : Values} (h : steps.Follow file ctx init) (hinit : init ≠ [])
    {targets : Emit.Targets} (htargets : targets.texts ≠ []) :
    Follows file ctx (Generator.bind file targets (init.map fun e => e.raw.outline) steps)
      (Emit.expressions ctx (Emit.bindRole targets.texts.length init) init >>=
        Emit.bind ctx targets init) := by
  have hinit := List.length_pos_iff.2 hinit
  have htargets := List.length_pos_iff.2 htargets
  unfold Generator.bind
  rw [List.length_map]
  -- one value for one target is lowered by itself, any others as a list
  by_cases hone : targets.texts.length = 1 ∧ init.length = 1
  · rw [if_pos ⟨hone.1.le, hone.2.le⟩, Emit.bindRole, if_pos hone]
    obtain ⟨text, htexts⟩ := List.length_eq_one_iff.1 hone.1
    obtain ⟨node, rfl⟩ := List.length_eq_one_iff.1 hone.2
    have hemit : Emit.expressions ctx .single [node] >>= Emit.bind ctx targets [node] =
        Emit.expression ctx .single node >>= fun value => Emit.bind ctx targets [node] [value] := by
      simp only [Emit.expressions, bind_assoc, pure_bind]
    rw [hemit]
    refine h.first.bind fun value => ?_
    unfold Emit.bind
    rw [htexts]
    -- of the targets, a single name is bound by its own rule
    cases targets.single with
    | none => exact follows_pure _
    | some name =>
      rw [List.map_singleton]
      simp only [Emit.bindName_outline]
      exact .here (does_trace (blind_bindName _ _ _ _)).lift
  · have hmany : Emit.bind ctx targets init =
        fun values => pure (Emit.bindMany targets (Emit.packValues init values)) :=
      funext (bind_of_many hone)
    rw [if_neg fun hle => hone ⟨by omega, by omega⟩, Emit.bindRole, if_neg hone, hmany]
    exact (h.packFor.map fun packed => Emit.bindMany targets packed).congr fun p => rfl

/-- Values are kept, and what comes behind them is where the statement is. -/
theorem Follows.valued {attempt : Attempt α} {emit : Emit α}
    {next : Except Unsupported α → Attempt β} {more : α → Emit β}
    (h : Follows file ctx.asValue attempt emit)
    (hnext : ∀ a, Follows file ctx (next (.ok a)) (more a)) :
    Follows file ctx (do
      let valueContext := (← get).valueContext
      modify fun g => { g with valueContext := true }
      let outcome ← Generator.lift (observe attempt)
      modify fun g => { g with valueContext := valueContext }
      next outcome) (emit >>= more) := fun g p hctx => by
  have hinner := h { g with valueContext := true } p (by subst hctx; rfl)
  have hrun : (observe (do
      let valueContext := (← get).valueContext
      modify fun g => { g with valueContext := true }
      let outcome ← Generator.lift (observe attempt)
      modify fun g => { g with valueContext := valueContext }
      next outcome)).run (g.holding p) =
        let inner := (observe attempt).run (holding { g with valueContext := true } p)
        (observe (next inner.1)).run { inner.2 with valueContext := g.valueContext } := rfl
  rw [hrun, hinner]
  exact hnext _ g _ hctx

/-- Steps for a `local` statement that follow the lowerings of its parts. -/
structure LocalSteps.Follow (file : File) (ctx : Context) (init : List Expr) (steps : LocalSteps)
    (parts : Emit.LocalParts) : Prop where
  arguments : Follows file ctx steps.arguments parts.arguments
  native : ∀ id span base style arguments, init = [⟨id, span, .call base style arguments⟩] →
    Emit.isNativeClass arguments = true → ∀ name, Follows file ctx
      (nativeClass name (arguments.map fun e => e.raw.outline) steps.native) (do
        let (members, parent) ← parts.classBody
        return Emit.classText name parent members)
  values : steps.values.Follow file ctx.asValue init

/-- A class that a `local` statement defines, or none. -/
theorem LocalSteps.Follow.localClass {steps : LocalSteps} {parts : Emit.LocalParts} {v : Identifier}
    {value : Expr} (h : steps.Follow file ctx [value] parts) :
    Follows file ctx (Generator.localClass file [v] [value.raw.outline] steps)
      (match Emit.localClass? ctx v value parts with
      | some emit => do return some (← emit)
      | none => return none) := by
  have hdeclare (name : String) : Follows file ctx (lift (trace (Emit.declareClass name)))
      (Emit.declareClass name) := (does_trace (blind_declareClass name)).lift
  refine .within fun ⟨_, _, hname⟩ => .here ?_
  unfold Emit.localClass?
  rw [Emit.isEmptyTable_outline, ← hname]
  dsimp only
  split
  · exact ((hdeclare _).map fun _ => _).congr fun p => rfl
  · obtain ⟨id, span, kind⟩ := value
    cases kind with
    | call base style arguments =>
      -- the outline keeps the callee and the arguments, which the test reads
      have houtline : (Expr.mk id span (.call base style arguments)).raw.outline =
          ⟨id, span, .call base.raw.outline .arguments (arguments.map fun e => e.raw.outline)⟩ := by
        rw [Expr.outline_eq, ← outlines_raw]
        rfl
      rw [houtline]
      dsimp only
      rw [Emit.isClassCall_outline, Emit.isNativeClass_outline]
      cases Emit.isClassCall base arguments with
      | false => exact follows_pure _
      | true =>
        cases hnative : Emit.isNativeClass arguments with
        | true =>
          refine ((h.native id span base style arguments rfl hnative _).map some).congr fun p => rfl
        | false =>
          -- the class is declared at the top level only
          have hcreate := h.arguments.map fun texts =>
            some ("let " ++ ctx.declaredName v ++ " = " ++ Emit.createClassText texts)
          cases htop : ctx.isTop with
          | true => exact ((hdeclare _).bind fun _ => hcreate).congr fun p => rfl
          | false => exact hcreate.congr fun p => rfl
    | _ => exact follows_pure _

/-- A `local` statement that defines no class. -/
theorem LocalSteps.Follow.binding {steps : LocalSteps} {parts : Emit.LocalParts}
    (h : steps.Follow file ctx init parts) (hvars : vars ≠ [])
    (hvalues : parts.values = Emit.expressions ctx.asValue (Emit.bindRole vars.length init) init)
    (id : NodeId) (hclass : Follows file ctx
      (Generator.localClass file vars (init.map fun e => e.raw.outline) steps) (pure none)) :
    Follows file ctx
      (Generator.localStatement file id vars (init.map fun e => e.raw.outline) steps)
      (Emit.localBinding ctx id vars init parts) := by
  have hlength : (Emit.localTargets ctx id vars).2.texts.length = vars.length :=
    Emit.length_localTargets ctx id vars
  -- the generator looks for a class first, and there is none
  have hbinding : Follows file ctx
      (Generator.localStatement file id vars (init.map fun e => e.raw.outline) steps)
      (pure (none : Option String) >>= fun _ => Emit.localBinding ctx id vars init parts) := by
    refine hclass.bind_of (P := (· = none)) (fun _ => rfl) fun text htext => ?_
    subst htext
    refine .here ?_
    unfold Emit.localBinding
    rw [List.isEmpty_map]
    dsimp only
    refine .ite (fun _ => follows_pure _) fun hinit => ?_
    have htargets : (Emit.localTargets ctx id vars).2.texts ≠ [] := by
      rwa [← List.length_pos_iff, hlength, List.length_pos_iff]
    have hbind := h.values.bind (by simpa using hinit) htargets
    rw [hlength, ← hvalues] at hbind
    rw [← bind_assoc]
    exact hbind.valued fun text => follows_pure _
  exact hbinding

/-- **A `local` statement.** -/
theorem LocalSteps.Follow.localStatement {steps : LocalSteps} {parts : Emit.LocalParts}
    (h : steps.Follow file ctx init parts) (hvars : vars ≠ [])
    (hvalues : parts.values =
      Emit.expressions ctx.asValue (Emit.bindRole vars.length init) init) (id : NodeId) :
    Follows file ctx
      (Generator.localStatement file id vars (init.map fun e => e.raw.outline) steps)
      (Emit.localStatement ctx id vars init parts) := by
  have hbinding := h.binding hvars hvalues id
  rcases vars with _ | ⟨v, _ | ⟨w, more⟩⟩
  · exact absurd rfl hvars
  · rcases init with _ | ⟨value, _ | ⟨other, rest⟩⟩
    · exact hbinding (follows_pure none)
    · have hclass := h.localClass (v := v)
      unfold Emit.localStatement
      dsimp only
      cases hemit : Emit.localClass? ctx v value parts with
      | none =>
        rw [hemit] at hclass
        exact hbinding hclass
      | some emit =>
        rw [hemit] at hclass
        exact hclass.found
    · exact hbinding (follows_pure none)
  · exact hbinding (follows_pure none)
/-- Steps for an assignment that follow the lowerings of its parts. -/
structure AssignmentSteps.Follow (file : File) (ctx : Context) (targets init : List Expr)
    (steps : AssignmentSteps) (parts : Emit.AssignmentParts) : Prop where
  indexBase : Follows file ctx steps.indexBase parts.indexBase
  firstTarget : Follows file ctx steps.firstTarget parts.firstTarget
  firstValue : Follows file ctx steps.values.first parts.firstValue
  native : ∀ id span base style arguments, init = [⟨id, span, .call base style arguments⟩] →
    Emit.isNativeClass arguments = true → ∀ name, Follows file ctx
      (nativeClass name (arguments.map fun e => e.raw.outline) steps.native) (do
        let (members, parent) ← parts.classBody
        return Emit.classText name parent members)
  targets : Follows file ctx.asValue steps.targets
    (Emit.expressions ctx.asValue .single targets)
  values : steps.values.Follow file ctx.asValue init

variable {steps : AssignmentSteps} {parts : Emit.AssignmentParts}

/-- A value that is put one behind the end of a table. -/
theorem AssignmentSteps.Follow.append (h : steps.Follow file ctx targets init parts) {base : Expr}
    (happend : Emit.appendBase? targets init = some base) :
    Follows file ctx
      (Generator.assignment file (targets.map fun e => e.raw.outline)
        (init.map fun e => e.raw.outline) steps)
      (Emit.assignment ctx targets init parts) := by
  have houtline := Emit.appendBase?_outline targets init
  rw [happend, Option.map_some] at houtline
  have htable : Follows file ctx
      (Generator.lengthAppend (targets.map fun e => e.raw.outline)
        (init.map fun e => e.raw.outline) steps) (do
      Emit.useSystemFunction "table" "insert"
      let table := Emit.asBase base (← parts.indexBase)
      return some (Emit.callText "l2j.table.insert" [table, ← parts.firstValue])) := by
    unfold Generator.lengthAppend
    rw [houtline]
    simp only [Emit.asBase_outline]
    exact (follows_useSystemFunction _ _).bind fun _ => h.indexBase.bind fun _ =>
      h.firstValue.map _
  unfold Emit.assignment
  rw [happend]
  exact Follows.found htable

/-- A native class that is assigned to a target. -/
theorem AssignmentSteps.Follow.assignedClass {target : Expr} {id : NodeId} {span : Span}
    {base : Expr} {style : CallStyle} {arguments : List Expr}
    (h : steps.Follow file ctx targets [⟨id, span, .call base style arguments⟩] parts)
    (hclass : (Emit.isClassCall base arguments && Emit.isNativeClass arguments) = true) :
    Follows file ctx
      (Generator.assignedClass file [target.raw.outline]
        [Expr.raw ⟨id, span, .call base style arguments⟩ |>.outline] steps)
      (do return some (← Emit.assignClass ctx target parts)) := by
  -- the outline keeps the callee and the arguments, which the test reads
  have houtline : (Expr.mk id span (.call base style arguments)).raw.outline =
      ⟨id, span, .call base.raw.outline .arguments (arguments.map fun e => e.raw.outline)⟩ := by
    rw [Expr.outline_eq, ← outlines_raw]
    rfl
  have hnative := h.native id span base style arguments rfl (Bool.and_eq_true_iff.1 hclass).2
  refine .within fun ⟨_, hannotations, _⟩ => ?_
  unfold Generator.assignedClass Emit.assignClass
  rw [houtline]
  dsimp only
  rw [Emit.isClassCall_outline, Emit.isNativeClass_outline, hclass, if_pos rfl,
    Expr.kind_outline, Expr.id_outline, ← hannotations]
  cases target.kind with
  | name name =>
    let className := Name.asBinding (ctx.annotations.resolve target.id name)
    refine .here fun g p hctx => ?_
    -- the name is looked up in the registries before the class is written
    let lead := if p.registries.isGlobalRead name &&
        !ctx.annotations.localReferences.contains target.id && !ctx.isParameter name then
      "globalThis." else ""
    exact (hnative (some className)).map (fun text => some (lead ++ className ++ " = " ++ text))
      g p hctx
  | _ => exact (h.firstTarget.bind fun text => (hnative none).map _).congr fun p => rfl

/-- An assignment that defines a class has one target and a call of `class` for its one value. -/
theorem definesClass_cases (h : Emit.definesClass targets init = true) :
    ∃ target id span base style arguments, targets = [target] ∧
      init = [⟨id, span, .call base style arguments⟩] ∧
      (Emit.isClassCall base arguments && Emit.isNativeClass arguments) = true := by
  unfold Emit.definesClass at h
  split at h
  next target id span base style arguments =>
    exact ⟨target, id, span, base, style, arguments, rfl, rfl, h⟩
  · cases h

/-- No class is assigned where the values do not say so. -/
theorem assignedClass_of_not (h : Emit.definesClass targets init = false) :
    assignedClass file (targets.map fun e => e.raw.outline) (init.map fun e => e.raw.outline) steps =
      pure none := by
  rcases targets with _ | ⟨target, _ | ⟨second, more⟩⟩
  · rfl
  · rcases init with _ | ⟨⟨id, span, kind⟩, _ | ⟨other, rest⟩⟩
    · rfl
    · cases kind with
      | call base style arguments =>
        have hcall : (Emit.isClassCall base arguments && Emit.isNativeClass arguments) = false := h
        have houtline : (Expr.mk id span (.call base style arguments)).raw.outline =
            ⟨id, span, .call base.raw.outline .arguments (arguments.map fun e => e.raw.outline)⟩ := by
          rw [Expr.outline_eq, ← outlines_raw]
          rfl
        unfold assignedClass
        rw [List.map_singleton, List.map_singleton, houtline]
        dsimp only
        rw [Emit.isClassCall_outline, Emit.isNativeClass_outline, hcall, if_neg Bool.false_ne_true]
      | _ => rfl
    · simp [assignedClass]
  · rfl

/-- **An assignment.** -/
theorem AssignmentSteps.Follow.assignment (h : steps.Follow file ctx targets init parts)
    (htargets : targets ≠ []) (hinit : init ≠ [])
    (htexts : parts.targets = Emit.expressions ctx.asValue .single targets)
    (hvalues : parts.values =
      Emit.expressions ctx.asValue (Emit.bindRole targets.length init) init) :
    Follows file ctx
      (Generator.assignment file (targets.map fun e => e.raw.outline)
        (init.map fun e => e.raw.outline) steps)
      (Emit.assignment ctx targets init parts) := by
  cases happend : Emit.appendBase? targets init with
  | some base => exact h.append happend
  | none =>
    -- the rules are tried in the same order: an append, a class, and any other assignment
    have hnone : lengthAppend (targets.map fun e => e.raw.outline)
        (init.map fun e => e.raw.outline) steps = pure none := by
      unfold lengthAppend
      rw [Emit.appendBase?_outline, happend]
      rfl
    unfold Generator.assignment Emit.assignment
    rw [hnone, pure_bind, happend]
    dsimp only
    cases hclass : Emit.definesClass targets init with
    | true =>
      obtain ⟨target, id, span, base, style, arguments, rfl, rfl, hcall⟩ :=
        definesClass_cases hclass
      exact (h.assignedClass hcall).found
    | false =>
      rw [assignedClass_of_not hclass, pure_bind]
      dsimp only
      have hbind : Follows file ctx.asValue
          (assignValues file (targets.map fun e => e.raw.outline)
            (init.map fun e => e.raw.outline) steps)
          (parts.targets >>= fun texts => parts.values >>=
            Emit.bind ctx.asValue (Emit.assignedTargets ctx targets texts) init) := by
        rw [htexts, hvalues]
        refine h.targets.bind_of (P := fun texts => texts.length = targets.length)
          (Emit.length_expressions _ _ _) fun texts hlength => .here ?_
        have htexts : (Emit.assignedTargets ctx targets texts).texts = texts := by
          unfold Emit.assignedTargets
          split <;> rfl
        -- each target has one text, so there is one to bind to
        have hnonempty : (Emit.assignedTargets ctx targets texts).texts ≠ [] := by
          rw [htexts, ← List.length_pos_iff, hlength, List.length_pos_iff]
          exact htargets
        have hvalue := h.values.bind hinit hnonempty
        rw [htexts, hlength] at hvalue
        rw [Emit.assignedTargets_outline]
        exact hvalue
      refine (hbind.valued fun text => follows_pure text).congr fun p => ?_
      rfl

end Bindings

/-! ## Rules for functions and control -/

section Control

variable {statements : Step (List String)} {f : FunctionBody}

/-- A function statement for a name. -/
theorem follows_namedFunction (name : Identifier) (isLocal : Bool) (base : Attempt String)
    (h : Does file ctx false (function file (.plain f) { f with body := [] } statements)
      (Emit.function ctx (.plain f) f)) :
    Follows file ctx
      (functionStatement file (some ⟨name.id, name.span, .name name.name⟩) isLocal
        { f with body := [] } base statements) (do
      let text ← Emit.function ctx (.plain f) f
      return text.named (ctx.declaredName name) isLocal
        (ctx.annotations.redeclared.contains name.id)) := by
  refine .within fun ⟨_, hannotations, _⟩ => ?_
  unfold functionStatement Context.declaredName
  rw [hannotations]
  exact h.lift.map _

/-- A function statement for a member of a base. -/
theorem follows_memberFunction (id : NodeId) (span : Span) {base : Expr} {indexer : Indexer}
    (name : Identifier) {step : Attempt String}
    (hbase : Follows file ctx step (Emit.expression ctx .single base))
    (h : Does file ctx false
      (function file (.ofIndexer indexer f) { f with body := [] } statements)
      (Emit.function ctx (.ofIndexer indexer f) f)) :
    Follows file ctx
      (functionStatement file (some ⟨id, span, .member base.raw.outline indexer name⟩) false
        { f with body := [] } step statements) (do
      let baseText := Emit.asBase base (← Emit.expression ctx .single base)
      let text ← Emit.function ctx (.ofIndexer indexer f) f
      return text.assigned (.ofIndexer indexer f) baseText name) := by
  have hconvention : Emit.Convention.ofIndexer indexer { f with body := [] } =
      .ofIndexer indexer f := by
    cases indexer <;> rfl
  unfold functionStatement
  dsimp only
  rw [hconvention]
  simp only [Emit.asBase_outline]
  exact hbase.bind fun _ => h.lift.map _

/-- **A `return`**, which only the chunk and functions have. -/
theorem settles_returnStatement {arguments : List Expr} {second : Attempt String} {values : Values}
    (hsecond : Follows file ctx second (Emit.secondExpression ctx arguments))
    (hvalues : values.Follow file ctx arguments) (span : Span) :
    Settles file ctx (ctx.isTop && !Emit.isFailure arguments) span
      (returnStatement file (arguments.map fun e => e.raw.outline) second values)
      (if Emit.allowsReturn ctx then
        Emit.returnStatement ctx arguments (Emit.secondExpression ctx arguments)
          (Emit.expressions ctx (Emit.packRole arguments) arguments)
      else Emit.contain .returnOutsideFunction span) := by
  refine .here ?_
  rw [Emit.isFailure_outline]
  unfold Emit.returnStatement
  cases hallowed : Emit.allowsReturn ctx with
  | false =>
    -- where no `return` is allowed, the statement is not at the top of the file
    have htop : ctx.isTop = false := (Bool.or_eq_false_iff.1 hallowed).1
    rw [htop]
    exact settles_throw _ _
  | true =>
    rw [Bool.not_true, if_neg Bool.false_ne_true, if_pos rfl]
    cases hfailure : Emit.isFailure arguments with
    | true =>
      rw [if_pos rfl, if_pos rfl, Bool.not_true, Bool.and_false]
      exact (hsecond.map _).settles span
    | false =>
      rw [if_neg Bool.false_ne_true, if_neg Bool.false_ne_true, Bool.not_false, Bool.and_true]
      -- what is left to compare is the end of the rule, which marks a file that exports
      have hexport (packed : String) : Exports file ctx ctx.isTop (do
          let ctx ← lift (here file)
          if ctx.isTop then
            modify fun g => { g with exported := true }
            return Emit.exportText ctx (← get).classes packed
          else return Emit.returnText packed) (do
          if ctx.isTop then return Emit.exportText ctx (← get).classes packed
          else return Emit.returnText packed) := by
        cases htop : ctx.isTop with
        | false =>
          refine (Follows.here ?_).exports
          rw [htop, if_neg Bool.false_ne_true]
          exact follows_pure _
        | true =>
          intro g p hctx
          subst hctx
          have htop : ((g.holding p).context file).isTop = true := by rwa [context_holding]
          -- the mark is the only difference of the two states
          have hexporting : g.exporting true = { g with exported := true } := by
            rw [exporting, Bool.or_true]
          have hrun : (observe (do
              let ctx ← lift (here file)
              if ctx.isTop then
                modify fun g => { g with exported := true }
                return Emit.exportText ctx (← get).classes packed
              else return Emit.returnText packed)).run (g.holding p) =
              let place := (g.holding p).context file
              (observe (if place.isTop then do
                modify fun g => { g with exported := true }
                return Emit.exportText place (← get).classes packed
              else return Emit.returnText packed)).run (g.holding p) := rfl
          rw [hrun, hexporting]
          dsimp only
          rw [if_pos htop, if_pos rfl, context_holding]
          rfl
      exact .inl (hvalues.pack.bind_exports hexport)

/-- A jump to other than the end of its loop is contained as the lowering lists it. -/
theorem settles_gotoStatement (label : Identifier) (span : Span) :
    Settles file ctx false span (gotoStatement file label) (Emit.gotoStatement ctx label span) := by
  refine .here ?_
  unfold Emit.gotoStatement
  split
  · exact (follows_pure _).settles span
  · exact settles_throw _ _

/-- A label other than at the end of its loop is contained as the lowering lists it. -/
theorem settles_labelStatement (label : Identifier) (span : Span) :
    Settles file ctx false span (labelStatement file label) (Emit.labelStatement ctx label span) := by
  refine .here ?_
  unfold Emit.labelStatement
  split
  · exact (follows_pure _).settles span
  · exact settles_throw _ _

/-- A clause with a condition, and what is behind it. -/
theorem Follows.clause (kind : Raw.ClauseKind) (text : String → String → String)
    {condition : Attempt String} {body : Step String} {rest : Attempt (List String)}
    {emit bodyEmit : Emit String} {emits : Emit (List String)}
    (hkind : ∀ c b, clauseText kind (some c) b = pure (text c b))
    (h : Follows file ctx condition emit) (hbody : Does file ctx false body bodyEmit)
    (hrest : Follows file ctx rest emits) :
    Follows file ctx (do
      let conditionText ← (do return some (← condition))
      let bodyText ← lift body
      let text ← clauseText kind conditionText bodyText
      return text :: (← rest)) (do
      let conditionText ← emit
      let bodyText ← bodyEmit
      return text conditionText bodyText :: (← emits)) := by
  -- the generator passes an optional condition along, which is there for this clause
  have hclause : Follows file ctx (do
      let conditionText ← (do return some (← condition))
      let bodyText ← lift body
      let text ← clauseText kind conditionText bodyText
      return text :: (← rest)) (do
      let conditionText ← (do return some (← emit))
      let bodyText ← bodyEmit
      return text (conditionText.getD "") bodyText :: (← emits)) := by
    refine (h.map some).bind_of (P := (·.isSome = true)) (fun _ => rfl) fun c hc => ?_
    obtain ⟨c, rfl⟩ := Option.isSome_iff_exists.1 hc
    refine hbody.lift.bind fun b => ?_
    rw [hkind, pure_bind]
    exact hrest.map (text c b :: ·)
  exact hclause

/-- The header of a loop over numbers is made of the same three texts. -/
theorem follows_numericHeader {first last : Expr} (counter : Identifier) (step : Option Expr)
    {firstStep lastStep stepStep : Attempt String} {emit : Emit String}
    (hfirst : Follows file ctx firstStep (Emit.expression ctx .single first))
    (hlast : Follows file ctx lastStep (Emit.expression ctx .single last))
    (hstep : Follows file ctx stepStep emit) :
    Follows file ctx
      (numericHeader file counter first.raw.outline (step.map fun e => e.raw.outline) firstStep lastStep
        stepStep) (do
      let firstText ← Emit.expression ctx .single first
      let lastText ← Emit.expression ctx .single last
      let stepText ← emit
      return Emit.forNumericHeader (ctx.declaredName counter) first step firstText lastText
        stepText) := by
  unfold numericHeader
  simp only [Emit.forNumericHeader_outline]
  exact hfirst.bind fun _ => hlast.bind fun _ => hstep.bind fun _ => .here (follows_pure _)

/-- **A loop over numbers**, whose bounds are lowered without the operators of the support module. -/
theorem Follows.forNumeric {header : Attempt String} {body : Step String} {emit bodyEmit : Emit String}
    (h : Follows file ctx.asBound header emit) (hbody : Does file ctx false body bodyEmit) :
    Follows file ctx (Generator.forNumeric header body) (do
      let headerText ← emit
      return headerText ++ " " ++ Emit.braced (← bodyEmit)) := fun g p hctx => by
  have hinner := h { g with operatorMode := false } p (by subst hctx; rfl)
  have hrun : (observe (Generator.forNumeric header body)).run (g.holding p) =
      let inner := (observe header).run (holding { g with operatorMode := false } p)
      (observe (do
        let headerText ← settle inner.1
        return headerText ++ " " ++ Emit.braced (← lift body))).run
          { inner.2 with operatorMode := g.operatorMode } := rfl
  rw [hrun, hinner]
  let headerText := (emit.run p).1
  exact hbody.lift.map (fun text => headerText ++ " " ++ Emit.braced text) g _ hctx

/-- What a generic loop runs over is the call of an iterator or any value. -/
theorem Follows.iterated {arguments : Attempt (List String)} {plain : Attempt String}
    {emit : Emit (List String)} {other : Emit String} (harguments : Follows file ctx arguments emit)
    (hplain : Follows file ctx plain other) (function : Option String) :
    Follows file ctx (Generator.iterated function arguments plain)
      (match function with
      | some name => do return Emit.callText ("l2j." ++ name) (← emit)
      | none => other) := by
  cases function with
  | some name => exact harguments.map _
  | none => exact hplain

theorem Follows.forGeneric (vars : List Identifier) (iterator : Expr) {source : Attempt String}
    {body : Step String} {emit bodyEmit : Emit String} (hsource : Follows file ctx source emit)
    (hbody : Does file ctx false body bodyEmit) :
    Follows file ctx (Generator.forGeneric file vars [iterator] source body) (do
      let source ← emit
      return Emit.forGenericText ctx vars source (← bodyEmit)) :=
  hsource.bind fun _ => .here (hbody.lift.map _)

/-- A loop over other than one iterator is none. -/
theorem settles_iterators (vars : List Identifier) {iterators : List Expr}
    (h : iterators.length ≠ 1) (source : Attempt String) (body : Step String) (span : Span) :
    Settles file ctx false span
      (Generator.forGeneric file vars (Raw.outlines (rawExprs iterators)) source body)
      (Emit.contain (.iterators iterators.length) span) := by
  unfold Generator.forGeneric
  rw [outlines_raw, List.length_map, if_neg h]
  exact settles_throw _ _

end Control

end LuaCompiler.Generator
