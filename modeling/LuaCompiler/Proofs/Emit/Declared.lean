import LuaCompiler.Proofs.Emit.Frame

/-!
# Invariants of the classes declared

Lowering a node declares classes and does nothing else to them, and only a declaration or an
assignment that stands directly in the chunk declares one. So whatever holds of the classes before a
node holds behind it, if declaring a class keeps it or the node declares none.

* `declaresClass`: the statements that can declare a class.
* `Keeps I m`: **a lowering keeps an invariant of the classes declared**, and the steps that do.

The steps are put together into what a tree keeps in `Proofs/Emit/Traces.lean`.
-/

namespace LuaCompiler.Emit

variable {α β : Type} {I : List String → Prop} {ctx : Context} {m : Emit α} {f : α → Emit β}

/-- **A lowering that keeps an invariant of the classes declared.** -/
def Keeps (I : List String → Prop) (m : Emit α) : Prop :=
  ∀ p, I p.classes → I (m.run p).2.classes

/-- What stays so when a class is declared. -/
def Declarable (I : List String → Prop) : Prop :=
  ∀ classes name, I classes → I (withClass classes name)

/-- Whether a statement can declare a class. -/
def declaresClass : StmtKind → Bool
  | .local .. | .assignment .. => true
  | _ => false

theorem isTop_inBlock (ctx : Context) : ctx.inBlock.isTop = false := by
  simp [Context.isTop, Context.inBlock]

/-! ## The monad -/

/-- A lowering that leaves the classes alone. -/
theorem keeps_of_same (h : ∀ p, (m.run p).2.classes = p.classes) : Keeps I m :=
  fun p hp => (h p).symm ▸ hp

theorem keeps_pure (a : α) : Keeps I (pure a) := fun _ hp => hp

theorem Keeps.bind (hm : Keeps I m) (hf : ∀ a, Keeps I (f a)) : Keeps I (m >>= f) :=
  fun p hp => hf (m.run p).1 (m.run p).2 (hm p hp)

theorem keeps_get {f : Progress → Emit β} (hf : ∀ p, Keeps I (f p)) : Keeps I (get >>= f) :=
  fun p hp => hf p p hp

theorem Keeps.ite {c : Prop} [Decidable c] {m' : Emit α} (h : c → Keeps I m)
    (h' : ¬ c → Keeps I m') : Keeps I (if c then m else m') := by
  split
  next hc => exact h hc
  next hc => exact h' hc

theorem Keeps.around {node : Emit String} (h : Keeps I node) (span : Span) :
    Keeps I (around span node) :=
  fun p hp => h { p with comments := (p.comments.before span).2 } hp

theorem Keeps.withReceiver {body : Emit α} (h : Keeps I body) : Keeps I (withReceiver body) :=
  fun p hp => h { p with captured := false } hp

/-! ## Primitives -/

theorem keeps_contain (unsupported : Unsupported) (span : Span) :
    Keeps I (contain unsupported span) :=
  keeps_of_same fun _ => rfl

theorem keeps_useSystemFunction (library name : String) :
    Keeps I (useSystemFunction library name) :=
  keeps_of_same fun _ => rfl

theorem keeps_declareClass (hI : Declarable I) (name : String) : Keeps I (declareClass name) :=
  fun p hp => by
    rw [declareClass_run]
    exact hI _ _ hp

theorem keeps_reference (name : String) : Keeps I (reference ctx name) := by
  unfold reference
  split
  · exact .ite (fun _ => keeps_pure _) fun _ => keeps_of_same fun _ => rfl
  · exact keeps_pure _

theorem keeps_useMember (base : Expr) (identifier : Identifier) :
    Keeps I (useMember ctx base identifier) := by
  unfold useMember
  split
  · exact .ite (fun _ => keeps_useSystemFunction _ _) fun _ => keeps_pure _
  · exact keeps_pure _

theorem keeps_bindName (hI : ctx.isTop = true → Declarable I) (targets : Targets) (name : String)
    (node : Expr) (value : String) :
    Keeps I (bindName ctx targets name node value) := fun p hp => by
  rw [bindName_run, bindAs_run]
  dsimp only
  split
  next hmakes =>
    have htop := (Bool.and_eq_true_iff.1 (Bool.and_eq_true_iff.1 hmakes).2).1
    exact hI htop _ _ hp
  · exact hp

theorem keeps_bind (hI : ctx.isTop = true → Declarable I) (targets : Targets) (init : List Expr)
    (values : List String) : Keeps I (bind ctx targets init values) := by
  unfold bind
  split
  · exact keeps_bindName hI _ _ _ _
  · exact keeps_pure _
  · exact keeps_pure _

end LuaCompiler.Emit
