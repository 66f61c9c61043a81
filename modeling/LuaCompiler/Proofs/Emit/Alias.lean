import LuaCompiler.Proofs.Emit.Footprint
import LuaCompiler.Proofs.Emit.Placement

/-!
# The variable that holds a receiver

A method whose receiver is referred to in a function inside it keeps the receiver in a variable, since
`this` means something else there. While the body of the method is lowered, a flag remembers whether
the variable has been written. A method inside starts with a flag of its own, and the flag of the outer
one is put back behind it.

* `Word.isAlias`: a name is written as the variable.
* `Layout.captures`: some name of a layout is, methods inside left out.
* `Captures`: **a lowering sets the flag or leaves it**, whatever was remembered before, and the steps
  that do.

That lowering a tree sets the flag exactly if its layout captures is put together from the steps in
`Proofs/Emit/Traces.lean`.
-/

namespace LuaCompiler.Emit

/-- Whether a name is written as the variable that holds the receiver: it is the receiver's, and stands
in a function inside the method. -/
def Word.isAlias (w : Word) : Bool :=
  !w.isTarget && w.context.receiver.any fun r =>
    r.name == w.context.annotations.resolve w.id w.name && r.depth != w.context.functionDepth

/-- The declaration of the variable at the beginning of a method. -/
def aliasDeclaration : String := "let " ++ receiverAlias ++ " = this;\n"

namespace Layout

/-- **Whether a layout writes the variable that holds the receiver around it.** A method inside has a
receiver of its own. -/
def captures : Layout → Bool
  | word w => w.isAlias
  | around _ inner | braces _ inner | unlessBlank inner | twice inner => inner.captures
  | append first second | region first second | loopUntil first second | enclosing first second
  | swapped first second => first.captures || second.captures
  | callable reception header body => header.captures || reception == .none && body.captures
  | blank | remark _ | sealing | remaining | binding _ _ | dropped _ => false

theorem captures_row {ls : List Layout} (h : ∀ l ∈ ls, l.captures = false) :
    (row ls).captures = false := by
  induction ls with
  | nil => rfl
  | cons first rest ih =>
    obtain ⟨hfirst, hrest⟩ := List.forall_mem_cons.1 h
    cases rest with
    | nil => exact hfirst
    | cons second others =>
      rw [row, captures, hfirst, ih hrest, Bool.or_false]
      exact List.cons_ne_nil _ _

/-- Names where they are bound are no references. -/
theorem captures_bindings (ctx : Context) (vars : List Identifier) :
    (bindings ctx vars).captures = false := by
  refine captures_row fun l hl => ?_
  obtain ⟨v, -, rfl⟩ := List.mem_map.1 hl
  rfl

theorem captures_parameters (ctx : Context) (shown : List Identifier) (isVararg : Bool) :
    (parameters ctx shown isVararg).captures = false := by
  refine captures_row fun l hl => ?_
  rw [List.mem_append, List.mem_map] at hl
  rcases hl with ⟨v, -, rfl⟩ | hl
  · rfl
  · cases isVararg with
    | true => rw [List.mem_singleton.1 hl]; rfl
    | false => cases hl

/-- A function is a method exactly if it has a receiver. -/
theorem reception_eq_none (convention : Convention) (names : List Identifier) :
    (reception convention names == .none) = convention.receiver.isNone := by
  unfold reception
  cases convention.receiver with
  | none => rfl
  | some name =>
    cases names with
    | nil => rfl
    | cons first rest =>
      dsimp only
      split <;> rfl

end Layout

variable {α β : Type} {ctx : Context} {registries : Registries} {m : Emit α} {f : α → Emit β}
  {a b : Bool}

/-- **A lowering remembers that the variable has been written** if it writes it, and forgets nothing. -/
def Captures (captured : Bool) (m : Emit α) : Prop :=
  ∀ p, (m.run p).2.captured = (p.captured || captured)

/-! ## The monad -/

theorem captures_of_same (h : ∀ p, (m.run p).2.captured = p.captured) : Captures false m :=
  fun p => (h p).trans (Bool.or_false _).symm

theorem captures_pure (x : α) : Captures false (pure x) := captures_of_same fun _ => rfl

theorem Captures.bind (hm : Captures a m) (hf : ∀ x, Captures b (f x)) :
    Captures (a || b) (m >>= f) := by
  intro p
  have hfirst := hm p
  have hsecond := hf (m.run p).1 (m.run p).2
  rw [hfirst, Bool.or_assoc] at hsecond
  exact hsecond

theorem captures_get {f : Progress → Emit β} (hf : ∀ p, Captures b (f p)) :
    Captures b (get >>= f) :=
  fun p => hf p p

theorem Captures.ite {P : Prop} [Decidable P] {m' : Emit α} (h : P → Captures a m)
    (h' : ¬ P → Captures a m') : Captures a (if P then m else m') := by
  split
  next hc => exact h hc
  next hc => exact h' hc

theorem Captures.around {node : Emit String} (h : Captures a node) (span : Span) :
    Captures a (around span node) :=
  fun p => h { p with comments := (p.comments.before span).2 }

/-! ## Primitives -/

theorem captures_contain (unsupported : Unsupported) (span : Span) :
    Captures false (contain unsupported span) :=
  captures_of_same fun _ => rfl

theorem captures_useSystemFunction (library name : String) :
    Captures false (useSystemFunction library name) :=
  captures_of_same fun _ => rfl

theorem captures_declareClass (name : String) : Captures false (declareClass name) :=
  captures_of_same fun p => by
    rw [declareClass_run]

/-- **A reference sets the flag exactly if it is written as the variable.** -/
theorem captures_reference (ctx : Context) (id : NodeId) (name : String) :
    Captures (Word.isAlias ⟨ctx, id, name, false⟩)
      (reference ctx (ctx.annotations.resolve id name)) := by
  unfold reference Word.isAlias
  dsimp only
  cases ctx.receiver with
  | none => exact captures_pure _
  | some r =>
    cases hname : r.name == ctx.annotations.resolve id name with
    | false =>
      have hfilter : (some r).filter (·.name == ctx.annotations.resolve id name) = none :=
        Option.filter_some_neg hname
      rw [hfilter, Option.any_some, hname, Bool.false_and]
      exact captures_pure _
    | true =>
      have hfilter : (some r).filter (·.name == ctx.annotations.resolve id name) = some r :=
        Option.filter_some_pos hname
      rw [hfilter, Option.any_some, hname, Bool.true_and, bne]
      dsimp only
      cases r.depth == ctx.functionDepth with
      | true => exact captures_pure _
      | false => exact fun p => (Bool.or_true _).symm

theorem captures_useMember (base : Expr) (identifier : Identifier) :
    Captures false (useMember ctx base identifier) := by
  unfold useMember
  split
  · exact .ite (fun _ => captures_useSystemFunction _ _) fun _ => captures_pure _
  · exact captures_pure _

theorem captures_bind (targets : Targets) (init : List Expr) (values : List String) :
    Captures false (bind ctx targets init values) := by
  unfold bind
  split
  · refine captures_of_same fun p => ?_
    rw [bindName_run, bindAs_run]
  · exact captures_pure _
  · exact captures_pure _

/-- In a method the flag is its own: what was remembered before is put back. -/
theorem captures_withReceiver (body : Emit α) : Captures false (withReceiver body) :=
  captures_of_same fun _ => rfl

theorem withReceiver_snd {body : Emit α} (h : Captures a body) (p : Progress) :
    ((withReceiver body).run p).1.2 = a :=
  (h { p with captured := false }).trans (Bool.false_or a)

end LuaCompiler.Emit
