import LuaCompiler.Proofs.Emit.Faults
import LuaCompiler.Proofs.Emit.Footprint

/-!
# The frame of a lowering

Whatever the tree, lowering a node only adds to the traces: failures and classes at the end of their
lists, and something to the registries; comments leave their queue from its front. The failures that are
added are faults of the node.

* `Frame`: **what a lowering can do to the traces**, `Framed` a lowering that does no more.
* The frame of a step: comments, failures, registries, classes, references, names that are bound.

The steps are put together into the frame of a tree in `Proofs/Emit/Traces.lean`.
-/

namespace LuaCompiler.Emit

open List (Sublist)

variable {α β : Type} {ctx : Context} {faults more : List (Located Unsupported)}
  {received inner : Bool}

/-- **What a lowering can do to the traces**, in the scope of a method's receiver or outside any: it
lists some of its faults behind the failures so far, declares classes behind those so far, merges
something into the registries, takes comments from the front of their queue, and notes that the receiver
is captured. -/
structure Frame (faults : List (Located Unsupported)) (received : Bool) (p q : Progress) : Prop where
  failures : ∃ new, Sublist new faults ∧ q.failures = p.failures ++ new
  classes : p.classes <+: q.classes
  registries : ∃ added, q.registries = p.registries.merge added
  comments : q.comments.waiting <:+ p.comments.waiting
  line : p.comments.lastLine ≤ q.comments.lastLine
  captured : q.captured = p.captured ∨ received = true ∧ q.captured = true

namespace Frame

variable {p q r : Progress}

theorem refl (faults : List (Located Unsupported)) (received : Bool) (p : Progress) :
    Frame faults received p p where
  failures := ⟨[], List.nil_sublist _, (List.append_nil _).symm⟩
  classes := List.prefix_rfl
  registries := ⟨.empty, (Registries.merge_empty _).symm⟩
  comments := List.suffix_rfl
  line := Nat.le_refl _
  captured := .inl rfl

/-- Two walks in a row fail in the ways of both. -/
theorem trans (h : Frame faults received p q) (h' : Frame more received q r) :
    Frame (faults ++ more) received p r where
  failures := by
    obtain ⟨new, hnew, hq⟩ := h.failures
    obtain ⟨new', hnew', hr⟩ := h'.failures
    exact ⟨new ++ new', hnew.append hnew', by rw [hr, hq, List.append_assoc]⟩
  classes := h.classes.trans h'.classes
  registries := by
    obtain ⟨added, hq⟩ := h.registries
    obtain ⟨added', hr⟩ := h'.registries
    exact ⟨added.merge added', by rw [hr, hq, Registries.merge_assoc]⟩
  comments := h'.comments.trans h.comments
  line := Nat.le_trans h.line h'.line
  captured := by
    rcases h'.captured with hsame | hset
    · rcases h.captured with hsame' | ⟨hreceived, hset⟩
      · exact .inl (hsame.trans hsame')
      · exact .inr ⟨hreceived, hsame.trans hset⟩
    · exact .inr hset

/-- A walk may fail in more ways. -/
theorem mono (h : Frame faults received p q) (hfaults : Sublist faults more) :
    Frame more received p q :=
  let ⟨new, hnew, hq⟩ := h.failures
  { h with failures := ⟨new, hnew.trans hfaults, hq⟩ }

end Frame

/-- **A lowering that keeps to a frame**, in the scope of a method's receiver or outside any. -/
def Framed (received : Bool) (faults : List (Located Unsupported)) (m : Emit α) : Prop :=
  ∀ p, Frame faults received p (m.run p).2

/-! ## The monad -/

theorem framed_pure (x : α) : Framed received faults (pure x) := fun p => .refl faults _ p

theorem Framed.mono {m : Emit α} (h : Framed received faults m) (hfaults : Sublist faults more) :
    Framed received more m :=
  fun p => (h p).mono hfaults

/-- Two actions in a row, the second from any state. -/
theorem Framed.bind {m : Emit α} {f : α → Emit β} (hm : Framed received faults m)
    (hf : ∀ x, Framed received more (f x)) : Framed received (faults ++ more) (m >>= f) :=
  fun p => (hm p).trans (hf (m.run p).1 (m.run p).2)

/-- A lowering that looks at the traces. -/
theorem framed_get {f : Progress → Emit β} (hf : ∀ p, Framed received faults (f p)) :
    Framed received faults (get >>= f) :=
  fun p => hf p p

/-! ## Primitives -/

theorem framed_commentsBefore (span : Span) : Framed received [] (commentsBefore span) := fun p =>
  { Frame.refl [] _ p with
    comments := List.dropWhile_suffix _
    line := Nat.le_max_left .. }

theorem framed_commentsAfter (span : Span) : Framed received [] (commentsAfter span) := fun p =>
  { Frame.refl [] _ p with
    comments := List.dropWhile_suffix _
    line := by
      have hfold : ∀ (passed : List Comment) (line : Nat),
          line ≤ passed.foldl (fun last comment => max last comment.span.stop.line) line := by
        intro passed
        induction passed with
        | nil => exact fun _ => Nat.le_refl _
        | cons comment rest ih => exact fun line => Nat.le_trans (Nat.le_max_left ..) (ih _)
      exact Nat.le_trans (hfold _ _) (Nat.le_max_left ..) }

theorem framed_commentsLeft : Framed received [] commentsLeft := fun p =>
  { Frame.refl [] _ p with comments := List.nil_suffix }

/-- The comments around a node are no faults. -/
theorem Framed.around {node : Emit String} (h : Framed received faults node) (span : Span) :
    Framed received faults (around span node) := by
  have hbind : Framed received ([] ++ (faults ++ ([] ++ []))) (Emit.around span node) :=
    (framed_commentsBefore span).bind fun _ => h.bind fun _ =>
      (framed_commentsAfter span).bind fun _ => framed_pure _
  rwa [List.append_nil, List.append_nil] at hbind

/-- A contained error is one fault. -/
theorem framed_contain (unsupported : Unsupported) (span : Span) :
    Framed received [⟨unsupported, span.start⟩] (contain unsupported span) := fun p =>
  { Frame.refl [⟨unsupported, span.start⟩] received p with
    failures := ⟨_, .refl _, rfl⟩ }

theorem framed_useSystemFunction (library name : String) :
    Framed received [] (useSystemFunction library name) := fun p =>
  { Frame.refl [] _ p with registries := ⟨_, p.registries.recordSystemFunction_eq library name⟩ }

/-- A class is declared behind the others. -/
theorem withClass_prefix (classes : List String) (name : String) :
    classes <+: withClass classes name := by
  unfold withClass
  split
  · exact List.prefix_rfl
  · exact List.prefix_append _ _

theorem framed_declareClass (name : String) : Framed received [] (declareClass name) := fun p => by
  rw [declareClass_run]
  exact { Frame.refl [] _ p with classes := withClass_prefix p.classes name }

/-- A reference may be that of a receiver, if there is one. -/
theorem framed_reference (name : String) : Framed ctx.receiver.isSome [] (reference ctx name) := by
  unfold reference
  split
  next receiver hreceiver =>
    have hsome : ctx.receiver.isSome = true := by
      obtain ⟨hreceiver, -⟩ := Option.filter_eq_some_iff.1 hreceiver
      rw [hreceiver]
      rfl
    split
    · exact framed_pure _
    · exact fun p => { Frame.refl [] ctx.receiver.isSome p with captured := .inr ⟨hsome, rfl⟩ }
  · exact framed_pure _

/-- What is noted of the receiver of a method is not noted of the one around it. -/
theorem Framed.withReceiver {body : Emit α} (h : Framed inner faults body) :
    Framed received faults (withReceiver body) := fun p =>
  let hbody := h { p with captured := false }
  { failures := hbody.failures
    classes := hbody.classes
    registries := hbody.registries
    comments := hbody.comments
    line := hbody.line
    captured := .inl rfl }

/-- In the scope of a receiver more can be noted than outside any. -/
theorem Framed.scope {m : Emit α} (h : Framed inner faults m)
    (hreceived : inner = true → received = true) : Framed received faults m := fun p =>
  { h p with captured := (h p).captured.imp_right fun hset => ⟨hreceived hset.1, hset.2⟩ }

theorem framed_useMember (base : Expr) (identifier : Identifier) :
    Framed received [] (useMember ctx base identifier) := by
  unfold useMember
  split
  · split
    · exact framed_useSystemFunction _ _
    · exact framed_pure _
  · exact framed_pure _

/-- A name is bound without a fault. -/
theorem framed_bindName (place : Context) (targets : Targets) (name : String) (node : Expr)
    (value : String) : Framed received [] (bindName place targets name node value) := fun p => by
  rw [bindName_run, bindAs_run]
  refine { Frame.refl [] _ p with classes := ?_, registries := ?_ }
  · dsimp only
    split
    · exact withClass_prefix _ _
    · exact List.prefix_rfl
  · dsimp only
    split
    · exact ⟨_, p.registries.recordInitializedGlobal_eq name⟩
    · exact ⟨.empty, rfl⟩

/-- So are several names. -/
theorem framed_bind (targets : Targets) (init : List Expr) (values : List String) :
    Framed received [] (bind ctx targets init values) := by
  unfold bind
  split
  · exact framed_bindName _ _ _ _ _
  · exact framed_pure _
  · exact framed_pure _

/-! ## The faults of a class -/

/-- The faults in the first of some values, if it is a native class. -/
def classFaults (place : Place) : List Expr → List (Located Unsupported)
  | ⟨_, _, .call _ _ arguments⟩ :: _ => exprFaults place true arguments
  | _ => []

/-- The faults of a call of `class` are faults of the value that it is. -/
theorem classFaults_sublist {base : Expr} {arguments : List Expr} (place : Place) (id : NodeId)
    (span : Span) (style : CallStyle) (rest : List Expr) (h : isClassCall base arguments = true) :
    Sublist (classFaults place (⟨id, span, .call base style arguments⟩ :: rest))
      (exprFaults place false (⟨id, span, .call base style arguments⟩ :: rest)) := by
  have hname : base.isName "class" = true := (Bool.and_eq_true_iff.1 h).1
  have hfaults : exprFaults place false (⟨id, span, .call base style arguments⟩ :: rest) =
      (base.faults place false ++ exprFaults place (base.isName "class") arguments) ++
        exprFaults place false rest := rfl
  rw [hfaults, hname]
  exact (List.sublist_append_right _ _).trans (List.sublist_append_left _ _)

end LuaCompiler.Emit
