import LuaCompiler.Proofs.Emit.Alias
import LuaCompiler.Proofs.Emit.Declared

/-!
# The traces that a tree leaves behind

One walk over the tree for all that lowering a node may do to the traces, whatever the texts: it keeps
to the frame of the node's faults, asks the registries about the node's references only, keeps what
holds of the classes declared, and captures the receiver exactly if the layout of the node does.

* `Bounds`: what the traces of a node may depend on; `Traced`: **a lowering within its bounds**. It is
  closed under the ways in which lowerings are put together.
* One lemma for each rule, then the walk, from `traced_expression` to `traced_statements`.
* What is read off: `framed_statements`, `framed_chunk`, `confined_statement`, `confined_chunk`,
  `keeps_statement`, `keeps_statements`, `body_function`.
-/

namespace LuaCompiler.Emit

open List (Sublist)
open Scope

/-- **What the traces of a node may depend on**: the references that it may ask about, whether it stands
in the scope of a method's receiver, and what has to stay true of the classes declared. -/
structure Bounds where
  footprint : Footprint
  received : Bool
  invariant : List String → Prop

/-- The bounds of a node in a context. -/
def Context.bounds (ctx : Context) (references : List (NodeId × String))
    (invariant : List String → Prop) : Bounds where
  footprint := ctx.footprint references
  received := ctx.receiver.isSome
  invariant

/-- **A lowering within its bounds**, which lists no other faults and captures the receiver or does
not. -/
structure Traced (bounds : Bounds) (faults : List (Located Unsupported)) (captured : Bool) {α : Type}
    (m : Emit α) : Prop where
  framed : Framed bounds.received faults m
  confined : Confined bounds.footprint m
  keeps : Keeps bounds.invariant m
  captures : Captures captured m

variable {α β γ : Type} {bounds : Bounds} {ctx : Context} {I : List String → Prop}
  {refs : List (NodeId × String)} {registries : Registries}
  {faults more rest : List (Located Unsupported)} {a b c : Bool} {m : Emit α} {f : α → Emit β}

/-! ## The monad -/

/-- A text that is there already leaves no trace. -/
theorem traced_pure (x : α) : Traced bounds faults false (pure x : Emit α) where
  framed := framed_pure x
  confined := confined_pure x
  keeps := keeps_pure x
  captures := captures_pure x

namespace Traced

/-- The traces of two actions in a row are put together. -/
theorem bind (hm : Traced bounds faults a m) (hf : ∀ x, Traced bounds more b (f x)) :
    Traced bounds (faults ++ more) (a || b) (m >>= f) where
  framed := hm.framed.bind fun x => (hf x).framed
  confined := hm.confined.bind fun x => (hf x).confined
  keeps := hm.keeps.bind fun x => (hf x).keeps
  captures := hm.captures.bind fun x => (hf x).captures

/-- Faults may be listed that do not occur. -/
theorem within (hm : Traced bounds faults a m) (hfaults : Sublist faults more) :
    Traced bounds more a m :=
  { hm with framed := hm.framed.mono hfaults }

/-- A lowering behind a step without traces of its own. -/
theorem after (hm : Traced bounds [] false m) (hf : ∀ x, Traced bounds faults b (f x)) :
    Traced bounds faults b (m >>= f) :=
  hm.bind hf

/-- A lowering before a step without traces of its own. -/
theorem before (hm : Traced bounds faults a m) (hf : ∀ x, Traced bounds [] false (f x)) :
    Traced bounds faults a (m >>= f) := by
  have hboth := hm.bind hf
  rwa [List.append_nil, Bool.or_false] at hboth

/-- Two lowerings that stand together in a layout, and one behind them. -/
theorem bindPair {g : α → β → Emit γ} (hm : Traced bounds faults a m)
    (hf : ∀ x, Traced bounds more b (f x)) (hg : ∀ x y, Traced bounds rest c (g x y)) :
    Traced bounds (faults ++ (more ++ rest)) (a || b || c) (m >>= fun x => f x >>= g x) := by
  rw [Bool.or_assoc]
  exact hm.bind fun x => (hf x).bind (hg x)

/-- A function of the text leaves no trace of its own. -/
theorem map (hm : Traced bounds faults a m) (g : α → β) :
    Traced bounds faults a (do return g (← m)) :=
  hm.before fun _ => traced_pure _

/-- Both branches of a test leave the same trace. -/
theorem ite {P : Prop} [Decidable P] {m' : Emit α} (h : P → Traced bounds faults a m)
    (h' : ¬ P → Traced bounds faults a m') : Traced bounds faults a (if P then m else m') := by
  split
  next hc => exact h hc
  next hc => exact h' hc

/-- The comments around a node are no fault, and read no global. -/
theorem around {node : Emit String} (h : Traced bounds faults a node) (span : Span) :
    Traced bounds faults a (around span node) where
  framed := h.framed.around span
  confined := h.confined.around span
  keeps := h.keeps.around span
  captures := h.captures.around span

/-- What a method notes of its receiver is put back behind it. -/
theorem withReceiver {received : Bool} {body : Emit α}
    (h : Traced { bounds with received } faults a body) :
    Traced bounds faults false (withReceiver body) where
  framed := h.framed.withReceiver
  confined := h.confined.withReceiver
  keeps := h.keeps.withReceiver
  captures := captures_withReceiver body

/-- In the scope of a receiver more may be noted than outside any. -/
theorem scope {received : Bool} (h : Traced { bounds with received } faults a m)
    (hreceived : received = true → bounds.received = true) : Traced bounds faults a m :=
  { h with framed := h.framed.scope hreceived }

end Traced

/-- A lowering that looks at the traces other than the registries. -/
theorem traced_get {f : Progress → Emit β} (hsame : ∀ p r, f { p with registries := r } = f p)
    (hf : ∀ p, Traced bounds faults b (f p)) : Traced bounds faults b (get >>= f) where
  framed := framed_get fun p => (hf p).framed
  confined := confined_get hsame fun p => (hf p).confined
  keeps := keeps_get fun p => (hf p).keeps
  captures := captures_get fun p => (hf p).captures

/-- A lowering that asks whether a global is read. -/
theorem traced_ask {f : Bool → Emit β} {name : String} (hname : name ∈ bounds.footprint.names)
    (hf : ∀ isRead, Traced bounds faults b (f isRead)) :
    Traced bounds faults b (get >>= fun p => f (p.registries.isGlobalRead name)) where
  framed := framed_get fun _ => (hf _).framed
  confined := confined_ask hname fun isRead => (hf isRead).confined
  keeps := keeps_get fun _ => (hf _).keeps
  captures := captures_get fun _ => (hf _).captures

/-! ## Primitives -/

/-- A contained error is the one fault of its rule. -/
theorem traced_contain (unsupported : Unsupported) (span : Span) :
    Traced bounds [⟨unsupported, span.start⟩] false (contain unsupported span) where
  framed := framed_contain unsupported span
  confined := confined_contain unsupported span
  keeps := keeps_contain unsupported span
  captures := captures_contain unsupported span

/-- A library function is recorded beside what is traced. -/
theorem traced_useSystemFunction (library name : String) :
    Traced bounds [] false (useSystemFunction library name) where
  framed := framed_useSystemFunction library name
  confined := confined_useSystemFunction library name
  keeps := keeps_useSystemFunction library name
  captures := captures_useSystemFunction library name

/-- So is a member of a hidden library. -/
theorem traced_useMember (base : Expr) (identifier : Identifier) :
    Traced bounds [] false (useMember ctx base identifier) where
  framed := framed_useMember base identifier
  confined := confined_useMember base identifier
  keeps := keeps_useMember base identifier
  captures := captures_useMember base identifier

/-- A class is declared where declarations are allowed. -/
theorem traced_declareClass (hI : Declarable bounds.invariant) (name : String) :
    Traced bounds [] false (declareClass name) where
  framed := framed_declareClass name
  confined := confined_declareClass name
  keeps := keeps_declareClass hI name
  captures := captures_declareClass name

/-- A reference reads its own name, and the receiver's alias where it stands for it. -/
theorem traced_reference (ctx : Context) (id : NodeId) (name : String) :
    Traced (ctx.bounds refs I) [] (Word.isAlias ⟨ctx, id, name, false⟩)
      (reference ctx (ctx.annotations.resolve id name)) where
  framed := framed_reference _
  confined := confined_reference _
  keeps := keeps_reference _
  captures := captures_reference ctx id name

/-- Targets within the footprint are bound there, as classes only where these are allowed. -/
theorem traced_bind {targets : Targets} (h : targets.Within (ctx.footprint refs))
    (hI : ctx.isTop = true → Declarable I) (init : List Expr) (values : List String) :
    Traced (ctx.bounds refs I) [] false (bind ctx.asValue targets init values) where
  framed := framed_bind targets init values
  confined := confined_bind ctx.asValue h init values
  keeps := (keeps_bind hI targets init values : Keeps I (bind ctx.asValue targets init values))
  captures := captures_bind targets init values

/-! ## Rules -/

section Call

/-- The parts of a call are within the bounds of the call. A callee that is a member captures as what
it is a member of, which the call may ask about. -/
structure CallParts.Traced (bounds : Bounds) (ctx : Context) (site : CallSite) (parts : CallParts)
    (layouts : Layout.CallLayouts) : Prop where
  callee : Emit.Traced bounds (site.base.faults ctx.place false) layouts.callee.captures parts.callee
  owner : Emit.Traced bounds (site.base.faults ctx.place false) layouts.owner.captures parts.owner
  arguments : Emit.Traced bounds (exprFaults ctx.place false site.arguments)
    layouts.arguments.captures parts.arguments
  firstArgument : Emit.Traced bounds (exprFaults ctx.place false site.arguments)
    layouts.firstArgument.captures parts.firstArgument
  classBody : Emit.Traced bounds (exprFaults ctx.place true site.arguments)
    layouts.classBody.captures parts.classBody
  member : ∀ owner indexer identifier, site.base.kind = .member owner indexer identifier →
    layouts.callee.captures = layouts.owner.captures
  names : ∀ owner indexer identifier, site.base.kind = .member owner indexer identifier →
    ∀ name, owner.name? = some name → name ∈ bounds.footprint.names

variable {site : CallSite} {parts : CallParts} {layouts : Layout.CallLayouts}
  (h : parts.Traced bounds ctx site layouts)

include h

theorem traced_genericCall :
    Traced bounds (site.base.faults ctx.place false ++ exprFaults ctx.place false site.arguments)
      (Layout.genericCall layouts).captures (genericCall ctx site parts) :=
  h.callee.bind fun _ => h.arguments.map _

theorem traced_libraryCall (library name : String) :
    Traced bounds (exprFaults ctx.place false site.arguments) layouts.arguments.captures
      (libraryCall parts library name) :=
  (traced_useSystemFunction library name).after fun _ => h.arguments.map _

/-- A call with the receiver asks about the name of its owner. -/
theorem traced_selfCall {owner : Expr} {indexer : Indexer} {identifier : Identifier}
    (hkind : site.base.kind = .member owner indexer identifier) :
    Traced bounds (site.base.faults ctx.place false ++ exprFaults ctx.place false site.arguments)
      (layouts.owner.captures || layouts.arguments.captures)
      (selfCall ctx site parts owner identifier) := by
  have hcallee : Traced bounds (site.base.faults ctx.place false) layouts.owner.captures
      parts.callee := h.member owner indexer identifier hkind ▸ h.callee
  cases hname : owner.name? with
  | none =>
    have hown : ∀ r, isForeignGlobal ctx r owner = false := fun r => by
      simp [isForeignGlobal, hname]
    simp only [selfCall, hown]
    exact traced_get (fun _ _ => rfl) fun _ => h.owner.bind fun _ => h.arguments.map _
  | some name =>
    have hforeign : ∀ r : Registries, isForeignGlobal ctx r owner =
        (r.isGlobalRead name && ctx.receiver.map Receiver.name != some name) := fun r => by
      simp [isForeignGlobal, hname]
    simp only [selfCall, hforeign]
    refine traced_ask (f := fun isRead =>
      if isRead && ctx.receiver.map Receiver.name != some name then _ else _)
      (h.names owner indexer identifier hkind name hname) fun _ => .ite (fun _ => ?_) fun _ => ?_
    · exact hcallee.bind fun _ => h.arguments.map _
    · exact h.owner.bind fun _ => h.arguments.map _

/-- An argument of `select` that is written as a number leaves no trace. -/
theorem traced_selectText (index : Expr) :
    Traced bounds (exprFaults ctx.place false site.arguments) (match index.kind with
      | .number _ _ => false
      | _ => layouts.firstArgument.captures) (selectText index parts.firstArgument) := by
  unfold selectText
  cases index.kind with
  | number value raw => exact traced_pure _
  | _ => exact h.firstArgument.map _

/-- A class is made from its body, or from its arguments. -/
theorem traced_classCall :
    Traced bounds (exprFaults ctx.place true site.arguments)
      (if isNativeClass site.arguments then layouts.classBody else layouts.arguments).captures
      (classCall site parts) := by
  unfold classCall
  split
  · exact h.classBody.map _
  · exact (h.arguments.within (exprFaults_sublist _ _ _)).map _

/-- **A call is within the bounds of its parts**, whatever globals are read. -/
theorem traced_call (role : Role) (isStatement : Bool) :
    Traced bounds (site.base.faults ctx.place false ++
        exprFaults ctx.place (site.base.isName "class") site.arguments)
      (Layout.call ctx registries isStatement site layouts).captures (call ctx role site parts) := by
  -- a class has faults of its own; in any other call the arguments are plain
  have hall := (Sublist.refl (site.base.faults ctx.place false)).append
    (exprFaults_sublist ctx.place (site.base.isName "class") site.arguments)
  have hwithin := (List.sublist_append_right _ _).trans hall
  have hgeneric := (traced_genericCall h).within hall
  have hlibrary (library name : String) := (traced_libraryCall h library name).within hwithin
  have harguments := h.arguments.within hwithin
  have hfirst := h.firstArgument.within hwithin
  unfold call Layout.call
  cases hpattern : patternAt ctx site with
  | classFactory =>
    rw [(isServed ctx site).classFactory hpattern]
    exact (traced_classCall h).within (List.sublist_append_right _ _)
  | selectLength => exact traced_pure _
  | selectIndex =>
    have hselect (index : Expr) := (traced_selectText h index).within hwithin
    dsimp only
    cases harguments : site.arguments with
    | nil =>
      rw [harguments] at hgeneric
      exact hgeneric
    | cons index rest =>
      rw [harguments] at hselect
      have hindex := hselect index
      obtain ⟨id, span, kind⟩ := index
      cases kind <;> exact hindex
  | stringFormat => exact hlibrary _ _
  | error =>
    cases isStatement <;> exact hfirst.map _
  | tableInsert | tableInsertAt => exact hlibrary _ _
  | tableConcat => exact (traced_useSystemFunction _ _).after fun _ => harguments.map _
  | type => exact harguments.map _
  | systemFunction =>
    dsimp only
    cases site.base.qualifiedName? with
    | some path => exact hlibrary path.1 path.2
    | none => exact hgeneric
  | require => exact harguments.map _
  | selfCall =>
    dsimp only
    cases hkind : site.base.kind with
    | member owner indexer identifier =>
      have hself := (traced_selfCall h hkind).within hall
      have hcallee := h.member owner indexer identifier hkind
      dsimp only
      split
      · rw [← hcallee] at hself
        exact hself
      · exact hself
    | _ => exact hgeneric
  | valueType => exact harguments.map _
  | assert => exact harguments.map _
  | generic => exact hgeneric

end Call

section Local

/-- The parts of a `local` statement are within the bounds of the statement. -/
structure LocalParts.Traced (bounds : Bounds) (ctx : Context) (init : List Expr)
    (parts : LocalParts) (layouts : Layout.LocalLayouts) : Prop where
  arguments : Emit.Traced bounds (exprFaults ctx.place false init) layouts.arguments.captures
    parts.arguments
  classBody : Emit.Traced bounds (classFaults ctx.place init) layouts.classBody.captures
    parts.classBody
  values : Emit.Traced bounds (exprFaults ctx.place false init) layouts.values.captures parts.values

variable {init : List Expr} {parts : LocalParts} {layouts : Layout.LocalLayouts}
  (h : parts.Traced (ctx.bounds refs I) ctx init layouts) (hI : ctx.isTop = true → Declarable I)

include h hI

/-- A local statement that defines no class is traced by its values. -/
theorem traced_localBinding (id : NodeId) (vars : List Identifier) :
    Traced (ctx.bounds refs I) (exprFaults ctx.place false init)
      (if init.isEmpty then Layout.blank else layouts.values).captures
      (localBinding ctx id vars init parts) := by
  unfold localBinding
  dsimp only
  split
  · exact traced_pure _
  · exact h.values.before fun values =>
      (traced_bind (.inl (isLocal_localTargets id vars)) hI init values).map
        ((localTargets ctx id vars).1 ++ ·)

/-- **A `local` statement is within the bounds of its parts.** -/
theorem traced_localStatement (id : NodeId) (vars : List Identifier) :
    Traced (ctx.bounds refs I) (exprFaults ctx.place false init)
      (Layout.localStatement ctx id vars init layouts).captures
      (localStatement ctx id vars init parts) := by
  have hbinding : Traced (ctx.bounds refs I) (exprFaults ctx.place false init)
      (Layout.append (Layout.bindings ctx (Layout.newVars ctx id vars))
        (if init.isEmpty then .blank else layouts.values)).captures
      (localBinding ctx id vars init parts) := by
    rw [Layout.captures, Layout.captures_bindings, Bool.false_or]
    exact traced_localBinding h hI id vars
  rcases vars with _ | ⟨v, _ | ⟨_, _⟩⟩
  · exact hbinding
  · rcases init with _ | ⟨value, _ | ⟨_, _⟩⟩
    · exact hbinding
    · unfold localStatement Layout.localStatement localClass? Layout.localClass?
      dsimp only
      split
      -- a class is an empty table under the name of the module, or a call that creates one
      next hmodule =>
        have htop := (Bool.and_eq_true_iff.1 (Bool.and_eq_true_iff.1 hmodule).1).1
        exact ((traced_declareClass (hI htop) _).after fun _ => traced_pure _).within
          (List.nil_sublist _)
      · obtain ⟨valueId, span, kind⟩ := value
        cases kind with
        | call base style arguments =>
          dsimp only
          split
          · exact hbinding
          next hclass =>
            have hclass : isClassCall base arguments = true := by simpa using hclass
            split
            · exact (h.classBody.within (classFaults_sublist _ _ _ _ _ hclass)).map _
            · refine .ite (fun htop => ?_) fun _ => h.arguments.map _
              exact (traced_declareClass (hI htop) _).after fun _ => h.arguments.map _
        | _ => exact hbinding
    · exact hbinding
  · exact hbinding

end Local

section Assignment

/-- The parts of an assignment are within the bounds of the assignment. -/
structure AssignmentParts.Traced (bounds : Bounds) (ctx : Context) (targets init : List Expr)
    (parts : AssignmentParts) (layouts : Layout.AssignmentLayouts) : Prop where
  indexBase : Emit.Traced bounds (exprFaults ctx.place false targets) layouts.indexBase.captures
    parts.indexBase
  firstTarget : Emit.Traced bounds (exprFaults ctx.place false targets)
    layouts.firstTarget.captures parts.firstTarget
  firstValue : Emit.Traced bounds (exprFaults ctx.place false init) layouts.firstValue.captures
    parts.firstValue
  classBody : Emit.Traced bounds (classFaults ctx.place init) layouts.classBody.captures
    parts.classBody
  targets : Emit.Traced bounds (exprFaults ctx.place false targets) layouts.targets.captures
    parts.targets
  values : Emit.Traced bounds (exprFaults ctx.place false init) layouts.values.captures parts.values

variable {targets init : List Expr} {parts : AssignmentParts} {layouts : Layout.AssignmentLayouts}

/-- A class that is assigned to a name asks about the name. -/
theorem traced_assignClass (h : parts.Traced bounds ctx targets init layouts) (target : Expr)
    (htarget : ∀ name, target.name? = some name → name ∈ bounds.footprint.names) :
    Traced bounds (exprFaults ctx.place false targets ++ classFaults ctx.place init)
      (match target.kind with
        | .name _ => layouts.classBody.captures
        | _ => layouts.firstTarget.captures || layouts.classBody.captures)
      (assignClass ctx target parts) := by
  obtain ⟨id, span, kind⟩ := target
  unfold assignClass
  cases kind with
  | name name =>
    refine (traced_ask (f := fun isRead => do
      let body ← parts.classBody
      return (if isRead && !ctx.annotations.localReferences.contains id &&
          !ctx.isParameter name then "globalThis." else "") ++
        Name.asBinding (ctx.annotations.resolve id name) ++ " = " ++
        classText (some (Name.asBinding (ctx.annotations.resolve id name))) body.2 body.1)
      (htarget name rfl) fun _ => h.classBody.map _).within (List.sublist_append_right _ _)
  | _ => exact h.firstTarget.bind fun _ => h.classBody.map _

/-- **An assignment is within the bounds of its parts**, if its targets are among the references. -/
theorem traced_assignment (h : parts.Traced (ctx.bounds refs I) ctx targets init layouts)
    (hI : ctx.isTop = true → Declarable I)
    (htargets : Skeleton.references (exprItems targets) ⊆ refs) :
    Traced (ctx.bounds refs I)
      (exprFaults ctx.place false targets ++ exprFaults ctx.place false init)
      (Layout.assignment ctx targets init layouts).captures
      (assignment ctx targets init parts) := by
  -- what an assignment of other than a class leaves behind
  have hbinding : Traced (ctx.bounds refs I)
      (exprFaults ctx.place false targets ++ exprFaults ctx.place false init)
      (Layout.append layouts.targets layouts.values).captures (do
        let texts ← parts.targets
        bind ctx.asValue (assignedTargets ctx targets texts) init (← parts.values)) :=
    h.targets.bind fun texts => h.values.before fun values =>
      traced_bind (within_assignedTargets texts htargets) hI init values
  unfold assignment Layout.assignment
  cases appendBase? targets init with
  | some base =>
    exact (traced_useSystemFunction _ _).after fun _ =>
      h.indexBase.bind fun _ => h.firstValue.map _
  | none =>
    dsimp only
    cases hdefines : definesClass targets init with
    | false => exact hbinding
    | true =>
      cases targets with
      | nil => exact hbinding
      | cons target rest =>
        -- the class goes by the name that is assigned to, which is a reference of the targets
        have hname : ∀ name, target.name? = some name →
            name ∈ (ctx.bounds refs I).footprint.names := fun name hname => by
          refine List.mem_map.2 ⟨(target.id, name), htargets ?_, rfl⟩
          rw [exprItems, Skeleton.references_append]
          exact List.mem_append_left _ (mem_references_of_name hname)
        -- the faults of the class are among those of the call that creates it
        have hfaults : Sublist (classFaults ctx.place init) (exprFaults ctx.place false init) := by
          unfold definesClass at hdefines
          split at hdefines
          · exact classFaults_sublist _ _ _ _ _ (Bool.and_eq_true_iff.1 hdefines).1
          · cases hdefines
        have hclass := (traced_assignClass h target hname).within ((Sublist.refl _).append hfaults)
        obtain ⟨id, span, kind⟩ := target
        cases kind <;> exact hclass

end Assignment

/-- A `return` is traced by its second argument if it returns a failure, and by all of them else. -/
theorem traced_returnStatement {arguments : List Expr} {second : Emit String}
    {all : Emit (List String)} {secondLayout allLayout : Layout}
    (hsecond : Traced bounds faults secondLayout.captures second)
    (hall : Traced bounds faults allLayout.captures all) :
    Traced bounds faults (Layout.returnStatement ctx arguments secondLayout allLayout).captures
      (returnStatement ctx arguments second all) := by
  unfold returnStatement Layout.returnStatement
  split
  · exact hsecond.map _
  · cases ctx.isTop with
    | true =>
      have hexport (texts : List String) : Traced bounds [] false (do
          return exportText ctx (← get).classes (packText texts)) :=
        traced_get (fun _ _ => rfl) fun _ => traced_pure _
      exact hall.before hexport
    | false => exact hall.map _

/-! ## The walk -/

/-- A function that brings no receiver of its own sees the one around it or none. -/
theorem isSome_receiver_inFunction {parameters shown : List Identifier}
    (h : (ctx.inFunction parameters shown none).receiver.isSome = true) :
    ctx.receiver.isSome = true := by
  have hreceiver : (ctx.inFunction parameters shown none).receiver =
      ctx.receiver.filter fun r => !shown.any fun p => p.name == r.name := rfl
  rw [hreceiver] at h
  exact Option.isSome_of_isSome_filter _ _ h

/-- What a block holds does not stand directly in the chunk. -/
theorem declarable_inBlock (ctx : Context) (I : List String → Prop) :
    ctx.inBlock.isTop = true → Declarable I :=
  fun htop => absurd htop (by simp [isTop_inBlock])

/-- What is traced in the context of a block is traced where the block stands. -/
theorem Traced.inBlock {m : Emit α} {body : List Stmt}
    (h : Traced (ctx.inBlock.bounds refs I) (stmtFaults ctx.inBlock.place body) a m) :
    Traced (ctx.bounds refs I) (stmtFaults ctx.place.inBlock body) a m := by
  rw [Context.place_inBlock] at h
  exact h

/-- The same of the body of a loop. -/
theorem Traced.inLoop {m : Emit α} {body : List Stmt}
    (h : Traced ((ctx.inLoop body).bounds refs I) (stmtFaults (ctx.inLoop body).place body) a m) :
    Traced (ctx.bounds refs I) (stmtFaults (ctx.place.inLoop body) body) a m := by
  rw [Context.place_inLoop] at h
  exact h

/-- The start of a loop over numbers is thrown away only if it is a numeral, which writes no name. -/
theorem captures_loopStart (ctx : Context) (registries : Registries) (first : Expr) :
    (Layout.loopStart first (Layout.expression ctx registries first)).captures =
      (Layout.expression ctx registries first).captures := by
  unfold Layout.loopStart
  split
  next hone =>
    obtain ⟨id, span, kind⟩ := first
    cases kind with
    | number value raw => rfl
    | _ => cases hone
  · rfl

variable (registries)

-- The recursion is on the tree. A node lowers its parts in the order of its layout, save that a rule
-- may write them elsewhere, which neither faults nor the flag can tell. What the references and the
-- faults of a node have in common is their order, so that both split where the node does.
mutual

/-- The trace of an expression is its faults, within the globals of its items. -/
theorem traced_expression : ∀ (e : Expr) (ctx : Context) (role : Role),
    Skeleton.references e.items ⊆ refs → Traced (ctx.bounds refs I) (e.faults ctx.place false)
      (Layout.expression ctx registries e).captures (expression ctx role e)
  | ⟨id, span, kind⟩, ctx, role, h => (traced_expressionKind id kind ctx role false h).around span

/-- Node by node, from the rules above. -/
theorem traced_expressionKind (id : NodeId) : ∀ (kind : ExprKind) (ctx : Context) (role : Role)
    (isStatement : Bool), Skeleton.references (kind.items id) ⊆ refs →
    Traced (ctx.bounds refs I) (kind.faults ctx.place false)
      (Layout.expressionKind ctx registries isStatement id kind).captures
      (expressionKind ctx role id kind)
  | .name name, ctx, _, _, _ => traced_reference ctx id name
  | .nil, _, _, _, _ | .boolean _, _, _, _, _ | .number .., _, _, _, _ | .string _, _, _, _, _
  | .vararg, _, _, _, _ => traced_pure _
  | .function f, ctx, _, _, h => (traced_function f ctx (.plain f) h).map _
  | .table fields, ctx, _, _, h => by
    have hentries (last : Role) := traced_entries fields ctx last h
    unfold expressionKind Layout.expressionKind
    dsimp only
    split
    · exact (hentries .spread).map _
    · exact (hentries .single).map _
  | .binary _ left right, ctx, _, _, h =>
    have h := references_append_subset.1 h
    (traced_expression left ctx _ h.1).bind fun _ => (traced_expression right ctx _ h.2).map _
  | .logical operator left right, ctx, _, _, h => by
    have h := references_append_subset.1 h
    have hright := traced_expression right ctx .single h.2
    unfold expressionKind Layout.expressionKind
    dsimp only
    split
    · exact (traced_conjuncts left ctx h.1).bind fun _ => hright.map _
    · -- both operands are written, wherever the left one stands
      have hlayout : (Layout.logical ctx operator (isRepeatable left)
          (Layout.expression ctx registries left) (Layout.expression ctx registries right)).captures =
            ((Layout.expression ctx registries left).captures ||
              (Layout.expression ctx registries right).captures) := by
        unfold Layout.logical
        split
        · cases operator <;> rfl
        · rfl
      rw [hlayout]
      exact (traced_expression left ctx _ h.1).bind fun _ => hright.map _
  | .unary _ argument, ctx, _, _, h => (traced_expression argument ctx _ h).map _
  | .member base _ identifier, ctx, _, _, h =>
    (traced_useMember base identifier).after fun _ => (traced_expression base ctx _ h).map _
  | .index base index, ctx, _, _, h =>
    have h := references_append_subset.1 h
    (traced_expression base ctx _ h.1).bind fun _ => (traced_expression index ctx _ h.2).map _
  | .call base _ arguments, ctx, role, isStatement, h => by
    have h := references_append_subset.1 h
    refine (traced_call ?_ role isStatement : Traced _ _ _ (call ctx role ⟨base, arguments⟩ _))
    exact
      { callee := traced_expression base ctx _ h.1
        owner := traced_owner base ctx h.1
        arguments := traced_expressions arguments ctx _ h.2
        firstArgument := traced_firstExpression arguments ctx h.2
        classBody := traced_classBody arguments ctx h.2
        member := fun owner indexer identifier hkind => by
          obtain ⟨baseId, span, kind⟩ := base
          obtain rfl : kind = .member owner indexer identifier := hkind
          rfl
        names := fun owner indexer identifier hkind name hname => by
          obtain ⟨baseId, span, kind⟩ := base
          obtain rfl : kind = .member owner indexer identifier := hkind
          exact List.mem_map.2 ⟨(owner.id, name), h.1 (mem_references_of_name hname), rfl⟩ }

theorem traced_conjuncts : ∀ (e : Expr) (ctx : Context), Skeleton.references e.items ⊆ refs →
    Traced (ctx.bounds refs I) (e.faults ctx.place false)
      (Layout.conjuncts ctx registries e).captures (conjuncts ctx e)
  | ⟨_, _, kind⟩, ctx, h => by
    cases kind with
    | logical operator left right =>
      have h := references_append_subset.1 h
      exact (traced_expression left ctx _ h.1).bind fun _ => (traced_expression right ctx _ h.2).map _
    | _ => exact traced_pure _

theorem traced_owner : ∀ (e : Expr) (ctx : Context), Skeleton.references e.items ⊆ refs →
    Traced (ctx.bounds refs I) (e.faults ctx.place false)
      (Layout.owner ctx registries e).captures (owner ctx e)
  | ⟨_, _, kind⟩, ctx, h => by
    cases kind with
    | member base => exact traced_expression base ctx _ h
    | _ => exact traced_pure _

theorem traced_indexBase : ∀ (es : List Expr) (ctx : Context),
    Skeleton.references (exprItems es) ⊆ refs →
    Traced (ctx.bounds refs I) (exprFaults ctx.place false es)
      (Layout.indexBase ctx registries es).captures (indexBase ctx es)
  | [], _, _ => traced_pure _
  | ⟨_, _, kind⟩ :: rest, ctx, h => by
    cases kind with
    | index base index =>
      have h := references_append_subset.1 (references_append_subset.1 h).1
      refine (traced_expression base ctx _ h.1).within ?_
      exact (List.sublist_append_left _ _).trans (List.sublist_append_left _ _)
    | _ => exact traced_pure _

theorem traced_expressions : ∀ (es : List Expr) (ctx : Context) (last : Role),
    Skeleton.references (exprItems es) ⊆ refs →
    Traced (ctx.bounds refs I) (exprFaults ctx.place false es)
      (Layout.expressions ctx registries es).captures (expressions ctx last es)
  | [], _, _, _ => traced_pure _
  | [only], ctx, last, h =>
    ((traced_expression only ctx last (references_append_subset.1 h).1).within
      (List.sublist_append_left _ _)).map _
  | first :: second :: rest, ctx, last, h =>
    have h := references_append_subset.1 h
    (traced_expression first ctx _ h.1).bind fun _ =>
      (traced_expressions (second :: rest) ctx last h.2).map _

theorem traced_firstExpression : ∀ (es : List Expr) (ctx : Context),
    Skeleton.references (exprItems es) ⊆ refs →
    Traced (ctx.bounds refs I) (exprFaults ctx.place false es)
      (Layout.firstExpression ctx registries es).captures (firstExpression ctx es)
  | [], _, _ => traced_pure _
  | first :: _, ctx, h =>
    (traced_expression first ctx _ (references_append_subset.1 h).1).within
      (List.sublist_append_left _ _)

theorem traced_secondExpression : ∀ (es : List Expr) (ctx : Context),
    Skeleton.references (exprItems es) ⊆ refs →
    Traced (ctx.bounds refs I) (exprFaults ctx.place false es)
      (Layout.secondExpression ctx registries es).captures (secondExpression ctx es)
  | [], _, _ => traced_pure _
  | _ :: rest, ctx, h =>
    (traced_firstExpression rest ctx (references_append_subset.1 h).2).within
      (List.sublist_append_right _ _)

/-- The body of a class is read where positional fields are faults. -/
theorem traced_classBody : ∀ (es : List Expr) (ctx : Context),
    Skeleton.references (exprItems es) ⊆ refs →
    Traced (ctx.bounds refs I) (exprFaults ctx.place true es)
      (Layout.classBody ctx registries es).captures (classBody ctx es)
  | [], _, _ => traced_pure _
  | ⟨_, _, kind⟩ :: rest, ctx, h => by
    have h := references_append_subset.1 h
    cases kind with
    | table fields =>
      -- that a value is kept has nothing to do with its place
      exact (traced_members fields ctx.asValue h.1 : Traced (ctx.bounds refs I) _ _ _).bind fun _ =>
        (traced_parent rest ctx h.2).map _
    | _ => exact traced_pure _

theorem traced_parent : ∀ (es : List Expr) (ctx : Context),
    Skeleton.references (exprItems es) ⊆ refs →
    Traced (ctx.bounds refs I) (exprFaults ctx.place false es)
      (Layout.parent ctx registries es).captures (parent ctx es)
  | [], _, _ => traced_pure _
  | first :: _, ctx, h =>
    ((traced_expression first ctx _ (references_append_subset.1 h).1).within
      (List.sublist_append_left _ _)).map _

theorem traced_callArguments : ∀ (es : List Expr) (ctx : Context),
    Skeleton.references (exprItems es) ⊆ refs →
    Traced (ctx.bounds refs I) (exprFaults ctx.place false es)
      (Layout.callArguments ctx registries es).captures (callArguments ctx es)
  | [], _, _ => traced_pure _
  | ⟨_, _, kind⟩ :: rest, ctx, h => by
    have h := references_append_subset.1 h
    cases kind with
    | call base style arguments =>
      refine (traced_expressions arguments ctx _ (references_append_subset.1 h.1).2).within ?_
      refine (exprFaults_sublist _ (base.isName "class") _).trans ?_
      exact (List.sublist_append_right _ _).trans (List.sublist_append_left _ _)
    | _ => exact traced_pure _

theorem traced_valueClassBody : ∀ (es : List Expr) (ctx : Context),
    Skeleton.references (exprItems es) ⊆ refs →
    Traced (ctx.bounds refs I) (classFaults ctx.place es)
      (Layout.valueClassBody ctx registries es).captures (valueClassBody ctx es)
  | [], _, _ => traced_pure _
  | ⟨_, _, kind⟩ :: _, ctx, h => by
    have h := references_append_subset.1 h
    cases kind with
    | call base style arguments =>
      exact traced_classBody arguments ctx (references_append_subset.1 h.1).2
    | _ => exact traced_pure _

theorem traced_entries : ∀ (fields : List Field) (ctx : Context) (last : Role),
    Skeleton.references (fieldItems fields) ⊆ refs →
    Traced (ctx.bounds refs I) (fieldFaults ctx.place false fields)
      (Layout.entries ctx registries fields).captures (entries ctx last fields)
  | [], _, _, _ => traced_pure _
  | ⟨_, span, kind⟩ :: rest, ctx, last, h =>
    have h := references_append_subset.1 h
    (traced_entry kind ctx _ span h.1).bind fun _ => (traced_entries rest ctx last h.2).map _

theorem traced_entry : ∀ (kind : FieldKind) (ctx : Context) (role : Role) (span : Span),
    Skeleton.references kind.items ⊆ refs →
    Traced (ctx.bounds refs I) (kind.faults ctx.place false span)
      (Layout.entry ctx registries kind).captures (entry ctx role kind)
  | .positional value, ctx, _, _, h => (traced_expression value ctx _ h).map _
  | .named _ value, ctx, _, _, h => (traced_expression value ctx _ h).map _
  | .keyed key value, ctx, _, _, h =>
    have h := references_append_subset.1 h
    (traced_expression key ctx _ h.1).bind fun _ => (traced_expression value ctx _ h.2).map _

/-- The members of a class are traced field by field. -/
theorem traced_members : ∀ (fields : List Field) (ctx : Context),
    Skeleton.references (fieldItems fields) ⊆ refs →
    Traced (ctx.bounds refs I) (fieldFaults ctx.place true fields)
      (Layout.members ctx registries fields).captures (members ctx fields)
  | [], _, _ => traced_pure _
  | ⟨_, span, kind⟩ :: rest, ctx, h =>
    have h := references_append_subset.1 h
    ((traced_member kind ctx span h.1).around span).bind fun _ => (traced_members rest ctx h.2).map _

/-- A positional member is the fault of its field. -/
theorem traced_member : ∀ (kind : FieldKind) (ctx : Context) (span : Span),
    Skeleton.references kind.items ⊆ refs →
    Traced (ctx.bounds refs I) (kind.faults ctx.place true span)
      (Layout.member ctx registries kind).captures (member ctx span kind)
  | .named _ value, ctx, _, h => traced_memberValue value ctx _ h
  | .keyed key value, ctx, _, h =>
    have h := references_append_subset.1 h
    (traced_expression key ctx _ h.1).bind fun _ => traced_memberValue value ctx _ h.2
  | .positional _, _, span, _ =>
    (traced_contain .positionalMember span).within (List.sublist_append_left _ _)

theorem traced_memberValue : ∀ (e : Expr) (ctx : Context) (key : String),
    Skeleton.references e.items ⊆ refs →
    Traced (ctx.bounds refs I) (e.faults ctx.place false)
      (Layout.memberValue ctx registries e).captures (memberValue ctx key e)
  | ⟨id, span, kind⟩, ctx, key, h => by
    have hkind : Traced (ctx.bounds refs I) (kind.faults ctx.place false)
        (Layout.expressionKind ctx registries false id kind).captures (do
          let text ← around span (expressionKind ctx .single id kind)
          return key ++ " = " ++ text ++ ";") :=
      ((traced_expressionKind id kind ctx .single false h).around span).map _
    cases kind with
    | function f => exact (traced_function f ctx _ h).map _
    | _ => exact hkind

/-- A function is traced by its body, which has a receiver of its own. -/
theorem traced_function {receiver : Bool} : ∀ (f : FunctionBody) (ctx : Context)
    (convention : Convention), Skeleton.references (f.items receiver) ⊆ refs →
    Traced (ctx.bounds refs I) f.faults (Layout.function ctx registries convention f).captures
      (function ctx convention f)
  | ⟨_, _, names, isVararg, body⟩, ctx, convention, h => by
    have hbody := traced_statements body
      (ctx.inFunction names convention.shown convention.receiver) (declarable_inBlock ctx I)
      (references_scope_subset.1 h).1.2
    rw [Context.place_inFunction] at hbody
    unfold function Layout.function
    rw [Layout.captures, Layout.captures_parameters, Bool.false_or, Layout.reception_eq_none,
      ← Option.not_isSome]
    dsimp only
    cases hreceiver : convention.receiver with
    | some name =>
      rw [hreceiver] at hbody
      exact (Traced.withReceiver hbody : Traced (ctx.bounds refs I) _ _ _).map _
    | none =>
      rw [hreceiver] at hbody
      exact (Traced.scope hbody isSome_receiver_inFunction : Traced (ctx.bounds refs I) _ _ _).map _

/-- **Statements in a row are within the bounds of their nodes**, if what is known of the classes stays
true where they can declare one. -/
theorem traced_statements : ∀ (body : List Stmt) (ctx : Context),
    (ctx.isTop = true → Declarable I) → Skeleton.references (stmtItems body) ⊆ refs →
    Traced (ctx.bounds refs I) (stmtFaults ctx.place body)
      (Layout.statements ctx registries body).captures (statements ctx body)
  | [], _, _, _ => traced_pure _
  | ⟨id, span, kind⟩ :: rest, ctx, hI, h =>
    have h := references_append_subset.1 h
    ((traced_statement id span kind ctx (fun htop _ => hI htop) h.1).around span).bind fun _ =>
      (traced_statements rest ctx hI h.2).map _

/-- The trace of a statement is its faults. Classes are declared at the top of the file only, by the
statements that may do so. -/
theorem traced_statement (id : NodeId) (span : Span) : ∀ (kind : StmtKind) (ctx : Context),
    (ctx.isTop = true → declaresClass kind = true → Declarable I) →
    Skeleton.references (kind.items id) ⊆ refs →
    Traced (ctx.bounds refs I) (kind.faults ctx.place span)
      (Layout.statement ctx registries id kind).captures (statement ctx id span kind)
  | .local vars init, ctx, hI, h => by
    have h : Skeleton.references (exprItems init) ⊆ refs := by
      simpa [StmtKind.items, Skeleton.references, Item.references] using h
    -- the variables are no references, so the trace is that of the values
    exact traced_localStatement
      { arguments := traced_callArguments init ctx h
        classBody := traced_valueClassBody init ctx h
        values := traced_expressions init ctx.asValue _ h } (fun htop => hI htop rfl) id vars
  | .assignment targets init, ctx, hI, h =>
    have h := references_append_subset.1 h
    traced_assignment
      { indexBase := traced_indexBase targets ctx h.1
        firstTarget := traced_firstExpression targets ctx h.1
        firstValue := traced_firstExpression init ctx h.2
        classBody := traced_valueClassBody init ctx h.2
        targets := traced_expressions targets ctx.asValue _ h.1
        values := traced_expressions init ctx.asValue _ h.2 } (fun htop => hI htop rfl) h.1
  | .call ⟨id, _, kind⟩, ctx, _, h => traced_expressionKind id kind ctx .statement true h
  | .localFunction name f, ctx, _, h => by
    have hf := traced_function f ctx (.plain f) h
    unfold statement Layout.statement
    split <;> exact hf.map _
  | .function (.name _) f, ctx, _, h =>
    (traced_function f ctx _ (references_append_subset.1 h).2).map _
  | .function (.member _ _ base _ _) f, ctx, _, h =>
    have h := references_append_subset.1 h
    (traced_expression base ctx _ h.1).bind fun _ => (traced_function f ctx _ h.2).map _
  | .return arguments, ctx, _, h => by
    unfold statement Layout.statement StmtKind.faults
    -- whether a return is allowed is told by the place alone
    rw [Context.allowsReturn_place]
    split
    · exact traced_returnStatement (traced_secondExpression arguments ctx h)
        (traced_expressions arguments ctx (packRole arguments) h)
    · exact (traced_contain _ span).within (List.sublist_append_left _ _)
  | .break, _, _, _ => traced_pure _
  | .goto label, ctx, _, _ => by
    have hlabel : ctx.place.label = ctx.continueLabel := rfl
    unfold statement Layout.statement gotoStatement Layout.jump StmtKind.faults
    rw [hlabel]
    split
    · exact traced_pure _
    · exact traced_contain _ span
  | .label label, ctx, _, _ => by
    have hlabel : ctx.place.label = ctx.continueLabel := rfl
    unfold statement Layout.statement labelStatement Layout.jump StmtKind.faults
    rw [hlabel]
    split
    · exact traced_pure _
    · exact traced_contain _ span
  | .block body, ctx, _, h =>
    (traced_statements body ctx.inBlock (declarable_inBlock ctx I)
      (references_scope_subset.1 h).1.2).inBlock.map _
  | .while condition body, ctx, _, h =>
    have h := references_append_subset.1 h
    (traced_expression condition ctx _ h.1).bind fun _ =>
      (traced_statements body (ctx.inLoop body) (declarable_inBlock ctx I)
        (references_scope_subset.1 h.2).1.2).inLoop.map _
  | .repeat body condition, ctx, _, h =>
    have h := references_append_subset.1 (references_scope_subset.1 h).1.2
    (traced_statements body (ctx.inLoop body) (declarable_inBlock ctx I) h.1).inLoop.bind fun _ =>
      (traced_expression condition ctx _ h.2).map _
  | .conditional ⟨_, _, condition, body⟩ others otherwise, ctx, _, h =>
    have h := references_append_subset.1 h
    have hbody := references_scope_subset.1 h.2
    have hothers := references_append_subset.1 hbody.2
    (traced_expression condition ctx _ h.1).bindPair
      (fun _ => (traced_statements body ctx.inBlock (declarable_inBlock ctx I) hbody.1.2).inBlock)
      fun _ _ => (traced_clauses others ctx hothers.1).bind fun _ =>
        (traced_elseClause otherwise ctx hothers.2).map _
  | .forNumeric counter first last step body, ctx, _, h => by
    have h := (references_scope_subset.1 h).1
    have hfirst := references_append_subset.1 h.1
    have hlast := references_append_subset.1 hfirst.2
    -- the counter captures nothing, and neither does a start that is thrown away
    have hlayout : (Layout.statement ctx registries id
        (.forNumeric counter first last step body)).captures =
          ((Layout.expression ctx.asBound registries first).captures ||
            ((Layout.expression ctx.asBound registries last).captures ||
              ((Layout.optional ctx.asBound registries step).captures ||
                (Layout.statements (ctx.inLoop body) registries body).captures))) := by
      simp only [Layout.statement, Layout.captures, captures_loopStart, Bool.false_or, Bool.or_assoc]
    rw [hlayout]
    exact (traced_expression first ctx.asBound _ hfirst.1 :
        Traced (ctx.bounds refs I) _ _ _).bind fun _ =>
      (traced_expression last ctx.asBound _ hlast.1 : Traced (ctx.bounds refs I) _ _ _).bind fun _ =>
        (traced_optional step ctx.asBound _ hlast.2 :
            Traced (ctx.bounds refs I) _ _ _).bind fun _ =>
          (traced_statements body (ctx.inLoop body) (declarable_inBlock ctx I) h.2).inLoop.map _
  | .forGeneric vars [iterator] body, ctx, _, h => by
    have h := (references_scope_subset.1 h).1
    have hlayout : (Layout.statement ctx registries id (.forGeneric vars [iterator] body)).captures =
        ((Layout.iterated ctx registries iterator).captures ||
          (Layout.statements (ctx.inLoop body) registries body).captures) := by
      simp only [Layout.statement, Layout.captures, Layout.captures_bindings, Bool.false_or]
    rw [hlayout]
    exact (traced_iterated iterator ctx (references_append_subset.1 h.1).1).bind fun _ =>
      (traced_statements body (ctx.inLoop body) (declarable_inBlock ctx I) h.2).inLoop.map _
  | .forGeneric _ [] _, _, _, _ => (traced_contain _ span).within (List.sublist_append_left _ _)
  | .forGeneric _ (_ :: _ :: _) _, _, _, _ =>
    (traced_contain _ span).within (List.sublist_append_left _ _)

theorem traced_optional : ∀ (e : Option Expr) (ctx : Context) (absent : String),
    Skeleton.references (stepItems e) ⊆ refs →
    Traced (ctx.bounds refs I) (stepFaults ctx.place e) (Layout.optional ctx registries e).captures
      (optional ctx absent e)
  | none, _, _, _ => traced_pure _
  | some e, ctx, _, h => traced_expression e ctx _ h

/-- What a loop runs over is traced by the arguments of its iterator, or as a call. -/
theorem traced_iterated : ∀ (e : Expr) (ctx : Context), Skeleton.references e.items ⊆ refs →
    Traced (ctx.bounds refs I) (exprFaults ctx.place false [e])
      (Layout.iterated ctx registries e).captures (iterated ctx e)
  | ⟨id, span, kind⟩, ctx, h => by
    have hkind : Traced (ctx.bounds refs I) (exprFaults ctx.place false [⟨id, span, kind⟩])
        (Layout.expressionKind ctx registries false id kind).captures
        (around span (expressionKind ctx .single id kind)) :=
      ((traced_expressionKind id kind ctx .single false h).around span).within
        (List.sublist_append_left _ [])
    cases kind with
    | call base style arguments =>
      cases style with
      | arguments =>
        unfold iterated Layout.iterated
        cases iteratorFunction? base with
        | none => exact hkind
        | some name =>
          have harguments := (references_append_subset.1 h).2
          refine ((traced_expressions arguments ctx .spread harguments).within ?_).map _
          refine (exprFaults_sublist _ (base.isName "class") _).trans ?_
          exact (List.sublist_append_right _ _).trans (List.sublist_append_left _ _)
      | _ => exact hkind
    | _ => exact hkind

theorem traced_clauses : ∀ (cs : List Clause) (ctx : Context),
    Skeleton.references (clauseItems cs) ⊆ refs →
    Traced (ctx.bounds refs I) (clauseFaults ctx.place cs)
      (Layout.clauses ctx registries cs).captures (clauses ctx cs)
  | [], _, _ => traced_pure _
  | ⟨_, _, condition, body⟩ :: rest, ctx, h =>
    have h := references_append_subset.1 h
    have hbody := references_scope_subset.1 h.2
    (traced_expression condition ctx _ h.1).bindPair
      (fun _ => (traced_statements body ctx.inBlock (declarable_inBlock ctx I) hbody.1.2).inBlock)
      fun _ _ => (traced_clauses rest ctx hbody.2).map _

theorem traced_elseClause : ∀ (otherwise : Option ElseClause) (ctx : Context),
    Skeleton.references (elseItems otherwise) ⊆ refs →
    Traced (ctx.bounds refs I) (elseFaults ctx.place otherwise)
      (Layout.elseClause ctx registries otherwise).captures (elseClause ctx otherwise)
  | none, _, _ => traced_pure _
  | some ⟨_, _, body⟩, ctx, h =>
    (traced_statements body ctx.inBlock (declarable_inBlock ctx I)
      (references_scope_subset.1 h).1.2).inBlock.map _

end

/-! ## What is read off -/

/-- An invariant that says nothing. -/
def anyClasses : List String → Prop := fun _ => True

/-- Nothing is asked of the declared classes. -/
theorem declarable_anyClasses : Declarable anyClasses := fun _ _ _ => trivial

/-- An expression leaves the frame of the walk as it is. -/
theorem framed_expression (e : Expr) (ctx : Context) (role : Role) :
    Framed ctx.receiver.isSome (e.faults ctx.place false) (expression ctx role e) :=
  (traced_expression .empty e ctx role (List.Subset.refl _) :
    Traced (ctx.bounds _ anyClasses) _ _ _).framed

theorem framed_entries (fields : List Field) (ctx : Context) (last : Role) :
    Framed ctx.receiver.isSome (fieldFaults ctx.place false fields) (entries ctx last fields) :=
  (traced_entries .empty fields ctx last (List.Subset.refl _) :
    Traced (ctx.bounds _ anyClasses) _ _ _).framed

theorem framed_entry (kind : FieldKind) (ctx : Context) (role : Role) (span : Span) :
    Framed ctx.receiver.isSome (kind.faults ctx.place false span) (entry ctx role kind) :=
  (traced_entry .empty kind ctx role span (List.Subset.refl _) :
    Traced (ctx.bounds _ anyClasses) _ _ _).framed

/-- A statement leaves the frame of the walk as it is. -/
theorem framed_statement (id : NodeId) (span : Span) (kind : StmtKind) (ctx : Context) :
    Framed ctx.receiver.isSome (kind.faults ctx.place span) (statement ctx id span kind) :=
  (traced_statement .empty id span kind ctx (fun _ _ => declarable_anyClasses)
    (List.Subset.refl _)).framed

/-- **Statements in a row keep to the frame of their faults.** -/
theorem framed_statements (body : List Stmt) (ctx : Context) :
    Framed ctx.receiver.isSome (stmtFaults ctx.place body) (statements ctx body) :=
  (traced_statements .empty body ctx (fun _ => declarable_anyClasses) (List.Subset.refl _)).framed

/-- **A program keeps to the frame of its faults.** -/
theorem framed_chunk (ctx : Context) (c : Chunk) :
    Framed ctx.receiver.isSome (stmtFaults ctx.place c.body) (chunk ctx c) := by
  rw [← List.append_nil (stmtFaults ctx.place c.body)]
  exact (framed_statements c.body ctx).bind fun _ => framed_get fun _ =>
    framed_commentsLeft.bind fun _ => framed_pure _

/-- An expression reads no global but those its items refer to. -/
theorem confined_expression (e : Expr) (ctx : Context) (role : Role)
    (h : Skeleton.references e.items ⊆ refs) : Confined (ctx.footprint refs) (expression ctx role e) :=
  (traced_expression .empty e ctx role h : Traced (ctx.bounds refs anyClasses) _ _ _).confined

/-- A statement reads no global but those its items refer to. -/
theorem confined_statement (id : NodeId) (span : Span) (kind : StmtKind) (ctx : Context)
    (h : Skeleton.references (kind.items id) ⊆ refs) :
    Confined (ctx.footprint refs) (statement ctx id span kind) :=
  (traced_statement .empty id span kind ctx (fun _ _ => declarable_anyClasses) h).confined

/-- **A program has the footprint of its references.** -/
theorem confined_chunk (ctx : Context) {c : Chunk} (h : Skeleton.references c.items ⊆ refs) :
    Confined (ctx.footprint refs) (chunk ctx c) := by
  have hbody := traced_statements .empty c.body ctx (fun _ => declarable_anyClasses)
    (references_scope_subset.1 h).1.2
  refine hbody.confined.bind fun _ => ?_
  refine confined_get (fun _ _ => rfl) fun _ => confined_commentsLeft.bind fun _ => ?_
  exact confined_pure _

/-- **A statement keeps an invariant of the classes declared**, if declaring one does where it can. -/
theorem keeps_statement (id : NodeId) (span : Span) (kind : StmtKind) (ctx : Context)
    (hI : ctx.isTop = true → declaresClass kind = true → Declarable I) :
    Keeps I (statement ctx id span kind) :=
  (traced_statement .empty id span kind ctx hI (List.Subset.refl _)).keeps

/-- **Statements in a row keep an invariant of the classes declared.** -/
theorem keeps_statements (body : List Stmt) (ctx : Context) (hI : ctx.isTop = true → Declarable I) :
    Keeps I (statements ctx body) :=
  (traced_statements .empty body ctx hI (List.Subset.refl _)).keeps

/-- **Statements in a row set the flag exactly if their layout captures**, whatever globals are read. -/
theorem captures_statements (body : List Stmt) (ctx : Context) :
    Captures (Layout.statements ctx registries body).captures (statements ctx body) :=
  (traced_statements registries body ctx (fun _ => declarable_anyClasses)
    (List.Subset.refl _)).captures

/-- **The body of a method begins with the variable that holds its receiver exactly if its statements
capture**, and goes on with the statements. -/
theorem body_function {convention : Convention} (hmethod : convention.receiver.isSome = true)
    (ctx : Context) (f : FunctionBody) (p : Progress) :
    ((function ctx convention f).run p).1.body =
      (if (Layout.statements (ctx.inFunction f.parameters convention.shown convention.receiver)
          registries f.body).captures then aliasDeclaration else "") ++
        sequence ((statements (ctx.inFunction f.parameters convention.shown convention.receiver)
          f.body).run { p with captured := false }).1 := by
  obtain ⟨id, span, parameters, isVararg, body⟩ := f
  let inner := ctx.inFunction parameters convention.shown convention.receiver
  rw [function, if_pos hmethod,
    ← withReceiver_snd (captures_statements registries body inner) p]
  rfl

end LuaCompiler.Emit
