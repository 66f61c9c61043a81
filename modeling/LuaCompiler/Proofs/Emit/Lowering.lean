import LuaCompiler.Proofs.Emit.Texts

/-!
# What lowerings write

`Emits registries m R` says what a lowering gives wherever it starts: the queue before, the value and
the queue behind are related by `R`, for every list of classes that holds those declared so far. The
rules of the monad and of its primitives come first, then one statement for each rule that runs the
lowerings of its parts.

* `emits_call`, `emits_assignment`, `emits_localStatement`, `emits_returnStatement`: the rules write
  what their layouts say, if the parts do.
-/

namespace LuaCompiler.Emit

open Script (Plain Closed)

variable {α β : Type} {registries : Registries}

/-- **Progress from which lowering goes on**: line comments end with their line, the classes declared
are closed texts, and the globals read are those of the program. -/
structure Progress.Sound (registries : Registries) (p : Progress) : Prop where
  comments : ∀ c ∈ p.comments.waiting, c.IsTidy
  classes : ∀ c ∈ p.classes, ∃ found, Closed c found
  globals : ∀ name, p.registries.isGlobalRead name = registries.isGlobalRead name

/-- What a lowering does to the comments, for a list of declared classes. -/
abbrev Effect (α : Type) : Type := List String → CommentQueue → α → CommentQueue → Prop

/-- **What a lowering gives**, wherever it starts. -/
def Emits (registries : Registries) (m : Emit α) (R : Effect α) : Prop :=
  ∀ p, p.Sound registries → (m.run p).2.Sound registries ∧ p.classes ⊆ (m.run p).2.classes ∧
    ∀ K, (m.run p).2.classes ⊆ K → R K p.comments (m.run p).1 (m.run p).2.comments

/-- A lowering whose text is put together as a layout says. -/
abbrev EmitsText (registries : Registries) (m : Emit String) (l : Layout) : Prop :=
  Emits registries m fun K => Renders K l

/-- A lowering whose texts are put together in a row. -/
abbrev EmitsRow (registries : Registries) (m : Emit (List String)) (l : Layout) : Prop :=
  Emits registries m fun K => RendersRow K l

/-- A lowering of members and parent of a class. -/
abbrev EmitsClass (registries : Registries) (m : Emit (List String × Option String))
    (l : Layout) : Prop :=
  Emits registries m fun K => RendersClass K l

/-! ## The monad -/

variable {m : Emit α} {f : α → Emit β} {R R' : Effect α} {S : Effect β}

/-- A text that is there already takes no comments. -/
theorem emits_pure {a : α} (h : ∀ K q, R K q a q) : Emits registries (pure a) R :=
  fun p hp => ⟨hp, List.Subset.refl _, fun K _ => h K p.comments⟩

/-- Two lowerings, of which the second may use what is known of the first one's value. -/
theorem Emits.bindKnown (hm : Emits registries m R)
    (hf : ∀ a, (∃ K q q', (∀ c ∈ q.waiting, c.IsTidy) ∧ R K q a q') →
      Emits registries (f a) fun K q' b q'' => ∀ q, R K q a q' → S K q b q'') :
    Emits registries (m >>= f) S := by
  intro p hp
  obtain ⟨hsound, hclasses, hfirst⟩ := hm p hp
  obtain ⟨hsound', hclasses', hsecond⟩ := hf (m.run p).1
    ⟨_, _, _, hp.comments, hfirst _ (List.Subset.refl _)⟩ (m.run p).2 hsound
  exact ⟨hsound', List.Subset.trans hclasses hclasses',
    fun K hK => hsecond K hK _ (hfirst K (List.Subset.trans hclasses' hK))⟩

/-- Comments are taken in the order of the actions. -/
theorem Emits.bind (hm : Emits registries m R)
    (hf : ∀ a, Emits registries (f a) fun K q' b q'' => ∀ q, R K q a q' → S K q b q'') :
    Emits registries (m >>= f) S :=
  hm.bindKnown fun a _ => hf a

/-- Less may be said of what is written. -/
theorem Emits.imp (hm : Emits registries m R) (h : ∀ K q a q', R K q a q' → R' K q a q') :
    Emits registries m R' := by
  intro p hp
  obtain ⟨hsound, hclasses, hfirst⟩ := hm p hp
  exact ⟨hsound, hclasses, fun K hK => h K _ _ _ (hfirst K hK)⟩

/-- Both branches of a test are followed. -/
theorem Emits.ite {c : Prop} [Decidable c] {m' : Emit α} (hm : c → Emits registries m R)
    (hm' : ¬ c → Emits registries m' R) : Emits registries (if c then m else m') R := by
  split
  next h => exact hm h
  next h => exact hm' h

/-- A lowering that uses the progress so far. -/
theorem emits_get {f : Progress → Emit β}
    (h : ∀ p, p.Sound registries → Emits registries (f p) fun K q b q' =>
      (∀ c ∈ p.classes, c ∈ K) → S K q b q') : Emits registries (get >>= f) S := by
  intro p hp
  obtain ⟨hsound, hclasses, hrest⟩ := h p hp p hp
  exact ⟨hsound, hclasses, fun K hK => hrest K hK fun c hc => hK (hclasses hc)⟩

/-- A lowering behind a step that leaves the queue alone. -/
theorem Emits.skip (hm : Emits registries m fun _ q _ q' => q' = q)
    (hf : ∀ a, Emits registries (f a) S) : Emits registries (m >>= f) S := by
  refine hm.bind fun a => (hf a).imp fun K q b q' hb q₀ hq => ?_
  subst hq
  exact hb

/-- A lowering behind a step that leaves comments, classes and globals alone. -/
theorem emits_modify {g : Progress → Progress} {f : PUnit → Emit β}
    (hcomments : ∀ p, (g p).comments = p.comments) (hclasses : ∀ p, (g p).classes = p.classes)
    (hglobals : ∀ p, (g p).registries.globalReads = p.registries.globalReads)
    (hf : Emits registries (f ⟨⟩) S) : Emits registries (modify g >>= f) S := by
  have hmodify : Emits registries (modify g : Emit PUnit) fun _ q _ q' => q' = q := by
    intro p hp
    have hrun : (modify g : Emit PUnit).run p = (⟨⟩, g p) := rfl
    rw [hrun]
    refine ⟨⟨?_, ?_, fun name => ?_⟩, ?_, fun K _ => hcomments p⟩
    · rw [hcomments]
      exact hp.comments
    · rw [hclasses]
      exact hp.classes
    · rw [← hp.globals name, Registries.isGlobalRead, hglobals, Registries.isGlobalRead]
    · rw [hclasses]
      exact List.Subset.refl _
  exact hmodify.skip fun _ => hf

/-! ## Primitives -/

/-- A node takes the comments before it, then its own, then those behind it. -/
theorem Emits.around {node : Emit String} {l : Layout} (h : EmitsText registries node l)
    (span : Span) : EmitsText registries (around span node) (.around span l) := by
  intro p hp
  have hbefore : ∀ c ∈ (p.comments.before span).2.waiting, c.IsTidy :=
    fun c hc => hp.comments c ((List.dropWhile_suffix _).subset hc)
  obtain ⟨hsound, hclasses, hnode⟩ := h { p with comments := (p.comments.before span).2 }
    ⟨hbefore, hp.classes, hp.globals⟩
  refine ⟨⟨fun c hc => ?_, hsound.classes, hsound.globals⟩, hclasses, fun K hK => .around (hnode K hK)⟩
  exact hsound.comments c ((List.dropWhile_suffix _).subset hc)

/-- A contained error is written as its remark. -/
theorem emits_contain (unsupported : Unsupported) (span : Span) :
    EmitsText registries (contain unsupported span) (.remark unsupported) :=
  emits_modify (fun _ => rfl) (fun _ => rfl) (fun _ => rfl) (emits_pure fun _ _ => .remark)

/-- Recording a function takes no comments. -/
theorem emits_useSystemFunction (library name : String) {f : PUnit → Emit β}
    (hf : Emits registries (f ⟨⟩) S) :
    Emits registries (useSystemFunction library name >>= f) S :=
  emits_modify (fun _ => rfl) (fun _ => rfl) (fun _ => rfl) hf

/-- Declaring a class takes no comments. -/
theorem emits_declareClass {name : String} (h : ∃ found, Closed name found) :
    Emits registries (declareClass name) fun _ q _ q' => q' = q := by
  intro p hp
  have hrun : (declareClass name).run p = ((), if p.classes.contains name then p
    else { p with classes := p.classes ++ [name] }) := rfl
  rw [hrun]
  split
  · exact ⟨hp, List.Subset.refl _, fun _ _ => rfl⟩
  · refine ⟨⟨hp.comments, fun c hc => ?_, hp.globals⟩, List.subset_append_left _ _, fun _ _ => rfl⟩
    rcases List.mem_append.1 hc with hc | hc
    · exact hp.classes c hc
    · rw [List.mem_singleton.1 hc]
      exact h

/-- A reference is written as its word. -/
theorem emits_reference {ctx : Context} (hctx : ctx.Tame) {id : NodeId} {name : String}
    (hname : Name.isValid name = true) :
    EmitsText registries (reference ctx (ctx.annotations.resolve id name))
      (.word ⟨ctx, id, name, false⟩) := by
  have hword := hctx.wordText id false hname
  have htext : Word.text ⟨ctx, id, name, false⟩ =
      referenceText ctx (ctx.annotations.resolve id name) := rfl
  unfold referenceText at htext
  unfold reference
  cases hreceiver : ctx.receiver.filter (·.name == ctx.annotations.resolve id name) with
  | some receiver =>
    rw [hreceiver] at htext
    dsimp only at htext ⊢
    refine .ite (fun hdepth => ?_) fun hdepth => ?_
    · rw [if_pos hdepth] at htext
      exact emits_pure fun _ _ => htext ▸ .word hword
    · rw [if_neg hdepth] at htext
      exact emits_modify (fun _ => rfl) (fun _ => rfl) (fun _ => rfl)
        (emits_pure fun _ _ => htext ▸ .word hword)
  | none =>
    rw [hreceiver] at htext
    dsimp only at htext ⊢
    exact emits_pure fun _ _ => htext ▸ .word hword

/-- What is written below a receiver is written. -/
theorem Emits.withReceiver {body : Emit α} (h : Emits registries body R) :
    Emits registries (withReceiver body) fun K q result q' => R K q result.1 q' := by
  refine emits_get fun p _ => emits_modify (fun _ => rfl) (fun _ => rfl) (fun _ => rfl) ?_
  refine h.bind fun a => emits_get fun p' _ => ?_
  refine emits_modify (fun _ => rfl) (fun _ => rfl) (fun _ => rfl) ?_
  exact emits_pure fun K q _ q' ha _ => ha

/-! ## Texts made of one or two -/

variable {n : Emit String} {a b l : Layout}

/-- A text is put into another one. -/
theorem EmitsText.map (h : EmitsText registries n a) {g : String → String}
    (hg : ∀ K q t q', Renders K a q t q' → Renders K l q (g t) q') :
    EmitsText registries (do return g (← n)) l :=
  h.bind fun _ => emits_pure fun K q q' ht => hg K q' _ q ht

/-- Texts in a row are put into another one. -/
theorem EmitsRow.map {ns : Emit (List String)} (h : EmitsRow registries ns a)
    {g : List String → String}
    (hg : ∀ K q ts q', RendersRow K a q ts q' → Renders K l q (g ts) q') :
    EmitsText registries (do return g (← ns)) l :=
  h.bind fun _ => emits_pure fun K q q' ht => hg K q' _ q ht

/-! ## Names in trees of the grammar -/

/-- The name of an expression in a tree that was parsed is an identifier. -/
theorem isValid_of_name {e : Expr} {called : Bool} {name : String} (h : e.Shaped called)
    (hname : e.name? = some name) : Name.isValid name = true := by
  obtain ⟨id, span, kind⟩ := e
  cases kind with
  | name other => exact Option.some.inj hname ▸ h
  | _ => cases hname

/-- So are both parts of a qualified name. -/
theorem isValid_of_qualifiedName {e : Expr} {called : Bool} {library name : String}
    (h : e.Shaped called) (hname : e.qualifiedName? = some (library, name)) :
    Name.isValid library = true ∧ Name.isValid name = true := by
  obtain ⟨id, span, kind⟩ := e
  cases kind with
  | member base indexer identifier =>
    obtain ⟨other, hother, heq⟩ := Option.map_eq_some_iff.1 hname
    obtain ⟨rfl, rfl⟩ := Prod.mk.inj heq
    exact ⟨isValid_of_name h.1 hother, h.2.2⟩
  | _ => cases hname

/-! ## Calls -/

/-- The parts of a call are lowered as their layouts say. -/
structure CallParts.Emits (registries : Registries) (parts : CallParts)
    (layouts : Layout.CallLayouts) : Prop where
  callee : EmitsText registries parts.callee layouts.callee
  owner : EmitsText registries parts.owner layouts.owner
  arguments : EmitsRow registries parts.arguments layouts.arguments
  firstArgument : EmitsText registries parts.firstArgument layouts.firstArgument
  classBody : EmitsClass registries parts.classBody layouts.classBody

section Call

variable {ctx : Context} {site : CallSite} {parts : CallParts} {layouts : Layout.CallLayouts}

/-- A call without a pattern writes its callee and its arguments. -/
theorem emits_genericCall (h : parts.Emits registries layouts) :
    EmitsText registries (genericCall ctx site parts) (Layout.genericCall layouts) := by
  refine h.callee.bind fun callee => h.arguments.bind fun arguments => emits_pure ?_
  intro K q q' harguments q₀ hcallee
  have hbase := hcallee.asBase site.base
  split
  · exact (hbase.behind (by decide)).call harguments
  · exact hbase.call harguments

/-- A call of the namespace writes its arguments. -/
theorem emits_supportCall (h : parts.Emits registries layouts) {function : String}
    (hfunction : Plain function) :
    EmitsText registries (supportCall parts function) layouts.arguments :=
  h.arguments.map fun _ _ _ _ hrow => hrow.arguments hfunction

/-- So does a call of a library. -/
theorem emits_libraryCall (h : parts.Emits registries layouts) {library name : String}
    (hlibrary : Script.Quiet library) (hname : Script.Quiet name) :
    EmitsText registries (libraryCall parts library name) layouts.arguments := by
  refine emits_useSystemFunction library name (emits_supportCall h (Script.plain_of_quiet ?_))
  exact ((Script.Quiet.append (by decide) hlibrary).append (by decide)).append
    (Name.quiet_asProperty hname)

/-- Whether an owner is a global of another file is told by the globals read, which stay. -/
theorem isForeignGlobal_congr {p : Progress} (hp : p.Sound registries) (owner : Expr) :
    isForeignGlobal ctx p.registries owner = isForeignGlobal ctx registries owner := by
  simp only [isForeignGlobal, hp.globals]

/-- A call of a member writes the owner among its arguments, or the callee as it is. -/
theorem emits_selfCall (h : parts.Emits registries layouts) (owner : Expr)
    {identifier : Identifier} (hname : Name.isValid identifier.name = true) :
    EmitsText registries (selfCall ctx site parts owner identifier)
      (if isForeignGlobal ctx registries owner then Layout.genericCall layouts
        else .append layouts.owner layouts.arguments) := by
  refine emits_get fun p hp => ?_
  rw [isForeignGlobal_congr hp]
  split
  · refine h.callee.bind fun callee => h.arguments.bind fun arguments => emits_pure ?_
    intro K q q' harguments q₀ hcallee _
    exact hcallee.call harguments
  · refine h.owner.bind fun text => h.arguments.bind fun arguments => emits_pure ?_
    intro K q q' harguments q₀ howner _
    have hbase := howner.asBase owner
    refine Renders.call (.behind (.memberText ?_ hname) (by decide)) harguments
    split
    · exact hbase
    · exact hbase.behind (by decide)

/-- The message of an error is written once; in an expression, in a function of its own. -/
theorem emits_errorText (h : parts.Emits registries layouts) (role : Role) :
    EmitsText registries (do return errorText role (← parts.firstArgument))
      (if role = .statement then layouts.firstArgument
        else .braces true layouts.firstArgument) := by
  refine h.firstArgument.map fun K q t q' ht => ?_
  have hraise := ht.parens.before (s := "throw new Error") (by decide)
  unfold errorText
  dsimp only
  split
  · exact hraise
  · have hbody : Renders K (.braces true layouts.firstArgument) q
        (braced (" " ++ ("throw new Error" ++ parens t) ++ "; ")) q' :=
      .braces ((hraise.before (by decide)).behind (by decide))
    have hcall := ((hbody.before (s := "() => ") (by decide)).parens).behind (s := "()") (by decide)
    have htext : parens ("() => " ++ braced (" " ++ ("throw new Error" ++ parens t) ++ "; ")) ++
        "()" = "(() => " ++ braced (" " ++ ("throw new Error" ++ parens t) ++ "; ") ++ ")()" := by
      apply String.toList_inj.1
      simp [parens]
    exact htext ▸ hcall

/-- `select` writes its index unless that is a number. -/
theorem emits_selectText (h : parts.Emits registries layouts) (index : Expr)
    (rest : List Expr) (hsite : site.arguments = index :: rest) :
    EmitsText registries (selectText index parts.firstArgument)
      (match site.arguments with
        | ⟨_, _, .number ..⟩ :: _ => .blank
        | _ :: _ => layouts.firstArgument
        | [] => Layout.genericCall layouts) := by
  rw [hsite]
  obtain ⟨id, span, kind⟩ := index
  unfold selectText
  cases kind with
  | number value raw =>
    refine emits_pure fun _ _ => .blank ?_
    have htext : Plain (value.sub .one).text := Script.plain_of_quiet (Binary64.Signed.quiet_text _)
    rw [brackets_eq]
    exact Script.Closed.plain_append (by decide) (htext.enclosed .square)
  | _ =>
    exact h.firstArgument.map fun _ _ _ _ ht =>
      (ht.behind (by decide)).brackets.before (by decide)

/-- A class is written from its body or from its arguments. -/
theorem emits_classCall (h : parts.Emits registries layouts) :
    EmitsText registries (classCall site parts)
      (if isNativeClass site.arguments then layouts.classBody else layouts.arguments) := by
  unfold classCall
  split
  · exact h.classBody.bind fun body => emits_pure fun _ _ _ hbody => hbody.classText
  · exact h.arguments.map fun _ _ _ _ hrow => hrow.arguments (by decide)

/-- `table.concat` writes its arguments, and a separator if there is none. -/
theorem emits_tableConcat (h : parts.Emits registries layouts) :
    EmitsText registries (do
      useSystemFunction "table" "concat"
      let arguments ← parts.arguments
      return callText "l2j.table.concat"
        (if arguments.length = 1 then arguments ++ ["\"\""] else arguments)) layouts.arguments := by
  refine emits_useSystemFunction "table" "concat" (h.arguments.bind fun arguments => emits_pure ?_)
  intro K q q' hrow
  split
  next hone =>
    obtain ⟨only, rfl⟩ := List.length_eq_one_iff.1 hone
    have htext := (((hrow.commas.behind (s := ", ") (by decide)).behind (s := "\"\"")
      (by decide)).parens).before (s := "l2j.table.concat") (by decide)
    simpa [callText, commas] using htext
  · exact hrow.arguments (by decide)

/-- **A call is put together as its layout says.** -/
theorem emits_call (hctx : ctx.Tame) (hbase : site.base.Shaped true) (role : Role)
    (h : parts.Emits registries layouts) :
    EmitsText registries (call ctx role site parts)
      (Layout.call ctx registries (decide (role = .statement)) site layouts) := by
  -- both sides branch on the pattern, so each rule is compared with its own layout
  unfold call Layout.call
  cases patternAt ctx site with
  | classFactory => exact emits_classCall h
  | selectLength => exact emits_pure fun _ _ => .blank (by decide)
  | selectIndex =>
    dsimp only
    cases hsite : site.arguments with
    | nil => exact emits_genericCall h
    | cons index rest =>
      have hselect := emits_selectText h index rest hsite
      rw [hsite] at hselect
      exact hselect
  | stringFormat => exact emits_libraryCall h (by decide) (by decide)
  | error => simpa using emits_errorText h role
  | tableInsert | tableInsertAt => exact emits_libraryCall h (by decide) (by decide)
  | tableConcat => exact emits_tableConcat h
  | type => exact emits_supportCall h (by decide)
  | systemFunction =>
    dsimp only
    split
    next library name hname =>
      -- the names of the library function are those of the tree
      obtain ⟨hlibrary, hmember⟩ := isValid_of_qualifiedName hbase hname
      rw [hname]
      exact emits_libraryCall h (Name.quiet_of_isValid hlibrary) (Name.quiet_of_isValid hmember)
    next hname =>
      rw [hname]
      exact emits_genericCall h
  | require => exact emits_supportCall h (by decide)
  | selfCall =>
    obtain ⟨⟨id, span, kind⟩, arguments⟩ := site
    cases kind with
    | member owner indexer identifier => exact emits_selfCall h owner hbase.2.2
    | _ => exact emits_genericCall h
  | valueType =>
    refine h.arguments.map fun _ _ _ _ hrow => ?_
    have hname : Plain (site.base.name?.getD "") := by
      cases hname : site.base.name? with
      | none => exact Script.plain_empty
      | some name => exact Script.plain_of_quiet (Name.quiet_of_isValid (isValid_of_name hbase hname))
    have hlead : Plain ("new " ++ ctx.options.valueTypeNamespace ++ ".") :=
      (Script.Closed.plain_append (by decide) hctx.valueTypes).append_plain (by decide)
    exact (hrow.arguments hname).before hlead
  | assert => exact emits_supportCall h (by decide)
  | generic => exact emits_genericCall h

end Call

/-! ## Bindings -/

section Binding

variable {K : List String} {q q' q'' : CommentQueue} {t : String} {ts values : List String}
  {ctx : Context} {targets : Targets}

/-- Targets are written as a list in brackets, or the only one by itself. -/
theorem RendersRow.pattern (h : RendersRow K l q targets.texts q') :
    Renders K l q targets.pattern q' := by
  unfold Targets.pattern
  split
  next only honly =>
    rw [honly] at h
    exact h.only
  · exact h.commas.brackets

/-- A text that binds targets to values, of which the targets may be published or taken apart. -/
def Binds (K : List String) (targets : Targets) (values : List String) (t : String) : Prop :=
  ∃ lead pattern value, t = lead ++ pattern ++ " = " ++ value ∧
    (lead = targets.lead ∨ lead = "globalThis." ∧ targets.isLocal = false) ∧
    (pattern = targets.pattern ∨ pattern = brackets targets.pattern) ∧
    ∀ l q q', RendersRow K l q values q' → Renders K l q value q'

/-- An assignment writes its targets before its values. -/
theorem Binds.assigned (h : Binds K targets values t) (hlead : Plain targets.lead)
    (ha : Renders K a q targets.pattern q') (hb : RendersRow K b q' values q'') :
    Renders K (.append a b) q t q'' := by
  obtain ⟨lead, pattern, value, rfl, hl, hp, hvalue⟩ := h
  have hplain : Plain lead := by
    rcases hl with rfl | ⟨rfl, -⟩
    · exact hlead
    · decide
  have hpattern : Renders K a q pattern q' := by
    rcases hp with rfl | rfl
    · exact ha
    · exact ha.brackets
  exact .append ((hpattern.before hplain).behind (by decide)) (hvalue _ _ _ hb)

/-- Values are packed in their order. -/
theorem RendersRow.packValues (h : RendersRow K l q ts q') (init : List Expr) :
    Renders K l q (Emit.packValues init ts) q' := by
  unfold Emit.packValues
  split
  · split
    · exact h.packText
    · exact h.commas.brackets
  · exact h.packText

/-- A name is bound to its value. -/
theorem binds_bindPlain {lead : String} (name : String) (node : Expr) (value : String)
    (hlead : lead = targets.lead ∨ lead = "globalThis." ∧ targets.isLocal = false) :
    Binds K targets [value] (bindPlain ctx lead targets.pattern name node value) := by
  unfold bindPlain
  split
  · refine ⟨lead, _, _, rfl, hlead, .inl rfl, fun l q q' h => ?_⟩
    unfold copiedName
    split
    · exact h.only.before (by decide)
    · exact h.only
  · split
    · exact ⟨lead, _, _, rfl, hlead, .inr rfl, fun l q q' h => .respelled h.only⟩
    · exact ⟨lead, _, _, rfl, hlead, .inl rfl, fun l q q' h => h.only⟩

/-- Binding one name takes no comments besides those of its value. -/
theorem emits_bindName (hclosed : ∃ found, Closed targets.pattern found) (name : String)
    (node : Expr) (value : String) :
    Emits registries (bindName ctx targets name node value)
      fun K q t q' => q' = q ∧ Binds K targets [value] t := by
  refine emits_get fun p hp => ?_
  dsimp only
  cases hglobal : publishes ctx p.registries targets name node value with
  | false =>
    refine .ite (fun h => absurd h Bool.false_ne_true) fun _ => ?_
    refine .ite (fun _ => .ite (fun _ => ?_) fun _ => ?_) fun _ => ?_
    · exact (emits_declareClass hclosed).skip fun _ => emits_pure fun K q _ =>
        ⟨rfl, _, _, _, rfl, .inl rfl, .inl rfl, fun l q q' h => h.arguments (by decide)⟩
    · exact emits_pure fun K q _ => ⟨rfl, _, _, _, rfl, .inl rfl, .inl rfl, fun l q q' h => h.only⟩
    · exact emits_pure fun K q _ => ⟨rfl, binds_bindPlain name node value (.inl rfl)⟩
  | true =>
    have hlocal : targets.isLocal = false := by
      simp only [publishes, Bool.and_eq_true, Bool.not_eq_true'] at hglobal
      exact hglobal.1.1.1.1.1
    refine emits_modify (fun _ => rfl) (fun _ => rfl) (fun _ => rfl) ?_
    refine .ite (fun _ => .ite (fun _ => ?_) fun _ => ?_) fun _ => ?_
    · exact (emits_declareClass hclosed).skip fun _ => emits_pure fun K q _ =>
        ⟨rfl, _, _, _, rfl, .inr ⟨rfl, hlocal⟩, .inl rfl, fun l q q' h => h.arguments (by decide)⟩
    · exact emits_pure fun K q _ =>
        ⟨rfl, _, _, _, rfl, .inr ⟨rfl, hlocal⟩, .inl rfl, fun l q q' h => h.only⟩
    · exact emits_pure fun K q _ => ⟨rfl, binds_bindPlain name node value (.inr ⟨rfl, hlocal⟩)⟩

/-- Binding several names takes none besides those of the values. -/
theorem emits_bind (hclosed : ∃ found, Closed targets.pattern found) (init : List Expr)
    (values : List String) :
    Emits registries (Emit.bind ctx targets init values)
      fun K q t q' => q' = q ∧ Binds K targets values t := by
  unfold Emit.bind
  split
  · exact emits_bindName hclosed _ _ _
  · exact emits_pure fun K q => ⟨rfl, _, _, _, rfl, .inl rfl, .inl rfl,
      fun l q q' h => h.only⟩
  · exact emits_pure fun K q => ⟨rfl, _, _, _, rfl, .inl rfl, .inl rfl,
      fun l q q' h => .respelled (h.packValues _)⟩

/-! ### Assignments -/

/-- The parts of an assignment are lowered as their layouts say. -/
structure AssignmentParts.Emits (registries : Registries) (parts : AssignmentParts)
    (layouts : Layout.AssignmentLayouts) : Prop where
  indexBase : EmitsText registries parts.indexBase layouts.indexBase
  firstTarget : EmitsText registries parts.firstTarget layouts.firstTarget
  firstValue : EmitsText registries parts.firstValue layouts.firstValue
  classBody : EmitsClass registries parts.classBody layouts.classBody
  targets : EmitsRow registries parts.targets layouts.targets
  values : EmitsRow registries parts.values layouts.values

variable {parts : AssignmentParts} {layouts : Layout.AssignmentLayouts} {vs init : List Expr}

/-- A class is assigned to a name, or to the first target. -/
theorem emits_assignClass (hctx : ctx.Tame) (h : parts.Emits registries layouts) {target : Expr}
    (htarget : target.Shaped false) :
    EmitsText registries (assignClass ctx target parts)
      (match target with
        | ⟨id, _, .name name⟩ => .append (.word ⟨ctx, id, name, true⟩) layouts.classBody
        | _ => .append layouts.firstTarget layouts.classBody) := by
  obtain ⟨id, span, kind⟩ := target
  cases kind with
  | name name =>
    have hword := hctx.wordText id true htarget
    refine emits_get fun p hp => h.classBody.bind fun body => emits_pure ?_
    intro K q q' hbody _
    have htext : Renders K (.word ⟨ctx, id, name, true⟩) q' (Word.text ⟨ctx, id, name, true⟩) q' :=
      .word hword
    refine .append ((htext.before ?_).behind (by decide)) (hbody.namedText hword)
    split <;> decide
  | _ =>
    refine h.firstTarget.bind fun text => h.classBody.bind fun body => emits_pure ?_
    intro K q q' hbody q₀ htext
    exact .append (htext.behind (by decide)) hbody.classText

/-- The targets of an assignment are written in their order. -/
theorem assignedTargets_pattern (ctx : Context) (vs : List Expr)
    (h : RendersRow K l q ts q') : Renders K l q (assignedTargets ctx vs ts).pattern q' := by
  refine RendersRow.pattern ?_
  unfold assignedTargets
  split <;> exact h

theorem assignedTargets_lead (ctx : Context) (vs : List Expr) (ts : List String) :
    (assignedTargets ctx vs ts).lead = "" := by
  unfold assignedTargets
  split <;> rfl

/-- An assignment that is no append and no class. -/
theorem emits_assigned (h : parts.Emits registries layouts) :
    EmitsText registries (do
      let texts ← parts.targets
      Emit.bind ctx.asValue (assignedTargets ctx vs texts) init (← parts.values))
      (.append layouts.targets layouts.values) := by
  refine h.targets.bindKnown fun texts hknown => h.values.bind fun values => ?_
  obtain ⟨K₀, q₀, q₁, htidy, hrow⟩ := hknown
  obtain ⟨-, found, hfound, -⟩ := (assignedTargets_pattern ctx vs hrow).closed htidy
  refine (emits_bind ⟨found, hfound⟩ init values).imp ?_
  rintro K q t q' ⟨rfl, hbinds⟩ q₂ hvalues q₃ htargets
  refine hbinds.assigned ?_ (assignedTargets_pattern ctx vs htargets) hvalues
  rw [assignedTargets_lead]
  exact Script.plain_empty

/-- **An assignment is put together as its layout says.** -/
theorem emits_assignment (hctx : ctx.Tame) (hvs : ExprsShaped vs)
    (h : parts.Emits registries layouts) :
    EmitsText registries (assignment ctx vs init parts)
      (Layout.assignment ctx vs init layouts) := by
  unfold assignment Layout.assignment
  cases appendBase? vs init with
  | some base =>
    refine emits_useSystemFunction "table" "insert" ?_
    refine h.indexBase.bind fun table => h.firstValue.bind fun value => emits_pure ?_
    intro K q q' hvalue q₀ htable
    exact RendersRow.arguments (.cons (htable.asBase base) (.single hvalue)) (by decide)
  | none =>
    dsimp only
    cases definesClass vs init with
    | false => exact emits_assigned h
    | true =>
      cases vs with
      | nil => exact emits_assigned h
      | cons target rest =>
        obtain ⟨id, span, kind⟩ := target
        have hassign := emits_assignClass hctx h hvs.1
        cases kind <;> exact hassign

end Binding

/-! ### Declarations -/

/-- The parts of a `local` statement are lowered as their layouts say. -/
structure LocalParts.Emits (registries : Registries) (parts : LocalParts)
    (layouts : Layout.LocalLayouts) : Prop where
  arguments : EmitsRow registries parts.arguments layouts.arguments
  classBody : EmitsClass registries parts.classBody layouts.classBody
  values : EmitsRow registries parts.values layouts.values

section Local

variable {K : List String} {q q' : CommentQueue} {t : String} {ctx : Context} {vars : List Identifier}
  {parts : LocalParts} {layouts : Layout.LocalLayouts}

/-- A list of plain texts is plain. -/
theorem plain_intercalate {s : String} (hs : Plain s) {ts : List String} (h : ∀ t ∈ ts, Plain t) :
    Plain (s.intercalate ts) := by
  induction ts with
  | nil => exact Script.plain_empty
  | cons t ts ih =>
    obtain ⟨ht, hts⟩ := List.forall_mem_cons.1 h
    cases ts with
    | nil => simpa using ht
    | cons u ts =>
      rw [String.intercalate_cons_cons]
      exact (ht.append_plain hs).append_plain (ih hts)

/-- The targets of a declaration are plain. -/
theorem plain_pattern {targets : Targets} (h : ∀ t ∈ targets.texts, Plain t) :
    Plain targets.pattern := by
  unfold Targets.pattern
  split
  next only honly => exact h only (by rw [honly]; exact List.mem_singleton_self only)
  · rw [brackets_eq]
    exact (plain_intercalate (by decide) h).enclosed .square

/-- Names are declared in plain text. -/
theorem plain_declaredNames (hctx : ctx.Tame) (hvars : NamesValid vars) :
    ∀ t ∈ vars.map ctx.declaredName, Plain t := by
  intro t ht
  obtain ⟨v, hv, rfl⟩ := List.mem_map.1 ht
  exact hctx.declaredName (hvars v hv)

/-- How the targets of a `local` statement are declared: all new ones before it, or by the statement
itself. -/
theorem localTargets_cases (hctx : ctx.Tame) (hvars : NamesValid vars) (id : NodeId) :
    ((localTargets ctx id vars).2.lead = "" ∧ ∀ K q,
        Renders K (Layout.bindings ctx (Layout.newVars ctx id vars)) q
          (localTargets ctx id vars).1 q) ∨
      ((localTargets ctx id vars).1 = "" ∧ (localTargets ctx id vars).2.lead = "let " ∧
        Layout.newVars ctx id vars = vars) := by
  unfold localTargets Layout.newVars
  dsimp only
  split
  · refine .inl ⟨rfl, fun K q => ?_⟩
    have hrow := rendersRow_bindings (K := K) hctx
      (fun v hv => hvars v (List.mem_filter.1 hv).1 :
        NamesValid (vars.filter fun v => !ctx.annotations.redeclared.contains v.id)) q
    dsimp only
    split
    next hempty =>
      rw [List.isEmpty_iff, List.map_eq_nil_iff] at hempty
      rw [hempty]
      exact .blank Script.plain_empty
    · exact (hrow.commas.before (by decide)).behind (by decide)
  · exact .inr ⟨rfl, rfl, rfl⟩

/-- The targets of a local statement are its names as they are declared. -/
theorem localTargets_texts (ctx : Context) (id : NodeId) (vars : List Identifier) :
    (localTargets ctx id vars).2.texts = vars.map ctx.declaredName ∧
      (localTargets ctx id vars).2.isLocal = true := by
  unfold localTargets
  dsimp only
  split <;> exact ⟨rfl, rfl⟩

/-- A declaration without values writes the names that are new. -/
theorem renders_localWithoutValues (hctx : ctx.Tame) (hvars : NamesValid vars) (id : NodeId)
    (q : CommentQueue) :
    Renders K (.append (Layout.bindings ctx (Layout.newVars ctx id vars)) .blank) q
      ((localTargets ctx id vars).1 ++ localWithoutValues (localTargets ctx id vars).2) q := by
  obtain ⟨htexts, -⟩ := localTargets_texts ctx id vars
  unfold localWithoutValues
  rw [htexts]
  rcases localTargets_cases hctx hvars id with ⟨hlead, hdeclared⟩ | ⟨hnone, hlead, hnew⟩
  · rw [hlead, if_pos (by decide)]
    refine .append (hdeclared K q) (.blank (plain_intercalate (by decide) fun t ht => ?_))
    obtain ⟨name, hname, rfl⟩ := List.mem_map.1 ht
    exact (plain_declaredNames hctx hvars name hname).append_plain (by decide)
  · rw [hnone, hlead, hnew, if_neg (by decide), String.empty_append, ← String.append_empty
      (s := "let " ++ commas (vars.map ctx.declaredName))]
    exact .append ((rendersRow_bindings hctx hvars q).commas.before (by decide))
      (.blank Script.plain_empty)

/-- A local statement that defines no class writes the new names and the values. -/
theorem emits_localBinding (hctx : ctx.Tame) (hvars : NamesValid vars) (id : NodeId)
    (init : List Expr) (h : parts.Emits registries layouts) :
    EmitsText registries (localBinding ctx id vars init parts)
      (.append (Layout.bindings ctx (Layout.newVars ctx id vars))
        (if init.isEmpty then .blank else layouts.values)) := by
  obtain ⟨htexts, hlocal⟩ := localTargets_texts ctx id vars
  have hpattern : Plain (localTargets ctx id vars).2.pattern :=
    plain_pattern (htexts ▸ plain_declaredNames hctx hvars)
  unfold localBinding
  dsimp only
  split
  · exact emits_pure fun K q => renders_localWithoutValues hctx hvars id q
  · refine h.values.bind fun values => (emits_bind ⟨[], hpattern⟩ init values).bind fun text => ?_
    refine emits_pure ?_
    rintro K q q' ⟨rfl, hbinds⟩ q₀ hvalues
    rcases localTargets_cases hctx hvars id with ⟨hlead, hdeclared⟩ | ⟨hnone, hlead, hnew⟩
    · -- the new names are declared in front, so the pattern only assigns
      obtain ⟨lead, pattern, value, rfl, hl, hp, hvalue⟩ := hbinds
      have hfront : Plain (lead ++ pattern ++ " = ") := by
        have hleadText : Plain lead := by
          rcases hl with rfl | ⟨rfl, -⟩
          · exact hlead ▸ Script.plain_empty
          · decide
        have hpatternText : Plain pattern := by
          rcases hp with rfl | rfl
          · exact hpattern
          · rw [brackets_eq]
            exact hpattern.enclosed .square
        exact (hleadText.append_plain hpatternText).append_plain (by decide)
      exact .append (hdeclared K q₀) ((hvalue _ _ _ hvalues).before hfront)
    · have hrow := rendersRow_bindings (K := K) hctx hvars q₀
      rw [← htexts] at hrow
      rw [hnone, hnew, String.empty_append]
      exact hbinds.assigned (hlead ▸ by decide) hrow.pattern hvalues

/-- A class that a `local` statement defines is put together as its layout says. -/
theorem emits_localClass (hctx : ctx.Tame) {v : Identifier} (hv : Name.isValid v.name = true)
    (value : Expr) (h : parts.Emits registries layouts) :
    Option.Rel (EmitsText registries) (localClass? ctx v value parts)
      (Layout.localClass? ctx v value layouts) := by
  have hname := hctx.declaredName hv
  have hbinding {K : List String} {q : CommentQueue} :
      Renders K (.binding v.id (ctx.declaredName v)) q (ctx.declaredName v) q := .binding hname
  unfold localClass? Layout.localClass?
  dsimp only
  split
  · -- an empty table under the name of a module is a class
    refine .some ((emits_declareClass ⟨[], hname⟩).skip fun _ => emits_pure fun K q => ?_)
    have hargument : Plain (createClassText ["\"" ++ ctx.fileName ++ "\""]) := by
      rw [createClassText, callText, parens_eq]
      exact Script.Closed.plain_append (by decide)
        ((by simpa [commas] using hctx.fileNameText :
          Plain (commas ["\"" ++ ctx.fileName ++ "\""])).enclosed .round)
    exact ((hbinding.before (by decide)).behind (by decide)).behind hargument
  · cases value.kind with
    | call base style arguments =>
      dsimp only
      split
      · exact .none
      · split
        · refine .some (h.classBody.bind fun body => emits_pure fun K q q' hbody => ?_)
          obtain ⟨members, parent⟩ := body
          have hclass := hbody.text (s := "") Script.plain_empty
          have hall := Renders.append ((hbinding.before (s := " ") (by decide)).before
            (s := "class") (by decide)) hclass
          simpa [classText, String.append_assoc] using hall
        · -- at the top level the class is declared, and the text is the same elsewhere
          have hcreate : EmitsText registries
              (do return "let " ++ ctx.declaredName v ++ " = " ++
                createClassText (← parts.arguments))
              (.append (.binding v.id (ctx.declaredName v)) layouts.arguments) :=
            h.arguments.map fun K q ts q' hrow =>
              .append ((hbinding.before (by decide)).behind (by decide)) (hrow.arguments (by decide))
          refine .some (.ite (fun _ => ?_) fun _ => hcreate)
          exact (emits_declareClass ⟨[], hname⟩).skip fun _ => hcreate
    | _ => exact .none

/-- **A `local` statement is put together as its layout says.** -/
theorem emits_localStatement (hctx : ctx.Tame) (hvars : NamesValid vars) (id : NodeId)
    (init : List Expr) (h : parts.Emits registries layouts) :
    EmitsText registries (localStatement ctx id vars init parts)
      (Layout.localStatement ctx id vars init layouts) := by
  have hbinding := emits_localBinding hctx hvars id init h
  unfold localStatement Layout.localStatement
  rcases vars with _ | ⟨v, _ | ⟨w, ws⟩⟩
  · exact hbinding
  · rcases init with _ | ⟨value, _ | ⟨other, more⟩⟩
    · exact hbinding
    · have hclass := emits_localClass hctx (hvars v List.mem_cons_self) value h
      dsimp only
      generalize localClass? ctx v value parts = emitted at hclass ⊢
      generalize Layout.localClass? ctx v value layouts = layout at hclass ⊢
      cases hclass with
      | none => exact hbinding
      | some hm => exact hm
    · exact hbinding
  · exact hbinding

end Local

/-! ## Returns -/

/-- **A `return` is put together as its layout says.** -/
theorem emits_returnStatement {ctx : Context} (arguments : List Expr) {second : Emit String}
    {all : Emit (List String)} (hsecond : EmitsText registries second a)
    (hall : EmitsRow registries all b) :
    EmitsText registries (returnStatement ctx arguments second all)
      (Layout.returnStatement ctx arguments a b) := by
  unfold returnStatement Layout.returnStatement
  split
  · exact hsecond.map fun _ _ _ _ h => h.parens.before (by decide)
  · cases ctx.isTop with
    | true =>
      refine hall.bind fun texts => emits_get fun p hp => emits_pure ?_
      intro K q hclasses q' hrow
      exact hrow.packText.exportText (fun c hc => ⟨hclasses c hc, hp.classes c hc⟩) ctx
    | false => exact hall.map fun _ _ _ _ hrow => hrow.packText.returnText

end LuaCompiler.Emit
