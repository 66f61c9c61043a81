import LuaCompiler.Proofs.Emit.Faults
import LuaCompiler.Proofs.Emit.Footprint
import LuaCompiler.Proofs.Emit.Usage
import LuaCompiler.Proofs.Parser.Printer

/-!
# What lowerings record

`Registers K m Q` says what a lowering gives wherever it starts: if `K` holds of every usage that has
the functions recorded so far, then `Q` holds of the value and every usage that has those recorded behind
the lowering. So a rule may use what any of its parts has recorded.

* `Registers.bind`: one lowering behind another.
* `registers_call`, `registers_bind`, `registers_assignment`, `registers_localStatement`: **the rules
  record the functions that they write**.
-/

namespace LuaCompiler

open Token (Kind)

/-! ## Clear trees -/

/-- A token that is spelled right and does not name the support module. -/
def Token.Kind.IsClear : Kind → Prop
  | .name text => Name.IsClear text
  | kind => kind.isSpelled = true

/-- Tokens that are spelled right and do not name the support module. -/
def Clear (kinds : List Kind) : Prop := ∀ k ∈ kinds, k.IsClear

namespace Clear

variable {k : Kind} {kinds more : List Kind} {rows : List (List Kind)}

/-- Tokens that are spelled right are clear when the namespace is not among them. -/
theorem of_spells (h : Spells kinds) (hnone : .name "l2j" ∉ kinds) : Clear kinds := by
  intro k hk
  have hspelled := h k hk
  cases k with
  | name name =>
    refine ⟨Name.isValid_of_isSpelled hspelled, ?_⟩
    rintro rfl
    exact hnone hk
  | _ => exact hspelled

/-- A row of tokens is clear when its first is, and the rest are. -/
theorem cons_iff : Clear (k :: kinds) ↔ k.IsClear ∧ Clear kinds := List.forall_mem_cons

theorem append_iff : Clear (kinds ++ more) ↔ Clear kinds ∧ Clear more := List.forall_mem_append

/-- Part of a clear row is clear. -/
theorem mono (h : Clear kinds) (hsub : more ⊆ kinds) : Clear more := fun k hk => h k (hsub hk)

theorem of_enclosed (h : Clear (enclosed kinds)) : Clear kinds :=
  h.mono (List.subset_cons_of_subset _ (List.subset_append_left _ _))

theorem of_encloseIf {needed : Bool} (h : Clear (encloseIf needed kinds)) : Clear kinds := by
  cases needed with
  | false => exact h
  | true => exact h.of_enclosed

/-- Each row of a clear list is clear. -/
theorem of_commaSeparated (h : Clear (commaSeparated rows)) : ∀ kinds ∈ rows, Clear kinds := by
  fun_induction commaSeparated rows with
  | case1 => exact List.forall_mem_nil _
  | case2 kinds => exact List.forall_mem_singleton.2 h
  | case3 kinds rest hrest ih =>
    obtain ⟨hfirst, hmore⟩ := append_iff.1 h
    exact List.forall_mem_cons.2 ⟨hfirst, ih (cons_iff.1 hmore).2⟩

/-- The arguments of a call that is clear are clear. -/
theorem of_write {style : CallStyle} (h : Clear (style.write rows)) : ∀ kinds ∈ rows, Clear kinds := by
  cases style with
  | arguments => exact of_commaSeparated h.of_enclosed
  | table | string => exact of_commaSeparated h

/-- The values behind the sign of a clear statement are clear. -/
theorem of_init (h : Clear (initTokens rows)) : ∀ kinds ∈ rows, Clear kinds := by
  unfold initTokens at h
  split at h
  next hempty =>
    rw [List.isEmpty_iff.1 hempty]
    exact List.forall_mem_nil _
  · exact of_commaSeparated (cons_iff.1 h).2

/-- Names that stand in clear tokens are clear. -/
theorem of_names {names : List Identifier}
    (h : ∀ kinds ∈ names.map fun n => [Kind.name n.name], Clear kinds) :
    ∀ n ∈ names, Name.IsClear n.name :=
  fun _ hn => h _ (List.mem_map_of_mem hn) _ (List.mem_singleton_self _)

/-- So are the parameters of a function. -/
theorem of_parameters {ps : List Identifier} {isVararg : Bool}
    (h : Clear (parameterTokens ps isVararg)) : ∀ n ∈ ps, Name.IsClear n.name :=
  of_names fun kinds hkinds => of_commaSeparated h kinds (List.mem_append_left _ hkinds)

end Clear

namespace Emit

open Script (Usage Refers Grounded Silent Reads Fixed)

/-- **A context that can be written into code**: names are resolved to names that are not taken for the
support module, a library only to itself, and the texts of the options open nothing. -/
structure Context.Clear (ctx : Context) : Prop where
  names : ∀ id name, Name.IsClear name → Name.IsClear (ctx.annotations.resolve id name)
  libraries : ∀ id name, Name.isSystemLibrary (ctx.annotations.resolve id name) = true →
    ctx.annotations.resolve id name = name
  quote : '"' ∉ ctx.fileName.toList
  slash : '\\' ∉ ctx.fileName.toList
  valueTypes : ∀ u, Grounded u ctx.options.valueTypeNamespace

namespace Context.Clear

variable {ctx : Context} (h : ctx.Clear)

include h

theorem inBlock : ctx.inBlock.Clear := ⟨h.names, h.libraries, h.quote, h.slash, h.valueTypes⟩

theorem inLoop (body : List Stmt) : (ctx.inLoop body).Clear :=
  ⟨h.names, h.libraries, h.quote, h.slash, h.valueTypes⟩

theorem asValue : ctx.asValue.Clear := ⟨h.names, h.libraries, h.quote, h.slash, h.valueTypes⟩

theorem asBound : ctx.asBound.Clear := ⟨h.names, h.libraries, h.quote, h.slash, h.valueTypes⟩

/-- A function's own parameters leave a context clear: the receiver is the only name taken up. -/
theorem inFunction (parameters shown : List Identifier) (receiver : Option String) :
    (ctx.inFunction parameters shown receiver).Clear :=
  ⟨h.names, h.libraries, h.quote, h.slash, h.valueTypes⟩

/-- A clear name is declared as an identifier or with the mark of a keyword. -/
theorem isSpelling_declaredName {v : Identifier} (hv : Name.IsClear v.name) :
    Name.IsSpelling (ctx.declaredName v) :=
  (h.names v.id v.name hv).isSpelling

/-- A declared name refers to no library, so it is grounded in whatever was recorded. -/
theorem declaredName {u : Usage} {v : Identifier} (hv : Name.IsClear v.name) :
    Grounded u (ctx.declaredName v) :=
  (h.isSpelling_declaredName hv).grounded

/-- The quoted file name refers to no library. -/
theorem fileNameText (u : Usage) : Grounded u ("\"" ++ ctx.fileName ++ "\"") :=
  ⟨_, Script.reads_quote h.quote h.slash, fun _ hpost => nomatch hpost⟩

end Context.Clear

/-! ## Lowerings -/

/-- A usage has the functions recorded so far. -/
def Progress.RecordedIn (p : Progress) (u : Usage) : Prop :=
  ∀ function ∈ p.registries.systemFunctions, function ∈ u.functions

/-- Progress from which lowering goes on: line comments end with their line, and the classes declared
keep an invariant. -/
structure Progress.Ready (I : List String → Prop) (p : Progress) : Prop where
  comments : ∀ c ∈ p.comments.waiting, c.IsTidy
  classes : I p.classes

/-- A class joins the declared ones. -/
theorem mem_withClass {classes : List String} {name c : String} :
    c ∈ withClass classes name ↔ c ∈ classes ∨ c = name := by
  unfold withClass
  split
  next hcontains =>
    refine ⟨.inl, fun h => h.elim id ?_⟩
    rintro rfl
    exact List.contains_iff_mem.1 hcontains
  · rw [List.mem_append, List.mem_singleton]

/-- The classes declared are texts that any usage admits. -/
def RefersClasses (I : List String → Prop) : Prop :=
  ∀ classes, I classes → ∀ c ∈ classes, ∀ u, Refers u true c

/-- What stays so when a class is declared. -/
def AllowsClasses (I : List String → Prop) : Prop :=
  ∀ classes c, I classes → ClassText c → I (withClass classes c)

variable {α β : Type}

/-- **What a lowering gives, and what it has recorded then**, if the classes keep an invariant. -/
def Registers (I : List String → Prop) (K : Usage → Prop) (m : Emit α) (Q : Usage → α → Prop) : Prop :=
  ∀ p, p.Ready I → (∀ u, p.RecordedIn u → K u) → (m.run p).2.Ready I ∧
    ∀ u, (m.run p).2.RecordedIn u → p.RecordedIn u ∧ Q u (m.run p).1

variable {I : List String → Prop} {K : Usage → Prop} {m : Emit α} {f : α → Emit β}
  {Q Q' : Usage → α → Prop} {S : Usage → β → Prop}

/-- An answer that is there already records nothing and keeps what was known. -/
theorem registers_pure {a : α} (h : ∀ u, K u → Q u a) : Registers I K (pure a) Q :=
  fun _ hp hK => ⟨hp, fun u hu => ⟨hu, h u (hK u hu)⟩⟩

/-- **One lowering behind another**, which may use what the first one has recorded. -/
theorem Registers.bind (hm : Registers I K m Q) (hf : ∀ a, Registers I (fun u => K u ∧ Q u a) (f a) S) :
    Registers I K (m >>= f) S := by
  intro p hp hK
  obtain ⟨hready, hfirst⟩ := hm p hp hK
  obtain ⟨hready', hsecond⟩ := hf (m.run p).1 (m.run p).2 hready
    fun u hu => ⟨hK u (hfirst u hu).1, (hfirst u hu).2⟩
  exact ⟨hready', fun u hu => ⟨(hfirst u (hsecond u hu).1).1, (hsecond u hu).2⟩⟩

/-- A function of the text is applied behind the recording. -/
theorem Registers.map (hm : Registers I K m Q) {g : α → β} (h : ∀ u a, Q u a → S u (g a)) :
    Registers I K (do return g (← m)) S :=
  hm.bind fun a => registers_pure fun u hK => h u a hK.2

/-- Less may be said of the result. -/
theorem Registers.imp (hm : Registers I K m Q) (h : ∀ u a, Q u a → Q' u a) : Registers I K m Q' := by
  intro p hp hK
  obtain ⟨hready, hfirst⟩ := hm p hp hK
  exact ⟨hready, fun u hu => ⟨(hfirst u hu).1, h u _ (hfirst u hu).2⟩⟩

/-- More may be known before. -/
theorem Registers.weaken {K' : Usage → Prop} (hm : Registers I K m Q) (h : ∀ u, K' u → K u) :
    Registers I K' m Q :=
  fun p hp hK => hm p hp fun u hu => h u (hK u hu)

/-- Both branches of a test are followed. -/
theorem Registers.ite {c : Prop} [Decidable c] {m' : Emit α} (hm : c → Registers I K m Q)
    (hm' : ¬ c → Registers I K m' Q) : Registers I K (if c then m else m') Q := by
  split
  next h => exact hm h
  next h => exact hm' h

/-- A lowering that uses the progress so far. -/
theorem registers_get {f : Progress → Emit β}
    (h : ∀ p, p.Ready I → Registers I (fun u => K u ∧ p.RecordedIn u) (f p) S) :
    Registers I K (get >>= f) S :=
  fun p hp hK => h p hp p hp fun u hu => ⟨hK u hu, hu⟩

/-- A lowering behind a step that leaves comments, classes and functions alone. -/
theorem registers_modify {g : Progress → Progress} {f : PUnit → Emit β}
    (hcomments : ∀ p, (g p).comments = p.comments) (hclasses : ∀ p, (g p).classes = p.classes)
    (hfunctions : ∀ p, (g p).registries.systemFunctions = p.registries.systemFunctions)
    (hf : Registers I K (f ⟨⟩) S) : Registers I K (modify g >>= f) S := by
  have hsame (p : Progress) (u : Usage) : (g p).RecordedIn u ↔ p.RecordedIn u := by
    rw [Progress.RecordedIn, hfunctions, Progress.RecordedIn]
  have hmodify : Registers I K (modify g : Emit PUnit) fun _ _ => True := by
    intro p hp _
    have hrun : (modify g : Emit PUnit).run p = (⟨⟩, g p) := rfl
    rw [hrun]
    refine ⟨⟨?_, ?_⟩, fun u hu => ⟨(hsame p u).1 hu, trivial⟩⟩
    · rw [hcomments]
      exact hp.comments
    · rw [hclasses]
      exact hp.classes
  exact hmodify.bind fun _ => hf.weaken fun u hu => hu.1

/-- A function of a library that is used is recorded. -/
theorem registers_useSystemFunction (library name : String) :
    Registers I K (useSystemFunction library name) fun u _ => library ++ "." ++ name ∈ u.functions :=
  fun _ hp _ => ⟨⟨hp.comments, hp.classes⟩,
    fun _ hu => ⟨fun function h => hu function (NameSet.mem_insert.2 (.inr h)),
      hu _ (NameSet.mem_insert.2 (.inl rfl))⟩⟩

/-- A class is declared where the invariant on declared classes allows it. -/
theorem registers_declareClass (hI : AllowsClasses I) {name : String} (h : ClassText name) :
    Registers I K (declareClass name) fun _ _ => True := by
  intro p hp _
  rw [declareClass_run]
  exact ⟨⟨hp.comments, hI _ _ hp.classes h⟩, fun u hu => ⟨hu, trivial⟩⟩

/-- Texts of which no more is known if there are comments around them. -/
def StaysWithin (Q : Usage → String → Prop) : Prop :=
  ∀ u {s t v : String}, Silent s → Silent v → Q u t → Q u (s ++ t ++ v)

/-- The comments around a node refer to no library. -/
theorem Registers.around {node : Emit String} {Q : Usage → String → Prop} (h : Registers I K node Q)
    (hQ : StaysWithin Q) (span : Span) : Registers I K (around span node) Q := by
  intro p hp hK
  have hbefore : ∀ c ∈ (p.comments.before span).2.waiting, c.IsTidy :=
    fun c hc => hp.comments c ((List.dropWhile_suffix _).subset hc)
  obtain ⟨hready, hnode⟩ := h { p with comments := (p.comments.before span).2 }
    ⟨hbefore, hp.classes⟩ hK
  refine ⟨⟨fun c hc => ?_, hready.classes⟩, fun u hu => ⟨(hnode u hu).1, ?_⟩⟩
  · exact hready.comments c ((List.dropWhile_suffix _).subset hc)
  · exact hQ u (CommentQueue.silent_before hp.comments span)
      (CommentQueue.silent_after hready.comments span) (hnode u hu).2

/-- What is recorded below a receiver stays recorded above it. -/
theorem Registers.withReceiver {body : Emit α} (h : ∀ K, Registers I K body Q) :
    Registers I K (withReceiver body) fun u result => Q u result.1 := by
  refine registers_get fun p _ => registers_modify (fun _ => rfl) (fun _ => rfl) (fun _ => rfl) ?_
  refine (h _).bind fun a => registers_get fun p' _ => ?_
  refine registers_modify (fun _ => rfl) (fun _ => rfl) (fun _ => rfl) ?_
  exact registers_pure fun u hK => hK.1.2

variable {ctx : Context}

/-- Texts that keep to a usage. -/
def RefersAll (u : Usage) (ts : List String) : Prop := ∀ t ∈ ts, Refers u true t

/-- An error that is contained leaves a text that refers to no library. -/
theorem registers_contain (unsupported : Unsupported) (span : Span) :
    Registers I K (contain unsupported span) fun u t => Grounded u t :=
  registers_modify (fun _ => rfl) (fun _ => rfl) (fun _ => rfl)
    (registers_pure fun _ _ => (silent_remark unsupported).grounded)

/-- A reference shows its own name, and nothing of the namespace when that is clear. -/
theorem registers_reference (hctx : ctx.Clear) (id : NodeId) {name : String}
    (hname : Name.IsClear name) :
    Registers I K (reference ctx (ctx.annotations.resolve id name)) fun u t =>
      Shows u ctx (.name name) t := by
  have hword {word : String} (h : IsWord word) : Padded (IsNamed ctx name) word :=
    Padded.of_self (.inl (.inl h))
  unfold reference
  split
  · have hthis : IsWord "this" := ⟨List.all_eq_true.1 (by decide), by decide⟩
    refine .ite (fun _ => registers_pure fun _ _ => hword hthis) fun _ => ?_
    exact registers_modify (fun _ => rfl) (fun _ => rfl) (fun _ => rfl)
      (registers_pure fun _ _ => hword ⟨List.all_eq_true.1 (by decide), by decide⟩)
  · refine registers_pure fun _ _ => ?_
    split
    next hlibrary =>
      have hsame := hctx.libraries id name (Context.isSystemLibrary_of_isLibrary hlibrary)
      rw [hsame] at hlibrary ⊢
      exact Padded.of_self (.inr ⟨hlibrary, rfl⟩)
    · exact Padded.of_self (.inl (hctx.names id name hname).isSpelling)

/-- A member of a hidden library is recorded under the library's name. -/
theorem registers_useMember (base : Expr) (identifier : Identifier) :
    Registers I K (useMember ctx base identifier) fun u _ =>
      ∀ library, base.name? = some library → ctx.isLibrary library = true →
        library ++ "." ++ identifier.name ∈ u.functions := by
  unfold useMember
  split
  next library hbase =>
    refine .ite (fun _ => ?_) fun hnone => registers_pure fun u _ other hother hlibrary => ?_
    · refine (registers_useSystemFunction library identifier.name).imp fun u _ h other hother _ => ?_
      obtain rfl := Option.some.inj (hbase.symm.trans hother)
      exact h
    · obtain rfl := Option.some.inj (hbase.symm.trans hother)
      exact absurd hlibrary hnone
  next hnone =>
    refine registers_pure fun u _ other hother _ => ?_
    rw [hnone] at hother
    cases hother

/-! ## Names in clear trees -/

/-- The name of an expression with clear tokens is clear. -/
theorem isClear_of_name {e : Expr} {name : String} (h : Clear e.tokens) (hname : e.name? = some name) :
    Name.IsClear name := by
  obtain ⟨id, span, kind⟩ := e
  cases kind with
  | name other => exact Option.some.inj hname ▸ (Clear.cons_iff.1 h).1
  | _ => cases hname

/-- So is the name of a member. -/
theorem isClear_of_member {e base : Expr} {indexer : Indexer} {identifier : Identifier}
    (h : Clear e.tokens) (hkind : e.kind = .member base indexer identifier) :
    Name.IsClear identifier.name := by
  obtain ⟨id, span, kind⟩ := e
  obtain rfl : kind = .member base indexer identifier := hkind
  have hmember := (Clear.append_iff.1 h).2
  exact (Clear.cons_iff.1 (Clear.cons_iff.1 hmember).2).1

/-- A library function is called by the name of a library and the function's own. -/
theorem library_of_callsSystemFunction {site : CallSite} (h : site.callsSystemFunction = true)
    (hclear : Clear site.base.tokens) {library name : String}
    (hname : site.base.qualifiedName? = some (library, name)) :
    Name.isSystemLibrary library = true ∧ Name.IsClear name := by
  unfold CallSite.callsSystemFunction at h
  split at h
  next base identifier hkind =>
    rw [Expr.qualifiedName?, hkind] at hname
    obtain ⟨other, hother, heq⟩ := Option.map_eq_some_iff.1 hname
    obtain ⟨rfl, rfl⟩ := Prod.mk.inj heq
    rw [hother] at h
    exact ⟨h, isClear_of_member hclear hkind⟩
  · cases h

/-! ## Calls -/

/-- A call of a library function is no call with the receiver. -/
theorem pattern_ne_selfCall {site : CallSite} (h : site.callsSystemFunction = true)
    (receiver : Option String) (valueTypes : List String) :
    site.pattern receiver valueTypes ≠ .selfCall := by
  have hskip {c : Prop} [Decidable c] {first rest : CallPattern} (hfirst : first ≠ .selfCall)
      (hrest : ¬ c → rest ≠ .selfCall) : (if c then first else rest) ≠ .selfCall :=
    iteInduction (motive := (· ≠ CallPattern.selfCall)) (fun _ => hfirst) hrest
  unfold CallSite.pattern
  dsimp only
  refine hskip (by decide) fun _ => ?_
  refine hskip (hskip (by decide) fun _ => by decide) fun _ => ?_
  iterate 6 refine hskip (by decide) fun _ => ?_
  exact hskip (by decide) fun hnot => absurd h hnot

/-- What is called with the receiver is no member of a library. -/
theorem not_isLibrary_of_selfCall {site : CallSite} {owner : Expr} {indexer : Indexer}
    {identifier : Identifier} (hpattern : patternAt ctx site = .selfCall)
    (hkind : site.base.kind = .member owner indexer identifier) {library : String}
    (hname : owner.name? = some library) : ctx.isLibrary library = false := by
  have hself : site.pattern (ctx.receiver.map Receiver.name) ctx.options.valueTypes = .selfCall := by
    unfold patternAt at hpattern
    dsimp only at hpattern
    split at hpattern
    · cases hpattern
    · exact hpattern
  have hfits := fits_pattern site (ctx.receiver.map Receiver.name) ctx.options.valueTypes
  rw [hself] at hfits
  obtain ⟨receiver, -, hpasses⟩ := (Option.any_eq_true _ _).1 hfits
  obtain rfl : indexer = .dot := by
    rw [CallSite.passesReceiver, hkind] at hpasses
    cases indexer with
    | dot => rfl
    | colon => cases hpasses
  refine Bool.eq_false_iff.2 fun hlibrary => ?_
  have hcalls : site.callsSystemFunction = true := by
    rw [CallSite.callsSystemFunction, hkind]
    simpa [hname] using Context.isSystemLibrary_of_isLibrary hlibrary
  exact pattern_ne_selfCall hcalls _ _ hself

/-- The parts of a call keep to what is recorded. -/
structure CallParts.Registers (I : List String → Prop) (ctx : Context) (site : CallSite)
    (parts : CallParts) : Prop where
  callee : ∀ K, Emit.Registers I K parts.callee fun u t => Shows u ctx site.base.kind t
  owner : ∀ K, Emit.Registers I K parts.owner fun u t => ∀ owner indexer identifier,
    site.base.kind = .member owner indexer identifier → Shows u ctx owner.kind t
  arguments : ∀ K, Emit.Registers I K parts.arguments RefersAll
  firstArgument : ∀ K, Emit.Registers I K parts.firstArgument fun u t => Refers u true t
  classBody : ∀ K, Emit.Registers I K parts.classBody ClassRefers

section Call

variable {site : CallSite} {parts : CallParts} (h : parts.Registers I ctx site)

include h

/-- A call without a pattern is written from grounded texts. -/
theorem registers_genericCall : Registers I K (genericCall ctx site parts) fun u t => Grounded u t := by
  refine (h.callee _).bind fun callee => (h.arguments _).bind fun _ => ?_
  refine registers_pure fun u hK => ?_
  have hbase := hK.1.2.asBase
  split
  · exact hbase.native.1.call hK.2
  · exact hbase.refers.call hK.2

/-- A call of the namespace is grounded when its function is recorded. -/
theorem registers_supportCall {function : String} (hfunction : ∀ u, K u → Grounded u function) :
    Registers I K (supportCall parts function) fun u t => Grounded u t :=
  (h.arguments _).bind fun _ => registers_pure fun u hK => (hfunction u hK.1).call hK.2

/-- **A library function is recorded before it is written.** -/
theorem registers_libraryCall {library name : String} (hlibrary : Name.isSystemLibrary library = true)
    (hname : Name.IsClear name) :
    Registers I K (libraryCall parts library name) fun u t => Grounded u t :=
  (registers_useSystemFunction library name).bind fun _ =>
    registers_supportCall h fun _ hK => grounded_libraryFunction hlibrary hname hK.2

/-- A call of a member hands the owner over as an argument, and the member's name is clear. -/
theorem registers_selfCall {owner : Expr} {indexer : Indexer} {identifier : Identifier}
    (hpattern : patternAt ctx site = .selfCall)
    (hkind : site.base.kind = .member owner indexer identifier)
    (hname : Name.IsClear identifier.name) :
    Registers I K (selfCall ctx site parts owner identifier) fun u t => Grounded u t := by
  refine registers_get fun p _ => .ite (fun _ => ?_) fun _ => ?_
  · exact (h.callee _).bind fun callee => (h.arguments _).bind fun _ =>
      registers_pure fun u hK => hK.1.2.refers.call hK.2
  · refine (h.owner _).bind fun text => (h.arguments _).bind fun _ => ?_
    refine registers_pure fun u hK => ?_
    have hbase := (hK.1.2 owner indexer identifier hkind).asBase
    have hground : Grounded u (asBase owner text) := by
      rcases hbase with hground | ⟨library, hlibrary, htrue, -⟩
      · exact hground
      · rw [not_isLibrary_of_selfCall hpattern hkind hlibrary] at htrue
        cases htrue
    have hpath : Grounded u (if keepsPath ctx site.base owner then asBase owner text
        else asBase owner text ++ ".prototype") := by
      split
      · exact hground
      · exact hground.append (Fixed.grounded (by decide)) (.inr (by decide))
    exact Refers.call (Refers.append (grounded_member hpath hname) (Fixed.grounded (by decide))
      (.inr (by decide))) hK.2

/-- `select` looks at one argument of what was captured. -/
theorem registers_selectText (index : Expr) :
    Registers I K (selectText index parts.firstArgument) fun u t => Grounded u t := by
  have hvarargs (u : Usage) : Grounded u "varargs" := Fixed.grounded (by decide)
  unfold selectText
  split
  next value raw hkind =>
    exact registers_pure fun u _ => (hvarargs u).bracketsBehind (grounded_signed _)
  · exact (h.firstArgument _).map fun u t ht =>
      (hvarargs u).bracketsBehind (ht.behind (s := " - 1") (by decide))

/-- A class is made from the grounded texts of its arguments. -/
theorem registers_classCall : Registers I K (classCall site parts) fun u t => Grounded u t := by
  unfold classCall
  refine .ite (fun _ => ?_) fun _ => ?_
  · exact (h.classBody _).bind fun body => registers_pure fun u hK =>
      hK.2.text none fun _ hnone => nomatch hnone
  · exact (h.arguments _).map fun u ts hts => grounded_createClassText hts

/-- `table.concat` is recorded before its arguments are lowered. -/
theorem registers_tableConcat :
    Registers I K (do
      useSystemFunction "table" "concat"
      let arguments ← parts.arguments
      return callText "l2j.table.concat"
        (if arguments.length = 1 then arguments ++ ["\"\""] else arguments))
      fun u t => Grounded u t := by
  refine (registers_useSystemFunction "table" "concat").bind fun _ => ?_
  refine (h.arguments _).bind fun arguments => registers_pure fun u hK => ?_
  have hconcat : Grounded u ("l2j." ++ "table" ++ "." ++ Name.asProperty "concat") :=
    grounded_libraryFunction rfl ⟨by decide, by decide⟩ hK.1.2
  refine Refers.call hconcat ?_
  split
  · refine List.forall_mem_append.2 ⟨hK.2, List.forall_mem_singleton.2 ?_⟩
    exact (Fixed.grounded (by decide)).weaken true
  · exact hK.2

/-- A value type is written under the configured namespace, by a name that is clear. -/
theorem registers_valueType (hctx : ctx.Clear) {name : String} (hname : name = "" ∨ Name.IsClear name) :
    Registers I K (do
      return "new " ++ ctx.options.valueTypeNamespace ++ "." ++ callText name (← parts.arguments))
      fun u t => Grounded u t := by
  refine (h.arguments _).map fun u ts hts => ?_
  have hspace : Grounded u ("new " ++ ctx.options.valueTypeNamespace ++ ".") :=
    Refers.append ((hctx.valueTypes u).before (by decide)) (Fixed.grounded (by decide))
      (.inr (by decide))
  have hcallee : Grounded u name := by
    rcases hname with rfl | hname
    · exact Script.grounded_empty
    · exact hname.grounded
  exact hspace.append (hcallee.call hts)
    (.inl (Script.endsWord_append_of (by decide) (by decide) _))

/-- **A call records the functions that it writes**, whatever its pattern. -/
theorem registers_call (hctx : ctx.Clear) (hclear : Clear site.base.tokens) (role : Role) :
    Registers I K (call ctx role site parts) fun u t => Grounded u t := by
  have hformat : Name.IsClear "format" := ⟨by decide, by decide⟩
  have hinsert : Name.IsClear "insert" := ⟨by decide, by decide⟩
  unfold call
  split
  · exact registers_classCall h
  · exact registers_pure fun u _ => Fixed.grounded (by decide)
  · split
    · exact registers_selectText h _
    · exact registers_genericCall h
  · exact registers_libraryCall h rfl hformat
  · exact (h.firstArgument _).map fun u t ht => grounded_errorText ht role
  · exact registers_libraryCall h rfl hinsert
  · exact registers_libraryCall h rfl hinsert
  · exact registers_tableConcat h
  · exact registers_supportCall h fun _ _ => Fixed.grounded (by decide)
  next hpattern =>
    split
    next library name hname =>
      -- the pattern says that the callee is a path from a library
      have hfits := fits_patternAt ctx site
      rw [hpattern] at hfits
      obtain ⟨hlibrary, hmember⟩ := library_of_callsSystemFunction hfits hclear hname
      exact registers_libraryCall h hlibrary hmember
    · exact registers_genericCall h
  · exact registers_supportCall h fun _ _ => Fixed.grounded (by decide)
  next hpattern =>
    split
    next owner indexer identifier hkind =>
      exact registers_selfCall h hpattern hkind (isClear_of_member hclear hkind)
    · exact registers_genericCall h
  · refine registers_valueType h hctx ?_
    cases hname : site.base.name? with
    | none => exact .inl rfl
    | some name => exact .inr (isClear_of_name hclear hname)
  · exact registers_supportCall h fun _ _ => Fixed.grounded (by decide)
  · exact registers_genericCall h

end Call

/-! ## Bindings -/

section Binding

variable {targets : Targets} {value : String} {values : List String}

/-- A bound name refers to what its pattern and its value refer to. -/
theorem refers_boundText {u : Usage} {lead pattern : String} (hlead : IsLead lead)
    (hpattern : Refers u true pattern) (hvalue : Refers u true value) (name : String) (node : Expr)
    (isFirst : Bool) : Refers u true (boundText ctx lead pattern name node value isFirst) := by
  unfold boundText
  split
  · have hclass := grounded_createClassText (List.forall_mem_singleton.2 hvalue)
    exact (refers_bound hlead hpattern hclass).weaken true
  · split
    · exact refers_bound hlead hpattern hvalue
    · exact refers_bindPlain hlead hpattern hvalue name node

/-- One name is bound, and a class among the values is declared. -/
theorem registers_bindName (hI : ctx.isTop = true → AllowsClasses I) (hlead : IsLead targets.lead)
    (hpattern : ∀ u, K u → ClassText targets.pattern)
    (hvalue : ∀ u, K u → Refers u true value) (name : String) (node : Expr) :
    Registers I K (bindName ctx targets name node value) fun u t => Refers u true t := by
  intro p hp hK
  rw [bindName_run, bindAs_run]
  have hrecorded (global : Bool) (u : Usage) :
      (∀ function ∈ (if global then p.registries.recordInitializedGlobal name
        else p.registries).systemFunctions, function ∈ u.functions) → p.RecordedIn u := by
    cases global <;> exact id
  have hpattern := hpattern ⟨p.registries.systemFunctions, true⟩ (hK _ fun _ h => h)
  refine ⟨⟨hp.comments, ?_⟩, fun u hu => ⟨hrecorded _ u hu, ?_⟩⟩
  · dsimp only
    split
    next hclass =>
      have htop : ctx.isTop = true := by
        simp only [makesClass, Bool.and_eq_true] at hclass
        exact hclass.2.1
      exact hI htop _ _ hp.classes hpattern
    · exact hp.classes
  · refine refers_boundText ?_ (refers_classText hpattern u) (hvalue u (hK u (hrecorded _ u hu)))
      name node _
    split
    · exact .inr (.inr rfl)
    · exact hlead

/-- A binding of several names refers to what the targets and the values refer to. -/
theorem registers_bind (hI : ctx.isTop = true → AllowsClasses I) (hlead : IsLead targets.lead)
    (hpattern : ∀ u, K u → Refers u true targets.pattern)
    (hsingle : targets.single.isSome = true → ∀ t, targets.texts = [t] → ∀ u, K u → ClassText t)
    (hvalues : ∀ u, K u → RefersAll u values) (init : List Expr) :
    Registers I K (Emit.bind ctx targets init values) fun u t => Refers u true t := by
  unfold Emit.bind
  split
  next text node value name htexts hname =>
    refine registers_bindName hI hlead ?_
      (fun u hu => hvalues u hu value (List.mem_singleton_self value)) _ _
    rw [Targets.pattern, htexts]
    exact hsingle (hname ▸ rfl) text htexts
  next value _ _ =>
    exact registers_pure fun u hu =>
      refers_bound hlead (hpattern u hu) (hvalues u hu value (List.mem_singleton_self value))
  · exact registers_pure fun u hu =>
      refers_bound hlead (hpattern u hu) (refers_packValues _ (hvalues u hu)).findAll

end Binding

/-! ### Assignments -/

/-- Texts of expressions. -/
def ShowsAll (u : Usage) (ctx : Context) (es : List Expr) (ts : List String) : Prop :=
  List.Forall₂ (fun e t => Shows u ctx e.kind t) es ts

/-- Texts that show their expressions refer to what was recorded. -/
theorem ShowsAll.refersAll {u : Usage} {es : List Expr} {ts : List String}
    (h : ShowsAll u ctx es ts) : RefersAll u ts := by
  induction h with
  | nil => exact List.forall_mem_nil _
  | cons hfirst _ ih => exact List.forall_mem_cons.2 ⟨hfirst.refers, ih⟩

/-- The text of a target that is a name. -/
theorem classText_of_single {u : Usage} {vs : List Expr} {texts : List String} {t : String}
    (hname : (assignedTargets ctx vs texts).single.isSome = true) (htexts : texts = [t])
    (h : ShowsAll u ctx vs texts) : ClassText t := by
  subst htexts
  cases h with
  | cons hshows hrest =>
    cases hrest with
    | nil =>
      next e =>
      obtain ⟨id, span, kind⟩ := e
      cases kind with
      | name name => exact hshows.classText
      | _ => cases hname

/-- The parts of an assignment keep to what is recorded. -/
structure AssignmentParts.Registers (I : List String → Prop) (ctx : Context) (vs : List Expr)
    (parts : AssignmentParts) : Prop where
  indexBase : ∀ K, Emit.Registers I K parts.indexBase fun u t => ∀ id span base index rest,
    vs = ⟨id, span, .index base index⟩ :: rest → Shows u ctx base.kind t
  firstTarget : ∀ K, Emit.Registers I K parts.firstTarget fun u t => Refers u true t
  firstValue : ∀ K, Emit.Registers I K parts.firstValue fun u t => Refers u true t
  classBody : ∀ K, Emit.Registers I K parts.classBody ClassRefers
  targets : ∀ K, Emit.Registers I K parts.targets fun u ts => ShowsAll u ctx vs ts
  values : ∀ K, Emit.Registers I K parts.values RefersAll

section Assignment

variable {vs : List Expr} {parts : AssignmentParts} (h : parts.Registers I ctx vs)

include h

/-- An assignment of a class declares it by its target. -/
theorem registers_assignClass (hctx : ctx.Clear) {target : Expr} (hclear : Clear target.tokens) :
    Registers I K (assignClass ctx target parts) fun u t => Refers u true t := by
  obtain ⟨id, span, kind⟩ := target
  cases kind with
  | name name =>
    have hname : Name.IsClear name := isClear_of_name (e := ⟨id, span, .name name⟩) hclear rfl
    refine registers_get fun p _ => (h.classBody _).bind fun body => registers_pure fun u hK => ?_
    have hbinding := (hctx.names id name hname).isSpelling.grounded (u := u)
    have hclass := hK.2.text (some _) fun n hn => Option.some.inj hn ▸ hbinding
    refine (refers_bound ?_ hbinding hclass).weaken true
    split
    · exact .inr (.inr rfl)
    · exact .inl rfl
  | _ =>
    refine (h.firstTarget _).bind fun text => (h.classBody _).bind fun body =>
      registers_pure fun u hK => ?_
    have hclass := hK.2.text none fun _ hnone => nomatch hnone
    exact (hK.1.2.between (by decide) hclass).weaken true

/-- An assignment is a binding whose names are texts. -/
theorem registers_assigned (hI : ctx.isTop = true → AllowsClasses I) (init : List Expr) :
    Registers I K (do
      let texts ← parts.targets
      Emit.bind ctx.asValue (assignedTargets ctx vs texts) init (← parts.values))
      fun u t => Refers u true t := by
  refine (h.targets _).bind fun texts => (h.values _).bind fun values => ?_
  have htexts : (assignedTargets ctx vs texts).texts = texts := by
    unfold assignedTargets
    split <;> rfl
  have hlead : (assignedTargets ctx vs texts).lead = "" := by
    unfold assignedTargets
    split <;> rfl
  refine registers_bind hI (.inl hlead) (fun u hu => refers_pattern ?_) ?_ (fun u hu => hu.2) init
  · exact htexts.symm ▸ hu.1.2.refersAll
  · intro hname t ht u hu
    exact classText_of_single hname (htexts ▸ ht) hu.1.2

/-- **An assignment records the functions that it writes.** -/
theorem registers_assignment (hI : ctx.isTop = true → AllowsClasses I) (hctx : ctx.Clear)
    (hclear : ∀ e ∈ vs, Clear e.tokens) (init : List Expr) :
    Registers I K (assignment ctx vs init parts) fun u t => Refers u true t := by
  unfold assignment
  cases happend : appendBase? vs init with
  | some base =>
    obtain ⟨id, span, index, hvs⟩ : ∃ id span index, vs = [⟨id, span, .index base index⟩] := by
      unfold appendBase? at happend
      split at happend
      next id span target index value =>
        split at happend
        · exact ⟨id, span, index, by rw [Option.some.inj happend]⟩
        · cases happend
      · cases happend
    refine (registers_useSystemFunction "table" "insert").bind fun _ => ?_
    refine (h.indexBase _).bind fun table => (h.firstValue _).bind fun value => ?_
    refine registers_pure fun u hK => ?_
    -- an append is written as a call of the library, which is recorded first
    have hinsert : Grounded u ("l2j." ++ "table" ++ "." ++ Name.asProperty "insert") :=
      grounded_libraryFunction rfl ⟨by decide, by decide⟩ hK.1.1.2
    have htable := (hK.1.2 id span base index [] hvs).asBase
    exact (hinsert.call (List.forall_mem_cons.2
      ⟨htable.refers, List.forall_mem_singleton.2 hK.2⟩)).weaken true
  | none =>
    dsimp only
    cases definesClass vs init with
    | false => exact registers_assigned h hI init
    | true =>
      cases vs with
      | nil => exact registers_assigned h hI init
      | cons target rest => exact registers_assignClass h hctx (hclear target List.mem_cons_self)

end Assignment

/-! ### Declarations -/

/-- The parts of a `local` statement keep to what is recorded. -/
structure LocalParts.Registers (I : List String → Prop) (parts : LocalParts) : Prop where
  arguments : ∀ K, Emit.Registers I K parts.arguments RefersAll
  classBody : ∀ K, Emit.Registers I K parts.classBody ClassRefers
  values : ∀ K, Emit.Registers I K parts.values RefersAll

section Local

variable {vars : List Identifier} {parts : LocalParts} {u : Usage}

/-- Clear names refer to nothing when they are declared. -/
theorem refersAll_declaredNames (hctx : ctx.Clear) (hvars : ∀ v ∈ vars, Name.IsClear v.name) :
    RefersAll u (vars.map ctx.declaredName) := by
  intro t ht
  obtain ⟨v, hv, rfl⟩ := List.mem_map.1 ht
  exact (hctx.declaredName (hvars v hv)).weaken true

/-- The targets of a local statement are its names as they are declared. -/
theorem texts_localTargets (ctx : Context) (id : NodeId) (vars : List Identifier) :
    (localTargets ctx id vars).2.texts = vars.map ctx.declaredName := by
  unfold localTargets
  dsimp only
  split <;> rfl

/-- What is declared before a `local` statement, and what the statement binds. -/
theorem refers_localTargets (hctx : ctx.Clear) (hvars : ∀ v ∈ vars, Name.IsClear v.name)
    (id : NodeId) : Grounded u (localTargets ctx id vars).1 ∧
      Script.endsWord (localTargets ctx id vars).1 = false ∧
      IsLead (localTargets ctx id vars).2.lead ∧
      RefersAll u (localTargets ctx id vars).2.texts := by
  have htexts := refersAll_declaredNames (u := u) hctx hvars
  unfold localTargets
  dsimp only
  split
  · refine ⟨?_, ?_, .inl rfl, htexts⟩
    · split
      · exact Script.grounded_empty
      · have hfresh : RefersAll u ((vars.filter fun v =>
            !ctx.annotations.redeclared.contains v.id).map ctx.declaredName) :=
          refersAll_declaredNames hctx fun v hv => hvars v (List.mem_filter.1 hv).1
        exact ((Script.refers_commas hfresh).before (s := "let ") (by decide)).behind
          (s := ";\n") (by decide)
    · split
      · rfl
      · exact Script.endsWord_append_of (by decide) (by decide) _
  · exact ⟨Script.grounded_empty, rfl, .inr (.inl rfl), htexts⟩

/-- A declaration without values refers to nothing. -/
theorem refers_localWithoutValues {targets : Targets} (h : RefersAll u targets.texts) :
    Refers u true (localWithoutValues targets) := by
  unfold localWithoutValues
  split
  · refine refers_sequence fun t ht => ?_
    obtain ⟨name, hname, rfl⟩ := List.mem_map.1 ht
    exact ((h name hname).behind (by decide)).weaken true
  · exact (Script.refers_commas h).before (by decide)

variable (hI : ctx.isTop = true → AllowsClasses I) (h : parts.Registers I) (hctx : ctx.Clear)

include hI h hctx

/-- A local statement is a binding whose names are declared. -/
theorem registers_localBinding (hvars : ∀ v ∈ vars, Name.IsClear v.name) (id : NodeId)
    (init : List Expr) :
    Registers I K (localBinding ctx id vars init parts) fun u t => Refers u true t := by
  have hdeclared {u : Usage} {t : String} (ht : Refers u true t) :
      Refers u true ((localTargets ctx id vars).1 ++ t) := by
    obtain ⟨hground, hend, -, -⟩ := refers_localTargets (u := u) hctx hvars id
    exact hground.append ht (.inl hend)
  unfold localBinding
  dsimp only
  refine .ite (fun _ => registers_pure fun u _ => ?_) fun _ => ?_
  · exact hdeclared (refers_localWithoutValues (refers_localTargets hctx hvars id).2.2.2)
  · refine (h.values _).bind fun values => Registers.map ?_ fun u t ht => hdeclared ht
    refine registers_bind hI ?_ (fun u _ => ?_) (fun _ t ht _ _ => ?_) (fun u hu => hu.2) init
    · exact (refers_localTargets (u := ⟨.empty, false⟩) hctx hvars id).2.2.1
    · exact refers_pattern (refers_localTargets hctx hvars id).2.2.2
    · have htext := ht ▸ List.mem_singleton_self t
      rw [texts_localTargets] at htext
      obtain ⟨v, hv, rfl⟩ := List.mem_map.1 htext
      exact Padded.of_self (.inl (hctx.isSpelling_declaredName (hvars v hv)))

/-- A local class is declared by its name, whichever of its forms is written. -/
theorem registers_localClass {v : Identifier} (hv : Name.IsClear v.name) (value : Expr)
    {m : Emit String} (hm : localClass? ctx v value parts = some m) :
    Registers I K m fun u t => Refers u true t := by
  have hname {u : Usage} : Grounded u (ctx.declaredName v) := hctx.declaredName hv
  have hbound {u : Usage} {t : String} (ht : Grounded u t) :
      Refers u true ("let " ++ ctx.declaredName v ++ " = " ++ t) :=
    (refers_bound (.inr (.inl rfl)) hname ht).weaken true
  have hclass : ClassText (ctx.declaredName v) :=
    Padded.of_self (.inl (hctx.isSpelling_declaredName hv))
  -- classes are registered at the top level, where the file may declare them
  have hdeclare (htop : ctx.isTop = true) {K : Usage → Prop} :
      Registers I K (declareClass (ctx.declaredName v)) fun _ _ => True :=
    registers_declareClass (hI htop) hclass
  unfold localClass? at hm
  dsimp only at hm
  split at hm
  next hmodule =>
    obtain rfl := Option.some.inj hm
    have htop := (Bool.and_eq_true_iff.1 (Bool.and_eq_true_iff.1 hmodule).1).1
    refine (hdeclare htop).bind fun _ => registers_pure fun u _ => hbound ?_
    exact grounded_createClassText (List.forall_mem_singleton.2 ((hctx.fileNameText u).weaken true))
  · split at hm
    · split at hm
      · cases hm
      · split at hm
        · obtain rfl := Option.some.inj hm
          exact (h.classBody _).bind fun body => registers_pure fun u hK =>
            (hK.2.text (some _) fun n hn => Option.some.inj hn ▸ hname).weaken true
        · obtain rfl := Option.some.inj hm
          have hcreate {K : Usage → Prop} : Registers I K
              (do return "let " ++ ctx.declaredName v ++ " = " ++
                createClassText (← parts.arguments)) fun u t => Refers u true t :=
            (h.arguments _).map fun u ts hts => hbound (grounded_createClassText hts)
          exact .ite (fun htop => (hdeclare htop).bind fun _ => hcreate) fun _ => hcreate
    · cases hm

/-- **A `local` statement records the functions that it writes.** -/
theorem registers_localStatement (hvars : ∀ v ∈ vars, Name.IsClear v.name) (id : NodeId)
    (init : List Expr) :
    Registers I K (localStatement ctx id vars init parts) fun u t => Refers u true t := by
  have hbinding := registers_localBinding (K := K) hI h hctx hvars id init
  unfold localStatement
  dsimp only
  split
  next v value =>
    cases hclass : localClass? ctx v value parts with
    | none => exact hbinding
    | some m => exact registers_localClass hI h hctx (hvars v List.mem_cons_self) value hclass
  · exact hbinding

end Local

/-! ## Returns -/

/-- Whether a `return` at a node exports a value, before which all classes are sealed. -/
def exportsAt (ctx : Context) (arguments : List Expr) : Bool := ctx.isTop && !isFailure arguments

/-- What a file exports at its top is recorded as declared classes. -/
theorem registers_returnStatement (hI : ctx.isTop = true → RefersClasses I) (arguments : List Expr)
    {second : Emit String} {all : Emit (List String)}
    (hsecond : ∀ K, Registers I K second fun u t => Refers u true t)
    (hall : ∀ K, Registers I K all RefersAll) :
    Registers I K (returnStatement ctx arguments second all) fun u t =>
      (exportsAt ctx arguments = true → u.seals = true) → Refers u true t := by
  have hthrow (u : Usage) : Grounded u "throw new Error" := Fixed.grounded (by decide)
  unfold returnStatement
  refine .ite (fun _ => ?_) fun hfailure => ?_
  · exact (hsecond _).map fun u t ht _ => ((hthrow u).parensBehind ht).weaken true
  · refine (hall _).bind fun texts => .ite (fun htop => ?_) fun _ => ?_
    · refine registers_get fun p hp => registers_pure fun u hK hseals => ?_
      have hexports : exportsAt ctx arguments = true := by
        rw [exportsAt, htop, Bool.eq_false_iff.2 hfailure]
        rfl
      exact refers_exportText (hseals hexports) (fun c hc => hI htop _ hp.classes c hc u)
        (refers_packText hK.1.2)
    · exact registers_pure fun u hK _ => refers_returnText (refers_packText hK.2)

end Emit

end LuaCompiler
