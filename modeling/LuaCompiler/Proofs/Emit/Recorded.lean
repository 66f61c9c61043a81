import LuaCompiler.Proofs.Emit.Declared
import LuaCompiler.Proofs.Emit.Recording
import LuaCompiler.Proofs.Emit.Rendered

/-!
# A program records the functions that it writes

The walk over a clear tree writes texts that keep to what is recorded: `Registers` for every node, by
the recursion of the walk, and for a whole program. Classes are sealed by the program's export or behind
its last statement, and by no other statement.

* `registers_statements`: the statements of a block.
* `registers_chunk`: a program.
-/

namespace LuaCompiler

open Script (Usage Refers Grounded Silent Fixed)

/-! ## Parts of clear trees -/

namespace Clear

open Token (Kind)

variable {k : Kind} {kinds more : List Kind} {es : List Expr}

theorem left (h : Clear (kinds ++ more)) : Clear kinds := (append_iff.1 h).1

theorem right (h : Clear (kinds ++ more)) : Clear more := (append_iff.1 h).2

theorem head (h : Clear (k :: kinds)) : k.IsClear := (cons_iff.1 h).1

theorem tail (h : Clear (k :: kinds)) : Clear kinds := (cons_iff.1 h).2

/-- Expressions in a clear row are clear. -/
theorem exprs (h : ∀ kinds ∈ exprTokens es, Clear kinds) : ∀ e ∈ es, Clear e.tokens := by
  induction es with
  | nil => exact List.forall_mem_nil _
  | cons e es ih =>
    obtain ⟨hfirst, hrest⟩ := List.forall_mem_cons.1 h
    exact List.forall_mem_cons.2 ⟨hfirst, ih hrest⟩

/-- Fields in a clear row are clear. -/
theorem fields {fs : List Field} (h : ∀ kinds ∈ fieldTokens fs, Clear kinds) :
    ∀ field ∈ fs, Clear field.kind.tokens := by
  induction fs with
  | nil => exact List.forall_mem_nil _
  | cons field fs ih =>
    obtain ⟨id, span, kind⟩ := field
    obtain ⟨hfirst, hrest⟩ := List.forall_mem_cons.1 h
    exact List.forall_mem_cons.2 ⟨hfirst, ih hrest⟩

end Clear

namespace Emit

variable {I : List String → Prop} {K : Usage → Prop} {ctx : Context}

/-! ## What is known of the parts -/

/-- More may be recorded than a text shows. -/
theorem staysWithin_shows (ctx : Context) (kind : ExprKind) :
    StaysWithin fun u t => Shows u ctx kind t := by
  intro u s t v hs hv h
  cases kind with
  | name name => exact Padded.within h hs hv
  | unary => exact Refers.within h hs hv
  | _ => exact Refers.within h hs hv

theorem staysWithin_grounded : StaysWithin Grounded := fun _ _ _ _ hs hv h => h.within hs hv

/-- Whether a statement is the export of a program. -/
def exportsStatement (ctx : Context) : StmtKind → Bool
  | .return arguments => exportsAt ctx arguments
  | _ => false

/-- The text of a statement keeps to a usage, which admits that classes are sealed if the statement is
the export. -/
def RefersStatement (ctx : Context) (u : Usage) (kind : StmtKind) (t : String) : Prop :=
  (exportsStatement ctx kind = true → u.seals = true) → Refers u true t

/-- So may behind a statement. -/
theorem staysWithin_statement (ctx : Context) (kind : StmtKind) :
    StaysWithin fun u t => RefersStatement ctx u kind t :=
  fun _ _ _ _ hs hv h hexports => (h hexports).within hs hv

/-- The texts of statements keep to a usage. -/
def RefersBlock (ctx : Context) (body : List Stmt) (u : Usage) (ts : List String) : Prop :=
  List.Forall₂ (fun s t => RefersStatement ctx u s.kind t) body ts

/-- Inside a function a block refers to what was recorded. -/
theorem refersAll_of_block {body : List Stmt} {u : Usage} {ts : List String}
    (h : RefersBlock ctx body u ts) (hinner : ctx.isTop = false) : RefersAll u ts := by
  have hnone (kind : StmtKind) : exportsStatement ctx kind = false := by
    cases kind <;> simp [exportsStatement, exportsAt, hinner]
  induction h with
  | nil => exact List.forall_mem_nil _
  | cons hfirst _ ih =>
    exact List.forall_mem_cons.2 ⟨hfirst fun hexports => absurd hexports (by simp [hnone]), ih⟩

/-- So it does at the top when the sealing of classes is recorded. -/
theorem refersAll_of_seals {body : List Stmt} {u : Usage} {ts : List String}
    (h : RefersBlock ctx body u ts) (hseals : u.seals = true) : RefersAll u ts := by
  induction h with
  | nil => exact List.forall_mem_nil _
  | cons hfirst _ ih => exact List.forall_mem_cons.2 ⟨hfirst fun _ => hseals, ih⟩

/-- What is known of the classes where classes are declared and sealed. -/
structure KeepsClasses (I : List String → Prop) : Prop where
  allows : AllowsClasses I
  refers : RefersClasses I

/-- An inner block neither declares nor seals classes. -/
theorem Registers.block {body : List Stmt} (h : (ctx.isTop = true → KeepsClasses I) →
    ∀ K, Registers I K (statements ctx body) (RefersBlock ctx body)) (hinner : ctx.isTop = false) :
    Registers I K (statements ctx body) RefersAll := by
  have htop : ctx.isTop = true → KeepsClasses I := fun htop => absurd htop (by simp [hinner])
  exact (h htop K).imp fun _ _ hblock => refersAll_of_block hblock hinner

/-- A statement that is not the export. -/
theorem Registers.plain {kind : StmtKind} {m : Emit String}
    (h : Registers I K m fun u t => Refers u true t) :
    Registers I K m fun u t => RefersStatement ctx u kind t :=
  h.imp fun _ _ ht _ => ht

/-- The varargs are written without a library, in every role. -/
theorem grounded_role_vararg (u : Usage) (role : Role) : Grounded u role.vararg := by
  cases role <;> exact Fixed.grounded (by decide)

/-- So is a string. -/
theorem grounded_role_string (u : Usage) (role : Role) (raw : String) :
    Grounded u (role.string raw) := by
  unfold Role.string
  split
  · exact Fixed.grounded (by decide)
  · exact ⟨_, Script.reads_toScript raw, fun _ hpost => nomatch hpost⟩

mutual

/-- An expression records what it shows, and the comments around it show nothing. -/
theorem registers_expression : ∀ (e : Expr) {ctx : Context} (role : Role), ctx.Clear →
    Clear e.tokens → ∀ K, Registers I K (expression ctx role e) fun u t => Shows u ctx e.kind t
  | ⟨id, span, kind⟩, ctx, role, hctx, h, K =>
    (registers_expressionKind id kind role hctx h K).around (staysWithin_shows ctx kind) span

/-- Node by node, from the rules of the recording. -/
theorem registers_expressionKind (id : NodeId) : ∀ (kind : ExprKind) {ctx : Context} (role : Role),
    ctx.Clear → Clear kind.tokens →
    ∀ K, Registers I K (expressionKind ctx role id kind) fun u t => Shows u ctx kind t
  | .name _, _, _, hctx, h, _ => registers_reference hctx id h.head
  | .nil, _, _, _, _, _ => registers_pure fun _ _ => Fixed.grounded (by decide)
  | .boolean value, _, _, _, _, _ => registers_pure fun _ _ => by
    cases value <;> exact Fixed.grounded (by decide)
  | .number _ _, _, _, _, h, _ => registers_pure fun _ _ => grounded_numeral h.head
  | .string raw, _, role, _, _, _ => registers_pure fun u _ => grounded_role_string u role raw
  | .vararg, _, role, _, _, _ => registers_pure fun u _ => grounded_role_vararg u role
  | .function f, _, _, hctx, h, _ =>
    (registers_function f hctx (List.Subset.refl _) h.tail _).bind fun _ =>
      registers_pure fun _ hK => hK.2.expression
  | .table fields, _, _, hctx, h, _ =>
    (registers_entries fields _ hctx (Clear.fields h.tail.left.of_commaSeparated) _).bind fun _ =>
      registers_pure fun _ hK => grounded_tableText hK.2 fields
  | .binary operator left right, _, _, hctx, h, _ =>
    (registers_expression left _ hctx h.left.of_encloseIf _).bind fun _ =>
      (registers_expression right _ hctx h.right.tail.of_encloseIf _).bind fun _ =>
        registers_pure fun _ hK => grounded_binaryText hK.1.2.refers hK.2.refers operator _
  | .logical operator left right, ctx, _, hctx, h, _ => by
    unfold expressionKind
    refine .ite (fun _ => ?_) fun _ => ?_
    · -- a choice lowers the operands of the chain, any other operator its own two
      refine (registers_conjuncts left hctx h.left.of_encloseIf _).bind fun _ => ?_
      exact (registers_expression right .single hctx h.right.tail.of_encloseIf _).bind fun _ =>
        registers_pure fun _ hK => grounded_conditionalText hK.1.2.1 hK.1.2.2 hK.2.refers
    · refine (registers_expression left .single hctx h.left.of_encloseIf _).bind fun _ => ?_
      exact (registers_expression right .single hctx h.right.tail.of_encloseIf _).bind fun _ =>
        registers_pure fun _ hK => grounded_logicalText hK.1.2.refers hK.2.refers operator _
  | .unary operator argument, _, _, hctx, h, _ =>
    (registers_expression argument .single hctx h.tail.of_encloseIf _).bind fun _ =>
      registers_pure fun _ hK => refers_unaryText hK.2.refers operator
  | .member base indexer identifier, _, _, hctx, h, _ =>
    (registers_useMember base identifier).bind fun _ =>
      (registers_expression base .single hctx h.left.of_encloseIf _).bind fun _ =>
        registers_pure fun _ hK => hK.2.asBase.member h.right.tail.head hK.1.2
  | .index base index, _, _, hctx, h, _ =>
    (registers_expression base .single hctx h.left.of_encloseIf _).bind fun _ =>
      (registers_expression index .single hctx h.right.tail.left _).bind fun _ =>
        registers_pure fun _ hK => hK.1.2.asBase.refers.bracketsBehind hK.2.refers
  | .call base style arguments, _, role, hctx, h, _ =>
    have harguments := Clear.exprs h.right.of_write
    registers_call
      { callee := registers_expression base .single hctx h.left.of_encloseIf
        owner := registers_owner base hctx h.left.of_encloseIf
        arguments := fun K => (registers_expressions arguments .spread hctx harguments K).imp
          fun _ _ hts => hts.refersAll
        firstArgument := registers_firstExpression arguments hctx harguments
        classBody := registers_classBody arguments hctx harguments }
      hctx h.left.of_encloseIf role

/-- Both operands of a chain refer to what was recorded. -/
theorem registers_conjuncts : ∀ (e : Expr) {ctx : Context}, ctx.Clear → Clear e.tokens →
    ∀ K, Registers I K (conjuncts ctx e) fun u operands =>
      Refers u true operands.1 ∧ Refers u true operands.2
  | ⟨_, _, kind⟩, _, hctx, h, _ => by
    cases kind with
    | logical operator left right =>
      refine (registers_expression left .single hctx (Clear.left h).of_encloseIf _).bind fun _ => ?_
      exact (registers_expression right .single hctx (Clear.right h).tail.of_encloseIf _).bind fun _ =>
        registers_pure fun _ hK => ⟨hK.1.2.refers, hK.2.refers⟩
    | _ => exact registers_pure fun _ _ =>
        ⟨Script.grounded_empty.weaken true, Script.grounded_empty.weaken true⟩

/-- The owner of a member shows what it is. -/
theorem registers_owner : ∀ (e : Expr) {ctx : Context}, ctx.Clear → Clear e.tokens →
    ∀ K, Registers I K (owner ctx e) fun u t => ∀ base indexer identifier,
      e.kind = .member base indexer identifier → Shows u ctx base.kind t
  | ⟨_, _, kind⟩, _, hctx, h, _ => by
    cases kind with
    | member base indexer identifier =>
      refine (registers_expression base .single hctx (Clear.left h).of_encloseIf _).imp ?_
      intro u t ht other _ _ heq
      obtain ⟨rfl, -, -⟩ := ExprKind.member.inj heq
      exact ht
    | _ => exact registers_pure fun _ _ _ _ _ heq => nomatch heq

/-- Each of some expressions shows what it is when all are lowered. -/
theorem registers_expressions : ∀ (es : List Expr) {ctx : Context} (last : Role), ctx.Clear →
    (∀ e ∈ es, Clear e.tokens) →
    ∀ K, Registers I K (expressions ctx last es) fun u ts => ShowsAll u ctx es ts
  | [], _, _, _, _, _ => registers_pure fun _ _ => .nil
  | [only], _, last, hctx, h, _ =>
    (registers_expression only last hctx (h only List.mem_cons_self) _).bind fun _ =>
      registers_pure fun _ hK => .cons hK.2 .nil
  | first :: second :: rest, _, last, hctx, h, _ =>
    (registers_expression first .single hctx (h first List.mem_cons_self) _).bind fun _ =>
      (registers_expressions (second :: rest) last hctx
        (fun e he => h e (List.mem_cons_of_mem first he)) _).bind fun _ =>
        registers_pure fun _ hK => .cons hK.1.2 hK.2

theorem registers_firstExpression : ∀ (es : List Expr) {ctx : Context}, ctx.Clear →
    (∀ e ∈ es, Clear e.tokens) →
    ∀ K, Registers I K (firstExpression ctx es) fun u t => Refers u true t
  | [], _, _, _, _ => registers_pure fun _ _ => Script.grounded_empty.weaken true
  | first :: _, _, hctx, h, _ =>
    (registers_expression first .single hctx (h first List.mem_cons_self) _).imp
      fun _ _ ht => ht.refers

/-- The body of a class refers to what was recorded below it. -/
theorem registers_classBody : ∀ (es : List Expr) {ctx : Context}, ctx.Clear →
    (∀ e ∈ es, Clear e.tokens) → ∀ K, Registers I K (classBody ctx es) ClassRefers
  | [], _, _, _, _ => registers_pure fun _ _ => ⟨List.forall_mem_nil _, fun _ hnone => nomatch hnone⟩
  | ⟨id, span, kind⟩ :: rest, _, hctx, h, _ => by
    cases kind with
    | table fields =>
      have htable : Clear (ExprKind.table fields).tokens := h _ List.mem_cons_self
      have hfields := Clear.fields htable.tail.left.of_commaSeparated
      refine (registers_members fields hctx.asValue hfields _).bind fun _ => ?_
      exact (registers_parent rest hctx (fun e he => h e (List.mem_cons_of_mem _ he)) _).bind fun _ =>
        registers_pure fun _ hK => ⟨hK.1.2, hK.2⟩
    | _ => exact registers_pure fun _ _ => ⟨List.forall_mem_nil _, fun _ hnone => nomatch hnone⟩

theorem registers_parent : ∀ (es : List Expr) {ctx : Context}, ctx.Clear →
    (∀ e ∈ es, Clear e.tokens) →
    ∀ K, Registers I K (parent ctx es) fun u text => ∀ t ∈ text, Refers u true t
  | [], _, _, _, _ => registers_pure fun _ _ _ hnone => nomatch hnone
  | first :: _, _, hctx, h, _ =>
    (registers_expression first .single hctx (h first List.mem_cons_self) _).bind fun _ =>
      registers_pure fun _ hK _ hsome => Option.some.inj hsome ▸ hK.2.asBase.refers

/-- Each entry of a table refers to what was recorded when all are lowered. -/
theorem registers_entries : ∀ (fields : List Field) {ctx : Context} (last : Role), ctx.Clear →
    (∀ field ∈ fields, Clear field.kind.tokens) →
    ∀ K, Registers I K (entries ctx last fields) fun u es => ∀ entry ∈ es, entry.Refers u
  | [], _, _, _, _, _ => registers_pure fun _ _ => List.forall_mem_nil _
  | ⟨_, _, kind⟩ :: rest, _, last, hctx, h, _ =>
    (registers_entry kind _ hctx (h _ List.mem_cons_self) _).bind fun _ =>
      (registers_entries rest last hctx
        (fun field hfield => h field (List.mem_cons_of_mem _ hfield)) _).bind fun _ =>
        registers_pure fun _ hK => List.forall_mem_cons.2 ⟨hK.1.2, hK.2⟩

theorem registers_entry : ∀ (kind : FieldKind) {ctx : Context} (role : Role), ctx.Clear →
    Clear kind.tokens → ∀ K, Registers I K (entry ctx role kind) fun u e => e.Refers u
  | .positional value, _, role, hctx, h, _ =>
    (registers_expression value role hctx h _).bind fun _ => registers_pure fun _ hK => hK.2.refers
  | .named _ value, _, _, hctx, h, _ =>
    (registers_expression value .single hctx h.tail.tail _).bind fun _ =>
      registers_pure fun _ hK => ⟨h.head.grounded_asProperty, hK.2.refers⟩
  | .keyed key value, _, _, hctx, h, _ =>
    (registers_expression key .single hctx h.tail.left _).bind fun _ =>
      (registers_expression value .single hctx h.tail.right.tail.tail _).bind fun _ =>
        registers_pure fun _ hK => ⟨hK.1.2.refers, hK.2.refers⟩

/-- The members of a class refer to no library that was not recorded. -/
theorem registers_members : ∀ (fields : List Field) {ctx : Context}, ctx.Clear →
    (∀ field ∈ fields, Clear field.kind.tokens) →
    ∀ K, Registers I K (members ctx fields) fun u ts => ∀ t ∈ ts, Grounded u t
  | [], _, _, _, _ => registers_pure fun _ _ => List.forall_mem_nil _
  | ⟨_, span, kind⟩ :: rest, _, hctx, h, _ =>
    ((registers_member kind span hctx (h _ List.mem_cons_self) _).around
      staysWithin_grounded span).bind fun _ =>
      (registers_members rest hctx
        (fun field hfield => h field (List.mem_cons_of_mem _ hfield)) _).bind fun _ =>
        registers_pure fun _ hK => List.forall_mem_cons.2 ⟨hK.1.2, hK.2⟩

theorem registers_member : ∀ (kind : FieldKind) {ctx : Context} (span : Span), ctx.Clear →
    Clear kind.tokens → ∀ K, Registers I K (member ctx span kind) fun u t => Grounded u t
  | .named key value, _, _, hctx, h, _ =>
    registers_memberValue value (Name.asProperty key.name) hctx h.tail.tail _
      fun _ _ => h.head.grounded_asProperty
  | .keyed key value, _, _, hctx, h, _ =>
    (registers_expression key .single hctx h.tail.left _).bind fun _ =>
      registers_memberValue value _ hctx h.tail.right.tail.tail _ fun _ hK => hK.2.refers.brackets
  | .positional _, _, span, _, _, _ => registers_contain .positionalMember span

/-- A member is grounded when its key is. -/
theorem registers_memberValue : ∀ (e : Expr) {ctx : Context} (key : String), ctx.Clear →
    Clear e.tokens → ∀ K, (∀ u, K u → Grounded u key) →
    Registers I K (memberValue ctx key e) fun u t => Grounded u t
  | ⟨id, span, kind⟩, ctx, key, hctx, h, K, hkey => by
    have hproperty : Registers I K (do
        let text ← around span (expressionKind ctx .single id kind)
        return key ++ " = " ++ text ++ ";") fun u t => Grounded u t :=
      ((registers_expressionKind id kind .single hctx h _).around
        (staysWithin_shows ctx kind) span).bind fun _ => registers_pure fun u hK =>
          ((hkey u hK.1).between (s := " = ") (by decide) hK.2.refers).behind (by decide)
    cases kind with
    | function f =>
      have hshown : (Convention.ofFirstParameter f).shown ⊆ f.parameters :=
        shown_subset (.inr (.inl rfl))
      exact (registers_function f hctx hshown (Clear.tail h) _).bind fun _ =>
        registers_pure fun u hK => hK.2.member _ (hkey u hK.1)
    | _ => exact hproperty

/-- A function refers to what its body recorded; its own names are clear. -/
theorem registers_function : ∀ (f : FunctionBody) {ctx : Context} {convention : Convention},
    ctx.Clear → convention.shown ⊆ f.parameters → Clear f.tokens →
    ∀ K, Registers I K (function ctx convention f) fun u t => t.Refers u
  | ⟨_, _, parameters, isVararg, body⟩, ctx, convention, hctx, hshown, h, _ => by
    have hnames := Clear.of_parameters h.left.of_enclosed
    have hdeclared (u : Usage) : ∀ n ∈ convention.shown, Grounded u (ctx.declaredName n) :=
      fun n hn => hctx.declaredName (hnames n (hshown hn))
    have hinner := hctx.inFunction parameters convention.shown convention.receiver
    have hbody (K : Usage → Prop) := Registers.block (K := K)
      (registers_statements body hinner h.right.left) (by simp [Context.isTop, Context.inFunction,
        Context.inBlock])
    unfold function
    refine .ite (fun _ => ?_) fun _ => ?_
    · exact (Registers.withReceiver hbody).bind fun result => registers_pure fun u hK =>
        refers_functionText convention (hdeclared u) isVararg result.2 hK.2
    · exact (hbody _).bind fun _ => registers_pure fun u hK =>
        refers_functionText convention (hdeclared u) isVararg false hK.2

/-- **The statements of a block record the functions that they write.** -/
theorem registers_statements : ∀ (body : List Stmt) {ctx : Context}, ctx.Clear →
    Clear (stmtTokens body) → (ctx.isTop = true → KeepsClasses I) →
    ∀ K, Registers I K (statements ctx body) (RefersBlock ctx body)
  | [], _, _, _, _, _ => registers_pure fun _ _ => .nil
  | ⟨id, span, kind⟩ :: rest, ctx, hctx, h, hI, _ =>
    ((registers_statement id span kind hctx h.left (fun htop _ => (hI htop).allows)
      (fun htop => (hI htop).refers) _).around (staysWithin_statement ctx kind) span).bind fun _ =>
      (registers_statements rest hctx h.right.tail hI _).bind fun _ =>
        registers_pure fun _ hK => .cons hK.1.2 hK.2

/-- Statement by statement. At the top of a file the declared classes are recorded, so that what the
file returns refers to them; elsewhere no class is declared. -/
theorem registers_statement (id : NodeId) (span : Span) : ∀ (kind : StmtKind) {ctx : Context},
    ctx.Clear → Clear kind.tokens →
    (ctx.isTop = true → declaresClass kind = true → AllowsClasses I) →
    (ctx.isTop = true → RefersClasses I) →
    ∀ K, Registers I K (statement ctx id span kind) fun u t => RefersStatement ctx u kind t
  | .local vars init, _, hctx, h, hallows, _, _ =>
    have hinit := Clear.exprs h.tail.right.of_init
    .plain (registers_localStatement (fun htop => hallows htop rfl)
      { arguments := registers_callArguments init hctx hinit
        classBody := registers_valueClassBody init hctx hinit
        values := fun K => (registers_expressions init _ hctx.asValue hinit K).imp
          fun _ _ hts => hts.refersAll }
      hctx (Clear.of_names h.tail.left.of_commaSeparated) id init)
  | .assignment targets init, _, hctx, h, hallows, _, _ =>
    have htargets := Clear.exprs h.left.of_commaSeparated
    have hinit := Clear.exprs h.right.tail.of_commaSeparated
    .plain (registers_assignment
      { indexBase := registers_indexBase targets hctx htargets
        firstTarget := registers_firstExpression targets hctx htargets
        firstValue := registers_firstExpression init hctx hinit
        classBody := registers_valueClassBody init hctx hinit
        targets := registers_expressions targets .single hctx.asValue htargets
        values := fun K => (registers_expressions init _ hctx.asValue hinit K).imp
          fun _ _ hts => hts.refersAll }
      (fun htop => hallows htop rfl) hctx htargets init)
  | .call ⟨id, _, kind⟩, _, hctx, h, _, _, _ =>
    .plain ((registers_expressionKind id kind .statement hctx h _).imp fun _ _ ht => ht.refers)
  | .localFunction name f, _, hctx, h, _, _, _ =>
    .plain ((registers_function f hctx (List.Subset.refl _) h.tail.tail.tail _).bind fun _ =>
      registers_pure fun _ hK =>
        (hK.2.named (hctx.declaredName h.tail.tail.head) true _).weaken true)
  | .function (.name name) f, _, hctx, h, _, _, _ =>
    .plain ((registers_function f hctx (List.Subset.refl _) h.tail.right _).bind fun _ =>
      registers_pure fun _ hK =>
        (hK.2.named (hctx.declaredName h.tail.left.head) false false).weaken true)
  | .function (.member _ _ base indexer name) f, _, hctx, h, _, _, _ =>
    .plain ((registers_expression base .single hctx h.tail.left.left _).bind fun _ =>
      (registers_function f hctx (shown_subset (.inr (.inr ⟨indexer, rfl⟩))) h.tail.right _).bind
        fun _ => registers_pure fun _ hK =>
          (hK.2.assigned hK.1.2.asBase _ h.tail.left.right.tail.head).weaken true)
  | .return arguments, ctx, hctx, h, _, hrefers, _ => by
    have harguments := Clear.exprs h.tail.of_commaSeparated
    unfold statement
    refine .ite (fun _ => ?_) fun _ => ?_
    · exact registers_returnStatement hrefers arguments
        (registers_secondExpression arguments hctx harguments)
        fun K => (registers_expressions arguments _ hctx harguments K).imp fun _ _ hts => hts.refersAll
    · exact .plain ((registers_contain .returnOutsideFunction span).imp fun _ _ ht => ht.weaken true)
  | .break, _, _, _, _, _, _ => registers_pure fun _ _ _ => (Fixed.grounded (by decide)).weaken true
  | .goto label, ctx, _, _, _, _, _ => by
    unfold statement gotoStatement
    refine .plain (.ite (fun _ => ?_) fun _ => ?_)
    · exact registers_pure fun _ _ => (Fixed.grounded (by decide)).weaken true
    · exact (registers_contain _ span).imp fun _ _ ht => ht.weaken true
  | .label label, ctx, _, _, _, _, _ => by
    unfold statement labelStatement
    refine .plain (.ite (fun _ => ?_) fun _ => ?_)
    · exact registers_pure fun _ _ => Script.grounded_empty.weaken true
    · exact (registers_contain _ span).imp fun _ _ ht => ht.weaken true
  | .block body, ctx, hctx, h, _, _, _ =>
    .plain ((Registers.block (registers_statements body hctx.inBlock h.tail.left)
      (isTop_inBlock ctx)).bind fun _ =>
      registers_pure fun _ hK => (refers_sequence hK.2).braced.weaken true)
  | .while condition body, ctx, hctx, h, _, _, _ =>
    .plain ((registers_expression condition .single hctx h.tail.left _).bind fun _ =>
      (Registers.block (registers_statements body (hctx.inLoop body) h.tail.right.tail.left)
        (isTop_inBlock ctx)).bind fun _ => registers_pure fun _ hK =>
          (grounded_whileText hK.1.2.refers (refers_sequence hK.2)).weaken true)
  | .repeat body condition, ctx, hctx, h, _, _, _ =>
    .plain ((Registers.block (registers_statements body (hctx.inLoop body) h.tail.left)
      (isTop_inBlock ctx)).bind fun _ =>
      (registers_expression condition .single hctx h.tail.right.tail _).bind fun _ =>
        registers_pure fun _ hK =>
          (grounded_repeatText (refers_sequence hK.1.2) hK.2.refers).weaken true)
  | .conditional ⟨_, _, condition, body⟩ others otherwise, ctx, hctx, h, _, _, _ =>
    .plain ((registers_expression condition .single hctx h.tail.left.left _).bind fun _ =>
      (Registers.block (registers_statements body hctx.inBlock h.tail.left.right.tail)
        (isTop_inBlock ctx)).bind fun _ =>
        (registers_clauses others hctx h.tail.right.left _).bind fun _ =>
          (registers_elseClause otherwise hctx h.tail.right.right.left _).bind fun _ =>
            registers_pure fun _ hK => (grounded_lines (List.forall_mem_cons.2
              ⟨grounded_ifText hK.1.1.1.2.refers (refers_sequence hK.1.1.2),
                List.forall_mem_append.2 ⟨hK.1.2, hK.2⟩⟩)).weaken true)
  | .forNumeric counter first last step body, ctx, hctx, h, _, _, _ =>
    .plain ((registers_expression first .single hctx.asBound h.tail.tail.tail.left _).bind fun _ =>
      (registers_expression last .single hctx.asBound h.tail.tail.tail.right.tail.left _).bind fun _ =>
        (registers_optional step hctx.asBound h.tail.tail.tail.right.tail.right.left _).bind fun _ =>
          (Registers.block (registers_statements body (hctx.inLoop body)
            h.tail.tail.tail.right.tail.right.right.tail.left) (isTop_inBlock ctx)).bind fun _ =>
            registers_pure fun _ hK => by
              have hheader := grounded_forNumericHeader (hctx.declaredName h.tail.head) first step
                hK.1.1.1.2.refers hK.1.1.2.refers hK.1.2
              exact ((hheader.behindSilent (v := " ") (by decide)).bracedBehind
                (refers_sequence hK.2)).weaken true)
  | .forGeneric vars [iterator] body, ctx, hctx, h, _, _, _ =>
    .plain ((registers_iterated iterator hctx
      (h.tail.right.tail.left.of_commaSeparated _ List.mem_cons_self) _).bind fun _ =>
      (Registers.block (registers_statements body (hctx.inLoop body)
        h.tail.right.tail.right.tail.left) (isTop_inBlock ctx)).bind fun _ =>
        registers_pure fun _ hK => (grounded_forGenericText
          (fun n hn => hctx.declaredName (Clear.of_names h.tail.left.of_commaSeparated n hn))
          hK.1.2 (refers_sequence hK.2)).weaken true)
  -- a loop over no iterator or over several is a failure
  | .forGeneric _ [] _, _, _, _, _, _, _ =>
    .plain ((registers_contain _ span).imp fun _ _ ht => ht.weaken true)
  | .forGeneric _ (_ :: _ :: _) _, _, _, _, _, _, _ =>
    .plain ((registers_contain _ span).imp fun _ _ ht => ht.weaken true)

/-- The base of an append shows what it is. -/
theorem registers_indexBase : ∀ (es : List Expr) {ctx : Context}, ctx.Clear →
    (∀ e ∈ es, Clear e.tokens) →
    ∀ K, Registers I K (indexBase ctx es) fun u t => ∀ id span base index rest,
      es = ⟨id, span, .index base index⟩ :: rest → Shows u ctx base.kind t
  | [], _, _, _, _ => registers_pure fun _ _ _ _ _ _ _ heq => nomatch heq
  | ⟨id, span, kind⟩ :: rest, _, hctx, h, _ => by
    cases kind with
    | index base index =>
      have hindex : Clear (ExprKind.index base index).tokens := h _ List.mem_cons_self
      refine (registers_expression base .single hctx hindex.left.of_encloseIf _).imp ?_
      intro u t ht _ _ other _ _ heq
      obtain ⟨-, -, hkind⟩ := Expr.mk.inj (List.cons.inj heq).1
      obtain ⟨rfl, -⟩ := ExprKind.index.inj hkind
      exact ht
    | _ =>
      refine registers_pure fun _ _ _ _ _ _ _ heq => ?_
      obtain ⟨-, -, hkind⟩ := Expr.mk.inj (List.cons.inj heq).1
      cases hkind

theorem registers_secondExpression : ∀ (es : List Expr) {ctx : Context}, ctx.Clear →
    (∀ e ∈ es, Clear e.tokens) →
    ∀ K, Registers I K (secondExpression ctx es) fun u t => Refers u true t
  | [], _, _, _, _ => registers_pure fun _ _ => Script.grounded_empty.weaken true
  | first :: rest, _, hctx, h, _ =>
    registers_firstExpression rest hctx (fun e he => h e (List.mem_cons_of_mem first he)) _

/-- The arguments of a class that is made refer to what was recorded. -/
theorem registers_callArguments : ∀ (es : List Expr) {ctx : Context}, ctx.Clear →
    (∀ e ∈ es, Clear e.tokens) → ∀ K, Registers I K (callArguments ctx es) RefersAll
  | [], _, _, _, _ => registers_pure fun _ _ => List.forall_mem_nil _
  | ⟨_, _, kind⟩ :: _, _, hctx, h, _ => by
    cases kind with
    | call base style arguments =>
      have hcall : Clear (ExprKind.call base style arguments).tokens := h _ List.mem_cons_self
      exact (registers_expressions arguments .spread hctx (Clear.exprs hcall.right.of_write) _).imp
        fun _ _ hts => hts.refersAll
    | _ => exact registers_pure fun _ _ => List.forall_mem_nil _

theorem registers_valueClassBody : ∀ (es : List Expr) {ctx : Context}, ctx.Clear →
    (∀ e ∈ es, Clear e.tokens) → ∀ K, Registers I K (valueClassBody ctx es) ClassRefers
  | [], _, _, _, _ => registers_pure fun _ _ => ⟨List.forall_mem_nil _, fun _ hnone => nomatch hnone⟩
  | ⟨_, _, kind⟩ :: _, _, hctx, h, _ => by
    cases kind with
    | call base style arguments =>
      have hcall : Clear (ExprKind.call base style arguments).tokens := h _ List.mem_cons_self
      exact registers_classBody arguments hctx (Clear.exprs hcall.right.of_write) _
    | _ => exact registers_pure fun _ _ => ⟨List.forall_mem_nil _, fun _ hnone => nomatch hnone⟩

theorem registers_optional : ∀ (step : Option Expr) {ctx : Context}, ctx.Clear →
    Clear (stepTokens step) → ∀ K, Registers I K (optional ctx "1" step) fun u t => Refers u true t
  | none, _, _, _, _ => registers_pure fun _ _ => (Fixed.grounded (by decide)).weaken true
  | some e, _, hctx, h, _ =>
    (registers_expression e .single hctx h.tail _).imp fun _ _ ht => ht.refers

theorem registers_iterated : ∀ (e : Expr) {ctx : Context}, ctx.Clear → Clear e.tokens →
    ∀ K, Registers I K (iterated ctx e) fun u t => Refers u true t
  | ⟨id, span, kind⟩, ctx, hctx, h, K => by
    have hkind : Registers I K (around span (expressionKind ctx .single id kind))
        fun u t => Refers u true t :=
      ((registers_expressionKind id kind .single hctx h K).around (staysWithin_shows ctx kind)
        span).imp fun _ _ ht => ht.refers
    cases kind with
    | call base style arguments =>
      cases style with
      | arguments =>
        unfold iterated
        cases hname : iteratorFunction? base with
        | none => exact hkind
        | some name =>
          have hiterator {u : Usage} : Grounded u ("l2j." ++ name) := by
            have hstandard := (Option.filter_eq_some_iff.1 hname).2
            simp only [Bool.or_eq_true, beq_iff_eq] at hstandard
            rcases hstandard with rfl | rfl <;> exact Fixed.grounded (by decide)
          exact (registers_expressions arguments .spread hctx
            (Clear.exprs (Clear.right h).of_write) _).bind fun _ => registers_pure fun _ hK =>
              (hiterator.call hK.2.refersAll).weaken true
      | table => exact hkind
      | string => exact hkind
    | _ => exact hkind

theorem registers_clauses : ∀ (cs : List Clause) {ctx : Context}, ctx.Clear →
    Clear (clauseTokens cs) →
    ∀ K, Registers I K (clauses ctx cs) fun u ts => ∀ t ∈ ts, Grounded u t
  | [], _, _, _, _ => registers_pure fun _ _ => List.forall_mem_nil _
  | ⟨_, _, condition, body⟩ :: rest, ctx, hctx, h, _ =>
    (registers_expression condition .single hctx h.tail.left.left _).bind fun _ =>
      (Registers.block (registers_statements body hctx.inBlock h.tail.left.right.tail)
        (isTop_inBlock ctx)).bind fun _ =>
        (registers_clauses rest hctx h.tail.right _).bind fun _ =>
          registers_pure fun _ hK => List.forall_mem_cons.2
            ⟨grounded_elseIfText hK.1.1.2.refers (refers_sequence hK.1.2), hK.2⟩

theorem registers_elseClause : ∀ (otherwise : Option ElseClause) {ctx : Context}, ctx.Clear →
    Clear (elseTokens otherwise) →
    ∀ K, Registers I K (elseClause ctx otherwise) fun u ts => ∀ t ∈ ts, Grounded u t
  | none, _, _, _, _ => registers_pure fun _ _ => List.forall_mem_nil _
  | some ⟨_, _, body⟩, ctx, hctx, h, _ =>
    (Registers.block (registers_statements body hctx.inBlock h.tail) (isTop_inBlock ctx)).bind fun _ =>
      registers_pure fun _ hK =>
        List.forall_mem_singleton.2 (grounded_elseText (refers_sequence hK.2))

end

/-! ## Programs -/

theorem registers_commentsLeft : Registers I K commentsLeft fun _ t => Silent t := by
  intro p hp _
  exact ⟨⟨List.forall_mem_nil _, hp.classes⟩,
    fun u hu => ⟨hu, CommentQueue.silent_flush hp.comments⟩⟩

/-- What seals the classes left, behind the statements. -/
theorem refers_sealed {u : Usage} {body : String} {classes : List String} (hseals : u.seals = true)
    (hbody : Refers u true body) (hclasses : ∀ c ∈ classes, Refers u true c) :
    Refers u true ((if body.isEmpty then "" else body ++ ";\n") ++ sealing classes) := by
  have hsealing := grounded_sealing hseals hclasses
  split
  · exact (hsealing.beforeSilent (by decide)).weaken true
  · have hsealed := (hbody.behind (s := ";\n") (by decide)).append hsealing
      (.inl (Script.endsWord_append_of (by decide) (by decide) body))
    exact hsealed.weaken true

/-- **A program records the functions that it writes.** -/
theorem registers_chunk {chunk : Chunk} (hctx : ctx.Clear) (hclear : Clear (stmtTokens chunk.body))
    (hI : KeepsClasses I) :
    Registers I K (Emit.chunk ctx chunk) fun u t => u.seals = true → Refers u true t := by
  refine (registers_statements chunk.body hctx hclear (fun _ => hI) _).bind fun ts => ?_
  refine registers_get fun p hp => registers_commentsLeft.bind fun tail =>
    registers_pure fun u hK hseals => ?_
  have hbody : Refers u true (sequence ts) := refers_sequence (refersAll_of_seals hK.1.1.2 hseals)
  have hsealed : Refers u true (if exportsValue chunk || p.classes.isEmpty then sequence ts
      else (if (sequence ts).isEmpty then "" else sequence ts ++ ";\n") ++ sealing p.classes) := by
    split
    · exact hbody
    · exact refers_sealed hseals hbody fun c hc => hI.refers _ hp.classes c hc u
  split
  · exact hsealed
  · have hfeed : Silent ("\n" ++ tail) := (by decide : Silent "\n").append hK.2
    rw [String.append_assoc]
    exact hsealed.behindSilent hfeed

end Emit

end LuaCompiler
