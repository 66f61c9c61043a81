import LuaCompiler.Proofs.Emit.Lowering

/-!
# The text of a program

The walk over a tree of the grammar writes what the layouts of its nodes say: `Emits` for every node,
by the recursion of the walk, and for a whole program.

* `emits_statements`: the statements of a block.
* `emits_chunk`: a program.
-/

namespace LuaCompiler.Emit

open Script (Plain)

variable {registries : Registries}

/-- A member of a hidden library is recorded without a comment being taken. -/
theorem emits_useMember {β : Type} (ctx : Context) (base : Expr) (identifier : Identifier)
    {f : PUnit → Emit β} {S : Effect β} (hf : Emits registries (f ⟨⟩) S) :
    Emits registries (useMember ctx base identifier >>= f) S := by
  have hpure : Emits registries (pure ⟨⟩ : Emit PUnit) fun _ q _ q' => q' = q :=
    emits_pure fun _ _ => rfl
  unfold useMember
  split
  · split
    · exact emits_useSystemFunction _ _ hf
    · exact hpure.skip fun _ => hf
  · exact hpure.skip fun _ => hf

/-- The varargs are plain in every role. -/
theorem plain_role_vararg (role : Role) : Plain role.vararg := by
  cases role <;> decide

/-- So is a string. -/
theorem plain_role_string (role : Role) (raw : String) : Plain (role.string raw) := by
  unfold Role.string
  split
  · decide
  · exact Script.plain_toScript raw

/-- The operands of a conjunction are put together as a layout says. -/
def RendersOperands (K : List String) (l : Layout) (q : CommentQueue) (operands : String × String)
    (q' : CommentQueue) : Prop :=
  ∃ a b middle, l = .append a b ∧ Renders K a q operands.1 middle ∧ Renders K b middle operands.2 q'

/-- The shown parameters of a function are parameters. -/
theorem shown_subset {f : FunctionBody} {convention : Convention}
    (h : convention = .plain f ∨ convention = .ofFirstParameter f ∨
      ∃ indexer, convention = .ofIndexer indexer f) : convention.shown ⊆ f.parameters := by
  have hfirst : (Convention.ofFirstParameter f).shown ⊆ f.parameters := by
    unfold Convention.ofFirstParameter
    split
    · exact (List.tail_sublist _).subset
    · exact (List.tail_sublist _).subset
    · exact List.Subset.refl _
  rcases h with rfl | rfl | ⟨indexer, rfl⟩
  · exact List.Subset.refl _
  · exact hfirst
  · cases indexer with
    | colon => exact List.Subset.refl _
    | dot => exact hfirst

/-- Values are never lowered as statements. -/
theorem valuesRole_ne {init : List Expr} : valuesRole init ≠ .statement := by
  unfold valuesRole
  split
  · split <;> decide
  · decide

/-- Nor is the last value of a binding. -/
theorem bindRole_ne {n : Nat} {init : List Expr} : bindRole n init ≠ .statement := by
  unfold bindRole
  split
  · decide
  · exact valuesRole_ne

/-- Nor are the values that are packed. -/
theorem packRole_ne {es : List Expr} : packRole es ≠ .statement := by
  unfold packRole
  split <;> decide

mutual

/-- An expression is written as its layout says, with the comments around it. -/
theorem emits_expression : ∀ (e : Expr) {ctx : Context} (role : Role) {called : Bool}, ctx.Tame →
    role ≠ .statement → e.Shaped called →
    EmitsText registries (expression ctx role e) (Layout.expression ctx registries e)
  | ⟨id, span, kind⟩, ctx, role, _, hctx, hrole, h => by
    have hkind := emits_expressionKind id kind role hctx h
    rw [decide_eq_false hrole] at hkind
    exact hkind.around span

/-- Node by node, from the rules of the lowering. In the role of a statement only calls are lowered.
-/
theorem emits_expressionKind (id : NodeId) : ∀ (kind : ExprKind) {ctx : Context} (role : Role)
    {called : Bool}, ctx.Tame → kind.Shaped called →
    EmitsText registries (expressionKind ctx role id kind)
      (Layout.expressionKind ctx registries (decide (role = .statement)) id kind)
  | .name name, _, _, _, hctx, h => emits_reference hctx h
  | .nil, _, _, _, _, _ => emits_pure fun _ _ => .blank (by decide)
  | .boolean value, _, _, _, _, _ => emits_pure fun _ _ => .blank (by cases value <;> decide)
  | .number value raw, _, _, _, _, h =>
    emits_pure fun _ _ => .blank (Script.plain_of_quiet (Numeral.quiet_script h))
  | .string raw, _, role, _, _, _ => emits_pure fun _ _ => .blank (plain_role_string role raw)
  | .vararg, _, role, _, _, _ => emits_pure fun _ _ => .blank (plain_role_vararg role)
  | .function f, _, _, _, hctx, h =>
    (emits_function f hctx (.inl rfl) h).bind fun _ => emits_pure fun _ _ _ hf => hf.expression
  | .table fields, _, _, _, hctx, h =>
    (emits_entries fields (by split <;> decide) hctx h).bind fun _ =>
      emits_pure fun _ _ _ hentries => hentries.tableText
  | .binary operator left right, ctx, _, _, hctx, h => by
    have hrole : Role.operand operator ≠ .statement := by
      unfold Role.operand
      split <;> decide
    exact (emits_expression left _ hctx hrole h.1).bind fun _ =>
      (emits_expression right _ hctx hrole h.2).bind fun _ => emits_pure fun _ _ _ hright _ hleft =>
        hleft.binaryText hright ctx operator _
  | .logical operator left right, ctx, _, _, hctx, h => by
    unfold expressionKind Layout.expressionKind
    split
    -- a choice is rendered from the operands of its conjunction
    next hcondition =>
      simp only [Bool.and_eq_true] at hcondition
      refine (emits_conjuncts left hctx h.1 hcondition.1.2).bind fun operands => ?_
      refine (emits_expression right .single hctx (by decide) h.2).bind fun _ => emits_pure ?_
      rintro K q q' hright q₀ ⟨a, b, middle, heq, hcondition, hconsequent⟩
      exact heq ▸ hcondition.conditionalText hconsequent hright
    · exact (emits_expression left .single hctx (by decide) h.1).bind fun _ =>
        (emits_expression right .single hctx (by decide) h.2).bind fun _ =>
          emits_pure fun _ _ _ hright _ hleft => hleft.logicalText hright ctx operator _
  | .unary operator argument, ctx, _, _, hctx, h =>
    EmitsText.map (emits_expression argument .single hctx (by decide) h)
      fun _ _ _ _ ht => ht.unaryText ctx operator
  | .member base _ identifier, ctx, _, _, hctx, h =>
    emits_useMember ctx base identifier
      (EmitsText.map (emits_expression base .single hctx (by decide) h.1)
        fun _ _ _ _ ht => (ht.asBase base).memberText h.2.2)
  | .index base index, _, _, _, hctx, h =>
    (emits_expression base .single hctx (by decide) h.1).bind fun _ =>
      (emits_expression index .single hctx (by decide) h.2).bind fun _ =>
        emits_pure fun _ _ _ hindex _ hbase => .append (hbase.asBase base) hindex.brackets
  | .call base _ arguments, _, role, _, hctx, h =>
    emits_call hctx h.1 role
      { callee := emits_expression base .single hctx (by decide) h.1
        owner := emits_owner base hctx h.1
        arguments := emits_expressions arguments .spread hctx (by decide) h.2.2
        firstArgument := emits_firstExpression arguments hctx h.2.2
        classBody := emits_classBody arguments hctx h.2.2 }

/-- The operands of a chain are written as it is laid out. -/
theorem emits_conjuncts : ∀ (e : Expr) {ctx : Context}, ctx.Tame → e.Shaped false →
    isConjunction e = true →
    Emits registries (conjuncts ctx e) fun K =>
      RendersOperands K (Layout.conjuncts ctx registries e)
  | ⟨_, _, kind⟩, _, hctx, h, hconjunction => by
    cases kind with
    | logical operator left right =>
      exact (emits_expression left .single hctx (by decide) h.1).bind fun _ =>
        (emits_expression right .single hctx (by decide) h.2).bind fun _ =>
          emits_pure fun _ _ _ hright _ hleft => ⟨_, _, _, rfl, hleft, hright⟩
    | _ => cases hconjunction

theorem emits_owner : ∀ (e : Expr) {ctx : Context} {called : Bool}, ctx.Tame → e.Shaped called →
    EmitsText registries (owner ctx e) (Layout.owner ctx registries e)
  | ⟨_, _, kind⟩, _, _, hctx, h => by
    cases kind with
    | member base => exact emits_expression base .single hctx (by decide) h.1
    | _ => exact emits_pure fun _ _ => .blank Script.plain_empty

theorem emits_expressions : ∀ (es : List Expr) {ctx : Context} (last : Role), ctx.Tame →
    last ≠ .statement → ExprsShaped es →
    EmitsRow registries (expressions ctx last es) (Layout.expressions ctx registries es)
  | [], _, _, _, _, _ => emits_pure fun _ _ => .nil
  | [only], _, last, hctx, hlast, h =>
    (emits_expression only last hctx hlast h.1).bind fun _ => emits_pure fun _ _ _ ht => .single ht
  | first :: second :: rest, _, last, hctx, hlast, h =>
    (emits_expression first .single hctx (by decide) h.1).bind fun _ =>
      (emits_expressions (second :: rest) last hctx hlast h.2).bind fun _ =>
        emits_pure fun _ _ _ hrest _ hfirst => .cons hfirst hrest

theorem emits_firstExpression : ∀ (es : List Expr) {ctx : Context}, ctx.Tame → ExprsShaped es →
    EmitsText registries (firstExpression ctx es) (Layout.firstExpression ctx registries es)
  | [], _, _, _ => emits_pure fun _ _ => .blank Script.plain_empty
  | first :: _, _, hctx, h => emits_expression first .single hctx (by decide) h.1

/-- The members of a class are made before its parent is written. -/
theorem emits_classBody : ∀ (es : List Expr) {ctx : Context}, ctx.Tame → ExprsShaped es →
    EmitsClass registries (classBody ctx es) (Layout.classBody ctx registries es)
  | [], _, _, _ => emits_pure fun _ _ => rendersClass_empty
  | ⟨_, _, kind⟩ :: rest, _, hctx, h => by
    cases kind with
    | table fields =>
      exact (emits_members fields hctx.asValue h.1).bind fun _ =>
        (emits_parent rest hctx h.2).bind fun _ => emits_pure fun _ _ _ hparent _ hmembers =>
          ⟨_, _, _, rfl, hmembers, hparent⟩
    | _ => exact emits_pure fun _ _ => rendersClass_empty

/-- A parent is written, or nothing. -/
theorem emits_parent : ∀ (es : List Expr) {ctx : Context}, ctx.Tame → ExprsShaped es →
    Emits registries (parent ctx es) fun K q text q' =>
      Renders K (Layout.parent ctx registries es) q (text.getD "") q'
  | [], _, _, _ => emits_pure fun _ _ => .blank Script.plain_empty
  | first :: _, _, hctx, h =>
    (emits_expression first .single hctx (by decide) h.1).bind fun _ =>
      emits_pure fun _ _ _ ht => ht.asBase first

/-- The entries of a table are written field by field. -/
theorem emits_entries : ∀ (fields : List Field) {ctx : Context} {last : Role},
    last ≠ .statement → ctx.Tame → FieldsShaped fields →
    Emits registries (entries ctx last fields) fun K =>
      RendersEntries K fields (Layout.entries ctx registries fields)
  | [], _, _, _, _, _ => emits_pure fun _ _ => .nil
  | ⟨_, _, kind⟩ :: rest, _, _, hlast, hctx, h =>
    (emits_entry kind (by split <;> first | exact hlast | decide) hctx h.1).bind fun _ =>
      (emits_entries rest hlast hctx h.2).bind fun _ =>
        emits_pure fun _ _ _ hrest _ hfirst => .cons hfirst hrest

theorem emits_entry : ∀ (kind : FieldKind) {ctx : Context} {role : Role}, role ≠ .statement →
    ctx.Tame → kind.Shaped →
    Emits registries (entry ctx role kind) fun K =>
      RendersEntry K kind (Layout.entry ctx registries kind)
  | .positional value, _, _, hrole, hctx, h =>
    (emits_expression value _ hctx hrole h).bind fun _ => emits_pure fun _ _ _ ht => .positional ht
  | .named _ value, _, _, _, hctx, h =>
    (emits_expression value .single hctx (by decide) h.2).bind fun _ =>
      emits_pure fun _ _ _ ht =>
        .named (Script.plain_of_quiet (Name.quiet_asProperty (Name.quiet_of_isValid h.1))) ht
  | .keyed key value, _, _, _, hctx, h =>
    (emits_expression key .single hctx (by decide) h.1).bind fun _ =>
      (emits_expression value .single hctx (by decide) h.2).bind fun _ =>
        emits_pure fun _ _ _ hvalue _ hkey => .keyed hkey hvalue

/-- The members of a class are written field by field. -/
theorem emits_members : ∀ (fields : List Field) {ctx : Context}, ctx.Tame → FieldsShaped fields →
    EmitsRow registries (members ctx fields) (Layout.members ctx registries fields)
  | [], _, _, _ => emits_pure fun _ _ => .nil
  | ⟨_, span, kind⟩ :: rest, _, hctx, h =>
    ((emits_member kind span hctx h.1).around span).bind fun _ =>
      (emits_members rest hctx h.2).bind fun _ =>
        emits_pure fun _ _ _ hrest _ hfirst => .cons hfirst hrest

theorem emits_member : ∀ (kind : FieldKind) {ctx : Context} (span : Span), ctx.Tame → kind.Shaped →
    EmitsText registries (member ctx span kind) (Layout.member ctx registries kind)
  | .named key value, _, _, hctx, h =>
    (emits_memberValue value (Name.asProperty key.name) hctx h.2).imp fun _ _ _ _ ht =>
      ht.text (Script.plain_of_quiet (Name.quiet_asProperty (Name.quiet_of_isValid h.1)))
  | .keyed key value, _, _, hctx, h =>
    (emits_expression key .single hctx (by decide) h.1).bind fun _ =>
      (emits_memberValue value _ hctx h.2).imp fun _ _ _ _ ht _ hkey =>
        RendersMember.computed hkey.brackets ht
  | .positional _, _, span, _, _ => emits_contain .positionalMember span

/-- A member is a method, or a value behind its key. -/
theorem emits_memberValue : ∀ (e : Expr) {ctx : Context} (key : String), ctx.Tame →
    e.Shaped false → Emits registries (memberValue ctx key e) fun K =>
      RendersMember K key (Layout.memberValue ctx registries e)
  | ⟨id, span, kind⟩, ctx, key, hctx, h => by
    have hkind := (emits_expressionKind id kind .single hctx h).around span
    have hproperty : Emits registries (do
        let text ← around span (expressionKind ctx .single id kind)
        return key ++ " = " ++ text ++ ";") fun K => RendersMember K key
          (.around span (Layout.expressionKind ctx registries false id kind)) :=
      hkind.bind fun text => emits_pure fun K q q' ht =>
        ⟨"", " = " ++ text ++ ";", by simp [String.append_assoc], Script.plain_empty,
          (ht.before (by decide)).behind (by decide)⟩
    cases kind with
    | function f =>
      exact (emits_function f hctx (.inr (.inl rfl)) h).bind fun _ =>
        emits_pure fun _ _ _ hf => hf.member _ key
    | _ => exact hproperty

/-- A function is written as its conventions say. -/
theorem emits_function : ∀ (f : FunctionBody) {ctx : Context} {convention : Convention}, ctx.Tame →
    (convention = .plain f ∨ convention = .ofFirstParameter f ∨
      ∃ indexer, convention = .ofIndexer indexer f) → f.Shaped →
    Emits registries (function ctx convention f) fun K =>
      RendersFunction K (Layout.function ctx registries convention f)
  | ⟨_, _, parameters, isVararg, body⟩, ctx, convention, hctx, hconvention, h => by
    have hshown : NamesValid convention.shown := fun v hv => h.1 v (shown_subset hconvention hv)
    have hinner := hctx.inFunction parameters convention.shown convention.receiver
    have hbody := emits_statements body hinner h.2
    unfold function
    refine .ite (fun _ => ?_) fun _ => ?_
    · exact hbody.withReceiver.bind fun result => emits_pure fun _ _ _ hrow =>
        renders_functionText hctx hshown isVararg result.2 hrow
    · exact hbody.bind fun _ => emits_pure fun _ _ _ hrow =>
        renders_functionText hctx hshown isVararg false hrow

/-- **Statements in a row are put together as their layout says.** -/
theorem emits_statements : ∀ (body : List Stmt) {ctx : Context}, ctx.Tame → BlockShaped body →
    EmitsRow registries (statements ctx body) (Layout.statements ctx registries body)
  | [], _, _, _ => emits_pure fun _ _ => .nil
  | ⟨id, span, kind⟩ :: rest, _, hctx, h =>
    ((emits_statement id span kind hctx h.1).around span).bind fun _ =>
      (emits_statements rest hctx h.2.2).bind fun _ =>
        emits_pure fun _ _ _ hrest _ hfirst => .cons hfirst hrest

/-- **Every statement is written as its layout says**: the comments come in the order of the walk,
whatever text is dropped, repeated or turned around. -/
theorem emits_statement (id : NodeId) (span : Span) : ∀ (kind : StmtKind) {ctx : Context},
    ctx.Tame → kind.Shaped →
    EmitsText registries (statement ctx id span kind) (Layout.statement ctx registries id kind)
  | .local vars init, _, hctx, h =>
    emits_localStatement hctx h.2.1 id init
      { arguments := emits_callArguments init hctx h.2.2
        classBody := emits_valueClassBody init hctx h.2.2
        values := emits_expressions init _ hctx.asValue bindRole_ne h.2.2 }
  | .assignment targets init, _, hctx, h =>
    emits_assignment hctx h.2.2.1
      { indexBase := emits_indexBase targets hctx h.2.2.1
        firstTarget := emits_firstExpression targets hctx h.2.2.1
        firstValue := emits_firstExpression init hctx h.2.2.2.2
        classBody := emits_valueClassBody init hctx h.2.2.2.2
        targets := emits_expressions targets .single hctx.asValue (by decide) h.2.2.1
        values := emits_expressions init _ hctx.asValue bindRole_ne h.2.2.2.2 }
  | .call ⟨id, _, kind⟩, _, hctx, h => emits_expressionKind id kind .statement hctx h.2
  | .localFunction name f, ctx, hctx, h => by
    have hname := hctx.declaredName h.1
    refine (emits_function f hctx (.inl rfl) h.2).bind fun text => emits_pure fun K q q' hf => ?_
    unfold Layout.statement
    -- a local function that redeclares binds nothing, so its name is part of the text
    cases ctx.annotations.redeclared.contains name.id with
    | true => exact hf.renamed hname
    | false => exact RendersFunction.named (.binding hname) hf hname true
  | .function (.name name) f, _, hctx, h =>
    (emits_function f hctx (.inl rfl) h.2).bind fun _ => emits_pure fun _ _ _ hf =>
      RendersFunction.named (.word (hctx.wordText name.id true h.1)) hf (hctx.declaredName h.1) false
  | .function (.member _ _ base indexer name) f, _, hctx, h =>
    (emits_expression base .single hctx (by decide) h.1.2.1).bind fun _ =>
      (emits_function f hctx (.inr (.inr ⟨indexer, rfl⟩)) h.2).bind fun _ =>
        emits_pure fun _ _ _ hf _ hbase =>
          RendersFunction.assigned (hbase.asBase base) hf _ h.1.2.2
  | .return arguments, ctx, hctx, h => by
    unfold statement Layout.statement
    split
    · exact emits_returnStatement arguments (emits_secondExpression arguments hctx h)
        (emits_expressions arguments _ hctx packRole_ne h)
    · exact emits_contain .returnOutsideFunction span
  | .break, _, _, _ => emits_pure fun _ _ => .blank (by decide)
  | .goto label, ctx, _, _ => by
    unfold statement Layout.statement gotoStatement Layout.jump
    split
    · exact emits_pure fun _ _ => .blank (by decide)
    · exact emits_contain _ span
  | .label label, ctx, _, _ => by
    unfold statement Layout.statement labelStatement Layout.jump
    split
    · exact emits_pure fun _ _ => .blank (by decide)
    · exact emits_contain _ span
  | .block body, _, hctx, h =>
    EmitsRow.map (emits_statements body hctx.inBlock h) fun _ _ _ _ hrow => .braces hrow.sequence
  | .while condition body, _, hctx, h =>
    (emits_expression condition .single hctx (by decide) h.1).bind fun _ =>
      (emits_statements body (hctx.inLoop body) h.2).bind fun _ =>
        emits_pure fun _ _ _ hbody _ hcondition => hcondition.whileText hbody.sequence
  | .repeat body condition, _, hctx, h =>
    (emits_statements body (hctx.inLoop body) h.1).bind fun _ =>
      (emits_expression condition .single hctx (by decide) h.2).bind fun _ =>
        emits_pure fun _ _ _ hcondition _ hbody => hbody.sequence.repeatText hcondition
  | .conditional ⟨_, _, condition, body⟩ others otherwise, _, hctx, h =>
    (emits_expression condition .single hctx (by decide) h.1.1).bind fun _ =>
      (emits_statements body hctx.inBlock h.1.2).bind fun _ =>
        (emits_clauses others hctx h.2.1).bind fun _ =>
          (emits_elseClause otherwise hctx h.2.2).bind fun _ =>
            emits_pure fun _ _ _ helse _ hothers _ hbody _ hcondition =>
              (hcondition.ifText hbody.sequence).conditional hothers helse
  | .forNumeric counter first last step body, _, hctx, h =>
    (emits_expression first .single hctx.asBound (by decide) h.2.1).bind fun _ =>
      (emits_expression last .single hctx.asBound (by decide) h.2.2.1).bind fun _ =>
        (emits_optional step hctx.asBound h.2.2.2.1).bind fun _ =>
          (emits_statements body (hctx.inLoop body) h.2.2.2.2).bind fun _ =>
            emits_pure fun _ _ _ hbody _ hstep _ hlast _ hfirst =>
              renders_forNumeric (hctx.declaredName h.1) first step hfirst hlast hstep
                hbody.sequence
  | .forGeneric vars [iterator] body, _, hctx, h =>
    (emits_iterated iterator hctx h.2.2.2.1.1).bind fun _ =>
      (emits_statements body (hctx.inLoop body) h.2.2.2.2).bind fun _ =>
        emits_pure fun _ _ _ hbody _ hsource =>
          renders_forGeneric hctx h.2.1 hsource hbody.sequence
  | .forGeneric _ [] _, _, _, _ => emits_contain _ span
  | .forGeneric _ (_ :: _ :: _) _, _, _, _ => emits_contain _ span

theorem emits_indexBase : ∀ (es : List Expr) {ctx : Context}, ctx.Tame → ExprsShaped es →
    EmitsText registries (indexBase ctx es) (Layout.indexBase ctx registries es)
  | [], _, _, _ => emits_pure fun _ _ => .blank Script.plain_empty
  | ⟨_, _, kind⟩ :: _, _, hctx, h => by
    cases kind with
    | index base => exact emits_expression base .single hctx (by decide) h.1.1
    | _ => exact emits_pure fun _ _ => .blank Script.plain_empty

theorem emits_secondExpression : ∀ (es : List Expr) {ctx : Context}, ctx.Tame → ExprsShaped es →
    EmitsText registries (secondExpression ctx es) (Layout.secondExpression ctx registries es)
  | [], _, _, _ => emits_pure fun _ _ => .blank Script.plain_empty
  | _ :: rest, _, hctx, h => emits_firstExpression rest hctx h.2

theorem emits_callArguments : ∀ (es : List Expr) {ctx : Context}, ctx.Tame → ExprsShaped es →
    EmitsRow registries (callArguments ctx es) (Layout.callArguments ctx registries es)
  | [], _, _, _ => emits_pure fun _ _ => .nil
  | ⟨_, _, kind⟩ :: _, _, hctx, h => by
    cases kind with
    | call base style arguments =>
      exact emits_expressions arguments .spread hctx (by decide) h.1.2.2
    | _ => exact emits_pure fun _ _ => .nil

theorem emits_valueClassBody : ∀ (es : List Expr) {ctx : Context}, ctx.Tame → ExprsShaped es →
    EmitsClass registries (valueClassBody ctx es) (Layout.valueClassBody ctx registries es)
  | [], _, _, _ => emits_pure fun _ _ => rendersClass_empty
  | ⟨_, _, kind⟩ :: _, _, hctx, h => by
    cases kind with
    | call base style arguments => exact emits_classBody arguments hctx h.1.2.2
    | _ => exact emits_pure fun _ _ => rendersClass_empty

theorem emits_optional : ∀ (step : Option Expr) {ctx : Context}, ctx.Tame → StepShaped step →
    EmitsText registries (optional ctx "1" step) (Layout.optional ctx registries step)
  | none, _, _, _ => emits_pure fun _ _ => .blank (by decide)
  | some e, _, hctx, h => emits_expression e .single hctx (by decide) h

/-- What a loop runs over is the arguments of its iterator, or the call. -/
theorem emits_iterated : ∀ (e : Expr) {ctx : Context}, ctx.Tame → e.Shaped false →
    EmitsText registries (iterated ctx e) (Layout.iterated ctx registries e)
  | ⟨id, span, kind⟩, ctx, hctx, h => by
    have hkind : EmitsText registries (around span (expressionKind ctx .single id kind))
        (.around span (Layout.expressionKind ctx registries false id kind)) :=
      (emits_expressionKind id kind .single hctx h).around span
    cases kind with
    | call base style arguments =>
      cases style with
      | arguments =>
        unfold iterated Layout.iterated
        cases hname : iteratorFunction? base with
        | none => exact hkind
        | some name =>
          have hquiet : Plain ("l2j." ++ name) := by
            have hvalid := isValid_of_name h.1 (Option.eq_some_of_filter_eq_some hname)
            exact Script.Closed.plain_append (by decide)
              (Script.plain_of_quiet (Name.quiet_of_isValid hvalid))
          exact EmitsRow.map (emits_expressions arguments .spread hctx (by decide) h.2.2)
            fun _ _ _ _ hrow => hrow.arguments hquiet
      | table => exact hkind
      | string => exact hkind
    | _ => exact hkind

theorem emits_clauses : ∀ (cs : List Clause) {ctx : Context}, ctx.Tame → ClausesShaped cs →
    EmitsRow registries (clauses ctx cs) (Layout.clauses ctx registries cs)
  | [], _, _, _ => emits_pure fun _ _ => .nil
  | ⟨_, _, condition, body⟩ :: rest, _, hctx, h =>
    (emits_expression condition .single hctx (by decide) h.1.1).bind fun _ =>
      (emits_statements body hctx.inBlock h.1.2).bind fun _ =>
        (emits_clauses rest hctx h.2).bind fun _ =>
          emits_pure fun _ _ _ hrest _ hbody _ hcondition =>
            .cons (hcondition.elseIfText hbody.sequence) hrest

theorem emits_elseClause : ∀ (otherwise : Option ElseClause) {ctx : Context}, ctx.Tame →
    ElseShaped otherwise →
    EmitsRow registries (elseClause ctx otherwise) (Layout.elseClause ctx registries otherwise)
  | none, _, _, _ => emits_pure fun _ _ => .nil
  | some ⟨_, _, body⟩, _, hctx, h =>
    (emits_statements body hctx.inBlock h).bind fun _ =>
      emits_pure fun _ _ _ hbody => .single hbody.sequence.elseText

end

/-- At the end all comments left are written. -/
theorem emits_commentsLeft : EmitsText registries commentsLeft .remaining := by
  intro p hp
  exact ⟨⟨List.forall_mem_nil _, hp.classes, hp.globals⟩, List.Subset.refl _, fun _ _ => .remaining⟩

/-- **A program is put together as its layout says.** -/
theorem emits_chunk {ctx : Context} (hctx : ctx.Tame) {c : Chunk} (h : BlockShaped c.body) :
    EmitsText registries (chunk ctx c) (Layout.chunk ctx registries c) := by
  refine (emits_statements c.body hctx h).bind fun texts => emits_get fun p hp => ?_
  refine emits_commentsLeft.bind fun tail => emits_pure ?_
  intro K q q' htail hclasses q₀ hrow
  have hbody := hrow.sequence
  -- the comments that are left follow on a line of their own
  have hend : Renders K .remaining q' (if tail.isEmpty then "" else "\n" ++ tail) q := by
    split
    next hempty => exact String.isEmpty_iff.1 hempty ▸ htail
    · exact htail.before (by decide)
  -- the classes are sealed behind the statements, unless the chunk returns a value
  have hsealed : ∃ front sealed,
      (if exportsValue c || p.classes.isEmpty then sequence texts
        else (if (sequence texts).isEmpty then "" else sequence texts ++ ";\n") ++
          sealing p.classes) = front ++ sealed ∧
      Renders K (Layout.statements ctx registries c.body) q₀ front q' ∧
      Renders K (if exportsValue c then .blank else .sealing) q' sealed q' := by
    have hsealing : Renders K .sealing q' (sealing p.classes) q' :=
      .sealing fun name hname => ⟨hclasses name hname, hp.classes name hname⟩
    cases exportsValue c with
    | true => exact ⟨_, "", (String.append_empty).symm, hbody, .blank Script.plain_empty⟩
    | false =>
      cases hnone : p.classes.isEmpty with
      | true =>
        rw [List.isEmpty_iff.1 hnone] at hsealing
        exact ⟨_, _, (String.append_empty).symm, hbody, hsealing⟩
      | false =>
        refine ⟨_, _, rfl, ?_, hsealing⟩
        split
        next hempty => exact String.isEmpty_iff.1 hempty ▸ hbody
        · exact hbody.behind (by decide)
  obtain ⟨front, sealed, heq, hfront, hseal⟩ := hsealed
  have hall := Renders.append hfront (.append hseal hend)
  rw [heq]
  split
  next hempty =>
    rw [if_pos hempty, String.append_empty] at hall
    exact hall
  next hempty =>
    rw [if_neg hempty, ← String.append_assoc, ← String.append_assoc] at hall
    exact hall

end LuaCompiler.Emit
