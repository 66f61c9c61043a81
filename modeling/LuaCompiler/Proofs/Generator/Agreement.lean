import LuaCompiler.Proofs.Emit.Traces
import LuaCompiler.Proofs.Generator.Follows
import LuaCompiler.Proofs.Parser.Shaped

/-!
# The generator on trees of the grammar

On a tree of the grammar the generator follows the lowering: what the walk of `Emit` gives in the context
of a node, the generator gives at the position of the node.

* `follows_expression`, `does_statements`: **the walk**, one case for each constructor.
* `does_chunk`: **a program is generated as it is lowered.**
-/

namespace LuaCompiler

/-- Whether a statement exports a value, if it stands in the chunk. -/
def StmtKind.exports : StmtKind → Bool
  | .return arguments => !Emit.isFailure arguments
  | _ => false

namespace Generator

open Emit (Context Role)

variable {file : File}

/-- A row of texts, one by one. -/
theorem Follows.cons {α : Type} {ctx : Context} {first : Attempt α} {rest : Attempt (List α)}
    {emit : Emit α} {emits : Emit (List α)} (h : Follows file ctx first emit)
    (hrest : Follows file ctx rest emits) :
    Follows file ctx (do
      let text ← first
      return text :: (← rest)) (do
      let text ← emit
      return text :: (← emits)) :=
  h.bind fun text => hrest.map (text :: ·)

/-- Only a `return` of the chunk exports a value. -/
theorem Settles.inside {ctx : Context} {span : Span} {node : Attempt String} {emit : Emit String}
    (h : Settles file ctx false span node emit) :
    Settles file ctx (ctx.isTop && false) span node emit := by
  rwa [Bool.and_false]

/-- A node that follows settles as one that exports nothing. -/
theorem Follows.inside {ctx : Context} {node : Attempt String} {emit : Emit String}
    (h : Follows file ctx node emit) (span : Span) :
    Settles file ctx (ctx.isTop && false) span node emit :=
  (h.settles span).inside

/-- Nothing that a body without a receiver does tells of one. -/
theorem captured_statements (body : List Stmt) {ctx : Context} (h : ctx.receiver = none)
    (p : Emit.Progress) : ((Emit.statements ctx body).run p).2.captured = p.captured := by
  rcases (Emit.framed_statements body ctx p).captured with hsame | ⟨hreceived, _⟩
  · exact hsame
  · rw [h] at hreceived
    cases hreceived

mutual

/-- **An expression is generated as it is lowered.** -/
theorem follows_expression : ∀ (e : Expr) (ctx : Context) {called : Bool}, e.Shaped called →
    Follows file ctx (expression file e.raw) (Emit.expression ctx .single e)
  | ⟨id, span, kind⟩, ctx, _, h => (follows_expressionKind kind ctx id (.inl rfl) h).around span

/-- Expressions without the comments around them. -/
theorem follows_expressionKind : ∀ (kind : ExprKind) (ctx : Context) {role : Role} {called : Bool}
    (id : NodeId), role = .single ∨ role = .statement → kind.Shaped called →
    Follows file ctx (expressionKind file role id kind.raw) (Emit.expressionKind ctx role id kind)
  | .name name, _, _, _, id, _, _ => follows_name id name
  | .nil, _, _, _, _, _, _ | .boolean _, _, _, _, _, _, _ | .number .., _, _, _, _, _, _ =>
    follows_pure _
  | .string raw, _, role, _, _, hrole, _ => by
    -- only an operand of a comparison is written otherwise than as a string
    have htext : role.string raw = StringLiteral.toScript raw :=
      if_neg fun h => by rcases hrole with rfl | rfl <;> cases h.1
    unfold expressionKind Emit.expressionKind ExprKind.raw
    rw [htext]
    exact follows_pure _
  | .vararg, _, _, _, _, hrole, _ => by
    rcases hrole with rfl | rfl
    · exact follows_pure _
    · exact follows_pure _
  | .function f, ctx, _, _, _, _, h => by
    have hfunction := (does_functionOf f ctx (.plain f) h).lift.map Emit.FunctionText.expression
    cases f
    exact hfunction
  | .table fields, ctx, _, _, _, _, h =>
    Follows.table (follows_fieldValues fields ctx h) (follows_entries fields ctx h)
  | .binary operator left right, ctx, _, _, _, _, h =>
    (follows_expression left ctx h.1).binary (follows_expression right ctx h.2) operator
  | .logical operator left right, ctx, _, _, _, _, h =>
    (follows_conjuncts left ctx h.1).logical (follows_expression left ctx h.1)
      (follows_expression right ctx h.2) operator
  | .unary operator argument, ctx, _, _, _, _, h => (follows_expression argument ctx h).unary operator
  | .member base _ identifier, ctx, _, _, _, _, h => (follows_expression base ctx h.1).member identifier
  | .index base index, ctx, _, _, _, _, h => by
    unfold expressionKind Emit.expressionKind ExprKind.raw
    simp only [Emit.asBase_outline]
    exact (follows_expression base ctx h.1).bind fun _ => (follows_expression index ctx h.2).map _
  | .call base _ arguments, ctx, role, _, _, _, h => by
    obtain ⟨hbase, _, harguments⟩ := h
    have hsteps : CallSteps.Follow file ctx ⟨base, arguments⟩
        { callee := expression file base.raw
          owner := owner file base.raw
          arguments := list file (rawExprs arguments)
          firstArgument := first file (rawExprs arguments)
          native := ⟨firstMembers file (rawExprs arguments), second file (rawExprs arguments)⟩ }
        { callee := Emit.expression ctx .single base
          owner := Emit.owner ctx base
          arguments := Emit.expressions ctx .spread arguments
          firstArgument := Emit.firstExpression ctx arguments
          classBody := Emit.classBody ctx arguments } :=
      { callee := follows_expression base ctx hbase
        owner := follows_owner base ctx hbase
        arguments := follows_list arguments ctx harguments
        firstArgument := follows_first arguments ctx harguments
        native := (follows_native arguments ctx harguments).nativeClass }
    have houtline : CallSite.outline ⟨base, arguments⟩ =
        ⟨base.raw.outline, Raw.outlines (rawExprs arguments)⟩ := by
      rw [outlines_raw]
      rfl
    have hcall := follows_call role hsteps
    -- which rule lowers a call is told by the outline of its site
    rw [houtline] at hcall
    exact hcall

/-- The two operands of a conjunction. -/
theorem follows_conjuncts : ∀ (e : Expr) (ctx : Context) {called : Bool}, e.Shaped called →
    Follows file ctx (conjuncts file e.raw) (Emit.conjuncts ctx e)
  | ⟨_, _, kind⟩, ctx, _, h => by
    cases kind with
    | logical operator left right =>
      exact (follows_expression left ctx h.1).bind fun _ => (follows_expression right ctx h.2).map _
    | _ => exact follows_pure _

theorem follows_owner : ∀ (e : Expr) (ctx : Context) {called : Bool}, e.Shaped called →
    Follows file ctx (owner file e.raw) (Emit.owner ctx e)
  | ⟨_, _, kind⟩, ctx, _, h => by
    cases kind with
    | member base indexer identifier => exact follows_expression base ctx h.1
    | _ => exact follows_pure _

theorem follows_indexBase : ∀ (es : List Expr) (ctx : Context), ExprsShaped es →
    Follows file ctx (indexBase file (rawExprs es)) (Emit.indexBase ctx es)
  | [], _, _ => follows_pure _
  | ⟨_, _, kind⟩ :: _, ctx, h => by
    cases kind with
    | index base index => exact follows_expression base ctx h.1.1
    | _ => exact follows_pure _

/-- Expressions in a row, of which the last may be several values. -/
theorem follows_list : ∀ (es : List Expr) (ctx : Context), ExprsShaped es →
    Follows file ctx (list file (rawExprs es)) (Emit.expressions ctx .spread es)
  | [], _, _ => follows_pure _
  | [only], ctx, h => ((follows_expression only ctx h.1).listed true).map fun text => [text]
  | first :: second :: rest, ctx, h =>
    ((follows_expression first ctx h.1).listed false).cons (follows_list (second :: rest) ctx h.2)

/-- Expressions in a row, of which each is one value. -/
theorem follows_row : ∀ (es : List Expr) (ctx : Context), ExprsShaped es →
    Follows file ctx (row file (rawExprs es)) (Emit.expressions ctx .single es)
  | [], _, _ => follows_pure _
  | [only], ctx, h => (follows_expression only ctx h.1).map fun text => [text]
  | first :: second :: rest, ctx, h =>
    (follows_expression first ctx h.1).cons (follows_row (second :: rest) ctx h.2)

theorem follows_first : ∀ (es : List Expr) (ctx : Context), ExprsShaped es →
    Follows file ctx (first file (rawExprs es)) (Emit.firstExpression ctx es)
  | [], _, _ => follows_pure _
  | first :: _, ctx, h => follows_expression first ctx h.1

theorem follows_second : ∀ (es : List Expr) (ctx : Context), ExprsShaped es →
    Follows file ctx (second file (rawExprs es)) (Emit.secondExpression ctx es)
  | [], _, _ => follows_pure _
  | _ :: rest, ctx, h => follows_first rest ctx h.2

theorem follows_firstArguments : ∀ (es : List Expr) (ctx : Context), ExprsShaped es →
    Follows file ctx (firstArguments file (rawExprs es)) (Emit.callArguments ctx es)
  | [], _, _ => follows_pure _
  | ⟨_, _, kind⟩ :: _, ctx, h => by
    cases kind with
    | call base style arguments => exact follows_list arguments ctx h.1.2.2
    | _ => exact follows_pure _

/-- Members and parent of a class. -/
theorem follows_native : ∀ (es : List Expr) (ctx : Context), ExprsShaped es →
    ClassSteps.Follow file ctx es ⟨firstMembers file (rawExprs es), second file (rawExprs es)⟩
  | [], _, _ => ⟨nofun, follows_pure _⟩
  | ⟨id, span, kind⟩ :: rest, ctx, h => by
    refine ⟨fun id' span' fields rest' hes => ?_, follows_first rest ctx h.2⟩
    cases kind with
    | table fields' =>
      injection hes with hfirst
      injection hfirst with _ _ hkind
      injection hkind with hfields
      subst hfields
      exact does_members fields' ctx.asValue h.1
    | _ => nomatch hes

/-- A native class follows from the members and the parent of its call. -/
theorem follows_firstNative : ∀ (es : List Expr) (ctx : Context), ExprsShaped es →
    ∀ id span base style arguments, es = [⟨id, span, .call base style arguments⟩] →
      Emit.isNativeClass arguments = true → ∀ name, Follows file ctx
        (nativeClass name (arguments.map fun e => e.raw.outline) (firstNative file (rawExprs es)))
        (do
          let (members, parent) ← Emit.valueClassBody ctx es
          return Emit.classText name parent members)
  | [], _, _ => nofun
  | ⟨_, _, kind⟩ :: rest, ctx, h => by
    intro id span base style arguments hes
    cases kind with
    | call base' style' arguments' =>
      injection hes with hfirst
      injection hfirst with _ _ hkind
      injection hkind with _ _ harguments
      subst harguments
      exact (follows_native arguments' ctx h.1.2.2).nativeClass
    | _ => nomatch hes

/-- The fields of a table without keys, of which the last may be several values. -/
theorem follows_fieldValues : ∀ (fields : List Field) (ctx : Context), FieldsShaped fields →
    fields.all (·.kind.isPositional) = true →
    Follows file ctx (fieldValues file (rawFields fields))
      (do return (← Emit.entries ctx .spread fields).map Emit.Entry.value)
  | [], _, _, _ => follows_pure _
  | ⟨_, _, .positional value⟩ :: rest, ctx, h, hpositional => by
    rw [List.all_cons, Bool.and_eq_true] at hpositional
    have hvalue : Follows file ctx
        (listed value.raw.outline (rawFields rest).isEmpty (expression file value.raw))
        (Emit.expression ctx (if rest.isEmpty then .spread else .single) value) := by
      have hempty : (rawFields rest).isEmpty = rest.isEmpty := by
        rcases rest with _ | ⟨⟨_, _, _⟩, _⟩ <;> rfl
      rw [hempty]
      exact (follows_expression value ctx h.1).listed rest.isEmpty
    exact (hvalue.cons (follows_fieldValues rest ctx h.2 hpositional.2)).congr fun p => rfl
  | ⟨_, _, .named ..⟩ :: _, _, _, h | ⟨_, _, .keyed ..⟩ :: _, _, _, h => by cases h

theorem follows_entries : ∀ (fields : List Field) (ctx : Context), FieldsShaped fields →
    Follows file ctx (entries file (rawFields fields)) (Emit.entries ctx .single fields)
  | [], _, _ => follows_pure _
  | ⟨_, _, kind⟩ :: rest, ctx, h => by
    simp only [Emit.entries, ite_self]
    exact (follows_entry kind ctx h.1).cons (follows_entries rest ctx h.2)

theorem follows_entry : ∀ (kind : FieldKind) (ctx : Context), kind.Shaped →
    Follows file ctx (entry file kind.raw) (Emit.entry ctx .single kind)
  | .positional value, ctx, h => (follows_expression value ctx h).map _
  | .named _ value, ctx, h => (follows_expression value ctx h.2).map _
  | .keyed key value, ctx, h =>
    (follows_expression key ctx h.1).bind fun _ => (follows_expression value ctx h.2).map _

/-- The members of a class, each with its failures contained. -/
theorem does_members : ∀ (fields : List Field) (ctx : Context), FieldsShaped fields →
    Does file ctx false (members file (rawFields fields)) (Emit.members ctx fields)
  | [], _, _ => does_pure _
  | ⟨_, span, kind⟩ :: rest, ctx, h =>
    (settles_classMember kind ctx span h.1).contained.bind fun text =>
      (does_members rest ctx h.2).map (text :: ·)

/-- A positional member is the one fault of its field, which is settled where it stands. -/
theorem settles_classMember : ∀ (kind : FieldKind) (ctx : Context) (span : Span), kind.Shaped →
    Settles file ctx false span (classMember file kind.raw) (Emit.member ctx span kind)
  | .named _ value, ctx, span, h => (follows_memberValue value ctx _ h.2).settles span
  | .keyed key value, ctx, span, h =>
    ((follows_expression key ctx h.1).bind fun _ => follows_memberValue value ctx _ h.2).settles span
  | .positional _, _, _, _ => settles_throw _ _

/-- A member that is a function is generated by its convention. -/
theorem follows_memberValue : ∀ (value : Expr) (ctx : Context) (key : String), value.Shaped false →
    Follows file ctx
      (memberValue file key value.raw.outline (expression file value.raw) (valueBody file value.raw))
      (Emit.memberValue ctx key value)
  | ⟨id, span, kind⟩, ctx, key, h => by
    have hplain := ((follows_expressionKind kind ctx id (.inl rfl) h).around span).map
      fun text => key ++ " = " ++ text ++ ";"
    cases kind with
    | function f =>
      have hfunction := (does_functionOf f ctx (.ofFirstParameter f) h).lift.map
        fun text => text.member (.ofFirstParameter f) key
      cases f
      exact hfunction
    | _ => exact hplain

/-- **A function is generated as it is lowered**, under any convention. -/
theorem does_functionOf : ∀ (f : FunctionBody) (ctx : Context) (convention : Emit.Convention),
    f.Shaped →
    Does file ctx false
      (function file convention { f with body := [] } (statements file (rawBlock f.body)))
      (Emit.function ctx convention f)
  | ⟨_, _, _, _, body⟩, _, _, h =>
    does_function (does_statements body _ h.2) fun hnone => captured_statements body hnone

/-- **Statements are generated as they are lowered.** -/
theorem does_statements : ∀ (body : List Stmt) (ctx : Context), BlockShaped body →
    Does file ctx (ctx.isTop && body.any (·.kind.exports)) (statements file (rawBlock body))
      (Emit.statements ctx body)
  | [], ctx, _ => by
    rw [List.any_nil, Bool.and_false]
    exact does_pure _
  | ⟨id, span, kind⟩ :: rest, ctx, h => by
    have hstatements := (settles_statement kind ctx id span h.1).contained.bind fun text =>
      (does_statements rest ctx h.2.2).map (text :: ·)
    rw [← Bool.and_or_distrib_left] at hstatements
    exact hstatements

/-- **Statements without the comments around them**: each rule settles as its lowering does. -/
theorem settles_statement : ∀ (kind : StmtKind) (ctx : Context) (id : NodeId) (span : Span),
    kind.Shaped →
    Settles file ctx (ctx.isTop && kind.exports) span (statementKind file id kind.raw)
      (Emit.statement ctx id span kind)
  | .local vars init, ctx, id, span, h => by
    have hsteps : LocalSteps.Follow file ctx init
        { arguments := firstArguments file (rawExprs init)
          native := firstNative file (rawExprs init)
          values := ⟨first file (rawExprs init), list file (rawExprs init)⟩ }
        { arguments := Emit.callArguments ctx init
          classBody := Emit.valueClassBody ctx init
          values := Emit.expressions ctx.asValue (Emit.bindRole vars.length init) init } :=
      { arguments := follows_firstArguments init ctx h.2.2
        native := follows_firstNative init ctx h.2.2
        values := ⟨follows_first init ctx.asValue h.2.2, follows_list init ctx.asValue h.2.2⟩ }
    have hlocal := hsteps.localStatement h.1 rfl id
    -- the generator looks at the outlines of the values only
    rw [← outlines_raw] at hlocal
    exact hlocal.inside span
  | .assignment targets init, ctx, _, span, h => by
    obtain ⟨htargets, _, htargetsShaped, hinit, hinitShaped⟩ := h
    have hsteps : AssignmentSteps.Follow file ctx targets init
        { indexBase := indexBase file (rawExprs targets)
          firstTarget := first file (rawExprs targets)
          native := firstNative file (rawExprs init)
          targets := row file (rawExprs targets)
          values := ⟨first file (rawExprs init), list file (rawExprs init)⟩ }
        { indexBase := Emit.indexBase ctx targets
          firstTarget := Emit.firstExpression ctx targets
          firstValue := Emit.firstExpression ctx init
          classBody := Emit.valueClassBody ctx init
          targets := Emit.expressions ctx.asValue .single targets
          values := Emit.expressions ctx.asValue (Emit.bindRole targets.length init) init } :=
      { indexBase := follows_indexBase targets ctx htargetsShaped
        firstTarget := follows_first targets ctx htargetsShaped
        firstValue := follows_first init ctx hinitShaped
        native := follows_firstNative init ctx hinitShaped
        targets := follows_row targets ctx.asValue htargetsShaped
        values := ⟨follows_first init ctx.asValue hinitShaped,
          follows_list init ctx.asValue hinitShaped⟩ }
    -- both sides are lowered as values, whatever the context
    have hassignment := hsteps.assignment htargets hinit rfl rfl
    rw [← outlines_raw, ← outlines_raw] at hassignment
    exact hassignment.inside span
  | .call ⟨id, _, kind⟩, ctx, _, span, h => by
    obtain ⟨hcall, hshaped⟩ := h
    -- a call is the one expression that is lowered in the role of a statement
    have hkind := (follows_expressionKind kind ctx id (.inr rfl) hshaped).inside span
    cases kind with
    | call base style arguments => exact hkind
    | _ => cases hcall
  | .localFunction name f, ctx, _, span, h => by
    have hfunction := follows_namedFunction name true (pure "") (does_functionOf f ctx (.plain f) h.2)
    cases f
    exact hfunction.inside span
  | .function (.name name) f, ctx, _, span, h => by
    have hfunction := follows_namedFunction name false (pure "") (does_functionOf f ctx (.plain f) h.2)
    cases f
    exact hfunction.inside span
  | .function (.member id place base indexer name) f, ctx, _, span, h => by
    have hfunction := follows_memberFunction id place name (follows_expression base ctx h.1.2.1)
      (does_functionOf f ctx (.ofIndexer indexer f) h.2)
    cases f
    exact hfunction.inside span
  | .return arguments, ctx, _, span, h => by
    have hvalues : Values.Follow file ctx arguments
        ⟨first file (rawExprs arguments), list file (rawExprs arguments)⟩ :=
      ⟨follows_first arguments ctx h, follows_list arguments ctx h⟩
    have hreturn := settles_returnStatement (follows_second arguments ctx h) hvalues span
    rw [← outlines_raw] at hreturn
    exact hreturn
  | .break, _, _, span, _ => (follows_pure _).inside span
  | .goto label, _, _, span, _ => (settles_gotoStatement label span).inside
  | .label label, _, _, span, _ => (settles_labelStatement label span).inside
  | .block body, ctx, _, span, h =>
    ((does_statements body ctx.inBlock h).block.lift.map Emit.braced).inside span
  | .while condition body, ctx, _, span, h =>
    ((follows_expression condition ctx h.1).bind fun _ =>
      ((does_statements body (ctx.inLoop body) h.2).loopBody body).lift.map _).inside span
  | .repeat body condition, ctx, _, span, h =>
    (((does_statements body (ctx.inLoop body) h.1).loopBody body).lift.bind fun _ =>
      (follows_expression condition ctx h.2).map _).inside span
  | .conditional ⟨_, _, condition, body⟩ others otherwise, ctx, _, span, h => by
    obtain ⟨⟨hcondition, hbody⟩, hothers, hotherwise⟩ := h
    have hclauses := Follows.clause .opening Emit.ifText (fun _ _ => rfl)
      (follows_expression condition ctx hcondition) (does_statements body ctx.inBlock hbody).block
      (follows_clauses others ctx hothers (follows_else otherwise ctx hotherwise))
    have htext := (hclauses.map fun texts => "\n".intercalate texts).congr fun p => rfl
    exact htext.inside span
  | .forNumeric counter first last step body, ctx, _, span, h => by
    obtain ⟨_, hfirst, hlast, hstep, hbody⟩ := h
    have hheader := follows_numericHeader counter step (follows_expression first ctx.asBound hfirst)
      (follows_expression last ctx.asBound hlast) (follows_optional step ctx.asBound "1" hstep)
    -- the header is written from the outline of the step
    have houtline : (step.map fun e => e.raw.outline) = (rawStep step).map Raw.Expr.outline := by
      cases step <;> rfl
    rw [houtline] at hheader
    have hloop := hheader.forNumeric ((does_statements body (ctx.inLoop body) hbody).loopBody body)
    exact (hloop.congr fun p => rfl).inside span
  | .forGeneric vars [iterator] body, ctx, id, span, h => by
    obtain ⟨_, _, _, hiterators, hbody⟩ := h
    have hloop := (follows_source iterator ctx hiterators.1).forGeneric vars iterator
      ((does_statements body (ctx.inLoop body) hbody).loopBody body)
    exact hloop.inside span
  | .forGeneric vars [] body, ctx, id, span, h => absurd rfl h.2.2.1
  | .forGeneric vars (first :: second :: rest) _, _, _, span, _ => by
    have hmany : (first :: second :: rest).length ≠ 1 := by simp
    exact (settles_iterators vars hmany _ _ span).inside

theorem follows_optional : ∀ (e : Option Expr) (ctx : Context) (absent : String), StepShaped e →
    Follows file ctx (optional file absent (rawStep e)) (Emit.optional ctx absent e)
  | none, _, _, _ => follows_pure _
  | some e, ctx, _, h => follows_expression e ctx h

/-- What a generic loop runs over. -/
theorem follows_source : ∀ (e : Expr) (ctx : Context), e.Shaped false →
    Follows file ctx (source file [e.raw]) (Emit.iterated ctx e)
  | ⟨id, span, kind⟩, ctx, h => by
    have hplain := (follows_expressionKind kind ctx id (.inl rfl) h).around span
    cases kind with
    | call base style arguments =>
      cases style with
      | arguments =>
        have hiterated := (follows_list arguments ctx h.2.2).iterated hplain
          (Emit.iteratorFunction? base.raw.outline)
        unfold Emit.iterated
        rw [← Emit.iteratorFunction?_outline base]
        exact hiterated
      | _ => exact hplain
    | _ => exact hplain

/-- Further clauses of a conditional, with what is behind them. -/
theorem follows_clauses : ∀ (cs : List Clause) (ctx : Context), ClausesShaped cs →
    ∀ {rest : List Raw.Clause} {emit : Emit (List String)},
      Follows file ctx (clauses file rest) emit →
      Follows file ctx (clauses file (rawClauses cs ++ rest)) (do
        let middle ← Emit.clauses ctx cs
        return middle ++ (← emit))
  | [], _, _ => id
  | ⟨_, _, condition, body⟩ :: cs, ctx, h => fun hrest => by
    have hclauses := Follows.clause .further Emit.elseIfText (fun _ _ => rfl)
      (follows_expression condition ctx h.1.1) (does_statements body ctx.inBlock h.1.2).block
      (follows_clauses cs ctx h.2 hrest)
    exact hclauses.congr fun p => rfl

theorem follows_else : ∀ (otherwise : Option ElseClause) (ctx : Context), ElseShaped otherwise →
    Follows file ctx (clauses file (rawElse otherwise)) (Emit.elseClause ctx otherwise)
  | none, _, _ => follows_pure _
  | some ⟨_, _, body⟩, ctx, h =>
    (does_statements body ctx.inBlock h).block.lift.map fun text => [Emit.elseText text]

end

/-! ## Programs -/

/-- In a block of the grammar only the last statement can export a value. -/
theorem any_exports : ∀ {body : List Stmt}, BlockShaped body →
    body.any (·.kind.exports) = body.getLast?.any (·.kind.exports)
  | [], _ => rfl
  | [only], _ => by simp
  | ⟨id, span, kind⟩ :: second :: rest, h => by
    have hfirst : kind.exports = false := by
      cases kind with
      | «return» arguments => exact absurd (h.2.1 rfl) (List.cons_ne_nil _ _)
      | _ => rfl
    rw [List.any_cons, hfirst, Bool.false_or, any_exports h.2.2, List.getLast?_cons_cons]

/-- A program exports a value exactly if its last statement does. -/
theorem exportsValue_eq (c : Chunk) :
    Emit.exportsValue c = c.body.getLast?.any (·.kind.exports) := by
  unfold Emit.exportsValue
  rcases c.body.getLast? with _ | ⟨id, span, kind⟩
  · rfl
  · cases kind <;> rfl

/-- **A program is generated as it is lowered**, from a generator that stands in the chunk and has not
exported a value. -/
theorem does_chunk {ctx : Context} {c : Chunk} (h : BlockShaped c.body) (htop : ctx.isTop = true)
    {g : Generator} (p : Emit.Progress) (hctx : g.context file = ctx) (hexported : g.exported = false) :
    (chunk file (rawBlock c.body)).run (g.holding p) =
      (((Emit.chunk ctx c).run p).1,
        (g.exporting (Emit.exportsValue c)).holding ((Emit.chunk ctx c).run p).2) := by
  have hstatements := does_statements c.body ctx h g p hctx
  rw [htop, Bool.true_and, any_exports h, ← exportsValue_eq] at hstatements
  have hsealed : (g.exporting (Emit.exportsValue c)).exported = Emit.exportsValue c := by
    rw [exporting, hexported, Bool.false_or]
  -- behind the statements only the comments left are a step, and it is one on the traces
  have hleft := (does_trace blind_commentsLeft).run (g.exporting (Emit.exportsValue c))
    ((Emit.statements ctx c.body).run p).2 hctx
  have hcode := congrArg (fun r : String × Generator =>
    (chunkText (g.exporting (Emit.exportsValue c)).exported
      ((Emit.statements ctx c.body).run p).2.classes
      (Emit.sequence ((Emit.statements ctx c.body).run p).1) r.1, r.2)) hleft
  unfold chunk
  rw [StateT.run_bind, hstatements]
  refine hcode.trans ?_
  rw [hsealed]
  rfl

end Generator

end LuaCompiler
