import LuaCompiler.Proofs.Emit.Bindings
import LuaCompiler.Proofs.Emit.Footprint
import LuaCompiler.Proofs.Emit.Logic
import LuaCompiler.Proofs.Emit.Visible

/-!
# What declarations introduce

A `local` statement and a local function introduce the names that are new in their scope: these stand
behind `let`, `class` or `function` at the start of the text. What the scope has declared before is
assigned to. A loop introduces its variables in its header, which is a scope of its own.

* `StmtKind.declared`: the identifiers that a statement declares, and `introduced`: **those that it
  introduces** in the code.
* `introduction_statement`, `introduction_loop`: **what stands at the start of the text**.
* `own_statements`, `statement_loop`: what the scopes of a loop bind.
-/

namespace LuaCompiler

/-- The identifiers that a statement declares in the scope where it stands. -/
def StmtKind.declared : StmtKind → List Identifier
  | .local vars _ => vars
  | .localFunction name _ => [name]
  | _ => []

/-- The variables and the body of a loop with variables of its own, if it has a counterpart. -/
def StmtKind.loop? : StmtKind → Option (List Identifier × List Stmt)
  | .forNumeric counter _ _ _ body => some ([counter], body)
  | .forGeneric vars [_] body => some (vars, body)
  | _ => none

section Declared

open Scope (Item Skeleton.declared Skeleton.Plain)

/-- What stands in an expression is declared nowhere else. -/
theorem declared_of_plain {items : List Item} (h : Skeleton.Plain items) :
    Skeleton.declared items = [] := by
  induction items with
  | nil => rfl
  | cons first rest ih =>
    obtain ⟨hfirst, hrest⟩ := Scope.Skeleton.plain_cons.1 h
    rw [Skeleton.declared, ih hrest, List.append_nil]
    cases first with
    | locals | localFunction => cases hfirst
    | _ => rfl

/-- What the items of a statement declare. -/
theorem declared_items (id : NodeId) (kind : StmtKind) :
    Skeleton.declared (kind.items id) = kind.declared := by
  cases kind with
  | «local» vars init => exact List.append_nil vars
  | localFunction name f =>
    rw [StmtKind.items, Skeleton.declared, declared_of_plain (f.items_plain false).1]
    rfl
  | function target f =>
    cases target with
    | name identifier =>
      exact declared_of_plain (Scope.Skeleton.plain_cons.2 ⟨rfl, (f.items_plain false).1⟩)
    | member memberId span base indexer name =>
      exact declared_of_plain
        (Scope.Skeleton.plain_append.2 ⟨base.items_plain.1, (f.items_plain _).1⟩)
  | assignment targets init =>
    exact declared_of_plain (Scope.Skeleton.plain_append.2
      ⟨(exprItems_plain targets).1, (exprItems_plain init).1⟩)
  | call e => exact declared_of_plain e.items_plain.1
  | «return» arguments => exact declared_of_plain (exprItems_plain arguments).1
  | «while» condition body =>
    exact declared_of_plain (Scope.Skeleton.plain_append.2
      ⟨condition.items_plain.1, Scope.Skeleton.plain_cons.2 ⟨rfl, Scope.Skeleton.plain_nil⟩⟩)
  | conditional first others otherwise =>
    exact declared_of_plain (Emit.plain_conditional id first others otherwise)
  | _ => rfl

/-- What a block declares. -/
theorem declared_stmtItems (body : List Stmt) :
    Skeleton.declared (stmtItems body) = body.flatMap (·.kind.declared) := by
  induction body with
  | nil => rfl
  | cons s rest ih =>
    obtain ⟨id, span, kind⟩ := s
    rw [stmtItems, Scope.Skeleton.declared_append, declared_items, ih, List.flatMap_cons]

end Declared

namespace Emit

/-- **The identifiers that a statement introduces**: those of a class, and those that are new. -/
def introduced (ctx : Context) (s : Stmt) : List Identifier :=
  match s.kind with
  | .local vars init =>
    if definesLocalClass ctx vars init then vars else Layout.newVars ctx s.id vars
  | .localFunction name _ => if ctx.annotations.redeclared.contains name.id then [] else [name]
  | _ => []

/-- **How names are introduced**: not at all if there are none, by `let` one by one or as a pattern, as
a class, or as a function. -/
inductive Introduction : List String → String → Prop
  | nothing : Introduction [] ""
  | names (names : List String) : Introduction names ("let " ++ commas names)
  | pattern (names : List String) : Introduction names ("let " ++ brackets (commas names))
  | native (name : String) : Introduction [name] ("class " ++ name)
  | function (name : String) : Introduction [name] ("function " ++ name)

/-- A text starts with the introduction of some names. -/
def StartsBy (names : List String) (text : String) : Prop :=
  ∃ lead rest, text = lead ++ rest ∧ Introduction names lead

section Texts

variable {ctx : Context} {names : List String} {text more : String} {p : Progress}

theorem startsBy_nil (text : String) : StartsBy [] text := ⟨"", text, by simp, .nothing⟩

/-- More text may follow. -/
theorem StartsBy.append (h : StartsBy names text) (more : String) : StartsBy names (text ++ more) := by
  obtain ⟨lead, rest, rfl, hlead⟩ := h
  exact ⟨lead, rest ++ more, String.append_assoc .., hlead⟩

theorem Introduction.startsBy (h : Introduction names text) : StartsBy names text :=
  ⟨text, "", by simp, h⟩

theorem startsBy_let (name more : String) : StartsBy [name] ("let " ++ name ++ more) := by
  have hname : commas [name] = name := String.intercalate_singleton
  exact (hname ▸ Introduction.names [name] : Introduction [name] ("let " ++ name)).startsBy.append more

/-- Targets behind `let`. -/
theorem startsBy_pattern {targets : Targets} (hlead : targets.lead = "let ") (more : String) :
    StartsBy targets.texts (targets.lead ++ targets.pattern ++ more) := by
  rw [hlead, Targets.pattern]
  split
  next only heq =>
    rw [heq]
    exact startsBy_let only more
  next texts => exact (Introduction.pattern targets.texts).startsBy.append more

/-- A name that is bound, as it is or as a pattern. -/
theorem startsBy_boundText {pattern : String} (name : String) (node : Expr) (value : String)
    (isFirst : Bool) : StartsBy [pattern] (boundText ctx "let " pattern name node value isFirst) := by
  have hplain (rest : String) : StartsBy [pattern] ("let " ++ pattern ++ " = " ++ rest) :=
    ((startsBy_let pattern " = ").append rest)
  have hname : commas [pattern] = pattern := String.intercalate_singleton
  have hpattern : Introduction [pattern] ("let " ++ brackets pattern) :=
    hname ▸ Introduction.pattern [pattern]
  unfold boundText
  split
  · exact hplain _
  · split
    · exact hplain _
    · unfold bindPlain
      split
      · exact hplain _
      · split
        · exact (hpattern.startsBy.append " = ").append _
        · exact hplain _

/-- **What is bound behind `let` is introduced.** -/
theorem startsBy_bind {targets : Targets} (hlead : targets.lead = "let ")
    (hlocal : targets.isLocal = true) (init : List Expr) (values : List String) (p : Progress) :
    StartsBy targets.texts ((bind ctx targets init values).run p).1 := by
  have hmany (rest : String) :
      StartsBy targets.texts (targets.lead ++ targets.pattern ++ " = " ++ rest) :=
    (startsBy_pattern hlead " = ").append rest
  unfold bind
  split
  next only node value name htexts _ =>
    have hpattern : targets.pattern = only := by rw [Targets.pattern, htexts]
    rw [bindName_run, bindAs_run, publishes_of_isLocal hlocal, hlead, hpattern, htexts]
    exact startsBy_boundText name node value _
  · exact hmany _
  · exact hmany _

/-- A `local` statement that defines no class introduces what is new. -/
theorem startsBy_localBinding (id : NodeId) (vars : List Identifier) (init : List Expr)
    (parts : LocalParts) (p : Progress) :
    StartsBy ((Layout.newVars ctx id vars).map ctx.declaredName)
      ((localBinding ctx id vars init parts).run p).1 := by
  -- the declarations in front, if the statement is marked, and the targets
  have hlater (hmarked : ctx.annotations.duplicated.contains id = true) (rest : String) :
      StartsBy ((Layout.newVars ctx id vars).map ctx.declaredName)
        ((localTargets ctx id vars).1 ++ rest) := by
    unfold localTargets Layout.newVars
    dsimp only
    rw [if_pos hmarked, if_pos hmarked]
    dsimp only
    cases hnew : (vars.filter fun v => !ctx.annotations.redeclared.contains v.id).map
        ctx.declaredName with
    | nil => exact startsBy_nil _
    | cons first others =>
      exact ((Introduction.names (first :: others)).startsBy.append ";\n").append rest
  have hnow (hplain : ctx.annotations.duplicated.contains id = false) :
      localTargets ctx id vars = ("", ⟨true, "let ", vars.map ctx.declaredName,
        (localTargets ctx id vars).2.single⟩) ∧ Layout.newVars ctx id vars = vars := by
    unfold localTargets Layout.newVars
    rw [hplain]
    exact ⟨rfl, rfl⟩
  cases hmarked : ctx.annotations.duplicated.contains id with
  | true =>
    unfold localBinding
    dsimp only
    split
    · exact hlater hmarked _
    · exact hlater hmarked _
  | false =>
    obtain ⟨htargets, hvars⟩ := hnow hmarked
    rw [hvars]
    unfold localBinding
    rw [htargets]
    dsimp only
    split
    · exact ((Introduction.names _).startsBy)
    · exact startsBy_bind rfl rfl init _ _

theorem startsBy_classText (name : String) (parent : Option String) (members : List String) :
    StartsBy [name] (classText (some name) parent members) := by
  have hclass : "class " = "class" ++ " " := by decide
  refine ⟨"class " ++ name, (parent.map (" extends " ++ ·)).getD "" ++
    (" " ++ braced ("\n" ++ "\n".intercalate members ++ "\n")), ?_, .native name⟩
  rw [classText, hclass]
  simp only [Option.map_some, Option.getD_some, String.append_assoc]

/-- A class is introduced under its name. -/
theorem startsBy_localClass {v : Identifier} {value : Expr} {parts : LocalParts} {m : Emit String}
    (hm : localClass? ctx v value parts = some m) (p : Progress) :
    StartsBy [ctx.declaredName v] (m.run p).1 := by
  have hlet (rest : String) : StartsBy [ctx.declaredName v]
      ("let " ++ ctx.declaredName v ++ " = " ++ rest) := (startsBy_let _ " = ").append rest
  unfold localClass? at hm
  dsimp only at hm
  split at hm
  · obtain rfl := Option.some.inj hm
    exact hlet _
  · split at hm
    · split at hm
      · cases hm
      · split at hm
        · obtain rfl := Option.some.inj hm
          exact startsBy_classText (ctx.declaredName v) _ _
        · obtain rfl := Option.some.inj hm
          split
          · exact hlet _
          · exact hlet _
    · cases hm

/-- Whether a `local` statement defines a class. -/
theorem isSome_localClass (ctx : Context) (v : Identifier) (value : Expr) (parts : LocalParts) :
    (localClass? ctx v value parts).isSome = definesLocalClass ctx [v] [value] := by
  obtain ⟨id, span, kind⟩ := value
  unfold localClass? definesLocalClass
  dsimp only
  cases ctx.isTop && isModuleName ctx v.name && isEmptyTable ⟨id, span, kind⟩ with
  | true => rfl
  | false =>
    rw [if_neg Bool.false_ne_true, Bool.false_or]
    cases kind with
    | call base style arguments =>
      dsimp only
      cases isClassCall base arguments with
      | false => rfl
      | true => cases isNativeClass arguments <;> rfl
    | _ => rfl

/-- A `local` statement introduces a class, or what is new. -/
theorem startsBy_localStatement (id : NodeId) (vars : List Identifier) (init : List Expr)
    (parts : LocalParts) (p : Progress) :
    StartsBy ((if definesLocalClass ctx vars init then vars else Layout.newVars ctx id vars).map
      ctx.declaredName) ((localStatement ctx id vars init parts).run p).1 := by
  cases hclass : definesLocalClass ctx vars init with
  | false =>
    rw [localStatement_eq_binding hclass, if_neg Bool.false_ne_true]
    exact startsBy_localBinding id vars init parts p
  | true =>
    -- only a statement of one variable and one value defines a class
    obtain ⟨v, value, rfl, rfl⟩ : ∃ v value, vars = [v] ∧ init = [value] := by
      unfold definesLocalClass at hclass
      split at hclass
      next v value => exact ⟨v, value, rfl, rfl⟩
      · cases hclass
    have hsome := isSome_localClass ctx v value parts
    rw [hclass] at hsome
    obtain ⟨m, hm⟩ := Option.isSome_iff_exists.1 hsome
    have hstatement : localStatement ctx id [v] [value] parts = m := by
      unfold localStatement
      dsimp only
      rw [hm, Option.getD_some]
    rw [hstatement, if_pos rfl]
    exact startsBy_localClass hm p

/-- A local function is introduced, or assigned to what its scope has declared before. -/
theorem startsBy_named (f : FunctionText) (name : String) (redeclares : Bool) :
    StartsBy (if redeclares then [] else [name]) (f.named name true redeclares) := by
  cases redeclares with
  | true => exact startsBy_nil _
  | false => exact ((Introduction.function name).startsBy.append _).append _

/-- **What stands at the start of the text of a statement**: what it introduces. -/
theorem introduction_statement (ctx : Context) (s : Stmt) (p : Progress) :
    StartsBy ((introduced ctx s).map ctx.declaredName) ((statement ctx s.id s.span s.kind).run p).1 := by
  obtain ⟨id, span, kind⟩ := s
  cases kind with
  | «local» vars init =>
    rw [introduced, statement]
    exact startsBy_localStatement id vars init _ p
  | localFunction name f =>
    have hnames : (introduced ctx ⟨id, span, .localFunction name f⟩).map ctx.declaredName =
        if ctx.annotations.redeclared.contains name.id then [] else [ctx.declaredName name] := by
      rw [introduced]
      exact apply_ite (List.map ctx.declaredName) _ _ _
    rw [hnames, statement]
    exact startsBy_named _ _ _
  | _ =>
    rw [introduced]
    exact startsBy_nil _

/-- The text of a numeric loop: its header, and its body in braces. -/
theorem forNumeric_run (ctx : Context) (id : NodeId) (span : Span) (counter : Identifier)
    (first last : Expr) (step : Option Expr) (body : List Stmt) (p : Progress) :
    ∃ q, ((statement ctx id span (.forNumeric counter first last step body)).run p).1 =
      forNumericHeader (ctx.declaredName counter) first step
        ((expression ctx.asBound .single first).run p).1
        ((expression ctx.asBound .single last).run
          ((expression ctx.asBound .single first).run p).2).1
        ((optional ctx.asBound "1" step).run ((expression ctx.asBound .single last).run
          ((expression ctx.asBound .single first).run p).2).2).1 ++
      " " ++ braced (sequence ((statements (ctx.inLoop body) body).run q).1) := by
  rw [statement]
  exact ⟨_, rfl⟩

/-- The header of a loop introduces its variable in the brackets. -/
theorem startsBy_forNumericHeader (name : String) (first : Expr) (step : Option Expr)
    (firstText lastText stepText : String) :
    ∃ inner, forNumericHeader name first step firstText lastText stepText = "for " ++ parens inner ∧
      StartsBy [name] inner := by
  refine ⟨_, rfl, ?_⟩
  iterate 13 refine StartsBy.append ?_ _
  exact startsBy_let name " = "

/-- So does that of a generic loop. -/
theorem startsBy_forGenericText (ctx : Context) (vars : List Identifier) (iterator body : String) :
    ∃ inner, forGenericText ctx vars iterator body = "for " ++ parens inner ++ " " ++ braced body ∧
      StartsBy (vars.map ctx.declaredName) inner := by
  refine ⟨_, rfl, ?_⟩
  refine StartsBy.append ?_ _
  split
  next only heq =>
    rw [heq]
    exact startsBy_let only " of "
  · exact (Introduction.pattern _).startsBy.append " of "

/-- **What stands at the start of a loop**: its variables, in parentheses. The body stands in braces
behind them. -/
theorem introduction_loop (ctx : Context) {s : Stmt} {vars : List Identifier} {body : List Stmt}
    (hloop : s.kind.loop? = some (vars, body)) (p : Progress) :
    ∃ header q, ((statement ctx s.id s.span s.kind).run p).1 = "for " ++ parens header ++ " " ++
        braced (sequence ((statements (ctx.inLoop body) body).run q).1) ∧
      StartsBy (vars.map ctx.declaredName) header := by
  obtain ⟨id, span, kind⟩ := s
  unfold StmtKind.loop? at hloop
  split at hloop
  next counter first last step body' heq =>
    obtain rfl : kind = _ := heq
    cases hloop
    obtain ⟨q, hrun⟩ := forNumeric_run ctx id span counter first last step body p
    obtain ⟨header, hheader, hstarts⟩ :=
      startsBy_forNumericHeader (ctx.declaredName counter) first step _ _ _
    refine ⟨header, q, ?_, hstarts⟩
    rw [hrun, hheader]
  next vars' iterator body' heq =>
    obtain rfl : kind = _ := heq
    cases hloop
    obtain ⟨header, hheader, hstarts⟩ := startsBy_forGenericText ctx vars
      ((iterated ctx iterator).run p).1
      (sequence ((statements (ctx.inLoop body) body).run ((iterated ctx iterator).run p).2).1)
    refine ⟨header, ((iterated ctx iterator).run p).2, ?_, hstarts⟩
    rw [← hheader, statement]
    rfl
  · cases hloop

end Texts

/-! ## Scopes -/

section Scopes

open Scope (Item Skeleton.declared Skeleton.Plain)

variable {P : Program} {events : List Scope.Event} {S : List (List Identifier)} {ctx : Context}
  {registries : Registries} {items : List Item} {l : Layout} {s : Stmt} {body : List Stmt}

/-- What declares nothing binds nothing. -/
theorem Layout.Lays.own_eq_nil (h : Layout.Lays ctx items l) (hplain : Skeleton.Plain items)
    (hcovered : Covered (ctx.program events S) items) : l.own = [] := by
  obtain ⟨vs, hvs, hnames, -⟩ := ((h.scoped hcovered).plain hplain).own
  rw [hnames, List.sublist_nil.1 hvs, List.map_nil]

/-- Names that are bound are bound by their spellings. -/
theorem own_bindings (ctx : Context) (vars : List Identifier) :
    (Layout.bindings ctx vars).own = vars.map (ctx.program events S).bound := by
  rw [Layout.bindings_eq_parameters, Layout.own_parameters]

/-- A `local` statement of a variable and a value binds its name as a class, or what it binds else. -/
theorem own_localClass {v : Identifier} {value : Expr} {parts : Layout.LocalLayouts}
    {binding : Layout} (harguments : parts.arguments.own = []) (hclass : parts.classBody.own = []) :
    ((Layout.localClass? ctx v value parts).getD binding).own =
      if definesLocalClass ctx [v] [value] then [(ctx.program events S).bound v]
      else binding.own := by
  obtain ⟨id, span, kind⟩ := value
  -- the texts inside a class introduce no variable of this scope
  have hname {l : Layout} (hl : l.own = []) :
      (Layout.append (.binding v.id (ctx.declaredName v)) l).own =
        [(ctx.program events S).bound v] := by
    rw [Layout.own, hl]
    rfl
  by_cases htable : (ctx.isTop && isModuleName ctx v.name && isEmptyTable ⟨id, span, kind⟩) = true
  · have hdefines : definesLocalClass ctx [v] [⟨id, span, kind⟩] = true := by
      rw [definesLocalClass, htable, Bool.true_or]
    unfold Layout.localClass?
    dsimp only
    rw [if_pos htable, hdefines, if_pos rfl]
    rfl
  · -- without an empty table, the call alone decides whether there is a class
    have hdefines {isCall : Bool} (hcall : definesLocalClass ctx [v] [⟨id, span, kind⟩] =
        (ctx.isTop && isModuleName ctx v.name && isEmptyTable ⟨id, span, kind⟩ || isCall)) :
        definesLocalClass ctx [v] [⟨id, span, kind⟩] = isCall := by
      rw [hcall, Bool.eq_false_iff.2 htable, Bool.false_or]
    unfold Layout.localClass?
    dsimp only
    rw [if_neg htable]
    cases kind with
    | call base style arguments =>
      rw [hdefines rfl]
      dsimp only
      by_cases hcall : isClassCall base arguments = true
      · rw [if_pos hcall, hcall, Bool.not_true, if_neg Bool.false_ne_true]
        split
        · exact hname hclass
        · exact hname harguments
      · rw [if_neg hcall, Bool.eq_false_iff.2 hcall]
        rfl
    | _ =>
      rw [hdefines rfl]
      rfl

/-- A `local` statement binds what is new, or its class. -/
theorem own_localStatement {id : NodeId} {vars : List Identifier} {init : List Expr}
    {parts : Layout.LocalLayouts} (harguments : parts.arguments.own = [])
    (hclass : parts.classBody.own = []) (hvalues : parts.values.own = []) :
    (Layout.localStatement ctx id vars init parts).own =
      (if definesLocalClass ctx vars init then vars else Layout.newVars ctx id vars).map
        (ctx.program events S).bound := by
  have hbinding : (Layout.append (Layout.bindings ctx (Layout.newVars ctx id vars))
      (if init.isEmpty then .blank else parts.values)).own =
        (Layout.newVars ctx id vars).map (ctx.program events S).bound := by
    rw [Layout.own, own_bindings, apply_ite Layout.own, hvalues, Layout.own, ite_self,
      List.append_nil]
  unfold Layout.localStatement
  dsimp only
  split
  next v value =>
    rw [own_localClass harguments hclass, hbinding, apply_ite (List.map _)]
    rfl
  next hmany =>
    have hno : definesLocalClass ctx vars init = false := by
      unfold definesLocalClass
      split
      next v value => exact absurd rfl (hmany v value rfl)
      · rfl
    rw [hno, if_neg Bool.false_ne_true]
    exact hbinding

/-- **What a statement binds** in the scope where it stands: what it introduces. -/
theorem own_statement (h : Covered (ctx.program events S) (s.kind.items s.id)) :
    (Layout.statement ctx registries s.id s.kind).own =
      (introduced ctx s).map (ctx.program events S).bound := by
  obtain ⟨id, span, kind⟩ := s
  have hscoped : Scoped (ctx.program events S) kind.declared
      (Layout.statement ctx registries id kind) :=
    declared_items id kind ▸ (Layout.lays_statement ctx id kind).scoped h
  cases kind with
  | «local» vars init =>
    have hplain := (exprItems_plain init).1
    exact own_localStatement ((Layout.lays_callArguments ctx init).own_eq_nil hplain h.values)
      ((Layout.lays_valueClassBody ctx init).own_eq_nil hplain h.values)
      ((Layout.lays_expressions ctx.asValue init).own_eq_nil hplain h.values)
  | localFunction name f =>
    obtain ⟨_, _, names, isVararg, inner⟩ := f
    rw [introduced, Layout.statement, Layout.own, apply_ite Layout.own, apply_ite (List.map _)]
    exact List.append_nil _
  | _ =>
    obtain ⟨vs, hvs, hnames, -⟩ := hscoped.own
    rw [hnames, List.sublist_nil.1 hvs]
    rfl

/-- A block binds what its statements introduce. -/
theorem own_statements (h : Covered (ctx.program events S) (stmtItems body)) :
    (Layout.statements ctx registries body).own =
      (body.flatMap (introduced ctx)).map (ctx.program events S).bound := by
  induction body with
  | nil => rfl
  | cons s rest ih =>
    obtain ⟨id, span, kind⟩ := s
    have hfirst : (Layout.statement ctx registries id kind).own =
        (introduced ctx ⟨id, span, kind⟩).map (ctx.program events S).bound :=
      own_statement (s := ⟨id, span, kind⟩) h.left
    rw [List.flatMap_cons, List.map_append, ← ih h.right, ← hfirst]
    rfl

/-- **A loop is two scopes**: the header binds its variables, and the body in braces what its
statements introduce. -/
theorem statement_loop {vars : List Identifier} (hloop : s.kind.loop? = some (vars, body))
    (h : Covered (ctx.program events S) (s.kind.items s.id)) :
    ∃ header, Layout.statement ctx registries s.id s.kind =
        .region header (.braces true (Layout.statements (ctx.inLoop body) registries body)) ∧
      header.own = vars.map (ctx.program events S).bound := by
  obtain ⟨id, span, kind⟩ := s
  unfold StmtKind.loop? at hloop
  split at hloop
  next counter first last step body' heq =>
    obtain rfl : kind = _ := heq
    cases hloop
    refine ⟨_, rfl, ?_⟩
    -- the bounds declare nothing, so the header introduces the counter only
    have hfirst : (Layout.loopStart first
        (Layout.expression ctx.asBound registries first)).own = [] :=
      (Layout.lays_loopStart first first.items_plain.1
        (Layout.lays_expression ctx.asBound first).asBound).own_eq_nil first.items_plain.1
        h.header.left
    have hlast : (Layout.expression ctx.asBound registries last).own = [] :=
      (Layout.lays_expression ctx.asBound last).own_eq_nil last.items_plain.1 h.header.right.left
    have hstep : (Layout.optional ctx.asBound registries step).own = [] :=
      (Layout.lays_optional ctx.asBound step).own_eq_nil (stepItems_plain step).1
        h.header.right.right
    rw [Layout.own, Layout.own, Layout.own, Layout.own, hfirst, hlast, hstep]
    rfl
  next vars' iterator body' heq =>
    obtain rfl : kind = _ := heq
    cases hloop
    refine ⟨_, rfl, ?_⟩
    have hiterated : (Layout.iterated ctx registries iterator).own = [] :=
      (Layout.lays_iterated ctx iterator).own_eq_nil iterator.items_plain.1 h.header.left
    rw [Layout.own, own_bindings, hiterated, List.append_nil]
  · cases hloop

end Scopes

end Emit

end LuaCompiler
