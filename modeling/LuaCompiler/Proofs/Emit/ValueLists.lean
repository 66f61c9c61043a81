import LuaCompiler.Compile
import LuaCompiler.Proofs.Parser.Inverse

/-!
# Lists of values

The last expression of a list can stand for several values. In Lua it does if it is the rest of the
arguments or a call, and does not if it stands in parentheses. The parser leaves out parentheses: a
list with its last expression in parentheses is read as the list without them. So what the code does
with a list goes by the expression alone: the rest of the arguments is spread wherever it is the last
of the values of a `return`, the arguments of a call, the values of several variables or the fields
of a table; a call is taken apart where it is the only value of several variables.

* `takes_wrapped`, `takes_wrappedField`: lists that end in parentheses are read without them.
* `expressions_snoc`: of expressions in a row, only the last can stand for several values.
* `spreads_wrapped`: **what the code does with lists**, whether they end in parentheses or not.
-/

namespace LuaCompiler

open Token (Kind)

/-! ## Reading lists -/

section Reading

open LuaCompiler.Parser

variable {es : List Expr} {x : Expr} {b : Nat}

/-- An expression in parentheses is read as the expression. -/
theorem climbs_wrapped (hx : x.Shaped false) : Climbs (enclosed x.tokens) x 15 14 :=
  (chains_enclosed (x.reading hx).readable.climbs (floor_pos _)).climbs

/-- **Expressions of which the last one stands in parentheses** are read as if it did not. -/
theorem takes_wrapped (hes : ExprsShaped es) (hx : x.Shaped false)
    (hb : 4 * (commaSeparated (exprTokens es ++ [enclosed x.tokens])).length + 1 ≤ b) :
    Takes (expressions b) (commaSeparated (exprTokens es ++ [enclosed x.tokens])) StopsRow
      fun read => exprsBare read = exprsBare (es ++ [x]) := by
  have hrow := takes_row (b := b) (es.map (fun e => (e.tokens, e)) ++ [(enclosed x.tokens, x)])
    (by simp)
  simp only [List.map_append, List.map_map, Function.comp_def, List.map_cons, List.map_nil,
    List.map_id', ← exprTokens_eq] at hrow
  refine hrow ?_ hb
  intro item hitem
  rcases List.mem_append.1 hitem with hitem | hitem
  · obtain ⟨e, he, rfl⟩ := List.mem_map.1 hitem
    exact ⟨_, _, floor_pos _, (exprsReadable es hes e he).climbs⟩
  · rw [List.mem_singleton.1 hitem]
    exact ⟨15, 14, by decide, climbs_wrapped hx⟩

/-- **Fields of which the last one is an expression in parentheses** are read as if it stood in none.
-/
theorem takes_wrappedField {fs : List Field} {bound : Nat} (id : NodeId) (span : Span)
    (hfs : FieldsShaped fs) (hx : x.Shaped false)
    (hb : 4 * (commaSeparated (fieldTokens fs ++ [enclosed x.tokens])).length ≤ b)
    (hbound : fs.length + 1 < bound) :
    Takes (fields (subexpression b 0) bound)
      (commaSeparated (fieldTokens fs ++ [enclosed x.tokens])) (fun k => k = .symbol .rightBrace)
      fun read => fieldsBare read = fieldsBare (fs ++ [⟨id, span, .positional x⟩]) := by
  have hrow := @takes_fieldRow b
    (fs.map (fun f => (f.kind.tokens, f.kind)) ++ [(enclosed x.tokens, .positional x)]) bound
  have hbare : fieldsBare (fs ++ [⟨id, span, .positional x⟩]) =
      fieldsBare fs ++ [⟨0, default, (FieldKind.positional x).bare⟩] := by
    simp [fieldsBare_eq]
  simp only [List.map_append, List.map_map, Function.comp_def, List.map_cons, List.map_nil,
    ← fieldTokens_eq, ← fieldsBare_eq, ← hbare, List.length_append, List.length_map,
    List.length_singleton] at hrow
  refine hrow ?_ hb hbound
  intro item hitem
  rcases List.mem_append.1 hitem with hitem | hitem
  · obtain ⟨f, hf, rfl⟩ := List.mem_map.1 hitem
    exact (fieldsReadable fs hfs f hf).reads
  · rw [List.mem_singleton.1 hitem]
    exact fieldReads_positional (climbs_wrapped hx) (by decide)

end Reading

namespace Emit

variable {ctx : Context} {es : List Expr} {x : Expr} {p : Progress}

/-! ## Expressions in a row -/

theorem expressions_cons (ctx : Context) (role : Role) (e : Expr) {es : List Expr} (h : es ≠ []) :
    expressions ctx role (e :: es) = (do
      let first ← expression ctx .single e
      let rest ← expressions ctx role es
      return first :: rest) := by
  cases es with
  | nil => exact absurd rfl h
  | cons second es => rw [expressions]; simp

theorem expressions_single (ctx : Context) (e : Expr) (es : List Expr) :
    expressions ctx .single (e :: es) = (do
      let first ← expression ctx .single e
      let rest ← expressions ctx .single es
      return first :: rest) := by
  cases es with
  | nil => simp [expressions]
  | cons second es => exact expressions_cons ctx .single e (List.cons_ne_nil _ _)

/-- **Of expressions in a row, only the last can stand for several values.** -/
theorem expressions_snoc (ctx : Context) (role : Role) (es : List Expr) (x : Expr) :
    expressions ctx role (es ++ [x]) = (do
      let front ← expressions ctx .single es
      let last ← expression ctx role x
      return front ++ [last]) := by
  induction es with
  | nil => simp [expressions]
  | cons e es ih =>
    rw [List.cons_append, expressions_cons ctx role e (by simp), ih, expressions_single]
    simp

/-- There is a text for each expression. -/
theorem length_expressions (ctx : Context) (role : Role) (es : List Expr) (p : Progress) :
    ((expressions ctx role es).run p).1.length = es.length := by
  induction es generalizing p with
  | nil => rfl
  | cons e es ih =>
    cases es with
    | nil => rfl
    | cons second es =>
      rw [expressions_cons ctx role e (List.cons_ne_nil _ _)]
      exact congrArg (· + 1) (ih _)

/-- The rest of the arguments, between the comments around it. -/
theorem expression_vararg (hx : x.isVararg = true) (p : Progress) :
    ∃ above behind q, ∀ ctx role,
      (expression ctx role x).run p = (above ++ role.vararg ++ behind, q) := by
  obtain ⟨id, span, kind⟩ := x
  cases kind with
  | vararg =>
    refine ⟨(p.comments.before span).1, ((p.comments.before span).2.after span).1,
      { p with comments := ((p.comments.before span).2.after span).2 }, fun ctx role => ?_⟩
    rw [expression, expressionKind]
    rfl
  | _ => cases hx

/-- **Texts of some values of which the last one is the rest of the arguments, spread.** -/
def SpreadsLast (count : Nat) (texts : List String) : Prop :=
  ∃ front above behind, texts = front ++ [above ++ "...varargs" ++ behind] ∧ front.length = count

theorem exists_spread (ctx : Context) (es : List Expr) (hx : x.isVararg = true) (p : Progress) :
    ∃ texts q, (expressions ctx .spread (es ++ [x])).run p = (texts, q) ∧
      SpreadsLast es.length texts := by
  obtain ⟨above, behind, q, hrest⟩ := expression_vararg hx ((expressions ctx .single es).run p).2
  refine ⟨((expressions ctx .single es).run p).1 ++ [above ++ "...varargs" ++ behind], q, ?_,
    _, above, behind, rfl, length_expressions ctx .single es p⟩
  rw [expressions_snoc]
  exact congrArg (fun r : String × Progress =>
    (((expressions ctx .single es).run p).1 ++ [r.1], r.2)) (hrest ctx .spread)

theorem packText_of_spreads {count : Nat} {texts : List String} (h : SpreadsLast count texts)
    (hcount : count ≠ 0) : packText texts = brackets (commas texts) := by
  obtain ⟨front, above, behind, rfl, hlength⟩ := h
  cases front with
  | nil => exact absurd hlength.symm hcount
  | cons first front =>
    cases front <;> rfl

/-! ## The lists of a program -/

theorem packRole_snoc (es : List Expr) (x : Expr) :
    packRole (es ++ [x]) = if es = [] then .packed else .spread := by
  cases es <;> simp [packRole]

theorem valuesRole_snoc (hx : isMultiValue x = true) (es : List Expr) :
    valuesRole (es ++ [x]) = if es = [] then .packed else .spread := by
  rcases es with _ | ⟨_, _ | ⟨_, _⟩⟩
  · simp [valuesRole, hx]
  all_goals simp [valuesRole]

theorem packValues_snoc (hx : isMultiValue x = true) (es : List Expr) (values : List String) :
    packValues (es ++ [x]) values = packText values := by
  rcases es with _ | ⟨_, _ | ⟨_, _⟩⟩
  · simp [packValues, hx]
  all_goals simp [packValues]

theorem isMultiValue_of_isVararg (hx : x.isVararg = true) : isMultiValue x = true := by
  obtain ⟨id, span, kind⟩ := x
  cases kind with
  | vararg => rfl
  | _ => cases hx

theorem returnText_brackets (text : String) :
    returnText (brackets text) = "return " ++ brackets text := by
  simp [returnText, brackets]

/-- **A `return` in a function.** -/
theorem return_run {id : NodeId} {span : Span} {arguments : List Expr} (hdepth : ctx.functionDepth ≠ 0)
    (htop : ctx.isTop = false) (hfailure : isFailure arguments = false) (p : Progress) :
    (statement ctx id span (.return arguments)).run p =
      (let texts := (expressions ctx (packRole arguments) arguments).run p
       (returnText (packText texts.1), texts.2)) := by
  have hallows : allowsReturn ctx = true := by simp [allowsReturn, hdepth]
  rw [statement, if_pos hallows, returnStatement, hfailure, if_neg (by decide), htop]
  rfl

theorem bind_many (ctx : Context) {targets : Targets} {init : List Expr} (values : List String)
    (h : targets.texts.length ≠ 1 ∨ init.length ≠ 1) :
    bind ctx targets init values = return bindMany targets (packValues init values) := by
  unfold bind
  split
  · simp_all
  · simp_all
  · rfl

/-- **A `local` statement of several variables or several values.** -/
theorem local_run {id : NodeId} {span : Span} {vars : List Identifier} {init : List Expr}
    (hne : init ≠ []) (h : vars.length ≠ 1 ∨ init.length ≠ 1) (p : Progress) :
    (statement ctx id span (.local vars init)).run p =
      (let texts := (expressions ctx.asValue (valuesRole init) init).run p
       ((localTargets ctx id vars).1 ++
          bindMany (localTargets ctx id vars).2 (packValues init texts.1), texts.2)) := by
  have hrole : bindRole vars.length init = valuesRole init := by
    rw [bindRole, if_neg]
    rintro ⟨hvars, hinit⟩
    exact h.elim (absurd hvars) (absurd hinit)
  have htexts : (localTargets ctx id vars).2.texts.length = vars.length := by
    unfold localTargets
    dsimp only
    split <;> simp
  have hcount : (localTargets ctx id vars).2.texts.length ≠ 1 ∨ init.length ≠ 1 :=
    htexts.symm ▸ h
  have hmany (values : List String) := bind_many ctx.asValue values hcount
  have hempty : init.isEmpty = false := by simpa using hne
  rw [statement, localStatement, hrole]
  · rw [localBinding, hempty]
    simp only [Bool.false_eq_true, if_false, hmany]
    rfl
  · rintro v value rfl rfl
    simp at h

/-- **A call or the rest of the arguments as the only value of several variables** is taken apart. -/
theorem local_multi_run {id : NodeId} {span : Span} {vars : List Identifier} (hvars : vars.length ≠ 1)
    (hx : isMultiValue x = true) (p : Progress) :
    (statement ctx id span (.local vars [x])).run p =
      (let text := (expression ctx.asValue .packed x).run p
       ((localTargets ctx id vars).1 ++ bindMany (localTargets ctx id vars).2 text.1, text.2)) := by
  have hrole : valuesRole [x] = .packed := by simp [valuesRole, hx]
  have hpack (values : List String) : packValues [x] values = packText values := by
    simp [packValues, hx]
  rw [local_run (List.cons_ne_nil _ _) (.inl hvars), hrole]
  dsimp only
  rw [hpack, expressions]
  rfl

/-- **A call of no pattern.** -/
theorem genericCall_run (role : Role) (id : NodeId) {base : Expr} (style : CallStyle)
    {arguments : List Expr} (hpattern : patternAt ctx ⟨base, arguments⟩ = .generic) (p : Progress) :
    ∃ callee, (expressionKind ctx role id (.call base style arguments)).run p =
      (let texts := (expressions ctx .spread arguments).run ((expression ctx .single base).run p).2
       (callText callee texts.1, texts.2)) := by
  rw [expressionKind, call, hpattern]
  exact ⟨_, rfl⟩

/-- **Fields without keys** are lowered as the row of their values. -/
theorem entries_positional (ctx : Context) {fs : List Field} {values : List Expr}
    (h : fs.map Field.kind = values.map FieldKind.positional) (role : Role) (p : Progress) :
    (let entries := (entries ctx role fs).run p
     (entries.1.map Entry.value, entries.2)) = (expressions ctx role values).run p := by
  induction fs generalizing values p with
  | nil =>
    obtain rfl : values = [] := by simpa using h.symm
    rfl
  | cons f fs ih =>
    cases values with
    | nil => cases h
    | cons value values =>
      obtain ⟨id, span, kind⟩ := f
      obtain ⟨rfl, hrest⟩ := List.cons.inj h
      -- both sides lower the last value by its own role
      have hentries : fs.isEmpty = values.isEmpty := by
        have hlength := congrArg List.length hrest
        cases fs <;> cases values <;> simp_all
      have htail := ih hrest
      rw [entries, entry, hentries]
      cases values with
      | nil =>
        obtain rfl : fs = [] := by simpa using hrest
        rfl
      | cons second values =>
        rw [expressions_cons ctx role value (List.cons_ne_nil _ _)]
        have hfirst := htail ((expression ctx .single value).run p).2
        have hsplit := Prod.mk.inj hfirst
        exact Prod.ext (congrArg (_ :: ·) hsplit.1) hsplit.2

/-- **A table of fields without keys, of which the last one is the rest of the arguments.** -/
theorem table_run {role : Role} {id : NodeId} {fs : List Field}
    (h : fs.map Field.kind = (es ++ [x]).map FieldKind.positional) (hx : x.isVararg = true)
    (p : Progress) :
    (expressionKind ctx role id (.table fs)).run p =
      (let texts := (expressions ctx .spread (es ++ [x])).run p
       ("l2j.convertJsArrayToLuaTable" ++ parens (brackets (commas texts.1)), texts.2)) := by
  have hspreads : spreadsFields fs = true := by
    have hall : fs.all (·.kind.isPositional) = true := by
      have hkinds : (fs.map Field.kind).all FieldKind.isPositional = true := by
        rw [h]
        simp [FieldKind.isPositional]
      simpa [List.all_map, Function.comp_def] using hkinds
    have hlast : (fs.map Field.kind).getLast? = some (.positional x) := by
      rw [h]
      simp
    rw [List.getLast?_map, Option.map_eq_some_iff] at hlast
    obtain ⟨f, hf, hkind⟩ := hlast
    rw [spreadsFields, hall, hf, Bool.true_and, Option.any_some, hkind]
    exact hx
  have hentries := entries_positional ctx h .spread p
  rw [expressionKind, hspreads, if_pos rfl]
  rw [← hentries]
  simp only [tableText, hspreads, if_true]
  rfl

/-- **What becomes of lists that end in the rest of the arguments**: it is spread behind other values
and between the arguments of a call, and is an array where it stands alone for several values. Only
one variable alone takes one value of it. -/
structure SpreadsRest (ctx : Context) (es : List Expr) (x : Expr) : Prop where
  arguments : ∀ role id base style p, patternAt ctx ⟨base, es ++ [x]⟩ = .generic →
    ∃ callee texts q, (expressionKind ctx role id (.call base style (es ++ [x]))).run p =
      (callText callee texts, q) ∧ SpreadsLast es.length texts
  returned : ∀ id span p, ctx.functionDepth ≠ 0 → ctx.isTop = false →
    isFailure (es ++ [x]) = false → es ≠ [] →
    ∃ texts q, (statement ctx id span (.return (es ++ [x]))).run p =
      ("return " ++ brackets (commas texts), q) ∧ SpreadsLast es.length texts
  returnedAlone : ∀ id span p, ctx.functionDepth ≠ 0 → ctx.isTop = false → es = [] →
    ∃ above behind q, (statement ctx id span (.return (es ++ [x]))).run p =
      (returnText (above ++ "[...varargs]" ++ behind), q)
  bound : ∀ id span vars p, es ≠ [] →
    ∃ texts q, (statement ctx id span (.local vars (es ++ [x]))).run p =
      ((localTargets ctx id vars).1 ++
        bindMany (localTargets ctx id vars).2 (brackets (commas texts)), q) ∧
      SpreadsLast es.length texts
  boundAlone : ∀ id span vars p, es = [] → vars.length ≠ 1 →
    ∃ above behind q, (statement ctx id span (.local vars (es ++ [x]))).run p =
      ((localTargets ctx id vars).1 ++
        bindMany (localTargets ctx id vars).2 (above ++ "[...varargs]" ++ behind), q)
  boundOnce : ∀ p, es = [] → ∃ above behind q,
    (expressions ctx.asValue (bindRole 1 (es ++ [x])) (es ++ [x])).run p =
      ([above ++ "varargs[0]" ++ behind], q)
  table : ∀ role id fs p, fs.map Field.kind = (es ++ [x]).map FieldKind.positional →
    ∃ texts q, (expressionKind ctx role id (.table fs)).run p =
      ("l2j.convertJsArrayToLuaTable" ++ parens (brackets (commas texts)), q) ∧
      SpreadsLast es.length texts

theorem spreadsRest (ctx : Context) (es : List Expr) (hx : x.isVararg = true) :
    SpreadsRest ctx es x where
  arguments role id base style p hpattern := by
    obtain ⟨callee, hrun⟩ := genericCall_run role id style hpattern p
    obtain ⟨texts, q, htexts, hspreads⟩ :=
      exists_spread ctx es hx ((expression ctx .single base).run p).2
    exact ⟨callee, texts, q, by rw [hrun, htexts], hspreads⟩
  returned id span p hdepth htop hfailure hes := by
    obtain ⟨texts, q, htexts, hspreads⟩ := exists_spread ctx es hx p
    have hcount : es.length ≠ 0 := by simpa using hes
    refine ⟨texts, q, ?_, hspreads⟩
    rw [return_run hdepth htop hfailure, packRole_snoc, if_neg hes, htexts]
    dsimp only
    rw [packText_of_spreads hspreads hcount, returnText_brackets]
  -- alone in its list, the rest of the arguments is the one value that is packed
  returnedAlone id span p hdepth htop hes := by
    subst hes
    obtain ⟨above, behind, q, hrest⟩ := expression_vararg hx p
    refine ⟨above, behind, q, ?_⟩
    rw [return_run hdepth htop rfl, packRole_snoc, if_pos rfl, expressions_snoc]
    exact congrArg (fun r : String × Progress => (returnText r.1, r.2)) (hrest ctx .packed)
  bound id span vars p hes := by
    have hmulti := isMultiValue_of_isVararg hx
    obtain ⟨texts, q, htexts, hspreads⟩ := exists_spread ctx.asValue es hx p
    have hcount : es.length ≠ 0 := by simpa using hes
    refine ⟨texts, q, ?_, hspreads⟩
    rw [local_run (by simp) (.inr (by simpa using hes)), valuesRole_snoc hmulti, if_neg hes, htexts]
    dsimp only
    rw [packValues_snoc hmulti, packText_of_spreads hspreads hcount]
  boundAlone id span vars p hes hvars := by
    subst hes
    obtain ⟨above, behind, q, hrest⟩ := expression_vararg hx p
    refine ⟨above, behind, q, ?_⟩
    rw [List.nil_append, local_multi_run hvars (isMultiValue_of_isVararg hx), hrest]
    rfl
  boundOnce p hes := by
    subst hes
    obtain ⟨above, behind, q, hrest⟩ := expression_vararg hx p
    refine ⟨above, behind, q, ?_⟩
    rw [List.nil_append, bindRole, if_pos ⟨rfl, rfl⟩]
    exact congrArg (fun r : String × Progress => ([r.1], r.2)) (hrest ctx.asValue .single)
  table role id fs p hfs := by
    obtain ⟨texts, q, htexts, hspreads⟩ := exists_spread ctx es hx p
    exact ⟨texts, q, by rw [table_run hfs hx, htexts], hspreads⟩

end Emit

open Emit (SpreadsRest) in
/-- **What the code does with lists that end in parentheses.** A list of expressions whose last one
stands in parentheses, and the fields of a table whose last one does, are read as if it did not. So
the rest of the arguments in parentheses is spread as `SpreadsRest` says, and a call in parentheses
that is the only value of several variables is taken apart. -/
theorem spreads_wrapped {es : List Expr} {x : Expr} (hes : ExprsShaped es) (hx : x.Shaped false) :
    (∀ b, 4 * (commaSeparated (exprTokens es ++ [enclosed x.tokens])).length + 1 ≤ b →
      Parser.Takes (Parser.expressions b) (commaSeparated (exprTokens es ++ [enclosed x.tokens]))
        Parser.StopsRow fun read => exprsBare read = exprsBare (es ++ [x])) ∧
    (∀ fs b bound id span, FieldsShaped fs →
      4 * (commaSeparated (fieldTokens fs ++ [enclosed x.tokens])).length ≤ b →
      fs.length + 1 < bound →
      Parser.Takes (Parser.fields (Parser.subexpression b 0) bound)
        (commaSeparated (fieldTokens fs ++ [enclosed x.tokens])) (fun k => k = .symbol .rightBrace)
        fun read => fieldsBare read = fieldsBare (fs ++ [⟨id, span, .positional x⟩])) ∧
    (x.isVararg = true → ∀ ctx, SpreadsRest ctx es x) ∧
    (x.isCall = true → ∀ (ctx : Emit.Context) id span (vars : List Identifier) p, vars.length ≠ 1 →
      (Emit.statement ctx id span (.local vars [x])).run p =
        (let text := (Emit.expression ctx.asValue .packed x).run p
         ((Emit.localTargets ctx id vars).1 ++
            Emit.bindMany (Emit.localTargets ctx id vars).2 text.1, text.2))) := by
  refine ⟨fun b hb => takes_wrapped hes hx hb, ?_, fun hvararg ctx => Emit.spreadsRest ctx es hvararg,
    ?_⟩
  · intro fs b bound id span hfs hb hbound
    exact takes_wrappedField id span hfs hx hb hbound
  · intro hcall ctx id span vars p hvars
    -- the tree does not keep the parentheses, so the call is one of several values
    have hmulti : Emit.isMultiValue x = true := by
      obtain ⟨xid, xspan, kind⟩ := x
      cases kind with
      | call => rfl
      | _ => cases hcall
    exact Emit.local_multi_run hvars hmulti p

/-- Arguments of which the last one stands in parentheses: a name, and the rest of the arguments. -/
def wrappedArguments : List Expr × Expr :=
  ([⟨0, default, .name "a"⟩], ⟨1, default, .vararg⟩)

theorem spreads_wrapped_arguments :
    ExprsShaped wrappedArguments.1 ∧ wrappedArguments.2.Shaped false ∧
      Parser.Takes (Parser.expressions 21)
        [.name "a", .symbol .comma, .symbol .leftParen, .symbol .ellipsis, .symbol .rightParen]
        Parser.StopsRow (fun read =>
          exprsBare read = exprsBare [⟨0, default, .name "a"⟩, ⟨1, default, .vararg⟩]) ∧
      ∀ ctx, Emit.SpreadsRest ctx wrappedArguments.1 wrappedArguments.2 := by
  have hname : Name.isValid "a" = true := by decide +kernel
  have hes : ExprsShaped wrappedArguments.1 := ⟨hname, trivial⟩
  have hx : wrappedArguments.2.Shaped false := trivial
  obtain ⟨htakes, -, hspreads, -⟩ := spreads_wrapped hes hx
  exact ⟨hes, hx, htakes 21 (by decide), hspreads rfl⟩

/-- **Parentheses leave no trace**: around the rest of the arguments they do not keep the code from
spreading it, around a call they do not keep it from taking the call apart. -/
example :
    (compile .keep "local function f(...) return (...) end local a, b = (f())" "Game/UI/test.lua"
      .empty {}).1.code =
      "function f(...varargs){return [...varargs]};
let [a, b] = f()" ∧
    (compile .keep "local function f(...) return ... end local a, b = f()" "Game/UI/test.lua"
      .empty {}).1.code =
      "function f(...varargs){return [...varargs]};
let [a, b] = f()" := by
  repeat rw [compile, parse_ofList]
  decide +kernel

end LuaCompiler
