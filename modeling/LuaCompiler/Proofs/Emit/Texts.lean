import LuaCompiler.Proofs.Emit.Leaves

/-!
# The texts of the rules

For every rule that puts a text together, the layout of the text: if the parts are rendered as some
layouts say, then the text that the rule makes of them is rendered as the rule's layout says.

* `RendersEntries`, `RendersClass`, `RendersFunction`, `RendersMember`: parts that are not yet texts.
-/

namespace LuaCompiler.Emit

open Script (Plain)

variable {K : List String} {a b c l : Layout} {q q' q'' q₃ : CommentQueue} {s t u v : String}
  {ts us : List String} {ctx : Context}

/-- Two texts with plain text between. -/
theorem Renders.between (ha : Renders K a q t q') (hs : Plain s) (hb : Renders K b q' u q'') :
    Renders K (.append a b) q (t ++ s ++ u) q'' :=
  .append (ha.behind hs) hb

/-- The brackets around a base are text of the rule. -/
theorem Renders.asBase (h : Renders K l q t q') (base : Expr) :
    Renders K l q (Emit.asBase base t) q' := by
  unfold Emit.asBase
  split
  all_goals first | exact h.parens | exact h

/-! ## Operators -/

theorem plain_operatorSign (operator : BinaryOperator) :
    Plain (" " ++ operatorSign operator ++ " ") := by
  cases operator <;> decide

/-- Operands are written in their order. -/
theorem Renders.nativeBinary (ha : Renders K a q t q') (hb : Renders K b q' u q'')
    (operator : BinaryOperator) :
    Renders K (.append a b) q (Emit.nativeBinary operator t u) q'' := by
  unfold Emit.nativeBinary
  split
  · exact (ha.between (by decide) hb).parens.before (by decide)
  · have h := ha.between (plain_operatorSign operator) hb
    rw [← String.append_assoc, ← String.append_assoc] at h
    exact h.parens

/-- The functions that operators call are plain. -/
theorem plain_operatorFunction {operator : BinaryOperator} {function : String}
    (h : operatorFunction? operator = some function) : Plain function := by
  cases operator <;> cases h <;> decide

/-- Operands are written in their order whether the operator is a sign or a call. -/
theorem Renders.binaryText (ha : Renders K a q t q') (hb : Renders K b q' u q'') (ctx : Context)
    (operator : BinaryOperator) (hasString : Bool) :
    Renders K (.append a b) q (Emit.binaryText ctx operator hasString t u) q'' := by
  unfold Emit.binaryText
  split
  next function hfunction =>
    have hname : operatorFunction? operator = some function := by
      split at hfunction
      · exact hfunction
      · cases hfunction
    exact RendersRow.arguments (.cons ha (.single hb)) (plain_operatorFunction hname)
  · exact ha.nativeBinary hb operator

/-- The operand is written once. -/
theorem Renders.unaryText (h : Renders K l q t q') (ctx : Context) (operator : UnaryOperator) :
    Renders K l q (Emit.unaryText ctx operator t) q' := by
  cases operator with
  | not => exact h.before (by decide)
  | len => exact RendersRow.arguments (.single h) (by decide)
  | bitNot => exact h.before (by decide)
  | neg =>
    unfold Emit.unaryText
    dsimp only
    split_ifs
    · exact RendersRow.arguments (.single h) (by decide)
    · exact h.parens.before (by decide)
    · exact h.before (by decide)

/-- A left operand that is repeatable may be written twice. -/
theorem Renders.logicalText (ha : Renders K a q t q') (hb : Renders K b q' u q'') (ctx : Context)
    (operator : LogicalOperator) (repeatable : Bool) :
    Renders K (Layout.logical ctx operator repeatable a b) q
      (Emit.logicalText ctx operator repeatable t u) q'' := by
  have hcondition : Wraps t ("l2j.condition" ++ Emit.parens t) :=
    .before (by decide) (.parens .same)
  unfold Emit.logicalText Layout.logical
  cases ctx.valueContext with
  | false =>
    have hsign : Plain (" " ++ logicalSign operator ++ " ") := by cases operator <;> decide
    have h := ha.between hsign hb
    rw [← String.append_assoc, ← String.append_assoc] at h
    exact h.parens
  | true =>
    unfold logicalValue
    cases operator <;> cases repeatable
    · exact RendersRow.arguments (.cons ha (.single (hb.parens.before (by decide)))) (by decide)
    · -- the left operand is read again behind the right one
      have h := Renders.enclosing ha ((hb.before (s := " ? ") (by decide)).behind (s := " : ")
        (by decide)) hcondition .same
      rw [← String.append_assoc, ← String.append_assoc] at h
      exact h.parens
    · exact RendersRow.arguments (.cons ha (.single (hb.parens.before (by decide)))) (by decide)
    · -- the left operand is read again before the right one
      have h := (Renders.twice ha hcondition (.before (a := " ? ") (by decide) .same)).between
        (s := " : ") (by decide) hb
      rw [← String.append_assoc] at h
      exact h.parens

/-- The three parts of a choice are written in their order. -/
theorem Renders.conditionalText (ha : Renders K a q t q') (hb : Renders K b q' u q'')
    (hc : Renders K c q'' v q₃) :
    Renders K (.append (.append a b) c) q (Emit.conditionalText t u v) q₃ := by
  have hconsequent := (ha.parens.before (s := "l2j.condition") (by decide)).between (s := " ? ")
    (by decide) hb.parens
  exact (hconsequent.between (by decide) hc.parens).parens

/-! ## Members, tables and lists -/

/-- A member is written behind what it is taken from. -/
theorem Renders.memberText (h : Renders K l q t q') {identifier : Identifier}
    (hname : Name.isValid identifier.name = true) :
    Renders K l q (Emit.memberText t identifier) q' :=
  (h.behind (by decide)).behind
    (Script.plain_of_quiet (Name.quiet_asProperty (Name.quiet_of_isValid hname)))

/-- Values are packed in their order. -/
theorem RendersRow.packText (h : RendersRow K l q ts q') : Renders K l q (Emit.packText ts) q' := by
  unfold Emit.packText
  split
  · exact h.commas
  · exact h.only
  · exact h.commas.brackets

/-- The entry of a field is put together as a layout says. -/
inductive RendersEntry (K : List String) :
    FieldKind → Layout → CommentQueue → Entry → CommentQueue → Prop where
  | positional {q q' : CommentQueue} {l : Layout} {e : Expr} {t : String}
    (h : Renders K l q t q') : RendersEntry K (.positional e) l q (.positional t) q'
  | named {q q' : CommentQueue} {l : Layout} {e : Expr} {key : Identifier} {k t : String}
    (hk : Plain k) (h : Renders K l q t q') : RendersEntry K (.named key e) l q (.named k t) q'
  | keyed {q q' q'' : CommentQueue} {a b : Layout} {key e : Expr} {k t : String}
    (hk : Renders K a q k q') (h : Renders K b q' t q'') :
    RendersEntry K (.keyed key e) (.append a b) q (.computed k t) q''

/-- The entries of fields are put together as a layout says. -/
inductive RendersEntries (K : List String) :
    List Field → Layout → CommentQueue → List Entry → CommentQueue → Prop where
  | nil {q : CommentQueue} : RendersEntries K [] .blank q [] q
  | cons {q q' q'' : CommentQueue} {a b : Layout} {field : Field} {fields : List Field}
    {entry : Entry} {entries : List Entry} (ha : RendersEntry K field.kind a q entry q')
    (hb : RendersEntries K fields b q' entries q'') :
    RendersEntries K (field :: fields) (.append a b) q (entry :: entries) q''

variable {fields : List Field} {entries : List Entry}

/-- The values of positional fields are in their order. -/
theorem RendersEntries.values (h : RendersEntries K fields l q entries q')
    (hall : fields.all (·.kind.isPositional) = true) :
    RendersRow K l q (entries.map Entry.value) q' := by
  induction h with
  | nil => exact .nil
  | @cons q q' q'' a b field fields entry entries ha hb ih =>
    rw [List.all_cons, Bool.and_eq_true] at hall
    obtain ⟨id, span, kind⟩ := field
    refine .cons ?_ (ih hall.2)
    cases ha with
    | positional h => exact h
    | named => cases hall.1
    | keyed => cases hall.1

/-- Entries are written in their order, however they are counted. -/
theorem RendersEntries.texts (h : RendersEntries K fields l q entries q') (n : Nat) :
    RendersRow K l q (entryTexts n entries) q' := by
  induction h generalizing n with
  | nil => exact .nil
  | @cons q q' q'' a b field fields entry entries ha hb ih =>
    obtain ⟨id, span, kind⟩ := field
    cases ha with
    | positional h =>
      have hnumber := Script.plain_of_quiet (quiet_toString n)
      exact .cons (h.before (hnumber.append_plain (by decide))) (ih (n + 1))
    | named hk h => exact .cons (h.before (hk.append_plain (by decide))) (ih n)
    | keyed hk h => exact .cons (hk.brackets.between (by decide) h) (ih n)

/-- A table writes its entries in braces, unless it spreads the last. -/
theorem RendersEntries.tableText (h : RendersEntries K fields l q entries q') :
    Renders K (if spreadsFields fields then l else .braces false l) q
      (Emit.tableText fields entries) q' := by
  unfold Emit.tableText
  split
  next hspread =>
    rw [spreadsFields, Bool.and_eq_true] at hspread
    exact (h.values hspread.1).commas.brackets.parens.before (by decide)
  · exact .braces (h.texts 1).commas

/-! ## Classes -/

/-- Members and parent of a class are put together as a layout says. -/
def RendersClass (K : List String) (l : Layout) (q : CommentQueue)
    (body : List String × Option String) (q' : CommentQueue) : Prop :=
  ∃ members parent middle, l = .swapped (.braces false members) parent ∧
    RendersRow K members q body.1 middle ∧ Renders K parent middle (body.2.getD "") q'

variable {body : List String × Option String}

/-- The text of a class behind its name. -/
theorem RendersClass.text (h : RendersClass K l q body q') (hs : Plain s) :
    Renders K l q (s ++ (body.2.map (" extends " ++ ·)).getD "" ++ " " ++
      braced ("\n" ++ "\n".intercalate body.1 ++ "\n")) q' := by
  obtain ⟨members, parent, middle, rfl, hmembers, hparent⟩ := h
  have hbody : Renders K (.braces false members) q
      (braced ("\n" ++ "\n".intercalate body.1 ++ "\n")) middle :=
    .braces (((hmembers.intercalate (by decide)).before (by decide)).behind (by decide))
  have hheading : Renders K parent middle (s ++ (body.2.map (" extends " ++ ·)).getD "") q' := by
    cases hbody : body.2 with
    | none =>
      rw [hbody] at hparent
      exact hparent.before hs
    | some text =>
      rw [hbody] at hparent
      exact (hparent.before (by decide)).before hs
  exact .swapped hbody (hheading.behind (by decide))

/-- A class writes its parent before its members, which were made first. -/
theorem RendersClass.classText (h : RendersClass K l q body q') :
    Renders K l q (Emit.classText none body.2 body.1) q' := by
  have htext := h.text (s := "class") (by decide)
  simpa [Emit.classText] using htext

/-- So does a class with a name. -/
theorem RendersClass.namedText (h : RendersClass K l q body q') {name : String}
    (hname : Plain name) : Renders K l q (Emit.classText (some name) body.2 body.1) q' := by
  have htext := h.text (s := "class" ++ (" " ++ name))
    (Script.Closed.plain_append (by decide) (Script.Closed.plain_append (by decide) hname))
  simpa [Emit.classText, String.append_assoc] using htext

theorem rendersClass_empty : RendersClass K Layout.emptyClass q ([], none) q :=
  ⟨.blank, .blank, q, rfl, .nil, .blank Script.plain_empty⟩

/-! ## Functions -/

/-- Parameters and body of a function are put together as a layout says. -/
def RendersFunction (K : List String) (l : Layout) (q : CommentQueue) (f : FunctionText)
    (q' : CommentQueue) : Prop :=
  ∃ reception header body, l = .callable reception header (.braces true body) ∧
    Renders K header q f.parameters q ∧ Renders K body q f.body q'

variable {f : FunctionText}

/-- The text of a function behind its name. -/
theorem RendersFunction.text (h : RendersFunction K l q f q') (hs : Plain s) :
    Renders K l q (parens f.parameters ++ s ++ braced f.body) q' := by
  obtain ⟨reception, header, body, rfl, hheader, hbody⟩ := h
  exact .callable hheader hs (.braces hbody)

/-- A function is written as an expression. -/
theorem RendersFunction.expression (h : RendersFunction K l q f q') :
    Renders K l q f.expression q' := by
  have htext := (h.text (s := "") Script.plain_empty).before (s := "function ") (by decide)
  simpa [FunctionText.expression, String.append_assoc] using htext

/-- A function is written behind its name. -/
theorem RendersFunction.named (ha : Renders K a q t q') (h : RendersFunction K l q' f q'')
    (ht : Plain t) (isLocal : Bool) :
    Renders K (.append a l) q (f.named t isLocal false) q'' := by
  have hbody := h.text (s := "") Script.plain_empty
  have hdeclaration := Renders.append (ha.before (s := "function ") (by decide)) hbody
  have htail : Plain ("\n_G." ++ t ++ " = " ++ t ++ ";\n") :=
    ((((Script.Closed.plain_append (by decide) ht).append_plain (by decide)).append_plain
      ht).append_plain (by decide))
  unfold FunctionText.named
  cases isLocal with
  | true => simpa [String.append_assoc] using hdeclaration
  | false => simpa [String.append_assoc] using hdeclaration.behind htail

/-- One that redeclares its name is assigned to it, and binds nothing. -/
theorem RendersFunction.renamed (h : RendersFunction K l q f q') (ht : Plain t) :
    Renders K (.append .blank l) q (f.named t true true) q' :=
  .append (.blank (ht.append_plain (by decide))) h.expression

/-- A function is assigned to a member of its owner. -/
theorem RendersFunction.assigned (ha : Renders K a q t q') (h : RendersFunction K l q' f q'')
    (convention : Convention) {identifier : Identifier}
    (hname : Name.isValid identifier.name = true) :
    Renders K (.append a l) q (f.assigned convention t identifier) q'' := by
  have hproperty := Script.plain_of_quiet (Name.quiet_asProperty (Name.quiet_of_isValid hname))
  have howner : Renders K a q (if convention.onInstances then t ++ ".prototype" else t) q' := by
    split
    · exact ha.behind (by decide)
    · exact ha
  exact .append (((howner.behind (by decide)).behind hproperty).behind (by decide)) h.expression

/-- A text for a key is put together from the key as it is written and what a layout says. -/
def RendersMember (K : List String) (key : String) (l : Layout) (q : CommentQueue) (t : String)
    (q' : CommentQueue) : Prop :=
  ∃ front rest, t = front ++ key ++ rest ∧ Plain front ∧ Renders K l q rest q'

/-- A method is written behind its key. -/
theorem RendersFunction.member (h : RendersFunction K l q f q') (convention : Convention)
    (key : String) : RendersMember K key l q (f.member convention key) q' := by
  refine ⟨if convention.receiver == some "cls" then "static " else "",
    parens f.parameters ++ " " ++ braced f.body, ?_, ?_, h.text (by decide)⟩
  · simp [FunctionText.member, String.append_assoc]
  · split <;> decide

theorem RendersMember.text {key : String} (h : RendersMember K key l q t q') (hkey : Plain key) :
    Renders K l q t q' := by
  obtain ⟨front, rest, rfl, hfront, hrest⟩ := h
  exact hrest.before (hfront.append_plain hkey)

/-- A computed key is written before the member. -/
theorem RendersMember.computed {key : String} (ha : Renders K a q key q')
    (h : RendersMember K key l q' t q'') : Renders K (.append a l) q t q'' := by
  obtain ⟨front, rest, rfl, hfront, hrest⟩ := h
  exact .append (ha.before hfront) hrest

/-! ## Bindings -/

/-- Variables are bound in their order. -/
theorem rendersRow_bindings {vars : List Identifier} (h : ctx.Tame) (hvars : NamesValid vars)
    (q : CommentQueue) : RendersRow K (Layout.bindings ctx vars) q (vars.map ctx.declaredName) q := by
  refine rendersRow_row (List.forall₂_map_left_iff.2 (List.forall₂_map_right_iff.2 ?_)) q
  exact List.forall₂_same.2 fun v hv _ => .binding (h.declaredName (hvars v hv))

/-- Parameters are bound in their order, and then the varargs. -/
theorem renders_parameters (h : ctx.Tame) {shown : List Identifier} (hshown : NamesValid shown)
    (isVararg : Bool) (q : CommentQueue) :
    Renders K (Layout.parameters ctx shown isVararg) q (parameterText ctx shown isVararg) q := by
  have hnames : List.Forall₂ (fun l t => ∀ q, Renders K l q t q)
      (shown.map fun v => Layout.binding v.id (ctx.declaredName v)) (shown.map ctx.declaredName) :=
    List.forall₂_map_left_iff.2 (List.forall₂_map_right_iff.2
      (List.forall₂_same.2 fun v hv _ => .binding (h.declaredName (hshown v hv))))
  have hrest : List.Forall₂ (fun l t => ∀ q, Renders K l q t q)
      (if isVararg then [Layout.blank] else []) (if isVararg then ["...varargs"] else []) := by
    split
    · exact .cons (fun _ => .blank (by decide)) .nil
    · exact .nil
  exact (rendersRow_row (List.rel_append hnames hrest) q).commas

/-- A function writes its parameters and its body. -/
theorem renders_functionText (h : ctx.Tame) {convention : Convention} {reception : Reception}
    (hshown : NamesValid convention.shown) (isVararg captured : Bool)
    (hbody : RendersRow K l q ts q') :
    RendersFunction K (.callable reception (Layout.parameters ctx convention.shown isVararg)
      (.braces true l)) q (functionText ctx convention isVararg captured ts) q' := by
  refine ⟨_, _, _, rfl, renders_parameters h hshown isVararg q, ?_⟩
  refine hbody.sequence.before ?_
  split <;> decide

/-! ## Statements -/

/-- A condition and the block behind it. -/
theorem Renders.ifText (ha : Renders K a q t q') (hb : Renders K b q' u q'') :
    Renders K (.append a (.braces true b)) q (Emit.ifText t u) q'' := by
  exact (ha.parens.before (by decide)).between (by decide) (.braces hb)

theorem Renders.elseIfText (ha : Renders K a q t q') (hb : Renders K b q' u q'') :
    Renders K (.append a (.braces true b)) q (Emit.elseIfText t u) q'' :=
  (ha.ifText hb).before (by decide)

theorem Renders.elseText (h : Renders K l q t q') :
    Renders K (.braces true l) q (Emit.elseText t) q' :=
  (Renders.braces h).before (by decide)

theorem Renders.whileText (ha : Renders K a q t q') (hb : Renders K b q' u q'') :
    Renders K (.append a (.braces true b)) q (Emit.whileText t u) q'' :=
  (ha.parens.before (by decide)).between (by decide) (.braces hb)

/-- The condition stands outside the braces of the body. -/
theorem Renders.repeatText (ha : Renders K a q t q') (hb : Renders K b q' u q'') :
    Renders K (.loopUntil a b) q (Emit.repeatText t u) q'' := by
  have hcondition := (hb.parens.before (s := "!") (by decide)).parens.before (s := " while ")
    (by decide)
  have h := (Renders.loopUntil ha hcondition).before (s := "do ") (by decide)
  simpa [Emit.repeatText, String.append_assoc] using h

/-- The clauses of a conditional: each but the first stands on a line of its own. -/
theorem RendersRow.lines (h : RendersRow K l q ts q') :
    Renders K l q (String.join (ts.map ("\n" ++ ·))) q' := by
  induction h with
  | nil => exact .blank Script.plain_empty
  | single h => simpa using h.before (s := "\n") (by decide)
  | cons ha hb ih =>
    rw [List.map_cons, String.join_cons]
    exact .append (ha.before (by decide)) ih

/-- Lines are the first and each other behind a break. -/
theorem intercalate_eq_join (first : String) (rest : List String) :
    "\n".intercalate (first :: rest) = first ++ String.join (rest.map ("\n" ++ ·)) := by
  induction rest generalizing first with
  | nil => simp
  | cons second rest ih =>
    rw [String.intercalate_cons_cons, ih second, List.map_cons, String.join_cons]
    simp [String.append_assoc]

/-- The clauses of a conditional are written in their order. -/
theorem Renders.conditional (ha : Renders K a q t q') (hb : RendersRow K b q' ts q'')
    (hc : RendersRow K c q'' us q₃) :
    Renders K (.append a (.append b c)) q ("\n".intercalate (t :: ts ++ us)) q₃ := by
  have h := Renders.append ha (.append hb.lines hc.lines)
  rw [List.cons_append, intercalate_eq_join, List.map_append, String.join_append]
  exact h

/-- The start of a loop over numbers. -/
theorem Renders.loopStart (h : Renders K l q t q') (first : Expr) :
    Renders K (Layout.loopStart first l) q (if first.isNumber .one then "0" else t) q' := by
  unfold Layout.loopStart
  split
  · exact .dropped h (by decide)
  · exact h

/-- A loop with a header in parentheses. -/
theorem Renders.loop (ha : Renders K a q t q') (hb : Renders K b q' u q'') :
    Renders K (.region a (.braces true b)) q ("for " ++ Emit.parens t ++ " " ++ braced u) q'' := by
  have hbody : Renders K (.braces true b) q' (braced u) q'' := .braces hb
  have h := (Renders.region ha (by decide : Plain " ") hbody).before (s := "for ") (by decide)
  rwa [← String.append_assoc, ← String.append_assoc] at h

/-- A start that is one is thrown away; the bounds are written in their order. -/
theorem renders_forNumeric {name : String} {id : NodeId} {start body : Layout}
    {firstText lastText stepText bodyText : String} {q₄ : CommentQueue} (hname : Plain name)
    (first : Expr) (step : Option Expr) (hfirst : Renders K start q firstText q')
    (hlast : Renders K a q' lastText q'') (hstep : Renders K b q'' stepText q₃)
    (hbody : Renders K body q₃ bodyText q₄) :
    Renders K (.region (.append (.binding id name) (.append (Layout.loopStart first start)
        (.append a b))) (.braces true body)) q
      (forNumericHeader name first step firstText lastText stepText ++ " " ++ braced bodyText) q₄ := by
  set compare := (if step.any isNegative then ">" else "<") ++
    (if first.isNumber .one then "" else "=") with hcompare
  have hsign : Plain compare := by
    rw [hcompare]
    split <;> split <;> decide
  have hlast' := hlast.before (s := "; " ++ name ++ " " ++ compare ++ " ")
    ((((Script.Closed.plain_append (by decide) hname).append_plain (by decide)).append_plain
      hsign).append_plain (by decide))
  have hstep' := hstep.before (s := "; " ++ name ++ " = " ++ name ++ " + ")
    ((((Script.Closed.plain_append (by decide) hname).append_plain (by decide)).append_plain
      hname).append_plain (by decide))
  have hstart := (hfirst.loopStart first).before (s := " = ") (by decide)
  have hbinding : Renders K (.binding id name) q ("let " ++ name) q :=
    (Renders.binding hname).before (by decide)
  have h := (Renders.append hbinding (.append hstart (.append hlast' hstep'))).loop hbody
  simpa [forNumericHeader, ← hcompare, String.append_assoc] using h

/-- A generic loop writes its variables and what it runs over. -/
theorem renders_forGeneric (h : ctx.Tame) {vars : List Identifier} (hvars : NamesValid vars)
    (ha : Renders K a q t q') (hb : Renders K b q' u q'') :
    Renders K (.region (.append (Layout.bindings ctx vars) a) (.braces true b)) q
      (forGenericText ctx vars t u) q'' := by
  have hrow := rendersRow_bindings (K := K) h hvars q
  obtain ⟨target, htext, htarget⟩ : ∃ target, forGenericText ctx vars t u =
      "for " ++ parens ("let " ++ target ++ " of " ++ t) ++ " " ++ braced u ∧
        Renders K (Layout.bindings ctx vars) q target q := by
    refine ⟨_, rfl, ?_⟩
    split
    next only honly => simpa [honly, commas] using hrow.commas
    · exact hrow.commas.brackets
  rw [htext]
  have hheader := (htarget.before (s := "let ") (by decide)).between (s := " of ") (by decide) ha
  exact hheader.loop hb

/-- What is returned is written once. -/
theorem Renders.returnText (h : Renders K l q t q') : Renders K l q (Emit.returnText t) q' := by
  unfold Emit.returnText
  split
  next hnil =>
    have hempty : t = "" := by simpa using hnil
    subst hempty
    exact h.before (s := "return") (by decide)
  · split
    · exact h.parens.before (by decide)
    · exact h.before (by decide)

/-- Before what a file returns, its classes are sealed. -/
theorem Renders.exportText {classes : List String} (h : Renders K l q t q')
    (hclasses : ∀ c ∈ classes, c ∈ K ∧ ∃ found, Script.Closed c found) (ctx : Context) :
    Renders K (.append .sealing (.unlessBlank l)) q (Emit.exportText ctx classes t) q' := by
  have hvalue : Renders K (.unlessBlank l) q (if (Text.trim t).isEmpty then "undefined" else t) q' :=
    .unlessBlank h (by decide)
  have htarget : Plain (if ctx.options.asEsm then "export default " else "exports.default = ") := by
    split <;> decide
  have hall := Renders.append (Renders.sealing hclasses) (hvalue.before htarget)
  simpa [Emit.exportText, String.append_assoc] using hall

end LuaCompiler.Emit
