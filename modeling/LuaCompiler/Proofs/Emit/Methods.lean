import LuaCompiler.Proofs.Emit.Traces
import LuaCompiler.Proofs.Emit.Faults
import LuaCompiler.Proofs.Emit.Tasks

/-!
# The methods of a program

The names that are written in a program stand in methods or in none, and a name belongs to the
innermost method around it. A layout lists the bodies of its methods, and each is that of a function
with a receiver that the walk comes to.

* `Layout.nearby`: the names in a stretch of code, those in methods inside left out.
* `Layout.methods`: **the bodies of the methods in a layout**; `Layout.sites_cases`: a name is in none of
  them or near in one.
* `Layout.captures_eq`: a layout captures exactly if a name nearby is written as the variable that
  holds the receiver.
* `IsMethodOf`, `isMethodOf_chunk`: **the bodies are those of the methods that the walk reaches.**
-/

namespace LuaCompiler.Emit

open Relation (ReflTransGen)

namespace Layout

/-- **The names that are written in a layout and in no method inside it.** -/
def nearby (reach : Reach) : Layout → List Site
  | word w => [⟨w, reach⟩]
  | around _ inner | braces _ inner | unlessBlank inner | twice inner => inner.nearby reach
  | append first second | region first second | swapped first second | enclosing first second =>
    first.nearby reach ++ second.nearby (reach.see first.exposed)
  | callable reception header body => header.nearby reach ++
    if reception == .none then body.nearby (reach.enter ⟨reception, header.exposed⟩) else []
  | loopUntil body condition => body.nearby reach ++ condition.nearby (reach.hide body.exposed)
  | blank | remark _ | sealing | remaining | binding _ _ | dropped _ => []

/-- **The bodies of the methods in a layout**, each with what is in reach at its start. -/
def methods (reach : Reach) : Layout → List (Layout × Reach)
  | around _ inner | braces _ inner | unlessBlank inner | twice inner => inner.methods reach
  | append first second | region first second | swapped first second | enclosing first second =>
    first.methods reach ++ second.methods (reach.see first.exposed)
  | callable reception header body =>
    let inside := reach.enter ⟨reception, header.exposed⟩
    header.methods reach ++
      ((if reception == .none then [] else [(body, inside)]) ++ body.methods inside)
  | loopUntil body condition => body.methods reach ++ condition.methods (reach.hide body.exposed)
  | blank | remark _ | sealing | remaining | word _ | binding _ _ | dropped _ => []

variable {l : Layout} {reach : Reach} {site : Site} {method : Layout × Reach}

/-- **A name is in no method, or near in one.** -/
theorem sites_cases (h : site ∈ l.sites reach) : site ∈ l.nearby reach ∨
    ∃ method ∈ l.methods reach, site ∈ method.1.nearby method.2 := by
  induction l generalizing reach with
  | word w => exact .inl h
  | blank | remark | sealing | remaining | binding | dropped => cases h
  | around _ inner ih | braces _ inner ih | unlessBlank inner ih | twice inner ih => exact ih h
  | append a b iha ihb | region a b iha ihb | swapped a b iha ihb | enclosing a b iha ihb
  | loopUntil a b iha ihb =>
    rcases List.mem_append.1 h with h | h
    · rcases iha h with h | ⟨method, hmethod, h⟩
      · exact .inl (List.mem_append_left _ h)
      · exact .inr ⟨method, List.mem_append_left _ hmethod, h⟩
    · rcases ihb h with h | ⟨method, hmethod, h⟩
      · exact .inl (List.mem_append_right _ h)
      · exact .inr ⟨method, List.mem_append_right _ hmethod, h⟩
  | callable reception header body iha ihb =>
    rw [nearby, methods]
    rcases List.mem_append.1 h with h | h
    · rcases iha h with h | ⟨method, hmethod, h⟩
      · exact .inl (List.mem_append_left _ h)
      · exact .inr ⟨method, List.mem_append_left _ hmethod, h⟩
    · rcases ihb h with h | ⟨method, hmethod, h⟩
      · -- what is near in the body is near in the method, if the function is one
        by_cases hnone : (reception == .none) = true
        · rw [if_pos hnone]
          exact .inl (List.mem_append_right _ h)
        · refine .inr ⟨(body, reach.enter ⟨reception, header.exposed⟩), ?_, h⟩
          refine List.mem_append_right _ (List.mem_append_left _ ?_)
          rw [if_neg hnone]
          exact List.mem_cons_self
      · exact .inr ⟨method, List.mem_append_right _ (List.mem_append_right _ hmethod), h⟩

/-- The sites near a layout are among its sites. -/
theorem nearby_subset (l : Layout) (reach : Reach) : l.nearby reach ⊆ l.sites reach := by
  induction l generalizing reach with
  | word w => exact List.Subset.refl _
  | blank | remark | sealing | remaining | binding | dropped => exact List.nil_subset _
  | around _ inner ih | braces _ inner ih | unlessBlank inner ih | twice inner ih => exact ih reach
  | append a b iha ihb | region a b iha ihb | swapped a b iha ihb | enclosing a b iha ihb
  | loopUntil a b iha ihb =>
    exact List.append_subset.2 ⟨List.subset_append_of_subset_left _ (iha _),
      List.subset_append_of_subset_right _ (ihb _)⟩
  | callable reception header body iha ihb =>
    refine List.append_subset.2 ⟨List.subset_append_of_subset_left _ (iha _), ?_⟩
    split
    · exact List.subset_append_of_subset_right _ (ihb _)
    · exact List.nil_subset _

/-- The names in a method are names of the program. -/
theorem sites_methods (h : method ∈ l.methods reach) : method.1.sites method.2 ⊆ l.sites reach := by
  induction l generalizing reach with
  | blank | remark | sealing | remaining | word | binding | dropped => cases h
  | around _ inner ih | braces _ inner ih | unlessBlank inner ih | twice inner ih => exact ih h
  | append a b iha ihb | region a b iha ihb | swapped a b iha ihb | enclosing a b iha ihb
  | loopUntil a b iha ihb =>
    rcases List.mem_append.1 h with h | h
    · exact List.subset_append_of_subset_left _ (iha h)
    · exact List.subset_append_of_subset_right _ (ihb h)
  | callable reception header body iha ihb =>
    rw [methods] at h
    rcases List.mem_append.1 h with h | h
    · exact List.subset_append_of_subset_left _ (iha h)
    · refine List.subset_append_of_subset_right _ ?_
      rcases List.mem_append.1 h with h | h
      · split at h
        · cases h
        · rw [List.mem_singleton.1 h]
          exact List.Subset.refl _
      · exact ihb h

/-- **A layout captures exactly if a name nearby is written as the variable** that holds the receiver.
-/
theorem captures_eq (l : Layout) (reach : Reach) :
    l.captures = (l.nearby reach).any (·.word.isAlias) := by
  induction l generalizing reach with
  | word w => exact (Bool.or_false _).symm
  | blank | remark | sealing | remaining | binding | dropped => rfl
  | around _ inner ih | braces _ inner ih | unlessBlank inner ih | twice inner ih => exact ih reach
  | append a b iha ihb | region a b iha ihb | swapped a b iha ihb | enclosing a b iha ihb =>
    rw [captures, nearby, List.any_append, ← iha, ← ihb]
  | loopUntil a b iha ihb => rw [captures, nearby, List.any_append, ← iha, ← ihb]
  | callable reception header body iha ihb =>
    rw [captures, nearby, List.any_append, ← iha]
    cases reception == .none with
    | true => rw [if_pos rfl, Bool.true_and, ← ihb]
    | false => rw [if_neg Bool.false_ne_true, Bool.false_and, List.any_nil]

/-- Between a stretch of code and a name near in it are functions without receivers only. -/
theorem functions_nearby (h : site ∈ l.nearby reach) :
    ∃ inner, site.reach.functions = inner ++ reach.functions ∧
      ∀ frame ∈ inner, frame.reception = .none := by
  induction l generalizing reach with
  | word w =>
    rw [List.mem_singleton.1 h]
    exact ⟨[], rfl, List.forall_mem_nil _⟩
  | blank | remark | sealing | remaining | binding | dropped => cases h
  | around _ inner ih | braces _ inner ih | unlessBlank inner ih | twice inner ih => exact ih h
  | append a b iha ihb | region a b iha ihb | swapped a b iha ihb | enclosing a b iha ihb
  | loopUntil a b iha ihb => exact (List.mem_append.1 h).elim iha ihb
  | callable reception header body iha ihb =>
    rcases List.mem_append.1 h with h | h
    · exact iha h
    · split at h
      next hnone =>
        obtain ⟨inner, hfunctions, hinner⟩ := ihb h
        refine ⟨inner ++ [⟨reception, header.exposed⟩], ?_, fun frame hframe => ?_⟩
        · rw [hfunctions, List.append_assoc]
          rfl
        · rcases List.mem_append.1 hframe with hframe | hframe
          · exact hinner frame hframe
          · rw [List.mem_singleton.1 hframe]
            exact beq_iff_eq.1 hnone
      · cases h

/-- A method begins in a function with a receiver. -/
theorem functions_methods (h : method ∈ l.methods reach) :
    ∃ frame outer, method.2.functions = frame :: outer ∧ frame.reception ≠ .none := by
  induction l generalizing reach with
  | blank | remark | sealing | remaining | word | binding | dropped => cases h
  | around _ inner ih | braces _ inner ih | unlessBlank inner ih | twice inner ih => exact ih h
  | append a b iha ihb | region a b iha ihb | swapped a b iha ihb | enclosing a b iha ihb
  | loopUntil a b iha ihb => exact (List.mem_append.1 h).elim iha ihb
  | callable reception header body iha ihb =>
    rw [methods] at h
    rcases List.mem_append.1 h with h | h
    · exact iha h
    · rcases List.mem_append.1 h with h | h
      · split at h
        · cases h
        next hsome =>
          rw [List.mem_singleton.1 h]
          exact ⟨_, _, rfl, fun heq => hsome (beq_iff_eq.2 heq)⟩
      · exact ihb h

/-- Something holds of the body of each method in a layout. -/
def Each (P : Layout → Prop) : Layout → Prop
  | around _ inner | braces _ inner | unlessBlank inner | twice inner => inner.Each P
  | append first second | region first second | swapped first second | enclosing first second
  | loopUntil first second => first.Each P ∧ second.Each P
  | callable reception header body =>
    header.Each P ∧ (reception ≠ .none → P body) ∧ body.Each P
  | blank | remark _ | sealing | remaining | word _ | binding _ _ | dropped _ => True

/-- What holds of each function in a layout holds of a method in it. -/
theorem Each.of_mem {P : Layout → Prop} (hl : l.Each P) (h : method ∈ l.methods reach) :
    P method.1 := by
  induction l generalizing reach with
  | blank | remark | sealing | remaining | word | binding | dropped => cases h
  | around _ inner ih | braces _ inner ih | unlessBlank inner ih | twice inner ih => exact ih hl h
  | append a b iha ihb | region a b iha ihb | swapped a b iha ihb | enclosing a b iha ihb
  | loopUntil a b iha ihb => exact (List.mem_append.1 h).elim (iha hl.1) (ihb hl.2)
  | callable reception header body iha ihb =>
    rw [methods] at h
    rcases List.mem_append.1 h with h | h
    · exact iha hl.1 h
    · rcases List.mem_append.1 h with h | h
      · split at h
        · cases h
        next hsome =>
          rw [List.mem_singleton.1 h]
          exact hl.2.1 fun heq => hsome (beq_iff_eq.2 heq)
      · exact ihb hl.2.2 h

/-- Layouts in a row. -/
theorem each_row {P : Layout → Prop} {ls : List Layout} (h : ∀ l ∈ ls, l.Each P) :
    (row ls).Each P := by
  induction ls with
  | nil => trivial
  | cons first rest ih =>
    obtain ⟨hfirst, hrest⟩ := List.forall_mem_cons.1 h
    cases rest with
    | nil => exact hfirst
    | cons second others => exact ⟨hfirst, ih hrest⟩

/-- Names that are bound hold no function. -/
theorem each_bindings (P : Layout → Prop) (ctx : Context) (vars : List Identifier) :
    (bindings ctx vars).Each P := by
  refine each_row fun l hl => ?_
  obtain ⟨v, -, rfl⟩ := List.mem_map.1 hl
  trivial

theorem each_parameters (P : Layout → Prop) (ctx : Context) (shown : List Identifier)
    (isVararg : Bool) : (parameters ctx shown isVararg).Each P := by
  refine each_row fun l hl => ?_
  rw [List.mem_append, List.mem_map] at hl
  rcases hl with ⟨v, -, rfl⟩ | hl
  · trivial
  · cases isVararg with
    | true =>
      rw [List.mem_singleton.1 hl]
      trivial
    | false => cases hl

end Layout

/-! ## The methods that the walk reaches -/

/-- **A layout is the body of a method** that the walk reaches from a task: the function has a receiver,
and the layout is that of its statements. -/
def IsMethodOf (registries : Registries) (start : Context × Task) (body : Layout) : Prop :=
  ∃ ctx isMethod convention f, Reaches start (ctx, .function isMethod convention f) ∧
    convention.receiver.isSome = true ∧
    body = .braces true (Layout.statements
      (ctx.inFunction f.parameters convention.shown convention.receiver) registries f.body)

/-- Something holds of the bodies of all methods that are reached from a task. -/
def Covers (registries : Registries) (P : Layout → Prop) (ctx : Context) (t : Task) : Prop :=
  ∀ body, IsMethodOf registries (ctx, t) body → P body

variable {registries : Registries} {P : Layout → Prop} {ctx inner : Context} {t u : Task}

/-- What is reached from a part is reached from the whole. -/
theorem Covers.step (h : Covers registries P ctx t) (hstep : Step ctx t inner u) :
    Covers registries P inner u := by
  rintro body ⟨last, isMethod, convention, f, hreaches, hmethod⟩
  exact h body ⟨last, isMethod, convention, f, ReflTransGen.head hstep hreaches, hmethod⟩

/-! ## Rules -/

/-- An operator holds the functions of its operands, in whatever order they are written. -/
theorem each_logical {operator : LogicalOperator} {repeatable : Bool} {left right : Layout}
    (hleft : left.Each P) (hright : right.Each P) :
    (Layout.logical ctx operator repeatable left right).Each P := by
  unfold Layout.logical
  split
  · cases operator <;> exact ⟨hleft, hright⟩
  · exact ⟨hleft, hright⟩

/-- The methods in a call are those in the parts that its pattern lowers. -/
theorem each_call {site : CallSite} {parts : Layout.CallLayouts} {isStatement : Bool}
    (hcallee : patternAt ctx site = .generic ∨ patternAt ctx site = .selfCall → parts.callee.Each P)
    (howner : patternAt ctx site = .selfCall → parts.owner.Each P)
    (harguments : lowersArguments (patternAt ctx site) site.arguments = true →
      parts.arguments.Each P)
    (hmessage : patternAt ctx site = .error → parts.firstArgument.Each P)
    (hselected : patternAt ctx site = .selectIndex →
      (∀ id span value raw rest, site.arguments ≠ ⟨id, span, .number value raw⟩ :: rest) →
        parts.firstArgument.Each P)
    (hclass : patternAt ctx site = .classFactory → isNativeClass site.arguments = true →
      parts.classBody.Each P) :
    (Layout.call ctx registries isStatement site parts).Each P := by
  -- the shape of a site is known from its pattern, so the default layouts do not come up
  have hserved := isServed ctx site
  unfold Layout.call
  cases hpattern : patternAt ctx site with
  | classFactory =>
    dsimp only
    split
    next hnative => exact hclass hpattern hnative
    next hcreated =>
      refine harguments ?_
      rw [hpattern, lowersArguments, Bool.eq_false_iff.2 hcreated]
      rfl
  | selectLength => trivial
  | selectIndex =>
    dsimp only
    split
    · trivial
    next index rest hnumber harguments =>
      refine hselected hpattern fun id span value raw others heq => ?_
      rw [harguments] at heq
      exact hnumber id span value raw (List.cons.inj heq).1
    next harguments =>
      obtain ⟨index, rest, heq⟩ := hserved.selectIndex hpattern
      rw [harguments] at heq
      cases heq
  | error =>
    dsimp only
    split <;> exact hmessage hpattern
  | systemFunction =>
    obtain ⟨library, name, hname⟩ := hserved.systemFunction hpattern
    dsimp only
    rw [hname, Option.isSome_some, if_pos rfl]
    exact harguments (hpattern ▸ rfl)
  | selfCall =>
    have hargs := harguments (hpattern ▸ rfl)
    obtain ⟨owner, indexer, identifier, hkind⟩ := hserved.selfCall hpattern
    dsimp only
    rw [hkind]
    dsimp only
    split
    · exact ⟨hcallee (.inr hpattern), hargs⟩
    · exact ⟨howner hpattern, hargs⟩
  | generic => exact ⟨hcallee (.inl hpattern), harguments (hpattern ▸ rfl)⟩
  | stringFormat | tableInsert | tableInsertAt | tableConcat | type | require | valueType | assert =>
    exact harguments (hpattern ▸ rfl)

/-- The methods in a `local` statement: in a class that it defines, or in its values. -/
theorem each_localStatement {id : NodeId} {vars : List Identifier} {init : List Expr}
    {parts : Layout.LocalLayouts}
    (hvalues : definesLocalClass ctx vars init = false → parts.values.Each P)
    (hclass : ∀ v id span base style arguments, vars = [v] →
      init = [⟨id, span, .call base style arguments⟩] → isClassCall base arguments = true →
        if isNativeClass arguments then parts.classBody.Each P else parts.arguments.Each P) :
    (Layout.localStatement ctx id vars init parts).Each P := by
  -- what a statement that defines no class is lowered to
  have hbinding (h : definesLocalClass ctx vars init = false) :
      (Layout.append (Layout.bindings ctx (Layout.newVars ctx id vars))
        (if init.isEmpty then .blank else parts.values)).Each P := by
    refine ⟨Layout.each_bindings P ctx _, ?_⟩
    split
    · trivial
    · exact hvalues h
  rcases vars with _ | ⟨v, _ | ⟨_, _⟩⟩
  · exact hbinding rfl
  · rcases init with _ | ⟨⟨valueId, span, kind⟩, _ | ⟨_, _⟩⟩
    · exact hbinding rfl
    · unfold Layout.localStatement Layout.localClass?
      dsimp only
      -- a class is an empty table under the name of the module, or a call that creates one
      by_cases htable : (ctx.isTop && isModuleName ctx v.name &&
          isEmptyTable ⟨valueId, span, kind⟩) = true
      · rw [if_pos htable]
        trivial
      · have hplain := Bool.eq_false_iff.2 htable
        rw [if_neg htable]
        cases kind with
        | call base style arguments =>
          dsimp only
          cases hcall : isClassCall base arguments with
          | false =>
            rw [Bool.not_false, if_pos rfl]
            exact hbinding (Bool.or_eq_false_iff.2 ⟨hplain, hcall⟩)
          | true =>
            have hbody := hclass v valueId span base style arguments rfl rfl hcall
            rw [Bool.not_true, if_neg Bool.false_ne_true]
            cases hnative : isNativeClass arguments with
            | true =>
              rw [hnative, if_pos rfl] at hbody
              exact ⟨trivial, hbody⟩
            | false =>
              rw [hnative, if_neg Bool.false_ne_true] at hbody
              exact ⟨trivial, hbody⟩
        | _ => exact hbinding (Bool.or_eq_false_iff.2 ⟨hplain, rfl⟩)
    · exact hbinding rfl
  · exact hbinding rfl

/-- The methods in an assignment: in what is put behind the end of a table, in a class that it defines,
or in its targets and values. -/
theorem each_assignment {targets init : List Expr} {parts : Layout.AssignmentLayouts}
    (happend : ∀ id span base index value, targets = [⟨id, span, .index base index⟩] →
      init = [value] → isAppend base index = true →
        parts.indexBase.Each P ∧ parts.firstValue.Each P)
    (hclass : ∀ target id span base style arguments, targets = [target] →
      init = [⟨id, span, .call base style arguments⟩] → appendBase? targets init = none →
        isClassCall base arguments = true → isNativeClass arguments = true →
          (target.name? = none → parts.firstTarget.Each P) ∧ parts.classBody.Each P)
    (hbinding : appendBase? targets init = none → definesClass targets init = false →
      parts.targets.Each P ∧ parts.values.Each P) :
    (Layout.assignment ctx targets init parts).Each P := by
  unfold Layout.assignment
  cases hbase : appendBase? targets init with
  | some table =>
    unfold appendBase? at hbase
    split at hbase
    next id span base index value =>
      split at hbase
      -- an assignment behind the end of a table
      next hends => exact happend id span base index value rfl rfl hends
      · cases hbase
    · cases hbase
  | none =>
    dsimp only
    -- a class, or an assignment like any other
    cases hdefines : definesClass targets init with
    | false => exact hbinding hbase hdefines
    | true =>
      unfold definesClass at hdefines
      split at hdefines
      next target id span base style arguments =>
        obtain ⟨hcall, hnative⟩ := Bool.and_eq_true_iff.1 hdefines
        obtain ⟨htarget, hbody⟩ :=
          hclass target id span base style arguments rfl rfl hbase hcall hnative
        obtain ⟨targetId, targetSpan, kind⟩ := target
        cases kind with
        | name name => exact ⟨trivial, hbody⟩
        | _ => exact ⟨htarget rfl, hbody⟩
      · cases hdefines

/-- A `return` holds the functions of what is written of it. -/
theorem each_returnStatement {arguments : List Expr} {second all : Layout}
    (hsecond : isFailure arguments = true → second.Each P)
    (hall : isFailure arguments = false → all.Each P) :
    (Layout.returnStatement ctx arguments second all).Each P := by
  unfold Layout.returnStatement
  cases hfails : isFailure arguments with
  | true =>
    rw [if_pos rfl]
    exact hsecond hfails
  | false =>
    rw [if_neg Bool.false_ne_true]
    split
    · exact ⟨trivial, hall hfails⟩
    · exact hall hfails

/-! ## The walk -/

-- The recursion is on the tree. What holds of all methods reached from a node holds of those reached
-- from a part, by the step to the part; only a function with a receiver is a method itself.
mutual

/-- Of each function in an expression holds what holds of the functions its tasks lower. -/
theorem each_expression : ∀ (e : Expr) {ctx : Context} {P : Layout → Prop},
    Covers registries P ctx (.expression e) → (Layout.expression ctx registries e).Each P
  | ⟨id, span, kind⟩, _, _, h => each_expressionKind id span kind false h

/-- Node by node: the functions of a node are lowered by its own task or by those of its parts. -/
theorem each_expressionKind (id : NodeId) (span : Span) : ∀ (kind : ExprKind) {ctx : Context}
    {P : Layout → Prop} (isStatement : Bool), Covers registries P ctx (.expression ⟨id, span, kind⟩) →
    (Layout.expressionKind ctx registries isStatement id kind).Each P
  | .name _, _, _, _, _ | .nil, _, _, _, _ | .boolean _, _, _, _, _ | .number .., _, _, _, _
  | .string _, _, _, _, _ | .vararg, _, _, _, _ => trivial
  | .function f, _, _, _, h => each_function f (.plain f) false (h.step (.value id span f))
  | .table fields, ctx, P, _, h => by
    have hentries : (Layout.entries ctx registries fields).Each P :=
      each_entries fields (fun field hfield => h.step (.operand (.field hfield)))
        fun field hfield key value hkind => h.step (.operand (.key hfield hkind))
    unfold Layout.expressionKind
    split <;> exact hentries
  | .binary _ left right, _, _, _, h =>
    ⟨each_expression left (h.step (.operand (.binaryLeft left right))),
      each_expression right (h.step (.operand (.binaryRight left right)))⟩
  | .logical operator left right, _, _, _, h => by
    have hright := each_expression right (h.step (.operand (.logicalRight left right)))
    unfold Layout.expressionKind
    split
    next hchoice =>
      obtain ⟨hfirst, hlogical⟩ := Bool.and_eq_true_iff.1 hchoice
      obtain ⟨hor, hconjunction⟩ := Bool.and_eq_true_iff.1 hfirst
      obtain rfl := of_decide_eq_true hor
      rw [Bool.not_eq_true'] at hlogical
      refine ⟨each_conjuncts left hconjunction fun leftId leftSpan c a heq => ?_, hright⟩
      subst heq
      exact ⟨h.step (.operand (.condition hlogical)), h.step (.operand (.consequent hlogical))⟩
    next hplain =>
      have hleft := each_expression left
        (h.step (.operand (.logicalLeft (Bool.eq_false_iff.2 hplain))))
      exact each_logical hleft hright
  | .unary _ argument, _, _, _, h => each_expression argument (h.step (.operand (.unary argument)))
  | .member base _ _, _, _, _, h => each_expression base (h.step (.operand (.member base)))
  | .index base index, _, _, _, h =>
    ⟨each_expression base (h.step (.operand (.indexBase base index))),
      each_expression index (h.step (.operand (.index base index)))⟩
  | .call base style arguments, ctx, P, _, h => by
    have howner (hpattern : patternAt ctx ⟨base, arguments⟩ = .selfCall) :
        (Layout.owner ctx registries base).Each P :=
      each_owner base fun baseId baseSpan owner indexer identifier heq => by
        subst heq
        exact h.step (.operand (.owner hpattern))
    refine each_call (fun hpattern => ?_) howner (fun hlowers => ?_) (fun hpattern => ?_)
      (fun hpattern hnumber => ?_) fun hpattern hnative => ?_
    · rcases hpattern with hpattern | hpattern
      · exact each_expression base (h.step (.operand (.callee hpattern)))
      · -- what is called is a member, and the methods in it are those in its owner
        have hmember := howner hpattern
        obtain ⟨owner, indexer, identifier, hkind⟩ := (isServed ctx ⟨base, arguments⟩).selfCall hpattern
        obtain ⟨baseId, baseSpan, kind⟩ := base
        obtain rfl : kind = .member owner indexer identifier := hkind
        exact hmember
    · exact each_expressions arguments fun e he => h.step (.operand (.argument hlowers he))
    · refine each_firstExpression arguments fun first rest heq => ?_
      subst heq
      exact h.step (.operand (.message hpattern))
    · refine each_firstExpression arguments fun first rest heq => ?_
      subst heq
      refine h.step (.operand (.selected hpattern fun value raw hkind => ?_))
      obtain ⟨firstId, firstSpan, kind⟩ := first
      obtain rfl : kind = .number value raw := hkind
      exact hnumber firstId firstSpan value raw rest rfl
    · exact each_classBody arguments fun inner t hpart => h.step (.class hpattern hpart)

/-- A chain holds the functions of both operands. -/
theorem each_conjuncts : ∀ (e : Expr) {ctx : Context} {P : Layout → Prop}, isConjunction e = true →
    (∀ id span left right, e = ⟨id, span, .logical .and left right⟩ →
      Covers registries P ctx (.expression left) ∧ Covers registries P ctx (.expression right)) →
    (Layout.conjuncts ctx registries e).Each P
  | ⟨id, span, kind⟩, _, _, hconjunction, h => by
    cases kind with
    | logical operator left right =>
      cases operator with
      | and =>
        obtain ⟨hleft, hright⟩ := h id span left right rfl
        exact ⟨each_expression left hleft, each_expression right hright⟩
      | or => cases hconjunction
    | _ => cases hconjunction

theorem each_owner : ∀ (e : Expr) {ctx : Context} {P : Layout → Prop},
    (∀ id span owner indexer identifier, e = ⟨id, span, .member owner indexer identifier⟩ →
      Covers registries P ctx (.expression owner)) → (Layout.owner ctx registries e).Each P
  | ⟨id, span, kind⟩, _, _, h => by
    cases kind with
    | member base indexer identifier =>
      exact each_expression base (h id span base indexer identifier rfl)
    | _ => trivial

theorem each_indexBase : ∀ (es : List Expr) {ctx : Context} {P : Layout → Prop},
    (∀ id span base index rest, es = ⟨id, span, .index base index⟩ :: rest →
      Covers registries P ctx (.expression base)) → (Layout.indexBase ctx registries es).Each P
  | [], _, _, _ => trivial
  | ⟨id, span, kind⟩ :: rest, _, _, h => by
    cases kind with
    | index base index => exact each_expression base (h id span base index rest rfl)
    | _ => trivial

theorem each_expressions : ∀ (es : List Expr) {ctx : Context} {P : Layout → Prop},
    (∀ e ∈ es, Covers registries P ctx (.expression e)) →
    (Layout.expressions ctx registries es).Each P
  | [], _, _, _ => trivial
  | [only], _, _, h => each_expression only (h only List.mem_cons_self)
  | first :: second :: rest, _, _, h =>
    ⟨each_expression first (h first List.mem_cons_self),
      each_expressions (second :: rest) fun e he => h e (List.mem_cons_of_mem _ he)⟩

theorem each_firstExpression : ∀ (es : List Expr) {ctx : Context} {P : Layout → Prop},
    (∀ first rest, es = first :: rest → Covers registries P ctx (.expression first)) →
    (Layout.firstExpression ctx registries es).Each P
  | [], _, _, _ => trivial
  | first :: rest, _, _, h => each_expression first (h first rest rfl)

theorem each_secondExpression : ∀ (es : List Expr) {ctx : Context} {P : Layout → Prop},
    (∀ first second rest, es = first :: second :: rest →
      Covers registries P ctx (.expression second)) →
    (Layout.secondExpression ctx registries es).Each P
  | [], _, _, _ => trivial
  | first :: rest, _, _, h =>
    each_firstExpression rest fun second others heq => h first second others (heq ▸ rfl)

/-- A class holds the methods of its table and the functions of its parent. -/
theorem each_classBody : ∀ (es : List Expr) {ctx : Context} {P : Layout → Prop},
    (∀ inner t, ClassPart ctx es inner t → Covers registries P inner t) →
    (Layout.classBody ctx registries es).Each P
  | [], _, _, _ => ⟨trivial, trivial⟩
  | ⟨id, span, kind⟩ :: rest, _, _, h => by
    cases kind with
    | table fields =>
      refine ⟨each_members fields h (List.Subset.refl _), each_parent rest fun parent others heq => ?_⟩
      subst heq
      exact h _ _ .parent
    | _ => exact ⟨trivial, trivial⟩

theorem each_parent : ∀ (es : List Expr) {ctx : Context} {P : Layout → Prop},
    (∀ parent rest, es = parent :: rest → Covers registries P ctx (.expression parent)) →
    (Layout.parent ctx registries es).Each P
  | [], _, _, _ => trivial
  | first :: rest, _, _, h => each_expression first (h first rest rfl)

theorem each_callArguments : ∀ (es : List Expr) {ctx : Context} {P : Layout → Prop},
    (∀ id span base style arguments rest, es = ⟨id, span, .call base style arguments⟩ :: rest →
      ∀ e ∈ arguments, Covers registries P ctx (.expression e)) →
    (Layout.callArguments ctx registries es).Each P
  | [], _, _, _ => trivial
  | ⟨id, span, kind⟩ :: rest, _, _, h => by
    cases kind with
    | call base style arguments =>
      exact each_expressions arguments (h id span base style arguments rest rfl)
    | _ => trivial

theorem each_valueClassBody : ∀ (es : List Expr) {ctx : Context} {P : Layout → Prop},
    (∀ id span base style arguments rest, es = ⟨id, span, .call base style arguments⟩ :: rest →
      ∀ inner t, ClassPart ctx arguments inner t → Covers registries P inner t) →
    (Layout.valueClassBody ctx registries es).Each P
  | [], _, _, _ => ⟨trivial, trivial⟩
  | ⟨id, span, kind⟩ :: rest, _, _, h => by
    cases kind with
    | call base style arguments =>
      exact each_classBody arguments (h id span base style arguments rest rfl)
    | _ => exact ⟨trivial, trivial⟩

/-- A table holds the functions of its fields. -/
theorem each_entries : ∀ (fields : List Field) {ctx : Context} {P : Layout → Prop},
    (∀ field ∈ fields, Covers registries P ctx (.expression field.kind.value)) →
    (∀ field ∈ fields, ∀ key value, field.kind = .keyed key value →
      Covers registries P ctx (.expression key)) → (Layout.entries ctx registries fields).Each P
  | [], _, _, _, _ => trivial
  | ⟨_, _, kind⟩ :: rest, _, _, hvalue, hkey =>
    ⟨each_entry kind (hvalue _ List.mem_cons_self) (hkey _ List.mem_cons_self),
      each_entries rest (fun field hfield => hvalue field (List.mem_cons_of_mem _ hfield))
        fun field hfield => hkey field (List.mem_cons_of_mem _ hfield)⟩

theorem each_entry : ∀ (kind : FieldKind) {ctx : Context} {P : Layout → Prop},
    Covers registries P ctx (.expression kind.value) →
    (∀ key value, kind = .keyed key value → Covers registries P ctx (.expression key)) →
    (Layout.entry ctx registries kind).Each P
  | .positional value, _, _, h, _ => each_expression value h
  | .named _ value, _, _, h, _ => each_expression value h
  | .keyed key value, _, _, h, hkey =>
    ⟨each_expression key (hkey key value rfl), each_expression value h⟩

/-- The members of a class are some of the fields of its table. -/
theorem each_members : ∀ (fields : List Field) {ctx : Context} {P : Layout → Prop} {id : NodeId}
    {span : Span} {all : List Field} {rest : List Expr},
    (∀ inner t, ClassPart ctx (⟨id, span, .table all⟩ :: rest) inner t →
      Covers registries P inner t) → fields ⊆ all →
    (Layout.members ctx.asValue registries fields).Each P
  | [], _, _, _, _, _, _, _, _ => trivial
  | ⟨_, _, kind⟩ :: others, _, _, _, _, _, _, h, hsubset =>
    have hfield := hsubset List.mem_cons_self
    ⟨each_member kind (fun _ hpart => h _ _ (.member hfield hpart))
        (fun _ _ _ _ heq => h _ _ (.namedMethod (heq ▸ hfield)))
        fun _ _ _ _ heq => h _ _ (.keyedMethod (heq ▸ hfield)),
      each_members others h fun _ hother => hsubset (List.mem_cons_of_mem _ hother)⟩

/-- A member is a method by itself, or holds the functions of its parts. -/
theorem each_member : ∀ (kind : FieldKind) {ctx : Context} {P : Layout → Prop},
    (∀ part, MemberPart kind part → Covers registries P ctx (.expression part)) →
    (∀ key id span f, kind = .named key ⟨id, span, .function f⟩ →
      Covers registries P ctx (.function false (.ofFirstParameter f) f)) →
    (∀ key id span f, kind = .keyed key ⟨id, span, .function f⟩ →
      Covers registries P ctx (.function false (.ofFirstParameter f) f)) →
    (Layout.member ctx registries kind).Each P
  | .named key value, _, _, hpart, hmethod, _ =>
    each_memberValue value (fun hplain => hpart value (.named key hplain))
      fun id span f heq => hmethod key id span f (heq ▸ rfl)
  | .keyed key value, _, _, hpart, _, hmethod =>
    ⟨each_expression key (hpart key (.key key value)),
      each_memberValue value (fun hplain => hpart value (.keyed key hplain))
        fun id span f heq => hmethod key id span f (heq ▸ rfl)⟩
  | .positional _, _, _, _, _, _ => trivial

/-- A function that is a member is lowered as a method. -/
theorem each_memberValue : ∀ (e : Expr) {ctx : Context} {P : Layout → Prop},
    ((∀ f, e.kind ≠ .function f) → Covers registries P ctx (.expression e)) →
    (∀ id span f, e = ⟨id, span, .function f⟩ →
      Covers registries P ctx (.function false (.ofFirstParameter f) f)) →
    (Layout.memberValue ctx registries e).Each P
  | ⟨id, span, kind⟩, ctx, P, hplain, hmethod => by
    have hkind (h : ∀ f, kind ≠ .function f) :
        (Layout.around span (Layout.expressionKind ctx registries false id kind)).Each P :=
      each_expressionKind id span kind false (hplain h)
    cases kind with
    | function f => exact each_function f (.ofFirstParameter f) false (hmethod id span f rfl)
    | _ => exact hkind fun f heq => nomatch heq

/-- **A function with a receiver is a method**, whatever is inside it. -/
theorem each_function : ∀ (f : FunctionBody) {ctx : Context} {P : Layout → Prop}
    (convention : Convention) (isMethod : Bool),
    Covers registries P ctx (.function isMethod convention f) →
    (Layout.function ctx registries convention f).Each P
  | ⟨id, span, names, isVararg, body⟩, ctx, P, convention, isMethod, h => by
    have hbody := each_statements body fun s hs =>
      (h.step (.body isMethod convention ⟨id, span, names, isVararg, body⟩)).step (.statement hs)
    refine ⟨Layout.each_parameters P ctx _ _, fun hsome => ?_, hbody⟩
    refine h _ ⟨ctx, isMethod, convention, _, ReflTransGen.refl, ?_, rfl⟩
    have hnone := Layout.reception_eq_none convention names
    rw [← Option.not_isSome] at hnone
    rw [← Bool.not_eq_false', ← hnone]
    exact beq_eq_false_iff_ne.2 hsome

theorem each_statements : ∀ (body : List Stmt) {ctx : Context} {P : Layout → Prop},
    (∀ s ∈ body, Covers registries P ctx (.statement s)) →
    (Layout.statements ctx registries body).Each P
  | [], _, _, _ => trivial
  | ⟨id, span, kind⟩ :: rest, _, _, h =>
    ⟨each_statement id span kind (h _ List.mem_cons_self),
      each_statements rest fun s hs => h s (List.mem_cons_of_mem _ hs)⟩

/-- Statement by statement. The parts of a statement are the tasks it leads to, so what is known of
all tasks below is known of the functions in each part. -/
theorem each_statement (id : NodeId) (span : Span) : ∀ (kind : StmtKind) {ctx : Context}
    {P : Layout → Prop}, Covers registries P ctx (.statement ⟨id, span, kind⟩) →
    (Layout.statement ctx registries id kind).Each P
  | .local vars init, ctx, P, h => by
    refine each_localStatement (fun hno => ?_)
      fun v valueId valueSpan base style arguments hv hi hcall => ?_
    · exact each_expressions init fun e he => h.step (.part (.bound hno he))
    · have hclass (hnative : isNativeClass arguments = true) :
          (Layout.valueClassBody ctx registries init).Each P :=
        each_valueClassBody init fun _ _ _ _ _ _ heq inner t hpart => by
          subst hv hi
          cases heq
          exact h.step (.part (.localClass hcall hnative hpart))
      have harguments (hnative : isNativeClass arguments = false) :
          (Layout.callArguments ctx registries init).Each P :=
        each_callArguments init fun _ _ _ _ _ _ heq e he => by
          subst hv hi
          cases heq
          exact h.step (.part (.localArgument hcall hnative he))
      cases hnative : isNativeClass arguments with
      | true =>
        rw [if_pos rfl]
        exact hclass hnative
      | false =>
        rw [if_neg Bool.false_ne_true]
        exact harguments hnative
  | .assignment targets init, ctx, P, h => by
    refine each_assignment (fun id span base index value htargets hinit hends => ⟨?_, ?_⟩)
      (fun target id span base style arguments htargets hinit happend hcall hnative =>
        ⟨fun hname => ?_, ?_⟩)
      fun happend hno => ⟨?_, ?_⟩
    · exact each_indexBase targets fun _ _ _ _ _ heq => by
        subst htargets hinit
        cases heq
        exact h.step (.part (.appendBase hends))
    · exact each_firstExpression init fun _ _ heq => by
        subst htargets hinit
        cases heq
        exact h.step (.part (.appendValue hends))
    · exact each_firstExpression targets fun _ _ heq => by
        subst htargets hinit
        cases heq
        exact h.step (.part (.classTarget happend hcall hnative hname))
    · exact each_valueClassBody init fun _ _ _ _ _ _ heq inner t hpart => by
        subst htargets hinit
        cases heq
        exact h.step (.part (.assignedClass happend hcall hnative hpart))
    · exact each_expressions targets fun e he => h.step (.part (.target happend hno he))
    · exact each_expressions init fun e he => h.step (.part (.assigned happend hno he))
  | .call ⟨id, callSpan, kind⟩, _, _, h =>
    each_expressionKind id callSpan kind true (h.step (.part (.call _)))
  | .localFunction name f, ctx, P, h => by
    have hf := each_function f (.plain f) false (h.step (.part (.localFunction name f)))
    refine ⟨?_, hf⟩
    split <;> trivial
  | .function (.name name) f, _, _, h =>
    ⟨trivial, each_function f (.plain f) false (h.step (.part (.function name f)))⟩
  | .function (.member targetId targetSpan base indexer name) f, _, _, h =>
    ⟨each_expression base (h.step (.part (.owner targetId targetSpan base indexer name f))),
      each_function f (.ofIndexer indexer f) (indexer == .colon)
        (h.step (.part (.method targetId targetSpan base indexer name f)))⟩
  | .return arguments, ctx, P, h => by
    unfold Layout.statement
    split
    next hallows =>
      refine each_returnStatement (fun hfails => ?_) fun hfine => ?_
      · refine each_secondExpression arguments fun first second rest heq => ?_
        subst heq
        cases rest with
        | nil => exact h.step (.part (.raised hallows hfails))
        | cons third others => cases hfails
      · exact each_expressions arguments fun e he => h.step (.part (.returned hallows hfine he))
    · trivial
  | .break, _, _, _ => trivial
  | .goto _, _, _, _ => by
    unfold Layout.statement Layout.jump
    split <;> trivial
  | .label _, _, _, _ => by
    unfold Layout.statement Layout.jump
    split <;> trivial
  | .block body, _, _, h =>
    each_statements body fun s hs => (h.step (.part (.block body))).step (.statement hs)
  | .while condition body, _, _, h =>
    ⟨each_expression condition (h.step (.part (.whileCondition condition body))),
      each_statements body fun s hs =>
        (h.step (.part (.whileBody condition body))).step (.statement hs)⟩
  | .repeat body condition, _, _, h =>
    ⟨each_statements body fun s hs =>
        (h.step (.part (.repeatBody body condition))).step (.statement hs),
      each_expression condition (h.step (.part (.repeatCondition body condition)))⟩
  | .conditional ⟨clauseId, clauseSpan, condition, body⟩ others otherwise, _, _, h =>
    have hfirst := h.step (.part (.firstBody ⟨clauseId, clauseSpan, condition, body⟩ others otherwise))
    ⟨⟨each_expression condition (h.step (.part
          (.firstCondition ⟨clauseId, clauseSpan, condition, body⟩ others otherwise))),
        each_statements body fun s hs => hfirst.step (.statement hs)⟩,
      each_clauses others (fun clause hclause => h.step (.part (.condition hclause)))
        fun clause hclause => h.step (.part (.consequent hclause)),
      each_elseClause otherwise fun last heq => by
        subst heq
        exact h.step (.part (.otherwise _ others last))⟩
  | .forNumeric counter first last step body, ctx, P, h => by
    have hfirst : (Layout.loopStart first (Layout.expression ctx.asBound registries first)).Each P := by
      unfold Layout.loopStart
      cases hone : first.isNumber .one with
      | true => trivial
      | false => exact each_expression first (h.step (.part (.first hone)))
    have hstep := each_optional step fun e heq => by
      subst heq
      exact h.step (.part (.step counter first last e body))
    have hbody := h.step (.part (.counted counter first last step body))
    exact ⟨⟨trivial, hfirst,
        each_expression last (h.step (.part (.last counter first last step body))), hstep⟩,
      each_statements body fun s hs => hbody.step (.statement hs)⟩
  | .forGeneric vars [iterator] body, ctx, P, h => by
    have hbody := h.step (.part (.repeated vars iterator body))
    refine ⟨⟨Layout.each_bindings P ctx vars, ?_⟩,
      each_statements body fun s hs => hbody.step (.statement hs)⟩
    refine each_iterated iterator (fun hplain => h.step (.part (.iterator hplain))) ?_
    intro iteratorId iteratorSpan base arguments heq hstandard e he
    subst heq
    exact h.step (.part (.iterated hstandard he))
  -- only a loop over one iterator has parts
  | .forGeneric _ [] _, _, _, _ => trivial
  | .forGeneric _ (_ :: _ :: _) _, _, _, _ => trivial

theorem each_optional : ∀ (o : Option Expr) {ctx : Context} {P : Layout → Prop},
    (∀ e, o = some e → Covers registries P ctx (.expression e)) →
    (Layout.optional ctx registries o).Each P
  | none, _, _, _ => trivial
  | some e, _, _, h => each_expression e (h e rfl)

/-- A loop over a standard iterator holds the functions of the iterator's arguments. -/
theorem each_iterated : ∀ (e : Expr) {ctx : Context} {P : Layout → Prop},
    (iteratesStandard e = false → Covers registries P ctx (.expression e)) →
    (∀ id span base arguments, e = ⟨id, span, .call base .arguments arguments⟩ →
      iteratesStandard e = true → ∀ argument ∈ arguments,
        Covers registries P ctx (.expression argument)) →
    (Layout.iterated ctx registries e).Each P
  | ⟨id, span, kind⟩, ctx, P, hplain, hstandard => by
    have hkind (h : iteratesStandard ⟨id, span, kind⟩ = false) :
        (Layout.around span (Layout.expressionKind ctx registries false id kind)).Each P :=
      each_expressionKind id span kind false (hplain h)
    cases kind with
    | call base style arguments =>
      cases style with
      | arguments =>
        unfold Layout.iterated
        split
        next hsome => exact each_expressions arguments (hstandard id span base arguments rfl hsome)
        next hnone => exact hkind (Bool.eq_false_iff.2 hnone)
      | _ => exact hkind rfl
    | _ => exact hkind rfl

/-- The clauses of a conditional hold those of their conditions and blocks. -/
theorem each_clauses : ∀ (cs : List Clause) {ctx : Context} {P : Layout → Prop},
    (∀ clause ∈ cs, Covers registries P ctx (.expression clause.condition)) →
    (∀ clause ∈ cs, Covers registries P ctx.inBlock (.block clause.body)) →
    (Layout.clauses ctx registries cs).Each P
  | [], _, _, _, _ => trivial
  | ⟨_, _, condition, body⟩ :: rest, _, _, hcondition, hbody =>
    ⟨⟨each_expression condition (hcondition _ List.mem_cons_self),
        each_statements body fun _ hs => (hbody _ List.mem_cons_self).step (.statement hs)⟩,
      each_clauses rest (fun clause hclause => hcondition clause (List.mem_cons_of_mem _ hclause))
        fun clause hclause => hbody clause (List.mem_cons_of_mem _ hclause)⟩

theorem each_elseClause : ∀ (o : Option ElseClause) {ctx : Context} {P : Layout → Prop},
    (∀ last, o = some last → Covers registries P ctx.inBlock (.block last.body)) →
    (Layout.elseClause ctx registries o).Each P
  | none, _, _, _ => trivial
  | some ⟨_, _, body⟩, _, _, h =>
    each_statements body fun _ hs => (h _ rfl).step (.statement hs)

end

/-- **The methods in a program are those that the walk reaches.** -/
theorem isMethodOf_chunk {c : Chunk} {reach : Layout.Reach} {method : Layout × Layout.Reach}
    (h : method ∈ (Layout.chunk ctx registries c).methods reach) :
    IsMethodOf registries (ctx, .block c.body) method.1 := by
  have hblock : Covers registries (IsMethodOf registries (ctx, .block c.body)) ctx (.block c.body) :=
    fun _ hbody => hbody
  have hstatements : (Layout.statements ctx registries c.body).Each
      (IsMethodOf registries (ctx, .block c.body)) :=
    each_statements c.body fun _ hs => hblock.step (.statement hs)
  have hall : (Layout.chunk ctx registries c).Each
      (IsMethodOf registries (ctx, .block c.body)) := by
    refine ⟨hstatements, ?_, trivial⟩
    split <;> trivial
  exact hall.of_mem h

end LuaCompiler.Emit
