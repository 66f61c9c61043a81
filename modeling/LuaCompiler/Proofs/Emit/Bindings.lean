import LuaCompiler.Proofs.Emit.Sites
import LuaCompiler.Proofs.Scope.Apart

/-!
# The scopes of generated code

A scope of the code is a stretch in braces, the header of a loop, or the parameters of a function
with its body. Each binds identifiers that one scope of the program declares: `local` variables,
local functions, parameters and loop variables. What the program declares again is assigned to and
not bound again, with one exception: a `local` that defines a class always binds its variable.

* `Layout.own`, `Layout.scopes`, `Layout.moduleScopes`: **the bindings of each scope** of the code.
* `Program`: what is known of a program, and `Introduces`: names that come from the declarations of
  one of its scopes.
* `Scoped.append`, `Scoped.block`, `Scoped.region`, `Scoped.callable`: one statement for each way to
  put layouts together.
* `scoped_chunk`: **every scope of the code binds what one scope of the program declares**.
-/

namespace LuaCompiler

open Scope (Annotations Event Item Skeleton.declared Skeleton.events Skeleton.scopes Skeleton.Plain)

namespace Emit

namespace Layout

/-- The identifiers that a layout binds in the scope where it stands, and their names, in the order
of the text. -/
def own : Layout → List (NodeId × String)
  | binding id name => [(id, name)]
  | around _ inner | braces false inner | unlessBlank inner => inner.own
  | twice inner => inner.own ++ inner.own
  | append first second => first.own ++ second.own
  | swapped first second => second.own ++ first.own
  | enclosing outer inner => outer.own ++ inner.own ++ outer.own
  | blank | remark _ | sealing | remaining | word _ | braces true _ | region _ _ | callable _ _ _
  | loopUntil _ _ | dropped _ => []

/-- What the scope in braces binds. -/
def inside : Layout → List (NodeId × String)
  | braces true inner => inner.own
  | _ => []

/-- **The bindings of the scopes that a layout opens.** Parameters share the scope of the body. -/
def scopes : Layout → List (List (NodeId × String))
  | around _ inner | braces false inner | unlessBlank inner | twice inner => inner.scopes
  | braces true inner => inner.own :: inner.scopes
  | append first second | swapped first second | enclosing first second =>
    first.scopes ++ second.scopes
  | region header body => header.own :: (header.scopes ++ body.scopes)
  | callable _ header body => (header.own ++ body.inside) :: (header.scopes ++ body.scopes)
  | loopUntil body condition => body.own :: (body.scopes ++ condition.scopes)
  | blank | remark _ | sealing | remaining | word _ | binding _ _ | dropped _ => []

end Layout

/-- What is known of a program: its annotations, the name of its file, its events and its scopes. -/
structure Program where
  annotations : Annotations
  fileName : String
  events : List Event
  scopes : List (List Identifier)

/-- The program of the nodes in a context. -/
def Context.program (ctx : Context) (events : List Event) (scopes : List (List Identifier)) :
    Program :=
  ⟨ctx.annotations, ctx.fileName, events, scopes⟩

namespace Program

/-- Whether a `local` statement of a variable and a value defines a class: the module's own table, or
a call of `class`. -/
def definesClass (P : Program) (v : Identifier) (value : Expr) : Bool :=
  (v.name == "M" || v.name == P.fileName) && isEmptyTable value ||
    match value.kind with
    | .call base _ arguments => isClassCall base arguments
    | _ => false

/-- An identifier is declared as a class by a `local` statement of its own. -/
def DeclaresClass (P : Program) (v : Identifier) : Prop :=
  ∃ statement value, .declare statement [v] [value] ∈ P.events ∧ P.definesClass v value = true

/-- How a binding of an identifier is written. -/
def bound (P : Program) (v : Identifier) : NodeId × String := (v.id, P.annotations.spelling v)

end Program

/-- **Names that come from the declarations of a scope**, in their order. Those that are declared
again are classes. -/
def Introduces (P : Program) (declared : List Identifier) (names : List (NodeId × String)) : Prop :=
  ∃ vs : List Identifier, vs.Sublist declared ∧ names = vs.map P.bound ∧
    ∀ v ∈ vs, v.id ∈ P.annotations.redeclared → P.DeclaresClass v

/-- A stretch of a program, of which at least one scope is known. -/
structure Covered (P : Program) (items : List Item) : Prop where
  flags : P.annotations.Flags P.events
  known : ∃ declared, declared ∈ P.scopes
  events : Skeleton.events items ⊆ P.events
  scopes : Skeleton.scopes items ⊆ P.scopes

/-- **A layout whose scopes are those of a program**: what it binds comes from some identifiers, and
what each scope in it binds from those of a scope of the program. -/
structure Scoped (P : Program) (declared : List Identifier) (l : Layout) : Prop where
  own : Introduces P declared l.own
  scopes : ∀ names ∈ l.scopes, ∃ declared ∈ P.scopes, Introduces P declared names

variable {P : Program} {events : List Event} {S : List (List Identifier)}
  {declared declared' : List Identifier} {names names' : List (NodeId × String)}
  {items items' : List Item} {first second l : Layout} {ctx : Context} {registries : Registries}

/-! ## Names of a scope -/

/-- No name comes from any declarations. -/
theorem introduces_nil : Introduces P declared [] :=
  ⟨[], List.nil_sublist _, rfl, fun _ h => nomatch h⟩

theorem Introduces.mono (h : Introduces P declared names)
    (hsub : declared.Sublist declared') : Introduces P declared' names := by
  obtain ⟨vs, hvs, hnames⟩ := h
  exact ⟨vs, hvs.trans hsub, hnames⟩

/-- Names of two stretches come from the declarations of both. -/
theorem Introduces.append (h : Introduces P declared names)
    (h' : Introduces P declared' names') :
    Introduces P (declared ++ declared') (names ++ names') := by
  obtain ⟨vs, hvs, rfl, hclasses⟩ := h
  obtain ⟨vs', hvs', rfl, hclasses'⟩ := h'
  refine ⟨vs ++ vs', hvs.append hvs', List.map_append.symm, fun v hv => ?_⟩
  rcases List.mem_append.1 hv with hv | hv
  · exact hclasses v hv
  · exact hclasses' v hv

/-! ## Stretches of a program -/

/-- Part of a known stretch is known. -/
theorem Covered.subset (h : Covered P items') (hsub : items ⊆ items') :
    Covered P items := by
  refine ⟨h.flags, h.known, fun event hevent => ?_, fun scope hscope => ?_⟩
  · obtain ⟨item, hitem, hevent⟩ := Scope.Skeleton.mem_events.1 hevent
    exact h.events (Scope.Skeleton.mem_events.2 ⟨item, hsub hitem, hevent⟩)
  · obtain ⟨item, hitem, hscope⟩ := Scope.Skeleton.mem_scopes.1 hscope
    exact h.scopes (Scope.Skeleton.mem_scopes.2 ⟨item, hsub hitem, hscope⟩)

theorem Covered.left (h : Covered P (items ++ items')) : Covered P items :=
  h.subset (List.subset_append_left _ _)

theorem Covered.right (h : Covered P (items ++ items')) : Covered P items' :=
  h.subset (List.subset_append_right _ _)

/-- The values of a `local` statement. -/
theorem Covered.values {id : NodeId} {vars : List Identifier} {init : List Expr}
    (h : Covered P [.locals id vars init items]) : Covered P items := by
  refine ⟨h.flags, h.known, List.Subset.trans ?_ h.events, List.Subset.trans ?_ h.scopes⟩
  · exact List.subset_append_of_subset_left _ (List.subset_append_left _ _)
  · exact List.subset_append_left _ _

/-- The declaration of a `local` statement is one of the program's events. -/
theorem Covered.declare_mem {id : NodeId} {vars : List Identifier} {init : List Expr}
    (h : Covered P [.locals id vars init items]) : .declare id vars init ∈ P.events := by
  refine h.events (List.mem_append_left _ ?_)
  exact List.mem_append_right _ (List.mem_singleton.2 rfl)

section Scope

variable {receiver : Bool} {parameters : Option (List Identifier)}
  (h : Covered P [.scope receiver parameters items' items])

include h

/-- The header of a scope. -/
theorem Covered.header : Covered P items' := by
  refine ⟨h.flags, h.known, List.Subset.trans ?_ h.events, List.Subset.trans ?_ h.scopes⟩
  · exact List.subset_append_of_subset_left _ (List.subset_append_left _ _)
  · exact List.subset_append_of_subset_left _ (List.subset_append_left _ _)

/-- The body of a scope. -/
theorem Covered.body : Covered P items := by
  refine ⟨h.flags, h.known, List.Subset.trans ?_ h.events, List.Subset.trans ?_ h.scopes⟩
  · refine List.subset_append_of_subset_left _ (List.subset_append_of_subset_right _ ?_)
    refine List.subset_cons_of_subset _ (List.subset_append_of_subset_right _ ?_)
    exact List.subset_append_left _ _
  · refine List.subset_append_of_subset_left _ (List.subset_append_of_subset_right _ ?_)
    exact List.subset_cons_self _ _

/-- A scope of a known stretch is a scope of the program. -/
theorem Covered.scope_mem : parameters.getD [] ++ Skeleton.declared items ∈ P.scopes :=
  h.scopes (List.mem_append_left _ (List.mem_append_right _ List.mem_cons_self))

/-- Parameters and loop variables are never declared again. -/
theorem Covered.introduces_parameters {vars shown : List Identifier}
    (hsome : parameters = some vars) (hsub : shown.Sublist vars) :
    Introduces P vars (shown.map P.bound) := by
  have hmem : .parameters vars ∈ P.events := by
    refine h.events (List.mem_append_left _ (List.mem_append_right _ (List.mem_cons_of_mem _ ?_)))
    rw [hsome]
    exact List.mem_append_left _ (List.mem_singleton.2 rfl)
  exact ⟨shown, hsub, rfl, fun v hv hredeclared =>
    absurd hredeclared (h.flags.parameters vars hmem v (hsub.subset hv))⟩

end Scope

/-! ## Layouts put together -/

/-- What declares nothing may stand where something is declared. -/
theorem Scoped.mono (h : Scoped P declared l) (hsub : declared.Sublist declared') :
    Scoped P declared' l := ⟨h.own.mono hsub, h.scopes⟩

/-- What stands for a stretch that declares nothing binds nothing. -/
theorem Scoped.plain (h : Scoped P (Skeleton.declared items) l) (hplain : Skeleton.Plain items) :
    Scoped P [] l := Scope.Skeleton.declared_plain hplain ▸ h

/-- A text that binds nothing and opens no scope. -/
theorem scoped_silent (h : l.isSilent = true) : Scoped P declared l := by
  cases l with
  | blank | remark _ | sealing | remaining | dropped _ =>
    exact ⟨introduces_nil, fun _ hnames => nomatch hnames⟩
  | _ => cases h

/-- The scopes of two layouts. -/
theorem Scoped.both (hfirst : Scoped P declared first)
    (hsecond : Scoped P declared' second) :
    ∀ names ∈ first.scopes ++ second.scopes,
      ∃ declared ∈ P.scopes, Introduces P declared names := by
  intro names hnames
  rcases List.mem_append.1 hnames with hnames | hnames
  · exact hfirst.scopes names hnames
  · exact hsecond.scopes names hnames

/-- Two layouts in a row bind what both bind. -/
theorem Scoped.append (hfirst : Scoped P declared first)
    (hsecond : Scoped P declared' second) :
    Scoped P (declared ++ declared') (.append first second) :=
  ⟨hfirst.own.append hsecond.own, hfirst.both hsecond⟩

/-- A text in braces that binds what a scope of the program declares. -/
theorem Scoped.braces (h : Scoped P declared l) (hmem : declared' ∈ P.scopes)
    (hsub : declared.Sublist declared') : Scoped P [] (.braces true l) := by
  refine ⟨introduces_nil, fun names hnames => ?_⟩
  rcases List.mem_cons.1 hnames with rfl | hnames
  · exact ⟨declared', hmem, h.own.mono hsub⟩
  · exact h.scopes names hnames

/-- A block. -/
theorem Scoped.block (h : Covered P [.scope false none [] items])
    (hbody : Scoped P (Skeleton.declared items) l) :
    Scoped P [] (.braces true l) :=
  hbody.braces h.scope_mem (.refl _)

/-- A loop with variables of its own. -/
theorem Scoped.region {vars : List Identifier}
    (h : Covered P [.scope false (some vars) items' items])
    (hheader : Scoped P vars first)
    (hbody : Scoped P (Skeleton.declared items) l) :
    Scoped P [] (.region first (.braces true l)) := by
  have hbraces := hbody.braces h.scope_mem (List.sublist_append_right _ _)
  refine ⟨introduces_nil, fun names hnames => ?_⟩
  rcases List.mem_cons.1 hnames with rfl | hnames
  · exact ⟨_, h.scope_mem, hheader.own.mono (List.sublist_append_left _ _)⟩
  · exact hheader.both hbraces names hnames

/-- A loop with a condition behind its body. -/
theorem Scoped.loopUntil (h : Covered P [.scope false none [] (items ++ items')])
    (hbody : Scoped P (Skeleton.declared items) first)
    (hcondition : Scoped P [] second) :
    Scoped P [] (.loopUntil first second) := by
  -- the condition is part of the loop's scope in the program, and declares nothing there
  have hmem := h.scope_mem
  rw [Scope.Skeleton.declared_append] at hmem
  refine ⟨introduces_nil, fun names hnames => ?_⟩
  rcases List.mem_cons.1 hnames with rfl | hnames
  · exact ⟨_, hmem, hbody.own.mono (List.sublist_append_left _ _)⟩
  · exact hbody.both hcondition names hnames

/-! ## Bindings -/

namespace Layout

/-- Layouts in a row bind what each of them binds, in the order of the text. -/
theorem own_row (ls : List Layout) : (row ls).own = ls.flatMap own := by
  fun_induction row ls with
  | case1 => rfl
  | case2 only => simp
  | case3 first rest _ ih => simp [own, ih]

/-- Layouts without scopes stand in a row without scopes. -/
theorem scopes_row {ls : List Layout} (h : ∀ l ∈ ls, l.scopes = []) : (row ls).scopes = [] := by
  fun_induction row ls with
  | case1 => rfl
  | case2 only => exact h only (List.mem_singleton.2 rfl)
  | case3 first rest _ ih =>
    rw [scopes, h first List.mem_cons_self, ih fun l hl => h l (List.mem_cons_of_mem _ hl)]
    rfl

/-- Parameters are bound by their spellings. -/
theorem own_parameters (ctx : Context) (shown : List Identifier) (isVararg : Bool) :
    (parameters ctx shown isVararg).own = shown.map (ctx.program events S).bound := by
  have hrest : (if isVararg then [Layout.blank] else []).flatMap own = [] := by
    cases isVararg <;> rfl
  rw [parameters, own_row, List.flatMap_append, hrest, List.append_nil, List.flatMap_map]
  exact List.map_eq_flatMap.symm

theorem scopes_parameters (ctx : Context) (shown : List Identifier) (isVararg : Bool) :
    (parameters ctx shown isVararg).scopes = [] := by
  refine scopes_row fun l hl => ?_
  rcases List.mem_append.1 hl with hl | hl
  · obtain ⟨v, -, rfl⟩ := List.mem_map.1 hl
    rfl
  · cases isVararg with
    | false => cases hl
    | true => rw [List.mem_singleton.1 hl, scopes]

theorem bindings_eq_parameters (ctx : Context) (vars : List Identifier) :
    bindings ctx vars = parameters ctx vars false := by
  rw [bindings, parameters, if_neg Bool.false_ne_true, List.append_nil]

end Layout

/-- Parameters that come from declarations bind them. -/
theorem scoped_parameters {shown : List Identifier} (isVararg : Bool)
    (h : Introduces (ctx.program events S) declared (shown.map (ctx.program events S).bound)) :
    Scoped (ctx.program events S) declared (Layout.parameters ctx shown isVararg) := by
  refine ⟨?_, fun names hnames => ?_⟩
  · rw [Layout.own_parameters]
    exact h
  · rw [Layout.scopes_parameters] at hnames
    cases hnames

/-- So do the variables of a loop or a `local` statement. -/
theorem scoped_bindings {vars : List Identifier}
    (h : Introduces (ctx.program events S) declared (vars.map (ctx.program events S).bound)) :
    Scoped (ctx.program events S) declared (Layout.bindings ctx vars) := by
  rw [Layout.bindings_eq_parameters]
  exact scoped_parameters false h

/-- A function: its parameters that are written and its body. -/
theorem Scoped.callable {convention : Convention} {vars : List Identifier} {receiver : Bool}
    (h : Covered (ctx.program events S) [.scope receiver (some vars) [] items])
    (hfits : convention.Fits vars receiver) (isVararg : Bool)
    (hbody : Scoped (ctx.program events S) (Skeleton.declared items) l) :
    Scoped (ctx.program events S) [] (.callable (Layout.reception convention vars)
      (Layout.parameters ctx convention.shown isVararg) (.braces true l)) := by
  have hsub : convention.shown.Sublist vars := by
    rw [hfits.split]
    exact List.sublist_append_right _ _
  have hheader : Scoped (ctx.program events S) vars
      (Layout.parameters ctx convention.shown isVararg) :=
    scoped_parameters isVararg (h.introduces_parameters rfl hsub)
  have hbraces := hbody.braces h.scope_mem (List.sublist_append_right _ _)
  refine ⟨introduces_nil, fun names hnames => ?_⟩
  rcases List.mem_cons.1 hnames with rfl | hnames
  · exact ⟨_, h.scope_mem, hheader.own.append hbody.own⟩
  · exact hheader.both hbraces names hnames

/-- A `local` statement that defines no class binds none of its variables again. -/
theorem introduces_newVars {id : NodeId} {vars : List Identifier} {init : List Expr}
    (h : Covered (ctx.program events S) [.locals id vars init items]) :
    Introduces (ctx.program events S) vars
      ((Layout.newVars ctx id vars).map (ctx.program events S).bound) := by
  unfold Layout.newVars
  split
  · refine ⟨_, List.filter_sublist, rfl, fun v hv hredeclared => ?_⟩
    have hcontains : ctx.annotations.redeclared.contains v.id = true :=
      Std.TreeSet.contains_iff_mem.2 hredeclared
    have hnew := (List.mem_filter.1 hv).2
    rw [hcontains] at hnew
    cases hnew
  next hnot =>
    -- no variable of a statement that is not marked is declared again
    refine ⟨vars, .refl _, rfl, fun v hv hredeclared => ?_⟩
    have hmarked := h.flags.statements id vars init h.declare_mem ⟨v, hv, hredeclared⟩
    exact absurd (Std.TreeSet.contains_iff_mem.2 hmarked) hnot

/-- The name of a class is bound whatever its scope has declared. -/
theorem scoped_class {id : NodeId} {v : Identifier} {value : Expr}
    (h : Covered (ctx.program events S) [.locals id [v] [value] items])
    (hvalue : (ctx.program events S).definesClass v value = true) :
    Scoped (ctx.program events S) [v] (.binding v.id (ctx.declaredName v)) := by
  refine ⟨⟨[v], .refl _, rfl, fun w hw _ => ?_⟩, fun _ hnames => nomatch hnames⟩
  rw [List.mem_singleton.1 hw]
  exact ⟨id, value, h.declare_mem, hvalue⟩

/-! ## Programs -/

/-- **What is laid out along a stretch of a program is scoped as the stretch**: in one scope it binds
what the stretch declares there. -/
theorem Layout.Lays.scoped (h : Layout.Lays ctx items l)
    (hcovered : Covered (ctx.program events S) items) :
    Scoped (ctx.program events S) (Skeleton.declared items) l := by
  -- one case for each way to lay out; what is repeated or turned around declares nothing
  induction h with
  | silent _ hsilent => exact scoped_silent hsilent
  | word => exact ⟨introduces_nil, fun _ hnames => nomatch hnames⟩
  | around _ _ ih => exact ⟨(ih hcovered).own, (ih hcovered).scopes⟩
  | bare _ ih | unlessBlank _ ih => exact ⟨(ih hcovered).own, (ih hcovered).scopes⟩
  | braces hplain _ ih =>
    obtain ⟨declared, hmem⟩ := hcovered.known
    exact (((ih hcovered).plain hplain).braces hmem (List.nil_sublist _)).mono (List.nil_sublist _)
  | append _ _ iha ihb =>
    rw [Scope.Skeleton.declared_append]
    exact (iha hcovered.left).append (ihb hcovered.right)
  | swapped hplain _ _ iha ihb =>
    have hplains := Scope.Skeleton.plain_append.1 hplain
    have ha := (iha hcovered.left).plain hplains.1
    have hb := (ihb hcovered.right).plain hplains.2
    exact Scoped.mono ⟨hb.own.append ha.own, ha.both hb⟩ (List.nil_sublist _)
  | enclosing hplain _ _ iha ihb =>
    have hplains := Scope.Skeleton.plain_append.1 hplain
    have ha := (iha hcovered.left).plain hplains.1
    have hb := (ihb hcovered.right).plain hplains.2
    exact Scoped.mono ⟨(ha.own.append hb.own).append ha.own, ha.both hb⟩ (List.nil_sublist _)
  | twice hplain _ ih =>
    have h := (ih hcovered).plain hplain
    exact Scoped.mono ⟨h.own.append h.own, h.scopes⟩ (List.nil_sublist _)
  | part hplain hsub _ ih =>
    have h := (ih (hcovered.subset hsub)).plain fun item hitem => hplain item (hsub hitem)
    exact h.mono (List.nil_sublist _)
  | @within ctx ctx' _ _ hagrees _ ih =>
    have hprogram : ctx'.program events S = ctx.program events S := by
      rw [Context.program, hagrees.annotations, hagrees.fileName]
      rfl
    rw [← hprogram] at hcovered ⊢
    exact ih hcovered
  | locals id vars init hplain _ ih =>
    exact (scoped_bindings (introduces_newVars hcovered)).append ((ih hcovered.values).plain hplain)
  | moduleTable id v value items hname hvalue =>
    exact scoped_class hcovered (Bool.or_eq_true_iff.2 (.inl (Bool.and_eq_true_iff.2
      ⟨hname, hvalue⟩)))
  | localClass id v hkind hcall hplain _ ih =>
    refine (scoped_class hcovered ?_).append ((ih hcovered.values).plain hplain)
    rw [Program.definesClass, hkind]
    exact Bool.or_eq_true_iff.2 (.inr hcall)
  | localFunction name hnew =>
    refine ⟨⟨[name], .refl _, rfl, fun v hv hredeclared => ?_⟩, fun _ hnames => nomatch hnames⟩
    exact absurd (List.mem_singleton.1 hv ▸ hredeclared) hnew
  | redeclared => exact ⟨introduces_nil, fun _ hnames => nomatch hnames⟩
  | block _ ih => exact Scoped.block hcovered (ih hcovered.body)
  | region vars hplain _ _ ihheader ihbody =>
    have hheader := (scoped_bindings (hcovered.introduces_parameters rfl (.refl _))).append
      ((ihheader hcovered.header).plain hplain)
    rw [List.append_nil] at hheader
    exact Scoped.region hcovered hheader (ihbody hcovered.body)
  | loopUntil hplain _ _ ihbody ihcondition =>
    exact Scoped.loopUntil hcovered (ihbody hcovered.body.left)
      ((ihcondition hcovered.body.right).plain hplain)
  | callable hfits isVararg _ ih => exact .callable hcovered hfits isVararg (ih hcovered.body)

end Emit

end LuaCompiler
