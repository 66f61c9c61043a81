import LuaCompiler.Proofs.Scope.Resolution
import LuaCompiler.Scope.Globals

/-!
# Globals are the free names

The walk over scope events keeps the names visible in each open scope. Over the events of a skeleton
these are the names of the environment, and what the walk finds are the names that occur free.

* `Visibility.run_item`, `Visibility.run_events`: one item, a stretch of program.
* `globals_eq`: the globals of a skeleton that is one scope.
-/

namespace LuaCompiler.Scope

/-- The names that occur free, in the order of their occurrence. -/
def freeNames (occurrences : List Occurrence) : List String :=
  (occurrences.filter Occurrence.isFree).map Occurrence.name

@[simp]
theorem freeNames_append (a b : List Occurrence) :
    freeNames (a ++ b) = freeNames a ++ freeNames b := by
  simp [freeNames]

@[simp]
theorem freeNames_nil : freeNames [] = [] := rfl

theorem freeNames_single (o : Occurrence) : freeNames [o] = if o.isFree then [o.name] else [] := by
  cases h : o.isFree <;> simp [freeNames, h]

namespace Visibility

/-- Adds a name to those found, once. -/
def notice (found : List String) (name : String) : List String :=
  if found.contains name then found else name :: found

/-- The walk stands in an innermost scope of which the open scopes outside are `outer`, and all
visible names are those of an environment. -/
structure Shows (v : Visibility) (outer : List (List String)) (env : Environment) : Prop where
  scopes : ∃ top, v.scopes = top :: outer
  names : v.scopes.flatten = env.map Prod.fst

/-- **What a stretch of program does to the walk**: it ends in the same scope, shows the bindings
visible behind, and has found what is free. -/
structure Finds (v : Visibility) (es : List Event) (outer : List (List String))
    (env : Environment) (occurrences : List Occurrence) : Prop where
  shows_after : (es.foldl step v).Shows outer env
  found : (es.foldl step v).found = (freeNames occurrences).foldl notice v.found

variable {v : Visibility} {outer : List (List String)} {env : Environment}

theorem shows_enter (h : v.Shows outer env) (receiver : Bool) :
    (v.step (.enter receiver)).Shows v.scopes (env.enter receiver none) where
  scopes := ⟨_, rfl⟩
  names := by
    cases receiver <;> simp [step, Environment.enter, Environment.declare, h.names]

theorem shows_declare (h : v.Shows outer env) (identifiers : List Identifier) :
    (v.declare (identifiers.map Identifier.name)).Shows outer (env.declare identifiers) := by
  obtain ⟨top, htop⟩ := h.scopes
  have hnames := h.names
  rw [htop, List.flatten_cons] at hnames
  constructor
  · exact ⟨_, by rw [declare, htop]⟩
  · simp only [declare, htop, Environment.declare, List.flatten_cons, List.append_assoc, hnames]
    simp [Function.comp_def]

theorem found_declare (v : Visibility) (names : List String) : (v.declare names).found = v.found := by
  unfold declare
  split <;> rfl

theorem isLocal_iff (h : v.Shows outer env) (name : String) :
    v.isLocal name = (env.lookup name).isSome := by
  have hmem : v.isLocal name = true ↔ name ∈ v.scopes.flatten := by
    simp [isLocal]
  have hlookup : (env.lookup name).isSome = true ↔ name ∈ env.map Prod.fst := by
    rw [List.lookup_isSome_iff]
    simp
  rw [Bool.eq_iff_iff, hmem, hlookup, h.names]

theorem finds_reference (h : v.Shows outer env) (id : NodeId) (name : String) :
    v.Finds [.reference id name] outer env [⟨id, name, env⟩] := by
  have hlocal := isLocal_iff h name
  have hstep : v.step (.reference id name) =
      if v.isLocal name || v.found.contains name then v
      else { v with found := name :: v.found } := rfl
  constructor
  · simp only [List.foldl_cons, List.foldl_nil, hstep]
    split
    · exact h
    · exact ⟨h.scopes, h.names⟩
  · simp only [List.foldl_cons, List.foldl_nil, hstep, hlocal, freeNames_single, Occurrence.isFree,
      Occurrence.binder?]
    rcases Option.eq_none_or_eq_some (env.lookup name) with hfree | ⟨binder, hbound⟩
    · simp [hfree, notice, apply_ite Visibility.found]
    · simp [hbound]

theorem Finds.append {es es' : List Event} {env' : Environment} {os os' : List Occurrence}
    (h : v.Finds es outer env os)
    (h' : (es.foldl step v).Shows outer env → (es.foldl step v).Finds es' outer env' os') :
    v.Finds (es ++ es') outer env' (os ++ os') := by
  have h' := h' h.shows_after
  constructor
  · simpa only [List.foldl_append] using h'.shows_after
  · rw [List.foldl_append, h'.found, h.found, freeNames_append, List.foldl_append]

theorem finds_declare (h : v.Shows outer env) (event : Event) (identifiers : List Identifier)
    (he : v.step event = v.declare (identifiers.map Identifier.name)) :
    v.Finds [event] outer (env.declare identifiers) [] := by
  constructor
  · simpa only [List.foldl_cons, List.foldl_nil, he] using shows_declare h identifiers
  · simpa only [List.foldl_cons, List.foldl_nil, he, freeNames_nil] using found_declare v _

theorem finds_nil (h : v.Shows outer env) : v.Finds [] outer env [] := ⟨h, rfl⟩

theorem finds_enter (h : v.Shows outer env) (receiver : Bool)
    (parameters : Option (List Identifier)) :
    v.Finds (.enter receiver :: (parameters.map Event.parameters).toList) v.scopes
      (env.enter receiver parameters) [] := by
  have hentered : v.Finds [.enter receiver] v.scopes (env.enter receiver none) [] :=
    ⟨shows_enter h receiver, rfl⟩
  cases parameters with
  | none => exact hentered
  | some identifiers => exact hentered.append fun h => finds_declare h _ identifiers rfl

/-- A scope hides its names again. -/
theorem finds_scope (h : v.Shows outer env) (receiver : Bool)
    (parameters : Option (List Identifier)) {es : List Event} {env' : Environment}
    {os : List Occurrence}
    (hbody : ∀ v' : Visibility, v'.Shows v.scopes (env.enter receiver parameters) →
      v'.Finds es v.scopes env' os) :
    v.Finds (.enter receiver :: ((parameters.map Event.parameters).toList ++ (es ++ [.leave])))
      outer env os := by
  have hopen := (finds_enter h receiver parameters).append fun h => hbody _ h
  rw [List.cons_append, List.nil_append] at hopen
  obtain ⟨top, htop⟩ := hopen.shows_after.scopes
  have hfold : (Event.enter receiver ::
      ((parameters.map Event.parameters).toList ++ (es ++ [.leave]))).foldl step v =
      { (Event.enter receiver :: ((parameters.map Event.parameters).toList ++ es)).foldl step v with
        scopes := v.scopes } := by
    rw [← List.append_assoc, ← List.cons_append, List.foldl_append, List.foldl_cons, List.foldl_nil,
      step, htop, List.tail_cons]
  constructor
  · rw [hfold]
    exact ⟨h.scopes, h.names⟩
  · rw [hfold]
    exact hopen.found

/-- **The walk over a stretch of program.** -/
theorem run_events {items : List Item} (hwf : Skeleton.WellFormed items) (h : v.Shows outer env) :
    v.Finds (Skeleton.events items) outer (Skeleton.bind env items)
      (Skeleton.occurrences env items) := by
  induction items using Skeleton.induction generalizing v outer env with
  | nil => exact finds_nil h
  | reference id name rest ih => exact (finds_reference h id name).append (ih hwf.2)
  | functionName identifier rest ih => exact (finds_reference h _ _).append (ih hwf.2)
  | locals id vars init inner rest ihInner ih =>
    obtain ⟨⟨hplain, hinner⟩, hrest⟩ := hwf
    have hvalues := ihInner hinner h
    rw [Skeleton.bind_plain hplain] at hvalues
    have hfirst := hvalues.append fun h => finds_declare h (.declare id vars init) vars rfl
    rw [List.append_nil] at hfirst
    exact hfirst.append (ih hrest)
  | localFunction identifier rest ih =>
    exact (finds_declare h (.declareFunction identifier) [identifier] rfl).append (ih hwf.2)
  | scope receiver parameters header body rest ihHeader ihBody ih =>
    obtain ⟨⟨hplain, hheader, hbody⟩, hrest⟩ := hwf
    have hbefore := ihHeader hheader h
    rw [Skeleton.bind_plain hplain] at hbefore
    refine Finds.append ?_ (ih hrest)
    exact hbefore.append fun h => finds_scope h receiver parameters fun v' h' => ihBody hbody h'

/-- The names found first, last one first, are those without their repetitions. -/
theorem foldl_notice (names found : List String) :
    (names.foldl notice found).reverse = List.eraseDupsBy.loop (· == ·) names found := by
  induction names generalizing found with
  | nil => rfl
  | cons name rest ih =>
    rw [List.foldl_cons, ih, List.eraseDupsBy.loop, notice, List.contains_eq_any_beq]
    cases found.any (name == ·) <;> rfl

end Visibility

/-- **Globals are the free names**, each once, in the order of first occurrence. -/
theorem globals_eq (chunk : Chunk) :
    globals (Skeleton.events chunk.items) =
      (freeNames chunk.occurrences).eraseDups := by
  have hstart : (Visibility.step {} (.enter false)).Shows [] [] := ⟨⟨[], rfl⟩, rfl⟩
  have hfound := (Visibility.run_events (stmtItems_wellFormed chunk.body) hstart).found
  have hevents : Skeleton.events chunk.items =
      .enter false :: (Skeleton.events (stmtItems chunk.body) ++ [.leave]) := by
    simp [Chunk.items, Skeleton.events, Item.events]
  rw [globals, hevents, chunk.occurrences_eq, List.foldl_cons, List.foldl_append, List.foldl_cons,
    List.foldl_nil]
  change (List.foldl Visibility.step (Visibility.step {} (.enter false)) _).found.reverse = _
  rw [hfound, Visibility.foldl_notice]
  rfl

end LuaCompiler.Scope
