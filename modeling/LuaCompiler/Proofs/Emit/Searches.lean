import LuaCompiler.Proofs.Emit.Footprint
import LuaCompiler.Proofs.Emit.Logic
import LuaCompiler.Proofs.Emit.ValueLists
import LuaCompiler.Proofs.Script.Respelled

/-!
# Where the search for a position is respelled

Where values are bound, the first call of the search for a position is respelled as one that gives
all results. It is looked for in the text of the values: anywhere in it where several targets or
values are bound, at its start where one value is bound to one name. Packing the values puts no call
together that none of them has, so it is one value that changes. If that value is a search itself
and no comment in front of it mentions the call, only its callee changes. Otherwise the first
mention in its text does: a call in an argument, a function or a table, or what a literal or a
comment says.

* `Text.replaceFirstIn_append`: the occurrence that is replaced.
* `findAll_packValues`: **packed values change as the first of them that has the call**.
* `IsSearch.run`: the text of a search begins with its callee, behind the comments before it.
* `search_respelled`: **what a declaration or an assignment respells**.
-/

namespace LuaCompiler

namespace Text

variable {old new a b : List Char} {c : Char}

/-! ## The occurrence that is replaced -/

theorem length_le_of_occurs (h : occurs old a = true) : old.length ≤ a.length := by
  induction a with
  | nil =>
    have hempty : old = [] := List.isEmpty_iff.1 h
    rw [hempty]
  | cons d ds ih =>
    rcases Bool.or_eq_true_iff.1 h with hhere | hrest
    · exact (List.isPrefixOf_iff_prefix.1 hhere).length_le
    · exact (ih hrest).trans (Nat.le_succ _)

theorem not_start_of_not_occurs {d : Char} {ds : List Char} (h : occurs old (d :: ds) = false) :
    ¬ old <+: d :: ds ∧ occurs old ds = false := by
  rw [occurs, Bool.or_eq_false_iff] at h
  refine ⟨fun hhere => ?_, h.2⟩
  rw [List.isPrefixOf_iff_prefix.2 hhere] at h
  exact Bool.noConfusion h.1

theorem replaceFirstIn_start {d : Char} {ds : List Char} (h : old <+: d :: ds) :
    replaceFirstIn old new (d :: ds) = new ++ (d :: ds).drop old.length := by
  rw [replaceFirstIn, if_pos (List.isPrefixOf_iff_prefix.2 h)]

theorem replaceFirstIn_unlessStart {d : Char} {ds : List Char} (h : ¬ old <+: d :: ds) :
    replaceFirstIn old new (d :: ds) = d :: replaceFirstIn old new ds := by
  rw [replaceFirstIn, if_neg (mt List.isPrefixOf_iff_prefix.1 h)]

theorem replaceFirstIn_of_not_occurs (h : occurs old a = false) : replaceFirstIn old new a = a := by
  induction a with
  | nil => rfl
  | cons d ds ih =>
    obtain ⟨hhere, hrest⟩ := not_start_of_not_occurs h
    rw [replaceFirstIn_unlessStart hhere, ih hrest]

/-- The first occurrence in a text stays the first whatever follows. -/
theorem replaceFirstIn_append_of_occurs (hold : old ≠ []) (h : occurs old a = true) :
    replaceFirstIn old new (a ++ b) = replaceFirstIn old new a ++ b := by
  induction a with
  | nil => exact absurd (List.isEmpty_iff.1 h) hold
  | cons d ds ih =>
    have hlength : old.length ≤ (d :: ds).length := length_le_of_occurs h
    by_cases hhere : old <+: d :: ds
    · have hlong : old <+: d :: (ds ++ b) := hhere.trans (List.prefix_append (d :: ds) b)
      rw [List.cons_append, replaceFirstIn_start hlong, replaceFirstIn_start hhere,
        ← List.cons_append, List.drop_append_of_le_length hlength, List.append_assoc]
    · -- what follows cannot complete an occurrence: there is one further in the text
      have hlong : ¬ old <+: d :: (ds ++ b) := fun hlong => hhere <|
        List.prefix_of_prefix_length_le hlong (List.prefix_append (d :: ds) b) hlength
      have hrest : occurs old ds = true := by
        rw [occurs, Bool.or_eq_true] at h
        exact h.resolve_left (mt List.isPrefixOf_iff_prefix.1 hhere)
      rw [List.cons_append, replaceFirstIn_unlessStart hlong,
        replaceFirstIn_unlessStart hhere, ih hrest, List.cons_append]

/-- A sign that the searched text does not have keeps what stands on its two sides apart. -/
theorem replaceFirstIn_append_cons (hold : old ≠ []) (h : occurs old a = false) (hc : c ∉ old) :
    replaceFirstIn old new (a ++ c :: b) = a ++ c :: replaceFirstIn old new b := by
  induction a with
  | nil =>
    have hhere : ¬ old <+: c :: b := by
      intro hhere
      obtain ⟨d, ds, rfl⟩ := List.exists_cons_of_ne_nil hold
      obtain ⟨rfl, -⟩ := List.cons_prefix_cons.1 hhere
      exact hc List.mem_cons_self
    exact replaceFirstIn_unlessStart hhere
  | cons d ds ih =>
    obtain ⟨hhere, hrest⟩ := not_start_of_not_occurs h
    have hlong : ¬ old <+: d :: (ds ++ c :: b) := by
      intro hlong
      rcases Nat.lt_or_ge (d :: ds).length old.length with hlt | hge
      · -- an occurrence that reaches beyond the text has the sign
        have hsign : (d :: ds) ++ [c] <+: old :=
          List.prefix_of_prefix_length_le ⟨b, by simp⟩ hlong (by simp at hlt ⊢; omega)
        exact hc (hsign.subset (by simp))
      · exact hhere <|
          List.prefix_of_prefix_length_le hlong (List.prefix_append (d :: ds) (c :: b)) hge
    rw [List.cons_append, replaceFirstIn_unlessStart hlong, ih hrest, List.cons_append]

/-- **The occurrence that is replaced** where a text without one stands before one: a text that ends
in a sign of which it has no other cannot overlap itself. -/
theorem replaceFirstIn_append (h : occurs (old ++ [c]) a = false) (hc : c ∉ old) :
    replaceFirstIn (old ++ [c]) new (a ++ (old ++ [c] ++ b)) = a ++ (new ++ b) := by
  induction a with
  | nil =>
    obtain ⟨d, ds, hcons⟩ : ∃ d ds, old ++ [c] ++ b = d :: ds :=
      List.exists_cons_of_ne_nil (by simp)
    have hhere : old ++ [c] <+: d :: ds := hcons ▸ List.prefix_append _ b
    rw [List.nil_append, List.nil_append, hcons, replaceFirstIn_start hhere, ← hcons,
      List.drop_left]
  | cons d ds ih =>
    obtain ⟨hhere, hrest⟩ := not_start_of_not_occurs h
    have hlong : ¬ old ++ [c] <+: d :: (ds ++ (old ++ [c] ++ b)) := by
      intro hlong
      rcases Nat.lt_or_ge old.length (d :: ds).length with hlt | hge
      · exact hhere <| List.prefix_of_prefix_length_le hlong
          (List.prefix_append (d :: ds) _) (by simp at hlt ⊢; omega)
      · -- the occurrence would begin before the one that is written and end inside it
        have hfront : d :: ds <+: old := List.prefix_of_prefix_length_le
          (List.prefix_append (d :: ds) (old ++ [c] ++ b))
          ((List.prefix_append old [c]).trans hlong) hge
        obtain ⟨t, ht⟩ := hfront
        have hover : t ++ [c] <+: old ++ [c] ++ b := by
          refine (List.prefix_append_right_inj (d :: ds)).1 ?_
          rw [← List.append_assoc, ht]
          exact hlong
        have hlength : (t ++ [c]).length ≤ old.length := by
          rw [← ht]
          simp
        have hinside : t ++ [c] <+: old := List.prefix_of_prefix_length_le hover
          ((List.prefix_append old [c]).trans (List.prefix_append _ b)) hlength
        exact hc (hinside.subset (by simp))
    rw [List.cons_append, replaceFirstIn_unlessStart hlong, ih hrest, List.cons_append]

end Text

namespace Emit

open Script (searchCall searchAllCall)

variable {ctx : Context} {e : Expr} {a b : String} {c : Char}

/-! ## Packed values -/

/-- Whether a text has a call of the search. -/
def mentionsSearch (text : String) : Bool := Text.contains text "l2j.string.find("

theorem toList_findAll (text : String) :
    (findAll text).toList = Text.replaceFirstIn searchCall searchAllCall text.toList :=
  String.toList_ofList

theorem findAll_of_not_mentions (h : mentionsSearch a = false) : findAll a = a := by
  rw [← String.toList_inj, toList_findAll]
  exact Text.replaceFirstIn_of_not_occurs h

theorem findAll_append_of_mentions (h : mentionsSearch a = true) :
    findAll (a ++ b) = findAll a ++ b := by
  rw [← String.toList_inj, toList_findAll, String.toList_append, String.toList_append,
    toList_findAll]
  exact Text.replaceFirstIn_append_of_occurs (by decide) h

/-- A sign that the call does not have keeps what stands on its two sides apart. -/
theorem findAll_append_sign (h : mentionsSearch a = false) (hc : c ∉ searchCall) :
    findAll (a ++ (String.singleton c ++ b)) = a ++ (String.singleton c ++ findAll b) := by
  rw [← String.toList_inj, toList_findAll]
  simp only [String.toList_append, String.toList_singleton, toList_findAll]
  exact Text.replaceFirstIn_append_cons (by decide) h hc

theorem mentionsSearch_empty : mentionsSearch "" = false := by decide

/-- A comma between two texts keeps them apart. -/
theorem findAll_append_comma (h : mentionsSearch a = false) :
    findAll (a ++ ", " ++ b) = a ++ ", " ++ findAll b := by
  have hcomma : ", " = String.singleton ',' ++ String.singleton ' ' := by decide
  have hblank : findAll (String.singleton ' ' ++ b) = String.singleton ' ' ++ findAll b := by
    have h := findAll_append_sign (b := b) mentionsSearch_empty (c := ' ') (by decide)
    rwa [String.empty_append, String.empty_append] at h
  rw [hcomma, String.append_assoc, String.append_assoc, findAll_append_sign h (by decide), hblank,
    String.append_assoc, String.append_assoc]

/-- Whether the rules take a value for a call of the search: a lone value that begins with one, and
one of several that has one. -/
def isMet (alone : Bool) (text : String) : Bool :=
  if alone then Text.startsWith (Text.trimStart text) "l2j.string.find(" else mentionsSearch text

/-- Some values with the first that is taken for a call of the search respelled. -/
def respellFirst (alone : Bool) : List String → List String
  | [] => []
  | value :: rest =>
    if isMet alone value then findAll value :: rest else value :: respellFirst alone rest

theorem respellFirst_ne_nil {alone : Bool} {value : String} {rest : List String} :
    respellFirst alone (value :: rest) ≠ [] := by
  rw [respellFirst]
  split
  · exact List.cons_ne_nil _ _
  · exact List.cons_ne_nil _ _

theorem commas_cons {value : String} {values : List String} (h : values ≠ []) :
    commas (value :: values) = value ++ ", " ++ commas values :=
  String.intercalate_cons_of_ne_nil h

/-- Values in a row change as the first of them that has the call. -/
theorem findAll_commas (values : List String) :
    findAll (commas values ++ "]") = commas (respellFirst false values) ++ "]" := by
  induction values with
  | nil => decide
  | cons value rest ih =>
    have hmet : isMet false value = mentionsSearch value := rfl
    rcases eq_or_ne rest [] with rfl | hrest
    · -- the last value: the bracket behind it belongs to no call
      have hone (v : String) : commas [v] = v := String.intercalate_singleton
      rw [respellFirst, hmet, hone]
      cases hvalue : mentionsSearch value with
      | true => rw [findAll_append_of_mentions hvalue, if_pos rfl, hone]
      | false =>
        have hbracket := findAll_append_sign (b := "") hvalue (c := ']') (by decide)
        rw [if_neg Bool.false_ne_true, respellFirst, hone]
        exact hbracket
    · rw [commas_cons hrest, respellFirst, hmet]
      cases hvalue : mentionsSearch value with
      | true =>
        rw [if_pos rfl, commas_cons hrest, String.append_assoc, String.append_assoc,
          findAll_append_of_mentions hvalue, String.append_assoc, String.append_assoc]
      | false =>
        have hrespelled : respellFirst false rest ≠ [] := by
          obtain ⟨second, others, rfl⟩ := List.exists_cons_of_ne_nil hrest
          exact respellFirst_ne_nil
        rw [if_neg Bool.false_ne_true, commas_cons hrespelled, String.append_assoc,
          findAll_append_comma hvalue, ih, ← String.append_assoc]

theorem findAll_brackets (values : List String) :
    findAll (brackets (commas values)) = brackets (commas (respellFirst false values)) := by
  have hopen := findAll_append_sign (b := commas values ++ "]") mentionsSearch_empty (c := '[')
    (by decide)
  rw [String.empty_append, String.empty_append, findAll_commas] at hopen
  rw [brackets, brackets, String.append_assoc, String.append_assoc]
  exact hopen

theorem findAll_packText (values : List String) :
    findAll (packText values) = packText (respellFirst false values) := by
  match values with
  | [] => decide
  | [only] =>
    have hmet : isMet false only = mentionsSearch only := rfl
    rw [respellFirst, hmet, packText]
    cases honly : mentionsSearch only with
    | true => rfl
    | false => exact findAll_of_not_mentions honly
  | first :: second :: rest =>
    have hmany : packText (respellFirst false (first :: second :: rest)) =
        brackets (commas (respellFirst false (first :: second :: rest))) := by
      obtain ⟨x, xs, htail⟩ : ∃ x xs, respellFirst false (second :: rest) = x :: xs :=
        List.exists_cons_of_ne_nil respellFirst_ne_nil
      rw [respellFirst]
      split
      · rfl
      · rw [htail]
        rfl
    rw [hmany]
    exact findAll_brackets _

/-- **Packed values change as the first of them that has the call.** -/
theorem findAll_packValues (init : List Expr) (values : List String) :
    findAll (packValues init values) = packValues init (respellFirst false values) := by
  unfold packValues
  split
  · split
    · exact findAll_packText values
    · exact findAll_brackets values
  · exact findAll_packText values

/-! ## Searches -/

/-- **A search for a position**: a call of `string.find`, where no parameter hides the library. -/
def IsSearch (ctx : Context) (e : Expr) : Prop :=
  ctx.isParameter "string" = false ∧ ∃ baseId baseSpan library identifier style arguments,
    e.kind = .call ⟨baseId, baseSpan, .member library .dot identifier⟩ style arguments ∧
      library.name? = some "string" ∧ identifier.name = "find"

theorem qualifiedName_search {baseId : NodeId} {baseSpan : Span} {library : Expr}
    {identifier : Identifier} (hlibrary : library.name? = some "string")
    (hname : identifier.name = "find") :
    Expr.qualifiedName? ⟨baseId, baseSpan, .member library .dot identifier⟩ =
      some ("string", "find") := by
  unfold Expr.qualifiedName?
  dsimp only
  rw [hlibrary, hname, Option.map_some]

/-- A search is lowered as the call of a library function. -/
theorem patternAt_search {baseId : NodeId} {baseSpan : Span} {library : Expr}
    {identifier : Identifier} (arguments : List Expr) (hhidden : ctx.isParameter "string" = false)
    (hlibrary : library.name? = some "string") (hname : identifier.name = "find") :
    patternAt ctx ⟨⟨baseId, baseSpan, .member library .dot identifier⟩, arguments⟩ =
      .systemFunction := by
  have hqualified : Expr.qualifiedName? ⟨baseId, baseSpan, .member library .dot identifier⟩ =
      some ("string", "find") := qualifiedName_search hlibrary hname
  have hpattern (receiver : Option String) (valueTypes : List String) :
      CallSite.pattern ⟨⟨baseId, baseSpan, .member library .dot identifier⟩, arguments⟩ receiver
        valueTypes = .systemFunction := by
    have hcalls (name : String) : CallSite.calls
        ⟨⟨baseId, baseSpan, .member library .dot identifier⟩, arguments⟩ name = false := rfl
    have hvararg : CallSite.selectsVararg
        ⟨⟨baseId, baseSpan, .member library .dot identifier⟩, arguments⟩ = false := by
      unfold CallSite.selectsVararg
      split
      · rw [hcalls, Bool.false_and]
      · rfl
    have hother (module name : String) (h : (("string", "find") == (module, name)) = false) :
        CallSite.callsLibrary ⟨⟨baseId, baseSpan, .member library .dot identifier⟩, arguments⟩
          module name = false := by
      rw [CallSite.callsLibrary, hqualified]
      exact h
    have hsystem : CallSite.callsSystemFunction
        ⟨⟨baseId, baseSpan, .member library .dot identifier⟩, arguments⟩ = true := by
      unfold CallSite.callsSystemFunction
      dsimp only
      rw [hlibrary]
      decide
    -- the rules that come first ask for other names than those of a search
    unfold CallSite.pattern
    simp only [hcalls, hvararg, hsystem, hother "string" "format" (by decide),
      hother "table" "insert" (by decide), hother "table" "concat" (by decide), Bool.false_and,
      Bool.false_eq_true, if_false, if_true]
  rw [patternAt, hpattern]
  dsimp only
  rw [hqualified, Option.any_some, hhidden, if_neg (by simp)]

/-- The text of a node begins with the comments before it. -/
theorem exists_around (span : Span) (node : Emit String) (p : Progress) :
    ∃ q behind, ((around span node).run p).1 =
      ((commentsBefore span).run p).1 ++ ((node.run q).1 ++ behind) :=
  ⟨_, _, String.append_assoc⟩

/-- The text of a search without the comments around it. -/
theorem libraryCall_find (parts : CallParts) (q : Progress) :
    ((libraryCall parts "string" "find").run q).1 = "l2j.string.find(" ++
      (commas (parts.arguments.run ((useSystemFunction "string" "find").run q).2).1 ++ ")") := by
  have hcall (texts : List String) : callText ("l2j." ++ "string" ++ "." ++ Name.asProperty "find")
      texts = "l2j.string.find(" ++ (commas texts ++ ")") := by
    have hname : "l2j." ++ "string" ++ "." ++ Name.asProperty "find" = "l2j.string.find" := by
      decide
    have hparens : parens (commas texts) = "(" ++ (commas texts ++ ")") := String.append_assoc
    have hopen : "l2j.string.find(" = "l2j.string.find" ++ "(" := by decide
    rw [callText, hname, hparens, hopen, String.append_assoc]
  exact hcall _

/-- **The text of a search** begins with its callee, behind the comments before it. -/
theorem IsSearch.run (h : IsSearch ctx e) (role : Role) (p : Progress) :
    ∃ rest, ((expression ctx role e).run p).1 =
      ((commentsBefore e.span).run p).1 ++ ("l2j.string.find(" ++ rest) := by
  obtain ⟨hhidden, baseId, baseSpan, library, identifier, style, arguments, hkind, hlibrary,
    hname⟩ := h
  obtain ⟨id, span, kind⟩ := e
  obtain rfl : kind = _ := hkind
  have hcall (parts : CallParts) : call ctx role
      ⟨⟨baseId, baseSpan, .member library .dot identifier⟩, arguments⟩ parts =
        libraryCall parts "string" "find" := by
    rw [call, patternAt_search arguments hhidden hlibrary hname]
    dsimp only
    rw [qualifiedName_search hlibrary hname]
  rw [expression, expressionKind, hcall]
  obtain ⟨q, behind, haround⟩ := exists_around span (libraryCall _ "string" "find") p
  rw [haround, libraryCall_find, String.append_assoc]
  exact ⟨_, rfl⟩

/-! ## Respelled callees -/

/-- The text of a search in which the first call of the search is the search itself: no comment
before it has the call. -/
structure SearchText (ctx : Context) (e : Expr) (text : String) : Prop where
  search : IsSearch ctx e
  written : ∃ role q, ((expression ctx role e).run q).1 = text ∧
    mentionsSearch ((commentsBefore e.span).run q).1 = false

/-- **The first of some values that the rules take for a call of the search is one**, if there is
such a value. -/
def FirstIsSearch (ctx : Context) (alone : Bool) : List Expr → List String → Prop
  | e :: es, value :: values =>
    if isMet alone value then SearchText ctx e value else FirstIsSearch ctx alone es values
  | _, _ => True

/-- **Some values with the search respelled as a callee only**: values that are searches themselves
may have their callee respelled, behind the comments before it, and nothing else differs. -/
inductive Respells (ctx : Context) : List Expr → List String → List String → Prop where
  | nil : Respells ctx [] [] []
  | same {e es value values others} (h : Respells ctx es values others) :
    Respells ctx (e :: es) (value :: values) (value :: others)
  | callee {e es values others role q rest} (he : IsSearch ctx e)
    (htext : ((expression ctx role e).run q).1 =
      ((commentsBefore e.span).run q).1 ++ ("l2j.string.find(" ++ rest))
    (h : Respells ctx es values others) :
    Respells ctx (e :: es) (((expression ctx role e).run q).1 :: values)
      ((((commentsBefore e.span).run q).1 ++ ("l2j.string.findWithRet(" ++ rest)) :: others)

theorem Respells.refl (ctx : Context) {es : List Expr} {values : List String}
    (h : es.length = values.length) : Respells ctx es values values := by
  induction es generalizing values with
  | nil =>
    obtain rfl : values = [] := List.length_eq_zero_iff.1 h.symm
    exact .nil
  | cons e es ih =>
    obtain ⟨value, values, rfl⟩ := List.exists_cons_of_length_eq_add_one h.symm
    exact .same (ih (Nat.succ.inj h))

/-- In a text whose first call of the search stands behind a text without one, that call changes. -/
theorem findAll_append_search (h : mentionsSearch a = false) (rest : String) :
    findAll (a ++ ("l2j.string.find(" ++ rest)) = a ++ ("l2j.string.findWithRet(" ++ rest) := by
  have hcall : searchCall = "l2j.string.find".toList ++ ['('] := by decide
  have hfront : Text.occurs ("l2j.string.find".toList ++ ['(']) a.toList = false := hcall ▸ h
  have hfirst : Text.replaceFirstIn searchCall searchAllCall
      (a.toList ++ (searchCall ++ rest.toList)) = a.toList ++ (searchAllCall ++ rest.toList) := by
    rw [hcall]
    exact Text.replaceFirstIn_append hfront (by decide)
  rw [← String.toList_inj, toList_findAll, String.toList_append, String.toList_append,
    String.toList_append, String.toList_append]
  exact hfirst

/-- The first value that is met changes at its callee, if it is a search itself. -/
theorem respells_respellFirst {alone : Bool} {es : List Expr} {values : List String}
    (hlength : es.length = values.length) (h : FirstIsSearch ctx alone es values) :
    Respells ctx es values (respellFirst alone values) := by
  induction es generalizing values with
  | nil =>
    obtain rfl : values = [] := List.length_eq_zero_iff.1 hlength.symm
    exact .nil
  | cons e es ih =>
    obtain ⟨value, values, rfl⟩ := List.exists_cons_of_length_eq_add_one hlength.symm
    have htail : es.length = values.length := Nat.succ.inj hlength
    rw [FirstIsSearch] at h
    rw [respellFirst]
    cases hmet : isMet alone value with
    | false =>
      rw [hmet, if_neg Bool.false_ne_true] at h
      exact .same (ih htail h)
    | true =>
      rw [hmet, if_pos rfl] at h
      obtain ⟨hsearch, role, q, rfl, hbefore⟩ := h
      obtain ⟨rest, hrest⟩ := hsearch.run role q
      have hrespelled := findAll_append_search hbefore rest
      rw [← hrest] at hrespelled
      rw [if_pos rfl, hrespelled]
      exact .callee hsearch hrest (.refl ctx htail)

/-! ## Declarations and assignments -/

/-- The number of targets and the values of a declaration or an assignment. -/
def binding? : StmtKind → Option (Nat × List Expr)
  | .local vars init => some (vars.length, init)
  | .assignment targets init => some (targets.length, init)
  | _ => none

/-- From where the values of a declaration or an assignment are lowered: behind its targets, if they
are lowered too. -/
def beforeValues (ctx : Context) (p : Progress) : StmtKind → Progress
  | .assignment targets _ => ((expressions ctx.asValue .single targets).run p).2
  | _ => p

/-- Whether one value is bound to one target. -/
def isAlone (count : Nat) (init : List Expr) : Bool := count == 1 && init.length == 1

/-- **What stands behind the sign of equality** where some values are bound: the values packed, or
the one value, which may be fetched from the global object or made a class. -/
inductive RightSide (alone : Bool) (init : List Expr) : List String → String → Prop where
  | packed (h : alone = false) (values : List String) :
    RightSide alone init values (packValues init values)
  | one (h : alone = true) (value : String) : RightSide alone init [value] value
  | global (h : alone = true) (value : String) :
    RightSide alone init [value] ("globalThis." ++ value)
  | made (h : alone = true) (value : String) :
    RightSide alone init [value] (createClassText [value])

/-- Whether a statement makes a class or appends a value to a table in place of binding its values.
-/
def makes (ctx : Context) : StmtKind → Bool
  | .local vars init => definesLocalClass ctx vars init
  | .assignment targets init => (appendBase? targets init).isSome || definesClass targets init
  | _ => false

/-- **The text of a statement that makes a class or appends a value**: the texts of the parts stand
in it as they are. -/
inductive Made (ctx : Context) (init : List Expr) : String → Prop where
  | append (base : Expr) (p q : Progress) :
    Made ctx init (callText "l2j.table.insert" [asBase base ((expression ctx .single base).run p).1,
      ((firstExpression ctx init).run q).1])
  | native (lead : String) (name : Option String) (p : Progress) :
    Made ctx init (lead ++ classText name ((valueClassBody ctx init).run p).1.2
      ((valueClassBody ctx init).run p).1.1)
  | arguments (name : String) (p : Progress) :
    Made ctx init ("let " ++ name ++ " = " ++ createClassText ((callArguments ctx init).run p).1)
  | module (name : String) :
    Made ctx init ("let " ++ name ++ " = " ++ createClassText ["\"" ++ ctx.fileName ++ "\""])

/-- A text that binds some values, or the same values respelled. -/
def BindsValues (alone : Bool) (init : List Expr) (values : List String) (text : String) : Prop :=
  ∃ front others right, text = front ++ " = " ++ right ∧ RightSide alone init others right ∧
    (others = respellFirst alone values ∨ alone = true ∧ others = values)

theorem BindsValues.behind {alone : Bool} {init : List Expr} {values : List String} {text : String}
    (h : BindsValues alone init values text) (declarations : String) :
    BindsValues alone init values (declarations ++ text) := by
  obtain ⟨front, others, right, rfl, hright, hothers⟩ := h
  refine ⟨declarations ++ front, others, right, ?_, hright, hothers⟩
  rw [String.append_assoc, String.append_assoc, String.append_assoc]

/-- A name bound to one value. -/
theorem binds_boundText (lead pattern name : String) (node : Expr) (value : String)
    (isFirst : Bool) :
    BindsValues true [node] [value] (boundText ctx lead pattern name node value isFirst) := by
  have hkept {right : String} (h : RightSide true [node] [value] right) :
      BindsValues true [node] [value] (lead ++ pattern ++ " = " ++ right) :=
    ⟨lead ++ pattern, [value], right, rfl, h, .inr ⟨rfl, rfl⟩⟩
  unfold boundText
  split
  · exact hkept (.made rfl value)
  · split
    · exact hkept (.one rfl value)
    · unfold bindPlain
      split
      · unfold copiedName
        split
        · exact hkept (.global rfl value)
        · exact hkept (.one rfl value)
      · split
        next hstarts =>
          have hmet : isMet true value = true := hstarts
          have hrespelled : [findAll value] = respellFirst true [value] := by
            rw [respellFirst, hmet, if_pos rfl]
          exact ⟨lead ++ brackets pattern, [findAll value], findAll value, rfl, .one rfl _,
            .inl hrespelled⟩
        next => exact hkept (.one rfl value)

/-- **Targets bound to some values.** -/
theorem binds_bind (ctx : Context) (targets : Targets) {init : List Expr} {values : List String}
    (hlength : values.length = init.length) (p : Progress) :
    BindsValues (isAlone targets.texts.length init) init values
      ((bind ctx targets init values).run p).1 := by
  cases halone : isAlone targets.texts.length init with
  | false =>
    -- several targets or values are bound as one pattern
    have hmany : targets.texts.length ≠ 1 ∨ init.length ≠ 1 := by
      rw [isAlone, Bool.and_eq_false_iff] at halone
      simpa using halone
    rw [bind_many ctx values hmany]
    exact ⟨targets.lead ++ targets.pattern, _, _, rfl,
      findAll_packValues init values ▸ .packed rfl _, .inl rfl⟩
  | true =>
    obtain ⟨htargets, hinit⟩ : targets.texts.length = 1 ∧ init.length = 1 := by
      simpa [isAlone] using halone
    obtain ⟨t, htexts⟩ := List.length_eq_one_iff.1 htargets
    obtain ⟨node, rfl⟩ := List.length_eq_one_iff.1 hinit
    obtain ⟨value, rfl⟩ := List.length_eq_one_iff.1 hlength
    -- a target that is no name has its text in front of the value
    cases hsingle : targets.single with
    | none =>
      have hbind : bind ctx targets [node] [value] =
          return targets.lead ++ targets.pattern ++ " = " ++ value := by
        unfold bind
        rw [htexts, hsingle]
      rw [hbind]
      exact ⟨targets.lead ++ targets.pattern, [value], value, rfl, .one rfl value, .inr ⟨rfl, rfl⟩⟩
    | some name =>
      have hbind : bind ctx targets [node] [value] = bindName ctx targets name node value := by
        unfold bind
        rw [htexts, hsingle]
      rw [hbind, bindName_run, bindAs_run]
      exact binds_boundText _ _ name node value _

section Statements

variable {id : NodeId} {span : Span} {p : Progress}

/-- A `local` statement that makes a class. -/
theorem made_localStatement {vars : List Identifier} {init : List Expr} {parts : LocalParts}
    (hclass : definesLocalClass ctx vars init = true)
    (hbody : parts.classBody = valueClassBody ctx init)
    (harguments : parts.arguments = callArguments ctx init) :
    Made ctx init ((localStatement ctx id vars init parts).run p).1 := by
  unfold definesLocalClass at hclass
  split at hclass
  next v value =>
    obtain ⟨valueId, valueSpan, kind⟩ := value
    unfold localStatement localClass?
    dsimp only
    cases hmodule : ctx.isTop && isModuleName ctx v.name &&
      isEmptyTable ⟨valueId, valueSpan, kind⟩ with
    | true => exact .module (ctx.declaredName v)
    | false =>
      rw [hmodule, Bool.false_or] at hclass
      rw [if_neg Bool.false_ne_true]
      cases kind with
      | call base style arguments =>
        have hcall : isClassCall base arguments = true := hclass
        dsimp only
        rw [hcall, hbody, harguments]
        cases isNativeClass arguments with
        | true =>
          -- the class stands behind nothing, which the general form leaves open
          have hnative : Made ctx [⟨valueId, valueSpan, .call base style arguments⟩] ("" ++ _) :=
            .native "" (some (ctx.declaredName v)) p
          rwa [String.empty_append] at hnative
        | false =>
          cases hdeclares : ctx.isTop with
          | true => exact .arguments (ctx.declaredName v) _
          | false => exact .arguments (ctx.declaredName v) p
      | _ => cases hclass
  next => cases hclass

/-- An assignment that makes a class or appends a value. -/
theorem made_assignment {targets init : List Expr} {parts : AssignmentParts}
    (hmakes : makes ctx (.assignment targets init) = true)
    (hbase : parts.indexBase = indexBase ctx targets)
    (hvalue : parts.firstValue = firstExpression ctx init)
    (hbody : parts.classBody = valueClassBody ctx init) :
    Made ctx init ((assignment ctx targets init parts).run p).1 := by
  unfold assignment
  cases happend : appendBase? targets init with
  | some base =>
    -- behind the end of a table one value is stored, that of the statement
    unfold appendBase? at happend
    split at happend
    next targetId targetSpan target index value =>
      split at happend
      next =>
        obtain rfl : target = base := Option.some.inj happend
        rw [hbase, hvalue, indexBase]
        exact .append target _ _
      next => cases happend
    next => cases happend
  | none =>
    have hclass : definesClass targets init = true := by
      rw [makes, happend] at hmakes
      exact hmakes
    -- otherwise the statement defines a class, under one target
    obtain ⟨target, rfl⟩ : ∃ target, targets = [target] := by
      unfold definesClass at hclass
      split at hclass
      · exact ⟨_, rfl⟩
      · cases hclass
    rw [hclass]
    dsimp only
    unfold assignClass
    split
    next name hname =>
      rw [hbody]
      exact .native _ (some (Name.asBinding (ctx.annotations.resolve target.id name))) p
    next =>
      rw [hbody]
      exact .native _ none _

/-- **A `local` statement binds its values.** -/
theorem binds_local {vars : List Identifier} {init : List Expr} (hinit : init ≠ [])
    (hno : definesLocalClass ctx vars init = false) :
    BindsValues (isAlone vars.length init) init
      ((expressions ctx.asValue (bindRole vars.length init) init).run p).1
      ((statement ctx id span (.local vars init)).run p).1 := by
  have hvalues : init.isEmpty = false := List.isEmpty_eq_false_iff.2 hinit
  have hbinds := binds_bind ctx.asValue (localTargets ctx id vars).2
    (length_expressions ctx.asValue (bindRole vars.length init) init p)
    ((expressions ctx.asValue (bindRole vars.length init) init).run p).2
  rw [length_localTargets] at hbinds
  rw [statement, localStatement_eq_binding hno, localBinding, hvalues]
  exact hbinds.behind (localTargets ctx id vars).1

/-- **An assignment binds its values**, which are lowered behind its targets. -/
theorem binds_assignment {targets init : List Expr} (happend : appendBase? targets init = none)
    (hno : definesClass targets init = false) :
    BindsValues (isAlone targets.length init) init
      ((expressions ctx.asValue (bindRole targets.length init) init).run
        ((expressions ctx.asValue .single targets).run p).2).1
      ((statement ctx id span (.assignment targets init)).run p).1 := by
  have htexts : (assignedTargets ctx targets
      ((expressions ctx.asValue .single targets).run p).1).texts.length = targets.length := by
    rw [← length_expressions ctx.asValue .single targets p]
    unfold assignedTargets
    split <;> rfl
  have hbinds := binds_bind ctx.asValue
    (assignedTargets ctx targets ((expressions ctx.asValue .single targets).run p).1)
    (length_expressions ctx.asValue (bindRole targets.length init) init
      ((expressions ctx.asValue .single targets).run p).2)
    ((expressions ctx.asValue (bindRole targets.length init) init).run
      ((expressions ctx.asValue .single targets).run p).2).2
  rw [htexts] at hbinds
  rw [statement, assignment_binding happend hno]
  exact hbinds

end Statements

/-- Where the values are bound respelled, only callees change if the first call that is met is a
search. -/
theorem BindsValues.respells {alone : Bool} {role : Role} {init : List Expr} {q : Progress}
    {text : String} (h : BindsValues alone init ((expressions ctx role init).run q).1 text) :
    ∃ front others right, text = front ++ " = " ++ right ∧ RightSide alone init others right ∧
      (others = respellFirst alone ((expressions ctx role init).run q).1 ∨
        alone = true ∧ others = ((expressions ctx role init).run q).1) ∧
      (FirstIsSearch ctx alone init ((expressions ctx role init).run q).1 →
        Respells ctx init ((expressions ctx role init).run q).1 others) := by
  have hlength : init.length = ((expressions ctx role init).run q).1.length :=
    (length_expressions ctx role init q).symm
  obtain ⟨front, others, right, htext, hright, hothers⟩ := h
  refine ⟨front, others, right, htext, hright, hothers, fun hfirst => ?_⟩
  rcases hothers with rfl | ⟨-, rfl⟩
  · exact respells_respellFirst hlength hfirst
  · exact .refl ctx hlength

/-- **What a declaration or an assignment respells.** Its text ends in its values, lowered and
packed, or in its one value, with at most one of them respelled: the first whose text the rules take
for a call of the search. If that value is a search itself, and no comment before it has the call,
then only its callee is respelled, and calls inside it, other values, literals and comments stay as
they are. A statement that makes a class or appends to a table respells nothing. -/
theorem search_respelled (ctx : Context) (id : NodeId) (span : Span) (p : Progress)
    {kind : StmtKind} {count : Nat} {init : List Expr} {values : List String}
    (hkind : binding? kind = some (count, init)) (hinit : init ≠ [])
    (hvalues : ((expressions ctx.asValue (bindRole count init) init).run
      (beforeValues ctx p kind)).1 = values) :
    (makes ctx kind = true → Made ctx init ((statement ctx id span kind).run p).1) ∧
    (makes ctx kind = false → ∃ front others right,
      ((statement ctx id span kind).run p).1 = front ++ " = " ++ right ∧
      RightSide (isAlone count init) init others right ∧
      (others = respellFirst (isAlone count init) values ∨
        isAlone count init = true ∧ others = values) ∧
      (FirstIsSearch ctx.asValue (isAlone count init) init values →
        Respells ctx.asValue init values others)) := by
  -- only declarations and assignments bind values
  cases kind with
  | «local» vars init =>
    obtain ⟨rfl, rfl⟩ : vars.length = count ∧ init = _ := by simpa [binding?] using hkind
    subst hvalues
    refine ⟨fun hmakes => ?_, fun hmakes => (binds_local hinit hmakes).respells⟩
    rw [statement]
    exact made_localStatement hmakes rfl rfl
  | assignment targets init =>
    obtain ⟨rfl, rfl⟩ : targets.length = count ∧ init = _ := by simpa [binding?] using hkind
    subst hvalues
    refine ⟨fun hmakes => ?_, fun hmakes => ?_⟩
    · rw [statement]
      exact made_assignment hmakes rfl rfl rfl
    · obtain ⟨happend, hclass⟩ := Bool.or_eq_false_iff.1 hmakes
      exact (binds_assignment (by simpa using happend) hclass).respells
  | _ => cases hkind

/-- A call in an argument is respelled, if no value in front has one. -/
example : (compile .keep "local a, b = f(string.find(s, p))" "m.lua" .empty {}).1.code =
    "let [a, b] = f(l2j.string.findWithRet(s, p))" := by
  rw [compile, parse_ofList]
  decide +kernel

/-- `string.find(s, p)`, and `f(string.find(s, p))`. -/
def findSample : Expr :=
  ⟨3, default, .call ⟨2, default, .member (nameSample 1 "string") .dot ⟨10, "find", default⟩⟩
    .arguments [nameSample 4 "s", nameSample 5 "p"]⟩

def nestedSample : Expr := ⟨7, default, .call (nameSample 6 "f") .arguments [findSample]⟩

/-- `local a, b = string.find(s, p), f(string.find(s, p))` -/
def searchSample : StmtKind :=
  .local [⟨11, "a", default⟩, ⟨12, "b", default⟩] [findSample, nestedSample]

theorem search_respelled_searchSample :
    let ctx : Context :=
      { options := {}, annotations := {}, fileName := "m", operatorMode := false }
    let p : Progress := { comments := ⟨[], 0⟩, registries := .empty }
    let values := ["l2j.string.find(s, p)", "f(l2j.string.find(s, p))"]
    binding? searchSample = some (2, [findSample, nestedSample]) ∧ [findSample, nestedSample] ≠ [] ∧
      ((expressions ctx.asValue (bindRole 2 [findSample, nestedSample])
        [findSample, nestedSample]).run (beforeValues ctx p searchSample)).1 = values ∧
      FirstIsSearch ctx.asValue false [findSample, nestedSample] values ∧
      ((statement ctx 0 default searchSample).run p).1 =
        "let [a, b] = [l2j.string.findWithRet(s, p), f(l2j.string.find(s, p))]" ∧
      Respells ctx.asValue [findSample, nestedSample] values
        ["l2j.string.findWithRet(s, p)", "f(l2j.string.find(s, p))"] := by
  intro ctx p values
  have hkind : binding? searchSample = some (2, [findSample, nestedSample]) := rfl
  have hvalues : ((expressions ctx.asValue (bindRole 2 [findSample, nestedSample])
      [findSample, nestedSample]).run (beforeValues ctx p searchSample)).1 = values := by
    decide +kernel
  have hsearch : IsSearch ctx.asValue findSample :=
    ⟨rfl, 2, default, nameSample 1 "string", ⟨10, "find", default⟩, .arguments, _, rfl, rfl, rfl⟩
  have hmet : isMet false "l2j.string.find(s, p)" = true := by decide
  -- the first value with the name in its text is the call itself
  have hfirst : FirstIsSearch ctx.asValue false [findSample, nestedSample] values := by
    rw [FirstIsSearch, hmet, if_pos rfl]
    exact ⟨hsearch, .single, p, by decide +kernel, by decide +kernel⟩
  obtain ⟨-, hbinds⟩ := search_respelled ctx 0 default p hkind (List.cons_ne_nil _ _) hvalues
  obtain ⟨front, others, right, htext, hright, hothers, hrespells⟩ := hbinds (by decide +kernel)
  have hcallee : others = ["l2j.string.findWithRet(s, p)", "f(l2j.string.find(s, p))"] := by
    rcases hothers with rfl | ⟨habsurd, -⟩
    · decide +kernel
    · cases habsurd
  refine ⟨hkind, List.cons_ne_nil _ _, hvalues, hfirst, by decide +kernel, ?_⟩
  rw [← hcallee]
  exact hrespells hfirst

end Emit

end LuaCompiler
