import LuaCompiler.Proofs.Emit.Methods
import LuaCompiler.Proofs.Output.Receiver
import LuaCompiler.Proofs.Output.Shadowing

/-!
# Where the variable that holds a receiver is declared

A method declares a variable for its receiver if a function inside writes the variable. Lowering finds
that out while it walks over the body, by a flag; in the text, the declaration stands in front of the
names it serves.

* `IsBodyIn`: the body of a method stands in a code, behind a text.
* `Layout.Site.between_nearby`: between a method and a name near in it are functions, no method.
* `isAlias_iff`: **a name is written as the variable if it stands in a function inside a method and is
  not told apart from the receiver.**
* `alias_declared_where_used`: **a method begins with the declaration exactly if a name near in it is
  written as the variable**, and each name that is so written is near in a method that begins with it.
-/

namespace LuaCompiler

open Scope (Annotations Occurrence)

namespace Emit

open Layout (Reach Frame Site)

/-! ## Names and the methods they are in -/

namespace Layout

variable {l : Layout} {reach : Reach} {site : Site} {method : Layout × Reach}

/-- The functions between a place and a method, when no other method is between them. -/
theorem Reach.inner_eq {between outer : List Frame} {frame : Frame}
    (hfunctions : reach.functions = between ++ frame :: outer)
    (hbetween : ∀ f ∈ between, f.reception = .none) (hframe : frame.reception ≠ .none) :
    reach.inner = between ∧ reach.method? = some frame.reception := by
  have hplain : ∀ f ∈ between, (f.reception == .none) = true :=
    fun f hf => beq_iff_eq.2 (hbetween f hf)
  have hstop : (frame.reception == .none) = false := beq_eq_false_iff_ne.2 hframe
  constructor
  · rw [Reach.inner, hfunctions, List.takeWhile_append_of_pos hplain, List.takeWhile_cons, hstop,
      if_neg Bool.false_ne_true, List.append_nil]
  · have hskip : (between.map Frame.reception).find? (· != .none) = none := by
      rw [List.find?_eq_none]
      intro m hm
      obtain ⟨f, hf, rfl⟩ := List.mem_map.1 hm
      rw [bne, hplain f hf]
      exact Bool.false_ne_true
    rw [Reach.method?, hfunctions, List.map_append, List.find?_append, hskip, Option.none_or,
      List.map_cons]
    exact List.find?_cons_of_pos (bne_iff_ne.2 hframe)

/-- **Between a method and a name near in it are functions, no method**, so the method is the innermost
one around the name. -/
theorem Site.between_nearby (hmethod : method ∈ l.methods reach)
    (hsite : site ∈ method.1.nearby method.2) :
    site.reach.functions = site.reach.inner ++ method.2.functions ∧
      site.reach.method? = method.2.method? := by
  obtain ⟨frame, outer, hfunctions, hframe⟩ := functions_methods hmethod
  obtain ⟨between, hbetween, hplain⟩ := functions_nearby hsite
  rw [hfunctions] at hbetween
  obtain ⟨hinner, hinnermost⟩ := Reach.inner_eq hbetween hplain hframe
  have hfirst : method.2.functions = [] ++ frame :: outer := hfunctions
  obtain ⟨-, hown⟩ := Reach.inner_eq hfirst (List.forall_mem_nil _) hframe
  exact ⟨by rw [hinner, hfunctions, hbetween], hinnermost.trans hown.symm⟩

/-- A name that is in no method has none around it. -/
theorem Site.method?_nearby (hsite : site ∈ l.nearby {}) : site.reach.method? = none := by
  obtain ⟨between, hbetween, hplain⟩ := functions_nearby hsite
  have hfunctions : site.reach.functions = between := hbetween.trans (List.append_nil between)
  rw [Reach.method?, hfunctions, List.find?_eq_none]
  intro m hm
  obtain ⟨f, hf, rfl⟩ := List.mem_map.1 hm
  rw [hplain f hf]
  decide

end Layout

/-! ## Names that are written as the variable -/

variable {a : Annotations} {site : Site} {o : Occurrence}

theorem Word.text_of_isAlias {w : Word} (h : w.isAlias = true) : w.text = receiverAlias := by
  rw [Word.isAlias, Bool.and_eq_true, Bool.not_eq_true', Option.any_eq_true] at h
  obtain ⟨htarget, r, hr, hnamed⟩ := h
  obtain ⟨hname, hdepth⟩ := Bool.and_eq_true_iff.1 hnamed
  have hinside : (r.depth == w.context.functionDepth) = false :=
    beq_eq_false_iff_ne.2 (bne_iff_ne.1 hdepth)
  rw [Word.text, htarget, if_neg Bool.false_ne_true, ← beq_iff_eq.1 hname,
    referenceText_of_receiver hr, hinside, if_neg Bool.false_ne_true]

/-- **A name is written as the variable exactly if** it is a reference in a function inside a method, and
is not told apart from the receiver of the method. -/
theorem isAlias_iff (hfit : a.Fit o) (hannotations : site.word.context.annotations = a)
    (hid : o.id = site.word.id) (hname : o.name = site.word.name)
    (h : Receives site.word.context.receiver site.word.context.functionDepth o.environment
      site.reach) :
    site.word.isAlias = true ↔
      site.word.isTarget = false ∧ site.reach.inner ≠ [] ∧ ¬ site.IsToldApart a o := by
  have hresolve : site.word.context.annotations.resolve site.word.id site.word.name =
      a.resolve o.id o.name := by rw [hannotations, hid, hname]
  rw [Word.isAlias, hresolve, Bool.and_eq_true, Bool.not_eq_true', Option.any_eq_true]
  refine and_congr_right fun _ => ⟨?_, ?_⟩
  · rintro ⟨r, hr, hnamed⟩
    obtain ⟨hrname, hdepth⟩ := Bool.and_eq_true_iff.1 hnamed
    have happart : ¬ site.IsToldApart a o := fun happart =>
      receiver_name_ne hfit h happart hr (beq_iff_eq.1 hrname)
    obtain ⟨r', hr', -, hinner⟩ := exists_receiver h happart
    obtain rfl : r = r' := Option.some.inj (hr.symm.trans hr')
    refine ⟨fun hnil => ?_, happart⟩
    rw [hnil, List.length_nil, Nat.add_zero] at hinner
    exact bne_iff_ne.1 hdepth hinner
  · rintro ⟨hinside, happart⟩
    obtain ⟨r, hr, hrname, hinner⟩ := exists_receiver h happart
    -- each function inside the method adds to the depth that the method has
    have hpositive : 0 < site.reach.inner.length := List.length_pos_of_ne_nil hinside
    have hdepth : r.depth ≠ site.word.context.functionDepth := by omega
    exact ⟨r, hr, Bool.and_eq_true_iff.2 ⟨beq_iff_eq.2 hrname, bne_iff_ne.2 hdepth⟩⟩

/-- Outside of methods no name is written as the variable. -/
theorem isAlias_eq_false
    (h : Receives site.word.context.receiver site.word.context.functionDepth o.environment
      site.reach) (hnone : site.reach.method? = none) : site.word.isAlias = false := by
  rw [Word.isAlias, h.outside hnone, Option.any_none, Bool.and_false]

/-! ## Bodies of methods -/

/-- **The body of a method stands in a code, behind a text.** The method is a function with a receiver
that the walk comes to from a task, and the layout is that of its body. -/
def IsBodyIn (registries : Registries) (start : Context × Task) (code : String) (body : Layout)
    (front : String) : Prop :=
  ∃ ctx isMethod convention f text, Reaches start (ctx, .function isMethod convention f) ∧
    convention.receiver.isSome = true ∧
    body = .braces true (Layout.statements
      (ctx.inFunction f.parameters convention.shown convention.receiver) registries f.body) ∧
    (Task.block f.body).Gives (ctx.inFunction f.parameters convention.shown convention.receiver)
      text ∧
    (Task.function isMethod convention f).Gives ctx (front ++ text) ∧ Bears code (front ++ text)

end Emit

open Emit (IsBodyIn IsMethodOf Layout Renders aliasDeclaration)
open Script (Plain)

variable {source : String} {chunk : Chunk} {path : String} {registries : Registries}
  {options : Options}

/-- A method of a program stands in the code, behind the declaration of the variable if its names
capture. -/
theorem isBodyIn_lower {body : Layout}
    (h : IsMethodOf ((parse source).registries registries)
      ((parse source).context path options, .block chunk.body) body) :
    IsBodyIn ((parse source).registries registries)
      ((parse source).context path options, .block chunk.body)
      (lower path options registries (parse source) chunk).code body
      (if body.captures then aliasDeclaration else "") := by
  obtain ⟨ctx, isMethod, convention, f, hreaches, hmethod, rfl⟩ := h
  obtain ⟨text, ⟨p, htext⟩, hbears⟩ := bears_lower path registries options hreaches
  have hbody := htext.symm.trans
    (Emit.body_function ((parse source).registries registries) hmethod ctx f p)
  rw [hbody] at htext hbears
  exact ⟨ctx, isMethod, convention, f, _, hreaches, hmethod, rfl, ⟨_, rfl⟩, ⟨p, htext⟩, hbears⟩

/-- **Where the variable that holds a receiver is declared.** The body of each method that the walk comes
to stands in the code, behind the declaration if a name near in it is written as the variable, and else
behind nothing. Between a method and a name near in it are functions only, so the names that make a
method declare the variable are in functions inside it and in no other method; and each name that is
written as the variable is near in a method that declares it.

A name is written so if it stands in a function inside a method and is not told apart from its receiver.
A reference to the receiver is not told apart, unless it has a generated name; but neither is a reference
to a local with the name of the receiver, and a method declares the variable for that one, too. -/
theorem alias_declared_where_used (path : String) (registries : Registries) (options : Options)
    (hparse : (parse source).result = .ok chunk) :
    ('"' ∉ (moduleName path).toList → Plain options.valueTypeNamespace →
      ∃ rest, Renders (lower path options registries (parse source) chunk).progress.classes
        ((parse source).layout path options registries chunk) (.ofComments (parse source).comments)
        (lower path options registries (parse source) chunk).code rest) ∧
    (∀ body, IsMethodOf ((parse source).registries registries)
        ((parse source).context path options, .block chunk.body) body →
      IsBodyIn ((parse source).registries registries)
        ((parse source).context path options, .block chunk.body)
        (lower path options registries (parse source) chunk).code body
        (if body.captures then aliasDeclaration else "") ∧
      ∀ reach, body.captures = true ↔ ∃ site ∈ body.nearby reach, site.word.isAlias = true) ∧
    (∀ method ∈ ((parse source).layout path options registries chunk).methods {},
      IsMethodOf ((parse source).registries registries)
        ((parse source).context path options, .block chunk.body) method.1 ∧
      ∀ site ∈ method.1.nearby method.2,
        site ∈ ((parse source).layout path options registries chunk).sites {} ∧
        site.reach.functions = site.reach.inner ++ method.2.functions ∧
        site.reach.method? = method.2.method?) ∧
    ∀ site ∈ ((parse source).layout path options registries chunk).sites {},
      (site.word.isAlias = true → site.word.text = Emit.receiverAlias ∧
        ∃ method ∈ ((parse source).layout path options registries chunk).methods {},
          site ∈ method.1.nearby method.2 ∧ method.1.captures = true) ∧
      ∃ o ∈ chunk.occurrences, o.id = site.word.id ∧ o.name = site.word.name ∧
        (site.word.isAlias = true ↔ site.word.isTarget = false ∧ site.reach.inner ≠ [] ∧
          ¬ site.IsToldApart (parse source).annotations o) ∧
        (site.IsReceiver o → (parse source).annotations.renamed[o.id]? = none →
          ¬ site.IsToldApart (parse source).annotations o) := by
  have hcaptures (body : Layout) (reach : Layout.Reach) : body.captures = true ↔
      ∃ site ∈ body.nearby reach, site.word.isAlias = true := by
    rw [Layout.captures_eq body reach, List.any_eq_true]
  refine ⟨fun hquote hvalueTypes => renders_of_parse registries hparse hquote hvalueTypes,
    fun body hbody => ⟨isBodyIn_lower hbody, hcaptures body⟩,
    fun method hmethod => ⟨Emit.isMethodOf_chunk hmethod, fun site hsite => ⟨?_, ?_⟩⟩,
    fun site hsite => ?_⟩
  · exact Layout.sites_methods hmethod (Layout.nearby_subset _ _ hsite)
  · exact Layout.Site.between_nearby hmethod hsite
  · obtain ⟨o, ho, hid, hname, hannotations, hfit, hreceives⟩ := exists_occurrence hparse hsite
    refine ⟨fun halias => ⟨Emit.Word.text_of_isAlias halias, ?_⟩, o, ho, hid, hname,
      Emit.isAlias_iff hfit hannotations hid hname hreceives, Emit.not_isToldApart hfit hreceives⟩
    rcases Layout.sites_cases hsite with hnear | ⟨method, hmethod, hnear⟩
    · -- outside of methods no receiver is known
      have hplain := Emit.isAlias_eq_false hreceives (Layout.Site.method?_nearby hnear)
      exact absurd halias (ne_true_of_eq_false hplain)
    · exact ⟨method, hmethod, hnear, (hcaptures method.1 method.2).2 ⟨site, hnear, halias⟩⟩

/-- A method with a function inside that has a local with the name of the receiver, and one with a method
inside whose function refers to its own receiver. -/
def aliasText : String :=
  "function M:a() return function() local self = 1 return self end end " ++
    "function M:b() function N:c() return function() return self end end end"

theorem alias_declared_where_used_aliasText : ∃ chunk, (parse aliasText).result = .ok chunk ∧
    (((parse aliasText).layout "Game/UI/test.lua" {} .empty chunk).methods {}).map (fun method =>
      (method.1.captures, (method.1.nearby method.2).map fun site => site.word.text)) =
        [(true, ["thisArg"]), (false, ["N"]), (true, ["thisArg"])] ∧
    ∀ method ∈ ((parse aliasText).layout "Game/UI/test.lua" {} .empty chunk).methods {},
      IsBodyIn ((parse aliasText).registries .empty)
        ((parse aliasText).context "Game/UI/test.lua" {}, .block chunk.body)
        (lower "Game/UI/test.lua" {} .empty (parse aliasText) chunk).code method.1
        (if method.1.captures then aliasDeclaration else "") := by
  have hplaces : (parse aliasText).result.toOption.map (fun chunk =>
      (((parse aliasText).layout "Game/UI/test.lua" {} .empty chunk).methods {}).map fun method =>
        (method.1.captures, (method.1.nearby method.2).map fun site => site.word.text)) =
      some [(true, ["thisArg"]), (false, ["N"]), (true, ["thisArg"])] := by
    unfold aliasText
    rw [← String.ofList_append, parse_ofList]
    decide +kernel
  obtain ⟨chunk, hparse, hplaces⟩ := Parsed.exists_of_map hplaces
  obtain ⟨-, hbodies, hmethods, -⟩ :=
    alias_declared_where_used "Game/UI/test.lua" .empty {} hparse
  exact ⟨chunk, hparse, hplaces, fun method hmethod =>
    (hbodies method.1 (hmethods method hmethod).1).1⟩

end LuaCompiler
