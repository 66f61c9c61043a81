import LuaCompiler.Compile
import LuaCompiler.Proofs.Emit.Introductions
import LuaCompiler.Proofs.Output.Declarations
import LuaCompiler.Proofs.Scope.Merged

/-!
# Declarations in loops, functions and blocks

A scope of the program becomes one scope of the code, but for two kinds: the variables of a loop get a
scope of their own, in its header, and a parameter that is the receiver gets none. A declaration that
the program makes again is merged with the one before, wherever that stands. So it is merged in its
own scope of the code, unless it has the name of a loop variable or of a receiver.

* `Within`: a stretch of program stands in another one.
* `Settled`: what becomes of a declaration, and `Settles`: **what becomes of those of a block**.
* `settles_of_scope`: how a scope of the program settles, part by part.
* `declarations_settle_in_place`: **blocks, functions and loops**.
-/

namespace LuaCompiler

open Scope (Item Skeleton.declared Skeleton.Plain mem_or_sublist_of_append)
open Emit

/-! ## Stretches of a program -/

/-- **A stretch of program stands in another one.** -/
inductive Within (whole : List Item) : List Item → Prop
  | whole : Within whole whole
  | part {items part : List Item} (h : Within whole items) (hsub : part ⊆ items) : Within whole part
  | values {id : NodeId} {vars : List Identifier} {init : List Expr} {inner : List Item}
    (h : Within whole [.locals id vars init inner]) : Within whole inner
  | header {receiver : Bool} {parameters : Option (List Identifier)} {header body : List Item}
    (h : Within whole [.scope receiver parameters header body]) : Within whole header
  | body {receiver : Bool} {parameters : Option (List Identifier)} {header body : List Item}
    (h : Within whole [.scope receiver parameters header body]) : Within whole body

theorem Emit.Covered.within {P : Program} {whole items : List Item} (hcovered : Covered P whole)
    (h : Within whole items) : Covered P items := by
  induction h with
  | whole => exact hcovered
  | part _ hsub ih => exact ih.subset hsub
  | values _ ih => exact ih.values
  | header _ ih => exact ih.header
  | body _ ih => exact ih.body

theorem items_subset_stmtItems {body : List Stmt} {s : Stmt} (hs : s ∈ body) :
    s.kind.items s.id ⊆ stmtItems body := by
  induction body with
  | nil => cases hs
  | cons first rest ih =>
    obtain ⟨id, span, kind⟩ := first
    rcases List.mem_cons.1 hs with rfl | hs
    · exact List.subset_append_left _ _
    · exact List.subset_append_of_subset_right _ (ih hs)

/-- A statement of a block stands in it. -/
theorem Within.statement {whole : List Item} {body : List Stmt} {s : Stmt}
    (h : Within whole (stmtItems body)) (hs : s ∈ body) : Within whole (s.kind.items s.id) :=
  h.part (items_subset_stmtItems hs)

/-! ## Declarations -/

/-- Whether a statement is a `local` statement. -/
def StmtKind.isLocal : StmtKind → Bool
  | .local .. => true
  | _ => false

namespace Emit

/-- **What becomes of an identifier that a statement of a block declares**: the statement introduces
it, or it is merged, with one that a statement of the block introduces or with a parameter in the
same scope. What it is merged with has its name in the code. -/
inductive Settled (ctx : Context) (shared : List Identifier) (body : List Stmt) (s : Stmt)
    (d : Identifier) : Prop
  | introduced (h : d ∈ introduced ctx s)
  | merged {first : Identifier} {s' : Stmt} (hjoins : ctx.annotations.Joins first d)
    (hbefore : [first, d].Sublist (body.flatMap (·.kind.declared))) (hs' : s' ∈ body)
    (hfirst : first ∈ introduced ctx s')
  | parameter {first : Identifier} (hjoins : ctx.annotations.Joins first d) (hfirst : first ∈ shared)

/-- **What becomes of the declarations of a block** that shares its scope in the code with some
parameters, and its scope in the program with some more identifiers that stand apart from it. -/
structure Settles (ctx : Context) (registries : Registries) (apart shared : List Identifier)
    (body : List Stmt) : Prop where
  /-- what the block binds in the code is what its statements introduce -/
  own : (Layout.statements ctx registries body).own =
    (body.flatMap (introduced ctx)).map fun v => (v.id, ctx.annotations.spelling v)
  texts : ∀ s ∈ body, ∀ p, StartsBy ((introduced ctx s).map ctx.declaredName)
    ((statement ctx s.id s.span s.kind).run p).1
  /-- a placeholder of a `local` statement is not merged with anything -/
  settled : ∀ s ∈ body, ∀ d ∈ s.kind.declared,
    (∀ v ∈ apart, v.name = d.name → s.kind.isLocal = true ∧ d.name = Name.placeholder) →
      Settled ctx shared body s d

/-- **A loop with variables of its own is two scopes of the code**: its header, which starts with the
introduction of the variables, and its body in braces. The variables stand apart from what the body
declares. -/
structure Splits (ctx : Context) (registries : Registries) (s : Stmt) (vars : List Identifier)
    (body : List Stmt) : Prop where
  scopes : ∃ header, Layout.statement ctx registries s.id s.kind =
      .region header (.braces true (Layout.statements (ctx.inLoop body) registries body)) ∧
    header.own = vars.map fun v => (v.id, ctx.annotations.spelling v)
  text : ∀ p, ∃ header q, ((statement ctx s.id s.span s.kind).run p).1 = "for " ++ parens header ++
      " " ++ braced (sequence ((statements (ctx.inLoop body) body).run q).1) ∧
    StartsBy (vars.map ctx.declaredName) header
  body : Settles (ctx.inLoop body) registries vars [] body

section Scopes

variable {ctx : Context} {s : Stmt} {d : Identifier} {vars : List Identifier} {body : List Stmt}

/-- What is declared and not marked is introduced. -/
theorem introduced_of_not_mem (hd : d ∈ s.kind.declared) (hnew : d.id ∉ ctx.annotations.redeclared) :
    d ∈ introduced ctx s := by
  obtain ⟨id, span, kind⟩ := s
  have hcontains : ctx.annotations.redeclared.contains d.id = false := by
    rwa [← Bool.not_eq_true, Std.TreeSet.contains_iff_mem]
  cases kind with
  | «local» vars init =>
    unfold introduced Layout.newVars
    dsimp only
    split
    · exact hd
    · split
      · exact List.mem_filter.2 ⟨hd, by rw [hcontains]; rfl⟩
      · exact hd
  | localFunction name f =>
    obtain rfl := List.mem_singleton.1 hd
    unfold introduced
    dsimp only
    rw [hcontains, if_neg Bool.false_ne_true]
    exact List.mem_singleton_self d
  | _ => cases hd

/-- A loop is one scope of the program. -/
theorem items_loop (hloop : s.kind.loop? = some (vars, body)) :
    ∃ header, s.kind.items s.id = [.scope false (some vars) header (stmtItems body)] := by
  obtain ⟨id, span, kind⟩ := s
  unfold StmtKind.loop? at hloop
  split at hloop
  next counter first last step body' heq =>
    obtain rfl : kind = _ := heq
    cases hloop
    exact ⟨_, rfl⟩
  next vars' iterator body' heq =>
    obtain rfl : kind = _ := heq
    cases hloop
    exact ⟨_, rfl⟩
  · cases hloop

end Scopes

end Emit

section Texts

variable {source : String} {chunk : Chunk} {ctx : Context}
  (hparse : (parse source).result = .ok chunk)
  (hannotations : ctx.annotations = (parse source).annotations)

include hparse hannotations

/-- What is known of the stretches of a program. -/
theorem covered_of_within {items : List Item} (h : Within chunk.items items) :
    Covered (ctx.program (parse source).events chunk.scopes) items := by
  have hflags : ctx.annotations.Flags (Scope.Skeleton.events chunk.items) :=
    hannotations ▸ flags_of_parse hparse
  rw [(parse_noted source).events chunk hparse]
  exact Covered.within ⟨hflags, ⟨_, List.mem_cons_self⟩, List.Subset.refl _, List.Subset.refl _⟩ h

/-- A placeholder of a `local` statement is not marked. -/
theorem not_mem_of_placeholder {body : List Stmt} (h : Within chunk.items (stmtItems body)) {s : Stmt}
    (hs : s ∈ body) (hlocal : s.kind.isLocal = true) {d : Identifier} (hd : d ∈ s.kind.declared)
    (hname : d.name = Name.placeholder) : d.id ∉ ctx.annotations.redeclared := by
  have hcovered := covered_of_within hparse hannotations (h.statement hs)
  obtain ⟨id, span, kind⟩ := s
  cases kind with
  | «local» vars init =>
    have hevent : .declare id vars init ∈ (parse source).events := hcovered.declare_mem
    rw [(parse_noted source).events chunk hparse] at hevent
    rw [hannotations]
    exact placeholder_of_parse hparse hevent hd hname
  | _ => cases hlocal

/-- **What becomes of the declarations of a scope.** -/
theorem settles_of_scope (registries : Registries) {receiver : Bool}
    {parameters : Option (List Identifier)} {header more : List Item} {body : List Stmt}
    {apart shared : List Identifier} (hparameters : parameters.getD [] = apart ++ shared)
    (hmore : Skeleton.Plain more)
    (h : Within chunk.items [.scope receiver parameters header (stmtItems body ++ more)]) :
    Settles ctx registries apart shared body := by
  have hcovered := covered_of_within hparse hannotations h
  refine ⟨own_statements hcovered.body.left, fun s _ p => introduction_statement ctx s p, ?_⟩
  intro s hs d hd hapart
  by_cases hmarked : d.id ∈ ctx.annotations.redeclared
  · -- the scope of the program says what a marked identifier is merged with
    have hscope : apart ++ (shared ++ body.flatMap (·.kind.declared)) ∈ chunk.scopes := by
      have hmem := hcovered.scope_mem
      rwa [hparameters, Scope.Skeleton.declared_append, declared_of_plain hmore, List.append_nil,
        declared_stmtItems, List.append_assoc] at hmem
    have hdeclared : d ∈ body.flatMap (·.kind.declared) := List.mem_flatMap.2 ⟨s, hs, hd⟩
    obtain ⟨first, hsub, hjoins⟩ := founded_of_parse hparse hscope d
      (List.mem_append_right _ (List.mem_append_right _ hdeclared)) (hannotations ▸ hmarked)
    rw [← hannotations] at hjoins
    rcases mem_or_sublist_of_append hsub with hfirst | hsub
    · -- only a placeholder is not merged with what stands apart
      obtain ⟨hlocal, hname⟩ := hapart first hfirst hjoins.name
      exact absurd hmarked (not_mem_of_placeholder hparse hannotations (h.body.part
        (List.subset_append_left _ _)) hs hlocal hd hname)
    · rcases mem_or_sublist_of_append hsub with hfirst | hsub
      · exact .parameter hjoins hfirst
      · obtain ⟨s', hs', hfirst⟩ := List.mem_flatMap.1 (hsub.subset List.mem_cons_self)
        exact .merged hjoins hsub hs' (introduced_of_not_mem hfirst hjoins.new)
  · exact .introduced (introduced_of_not_mem hd hmarked)

/-- **Where declarations are merged.** A declaration of a block is merged with one of the same block.
One of a function is merged with one of its body or with a parameter, unless it has the name of a
parameter that is the receiver. One directly in the body of a loop is merged with one of the body,
unless it has the name of a loop variable: so no other declaration assigns to what the header binds,
which is a scope of its own. -/
theorem declarations_settle_in_place (registries : Registries) :
    (∀ (receiver : Bool) (header more : List Item) (body : List Stmt), Skeleton.Plain more →
      Within chunk.items [.scope receiver none header (stmtItems body ++ more)] →
        Settles ctx registries [] [] body) ∧
    (∀ (receiver : Bool) (convention : Convention) (f : FunctionBody),
      convention.Fits f.parameters receiver → Within chunk.items (f.items receiver) →
        let inner := ctx.inFunction f.parameters convention.shown convention.receiver
        let reception := Layout.reception convention f.parameters
        (∃ header, Layout.function ctx registries convention f = .callable reception header
            (.braces true (Layout.statements inner registries f.body)) ∧
          header.own = convention.shown.map fun v => (v.id, ctx.annotations.spelling v)) ∧
        Settles inner registries reception.parameters convention.shown f.body) ∧
    ∀ (s : Stmt) (vars : List Identifier) (body : List Stmt),
      s.kind.loop? = some (vars, body) → Within chunk.items (s.kind.items s.id) →
        Splits ctx registries s vars body := by
  refine ⟨fun receiver header more body hmore h => ?_, fun receiver convention f hfits h => ?_,
    fun s vars body hloop h => ?_⟩
  · exact settles_of_scope hparse hannotations registries rfl hmore h
  · obtain ⟨id, span, names, isVararg, body⟩ := f
    have hown : (Layout.parameters ctx convention.shown isVararg).own = convention.shown.map
        (ctx.program (parse source).events chunk.scopes).bound :=
      Layout.own_parameters ctx convention.shown isVararg
    have hnames : (some names).getD [] =
        (Layout.reception convention names).parameters ++ convention.shown := hfits.split
    have hscope : Within chunk.items [.scope receiver (some names) [] (stmtItems body ++ [])] := by
      rwa [List.append_nil]
    have hinner : (ctx.inFunction names convention.shown convention.receiver).annotations =
        (parse source).annotations := hannotations
    exact ⟨⟨_, rfl, hown⟩, settles_of_scope hparse hinner registries hnames
      Scope.Skeleton.plain_nil hscope⟩
  · obtain ⟨header, hitems⟩ := items_loop hloop
    refine ⟨statement_loop hloop (covered_of_within hparse hannotations h),
      introduction_loop ctx hloop, ?_⟩
    -- the body of a loop is a scope whose parameters are the loop variables
    have hscope : Within chunk.items [.scope false (some vars) header (stmtItems body ++ [])] := by
      rwa [List.append_nil, ← hitems]
    have hvars : (some vars).getD [] = vars ++ [] := (List.append_nil vars).symm
    have hinner : (ctx.inLoop body).annotations = (parse source).annotations := hannotations
    exact settles_of_scope hparse hinner registries hvars Scope.Skeleton.plain_nil hscope

end Texts

/-- A loop whose body declares names again. -/
def loopText : String := "for i = 1, 3 do local a = i local a, b = a, 2 end"

/-- The declarations of `loopText` stay in the body of the loop. -/
theorem declarations_settle_loopText : ∃ chunk s counter body,
    (parse loopText).result = .ok chunk ∧ chunk.body = [s] ∧
      s.kind.loop? = some ([counter], body) ∧ counter.name = "i" ∧
      body.map (·.kind.declared.map Identifier.name) = [["a"], ["a", "b"]] ∧
      ∀ s' ∈ body, ∀ d ∈ s'.kind.declared,
        Settled (((parse loopText).context "Game/UI/test.lua" {}).inLoop body) [] body s' d := by
  have hnames : (parse loopText).result.toOption.map (fun chunk => chunk.body.map fun s =>
      s.kind.loop?.map fun loop => (loop.1.map Identifier.name,
        loop.2.map (·.kind.declared.map Identifier.name))) =
      some [some (["i"], [["a"], ["a", "b"]])] := by
    rw [loopText, parse_ofList]
    decide +kernel
  obtain ⟨chunk, hparse, hnames⟩ := Parsed.exists_of_map hnames
  obtain ⟨s, hs, hloop⟩ := List.map_eq_singleton_iff.1 hnames
  obtain ⟨⟨vars, body⟩, hloop, hnames⟩ := Option.map_eq_some_iff.1 hloop
  obtain ⟨hvars, hbody⟩ := Prod.mk.inj hnames
  obtain ⟨counter, rfl, hcounter⟩ := List.map_eq_singleton_iff.1 hvars
  refine ⟨chunk, s, counter, body, hparse, hs, hloop, hcounter, hbody, fun s' hs' d hd => ?_⟩
  have hstands : Within chunk.items (s.kind.items s.id) :=
    Within.statement (.body .whole) (hs ▸ List.mem_singleton_self s)
  obtain ⟨-, -, hloops⟩ := declarations_settle_in_place hparse
    (Parsed.context_annotations (parse loopText) "Game/UI/test.lua" {}) .empty
  refine (hloops s [counter] body hloop hstands).body.settled s' hs' d hd fun v hv hname => ?_
  -- no name of the body is the counter's
  have hmem : d.name ∈ (body.map (·.kind.declared.map Identifier.name)).flatten :=
    List.mem_flatten.2 ⟨_, List.mem_map_of_mem hs', List.mem_map_of_mem hd⟩
  rw [hbody, ← hname, List.mem_singleton.1 hv, hcounter] at hmem
  exact absurd hmem (by decide)

/-- A declaration with the name of a loop variable assigns to it, and one with the name of a receiver
to nothing that the code binds. -/
example : (compile .keep "for i = 1, 3 do local i = 5 end" "Game/UI/test.lua" .empty {}).1.code =
      "for (let i = 0; i < 3; i = i + 1) \x7bi = 5\x7d" ∧
    (compile .keep "local C = class(\x7bf = function(self) local self = 1 end\x7d)"
      "Game/UI/test.lua" .empty {}).1.code = "class C \x7b\nf() \x7bself = 1\x7d\n\x7d" := by
  repeat rw [compile, parse_ofList]
  decide +kernel

end LuaCompiler
