import LuaCompiler.Proofs.Emit.CallStyles
import LuaCompiler.Proofs.Generator.Compiled

/-!
# Programs and call styles

A call without parentheses compiles like the same call with them, wherever it stands, with one exception:
a generic loop over `pairs{...}` or `ipairs"..."` does not see that it runs over a standard iterator.

* `Parsed.unsugared`: a parsed text with chosen calls in parentheses.
* `compile_unsugared`: **call sugar is only sugar**, but for these iterators.
-/

namespace LuaCompiler

/-- A scope event of a tree with the chosen calls in parentheses. -/
def Scope.Event.unsugared (chosen : NodeId → Bool) : Event → Event
  | .declare id vars init => .declare id vars (init.map (Expr.unsugared chosen))
  | event => event

/-- A parsed text with the chosen calls in parentheses: the tree, and the values that the scope events
mention. -/
def Parsed.unsugared (chosen : NodeId → Bool) (parsed : Parsed) : Parsed where
  result := parsed.result.map (Chunk.unsugared chosen)
  events := parsed.events.map (Scope.Event.unsugared chosen)
  comments := parsed.comments

variable {chosen : NodeId → Bool}

/-- The analysis does not look at the values of a declaration beyond their kinds. -/
theorem Scope.analyse_unsugared (events : List Event) :
    analyse (events.map (Event.unsugared chosen)) = analyse events := by
  have hcopies (vars : List Identifier) (init : List Expr) (name : String) :
      Analysis.copiesItself vars (init.map (Expr.unsugared chosen)) name =
        Analysis.copiesItself vars init name := by
    rcases vars with _ | ⟨v, _ | ⟨w, more⟩⟩
    · rfl
    · rcases init with _ | ⟨value, _ | ⟨other, rest⟩⟩ <;> simp [Analysis.copiesItself]
    · rfl
  have hdeclare (vars : List Identifier) (init : List Expr) :
      Analysis.declareOne vars (init.map (Expr.unsugared chosen)) = Analysis.declareOne vars init := by
    funext last t v
    simp only [Analysis.declareOne, hcopies]
  have hstep (t : Analysis) (event : Event) : t.step (event.unsugared chosen) = t.step event := by
    cases event <;> simp [Event.unsugared, Analysis.step, Analysis.declare, hdeclare]
  unfold analyse
  rw [List.foldl_map]
  simp only [hstep]

theorem Scope.globals_unsugared (events : List Event) :
    globals (events.map (Event.unsugared chosen)) = globals events := by
  have hstep (visible : Visibility) (event : Event) :
      visible.step (event.unsugared chosen) = visible.step event := by
    cases event <;> rfl
  unfold globals
  rw [List.foldl_map]
  simp only [hstep]

/-! ## The grammar -/

theorem Expr.isChain_unsugared : ∀ e : Expr, e.isChain = true → (e.unsugared chosen).isChain = true
  | ⟨_, _, .name _⟩, _ => rfl
  | ⟨_, _, .member base .dot _⟩, h => Expr.isChain_unsugared base h

theorem Expr.isAssignable_unsugared (e : Expr) :
    (e.unsugared chosen).isAssignable = e.isAssignable := by
  obtain ⟨id, span, kind⟩ := e
  cases kind <;> rfl

theorem Expr.isCall_unsugared (e : Expr) : (e.unsugared chosen).isCall = e.isCall := by
  obtain ⟨id, span, kind⟩ := e
  cases kind <;> rfl

theorem Expr.isTable_unsugared (e : Expr) : (e.unsugared chosen).isTable = e.isTable := by
  obtain ⟨id, span, kind⟩ := e
  cases kind <;> rfl

/-- Parentheses fit every argument, and without them the argument is still a table or a string. -/
theorem CallStyle.fits_unsugared {style : CallStyle} {arguments : List Expr} (id : NodeId)
    (h : style.fits arguments = true) :
    (if chosen id then .arguments else style).fits (exprsUnsugared chosen arguments) = true := by
  split
  · rfl
  · rcases arguments with _ | ⟨argument, _ | ⟨second, rest⟩⟩
    · cases style <;> exact h
    · cases style with
      | arguments => rfl
      | table => exact argument.isTable_unsugared.trans h
      | string => exact argument.isString_unsugared.trans h
    · cases style <;> exact h

mutual

/-- An expression of the grammar stays one. -/
theorem Expr.shaped_unsugared : ∀ (e : Expr) {called : Bool}, e.Shaped called →
    (e.unsugared chosen).Shaped called
  | ⟨id, _, kind⟩, _, h => kind.shaped_unsugared id h

/-- Arguments in brackets may be any, so the shape is kept node by node. -/
theorem ExprKind.shaped_unsugared : ∀ (kind : ExprKind) (id : NodeId) {called : Bool},
    kind.Shaped called → (kind.unsugared chosen id).Shaped called
  | .name _, _, _, h | .nil, _, _, h | .boolean _, _, _, h | .number .., _, _, h
  | .string _, _, _, h | .vararg, _, _, h => h
  | .function f, _, _, h => f.shaped_unsugared h
  | .table fields, _, _, h => fieldsShaped_unsugared fields h
  | .binary _ left right, _, _, h | .logical _ left right, _, _, h =>
    ⟨left.shaped_unsugared h.1, right.shaped_unsugared h.2⟩
  | .unary _ argument, _, _, h => argument.shaped_unsugared h
  | .member base _ _, _, _, h => ⟨base.shaped_unsugared h.1, h.2⟩
  | .index base index, _, _, h => ⟨base.shaped_unsugared h.1, index.shaped_unsugared h.2⟩
  | .call base _ arguments, id, _, h =>
    ⟨base.shaped_unsugared h.1, CallStyle.fits_unsugared id h.2.1,
      exprsShaped_unsugared arguments h.2.2⟩

theorem exprsShaped_unsugared : ∀ es : List Expr, ExprsShaped es →
    ExprsShaped (exprsUnsugared chosen es)
  | [], _ => trivial
  | first :: rest, h => ⟨first.shaped_unsugared h.1, exprsShaped_unsugared rest h.2⟩

theorem fieldsShaped_unsugared : ∀ fields : List Field, FieldsShaped fields →
    FieldsShaped (fieldsUnsugared chosen fields)
  | [], _ => trivial
  | ⟨_, _, kind⟩ :: rest, h => ⟨kind.shaped_unsugared h.1, fieldsShaped_unsugared rest h.2⟩

theorem FieldKind.shaped_unsugared : ∀ kind : FieldKind, kind.Shaped →
    (kind.unsugared chosen).Shaped
  | .named _ value, h => ⟨h.1, value.shaped_unsugared h.2⟩
  | .keyed key value, h => ⟨key.shaped_unsugared h.1, value.shaped_unsugared h.2⟩
  | .positional value, h => value.shaped_unsugared h

theorem FunctionBody.shaped_unsugared : ∀ f : FunctionBody, f.Shaped → (f.unsugared chosen).Shaped
  | ⟨_, _, _, _, body⟩, h => ⟨h.1, blockShaped_unsugared body h.2⟩

/-- A block of the grammar stays one. -/
theorem blockShaped_unsugared : ∀ body : List Stmt, BlockShaped body →
    BlockShaped (blockUnsugared chosen body)
  | [], _ => trivial
  | ⟨_, _, kind⟩ :: rest, h => by
    refine ⟨kind.shaped_unsugared h.1, fun hreturn => ?_, blockShaped_unsugared rest h.2.2⟩
    have hlast : kind.isReturn = true := by cases kind <;> exact hreturn
    rw [h.2.1 hlast]
    rfl

/-- Statement by statement: what the parser asks of targets and calls is no question of style. -/
theorem StmtKind.shaped_unsugared : ∀ kind : StmtKind, kind.Shaped → (kind.unsugared chosen).Shaped
  | .local _ init, h => ⟨h.1, h.2.1, exprsShaped_unsugared init h.2.2⟩
  | .assignment targets init, h => by
    obtain ⟨hsome, hassignable, htargets, hvalues, hinit⟩ := h
    refine ⟨?_, ?_, exprsShaped_unsugared targets htargets, ?_, exprsShaped_unsugared init hinit⟩
    · rwa [exprsUnsugared_eq, ne_eq, List.map_eq_nil_iff]
    · rw [exprsUnsugared_eq]
      intro target htarget
      obtain ⟨original, horiginal, rfl⟩ := List.mem_map.1 htarget
      rw [original.isAssignable_unsugared]
      exact hassignable original horiginal
    · rwa [exprsUnsugared_eq, ne_eq, List.map_eq_nil_iff]
  | .call expression, h =>
    ⟨(expression.isCall_unsugared).trans h.1, expression.shaped_unsugared h.2⟩
  | .localFunction _ f, h => ⟨h.1, f.shaped_unsugared h.2⟩
  | .function (.name _) f, h => ⟨h.1, f.shaped_unsugared h.2⟩
  | .function (.member _ _ base _ _) f, h =>
    ⟨⟨base.isChain_unsugared h.1.1, base.shaped_unsugared h.1.2.1, h.1.2.2⟩, f.shaped_unsugared h.2⟩
  | .return arguments, h => exprsShaped_unsugared arguments h
  | .break, h | .goto _, h | .label _, h => h
  | .block body, h => blockShaped_unsugared body h
  | .while condition body, h =>
    ⟨condition.shaped_unsugared h.1, blockShaped_unsugared body h.2⟩
  | .repeat body condition, h =>
    ⟨blockShaped_unsugared body h.1, condition.shaped_unsugared h.2⟩
  | .conditional ⟨_, _, condition, body⟩ others otherwise, h =>
    ⟨⟨condition.shaped_unsugared h.1.1, blockShaped_unsugared body h.1.2⟩,
      clausesShaped_unsugared others h.2.1, elseShaped_unsugared otherwise h.2.2⟩
  | .forNumeric _ first last step body, h =>
    ⟨h.1, first.shaped_unsugared h.2.1, last.shaped_unsugared h.2.2.1,
      stepShaped_unsugared step h.2.2.2.1, blockShaped_unsugared body h.2.2.2.2⟩
  | .forGeneric _ iterators body, h => by
    obtain ⟨hvars, hnames, hsome, hiterators, hbody⟩ := h
    refine ⟨hvars, hnames, ?_, exprsShaped_unsugared iterators hiterators,
      blockShaped_unsugared body hbody⟩
    rwa [exprsUnsugared_eq, ne_eq, List.map_eq_nil_iff]

theorem stepShaped_unsugared : ∀ step : Option Expr, StepShaped step →
    StepShaped (stepUnsugared chosen step)
  | none, _ => trivial
  | some step, h => step.shaped_unsugared h

theorem clausesShaped_unsugared : ∀ cs : List Clause, ClausesShaped cs →
    ClausesShaped (clausesUnsugared chosen cs)
  | [], _ => trivial
  | ⟨_, _, condition, body⟩ :: cs, h =>
    ⟨⟨condition.shaped_unsugared h.1.1, blockShaped_unsugared body h.1.2⟩,
      clausesShaped_unsugared cs h.2⟩

theorem elseShaped_unsugared : ∀ otherwise : Option ElseClause, ElseShaped otherwise →
    ElseShaped (elseUnsugared chosen otherwise)
  | none, _ => trivial
  | some ⟨_, _, body⟩, h => blockShaped_unsugared body h

end

/-! ## Programs -/

/-- A program is written alike when the loops over calls without brackets are spared. -/
theorem Emit.chunk_unsugared (ctx : Context) {chunk : Chunk}
    (h : Spares chosen chunk.sugaredIterators) :
    Emit.chunk ctx (chunk.unsugared chosen) = Emit.chunk ctx chunk := by
  have hexports : exportsValue (chunk.unsugared chosen) = exportsValue chunk := by
    unfold exportsValue Chunk.unsugared
    rw [blockUnsugared_eq, List.getLast?_map]
    rcases chunk.body.getLast? with _ | ⟨id, span, kind⟩
    · rfl
    · cases kind <;> simp [StmtKind.unsugared]
  unfold Emit.chunk
  rw [hexports]
  simp only [Chunk.unsugared, statements_unsugared chunk.body ctx h]

/-- **Call sugar is only sugar**: code, diagnostics, classes and registries stay as they are when any
calls without parentheses are written with them, unless a generic loop runs over one of them and it
calls `pairs` or `ipairs`. -/
theorem compile_unsugared (formatter : Formatter) (source path : String) (registries : Registries)
    (options : Options) (chosen : NodeId → Bool)
    (h : ∀ chunk, (parse source).result = .ok chunk →
      ∀ id ∈ chunk.sugaredIterators, chosen id = false) :
    compileParsed formatter ((parse source).unsugared chosen) path registries options =
      compile formatter source path registries options := by
  cases hresult : (parse source).result with
  | error fault =>
    rw [compile_of_error formatter path registries options hresult]
    simp [compileParsed, Parsed.unsugared, hresult, Except.map]
  | ok chunk =>
    have hlower : lower path options registries ((parse source).unsugared chosen)
        (chunk.unsugared chosen) = lower path options registries (parse source) chunk := by
      unfold lower Parsed.context Parsed.start Parsed.registries Parsed.globals Parsed.unsugared
      simp only [Scope.analyse_unsugared, Scope.globals_unsugared,
        Emit.chunk_unsugared _ (h chunk hresult)]
    have hshaped : BlockShaped (chunk.unsugared chosen).body :=
      blockShaped_unsugared chunk.body (shaped_of_parse hresult).1
    have hparsed : ((parse source).unsugared chosen).result = .ok (chunk.unsugared chosen) := by
      rw [Parsed.unsugared, hresult]
      rfl
    rw [compile_of_ok formatter path registries options hresult, compileParsed, hparsed]
    dsimp only
    rw [generate_eq_lower hshaped, hlower]

/-- Calls without parentheses as a statement, in operands, in the argument of an iterator, in a loop, in
a class, and as a value that is appended. -/
def sugaredText : String :=
  "f\x7b1\x7d local t = g\"x\" .. h\x7b\x7d.y for k in pairs(\x7bf\x7b2\x7d\x7d) do k\"a\" end
X = class\x7bm = f\x7b\x7d\x7d t[#t + 1] = f[[a]]"

theorem compile_unsugared_sugaredText :
    (∃ chunk, (parse sugaredText).result = .ok chunk ∧ chunk.sugaredIterators = []) ∧
    compileParsed .keep ((parse sugaredText).unsugared fun _ => true) "Game/UI/test.lua" .empty {} =
      compile .keep sugaredText "Game/UI/test.lua" .empty {} ∧
    (compile .keep sugaredText "Game/UI/test.lua" .empty {}).1.code =
      "f(\x7b1: 1\x7d);
let t = (g(\"x\") + h(\x7b\x7d).y);
for (let k of l2j.pairs(\x7b1: f(\x7b1: 2\x7d)\x7d)) \x7bk(\"a\")\x7d;
globalThis.X = class X \x7b\nm = f(\x7b\x7d);\n\x7d;
l2j.table.insert(t, f(\x60a\x60))" := by
  have hnone : (parse sugaredText).result.toOption.map Chunk.sugaredIterators = some [] := by
    rw [sugaredText, parse_ofList]
    decide +kernel
  have hspared : ∀ chunk, (parse sugaredText).result = .ok chunk → chunk.sugaredIterators = [] := by
    intro chunk hchunk
    rw [hchunk] at hnone
    exact Option.some.inj hnone
  refine ⟨?_, compile_unsugared .keep sugaredText "Game/UI/test.lua" .empty {} _ ?_, ?_⟩
  · exact Parsed.exists_of_map hnone
  · intro chunk hchunk
    rw [hspared chunk hchunk]
    exact fun id hid => nomatch hid
  · rw [compile, sugaredText, parse_ofList]
    decide +kernel

/-- A loop does not see that it runs over a standard iterator without parentheses. -/
example :
    (compile .keep "for k, v in pairs\x7b1\x7d do end" "a.lua" .empty {}).1.code =
      "for (let [k, v] of pairs(\x7b1: 1\x7d)) \x7b\x7d" ∧
    (compile .keep "for k, v in pairs(\x7b1\x7d) do end" "a.lua" .empty {}).1.code =
      "for (let [k, v] of l2j.pairs(\x7b1: 1\x7d)) \x7b\x7d" := by
  repeat rw [compile, parse_ofList]
  decide +kernel

end LuaCompiler
