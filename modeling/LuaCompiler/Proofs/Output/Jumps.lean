import LuaCompiler.Proofs.Output.Shadowing

/-!
# Jumps to the end of a loop

Lua takes a `goto` to the label of its name in the innermost block around it that has one, inside one
function. The code has `continue` only, which goes to the end of the innermost loop. It is written for
a `goto` whose name is that of the label at the end of the loop's body, wherever the label that Lua
selects stands.

* `Block.target?`: **Lua's rule for labels**, and `Block.loopEnd?`: where a `continue` goes.
* `Block.target_eq_loopEnd_iff`: a jump goes to the end of the loop if its name is that of the label
  there and no label nearer hides it.
* `Comes`: what the walk comes to, in which context and inside which blocks; `Comes.continueLabel`: the
  context knows the label at the end of the innermost loop.
* `goto_keeps_target`: **when a `goto` is written as `continue`, and when it goes there.**
-/

namespace LuaCompiler

open Emit (Context Task Step StatementPart ClassPart Reaches Bears)

/-- Whether a statement is the label of a name. -/
def Stmt.isLabel (s : Stmt) (name : String) : Bool :=
  match s.kind with
  | .label label => label.name == name
  | _ => false

/-- Whether a statement is a loop. -/
def StmtKind.isLoop : StmtKind → Bool
  | .while .. | .repeat .. | .forNumeric .. | .forGeneric .. => true
  | _ => false

/-- A block: its statements, and whether it is the body of a loop. -/
structure Block where
  statements : List Stmt
  isLoop : Bool

namespace Block

/-- Where the first label of a name stands in a block. -/
def label? (block : Block) (name : String) : Option Nat :=
  block.statements.findIdx? (·.isLabel name)

/-- **Lua's rule for labels**: of the blocks around a jump in its function, innermost first, the first
one that has the label. A label is given by the number of blocks that do not have it, and by its
position in the one that does. -/
def target? (name : String) : List Block → Option (Nat × Nat)
  | [] => none
  | block :: outer =>
    match block.label? name with
    | some position => some (0, position)
    | none => (target? name outer).map fun (depth, position) => (depth + 1, position)

/-- The last statement of the body of the innermost loop, given like a label. -/
def loopEnd? : List Block → Option (Nat × Nat)
  | [] => none
  | block :: outer =>
    if block.isLoop then some (0, block.statements.length - 1)
    else (loopEnd? outer).map fun (depth, position) => (depth + 1, position)

/-- The name of the label at the end of the body of the innermost loop. -/
def endLabel? (blocks : List Block) : Option String :=
  (blocks.find? (·.isLoop)).bind fun block => Emit.Place.lastLabel? block.statements

/-- **Whether a label hides the end of the innermost loop**: it has the name, and stands in a block
inside the loop's body, or in the body before its end. -/
def hides (name : String) : List Block → Bool
  | [] => false
  | block :: outer =>
    if block.isLoop then block.statements.dropLast.any (·.isLabel name)
    else block.statements.any (·.isLabel name) || hides name outer

/-- **A jump goes to the end of the innermost loop** of its function, as a `continue` does. -/
def EndsLoop (name : String) (blocks : List Block) : Prop :=
  ∃ place, target? name blocks = some place ∧ loopEnd? blocks = some place

theorem lastLabel_eq_iff {body : List Stmt} {name : String} :
    Emit.Place.lastLabel? body = some name ↔ body.getLast?.any (·.isLabel name) = true := by
  unfold Emit.Place.lastLabel?
  split
  next label hlast => simp [hlast, Stmt.isLabel]
  next hother =>
    refine iff_of_false (by simp) fun hany => ?_
    obtain ⟨⟨id, span, kind⟩, hlast, hlabel⟩ := (Option.any_eq_true ..).1 hany
    cases kind with
    | label label => exact hother id span label hlast
    | _ => cases hlabel

/-- The first label of a name in a block is its last statement. -/
theorem label_eq_last_iff {block : Block} {name : String} :
    block.label? name = some (block.statements.length - 1) ↔
      Emit.Place.lastLabel? block.statements = some name ∧
        block.statements.dropLast.any (·.isLabel name) = false := by
  rw [lastLabel_eq_iff, label?]
  rcases List.eq_nil_or_concat block.statements with hnil | ⟨front, last, hconcat⟩
  · simp [hnil]
  rw [hconcat, List.concat_eq_append, List.getLast?_concat, List.dropLast_concat,
    List.findIdx?_append, List.length_append, List.length_singleton, Nat.add_sub_cancel]
  cases hfront : front.findIdx? (·.isLabel name) with
  | none =>
    have hany : front.any (·.isLabel name) = false := by
      rw [List.any_eq_false]
      simpa using hfront
    cases hlast : last.isLabel name <;> simp [hany, hlast]
  | some position =>
    -- a label in front of the last statement is found first
    obtain ⟨hlt, hlabel, -⟩ := List.findIdx?_eq_some_iff_getElem.1 hfront
    have hany : front.any (·.isLabel name) = true :=
      List.any_eq_true.2 ⟨front[position], List.getElem_mem hlt, hlabel⟩
    have hne : position ≠ front.length := Nat.ne_of_lt hlt
    simp [hany, hne]

theorem label_eq_none_iff {block : Block} {name : String} :
    block.label? name = none ↔ block.statements.any (·.isLabel name) = false := by
  simp [label?]

/-- **A jump goes to the end of the loop** if the label there has its name and none hides it. -/
theorem endsLoop_iff {name : String} {blocks : List Block} :
    EndsLoop name blocks ↔ endLabel? blocks = some name ∧ hides name blocks = false := by
  induction blocks with
  | nil => simp [EndsLoop, target?, endLabel?]
  | cons block outer ih =>
    cases hloop : block.isLoop with
    | true =>
      -- the end stands in this block, so a label further out is another one
      have hends : EndsLoop name (block :: outer) ↔
          block.label? name = some (block.statements.length - 1) := by
        rw [EndsLoop, loopEnd?, hloop, if_pos rfl, target?]
        cases block.label? name with
        | none => simp
        | some position => simp [eq_comm]
      rw [hends, label_eq_last_iff]
      simp [endLabel?, hides, hloop]
    | false =>
      have hend : endLabel? (block :: outer) = endLabel? outer := by simp [endLabel?, hloop]
      rw [hend, hides, hloop, if_neg Bool.false_ne_true, EndsLoop, target?, loopEnd?, hloop,
        if_neg Bool.false_ne_true, Bool.or_eq_false_iff]
      cases hlabel : block.label? name with
      | none =>
        rw [label_eq_none_iff] at hlabel
        rw [hlabel, eq_self_iff_true, true_and, ← ih, EndsLoop]
        simp only [Option.map_eq_some_iff]
        constructor
        · rintro ⟨place, ⟨target, htarget, rfl⟩, stop, hstop, heq⟩
          obtain ⟨hdepth, hposition⟩ := Prod.mk.inj heq
          have hsame : stop = target := Prod.ext (Nat.succ.inj hdepth) hposition
          exact ⟨target, htarget, hsame ▸ hstop⟩
        · rintro ⟨place, htarget, hstop⟩
          exact ⟨_, ⟨place, htarget, rfl⟩, place, hstop, rfl⟩
      | some position =>
        -- the jump goes to a label in this block, and the end stands further out
        have hany : block.statements.any (·.isLabel name) = true := by
          by_contra hnone
          rw [Bool.not_eq_true, ← label_eq_none_iff, hlabel] at hnone
          cases hnone
        simp [hany]

end Block

namespace Emit

/-! ## The blocks around a node -/

/-- The blocks around a part, where some blocks are around the whole: a function starts anew, and a
statement with a block brings that. -/
def Task.blocksAround (whole part : Task) (blocks : List Block) : List Block :=
  match whole, part with
  | .function .., .block body => [⟨body, false⟩]
  | .statement s, .block body => ⟨body, s.kind.isLoop⟩ :: blocks
  | _, _ => blocks

/-- **What the walk over a program comes to**, in which context, and inside which blocks of its function,
innermost first. -/
inductive Comes (start : Context) (program : List Stmt) : Context → List Block → Task → Prop
  | program : Comes start program start [⟨program, false⟩] (.block program)
  | step {ctx inner : Context} {blocks : List Block} {whole part : Task}
    (h : Comes start program ctx blocks whole) (hstep : Step ctx whole inner part) :
    Comes start program inner (whole.blocksAround part blocks) part

variable {start ctx inner : Context} {program : List Stmt} {blocks : List Block} {whole part : Task}

theorem Comes.reaches (h : Comes start program ctx blocks part) :
    Reaches (start, .block program) (ctx, part) := by
  induction h with
  | program => exact .refl
  | step _ hstep ih => exact ih.tail hstep

/-- One step keeps what the context knows about the innermost loop. -/
theorem Step.continueLabel (h : Step ctx whole inner part)
    (hctx : ctx.continueLabel = Block.endLabel? blocks) :
    inner.continueLabel = Block.endLabel? (whole.blocksAround part blocks) := by
  cases h with
  | operand h => exact hctx
  | value id span f => exact hctx
  | «class» hpattern h => cases h <;> exact hctx
  | body isMethod convention f => rfl
  | statement hs => exact hctx
  | @part s inner t h =>
    obtain ⟨id, span, kind⟩ := s
    dsimp only at h
    cases h with
    | localClass hclass hnative h => cases h <;> exact hctx
    | assignedClass happend hclass hnative h => cases h <;> exact hctx
    | _ => first | exact hctx | rfl

/-- **The context knows the label at the end of the innermost loop.** -/
theorem Comes.continueLabel (hstart : start.continueLabel = none)
    (h : Comes start program ctx blocks part) : ctx.continueLabel = Block.endLabel? blocks := by
  induction h with
  | program => exact hstart
  | step _ hstep ih => exact hstep.continueLabel ih

end Emit

namespace Emit

variable {ctx : Context} {label : Identifier} {span : Span} {p : Progress}

theorem gotoStatement_eq (h : ctx.continueLabel = some label.name) :
    (gotoStatement ctx label span).run p = ("continue", p) := by
  rw [gotoStatement, if_pos h]
  rfl

/-- What stands in place of a construct that cannot be lowered is a comment. -/
theorem contain_ne_continue (unsupported : Unsupported) :
    ((contain unsupported span).run p).1 ≠ "continue" := by
  intro h
  have hlist := congrArg String.toList h
  change ("/* " ++ Text.replace unsupported.message "*/" "* /" ++ " */").toList = _ at hlist
  rw [String.toList_append, String.toList_append] at hlist
  exact absurd (List.cons.inj hlist).1 (by decide)

theorem gotoStatement_ne (h : ctx.continueLabel ≠ some label.name) :
    ((gotoStatement ctx label span).run p).1 ≠ "continue" ∧
      ((gotoStatement ctx label span).run p).2.failures =
        p.failures ++ [⟨.goto label.name, span.start⟩] := by
  rw [gotoStatement, if_neg h]
  exact ⟨contain_ne_continue _, rfl⟩

end Emit

variable {source : String} {chunk : Chunk} {ctx : Context} {blocks : List Block} {s : Stmt}
  {label : Identifier}

/-- **When a `goto` keeps its target.** A `goto` that the walk comes to is written as `continue` or
gives a message. If Lua takes it to the end of the innermost loop of its function, it is written as
`continue`, without a message, and the code has the word. If it is written as `continue`, Lua takes it
there, unless a label of its name stands nearer: in a block inside the loop's body, or in the body in
front of the end. Then Lua takes it to that label, though the `continue` goes to the end. -/
theorem goto_keeps_target (path : String) (registries : Registries) (options : Options)
    (hparse : (parse source).result = .ok chunk)
    (hcomes : Emit.Comes ((parse source).context path options) chunk.body ctx blocks (.statement s))
    (hgoto : s.kind = .goto label) :
    (Block.EndsLoop label.name blocks →
      (∀ p, (Emit.statement ctx s.id s.span s.kind).run p = ("continue", p)) ∧
      Bears (compile .keep source path registries options).1.code "continue") ∧
    (∀ p, ((Emit.statement ctx s.id s.span s.kind).run p).1 = "continue" →
      Block.hides label.name blocks = false → Block.EndsLoop label.name blocks) ∧
    (∀ p, ((Emit.statement ctx s.id s.span s.kind).run p).1 ≠ "continue" →
      ((Emit.statement ctx s.id s.span s.kind).run p).2.failures =
        p.failures ++ [⟨.goto label.name, s.span.start⟩]) ∧
    (Block.hides label.name blocks = true → ¬ Block.EndsLoop label.name blocks) := by
  have hlabel : ctx.continueLabel = Block.endLabel? blocks := hcomes.continueLabel rfl
  have hstatement : Emit.statement ctx s.id s.span s.kind = Emit.gotoStatement ctx label s.span := by
    rw [hgoto, Emit.statement]
  rw [hstatement]
  refine ⟨fun hends => ?_, fun p hcontinue hplain => ?_, fun p hother => ?_, fun hhidden hends => ?_⟩
  · have hknown : ctx.continueLabel = some label.name := hlabel.trans (Block.endsLoop_iff.1 hends).1
    refine ⟨fun p => Emit.gotoStatement_eq hknown, ?_⟩
    obtain ⟨text, ⟨p, htext⟩, hbears⟩ :=
      holds_compile path registries options hparse hcomes.reaches
    rw [hstatement, Emit.gotoStatement_eq hknown] at htext
    have hword : text = "continue" := htext.symm
    rwa [hword] at hbears
  · refine Block.endsLoop_iff.2 ⟨?_, hplain⟩
    rw [← hlabel]
    -- a jump to any other label is not written as `continue`
    by_contra hunknown
    exact (Emit.gotoStatement_ne hunknown).1 hcontinue
  · refine (Emit.gotoStatement_ne fun hknown => hother ?_).2
    rw [Emit.gotoStatement_eq hknown]
  · rw [(Block.endsLoop_iff.1 hends).2] at hhidden
    cases hhidden

/-- A hidden end: Lua calls `f` after the jump, the code does not. -/
example : (compile .keep "while a do do goto c ::c:: f() end g() ::c:: end" "m.lua" .empty {}).1.code =
    "while (a) \x7b\x7bcontinue;\n;\nf()\x7d;\ng();\n\x7d" := by
  rw [compile, parse_ofList]
  decide +kernel

/-- A jump to the end of a loop. -/
def loopEndText : String := "while a do goto c ::c:: end"

/-- Whether a chunk is a loop of one jump and the label that it jumps to. -/
def Chunk.jumpsToLoopEnd (chunk : Chunk) : Bool :=
  match chunk.body with
  | [⟨_, _, .while _ [⟨_, _, .goto label⟩, ⟨_, _, .label last⟩]⟩] => last.name == label.name
  | _ => false

theorem goto_keeps_target_loopEndText : ∃ chunk, (parse loopEndText).result = .ok chunk ∧
    ∃ ctx blocks s label, s.kind = .goto label ∧
      Emit.Comes ((parse loopEndText).context "m.lua" {}) chunk.body ctx blocks (.statement s) ∧
      Block.target? label.name blocks = some (0, 1) ∧ Block.loopEnd? blocks = some (0, 1) ∧
      (∀ p, (Emit.statement ctx s.id s.span s.kind).run p = ("continue", p)) ∧
      Bears (compile .keep loopEndText "m.lua" .empty {}).1.code "continue" := by
  have hany : (parse loopEndText).result.toOption.any Chunk.jumpsToLoopEnd = true := by
    rw [loopEndText, parse_ofList]
    decide +kernel
  obtain ⟨chunk, hparse, hshape⟩ := Parsed.exists_of_any hany
  unfold Chunk.jumpsToLoopEnd at hshape
  split at hshape
  next id span condition gotoId gotoSpan label labelId labelSpan last hbody =>
    rw [beq_iff_eq] at hshape
    -- from the program into the loop, and to the jump in its body
    have hprogram : Emit.Comes ((parse loopEndText).context "m.lua" {}) chunk.body
        ((parse loopEndText).context "m.lua" {}) [⟨chunk.body, false⟩] (.block chunk.body) :=
      .program
    have hloop := hprogram.step (Step.statement (hbody ▸ List.mem_cons_self))
    have hinside := hloop.step (Step.part (StatementPart.whileBody condition _))
    have hcomes := hinside.step (Step.statement List.mem_cons_self)
    have htarget : Block.target? label.name
        [⟨[⟨gotoId, gotoSpan, .goto label⟩, ⟨labelId, labelSpan, .label last⟩], true⟩,
          ⟨chunk.body, false⟩] = some (0, 1) := by
      simp [Block.target?, Block.label?, Stmt.isLabel, hshape, List.findIdx?_cons]
    obtain ⟨hends, -⟩ := goto_keeps_target "m.lua" .empty {} hparse hcomes rfl
    obtain ⟨hrun, hbears⟩ := hends ⟨(0, 1), htarget, rfl⟩
    exact ⟨chunk, hparse, _, _, _, label, rfl, hcomes, htarget, rfl, hrun, hbears⟩
  next => cases hshape

end LuaCompiler
