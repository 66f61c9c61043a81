import LuaCompiler.Emit.Progress

/-!
# Layouts

A `Layout` says how the text of a node is put together from the texts of its parts: where the walk
stops to take comments from the queue, where names are bound and referred to, which stretches are
scopes of their own, and what becomes of the texts of the parts. Most texts are written once and in
the order of the walk. Four rules do otherwise: a text is thrown away (`dropped`), written twice
(`twice`, `enclosing`), or written behind a text that was made after it (`swapped`).

* `Layout.run`: the comments that are written, and the queue that is left.
* `Layout.isFaithful`: no comment falls into the hands of one of the four rules.
* `Layout.waiting_eq`: a faithful layout writes what it takes, in its order.
* `Layout.sites`: the names that are written, each with what it is in reach of.
-/

namespace LuaCompiler.Emit

/-- A comment of generated code: one of the source, above a node or behind it, or a remark on a
construct that has no counterpart. -/
inductive Mark where
  | above (comment : Comment)
  | behind (comment : Comment)
  | remark (unsupported : Unsupported)
deriving DecidableEq

namespace Mark

/-- How a mark is written. -/
def text : Mark → String
  | above comment => comment.leading
  | behind comment => comment.trailing
  | remark unsupported => "/* " ++ Text.replace unsupported.message "*/" "* /" ++ " */"

/-- The comment of the source that a mark is. -/
def comment? : Mark → Option Comment
  | above comment => some comment
  | behind comment => some comment
  | remark _ => none

/-- The comments of the source among some marks. -/
def comments (marks : List Mark) : List Comment := marks.filterMap comment?

@[simp]
theorem comments_nil : comments [] = [] := rfl

@[simp]
theorem comments_append (m n : List Mark) : comments (m ++ n) = comments m ++ comments n :=
  List.filterMap_append

@[simp]
theorem comments_map_above (cs : List Comment) : comments (cs.map above) = cs := by
  simp [comments, List.filterMap_map, Function.comp_def, comment?]

@[simp]
theorem comments_map_behind (cs : List Comment) : comments (cs.map behind) = cs := by
  simp [comments, List.filterMap_map, Function.comp_def, comment?]

end Mark

/-- The text of a reference to a name: the receiver of the method, a library of the support module,
or the name in its own spelling. -/
def referenceText (ctx : Context) (name : String) : String :=
  match ctx.receiver.filter (·.name == name) with
  | some receiver => if receiver.depth == ctx.functionDepth then "this" else receiverAlias
  | none => if ctx.isLibrary name then "l2j." ++ name else Name.asBinding name

/-- A name as it is written: a reference, or the target of a function statement or of a class, which
is never the receiver. -/
structure Word where
  context : Context
  id : NodeId
  name : String
  isTarget : Bool

/-- How a name is written. -/
def Word.text (w : Word) : String :=
  let name := w.context.annotations.resolve w.id w.name
  if w.isTarget then Name.asBinding name else referenceText w.context name

/-- How a function takes its receiver: not at all, beside its parameters, or as its first parameter,
which is then not written. -/
inductive Reception where
  | none
  | beside
  | parameter (identifier : Identifier)
deriving DecidableEq

namespace Reception

/-- The name of the receiver that a function takes. -/
def name? : Reception → Option String
  | none => .none
  | beside => some Scope.receiverName
  | parameter identifier => some identifier.name

/-- The parameter that a receiver is bound to. -/
def parameters : Reception → List Identifier
  | parameter identifier => [identifier]
  | _ => []

end Reception

/-- How the text of a node is put together. -/
inductive Layout where
  /-- text without comments and names -/
  | blank
  /-- a remark on a construct -/
  | remark (unsupported : Unsupported)
  /-- the statements that seal classes -/
  | sealing
  /-- all comments left -/
  | remaining
  /-- a name -/
  | word (w : Word)
  /-- a name where it is bound, for a declared identifier -/
  | binding (id : NodeId) (name : String)
  /-- a text with the comments around it -/
  | around (span : Span) (inner : Layout)
  /-- two texts in the order of the walk -/
  | append (first second : Layout)
  /-- a text in braces, which may be a scope of its own -/
  | braces (isScope : Bool) (inner : Layout)
  /-- a header in parentheses and a body that sees what the header binds -/
  | region (header body : Layout)
  /-- the parameters of a function in parentheses and its body -/
  | callable (reception : Reception) (header body : Layout)
  /-- a body in braces, and a condition behind them -/
  | loopUntil (body condition : Layout)
  /-- a text, or a word in its place if it is blank -/
  | unlessBlank (inner : Layout)
  /-- a text that is thrown away -/
  | dropped (inner : Layout)
  /-- a text that is written twice in a row -/
  | twice (inner : Layout)
  /-- a text that is written before and behind the one made after it -/
  | enclosing (outer inner : Layout)
  /-- a text that is written behind the one made after it -/
  | swapped (first second : Layout)

namespace Layout

/-! ## Comments -/

/-- The comments that are written, and the queue that is left. -/
def run : Layout → CommentQueue → List Mark × CommentQueue
  | blank, queue | sealing, queue | word _, queue | binding _ _, queue => ([], queue)
  | remark unsupported, queue => ([.remark unsupported], queue)
  | remaining, queue => (queue.waiting.map .above, queue.flush.2)
  | around span inner, queue =>
    let (marks, rest) := inner.run (queue.before span).2
    ((queue.waiting.takeWhile (CommentQueue.startsAbove span.start.line)).map .above ++ marks ++
        (rest.waiting.takeWhile (CommentQueue.startsOn span.stop.line)).map .behind,
      (rest.after span).2)
  | append first second, queue | region first second, queue | callable _ first second, queue
  | loopUntil first second, queue =>
    let (marks, rest) := first.run queue
    let (more, last) := second.run rest
    (marks ++ more, last)
  | braces _ inner, queue | unlessBlank inner, queue => inner.run queue
  | dropped inner, queue => ([], (inner.run queue).2)
  | twice inner, queue =>
    let (marks, rest) := inner.run queue
    (marks ++ marks, rest)
  | enclosing outer inner, queue =>
    let (marks, rest) := outer.run queue
    let (more, last) := inner.run rest
    (marks ++ more ++ marks, last)
  | swapped first second, queue =>
    let (marks, rest) := first.run queue
    let (more, last) := second.run rest
    (more ++ marks, last)

/-- Whether a layout takes no comment from a queue. -/
def isIdle (layout : Layout) (queue : CommentQueue) : Bool :=
  (layout.run queue).2.waiting == queue.waiting

/-- Whether each comment that a layout takes from a queue is written once and in its place. -/
def isFaithful : Layout → CommentQueue → Bool
  | blank, _ | sealing, _ | word _, _ | binding _ _, _ | remark _, _ | remaining, _ => true
  | around span inner, queue => inner.isFaithful (queue.before span).2
  | append first second, queue | region first second, queue | callable _ first second, queue
  | loopUntil first second, queue =>
    first.isFaithful queue && second.isFaithful (first.run queue).2
  | braces _ inner, queue | unlessBlank inner, queue => inner.isFaithful queue
  | dropped inner, queue => inner.isIdle queue
  | twice inner, queue => inner.isIdle queue && inner.isFaithful queue
  | enclosing outer inner, queue =>
    outer.isIdle queue && outer.isFaithful queue && inner.isFaithful (outer.run queue).2
  | swapped first second, queue =>
    (first.isIdle queue || second.isIdle (first.run queue).2) && first.isFaithful queue &&
      second.isFaithful (first.run queue).2

variable {layout : Layout} {queue : CommentQueue}

/-- A faithful layout that takes nothing writes nothing. -/
theorem comments_of_isIdle (hidle : layout.isIdle queue = true)
    (h : queue.waiting = Mark.comments (layout.run queue).1 ++ (layout.run queue).2.waiting) :
    Mark.comments (layout.run queue).1 = [] := by
  rw [isIdle, beq_iff_eq] at hidle
  rw [hidle] at h
  exact List.self_eq_append_left.1 h

/-- **A faithful layout writes the comments that it takes**, in their order. -/
theorem waiting_eq (h : layout.isFaithful queue = true) :
    queue.waiting = Mark.comments (layout.run queue).1 ++ (layout.run queue).2.waiting := by
  induction layout generalizing queue with
  | blank | sealing | word | binding => rfl
  | remark => rfl
  | remaining => simp [run, CommentQueue.flush]
  | around span inner ih =>
    have hinner := ih h
    have hbefore : (queue.before span).2.waiting =
        queue.waiting.dropWhile (CommentQueue.startsAbove span.start.line) := rfl
    have hafter (rest : CommentQueue) : (rest.after span).2.waiting =
        rest.waiting.dropWhile (CommentQueue.startsOn span.stop.line) := rfl
    rw [run, hafter, Mark.comments_append, Mark.comments_append, Mark.comments_map_above,
      Mark.comments_map_behind, List.append_assoc, List.takeWhile_append_dropWhile,
      List.append_assoc, ← hinner, hbefore, List.takeWhile_append_dropWhile]
  | append a b iha ihb | region a b iha ihb | callable _ a b iha ihb | loopUntil a b iha ihb =>
    rw [isFaithful, Bool.and_eq_true] at h
    rw [run, Mark.comments_append, List.append_assoc, ← ihb h.2, ← iha h.1]
  | braces isScope inner ih | unlessBlank inner ih => exact ih h
  | dropped inner ih =>
    rw [isFaithful, isIdle, beq_iff_eq] at h
    rw [run, Mark.comments_nil, List.nil_append, h]
  | twice inner ih =>
    rw [isFaithful, Bool.and_eq_true] at h
    -- a layout that is written twice is faithful only if it takes no comment
    have hinner := ih h.2
    have hnil := comments_of_isIdle h.1 hinner
    rw [hnil] at hinner
    rw [run, Mark.comments_append, hnil]
    exact hinner
  | enclosing a b iha ihb =>
    rw [isFaithful, Bool.and_eq_true, Bool.and_eq_true] at h
    have houter := iha h.1.2
    have hnil := comments_of_isIdle h.1.1 houter
    rw [hnil] at houter
    rw [run, Mark.comments_append, Mark.comments_append, hnil, List.append_nil, List.nil_append,
      ← ihb h.2, houter, List.nil_append]
  | swapped a b iha ihb =>
    rw [isFaithful, Bool.and_eq_true, Bool.and_eq_true, Bool.or_eq_true] at h
    -- of two that change places one takes none
    have hfirst := iha h.1.2
    have hsecond := ihb h.2
    rw [run, Mark.comments_append]
    rcases h.1.1 with hidle | hidle
    · have hnil := comments_of_isIdle hidle hfirst
      rw [hnil] at hfirst ⊢
      rw [List.append_nil, ← hsecond, hfirst, List.nil_append]
    · have hnil := comments_of_isIdle hidle hsecond
      rw [hnil] at hsecond ⊢
      rw [List.nil_append, ← List.nil_append (run b _).2.waiting, ← hsecond, ← hfirst]

/-- Comments leave a queue from its front. -/
theorem waiting_suffix (layout : Layout) (queue : CommentQueue) :
    (layout.run queue).2.waiting <:+ queue.waiting := by
  induction layout generalizing queue with
  | blank | sealing | word | binding | remark => exact List.suffix_refl _
  | remaining => exact List.nil_suffix
  | around span inner ih =>
    have hbefore : (queue.before span).2.waiting <:+ queue.waiting := List.dropWhile_suffix _
    have hafter : ((inner.run (queue.before span).2).2.after span).2.waiting <:+
        (inner.run (queue.before span).2).2.waiting := List.dropWhile_suffix _
    exact hafter.trans ((ih _).trans hbefore)
  | append a b iha ihb | region a b iha ihb | callable _ a b iha ihb | loopUntil a b iha ihb
  | enclosing a b iha ihb | swapped a b iha ihb => exact (ihb _).trans (iha queue)
  | braces _ inner ih | unlessBlank inner ih | dropped inner ih | twice inner ih => exact ih queue

/-! ## Names -/

/-- The identifiers that a layout binds for what stands behind it. -/
def exposed : Layout → List NodeId
  | binding id _ => [id]
  | around _ inner | braces false inner | unlessBlank inner | twice inner => inner.exposed
  | append first second | swapped first second | enclosing first second =>
    second.exposed ++ first.exposed
  | blank | remark _ | sealing | remaining | word _ | braces true _ | region _ _ | callable _ _ _
  | loopUntil _ _ | dropped _ => []

/-- A function around a place: how it takes its receiver, and its parameters that are written. -/
structure Frame where
  reception : Reception
  parameters : List NodeId

/-- What a place in generated code is in reach of. -/
structure Reach where
  /-- the identifiers whose bindings are visible, innermost first -/
  visible : List NodeId := []
  /-- those that were bound in the body of a loop whose condition the place stands in -/
  hidden : List NodeId := []
  /-- the functions around the place, innermost first -/
  functions : List Frame := []

namespace Reach

/-- Some bindings more are visible. -/
def see (reach : Reach) (ids : List NodeId) : Reach := { reach with visible := ids ++ reach.visible }

/-- Some bindings more are hidden. -/
def hide (reach : Reach) (ids : List NodeId) : Reach := { reach with hidden := ids ++ reach.hidden }

/-- The reach in a function. -/
def enter (reach : Reach) (frame : Frame) : Reach :=
  { reach.see (frame.parameters ++ frame.reception.parameters.map Identifier.id) with
    functions := frame :: reach.functions }

end Reach

/-- A name that is written, and what it is in reach of. -/
structure Site where
  word : Word
  reach : Reach

/-- **The names that are written**, where some bindings are in reach before. -/
def sites (reach : Reach) : Layout → List Site
  | word w => [⟨w, reach⟩]
  | around _ inner | braces _ inner | unlessBlank inner | twice inner => inner.sites reach
  | append first second | region first second | swapped first second | enclosing first second =>
    first.sites reach ++ second.sites (reach.see first.exposed)
  | callable reception header body =>
    header.sites reach ++ body.sites (reach.enter ⟨reception, header.exposed⟩)
  | loopUntil body condition => body.sites reach ++ condition.sites (reach.hide body.exposed)
  | blank | remark _ | sealing | remaining | binding _ _ | dropped _ => []

end Layout

end LuaCompiler.Emit
