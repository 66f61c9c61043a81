import LuaCompiler.Comment

/-!
# The comment queue

Comments wait in source order until the walk over the tree passes them. `before` hands out the
comments on lines above a node, with the blank lines between them; `after` those that start on the
node's last line; `flush` all that are left. A comment leaves the queue only from its front, and
only to be written.
-/

namespace LuaCompiler

/-- The comments not yet written, and the last line that the walk has reached. -/
structure CommentQueue where
  waiting : List Comment
  lastLine : Nat := 0

namespace CommentQueue

/-- The queue of a list of comments: by start, those that start together in the given order. -/
def ofComments (comments : List Comment) : CommentQueue :=
  ⟨comments.mergeSort fun a b => a.span.start.le b.span.start, 0⟩

/-- How many comments are not yet written. -/
def remaining (queue : CommentQueue) : Nat := queue.waiting.length

/-- The line breaks that lead from one line to a later one. -/
def breaks (here there : Nat) : String :=
  String.ofList (List.replicate (there - here) '\n')

/-- Writes comments on lines of their own, each behind the blank lines that part it from `line`,
then the blank lines up to `target`. -/
def leadingLines (target : Nat) : Nat → List Comment → String
  | line, [] => breaks line target
  | line, comment :: rest =>
    breaks line comment.span.start.line ++ comment.leading ++ "\n" ++
      leadingLines target
        (max (max line comment.span.start.line) (comment.span.stop.line + 1)) rest

/-- Writes each of some comments and a line break. -/
def lines (render : Comment → String) (comments : List Comment) : String :=
  String.join (comments.map fun comment => render comment ++ "\n")

/-- Whether a comment starts on a line above `line`. -/
def startsAbove (line : Nat) (comment : Comment) : Bool :=
  comment.span.start.line < line

/-- Whether a comment starts on `line`. -/
def startsOn (line : Nat) (comment : Comment) : Bool :=
  comment.span.start.line == line

/-- Comments and blank lines above a node. -/
def before (queue : CommentQueue) (span : Span) : String × CommentQueue :=
  let target := span.start.line
  (leadingLines target (queue.lastLine + 1) (queue.waiting.takeWhile (startsAbove target)),
    ⟨queue.waiting.dropWhile (startsAbove target), max queue.lastLine target⟩)

/-- Comments that start on the last line of a node. -/
def after (queue : CommentQueue) (span : Span) : String × CommentQueue :=
  let line := span.stop.line
  let passed := queue.waiting.takeWhile (startsOn line)
  (lines Comment.trailing passed,
    ⟨queue.waiting.dropWhile (startsOn line),
      max (passed.foldl (fun last comment => max last comment.span.stop.line) queue.lastLine) line⟩)

/-- All comments left. -/
def flush (queue : CommentQueue) : String × CommentQueue :=
  (lines Comment.leading queue.waiting, ⟨[], queue.lastLine⟩)

end CommentQueue

end LuaCompiler
