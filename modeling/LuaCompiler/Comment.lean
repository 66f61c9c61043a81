import LuaCompiler.Position
import LuaCompiler.Text.Search

/-!
# Comments

A comment of the source, and the two ways it is written into generated code: on a line of its own
before a node (`Comment.leading`), or behind a node on the node's last line (`Comment.trailing`).
-/

namespace LuaCompiler

/-- A comment of the source. -/
structure Comment where
  /-- the text without its delimiters -/
  value : String
  /-- the text with its delimiters -/
  raw : String
  /-- whether it is written with long brackets -/
  isBlock : Bool
  span : Span
deriving DecidableEq

namespace Comment

/-- The comment on a line of its own: a block stays a block that its text cannot close. -/
def leading (comment : Comment) : String :=
  if comment.isBlock then "/*" ++ Text.replace comment.value "*/" "* /" ++ "*/"
  else "//" ++ comment.value

/-- The comment behind a node: only a block of several lines stays a block. -/
def trailing (comment : Comment) : String :=
  if comment.isBlock && comment.value.toList.contains '\n' then comment.leading
  else "//" ++ Text.replace comment.value "\n" " "

end Comment

end LuaCompiler
