import LuaCompiler.Proofs.Script.Literals
import LuaCompiler.Proofs.Token.Comments

/-!
# Comments as a script reads them

Lua ends a comment of one line at a line feed, a script also at a carriage return and at the two
separators of Unicode. A comment of several lines may hold any of them, and ends at the first sign
that closes it, which is escaped in the text.

* `Script.elements`: a script as its comments, its ends of lines and the code between them.
* `Script.isOneComment_line` and `Script.isOneComment_block`: when the two forms of a comment are read
  as one comment.
* `comments_stay_comments`: **a comment of a source is read as one comment exactly if it is written
  as a block or if the ends of lines in it are the last of its text.**
-/

namespace LuaCompiler

namespace Script

/-- Whether a character ends a line of a script: line feed, carriage return, and the separators of
lines and of paragraphs. -/
def endsLine (c : Char) : Bool := ['\n', '\r', '\u2028', '\u2029'].contains c

/-- What the text of a script is made of, as far as comments are concerned. -/
inductive Element where
  | comment (text : List Char)
  | lineEnd
  | code (c : Char)
deriving DecidableEq

/-- A text up to the first end of a block comment, and what is behind it. -/
def throughBlock? : List Char → Option (List Char × List Char)
  | [] => none
  | [_] => none
  | '*' :: '/' :: rest => some ([], rest)
  | c :: d :: rest => (throughBlock? (d :: rest)).map fun (text, behind) => (c :: text, behind)

/-- The comment that a text starts with, and what is behind it. -/
def comment? : List Char → Option (List Char × List Char)
  | '/' :: '/' :: rest => some (rest.takeWhile (!endsLine ·), rest.dropWhile (!endsLine ·))
  | '/' :: '*' :: rest => throughBlock? rest
  | _ => none

theorem length_of_throughBlock {text inner behind : List Char}
    (h : throughBlock? text = some (inner, behind)) : behind.length < text.length := by
  fun_induction throughBlock? text generalizing inner with
  | case1 => cases h
  | case2 => cases h
  | case3 rest =>
    cases h
    simp only [List.length_cons]
    omega
  | case4 c d rest _ ih =>
    obtain ⟨⟨text, last⟩, hrest, heq⟩ := Option.map_eq_some_iff.1 h
    obtain ⟨-, rfl⟩ := Prod.mk.inj heq
    have hshorter := ih hrest
    rw [List.length_cons]
    omega

theorem length_of_comment {text inner behind : List Char}
    (h : comment? text = some (inner, behind)) : behind.length < text.length := by
  unfold comment? at h
  split at h
  next rest =>
    obtain ⟨-, rfl⟩ := Prod.mk.inj (Option.some.inj h)
    have hrest := (List.dropWhile_sublist (!endsLine ·) (l := rest)).length_le
    simp only [List.length_cons]
    omega
  next rest =>
    have hrest := length_of_throughBlock h
    simp only [List.length_cons]
    omega
  · cases h

/-- **A script as its elements.** -/
def elements : List Char → List Element
  | [] => []
  | c :: cs =>
    match h : comment? (c :: cs) with
    | some (text, behind) =>
      have := length_of_comment h
      .comment text :: elements behind
    | none => (if endsLine c then .lineEnd else .code c) :: elements cs
termination_by text => text.length
decreasing_by
  · exact this
  · exact Nat.lt_succ_self cs.length

/-- A text is read as one comment, with nothing but ends of lines behind it. -/
def IsOneComment (text : String) : Prop :=
  ∃ inner lines, elements text.toList = .comment inner :: List.replicate lines .lineEnd

/-! ## Ends of lines -/

variable {c : Char} {text inner behind : List Char}

theorem elements_of_comment (h : comment? text = some (inner, behind)) :
    elements text = .comment inner :: elements behind := by
  cases text with
  | nil => cases h
  | cons c cs =>
    rw [elements]
    split
    next other rest heq =>
      obtain ⟨rfl, rfl⟩ := Prod.mk.inj (Option.some.inj (heq.symm.trans h))
      rfl
    next heq => cases heq.symm.trans h

theorem elements_of_none {cs : List Char} (h : comment? (c :: cs) = none) :
    elements (c :: cs) = (if endsLine c then .lineEnd else .code c) :: elements cs := by
  rw [elements]
  split
  next heq => cases h.symm.trans heq
  · rfl

/-- No comment starts with the end of a line. -/
theorem comment_of_endsLine (h : endsLine c = true) (cs : List Char) : comment? (c :: cs) = none := by
  have hslash : c ≠ '/' := by
    rintro rfl
    exact absurd h (by decide)
  unfold comment?
  split
  next heq => exact absurd (List.cons.inj heq).1 hslash
  next heq => exact absurd (List.cons.inj heq).1 hslash
  · rfl

/-- **Only ends of lines are read as ends of lines.** -/
theorem elements_eq_lineEnds_iff {text : List Char} :
    (∃ lines, elements text = List.replicate lines .lineEnd) ↔ ∀ c ∈ text, endsLine c = true := by
  induction text with
  | nil => exact ⟨fun _ => List.forall_mem_nil _, fun _ => ⟨0, by rw [elements]; rfl⟩⟩
  | cons c cs ih =>
    rw [List.forall_mem_cons, ← ih]
    constructor
    · rintro ⟨lines, hlines⟩
      cases lines with
      | zero =>
        -- a text that is not empty has an element
        cases hc : comment? (c :: cs) with
        | some found => rw [elements_of_comment hc] at hlines; cases hlines
        | none => rw [elements_of_none hc] at hlines; cases hlines
      | succ lines =>
        rw [List.replicate_succ] at hlines
        cases hc : comment? (c :: cs) with
        | some found => rw [elements_of_comment hc] at hlines; cases hlines
        | none =>
          rw [elements_of_none hc] at hlines
          obtain ⟨hfirst, hrest⟩ := List.cons.inj hlines
          by_cases hend : endsLine c = true
          · exact ⟨hend, lines, hrest⟩
          · rw [if_neg hend] at hfirst
            cases hfirst
    · rintro ⟨hend, lines, hlines⟩
      refine ⟨lines + 1, ?_⟩
      rw [elements_of_none (comment_of_endsLine hend cs), if_pos hend, hlines, List.replicate_succ]

theorem isOneComment_iff {text : String} (h : comment? text.toList = some (inner, behind)) :
    IsOneComment text ↔ ∀ c ∈ behind, endsLine c = true := by
  rw [← elements_eq_lineEnds_iff, IsOneComment, elements_of_comment h]
  constructor
  · rintro ⟨_, lines, heq⟩
    exact ⟨lines, (List.cons.inj heq).2⟩
  · rintro ⟨lines, heq⟩
    exact ⟨inner, lines, by rw [heq]⟩

/-! ## The two forms of a comment -/

/-- Whether the ends of lines in a text are the last of it. -/
def endsOnly (text : List Char) : Bool := (text.dropWhile (!endsLine ·)).all endsLine

/-- **A comment of one line is read as one comment if nothing is behind the ends of lines in it.** -/
theorem isOneComment_line (value : String) :
    IsOneComment ("//" ++ value ++ "\n") ↔ endsOnly value.toList = true := by
  have htext : ("//" ++ value ++ "\n").toList = '/' :: '/' :: (value.toList ++ ['\n']) := by simp
  have hcomment := congrArg comment? htext
  rw [comment?] at hcomment
  rw [isOneComment_iff hcomment, endsOnly, List.all_eq_true, List.dropWhile_append]
  have hfeed : endsLine '\n' = true := by decide
  split
  next hnone =>
    -- the line feed behind the comment is the only one
    rw [List.isEmpty_iff] at hnone
    rw [hnone]
    simp [hfeed]
  · simp only [List.mem_append, List.mem_singleton]
    constructor
    · intro h c hc
      exact h c (.inl hc)
    · rintro h c (hc | rfl)
      · exact h c hc
      · exact hfeed

theorem throughBlock_cons {d : Char} {ds : List Char} (h : ¬ (c = '*' ∧ d = '/')) :
    throughBlock? (c :: d :: ds) =
      (throughBlock? (d :: ds)).map fun (text, behind) => (c :: text, behind) := by
  rw [throughBlock?]
  rintro rfl rfl
  exact h ⟨rfl, rfl⟩

/-- A block comment ends at its end if the text in it holds none. -/
theorem throughBlock_append {value : List Char} (h : Text.occurs ['*', '/'] value = false)
    (rest : List Char) : throughBlock? (value ++ '*' :: '/' :: rest) = some (value, rest) := by
  induction value with
  | nil => rw [List.nil_append, throughBlock?]
  | cons c cs ih =>
    rw [Text.occurs, Bool.or_eq_false_iff] at h
    obtain ⟨hhere, hthere⟩ := h
    have hinner := ih hthere
    cases cs with
    | nil =>
      -- the sign behind the text begins with an asterisk
      have hopen : ¬ (c = '*' ∧ '*' = '/') := fun h => absurd h.2 (by decide)
      rw [List.nil_append] at hinner
      rw [List.cons_append, List.nil_append, throughBlock_cons hopen, hinner]
      rfl
    | cons d ds =>
      have hopen : ¬ (c = '*' ∧ d = '/') := by
        rintro ⟨rfl, rfl⟩
        simp [List.isPrefixOf] at hhere
      rw [List.cons_append] at hinner
      rw [List.cons_append, List.cons_append, throughBlock_cons hopen, hinner]
      rfl

/-- **A comment of several lines is read as one comment if its text holds no end of one.** -/
theorem isOneComment_block {value : String} (h : Text.contains value "*/" = false) :
    IsOneComment ("/*" ++ value ++ "*/" ++ "\n") := by
  have htext : ("/*" ++ value ++ "*/" ++ "\n").toList =
      '/' :: '*' :: (value.toList ++ '*' :: '/' :: ['\n']) := by simp
  have hoccurs : Text.occurs ['*', '/'] value.toList = false := by simpa [Text.contains] using h
  have hcomment := congrArg comment? htext
  rw [comment?, throughBlock_append hoccurs] at hcomment
  refine (isOneComment_iff hcomment).2 fun c hc => ?_
  rw [List.mem_singleton.1 hc]
  decide

end Script

/-! ## The comments of a source -/

namespace Comment

variable {comment : Comment}

theorem leading_of_block (h : comment.isBlock = true) :
    comment.leading = "/*" ++ Text.replace comment.value "*/" "* /" ++ "*/" := if_pos h

theorem leading_of_line (h : comment.isBlock = false) : comment.leading = "//" ++ comment.value :=
  if_neg (by rw [h]; exact Bool.false_ne_true)

/-- Above a node a block is one comment whatever it holds, and a line if nothing is behind its end. -/
theorem isOneComment_leading (comment : Comment) :
    Script.IsOneComment (comment.leading ++ "\n") ↔
      comment.isBlock = true ∨ Script.endsOnly comment.value.toList = true := by
  cases hblock : comment.isBlock with
  | true =>
    rw [leading_of_block hblock]
    have hread := Script.isOneComment_block (Script.contains_replace_end comment.value)
    exact ⟨fun _ => .inl rfl, fun _ => hread⟩
  | false =>
    rw [leading_of_line hblock, Script.isOneComment_line]
    simp

/-- A text without line feeds has none to replace. -/
theorem replace_newline {value : String} (h : '\n' ∉ value.toList) :
    Text.replace value "\n" " " = value := by
  have hlist (t : List Char) (ht : '\n' ∉ t) : Text.replaceFrom ['\n'] [' '] 0 t = t := by
    rw [Script.replaceFrom_single]
    induction t with
    | nil => rfl
    | cons c cs ih =>
      obtain ⟨hfirst, hrest⟩ := not_or.1 (List.mem_cons.not.1 ht)
      rw [List.flatMap_cons, if_neg (Ne.symm hfirst), ih hrest]
      rfl
  have hnewline : "\n".toList = ['\n'] := by decide
  have hspace : " ".toList = [' '] := by decide
  rw [Text.replace, hnewline, hspace, hlist _ h, String.ofList_toList]

/-- Behind a node only a block of several lines stays a block. -/
theorem isOneComment_trailing (htidy : comment.IsTidy) :
    Script.IsOneComment (comment.trailing ++ "\n") ↔
      comment.isBlock = true ∧ '\n' ∈ comment.value.toList ∨
        Script.endsOnly comment.value.toList = true := by
  by_cases hlines : comment.isBlock = true ∧ '\n' ∈ comment.value.toList
  · have htext : comment.trailing = comment.leading := by
      rw [trailing, if_pos]
      rw [hlines.1, Bool.true_and]
      exact List.contains_iff_mem.2 hlines.2
    rw [htext, isOneComment_leading]
    exact ⟨fun _ => .inl hlines, fun _ => .inl hlines.1⟩
  · have hfeed : '\n' ∉ comment.value.toList := by
      intro hmem
      cases hblock : comment.isBlock with
      | true => exact hlines ⟨hblock, hmem⟩
      | false => exact htidy hblock hmem
    have htext : comment.trailing = "//" ++ comment.value := by
      rw [trailing, if_neg, replace_newline hfeed]
      rw [Bool.and_eq_true, List.contains_iff_mem]
      exact hlines
    rw [htext, Script.isOneComment_line]
    exact ⟨.inr, fun h => h.resolve_left hlines⟩

end Comment

/-- **A comment of a source stays a comment**, above a node exactly if it is a block or if the ends of
lines in it are the last of its text, and behind a node exactly if it is a block with a line feed or if
they are. Nothing of such a comment is read as code. -/
theorem comments_stay_comments {source : String} {comment : Comment}
    (h : comment ∈ (Scan.ofText source.toList).comments) :
    (Script.IsOneComment (comment.leading ++ "\n") ↔
      comment.isBlock = true ∨ Script.endsOnly comment.value.toList = true) ∧
    (Script.IsOneComment (comment.trailing ++ "\n") ↔
      comment.isBlock = true ∧ '\n' ∈ comment.value.toList ∨
        Script.endsOnly comment.value.toList = true) :=
  ⟨comment.isOneComment_leading, Comment.isOneComment_trailing (Scan.tidy_ofText _ comment h)⟩

/-- A comment of one line with a separator of Unicode in it, and a block of two lines with one. -/
def separatedText : String := "x = 1 -- a\u2028f()\n--[[b\n\u2029*/ c]]"

theorem comments_stay_comments_separatedText :
    ∃ line block, (Scan.ofText separatedText.toList).comments = [line, block] ∧
      ¬ Script.IsOneComment (line.trailing ++ "\n") ∧ Script.IsOneComment (block.trailing ++ "\n") := by
  have hcomments : (Scan.ofText separatedText.toList).comments.map
      (fun comment => (comment.isBlock, comment.value)) =
        [(false, " a\u2028f()"), (true, "b\n\u2029*/ c")] := by decide +kernel
  obtain ⟨line, rest, hscan, hline, hrest⟩ := List.map_eq_cons_iff.1 hcomments
  obtain ⟨block, none, rfl, hblock, hnone⟩ := List.map_eq_cons_iff.1 hrest
  obtain rfl := List.map_eq_nil_iff.1 hnone
  obtain ⟨hlineForm, hlineText⟩ := Prod.mk.inj hline
  obtain ⟨hblockForm, hblockText⟩ := Prod.mk.inj hblock
  have hlineMem : line ∈ (Scan.ofText separatedText.toList).comments := by simp [hscan]
  have hblockMem : block ∈ (Scan.ofText separatedText.toList).comments := by simp [hscan]
  refine ⟨line, block, hscan, ?_, ?_⟩
  · rw [(comments_stay_comments hlineMem).2, hlineForm, hlineText]
    decide
  · rw [(comments_stay_comments hblockMem).2, hblockForm, hblockText]
    decide

end LuaCompiler
