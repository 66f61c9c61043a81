import LuaCompiler.Diagnostic

/-!
# Reading a script

A script of JavaScript read one character at a time, far enough to tell code from literals and
comments, to match the brackets of the code, and to keep the comments. A line comment ends at a line
feed; a string and a template know backslashes, and a template with an open substitution is refused,
as is a single quote in code and a bracket that closes another than the last one opened.

* `run_append`: reading in two parts is reading at once.
* `Closed text found`: from code with any brackets open, `text` leads back to code with the same
  brackets open, and holds the comments `found`.
* `closed_of_quiet`, `Closed.enclosed`, `closed_lineComment`, `closed_blockComment`: the closed texts
  that others are made of.
-/

namespace LuaCompiler.Script

/-- The pairs of brackets. -/
inductive Bracket where
  | round
  | square
  | curly
deriving DecidableEq

namespace Bracket

/-- How a bracket is opened. -/
def left : Bracket → Char
  | round => '('
  | square => '['
  | curly => '\x7b'

/-- How a bracket is closed. -/
def right : Bracket → Char
  | round => ')'
  | square => ']'
  | curly => '\x7d'

/-- Every pair of brackets. -/
def all : List Bracket := [round, square, curly]

/-- The bracket that a character opens. -/
def opened? (c : Char) : Option Bracket := all.find? fun bracket => bracket.left == c

/-- The bracket that a character closes. -/
def closed? (c : Char) : Option Bracket := all.find? fun bracket => bracket.right == c

end Bracket

/-- Where the reader of a script stands. A comment is kept as far as it was read. -/
inductive Place where
  | code
  /-- behind a slash in code -/
  | slash
  | string
  /-- behind a backslash in a string -/
  | stringEscape
  | template
  /-- behind a backslash in a template -/
  | templateEscape
  /-- behind a dollar sign in a template -/
  | dollar
  | line (text : List Char)
  | block (text : List Char)
  /-- behind an asterisk in a block comment -/
  | star (text : List Char)
deriving DecidableEq

/-- The reader of a script: its place, the brackets open, innermost first, and the comments so far.
-/
structure Reader where
  place : Place
  brackets : List Bracket
  comments : List (List Char)
deriving DecidableEq

namespace Reader

/-- The reader at the start of a script. -/
def start : Reader := ⟨.code, [], []⟩

/-- The reader at another place. -/
def goTo (r : Reader) (place : Place) : Reader := { r with place }

/-- The reader behind a comment. -/
def keep (r : Reader) (comment : List Char) : Reader :=
  ⟨.code, r.brackets, r.comments ++ [comment]⟩

/-- The reader behind a bracket that closes. -/
def close (r : Reader) (bracket : Bracket) : Option Reader :=
  match r.brackets with
  | top :: outer => if top = bracket then some ⟨.code, outer, r.comments⟩ else none
  | [] => none

/-- A bracket or another character of code. -/
def bracketStep (r : Reader) (c : Char) : Option Reader :=
  match Bracket.opened? c, Bracket.closed? c with
  | some bracket, _ => some ⟨.code, bracket :: r.brackets, r.comments⟩
  | none, some bracket => r.close bracket
  | none, none => some (r.goTo .code)

/-- A character of code. -/
def codeStep (r : Reader) (c : Char) : Option Reader :=
  if c = '/' then some (r.goTo .slash)
  else if c = '"' then some (r.goTo .string)
  else if c = '\x60' then some (r.goTo .template)
  else if c = '\x27' then none
  else r.bracketStep c

/-- A character of a template. -/
def templateStep (r : Reader) (c : Char) : Reader :=
  if c = '\x60' then r.goTo .code
  else if c = '\\' then r.goTo .templateEscape
  else if c = '$' then r.goTo .dollar
  else r.goTo .template

/-- The reader behind a character, unless it refuses the character. -/
def step (r : Reader) (c : Char) : Option Reader :=
  match r.place with
  | .code => r.codeStep c
  | .slash =>
    if c = '/' then some (r.goTo (.line ['/', '/']))
    else if c = '*' then some (r.goTo (.block ['/', '*']))
    else r.codeStep c
  | .string =>
    if c = '"' then some (r.goTo .code)
    else if c = '\\' then some (r.goTo .stringEscape)
    else some (r.goTo .string)
  | .stringEscape => some (r.goTo .string)
  | .template => some (r.templateStep c)
  | .templateEscape => some (r.goTo .template)
  | .dollar => if c = '\x7b' then none else some (r.templateStep c)
  | .line text => if c = '\n' then some (r.keep text) else some (r.goTo (.line (text ++ [c])))
  | .block text =>
    if c = '*' then some (r.goTo (.star (text ++ [c]))) else some (r.goTo (.block (text ++ [c])))
  | .star text =>
    if c = '/' then some (r.keep (text ++ [c]))
    else if c = '*' then some (r.goTo (.star (text ++ [c])))
    else some (r.goTo (.block (text ++ [c])))

/-- The reader behind a text, unless it refuses a character of it. -/
def run (r : Reader) (text : List Char) : Option Reader := text.foldlM step r

/-- Whether a reader has read a whole script: it stands in code and no bracket is open. -/
def isDone (r : Reader) : Bool := r.place = .code && r.brackets.isEmpty

end Reader

/-- **Whether a script is well formed lexically**: it is read to its end, which is in code, with all
brackets of the code closed. -/
def isWellFormed (script : String) : Bool :=
  (Reader.start.run script.toList).any Reader.isDone

/-- The comments of a script that is read to its end, each with its delimiters. -/
def comments (script : String) : List String :=
  ((Reader.start.run script.toList).elim [] Reader.comments).map String.ofList

/-! ## Reading in parts -/

variable {r s : Reader} {a b t : List Char}

namespace Reader

@[simp]
theorem run_nil (r : Reader) : r.run [] = some r := rfl

@[simp]
theorem run_cons (r : Reader) (c : Char) (cs : List Char) :
    r.run (c :: cs) = (r.step c).bind (·.run cs) := rfl

/-- **Reading in two parts is reading at once.** -/
theorem run_append (r : Reader) (a b : List Char) : r.run (a ++ b) = (r.run a).bind (·.run b) :=
  List.foldlM_append

theorem run_append_of_eq (h : r.run a = some s) (b : List Char) : r.run (a ++ b) = s.run b := by
  rw [run_append, h]
  rfl

end Reader

/-! ## Closed texts -/

/-- **A closed text**: from code it leads back to code, with the brackets open that were open
before, and it holds some comments. -/
def Closed (text : String) (found : List (List Char)) : Prop :=
  ∀ brackets seen, Reader.run ⟨.code, brackets, seen⟩ text.toList =
    some ⟨.code, brackets, seen ++ found⟩

/-- A closed text without comments. -/
abbrev Plain (text : String) : Prop := Closed text []

variable {text other : String} {found more : List (List Char)}

theorem plain_empty : Plain "" := fun _ _ => by simp

/-- Texts that are closed are closed in a row, with the comments of both. -/
theorem Closed.append (h : Closed text found) (h' : Closed other more) :
    Closed (text ++ other) (found ++ more) := by
  intro brackets seen
  rw [String.toList_append, Reader.run_append_of_eq (h brackets seen), h', List.append_assoc]

/-- Plain text behind has no comments. -/
theorem Closed.append_plain (h : Closed text found) (h' : Plain other) :
    Closed (text ++ other) found := by
  simpa using h.append h'

/-- Nor has plain text before. -/
theorem Closed.plain_append (h : Plain text) (h' : Closed other more) :
    Closed (text ++ other) more := by
  simpa using h.append h'

/-- The comments of a closed text are its own. -/
theorem Closed.unique (h : Closed text found) (h' : Closed text more) : found = more := by
  have heq := (h [] []).symm.trans (h' [] [])
  simpa using heq

/-- A closed text is well formed. -/
theorem Closed.isWellFormed (h : Closed text found) : isWellFormed text = true := by
  rw [Script.isWellFormed, Reader.start, h]
  rfl

/-- And has the comments that were found. -/
theorem Closed.comments (h : Closed text found) : comments text = found.map String.ofList := by
  rw [Script.comments, Reader.start, h]
  rfl

/-- More brackets open outside, and more comments before. -/
def Reader.within (r : Reader) (outer : List Bracket) (before : List (List Char)) : Reader :=
  ⟨r.place, r.brackets ++ outer, before ++ r.comments⟩

section Within

variable (outer : List Bracket) (before : List (List Char))

/-- What a reader does is done as well with more around it. -/
def Follows (x y : Option Reader) : Prop :=
  ∀ next, x = some next → y = some (next.within outer before)

variable {outer before} {c : Char}

theorem Follows.ofEq {y : Reader} (h : y = r.within outer before) :
    Follows outer before (some r) (some y) := by
  rintro next heq
  cases heq
  rw [h]

theorem Follows.none {y : Option Reader} : Follows outer before none y := fun _ h => nomatch h

/-- Both branches of a test follow. -/
theorem Follows.ite {p : Prop} [Decidable p] {a b a' b' : Option Reader}
    (h : p → Follows outer before a a') (h' : ¬ p → Follows outer before b b') :
    Follows outer before (if p then a else b) (if p then a' else b') := by
  split
  next hp => exact h hp
  next hp => exact h' hp

/-- A bracket that is opened in a text is closed in it. -/
theorem Reader.bracketStep_within :
    Follows outer before (r.bracketStep c) ((r.within outer before).bracketStep c) := by
  obtain ⟨place, brackets, comments⟩ := r
  unfold Reader.bracketStep
  split
  · exact .ofEq rfl
  · cases brackets with
    | nil => exact .none
    | cons top rest => exact .ite (fun _ => .ofEq rfl) fun _ => .none
  · exact .ofEq rfl

/-- A step in code does not look at the brackets outside. -/
theorem Reader.codeStep_within :
    Follows outer before (r.codeStep c) ((r.within outer before).codeStep c) :=
  .ite (fun _ => .ofEq rfl) fun _ => .ite (fun _ => .ofEq rfl) fun _ =>
    .ite (fun _ => .ofEq rfl) fun _ => .ite (fun _ => .none) fun _ => bracketStep_within

/-- A step in a string does not either. -/
theorem Reader.templateStep_within :
    (r.within outer before).templateStep c = (r.templateStep c).within outer before := by
  unfold Reader.templateStep
  repeat' split
  all_goals rfl

/-- Reading does not look at what was open or kept before. -/
theorem Reader.step_within :
    Follows outer before (r.step c) ((r.within outer before).step c) := by
  have hkeep (text : List Char) :
      (r.within outer before).keep text = (r.keep text).within outer before := by
    simp [keep, within]
  obtain ⟨place, brackets, comments⟩ := r
  cases place with
  | code => exact codeStep_within
  | slash =>
    exact .ite (fun _ => .ofEq rfl) fun _ => .ite (fun _ => .ofEq rfl) fun _ => codeStep_within
  | string => exact .ite (fun _ => .ofEq rfl) fun _ => .ite (fun _ => .ofEq rfl) fun _ => .ofEq rfl
  | stringEscape => exact .ofEq rfl
  | template => exact .ofEq templateStep_within
  | templateEscape => exact .ofEq rfl
  | dollar => exact .ite (fun _ => .none) fun _ => .ofEq templateStep_within
  | line text => exact .ite (fun _ => .ofEq (hkeep _)) fun _ => .ofEq rfl
  | block text => exact .ite (fun _ => .ofEq rfl) fun _ => .ofEq rfl
  | star text =>
    exact .ite (fun _ => .ofEq (hkeep _)) fun _ => .ite (fun _ => .ofEq rfl) fun _ => .ofEq rfl

/-- A text that is read by itself is read within brackets. -/
theorem Reader.run_within : Follows outer before (r.run t) ((r.within outer before).run t) := by
  intro next h
  induction t generalizing r with
  | nil =>
    cases h
    rfl
  | cons c cs ih =>
    rw [run_cons, Option.bind_eq_some_iff] at h
    obtain ⟨middle, hstep, hrun⟩ := h
    rw [run_cons, step_within middle hstep, Option.bind_some]
    exact ih hrun

end Within

/-- A text is closed if it is so at the start of a script. -/
theorem closed_iff : Closed text found ↔
    Reader.start.run text.toList = some ⟨.code, [], found⟩ := by
  constructor
  · intro h
    exact h [] []
  · intro h brackets seen
    have hwithin : Follows brackets seen (Reader.start.run text.toList)
        ((Reader.start.within brackets seen).run text.toList) := Reader.run_within
    simpa [Reader.start, Reader.within] using hwithin _ h

instance (text : String) (found : List (List Char)) : Decidable (Closed text found) :=
  decidable_of_iff _ closed_iff.symm

/-! ### Code -/

/-- Whether a character of code is neither a bracket nor opens a literal or a comment. -/
def isQuiet (c : Char) : Bool :=
  !List.contains ['/', '"', '\x60', '\x27', '(', ')', '[', ']', '\x7b', '\x7d'] c

/-- A text of code that opens and closes nothing. -/
def Quiet (text : String) : Prop := ∀ c ∈ text.toList, isQuiet c = true

instance (text : String) : Decidable (Quiet text) :=
  decidable_of_iff (text.toList.all isQuiet = true) List.all_eq_true

theorem Quiet.append (h : Quiet text) (h' : Quiet other) : Quiet (text ++ other) := by
  intro c hc
  rw [String.toList_append, List.mem_append] at hc
  rcases hc with hc | hc
  · exact h c hc
  · exact h' c hc

/-- A quiet character is no bracket. -/
theorem bracketStep_of_isQuiet {c : Char} (h : isQuiet c = true) :
    r.bracketStep c = some (r.goTo .code) := by
  simp only [isQuiet, List.contains_eq_mem, List.mem_cons, List.not_mem_nil, or_false,
    Bool.not_eq_true', decide_eq_false_iff_not, not_or] at h
  have hopened : Bracket.opened? c = none := by
    simp [Bracket.opened?, Bracket.all, Bracket.left, Ne.symm h.2.2.2.2.1,
      Ne.symm h.2.2.2.2.2.2.1, Ne.symm h.2.2.2.2.2.2.2.2.1]
  have hclosed : Bracket.closed? c = none := by
    simp [Bracket.closed?, Bracket.all, Bracket.right, Ne.symm h.2.2.2.2.2.1,
      Ne.symm h.2.2.2.2.2.2.2.1, Ne.symm h.2.2.2.2.2.2.2.2.2]
  simp [Reader.bracketStep, hopened, hclosed]

/-- And opens no string or comment. -/
theorem codeStep_of_isQuiet {c : Char} (h : isQuiet c = true) :
    r.codeStep c = some (r.goTo .code) := by
  have hclass := h
  simp only [isQuiet, List.contains_eq_mem, List.mem_cons, List.not_mem_nil, or_false,
    Bool.not_eq_true', decide_eq_false_iff_not, not_or] at hclass
  rw [Reader.codeStep, if_neg hclass.1, if_neg hclass.2.1, if_neg hclass.2.2.1,
    if_neg hclass.2.2.2.1, bracketStep_of_isQuiet h]

/-- Quiet text is read as code. -/
theorem run_quiet (brackets : List Bracket) (seen : List (List Char))
    (h : ∀ c ∈ t, isQuiet c = true) :
    Reader.run ⟨.code, brackets, seen⟩ t = some ⟨.code, brackets, seen⟩ := by
  induction t with
  | nil => rfl
  | cons c cs ih =>
    have hstep : Reader.step ⟨.code, brackets, seen⟩ c = some ⟨.code, brackets, seen⟩ :=
      codeStep_of_isQuiet (h c List.mem_cons_self)
    rw [Reader.run_cons, hstep]
    exact ih fun d hd => h d (List.mem_cons_of_mem c hd)

/-- Quiet text is closed. -/
theorem plain_of_quiet (h : Quiet text) : Plain text := by
  intro brackets seen
  rw [run_quiet brackets seen h, List.append_nil]

/-- The opening bracket of a pair. -/
theorem step_left (bracket : Bracket) (brackets : List Bracket) (seen : List (List Char)) :
    Reader.step ⟨.code, brackets, seen⟩ bracket.left = some ⟨.code, bracket :: brackets, seen⟩ := by
  cases bracket <;> rfl

/-- The closing bracket of a pair. -/
theorem step_right (bracket : Bracket) (brackets : List Bracket) (seen : List (List Char)) :
    Reader.step ⟨.code, bracket :: brackets, seen⟩ bracket.right =
      some ⟨.code, brackets, seen⟩ := by
  cases bracket <;> rfl

/-- A text in brackets. -/
def Bracket.enclose (bracket : Bracket) (text : String) : String :=
  String.singleton bracket.left ++ text ++ String.singleton bracket.right

/-- A closed text in brackets is closed. -/
theorem Closed.enclosed (h : Closed text found) (bracket : Bracket) :
    Closed (bracket.enclose text) found := by
  intro brackets seen
  have htext : (bracket.enclose text).toList = bracket.left :: (text.toList ++ [bracket.right]) := by
    simp [Bracket.enclose]
  rw [htext, Reader.run_cons, step_left, Option.bind_some,
    Reader.run_append_of_eq (h (bracket :: brackets) seen), Reader.run_cons, step_right]
  rfl

/-! ### Comments -/

/-- A line comment goes on to the end of its line. -/
theorem run_line {v : List Char} (hv : '\n' ∉ v) (brackets : List Bracket)
    (seen : List (List Char)) :
    Reader.run ⟨.line t, brackets, seen⟩ v = some ⟨.line (t ++ v), brackets, seen⟩ := by
  induction v generalizing t with
  | nil => simp
  | cons c cs ih =>
    rw [List.mem_cons, not_or] at hv
    have hstep : Reader.step ⟨.line t, brackets, seen⟩ c =
        some ⟨.line (t ++ [c]), brackets, seen⟩ := if_neg (Ne.symm hv.1)
    rw [Reader.run_cons, hstep, Option.bind_some, ih hv.2]
    simp

/-- A line comment and the line feed behind it. -/
theorem closed_lineComment {value : String} (h : '\n' ∉ value.toList) :
    Closed ("//" ++ value ++ "\n") [("//" ++ value).toList] := by
  intro brackets seen
  have htext : ("//" ++ value ++ "\n").toList = '/' :: '/' :: (value.toList ++ ['\n']) := by simp
  have hopen : Reader.run ⟨.code, brackets, seen⟩ ('/' :: '/' :: value.toList) =
      some ⟨.line ('/' :: '/' :: value.toList), brackets, seen⟩ := run_line h brackets seen
  rw [htext, ← List.cons_append, ← List.cons_append, Reader.run_append_of_eq hopen]
  simp [Reader.step, Reader.keep]

/-- Inside a block comment, behind an asterisk or not. -/
def InBlock (r : Reader) (text : List Char) (brackets : List Bracket) (seen : List (List Char)) :
    Prop :=
  r = ⟨.block text, brackets, seen⟩ ∨ r = ⟨.star text, brackets, seen⟩

/-- The text of a block comment that nothing in it ends. -/
theorem run_block {v : List Char} {brackets : List Bracket} {seen : List (List Char)}
    (hr : InBlock r t brackets seen)
    (hv : Text.occurs ['*', '/'] (if r.place = .star t then '*' :: v else v) = false) :
    ∃ next, r.run v = some next ∧ InBlock next (t ++ v) brackets seen := by
  induction v generalizing r t with
  | nil => exact ⟨r, rfl, by simpa using hr⟩
  | cons c cs ih =>
    -- only a slash behind a star ends the comment, and there is none
    have hstep : ∃ next, r.step c = some next ∧ InBlock next (t ++ [c]) brackets seen ∧
        Text.occurs ['*', '/'] (if next.place = .star (t ++ [c]) then '*' :: cs else cs) = false := by
      rcases hr with rfl | rfl
      · by_cases hc : c = '*'
        · subst hc
          exact ⟨_, rfl, .inr rfl, by simpa [Reader.goTo] using hv⟩
        · have hcs : Text.occurs ['*', '/'] cs = false := by
            simp only [reduceCtorEq, if_false, Text.occurs, Bool.or_eq_false_iff] at hv
            exact hv.2
          exact ⟨_, if_neg hc, .inl rfl, by simpa [Reader.goTo] using hcs⟩
      · simp only [if_true, Text.occurs, Bool.or_eq_false_iff] at hv
        have hslash : c ≠ '/' := by
          rintro rfl
          simp at hv
        by_cases hc : c = '*'
        · subst hc
          exact ⟨_, rfl, .inr rfl, by simpa [Reader.goTo, Text.occurs] using hv.2⟩
        · exact ⟨_, (if_neg hslash).trans (if_neg hc), .inl rfl, by simpa [Reader.goTo] using hv.2.2⟩
    obtain ⟨next, hnext, hin, hocc⟩ := hstep
    obtain ⟨last, hlast, hlast'⟩ := ih hin hocc
    refine ⟨last, ?_, by simpa using hlast'⟩
    rw [Reader.run_cons, hnext]
    exact hlast

/-- The end of a block comment. -/
theorem InBlock.close {brackets : List Bracket} {seen : List (List Char)}
    (h : InBlock r t brackets seen) :
    r.run ['*', '/'] = some ⟨.code, brackets, seen ++ [t ++ ['*', '/']]⟩ := by
  rcases h with rfl | rfl
  · simp [Reader.step, Reader.goTo, Reader.keep]
  · simp [Reader.step, Reader.goTo, Reader.keep]

/-- A block comment. -/
theorem closed_blockComment {value : String} (h : Text.contains value "*/" = false) :
    Closed ("/*" ++ value ++ "*/") [("/*" ++ value ++ "*/").toList] := by
  intro brackets seen
  have htext : ("/*" ++ value ++ "*/").toList = '/' :: '*' :: (value.toList ++ ['*', '/']) := by simp
  obtain ⟨next, hnext, hin⟩ :=
    run_block (r := ⟨.block ['/', '*'], brackets, seen⟩) (.inl rfl)
      (by simpa [Text.contains] using h)
  have hopen : Reader.run ⟨.code, brackets, seen⟩ ('/' :: '*' :: value.toList) = some next := hnext
  rw [htext, ← List.cons_append, ← List.cons_append, Reader.run_append_of_eq hopen, hin.close]
  rfl

/-- A text in which the end of a block comment was replaced has none. -/
theorem occurs_replaceFrom (skip : Nat) (t : List Char) :
    Text.occurs ['*', '/'] (Text.replaceFrom ['*', '/'] ['*', ' ', '/'] skip t) = false ∧
      ∀ rest, Text.replaceFrom ['*', '/'] ['*', ' ', '/'] skip t = '/' :: rest →
        ∃ rest', t.drop skip = '/' :: rest' := by
  fun_induction Text.replaceFrom ['*', '/'] ['*', ' ', '/'] skip t with
  | case1 => exact ⟨rfl, fun rest h => by cases h⟩
  | case2 skip c cs ih => simpa using ih
  | case3 c cs h ih =>
    refine ⟨?_, fun rest h => by simp at h⟩
    simpa [Text.occurs, List.isPrefixOf] using ih.1
  | case4 c cs h ih =>
    refine ⟨?_, fun rest heq => ⟨cs, by simpa using congrArg List.head? heq⟩⟩
    rw [Text.occurs, Bool.or_eq_false_iff]
    refine ⟨?_, ih.1⟩
    -- an end could only form with a slash that was there before
    rw [← Bool.not_eq_true, List.isPrefixOf_iff_prefix]
    intro hprefix
    obtain ⟨rest, heq⟩ := hprefix
    simp only [List.cons_append, List.nil_append, List.cons.injEq] at heq
    obtain ⟨rest', hcs⟩ := ih.2 rest heq.2.symm
    rw [List.drop_zero] at hcs
    apply h
    rw [← heq.1, hcs]
    rfl

/-- A comment whose ends are pulled apart does not end. -/
theorem contains_replace_end (value : String) :
    Text.contains (Text.replace value "*/" "* /") "*/" = false := by
  have h := (occurs_replaceFrom 0 value.toList).1
  simpa [Text.contains, Text.replace] using h

/-- Another character behind makes no end of a comment. -/
theorem occurs_append_char {c : Char} (hc : c ≠ '/') (t : List Char) :
    Text.occurs ['*', '/'] (t ++ [c]) = Text.occurs ['*', '/'] t := by
  induction t with
  | nil => simp [Text.occurs, List.isPrefixOf]
  | cons d ds ih =>
    rw [List.cons_append, Text.occurs, Text.occurs, ih]
    cases ds with
    | nil => simp [List.isPrefixOf, Ne.symm hc]
    | cons e es => simp [List.isPrefixOf]

/-- Characters around a text that are no part of the end of a block comment do not make one. -/
theorem contains_end_around {before behind : Char} (hbefore : before ≠ '*') (hbehind : behind ≠ '/')
    (value : String) :
    Text.contains (String.singleton before ++ value ++ String.singleton behind) "*/" =
      Text.contains value "*/" := by
  have htext : (String.singleton before ++ value ++ String.singleton behind).toList =
      before :: (value.toList ++ [behind]) := by simp
  have hend : "*/".toList = ['*', '/'] := by decide
  rw [Text.contains, Text.contains, htext, hend, Text.occurs, occurs_append_char hbehind]
  simp [List.isPrefixOf, Ne.symm hbefore]

end LuaCompiler.Script
