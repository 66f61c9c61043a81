import LuaCompiler.Proofs.Emit.Placement
import LuaCompiler.Proofs.Script.Literals
import LuaCompiler.Proofs.Script.Respelled
import LuaCompiler.Proofs.Token.Comments
import Mathlib.Data.List.TakeWhile

/-!
# Rendered layouts

`Renders K l q t q'` says that the text `t` is put together as the layout `l` says, with the comments
that stand first in the queue `q`, and that `q'` is the queue left; `K` lists the classes that a
program declares. Around a text there may be plain text, parentheses and brackets, which a layout
does not mention; braces it always mentions.

* `Renders.closed`: a rendered text is closed, and its comments are those that the layout writes.
* `RendersRow`: texts in a row, and `RendersRow.intercalate`: such texts with a sign between.
-/

namespace LuaCompiler

open Script (Plain Closed Bracket Respelled)

/-! ## Comments and blank lines -/

/-- A block comment is one comment, whatever it says. -/
theorem Comment.closed_block (value : String) :
    Closed ("/*" ++ Text.replace value "*/" "* /" ++ "*/")
      [("/*" ++ Text.replace value "*/" "* /" ++ "*/").toList] :=
  Script.closed_blockComment (Script.contains_replace_end value)

/-- A tidy comment before a node is one comment. -/
theorem Comment.closed_leading {comment : Comment} (h : comment.IsTidy) :
    Closed (comment.leading ++ "\n") [comment.leading.toList] := by
  unfold Comment.leading
  split
  · exact (closed_block comment.value).append_plain (by decide)
  next hline => exact Script.closed_lineComment (h (by simpa using hline))

/-- A tidy comment behind a node is one comment. -/
theorem Comment.closed_trailing {comment : Comment} (h : comment.IsTidy) :
    Closed (comment.trailing ++ "\n") [comment.trailing.toList] := by
  unfold Comment.trailing
  split
  · exact closed_leading h
  · refine Script.closed_lineComment ?_
    have hfeed := Script.newline_not_mem_replaceFrom comment.value.toList
    simpa [Text.replace] using hfeed

namespace CommentQueue

/-- Breaks are plain. -/
theorem plain_breaks (here there : Nat) : Plain (breaks here there) := by
  refine Script.plain_of_quiet fun c hc => ?_
  rw [breaks, String.toList_ofList] at hc
  rw [List.eq_of_mem_replicate hc]
  rfl

/-- Comments on lines of their own are found in their order. -/
theorem closed_lines {render : Comment → String} {comments : List Comment}
    (h : ∀ c ∈ comments, Closed (render c ++ "\n") [(render c).toList]) :
    Closed (lines render comments) (comments.map fun c => (render c).toList) := by
  induction comments with
  | nil => exact Script.plain_empty
  | cons c cs ih =>
    have hfirst := h c List.mem_cons_self
    have hrest := ih fun d hd => h d (List.mem_cons_of_mem c hd)
    have heq : lines render (c :: cs) = render c ++ "\n" ++ lines render cs := by
      simp [lines, String.join_cons]
    rw [heq]
    exact hfirst.append hrest

/-- The breaks between comments hold none. -/
theorem closed_leadingLines {comments : List Comment} (h : ∀ c ∈ comments, c.IsTidy)
    (target line : Nat) :
    Closed (leadingLines target line comments) (comments.map fun c => c.leading.toList) := by
  induction comments generalizing line with
  | nil => exact plain_breaks line target
  | cons c cs ih =>
    have hfirst := Comment.closed_leading (h c List.mem_cons_self)
    have hrest := ih (fun d hd => h d (List.mem_cons_of_mem c hd))
      (max (max line c.span.start.line) (c.span.stop.line + 1))
    have heq : leadingLines target line (c :: cs) =
        breaks line c.span.start.line ++ (c.leading ++ "\n") ++ leadingLines target
          (max (max line c.span.start.line) (c.span.stop.line + 1)) cs := by
      rw [leadingLines, @String.append_assoc (breaks _ _)]
    rw [heq]
    exact (Closed.plain_append (plain_breaks _ _) hfirst).append hrest

end CommentQueue

namespace Emit

/-! ## Text around a text -/

theorem parens_eq (text : String) : parens text = Bracket.round.enclose text := by
  apply String.toList_inj.1
  simp [parens, Bracket.enclose, Bracket.left, Bracket.right]

theorem brackets_eq (text : String) : brackets text = Bracket.square.enclose text := by
  apply String.toList_inj.1
  simp [brackets, Bracket.enclose, Bracket.left, Bracket.right]

theorem braced_eq (text : String) : braced text = Bracket.curly.enclose text := by
  apply String.toList_inj.1
  simp [braced, Bracket.enclose, Bracket.left, Bracket.right]

/-- A text with plain text, parentheses and brackets around it. -/
inductive Wraps (text : String) : String → Prop where
  | same : Wraps text text
  | before {a t : String} (ha : Plain a) (h : Wraps text t) : Wraps text (a ++ t)
  | behind {a t : String} (h : Wraps text t) (ha : Plain a) : Wraps text (t ++ a)
  | parens {t : String} (h : Wraps text t) : Wraps text (Emit.parens t)
  | brackets {t : String} (h : Wraps text t) : Wraps text (Emit.brackets t)

/-- A text with plain text around it has the same comments. -/
theorem Wraps.closed {text t : String} {found : List (List Char)} (h : Wraps text t)
    (htext : Closed text found) : Closed t found := by
  induction h with
  | same => exact htext
  | before ha _ ih => exact Closed.plain_append ha ih
  | behind _ ha ih => exact ih.append_plain ha
  | parens _ ih =>
    rw [parens_eq]
    exact ih.enclosed .round
  | brackets _ ih =>
    rw [brackets_eq]
    exact ih.enclosed .square

/-! ## Rendering -/

/-- **A text is put together as a layout says**, with comments from a queue, where some classes are
declared. -/
inductive Renders (K : List String) : Layout → CommentQueue → String → CommentQueue → Prop where
  | blank {q : CommentQueue} {t : String} (h : Plain t) : Renders K .blank q t q
  | remark {q : CommentQueue} {u : Unsupported} : Renders K (.remark u) q (Mark.remark u).text q
  | sealing {q : CommentQueue} {classes : List String}
    (h : ∀ c ∈ classes, c ∈ K ∧ ∃ found, Closed c found) :
    Renders K .sealing q (Emit.sealing classes) q
  | remaining {q : CommentQueue} : Renders K .remaining q q.flush.1 q.flush.2
  | word {q : CommentQueue} {w : Word} (h : Plain w.text) : Renders K (.word w) q w.text q
  | binding {q : CommentQueue} {id : NodeId} {name : String} (h : Plain name) :
    Renders K (.binding id name) q name q
  | around {q q' : CommentQueue} {span : Span} {l : Layout} {t : String}
    (h : Renders K l (q.before span).2 t q') :
    Renders K (.around span l) q ((q.before span).1 ++ t ++ (q'.after span).1) (q'.after span).2
  | append {q q' q'' : CommentQueue} {a b : Layout} {t u : String} (ha : Renders K a q t q')
    (hb : Renders K b q' u q'') : Renders K (.append a b) q (t ++ u) q''
  | braces {q q' : CommentQueue} {isScope : Bool} {l : Layout} {t : String}
    (h : Renders K l q t q') : Renders K (.braces isScope l) q (Emit.braced t) q'
  | region {q q' q'' : CommentQueue} {header body : Layout} {t glue u : String}
    (hheader : Renders K header q t q') (hglue : Plain glue) (hbody : Renders K body q' u q'') :
    Renders K (.region header body) q (Emit.parens t ++ glue ++ u) q''
  | callable {q q' q'' : CommentQueue} {reception : Reception} {header body : Layout}
    {t glue u : String} (hheader : Renders K header q t q') (hglue : Plain glue)
    (hbody : Renders K body q' u q'') :
    Renders K (.callable reception header body) q (Emit.parens t ++ glue ++ u) q''
  | loopUntil {q q' q'' : CommentQueue} {body condition : Layout} {t u : String}
    (hbody : Renders K body q t q') (hcondition : Renders K condition q' u q'') :
    Renders K (.loopUntil body condition) q (Emit.braced t ++ u) q''
  | unlessBlank {q q' : CommentQueue} {l : Layout} {t other : String} (h : Renders K l q t q')
    (hother : Plain other) :
    Renders K (.unlessBlank l) q (if (Text.trim t).isEmpty then other else t) q'
  | dropped {q q' : CommentQueue} {l : Layout} {t other : String} (h : Renders K l q t q')
    (hother : Plain other) : Renders K (.dropped l) q other q'
  | twice {q q' : CommentQueue} {l : Layout} {t u v : String} (h : Renders K l q t q')
    (hu : Wraps t u) (hv : Wraps t v) : Renders K (.twice l) q (u ++ v) q'
  | enclosing {q q' q'' : CommentQueue} {a b : Layout} {t u v w : String}
    (ha : Renders K a q t q') (hb : Renders K b q' w q'') (hu : Wraps t u) (hv : Wraps t v) :
    Renders K (.enclosing a b) q (u ++ w ++ v) q''
  | swapped {q q' q'' : CommentQueue} {a b : Layout} {t u : String} (ha : Renders K a q t q')
    (hb : Renders K b q' u q'') : Renders K (.swapped a b) q (u ++ t) q''
  | wrap {q q' : CommentQueue} {l : Layout} {t u : String} (h : Renders K l q t q')
    (hu : Wraps t u) : Renders K l q u q'
  | respelled {q q' : CommentQueue} {l : Layout} {t : String} (h : Renders K l q t q') :
    Renders K l q (findAll t) q'

/-- Comments as they are found in a script, for marks, up to the spelling of calls they mention. -/
def Transcribes (marks : List Mark) (found : List (List Char)) : Prop :=
  List.Forall₂ Respelled (marks.map fun m => m.text.toList) found

/-- Comments that were taken in a row are transcribed in a row. -/
theorem Transcribes.append {m n : List Mark} {found more : List (List Char)} (h : Transcribes m found)
    (h' : Transcribes n more) : Transcribes (m ++ n) (found ++ more) := by
  rw [Transcribes, List.map_append]
  exact List.rel_append h h'

theorem transcribes_nil : Transcribes [] [] := .nil

/-- Comments that are marked are transcribed as they are written. -/
theorem transcribes_map {render : Comment → String} {mark : Comment → Mark} (cs : List Comment)
    (h : ∀ c, (mark c).text = render c) :
    Transcribes (cs.map mark) (cs.map fun c => (render c).toList) := by
  rw [Transcribes, List.map_map]
  have heq : ((fun m : Mark => m.text.toList) ∘ mark) = fun c => (render c).toList :=
    funext fun c => congrArg String.toList (h c)
  rw [heq]
  exact List.forall₂_same.2 fun _ _ => .same

/-- Respelling comments twice respells them. -/
theorem forall₂_respelled_trans {a b c : List (List Char)} (h : List.Forall₂ Respelled a b)
    (h' : List.Forall₂ Respelled b c) : List.Forall₂ Respelled a c := by
  induction h generalizing c with
  | nil =>
    cases h'
    exact .nil
  | cons hfirst _ ih =>
    cases h' with
    | cons hfirst' hrest => exact .cons (hfirst.trans hfirst') (ih hrest)

/-- What seals classes has the comments of their names. -/
theorem closed_sealing {classes : List String} (h : ∀ c ∈ classes, ∃ found, Closed c found) :
    ∃ found, Closed (Emit.sealing classes) found ∧ ((∀ c ∈ classes, Plain c) → found = []) := by
  induction classes with
  | nil => exact ⟨[], Script.plain_empty, fun _ => rfl⟩
  | cons c cs ih =>
    obtain ⟨first, hfirst⟩ := h c List.mem_cons_self
    obtain ⟨rest, hrest, hnone⟩ := ih fun d hd => h d (List.mem_cons_of_mem c hd)
    have hcall : Closed ("l2j.finishClass(" ++ c ++ ");\n") first := by
      have heq : "l2j.finishClass(" ++ c ++ ");\n" = "l2j.finishClass" ++ Emit.parens c ++ ";\n" := by
        apply String.toList_inj.1
        simp [Emit.parens]
      rw [heq, parens_eq]
      exact (Closed.plain_append (by decide) (hfirst.enclosed .round)).append_plain (by decide)
    have heq : Emit.sealing (c :: cs) = "l2j.finishClass(" ++ c ++ ");\n" ++ Emit.sealing cs := by
      simp [Emit.sealing, String.join_cons]
    refine ⟨first ++ rest, heq ▸ hcall.append hrest, fun hplain => ?_⟩
    rw [hfirst.unique (hplain c List.mem_cons_self),
      hnone fun d hd => hplain d (List.mem_cons_of_mem c hd), List.nil_append]

/-- Blanks are quiet. -/
theorem isQuiet_of_isBlank {c : Char} (h : Text.isBlank c = true) : Script.isQuiet c = true := by
  rw [Script.isQuiet, Bool.not_eq_true', ← Bool.not_eq_true, List.contains_iff_mem]
  intro hmem
  simp only [List.mem_cons, List.not_mem_nil, or_false] at hmem
  rcases hmem with rfl | rfl | rfl | rfl | rfl | rfl | rfl | rfl | rfl | rfl
  all_goals exact absurd h (by decide)

/-- A text that is trimmed to nothing is blank. -/
theorem isBlank_of_trim {text : String} (h : (Text.trim text).isEmpty = true) :
    ∀ c ∈ text.toList, Text.isBlank c = true := by
  intro c hc
  have hnil : ((text.toList.dropWhile Text.isBlank).reverse.dropWhile Text.isBlank).reverse = [] := by
    have hempty := String.isEmpty_iff.1 h
    have htext := congrArg String.toList hempty
    simpa [Text.trim] using htext
  rw [List.reverse_eq_nil_iff] at hnil
  have hall := List.dropWhile_eq_nil_iff.1 hnil
  by_contra hblank
  -- a character that is not blank is still there once the front is trimmed
  have hkept : c ∈ text.toList.dropWhile Text.isBlank := by
    have hsplit := List.takeWhile_append_dropWhile (p := Text.isBlank) (l := text.toList)
    rw [← hsplit, List.mem_append] at hc
    exact hc.resolve_left fun hfront => hblank (List.mem_takeWhile_imp hfront)
  exact hblank (hall c (List.mem_reverse.2 hkept))

/-- A text of blanks is plain. -/
theorem plain_of_trim {text : String} (h : (Text.trim text).isEmpty = true) : Plain text :=
  Script.plain_of_quiet fun c hc => isQuiet_of_isBlank (isBlank_of_trim h c hc)

variable {K : List String} {l : Layout} {q q' : CommentQueue} {t : String}

/-- **A rendered text is closed**, the queue left is the one that the layout leaves, and if no name
of a class holds a comment, then the comments of the text are those that the layout writes. -/
theorem Renders.closed (h : Renders K l q t q') (hq : ∀ c ∈ q.waiting, c.IsTidy) :
    q' = (l.run q).2 ∧ ∃ found, Closed t found ∧
      ((∀ c ∈ K, Plain c) → Transcribes (l.run q).1 found) := by
  induction h with
  | blank h => exact ⟨rfl, [], h, fun _ => transcribes_nil⟩
  | @remark q u =>
    have htext : (Mark.remark u).text = "/*" ++ (String.singleton ' ' ++
        Text.replace u.message "*/" "* /" ++ String.singleton ' ') ++ "*/" := by
      apply String.toList_inj.1
      simp [Mark.text]
    -- no end of a comment is left in the message, nor made by the blanks around it
    have hend := (Script.contains_end_around (by decide : ' ' ≠ '*') (by decide : ' ' ≠ '/') _).trans
      (Script.contains_replace_end u.message)
    have hclosed := Script.closed_blockComment hend
    rw [← htext] at hclosed
    exact ⟨rfl, _, hclosed, fun _ => .cons .same .nil⟩
  | @sealing q classes h =>
    obtain ⟨found, hfound, hnone⟩ := closed_sealing fun c hc => (h c hc).2
    refine ⟨rfl, found, hfound, fun hK => ?_⟩
    rw [hnone fun c hc => hK c (h c hc).1]
    exact transcribes_nil
  | @remaining q =>
    exact ⟨rfl, _, CommentQueue.closed_lines fun c hc => Comment.closed_leading (hq c hc),
      fun _ => transcribes_map q.waiting fun _ => rfl⟩
  | word h => exact ⟨rfl, [], h, fun _ => transcribes_nil⟩
  | binding h => exact ⟨rfl, [], h, fun _ => transcribes_nil⟩
  | @around q q' span l t h ih =>
    -- the comments that wait inside and behind the node waited before it, so they are tidy
    have hbefore : (q.before span).2.waiting <:+ q.waiting := List.dropWhile_suffix _
    obtain ⟨rfl, found, hfound, hmarks⟩ := ih fun c hc => hq c (hbefore.subset hc)
    have hrest := ((l.waiting_suffix _).trans hbefore).subset
    have hfront : ∀ c ∈ q.waiting.takeWhile (CommentQueue.startsAbove span.start.line), c.IsTidy :=
      fun c hc => hq c ((List.takeWhile_prefix _).subset hc)
    have habove : Closed (q.before span).1 _ := CommentQueue.closed_leadingLines hfront _ _
    have hbehind : Closed ((l.run (q.before span).2).2.after span).1 _ := CommentQueue.closed_lines
      fun c hc => Comment.closed_trailing (hq c (hrest ((List.takeWhile_prefix _).subset hc)))
    refine ⟨rfl, _, (habove.append hfound).append hbehind, fun hK => ?_⟩
    exact ((transcribes_map _ fun _ => rfl).append (hmarks hK)).append (transcribes_map _ fun _ => rfl)
  | @append q q' q'' a b t u ha hb iha ihb =>
    obtain ⟨rfl, found, hfound, hmarks⟩ := iha hq
    obtain ⟨rfl, more, hmore, hmarks'⟩ := ihb fun c hc => hq c ((a.waiting_suffix q).subset hc)
    exact ⟨rfl, _, hfound.append hmore, fun hK => (hmarks hK).append (hmarks' hK)⟩
  | braces h ih =>
    obtain ⟨heq, found, hfound, hmarks⟩ := ih hq
    exact ⟨heq, found, braced_eq _ ▸ hfound.enclosed .curly, hmarks⟩
  | @region q q' q'' a b t glue u ha hglue hb iha ihb =>
    obtain ⟨rfl, found, hfound, hmarks⟩ := iha hq
    obtain ⟨rfl, more, hmore, hmarks'⟩ := ihb fun c hc => hq c ((a.waiting_suffix q).subset hc)
    rw [parens_eq]
    exact ⟨rfl, _, ((hfound.enclosed .round).append_plain hglue).append hmore,
      fun hK => (hmarks hK).append (hmarks' hK)⟩
  | @callable q q' q'' _ a b t glue u ha hglue hb iha ihb =>
    obtain ⟨rfl, found, hfound, hmarks⟩ := iha hq
    obtain ⟨rfl, more, hmore, hmarks'⟩ := ihb fun c hc => hq c ((a.waiting_suffix q).subset hc)
    rw [parens_eq]
    exact ⟨rfl, _, ((hfound.enclosed .round).append_plain hglue).append hmore,
      fun hK => (hmarks hK).append (hmarks' hK)⟩
  | @loopUntil q q' q'' a b t u ha hb iha ihb =>
    obtain ⟨rfl, found, hfound, hmarks⟩ := iha hq
    obtain ⟨rfl, more, hmore, hmarks'⟩ := ihb fun c hc => hq c ((a.waiting_suffix q).subset hc)
    rw [braced_eq]
    exact ⟨rfl, _, (hfound.enclosed .curly).append hmore,
      fun hK => (hmarks hK).append (hmarks' hK)⟩
  | @unlessBlank q q' l t other h hother ih =>
    obtain ⟨heq, found, hfound, hmarks⟩ := ih hq
    refine ⟨heq, found, ?_, hmarks⟩
    split
    next hblank => exact hfound.unique (plain_of_trim hblank) ▸ hother
    · exact hfound
  | @dropped q q' l t other h hother ih =>
    obtain ⟨heq, -⟩ := ih hq
    exact ⟨heq, [], hother, fun _ => transcribes_nil⟩
  | twice h hu hv ih =>
    obtain ⟨heq, found, hfound, hmarks⟩ := ih hq
    exact ⟨heq, _, (hu.closed hfound).append (hv.closed hfound),
      fun hK => (hmarks hK).append (hmarks hK)⟩
  | @enclosing q q' q'' a b t u v w ha hb hu hv iha ihb =>
    obtain ⟨rfl, found, hfound, hmarks⟩ := iha hq
    obtain ⟨rfl, more, hmore, hmarks'⟩ := ihb fun c hc => hq c ((a.waiting_suffix q).subset hc)
    exact ⟨rfl, _, ((hu.closed hfound).append hmore).append (hv.closed hfound),
      fun hK => ((hmarks hK).append (hmarks' hK)).append (hmarks hK)⟩
  | @swapped q q' q'' a b t u ha hb iha ihb =>
    obtain ⟨rfl, found, hfound, hmarks⟩ := iha hq
    obtain ⟨rfl, more, hmore, hmarks'⟩ := ihb fun c hc => hq c ((a.waiting_suffix q).subset hc)
    exact ⟨rfl, _, hmore.append hfound, fun hK => (hmarks' hK).append (hmarks hK)⟩
  | wrap h hu ih =>
    obtain ⟨heq, found, hfound, hmarks⟩ := ih hq
    exact ⟨heq, found, hu.closed hfound, hmarks⟩
  | respelled h ih =>
    obtain ⟨heq, found, hfound, hmarks⟩ := ih hq
    obtain ⟨other, hother, hrespelled⟩ := hfound.findAll
    exact ⟨heq, other, hother, fun hK => forall₂_respelled_trans (hmarks hK) hrespelled⟩

/-! ## Texts in a row -/

variable {a b : Layout} {q'' : CommentQueue} {u s : String} {ts : List String}

/-- Plain text may stand before. -/
theorem Renders.before (hs : Plain s) (h : Renders K l q t q') : Renders K l q (s ++ t) q' :=
  .wrap h (.before hs .same)

/-- Or behind. -/
theorem Renders.behind (h : Renders K l q t q') (hs : Plain s) : Renders K l q (t ++ s) q' :=
  .wrap h (.behind .same hs)

theorem Renders.parens (h : Renders K l q t q') : Renders K l q (Emit.parens t) q' :=
  .wrap h (.parens .same)

theorem Renders.brackets (h : Renders K l q t q') : Renders K l q (Emit.brackets t) q' :=
  .wrap h (.brackets .same)

/-- **Texts in a row** are put together as a layout says. -/
inductive RendersRow (K : List String) : Layout → CommentQueue → List String → CommentQueue → Prop
    where
  | nil {q : CommentQueue} : RendersRow K .blank q [] q
  | single {q q' : CommentQueue} {l : Layout} {t : String} (h : Renders K l q t q') :
    RendersRow K l q [t] q'
  | cons {q q' q'' : CommentQueue} {a b : Layout} {t : String} {ts : List String}
    (ha : Renders K a q t q') (hb : RendersRow K b q' ts q'') :
    RendersRow K (.append a b) q (t :: ts) q''

/-- Texts in a row may have plain text between them. -/
theorem RendersRow.intercalate (h : RendersRow K l q ts q') (hs : Plain s) :
    Renders K l q (s.intercalate ts) q' := by
  induction h with
  | nil => exact .blank Script.plain_empty
  | single h => simpa using h
  | @cons q q' q'' a b t ts ha hb ih =>
    cases ts with
    | nil =>
      rw [String.intercalate_singleton, ← String.append_empty (s := t)]
      rw [String.intercalate_nil] at ih
      exact .append ha ih
    | cons u ts =>
      rw [String.intercalate_cons_cons]
      exact .append (ha.behind hs) ih

theorem RendersRow.commas (h : RendersRow K l q ts q') : Renders K l q (Emit.commas ts) q' :=
  h.intercalate (by decide)

theorem RendersRow.only (h : RendersRow K l q [t] q') : Renders K l q t q' := by
  simpa [Emit.commas] using h.commas

theorem RendersRow.sequence (h : RendersRow K l q ts q') : Renders K l q (Emit.sequence ts) q' :=
  h.intercalate (by decide)

/-- And may be the arguments of a call. -/
theorem RendersRow.arguments (h : RendersRow K l q ts q') {callee : String} (hc : Plain callee) :
    Renders K l q (callText callee ts) q' :=
  h.commas.parens.before hc

/-- A call of a text. -/
theorem Renders.call (ha : Renders K a q t q') (hb : RendersRow K b q' ts q'') :
    Renders K (.append a b) q (callText t ts) q'' :=
  .append ha hb.commas.parens

/-- Layouts that take no comments, each rendered as a text. -/
theorem rendersRow_row {ls : List Layout}
    (h : List.Forall₂ (fun l t => ∀ q, Renders K l q t q) ls ts) (q : CommentQueue) :
    RendersRow K (Layout.row ls) q ts q := by
  induction h with
  | nil => exact .nil
  | @cons l t ls ts hfirst hrest ih =>
    cases hrest with
    | nil => exact .single (hfirst q)
    | cons _ _ => exact .cons (hfirst q) ih

end Emit

end LuaCompiler
