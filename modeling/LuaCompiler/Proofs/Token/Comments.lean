import LuaCompiler.CommentQueue
import LuaCompiler.Token.Scan
import Mathlib.Data.List.TakeWhile

/-!
# Scanned comments

* `Scan.tidy_ofText`: a line comment of a text ends with its line.
* `Scan.ascending_ofText`: the comments of a text come in the order in which they start, so that a
  queue takes them as they are (`CommentQueue.waiting_ofComments`).
-/

namespace LuaCompiler

/-- A comment of one line. -/
def Comment.IsTidy (comment : Comment) : Prop :=
  comment.isBlock = false → '\n' ∉ comment.value.toList

namespace Lexeme

variable {c : Char} {cs : List Char} {n : Nat}

/-- A line comment is cut up to the end of its line. -/
theorem newline_not_mem_of_cut (h : cut? c cs = .ok ⟨.lineComment, n⟩) : '\n' ∉ c :: cs.take n := by
  unfold cut? at h
  split at h
  · cases h
  split at h
  next hdashes =>
    obtain ⟨rfl, hhead⟩ := hdashes
    obtain ⟨rest, rfl⟩ : ∃ rest, cs = '-' :: rest := by
      cases cs with
      | nil => cases hhead
      | cons d ds => exact ⟨ds, by rw [Option.some.inj hhead]⟩
    have hn : n = 1 + (rest.takeWhile (· != '\n')).length := by
      rw [List.drop_one, List.tail_cons] at h
      unfold cutComment at h
      dsimp only at h
      repeat' split at h
      all_goals cases h
      all_goals rfl
    rw [hn, Nat.add_comm, List.take_succ_cons, ← List.prefix_iff_eq_take.1 (List.takeWhile_prefix _)]
    simp only [List.mem_cons, not_or]
    refine ⟨by decide, by decide, fun hmem => ?_⟩
    exact absurd (List.mem_takeWhile_imp hmem) (by decide)
  · -- no other lexeme is a comment
    unfold cutName cutNumber cutString cutLongString cutSymbol at h
    dsimp only at h
    repeat' split at h
    all_goals cases h

end Lexeme

namespace Scan

theorem newline_not_mem_of_mem {skip : Nat} {text : List Char} {lexeme : Lexeme}
    (h : lexeme ∈ (Lexemes.ofTextFrom skip text).lexemes) (hkind : lexeme.kind = .lineComment) :
    '\n' ∉ lexeme.text := by
  fun_induction Lexemes.ofTextFrom skip text with
  | case1 => cases h
  | case2 skip c cs ih => exact ih h
  | case3 c cs cut hcut ih =>
    rcases List.mem_cons.1 h with rfl | h
    · obtain ⟨_, n⟩ := cut
      cases hkind
      exact Lexeme.newline_not_mem_of_cut hcut
    · exact ih h
  | case4 => cases h

theorem isTidy_of_comment {kind : Lexeme.Kind} {text : List Char} {span : Span} {comment : Comment}
    (h : comment? kind text span = some comment) (htext : kind = .lineComment → '\n' ∉ text) :
    comment.IsTidy := by
  cases kind with
  | lineComment =>
    cases h
    intro _ hmem
    rw [String.toList_ofList] at hmem
    have hraw := List.mem_of_mem_drop hmem
    rw [dropReturns, List.mem_reverse] at hraw
    exact htext rfl (List.mem_reverse.1 ((List.dropWhile_sublist _).subset hraw))
  | blockComment level =>
    cases h
    intro hblock
    cases hblock
  | blank | token => cases h

theorem mem_comments_cons {fault : Option LexicalFault} {here : Position} {lexeme : Lexeme}
    {rest : List Lexeme} {comment : Comment}
    (h : comment ∈ (ofLexemes fault here (lexeme :: rest)).comments) :
    comment? lexeme.kind lexeme.text ⟨here, here.advance lexeme.text⟩ = some comment ∨
      comment ∈ (ofLexemes fault (here.advance lexeme.text) rest).comments := by
  rw [ofLexemes] at h
  cases hkind : lexeme.kind with
  | token kind =>
    rw [hkind] at h
    exact .inr h
  | blank | lineComment | blockComment =>
    rw [hkind] at h
    simpa [Option.mem_def] using h

theorem tidy_ofLexemes {fault : Option LexicalFault} {lexemes : List Lexeme}
    (h : ∀ lexeme ∈ lexemes, lexeme.kind = .lineComment → '\n' ∉ lexeme.text) (here : Position) :
    ∀ comment ∈ (ofLexemes fault here lexemes).comments, comment.IsTidy := by
  induction lexemes generalizing here with
  | nil => cases fault <;> exact List.forall_mem_nil _
  | cons lexeme rest ih =>
    obtain ⟨hfirst, hrest⟩ := List.forall_mem_cons.1 h
    intro comment hmem
    rcases mem_comments_cons hmem with hcomment | hmem
    · exact isTidy_of_comment hcomment hfirst
    · exact ih hrest _ comment hmem

/-- **A line comment of a text ends with its line.** -/
theorem tidy_ofText (text : List Char) : ∀ comment ∈ (ofText text).comments, comment.IsTidy :=
  tidy_ofLexemes (fun _ h hkind => newline_not_mem_of_mem h hkind) _

end Scan

/-! ## The order of comments -/

namespace Position

theorem le_refl (p : Position) : p.le p = true := by simp [le]

theorem le_trans {p q r : Position} (h : p.le q = true) (h' : q.le r = true) : p.le r = true := by
  simp only [le, Bool.or_eq_true, decide_eq_true_eq, Bool.and_eq_true, beq_iff_eq] at h h' ⊢
  omega

theorem le_next (p : Position) (c : Char) : p.le (p.next c) = true := by
  unfold next
  split <;> simp [le]

theorem le_advance (p : Position) (text : List Char) : p.le (p.advance text) = true := by
  induction text generalizing p with
  | nil => exact le_refl p
  | cons c cs ih => exact le_trans (le_next p c) (ih (p.next c))

end Position

/-- Comments in the order in which they start. -/
def Ascending (comments : List Comment) : Prop :=
  comments.Pairwise fun a b => a.span.start.le b.span.start = true

namespace Scan

theorem start_le_of_mem {fault : Option LexicalFault} {here : Position} {lexemes : List Lexeme}
    {comment : Comment} (h : comment ∈ (ofLexemes fault here lexemes).comments) :
    here.le comment.span.start = true := by
  induction lexemes generalizing here with
  | nil => cases fault <;> cases h
  | cons lexeme rest ih =>
    rcases mem_comments_cons h with hcomment | hmem
    · have hstart : comment.span.start = here := by
        cases hkind : lexeme.kind <;> rw [hkind] at hcomment <;> cases hcomment <;> rfl
      rw [hstart]
      exact Position.le_refl here
    · exact Position.le_trans (Position.le_advance here lexeme.text) (ih hmem)

theorem ascending_ofLexemes (fault : Option LexicalFault) (lexemes : List Lexeme)
    (here : Position) : Ascending (ofLexemes fault here lexemes).comments := by
  induction lexemes generalizing here with
  | nil => cases fault <;> exact .nil
  | cons lexeme rest ih =>
    have hrest := ih (here.advance lexeme.text)
    rw [ofLexemes]
    cases hkind : lexeme.kind with
    | token kind => exact hrest
    | blank => exact hrest
    | lineComment | blockComment =>
      refine List.pairwise_cons.2 ⟨fun comment hmem => ?_, hrest⟩
      exact Position.le_trans (Position.le_advance here lexeme.text) (start_le_of_mem hmem)

/-- **The comments of a text come in the order in which they start.** -/
theorem ascending_ofText (text : List Char) : Ascending (ofText text).comments :=
  ascending_ofLexemes _ _ _

end Scan

/-- A queue takes comments in their order as they are. -/
theorem CommentQueue.waiting_ofComments {comments : List Comment} (h : Ascending comments) :
    (CommentQueue.ofComments comments).waiting = comments :=
  List.mergeSort_of_pairwise h

end LuaCompiler
