import LuaCompiler.Emit.Binding
import LuaCompiler.Proofs.Script.Reader
import Mathlib.Data.List.Forall2

/-!
# Respelled calls

A search for a position in a string is respelled where all of its results are wanted, and this is
done on text, wherever the call stands in it. Respelling leaves a text as closed as it was, and its
comments as they were but for a comment that mentions the call.

* `Respelled text other`: the same text with some calls of the search respelled.
* `Reader.run_respelled`: a reader of both texts takes the same way.
* `Closed.findAll`: a closed text stays closed.
-/

namespace LuaCompiler.Script

/-- A call of the search for a position. -/
def searchCall : List Char := "l2j.string.find(".toList

/-- The call that gives all results of the search. -/
def searchAllCall : List Char := "l2j.string.findWithRet(".toList

/-- A text and the same text with some calls of the search respelled. -/
inductive Respelled (text : List Char) : List Char → Prop where
  | same : Respelled text text
  | call {front back : List Char} (h : Respelled text (front ++ (searchCall ++ back))) :
    Respelled text (front ++ (searchAllCall ++ back))

variable {r s : Reader} {t u v : List Char}

theorem Respelled.append (h : Respelled t u) (a : List Char) : Respelled (t ++ a) (u ++ a) := by
  induction h with
  | same => exact .same
  | call h ih =>
    rw [List.append_assoc, List.append_assoc] at ih ⊢
    exact ih.call

theorem Respelled.trans (h : Respelled t u) (h' : Respelled u v) : Respelled t v := by
  induction h' with
  | same => exact h
  | call _ ih => exact ih.call

/-- Two places that differ in the spelling of what was read of a comment. -/
inductive Place.Respelled : Place → Place → Prop where
  | same (place : Place) : Respelled place place
  | line {t u : List Char} (h : Script.Respelled t u) : Respelled (.line t) (.line u)
  | block {t u : List Char} (h : Script.Respelled t u) : Respelled (.block t) (.block u)
  | star {t u : List Char} (h : Script.Respelled t u) : Respelled (.star t) (.star u)

/-- Two readers that differ in the spelling of comments. -/
structure Reader.Respelled (r s : Reader) : Prop where
  place : Place.Respelled r.place s.place
  brackets : r.brackets = s.brackets
  comments : List.Forall₂ Script.Respelled r.comments s.comments

theorem Reader.Respelled.refl (r : Reader) : Reader.Respelled r r :=
  ⟨.same _, rfl, List.forall₂_same.2 fun _ _ => .same⟩

/-- Two readers do alike: both refuse, or both go on and differ in spelling. -/
def Alike (x y : Option Reader) : Prop := Option.Rel Reader.Respelled x y

theorem Alike.goTo (h : r.Respelled s) {p q : Place} (hplace : p.Respelled q) :
    Alike (some (r.goTo p)) (some (s.goTo q)) :=
  .some ⟨hplace, h.brackets, h.comments⟩

theorem Alike.keep (h : r.Respelled s) (htext : Respelled t u) :
    Alike (some (r.keep t)) (some (s.keep u)) :=
  .some ⟨.same _, h.brackets, List.rel_append h.comments (.cons htext .nil)⟩

theorem Alike.ite {p : Prop} [Decidable p] {a b a' b' : Option Reader} (h : p → Alike a a')
    (h' : ¬ p → Alike b b') : Alike (if p then a else b) (if p then a' else b') := by
  split
  next hp => exact h hp
  next hp => exact h' hp

namespace Reader.Respelled

theorem bracketStep (h : r.Respelled s) (c : Char) : Alike (r.bracketStep c) (s.bracketStep c) := by
  obtain ⟨hplace, hbrackets, hcomments⟩ := h
  unfold Reader.bracketStep
  split
  · exact .some ⟨.same _, congrArg (_ :: ·) hbrackets, hcomments⟩
  · unfold Reader.close
    rw [← hbrackets]
    split
    · exact .ite (fun _ => .some ⟨.same _, rfl, hcomments⟩) fun _ => .none
    · exact .none
  · exact .some ⟨.same _, hbrackets, hcomments⟩

theorem codeStep (h : r.Respelled s) (c : Char) : Alike (r.codeStep c) (s.codeStep c) :=
  .ite (fun _ => .goTo h (.same _)) fun _ => .ite (fun _ => .goTo h (.same _)) fun _ =>
    .ite (fun _ => .goTo h (.same _)) fun _ => .ite (fun _ => .none) fun _ => h.bracketStep c

theorem templateStep (h : r.Respelled s) (c : Char) :
    Alike (some (r.templateStep c)) (some (s.templateStep c)) := by
  unfold Reader.templateStep
  repeat' split
  all_goals exact .goTo h (.same _)

/-- Reading goes on alike from readers that differ in spelling. -/
theorem step (h : r.Respelled s) (c : Char) : Alike (r.step c) (s.step c) := by
  obtain ⟨p, brackets, comments⟩ := r
  obtain ⟨q, brackets', comments'⟩ := s
  have hplace : p.Respelled q := h.place
  -- the places are the same, or inside comments with different texts
  cases hplace with
  | same =>
    cases p with
    | code => exact h.codeStep c
    | slash =>
      exact .ite (fun _ => .goTo h (.same _)) fun _ => .ite (fun _ => .goTo h (.same _)) fun _ =>
        h.codeStep c
    | string =>
      exact .ite (fun _ => .goTo h (.same _)) fun _ => .ite (fun _ => .goTo h (.same _)) fun _ =>
        .goTo h (.same _)
    | stringEscape => exact .goTo h (.same _)
    | template => exact h.templateStep c
    | templateEscape => exact .goTo h (.same _)
    | dollar => exact .ite (fun _ => .none) fun _ => h.templateStep c
    | line text => exact .ite (fun _ => .keep h .same) fun _ => .goTo h (.same _)
    | block text => exact .ite (fun _ => .goTo h (.same _)) fun _ => .goTo h (.same _)
    | star text =>
      exact .ite (fun _ => .keep h .same) fun _ => .ite (fun _ => .goTo h (.same _)) fun _ =>
        .goTo h (.same _)
  | line htext => exact .ite (fun _ => .keep h htext) fun _ => .goTo h (.line (htext.append [c]))
  | block htext =>
    exact .ite (fun _ => .goTo h (.star (htext.append [c]))) fun _ =>
      .goTo h (.block (htext.append [c]))
  | star htext =>
    exact .ite (fun _ => .keep h (htext.append [c])) fun _ =>
      .ite (fun _ => .goTo h (.star (htext.append [c]))) fun _ =>
        .goTo h (.block (htext.append [c]))

theorem run (h : r.Respelled s) (t : List Char) : Alike (r.run t) (s.run t) := by
  induction t generalizing r s with
  | nil => exact .some h
  | cons c cs ih =>
    rw [Reader.run_cons, Reader.run_cons]
    have hstep := h.step c
    revert hstep
    generalize r.step c = x
    generalize s.step c = y
    rintro (hnext | _)
    · exact ih hnext
    · exact .none

end Reader.Respelled

theorem Alike.bind_run {x y : Option Reader} (h : Alike x y) (t : List Char) :
    Alike (x.bind (·.run t)) (y.bind (·.run t)) := by
  cases h with
  | some h => exact h.run t
  | none => exact .none

/-- A text without the signs that matter in a literal or a comment. -/
theorem run_idle {r : Reader} (hplace : r.place = .string ∨ r.place = .template)
    (h : t.all (fun c => c ∉ ['"', '\\', '\x60', '$']) = true) : r.run t = some r := by
  induction t with
  | nil => rfl
  | cons c cs ih =>
    obtain ⟨hc, hcs⟩ := Bool.and_eq_true_iff.1 h
    simp only [List.mem_cons, List.not_mem_nil, or_false, not_or, decide_eq_true_eq] at hc
    have hstep : r.step c = some r := by
      obtain ⟨place, brackets, comments⟩ := r
      rcases hplace with rfl | rfl
      · simp [Reader.step, Reader.goTo, hc]
      · simp [Reader.step, Reader.templateStep, Reader.goTo, hc]
    rw [Reader.run_cons, hstep]
    exact ih hcs

/-- A text without the signs that matter in a block comment. -/
theorem run_idle_block {text : List Char} {brackets : List Bracket} {seen : List (List Char)}
    (h : '*' ∉ t) :
    Reader.run ⟨.block text, brackets, seen⟩ t = some ⟨.block (text ++ t), brackets, seen⟩ := by
  induction t generalizing text with
  | nil => simp
  | cons c cs ih =>
    have hstep : Reader.step ⟨.block text, brackets, seen⟩ c =
        some ⟨.block (text ++ [c]), brackets, seen⟩ :=
      if_neg (Ne.symm (List.ne_of_not_mem_cons h))
    rw [Reader.run_cons, hstep, Option.bind_some, ih (List.not_mem_of_not_mem_cons h)]
    simp

/-- The call of the search in both spellings, from anywhere. -/
theorem run_searchCall (r : Reader) : Alike (r.run searchCall) (r.run searchAllCall) := by
  have hcall (text : List Char) : Respelled (text ++ searchCall) (text ++ searchAllCall) := by
    have h : Respelled (text ++ searchCall) (text ++ (searchCall ++ [])) := by simpa using .same
    simpa using h.call
  have hsame (x : Option Reader) : Alike x x := by
    cases x with
    | none => exact .none
    | some r => exact .some (.refl r)
  have hrest : List.Forall₂ Respelled r.comments r.comments := List.forall₂_same.2 fun _ _ => .same
  obtain ⟨place, brackets, comments⟩ := r
  -- only inside a comment do the spellings differ afterwards, in its text
  cases place with
  | code => exact hsame (some ⟨.code, .round :: brackets, comments⟩)
  | slash => exact hsame (some ⟨.code, .round :: brackets, comments⟩)
  | string =>
    rw [run_idle (.inl rfl) rfl, run_idle (.inl rfl) rfl]
    exact hsame _
  | stringEscape => exact hsame (some ⟨.string, brackets, comments⟩)
  | template =>
    rw [run_idle (.inr rfl) rfl, run_idle (.inr rfl) rfl]
    exact hsame _
  | templateEscape => exact hsame (some ⟨.template, brackets, comments⟩)
  | dollar => exact hsame (some ⟨.template, brackets, comments⟩)
  | line text =>
    rw [run_line (by decide), run_line (by decide)]
    exact .some ⟨.line (hcall text), rfl, hrest⟩
  | block text =>
    rw [run_idle_block (by decide), run_idle_block (by decide)]
    exact .some ⟨.block (hcall text), rfl, hrest⟩
  | star text =>
    have hstar (rest : List Char) (h : '*' ∉ rest) :
        Reader.run ⟨.star text, brackets, comments⟩ ('l' :: rest) =
          some ⟨.block (text ++ 'l' :: rest), brackets, comments⟩ := by
      have hstep : Reader.step ⟨.star text, brackets, comments⟩ 'l' =
          some ⟨.block (text ++ ['l']), brackets, comments⟩ := rfl
      rw [Reader.run_cons, hstep, Option.bind_some, run_idle_block h]
      simp
    have hsearch : searchCall = 'l' :: "2j.string.find(".toList := by decide
    have hsearchAll : searchAllCall = 'l' :: "2j.string.findWithRet(".toList := by decide
    have h := hcall text
    rw [hsearch, hsearchAll] at h ⊢
    rw [hstar _ (by decide), hstar _ (by decide)]
    exact .some ⟨.block h, rfl, hrest⟩

/-- **A reader takes the same way** through a text with a respelled call. -/
theorem Reader.run_respelled (r : Reader) (t : List Char) :
    Alike (r.run t) (r.run (Text.replaceFirstIn searchCall searchAllCall t)) := by
  fun_induction Text.replaceFirstIn searchCall searchAllCall t generalizing r with
  | case1 => exact .some (.refl r)
  | case2 c cs h =>
    obtain ⟨rest, heq⟩ := List.isPrefixOf_iff_prefix.1 h
    rw [← heq, List.drop_left, run_append, run_append]
    exact (run_searchCall r).bind_run rest
  | case3 c cs h ih =>
    rw [run_cons, run_cons]
    cases r.step c with
    | none => exact .none
    | some next => exact ih next

/-- **A closed text with a respelled call is closed**, with the same comments up to mentions of the
call. -/
theorem Closed.findAll {text : String} {found : List (List Char)} (h : Closed text found) :
    ∃ other, Closed (Emit.findAll text) other ∧ List.Forall₂ Respelled found other := by
  have halike := Reader.start.run_respelled text.toList
  rw [closed_iff.1 h] at halike
  obtain ⟨next, hnext, hplace, hbrackets, hcomments⟩ :
      ∃ next, Reader.start.run (Text.replaceFirstIn searchCall searchAllCall text.toList) =
        some next ∧ Reader.Respelled ⟨.code, [], found⟩ next := by
    generalize Reader.start.run (Text.replaceFirstIn searchCall searchAllCall text.toList) = x
      at halike
    cases halike with
    | some hnext => exact ⟨_, rfl, hnext⟩
  obtain ⟨place, brackets, comments⟩ := next
  refine ⟨comments, closed_iff.2 ?_, hcomments⟩
  have htext : (Emit.findAll text).toList =
      Text.replaceFirstIn searchCall searchAllCall text.toList := String.toList_ofList
  obtain rfl : [] = brackets := hbrackets
  obtain _ | _ := hplace
  rw [htext, hnext]

end LuaCompiler.Script
