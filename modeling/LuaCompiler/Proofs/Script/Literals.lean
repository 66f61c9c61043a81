import LuaCompiler.Proofs.Script.Reader
import LuaCompiler.StringLiteral

/-!
# Literals in a script

Whatever stands in a string of the source, the literal that is written for it is a closed text
without comments: nothing in it ends the literal early or opens a substitution.

* `run_quotedFrom`: the inside of a double-quoted string stays inside it.
* `run_templateOf`: so does the inside of a template.
* `plain_toScript`: the literal for a string.
-/

namespace LuaCompiler.Script

variable {t v : List Char} {brackets : List Bracket} {seen : List (List Char)}

theorem replaceFrom_single (old : Char) (new t : List Char) :
    Text.replaceFrom [old] new 0 t = t.flatMap fun c => if c = old then new else [c] := by
  induction t with
  | nil => rfl
  | cons c cs ih =>
    by_cases hc : c = old
    · subst hc
      simp [Text.replaceFrom, List.isPrefixOf, ih]
    · have hprefix : ([old].isPrefixOf (c :: cs)) = false := by
        simp [List.isPrefixOf, Ne.symm hc]
      simp [Text.replaceFrom, hprefix, hc, ih]

theorem newline_not_mem_replaceFrom (t : List Char) :
    '\n' ∉ Text.replaceFrom ['\n'] [' '] 0 t := by
  rw [replaceFrom_single, List.mem_flatMap]
  rintro ⟨c, -, hc⟩
  split at hc
  · simp at hc
  next hne => exact hne (List.mem_singleton.1 hc).symm

/-! ## Strings -/

/-- A text that leaves a string open. -/
def StaysInString (v : List Char) : Prop :=
  ∀ brackets seen, Reader.run ⟨.string, brackets, seen⟩ v = some ⟨.string, brackets, seen⟩

theorem StaysInString.append (h : StaysInString t) (h' : StaysInString v) :
    StaysInString (t ++ v) := by
  intro brackets seen
  rw [Reader.run_append_of_eq (h brackets seen), h']

theorem staysInString_nil : StaysInString [] := fun _ _ => rfl

theorem staysInString_char {c : Char} (hquote : c ≠ '"') (hslash : c ≠ '\\') :
    StaysInString [c] := by
  intro brackets seen
  simp [Reader.step, Reader.goTo, hquote, hslash]

/-- An escaped character. -/
theorem staysInString_escaped (c : Char) : StaysInString ['\\', c] := by
  intro brackets seen
  simp [Reader.step, Reader.goTo]

theorem digitChar_hex : ∀ n < 16, Nat.digitChar n ≠ '"' ∧ Nat.digitChar n ≠ '\\' := by
  decide

theorem staysInString_unitEscape (n : Nat) : StaysInString (StringLiteral.unitEscape n) := by
  have hle : min n 255 ≤ 255 := Nat.min_le_right n 255
  have hhigh := digitChar_hex (min n 255 / 16) (by omega)
  have hlow := digitChar_hex (min n 255 % 16) (by omega)
  exact ((staysInString_escaped 'x').append (staysInString_char hhigh.1 hhigh.2)).append
    (staysInString_char hlow.1 hlow.2)

theorem staysInString_plainStep (c : Char) : StaysInString (StringLiteral.plainStep c).1 := by
  unfold StringLiteral.plainStep
  split
  · exact staysInString_escaped _
  · split
    · exact staysInString_nil
    · split
      · exact staysInString_escaped _
      · split
        · exact staysInString_escaped _
        next hquote hslash _ _ => exact staysInString_char hquote hslash

theorem staysInString_escapedStep (c : Char) : StaysInString (StringLiteral.escapedStep c).1 := by
  unfold StringLiteral.escapedStep
  split
  · exact staysInString_unitEscape 7
  · split
    · exact staysInString_escaped _
    next hkept =>
      split
      · exact staysInString_escaped _
      · split
        · exact staysInString_nil
        · split
          · exact staysInString_escaped _
          · split
            · exact staysInString_nil
            · simp only [List.contains_eq_mem, List.mem_cons, List.not_mem_nil, or_false,
                decide_eq_true_eq, not_or] at hkept
              exact staysInString_char hkept.2.2.2.2.2.2.2 hkept.2.2.2.2.2.2.1

/-- What one character adds to a string stays inside it. -/
theorem staysInString_step (reading : StringLiteral.Reading) (c : Char) :
    StaysInString (StringLiteral.step reading c).1 := by
  cases reading with
  | plain => exact staysInString_plainStep c
  | escaped => exact staysInString_escapedStep c
  | blanks =>
    rw [StringLiteral.step]
    split
    · exact staysInString_nil
    · exact staysInString_plainStep c
  | digits count value =>
    rw [StringLiteral.step]
    split
    · exact staysInString_nil
    · exact (staysInString_unitEscape value).append (staysInString_plainStep c)

theorem staysInString_quotedFrom (reading : StringLiteral.Reading) (t : List Char) :
    StaysInString (StringLiteral.quotedFrom reading t) := by
  induction t generalizing reading with
  | nil =>
    cases reading with
    | plain => exact staysInString_nil
    | escaped => exact staysInString_escaped _
    | blanks => exact staysInString_nil
    | digits count value => exact staysInString_unitEscape value
  | cons c cs ih => exact (staysInString_step reading c).append (ih _)

/-- A text in double quotes. -/
theorem plain_quoted (h : StaysInString v) : Plain (String.ofList ('"' :: v ++ ['"'])) := by
  intro brackets seen
  have hopen : Reader.step ⟨.code, brackets, seen⟩ '"' = some ⟨.string, brackets, seen⟩ := rfl
  rw [String.toList_ofList, List.cons_append, Reader.run_cons, hopen, Option.bind_some,
    Reader.run_append_of_eq (h brackets seen)]
  simp [Reader.step, Reader.goTo]

/-- A name in double quotes that holds neither a quote nor a backslash. -/
theorem plain_quote {text : String} (hquote : '"' ∉ text.toList) (hslash : '\\' ∉ text.toList) :
    Plain ("\"" ++ text ++ "\"") := by
  have hinside (t : List Char) (hquote : '"' ∉ t) (hslash : '\\' ∉ t) : StaysInString t := by
    induction t with
    | nil => exact staysInString_nil
    | cons c cs ih =>
      rw [List.mem_cons, not_or] at hquote hslash
      exact (staysInString_char (Ne.symm hquote.1) (Ne.symm hslash.1)).append
        (ih hquote.2 hslash.2)
  have heq : "\"" ++ text ++ "\"" = String.ofList ('"' :: text.toList ++ ['"']) := by
    apply String.toList_inj.1
    simp
  rw [heq]
  exact plain_quoted (hinside _ hquote hslash)

/-! ## Templates -/

/-- Where the reader of a template stands. -/
inductive Inside where
  | plain
  | escaped
  | dollar

/-- The place of the reader of a template. -/
def Inside.place : Inside → Place
  | plain => .template
  | escaped => .templateEscape
  | dollar => .dollar

/-- Where the reader of a template stands behind a text, unless the text ends the template or opens
a substitution. -/
def inTemplate : Inside → List Char → Option Inside
  | inside, [] => some inside
  | .escaped, _ :: cs => inTemplate .plain cs
  | inside, c :: cs =>
    if c = '\x60' then none
    else if c = '\\' then inTemplate .escaped cs
    else if c = '$' then inTemplate .dollar cs
    else match inside with
      | .dollar => if c = '\x7b' then none else inTemplate .plain cs
      | _ => inTemplate .plain cs

theorem run_inTemplate {inside next : Inside} (h : inTemplate inside t = some next) :
    Reader.run ⟨inside.place, brackets, seen⟩ t = some ⟨next.place, brackets, seen⟩ := by
  fun_induction inTemplate inside t with
  | case1 inside =>
    cases h
    rfl
  | case2 c cs ih => exact ih h
  | case3 => cases h
  | case4 inside cs hinside htick ih =>
    cases inside with
    | escaped => exact absurd rfl hinside
    | plain => exact ih h
    | dollar => exact ih h
  | case5 inside cs hinside htick hslash ih =>
    cases inside with
    | escaped => exact absurd rfl hinside
    | plain => exact ih h
    | dollar => exact ih h
  | case6 => cases h
  | case7 c cs htick hslash hdollar hbrace hinside ih =>
    -- behind a dollar sign only a brace opens a substitution
    have hstep : Reader.step ⟨.dollar, brackets, seen⟩ c = some ⟨.template, brackets, seen⟩ := by
      simp [Reader.step, Reader.templateStep, Reader.goTo, htick, hslash, hdollar, hbrace]
    rw [Inside.place, Reader.run_cons, hstep]
    exact ih h
  | case8 inside c cs hinside htick hslash hdollar hother ih =>
    cases inside with
    | escaped => exact absurd rfl hinside
    | dollar => exact absurd rfl hother
    | plain =>
      have hstep : Reader.step ⟨.template, brackets, seen⟩ c = some ⟨.template, brackets, seen⟩ := by
        simp [Reader.step, Reader.templateStep, Reader.goTo, htick, hslash, hdollar]
      rw [Inside.place, Reader.run_cons, hstep]
      exact ih h

/-- Whether a text has no backtick but behind a backslash, no dollar sign behind a backslash, and
does not end in a backslash that escapes; from behind such a backslash or not. -/
def isEscaped : Bool → List Char → Bool
  | escaped, [] => !escaped
  | true, c :: cs => c != '$' && isEscaped false cs
  | false, c :: cs =>
    if c = '\\' then isEscaped true cs else c != '\x60' && isEscaped false cs

/-- The escapes of a backslash and a backtick. -/
theorem isEscaped_replaced (t : List Char) :
    isEscaped false (Text.replaceFrom ['\x60'] ['\\', '\x60'] 0
      (Text.replaceFrom ['\\'] ['\\', '\\'] 0 t)) = true := by
  rw [replaceFrom_single, replaceFrom_single]
  induction t with
  | nil => rfl
  | cons c cs ih =>
    rw [List.flatMap_cons, List.flatMap_append]
    by_cases hslash : c = '\\'
    · subst hslash
      exact ih
    · by_cases htick : c = '\x60'
      · subst htick
        exact ih
      · simpa [hslash, htick, isEscaped] using ih

/-- A template stays open where the opening of a substitution in it is escaped: the backslash put
before the dollar sign is not itself escaped. -/
theorem inTemplate_replaceFrom (inside : Inside) (skip : Nat) (t : List Char)
    (h : isEscaped (inside matches .escaped) (t.drop skip) = true)
    (hdollar : inside = .dollar → (t.drop skip).head? ≠ some '\x7b') :
    ∃ next, inTemplate inside (Text.replaceFrom ['$', '\x7b'] ['\\', '$', '\x7b'] skip t) =
      some next ∧ next ≠ .escaped := by
  fun_induction Text.replaceFrom ['$', '\x7b'] ['\\', '$', '\x7b'] skip t generalizing inside with
  | case1 =>
    cases inside with
    | escaped => simp [isEscaped] at h
    | plain => exact ⟨.plain, rfl, by simp⟩
    | dollar => exact ⟨.dollar, rfl, by simp⟩
  | case2 skip c cs ih => exact ih inside h hdollar
  | case3 c cs hprefix ih =>
    obtain ⟨rest, heq⟩ := List.isPrefixOf_iff_prefix.1 hprefix
    simp only [List.cons_append, List.nil_append, List.cons.injEq] at heq
    obtain ⟨rfl, rfl⟩ := heq
    cases inside with
    | escaped => simp [isEscaped] at h
    | plain | dollar => exact ih .plain (by simpa [isEscaped] using h) (by simp)
  | case4 c cs hprefix ih =>
    rw [List.drop_zero] at h hdollar ih
    -- a dollar sign that stays is not followed by a brace
    have hbrace : c = '$' → cs.head? ≠ some '\x7b' := by
      rintro rfl hhead
      obtain ⟨rest, rfl⟩ := List.head?_eq_some_iff.1 hhead
      exact hprefix rfl
    cases inside with
    | escaped =>
      simp only [isEscaped, Bool.and_eq_true] at h
      exact ih .plain h.2 (by simp)
    | plain =>
      simp only [isEscaped] at h
      by_cases hslash : c = '\\'
      · subst hslash
        exact ih .escaped h (by simp)
      · rw [if_neg hslash, Bool.and_eq_true, bne_iff_ne] at h
        by_cases hsign : c = '$'
        · simpa [inTemplate, h.1, hsign] using ih .dollar h.2 fun _ => hbrace hsign
        · simpa [inTemplate, h.1, hslash, hsign] using ih .plain h.2 (by simp)
    | dollar =>
      simp only [isEscaped] at h
      by_cases hslash : c = '\\'
      · subst hslash
        exact ih .escaped h (by simp)
      · rw [if_neg hslash, Bool.and_eq_true, bne_iff_ne] at h
        by_cases hsign : c = '$'
        · simpa [inTemplate, h.1, hsign] using ih .dollar h.2 fun _ => hbrace hsign
        · have hopen : c ≠ '\x7b' := by simpa using hdollar rfl
          simpa [inTemplate, h.1, hslash, hsign, hopen] using ih .plain h.2 (by simp)

theorem inTemplate_templateOf (t : List Char) :
    ∃ next, inTemplate .plain (StringLiteral.templateOf t) = some next ∧ next ≠ .escaped :=
  inTemplate_replaceFrom .plain 0 _ (isEscaped_replaced t) (by simp)

theorem plain_template (t : List Char) :
    Plain (String.ofList ('\x60' :: StringLiteral.templateOf t ++ ['\x60'])) := by
  intro brackets seen
  obtain ⟨next, hnext, hne⟩ := inTemplate_templateOf t
  have hopen : Reader.step ⟨.code, brackets, seen⟩ '\x60' = some ⟨.template, brackets, seen⟩ := rfl
  have hinside : Reader.run ⟨.template, brackets, seen⟩ (StringLiteral.templateOf t) =
      some ⟨next.place, brackets, seen⟩ := run_inTemplate hnext
  rw [String.toList_ofList, List.cons_append, Reader.run_cons, hopen, Option.bind_some,
    Reader.run_append_of_eq hinside]
  cases next with
  | escaped => exact absurd rfl hne
  | plain => simp [Inside.place, Reader.step, Reader.templateStep, Reader.goTo]
  | dollar => simp [Inside.place, Reader.step, Reader.templateStep, Reader.goTo]

/-- **The literal for a string is closed**, whatever is written in the string. -/
theorem plain_toScript (raw : String) : Plain (StringLiteral.toScript raw) := by
  unfold StringLiteral.toScript
  split
  · exact plain_template _
  · exact plain_quoted (staysInString_quotedFrom .plain _)

end LuaCompiler.Script
