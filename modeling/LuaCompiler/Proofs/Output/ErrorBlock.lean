import LuaCompiler.Proofs.Output.Failures

/-!
# The list of errors in front of the code

What was wrong with a file is listed in one block comment in front of its code. A message may hold any
text, since paths and parts of the source get into it, and so it is written with the end of a block
comment taken apart.

* `standsFirst_errorBlock`: the comment ends at its own end, whatever the messages and the code.
* `errorList_eq`: messages are taken apart one by one, so each keeps its place in the list.
* `errors_stand_before_code`: **a file has such a list exactly if it has a diagnostic, with one message
  for each, and the code behind the list is the generated code as it is.**
-/

namespace LuaCompiler

/-- A sign stands in a text behind `before`, and nowhere sooner. -/
structure StandsFirst (sign before behind text : String) : Prop where
  text_eq : text = before ++ sign ++ behind
  first : ∀ sooner rest, text = sooner ++ sign ++ rest → before.length ≤ sooner.length

namespace Script

/-- The end of a block comment stands first behind a text that holds none. -/
theorem length_le_of_occurs {before behind sooner rest : List Char}
    (h : Text.occurs ['*', '/'] before = false)
    (heq : before ++ '*' :: '/' :: behind = sooner ++ '*' :: '/' :: rest) :
    before.length ≤ sooner.length := by
  induction before generalizing sooner with
  | nil => exact Nat.zero_le _
  | cons c cs ih =>
    rw [Text.occurs, Bool.or_eq_false_iff] at h
    obtain ⟨hhere, hthere⟩ := h
    cases sooner with
    | nil =>
      -- the two signs would be the first of the text, or its last and the asterisk behind it
      obtain ⟨rfl, hcs⟩ := List.cons.inj heq
      cases cs with
      | nil => exact absurd (List.cons.inj hcs).1 (by decide)
      | cons d ds =>
        obtain ⟨rfl, -⟩ := List.cons.inj hcs
        simp [List.isPrefixOf] at hhere
    | cons d ds =>
      have hshorter := ih hthere (List.cons.inj heq).2
      rw [List.length_cons, List.length_cons]
      omega

theorem standsFirst_of_contains {before behind : String}
    (h : Text.contains before "*/" = false) :
    StandsFirst "*/" before behind (before ++ "*/" ++ behind) := by
  have hoccurs : Text.occurs ['*', '/'] before.toList = false := by simpa [Text.contains] using h
  refine ⟨rfl, fun sooner rest heq => ?_⟩
  have hlist : before.toList ++ '*' :: '/' :: behind.toList =
      sooner.toList ++ '*' :: '/' :: rest.toList := by
    have htoList := congrArg String.toList heq
    simpa using htoList
  exact length_le_of_occurs hoccurs hlist

/-- No end of a block comment runs over a line feed. -/
theorem replaceFrom_newline (new : List Char) (skip : Nat) (t behind : List Char)
    (hskip : skip ≤ t.length) :
    Text.replaceFrom ['*', '/'] new skip (t ++ '\n' :: behind) =
      Text.replaceFrom ['*', '/'] new skip t ++ '\n' :: Text.replaceFrom ['*', '/'] new 0 behind := by
  fun_induction Text.replaceFrom ['*', '/'] new skip t with
  | case1 skip =>
    have hzero : skip = 0 := Nat.le_zero.1 hskip
    subst hzero
    simp [Text.replaceFrom, List.isPrefixOf]
  | case2 skip c cs ih =>
    rw [List.cons_append, Text.replaceFrom]
    exact ih (Nat.le_of_succ_le_succ hskip)
  | case3 c cs h ih =>
    obtain ⟨rest, heq⟩ := List.isPrefixOf_iff_prefix.1 h
    obtain ⟨rfl, rfl⟩ := List.cons.inj heq
    have hrest := ih (Nat.succ_le_succ (Nat.zero_le _))
    rw [List.append_assoc, ← hrest]
    rfl
  | case4 c cs h ih =>
    have hthere : ¬ ['*', '/'].isPrefixOf (c :: (cs ++ '\n' :: behind)) = true := by
      -- a sign cut off at the end of the line would have the line feed for its slash
      cases cs with
      | nil => simp [List.isPrefixOf]
      | cons d ds => simpa [List.isPrefixOf] using h
    rw [List.cons_append, Text.replaceFrom, if_neg hthere, ih (Nat.zero_le _), List.cons_append]

theorem replace_line (line rest : String) :
    Text.replace (line ++ "\n" ++ rest) "*/" "* /" =
      Text.replace line "*/" "* /" ++ "\n" ++ Text.replace rest "*/" "* /" := by
  have hlist := replaceFrom_newline ['*', ' ', '/'] 0 line.toList rest.toList (Nat.zero_le _)
  apply String.toList_inj.1
  simpa [Text.replace] using hlist

end Script

/-! ## The list -/

/-- A message that cannot end a comment. -/
def escapedMessage (message : String) : String := Text.replace message "*/" "* /"

/-- The beginning of a comment that lists messages, up to its end. -/
def errorList (errors : List String) : String :=
  "/*\n" ++ "\n".intercalate (errors.map escapedMessage) ++ "\n"

theorem escapedMessage_intercalate (errors : List String) :
    escapedMessage ("\n".intercalate errors) = "\n".intercalate (errors.map escapedMessage) := by
  induction errors with
  | nil => decide
  | cons error rest ih =>
    cases rest with
    | nil => simp only [List.map_cons, List.map_nil, String.intercalate_singleton]
    | cons next others =>
      rw [String.intercalate_cons_cons, escapedMessage, Script.replace_line]
      rw [List.map_cons, List.map_cons, String.intercalate_cons_cons, ← List.map_cons, ← ih]
      rfl

/-- **The messages are taken apart one by one.** -/
theorem errorList_eq (errors : List String) (code : String) :
    errorBlock errors code = errorList errors ++ "*/" ++ ("\n" ++ code) := by
  rw [errorBlock_eq, errorList, ← escapedMessage_intercalate]
  simp only [errorComment, escapedMessage, String.append_assoc]
  rfl

theorem contains_errorList (errors : List String) :
    Text.contains (errorList errors) "*/" = false := by
  have hlist : errorList errors =
      "/*" ++ (String.singleton '\n' ++ escapedMessage ("\n".intercalate errors) ++
        String.singleton '\n') := by
    rw [errorList, escapedMessage_intercalate]
    simp only [String.append_assoc]
    rfl
  have hinner : Text.occurs ['*', '/'] (String.singleton '\n' ++
      escapedMessage ("\n".intercalate errors) ++ String.singleton '\n').toList = false := by
    have hstar : '\n' ≠ '*' := by decide
    have hslash : '\n' ≠ '/' := by decide
    have hnone := (Script.contains_end_around hstar hslash _).trans
      (Script.contains_replace_end ("\n".intercalate errors))
    simpa [Text.contains, escapedMessage] using hnone
  rw [hlist]
  simpa [Text.contains, Text.occurs, List.isPrefixOf] using hinner

/-- **The comment ends at its own end**, with a line feed and the code behind it. -/
theorem standsFirst_errorBlock (errors : List String) (code : String) :
    StandsFirst "*/" (errorList errors) ("\n" ++ code) (errorBlock errors code) :=
  errorList_eq errors code ▸ Script.standsFirst_of_contains (contains_errorList errors)

/-- Code behind a list of errors is not the code alone. -/
theorem errorBlock_ne (errors : List String) (code : String) : errorBlock errors code ≠ code := by
  intro heq
  have hlength := congrArg String.length heq
  rw [errorList_eq] at hlength
  simp only [String.length_append] at hlength
  have hsign : "*/".length = 2 := rfl
  omega

/-! ## The output of a file -/

/-- The code generated for a source, none if it does not parse. -/
def generatedCode (source path : String) (registries : Registries) (options : Options) : String :=
  match (parse source).result with
  | .error _ => ""
  | .ok chunk => (generate path options registries (parse source) chunk).code

variable {options : Options}

theorem code_compile (formatter : Formatter) (source path : String) (registries : Registries)
    (hformat : options.format = false) :
    (compile formatter source path registries options).1.code =
      withErrors (compile formatter source path registries options).1.diagnostics
        (generatedCode source path registries options) := by
  unfold compile compileParsed generatedCode
  cases (parse source).result with
  | error fault => rfl
  | ok chunk => simp only [Module.output, reprint, hformat, Bool.false_eq_true, if_false]

theorem withErrors_eq_iff (diagnostics : List Diagnostic) (code : String) :
    (withErrors diagnostics code = errorBlock (diagnostics.map Diagnostic.display) code ↔
      diagnostics ≠ []) ∧ (withErrors diagnostics code = code ↔ diagnostics = []) := by
  unfold withErrors
  cases diagnostics with
  | nil =>
    have hne := errorBlock_ne ([].map Diagnostic.display) code
    exact ⟨⟨fun h => absurd h.symm hne, fun h => absurd rfl h⟩, fun _ => rfl, fun _ => rfl⟩
  | cons diagnostic rest =>
    have hne := errorBlock_ne ((diagnostic :: rest).map Diagnostic.display) code
    exact ⟨⟨fun _ => List.cons_ne_nil _ _, fun _ => rfl⟩, fun h => absurd h hne, fun h => nomatch h⟩

/-- **The list of errors is one comment in front of code that is left as it is.** The comment ends at the
first end of a comment in it, whatever is listed and whatever the code. The code of a file without
formatting begins with the list of its diagnostics, in their order, exactly if it has one, and is the
generated code alone if it has none. -/
theorem errors_stand_before_code (formatter : Formatter) (source path : String)
    (registries : Registries) (hformat : options.format = false) :
    (∀ errors code,
      StandsFirst "*/" (errorList errors) ("\n" ++ code) (errorBlock errors code)) ∧
    ((compile formatter source path registries options).1.code =
        errorBlock ((compile formatter source path registries options).1.diagnostics.map
          Diagnostic.display) (generatedCode source path registries options) ↔
      (compile formatter source path registries options).1.diagnostics ≠ []) ∧
    ((compile formatter source path registries options).1.code =
        generatedCode source path registries options ↔
      (compile formatter source path registries options).1.diagnostics = []) := by
  have hcode := code_compile formatter source path registries hformat
  obtain ⟨hlisted, hclean⟩ := withErrors_eq_iff
    (compile formatter source path registries options).1.diagnostics
    (generatedCode source path registries options)
  rw [hcode]
  exact ⟨standsFirst_errorBlock, hlisted, hclean⟩

/-- A file whose path ends a comment, with a jump that has no counterpart. -/
theorem errors_stand_before_code_gotoText :
    (compile .keep "goto a" "b*/c.lua" .empty {}).1.code =
      errorBlock ["L2J-GEN-001 b*/c.lua:1:0 Unsupported goto target: a"]
        (generatedCode "goto a" "b*/c.lua" .empty {}) := by
  have hmessages : (compile .keep "goto a" "b*/c.lua" .empty {}).1.diagnostics.map
      Diagnostic.display = ["L2J-GEN-001 b*/c.lua:1:0 Unsupported goto target: a"] := by
    rw [compile, parse_ofList]
    decide +kernel
  have hsome : (compile .keep "goto a" "b*/c.lua" .empty {}).1.diagnostics ≠ [] := by
    intro hnone
    rw [hnone] at hmessages
    cases hmessages
  have hformat : ({} : Options).format = false := rfl
  obtain ⟨-, hlisted, -⟩ := errors_stand_before_code .keep "goto a" "b*/c.lua" .empty hformat
  rw [hlisted.2 hsome, hmessages]

end LuaCompiler
