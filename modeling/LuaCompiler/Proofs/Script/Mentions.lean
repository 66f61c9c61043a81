import LuaCompiler.NameSet
import LuaCompiler.Proofs.Script.Lexemes
import LuaCompiler.Proofs.Script.Respelled

/-!
# Mentions of the support module

Generated code reaches the support module under the name `l2j`. What follows a mention of the name
in a script says what is used of the module: `l2j.table.insert` uses a function of a library,
`l2j.finishClass` seals a class.

* `Provided functions library name behind`: how a script comes to use a library function, where
  `functions` are those recorded.
* `Refers u dangling text`: in a text, every mention of the module is one that the usage `u` admits,
  whatever comes behind the text; a dangling text may end in a library table, and nothing is said
  for a member of it behind the text.
* `Refers.append`, `Refers.behind`, `Refers.between`: such texts put together.
* `Refers.findAll`: a search that is respelled uses what it used before.
-/

namespace LuaCompiler.Script

open Emit (parens brackets braced commas callText)

/-! ## Mentions -/

/-- The name of the support module. -/
def supportName : List Char := "l2j".toList

/-- What follows each mention of the support module. -/
def mentions : List Lexeme → List (List Lexeme)
  | [] => []
  | first :: rest => if first = .word supportName then rest :: mentions rest else mentions rest

variable {ls ms : List Lexeme} {post : List Lexeme}

/-- Mentions in a row are those of each part, followed by what stands behind. -/
theorem mentions_append (ls ms : List Lexeme) :
    mentions (ls ++ ms) = (mentions ls).map (· ++ ms) ++ mentions ms := by
  induction ls with
  | nil => rfl
  | cons first rest ih =>
    rw [List.cons_append, mentions, mentions, ih]
    split <;> simp

/-- What follows a mention of the namespace. -/
theorem mem_mentions : post ∈ mentions ls ↔ ∃ front, ls = front ++ .word supportName :: post := by
  induction ls with
  | nil => simp [mentions]
  | cons first rest ih =>
    constructor
    · intro h
      rw [mentions] at h
      split at h
      next hfirst =>
        rcases List.mem_cons.1 h with rfl | h
        · exact ⟨[], by rw [hfirst]; rfl⟩
        · obtain ⟨front, rfl⟩ := ih.1 h
          exact ⟨first :: front, rfl⟩
      · obtain ⟨front, rfl⟩ := ih.1 h
        exact ⟨first :: front, rfl⟩
    · rintro ⟨front, heq⟩
      rw [mentions]
      -- a mention of the support module here, or further on
      rcases front with _ | ⟨other, front⟩
      · obtain ⟨rfl, rfl⟩ := List.cons.inj heq
        rw [if_pos rfl]
        exact List.mem_cons_self
      · obtain ⟨rfl, rfl⟩ := List.cons.inj heq
        have hrest := ih.2 ⟨front, rfl⟩
        split
        · exact List.mem_cons_of_mem _ hrest
        · exact hrest

/-- Nothing without the name of the module mentions it. -/
theorem mentions_eq_nil (h : Lexeme.word supportName ∉ ls) : mentions ls = [] := by
  refine List.eq_nil_iff_forall_not_mem.2 fun post hpost => h ?_
  obtain ⟨front, rfl⟩ := mem_mentions.1 hpost
  simp

/-! ## Usages -/

/-- **How a script comes to use a library function**, given what is behind the name and the functions
recorded. -/
inductive Provided (functions : NameSet) : String → String → List Lexeme → Prop where
  /-- the function is recorded, by its name in the source -/
  | recorded {library name : String} {behind : List Lexeme} (h : library ++ "." ++ name ∈ functions) :
    Provided functions library (Name.asProperty name) behind
  /-- the function that the length operator calls -/
  | length {behind : List Lexeme} : Provided functions "table" "length" behind
  /-- the search that gives all results, in place of the one recorded -/
  | allResults {behind : List Lexeme} (h : "string.find" ∈ functions) :
    Provided functions "string" "findWithRet" behind
  /-- a function that the program puts there itself -/
  | assigned {library name : String} {behind : List Lexeme} :
    Provided functions library name (.sign '=' :: .word "function".toList :: behind)
  /-- what every function and every class of JavaScript has -/
  | native {library name : String} {behind : List Lexeme} (h : name = "call" ∨ name = "prototype") :
    Provided functions library name behind

/-- What a script may use of the support module. -/
structure Usage where
  /-- the library functions recorded -/
  functions : NameSet
  /-- whether classes are sealed -/
  seals : Bool

/-- **Whether a usage admits what follows a mention of the support module.** -/
structure Usage.Admits (u : Usage) (post : List Lexeme) : Prop where
  library : ∀ library name behind, Name.isSystemLibrary library = true →
    post = .sign '.' :: .word library.toList :: .sign '.' :: .word name.toList :: behind →
      Provided u.functions library name behind
  sealing : u.seals = false → ∀ behind,
    post ≠ .sign '.' :: .word "finishClass".toList :: behind

/-- The members of the support module of which not every use is admitted. -/
def guardedMembers : List (List Char) :=
  "finishClass".toList :: Name.systemLibraries.map String.toList

/-- Whether what follows a mention of the support module is a member that every usage admits. -/
def isOrdinary : List Lexeme → Bool
  | .sign '.' :: .word w :: _ => !guardedMembers.contains w
  | _ => false

variable {u : Usage} {rest : List Lexeme}

/-- An ordinary mention is admitted whatever is used. -/
theorem Usage.admits_of_isOrdinary (h : isOrdinary post = true) (rest : List Lexeme) :
    u.Admits (post ++ rest) := by
  unfold isOrdinary at h
  split at h
  next w more =>
    rw [Bool.not_eq_true', ← Bool.not_eq_true, List.contains_iff_mem] at h
    constructor
    · intro library name behind hlibrary heq
      simp only [List.cons_append, List.cons.injEq, Lexeme.word.injEq, true_and] at heq
      refine absurd (List.mem_cons_of_mem _ (List.mem_map.2 ⟨library, ?_, heq.1.symm⟩)) h
      exact List.contains_iff_mem.1 hlibrary
    · intro _ behind heq
      simp only [List.cons_append, List.cons.injEq, Lexeme.word.injEq, true_and] at heq
      exact h (heq.1 ▸ List.mem_cons_self)
  · cases h

/-- What does not go on with a member is admitted. -/
theorem Usage.admits_of_ne (h : post.head? ≠ some (.sign '.')) : u.Admits post :=
  ⟨fun _ _ _ _ heq => absurd (by rw [heq]; rfl) h, fun _ _ heq => h (by rw [heq]; rfl)⟩

/-- A library table by itself is admitted, if no member follows. -/
theorem Usage.admits_library (library : String) (hlibrary : Name.isSystemLibrary library = true)
    (h : rest.head? ≠ some (.sign '.')) :
    u.Admits (.sign '.' :: .word library.toList :: rest) := by
  constructor
  · intro _ name behind _ heq
    simp only [List.cons.injEq, true_and] at heq
    exact absurd (by rw [heq.2]; rfl) h
  · intro _ behind heq
    simp only [List.cons.injEq, Lexeme.word.injEq, true_and] at heq
    have hnone : ∀ name ∈ Name.systemLibraries, name.toList ≠ "finishClass".toList := by decide
    exact hnone library (List.contains_iff_mem.1 hlibrary) heq.1

/-- A library function is admitted as it is provided. -/
theorem Usage.admits_member {library name : String} (hlibrary : Name.isSystemLibrary library = true)
    (h : Provided u.functions library name rest) :
    u.Admits (.sign '.' :: .word library.toList :: .sign '.' :: .word name.toList :: rest) := by
  constructor
  · intro other name' behind _ heq
    simp only [List.cons.injEq, Lexeme.word.injEq, true_and, String.toList_inj] at heq
    obtain ⟨rfl, rfl, rfl⟩ := heq
    exact h
  · intro _ behind heq
    simp only [List.cons.injEq, Lexeme.word.injEq, true_and] at heq
    have hnone : ∀ name ∈ Name.systemLibraries, name.toList ≠ "finishClass".toList := by decide
    exact hnone library (List.contains_iff_mem.1 hlibrary) heq.1

/-! ## Texts -/

/-- **A text of code that uses the support module as is admitted**, whatever comes behind it; if it
dangles, whatever but a member. -/
def Refers (u : Usage) (dangling : Bool) (text : String) : Prop :=
  ∃ ls, Reads text ls ∧ ∀ post ∈ mentions ls, ∀ rest,
    (dangling = true → rest.head? ≠ some (.sign '.')) → u.Admits (post ++ rest)

/-- A text that uses the support module as is admitted, whatever comes behind it. -/
abbrev Grounded (u : Usage) (text : String) : Prop := Refers u false text

/-- A text of code without comments and literals of its own making: a fixed text of a rule. -/
def Fixed (text : String) : Prop :=
  Reads text (lexemes text) ∧ ∀ post ∈ mentions (lexemes text), isOrdinary post = true

instance (text : String) : Decidable (Fixed text) := inferInstanceAs (Decidable (_ ∧ _))

/-- A fixed text before others. -/
def Lead (text : String) : Prop := endsWord text = false ∧ Fixed text

instance (text : String) : Decidable (Lead text) := inferInstanceAs (Decidable (_ ∧ _))

/-- Whether lexemes start with one that is not the sign of a member. -/
def startsAnew : List Lexeme → Bool
  | [] => false
  | first :: _ => first != .sign '.'

/-- A fixed text behind others. -/
def Trail (text : String) : Prop :=
  startsWord text = false ∧ startsAnew (lexemes text) = true ∧ Fixed text

instance (text : String) : Decidable (Trail text) := inferInstanceAs (Decidable (_ ∧ _))

/-- A fixed text between others. -/
def Link (text : String) : Prop := endsWord text = false ∧ Trail text

instance (text : String) : Decidable (Link text) := inferInstanceAs (Decidable (_ ∧ _))

/-- A text without lexemes: blanks and comments. -/
def Silent (text : String) : Prop :=
  startsWord text = false ∧ endsWord text = false ∧ Reads text []

instance (text : String) : Decidable (Silent text) := inferInstanceAs (Decidable (_ ∧ _))

variable {dangling dangling' : Bool} {s t v : String}

/-- A text that ends no word may end one. -/
theorem Refers.weaken (h : Grounded u t) (dangling : Bool) : Refers u dangling t := by
  obtain ⟨ls, hreads, hadmits⟩ := h
  exact ⟨ls, hreads, fun post hpost rest _ => hadmits post hpost rest fun h => nomatch h⟩

theorem Fixed.grounded (h : Fixed t) : Grounded u t :=
  ⟨_, h.1, fun post hpost rest _ => Usage.admits_of_isOrdinary (h.2 post hpost) rest⟩

theorem Silent.grounded (h : Silent t) : Grounded u t :=
  ⟨[], h.2.2, fun _ hpost => nomatch hpost⟩

/-! ### Edges -/

/-- A text that is not empty begins a longer one. -/
theorem startsWord_append_of (h : startsWord s = false) (hne : s ≠ "") (t : String) :
    startsWord (s ++ t) = false := by
  have hlist : s.toList ≠ [] := fun hnil => hne (String.toList_inj.1 hnil)
  obtain ⟨c, cs, hcons⟩ := List.exists_cons_of_ne_nil hlist
  simpa [startsWord, hcons] using h

/-- And ends one it is behind. -/
theorem endsWord_append_of (h : endsWord t = false) (hne : t ≠ "") (s : String) :
    endsWord (s ++ t) = false := by
  have hlist : t.toList ≠ [] := fun hnil => hne (String.toList_inj.1 hnil)
  simpa [endsWord, List.getLast?_append_of_ne_nil _ hlist] using h

/-- Two texts that start no word. -/
theorem startsWord_append (h : startsWord s = false) (h' : startsWord t = false) :
    startsWord (s ++ t) = false := by
  by_cases hempty : s = ""
  · rwa [hempty, String.empty_append]
  · exact startsWord_append_of h hempty t

/-- Two texts that end no word. -/
theorem endsWord_append (h : endsWord s = false) (h' : endsWord t = false) :
    endsWord (s ++ t) = false := by
  by_cases hempty : t = ""
  · rwa [hempty, String.append_empty]
  · exact endsWord_append_of h' hempty s

theorem Silent.append (h : Silent s) (h' : Silent t) : Silent (s ++ t) :=
  ⟨startsWord_append h.1 h'.1, endsWord_append h.2.1 h'.2.1, h.2.2.append h'.2.2 (.inl h.2.1)⟩

/-! ### Putting texts together -/

/-- **A text behind one that is not left dangling.** -/
theorem Refers.append (h : Grounded u s) (h' : Refers u dangling t)
    (hapart : endsWord s = false ∨ startsWord t = false) : Refers u dangling (s ++ t) := by
  obtain ⟨ls, hls, hs⟩ := h
  obtain ⟨ms, hms, ht⟩ := h'
  refine ⟨ls ++ ms, hls.append hms hapart, fun post hpost rest hrest => ?_⟩
  rw [mentions_append, List.mem_append, List.mem_map] at hpost
  rcases hpost with ⟨post, hpost, rfl⟩ | hpost
  · rw [List.append_assoc]
    exact hs post hpost _ fun h => nomatch h
  · exact ht post hpost rest hrest

/-- A fixed text before another. -/
theorem Refers.before (h : Refers u dangling t) (hs : Lead s) : Refers u dangling (s ++ t) :=
  Refers.append hs.2.grounded h (.inl hs.1)

/-- **A fixed text behind another**, that takes no member of it. -/
theorem Refers.behind (h : Refers u dangling t) (hs : Trail s) : Grounded u (t ++ s) := by
  obtain ⟨ls, hls, ht⟩ := h
  obtain ⟨hstart, hanew, hreads, hordinary⟩ := hs
  refine ⟨ls ++ lexemes s, hls.append hreads (.inr hstart), fun post hpost rest _ => ?_⟩
  rw [mentions_append, List.mem_append, List.mem_map] at hpost
  rcases hpost with ⟨post, hpost, rfl⟩ | hpost
  · rw [List.append_assoc]
    refine ht post hpost _ fun _ => ?_
    cases hlexemes : lexemes s with
    | nil => simp [hlexemes, startsAnew] at hanew
    | cons first more => simpa [hlexemes, startsAnew] using hanew
  · exact Usage.admits_of_isOrdinary (hordinary post hpost) rest

/-- Two texts with a fixed text between. -/
theorem Refers.between (h : Refers u dangling t) (hs : Link s) (h' : Refers u dangling' v) :
    Refers u dangling' (t ++ s ++ v) := by
  by_cases hempty : s = ""
  · subst hempty
    exact absurd hs.2.2.1 (by decide)
  · exact Refers.append (h.behind hs.2) h' (.inl (endsWord_append_of hs.1 hempty t))

/-- Blanks and comments around a text. -/
theorem Refers.within (h : Refers u dangling t) (hs : Silent s) (hv : Silent v) :
    Refers u dangling (s ++ t ++ v) := by
  obtain ⟨ls, hls, ht⟩ := h
  refine ⟨ls, ?_, ht⟩
  have hreads := (hs.2.2.append hls (.inl hs.2.1)).append hv.2.2 (.inr hv.1)
  simpa using hreads

/-- What is not read may stand before. -/
theorem Refers.beforeSilent (h : Refers u dangling t) (hs : Silent s) : Refers u dangling (s ++ t) := by
  simpa using h.within hs (by decide : Silent "")

/-- Or behind. -/
theorem Refers.behindSilent (h : Refers u dangling t) (hv : Silent v) : Refers u dangling (t ++ v) := by
  simpa using h.within (by decide : Silent "") hv

/-- A text between two fixed texts, behind another. -/
theorem Refers.enclosing {left right : String} (h : Refers u dangling t)
    (h' : Refers u dangling' v) (hleft : Link left) (hright : Trail right) :
    Grounded u (t ++ (left ++ v ++ right)) := by
  have hall := (h.between hleft h').behind hright
  simpa only [String.append_assoc] using hall

section Brackets

variable (h : Refers u dangling t) (h' : Refers u dangling' v)

include h h'

/-- Brackets end a mention. -/
theorem Refers.parensBehind : Grounded u (t ++ parens v) :=
  h.enclosing h' (by decide) (by decide)

theorem Refers.bracketsBehind : Grounded u (t ++ brackets v) :=
  h.enclosing h' (by decide) (by decide)

theorem Refers.bracedBehind : Grounded u (t ++ braced v) :=
  h.enclosing h' (by decide) (by decide)

end Brackets

theorem grounded_empty : Grounded u "" := Fixed.grounded (by decide)

/-- Brackets around a text refer to what it does. -/
theorem Refers.parens (h : Refers u dangling t) : Grounded u (Emit.parens t) := by
  simpa using grounded_empty.parensBehind h

theorem Refers.brackets (h : Refers u dangling t) : Grounded u (Emit.brackets t) := by
  simpa using grounded_empty.bracketsBehind h

theorem Refers.braced (h : Refers u dangling t) : Grounded u (Emit.braced t) := by
  simpa using grounded_empty.bracedBehind h

/-- Texts with a sign between. -/
theorem refers_intercalate (hs : Link s) {ts : List String} (h : ∀ t ∈ ts, Refers u true t) :
    Refers u true (s.intercalate ts) := by
  induction ts with
  | nil => exact grounded_empty.weaken true
  | cons t ts ih =>
    obtain ⟨ht, hts⟩ := List.forall_mem_cons.1 h
    cases ts with
    | nil => simpa using ht
    | cons v ts =>
      rw [String.intercalate_cons_cons]
      exact ht.between hs (ih hts)

/-- A list refers to what its texts do, which the commas keep apart. -/
theorem refers_commas {ts : List String} (h : ∀ t ∈ ts, Refers u true t) : Refers u true (commas ts) :=
  refers_intercalate (by decide) h

/-- **A call.** -/
theorem Refers.call (h : Refers u dangling t) {ts : List String} (hts : ∀ v ∈ ts, Refers u true v) :
    Grounded u (callText t ts) :=
  h.parensBehind (refers_commas hts)

/-! ## The search that gives all results -/

/-- The lexemes of a call of a search, behind some characters of a word. -/
def searchLexemes (word : List Char) (name : String) : List Lexeme :=
  [.word (word ++ supportName), .sign '.', .word "string".toList, .sign '.', .word name.toList,
    .sign '(']

/-- Lexemes and the same lexemes with one call of the search respelled. -/
inductive Redirected (ls : List Lexeme) : List Lexeme → Prop where
  | same : Redirected ls ls
  | call {front back : List Lexeme} {word : List Char}
    (h : ls = front ++ (searchLexemes word "find" ++ back)) :
    Redirected ls (front ++ (searchLexemes word "findWithRet" ++ back))

/-- What is redirected may stand among other lexemes. -/
theorem Redirected.append (h : Redirected ls ms) (front back : List Lexeme) :
    Redirected (front ++ (ls ++ back)) (front ++ (ms ++ back)) := by
  cases h with
  | same => exact .same
  | @call front' back' word heq =>
    subst heq
    have hcall : Redirected ((front ++ front') ++ (searchLexemes word "find" ++ (back' ++ back)))
        ((front ++ front') ++ (searchLexemes word "findWithRet" ++ (back' ++ back))) := .call rfl
    simpa only [List.append_assoc] using hcall

/-- The one search that is redirected asks for captures too. -/
theorem redirected_searchLexemes (word : List Char) :
    Redirected (searchLexemes word "find") (searchLexemes word "findWithRet") := by
  have hcall : Redirected ([] ++ (searchLexemes word "find" ++ []))
      ([] ++ (searchLexemes word "findWithRet" ++ [])) := .call rfl
  simpa using hcall

/-- The scanner of a text with a respelled call ends where that of the text does. -/
def Scanner.Redirects (s : Scanner) (t v : List Char) : Prop :=
  (s.run v).1 = (s.run t).1 ∧ Redirected (s.run t).2 (s.run v).2

/-- Code behind a word that it does not go on with. -/
theorem Scanner.run_behindWord {c : Char} (h : Emit.isWordChar c = false) (word cs : List Char) :
    Scanner.run ⟨.code, word⟩ (c :: cs) =
      ((Scanner.start.run (c :: cs)).1, Scanner.ofWord word ++ (Scanner.start.run (c :: cs)).2) := by
  have hstep (word : List Char) : Scanner.step ⟨.code, word⟩ c =
      ((codeStep [] c).1, ofWord word ++ (codeStep [] c).2) := codeStep_of_sign h word
  rw [Scanner.run_cons, Scanner.run_cons, Scanner.start, hstep, hstep]
  simp

/-- A member of the support module, where a scanner stands in code. -/
theorem Scanner.run_member (word cs : List Char) {rest : List Lexeme}
    (h : Scanner.start.run ('.' :: cs) = (start, rest)) :
    Scanner.run ⟨.code, word⟩ (supportName ++ '.' :: cs) =
      (start, .word (word ++ supportName) :: rest) := by
  have hword : Scanner.run ⟨.code, word⟩ supportName = (⟨.code, word ++ supportName⟩, []) :=
    run_word (List.all_eq_true.1 (by decide)) word
  have hne : (word ++ supportName).isEmpty = false := by simp [supportName]
  rw [Scanner.run_append_of_eq hword, Scanner.run_behindWord (by decide), h, Scanner.ofWord, hne]
  rfl

/-- Both spellings of the search, where a scanner stands in code. -/
theorem Scanner.redirects_code (word : List Char) :
    Scanner.Redirects ⟨.code, word⟩ searchCall searchAllCall := by
  have hfind : Scanner.start.run ('.' :: "string.find(".toList) =
      (start, (searchLexemes [] "find").tail) := by decide
  have hfindAll : Scanner.start.run ('.' :: "string.findWithRet(".toList) =
      (start, (searchLexemes [] "findWithRet").tail) := by decide
  have hsearch : searchCall = supportName ++ '.' :: "string.find(".toList := by decide
  have hsearchAll : searchAllCall = supportName ++ '.' :: "string.findWithRet(".toList := by decide
  rw [Scanner.Redirects, hsearch, hsearchAll, Scanner.run_member word _ hfind,
    Scanner.run_member word _ hfindAll]
  exact ⟨rfl, redirected_searchLexemes word⟩

/-- Both spellings of the search are code, or both are nothing. -/
theorem Scanner.redirects_searchCall (s : Scanner) : s.Redirects searchCall searchAllCall := by
  obtain ⟨mode, word⟩ := s
  -- inside strings and comments, neither text gives a lexeme
  have hsilent (next : Mode) (hstep : Scanner.step ⟨mode, word⟩ 'l' = (into next, []))
      (h : (into next).run searchCall.tail = (into next, []) ∧
        (into next).run searchAllCall.tail = (into next, [])) :
      Scanner.Redirects ⟨mode, word⟩ searchCall searchAllCall := by
    have hsearch : searchCall = 'l' :: searchCall.tail := by decide
    have hsearchAll : searchAllCall = 'l' :: searchAllCall.tail := by decide
    rw [Scanner.Redirects, hsearch, hsearchAll, run_cons_silent hstep h.1,
      run_cons_silent hstep h.2]
    exact ⟨rfl, .same⟩
  cases mode with
  | code => exact redirects_code word
  | slash =>
    obtain ⟨hstate, hlexemes⟩ : start.Redirects searchCall searchAllCall := redirects_code []
    -- a slash before a letter is a sign of its own
    have hcall (cs : List Char) : Scanner.run ⟨.slash, word⟩ ('l' :: cs) =
        ((Scanner.start.run ('l' :: cs)).1, .sign '/' :: (Scanner.start.run ('l' :: cs)).2) := rfl
    have hsearch : searchCall = 'l' :: searchCall.tail := by decide
    have hsearchAll : searchAllCall = 'l' :: searchAllCall.tail := by decide
    rw [Scanner.Redirects, hsearch, hsearchAll, hcall, hcall, ← hsearch, ← hsearchAll]
    exact ⟨hstate, by simpa using hlexemes.append [.sign '/'] []⟩
  | string => exact hsilent .string rfl (by decide)
  | stringEscape => exact hsilent .string rfl (by decide)
  | template => exact hsilent .template rfl (by decide)
  | templateEscape => exact hsilent .template rfl (by decide)
  | line => exact hsilent .line rfl (by decide)
  | block => exact hsilent .block rfl (by decide)
  | star => exact hsilent .block rfl (by decide)

/-- The first call of a search is redirected, and what stands behind stays. -/
theorem Scanner.redirects_replaceFirst (s : Scanner) (t : List Char) :
    s.Redirects t (Text.replaceFirstIn searchCall searchAllCall t) := by
  fun_induction Text.replaceFirstIn searchCall searchAllCall t generalizing s with
  | case1 => exact ⟨rfl, .same⟩
  | case2 c cs h =>
    obtain ⟨rest, heq⟩ := List.isPrefixOf_iff_prefix.1 h
    obtain ⟨hstate, hlexemes⟩ := s.redirects_searchCall
    rw [← heq, List.drop_left, Scanner.Redirects, Scanner.run_append, Scanner.run_append, hstate]
    exact ⟨rfl, hlexemes.append [] _⟩
  | case3 c cs h ih =>
    obtain ⟨hstate, hlexemes⟩ := ih (s.step c).1
    rw [Scanner.Redirects, Scanner.run_cons, Scanner.run_cons]
    refine ⟨hstate, ?_⟩
    simpa using hlexemes.append (s.step c).2 []

/-- A text that is read is read with its first search redirected. -/
theorem Reads.findAll (h : Reads t ls) : ∃ ms, Reads (Emit.findAll t) ms ∧ Redirected ls ms := by
  obtain ⟨hmode, rfl⟩ := h
  obtain ⟨hstate, hlexemes⟩ := Scanner.start.redirects_replaceFirst t.toList
  have htext : (Emit.findAll t).toList = Text.replaceFirstIn searchCall searchAllCall t.toList :=
    String.toList_ofList
  refine ⟨_, ⟨?_, rfl⟩, ?_⟩
  · rw [htext, hstate, hmode]
  · rw [htext, hstate]
    exact hlexemes.append [] _

/-! ### What a respelled search uses -/

/-- Only a member of that name is a search. -/
theorem asProperty_eq_find {name : String} (h : Name.asProperty name = "find") : name = "find" := by
  have hall : ∀ entry ∈ Name.fixedSpellings, entry.2 ≠ "find" := by decide
  unfold Name.asProperty at h
  cases hlookup : Name.fixedSpellings.lookup name with
  | none => rwa [hlookup] at h
  | some spelling =>
    obtain ⟨before, behind, heq, -⟩ := List.lookup_eq_some_iff.1 hlookup
    rw [hlookup] at h
    exact absurd h (hall (name, spelling) (by simp [heq]))

/-- A search that is called is recorded. -/
theorem Provided.find_mem {functions : NameSet} {library name : String}
    (h : Provided functions library name rest) (hlibrary : library = "string") (hname : name = "find")
    (hcalled : rest.head? ≠ some (.sign '=')) : "string.find" ∈ functions := by
  cases h with
  | recorded h => rwa [hlibrary, asProperty_eq_find hname] at h
  | length => exact absurd hname (by decide)
  | allResults h => exact h
  | assigned => exact absurd rfl hcalled
  | native h => exact absurd hname (by rcases h with rfl | rfl <;> decide)

/-- How a function is provided depends on the two lexemes behind it. -/
theorem Provided.congr {functions : NameSet} {library name : String} {more : List Lexeme}
    (h : Provided functions library name rest) (heq : rest.take 2 = more.take 2) :
    Provided functions library name more := by
  cases h with
  | recorded h => exact .recorded h
  | length => exact .length
  | allResults h => exact .allResults h
  | native h => exact .native h
  | assigned =>
    rcases more with _ | ⟨a, _ | ⟨b, more⟩⟩
    · cases heq
    · cases heq
    · simp only [List.take_succ_cons, List.cons.injEq] at heq
      obtain ⟨rfl, rfl, -⟩ := heq
      exact .assigned

/-- Whether a mention is admitted depends on the six lexemes behind it. -/
theorem Usage.Admits.congr {post' : List Lexeme} (h : u.Admits post)
    (heq : post.take 6 = post'.take 6) : u.Admits post' := by
  constructor
  · rintro library name behind hlibrary rfl
    rcases post with _ | ⟨a, _ | ⟨b, _ | ⟨c, _ | ⟨d, more⟩⟩⟩⟩
    all_goals simp only [List.take_nil, List.take_succ_cons, List.cons.injEq, reduceCtorEq,
      and_false] at heq
    obtain ⟨rfl, rfl, rfl, rfl, hmore⟩ := heq
    exact (h.library library name more hlibrary rfl).congr hmore
  · rintro hseals behind rfl
    rcases post with _ | ⟨a, _ | ⟨b, more⟩⟩
    all_goals simp only [List.take_nil, List.take_succ_cons, List.cons.injEq, reduceCtorEq,
      and_false] at heq
    obtain ⟨rfl, rfl, -⟩ := heq
    exact h.sealing hseals more rfl

/-- A word that ends with the name of the support module is no member that is guarded. -/
theorem guarded_ne {w : List Char} (h : w ∈ guardedMembers) (word : List Char) :
    w ≠ word ++ supportName := by
  have hnone : ∀ w ∈ guardedMembers, ¬ supportName <:+ w := by decide
  rintro rfl
  exact hnone _ h (List.suffix_append word supportName)

/-- A mention before a respelled search. -/
theorem Usage.Admits.redirect {more back : List Lexeme} {word : List Char}
    (h : u.Admits (more ++ (searchLexemes word "find" ++ back))) :
    u.Admits (more ++ (searchLexemes word "findWithRet" ++ back)) := by
  rcases more with _ | ⟨a, _ | ⟨b, more⟩⟩
  · exact Usage.admits_of_ne fun h => nomatch h
  · constructor
    · intro library name behind hlibrary heq
      simp only [searchLexemes, List.cons_append, List.nil_append, List.cons.injEq,
        Lexeme.word.injEq] at heq
      refine absurd heq.2.1.symm
        (guarded_ne (List.mem_cons_of_mem _ (List.mem_map.2 ⟨library, ?_, rfl⟩)) word)
      exact List.contains_iff_mem.1 hlibrary
    · intro _ behind heq
      simp only [searchLexemes, List.cons_append, List.nil_append, List.cons.injEq,
        Lexeme.word.injEq] at heq
      exact absurd heq.2.1.symm (guarded_ne List.mem_cons_self word)
  · refine h.congr ?_
    rw [List.cons_append, List.cons_append, List.cons_append, List.cons_append]
    rcases more with _ | ⟨c, _ | ⟨d, _ | ⟨e, _ | ⟨f, more⟩⟩⟩⟩ <;> rfl

/-- A search mentions what stands before its name. -/
theorem mentions_searchLexemes (word : List Char) {name : String} (hname : name.toList ≠ supportName)
    (back : List Lexeme) : mentions (searchLexemes word name ++ back) =
      if word = [] then ((searchLexemes [] name).tail ++ back) :: mentions back
      else mentions back := by
  have htail : mentions (searchLexemes [] name).tail = [] := by
    refine mentions_eq_nil fun hmem => ?_
    simp only [searchLexemes, List.tail_cons, List.mem_cons, reduceCtorEq, Lexeme.word.injEq,
      List.not_mem_nil, or_false, false_or] at hmem
    exact hmem.elim (by decide) fun heq => hname heq.symm
  have hcons : searchLexemes word name ++ back =
      .word (word ++ supportName) :: ((searchLexemes [] name).tail ++ back) := rfl
  have hfirst : Lexeme.word (word ++ supportName) = .word supportName ↔ word = [] := by
    simp
  rw [hcons, mentions, mentions_append, htail]
  simp only [hfirst, List.map_nil, List.nil_append]

/-- What a text with a respelled search mentions was admitted before. -/
theorem admits_redirected (h : Redirected ls ms) (hpost : post ∈ mentions ms) :
    ∃ post' ∈ mentions ls, ∀ {u : Usage} {rest : List Lexeme}, u.Admits (post' ++ rest) →
      u.Admits (post ++ rest) := by
  cases h with
  | same => exact ⟨post, hpost, fun h => h⟩
  | @call front back word heq =>
    subst heq
    -- the call that is replaced stands behind the lexemes of `front`
    induction front with
    | nil =>
      rw [List.nil_append, mentions_searchLexemes _ (by decide)] at hpost ⊢
      by_cases hword : word = []
      · rw [if_pos hword] at hpost ⊢
        rcases List.mem_cons.1 hpost with rfl | hpost
        · refine ⟨_, List.mem_cons_self, fun {u rest} h => ?_⟩
          -- the mention of `find` is recorded, and with it the variant for all results
          have hfind : "string.find" ∈ u.functions :=
            (h.library "string" "find" _ rfl rfl).find_mem rfl rfl fun h => nomatch h
          exact Usage.admits_member rfl (.allResults hfind)
        · exact ⟨post, List.mem_cons_of_mem _ hpost, fun h => h⟩
      · rw [if_neg hword] at hpost ⊢
        exact ⟨post, hpost, fun h => h⟩
    | cons first front ih =>
      rw [List.cons_append, mentions] at hpost ⊢
      by_cases hfirst : first = .word supportName
      · rw [if_pos hfirst] at hpost ⊢
        rcases List.mem_cons.1 hpost with rfl | hpost
        · refine ⟨_, List.mem_cons_self, fun h => ?_⟩
          rw [List.append_assoc, List.append_assoc] at h ⊢
          exact h.redirect
        · obtain ⟨post', hpost', himp⟩ := ih hpost
          exact ⟨post', List.mem_cons_of_mem _ hpost', himp⟩
      · rw [if_neg hfirst] at hpost ⊢
        exact ih hpost

/-- **A text with a respelled search uses what it used before.** -/
theorem Refers.findAll (h : Refers u dangling t) : Refers u dangling (Emit.findAll t) := by
  obtain ⟨ls, hreads, hadmits⟩ := h
  obtain ⟨ms, hreads', hredirected⟩ := hreads.findAll
  refine ⟨ms, hreads', fun post hpost rest hrest => ?_⟩
  obtain ⟨post', hpost', himp⟩ := admits_redirected hredirected hpost
  exact himp (hadmits post' hpost' rest hrest)

end LuaCompiler.Script
