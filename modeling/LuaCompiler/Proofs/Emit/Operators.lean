import LuaCompiler.Emit.Walk
import LuaCompiler.Proofs.Emit.Leaves
import LuaCompiler.Proofs.Script.Grouped
import LuaCompiler.Proofs.Script.Numerals

/-!
# Operators in generated code

The text of an expression of names, numerals and operators is read by JavaScript as the tree that
mirrors the Lua tree node for node: every operator between two values stands in parentheses, so no
level and no grouping matters. What the code leaves bare is an operator before a value, and there the
mirror can fail: JavaScript refuses such an operator as the base of a power.

* `Mirrors ctx e tree`: the tree that mirrors an expression.
* `Scans text ts`: the tokens of a text before anything that ends a token.
* `read_expression`: **the text of an expression is read as its mirror**, unless the mirror has a
  power whose base is an operator before a value; then it is no expression.
-/

namespace LuaCompiler

open Script (Token Expression Stops tokens isWord isWordPart isWordStart)
open Script.Expression (path pathTokens Written)

namespace Script

/-! ## The tokens of a text -/

/-- **The tokens of a text before anything that ends a token.** No sign grows over the front of the
text by an equals sign. -/
structure Scans (text : String) (ts : List Token) : Prop where
  tokens : ∀ {rest}, Stops rest → tokens (text.toList ++ rest) = (tokens rest).map (ts ++ ·)
  front : ∃ c cs, text.toList = c :: cs ∧ c ≠ '='

variable {text other : String} {ts us : List Token} {rest : List Char}

/-- A text that is scanned has its tokens alone. -/
theorem Scans.tokens_eq (h : Scans text ts) : Script.tokens text.toList = some ts := by
  have heq := h.tokens stops_nil
  rwa [List.append_nil, tokens_nil, Option.map_some, List.append_nil] at heq

theorem tokens_open (rest : List Char) :
    Script.tokens ('(' :: rest) = (Script.tokens rest).map (.sign "(" :: ·) :=
  tokens_sign "(" '(' [] rfl rfl rfl rfl

theorem tokens_close (rest : List Char) :
    Script.tokens (')' :: rest) = (Script.tokens rest).map (.sign ")" :: ·) :=
  tokens_sign ")" ')' [] rfl rfl rfl rfl

/-- A word does not begin with a digit. -/
theorem not_isDigit_of_isWordStart {c : Char} (h : isWordStart c = true) : c.isDigit = false := by
  rw [← Bool.not_eq_true]
  intro hdigit
  have hother := of_isDigit (p := fun d => !isWordStart d) rfl hdigit
  rw [h] at hother
  cases hother

/-- A word begins with the start of one. -/
theorem toList_of_isWord (h : isWord text = true) :
    ∃ c cs, text.toList = c :: cs ∧ isWordStart c = true := by
  unfold isWord at h
  split at h
  next c cs htext => exact ⟨c, cs, htext, (Bool.and_eq_true_iff.1 h).1⟩
  · cases h

/-- The point before a word. -/
theorem tokens_point (h : isWord text = true) (rest : List Char) :
    Script.tokens ('.' :: (text.toList ++ rest)) =
      (Script.tokens (text.toList ++ rest)).map (.sign "." :: ·) := by
  obtain ⟨c, cs, htext, hstart⟩ := toList_of_isWord h
  have hpoint : ('.' == c) = false := by
    rw [beq_eq_false_iff_ne]
    rintro rfl
    cases hstart
  rw [htext, List.cons_append]
  refine tokens_sign "." '.' [] rfl rfl ?_ ?_
  · simp [startsNumeral, not_isDigit_of_isWordStart hstart]
  · simp [sign?, signs, List.isPrefixOf, hpoint]

/-- An operator between two values, before a blank. -/
theorem tokens_binarySign (operator : BinaryOperator) (rest : List Char) :
    Script.tokens (operator.sign.toList ++ ' ' :: rest) =
      (Script.tokens (' ' :: rest)).map (.sign operator.sign :: ·) := by
  cases operator <;> exact tokens_sign _ _ _ rfl rfl rfl rfl

/-- An operator before a value grows over an equals sign, and one over itself. -/
theorem tokens_unarySign {operator : UnaryOperator} {c : Char} (heq : c ≠ '=')
    (hsame : operator = .minus → c ≠ '-') (hplus : operator ≠ .plus) (rest : List Char) :
    Script.tokens (operator.sign.toList ++ c :: rest) =
      (Script.tokens (c :: rest)).map (.sign operator.sign :: ·) := by
  have hequals : ('=' == c) = false := by simpa using Ne.symm heq
  cases operator with
  | not => exact tokens_sign "!" '!' [] rfl rfl rfl (by simp [sign?, signs, List.isPrefixOf, hequals])
  | complement => exact tokens_sign "~" '~' [] rfl rfl rfl rfl
  | minus =>
    have hminus : ('-' == c) = false := by simpa using Ne.symm (hsame rfl)
    exact tokens_sign "-" '-' [] rfl rfl rfl
      (by simp [sign?, signs, List.isPrefixOf, hequals, hminus])
  | plus => exact absurd rfl hplus

/-- The text of a path. -/
def pathChars (head : String) (members : List String) : List Char :=
  head.toList ++ members.flatMap fun text => '.' :: text.toList

/-- A path of words that can be read. -/
structure IsPath (head : String) (members : List String) : Prop where
  word : isWord head = true
  reserved : reservedWords.contains head = false
  members : ∀ text ∈ members, isWord text = true

/-- No word goes on where the members of a path start. -/
theorem members_head (members : List String) (hrest : ∀ c ∈ rest.head?, isWordPart c = false) :
    ∀ c ∈ (members.flatMap (fun text => '.' :: text.toList) ++ rest).head?,
      isWordPart c = false := by
  cases members with
  | nil => exact hrest
  | cons _ _ =>
    rintro c hc
    cases hc
    rfl

/-- Members are scanned as dots and words. -/
theorem tokens_members {members : List String} (h : ∀ text ∈ members, isWord text = true)
    (hrest : ∀ c ∈ rest.head?, isWordPart c = false) :
    Script.tokens (members.flatMap (fun text => '.' :: text.toList) ++ rest) =
      (Script.tokens rest).map
        (members.flatMap (fun text => [Token.sign ".", Token.word text]) ++ ·) := by
  induction members with
  | nil => simp
  | cons text more ih =>
    obtain ⟨hword, hmore⟩ := List.forall_mem_cons.1 h
    rw [List.flatMap_cons, List.cons_append, List.cons_append, List.append_assoc, tokens_point hword,
      tokens_word hword (members_head more hrest), ih hmore]
    simp [Function.comp_def]

/-- A path is scanned as its head and its members. -/
theorem tokens_path {head : String} {members : List String} (h : IsPath head members)
    (hrest : ∀ c ∈ rest.head?, isWordPart c = false) :
    Script.tokens (pathChars head members ++ rest) =
      (Script.tokens rest).map (pathTokens head members ++ ·) := by
  rw [pathChars, List.append_assoc, tokens_word h.word (members_head members hrest),
    tokens_members h.members hrest]
  simp [pathTokens, Function.comp_def]

/-- So is the text of one. -/
theorem Scans.ofPath {head : String} {members : List String} (h : IsPath head members)
    (htext : text.toList = pathChars head members) : Scans text (pathTokens head members) where
  tokens hrest := by
    rw [htext]
    exact tokens_path h (hrest.head (by decide))
  front := by
    obtain ⟨c, cs, hhead, hstart⟩ := toList_of_isWord h.word
    refine ⟨c, cs ++ members.flatMap fun text => '.' :: text.toList, ?_, ?_⟩
    · rw [htext, pathChars, hhead, List.cons_append]
    · rintro rfl
      cases hstart

/-- A numeral is one token. -/
theorem scans_number (h : isNumeral text = true) : Scans text [.number text] where
  tokens hrest := tokens_number h hrest
  front := by
    obtain ⟨hstart, -⟩ := Bool.and_eq_true_iff.1 h
    cases htext : text.toList with
    | nil =>
      rw [htext] at hstart
      cases hstart
    | cons c cs =>
      refine ⟨c, cs, rfl, ?_⟩
      rintro rfl
      rw [htext] at hstart
      cases hstart

/-- Line breaks before a text part nothing. -/
theorem Scans.breaks (h : Scans text ts) (here there : Nat) :
    Scans (CommentQueue.breaks here there ++ text) ts := by
  have hall : ∀ n, Scans (String.ofList (List.replicate n '\n') ++ text) ts := by
    intro n
    induction n with
    | zero => simpa using h
    | succ n ih =>
      refine ⟨fun {rest} hrest => ?_, '\n', List.replicate n '\n' ++ text.toList,
        by simp [List.replicate_succ], by decide⟩
      have heq := ih.tokens hrest
      simp only [String.toList_append, String.toList_ofList] at heq
      rw [String.toList_append, String.toList_ofList, List.replicate_succ, List.cons_append,
        List.cons_append, tokens_blank (by decide), heq]
  exact hall _

/-- A sign is scanned apart from its operand, unless both are minus. -/
theorem Scans.unary (operator : UnaryOperator) (h : Scans text ts) (hplus : operator ≠ .plus)
    (hminus : operator = .minus → Text.startsWith text "-" = false) :
    Scans (operator.sign ++ text) (.sign operator.sign :: ts) := by
  obtain ⟨c, cs, htext, hc⟩ := h.front
  have hsame : operator = .minus → c ≠ '-' := by
    rintro heq rfl
    have hstart := hminus heq
    rw [Text.startsWith, htext] at hstart
    cases hstart
  refine ⟨fun {rest} hrest => ?_, ?_⟩
  · have htokens := h.tokens hrest
    rw [String.toList_append, List.append_assoc, htext, List.cons_append,
      tokens_unarySign hc hsame hplus, ← List.cons_append, ← htext, htokens]
    simp [Function.comp_def]
  · cases operator <;> exact ⟨_, _, String.toList_append, by decide⟩

/-- A text in parentheses, before anything. -/
theorem Scans.parens (h : Scans text ts) (rest : List Char) :
    Script.tokens ((Emit.parens text).toList ++ rest) =
      (Script.tokens rest).map (.sign "(" :: (ts ++ [.sign ")"]) ++ ·) := by
  have hinner := h.tokens (stops_cons (by decide) rest : Stops (')' :: rest))
  simp only [Emit.parens, String.toList_append, List.append_assoc, List.cons_append,
    List.nil_append, String.reduceToList]
  rw [tokens_open, hinner, tokens_close]
  simp [Function.comp_def]

/-- Two texts and an operator in parentheses, before anything. -/
theorem Scans.binary (operator : BinaryOperator) (h : Scans text ts) (h' : Scans other us)
    (rest : List Char) :
    Script.tokens ((Emit.parens (text ++ " " ++ operator.sign ++ " " ++ other)).toList ++ rest) =
      (Script.tokens rest).map
        (.sign "(" :: (ts ++ .sign operator.sign :: (us ++ [.sign ")"])) ++ ·) := by
  have hright := h'.tokens (stops_cons (by decide) rest : Stops (')' :: rest))
  have hleft := h.tokens (stops_cons (by decide) _ :
    Stops (' ' :: (operator.sign.toList ++ ' ' :: (other.toList ++ ')' :: rest))))
  simp only [Emit.parens, String.toList_append, List.append_assoc, List.cons_append,
    List.nil_append, String.reduceToList]
  rw [tokens_open, hleft, tokens_blank (by decide), tokens_binarySign, tokens_blank (by decide),
    hright, tokens_close]
  simp [Function.comp_def]

/-- Brackets are scanned around a text. -/
theorem Scans.grouped (h : Scans text ts) :
    Scans (Emit.parens text) (.sign "(" :: (ts ++ [.sign ")"])) where
  tokens {rest} _ := h.parens rest
  front := ⟨'(', text.toList ++ [')'], by simp [Emit.parens], by decide⟩

/-- Operands are scanned apart, for blanks stand between them and the sign. -/
theorem Scans.groupedBinary (operator : BinaryOperator) (h : Scans text ts) (h' : Scans other us) :
    Scans (Emit.parens (text ++ " " ++ operator.sign ++ " " ++ other))
      (.sign "(" :: (ts ++ .sign operator.sign :: (us ++ [.sign ")"]))) where
  tokens {rest} _ := h.binary operator h' rest
  front := ⟨'(', (text ++ " " ++ operator.sign ++ " " ++ other).toList ++ [')'],
    by simp [Emit.parens], by decide⟩

/-- A call of a path with what its parentheses hold. -/
theorem scans_call {head : String} {members : List String} (h : IsPath head members)
    (htext : text.toList = pathChars head members) {argument : String}
    (hargument : ∀ rest, Script.tokens ((Emit.parens argument).toList ++ rest) =
      (Script.tokens rest).map (ts ++ ·)) :
    Scans (text ++ Emit.parens argument) (pathTokens head members ++ ts) where
  tokens {rest} _ := by
    have hhead : ∀ c ∈ ((Emit.parens argument).toList ++ rest).head?, isWordPart c = false := by
      rw [Emit.parens, String.toList_append, String.toList_append]
      rintro c hc
      cases hc
      rfl
    rw [String.toList_append, htext, List.append_assoc, tokens_path h hhead, hargument]
    simp [Function.comp_def]
  front := by
    obtain ⟨c, cs, heq, hc⟩ := (Scans.ofPath h htext).front
    exact ⟨c, cs ++ (Emit.parens argument).toList, by rw [String.toList_append, heq]; rfl, hc⟩

end Script

namespace Emit

/-! ## The mirror of an expression -/

variable {ctx : Context}

/-- What a reference to a name is in generated code. -/
def nameMirror (ctx : Context) (name : String) : Expression :=
  match ctx.receiver.filter (·.name == name) with
  | some receiver => path (if receiver.depth == ctx.functionDepth then "this" else receiverAlias) []
  | none =>
    if ctx.isLibrary name || name == "typeof" then path "l2j" [name]
    else path (Name.asBinding name) []

/-- JavaScript's operator for an operator between two values. Both sums and concatenations are sums,
and floor division is a quotient that is rounded. -/
def operatorMirror : BinaryOperator → Script.BinaryOperator
  | .add | .concat => .plus
  | .sub => .minus
  | .mul => .times
  | .div | .floorDiv => .divide
  | .mod => .remainder
  | .pow => .power
  | .eq => .strictEqual
  | .ne => .strictUnequal
  | .lt => .less
  | .le => .lessEqual
  | .gt => .greater
  | .ge => .greaterEqual
  | .bitAnd => .and
  | .bitOr => .or
  | .bitXor => .xor
  | .shiftLeft => .shiftLeft
  | .shiftRight => .shiftRight

/-- The mirror of an operator between two values. -/
def binaryMirror (operator : BinaryOperator) (left right : Expression) : Expression :=
  let quotient := .binary (operatorMirror operator) left right
  if operator = .floorDiv then .call (path "Math" ["floor"]) quotient else quotient

/-- The mirror of an operator before a value. -/
def unaryMirror : UnaryOperator → Expression → Expression
  | .not, argument => .unary .not argument
  | .neg, argument => .unary .minus argument
  | .bitNot, argument => .unary .complement argument
  | .len, argument => .call (path "l2j" ["table", "length"]) argument

/-- **The tree that mirrors an expression** of names, numerals that carry over, and operators. -/
inductive Mirrors (ctx : Context) : Expr → Expression → Prop
  | name (id : NodeId) (span : Span) {name : String} (h : Name.isValid name = true) :
    Mirrors ctx ⟨id, span, .name name⟩ (nameMirror ctx (ctx.annotations.resolve id name))
  | number (id : NodeId) (span : Span) {value : Binary64.Magnitude} {raw : String}
    (hvalue : Numeral.value? raw.toList = some value) (h : Script.isPortable value raw = true) :
    Mirrors ctx ⟨id, span, .number value raw⟩ (.number (Numeral.script value raw))
  | unary (id : NodeId) (span : Span) (operator : UnaryOperator) {argument : Expr}
    {tree : Expression} (h : Mirrors ctx argument tree) :
    Mirrors ctx ⟨id, span, .unary operator argument⟩ (unaryMirror operator tree)
  | binary (id : NodeId) (span : Span) (operator : BinaryOperator) {left right : Expr}
    {first second : Expression} (hleft : Mirrors ctx left first)
    (hright : Mirrors ctx right second) :
    Mirrors ctx ⟨id, span, .binary operator left right⟩ (binaryMirror operator first second)

/-! ## Lowering -/

/-- A lowering writes a tree: without comments waiting, its text has tokens of the tree. -/
def Writes (node : Emit String) (tree : Expression) : Prop :=
  ∀ p, p.comments.waiting = [] →
    (∃ ts, Written tree ts ∧ Script.Scans (node.run p).1 ts) ∧
      (node.run p).2.comments.waiting = []

variable {tree first second : Expression} {node other : Emit String}

/-- Without comments there are only line breaks around a node. -/
theorem Writes.around (h : Writes node tree) (span : Span) : Writes (around span node) tree := by
  intro p hp
  obtain ⟨⟨waiting, lastLine⟩, registries, classes, failures, captured⟩ := p
  subst hp
  obtain ⟨⟨ts, hts, hscans⟩, hwaiting⟩ := h
    ⟨⟨[], max lastLine span.start.line⟩, registries, classes, failures, captured⟩ rfl
  have hrun : ((Emit.around span node).run
      ⟨⟨[], lastLine⟩, registries, classes, failures, captured⟩) =
      let inner := node.run ⟨⟨[], max lastLine span.start.line⟩, registries, classes, failures, captured⟩
      let after := inner.2.comments.after span
      (CommentQueue.breaks (lastLine + 1) span.start.line ++ inner.1 ++ after.1,
        { inner.2 with comments := after.2 }) := rfl
  rw [hrun]
  simp only [CommentQueue.after, hwaiting]
  refine ⟨⟨ts, hts, ?_⟩, rfl⟩
  simpa [CommentQueue.lines] using hscans.breaks (lastLine + 1) span.start.line

/-- A text put together from the text of another lowering. -/
theorem Writes.map {f : String → String} (h : Writes node first)
    (hf : ∀ text ts, Written first ts → Script.Scans text ts →
      ∃ us, Written tree us ∧ Script.Scans (f text) us) :
    Writes (do return f (← node)) tree := by
  intro p hp
  obtain ⟨⟨ts, hts, hscans⟩, hwaiting⟩ := h p hp
  exact ⟨hf _ ts hts hscans, hwaiting⟩

/-- A text put together from the texts of two other lowerings. -/
theorem Writes.map₂ {f : String → String → String} (h : Writes node first)
    (h' : Writes other second)
    (hf : ∀ text ts text' us, Written first ts → Script.Scans text ts → Written second us →
      Script.Scans text' us → ∃ vs, Written tree vs ∧ Script.Scans (f text text') vs) :
    Writes (do return f (← node) (← other)) tree := by
  intro p hp
  obtain ⟨⟨ts, hts, hscans⟩, hwaiting⟩ := h p hp
  obtain ⟨⟨us, hus, hscans'⟩, hwaiting'⟩ := h' _ hwaiting
  exact ⟨hf _ ts _ us hts hscans hus hscans', hwaiting'⟩

/-! ### Names -/

/-- An identifier is a word. -/
theorem isWord_of_isValid {name : String} (h : Name.isValid name = true) : isWord name = true := by
  unfold Name.isValid at h
  unfold isWord
  split at h
  · cases h
  next c cs hname =>
    simp only [Bool.and_eq_true, Bool.or_eq_true, beq_iff_eq, List.all_eq_true] at h
    obtain ⟨⟨hfirst, hrest⟩, -⟩ := h
    rw [hname]
    simp only [isWordStart, isWordPart, Bool.and_eq_true, Bool.or_eq_true, beq_iff_eq,
      List.all_eq_true]
    exact ⟨.inl hfirst, fun d hd => .inl (hrest d hd)⟩

/-- And no keyword. -/
theorem Name.not_keyword {name : String} (h : Name.isValid name = true) :
    ¬ Keyword.all.any (·.text == name) = true := by
  unfold Name.isValid at h
  split at h
  · cases h
  · have hnone := (Bool.and_eq_true_iff.1 h).2
    rw [List.all_eq_true] at hnone
    rw [List.any_eq_true]
    rintro ⟨word, hmem, heq⟩
    have hne := hnone word hmem
    rw [bne, heq] at hne
    cases hne

/-- The spelling of a word that JavaScript reserves is a word that it does not. -/
theorem isPath_asBinding {name : String} (h : Name.isValid name = true) (htypeof : name ≠ "typeof") :
    Script.IsPath (Name.asBinding name) [] := by
  have hfixed : ∀ entry ∈ Name.fixedSpellings,
      isWord entry.2 = true ∧ Script.reservedWords.contains entry.2 = false := by decide +kernel
  have hreserved : ∀ word ∈ Name.reservedWords, isWord ("_" ++ word) = true ∧
      Script.reservedWords.contains ("_" ++ word) = false := by decide +kernel
  -- each reserved word is an operator, a keyword of Lua, or respelled by one of the two tables
  have hall : ∀ word ∈ Script.reservedWords, word = "typeof" ∨
      Keyword.all.any (·.text == word) = true ∨ (Name.fixedSpellings.lookup word).isSome = true ∨
      Name.reservedWords.contains word = true := by decide +kernel
  have hplain : Name.fixedSpellings.lookup name = none → Name.reservedWords.contains name = false →
      Script.reservedWords.contains name = false := by
    intro hlookup hword
    rw [← Bool.not_eq_true, List.contains_iff_mem]
    intro hmem
    rcases hall name hmem with heq | hkeyword | hspelling | hcontains
    · exact htypeof heq
    · exact Name.not_keyword h hkeyword
    · simp [hlookup] at hspelling
    · rw [hcontains] at hword
      cases hword
  have hboth : isWord (Name.asBinding name) = true ∧
      Script.reservedWords.contains (Name.asBinding name) = false := by
    unfold Name.asBinding
    rw [if_neg htypeof]
    split
    next spelling hlookup =>
      obtain ⟨before, behind, heq, -⟩ := List.lookup_eq_some_iff.1 hlookup
      exact hfixed (name, spelling) (by simp [heq])
    next hlookup =>
      split
      next hword => exact hreserved name (by simpa using hword)
      next hword => exact ⟨isWord_of_isValid h, hplain hlookup (by simpa using hword)⟩
  exact ⟨hboth.1, hboth.2, fun _ hmem => absurd hmem List.not_mem_nil⟩

/-- A path is written as it is scanned. -/
theorem exists_written_path {head text : String} {members : List String}
    (h : Script.IsPath head members) (htext : text.toList = Script.pathChars head members) :
    ∃ ts, Written (path head members) ts ∧ Script.Scans text ts :=
  ⟨_, .path _ _ h.reserved, .ofPath h htext⟩

/-- A reference is written as a path: the receiver, a member of `l2j`, or the name's spelling. -/
theorem writes_reference {name : String} (h : Name.isValid name = true) :
    Writes (reference ctx name) (nameMirror ctx name) := by
  have hlibrary : ∀ library ∈ "typeof" :: Name.systemLibraries,
      Script.IsPath "l2j" [library] := by
    intro library hmem
    have hword : ∀ library ∈ "typeof" :: Name.systemLibraries, isWord library = true := by
      decide +kernel
    exact ⟨by decide, by decide, List.forall_mem_singleton.2 (hword library hmem)⟩
  unfold reference nameMirror
  cases ctx.receiver.filter (·.name == name) with
  | some receiver =>
    -- the receiver is written in its own method as `this`, and further in by its alias
    have hthis : ∃ ts, Written (path "this" []) ts ∧ Script.Scans "this" ts :=
      exists_written_path ⟨by decide, by decide, by simp⟩ (by decide)
    have halias : ∃ ts, Written (path receiverAlias []) ts ∧ Script.Scans receiverAlias ts :=
      exists_written_path ⟨by decide, by decide, by simp⟩ (by decide)
    dsimp only
    cases receiver.depth == ctx.functionDepth with
    | true => exact fun p hp => ⟨hthis, hp⟩
    | false => exact fun p hp => ⟨halias, hp⟩
  | none =>
    -- a library is written behind `l2j`, and so is a name that JavaScript takes for an operator
    have hscans : ∃ ts, Written (if ctx.isLibrary name || name == "typeof" then path "l2j" [name]
        else path (Name.asBinding name) []) ts ∧
        Script.Scans (if ctx.isLibrary name then "l2j." ++ name else Name.asBinding name) ts := by
      by_cases hisLibrary : ctx.isLibrary name = true
      · have hmem : name ∈ Name.systemLibraries := by
          simpa [Name.isSystemLibrary] using (Bool.and_eq_true_iff.1 hisLibrary).1
        rw [hisLibrary, Bool.true_or, if_pos rfl, if_pos rfl]
        exact exists_written_path (hlibrary name (List.mem_cons_of_mem _ hmem))
          (by simp [Script.pathChars])
      · rw [if_neg hisLibrary]
        by_cases htypeof : name = "typeof"
        · subst htypeof
          rw [if_pos (by simp)]
          exact exists_written_path (hlibrary "typeof" (by simp)) (by decide)
        · rw [if_neg (by simp [hisLibrary, htypeof])]
          exact exists_written_path (isPath_asBinding h htypeof) (by simp [Script.pathChars])
    exact fun p hp => ⟨hscans, hp⟩

/-! ### Operators -/

theorem operatorSign_eq (operator : BinaryOperator) :
    operatorSign operator = (operatorMirror operator).sign := by
  cases operator <;> rfl

variable {text text' : String} {ts us : List Script.Token}

/-- A sign and its operand are written in brackets of their own. -/
theorem exists_written_unary (hmode : ctx.operatorMode = false) (operator : UnaryOperator)
    (h : Written first ts) (hscans : Script.Scans text ts) :
    ∃ us, Written (unaryMirror operator first) us ∧
      Script.Scans (unaryText ctx operator text) us := by
  cases operator with
  | not => exact ⟨_, .unary .not h, hscans.unary .not (by decide) (fun h => nomatch h)⟩
  | bitNot => exact ⟨_, .unary .complement h, hscans.unary .complement (by decide) (fun h => nomatch h)⟩
  | neg =>
    rw [unaryText, hmode, if_neg (by decide)]
    split
    · refine ⟨_, .unaryGrouped .minus h, hscans.grouped.unary .minus (by decide) fun _ => ?_⟩
      simp [Text.startsWith, parens, List.isPrefixOf]
    next hstart =>
      exact ⟨_, .unary .minus h, hscans.unary .minus (by decide) fun _ => by simpa using hstart⟩
  | len =>
    refine ⟨_, .call "l2j" ["table", "length"] (by decide) h, ?_⟩
    have hpath : Script.IsPath "l2j" ["table", "length"] := ⟨by decide, by decide, by decide⟩
    have hcall : unaryText ctx .len text = "l2j.table.length" ++ parens text := by
      simp [unaryText, callText, commas, String.intercalate_singleton]
    rw [hcall]
    exact Script.scans_call hpath (by decide) hscans.parens

/-- An operator is written in brackets, or as a call. -/
theorem exists_written_binary (hmode : ctx.operatorMode = false) (operator : BinaryOperator)
    (hasString : Bool) (h : Written first ts) (hscans : Script.Scans text ts)
    (h' : Written second us) (hscans' : Script.Scans text' us) :
    ∃ vs, Written (binaryMirror operator first second) vs ∧
      Script.Scans (binaryText ctx operator hasString text text') vs := by
  have hnative : binaryText ctx operator hasString text text' =
      nativeBinary operator text text' := by
    rw [binaryText, hmode]
    rfl
  rw [hnative, binaryMirror]
  -- a floored quotient is a call around the calculation, the others are in brackets
  by_cases hfloor : operator = .floorDiv
  · subst hfloor
    rw [if_pos rfl]
    refine ⟨_, .callBinary "Math" ["floor"] (by decide) .divide h h', ?_⟩
    have hpath : Script.IsPath "Math" ["floor"] := ⟨by decide, by decide, by decide⟩
    have hcall : nativeBinary .floorDiv text text' =
        "Math.floor" ++ parens (text ++ " " ++ Script.BinaryOperator.divide.sign ++ " " ++ text') := by
      simp [nativeBinary, Script.BinaryOperator.sign, String.append_assoc]
    rw [hcall]
    exact Script.scans_call hpath (by decide) (hscans.binary .divide hscans')
  · rw [if_neg hfloor]
    refine ⟨_, .binary (operatorMirror operator) h h', ?_⟩
    have hparens : nativeBinary operator text text' =
        parens (text ++ " " ++ (operatorMirror operator).sign ++ " " ++ text') := by
      rw [← operatorSign_eq]
      cases operator <;> first | rfl | exact absurd rfl hfloor
    rw [hparens]
    exact hscans.groupedBinary _ hscans'

/-- **The text of an expression has tokens of its mirror.** -/
theorem writes_expression (hmode : ctx.operatorMode = false)
    (hnames : ∀ id name, Name.isValid name = true →
      Name.isValid (ctx.annotations.resolve id name) = true) {e : Expr} (h : Mirrors ctx e tree)
    (role : Role) : Writes (expression ctx role e) tree := by
  induction h generalizing role with
  | name id span h =>
    rw [expression, expressionKind]
    exact (writes_reference (hnames id _ h)).around span
  | number id span hvalue h =>
    rw [expression, expressionKind]
    refine Writes.around ?_ span
    have hnumeral := (Script.isNumeral_script hvalue).trans h
    exact fun p hp => ⟨⟨_, .number _, Script.scans_number hnumeral⟩, hp⟩
  | unary id span operator _ ih =>
    rw [expression, expressionKind]
    refine Writes.around (Writes.map (ih .single) fun text ts h hscans => ?_) span
    exact exists_written_unary hmode operator h hscans
  | binary id span operator _ _ ihleft ihright =>
    rw [expression, expressionKind]
    refine Writes.around (Writes.map₂ (ihleft _) (ihright _)
      fun text ts text' us h hscans h' hscans' => ?_) span
    exact exists_written_binary hmode operator _ h hscans h' hscans'

/-- **The text of an expression is read as its mirror**, if no power of the mirror has an operator
before a value as its base; if one has, the text is no expression. -/
theorem read_expression {e : Expr} {p : Progress} (role : Role) (hmode : ctx.operatorMode = false)
    (hnames : ∀ id name, Name.isValid name = true →
      Name.isValid (ctx.annotations.resolve id name) = true)
    (hcomments : p.comments.waiting = []) (h : Mirrors ctx e tree) :
    Expression.read ((expression ctx role e).run p).1 =
      if tree.isPlaced then some tree else none := by
  obtain ⟨⟨ts, hwritten, hscans⟩, -⟩ := writes_expression hmode hnames h role p hcomments
  rw [Expression.read, hscans.tokens_eq, Option.bind_some]
  exact Expression.ofTokens?_written hwritten

/-- `-(-a) // #b ^ -2`, with the minus signs grouped first. -/
def operatorSample : Expr :=
  node (.binary .floorDiv (node (.unary .neg (node (.unary .neg (node (.name "a"))))))
    (node (.binary .pow (node (.unary .len (node (.name "b"))))
      (node (.unary .neg (node (.number (.ofNat 2) "2")))))))
where
  /-- A node at the start of a text. -/
  node (kind : ExprKind) : Expr := ⟨0, ⟨.origin, .origin⟩, kind⟩

/-- The mirror of the sample. -/
def operatorSampleTree : Expression :=
  .call (path "Math" ["floor"]) (.binary .divide (.unary .minus (.unary .minus (.name "a")))
    (.binary .power (.call (path "l2j" ["table", "length"]) (.name "b"))
      (.unary .minus (.number "2"))))

theorem read_operatorSample :
    let ctx : Context := { options := {}, annotations := {}, fileName := "m", operatorMode := false }
    let p : Progress := { comments := ⟨[], 0⟩, registries := .empty }
    Mirrors ctx operatorSample operatorSampleTree ∧
      Expression.read ((expression ctx .single operatorSample).run p).1 =
        some operatorSampleTree := by
  intro ctx p
  have hnames : ∀ id name, Name.isValid name = true →
      Name.isValid (ctx.annotations.resolve id name) = true := by
    intro id name h
    have hresolve : ctx.annotations.resolve id name = name := by
      simp [ctx, Scope.Annotations.resolve]
    rw [hresolve]
    exact h
  have hmirror : Mirrors ctx operatorSample operatorSampleTree :=
    .binary _ _ .floorDiv (.unary _ _ .neg (.unary _ _ .neg (.name _ _ (by decide))))
      (.binary _ _ .pow (.unary _ _ .len (.name _ _ (by decide)))
        (.unary _ _ .neg (.number _ _ (by decide +kernel) (by decide))))
  exact ⟨hmirror, read_expression .single rfl hnames rfl hmirror⟩

-- the base of a power stays without parentheses
example : Expression.read "(-a ** 2)" = none := by decide +kernel

-- a spare zero stays in front, and a number that is not finite has no numeral
example : Script.isPortable (.ofNat 10) "010" = false ∧ Script.isPortable .infinite "0x1p99999" = false := by
  decide +kernel

end Emit

end LuaCompiler
