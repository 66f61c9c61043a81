import LuaCompiler.Numeral
import Mathlib.Data.List.TakeWhile

/-!
# Reading an expression of a script

An expression of JavaScript made of names, numerals, members, calls of one argument, parentheses and
operators, read as the language reads it. The longest sign is a token; a decimal numeral has no
spare zero in front; the operators have their levels, all but the power group to the left, and the
base of a power is no operator before a value.

* `tokens`: the tokens of a text, with `tokens_word`, `tokens_number` and `tokens_sign` for its front.
* `isBindable`: the words that strict code binds.
* `Expression.read`: the expression that a text is, if it is one.
* `Expression.isPlaced`: whether every operator may stand where it stands.
-/

namespace LuaCompiler.Script

/-! ## Tokens -/

/-- A token of an expression. -/
inductive Token where
  | word (text : String)
  | number (text : String)
  | sign (text : String)
deriving DecidableEq

/-- Whether a character parts tokens. -/
def isBlank (c : Char) : Bool := c == ' ' || c == '\t' || c == '\n' || c == '\r'

/-- Whether a character starts a word. -/
def isWordStart (c : Char) : Bool := c.isAlpha || c == '_' || c == '$'

/-- Whether a character goes on with a word. -/
def isWordPart (c : Char) : Bool := c.isAlphanum || c == '_' || c == '$'

/-- The signs, longer ones first. -/
def signs : List String :=
  [">>>=", "===", "!==", ">>>", "**=", "<<=", ">>=", "&&=", "||=", "??=", "...",
    "=>", "==", "!=", "<=", ">=", "&&", "||", "??", "?.", "++", "--", "+=", "-=", "*=", "/=", "%=",
    "&=", "|=", "^=", "<<", ">>", "**",
    "\x7b", "\x7d", "(", ")", "[", "]", ".", ";", ",", "<", ">", "+", "-", "*", "/", "%", "&", "|",
    "^", "!", "~", "?", ":", "="]

/-- The sign at the front of a text; a comment is none. -/
def sign? (text : List Char) : Option String :=
  if ['/', '/'].isPrefixOf text || ['/', '*'].isPrefixOf text then none
  else signs.find? fun s => s.toList.isPrefixOf text

/-- What follows the digits of an exponent. -/
def behindDigits : List Char → Option (List Char)
  | c :: cs => if c.isDigit then some (cs.dropWhile Char.isDigit) else none
  | [] => none

/-- A text without the sign at its front. -/
def withoutSign : List Char → List Char
  | c :: cs => if c == '+' || c == '-' then cs else c :: cs
  | [] => []

/-- What follows an exponent, if there is one. -/
def behindExponent : List Char → Option (List Char)
  | c :: cs => if c == 'e' || c == 'E' then behindDigits (withoutSign cs) else some (c :: cs)
  | [] => some []

/-- Whether digits have a zero in front that they do not need. -/
def hasSpareZero : List Char → Bool
  | '0' :: _ :: _ => true
  | _ => false

/-- What follows the numeral at the front of a text. -/
def behindNumeral (text : List Char) : Option (List Char) :=
  match Numeral.hexDigits? text with
  | some digits =>
    if (digits.takeWhile Numeral.isHexDigit).isEmpty then none
    else some (digits.dropWhile Numeral.isHexDigit)
  | none =>
    let whole := text.takeWhile Char.isDigit
    let (places, rest) := Numeral.fraction (text.dropWhile Char.isDigit)
    if whole.isEmpty && places.isEmpty || hasSpareZero whole then none else behindExponent rest

/-- Whether a numeral stands at the front of a text. -/
def startsNumeral : List Char → Bool
  | c :: cs => c.isDigit || (c == '.' && cs.head?.any Char.isDigit)
  | [] => false

/-- Whether a text is a numeral. -/
def isNumeral (text : String) : Bool :=
  startsNumeral text.toList && behindNumeral text.toList == some []

/-- The token at the front of a text, and how many characters behind its first one it has. No word
follows a numeral directly. -/
def token? (c : Char) (cs : List Char) : Option (Token × Nat) :=
  if isWordStart c then
    let more := cs.takeWhile isWordPart
    some (.word (String.ofList (c :: more)), more.length)
  else if startsNumeral (c :: cs) then
    match behindNumeral (c :: cs) with
    | some rest =>
      let more := cs.length - rest.length
      if rest.head?.any isWordPart then none
      else some (.number (String.ofList (c :: cs.take more)), more)
    | none => none
  else (sign? (c :: cs)).map fun s => (.sign s, s.length - 1)

/-- The tokens of a text. -/
def tokens : List Char → Option (List Token)
  | [] => some []
  | c :: cs =>
    if isBlank c then tokens cs
    else
      match token? c cs with
      | some (token, more) => (tokens (cs.drop more)).map (token :: ·)
      | none => none
termination_by text => text.length
decreasing_by
  · simp
  · simp only [List.length_drop, List.length_cons]
    omega

/-! ### Tokens of a text in parts -/

/-- The characters that end a token before them. -/
def stops : List Char := [' ', '\t', '\n', '\r', ')']

/-- Whether what follows a text ends its last token. -/
def Stops (rest : List Char) : Prop := ∀ c ∈ rest.head?, c ∈ stops

theorem stops_nil : Stops [] := fun _ h => nomatch h

theorem stops_cons {c : Char} (h : c ∈ stops) (rest : List Char) : Stops (c :: rest) := by
  intro d hd
  cases hd
  exact h

variable {rest : List Char}

theorem takeWhile_append_of_stops {p : Char → Bool} (hp : ∀ c ∈ rest.head?, p c = false)
    (text : List Char) : (text ++ rest).takeWhile p = text.takeWhile p := by
  induction text with
  | nil =>
    cases rest with
    | nil => rfl
    | cons c cs => exact List.takeWhile_cons_of_neg (by simp [hp c rfl])
  | cons c cs ih => rw [List.cons_append, List.takeWhile_cons, List.takeWhile_cons, ih]

theorem dropWhile_append_of_stops {p : Char → Bool} (hp : ∀ c ∈ rest.head?, p c = false)
    (text : List Char) : (text ++ rest).dropWhile p = text.dropWhile p ++ rest := by
  induction text with
  | nil =>
    cases rest with
    | nil => rfl
    | cons c cs => exact List.dropWhile_cons_of_neg (by simp [hp c rfl])
  | cons c cs ih =>
    rw [List.cons_append, List.dropWhile_cons, List.dropWhile_cons, ih]
    split <;> rfl

/-- A property that no end of a token has does not hold of what follows. -/
theorem Stops.head {p : Char → Bool} (h : Stops rest) (hp : stops.any p = false) :
    ∀ c ∈ rest.head?, p c = false := by
  intro c hc
  simpa using List.any_eq_false.mp hp c (h c hc)

theorem behindDigits_append (h : Stops rest) (text : List Char) :
    behindDigits (text ++ rest) = (behindDigits text).map (· ++ rest) := by
  have hdigit := h.head (p := Char.isDigit) rfl
  cases text with
  | nil =>
    cases rest with
    | nil => rfl
    | cons c cs => simp [behindDigits, hdigit c rfl]
  | cons c cs =>
    rw [List.cons_append, behindDigits, behindDigits, dropWhile_append_of_stops hdigit]
    split <;> rfl

theorem withoutSign_append (h : Stops rest) (text : List Char) :
    withoutSign (text ++ rest) = withoutSign text ++ rest := by
  have hsign := h.head (p := fun c => c == '+' || c == '-') rfl
  cases text with
  | nil =>
    cases rest with
    | nil => rfl
    | cons c cs => exact if_neg (by simp [hsign c rfl])
  | cons c cs =>
    rw [List.cons_append, withoutSign, withoutSign]
    split <;> rfl

theorem behindExponent_append (h : Stops rest) (text : List Char) :
    behindExponent (text ++ rest) = (behindExponent text).map (· ++ rest) := by
  have hmark := h.head (p := fun c => c == 'e' || c == 'E') rfl
  cases text with
  | nil =>
    cases rest with
    | nil => rfl
    | cons c cs => exact if_neg (by simp [hmark c rfl])
  | cons c cs =>
    rw [List.cons_append, behindExponent, behindExponent, withoutSign_append h,
      behindDigits_append h]
    split <;> rfl

theorem fraction_append (h : Stops rest) (text : List Char) :
    Numeral.fraction (text ++ rest) =
      ((Numeral.fraction text).1, (Numeral.fraction text).2 ++ rest) := by
  have hpoint := h.head (p := (· == '.')) rfl
  have hdigit := h.head (p := Char.isDigit) rfl
  cases text with
  | nil =>
    cases rest with
    | nil => rfl
    | cons c cs =>
      unfold Numeral.fraction
      split
      next heq =>
        cases heq
        exact absurd (hpoint '.' rfl) (by decide)
      · rfl
  | cons c cs =>
    unfold Numeral.fraction
    by_cases hc : c = '.'
    · subst hc
      simp only [List.cons_append, takeWhile_append_of_stops hdigit,
        dropWhile_append_of_stops hdigit]
    · simp [hc]

theorem hexDigits_append (h : Stops rest) (text : List Char) :
    Numeral.hexDigits? (text ++ rest) = (Numeral.hexDigits? text).map (· ++ rest) := by
  -- what follows starts with none of the characters of the mark
  have hmark := h.head (p := fun c => c == '0' || c == 'x' || c == 'X') rfl
  match text with
  | [] =>
    cases rest with
    | nil => rfl
    | cons c cs =>
      unfold Numeral.hexDigits?
      split
      next heq => cases heq; exact absurd (hmark '0' rfl) (by decide)
      next heq => cases heq; exact absurd (hmark '0' rfl) (by decide)
      · rfl
  | [c] =>
    unfold Numeral.hexDigits?
    split
    next heq =>
      obtain ⟨-, rfl⟩ := List.cons.inj heq
      exact absurd (hmark 'x' rfl) (by decide)
    next heq =>
      obtain ⟨-, rfl⟩ := List.cons.inj heq
      exact absurd (hmark 'X' rfl) (by decide)
    · simp
  | c :: d :: cs =>
    unfold Numeral.hexDigits?
    simp only [List.cons_append]
    split <;> simp_all

theorem behindNumeral_append (h : Stops rest) (text : List Char) :
    behindNumeral (text ++ rest) = (behindNumeral text).map (· ++ rest) := by
  have hdigit := h.head (p := Char.isDigit) rfl
  have hhex := h.head (p := Numeral.isHexDigit) rfl
  unfold behindNumeral
  rw [hexDigits_append h]
  cases Numeral.hexDigits? text with
  | some digits =>
    simp only [Option.map_some, takeWhile_append_of_stops hhex, dropWhile_append_of_stops hhex]
    split <;> rfl
  | none =>
    simp only [Option.map_none, takeWhile_append_of_stops hdigit, dropWhile_append_of_stops hdigit,
      fraction_append h, behindExponent_append h]
    split <;> rfl

theorem tokens_nil : tokens [] = some [] := by rw [tokens]

theorem tokens_blank {c : Char} (h : isBlank c = true) (cs : List Char) :
    tokens (c :: cs) = tokens cs := by
  rw [tokens, if_pos h]

theorem tokens_of_token {c : Char} {cs : List Char} {token : Token} {more : Nat}
    (hblank : isBlank c = false) (h : token? c cs = some (token, more)) :
    tokens (c :: cs) = (tokens (cs.drop more)).map (token :: ·) := by
  rw [tokens, if_neg (by simp [hblank]), h]

/-- Whether a text is a word. -/
def isWord (text : String) : Bool :=
  match text.toList with
  | c :: cs => isWordStart c && cs.all isWordPart
  | [] => false

theorem not_isBlank_of_isWordStart {c : Char} (h : isWordStart c = true) : isBlank c = false := by
  have hblanks : [' ', '\t', '\n', '\r'].any isWordStart = false := rfl
  rw [← Bool.not_eq_true]
  intro hblank
  have hmem : c ∈ [' ', '\t', '\n', '\r'] := by simpa [isBlank, or_assoc] using hblank
  exact List.any_eq_false.1 hblanks c hmem h

/-- **A word is a token.** -/
theorem tokens_word {w : String} (h : isWord w = true)
    (hrest : ∀ c ∈ rest.head?, isWordPart c = false) :
    tokens (w.toList ++ rest) = (tokens rest).map (.word w :: ·) := by
  unfold isWord at h
  split at h
  next c cs hw =>
    obtain ⟨hstart, hparts⟩ := Bool.and_eq_true_iff.1 h
    have hrun : (cs ++ rest).takeWhile isWordPart = cs := by
      rw [takeWhile_append_of_stops hrest]
      exact List.takeWhile_eq_self_iff.2 (List.all_eq_true.1 hparts)
    have htoken : token? c (cs ++ rest) = some (.word w, cs.length) := by
      rw [token?, if_pos hstart, hrun]
      simp only [← hw, String.ofList_toList]
    rw [hw, List.cons_append, tokens_of_token (not_isBlank_of_isWordStart hstart) htoken,
      List.drop_left]
  · cases h

theorem startsNumeral_append {text : List Char} (h : startsNumeral text = true)
    (rest : List Char) : startsNumeral (text ++ rest) = true := by
  cases text with
  | nil => cases h
  | cons c cs =>
    rw [List.cons_append, startsNumeral]
    cases cs with
    | nil =>
      have hc : c.isDigit = true := by simpa [startsNumeral] using h
      rw [hc, Bool.true_or]
    | cons d ds => exact h

/-- What is checked of the ten digits holds of every digit. -/
theorem of_isDigit {p : Char → Bool} (hp : "0123456789".toList.all p = true) {c : Char}
    (h : c.isDigit = true) : p c = true := by
  have hall : ∀ n < 58, 48 ≤ n → Char.ofNat n ∈ "0123456789".toList := by decide
  obtain ⟨hlow, hhigh⟩ := Char.isDigit_iff_toNat.1 h
  have hmem := hall c.toNat (Nat.lt_succ_of_le hhigh) hlow
  rw [Char.ofNat_toNat] at hmem
  exact List.all_eq_true.1 hp c hmem

/-- A numeral starts with neither a blank nor a letter. -/
theorem first_of_startsNumeral {c : Char} {cs : List Char} (h : startsNumeral (c :: cs) = true) :
    isBlank c = false ∧ isWordStart c = false := by
  rw [startsNumeral, Bool.or_eq_true, Bool.and_eq_true, beq_iff_eq] at h
  rcases h with hdigit | ⟨rfl, -⟩
  · have hplain := of_isDigit (p := fun d => !isBlank d && !isWordStart d) rfl hdigit
    simpa using hplain
  · exact ⟨rfl, rfl⟩

/-- **A numeral is a token.** -/
theorem tokens_number {text : String} (h : isNumeral text = true) (hrest : Stops rest) :
    tokens (text.toList ++ rest) = (tokens rest).map (.number text :: ·) := by
  obtain ⟨hstart, hend⟩ := Bool.and_eq_true_iff.1 h
  rw [beq_iff_eq] at hend
  cases htext : text.toList with
  | nil =>
    rw [htext] at hstart
    cases hstart
  | cons c cs =>
    rw [htext] at hstart hend
    have hfirst := first_of_startsNumeral hstart
    have hlong : behindNumeral (c :: (cs ++ rest)) = some rest := by
      rw [← List.cons_append, behindNumeral_append hrest, hend]
      rfl
    have hword := hrest.head (p := isWordPart) rfl
    -- no letter follows, so the numeral is taken whole
    have htoken : token? c (cs ++ rest) = some (.number text, cs.length) := by
      have hnone : rest.head?.any isWordPart = false := by
        cases hhead : rest.head? with
        | none => rfl
        | some d => exact hword d (hhead ▸ rfl)
      have hlead : startsNumeral (c :: (cs ++ rest)) = true := startsNumeral_append hstart rest
      rw [token?, if_neg (by simp [hfirst.2]), if_pos hlead, hlong]
      simp only [hnone, List.length_append, Nat.add_sub_cancel_right, List.take_left]
      rw [← htext, String.ofList_toList]
      rfl
    rw [List.cons_append, tokens_of_token hfirst.1 htoken, List.drop_left]

/-- **A sign is a token** if no longer one stands there. -/
theorem tokens_sign (s : String) (c : Char) (cs : List Char) (hs : s.toList = c :: cs)
    (hfirst : (isBlank c || isWordStart c) = false)
    (hnumeral : startsNumeral (c :: (cs ++ rest)) = false)
    (h : sign? (c :: (cs ++ rest)) = some s) :
    tokens (c :: (cs ++ rest)) = (tokens rest).map (.sign s :: ·) := by
  obtain ⟨hblank, hword⟩ := Bool.or_eq_false_iff.1 hfirst
  have htoken : token? c (cs ++ rest) = some (.sign s, cs.length) := by
    have hlength : s.length - 1 = cs.length := by
      rw [← String.length_toList, hs, List.length_cons, Nat.add_sub_cancel]
    rw [token?, if_neg (by simp [hword]), if_neg (by simp [hnumeral]), h, Option.map_some, hlength]
  rw [tokens_of_token hblank htoken, List.drop_left]

/-! ## Expressions -/

/-- The operators before a value. -/
inductive UnaryOperator where
  | not | complement | minus | plus
deriving DecidableEq

/-- The operators between two values. -/
inductive BinaryOperator where
  | power | times | divide | remainder | plus | minus
  | shiftLeft | shiftRight | shiftRightZero
  | less | lessEqual | greater | greaterEqual
  | equal | unequal | strictEqual | strictUnequal
  | and | xor | or
deriving DecidableEq

namespace UnaryOperator

/-- Every operator before a value. -/
def all : List UnaryOperator := [not, complement, minus, plus]

/-- The sign of an operator. -/
def sign : UnaryOperator → String
  | not => "!" | complement => "~" | minus => "-" | plus => "+"

end UnaryOperator

namespace BinaryOperator

/-- Every operator between two values that groups to the left. -/
def leftward : List BinaryOperator :=
  [times, divide, remainder, plus, minus, shiftLeft, shiftRight, shiftRightZero, less, lessEqual,
    greater, greaterEqual, equal, unequal, strictEqual, strictUnequal, and, xor, or]

/-- The sign of an operator. -/
def sign : BinaryOperator → String
  | power => "**" | times => "*" | divide => "/" | remainder => "%" | plus => "+" | minus => "-"
  | shiftLeft => "<<" | shiftRight => ">>" | shiftRightZero => ">>>"
  | less => "<" | lessEqual => "<=" | greater => ">" | greaterEqual => ">="
  | equal => "==" | unequal => "!=" | strictEqual => "===" | strictUnequal => "!=="
  | and => "&" | xor => "^" | or => "|"

/-- How tightly an operator binds. -/
def level : BinaryOperator → Nat
  | power => 9
  | times | divide | remainder => 8
  | plus | minus => 7
  | shiftLeft | shiftRight | shiftRightZero => 6
  | less | lessEqual | greater | greaterEqual => 5
  | equal | unequal | strictEqual | strictUnequal => 4
  | and => 3
  | xor => 2
  | or => 1

end BinaryOperator

/-- An expression. -/
inductive Expression where
  | name (text : String)
  | number (text : String)
  | member (base : Expression) (name : String)
  | call (callee argument : Expression)
  | unary (operator : UnaryOperator) (argument : Expression)
  | binary (operator : BinaryOperator) (left right : Expression)
deriving DecidableEq

/-- The words that name no variable. -/
def reservedWords : List String :=
  ["await", "break", "case", "catch", "class", "const", "continue", "debugger", "default", "delete",
    "do", "else", "enum", "export", "extends", "false", "finally", "for", "function", "if",
    "implements", "import", "in", "instanceof", "interface", "let", "new", "null", "package",
    "private", "protected", "public", "return", "static", "super", "switch", "throw", "true", "try",
    "typeof", "var", "void", "while", "with", "yield"]

/-- Words that strict code reads, and never binds. -/
def unboundWords : List String := ["this", "eval", "arguments"]

/-- Whether strict code can bind a text. -/
def isBindable (text : String) : Bool :=
  isWord text && !reservedWords.contains text && !unboundWords.contains text

namespace Expression

/-- The operator before a value that some tokens start with, and what follows it. -/
def unarySign? : List Token → Option (UnaryOperator × List Token)
  | .sign s :: rest => (UnaryOperator.all.find? (·.sign == s)).map (·, rest)
  | _ => none

/-- The operator grouping to the left that some tokens start with, and what follows it. -/
def binarySign? : List Token → Option (BinaryOperator × List Token)
  | .sign s :: rest => (BinaryOperator.leftward.find? (·.sign == s)).map (·, rest)
  | _ => none

/-- What follows a sign. -/
def behind? (s : String) : List Token → Option (List Token)
  | .sign t :: rest => if t = s then some rest else none
  | _ => none

/-- The word that some tokens start with, and what follows it. -/
def word? : List Token → Option (String × List Token)
  | .word text :: rest => some (text, rest)
  | _ => none

mutual

/-- Operators of a level or above between operands. -/
def binary? : Nat → Nat → List Token → Option (Expression × List Token)
  | 0, _, _ => none
  | fuel + 1, limit, ts =>
    (power? fuel ts).bind fun (left, rest) => climb? fuel limit left rest

/-- Further operators of a level or above behind their left operand. -/
def climb? : Nat → Nat → Expression → List Token → Option (Expression × List Token)
  | 0, _, _, _ => none
  | fuel + 1, limit, left, ts =>
    match binarySign? ts with
    | some (operator, rest) =>
      if limit ≤ operator.level then
        (binary? fuel (operator.level + 1) rest).bind fun (right, rest) =>
          climb? fuel limit (.binary operator left right) rest
      else some (left, ts)
    | none => some (left, ts)

/-- A power, or an operator before a value. -/
def power? : Nat → List Token → Option (Expression × List Token)
  | 0, _ => none
  | fuel + 1, ts =>
    if (unarySign? ts).isSome then unary? fuel ts
    else (operand? fuel ts).bind fun (base, rest) =>
      match behind? "**" rest with
      | some rest => (power? fuel rest).map fun (exponent, rest) =>
        (.binary .power base exponent, rest)
      | none => some (base, rest)

/-- Operators before a value. -/
def unary? : Nat → List Token → Option (Expression × List Token)
  | 0, _ => none
  | fuel + 1, ts =>
    match unarySign? ts with
    | some (operator, rest) => (unary? fuel rest).map fun (argument, rest) =>
      (.unary operator argument, rest)
    | none => operand? fuel ts

/-- A value with its members and calls. -/
def operand? : Nat → List Token → Option (Expression × List Token)
  | 0, _ => none
  | fuel + 1, ts => (primary? fuel ts).bind fun (base, rest) => suffixes? fuel base rest

/-- Members and calls of a value. -/
def suffixes? : Nat → Expression → List Token → Option (Expression × List Token)
  | 0, _, _ => none
  | fuel + 1, base, ts =>
    match ts with
    | .sign s :: rest =>
      if s = "(" then
        (enclosed? fuel rest).bind fun (argument, rest) => suffixes? fuel (.call base argument) rest
      else if s = "." then
        (word? rest).bind fun (property, rest) => suffixes? fuel (.member base property) rest
      else some (base, ts)
    | _ => some (base, ts)

/-- A name, a numeral, or an expression in parentheses. -/
def primary? : Nat → List Token → Option (Expression × List Token)
  | 0, _ => none
  | fuel + 1, ts =>
    match ts with
    | .word text :: rest => if reservedWords.contains text then none else some (.name text, rest)
    | .number text :: rest => some (.number text, rest)
    | .sign s :: rest => if s = "(" then enclosed? fuel rest else none
    | [] => none

/-- An expression and the parenthesis that closes it. -/
def enclosed? : Nat → List Token → Option (Expression × List Token)
  | 0, _ => none
  | fuel + 1, ts =>
    (binary? fuel 0 ts).bind fun (inner, rest) => (behind? ")" rest).map (inner, ·)

end

/-- The expression that some tokens are. Reading goes at most eight deep at a token. -/
def ofTokens? (ts : List Token) : Option Expression :=
  match binary? (8 * ts.length + 8) 0 ts with
  | some (e, []) => some e
  | _ => none

/-- **The expression that a text is.** -/
def read (text : String) : Option Expression := (tokens text.toList).bind ofTokens?

/-! ## Well placed operators -/

/-- Whether an expression is an operator before a value. -/
def isUnary : Expression → Bool
  | unary .. => true
  | _ => false

/-- **Whether every operator of an expression may stand where it stands**: the base of a power is no
operator before a value. -/
def isPlaced : Expression → Bool
  | name _ | number _ => true
  | member base _ => base.isPlaced
  | call callee argument => callee.isPlaced && argument.isPlaced
  | unary _ argument => argument.isPlaced
  | binary operator left right =>
    left.isPlaced && right.isPlaced && !(operator == .power && left.isUnary)

/-- An expression if its operators are well placed. -/
def placed (e : Expression) : Option Expression := if e.isPlaced then some e else none

end Expression

end LuaCompiler.Script
