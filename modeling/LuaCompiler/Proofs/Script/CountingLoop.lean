import LuaCompiler.Proofs.Script.Decision
import LuaCompiler.Proofs.Script.WholeNumerals

/-!
# Counting loops

A counter that starts somewhere, goes round as long as it is inside its bounds, and is moved by a
step after each round: the numeric loop of Lua, and the loop `for (let i = a; i < b; i = i + s)` of
JavaScript, over whole numbers and with a body that leaves the counter alone.

* `Rounds inside step i n`: from `i` the counter goes round `n` times and then the loop ends. There
  is at most one such `n` (`Rounds.unique`), a loop may be moved (`Rounds.shift`), and **every loop
  of Lua ends** (`exists_rounds`).
* `Script.CountingLoop.ofPieces?`: the loop that the header of a script is read as.
* `Script.CountingLoop.goesRound_numeric`: **how often the loop for a loop of Lua goes round.**
* `Script.CountingLoop.ofPieces?_header`: the header of a loop is read as the loop.
-/

namespace LuaCompiler

/-! ## Rounds -/

/-- **The counter goes round `n` times** from `i`, as long as it is inside, and then the loop ends. -/
inductive Rounds (inside : Int → Prop) (step : Int) : Int → Nat → Prop
  | ends {i} (h : ¬ inside i) : Rounds inside step i 0
  | goesOn {i n} (h : inside i) (rest : Rounds inside step (i + step) n) :
    Rounds inside step i (n + 1)

section Rounds

variable {inside other : Int → Prop} {step i : Int} {n m : Nat}

theorem Rounds.unique (h : Rounds inside step i n) (h' : Rounds inside step i m) : n = m := by
  induction h generalizing m with
  | ends hi =>
    cases h' with
    | ends => rfl
    | goesOn hi' => exact absurd hi' hi
  | goesOn hi _ ih =>
    cases h' with
    | ends hi' => exact absurd hi hi'
    | goesOn _ rest => rw [ih rest]

/-- **A loop may be moved**, its counter and its bounds together. -/
theorem Rounds.shift {d : Int} (hsame : ∀ i, inside i ↔ other (i + d))
    (h : Rounds inside step i n) : Rounds other step (i + d) n := by
  induction h with
  | @ends i hi => exact .ends fun ho => hi ((hsame i).2 ho)
  | @goesOn i n hi _ ih =>
    refine .goesOn ((hsame i).1 hi) ?_
    have hcomm : i + d + step = i + step + d := by omega
    rwa [hcomm]

/-- Whether the numeric loop of Lua from somewhere to `last` goes round with its counter at `i`. -/
def isInside (last step i : Int) : Prop := if 0 ≤ step then i ≤ last else last ≤ i

instance (last step i : Int) : Decidable (isInside last step i) :=
  inferInstanceAs (Decidable (if 0 ≤ step then i ≤ last else last ≤ i))

/-- **Every loop of Lua ends.** -/
theorem exists_rounds (last : Int) (hstep : step ≠ 0) (i : Int) :
    ∃ n, Rounds (isInside last step) step i n := by
  have hout {i : Int} (h : ¬ isInside last step i) : ∃ n, Rounds (isInside last step) step i n :=
    ⟨0, .ends h⟩
  -- the distance that is left to the bound shrinks in each round
  induction hk : (if 0 ≤ step then last + 1 - i else i + 1 - last).toNat using Nat.strongRecOn
    generalizing i with
  | _ k ih =>
    by_cases hin : isInside last step i
    · have hless : (if 0 ≤ step then last + 1 - (i + step) else i + step + 1 - last).toNat < k := by
        unfold isInside at hin
        split at hin <;> split at hk <;> split <;> omega
      obtain ⟨n, hn⟩ := ih _ hless (i + step) rfl
      exact ⟨n + 1, .goesOn hin hn⟩
    · exact hout hin

end Rounds

/-! ## Loops of a script -/

namespace Script

/-- The comparisons of two numbers. -/
inductive Comparison where
  | less | lessEqual | greater | greaterEqual
deriving DecidableEq

/-- Whether a comparison holds. -/
def Comparison.holds : Comparison → Int → Int → Prop
  | less, i, bound => i < bound
  | lessEqual, i, bound => i ≤ bound
  | greater, i, bound => i > bound
  | greaterEqual, i, bound => i ≥ bound

instance (comparison : Comparison) (i bound : Int) : Decidable (comparison.holds i bound) :=
  match comparison with
  | .less => inferInstanceAs (Decidable (i < bound))
  | .lessEqual => inferInstanceAs (Decidable (i ≤ bound))
  | .greater => inferInstanceAs (Decidable (i > bound))
  | .greaterEqual => inferInstanceAs (Decidable (i ≥ bound))

/-- The loop `for (let counter = first; counter comparison bound; counter = counter + step)`. -/
structure CountingLoop where
  counter : List Char
  first : Int
  comparison : Comparison
  bound : Int
  step : Int
deriving DecidableEq

namespace CountingLoop

open Decision (behind?)

/-- **The loop goes round `n` times**, if its body leaves the counter alone. -/
def GoesRound (loop : CountingLoop) (n : Nat) : Prop :=
  Rounds (loop.comparison.holds · loop.bound) loop.step loop.first n

/-! ### Reading a header -/

/-- The whole number that a word is. -/
def whole? (word : List Char) : Option Int :=
  (numberOf? (String.ofList word)).bind fun q => if q.den = 1 then some q.num else none

/-- The whole number at the front of some pieces, with or without a minus. -/
def integer? : List Piece → Option (Int × List Piece)
  | .word w :: ps => (whole? w).map fun n => (n, ps)
  | .sign '-' :: .word w :: ps => (whole? w).map fun n => (-n, ps)
  | _ => none

/-- The comparison at the front of some pieces. -/
def comparison? : List Piece → Option (Comparison × List Piece)
  | .sign '<' :: .sign '=' :: ps => some (.lessEqual, ps)
  | .sign '<' :: ps => some (.less, ps)
  | .sign '>' :: .sign '=' :: ps => some (.greaterEqual, ps)
  | .sign '>' :: ps => some (.greater, ps)
  | _ => none

/-- The name at the front of some pieces, if strict code can bind it. -/
def name? : List Piece → Option (List Char × List Piece)
  | .word w :: ps => if isBindable (String.ofList w) then some (w, ps) else none
  | _ => none

/-- **The loop that some pieces are the header of.** -/
def ofPieces? (ps : List Piece) : Option CountingLoop := do
  let (counter, ps) ← name? (← behind? [.word "for".toList, .sign '(', .word "let".toList] ps)
  let (first, ps) ← integer? (← behind? [.sign '='] ps)
  let (comparison, ps) ← comparison? (← behind? [.sign ';', .word counter] ps)
  let (bound, ps) ← integer? ps
  let (step, ps) ← integer?
    (← behind? [.sign ';', .word counter, .sign '=', .word counter, .sign '+'] ps)
  if ps = [.sign ')'] then some { counter, first, comparison, bound, step } else none

/-! ### Loops of Lua -/

/-- The loop that the numeric loop of Lua from `a` to `b` by `s` is written as: it starts at zero
instead of one, and then leaves its bound out. -/
def numeric (counter : List Char) (a b s : Int) : CountingLoop where
  counter
  first := if a = 1 then 0 else a
  comparison :=
    if a = 1 then if s < 0 then .greater else .less
    else if s < 0 then .greaterEqual else .lessEqual
  bound := b
  step := s

/-- The bound of the loop of Lua that is run: a loop that goes down from one stops two short. -/
def reached (a b s : Int) : Int := if a = 1 ∧ s < 0 then b + 2 else b

/-- **How often the loop goes round**: as often as the one of Lua, unless that goes down from one. -/
theorem goesRound_numeric (counter : List Char) (a b s : Int) {n : Nat}
    (h : Rounds (isInside (reached a b s) s) s a n) : (numeric counter a b s).GoesRound n := by
  by_cases hone : a = 1
  · subst hone
    have hinside (i : Int) : isInside (reached 1 b s) s i ↔
        (numeric counter 1 b s).comparison.holds (i + -1) b := by
      by_cases hs : s < 0
      · have hup : ¬ 0 ≤ s := by omega
        simp only [isInside, reached, numeric, hs, hup, if_true, if_false, and_self,
          Comparison.holds]
        omega
      · have hup : 0 ≤ s := by omega
        simp only [isInside, reached, numeric, hs, hup, if_true, if_false, and_false,
          Comparison.holds]
        omega
    -- counter and bound are moved by one, so the rounds are the same
    have hmoved : Rounds ((numeric counter 1 b s).comparison.holds · b) s (1 + -1) n :=
      h.shift hinside
    exact hmoved
  · have hinside (i : Int) : isInside (reached a b s) s i ↔
        (numeric counter a b s).comparison.holds (i + 0) b := by
      by_cases hs : s < 0
      · have hup : ¬ 0 ≤ s := by omega
        simp only [isInside, reached, numeric, hone, hs, hup, if_true, if_false, false_and,
          Comparison.holds]
        omega
      · have hup : 0 ≤ s := by omega
        simp only [isInside, reached, numeric, hone, hs, hup, if_true, if_false, false_and,
          Comparison.holds]
        omega
    have hkept : Rounds ((numeric counter a b s).comparison.holds · b) s (a + 0) n :=
      h.shift hinside
    have hfirst : (numeric counter a b s).first = a + 0 := by simp [numeric, hone]
    rw [GoesRound, hfirst]
    exact hkept

/-! ### Written headers -/

/-- The sign of a comparison. -/
def sign : Comparison → List Piece
  | .less => [.sign '<']
  | .lessEqual => [.sign '<', .sign '=']
  | .greater => [.sign '>']
  | .greaterEqual => [.sign '>', .sign '=']

/-- Pieces that are read as a whole number, whatever follows. -/
def IsInteger (ps : List Piece) (n : Int) : Prop :=
  ∀ rest, integer? (ps ++ rest) = some (n, rest)

variable {ps qs rs : List Piece} {a b s : Int} {counter : List Char}

/-- A whole numeral without a spare zero. -/
theorem whole?_eq {raw : List Char} {n : Nat} (h : Numeral.whole? raw = some n)
    (hzero : hasSpareZero (raw.takeWhile Char.isDigit) = false) : whole? raw = some (n : Int) := by
  rw [whole?, numberOf?_whole h hzero]
  simp

theorem IsInteger.plain {raw : List Char} {n : Nat} (h : whole? raw = some (n : Int)) :
    IsInteger [.word raw] n := by
  intro rest
  rw [List.singleton_append, integer?, h]
  rfl

theorem IsInteger.minus {raw : List Char} {n : Nat} (h : whole? raw = some (n : Int)) :
    IsInteger [.sign '-', .word raw] (-n) := by
  intro rest
  change integer? (.sign '-' :: .word raw :: rest) = _
  rw [integer?, h]
  rfl

/-- Pieces that are read as a whole number do not start with a sign of equality. -/
theorem IsInteger.head (h : IsInteger ps a) (rest : List Piece) :
    ∃ p more, ps ++ rest = p :: more ∧ p ≠ .sign '=' := by
  have hread := h rest
  unfold integer? at hread
  split at hread
  next w more heq => exact ⟨.word w, more, heq, nofun⟩
  next w more heq => exact ⟨.sign '-', .word w :: more, heq, by decide⟩
  · cases hread

theorem comparison?_sign (comparison : Comparison) (h : IsInteger qs b) (rest : List Piece) :
    comparison? (sign comparison ++ (qs ++ rest)) = some (comparison, qs ++ rest) := by
  obtain ⟨p, more, hqs, hne⟩ := h.head rest
  rw [hqs]
  cases comparison with
  | lessEqual | greaterEqual => rfl
  | less =>
    unfold sign comparison?
    split <;> simp_all
  | greater =>
    unfold sign comparison?
    split <;> simp_all

/-- The pieces of a header, with those of its three numbers. -/
def header (counter : List Char) (comparison : Comparison) (ps qs rs : List Piece) : List Piece :=
  let opening : List Piece :=
    [.word "for".toList, .sign '(', .word "let".toList, .word counter, .sign '=']
  let condition : List Piece := [.sign ';', .word counter]
  let step : List Piece := [.sign ';', .word counter, .sign '=', .word counter, .sign '+']
  let closing : List Piece := [.sign ')']
  opening ++ (ps ++ (condition ++ (sign comparison ++ (qs ++ (step ++ (rs ++ closing))))))

/-- **The header of a loop is read as the loop.** -/
theorem ofPieces?_header (comparison : Comparison)
    (hname : isBindable (String.ofList counter) = true) (hfirst : IsInteger ps a)
    (hbound : IsInteger qs b) (hstep : IsInteger rs s) :
    ofPieces? (header counter comparison ps qs rs) = some ⟨counter, a, comparison, b, s⟩ := by
  have hopen (rest : List Piece) : behind? [.word "for".toList, .sign '(', .word "let".toList]
      (.word "for".toList :: .sign '(' :: .word "let".toList :: rest) = some rest :=
    Decision.behind?_append [.word "for".toList, .sign '(', .word "let".toList] rest
  have hthen (rest : List Piece) : behind? [.sign ';', .word counter]
      (.sign ';' :: .word counter :: rest) = some rest :=
    Decision.behind?_append [.sign ';', .word counter] rest
  have hlast (rest : List Piece) :
      behind? [.sign ';', .word counter, .sign '=', .word counter, .sign '+']
        (.sign ';' :: .word counter :: .sign '=' :: .word counter :: .sign '+' :: rest) = some rest :=
    Decision.behind?_append [.sign ';', .word counter, .sign '=', .word counter, .sign '+'] rest
  unfold ofPieces? header
  simp only [List.cons_append, List.nil_append, hopen, hthen, hlast, Option.bind_eq_bind,
    Option.bind_some, name?, hname, if_true, Decision.behind?_sign, hfirst _,
    comparison?_sign _ hbound, hbound _, hstep _]

end CountingLoop

end Script

end LuaCompiler
