import LuaCompiler.Binary64.Shortest
import LuaCompiler.Proofs.Script.Pieces
import LuaCompiler.Tree

/-!
# Decisions in a script

The part of JavaScript in which generated code decides by Lua's truth: atoms, the functions
`condition`, `and` and `or` of the support module, and the conditional operator in parentheses.
`condition` is false of `undefined` and `false` alone; `and` and `or` take their right operand as a
function and decide by the same truth. The conditional operator decides by JavaScript's.

* `Decision.read`: the decision that a script is read as, and `Decision.value`: its value.
* `read_written`: **pieces written for a decision are read as the decision.**
-/

namespace LuaCompiler

/-- The values that both languages have; Lua's `nil` is JavaScript's `undefined`. -/
inductive Value where
  | nil
  | boolean (b : Bool)
  | number (value : Binary64.Signed)
  | string (text : String)

namespace Value

/-- Lua's truth: `nil` and `false` are false. -/
def holds : Value → Bool
  | nil => false
  | boolean b => b
  | _ => true

/-- JavaScript's truth: zeros, what is no number, and the empty string are false too. -/
def isTruthy : Value → Bool
  | nil => false
  | boolean b => b
  | number ⟨_, .finite significand _⟩ => significand ≠ 0
  | number ⟨_, .nan⟩ => false
  | number ⟨_, .infinite⟩ => true
  | string text => text ≠ ""

/-- What a logical operator of Lua makes of two values. -/
def logical : LogicalOperator → Value → Value → Value
  | .and, left, right => if left.holds then right else left
  | .or, left, right => if left.holds then left else right

end Value

namespace Script

/-- An expression that decides by truth. -/
inductive Decision where
  | atom (pieces : List Piece)
  /-- whether a value is true in Lua -/
  | condition (e : Decision)
  /-- a function of the support module, and the body of the function that it is given -/
  | logical (operator : LogicalOperator) (left right : Decision)
  /-- the conditional operator -/
  | choose (condition consequent alternate : Decision)

namespace Decision

/-! ## Reading -/

/-- A member of the support module. -/
def support (name : String) : List Piece :=
  [.word "l2j".toList, .sign '.', .word name.toList]

/-- What is behind some pieces, if a list starts with them. -/
def behind? (expected ps : List Piece) : Option (List Piece) :=
  if expected.isPrefixOf ps then some (ps.drop expected.length) else none

/-- The operator that a function of the support module does the work of. -/
def operator? (callee : List Piece) : Option LogicalOperator :=
  if callee = support "and" then some .and
  else if callee = support "or" then some .or
  else none

/-- The opening of a call. -/
def opening : List Piece := [.sign '(']

/-- The end of a call. -/
def closing : List Piece := [.sign ')']

/-- What parts the arguments of a logical operator, of which the second one is a function. -/
def arrow : List Piece := [.sign ',', .sign '(', .sign ')', .sign '=', .sign '>']

/-- Reads a decision from the front of some pieces. -/
def expression? : Nat → List Piece → Option (Decision × List Piece)
  | 0, _ => none
  | fuel + 1, ps =>
    match behind? opening ps with
    | some ps => do
      let (first, ps) ← expression? fuel ps
      match behind? [.sign '?'] ps with
      | none => return (first, ← behind? closing ps)
      | some ps =>
        let (consequent, ps) ← expression? fuel ps
        let (alternate, ps) ← expression? fuel (← behind? [.sign ':'] ps)
        return (.choose first consequent alternate, ← behind? closing ps)
    | none =>
      let front := ps.takeWhile Piece.isAtom
      match behind? opening (ps.dropWhile Piece.isAtom) with
      | none => if front.isEmpty then none else some (.atom front, ps.dropWhile Piece.isAtom)
      | some ps =>
        if front = support "condition" then do
          let (e, ps) ← expression? fuel ps
          return (.condition e, ← behind? closing ps)
        else do
          let operator ← operator? front
          let (left, ps) ← expression? fuel ps
          let (right, ps) ← expression? fuel (← behind? arrow ps)
          return (.logical operator left right, ← behind? closing ps)

/-- **The decision that a script is**, if it is one. -/
def read (script : String) : Option Decision :=
  match expression? ((pieces script).length + 1) (pieces script) with
  | some (e, []) => some e
  | _ => none

/-! ## Values -/

/-- The value of an atom: three words have one of their own. -/
def atomValue (ρ : List Piece → Value) (ps : List Piece) : Value :=
  if ps = [.word "undefined".toList] then .nil
  else if ps = [.word "true".toList] then .boolean true
  else if ps = [.word "false".toList] then .boolean false
  else ρ ps

/-- **The value of a decision**, given those of its atoms. -/
def value (ρ : List Piece → Value) : Decision → Value
  | atom ps => atomValue ρ ps
  | condition e => .boolean (e.value ρ).holds
  | logical operator left right => .logical operator (left.value ρ) (right.value ρ)
  | choose c a b => if (c.value ρ).isTruthy then a.value ρ else b.value ρ

/-- A choice by Lua's truth. -/
theorem value_choose_condition (ρ : List Piece → Value) (c a b : Decision) :
    (choose (condition c) a b).value ρ =
      if (c.value ρ).holds then a.value ρ else b.value ρ := rfl

/-! ## Writing -/

/-- **Pieces written for a decision.** -/
inductive Written : Decision → List Piece → Prop
  | atom {ps} (hne : ps ≠ []) (h : ∀ p ∈ ps, p.isAtom = true) : Written (.atom ps) ps
  | parens {e ps} (h : Written e ps) : Written e (opening ++ (ps ++ closing))
  | condition {e ps} (h : Written e ps) :
    Written (.condition e) (support "condition" ++ (opening ++ (ps ++ closing)))
  | logical {left right ps qs callee} (operator : LogicalOperator)
    (hcallee : operator? callee = some operator) (hleft : Written left ps) (hright : Written right qs) :
    Written (.logical operator left right) (callee ++ (opening ++ (ps ++ (arrow ++ (qs ++ closing)))))
  | choose {c a b ps qs rs} (hc : Written c ps) (ha : Written a qs) (hb : Written b rs) :
    Written (.choose c a b)
      (opening ++ (ps ++ (.sign '?' :: (qs ++ (.sign ':' :: (rs ++ closing))))))

/-- What can follow a decision: the end, or a sign that no atom has and that calls nothing. -/
def Ends (ps : List Piece) : Prop := ∀ p ∈ ps.head?, p.isAtom = false ∧ p ≠ .sign '('

variable {e : Decision} {ps rest : List Piece} {fuel : Nat}

theorem ends_nil : Ends [] := nofun

theorem ends_sign {c : Char} (h : isAtomChar c = false ∧ c ≠ '(') (rest : List Piece) :
    Ends (.sign c :: rest) := by
  intro p hp
  cases hp
  exact ⟨h.1, fun heq => h.2 (Piece.sign.inj heq)⟩

theorem behind?_append (expected rest : List Piece) :
    behind? expected (expected ++ rest) = some rest := by
  rw [behind?, if_pos (List.isPrefixOf_iff_prefix.2 (List.prefix_append _ _)), List.drop_left]

theorem behind?_sign (c : Char) (rest : List Piece) :
    behind? [.sign c] (.sign c :: rest) = some rest :=
  behind?_append [.sign c] rest

theorem behind?_sign_of_ne {c : Char} (h : ps.head? ≠ some (.sign c)) :
    behind? [.sign c] ps = none := by
  cases ps with
  | nil => rfl
  | cons p ps =>
    have hne : Piece.sign c ≠ p := fun heq => h (by rw [heq]; rfl)
    simp [behind?, hne]

/-- An atom is read up to what ends it. -/
theorem span_atom (h : ∀ p ∈ ps, p.isAtom = true) (hrest : ∀ p ∈ rest.head?, p.isAtom = false) :
    (ps ++ rest).takeWhile Piece.isAtom = ps ∧ (ps ++ rest).dropWhile Piece.isAtom = rest := by
  rw [List.takeWhile_append_of_pos h, List.dropWhile_append_of_pos h]
  cases rest with
  | nil => simp
  | cons p rest =>
    have hp := hrest p rfl
    simp [hp]

/-- The callee of a call is read up to the arguments. -/
theorem expression?_call {callee : List Piece} (hcallee : ∀ p ∈ callee, p.isAtom = true)
    (hne : callee ≠ []) (rest : List Piece) :
    expression? (fuel + 1) (callee ++ (opening ++ rest)) =
      if callee = support "condition" then do
        let (e, ps) ← expression? fuel rest
        return (.condition e, ← behind? closing ps)
      else do
        let operator ← operator? callee
        let (left, ps) ← expression? fuel rest
        let (right, ps) ← expression? fuel (← behind? arrow ps)
        return (.logical operator left right, ← behind? closing ps) := by
  obtain ⟨p, more, rfl⟩ := List.exists_cons_of_ne_nil hne
  have hopen : behind? opening (p :: more ++ (opening ++ rest)) = none := by
    refine behind?_sign_of_ne fun heq => ?_
    obtain rfl : p = .sign '(' := Option.some.inj heq
    exact absurd (hcallee _ List.mem_cons_self) (by decide)
  have hends : ∀ p ∈ (opening ++ rest).head?, p.isAtom = false := by
    rintro _ ⟨⟩
    rfl
  obtain ⟨htake, hdrop⟩ := span_atom hcallee hends
  rw [expression?, hopen]
  dsimp only
  rw [htake, hdrop, behind?_append]

theorem operator?_eq {callee : List Piece} {operator : LogicalOperator}
    (h : operator? callee = some operator) : callee = support "and" ∨ callee = support "or" := by
  unfold operator? at h
  split_ifs at h with hand hor
  · exact .inl hand
  · exact .inr hor

/-- **Pieces written for a decision are read as the decision**, before anything that ends it. -/
theorem expression?_written (h : Written e ps) (hrest : Ends rest) (hfuel : ps.length < fuel) :
    expression? fuel (ps ++ rest) = some (e, rest) := by
  -- a bracket ends whatever stands before it
  have hclosing (rest : List Piece) : Ends (closing ++ rest) := ends_sign (by decide) rest
  induction h generalizing rest fuel with
  | @atom ps hne hatom =>
    obtain ⟨fuel, rfl⟩ : ∃ n, fuel = n + 1 := ⟨fuel - 1, by omega⟩
    obtain ⟨p, more, rfl⟩ := List.exists_cons_of_ne_nil hne
    -- an atom neither opens a bracket nor is called
    have hopen : behind? opening (p :: more ++ rest) = none := by
      refine behind?_sign_of_ne fun heq => ?_
      obtain rfl : p = .sign '(' := Option.some.inj heq
      exact absurd (hatom _ List.mem_cons_self) (by decide)
    have hcall : behind? opening rest = none :=
      behind?_sign_of_ne fun heq => (hrest _ heq).2 rfl
    obtain ⟨htake, hdrop⟩ := span_atom hatom fun p hp => (hrest p hp).1
    rw [expression?, hopen]
    dsimp only
    rw [htake, hdrop, hcall]
    rfl
  | @parens e ps h ih =>
    simp only [List.length_append] at hfuel
    obtain ⟨fuel, rfl⟩ : ∃ n, fuel = n + 1 := ⟨fuel - 1, by omega⟩
    have hchoice : behind? [.sign '?'] (closing ++ rest) = none :=
      behind?_sign_of_ne (by simp [closing])
    rw [List.append_assoc, List.append_assoc, expression?, behind?_append]
    dsimp only
    rw [ih (hclosing rest) (by simp [opening, closing] at hfuel; omega)]
    simp only [Option.bind_eq_bind, Option.bind_some, hchoice, behind?_append]
    rfl
  | @condition e ps h ih =>
    simp only [List.length_append] at hfuel
    obtain ⟨fuel, rfl⟩ : ∃ n, fuel = n + 1 := ⟨fuel - 1, by omega⟩
    have hcallee : ∀ p ∈ support "condition", p.isAtom = true := by decide
    simp only [List.append_assoc]
    rw [expression?_call hcallee (by decide), if_pos rfl,
      ih (hclosing rest) (by simp [opening, closing] at hfuel; omega)]
    simp only [Option.bind_eq_bind, Option.bind_some, behind?_append]
    rfl
  | @logical left right ps qs callee operator hoperator hleft hright ihleft ihright =>
    simp only [List.length_append] at hfuel
    obtain ⟨fuel, rfl⟩ : ∃ n, fuel = n + 1 := ⟨fuel - 1, by omega⟩
    -- `and` and `or` of values are calls of other functions than the one for conditions
    have hcallee : (∀ p ∈ callee, p.isAtom = true) ∧ callee ≠ [] ∧ callee ≠ support "condition" := by
      rcases operator?_eq hoperator with rfl | rfl
      all_goals exact ⟨by decide, by decide, by decide⟩
    have harrow : Ends (arrow ++ (qs ++ (closing ++ rest))) := ends_sign (by decide) _
    simp only [List.append_assoc]
    rw [expression?_call hcallee.1 hcallee.2.1, if_neg hcallee.2.2, hoperator,
      ihleft harrow (by simp [opening, closing] at hfuel; omega)]
    simp only [Option.bind_eq_bind, Option.bind_some, behind?_append]
    rw [ihright (hclosing rest) (by simp [opening, closing] at hfuel; omega)]
    simp only [Option.bind_some, behind?_append]
    rfl
  | @choose c a b ps qs rs hc ha hb ihc iha ihb =>
    simp only [List.length_append, List.length_cons] at hfuel
    obtain ⟨fuel, rfl⟩ : ∃ n, fuel = n + 1 := ⟨fuel - 1, by omega⟩
    simp only [List.append_assoc, List.cons_append]
    rw [expression?, behind?_append]
    dsimp only
    rw [ihc (ends_sign (by decide) _) (by simp [opening, closing] at hfuel; omega)]
    simp only [Option.bind_eq_bind, Option.bind_some, behind?_sign]
    rw [iha (ends_sign (by decide) _) (by simp [opening, closing] at hfuel; omega)]
    simp only [Option.bind_some, behind?_sign]
    rw [ihb (hclosing rest) (by simp [opening, closing] at hfuel; omega)]
    simp only [Option.bind_some, behind?_append]
    rfl

/-- A text whose pieces are written for a decision is read as the decision. -/
theorem read_written {text : String} (h : Written e ps) (htext : Consists text ps) :
    read text = some e := by
  have hread := expression?_written h ends_nil (Nat.lt_succ_self ps.length)
  rw [List.append_nil] at hread
  rw [read, htext.pieces, hread]

end Decision

end Script

end LuaCompiler
