import LuaCompiler.Proofs.Script.LongStrings
import LuaCompiler.Proofs.Script.ShortStrings

/-!
# The values of strings

The value of a string in Lua, short or long, and the one of the literal that is written for it. A
long string keeps its text, but both languages have their own line breaks: in Lua a return and a line
feed are one break in either order, and the one that is dropped from the front may be a return.

* `Text.luaLines`: a text with the line breaks of Lua.
* `StringLiteral.luaUnits?`: **the value of a string** whose escapes are valid.
* `StringLiteral.carries`: whether the escapes of a short string, or the line breaks of a long one,
  are read alike.
* `StringLiteral.literalUnits_toScript`: **a string that carries over keeps its value.**
-/

namespace LuaCompiler

open Lexeme (closing)

/-- A text with the line breaks of Lua: a return and a line feed are one, in either order. -/
def Text.luaLines : List Char → List Char
  | '\r' :: '\n' :: cs => '\n' :: luaLines cs
  | '\n' :: '\r' :: cs => '\n' :: luaLines cs
  | '\r' :: cs => '\n' :: luaLines cs
  | c :: cs => c :: luaLines cs
  | [] => []

namespace StringLiteral

open Script (literalUnits? Spells)
open Text (luaLines withoutFirstBreak)

/-- What stands between the brackets of a long string. -/
def bracketed (raw : String) : List Char :=
  let width := level raw.toList + 2
  (raw.toList.drop width).take (raw.toList.length - (width + width))

/-- **The value of a string**, if its escapes are valid. -/
def luaUnits? (raw : String) : Option (List Nat) :=
  if isLong raw.toList then some (Text.units (withoutFirstBreak (luaLines (bracketed raw))))
  else shortValue? raw

/-- Whether a string is read alike in both languages: the escapes of a short one, and the line breaks
of a long one. -/
def carries (raw : String) : Bool :=
  if isLong raw.toList then
    templateLines (dropFirstBreak (bracketed raw)) = withoutFirstBreak (luaLines (bracketed raw))
  else (escapes raw).all isKept

/-- A long string of a source is a text in long brackets. -/
theorem exists_longString {raw : String} (h : (Token.Kind.string raw).isSpelled = true)
    (hlong : isLong raw.toList = true) :
    ∃ level content, raw.toList = longString level content := by
  obtain ⟨c, cs, htext, hcut⟩ := Token.Kind.isSpelled_iff.1 h
  change raw.toList = c :: cs at htext
  obtain rfl : c = '[' := by
    rw [htext, isLong_iff] at hlong
    exact Option.some.inj hlong
  -- with a bracket in front, only a long string and a sign come into question
  rcases Lexeme.cut_token_cases hcut with ⟨hc, -⟩ | ⟨hc, -⟩ | ⟨hc, -⟩ | ⟨-, level, hlevel, h⟩ | h
  · exact absurd hc (by decide)
  · exact absurd hc (by simp)
  · exact absurd hc (by decide)
  · obtain ⟨body, rfl⟩ := Lexeme.longLevel_split hlevel
    unfold Lexeme.cutLongString at h
    rw [Lexeme.drop_opened] at h
    split at h
    next n hclosing =>
      have hwidth : level + 1 + n = (List.replicate level '=' ++ '[' :: body).length :=
        (Lexeme.Cut.mk.inj (Except.ok.inj h)).2
      obtain ⟨content, hcontent⟩ := Lexeme.throughClosing_split hclosing
      -- the token is all of the text, so nothing stands behind its closing bracket
      have hbody : body.take n = body := by
        refine List.take_of_length_le ?_
        rw [List.length_append, List.length_cons, List.length_replicate] at hwidth
        omega
      rw [hbody] at hcontent
      exact ⟨level, content, by rw [htext, hcontent, longString]⟩
    · cases h
  · unfold Lexeme.cutSymbol at h
    split at h <;> cases h

theorem level_longString (n : Nat) (content : List Char) : level (longString n content) = n := by
  simp [level, longString, List.takeWhile_append_of_pos]

theorem bracketed_longString {raw : String} {n : Nat} {content : List Char}
    (h : raw.toList = longString n content) : bracketed raw = content := by
  have hopened : (longString n content).drop (n + 2) = content ++ closing n := by
    rw [longString, List.drop_succ_cons, Lexeme.drop_opened]
  have hlength : (longString n content).length - (n + 2 + (n + 2)) = content.length := by
    simp [longString, Lexeme.length_closing]
    omega
  rw [bracketed, h, level_longString, hopened, hlength, List.take_left]

/-- **A string that carries over keeps its value.** -/
theorem literalUnits_toScript {raw : String} {units : List Nat}
    (hspelled : (Token.Kind.string raw).isSpelled = true) (hvalue : luaUnits? raw = some units)
    (hcarries : carries raw = true) : literalUnits? (toScript raw) = some units := by
  unfold luaUnits? at hvalue
  unfold carries at hcarries
  by_cases hlong : isLong raw.toList = true
  · rw [if_pos hlong] at hvalue hcarries
    obtain ⟨level, content, hraw⟩ := exists_longString hspelled hlong
    rw [bracketed_longString hraw] at hvalue hcarries
    obtain rfl := Option.some.inj hvalue
    rw [decide_eq_true_eq] at hcarries
    rw [toScript, if_pos hlong, hraw, contentOf_brackets, literalUnits?, String.toList_ofList,
      ← hcarries]
    exact Script.spelledUnits_templateLines _
  · rw [if_neg hlong] at hvalue hcarries
    obtain ⟨quote, inner, hquote, hraw, -⟩ := exists_quoted hspelled (by simpa using hlong)
    have hinside : inside raw = inner := by
      rw [inside, hraw, List.tail_cons, List.dropLast_concat]
    rw [shortValue?, hinside] at hvalue
    rw [escapes, hinside, List.all_eq_true] at hcarries
    rw [toScript_quoted hquote hraw]
    exact (spells_quotedFrom hvalue hcarries).whole

end StringLiteral

end LuaCompiler
