import LuaCompiler.Proofs.Parser.Natural
import LuaCompiler.Proofs.Token.Tiling

/-!
# Blanks and comments do not matter

The tokens of a text, written once more with one blank between each two, are scanned as themselves,
and a parser looks at nothing else. So the text and its tokens give the same program up to places,
with the same identities, globals and scope events, or fail with the same message.

* `parseScan_seen`: scans that look the same are parsed to what looks the same.
* `parse_respaced`: **a text is parsed as its tokens are.**
-/

namespace LuaCompiler

/-- A parser before the tokens of a text. -/
def Parser.State.start (first : Token) (rest : List Token) : State :=
  ⟨first, rest, none, Position.origin, 0, []⟩

theorem parseScan_start (first : Token) (rest : List Token) (comments : List Comment) :
    parseScan ⟨first :: rest, comments, none⟩ =
      let run := (Parser.chunk (depthBound (rest.length + 1))).run (.start first rest)
      ⟨run.1, run.2.events.reverse, comments⟩ := by
  rw [parseScan]
  rfl

/-- **Scans that look the same** are parsed to what looks the same: a program or a fault, and the
events on the way. -/
theorem parseScan_seen {v w : View} (hv : v.place Position.origin = Position.origin)
    (hw : w.place Position.origin = Position.origin) {scan scan' : Scan}
    (htokens : scan.tokens.map (Token.seen v) = scan'.tokens.map (Token.seen w))
    (hfault : scan.fault = none) (hfault' : scan'.fault = none) :
    Parser.endSeen v (Chunk.seen v) (parseScan scan).result =
        Parser.endSeen w (Chunk.seen w) (parseScan scan').result ∧
      (parseScan scan).events.map (Scope.Event.seen v) =
        (parseScan scan').events.map (Scope.Event.seen w) := by
  rcases scan with ⟨_ | ⟨first, rest⟩, comments, fault⟩ <;>
    rcases scan' with ⟨_ | ⟨first', rest'⟩, comments', fault'⟩ <;>
    cases hfault <;> cases hfault'
  · simp [parseScan, Parser.endSeen, Chunk.seen, hv, hw]
  · cases htokens
  · cases htokens
  · obtain ⟨hfirst, hrest⟩ := List.cons.inj htokens
    have hlength : rest.length = rest'.length := by
      rw [← List.length_map (Token.seen v), hrest, List.length_map]
    -- both parsers start in states that look the same, with the same bound
    have hstart : (Parser.State.start first rest).seen v =
        (Parser.State.start first' rest').seen w := by
      simp only [Parser.State.start, Parser.State.seen, hfirst, hrest, hv, hw, Option.map_none,
        List.map_nil]
    have hrun := Parser.follows_chunk hv (depthBound (rest.length + 1)) (.start first rest)
    have hrun' := Parser.follows_chunk hw (depthBound (rest'.length + 1)) (.start first' rest')
    rw [hstart, hlength, hrun'] at hrun
    obtain ⟨hresult, hstate⟩ := Prod.mk.inj hrun
    have hevents := congrArg (fun s => s.events.reverse) hstate
    simp only [Parser.State.seen, ← List.map_reverse] at hevents
    rw [parseScan_start, parseScan_start, hlength]
    exact ⟨hresult.symm, hevents.symm⟩

/-- Texts whose scans look the same are parsed to what looks the same, with the same globals. -/
theorem parse_seen {v w : View} (hv : v.place Position.origin = Position.origin)
    (hw : w.place Position.origin = Position.origin) {source source' : String}
    (htokens : (Scan.ofText source.toList).tokens.map (Token.seen v) =
      (Scan.ofText source'.toList).tokens.map (Token.seen w))
    (hfault : (Scan.ofText source.toList).fault = none)
    (hfault' : (Scan.ofText source'.toList).fault = none) :
    Parser.endSeen v (Chunk.seen v) (parse source).result =
        Parser.endSeen w (Chunk.seen w) (parse source').result ∧
      (parse source).events.map (Scope.Event.seen v) =
        (parse source').events.map (Scope.Event.seen w) ∧
      (parse source).globals = (parse source').globals := by
  obtain ⟨hresult, hevents⟩ := parseScan_seen hv hw htokens hfault hfault'
  refine ⟨hresult, hevents, ?_⟩
  have hglobals := congrArg Scope.globals hevents
  rwa [Scope.globals_seen, Scope.globals_seen] at hglobals

section Ends

variable {α β γ : Type} {v w : View} {f : α → γ} {g : β → γ}
  {result : Except (Located SyntaxFault) α} {result' : Except (Located SyntaxFault) β}

theorem ok_of_endSeen (h : Parser.endSeen v f result = Parser.endSeen w g result') {b : β}
    (hb : result' = .ok b) : ∃ a, result = .ok a ∧ f a = g b := by
  subst hb
  cases result with
  | error fault => cases h
  | ok a => exact ⟨a, rfl, Except.ok.inj h⟩

theorem error_of_endSeen (h : Parser.endSeen v f result = Parser.endSeen w g result')
    {fault' : Located SyntaxFault} (hfault : result' = .error fault') :
    ∃ fault, result = .error fault ∧ fault.seen v = fault'.seen w := by
  subst hfault
  cases result with
  | error fault => exact ⟨fault, rfl, Except.error.inj h⟩
  | ok a => cases h

end Ends

/-! ## Tokens with blanks between them -/

/-- The tokens of a text, up to its end, with one blank between each two. -/
def respaced (source : String) : String :=
  spaced ((Scan.ofText source.toList).tokens.map Token.kind).dropLast

/-- The tokens of a text with blanks between them are scanned as the tokens of the text. -/
theorem kinds_respaced {source : String} (h : (Scan.ofText source.toList).fault = none) :
    (Scan.ofText (respaced source).toList).tokens.map Token.kind =
        (Scan.ofText source.toList).tokens.map Token.kind ∧
      (Scan.ofText (respaced source).toList).fault = none := by
  obtain ⟨front, place, htokens, hfront⟩ := Scan.ofText_eof h
  have hkinds : (Scan.ofText source.toList).tokens.map Token.kind =
      front.map Token.kind ++ [.eof] := by
    rw [htokens, List.map_append, List.map_singleton]
  have hspelled : ∀ kind ∈ front.map Token.kind, kind.isSpelled = true := by
    intro kind hkind
    obtain ⟨token, htoken, rfl⟩ := List.mem_map.1 hkind
    exact hfront token htoken
  unfold respaced
  rw [hkinds, List.dropLast_concat]
  exact Scan.kinds_spaced hspelled

/-- **A text is parsed as its tokens are.** If a text is scanned to its end, then its tokens with
one blank between each two are scanned as themselves. Both texts are parsed to the same program up
to places, with the same identities, globals and events, or fail with the same message. -/
theorem parse_respaced {source : String} (h : (Scan.ofText source.toList).fault = none) :
    ((Scan.ofText (respaced source).toList).tokens.map Token.kind =
        (Scan.ofText source.toList).tokens.map Token.kind ∧
      (Scan.ofText (respaced source).toList).fault = none) ∧
    (∀ chunk, (parse source).result = .ok chunk → ∃ chunk',
      (parse (respaced source)).result = .ok chunk' ∧
      chunk'.seen .placeless = chunk.seen .placeless ∧
      (parse (respaced source)).globals = (parse source).globals ∧
      (parse (respaced source)).events.map (Scope.Event.seen .placeless) =
        (parse source).events.map (Scope.Event.seen .placeless)) ∧
    ∀ fault, (parse source).result = .error fault → ∃ fault',
      (parse (respaced source)).result = .error fault' ∧
      fault'.fault.message = fault.fault.message := by
  obtain ⟨hkinds, hnone⟩ := kinds_respaced h
  have htokens : (Scan.ofText (respaced source).toList).tokens.map (Token.seen .placeless) =
      (Scan.ofText source.toList).tokens.map (Token.seen .placeless) := by
    have hseen : Token.seen .placeless =
        (fun kind => (⟨kind.seen .placeless, ⟨.origin, .origin⟩⟩ : Token)) ∘ Token.kind := rfl
    rw [hseen, ← List.map_map, ← List.map_map, hkinds]
  obtain ⟨hresult, hevents, hglobals⟩ := parse_seen rfl rfl htokens hnone h
  refine ⟨⟨hkinds, hnone⟩, fun chunk hchunk => ?_, fun fault hfault => ?_⟩
  · obtain ⟨chunk', hchunk', hseen⟩ := ok_of_endSeen hresult hchunk
    exact ⟨chunk', hchunk', hseen, hglobals, hevents⟩
  · obtain ⟨fault', hfault', hseen⟩ := error_of_endSeen hresult hfault
    have hmessage := congrArg (fun fault => fault.fault.message) hseen
    refine ⟨fault', hfault', ?_⟩
    -- places are all that the view changes, and no message tells of them
    simpa only [Located.seen, SyntaxFault.message_seen (v := .placeless) rfl] using hmessage

/-- Tokens that touch, a comment between two of them, and a line that names an interpreter. -/
def crowdedText : String := "#!lua\na.b=1 ..x--[[c]]return-a"

theorem parse_respaced_crowdedText :
    respaced crowdedText = "a . b = 1 .. x return - a" ∧
    ∃ chunk chunk', (parse crowdedText).result = .ok chunk ∧
      (parse "a . b = 1 .. x return - a").result = .ok chunk' ∧
      chunk'.seen .placeless = chunk.seen .placeless := by
  have hrespaced : respaced crowdedText = "a . b = 1 .. x return - a" := by decide +kernel
  have ⟨hscanned, hok⟩ : (Scan.ofText crowdedText.toList).fault = none ∧
      (parse crowdedText).result.toOption.isSome = true := by
    rw [crowdedText, parse_ofList, String.toList_ofList]
    decide +kernel
  obtain ⟨chunk, hresult⟩ := Parsed.exists_of_isSome hok
  obtain ⟨chunk', hchunk', hseen, -⟩ := (parse_respaced hscanned).2.1 chunk hresult
  exact ⟨hrespaced, chunk, chunk', hresult, hrespaced ▸ hchunk', hseen⟩

end LuaCompiler
