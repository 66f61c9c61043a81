import LuaCompiler.Proofs.Parser.Rows
import LuaCompiler.Proofs.Scope.Declarative
import LuaCompiler.Proofs.Token.Tiling

/-!
# Where nodes stand and how they are numbered

The tokens of a text are in the order of the text, so a parser starts tidy and what it builds is in
a row: `grown_of_parse`. Two results follow.

* `spans_are_nested`: every node lies in the one around it, the parts of a node follow one another,
  and all lie in the program's span.
* `identities_are_sound`: a node is completed behind all that is inside it, so its identity is
  greater; no two nodes share one; without attributes there is no gap.
-/

namespace LuaCompiler

open Scope (Item Event Skeleton.events Skeleton.numbers)

/-! ## The tokens of a text -/

namespace Scan

theorem inOrder_before {lo here : Position} {tokens : List Token} (h : Parser.InOrder here tokens)
    (hle : lo.le here = true) : Parser.InOrder lo tokens := by
  cases tokens with
  | nil => trivial
  | cons token rest => exact ⟨Position.le_trans hle h.1, h.2⟩

theorem inOrder_ofLexemes (fault : Option LexicalFault) (here : Position) (lexemes : List Lexeme) :
    Parser.InOrder here (ofLexemes fault here lexemes).tokens := by
  induction lexemes generalizing here with
  | nil =>
    cases fault with
    | none => exact ⟨Position.le_refl _, Position.le_refl _, trivial⟩
    | some fault => trivial
  | cons lexeme rest ih =>
    have hrest := ih (here.advance lexeme.text)
    have hle := Position.le_advance here lexeme.text
    unfold ofLexemes
    dsimp only
    split
    · exact ⟨Position.le_refl _, hle, hrest⟩
    · exact inOrder_before hrest hle

/-- The tokens of a text stand in its order. -/
theorem inOrder_ofText (text : List Char) : Parser.InOrder Position.origin (ofText text).tokens :=
  inOrder_before (inOrder_ofLexemes ..) (Position.le_advance ..)

end Scan

/-! ## Runs of the parser -/

/-- A program that is read from a text is the result of a run over its tokens. -/
theorem run_of_parse {source : String} {chunk : Chunk} (h : (parse source).result = .ok chunk) :
    ∃ first rest s', (Scan.ofText source.toList).tokens = first :: rest ∧
      (Parser.chunk (depthBound (Scan.ofText source.toList).tokens.length)).run
        ⟨first, rest, (Scan.ofText source.toList).fault, Position.origin, 0, []⟩ =
          (.ok chunk, s') := by
  unfold parse parseScan at h
  split at h
  next => cases h
  next htokens hfault => exact absurd hfault (Scan.ofText_tokens _ htokens)
  next first rest htokens =>
    dsimp only at h
    exact ⟨first, rest, _, htokens, Prod.ext h rfl⟩

/-- A parser over the tokens of a text starts tidy. -/
theorem tidy_ofText {source : List Char} {first : Token} {rest : List Token}
    (h : (Scan.ofText source).tokens = first :: rest) :
    Parser.State.Tidy (usesAttribute ((Scan.ofText source).tokens.map Token.kind) = false)
      ⟨first, rest, (Scan.ofText source).fault, Position.origin, 0, []⟩ := by
  have hahead : Parser.State.ahead ⟨first, rest, (Scan.ofText source).fault, .origin, 0, []⟩ =
      (Scan.ofText source).tokens := by rw [h, Parser.State.ahead]
  refine ⟨?_, fun hfault token htoken => ?_, fun hplain => ?_⟩
  · rw [hahead]
    exact Scan.inOrder_ofText source
  · obtain ⟨place, rfl⟩ := Scan.ofText_last hfault token (hahead ▸ htoken)
    rfl
  · rw [hahead]
    exact hplain

/-- **What is read from a text was grown in a row.** -/
theorem grown_of_parse {source : String} {chunk : Chunk} (h : (parse source).result = .ok chunk) :
    ∃ s', Parser.Grown (usesAttribute ((Scan.ofText source.toList).tokens.map Token.kind) = false)
      Position.origin 0 chunk.nodes s' ∧
      chunk.span = ⟨Position.origin, s'.current.span.stop⟩ := by
  obtain ⟨first, rest, s', htokens, hrun⟩ := run_of_parse h
  have hgrown := (tidy_ofText htokens).chunk (depthBound (Scan.ofText source.toList).tokens.length)
  unfold Parser.Post at hgrown
  rw [hrun] at hgrown
  exact ⟨s', hgrown⟩

/-! ## Spans -/

/-- **Spans are nested.** Of a text that parses, no node ends before it starts, and each lies in the
span of the program. The parts of a node lie in it and follow one another without overlap, the
statements of its blocks among them, and so do the statements of the program. -/
theorem spans_are_nested {source : String} {chunk : Chunk}
    (h : (parse source).result = .ok chunk) :
    (∀ node ∈ Node.allOf chunk.nodes,
      node.span.start.le node.span.stop = true ∧
      (∀ child ∈ node.children, node.span.Encloses child.span) ∧
      node.children.Pairwise (fun a b => a.span.Precedes b.span) ∧
      chunk.span.Encloses node.span) ∧
    chunk.nodes.Pairwise fun a b => a.span.Precedes b.span := by
  obtain ⟨s', hgrown, hspan⟩ := grown_of_parse h
  -- the end of the text, at which the program's span ends, is not behind the last token read
  obtain ⟨hbehind, hcurrent, -⟩ := hgrown.tidy.ordered
  have hrow := hgrown.row.mono (Position.le_refl _) (Position.le_trans hbehind hcurrent)
  refine ⟨fun node hnode => ?_, hrow.pairwise⟩
  obtain ⟨hnested, hinside⟩ := hrow.mem_all hnode
  have hparts := Node.nested_iff.1 hnested
  refine ⟨hnested.le, fun child hchild => (hparts.mem hchild).2, hparts.pairwise, ?_⟩
  rw [hspan]
  exact hinside

/-- Members of a call in parentheses, a method, and clauses in a block. -/
def nestingText : String :=
  "local t = { (a.b(1)).c }\nfunction m.n:o(p) if p then goto e end end ::e::"

theorem spans_of_nestingText : ∃ chunk, (parse nestingText).result = .ok chunk ∧
    (Node.allOf chunk.nodes).length = 26 ∧
    (∀ node ∈ Node.allOf chunk.nodes, chunk.span.Encloses node.span) ∧
    chunk.nodes.Pairwise fun a b => a.span.Precedes b.span := by
  have hcount : (parse nestingText).result.toOption.map
      (fun chunk => (Node.allOf chunk.nodes).length) = some 26 := by
    rw [nestingText, parse_ofList]
    decide +kernel
  obtain ⟨chunk, hresult, hcount⟩ := Parsed.exists_of_map hcount
  obtain ⟨hnodes, hstatements⟩ := spans_are_nested hresult
  exact ⟨chunk, hresult, hcount, fun node hnode => (hnodes node hnode).2.2.2, hstatements⟩

/-! ## Identities -/

/-- The identity of the name that an event refers to. -/
def Scope.Event.referenceId? : Event → Option NodeId
  | .reference id _ => some id
  | _ => none

/-- The references of a skeleton are in the order in which identities are given out. -/
theorem Scope.Skeleton.references_sublist (items : List Item) :
    ((Skeleton.events items).filterMap Event.referenceId?).Sublist (Skeleton.numbers items) := by
  induction items using Scope.Skeleton.induction with
  | nil => exact List.Sublist.refl _
  | reference id name rest ih => exact ih.cons_cons id
  | functionName identifier rest ih => exact ih.cons_cons identifier.id
  | locals id vars init inner rest hinner ih =>
    simp only [events, Item.events, numbers, Item.numbers, List.filterMap_append]
    refine List.Sublist.append ?_ ih
    refine List.Sublist.trans ?_ (List.sublist_append_right _ _)
    exact hinner.append (List.nil_sublist _)
  | localFunction identifier rest ih => exact ih.cons identifier.id
  | scope receiver parameters header body rest hheader hbody ih =>
    have hparameters :
        (parameters.map Event.parameters).toList.filterMap Event.referenceId? = [] := by
      cases parameters <;> rfl
    simp only [events, Item.events, numbers, Item.numbers, List.filterMap_append,
      List.filterMap_cons, hparameters, Event.referenceId?, List.filterMap_nil, List.nil_append,
      List.append_nil]
    refine List.Sublist.append ?_ ih
    exact (hheader.append hbody).trans (List.sublist_append_right _ _)

/-- **Identities are sound.** Of a text that parses, no two nodes have the same identity, every node
has a greater one than all nodes inside it, and names are referred to in the order of their
identities. Without attributes the identities are the numbers below the number of nodes. -/
theorem identities_are_sound {source : String} {chunk : Chunk}
    (h : (parse source).result = .ok chunk) :
    ((Node.allOf chunk.nodes).map Node.id).Nodup ∧
    (∀ node ∈ Node.allOf chunk.nodes, ∀ inner ∈ Node.allOf node.children, inner.id < node.id) ∧
    ((parse source).events.filterMap Event.referenceId?).Pairwise (· < ·) ∧
    (usesAttribute ((Scan.ofText source.toList).tokens.map Token.kind) = false →
      (Node.allOf chunk.nodes).map Node.id = List.range (Node.allOf chunk.nodes).length) := by
  obtain ⟨s', hgrown, -⟩ := grown_of_parse h
  refine ⟨hgrown.numbers.nodup, fun node hnode inner hinner => ?_, ?_, fun hplain => ?_⟩
  · -- what is inside a node stands before it in the order of completion
    have hsublist := (Node.sublist_allOf hnode).map Node.id
    have hrising := hgrown.numbers.pairwise.sublist hsublist
    rw [Node.all_eq, List.map_append] at hrising
    exact (List.pairwise_append.1 hrising).2.2 _ (List.mem_map_of_mem hinner) _
      (List.mem_singleton.2 rfl)
  · obtain ⟨hi, hnumbers⟩ := (parse_noted source).numbers chunk h
    rw [(parse_noted source).events chunk h]
    exact hnumbers.pairwise.sublist (Scope.Skeleton.references_sublist chunk.items)
  · have hlength := hgrown.dense hplain
    rw [← List.length_map Node.id] at hlength
    have hrange := hgrown.numbers.eq_range hlength
    rwa [List.length_map, ← List.range_eq_range'] at hrange

/-- A loop over the fields of a table, and a local function that refers to itself. -/
def numberedText : String :=
  "for k in pairs({ x = 1 }) do local function f() return f(-k) end end"

theorem identities_of_numberedText : ∃ chunk, (parse numberedText).result = .ok chunk ∧
    (Node.allOf chunk.nodes).map Node.id = List.range 16 ∧
    ((parse numberedText).events.filterMap Event.referenceId?).Pairwise (· < ·) := by
  have ⟨hcount, hplain⟩ : (parse numberedText).result.toOption.map
      (fun chunk => (Node.allOf chunk.nodes).length) = some 16 ∧
      usesAttribute ((Scan.ofText numberedText.toList).tokens.map Token.kind) = false := by
    rw [numberedText, parse_ofList, String.toList_ofList]
    decide +kernel
  obtain ⟨chunk, hresult, hcount⟩ := Parsed.exists_of_map hcount
  obtain ⟨-, -, hreferences, hrange⟩ := identities_are_sound hresult
  exact ⟨chunk, hresult, hcount ▸ hrange hplain, hreferences⟩

end LuaCompiler
