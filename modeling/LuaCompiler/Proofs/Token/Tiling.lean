import LuaCompiler.Proofs.Parser.Forward
import LuaCompiler.Proofs.Token.Comments
import LuaCompiler.Proofs.Token.Spelled
import Mathlib.Data.List.Induction

/-!
# The tiles of a source

A scan tiles the bytes of a source: behind the line that names an interpreter, blanks, comments and
tokens follow one another without a gap, up to the end of the source or to the first fault. What a
scan tells about a tile is true of the bytes of the tile, and the places that it tells are those of
the tile's ends, as they are counted in bytes.

* `Position.ofOffset`: the place of a byte, by counting line feeds, and `Position.ofOffset_encode`:
  reading a text moves to the place of its last byte.
* `Tile`: a stretch of bytes with its class; `Tile.IsSound`, `Tile.token?` and `Tile.Records` say what
  a scan tells about it.
* `Scan.Tiled`: a scan tells of tiles, and `Scan.tiled_ofLexemes`: it does, lexeme by lexeme.
* `scan_tiles_source`: **the scan of a source tiles it**, to its end if it parses.
-/

namespace LuaCompiler

/-! ## Bytes -/

namespace Text

/-- The bytes of characters, in UTF-8. -/
def encode (text : List Char) : List UInt8 := text.flatMap String.utf8EncodeChar

/-- The bytes of a text, in UTF-8. -/
def bytes (text : String) : List UInt8 := text.toUTF8.data.toList

theorem bytes_eq (text : String) : bytes text = encode text.toList := by
  have hbytes : text.toUTF8 = text.toList.utf8Encode := String.utf8Encode_toList.symm
  rw [bytes, hbytes, List.utf8Encode, List.data_toByteArray, encode]

theorem bytes_ofList (text : List Char) : bytes (String.ofList text) = encode text := by
  rw [bytes_eq, String.toList_ofList]

@[simp]
theorem encode_nil : encode [] = [] := rfl

@[simp]
theorem encode_append (s t : List Char) : encode (s ++ t) = encode s ++ encode t :=
  List.flatMap_append

theorem encode_cons (c : Char) (text : List Char) :
    encode (c :: text) = String.utf8EncodeChar c ++ encode text := rfl

theorem utf8EncodeChar_ne_nil (c : Char) : String.utf8EncodeChar c ≠ [] := by
  rw [← List.length_pos_iff, String.length_utf8EncodeChar]
  exact c.utf8Size_pos

theorem encode_ne_nil {text : List Char} (h : text ≠ []) : encode text ≠ [] := by
  obtain ⟨c, cs, rfl⟩ := List.exists_cons_of_ne_nil h
  exact fun hnil => utf8EncodeChar_ne_nil c (List.append_eq_nil_iff.1 hnil).1

/-- A byte below 128 is that of one character only. -/
theorem byte_not_mem_encode {b : UInt8} {c : Char} (hb : b.toNat < 128) (h : c.val.toNat ≠ b.toNat) :
    b ∉ String.utf8EncodeChar c := by
  have hne {n : Nat} (hn : n % 256 ≠ b.toNat) : b ≠ UInt8.ofNat n := fun heq => by
    rw [heq, UInt8.toNat_ofNat'] at hn
    exact hn rfl
  unfold String.utf8EncodeChar
  dsimp only
  split
  · exact fun hmem => hne (by omega) (List.mem_singleton.1 hmem)
  split
  · simp only [List.mem_cons, List.not_mem_nil, or_false, not_or]
    exact ⟨hne (by omega), hne (by omega)⟩
  split
  · simp only [List.mem_cons, List.not_mem_nil, or_false, not_or]
    exact ⟨hne (by omega), hne (by omega), hne (by omega)⟩
  · simp only [List.mem_cons, List.not_mem_nil, or_false, not_or]
    exact ⟨hne (by omega), hne (by omega), hne (by omega), hne (by omega)⟩

/-- The byte that ends a line. -/
def lineFeed : UInt8 := 0x0a

/-- The byte of a carriage return. -/
def carriageReturn : UInt8 := 0x0d

theorem lineFeed_not_mem_encode {c : Char} (h : c ≠ '\n') : lineFeed ∉ String.utf8EncodeChar c :=
  byte_not_mem_encode (by decide) fun heq => h (Char.ext (UInt32.toNat_inj.1 heq))

theorem carriageReturn_not_mem_encode {c : Char} (h : c ≠ '\r') :
    carriageReturn ∉ String.utf8EncodeChar c :=
  byte_not_mem_encode (by decide) fun heq => h (Char.ext (UInt32.toNat_inj.1 heq))

/-- A text of characters below 128 stands in front of another where its bytes do. -/
theorem encode_prefix_iff {s t : List Char} (h : ∀ c ∈ s, c.val.toNat < 128) :
    encode s <+: encode t ↔ s <+: t := by
  induction s generalizing t with
  | nil => simp
  | cons c s ih =>
    obtain ⟨hc, hs⟩ := List.forall_mem_cons.1 h
    have hbyte : String.utf8EncodeChar c = [UInt8.ofNat c.val.toNat] := by
      unfold String.utf8EncodeChar
      rw [if_pos (by omega)]
    have hvalue : (UInt8.ofNat c.val.toNat).toNat = c.val.toNat := by
      rw [UInt8.toNat_ofNat', Nat.mod_eq_of_lt (by omega)]
    cases t with
    | nil => simp [encode_cons, hbyte]
    | cons d t =>
      by_cases hd : d = c
      · subst hd
        rw [encode_cons, encode_cons, List.prefix_append_right_inj, ih hs, List.cons_prefix_cons]
        exact (and_iff_right rfl).symm
      · -- the first byte of the one text is none of the first character of the other
        have hmem : UInt8.ofNat c.val.toNat ∉ String.utf8EncodeChar d :=
          byte_not_mem_encode (by rw [hvalue]; exact hc) fun heq =>
            hd (Char.ext (UInt32.toNat_inj.1 (heq.trans hvalue)))
        obtain ⟨b, bs, hencode⟩ := List.exists_cons_of_ne_nil (utf8EncodeChar_ne_nil d)
        rw [hencode, List.mem_cons, not_or] at hmem
        rw [encode_cons, encode_cons, hbyte, hencode, List.cons_append, List.cons_append,
          List.cons_prefix_cons, List.cons_prefix_cons]
        exact iff_of_false (fun h => hmem.1 h.1) fun h => hd h.1.symm

/-- The rest of a line has the bytes before its line feed. -/
theorem encode_takeWhile_ne_newline (text : List Char) :
    encode (text.takeWhile (· != '\n')) = (encode text).takeWhile (· != lineFeed) := by
  induction text with
  | nil => rfl
  | cons c text ih =>
    by_cases hc : c = '\n'
    · subst hc
      rfl
    · have hall : ∀ b ∈ String.utf8EncodeChar c, (b != lineFeed) = true := fun b hb =>
        bne_iff_ne.2 fun heq => lineFeed_not_mem_encode hc (heq ▸ hb)
      rw [List.takeWhile_cons_of_pos (by simpa using hc), encode_cons, encode_cons, ih,
        List.takeWhile_append_of_pos hall]

end Text

open Text (encode lineFeed carriageReturn)

namespace Position

/-- The place behind some bytes: one line more than there are line feeds, and as many columns as there
are bytes behind the last of them. -/
def behind (bytes : List UInt8) : Position :=
  ⟨1 + bytes.count lineFeed, (bytes.reverse.takeWhile (· != lineFeed)).length⟩

/-- The place of an offset in a source. -/
def ofOffset (bytes : List UInt8) (offset : Nat) : Position := behind (bytes.take offset)

/-- Counting lines and columns over the bytes of a character passes the character. -/
theorem behind_encode_char (bytes : List UInt8) (c : Char) :
    behind (bytes ++ String.utf8EncodeChar c) = (behind bytes).next c := by
  by_cases hc : c = '\n'
  · subst hc
    have hfeed : String.utf8EncodeChar '\n' = [lineFeed] := by decide
    rw [hfeed]
    simp [behind, next, Nat.add_assoc]
  · have hmem := Text.lineFeed_not_mem_encode hc
    have hall : ∀ b ∈ (String.utf8EncodeChar c).reverse, (b != lineFeed) = true := by
      intro b hb
      rw [bne_iff_ne]
      exact fun heq => hmem (heq ▸ List.mem_reverse.1 hb)
    rw [behind, List.count_append, List.count_eq_zero.2 hmem, List.reverse_append,
      List.takeWhile_append_of_pos hall, List.length_append, List.length_reverse,
      String.length_utf8EncodeChar, next, if_neg hc]
    simp [behind, Nat.add_comm]

/-- **Reading a text moves to the place behind its bytes.** -/
theorem behind_encode (text : List Char) : behind (encode text) = origin.advance text := by
  induction text using List.reverseRecOn with
  | nil => rfl
  | append_singleton text c ih =>
    have hlast : encode [c] = String.utf8EncodeChar c := List.flatMap_singleton _ _
    rw [Text.encode_append, hlast, behind_encode_char, ih, advance_append]
    rfl

/-- The place of an offset is found by passing the text before it. -/
theorem ofOffset_encode (before rest : List Char) :
    ofOffset (encode (before ++ rest)) (encode before).length = origin.advance before := by
  rw [ofOffset, Text.encode_append, List.take_left, behind_encode]

end Position

/-! ## What lexemes are -/

namespace Lexeme

variable {c : Char} {cs : List Char} {kind : Token.Kind} {n : Nat}

/-- A name or a keyword has the text it was cut from. -/
theorem text_of_cutName (h : cutName c cs = ⟨.token kind, n⟩) :
    kind.text.toList = c :: cs.take n := by
  have htake : cs.take (cs.takeWhile isNameRest).length = cs.takeWhile isNameRest :=
    (List.prefix_iff_eq_take.1 (List.takeWhile_prefix _)).symm
  unfold cutName at h
  dsimp only at h
  obtain ⟨hkind, rfl⟩ := Cut.mk.inj h
  rw [htake]
  split at hkind
  next word hword =>
    obtain rfl := Kind.token.inj hkind
    have hspelled := List.find?_some hword
    rw [beq_iff_eq] at hspelled
    rw [Token.Kind.text, hspelled, String.toList_ofList]
  next =>
    obtain rfl := Kind.token.inj hkind
    exact String.toList_ofList

/-- So does a sign. -/
theorem text_of_cutSymbol (h : cutSymbol c cs = .ok ⟨.token kind, n⟩) :
    kind.text.toList = c :: cs.take n := by
  unfold cutSymbol at h
  split at h
  next symbol hsymbol =>
    cases h
    have hfound := List.find?_some hsymbol
    have hprefix := List.isPrefixOf_iff_prefix.1 hfound
    have hpos : 0 < symbol.text.length := by cases symbol <;> decide
    have htake := List.prefix_iff_eq_take.1 hprefix
    rw [String.length_toList] at htake
    obtain ⟨m, hm⟩ : ∃ m, symbol.text.length = m + 1 := ⟨symbol.text.length - 1, by omega⟩
    rw [hm, List.take_succ_cons] at htake
    rw [hm, Nat.add_sub_cancel]
    exact htake
  next => cases h

/-- **A token is cut off with its own text.** -/
theorem text_of_cut (h : cut? c cs = .ok ⟨.token kind, n⟩) : kind.text.toList = c :: cs.take n := by
  rcases cut_token_cases h with ⟨-, h⟩ | ⟨-, h⟩ | ⟨-, h⟩ | ⟨rfl, level, -, h⟩ | h
  · exact text_of_cutName h
  · unfold cutNumber at h
    dsimp only at h
    split at h
    · cases h
      exact String.toList_ofList
    · cases h
  · unfold cutString at h
    split at h
    · cases h
      exact String.toList_ofList
    · cases h
  · unfold cutLongString at h
    dsimp only at h
    split at h
    · cases h
      exact String.toList_ofList
    · cases h
  · exact text_of_cutSymbol h

/-- What the text of a lexeme is, by its class. -/
def Kind.Fits : Kind → List Char → Prop
  | .blank, text => ∀ c ∈ text, isSpace c = true
  | .lineComment, text | .blockComment _, text => ['-', '-'] <+: text
  | .token kind, text => kind ≠ .eof ∧ kind.text.toList = text

/-- **A lexeme is cut off with a text of its class.** -/
theorem fits_of_cut {cut : Cut} (h : cut? c cs = .ok cut) : cut.kind.Fits (c :: cs.take cut.more) := by
  obtain ⟨kind, n⟩ := cut
  cases kind with
  | token kind =>
    refine ⟨fun heof => ?_, text_of_cut h⟩
    have hspelled := isSpelled_of_cut h
    rw [heof] at hspelled
    exact absurd hspelled (by decide +kernel)
  | blank =>
    unfold cut? at h
    split at h
    next hspace =>
      have hn : n = (cs.takeWhile isSpace).length := (Cut.mk.inj (Except.ok.inj h)).2.symm
      rw [hn, ← List.prefix_iff_eq_take.1 (List.takeWhile_prefix _)]
      exact List.forall_mem_cons.2 ⟨hspace, fun c hc => List.mem_takeWhile_imp hc⟩
    · unfold cutComment cutName cutNumber cutString cutLongString cutSymbol at h
      dsimp only at h
      repeat' split at h
      all_goals cases h
  | lineComment | blockComment =>
    unfold cut? at h
    split at h
    · cases h
    split at h
    next hdashes =>
      obtain ⟨rfl, hhead⟩ := hdashes
      obtain ⟨rest, rfl⟩ := List.head?_eq_some_iff.1 hhead
      have hpos : 0 < n := by
        unfold cutComment at h
        dsimp only at h
        repeat' split at h
        all_goals cases h
        all_goals omega
      obtain ⟨m, rfl⟩ : ∃ m, n = m + 1 := ⟨n - 1, by omega⟩
      exact ⟨rest.take m, rfl⟩
    · -- no other lexeme is a comment
      unfold cutName cutNumber cutString cutLongString cutSymbol at h
      dsimp only at h
      repeat' split at h
      all_goals cases h

end Lexeme

namespace Lexemes

/-- Every lexeme has a text that fits its kind. -/
theorem fits_of_mem {skip : Nat} {text : List Char} {lexeme : Lexeme}
    (h : lexeme ∈ (ofTextFrom skip text).lexemes) :
    lexeme.text ≠ [] ∧ lexeme.kind.Fits lexeme.text := by
  fun_induction ofTextFrom skip text with
  | case1 => cases h
  | case2 skip c cs ih => exact ih h
  | case3 c cs cut hcut ih =>
    rcases List.mem_cons.1 h with rfl | h
    · exact ⟨List.cons_ne_nil _ _, Lexeme.fits_of_cut hcut⟩
    · exact ih h
  | case4 => cases h

/-- The lexemes of a text are its front, and the whole of it if there is no fault. -/
theorem exists_flatMap_text (skip : Nat) (text : List Char) :
    ∃ rest, text.drop skip = (ofTextFrom skip text).lexemes.flatMap Lexeme.text ++ rest ∧
      ((ofTextFrom skip text).fault = none → rest = []) := by
  fun_induction ofTextFrom skip text with
  | case1 skip => exact ⟨[], by simp, fun _ => rfl⟩
  | case2 skip c cs ih => exact ih
  | case3 c cs cut hcut ih =>
    obtain ⟨rest, htext, hrest⟩ := ih
    refine ⟨rest, ?_, hrest⟩
    rw [cons, List.flatMap_cons, List.append_assoc, ← htext]
    simp
  | case4 c cs fault hcut => exact ⟨c :: cs, rfl, fun h => absurd h (Option.some_ne_none fault)⟩

end Lexemes

/-! ## Tiles -/

/-- A stretch of a source: its class, and its bytes from an offset up to, and without, another. -/
structure Tile where
  kind : Lexeme.Kind
  start : Nat
  stop : Nat

namespace Tile

/-- The bytes of a tile. -/
def slice (bytes : List UInt8) (tile : Tile) : List UInt8 := bytes.extract tile.start tile.stop

/-- The places of a tile's ends. -/
def span (bytes : List UInt8) (tile : Tile) : Span :=
  ⟨.ofOffset bytes tile.start, .ofOffset bytes tile.stop⟩

/-- Tiles that follow one another without a gap from one offset to another, of which none is empty. -/
def Consecutive : Nat → List Tile → Nat → Prop
  | start, [], stop => start = stop
  | start, tile :: rest, stop =>
    tile.start = start ∧ tile.start < tile.stop ∧ Consecutive tile.stop rest stop

/-- The bytes of blanks. -/
def blanks : List UInt8 := [0x20, 0x09, 0x0d, 0x0a, 0x0b, 0x0c]

/-- **A tile has the bytes of its class**: blanks, a comment behind two dashes, or the text of the
token that it is. -/
def IsSound (bytes : List UInt8) (tile : Tile) : Prop :=
  match tile.kind with
  | .blank => ∀ b ∈ tile.slice bytes, b ∈ blanks
  | .lineComment | .blockComment _ => Text.bytes "--" <+: tile.slice bytes
  | .token kind => kind ≠ .eof ∧ Text.bytes kind.text = tile.slice bytes

/-- The token that a tile is, if it is one. -/
def token? (bytes : List UInt8) (tile : Tile) : Option Token :=
  match tile.kind with
  | .token kind => some ⟨kind, tile.span bytes⟩
  | _ => none

/-- Whether a tile is a comment. -/
def isComment (tile : Tile) : Bool :=
  match tile.kind with
  | .lineComment | .blockComment _ => true
  | _ => false

/-- Bytes without the carriage returns at their end. -/
def dropReturns (bytes : List UInt8) : List UInt8 :=
  (bytes.reverse.dropWhile (· == carriageReturn)).reverse

/-- The bytes of a comment's tile that are its text. -/
def commentBytes (bytes : List UInt8) (tile : Tile) : List UInt8 :=
  match tile.kind with
  | .lineComment => dropReturns (tile.slice bytes)
  | _ => tile.slice bytes

/-- **A tile is the place of a comment**, whose text is the tile's. -/
structure Records (bytes : List UInt8) (tile : Tile) (comment : Comment) : Prop where
  isBlock : comment.isBlock = true ↔ tile.kind ≠ .lineComment
  raw : Text.bytes comment.raw = tile.commentBytes bytes
  span : comment.span = tile.span bytes

/-- The tile of a lexeme behind some characters. -/
def ofLexeme (before : List Char) (lexeme : Lexeme) : Tile :=
  ⟨lexeme.kind, (encode before).length, (encode (before ++ lexeme.text)).length⟩

/-- The tiles of lexemes behind some characters. -/
def ofLexemes : List Char → List Lexeme → List Tile
  | _, [] => []
  | before, lexeme :: rest => ofLexeme before lexeme :: ofLexemes (before ++ lexeme.text) rest

variable (before rest : List Char) (lexeme : Lexeme)

/-- The bytes of a tile are those of its lexeme. -/
theorem slice_ofLexeme :
    (ofLexeme before lexeme).slice (encode (before ++ (lexeme.text ++ rest))) =
      encode lexeme.text := by
  simp [slice, ofLexeme, List.extract]

/-- The span of a tile is where its lexeme was passed. -/
theorem span_ofLexeme :
    (ofLexeme before lexeme).span (encode (before ++ (lexeme.text ++ rest))) =
      ⟨Position.origin.advance before, (Position.origin.advance before).advance lexeme.text⟩ := by
  have hstop := Position.ofOffset_encode (before ++ lexeme.text) rest
  rw [List.append_assoc] at hstop
  rw [span, ofLexeme, Position.ofOffset_encode, hstop, Position.advance_append]

/-- The bytes of a space are blank. -/
theorem mem_blanks {c : Char} (h : Lexeme.isSpace c = true) {b : UInt8}
    (hb : b ∈ String.utf8EncodeChar c) : b ∈ blanks := by
  have hall : [' ', '\t', '\r', '\n', '\x0b', '\x0c'].all (fun c =>
      (String.utf8EncodeChar c).all blanks.contains) = true := by decide
  have hencoded := List.all_eq_true.1 hall c (List.contains_iff_mem.1 h)
  exact List.contains_iff_mem.1 (List.all_eq_true.1 hencoded b hb)

/-- A tile says what its bytes are. -/
theorem isSound_ofLexeme (h : lexeme.kind.Fits lexeme.text) :
    (ofLexeme before lexeme).IsSound (encode (before ++ (lexeme.text ++ rest))) := by
  obtain ⟨kind, text⟩ := lexeme
  have hslice := slice_ofLexeme before rest ⟨kind, text⟩
  cases kind with
  | blank =>
    intro b hb
    rw [hslice] at hb
    obtain ⟨c, hc, hb⟩ := List.mem_flatMap.1 hb
    exact mem_blanks (h c hc) hb
  | lineComment | blockComment =>
    obtain ⟨more, rfl⟩ := h
    refine ⟨encode more, ?_⟩
    rw [hslice, Text.bytes_eq, Text.encode_append]
    rfl
  | token kind => exact ⟨h.1, by rw [hslice, Text.bytes_eq, h.2]⟩

/-- A text without its trailing carriage returns has the bytes without those of them. -/
theorem encode_dropReturns (text : List Char) :
    encode (Scan.dropReturns text) = dropReturns (encode text) := by
  induction text using List.reverseRecOn with
  | nil => rfl
  | append_singleton text c ih =>
    have hlast : encode [c] = String.utf8EncodeChar c := List.flatMap_singleton _ _
    by_cases hc : c = '\r'
    · subst hc
      have hreturn : encode ['\r'] = [carriageReturn] := by decide
      rw [Text.encode_append, hreturn]
      simpa [Scan.dropReturns, dropReturns] using ih
    · -- the last byte of another character is none of a carriage return
      have hne := Text.utf8EncodeChar_ne_nil c
      have hlength : ((String.utf8EncodeChar c).getLast hne == carriageReturn) = false :=
        beq_eq_false_iff_ne.2 fun heq =>
          Text.carriageReturn_not_mem_encode hc (heq ▸ List.getLast_mem hne)
      have hkeep : Scan.dropReturns (text ++ [c]) = text ++ [c] := by
        simp [Scan.dropReturns, hc]
      rw [hkeep, Text.encode_append, hlast, ← List.dropLast_concat_getLast hne, dropReturns]
      simp [hlength]

/-- A comment is told of the tile of its lexeme, and of no other tile. -/
theorem records_ofLexeme (comment : Comment)
    (h : Scan.comment? lexeme.kind lexeme.text
      ((ofLexeme before lexeme).span (encode (before ++ (lexeme.text ++ rest)))) = some comment) :
    (ofLexeme before lexeme).isComment = true ∧
      (ofLexeme before lexeme).Records (encode (before ++ (lexeme.text ++ rest))) comment := by
  obtain ⟨kind, text⟩ := lexeme
  have hslice := slice_ofLexeme before rest ⟨kind, text⟩
  cases kind with
  | lineComment =>
    cases h
    refine ⟨rfl, by simp [ofLexeme], ?_, rfl⟩
    rw [Text.bytes_ofList, encode_dropReturns, ← hslice]
    rfl
  | blockComment level =>
    cases h
    refine ⟨rfl, by simp [ofLexeme], ?_, rfl⟩
    rw [Text.bytes_ofList, ← hslice]
    rfl
  | blank | token => cases h

end Tile

/-- **A scan tells of tiles** of a source from an offset to another: its tokens are those of the tiles,
followed by the end of the source if there is no fault, which stands behind the tiles; its comments are
told of the tiles that are comments, one of each. -/
structure Scan.Tiled (scan : Scan) (bytes : List UInt8) (start : Nat) (tiles : List Tile)
    (stop : Nat) : Prop where
  consecutive : Tile.Consecutive start tiles stop
  sound : ∀ tile ∈ tiles, tile.IsSound bytes
  tokens : scan.tokens = tiles.filterMap (Tile.token? bytes) ++
    if scan.fault.isNone then [⟨.eof, .ofOffset bytes stop, .ofOffset bytes stop⟩] else []
  comments : List.Forall₂ (Tile.Records bytes) (tiles.filter Tile.isComment) scan.comments
  fault : ∀ fault ∈ scan.fault, fault.position = .ofOffset bytes stop

namespace Scan

variable {fault : Option LexicalFault}

/-- A lexeme in front of others puts its tile in front of theirs. -/
theorem Tiled.cons {before rest : List Char} {lexeme : Lexeme} {lexemes : List Lexeme}
    {tiles : List Tile} {stop : Nat} (hne : lexeme.text ≠ [])
    (hfits : lexeme.kind.Fits lexeme.text)
    (h : (ofLexemes fault (Position.origin.advance (before ++ lexeme.text)) lexemes).Tiled
      (encode (before ++ (lexeme.text ++ rest))) (encode (before ++ lexeme.text)).length tiles stop) :
    (ofLexemes fault (Position.origin.advance before) (lexeme :: lexemes)).Tiled
      (encode (before ++ (lexeme.text ++ rest))) (encode before).length
      (.ofLexeme before lexeme :: tiles) stop := by
  have hspan := Tile.span_ofLexeme before rest lexeme
  have hlength : (encode before).length < (encode (before ++ lexeme.text)).length := by
    have hpos := List.length_pos_iff.2 (Text.encode_ne_nil hne)
    rw [Text.encode_append, List.length_append]
    omega
  have hsound := Tile.isSound_ofLexeme before rest lexeme hfits
  rw [Position.advance_append] at h
  have hconsecutive : Tile.Consecutive (encode before).length (.ofLexeme before lexeme :: tiles) stop :=
    ⟨rfl, hlength, h.consecutive⟩
  have hrecord := Tile.records_ofLexeme before rest lexeme
  rw [hspan] at hrecord
  -- the lexeme adds its token or its comment, and leaves the fault as it is
  refine ⟨hconsecutive, List.forall_mem_cons.2 ⟨hsound, h.sound⟩, ?_, ?_, ?_⟩
  · rw [ofLexemes]
    cases hkind : lexeme.kind with
    | token kind =>
      have htoken : (Tile.ofLexeme before lexeme).token? (encode (before ++ (lexeme.text ++ rest))) =
          some ⟨kind, Position.origin.advance before,
            (Position.origin.advance before).advance lexeme.text⟩ := by
        rw [Tile.token?, hspan, Tile.ofLexeme, hkind]
      simp only [List.filterMap_cons_some htoken, List.cons_append, h.tokens]
    | blank | lineComment | blockComment =>
      have htoken : (Tile.ofLexeme before lexeme).token? (encode (before ++ (lexeme.text ++ rest))) =
          none := by
        rw [Tile.token?, Tile.ofLexeme, hkind]
      simp only [List.filterMap_cons_none htoken, h.tokens]
  · rw [ofLexemes]
    cases hkind : lexeme.kind with
    | blank | token =>
      have hcomment : (Tile.ofLexeme before lexeme).isComment = false := by
        rw [Tile.isComment, Tile.ofLexeme, hkind]
      rw [List.filter_cons_of_neg (by simp [hcomment])]
      exact h.comments
    | lineComment | blockComment =>
      rw [hkind] at hrecord
      obtain ⟨hcomment, hrecords⟩ := hrecord _ rfl
      rw [List.filter_cons_of_pos hcomment]
      exact .cons hrecords h.comments
  · rw [ofLexemes]
    cases lexeme.kind <;> exact h.fault

/-- **A scan of lexemes tells of their tiles.** -/
theorem tiled_ofLexemes {lexemes : List Lexeme}
    (h : ∀ lexeme ∈ lexemes, lexeme.text ≠ [] ∧ lexeme.kind.Fits lexeme.text)
    (before rest : List Char) :
    (ofLexemes fault (Position.origin.advance before) lexemes).Tiled
      (encode (before ++ (lexemes.flatMap Lexeme.text ++ rest))) (encode before).length
      (Tile.ofLexemes before lexemes) (encode (before ++ lexemes.flatMap Lexeme.text)).length := by
  -- along the lexemes, with the text in front of them
  induction lexemes generalizing before with
  | nil =>
    have hplace := Position.ofOffset_encode before rest
    have hend : before ++ ([] : List Lexeme).flatMap Lexeme.text = before := List.append_nil _
    have hsource : ([] : List Lexeme).flatMap Lexeme.text ++ rest = rest := rfl
    rw [hend, hsource]
    refine ⟨rfl, List.forall_mem_nil _, ?_, ?_, ?_⟩
    · cases fault with
      | none => rw [hplace]; rfl
      | some fault => rfl
    · cases fault <;> exact .nil
    · rw [hplace]
      cases fault with
      | none => exact fun _ h => nomatch h
      | some fault => exact fun _ h => Option.mem_some_iff.1 h ▸ rfl
  | cons lexeme lexemes ih =>
    obtain ⟨⟨hne, hfits⟩, hrest⟩ := List.forall_mem_cons.1 h
    have htail := ih hrest (before ++ lexeme.text)
    rw [List.append_assoc, List.append_assoc] at htail
    rw [List.flatMap_cons, List.append_assoc]
    exact Tiled.cons hne hfits htail

/-- Only a scan without fault has an end among its tokens. -/
theorem Tiled.fault_eq_none {scan : Scan} {bytes : List UInt8} {start stop : Nat} {tiles : List Tile}
    (h : scan.Tiled bytes start tiles stop) {token : Token} (htoken : token ∈ scan.tokens)
    (heof : token.kind = .eof) : scan.fault = none := by
  rw [h.tokens, List.mem_append] at htoken
  rcases htoken with htoken | htoken
  · obtain ⟨tile, htile, hsome⟩ := List.mem_filterMap.1 htoken
    have hsound := h.sound tile htile
    unfold Tile.token? at hsome
    split at hsome
    next kind hkind =>
      rw [Tile.IsSound, hkind] at hsound
      cases hsome
      exact absurd heof hsound.1
    · cases hsome
  · split at htoken
    next hnone => exact Option.isNone_iff_eq_none.1 hnone
    · cases htoken

/-- A fault of the scan is that of its lexemes. -/
theorem fault_ofLexemes_eq_none {here : Position} {lexemes : List Lexeme} :
    (ofLexemes fault here lexemes).fault = none ↔ fault = none := by
  induction lexemes generalizing here with
  | nil => cases fault <;> simp [ofLexemes]
  | cons lexeme lexemes ih =>
    rw [ofLexemes]
    cases lexeme.kind <;> exact ih

/-- A scan without a fault ends with the end of the text. -/
theorem ofLexemes_eof {lexemes : List Lexeme}
    (h : ∀ lexeme ∈ lexemes, ∀ kind, lexeme.kind = .token kind → kind.isSpelled = true)
    (here : Position) : ∃ front place,
      (ofLexemes none here lexemes).tokens = front ++ [⟨.eof, ⟨place, place⟩⟩] ∧
      ∀ token ∈ front, token.kind.isSpelled = true := by
  induction lexemes generalizing here with
  | nil => exact ⟨[], here, rfl, List.forall_mem_nil _⟩
  | cons lexeme rest ih =>
    obtain ⟨front, place, hrest, hfront⟩ := ih (fun l hl => h l (List.mem_cons_of_mem _ hl))
      (here.advance lexeme.text)
    unfold ofLexemes
    dsimp only
    split
    next kind hkind =>
      refine ⟨⟨kind, _⟩ :: front, place, by rw [hrest, List.cons_append], ?_⟩
      exact List.forall_mem_cons.2 ⟨h lexeme List.mem_cons_self kind hkind, hfront⟩
    next => exact ⟨front, place, hrest, hfront⟩

/-- Without a fault the last token is the end of the text, which has no width, and all others are
spelled right. -/
theorem ofText_eof {text : List Char} (h : (ofText text).fault = none) : ∃ front place,
    (ofText text).tokens = front ++ [⟨.eof, ⟨place, place⟩⟩] ∧
      ∀ token ∈ front, token.kind.isSpelled = true := by
  have hfault := fault_ofLexemes_eq_none.1 h
  unfold ofText
  dsimp only
  rw [hfault]
  exact ofLexemes_eof (fun _ hl _ hkind => isSpelled_of_mem_lexemes hl hkind) _

/-- So the last token is that end. -/
theorem ofText_last {text : List Char} (h : (ofText text).fault = none) :
    ∀ token ∈ (ofText text).tokens.getLast?, ∃ place, token = ⟨.eof, ⟨place, place⟩⟩ := by
  intro token htoken
  obtain ⟨front, place, heof, -⟩ := ofText_eof h
  rw [heof, List.getLast?_concat, Option.mem_some_iff] at htoken
  exact ⟨place, htoken.symm⟩

/-- The scan of a text behind another tells of tiles of it. -/
theorem tiled_behind (line text : List Char) : ∃ tiles stop,
    (ofLexemes (Lexemes.ofText text).fault (Position.origin.advance line)
      (Lexemes.ofText text).lexemes).Tiled (encode (line ++ text)) (encode line).length tiles stop ∧
      stop ≤ (encode (line ++ text)).length ∧
      ((Lexemes.ofText text).fault = none → stop = (encode (line ++ text)).length) := by
  obtain ⟨rest, htext, hrest⟩ := Lexemes.exists_flatMap_text 0 text
  have hfits : ∀ lexeme ∈ (Lexemes.ofText text).lexemes,
      lexeme.text ≠ [] ∧ lexeme.kind.Fits lexeme.text := fun _ => Lexemes.fits_of_mem
  have htiled : (ofLexemes (Lexemes.ofText text).fault _ _).Tiled _ _ _ _ :=
    tiled_ofLexemes hfits line rest
  rw [List.drop_zero] at htext
  change text = (Lexemes.ofText text).lexemes.flatMap Lexeme.text ++ rest at htext
  rw [← htext] at htiled
  refine ⟨_, _, htiled, ?_, fun hfault => ?_⟩
  · conv_rhs => rw [htext, ← List.append_assoc, Text.encode_append, List.length_append]
    exact Nat.le_add_right ..
  · rw [hrest hfault, List.append_nil] at htext
    rw [← htext]

/-- A line for the interpreter stands at the start. -/
theorem interpreterLine_isPrefix (text : List Char) : interpreterLine text <+: text := by
  unfold interpreterLine
  split
  next rest => simpa only [List.cons_prefix_cons, true_and] using List.takeWhile_prefix _
  · exact List.nil_prefix

/-- The scan of a text tells of tiles behind the line that names an interpreter. -/
theorem tiled_ofText (text : List Char) : ∃ tiles stop,
    (ofText text).Tiled (encode text) (encode (interpreterLine text)).length tiles stop ∧
      stop ≤ (encode text).length ∧ ((ofText text).fault = none → stop = (encode text).length) := by
  have hsource := List.prefix_iff_eq_append.1 (interpreterLine_isPrefix text)
  obtain ⟨tiles, stop, htiled, hstop, hend⟩ :=
    tiled_behind (interpreterLine text) (text.drop (interpreterLine text).length)
  rw [hsource] at htiled hstop hend
  exact ⟨tiles, stop, htiled, hstop, fun hfault => hend (fault_ofLexemes_eq_none.1 hfault)⟩

end Scan

/-! ## Sources -/

/-- A program is read only from a scan that has no fault. -/
theorem scan_fault_of_parse {source : String} {chunk : Chunk}
    (hparse : (parse source).result = .ok chunk) : (Scan.ofText source.toList).fault = none := by
  obtain ⟨tiles, stop, htiled, -, -⟩ := Scan.tiled_ofText source.toList
  rcases eof_mem_of_parse hparse with ⟨-, hfault⟩ | ⟨token, htoken, heof⟩
  · exact hfault
  · exact htiled.fault_eq_none htoken heof

/-- How many bytes at the start of a source name an interpreter: its first line, if it starts with
`#!`. -/
def interpreterLength (bytes : List UInt8) : Nat :=
  if Text.bytes "#!" <+: bytes then (bytes.takeWhile (· != lineFeed)).length else 0

/-- And is as long as the bytes that are skipped. -/
theorem length_encode_interpreterLine (text : List Char) :
    (encode (Scan.interpreterLine text)).length = interpreterLength (encode text) := by
  have hmark : Text.bytes "#!" <+: encode text ↔ ['#', '!'] <+: text := by
    rw [Text.bytes_eq]
    exact Text.encode_prefix_iff (by simp)
  unfold Scan.interpreterLine interpreterLength
  split
  next rest =>
    rw [if_pos (hmark.2 ⟨rest, rfl⟩), ← Text.encode_takeWhile_ne_newline]
    rfl
  next hline =>
    rw [if_neg]
    · rfl
    · rintro hprefix
      obtain ⟨rest, rfl⟩ := hmark.1 hprefix
      exact hline rest rfl

/-- **The scan of a source tiles it.** Behind the line that names an interpreter, the bytes of a source
up to its end, or up to the first fault, are a row of tiles without gaps, each with the bytes of its
class. The tokens of the scan are those of the tiles, at the places of their ends, and each tile that is
a comment is told of once. A source that parses has no fault, and the comments of the program are those
of its tiles. -/
theorem scan_tiles_source (source : String) : ∃ tiles stop,
    (Scan.ofText source.toList).Tiled (Text.bytes source) (interpreterLength (Text.bytes source))
      tiles stop ∧
    stop ≤ (Text.bytes source).length ∧
    ((Scan.ofText source.toList).fault = none → stop = (Text.bytes source).length) ∧
    ∀ chunk, (parse source).result = .ok chunk → (Scan.ofText source.toList).fault = none ∧
      List.Forall₂ (Tile.Records (Text.bytes source)) (tiles.filter Tile.isComment)
        (parse source).comments := by
  obtain ⟨tiles, stop, htiled, hstop, hend⟩ := Scan.tiled_ofText source.toList
  rw [length_encode_interpreterLine] at htiled
  rw [Text.bytes_eq]
  refine ⟨tiles, stop, htiled, hstop, hend, fun chunk hparse => ⟨scan_fault_of_parse hparse, ?_⟩⟩
  rw [comments_parse]
  exact htiled.comments

/-- A line that names an interpreter, a table whose fields are looked at ahead, comments of both sorts,
a letter of two bytes and a string of two lines. -/
def taggedText : String :=
  "#!lua\nf\x7ba = 1, --[[b\n]] c\x7d -- é\r\nreturn \"x\\z\n  y\""

theorem scan_tiles_taggedText : ∃ chunk, (parse taggedText).result = .ok chunk ∧
    (parse taggedText).comments.map Comment.raw = ["--[[b\n]]", "-- é"] ∧
    ∃ tiles, (Scan.ofText taggedText.toList).Tiled (Text.bytes taggedText) 5 tiles 50 ∧
      List.Forall₂ (Tile.Records (Text.bytes taggedText)) (tiles.filter Tile.isComment)
        (parse taggedText).comments := by
  have hparses : (parse taggedText).result.toOption.isSome = true ∧
      (parse taggedText).comments.map Comment.raw = ["--[[b\n]]", "-- é"] := by
    rw [taggedText, parse_ofList]
    decide +kernel
  have hlengths : interpreterLength (Text.bytes taggedText) = 5 ∧
      (Text.bytes taggedText).length = 50 := by decide +kernel
  obtain ⟨chunk, hparse⟩ := Parsed.exists_of_isSome hparses.1
  obtain ⟨tiles, stop, htiled, -, hend, hcomments⟩ := scan_tiles_source taggedText
  obtain ⟨hfault, hrecords⟩ := hcomments chunk hparse
  rw [hend hfault, hlengths.1, hlengths.2] at htiled
  exact ⟨chunk, hparse, hparses.2, tiles, htiled, hrecords⟩

end LuaCompiler
