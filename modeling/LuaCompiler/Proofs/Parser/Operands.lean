import LuaCompiler.Proofs.Parser.Suffixes

/-!
# Reading rows, constructors and calls

Productions that put expressions in a row, given that each of the expressions is read as itself:
lists, table constructors, the three forms of a call, members, indices, and functions with their
parameters.
-/

namespace LuaCompiler.Parser

open Token (Kind)

variable {kinds rest : List Kind} {k : Kind} {e base index : Expr} {es : List Expr} {id : NodeId}
  {span : Span} {b : Nat}

/-- A token that ends a row of expressions. -/
def StopsRow (k : Kind) : Prop := Stops 0 k ∧ k ≠ .symbol .comma

theorem stopsRow_of_none (hk : opensSuffix k = false) (hc : Connective.ofToken? k = none)
    (hcomma : k ≠ .symbol .comma) : StopsRow k :=
  ⟨stops_of_none hk hc, hcomma⟩

/-- A row has at least one token for each of its items. -/
theorem length_le_commaSeparated {items : List (List Kind)} (h : ∀ kinds ∈ items, kinds ≠ []) :
    items.length ≤ (commaSeparated items).length := by
  induction items with
  | nil => exact Nat.zero_le _
  | cons kinds items ih =>
    have hpos := List.length_pos_iff.2 (h kinds (List.mem_cons_self ..))
    have ih := ih fun kinds hkinds => h kinds (List.mem_cons_of_mem _ hkinds)
    cases items with
    | nil => exact hpos
    | cons second items =>
      simp only [commaSeparated, List.length_cons, List.length_append] at ih ⊢
      omega

/-! ## Expressions in a row -/

/-- A list begins as its first expression does. -/
theorem starts_expressions (hes : es ≠ []) (h : ∀ e ∈ es, Readable e) :
    Starts (commaSeparated (exprTokens es)) := by
  match es with
  | [] => exact absurd rfl hes
  | [e] => exact (h e (List.mem_cons_self ..)).climbs.starts
  | e :: _ :: _ => exact (h e (List.mem_cons_self ..)).climbs.starts.append (by simp) (by simp)

/-- **Expressions in a row**, each read from tokens of its own. -/
theorem takes_row (items : List (List Kind × Expr)) (hitems : items ≠ [])
    (h : ∀ item ∈ items, ∃ floor reach, 0 < floor ∧ Climbs item.1 item.2 floor reach)
    (hb : 4 * (commaSeparated (items.map Prod.fst)).length + 1 ≤ b) :
    Takes (expressions b) (commaSeparated (items.map Prod.fst)) StopsRow
      fun es' => exprsBare es' = exprsBare (items.map Prod.snd) := by
  induction items generalizing b with
  | nil => exact absurd rfl hitems
  | cons item items ih =>
    obtain ⟨b, rfl⟩ : ∃ m, b = m + 1 := ⟨b - 1, by omega⟩
    obtain ⟨kinds, e⟩ := item
    obtain ⟨floor, reach, hfloor, he : Climbs kinds e floor reach⟩ := h _ (List.mem_cons_self ..)
    intro rest hrest
    rw [expressions]
    -- the comma tells whether there is another item
    cases items with
    | nil =>
      simp only [List.map_cons, List.map_nil, commaSeparated] at hb ⊢
      apply (he.takes (by omega) hfloor (Nat.zero_le _)).bind hrest.1
      intro e' he'
      refine Reads.refuse hrest.2 (Reads.pure ⟨rfl, ?_⟩)
      simp [exprsBare, he']
    | cons second items =>
      have htail := ih (b := b) (by simp) (fun item hitem => h item (List.mem_cons_of_mem _ hitem))
      simp only [List.map_cons, commaSeparated, List.length_append, List.length_cons,
        List.append_assoc, List.cons_append] at hb htail ⊢
      have hcomma : Stops 0 (next (.symbol .comma ::
          (commaSeparated (second.1 :: items.map Prod.fst) ++ rest))) := stops_of_none rfl rfl
      apply (he.takes (by omega) hfloor (Nat.zero_le _)).bind hcomma
      intro e' he'
      refine Reads.accept ?_
      apply (htail (by omega)).bind hrest
      intro es' hes'
      refine Reads.pure ⟨rfl, ?_⟩
      simp only [exprsBare] at hes' ⊢
      rw [he', hes']

theorem exprTokens_eq (es : List Expr) : exprTokens es = es.map Expr.tokens := by
  induction es with
  | nil => rfl
  | cons e es ih => rw [exprTokens, ih, List.map_cons]

theorem exprsBare_eq (es : List Expr) : exprsBare es = es.map Expr.bare := by
  induction es with
  | nil => rfl
  | cons e es ih => rw [exprsBare, ih, List.map_cons]

/-- **Expressions in a row**, each written as it is. -/
theorem takes_expressions (hes : es ≠ []) (h : ∀ e ∈ es, Readable e)
    (hb : 4 * (commaSeparated (exprTokens es)).length + 1 ≤ b) :
    Takes (expressions b) (commaSeparated (exprTokens es)) StopsRow
      fun es' => exprsBare es' = exprsBare es := by
  have hrow := takes_row (b := b) (es.map fun e => (e.tokens, e)) (by simpa using hes)
  simp only [List.map_map, Function.comp_def, ← exprTokens_eq, List.map_id', List.forall_mem_map]
    at hrow
  exact hrow (fun e he => ⟨_, _, floor_pos _, (h e he).climbs⟩) hb

/-! ## Table constructors -/

/-- The expressions of a field are read as themselves. -/
def FieldReadable : FieldKind → Prop
  | .named _ value => Readable value
  | .keyed key value => Readable key ∧ Readable value
  | .positional value => Readable value

/-- Whether a field is named is told by two tokens. -/
theorem Reads.isNamedField {β : Type} {f : Bool → Parser β} {Q : β → List Kind → Prop}
    (h : Reads (f (startsNamed kinds)) kinds Q) : Reads (isNamedField >>= f) kinds Q := by
  intro s hs
  have hcurrent := hs.current
  have hkinds := hs.kinds
  refine post_bind.2 ?_
  unfold Parser.isNamedField
  -- the token behind the name decides, and it is looked at without being taken
  rw [post_bind, post_peek, hcurrent]
  cases kinds with
  | nil => exact h s hs
  | cons k kinds =>
    rw [next_cons]
    split
    next word =>
      rw [post_bind, post_get]
      cases hrest : s.rest with
      | nil =>
        rw [hrest] at hkinds
        have hnil := (List.cons.inj hkinds).2
        simp at hnil
      | cons token tokens =>
        have hkind : (token.kind == .symbol .assign) = startsNamed (.name word :: kinds) := by
          rw [hrest] at hkinds
          have htail := (List.cons.inj hkinds).2
          cases kinds with
          | nil =>
            rw [show token.kind = .eof from (List.cons.inj htail).1]
            rfl
          | cons k kinds =>
            rw [show token.kind = k from (List.cons.inj htail).1]
            rfl
        dsimp only
        rw [hkind]
        exact h s hs
    next hname =>
      have hnamed : startsNamed (k :: kinds) = false := by
        unfold startsNamed
        split
        next heq => exact absurd (List.cons.inj heq).1 (hname _)
        · rfl
      rw [hnamed] at h
      exact h s hs

/-- **A field is read as itself** from some tokens. -/
structure FieldReads (kinds : List Kind) (kind : FieldKind) : Prop where
  first : ∀ more, next (kinds ++ more) ≠ .symbol .rightBrace
  takes : ∀ {b : Nat}, 4 * kinds.length ≤ b → Takes (fieldKind (subexpression b 0)) kinds
    (fun k => Stops 0 k ∧ k ≠ .symbol .assign) fun kind' => kind'.bare = kind.bare

/-- A named field is read back. -/
theorem fieldReads_named {value : Expr} (h : Readable value) (key : Identifier) :
    FieldReads (FieldKind.named key value).tokens (.named key value) where
  first more := by simp [FieldKind.tokens]
  takes hb := by
    intro rest hrest
    rw [fieldKind]
    simp only [FieldKind.tokens, List.length_cons, List.cons_append] at hb ⊢
    refine Reads.refuse (by simp) (Reads.isNamedField ?_)
    refine Reads.name fun id span => Reads.expect ?_
    apply (h.takes (by omega)).bind hrest.1
    intro value' hvalue
    refine Reads.pure ⟨rfl, ?_⟩
    simp [FieldKind.bare, Identifier.bare, hvalue]

/-- A keyed field is read back. -/
theorem fieldReads_keyed {key value : Expr} (hkey : Readable key) (h : Readable value) :
    FieldReads (FieldKind.keyed key value).tokens (.keyed key value) where
  first more := by simp [FieldKind.tokens]
  takes hb := by
    intro rest hrest
    rw [fieldKind]
    simp only [FieldKind.tokens, List.length_cons, List.length_append, List.cons_append,
      List.append_assoc] at hb ⊢
    refine Reads.accept ?_
    have hbracket : Stops 0 (next (.symbol .rightBracket :: .symbol .assign ::
        (value.tokens ++ rest))) := stops_of_none rfl rfl
    apply (hkey.takes (by omega)).bind hbracket
    intro key' hkey'
    refine Reads.expect (Reads.expect ?_)
    apply (h.takes (by omega)).bind hrest.1
    intro value' hvalue
    refine Reads.pure ⟨rfl, ?_⟩
    simp [FieldKind.bare, hkey', hvalue]

/-- A field without a key, of which the tokens start with no bracket or brace. -/
theorem fieldReads_positional {value : Expr} {floor reach : Nat}
    (h : Climbs kinds value floor reach) (hfloor : 0 < floor) :
    FieldReads kinds (.positional value) where
  first more := by
    rw [h.starts.next_append]
    intro heq
    have hopens := h.starts.opens
    rw [heq] at hopens
    cases hopens
  takes hb := by
    intro rest hrest
    rw [fieldKind]
    have hbracket : next (kinds ++ rest) ≠ .symbol .leftBracket := by
      rw [h.starts.next_append]
      intro heq
      have hopens := h.starts.opens
      rw [heq] at hopens
      cases hopens
    refine Reads.refuse hbracket (Reads.isNamedField ?_)
    rw [h.starts.positional rest hrest.2]
    apply (h.takes hb hfloor (Nat.zero_le _)).bind hrest.1
    intro value' hvalue
    refine Reads.pure ⟨rfl, ?_⟩
    simp [FieldKind.bare, hvalue]

theorem FieldReadable.reads {kind : FieldKind} (h : FieldReadable kind) :
    FieldReads kind.tokens kind := by
  cases kind with
  | named key value => exact fieldReads_named h key
  | keyed key value => exact fieldReads_keyed h.1 h.2
  | positional value => exact fieldReads_positional (show Readable value from h).climbs (floor_pos _)

/-- A field is read up to the sign that ends it. -/
theorem takes_field {kind : FieldKind} (h : FieldReads kinds kind) (hb : 4 * kinds.length ≤ b) :
    Takes (field (subexpression b 0)) kinds
      (fun k => Stops 0 k ∧ k ≠ .symbol .assign) fun f' => f'.kind.bare = kind.bare := by
  intro rest hrest
  rw [field]
  refine Reads.here fun start => ?_
  apply (h.takes hb).bind hrest
  intro kind' hkind
  exact Reads.freshId fun id => Reads.spanFrom fun span => Reads.pure ⟨rfl, hkind⟩

theorem fieldsBare_eq (fs : List Field) :
    fieldsBare fs = fs.map fun f => ⟨0, default, f.kind.bare⟩ := by
  induction fs with
  | nil => rfl
  | cons f fs ih =>
    cases f
    rw [fieldsBare, ih, List.map_cons]

theorem fieldTokens_eq (fs : List Field) : fieldTokens fs = fs.map fun f => f.kind.tokens := by
  induction fs with
  | nil => rfl
  | cons f fs ih =>
    cases f
    rw [fieldTokens, ih, List.map_cons]

/-- **Fields in a row**, each read from tokens of its own, up to the brace behind them. -/
theorem takes_fieldRow (items : List (List Kind × FieldKind)) {bound : Nat}
    (h : ∀ item ∈ items, FieldReads item.1 item.2)
    (hb : 4 * (commaSeparated (items.map Prod.fst)).length ≤ b) (hbound : items.length < bound) :
    Takes (fields (subexpression b 0) bound) (commaSeparated (items.map Prod.fst))
      (fun k => k = .symbol .rightBrace)
      fun fs' => fieldsBare fs' = items.map fun item => ⟨0, default, item.2.bare⟩ := by
  induction items generalizing bound with
  | nil =>
    intro rest hrest
    obtain ⟨bound, rfl⟩ : ∃ m, bound = m + 1 := ⟨bound - 1, by omega⟩
    rw [fields]
    refine Reads.isNext ?_
    rw [List.map_nil, commaSeparated, List.nil_append, hrest]
    exact Reads.pure ⟨rfl, rfl⟩
  | cons item items ih =>
    obtain ⟨kinds, kind⟩ := item
    have hf : FieldReads kinds kind := h _ (List.mem_cons_self ..)
    -- a field does not begin with the brace that ends the table
    have hnext : ∀ more, (next (kinds ++ more) == .symbol .rightBrace) = false :=
      fun more => by simpa using hf.first more
    intro rest hrest
    obtain ⟨bound, rfl⟩ : ∃ m, bound = m + 1 := ⟨bound - 1, by omega⟩
    rw [List.length_cons] at hbound
    rw [fields]
    refine Reads.isNext ?_
    -- the comma behind a field tells the last one from the others
    cases items with
    | nil =>
      simp only [List.map_cons, List.map_nil, commaSeparated] at hb ⊢
      rw [hnext]
      have hstops : Stops 0 (next rest) ∧ next rest ≠ .symbol .assign := by
        rw [hrest]
        exact ⟨stops_of_none rfl rfl, by simp⟩
      apply (takes_field hf hb).bind hstops
      intro f' hf'
      refine Reads.refuse (by simp [hrest]) (Reads.refuse (by simp [hrest]) ?_)
      refine Reads.pure ⟨rfl, ?_⟩
      simp [fieldsBare_eq, hf']
    | cons second items =>
      simp only [List.map_cons, commaSeparated, List.length_append, List.length_cons,
        List.append_assoc, List.cons_append] at hb ih hbound ⊢
      rw [hnext]
      have hcomma : Stops 0 (next (.symbol .comma ::
          (commaSeparated (second.1 :: items.map Prod.fst) ++ rest))) ∧
          next (.symbol .comma :: (commaSeparated (second.1 :: items.map Prod.fst) ++ rest)) ≠
            .symbol .assign := ⟨stops_of_none rfl rfl, by simp⟩
      apply (takes_field hf (by omega)).bind hcomma
      intro f' hf'
      refine Reads.accept ?_
      apply (ih (fun item hitem => h item (List.mem_cons_of_mem _ hitem)) (by omega)
        (by omega)).bind hrest
      intro fs' hfs'
      refine Reads.pure ⟨rfl, ?_⟩
      rw [fieldsBare_eq] at hfs' ⊢
      rw [List.map_cons, hf', hfs']

/-- **Fields in a row**, each written as it is. -/
theorem takes_fields {fs : List Field} {bound : Nat} (h : ∀ f ∈ fs, FieldReadable f.kind)
    (hb : 4 * (commaSeparated (fieldTokens fs)).length ≤ b) (hbound : fs.length < bound) :
    Takes (fields (subexpression b 0) bound) (commaSeparated (fieldTokens fs))
      (fun k => k = .symbol .rightBrace) fun fs' => fieldsBare fs' = fieldsBare fs := by
  have hrow := @takes_fieldRow b (fs.map fun f => (f.kind.tokens, f.kind)) bound
  simp only [List.map_map, Function.comp_def, ← fieldTokens_eq, ← fieldsBare_eq,
    List.forall_mem_map, List.length_map] at hrow
  exact hrow (fun f hf => (h f hf).reads) hb hbound

theorem length_le_fieldTokens {fs : List Field} (h : ∀ f ∈ fs, FieldReadable f.kind) :
    fs.length ≤ (commaSeparated (fieldTokens fs)).length := by
  have hle : (fieldTokens fs).length ≤ (commaSeparated (fieldTokens fs)).length := by
    apply length_le_commaSeparated
    rw [fieldTokens_eq]
    intro kinds hkinds hnil
    obtain ⟨f, hf, rfl⟩ := List.mem_map.1 hkinds
    apply (h f hf).reads.first [.symbol .rightBrace]
    rw [hnil]
    rfl
  rwa [fieldTokens_eq, List.length_map, ← fieldTokens_eq] at hle

/-- **A table constructor.** -/
theorem takes_table {fs : List Field} (h : ∀ f ∈ fs, FieldReadable f.kind)
    (hb : 4 * (ExprKind.table fs).tokens.length ≤ b + 1) :
    Takes (table b (subexpression b 0)) (ExprKind.table fs).tokens (fun _ => True)
      fun e' => e'.bare = (Expr.mk id span (.table fs)).bare := by
  intro rest _
  simp only [ExprKind.tokens, List.length_cons, List.length_append, List.length_nil,
    List.cons_append, List.append_assoc, List.nil_append] at hb ⊢
  have hcount := length_le_fieldTokens h
  rw [table]
  refine Reads.here fun start => Reads.expect ?_
  apply (takes_fields h (by omega) (by omega)).bind rfl
  intro fs' hfs'
  refine Reads.expect ?_
  simp only [expr]
  refine Reads.freshId fun id => Reads.spanFrom fun span => Reads.pure ⟨rfl, ?_⟩
  simp [Expr.bare, ExprKind.bare, hfs']

/-- A table is read back when its fields are. -/
theorem climbs_table {fs : List Field} (h : ∀ f ∈ fs, FieldReadable f.kind) :
    Climbs (ExprKind.table fs).tokens ⟨id, span, .table fs⟩ 15 14 := by
  have hfirst : next (ExprKind.table fs).tokens = .symbol .leftBrace := rfl
  have hstarts : Starts (ExprKind.table fs).tokens := Starts.of_ne_name rfl (by simp)
  apply climbs_simple hstarts (by rw [hfirst]; rfl)
  intro b hb rest _
  rw [simple]
  refine Reads.here fun start => Reads.peek ?_
  rw [hstarts.next_append, hfirst]
  exact takes_table h hb rest trivial

/-! ## Members, indices and calls -/

/-- A chain goes on with a member. -/
theorem chains_member (h : Chains kinds base) (identifier : Identifier) :
    Chains (kinds ++ [.symbol .dot, .name identifier.name])
      ⟨id, span, .member base .dot identifier⟩ := by
  refine h.append (by simp) (by simp) fun {b base' start rest} _ hbase => ?_
  simp only [suffix?, List.cons_append, List.nil_append]
  refine Reads.peek ?_
  rw [next_cons]
  refine Reads.advance fun _ _ => Reads.name fun id span => Reads.expr fun id' span' => ?_
  refine Reads.pure ⟨rfl, _, rfl, ?_⟩
  simp [Expr.bare, ExprKind.bare, Identifier.bare, hbase]

/-- Or with an index. -/
theorem chains_index (h : Chains kinds base) (hi : Readable index) :
    Chains (kinds ++ .symbol .leftBracket :: (index.tokens ++ [.symbol .rightBracket]))
      ⟨id, span, .index base index⟩ := by
  refine h.append (by simp) (by simp) fun {b base' start rest} hb hbase => ?_
  simp only [List.length_cons, List.length_append, List.length_nil] at hb
  simp only [suffix?, List.cons_append, List.nil_append, List.append_assoc]
  refine Reads.peek ?_
  rw [next_cons]
  refine Reads.advance fun _ _ => ?_
  have hstops : Stops 0 (next (.symbol .rightBracket :: rest)) := stops_of_none rfl rfl
  apply (hi.takes (by omega)).bind hstops
  intro index' hindex
  refine Reads.expect (Reads.expr fun id span => Reads.pure ⟨rfl, _, rfl, ?_⟩)
  simp [Expr.bare, ExprKind.bare, hbase, hindex]

theorem fits_table {arguments : List Expr} (h : CallStyle.table.fits arguments = true) :
    ∃ id span fs, arguments = [⟨id, span, .table fs⟩] := by
  match arguments with
  | [] => cases h
  | _ :: _ :: _ => cases h
  | [⟨id, span, kind⟩] =>
    cases kind with
    | table fs => exact ⟨id, span, fs, rfl⟩
    | _ => cases h

theorem fits_string {arguments : List Expr} (h : CallStyle.string.fits arguments = true) :
    ∃ id span raw, arguments = [⟨id, span, .string raw⟩] := by
  match arguments with
  | [] => cases h
  | _ :: _ :: _ => cases h
  | [⟨id, span, kind⟩] =>
    cases kind with
    | string raw => exact ⟨id, span, raw, rfl⟩
    | _ => cases h

/-- **The arguments of a call**, in each of the styles. -/
theorem takes_callOf {style : CallStyle} {arguments : List Expr} (hfits : style.fits arguments = true)
    (h : ∀ e ∈ arguments, Readable e)
    (hb : 4 * (style.write (exprTokens arguments)).length + 1 ≤ b) {base' : Expr}
    (hbase : base'.bare = base.bare) :
    Takes (callOf (expressions b) (table b (subexpression b 0)) base')
      (style.write (exprTokens arguments)) (fun _ => True)
      fun kind' => kind'.bare = (ExprKind.call base style arguments).bare := by
  intro rest _
  rw [callOf]
  refine Reads.peek ?_
  cases style with
  | arguments =>
    simp only [CallStyle.write, enclosed, List.length_cons, List.length_append, List.length_nil,
      List.cons_append, List.append_assoc, List.nil_append, next_cons] at hb ⊢
    refine Reads.advance fun _ _ => Reads.isNext ?_
    -- without arguments the list is closed where it opens
    by_cases hnil : arguments = []
    · subst hnil
      refine Reads.expect (Reads.pure ⟨rfl, ?_⟩)
      simp [ExprKind.bare, hbase]
    · have hstarts := starts_expressions hnil h
      have hopen : (next (commaSeparated (exprTokens arguments) ++
          .symbol .rightParen :: rest) == .symbol .rightParen) = false := by
        rw [hstarts.next_append, beq_eq_false_iff_ne]
        intro heq
        have hopens := hstarts.opens
        rw [heq] at hopens
        cases hopens
      rw [hopen]
      have hstops : StopsRow (next (.symbol .rightParen :: rest)) :=
        stopsRow_of_none rfl rfl (by simp)
      apply (takes_expressions hnil h (by omega)).bind hstops
      intro arguments' harguments
      refine Reads.expect (Reads.pure ⟨rfl, ?_⟩)
      simp [ExprKind.bare, hbase, harguments]
  | table =>
    obtain ⟨id, span, fs, rfl⟩ := fits_table hfits
    have hlength : 4 * (ExprKind.table fs).tokens.length + 1 ≤ b := hb
    have hargument := (h _ (List.mem_cons_self ..)).constructs rfl (b := b) (by
      rw [Expr.tokens]
      omega)
    refine hargument.bind trivial fun argument' hargument' => Reads.pure ⟨rfl, ?_⟩
    simp [ExprKind.bare, exprsBare, hbase, hargument']
  | string =>
    obtain ⟨id, span, raw, rfl⟩ := fits_string hfits
    refine Reads.advance fun _ _ => Reads.freshId fun id' => Reads.pure ⟨rfl, ?_⟩
    simp [ExprKind.bare, exprsBare, Expr.bare, hbase]

/-- What the arguments of a call start with. -/
theorem write_first {style : CallStyle} {arguments : List Expr} (hfits : style.fits arguments = true) :
    ∃ k more, style.write (exprTokens arguments) = k :: more ∧
      (k = .symbol .leftParen ∨ k = .symbol .leftBrace ∨ ∃ raw, k = .string raw) := by
  cases style with
  | arguments => exact ⟨_, _, rfl, .inl rfl⟩
  | table =>
    obtain ⟨id, span, fs, rfl⟩ := fits_table hfits
    exact ⟨_, _, rfl, .inr (.inl rfl)⟩
  | string =>
    obtain ⟨id, span, raw, rfl⟩ := fits_string hfits
    exact ⟨_, _, rfl, .inr (.inr ⟨raw, rfl⟩)⟩

/-- **A call.** -/
theorem chains_call {style : CallStyle} {arguments : List Expr} (hbase : Chains kinds base)
    (hfits : style.fits arguments = true) (h : ∀ e ∈ arguments, Readable e) :
    Chains (kinds ++ style.write (exprTokens arguments)) ⟨id, span, .call base style arguments⟩ := by
  obtain ⟨k, more, hwrite, hk⟩ := write_first hfits
  refine hbase.append (by simp [hwrite]) ?_ fun {b base' start rest} hb hbase' => ?_
  · rw [hwrite, next_cons]
    rcases hk with rfl | rfl | ⟨raw, rfl⟩ <;> simp
  · have hfirst : next (style.write (exprTokens arguments) ++ rest) = k := by rw [hwrite]; rfl
    have hcall : Reads (callOf (expressions b) (table b (subexpression b 0)) base' >>= fun kind =>
        expr start kind >>= fun e => pure (some e)) (style.write (exprTokens arguments) ++ rest)
        fun e? rest' => rest' = rest ∧ ∃ e', e? = some e' ∧
          e'.bare = (Expr.mk id span (.call base style arguments)).bare := by
      apply (takes_callOf hfits h hb hbase').bind trivial
      intro kind hkind
      refine Reads.expr fun id span => Reads.pure ⟨rfl, _, rfl, ?_⟩
      simp [Expr.bare, hkind]
    rw [suffix?]
    refine Reads.peek ?_
    rw [hfirst]
    rcases hk with rfl | rfl | ⟨raw, rfl⟩ <;> exact hcall

/-- **A call of a method.** -/
theorem chains_method {style : CallStyle} {arguments : List Expr} {baseId : NodeId} {baseSpan : Span}
    (hbase : Chains kinds base) (identifier : Identifier) (hfits : style.fits arguments = true)
    (h : ∀ e ∈ arguments, Readable e) :
    Chains (kinds ++ ([.symbol .colon, .name identifier.name] ++ style.write (exprTokens arguments)))
      ⟨id, span, .call ⟨baseId, baseSpan, .member base .colon identifier⟩ style arguments⟩ := by
  refine hbase.append (by simp) (by simp) fun {b base' start rest} hb hbase' => ?_
  simp only [List.length_cons, List.length_append, List.length_nil] at hb
  rw [suffix?]
  refine Reads.peek ?_
  simp only [List.cons_append, List.nil_append, next_cons]
  refine Reads.advance fun _ _ => Reads.name fun id' span' => Reads.expr fun id'' span'' => ?_
  have hmethod : (Expr.mk id'' span'' (.member base' .colon ⟨id', identifier.name, span'⟩)).bare =
      (Expr.mk baseId baseSpan (.member base .colon identifier)).bare := by
    simp [Expr.bare, ExprKind.bare, Identifier.bare, hbase']
  apply (takes_callOf hfits h (by omega) hmethod).bind trivial
  intro kind hkind
  refine Reads.expr fun callId callSpan => Reads.pure ⟨rfl, _, rfl, ?_⟩
  simp [Expr.bare, hkind]

end LuaCompiler.Parser
