import LuaCompiler.Compile
import LuaCompiler.Proofs.Emit.Traces
import LuaCompiler.Proofs.Emit.Truth

/-!
# Table constructors

A table is written as an object, with the values without keys numbered from one on; or, if it has no
keys and ends in the rest of the arguments, as a list that the support module converts. Either way the
values without keys are stored in their order from one on. The rest of the arguments is stored in whole
only by a conversion: beside keys it is written as its first value.

* `TableCode`: **what a table is written as**, and `TableCode.stored` what that stores under a number.
* `stored_numbered`: an object stores its numbered values in their order.
* `entries_lowered`: the values without keys are those of the fields without keys.
* `table_keepsPositions`: **where a table keeps the values without keys**.
-/

namespace LuaCompiler.Emit

open Script (Consists pieces)

/-! ## Objects and conversions -/

/-- What names a property of an object. -/
inductive PropertyKey where
  | index (n : Nat)
  | name (text : String)
  | computed (text : String)

/-- The text of a key that is computed. -/
def PropertyKey.computed? : PropertyKey → Option String
  | computed text => some text
  | _ => none

/-- A property of an object: what names it, and the text of its value. -/
structure Property where
  key : PropertyKey
  value : String

/-- The text of a property. -/
def Property.text : Property → String
  | ⟨.index n, value⟩ => toString n ++ ": " ++ value
  | ⟨.name key, value⟩ => key ++ ": " ++ value
  | ⟨.computed key, value⟩ => brackets key ++ ": " ++ value

/-- **What a table is written as**: an object with some properties, or the conversion of a list of
values with something spread behind them. -/
inductive TableCode where
  | object (properties : List Property)
  | converted (items : List String) (rest : String)

namespace TableCode

/-- The text of a table. -/
def text : TableCode → String
  | object properties => braced (commas (properties.map Property.text))
  | converted items rest =>
    "l2j.convertJsArrayToLuaTable" ++ parens (brackets (commas (items ++ [rest])))

/-- The texts of the keys that are computed. -/
def computedKeys : TableCode → List String
  | object properties => properties.filterMap (·.key.computed?)
  | converted _ _ => []

end TableCode

/-- What the text of a value stands for under its key, which property a computed key names, which
arguments are left, and what the conversion of a list stores under a number. -/
structure TableMeaning (V : Type) where
  value : PropertyKey → String → V
  key : String → String
  rest : List V
  convert : List V → Nat → Option V

/-- The conversion stores a list from one on, and the text of the first of the arguments left stands for
it. -/
structure TableMeaning.Lawful {V : Type} (m : TableMeaning V) : Prop where
  convert : ∀ values k, m.convert values (k + 1) = values[k]?
  first : ∀ key text v, pieces text = pieces "varargs[0]" → m.rest.head? = some v →
    m.value key text = v

section Stored

variable {V : Type} (m : TableMeaning V)

/-- The property that a key names. -/
def TableMeaning.property : PropertyKey → String
  | .index n => toString n
  | .name text => text
  | .computed text => m.key text

/-- What an object stores under the name of a property: of the properties of that name the last one
counts. -/
def TableMeaning.lookup (name : String) : List Property → Option V
  | [] => none
  | p :: rest =>
    (TableMeaning.lookup name rest).or
      (if m.property p.key = name then some (m.value p.key p.value) else none)

/-- What the values of a list stand for, numbered from one on. -/
def TableMeaning.values (texts : List String) : List V :=
  texts.mapIdx fun i => m.value (.index (i + 1))

/-- **What a table stores under a number.** -/
def TableCode.stored (n : Nat) : TableCode → Option V
  | object properties => m.lookup (toString n) properties
  | converted items _ => m.convert (m.values items ++ m.rest) n

end Stored

/-! ## Entries -/

namespace Entry

/-- The value of an entry without a key. -/
def positional? : Entry → Option String
  | positional value => some value
  | _ => none

/-- The key of an entry that is computed. -/
def key? : Entry → Option String
  | computed key _ => some key
  | _ => none

/-- No name is the numeral of a number. -/
def NamesNoIndex : Entry → Prop
  | named key _ => ∀ n : Nat, key ≠ toString n
  | _ => True

end Entry

/-- Entries as properties, those without keys numbered from a number on. -/
def numbered : Nat → List Entry → List Property
  | _, [] => []
  | n, .positional value :: rest => ⟨.index n, value⟩ :: numbered (n + 1) rest
  | n, .named key value :: rest => ⟨.name key, value⟩ :: numbered n rest
  | n, .computed key value :: rest => ⟨.computed key, value⟩ :: numbered n rest

theorem entryTexts_eq (n : Nat) (entries : List Entry) :
    entryTexts n entries = (numbered n entries).map Property.text := by
  induction entries generalizing n with
  | nil => rfl
  | cons first rest ih =>
    cases first with
    | positional value => exact congrArg (_ :: ·) (ih (n + 1))
    | named key value => exact congrArg (_ :: ·) (ih n)
    | computed key value => exact congrArg (_ :: ·) (ih n)

theorem computedKeys_numbered (n : Nat) (entries : List Entry) :
    (TableCode.object (numbered n entries)).computedKeys = entries.filterMap Entry.key? := by
  unfold TableCode.computedKeys
  induction entries generalizing n with
  | nil => rfl
  | cons first rest ih =>
    cases first with
    | positional value => exact ih (n + 1)
    | named key value => exact ih n
    | computed key value => exact congrArg (key :: ·) (ih n)

section Numbered

variable {V : Type} {m : TableMeaning V} {entries : List Entry} {n k : Nat}

/-- **An object stores its numbered values in their order**, unless a computed key names the same
property. -/
theorem stored_numbered (hnames : ∀ entry ∈ entries, entry.NamesNoIndex)
    (hkeys : ∀ text ∈ (TableCode.object (numbered n entries)).computedKeys,
      m.key text ≠ toString k) :
    m.lookup (toString k) (numbered n entries) =
      if n ≤ k then (entries.filterMap Entry.positional?)[k - n]?.map (m.value (.index k))
      else none := by
  induction entries generalizing n with
  | nil =>
    rw [numbered, TableMeaning.lookup]
    simp
  | cons first rest ih =>
    obtain ⟨hfirst, hrest⟩ := List.forall_mem_cons.1 hnames
    cases first with
    | positional value =>
      have htail := ih hrest hkeys
      rw [numbered, TableMeaning.lookup, htail, TableMeaning.property]
      -- the number asked for is behind this value, at it, or in front of all of them
      rcases Nat.lt_trichotomy n k with hlt | rfl | hgt
      · have hsucc : k - n = k - (n + 1) + 1 := by omega
        have hle : n ≤ k := by omega
        have hle' : n + 1 ≤ k := by omega
        have hne : n ≠ k := by omega
        simp [Entry.positional?, hsucc, hle, hle', hne]
      · have hpast : ¬ n + 1 ≤ n := by omega
        simp [Entry.positional?, hpast]
      · have hbelow : ¬ n ≤ k := by omega
        have hbelow' : ¬ n + 1 ≤ k := by omega
        have hne : n ≠ k := by omega
        simp [hbelow, hbelow', hne]
    | named key value =>
      have hname : key ≠ toString k := hfirst k
      rw [numbered, TableMeaning.lookup, ih hrest hkeys, TableMeaning.property, if_neg hname,
        Option.or_none]
      rfl
    | computed key value =>
      obtain ⟨hkey, hkeys⟩ := List.forall_mem_cons.1 hkeys
      rw [numbered, TableMeaning.lookup, ih hrest hkeys, TableMeaning.property, if_neg hkey,
        Option.or_none]
      rfl

end Numbered

/-! ## Fields -/

/-- The values of the fields without keys. -/
def positionalValues (fields : List Field) : List Expr :=
  (fields.filter (·.kind.isPositional)).map (·.kind.value)

/-- The keys of the fields whose keys are computed. -/
def computedKeys (fields : List Field) : List Expr :=
  fields.filterMap fun field =>
    match field.kind with
    | .keyed key _ => some key
    | _ => none

/-- The names that are keys are names. -/
def NamesFields (fields : List Field) : Prop :=
  ∀ field ∈ fields, ∀ key value, field.kind = .named key value → Name.isValid key.name = true

/-- A text is what an expression becomes where one value is wanted. -/
def IsLowered (ctx : Context) (e : Expr) (text : String) : Prop :=
  ∃ p : Progress, (∀ c ∈ p.comments.waiting, c.IsTidy) ∧ text = ((expression ctx .single e).run p).1

section Fields

variable {ctx : Context} {role : Role} {fields : List Field} {field : Field} {x : Expr} {p : Progress}

/-- The rest of the arguments is written as where it stands wants it. -/
theorem produces_vararg (ctx : Context) (role : Role) (hx : x.isVararg = true)
    (hrole : Consists role.vararg (pieces role.vararg)) :
    Produces (expression ctx role x) (· = pieces role.vararg) := by
  obtain ⟨id, span, kind⟩ := x
  cases kind with
  | vararg =>
    rw [expression]
    refine Produces.around ?_ span
    rw [expressionKind]
    exact produces_pure ⟨_, rfl, hrole⟩
  | _ => cases hx

theorem isDigit_eq_false_of_isAlpha {c : Char} (h : c.isAlpha = true) : c.isDigit = false := by
  delta Char.isAlpha Char.isUpper Char.isLower at h
  simp only [Char.isDigit, ge_iff_le, Bool.or_eq_true, Bool.and_eq_true, Bool.and_eq_false_iff,
    decide_eq_true_eq, decide_eq_false_iff_not, UInt32.le_iff_toNat_le, Char.reduceVal,
    UInt32.reduceToNat] at h ⊢
  omega

/-- The name of a property does not start with a digit. -/
theorem asProperty_eq_cons {name : String} (h : Name.isValid name = true) :
    ∃ c cs, (Name.asProperty name).toList = c :: cs ∧ c.isDigit = false := by
  have hfixed : ∀ entry ∈ Name.fixedSpellings,
      entry.2.toList.head?.any (!·.isDigit) = true := by
    decide
  unfold Name.asProperty
  cases hlookup : Name.fixedSpellings.lookup name with
  | none =>
    unfold Name.isValid at h
    split at h
    · cases h
    next c cs hname =>
      simp only [Bool.and_eq_true, Bool.or_eq_true, beq_iff_eq] at h
      refine ⟨c, cs, hname, ?_⟩
      rcases h.1.1 with halpha | rfl
      · exact isDigit_eq_false_of_isAlpha halpha
      · decide
  | some spelling =>
    obtain ⟨before, behind, heq, -⟩ := List.lookup_eq_some_iff.1 hlookup
    obtain ⟨c, hc, hdigit⟩ := (Option.any_eq_true _ _).1 (hfixed (name, spelling) (by simp [heq]))
    obtain ⟨cs, hcs⟩ := List.head?_eq_some_iff.1 hc
    exact ⟨c, cs, hcs, by simpa using hdigit⟩

/-- No name of a property is a numeral. -/
theorem asProperty_ne_toString {name : String} (h : Name.isValid name = true) (n : Nat) :
    Name.asProperty name ≠ toString n := by
  obtain ⟨c, cs, hname, hdigit⟩ := asProperty_eq_cons h
  intro heq
  have hmem : c ∈ (toString n).toList := by rw [← heq, hname]; exact List.mem_cons_self
  have htrue : c.isDigit = true := isDigit_of_mem_toString hmem
  rw [hdigit] at htrue
  cases htrue

theorem entries_cons (ctx : Context) (id : NodeId) (span : Span) (kind : FieldKind)
    (rest : List Field) :
    entries ctx .single (⟨id, span, kind⟩ :: rest) = (do
      let first ← entry ctx .single kind
      return first :: (← entries ctx .single rest)) := by
  rw [entries, ite_self]

/-- Of fields in a row, only the last can stand for several values. -/
theorem entries_snoc (ctx : Context) (role : Role) (fields : List Field) (last : Field) :
    entries ctx role (fields ++ [last]) = (do
      let front ← entries ctx .single fields
      return front ++ [← entry ctx role last.kind]) := by
  induction fields with
  | nil =>
    obtain ⟨id, span, kind⟩ := last
    simp [entries]
  | cons first fields ih =>
    obtain ⟨id, span, kind⟩ := first
    rw [List.cons_append, entries, ih, entries_cons]
    simp

/-- The comments that wait behind a row of fields waited before it. -/
theorem tidy_entries (ctx : Context) (role : Role) (fields : List Field)
    (hp : ∀ c ∈ p.comments.waiting, c.IsTidy) :
    ∀ c ∈ ((entries ctx role fields).run p).2.comments.waiting, c.IsTidy :=
  fun c hc => hp c ((framed_entries fields ctx role p).comments.subset hc)

/-- **The values without keys are those of the fields without keys**, the keys that are computed are those
of the fields, and no name is a numeral. -/
theorem entries_lowered (ctx : Context) (hnames : NamesFields fields)
    (hp : ∀ c ∈ p.comments.waiting, c.IsTidy) :
    List.Forall₂ (IsLowered ctx) (positionalValues fields)
        (((entries ctx .single fields).run p).1.filterMap Entry.positional?) ∧
      List.Forall₂ (IsLowered ctx) (computedKeys fields)
        (((entries ctx .single fields).run p).1.filterMap Entry.key?) ∧
      ∀ entry ∈ ((entries ctx .single fields).run p).1, entry.NamesNoIndex := by
  induction fields generalizing p with
  | nil => exact ⟨.nil, .nil, List.forall_mem_nil _⟩
  | cons field rest ih =>
    obtain ⟨id, span, kind⟩ := field
    obtain ⟨hname, hnames⟩ := List.forall_mem_cons.1 hnames
    have htidy : ∀ c ∈ ((entry ctx .single kind).run p).2.comments.waiting, c.IsTidy :=
      fun c hc => hp c ((framed_entry kind ctx .single span p).comments.subset hc)
    obtain ⟨hlowered, hkeys, hnone⟩ := ih hnames htidy
    rw [entries_cons]
    cases kind with
    | positional value => exact ⟨.cons ⟨p, hp, rfl⟩ hlowered, hkeys, List.forall_mem_cons.2 ⟨trivial, hnone⟩⟩
    | named key value =>
      have hkey := asProperty_ne_toString (hname key value rfl)
      exact ⟨hlowered, hkeys, List.forall_mem_cons.2 ⟨hkey, hnone⟩⟩
    | keyed key value =>
      exact ⟨hlowered, .cons ⟨p, hp, rfl⟩ hkeys, List.forall_mem_cons.2 ⟨trivial, hnone⟩⟩

end Fields

/-! ## Tables -/

/-- The last field is the rest of the arguments, without a key. -/
def EndsInRest (fields : List Field) : Prop :=
  ∃ front last, fields = front ++ [last] ∧ last.kind.isPositional = true ∧
    last.kind.value.isVararg = true

/-- **Where a table keeps the values without keys.** The fields without keys, but for the rest of the
arguments if it is spread, are lowered in their order, and their values are stored under the numbers
from one on, with the arguments left behind them if those are spread. They are spread if no field has a
key and the last one is the rest of the arguments; beside keys only the first of them is stored. -/
structure KeepsPositions (ctx : Context) (fields : List Field) (code : TableCode)
    (texts : List String) : Prop where
  lowered : List.Forall₂ (IsLowered ctx)
    (if spreadsFields fields then (positionalValues fields).dropLast else positionalValues fields) texts
  keys : List.Forall₂ (IsLowered ctx) (computedKeys fields) code.computedKeys
  stored : ∀ {V : Type} (m : TableMeaning V), m.Lawful → ∀ k,
    (∀ key ∈ code.computedKeys, m.key key ≠ toString (k + 1)) →
      code.stored m (k + 1) = (m.values texts ++ if spreadsFields fields then m.rest else [])[k]?
  spread : spreadsFields fields = true →
    ∃ items rest, code = .converted items rest ∧ Consists rest (pieces "...varargs")
  first : spreadsFields fields = false → EndsInRest fields →
    ∃ front last, texts = front ++ [last] ∧
      ∀ {V : Type} (m : TableMeaning V), m.Lawful →
        ∀ key v, m.rest.head? = some v → m.value key last = v

section Tables

variable {ctx : Context} {role : Role} {id : NodeId} {fields : List Field} {p : Progress}

theorem positionalValues_snoc {front : List Field} {last : Field}
    (h : last.kind.isPositional = true) :
    positionalValues (front ++ [last]) = positionalValues front ++ [last.kind.value] := by
  simp [positionalValues, h]

/-- Entries without keys alone are told by their values. -/
theorem map_value_eq (ctx : Context) (role : Role) (p : Progress)
    (h : fields.all (·.kind.isPositional) = true) :
    ((entries ctx role fields).run p).1.map Entry.value =
      ((entries ctx role fields).run p).1.filterMap Entry.positional? := by
  induction fields generalizing p with
  | nil => rfl
  | cons field rest ih =>
    obtain ⟨id, span, kind⟩ := field
    obtain ⟨hkind, hrest⟩ := Bool.and_eq_true_iff.1 h
    cases kind with
    | positional value =>
      rw [entries]
      exact congrArg (_ :: ·) (ih _ hrest)
    | _ => cases hkind

/-- Fields without keys alone compute no key. -/
theorem computedKeys_eq_nil (h : fields.all (·.kind.isPositional) = true) :
    computedKeys fields = [] := by
  rw [computedKeys, List.filterMap_eq_nil_iff]
  intro field hfield
  have hkind := List.all_eq_true.1 h field hfield
  split
  next hkeyed =>
    rw [hkeyed] at hkind
    cases hkind
  · rfl

/-- The text of the last value, if that is the rest of the arguments. -/
theorem exists_last {texts : List String} (hend : EndsInRest fields)
    (h : List.Forall₂ (IsLowered ctx) (positionalValues fields) texts) :
    ∃ front last, texts = front ++ [last] ∧ Consists last (pieces "varargs[0]") := by
  obtain ⟨before, field, rfl, hkind, hvararg⟩ := hend
  rw [positionalValues_snoc hkind] at h
  have hdrop := List.forall₂_drop_append _ _ _ h.flip
  obtain ⟨last, behind, ⟨q, hq, rfl⟩, hnil, hlast⟩ := List.forall₂_cons_right_iff.1 hdrop
  obtain rfl := List.forall₂_nil_right_iff.1 hnil
  refine ⟨_, _, (hlast ▸ (List.take_append_drop _ texts).symm), ?_⟩
  obtain ⟨⟨_, rfl, hconsists⟩, -⟩ :=
    produces_vararg ctx .single hvararg (by decide) q hq
  exact hconsists

theorem endsInRest_of_spreadsFields (h : spreadsFields fields = true) : EndsInRest fields := by
  obtain ⟨hall, hlast⟩ := Bool.and_eq_true_iff.1 h
  obtain ⟨last, hmem, hvararg⟩ := (Option.any_eq_true _ _).1 hlast
  obtain ⟨front, rfl⟩ := List.getLast?_eq_some_iff.1 hmem
  exact ⟨front, last, rfl, List.all_eq_true.1 hall last (by simp), hvararg⟩

/-- **A table that is an object.** -/
theorem keepsPositions_object (hspreads : spreadsFields fields = false) (hnames : NamesFields fields)
    (hp : ∀ c ∈ p.comments.waiting, c.IsTidy) :
    ∃ code texts, ((expressionKind ctx role id (.table fields)).run p).1 = code.text ∧
      KeepsPositions ctx fields code texts := by
  obtain ⟨hlowered, hcomputed, hnone⟩ := entries_lowered ctx hnames hp
  have hrun : ((expressionKind ctx role id (.table fields)).run p).1 =
      tableText fields ((entries ctx .single fields).run p).1 := by
    rw [expressionKind, hspreads]
    rfl
  rw [tableText, hspreads, if_neg Bool.false_ne_true, entryTexts_eq] at hrun
  refine ⟨.object (numbered 1 ((entries ctx .single fields).run p).1),
    ((entries ctx .single fields).run p).1.filterMap Entry.positional?, hrun, ?_, ?_, ?_, ?_, ?_⟩
  · rw [hspreads]
    exact hlowered
  · rw [computedKeys_numbered]
    exact hcomputed
  · -- position `k + 1` holds the value of index `k`
    intro V m _ k hkeys
    have hstored := stored_numbered (k := k + 1) hnone hkeys
    have hone : 1 ≤ k + 1 := by omega
    rw [if_pos hone, Nat.add_sub_cancel] at hstored
    rw [hspreads, if_neg Bool.false_ne_true, List.append_nil]
    rw [TableCode.stored, hstored, TableMeaning.values, List.getElem?_mapIdx]
  · intro hspread
    rw [hspreads] at hspread
    cases hspread
  · intro _ hend
    obtain ⟨front, last, htexts, hconsists⟩ := exists_last hend hlowered
    exact ⟨front, last, htexts, fun m hm key v hv => hm.first key last v hconsists.pieces hv⟩

/-- **A table that is converted.** -/
theorem keepsPositions_converted (hspreads : spreadsFields fields = true) (hnames : NamesFields fields)
    (hp : ∀ c ∈ p.comments.waiting, c.IsTidy) :
    ∃ code texts, ((expressionKind ctx role id (.table fields)).run p).1 = code.text ∧
      KeepsPositions ctx fields code texts := by
  obtain ⟨front, last, rfl, hlast, hvararg⟩ := endsInRest_of_spreadsFields hspreads
  obtain ⟨id', span, kind⟩ := last
  cases kind with
  | positional x =>
    -- a table that is converted has no field with a key
    have hall : front.all (·.kind.isPositional) = true := by
      have hboth := (Bool.and_eq_true_iff.1 hspreads).1
      rw [List.all_append, Bool.and_eq_true_iff] at hboth
      exact hboth.1
    have hfront : NamesFields front := fun f hf => hnames f (List.mem_append_left _ hf)
    obtain ⟨hlowered, -, -⟩ := entries_lowered ctx hfront hp
    obtain ⟨⟨_, rfl, hconsists⟩, -⟩ := produces_vararg ctx .spread hvararg
      (by decide) _ (tidy_entries ctx .single front hp)
    have hrun : ((expressionKind ctx role id (.table (front ++ [⟨id', span, .positional x⟩]))).run p).1 =
        tableText (front ++ [⟨id', span, .positional x⟩])
          (((entries ctx .single front).run p).1 ++ [.positional
            ((expression ctx .spread x).run ((entries ctx .single front).run p).2).1]) := by
      rw [expressionKind, hspreads, if_pos rfl, entries_snoc]
      rfl
    rw [tableText, hspreads, if_pos rfl, List.map_append, map_value_eq ctx .single p hall] at hrun
    refine ⟨.converted (((entries ctx .single front).run p).1.filterMap Entry.positional?) _,
      ((entries ctx .single front).run p).1.filterMap Entry.positional?, hrun, ?_, ?_, ?_, ?_, ?_⟩
    · rw [hspreads, if_pos rfl, positionalValues_snoc hlast, List.dropLast_concat]
      exact hlowered
    · rw [computedKeys_eq_nil (Bool.and_eq_true_iff.1 hspreads).1]
      exact .nil
    · intro V m hm k _
      rw [hspreads, if_pos rfl]
      exact hm.convert _ k
    · exact fun _ => ⟨_, _, rfl, hconsists⟩
    · intro hsingle
      rw [hspreads] at hsingle
      cases hsingle
  | _ => cases hlast

/-- **Where a table keeps the values without keys**, whatever the fields are. The table is written as a
code that stores the value of the k-th field without a key under k. The rest of the arguments at its end
is stored behind them if no field has a key; beside keys, of all the arguments left only the first is
stored. -/
theorem table_keepsPositions (ctx : Context) (role : Role) (id : NodeId) {fields : List Field}
    (hnames : NamesFields fields) {p : Progress} (hcomments : ∀ c ∈ p.comments.waiting, c.IsTidy) :
    ∃ code texts, ((expressionKind ctx role id (.table fields)).run p).1 = code.text ∧
      KeepsPositions ctx fields code texts := by
  cases hspreads : spreadsFields fields with
  | false => exact keepsPositions_object hspreads hnames hcomments
  | true => exact keepsPositions_converted hspreads hnames hcomments

end Tables

/-- The fields of `{"a", x = true, [k] = nil, ...}`. -/
def mixedFields : List Field :=
  [⟨0, default, .positional ⟨1, default, .string "\"a\""⟩⟩,
    ⟨2, default, .named ⟨3, "x", default⟩ ⟨4, default, .boolean true⟩⟩,
    ⟨5, default, .keyed ⟨6, default, .name "k"⟩ ⟨7, default, .nil⟩⟩,
    ⟨8, default, .positional ⟨9, default, .vararg⟩⟩]

/-- Two arguments are left, and a computed key is `k`. -/
def twoArguments : TableMeaning String where
  value _ text := if pieces text = pieces "varargs[0]" then "one" else text
  key _ := "k"
  rest := ["one", "two"]
  convert values n := if n = 0 then none else values[n - 1]?

theorem twoArguments_lawful : twoArguments.Lawful where
  convert values k := by simp [twoArguments]
  first key text v htext hv := by
    obtain rfl : "one" = v := by simpa [twoArguments] using hv
    exact if_pos htext

/-- Of two arguments left behind keys, the second one is stored nowhere. -/
theorem table_keepsPositions_mixed :
    let ctx : Context := { options := {}, annotations := {}, fileName := "m", operatorMode := false }
    let p : Progress := { comments := ⟨[], 0⟩, registries := .empty }
    NamesFields mixedFields ∧ ∃ code : TableCode,
      ((expressionKind ctx .single 10 (.table mixedFields)).run p).1 = code.text ∧
        code.stored twoArguments 2 = some "one" ∧
        ∀ n, 2 ≤ n → code.stored twoArguments (n + 1) = none := by
  intro ctx p
  have hnames : NamesFields mixedFields := by
    intro field hfield key value hkind
    simp only [mixedFields, List.mem_cons, List.not_mem_nil, or_false] at hfield
    rcases hfield with rfl | rfl | rfl | rfl
    · cases hkind
    · cases hkind
      decide +kernel
    · cases hkind
    · cases hkind
  -- what is said of every table with such fields, read off below at two varargs
  obtain ⟨code, texts, hrun, hkeeps⟩ :=
    table_keepsPositions ctx .single 10 hnames (p := p) (List.forall_mem_nil _)
  have hk : Name.isValid "k" = true := by decide +kernel
  have hkeys : ∀ n : Nat, ∀ key ∈ code.computedKeys, twoArguments.key key ≠ toString n :=
    fun n key _ heq => asProperty_ne_toString hk n heq
  have hlength : texts.length = 2 := hkeeps.lowered.length_eq.symm
  obtain ⟨front, last, rfl, hfirst⟩ := hkeeps.first rfl
    ⟨mixedFields.dropLast, ⟨8, default, .positional ⟨9, default, .vararg⟩⟩, rfl, rfl, rfl⟩
  have hfront : front.length = 1 := by simpa using hlength
  refine ⟨hnames, code, hrun, ?_, fun n hn => ?_⟩
  · -- the first value of the varargs is stored, the second is lost
    have hstored := hkeeps.stored twoArguments twoArguments_lawful 1 (hkeys 2)
    have hvalue := hfirst twoArguments twoArguments_lawful (.index 2) "one" rfl
    rw [hstored, if_neg (by decide), List.append_nil, TableMeaning.values, List.getElem?_mapIdx,
      List.getElem?_append_right (by omega), hfront]
    exact congrArg some hvalue
  · have hstored := hkeeps.stored twoArguments twoArguments_lawful n (hkeys (n + 1))
    rw [hstored, if_neg (by decide), List.append_nil, TableMeaning.values, List.getElem?_mapIdx,
      List.getElem?_eq_none (by omega)]
    rfl

/-- Beside a key, the rest of the arguments is its first value. -/
example : (compile .keep "local function f(...) return {x = 1, ...} end" "Game/UI/test.lua"
      .empty {}).1.code = "function f(...varargs)\x7breturn \x7bx: 1, 1: varargs[0]\x7d\x7d" ∧
    (compile .keep "local function f(...) return {1, ...} end" "Game/UI/test.lua" .empty {}).1.code =
      "function f(...varargs)\x7breturn l2j.convertJsArrayToLuaTable([1, ...varargs])\x7d" := by
  repeat rw [compile, parse_ofList]
  decide +kernel

end LuaCompiler.Emit
