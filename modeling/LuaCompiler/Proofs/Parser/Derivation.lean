import LuaCompiler.Token

/-!
# The grammar of Lua

The grammar of the language reference, with the attributes that a local variable may have, as rules
over the kinds of tokens. What the reference writes with braces, a phrase any number of times, is
written here by recursion; everything else is rule by rule the same.

* `Derives wrapping category tokens`: some tokens are a phrase of a category. Only if `wrapping`
  holds, parentheses may stand around what is assigned to and around the call of a call statement;
  Lua has them there nowhere.
* `isApart_of_derives`: **in Lua no parenthesis is closed directly before an equals sign**, so that
  an assignment to something in parentheses is none.
-/

namespace LuaCompiler.Grammar

open Token (Kind)

/-- The categories of the grammar, by their names in the reference. -/
inductive Category where
  | block | stat | retstat | clauses | label | dotted | funcname | varlist | var | namelist
  | attrib | attnamelist | explist | exp | prefixexp | functioncall | args | funcbody | parlist
  | tableconstructor | fieldlist | field

/-- The operators between two expressions. -/
def binaryOperators : List Kind :=
  [.symbol .plus, .symbol .minus, .symbol .star, .symbol .slash, .symbol .doubleSlash,
    .symbol .caret, .symbol .percent, .symbol .ampersand, .symbol .tilde, .symbol .pipe,
    .symbol .shiftRight, .symbol .shiftLeft, .symbol .concat, .symbol .less, .symbol .lessEqual,
    .symbol .greater, .symbol .greaterEqual, .symbol .equal, .symbol .notEqual, .keyword .and,
    .keyword .or]

/-- The operators before an expression. -/
def unaryOperators : List Kind :=
  [.symbol .minus, .keyword .not, .symbol .hash, .symbol .tilde]

/-- The signs between the fields of a table. -/
def fieldSeparators : List Kind := [.symbol .comma, .symbol .semicolon]

/-- **Phrases of the grammar.** The rules of a category stand together, in the order of the
reference. -/
inductive Derives (wrapping : Prop) : Category → List Kind → Prop where
  -- block ::= {stat} [retstat]
  | emptyBlock : Derives wrapping .block []
  | more {s b : List Kind} (hs : Derives wrapping .stat s) (hb : Derives wrapping .block b) :
    Derives wrapping .block (s ++ b)
  | last {r : List Kind} (hr : Derives wrapping .retstat r) : Derives wrapping .block r
  -- stat
  | semicolon : Derives wrapping .stat [.symbol .semicolon]
  | assignment {vs es : List Kind} (hvs : Derives wrapping .varlist vs)
      (hes : Derives wrapping .explist es) : Derives wrapping .stat (vs ++ .symbol .assign :: es)
  | callStat {c : List Kind} (hc : Derives wrapping .functioncall c) : Derives wrapping .stat c
  | labelStat {l : List Kind} (hl : Derives wrapping .label l) : Derives wrapping .stat l
  | break : Derives wrapping .stat [.keyword .break]
  | goto (name : String) : Derives wrapping .stat [.keyword .goto, .name name]
  | do {b : List Kind} (hb : Derives wrapping .block b) :
    Derives wrapping .stat (.keyword .do :: b ++ [.keyword .end])
  | while {e b : List Kind} (he : Derives wrapping .exp e) (hb : Derives wrapping .block b) :
    Derives wrapping .stat (.keyword .while :: e ++ .keyword .do :: b ++ [.keyword .end])
  | repeat {b e : List Kind} (hb : Derives wrapping .block b) (he : Derives wrapping .exp e) :
    Derives wrapping .stat (.keyword .repeat :: b ++ .keyword .until :: e)
  | if {e b c : List Kind} (he : Derives wrapping .exp e) (hb : Derives wrapping .block b)
      (hc : Derives wrapping .clauses c) :
    Derives wrapping .stat (.keyword .if :: e ++ .keyword .then :: b ++ c ++ [.keyword .end])
  | forNumeric {e l b : List Kind} (name : String) (he : Derives wrapping .exp e)
      (hl : Derives wrapping .exp l) (hb : Derives wrapping .block b) :
    Derives wrapping .stat (.keyword .for :: .name name :: .symbol .assign :: e ++
      .symbol .comma :: l ++ .keyword .do :: b ++ [.keyword .end])
  | forStep {e l st b : List Kind} (name : String) (he : Derives wrapping .exp e)
      (hl : Derives wrapping .exp l) (hst : Derives wrapping .exp st)
      (hb : Derives wrapping .block b) :
    Derives wrapping .stat (.keyword .for :: .name name :: .symbol .assign :: e ++
      .symbol .comma :: l ++ .symbol .comma :: st ++ .keyword .do :: b ++ [.keyword .end])
  | forGeneric {ns es b : List Kind} (hns : Derives wrapping .namelist ns)
      (hes : Derives wrapping .explist es) (hb : Derives wrapping .block b) :
    Derives wrapping .stat (.keyword .for :: ns ++ .keyword .in :: es ++ .keyword .do :: b ++
      [.keyword .end])
  | function {n f : List Kind} (hn : Derives wrapping .funcname n)
      (hf : Derives wrapping .funcbody f) :
    Derives wrapping .stat (.keyword .function :: n ++ f)
  | localFunction {f : List Kind} (name : String) (hf : Derives wrapping .funcbody f) :
    Derives wrapping .stat (.keyword .local :: .keyword .function :: .name name :: f)
  | local {ns : List Kind} (hns : Derives wrapping .attnamelist ns) :
    Derives wrapping .stat (.keyword .local :: ns)
  | localInit {ns es : List Kind} (hns : Derives wrapping .attnamelist ns)
      (hes : Derives wrapping .explist es) :
    Derives wrapping .stat (.keyword .local :: ns ++ .symbol .assign :: es)
  -- {elseif exp then block} [else block]
  | noClause : Derives wrapping .clauses []
  | elseIf {e b c : List Kind} (he : Derives wrapping .exp e) (hb : Derives wrapping .block b)
      (hc : Derives wrapping .clauses c) :
    Derives wrapping .clauses (.keyword .elseIf :: e ++ .keyword .then :: b ++ c)
  | else {b : List Kind} (hb : Derives wrapping .block b) :
    Derives wrapping .clauses (.keyword .else :: b)
  -- retstat ::= return [explist] [';']
  | returnNone : Derives wrapping .retstat [.keyword .return]
  | return {es : List Kind} (hes : Derives wrapping .explist es) :
    Derives wrapping .retstat (.keyword .return :: es)
  | returnNoneEnd : Derives wrapping .retstat [.keyword .return, .symbol .semicolon]
  | returnEnd {es : List Kind} (hes : Derives wrapping .explist es) :
    Derives wrapping .retstat (.keyword .return :: es ++ [.symbol .semicolon])
  | label (name : String) :
    Derives wrapping .label [.symbol .doubleColon, .name name, .symbol .doubleColon]
  -- funcname ::= Name {'.' Name} [':' Name]
  | root (name : String) : Derives wrapping .dotted [.name name]
  | dot {n : List Kind} (name : String) (hn : Derives wrapping .dotted n) :
    Derives wrapping .dotted (n ++ [.symbol .dot, .name name])
  | funcname {n : List Kind} (hn : Derives wrapping .dotted n) : Derives wrapping .funcname n
  | method {n : List Kind} (name : String) (hn : Derives wrapping .dotted n) :
    Derives wrapping .funcname (n ++ [.symbol .colon, .name name])
  -- varlist ::= var {',' var}
  | oneVar {v : List Kind} (hv : Derives wrapping .var v) : Derives wrapping .varlist v
  | moreVars {v vs : List Kind} (hv : Derives wrapping .var v)
      (hvs : Derives wrapping .varlist vs) :
    Derives wrapping .varlist (v ++ .symbol .comma :: vs)
  -- var ::= Name | prefixexp '[' exp ']' | prefixexp '.' Name
  | name (name : String) : Derives wrapping .var [.name name]
  | index {p e : List Kind} (hp : Derives wrapping .prefixexp p) (he : Derives wrapping .exp e) :
    Derives wrapping .var (p ++ .symbol .leftBracket :: e ++ [.symbol .rightBracket])
  | member {p : List Kind} (name : String) (hp : Derives wrapping .prefixexp p) :
    Derives wrapping .var (p ++ [.symbol .dot, .name name])
  | wrappedVar {v : List Kind} (hwrapping : wrapping) (hv : Derives wrapping .var v) :
    Derives wrapping .var (.symbol .leftParen :: v ++ [.symbol .rightParen])
  -- namelist ::= Name {',' Name}
  | oneName (name : String) : Derives wrapping .namelist [.name name]
  | moreNames {ns : List Kind} (name : String) (hns : Derives wrapping .namelist ns) :
    Derives wrapping .namelist (.name name :: .symbol .comma :: ns)
  -- attnamelist ::= Name attrib {',' Name attrib}; attrib ::= ['<' Name '>']
  | noAttrib : Derives wrapping .attrib []
  | attrib (name : String) :
    Derives wrapping .attrib [.symbol .less, .name name, .symbol .greater]
  | oneAttname {a : List Kind} (name : String) (ha : Derives wrapping .attrib a) :
    Derives wrapping .attnamelist (.name name :: a)
  | moreAttnames {a ns : List Kind} (name : String) (ha : Derives wrapping .attrib a)
      (hns : Derives wrapping .attnamelist ns) :
    Derives wrapping .attnamelist (.name name :: a ++ .symbol .comma :: ns)
  -- explist ::= exp {',' exp}
  | oneExp {e : List Kind} (he : Derives wrapping .exp e) : Derives wrapping .explist e
  | moreExps {e es : List Kind} (he : Derives wrapping .exp e)
      (hes : Derives wrapping .explist es) :
    Derives wrapping .explist (e ++ .symbol .comma :: es)
  -- exp
  | nil : Derives wrapping .exp [.keyword .nil]
  | false : Derives wrapping .exp [.keyword .false]
  | true : Derives wrapping .exp [.keyword .true]
  | number (value : Binary64.Magnitude) (raw : String) : Derives wrapping .exp [.number value raw]
  | string (raw : String) : Derives wrapping .exp [.string raw]
  | vararg : Derives wrapping .exp [.symbol .ellipsis]
  | functiondef {f : List Kind} (hf : Derives wrapping .funcbody f) :
    Derives wrapping .exp (.keyword .function :: f)
  | prefixed {p : List Kind} (hp : Derives wrapping .prefixexp p) : Derives wrapping .exp p
  | table {t : List Kind} (ht : Derives wrapping .tableconstructor t) : Derives wrapping .exp t
  | binary {l r : List Kind} {o : Kind} (hl : Derives wrapping .exp l) (ho : o ∈ binaryOperators)
      (hr : Derives wrapping .exp r) : Derives wrapping .exp (l ++ o :: r)
  | unary {e : List Kind} {o : Kind} (ho : o ∈ unaryOperators) (he : Derives wrapping .exp e) :
    Derives wrapping .exp (o :: e)
  -- prefixexp ::= var | functioncall | '(' exp ')'
  | var {v : List Kind} (hv : Derives wrapping .var v) : Derives wrapping .prefixexp v
  | call {c : List Kind} (hc : Derives wrapping .functioncall c) : Derives wrapping .prefixexp c
  | paren {e : List Kind} (he : Derives wrapping .exp e) :
    Derives wrapping .prefixexp (.symbol .leftParen :: e ++ [.symbol .rightParen])
  -- functioncall ::= prefixexp args | prefixexp ':' Name args
  | functioncall {p a : List Kind} (hp : Derives wrapping .prefixexp p)
      (ha : Derives wrapping .args a) : Derives wrapping .functioncall (p ++ a)
  | methodcall {p a : List Kind} (name : String) (hp : Derives wrapping .prefixexp p)
      (ha : Derives wrapping .args a) :
    Derives wrapping .functioncall (p ++ .symbol .colon :: .name name :: a)
  | wrappedCall {c : List Kind} (hwrapping : wrapping) (hc : Derives wrapping .functioncall c) :
    Derives wrapping .functioncall (.symbol .leftParen :: c ++ [.symbol .rightParen])
  -- args ::= '(' [explist] ')' | tableconstructor | LiteralString
  | noArgs : Derives wrapping .args [.symbol .leftParen, .symbol .rightParen]
  | args {es : List Kind} (hes : Derives wrapping .explist es) :
    Derives wrapping .args (.symbol .leftParen :: es ++ [.symbol .rightParen])
  | tableArg {t : List Kind} (ht : Derives wrapping .tableconstructor t) :
    Derives wrapping .args t
  | stringArg (raw : String) : Derives wrapping .args [.string raw]
  -- funcbody ::= '(' [parlist] ')' block end
  | noParameters {b : List Kind} (hb : Derives wrapping .block b) :
    Derives wrapping .funcbody
      (.symbol .leftParen :: .symbol .rightParen :: b ++ [.keyword .end])
  | funcbody {ps b : List Kind} (hps : Derives wrapping .parlist ps)
      (hb : Derives wrapping .block b) :
    Derives wrapping .funcbody
      (.symbol .leftParen :: ps ++ .symbol .rightParen :: b ++ [.keyword .end])
  -- parlist ::= namelist [',' '...'] | '...'
  | parameters {ns : List Kind} (hns : Derives wrapping .namelist ns) :
    Derives wrapping .parlist ns
  | moreParameters {ns : List Kind} (hns : Derives wrapping .namelist ns) :
    Derives wrapping .parlist (ns ++ [.symbol .comma, .symbol .ellipsis])
  | anyParameters : Derives wrapping .parlist [.symbol .ellipsis]
  -- tableconstructor ::= '{' [fieldlist] '}'
  | noFields : Derives wrapping .tableconstructor [.symbol .leftBrace, .symbol .rightBrace]
  | fields {fs : List Kind} (hfs : Derives wrapping .fieldlist fs) :
    Derives wrapping .tableconstructor (.symbol .leftBrace :: fs ++ [.symbol .rightBrace])
  -- fieldlist ::= field {fieldsep field} [fieldsep]
  | oneField {f : List Kind} (hf : Derives wrapping .field f) : Derives wrapping .fieldlist f
  | lastField {f : List Kind} {o : Kind} (hf : Derives wrapping .field f)
      (ho : o ∈ fieldSeparators) : Derives wrapping .fieldlist (f ++ [o])
  | moreFields {f fs : List Kind} {o : Kind} (hf : Derives wrapping .field f)
      (ho : o ∈ fieldSeparators) (hfs : Derives wrapping .fieldlist fs) :
    Derives wrapping .fieldlist (f ++ o :: fs)
  -- field ::= '[' exp ']' '=' exp | Name '=' exp | exp
  | keyed {k v : List Kind} (hk : Derives wrapping .exp k) (hv : Derives wrapping .exp v) :
    Derives wrapping .field
      (.symbol .leftBracket :: k ++ .symbol .rightBracket :: .symbol .assign :: v)
  | named {v : List Kind} (name : String) (hv : Derives wrapping .exp v) :
    Derives wrapping .field (.name name :: .symbol .assign :: v)
  | positional {e : List Kind} (he : Derives wrapping .exp e) : Derives wrapping .field e

/-! ## Parentheses before an equals sign -/

/-- Whether a parenthesis is closed directly behind some tokens, given whether one was before. -/
def closes (closed : Bool) : List Kind → Bool
  | [] => closed
  | kind :: rest => closes (kind == .symbol .rightParen) rest

/-- Whether no equals sign among some tokens follows a closed parenthesis, given whether one was
closed directly before. -/
def isApart (closed : Bool) : List Kind → Bool
  | [] => true
  | kind :: rest =>
    !(closed && kind == .symbol .assign) && isApart (kind == .symbol .rightParen) rest

theorem closes_append (closed : Bool) (ts us : List Kind) :
    closes closed (ts ++ us) = closes (closes closed ts) us := by
  induction ts generalizing closed with
  | nil => rfl
  | cons kind rest ih => exact ih _

theorem isApart_append (closed : Bool) (ts us : List Kind) :
    isApart closed (ts ++ us) = (isApart closed ts && isApart (closes closed ts) us) := by
  induction ts generalizing closed with
  | nil => rfl
  | cons kind rest ih => rw [List.cons_append, isApart, ih, isApart, closes, Bool.and_assoc]

/-- The categories that stand before an equals sign. -/
def Category.isTarget : Category → Bool
  | .var | .varlist | .attnamelist => true
  | _ => false

/-- No operator and no separator is an equals sign. -/
theorem ne_assign {o : Kind}
    (ho : o ∈ binaryOperators ∨ o ∈ unaryOperators ∨ o ∈ fieldSeparators) :
    o ≠ .symbol .assign := by
  rintro rfl
  revert ho
  decide

/-- **In Lua no parenthesis is closed directly before an equals sign.** -/
theorem isApart_of_derives {category : Category} {ts : List Kind}
    (h : Derives False category ts) :
    (∀ closed, isApart closed ts = true) ∧
      (category.isTarget = true → ∀ closed, closes closed ts = false) := by
  induction h with
  | wrappedVar hwrapping => exact hwrapping.elim
  | wrappedCall hwrapping => exact hwrapping.elim
  | oneAttname _ ha => cases ha <;> simp [isApart, closes]
  | moreAttnames _ ha =>
    cases ha <;> simp_all [-Bool.forall_bool, isApart, closes, Category.isTarget]
  | binary _ ho =>
    have := ne_assign (.inl ho)
    simp_all [-Bool.forall_bool, isApart, isApart_append, Category.isTarget]
  | unary ho =>
    have := ne_assign (.inr (.inl ho))
    simp_all [-Bool.forall_bool, isApart, Category.isTarget]
  | lastField _ ho | moreFields _ ho =>
    have := ne_assign (.inr (.inr ho))
    simp_all [-Bool.forall_bool, isApart, isApart_append, Category.isTarget]
  | _ =>
    simp_all [-Bool.forall_bool, isApart, closes, isApart_append, closes_append, Category.isTarget]

end LuaCompiler.Grammar
