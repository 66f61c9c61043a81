import LuaCompiler.Emit.Walk

/-!
# The faults of a program

Five constructs have no counterpart: a `return` inside a block of the program, a `goto` and a label
other than to and at the end of the innermost loop of their function, a generic loop over other than one
iterator, and a field without a key in a class. Where they stand is said here by recursion on the tree,
without the lowering.

* `Place`: what decides whether a jump or a `return` has a counterpart; `Context.place`: that of a
  context.
* `Chunk.faults`: **the faults of a program**, in the order of its text; `constructs_stmtFaults`: each
  is that of one of the five constructs.
* `Emit.IsServed`, `Emit.isServed`: **each rule for a call finds what it takes apart**.
-/

namespace LuaCompiler

namespace Emit

/-- Where in a program a node stands, as far as a jump or a `return` asks for it. -/
structure Place where
  /-- whether the node stands directly in the program -/
  isTop : Bool
  /-- whether a function encloses the node -/
  isInFunction : Bool
  /-- the label at the end of the innermost loop's body, if the loop is in the same function -/
  label : Option String

namespace Place

/-- The place of what stands directly in a program. -/
def top : Place := ⟨true, false, none⟩

/-- The place of what a block holds. -/
def inBlock (place : Place) : Place := { place with isTop := false }

/-- The label at the end of a block. -/
def lastLabel? (body : List Stmt) : Option String :=
  match body.getLast? with
  | some ⟨_, _, .label label⟩ => some label.name
  | _ => none

/-- The place of what the body of a loop holds. -/
def inLoop (place : Place) (body : List Stmt) : Place :=
  { place.inBlock with label := lastLabel? body }

/-- The place of what the body of a function holds. -/
def inFunction : Place := ⟨false, true, none⟩

/-- Whether a `return` can stand at a place. -/
def allowsReturn (place : Place) : Bool := place.isTop || place.isInFunction

end Place

namespace Context

/-- The place of a node, by what is known at it. -/
def place (ctx : Context) : Place := ⟨ctx.isTop, ctx.functionDepth != 0, ctx.continueLabel⟩

theorem place_inBlock (ctx : Context) : ctx.inBlock.place = ctx.place.inBlock := by
  simp [place, Place.inBlock, inBlock, isTop]

theorem place_inLoop (ctx : Context) (body : List Stmt) :
    (ctx.inLoop body).place = ctx.place.inLoop body := by
  have htop : (ctx.inLoop body).isTop = false := by simp [inLoop, inBlock, isTop]
  rw [place, htop]
  rfl

theorem place_inFunction (ctx : Context) (parameters shown : List Identifier)
    (receiver : Option String) :
    (ctx.inFunction parameters shown receiver).place = .inFunction := by
  simp [place, Place.inFunction, inFunction, inBlock, isTop]

theorem allowsReturn_place (ctx : Context) : ctx.place.allowsReturn = allowsReturn ctx := rfl

end Context

end Emit

open Emit (Place Unsupported)

/-! ## Faults -/

mutual

/-- The faults in an expression, which lists the members of a class or does not. -/
def Expr.faults (place : Place) (members : Bool) : Expr → List (Located Unsupported)
  | ⟨_, _, kind⟩ => kind.faults place members

/-- The faults in an expression of a kind. -/
def ExprKind.faults (place : Place) (members : Bool) : ExprKind → List (Located Unsupported)
  | .function f => f.faults
  | .table fields => fieldFaults place members fields
  | .binary _ left right => left.faults place false ++ right.faults place false
  | .logical _ left right => left.faults place false ++ right.faults place false
  | .unary _ argument => argument.faults place false
  | .member base _ _ => base.faults place false
  | .index base index => base.faults place false ++ index.faults place false
  | .call base _ arguments =>
    base.faults place false ++ exprFaults place (base.isName "class") arguments
  | _ => []

/-- The faults in expressions in a row, of which the first one lists the members of a class or does
not. -/
def exprFaults (place : Place) (members : Bool) : List Expr → List (Located Unsupported)
  | [] => []
  | first :: rest => first.faults place members ++ exprFaults place false rest

/-- The faults in the fields of a table. -/
def fieldFaults (place : Place) (members : Bool) : List Field → List (Located Unsupported)
  | [] => []
  | ⟨_, span, kind⟩ :: rest => kind.faults place members span ++ fieldFaults place members rest

/-- The faults in a field, which has to have a key if it is a member of a class. -/
def FieldKind.faults (place : Place) (members : Bool) (span : Span) :
    FieldKind → List (Located Unsupported)
  | .named _ value => value.faults place false
  | .keyed key value => key.faults place false ++ value.faults place false
  | .positional value =>
    (if members then [⟨.positionalMember, span.start⟩] else []) ++ value.faults place false

/-- The faults in a function. -/
def FunctionBody.faults : FunctionBody → List (Located Unsupported)
  | ⟨_, _, _, _, body⟩ => stmtFaults .inFunction body

/-- The faults in what a function statement assigns to. -/
def FunctionTarget.faults (place : Place) : FunctionTarget → List (Located Unsupported)
  | .name _ => []
  | .member _ _ base _ _ => base.faults place false

/-- The faults in a block. -/
def stmtFaults (place : Place) : List Stmt → List (Located Unsupported)
  | [] => []
  | ⟨_, span, kind⟩ :: rest => kind.faults place span ++ stmtFaults place rest

/-- The faults in a statement. -/
def StmtKind.faults (place : Place) (span : Span) : StmtKind → List (Located Unsupported)
  | .local _ init => exprFaults place false init
  | .assignment targets init => exprFaults place false targets ++ exprFaults place false init
  | .call expression => expression.faults place false
  | .localFunction _ f => f.faults
  | .function target f => target.faults place ++ f.faults
  | .return arguments =>
    (if place.allowsReturn then [] else [⟨.returnOutsideFunction, span.start⟩]) ++
      exprFaults place false arguments
  | .break => []
  | .goto label =>
    if place.label = some label.name then [] else [⟨.goto label.name, span.start⟩]
  | .label label => if place.label = some label.name then [] else [⟨.label, span.start⟩]
  | .block body => stmtFaults place.inBlock body
  | .while condition body => condition.faults place false ++ stmtFaults (place.inLoop body) body
  | .repeat body condition => stmtFaults (place.inLoop body) body ++ condition.faults place false
  | .conditional ⟨_, _, condition, body⟩ others otherwise =>
    condition.faults place false ++ (stmtFaults place.inBlock body ++
      (clauseFaults place others ++ elseFaults place otherwise))
  | .forNumeric _ first last step body =>
    first.faults place false ++ (last.faults place false ++ (stepFaults place step ++
      stmtFaults (place.inLoop body) body))
  | .forGeneric _ iterators body =>
    (if iterators.length = 1 then [] else [⟨.iterators iterators.length, span.start⟩]) ++
      (exprFaults place false iterators ++ stmtFaults (place.inLoop body) body)

/-- The faults in the step of a loop. -/
def stepFaults (place : Place) : Option Expr → List (Located Unsupported)
  | none => []
  | some step => step.faults place false

/-- The faults in clauses behind the first. -/
def clauseFaults (place : Place) : List Clause → List (Located Unsupported)
  | [] => []
  | ⟨_, _, condition, body⟩ :: rest =>
    condition.faults place false ++ (stmtFaults place.inBlock body ++ clauseFaults place rest)

/-- The faults in the last clause. -/
def elseFaults (place : Place) : Option ElseClause → List (Located Unsupported)
  | none => []
  | some ⟨_, _, body⟩ => stmtFaults place.inBlock body

end

/-- **The faults of a program.** -/
def Chunk.faults (chunk : Chunk) : List (Located Unsupported) := stmtFaults .top chunk.body

/-! ### The faults are constructs -/

/-- A construct of the language, as against a node whose parts are not those of its kind. -/
def Emit.Unsupported.IsConstruct : Unsupported → Prop
  | .returnOutsideFunction | .goto _ | .label | .iterators _ | .positionalMember => True
  | .callExpression | .memberExpression | .classDeclaration | .functionDeclaration | .clause => False

/-- Each fault is that of a construct. -/
def Emit.Constructs (faults : List (Located Unsupported)) : Prop :=
  ∀ fault ∈ faults, fault.fault.IsConstruct

open Emit (Constructs)

theorem Emit.constructs_nil : Constructs [] := List.forall_mem_nil _

theorem Emit.Constructs.append {first second : List (Located Unsupported)} (h : Constructs first)
    (h' : Constructs second) : Constructs (first ++ second) :=
  List.forall_mem_append.2 ⟨h, h'⟩

/-- What is a fault at some places only, is one of a construct. -/
theorem Emit.constructs_if {c : Prop} [Decidable c] (construct : Unsupported) {place : Position}
    (h : construct.IsConstruct) : Constructs (if c then [] else [⟨construct, place⟩]) := by
  split
  · exact constructs_nil
  · exact List.forall_mem_singleton.2 h

open Emit (constructs_nil constructs_if)

mutual

theorem Expr.constructs_faults (place : Place) (members : Bool) :
    ∀ e : Expr, Constructs (e.faults place members)
  | ⟨_, _, kind⟩ => kind.constructs_faults place members

theorem ExprKind.constructs_faults (place : Place) (members : Bool) :
    ∀ kind : ExprKind, Constructs (kind.faults place members)
  | .name _ | .nil | .boolean _ | .number .. | .string _ | .vararg => constructs_nil
  | .function f => f.constructs_faults
  | .table fields => constructs_fieldFaults place members fields
  | .binary _ left right | .logical _ left right =>
    (left.constructs_faults place false).append (right.constructs_faults place false)
  | .unary _ argument => argument.constructs_faults place false
  | .member base _ _ => base.constructs_faults place false
  | .index base index =>
    (base.constructs_faults place false).append (index.constructs_faults place false)
  | .call base _ arguments =>
    (base.constructs_faults place false).append
      (constructs_exprFaults place (base.isName "class") arguments)

theorem constructs_exprFaults (place : Place) (members : Bool) :
    ∀ es : List Expr, Constructs (exprFaults place members es)
  | [] => constructs_nil
  | first :: rest =>
    (first.constructs_faults place members).append (constructs_exprFaults place false rest)

theorem constructs_fieldFaults (place : Place) (members : Bool) :
    ∀ fields : List Field, Constructs (fieldFaults place members fields)
  | [] => constructs_nil
  | ⟨_, span, kind⟩ :: rest =>
    (kind.constructs_faults place members span).append (constructs_fieldFaults place members rest)

theorem FieldKind.constructs_faults (place : Place) (members : Bool) (span : Span) :
    ∀ kind : FieldKind, Constructs (kind.faults place members span)
  | .named _ value => value.constructs_faults place false
  | .keyed key value =>
    (key.constructs_faults place false).append (value.constructs_faults place false)
  | .positional value => by
    have hmember : Constructs
        (if members then [⟨.positionalMember, span.start⟩] else []) := by
      split
      · exact List.forall_mem_singleton.2 trivial
      · exact constructs_nil
    exact hmember.append (value.constructs_faults place false)

theorem FunctionBody.constructs_faults : ∀ f : FunctionBody, Constructs f.faults
  | ⟨_, _, _, _, body⟩ => constructs_stmtFaults .inFunction body

theorem FunctionTarget.constructs_faults (place : Place) :
    ∀ target : FunctionTarget, Constructs (target.faults place)
  | .name _ => constructs_nil
  | .member _ _ base _ _ => base.constructs_faults place false

theorem constructs_stmtFaults (place : Place) :
    ∀ body : List Stmt, Constructs (stmtFaults place body)
  | [] => constructs_nil
  | ⟨_, span, kind⟩ :: rest =>
    (kind.constructs_faults place span).append (constructs_stmtFaults place rest)

/-- Node by node: the faults of a node are those of its parts, behind one of its own at most. -/
theorem StmtKind.constructs_faults (place : Place) (span : Span) :
    ∀ kind : StmtKind, Constructs (kind.faults place span)
  | .local _ init => constructs_exprFaults place false init
  | .assignment targets init =>
    (constructs_exprFaults place false targets).append (constructs_exprFaults place false init)
  | .call expression => expression.constructs_faults place false
  | .localFunction _ f => f.constructs_faults
  | .function target f => (target.constructs_faults place).append f.constructs_faults
  | .return arguments =>
    (constructs_if .returnOutsideFunction trivial).append
      (constructs_exprFaults place false arguments)
  | .break => constructs_nil
  | .goto _ | .label _ => constructs_if _ trivial
  | .block body => constructs_stmtFaults place.inBlock body
  | .while condition body =>
    (condition.constructs_faults place false).append
      (constructs_stmtFaults (place.inLoop body) body)
  | .repeat body condition =>
    (constructs_stmtFaults (place.inLoop body) body).append
      (condition.constructs_faults place false)
  | .conditional ⟨_, _, condition, body⟩ others otherwise =>
    (condition.constructs_faults place false).append
      ((constructs_stmtFaults place.inBlock body).append
        ((constructs_clauseFaults place others).append (constructs_elseFaults place otherwise)))
  | .forNumeric _ first last step body =>
    (first.constructs_faults place false).append ((last.constructs_faults place false).append
      ((constructs_stepFaults place step).append
        (constructs_stmtFaults (place.inLoop body) body)))
  | .forGeneric _ iterators body =>
    (constructs_if (.iterators iterators.length) trivial).append
      ((constructs_exprFaults place false iterators).append
        (constructs_stmtFaults (place.inLoop body) body))

theorem constructs_stepFaults (place : Place) :
    ∀ step : Option Expr, Constructs (stepFaults place step)
  | none => constructs_nil
  | some step => step.constructs_faults place false

theorem constructs_clauseFaults (place : Place) :
    ∀ clauses : List Clause, Constructs (clauseFaults place clauses)
  | [] => constructs_nil
  | ⟨_, _, condition, body⟩ :: rest =>
    (condition.constructs_faults place false).append
      ((constructs_stmtFaults place.inBlock body).append (constructs_clauseFaults place rest))

theorem constructs_elseFaults (place : Place) :
    ∀ otherwise : Option ElseClause, Constructs (elseFaults place otherwise)
  | none => constructs_nil
  | some ⟨_, _, body⟩ => constructs_stmtFaults place.inBlock body

end

open List (Sublist)

theorem fieldFaults_sublist (place : Place) (members : Bool) (fields : List Field) :
    Sublist (fieldFaults place false fields) (fieldFaults place members fields) := by
  induction fields with
  | nil => exact .refl _
  | cons field rest ih =>
    obtain ⟨id, span, kind⟩ := field
    refine .append ?_ ih
    cases kind with
    | positional value => exact List.sublist_append_right _ _
    | _ => exact .refl _

/-- A class has all the faults of the table that lists its members. -/
theorem Expr.faults_sublist (place : Place) (members : Bool) (e : Expr) :
    Sublist (e.faults place false) (e.faults place members) := by
  obtain ⟨id, span, kind⟩ := e
  cases kind with
  | table fields => exact fieldFaults_sublist place members fields
  | _ => exact .refl _

theorem exprFaults_sublist (place : Place) (members : Bool) (es : List Expr) :
    Sublist (exprFaults place false es) (exprFaults place members es) := by
  cases es with
  | nil => exact .refl _
  | cons first rest => exact (first.faults_sublist place members).append (.refl _)

/-! ## Call sites -/

namespace Emit

variable {site : CallSite}

/-- **Each rule for a call finds what it takes apart**: a class its name, a selection its number, a
library function its two names, a call with the receiver the owner of what is called, and a native
class the table of its members. -/
structure IsServed (ctx : Context) (site : CallSite) : Prop where
  classFactory : patternAt ctx site = .classFactory → site.base.isName "class" = true
  selectIndex : patternAt ctx site = .selectIndex → ∃ index rest, site.arguments = [index, rest]
  systemFunction : patternAt ctx site = .systemFunction →
    ∃ library name, site.base.qualifiedName? = some (library, name)
  selfCall : patternAt ctx site = .selfCall →
    ∃ owner indexer identifier, site.base.kind = .member owner indexer identifier
  nativeClass : isNativeClass site.arguments = true →
    ∃ id span fields rest, site.arguments = ⟨id, span, .table fields⟩ :: rest

theorem isNativeClass_cases {arguments : List Expr} (h : isNativeClass arguments = true) :
    ∃ id span fields rest, arguments = ⟨id, span, .table fields⟩ :: rest := by
  match arguments, h with
  | ⟨id, span, .table fields⟩ :: rest, _ => exact ⟨id, span, fields, rest, rfl⟩

/-- A call of a library by its two names calls a member of a name. -/
theorem qualifiedName_of_callsSystemFunction (h : site.callsSystemFunction = true) :
    ∃ library name, site.base.qualifiedName? = some (library, name) := by
  unfold CallSite.callsSystemFunction at h
  split at h
  next base identifier hkind =>
    obtain ⟨library, hlibrary⟩ : ∃ library, base.name? = some library := by
      cases hname : base.name? with
      | none => simp [hname] at h
      | some library => exact ⟨library, rfl⟩
    exact ⟨library, identifier.name, by simp [Expr.qualifiedName?, hkind, hlibrary]⟩
  · cases h

theorem arguments_of_selectsVararg (h : site.selectsVararg = true) :
    ∃ index rest, site.arguments = [index, rest] := by
  unfold CallSite.selectsVararg at h
  split at h
  next index rest harguments => exact ⟨index, rest, harguments⟩
  · cases h

theorem kind_of_passesReceiver {receiver : String} (h : site.passesReceiver receiver = true) :
    ∃ owner indexer identifier, site.base.kind = .member owner indexer identifier := by
  unfold CallSite.passesReceiver at h
  split at h
  next owner identifier hkind => exact ⟨owner, .dot, identifier, hkind⟩
  · cases h

/-- What the pattern of a call site says of it, for the patterns whose rules take the site apart. -/
def Fits (site : CallSite) (receiver : Option String) : CallPattern → Prop
  | .classFactory => site.base.isName "class" = true
  | .selectIndex => site.selectsVararg = true
  | .systemFunction => site.callsSystemFunction = true
  | .selfCall => receiver.any site.passesReceiver = true
  | _ => True

theorem fits_pattern (site : CallSite) (receiver : Option String) (valueTypes : List String) :
    Fits site receiver (site.pattern receiver valueTypes) := by
  unfold CallSite.pattern
  dsimp only
  refine iteInduction (fun h => (Bool.and_eq_true_iff.1 h).1) fun _ => ?_
  refine iteInduction (fun h => iteInduction (fun _ => trivial) fun _ => h) fun _ => ?_
  iterate 6 refine iteInduction (fun _ => trivial) fun _ => ?_
  refine iteInduction id fun _ => ?_
  refine iteInduction (fun _ => trivial) fun _ => ?_
  refine iteInduction id fun _ => ?_
  iterate 2 refine iteInduction (fun _ => trivial) fun _ => ?_
  trivial

/-- A parameter that hides a library leaves a pattern that says nothing. -/
theorem fits_patternAt (ctx : Context) (site : CallSite) :
    Fits site (ctx.receiver.map Receiver.name) (patternAt ctx site) :=
  iteInduction (fun _ => trivial) fun _ => fits_pattern site _ _

/-- **Each rule for a call finds what it takes apart**, whatever the call. -/
theorem isServed (ctx : Context) (site : CallSite) : IsServed ctx site := by
  have hfits := fits_patternAt ctx site
  refine ⟨fun h => ?_, fun h => ?_, fun h => ?_, fun h => ?_, isNativeClass_cases⟩
  all_goals rw [h] at hfits
  · exact hfits
  · exact arguments_of_selectsVararg hfits
  · exact qualifiedName_of_callsSystemFunction hfits
  · obtain ⟨receiver, -, hpasses⟩ := (Option.any_eq_true _ _).1 hfits
    exact kind_of_passesReceiver hpasses

end Emit

end LuaCompiler
