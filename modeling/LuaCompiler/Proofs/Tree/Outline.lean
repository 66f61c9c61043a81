import LuaCompiler.CallSite
import LuaCompiler.Raw

/-!
# Outlines of trees of the grammar

The outline of an expression leaves out the bodies of its functions and the styles of its calls. What
is asked of an expression to decide how it is lowered gets the same answer from the outline.

* `outlines_raw`, `fieldOutlines_raw`: the outlines of lists are lists of outlines.
* One lemma for each question, from `Expr.name?_outline` to `CallSite.pattern_outline`.
-/

namespace LuaCompiler

open Raw (outlines fieldOutlines)

/-! ## Lists -/

/-- The outlines of a row are those of its expressions. -/
@[simp]
theorem outlines_raw (es : List Expr) : outlines (rawExprs es) = es.map fun e => e.raw.outline := by
  induction es with
  | nil => rfl
  | cons first rest ih => exact congrArg (List.cons first.raw.outline) ih

/-- The outlines of fields keep their numbers and spans. -/
@[simp]
theorem fieldOutlines_raw (fields : List Field) :
    fieldOutlines (rawFields fields) =
      fields.map fun field => ⟨field.id, field.span, field.kind.raw.outline⟩ := by
  induction fields with
  | nil => rfl
  | cons first rest ih =>
    obtain ⟨id, span, kind⟩ := first
    exact congrArg (List.cons ⟨id, span, kind.raw.outline⟩) ih

namespace Expr

/-- An outline is that of the kind, in its place. -/
theorem outline_eq (e : Expr) : e.raw.outline = ⟨e.id, e.span, e.kind.raw.outline⟩ := by
  cases e
  rfl

@[simp]
theorem id_outline (e : Expr) : e.raw.outline.id = e.id := by rw [outline_eq]

@[simp]
theorem span_outline (e : Expr) : e.raw.outline.span = e.span := by rw [outline_eq]

theorem kind_outline (e : Expr) : e.raw.outline.kind = e.kind.raw.outline := by rw [outline_eq]

/-! ## Questions about expressions -/

@[simp]
theorem name?_outline (e : Expr) : e.raw.outline.name? = e.name? := by
  obtain ⟨id, span, kind⟩ := e
  cases kind <;> rfl

@[simp]
theorem isName_outline (e : Expr) (name : String) : e.raw.outline.isName name = e.isName name := by
  rw [isName, isName, name?_outline]

@[simp]
theorem isVararg_outline (e : Expr) : e.raw.outline.isVararg = e.isVararg := by
  obtain ⟨id, span, kind⟩ := e
  cases kind <;> rfl

@[simp]
theorem isString_outline (e : Expr) : e.raw.outline.isString = e.isString := by
  obtain ⟨id, span, kind⟩ := e
  cases kind <;> rfl

@[simp]
theorem isNumber_outline (e : Expr) (value : Binary64.Magnitude) :
    e.raw.outline.isNumber value = e.isNumber value := by
  obtain ⟨id, span, kind⟩ := e
  cases kind <;> rfl

@[simp]
theorem isNil_outline (e : Expr) : e.raw.outline.isNil = e.isNil := by
  obtain ⟨id, span, kind⟩ := e
  cases kind <;> rfl

/-- A qualified name is read off an outline. -/
@[simp]
theorem qualifiedName?_outline (e : Expr) : e.raw.outline.qualifiedName? = e.qualifiedName? := by
  obtain ⟨id, span, kind⟩ := e
  cases kind with
  | member base indexer identifier =>
    exact congrArg (Option.map fun library => (library, identifier.name)) (name?_outline base)
  | _ => rfl

/-- So is the name at the root of a path. -/
@[simp]
theorem rootName?_outline (e : Expr) : e.raw.outline.rootName? = e.rootName? := by
  obtain ⟨_, _, kind⟩ := e
  cases kind with
  | member base indexer identifier => exact rootName?_outline base
  | index base index => exact rootName?_outline base
  | _ => rfl

end Expr

/-! ## Questions about fields -/

@[simp]
theorem FieldKind.isPositional_outline (kind : FieldKind) :
    kind.raw.outline.isPositional = kind.isPositional := by
  cases kind <;> rfl

@[simp]
theorem FieldKind.value_outline (kind : FieldKind) :
    kind.raw.outline.value = kind.value.raw.outline := by
  cases kind <;> rfl

/-! ## Questions about calls -/

namespace CallSite

/-- A call site between the outlines of its parts. -/
def outline (site : CallSite) : CallSite :=
  ⟨site.base.raw.outline, site.arguments.map fun e => e.raw.outline⟩

variable (site : CallSite)

@[simp]
theorem literal?_outline (e : Expr) : literal? e.raw.outline = literal? e := by
  obtain ⟨id, span, kind⟩ := e
  cases kind <;> rfl

/-- So is whether a path has a key that is written out. -/
@[simp]
theorem hasDirectKey_outline (e : Expr) : hasDirectKey e.raw.outline = hasDirectKey e := by
  obtain ⟨_, _, kind⟩ := e
  cases kind with
  | member base indexer identifier =>
    exact congrArg (directKeys.contains identifier.name || ·) (hasDirectKey_outline base)
  | index base index => exact hasDirectKey_outline base
  | _ => rfl

theorem calls_outline (name : String) : site.outline.calls name = site.calls name :=
  Expr.isName_outline site.base name

theorem callsLibrary_outline (library name : String) :
    site.outline.callsLibrary library name = site.callsLibrary library name := by
  simp [callsLibrary, outline]

/-- So is whether a call is one of the system's. -/
theorem callsSystemFunction_outline : site.outline.callsSystemFunction = site.callsSystemFunction := by
  obtain ⟨⟨id, span, kind⟩, arguments⟩ := site
  cases kind with
  | member base indexer identifier =>
    cases indexer with
    | dot => exact congrArg (Option.any Name.isSystemLibrary) (Expr.name?_outline base)
    | colon => rfl
  | _ => rfl

/-- So is whether a call passes a receiver on. -/
theorem passesReceiver_outline (receiver : String) :
    site.outline.passesReceiver receiver = site.passesReceiver receiver := by
  obtain ⟨⟨id, span, kind⟩, arguments⟩ := site
  cases kind with
  | member base indexer identifier =>
    cases indexer with
    | dot => cases arguments <;> simp [passesReceiver, outline, Expr.kind_outline, ExprKind.raw,
        Raw.ExprKind.outline]
    | colon => rfl
  | _ => rfl

/-- So is whether a call selects among the varargs. -/
theorem selectsVararg_outline : site.outline.selectsVararg = site.selectsVararg := by
  obtain ⟨base, arguments⟩ := site
  rcases arguments with _ | ⟨first, _ | ⟨second, _ | ⟨third, rest⟩⟩⟩
  · rfl
  · rfl
  · simp [selectsVararg, outline, calls]
  · rfl

/-- **A call is classified by its outline.** -/
theorem pattern_outline (receiver : Option String) (valueTypes : List String) :
    site.outline.pattern receiver valueTypes = site.pattern receiver valueTypes := by
  have hfirst : site.outline.arguments.head?.bind literal? = site.arguments.head?.bind literal? := by
    cases harguments : site.arguments <;> simp [outline, harguments]
  have hstring : site.outline.arguments.head?.any Expr.isString =
      site.arguments.head?.any Expr.isString := by
    simp [outline, Option.any_map]
  have hcount : site.outline.arguments.length = site.arguments.length := List.length_map _
  have hname : site.outline.base.name? = site.base.name? := Expr.name?_outline _
  simp only [pattern, selectsVararg_outline, callsSystemFunction_outline,
    funext site.passesReceiver_outline, hfirst, hstring, hcount, calls_outline,
    callsLibrary_outline, hname]

end CallSite

end LuaCompiler
