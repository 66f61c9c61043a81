import LuaCompiler.Proofs.Emit.Created
import LuaCompiler.Proofs.Output.Surface

/-!
# Where classes are sealed

A class is declared where it is created and sealed behind the last statement, or before the export
if the program ends with one: each class of the program once, in the order of their declarations.
Where the target of an assignment is written with a comment behind it, the comment is a part of the
text under which the class is declared, and the class is sealed under each of its texts.

* `Script.Seals`: how many classes a text seals, whatever follows it.
* `Emit.SealsOnce`: **how a program seals its classes**: none is declared twice, each is declared by
  a statement that creates it, and the seals stand in one block behind these statements.
* `sealsOnce_compile`: **every program that parses seals its classes so**, and no class is sealed
  twice where no comment starts on the line on which the target of an assignment ends.
-/

namespace LuaCompiler

open Script (Reads Refers Grounded Silent Usage Lexeme)

namespace Script

/-! ## Seals -/

/-- Whether what follows a mention of the support module seals a class. -/
def isSeal : List Lexeme → Bool
  | .sign '.' :: .word w :: _ => w == "finishClass".toList
  | _ => false

/-- How many classes are sealed in a script. -/
def sealCount (ls : List Lexeme) : Nat := (mentions ls).countP isSeal

/-- **A text that seals so many classes**, whatever comes behind it; if it dangles, whatever but a
member. -/
def Seals (dangling : Bool) (n : Nat) (text : String) : Prop :=
  ∃ ls, Reads text ls ∧ ∀ rest, (dangling = true → rest.head? ≠ some (.sign '.')) →
    (mentions ls).countP (fun post => isSeal (post ++ rest)) = n

variable {u : Usage} {dangling : Bool} {n k : Nat} {s t : String}

/-- What keeps to a usage in which no class is sealed seals none. -/
theorem Refers.seals (h : Refers u dangling t) (hseals : u.seals = false) : Seals dangling 0 t := by
  obtain ⟨ls, hreads, hadmits⟩ := h
  refine ⟨ls, hreads, fun rest hrest => List.countP_eq_zero.2 fun post hpost hseal => ?_⟩
  have hadmitted := (hadmits post hpost rest hrest).sealing hseals
  unfold isSeal at hseal
  split at hseal
  next w behind heq => exact hadmitted behind (by rw [heq, beq_iff_eq.1 hseal])
  · cases hseal

/-- Texts that seal classes in a row, when no word joins them. -/
theorem Seals.append (h : Seals false n s) (h' : Seals dangling k t)
    (hapart : endsWord s = false ∨ startsWord t = false) : Seals dangling (n + k) (s ++ t) := by
  obtain ⟨ls, hls, hs⟩ := h
  obtain ⟨ms, hms, ht⟩ := h'
  refine ⟨ls ++ ms, hls.append hms hapart, fun rest hrest => ?_⟩
  have hfirst := hs (ms ++ rest) (by simp)
  rw [mentions_append, List.countP_append, List.countP_map, ht rest hrest, ← hfirst]
  congr 1
  exact List.countP_congr fun post _ => by simp

/-- The classes a text seals are counted over its lexemes. -/
theorem Seals.count (h : Seals dangling n t) : sealCount (lexemes t) = n := by
  obtain ⟨ls, hreads, hcount⟩ := h
  rw [hreads.lexemes, ← hcount [] (by simp)]
  exact List.countP_congr fun post _ => by simp

end Script

namespace Emit

open Script (Seals)

/-- **What seals classes seals each of them once.** -/
theorem seals_sealing {classes : List String} (h : ∀ c ∈ classes, ClassText c) :
    Seals false classes.length (sealing classes) := by
  have hfinish : Seals false 1 "l2j.finishClass(" := by
    refine ⟨[.word Script.supportName, .sign '.', .word "finishClass".toList, .sign '('], by decide,
      fun rest _ => rfl⟩
  induction classes with
  | nil => exact ⟨[], Script.reads_empty, fun _ _ => rfl⟩
  | cons c classes ih =>
    obtain ⟨hc, hclasses⟩ := List.forall_mem_cons.1 h
    have hname : Grounded ⟨.empty, false⟩ (c ++ ");\n") :=
      (refers_classText hc _).behind (by decide)
    have hfirst := hfinish.append (hname.seals rfl) (.inl (by decide))
    have hend : Script.endsWord ("l2j.finishClass(" ++ (c ++ ");\n")) = false :=
      Script.endsWord_append_of (Script.endsWord_append_of (by decide) (by decide) c)
        (fun hempty => by simpa using congrArg String.toList hempty) _
    have hall := hfirst.append (ih hclasses) (.inl hend)
    rw [sealing_cons, List.length_cons, Nat.add_comm]
    simpa only [String.append_assoc] using hall

/-! ## Texts one behind another -/

/-- **Texts that stand in a code one behind another.** -/
inductive InTurn : List String → String → Prop where
  | nil (code : String) : InTurn [] code
  | cons {text : String} {texts : List String} (gap : String) {rest : String}
    (h : InTurn texts rest) : InTurn (text :: texts) (gap ++ text ++ rest)

namespace InTurn

variable {texts : List String} {code : String}

theorem before (h : InTurn texts code) (front : String) : InTurn texts (front ++ code) := by
  cases h with
  | nil => exact .nil _
  | cons gap h =>
    rw [← String.append_assoc, ← String.append_assoc]
    exact .cons (front ++ gap) h

theorem behind (h : InTurn texts code) (back : String) : InTurn texts (code ++ back) := by
  induction h with
  | nil => exact .nil _
  | cons gap _ ih =>
    rw [String.append_assoc]
    exact .cons gap ih

end InTurn

/-- Statements with comments around them stand in a block one behind another. -/
theorem inTurn_sequence {ls : List Lowered} {texts : List String}
    (h : List.Forall₂ (fun l text => ∃ before behind, text = before ++ l.text ++ behind) ls texts) :
    InTurn (ls.map Lowered.text) (sequence texts) := by
  induction h with
  | nil => exact .nil _
  | @cons l text ls texts hfirst hrest ih =>
    obtain ⟨before, behind, rfl⟩ := hfirst
    cases texts with
    | nil =>
      cases hrest
      exact .cons before (.nil behind)
    | cons second texts =>
      have hcode : sequence ((before ++ l.text ++ behind) :: second :: texts) =
          before ++ l.text ++ (behind ++ (";\n" ++ sequence (second :: texts))) := by
        rw [sequence, String.intercalate_cons_cons, sequence]
        simp only [String.append_assoc]
      rw [hcode]
      exact .cons before ((ih.before ";\n").before behind)

/-- Statements before one that follows them. -/
def terminated (texts : List String) : String :=
  if texts.isEmpty then "" else sequence texts ++ ";\n"

theorem inTurn_terminated {ls : List Lowered} {texts : List String}
    (h : List.Forall₂ (fun l text => ∃ before behind, text = before ++ l.text ++ behind) ls texts) :
    InTurn (ls.map Lowered.text) (terminated texts) := by
  unfold terminated
  split
  next hempty =>
    rw [List.isEmpty_iff.1 hempty] at h
    cases h
    exact .nil _
  · exact (inTurn_sequence h).behind _

/-! ## Programs -/

/-- The comments left, below the code. -/
def below (left : List Comment) : String :=
  if (CommentQueue.lines Comment.leading left).isEmpty then ""
  else "\n" ++ CommentQueue.lines Comment.leading left

/-- The export of a module, behind its classes. -/
def exported (ctx : Context) (packed : String) : String :=
  (if ctx.options.asEsm then "export default " else "exports.default = ") ++
    if (Text.trim packed).isEmpty then "undefined" else packed

/-- Statements end with a break but for the last. -/
theorem sequence_concat (texts : List String) (last : String) :
    sequence (texts ++ [last]) = terminated texts ++ last := by
  induction texts with
  | nil => rfl
  | cons first texts ih =>
    cases texts with
    | nil => simp [sequence, terminated]
    | cons second texts =>
      have hcons (more : List String) : sequence (first :: second :: more) =
          first ++ ";\n" ++ sequence (second :: more) := String.intercalate_cons_cons
      have hmore : terminated (second :: texts) = sequence (second :: texts) ++ ";\n" := rfl
      have hall : terminated (first :: second :: texts) =
          sequence (first :: second :: texts) ++ ";\n" := rfl
      rw [List.cons_append, List.cons_append, hcons, ← List.cons_append, ih, hall, hcons, hmore]
      simp only [String.append_assoc]

/-- The code of a program. -/
theorem chunk_run (ctx : Context) (c : Chunk) (p : Progress) :
    (chunk ctx c).run p =
      (let body := (statements ctx c.body).run p
       ((if exportsValue c || body.2.classes.isEmpty then sequence body.1
          else (if (sequence body.1).isEmpty then "" else sequence body.1 ++ ";\n") ++
            sealing body.2.classes) ++ below body.2.comments.waiting,
         (commentsLeft.run body.2).2)) := by
  let body := (statements ctx c.body).run p
  let sealed := if exportsValue c || body.2.classes.isEmpty then sequence body.1
    else (if (sequence body.1).isEmpty then "" else sequence body.1 ++ ";\n") ++
      sealing body.2.classes
  have hrun : (chunk ctx c).run p = ((if (commentsLeft.run body.2).1.isEmpty then sealed
      else sealed ++ "\n" ++ (commentsLeft.run body.2).1), (commentsLeft.run body.2).2) := rfl
  have hleft : (commentsLeft.run body.2).1 =
      CommentQueue.lines Comment.leading body.2.comments.waiting := rfl
  rw [hrun, hleft]
  dsimp only
  unfold below
  split
  · rw [String.append_empty]
  · rw [String.append_assoc]

/-- A program that ends with its export. -/
structure Exporting (c : Chunk) (earlier : List Stmt) (id : NodeId) (span : Span)
    (arguments : List Expr) : Prop where
  body : c.body = earlier ++ [⟨id, span, .return arguments⟩]
  value : isFailure arguments = false

variable {ctx : Context} {c : Chunk} {earlier : List Stmt} {id : NodeId} {span : Span}
  {arguments : List Expr}

theorem exporting_of_exportsValue (h : exportsValue c = true) :
    ∃ earlier id span arguments, Exporting c earlier id span arguments := by
  unfold exportsValue at h
  split at h
  next id span arguments hlast =>
    obtain ⟨earlier, hbody⟩ := List.getLast?_eq_some_iff.1 hlast
    exact ⟨earlier, id, span, arguments, hbody, by simpa using h⟩
  · cases h

theorem Exporting.exportsValue (h : Exporting c earlier id span arguments) :
    exportsValue c = true := by
  rw [Emit.exportsValue, h.body, List.getLast?_concat]
  simp [h.value]

/-- The statements behind others are lowered in the same context. -/
theorem statements_append (ctx : Context) (before behind : List Stmt) :
    statements ctx (before ++ behind) = do
      let first ← statements ctx before
      return first ++ (← statements ctx behind) := by
  induction before with
  | nil => simp [statements]
  | cons s rest ih =>
    obtain ⟨id, span, kind⟩ := s
    simp [statements, ih]

/-- How a program that ends with its export is lowered. -/
theorem Exporting.statements_run (h : Exporting c earlier id span arguments)
    (htop : ctx.isTop = true) (p : Progress) :
    (statements ctx c.body).run p =
      (let body := (statements ctx earlier).run p
       let above := (commentsBefore span).run body.2
       let values := (expressions ctx (packRole arguments) arguments).run above.2
       let behind := (commentsAfter span).run values.2
       (body.1 ++ [above.1 ++ (sealing values.2.classes ++ exported ctx (packText values.1)) ++
          behind.1], behind.2)) := by
  have hstatement : statement ctx id span (.return arguments) = (do
      let texts ← expressions ctx (packRole arguments) arguments
      return exportText ctx (← get).classes (packText texts)) := by
    have hallows : allowsReturn ctx = true := by rw [allowsReturn, htop, Bool.true_or]
    have hvalue : ¬ isFailure arguments = true := by simp [h.value]
    rw [statement, if_pos hallows, returnStatement, if_neg hvalue]
    simp only [htop, if_true]
  have hexport (classes : List String) (packed : String) :
      exportText ctx classes packed = sealing classes ++ exported ctx packed :=
    String.append_assoc
  rw [h.body, statements_append, statements, hstatement]
  simp only [hexport]
  rfl

/-- What stands behind the classes that a program seals: the value that it exports, if it does, and
the comments left. -/
inductive Follows (ctx : Context) (c : Chunk) (left : List Comment) : String → Prop where
  | export {earlier : List Stmt} {id : NodeId} {span : Span} {arguments : List Expr} (p : Progress)
    (h : Exporting c earlier id span arguments) :
    Follows ctx c left
      (let values := (expressions ctx (packRole arguments) arguments).run p
       exported ctx (packText values.1) ++ ((commentsAfter span).run values.2).1 ++ below left)
  | ending (h : exportsValue c = false) : Follows ctx c left (below left)

/-- Nothing stands behind a `return`. -/
theorem nil_of_isReturn {before behind : List Stmt} {stmt : Stmt}
    (h : BlockShaped (before ++ stmt :: behind)) (hreturn : stmt.kind.isReturn = true) :
    behind = [] := by
  induction before with
  | nil =>
    obtain ⟨id, span, kind⟩ := stmt
    exact h.2.1 hreturn
  | cons first before ih =>
    obtain ⟨id, span, kind⟩ := first
    exact ih h.2.2

theorem isReturn_of_exports {kind : StmtKind} (h : exportsStatement ctx kind = true) :
    ∃ arguments, kind = .return arguments ∧ isFailure arguments = false := by
  cases kind with
  | «return» arguments =>
    have hvalue := (Bool.and_eq_true_iff.1 h).2
    exact ⟨arguments, rfl, by simpa using hvalue⟩
  | _ => cases h

/-- No statement of a program without an export exports a value. -/
theorem exports_of_exportsValue (hshaped : BlockShaped c.body) (h : exportsValue c = false) :
    ∀ stmt ∈ c.body, exportsStatement ctx stmt.kind = false := by
  intro stmt hstmt
  obtain ⟨before, behind, hbody⟩ := List.append_of_mem hstmt
  refine Bool.eq_false_iff.2 fun hexports => ?_
  obtain ⟨id, span, kind⟩ := stmt
  obtain ⟨arguments, rfl, hvalue⟩ := isReturn_of_exports hexports
  rw [hbody] at hshaped
  rw [nil_of_isReturn hshaped rfl] at hbody
  rw [Exporting.exportsValue ⟨hbody, hvalue⟩] at h
  cases h

/-- No statement before the export of a program exports a value. -/
theorem Exporting.exports (h : Exporting c earlier id span arguments)
    (hshaped : BlockShaped c.body) : ∀ stmt ∈ earlier, exportsStatement ctx stmt.kind = false := by
  intro stmt hstmt
  obtain ⟨before, behind, rfl⟩ := List.append_of_mem hstmt
  refine Bool.eq_false_iff.2 fun hexports => ?_
  obtain ⟨other, hkind, -⟩ := isReturn_of_exports hexports
  rw [h.body, List.append_assoc, List.cons_append] at hshaped
  have hnone := nil_of_isReturn hshaped (by rw [hkind]; rfl)
  exact absurd hnone (by simp)

/-! ## Where classes are sealed -/

/-- The statements of a program other than its export, where they are lowered. -/
def others (ctx : Context) (c : Chunk) (p : Progress) : List Lowered :=
  (lowered ctx c.body p).filter (!·.exports)

theorem others_of_none {body : List Stmt}
    (h : ∀ stmt ∈ body, exportsStatement ctx stmt.kind = false) (p : Progress) :
    (lowered ctx body p).filter (!·.exports) = lowered ctx body p := by
  refine List.filter_eq_self.2 fun l hl => ?_
  have hctx : l.ctx = ctx := ctx_lowered hl
  have hstmt : l.stmt ∈ body := stmt_mem_of_lowered hl
  rw [Lowered.exports, hctx, h l.stmt hstmt]
  rfl

/-- Some classes are sealed in one block, behind all statements other than the export, and behind the
block stands nothing but the export and the comments left. -/
def SealedInBlock (ctx : Context) (c : Chunk) (p : Progress) (code : String)
    (classes : List String) : Prop :=
  ∃ front back left, code = front ++ sealing classes ++ back ∧
    InTurn ((others ctx c p).map Lowered.text) front ∧ left <:+ p.comments.waiting ∧
    Follows ctx c left back

/-- **How a program seals its classes**, given the progress that it is lowered from, its code and
the classes that it declares. -/
structure SealsOnce (ctx : Context) (c : Chunk) (p : Progress) (code : String)
    (classes : List String) : Prop where
  /-- no class is declared twice -/
  nodup : classes.Nodup
  /-- the classes are those that some statements other than the export declare, in their order -/
  created : ∃ created, created.Sublist (others ctx c p) ∧
    List.Forall₂ Lowered.Declares created classes
  /-- no other statement declares a class -/
  unchanged : ∀ l ∈ lowered ctx c.body p,
    l.run.2.classes = l.progress.classes ∨ ∃ name, l.Declares name
  /-- the classes are sealed behind the statements and before the export -/
  block : SealedInBlock ctx c p code classes

theorem classes_chunk (ctx : Context) (c : Chunk) (p : Progress) :
    ((chunk ctx c).run p).2.classes = ((statements ctx c.body).run p).2.classes := rfl

/-- The comments that wait behind a block waited before it. -/
theorem waiting_statements (ctx : Context) (body : List Stmt) (p : Progress) :
    ((statements ctx body).run p).2.comments.waiting <:+ p.comments.waiting :=
  (framed_statements body ctx p).comments

/-- A program with an export. -/
theorem Exporting.block (h : Exporting c earlier id span arguments) (hshaped : BlockShaped c.body)
    (htop : ctx.isTop = true) (p : Progress) :
    SealedInBlock ctx c p ((chunk ctx c).run p).1 ((chunk ctx c).run p).2.classes := by
  let body := (statements ctx earlier).run p
  let above := (commentsBefore span).run body.2
  let values := (expressions ctx (packRole arguments) arguments).run above.2
  let behind := (commentsAfter span).run values.2
  have hrun : (statements ctx c.body).run p = (body.1 ++ [above.1 ++
      (sealing values.2.classes ++ exported ctx (packText values.1)) ++ behind.1], behind.2) :=
    h.statements_run htop p
  -- the seals are a part of the text of the export, behind the comments above it
  refine ⟨terminated body.1 ++ above.1, _, behind.2.comments.waiting, ?_, ?_, ?_,
    .export above.2 h⟩
  · have hclasses : behind.2.classes = values.2.classes := rfl
    rw [classes_chunk, chunk_run, hrun, h.exportsValue]
    dsimp only
    rw [sequence_concat, hclasses, Bool.true_or, if_pos rfl]
    simp only [String.append_assoc]
    rfl
  · have hothers : others ctx c p = lowered ctx earlier p := by
      have hexports (p : Progress) :
          (lowered ctx [⟨id, span, .return arguments⟩] p).filter (!·.exports) = [] := by
        refine List.filter_eq_nil_iff.2 fun l hl => ?_
        obtain rfl := List.mem_singleton.1 hl
        rw [Lowered.exports, exportsStatement, exportsAt, htop, h.value]
        decide
      rw [others, h.body, lowered_append, List.filter_append, others_of_none (h.exports hshaped),
        hexports, List.append_nil]
    rw [hothers]
    exact .behind (inTurn_terminated (texts_lowered ctx earlier p)) _
  · have hwaiting := waiting_statements ctx c.body p
    rw [hrun] at hwaiting
    exact hwaiting

/-- A program without an export. -/
theorem block_of_exportsValue (h : exportsValue c = false) (hshaped : BlockShaped c.body)
    (p : Progress) :
    SealedInBlock ctx c p ((chunk ctx c).run p).1 ((chunk ctx c).run p).2.classes := by
  let body := (statements ctx c.body).run p
  have hturn : InTurn ((others ctx c p).map Lowered.text) (sequence body.1) := by
    rw [others, others_of_none (exports_of_exportsValue hshaped h)]
    exact inTurn_sequence (texts_lowered ctx c.body p)
  have hwaiting := waiting_statements ctx c.body p
  rw [classes_chunk, chunk_run, h]
  dsimp only
  rw [Bool.false_or]
  split
  next hnone =>
    refine ⟨sequence body.1, _, _, ?_, hturn, hwaiting, .ending h⟩
    have hempty : sealing [] = "" := rfl
    rw [List.isEmpty_iff.1 hnone, hempty, String.append_empty]
  · refine ⟨_, _, _, rfl, ?_, hwaiting, .ending h⟩
    split
    next hempty => exact String.isEmpty_iff.1 hempty ▸ hturn
    · exact hturn.behind _

/-- **How a program seals its classes.** -/
theorem sealsOnce_chunk (hshaped : BlockShaped c.body) (htop : ctx.isTop = true) {p : Progress}
    (hnone : p.classes = []) :
    SealsOnce ctx c p ((chunk ctx c).run p).1 ((chunk ctx c).run p).2.classes where
  nodup := keeps_statements c.body ctx (fun _ => declarable_nodup) p (hnone ▸ List.nodup_nil)
  created := by
    obtain ⟨created, new, hsub, hclasses, hdeclares⟩ := declared_statements ctx c.body p
    rw [hnone, List.nil_append] at hclasses
    refine ⟨created, ?_, by rwa [classes_chunk, hclasses]⟩
    have hkept : created.filter (!·.exports) = created :=
      List.filter_eq_self.2 fun l hl => by rw [exports_of_declares hdeclares l hl]; rfl
    rw [others, ← hkept]
    exact hsub.filter _
  unchanged l _ := l.classes_cases
  block := by
    cases h : exportsValue c with
    | true =>
      obtain ⟨earlier, id, span, arguments, hexporting⟩ := exporting_of_exportsValue h
      exact hexporting.block hshaped htop p
    | false => exact block_of_exportsValue h hshaped p

/-! ## How often classes are sealed -/

/-- Comments at the end are not read. -/
theorem silent_below {queue : CommentQueue} (h : ∀ comment ∈ queue.waiting, comment.IsTidy) :
    Silent (below queue.waiting) := by
  unfold below
  split
  · decide
  · exact (by decide : Silent "\n").append (CommentQueue.silent_flush h)

theorem refers_exported {u : Usage} {packed : String} (h : Refers u true packed) :
    Refers u true (exported ctx packed) := by
  have htarget : Script.Lead
      (if ctx.options.asEsm then "export default " else "exports.default = ") := by
    split <;> decide
  refine Refers.before ?_ htarget
  split
  · exact (Script.Fixed.grounded (by decide)).weaken true
  · exact h

theorem refersAll_of_exports {u : Usage} {body : List Stmt} {texts : List String}
    (h : RefersBlock ctx body u texts)
    (hnone : ∀ stmt ∈ body, exportsStatement ctx stmt.kind = false) : RefersAll u texts := by
  induction h with
  | nil => exact List.forall_mem_nil _
  | cons hfirst _ ih =>
    obtain ⟨hstmt, hrest⟩ := List.forall_mem_cons.1 hnone
    have hother : ¬ exportsStatement ctx _ = true := Bool.eq_false_iff.1 hstmt
    exact List.forall_mem_cons.2 ⟨hfirst fun hexports => absurd hexports hother, ih hrest⟩

/-- Statements on both sides of a place are clear. -/
theorem clear_statements {before behind : List Stmt} (h : Clear (stmtTokens (before ++ behind))) :
    Clear (stmtTokens before) ∧ Clear (stmtTokens behind) := by
  induction before with
  | nil => exact ⟨List.forall_mem_nil _, h⟩
  | cons first before ih =>
    obtain ⟨id, span, kind⟩ := first
    obtain ⟨hfirst, hrest⟩ := Clear.append_iff.1 (h : Clear (kind.tokens ++ _))
    obtain ⟨hsemicolon, hrest⟩ := Clear.cons_iff.1 hrest
    obtain ⟨hbefore, hbehind⟩ := ih hrest
    exact ⟨Clear.append_iff.2 ⟨hfirst, Clear.cons_iff.2 ⟨hsemicolon, hbefore⟩⟩, hbehind⟩

/-- The text of some statements before one that follows. -/
theorem grounded_terminated {u : Usage} {texts : List String} (h : RefersAll u texts) :
    Grounded u (terminated texts) ∧ Script.endsWord (terminated texts) = false := by
  unfold terminated
  split
  · exact ⟨Script.grounded_empty, rfl⟩
  · exact ⟨(refers_sequence h).behind (by decide),
      Script.endsWord_append_of (by decide) (by decide) _⟩

variable {p : Progress} (hctx : ctx.Clear) (hclear : Clear (stmtTokens c.body))
  (hready : p.Ready fun classes => ∀ name ∈ classes, ClassText name)

include hctx hclear hready

/-- A program without an export seals each of its classes once. -/
theorem seals_of_exportsValue (h : exportsValue c = false) (hshaped : BlockShaped c.body) :
    Seals true ((chunk ctx c).run p).2.classes.length ((chunk ctx c).run p).1 := by
  let body := (statements ctx c.body).run p
  obtain ⟨hbehind, hwrites⟩ := registers_statements c.body hctx hclear
    (fun _ => keepsClasses_classText) (fun _ => True) p hready fun _ _ => trivial
  -- statements and comments keep to a usage in which nothing is sealed
  let u : Usage := ⟨body.2.registries.systemFunctions, false⟩
  have hbody : Refers u true (sequence body.1) := refers_sequence
    (refersAll_of_exports (hwrites u fun _ hmem => hmem).2 (exports_of_exportsValue hshaped h))
  have hbelow : Silent (below body.2.comments.waiting) := silent_below hbehind.comments
  rw [classes_chunk, chunk_run, h]
  dsimp only
  rw [Bool.false_or]
  split
  next hnone =>
    rw [List.isEmpty_iff.1 hnone]
    exact (hbody.behindSilent hbelow).seals rfl
  · have hfront : Grounded u (if (sequence body.1).isEmpty then "" else sequence body.1 ++ ";\n") ∧
        Script.endsWord (if (sequence body.1).isEmpty then "" else sequence body.1 ++ ";\n") =
          false := by
      split
      · exact ⟨Script.grounded_empty, rfl⟩
      · exact ⟨hbody.behind (by decide), Script.endsWord_append_of (by decide) (by decide) _⟩
    have hsealed := (hfront.1.seals rfl).append (seals_sealing hbehind.classes) (.inl hfront.2)
    have hleft : Refers u true (below body.2.comments.waiting) := hbelow.grounded.weaken true
    have hall := hsealed.append (hleft.seals rfl) (.inr hbelow.1)
    rwa [Nat.zero_add, Nat.add_zero] at hall

/-- A program with an export seals each of its classes once. -/
theorem Exporting.seals (h : Exporting c earlier id span arguments) (hshaped : BlockShaped c.body)
    (htop : ctx.isTop = true) :
    Seals true ((chunk ctx c).run p).2.classes.length ((chunk ctx c).run p).1 := by
  let body := (statements ctx earlier).run p
  let above := (commentsBefore span).run body.2
  let values := (expressions ctx (packRole arguments) arguments).run above.2
  let behind := (commentsAfter span).run values.2
  have hrun : (statements ctx c.body).run p = (body.1 ++ [above.1 ++
      (sealing values.2.classes ++ exported ctx (packText values.1)) ++ behind.1], behind.2) :=
    h.statements_run htop p
  have hclasses : behind.2.classes = values.2.classes := rfl
  rw [h.body] at hclear
  obtain ⟨hearlier, hlast⟩ := clear_statements hclear
  obtain ⟨hready', hbody⟩ := registers_statements earlier hctx hearlier
    (fun _ => keepsClasses_classText) (fun _ => True) p hready fun _ _ => trivial
  have habove : above.2.Ready fun classes => ∀ name ∈ classes, ClassText name :=
    ⟨fun comment hmem => hready'.comments comment ((List.dropWhile_suffix _).subset hmem),
      hready'.classes⟩
  obtain ⟨hready'', hvalues⟩ := registers_expressions arguments
    (packRole arguments) hctx (Clear.exprs hlast.left.tail.of_commaSeparated) (fun _ => True)
    above.2 habove
    fun _ _ => trivial
  -- all but the seals keeps to a usage in which nothing is sealed
  let u : Usage := ⟨values.2.registries.systemFunctions, false⟩
  obtain ⟨hrecorded, hshown⟩ := hvalues u fun _ hmem => hmem
  have htexts : RefersAll u body.1 :=
    refersAll_of_exports (hbody u hrecorded).2 (h.exports hshaped)
  have hexported : Refers u true (exported ctx (packText values.1)) :=
    refers_exported (refers_packText hshown.refersAll)
  have hback : Refers u true (exported ctx (packText values.1) ++ behind.1 ++
      below behind.2.comments.waiting) :=
    (hexported.behindSilent (CommentQueue.silent_after hready''.comments span)).behindSilent
      (silent_below fun comment hmem =>
        hready''.comments comment ((List.dropWhile_suffix _).subset hmem))
  obtain ⟨hterminated, hend⟩ := grounded_terminated htexts
  have habove' : Silent above.1 := CommentQueue.silent_before hready'.comments span
  have hfront := (hterminated.behindSilent habove').seals rfl
  have hsealed := hfront.append (seals_sealing hready''.classes)
    (.inl (Script.endsWord_append hend habove'.2.1))
  have hall := hsealed.append (hback.seals rfl)
    (.inl (Script.endsWord_append (Script.endsWord_append hend habove'.2.1) (endsWord_sealing _)))
  rw [Nat.zero_add, Nat.add_zero] at hall
  rw [classes_chunk, chunk_run, hrun, h.exportsValue]
  dsimp only
  rw [sequence_concat, hclasses, Bool.true_or, if_pos rfl]
  simpa only [String.append_assoc] using hall

/-- **A program seals each of its classes once.** -/
theorem seals_chunk (hshaped : BlockShaped c.body) (htop : ctx.isTop = true) :
    Seals true ((chunk ctx c).run p).2.classes.length ((chunk ctx c).run p).1 := by
  cases h : exportsValue c with
  | true =>
    obtain ⟨earlier, id, span, arguments, hexporting⟩ := exporting_of_exportsValue h
    exact hexporting.seals hctx hclear hready hshaped htop
  | false => exact seals_of_exportsValue hctx hclear hready h hshaped

end Emit

/-! ## Compiled programs -/

namespace Emit

variable {ctx : Context} {c : Chunk} {p : Progress} {code : String} {classes : List String}

/-- Text in front of a program changes nothing about how it seals its classes. -/
theorem SealsOnce.before (h : SealsOnce ctx c p code classes) (front : String) :
    SealsOnce ctx c p (front ++ code) classes := by
  obtain ⟨between, back, left, rfl, hturn, hrest⟩ := h.block
  refine { h with block := ⟨front ++ between, back, left, ?_, hturn.before front, hrest⟩ }
  simp only [String.append_assoc]

end Emit

/-- What is written in front of a program. -/
theorem exists_withErrors (diagnostics : List Diagnostic) :
    ∃ front, Silent front ∧ ∀ code, withErrors diagnostics code = front ++ code := by
  unfold withErrors
  split
  · exact ⟨"", by decide, fun code => String.empty_append.symm⟩
  · refine ⟨errorComment (diagnostics.map Diagnostic.display) ++ "\n", ?_, fun code => ?_⟩
    · exact (silent_errorComment _).append (by decide)
    · rw [errorBlock_eq, String.append_assoc]

variable {source : String} {chunk : Chunk}

/-- **How a program seals its classes.**

Let a program parse. No class is declared twice; the classes are those that some of its statements
other than the export create, in the order of these statements; they are sealed in one block, which
stands behind all these statements, directly before the export if the program ends with one and
otherwise before the comments that are left.

If it does not use the name of the support module itself, there is one seal for each class and no
other. If no comment starts on the line on which the target of an assignment ends, the classes are
declared under their bare names, so each class is sealed once. -/
theorem sealsOnce_compile (path : String) (registries : Registries) (options : Options)
    (hparse : (parse source).result = .ok chunk) :
    let out := (compile .keep source path registries options).1
    Emit.SealsOnce ((parse source).context path options) chunk ((parse source).start registries)
      out.code out.declaredClasses ∧
    (Token.Kind.name "l2j" ∉ stmtTokens chunk.body → '"' ∉ (moduleName path).toList →
      Script.Fixed options.valueTypeNamespace →
      Script.sealCount (Script.lexemes out.code) = out.declaredClasses.length) ∧
    ((∀ stmt ∈ chunk.body, ¬ Emit.CommentsTarget (parse source).comments stmt) →
      ∀ c ∈ out.declaredClasses, Emit.IsBare c) := by
  have htop : ((parse source).context path options).isTop = true := by
    rw [Parsed.context]
    rfl
  have hshaped := (shaped_of_parse hparse).1
  have hseals : Emit.SealsOnce _ chunk ((parse source).start registries) _ _ :=
    Emit.sealsOnce_chunk hshaped htop rfl
  intro out
  have hout : out.code = withErrors
        ((lower path options registries (parse source) chunk).progress.failures.map
          (unsupportedDiagnostic path)) (lower path options registries (parse source) chunk).code ∧
      out.declaredClasses =
        (lower path options registries (parse source) chunk).progress.classes := by
    simp only [out, compile_keep path registries options hparse, and_self]
  obtain ⟨front, hfront, hcode⟩ := exists_withErrors
    ((lower path options registries (parse source) chunk).progress.failures.map
      (unsupportedDiagnostic path))
  rw [hout.1, hout.2, hcode, lower_eq]
  refine ⟨hseals.before front, fun hnone hquote hspace => ?_, fun huncommented name hname => ?_⟩
  · have hready := Parsed.ready_start (I := fun classes => ∀ name ∈ classes, Emit.ClassText name)
      (tidy_parse source) registries (List.forall_mem_nil _)
    have hcount := Emit.seals_chunk (clear_context hparse hquote hspace)
      (clear_of_parse hparse hnone) hready hshaped htop
    -- the list of errors in front of the program mentions nothing that is sealed
    have hall := ((hfront.grounded (u := ⟨.empty, false⟩)).seals rfl).append hcount
      (.inl hfront.2.1)
    rw [Nat.zero_add] at hall
    exact hall.count
  · -- each class has the name that the target of the statement creating it has in the code
    obtain ⟨created, hsub, hdeclares⟩ := hseals.created
    obtain ⟨l, hl, hdeclared⟩ := Emit.exists_declares hdeclares name hname
    have hlowered := (List.filter_sublist.subset (hsub.subset hl))
    have hstmt : l.stmt ∈ chunk.body := Emit.stmt_mem_of_lowered hlowered
    refine Emit.isBare_target ?_ ?_ hlowered (Emit.shaped_of_mem hshaped _ hstmt)
      (starts_of_parse hparse _ hstmt) ?_ hdeclared.target
    · intro id name hvalid
      rw [Parsed.context_annotations]
      exact Scope.isValid_resolve (shaped_of_parse hparse).2 id hvalid
    · rw [Parsed.context]
    · rintro ⟨target, htarget, comment, hcomment, hline⟩
      exact huncommented _ hstmt ⟨target, htarget, comment, List.mem_mergeSort.1 hcomment, hline⟩

/-- A module with a table of methods, a class made by assignment and a comment. -/
def shopText : String :=
  "local M = {} -- the module\nfunction M.open() return M end\nShop = class(M)\nreturn M"

theorem sealsOnce_shopText : ∃ chunk, (parse shopText).result = .ok chunk ∧
    Token.Kind.name "l2j" ∉ stmtTokens chunk.body ∧
    (∀ stmt ∈ chunk.body, ¬ Emit.CommentsTarget (parse shopText).comments stmt) ∧
    let out := (compile .keep shopText "Game/UI/test.lua" .empty {}).1
    Emit.SealsOnce ((parse shopText).context "Game/UI/test.lua" {}) chunk
        ((parse shopText).start .empty) out.code out.declaredClasses ∧
      Script.sealCount (Script.lexemes out.code) = out.declaredClasses.length ∧
      (∀ c ∈ out.declaredClasses, Emit.IsBare c) ∧ out.declaredClasses = ["M", "Shop"] := by
  have hparsed : (parse shopText).result.toOption.any (fun chunk =>
      decide (Token.Kind.name "l2j" ∉ stmtTokens chunk.body ∧
        ∀ stmt ∈ chunk.body, ¬ Emit.CommentsTarget (parse shopText).comments stmt)) = true := by
    rw [shopText, parse_ofList]
    decide +kernel
  have hclasses : (compile .keep shopText "Game/UI/test.lua" .empty {}).1.declaredClasses =
      ["M", "Shop"] := by
    rw [compile, shopText, parse_ofList]
    decide +kernel
  obtain ⟨chunk, hparse, hparsed⟩ := Parsed.exists_of_any hparsed
  obtain ⟨hnamed, hcomments⟩ := of_decide_eq_true hparsed
  obtain ⟨hseals, hcount, hbare⟩ :=
    sealsOnce_compile "Game/UI/test.lua" .empty {} hparse
  exact ⟨chunk, hparse, hnamed, hcomments, hseals,
    hcount hnamed (by decide +kernel) (by decide), hbare hcomments, hclasses⟩

/-- **A comment becomes a part of the text of a class**: the class is declared under two texts and
sealed under both. -/
example :
    (compile .keep "M = {} -- c\nM = {}" "Game/UI/test.lua" .empty {}).1.declaredClasses =
      ["M// c\n", "M"] ∧
    (compile .keep "M = {} -- c\nM = {}" "Game/UI/test.lua" .empty {}).1.code =
      "globalThis.M// c\n = l2j.createClass(\x7b\x7d);
globalThis.M = l2j.createClass(\x7b\x7d);
l2j.finishClass(M// c\n);
l2j.finishClass(M);
" := by
  rw [compile, parse_ofList]
  decide +kernel

end LuaCompiler
