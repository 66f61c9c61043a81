import LuaCompiler.Proofs.Token.Comments

/-!
# Comments leave their queue in order

The walk asks a queue for the comments above a node, for those behind one, and at the end for all that
are left. Nodes nest, so the places it asks about go back and forth. Whatever is asked, and in whatever
order, the comments are written in the order in which they start: none is lost, none is written twice,
and between two of them there is nothing but line breaks.

* `isStableSort_ofComments`: a queue starts with its comments in the order of their starts.
* `CommentQueue.answer_writes`: **one request** takes a front part of the queue and writes it.
* `CommentQueue.answers_conserve`: **so does any run of requests**, and what each request promises of
  the queue behind it holds after every run.
-/

namespace LuaCompiler

/-! ## The order of a queue -/

/-- **The comments of a list in the order of their starts**: by line, then by column, and those that
start together in the order of the list. -/
structure IsStableSort (comments sorted : List Comment) : Prop where
  perm : sorted.Perm comments
  ascending : Ascending sorted
  stable : ∀ place, sorted.filter (·.span.start = place) = comments.filter (·.span.start = place)

theorem Position.le_total (p q : Position) : (p.le q || q.le p) = true := by
  simp only [le, Bool.or_eq_true, decide_eq_true_eq, Bool.and_eq_true, beq_iff_eq]
  omega

/-- Whether a comment starts before another, or together with it. -/
def Comment.startsBy (a b : Comment) : Bool := a.span.start.le b.span.start

theorem Comment.startsBy_trans (a b c : Comment) (h : a.startsBy b = true)
    (h' : b.startsBy c = true) : a.startsBy c = true := Position.le_trans h h'

theorem Comment.startsBy_total (a b : Comment) : (a.startsBy b || b.startsBy a) = true :=
  Position.le_total a.span.start b.span.start

/-- **A queue starts with its comments in the order of their starts.** -/
theorem isStableSort_ofComments (comments : List Comment) :
    IsStableSort comments (CommentQueue.ofComments comments).waiting := by
  have hsorted : (CommentQueue.ofComments comments).waiting =
      comments.mergeSort Comment.startsBy := rfl
  have hperm : (comments.mergeSort Comment.startsBy).Perm comments := List.mergeSort_perm _ _
  rw [hsorted]
  refine ⟨hperm, List.pairwise_mergeSort Comment.startsBy_trans Comment.startsBy_total _,
    fun place => ?_⟩
  -- what starts together is ascending as it is, so sorting keeps its order
  have htogether : (comments.filter (·.span.start = place)).Pairwise
      fun a b => a.startsBy b = true := by
    have hstart : ∀ c ∈ comments.filter (·.span.start = place), c.span.start = place := by
      intro c hc
      simpa using (List.mem_filter.1 hc).2
    refine List.Pairwise.imp_of_mem ?_ (List.pairwise_of_forall (fun _ _ => trivial))
    intro a b ha hb _
    rw [Comment.startsBy, hstart a ha, hstart b hb]
    exact Position.le_refl place
  have hkept : List.Sublist (comments.filter (·.span.start = place))
      (comments.mergeSort Comment.startsBy) :=
    List.sublist_mergeSort Comment.startsBy_trans Comment.startsBy_total htogether
      List.filter_sublist
  have hfiltered := hkept.filter (·.span.start = place)
  rw [List.filter_filter] at hfiltered
  simp only [Bool.and_self] at hfiltered
  exact (hfiltered.eq_of_length (hperm.filter _).length_eq.symm).symm

/-- Ascending comments are so from any of them on. -/
theorem Ascending.of_suffix {comments rest : List Comment} (h : Ascending comments)
    (hrest : rest <:+ comments) : Ascending rest :=
  h.sublist hrest.sublist

namespace CommentQueue

/-! ## Requests -/

/-- What the walk asks a queue for. -/
inductive Request where
  /-- the comments above a node -/
  | before (span : Span)
  /-- the comments behind a node -/
  | after (span : Span)
  /-- the comments left -/
  | flush

namespace Request

/-- How the comments are written that a request takes. -/
def render : Request → Comment → String
  | before _ | flush => Comment.leading
  | after _ => Comment.trailing

/-- The line that a request is about. -/
def line : Request → Nat
  | before span => span.start.line
  | after span => span.stop.line
  | flush => 0

end Request

/-- What a queue gives for a request, and the queue behind. -/
def answer (queue : CommentQueue) : Request → String × CommentQueue
  | .before span => queue.before span
  | .after span => queue.after span
  | .flush => queue.flush

/-- **A run of requests**: all that a queue gives, and the queue left. -/
def answers (queue : CommentQueue) : List Request → String × CommentQueue
  | [] => ("", queue)
  | request :: requests =>
    let (text, next) := queue.answer request
    let (more, last) := next.answers requests
    (text ++ more, last)

/-! ## What is written -/

/-- **A text of some pieces**, each with a line break behind it; all else are line breaks. -/
inductive Pieces : List String → String → Prop
  | nil (here there : Nat) : Pieces [] (breaks here there)
  | cons (here there : Nat) {piece : String} {pieces : List String} {text : String}
    (h : Pieces pieces text) :
    Pieces (piece :: pieces) (breaks here there ++ piece ++ "\n" ++ text)

section Pieces

variable {pieces more : List String} {text rest : String}

theorem breaks_self (line : Nat) : breaks line line = "" := by simp [breaks]

theorem breaks_append (a b c d : Nat) :
    breaks a b ++ breaks c d = breaks 0 ((b - a) + (d - c)) := by
  apply String.toList_inj.1
  simp [breaks, List.replicate_append_replicate]

/-- Line breaks in front make no piece. -/
theorem Pieces.breaks_append (here there : Nat) (h : Pieces pieces text) :
    Pieces pieces (breaks here there ++ text) := by
  cases h with
  | nil here' there' =>
    rw [CommentQueue.breaks_append]
    exact .nil _ _
  | cons here' there' h =>
    rw [← String.append_assoc, ← String.append_assoc, ← String.append_assoc,
      CommentQueue.breaks_append]
    exact .cons _ _ h

theorem Pieces.append (h : Pieces pieces text) (h' : Pieces more rest) :
    Pieces (pieces ++ more) (text ++ rest) := by
  induction h with
  | nil here there => exact h'.breaks_append here there
  | cons here there _ ih =>
    rw [String.append_assoc]
    exact .cons here there ih

theorem pieces_empty : Pieces [] "" := by
  have h := Pieces.nil 0 0
  rwa [breaks_self] at h

/-- One piece with its line break. -/
theorem pieces_single (piece : String) : Pieces [piece] (piece ++ "\n") := by
  have h : Pieces [piece] (breaks 0 0 ++ piece ++ "\n" ++ "") := .cons 0 0 pieces_empty
  rwa [breaks_self, String.empty_append, String.append_empty] at h

end Pieces

/-! ## One request -/

theorem pieces_leadingLines (target line : Nat) (comments : List Comment) :
    Pieces (comments.map Comment.leading) (leadingLines target line comments) := by
  induction comments generalizing line with
  | nil => exact .nil line target
  | cons comment rest ih => exact .cons line comment.span.start.line (ih _)

theorem pieces_lines (render : Comment → String) (comments : List Comment) :
    Pieces (comments.map render) (lines render comments) := by
  induction comments with
  | nil => exact pieces_empty
  | cons comment rest ih =>
    have hlines : lines render (comment :: rest) = render comment ++ "\n" ++ lines render rest := by
      simp [lines, String.join_cons]
    rw [hlines]
    exact (pieces_single (render comment)).append ih

/-- **A request takes a front part of the queue**, and writes it. -/
theorem answer_writes (queue : CommentQueue) (request : Request) :
    ∃ passed, queue.waiting = passed ++ (queue.answer request).2.waiting ∧
      Pieces (passed.map request.render) (queue.answer request).1 := by
  cases request with
  | before span =>
    exact ⟨_, List.takeWhile_append_dropWhile.symm, pieces_leadingLines _ _ _⟩
  | after span => exact ⟨_, List.takeWhile_append_dropWhile.symm, pieces_lines _ _⟩
  | flush => exact ⟨_, (List.append_nil _).symm, pieces_lines _ _⟩

/-- The line that a queue has reached is one of those that it was told of. -/
theorem lastLine_answer_le {queue : CommentQueue} {request : Request} {bound : Nat}
    (hqueue : queue.lastLine ≤ bound) (hwaiting : ∀ c ∈ queue.waiting, c.span.stop.line ≤ bound)
    (hrequest : request.line ≤ bound) : (queue.answer request).2.lastLine ≤ bound := by
  cases request with
  | before span => exact max_le hqueue hrequest
  | after span =>
    have hpassed (passed : List Comment) (hpassed : ∀ c ∈ passed, c.span.stop.line ≤ bound)
        {last : Nat} (hlast : last ≤ bound) :
        passed.foldl (fun last comment => max last comment.span.stop.line) last ≤ bound := by
      induction passed generalizing last with
      | nil => exact hlast
      | cons comment rest ih =>
        obtain ⟨hcomment, hrest⟩ := List.forall_mem_cons.1 hpassed
        exact ih hrest (max_le hlast hcomment)
    refine max_le (hpassed _ (fun c hc => hwaiting c ?_) hqueue) hrequest
    exact (List.takeWhile_prefix _).subset hc
  | flush => exact hqueue

/-- Above a node no comment is left that starts on an earlier line. -/
theorem le_line_of_before {queue : CommentQueue} (h : Ascending queue.waiting) (span : Span) :
    ∀ c ∈ (queue.before span).2.waiting, span.start.line ≤ c.span.start.line := by
  have hrest : (queue.before span).2.waiting =
      queue.waiting.dropWhile (startsAbove span.start.line) := rfl
  rw [hrest]
  cases hleft : queue.waiting.dropWhile (startsAbove span.start.line) with
  | nil => exact List.forall_mem_nil _
  | cons first rest =>
    -- the first one left does not start above, and the others start behind it
    have hfirst : startsAbove span.start.line first = false := by
      have hhead := List.head?_dropWhile_not (startsAbove span.start.line) queue.waiting
      rw [hleft] at hhead
      simpa using hhead
    have hline : span.start.line ≤ first.span.start.line := by simpa [startsAbove] using hfirst
    have hascending : Ascending (first :: rest) :=
      hleft ▸ h.of_suffix (List.dropWhile_suffix _)
    rintro c (_ | ⟨_, hc⟩)
    · exact hline
    · have hle := (List.pairwise_cons.1 hascending).1 c hc
      simp only [Position.le, Bool.or_eq_true, decide_eq_true_eq, Bool.and_eq_true,
        beq_iff_eq] at hle
      omega

/-! ## A run of requests -/

/-- A run takes a front part of the queue and writes it, each comment in one of its two forms. -/
theorem answers_write (queue : CommentQueue) (requests : List Request) :
    ∃ written : List (Comment × String),
      queue.waiting = written.map Prod.fst ++ (queue.answers requests).2.waiting ∧
      (∀ w ∈ written, w.2 = w.1.leading ∨ w.2 = w.1.trailing) ∧
      Pieces (written.map Prod.snd) (queue.answers requests).1 := by
  induction requests generalizing queue with
  | nil => exact ⟨[], rfl, List.forall_mem_nil _, pieces_empty⟩
  | cons request requests ih =>
    obtain ⟨passed, hpassed, htext⟩ := queue.answer_writes request
    obtain ⟨written, hwritten, hforms, hmore⟩ := ih (queue.answer request).2
    refine ⟨passed.map (fun c => (c, request.render c)) ++ written, ?_, ?_, ?_⟩
    · rw [List.map_append, List.map_map, List.append_assoc]
      refine hpassed.trans (congrArg₂ (· ++ ·) (List.map_id passed).symm hwritten)
    · intro w hw
      rcases List.mem_append.1 hw with hw | hw
      · obtain ⟨c, -, rfl⟩ := List.mem_map.1 hw
        -- only behind a node is a comment written in its trailing form
        cases request with
        | before | flush => exact .inl rfl
        | after => exact .inr rfl
      · exact hforms w hw
    · rw [List.map_append, List.map_map]
      exact htext.append hmore

theorem lastLine_answers_le {queue : CommentQueue} {requests : List Request} {bound : Nat}
    (hqueue : queue.lastLine ≤ bound) (hwaiting : ∀ c ∈ queue.waiting, c.span.stop.line ≤ bound)
    (hrequests : ∀ request ∈ requests, request.line ≤ bound) :
    (queue.answers requests).2.lastLine ≤ bound := by
  induction requests generalizing queue with
  | nil => exact hqueue
  | cons request requests ih =>
    obtain ⟨hrequest, hrest⟩ := List.forall_mem_cons.1 hrequests
    obtain ⟨passed, hpassed, -⟩ := queue.answer_writes request
    refine ih (lastLine_answer_le hqueue hwaiting hrequest) (fun c hc => hwaiting c ?_) hrest
    rw [hpassed]
    exact List.mem_append_right _ hc

/-- **Comments are conserved**, whatever is asked of their queue. What a run of requests writes are the
comments of a front part of the sorted list, in order and each once, with a line break behind each and
only line breaks between; the rest waits. Behind any run, a request for what stands above a node leaves
no comment that starts on an earlier line, a request for what is left leaves none, and the line reached
is no greater than all those in the comments and the requests. -/
theorem answers_conserve (comments : List Comment) (requests : List Request) :
    ∃ sorted, IsStableSort comments sorted ∧ ∃ written : List (Comment × String),
      sorted = written.map Prod.fst ++ ((ofComments comments).answers requests).2.waiting ∧
      (∀ w ∈ written, w.2 = w.1.leading ∨ w.2 = w.1.trailing) ∧
      Pieces (written.map Prod.snd) ((ofComments comments).answers requests).1 ∧
      ((ofComments comments).answers requests).2.remaining = comments.length - written.length ∧
      (∀ span, ∀ c ∈ (((ofComments comments).answers requests).2.before span).2.waiting,
        span.start.line ≤ c.span.start.line) ∧
      ((ofComments comments).answers requests).2.flush.2.remaining = 0 ∧
      ∀ bound, (∀ c ∈ comments, c.span.stop.line ≤ bound) →
        (∀ request ∈ requests, request.line ≤ bound) →
          ((ofComments comments).answers requests).2.lastLine ≤ bound := by
  have hsort := isStableSort_ofComments comments
  obtain ⟨written, hwritten, hforms, hpieces⟩ := (ofComments comments).answers_write requests
  refine ⟨_, hsort, written, hwritten, hforms, hpieces, ?_, fun span => ?_, rfl,
    fun bound hcomments hrequests => ?_⟩
  · -- what is not written is still waiting
    have hlength := hsort.perm.length_eq
    rw [hwritten, List.length_append, List.length_map] at hlength
    rw [remaining]
    omega
  · exact le_line_of_before (hsort.ascending.of_suffix ⟨_, hwritten.symm⟩) span
  · exact lastLine_answers_le (Nat.zero_le _)
      (fun c hc => hcomments c (hsort.perm.subset hc)) hrequests

/-- A comment that spans lines, and two on one line. -/
def waitingComments : List Comment :=
  [⟨"c\nd", "--[[c\nd]]", true, ⟨⟨1, 4⟩, ⟨2, 3⟩⟩⟩, ⟨" a", "--[[ a]]", true, ⟨⟨3, 0⟩, ⟨3, 8⟩⟩⟩,
    ⟨" b", "-- b", false, ⟨⟨3, 9⟩, ⟨3, 13⟩⟩⟩]

/-- The walk over a statement before these comments and one behind them. -/
def waitingRequests : List Request :=
  [.before ⟨⟨1, 0⟩, ⟨1, 3⟩⟩, .after ⟨⟨1, 0⟩, ⟨1, 3⟩⟩, .before ⟨⟨5, 0⟩, ⟨5, 2⟩⟩]

theorem answers_conserve_waitingComments :
    ((ofComments waitingComments).answers waitingRequests).1 = "/*c\nd*/\n/* a*/\n// b\n\n" ∧
    (∀ c ∈ waitingComments, c.span.stop.line ≤ 5) ∧
    (∀ request ∈ waitingRequests, request.line ≤ 5) ∧
    ((ofComments waitingComments).answers waitingRequests).2.lastLine ≤ 5 := by
  obtain ⟨-, -, -, -, -, -, -, -, -, hline⟩ := answers_conserve waitingComments waitingRequests
  have hcomments : ∀ c ∈ waitingComments, c.span.stop.line ≤ 5 := by decide
  have hrequests : ∀ request ∈ waitingRequests, request.line ≤ 5 := by decide
  have hsorted : ofComments waitingComments = ⟨waitingComments, 0⟩ :=
    congrArg (CommentQueue.mk · 0) (List.mergeSort_of_pairwise (by decide))
  have htext : ((ofComments waitingComments).answers waitingRequests).1 =
      "/*c\nd*/\n/* a*/\n// b\n\n" := by
    rw [hsorted]
    decide +kernel
  exact ⟨htext, hcomments, hrequests, hline 5 hcomments hrequests⟩

end CommentQueue

end LuaCompiler
