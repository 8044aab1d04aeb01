import CheckedExceptions.Proofs.Walk
import Mathlib.Data.List.Induction

/-!
The account of a stack of frames, over any sequence of operations. An operation only acts on the
innermost frame, so what a frame holds follows from the operations that met it as the innermost one
since it was opened, whatever happened in the frames opened and left in between. Every candidate
that was added is still in an open frame, or has been removed as handled, or has been reported.
-/
namespace CheckedExceptions.Scopes

inductive Operation
  | enter
  | add (candidates : List Candidate)
  | filter (handled : List ExceptionType)
  | leave (declared : List ExceptionType)
deriving DecidableEq, Repr

inductive Answer
  | entered
  | added (count : Nat)
  | removed (count : Nat)
  | reported (candidates : List Candidate)
  | failed (e : ScopeError)
deriving DecidableEq, Repr

/-- The answer of an action, and the stack after it. An action that fails leaves the stack alone. -/
def answer {α : Type} (form : α → Answer) (s : Scopes) :
    Except ScopeError (α × Scopes) → Answer × Scopes
  | .ok (a, s') => (form a, s')
  | .error e => (.failed e, s)

def perform (c : Classification) (s : Scopes) : Operation → Answer × Scopes
  | .enter => (.entered, s.enter)
  | .add candidates => answer .added s (s.add c candidates)
  | .filter handled => answer .removed s (s.filter c handled)
  | .leave declared => answer .reported s (s.leave c declared)

/-- The stack after some operations. -/
def after (c : Classification) (s : Scopes) (ops : List Operation) : Scopes :=
  ops.foldl (fun s op => (s.perform c op).2) s

section Steps

variable {c : Classification} {s : Scopes} {frame : List Candidate} {outer : List (List Candidate)}

theorem after_append (ops ops' : List Operation) :
    s.after c (ops ++ ops') = (s.after c ops).after c ops' :=
  List.foldl_append

theorem perform_add (hs : s.frames = frame :: outer) (candidates : List Candidate) :
    s.perform c (.add candidates) =
      (.added (candidates.filter fun x => !c.isUnchecked x.type).length,
        ⟨(frame ++ candidates.filter fun x => !c.isUnchecked x.type) :: outer⟩) := by
  simp only [perform, answer, add, hs]

theorem perform_filter (hs : s.frames = frame :: outer) (handled : List ExceptionType) :
    s.perform c (.filter handled) =
      (.removed (frame.length - (frame.filter fun x => !c.handles handled x.type).length),
        ⟨(frame.filter fun x => !c.handles handled x.type) :: outer⟩) := by
  simp only [perform, answer, filter, hs]

theorem perform_leave (hs : s.frames = frame :: outer) (declared : List ExceptionType) :
    s.perform c (.leave declared) =
      (.reported (frame.filter fun x => !c.handles declared x.type), ⟨outer⟩) := by
  simp only [perform, answer, leave, hs]

/-- Without an open frame, all that can be done is to open one. -/
theorem perform_of_empty (hs : s.frames = []) {op : Operation} (hop : op ≠ .enter) :
    s.perform c op = (.failed .noActiveFrame, s) := by
  cases op with
  | enter => exact absurd rfl hop
  | add candidates => simp only [perform, answer, add, hs]
  | filter handled => simp only [perform, answer, filter, hs]
  | leave declared => simp only [perform, answer, leave, hs]

end Steps

/-- How many frames are open above a frame after some operations, if there were `n` before them.
None if the frame itself is left. -/
def level : Nat → List Operation → Option Nat
  | n, [] => some n
  | n, .enter :: ops => level (n + 1) ops
  | n, .add _ :: ops => level n ops
  | n, .filter _ :: ops => level n ops
  | n + 1, .leave _ :: ops => level n ops
  | 0, .leave _ :: _ => none

/-- What happens to a frame while it is the innermost one, if `n` frames are open above it before
the operations. -/
def own : Nat → List Operation → List Event
  | _, [] => []
  | n, .enter :: ops => own (n + 1) ops
  | 0, .add candidates :: ops => candidates.map .throws ++ own 0 ops
  | 0, .filter handled :: ops => .catches handled :: own 0 ops
  | n + 1, .add _ :: ops => own (n + 1) ops
  | n + 1, .filter _ :: ops => own (n + 1) ops
  | n + 1, .leave _ :: ops => own n ops
  | 0, .leave _ :: _ => []

section History

variable {c : Classification} {s : Scopes}

theorem level_append (n : Nat) (ops ops' : List Operation) :
    level n (ops ++ ops') = (level n ops).bind (level · ops') := by
  induction ops generalizing n with
  | nil => rfl
  | cons op ops ih =>
    cases op with
    | enter => exact ih (n + 1)
    | add candidates => cases n <;> exact ih _
    | filter handled => cases n <;> exact ih _
    | leave declared =>
      cases n with
      | zero => rfl
      | succ n => exact ih n

theorem own_cons {n m : Nat} {op : Operation} (hlevel : level n [op] = some m)
    (ops : List Operation) : own n (op :: ops) = own n [op] ++ own m ops := by
  cases op with
  | enter =>
    cases hlevel
    simp [own]
  | add candidates =>
    cases hlevel
    cases n <;> simp [own]
  | filter handled =>
    cases hlevel
    cases n <;> simp [own]
  | leave declared =>
    cases n with
    | zero => cases hlevel
    | succ n =>
      cases hlevel
      simp [own]

/-- An operation that does not leave a frame acts on it if it is the innermost one, and else on the
frames above it; the frames below it stay as they are. -/
theorem frames_perform {m : Nat} {op : Operation} {above outer : List (List Candidate)}
    {frame : List Candidate} (hs : s.frames = above ++ frame :: outer)
    (hlevel : level above.length [op] = some m) :
    ∃ above', above'.length = m ∧
      (s.perform c op).2.frames =
        above' ++ Event.play c frame (own above.length [op]) :: outer := by
  cases op with
  | enter =>
    cases hlevel
    exact ⟨[] :: above, rfl, congrArg (List.cons []) hs⟩
  | add candidates =>
    cases hlevel
    cases above with
    | nil =>
      refine ⟨[], rfl, ?_⟩
      rw [perform_add hs]
      simp [own, Event.play_throws]
    | cons top above =>
      refine ⟨(top ++ candidates.filter fun x => !c.isUnchecked x.type) :: above, rfl, ?_⟩
      rw [perform_add hs]
      rfl
  | filter handled =>
    cases hlevel
    cases above with
    | nil => exact ⟨[], rfl, congrArg (·.2.frames) (perform_filter hs handled)⟩
    | cons top above =>
      refine ⟨(top.filter fun x => !c.handles handled x.type) :: above, rfl, ?_⟩
      rw [perform_filter hs]
      rfl
  | leave declared =>
    cases above with
    | nil => cases hlevel
    | cons top above =>
      cases hlevel
      exact ⟨above, rfl, congrArg (·.2.frames) (perform_leave hs declared)⟩

/-- As long as a frame is not left, what becomes of it follows from its own operations alone. -/
theorem frames_after {m : Nat} {ops : List Operation} {above outer : List (List Candidate)}
    {frame : List Candidate} (hs : s.frames = above ++ frame :: outer)
    (hlevel : level above.length ops = some m) :
    ∃ above', above'.length = m ∧
      (s.after c ops).frames = above' ++ Event.play c frame (own above.length ops) :: outer := by
  induction ops generalizing above frame s with
  | nil =>
    cases hlevel
    exact ⟨above, rfl, hs⟩
  | cons op ops ih =>
    have hsplit : level above.length (op :: ops) = _ := level_append above.length [op] ops
    rw [hsplit] at hlevel
    obtain ⟨n, hfirst, hrest⟩ := Option.bind_eq_some_iff.mp hlevel
    obtain ⟨above₁, rfl, hstep⟩ := frames_perform (c := c) hs hfirst
    rw [own_cons hfirst, Event.play_append]
    exact ih hstep hrest

/-- Every open frame was opened at some point and has not been left since. -/
theorem exists_enter (ops : List Operation) {k : Nat}
    (hk : k < (({} : Scopes).after c ops).depth) :
    ∃ before inner, ops = before ++ .enter :: inner ∧ level 0 inner = some k := by
  -- From the end: the last operation opens the frame, or leaves it where it is.
  induction ops using List.reverseRecOn generalizing k with
  | nil => cases hk
  | append_singleton ops op ih =>
    have hextend : ∀ {j : Nat}, j < (({} : Scopes).after c ops).depth → level j [op] = some k →
        ∃ before inner, ops ++ [op] = before ++ .enter :: inner ∧ level 0 inner = some k := by
      intro j hj hlevel
      obtain ⟨before, inner, hsplit, hinner⟩ := ih hj
      refine ⟨before, inner ++ [op], ?_, ?_⟩
      · rw [hsplit, List.append_assoc, List.cons_append]
      · rw [level_append, hinner]
        exact hlevel
    rw [after_append] at hk
    change k < ((({} : Scopes).after c ops).perform c op).2.depth at hk
    by_cases henter : op = .enter
    · subst henter
      cases k with
      | zero => exact ⟨ops, [], rfl, rfl⟩
      | succ k => exact hextend (Nat.lt_of_succ_lt_succ hk) rfl
    · cases hframes : (({} : Scopes).after c ops).frames with
      | nil =>
        rw [perform_of_empty hframes henter, depth, hframes] at hk
        cases hk
      | cons frame outer =>
        rw [depth, hframes] at hextend
        cases op with
        | enter => exact absurd rfl henter
        | add candidates =>
          rw [perform_add hframes] at hk
          exact hextend hk rfl
        | filter handled =>
          rw [perform_filter hframes] at hk
          exact hextend hk rfl
        | leave declared =>
          rw [perform_leave hframes] at hk
          exact hextend (j := k + 1) (Nat.succ_lt_succ hk) rfl

end History

section Balance

/-- The candidates in the open frames. -/
def size (s : Scopes) : Nat := s.frames.flatten.length

namespace Answer

def addedCount : Answer → Nat
  | added count => count
  | _ => 0

def removedCount : Answer → Nat
  | removed count => count
  | _ => 0

def reportedCount : Answer → Nat
  | reported candidates => candidates.length
  | _ => 0

end Answer

variable (c : Classification)

/-- How many candidates an operation adds. -/
def added (s : Scopes) (op : Operation) : Nat := (s.perform c op).1.addedCount

/-- How many candidates an operation removes as handled. Leaving a frame removes as many as a filter
by the declared types does. -/
def removed (s : Scopes) : Operation → Nat
  | .filter handled | .leave handled => (s.perform c (.filter handled)).1.removedCount
  | _ => 0

/-- How many candidates an operation reports. -/
def reported (s : Scopes) (op : Operation) : Nat := (s.perform c op).1.reportedCount

/-- A count over all operations of a sequence, each on the stack it finds. -/
def total (count : Scopes → Operation → Nat) : Scopes → List Operation → Nat
  | _, [] => 0
  | s, op :: ops => count s op + total count (s.perform c op).2 ops

theorem size_cons (frame : List Candidate) (outer : List (List Candidate)) :
    size ⟨frame :: outer⟩ = frame.length + size ⟨outer⟩ := by
  simp [size]

theorem perform_balance (s : Scopes) (op : Operation) :
    s.size + s.added c op = s.removed c op + s.reported c op + (s.perform c op).2.size := by
  obtain ⟨frames⟩ := s
  cases frames with
  | nil => cases op <;> rfl
  | cons frame outer =>
    have hkept : ∀ types : List ExceptionType,
        (frame.filter fun x => !c.handles types x.type).length ≤ frame.length :=
      fun types => List.length_filter_le _ frame
    cases op with
    | enter =>
      change size ⟨frame :: outer⟩ + 0 = 0 + 0 + size ⟨[] :: frame :: outer⟩
      rw [size_cons []]
      simp
    | add candidates =>
      simp only [added, removed, reported, perform_add rfl, Answer.addedCount,
        Answer.reportedCount, size_cons, List.length_append]
      omega
    | filter handled =>
      have hle := hkept handled
      simp only [added, removed, reported, perform_filter rfl, Answer.addedCount,
        Answer.removedCount, Answer.reportedCount, size_cons]
      omega
    | leave declared =>
      have hle := hkept declared
      simp only [added, removed, reported, perform_filter rfl, perform_leave rfl,
        Answer.addedCount, Answer.removedCount, Answer.reportedCount, size_cons]
      omega

theorem after_balance (s : Scopes) (ops : List Operation) :
    s.size + total c (added c) s ops =
      total c (removed c) s ops + total c (reported c) s ops + (s.after c ops).size := by
  induction ops generalizing s with
  | nil => simp [total, after]
  | cons op ops ih =>
    have hstep := perform_balance c s op
    have hrest := ih (s.perform c op).2
    change _ + (_ + _) = _ + _ + (_ + _) + ((s.perform c op).2.after c ops).size
    omega

end Balance

/-- Let any operations be done on a new stack. If a frame is open afterwards, it was opened by some
operation and all frames opened since then have been left. Leaving it reports, in order, what was
added while it was the innermost frame and is checked, not handled by a filter that came later while
it was the innermost frame, and not declared; and it leaves the stack that was there when the frame
was opened. No other operation changes any frame but the innermost. Without an open frame, all
operations but opening one fail and change nothing. What was added in all is what was removed, what
was reported and what is in open frames. -/
theorem stack_is_accounted_for (c : Classification) (ops : List Operation) :
    let s := ({} : Scopes).after c ops
    (s.frames ≠ [] → ∃ before inner, ops = before ++ .enter :: inner ∧ level 0 inner = some 0) ∧
    (∀ before inner, ops = before ++ .enter :: inner → level 0 inner = some 0 →
      ∀ declared, s.perform c (.leave declared) =
        (.reported (Event.escaping c declared (own 0 inner)), ({} : Scopes).after c before)) ∧
    (∀ frame outer, s.frames = frame :: outer →
      (∀ candidates, ∃ frame', (s.perform c (.add candidates)).2.frames = frame' :: outer) ∧
      (∀ handled, ∃ frame', (s.perform c (.filter handled)).2.frames = frame' :: outer) ∧
      ∀ declared, (s.perform c (.leave declared)).2.frames = outer) ∧
    (s.frames = [] → ∀ op, op ≠ .enter → s.perform c op = (.failed .noActiveFrame, s)) ∧
    total c (added c) {} ops =
      total c (removed c) {} ops + total c (reported c) {} ops + s.size := by
  intro s
  refine ⟨fun hopen => ?_, ?_, fun frame outer hs => ⟨?_, ?_, ?_⟩, ?_, ?_⟩
  · exact exists_enter ops (List.length_pos_iff.mpr hopen)
  · rintro before inner rfl hlevel declared
    have hopened : (({} : Scopes).after c (before ++ [.enter])).frames =
        [] ++ [] :: (({} : Scopes).after c before).frames := by
      rw [after_append]
      rfl
    obtain ⟨above, habove, hframes⟩ := frames_after (c := c) hopened hlevel
    rw [List.length_eq_zero_iff.mp habove, ← after_append, List.append_assoc,
      List.singleton_append] at hframes
    rw [perform_leave hframes, List.length_nil, Event.filter_play_nil]
  · exact fun candidates => ⟨_, congrArg (·.2.frames) (perform_add hs candidates)⟩
  · exact fun handled => ⟨_, congrArg (·.2.frames) (perform_filter hs handled)⟩
  · exact fun declared => congrArg (·.2.frames) (perform_leave hs declared)
  · exact fun hs op => perform_of_empty hs
  · have hbalance := after_balance c {} ops
    change 0 + _ = _ at hbalance
    rwa [Nat.zero_add] at hbalance

def candidateAt (line : Int) (name : String) : Candidate := ⟨{ line := some line }, ⟨name⟩⟩

/-- Candidates that are unchecked, filtered, filtered in another frame, declared later, or added
behind the filter of their type. -/
def nestedOperations : List Operation :=
  [.add [candidateAt 1 "IOException", candidateAt 2 "NullPointerException"], .enter,
    .add [candidateAt 3 "IOException"], .filter [⟨"Exception"⟩], .leave [],
    .add [candidateAt 4 "FileNotFoundException", candidateAt 5 "InterruptedException"],
    .filter [⟨"FileNotFoundException"⟩], .add [candidateAt 6 "FileNotFoundException"]]

theorem stack_is_accounted_for_of_nestedOperations :
    let c := standardRules.classification
    let ops : List Operation := [.leave []] ++ .enter :: nestedOperations
    level 0 nestedOperations = some 0 ∧
    (({} : Scopes).after c ops).perform c (.leave [⟨"InterruptedException"⟩]) =
      (.reported [candidateAt 1 "IOException", candidateAt 6 "FileNotFoundException"],
        ({} : Scopes).after c [.leave []]) ∧
    (({} : Scopes).after c [.leave []]).perform c (.filter []) =
      (.failed .noActiveFrame, ({} : Scopes).after c [.leave []]) ∧
    total c (added c) {} ops = 5 ∧ (({} : Scopes).after c ops).size = 3 := by
  intro c ops
  obtain ⟨-, hleave, -, -, -⟩ := stack_is_accounted_for c ops
  obtain ⟨-, -, -, hempty, -⟩ := stack_is_accounted_for c [.leave []]
  have hlevel : level 0 nestedOperations = some 0 := rfl
  refine ⟨hlevel, ?_, hempty rfl (.filter []) (by decide), by decide +kernel, by decide +kernel⟩
  rw [hleave [.leave []] nestedOperations rfl hlevel]
  exact congrArg (fun xs => (Answer.reported xs, _)) (by decide +kernel)

end CheckedExceptions.Scopes
