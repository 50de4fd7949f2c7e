/-
**Reads that give nothing.**

A history of operations on a `LineState`, with calls of `readFd` put into it whose `read` fails or reports
the end of the file.

* `after_reads`: what such calls leave: each adds to `bufLen_` what `read` returned, -1 or 0;
* `Holding.failed`: so a failed one takes back the last byte of a line that is not complete;
* `failed_reads_unnoticed_iff`: **whatever follows, the results are those without the calls exactly when
  all of them report the end of the file**.
-/

import Apib.Lines.Indices

namespace Apib

/-- What `read` returns. -/
def SysRead.returned : SysRead → Int
  | .bytes data => data.length
  | .wouldBlock | .failed => -1

namespace LineState

/-- The operations on a `LineState`. What only puts the buffer out is left out. -/
inductive Operation
  | call (call : Call)
  | dataRemaining
  | skip (toSkip : Int)
  deriving DecidableEq, Repr

/-- The method `skip`. A place before the buffer, where nothing may be read, is taken as its start. -/
def skip (s : LineState) (toSkip : Int) : LineState :=
  { s with lineStart := (s.lineStart + toSkip).toNat, lineEnd := (s.lineEnd + toSkip).toNat }

/-- One operation. -/
def operate (s : LineState) : Operation → Answer × LineState
  | .call call => s.perform call
  | .dataRemaining => (.count s.dataRemaining, s)
  | .skip toSkip => (.none, s.skip toSkip)

/-- The state after a history. -/
def after (s : LineState) (history : List Operation) : LineState :=
  history.foldl (fun s operation => (s.operate operation).2) s

/-- The answers in a history to the operations of a kind. -/
def answers (which : Operation → Bool) : LineState → List Operation → List Answer
  | _, [] => []
  | s, operation :: later =>
    let given := s.operate operation
    if which operation then given.1 :: answers which given.2 later else answers which given.2 later

/-- Is it one of `next`, `line`, `nextToken`, `dataRemaining` and `consume`? -/
def Operation.observed : Operation → Bool
  | .call .next | .call .line | .call (.nextToken _) | .call .consume | .dataRemaining => true
  | _ => false

/-- What some reads return, added up. -/
def returnedInAll : List SysRead → Int
  | [] => 0
  | r :: later => r.returned + returnedInAll later

/-- Calls of `readFd`. -/
def reads (given : List SysRead) : List Operation := given.map fun r => .call (.readFd r)

/-- **Calls of `readFd` change nothing**: each returns what `read` returned, and whatever follows, the
results are those without the calls. -/
structure Unnoticed (s : LineState) (given : List SysRead) : Prop where
  returned : s.answers (fun _ => true) (reads given) = given.map fun r => .count r.returned
  later : ∀ later, (s.after (reads given)).answers Operation.observed later =
    s.answers Operation.observed later

/-! ### The reads -/

variable {s : LineState}

/-- A read that gives nothing adds what `read` returned to the number of valid bytes. -/
theorem operate_idle {r : SysRead} (idle : r.returned ≤ 0) :
    s.operate (.call (.readFd r)) = (.count r.returned, s.setReadLength r.returned) := by
  cases r with
  | bytes data =>
    have none_given : data = [] := List.length_eq_zero_iff.mp (Int.ofNat_eq_zero.mp (by
      have nonneg := Int.natCast_nonneg data.length
      simp only [SysRead.returned] at idle
      omega))
    subst none_given
    simp [operate, perform, asked, room, readFd, SysRead.returned, setReadLength]
  | wouldBlock => rfl
  | failed => rfl

/-- **What reads that give nothing leave.** -/
theorem after_reads {given : List SysRead} (idle : ∀ r ∈ given, r.returned ≤ 0) :
    s.after (reads given) = s.setReadLength (returnedInAll given) := by
  induction given generalizing s with
  | nil => simp [after, reads, setReadLength, returnedInAll]
  | cons r given ih =>
    have first := operate_idle (s := s) (idle r List.mem_cons_self)
    have others := ih (s := s.setReadLength r.returned) fun other member =>
      idle other (List.mem_cons_of_mem _ member)
    have step : s.after (reads (r :: given)) = (s.operate (.call (.readFd r))).2.after (reads given) := rfl
    rw [step, first, others, returnedInAll]
    simp only [setReadLength, Int.add_assoc]

theorem answers_reads {given : List SysRead} (idle : ∀ r ∈ given, r.returned ≤ 0) :
    s.answers (fun _ => true) (reads given) = given.map fun r => .count r.returned := by
  induction given generalizing s with
  | nil => rfl
  | cons r given ih =>
    have first := operate_idle (s := s) (idle r List.mem_cons_self)
    have others := ih (s := s.setReadLength r.returned) fun other member =>
      idle other (List.mem_cons_of_mem _ member)
    rw [reads, List.map_cons, answers, first]
    simp only [if_true, List.map_cons]
    exact congrArg _ others

/-- What was returned adds up to zero only if it is always zero. -/
theorem sum_returned {given : List SysRead} (idle : ∀ r ∈ given, r.returned ≤ 0) :
    returnedInAll given ≤ 0 ∧
      (returnedInAll given = 0 ↔ ∀ r ∈ given, r.returned = 0) := by
  induction given with
  | nil => simp [returnedInAll]
  | cons r given ih =>
    have first := idle r List.mem_cons_self
    obtain ⟨below, zero⟩ := ih fun other member => idle other (List.mem_cons_of_mem _ member)
    rw [returnedInAll, List.forall_mem_cons, ← zero]
    omega

/-- **Later results are those without the reads**, whatever follows and whatever came before, exactly when
every read reports the end of the file. -/
theorem failed_reads_unnoticed_iff (memory : Bytes) (len : Nat) (before : List Operation)
    {given : List SysRead} (idle : ∀ r ∈ given, r.returned ≤ 0) :
    Unnoticed ((ofBuffer memory len).after before) given ↔ ∀ r ∈ given, r.returned = 0 := by
  generalize (ofBuffer memory len).after before = s
  rw [← (sum_returned idle).2]
  constructor
  · intro unnoticed
    have shown := unnoticed.later [.dataRemaining]
    rw [after_reads idle] at shown
    have same : s.bufLen + returnedInAll given - s.lineEnd = s.bufLen - s.lineEnd :=
      Answer.count.inj (List.cons.inj shown).1
    omega
  · intro none_lost
    have unchanged : s.after (reads given) = s := by
      rw [after_reads idle, none_lost, setReadLength, Int.add_zero]
    exact ⟨answers_reads idle, fun later => by rw [unchanged]⟩

/-- Between two reads of a line, the end of the file changes nothing. -/
theorem failed_reads_unnoticed_example :
    Unnoticed ((ofBuffer (List.replicate 8 0) 0).after [.call (.readFd (.bytes (ascii "ab")))])
      [.bytes [], .bytes []] :=
  (failed_reads_unnoticed_iff (List.replicate 8 0) 0 _ (by decide)).mpr (by decide)

/-- The line `abc` without its second byte: a read has failed before its end came. -/
theorem failed_read_noticed :
    ¬Unnoticed ((ofBuffer (List.replicate 8 0) 0).after [.call (.readFd (.bytes (ascii "ab")))])
      [.wouldBlock] := by
  intro unnoticed
  have lines := unnoticed.later [.call (.readFd (.bytes (ascii "c\n"))), .call .next, .call .line]
  revert lines
  decide

end LineState

/-- **A failed read takes back a byte** of the line that is not complete. -/
theorem Lines.Holding.failed {size : Nat} {pending : Bytes} {last : UInt8} {s : LineState}
    (holding : Lines.Holding size (pending ++ [last]) s) {r : SysRead} (fails : r.returned = -1) :
    Lines.Holding size pending (s.readFd r).2 := by
  have left : (s.readFd r).2 = { s with bufLen := s.bufLen - 1 } := by
    cases r with
    | bytes data =>
      simp only [SysRead.returned] at fails
      omega
    | wouldBlock => rfl
    | failed => rfl
  have fill := holding.fill
  have kept := holding.kept
  rw [left]
  refine ⟨holding.plain, holding.start, holding.at_start, holding.size_eq, ?_, ?_⟩
  · simp only [List.length_append, List.length_singleton] at fill ⊢
    omega
  · have shorter := congrArg (List.take pending.length) kept
    rwa [List.take_take, List.length_append, Nat.min_eq_left (Nat.le_add_right _ _), List.take_left]
      at shorter

end Apib
