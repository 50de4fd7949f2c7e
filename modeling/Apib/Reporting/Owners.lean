/-
**Who uses the counters.**

Which objects the threads, the calls of `recordResult` and the reporter have in hand, and what the
objects count, for any heap and any calls.

* `Owns.write`, `Owns.free`, `Owns.exchange`: no object that somebody has in hand is deleted.
* `Counts.load`, `Counts.count`, `Counts.push`, `Counts.fold`: the results that have been added up and the
  latencies that are held differ by the calls that are about to append theirs.
-/

import Apib.Reporting.Swap

namespace Apib

namespace Swap

variable {n : Nat}

/-! ### Whose an object is -/

/-- An object that has not been deleted. -/
def Alive (heap : List Cell) (c : Nat) : Prop := ∃ cell, heap[c]? = some cell ∧ cell.deleted = false

/-- The threads have objects of their own, other than the `owned` ones of the reporter, and all of
these and those that calls use are alive. -/
structure Owns (heap : List Cell) (counterPtr : Fin n → Nat) (calls : List (ResultCall n))
    (owned : List Nat) : Prop where
  injective : Function.Injective counterPtr
  apart : ∀ thread, counterPtr thread ∉ owned
  once : owned.Nodup
  current : ∀ thread, Alive heap (counterPtr thread)
  kept : ∀ c ∈ owned, Alive heap c
  used : ∀ call ∈ calls, ∀ c, call.point.uses = some c → Alive heap c

section Owns

variable {heap : List Cell} {counterPtr : Fin n → Nat} {calls : List (ResultCall n)}
  {owned : List Nat} {c other : Nat}

theorem Alive.lt (alive : Alive heap c) : c < heap.length := by
  obtain ⟨cell, found, _⟩ := alive
  exact (List.getElem?_eq_some_iff.mp found).1

theorem Alive.write (alive : Alive heap c) (change : Counters → Counters) :
    Alive (heap.modify other fun cell => { cell with counters := change cell.counters }) c := by
  obtain ⟨cell, found, undeleted⟩ := alive
  refine ⟨_, by rw [List.getElem?_modify, found]; rfl, ?_⟩
  split <;> exact undeleted

theorem Alive.free (alive : Alive heap c) (different : other ≠ c) :
    Alive (heap.modify other fun cell => { cell with deleted := true }) c := by
  obtain ⟨cell, found, undeleted⟩ := alive
  exact ⟨cell, by rw [List.getElem?_modify_ne _ _ different, found], undeleted⟩

theorem Alive.exchange (alive : Alive heap c) : Alive (heap ++ [({} : Cell)]) c := by
  obtain ⟨cell, found, undeleted⟩ := alive
  exact ⟨cell, by rw [List.getElem?_append_left (List.getElem?_eq_some_iff.mp found).1, found],
    undeleted⟩

/-- A call that begins or loads the pointer of its thread. -/
theorem Owns.moved (owns : Owns heap counterPtr calls owned) {calls' : List (ResultCall n)}
    (uses : ∀ call ∈ calls', ∀ c, call.point.uses = some c →
      (∃ old ∈ calls, old.point.uses = some c) ∨ ∃ thread, c = counterPtr thread) :
    Owns heap counterPtr calls' owned := by
  refine ⟨owns.injective, owns.apart, owns.once, owns.current, owns.kept, fun call member c holds => ?_⟩
  rcases uses call member c holds with ⟨old, before, same⟩ | ⟨thread, rfl⟩
  · exact owns.used old before c same
  · exact owns.current thread

theorem Owns.perm (owns : Owns heap counterPtr calls owned) {owned' : List Nat}
    (perm : owned.Perm owned') : Owns heap counterPtr calls owned' :=
  ⟨owns.injective, fun thread member => owns.apart thread (perm.mem_iff.mpr member),
    perm.nodup_iff.mp owns.once, owns.current, fun c member => owns.kept c (perm.mem_iff.mpr member),
    owns.used⟩

theorem Owns.write (owns : Owns heap counterPtr calls owned) (c : Nat)
    (change : Counters → Counters) :
    Owns (heap.modify c fun cell => { cell with counters := change cell.counters }) counterPtr calls
      owned :=
  ⟨owns.injective, owns.apart, owns.once, fun thread => (owns.current thread).write change,
    fun c member => (owns.kept c member).write change,
    fun call member c holds => (owns.used call member c holds).write change⟩

/-- **An object that no call uses can be deleted.** -/
theorem Owns.free (owns : Owns heap counterPtr calls (c :: owned))
    (unused : ∀ call ∈ calls, call.point.uses ≠ some c) :
    Owns (heap.modify c fun cell => { cell with deleted := true }) counterPtr calls owned := by
  obtain ⟨injective, apart, once, current, kept, used⟩ := owns
  rw [List.nodup_cons] at once
  refine ⟨injective, fun thread member => apart thread (List.mem_cons_of_mem c member), once.2,
    fun thread => (current thread).free ?_, fun other member => (kept other (List.mem_cons_of_mem c member)).free ?_,
    fun call member other holds => (used call member other holds).free ?_⟩
  · rintro rfl
    exact apart thread List.mem_cons_self
  · rintro rfl
    exact once.1 member
  · rintro rfl
    exact unused call member holds

/-- **An exchange gives the old object to the reporter.** -/
theorem Owns.exchange (owns : Owns heap counterPtr calls owned) (thread : Fin n) :
    Owns (heap ++ [({} : Cell)]) (Function.update counterPtr thread heap.length) calls
      (owned ++ [counterPtr thread]) := by
  have old : ∀ other, counterPtr other ≠ heap.length := fun other =>
    Nat.ne_of_lt (owns.current other).lt
  have new : heap.length ∉ owned := fun member => Nat.lt_irrefl _ (owns.kept _ member).lt
  constructor
  · intro first second same
    by_cases isFirst : first = thread <;> by_cases isSecond : second = thread
    · rw [isFirst, isSecond]
    · rw [isFirst, Function.update_self, Function.update_of_ne isSecond] at same
      exact absurd same.symm (old second)
    · rw [isSecond, Function.update_self, Function.update_of_ne isFirst] at same
      exact absurd same (old first)
    · rw [Function.update_of_ne isFirst, Function.update_of_ne isSecond] at same
      exact owns.injective same
  · intro other member
    rw [List.mem_append, List.mem_singleton] at member
    by_cases same : other = thread
    · rw [same, Function.update_self] at member
      exact member.elim new fun equal => old thread equal.symm
    · rw [Function.update_of_ne same] at member
      exact member.elim (owns.apart other) fun equal => same (owns.injective equal)
  · rw [List.nodup_append]
    refine ⟨owns.once, by simp, fun a member b single => ?_⟩
    rw [List.mem_singleton.mp single]
    rintro rfl
    exact owns.apart thread member
  · intro other
    by_cases same : other = thread
    · rw [same, Function.update_self]
      exact ⟨{}, List.getElem?_concat_length, rfl⟩
    · rw [Function.update_of_ne same]
      exact (owns.current other).exchange
  · intro c member
    rw [List.mem_append, List.mem_singleton] at member
    rcases member with member | rfl
    · exact (owns.kept c member).exchange
    · exact (owns.current thread).exchange
  · exact fun call member c holds => (owns.used call member c holds).exchange

end Owns

/-! ### What the objects count -/

/-- The results that an object counts. -/
def requests (c : Counters) : Nat := c.successfulRequests + c.failedRequests

/-- The calls that have counted in an object and not yet appended their latency. -/
def pushes (calls : List (ResultCall n)) (c : Nat) : Nat :=
  calls.countP fun call => call.point = .pushing c

/-- Every object has as many latencies as results, but for the calls in between; and the sum of the
results of the `folded` objects, in which no call is about to count, is what has been added up. -/
structure Counts (counters : Nat → Counters) (calls : List (ResultCall n)) (folded : List Nat)
    (counted : Nat) : Prop where
  balance : ∀ c, requests (counters c) = (counters c).latencies.length + pushes calls c
  quiet : ∀ c ∈ folded, ∀ call ∈ calls, call.point ≠ .counting c
  sum : counted = (folded.map fun c => requests (counters c)).sum

theorem requests_count (statusCode : Int) (c : Counters) :
    requests (c.count statusCode) = requests c + 1 ∧
      (c.count statusCode).latencies = c.latencies := by
  unfold Counters.count requests
  split
  · exact ⟨by simp only; omega, rfl⟩
  · exact ⟨by simp only; omega, rfl⟩

section Counts

variable {counters : Nat → Counters} {calls : List (ResultCall n)} {folded : List Nat}
  {counted i : Nat} {call : ResultCall n}

/-- The calls in between after one call has moved. -/
theorem pushes_set (found : calls[i]? = some call) (point : CallPoint) (c : Nat) :
    pushes (calls.set i { call with point }) c + (if call.point = .pushing c then 1 else 0) =
      pushes calls c + if point = .pushing c then 1 else 0 := by
  obtain ⟨below, rfl⟩ := List.getElem?_eq_some_iff.mp found
  have counted := List.countP_set (p := fun call : ResultCall n => call.point = .pushing c)
    (a := { calls[i] with point }) below
  have inside : (if calls[i].point = .pushing c then 1 else 0) ≤ pushes calls c := by
    split
    · next pushing => exact List.countP_pos_iff.mpr ⟨_, List.getElem_mem below, by simpa using pushing⟩
    · exact Nat.zero_le _
  unfold pushes at inside ⊢
  simp only [decide_eq_true_eq] at counted
  omega

/-- A call that has moved, or another. -/
theorem mem_set {other : ResultCall n} {next : ResultCall n} (member : other ∈ calls.set i next) :
    other = next ∨ other ∈ calls :=
  (List.mem_or_eq_of_mem_set member).symm

theorem Counts.begin (counts : Counts counters calls folded counted) (thread : Fin n)
    (statusCode latency : Int) :
    Counts counters (calls ++ [({ thread, statusCode, latency } : ResultCall n)]) folded counted := by
  refine ⟨fun c => ?_, fun c member call called => ?_, counts.sum⟩
  · have same : pushes (calls ++ [({ thread, statusCode, latency } : ResultCall n)]) c =
        pushes calls c := by
      simp [pushes]
    rw [same]
    exact counts.balance c
  · rw [List.mem_append, List.mem_singleton] at called
    rcases called with old | rfl
    · exact counts.quiet c member call old
    · simp

theorem Counts.load (counts : Counts counters calls folded counted) (found : calls[i]? = some call)
    (loading : call.point = .loading) {p : Nat} (apart : p ∉ folded) :
    Counts counters (calls.set i { call with point := .counting p }) folded counted := by
  refine ⟨fun c => ?_, fun c member other called => ?_, counts.sum⟩
  · have moved := pushes_set found (.counting p) c
    rw [loading] at moved
    have balance := counts.balance c
    simp only [reduceCtorEq, if_false] at moved
    omega
  · rcases mem_set called with rfl | old
    · intro same
      cases same
      exact apart member
    · exact counts.quiet c member other old

/-- **A result is counted in an object that has not been added up.** -/
theorem Counts.count (counts : Counts counters calls folded counted) (found : calls[i]? = some call)
    {p : Nat} (counting : call.point = .counting p) :
    Counts (Function.update counters p ((counters p).count call.statusCode))
      (calls.set i { call with point := .pushing p }) folded counted := by
  have apart : p ∉ folded := fun member =>
    counts.quiet p member call (List.mem_of_getElem? found) counting
  obtain ⟨requests, latencies⟩ := requests_count call.statusCode (counters p)
  refine ⟨fun c => ?_, fun c member other called => ?_, ?_⟩
  · have moved := pushes_set found (.pushing p) c
    have balance := counts.balance c
    rw [counting] at moved
    simp only [reduceCtorEq, if_false, CallPoint.pushing.injEq] at moved
    by_cases same : c = p
    · subst same
      rw [Function.update_self, requests, latencies]
      rw [if_pos rfl] at moved
      omega
    · rw [Function.update_of_ne same]
      rw [if_neg (Ne.symm same)] at moved
      omega
  · rcases mem_set called with rfl | old
    · simp
    · exact counts.quiet c member other old
  · rw [counts.sum]
    refine congrArg List.sum (List.map_congr_left fun c member => ?_)
    rw [Function.update_of_ne]
    rintro rfl
    exact apart member

theorem Counts.push (counts : Counts counters calls folded counted) (found : calls[i]? = some call)
    {p : Nat} (pushing : call.point = .pushing p) :
    Counts (Function.update counters p ((counters p).push call.latency))
      (calls.set i { call with point := .returned }) folded counted := by
  have same_requests : ∀ c, requests (Function.update counters p ((counters p).push call.latency) c) =
      requests (counters c) := by
    intro c
    by_cases same : c = p
    · subst same
      rw [Function.update_self]
      rfl
    · rw [Function.update_of_ne same]
  refine ⟨fun c => ?_, fun c member other called => ?_, ?_⟩
  · have moved := pushes_set found .returned c
    have balance := counts.balance c
    rw [pushing] at moved
    simp only [reduceCtorEq, if_false, CallPoint.pushing.injEq] at moved
    rw [same_requests]
    by_cases same : c = p
    · subst same
      rw [Function.update_self, Counters.push, List.length_append, List.length_singleton]
      rw [if_pos rfl] at moved
      omega
    · rw [Function.update_of_ne same]
      rw [if_neg (Ne.symm same)] at moved
      omega
  · rcases mem_set called with rfl | old
    · simp
    · exact counts.quiet c member other old
  · rw [counts.sum]
    exact congrArg List.sum (List.map_congr_left fun c _ => (same_requests c).symm)

/-- **An object in which no call is about to count can be added up.** -/
theorem Counts.fold (counts : Counts counters calls folded counted) {p : Nat}
    (still : ∀ call ∈ calls, call.point ≠ .counting p) :
    Counts counters calls (folded ++ [p]) (counted + requests (counters p)) := by
  refine ⟨counts.balance, fun c member => ?_, ?_⟩
  · rw [List.mem_append, List.mem_singleton] at member
    rcases member with old | rfl
    · exact counts.quiet c old
    · exact still
  · rw [List.map_append, List.sum_append, List.map_singleton, List.sum_singleton, counts.sum]

/-- **When the calls on the folded objects are finished, every result has its latency.** -/
theorem Counts.finished (counts : Counts counters calls folded counted)
    (finished : ∀ call ∈ calls, ∀ c ∈ folded, call.point.uses ≠ some c) :
    counted = (folded.map fun c => (counters c).latencies.length).sum := by
  rw [counts.sum]
  refine congrArg List.sum (List.map_congr_left fun c member => ?_)
  have none_left : pushes calls c = 0 := by
    unfold pushes
    rw [List.countP_eq_zero]
    intro call called pushing
    have point : call.point = .pushing c := of_decide_eq_true pushing
    exact finished call called c member (by rw [point]; rfl)
  rw [counts.balance, none_left, Nat.add_zero]

end Counts

end Swap

end Apib
