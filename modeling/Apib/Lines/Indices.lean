/-
**The indices of a `LineState`.**

Any sequence of calls on a `LineState`, with the accesses to its buffer checked. Of what a stream or a
descriptor has to offer, a read takes what there is space for, and so does the caller that fills the
buffer by itself.

* `InRange`: what is to hold between the calls;
* `Kept.perform`: every call keeps the order, unless it is `next` on a CR that ends the valid data in HTTP
  mode before a byte that is outside of the buffer or an LF;
* `indices_in_range_iff`: **no access leaves the buffer, and the indices stay in range, exactly when no call of `next`
  meets such a CR**.
-/

import Apib.Lines.Bounds

namespace Apib

/-- The calls on a `LineState`. The last is `getReadInfo`, writing where it points, and
`setReadLength`. -/
inductive LineState.Call
  | next
  | line
  | nextToken (toks : Bytes)
  | skipMatches (toks : Bytes)
  | consume
  | clear
  | setHttpMode (on : Bool)
  | readStream (offered : Bytes)
  | readFd (offered : SysRead)
  | fill (written : Bytes) (len : Nat)
  deriving DecidableEq, Repr

/-- What a call answers. -/
inductive LineState.Answer
  | none
  | flag (given : Bool)
  | text (bytes : Bytes)
  | count (n : Int)
  deriving DecidableEq, Repr

namespace LineState

/-- Does the call read without an error? -/
def Call.succeeds : Call → Bool
  | .readFd .wouldBlock | .readFd .failed => false
  | _ => true

/-- `LineState(char* line, int size, int len)`. -/
def ofBuffer (memory : Bytes) (len : Nat) : LineState := { buf := memory, bufLen := len }

/-- As many bytes as there is space for. -/
def room (s : LineState) (bytes : Bytes) : Bytes := bytes.take s.remaining.toNat

/-- What `read` gives when it is asked for the space that is left. -/
def asked (s : LineState) : SysRead → SysRead
  | .bytes offered => .bytes (s.room offered)
  | other => other

/-- One call. -/
def perform (s : LineState) : Call → Answer × LineState
  | .next => s.next.map .flag id
  | .line => (.text s.line, s)
  | .nextToken toks => (s.nextToken toks).map .text id
  | .skipMatches toks => (.none, s.skipMatches toks)
  | .consume => s.consume.map .flag id
  | .clear => (.none, s.clear)
  | .setHttpMode on => (.none, { s with httpMode := on })
  | .readStream offered => (s.readStream (s.room offered)).map .count id
  | .readFd offered => (s.readFd (s.asked offered)).map .count id
  | .fill written len =>
    (.none, (s.overwrite (s.room written)).setReadLength (min len s.remaining.toNat : Nat))

/-- One call, checked. -/
def perform? (s : LineState) : Call → Option (Answer × LineState)
  | .next => s.next?.map (Prod.map .flag id)
  | .line => s.line?.map fun line => (.text line, s)
  | .nextToken toks => (s.nextToken? toks).map (Prod.map .text id)
  | .skipMatches toks => (s.skipMatches? toks).map fun t => (.none, t)
  | .consume => s.consume?.map (Prod.map .flag id)
  | .clear => some (.none, s.clear)
  | .setHttpMode on => some (.none, { s with httpMode := on })
  | .readStream offered => (s.readStream? (s.room offered)).map (Prod.map .count id)
  | .readFd offered => (s.readFd? (s.asked offered)).map (Prod.map .count id)
  | .fill written len => (s.overwrite? (s.room written)).map fun t =>
      (.none, t.setReadLength (min len s.remaining.toNat : Nat))

/-- What is to hold between the calls. -/
structure InRange (s : LineState) : Prop where
  start_le : s.lineStart ≤ s.lineEnd
  end_le : s.lineEnd ≤ s.bufLen
  len_le : s.bufLen ≤ s.buf.length
  remaining : 0 ≤ s.dataRemaining
  tokens : s.lineComplete = true → s.tokStart ≤ s.tokEnd ∧ s.tokEnd ≤ s.lineEnd
  ended : s.lineComplete = true → ∃ i, s.lineStart ≤ i ∧ i < s.lineEnd ∧ s.buf[i]? = some 0

/-- **Every access stays in the buffer**, whose size does not change, and the indices are in range before
each call and after the last. -/
def Safe : LineState → List Call → Prop
  | s, [] => InRange s
  | s, call :: later =>
    InRange s ∧ ∃ answer t, s.perform? call = some (answer, t) ∧ t.buf.length = s.buf.length ∧ Safe t later

/-- No call of `next` meets a CR that ends the valid data. -/
def Unsplit : LineState → List Call → Prop
  | _, [] => True
  | s, call :: later => (call = .next → ¬SplitEnd s) ∧ Unsplit (s.perform call).2 later

instance decidableUnsplit : (s : LineState) → (calls : List Call) → Decidable (Unsplit s calls)
  | _, [] => isTrue trivial
  | s, call :: later =>
    have := decidableUnsplit (s.perform call).2 later
    inferInstanceAs (Decidable (_ ∧ _))

variable {s : LineState}

theorem Kept.inRange (kept : Kept s) : InRange s := by
  have end_le := kept.end_le
  refine ⟨kept.start_le, end_le, kept.len_le, Int.sub_nonneg_of_le end_le, kept.tokens, ?_⟩
  intro complete
  obtain ⟨further, nul⟩ := kept.ended complete
  exact ⟨s.lineEnd - 1, by omega, by omega, nul⟩

theorem kept_ofBuffer {memory : Bytes} {len : Nat} (fits : len ≤ memory.length) :
    Kept (ofBuffer memory len) :=
  .of_incomplete rfl (Nat.le_refl _) (Int.natCast_nonneg _) (by simpa [ofBuffer] using fits)

/-! ### One call -/

/-- What there is space for fits. -/
theorem Kept.room_fits (kept : Kept s) (bytes : Bytes) :
    s.bufLen + (s.room bytes).length ≤ s.buf.length := by
  have len_le := kept.len_le
  simp only [room, remaining, List.length_take]
  omega

/-- **A call keeps the order** and stays in the buffer, unless it is `next` on a CR that ends the valid
data. -/
theorem Kept.perform (kept : Kept s) {call : Call} (succeeds : call.succeeds)
    (clear : call = .next → ¬SplitEnd s) :
    s.perform? call = some (s.perform call) ∧ Kept (s.perform call).2 ∧
      (s.perform call).2.buf.length = s.buf.length := by
  cases call with
  | next =>
    obtain ⟨same, kept_next, size⟩ := kept.next (clear rfl)
    exact ⟨congrArg (Option.map _) same, kept_next, size⟩
  | line => exact ⟨congrArg (Option.map _) kept.line, kept, rfl⟩
  | nextToken toks =>
    obtain ⟨same, kept_next, size⟩ := kept.nextToken toks
    exact ⟨congrArg (Option.map _) same, kept_next, size⟩
  | skipMatches toks =>
    obtain ⟨same, kept_next, size⟩ := kept.skipMatches toks
    exact ⟨congrArg (Option.map _) same, kept_next, size⟩
  | consume =>
    obtain ⟨same, kept_next, size⟩ := kept.consume
    exact ⟨congrArg (Option.map _) same, kept_next, size⟩
  | clear => exact ⟨rfl, kept.clear, rfl⟩
  | setHttpMode on => exact ⟨rfl, kept.setHttpMode on, rfl⟩
  | readStream offered =>
    obtain ⟨same, kept_next, size⟩ := kept.readStream (kept.room_fits offered)
    exact ⟨congrArg (Option.map _) same, kept_next, size⟩
  | readFd offered =>
    cases offered with
    | bytes offered =>
      obtain ⟨same, kept_next, size⟩ := kept.readFd (kept.room_fits offered)
      exact ⟨congrArg (Option.map _) same, kept_next, size⟩
    | wouldBlock => cases succeeds
    | failed => cases succeeds
  | fill written len =>
    obtain ⟨same, kept_written, size⟩ := kept.overwrite (kept.room_fits written)
    have fits : (s.overwrite (s.room written)).bufLen + (min len s.remaining.toNat : Nat) ≤
        (s.overwrite (s.room written)).buf.length := by
      have len_le := kept.len_le
      have same_len : (s.overwrite (s.room written)).bufLen = s.bufLen := rfl
      rw [size, same_len]
      simp only [remaining]
      omega
    exact ⟨congrArg (Option.map _) same, kept_written.setReadLength (Int.natCast_nonneg _) fits, size⟩

/-- **A call of `next` on such a CR** does not keep the indices in range. -/
theorem splitEnd_not_safe (kept : Kept s) (split : SplitEnd s) (later : List Call) :
    ¬Safe s (.next :: later) := by
  rintro ⟨-, answer, t, ended, -, safe⟩
  obtain ⟨r, given, same⟩ := Option.map_eq_some_iff.mp ended
  have passed := splitEnd_breaks kept split r given
  have state : r.2 = t := congrArg Prod.snd same
  have in_range : InRange t := by
    cases later with
    | nil => exact safe
    | cons call later => exact safe.1
  have end_le := in_range.end_le
  rw [state] at passed
  omega

/-! ### Every sequence of calls -/

/-- The calls are safe from any state that is in order, exactly when none meets such a CR. -/
theorem Kept.safe_iff (kept : Kept s) {calls : List Call} (succeed : ∀ call ∈ calls, call.succeeds) :
    Safe s calls ↔ Unsplit s calls := by
  induction calls generalizing s with
  | nil => exact ⟨fun _ => trivial, fun _ => kept.inRange⟩
  | cons call later ih =>
    have first := succeed call List.mem_cons_self
    have others : ∀ other ∈ later, other.succeeds :=
      fun other member => succeed other (List.mem_cons_of_mem _ member)
    constructor
    · intro safe
      have clear : call = .next → ¬SplitEnd s := by
        rintro rfl split
        exact splitEnd_not_safe kept split later safe
      obtain ⟨same, kept_next, -⟩ := kept.perform first clear
      obtain ⟨-, answer, t, performed, -, safe_later⟩ := safe
      rw [same] at performed
      obtain rfl : (s.perform call).2 = t := congrArg Prod.snd (Option.some.inj performed)
      exact ⟨clear, (ih kept_next others).mp safe_later⟩
    · rintro ⟨clear, unsplit⟩
      obtain ⟨same, kept_next, size⟩ := kept.perform first clear
      exact ⟨kept.inRange, _, _, same, size, (ih kept_next others).mpr unsplit⟩

/-- **The indices stay in range**, and no access leaves the buffer, for a buffer with some valid bytes and
any calls, exactly when no call of `next` meets, in HTTP mode, a CR that is the last valid byte while the
buffer is full or an LF lies behind it. -/
theorem indices_in_range_iff {memory : Bytes} {len : Nat} (fits : len ≤ memory.length) {calls : List Call}
    (succeed : ∀ call ∈ calls, call.succeeds) :
    Safe (ofBuffer memory len) calls ↔ Unsplit (ofBuffer memory len) calls :=
  (kept_ofBuffer fits).safe_iff succeed

/-- In HTTP mode, lines that end in a CRLF are taken and the rest is kept. -/
theorem indices_in_range_example : Safe (ofBuffer (List.replicate 8 0) 0)
    [.setHttpMode true, .readFd (.bytes (ascii "ab\r\n\r\nc")), .next, .nextToken [98], .next, .next,
      .consume] :=
  (indices_in_range_iff (by decide) (by decide)).mpr (by decide)

/-- A buffer of three bytes that a CR fills: the byte after it is looked at. -/
theorem full_buffer_unsafe : ¬Safe (ofBuffer (List.replicate 3 0) 0)
    [.setHttpMode true, .readFd (.bytes (ascii "ab\r")), .next] := by
  rintro ⟨-, _, s, mode, -, -, _, t, filled, -, -, _, u, looked, -⟩
  obtain rfl := congrArg Prod.snd (Option.some.inj mode)
  obtain rfl := congrArg Prod.snd (Option.some.inj filled)
  have outside : perform? ⟨ascii "ab\r", true, 3, 0, 0, false, 0, 0⟩ .next = none := by decide
  exact absurd (outside.symm.trans looked) (by simp)

end LineState

end Apib
