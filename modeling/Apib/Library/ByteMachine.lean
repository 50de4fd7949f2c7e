/-
**Machines that read a stream piece by piece.**

A machine consumes one input at a time and either goes on or stops (`Verdict`); `feed` runs it over
a list and hands back what it left unread. A `Reader` adds a test `answer` on the states that is
looked at only *between* pieces: `readLoop` feeds piece after piece, each one appended to what the
last left over, until the test gives an answer.

* `feed_append`: feeding is compositional as long as the machine has not stopped.
* `Reader.readLoop_eq`: the loop's result is the first answer at a boundary of the cutting.
* `Reader.readLoop_cut_iff`: **the result is the same for every cutting of a stream** into non-empty
  pieces of bounded size exactly when the answer is `Settled`: from the first position that has one,
  it does not change within the reach of the piece that gets there.
* `Reader.readLoop_endsAt_iff`: the loop stops at the end of a stream, for every cutting, exactly when
  the answer is there and not before.
-/

import Mathlib.Algebra.GroupWithZero.Nat
import Mathlib.Data.List.SplitLengths
import Mathlib.Data.List.Basic
import Mathlib.Data.Nat.Find

namespace ByteMachine

/-- What a machine does with one input: go on, or stop with the input eaten or not. -/
inductive Verdict (σ : Type*)
  | more (next : σ)
  | stop (last : σ) (eaten : Bool)

/-- The outcome of feeding a list: the last state, the inputs left unread, and whether the machine
stopped. -/
structure Fed (σ β : Type*) where
  state : σ
  rest : List β
  stopped : Bool

variable {σ β ρ : Type*}

/-- Feed inputs until the machine stops or none is left. -/
def feed (step : σ → β → Verdict σ) : σ → List β → Fed σ β
  | state, [] => ⟨state, [], false⟩
  | state, input :: rest =>
    match step state input with
    | .more next => feed step next rest
    | .stop last true => ⟨last, rest, true⟩
    | .stop last false => ⟨last, input :: rest, true⟩

section Feed

variable (step : σ → β → Verdict σ)

/-- **Feeding in two parts.** -/
theorem feed_append (state : σ) (first second : List β) :
    feed step state (first ++ second) =
      if (feed step state first).stopped then
        { feed step state first with rest := (feed step state first).rest ++ second }
      else feed step (feed step state first).state second := by
  induction first generalizing state with
  | nil => simp [feed]
  | cons input rest ih =>
    cases verdict : step state input with
    | more next => simpa only [List.cons_append, feed, verdict] using ih next
    | stop last eaten => cases eaten <;> simp [feed, verdict]

theorem feed_append_of_running {state : σ} {first : List β}
    (running : (feed step state first).stopped = false) (second : List β) :
    feed step state (first ++ second) = feed step (feed step state first).state second := by
  rw [feed_append, running]
  rfl

theorem feed_rest_of_running {state : σ} {inputs : List β}
    (running : (feed step state inputs).stopped = false) : (feed step state inputs).rest = [] := by
  induction inputs generalizing state with
  | nil => rfl
  | cons input rest ih =>
    simp only [feed] at running ⊢
    cases verdict : step state input with
    | more next =>
      rw [verdict] at running
      exact ih running
    | stop last eaten => cases eaten <;> simp [verdict] at running

theorem feed_rest_length_le (state : σ) (inputs : List β) :
    (feed step state inputs).rest.length ≤ inputs.length := by
  induction inputs generalizing state with
  | nil => exact Nat.le_refl 0
  | cons input rest ih =>
    simp only [feed, List.length_cons]
    cases step state input with
    | more next => exact Nat.le_succ_of_le (ih next)
    | stop last eaten => cases eaten <;> simp

/-- A property kept by every step that goes on and by every stop holds of the last state. -/
theorem feed_invariant {P : σ → Prop} (onMore : ∀ state input next, P state →
      step state input = .more next → P next)
    (onStop : ∀ state input last eaten, P state → step state input = .stop last eaten → P last)
    {state : σ} (holds : P state) (inputs : List β) : P (feed step state inputs).state := by
  induction inputs generalizing state with
  | nil => exact holds
  | cons input rest ih =>
    simp only [feed]
    cases verdict : step state input with
    | more next => exact ih (onMore _ _ _ holds verdict)
    | stop last eaten => cases eaten <;> exact onStop _ _ _ _ holds verdict

end Feed

/-! ### The first answer at a boundary -/

section Boundaries

/-- The first answer among the ends of consecutive pieces of the given sizes. -/
def firstAnswer : (Nat → Option ρ) → List Nat → Option ρ
  | _, [] => none
  | answers, size :: sizes =>
    match answers size with
    | some answer => some answer
    | none => firstAnswer (fun position => answers (size + position)) sizes

/-- The sizes of non-empty pieces: the first at most `first`, the others at most `full`. -/
def Fits (first full : Nat) : List Nat → Prop
  | [] => True
  | size :: sizes => 0 < size ∧ size ≤ first ∧ Fits full full sizes

instance Fits.decidable (first full : Nat) : (sizes : List Nat) → Decidable (Fits first full sizes)
  | [] => .isTrue trivial
  | size :: sizes =>
    have := Fits.decidable full full sizes
    inferInstanceAs (Decidable (0 < size ∧ size ≤ first ∧ Fits full full sizes))

theorem fits_append {first full : Nat} {left right : List Nat} :
    Fits first full (left ++ right) ↔
      Fits first full left ∧ Fits (if left = [] then first else full) full right := by
  induction left generalizing first with
  | nil => simp [Fits]
  | cons size left ih => simp [Fits, ih, and_assoc]

/-- The first position after the start that has an answer. -/
def FirstHit (answers : Nat → Option ρ) (hit : Nat) : Prop :=
  0 < hit ∧ answers hit ≠ none ∧ ∀ position, 0 < position → position < hit → answers position = none

/-- The last position that a piece ending at or after `hit`, and starting before it, can end at. -/
def reachOf (first full hit : Nat) : Nat := if hit = 1 then first else hit - 1 + full

/-- **The answer is settled**: from its first position on it stays the same, as far as the piece
that gets there can reach. -/
def Settled (answers : Nat → Option ρ) (first full length : Nat) : Prop :=
  ∀ hit position, FirstHit answers hit → hit ≤ position → position ≤ length →
    position ≤ reachOf first full hit → answers position = answers hit

variable {answers : Nat → Option ρ}

theorem firstAnswer_eq_none {sizes : List Nat} {first full : Nat} (fits : Fits first full sizes)
    (silent : ∀ position, 0 < position → position ≤ sizes.sum → answers position = none) :
    firstAnswer answers sizes = none := by
  induction sizes generalizing answers first with
  | nil => rfl
  | cons size sizes ih =>
    obtain ⟨positive, _, later⟩ := fits
    rw [List.sum_cons] at silent
    have here : answers size = none := silent size positive (by omega)
    simp only [firstAnswer, here]
    exact ih later fun position _ _ => silent (size + position) (by omega) (by omega)

/-- **A settled answer is found by every cutting.** -/
theorem firstAnswer_of_settled {sizes : List Nat} {first full hit : Nat} (wide : first ≤ full)
    (fits : Fits first full sizes) (isFirst : FirstHit answers hit) (inside : hit ≤ sizes.sum)
    (settled : ∀ position, hit ≤ position → position ≤ sizes.sum →
      position ≤ reachOf first full hit → answers position = answers hit) :
    firstAnswer answers sizes = answers hit := by
  induction sizes generalizing answers first hit with
  | nil =>
    have := isFirst.1
    rw [List.sum_nil] at inside
    omega
  | cons size sizes ih =>
    obtain ⟨positive, small, later⟩ := fits
    obtain ⟨hitPositive, answered, quiet⟩ := isFirst
    rw [List.sum_cons] at inside settled
    by_cases before : size < hit
    · have here : answers size = none := quiet size positive before
      have shifted : size + (hit - size) = hit := by omega
      simp only [firstAnswer, here]
      have shift : firstAnswer (fun position => answers (size + position)) sizes =
          answers (size + (hit - size)) := by
        refine ih (Nat.le_refl full) later ?_ ?_ ?_
        · refine ⟨by omega, ?_, fun position _ _ => quiet _ (by omega) (by omega)⟩
          show answers (size + (hit - size)) ≠ none
          rw [shifted]
          exact answered
        · omega
        · intro position low high reach
          show answers (size + position) = answers (size + (hit - size))
          rw [shifted]
          refine settled _ (by omega) (by omega) ?_
          unfold reachOf at reach ⊢
          rw [if_neg (by omega)]
          split at reach <;> omega
      rw [shift, shifted]
    · have same : answers size = answers hit := by
        refine settled size (by omega) (by omega) ?_
        unfold reachOf
        split <;> omega
      obtain ⟨answer, found⟩ := Option.ne_none_iff_exists'.mp answered
      simp only [firstAnswer, same, found]

/-- Silent pieces of size one only shift the positions. -/
theorem firstAnswer_ones (count : Nat) (sizes : List Nat)
    (silent : ∀ position, 0 < position → position ≤ count → answers position = none) :
    firstAnswer answers (List.replicate count 1 ++ sizes) =
      firstAnswer (fun position => answers (count + position)) sizes := by
  induction count generalizing answers with
  | zero => simp
  | succ count ih =>
    have here : answers 1 = none := silent 1 (by omega) (by omega)
    simp only [List.replicate_succ, List.cons_append, firstAnswer, here]
    rw [ih fun position _ _ => silent (1 + position) (by omega) (by omega)]
    simp only [← Nat.add_assoc, Nat.add_comm 1 count]

theorem fits_ones {first full : Nat} (someRoom : 0 < first) (wide : first ≤ full) (count : Nat)
    {sizes : List Nat} (fits : Fits (if count = 0 then first else full) full sizes) :
    Fits first full (List.replicate count 1 ++ sizes) := by
  induction count generalizing first with
  | zero => simpa using fits
  | succ count ih =>
    refine ⟨Nat.one_pos, someRoom, ih (by omega) (Nat.le_refl full) ?_⟩
    rw [if_neg (Nat.succ_ne_zero count)] at fits
    rwa [ite_self]

theorem firstHit_exists {length : Nat} {position : Nat} (positive : 0 < position)
    (within : position ≤ length) (answered : answers position ≠ none) :
    ∃ hit, FirstHit answers hit ∧ hit ≤ length := by
  classical
  have some_hit : ∃ candidate, 0 < candidate ∧ answers candidate ≠ none :=
    ⟨position, positive, answered⟩
  refine ⟨Nat.find some_hit, ⟨(Nat.find_spec some_hit).1, (Nat.find_spec some_hit).2, ?_⟩,
    (Nat.find_min' some_hit ⟨positive, answered⟩).trans within⟩
  intro earlier earlierPositive lower
  by_contra found
  exact Nat.find_min some_hit lower ⟨earlierPositive, found⟩

/-- **Every cutting finds the same answer exactly when the answer is settled.** -/
theorem firstAnswer_cut_iff {first full length : Nat} (someRoom : 0 < first) (wide : first ≤ full)
    (persists : ∀ early late, early ≤ late → answers early ≠ none → answers late ≠ none) :
    (∀ left right : List Nat, Fits first full left → Fits first full right →
        left.sum = length → right.sum = length →
        firstAnswer answers left = firstAnswer answers right) ↔
      Settled answers first full length := by
  constructor
  · intro same hit position isFirst low high reach
    obtain ⟨hitPositive, answered, quiet⟩ := isFirst
    have silent : ∀ earlier, 0 < earlier → earlier ≤ hit - 1 → answers earlier = none :=
      fun earlier positive _ => quiet earlier positive (by omega)
    -- pieces of size one up to the hit, then one piece that ends at `stop`, then size one again
    have endsAt : ∀ stop, hit ≤ stop → stop ≤ length → stop ≤ reachOf first full hit →
        ∃ sizes, Fits first full sizes ∧ sizes.sum = length ∧
          firstAnswer answers sizes = answers stop := by
      intro stop after inside reached
      refine ⟨List.replicate (hit - 1) 1 ++ ((stop - (hit - 1)) ::
        (List.replicate (length - stop) 1 ++ [])), fits_ones someRoom wide _ ⟨by omega, ?_, ?_⟩,
        ?_, ?_⟩
      · unfold reachOf at reached
        split at reached <;> split <;> omega
      · exact fits_ones (by omega) (Nat.le_refl full) _ (by simp [Fits])
      · simp
        omega
      · rw [firstAnswer_ones _ _ silent]
        have there : hit - 1 + (stop - (hit - 1)) = stop := by omega
        obtain ⟨answer, found⟩ := Option.ne_none_iff_exists'.mp (persists hit stop after answered)
        simp only [firstAnswer, there, found]
    have hitReach : hit ≤ reachOf first full hit := by
      unfold reachOf
      split <;> omega
    obtain ⟨left, leftFits, leftSum, leftAnswer⟩ := endsAt position low high reach
    obtain ⟨right, rightFits, rightSum, rightAnswer⟩ :=
      endsAt hit (Nat.le_refl hit) (low.trans high) hitReach
    rw [← leftAnswer, ← rightAnswer]
    exact same left right leftFits rightFits leftSum rightSum
  · intro settled left right leftFits rightFits leftSum rightSum
    by_cases silent : ∀ position, 0 < position → position ≤ length → answers position = none
    · rw [firstAnswer_eq_none leftFits (by rwa [leftSum]),
        firstAnswer_eq_none rightFits (by rwa [rightSum])]
    · simp only [not_forall] at silent
      obtain ⟨position, positive, within, answered⟩ := silent
      obtain ⟨hit, isFirst, inside⟩ := firstHit_exists positive within answered
      rw [firstAnswer_of_settled wide leftFits isFirst (by rwa [leftSum])
          (by rw [leftSum]; exact fun other => settled hit other isFirst),
        firstAnswer_of_settled wide rightFits isFirst (by rwa [rightSum])
          (by rw [rightSum]; exact fun other => settled hit other isFirst)]

end Boundaries

/-! ### Readers -/

/-- A machine with a test on its states: a stop always has an answer, and an answer never goes away
while the machine goes on. -/
structure Reader (σ β ρ : Type*) where
  step : σ → β → Verdict σ
  answer : σ → Option ρ
  answer_stop : ∀ state input last eaten, step state input = .stop last eaten → answer last ≠ none
  answer_more : ∀ state input next, step state input = .more next → answer state ≠ none →
    answer next ≠ none

namespace Reader

variable (reader : Reader σ β ρ)

/-- Feed piece after piece, each appended to what is left of the last, until there is an answer. -/
def readLoop : σ → List β → List (List β) → Option ρ
  | _, _, [] => none
  | state, carry, piece :: pieces =>
    let fed := feed reader.step state (carry ++ piece)
    match reader.answer fed.state with
    | some answer => some answer
    | none => readLoop fed.state fed.rest pieces

/-- The answer after the carried inputs and the first `position` inputs of the stream. -/
def answerAt (state : σ) (carry stream : List β) (position : Nat) : Option ρ :=
  reader.answer (feed reader.step state (carry ++ stream.take position)).state

/-- A cutting of `stream` into non-empty pieces of bounded size. -/
def Cut (first full : Nat) (stream : List β) (pieces : List (List β)) : Prop :=
  pieces.flatten = stream ∧ Fits first full (pieces.map List.length)

theorem running_of_silent {state : σ} {inputs : List β}
    (silent : reader.answer (feed reader.step state inputs).state = none) :
    (feed reader.step state inputs).stopped = false := by
  induction inputs generalizing state with
  | nil => rfl
  | cons input rest ih =>
    simp only [feed] at silent ⊢
    cases verdict : reader.step state input with
    | more next =>
      rw [verdict] at silent
      exact ih silent
    | stop last eaten =>
      rw [verdict] at silent
      cases eaten <;> exact absurd silent (reader.answer_stop _ _ _ _ verdict)

theorem answer_feed {state : σ} (answered : reader.answer state ≠ none) (inputs : List β) :
    reader.answer (feed reader.step state inputs).state ≠ none :=
  feed_invariant reader.step (P := fun state => reader.answer state ≠ none)
    (fun state input next holds verdict => reader.answer_more state input next verdict holds)
    (fun state input last eaten _ verdict => reader.answer_stop state input last eaten verdict)
    answered inputs

/-- An answer stays whatever follows. -/
theorem answer_append {state : σ} {first : List β}
    (answered : reader.answer (feed reader.step state first).state ≠ none) (second : List β) :
    reader.answer (feed reader.step state (first ++ second)).state ≠ none := by
  rw [feed_append]
  split
  · exact answered
  · exact reader.answer_feed answered second

/-- After a silent start the loop goes through the boundaries that follow it. -/
theorem readLoop_of_silent (pieces : List (List β)) {state : σ} {base : List β}
    (silent : reader.answer (feed reader.step state base).state = none) :
    reader.readLoop (feed reader.step state base).state [] pieces =
      firstAnswer (reader.answerAt state base pieces.flatten) (pieces.map List.length) := by
  induction pieces generalizing base with
  | nil => rfl
  | cons piece pieces ih =>
    have joined : feed reader.step state (base ++ piece) =
        feed reader.step (feed reader.step state base).state piece :=
      feed_append_of_running reader.step (reader.running_of_silent silent) piece
    have atPiece : reader.answerAt state base (piece :: pieces).flatten piece.length =
        reader.answer (feed reader.step state (base ++ piece)).state := by
      simp [answerAt]
    have later : (fun position => reader.answerAt state base (piece :: pieces).flatten
        (piece.length + position)) = reader.answerAt state (base ++ piece) pieces.flatten := by
      funext position
      simp [answerAt, List.take_append, List.take_of_length_le]
    simp only [readLoop, List.nil_append, List.map_cons, firstAnswer, atPiece, ← joined]
    cases found : reader.answer (feed reader.step state (base ++ piece)).state with
    | some answer => rfl
    | none =>
      rw [feed_rest_of_running reader.step (reader.running_of_silent found), ih found, later]

/-- **The loop finds the first answer at a boundary of the cutting.** -/
theorem readLoop_eq (state : σ) (carry : List β) (pieces : List (List β)) :
    reader.readLoop state carry pieces =
      firstAnswer (reader.answerAt state carry pieces.flatten) (pieces.map List.length) := by
  cases pieces with
  | nil => rfl
  | cons piece pieces =>
    have atPiece : reader.answerAt state carry (piece :: pieces).flatten piece.length =
        reader.answer (feed reader.step state (carry ++ piece)).state := by
      simp [answerAt]
    have later : (fun position => reader.answerAt state carry (piece :: pieces).flatten
        (piece.length + position)) = reader.answerAt state (carry ++ piece) pieces.flatten := by
      funext position
      simp [answerAt, List.take_append, List.take_of_length_le]
    simp only [readLoop, List.map_cons, firstAnswer, atPiece]
    cases found : reader.answer (feed reader.step state (carry ++ piece)).state with
    | some answer => rfl
    | none =>
      rw [feed_rest_of_running reader.step (reader.running_of_silent found), later]
      exact reader.readLoop_of_silent pieces found

theorem feed_joined {state : σ} {first : List β}
    (silent : reader.answer (feed reader.step state first).state = none) (second : List β) :
    feed reader.step state (first ++ second) = feed reader.step (feed reader.step state first).state second :=
  feed_append_of_running reader.step (reader.running_of_silent silent) second

theorem readLoop_cons_of_some {state : σ} {carry piece : List β} {pieces : List (List β)} {found : ρ}
    (answered : reader.answer (feed reader.step state (carry ++ piece)).state = some found) :
    reader.readLoop state carry (piece :: pieces) = some found := by
  simp only [readLoop, answered]

theorem readLoop_cons_of_none {state : σ} {carry piece : List β} {pieces : List (List β)}
    (silent : reader.answer (feed reader.step state (carry ++ piece)).state = none) :
    reader.readLoop state carry (piece :: pieces) =
      reader.readLoop (feed reader.step state (carry ++ piece)).state [] pieces := by
  simp only [readLoop, silent, feed_rest_of_running reader.step (reader.running_of_silent silent)]

/-- The loop goes on until the last piece exactly when there is no answer after all of them. -/
theorem readLoop_eq_none_iff {pieces : List (List β)} (some_piece : pieces ≠ []) {state : σ}
    {carry : List β} : reader.readLoop state carry pieces = none ↔
      reader.answer (feed reader.step state (carry ++ pieces.flatten)).state = none := by
  induction pieces generalizing state carry with
  | nil => exact absurd rfl some_piece
  | cons piece pieces ih =>
    rw [List.flatten_cons, ← List.append_assoc]
    cases found : reader.answer (feed reader.step state (carry ++ piece)).state with
    | some answer =>
      rw [reader.readLoop_cons_of_some found]
      exact iff_of_false (Option.some_ne_none answer)
        (reader.answer_append (found.symm ▸ Option.some_ne_none answer) _)
    | none =>
      rw [reader.readLoop_cons_of_none found]
      by_cases last : pieces = []
      · subst last
        exact iff_of_true rfl (by simpa using found)
      · rw [ih last, List.nil_append, reader.feed_joined found]

/-- **The loop stops at the first piece after which there is an answer.** -/
theorem readLoop_eq_some_iff {pieces : List (List β)} {state : σ} {carry : List β} {found : ρ} :
    reader.readLoop state carry pieces = some found ↔ ∃ before piece after,
      pieces = before ++ piece :: after ∧
      (before = [] ∨ reader.answer (feed reader.step state (carry ++ before.flatten)).state = none) ∧
      reader.answer (feed reader.step state (carry ++ before.flatten ++ piece)).state = some found := by
  constructor
  · intro loop
    induction pieces generalizing state carry with
    | nil => cases loop
    | cons piece pieces ih =>
      cases here : reader.answer (feed reader.step state (carry ++ piece)).state with
      | some answer =>
        rw [reader.readLoop_cons_of_some here] at loop
        cases loop
        exact ⟨[], piece, pieces, rfl, .inl rfl, by simpa using here⟩
      | none =>
        rw [reader.readLoop_cons_of_none here] at loop
        obtain ⟨before, last, after, rfl, silent, answered⟩ := ih loop
        refine ⟨piece :: before, last, after, rfl, .inr ?_, ?_⟩
        · rw [List.flatten_cons, ← List.append_assoc, reader.feed_joined here]
          rcases silent with rfl | silent
          · simpa [feed] using here
          · simpa using silent
        · rw [List.flatten_cons, ← List.append_assoc, List.append_assoc _ before.flatten,
            reader.feed_joined here]
          simpa using answered
  · rintro ⟨before, piece, after, rfl, silent, answered⟩
    induction before generalizing state carry with
    | nil =>
      rw [List.flatten_nil, List.append_nil] at answered
      exact reader.readLoop_cons_of_some answered
    | cons first before ih =>
      have none_yet := silent.resolve_left (List.cons_ne_nil first before)
      rw [List.flatten_cons, ← List.append_assoc] at none_yet answered
      have here : reader.answer (feed reader.step state (carry ++ first)).state = none := by
        by_contra early
        exact reader.answer_append early _ none_yet
      rw [reader.feed_joined here] at none_yet
      rw [List.append_assoc, reader.feed_joined here] at answered
      rw [List.cons_append, reader.readLoop_cons_of_none here]
      exact ih (.inr (by simpa using none_yet)) (by simpa using answered)

/-- A loop that has its answer does not look at further pieces. -/
theorem readLoop_append_of_some {pieces : List (List β)} {state : σ} {carry : List β} {found : ρ}
    (loop : reader.readLoop state carry pieces = some found) (more : List (List β)) :
    reader.readLoop state carry (pieces ++ more) = some found := by
  obtain ⟨before, piece, after, rfl, silent, answered⟩ := reader.readLoop_eq_some_iff.mp loop
  exact reader.readLoop_eq_some_iff.mpr ⟨before, piece, after ++ more, by simp, silent, answered⟩

/-- A loop without an answer goes on from where it is. -/
theorem readLoop_append_of_none {pieces : List (List β)} (some_piece : pieces ≠ []) {state : σ}
    {carry : List β} (loop : reader.readLoop state carry pieces = none) (more : List (List β)) :
    reader.readLoop state carry (pieces ++ more) =
      reader.readLoop (feed reader.step state (carry ++ pieces.flatten)).state [] more := by
  induction pieces generalizing state carry with
  | nil => exact absurd rfl some_piece
  | cons piece pieces ih =>
    cases here : reader.answer (feed reader.step state (carry ++ piece)).state with
    | some answer =>
      rw [reader.readLoop_cons_of_some here] at loop
      cases loop
    | none =>
      rw [reader.readLoop_cons_of_none here] at loop
      rw [List.cons_append, reader.readLoop_cons_of_none here, List.flatten_cons, ← List.append_assoc,
        reader.feed_joined here]
      by_cases last : pieces = []
      · subst last
        rfl
      · exact ih last loop

theorem answerAt_persists (state : σ) (carry stream : List β) (early late : Nat) (le : early ≤ late)
    (answered : reader.answerAt state carry stream early ≠ none) :
    reader.answerAt state carry stream late ≠ none := by
  have split : stream.take late = stream.take early ++ (stream.take late).drop early := by
    conv_lhs => rw [← List.take_append_drop early (stream.take late)]
    rw [List.take_take, Nat.min_eq_left le]
  unfold answerAt
  rw [split, ← List.append_assoc]
  exact reader.answer_append answered _

/-- **Reading does not depend on the cutting exactly when the answer is settled.** -/
theorem readLoop_cut_iff {first full : Nat} (someRoom : 0 < first) (wide : first ≤ full)
    (state : σ) (carry stream : List β) :
    (∀ left right : List (List β), Cut first full stream left → Cut first full stream right →
        reader.readLoop state carry left = reader.readLoop state carry right) ↔
      Settled (reader.answerAt state carry stream) first full stream.length := by
  rw [← firstAnswer_cut_iff someRoom wide (reader.answerAt_persists state carry stream)]
  constructor
  · intro same left right leftFits rightFits leftSum rightSum
    have cut : ∀ sizes : List Nat, Fits first full sizes → sizes.sum = stream.length →
        Cut first full stream (sizes.splitLengths stream) ∧
          reader.readLoop state carry (sizes.splitLengths stream) =
            firstAnswer (reader.answerAt state carry stream) sizes := by
      intro sizes fits sum
      have joined : (sizes.splitLengths stream).flatten = stream :=
        List.flatten_splitLengths stream sizes sum.ge
      have lengths : (sizes.splitLengths stream).map List.length = sizes :=
        List.map_splitLengths_length stream sizes sum.le
      exact ⟨⟨joined, by rwa [lengths]⟩, by rw [reader.readLoop_eq, joined, lengths]⟩
    obtain ⟨leftCut, leftAnswer⟩ := cut left leftFits leftSum
    obtain ⟨rightCut, rightAnswer⟩ := cut right rightFits rightSum
    rw [← leftAnswer, ← rightAnswer]
    exact same _ _ leftCut rightCut
  · rintro same left right ⟨leftJoin, leftFits⟩ ⟨rightJoin, rightFits⟩
    rw [reader.readLoop_eq, reader.readLoop_eq, leftJoin, rightJoin]
    refine same _ _ leftFits rightFits ?_ ?_
    · rw [← List.length_flatten, leftJoin]
    · rw [← List.length_flatten, rightJoin]

/-! ### Answers at the end -/

/-- There is an answer after the whole stream, and none before. -/
structure EndsAt (state : σ) (stream : List β) (found : ρ) : Prop where
  silent : ∀ n < stream.length, reader.answer (feed reader.step state (stream.take n)).state = none
  answer : reader.answer (feed reader.step state stream).state = some found

namespace EndsAt

variable {reader} {state : σ} {front stream first second : List β} {input : β} {found : ρ}

/-- Nothing is answered before the last input if nothing is up to it. -/
theorem of_front (silent : reader.answer (feed reader.step state front).state = none)
    (answer : reader.answer (feed reader.step state (front ++ [input])).state = some found) :
    reader.EndsAt state (front ++ [input]) found := by
  refine ⟨fun n before => ?_, answer⟩
  rw [List.length_append, List.length_singleton] at before
  rw [List.take_append_of_le_length (by omega)]
  by_contra answered
  have later := reader.answer_append answered (front.drop n)
  rw [List.take_append_drop] at later
  exact later silent

/-- A start that is answered is no start of a stream that is answered at its end. -/
theorem not_early (early : reader.answer (feed reader.step state first).state ≠ none)
    (some_more : second ≠ []) : ¬reader.EndsAt state (first ++ second) found := by
  intro ends
  have longer : first.length < (first ++ second).length := by
    have := List.length_pos_iff.mpr some_more
    rw [List.length_append]
    omega
  have silent := ends.silent first.length longer
  rw [List.take_left] at silent
  exact early silent

theorem not_silent (silent : reader.answer (feed reader.step state stream).state = none) :
    ¬reader.EndsAt state stream found :=
  fun ends => Option.some_ne_none _ (ends.answer.symm.trans silent)

/-- The start of a stream at which the loop stops. -/
theorem stops_at {pieces : List (List β)} {other : ρ}
    (silent : ∀ n < stream.length, reader.answer (feed reader.step state (stream.take n)).state = none)
    (joined : pieces.flatten = stream) (loop : reader.readLoop state [] pieces = some other) :
    reader.answer (feed reader.step state stream).state = some other := by
  obtain ⟨before, piece, after, rfl, -, answered⟩ := reader.readLoop_eq_some_iff.mp loop
  rw [List.nil_append] at answered
  have parts : stream = (before.flatten ++ piece) ++ after.flatten := by
    rw [← joined]
    simp
  by_cases last : after.flatten = []
  · rwa [parts, last, List.append_nil]
  · have shorter : (before.flatten ++ piece).length < stream.length := by
      have more := List.length_pos_iff.mpr last
      have total : stream.length = (before.flatten ++ piece).length + after.flatten.length := by
        rw [parts, List.length_append]
      omega
    have none_yet := silent _ shorter
    rw [parts, List.take_left, answered] at none_yet
    cases none_yet

end EndsAt

/-- A stream in pieces of one input. -/
theorem cut_ones {first full : Nat} (someRoom : 0 < first) (wide : first ≤ full) (stream : List β) :
    Cut first full stream (stream.map fun input => [input]) := by
  have sizes : (stream.map fun input => [input]).map List.length =
      List.replicate stream.length 1 ++ [] := by
    rw [List.append_nil, List.map_map, List.eq_replicate_iff]
    simp
  refine ⟨by simp [← List.flatMap_def], ?_⟩
  rw [sizes]
  exact fits_ones someRoom wide _ trivial

/-- **The loop stops at the end of a stream, however it is cut,** exactly when there is no answer
before. -/
theorem readLoop_endsAt_iff {first full : Nat} (someRoom : 0 < first) (wide : first ≤ full) {state : σ}
    (waiting : reader.answer state = none) {stream : List β} (some_input : stream ≠ []) (found : ρ) :
    ((∀ pieces, Cut first full stream pieces → reader.readLoop state [] pieces = some found) ∧
        ∀ n < stream.length, ∀ pieces, Cut first full (stream.take n) pieces →
          reader.readLoop state [] pieces = none) ↔
      reader.EndsAt state stream found := by
  constructor
  · rintro ⟨whole, early⟩
    have silent : ∀ n < stream.length,
        reader.answer (feed reader.step state (stream.take n)).state = none := by
      intro n before
      by_cases start : stream.take n = []
      · rw [start]
        exact waiting
      · have cut := cut_ones someRoom wide (stream.take n)
        have some_piece : ((stream.take n).map fun input => [input]) ≠ [] := by simpa using start
        have answer := (reader.readLoop_eq_none_iff some_piece).mp (early n before _ cut)
        rwa [List.nil_append, cut.1] at answer
    have cut := cut_ones someRoom wide stream
    exact ⟨silent, EndsAt.stops_at silent cut.1 (whole _ cut)⟩
  · intro ends
    refine ⟨fun pieces cut => ?_, fun n before pieces cut => ?_⟩
    · cases loop : reader.readLoop state [] pieces with
      | some other =>
        have answer := EndsAt.stops_at ends.silent cut.1 loop
        rw [← answer, ends.answer]
      | none =>
        have some_piece : pieces ≠ [] := by
          rintro rfl
          exact some_input cut.1.symm
        have answer := (reader.readLoop_eq_none_iff some_piece).mp loop
        rw [List.nil_append, cut.1, ends.answer] at answer
        cases answer
    · by_cases no_piece : pieces = []
      · rw [no_piece]
        rfl
      · rw [reader.readLoop_eq_none_iff no_piece, List.nil_append, cut.1]
        exact ends.silent n before

end Reader

end ByteMachine
