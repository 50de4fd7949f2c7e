/-
**CPU usage of intervals.**

`cpu_GetUsage` and `cpu_GetInterval` of `apib_cpu_proc.cc`. The first takes the ticks so far; every call
of the second answers with the share of the ticks since then that were not idle, and keeps the new ticks.

* The ratio is computed in exact arithmetic. Subtracting counts is taken to wrap around, as adding is.
* `getInterval_fails`: a reading without ticks answers zero and leaves what was kept;
* `getInterval_gives`: with ticks, it answers the share of the increase since what was kept;
* `intervals_telescope`: **over any sequence of readings, each call answers the share of the increase
  since the last reading with ticks**, and the increases add up to the increase over the whole sequence.
-/

import Apib.Cpu.Ticks
import Mathlib.Algebra.BigOperators.Group.List.Basic
import Mathlib.Algebra.Order.Field.Rat
import Mathlib.Data.List.Chain
import Mathlib.Data.List.ReduceOption

namespace Apib.Cpu

open Numerals

/-- A `CPUUsage`. -/
structure CPUUsage where
  idle : Int
  nonIdle : Int
  timestamp : Int
  deriving DecidableEq, Repr

/-- What one call meets: what `malloc` gives, `/proc/stat` if it can be opened, and the time. -/
structure Reading where
  memory : Vector UInt8 procBufLen
  stat : Option Bytes
  time : Int

/-- `usageTicks` and `allUsageTicks`. -/
structure Ticks where
  usage : Int
  all : Int
  deriving DecidableEq, Repr

/-- The ticks since those that were kept. -/
def ticksSince (oldCpu cpu : CPUUsage) : Ticks :=
  let idleTicks := int64 (cpu.idle - oldCpu.idle)
  let usageTicks := int64 (cpu.nonIdle - oldCpu.nonIdle)
  ⟨usageTicks, int64 (idleTicks + usageTicks)⟩

/-- The ratio that is returned. -/
def Ticks.ratio (t : Ticks) : ℚ := if t.all = 0 then 0 else (t.usage : ℚ) / (t.all : ℚ)

section Calls

variable (simpleAtoi : Bytes → Option Int)

/-- The function `cpu_GetUsage`; what `getTicks` answers is not looked at. -/
def getUsage (usage : CPUUsage) (r : Reading) : CPUUsage :=
  match getTicks simpleAtoi r.memory r.stat with
  | none => { usage with timestamp := r.time }
  | some n => ⟨n.idleCount, n.nonIdleCount, r.time⟩

/-- The function `cpu_GetInterval`. -/
def getInterval (oldCpu : CPUUsage) (r : Reading) : ℚ × CPUUsage :=
  match getTicks simpleAtoi r.memory r.stat with
  | none => (0, oldCpu)
  | some n =>
    let cpu : CPUUsage := ⟨n.idleCount, n.nonIdleCount, r.time⟩
    ((ticksSince oldCpu cpu).ratio, cpu)

/-- One call after the other, each with what it answers and what is kept after it. -/
def intervals : CPUUsage → List Reading → List (ℚ × CPUUsage)
  | _, [] => []
  | oldCpu, r :: later =>
    let (ratio, cpu) := getInterval simpleAtoi oldCpu r
    (ratio, cpu) :: intervals cpu later

end Calls

/-- The ticks from one kept count to the next. -/
def ticksOf : CPUUsage → List (ℚ × CPUUsage) → List Ticks
  | _, [] => []
  | oldCpu, (_, cpu) :: later => ticksSince oldCpu cpu :: ticksOf cpu later

/-! ### What is to be answered -/

/-- The columns that a reading shows, and its time. -/
structure Sample where
  columns : List Nat
  time : Int

/-- The columns that do not count as idle. -/
def Sample.busy (s : Sample) : Nat := busyFrom 0 s.columns

/-- All columns. -/
def Sample.total (s : Sample) : Nat := s.columns.sum

/-- A sample as it is kept. -/
def Sample.usage (s : Sample) : CPUUsage := ⟨idleFrom 0 s.columns, s.busy, s.time⟩

/-- The share of the increase between two samples that is not idle. -/
def share (last now : Sample) : ℚ :=
  if now.total = last.total then 0 else ((now.busy : ℚ) - last.busy) / ((now.total : ℚ) - last.total)

/-- What the calls are to answer, and what is to be kept. -/
def expected : Sample → List (Option Sample) → List (ℚ × CPUUsage)
  | _, [] => []
  | last, none :: later => (0, last.usage) :: expected last later
  | last, some now :: later => (share last now, now.usage) :: expected now later

/-- What a reading shows: the columns of an aggregate line, or that there is none. -/
def Shows (r : Reading) : Option Sample → Prop
  | none => ∀ content, r.stat = some content → aggregate content = none
  | some s => s.time = r.time ∧ ∃ content line, r.stat = some content ∧ aggregate content = some line ∧
      HasColumns line s.columns

/-- The kernel's columns: as many each time, none of which decreases, with a sum of type `int64_t`. -/
structure Kernel (samples : List Sample) : Prop where
  grows : samples.IsChain fun last now => List.Forall₂ (· ≤ ·) last.columns now.columns
  fits : ∀ s ∈ samples, s.total < 2 ^ 63

theorem Kernel.tail {last now : Sample} {later : List Sample} (kernel : Kernel (last :: now :: later)) :
    List.Forall₂ (· ≤ ·) last.columns now.columns ∧ Kernel (now :: later) := by
  obtain ⟨grows, rest⟩ := List.isChain_cons_cons.mp kernel.grows
  exact ⟨grows, rest, fun s member => kernel.fits s (List.mem_cons_of_mem _ member)⟩

/-! ### One call -/

/-- **No side of the columns decreases.** -/
theorem idleFrom_le {last now : List Nat} (grows : List.Forall₂ (· ≤ ·) last now) (i : Nat) :
    idleFrom i last ≤ idleFrom i now := by
  induction grows generalizing i with
  | nil => exact Nat.le_refl _
  | cons first _ ih =>
    have later := ih (i + 1)
    rw [idleFrom_cons, idleFrom_cons]
    split
    · omega
    · omega

theorem busyFrom_le {last now : List Nat} (grows : List.Forall₂ (· ≤ ·) last now) (i : Nat) :
    busyFrom i last ≤ busyFrom i now := by
  induction grows generalizing i with
  | nil => exact Nat.le_refl _
  | cons first _ ih =>
    have later := ih (i + 1)
    rw [busyFrom_cons, busyFrom_cons]
    split
    · omega
    · omega

theorem int64_of_range {n : Int} (low : 0 ≤ n) (high : n < 2 ^ 63) : int64 n = n :=
  Int.bmod_eq_of_le (by omega) (by omega)

section Samples

variable {last now : Sample} (grows : List.Forall₂ (· ≤ ·) last.columns now.columns)
include grows

theorem Sample.busy_le : last.busy ≤ now.busy := busyFrom_le grows 0

/-- The increase of the columns that are not idle is part of the whole. -/
theorem Sample.busy_sub_le : (now.busy : Int) - last.busy ≤ now.total - last.total := by
  have idle := idleFrom_le grows 0
  have last_sum := idleFrom_add_busyFrom 0 last.columns
  have now_sum := idleFrom_add_busyFrom 0 now.columns
  simp only [Sample.busy, Sample.total]
  omega

/-- **The ticks between two samples** are the increases. -/
theorem ticksSince_usage (fits : now.total < 2 ^ 63) :
    ticksSince last.usage now.usage = ⟨now.busy - last.busy, now.total - last.total⟩ := by
  have idle := idleFrom_le grows 0
  have busy := busyFrom_le grows 0
  have last_sum := idleFrom_add_busyFrom 0 last.columns
  have now_sum := idleFrom_add_busyFrom 0 now.columns
  simp only [Sample.total] at fits
  have idle_ticks : int64 ((idleFrom 0 now.columns : Int) - idleFrom 0 last.columns) =
      (idleFrom 0 now.columns : Int) - idleFrom 0 last.columns :=
    int64_of_range (by omega) (by omega)
  have usage_ticks : int64 ((busyFrom 0 now.columns : Int) - busyFrom 0 last.columns) =
      (busyFrom 0 now.columns : Int) - busyFrom 0 last.columns :=
    int64_of_range (by omega) (by omega)
  simp only [ticksSince, Sample.usage, Sample.busy, Sample.total, idle_ticks, usage_ticks]
  congr 1
  rw [int64_of_range (by omega) (by omega)]
  omega

theorem ratio_usage (fits : now.total < 2 ^ 63) :
    (ticksSince last.usage now.usage).ratio = share last now := by
  rw [ticksSince_usage grows fits, Ticks.ratio, share]
  by_cases same : now.total = last.total
  · rw [if_pos same, if_pos (by simp only; omega)]
  · rw [if_neg same, if_neg (by simp only; omega)]
    push_cast
    rfl

/-- **A share is between 0 and 1.** -/
theorem share_mem : 0 ≤ share last now ∧ share last now ≤ 1 := by
  unfold share
  split
  case isTrue => exact ⟨le_refl 0, zero_le_one⟩
  case isFalse other =>
    have busy : (last.busy : ℚ) ≤ now.busy := by exact_mod_cast Sample.busy_le grows
    have part : (now.busy : ℚ) - last.busy ≤ now.total - last.total := by
      exact_mod_cast Sample.busy_sub_le grows
    have some_tick : (0 : ℚ) ≤ now.total - last.total := le_trans (sub_nonneg.mpr busy) part
    exact ⟨div_nonneg (sub_nonneg.mpr busy) some_tick, div_le_one_of_le₀ part some_tick⟩

end Samples

section Sequences

variable {simpleAtoi : Bytes → Option Int}

/-- **A reading without ticks** answers zero and leaves what was kept. -/
theorem getInterval_fails {r : Reading} (shown : Shows r none) (oldCpu : CPUUsage) :
    getInterval simpleAtoi oldCpu r = (0, oldCpu) := by
  rw [getInterval, getTicks_fails r.memory shown]

section Gives

variable (decimal : ReadsDecimal simpleAtoi) {r : Reading} {now : Sample}
variable (shown : Shows r (some now)) (fits : now.total < 2 ^ 63)
include decimal shown fits

theorem getTicks_shown : getTicks simpleAtoi r.memory r.stat =
    some ⟨now.columns.length, idleFrom 0 now.columns, now.busy⟩ := by
  obtain ⟨-, content, line, opened, found, has⟩ := shown
  rw [opened]
  exact getTicks_gives decimal r.memory found has fits

/-- The first call keeps the sample. -/
theorem getUsage_gives (usage : CPUUsage) : getUsage simpleAtoi usage r = now.usage := by
  have same_time := shown.1
  rw [getUsage, getTicks_shown decimal shown fits, ← same_time]
  rfl

/-- **A reading with ticks** answers the share of the increase and keeps the sample. -/
theorem getInterval_gives {last : Sample}
    (grows : List.Forall₂ (· ≤ ·) last.columns now.columns) :
    getInterval simpleAtoi last.usage r = (share last now, now.usage) := by
  have same_time := shown.1
  rw [getInterval, getTicks_shown decimal shown fits, ← same_time]
  exact congrArg (·, now.usage) (ratio_usage grows fits)

end Gives

/-- The calls of a sequence answer the shares, and keep the samples. -/
theorem intervals_eq (decimal : ReadsDecimal simpleAtoi) {later : List Reading}
    {samples : List (Option Sample)} (each : List.Forall₂ Shows later samples) {last : Sample}
    (kernel : Kernel (last :: samples.reduceOption)) :
    intervals simpleAtoi last.usage later = expected last samples := by
  induction each generalizing last with
  | nil => rfl
  | @cons r sample later samples shown _ ih =>
    cases sample with
    | none =>
      rw [intervals, getInterval_fails shown, expected]
      exact congrArg _ (ih kernel)
    | some now =>
      obtain ⟨grows, kernel_later⟩ := kernel.tail
      have given := getInterval_gives decimal shown
        (kernel_later.fits now List.mem_cons_self) grows
      rw [intervals, given, expected]
      exact congrArg _ (ih kernel_later)

end Sequences

/-! ### The whole sequence -/

/-- The last sample of a sequence. -/
def final (last : Sample) (samples : List (Option Sample)) : Sample :=
  (last :: samples.reduceOption).getLast (List.cons_ne_nil _ _)

theorem final_some (last now : Sample) (samples : List (Option Sample)) :
    final last (some now :: samples) = final now samples :=
  List.getLast_cons (List.cons_ne_nil _ _)

/-- Nothing is counted between a sample and itself. -/
theorem ticksSince_same {last : Sample} (fits : last.total < 2 ^ 63) :
    ticksSince last.usage last.usage = ⟨0, 0⟩ := by
  rw [ticksSince_usage (List.forall₂_refl _) fits, sub_self, sub_self]

section Expected

variable {last : Sample} {samples : List (Option Sample)} (kernel : Kernel (last :: samples.reduceOption))
include kernel

theorem expected_mem : ∀ call ∈ expected last samples, 0 ≤ call.1 ∧ call.1 ≤ 1 := by
  induction samples generalizing last with
  | nil => simp [expected]
  | cons sample samples ih =>
    cases sample with
    | none =>
      intro call member
      rcases List.mem_cons.mp member with rfl | later
      · exact ⟨le_refl 0, zero_le_one⟩
      · exact ih kernel call later
    | some now =>
      obtain ⟨grows, kernel_later⟩ := kernel.tail
      intro call member
      rcases List.mem_cons.mp member with rfl | later
      · exact share_mem grows
      · exact ih kernel_later call later

/-- **Each answer is the ratio of the ticks counted**, and those add up to the increase. -/
theorem ticksOf_expected :
    (expected last samples).map Prod.fst =
        (ticksOf last.usage (expected last samples)).map Ticks.ratio ∧
      ((ticksOf last.usage (expected last samples)).map Ticks.usage).sum =
        (final last samples).busy - last.busy ∧
      ((ticksOf last.usage (expected last samples)).map Ticks.all).sum =
        (final last samples).total - last.total := by
  induction samples generalizing last with
  | nil => simp [expected, ticksOf, final]
  | cons sample samples ih =>
    cases sample with
    | none =>
      have fits := kernel.fits last List.mem_cons_self
      obtain ⟨ratios, usages, alls⟩ := ih kernel
      simp only [expected, ticksOf, ticksSince_same fits, List.map_cons, List.sum_cons]
      refine ⟨?_, ?_, ?_⟩
      · rw [ratios]
        rfl
      · rw [usages, zero_add]
        rfl
      · rw [alls, zero_add]
        rfl
    | some now =>
      obtain ⟨grows, kernel_later⟩ := kernel.tail
      have fits := kernel_later.fits now List.mem_cons_self
      obtain ⟨ratios, usages, alls⟩ := ih kernel_later
      simp only [expected, ticksOf, List.map_cons, List.sum_cons, final_some]
      refine ⟨?_, ?_, ?_⟩
      · rw [ratios, ratio_usage grows fits]
      · rw [usages, ticksSince_usage grows fits]
        simp only
        omega
      · rw [alls, ticksSince_usage grows fits]
        simp only
        omega

end Expected

/-- **CPU accounting telescopes.** After a reading with ticks, each call answers the share of the
increase since the last one with ticks, or zero when it has none, and keeps the last sample; every
answer is between 0 and 1, and the ticks counted add up to the increase over the whole sequence. -/
theorem intervals_telescope {simpleAtoi : Bytes → Option Int} (decimal : ReadsDecimal simpleAtoi)
    {first : Reading} {sample : Sample} (shown : Shows first (some sample))
    {later : List Reading} {samples : List (Option Sample)} (each : List.Forall₂ Shows later samples)
    (kernel : Kernel (sample :: samples.reduceOption)) (usage : CPUUsage) :
    let start := getUsage simpleAtoi usage first
    let calls := intervals simpleAtoi start later
    start = sample.usage ∧ calls = expected sample samples ∧
      (∀ call ∈ calls, 0 ≤ call.1 ∧ call.1 ≤ 1) ∧
      calls.map Prod.fst = (ticksOf start calls).map Ticks.ratio ∧
      ((ticksOf start calls).map Ticks.usage).sum = (final sample samples).busy - sample.busy ∧
      ((ticksOf start calls).map Ticks.all).sum = (final sample samples).total - sample.total := by
  have start_eq := getUsage_gives decimal shown (kernel.fits sample List.mem_cons_self) usage
  have calls_eq := intervals_eq decimal each kernel
  simp only [start_eq, calls_eq]
  exact ⟨trivial, trivial, expected_mem kernel, ticksOf_expected kernel⟩

/-- Reads the decimal numbers of type `int64_t`. -/
def decimalAtoi (text : Bytes) : Option Int :=
  if text ≠ [] ∧ IsDecimal text ∧ number 10 text < 2 ^ 63 then some (number 10 text) else none

theorem decimalAtoi_reads : ReadsDecimal decimalAtoi :=
  fun _ some_digit digits small => if_pos ⟨some_digit, digits, small⟩

/-- A reading of some text. -/
def reads (text : String) (time : Int) : Reading :=
  ⟨Vector.replicate procBufLen 0, some (ascii text), time⟩

theorem intervals_telescope_example :
    (intervals decimalAtoi (getUsage decimalAtoi ⟨0, 0, 0⟩ (reads "cpu  10 0 5 80 5\nintr 7\n" 1))
      [⟨Vector.replicate procBufLen 0, none, 2⟩, reads "cpu  16 0 9 90 5 \ncpu0 8 0\n" 3]).map
        Prod.fst = [0, 1 / 2] := by
  have each : List.Forall₂ Shows
      [⟨Vector.replicate procBufLen 0, none, 2⟩, reads "cpu  16 0 9 90 5 \ncpu0 8 0\n" 3]
      [none, some ⟨[16, 0, 9, 90, 5], 3⟩] := by
    have second : Shows (reads "cpu  16 0 9 90 5 \ncpu0 8 0\n" 3) (some ⟨[16, 0, 9, 90, 5], 3⟩) :=
      ⟨rfl, _, ascii "cpu  16 0 9 90 5 ", rfl, by decide,
        [ascii "16", ascii "0", ascii "9", ascii "90", ascii "5"], by decide, isDecimal_of_all (by decide),
        by decide⟩
    exact .cons (fun content opened => absurd opened (by simp)) (.cons second .nil)
  have shown : Shows (reads "cpu  10 0 5 80 5\nintr 7\n" 1) (some ⟨[10, 0, 5, 80, 5], 1⟩) :=
    ⟨rfl, _, ascii "cpu  10 0 5 80 5", rfl, by decide,
      [ascii "10", ascii "0", ascii "5", ascii "80", ascii "5"], by decide, isDecimal_of_all (by decide),
      by decide⟩
  have kernel : Kernel (⟨[10, 0, 5, 80, 5], 1⟩ :: [none, some ⟨[16, 0, 9, 90, 5], 3⟩].reduceOption) :=
    ⟨by simp [List.reduceOption], by simp [List.reduceOption, Sample.total]⟩
  obtain ⟨-, calls, -⟩ := intervals_telescope decimalAtoi_reads shown each kernel ⟨0, 0, 0⟩
  rw [calls]
  norm_num [expected, share, Sample.busy, Sample.total, busyFrom, isIdle]

end Apib.Cpu
