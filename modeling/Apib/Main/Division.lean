/-
**How connections are divided over the threads.**

`initializeThread` divides by the number of threads, which `main` clamps to the number of connections.

* `clampThreads_zero_iff`: there are no threads exactly where there are no connections;
* `divided_iff`: **the division is sound** exactly unless the program is run once without a connection:
  with `-1` it makes a thread whatever the number of threads.
-/

import Mathlib.Algebra.BigOperators.Ring.Finset
import Apib.Library.Dealing
import Apib.Main.Threads

namespace Apib.Main

/-- No thread is initialized with a division by zero, and all connections are divided over the threads
evenly, at least one for each. -/
structure Divided (o : Options) : Prop where
  divisor : ∀ ix ∈ o.threadIndices, o.clampThreads ≠ 0
  total : o.justOnce = false → 0 ≤ o.numConnections →
    (o.threadIndices.map o.numConn).sum = o.numConnections
  some_each : o.justOnce = false → 0 ≤ o.numConnections → ∀ ix ∈ o.threadIndices, 1 ≤ o.numConn ix
  level : o.justOnce = false → 0 ≤ o.numConnections →
    ∀ ix ∈ o.threadIndices, ∀ other ∈ o.threadIndices, o.numConn ix ≤ o.numConn other + 1

namespace Options

variable {o : Options}

theorem clampThreads_zero_iff (some_cpu : 1 ≤ o.cpuCount) :
    o.clampThreads = 0 ↔ o.numConnections = 0 := by
  unfold clampThreads
  dsimp only
  split <;> split <;> omega

/-- With `-1` there is one thread; otherwise there are as many as `main` has clamped to. -/
theorem mem_threadIndices {ix : Nat} :
    ix ∈ o.threadIndices ↔ if o.justOnce then ix = 0 else (ix : Int) < o.clampThreads := by
  unfold threadIndices
  split
  · exact List.mem_singleton
  · rw [List.mem_range]
    omega

/-- The connections of a thread, dealt out to it. -/
theorem numConn_dealt (some_conn : 0 ≤ o.numConnections) (made : 0 < o.clampThreads) (ix : Nat) :
    o.numConn ix = Dealing.dealt o.clampThreads.toNat o.numConnections.toNat ix := by
  have threads : o.clampThreads = (o.clampThreads.toNat : Int) := by omega
  have connections : o.numConnections = (o.numConnections.toNat : Int) := by omega
  generalize o.clampThreads.toNat = k at threads
  generalize o.numConnections.toNat = count at connections
  have quotient : (count : Int).tdiv k = (count / k : Nat) := rfl
  have remainder : (count : Int).tmod k = (count % k : Nat) := rfl
  rw [numConn, threads, connections, quotient, remainder, Dealing.dealt]
  simp only [Int.ofNat_lt]
  split
  · rfl
  · rfl

end Options

variable {o : Options}

/-- Several threads share all connections. -/
theorem total_dealt (many : o.justOnce = false) (made : 0 < o.clampThreads)
    (some_conn : 0 ≤ o.numConnections) : (o.threadIndices.map o.numConn).sum = o.numConnections := by
  have each : o.threadIndices.map o.numConn =
      ((List.range o.clampThreads.toNat).map
        (Dealing.dealt o.clampThreads.toNat o.numConnections.toNat)).map fun n : Nat => (n : Int) := by
    rw [List.map_map, Options.threadIndices, many]
    exact List.map_congr_left fun ix _ => Options.numConn_dealt some_conn made ix
  have dealt := Dealing.sum_dealt (show 0 < o.clampThreads.toNat by omega) o.numConnections.toNat
  rw [each, ← Nat.cast_list_sum, dealt]
  omega

/-- **The division is sound** unless the program is run once without a connection. -/
theorem divided_iff (o : Options) (some_cpu : 1 ≤ o.cpuCount) :
    Divided o ↔ ¬ (o.justOnce = true ∧ o.numConnections = 0) := by
  have zero := Options.clampThreads_zero_iff some_cpu
  have fewer : o.clampThreads ≤ o.numConnections := Options.clampThreads_le
  constructor
  · rintro divided ⟨just_once, no_conn⟩
    have made : 0 ∈ o.threadIndices := Options.mem_threadIndices.mpr (by rw [just_once]; rfl)
    exact divided.divisor 0 made (zero.mpr no_conn)
  · intro sound
    have inside (many : o.justOnce = false) {ix : Nat} (member : ix ∈ o.threadIndices) :
        (ix : Int) < o.clampThreads := by
      simpa [many] using Options.mem_threadIndices.mp member
    refine ⟨fun ix member no_thread => ?_, fun many some_conn => ?_, fun many some_conn ix member => ?_,
      fun many some_conn ix member other other_member => ?_⟩
    · cases many : o.justOnce with
      | true => exact sound ⟨many, zero.mp no_thread⟩
      | false =>
        have below := inside many member
        omega
    · by_cases made : 0 < o.clampThreads
      · exact total_dealt many made some_conn
      · -- without a connection there is no thread
        have no_conn : o.numConnections = 0 := zero.mp (by
          have positive := Options.clampThreads_pos (o := o)
          omega)
        have none_made : o.clampThreads = 0 := zero.mpr no_conn
        rw [Options.threadIndices, many, none_made, no_conn]
        rfl
    · have below := inside many member
      have share : 1 ≤ o.numConnections.toNat / o.clampThreads.toNat :=
        Nat.div_pos (by omega) (by omega)
      have least := Dealing.le_dealt o.clampThreads.toNat o.numConnections.toNat ix
      rw [Options.numConn_dealt some_conn (by omega)]
      omega
    · have below := inside many member
      have most := Dealing.dealt_le o.clampThreads.toNat o.numConnections.toNat ix
      have least := Dealing.le_dealt o.clampThreads.toNat o.numConnections.toNat other
      rw [Options.numConn_dealt some_conn (by omega), Options.numConn_dealt some_conn (by omega)]
      omega

/-- The options `-c` and `-K`, with or without `-1`. -/
def divisionOptions (numConnections numThreads : Int) (justOnce : Bool) : Options where
  numConnections := numConnections
  numThreads := numThreads
  justOnce := justOnce
  cpuCount := 4
  urls := [{ path := ascii "/", hostName := ascii "a", hostHeader := ascii "a", addresses := [] }]
  some_url := List.cons_ne_nil _ _

theorem divided_example : Divided (divisionOptions 10 3 false) :=
  (divided_iff (divisionOptions 10 3 false) (by decide)).mpr (by decide)

/-- **`-1 -c 0` divides by zero.** -/
theorem once_without_connections : ¬ Divided (divisionOptions 0 3 true) := fun divided =>
  divided.divisor 0 (by decide) (by decide)

end Apib.Main
