/-
**What commands do to the list of connections.**

Once a thread has started only commands change `connections_`, and the log keeps the counts that were
commanded (`commanded`). `Grown` is what a part of a step does to both: the log gets longer, and if the
list is as long as the last count, it stays so.

* `setNumConnections_list`: after `setNumConnections` the list is as long as it was told;
* `Invariant.Holds.step_list`: **every step is `Grown`**, and `start_counted` that the thread starts so.
-/

import Apib.Lifecycle.Invariant
import Mathlib.Algebra.Group.Nat.Defs

namespace Apib

/-- The last count commanded; before the first command, the number to start with. -/
def commanded (cfg : Config) (log : List Entry) : Nat :=
  (log.filterMap fun
    | .setConnections count => some count
    | _ => none).getLast?.getD cfg.numConnections

/-- As many connections are listed as were last commanded. -/
def System.Counted (cfg : Config) (s : System) : Prop :=
  s.t.connections.length = commanded cfg s.t.log

/-- Calls of connections are all that is added to the log. -/
def AddsCalls (t t' : IOThread) : Prop :=
  ∃ calls : List (Nat × Event), t'.log = t.log ++ calls.map fun call => .conn call.1 call.2

/-- What a part of a step does to the log and the list: the log grows, and the count stays right. -/
structure Grown (cfg : Config) (s next : System) : Prop where
  log : s.t.log <+: next.t.log
  counted : s.Counted cfg → next.Counted cfg

section List

variable {cfg : Config} {s next last : System} {t t' t'' : IOThread}

theorem AddsCalls.refl : AddsCalls t t := ⟨[], by simp⟩

theorem AddsCalls.trans (first : AddsCalls t t') (second : AddsCalls t' t'') : AddsCalls t t'' := by
  obtain ⟨calls, log⟩ := first
  obtain ⟨more, log'⟩ := second
  exact ⟨calls ++ more, by rw [log', log, List.map_append, List.append_assoc]⟩

theorem AddsCalls.longer (adds : AddsCalls t t') : t.log <+: t'.log := by
  obtain ⟨calls, log⟩ := adds
  exact ⟨_, log.symm⟩

theorem Frame.addsCalls {x y : Ctx} (frame : Frame x y) : AddsCalls x.t y.t := by
  obtain ⟨events, log⟩ := frame.log
  exact ⟨events.map fun event => (x.c.id, event), by rw [log, List.map_map]; rfl⟩

/-- Calls command nothing. -/
theorem AddsCalls.commanded (adds : AddsCalls t t') : commanded cfg t'.log = commanded cfg t.log := by
  obtain ⟨calls, log⟩ := adds
  have none_here : ∀ calls : List (Nat × Event),
      (calls.map fun call => Entry.conn call.1 call.2).filterMap (fun
        | .setConnections count => some count
        | _ => none) = [] := by
    simp
  rw [log, Apib.commanded, Apib.commanded, List.filterMap_append, none_here, List.append_nil]

theorem commanded_setConnections (log : List Entry) (count : Nat) :
    commanded cfg (log ++ [.setConnections count]) = count := by
  simp [commanded]

theorem Grown.refl : Grown cfg s s := ⟨⟨[], List.append_nil _⟩, id⟩

theorem Grown.trans (first : Grown cfg s next) (second : Grown cfg next last) : Grown cfg s last :=
  ⟨first.log.trans second.log, second.counted ∘ first.counted⟩

/-- Calls alone keep the count right. -/
theorem Grown.of_calls (adds : AddsCalls s.t next.t) (listed : next.t.connections = s.t.connections) :
    Grown cfg s next :=
  ⟨adds.longer, fun counted => by rw [System.Counted, listed, adds.commanded]; exact counted⟩

theorem addConnections_list (cfg : Config) (envs : Nat → Env) (count : Nat) (s : System) :
    AddsCalls s.t (s.addConnections cfg envs count).t ∧
      (s.addConnections cfg envs count).t.connections.length = s.t.connections.length + count := by
  induction count generalizing s with
  | zero => exact ⟨.refl, rfl⟩
  | succ count ih =>
    obtain ⟨_, frame⟩ := Invariant.addConnection_frame cfg (envs s.heap.length) s
    obtain ⟨adds, grown⟩ := ih (s.addConnection cfg (envs s.heap.length))
    refine ⟨AddsCalls.trans frame.addsCalls adds, ?_⟩
    rw [System.addConnections, grown, frame.connections, List.length_append, List.length_singleton]
    omega

theorem removeConnection_list (s : System) : AddsCalls s.t s.removeConnection.t ∧
    s.removeConnection.t.connections.length = s.t.connections.length - 1 := by
  unfold System.removeConnection
  split
  · next none_left =>
    rw [List.getLast?_eq_none_iff] at none_left
    exact ⟨.refl, by simp [none_left]⟩
  · next id last => exact ⟨⟨[(id, .stopRunning)], rfl⟩, List.length_dropLast⟩

theorem removeConnections_list (count : Nat) (s : System) :
    AddsCalls s.t (s.removeConnections count).t ∧
      (s.removeConnections count).t.connections.length = s.t.connections.length - count := by
  induction count generalizing s with
  | zero => exact ⟨.refl, rfl⟩
  | succ count ih =>
    obtain ⟨adds, shrunk⟩ := removeConnection_list s
    obtain ⟨more, rest⟩ := ih s.removeConnection
    refine ⟨adds.trans more, ?_⟩
    rw [System.removeConnections, rest, shrunk]
    omega

/-- **After `setNumConnections` as many connections are listed as it was told.** -/
theorem setNumConnections_list (cfg : Config) (envs : Nat → Env) (newVal : Nat) (s : System) :
    let next := s.setNumConnections cfg envs newVal
    AddsCalls { s.t with log := s.t.log ++ [.setConnections newVal] } next.t ∧
      next.t.connections.length = newVal := by
  unfold System.setNumConnections
  dsimp only
  split
  · obtain ⟨adds, grown⟩ := addConnections_list cfg envs (newVal - s.t.connections.length)
      { s with t.log := s.t.log ++ [Entry.setConnections newVal] }
    refine ⟨adds, grown.trans ?_⟩
    dsimp only
    omega
  · obtain ⟨adds, shrunk⟩ := removeConnections_list (s.t.connections.length - newVal)
      { s with t.log := s.t.log ++ [Entry.setConnections newVal] }
    refine ⟨adds, shrunk.trans ?_⟩
    dsimp only
    omega

theorem setNumConnections_commanded (envs : Nat → Env) (newVal : Nat) (s : System) :
    commanded cfg (s.setNumConnections cfg envs newVal).t.log = newVal := by
  rw [(setNumConnections_list cfg envs newVal s).1.commanded]
  exact commanded_setConnections _ _

/-- The count commanded is the one in the command, if that fits. -/
theorem commanded_command (envs : Nat → Env) (count : Nat) (fits : count < 2 ^ 64) (s : System) :
    commanded cfg (s.processCommand cfg envs (.setConnections count)).t.log = count := by
  have size : System.toSize count = count := by
    unfold System.toSize
    omega
  rw [System.processCommand, size, setNumConnections_commanded]

theorem foldCommands_list (envs : Nat → Env) (commands : List Command) (s : System) :
    Grown cfg s (commands.foldl (System.processCommand cfg envs) s) := by
  induction commands generalizing s with
  | nil => exact .refl
  | cons cmd rest ih =>
    refine Grown.trans ?_ (ih _)
    cases cmd with
    | stop =>
      refine ⟨⟨_, rfl⟩, fun counted => ?_⟩
      simpa [System.processCommand, System.Counted, commanded] using counted
    | setConnections count =>
      obtain ⟨adds, listed⟩ := setNumConnections_list cfg envs (System.toSize count) s
      exact ⟨List.IsPrefix.trans ⟨_, rfl⟩ adds.longer,
        fun _ => listed.trans (setNumConnections_commanded envs _ s).symm⟩

/-- **A step adds to the log and keeps the count of connections right.** -/
theorem Invariant.Holds.step_list {gate : Gate} {inv : Invariant cfg gate} (holds : inv.Holds s)
    (input : System.Input) (taken : s.step cfg input = some next) : Grown cfg s next := by
  have callback : ∀ id, (s.heap[id]?.bind fun c =>
      (System.callback cfg (s.ctx c) input).map (s.put id)) = some next → Grown cfg s next := by
    intro id called
    obtain ⟨c, y, p, found, now, leads, rfl⟩ := System.callback_taken holds called
    have frame := leads.frame
    exact .of_calls frame.addsCalls frame.connections
  cases input with
  | write id | read id | shutdown id | timer id => exact callback id taken
  | async envs =>
    cases taken
    have took : Grown cfg s { s with t.commands := [] } := .of_calls .refl rfl
    exact took.trans (foldCommands_list envs _ _)
  | command cmd =>
    cases taken
    exact .of_calls .refl rfl
  | hardShutdown =>
    simp only [System.step] at taken
    split at taken
    · cases taken
      exact .of_calls .refl rfl
    · cases taken

/-- The thread starts with the number of connections it is to have. -/
theorem start_counted (reporting : Bool) (envs : Nat → Env) :
    (System.start cfg reporting envs).Counted cfg := by
  obtain ⟨adds, grown⟩ := addConnections_list cfg envs cfg.numConnections
    (System.initial cfg reporting)
  have counted : ((System.initial cfg reporting).addConnections cfg envs cfg.numConnections).Counted
      cfg := by
    rw [System.Counted, grown, adds.commanded]
    simp [System.initial, commanded]
  unfold System.start
  dsimp only
  split <;> exact counted

end List

end Apib
