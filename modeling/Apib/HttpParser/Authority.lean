/-
**The authority of a URL.**

What `http_parse_host` accepts: a user before an `@`, a name or an address in brackets, and a port behind
a colon, the first and the last of them if they are there.

* `Authority`, `Authority.render`: such an authority, and its text;
* `host_authority`: **the fields of the text**: the host, without the brackets, and the port;
* `exists_authority`: and every text that is accepted is one of an authority.
-/

import Apib.HttpParser.UrlAccepted

namespace Apib.HttpParser

/-! ### Single characters -/

section Chars

variable {strict : Bool} {ch : UInt8}

theorem chr_open : chr '[' = 91 := by decide
theorem chr_close : chr ']' = 93 := by decide
theorem chr_percent : chr '%' = 37 := by decide
theorem chr_dot : chr '.' = 46 := by decide

/-- The states in brackets. -/
def InBrackets (s : HostState) : Prop := s = .v6 ∨ s = .v6ZoneStart ∨ s = .v6Zone

/-- No delimiter is a character of a user. -/
theorem userinfoChar_delimiters (ok : isUserinfoChar ch = true) :
    ch ≠ 47 ∧ ch ≠ 63 ∧ ch ≠ 64 ∧ ch ≠ 91 ∧ ch ≠ 93 := by
  have each : ∀ ch : UInt8, isUserinfoChar ch = true → ch ≠ 47 ∧ ch ≠ 63 ∧ ch ≠ 64 ∧ ch ≠ 91 ∧ ch ≠ 93 :=
    Numerals.forall_byte (by decide +kernel)
  exact each ch ok

/-- The characters of a name. -/
theorem hostChar_plain (ok : isHostChar strict ch = true) :
    isUserinfoChar ch = true ∧ ch ≠ 58 ∧ ch ≠ 37 ∧ ch ≠ 91 := by
  have each : ∀ ch : UInt8, ∀ strict, isHostChar strict ch = true →
      isUserinfoChar ch = true ∧ ch ≠ 58 ∧ ch ≠ 37 ∧ ch ≠ 91 := Numerals.forall_byte (by decide +kernel)
  exact each ch strict ok

/-- The characters of a port. -/
theorem num_userinfoChar (ok : isNum ch = true) : isUserinfoChar ch = true := by
  unfold isUserinfoChar isAlphaNum
  simp [ok]

/-- The characters of an address. -/
theorem hex_chars (ok : isHex ch = true ∨ ch = 58 ∨ ch = 46) :
    isUserinfoChar ch = true ∧ (ch ≠ 58 → isHostChar strict ch = true) := by
  have each : ∀ ch : UInt8, ∀ strict, (isHex ch = true ∨ ch = 58 ∨ ch = 46) →
      isUserinfoChar ch = true ∧ (ch ≠ 58 → isHostChar strict ch = true) :=
    Numerals.forall_byte (by decide +kernel)
  exact each ch strict ok

/-- The characters of a zone. -/
theorem zone_chars (ok : isAlphaNum ch = true ∨ (ascii "%.-_~").contains ch = true) :
    isUserinfoChar ch = true := by
  have each : ∀ ch : UInt8, (isAlphaNum ch = true ∨ (ascii "%.-_~").contains ch = true) →
      isUserinfoChar ch = true := Numerals.forall_byte (by decide +kernel)
  exact each ch ok

/-! ### Single steps -/

variable {s : HostState}

theorem host_user_next (on : s = .userinfoStart ∨ s = .userinfo) (ok : isUserinfoChar ch = true) :
    parseHostChar strict s ch = .userinfo := by
  have other := (userinfoChar_delimiters ok).2.2.1
  have sign := chr_at
  unfold parseHostChar onUserinfo
  grind

theorem host_user_cases (on : s = .userinfoStart ∨ s = .userinfo) (alive : parseHostChar strict s ch ≠ .dead) :
    (ch = 64 ∧ parseHostChar strict s ch = .hostStart) ∨
      (isUserinfoChar ch = true ∧ parseHostChar strict s ch = .userinfo) := by
  have sign := chr_at
  unfold parseHostChar onUserinfo at alive ⊢
  grind

theorem host_user_end (on : s = .userinfoStart ∨ s = .userinfo) :
    parseHostChar strict s 64 = .hostStart := by
  have sign := chr_at
  unfold parseHostChar onUserinfo
  grind

theorem host_name_next (ok : isHostChar strict ch = true) :
    parseHostChar strict .hostStart ch = .host ∧ parseHostChar strict .host ch = .host := by
  have other := (hostChar_plain ok).2.2.2
  have bracket := chr_open
  simp only [parseHostChar]
  grind

theorem host_start_cases (alive : parseHostChar strict .hostStart ch ≠ .dead) :
    (ch = 91 ∧ parseHostChar strict .hostStart ch = .v6Start) ∨
      (isHostChar strict ch = true ∧ parseHostChar strict .hostStart ch = .host) := by
  have bracket := chr_open
  simp only [parseHostChar] at alive ⊢
  grind

theorem host_name_cases (alive : parseHostChar strict .host ch ≠ .dead) :
    (isHostChar strict ch = true ∧ parseHostChar strict .host ch = .host) ∨
      (ch = 58 ∧ parseHostChar strict .host ch = .portStart) := by
  have colon := chr_colon
  simp only [parseHostChar, onV6End] at alive ⊢
  grind

theorem host_end_cases (alive : parseHostChar strict .v6End ch ≠ .dead) :
    ch = 58 ∧ parseHostChar strict .v6End ch = .portStart := by
  have colon := chr_colon
  simp only [parseHostChar, onV6End] at alive ⊢
  grind

theorem host_port_start (on : s = .host ∨ s = .v6End) : parseHostChar strict s 58 = .portStart := by
  have colon := chr_colon
  have no_name : isHostChar strict 58 = false := by
    by_contra name
    exact (hostChar_plain (by simpa using name)).2.1 rfl
  rcases on with rfl | rfl
  · simp [parseHostChar, onV6End, no_name, colon]
  · simp [parseHostChar, onV6End, colon]

theorem host_port_next (on : s = .portStart ∨ s = .port) (ok : isNum ch = true) :
    parseHostChar strict s ch = .port := by
  unfold parseHostChar onPort
  grind

theorem host_port_cases (on : s = .portStart ∨ s = .port) (alive : parseHostChar strict s ch ≠ .dead) :
    isNum ch = true ∧ parseHostChar strict s ch = .port := by
  unfold parseHostChar onPort at alive ⊢
  grind

theorem host_brackets_cases (on : s = .v6Start ∨ InBrackets s) (alive : parseHostChar strict s ch ≠ .dead) :
    (ch = 93 ∧ (s = .v6 ∨ s = .v6Zone) ∧ parseHostChar strict s ch = .v6End) ∨
      InBrackets (parseHostChar strict s ch) := by
  have bracket := chr_close
  unfold InBrackets at on ⊢
  unfold parseHostChar onV6Start onV6ZoneStart at alive ⊢
  grind

theorem host_brackets_end (on : s = .v6 ∨ s = .v6Zone) : parseHostChar strict s 93 = .v6End := by
  have bracket := chr_close
  unfold parseHostChar
  grind

/-- What a state in brackets comes from. -/
theorem host_brackets_before (on : InBrackets (parseHostChar strict s ch)) :
    s = .v6Start ∨ InBrackets s := by
  unfold InBrackets at on ⊢
  unfold parseHostChar onUserinfo onV6End onPort at on
  grind

theorem host_brackets_char (on : InBrackets (parseHostChar strict s ch)) : isUserinfoChar ch = true := by
  have colon := chr_colon
  have dot := chr_dot
  have percent := chr_percent
  have zone : (ascii "%.-_~").contains 37 = true := by decide
  have hex := @hex_chars strict ch
  have in_zone := @zone_chars ch
  unfold InBrackets at on
  unfold parseHostChar onUserinfo onV6End onPort onV6Start onV6ZoneStart at on
  grind

/-- A character of an address that is neither a colon nor a percent sign is one of a name. -/
theorem host_plain_next (on : s = .v6Start ∨ s = .v6) (inside : InBrackets (parseHostChar strict s ch))
    (no_percent : ch ≠ 37) :
    parseHostChar strict s ch = .v6 ∧ (ch ≠ 58 → isHostChar strict ch = true) := by
  have colon := chr_colon
  have dot := chr_dot
  have percent := chr_percent
  have hex := @hex_chars strict ch
  unfold InBrackets at inside
  unfold parseHostChar onV6Start at inside ⊢
  grind

end Chars

/-! ### An authority -/

/-- The text of an address in brackets, which may have a zone. -/
def IsLiteral (strict : Bool) (text : Bytes) : Prop :=
  hostEnd strict .v6Start text = .v6 ∨ hostEnd strict .v6Start text = .v6Zone

/-- A user, a host and a port. -/
structure Authority (strict : Bool) where
  user : Option Bytes
  bracketed : Bool
  host : Bytes
  port : Option Bytes
  user_ok : ∀ text, user = some text → ∀ ch ∈ text, isUserinfoChar ch = true
  name_ok : bracketed = false → host ≠ [] ∧ ∀ ch ∈ host, isHostChar strict ch = true
  literal_ok : bracketed = true → IsLiteral strict host
  port_ok : ∀ text, port = some text → text ≠ [] ∧ ∀ ch ∈ text, isNum ch = true

namespace Authority

variable {strict : Bool} (a : Authority strict)

def userPart : Bytes := a.user.elim [] (· ++ [64])

def hostPart : Bytes := if a.bracketed then 91 :: (a.host ++ [93]) else a.host

def portPart : Bytes := a.port.elim [] (58 :: ·)

/-- The text of an authority. -/
def render : Bytes := a.userPart ++ (a.hostPart ++ a.portPart)

/-- The position of the host. -/
def hostOff : Nat := a.userPart.length + if a.bracketed then 1 else 0

/-- The position of the port. -/
def portOff : Nat := a.userPart.length + a.hostPart.length + 1

end Authority

/-! ### The fields -/

section Fields

variable {strict : Bool}

theorem hostLoop_cons {s : HostState} {ch : UInt8} {rest : Bytes}
    (alive : parseHostChar strict s ch ≠ .dead) (ix : Nat) (u : HttpParserUrl) :
    hostLoop strict ix (ch :: rest) s u =
      hostLoop strict (ix + 1) rest (parseHostChar strict s ch)
        (noteHost ix s (parseHostChar strict s ch) u) := by
  rw [hostLoop]
  exact if_neg alive

/-- A field goes on. -/
theorem hostLoop_stay {s : HostState} {f : UrlField} (alive : s ≠ .dead)
    (notes : ∀ ix u, noteHost ix s s u = u.extend f) {text : Bytes}
    (stays : ∀ ch ∈ text, parseHostChar strict s ch = s) (ix : Nat) (u : HttpParserUrl) :
    hostLoop strict ix text s u = some (s, u.extendBy f text.length) := by
  induction text generalizing ix u with
  | nil => rfl
  | cons ch text ih =>
    have same := stays ch List.mem_cons_self
    rw [hostLoop_cons (by rw [same]; exact alive), same, notes,
      ih fun other member => stays other (List.mem_cons_of_mem _ member)]
    rfl

/-- A field begins and goes on. -/
theorem hostLoop_enter {old s : HostState} {f : UrlField} (alive : s ≠ .dead)
    (notes : ∀ ix u, noteHost ix s s u = u.extend f) {ch : UInt8} {text : Bytes}
    (enters : parseHostChar strict old ch = s) (stays : ∀ ch ∈ text, parseHostChar strict s ch = s)
    {ix : Nat} {u begun : HttpParserUrl} (noted : noteHost ix old s u = begun.extend f)
    (here : begun.fieldData f = some (field ix 0)) (same : SameBut f u begun) :
    ∃ v, hostLoop strict ix (ch :: text) old u = some (s, v) ∧
      v.fieldData f = some (field ix (text.length + 1)) ∧ SameBut f u v := by
  refine ⟨(begun.extend f).extendBy f text.length, ?_, ?_, ?_⟩
  · rw [hostLoop_cons (by rw [enters]; exact alive), enters, noted, hostLoop_stay alive notes stays]
  · rw [HttpParserUrl.extendBy_same f _ _ (HttpParserUrl.extend_same f _ here), Nat.zero_add, Nat.add_comm 1]
  · exact same.trans ((HttpParserUrl.sameBut_extend f begun).trans (HttpParserUrl.sameBut_extendBy f _ _))

/-- A user, and the `@` after it. -/
theorem host_user {s : HostState} (on : s = .userinfoStart ∨ s = .userinfo) {user : Bytes}
    (ok : ∀ ch ∈ user, isUserinfoChar ch = true) (ix : Nat) (u : HttpParserUrl) :
    ∃ v, hostLoop strict ix (user ++ [64]) s u = some (.hostStart, v) ∧ SameBut .userinfo u v := by
  induction user generalizing s ix u with
  | nil =>
    have ended := @host_user_end strict s on
    refine ⟨u, ?_, SameBut.refl _ u⟩
    rw [List.nil_append, hostLoop_cons (by rw [ended]; decide), ended]
    rfl
  | cons ch user ih =>
    have next := @host_user_next strict ch s on (ok ch List.mem_cons_self)
    obtain ⟨v, ran, same⟩ := ih (.inr rfl) (fun other member => ok other (List.mem_cons_of_mem _ member))
      (ix + 1) (noteHost ix s .userinfo u)
    refine ⟨v, ?_, SameBut.trans ?_ same⟩
    · rw [List.cons_append, hostLoop_cons (by rw [next]; decide), next]
      exact ran
    · rcases on with rfl | rfl
      · exact (u.sameBut_begin .userinfo ix 0).trans (HttpParserUrl.sameBut_extend _ _)
      · exact HttpParserUrl.sameBut_extend .userinfo u

/-- A name. -/
theorem host_name {name : Bytes} (some_char : name ≠ []) (ok : ∀ ch ∈ name, isHostChar strict ch = true)
    {u : HttpParserUrl} {off : Nat} (here : u.fieldData .host = some (field off 0)) (ix : Nat) :
    ∃ v, hostLoop strict ix name .hostStart u = some (.host, v) ∧
      v.fieldData .host = some (field ix name.length) ∧ SameBut .host u v := by
  obtain ⟨ch, name, rfl⟩ := List.exists_cons_of_ne_nil some_char
  exact hostLoop_enter (by decide) (fun _ _ => rfl) (host_name_next (ok ch List.mem_cons_self)).1
    (fun other member => (host_name_next (ok other (List.mem_cons_of_mem _ member))).2) rfl
    (HttpParserUrl.moveTo_same .host u ix here) (HttpParserUrl.sameBut_moveTo .host u ix)

/-- A port, and the colon before it. -/
theorem host_port {s : HostState} (on : s = .host ∨ s = .v6End) {digits : Bytes} (some_digit : digits ≠ [])
    (ok : ∀ ch ∈ digits, isNum ch = true) (ix : Nat) (u : HttpParserUrl) :
    ∃ v, hostLoop strict ix (58 :: digits) s u = some (.port, v) ∧
      v.fieldData .port = some (field (ix + 1) digits.length) ∧ SameBut .port u v := by
  obtain ⟨ch, digits, rfl⟩ := List.exists_cons_of_ne_nil some_digit
  have colon := @host_port_start strict s on
  rw [hostLoop_cons (by rw [colon]; decide), colon]
  exact hostLoop_enter (by decide) (fun _ _ => rfl) (host_port_next (.inl rfl) (ok ch List.mem_cons_self))
    (fun other member => host_port_next (.inr rfl) (ok other (List.mem_cons_of_mem _ member))) rfl
    (u.begin_same .port (ix + 1) 0) (u.sameBut_begin .port (ix + 1) 0)

theorem hostEnd_cons (s : HostState) (ch : UInt8) (text : Bytes) :
    hostEnd strict s (ch :: text) = hostEnd strict (parseHostChar strict s ch) text := rfl

/-- Behind brackets there are no brackets again. -/
theorem hostEnd_behind {s : HostState} (behind : s = .v6End ∨ s = .portStart ∨ s = .port ∨ s = .dead)
    (text : Bytes) : ¬ InBrackets (hostEnd strict s text) := by
  induction text generalizing s with
  | nil =>
    rintro (h | h | h) <;> rcases behind with rfl | rfl | rfl | rfl <;> cases h
  | cons ch text ih =>
    rw [hostEnd_cons]
    apply ih
    unfold parseHostChar onV6End onPort
    grind

/-- What ends in brackets is in brackets after its first character. -/
theorem brackets_of_hostEnd {s : HostState} (on : s = .v6Start ∨ InBrackets s) {ch : UInt8} {text : Bytes}
    (ended : InBrackets (hostEnd strict s (ch :: text))) : InBrackets (parseHostChar strict s ch) := by
  rw [hostEnd_cons] at ended
  have alive : parseHostChar strict s ch ≠ .dead := by
    intro dead
    exact hostEnd_behind (.inr (.inr (.inr dead))) text ended
  rcases host_brackets_cases on alive with ⟨-, -, close⟩ | inside
  · exact absurd ended (hostEnd_behind (.inl close) text)
  · exact inside

theorem host_brackets_note {s : HostState} (on : InBrackets s) {ch : UInt8}
    (inside : InBrackets (parseHostChar strict s ch)) (ix : Nat) (u : HttpParserUrl) :
    noteHost ix s (parseHostChar strict s ch) u = u.extend .host := by
  have only : parseHostChar strict s ch = .v6 → s = .v6 := by
    unfold InBrackets at on
    unfold parseHostChar onV6ZoneStart
    grind
  rcases inside with address | start | zone
  · rw [address, only address]
    rfl
  · rw [start]
    rfl
  · rw [zone]
    rfl

/-- The characters in brackets. -/
theorem host_brackets {s : HostState} (on : InBrackets s) {text : Bytes}
    (ended : InBrackets (hostEnd strict s text)) (ix : Nat) (u : HttpParserUrl) :
    hostLoop strict ix text s u = some (hostEnd strict s text, u.extendBy .host text.length) := by
  induction text generalizing s ix u with
  | nil => rfl
  | cons ch text ih =>
    have inside := brackets_of_hostEnd (.inr on) ended
    have alive : parseHostChar strict s ch ≠ .dead := by
      intro dead
      rw [dead] at inside
      rcases inside with h | h | h <;> cases h
    rw [hostLoop_cons alive, host_brackets_note on inside, ih inside ended]
    rfl

/-- An address in brackets. -/
theorem host_literal {text : Bytes} (literal : IsLiteral strict text) {u : HttpParserUrl} {off : Nat}
    (here : u.fieldData .host = some (field off 0)) (ix : Nat) :
    ∃ v, hostLoop strict ix (91 :: (text ++ [93])) .hostStart u = some (.v6End, v) ∧
      v.fieldData .host = some (field (ix + 1) text.length) ∧ SameBut .host u v := by
  have opened : parseHostChar strict .hostStart 91 = .v6Start := by
    have bracket := chr_open
    simp [parseHostChar, bracket]
  have ended : InBrackets (hostEnd strict .v6Start text) := literal.elim .inl fun zone => .inr (.inr zone)
  cases text with
  | nil =>
    rcases ended with h | h | h <;> cases h
  | cons ch text =>
    have inside := brackets_of_hostEnd (.inl rfl) ended
    have first : parseHostChar strict .v6Start ch = .v6 := by
      unfold InBrackets at inside
      unfold parseHostChar onV6Start at inside ⊢
      grind
    rw [hostEnd_cons, first] at ended
    have begun := HttpParserUrl.moveTo_same .host u (ix + 1) here
    have ran := host_brackets (.inl rfl) ended (ix + 2) ((u.moveTo .host (ix + 1)).extend .host)
    have closed : parseHostChar strict (hostEnd strict .v6 text) 93 = .v6End := by
      unfold IsLiteral at literal
      rw [hostEnd_cons, first] at literal
      exact host_brackets_end literal
    refine ⟨((u.moveTo .host (ix + 1)).extend .host).extendBy .host text.length, ?_, ?_, ?_⟩
    · rw [hostLoop_cons (by rw [opened]; decide), opened, List.cons_append,
        hostLoop_cons (by rw [first]; decide), first, hostLoop_append]
      have noted : noteHost (ix + 1) .v6Start .v6 (noteHost ix .hostStart .v6Start u) =
          (u.moveTo .host (ix + 1)).extend .host := rfl
      rw [noted, ran, Option.bind_some, hostLoop_cons (by rw [closed]; decide), closed]
      rfl
    · rw [HttpParserUrl.extendBy_same .host _ _ (HttpParserUrl.extend_same .host _ begun), Nat.zero_add,
        Nat.add_comm 1]
      rfl
    · exact (u.sameBut_moveTo .host (ix + 1)).trans
        ((HttpParserUrl.sameBut_extend .host _).trans (HttpParserUrl.sameBut_extendBy .host _ _))

variable (a : Authority strict)

theorem Authority.run_hostPart {u : HttpParserUrl} {off : Nat}
    (here : u.fieldData .host = some (field off 0)) (ix : Nat) :
    ∃ s v, hostLoop strict ix a.hostPart .hostStart u = some (s, v) ∧ (s = .host ∨ s = .v6End) ∧
      v.fieldData .host = some (field (ix + if a.bracketed then 1 else 0) a.host.length) ∧
      SameBut .host u v := by
  by_cases bracketed : a.bracketed = true
  · obtain ⟨v, ran, host, same⟩ := host_literal (a.literal_ok bracketed) here ix
    rw [Authority.hostPart, if_pos bracketed, if_pos bracketed]
    exact ⟨.v6End, v, ran, .inr rfl, host, same⟩
  · obtain ⟨some_char, ok⟩ := a.name_ok (by simpa using bracketed)
    obtain ⟨v, ran, host, same⟩ := host_name some_char ok here ix
    rw [Authority.hostPart, if_neg bracketed, if_neg bracketed]
    exact ⟨.host, v, ran, .inl rfl, host, same⟩

theorem Authority.run_portPart {s : HostState} (on : s = .host ∨ s = .v6End) (ix : Nat)
    {u : HttpParserUrl} (no_port : u.fieldData .port = none) :
    ∃ e v, hostLoop strict ix a.portPart s u = some (e, v) ∧ e.ends = true ∧
      v.fieldData .port = a.port.map (fun digits => field (ix + 1) digits.length) ∧ SameBut .port u v := by
  cases port : a.port with
  | none =>
    have ends : s.ends = true := by
      rcases on with rfl | rfl
      · rfl
      · rfl
    rw [Authority.portPart, port]
    exact ⟨s, u, rfl, ends, no_port, SameBut.refl _ u⟩
  | some digits =>
    obtain ⟨some_digit, ok⟩ := a.port_ok digits port
    obtain ⟨v, ran, here, same⟩ := @host_port strict s on digits some_digit ok ix u
    rw [Authority.portPart, port]
    exact ⟨.port, v, ran, rfl, here, same⟩

/-- The state in which an authority begins. -/
def hostStartOf (foundAt : Bool) : HostState := if foundAt then .userinfoStart else .hostStart

/-- **The fields of an authority.** -/
theorem host_authority {u : HttpParserUrl} {off : Nat} (here : u.fieldData .host = some (field off 0))
    (no_port : u.fieldData .port = none) (ix : Nat) :
    ∃ e v, hostLoop strict ix a.render (hostStartOf a.user.isSome) u = some (e, v) ∧ e.ends = true ∧
      v.port = u.port ∧ v.fieldData .host = some (field (ix + a.hostOff) a.host.length) ∧
      v.fieldData .port = a.port.map (fun digits => field (ix + a.portOff) digits.length) ∧
      ∀ f, f ≠ .userinfo → f ≠ .host → f ≠ .port → v.fieldData f = u.fieldData f := by
  obtain ⟨x, ran_user, same_user⟩ : ∃ x, hostLoop strict ix a.userPart (hostStartOf a.user.isSome) u =
      some (.hostStart, x) ∧ SameBut .userinfo u x := by
    cases user : a.user with
    | none =>
      rw [Authority.userPart, user]
      exact ⟨u, rfl, SameBut.refl _ u⟩
    | some text =>
      rw [Authority.userPart, user]
      exact host_user (.inl rfl) (a.user_ok text user) ix u
  have here_x : x.fieldData .host = some (field off 0) := (same_user.2 .host (by decide)).trans here
  obtain ⟨s, y, ran_host, on, host, same_host⟩ := a.run_hostPart here_x (ix + a.userPart.length)
  have no_port_y : y.fieldData .port = none := by
    rw [same_host.2 .port (by decide), same_user.2 .port (by decide), no_port]
  obtain ⟨e, v, ran_port, ends, port, same_port⟩ :=
    a.run_portPart on (ix + a.userPart.length + a.hostPart.length) no_port_y
  refine ⟨e, v, ?_, ends, ?_, ?_, ?_, ?_⟩
  · rw [Authority.render, hostLoop_append, ran_user, Option.bind_some, hostLoop_append, ran_host,
      Option.bind_some]
    exact ran_port
  · rw [same_port.1, same_host.1, same_user.1]
  · rw [same_port.2 .host (by decide), host, Authority.hostOff, Nat.add_assoc]
  · rw [port, Authority.portOff]
    simp only [Nat.add_assoc]
  · intro f not_user not_host not_port
    rw [same_port.2 f not_port, same_host.2 f not_host, same_user.2 f not_user]

end Fields

/-! ### Every authority that is accepted -/

section Accepted

variable {strict : Bool}

/-- The states in which an authority may end. -/
def EndsAuthority (s : HostState) : Prop := s = .host ∨ s = .v6End ∨ s = .port

theorem endsAuthority_alive {s : HostState} {ch : UInt8} {text : Bytes}
    (ends : EndsAuthority (hostEnd strict s (ch :: text))) : parseHostChar strict s ch ≠ .dead := by
  intro dead
  rw [hostEnd_cons, dead, hostEnd_dead] at ends
  rcases ends with h | h | h <;> cases h

theorem user_of_hostEnd {s : HostState} (on : s = .userinfoStart ∨ s = .userinfo) {text : Bytes}
    (ends : EndsAuthority (hostEnd strict s text)) :
    ∃ user rest, text = user ++ 64 :: rest ∧ (∀ ch ∈ user, isUserinfoChar ch = true) ∧
      EndsAuthority (hostEnd strict .hostStart rest) := by
  induction text generalizing s with
  | nil =>
    rcases on with rfl | rfl <;> rcases ends with h | h | h <;> cases h
  | cons ch text ih =>
    rcases host_user_cases on (endsAuthority_alive ends) with ⟨rfl, next⟩ | ⟨ok, next⟩
    · rw [hostEnd_cons, next] at ends
      exact ⟨[], text, rfl, by simp, ends⟩
    · rw [hostEnd_cons, next] at ends
      obtain ⟨user, rest, rfl, ok_user, ends_rest⟩ := ih (.inr rfl) ends
      exact ⟨ch :: user, rest, rfl, List.forall_mem_cons.mpr ⟨ok, ok_user⟩, ends_rest⟩

theorem port_of_hostEnd {s : HostState} (on : s = .portStart ∨ s = .port) {text : Bytes}
    (ends : EndsAuthority (hostEnd strict s text)) :
    (s = .portStart → text ≠ []) ∧ ∀ ch ∈ text, isNum ch = true := by
  induction text generalizing s with
  | nil =>
    refine ⟨?_, by simp⟩
    rintro rfl
    rcases ends with h | h | h <;> cases h
  | cons ch text ih =>
    obtain ⟨ok, next⟩ := host_port_cases on (endsAuthority_alive ends)
    rw [hostEnd_cons, next] at ends
    exact ⟨fun _ => List.cons_ne_nil _ _, List.forall_mem_cons.mpr ⟨ok, (ih (.inr rfl) ends).2⟩⟩

/-- What may follow a host. -/
def IsPort (port : Option Bytes) : Prop := ∀ text, port = some text → text ≠ [] ∧ ∀ ch ∈ text, isNum ch = true

theorem exists_port {rest : Bytes} (ends : EndsAuthority (hostEnd strict .portStart rest)) :
    ∃ port, 58 :: rest = port.elim [] (58 :: ·) ∧ IsPort port := by
  obtain ⟨some_digit, ok⟩ := port_of_hostEnd (.inl rfl) ends
  refine ⟨some rest, rfl, ?_⟩
  rintro _ ⟨⟩
  exact ⟨some_digit rfl, ok⟩

theorem name_of_hostEnd {text : Bytes} (ends : EndsAuthority (hostEnd strict .host text)) :
    ∃ name port, text = name ++ port.elim [] (58 :: ·) ∧ (∀ ch ∈ name, isHostChar strict ch = true) ∧
      IsPort port := by
  induction text with
  | nil => exact ⟨[], none, rfl, by simp, by simp [IsPort]⟩
  | cons ch text ih =>
    rcases host_name_cases (endsAuthority_alive ends) with ⟨ok, next⟩ | ⟨rfl, next⟩
    · rw [hostEnd_cons, next] at ends
      obtain ⟨name, port, rfl, ok_name, ok_port⟩ := ih ends
      exact ⟨ch :: name, port, rfl, List.forall_mem_cons.mpr ⟨ok, ok_name⟩, ok_port⟩
    · rw [hostEnd_cons, next] at ends
      obtain ⟨port, text_eq, ok_port⟩ := exists_port ends
      exact ⟨[], port, text_eq, by simp, ok_port⟩

theorem literal_of_hostEnd {s : HostState} (on : s = .v6Start ∨ InBrackets s) {text : Bytes}
    (ends : EndsAuthority (hostEnd strict s text)) :
    ∃ address port, text = address ++ 93 :: port.elim [] (58 :: ·) ∧
      (hostEnd strict s address = .v6 ∨ hostEnd strict s address = .v6Zone) ∧ IsPort port := by
  induction text generalizing s with
  | nil =>
    rcases on with rfl | rfl | rfl | rfl <;> rcases ends with h | h | h <;> cases h
  | cons ch text ih =>
    rcases host_brackets_cases on (endsAuthority_alive ends) with ⟨rfl, last, next⟩ | inside
    · rw [hostEnd_cons, next] at ends
      cases text with
      | nil => exact ⟨[], none, rfl, last, by simp [IsPort]⟩
      | cons c text =>
        obtain ⟨rfl, colon⟩ := host_end_cases (endsAuthority_alive ends)
        rw [hostEnd_cons, colon] at ends
        obtain ⟨port, text_eq, ok_port⟩ := exists_port ends
        exact ⟨[], port, congrArg (93 :: ·) text_eq, last, ok_port⟩
    · obtain ⟨address, port, rfl, ended, ok_port⟩ := ih (.inr inside) ends
      exact ⟨ch :: address, port, rfl, ended, ok_port⟩

theorem host_of_hostEnd {text : Bytes} (ends : EndsAuthority (hostEnd strict .hostStart text)) :
    ∃ bracketed host port, text = (if bracketed then 91 :: (host ++ [93]) else host) ++
        port.elim [] (58 :: ·) ∧
      (bracketed = false → host ≠ [] ∧ ∀ ch ∈ host, isHostChar strict ch = true) ∧
      (bracketed = true → IsLiteral strict host) ∧ IsPort port := by
  cases text with
  | nil =>
    rcases ends with h | h | h <;> cases h
  | cons ch text =>
    rcases host_start_cases (endsAuthority_alive ends) with ⟨rfl, next⟩ | ⟨ok, next⟩
    · rw [hostEnd_cons, next] at ends
      obtain ⟨address, port, rfl, ended, ok_port⟩ := literal_of_hostEnd (.inl rfl) ends
      exact ⟨true, address, port, by simp, by simp, fun _ => ended, ok_port⟩
    · rw [hostEnd_cons, next] at ends
      obtain ⟨name, port, rfl, ok_name, ok_port⟩ := name_of_hostEnd ends
      exact ⟨false, ch :: name, port, rfl,
        fun _ => ⟨List.cons_ne_nil _ _, List.forall_mem_cons.mpr ⟨ok, ok_name⟩⟩, by simp, ok_port⟩

/-- **Every authority that is accepted** is one. -/
theorem exists_authority {foundAt : Bool} {text : Bytes} {ix : Nat} {u v : HttpParserUrl} {e : HostState}
    (ran : hostLoop strict ix text (hostStartOf foundAt) u = some (e, v)) (ended : e.ends = true) :
    ∃ a : Authority strict, text = a.render ∧ a.user.isSome = foundAt := by
  obtain ⟨end_eq, alive⟩ := hostLoop_eq ran (by unfold hostStartOf; split <;> decide)
  have ends : EndsAuthority (hostEnd strict (hostStartOf foundAt) text) := by
    rw [← end_eq]
    unfold HostState.ends at ended
    unfold EndsAuthority
    grind
  cases foundAt with
  | false =>
    obtain ⟨bracketed, host, port, rfl, name_ok, literal_ok, port_ok⟩ := host_of_hostEnd ends
    exact ⟨⟨none, bracketed, host, port, by simp, name_ok, literal_ok, port_ok⟩, rfl, rfl⟩
  | true =>
    obtain ⟨user, rest, rfl, user_ok, ends_rest⟩ := user_of_hostEnd (.inl rfl) ends
    obtain ⟨bracketed, host, port, rfl, name_ok, literal_ok, port_ok⟩ := host_of_hostEnd ends_rest
    refine ⟨⟨some user, bracketed, host, port, ?_, name_ok, literal_ok, port_ok⟩, ?_, rfl⟩
    · rintro _ ⟨⟩
      exact user_ok
    · simp [Authority.render, Authority.userPart, Authority.hostPart, Authority.portPart]

end Accepted

/-! ### The characters of a host -/

section HostChars

variable {strict : Bool}

/-- The characters in brackets are characters of a user. -/
theorem literal_chars {s : HostState} (on : s = .v6Start ∨ InBrackets s) {text : Bytes}
    (ended : InBrackets (hostEnd strict s text)) : ∀ ch ∈ text, isUserinfoChar ch = true := by
  induction text generalizing s with
  | nil => simp
  | cons ch text ih =>
    have inside := brackets_of_hostEnd on ended
    exact List.forall_mem_cons.mpr ⟨host_brackets_char inside, ih (.inr inside) ended⟩

/-- An address without colons and percent signs has the characters of a name. -/
theorem literal_plain {s : HostState} (on : s = .v6Start ∨ s = .v6) {text : Bytes}
    (ended : InBrackets (hostEnd strict s text)) (plain : ∀ ch ∈ text, ch ≠ 58 ∧ ch ≠ 37) :
    ∀ ch ∈ text, isHostChar strict ch = true := by
  induction text generalizing s with
  | nil => simp
  | cons ch text ih =>
    obtain ⟨no_colon, no_percent⟩ := plain ch List.mem_cons_self
    have inside := brackets_of_hostEnd (on.imp_right .inl) ended
    obtain ⟨next, ok⟩ := host_plain_next on inside no_percent
    rw [hostEnd_cons, next] at ended
    exact List.forall_mem_cons.mpr ⟨ok no_colon,
      ih (.inr rfl) ended fun other member => plain other (List.mem_cons_of_mem _ member)⟩

variable (a : Authority strict)

theorem Authority.literal_ended (bracketed : a.bracketed = true) :
    InBrackets (hostEnd strict .v6Start a.host) :=
  (a.literal_ok bracketed).elim .inl fun zone => .inr (.inr zone)

theorem Authority.host_ne_nil : a.host ≠ [] := by
  by_cases bracketed : a.bracketed = true
  · intro empty
    have ended := a.literal_ended bracketed
    rw [empty] at ended
    rcases ended with h | h | h <;> cases h
  · exact (a.name_ok (by simpa using bracketed)).1

theorem Authority.host_chars : ∀ ch ∈ a.host, isUserinfoChar ch = true := by
  by_cases bracketed : a.bracketed = true
  · exact literal_chars (.inl rfl) (a.literal_ended bracketed)
  · intro ch member
    exact (hostChar_plain ((a.name_ok (by simpa using bracketed)).2 ch member)).1

/-- The text in brackets has no colon and no percent sign. -/
def Plain (authority : Bytes) : Prop :=
  ∀ ch ∈ (authority.dropWhile (· != 91)).takeWhile (· != 93), ch ≠ 58 ∧ ch ≠ 37

instance (authority : Bytes) : Decidable (Plain authority) := List.decidableBAll _ _

/-- What is before a bracket is dropped. -/
theorem dropWhile_open {before : Bytes} (free : ∀ ch ∈ before, isUserinfoChar ch = true) (rest : Bytes) :
    (before ++ rest).dropWhile (· != 91) = rest.dropWhile (· != 91) := by
  apply List.dropWhile_append_of_pos
  intro ch member
  simpa using (userinfoChar_delimiters (free ch member)).2.2.2.1

theorem Authority.userPart_open (rest : Bytes) :
    (a.userPart ++ rest).dropWhile (· != 91) = rest.dropWhile (· != 91) := by
  cases user : a.user with
  | none => rw [Authority.userPart, user]; rfl
  | some text =>
    rw [Authority.userPart, user, Option.elim_some, List.append_assoc,
      dropWhile_open (a.user_ok text user)]
    rfl

theorem Authority.portPart_chars : ∀ ch ∈ a.portPart, isUserinfoChar ch = true := by
  have colon : isUserinfoChar 58 = true := by decide
  cases port : a.port with
  | none => rw [Authority.portPart, port]; simp
  | some digits =>
    rw [Authority.portPart, port]
    exact List.forall_mem_cons.mpr ⟨colon, fun ch member =>
      num_userinfoChar ((a.port_ok digits port).2 ch member)⟩

/-- **The text in brackets is plain** when the host has the characters of a name only. -/
theorem Authority.plain_iff : Plain a.render ↔ ∀ ch ∈ a.host, isHostChar strict ch = true := by
  by_cases bracketed : a.bracketed = true
  · have found : (a.render.dropWhile (· != 91)).takeWhile (· != 93) = 91 :: a.host := by
      have free : ∀ ch ∈ a.host, (ch != 93) = true := by
        intro ch member
        simpa using (userinfoChar_delimiters (a.host_chars ch member)).2.2.2.2
      rw [Authority.render, a.userPart_open, Authority.hostPart, if_pos bracketed]
      simp [List.takeWhile_append_of_pos free]
    rw [Plain, found, List.forall_mem_cons]
    constructor
    · rintro ⟨-, plain⟩
      exact literal_plain (.inl rfl) (a.literal_ended bracketed) plain
    · intro name
      refine ⟨by decide, fun ch member => ?_⟩
      obtain ⟨-, no_colon, no_percent, -⟩ := hostChar_plain (name ch member)
      exact ⟨no_colon, no_percent⟩
  · have name := a.name_ok (by simpa using bracketed)
    have none_found : a.render.dropWhile (· != 91) = [] := by
      have free : ∀ ch ∈ a.host ++ a.portPart, isUserinfoChar ch = true :=
        List.forall_mem_append.mpr ⟨a.host_chars, a.portPart_chars⟩
      have dropped := dropWhile_open free []
      rw [List.append_nil] at dropped
      rw [Authority.render, a.userPart_open, Authority.hostPart, if_neg bracketed, dropped]
      rfl
    rw [Plain, none_found]
    exact ⟨fun _ => name.2, fun _ => by simp⟩

end HostChars

end Apib.HttpParser
