/-
**What `http_parser_parse_url` finds.**

The result for a URL in pieces whose fields fit in 16 bits, so that each of them is the part of the string
that it was noted for.

* `parsed_of_parseUrl`: **a result has the fields of an authority** and of the other pieces;
* `parseUrl_parsed`: and there is one for every authority whose port is a number of 16 bits.
-/

import Apib.HttpParser.Authority

namespace Apib.HttpParser

open UrlLoop

variable {strict : Bool}

/-! ### The port -/

theorem portLoop_le {text : Bytes} {v n : Nat} (small : v ≤ 0xffff) (read : portLoop v text = some n) :
    n ≤ 0xffff := by
  induction text generalizing v with
  | nil =>
    obtain rfl := Option.some.inj read
    exact small
  | cons ch text ih =>
    rw [portLoop] at read
    by_cases large : v * 10 + (ch.toNat - 48) > 0xffff
    · simp only [large, if_true] at read
      cases read
    · simp only [large, if_false] at read
      exact ih (Nat.le_of_not_lt large) read

/-- A number that was read fits in 16 bits. -/
theorem portLoop_toNat {text : Bytes} {n : Nat} (read : portLoop 0 text = some n) : n.toUInt16.toNat = n := by
  have small := portLoop_le (Nat.zero_le _) read
  exact UInt16.toNat_ofNat_of_lt' (by simpa using Nat.lt_succ_of_le small)

/-- The port is not one of the fields. -/
theorem parsePort_fieldData {buf : Bytes} {u v : HttpParserUrl} (read : parsePort buf u = some v) :
    v.fieldData = u.fieldData := by
  unfold parsePort at read
  cases port : u.fieldData .port with
  | none =>
    rw [port] at read
    rw [Option.some.inj read]
  | some data =>
    rw [port] at read
    obtain ⟨n, -, rfl⟩ := Option.map_eq_some_iff.mp read
    rfl

/-! ### Fields that fit -/

/-- The fields fit in 16 bits, their positions below a limit. -/
structure Pieces.FitsIn (p : Pieces strict) (limit : Nat) : Prop where
  host : p.tailOff < limit
  path : p.tail.path.length < 65536
  query : p.tail.queryText ≠ [] →
    p.tailOff + p.tail.path.length + 1 < limit ∧ p.tail.queryText.length < 65536
  fragment : p.tail.fragmentText ≠ [] →
    p.tailOff + p.tail.fragmentOff < limit ∧ p.tail.fragmentText.length < 65536

theorem Pieces.FitsIn.mono {p : Pieces strict} {limit larger : Nat} (fits : p.FitsIn limit)
    (le : limit ≤ larger) : p.FitsIn larger :=
  ⟨Nat.lt_of_lt_of_le fits.host le, fits.path,
    fun some_char => (fits.query some_char).imp_left fun below => Nat.lt_of_lt_of_le below le,
    fun some_char => (fits.fragment some_char).imp_left fun below => Nat.lt_of_lt_of_le below le⟩

/-- **The fields of a string that is short enough** fit. -/
theorem Pieces.fits_of_length {p : Pieces strict} {limit : Nat} (short : p.render.length < limit)
    (le : limit ≤ 65536) : p.FitsIn limit := by
  have total : p.render.length =
      p.tailOff + (p.tail.path.length + (p.tail.queryPart.length + p.tail.fragmentPart.length)) := by
    simp only [Pieces.render, Tail.render, Pieces.tailOff, Pieces.hostOff, List.length_append,
      List.length_cons]
    omega
  refine ⟨by omega, by omega, fun some_query => ?_, fun some_fragment => ?_⟩
  · have query := congrArg List.length (p.tail.queryPart_eq some_query)
    rw [List.length_cons] at query
    omega
  · have fragment := congrArg List.length (p.tail.fragmentPart_eq some_fragment)
    rw [List.length_cons, List.length_append, List.length_replicate] at fragment
    unfold Tail.fragmentOff
    omega

theorem isSome_noted (off : Nat) (text : Bytes) : (noted off text).isSome = decide (text ≠ []) := by
  unfold noted
  split
  · next none_there => simp [none_there]
  · next some_char => simp [some_char]

/-- **A text that is noted** is the part of the string, if it fits. -/
theorem part_noted {off : Nat} {text : Bytes} (fits : text ≠ [] → off < 65536 ∧ text.length < 65536)
    (before after : Bytes) (at_off : before.length = off) :
    (noted off text).elim [] (·.part (before ++ (text ++ after))) = text := by
  by_cases none_there : text = []
  · rw [noted, if_pos none_there, none_there]
    rfl
  · obtain ⟨off_small, len_small⟩ := fits none_there
    rw [noted, if_neg none_there]
    exact part_field off_small len_small before text after at_off rfl

section Parts

variable (p : Pieces strict) (fits : p.FitsIn 65536)

theorem Pieces.before_length : (p.scheme ++ [58, 47, 47]).length = p.hostOff := by
  rw [List.length_append]
  rfl

theorem Pieces.render_eq : p.render = (p.scheme ++ [58, 47, 47]) ++ (p.authority ++ p.tail.render) := by
  simp [Pieces.render]

include fits

theorem Pieces.part_schema : (field 0 p.scheme.length).part p.render = p.scheme := by
  have host := fits.host
  have small : p.scheme.length < 65536 := by
    unfold Pieces.tailOff Pieces.hostOff at host
    omega
  exact part_field (by decide) small [] p.scheme _ rfl rfl

theorem Pieces.part_authority : (field p.hostOff p.authority.length).part p.render = p.authority := by
  have host := fits.host
  unfold Pieces.tailOff at host
  rw [p.render_eq]
  exact part_field (by omega) (by omega) _ _ _ p.before_length rfl

theorem Pieces.hostOff_toNat : (field p.hostOff p.authority.length).off.toNat = p.hostOff := by
  have host := fits.host
  unfold Pieces.tailOff at host
  exact UInt16.toNat_ofNat_of_lt' (by simpa using (by omega : p.hostOff < 65536))

theorem Pieces.part_path : (noted p.tailOff p.tail.path).elim [] (·.part p.render) = p.tail.path := by
  have whole : p.render = (p.scheme ++ [58, 47, 47] ++ p.authority) ++
      (p.tail.path ++ (p.tail.queryPart ++ p.tail.fragmentPart)) := by
    simp [Pieces.render, Tail.render]
  rw [whole]
  apply part_noted (fun _ => ⟨fits.host, fits.path⟩)
  rw [List.length_append, p.before_length]
  rfl

theorem Pieces.part_query : (noted (p.tailOff + p.tail.path.length + 1) p.tail.queryText).elim []
    (·.part p.render) = p.tail.queryText := by
  by_cases none_there : p.tail.queryText = []
  · rw [none_there]
    rfl
  · have whole : p.render = (p.scheme ++ [58, 47, 47] ++ p.authority ++ p.tail.path ++ [63]) ++
        (p.tail.queryText ++ p.tail.fragmentPart) := by
      simp [Pieces.render, Tail.render, p.tail.queryPart_eq none_there]
    rw [whole]
    apply part_noted fits.query
    rw [List.length_append, List.length_append, List.length_append, p.before_length]
    rfl

theorem Pieces.part_fragment : (noted (p.tailOff + p.tail.fragmentOff) p.tail.fragmentText).elim []
    (·.part p.render) = p.tail.fragmentText := by
  by_cases none_there : p.tail.fragmentText = []
  · rw [none_there]
    rfl
  · have whole : p.render = (p.scheme ++ [58, 47, 47] ++ p.authority ++ p.tail.path ++ p.tail.queryPart ++
        35 :: List.replicate (p.tail.fragment.elim 0 Prod.fst) 35) ++ (p.tail.fragmentText ++ []) := by
      simp [Pieces.render, Tail.render, p.tail.fragmentPart_eq none_there]
    rw [whole]
    apply part_noted fits.fragment
    simp only [List.length_append, List.length_cons, List.length_replicate, Tail.fragmentOff,
      Pieces.tailOff, Pieces.hostOff, List.length_nil]
    omega

variable (a : Authority strict) (of_authority : p.authority = a.render)
include of_authority

theorem Pieces.part_host : (field (p.hostOff + a.hostOff) a.host.length).part p.render = a.host := by
  have host := fits.host
  have whole : p.render = (p.scheme ++ [58, 47, 47] ++ (a.userPart ++ if a.bracketed then [91] else [])) ++
      (a.host ++ ((if a.bracketed then [93] else []) ++ a.portPart ++ p.tail.render)) := by
    rw [p.render_eq, of_authority, Authority.render, Authority.hostPart]
    cases a.bracketed
    · simp
    · simp
  have before : (p.scheme ++ [58, 47, 47] ++ (a.userPart ++ if a.bracketed then [91] else [])).length =
      p.hostOff + a.hostOff := by
    rw [List.length_append, p.before_length, List.length_append, Authority.hostOff]
    cases a.bracketed
    · rfl
    · rfl
  have total : a.hostOff + a.host.length ≤ p.authority.length := by
    rw [of_authority, Authority.render, Authority.hostOff, Authority.hostPart]
    cases a.bracketed
    · simp
    · simp
      omega
  unfold Pieces.tailOff at host
  rw [whole]
  exact part_field (by omega) (by omega) _ _ _ before rfl

theorem Pieces.part_port {digits : Bytes} (port : a.port = some digits) :
    (field (p.hostOff + a.portOff) digits.length).part p.render = digits := by
  have host := fits.host
  have whole : p.render = (p.scheme ++ [58, 47, 47] ++ (a.userPart ++ a.hostPart ++ [58])) ++
      (digits ++ p.tail.render) := by
    rw [p.render_eq, of_authority, Authority.render, Authority.portPart, port]
    simp
  have before : (p.scheme ++ [58, 47, 47] ++ (a.userPart ++ a.hostPart ++ [58])).length =
      p.hostOff + a.portOff := by
    rw [List.length_append, p.before_length, List.length_append, List.length_append, Authority.portOff]
    rfl
  have total : a.portOff + digits.length = p.authority.length := by
    rw [of_authority, Authority.render, Authority.portOff, Authority.portPart, port]
    simp
    omega
  unfold Pieces.tailOff at host
  rw [whole]
  exact part_field (by omega) (by omega) _ _ _ before rfl

end Parts

/-! ### The result -/

/-- The result for the pieces of a URL. -/
structure Parsed (p : Pieces strict) (a : Authority strict) (pu : HttpParserUrl) : Prop where
  schema : pu.fieldData .schema = some (field 0 p.scheme.length)
  host : pu.fieldData .host = some (field (p.hostOff + a.hostOff) a.host.length)
  port : (pu.fieldData .port).isSome = a.port.isSome
  number : ∀ digits, a.port = some digits → portLoop 0 digits = some pu.port.toNat
  path : pu.fieldData .path = noted p.tailOff p.tail.path
  query : pu.fieldData .query = noted (p.tailOff + p.tail.path.length + 1) p.tail.queryText
  fragment : pu.fieldData .fragment = noted (p.tailOff + p.tail.fragmentOff) p.tail.fragmentText

/-- The fields before the authority is looked at. -/
def restart (u : HttpParserUrl) (off : Nat) : HttpParserUrl :=
  { u with fieldData := Function.update u.fieldData .host (some ⟨off.toUInt16, 0⟩) }

variable (p : Pieces strict) (fits : p.FitsIn 65536)
include fits

/-- **The parts are found, then the authority is looked at, then the port is read.** -/
theorem parseUrl_eq : ∃ y, PiecesNoted p y ∧ parseUrl strict p.render =
    ((hostLoop strict p.hostOff p.authority (hostStartOf (p.authority.contains 64))
      (restart y.u p.hostOff)).bind fun x => if x.1.ends then some x.2 else none).bind (parsePort p.render) := by
  obtain ⟨y, ran, notes⟩ := run_pieces p
  have some_char : p.render ≠ [] := by
    rw [Pieces.render]
    exact List.append_ne_nil_of_right_ne_nil _ (List.cons_ne_nil _ _)
  have found : ¬((y.u.fieldData .schema).isSome ∧ (y.u.fieldData .host).isNone) := by
    rw [notes.host]
    simp
  refine ⟨y, notes, ?_⟩
  rw [parseUrl, if_neg some_char, ran, Option.bind_some, if_neg found, notes.host, Option.elim_some, parseHost,
    p.part_authority fits, p.hostOff_toNat fits, notes.foundAt]
  rfl

omit fits in
/-- The authority of a URL, from its notes. -/
theorem run_noted {y : UrlLoop} (notes : PiecesNoted p y) (a : Authority strict) :
    ∃ e v, hostLoop strict p.hostOff a.render (hostStartOf a.user.isSome) (restart y.u p.hostOff) =
        some (e, v) ∧ e.ends = true ∧
      v.fieldData .host = some (field (p.hostOff + a.hostOff) a.host.length) ∧
      v.fieldData .port = a.port.map (fun digits => field (p.hostOff + a.portOff) digits.length) ∧
      ∀ f, f ≠ .userinfo → f ≠ .host → f ≠ .port → v.fieldData f = y.u.fieldData f := by
  have here : (restart y.u p.hostOff).fieldData .host = some (field p.hostOff 0) := by
    simp [restart, field]
  have no_port : (restart y.u p.hostOff).fieldData .port = none := by
    simp [restart, notes.port]
  obtain ⟨e, v, ran, ends, -, host, port, same⟩ := host_authority a here no_port p.hostOff
  refine ⟨e, v, ran, ends, host, port, fun f not_user not_host not_port => ?_⟩
  rw [same f not_user not_host not_port]
  simp [restart, not_host]

section Port

variable (a : Authority strict) (of_authority : p.authority = a.render)
include of_authority

/-- The port is read, and the other fields stay. -/
theorem parsePort_iff {v : HttpParserUrl}
    (port : v.fieldData .port = a.port.map fun digits => field (p.hostOff + a.portOff) digits.length)
    (pu : HttpParserUrl) : parsePort p.render v = some pu ↔
      (a.port = none ∧ pu = v) ∨ ∃ digits n, a.port = some digits ∧ portLoop 0 digits = some n ∧
        pu = { v with port := n.toUInt16 } := by
  unfold parsePort
  cases given : a.port with
  | none =>
    rw [given] at port
    rw [port]
    simp [eq_comm]
  | some digits =>
    rw [given] at port
    rw [port]
    simp only [Option.map_some, p.part_port fits a of_authority given, Option.map_eq_some_iff]
    constructor
    · rintro ⟨n, read, rfl⟩
      exact .inr ⟨digits, n, rfl, read, rfl⟩
    · rintro (⟨none_given, -⟩ | ⟨_, n, ⟨⟩, read, rfl⟩)
      · cases none_given
      · exact ⟨n, read, rfl⟩

/-- The result, from what is left of the authority. -/
theorem parsed_of_port {y : UrlLoop} (notes : PiecesNoted p y) {v pu : HttpParserUrl}
    (host : v.fieldData .host = some (field (p.hostOff + a.hostOff) a.host.length))
    (port : v.fieldData .port = a.port.map fun digits => field (p.hostOff + a.portOff) digits.length)
    (same : ∀ f, f ≠ .userinfo → f ≠ .host → f ≠ .port → v.fieldData f = y.u.fieldData f)
    (read : parsePort p.render v = some pu) : Parsed p a pu := by
  have fields : pu.fieldData = v.fieldData ∧
      ∀ digits, a.port = some digits → portLoop 0 digits = some pu.port.toNat := by
    rcases (parsePort_iff p fits a of_authority port pu).mp read with
      ⟨none_given, rfl⟩ | ⟨digits, n, given, number, rfl⟩
    · exact ⟨rfl, fun digits some_given => by rw [none_given] at some_given; cases some_given⟩
    · refine ⟨rfl, fun other also => ?_⟩
      obtain rfl : digits = other := Option.some.inj (given.symm.trans also)
      rw [number, portLoop_toNat number]
  obtain ⟨data, number⟩ := fields
  refine ⟨?_, ?_, ?_, number, ?_, ?_, ?_⟩
  · rw [data, same .schema (by decide) (by decide) (by decide), notes.schema]
  · rw [data, host]
  · rw [data, port, Option.isSome_map]
  · rw [data, same .path (by decide) (by decide) (by decide), notes.path]
  · rw [data, same .query (by decide) (by decide) (by decide), notes.query]
  · rw [data, same .fragment (by decide) (by decide) (by decide), notes.fragment]

end Port

/-- **A result has the fields of an authority** and of the other pieces. -/
theorem parsed_of_parseUrl {pu : HttpParserUrl} (parsed : parseUrl strict p.render = some pu) :
    ∃ a : Authority strict, p.authority = a.render ∧ Parsed p a pu := by
  obtain ⟨y, notes, result⟩ := parseUrl_eq p fits
  rw [result] at parsed
  obtain ⟨v, looked, read⟩ := Option.bind_eq_some_iff.mp parsed
  obtain ⟨⟨e, x⟩, ran, ended⟩ := Option.bind_eq_some_iff.mp looked
  obtain ⟨ends, same_v⟩ := Option.ite_none_right_eq_some.mp ended
  obtain rfl : x = v := Option.some.inj same_v
  obtain ⟨a, of_authority, user⟩ := exists_authority ran ends
  obtain ⟨e', x', ran_again, -, host, port, same⟩ := run_noted p notes a
  rw [user, ← of_authority, ran] at ran_again
  obtain ⟨-, rfl⟩ := Prod.mk.inj (Option.some.inj ran_again)
  exact ⟨a, of_authority, parsed_of_port p fits a of_authority notes host port same read⟩

/-- **Every authority whose port is a number of 16 bits** has a result. -/
theorem parseUrl_parsed (a : Authority strict) (of_authority : p.authority = a.render)
    (user : a.user.isSome = p.authority.contains 64)
    (number : ∀ digits, a.port = some digits → (portLoop 0 digits).isSome) :
    ∃ pu, parseUrl strict p.render = some pu ∧ Parsed p a pu := by
  obtain ⟨y, notes, result⟩ := parseUrl_eq p fits
  obtain ⟨e, v, ran, ends, host, port, same⟩ := run_noted p notes a
  obtain ⟨pu, read⟩ : ∃ pu, parsePort p.render v = some pu := by
    cases given : a.port with
    | none => exact ⟨v, (parsePort_iff p fits a of_authority port v).mpr (.inl ⟨given, rfl⟩)⟩
    | some digits =>
      obtain ⟨n, read⟩ := Option.isSome_iff_exists.mp (number digits given)
      exact ⟨_, (parsePort_iff p fits a of_authority port _).mpr (.inr ⟨digits, n, given, read, rfl⟩)⟩
  refine ⟨pu, ?_, parsed_of_port p fits a of_authority notes host port same read⟩
  rw [result, ← user]
  have ran_here := ran
  rw [← of_authority] at ran_here
  rw [ran_here, Option.bind_some]
  simp only [ends, if_true, Option.bind_some]
  exact read

end Apib.HttpParser
