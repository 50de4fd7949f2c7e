/-
**A request as a server reads it.**

`writeRequest` streams the pieces of a request into a buffer. Here the same bytes are a request of the
protocol: the verb and the path of the request line, a field for every line behind it, and a body of the
length that the fields announce.

* `Config.Sendable`: the settings under which that is so;
* `bodyLength_request`: **the length that is announced is that of the body**;
* `request_bytes`: the pieces are the bytes of a request, and `request_valid`: it may be sent so.
-/

import Apib.Http.Request
import Apib.Main.HeadersOnce
import Apib.Runs.Requests

namespace Apib

open Http Numerals Main

/-! ### Numbers in decimal -/

/-- The digits that the standard library prints, as bytes. -/
theorem isNumber_toDigits (n : Nat) : IsNumber 10 ((Nat.toDigits 10 n).map chr) n := by
  have digit : ∀ d < 10, digitOf 10 (chr (Nat.digitChar d)) = some d := by
    intro d small
    interval_cases d <;> decide
  induction n using Nat.strongRecOn with
  | ind n ih =>
    rw [Nat.toDigits_eq_if (by decide)]
    split
    · next small =>
      have one := digit n small
      refine ⟨by simp, by simp [one], ?_⟩
      simp [number, continued, one]
    · next large =>
      obtain ⟨-, each, value⟩ := ih (n / 10) (by omega)
      have last := digit (n % 10) (by omega)
      refine ⟨by simp, fun c member => ?_, ?_⟩
      · rw [List.map_append, List.mem_append] at member
        rcases member with early | late
        · exact each c early
        · obtain rfl : c = chr (Nat.digitChar (n % 10)) := by simpa using late
          rw [last]
          rfl
      · simp only [number, continued] at value ⊢
        rw [List.map_append, List.foldl_append, value]
        simp only [List.map_cons, List.map_nil, List.foldl_cons, List.foldl_nil, last, Option.getD_some]
        omega

theorem isNumber_toString (n : Nat) : IsNumber 10 (ascii (ToString.toString n)) n := by
  have text : ascii (ToString.toString n) = (Nat.toDigits 10 n).map chr := by
    rw [ascii, Nat.toString_eq_repr, Nat.toList_repr]
  rw [text]
  exact isNumber_toDigits n

theorem isText_of_digit {c : UInt8} (digit : (digitOf 10 c).isSome = true) : isText c = true :=
  forall_byte (P := fun c => (digitOf 10 c).isSome = true → isText c = true) (by decide +kernel) c digit

/-! ### Lines and fields -/

/-- The field that a line is: what stands before the first colon, and what behind it. -/
def fieldOf (line : Bytes) : Field :=
  ⟨line.takeWhile (· != 58), (line.dropWhile (· != 58)).drop 1⟩

/-- A line that is a field. -/
def FieldLine (line : Bytes) : Prop := ∃ f : Field, f.Valid ∧ line = f.name ++ 58 :: f.value

section Lines

variable {line : Bytes}

theorem fieldOf_line {name : Bytes} (token : ∀ b ∈ name, isTokenChar b = true) (value : Bytes) :
    fieldOf (name ++ 58 :: value) = ⟨name, value⟩ := by
  have inside : ∀ b ∈ name, (b != 58) = true := by
    intro b member
    rw [bne_iff_ne]
    rintro rfl
    exact absurd (token 58 member) (by decide)
  simp [fieldOf, List.takeWhile_append_of_pos inside, List.dropWhile_append_of_pos inside]

theorem FieldLine.valid (isField : FieldLine line) : (fieldOf line).Valid := by
  obtain ⟨f, valid, rfl⟩ := isField
  rw [fieldOf_line valid.name_token]
  exact valid

/-- **A line and its end are the bytes of the field.** -/
theorem FieldLine.bytes (isField : FieldLine line) : (fieldOf line).bytes = line ++ ascii "\r\n" := by
  obtain ⟨f, valid, rfl⟩ := isField
  have ending : ascii "\r\n" = crlf := by decide
  rw [fieldOf_line valid.name_token, Field.bytes, ending]

end Lines

/-! ### The settings -/

/-- A line that signs a request. -/
def SignedLine (line : Bytes) : Prop :=
  ∃ text, (∀ b ∈ text, isText b = true) ∧ line = Flagged.authorization.name ++ 58 :: text

/-- The header lines of the user, as fields. -/
def Config.givenFields (cfg : Config) : List Field := (cfg.headers.getD []).map fieldOf

/-- The settings under which a server can read the requests: the verb is a token, the URLs have paths and
host names as they may be sent, and the header lines of the user are fields, which announce no coding, and
the length of the body exactly where it is not announced without them. -/
structure Config.Sendable (cfg : Config) : Prop where
  some_verb : cfg.httpVerb ≠ []
  verb_token : ∀ b ∈ cfg.httpVerb, isTokenChar b = true
  some_path : ∀ url ∈ cfg.urls, url.path ≠ []
  path_char : ∀ url ∈ cfg.urls, ∀ b ∈ url.path, isTargetChar b = true
  host_text : ∀ url ∈ cfg.urls, ∀ b ∈ url.hostHeader, isText b = true
  given : ∀ line ∈ cfg.headers.getD [], FieldLine line
  coding : ∀ f ∈ cfg.givenFields, ¬f.Named "transfer-encoding"
  length : if generates cfg .contentLength then ∀ f ∈ cfg.givenFields, ¬f.Named "content-length"
    else bodyLength cfg.givenFields = some cfg.sendData.length

/-- The request that is sent for a URL. -/
def requestOf (cfg : Config) (url : URLInfo) (authHdr : Bytes) : Request where
  verb := cfg.httpVerb
  target := url.path
  fields := (headerLines cfg url authHdr).map fieldOf
  body := cfg.sendData

section Generated

variable {cfg : Config} {url : URLInfo} {authHdr : Bytes} {m : Flagged}

theorem Main.Flagged.name_token (m : Flagged) : m.name ≠ [] ∧ ∀ b ∈ m.name, isTokenChar b = true := by
  cases m <;> exact ⟨by decide, forall_listed (by decide +kernel)⟩

/-- **A generated line is a field under its name.** -/
theorem generated_field (host_text : ∀ b ∈ url.hostHeader, isText b = true)
    (signed : cfg.oauth = true → SignedLine authHdr) (generated : generates cfg m = true) :
    ∃ value, generatedLine cfg url authHdr m = m.name ++ 58 :: value ∧
      (∀ b ∈ value, isText b = true) ∧
      (m = .contentLength → Field.HasLength ⟨m.name, value⟩ cfg.sendData.length) := by
  have spaced : ∀ {text : Bytes}, (∀ b ∈ text, isText b = true) → ∀ b ∈ 32 :: text, isText b = true := by
    intro text inside b member
    rcases List.mem_cons.mp member with rfl | later
    · decide
    · exact inside b later
  cases m with
  | host => exact ⟨32 :: url.hostHeader, rfl, spaced host_text, by simp⟩
  | contentLength =>
    have number := isNumber_toString cfg.sendData.length
    refine ⟨32 :: ascii (ToString.toString cfg.sendData.length), rfl,
      spaced fun b member => isText_of_digit (number.digit b member), fun _ => ?_⟩
    exact ⟨[32], _, [], by simp, by simp [isBlank], number, by simp⟩
  | contentType => exact ⟨ascii " text/plain", rfl, forall_listed (by decide +kernel), by simp⟩
  | authorization =>
    obtain ⟨text, inside, line⟩ := signed (by simpa [generates, due] using generated)
    exact ⟨text, line, inside, by simp⟩
  | connection => exact ⟨ascii " close", rfl, forall_listed (by decide +kernel), by simp⟩
  | userAgent => exact ⟨ascii " apib", rfl, forall_listed (by decide +kernel), by simp⟩

/-- The field of a generated line. -/
theorem fieldOf_generated (host_text : ∀ b ∈ url.hostHeader, isText b = true)
    (signed : cfg.oauth = true → SignedLine authHdr) (generated : generates cfg m = true) :
    FieldLine (generatedLine cfg url authHdr m) ∧
      (fieldOf (generatedLine cfg url authHdr m)).name = m.name := by
  obtain ⟨value, line, inside, -⟩ := generated_field host_text signed generated
  obtain ⟨some_name, token⟩ := m.name_token
  rw [line, fieldOf_line token]
  exact ⟨⟨⟨m.name, value⟩, ⟨some_name, token, inside⟩, rfl⟩, rfl⟩

/-- No header but `Content-Length` is taken for it, and none for a coding. -/
theorem Main.Flagged.named (m : Flagged) (value : Bytes) :
    (Field.Named ⟨m.name, value⟩ "content-length" ↔ m = .contentLength) ∧
      ¬Field.Named ⟨m.name, value⟩ "transfer-encoding" := by
  show (m.name.map tolower = ascii "content-length" ↔ m = .contentLength) ∧
    ¬m.name.map tolower = ascii "transfer-encoding"
  cases m <;> decide

/-- **The generated lines announce a length where they are to**, and nothing else about the body. -/
theorem generated_lengths (host_text : ∀ b ∈ url.hostHeader, isText b = true)
    (signed : cfg.oauth = true → SignedLine authHdr) :
    ((generatedLines cfg url authHdr).map fieldOf).filter (·.Named "content-length") =
      if generates cfg .contentLength then [fieldOf (generatedLine cfg url authHdr .contentLength)]
      else [] := by
  have each : ∀ m ∈ order.filter (generates cfg),
      decide ((fieldOf (generatedLine cfg url authHdr m)).Named "content-length") = (m == .contentLength) := by
    intro m member
    have name := (fieldOf_generated host_text signed (List.mem_filter.mp member).2).2
    have named := (m.named (fieldOf (generatedLine cfg url authHdr m)).value).1
    rw [← name] at named
    rw [Bool.eq_iff_iff, decide_eq_true_eq, beq_iff_eq]
    exact named
  rw [generatedLines, List.map_map, List.filter_map]
  simp only [Function.comp_def]
  rw [List.filter_congr each, List.filter_filter]
  cases generated : generates cfg .contentLength with
  | true =>
    have only : order.filter (fun m => m == .contentLength && generates cfg m) = [.contentLength] := by
      simp [order, generated]
    rw [only]
    rfl
  | false =>
    have none_there : order.filter (fun m => m == .contentLength && generates cfg m) = [] := by
      simp [order, generated]
    rw [none_there]
    rfl

/-- The generated lines announce no coding. -/
theorem generated_no_coding (host_text : ∀ b ∈ url.hostHeader, isText b = true)
    (signed : cfg.oauth = true → SignedLine authHdr) :
    ∀ f ∈ (generatedLines cfg url authHdr).map fieldOf, ¬f.Named "transfer-encoding" := by
  intro f member
  obtain ⟨line, there, rfl⟩ := List.mem_map.mp member
  obtain ⟨m, here, rfl⟩ := List.mem_map.mp there
  have name := (fieldOf_generated host_text signed (List.mem_filter.mp here).2).2
  have named := (m.named (fieldOf (generatedLine cfg url authHdr m)).value).2
  rw [← name] at named
  exact named

end Generated

/-! ### The request -/

section Request

variable {cfg : Config} {url : URLInfo} {authHdr : Bytes}

/-- **The length that is announced is that of the body.** -/
theorem bodyLength_request (sendable : cfg.Sendable) (listed : url ∈ cfg.urls)
    (signed : cfg.oauth = true → SignedLine authHdr) :
    bodyLength (requestOf cfg url authHdr).fields = some cfg.sendData.length := by
  have host_text := sendable.host_text url listed
  have fields : (requestOf cfg url authHdr).fields =
      (generatedLines cfg url authHdr).map fieldOf ++ cfg.givenFields := by
    rw [requestOf, headerLines, List.map_append, Config.givenFields]
  have no_coding : ¬∃ f ∈ (requestOf cfg url authHdr).fields, f.Named "transfer-encoding" := by
    rw [fields]
    rintro ⟨f, member, coded⟩
    rcases List.mem_append.mp member with generated | given
    · exact generated_no_coding host_text signed f generated coded
    · exact sendable.coding f given coded
  have length := sendable.length
  unfold bodyLength at length ⊢
  rw [if_neg no_coding, fields, List.filter_append, generated_lengths host_text signed]
  cases generated : generates cfg .contentLength with
  | true =>
    rw [generated, if_pos rfl] at length
    obtain ⟨value, line, -, has⟩ := generated_field host_text signed generated
    have none_given : cfg.givenFields.filter (·.Named "content-length") = [] :=
      List.filter_eq_nil_iff.mpr fun f member => by simpa using length f member
    rw [if_pos rfl, none_given, List.append_nil, line, fieldOf_line Flagged.contentLength.name_token.2]
    exact Field.length?_iff.mpr (has rfl)
  | false =>
    have no_coding : ¬∃ f ∈ cfg.givenFields, f.Named "transfer-encoding" := by
      rintro ⟨f, given, coded⟩
      exact sendable.coding f given coded
    rw [generated, if_neg Bool.false_ne_true, if_neg no_coding] at length
    rw [if_neg Bool.false_ne_true, List.nil_append]
    exact length

/-- Every line of a request is a field. -/
theorem headerLines_fields (sendable : cfg.Sendable) (listed : url ∈ cfg.urls)
    (signed : cfg.oauth = true → SignedLine authHdr) :
    ∀ line ∈ headerLines cfg url authHdr, FieldLine line := by
  intro line member
  rcases List.mem_append.mp member with generated | given
  · obtain ⟨m, here, rfl⟩ := List.mem_map.mp generated
    exact (fieldOf_generated (sendable.host_text url listed) signed (List.mem_filter.mp here).2).1
  · exact sendable.given line given

/-- **The request may be sent.** -/
theorem request_valid (sendable : cfg.Sendable) (listed : url ∈ cfg.urls)
    (signed : cfg.oauth = true → SignedLine authHdr) : (requestOf cfg url authHdr).Valid where
  some_verb := sendable.some_verb
  verb_token := sendable.verb_token
  some_target := sendable.some_path url listed
  target_char := sendable.path_char url listed
  fields_valid := by
    intro f member
    obtain ⟨line, here, rfl⟩ := List.mem_map.mp member
    exact (headerLines_fields sendable listed signed line here).valid
  body_length := bodyLength_request sendable listed signed

/-- **What is streamed are the bytes of the request.** -/
theorem request_bytes (sendable : cfg.Sendable) (listed : url ∈ cfg.urls)
    (signed : cfg.oauth = true → SignedLine authHdr) :
    (requestPieces cfg url authHdr).flatten = (requestOf cfg url authHdr).bytes := by
  have lines : (headerLines cfg url authHdr).flatMap (· ++ ascii "\r\n") =
      ((headerLines cfg url authHdr).map fieldOf).flatMap Field.bytes := by
    rw [List.flatMap_map]
    apply List.flatMap_congr
    intro line member
    exact (headerLines_fields sendable listed signed line member).bytes.symm
  have ending : ascii "\r\n" = crlf := by decide
  rw [request_text, lines, ending]
  rfl

end Request

end Apib
