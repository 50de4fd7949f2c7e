/-
**HTTP/1.1 requests.**

What a server reads off a connection: the request line, the fields, and as many bytes of a body as the
fields announce. This is the protocol's own account, put together from self-delimiting codes, and names
nothing of a client.

* `Field.length?_iff`: the length that a field gives;
* `bodyLength`: the length of the body that fields announce, and `none` where a server would not know;
* `requestCode`: **the code of requests**, with `requestCode_valid` for what may be sent.
-/

import Apib.Http.Message
import Apib.Library.Codes
import Mathlib.Data.List.DropRight

namespace Apib.Http

open Numerals Codes

/-! ### Fields -/

section Fields

/-- The mark behind the name of a field is no part of it. -/
theorem colon_outside : isTokenChar 58 = false := by decide

theorem return_outside : isText 13 = false := by decide

/-- The code of fields. -/
def fieldCode : Code UInt8 Field :=
  (((spanTo isTokenChar 58 [] colon_outside).guard fun name => !name.isEmpty).bind fun _ =>
    spanTo isText 13 [10] return_outside).equiv
    { toFun := fun x => ⟨x.1, x.2⟩
      invFun := fun f => (f.name, f.value)
      left_inv := fun _ => rfl
      right_inv := fun _ => rfl }

theorem fieldCode_write (f : Field) : fieldCode.write f = f.bytes := by
  show (f.name ++ [58]) ++ (f.value ++ [13, 10]) = _
  rw [Field.bytes, crlf]
  simp

theorem fieldCode_valid {f : Field} : fieldCode.Valid f ↔ f.Valid := by
  constructor
  · rintro ⟨⟨token, some_name⟩, text⟩
    exact ⟨by simpa using some_name, token, text⟩
  · rintro ⟨some_name, token, text⟩
    exact ⟨⟨token, by simpa using some_name⟩, text⟩

/-- No field begins with the end of a line. -/
theorem fieldCode_never (f : Field) (valid : fieldCode.Valid f) (rest : Bytes) :
    ¬ crlf <+: fieldCode.write f ++ rest := by
  obtain ⟨some_name, token, -⟩ := fieldCode_valid.mp valid
  rw [fieldCode_write, Field.bytes]
  obtain ⟨c, others, name⟩ := List.exists_cons_of_ne_nil some_name
  rw [name]
  intro starts
  have first : c = 13 := by
    obtain ⟨more, same⟩ := starts
    exact (List.cons.inj same).1.symm
  have outside := token c (by rw [name]; exact List.mem_cons_self)
  rw [first] at outside
  exact absurd outside (by decide)

end Fields

/-! ### Lengths -/

/-- The length that a field gives. -/
def Field.length? (f : Field) : Option Nat :=
  let digits := (f.value.dropWhile isBlank).rdropWhile isBlank
  if digits ≠ [] ∧ digits.all (fun c => (digitOf 10 c).isSome) then some (number 10 digits) else none

/-- A digit is not white space. -/
theorem digit_not_blank {c : UInt8} (digit : (digitOf 10 c).isSome = true) : isBlank c = false := by
  by_contra blank
  rw [Bool.not_eq_false, isBlank, Bool.or_eq_true, beq_iff_eq, beq_iff_eq] at blank
  rcases blank with rfl | rfl <;> exact absurd digit (by decide)

/-- **The length that a field gives** is the number in its value. -/
theorem Field.length?_iff {f : Field} {n : Nat} : f.length? = some n ↔ f.HasLength n := by
  unfold Field.length? Field.HasLength
  dsimp only
  constructor
  · intro found
    obtain ⟨⟨some_digit, digit⟩, value⟩ := Option.ite_none_right_eq_some.mp found
    refine ⟨f.value.takeWhile isBlank, (f.value.dropWhile isBlank).rdropWhile isBlank,
      (f.value.dropWhile isBlank).rtakeWhile isBlank, ?_, fun b member => List.mem_takeWhile_imp member,
      ⟨some_digit, List.all_eq_true.mp digit, Option.some.inj value⟩,
      fun b member => List.mem_rtakeWhile_imp member⟩
    rw [List.rdropWhile_append_rtakeWhile, List.takeWhile_append_dropWhile]
  · rintro ⟨before, digits, after, value, blank, ⟨some_digit, digit, same⟩, blank'⟩
    obtain ⟨c, others, first⟩ := List.exists_cons_of_ne_nil some_digit
    have front : (digits ++ after).dropWhile isBlank = digits ++ after := by
      rw [first]
      exact List.dropWhile_cons_of_neg
        (by simp [digit_not_blank (digit c (by rw [first]; exact List.mem_cons_self))])
    obtain ⟨most, last, ending⟩ := (List.eq_nil_or_concat digits).resolve_left some_digit
    have back : (digits ++ after).rdropWhile isBlank = digits := by
      rw [List.rdropWhile, List.reverse_append,
        List.dropWhile_append_of_pos (fun b member => blank' b (List.mem_reverse.mp member)), ending,
        List.concat_eq_append, List.reverse_append, List.reverse_singleton, List.singleton_append,
        List.dropWhile_cons_of_neg
          (by simp [digit_not_blank (digit last (by rw [ending]; simp))])]
      simp
    rw [value, List.dropWhile_append_of_pos blank, front, back, if_pos ⟨some_digit, List.all_eq_true.mpr digit⟩, same]

/-- The length of the body that fields announce. A server knows none where there is a coding, several
lengths, or one that is no number. -/
def bodyLength (fields : List Field) : Option Nat :=
  if ∃ f ∈ fields, f.Named "transfer-encoding" then none
  else
    match fields.filter (·.Named "content-length") with
    | [] => some 0
    | [f] => f.length?
    | _ => none

/-! ### Requests -/

/-- A byte that may stand in the target of a request. -/
def isTargetChar (b : UInt8) : Bool := 32 < b && b != 127

/-- A request. -/
structure Request where
  verb : Bytes
  target : Bytes
  fields : List Field
  body : Bytes
  deriving DecidableEq, Repr

namespace Request

/-- The bytes of a request. -/
def bytes (r : Request) : Bytes :=
  r.verb ++ 32 :: r.target ++ ascii " HTTP/1.1\r\n" ++ r.fields.flatMap Field.bytes ++ crlf ++ r.body

/-- A request as it may be sent. -/
structure Valid (r : Request) : Prop where
  some_verb : r.verb ≠ []
  verb_token : ∀ b ∈ r.verb, isTokenChar b = true
  some_target : r.target ≠ []
  target_char : ∀ b ∈ r.target, isTargetChar b = true
  fields_valid : ∀ f ∈ r.fields, f.Valid
  body_length : bodyLength r.fields = some r.body.length

end Request

theorem space_outside : isTokenChar 32 = false ∧ isTargetChar 32 = false := by decide

/-- **The code of requests.** -/
def requestCode : Code UInt8 Request :=
  (((spanTo isTokenChar 32 [] space_outside.1).guard fun verb => !verb.isEmpty).bind fun _ =>
    ((spanTo isTargetChar 32 [] space_outside.2).guard fun target => !target.isEmpty).bind fun _ =>
    (literal (ascii "HTTP/1.1\r\n")).bind fun _ =>
    ((fieldCode.many crlf fieldCode_never).guard fun fields => (bodyLength fields).isSome).bind fun fields =>
    fixed ((bodyLength fields).getD 0)).equiv
    { toFun := fun x => ⟨x.1, x.2.1, x.2.2.2.1, x.2.2.2.2⟩
      invFun := fun r => (r.verb, r.target, (), r.fields, r.body)
      left_inv := fun _ => rfl
      right_inv := fun _ => rfl }

theorem requestCode_write (r : Request) : requestCode.write r = r.bytes := by
  show (r.verb ++ [32]) ++ ((r.target ++ [32]) ++ (ascii "HTTP/1.1\r\n" ++
    ((r.fields.flatMap fieldCode.write ++ crlf) ++ r.body))) = _
  have version : ascii " HTTP/1.1\r\n" = 32 :: ascii "HTTP/1.1\r\n" := by decide
  rw [Request.bytes, version, List.flatMap_congr fun f _ => fieldCode_write f]
  simp

theorem requestCode_valid {r : Request} : requestCode.Valid r ↔ r.Valid := by
  have body : (bodyLength r.fields).isSome = true ∧ r.body.length = (bodyLength r.fields).getD 0 ↔
      bodyLength r.fields = some r.body.length := by
    cases bodyLength r.fields with
    | none => simp
    | some n => simp [eq_comm]
  constructor
  · rintro ⟨⟨verb, some_verb⟩, ⟨target, some_target⟩, -, ⟨fields, announced⟩, length⟩
    exact ⟨by simpa using some_verb, verb, by simpa using some_target, target,
      fun f member => fieldCode_valid.mp (fields f member), body.mp ⟨announced, length⟩⟩
  · rintro ⟨some_verb, verb, some_target, target, fields, announced⟩
    obtain ⟨some_length, length⟩ := body.mpr announced
    exact ⟨⟨verb, by simpa using some_verb⟩, ⟨target, by simpa using some_target⟩, trivial,
      ⟨fun f member => fieldCode_valid.mpr (fields f member), some_length⟩, length⟩

/-- What a server makes of the bytes that have come in: the requests, and what is left over. -/
def readRequests (stream : Bytes) : List Request × Bytes := requestCode.readAll stream.length stream

section Streams

variable {requests : List Request} {part : Bytes}

/-- Requests in front of what is none yet. -/
theorem readRequests_unread (valid : ∀ r ∈ requests, r.Valid) (unread : requestCode.read part = none) :
    readRequests (requests.flatMap Request.bytes ++ part) = (requests, part) := by
  have each : ∀ r ∈ requests, requestCode.Valid r := fun r member => requestCode_valid.mpr (valid r member)
  have texts : requests.flatMap Request.bytes = requests.flatMap requestCode.write :=
    List.flatMap_congr fun r _ => (requestCode_write r).symm
  have some_byte : ∀ r, requestCode.Valid r → requestCode.write r ≠ [] := by
    intro r _
    rw [requestCode_write, Request.bytes]
    simp [crlf]
  have fewer := Code.length_le_flatMap some_byte each
  rw [readRequests, texts]
  apply Code.readAll_stream each unread
  rw [List.length_append]
  omega

/-- **A stream of requests** is read as these requests. -/
theorem readRequests_stream (valid : ∀ r ∈ requests, r.Valid) :
    readRequests (requests.flatMap Request.bytes) = (requests, []) := by
  have nothing : requestCode.read [] = none := rfl
  have read := readRequests_unread valid nothing
  rwa [List.append_nil] at read

/-- **A stream of requests, and a part of one more**, is read as these requests. -/
theorem readRequests_part (valid : ∀ r ∈ requests, r.Valid) {next : Request} (nextValid : next.Valid)
    (start : part <+: next.bytes) (proper : part ≠ next.bytes) :
    readRequests (requests.flatMap Request.bytes ++ part) = (requests, part) := by
  apply readRequests_unread valid
  rw [← requestCode_write] at start proper
  exact Code.read_part (requestCode_valid.mpr nextValid) start proper

end Streams

end Apib.Http
