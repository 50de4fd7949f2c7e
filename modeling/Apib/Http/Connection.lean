/-
**Connections that are closed behind a response.**

A connection stays open behind an HTTP/1.1 response unless one of the options that its `Connection` fields
list is `close`. A proxy may say so in a `Proxy-Connection` field, and fields that trail a body in chunks
count as those of the head do.

* `Field.options`, `Field.Closes`: the options of a field, and `close` among them;
* `Message.Persistent`: **the connection stays open behind a response**;
* `Field.Tidy`: options apart by single commas, with no tab around them, none of which looks like another.
-/

import Apib.Http.Message
import Mathlib.Data.List.DropRight

namespace Apib.Http

open Numerals

/-- What is left of an item of a list without the white space around it. -/
def trimmed (item : Bytes) : Bytes := (item.dropWhile isBlank).rdropWhile isBlank

namespace Field

variable (f : Field)

/-- The items that the value lists. -/
def items : List Bytes := f.value.splitOn 44

/-- The options that the value lists, in lower case. -/
def options : List Bytes := f.items.map fun item => (trimmed item).map tolower

/-- Does the field list options for the connection? -/
def OfConnection : Prop := f.Named "connection" ∨ f.Named "proxy-connection"

instance : Decidable f.OfConnection := inferInstanceAs (Decidable (_ ∨ _))

/-- **The connection is to be closed.** -/
def Closes : Prop := f.OfConnection ∧ ascii "close" ∈ f.options

instance : Decidable f.Closes := inferInstanceAs (Decidable (_ ∧ _))

end Field

/-- The options that say something of a connection. -/
def knownOptions : List Bytes := [ascii "close", ascii "keep-alive", ascii "upgrade"]

/-- A list of options that is read in only one way: no tabs, no empty items, no option that is the start of
a known one, and none that begins with an underscore. -/
structure Field.Tidy (f : Field) : Prop where
  no_tab : 9 ∉ f.value
  some_option : ∀ option ∈ f.options, option ≠ []
  option_token : ∀ option ∈ f.options, option.all isTokenChar = true
  no_underscore : ∀ option ∈ f.options, option.head? ≠ some 95
  no_start : ∀ option ∈ f.options, ∀ known ∈ knownOptions, option.isPrefixOf known = true → option = known

namespace Message

variable (m : Message)

/-- The fields behind the body. -/
def trailer : List Field :=
  match m.body with
  | .chunked c => c.trailer
  | _ => []

/-- **The connection stays open behind the response.** -/
def Persistent : Prop := ∀ f ∈ m.head.fields ++ m.trailer, ¬f.Closes

instance : Decidable m.Persistent := inferInstanceAs (Decidable (∀ f ∈ _, _))

theorem persistent_eq : decide m.Persistent =
    !(m.head.fields.any (fun f => decide f.Closes) || m.trailer.any fun f => decide f.Closes) := by
  rw [Bool.eq_iff_iff]
  simp [Persistent, or_imp, forall_and]

/-- The options of all fields are tidy. -/
def Tidy : Prop := ∀ f ∈ m.head.fields ++ m.trailer, f.OfConnection → f.Tidy

end Message

/-! ### Items -/

section Items

variable {item : Bytes}

/-- An item is its option and white space on either side. -/
theorem item_parts (item : Bytes) : item = item.takeWhile isBlank ++
    (trimmed item ++ (item.dropWhile isBlank).rtakeWhile isBlank) := by
  rw [trimmed, List.rdropWhile_append_rtakeWhile, List.takeWhile_append_dropWhile]

theorem item_before {b : UInt8} (member : b ∈ item.takeWhile isBlank) : isBlank b = true :=
  List.all_eq_true.mp List.all_takeWhile b member

theorem item_after {b : UInt8} (member : b ∈ (item.dropWhile isBlank).rtakeWhile isBlank) :
    isBlank b = true :=
  List.mem_rtakeWhile_imp member

/-- **A value is its only item, or an item, a comma and a value.** -/
theorem value_cases (value : Bytes) : value.splitOn 44 = [value] ∧ 44 ∉ value ∨
    ∃ first rest, value = first ++ 44 :: rest ∧ value.splitOn 44 = first :: rest.splitOn 44 := by
  by_cases comma : 44 ∈ value
  · obtain ⟨first, rest, rfl, outside⟩ := List.eq_append_cons_of_mem comma
    exact .inr ⟨first, rest, rfl, List.splitOn_append_cons_self_of_not_mem outside rest⟩
  · exact .inl ⟨List.splitOn_eq_singleton comma, comma⟩

/-- The bytes of an item are bytes of the value. -/
theorem mem_of_item (value : Bytes) {b : UInt8} (listed : item ∈ value.splitOn 44) (member : b ∈ item) :
    b ∈ value := by
  rcases value_cases value with ⟨single, -⟩ | ⟨first, rest, parts, split⟩
  · rw [single, List.mem_singleton] at listed
    exact listed ▸ member
  · have less : rest.length < value.length := by simp [parts]; omega
    rw [split, List.mem_cons] at listed
    rw [parts, List.mem_append, List.mem_cons]
    rcases listed with rfl | later
    · exact .inl member
    · exact .inr (.inr (mem_of_item rest later member))
termination_by value.length

end Items

end Apib.Http
