/-
**The options for headers.**

`apib_main.cc`, the options that header lines come from: `-H`, `-t`, `-u`, `-O` and `-k`, in the order of
the command line, with the flags that `addHeader` and `processOAuth` set for `writeRequest`; and
`Base64encode` of `base64.c`.

* `set_iff`: a flag is set exactly if a header was added under the name, or for `Authorization` if the
  request is to be signed.
-/

import Apib.Main.Threads
import Apib.Monitor.Protocol
import Apib.OAuth.BaseString

namespace Apib.Main

open Monitor OAuth

/-! ### The options -/

/-- The array `basis_64`. -/
def basis64 : Bytes := ascii "ABCDEFGHIJKLMNOPQRSTUVWXYZabcdefghijklmnopqrstuvwxyz0123456789+/"

/-- A character of `basis_64`. -/
def basisChar (sextet : UInt8) : UInt8 := basis64.getD sextet.toNat 0

/-- The function `Base64encode`. -/
def base64encode : Bytes → Bytes
  | [] => []
  | [a] => [basisChar (a >>> 2 &&& 0x3f), basisChar ((a &&& 3) <<< 4), 61, 61]
  | [a, b] =>
    [basisChar (a >>> 2 &&& 0x3f), basisChar ((a &&& 3) <<< 4 ||| (b &&& 0xf0) >>> 4),
      basisChar ((b &&& 0xf) <<< 2), 61]
  | a :: b :: c :: rest =>
    basisChar (a >>> 2 &&& 0x3f) :: basisChar ((a &&& 3) <<< 4 ||| (b &&& 0xf0) >>> 4) ::
      basisChar ((b &&& 0xf) <<< 2 ||| (c &&& 0xc0) >>> 6) :: basisChar (c &&& 0x3f) ::
      base64encode rest

/-- An option of the command line that headers depend on. -/
inductive HeaderOption
  | header (val : Bytes)
  | contentType (val : Bytes)
  | basic (arg : Bytes)
  | oauth (arg : Bytes)
  | keepAlive (duration : Int)
  deriving DecidableEq, Repr

/-- The static variables that these options set. -/
structure HeaderOptions where
  contentType : Bytes := []
  keepAlive : Int := keepAliveAlways
  headers : List Bytes := []
  setHeaders : Nat := 0
  oauth : Option OAuthInfo := none
  deriving DecidableEq, Repr

/-- The flag that `addHeader` sets for the name of a header. -/
def headerFlag (name : Bytes) : Nat :=
  if eqcase name (ascii "Host") then IOThread.kHostSet
  else if eqcase name (ascii "Content-Length") then IOThread.kContentLengthSet
  else if eqcase name (ascii "Content-Type") then IOThread.kContentTypeSet
  else if eqcase name (ascii "Authorization") then IOThread.kAuthorizationSet
  else if eqcase name (ascii "Connection") then IOThread.kConnectionSet
  else if eqcase name (ascii "User-Agent") then IOThread.kUserAgentSet
  else 0

namespace HeaderOptions

/-- The function `addHeader`. -/
def addHeader (val : Bytes) (h : HeaderOptions) : HeaderOptions :=
  match val.splitOn 58 with
  | [] => h
  | name :: _ =>
    { h with setHeaders := h.setHeaders ||| headerFlag name, headers := h.headers ++ [val] }

/-- The function `processOAuth`. -/
def processOAuth (arg : Bytes) (h : HeaderOptions) : HeaderOptions :=
  let parts := arg.splitOn 58
  { h with
    oauth := some
      { consumerKey := parts.getD 0 []
        consumerSecret := parts.getD 1 []
        accessToken := parts.getD 2 []
        tokenSecret := parts.getD 3 [] }
    setHeaders := h.setHeaders ||| IOThread.kAuthorizationSet }

/-- The function `processBasic`. -/
def processBasic (arg : Bytes) (h : HeaderOptions) : HeaderOptions :=
  h.addHeader (ascii "Authorization: Basic " ++ base64encode arg)

/-- One option in the loop of `main`. -/
def process (h : HeaderOptions) : HeaderOption → HeaderOptions
  | .header val => h.addHeader val
  | .contentType val => { h with contentType := val }
  | .basic arg => h.processBasic arg
  | .oauth arg => h.processOAuth arg
  | .keepAlive duration => { h with keepAlive := duration }

/-- The options of a command line, with the header that `main` adds after its loop. -/
def read (options : List HeaderOption) : HeaderOptions :=
  let h := options.foldl process {}
  if h.contentType = [] then h else h.addHeader (ascii "Content-Type: " ++ h.contentType)

/-- The options that a thread is initialized with, from these and the others. -/
def apply (h : HeaderOptions) (others : Options) : Options :=
  { others with
    keepAlive := h.keepAlive
    headers := h.headers
    setHeaders := h.setHeaders
    oauth := h.oauth.isSome }

end HeaderOptions

/-! ### The headers with a flag -/

/-- The headers that have a flag. -/
inductive Flagged
  | host | contentLength | contentType | authorization | connection | userAgent
  deriving DecidableEq, Repr

namespace Flagged

/-- The name of a header. -/
def name : Flagged → Bytes
  | host => ascii "Host"
  | contentLength => ascii "Content-Length"
  | contentType => ascii "Content-Type"
  | authorization => ascii "Authorization"
  | connection => ascii "Connection"
  | userAgent => ascii "User-Agent"

/-- The flag of a header. -/
def flag : Flagged → Nat
  | host => IOThread.kHostSet
  | contentLength => IOThread.kContentLengthSet
  | contentType => IOThread.kContentTypeSet
  | authorization => IOThread.kAuthorizationSet
  | connection => IOThread.kConnectionSet
  | userAgent => IOThread.kUserAgentSet

/-- Is this the name of the header, in any case? -/
def called (m : Flagged) (name : Bytes) : Bool := eqcase name m.name

/-- The names differ, also without regard to case. -/
theorem name_inj {m k : Flagged} : (m.name.map Numerals.tolower = k.name.map Numerals.tolower) ↔ m = k := by
  cases m <;> cases k <;> decide

theorem called_iff {m : Flagged} {name : Bytes} :
    m.called name = true ↔ name.map Numerals.tolower = m.name.map Numerals.tolower := by
  unfold called eqcase
  simp only [Bool.and_eq_true, beq_iff_eq, and_iff_right_iff_imp]
  intro same
  simpa using congrArg List.length same

/-- A name is that of one header at most. -/
theorem called_unique {m k : Flagged} {name : Bytes} (first : m.called name = true)
    (second : k.called name = true) : m = k :=
  name_inj.mp ((called_iff.mp first).symm.trans (called_iff.mp second))

/-- The flags are different bits. -/
theorem flag_and {m k : Flagged} : m.flag &&& k.flag ≠ 0 ↔ m = k := by
  cases m <;> cases k <;> decide

end Flagged

open Flagged

/-- The chain of comparisons in `addHeader`. -/
theorem headerFlag_eq (name : Bytes) :
    headerFlag name =
      if host.called name then host.flag
      else if contentLength.called name then contentLength.flag
      else if contentType.called name then contentType.flag
      else if authorization.called name then authorization.flag
      else if connection.called name then connection.flag
      else if userAgent.called name then userAgent.flag
      else 0 := rfl

theorem headerFlag_called {k : Flagged} {name : Bytes} (called : k.called name = true) :
    headerFlag name = k.flag := by
  have others (j : Flagged) (different : j ≠ k) : ¬ j.called name = true := fun here =>
    different (called_unique here called)
  rw [headerFlag_eq]
  cases k with
  | host => rw [if_pos called]
  | contentLength => rw [if_neg (others host (by decide)), if_pos called]
  | contentType =>
    rw [if_neg (others host (by decide)), if_neg (others contentLength (by decide)), if_pos called]
  | authorization =>
    rw [if_neg (others host (by decide)), if_neg (others contentLength (by decide)),
      if_neg (others contentType (by decide)), if_pos called]
  | connection =>
    rw [if_neg (others host (by decide)), if_neg (others contentLength (by decide)),
      if_neg (others contentType (by decide)), if_neg (others authorization (by decide)), if_pos called]
  | userAgent =>
    rw [if_neg (others host (by decide)), if_neg (others contentLength (by decide)),
      if_neg (others contentType (by decide)), if_neg (others authorization (by decide)),
      if_neg (others connection (by decide)), if_pos called]

/-- **`addHeader` sets the flag of the header that is called so**, and no other. -/
theorem headerFlag_and {m : Flagged} {name : Bytes} :
    headerFlag name &&& m.flag ≠ 0 ↔ m.called name = true := by
  by_cases known : ∃ k : Flagged, k.called name = true
  · obtain ⟨k, called⟩ := known
    rw [headerFlag_called called, flag_and]
    exact ⟨fun same => same ▸ called, fun here => called_unique called here⟩
  · have none_called (k : Flagged) : ¬ k.called name = true := fun called => known ⟨k, called⟩
    have no_flag : headerFlag name = 0 := by
      rw [headerFlag_eq]
      simp [none_called]
    rw [no_flag, Nat.zero_and]
    exact iff_of_false (fun zero => zero rfl) (none_called m)

/-! ### The flags of the options -/

namespace HeaderOptions

/-- The name that `addHeader` reads of a header: what stands before the first colon. -/
def readName (val : Bytes) : Bytes := (val.splitOn 58).headD []

/-- A header was added under the name. -/
def Added (h : HeaderOptions) (m : Flagged) : Prop := ∃ val ∈ h.headers, m.called (readName val) = true

/-- The flags say which headers were added, and whether the request is to be signed. -/
def Consistent (h : HeaderOptions) : Prop :=
  ∀ m : Flagged, h.setHeaders &&& m.flag ≠ 0 ↔ h.Added m ∨ m = authorization ∧ h.oauth.isSome = true

/-- One more flag. -/
theorem or_and_flag (flags more : Nat) (m : Flagged) :
    (flags ||| more) &&& m.flag ≠ 0 ↔ flags &&& m.flag ≠ 0 ∨ more &&& m.flag ≠ 0 := by
  rw [Nat.and_or_distrib_right, Ne, Nat.or_eq_zero_iff]
  tauto

theorem addHeader_eq (val : Bytes) (h : HeaderOptions) : h.addHeader val =
    { h with setHeaders := h.setHeaders ||| headerFlag (readName val), headers := h.headers ++ [val] } := by
  obtain ⟨name, rest, parts⟩ := List.exists_cons_of_ne_nil (List.splitOn_ne_nil 58 val)
  rw [addHeader, readName, parts]
  rfl

theorem Consistent.addHeader {h : HeaderOptions} (before : h.Consistent) (val : Bytes) :
    (h.addHeader val).Consistent := by
  intro m
  have old := before m
  rw [addHeader_eq]
  dsimp only
  rw [or_and_flag, headerFlag_and, old]
  simp only [Added, List.mem_append, List.mem_singleton, or_and_right, exists_or, exists_eq_left]
  exact or_right_comm

theorem Consistent.processOAuth {h : HeaderOptions} (before : h.Consistent) (arg : Bytes) :
    (h.processOAuth arg).Consistent := by
  intro m
  have old := before m
  have signed : IOThread.kAuthorizationSet &&& m.flag ≠ 0 ↔ m = authorization := by
    have same := flag_and (m := authorization) (k := m)
    exact same.trans eq_comm
  rw [HeaderOptions.processOAuth]
  dsimp only
  rw [or_and_flag, old, signed]
  simp only [Added, Option.isSome_some, and_true]
  constructor
  · rintro ((added | both) | same)
    · exact .inl added
    · exact .inr both.1
    · exact .inr same
  · rintro (added | same)
    · exact .inl (.inl added)
    · exact .inr same

/-- **One option** keeps the flags right. -/
theorem Consistent.process {h : HeaderOptions} (before : h.Consistent) (option : HeaderOption) :
    (h.process option).Consistent := by
  cases option with
  | header val => exact before.addHeader val
  | contentType val => exact before
  | basic arg => exact before.addHeader _
  | oauth arg => exact before.processOAuth arg
  | keepAlive duration => exact before

/-- **Every command line** leaves the flags right. -/
theorem set_iff (options : List HeaderOption) : (read options).Consistent := by
  have loop : (options.foldl HeaderOptions.process {}).Consistent := by
    have begun : ({} : HeaderOptions).Consistent := by
      intro m
      refine iff_of_false (by simp) ?_
      rintro (⟨val, member, -⟩ | ⟨-, signed⟩)
      · cases member
      · cases signed
    generalize ({} : HeaderOptions) = h at begun
    induction options generalizing h with
    | nil => exact begun
    | cons option options ih => exact ih _ (begun.process option)
  unfold read
  dsimp only
  split
  · exact loop
  · exact loop.addHeader _

end HeaderOptions

end Apib.Main
