/-
**Addresses and URLs.**

`addresses.cc` and the part of `apib_url.cc` that a running thread uses: the address of a URL for a
thread, the comparison of servers, and the choice of the next URL. A URL is a value that never
changes after the list is built, so a pointer to one (`URLRef`) is its place in the list together
with the URL found there.

* `isSameServer_iff`: two URLs are on the same server exactly when their addresses are equal; the
  scheme does not enter.
* `getNext_mem`: the URL drawn is the one at its place in the list.
-/

import Apib.HttpParser.State

namespace Apib

/-- An `Address`: what `operator==` compares, the family and `length()` bytes of the storage. -/
inductive Address
  | unspec
  | inet (port : UInt16) (addr : UInt32)
  | inet6 (port : UInt16) (flowinfo : UInt32) (addr : Bytes) (scopeId : UInt32)
  deriving DecidableEq, Repr

namespace Address

/-- Does the address have a family? -/
def valid : Address → Bool
  | .unspec => false
  | _ => true

/-- The address stamped with a port. -/
def setPort (port : UInt16) : Address → Address
  | .unspec => .unspec
  | .inet _ addr => .inet port addr
  | .inet6 _ flowinfo addr scopeId => .inet6 port flowinfo addr scopeId

end Address

/-- The function `Addresses::get`: the address for a sequence number, stamped with the port. -/
def Addresses.get (addresses : List Address) (port : UInt16) (sequence : Nat) : Address :=
  match addresses[sequence % addresses.length]? with
  | none => .unspec
  | some addr => addr.setPort port

/-- A `URLInfo`. -/
structure URLInfo where
  port : UInt16 := 80
  isSsl : Bool := false
  path : Bytes
  pathOnly : Bytes := []
  query : Bytes := []
  hostName : Bytes
  hostHeader : Bytes
  addresses : List Address
  deriving DecidableEq, Repr

/-- The method `URLInfo::address`. -/
def URLInfo.address (url : URLInfo) (sequence : Nat) : Address :=
  Addresses.get url.addresses url.port sequence

/-- The function `URLInfo::IsSameServer`. -/
def isSameServer (u1 u2 : URLInfo) (sequence : Nat) : Bool :=
  u1.address sequence == u2.address sequence

theorem isSameServer_iff {u1 u2 : URLInfo} {sequence : Nat} :
    isSameServer u1 u2 sequence = true ↔ u1.address sequence = u2.address sequence := by
  simp [isSameServer]

/-- A pointer to a URL of the list: its place, and the URL there. -/
structure URLRef where
  place : Nat
  info : URLInfo
  deriving DecidableEq, Repr

/-- The call `RandomGenerator::get(min, max)`, from the number the generator gives. -/
def randGet (draw min max : Nat) : Nat := min + draw % (max - min + 1)

/-- The function `URLInfo::GetNext` on a list that is not empty. -/
def getNext (urls : List URLInfo) (some_url : urls ≠ []) (draw : Nat) : URLRef :=
  if urls.length = 1 then ⟨0, urls.head some_url⟩
  else
    let ix := randGet draw 0 (urls.length - 1)
    ⟨ix, urls.get ⟨ix, by
      have positive : 0 < urls.length := List.length_pos_iff.mpr some_url
      have below := Nat.mod_lt draw (show 0 < urls.length - 1 - 0 + 1 by omega)
      simp only [ix, randGet]
      omega⟩⟩

/-- **The URL drawn is the one at its place.** -/
theorem getNext_mem (urls : List URLInfo) (some_url : urls ≠ []) (draw : Nat) :
    urls[(getNext urls some_url draw).place]? = some (getNext urls some_url draw).info := by
  unfold getNext
  split
  · simp [List.head?_eq_some_head some_url, ← List.head?_eq_getElem?]
  · simp

end Apib
