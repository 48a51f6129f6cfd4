import Cti.Ipaddress
import Mathlib.Algebra.Ring.Nat

set_option autoImplicit false

/- IPv4 networks as Python's `ipaddress` module reads and writes them. -/
namespace Ipaddress

open Py (Str)

/-- `int(address)`. -/
def IPv4Address.toNat (address : IPv4Address) : Nat :=
  ((address.a * 256 + address.b) * 256 + address.c) * 256 + address.d

/-- `IPv4Address(n)`, for at most 32 bits. -/
def IPv4Address.ofNat (n : Nat) : IPv4Address :=
  ⟨Fin.ofNat 256 (n / 16777216), Fin.ofNat 256 (n / 65536), Fin.ofNat 256 (n / 256),
    Fin.ofNat 256 n⟩

theorem IPv4Address.toNat_lt (address : IPv4Address) : address.toNat < 4294967296 := by
  have a := address.a.isLt
  have b := address.b.isLt
  have c := address.c.isLt
  have d := address.d.isLt
  unfold toNat
  omega

theorem IPv4Address.toNat_ofNat {n : Nat} (small : n < 4294967296) : (ofNat n).toNat = n := by
  simp only [toNat, ofNat, Fin.val_ofNat]
  omega

/-- The number of addresses with a prefix. -/
def addresses (prefixlen : Nat) : Nat := 2 ^ (32 - prefixlen)

/-- A network begins at a multiple of its size. -/
structure IPv4Network where
  network : IPv4Address
  prefixlen : Nat
  bounded : prefixlen ≤ 32
  aligned : network.toNat % addresses prefixlen = 0

/-- `_prefix_from_prefix_string`. -/
def prefixFromString (text : Str) : Option Nat :=
  if text = [] ∨ text.all Char.isDigit = false then none
  else
    let prefixlen := Nat.ofDigitChars 10 text 0
    if prefixlen ≤ 32 then some prefixlen else none

/-- The prefix whose netmask, or else whose hostmask, is the address. -/
def prefixFromMask (mask : IPv4Address) : Option Nat :=
  let find (n : Nat) := (List.range 33).find? fun p => 4294967296 - addresses p = n
  (find mask.toNat).or (find (4294967295 - mask.toNat))

/-- `_make_netmask`, of which the prefix. -/
def prefixOf (text : Str) : Option Nat :=
  match prefixFromString text with
  | some prefixlen => some prefixlen
  | none => (IPv4Address.parse text).bind prefixFromMask

theorem prefixFromString_le {text : Str} {n : Nat} (found : prefixFromString text = some n) :
    n ≤ 32 := by
  unfold prefixFromString at found
  split at found
  · cases found
  · dsimp only at found
    split at found
    · cases found
      assumption
    · cases found

theorem prefixOf_le {text : Str} {n : Nat} (found : prefixOf text = some n) : n ≤ 32 := by
  unfold prefixOf at found
  split at found
  · rename_i p read
    cases found
    exact prefixFromString_le read
  · obtain ⟨mask, _, found⟩ := Option.bind_eq_some_iff.mp found
    have inside {m : Nat}
        (found : (List.range 33).find? (fun p => 4294967296 - addresses p = m) = some n) :
        n ≤ 32 := by
      have member := List.mem_of_find?_eq_some found
      rw [List.mem_range] at member
      omega
    rcases Option.or_eq_some_iff.mp found with netmask | ⟨_, hostmask⟩
    · exact inside netmask
    · exact inside hostmask

/-- The network of an address. -/
def IPv4Network.around (address : IPv4Address) (prefixlen : Nat) (bounded : prefixlen ≤ 32) :
    IPv4Network where
  network := .ofNat (address.toNat - address.toNat % addresses prefixlen)
  prefixlen := prefixlen
  bounded := bounded
  aligned := by
    have small : address.toNat - address.toNat % addresses prefixlen < 4294967296 :=
      Nat.lt_of_le_of_lt (Nat.sub_le _ _) address.toNat_lt
    rw [IPv4Address.toNat_ofNat small]
    exact Nat.sub_mod_eq_zero_of_mod_eq (Nat.mod_mod _ _).symm

/-- `IPv4Network(text, strict=False)`. -/
def IPv4Network.parse (text : Str) : Option IPv4Network :=
  match text.splitOn '/' with
  | [address] => do
      let address ← IPv4Address.parse address
      return .around address 32 (Nat.le_refl _)
  | [address, mask] => do
      let address ← IPv4Address.parse address
      match found : prefixOf mask with
      | some prefixlen => return .around address prefixlen (prefixOf_le found)
      | none => none
  | _ => none

/-- `str(network)`. -/
def IPv4Network.str (net : IPv4Network) : Str :=
  net.network.str ++ '/' :: Nat.toDigits 10 net.prefixlen

/-- `network.hosts()`: without the network and the broadcast address, if there are others. -/
def IPv4Network.hosts (net : IPv4Network) : List IPv4Address :=
  if 31 ≤ net.prefixlen then
    (List.range (addresses net.prefixlen)).map fun i => .ofNat (net.network.toNat + i)
  else
    (List.range (addresses net.prefixlen - 2)).map fun i => .ofNat (net.network.toNat + 1 + i)

theorem IPv4Address.parse_slash {text : Str} (slash : '/' ∈ text) : parse text = none := by
  cases read : parse text with
  | none => rfl
  | some address =>
      rcases parse_plain read '/' slash with digit | dot
      · exact absurd digit (by decide)
      · exact absurd dot (by decide)

end Ipaddress
