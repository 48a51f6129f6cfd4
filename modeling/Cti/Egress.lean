import Cti.CanonicalForm
import Cti.Enrichers
import Cti.HttpBase

set_option autoImplicit false

/- The guard against requests to internal hosts. -/
namespace Cti

open Py (Str)

/-- `_DENY_NETS`. -/
def denyNets : List IpNetwork :=
  [⟨4, 0x00000000, 8⟩, ⟨4, 0x0a000000, 8⟩, ⟨4, 0x64400000, 10⟩, ⟨4, 0x7f000000, 8⟩,
    ⟨4, 0xa9fe0000, 16⟩, ⟨4, 0xac100000, 12⟩, ⟨4, 0xc0000000, 24⟩, ⟨4, 0xc0000200, 24⟩,
    ⟨4, 0xc0a80000, 16⟩, ⟨4, 0xc6120000, 15⟩, ⟨4, 0xc6336400, 24⟩, ⟨4, 0xcb007100, 24⟩,
    ⟨4, 0xe0000000, 4⟩, ⟨4, 0xf0000000, 4⟩, ⟨6, 1, 128⟩,
    ⟨6, 0xfc000000000000000000000000000000, 7⟩, ⟨6, 0xfe800000000000000000000000000000, 10⟩]

/-- `_is_blocked`. A text that is no address is not blocked. -/
def isBlocked (addr : Str) : Bool :=
  match ipAddress addr with
  | none => false
  | some ip => denyNets.any fun net => net.contains ip

/-- What `getaddrinfo` raises: an `OSError` or something else. -/
inductive ResolveError where
  | os (message : Str)
  | other (failure : Failure)

/-- The addresses that `getaddrinfo` returns for a host. -/
abbrev Resolver := Str → Except ResolveError (List Str)

/-- `check_url`. -/
def checkUrl (R : Runtime) (resolve : Resolver) (url : Str) (allowHttp : Bool) :
    Except Failure Unit :=
  match Urllib.urlparse R.unicode url with
  | none => .error (.leaf (ClassName.valueError.exc (R.urlError url)) rfl)
  | some parsed =>
      if parsed.scheme ≠ "http".toList ∧ parsed.scheme ≠ "https".toList then
        .error (ctiFailure .egressBlocked rfl ("unsupported scheme: ".toList ++ parsed.scheme))
      else if parsed.scheme = "http".toList ∧ allowHttp = false then
        .error (ctiFailure .egressBlocked rfl
          ("plaintext HTTP forbidden by default: ".toList ++ url))
      else
        match Urllib.hostname R.unicode parsed.netloc with
        | none | some [] =>
            .error (ctiFailure .egressBlocked rfl ("missing host in URL: ".toList ++ url))
        | some host =>
            match resolve host with
            | .error (.os message) => .error (ctiFailure .egressBlocked rfl
                ("DNS failure for ".toList ++ host ++ ": ".toList ++ message))
            | .error (.other failure) => .error failure
            | .ok addrs =>
                match addrs.find? isBlocked with
                | some addr => .error (ctiFailure .egressBlocked rfl
                    ("blocked egress: ".toList ++ host ++ " -> ".toList ++ addr))
                | none => .ok ()

variable {R : Runtime} {resolve : Resolver} {url : Str} {allowHttp : Bool}

/-- The host of a URL with a permitted scheme. -/
def PermittedHost (R : Runtime) (url : Str) (allowHttp : Bool) (host : Str) : Prop :=
  ∃ parsed, Urllib.urlparse R.unicode url = some parsed ∧
    (parsed.scheme = "https".toList ∨ parsed.scheme = "http".toList ∧ allowHttp = true) ∧
    Urllib.hostname R.unicode parsed.netloc = some host ∧ host ≠ []

theorem permitted_scheme {scheme : Str}
    (schemed : ¬ (scheme ≠ "http".toList ∧ scheme ≠ "https".toList))
    (encrypted : ¬ (scheme = "http".toList ∧ allowHttp = false)) :
    scheme = "https".toList ∨ scheme = "http".toList ∧ allowHttp = true := by
  by_cases secure : scheme = "https".toList
  · exact Or.inl secure
  · have plain : scheme = "http".toList := by
      by_contra other
      exact schemed ⟨other, secure⟩
    refine Or.inr ⟨plain, ?_⟩
    by_contra refused
    exact encrypted ⟨plain, by simpa using refused⟩

/-- A URL passes if it has a permitted scheme and a host that resolves to addresses none of
which is blocked. -/
theorem checkUrl_ok :
    checkUrl R resolve url allowHttp = .ok () ↔
      ∃ host addrs, PermittedHost R url allowHttp host ∧ resolve host = .ok addrs ∧
        ∀ addr ∈ addrs, isBlocked addr = false := by
  unfold checkUrl
  constructor
  · intro passed
    split at passed
    · cases passed
    rename_i parsed parse
    split at passed
    · cases passed
    rename_i schemed
    split at passed
    · cases passed
    rename_i encrypted
    split at passed
    · cases passed
    · cases passed
    rename_i host nonempty named
    split at passed
    · cases passed
    · cases passed
    rename_i addrs resolved
    split at passed
    · cases passed
    rename_i free
    refine ⟨host, addrs, ⟨parsed, parse, permitted_scheme schemed encrypted, named, nonempty⟩,
      resolved, ?_⟩
    intro addr member
    simpa using List.find?_eq_none.mp free addr member
  · rintro ⟨host, addrs, ⟨parsed, parse, schemed, named, nonempty⟩, resolved, free⟩
    have unblocked : addrs.find? isBlocked = none := by
      rw [List.find?_eq_none]
      intro addr member
      simp [free addr member]
    obtain ⟨c, rest, rfl⟩ := List.exists_cons_of_ne_nil nonempty
    rcases schemed with secure | ⟨plain, allowed⟩
    · simp [parse, secure, named, resolved, unblocked]
    · simp [parse, plain, allowed, named, resolved, unblocked]

section addresses

/-- The high and the low byte of a hextet. -/
def hextetBytes (hextet : Fin 65536) : Fin 256 × Fin 256 :=
  (⟨hextet / 256, by omega⟩, ⟨hextet % 256, by omega⟩)

/-- `ipv4_mapped`. -/
def ipv4Mapped (address : Ipaddress.IPv6Address) : Option Ipaddress.IPv4Address :=
  match address.hextets with
  | [0, 0, 0, 0, 0, 0xffff, hi, lo] =>
      some ⟨(hextetBytes hi).1, (hextetBytes hi).2, (hextetBytes lo).1, (hextetBytes lo).2⟩
  | _ => none

/-- The host that an address denotes: an IPv4-mapped address denotes an IPv4 host. -/
def IpAddress.host : IpAddress → IpAddress
  | .v4 address => .v4 address
  | .v6 address =>
      match ipv4Mapped address with
      | some mapped => .v4 mapped
      | none => .v6 address

/-- The address denotes a host in a denied network. -/
def Denied (addr : Str) : Prop :=
  ∃ ip, ipAddress addr = some ip ∧ (denyNets.any fun net => net.contains ip.host) = true

/-- The address is an IPv4-mapped one of a denied IPv4 host. -/
def MappedDenied (addr : Str) : Prop :=
  ∃ address mapped, ipAddress addr = some (.v6 address) ∧ ipv4Mapped address = some mapped ∧
    (denyNets.any fun net => net.contains (.v4 mapped)) = true

theorem mapped_not_blocked {address : Ipaddress.IPv6Address} {mapped : Ipaddress.IPv4Address}
    (maps : ipv4Mapped address = some mapped) :
    (denyNets.any fun net => net.contains (.v6 address)) = false := by
  unfold ipv4Mapped at maps
  split at maps
  · rename_i hi lo hextets
    have number : (IpAddress.v6 address).toNat = 0xffff00000000 + hi * 65536 + lo := by
      simp only [IpAddress.toNat, hextets, List.foldl_cons, List.foldl_nil]
      omega
    simp only [denyNets, IpNetwork.contains, number, List.any_cons, List.any_nil,
      Nat.shiftRight_eq_div_pow]
    have hi := hi.isLt
    have lo := lo.isLt
    simp
    omega
  · cases maps

/-- Only mapped addresses denote other hosts than themselves. -/
theorem denied_iff (addr : Str) : Denied addr ↔ isBlocked addr = true ∨ MappedDenied addr := by
  unfold Denied MappedDenied isBlocked
  cases parse : ipAddress addr with
  | none => simp
  | some ip =>
      cases ip with
      | v4 address => simp [IpAddress.host]
      | v6 address =>
          cases maps : ipv4Mapped address with
          | none => simp [IpAddress.host, maps]
          | some mapped =>
              have unblocked := mapped_not_blocked maps
              simp [IpAddress.host, maps, unblocked]

end addresses

/-- The guard lets a URL through only if none of the addresses denotes a denied host, and
always if none does and the URL has a permitted scheme and a host. -/
def GuardSound (R : Runtime) (url : Str) (allowHttp : Bool) (addrs : List Str) : Prop :=
  (checkUrl R (fun _ => .ok addrs) url allowHttp = .ok () → ∀ addr ∈ addrs, ¬ Denied addr) ∧
    ((∃ host, PermittedHost R url allowHttp host) → (∀ addr ∈ addrs, ¬ Denied addr) →
      checkUrl R (fun _ => .ok addrs) url allowHttp = .ok ())

/-- The guard misses denied hosts behind IPv4-mapped addresses, and nothing else. -/
theorem egress_guard_sound_iff (R : Runtime) (url : Str) (allowHttp : Bool) (addrs : List Str) :
    GuardSound R url allowHttp addrs ↔
      (∀ addr ∈ addrs, ¬ MappedDenied addr) ∨ (∃ addr ∈ addrs, isBlocked addr = true) ∨
        ∀ host, ¬ PermittedHost R url allowHttp host := by
  have passes : checkUrl R (fun _ => .ok addrs) url allowHttp = .ok () ↔
      (∃ host, PermittedHost R url allowHttp host) ∧ ∀ addr ∈ addrs, isBlocked addr = false := by
    rw [checkUrl_ok]
    constructor
    · rintro ⟨host, _, permitted, ⟨rfl⟩, free⟩
      exact ⟨⟨host, permitted⟩, free⟩
    · rintro ⟨⟨host, permitted⟩, free⟩
      exact ⟨host, addrs, permitted, rfl, free⟩
  unfold GuardSound
  simp only [passes, denied_iff]
  constructor
  · rintro ⟨sound, _⟩
    by_cases hosted : ∃ host, PermittedHost R url allowHttp host
    · by_cases free : ∀ addr ∈ addrs, isBlocked addr = false
      · exact Or.inl fun addr member mapped => sound ⟨hosted, free⟩ addr member (Or.inr mapped)
      · refine Or.inr (Or.inl ?_)
        simpa using free
    · exact Or.inr (Or.inr fun host permitted => hosted ⟨host, permitted⟩)
  · intro covered
    refine ⟨?_, ?_⟩
    · rintro ⟨⟨host, permitted⟩, free⟩ addr member (blocked | mapped)
      · rw [free addr member] at blocked
        cases blocked
      · rcases covered with unmapped | ⟨other, inside, blocked⟩ | unhosted
        · exact unmapped addr member mapped
        · rw [free other inside] at blocked
          cases blocked
        · exact unhosted host permitted
    · intro hosted undenied
      refine ⟨hosted, fun addr member => ?_⟩
      by_contra blocked
      exact undenied addr member (Or.inl (by simpa using blocked))

/-- The metadata service behind an IPv4-mapped address. -/
theorem egress_guard_unsound_mapped :
    checkUrl asciiRuntime (fun _ => .ok ["::ffff:169.254.169.254".toList])
        "https://[::ffff:169.254.169.254]/".toList false = .ok () ∧
      Denied "::ffff:169.254.169.254".toList ∧
      ¬ GuardSound asciiRuntime "https://[::ffff:169.254.169.254]/".toList false
        ["::ffff:169.254.169.254".toList] := by
  have passed : checkUrl asciiRuntime (fun _ => .ok ["::ffff:169.254.169.254".toList])
      "https://[::ffff:169.254.169.254]/".toList false = .ok () := by
    rfl
  have denied : Denied "::ffff:169.254.169.254".toList := by
    exact ⟨_, rfl, by decide⟩
  exact ⟨passed, denied, fun sound => sound.1 passed _ List.mem_cons_self denied⟩

end Cti
