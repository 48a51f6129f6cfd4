import Cti.Normalize

set_option autoImplicit false

namespace Cti

open Py (Str Unicode Matcher)

/-- A pattern in lower case, matched ignoring case. -/
def literalIgnoringCase (src dst : Str) : Matcher := fun _ rest =>
  if startsIgnoringCase src rest then some (src.length, dst) else none

/-- `_PATTERNS` of the defang enricher. -/
def defangPatterns (U : Unicode) : List Matcher :=
  [Py.literal "[.]".toList ".".toList, Py.literal "(.)".toList ".".toList,
    literalIgnoringCase ['{', 'd', 'o', 't', '}'] ".".toList,
    literalIgnoringCase "[at]".toList "@".toList,
    literalIgnoringCase "[://]".toList "://".toList,
    webScheme U "hxxp".toList, webScheme U "h[ttp]".toList]

/-- What the defang enricher makes of a value. -/
def defang (U : Unicode) (value : Str) : Str :=
  (defangPatterns U).foldl (fun value pattern => Py.sub pattern none 0 value) value

structure AllowlistConfig where
  dropPrivateIps : Bool
  domains : List Str
  ips : List Str
  urls : List Str

/-- A network: its version, its address as a number, and the length of its prefix. -/
structure IpNetwork where
  version : Nat
  address : Nat
  prefixlen : Nat

/-- `_PRIVATE_NETS`. -/
def privateNets : List IpNetwork :=
  [⟨4, 0x0a000000, 8⟩, ⟨4, 0xac100000, 12⟩, ⟨4, 0xc0a80000, 16⟩, ⟨4, 0x7f000000, 8⟩,
    ⟨4, 0xa9fe0000, 16⟩, ⟨6, 1, 128⟩, ⟨6, 0xfc000000000000000000000000000000, 7⟩,
    ⟨6, 0xfe800000000000000000000000000000, 10⟩]

inductive IpAddress where
  | v4 (address : Ipaddress.IPv4Address)
  | v6 (address : Ipaddress.IPv6Address)

/-- `ipaddress.ip_address`. -/
def ipAddress (text : Str) : Option IpAddress :=
  match Ipaddress.IPv4Address.parse text with
  | some address => some (.v4 address)
  | none => (Ipaddress.IPv6Address.parse text).map .v6

def IpAddress.str : IpAddress → Str
  | .v4 address => address.str
  | .v6 address => address.str

def IpAddress.toNat : IpAddress → Nat
  | .v4 address => ((address.a * 256 + address.b) * 256 + address.c) * 256 + address.d
  | .v6 address => address.hextets.foldl (fun sofar hextet => sofar * 65536 + hextet.val) 0

/-- `ip in net`. -/
def IpNetwork.contains (net : IpNetwork) (ip : IpAddress) : Bool :=
  let (version, bits) := match ip with
    | .v4 _ => (4, 32)
    | .v6 _ => (6, 128)
  version == net.version && ip.toNat >>> (bits - net.prefixlen) == net.address >>> (bits - net.prefixlen)

/-- A MaxMind database reader: the record of an address, if there is one. -/
abbrev Reader := Str → Except Exc (Option Dict)

/-- The shipped enrichers, with what their configuration sets up. -/
inductive Enricher where
  | defang (enabled : Bool)
  | allowlist (config : AllowlistConfig)
  | geoip (reader : Option Reader)
  | asn (reader : Option Reader)

variable (R : Runtime)

/-- Whether the allowlist drops an indicator. -/
def allowlisted (config : AllowlistConfig) (ind : Indicator) : Bool :=
  match ind.type with
  | .ipv4 | .ipv6 =>
      match ipAddress ind.value with
      | none => false
      | some ip =>
          (config.dropPrivateIps && privateNets.any fun net => net.contains ip) ||
            config.ips.any fun s => ip.str = s
  | .domain =>
      let v := Py.lower R.unicode ind.value
      config.domains.any fun d =>
        let d := Py.lower R.unicode d
        v = d || decide (('.' :: d) <:+ v)
  | .url => config.urls.any fun u => u.isPrefixOf ind.value
  | _ => false

/-- Append a tag and drop repeated ones. -/
def Indicator.addTag (ind : Indicator) (tag : Str) : Indicator :=
  { ind with tags := (ind.tags ++ [tag]).eraseDups }

/-- The record of an IP indicator; a failing reader counts as no record. -/
def readerRecord (reader : Option Reader) (ind : Indicator) : Option Dict :=
  match reader with
  | none => none
  | some get =>
      if ind.type = .ipv4 ∨ ind.type = .ipv6 then
        match get ind.value with
        | .ok record => record
        | .error _ => none
      else none

/-- `(record.get("country") or {}).get("iso_code")`. -/
def isoCode (record : Dict) : Except Exc (Option Val) :=
  match record.get "country".toList with
  | none => .ok none
  | some country =>
      if country.truthy then
        match country with
        | .dict entries => .ok (Dict.get entries "iso_code".toList)
        | other => .error (ClassName.attributeError.exc
            (R.repr other.typeName ++ " object has no attribute 'get'".toList))
      else .ok none

/-- `enrich_sync` of the shipped enrichers. -/
def Enricher.enrichSync (enricher : Enricher) (ind : Indicator) : Except Exc (Option Indicator) :=
  match enricher with
  | .defang enabled =>
      .ok (some (if enabled then { ind with value := Cti.defang R.unicode ind.value } else ind))
  | .allowlist config => .ok (if allowlisted R config ind then none else some ind)
  | .geoip reader =>
      match readerRecord reader ind with
      | none | some [] => .ok (some ind)
      | some record => do
          match ← isoCode R record with
          | none => return some ind
          | some country =>
              return some (if country.truthy then
                ind.addTag ("country:".toList ++ country.text R) else ind)
  | .asn reader =>
      match readerRecord reader ind with
      | none => .ok (some ind)
      | some record =>
          match record.get "autonomous_system_number".toList with
          | none => .ok (some ind)
          | some number => .ok (some (ind.addTag ("asn:AS".toList ++ number.text R)))

/-- The loop of `run_enrich` over the enrichers of one indicator. -/
def enrichChain : List Enricher → Indicator → Except Exc (Option Indicator)
  | [], ind => .ok (some ind)
  | enricher :: enrichers, ind => do
      match ← enricher.enrichSync R ind with
      | none => return none
      | some ind => enrichChain enrichers ind

end Cti
