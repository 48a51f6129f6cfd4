import Cti.CanonicalForm
import Cti.DefangedAddress
import Cti.Enrichers

set_option autoImplicit false

/- The entries of the allowlist, against the canonical values that they are compared with. -/
namespace Ipaddress

theorem IPv6Address.colon_mem_str (address : IPv6Address) : ':' ∈ address.str := by
  rw [IPv6Address.str]
  apply List.mem_append_left
  by_contra absent
  have back := ipInt_compressHextets address.hextets address.size
  simp [ipInt, List.splitOn_eq_singleton absent] at back

end Ipaddress

namespace Cti

open Py (Str Unicode)

variable {R : Runtime}

/-- Reading the value of an address back. -/
theorem ipAddress_v4 (address : Ipaddress.IPv4Address) :
    ipAddress address.str = some (.v4 address) := by
  rw [ipAddress, Ipaddress.IPv4Address.parse_str]

theorem ipAddress_v6 (address : Ipaddress.IPv6Address) :
    ipAddress address.str = some (.v6 address) := by
  have other : Ipaddress.IPv4Address.parse address.str = none := by
    cases parsed : Ipaddress.IPv4Address.parse address.str with
    | none => rfl
    | some four =>
        rcases Ipaddress.IPv4Address.parse_plain parsed ':' address.colon_mem_str with digit | dot
        · cases digit
        · cases dot
  rw [ipAddress, other, Ipaddress.IPv6Address.parse_str]
  rfl

section built

/-- An indicator as `Indicator.build` makes it. -/
def Built (R : Runtime) (ind : Indicator) : Prop :=
  ∃ t v fields, Indicator.build R t v fields = .ok ind

/-- A canonical form that canonicalizes again is the value of an indicator. -/
theorem exists_built_of {t : IndicatorType} {v c again : Str} (first : canonicalize R t v = .ok c)
    (second : canonicalize R t c = .ok again) (trimmed : Py.strip c = c) :
    ∃ ind, Built R ind ∧ ind.type = t ∧ ind.value = c := by
  let fields : IndicatorFields := ⟨50, .info, .clear, [], 0, 0⟩
  obtain ⟨ind, built⟩ : ∃ ind, Indicator.build R t v fields = .ok ind := by
    simp only [Indicator.build, indicatorUuid, first, second, bind, Except.bind, pure, Except.pure]
    exact ⟨_, rfl⟩
  obtain ⟨canonical, _, form, _, type, value, _⟩ := Indicator.build_eq built
  rw [first, Except.ok.injEq] at form
  exact ⟨ind, ⟨t, v, fields, built⟩, type, by rw [value, ← form, trimmed]⟩

theorem exists_built {t : IndicatorType} {c : Str} (fixed : canonicalize R t c = .ok c)
    (trimmed : Py.strip c = c) : ∃ ind, Built R ind ∧ ind.type = t ∧ ind.value = c :=
  exists_built_of fixed fixed trimmed

/-- The value of an address indicator is the text of an address of its type. -/
theorem Built.address {ind : Indicator} (built : Built R ind)
    (kind : ind.type = .ipv4 ∨ ind.type = .ipv6) :
    canonicalize R ind.type ind.value = .ok ind.value ∧
      ∃ ip, ipAddress ind.value = some ip ∧ ip.str = ind.value := by
  obtain ⟨t, v, fields, built⟩ := built
  obtain ⟨c, _, first, _, rfl, value, _⟩ := Indicator.build_eq built
  by_cases empty : Py.strip v = []
  · simp [canonicalize, empty] at first
  simp only [canonicalize, if_neg empty] at first
  rcases kind with kind | kind
  · rw [kind] at first ⊢
    dsimp only at first
    split at first
    · rename_i address _
      cases first
      obtain ⟨fixed, trimmed⟩ := ipv4_fixed (R := R) address
      rw [value, trimmed]
      exact ⟨fixed, _, ipAddress_v4 address, rfl⟩
    · cases first
  · rw [kind] at first ⊢
    dsimp only at first
    split at first
    · rename_i address read
      cases first
      obtain ⟨fixed, trimmed⟩ := ipv6_fixed (R := R) (Py.trimmed_strip v) read
      rw [value, trimmed]
      exact ⟨fixed, _, ipAddress_v6 address, rfl⟩
    · cases first

theorem canonicalize_domain {v c : Str} (result : canonicalize R .domain v = .ok c) :
    canonicalDomain R (Py.strip v) = .ok c := by
  by_cases empty : Py.strip v = []
  · simp [canonicalize, empty] at result
  · simpa only [canonicalize, if_neg empty] using result

/-- The value of a domain indicator is a canonical domain without a line feed at its end. -/
theorem Built.domain {ind : Indicator} (built : Built R ind) (kind : ind.type = .domain) :
    CanonicalDomain ind.value ∧ Py.Trimmed ind.value := by
  obtain ⟨t, v, fields, built⟩ := built
  obtain ⟨c, again, first, second, rfl, value, _⟩ := Indicator.build_eq built
  rw [kind] at first second
  have canonical := (canonicalDomain_eq (canonicalize_domain first)).2
  rcases canonical.trimmed with ⟨_, trimmed⟩ | ⟨body, rfl, nonempty, trimmed⟩
  · rw [value, Py.strip_of_trimmed trimmed]
    exact ⟨canonical, trimmed⟩
  · -- The value lacks the line feed, and it is what canonicalizing again gives.
    have short : Py.strip (body ++ ['\n']) = body := Py.strip_concat trimmed nonempty (by decide)
    have result := canonicalize_domain second
    rw [short] at result
    have chars : ∀ e ∈ body, isDomainChar e = true := fun e member =>
      canonical.chars e (List.mem_append_left _ member)
    have undotted : Py.rstrip (· == '.') body = body := by
      apply Py.rstrip_eq_self
      intro e last
      rcases canonical.ends.last with ⟨f, final, alnum⟩ | ⟨body', same, f, final, alnum⟩
      · rw [List.getLast?_concat, Option.some.injEq] at final
        subst final
        cases alnum
      · rw [← List.append_cancel_right same, last, Option.some.injEq] at final
        subst final
        rw [beq_eq_false_iff_ne]
        rintro rfl
        cases alnum
    have same := canonicalDomain_plain chars result
    rw [undotted] at same
    rw [value, short, ← same]
    exact ⟨(canonicalDomain_eq result).2, by rwa [same]⟩

end built

section domains

/-- A domain, or one of its subdomains. -/
def AtOrBelow (value domain : Str) : Prop := value = domain ∨ '.' :: domain <:+ value

theorem AtOrBelow.trans {a b c : Str} (first : AtOrBelow a b) (second : AtOrBelow b c) :
    AtOrBelow a c := by
  rcases first with rfl | below
  · exact second
  · rcases second with rfl | lower
    · exact Or.inr below
    · exact Or.inr (lower.trans ((List.suffix_cons '.' b).trans below))

/-- Labels that end a canonical domain are one. -/
theorem CanonicalDomain.above {value domain : Str} (canonical : CanonicalDomain value)
    (below : AtOrBelow value domain) : CanonicalDomain domain := by
  rcases below with rfl | ⟨front, rfl⟩
  · exact canonical
  · have parts : domain.splitOn '.' ⊆ (front ++ '.' :: domain).splitOn '.' := by
      rw [List.splitOn_append_cons_self]
      exact List.subset_append_right _ _
    exact ⟨fun label member => canonical.labels label (parts member),
      fun label member => canonical.short label (parts member),
      fun c member => canonical.chars c (by simp [member])⟩

theorem trimmed_above {value domain : Str} (trimmed : Py.Trimmed value)
    (canonical : CanonicalDomain domain) (below : AtOrBelow value domain) :
    Py.Trimmed domain := by
  rcases canonical.trimmed with ⟨_, trimmed⟩ | ⟨body, rfl, _, _⟩
  · exact trimmed
  · have feed : value.getLast? = some '\n' := by
      rcases below with rfl | ⟨front, rfl⟩
      · exact List.getLast?_concat
      · rw [← List.cons_append, ← List.append_assoc]
        exact List.getLast?_concat
    exact absurd (trimmed.2 '\n' feed) (by decide)

/-- An entry whose lower-case form is canonical canonicalizes to that form. -/
theorem canonicalize_of_lower {d : Str} (canonical : CanonicalDomain (Py.lower R.unicode d))
    (trimmed : Py.Trimmed (Py.lower R.unicode d)) :
    canonicalize R .domain d = .ok (Py.lower R.unicode d) := by
  have absent : ∀ c, c ∈ ['[', '(', ':'] → c ∉ d := by
    intro c bad member
    have symbol : Py.isAscii c = true ∧ c.toLower = c := by
      simp only [List.mem_cons, List.not_mem_nil, or_false] at bad
      rcases bad with rfl | rfl | rfl <;> decide
    have plain := domainChar_plain
      (canonical.chars c (Py.mem_lower symbol.1 symbol.2 member))
    simp only [List.mem_cons, List.not_mem_nil, or_false] at bad
    rcases bad with rfl | rfl | rfl
    · exact plain.2.2.1 rfl
    · exact plain.2.2.2.1 rfl
    · exact plain.2.2.2.2.1 rfl
  have some : Py.lower R.unicode d ≠ [] := by
    intro empty
    obtain ⟨c, head, _⟩ := canonical.ends.first
    rw [empty] at head
    cases head
  have entry : Py.Trimmed d := by
    constructor
    · intro c head
      obtain ⟨e, first⟩ : ∃ e, (Py.lower R.unicode d).head? = Option.some e :=
        Option.isSome_iff_exists.mp (by simpa using some)
      obtain ⟨c', head', same⟩ := Py.lowerFrom_head first
      rw [head, Option.some.injEq] at head'
      rw [head', ← same, trimmed.1 e first]
    · intro c last
      have final := List.getLast?_eq_some_getLast some
      obtain ⟨c', last', same⟩ := Py.lowerFrom_last final
      rw [last, Option.some.injEq] at last'
      rw [last', ← same, trimmed.2 _ final]
  have full : d ≠ [] := by
    rintro rfl
    exact some rfl
  have text : domainText R.unicode d = domainText R.unicode (Py.lower R.unicode d) := by
    rw [domainText_plain canonical.chars, domainText,
      refang_eq_self (absent '[' (by simp)) (absent '(' (by simp)) (absent ':' (by simp))]
  have fixed := canonical.fixed (R := R)
  simp only [canonicalize, Py.strip_of_trimmed entry, if_neg full]
  rw [canonicalDomain, ← text] at fixed
  rw [canonicalDomain]
  cases encoded : encodeIdna R.unicode (domainText R.unicode d) with
  | none =>
      rw [encoded] at fixed
      cases fixed
  | some domain =>
      rw [encoded] at fixed
      exact fixed

end domains

section decision

variable (R) (config : AllowlistConfig)

/-- The enricher drops the indicator. -/
def Drops (ind : Indicator) : Prop := (Enricher.allowlist config).enrichSync R ind = .ok none

/-- The rule on private networks removes the address. -/
def removedAsPrivate (value : Str) : Bool :=
  match ipAddress value with
  | none => false
  | some ip => config.dropPrivateIps && privateNets.any fun net => net.contains ip

/-- Domains and addresses are dropped by the canonical forms of the entries. -/
structure DecidesByForm : Prop where
  domain : ∀ ind, Built R ind → ind.type = .domain →
    (Drops R config ind ↔ ∃ d ∈ config.domains, ∃ c, canonicalize R .domain d = .ok c ∧
      AtOrBelow ind.value c)
  address : ∀ ind, Built R ind → ind.type = .ipv4 ∨ ind.type = .ipv6 →
    removedAsPrivate config ind.value = false →
      (Drops R config ind ↔ ∃ s ∈ config.ips, canonicalize R ind.type s = .ok ind.value)

/-- The canonical forms of the entries are among the entries: a domain apart from letter case and
perhaps as a parent domain, an address letter by letter. -/
structure ListsForms : Prop where
  domain : ∀ d ∈ config.domains, ∀ c, canonicalize R .domain d = .ok c →
    c.getLast? ≠ some '\n' → ∃ d' ∈ config.domains, AtOrBelow c (Py.lower R.unicode d')
  address : ∀ t, t = .ipv4 ∨ t = .ipv6 → ∀ s ∈ config.ips, ∀ c, canonicalize R t s = .ok c →
    removedAsPrivate config c = false → c ∈ config.ips

variable {R config}

theorem drops_iff {ind : Indicator} : Drops R config ind ↔ allowlisted R config ind = true := by
  simp [Drops, Enricher.enrichSync]

theorem drops_domain_iff {ind : Indicator} (kind : ind.type = .domain)
    (settled : Py.lower R.unicode ind.value = ind.value) :
    Drops R config ind ↔
      ∃ d ∈ config.domains, AtOrBelow ind.value (Py.lower R.unicode d) := by
  rw [drops_iff]
  simp [allowlisted, kind, settled, AtOrBelow]

theorem drops_address_iff {ind : Indicator} (built : Built R ind)
    (kind : ind.type = .ipv4 ∨ ind.type = .ipv6)
    (kept : removedAsPrivate config ind.value = false) :
    Drops R config ind ↔ ind.value ∈ config.ips := by
  obtain ⟨_, ip, parsed, text⟩ := built.address kind
  rw [removedAsPrivate, parsed] at kept
  have read : allowlisted R config ind = config.ips.any fun s => ip.str = s := by
    rcases kind with kind | kind <;> simp [allowlisted, kind, parsed, kept]
  rw [drops_iff, read, text]
  simp

theorem Built.lower_eq {ind : Indicator} (built : Built R ind) (kind : ind.type = .domain) :
    Py.lower R.unicode ind.value = ind.value :=
  Py.lower_eq_self (domainChar_settled (built.domain kind).1.chars)

/-- A domain that an entry drops as it is written is also dropped by the form of the entry. -/
theorem form_of_written {ind : Indicator} (built : Built R ind) (kind : ind.type = .domain)
    {d : Str} (written : AtOrBelow ind.value (Py.lower R.unicode d)) :
    canonicalize R .domain d = .ok (Py.lower R.unicode d) := by
  obtain ⟨canonical, trimmed⟩ := built.domain kind
  have above := canonical.above written
  exact canonicalize_of_lower above (trimmed_above trimmed above written)

/-- The form of an entry is the value of an indicator, which only an entry in that form drops. -/
theorem DecidesByForm.lists (decides : DecidesByForm R config) : ListsForms R config := by
  constructor
  · intro d member c form unfed
    have canonical := (canonicalDomain_eq (canonicalize_domain form)).2
    have trimmed : Py.Trimmed c := by
      rcases canonical.trimmed with ⟨_, trimmed⟩ | ⟨body, rfl, _⟩
      · exact trimmed
      · exact absurd List.getLast?_concat unfed
    have stripped := Py.strip_of_trimmed trimmed
    have full : c ≠ [] := by
      rintro rfl
      obtain ⟨e, head, _⟩ := canonical.ends.first
      cases head
    have fixed : canonicalize R .domain c = .ok c := by
      simp only [canonicalize, stripped, if_neg full, canonical.fixed]
    obtain ⟨ind, built, kind, value⟩ := exists_built fixed stripped
    have dropped := (decides.domain ind built kind).mpr ⟨d, member, c, form, Or.inl value⟩
    rw [drops_domain_iff kind (built.lower_eq kind), value] at dropped
    exact dropped
  · intro t kind s member c form kept
    have fixed : canonicalize R t c = .ok c ∧ Py.strip c = c := by
      obtain ⟨fixed, trimmed⟩ := canonicalize_fixed_iff form
      rcases kind with rfl | rfl <;> exact ⟨fixed.mpr trivial, trimmed trivial⟩
    obtain ⟨ind, built, rfl, rfl⟩ := exists_built fixed.1 fixed.2
    exact (drops_address_iff built kind kept).mp
      ((decides.address ind built kind kept).mpr ⟨s, member, form⟩)

/-- What an entry drops as it is written is below its form, and what is below its form is below
an entry that is listed for it. -/
theorem ListsForms.decides (lists : ListsForms R config) : DecidesByForm R config := by
  constructor
  · intro ind built kind
    rw [drops_domain_iff kind (built.lower_eq kind)]
    constructor
    · rintro ⟨d, member, written⟩
      exact ⟨d, member, _, form_of_written built kind written, written⟩
    · rintro ⟨d, member, c, form, below⟩
      obtain ⟨canonical, trimmed⟩ := built.domain kind
      have unfed : c.getLast? ≠ some '\n' := by
        intro feed
        have plain := (trimmed_above trimmed (canonical.above below) below).2 '\n' feed
        exact absurd plain (by decide)
      obtain ⟨d', member', above⟩ := lists.domain d member c form unfed
      exact ⟨d', member', below.trans above⟩
  · intro ind built kind kept
    rw [drops_address_iff built kind kept]
    constructor
    · intro member
      exact ⟨ind.value, member, (built.address kind).1⟩
    · rintro ⟨s, member, form⟩
      exact lists.address ind.type kind s member ind.value form kept

/-- The allowlist decides by canonical forms exactly if it lists the forms of its entries. -/
theorem allowlist_forms_iff : DecidesByForm R config ↔ ListsForms R config :=
  ⟨DecidesByForm.lists, ListsForms.decides⟩

end decision

/-- A domain with a trailing dot and an IPv6 address in capitals are never found. -/
def spelledAllowlist : AllowlistConfig :=
  ⟨true, ["example.com.".toList], ["2001:DB8::1".toList], []⟩

theorem allowlist_misses_spelling :
    canonicalize asciiRuntime .domain "example.com.".toList = .ok "example.com".toList ∧
      canonicalize asciiRuntime .ipv6 "2001:DB8::1".toList = .ok "2001:db8::1".toList ∧
      removedAsPrivate spelledAllowlist "2001:db8::1".toList = false ∧
      ∃ domain address, Built asciiRuntime domain ∧ domain.type = .domain ∧
        domain.value = "example.com".toList ∧ ¬ Drops asciiRuntime spelledAllowlist domain ∧
        Built asciiRuntime address ∧ address.type = .ipv6 ∧
        address.value = "2001:db8::1".toList ∧ ¬ Drops asciiRuntime spelledAllowlist address := by
  have domainForm : canonicalize asciiRuntime .domain "example.com.".toList =
      .ok "example.com".toList := rfl
  have addressForm : canonicalize asciiRuntime .ipv6 "2001:DB8::1".toList =
      .ok "2001:db8::1".toList := rfl
  have kept : removedAsPrivate spelledAllowlist "2001:db8::1".toList = false := by decide +kernel
  obtain ⟨domain, built, kind, value⟩ := exists_built
    (show canonicalize asciiRuntime .domain "example.com".toList = .ok "example.com".toList from
      rfl) rfl
  obtain ⟨address, built', kind', value'⟩ := exists_built
    (show canonicalize asciiRuntime .ipv6 "2001:db8::1".toList = .ok "2001:db8::1".toList from
      rfl) rfl
  refine ⟨domainForm, addressForm, kept, domain, address, built, kind, value, ?_, built', kind',
    value', ?_⟩
  · rw [drops_domain_iff kind (built.lower_eq kind), value]
    rintro ⟨d, member, written⟩
    rw [List.mem_singleton.mp member] at written
    rcases written with same | below
    · exact absurd same (by decide)
    · exact absurd below (by decide)
  · rw [drops_address_iff built' (Or.inr kind') (by rw [value', kept]), value']
    decide

end Cti
