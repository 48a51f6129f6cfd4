import Cti.CanonicalDomain
import Cti.CanonicalUrl

set_option autoImplicit false

namespace Cti

open Py (Str Unicode)

variable {R : Runtime}

theorem ipv4_fixed (address : Ipaddress.IPv4Address) :
    canonicalize R .ipv4 address.str = .ok address.str ∧ Py.strip address.str = address.str := by
  have trimmed : Py.Trimmed address.str := by
    apply Py.trimmed_of_forall
    intro c member
    rcases address.str_plain c member with digit | rfl
    · exact alnum_not_space (by simp [Char.isAlphanum, digit])
    · decide
  have parsed := Ipaddress.IPv4Address.parse_str address
  have nonempty : address.str ≠ [] := by
    intro empty
    rw [empty] at parsed
    cases parsed
  refine ⟨?_, Py.strip_of_trimmed trimmed⟩
  simp only [canonicalize, Py.strip_of_trimmed trimmed, if_neg nonempty, parsed]

theorem hexDigit_not_space {c : Char} (hex : Ipaddress.isHexDigit c = true) :
    Py.isSpace c = false :=
  Py.ascii_forall (P := fun c => Ipaddress.isHexDigit c = true → Py.isSpace c = false)
    (by decide) (Ipaddress.hexDigit_ascii hex) hex

/-- The text of an IPv6 address that was read from a trimmed text is trimmed. -/
theorem ipv6_trimmed {text : Str} {address : Ipaddress.IPv6Address} (trimmed : Py.Trimmed text)
    (parsed : Ipaddress.IPv6Address.parse text = some address) : Py.Trimmed address.str := by
  have plain : ∀ c ∈ [':'].intercalate (Ipaddress.compressHextets address.hextets),
      Py.isSpace c = false := by
    intro c member
    rcases Ipaddress.compressHextets_hex address c member with hex | rfl
    · exact hexDigit_not_space hex
    · decide
  have nonempty := Ipaddress.compressHextets_ne_nil address
  refine ⟨?_, ?_⟩
  · intro c head
    rw [Ipaddress.IPv6Address.str, List.head?_append_of_ne_nil _ nonempty] at head
    exact plain c (List.mem_of_head? head)
  · intro c last
    cases scope : address.scope with
    | none =>
        rw [Ipaddress.IPv6Address.str, scope, List.append_nil] at last
        exact plain c (List.mem_of_getLast? last)
    | some within =>
        obtain ⟨front, whole⟩ := Ipaddress.IPv6Address.parse_scope parsed scope
        rw [Ipaddress.IPv6Address.str, scope] at last
        rw [List.getLast?_append_of_ne_nil _ (by simp),
          List.getLast?_cons_of_ne_nil within.property.1] at last
        refine trimmed.2 c ?_
        rw [← whole, List.getLast?_append_of_ne_nil _ within.property.1]
        exact last

theorem ipv6_fixed {text : Str} {address : Ipaddress.IPv6Address} (trimmed : Py.Trimmed text)
    (read : Ipaddress.IPv6Address.parse text = some address) :
    canonicalize R .ipv6 address.str = .ok address.str ∧ Py.strip address.str = address.str := by
  have trimmed := Py.strip_of_trimmed (ipv6_trimmed trimmed read)
  have parsed := Ipaddress.IPv6Address.parse_str address
  have nonempty : address.str ≠ [] := by
    rw [Ipaddress.IPv6Address.str]
    exact List.append_ne_nil_of_left_ne_nil (Ipaddress.compressHextets_ne_nil address) _
  refine ⟨?_, trimmed⟩
  simp only [canonicalize, trimmed, if_neg nonempty, parsed]

theorem canonicalHash_fixed {t : IndicatorType} {expected : Nat} {v c : Str} (positive : 0 < expected)
    (result : canonicalHash R t expected v = .ok c) :
    canonicalHash R t expected c = .ok c ∧ Py.strip c = c ∧ c ≠ [] := by
  unfold canonicalHash at result
  simp only at result
  split at result
  · cases result
  · rename_i valid
    rw [Except.ok.injEq] at result
    have trimmed : Py.strip c = c := by
      rw [← result]
      exact Py.strip_of_trimmed (Py.trimmed_lower (Py.trimmed_strip v))
    have lowered : Py.lower R.unicode c = c := by
      rw [← result]
      exact Py.lower_lower _
    rw [result] at valid
    refine ⟨?_, trimmed, ?_⟩
    · simp only [canonicalHash, trimmed, lowered, if_neg valid]
    · rintro rfl
      simp only [List.length_nil] at valid
      omega

theorem lower_fixed {v : Str} (nonempty : Py.strip v ≠ []) :
    Py.strip (Py.lower R.unicode (Py.strip v)) = Py.lower R.unicode (Py.strip v) ∧
      Py.lower R.unicode (Py.strip v) ≠ [] :=
  ⟨Py.strip_of_trimmed (Py.trimmed_lower (Py.trimmed_strip v)), lower_ne_nil nonempty⟩

/-- The inputs on which canonicalizing once is enough. A domain, also that of an e-mail
address, must not end in a line feed once its trailing dots are gone; a URL must not
show a new pattern, port or space after it is put together again. -/
def Stable (R : Runtime) (t : IndicatorType) (value : Str) : Prop :=
  match t with
  | .domain => EndsClean R.unicode (Py.strip value)
  | .email => ∀ localPart domain, Py.rpartition '@' (Py.strip value) = some (localPart, domain) →
      EndsClean R.unicode domain
  | .url => UrlStable R.unicode (Py.strip value)
  | _ => True

/-- Canonicalizing twice, for every type of indicator. -/
theorem canonicalize_fixed_iff {t : IndicatorType} {v c : Str}
    (result : canonicalize R t v = .ok c) :
    (canonicalize R t c = .ok c ↔ Stable R t v) ∧ (Stable R t v → Py.strip c = c) := by
  by_cases empty : Py.strip v = []
  · simp [canonicalize, empty] at result
  simp only [canonicalize, if_neg empty] at result
  have hash : ∀ (t : IndicatorType) (expected : Nat), 0 < expected →
      canonicalHash R t expected (Py.strip v) = .ok c →
      (∀ c, canonicalize R t c = if Py.strip c = [] then
        .error (ClassName.valueError.exc "empty indicator value".toList)
        else canonicalHash R t expected (Py.strip c)) → Stable R t v →
      (canonicalize R t c = .ok c ↔ Stable R t v) ∧ (Stable R t v → Py.strip c = c) := by
    intro t expected positive result unfolded stable
    obtain ⟨again, trimmed, nonempty⟩ := canonicalHash_fixed positive result
    refine ⟨⟨fun _ => stable, fun _ => ?_⟩, fun _ => trimmed⟩
    rw [unfolded, trimmed, if_neg nonempty, again]
  have lower : ∀ t : IndicatorType, Py.lower R.unicode (Py.strip v) = c →
      (∀ c, canonicalize R t c = if Py.strip c = [] then
        .error (ClassName.valueError.exc "empty indicator value".toList)
        else .ok (Py.lower R.unicode (Py.strip c))) → Stable R t v →
      (canonicalize R t c = .ok c ↔ Stable R t v) ∧ (Stable R t v → Py.strip c = c) := by
    rintro t rfl unfolded stable
    obtain ⟨trimmed, nonempty⟩ := lower_fixed (R := R) empty
    refine ⟨⟨fun _ => stable, fun _ => ?_⟩, fun _ => trimmed⟩
    rw [unfolded, trimmed, if_neg nonempty, Py.lower_lower]
  cases t with
  | ipv4 =>
      simp only at result
      split at result
      · cases result
        rename_i address _
        obtain ⟨fixed, trimmed⟩ := ipv4_fixed (R := R) address
        exact ⟨⟨fun _ => trivial, fun _ => fixed⟩, fun _ => trimmed⟩
      · cases result
  | ipv6 =>
      simp only at result
      split at result
      · cases result
        rename_i address read
        obtain ⟨fixed, trimmed⟩ := ipv6_fixed (R := R) (Py.trimmed_strip v) read
        exact ⟨⟨fun _ => trivial, fun _ => fixed⟩, fun _ => trimmed⟩
      · cases result
  | domain => exact domain_fixed_iff result
  | url => exact url_fixed_iff result
  | email =>
      cases split : Py.rpartition '@' (Py.strip v) with
      | none => simp [canonicalEmail, split] at result
      | some parts =>
          obtain ⟨localPart, domain⟩ := parts
          have only : Stable R .email v ↔ EndsClean R.unicode domain := by
            simp only [Stable, split, Option.some.injEq, Prod.mk.injEq]
            exact ⟨fun all => all localPart domain ⟨rfl, rfl⟩, fun clean _ _ same => same.2 ▸ clean⟩
          rw [only]
          exact email_fixed_iff (Py.trimmed_strip v) split result
  | sha256 => exact hash .sha256 64 (by decide) result (fun _ => rfl) trivial
  | sha1 => exact hash .sha1 40 (by decide) result (fun _ => rfl) trivial
  | md5 => exact hash .md5 32 (by decide) result (fun _ => rfl) trivial
  | fileName => exact lower .fileName (Except.ok.inj result) (fun _ => rfl) trivial
  | mutex => exact lower .mutex (Except.ok.inj result) (fun _ => rfl) trivial
  | registryKey => exact lower .registryKey (Except.ok.inj result) (fun _ => rfl) trivial
  | yaraRule => exact lower .yaraRule (Except.ok.inj result) (fun _ => rfl) trivial

/-- What building an indicator computes: the value is canonicalized twice for the id and
once, then stripped, for the value. -/
theorem Indicator.build_eq {t : IndicatorType} {v : Str} {fields : IndicatorFields} {ind : Indicator}
    (built : Indicator.build R t v fields = .ok ind) :
    ∃ c again, canonicalize R t v = .ok c ∧ canonicalize R t c = .ok again ∧ ind.type = t ∧
      ind.value = Py.strip c ∧ ind.id = R.uuid5 ctiNs (identityName t again) := by
  unfold Indicator.build at built
  cases first : canonicalize R t v with
  | error e => simp [first, bind, Except.bind] at built
  | ok c =>
      cases second : canonicalize R t c with
      | error e => simp [first, indicatorUuid, second, bind, Except.bind] at built
      | ok again =>
          simp only [first, indicatorUuid, second, bind, Except.bind, pure, Except.pure] at built
          split at built
          · cases built
            exact ⟨c, again, rfl, second, rfl, rfl, rfl⟩
          · cases built

/-- Canonicalizing is idempotent on `v`, so that what is stored for it is a fixed point,
carries the UUID of what is stored, and comes out the same when it is ingested again. -/
def Idempotent (R : Runtime) (t : IndicatorType) (v : Str) : Prop :=
  (∀ c, canonicalize R t v = .ok c → canonicalize R t c = .ok c) ∧
    ∀ fields ind, Indicator.build R t v fields = .ok ind →
      canonicalize R t ind.value = .ok ind.value ∧
      ind.id = R.uuid5 ctiNs (identityName t ind.value) ∧
      ∀ fields' ind', Indicator.build R t ind.value fields' = .ok ind' →
        ind'.id = ind.id ∧ ind'.value = ind.value

theorem canonicalize_idempotent_iff (R : Runtime) (t : IndicatorType) (v : Str) :
    Idempotent R t v ↔ ∀ c, canonicalize R t v = .ok c → Stable R t v := by
  constructor
  · rintro ⟨fixed, _⟩ c result
    exact (canonicalize_fixed_iff result).1.mp (fixed c result)
  · intro stable
    refine ⟨fun c result => (canonicalize_fixed_iff result).1.mpr (stable c result), ?_⟩
    intro fields ind built
    obtain ⟨c, again, first, second, _, value, id⟩ := Indicator.build_eq built
    obtain ⟨fixed, trimmed⟩ := canonicalize_fixed_iff first
    have fixed := fixed.mpr (stable c first)
    have trimmed := trimmed (stable c first)
    rw [fixed, Except.ok.injEq] at second
    rw [trimmed] at value
    rw [← second, ← value] at id
    rw [← value] at fixed trimmed
    refine ⟨fixed, id, ?_⟩
    intro fields' ind' rebuilt
    obtain ⟨d, again', first', second', _, value', id'⟩ := Indicator.build_eq rebuilt
    rw [fixed, Except.ok.injEq] at first'
    subst first'
    rw [fixed, Except.ok.injEq] at second'
    subst second'
    exact ⟨id'.trans id.symm, value'.trans trimmed⟩

/-- A text as one number, so that different texts have different numbers. -/
def spell (name : Str) : Nat := name.foldl (fun sofar c => sofar * 0x110000 + c.toNat) 1

/-- A runtime for texts within ASCII. Its UUIDs spell out the name they are made from. -/
def asciiRuntime : Runtime where
  unicode := .ascii
  uuid5 _ name := spell name
  repr text := '\x27' :: text ++ ['\x27']
  addressError text := text
  urlError text := text
  confidenceError _ := []

/-- The dollar of the label pattern lets a final line feed through, and the next run
trims it. -/
theorem canonicalize_line_feed :
    canonicalize asciiRuntime .domain "example.com\n.".toList = .ok "example.com\n".toList ∧
      canonicalize asciiRuntime .domain "example.com\n".toList = .ok "example.com".toList ∧
      ¬ Idempotent asciiRuntime .domain "example.com\n.".toList := by
  have first : canonicalize asciiRuntime .domain "example.com\n.".toList =
      .ok "example.com\n".toList := by rfl
  have second : canonicalize asciiRuntime .domain "example.com\n".toList =
      .ok "example.com".toList := by rfl
  refine ⟨first, second, ?_⟩
  rintro ⟨fixed, _⟩
  have again := fixed _ first
  rw [second, Except.ok.injEq] at again
  exact absurd again (by decide)

end Cti
