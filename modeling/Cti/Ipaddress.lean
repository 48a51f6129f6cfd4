import Cti.PyText

set_option autoImplicit false

/- The textual forms of IPv4 and IPv6 addresses as Python's `ipaddress` module reads
and writes them. -/
namespace Ipaddress

open Py (Str)

structure IPv4Address where
  a : Fin 256
  b : Fin 256
  c : Fin 256
  d : Fin 256
  deriving DecidableEq

/-- At most three ASCII digits without a leading zero, up to 255. -/
def parseOctet (octet : Str) : Option (Fin 256) :=
  if octet = [] ∨ octet.all Char.isDigit = false then none
  else if octet.length > 3 then none
  else if octet ≠ ['0'] ∧ octet.head? = some '0' then none
  else if inside : Nat.ofDigitChars 10 octet 0 < 256 then some ⟨_, inside⟩
  else none

def octetText (octet : Fin 256) : Str := Nat.toDigits 10 octet

def IPv4Address.parse (text : Str) : Option IPv4Address :=
  match text.splitOn '.' with
  | [a, b, c, d] => do
      return ⟨← parseOctet a, ← parseOctet b, ← parseOctet c, ← parseOctet d⟩
  | _ => none

def IPv4Address.str (address : IPv4Address) : Str :=
  ['.'].intercalate
    [octetText address.a, octetText address.b, octetText address.c, octetText address.d]

theorem parseOctet_octetText (octet : Fin 256) : parseOctet (octetText octet) = some octet := by
  revert octet
  decide +kernel

theorem octetText_digit {octet : Fin 256} {c : Char} (member : c ∈ octetText octet) :
    c.isDigit = true :=
  Nat.isDigit_of_mem_toDigits (by decide) (by decide) member

theorem IPv4Address.parse_str (address : IPv4Address) : parse address.str = some address := by
  have plain : ∀ text ∈ [octetText address.a, octetText address.b, octetText address.c,
      octetText address.d], '.' ∉ text := by
    intro text member dot
    simp only [List.mem_cons, List.not_mem_nil, or_false] at member
    rcases member with rfl | rfl | rfl | rfl <;> exact absurd (octetText_digit dot) (by decide)
  rw [parse, str, List.splitOn_intercalate '.' plain (by simp)]
  simp [parseOctet_octetText]

theorem parseOctet_digits {octet : Str} {n : Fin 256} (parsed : parseOctet octet = some n) :
    ∀ c ∈ octet, c.isDigit = true := by
  unfold parseOctet at parsed
  split at parsed
  · cases parsed
  · rename_i digits
    simp only [not_or, Bool.not_eq_false, List.all_eq_true] at digits
    exact digits.2

/-- An IPv4 address is read from digits and dots only. -/
theorem IPv4Address.parse_plain {text : Str} {address : IPv4Address}
    (parsed : parse text = some address) : ∀ c ∈ text, c.isDigit = true ∨ c = '.' := by
  unfold parse at parsed
  split at parsed
  · rename_i a b c d parts
    simp only [Option.bind_eq_bind, Option.bind_eq_some_iff, Option.pure_def] at parsed
    obtain ⟨_, first, _, second, _, third, _, fourth, _⟩ := parsed
    intro e member
    by_cases dot : e = '.'
    · exact Or.inr dot
    · obtain ⟨part, inside, here⟩ := Py.mem_splitOn member dot
      rw [parts] at inside
      simp only [List.mem_cons, List.not_mem_nil, or_false] at inside
      apply Or.inl
      rcases inside with rfl | rfl | rfl | rfl
      · exact parseOctet_digits first e here
      · exact parseOctet_digits second e here
      · exact parseOctet_digits third e here
      · exact parseOctet_digits fourth e here
  · cases parsed

def isHexDigit (c : Char) : Bool :=
  c.isDigit || ('a'.toNat ≤ c.toNat && c.toNat ≤ 'f'.toNat) ||
    ('A'.toNat ≤ c.toNat && c.toNat ≤ 'F'.toNat)

theorem hexDigit_ascii {c : Char} (hex : isHexDigit c = true) : Py.isAscii c = true := by
  simp only [isHexDigit, Bool.or_eq_true, Bool.and_eq_true, decide_eq_true_eq] at hex
  rcases hex with (digit | ⟨_, small⟩) | ⟨_, small⟩
  · exact Py.alphanum_ascii (by simp [Char.isAlphanum, digit])
  · exact decide_eq_true (Nat.lt_of_le_of_lt small (by decide))
  · exact decide_eq_true (Nat.lt_of_le_of_lt small (by decide))

def hexValue (c : Char) : Nat :=
  if c.isDigit then c.toNat - '0'.toNat
  else if 'a'.toNat ≤ c.toNat then c.toNat - 'a'.toNat + 10
  else c.toNat - 'A'.toNat + 10

def hexNumber (text : Str) : Nat := text.foldl (fun sofar c => 16 * sofar + hexValue c) 0

/-- One to four hexadecimal digits. -/
def parseHextet (hextet : Str) : Option (Fin 65536) :=
  if hextet.all isHexDigit = false ∨ hextet.length > 4 ∨ hextet = [] then none
  else if inside : hexNumber hextet < 65536 then some ⟨_, inside⟩
  else none

def hextetText (hextet : Fin 65536) : Str := Nat.toDigits 16 hextet

private theorem digitChar_hex {n : Nat} (small : n < 16) :
    isHexDigit n.digitChar = true ∧ hexValue n.digitChar = n := by
  have all : ∀ n : Fin 16, isHexDigit n.val.digitChar = true ∧ hexValue n.val.digitChar = n.val := by
    decide
  exact all ⟨n, small⟩

theorem toDigits_hex (n : Nat) : (∀ c ∈ Nat.toDigits 16 n, isHexDigit c = true) ∧
    hexNumber (Nat.toDigits 16 n) = n := by
  induction n using Nat.strongRecOn with
  | ind n ih =>
      rw [Nat.toDigits_eq_if (by omega)]
      split
      · rename_i small
        obtain ⟨hex, value⟩ := digitChar_hex small
        refine ⟨by simpa using hex, ?_⟩
        simp [hexNumber, value]
      · obtain ⟨hex, value⟩ := digitChar_hex (Nat.mod_lt n (by omega : 0 < 16))
        obtain ⟨before, high⟩ := ih (n / 16) (by omega)
        refine ⟨?_, ?_⟩
        · intro c member
          rcases List.mem_append.mp member with early | last
          · exact before c early
          · rw [List.mem_singleton] at last
            rw [last, hex]
        · rw [hexNumber] at high
          rw [hexNumber, List.foldl_append, high]
          simp only [List.foldl_cons, List.foldl_nil, value]
          omega

theorem hextetText_hex {hextet : Fin 65536} {c : Char} (member : c ∈ hextetText hextet) :
    isHexDigit c = true :=
  (toDigits_hex hextet).1 c member

theorem hextetText_ne_nil (hextet : Fin 65536) : hextetText hextet ≠ [] := Nat.toDigits_ne_nil

theorem parseHextet_hextetText (hextet : Fin 65536) :
    parseHextet (hextetText hextet) = some hextet := by
  obtain ⟨hex, value⟩ := toDigits_hex hextet
  have short : (hextetText hextet).length ≤ 4 :=
    (Nat.length_toDigits_le_iff (by decide) (by decide)).mpr (by have := hextet.isLt; omega)
  have digits : (hextetText hextet).all isHexDigit = true := List.all_eq_true.mpr hex
  have number : hexNumber (hextetText hextet) = hextet := value
  have accepted : ¬ ((hextetText hextet).all isHexDigit = false ∨ (hextetText hextet).length > 4 ∨
      hextetText hextet = []) := by
    simp [digits, hextetText_ne_nil]
    omega
  rw [parseHextet, if_neg accepted]
  simp [number]

/-- The text after the percent sign of a scoped address. -/
def Scope := { text : Str // text ≠ [] ∧ '%' ∉ text ∧ '/' ∉ text }
  deriving DecidableEq

structure IPv6Address where
  hextets : List (Fin 65536)
  size : hextets.length = 8
  scope : Option Scope
  deriving DecidableEq

/-- `str.partition('%')`. -/
def splitScope (text : Str) : Option (Str × Option Scope) :=
  match text.dropWhile (· != '%') with
  | [] => some (text, none)
  | _ :: scope =>
      if valid : scope ≠ [] ∧ '%' ∉ scope ∧ '/' ∉ scope then
        some (text.takeWhile (· != '%'), some ⟨scope, valid⟩)
      else none

/-- An IPv4 address in the last part stands for two hextets. -/
def expandIPv4 (parts : List Str) : Option (List Str) :=
  match parts.getLast? with
  | none => some parts
  | some last =>
      if '.' ∈ last then do
        let address ← IPv4Address.parse last
        return parts.dropLast ++
          [Nat.toDigits 16 (address.a * 256 + address.b),
            Nat.toDigits 16 (address.c * 256 + address.d)]
      else some parts

/-- The positions, other than the two ends, of empty parts: each comes from a `::`. -/
def skips (parts : List Str) : List Nat :=
  (parts.tail.dropLast.zipIdx 1).filterMap fun part => if part.1 = [] then some part.2 else none

/-- How many parts stand before and after the `::`; an address without one has all of
its parts before it. -/
def partsAround (parts : List Str) : Option (Nat × Nat) :=
  match skips parts with
  | [] =>
      if parts.length = 8 ∧ parts.head? ≠ some [] ∧ parts.getLast? ≠ some [] then some (8, 0)
      else none
  | [skip] =>
      let hi := if parts.head? = some [] then skip - 1 else skip
      let lo := if parts.getLast? = some [] then parts.length - skip - 2
        else parts.length - skip - 1
      if parts.head? = some [] ∧ hi ≠ 0 then none
      else if parts.getLast? = some [] ∧ lo ≠ 0 then none
      else if 8 ≤ hi + lo then none
      else some (hi, lo)
  | _ => none

def ipInt (text : Str) : Option (List (Fin 65536)) := do
  let parts := text.splitOn ':'
  if parts.length < 3 then none
  let parts ← expandIPv4 parts
  if 9 < parts.length then none
  let (hi, lo) ← partsAround parts
  let high ← (parts.take hi).mapM parseHextet
  let low ← (parts.drop (parts.length - lo)).mapM parseHextet
  return high ++ List.replicate (8 - (hi + lo)) 0 ++ low

def IPv6Address.parse (text : Str) : Option IPv6Address := do
  let (address, scope) ← splitScope text
  let hextets ← ipInt address
  if size : hextets.length = 8 then some ⟨hextets, size, scope⟩ else none

/-- The state of the search for the longest run of zeros: the best run so far, and the
run that ends at the current position. -/
structure Run where
  bestStart : Nat
  bestLen : Nat
  start : Nat
  len : Nat

def Run.next (run : Run) (hextet : Fin 65536 × Nat) : Run :=
  if hextet.1 = 0 then
    let start := if run.len = 0 then hextet.2 else run.start
    let len := run.len + 1
    if len > run.bestLen then ⟨start, len, start, len⟩
    else { run with start := start, len := len }
  else { run with len := 0 }

def longestRun (hextets : List (Fin 65536)) : Run :=
  hextets.zipIdx.foldl Run.next ⟨0, 0, 0, 0⟩

/-- The longest run of at least two zeros becomes an empty part, with one more empty
part where it touches an end. -/
def compressHextets (hextets : List (Fin 65536)) : List Str :=
  let run := longestRun hextets
  let stop := run.bestStart + run.bestLen
  if 1 < run.bestLen then
    (if run.bestStart = 0 then [[]] else []) ++ (hextets.take run.bestStart).map hextetText ++
      [[]] ++ (hextets.drop stop).map hextetText ++ (if stop = hextets.length then [[]] else [])
  else hextets.map hextetText

def IPv6Address.str (address : IPv6Address) : Str :=
  [':'].intercalate (compressHextets address.hextets) ++
    match address.scope with
    | none => []
    | some scope => '%' :: scope.val

/-- `run` describes zeros of `done`. -/
structure Run.Describes (run : Run) (done : List (Fin 65536)) : Prop where
  best : run.bestStart + run.bestLen ≤ done.length
  zeros : ∀ j, run.bestStart ≤ j → j < run.bestStart + run.bestLen → done[j]? = some 0
  ends : 0 < run.len → run.start + run.len = done.length
  current : 0 < run.len → ∀ j, run.start ≤ j → j < done.length → done[j]? = some 0

theorem Run.Describes.next {run : Run} {done : List (Fin 65536)} (describes : run.Describes done)
    (hextet : Fin 65536) : (run.next (hextet, done.length)).Describes (done ++ [hextet]) := by
  have keep : ∀ j, j < done.length → done[j]? = some 0 → (done ++ [hextet])[j]? = some 0 := by
    intro j inside zero
    rw [List.getElem?_append_left inside, zero]
  have best := describes.best
  have zeros : ∀ j, run.bestStart ≤ j → j < run.bestStart + run.bestLen →
      (done ++ [hextet])[j]? = some 0 :=
    fun j above below => keep j (by omega) (describes.zeros j above below)
  by_cases zero : hextet = 0
  · subst zero
    have started : (if run.len = 0 then done.length else run.start) + (run.len + 1) =
        done.length + 1 := by
      by_cases fresh : run.len = 0
      · simp [fresh]
      · have := describes.ends (by omega)
        simp [fresh]
        omega
    have current : ∀ j, (if run.len = 0 then done.length else run.start) ≤ j →
        j < done.length + 1 → (done ++ [(0 : Fin 65536)])[j]? = some 0 := by
      intro j above below
      by_cases last : j = done.length
      · subst last
        simp
      · have grown : run.len ≠ 0 := by
          intro fresh
          rw [if_pos fresh] at above
          omega
        rw [if_neg grown] at above
        exact keep j (by omega) (describes.current (by omega) j above (by omega))
    have length : (done ++ [(0 : Fin 65536)]).length = done.length + 1 := by simp
    by_cases longer : run.len + 1 > run.bestLen
    · simp only [Run.next, if_true, longer]
      refine ⟨by rw [length]; exact Nat.le_of_eq started, ?_, fun _ => by rw [length]; exact started,
        fun _ => by rw [length]; exact current⟩
      intro j above below
      exact current j above (by simpa only [started] using below)
    · simp only [Run.next, if_true, longer, if_false]
      exact ⟨by rw [length]; exact Nat.le_succ_of_le best, zeros,
        fun _ => by rw [length]; exact started, fun _ => by rw [length]; exact current⟩
  · simp only [Run.next, zero, if_false]
    exact ⟨by simp; omega, zeros, nofun, nofun⟩

theorem describes_foldl (rest : List (Fin 65536)) : ∀ (run : Run) (done : List (Fin 65536)),
    run.Describes done → ((rest.zipIdx done.length).foldl Run.next run).Describes (done ++ rest) := by
  induction rest with
  | nil => intro run done describes; simpa using describes
  | cons hextet rest ih =>
      intro run done describes
      have step := ih _ _ (describes.next hextet)
      simpa [List.zipIdx_cons] using step

theorem longestRun_describes (hextets : List (Fin 65536)) :
    (longestRun hextets).Describes hextets := by
  have start : (⟨0, 0, 0, 0⟩ : Run).Describes [] := ⟨by simp, nofun, nofun, nofun⟩
  simpa [longestRun] using describes_foldl hextets _ _ start

/-- What the longest run covers is a block of zeros. -/
theorem longestRun_split (hextets : List (Fin 65536)) :
    hextets = hextets.take (longestRun hextets).bestStart ++
      List.replicate (longestRun hextets).bestLen 0 ++
        hextets.drop ((longestRun hextets).bestStart + (longestRun hextets).bestLen) := by
  obtain ⟨best, zeros, _, _⟩ := longestRun_describes hextets
  generalize longestRun hextets = run at best zeros
  have middle : (hextets.drop run.bestStart).take run.bestLen = List.replicate run.bestLen 0 := by
    apply List.ext_getElem?
    intro j
    by_cases inside : j < run.bestLen
    · rw [List.getElem?_take_of_lt inside, List.getElem?_drop, zeros _ (by omega) (by omega),
        List.getElem?_replicate, if_pos inside]
    · rw [List.getElem?_eq_none (by simp; omega), List.getElem?_eq_none (by simp; omega)]
  rw [← middle, List.append_assoc, ← List.drop_drop, List.take_append_drop, List.take_append_drop]

private theorem no_skips {parts : List Str} (full : ∀ part ∈ parts, part ≠ []) (k : Nat) :
    ((parts.zipIdx k).filterMap fun part => if part.1 = [] then some part.2 else none) = [] := by
  rw [List.filterMap_eq_nil_iff]
  intro part member
  rw [if_neg (full part.1 (List.fst_mem_of_mem_zipIdx member))]

theorem skips_around {first last : Str} {before after : List Str}
    (before_full : ∀ part ∈ before, part ≠ []) (after_full : ∀ part ∈ after, part ≠ []) :
    skips ((first :: before) ++ [[]] ++ (after ++ [last])) = [before.length + 1] := by
  have inner : ((first :: before) ++ [[]] ++ (after ++ [last])).tail.dropLast =
      before ++ [[]] ++ after := by
    rw [List.cons_append, List.cons_append, List.tail_cons, ← List.append_assoc,
      List.dropLast_concat]
  rw [skips, inner, List.zipIdx_append, List.zipIdx_append, List.filterMap_append,
    List.filterMap_append, no_skips before_full, no_skips after_full]
  simp [Nat.add_comm]

/-- The parts on one side of the `::`, an empty one if there is none. -/
def sideTexts (side : List (Fin 65536)) : List Str :=
  if side = [] then [[]] else side.map hextetText

private theorem texts_full (side : List (Fin 65536)) : ∀ part ∈ side.map hextetText, part ≠ [] := by
  intro part member
  obtain ⟨hextet, _, rfl⟩ := List.mem_map.mp member
  exact hextetText_ne_nil hextet

theorem sideTexts_cons (side : List (Fin 65536)) : ∃ first rest, sideTexts side = first :: rest ∧
    (∀ part ∈ rest, part ≠ []) ∧ (first = [] ↔ side = []) := by
  cases side with
  | nil => exact ⟨[], [], rfl, nofun, by simp⟩
  | cons hextet side =>
      exact ⟨hextetText hextet, side.map hextetText, by simp [sideTexts], texts_full side,
        by simp [hextetText_ne_nil]⟩

theorem sideTexts_concat (side : List (Fin 65536)) : ∃ rest last,
    sideTexts side = rest ++ [last] ∧ (∀ part ∈ rest, part ≠ []) ∧ (last = [] ↔ side = []) := by
  rcases List.eq_nil_or_concat side with rfl | ⟨side, hextet, rfl⟩
  · exact ⟨[], [], rfl, nofun, by simp⟩
  · exact ⟨side.map hextetText, hextetText hextet, by simp [sideTexts], texts_full side,
      by simp [hextetText_ne_nil]⟩

theorem length_sideTexts (side : List (Fin 65536)) :
    (sideTexts side).length = if side = [] then 1 else side.length := by
  unfold sideTexts
  split <;> simp

theorem partsAround_sides {hi lo : List (Fin 65536)} (room : hi.length + lo.length < 8) :
    partsAround (sideTexts hi ++ [[]] ++ sideTexts lo) = some (hi.length, lo.length) := by
  obtain ⟨first, before, hiTexts, before_full, first_empty⟩ := sideTexts_cons hi
  obtain ⟨after, last, loTexts, after_full, last_empty⟩ := sideTexts_concat lo
  have hiLength := congrArg List.length hiTexts
  have loLength := congrArg List.length loTexts
  rw [length_sideTexts] at hiLength loLength
  simp only [List.length_cons, List.length_append, List.length_nil] at hiLength loLength
  have head : (sideTexts hi ++ [[]] ++ sideTexts lo).head? = some first := by simp [hiTexts]
  have tail : (sideTexts hi ++ [[]] ++ sideTexts lo).getLast? = some last := by
    rw [loTexts, ← List.append_assoc, List.getLast?_concat]
  have length : (sideTexts hi ++ [[]] ++ sideTexts lo).length =
      before.length + 1 + 1 + (after.length + 1) := by
    simp only [hiTexts, loTexts, List.length_append, List.length_cons, List.length_nil]
  have found : skips (sideTexts hi ++ [[]] ++ sideTexts lo) = [before.length + 1] := by
    rw [hiTexts, loTexts]
    exact skips_around before_full after_full
  have hiCount : (if hi = [] then before.length + 1 - 1 else before.length + 1) = hi.length := by
    split at hiLength
    · rename_i none
      rw [if_pos none, none, List.length_nil]
      omega
    · rename_i some
      rw [if_neg some, hiLength]
  have loCount : (if lo = [] then
      before.length + 1 + 1 + (after.length + 1) - (before.length + 1) - 2 else
      before.length + 1 + 1 + (after.length + 1) - (before.length + 1) - 1) = lo.length := by
    split at loLength
    · rename_i none
      rw [if_pos none, none, List.length_nil]
      omega
    · rename_i some
      rw [if_neg some]
      omega
  rw [partsAround, found]
  simp only [head, tail, length, Option.some.injEq, first_empty, last_empty, hiCount, loCount]
  rw [if_neg (by rintro ⟨rfl, some⟩; exact some rfl),
    if_neg (by rintro ⟨rfl, some⟩; exact some rfl), if_neg (by omega)]

private theorem mapM_hextetText (side : List (Fin 65536)) :
    (side.map hextetText).mapM parseHextet = some side := by
  induction side with
  | nil => rfl
  | cons hextet side ih =>
      rw [List.mapM_map] at ih
      simp [parseHextet_hextetText, ih]

private theorem take_sides {hi lo : List (Fin 65536)} :
    ((sideTexts hi ++ [[]] ++ sideTexts lo).take hi.length) = hi.map hextetText := by
  unfold sideTexts
  by_cases none : hi = []
  · simp [none]
  · simp [none]

private theorem drop_sides {hi lo : List (Fin 65536)} :
    ((sideTexts hi ++ [[]] ++ sideTexts lo).drop
      ((sideTexts hi ++ [[]] ++ sideTexts lo).length - lo.length)) = lo.map hextetText := by
  unfold sideTexts
  by_cases none : lo = []
  · simp [none]
  · have count : ((if hi = [] then [[]] else hi.map hextetText) ++ [[]] ++
        (if lo = [] then [[]] else lo.map hextetText)).length - lo.length =
        ((if hi = [] then [[]] else hi.map hextetText) ++ [[]]).length := by
      rw [if_neg none, List.length_append, List.length_map, Nat.add_sub_cancel]
    rw [count, List.drop_left, if_neg none]

/-- The text of an address without its scope, part by part. -/
theorem compressHextets_cases (hextets : List (Fin 65536)) (size : hextets.length = 8) :
    compressHextets hextets = hextets.map hextetText ∨
      ∃ hi lo, hi.length + lo.length < 7 ∧
        hextets = hi ++ List.replicate (8 - (hi.length + lo.length)) 0 ++ lo ∧
        compressHextets hextets = sideTexts hi ++ [[]] ++ sideTexts lo := by
  have split := longestRun_split hextets
  have best := (longestRun_describes hextets).best
  unfold compressHextets
  generalize longestRun hextets = run at split best
  by_cases long : 1 < run.bestLen
  · refine Or.inr ⟨hextets.take run.bestStart, hextets.drop (run.bestStart + run.bestLen), ?_, ?_, ?_⟩
    · simp only [List.length_take, List.length_drop]
      omega
    · have count : 8 - ((hextets.take run.bestStart).length +
          (hextets.drop (run.bestStart + run.bestLen)).length) = run.bestLen := by
        simp only [List.length_take, List.length_drop]
        omega
      rw [count]
      exact split
    · have noHi : hextets.take run.bestStart = [] ↔ run.bestStart = 0 := by
        rw [← List.length_eq_zero_iff, List.length_take]
        omega
      have noLo : hextets.drop (run.bestStart + run.bestLen) = [] ↔
          run.bestStart + run.bestLen = hextets.length := by
        rw [← List.length_eq_zero_iff, List.length_drop]
        omega
      have hiTexts : (if run.bestStart = 0 then [[]] else []) ++
          (hextets.take run.bestStart).map hextetText = sideTexts (hextets.take run.bestStart) := by
        by_cases start : run.bestStart = 0
        · simp [sideTexts, start]
        · simp [sideTexts, start, noHi]
      have loTexts : (hextets.drop (run.bestStart + run.bestLen)).map hextetText ++
          (if run.bestStart + run.bestLen = hextets.length then [[]] else []) =
          sideTexts (hextets.drop (run.bestStart + run.bestLen)) := by
        by_cases stop : run.bestStart + run.bestLen = hextets.length
        · rw [noLo.mpr stop, if_pos stop]
          rfl
        · rw [if_neg stop, sideTexts, if_neg (fun none => stop (noLo.mp none)), List.append_nil]
      simp only [long, if_true]
      rw [hiTexts, List.append_assoc (sideTexts _ ++ [[]]), loTexts]
  · simp [long]

theorem ipInt_parts {parts : List Str} (colon : ∀ part ∈ parts, ':' ∉ part)
    (dot : ∀ part ∈ parts, '.' ∉ part) (least : 3 ≤ parts.length) (most : parts.length ≤ 9)
    {hi lo : Nat} (around : partsAround parts = some (hi, lo)) {high low : List (Fin 65536)}
    (high_texts : (parts.take hi).mapM parseHextet = some high)
    (low_texts : (parts.drop (parts.length - lo)).mapM parseHextet = some low) :
    ipInt ([':'].intercalate parts) = some (high ++ List.replicate (8 - (hi + lo)) 0 ++ low) := by
  have nonempty : parts ≠ [] := by
    rintro rfl
    simp at least
  have expand : expandIPv4 parts = some parts := by
    unfold expandIPv4
    rw [List.getLast?_eq_some_getLast nonempty]
    simp only [dot _ (List.getLast_mem nonempty), if_false]
  unfold ipInt
  rw [List.splitOn_intercalate ':' colon nonempty]
  have short : ¬ parts.length < 3 := by omega
  have long : ¬ 9 < parts.length := by omega
  simp [short, long, expand, around, high_texts, low_texts]

private theorem hex_ne {c : Char} {hextet : Fin 65536} (other : isHexDigit c = false) :
    c ∉ hextetText hextet := by
  intro member
  rw [hextetText_hex member] at other
  cases other

theorem not_mem_texts {c : Char} (other : isHexDigit c = false) (side : List (Fin 65536)) :
    ∀ part ∈ side.map hextetText, c ∉ part := by
  intro part member
  obtain ⟨hextet, _, rfl⟩ := List.mem_map.mp member
  exact hex_ne other

theorem not_mem_sideTexts {c : Char} (other : isHexDigit c = false) (side : List (Fin 65536)) :
    ∀ part ∈ sideTexts side, c ∉ part := by
  unfold sideTexts
  split
  · simp
  · exact not_mem_texts other side

/-- Only hexadecimal digits stand in the parts of an address. -/
theorem compressHextets_plain {c : Char} (other : isHexDigit c = false)
    (hextets : List (Fin 65536)) (size : hextets.length = 8) :
    ∀ part ∈ compressHextets hextets, c ∉ part := by
  rcases compressHextets_cases hextets size with plain | ⟨hi, lo, _, _, compressed⟩
  · rw [plain]
    exact not_mem_texts other hextets
  · rw [compressed]
    intro part member
    simp only [List.mem_append, List.mem_singleton] at member
    rcases member with (before | rfl) | after
    · exact not_mem_sideTexts other hi part before
    · simp
    · exact not_mem_sideTexts other lo part after

theorem ipInt_compressHextets (hextets : List (Fin 65536)) (size : hextets.length = 8) :
    ipInt ([':'].intercalate (compressHextets hextets)) = some hextets := by
  have colon := compressHextets_plain (c := ':') (by decide) hextets size
  have dot := compressHextets_plain (c := '.') (by decide) hextets size
  rcases compressHextets_cases hextets size with plain | ⟨hi, lo, room, same, compressed⟩
  · rw [plain] at colon dot ⊢
    have length : (hextets.map hextetText).length = 8 := by simp [size]
    have full := texts_full hextets
    have around : partsAround (hextets.map hextetText) = some (8, 0) := by
      have none : skips (hextets.map hextetText) = [] := by
        apply no_skips
        intro part member
        exact full part (List.mem_of_mem_tail (List.dropLast_subset _ member))
      have head : (hextets.map hextetText).head? ≠ some [] :=
        fun empty => full [] (List.mem_of_head? empty) rfl
      have last : (hextets.map hextetText).getLast? ≠ some [] :=
        fun empty => full [] (List.mem_of_getLast? empty) rfl
      rw [partsAround, none]
      simp only [length, head, last, ne_eq, not_false_eq_true, and_self, if_true]
    have texts := mapM_hextetText hextets
    rw [@ipInt_parts _ colon dot (by omega) (by omega) _ _ around hextets []]
    · simp
    · rwa [List.take_of_length_le (by omega)]
    · rw [length, List.drop_eq_nil_of_le (by omega)]
      rfl
  · rw [compressed] at colon dot ⊢
    have length : (sideTexts hi ++ [[]] ++ sideTexts lo).length =
        (sideTexts hi).length + 1 + (sideTexts lo).length := by
      rw [List.length_append, List.length_append, List.length_singleton]
    have hiLength := length_sideTexts hi
    have loLength := length_sideTexts lo
    have bounds : 3 ≤ (sideTexts hi ++ [[]] ++ sideTexts lo).length ∧
        (sideTexts hi ++ [[]] ++ sideTexts lo).length ≤ 9 := by
      have hiPositive : hi = [] ∨ 0 < hi.length := by cases hi <;> simp
      have loPositive : lo = [] ∨ 0 < lo.length := by cases lo <;> simp
      split at hiLength <;> split at loLength <;> simp_all <;> omega
    rw [@ipInt_parts _ colon dot bounds.1 bounds.2 _ _ (partsAround_sides (by omega)) hi lo,
      ← same]
    · rw [take_sides]
      exact mapM_hextetText hi
    · rw [drop_sides]
      exact mapM_hextetText lo

/-- Reading back the text of an address gives the address. -/
theorem IPv6Address.parse_str (address : IPv6Address) : parse address.str = some address := by
  obtain ⟨hextets, size, scope⟩ := address
  have plain : '%' ∉ [':'].intercalate (compressHextets hextets) :=
    Py.not_mem_intercalate (by decide) (compressHextets_plain (by decide) hextets size)
  have other : ∀ c ∈ [':'].intercalate (compressHextets hextets), (c != '%') = true := by
    intro c member
    rw [bne_iff_ne]
    rintro rfl
    exact plain member
  have split : splitScope (IPv6Address.str ⟨hextets, size, scope⟩) =
      some ([':'].intercalate (compressHextets hextets), scope) := by
    cases scope with
    | none =>
        simp only [str, List.append_nil, splitScope]
        rw [List.dropWhile_eq_nil_iff.mpr other]
    | some scope =>
        simp only [str, splitScope]
        rw [List.dropWhile_append_of_pos other, List.takeWhile_append_of_pos other]
        simp [scope.property]
        rfl
  rw [parse, split]
  simp [ipInt_compressHextets hextets size, size]

theorem IPv4Address.str_plain (address : IPv4Address) :
    ∀ c ∈ address.str, c.isDigit = true ∨ c = '.' := by
  intro c member
  by_contra other
  rw [not_or] at other
  refine Py.not_mem_intercalate (by simpa using other.2) ?_ member
  intro part inside digit
  simp only [List.mem_cons, List.not_mem_nil, or_false] at inside
  rcases inside with rfl | rfl | rfl | rfl <;> exact other.1 (octetText_digit digit)

/-- Apart from its scope the text of an address has only hexadecimal digits and colons. -/
theorem compressHextets_hex (address : IPv6Address) :
    ∀ c ∈ [':'].intercalate (compressHextets address.hextets), isHexDigit c = true ∨ c = ':' := by
  intro c member
  by_contra other
  rw [not_or, Bool.not_eq_true] at other
  exact Py.not_mem_intercalate (by simpa using other.2)
    (compressHextets_plain other.1 address.hextets address.size) member

theorem compressHextets_ne_nil (address : IPv6Address) :
    [':'].intercalate (compressHextets address.hextets) ≠ [] := by
  intro empty
  have back := ipInt_compressHextets address.hextets address.size
  rw [empty] at back
  revert back
  simp [ipInt]

/-- The scope of an address ends the text it was read from. -/
theorem IPv6Address.parse_scope {text : Str} {address : IPv6Address}
    (parsed : parse text = some address) {scope : Scope} (within : address.scope = some scope) :
    scope.val <:+ text := by
  simp only [parse, Option.bind_eq_bind, Option.bind_eq_some_iff] at parsed
  obtain ⟨⟨body, scope'⟩, split, hextets, _, built⟩ := parsed
  split at built
  · cases built
    simp only at within
    subst within
    unfold splitScope at split
    split at split
    · cases split
    · rename_i head tail rest
      split at split
      · cases split
        exact (List.suffix_cons head tail).trans (rest ▸ List.dropWhile_suffix _)
      · cases split
  · cases built

end Ipaddress
