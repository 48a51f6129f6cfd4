import Mathlib.Data.List.Chain
import Mathlib.Data.List.Nodup
import Mathlib.Data.Prod.Lex
import Mathlib.Order.MinMax
import Cti.PyText

set_option autoImplicit false

/- The monthly partitions of the observations table. -/
namespace Cti

open Py (Str)

/-- A day of the calendar. -/
structure Date where
  year : Nat
  month : Nat
  day : Nat
  year_pos : 1 ≤ year
  month_valid : 1 ≤ month ∧ month ≤ 12
  day_valid : 1 ≤ day ∧ day ≤ 31
  deriving DecidableEq

namespace Date

def key (d : Date) : Nat ×ₗ (Nat ×ₗ Nat) := toLex (d.year, toLex (d.month, d.day))

theorem key_injective : Function.Injective key := by
  rintro ⟨y, m, d, _, _, _⟩ ⟨y', m', d', _, _, _⟩ same
  obtain ⟨rfl, same⟩ := Prod.mk.inj same
  obtain ⟨rfl, rfl⟩ := Prod.mk.inj same
  rfl

instance : LinearOrder Date := LinearOrder.lift' key key_injective

theorem le_iff (d e : Date) : d ≤ e ↔ d.year < e.year ∨ d.year = e.year ∧
    (d.month < e.month ∨ d.month = e.month ∧ d.day ≤ e.day) := by
  change key d ≤ key e ↔ _
  rw [Prod.Lex.le_iff, Prod.Lex.le_iff]
  rfl

/-- The months since the first year. -/
def monthIndex (d : Date) : Nat := 12 * (d.year - 1) + (d.month - 1)

/-- The first day of the k-th month. -/
def monthStart (k : Nat) : Date where
  year := k / 12 + 1
  month := k % 12 + 1
  day := 1
  year_pos := by omega
  month_valid := by omega
  day_valid := by omega

theorem monthStart_le_iff (k : Nat) (d : Date) : monthStart k ≤ d ↔ k ≤ d.monthIndex := by
  obtain ⟨y, m, day, year_pos, month_valid, day_valid⟩ := d
  simp only [le_iff, monthStart, monthIndex]
  omega

theorem lt_monthStart_iff (k : Nat) (d : Date) : d < monthStart k ↔ d.monthIndex < k := by
  rw [← not_le, monthStart_le_iff, not_le]

theorem monthIndex_monthStart (k : Nat) : (monthStart k).monthIndex = k := by
  simp only [monthIndex, monthStart]
  omega

/-- A date literal of the database. -/
def parse (text : Str) : Option Date :=
  match text.splitOn '-' with
  | [year, month, day] =>
      let (y, m, d) :=
        (Nat.ofDigitChars 10 year 0, Nat.ofDigitChars 10 month 0, Nat.ofDigitChars 10 day 0)
      if valid : ((year ++ month ++ day).all Char.isDigit = true ∧ 1 ≤ y) ∧
          (1 ≤ m ∧ m ≤ 12) ∧ 1 ≤ d ∧ d ≤ 31 then
        some ⟨y, m, d, valid.1.2, valid.2.1, valid.2.2⟩
      else none
  | _ => none

end Date

/-- `{n:0width}`. -/
def zeroPadded (width n : Nat) : Str := (Nat.toDigits 10 n).leftpad width '0'

theorem zeroPadded_digit {width n : Nat} {c : Char} (member : c ∈ zeroPadded width n) :
    c.isDigit = true := by
  rw [zeroPadded, List.leftpad] at member
  rcases List.mem_append.mp member with zero | digit
  · rw [List.eq_of_mem_replicate zero]
    rfl
  · exact Nat.isDigit_of_mem_toDigits (by decide) (by decide) digit

theorem zeroPadded_value (width n : Nat) : Nat.ofDigitChars 10 (zeroPadded width n) 0 = n := by
  rw [zeroPadded, List.leftpad, Nat.ofDigitChars_append, Nat.ofDigitChars_replicate_zero,
    Nat.mul_zero, Nat.ofDigitChars_ten_toDigits]

theorem zeroPadded_injective (width : Nat) : Function.Injective (zeroPadded width) := by
  intro n n' same
  rw [← zeroPadded_value width n, same, zeroPadded_value]

/-- `{year:04d}-{month:02d}-01`. -/
def monthText (year month : Nat) : Str :=
  zeroPadded 4 year ++ '-' :: (zeroPadded 2 month ++ "-01".toList)

theorem parse_monthText (k : Nat) :
    Date.parse (monthText (k / 12 + 1) (k % 12 + 1)) = some (Date.monthStart k) := by
  have plain : ∀ part ∈ [zeroPadded 4 (k / 12 + 1), zeroPadded 2 (k % 12 + 1), "01".toList],
      ∀ c ∈ part, c.isDigit = true := by
    intro part member c inside
    simp only [List.mem_cons, List.not_mem_nil, or_false] at member
    rcases member with rfl | rfl | rfl
    · exact zeroPadded_digit inside
    · exact zeroPadded_digit inside
    · exact Py.forall_mem_of_all (P := fun c => c.isDigit = true) (by decide) c inside
  have parts : (monthText (k / 12 + 1) (k % 12 + 1)).splitOn '-' =
      [zeroPadded 4 (k / 12 + 1), zeroPadded 2 (k % 12 + 1), "01".toList] := by
    refine Eq.trans (congrArg (List.splitOn '-') ?_)
      (List.splitOn_intercalate '-' (fun part member dash => ?_) (List.cons_ne_nil _ _))
    · simp [monthText, List.intercalate]
    · exact absurd (plain part member '-' dash) (by decide)
  have digits : (zeroPadded 4 (k / 12 + 1) ++ zeroPadded 2 (k % 12 + 1) ++ "01".toList).all
      Char.isDigit = true := by
    rw [List.all_eq_true]
    intro c member
    simp only [List.mem_append] at member
    rcases member with (year | month) | day
    · exact plain _ (by simp) c year
    · exact plain _ (by simp) c month
    · exact plain _ (by simp) c day
  have one : Nat.ofDigitChars 10 "01".toList 0 = 1 := by decide
  unfold Date.parse
  rw [parts]
  simp only [digits, zeroPadded_value, one]
  rw [dif_pos ⟨⟨trivial, by omega⟩, by omega, by omega⟩]
  rfl

/-- A partition, with the bounds that its table was created with. -/
structure Partition where
  name : Str
  lower : Str
  upper : Str

def nextMonth (year month : Nat) : Nat × Nat :=
  if month = 12 then (year + 1, 1) else (year, month + 1)

/-- `_partition_bounds`. -/
def partitionBounds (year month : Nat) : Partition where
  name := "indicator_observations_".toList ++ (zeroPadded 4 year ++ '_' :: zeroPadded 2 month)
  lower := monthText year month
  upper := monthText (nextMonth year month).1 (nextMonth year month).2

/-- The partition of the k-th month. -/
def monthPartition (k : Nat) : Partition := partitionBounds (k / 12 + 1) (k % 12 + 1)

/-- The special case of December agrees with the division. -/
theorem nextMonth_index (k : Nat) :
    nextMonth (k / 12 + 1) (k % 12 + 1) = ((k + 1) / 12 + 1, (k + 1) % 12 + 1) := by
  unfold nextMonth
  split
  · exact Prod.ext (by omega) (by omega)
  · exact Prod.ext (by omega) (by omega)

theorem monthPartition_upper (k : Nat) :
    (monthPartition k).upper = (monthPartition (k + 1)).lower :=
  have index := nextMonth_index k
  congrArg₂ monthText (congrArg Prod.fst index) (congrArg Prod.snd index)

theorem partitionBounds_month (d : Date) :
    partitionBounds d.year d.month = monthPartition d.monthIndex := by
  obtain ⟨y, m, day, year_pos, month_valid, day_valid⟩ := d
  have year : (12 * (y - 1) + (m - 1)) / 12 + 1 = y := by omega
  have month : (12 * (y - 1) + (m - 1)) % 12 + 1 = m := by omega
  simp only [monthPartition, Date.monthIndex, year, month]

theorem monthPartition_name_injective {j k : Nat}
    (same : (monthPartition j).name = (monthPartition k).name) : j = k := by
  have digits : zeroPadded 4 (j / 12 + 1) ++ '_' :: zeroPadded 2 (j % 12 + 1) =
      zeroPadded 4 (k / 12 + 1) ++ '_' :: zeroPadded 2 (k % 12 + 1) :=
    List.append_cancel_left same
  have apart {year month : Nat} : '_' ∉ zeroPadded year month := fun member =>
    absurd (zeroPadded_digit member) (by decide)
  obtain ⟨years, _, months⟩ := (List.append_cons_inj_of_notMem apart apart).mp digits
  have year := zeroPadded_injective 4 years
  have month := zeroPadded_injective 2 months
  omega

theorem parse_lower (k : Nat) :
    Date.parse (monthPartition k).lower = some (Date.monthStart k) :=
  parse_monthText k

theorem parse_upper (k : Nat) :
    Date.parse (monthPartition k).upper = some (Date.monthStart (k + 1)) := by
  rw [monthPartition_upper]
  exact parse_lower (k + 1)

/-- The days of a partition. -/
def Partition.Holds (p : Partition) (d : Date) : Prop :=
  ∃ lower upper, Date.parse p.lower = some lower ∧ Date.parse p.upper = some upper ∧
    lower ≤ d ∧ d < upper

theorem monthPartition_holds (k : Nat) (d : Date) :
    (monthPartition k).Holds d ↔ d.monthIndex = k := by
  unfold Partition.Holds
  rw [parse_lower, parse_upper]
  constructor
  · rintro ⟨_, _, ⟨⟩, ⟨⟩, after, before⟩
    rw [Date.monthStart_le_iff] at after
    rw [Date.lt_monthStart_iff] at before
    omega
  · rintro rfl
    refine ⟨_, _, rfl, rfl, ?_, ?_⟩
    · exact (Date.monthStart_le_iff _ d).mpr le_rfl
    · exact (Date.lt_monthStart_iff _ d).mpr (Nat.lt_succ_self _)

/-- What the database objects to. -/
inductive DdlError where
  | invalidBound
  | overlap

/-- The bounds of a partition as dates; an empty range is refused. -/
def Partition.range (p : Partition) : Option (Date × Date) :=
  match Date.parse p.lower, Date.parse p.upper with
  | some lower, some upper => if lower < upper then some (lower, upper) else none
  | _, _ => none

/-- Two ranges have a day in common. -/
def rangesMeet (r r' : Date × Date) : Bool := decide (max r.1 r'.1 < min r.2 r'.2)

/-- `CREATE TABLE IF NOT EXISTS … PARTITION OF`. -/
def createPartition (tables : List Partition) (p : Partition) : Except DdlError (List Partition) :=
  if tables.any (fun q => q.name = p.name) then .ok tables
  else match p.range with
    | none => .error .invalidBound
    | some range =>
        if tables.any (fun q => q.range.any (rangesMeet range)) then .error .overlap
        else .ok (tables ++ [p])

/-- `ensure_partition`; `now` is what the clock reads. -/
def ensurePartition (now : Date) (when : Option Date) (tables : List Partition) :
    Except DdlError (Str × List Partition) := do
  let when := when.getD now
  let p := partitionBounds when.year when.month
  let tables ← createPartition tables p
  return (p.name, tables)

/-- The partition of the i-th month from now on. -/
def nextPartition (now : Date) (i : Nat) : Partition :=
  partitionBounds (now.year + (now.month - 1 + i) / 12) ((now.month - 1 + i) % 12 + 1)

/-- `ensure_next_n_months`. -/
def ensureNextNMonths (now : Date) (n : Int) (tables : List Partition) :
    Except DdlError (List Str × List Partition) :=
  (List.range n.toNat).foldlM
    (fun (out, tables) i => do
      let p := nextPartition now i
      let tables ← createPartition tables p
      return (out ++ [p.name], tables))
    ([], tables)

theorem nextPartition_month (now : Date) (i : Nat) :
    nextPartition now i = monthPartition (now.monthIndex + i) := by
  obtain ⟨y, m, day, year_pos, month_valid, day_valid⟩ := now
  have year : y + (m - 1 + i) / 12 = (12 * (y - 1) + (m - 1) + i) / 12 + 1 := by omega
  have month : (m - 1 + i) % 12 + 1 = (12 * (y - 1) + (m - 1) + i) % 12 + 1 := by omega
  simp only [nextPartition, monthPartition, Date.monthIndex, year, month]

/-- Every table holds a month, and no two the same. -/
def MonthTables (tables : List Partition) (months : List Nat) : Prop :=
  tables = months.map monthPartition ∧ months.Nodup

theorem monthPartition_range (k : Nat) :
    (monthPartition k).range = some (Date.monthStart k, Date.monthStart (k + 1)) := by
  have later : Date.monthStart k < Date.monthStart (k + 1) := by
    rw [Date.lt_monthStart_iff, Date.monthIndex_monthStart]
    exact Nat.lt_succ_self k
  unfold Partition.range
  rw [parse_lower, parse_upper]
  exact if_pos later

theorem rangesMeet_month {j k : Nat}
    (meet : rangesMeet (Date.monthStart j, Date.monthStart (j + 1))
      (Date.monthStart k, Date.monthStart (k + 1)) = true) : j = k := by
  have within := of_decide_eq_true meet
  simp only [max_lt_iff, lt_min_iff, Date.lt_monthStart_iff, Date.monthIndex_monthStart] at within
  omega

/-- A month more, unless it is there. -/
def withMonth (months : List Nat) (k : Nat) : List Nat :=
  if k ∈ months then months else months ++ [k]

theorem mem_withMonth {months : List Nat} {j k : Nat} :
    j ∈ withMonth months k ↔ j ∈ months ∨ j = k := by
  unfold withMonth
  split
  · rename_i present
    exact ⟨Or.inl, fun either => either.elim id fun same => same ▸ present⟩
  · rw [List.mem_append, List.mem_singleton]

/-- A month is skipped if it has a table, and no other table is in its way. -/
theorem createPartition_month {tables : List Partition} {months : List Nat}
    (inv : MonthTables tables months) (k : Nat) :
    ∃ tables', createPartition tables (monthPartition k) = .ok tables' ∧
      MonthTables tables' (withMonth months k) := by
  obtain ⟨rfl, distinct⟩ := inv
  unfold createPartition withMonth
  by_cases present : k ∈ months
  · refine ⟨months.map monthPartition, if_pos ?_, ?_⟩
    · rw [List.any_map, List.any_eq_true]
      exact ⟨k, present, by simp⟩
    · rw [if_pos present]
      exact ⟨rfl, distinct⟩
  · have unnamed : ¬ (months.map monthPartition).any
        (fun q => q.name = (monthPartition k).name) = true := by
      rw [List.any_map, List.any_eq_true]
      rintro ⟨j, member, same⟩
      exact present (monthPartition_name_injective (of_decide_eq_true same) ▸ member)
    have apart : ¬ (months.map monthPartition).any (fun q => q.range.any
        (rangesMeet (Date.monthStart k, Date.monthStart (k + 1)))) = true := by
      rw [List.any_map, List.any_eq_true]
      rintro ⟨j, member, meet⟩
      rw [Function.comp_apply, monthPartition_range, Option.any_some] at meet
      exact present (rangesMeet_month meet ▸ member)
    refine ⟨months.map monthPartition ++ [monthPartition k], ?_, ?_⟩
    · rw [if_neg unnamed, monthPartition_range]
      exact if_neg apart
    · rw [if_neg present]
      exact ⟨by rw [List.map_append]; rfl,
        List.nodup_append.mpr ⟨distinct, List.nodup_singleton k, by
          intro j member _ only same
          rw [List.mem_singleton.mp only] at same
          exact present (same ▸ member)⟩⟩

theorem mem_withMonths {fresh months : List Nat} {j : Nat} :
    j ∈ fresh.foldl withMonth months ↔ j ∈ months ∨ j ∈ fresh := by
  induction fresh generalizing months with
  | nil => simp
  | cons k fresh ih => rw [List.foldl_cons, ih, mem_withMonth, List.mem_cons, or_assoc]

theorem withMonths_fresh {fresh months : List Nat} (distinct : (months ++ fresh).Nodup) :
    fresh.foldl withMonth months = months ++ fresh := by
  induction fresh generalizing months with
  | nil => simp
  | cons k fresh ih =>
      have same : months ++ k :: fresh = months ++ [k] ++ fresh := by simp
      have absent : k ∉ months := fun member =>
        (List.nodup_append.mp distinct).2.2 k member k List.mem_cons_self rfl
      rw [same] at distinct ⊢
      rw [List.foldl_cons, withMonth, if_neg absent, ih distinct]

/-- One round of the loop of `ensure_next_n_months`. -/
def ensureMonth (state : List Str × List Partition) (k : Nat) :
    Except DdlError (List Str × List Partition) := do
  let tables ← createPartition state.2 (monthPartition k)
  return (state.1 ++ [(monthPartition k).name], tables)

theorem ensureNextNMonths_eq (now : Date) (n : Int) (tables : List Partition) :
    ensureNextNMonths now n tables =
      (List.range' now.monthIndex n.toNat).foldlM ensureMonth ([], tables) := by
  unfold ensureNextNMonths
  rw [List.range'_eq_map_range, List.foldlM_map]
  simp only [nextPartition_month]
  rfl

theorem ensureMonths_month (fresh : List Nat) (out : List Str) {tables : List Partition}
    {months : List Nat} (inv : MonthTables tables months) :
    ∃ tables', fresh.foldlM ensureMonth (out, tables) =
        .ok (out ++ fresh.map (fun k => (monthPartition k).name), tables') ∧
      MonthTables tables' (fresh.foldl withMonth months) := by
  induction fresh generalizing out tables months with
  | nil => exact ⟨tables, by simp; rfl, inv⟩
  | cons k fresh ih =>
      obtain ⟨tables', created, next⟩ := createPartition_month inv k
      obtain ⟨tables'', looped, final⟩ := ih (out ++ [(monthPartition k).name]) next
      refine ⟨tables'', ?_, final⟩
      rw [List.foldlM_cons, ensureMonth, created]
      simp only [bind, Except.bind, pure, Except.pure] at looped ⊢
      rw [looped, List.map_cons, List.append_assoc]
      rfl

/-- A call that makes partitions. -/
inductive PartitionCall where
  | ensurePartition (when : Option Date)
  | ensureNextNMonths (n : Int)

namespace PartitionCall

/-- The tables that a call leaves, at a reading of the clock. -/
def run (call : Date × PartitionCall) (tables : List Partition) :
    Except DdlError (List Partition) :=
  match call.2 with
  | .ensurePartition when => Prod.snd <$> Cti.ensurePartition call.1 when tables
  | .ensureNextNMonths n => Prod.snd <$> Cti.ensureNextNMonths call.1 n tables

def runAll (calls : List (Date × PartitionCall)) (tables : List Partition) :
    Except DdlError (List Partition) :=
  calls.foldlM (fun tables call => run call tables) tables

/-- The months that a call asks for: the first one, and the one behind the last one. -/
def window (call : Date × PartitionCall) : Nat × Nat :=
  match call.2 with
  | .ensurePartition when =>
      ((when.getD call.1).monthIndex, (when.getD call.1).monthIndex + 1)
  | .ensureNextNMonths n => (call.1.monthIndex, call.1.monthIndex + n.toNat)

def months (call : Date × PartitionCall) : List Nat :=
  List.range' (window call).1 ((window call).2 - (window call).1)

theorem mem_months {call : Date × PartitionCall} {k : Nat} :
    k ∈ months call ↔ (window call).1 ≤ k ∧ k < (window call).2 := by
  rw [months, List.mem_range'_1]
  omega

theorem run_month {tables : List Partition} {present : List Nat}
    (inv : MonthTables tables present) (call : Date × PartitionCall) :
    ∃ tables', run call tables = .ok tables' ∧
      MonthTables tables' ((months call).foldl withMonth present) := by
  obtain ⟨now, ⟨when⟩ | ⟨n⟩⟩ := call
  · obtain ⟨tables', created, next⟩ := createPartition_month inv (when.getD now).monthIndex
    refine ⟨tables', ?_, ?_⟩
    · simp only [run, Cti.ensurePartition, partitionBounds_month, created]
      rfl
    · simpa [months, window] using next
  · obtain ⟨tables', looped, final⟩ :=
      ensureMonths_month (List.range' now.monthIndex n.toNat) [] inv
    refine ⟨tables', ?_, ?_⟩
    · simp only [run, ensureNextNMonths_eq, looped]
      rfl
    · simpa [months, window] using final

theorem runAll_month (calls : List (Date × PartitionCall)) {tables : List Partition}
    {present : List Nat} (inv : MonthTables tables present) :
    ∃ tables', runAll calls tables = .ok tables' ∧
      MonthTables tables' ((calls.flatMap months).foldl withMonth present) := by
  induction calls generalizing tables present with
  | nil => exact ⟨tables, rfl, inv⟩
  | cons call calls ih =>
      obtain ⟨tables', first, next⟩ := run_month inv call
      obtain ⟨tables'', rest, final⟩ := ih next
      refine ⟨tables'', ?_, ?_⟩
      · unfold runAll at rest ⊢
        rw [List.foldlM_cons, first]
        exact rest
      · rw [List.flatMap_cons, List.foldl_append]
        exact final

/-- Windows of which none lies beyond the other with a gap between. -/
def Touch (v w : Nat × Nat) : Prop := w.1 ≤ v.2 ∧ v.1 ≤ w.2

/-- Windows that touch one by one leave no gap between any two of them. -/
theorem covered_of_touching {windows : List (Nat × Nat)} (touching : windows.IsChain Touch)
    {v w : Nat × Nat} (first : v ∈ windows) (last : w ∈ windows) {k : Nat} (after : v.1 ≤ k)
    (before : k < w.2) : ∃ u ∈ windows, u.1 ≤ k ∧ k < u.2 := by
  induction windows generalizing v w with
  | nil => cases first
  | cons u windows ih =>
      by_cases here : u.1 ≤ k ∧ k < u.2
      · exact ⟨u, List.mem_cons_self, here⟩
      cases windows with
      | nil =>
          rw [List.mem_singleton.mp first] at after
          rw [List.mem_singleton.mp last] at before
          exact absurd ⟨after, before⟩ here
      | cons u' windows =>
          obtain ⟨touch, rest⟩ := List.isChain_cons_cons.mp touching
          obtain ⟨up, down⟩ := touch
          -- The head may be left out: its neighbour stands in for it on the side where it was.
          have left : ∃ v' ∈ u' :: windows, v'.1 ≤ k := by
            rcases List.mem_cons.mp first with rfl | member
            · exact ⟨u', List.mem_cons_self, by omega⟩
            · exact ⟨v, member, after⟩
          have right : ∃ w' ∈ u' :: windows, k < w'.2 := by
            rcases List.mem_cons.mp last with rfl | member
            · exact ⟨u', List.mem_cons_self, by omega⟩
            · exact ⟨w, member, before⟩
          obtain ⟨v', first', after'⟩ := left
          obtain ⟨w', last', before'⟩ := right
          obtain ⟨found, member, within⟩ := ih rest first' last' after' before'
          exact ⟨found, List.mem_cons_of_mem u member, within⟩

end PartitionCall

/-- Partitions that are the months from one day up to another one, without gaps. -/
structure Tiles (parts : List Partition) (first stop : Date) : Prop where
  names : (parts.map Partition.name).Nodup
  months : ∀ p ∈ parts, ∃ lower upper, Date.parse p.lower = some lower ∧
    Date.parse p.upper = some upper ∧ lower < upper
  starts : ∃ p, parts.head? = some p ∧ Date.parse p.lower = some first
  joined : parts.IsChain fun p q => p.upper = q.lower
  ends : ∃ p, parts.getLast? = some p ∧ Date.parse p.upper = some stop
  covers : ∀ d, first ≤ d → d < stop → ∃! p, p ∈ parts ∧ p.Holds d

theorem MonthTables.names {tables : List Partition} {months : List Nat}
    (inv : MonthTables tables months) : (tables.map Partition.name).Nodup := by
  rw [inv.1, List.map_map]
  exact inv.2.map fun j k same => monthPartition_name_injective same

theorem MonthTables.holds {tables : List Partition} {months : List Nat}
    (inv : MonthTables tables months) {d : Date} (member : d.monthIndex ∈ months) :
    ∃! p, p ∈ tables ∧ p.Holds d := by
  obtain ⟨rfl, _⟩ := inv
  refine ⟨monthPartition d.monthIndex, ⟨List.mem_map_of_mem member, ?_⟩, ?_⟩
  · exact (monthPartition_holds _ d).mpr rfl
  · rintro p ⟨inside, holds⟩
    obtain ⟨k, _, rfl⟩ := List.mem_map.mp inside
    rw [(monthPartition_holds k d).mp holds]

theorem MonthTables.apart {tables : List Partition} {months : List Nat}
    (inv : MonthTables tables months) :
    tables.Pairwise fun p q => ∀ d, ¬ (p.Holds d ∧ q.Holds d) := by
  rw [inv.1, List.pairwise_map]
  refine inv.2.imp ?_
  rintro j k other d ⟨here, there⟩
  rw [monthPartition_holds] at here there
  exact other (here.symm.trans there)

/-- A window of months is tiled by its partitions. -/
theorem monthPartitions_tile (first count : Nat) (positive : 1 ≤ count) :
    Tiles ((List.range' first count).map monthPartition) (Date.monthStart first)
      (Date.monthStart (first + count)) where
  names := MonthTables.names ⟨rfl, List.nodup_range'⟩
  months p member := by
    obtain ⟨k, _, rfl⟩ := List.mem_map.mp member
    refine ⟨_, _, parse_lower k, parse_upper k, ?_⟩
    rw [Date.lt_monthStart_iff, Date.monthIndex_monthStart]
    exact Nat.lt_succ_self k
  starts := by
    refine ⟨monthPartition first, ?_, parse_lower first⟩
    obtain ⟨count, rfl⟩ := Nat.exists_eq_add_of_le' positive
    rfl
  joined := by
    rw [List.isChain_map]
    refine (List.isChain_range' first count 1).imp ?_
    rintro j _ rfl
    exact monthPartition_upper j
  ends := by
    obtain ⟨count, rfl⟩ := Nat.exists_eq_add_of_le' positive
    refine ⟨monthPartition (first + count), ?_, parse_upper (first + count)⟩
    rw [List.range'_concat, List.map_append]
    simp
  covers d after before := by
    rw [Date.monthStart_le_iff] at after
    rw [Date.lt_monthStart_iff] at before
    exact MonthTables.holds ⟨rfl, List.nodup_range'⟩ (List.mem_range'_1.mpr ⟨after, before⟩)

theorem partitionBounds_name (d e : Date)
    (same : (partitionBounds d.year d.month).name = (partitionBounds e.year e.month).name) :
    partitionBounds d.year d.month = partitionBounds e.year e.month := by
  rw [partitionBounds_month, partitionBounds_month] at same ⊢
  rw [monthPartition_name_injective same]

/-- The next n months are tiled by the partitions that are created for them. No sequence of calls
fails or creates partitions that overlap, and where the windows of the calls touch one by one, no
day between two of them is left out. -/
theorem partitions_tile (now : Date) (n : Int) (positive : 1 ≤ n)
    (calls : List (Date × PartitionCall)) :
    (∃ (parts : List Partition) (first stop : Date),
      ensureNextNMonths now n [] = .ok (parts.map Partition.name, parts) ∧
        parts.length = n.toNat ∧
        (first.year, first.month, first.day) = (now.year, now.month, 1) ∧
        (12 * stop.year + stop.month : Int) = 12 * now.year + now.month + n ∧ stop.day = 1 ∧
        Tiles parts first stop) ∧
      (∀ d e : Date,
        (partitionBounds d.year d.month).name = (partitionBounds e.year e.month).name →
        partitionBounds d.year d.month = partitionBounds e.year e.month) ∧
      ∃ tables, PartitionCall.runAll calls [] = .ok tables ∧
        (tables.map Partition.name).Nodup ∧
        (tables.Pairwise fun p q => ∀ d, ¬ (p.Holds d ∧ q.Holds d)) ∧
        ((calls.map PartitionCall.window).IsChain PartitionCall.Touch →
          ∀ call ∈ calls, ∀ call' ∈ calls, ∀ d,
            Date.monthStart (PartitionCall.window call).1 ≤ d →
            d < Date.monthStart (PartitionCall.window call').2 →
            ∃! p, p ∈ tables ∧ p.Holds d) := by
  have empty : MonthTables [] [] := ⟨rfl, List.nodup_nil⟩
  refine ⟨?_, partitionBounds_name, ?_⟩
  · obtain ⟨tables, looped, made, _⟩ :=
      ensureMonths_month (List.range' now.monthIndex n.toNat) [] empty
    rw [withMonths_fresh (by simpa using List.nodup_range'), List.nil_append] at made
    subst made
    refine ⟨_, _, _, ?_, ?_, ?_, ?_, rfl, monthPartitions_tile now.monthIndex n.toNat (by omega)⟩
    · rw [ensureNextNMonths_eq, looped, List.nil_append, List.map_map]
      rfl
    · rw [List.length_map, List.length_range']
    · obtain ⟨y, m, day, year_pos, month_valid, day_valid⟩ := now
      have year : (12 * (y - 1) + (m - 1)) / 12 + 1 = y := by omega
      have month : (12 * (y - 1) + (m - 1)) % 12 + 1 = m := by omega
      simp only [Date.monthStart, Date.monthIndex, year, month]
    · obtain ⟨y, m, day, year_pos, month_valid, day_valid⟩ := now
      simp only [Date.monthStart, Date.monthIndex]
      omega
  · obtain ⟨tables, ran, inv⟩ := PartitionCall.runAll_month calls empty
    refine ⟨tables, ran, inv.names, inv.apart, ?_⟩
    intro touching call member call' member' d after before
    rw [Date.monthStart_le_iff] at after
    rw [Date.lt_monthStart_iff] at before
    obtain ⟨window, asked, within⟩ := PartitionCall.covered_of_touching touching
      (List.mem_map_of_mem member) (List.mem_map_of_mem member') after before
    obtain ⟨other, inside, rfl⟩ := List.mem_map.mp asked
    refine inv.holds (mem_withMonths.mpr (Or.inr ?_))
    exact List.mem_flatMap.mpr ⟨other, inside, PartitionCall.mem_months.mpr within⟩

def november : Date := ⟨2025, 11, 15, by decide, by decide, by decide⟩

def february : Date := ⟨2026, 2, 1, by decide, by decide, by decide⟩

/-- The window of three months, and a call for the month behind it. -/
def winterCalls : List (Date × PartitionCall) :=
  [(november, .ensureNextNMonths 3), (february, .ensurePartition none)]

theorem partitions_tile_winter :
    ∃ tables, PartitionCall.runAll winterCalls [] = .ok tables ∧
      ∀ d, Date.monthStart november.monthIndex ≤ d →
        d < Date.monthStart (february.monthIndex + 1) → ∃! p, p ∈ tables ∧ p.Holds d := by
  have touching : (winterCalls.map PartitionCall.window).IsChain PartitionCall.Touch :=
    .cons_cons ⟨by decide, by decide⟩ (.singleton _)
  obtain ⟨_, _, tables, ran, _, _, covered⟩ :=
    partitions_tile november 3 (by decide) winterCalls
  refine ⟨tables, ran, fun d after before => ?_⟩
  exact covered touching (november, .ensureNextNMonths 3) List.mem_cons_self
    (february, .ensurePartition none) (List.mem_cons_of_mem _ List.mem_cons_self) d after before

end Cti
