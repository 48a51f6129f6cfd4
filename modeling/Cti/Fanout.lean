import Mathlib.Data.Nat.ModEq
import Mathlib.Data.List.Nodup
import Mathlib.Data.List.Range
import Mathlib.Logic.Function.Basic
import Mathlib.Tactic.Ring

set_option autoImplicit false

/- Sinks that take items in batches, where sinks of one key fill one batch together. -/
namespace Fanout

section batches

variable {π κ α : Type} [DecidableEq κ] (key : π → κ) (size : Int)

/-- One item for every sink: the batches that are full on the way, each with the sink whose turn
filled it, and the batches that stay. -/
def offers (item : α) : List π → (κ → List α) → List (π × List α) × (κ → List α)
  | [], batches => ([], batches)
  | sink :: sinks, batches =>
      let batch := batches (key sink) ++ [item]
      if size ≤ batch.length then
        let later := offers item sinks (Function.update batches (key sink) [])
        ((sink, batch) :: later.1, later.2)
      else offers item sinks (Function.update batches (key sink) batch)

/-- The batches that are left at the end, each with the first sink of its key. -/
def leftovers : List π → (κ → List α) → List (π × List α)
  | [], _ => []
  | sink :: sinks, batches =>
      if batches (key sink) = [] then leftovers sinks batches
      else (sink, batches (key sink)) :: leftovers sinks (Function.update batches (key sink) [])

/-- All batches, in the order in which the sinks get them. -/
def flushes (sinks : List π) : List α → (κ → List α) → List (π × List α)
  | [], batches => leftovers key sinks batches
  | item :: items, batches =>
      let offered := offers key size item sinks batches
      offered.1 ++ flushes sinks items offered.2

variable {key size}

/-- What a sink gets, batch after batch. -/
def delivered [DecidableEq π] (all : List (π × List α)) (sink : π) : List (List α) :=
  (all.filter fun flush => flush.1 = sink).map Prod.snd

end batches

section feed

variable {π α : Type} (μ : Nat)

/-- A stream of items, each with the sink whose turn it is, cut into batches. -/
def feed : List (π × α) → List α → List (π × List α) × List α
  | [], batch => ([], batch)
  | (sink, item) :: stream, batch =>
      if μ ≤ batch.length + 1 then
        let later := feed stream []
        ((sink, batch ++ [item]) :: later.1, later.2)
      else feed stream (batch ++ [item])

theorem feed_append (stream more : List (π × α)) (batch : List α) :
    feed μ (stream ++ more) batch =
      ((feed μ stream batch).1 ++ (feed μ more (feed μ stream batch).2).1,
        (feed μ more (feed μ stream batch).2).2) := by
  induction stream generalizing batch with
  | nil => rfl
  | cons pair stream ih =>
      obtain ⟨sink, item⟩ := pair
      rw [List.cons_append, feed, feed]
      split
      · rw [ih]
        rfl
      · exact ih _

/-- Every item of a stream gets into one batch or stays. -/
theorem feed_length (stream : List (π × α)) (batch : List α) :
    ((feed μ stream batch).1.map fun flush => flush.2.length).sum +
      (feed μ stream batch).2.length = batch.length + stream.length := by
  induction stream generalizing batch with
  | nil => simp [feed]
  | cons pair stream ih =>
      rw [feed]
      split
      · have rest := ih []
        simp only [List.length_nil] at rest
        simp only [List.map_cons, List.sum_cons, List.length_append, List.length_cons,
          List.length_nil]
        omega
      · rw [ih]
        simp only [List.length_append, List.length_cons, List.length_nil]
        omega

/-- The batches of a stream, and the rest, by position. -/
theorem feed_range (positive : 0 < μ) (s : Nat → π × α) (L : Nat) :
    feed μ ((List.range L).map s) [] =
      ((List.range (L / μ)).map fun c =>
          ((s (c * μ + (μ - 1))).1, (List.range μ).map fun u => (s (c * μ + u)).2),
        (List.range (L % μ)).map fun u => (s (L / μ * μ + u)).2) := by
  induction L with
  | zero => simp [feed]
  | succ L ih =>
      have below := Nat.mod_lt L positive
      have split := Nat.div_add_mod' L μ
      rw [List.range_succ, List.map_append, feed_append, ih]
      simp only [List.map_cons, List.map_nil, feed, List.length_map, List.length_range]
      by_cases full : μ ≤ L % μ + 1
      · -- The item fills the batch.
        have last : L % μ = μ - 1 := by omega
        have next : L + 1 = (L / μ + 1) * μ := by
          rw [Nat.add_one_mul]
          omega
        have quotient : (L + 1) / μ = L / μ + 1 := by
          rw [next, Nat.mul_div_cancel _ positive]
        have remainder : (L + 1) % μ = 0 := by
          rw [next, Nat.mul_mod_left]
        have here : L / μ * μ + (μ - 1) = L := by omega
        have whole : List.range μ = List.range (μ - 1) ++ [μ - 1] := by
          rw [← List.range_succ, Nat.succ_eq_add_one, Nat.sub_add_cancel positive]
        rw [if_pos full, quotient, remainder, last, List.range_succ]
        simp only [List.map_append, List.map_cons, List.map_nil, List.range_zero, here, whole]
      · have short : L % μ + 1 < μ := by omega
        have next : L + 1 = μ * (L / μ) + (L % μ + 1) := by
          rw [Nat.mul_comm]
          omega
        have quotient : (L + 1) / μ = L / μ := by
          rw [next, Nat.mul_add_div positive, Nat.div_eq_of_lt short, Nat.add_zero]
        have remainder : (L + 1) % μ = L % μ + 1 := by
          rw [next, Nat.mul_add_mod, Nat.mod_eq_of_lt short]
        rw [if_neg full, quotient, remainder, List.range_succ]
        simp [split]

end feed

section keys

variable {π κ α : Type} [DecidableEq κ] {key : π → κ} {size : Int}

/-- The sinks of one key. -/
def sharing (key : π → κ) (k : κ) (sinks : List π) : List π := sinks.filter fun sink => key sink = k

/-- A batch is full from this length on, whatever the size. -/
def batchLength (size : Int) : Nat := max 1 size.toNat

theorem full_iff (size : Int) (n : Nat) : size ≤ (n + 1 : Nat) ↔ batchLength size ≤ n + 1 := by
  unfold batchLength
  omega

theorem batchLength_pos (size : Int) : 0 < batchLength size := by
  unfold batchLength
  omega

/-- Of the batches filled by one item, those of one key are cut from the stream of its sinks. -/
theorem offers_sharing (k : κ) (item : α) (sinks : List π) (batches : κ → List α) :
    ((offers key size item sinks batches).1.filter (fun flush => key flush.1 = k),
      (offers key size item sinks batches).2 k) =
        feed (batchLength size) ((sharing key k sinks).map fun sink => (sink, item))
          (batches k) := by
  induction sinks generalizing batches with
  | nil => rfl
  | cons sink sinks ih =>
      rw [offers]
      have full := full_iff size (batches (key sink)).length
      by_cases own : key sink = k
      · have here : sharing key k (sink :: sinks) = sink :: sharing key k sinks := by
          simp [sharing, own]
        subst own
        rw [here, List.map_cons, feed]
        simp only [List.length_append, List.length_singleton, full]
        split
        · have later := ih (Function.update batches (key sink) [])
          rw [Function.update_self] at later
          rw [← later]
          simp
        · rw [ih, Function.update_self]
      · have here : sharing key k (sink :: sinks) = sharing key k sinks := by
          simp [sharing, own]
        have other : k ≠ key sink := fun same => own same.symm
        rw [here]
        dsimp only
        split
        · have later := ih (Function.update batches (key sink) [])
          rw [Function.update_of_ne other] at later
          rw [← later]
          simp [own]
        · rw [ih, Function.update_of_ne other]

theorem leftovers_sharing (k : κ) (sinks : List π) (batches : κ → List α) :
    (leftovers key sinks batches).filter (fun flush => key flush.1 = k) =
      if batches k = [] then []
      else ((sharing key k sinks).take 1).map fun sink => (sink, batches k) := by
  induction sinks generalizing batches with
  | nil => simp [leftovers, sharing]
  | cons sink sinks ih =>
      rw [leftovers]
      by_cases own : key sink = k
      · have here : sharing key k (sink :: sinks) = sink :: sharing key k sinks := by
          simp [sharing, own]
        subst own
        by_cases empty : batches (key sink) = []
        · rw [if_pos empty, if_pos empty, ih, if_pos empty]
        · rw [if_neg empty, if_neg empty, here, List.filter_cons_of_pos (by simp), ih]
          simp
      · have here : sharing key k (sink :: sinks) = sharing key k sinks := by
          simp [sharing, own]
        have other : k ≠ key sink := fun same => own same.symm
        split
        · rw [ih, here]
        · rw [List.filter_cons_of_neg (by simpa using own), ih, here,
            Function.update_of_ne other]

theorem leftovers_empty (sinks : List π) :
    leftovers key sinks (fun _ => ([] : List α)) = [] := by
  induction sinks with
  | nil => rfl
  | cons sink sinks ih => rw [leftovers, if_pos rfl, ih]

/-- Each item, for each of the sinks. -/
def stream (sinks : List π) (items : List α) : List (π × α) :=
  items.flatMap fun item => sinks.map fun sink => (sink, item)

/-- The batches of one key are the stream of its sinks, cut into pieces. -/
theorem flushes_sharing (k : κ) (sinks : List π) (items : List α) (batches : κ → List α) :
    (flushes key size sinks items batches).filter (fun flush => key flush.1 = k) =
      (feed (batchLength size) (stream (sharing key k sinks) items) (batches k)).1 ++
        if (feed (batchLength size) (stream (sharing key k sinks) items) (batches k)).2 = [] then []
        else ((sharing key k sinks).take 1).map fun sink =>
          (sink, (feed (batchLength size) (stream (sharing key k sinks) items) (batches k)).2) := by
  induction items generalizing batches with
  | nil =>
      rw [flushes, leftovers_sharing]
      rfl
  | cons item items ih =>
      have offered := @offers_sharing _ _ _ _ key size k item sinks batches
      have first := congrArg Prod.fst offered
      have second := congrArg Prod.snd offered
      dsimp only at first second
      have cut : stream (sharing key k sinks) (item :: items) =
          ((sharing key k sinks).map fun sink => (sink, item)) ++
            stream (sharing key k sinks) items := rfl
      rw [flushes, List.filter_append, ih, first, second, cut, feed_append, List.append_assoc]

/-- Whatever else sinks carry, only their keys decide about the batches. -/
theorem offers_map {σ : Type} (f : σ → π) (item : α) (sinks : List σ) (batches : κ → List α) :
    offers key size item (sinks.map f) batches =
      ((offers (key ∘ f) size item sinks batches).1.map fun flush => (f flush.1, flush.2),
        (offers (key ∘ f) size item sinks batches).2) := by
  induction sinks generalizing batches with
  | nil => rfl
  | cons sink sinks ih =>
      rw [List.map_cons, offers, offers]
      dsimp only [Function.comp]
      split
      · rw [ih]
        rfl
      · exact ih _

theorem leftovers_map {σ : Type} (f : σ → π) (sinks : List σ) (batches : κ → List α) :
    leftovers key (sinks.map f) batches =
      (leftovers (key ∘ f) sinks batches).map fun flush => (f flush.1, flush.2) := by
  induction sinks generalizing batches with
  | nil => rfl
  | cons sink sinks ih =>
      rw [List.map_cons, leftovers, leftovers]
      dsimp only [Function.comp]
      split
      · exact ih _
      · rw [ih]
        rfl

theorem flushes_map {σ : Type} (f : σ → π) (sinks : List σ) (items : List α)
    (batches : κ → List α) :
    flushes key size (sinks.map f) items batches =
      (flushes (key ∘ f) size sinks items batches).map fun flush => (f flush.1, flush.2) := by
  induction items generalizing batches with
  | nil => exact leftovers_map f sinks batches
  | cons item items ih =>
      rw [flushes, flushes, offers_map]
      dsimp only
      rw [ih, List.map_append]

/-- No batch is empty, and each goes to one of the sinks. -/
theorem mem_offers {item : α} {sinks : List π} {batches : κ → List α} :
    ∀ flush ∈ (offers key size item sinks batches).1, flush.1 ∈ sinks ∧ flush.2 ≠ [] := by
  induction sinks generalizing batches with
  | nil => exact nofun
  | cons sink sinks ih =>
      intro flush member
      rw [offers] at member
      dsimp only at member
      split at member
      · rcases List.mem_cons.mp member with rfl | later
        · exact ⟨List.mem_cons_self, by simp⟩
        · exact ⟨List.mem_cons_of_mem _ (ih flush later).1, (ih flush later).2⟩
      · exact ⟨List.mem_cons_of_mem _ (ih flush member).1, (ih flush member).2⟩

theorem mem_leftovers {sinks : List π} {batches : κ → List α} :
    ∀ flush ∈ leftovers key sinks batches, flush.1 ∈ sinks ∧ flush.2 ≠ [] := by
  induction sinks generalizing batches with
  | nil => exact nofun
  | cons sink sinks ih =>
      intro flush member
      rw [leftovers] at member
      split at member
      · exact ⟨List.mem_cons_of_mem _ (ih flush member).1, (ih flush member).2⟩
      · rename_i filled
        rcases List.mem_cons.mp member with rfl | later
        · exact ⟨List.mem_cons_self, filled⟩
        · exact ⟨List.mem_cons_of_mem _ (ih flush later).1, (ih flush later).2⟩

theorem mem_flushes {sinks : List π} {items : List α} {batches : κ → List α} :
    ∀ flush ∈ flushes key size sinks items batches, flush.1 ∈ sinks ∧ flush.2 ≠ [] := by
  induction items generalizing batches with
  | nil => exact mem_leftovers
  | cons item items ih =>
      intro flush member
      rcases List.mem_append.mp member with now | later
      · exact mem_offers flush now
      · exact ih flush later

theorem length_stream (sinks : List π) (items : List α) :
    (stream sinks items).length = sinks.length * items.length := by
  induction items with
  | nil => rfl
  | cons item items ih =>
      have cut : stream sinks (item :: items) =
          (sinks.map fun sink => (sink, item)) ++ stream sinks items := rfl
      rw [cut, List.length_append, List.length_map, ih, List.length_cons, Nat.mul_add_one,
        Nat.add_comm]

/-- The batches of one key hold every item once for each of its sinks. -/
theorem sum_flushes (k : κ) (sinks : List π) (items : List α) :
    (((flushes key size sinks items fun _ => []).filter fun flush => key flush.1 = k).map
      fun flush => flush.2.length).sum = (sharing key k sinks).length * items.length := by
  have all := feed_length (batchLength size) (stream (sharing key k sinks) items) []
  rw [flushes_sharing, List.map_append, List.sum_append]
  rw [length_stream, List.length_nil, Nat.zero_add] at all
  rw [← all]
  apply congrArg (_ + ·)
  cases sinksOf : sharing key k sinks with
  | nil =>
      have nothing : stream ([] : List π) items = [] := by
        apply List.eq_nil_of_length_eq_zero
        rw [length_stream, List.length_nil, Nat.zero_mul]
      simp [nothing, feed]
  | cons sink rest =>
      split
      · rename_i empty
        simp [empty]
      · simp

end keys

section ranges

variable {α : Type}

theorem flatMap_range (T K : Nat) (f : Nat → Nat → α) :
    ((List.range T).flatMap fun t => (List.range K).map (f t)) =
      (List.range (T * K)).map fun p => f (p / K) (p % K) := by
  induction T with
  | zero => simp
  | succ T ih =>
      rw [List.range_succ, List.flatMap_append, ih, Nat.add_one_mul, List.range_add,
        List.map_append, List.map_map, List.flatMap_singleton]
      apply congrArg (_ ++ ·)
      apply List.map_congr_left
      intro j member
      have below : j < K := List.mem_range.mp member
      have quotient : (T * K + j) / K = T := by
        rw [Nat.mul_comm, Nat.mul_add_div (by omega), Nat.div_eq_of_lt below, Nat.add_zero]
      have remainder : (T * K + j) % K = j := by
        rw [Nat.mul_comm, Nat.mul_add_mod, Nat.mod_eq_of_lt below]
      rw [Function.comp, quotient, remainder]

/-- The positions with one remainder. -/
theorem filter_range_mod {K a : Nat} (below : a < K) (n : Nat) :
    (List.range (n * K)).filter (fun c => c % K = a) = (List.range n).map fun i => i * K + a := by
  induction n with
  | zero => simp
  | succ n ih =>
      have single : (List.range K).filter (fun u => decide ((n * K + u) % K = a)) = [a] := by
        have same : ∀ u ∈ List.range K, decide ((n * K + u) % K = a) = decide (u = a) := by
          intro u member
          rw [Nat.mul_comm, Nat.mul_add_mod, Nat.mod_eq_of_lt (List.mem_range.mp member)]
        rw [List.filter_congr same, List.filter_eq,
          List.count_eq_one_of_mem List.nodup_range (List.mem_range.mpr below)]
        rfl
      rw [Nat.add_one_mul, List.range_add, List.filter_append, ih, List.filter_map, List.range_succ,
        List.map_append]
      exact congrArg (_ ++ List.map (n * K + ·) ·) single

end ranges

section shares

variable {α : Type} (K μ T : Nat) (x : Nat → α)

/-- What the j-th of K sinks gets of the items, one after the other. -/
def share (j : Nat) : List α :=
  (((List.range (T * K / μ)).filter fun c => (c * μ + (μ - 1)) % K = j).flatMap fun c =>
    (List.range μ).map fun u => x ((c * μ + u) / K)) ++
    if j = 0 then (List.range (T * K % μ)).map fun u => x ((T * K / μ * μ + u) / K) else []

variable {K μ T x}

/-- The share of a sink that gets every K-th batch. -/
theorem share_residue {a j : Nat} (positive : 0 < μ) (below : a < K) (divides : μ ∣ T)
    (turn : ∀ c, (c * μ + (μ - 1)) % K = j ↔ c % K = a) :
    share K μ T x j = (List.range T).map fun p => x (p / μ * μ + (a * μ + p % μ) / K) := by
  obtain ⟨n, rfl⟩ := divides
  have size : μ * n * K = n * K * μ := by ring
  have batches : μ * n * K / μ = n * K := by rw [size, Nat.mul_div_cancel _ positive]
  have rest : μ * n * K % μ = 0 := by rw [size, Nat.mul_mod_left]
  have picked : (List.range (n * K)).filter (fun c => (c * μ + (μ - 1)) % K = j) =
      (List.range n).map fun i => i * K + a := by
    rw [← filter_range_mod below]
    apply List.filter_congr
    intro c _
    simp only [turn]
  rw [share, batches, rest, picked]
  simp only [List.range_zero, List.map_nil, ite_self, List.append_nil, List.flatMap_map]
  rw [flatMap_range n μ fun i u => x (((i * K + a) * μ + u) / K), Nat.mul_comm n μ]
  apply List.map_congr_left
  intro p _
  have shift : (p / μ * K + a) * μ + p % μ = K * (p / μ * μ) + (a * μ + p % μ) := by ring
  rw [shift, Nat.mul_add_div (by omega)]

theorem length_share (j : Nat) :
    (share K μ T x j).length =
      ((List.range (T * K / μ)).filter fun c => (c * μ + (μ - 1)) % K = j).length * μ +
        if j = 0 then T * K % μ else 0 := by
  rw [share, List.length_append, List.length_flatMap]
  simp only [List.length_map, List.length_range, List.map_const', List.sum_replicate_nat]
  split <;> simp

/-- A sink alone gets the items. -/
theorem share_alone : share 1 μ T x 0 = (List.range T).map x := by
  have everything : ∀ c ∈ List.range (T * 1 / μ), (c * μ + (μ - 1)) % 1 = 0 := fun _ _ =>
    Nat.mod_one _
  rw [share, List.filter_eq_self.mpr (by simpa using everything)]
  simp only [Nat.mul_one, Nat.div_one, if_true]
  rw [flatMap_range]
  have split := Nat.div_add_mod' T μ
  conv_rhs => rw [← split, List.range_add, List.map_append, List.map_map]
  refine congrArg₂ (· ++ ·) (List.map_congr_left fun p _ => ?_) rfl
  rw [Nat.div_add_mod']

/-- Single items are dealt in turn. -/
theorem share_single {j : Nat} (below : j < K) : share K 1 T x j = (List.range T).map x := by
  rw [share_residue Nat.one_pos below (Nat.one_dvd T) (fun c => by simp)]
  apply List.map_congr_left
  intro p _
  rw [Nat.div_one, Nat.mul_one, Nat.mod_one, Nat.mul_one, Nat.add_zero, Nat.div_eq_of_lt below,
    Nat.add_zero]

/-- Each sink's turn to fill a batch comes with the batches of one remainder, if the number of
sinks and the length of a batch have no common divisor. -/
theorem turn_iff (coprime : Nat.Coprime μ K) (a c : Nat) :
    (c * μ + (μ - 1)) % K = (a * μ + (μ - 1)) % K ↔ c % K = a % K := by
  constructor
  · intro same
    have shifted : c * μ ≡ a * μ [MOD K] := Nat.ModEq.add_right_cancel' (μ - 1) same
    exact Nat.ModEq.cancel_right_of_coprime coprime.symm shifted
  · intro same
    exact Nat.ModEq.add_right (μ - 1) (Nat.ModEq.mul_right μ same)

/-- Several sinks that fill batches of two or more together all get the items exactly if each
gets whole batches in turn, and within these the items are the same anyway. -/
theorem shares_whole_iff (several : 2 ≤ K) (positive : 0 < μ) (some : 0 < T) :
    (∀ j < K, share K μ T x j = (List.range T).map x) ↔
      Nat.Coprime μ K ∧ μ ∣ T ∧ ∀ p < T, x p = x (p / μ * μ) := by
  constructor
  · intro whole
    have lengths : ∀ j < K, ((List.range (T * K / μ)).filter fun c =>
        (c * μ + (μ - 1)) % K = j).length * μ + (if j = 0 then T * K % μ else 0) = T := by
      intro j below
      rw [← length_share (x := x), whole j below, List.length_map, List.length_range]
    -- Only the first sink gets a batch that is not full.
    have divides : μ ∣ T := by
      have second := lengths 1 (by omega)
      rw [if_neg Nat.one_ne_zero, Nat.add_zero] at second
      exact ⟨_, by rw [← second, Nat.mul_comm]⟩
    have coprime : Nat.Coprime μ K := by
      have first := lengths 0 (by omega)
      rw [if_pos rfl, Nat.mod_eq_zero_of_dvd (Dvd.dvd.mul_right divides K), Nat.add_zero] at first
      have nonempty : (List.range (T * K / μ)).filter
          (fun c => (c * μ + (μ - 1)) % K = 0) ≠ [] := by
        intro empty
        rw [empty] at first
        simp at first
        omega
      obtain ⟨c, member⟩ := List.exists_mem_of_ne_nil _ nonempty
      have turn : (c * μ + (μ - 1)) % K = 0 := by simpa using (List.mem_filter.mp member).2
      obtain ⟨z, multiple⟩ := Nat.dvd_of_mod_eq_zero turn
      have one : (c + 1) * μ = K * z + 1 := by
        rw [← multiple, Nat.add_one_mul]
        omega
      refine Nat.eq_one_of_dvd_one ?_
      have left : Nat.gcd μ K ∣ K * z + 1 := by
        rw [← one]
        exact Dvd.dvd.mul_left (Nat.gcd_dvd_left μ K) _
      exact (Nat.dvd_add_right (Dvd.dvd.mul_right (Nat.gcd_dvd_right μ K) z)).mp left
    refine ⟨coprime, divides, ?_⟩
    -- The sink that gets the first batch gets every K-th one.
    have turn : ∀ c, (c * μ + (μ - 1)) % K = (μ - 1) % K ↔ c % K = 0 := by
      intro c
      have zero := turn_iff coprime 0 c
      rwa [Nat.zero_mul, Nat.zero_add, Nat.zero_mod] at zero
    have first := whole ((μ - 1) % K) (Nat.mod_lt _ (by omega))
    rw [share_residue positive (by omega) divides turn] at first
    have same : ∀ p < T, x (p / μ * μ + p % μ / K) = x p := by
      intro p below
      have here := List.map_inj_left.mp first p (List.mem_range.mpr below)
      rwa [Nat.zero_mul, Nat.zero_add] at here
    intro p below
    have bound : p / μ * μ ≤ p := Nat.div_mul_le_self p μ
    have constant : ∀ r, r < μ → p / μ * μ + r < T → x (p / μ * μ + r) = x (p / μ * μ) := by
      intro r
      induction r using Nat.strong_induction_on with
      | _ r ih =>
          intro short inside
          by_cases zero : r = 0
          · rw [zero, Nat.add_zero]
          · have smaller : r / K < r := Nat.div_lt_self (by omega) (by omega)
            have quotient : (p / μ * μ + r) / μ = p / μ := by
              rw [Nat.mul_comm, Nat.mul_add_div positive, Nat.div_eq_of_lt short, Nat.add_zero]
            have remainder : (p / μ * μ + r) % μ = r := by
              rw [Nat.mul_comm, Nat.mul_add_mod, Nat.mod_eq_of_lt short]
            have here := same (p / μ * μ + r) inside
            rw [quotient, remainder] at here
            rw [← here]
            exact ih (r / K) smaller (by omega) (by omega)
    have whole := constant (p % μ) (Nat.mod_lt p positive)
    rw [Nat.div_add_mod'] at whole
    exact whole below
  · rintro ⟨coprime, divides, constant⟩ j below
    obtain ⟨a, small, turn⟩ : ∃ a < K, (a * μ + (μ - 1)) % K = j := by
      obtain ⟨z, _, inverse⟩ := Nat.exists_mul_mod_eq_one_of_coprime coprime (by omega)
      refine ⟨(z * (j + 1) + (K - 1)) % K, Nat.mod_lt _ (by omega), ?_⟩
      have unit : μ * z ≡ 1 [MOD K] := by
        rw [Nat.ModEq, inverse, Nat.mod_eq_of_lt (by omega)]
      have next : (z * (j + 1) + (K - 1)) % K * μ + (μ - 1) + 1 ≡ j + 1 [MOD K] := by
        calc (z * (j + 1) + (K - 1)) % K * μ + (μ - 1) + 1
            = (z * (j + 1) + (K - 1)) % K * μ + μ := by omega
          _ ≡ (z * (j + 1) + (K - 1)) * μ + μ [MOD K] :=
              Nat.ModEq.add_right μ (Nat.ModEq.mul_right μ (Nat.mod_modEq _ K))
          _ = μ * z * (j + 1) + K * μ := by
              obtain ⟨k, rfl⟩ : ∃ k, K = k + 1 := ⟨K - 1, by omega⟩
              rw [Nat.add_sub_cancel]
              ring
          _ ≡ 1 * (j + 1) + 0 [MOD K] :=
              Nat.ModEq.add (Nat.ModEq.mul_right (j + 1) unit) (Nat.mul_mod_right K μ)
          _ = j + 1 := by ring
      have equal : (z * (j + 1) + (K - 1)) % K * μ + (μ - 1) ≡ j [MOD K] :=
        Nat.ModEq.add_right_cancel' 1 next
      rw [Nat.ModEq, Nat.mod_eq_of_lt below] at equal
      exact equal
    rw [share_residue (j := j) positive small divides]
    · apply List.map_congr_left
      intro p member
      have inside := List.mem_range.mp member
      rw [constant p inside]
      have early : (a * μ + p % μ) / K < μ := by
        apply Nat.div_lt_of_lt_mul
        have last : p % μ < μ := Nat.mod_lt p positive
        calc a * μ + p % μ < a * μ + μ := by omega
          _ = (a + 1) * μ := (Nat.add_one_mul a μ).symm
          _ ≤ K * μ := Nat.mul_le_mul_right μ small
      have quotient : (p / μ * μ + (a * μ + p % μ) / K) / μ = p / μ := by
        rw [Nat.mul_comm, Nat.mul_add_div positive, Nat.div_eq_of_lt early, Nat.add_zero]
      have within : p / μ * μ + (a * μ + p % μ) / K < T := by
        obtain ⟨n, rfl⟩ := divides
        have block : p / μ < n := Nat.div_lt_of_lt_mul inside
        calc p / μ * μ + (a * μ + p % μ) / K < p / μ * μ + μ := by omega
          _ = μ * (p / μ + 1) := by ring
          _ ≤ μ * n := Nat.mul_le_mul_left μ block
      rw [constant _ within, quotient]
    · intro c
      rw [← turn, turn_iff coprime, Nat.mod_eq_of_lt small]

end shares

section deliveries

variable {π κ α : Type} [DecidableEq π] [DecidableEq κ] {key : π → κ} {size : Int}

theorem exists_range_map {β : Type} {l : List β} (nonempty : l ≠ []) :
    ∃ f, l = (List.range l.length).map f := by
  obtain ⟨b, rest, rfl⟩ := List.exists_cons_of_ne_nil nonempty
  refine ⟨fun i => (b :: rest).getD i b, ?_⟩
  apply List.ext_getElem
  · simp
  · intro i inside _
    simp [List.getD, List.getElem?_eq_getElem inside]

/-- The batches of the j-th sink of a key. -/
theorem delivered_sharing {sinks : List π} (nodup : sinks.Nodup) {k : κ} {K : Nat} {y : Nat → π}
    (sinksOf : sharing key k sinks = (List.range K).map y) {j : Nat} (below : j < K)
    {T : Nat} (x : Nat → α) :
    delivered (flushes key size sinks ((List.range T).map x) fun _ => []) (y j) =
      (((List.range (T * K / batchLength size)).filter fun c =>
          (c * batchLength size + (batchLength size - 1)) % K = j).map fun c =>
            (List.range (batchLength size)).map fun u => x ((c * batchLength size + u) / K)) ++
        if j = 0 ∧ T * K % batchLength size ≠ 0 then
          [(List.range (T * K % batchLength size)).map fun u =>
            x ((T * K / batchLength size * batchLength size + u) / K)]
        else [] := by
  have positive := batchLength_pos size
  have distinct : ∀ i < K, (y i = y j ↔ i = j) := by
    have names : ((List.range K).map y).Nodup := by
      rw [← sinksOf]
      exact nodup.filter _
    intro i small
    refine ⟨fun same => ?_, congrArg y⟩
    exact List.inj_on_of_nodup_map names (List.mem_range.mpr small) (List.mem_range.mpr below) same
  have own : key (y j) = k := by
    have member : y j ∈ sharing key k sinks := by
      rw [sinksOf]
      exact List.mem_map_of_mem (List.mem_range.mpr below)
    simpa [sharing] using (List.mem_filter.mp member).2
  have cut : stream (sharing key k sinks) ((List.range T).map x) =
      (List.range (T * K)).map fun p => (y (p % K), x (p / K)) := by
    rw [stream, sinksOf, List.flatMap_map]
    simp only [List.map_map, Function.comp_def]
    exact flatMap_range T K fun t i => (y i, x t)
  have narrow : ∀ all : List (π × List α), delivered all (y j) =
      ((all.filter fun flush => key flush.1 = k).filter fun flush => flush.1 = y j).map
        Prod.snd := by
    intro all
    rw [delivered, List.filter_filter]
    refine congrArg (List.map Prod.snd) (List.filter_congr fun flush _ => ?_)
    by_cases same : flush.1 = y j
    · simp [same, own]
    · simp [same]
  rw [narrow, flushes_sharing, cut, feed_range _ positive, List.filter_append, List.map_append,
    List.filter_map, List.map_map]
  refine congrArg₂ (· ++ ·) ?_ ?_
  · have picked : ∀ c ∈ List.range (T * K / batchLength size),
        decide (y ((c * batchLength size + (batchLength size - 1)) % K) = y j) =
          decide ((c * batchLength size + (batchLength size - 1)) % K = j) := fun c _ =>
      decide_eq_decide.mpr (distinct _ (Nat.mod_lt _ (by omega)))
    simp only [Function.comp_def]
    rw [List.filter_congr picked]
  · have first : (sharing key k sinks).take 1 = [y 0] := by
      obtain ⟨n, rfl⟩ : ∃ n, K = n + 1 := ⟨K - 1, by omega⟩
      rw [sinksOf, List.range_succ_eq_map]
      rfl
    rw [first]
    by_cases full : T * K % batchLength size = 0
    · simp [full]
    · have zero := distinct 0 (by omega)
      by_cases start : j = 0
      · subst start
        simp [full]
      · have other : ¬ y 0 = y j := fun same => start (zero.mp same).symm
        simp [full, start, other]

theorem delivered_flatten {sinks : List π} (nodup : sinks.Nodup) {k : κ} {K : Nat} {y : Nat → π}
    (sinksOf : sharing key k sinks = (List.range K).map y) {j : Nat} (below : j < K)
    {T : Nat} (x : Nat → α) :
    (delivered (flushes key size sinks ((List.range T).map x) fun _ => []) (y j)).flatten =
      share K (batchLength size) T x j := by
  rw [delivered_sharing nodup sinksOf below, share, List.flatten_append, List.flatMap_def]
  apply congrArg (_ ++ ·)
  by_cases first : j = 0
  · by_cases full : T * K % batchLength size = 0
    · simp [full]
    · simp [first, full]
  · simp [first]

/-- Sinks that fill batches together all get every item once and in order: there is a single
one, or each gets whole batches in turn, within which the items are the same. -/
def Fair (size : Int) (items : List α) (K : Nat) : Prop :=
  K = 1 ∨ Nat.Coprime size.toNat K ∧ size.toNat ∣ items.length ∧
    ∀ p < items.length, items[p]? = items[p / size.toNat * size.toNat]?

theorem sharing_whole_iff {sinks : List π} (nodup : sinks.Nodup) {items : List α}
    (nonempty : items ≠ []) {k : κ} (shared : sharing key k sinks ≠ []) :
    (∀ sink ∈ sharing key k sinks,
        (delivered (flushes key size sinks items fun _ => []) sink).flatten = items) ↔
      size ≤ 1 ∨ Fair size items (sharing key k sinks).length := by
  obtain ⟨y, sinksOf⟩ := exists_range_map shared
  obtain ⟨x, itemsOf⟩ := exists_range_map nonempty
  have some := List.length_pos_iff.mpr nonempty
  have one := List.length_pos_iff.mpr shared
  have positive := batchLength_pos size
  have shares : (∀ sink ∈ sharing key k sinks,
      (delivered (flushes key size sinks items fun _ => []) sink).flatten = items) ↔
        ∀ j < (sharing key k sinks).length,
          share (sharing key k sinks).length (batchLength size) items.length x j =
            (List.range items.length).map x := by
    rw [← itemsOf]
    have here : ∀ j < (sharing key k sinks).length,
        (delivered (flushes key size sinks items fun _ => []) (y j)).flatten =
          share (sharing key k sinks).length (batchLength size) items.length x j := by
      intro j below
      rw [← delivered_flatten nodup sinksOf below, ← itemsOf]
    constructor
    · intro whole j below
      rw [← here j below]
      apply whole
      rw [sinksOf]
      exact List.mem_map_of_mem (List.mem_range.mpr below)
    · intro whole sink member
      rw [sinksOf] at member
      obtain ⟨j, inside, rfl⟩ := List.mem_map.mp member
      have below := List.mem_range.mp inside
      rw [here j below, whole j below]
  rw [shares]
  generalize (sharing key k sinks).length = K at one
  unfold Fair
  by_cases single : size ≤ 1
  · have length : batchLength size = 1 := by
      unfold batchLength
      omega
    rw [length]
    exact iff_of_true (fun j below => share_single below) (Or.inl single)
  · by_cases alone : K = 1
    · subst alone
      refine iff_of_true (fun j below => ?_) (Or.inr (Or.inl rfl))
      obtain rfl : j = 0 := by omega
      exact share_alone
    · have length : batchLength size = size.toNat := by
        unfold batchLength
        omega
      have values : ∀ p < items.length, ∀ q < items.length,
          (items[p]? = items[q]? ↔ x p = x q) := by
        intro p inside q inside'
        rw [itemsOf]
        simp [inside, inside']
      rw [length] at positive ⊢
      rw [shares_whole_iff (by omega) positive some]
      simp only [single, alone, false_or]
      refine and_congr_right fun _ => and_congr_right fun _ => forall₂_congr fun p below => ?_
      have before : p / size.toNat * size.toNat ≤ p := Nat.div_mul_le_self p _
      exact (values p below _ (by omega)).symm

/-- A sink alone with its key gets every item once and in order. -/
theorem alone_whole {sinks : List π} (nodup : sinks.Nodup) {sink : π}
    (alone : sharing key (key sink) sinks = [sink]) (items : List α) :
    (delivered (flushes key size sinks items fun _ => []) sink).flatten = items := by
  by_cases empty : items = []
  · subst empty
    rw [flushes, leftovers_empty]
    rfl
  · have shared : sharing key (key sink) sinks ≠ [] := by
      rw [alone]
      exact List.cons_ne_nil _ _
    refine (sharing_whole_iff nodup empty shared).mpr (Or.inr (Or.inl ?_)) sink ?_
    · rw [alone]
      rfl
    · rw [alone]
      exact List.mem_singleton.mpr rfl

/-- A sink alone with its key gets blocks of consecutive items. -/
theorem delivered_alone {sinks : List π} (nodup : sinks.Nodup) {sink : π}
    (alone : sharing key (key sink) sinks = [sink]) {T : Nat} (x : Nat → α) :
    delivered (flushes key size sinks ((List.range T).map x) fun _ => []) sink =
      ((List.range (T / batchLength size)).map fun c =>
          (List.range (batchLength size)).map fun u => x (c * batchLength size + u)) ++
        if T % batchLength size ≠ 0 then
          [(List.range (T % batchLength size)).map fun u =>
            x (T / batchLength size * batchLength size + u)]
        else [] := by
  have single : sharing key (key sink) sinks = (List.range 1).map fun _ => sink := by
    rw [alone]
    rfl
  have batches := @delivered_sharing _ _ _ _ _ key size sinks nodup _ 1 _ single 0 Nat.one_pos T x
  simp only [Nat.mul_one, Nat.mod_one, Nat.div_one, true_and, decide_true] at batches
  rwa [List.filter_eq_self.mpr fun _ _ => rfl] at batches

/-- What it gets in one batch are the items of one block. -/
theorem same_batch_iff {sinks : List π} (nodup : sinks.Nodup) {sink : π}
    (alone : sharing key (key sink) sinks = [sink]) {items : List α} {a b : α} :
    (∃ batch ∈ delivered (flushes key size sinks items fun _ => []) sink,
        a ∈ batch ∧ b ∈ batch) ↔
      ∃ i j, i / batchLength size = j / batchLength size ∧ items[i]? = some a ∧
        items[j]? = some b := by
  have positive := batchLength_pos size
  by_cases empty : items = []
  · subst empty
    rw [flushes, leftovers_empty]
    simp [delivered]
  · obtain ⟨x, itemsOf⟩ := exists_range_map empty
    generalize items.length = T at itemsOf
    subst itemsOf
    rw [delivered_alone nodup alone]
    generalize batchLength size = μ at positive
    have split := Nat.div_add_mod' T μ
    have found : ∀ {i c}, ((List.range T).map x)[i]? = some c ↔ i < T ∧ x i = c := by
      intro i c
      simp [List.getElem?_eq_some_iff]
    simp only [found]
    constructor
    · rintro ⟨batch, member, inside, inside'⟩
      -- The batch is a whole block or the rest.
      obtain ⟨c, n, below, within, rfl⟩ : ∃ c n, n ≤ μ ∧ c * μ + n ≤ T ∧
          batch = (List.range n).map fun u => x (c * μ + u) := by
        rcases List.mem_append.mp member with block | rest
        · obtain ⟨c, small, rfl⟩ := List.mem_map.mp block
          refine ⟨c, μ, le_rfl, ?_, rfl⟩
          have next := Nat.mul_le_mul_right μ (Nat.succ_le_of_lt (List.mem_range.mp small))
          rw [Nat.succ_mul] at next
          omega
        · by_cases full : T % μ = 0
          · simp [full] at rest
          · rw [if_pos full, List.mem_singleton] at rest
            exact ⟨T / μ, T % μ, (Nat.mod_lt T positive).le, by omega, rest⟩
      obtain ⟨u, small, rfl⟩ := List.mem_map.mp inside
      obtain ⟨v, small', rfl⟩ := List.mem_map.mp inside'
      rw [List.mem_range] at small small'
      refine ⟨c * μ + u, c * μ + v, ?_, ⟨by omega, rfl⟩, by omega, rfl⟩
      rw [Nat.mul_comm c, Nat.mul_add_div positive, Nat.mul_add_div positive,
        Nat.div_eq_of_lt (by omega), Nat.div_eq_of_lt (by omega)]
    · rintro ⟨i, j, same, ⟨short, rfl⟩, short', rfl⟩
      have left := Nat.div_add_mod' i μ
      have right := Nat.div_add_mod' j μ
      rw [← same] at right
      have small := Nat.mod_lt i positive
      have small' := Nat.mod_lt j positive
      by_cases block : i / μ < T / μ
      · refine ⟨(List.range μ).map fun u => x (i / μ * μ + u), ?_, ?_, ?_⟩
        · exact List.mem_append_left _ (List.mem_map.mpr ⟨i / μ, List.mem_range.mpr block, rfl⟩)
        · exact List.mem_map.mpr ⟨i % μ, List.mem_range.mpr small, by rw [left]⟩
        · exact List.mem_map.mpr ⟨j % μ, List.mem_range.mpr small', by rw [right]⟩
      · have last : i / μ = T / μ := Nat.le_antisymm (Nat.div_le_div_right short.le) (by omega)
        rw [last] at left right
        have filled : T % μ ≠ 0 := by omega
        refine ⟨(List.range (T % μ)).map fun u => x (T / μ * μ + u), ?_, ?_, ?_⟩
        · rw [if_pos filled]
          exact List.mem_append_right _ (List.mem_singleton.mpr rfl)
        · exact List.mem_map.mpr ⟨i % μ, List.mem_range.mpr (by omega), by rw [left]⟩
        · exact List.mem_map.mpr ⟨j % μ, List.mem_range.mpr (by omega), by rw [right]⟩

/-- The sinks all get every item once and in order exactly if there are no items, each is a
batch of its own, or those of each key share fairly. -/
theorem whole_iff {sinks : List π} (nodup : sinks.Nodup) (items : List α) :
    (∀ sink ∈ sinks, (delivered (flushes key size sinks items fun _ => []) sink).flatten = items) ↔
      items = [] ∨ size ≤ 1 ∨
        ∀ sink ∈ sinks, Fair size items (sharing key (key sink) sinks).length := by
  by_cases empty : items = []
  · subst empty
    refine iff_of_true ?_ (Or.inl rfl)
    intro sink _
    rw [flushes, leftovers_empty]
    rfl
  · have present : ∀ sink ∈ sinks, sharing key (key sink) sinks ≠ [] := by
      intro sink member
      exact List.ne_nil_of_mem (List.mem_filter.mpr ⟨member, by simp⟩)
    simp only [empty, false_or]
    constructor
    · intro whole
      by_cases single : size ≤ 1
      · exact Or.inl single
      · refine Or.inr fun sink member => ?_
        have sharing := (sharing_whole_iff nodup empty (present sink member)).mp fun other inside =>
          whole other (List.mem_filter.mp inside).1
        exact sharing.resolve_left single
    · rintro fair sink member
      refine (sharing_whole_iff nodup empty (present sink member)).mpr ?_ sink ?_
      · exact fair.imp_right fun all => all sink member
      · exact List.mem_filter.mpr ⟨member, by simp⟩

end deliveries

end Fanout
