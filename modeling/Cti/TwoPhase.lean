import Mathlib.Data.Finset.Max
import Mathlib.Data.Fintype.Order
import Mathlib.Logic.Relation

set_option autoImplicit false

/- Processes that run transactions one after the other. A transaction acquires its locks in a
fixed order and releases them together. -/
namespace TwoPhase

open Relation (ReflTransGen TransGen)

section cycles

variable {ι : Type} {r : ι → ι → Prop}

/-- The nodes of a path, each with its successor. -/
theorem exists_ring_of_path {a b : ι} (path : TransGen r a b) :
    ∃ ring : Set ι, ring.Finite ∧ a ∈ ring ∧ ∀ x ∈ ring, ∃ y, (y ∈ ring ∨ y = b) ∧ r x y := by
  induction path with
  | single edge =>
      refine ⟨{a}, Set.finite_singleton a, rfl, ?_⟩
      rintro x rfl
      exact ⟨_, Or.inr rfl, edge⟩
  | @tail b c _ edge ih =>
      obtain ⟨ring, finite, member, next⟩ := ih
      refine ⟨insert b ring, finite.insert b, Set.mem_insert_of_mem b member, ?_⟩
      rintro x (rfl | inside)
      · exact ⟨c, Or.inr rfl, edge⟩
      · obtain ⟨y, where', edge'⟩ := next x inside
        refine ⟨y, Or.inl ?_, edge'⟩
        rcases where' with inside' | rfl
        · exact Set.mem_insert_of_mem b inside'
        · exact Set.mem_insert y ring

/-- In a finite set that every node leaves for a node of the set, there is a cycle. -/
theorem exists_cycle_of_ring {ring : Set ι} (finite : ring.Finite) (nonempty : ring.Nonempty)
    (next : ∀ x ∈ ring, ∃ y ∈ ring, r x y) : ∃ a, TransGen r a a := by
  by_contra acyclic
  have : Finite ring := finite
  let above (x y : ring) : Prop := TransGen r y.1 x.1
  have trans : IsTrans ring above := ⟨fun _ _ _ first second => second.trans first⟩
  have irrefl : Std.Irrefl above := ⟨fun x cycle => acyclic ⟨x.1, cycle⟩⟩
  have wellFounded : WellFounded above := Finite.wellFounded_of_trans_of_irrefl above
  obtain ⟨start, member⟩ := nonempty
  obtain ⟨last, _, least⟩ := wellFounded.has_min Set.univ ⟨⟨start, member⟩, trivial⟩
  obtain ⟨y, inside, edge⟩ := next last.1 last.2
  exact least ⟨y, inside⟩ trivial (.single edge)

end cycles

variable {ι κ : Type}

/-- `held` and `wants` make up the current transaction. -/
structure Process (κ : Type) where
  held : List κ
  wants : List κ
  later : List (List κ)

/-- One step of one process. A process that fails gives up its locks. -/
inductive Step [DecidableEq ι] (s : ι → Process κ) : (ι → Process κ) → Prop
  | begin (i : ι) (job : List κ) (later : List (List κ)) (now : s i = ⟨[], [], job :: later⟩) :
      Step s (Function.update s i ⟨[], job, later⟩)
  | acquire (i : ι) (held wants : List κ) (key : κ) (later : List (List κ))
      (now : s i = ⟨held, key :: wants, later⟩) (free : ∀ j, j ≠ i → key ∉ (s j).held) :
      Step s (Function.update s i ⟨held ++ [key], wants, later⟩)
  | commit (i : ι) (held : List κ) (later : List (List κ)) (now : s i = ⟨held, [], later⟩) :
      Step s (Function.update s i ⟨[], [], later⟩)
  | fail (i : ι) : Step s (Function.update s i ⟨[], [], []⟩)

def Reaches [DecidableEq ι] : (ι → Process κ) → (ι → Process κ) → Prop := ReflTransGen Step

def init (jobs : ι → List (List κ)) (i : ι) : Process κ := ⟨[], [], jobs i⟩

/-- The next lock of one process is held by another one. -/
def Waits (s : ι → Process κ) (i j : ι) : Prop :=
  j ≠ i ∧ ∃ key ∈ (s i).wants.head?, key ∈ (s j).held

/-- Processes wait for one another in a cycle. -/
def Deadlocked (s : ι → Process κ) : Prop := ∃ i, TransGen (Waits s) i i

/-- A finite set of processes with a transaction each, cut in two, such that the first parts
have no lock in common and the lock after the cut is in the first part of another one. -/
def Knot (jobs : ι → List (List κ)) : Prop :=
  ∃ (ring : Set ι) (held : ι → List κ) (next : ι → κ), ring.Finite ∧ ring.Nonempty ∧
    (∀ i ∈ ring, ∃ rest, held i ++ next i :: rest ∈ jobs i) ∧
    (∀ i ∈ ring, ∀ j ∈ ring, i ≠ j → (held i).Disjoint (held j)) ∧
    ∀ i ∈ ring, ∃ j ∈ ring, j ≠ i ∧ next i ∈ held j

section safety

variable {jobs : ι → List (List κ)} {s t : ι → Process κ}

/-- A process is between transactions or in one of its own. -/
def Process.Legal (own : List (List κ)) (p : Process κ) : Prop :=
  ((p.held = [] ∧ p.wants = []) ∨ p.held ++ p.wants ∈ own) ∧ p.later ⊆ own

/-- No lock has two holders. -/
structure Inv (jobs : ι → List (List κ)) (s : ι → Process κ) : Prop where
  legal : ∀ i, (s i).Legal (jobs i)
  exclusive : ∀ i j, i ≠ j → (s i).held.Disjoint (s j).held

theorem init_inv (jobs : ι → List (List κ)) : Inv jobs (init jobs) where
  legal _ := ⟨Or.inl ⟨rfl, rfl⟩, List.Subset.refl _⟩
  exclusive _ _ _ := List.disjoint_nil_left _

/-- A cycle of waiting processes is a knot of their transactions. -/
theorem Inv.knot (inv : Inv jobs s) (deadlocked : Deadlocked s) : Knot jobs := by
  obtain ⟨i, cycle⟩ := deadlocked
  obtain ⟨ring, finite, member, next⟩ := exists_ring_of_path cycle
  have closed : ∀ x ∈ ring, ∃ y ∈ ring, Waits s x y := by
    intro x inside
    obtain ⟨y, where', waits⟩ := next x inside
    rcases where' with inside' | rfl
    · exact ⟨y, inside', waits⟩
    · exact ⟨y, member, waits⟩
  obtain ⟨_, _, _, some', _, _⟩ := closed i member
  refine ⟨ring, fun i => (s i).held, fun i => ((s i).wants.head?).getD some', finite,
    ⟨i, member⟩, ?_, fun j _ k _ => inv.exclusive j k, ?_⟩
  · intro j inside
    obtain ⟨_, _, _, key, head, _⟩ := closed j inside
    obtain ⟨rest, wants⟩ := List.head?_eq_some_iff.mp head
    refine ⟨rest, ?_⟩
    rcases (inv.legal j).1 with ⟨_, none⟩ | own
    · rw [none] at wants
      cases wants
    · rw [wants] at own
      simpa [wants] using own
  · intro j inside
    obtain ⟨k, inside', other, key, head, held⟩ := closed j inside
    refine ⟨k, inside', other, ?_⟩
    rw [Option.mem_def] at head
    simpa [head] using held

variable [DecidableEq ι]

/-- Writing a process whose locks no other process holds. -/
theorem Inv.update (inv : Inv jobs s) {i : ι} {p : Process κ} (legal : p.Legal (jobs i))
    (free : ∀ j, j ≠ i → p.held.Disjoint (s j).held) : Inv jobs (Function.update s i p) where
  legal j := by
    by_cases self : j = i
    · subst self
      rw [Function.update_self]
      exact legal
    · rw [Function.update_of_ne self]
      exact inv.legal j
  exclusive j k apart := by
    by_cases first : j = i
    · subst first
      rw [Function.update_self, Function.update_of_ne (Ne.symm apart)]
      exact free k (Ne.symm apart)
    · rw [Function.update_of_ne first]
      by_cases second : k = i
      · subst second
        rw [Function.update_self]
        exact (free j first).symm
      · rw [Function.update_of_ne second]
        exact inv.exclusive j k apart

theorem Inv.step (inv : Inv jobs s) (step : Step s t) : Inv jobs t := by
  cases step with
  | begin i job later now =>
      have legal := inv.legal i
      rw [now] at legal
      have own := List.cons_subset.mp legal.2
      exact inv.update ⟨Or.inr own.1, own.2⟩ fun _ _ => List.disjoint_nil_left _
  | acquire i held wants key later now free =>
      have legal := inv.legal i
      rw [now] at legal
      refine inv.update ⟨Or.inr ?_, legal.2⟩ ?_
      · rcases legal.1 with ⟨_, none⟩ | own
        · cases none
        · simpa using own
      · intro j other
        have disjoint := inv.exclusive i j (Ne.symm other)
        rw [now] at disjoint
        refine List.disjoint_append_left.mpr ⟨disjoint, ?_⟩
        exact List.singleton_disjoint.mpr (free j other)
  | commit i held later now =>
      have legal := inv.legal i
      rw [now] at legal
      exact inv.update ⟨Or.inl ⟨rfl, rfl⟩, legal.2⟩ fun _ _ => List.disjoint_nil_left _
  | fail i =>
      exact inv.update ⟨Or.inl ⟨rfl, rfl⟩, List.nil_subset _⟩ fun _ _ => List.disjoint_nil_left _

theorem inv_reaches (run : Reaches (init jobs) s) : Inv jobs s := by
  induction run with
  | refl => exact init_inv jobs
  | tail _ step ih => exact ih.step step

end safety

section hazard

variable [DecidableEq ι] {s : ι → Process κ}

/-- A process acquires locks that no other process holds. -/
theorem reaches_acquire {i : ι} {held front back : List κ} {later : List (List κ)}
    (now : s i = ⟨held, front ++ back, later⟩)
    (free : ∀ j, j ≠ i → front.Disjoint (s j).held) :
    Reaches s (Function.update s i ⟨held ++ front, back, later⟩) := by
  induction front generalizing s held with
  | nil =>
      rw [List.append_nil, ← List.nil_append back, ← now, Function.update_eq_self]
      exact .refl
  | cons key front ih =>
      have step := Step.acquire i held (front ++ back) key later now
        fun j other => (List.disjoint_cons_left.mp (free j other)).1
      refine .head step ?_
      have rest := ih (s := Function.update s i ⟨held ++ [key], front ++ back, later⟩)
        (Function.update_self ..) ?_
      · rw [Function.update_idem, List.append_assoc] at rest
        exact rest
      · intro j other
        rw [Function.update_of_ne other]
        exact (List.disjoint_cons_left.mp (free j other)).2

/-- A process comes to any of its transactions while no other process holds a lock. -/
theorem reaches_begin {i : ι} {before : List (List κ)} {job : List κ} {later : List (List κ)}
    (now : s i = ⟨[], [], before ++ job :: later⟩) (idle : ∀ j, (s j).held = []) :
    Reaches s (Function.update s i ⟨[], job, later⟩) := by
  induction before generalizing s with
  | nil => exact .single (.begin i job later now)
  | cons first before ih =>
      have begun := Step.begin i first (before ++ job :: later) now
      have acquired : Reaches (Function.update s i ⟨[], first, before ++ job :: later⟩)
          (Function.update (Function.update s i ⟨[], first, before ++ job :: later⟩) i
            ⟨[] ++ first, [], before ++ job :: later⟩) := by
        refine reaches_acquire ?_ ?_
        · rw [Function.update_self, List.append_nil]
        · intro j other
          rw [Function.update_of_ne other, idle j]
          exact List.disjoint_nil_right _
      rw [Function.update_idem] at acquired
      have committed := Step.commit (s := Function.update s i
        ⟨[] ++ first, [], before ++ job :: later⟩) i _ _ (Function.update_self ..)
      rw [Function.update_idem] at committed
      have rest := ih (s := Function.update s i ⟨[], [], before ++ job :: later⟩)
        (Function.update_self ..) (by
          intro j
          by_cases self : j = i
          · subst self
            rw [Function.update_self]
          · rw [Function.update_of_ne self, idle j])
      rw [Function.update_idem] at rest
      exact .head begun (acquired.trans (.head committed rest))

/-- All processes of a finite set come to transactions of their own. -/
theorem reaches_ready {jobs : ι → List (List κ)} {ring : Set ι} (finite : ring.Finite)
    {job : ι → List κ} (own : ∀ i ∈ ring, job i ∈ jobs i) :
    ∃ s, Reaches (init jobs) s ∧ (∀ i, (s i).held = []) ∧ (∀ i ∈ ring, (s i).wants = job i) ∧
      ∀ i, i ∉ ring → s i = init jobs i := by
  induction ring, finite using Set.Finite.induction_on with
  | empty => exact ⟨init jobs, .refl, fun _ => rfl, nofun, fun _ _ => rfl⟩
  | @insert i ring fresh finite ih =>
      obtain ⟨s, run, idle, ready, rest⟩ := ih fun j inside => own j (Set.mem_insert_of_mem i inside)
      obtain ⟨before, later, split⟩ := List.append_of_mem (own i (Set.mem_insert i ring))
      have now : s i = ⟨[], [], before ++ job i :: later⟩ := by
        rw [rest i fresh, init, split]
      refine ⟨_, run.trans (reaches_begin now idle), ?_, ?_, ?_⟩
      · intro j
        by_cases self : j = i
        · subst self
          rw [Function.update_self]
        · rw [Function.update_of_ne self, idle j]
      · rintro j (rfl | inside)
        · rw [Function.update_self]
        · have other : j ≠ i := fun same => fresh (same ▸ inside)
          rw [Function.update_of_ne other]
          exact ready j inside
      · intro j outside
        rw [Set.mem_insert_iff, not_or] at outside
        rw [Function.update_of_ne outside.1]
        exact rest j outside.2

/-- All processes of a finite set acquire the locks that they do not dispute. -/
theorem reaches_holding {held back : ι → List κ} {ring : Set ι} (finite : ring.Finite)
    (apart : ∀ i ∈ ring, ∀ j ∈ ring, i ≠ j → (held i).Disjoint (held j))
    (idle : ∀ i, (s i).held = []) (ready : ∀ i ∈ ring, (s i).wants = held i ++ back i) :
    ∃ t, Reaches s t ∧ (∀ i ∈ ring, (t i).held = held i ∧ (t i).wants = back i) ∧
      ∀ i, i ∉ ring → t i = s i := by
  induction ring, finite using Set.Finite.induction_on with
  | empty => exact ⟨s, .refl, nofun, fun _ _ => rfl⟩
  | @insert i ring fresh finite ih =>
      obtain ⟨t, run, holding, rest⟩ := ih
        (fun j inside k inside' => apart j (Set.mem_insert_of_mem i inside) k
          (Set.mem_insert_of_mem i inside'))
        fun j inside => ready j (Set.mem_insert_of_mem i inside)
      have now : t i = ⟨[], held i ++ back i, (s i).later⟩ := by
        rw [rest i fresh, ← idle i, ← ready i (Set.mem_insert i ring)]
      refine ⟨_, run.trans (reaches_acquire now ?_), ?_, ?_⟩
      · intro j other
        by_cases inside : j ∈ ring
        · rw [(holding j inside).1]
          exact apart i (Set.mem_insert i ring) j (Set.mem_insert_of_mem i inside) (Ne.symm other)
        · rw [rest j inside, idle j]
          exact List.disjoint_nil_right _
      · rintro j (rfl | inside)
        · rw [Function.update_self]
          exact ⟨List.nil_append _, rfl⟩
        · have other : j ≠ i := fun same => fresh (same ▸ inside)
          rw [Function.update_of_ne other]
          exact holding j inside
      · intro j outside
        rw [Set.mem_insert_iff, not_or] at outside
        rw [Function.update_of_ne outside.1]
        exact rest j outside.2

/-- A knot can be tied. -/
theorem Knot.deadlocks {jobs : ι → List (List κ)} (knot : Knot jobs) :
    ∃ s, Reaches (init jobs) s ∧ Deadlocked s := by
  obtain ⟨ring, held, next, finite, nonempty, own, apart, closed⟩ := knot
  have cut : ∀ i, ∃ rest, i ∈ ring → held i ++ next i :: rest ∈ jobs i := by
    intro i
    by_cases inside : i ∈ ring
    · obtain ⟨rest, member⟩ := own i inside
      exact ⟨rest, fun _ => member⟩
    · exact ⟨[], fun inside' => absurd inside' inside⟩
  choose rest member using cut
  obtain ⟨s, run, idle, ready, _⟩ := reaches_ready finite member
  obtain ⟨t, run', holding, _⟩ := reaches_holding finite apart idle ready
  refine ⟨t, run.trans run', exists_cycle_of_ring finite nonempty ?_⟩
  intro i inside
  obtain ⟨j, inside', other, disputed⟩ := closed i inside
  refine ⟨j, inside', other, next i, ?_, ?_⟩
  · rw [(holding i inside).2]
    rfl
  · rw [(holding j inside').1]
    exact disputed

end hazard

/-- Transactions that keep to a common order have no knot. -/
theorem not_knot_of_ordered {lt : κ → κ → Prop} [IsTrans κ lt] [Std.Irrefl lt]
    {jobs : ι → List (List κ)} (ordered : ∀ i, ∀ job ∈ jobs i, job.Pairwise lt) : ¬ Knot jobs := by
  rintro ⟨ring, held, next, finite, nonempty, own, _, closed⟩
  have rises : ∀ i ∈ ring, ∃ j ∈ ring, lt (next i) (next j) := by
    intro i inside
    obtain ⟨j, inside', _, disputed⟩ := closed i inside
    obtain ⟨rest, member⟩ := own j inside'
    refine ⟨j, inside', ?_⟩
    exact (List.pairwise_append.mp (ordered j _ member)).2.2 _ disputed _ List.mem_cons_self
  obtain ⟨i, cycle⟩ := exists_cycle_of_ring (r := fun i j => lt (next i) (next j)) finite nonempty
    rises
  have self : TransGen lt (next i) (next i) := TransGen.lift next (fun _ _ edge => edge) i i cycle
  rw [Relation.transGen_eq_self] at self
  exact irrefl (next i) self

end TwoPhase
