import Mathlib.Data.List.Basic
import Mathlib.Data.List.Nodup

set_option autoImplicit false

/- The semaphores of `asyncio`. A waiter has a future, which a release resolves and a
cancellation cancels; the waiter itself goes on later. -/
namespace Semaphore

/-- The future of a waiter. -/
inductive Ticket where
  | pending
  | granted
  | cancelled
  deriving DecidableEq

/-- The waiters stand in the order in which they came. The holders are those that acquired and
have not released; the semaphore itself only counts them. -/
structure Sem (ι : Type) where
  value : Nat
  waiters : List (ι × Ticket)
  holders : List ι

variable {ι : Type}

def Sem.init (value : Nat) : Sem ι := ⟨value, [], []⟩

/-- The futures that are resolved and not yet seen by their waiters. -/
def grants (waiters : List (ι × Ticket)) : Nat := waiters.countP fun w => decide (w.2 = .granted)

/-- The permits that nobody has acquired. -/
def Sem.free (s : Sem ι) : Nat := s.value + grants s.waiters

def Sem.locked (s : Sem ι) : Bool :=
  decide (s.value = 0) || s.waiters.any fun w => decide (w.2 ≠ .cancelled)

/-- Resolve the first future that is not done. -/
def grantFirst : List (ι × Ticket) → Option (List (ι × Ticket))
  | [] => none
  | (i, .pending) :: waiters => some ((i, .granted) :: waiters)
  | (i, .granted) :: waiters => (grantFirst waiters).map fun rest => (i, .granted) :: rest
  | (i, .cancelled) :: waiters => (grantFirst waiters).map fun rest => (i, .cancelled) :: rest

/-- Wake up as many waiters as the value allows. -/
def wakeLoop : Nat → List (ι × Ticket) → Nat × List (ι × Ticket)
  | 0, waiters => (0, waiters)
  | value + 1, waiters =>
      match grantFirst waiters with
      | none => (value + 1, waiters)
      | some rest => wakeLoop value rest

section operations

variable [DecidableEq ι] (s : Sem ι) (i : ι)

/-- An `acquire` that need not wait. -/
def Sem.take : Sem ι := { s with value := s.value - 1, holders := i :: s.holders }

/-- An `acquire` that has to wait. -/
def Sem.enqueue : Sem ι := { s with waiters := s.waiters ++ [(i, .pending)] }

/-- The waiter takes its future out of the queue, with `returned` permits given back. -/
def Sem.leave (returned : Nat) : Sem ι :=
  let woken := wakeLoop (s.value + returned) (s.waiters.eraseP fun w => decide (w.1 = i))
  { s with value := woken.1, waiters := woken.2 }

/-- The end of an `acquire` whose future was resolved. -/
def Sem.resume : Sem ι := { s.leave i 0 with holders := i :: s.holders }

/-- The cancellation of a waiter whose future is not done. -/
def Sem.cancel : Sem ι :=
  { s with
    waiters := s.waiters.map fun w => if w.1 = i ∧ w.2 = .pending then (w.1, .cancelled) else w }

/-- The end of an `acquire` that is cancelled: a permit that came meanwhile is given back. -/
def Sem.abandon (ticket : Ticket) : Sem ι := s.leave i (if ticket = .granted then 1 else 0)

def Sem.release : Sem ι :=
  match grantFirst s.waiters with
  | none => { s with value := s.value + 1, holders := s.holders.erase i }
  | some rest => { s with waiters := rest, holders := s.holders.erase i }

end operations

section queue

variable {waiters rest : List (ι × Ticket)}

theorem grantFirst_none (none' : grantFirst waiters = none) (i : ι) : (i, .pending) ∉ waiters := by
  induction waiters with
  | nil => exact List.not_mem_nil
  | cons w waiters ih =>
      obtain ⟨j, ticket⟩ := w
      cases ticket with
      | pending => cases none'
      | granted =>
          have tail := ih (Option.map_eq_none_iff.mp none')
          simp [tail]
      | cancelled =>
          have tail := ih (Option.map_eq_none_iff.mp none')
          simp [tail]

theorem grantFirst_some (woken : grantFirst waiters = some rest) :
    rest.map Prod.fst = waiters.map Prod.fst ∧ grants rest = grants waiters + 1 := by
  induction waiters generalizing rest with
  | nil => cases woken
  | cons w waiters ih =>
      obtain ⟨j, ticket⟩ := w
      cases ticket with
      | pending =>
          cases woken
          simp [grants]
      | granted =>
          obtain ⟨tail, found, rfl⟩ := Option.map_eq_some_iff.mp woken
          obtain ⟨names, counted⟩ := ih found
          unfold grants at counted ⊢
          simp [names, counted]
      | cancelled =>
          obtain ⟨tail, found, rfl⟩ := Option.map_eq_some_iff.mp woken
          obtain ⟨names, counted⟩ := ih found
          unfold grants at counted ⊢
          simp [names, counted]

theorem grants_pos (positive : 0 < grants waiters) : ∃ i, (i, .granted) ∈ waiters := by
  obtain ⟨⟨i, ticket⟩, member, granted⟩ := List.countP_pos_iff.mp positive
  have same : ticket = .granted := of_decide_eq_true granted
  exact ⟨i, same ▸ member⟩

/-- The loop keeps the queue and all permits, and stops only without a permit or a waiter. -/
theorem wakeLoop_spec (value : Nat) (waiters : List (ι × Ticket)) :
    (wakeLoop value waiters).2.map Prod.fst = waiters.map Prod.fst ∧
      (wakeLoop value waiters).1 + grants (wakeLoop value waiters).2 = value + grants waiters ∧
      ((wakeLoop value waiters).1 = 0 ∨ ∀ i, (i, .pending) ∉ (wakeLoop value waiters).2) := by
  induction value generalizing waiters with
  | zero => exact ⟨rfl, rfl, Or.inl rfl⟩
  | succ value ih =>
      unfold wakeLoop
      cases woken : grantFirst waiters with
      | none => exact ⟨rfl, rfl, Or.inr (grantFirst_none woken)⟩
      | some rest =>
          obtain ⟨names, counted⟩ := grantFirst_some woken
          obtain ⟨names', permits, idle⟩ := ih rest
          refine ⟨names'.trans names, ?_, idle⟩
          dsimp only
          omega

variable [DecidableEq ι]

theorem map_fst_leave (waiters : List (ι × Ticket)) (i : ι) :
    (waiters.eraseP fun w => decide (w.1 = i)).map Prod.fst = (waiters.map Prod.fst).erase i := by
  induction waiters with
  | nil => rfl
  | cons w waiters ih =>
      by_cases own : w.1 = i
      · simp [own]
      · simp [own, ih]

theorem grants_leave {i : ι} {ticket : Ticket} (distinct : (waiters.map Prod.fst).Nodup)
    (member : (i, ticket) ∈ waiters) :
    grants (waiters.eraseP fun w => decide (w.1 = i)) + (if ticket = .granted then 1 else 0) =
      grants waiters := by
  induction waiters with
  | nil => cases member
  | cons w waiters ih =>
      rw [List.map_cons, List.nodup_cons] at distinct
      by_cases own : w.1 = i
      · have first : w = (i, ticket) := by
          rcases List.mem_cons.mp member with same | later
          · exact same.symm
          · have twice : i ∈ waiters.map Prod.fst := List.mem_map.mpr ⟨_, later, rfl⟩
            exact absurd (own ▸ twice) distinct.1
        subst first
        simp [grants, List.countP_cons]
      · have later : (i, ticket) ∈ waiters := by
          rcases List.mem_cons.mp member with same | later
          · rw [← same] at own
            exact absurd rfl own
          · exact later
        have tail := ih distinct.2 later
        unfold grants at tail ⊢
        simp only [List.eraseP_cons, own, decide_false, cond_false, List.countP_cons]
        omega

end queue

/-- All permits are accounted for, nobody is in the queue or among the holders twice, and
whoever waits while there is a permit waits behind someone who will look again. -/
structure Sem.Sound (limit : Nat) (s : Sem ι) : Prop where
  permits : s.free + s.holders.length = limit
  queued : (s.waiters.map Prod.fst).Nodup
  held : s.holders.Nodup
  awake : ∀ i, (i, .pending) ∈ s.waiters → s.value = 0 ∨ 0 < grants s.waiters

/-- A semaphore whose holders and waiters are the given ones. -/
structure Sem.Serves (limit : Nat) (Holds Waits : ι → Prop) (s : Sem ι) : Prop where
  sound : s.Sound limit
  holds : ∀ i, i ∈ s.holders ↔ Holds i
  waits : ∀ i, i ∈ s.waiters.map Prod.fst ↔ Waits i

namespace Sem.Serves

variable {limit : Nat} {Holds Holds' Waits Waits' : ι → Prop} {s : Sem ι} {i : ι}

theorem init (limit : Nat) (none' : ∀ i, ¬ Holds i) (idle : ∀ i, ¬ Waits i) :
    (Sem.init limit : Sem ι).Serves limit Holds Waits where
  sound := ⟨rfl, List.nodup_nil, List.nodup_nil, fun _ member => (List.not_mem_nil member).elim⟩
  holds i := by simp [Sem.init, none' i]
  waits i := by simp [Sem.init, idle i]

theorem congr (serves : s.Serves limit Holds Waits) (holds : ∀ j, Holds' j ↔ Holds j)
    (waits : ∀ j, Waits' j ↔ Waits j) : s.Serves limit Holds' Waits' where
  sound := serves.sound
  holds j := (serves.holds j).trans (holds j).symm
  waits j := (serves.waits j).trans (waits j).symm

theorem take (serves : s.Serves limit Holds Waits) (unlocked : s.locked = false)
    (new : ¬ Holds i) (holds : ∀ j, Holds' j ↔ j = i ∨ Holds j) :
    (s.take i).Serves limit Holds' Waits := by
  obtain ⟨available, queue⟩ := Bool.or_eq_false_iff.mp unlocked
  have positive : s.value ≠ 0 := of_decide_eq_false available
  have sound := serves.sound
  refine ⟨⟨?_, sound.queued, ?_, ?_⟩, ?_, serves.waits⟩
  · have permits := sound.permits
    simp only [Sem.free, Sem.take, List.length_cons] at permits ⊢
    omega
  · exact List.nodup_cons.mpr ⟨fun member => new ((serves.holds i).mp member), sound.held⟩
  · intro j member
    have done := List.any_eq_false.mp queue _ member
    simp at done
  · intro j
    rw [holds j, ← serves.holds j]
    exact List.mem_cons

theorem enqueue (serves : s.Serves limit Holds Waits) (locked : s.locked = true)
    (new : ¬ Waits i) (waits : ∀ j, Waits' j ↔ j = i ∨ Waits j) :
    (s.enqueue i).Serves limit Holds Waits' := by
  have sound := serves.sound
  have counted : grants (s.enqueue i).waiters = grants s.waiters := by
    simp [Sem.enqueue, grants]
  have names : (s.enqueue i).waiters.map Prod.fst = s.waiters.map Prod.fst ++ [i] := by
    simp [Sem.enqueue]
  refine ⟨⟨?_, ?_, sound.held, ?_⟩, serves.holds, ?_⟩
  · unfold Sem.free
    rw [counted]
    exact sound.permits
  · rw [names]
    refine List.nodup_append.mpr ⟨sound.queued, List.nodup_singleton i, ?_⟩
    intro a member b single
    rw [List.mem_singleton.mp single]
    rintro rfl
    exact new ((serves.waits a).mp member)
  · intro j _
    rw [counted]
    -- Someone in the queue is behind a waiter that was woken, and so is the new one.
    rcases Bool.or_eq_true_iff.mp locked with empty | busy
    · exact Or.inl (of_decide_eq_true empty)
    · obtain ⟨⟨k, ticket⟩, member, open'⟩ := List.any_eq_true.mp busy
      cases ticket with
      | pending => exact sound.awake k member
      | granted => exact Or.inr (List.countP_pos_iff.mpr ⟨_, member, rfl⟩)
      | cancelled => simp at open'
  · intro j
    rw [names, List.mem_append, List.mem_singleton, waits j, ← serves.waits j]
    exact Or.comm

variable [DecidableEq ι]

theorem leave (serves : s.Serves limit Holds Waits) {ticket : Ticket}
    (member : (i, ticket) ∈ s.waiters) {returned : Nat} {holders : List ι}
    (balance : returned + holders.length = s.holders.length + if ticket = .granted then 1 else 0)
    (distinct : holders.Nodup) (holds : ∀ j, j ∈ holders ↔ Holds' j)
    (waits : ∀ j, Waits' j ↔ Waits j ∧ j ≠ i) :
    ({ s.leave i returned with holders := holders }).Serves limit Holds' Waits' := by
  have sound := serves.sound
  obtain ⟨names, permits, idle⟩ := wakeLoop_spec (s.value + returned)
    (s.waiters.eraseP fun w => decide (w.1 = i))
  have erased := grants_leave sound.queued member
  rw [map_fst_leave] at names
  refine ⟨⟨?_, ?_, distinct, ?_⟩, holds, ?_⟩
  · have total := sound.permits
    simp only [Sem.free, Sem.leave] at total ⊢
    omega
  · dsimp only [Sem.leave]
    rw [names]
    exact sound.queued.erase i
  · intro j waiting
    rcases idle with empty | none'
    · exact Or.inl empty
    · exact absurd waiting (none' j)
  · intro j
    dsimp only [Sem.leave]
    rw [names, sound.queued.mem_erase_iff, waits j, serves.waits j]
    exact And.comm

theorem resume (serves : s.Serves limit Holds Waits) (member : (i, .granted) ∈ s.waiters)
    (new : ¬ Holds i) (holds : ∀ j, Holds' j ↔ j = i ∨ Holds j)
    (waits : ∀ j, Waits' j ↔ Waits j ∧ j ≠ i) : (s.resume i).Serves limit Holds' Waits' := by
  refine serves.leave member ?_ ?_ ?_ waits
  · simp
  · exact List.nodup_cons.mpr ⟨fun held => new ((serves.holds i).mp held), serves.sound.held⟩
  · intro j
    rw [holds j, ← serves.holds j]
    exact List.mem_cons

theorem abandon (serves : s.Serves limit Holds Waits) {ticket : Ticket}
    (member : (i, ticket) ∈ s.waiters) (waits : ∀ j, Waits' j ↔ Waits j ∧ j ≠ i) :
    (s.abandon i ticket).Serves limit Holds Waits' := by
  refine serves.leave member ?_ serves.sound.held serves.holds waits
  exact Nat.add_comm _ _

theorem cancel (serves : s.Serves limit Holds Waits) : (s.cancel i).Serves limit Holds Waits := by
  have sound := serves.sound
  have names : (s.cancel i).waiters.map Prod.fst = s.waiters.map Prod.fst := by
    simp only [Sem.cancel, List.map_map]
    refine List.map_congr_left ?_
    intro w _
    simp only [Function.comp]
    split
    · rfl
    · rfl
  have counted : grants (s.cancel i).waiters = grants s.waiters := by
    simp only [Sem.cancel, grants, List.countP_map]
    refine List.countP_congr ?_
    intro w _
    simp only [Function.comp]
    split
    · rename_i own
      simp [own.2]
    · rfl
  refine ⟨⟨?_, ?_, sound.held, ?_⟩, serves.holds, ?_⟩
  · unfold Sem.free
    rw [counted]
    exact sound.permits
  · rw [names]
    exact sound.queued
  · intro j member
    rw [counted]
    obtain ⟨w, inside, same⟩ := List.mem_map.mp member
    split at same
    · cases same
    · subst same
      exact sound.awake j inside
  · intro j
    rw [names]
    exact serves.waits j

theorem release (serves : s.Serves limit Holds Waits) (member : Holds i)
    (holds : ∀ j, Holds' j ↔ Holds j ∧ j ≠ i) : (s.release i).Serves limit Holds' Waits := by
  have sound := serves.sound
  have inside : i ∈ s.holders := (serves.holds i).mpr member
  have shorter : (s.holders.erase i).length + 1 = s.holders.length :=
    List.length_erase_add_one inside
  have permits := sound.permits
  have kept : ∀ j, j ∈ s.holders.erase i ↔ Holds' j := by
    intro j
    rw [sound.held.mem_erase_iff, holds j, serves.holds j]
    exact And.comm
  unfold Sem.free at permits
  unfold Sem.release
  cases woken : grantFirst s.waiters with
  | none =>
      refine ⟨⟨?_, sound.queued, sound.held.erase i, ?_⟩, kept, serves.waits⟩
      · simp only [Sem.free]
        omega
      · intro j waiting
        exact absurd waiting (grantFirst_none woken j)
  | some rest =>
      obtain ⟨names, counted⟩ := grantFirst_some woken
      refine ⟨⟨?_, ?_, sound.held.erase i, ?_⟩, kept, ?_⟩
      · simp only [Sem.free]
        omega
      · dsimp only
        rw [names]
        exact sound.queued
      · intro j _
        exact Or.inr (by dsimp only; omega)
      · intro j
        dsimp only
        rw [names]
        exact serves.waits j

omit [DecidableEq ι] in
/-- No more than the limit hold a permit at once. -/
theorem length_le (serves : s.Serves limit Holds Waits) {group : List ι} (distinct : group.Nodup)
    (all : ∀ j ∈ group, Holds j) : group.length ≤ limit := by
  have inside : group ⊆ s.holders := fun j member => (serves.holds j).mpr (all j member)
  have bounded := List.Nodup.length_le_of_subset distinct inside
  have permits := serves.sound.permits
  omega

omit [DecidableEq ι] in
/-- Where somebody waits, somebody can go on, or has a permit. -/
theorem progress (serves : s.Serves limit Holds Waits) (positive : 1 ≤ limit) (waiting : Waits i) :
    (∃ j ticket, (j, ticket) ∈ s.waiters ∧ ticket ≠ .pending) ∨ ∃ j, Holds j := by
  have sound := serves.sound
  obtain ⟨⟨j, ticket⟩, member, _⟩ := List.mem_map.mp ((serves.waits i).mpr waiting)
  by_cases woken : 0 < grants s.waiters
  · obtain ⟨k, granted⟩ := grants_pos woken
    exact Or.inl ⟨k, .granted, granted, nofun⟩
  · by_cases pending : ticket = .pending
    · subst pending
      rcases sound.awake j member with empty | busy
      · have permits := sound.permits
        unfold Sem.free at permits
        obtain ⟨k, held⟩ := List.exists_mem_of_length_pos (l := s.holders) (by omega)
        exact Or.inr ⟨k, (serves.holds k).mp held⟩
      · exact absurd busy woken
    · exact Or.inl ⟨j, ticket, member, pending⟩

/-- What one caller acquires the semaphore loses, and what it releases the semaphore gets. -/
theorem balance {s' : Sem ι} {holds holds' : Bool} (before : s.Serves limit Holds Waits)
    (after : s'.Serves limit Holds' Waits') (others : ∀ j, j ≠ i → (Holds' j ↔ Holds j))
    (own : Holds i ↔ holds = true) (own' : Holds' i ↔ holds' = true) :
    s'.free + holds'.toNat = s.free + holds.toNat := by
  have length : ∀ {t : Sem ι} {H W : ι → Prop} {b : Bool}, t.Serves limit H W → (H i ↔ b = true) →
      (t.holders.erase i).length + b.toNat = t.holders.length := by
    intro t H W b serves same
    cases b with
    | true => exact List.length_erase_add_one ((serves.holds i).mpr (same.mpr rfl))
    | false =>
        have outside : i ∉ t.holders := fun held => nomatch same.mp ((serves.holds i).mp held)
        rw [List.erase_of_not_mem outside]
        rfl
  have rest : (s'.holders.erase i).length = (s.holders.erase i).length := by
    refine List.Perm.length_eq ?_
    refine (List.perm_ext_iff_of_nodup (after.sound.held.erase i) (before.sound.held.erase i)).mpr ?_
    intro j
    rw [after.sound.held.mem_erase_iff, before.sound.held.mem_erase_iff, after.holds j,
      before.holds j]
    exact and_congr_right fun other => others j other
  have total := before.sound.permits
  have total' := after.sound.permits
  have counted := length before own
  have counted' := length after own'
  omega

end Sem.Serves

end Semaphore
