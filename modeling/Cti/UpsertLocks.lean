import Cti.Batching
import Cti.TwoPhase

set_option autoImplicit false

/- Concurrent runs that upsert into the indicators table. -/
namespace Cti

open TwoPhase (Deadlocked Knot Reaches init)

variable {ι : Type}

/-- The row locks of `upsert_batch`, in the order of its VALUES list. They are held until the
transaction ends. -/
def upsertLocks (batch : List Sighting) : List Uuid := (batch.map Prod.fst).map Indicator.id

/-- Runs as the lock manager sees them: one transaction for each batch. -/
def lockJobs (batches : ι → List (List Sighting)) (i : ι) : List (List Uuid) :=
  (batches i).map upsertLocks

/-- A statement that goes through takes each of its locks once. -/
theorem publish_locks_nodup {store store' : Store} {batch : List Sighting}
    (committed : publish store batch = .ok store') : (upsertLocks batch).Nodup := by
  unfold upsertLocks
  rw [List.map_map]
  exact (publish_ok.mp committed).1

/-- Runs can come to wait for one another in a cycle exactly if their batches have a knot:
some of them have a batch each, cut in two, such that the first parts have no id in common
and the id after the cut is in the first part of another one. -/
theorem upsert_deadlock_free_iff [DecidableEq ι] (batches : ι → List (List Sighting)) :
    (∀ s, Reaches (init (lockJobs batches)) s → ¬ Deadlocked s) ↔ ¬ Knot (lockJobs batches) := by
  constructor
  · intro free knot
    obtain ⟨s, run, deadlocked⟩ := knot.deadlocks
    exact free s run deadlocked
  · intro untied s run deadlocked
    exact untied ((TwoPhase.inv_reaches run).knot deadlocked)

/-- Batches that were sorted by id could not deadlock. -/
theorem sorted_upserts_deadlock_free [DecidableEq ι] {batches : ι → List (List Sighting)}
    (sorted : ∀ i, ∀ batch ∈ batches i, (upsertLocks batch).Pairwise (· < ·))
    {s : ι → TwoPhase.Process Uuid} (run : Reaches (init (lockJobs batches)) s) :
    ¬ Deadlocked s := by
  intro deadlocked
  have ordered : ∀ i, ∀ job ∈ lockJobs batches i, job.Pairwise (· < ·) := by
    intro i job member
    obtain ⟨batch, inside, rfl⟩ := List.mem_map.mp member
    exact sorted i batch inside
  exact TwoPhase.not_knot_of_ordered ordered ((TwoPhase.inv_reaches run).knot deadlocked)

/-- Two feeds with the same two mutexes, in opposite order. -/
def opposedFeeds (first : Bool) : List Sighting :=
  (if first then [mutexSeen 1 "a".toList 0 [], mutexSeen 2 "b".toList 0 []]
    else [mutexSeen 2 "b".toList 0 [], mutexSeen 1 "a".toList 0 []]).map fun ind =>
      (ind, observe feedContext ind [] 0)

/-- Each of the two runs has its first row and waits for the other's. -/
theorem opposed_feeds_deadlock :
    (∀ i, ∀ batch ∈ persistBatches 500 [] (opposedFeeds i), (upsertLocks batch).Nodup) ∧
      ∃ s, Reaches (init (lockJobs fun i => persistBatches 500 [] (opposedFeeds i))) s ∧
        Deadlocked s := by
  refine ⟨by decide, Knot.deadlocks ?_⟩
  refine ⟨Set.univ, fun i => if i then [1] else [2], fun i => if i then 2 else 1,
    Set.finite_univ, ⟨true, trivial⟩, ?_, ?_, ?_⟩
  · rintro (_ | _) _
    · exact ⟨[], by decide⟩
    · exact ⟨[], by decide⟩
  · rintro (_ | _) _ (_ | _) _ other
    · exact absurd rfl other
    · exact List.singleton_disjoint.mpr (by decide)
    · exact List.singleton_disjoint.mpr (by decide)
    · exact absurd rfl other
  · rintro (_ | _) _
    · exact ⟨true, trivial, by decide, by decide⟩
    · exact ⟨false, trivial, by decide, by decide⟩

end Cti
