import Cti.RunRows

set_option autoImplicit false

/- Which calls for one source can have their pipelines active at the same time, when every
`max_parallelism` is one. -/
namespace Cti

open Py (Str)

section machine

variable {P : PipelineSystem}

/-- The call is inside its semaphores. -/
def Execution.Holding (x : Execution P) : Prop :=
  match x.phase with
  | .admitting => False
  | .ended _ => False
  | _ => True

/-- The next transaction of the call reads the row of its source for update. -/
def Execution.Locks (x : Execution P) : Prop :=
  match x.phase with
  | .opening => True
  | .finalizing result _ => result.state = .success
  | _ => False

theorem Execution.InRun.holding {x : Execution P} (inRun : x.InRun) : x.Holding := by
  unfold Execution.InRun at inRun
  unfold Execution.Holding
  split at inRun <;> simp_all

/-- A call is inside its semaphores only if it was so before or has just got in. -/
theorem JobStep.holding {job : Job} {sh sh' : Shared} {x x' : Execution job.pipeline}
    (step : JobStep job sh x sh' x') (holding : x'.Holding) :
    x.Holding ∨ x.phase = .admitting := by
  unfold Execution.Holding
  cases step with
  | permit now breaker phase admitted => exact Or.inr phase
  | refuse now e phase refused => exact Or.inr phase
  | close exit phase => exact holding.elim
  | _ =>
      rw [‹x.phase = _›]
      exact Or.inl trivial

variable {ι : Type} [DecidableEq ι] (jobs : ι → Job)

/-- The calls with the locks on the rows of the sources: which call's open transaction has
the row, if one does. -/
structure LockedManager where
  manager : Manager jobs
  lock : Str → Option ι

def LockedManager.init (sh : Shared) : LockedManager jobs := ⟨.init jobs sh, fun _ => none⟩

/-- One step. A lock is released when its transaction ends, and the semaphore of a source
lets one call of each worker in. -/
inductive LockedStep : LockedManager jobs → LockedManager jobs → Prop
  | lock (s : LockedManager jobs) (i : ι) (locks : (s.manager.execution i).Locks)
      (stored : s.manager.shared.db.source (jobs i).sourceId ≠ none)
      (free : s.lock (jobs i).sourceId = none) :
      LockedStep s { s with lock := Function.update s.lock (jobs i).sourceId (some i) }
  | transact (s : LockedManager jobs) (i : ι) (m : Manager jobs)
      (locks : (s.manager.execution i).Locks) (held : s.lock (jobs i).sourceId = some i)
      (step : ManagerStep jobs s.manager i m) :
      LockedStep s ⟨m, Function.update s.lock (jobs i).sourceId none⟩
  | other (s : LockedManager jobs) (i : ι) (m : Manager jobs)
      (unlocked : ¬ ((s.manager.execution i).Locks ∧
        s.manager.shared.db.source (jobs i).sourceId ≠ none))
      (permit : (s.manager.execution i).phase = .admitting → ∀ j, j ≠ i →
        (jobs j).worker = (jobs i).worker → (jobs j).sourceId = (jobs i).sourceId →
        ¬ (s.manager.execution j).Holding)
      (step : ManagerStep jobs s.manager i m) : LockedStep s ⟨m, s.lock⟩

def LockedReaches : LockedManager jobs → LockedManager jobs → Prop :=
  Relation.ReflTransGen (LockedStep jobs)

end machine

section exclusion

variable {ι : Type} [DecidableEq ι] {jobs : ι → Job}

/-- On each worker one call of a source is inside the semaphore. -/
def Serial (m : Manager jobs) : Prop :=
  ∀ i j, i ≠ j → (jobs i).worker = (jobs j).worker → (jobs i).sourceId = (jobs j).sourceId →
    (m.execution i).Holding → ¬ (m.execution j).Holding

theorem Serial.step {m m' : Manager jobs} {i : ι} (serial : Serial m)
    (taken : ManagerStep jobs m i m')
    (permit : (m.execution i).phase = .admitting → ∀ j, j ≠ i →
      (jobs j).worker = (jobs i).worker → (jobs j).sourceId = (jobs i).sourceId →
      ¬ (m.execution j).Holding) : Serial m' := by
  obtain ⟨step, others⟩ := taken.inv
  have alone : ∀ j, j ≠ i → (jobs j).worker = (jobs i).worker →
      (jobs j).sourceId = (jobs i).sourceId → (m'.execution i).Holding →
      ¬ (m'.execution j).Holding := by
    intro j other worker source holding
    rw [others j other]
    rcases step.holding holding with before | phase
    · exact serial i j (Ne.symm other) worker.symm source.symm before
    · exact permit phase j other worker source
  intro j k different worker source first second
  by_cases self : j = i
  · subst self
    exact alone k (Ne.symm different) worker.symm source.symm first second
  · by_cases self' : k = i
    · subst self'
      exact alone j different worker source second first
    · rw [others j self] at first
      rw [others k self'] at second
      exact serial j k different worker source first second

theorem serial_reached {sh : Shared} {s : LockedManager jobs}
    (run : LockedReaches jobs (.init jobs sh) s) : Serial s.manager := by
  induction run with
  | refl =>
      intro i j _ _ _ holding
      exact holding.elim
  | tail _ last ih =>
      cases last with
      | lock i locks stored free => exact ih
      | transact i m locks held step =>
          refine ih.step step ?_
          intro phase
          rw [Execution.Locks, phase] at locks
          exact locks.elim
      | other i m unlocked permit step => exact ih.step step permit

/-- The locks and semaphores only restrict the runs of the calls. -/
theorem LockedReaches.manager {s s' : LockedManager jobs} (run : LockedReaches jobs s s') :
    ManagerReaches jobs s.manager s'.manager := by
  induction run with
  | refl => exact .refl
  | tail _ last ih =>
      cases last with
      | lock i locks stored free => exact ih
      | transact i m locks held step => exact ih.tail ⟨i, step⟩
      | other i m unlocked permit step => exact ih.tail ⟨i, step⟩

/-- Nothing keeps a new call from starting its pipeline. -/
structure Startable (sh : Shared) (job : Job) : Prop where
  permitted : ∃ now breaker,
    (sh.breaker job).before job.circuit job.sourceId now = .ok breaker
  stored : sh.db.source job.sourceId ≠ none
  fresh : sh.db.run job.runId = none
  starts : ∀ watermark, ∃ attempt, job.pipeline.Start (job.context watermark) attempt

/-- A step of a call and what it leaves alone. -/
private theorem JobStep.locked {i : ι} {m : Manager jobs} {sh : Shared}
    {x : Execution (jobs i).pipeline} (step : JobStep (jobs i) m.shared (m.execution i) sh x) :
    ∃ m', ManagerStep jobs m i m' ∧ m'.shared = sh ∧ m'.execution i = x :=
  ⟨_, .mk m i sh x step, rfl, Function.update_self i x m.execution⟩

/-- A new call comes to start its pipeline, whatever runs on the other workers. -/
theorem startable_opens {s : LockedManager jobs} {i : ι}
    (startable : Startable s.manager.shared (jobs i))
    (new : (s.manager.execution i).phase = .admitting) (free : ∀ id, s.lock id = none)
    (alone : ∀ j, j ≠ i → (jobs j).worker = (jobs i).worker →
      (jobs j).sourceId = (jobs i).sourceId → ¬ (s.manager.execution j).Holding) :
    ∃ s', LockedReaches jobs s s' ∧ (s'.manager.execution i).InRun ∧ (∀ id, s'.lock id = none) ∧
      (∀ j, j ≠ i → s'.manager.execution j = s.manager.execution j) ∧
      (∀ id, s'.manager.shared.db.source id = s.manager.shared.db.source id) ∧
      (∀ id, id ≠ (jobs i).runId → s'.manager.shared.db.run id = s.manager.shared.db.run id) ∧
      ∀ worker, worker ≠ (jobs i).worker →
        s'.manager.shared.breakers worker = s.manager.shared.breakers worker := by
  obtain ⟨now, breaker, permitted⟩ := startable.permitted
  obtain ⟨m₁, step₁, shared₁, now₁⟩ := JobStep.locked (.permit _ _ now breaker new permitted)
  have run₁ : LockedStep jobs s ⟨m₁, s.lock⟩ :=
    .other s i m₁ (fun locks => by rw [Execution.Locks, new] at locks; exact locks.1) (fun _ => alone)
      step₁
  obtain ⟨m₂, step₂, shared₂, now₂⟩ := JobStep.locked
    (.build m₁.shared (m₁.execution i) (congrArg Execution.phase now₁))
  have run₂ : LockedStep jobs ⟨m₁, s.lock⟩ ⟨m₂, s.lock⟩ :=
    .other ⟨m₁, s.lock⟩ i m₂ (fun locks => by rw [now₁] at locks; exact locks.1)
      (fun early => by rw [now₁] at early; cases early) step₂
  have db : m₂.shared.db = s.manager.shared.db := by
    rw [shared₂, shared₁]
    rfl
  obtain ⟨db', row, watermark, opened⟩ := openRun_fresh
    (show m₂.shared.db.source (jobs i).sourceId ≠ none by rw [db]; exact startable.stored)
    (show m₂.shared.db.run (jobs i).runId = none by rw [db]; exact startable.fresh) 0
  obtain ⟨attempt, start⟩ := startable.starts watermark
  have opening : (m₂.execution i).phase = .opening := congrArg Execution.phase now₂
  have locks : (m₂.execution i).Locks := by
    rw [Execution.Locks, opening]
    trivial
  have run₃ : LockedStep jobs ⟨m₂, s.lock⟩ _ :=
    .lock ⟨m₂, s.lock⟩ i locks (by rw [db]; exact startable.stored) (free _)
  obtain ⟨m₃, step₃, shared₃, now₃⟩ := JobStep.locked
    (.openRun m₂.shared (m₂.execution i) 0 db' row watermark attempt opening opened start)
  have run₄ : LockedStep jobs _ ⟨m₃, _⟩ :=
    .transact ⟨m₂, Function.update s.lock (jobs i).sourceId (some i)⟩ i m₃ locks
      (Function.update_self ..) step₃
  have rows := openRun_run opened
  obtain ⟨rfl, _⟩ := openRun_ok opened
  refine ⟨_, (((Relation.ReflTransGen.single run₁).tail run₂).tail run₃).tail run₄, ?_, ?_, ?_, ?_,
    ?_, ?_⟩
  · rw [now₃]
    trivial
  · intro id
    by_cases own : id = (jobs i).sourceId
    · subst own
      exact Function.update_self ..
    · dsimp only
      rw [Function.update_of_ne own, Function.update_of_ne own]
      exact free id
  · intro j other
    rw [step₃.inv.2 j other, step₂.inv.2 j other, step₁.inv.2 j other]
  · intro id
    dsimp only
    rw [shared₃, ← db]
    rfl
  · intro id other
    dsimp only
    rw [shared₃, ← db]
    exact (rows id).trans (if_neg other)
  · intro worker other
    dsimp only
    rw [shared₃, shared₂, shared₁]
    exact Function.update_of_ne other _ _

/-- Two calls of a source on different workers come to run at the same time. -/
theorem startable_both {sh : Shared} {i j : ι} (different : i ≠ j)
    (worker : (jobs i).worker ≠ (jobs j).worker) (ids : (jobs i).runId ≠ (jobs j).runId)
    (first : Startable sh (jobs i)) (second : Startable sh (jobs j)) :
    ∃ s, LockedReaches jobs (.init jobs sh) s ∧ (s.manager.execution i).InRun ∧
      (s.manager.execution j).InRun := by
  obtain ⟨s, run, inRun, free, others, sources, rows, breakers⟩ :=
    @startable_opens ι _ jobs (.init jobs sh) i first rfl (fun _ => rfl) (fun _ _ _ _ => id)
  have startable : Startable s.manager.shared (jobs j) := by
    refine ⟨?_, ?_, ?_, second.starts⟩
    · unfold Shared.breaker
      rw [breakers _ worker.symm]
      exact second.permitted
    · rw [sources]
      exact second.stored
    · rw [rows _ ids.symm]
      exact second.fresh
  have alone : ∀ k, k ≠ j → (jobs k).worker = (jobs j).worker →
      (jobs k).sourceId = (jobs j).sourceId → ¬ (s.manager.execution k).Holding := by
    intro k _ same _
    by_cases self : k = i
    · exact absurd (self ▸ same) worker
    · rw [others k self]
      exact id
  obtain ⟨s', run', inRun', _, others', _⟩ := startable_opens startable
    (by rw [others j different.symm]; rfl) free alone
  refine ⟨s', run.trans run', ?_, inRun'⟩
  rw [others' i different]
  exact inRun

/-- Two calls of a source never have their pipelines active together if they are made in one
process; from different processes, any two calls that can start do. -/
theorem one_run_per_process (jobs : ι → Job) (sh : Shared) :
    (∀ i j, i ≠ j → (jobs i).sourceId = (jobs j).sourceId → (jobs i).worker = (jobs j).worker →
      ∀ s, LockedReaches jobs (.init jobs sh) s →
        ¬ ((s.manager.execution i).InRun ∧ (s.manager.execution j).InRun)) ∧
    ∀ i j, i ≠ j → (jobs i).sourceId = (jobs j).sourceId → (jobs i).worker ≠ (jobs j).worker →
      (jobs i).runId ≠ (jobs j).runId → Startable sh (jobs i) → Startable sh (jobs j) →
      ∃ s, LockedReaches jobs (.init jobs sh) s ∧ (s.manager.execution i).InRun ∧
        (s.manager.execution j).InRun := by
  constructor
  · rintro i j different source worker s run ⟨first, second⟩
    exact serial_reached run i j different worker source first.holding second.holding
  · intro i j different _ worker ids first second
    exact startable_both different worker ids first second

end exclusion

/-- Two workers with a call each for the source of mutexes. -/
def twoWorkers : Bool → Feed Unit := fun second =>
  { mutexFeed () with worker := second.toNat, runId := second.toNat + 1 }

theorem twoWorkers_startable (second : Bool) :
    Startable feedShared ((twoWorkers second).job asciiRuntime) where
  permitted := ⟨0, .init, rfl⟩
  stored := by simp [feedShared, Db.source, Feed.job, twoWorkers, mutexFeed]
  fresh := rfl
  starts watermark := ⟨_, zeroClock, (), rfl⟩

/-- Both workers have a running row for the source and their pipelines active. -/
theorem two_workers_run_together :
    ∃ s : LockedManager fun i => (twoWorkers i).job asciiRuntime,
      LockedReaches _ (.init _ feedShared) s ∧
      (twoWorkers false).sourceId = (twoWorkers true).sourceId ∧
      (s.manager.execution false).InRun ∧ (s.manager.execution true).InRun ∧
      s.manager.shared.db.Running 1 ∧ s.manager.shared.db.Running 2 := by
  obtain ⟨s, run, first, second⟩ := @startable_both Bool _
    (fun i => (twoWorkers i).job asciiRuntime) feedShared false true (by decide) (by decide)
    (by decide) (twoWorkers_startable false) (twoWorkers_startable true)
  have rows := rows_reached run.manager
  exact ⟨s, run, rfl, first, second, rows.running false first, rows.running true second⟩

end Cti
