import Mathlib.Logic.Function.Basic
import Mathlib.Logic.Relation
import Mathlib.Order.Basic
import Cti.PyText
import Cti.Semaphore

set_option autoImplicit false

/- How the calls of `FeedRunner.execute` on one runner get in: each takes a permit of the worker
and then one of its source, and gives back what it has when it ends. -/
namespace Cti

open Py (Str)
open Semaphore (Sem Ticket)

/-- What `execute` reads of its source before it is admitted. -/
structure ExecuteCall where
  sourceId : Str
  maxParallelism : Int

inductive ExitKind where
  | returned
  | circuitOpen
  | raised
  | cancelled

/-- Where a call stands in `async with self._globals, sem`. -/
inductive CallPhase where
  | idle
  | entering
  | waitingGlobal
  | between
  | waitingSource
  | inside
  | ended (exit : ExitKind)

namespace CallPhase

def holdsGlobal : CallPhase → Bool
  | .between => true
  | .waitingSource => true
  | .inside => true
  | _ => false

def waitsGlobal : CallPhase → Bool
  | .waitingGlobal => true
  | _ => false

def holdsSource : CallPhase → Bool
  | .inside => true
  | _ => false

def waitsSource : CallPhase → Bool
  | .waitingSource => true
  | _ => false

end CallPhase

variable {ι : Type} [DecidableEq ι]

/-- The semaphores of a runner and the calls on it; `used` are those that have asked for the
semaphore of their source, in that order. -/
structure RunnerState (ι : Type) where
  globals : Sem ι
  perSource : Str → Option (Sem ι)
  phase : ι → CallPhase
  used : List ι

def RunnerState.init (maxConcurrent : Nat) : RunnerState ι :=
  ⟨.init maxConcurrent, fun _ => none, fun _ => .idle, []⟩

/-- `PerSourceConcurrency.get`, as what it leaves in the dictionary. -/
def perSourceGet (sems : Str → Option (Sem ι)) (sourceId : Str) (maxParallelism : Int) :
    Str → Option (Sem ι) :=
  match sems sourceId with
  | some _ => sems
  | none => Function.update sems sourceId (some (.init (max 1 maxParallelism).toNat))

/-- The call goes on to the phase, with the semaphores as they are then. -/
def RunnerState.move (s : RunnerState ι) (i : ι) (phase : CallPhase) (globals : Sem ι)
    (perSource : Str → Option (Sem ι)) : RunnerState ι :=
  { s with globals := globals, perSource := perSource, phase := Function.update s.phase i phase }

/-- What a step is: the start of a call, a call going on by itself, a cancellation, or the exit
of a call that was admitted. -/
inductive StepKind where
  | start
  | proceed
  | cancel
  | exit
  deriving DecidableEq

variable (calls : ι → ExecuteCall)

/-- One step of one call. An `acquire` that need not wait does not suspend. A waiter whose
future is resolved may still find itself cancelled when it goes on. -/
inductive RunnerStep : RunnerState ι → ι → StepKind → RunnerState ι → Prop
  | start (s : RunnerState ι) (i : ι) (phase : s.phase i = .idle) :
      RunnerStep s i .start
        { s with
          perSource := perSourceGet s.perSource (calls i).sourceId (calls i).maxParallelism
          phase := Function.update s.phase i .entering
          used := s.used ++ [i] }
  | takeGlobal (s : RunnerState ι) (i : ι) (phase : s.phase i = .entering)
      (unlocked : s.globals.locked = false) :
      RunnerStep s i .proceed (s.move i .between (s.globals.take i) s.perSource)
  | queueGlobal (s : RunnerState ι) (i : ι) (phase : s.phase i = .entering)
      (locked : s.globals.locked = true) :
      RunnerStep s i .proceed (s.move i .waitingGlobal (s.globals.enqueue i) s.perSource)
  | resumeGlobal (s : RunnerState ι) (i : ι) (phase : s.phase i = .waitingGlobal)
      (ticket : (i, .granted) ∈ s.globals.waiters) :
      RunnerStep s i .proceed (s.move i .between (s.globals.resume i) s.perSource)
  | cancelGlobal (s : RunnerState ι) (i : ι) (phase : s.phase i = .waitingGlobal)
      (ticket : (i, .pending) ∈ s.globals.waiters) :
      RunnerStep s i .cancel (s.move i .waitingGlobal (s.globals.cancel i) s.perSource)
  | unwindGlobal (s : RunnerState ι) (i : ι) (t : Ticket) (phase : s.phase i = .waitingGlobal)
      (ticket : (i, t) ∈ s.globals.waiters) (done : t ≠ .pending) :
      RunnerStep s i (if t = .granted then .cancel else .proceed)
        (s.move i (.ended .cancelled) (s.globals.abandon i t) s.perSource)
  | takeSource (s : RunnerState ι) (i : ι) (sem : Sem ι) (phase : s.phase i = .between)
      (found : s.perSource (calls i).sourceId = some sem) (unlocked : sem.locked = false) :
      RunnerStep s i .proceed (s.move i .inside s.globals
        (Function.update s.perSource (calls i).sourceId (some (sem.take i))))
  | queueSource (s : RunnerState ι) (i : ι) (sem : Sem ι) (phase : s.phase i = .between)
      (found : s.perSource (calls i).sourceId = some sem) (locked : sem.locked = true) :
      RunnerStep s i .proceed (s.move i .waitingSource s.globals
        (Function.update s.perSource (calls i).sourceId (some (sem.enqueue i))))
  | interrupt (s : RunnerState ι) (i : ι) (phase : s.phase i = .between) :
      RunnerStep s i .cancel (s.move i (.ended .cancelled) (s.globals.release i) s.perSource)
  | resumeSource (s : RunnerState ι) (i : ι) (sem : Sem ι) (phase : s.phase i = .waitingSource)
      (found : s.perSource (calls i).sourceId = some sem)
      (ticket : (i, .granted) ∈ sem.waiters) :
      RunnerStep s i .proceed (s.move i .inside s.globals
        (Function.update s.perSource (calls i).sourceId (some (sem.resume i))))
  | cancelSource (s : RunnerState ι) (i : ι) (sem : Sem ι) (phase : s.phase i = .waitingSource)
      (found : s.perSource (calls i).sourceId = some sem)
      (ticket : (i, .pending) ∈ sem.waiters) :
      RunnerStep s i .cancel (s.move i .waitingSource s.globals
        (Function.update s.perSource (calls i).sourceId (some (sem.cancel i))))
  | unwindSource (s : RunnerState ι) (i : ι) (sem : Sem ι) (t : Ticket)
      (phase : s.phase i = .waitingSource) (found : s.perSource (calls i).sourceId = some sem)
      (ticket : (i, t) ∈ sem.waiters) (done : t ≠ .pending) :
      RunnerStep s i (if t = .granted then .cancel else .proceed)
        (s.move i (.ended .cancelled) (s.globals.release i)
          (Function.update s.perSource (calls i).sourceId (some (sem.abandon i t))))
  | exit (s : RunnerState ι) (i : ι) (sem : Sem ι) (exit : ExitKind) (phase : s.phase i = .inside)
      (found : s.perSource (calls i).sourceId = some sem) :
      RunnerStep s i .exit (s.move i (.ended exit) (s.globals.release i)
        (Function.update s.perSource (calls i).sourceId (some (sem.release i))))

def RunnerReaches : RunnerState ι → RunnerState ι → Prop :=
  Relation.ReflTransGen fun s s' => ∃ i kind, RunnerStep calls s i kind s'

/-- The call that asked first for the semaphore of a source. -/
def RunnerState.firstUse (s : RunnerState ι) (sourceId : Str) : Option ι :=
  s.used.find? fun i => decide ((calls i).sourceId = sourceId)

/-- The semaphores account for all calls. -/
structure RunnerState.Limited (maxConcurrent : Nat) (s : RunnerState ι) : Prop where
  globals : s.globals.Serves maxConcurrent (fun j => (s.phase j).holdsGlobal = true)
    (fun j => (s.phase j).waitsGlobal = true)
  sources : ∀ sourceId sem, s.perSource sourceId = some sem →
    ∃ first, s.firstUse calls sourceId = some first ∧
      sem.Serves (max 1 (calls first).maxParallelism).toNat
        (fun j => (calls j).sourceId = sourceId ∧ (s.phase j).holdsSource = true)
        (fun j => (calls j).sourceId = sourceId ∧ (s.phase j).waitsSource = true)
  opened : ∀ i, s.phase i ≠ .idle → ∃ sem, s.perSource (calls i).sourceId = some sem
  unused : ∀ sourceId, s.perSource sourceId = none → s.firstUse calls sourceId = none

section update

variable (F : ι → CallPhase → Prop) {phase : ι → CallPhase} {i : ι} {p : CallPhase}

theorem update_gain (new : F i p) (j : ι) :
    F j (Function.update phase i p j) ↔ j = i ∨ F j (phase j) := by
  by_cases own : j = i
  · subst own
    simp [new]
  · simp [own]

theorem update_lose (gone : ¬ F i p) (j : ι) :
    F j (Function.update phase i p j) ↔ F j (phase j) ∧ j ≠ i := by
  by_cases own : j = i
  · subst own
    simp [gone]
  · simp [own]

theorem update_keep (same : F i p ↔ F i (phase i)) (j : ι) :
    F j (Function.update phase i p j) ↔ F j (phase j) := by
  by_cases own : j = i
  · subst own
    simp [same]
  · simp [own]

end update

section first

variable {sems : Str → Option (Sem ι)} {sourceId sourceId' : Str} {maxParallelism : Int} {sem : Sem ι}

omit [DecidableEq ι] in
theorem perSourceGet_found (found : sems sourceId' = some sem) :
    perSourceGet sems sourceId maxParallelism sourceId' = some sem := by
  unfold perSourceGet
  cases known : sems sourceId with
  | some old => exact found
  | none =>
      have other : sourceId' ≠ sourceId := by
        rintro rfl
        rw [known] at found
        cases found
      dsimp only
      rw [Function.update_of_ne other, found]

omit [DecidableEq ι] in
theorem perSourceGet_self (sems : Str → Option (Sem ι)) (sourceId : Str) (maxParallelism : Int) :
    ∃ sem, perSourceGet sems sourceId maxParallelism sourceId = some sem := by
  cases known : sems sourceId with
  | some old => exact ⟨old, perSourceGet_found known⟩
  | none =>
      unfold perSourceGet
      rw [known]
      exact ⟨_, Function.update_self _ _ _⟩

omit [DecidableEq ι] in
/-- A semaphore was there before, or is made for the source with all its permits. -/
theorem perSourceGet_some (found : perSourceGet sems sourceId maxParallelism sourceId' = some sem) :
    sems sourceId' = some sem ∨
      sourceId' = sourceId ∧ sems sourceId = none ∧ sem = .init (max 1 maxParallelism).toNat := by
  unfold perSourceGet at found
  cases known : sems sourceId with
  | some old =>
      rw [known] at found
      exact Or.inl found
  | none =>
      rw [known] at found
      dsimp only at found
      by_cases own : sourceId' = sourceId
      · subst own
        rw [Function.update_self] at found
        cases found
        exact Or.inr ⟨rfl, rfl, rfl⟩
      · rw [Function.update_of_ne own] at found
        exact Or.inl found

variable {calls} {used : List ι} {i first : ι}

omit [DecidableEq ι] in
theorem firstUse_later (found : used.find? (fun j => decide ((calls j).sourceId = sourceId)) =
      some first) :
    (used ++ [i]).find? (fun j => decide ((calls j).sourceId = sourceId)) = some first := by
  rw [List.find?_append, found]
  rfl

omit [DecidableEq ι] in
theorem firstUse_new (none' : used.find? (fun j => decide ((calls j).sourceId = sourceId)) = none)
    (own : (calls i).sourceId = sourceId) :
    (used ++ [i]).find? (fun j => decide ((calls j).sourceId = sourceId)) = some i := by
  rw [List.find?_append, none']
  simp [own]

end first

variable {calls}

namespace RunnerState.Limited

variable {maxConcurrent : Nat} {s : RunnerState ι} {i : ι}

omit [DecidableEq ι] in
theorem init (maxConcurrent : Nat) :
    (RunnerState.init maxConcurrent : RunnerState ι).Limited calls maxConcurrent where
  globals := .init maxConcurrent (fun _ => nofun) (fun _ => nofun)
  sources _ _ found := nomatch found
  opened _ started := absurd rfl started
  unused _ _ := rfl

/-- A call that asks for the semaphore of its source. -/
theorem start (inv : s.Limited calls maxConcurrent) (idle : s.phase i = .idle) :
    RunnerState.Limited calls maxConcurrent
      { s with
        perSource := perSourceGet s.perSource (calls i).sourceId (calls i).maxParallelism
        phase := Function.update s.phase i .entering
        used := s.used ++ [i] } := by
  have kept : ∀ sourceId (f : CallPhase → Bool), f .entering = false → f .idle = false →
      ∀ j, ((calls j).sourceId = sourceId ∧ f (Function.update s.phase i .entering j) = true) ↔
        (calls j).sourceId = sourceId ∧ f (s.phase j) = true := by
    intro sourceId f entering idle'
    refine update_keep (fun j p => (calls j).sourceId = sourceId ∧ f p = true) ?_
    simp [idle, entering, idle']
  refine ⟨?_, ?_, ?_, ?_⟩
  · refine inv.globals.congr ?_ ?_
    · exact update_keep (fun _ p => p.holdsGlobal = true) (by simp [idle, CallPhase.holdsGlobal])
    · exact update_keep (fun _ p => p.waitsGlobal = true) (by simp [idle, CallPhase.waitsGlobal])
  · intro sourceId sem found
    rcases perSourceGet_some found with old | ⟨rfl, none', rfl⟩
    · obtain ⟨first, used, serves⟩ := inv.sources sourceId sem old
      exact ⟨first, firstUse_later used,
        serves.congr (kept _ _ rfl rfl) (kept _ _ rfl rfl)⟩
    · have alone : ∀ (f : CallPhase → Bool), f .entering = false → f .idle = false → ∀ j,
          ¬ ((calls j).sourceId = (calls i).sourceId ∧
            f (Function.update s.phase i .entering j) = true) := by
        intro f entering idle' j present
        obtain ⟨same, active⟩ := (kept _ f entering idle' j).mp present
        have started : s.phase j ≠ .idle := by
          intro none'
          rw [none', idle'] at active
          cases active
        obtain ⟨sem, exists'⟩ := inv.opened j started
        rw [same, none'] at exists'
        cases exists'
      exact ⟨i, firstUse_new (inv.unused _ none') rfl,
        .init _ (alone _ rfl rfl) (alone _ rfl rfl)⟩
  · intro j started
    by_cases own : j = i
    · subst own
      exact perSourceGet_self _ _ _
    · dsimp only at started
      rw [Function.update_of_ne own] at started
      obtain ⟨sem, found⟩ := inv.opened j started
      exact ⟨sem, perSourceGet_found found⟩
  · intro sourceId none'
    have missing : s.perSource sourceId = none := by
      cases known : s.perSource sourceId with
      | none => rfl
      | some sem => exact nomatch none'.symm.trans (perSourceGet_found known)
    have other : (calls i).sourceId ≠ sourceId := by
      rintro rfl
      obtain ⟨sem, found⟩ := perSourceGet_self s.perSource (calls i).sourceId (calls i).maxParallelism
      exact nomatch none'.symm.trans found
    unfold RunnerState.firstUse
    rw [List.find?_append, show s.used.find? _ = none from inv.unused sourceId missing]
    simp [other]

/-- A call that goes on, with what it does to the semaphores. -/
theorem move (inv : s.Limited calls maxConcurrent) {p : CallPhase} {globals sem sem' : Sem ι}
    {perSource : Str → Option (Sem ι)}
    (served : globals.Serves maxConcurrent
      (fun j => (Function.update s.phase i p j).holdsGlobal = true)
      (fun j => (Function.update s.phase i p j).waitsGlobal = true))
    (found : s.perSource (calls i).sourceId = some sem)
    (written : perSource (calls i).sourceId = some sem')
    (others : ∀ sourceId, sourceId ≠ (calls i).sourceId →
      perSource sourceId = s.perSource sourceId)
    (source : ∀ limit,
      sem.Serves limit
        (fun j => (calls j).sourceId = (calls i).sourceId ∧ (s.phase j).holdsSource = true)
        (fun j => (calls j).sourceId = (calls i).sourceId ∧ (s.phase j).waitsSource = true) →
      sem'.Serves limit
        (fun j => (calls j).sourceId = (calls i).sourceId ∧
          (Function.update s.phase i p j).holdsSource = true)
        (fun j => (calls j).sourceId = (calls i).sourceId ∧
          (Function.update s.phase i p j).waitsSource = true)) :
    (s.move i p globals perSource).Limited calls maxConcurrent := by
  refine ⟨served, ?_, ?_, ?_⟩
  · intro sourceId sem'' stored
    by_cases own : sourceId = (calls i).sourceId
    · subst own
      obtain ⟨first, used, serves⟩ := inv.sources _ sem found
      have same : perSource (calls i).sourceId = some sem'' := stored
      rw [written] at same
      cases same
      exact ⟨first, used, source _ serves⟩
    · have same : perSource sourceId = some sem'' := stored
      rw [others sourceId own] at same
      obtain ⟨first, used, serves⟩ := inv.sources sourceId sem'' same
      have kept : ∀ (f : CallPhase → Bool) (j : ι),
          ((calls j).sourceId = sourceId ∧ f (Function.update s.phase i p j) = true) ↔
            (calls j).sourceId = sourceId ∧ f (s.phase j) = true := by
        intro f
        refine update_keep (fun j p => (calls j).sourceId = sourceId ∧ f p = true) ?_
        simp [Ne.symm own]
      exact ⟨first, used, serves.congr (kept _) (kept _)⟩
  · intro j _
    by_cases same : (calls j).sourceId = (calls i).sourceId
    · exact ⟨sem', by rw [same]; exact written⟩
    · by_cases own : j = i
      · exact absurd (by rw [own]) same
      · rename_i moved
        have before : s.phase j ≠ .idle := by
          simpa [RunnerState.move, own] using moved
        obtain ⟨old, stored⟩ := inv.opened j before
        exact ⟨old, (others _ same).trans stored⟩
  · intro sourceId none'
    have missing : s.perSource sourceId = none := by
      by_cases own : sourceId = (calls i).sourceId
      · subst own
        have same : perSource (calls i).sourceId = none := none'
        rw [written] at same
        cases same
      · exact (others sourceId own).symm.trans none'
    exact inv.unused sourceId missing

section phases

variable {p : CallPhase} (f : CallPhase → Bool)

theorem own_gain (new : f p = true) (j : ι) :
    ((calls j).sourceId = (calls i).sourceId ∧ f (Function.update s.phase i p j) = true) ↔
      j = i ∨ (calls j).sourceId = (calls i).sourceId ∧ f (s.phase j) = true :=
  update_gain (fun j p => (calls j).sourceId = (calls i).sourceId ∧ f p = true) ⟨rfl, new⟩ j

theorem own_lose (gone : f p = false) (j : ι) :
    ((calls j).sourceId = (calls i).sourceId ∧ f (Function.update s.phase i p j) = true) ↔
      ((calls j).sourceId = (calls i).sourceId ∧ f (s.phase j) = true) ∧ j ≠ i :=
  update_lose (fun j p => (calls j).sourceId = (calls i).sourceId ∧ f p = true) (by simp [gone]) j

theorem own_keep {p : CallPhase} (same : f p = f (s.phase i)) (j : ι) :
    ((calls j).sourceId = (calls i).sourceId ∧ f (Function.update s.phase i p j) = true) ↔
      (calls j).sourceId = (calls i).sourceId ∧ f (s.phase j) = true :=
  update_keep (fun j p => (calls j).sourceId = (calls i).sourceId ∧ f p = true) (by simp [same]) j

theorem all_gain (new : f p = true) (j : ι) :
    f (Function.update s.phase i p j) = true ↔ j = i ∨ f (s.phase j) = true :=
  update_gain (fun _ p => f p = true) new j

theorem all_lose (gone : f p = false) (j : ι) :
    f (Function.update s.phase i p j) = true ↔ f (s.phase j) = true ∧ j ≠ i :=
  update_lose (fun _ p => f p = true) (by simp [gone]) j

theorem all_keep {p : CallPhase} (same : f p = f (s.phase i)) (j : ι) :
    f (Function.update s.phase i p j) = true ↔ f (s.phase j) = true :=
  update_keep (fun _ p => f p = true) (by rw [same]) j

end phases

/-- A step that leaves the semaphore of its source alone. -/
theorem moveGlobal (inv : s.Limited calls maxConcurrent) {p : CallPhase} {globals : Sem ι}
    (started : s.phase i ≠ .idle)
    (served : globals.Serves maxConcurrent
      (fun j => (Function.update s.phase i p j).holdsGlobal = true)
      (fun j => (Function.update s.phase i p j).waitsGlobal = true))
    (holds : p.holdsSource = (s.phase i).holdsSource)
    (waits : p.waitsSource = (s.phase i).waitsSource) :
    (s.move i p globals s.perSource).Limited calls maxConcurrent := by
  obtain ⟨sem, found⟩ := inv.opened i started
  refine inv.move served found found (fun _ _ => rfl) ?_
  intro limit serves
  exact serves.congr (own_keep _ holds) (own_keep _ waits)

/-- A step that changes the semaphore of its source. -/
theorem moveSource (inv : s.Limited calls maxConcurrent) {p : CallPhase} {globals sem sem' : Sem ι}
    (served : globals.Serves maxConcurrent
      (fun j => (Function.update s.phase i p j).holdsGlobal = true)
      (fun j => (Function.update s.phase i p j).waitsGlobal = true))
    (found : s.perSource (calls i).sourceId = some sem)
    (source : ∀ limit,
      sem.Serves limit
        (fun j => (calls j).sourceId = (calls i).sourceId ∧ (s.phase j).holdsSource = true)
        (fun j => (calls j).sourceId = (calls i).sourceId ∧ (s.phase j).waitsSource = true) →
      sem'.Serves limit
        (fun j => (calls j).sourceId = (calls i).sourceId ∧
          (Function.update s.phase i p j).holdsSource = true)
        (fun j => (calls j).sourceId = (calls i).sourceId ∧
          (Function.update s.phase i p j).waitsSource = true)) :
    (s.move i p globals
      (Function.update s.perSource (calls i).sourceId (some sem'))).Limited calls maxConcurrent :=
  inv.move served found (Function.update_self _ _ _)
    (fun _ other => Function.update_of_ne other _ _) source

/-- Whatever a call does keeps the account. -/
theorem step (inv : s.Limited calls maxConcurrent) {kind : StepKind} {s' : RunnerState ι}
    (taken : RunnerStep calls s i kind s') : s'.Limited calls maxConcurrent := by
  cases taken with
  | start phase => exact inv.start phase
  | takeGlobal phase unlocked =>
      refine inv.moveGlobal (by rw [phase]; nofun) ?_ (by rw [phase]; rfl) (by rw [phase]; rfl)
      refine (inv.globals.take unlocked (by rw [phase]; nofun) (all_gain _ rfl)).congr
        (fun _ => Iff.rfl) ?_
      exact all_keep _ (by rw [phase]; rfl)
  | queueGlobal phase locked =>
      refine inv.moveGlobal (by rw [phase]; nofun) ?_ (by rw [phase]; rfl) (by rw [phase]; rfl)
      refine (inv.globals.enqueue locked (by rw [phase]; nofun) (all_gain _ rfl)).congr
        ?_ (fun _ => Iff.rfl)
      exact all_keep _ (by rw [phase]; rfl)
  | resumeGlobal phase ticket =>
      refine inv.moveGlobal (by rw [phase]; nofun) ?_ (by rw [phase]; rfl) (by rw [phase]; rfl)
      exact inv.globals.resume ticket (by rw [phase]; nofun) (all_gain _ rfl) (all_lose _ rfl)
  | cancelGlobal phase ticket =>
      refine inv.moveGlobal (by rw [phase]; nofun) ?_ (by rw [phase]) (by rw [phase])
      exact inv.globals.cancel.congr (all_keep _ (by rw [phase])) (all_keep _ (by rw [phase]))
  | unwindGlobal t phase ticket done =>
      refine inv.moveGlobal (by rw [phase]; nofun) ?_ (by rw [phase]; rfl) (by rw [phase]; rfl)
      exact (inv.globals.abandon ticket (all_lose _ rfl)).congr
        (all_keep _ (by rw [phase]; rfl)) (fun _ => Iff.rfl)
  | takeSource sem phase found unlocked =>
      refine inv.moveSource (inv.globals.congr ?_ ?_) found ?_
      · exact all_keep _ (by rw [phase]; rfl)
      · exact all_keep _ (by rw [phase]; rfl)
      · intro limit serves
        exact (serves.take unlocked (by rw [phase]; rintro ⟨_, ⟨⟩⟩) (own_gain _ rfl)).congr
          (fun _ => Iff.rfl) (own_keep _ (by rw [phase]; rfl))
  | queueSource sem phase found locked =>
      refine inv.moveSource (inv.globals.congr ?_ ?_) found ?_
      · exact all_keep _ (by rw [phase]; rfl)
      · exact all_keep _ (by rw [phase]; rfl)
      · intro limit serves
        exact (serves.enqueue locked (by rw [phase]; rintro ⟨_, ⟨⟩⟩) (own_gain _ rfl)).congr
          (own_keep _ (by rw [phase]; rfl)) (fun _ => Iff.rfl)
  | interrupt phase =>
      refine inv.moveGlobal (by rw [phase]; nofun) ?_ (by rw [phase]; rfl) (by rw [phase]; rfl)
      exact (inv.globals.release (by rw [phase]; rfl) (all_lose _ rfl)).congr
        (fun _ => Iff.rfl) (all_keep _ (by rw [phase]; rfl))
  | resumeSource sem phase found ticket =>
      refine inv.moveSource (inv.globals.congr ?_ ?_) found ?_
      · exact all_keep _ (by rw [phase]; rfl)
      · exact all_keep _ (by rw [phase]; rfl)
      · intro limit serves
        exact serves.resume ticket (by rw [phase]; rintro ⟨_, ⟨⟩⟩) (own_gain _ rfl) (own_lose _ rfl)
  | cancelSource sem phase found ticket =>
      refine inv.moveSource (inv.globals.congr ?_ ?_) found ?_
      · exact all_keep _ (by rw [phase])
      · exact all_keep _ (by rw [phase])
      · intro limit serves
        exact serves.cancel.congr (own_keep _ (by rw [phase])) (own_keep _ (by rw [phase]))
  | unwindSource sem t phase found ticket done =>
      refine inv.moveSource ?_ found ?_
      · exact (inv.globals.release (by rw [phase]; rfl) (all_lose _ rfl)).congr
          (fun _ => Iff.rfl) (all_keep _ (by rw [phase]; rfl))
      · intro limit serves
        exact (serves.abandon ticket (own_lose _ rfl)).congr
          (own_keep _ (by rw [phase]; rfl)) (fun _ => Iff.rfl)
  | exit sem exit phase found =>
      refine inv.moveSource ?_ found ?_
      · exact (inv.globals.release (by rw [phase]; rfl) (all_lose _ rfl)).congr
          (fun _ => Iff.rfl) (all_keep _ (by rw [phase]; rfl))
      · intro limit serves
        exact (serves.release ⟨rfl, by rw [phase]; rfl⟩ (own_lose _ rfl)).congr
          (fun _ => Iff.rfl) (own_keep _ (by rw [phase]; rfl))

theorem reaches {s : RunnerState ι} (run : RunnerReaches calls (.init maxConcurrent) s) :
    s.Limited calls maxConcurrent := by
  induction run with
  | refl => exact init maxConcurrent
  | tail _ last ih =>
      obtain ⟨i, kind, taken⟩ := last
      exact ih.step taken

end RunnerState.Limited

section steps

variable {s s' : RunnerState ι} {i : ι} {kind : StepKind}

theorem RunnerStep.others (taken : RunnerStep calls s i kind s') (j : ι) (other : j ≠ i) :
    s'.phase j = s.phase j := by
  cases taken with
  | _ => exact Function.update_of_ne other _ _

/-- No step drops a semaphore, and none changes who used it first. -/
theorem RunnerStep.source_kept (taken : RunnerStep calls s i kind s') {sourceId : Str} {sem : Sem ι}
    (found : s.perSource sourceId = some sem) :
    (∃ sem', s'.perSource sourceId = some sem') ∧
      ∀ first, s.firstUse calls sourceId = some first → s'.firstUse calls sourceId = some first := by
  have written : ∀ sem', ∃ sem'', Function.update s.perSource (calls i).sourceId (some sem') sourceId =
      some sem'' := by
    intro sem'
    by_cases own : sourceId = (calls i).sourceId
    · subst own
      exact ⟨sem', Function.update_self _ _ _⟩
    · rw [Function.update_of_ne own]
      exact ⟨sem, found⟩
  cases taken with
  | start phase => exact ⟨⟨sem, perSourceGet_found found⟩, fun _ used => firstUse_later used⟩
  | takeSource sem' phase found' unlocked => exact ⟨written _, fun _ used => used⟩
  | queueSource sem' phase found' locked => exact ⟨written _, fun _ used => used⟩
  | resumeSource sem' phase found' ticket => exact ⟨written _, fun _ used => used⟩
  | cancelSource sem' phase found' ticket => exact ⟨written _, fun _ used => used⟩
  | unwindSource sem' t phase found' ticket done => exact ⟨written _, fun _ used => used⟩
  | exit sem' exit phase found' => exact ⟨written _, fun _ used => used⟩
  | _ => exact ⟨⟨sem, found⟩, fun _ used => used⟩

variable {maxConcurrent : Nat}

/-- A step changes the free permits by what its call takes or gives back. -/
theorem RunnerStep.balance (inv : s.Limited calls maxConcurrent)
    (taken : RunnerStep calls s i kind s') :
    s'.globals.free + (s'.phase i).holdsGlobal.toNat =
        s.globals.free + (s.phase i).holdsGlobal.toNat ∧
      ∀ sourceId sem, s.perSource sourceId = some sem →
        ∃ sem', s'.perSource sourceId = some sem' ∧
          sem'.free + (decide ((calls i).sourceId = sourceId) && (s'.phase i).holdsSource).toNat =
            sem.free + (decide ((calls i).sourceId = sourceId) && (s.phase i).holdsSource).toNat := by
  have after := inv.step taken
  constructor
  · refine inv.globals.balance (i := i) after.globals ?_ Iff.rfl Iff.rfl
    intro j other
    rw [taken.others j other]
  · intro sourceId sem found
    obtain ⟨⟨sem', found'⟩, kept⟩ := taken.source_kept found
    obtain ⟨first, used, serves⟩ := inv.sources sourceId sem found
    obtain ⟨first', used', serves'⟩ := after.sources sourceId sem' found'
    rw [kept first used] at used'
    cases used'
    refine ⟨sem', found', serves.balance (i := i) serves' ?_ ?_ ?_⟩
    · intro j other
      rw [taken.others j other]
    · simp
    · simp

/-- A waiter whose future is done goes on. -/
theorem RunnerState.Limited.globalWaiter (inv : s.Limited calls maxConcurrent) {t : Ticket}
    (member : (i, t) ∈ s.globals.waiters) (done : t ≠ .pending) :
    ∃ s', RunnerStep calls s i .proceed s' := by
  have waits : (s.phase i).waitsGlobal = true :=
    (inv.globals.waits i).mp (List.mem_map.mpr ⟨_, member, rfl⟩)
  have phase : s.phase i = .waitingGlobal := by
    cases phase : s.phase i <;> rw [phase] at waits <;> first | rfl | cases waits
  cases t with
  | pending => exact absurd rfl done
  | granted => exact ⟨_, .resumeGlobal s i phase member⟩
  | cancelled => exact ⟨_, .unwindGlobal s i .cancelled phase member done⟩

theorem RunnerState.Limited.sourceWaiter (inv : s.Limited calls maxConcurrent) {sourceId : Str}
    {sem : Sem ι} (found : s.perSource sourceId = some sem) {t : Ticket}
    (member : (i, t) ∈ sem.waiters) (done : t ≠ .pending) :
    ∃ s', RunnerStep calls s i .proceed s' := by
  obtain ⟨first, _, serves⟩ := inv.sources sourceId sem found
  obtain ⟨rfl, waits⟩ := (serves.waits i).mp (List.mem_map.mpr ⟨_, member, rfl⟩)
  have phase : s.phase i = .waitingSource := by
    cases phase : s.phase i <;> rw [phase] at waits <;> first | rfl | cases waits
  cases t with
  | pending => exact absurd rfl done
  | granted => exact ⟨_, .resumeSource s i sem phase found member⟩
  | cancelled => exact ⟨_, .unwindSource s i sem .cancelled phase found member done⟩

/-- A call that waits for its source waits for calls that can go on or are inside. -/
theorem RunnerState.Limited.sourceProgress (inv : s.Limited calls maxConcurrent)
    (phase : s.phase i = .waitingSource) :
    ∃ j kind s', RunnerStep calls s j kind s' ∧ (kind = .proceed ∨ kind = .exit) := by
  obtain ⟨sem, found⟩ := inv.opened i (by rw [phase]; nofun)
  obtain ⟨first, _, serves⟩ := inv.sources _ sem found
  have positive : 1 ≤ (max 1 (calls first).maxParallelism).toNat := by omega
  rcases serves.progress positive ⟨rfl, by rw [phase]; rfl⟩ with ⟨j, t, member, done⟩ | ⟨j, same, holds⟩
  · obtain ⟨s', taken⟩ := inv.sourceWaiter found member done
    exact ⟨j, .proceed, s', taken, Or.inl rfl⟩
  · have inside : s.phase j = .inside := by
      cases phase : s.phase j <;> rw [phase] at holds <;> first | rfl | cases holds
    exact ⟨j, .exit, _, .exit s j sem .returned inside (by rw [same]; exact found), Or.inr rfl⟩

theorem RunnerState.Limited.progress (inv : s.Limited calls maxConcurrent)
    (positive : 1 ≤ maxConcurrent)
    (waiting : (s.phase i).waitsGlobal = true ∨ (s.phase i).waitsSource = true) :
    ∃ j kind s', RunnerStep calls s j kind s' ∧ (kind = .proceed ∨ kind = .exit) := by
  rcases waiting with forGlobal | forSource
  · rcases inv.globals.progress positive forGlobal with ⟨j, t, member, done⟩ | ⟨j, holds⟩
    · obtain ⟨s', taken⟩ := inv.globalWaiter member done
      exact ⟨j, .proceed, s', taken, Or.inl rfl⟩
    · cases phase : s.phase j with
      | between =>
          obtain ⟨sem, found⟩ := inv.opened j (by rw [phase]; nofun)
          cases locked : sem.locked with
          | true => exact ⟨j, .proceed, _, .queueSource s j sem phase found locked, Or.inl rfl⟩
          | false => exact ⟨j, .proceed, _, .takeSource s j sem phase found locked, Or.inl rfl⟩
      | waitingSource => exact inv.sourceProgress phase
      | inside =>
          obtain ⟨sem, found⟩ := inv.opened j (by rw [phase]; nofun)
          exact ⟨j, .exit, _, .exit s j sem .returned phase found, Or.inr rfl⟩
      | _ =>
          rw [phase] at holds
          cases holds
  · have phase : s.phase i = .waitingSource := by
      cases phase : s.phase i <;> rw [phase] at forSource <;> first | rfl | cases forSource
    exact inv.sourceProgress phase

end steps

/-- On every runner no more calls are inside than the global limit and the limit of their source
allow, a step of a call moves exactly the permits that the call takes or gives back, and where a
call waits, some call goes on by itself or is inside and may leave. -/
theorem execute_concurrency (calls : ι → ExecuteCall) {maxConcurrent : Nat}
    (positive : 1 ≤ maxConcurrent) {s : RunnerState ι}
    (run : RunnerReaches calls (.init maxConcurrent) s) :
    (∀ group : List ι, group.Nodup → (∀ i ∈ group, s.phase i = .inside) →
      group.length ≤ maxConcurrent) ∧
    (∀ (sourceId : Str) (group : List ι), group.Nodup → group ≠ [] →
      (∀ i ∈ group, s.phase i = .inside ∧ (calls i).sourceId = sourceId) →
      ∃ first, s.firstUse calls sourceId = some first ∧
        (group.length : Int) ≤ max 1 (calls first).maxParallelism) ∧
    (∀ i kind s', RunnerStep calls s i kind s' →
      s'.globals.free + (s'.phase i).holdsGlobal.toNat =
          s.globals.free + (s.phase i).holdsGlobal.toNat ∧
        ∀ sourceId sem, s.perSource sourceId = some sem →
          ∃ sem', s'.perSource sourceId = some sem' ∧
            sem'.free + (decide ((calls i).sourceId = sourceId) && (s'.phase i).holdsSource).toNat =
              sem.free + (decide ((calls i).sourceId = sourceId) &&
                (s.phase i).holdsSource).toNat) ∧
    ∀ i, (s.phase i).waitsGlobal = true ∨ (s.phase i).waitsSource = true →
      ∃ j kind s', RunnerStep calls s j kind s' ∧ (kind = .proceed ∨ kind = .exit) := by
  have inv := RunnerState.Limited.reaches run
  refine ⟨?_, ?_, fun _ _ _ taken => taken.balance inv, fun _ waiting => inv.progress positive waiting⟩
  · intro group distinct inside
    refine inv.globals.length_le distinct ?_
    intro j member
    rw [inside j member]
    rfl
  · intro sourceId group distinct nonempty inside
    obtain ⟨i, member⟩ := List.exists_mem_of_ne_nil group nonempty
    obtain ⟨phase, rfl⟩ := inside i member
    obtain ⟨sem, found⟩ := inv.opened i (by rw [phase]; nofun)
    obtain ⟨first, used, serves⟩ := inv.sources _ sem found
    refine ⟨first, used, ?_⟩
    have bounded := serves.length_le distinct (by
      intro j member
      obtain ⟨inside', same⟩ := inside j member
      exact ⟨same, by rw [inside']; rfl⟩)
    omega

/-- Two calls of one source where one call may run at a time: the second waits for the first. -/
theorem execute_concurrency_waiting :
    ∃ s : RunnerState Bool,
      RunnerReaches (fun _ => ⟨"feed".toList, 2⟩) (.init 1) s ∧ s.phase false = .inside ∧
        s.phase true = .waitingGlobal ∧
        ∃ j kind s', RunnerStep (fun _ => ⟨"feed".toList, 2⟩) s j kind s' ∧
          (kind = .proceed ∨ kind = .exit) := by
  let calls : Bool → ExecuteCall := fun _ => ⟨"feed".toList, 2⟩
  have started : RunnerReaches calls (.init 1) _ := .single ⟨false, .start, .start _ false rfl⟩
  have admitted := started.tail ⟨false, .proceed, .takeGlobal _ false rfl rfl⟩
  have entered := admitted.tail ⟨false, .proceed, .takeSource _ false _ rfl rfl rfl⟩
  have second := entered.tail ⟨true, .start, .start _ true rfl⟩
  have waiting := second.tail ⟨true, .proceed, .queueGlobal _ true rfl rfl⟩
  have limits := execute_concurrency calls (le_refl 1) waiting
  exact ⟨_, waiting, rfl, rfl, limits.2.2.2 true (Or.inl rfl)⟩

end Cti
