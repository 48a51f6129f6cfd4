import Cti.HttpBase
import Cti.Watermark

set_option autoImplicit false

/- What a run leaves in the watermark of its context, for the HTTP sources. -/
namespace Cti

open Py (Str)
open TaskNet (Net Status TaskStep)

variable {S : Type}

/-- A source with an HTTP connector; the connector of its pipeline is still to be put in. -/
structure HttpSource (S : Type) where
  codecs : Codecs
  defaultContentType : Str
  config : HttpConnectorConfig
  spec : PipelineSpec S

variable (R : Runtime) (source : HttpSource S) (upstream : Upstream)

def HttpSource.pipeline : PipelineSpec S :=
  { source.spec with
    connector :=
      httpConnector R source.codecs source.defaultContentType source.config S upstream }

def HttpSource.fetch (watermark : Dict) : Except Failure (Option RawPayload × Dict) :=
  httpFetch R source.codecs source.defaultContentType source.config upstream watermark

/-- The watermark and the payloads of a run whose fetch has got its answer. -/
def HttpSource.answered (watermark : Dict) : Dict × List RawPayload :=
  match source.fetch R upstream watermark with
  | .ok (payload, watermark) => (watermark, payload.toList)
  | .error _ => (watermark, [])

theorem HttpSource.answered_ok {watermark watermark' : Dict} {payload : Option RawPayload}
    (fetched : source.fetch R upstream watermark = .ok (payload, watermark')) :
    source.answered R upstream watermark = (watermark', payload.toList) := by
  unfold HttpSource.answered
  rw [fetched]

theorem HttpSource.answered_error {watermark : Dict} {failure : Failure}
    (failed : source.fetch R upstream watermark = .error failure) :
    source.answered R upstream watermark = (watermark, []) := by
  unfold HttpSource.answered
  rw [failed]

/-- The generator of the connector is past its only request. -/
def Spent : Status (FetchPc S Bool) Failure → Prop
  | .created => False
  | .running (.pulling fresh) => fresh = false
  | .running (.archiving _ _ fresh) => fresh = false
  | .running (.putting _ fresh) => fresh = false
  | _ => True

section run

variable (clock : Clock) (ctx : RunContext) (env : S)

abbrev HttpSource.net : Net (World S) Failure :=
  pipelineNet R (source.pipeline R upstream) clock ctx

/-- The request has not been sent. -/
structure Quiet (s : (source.net R upstream clock ctx).State) : Prop where
  idle : Net.Idle s
  world : s.world = World.fresh ctx env
  fetch : s.task 0 = ⟨.created, false⟩ ∨ s.task 0 = ⟨.running (.pulling true), false⟩

/-- The request has been answered, and the context shows it. -/
structure Answered (s : (source.net R upstream clock ctx).State) : Prop where
  watermark : s.world.ctx.watermark = (source.answered R upstream ctx.watermark).1
  fetched : s.world.fetched = (source.answered R upstream ctx.watermark).2
  spent : Spent (s.task 0).status

variable {R source upstream clock ctx env}

theorem spent_leave {γ : Type} (rule : TaskNet.CloseRule) (exit : TaskNet.Exit Failure)
    (q : TaskNet.Channel γ) : Spent (rule.leave exit q : Status (FetchPc S Bool) Failure) := by
  rcases TaskNet.CloseRule.leave_cases (FetchPc S Bool) rule exit q with same | ⟨_, same⟩
  · rw [same]
    trivial
  · rw [same]
    trivial

theorem spent_fetchNext (archive : Option (Plugin.RawArchive S)) (payload : RawPayload) :
    Spent (.running (fetchNext archive payload false)) := by
  cases archive <;> rfl

/-- Every stage after fetch waits for its input first. -/
theorem stages_wait (spec : PipelineSpec S) (i : Nat) (positive : 0 < i) (inside : i < 7) :
    ∃ next, (stageCode R spec clock ctx i).act (stageCode R spec clock ctx i).start =
      .get next := by
  match i, positive, inside with
  | 1, _, _ => exact ⟨_, rfl⟩
  | 2, _, _ => exact ⟨_, rfl⟩
  | 3, _, _ => exact ⟨_, rfl⟩
  | 4, _, _ => exact ⟨_, rfl⟩
  | 5, _, _ => exact ⟨_, rfl⟩
  | 6, _, _ =>
      simp only [stageCode, runPublish]
      split
      · exact ⟨_, rfl⟩
      · exact ⟨_, rfl⟩

theorem Quiet.step {s t : (source.net R upstream clock ctx).State} {label : Net.StepLabel Failure}
    (quiet : Quiet R source upstream clock ctx env s)
    (step : (source.net R upstream clock ctx).Step s label t) :
    Quiet R source upstream clock ctx env t ∨ Answered R source upstream clock ctx t := by
  rcases quiet.idle.step step (fun i => stages_wait (source.pipeline R upstream) i) with
    ⟨label, v, taken, rfl⟩ | ⟨idle, same, world⟩
  · have fetch := quiet.fetch
    have world : (s.view 0).world = World.fresh ctx env := quiet.world
    change (s.view 0).task = _ ∨ (s.view 0).task = _ at fetch
    have first : ∀ {pc : FetchPc S Bool}, (s.view 0).task = ⟨.running pc, false⟩ →
        pc = .pulling true := by
      intro pc now
      rw [now] at fetch
      rcases fetch with same | same
      · cases same
      · cases same
        rfl
    cases taken with
    | start now =>
        refine Or.inl ⟨quiet.idle.write rfl rfl rfl (fun positive => absurd positive (by decide)),
          quiet.world, Or.inr ?_⟩
        exact Net.State.write_task_self s 0 _
    | get pc next item rest now act head =>
        cases first now
        cases act
    | put pc next item now act room =>
        cases first now
        cases act
    | call pc next returns raises world' now act result =>
        cases first now
        cases act
        obtain ⟨answer, ctx', env', ⟨payload, watermark, fetched, rfl, same⟩, shape⟩ := result
        rw [world] at fetched same shape
        cases same
        have answered : source.answered R upstream ctx.watermark = (watermark, payload.toList) :=
          source.answered_ok R upstream fetched
        cases payload with
        | none =>
            obtain ⟨rfl, rfl⟩ := shape
            refine Or.inr ⟨by rw [answered]; rfl, by rw [answered]; rfl, ?_⟩
            rw [Net.State.write_task_self]
            trivial
        | some payload =>
            obtain ⟨rfl, rfl⟩ := shape
            refine Or.inr ⟨by rw [answered]; rfl, by rw [answered]; rfl, ?_⟩
            rw [Net.State.write_task_self]
            exact spent_fetchNext _ payload
    | raise pc returns raises error world' now act result =>
        cases first now
        cases act
        obtain ⟨ctx', env', ⟨_, failed, same⟩, rfl⟩ := result
        rw [world] at failed same
        cases same
        have answered : source.answered R upstream ctx.watermark = (ctx.watermark, []) :=
          source.answered_error R upstream failed
        refine Or.inr ⟨by rw [answered]; rfl, ?_, ?_⟩
        · rw [answered]
          change (s.view 0).world.fetched = []
          rw [world]
          rfl
        · rw [Net.State.write_task_self]
          dsimp only
          exact spent_leave _ _ _
    | ret pc now act =>
        cases first now
        cases act
    | close exit now room =>
        rw [now] at fetch
        rcases fetch with same | same <;> cases same
    | cancelCreated now =>
        rw [now] at fetch
        rcases fetch with same | same <;> cases same
    | cancelRunning pc now =>
        rw [now] at fetch
        rcases fetch with same | same <;> cases same
    | cancelClosing exit now =>
        rw [now] at fetch
        rcases fetch with same | same <;> cases same
  · exact Or.inl ⟨idle, world.trans quiet.world, same.symm ▸ quiet.fetch⟩

theorem Answered.write {s : (source.net R upstream clock ctx).State}
    (answered : Answered R source upstream clock ctx s)
    {v : TaskNet.View (World S) Failure ((source.net R upstream clock ctx).Item 0)
      ((source.net R upstream clock ctx).Item 1) ((source.net R upstream clock ctx).code 0).Pc}
    (watermark : v.world.ctx.watermark = s.world.ctx.watermark)
    (fetched : v.world.fetched = s.world.fetched) (spent : Spent v.task.status) :
    Answered R source upstream clock ctx (s.write 0 v) where
  watermark := watermark.trans answered.watermark
  fetched := fetched.trans answered.fetched
  spent := by
    rw [Net.State.write_task_self]
    exact spent

theorem Answered.step {s t : (source.net R upstream clock ctx).State}
    {label : Net.StepLabel Failure} (answered : Answered R source upstream clock ctx s)
    (step : (source.net R upstream clock ctx).Step s label t) :
    Answered R source upstream clock ctx t := by
  cases step with
  | abort fresh failed => exact ⟨answered.watermark, answered.fetched, answered.spent⟩
  | task i label v inside step =>
      by_cases first : i = 0
      · subst first
        have spent : Spent (s.view 0).task.status := answered.spent
        cases step with
        | start now =>
            rw [now] at spent
            exact spent.elim
        | get pc next item rest now act head =>
            change FetchPc S Bool at pc
            cases pc <;> cases act
        | put pc next item now act room =>
            rw [now] at spent
            refine answered.write rfl rfl ?_
            change FetchPc S Bool at pc
            cases pc <;> cases act
            exact spent
        | call pc next returns raises world' now act result =>
            rw [now] at spent
            change FetchPc S Bool at pc
            cases pc with
            | pulling fresh =>
                cases act
                cases (show fresh = false from spent)
                obtain ⟨answer, ctx', env', ⟨rfl, same⟩, rfl, rfl⟩ := result
                cases same
                exact answered.write rfl rfl trivial
            | archiving archive payload fresh =>
                cases act
                obtain ⟨uri, env', _, rfl, rfl⟩ := result
                exact answered.write rfl rfl spent
            | putting payload fresh => cases act
            | done => cases act
        | raise pc returns raises error world' now act result =>
            rw [now] at spent
            change FetchPc S Bool at pc
            cases pc with
            | pulling fresh =>
                cases act
                cases (show fresh = false from spent)
                obtain ⟨ctx', env', ⟨fresh, _⟩, _⟩ := result
                cases fresh
            | archiving archive payload fresh =>
                cases act
                obtain ⟨env', _, rfl⟩ := result
                exact answered.write rfl rfl (spent_leave .onReturn (.raised error) (s.view 0).output)
            | putting payload fresh => cases act
            | done => cases act
        | ret pc now act => exact answered.write rfl rfl (spent_leave _ _ _)
        | close exit now room => exact answered.write rfl rfl trivial
        | cancelCreated now => exact answered.write rfl rfl trivial
        | cancelRunning pc now =>
            exact answered.write rfl rfl (spent_leave .onReturn .cancelled (s.view 0).output)
        | cancelClosing exit now => exact answered.write rfl rfl trivial
      · have kept := step.keeps
          (stage_keeps R (source.pipeline R upstream) clock ctx (Nat.pos_of_ne_zero first))
          (fun _ => ⟨rfl, rfl, fun _ => rfl⟩)
        have other : (0 : Nat) ≠ i := fun same => first same.symm
        refine ⟨?_, kept.2.1.trans answered.fetched, ?_⟩
        · change v.world.ctx.watermark = _
          rw [kept.1]
          exact answered.watermark
        · rw [Net.State.write_task_of_ne s other]
          exact answered.spent

/-- The request is either still to be sent or answered. -/
theorem quiet_or_answered {s : (source.net R upstream clock ctx).State} {allowed}
    (run : (source.net R upstream clock ctx).Reaches allowed
      ((source.net R upstream clock ctx).init (World.fresh ctx env)) s) :
    Quiet R source upstream clock ctx env s ∨ Answered R source upstream clock ctx s := by
  induction run with
  | refl => exact Or.inl ⟨Net.init_idle _, rfl, Or.inl rfl⟩
  | tail _ last ih =>
      obtain ⟨label, _, step⟩ := last
      rcases ih with quiet | answered
      · exact quiet.step step
      · exact Or.inr (answered.step step)

theorem ended_answered {s : (source.net R upstream clock ctx).State} {allowed}
    (run : (source.net R upstream clock ctx).Reaches allowed
      ((source.net R upstream clock ctx).init (World.fresh ctx env)) s)
    (ended : (source.net R upstream clock ctx).Ended s) :
    Answered R source upstream clock ctx s := by
  rcases quiet_or_answered run with quiet | answered
  · obtain ⟨exit, finished⟩ := ended 0 (show 0 < 7 by decide)
    rcases quiet.fetch with same | same
    · rw [same] at finished
      cases finished
    · rw [same] at finished
      cases finished
  · exact answered

end run

section calls

/-- A call of `run_with_outcome` that has returned or raised. -/
structure HttpCall where
  upstream : Upstream
  attempt : Attempt R (source.pipeline R upstream)
  reached : attempt.Reached R
  outcome : Except ExcTree RunResult
  settled : (netSystem R (source.pipeline R upstream)).Outcome attempt outcome
  started : Int
  finished : Int

variable {R source}

def HttpCall.before (call : HttpCall R source) : RunContext := call.attempt.ctx

def HttpCall.after (call : HttpCall R source) : RunContext := call.attempt.state.world.ctx

def HttpCall.result (call : HttpCall R source) : Except ExcTree RunResult :=
  runWithOutcome call.after call.started call.finished call.outcome

def HttpCall.Succeeded (call : HttpCall R source) : Prop :=
  ∃ result, call.result = .ok result ∧ result.state = .success

/-- The answer to the request of the call passes all the checks of the fetch. -/
def HttpCall.Answers (call : HttpCall R source) (response : Response) : Prop :=
  Accepted R source.codecs source.config call.upstream call.before.watermark response

/-- Whatever the call fetches carries the stamps that are stored already. -/
def HttpCall.Unmoved (call : HttpCall R source) : Prop :=
  ∀ response, call.Answers response → Stamped call.before.watermark response

/-- Everything that the payloads of the call come to has been published. -/
def HttpCall.Committed (call : HttpCall R source) (parse : RawPayload → List Record)
    (enrich : List (Indicator → Option Indicator)) : Prop :=
  call.attempt.state.world.published.flatten =
    sequentialRun R source.spec.normalize call.attempt.clock call.before parse enrich
      call.attempt.state.world.fetched

/-- Calls one after the other on one context. -/
def OnOneContext (calls : List (HttpCall R source)) : Prop :=
  calls.IsChain fun call next => next.before = call.after

/-- A call either stamps the watermark with its response, whose payload it has fetched, or
leaves the watermark alone. -/
theorem HttpCall.after_cases (call : HttpCall R source) :
    (∃ response body, call.Answers response ∧
      call.after.watermark = stamp call.before.watermark response ∧
      call.attempt.state.world.fetched = [responsePayload source.defaultContentType source.config
        call.upstream response body]) ∨
      (∀ response, ¬ call.Answers response) ∧ call.after.watermark = call.before.watermark := by
  obtain ⟨env, run⟩ := call.reached
  have answered := ended_answered run call.settled.1
  have watermark : call.after.watermark =
      (source.answered R call.upstream call.before.watermark).1 := answered.watermark
  have fetched : call.attempt.state.world.fetched =
      (source.answered R call.upstream call.before.watermark).2 := answered.fetched
  unfold HttpSource.answered HttpSource.fetch at watermark fetched
  rcases httpFetch_cases R source.codecs source.defaultContentType source.config call.upstream
      call.before.watermark with ⟨response, body, accepted, same⟩ | ⟨none, same | ⟨failure, same⟩⟩
  · rw [same] at watermark fetched
    exact Or.inl ⟨response, body, accepted, watermark, fetched⟩
  · rw [same] at watermark
    exact Or.inr ⟨none, watermark⟩
  · rw [same] at watermark
    exact Or.inr ⟨none, watermark⟩

theorem HttpCall.unmoved_iff (call : HttpCall R source) :
    SameDict call.after.watermark call.before.watermark ↔ call.Unmoved := by
  rcases call.after_cases with ⟨response, body, answers, watermark, _⟩ | ⟨none, watermark⟩
  · rw [watermark, stamp_same_iff]
    constructor
    · intro stamped response' answers'
      have same := answers.2.1.symm.trans answers'.2.1
      cases same
      exact stamped
    · intro unmoved
      exact unmoved response answers
  · rw [watermark]
    exact iff_of_true (fun _ => rfl) fun response answers => absurd answers (none response)

/-- The plugins compute the same functions whatever the connector. -/
def Computes.pipeline {parse : RawPayload → List Record}
    {enrich : List (Indicator → Option Indicator)} (computes : Computes source.spec parse enrich)
    (upstream : Upstream) : Computes (source.pipeline R upstream) parse enrich where
  left := computes.left
  left_parse := computes.left_parse
  left_some := computes.left_some
  left_none := computes.left_none
  enrich_length := computes.enrich_length
  enrich_returns := computes.enrich_returns

variable {parse : RawPayload → List Record} {enrich : List (Indicator → Option Indicator)}

theorem HttpCall.Succeeded.committed {call : HttpCall R source} (succeeded : call.Succeeded)
    (computes : Computes source.spec parse enrich) : call.Committed parse enrich := by
  obtain ⟨result, returned, success⟩ := succeeded
  have settled := call.settled
  rcases runWithOutcome_ok returned with same | ⟨_, failed, _⟩
  · rw [same] at settled
    obtain ⟨env, run⟩ := call.reached
    exact outcome_published (computes.pipeline call.upstream) run settled
  · exact absurd success failed

/-- After calls of which each succeeds or finds nothing new, the watermark is the one before
them or carries the stamps of a response whose records are all published. -/
theorem calls_backed (computes : Computes source.spec parse enrich)
    (calls : List (HttpCall R source)) (shared : OnOneContext calls)
    (kept : ∀ call ∈ calls, call.Succeeded ∨ call.Unmoved) :
    ∀ first ∈ calls.head?, ∀ last ∈ calls.getLast?,
      SameDict last.after.watermark first.before.watermark ∨
        ∃ call ∈ calls, call.Succeeded ∧ call.Committed parse enrich ∧ ∃ response body,
          call.Answers response ∧ Stamped last.after.watermark response ∧
          call.attempt.state.world.fetched = [responsePayload source.defaultContentType
            source.config call.upstream response body] := by
  induction calls with
  | nil =>
      intro first member
      cases member
  | cons call calls ih =>
      intro first head last final
      cases head
      have effect : SameDict call.after.watermark call.before.watermark ∨ call.Succeeded ∧
          ∃ response body, call.Answers response ∧ Stamped call.after.watermark response ∧
            call.attempt.state.world.fetched = [responsePayload source.defaultContentType
              source.config call.upstream response body] := by
        rcases kept call (by simp) with succeeded | unmoved
        · rcases call.after_cases with ⟨response, body, answers, watermark, fetched⟩ | ⟨_, watermark⟩
          · refine Or.inr ⟨succeeded, response, body, answers, ?_, fetched⟩
            rw [watermark]
            exact stamp_stamped _ _
          · rw [watermark]
            exact Or.inl fun _ => rfl
        · exact Or.inl (call.unmoved_iff.mpr unmoved)
      have own : SameDict last.after.watermark call.after.watermark →
          SameDict last.after.watermark call.before.watermark ∨
            ∃ call' ∈ call :: calls, call'.Succeeded ∧ call'.Committed parse enrich ∧
              ∃ response body, call'.Answers response ∧ Stamped last.after.watermark response ∧
                call'.attempt.state.world.fetched = [responsePayload source.defaultContentType
                  source.config call'.upstream response body] := by
        intro same
        rcases effect with unmoved | ⟨succeeded, response, body, answers, stamped, fetched⟩
        · exact Or.inl fun key => (same key).trans (unmoved key)
        · exact Or.inr ⟨call, by simp, succeeded, succeeded.committed computes, response, body,
            answers, stamped.congr same, fetched⟩
      cases calls with
      | nil =>
          cases final
          exact own fun _ => rfl
      | cons next rest =>
          have chain := List.isChain_cons_cons.mp shared
          have rest := ih chain.2 (fun call' member => kept call' (by simp [member])) next rfl last
            (by simpa using final)
          rcases rest with same | ⟨call', member, backed⟩
          · rw [chain.1] at same
            exact own same
          · exact Or.inr ⟨call', by simp [member], backed⟩

/-- A call that does not succeed leaves the watermark as it was exactly when what it fetched
carries the stamps that are stored already. When every failing call of a sequence on one
context is such a call, the stamps that end up in the watermark are the ones from before the
sequence or those of a response all of whose surviving records are published. -/
theorem fetch_state_kept_iff (computes : Computes source.spec parse enrich) :
    (∀ call : HttpCall R source, ¬ call.Succeeded →
      (SameDict call.after.watermark call.before.watermark ↔ call.Unmoved)) ∧
    ∀ calls : List (HttpCall R source), OnOneContext calls →
      (∀ call ∈ calls, ¬ call.Succeeded → call.Unmoved) →
      ∀ first ∈ calls.head?, ∀ last ∈ calls.getLast?, last.Succeeded →
        SameDict last.after.watermark first.before.watermark ∨
          ∃ call ∈ calls, call.Succeeded ∧ call.Committed parse enrich ∧ ∃ response body,
            call.Answers response ∧ Stamped last.after.watermark response ∧
            call.attempt.state.world.fetched = [responsePayload source.defaultContentType
              source.config call.upstream response body] := by
  constructor
  · intro call _
    exact call.unmoved_iff
  · intro calls shared kept first head last final _
    refine calls_backed computes calls shared ?_ first head last final
    intro call member
    by_cases succeeded : call.Succeeded
    · exact Or.inl succeeded
    · exact Or.inr (kept call member succeeded)

end calls

section counterexample

/-- A parser that rejects every payload. -/
def Plugin.Parser.rejecting (failure : Failure) : Plugin.Parser S where
  Gen := Unit
  parse _ := ()
  resume _ _ := .fails failure

def plainConfig : HttpConnectorConfig where
  url := "https://feed.example/list".toList
  method := "GET".toList
  headers := []
  authBearer := none
  authBasic := none
  maxBytes := 1000
  decompress := none
  zipMember := none
  allowHttp := false
  followRedirects := true

/-- An HTTP source whose parser rejects what is fetched. -/
def rejectingSource (failure : Failure) : HttpSource Unit where
  codecs := ⟨.ok, fun _ => .ok [], fun content _ => .ok content⟩
  defaultContentType := "text/plain".toList
  config := plainConfig
  spec := { strictSpec with parser := .rejecting failure }

def taggedResponse : Response := ⟨200, [("ETag".toList, "v1".toList)], []⟩

def taggedUpstream : Upstream := ⟨fun _ _ => .ok (), fun _ => .ok taggedResponse, 0⟩

abbrev rejectingNet (failure : Failure) : Net (World Unit) Failure :=
  (rejectingSource failure).net asciiRuntime taggedUpstream zeroClock feedContext

abbrev rejectingStart (failure : Failure) : (rejectingNet failure).State :=
  (rejectingNet failure).init (World.fresh feedContext ())

theorem rejecting_spoils (failure : Failure) :
    ∃ u, (rejectingNet failure).Reaches (fun _ _ => True) (rejectingStart failure) u ∧
      (rejectingNet failure).Ended u ∧ u.errors = [failure] ∧
      u.world.ctx.watermark = stamp feedContext.watermark taggedResponse := by
  suffices leads : (rejectingNet failure).Leads (fun _ _ => True) (rejectingStart failure) (fun u =>
      (rejectingNet failure).Ended u ∧ u.errors = [failure] ∧
        u.world.ctx.watermark = stamp feedContext.watermark taggedResponse)
      (rejectingStart failure) from leads .refl
  refine .step (.task _ 0 _ _ (Nat.le_of_ble_eq_true rfl) (.start _ rfl)) trivial ?_
  refine .step (.task _ 1 _ _ (Nat.le_of_ble_eq_true rfl) (.start _ rfl)) trivial ?_
  refine .step (.task _ 2 _ _ (Nat.le_of_ble_eq_true rfl) (.start _ rfl)) trivial ?_
  refine .step (.task _ 3 _ _ (Nat.le_of_ble_eq_true rfl) (.start _ rfl)) trivial ?_
  refine .step (.task _ 4 _ _ (Nat.le_of_ble_eq_true rfl) (.start _ rfl)) trivial ?_
  refine .step (.task _ 5 _ _ (Nat.le_of_ble_eq_true rfl) (.start _ rfl)) trivial ?_
  refine .step (.task _ 6 _ _ (Nat.le_of_ble_eq_true rfl) (.start _ rfl)) trivial ?_
  refine .step (.task _ 0 _ _ (Nat.le_of_ble_eq_true rfl) (.call _ _ _ _ _ _ rfl rfl
    ⟨some _, _, _, ⟨some _, _, rfl, rfl, rfl⟩, rfl, rfl⟩)) trivial ?_
  refine .step (.task _ 0 _ _ (Nat.le_of_ble_eq_true rfl) (.put _ _ _ _ rfl rfl
    (TaskNet.Channel.not_full_nil rfl))) trivial ?_
  refine .step (.task _ 1 _ _ (Nat.le_of_ble_eq_true rfl) (.get _ _ _ _ _ rfl rfl rfl)) trivial ?_
  refine .step (.task _ 1 _ _ (Nat.le_of_ble_eq_true rfl) (.raise _ _ _ _ _ _ rfl rfl
    ⟨_, ⟨rfl, rfl⟩, rfl⟩)) trivial ?_
  refine .step (.task _ 1 _ _ (Nat.le_of_ble_eq_true rfl) (.close _ _ rfl
    (TaskNet.Channel.not_full_nil rfl))) trivial ?_
  refine .step (.abort _ rfl nofun) trivial ?_
  refine .step (.task _ 0 _ _ (Nat.le_of_ble_eq_true rfl) (.cancelRunning _ _ rfl)) trivial ?_
  refine .step (.task _ 2 _ _ (Nat.le_of_ble_eq_true rfl) (.cancelRunning _ _ rfl)) trivial ?_
  refine .step (.task _ 2 _ _ (Nat.le_of_ble_eq_true rfl) (.close _ _ rfl
    (TaskNet.Channel.not_full_nil rfl))) trivial ?_
  refine .step (.task _ 3 _ _ (Nat.le_of_ble_eq_true rfl) (.cancelRunning _ _ rfl)) trivial ?_
  refine .step (.task _ 3 _ _ (Nat.le_of_ble_eq_true rfl) (.close _ _ rfl
    (TaskNet.Channel.not_full_nil rfl))) trivial ?_
  refine .step (.task _ 4 _ _ (Nat.le_of_ble_eq_true rfl) (.cancelRunning _ _ rfl)) trivial ?_
  refine .step (.task _ 4 _ _ (Nat.le_of_ble_eq_true rfl) (.close _ _ rfl
    (TaskNet.Channel.not_full_nil rfl))) trivial ?_
  refine .step (.task _ 5 _ _ (Nat.le_of_ble_eq_true rfl) (.cancelRunning _ _ rfl)) trivial ?_
  refine .step (.task _ 5 _ _ (Nat.le_of_ble_eq_true rfl) (.close _ _ rfl
    (TaskNet.Channel.not_full_nil rfl))) trivial ?_
  refine .step (.task _ 6 _ _ (Nat.le_of_ble_eq_true rfl) (.cancelRunning _ _ rfl)) trivial ?_
  intro run
  have cancelled : ∀ {s : (rejectingNet failure).State}, s.errors = [failure] →
      s.cancelAll.errors = [failure] := id
  refine ⟨_, run, ?_, ?_, rfl⟩
  rotate_left
  · iterate 10 refine (Net.State.write_errors _ _ rfl).trans ?_
    apply cancelled
    refine congrArg (· ++ [failure]) (?_ : _ = ([] : List Failure))
    iterate 11 refine (Net.State.write_errors _ _ rfl).trans ?_
    rfl
  intro i inside
  match i, inside with
  | 0, _ => exact ⟨_, rfl⟩
  | 1, _ => exact ⟨_, rfl⟩
  | 2, _ => exact ⟨_, rfl⟩
  | 3, _ => exact ⟨_, rfl⟩
  | 4, _ => exact ⟨_, rfl⟩
  | 5, _ => exact ⟨_, rfl⟩
  | 6, _ => exact ⟨_, rfl⟩

def badPayload : Failure := .leaf (ClassName.permanentError.exc "bad payload".toList) rfl

/-- The call returns FAILED, and the ETag of the rejected response is in the watermark. -/
theorem fetch_state_spoiled :
    ∃ call : HttpCall asciiRuntime (rejectingSource badPayload),
      (∃ result, call.result = .ok result ∧ result.state = .failed) ∧
      call.before.watermark.get "etag".toList = none ∧
      call.after.watermark.get "etag".toList = some (.str "v1".toList) ∧
      ¬ SameDict call.after.watermark call.before.watermark := by
  obtain ⟨u, run, ended, errors, watermark⟩ := rejecting_spoils badPayload
  let call : HttpCall asciiRuntime (rejectingSource badPayload) :=
    { upstream := taggedUpstream
      attempt := ⟨(zeroClock, feedContext), u⟩
      reached := ⟨(), run⟩
      outcome := pipelineResult 0 0 u
      settled := ⟨ended, 0, 0, rfl⟩
      started := 0
      finished := 0 }
  have after : call.after.watermark = stamp feedContext.watermark taggedResponse := watermark
  have before : call.before.watermark.get "etag".toList = none := rfl
  have stamped : call.after.watermark.get "etag".toList = some (.str "v1".toList) := by
    rw [after]
    rfl
  refine ⟨call, ?_, before, stamped, ?_⟩
  · change ∃ result, runWithOutcome call.after 0 0 (pipelineResult 0 0 u) = .ok result ∧
      result.state = .failed
    unfold pipelineResult
    rw [errors]
    exact ⟨_, rfl, rfl⟩
  · intro same
    have changed := same "etag".toList
    rw [before, stamped] at changed
    cases changed

end counterexample

end Cti
