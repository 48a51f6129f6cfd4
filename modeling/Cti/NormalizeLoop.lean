import Cti.Delivery
import Cti.JsonParser

set_option autoImplicit false

/- The loop of the normalize stage over all records, with the errors that it counts. -/
namespace Cti

open Py (Str)

variable (R : Runtime) (cfg : NormalizeConfig) (clock : Clock)

/-- How the loop body ends: it goes on to the next record, puts a candidate into the queue, has
counted an error, or raises. -/
inductive BodyEnd where
  | next
  | put (item : Candidate)
  | counted
  | raised (e : Exc) (counted : Bool)

/-- `_record_to_indicator` of the n-th record. -/
def indicatorResult (n : Nat) (record : Record) : Except Exc (Option Indicator) :=
  recordToIndicator R record cfg (clock.record n).1 (clock.record n).2

/-- The loop body for the n-th record. -/
def loopBody (n : Nat) (record : Record) : BodyEnd :=
  match indicatorResult R cfg clock n record with
  | .ok none => .next
  | .ok (some ind) => .put (ind, record)
  | .error e =>
      if e.isA .valueError || e.isA .permanentError then
        if cfg.skipOnError then .counted else .raised e true
      else .raised e false

/-- What a run of the stage has done: the candidates that it put, what it added to `PARSE_ERRORS`,
and the exception that ended it. -/
structure NormalizeRun where
  emitted : List Candidate
  parseErrors : Nat
  raised : Option Exc

/-- `run_normalize` over the records from the n-th on. -/
def normalizeLoop (n : Nat) : List Record → NormalizeRun
  | [] => ⟨[], 0, none⟩
  | record :: records =>
      match loopBody R cfg clock n record with
      | .next => normalizeLoop (n + 1) records
      | .put item =>
          let rest := normalizeLoop (n + 1) records
          { rest with emitted := item :: rest.emitted }
      | .counted =>
          let rest := normalizeLoop (n + 1) records
          { rest with parseErrors := rest.parseErrors + 1 }
      | .raised e counted => ⟨[], if counted then 1 else 0, some e⟩

variable {R cfg clock} {n : Nat} {record : Record} {records : List Record}

theorem normalizeRecord_error {e : Exc} (failed : indicatorResult R cfg clock n record = .error e) :
    normalizeRecord R record cfg (clock.record n).1 (clock.record n).2 =
      if (e.isA .valueError || e.isA .permanentError) && cfg.skipOnError then .ok none
      else .error e := by
  rw [indicatorResult] at failed
  rw [normalizeRecord, failed]

theorem normalizeRecord_ok {found : Option Indicator}
    (result : indicatorResult R cfg clock n record = .ok found) :
    normalizeRecord R record cfg (clock.record n).1 (clock.record n).2 = .ok found := by
  rw [indicatorResult] at result
  rw [normalizeRecord, result]

theorem normalizeNext_ok {found : Option Indicator}
    (result : normalizeRecord R record cfg (clock.record n).1 (clock.record n).2 = .ok found) :
    normalizeNext R cfg clock n record = match found with
      | some ind => .putting (ind, record) (n + 1)
      | none => .waiting (n + 1) := by
  unfold normalizeNext
  split
  · rename_i ind same
    rw [result] at same
    cases same
    rfl
  · rename_i same
    rw [result] at same
    cases same
    rfl
  · rename_i e same
    rw [result] at same
    cases same

theorem normalizeNext_error {e : Exc}
    (result : normalizeRecord R record cfg (clock.record n).1 (clock.record n).2 = .error e) :
    ∃ exception, normalizeNext R cfg clock n record = .raising (.leaf e exception) (n + 1) := by
  unfold normalizeNext
  split
  · rename_i ind same
    rw [result] at same
    cases same
  · rename_i same
    rw [result] at same
    cases same
  · rename_i e' same
    obtain rfl : e = e' := Except.error.inj (result.symm.trans same)
    exact ⟨normalizeRecord_exceptional R record cfg _ _ e result, rfl⟩

/-- The loop body is the one of the coroutine. -/
theorem normalizeNext_body (R : Runtime) (cfg : NormalizeConfig) (clock : Clock) (n : Nat)
    (record : Record) :
    match loopBody R cfg clock n record with
    | .next | .counted => normalizeNext R cfg clock n record = .waiting (n + 1)
    | .put item => normalizeNext R cfg clock n record = .putting item (n + 1)
    | .raised e _ =>
        ∃ exception, normalizeNext R cfg clock n record = .raising (.leaf e exception) (n + 1) := by
  unfold loopBody
  cases result : indicatorResult R cfg clock n record with
  | ok found =>
      have next := normalizeNext_ok (normalizeRecord_ok result)
      cases found with
      | none => exact next
      | some ind => exact next
  | error e =>
      have same := normalizeRecord_error result
      by_cases caught : (e.isA .valueError || e.isA .permanentError) = true
      · by_cases skip : cfg.skipOnError = true
        · simp only [caught, skip, Bool.and_self, if_true] at same ⊢
          exact normalizeNext_ok same
        · simp only [caught, skip, Bool.and_false, Bool.false_eq_true, if_false, if_true] at same ⊢
          exact normalizeNext_error same
      · simp only [caught, Bool.false_and, Bool.false_eq_true, if_false] at same ⊢
        exact normalizeNext_error same

/-- A record whose confidence is an infinite float, and that gets as far as reading it: it has a
type and a value. -/
def Overflows (R : Runtime) (cfg : NormalizeConfig) (record : Record) : Prop :=
  (∃ t, recordType R record cfg = .ok (some t)) ∧ recordValue record cfg ≠ none ∧
    ∃ negative, fieldValue record cfg.confidenceField = some (.float (.infinite negative))

/-- The error of `int(float("inf"))`. -/
def overflow : Exc := ClassName.overflowError.exc "cannot convert float infinity to integer".toList

/-- The exceptions that the stage catches. -/
def Caught (e : Exc) : Prop := (e.isA .valueError || e.isA .permanentError) = true

theorem caught_value {e : Exc} (raised : e.isA .valueError = true) : Caught e := by
  rw [Caught, raised, Bool.true_or]

theorem caught_permanent {e : Exc} (raised : e.isA .permanentError = true) : Caught e := by
  rw [Caught, raised, Bool.or_true]

theorem overflow_not_caught : ¬ Caught overflow := Bool.false_ne_true

/-- Reading a number fails with an error that is caught, unless the value is infinite. -/
theorem intOf_error {value : Val} {e : Exc} (failed : intOf R R.unicode value = .error e) :
    (e.isA .typeError || e.isA .valueError) = true ∨
      (∃ negative, value = .float (.infinite negative)) ∧ e = overflow := by
  cases value with
  | none => cases failed; exact Or.inl rfl
  | bool b => cases failed
  | int k => cases failed
  | float f =>
      cases f with
      | finite value text => cases failed
      | infinite negative => cases failed; exact Or.inr ⟨⟨negative, rfl⟩, rfl⟩
      | nan => cases failed; exact Or.inl rfl
  | str s =>
      simp only [intOf] at failed
      split at failed
      · cases failed
      · cases failed
        exact Or.inl rfl
  | list items => cases failed; exact Or.inl rfl
  | dict entries => cases failed; exact Or.inl rfl

theorem recordConfidence_error {e : Exc} :
    recordConfidence R record cfg = .error e ↔
      (∃ negative, fieldValue record cfg.confidenceField = some (.float (.infinite negative))) ∧
        e = overflow := by
  unfold recordConfidence
  cases field : fieldValue record cfg.confidenceField with
  | none => simp
  | some value =>
      simp only [Option.some.injEq]
      cases result : intOf R R.unicode value with
      | ok k =>
          refine iff_of_false nofun ?_
          rintro ⟨⟨negative, rfl⟩, _⟩
          cases result
      | error e' =>
          dsimp only
          rcases intOf_error result with caught | ⟨⟨negative, rfl⟩, rfl⟩
          · rw [if_pos caught]
            refine iff_of_false nofun ?_
            rintro ⟨⟨negative, rfl⟩, _⟩
            cases result
            cases caught
          · rw [if_neg (by decide), Except.error.injEq, eq_comm]
            exact (and_iff_right ⟨negative, rfl⟩).symm

/-- What `_record_to_indicator` raises is caught, except for an infinite confidence. -/
theorem indicatorResult_error {e : Exc} (failed : indicatorResult R cfg clock n record = .error e) :
    Caught e ∨ Overflows R cfg record ∧ e = overflow := by
  unfold indicatorResult recordToIndicator at failed
  cases type : recordType R record cfg with
  | error e' =>
      rw [type] at failed
      cases failed
      exact Or.inl (caught_permanent (recordType_raises R record cfg e type))
  | ok t? =>
      rw [type] at failed
      cases t? with
      | none => cases failed
      | some t =>
          cases value : recordValue record cfg with
          | none =>
              simp only [value, bind, Except.bind] at failed
              cases failed
          | some v =>
              simp only [value, bind, Except.bind] at failed
              cases confidence : recordConfidence R record cfg with
              | error e' =>
                  rw [confidence] at failed
                  cases failed
                  obtain ⟨infinite, same⟩ := recordConfidence_error.mp confidence
                  exact Or.inr ⟨⟨⟨t, type⟩, by simp [value], infinite⟩, same⟩
              | ok k =>
                  rw [confidence] at failed
                  dsimp only at failed
                  split at failed
                  · rename_i e' built
                    cases failed
                    exact Or.inl (caught_value (build_raises R _ _ _ e built))
                  · cases failed

theorem indicatorResult_overflows (overflows : Overflows R cfg record) :
    indicatorResult R cfg clock n record = .error overflow := by
  obtain ⟨⟨t, type⟩, value, infinite⟩ := overflows
  obtain ⟨v, some_value⟩ := Option.ne_none_iff_exists'.mp value
  have confidence := recordConfidence_error (R := R).mpr ⟨infinite, rfl⟩
  simp only [indicatorResult, recordToIndicator, type, some_value, confidence, bind, Except.bind]

theorem loopBody_overflows (overflows : Overflows R cfg record) :
    loopBody R cfg clock n record = .raised overflow false := by
  unfold loopBody
  rw [indicatorResult_overflows overflows]
  exact if_neg overflow_not_caught

/-- With `skip_on_error`, only an infinite confidence ends the loop. -/
theorem loopBody_cases (skip : cfg.skipOnError = true) :
    (∃ ind, indicatorResult R cfg clock n record = .ok (some ind) ∧
        loopBody R cfg clock n record = .put (ind, record)) ∨
      (indicatorResult R cfg clock n record = .ok none ∧ loopBody R cfg clock n record = .next) ∨
      ((∃ e, indicatorResult R cfg clock n record = .error e) ∧ ¬ Overflows R cfg record ∧
        loopBody R cfg clock n record = .counted) ∨
      (Overflows R cfg record ∧ loopBody R cfg clock n record = .raised overflow false) := by
  by_cases overflows : Overflows R cfg record
  · exact Or.inr (Or.inr (Or.inr ⟨overflows, loopBody_overflows overflows⟩))
  · unfold loopBody
    cases result : indicatorResult R cfg clock n record with
    | ok found =>
        cases found with
        | none => exact Or.inr (Or.inl ⟨rfl, rfl⟩)
        | some ind => exact Or.inl ⟨ind, rfl, rfl⟩
    | error e =>
        have caught := (indicatorResult_error result).resolve_right fun both => overflows both.1
        refine Or.inr (Or.inr (Or.inl ⟨⟨e, rfl⟩, overflows, ?_⟩))
        exact (if_pos caught).trans (if_pos skip)

/-- The candidates of the records from the n-th on for which there is an indicator. -/
def returned (R : Runtime) (cfg : NormalizeConfig) (clock : Clock) (n : Nat)
    (records : List Record) : List Candidate :=
  (records.zipIdx n).filterMap fun numbered =>
    match indicatorResult R cfg clock numbered.2 numbered.1 with
    | .ok (some ind) => some (ind, numbered.1)
    | _ => none

/-- The number of records from the n-th on that fail. -/
def failures (R : Runtime) (cfg : NormalizeConfig) (clock : Clock) (n : Nat)
    (records : List Record) : Nat :=
  (records.zipIdx n).countP fun numbered =>
    match indicatorResult R cfg clock numbered.2 numbered.1 with
    | .error _ => true
    | .ok _ => false

theorem normalizeLoop_completes (skip : cfg.skipOnError = true)
    (plain : ∀ record ∈ records, ¬ Overflows R cfg record) :
    normalizeLoop R cfg clock n records =
      ⟨returned R cfg clock n records, failures R cfg clock n records, none⟩ := by
  induction records generalizing n with
  | nil => rfl
  | cons record records ih =>
      obtain ⟨here, later⟩ := List.forall_mem_cons.mp plain
      have rest := @ih (n + 1) later
      rw [normalizeLoop, rest]
      unfold returned failures
      rw [List.zipIdx_cons, List.filterMap_cons, List.countP_cons]
      rcases @loopBody_cases R cfg clock n record skip with
        ⟨ind, result, body⟩ | ⟨result, body⟩ | ⟨⟨e, result⟩, _, body⟩ | ⟨overflows, _⟩
      · simp [result, body]
      · simp [result, body]
      · simp [result, body]
      · exact absurd overflows here

theorem normalizeLoop_raises (skip : cfg.skipOnError = true) {record : Record}
    (member : record ∈ records) (overflows : Overflows R cfg record) :
    (normalizeLoop R cfg clock n records).raised = some overflow := by
  induction records generalizing n with
  | nil => cases member
  | cons first records ih =>
      rw [normalizeLoop]
      rcases @loopBody_cases R cfg clock n first skip with
        ⟨ind, _, body⟩ | ⟨_, body⟩ | ⟨_, plain, body⟩ | ⟨_, body⟩
      · rcases List.mem_cons.mp member with rfl | later
        · rw [loopBody_overflows overflows] at body
          cases body
        · rw [body]
          exact ih later
      · rcases List.mem_cons.mp member with rfl | later
        · rw [loopBody_overflows overflows] at body
          cases body
        · rw [body]
          exact ih later
      · rcases List.mem_cons.mp member with rfl | later
        · exact absurd overflows plain
        · rw [body]
          exact ih later
      · rw [body]

/-- The candidates are those that the stage emits as a coroutine. -/
theorem returned_eq (R : Runtime) (cfg : NormalizeConfig) (clock : Clock) (n : Nat)
    (records : List Record) :
    returned R cfg clock n records = normalizedFrom R cfg clock n records := by
  refine List.filterMap_congr fun numbered _ => ?_
  unfold indicatorOf
  cases result : indicatorResult R cfg clock numbered.2 numbered.1 with
  | ok found =>
      rw [normalizeRecord_ok result]
      cases found <;> rfl
  | error e =>
      rw [normalizeRecord_error result]
      by_cases caught : ((e.isA .valueError || e.isA .permanentError) && cfg.skipOnError) = true
      · rw [if_pos caught]
        rfl
      · rw [if_neg caught]
        rfl

/-- The stage goes through all records, emits those for which there is an indicator and counts those
that fail, if and only if no record with a type and a value has an infinite confidence. -/
theorem normalize_survives_iff (R : Runtime) (cfg : NormalizeConfig) (clock : Clock)
    (records : List Record) (skip : cfg.skipOnError = true) :
    normalizeLoop R cfg clock 0 records =
        ⟨returned R cfg clock 0 records, failures R cfg clock 0 records, none⟩ ↔
      ∀ record ∈ records, ¬ Overflows R cfg record := by
  constructor
  · intro completes record member overflows
    have raised := @normalizeLoop_raises R cfg clock 0 records skip record member overflows
    rw [completes] at raised
    cases raised
  · exact normalizeLoop_completes skip

/-- A clock that stands still. -/
def stoppedClock : Clock := ⟨fun _ => (0, 0), fun _ => 0⟩

/-- IPv4 addresses with a score. -/
def scoredConfig : NormalizeConfig :=
  { NormalizeConfig.default with
    indicatorType := some .ipv4, confidenceField := some "score".toList }

theorem normalize_survives_iff_example :
    let records : List Record :=
      [[("value".toList, .str "8.8.8.8".toList), ("score".toList, .none)],
      [("value".toList, .list []), ("score".toList, .float (.infinite true))]]
    normalizeLoop asciiRuntime scoredConfig stoppedClock 0 records =
        ⟨returned asciiRuntime scoredConfig stoppedClock 0 records,
          failures asciiRuntime scoredConfig stoppedClock 0 records, none⟩ ↔
      ∀ record ∈ records, ¬ Overflows asciiRuntime scoredConfig record := by
  exact normalize_survives_iff asciiRuntime scoredConfig stoppedClock _ rfl

/-- A list whose first record has a score that is no JSON, but that `json.loads` reads. -/
def scoredBody : Str :=
  "[\x7b\"value\": \"1.2.3.4\", \"score\": Infinity\x7d, \x7b\"value\": \"8.8.8.8\"\x7d]".toList

def scoredRecords : List Record :=
  [[("value".toList, .str "1.2.3.4".toList), ("score".toList, .float (.infinite false))],
    [("value".toList, .str "8.8.8.8".toList)]]

theorem scoredBody_loads : Json.loads JsonParser.utf8Codecs.parseFloat scoredBody =
    .ok (.list (scoredRecords.map .dict)) := by
  dsimp only [scoredBody, scoredRecords, String.reduceToList, List.map_cons, List.map_nil]
  rfl

theorem scoredBody_parsed : JsonParser.parseSync JsonParser.utf8Codecs .default
    (.ofBody (Py.utf8Encode scoredBody)) = .ok scoredRecords := by
  rw [JsonParser.parseSync, JsonParserConfig.default, RawPayload.ofBody,
    TextCodecs.bytesDecode_utf8]
  dsimp only
  rw [if_neg Bool.false_ne_true, scoredBody_loads]
  rfl

/-- The infinite score ends the stage before it has put the candidate of the next record. -/
theorem infinite_score_raises :
    JsonParser.parseSync JsonParser.utf8Codecs .default
        (.ofBody (Py.utf8Encode scoredBody)) = .ok scoredRecords ∧
      normalizeLoop asciiRuntime scoredConfig stoppedClock 0 scoredRecords =
        ⟨[], 0, some overflow⟩ ∧
      returned asciiRuntime scoredConfig stoppedClock 0 scoredRecords ≠ [] ∧
      normalizeLoop asciiRuntime scoredConfig stoppedClock 0 scoredRecords ≠
        ⟨returned asciiRuntime scoredConfig stoppedClock 0 scoredRecords,
          failures asciiRuntime scoredConfig stoppedClock 0 scoredRecords, none⟩ := by
  have overflows : Overflows asciiRuntime scoredConfig
      [("value".toList, .str "1.2.3.4".toList), ("score".toList, .float (.infinite false))] :=
    ⟨⟨.ipv4, rfl⟩, nofun, ⟨false, rfl⟩⟩
  have raised : normalizeLoop asciiRuntime scoredConfig stoppedClock 0 scoredRecords =
      ⟨[], 0, some overflow⟩ := by
    rw [scoredRecords, normalizeLoop, loopBody_overflows overflows]
    rfl
  have second : ∃ ind, indicatorResult asciiRuntime scoredConfig stoppedClock 1
      [("value".toList, .str "8.8.8.8".toList)] = .ok (some ind) := by
    dsimp only [String.reduceToList, indicatorResult, recordToIndicator]
    exact ⟨_, rfl⟩
  refine ⟨scoredBody_parsed, raised, ?_, ?_⟩
  · obtain ⟨ind, result⟩ := second
    have found : (ind, [("value".toList, .str "8.8.8.8".toList)]) ∈
        returned asciiRuntime scoredConfig stoppedClock 0 scoredRecords := by
      refine List.mem_filterMap.mpr ⟨([("value".toList, .str "8.8.8.8".toList)], 1), ?_, ?_⟩
      · exact List.mem_cons_of_mem _ List.mem_cons_self
      · dsimp only
        rw [result]
    exact List.ne_nil_of_mem found
  · rw [raised]
    intro same
    cases congrArg NormalizeRun.raised same

end Cti
