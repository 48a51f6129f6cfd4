import Cti.Archive
import Cti.DeadLetters
import Cti.Disclosure
import Cti.Ipaddress

set_option autoImplicit false

/- The HTTP API: who may ask for what, what the handlers answer, and what they change. -/
namespace Cti

open Py (Str Unicode)
open Selection (Selects)

/-- An entry of the token file. -/
structure TokenEntry where
  token : Str
  name : Option Str
  scopes : List Str

def validScopes : List Str := ["read".toList, "trigger".toList, "admin".toList]

/-- `out[token] = principal`. -/
def TokenStore.set (store : TokenStore) (token : Str) (principal : Principal) : TokenStore :=
  if store.any fun entry => entry.1 == token then
    store.map fun entry => if entry.1 = token then (token, principal) else entry
  else store ++ [(token, principal)]

/-- The principal that an entry makes. -/
def TokenEntry.principal (entry : TokenEntry) : Principal :=
  ⟨entry.name.getD "anonymous".toList, entry.scopes.filter fun scope => validScopes.contains scope⟩

/-- `TokenStore.load`, of the entries in the file. -/
def TokenStore.load (entries : List TokenEntry) : TokenStore :=
  entries.foldl (fun out entry => out.set entry.token entry.principal) []

section tokens

variable {U : Unicode}

theorem TokenStore.lookup_map (store : TokenStore) (token other : Str) (principal : Principal) :
    (store.map fun entry => if entry.1 = token then (token, principal) else entry).lookup other =
      if other = token then (store.lookup other).map fun _ => principal else store.lookup other := by
  induction store with
  | nil => simp
  | cons entry store ih =>
      obtain ⟨known, old⟩ := entry
      by_cases same : known = token
      · subst same
        by_cases asked : other = known
        · subst asked
          simp
        · have differ : (other == known) = false := by simpa using asked
          simpa [List.lookup_cons, differ, asked] using ih
      · by_cases asked : other = known
        · subst asked
          simp [same]
        · have differ : (other == known) = false := by simpa using asked
          simpa [List.lookup_cons, differ, same] using ih

theorem TokenStore.lookup_set (store : TokenStore) (token other : Str) (principal : Principal) :
    (store.set token principal).lookup other =
      if other = token then some principal else store.lookup other := by
  unfold TokenStore.set
  split
  · rename_i known
    rw [lookup_map]
    by_cases asked : other = token
    · subst asked
      obtain ⟨entry, member, same⟩ := List.any_eq_true.mp known
      have present : store.lookup other ≠ none := by
        intro absent
        have apart := List.lookup_eq_none_iff.mp absent entry member
        rw [beq_iff_eq] at same
        simp [same] at apart
      obtain ⟨old, found⟩ := Option.ne_none_iff_exists'.mp present
      rw [if_pos rfl, if_pos rfl, found]
      rfl
    · rw [if_neg asked, if_neg asked]
  · rename_i unknown
    rw [List.lookup_append]
    by_cases asked : other = token
    · subst asked
      have absent : store.lookup other = none := by
        rw [List.lookup_eq_none_iff]
        intro entry member
        rw [Bool.not_eq_true, List.any_eq_false] at unknown
        have apart := unknown entry member
        simp only [beq_iff_eq] at apart ⊢
        simpa using fun same => apart same.symm
      rw [absent, if_pos rfl]
      simp
    · have differ : (other == token) = false := by simpa using asked
      rw [if_neg asked]
      cases found : store.lookup other <;> simp [List.lookup_cons, differ]

/-- The last entry of a token counts. -/
theorem TokenStore.lookup_load (entries : List TokenEntry) (token : Str) :
    (TokenStore.load entries).lookup token =
      (entries.reverse.find? fun entry => entry.token = token).map TokenEntry.principal := by
  induction entries using List.reverseRecOn with
  | nil => rfl
  | append_singleton entries entry ih =>
      rw [TokenStore.load, List.foldl_append]
      change ((TokenStore.load entries).set entry.token entry.principal).lookup token = _
      rw [lookup_set, ih, List.reverse_append]
      by_cases asked : token = entry.token
      · subst asked
        simp
      · have differ : ¬ entry.token = token := fun same => asked same.symm
        simp [asked, differ]

theorem TokenEntry.principal_has (entry : TokenEntry) {scope : Str} (valid : scope ∈ validScopes) :
    entry.principal.has scope = true ↔ scope ∈ entry.scopes ∨ "admin".toList ∈ entry.scopes := by
  have admin : "admin".toList ∈ validScopes := by decide
  simp only [TokenEntry.principal, Principal.has, Bool.or_eq_true, List.contains_iff_mem,
    List.mem_filter]
  tauto

/-- A client may do what a scope is for. -/
def TokenStore.Allows (U : Unicode) (store : TokenStore) (authorization : Option Str)
    (scope : Str) : Prop :=
  ∃ principal, store.authenticate U authorization = some principal ∧ principal.has scope = true

/-- The client presents a bearer token whose last entry in the file lists the scope, or that of an
administrator. -/
def Listed (U : Unicode) (entries : List TokenEntry) (authorization : Option Str) (scope : Str) :
    Prop :=
  ∃ header entry, authorization = some header ∧
    "bearer ".toList.isPrefixOf (Py.lower U header) = true ∧
    entries.reverse.find? (fun entry => entry.token = Py.strip (header.drop 7)) = some entry ∧
    (scope ∈ entry.scopes ∨ "admin".toList ∈ entry.scopes)

theorem load_allows_iff {entries : List TokenEntry} {authorization : Option Str} {scope : Str}
    (valid : scope ∈ validScopes) :
    (TokenStore.load entries).Allows U authorization scope ↔ Listed U entries authorization scope := by
  cases authorization with
  | none =>
      constructor
      · rintro ⟨principal, found, _⟩
        cases found
      · rintro ⟨header, entry, given, _⟩
        cases given
  | some header =>
      simp only [TokenStore.Allows, TokenStore.authenticate, TokenStore.lookup_load]
      constructor
      · rintro ⟨principal, found, has⟩
        split at found
        · rename_i bearer
          obtain ⟨entry, last, rfl⟩ := Option.map_eq_some_iff.mp found
          exact ⟨header, entry, rfl, bearer, last, (entry.principal_has valid).mp has⟩
        · cases found
      · rintro ⟨_, entry, given, bearer, last, listed⟩
        cases given
        rw [if_pos bearer, last]
        exact ⟨_, rfl, (entry.principal_has valid).mpr listed⟩

end tokens

/-- What `build_app` is given. -/
structure Api where
  tokens : TokenStore
  registry : List ConfiguredSource
  enqueues : Bool

/-- What the handlers read and write. -/
structure ApiState where
  sources : List SourceRow
  feedRuns : List FeedRunRow
  indicators : List Indicator
  deadLetters : List DeadLetter
  enqueued : List Str

/-- The handlers with their parameters, as they come from the path and the query. -/
inductive ApiRoute where
  | healthz
  | readyz
  | metrics
  | listSources
  | getSource (sourceId : Str)
  | listRuns (source limit : Option Str)
  | getRun (runId : Str)
  | lookupIndicators (type value limit : Option Str)
  | listDlq (source unreplayed : Option Str)
  | replayDlq (dlqId : Nat)
  | triggerRun (sourceId : Str)

/-- The scope that `_require` asks for. -/
def ApiRoute.scope : ApiRoute → Option Str
  | .healthz => none
  | .readyz => none
  | .metrics => none
  | .replayDlq _ => some "trigger".toList
  | .triggerRun _ => some "trigger".toList
  | _ => some "read".toList

structure ApiRequest where
  route : ApiRoute
  authorization : Option Str

section rows

def RunState.value : RunState → Str
  | .pending => "PENDING".toList
  | .running => "RUNNING".toList
  | .success => "SUCCESS".toList
  | .partialSuccess => "PARTIAL".toList
  | .failed => "FAILED".toList

/-- `__name__` of a class. -/
def ClassName.text : ClassName → Str
  | .baseException => "BaseException".toList
  | .exception => "Exception".toList
  | .cancelledError => "CancelledError".toList
  | .valueError => "ValueError".toList
  | .addressValueError => "AddressValueError".toList
  | .validationError => "ValidationError".toList
  | .typeError => "TypeError".toList
  | .overflowError => "OverflowError".toList
  | .attributeError => "AttributeError".toList
  | .ctiError => "CTIError".toList
  | .transientError => "TransientError".toList
  | .rateLimited => "RateLimited".toList
  | .permanentError => "PermanentError".toList
  | .circuitOpen => "CircuitOpen".toList
  | .pluginError => "PluginError".toList
  | .pluginConfigError => "PluginConfigError".toList
  | .pluginLoadError => "PluginLoadError".toList
  | .egressBlocked => "EgressBlocked".toList
  | .tlpViolation => "TLPViolation".toList
  | .watermarkConflict => "WatermarkConflict".toList
  | .other name => name

/-- What `list_sources` tells of a source. -/
def ConfiguredSource.summary (cfg : ConfiguredSource) (row : Option SourceRow) : Dict :=
  [("id".toList, .str cfg.id), ("name".toList, optionalText cfg.name),
    ("plugin".toList, .str cfg.plugin), ("enabled".toList, .bool cfg.enabled),
    ("schedule".toList, .str cfg.schedule),
    ("watermark".toList, .dict ((row.bind SourceRow.watermark).getD []))]

/-- What `list_runs` tells of a run. -/
def FeedRunRow.summary (row : FeedRunRow) : Dict :=
  [("id".toList, .str (uuidText row.id)), ("source_id".toList, .str row.sourceId),
    ("state".toList, .str row.state.value),
    ("started_at".toList, .str (isoformat row.startedAt)),
    ("finished_at".toList, optionalText (row.finishedAt.map isoformat)),
    ("records_in".toList, .int row.recordsIn), ("records_out".toList, .int row.recordsOut),
    ("error".toList, optionalText row.error), ("raw_uri".toList, optionalText row.rawUri)]

/-- What `get_run` tells of a run. -/
def FeedRunRow.detail (row : FeedRunRow) : Dict :=
  [("id".toList, .str (uuidText row.id)), ("source_id".toList, .str row.sourceId),
    ("state".toList, .str row.state.value),
    ("started_at".toList, .str (isoformat row.startedAt)),
    ("finished_at".toList, optionalText (row.finishedAt.map isoformat)),
    ("fetched_bytes".toList, .int row.fetchedBytes),
    ("records_in".toList, .int row.recordsIn), ("records_out".toList, .int row.recordsOut),
    ("error".toList, optionalText row.error), ("watermark".toList, .dict row.watermark),
    ("raw_uri".toList, optionalText row.rawUri)]

/-- What `lookup_indicators` tells of an indicator. -/
def Indicator.summary (row : Indicator) : Dict :=
  [("id".toList, .str (uuidText row.id)), ("type".toList, .str row.type.value),
    ("value".toList, .str row.value), ("confidence".toList, .int row.confidence),
    ("tlp".toList, .str row.tlp.value), ("tags".toList, textList row.tags),
    ("first_seen_by_us".toList, .str (isoformat row.firstSeenByUs)),
    ("last_seen_by_us".toList, .str (isoformat row.lastSeenByUs))]

/-- What `list_dlq` tells of a dead letter. -/
def DeadLetter.summary (letter : DeadLetter) : Dict :=
  [("id".toList, .int letter.id),
    ("feed_run_id".toList, .str (uuidText letter.row.feedRunId)),
    ("source_id".toList, .str letter.row.sourceId),
    ("error_class".toList, optionalText (letter.row.errorClass.map ClassName.text)),
    ("error_msg".toList, .str letter.row.errorMsg), ("reason".toList, .str letter.row.reason),
    ("created_at".toList, .str (isoformat letter.row.createdAt)),
    ("replayed_at".toList, optionalText (letter.replayedAt.map isoformat))]

def isBrace (c : Char) : Bool := c == '\x7b' || c == '\x7d'

/-- `UUID(text)`, for texts of digits; `none` is a `ValueError`. -/
def parseUuid (text : Str) : Option Uuid :=
  let plain := Py.replace "uuid:".toList [] (Py.replace "urn:".toList [] text)
  let stripped := ((plain.dropWhile isBrace).reverse.dropWhile isBrace).reverse
  let hex := stripped.filter fun c => c != '-'
  if hex.length = 32 ∧ hex.all Ipaddress.isHexDigit = true then some (Ipaddress.hexNumber hex)
  else none

/-- `FeedRunRepo.recent`. The database refuses a negative limit. -/
def RecentRuns (feedRuns : List FeedRunRow) (sourceId : Option Str) (limit : Int)
    (rows : List FeedRunRow) : Prop :=
  0 ≤ limit ∧ Selects feedRuns (fun row => whereEq row.sourceId sourceId) FeedRunRow.startedAt
    limit.toNat rows

end rows

section uuids

theorem hexText_digits (width n : Nat) : ∀ c ∈ hexText width n, Ipaddress.isHexDigit c = true := by
  have digit : ∀ d : Fin 16, Ipaddress.isHexDigit (Nat.digitChar d) = true := by decide
  induction width generalizing n with
  | zero => exact fun c member => absurd member List.not_mem_nil
  | succ width ih =>
      intro c member
      rcases List.mem_append.mp member with early | last
      · exact ih _ c early
      · rw [List.mem_singleton.mp last]
        exact digit ⟨n % 16, Nat.mod_lt n (by decide)⟩

theorem hexText_length (width n : Nat) : (hexText width n).length = width := by
  induction width generalizing n with
  | zero => rfl
  | succ width ih => rw [hexText, List.length_append, ih, List.length_singleton]

theorem hexNumber_hexText (width n : Nat) :
    Ipaddress.hexNumber (hexText width n) = n % 16 ^ width := by
  have digit : ∀ d : Fin 16, Ipaddress.hexValue (Nat.digitChar d) = d := by decide
  induction width generalizing n with
  | zero => rw [Nat.pow_zero, Nat.mod_one]; rfl
  | succ width ih =>
      have last : Ipaddress.hexValue (Nat.digitChar (n % 16)) = n % 16 :=
        digit ⟨n % 16, Nat.mod_lt n (by decide)⟩
      rw [Ipaddress.hexNumber, hexText, List.foldl_append]
      change 16 * Ipaddress.hexNumber (hexText width (n / 16)) + _ = _
      rw [ih, last, Nat.pow_succ, Nat.mul_comm (16 ^ width), Nat.mod_mul]
      omega

/-- Each character of the text is a digit or a dash. -/
theorem uuidText_chars (id : Uuid) : ∀ c ∈ uuidText id, Ipaddress.isHexDigit c = true ∨ c = '-' := by
  have digits := hexText_digits 32 id
  have middle : ∀ {i n c}, c ∈ ((hexText 32 id).drop i).take n → Ipaddress.isHexDigit c = true :=
    fun member => digits _ (List.mem_of_mem_drop (List.mem_of_mem_take member))
  intro c member
  simp only [uuidText, List.mem_append, List.mem_cons] at member
  rcases member with ((((first | dash | second) | dash | third) | dash | fourth) | dash | fifth)
  · exact Or.inl (digits c (List.mem_of_mem_take first))
  · exact Or.inr dash
  · exact Or.inl (middle second)
  · exact Or.inr dash
  · exact Or.inl (middle third)
  · exact Or.inr dash
  · exact Or.inl (middle fourth)
  · exact Or.inr dash
  · exact Or.inl (digits c (List.mem_of_mem_drop fifth))

theorem uuidText_hex (id : Uuid) : (uuidText id).filter (fun c => c != '-') = hexText 32 id := by
  have plain : ∀ {part : Str}, part ⊆ hexText 32 id → part.filter (fun c => c != '-') = part := by
    intro part inside
    rw [List.filter_eq_self]
    intro c member
    have digit := hexText_digits 32 id c (inside member)
    have dash : Ipaddress.isHexDigit '-' = false := by decide
    rw [bne_iff_ne]
    rintro rfl
    rw [dash] at digit
    cases digit
  have dashes : ∀ {part : Str}, ('-' :: part).filter (fun c => c != '-') =
      part.filter fun c => c != '-' := fun {part} => List.filter_cons_of_neg (by decide)
  have middle : ∀ i n, ((hexText 32 id).drop i).take n ⊆ hexText 32 id := fun i n =>
    List.Subset.trans (List.take_subset _ _) (List.drop_subset _ _)
  simp only [uuidText, List.filter_append, dashes, plain (List.take_subset _ _), plain (middle _ _),
    plain (List.drop_subset _ _), List.append_assoc]
  have joined : ∀ i n, ((hexText 32 id).drop i).take n ++ (hexText 32 id).drop (i + n) =
      (hexText 32 id).drop i := by
    intro i n
    rw [← List.drop_drop, List.take_append_drop]
  rw [joined 16 4, joined 12 4, joined 8 4, List.take_append_drop]

/-- Texts of UUIDs are read back. -/
theorem parseUuid_uuidText {id : Uuid} (small : id < 2 ^ 128) : parseUuid (uuidText id) = some id := by
  have chars := uuidText_chars id
  have absent : ∀ {c : Char}, Ipaddress.isHexDigit c = false → c ≠ '-' → c ∉ uuidText id := by
    intro c other dash member
    rcases chars c member with digit | same
    · rw [other] at digit
      cases digit
    · exact dash same
  have urn : Py.replace "urn:".toList [] (uuidText id) = uuidText id :=
    Py.replace_eq_self (c := 'u') (by decide) (absent (by decide) (by decide))
  have uuid : Py.replace "uuid:".toList [] (uuidText id) = uuidText id :=
    Py.replace_eq_self (c := 'u') (by decide) (absent (by decide) (by decide))
  have braceless : ∀ c ∈ uuidText id, isBrace c = false := by
    intro c member
    rw [Bool.eq_false_iff]
    intro brace
    simp only [isBrace, Bool.or_eq_true, beq_iff_eq] at brace
    rcases brace with rfl | rfl
    · exact absent (by decide) (by decide) member
    · exact absent (by decide) (by decide) member
  have front : (uuidText id).dropWhile isBrace = uuidText id := by
    cases same : uuidText id with
    | nil => rfl
    | cons c rest =>
        rw [same] at braceless
        exact List.dropWhile_cons_of_neg (by simp [braceless c List.mem_cons_self])
  have back : (uuidText id).reverse.dropWhile isBrace = (uuidText id).reverse := by
    cases same : (uuidText id).reverse with
    | nil => rfl
    | cons c rest =>
        have member : c ∈ uuidText id := List.mem_reverse.mp (same ▸ List.mem_cons_self)
        exact List.dropWhile_cons_of_neg (by simp [braceless c member])
  have digits : (hexText 32 id).all Ipaddress.isHexDigit = true :=
    List.all_eq_true.mpr (hexText_digits 32 id)
  have number : id % 16 ^ 32 = id := Nat.mod_eq_of_lt (small.trans_eq (by decide))
  simp only [parseUuid, urn, uuid, front, back, List.reverse_reverse, uuidText_hex, hexText_length,
    digits, hexNumber_hexText, number, and_self, if_true]

end uuids

section handlers

variable (U : Unicode) (api : Api)

/-- The answer for an exception that no handler catches. -/
def serverError : ApiResponse := ⟨500, "Internal Server Error".toList⟩

def notFound : ApiResponse := jsonResponse 404 (.dict [("error".toList, .str "not_found".toList)])

def queueUnavailable : ApiResponse :=
  jsonResponse 503 (.dict [("error".toList, .str "queue_unavailable".toList)])

/-- `_require`, and the handler behind it. -/
def withScope (authorization : Option Str) (scope : Str) (s : ApiState)
    (handler : ApiResponse → ApiState → Prop) (response : ApiResponse) (s' : ApiState) : Prop :=
  match api.tokens.authenticate U authorization with
  | none => response = unauthorized scope ∧ s' = s
  | some principal =>
      if principal.has scope then handler response s'
      else response = unauthorized scope ∧ s' = s

/-- A session that only reads answers, or it fails. -/
def reading (s : ApiState) (answer : ApiResponse → Prop) (response : ApiResponse)
    (s' : ApiState) : Prop :=
  s' = s ∧ (answer response ∨ response = serverError)

/-- `min(int(text), most)`; `none` is a `ValueError`. -/
def pageLimit (given : Option Str) (default : Str) (most : Int) : Option Int :=
  (intOfStr U (given.getD default)).map fun n => min n most

def healthz (s : ApiState) (response : ApiResponse) (s' : ApiState) : Prop :=
  response = ⟨200, "ok".toList⟩ ∧ s' = s

def readyz (s : ApiState) (response : ApiResponse) (s' : ApiState) : Prop :=
  s' = s ∧ (response = ⟨200, "ready".toList⟩ ∨
    ∃ exc, response = ⟨503, "not ready: ".toList ++ exc⟩)

/-- `metrics`: what the counters of the process show. -/
def metrics (s : ApiState) (response : ApiResponse) (s' : ApiState) : Prop :=
  s' = s ∧ response.status = 200

def listSources (authorization : Option Str) (s : ApiState) : ApiResponse → ApiState → Prop :=
  withScope U api authorization "read".toList s (reading s fun response =>
    response = jsonResponse 200 (.list (api.registry.map fun cfg =>
      .dict (cfg.summary (s.sources.find? fun row => row.id = cfg.id)))))

def listRuns (authorization : Option Str) (source limit : Option Str) (s : ApiState) :
    ApiResponse → ApiState → Prop :=
  withScope U api authorization "read".toList s (reading s fun response =>
    ∃ most rows, pageLimit U limit "50".toList 500 = some most ∧
      RecentRuns s.feedRuns source most rows ∧
      response = jsonResponse 200 (.list (rows.map fun row => .dict row.summary)))

def getRun (authorization : Option Str) (runId : Str) (s : ApiState) :
    ApiResponse → ApiState → Prop :=
  withScope U api authorization "read".toList s (reading s fun response =>
    ∃ id, parseUuid runId = some id ∧
      response = match s.feedRuns.find? fun row => row.id = id with
        | none => notFound
        | some row => jsonResponse 200 (.dict row.detail))

def lookupIndicators (authorization : Option Str) (type value limit : Option Str) (s : ApiState) :
    ApiResponse → ApiState → Prop :=
  withScope U api authorization "read".toList s (reading s fun response =>
    ∃ most rows, pageLimit U limit "100".toList 1000 = some most ∧ 0 ≤ most ∧
      Lookup s.indicators type value most.toNat rows ∧
      response = jsonResponse 200 (.list (rows.map fun row => .dict row.summary)))

def listDlq (authorization : Option Str) (source unreplayed : Option Str) (s : ApiState) :
    ApiResponse → ApiState → Prop :=
  withScope U api authorization "read".toList s (reading s fun response =>
    ∃ rows, ListsDeadLetters s.deadLetters source
        (Py.lower U (unreplayed.getD "true".toList) != "false".toList) 200 rows ∧
      response = jsonResponse 200 (.list (rows.map fun letter => .dict letter.summary)))

/-- `replay_dlq`: an id without a letter is answered in the same way. -/
def replayDlq (authorization : Option Str) (dlqId : Nat) (s : ApiState) :
    ApiResponse → ApiState → Prop :=
  withScope U api authorization "trigger".toList s fun response s' =>
    (∃ now answered,
      response = jsonResponse 200 (.dict [("id".toList, .int dlqId),
        ("replayed_at".toList, .str (isoformat answered))]) ∧
      s' = { s with deadLetters := markReplayed s.deadLetters dlqId now }) ∨
    (response = serverError ∧ s' = s)

def triggerRun (authorization : Option Str) (sourceId : Str) (s : ApiState) :
    ApiResponse → ApiState → Prop :=
  withScope U api authorization "trigger".toList s fun response s' =>
    match getSourceConfig api.registry sourceId with
    | none => response = notFound ∧ s' = s
    | some cfg =>
        if api.enqueues then
          (∃ jobId, response = jsonResponse 200 (.dict [("queued".toList, .bool true),
              ("source_id".toList, .str cfg.id), ("job_id".toList, .str jobId)]) ∧
            s' = { s with enqueued := s.enqueued ++ [cfg.id] }) ∨
          (response = serverError ∧ s' = s)
        else response = queueUnavailable ∧ s' = s

/-- One request and its answer. -/
def Api.Answers (s : ApiState) (request : ApiRequest) : ApiResponse → ApiState → Prop :=
  match request.route with
  | .healthz => healthz s
  | .readyz => readyz s
  | .metrics => metrics s
  | .listSources => listSources U api request.authorization s
  | .getSource sourceId => fun response s' =>
      response = Cti.getSource U api.tokens api.registry request.authorization sourceId ∧ s' = s
  | .listRuns source limit => listRuns U api request.authorization source limit s
  | .getRun runId => getRun U api request.authorization runId s
  | .lookupIndicators type value limit =>
      lookupIndicators U api request.authorization type value limit s
  | .listDlq source unreplayed => listDlq U api request.authorization source unreplayed s
  | .replayDlq dlqId => replayDlq U api request.authorization dlqId s
  | .triggerRun sourceId => triggerRun U api request.authorization sourceId s

end handlers

section effects

variable {U : Unicode} {api : Api} {s s' : ApiState}

theorem withScope_cases {authorization : Option Str} {scope : Str}
    {handler : ApiResponse → ApiState → Prop} {response : ApiResponse}
    (answers : withScope U api authorization scope s handler response s') :
    (¬ api.tokens.Allows U authorization scope ∧ response = unauthorized scope ∧ s' = s) ∨
      (api.tokens.Allows U authorization scope ∧ handler response s') := by
  unfold withScope at answers
  split at answers
  · rename_i unknown
    refine Or.inl ⟨?_, answers⟩
    rintro ⟨principal, found, _⟩
    rw [unknown] at found
    cases found
  · rename_i principal known
    split at answers
    · rename_i has
      exact Or.inr ⟨⟨principal, known, has⟩, answers⟩
    · rename_i lacks
      refine Or.inl ⟨?_, answers⟩
      rintro ⟨other, found, has⟩
      rw [known] at found
      cases found
      exact lacks has

/-- The dead letter that an answered request marks. -/
def ApiRequest.marks (request : ApiRequest) (response : ApiResponse) : List Int :=
  match request.route with
  | .replayDlq dlqId => if response.status = 200 then [(dlqId : Int)] else []
  | _ => []

/-- The source that an answered request enqueues. -/
def ApiRequest.queues (request : ApiRequest) (response : ApiResponse) : List Str :=
  match request.route with
  | .triggerRun sourceId => if response.status = 200 then [sourceId] else []
  | _ => []

/-- Letters are marked and jobs are enqueued, and nothing else changes. -/
structure ApiState.Moved (s s' : ApiState) (marked : List Int) (queued : List Str) : Prop where
  sources : s'.sources = s.sources
  feedRuns : s'.feedRuns = s.feedRuns
  indicators : s'.indicators = s.indicators
  enqueued : s'.enqueued = s.enqueued ++ queued
  deadLetters : ∃ marks, marks.map Prod.fst = marked ∧
    s'.deadLetters = replayAll s.deadLetters marks

theorem ApiState.Moved.refl (s : ApiState) : s.Moved s [] [] :=
  ⟨rfl, rfl, rfl, (List.append_nil _).symm, [], rfl, rfl⟩

theorem ApiState.Moved.trans {s'' : ApiState} {marked marked' : List Int} {queued queued' : List Str}
    (first : s.Moved s' marked queued) (second : s'.Moved s'' marked' queued') :
    s.Moved s'' (marked ++ marked') (queued ++ queued') := by
  obtain ⟨marks, named, table⟩ := first.deadLetters
  obtain ⟨marks', named', table'⟩ := second.deadLetters
  refine ⟨second.sources.trans first.sources, second.feedRuns.trans first.feedRuns,
    second.indicators.trans first.indicators, ?_, marks ++ marks', ?_, ?_⟩
  · rw [second.enqueued, first.enqueued, List.append_assoc]
  · rw [List.map_append, named, named']
  · rw [table', table, replayAll, replayAll, replayAll, List.map_append, tableAfter, tableAfter,
      tableAfter, List.foldl_append]

theorem jsonResponse_status {status : Nat} {content : Val} (finite : content.isFinite = true) :
    (jsonResponse status content).status = status := by
  rw [jsonResponse, if_pos finite]

theorem unauthorized_status (scope : Str) : (unauthorized scope).status = 401 :=
  jsonResponse_status rfl

theorem notFound_status : notFound.status = 404 := jsonResponse_status rfl

theorem queueUnavailable_status : queueUnavailable.status = 503 := jsonResponse_status rfl

theorem reading_cases {authorization : Option Str} {scope : Str} {answer : ApiResponse → Prop}
    {response : ApiResponse}
    (answers : withScope U api authorization scope s (reading s answer) response s') :
    s' = s ∧ (¬ api.tokens.Allows U authorization scope → response = unauthorized scope) := by
  rcases withScope_cases answers with ⟨_, denied, same⟩ | ⟨allowed, same, _⟩
  · exact ⟨same, fun _ => denied⟩
  · exact ⟨same, fun refused => absurd allowed refused⟩

theorem getSource_denied {authorization : Option Str} {sourceId : Str}
    (refused : ¬ api.tokens.Allows U authorization "read".toList) :
    getSource U api.tokens api.registry authorization sourceId = unauthorized "read".toList := by
  unfold getSource
  cases found : api.tokens.authenticate U authorization with
  | none => rfl
  | some principal =>
      have lacks : principal.has "read".toList = false := by
        cases has : principal.has "read".toList with
        | false => rfl
        | true => exact absurd ⟨principal, found, has⟩ refused
      simp only [lacks, Bool.not_false, if_true]

theorem replayDlq_moved {authorization : Option Str} {dlqId : Nat} {response : ApiResponse}
    (answers : replayDlq U api authorization dlqId s response s') :
    s.Moved s' (if response.status = 200 then [(dlqId : Int)] else []) [] ∧
      (¬ api.tokens.Allows U authorization "trigger".toList →
        response = unauthorized "trigger".toList) := by
  rcases withScope_cases answers with ⟨_, denied, same⟩ | ⟨allowed, done⟩
  · refine ⟨?_, fun _ => denied⟩
    rw [same, denied, unauthorized_status]
    exact .refl s
  · refine ⟨?_, fun refused => absurd allowed refused⟩
    rcases done with ⟨now, answered, rfl, rfl⟩ | ⟨rfl, rfl⟩
    · rw [jsonResponse_status rfl, if_pos rfl]
      exact ⟨rfl, rfl, rfl, (List.append_nil _).symm, [(dlqId, now)], rfl, rfl⟩
    · exact .refl _

theorem triggerRun_moved {authorization : Option Str} {sourceId : Str} {response : ApiResponse}
    (answers : triggerRun U api authorization sourceId s response s') :
    s.Moved s' [] (if response.status = 200 then [sourceId] else []) ∧
      (response.status = 200 → api.enqueues = true ∧
        ∃ cfg ∈ api.registry, cfg.id = sourceId) ∧
      (¬ api.tokens.Allows U authorization "trigger".toList →
        response = unauthorized "trigger".toList) := by
  have unchanged : ∀ response : ApiResponse, response.status ≠ 200 →
      s.Moved s [] (if response.status = 200 then [sourceId] else []) ∧
        (response.status = 200 → api.enqueues = true ∧
          ∃ cfg ∈ api.registry, cfg.id = sourceId) := by
    intro response failed
    rw [if_neg failed]
    exact ⟨.refl s, fun succeeded => absurd succeeded failed⟩
  rcases withScope_cases answers with ⟨_, denied, same⟩ | ⟨allowed, done⟩
  · subst same
    obtain ⟨moved, cause⟩ := unchanged response (by rw [denied, unauthorized_status]; decide)
    exact ⟨moved, cause, fun _ => denied⟩
  · have only : ∀ {P : Prop}, ¬ api.tokens.Allows U authorization "trigger".toList → P :=
      fun refused => absurd allowed refused
    split at done
    · obtain ⟨rfl, rfl⟩ := done
      obtain ⟨moved, cause⟩ := unchanged notFound (by rw [notFound_status]; decide)
      exact ⟨moved, cause, only⟩
    · rename_i cfg found
      obtain ⟨member, named⟩ : cfg ∈ api.registry ∧ cfg.id = sourceId :=
        ⟨List.mem_of_find?_eq_some found, by simpa using List.find?_some found⟩
      split at done
      · rename_i enqueues
        rcases done with ⟨jobId, rfl, rfl⟩ | ⟨rfl, rfl⟩
        · rw [jsonResponse_status rfl, if_pos rfl, named]
          exact ⟨⟨rfl, rfl, rfl, rfl, [], rfl, rfl⟩,
            fun _ => ⟨enqueues, cfg, member, named⟩, only⟩
        · obtain ⟨moved, cause⟩ := unchanged serverError (by decide)
          exact ⟨moved, cause, only⟩
      · obtain ⟨rfl, rfl⟩ := done
        obtain ⟨moved, cause⟩ := unchanged queueUnavailable
          (by rw [queueUnavailable_status]; decide)
        exact ⟨moved, cause, only⟩

/-- What one request does. -/
theorem answers_moved {request : ApiRequest} {response : ApiResponse}
    (answers : api.Answers U s request response s') :
    s.Moved s' (request.marks response) (request.queues response) ∧
      (∀ sourceId ∈ request.queues response, api.enqueues = true ∧
        ∃ cfg ∈ api.registry, cfg.id = sourceId) ∧
      ∀ scope, request.route.scope = some scope →
        ¬ api.tokens.Allows U request.authorization scope → response = unauthorized scope := by
  obtain ⟨route, authorization⟩ := request
  have quiet : s' = s → s.Moved s' [] [] ∧ ∀ sourceId ∈ ([] : List Str), api.enqueues = true ∧
      ∃ cfg ∈ api.registry, cfg.id = sourceId := by
    rintro rfl
    exact ⟨.refl s', fun sourceId member => absurd member List.not_mem_nil⟩
  have readOnly : ∀ {answer : ApiResponse → Prop},
      withScope U api authorization "read".toList s (reading s answer) response s' →
      s.Moved s' [] [] ∧ (∀ sourceId ∈ ([] : List Str), api.enqueues = true ∧
        ∃ cfg ∈ api.registry, cfg.id = sourceId) ∧
      ∀ scope, some "read".toList = some scope →
        ¬ api.tokens.Allows U authorization scope → response = unauthorized scope := by
    intro answer answers
    obtain ⟨same, denied⟩ := reading_cases answers
    refine ⟨(quiet same).1, (quiet same).2, ?_⟩
    rintro scope ⟨⟩
    exact denied
  cases route with
  | healthz => exact ⟨(quiet answers.2).1, (quiet answers.2).2, by rintro scope ⟨⟩⟩
  | readyz => exact ⟨(quiet answers.1).1, (quiet answers.1).2, by rintro scope ⟨⟩⟩
  | metrics => exact ⟨(quiet answers.1).1, (quiet answers.1).2, by rintro scope ⟨⟩⟩
  | getSource sourceId =>
      refine ⟨(quiet answers.2).1, (quiet answers.2).2, ?_⟩
      rintro scope ⟨⟩ refused
      exact answers.1.trans (getSource_denied refused)
  | replayDlq dlqId =>
      obtain ⟨moved, denied⟩ := replayDlq_moved answers
      refine ⟨moved, fun sourceId member => absurd member List.not_mem_nil, ?_⟩
      rintro scope ⟨⟩
      exact denied
  | triggerRun sourceId =>
      obtain ⟨moved, cause, denied⟩ := triggerRun_moved answers
      refine ⟨moved, ?_, ?_⟩
      · intro queued member
        simp only [ApiRequest.queues] at member
        split at member
        · rename_i succeeded
          rw [List.mem_singleton.mp member]
          exact cause succeeded
        · cases member
      · rintro scope ⟨⟩
        exact denied
  | listSources => exact readOnly answers
  | listRuns source limit => exact readOnly answers
  | getRun runId => exact readOnly answers
  | lookupIndicators type value limit => exact readOnly answers
  | listDlq source unreplayed => exact readOnly answers

/-- Requests answered one after another. -/
inductive Api.Serves (U : Unicode) (api : Api) :
    ApiState → List (ApiRequest × ApiResponse) → ApiState → Prop
  | idle (s : ApiState) : Serves U api s [] s
  | serve {s s' s'' : ApiState} {request : ApiRequest} {response : ApiResponse}
      {log : List (ApiRequest × ApiResponse)} (answers : api.Answers U s request response s')
      (rest : Serves U api s' log s'') : Serves U api s ((request, response) :: log) s''

theorem serves_moved {log : List (ApiRequest × ApiResponse)} (serves : api.Serves U s log s') :
    s.Moved s' (log.flatMap fun entry => entry.1.marks entry.2)
        (log.flatMap fun entry => entry.1.queues entry.2) ∧
      ∀ entry ∈ log,
        (∀ sourceId ∈ entry.1.queues entry.2, api.enqueues = true ∧
          ∃ cfg ∈ api.registry, cfg.id = sourceId) ∧
        ∀ scope, entry.1.route.scope = some scope →
          ¬ api.tokens.Allows U entry.1.authorization scope → entry.2 = unauthorized scope := by
  induction serves with
  | idle s => exact ⟨.refl s, fun entry member => absurd member List.not_mem_nil⟩
  | serve answers rest ih =>
      obtain ⟨moved, own⟩ := answers_moved answers
      refine ⟨?_, ?_⟩
      · rw [List.flatMap_cons, List.flatMap_cons]
        exact moved.trans ih.1
      · rw [List.forall_mem_cons]
        exact ⟨own, ih.2⟩

/-- An API with the tokens of a file, over any requests from any clients. It marks the letters
and enqueues the sources that successful requests named, in their order, and changes nothing
else; only registered sources are enqueued, and only if there is a queue; and a client whose
token is not listed with the scope that a request needs is answered the same 401 whatever is
stored. -/
theorem api_effects {entries : List TokenEntry} (loaded : api.tokens = .load entries)
    {log : List (ApiRequest × ApiResponse)} (serves : api.Serves U s log s') :
    s.Moved s' (log.flatMap fun entry => entry.1.marks entry.2)
        (log.flatMap fun entry => entry.1.queues entry.2) ∧
      ∀ entry ∈ log,
        (∀ sourceId ∈ entry.1.queues entry.2, api.enqueues = true ∧
          ∃ cfg ∈ api.registry, cfg.id = sourceId) ∧
        ∀ scope, entry.1.route.scope = some scope →
          ¬ Listed U entries entry.1.authorization scope → entry.2 = unauthorized scope := by
  obtain ⟨moved, each⟩ := serves_moved serves
  refine ⟨moved, fun entry member => ⟨(each entry member).1, ?_⟩⟩
  intro scope needed unlisted
  have valid : scope ∈ validScopes := by
    revert needed
    cases entry.1.route <;> rintro ⟨⟩ <;> decide
  refine (each entry member).2 scope needed ?_
  rw [loaded, load_allows_iff valid]
  exact unlisted

/-- A file with one operator, with a scope among the others that does not exist. -/
def operatorEntries : List TokenEntry :=
  [⟨"t".toList, none, ["read".toList, "trigger".toList, "write".toList]⟩]

def operatorApi : Api := ⟨.load operatorEntries, [], false⟩

def operatorState : ApiState := ⟨[], [], [], [.recorded 1 feedLetter], []⟩

theorem api_effects_operator :
    ∃ log s', operatorApi.Serves .ascii operatorState log s' ∧ log.length = 2 ∧
      operatorState.Moved s' [1] [] ∧
      ∀ entry ∈ log, ∀ scope, entry.1.route.scope = some scope →
        ¬ Listed .ascii operatorEntries entry.1.authorization scope →
          entry.2 = unauthorized scope := by
  have marked : operatorApi.Answers .ascii operatorState ⟨.replayDlq 1, some "Bearer t".toList⟩
      (jsonResponse 200 (.dict [("id".toList, .int 1),
        ("replayed_at".toList, .str (isoformat 6))]))
      { operatorState with deadLetters := [⟨1, feedLetter, some 5⟩] } :=
    Or.inl ⟨5, 6, rfl, rfl⟩
  have denied : operatorApi.Answers .ascii
      { operatorState with deadLetters := [⟨1, feedLetter, some 5⟩] } ⟨.listDlq none none, none⟩
      (unauthorized "read".toList) _ := ⟨rfl, rfl⟩
  have serves := Api.Serves.serve marked (.serve denied (.idle _))
  have loaded : operatorApi.tokens = .load operatorEntries := rfl
  have effects := api_effects loaded serves
  exact ⟨_, _, serves, rfl, effects.1, fun entry member => (effects.2 entry member).2⟩

end effects

end Cti
