import Cti.Builder
import Cti.Egress
import Cti.FetchState

set_option autoImplicit false

/- What a fetch promises to the stage that drives it. -/
namespace Cti

open Py (Str)

/-- A generator driven to its end: the payloads it yields, the failure it ends with, if there
is one, and the state it leaves. -/
inductive Iterates {S : Type} (connector : Plugin.Connector S) :
    connector.Gen → RunContext × S → List RawPayload → Option Failure → RunContext × S → Prop
  | ends {gen : connector.Gen} {s s' : RunContext × S} :
      (connector.resume gen).returns s none s' → Iterates connector gen s [] none s'
  | fails {gen : connector.Gen} {s s' : RunContext × S} {failure : Failure} :
      (connector.resume gen).raises s failure s' →
        Iterates connector gen s [] (some failure) s'
  | yields {gen gen' : connector.Gen} {s s' t : RunContext × S} {payload : RawPayload}
      {payloads : List RawPayload} {ended : Option Failure} :
      (connector.resume gen).returns s (some (payload, gen')) s' →
        Iterates connector gen' s' payloads ended t →
          Iterates connector gen s (payload :: payloads) ended t

theorem Iterates.cases {S : Type} {connector : Plugin.Connector S} {gen : connector.Gen}
    {s t : RunContext × S} {payloads : List RawPayload} {ended : Option Failure}
    (drive : Iterates connector gen s payloads ended t) :
    (payloads = [] ∧ ended = none ∧ (connector.resume gen).returns s none t) ∨
      (∃ failure, payloads = [] ∧ ended = some failure ∧
        (connector.resume gen).raises s failure t) ∨
        ∃ payload rest gen' s', payloads = payload :: rest ∧
          (connector.resume gen).returns s (some (payload, gen')) s' ∧
            Iterates connector gen' s' rest ended t := by
  cases drive with
  | ends returned => exact Or.inl ⟨rfl, rfl, returned⟩
  | fails raised => exact Or.inr (Or.inl ⟨_, rfl, rfl, raised⟩)
  | yields returned rest => exact Or.inr (Or.inr ⟨_, _, _, _, rfl, returned, rest⟩)

/-- A single exception of the framework. -/
def CtiFailure (failure : Failure) : Prop :=
  ∃ e, failure.val = .leaf e ∧ e.isA .ctiError = true

theorem ctiFailure_cti (c : ClassName) (exception : c.mro.contains .exception = true)
    (message : Str) (inherits : c.mro.contains .ctiError = true) :
    CtiFailure (ctiFailure c exception message) :=
  ⟨c.exc message, rfl, inherits⟩

/-- An upstream behind the guard. -/
def guarded (R : Runtime) (resolve : Resolver) (answer : Request → Except RequestError Response)
    (now : Int) : Upstream where
  checkUrl := checkUrl R resolve
  answer := answer
  now := now

section fetch

variable (R : Runtime) (codecs : Codecs) (defaultContentType : Str) (config : HttpConnectorConfig)
variable (S : Type) (upstream : Upstream)

/-- A drive of the HTTP connector is the outcome of its one fetch. -/
theorem iterates_http {s t : RunContext × S} {payloads : List RawPayload}
    {ended : Option Failure} :
    Iterates (httpConnector R codecs defaultContentType config S upstream) true s payloads ended t ↔
      (∃ payload watermark,
        httpFetch R codecs defaultContentType config upstream s.1.watermark =
            .ok (payload, watermark) ∧
          payloads = payload.toList ∧ ended = none ∧
          t = ({ s.1 with watermark := watermark }, s.2)) ∨
        ∃ failure,
          httpFetch R codecs defaultContentType config upstream s.1.watermark = .error failure ∧
            payloads = [] ∧ ended = some failure ∧ t = s := by
  constructor
  · intro drive
    rcases drive.cases with ⟨rfl, rfl, returned⟩ | ⟨failure, rfl, rfl, raised⟩ |
      ⟨payload, rest, gen, s', rfl, returned, rest⟩
    · obtain ⟨payload, watermark, fetched, answer, state⟩ := returned
      cases payload with
      | none => exact Or.inl ⟨none, watermark, fetched, rfl, rfl, state⟩
      | some payload => cases answer
    · exact Or.inr ⟨failure, raised.2.1, rfl, rfl, raised.2.2⟩
    · obtain ⟨payload, watermark, fetched, answer, state⟩ := returned
      cases payload with
      | none => cases answer
      | some payload =>
          cases answer
          -- The generator is spent after its first payload.
          rcases rest.cases with ⟨rfl, rfl, returned⟩ | ⟨_, _, _, raised⟩ | ⟨_, _, _, _, _, returned, _⟩
          · obtain ⟨_, rfl⟩ := returned
            exact Or.inl ⟨some payload, watermark, fetched, rfl, rfl, state⟩
          · cases raised.1
          · cases returned.1
  · rintro (⟨payload, watermark, fetched, rfl, rfl, rfl⟩ | ⟨failure, fetched, rfl, rfl, rfl⟩)
    · cases payload with
      | none => exact .ends ⟨none, watermark, fetched, rfl, rfl⟩
      | some payload =>
          -- What resumes is the spent generator.
          refine @Iterates.yields _ _ _ false _ _ _ _ _ _
            ⟨some payload, watermark, fetched, rfl, rfl⟩ ?_
          exact .ends ⟨rfl, rfl⟩
    · exact .fails ⟨rfl, fetched, rfl⟩

/-- The upstream's answer is taken for a payload. -/
def Received (watermark : Dict) (response : Response) : Prop :=
  upstream.checkUrl config.url config.allowHttp = .ok () ∧
    upstream.answer (httpRequest R config watermark) = .ok response ∧
    response.statusCode ≠ 304 ∧ checkResponse config response = .ok ()

theorem accepted_iff (watermark : Dict) (response : Response) :
    Accepted R codecs config upstream watermark response ↔
      Received R config upstream watermark response ∧
        ∃ body, decodeBody codecs config response.content = .ok body := by
  unfold Accepted Received
  tauto

/-- What is received goes to the decoder. -/
theorem httpFetch_received {watermark : Dict} {response : Response}
    (received : Received R config upstream watermark response) :
    httpFetch R codecs defaultContentType config upstream watermark =
      (decodeBody codecs config response.content).map fun body =>
        (some (responsePayload defaultContentType config upstream response body),
          stamp watermark response) := by
  obtain ⟨passed, answered, modified, checked⟩ := received
  unfold httpFetch sendRequest
  simp only [bind, Except.bind, passed, answered, modified, if_false, checked]
  cases decodeBody codecs config response.content <;> rfl

/-- Every payload of a fetch is at most as long as the configuration allows. -/
def Capped (s : RunContext × S) : Prop :=
  ∀ payloads ended t,
    Iterates (httpConnector R codecs defaultContentType config S upstream) true s payloads ended t →
      ∀ payload ∈ payloads, (payload.body.length : Int) ≤ config.maxBytes

/-- The content is no compressed form of something longer than the configuration allows. -/
def Unexpanded (content : List UInt8) : Prop :=
  (config.decompress = some "gzip".toList →
    ∀ data, codecs.gunzip content = .ok data → (data.length : Int) ≤ config.maxBytes) ∧
    (config.decompress = some "zip".toList →
      ∀ names target data, codecs.zipNames content = .ok names →
        zipTarget config names = some target → codecs.zipRead content target = .ok data →
          (data.length : Int) ≤ config.maxBytes)

theorem checkResponse_ok {response : Response} (checked : checkResponse config response = .ok ()) :
    (response.content.length : Int) ≤ config.maxBytes := by
  unfold checkResponse at checked
  repeat' split at checked
  · cases checked
  · cases checked
  · cases checked
  · cases checked
  · omega

/-- The three modes of decompression. -/
theorem decodeBody_ok {content body : List UInt8} :
    decodeBody codecs config content = .ok body ↔
      config.decompress = some "gzip".toList ∧ codecs.gunzip content = .ok body ∨
        (config.decompress = some "zip".toList ∧ ∃ names target,
          codecs.zipNames content = .ok names ∧ zipTarget config names = some target ∧
            codecs.zipRead content target = .ok body) ∨
          config.decompress ≠ some "gzip".toList ∧ config.decompress ≠ some "zip".toList ∧
            body = content := by
  have apart : some "gzip".toList ≠ some "zip".toList := by decide
  unfold decodeBody
  by_cases gzip : config.decompress = some "gzip".toList
  · rw [if_pos gzip, gzip]
    simp only [apart, ne_eq, not_true_eq_false, false_and, or_false, true_and]
  · rw [if_neg gzip]
    by_cases zip : config.decompress = some "zip".toList
    · rw [if_pos zip, zip]
      simp only [apart.symm, ne_eq, not_true_eq_false, false_and, and_false, or_false, false_or,
        true_and]
      constructor
      · intro read
        obtain ⟨names, named, read⟩ := bind_ok.mp read
        cases targeted : zipTarget config names with
        | none =>
            rw [targeted] at read
            cases read
        | some target =>
            rw [targeted] at read
            exact ⟨names, target, named, targeted, read⟩
      · rintro ⟨names, target, named, targeted, read⟩
        rw [named]
        simp only [bind, Except.bind, targeted, read]
    · rw [if_neg zip]
      simp only [gzip, zip, ne_eq, not_false_eq_true, false_and, true_and, false_or,
        Except.ok.injEq, eq_comm]

/-- What is decoded is the content itself unless a decompressor stands between. -/
theorem decodeBody_unexpanded {content : List UInt8}
    (bounded : (content.length : Int) ≤ config.maxBytes) :
    (∀ body, decodeBody codecs config content = .ok body →
        (body.length : Int) ≤ config.maxBytes) ↔
      Unexpanded codecs config content := by
  unfold Unexpanded
  constructor
  · intro short
    refine ⟨fun gzip data read => ?_, fun zip names target data named targeted read => ?_⟩
    · exact short data ((decodeBody_ok ..).mpr (Or.inl ⟨gzip, read⟩))
    · refine short data ((decodeBody_ok ..).mpr (Or.inr (Or.inl ⟨zip, names, target, ?_⟩)))
      exact ⟨named, targeted, read⟩
  · rintro ⟨gunzipped, unzipped⟩ body decoded
    rcases (decodeBody_ok ..).mp decoded with
      ⟨gzip, read⟩ | ⟨zip, names, target, named, targeted, read⟩ | ⟨_, _, rfl⟩
    · exact gunzipped gzip body read
    · exact unzipped zip names target body named targeted read
    · exact bounded

/-- A payload is the decoded content of what is received. -/
theorem httpFetch_payload {watermark watermark' : Dict} {payload : RawPayload}
    (fetched : httpFetch R codecs defaultContentType config upstream watermark =
      .ok (some payload, watermark')) :
    ∃ response, Received R config upstream watermark response ∧
      decodeBody codecs config response.content = .ok payload.body := by
  rcases httpFetch_cases R codecs defaultContentType config upstream watermark with
    ⟨response, _, accepted, _⟩ | ⟨_, result | ⟨failure, result⟩⟩
  · obtain ⟨received, body, decoded⟩ := (accepted_iff ..).mp accepted
    rw [httpFetch_received R codecs defaultContentType config upstream received, decoded] at fetched
    cases fetched
    exact ⟨response, received, decoded⟩
  · rw [result] at fetched
    cases fetched
  · rw [result] at fetched
    cases fetched

/-- The limit on the size holds for what is downloaded, and not for what it decompresses to. -/
theorem fetch_capped_iff (s : RunContext × S) :
    Capped R codecs defaultContentType config S upstream s ↔
      ∀ response, Received R config upstream s.1.watermark response →
        Unexpanded codecs config response.content := by
  constructor
  · intro capped response received
    rw [← decodeBody_unexpanded codecs config (checkResponse_ok config received.2.2.2)]
    intro body decoded
    have fetched := httpFetch_received R codecs defaultContentType config upstream received
    rw [decoded] at fetched
    refine capped _ _ _ ((iterates_http ..).mpr (Or.inl ⟨_, _, fetched, rfl, rfl, rfl⟩))
      (responsePayload defaultContentType config upstream response body) ?_
    simp
  · intro unexpanded payloads ended t drive payload member
    rcases (iterates_http ..).mp drive with ⟨fetched, watermark, outcome, rfl, _⟩ | ⟨_, _, rfl, _⟩
    · obtain rfl : fetched = some payload := by simpa using member
      obtain ⟨response, received, decoded⟩ := httpFetch_payload _ _ _ _ _ outcome
      have bounded := checkResponse_ok config received.2.2.2
      exact (decodeBody_unexpanded codecs config bounded).mpr (unexpanded response received) _ decoded
    · cases member

end fetch

/-- A gzip file of a hundred letters. -/
def packedLetters : List UInt8 :=
  [31, 139, 8, 0, 0, 0, 0, 0, 2, 3, 75, 76, 164, 61, 0, 0, 100, 122, 112, 175, 100, 0, 0, 0]

def badGzipFile : Failure :=
  .leaf (pyError ["BadGzipFile".toList, "OSError".toList] "Not a gzipped file".toList)
    (pyError_exception _ _)

/-- Decoders that know one gzip file and no archive. -/
def lettersCodecs : Codecs where
  gunzip content :=
    if content = packedLetters then .ok (List.replicate 100 97) else .error badGzipFile
  zipNames _ := .error (.leaf (pyError ["BadZipFile".toList] "File is not a zip file".toList)
    (pyError_exception _ _))
  zipRead _ _ := .error (.leaf (pyError ["KeyError".toList, "LookupError".toList]
    "There is no such item in the archive".toList) (pyError_exception _ _))

def gzipConfig : HttpConnectorConfig :=
  { plainConfig with maxBytes := 64, decompress := some "gzip".toList }

/-- A public host that answers with the content. -/
abbrev publicUpstream (content : List UInt8) : Upstream :=
  guarded asciiRuntime (fun _ => .ok ["8.8.8.8".toList]) (fun _ => .ok ⟨200, [], content⟩) 0

theorem gzip_received (content : List UInt8) (short : content.length ≤ 64) :
    Received asciiRuntime gzipConfig (publicUpstream content) [] ⟨200, [], content⟩ := by
  refine ⟨rfl, rfl, by simp, ?_⟩
  have within : ¬ (64 : Int) < content.length := by omega
  simp [checkResponse, gzipConfig, within]

/-- Twenty-four bytes pass a limit of sixty-four, and a hundred come out. -/
theorem fetch_uncapped_gzip :
    ¬ Capped asciiRuntime lettersCodecs "text/plain".toList gzipConfig Unit
      (publicUpstream packedLetters) (feedContext, ()) := by
  intro capped
  have received := gzip_received packedLetters (by decide)
  have fetched := httpFetch_received asciiRuntime lettersCodecs "text/plain".toList gzipConfig
    (publicUpstream packedLetters) received
  have long := capped _ _ _ ((iterates_http ..).mpr (Or.inl ⟨_, _, fetched, rfl, rfl, rfl⟩)) _
    (Option.mem_toList.mpr rfl)
  simp only [responsePayload, List.length_replicate, gzipConfig] at long
  omega

section contract

variable {R : Runtime} {codecs : Codecs} {defaultContentType : Str} {config : HttpConnectorConfig}
variable {S : Type} {resolve : Resolver} {answer : Request → Except RequestError Response}
variable {now : Int}

/-- The fetch ends without a payload, yields a single one, or raises a single exception of the
framework; without a payload it leaves the watermark alone. -/
def KeepsContract (R : Runtime) (codecs : Codecs) (defaultContentType : Str)
    (config : HttpConnectorConfig) (upstream : Upstream) (s : RunContext × S) : Prop :=
  ∀ payloads ended t,
    Iterates (httpConnector R codecs defaultContentType config S upstream) true s payloads ended t →
      (payloads = [] ∧ ended = none ∧ t.1.watermark = s.1.watermark) ∨
        (∃ payload, payloads = [payload] ∧ ended = none) ∨
          ∃ failure, payloads = [] ∧ ended = some failure ∧ CtiFailure failure ∧
            t.1.watermark = s.1.watermark

theorem keepsContract_iff {upstream : Upstream} {s : RunContext × S} :
    KeepsContract R codecs defaultContentType config upstream s ↔
      ∀ failure, httpFetch R codecs defaultContentType config upstream s.1.watermark =
        .error failure → CtiFailure failure := by
  constructor
  · intro contract failure fetched
    have drive := (iterates_http R codecs defaultContentType config S upstream).mpr
      (Or.inr ⟨failure, fetched, rfl, rfl, rfl⟩)
    rcases contract _ _ _ drive with ⟨_, ended, _⟩ | ⟨_, _, ended⟩ | ⟨_, _, ended, cti, _⟩
    · cases ended
    · cases ended
    · cases ended
      exact cti
  · intro raises payloads ended t drive
    rcases (iterates_http ..).mp drive with
      ⟨payload, watermark, fetched, rfl, rfl, rfl⟩ | ⟨failure, fetched, rfl, rfl, rfl⟩
    · cases payload with
      | some payload => exact Or.inr (Or.inl ⟨payload, rfl, rfl⟩)
      | none =>
          refine Or.inl ⟨rfl, rfl, ?_⟩
          rcases httpFetch_cases R codecs defaultContentType config upstream s.1.watermark with
            ⟨_, _, _, result⟩ | ⟨_, result | ⟨_, result⟩⟩
          · rw [result] at fetched
            cases fetched
          · rw [result] at fetched
            cases fetched
            rfl
          · rw [result] at fetched
            cases fetched
    · exact Or.inr (Or.inr ⟨failure, rfl, rfl, raises failure fetched, rfl⟩)

theorem checkUrl_raises {url : Str} {allowHttp : Bool} {failure : Failure}
    (raised : checkUrl R resolve url allowHttp = .error failure) :
    CtiFailure failure ∨ Urllib.urlparse R.unicode url = none ∨
      ∃ host, PermittedHost R url allowHttp host ∧ resolve host = .error (.other failure) := by
  unfold checkUrl at raised
  split at raised
  · rename_i parse
    exact Or.inr (Or.inl parse)
  rename_i parsed parse
  split at raised
  · cases raised
    exact Or.inl (ctiFailure_cti _ _ _ rfl)
  rename_i schemed
  split at raised
  · cases raised
    exact Or.inl (ctiFailure_cti _ _ _ rfl)
  rename_i encrypted
  split at raised
  · cases raised
    exact Or.inl (ctiFailure_cti _ _ _ rfl)
  · cases raised
    exact Or.inl (ctiFailure_cti _ _ _ rfl)
  rename_i host nonempty named
  split at raised
  · cases raised
    exact Or.inl (ctiFailure_cti _ _ _ rfl)
  · rename_i other resolved
    cases raised
    have permitted := permitted_scheme schemed encrypted
    exact Or.inr (Or.inr ⟨host, ⟨parsed, parse, permitted, named, nonempty⟩, resolved⟩)
  · split at raised
    · cases raised
      exact Or.inl (ctiFailure_cti _ _ _ rfl)
    · cases raised

theorem sendRequest_raises {upstream : Upstream} {watermark : Dict} {failure : Failure}
    (raised : sendRequest R config upstream watermark = .error failure) :
    CtiFailure failure ∨
      upstream.answer (httpRequest R config watermark) = .error (.other failure) := by
  unfold sendRequest at raised
  split at raised
  · cases raised
  · cases raised
    exact Or.inl (ctiFailure_cti _ _ _ rfl)
  · cases raised
    exact Or.inl (ctiFailure_cti _ _ _ rfl)
  · rename_i answered
    cases raised
    exact Or.inr answered

theorem checkResponse_raises {response : Response} {failure : Failure}
    (raised : checkResponse config response = .error failure) : CtiFailure failure := by
  unfold checkResponse at raised
  repeat' split at raised
  all_goals
    cases raised
    try exact ctiFailure_cti _ _ _ rfl

/-- The decompressor of the configured mode takes the content. -/
def Decompresses (codecs : Codecs) (config : HttpConnectorConfig) (content : List UInt8) : Prop :=
  (config.decompress = some "gzip".toList → ∃ data, codecs.gunzip content = .ok data) ∧
    (config.decompress = some "zip".toList → ∃ names, codecs.zipNames content = .ok names ∧
      ∀ target, zipTarget config names = some target →
        ∃ data, codecs.zipRead content target = .ok data)

/-- What the libraries raise by themselves are exceptions of their own. -/
structure Foreign (codecs : Codecs) (resolve : Resolver)
    (answer : Request → Except RequestError Response) : Prop where
  resolve : ∀ host failure, resolve host = .error (.other failure) → ¬ CtiFailure failure
  answer : ∀ request failure, answer request = .error (.other failure) → ¬ CtiFailure failure
  gunzip : ∀ content failure, codecs.gunzip content = .error failure → ¬ CtiFailure failure
  zipNames : ∀ content failure, codecs.zipNames content = .error failure → ¬ CtiFailure failure
  zipRead : ∀ content target failure, codecs.zipRead content target = .error failure →
    ¬ CtiFailure failure

theorem decodeBody_raises (foreign : Foreign codecs resolve answer) {content : List UInt8} :
    (∀ failure, decodeBody codecs config content = .error failure → CtiFailure failure) ↔
      Decompresses codecs config content := by
  have apart : some "gzip".toList ≠ some "zip".toList := by decide
  unfold decodeBody Decompresses
  by_cases gzip : config.decompress = some "gzip".toList
  · rw [if_pos gzip, gzip]
    simp only [apart, false_implies, and_true, true_implies]
    cases gunzipped : codecs.gunzip content with
    | ok data => simp
    | error failure => simpa using foreign.gunzip content failure gunzipped
  · rw [if_neg gzip]
    by_cases zip : config.decompress = some "zip".toList
    · rw [if_pos zip, zip]
      simp only [apart.symm, false_implies, true_and, true_implies]
      cases named : codecs.zipNames content with
      | error failure => simpa [bind, Except.bind] using foreign.zipNames content failure named
      | ok names =>
          cases targeted : zipTarget config names with
          | none =>
              simp only [bind, Except.bind, targeted]
              constructor
              · intro _
                exact ⟨names, rfl, by simp [targeted]⟩
              · rintro _ failure ⟨rfl⟩
                exact ctiFailure_cti _ _ _ rfl
          | some target =>
              simp only [bind, Except.bind, targeted]
              cases read : codecs.zipRead content target with
              | ok data => simp [targeted, read]
              | error failure =>
                  simpa [targeted, read] using foreign.zipRead content target failure read
    · rw [if_neg zip]
      simp only [gzip, zip, false_implies, and_self, iff_true]
      intro failure raised
      cases raised

/-- The URL parses, the resolver raises nothing but `OSError`, the client nothing but
`HTTPError`, and what is received decompresses. -/
structure Readable (R : Runtime) (codecs : Codecs) (config : HttpConnectorConfig)
    (resolve : Resolver) (answer : Request → Except RequestError Response) (now : Int)
    (watermark : Dict) : Prop where
  parses : Urllib.urlparse R.unicode config.url ≠ none
  resolves : ∀ host failure, PermittedHost R config.url config.allowHttp host →
    resolve host ≠ .error (.other failure)
  answers : checkUrl R resolve config.url config.allowHttp = .ok () →
    ∀ failure, answer (httpRequest R config watermark) ≠ .error (.other failure)
  decompresses : ∀ response, Received R config (guarded R resolve answer now) watermark response →
    Decompresses codecs config response.content

theorem httpFetch_raises {upstream : Upstream} {watermark : Dict} {failure : Failure}
    (raised : httpFetch R codecs defaultContentType config upstream watermark = .error failure) :
    upstream.checkUrl config.url config.allowHttp = .error failure ∨
      (upstream.checkUrl config.url config.allowHttp = .ok () ∧
        sendRequest R config upstream watermark = .error failure) ∨
        (∃ response, checkResponse config response = .error failure) ∨
          ∃ response, Received R config upstream watermark response ∧
            decodeBody codecs config response.content = .error failure := by
  unfold httpFetch at raised
  cases guard : upstream.checkUrl config.url config.allowHttp with
  | error refused =>
      rw [guard] at raised
      cases raised
      exact Or.inl rfl
  | ok _ =>
      refine Or.inr ?_
      cases sent : sendRequest R config upstream watermark with
      | error unsent =>
          rw [guard, sent] at raised
          cases raised
          exact Or.inl ⟨rfl, rfl⟩
      | ok response =>
          refine Or.inr ?_
          simp only [guard, sent, bind, Except.bind] at raised
          split at raised
          · cases raised
          rename_i modified
          cases checked : checkResponse config response with
          | error rejected =>
              rw [checked] at raised
              cases raised
              exact Or.inl ⟨response, checked⟩
          | ok _ =>
              have answered : upstream.answer (httpRequest R config watermark) = .ok response := by
                unfold sendRequest at sent
                split at sent
                · cases sent
                  assumption
                · cases sent
                · cases sent
                · cases sent
              refine Or.inr ⟨response, ⟨guard, answered, modified, checked⟩, ?_⟩
              cases decoded : decodeBody codecs config response.content with
              | ok body =>
                  rw [checked, decoded] at raised
                  cases raised
              | error malformed =>
                  rw [checked, decoded] at raised
                  cases raised
                  rfl

theorem httpFetch_refused {upstream : Upstream} {watermark : Dict} {failure : Failure}
    (refused : upstream.checkUrl config.url config.allowHttp = .error failure) :
    httpFetch R codecs defaultContentType config upstream watermark = .error failure := by
  simp only [httpFetch, refused, bind, Except.bind]

theorem httpFetch_unanswered {upstream : Upstream} {watermark : Dict} {failure : Failure}
    (passed : upstream.checkUrl config.url config.allowHttp = .ok ())
    (unanswered : upstream.answer (httpRequest R config watermark) = .error (.other failure)) :
    httpFetch R codecs defaultContentType config upstream watermark = .error failure := by
  simp only [httpFetch, sendRequest, passed, unanswered, bind, Except.bind]

theorem checkUrl_unresolved {url host : Str} {allowHttp : Bool} {failure : Failure}
    (permitted : PermittedHost R url allowHttp host)
    (unresolved : resolve host = .error (.other failure)) :
    checkUrl R resolve url allowHttp = .error failure := by
  obtain ⟨parsed, parse, schemed, named, nonempty⟩ := permitted
  obtain ⟨c, rest, rfl⟩ := List.exists_cons_of_ne_nil nonempty
  unfold checkUrl
  rcases schemed with secure | ⟨plain, allowed⟩
  · simp [parse, secure, named, unresolved]
  · simp [parse, plain, allowed, named, unresolved]

/-- A fetch raises other exceptions than the framework's where a library raises its own outside
of the two guarded calls, and nowhere else. -/
theorem fetch_contract_iff (foreign : Foreign codecs resolve answer) (s : RunContext × S) :
    KeepsContract R codecs defaultContentType config (guarded R resolve answer now) s ↔
      Readable R codecs config resolve answer now s.1.watermark := by
  rw [keepsContract_iff]
  constructor
  · intro raises
    refine ⟨?_, ?_, ?_, ?_⟩
    · intro unparsed
      have refused : checkUrl R resolve config.url config.allowHttp =
          .error (.leaf (ClassName.valueError.exc (R.urlError config.url)) rfl) := by
        simp only [checkUrl, unparsed]
      obtain ⟨e, same, cti⟩ := raises _ (httpFetch_refused refused)
      cases same
      cases cti
    · intro host failure permitted unresolved
      have refused := checkUrl_unresolved permitted unresolved
      exact foreign.resolve host failure unresolved (raises failure (httpFetch_refused refused))
    · intro passed failure unanswered
      exact foreign.answer _ failure unanswered
        (raises failure (httpFetch_unanswered passed unanswered))
    · intro response received
      rw [← decodeBody_raises foreign]
      intro failure malformed
      apply raises failure
      rw [httpFetch_received R codecs defaultContentType config _ received, malformed]
      rfl
  · intro readable failure raised
    rcases httpFetch_raises raised with refused | ⟨passed, unsent⟩ | ⟨response, rejected⟩ |
      ⟨response, received, malformed⟩
    · rcases checkUrl_raises refused with cti | unparsed | ⟨host, permitted, unresolved⟩
      · exact cti
      · exact absurd unparsed readable.parses
      · exact absurd unresolved (readable.resolves host failure permitted)
    · rcases sendRequest_raises unsent with cti | unanswered
      · exact cti
      · exact absurd unanswered (readable.answers passed failure)
    · exact checkResponse_raises rejected
    · exact (decodeBody_raises foreign).mpr (readable.decompresses response received) failure malformed

theorem letters_foreign (response : Response) :
    Foreign lettersCodecs (fun _ => .ok ["8.8.8.8".toList]) (fun _ => .ok response) := by
  have own : ∀ names message, ¬ CtiFailure (.leaf (pyError names message)
      (pyError_exception names message)) := by
    rintro names message ⟨e, same, cti⟩
    cases same
    simp [pyError, Exc.isA] at cti
  refine ⟨?_, ?_, ?_, ?_, ?_⟩
  · intro host failure raised
    cases raised
  · intro request failure raised
    cases raised
  · intro content failure raised
    simp only [lettersCodecs] at raised
    split at raised
    · cases raised
    · cases raised
      exact own _ _
  · rintro content failure ⟨rfl⟩
    exact own _ _
  · rintro content target failure ⟨rfl⟩
    exact own _ _

theorem fetch_contract_gzip :
    KeepsContract asciiRuntime lettersCodecs "text/plain".toList gzipConfig
      (publicUpstream packedLetters) (feedContext, ()) := by
  have readable : Readable asciiRuntime lettersCodecs gzipConfig (fun _ => .ok ["8.8.8.8".toList])
      (fun _ => .ok ⟨200, [], packedLetters⟩) 0 [] := by
    refine ⟨?_, ?_, ?_, ?_⟩
    · have passed : checkUrl asciiRuntime (fun _ => .ok ["8.8.8.8".toList]) gzipConfig.url
          gzipConfig.allowHttp = .ok () := (gzip_received packedLetters (by decide)).1
      obtain ⟨_, _, ⟨parsed, parse, _⟩, _⟩ := checkUrl_ok.mp passed
      rw [parse]
      exact Option.some_ne_none parsed
    · intro host failure _ unresolved
      cases unresolved
    · intro _ failure unanswered
      cases unanswered
    · rintro response ⟨_, answered, _, _⟩
      cases answered
      exact ⟨fun _ => ⟨List.replicate 100 97, rfl⟩, nofun⟩
  have foreign := letters_foreign ⟨200, [], packedLetters⟩
  exact (fetch_contract_iff foreign (feedContext, ())).mpr readable

/-- A body that is no gzip file ends the fetch with `BadGzipFile`. -/
theorem fetch_contract_broken :
    ¬ KeepsContract asciiRuntime lettersCodecs "text/plain".toList gzipConfig
      (publicUpstream [1]) (feedContext, ()) := by
  intro contract
  have fetched := httpFetch_received asciiRuntime lettersCodecs "text/plain".toList gzipConfig
    (publicUpstream [1]) (gzip_received [1] (by decide))
  have malformed : decodeBody lettersCodecs gzipConfig [1] = .error badGzipFile := rfl
  rw [malformed] at fetched
  have cti := keepsContract_iff.mp contract badGzipFile fetched
  have refused : lettersCodecs.gunzip [1] = .error badGzipFile := rfl
  exact (letters_foreign ⟨200, [], [1]⟩).gunzip [1] badGzipFile refused cti

end contract

end Cti
