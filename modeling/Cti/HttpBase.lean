import Cti.Plugins

set_option autoImplicit false

namespace Cti

open Py (Str)

structure HttpConnectorConfig where
  url : Str
  method : Str
  headers : List (Str × Str)
  authBearer : Option Str
  authBasic : Option (Str × Str)
  maxBytes : Int
  decompress : Option Str
  zipMember : Option Str
  allowHttp : Bool
  followRedirects : Bool

structure Request where
  method : Str
  url : Str
  headers : List (Str × Str)
  auth : Option (Str × Str)

structure Response where
  statusCode : Int
  headers : List (Str × Str)
  content : List UInt8

/-- `headers.get(name)`: names ignore case, and repeated headers are joined. -/
def Response.header (response : Response) (name : Str) : Option Str :=
  match response.headers.filter fun entry => entry.1.map Char.toLower = name.map Char.toLower with
  | [] => none
  | entries => some (", ".toList.intercalate (entries.map Prod.snd))

/-- What `httpx` raises: a timeout, another of its errors, or something else. -/
inductive RequestError where
  | timeout (message : Str)
  | http (message : Str)
  | other (failure : Failure)

/-- What a fetch meets outside: the verdict of `check_url`, the answer to its request, and
the clock. -/
structure Upstream where
  checkUrl : Str → Bool → Except Failure Unit
  answer : Request → Except RequestError Response
  now : Int

/-- The decoders of the standard library. -/
structure Codecs where
  gunzip : List UInt8 → Except Failure (List UInt8)
  zipNames : List UInt8 → Except Failure (List Str)
  zipRead : List UInt8 → Str → Except Failure (List UInt8)

/-- Assignment to a key of a dict of headers. -/
def setHeader (headers : List (Str × Str)) (name value : Str) : List (Str × Str) :=
  if (headers.lookup name).isSome then
    headers.map fun entry => if entry.1 = name then (name, value) else entry
  else headers ++ [(name, value)]

variable (R : Runtime) (codecs : Codecs) (defaultContentType : Str) (config : HttpConnectorConfig)

/-- The header that a stored value adds to the request, if there is one. -/
def conditionalHeader (watermark : Dict) (key name : Str) (headers : List (Str × Str)) :
    List (Str × Str) :=
  match watermark.get key with
  | some value => if value.truthy then setHeader headers name (value.text R) else headers
  | none => headers

/-- The conditional request. -/
def httpRequest (watermark : Dict) : Request where
  method := config.method
  url := config.url
  headers :=
    let headers := match config.authBearer with
      | some token =>
          if token = [] then config.headers
          else setHeader config.headers "Authorization".toList ("Bearer ".toList ++ token)
      | none => config.headers
    conditionalHeader R watermark "last_modified".toList "If-Modified-Since".toList
      (conditionalHeader R watermark "etag".toList "If-None-Match".toList headers)
  auth := config.authBasic

def ctiFailure (c : ClassName) (exception : c.mro.contains .exception = true) (message : Str) :
    Failure := .leaf (c.exc message) exception

/-- The request, with the errors of the client mapped to transient ones. -/
def sendRequest (upstream : Upstream) (watermark : Dict) : Except Failure Response :=
  match upstream.answer (httpRequest R config watermark) with
  | .ok response => .ok response
  | .error (.timeout message) => .error (ctiFailure .transientError rfl
      ("timeout fetching ".toList ++ config.url ++ ": ".toList ++ message))
  | .error (.http message) => .error (ctiFailure .transientError rfl
      ("http error fetching ".toList ++ config.url ++ ": ".toList ++ message))
  | .error (.other failure) => .error failure

/-- The checks on status and size. -/
def checkResponse (response : Response) : Except Failure Unit :=
  if response.statusCode = 429 then
    .error (ctiFailure .rateLimited rfl ("429 on ".toList ++ config.url))
  else if 500 ≤ response.statusCode ∧ response.statusCode < 600 then
    .error (ctiFailure .transientError rfl
      ("upstream ".toList ++ decimalText response.statusCode ++ " on ".toList ++ config.url))
  else if 400 ≤ response.statusCode then
    .error (ctiFailure .permanentError rfl
      ("client error ".toList ++ decimalText response.statusCode ++ " on ".toList ++ config.url))
  else if config.maxBytes < response.content.length then
    .error (ctiFailure .permanentError rfl
      ("payload exceeds max_bytes (".toList ++ decimalText response.content.length ++
        " > ".toList ++ decimalText config.maxBytes ++ ")".toList))
  else .ok ()

/-- The member of a zip archive to read. -/
def zipTarget (names : List Str) : Option Str :=
  match config.zipMember with
  | some member => if member = [] then names.head? else some member
  | none => names.head?

def decodeBody (content : List UInt8) : Except Failure (List UInt8) :=
  if config.decompress = some "gzip".toList then codecs.gunzip content
  else if config.decompress = some "zip".toList then do
    let names ← codecs.zipNames content
    match zipTarget config names with
    | some target => codecs.zipRead content target
    | none => .error (ctiFailure .permanentError rfl "zip archive empty".toList)
  else .ok content

/-- A header as a value of the watermark. -/
def headerVal : Option Str → Val
  | some text => .str text
  | none => .none

/-- The watermark with the stamps of a response. -/
def stamp (watermark : Dict) (response : Response) : Dict :=
  (watermark.set "etag".toList (headerVal (response.header "ETag".toList))).set
    "last_modified".toList (headerVal (response.header "Last-Modified".toList))

def responsePayload (upstream : Upstream) (response : Response) (body : List UInt8) :
    RawPayload where
  body := body
  contentType := (response.header "Content-Type".toList).getD defaultContentType
  headers := response.headers.map fun entry => (entry.1.map Char.toLower, entry.2)
  fetchedAt := upstream.now
  etag := response.header "ETag".toList
  lastModified := response.header "Last-Modified".toList
  sourceUrl := some config.url

/-- `HttpConnectorBase.fetch` up to its payload: the payload, if any, and the watermark as the
fetch leaves it. Whatever it raises it raises before it touches the watermark. -/
def httpFetch (upstream : Upstream) (watermark : Dict) :
    Except Failure (Option RawPayload × Dict) := do
  upstream.checkUrl config.url config.allowHttp
  let response ← sendRequest R config upstream watermark
  if response.statusCode = 304 then return (none, watermark)
  else
    checkResponse config response
    let body ← decodeBody codecs config response.content
    return (some (responsePayload defaultContentType config upstream response body),
      stamp watermark response)

/-- An HTTP connector; its generator yields at most once. -/
def httpConnector (S : Type) (upstream : Upstream) : Plugin.Connector S where
  Gen := Bool
  fetch := true
  resume fresh :=
    { returns := fun s answer s' =>
        if fresh then ∃ payload watermark,
          httpFetch R codecs defaultContentType config upstream s.1.watermark =
              .ok (payload, watermark) ∧
            answer = payload.map (fun payload => (payload, false)) ∧
            s' = ({ s.1 with watermark := watermark }, s.2)
        else answer = none ∧ s' = s
      raises := fun s failure s' =>
        fresh = true ∧
          httpFetch R codecs defaultContentType config upstream s.1.watermark = .error failure ∧
          s' = s
      answers := fun s => by
        cases fresh with
        | false => exact Or.inl ⟨none, s, by simp⟩
        | true =>
            cases result : httpFetch R codecs defaultContentType config upstream s.1.watermark with
            | error failure => exact Or.inr ⟨failure, s, rfl, rfl, rfl⟩
            | ok fetched =>
                refine Or.inl ⟨fetched.1.map fun payload => (payload, false),
                  ({ s.1 with watermark := fetched.2 }, s.2), ?_⟩
                simp only [↓reduceIte]
                exact ⟨fetched.1, fetched.2, rfl, rfl, rfl⟩ }

/-- The upstream's answer gets through all the checks of the fetch. -/
def Accepted (upstream : Upstream) (watermark : Dict) (response : Response) : Prop :=
  upstream.checkUrl config.url config.allowHttp = .ok () ∧
    upstream.answer (httpRequest R config watermark) = .ok response ∧
    response.statusCode ≠ 304 ∧ checkResponse config response = .ok () ∧
    ∃ body, decodeBody codecs config response.content = .ok body

/-- The watermark carries the stamps of the response already. -/
def Stamped (watermark : Dict) (response : Response) : Prop :=
  watermark.get "etag".toList = some (headerVal (response.header "ETag".toList)) ∧
    watermark.get "last_modified".toList =
      some (headerVal (response.header "Last-Modified".toList))

/-- Two dicts that Python takes for equal. -/
def SameDict (d d' : Dict) : Prop := ∀ key, d.get key = d'.get key

private theorem lookup_map_set (d : Dict) (key key' : Str) (value : Val) :
    (d.map fun entry => if entry.1 = key then (key, value) else entry).lookup key' =
      if key' = key then (d.lookup key').map (fun _ => value) else d.lookup key' := by
  induction d with
  | nil => simp
  | cons entry d ih =>
      rw [List.map_cons, List.lookup_cons, List.lookup_cons]
      by_cases here : entry.1 = key
      · rw [if_pos here]
        by_cases same : key' = key
        · simp [same, here]
        · have other : (key' == key) = false := by simpa using same
          rw [ih]
          simp [same, here, other]
      · rw [if_neg here, ih]
        by_cases same : key' = key
        · have other : (key == entry.1) = false := by
            rw [beq_eq_false_iff_ne]
            exact fun equal => here equal.symm
          subst same
          simp [other]
        · simp [same]

theorem Dict.get_set (d : Dict) (key key' : Str) (value : Val) :
    (d.set key value).get key' = if key' = key then some value else d.get key' := by
  unfold Dict.set Dict.get
  split
  · rename_i present
    rw [lookup_map_set]
    obtain ⟨old, found⟩ := Option.isSome_iff_exists.mp present
    by_cases same : key' = key
    · rw [if_pos same, if_pos same, same, found]
      rfl
    · rw [if_neg same, if_neg same]
  · rename_i absent
    rw [List.lookup_append]
    by_cases same : key' = key
    · subst same
      have none : d.lookup key' = none := Option.not_isSome_iff_eq_none.mp absent
      simp [none]
    · have other : (key' == key) = false := by simpa using same
      simp [List.lookup_cons, other, same]

theorem stamp_same_iff (watermark : Dict) (response : Response) :
    SameDict (stamp watermark response) watermark ↔ Stamped watermark response := by
  have apart : "etag".toList ≠ "last_modified".toList := by decide
  unfold SameDict Stamped stamp
  simp only [Dict.get_set]
  constructor
  · intro same
    have etag := same "etag".toList
    have modified := same "last_modified".toList
    rw [if_neg apart, if_pos rfl] at etag
    rw [if_pos rfl] at modified
    exact ⟨etag.symm, modified.symm⟩
  · rintro ⟨etag, modified⟩ key
    split
    · rename_i same
      rw [same, modified]
    · split
      · rename_i same
        rw [same, etag]
      · rfl

theorem stamp_stamped (watermark : Dict) (response : Response) :
    Stamped (stamp watermark response) response := by
  have apart : "etag".toList ≠ "last_modified".toList := by decide
  unfold Stamped stamp
  simp only [Dict.get_set]
  exact ⟨by rw [if_neg apart, if_pos trivial], by rw [if_pos trivial]⟩

theorem Stamped.congr {d d' : Dict} {response : Response} (same : SameDict d d')
    (stamped : Stamped d' response) : Stamped d response :=
  ⟨(same _).trans stamped.1, (same _).trans stamped.2⟩

/-- A fetch either gets a response through all its checks and stamps the watermark with it, or
leaves the watermark alone. -/
theorem httpFetch_cases (upstream : Upstream) (watermark : Dict) :
    (∃ response body, Accepted R codecs config upstream watermark response ∧
      httpFetch R codecs defaultContentType config upstream watermark =
        .ok (some (responsePayload defaultContentType config upstream response body),
          stamp watermark response)) ∨
      (∀ response, ¬ Accepted R codecs config upstream watermark response) ∧
        (httpFetch R codecs defaultContentType config upstream watermark = .ok (none, watermark) ∨
          ∃ failure,
            httpFetch R codecs defaultContentType config upstream watermark = .error failure) := by
  unfold httpFetch Accepted sendRequest
  cases guard : upstream.checkUrl config.url config.allowHttp with
  | error failure =>
      refine Or.inr ⟨?_, Or.inr ⟨failure, rfl⟩⟩
      rintro response ⟨passed, _⟩
      cases passed
  | ok _ =>
      cases answer : upstream.answer (httpRequest R config watermark) with
      | error e =>
          refine Or.inr ⟨?_, Or.inr ?_⟩
          · rintro response ⟨_, passed, _⟩
            cases passed
          · cases e <;> exact ⟨_, rfl⟩
      | ok response =>
          have only : ∀ {response'}, (Except.ok response : Except RequestError Response) =
              .ok response' → response' = response := by
            intro response' same
            cases same
            rfl
          by_cases unmodified : response.statusCode = 304
          · refine Or.inr ⟨?_, Or.inl ?_⟩
            · rintro response' ⟨_, same, other, _⟩
              exact other (only same ▸ unmodified)
            · simp only [bind, Except.bind, unmodified, if_true]
              rfl
          · cases checked : checkResponse config response with
            | error failure =>
                refine Or.inr ⟨?_, Or.inr ⟨failure, ?_⟩⟩
                · rintro response' ⟨_, same, _, passed, _⟩
                  rw [only same, checked] at passed
                  cases passed
                · simp only [bind, Except.bind, unmodified, if_false, checked]
            | ok _ =>
                cases decoded : decodeBody codecs config response.content with
                | error failure =>
                    refine Or.inr ⟨?_, Or.inr ⟨failure, ?_⟩⟩
                    · rintro response' ⟨_, same, _, _, body, passed⟩
                      rw [only same, decoded] at passed
                      cases passed
                    · simp only [bind, Except.bind, unmodified, if_false, checked, decoded]
                | ok body =>
                    refine Or.inl ⟨response, body, ⟨rfl, rfl, unmodified, checked, body, decoded⟩,
                      ?_⟩
                    simp only [bind, Except.bind, unmodified, if_false, checked, decoded]
                    rfl

end Cti
