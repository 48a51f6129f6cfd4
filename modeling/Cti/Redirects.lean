import Cti.Egress

set_option autoImplicit false

/- The requests of a fetch, redirects included. -/
namespace Cti

open Py (Str)

/-- The servers and the resolver as one fetch meets them. The URL is checked at moment 0 and
the k-th request is sent at moment k + 1. The client builds the request for the target of a
redirect itself. -/
structure Internet where
  resolve : Nat → Resolver
  serve : Nat → Request → Except RequestError Response
  redirect : Request → Response → Option Request
  maxRedirects : Nat
  now : Int

namespace Internet

variable (net : Internet)

/-- The loop of the client: the requests that it sends, and its result. -/
def send (follow : Bool) : Nat → Nat → Request → List Request × Except RequestError Response
  | 0, _, _ => ([], .error (.http "Exceeded maximum allowed redirects.".toList))
  | fuel + 1, k, request =>
      match net.serve k request with
      | .error e => ([request], .error e)
      | .ok response =>
          match net.redirect request response with
          | none => ([request], .ok response)
          | some target =>
              if follow then
                let (sent, result) := send follow fuel (k + 1) target
                (request :: sent, result)
              else ([request], .ok response)

/-- The redirect targets that the servers name, one after the other. -/
def targets : Nat → Nat → Request → List Request
  | 0, _, _ => []
  | fuel + 1, k, request =>
      match net.serve k request with
      | .error _ => []
      | .ok response =>
          match net.redirect request response with
          | none => []
          | some target => target :: targets fuel (k + 1) target

theorem send_follow (fuel k : Nat) (request : Request) :
    (net.send true (fuel + 1) k request).1 = request :: net.targets fuel k request := by
  induction fuel generalizing k request with
  | zero =>
      unfold send targets
      split
      · rfl
      · split <;> rfl
  | succ fuel ih =>
      unfold send targets
      split
      · rfl
      · split
        · rfl
        · simp only [if_true]
          rw [ih]

theorem send_once (fuel k : Nat) (request : Request) :
    (net.send false (fuel + 1) k request).1 = [request] := by
  unfold send
  split
  · rfl
  · split <;> rfl

end Internet

variable (R : Runtime) (config : HttpConnectorConfig) (net : Internet) (watermark : Dict)

/-- What `client.request` does with the redirect setting of the connector. -/
def clientRequest (request : Request) : List Request × Except RequestError Response :=
  net.send config.followRedirects (net.maxRedirects + 1) 0 request

/-- The outside of a fetch, as far as its code sees it. -/
def Internet.upstream : Upstream where
  checkUrl := checkUrl R (net.resolve 0)
  answer request := (clientRequest config net request).2
  now := net.now

/-- The requests that a fetch causes. -/
def fetchRequests : List Request :=
  match checkUrl R (net.resolve 0) config.url config.allowHttp with
  | .error _ => []
  | .ok () => (clientRequest config net (httpRequest R config watermark)).1

/-- A fetch that sends nothing fails, and does not get a payload from anywhere. -/
theorem fetchRequests_nil (codecs : Codecs) (defaultContentType : Str)
    (silent : fetchRequests R config net watermark = []) :
    ∃ failure, httpFetch R codecs defaultContentType config (net.upstream R config) watermark =
      .error failure := by
  unfold fetchRequests at silent
  cases guard : checkUrl R (net.resolve 0) config.url config.allowHttp with
  | error failure =>
      refine ⟨failure, ?_⟩
      simp only [httpFetch, Internet.upstream, guard]
      rfl
  | ok _ =>
      rw [guard] at silent
      cases follow : config.followRedirects with
      | false => simp [clientRequest, follow, Internet.send_once] at silent
      | true => simp [clientRequest, follow, Internet.send_follow] at silent

/-- Every URL passes the guard at the moment at which it is requested. -/
def Guarded : Prop :=
  ∀ k request, (fetchRequests R config net watermark)[k]? = some request →
    checkUrl R (net.resolve (k + 1)) request.url config.allowHttp = .ok ()

theorem forall_getElem?_cons {α : Type} {P : Nat → α → Prop} {a : α} {l : List α} :
    (∀ k x, (a :: l)[k]? = some x → P k x) ↔ P 0 a ∧ ∀ k x, l[k]? = some x → P (k + 1) x := by
  constructor
  · intro all
    refine ⟨all 0 a List.getElem?_cons_zero, ?_⟩
    intro k x found
    exact all (k + 1) x (List.getElem?_cons_succ.trans found)
  · rintro ⟨first, rest⟩ k x found
    cases k with
    | zero =>
        rw [List.getElem?_cons_zero, Option.some.injEq] at found
        rw [← found]
        exact first
    | succ k =>
        rw [List.getElem?_cons_succ] at found
        exact rest k x found

/-- Nobody checks the targets of redirects: every URL is checked exactly if nothing is
requested at all, or the answer of the resolver for the configured host is still good, and
redirects are not followed or lead to permitted URLs only. -/
theorem egress_guarded_iff :
    Guarded R config net watermark ↔
      (∃ failure, checkUrl R (net.resolve 0) config.url config.allowHttp = .error failure) ∨
        checkUrl R (net.resolve 1) config.url config.allowHttp = .ok () ∧
          (config.followRedirects = false ∨
            ∀ k target,
              (net.targets net.maxRedirects 0 (httpRequest R config watermark))[k]? = some target →
                checkUrl R (net.resolve (k + 2)) target.url config.allowHttp = .ok ()) := by
  unfold Guarded fetchRequests clientRequest
  cases guard : checkUrl R (net.resolve 0) config.url config.allowHttp with
  | error failure => simp
  | ok _ =>
      have refused : ¬ ∃ failure, (Except.ok () : Except Failure Unit) = .error failure := nofun
      rw [or_iff_right refused]
      cases follow : config.followRedirects with
      | false =>
          simp only [net.send_once]
          rw [forall_getElem?_cons (P := fun k (request : Request) =>
            checkUrl R (net.resolve (k + 1)) request.url config.allowHttp = .ok ())]
          refine and_congr_right fun _ => ?_
          exact ⟨fun _ => Or.inl trivial, fun _ => nofun⟩
      | true =>
          have follows : ¬ (true = false) := nofun
          simp only [net.send_follow]
          rw [forall_getElem?_cons (P := fun k (request : Request) =>
            checkUrl R (net.resolve (k + 1)) request.url config.allowHttp = .ok ()),
            or_iff_right follows]
          exact Iff.rfl

/-- The default settings for a feed. -/
def feedConfig : HttpConnectorConfig where
  url := "https://feed.example/".toList
  method := "GET".toList
  headers := []
  authBearer := none
  authBasic := none
  maxBytes := 268435456
  decompress := none
  zipMember := none
  allowHttp := false
  followRedirects := true

/-- A feed that redirects to the metadata service. -/
def redirectingNet : Internet where
  resolve _ host :=
    if host = "feed.example".toList then .ok ["93.184.216.34".toList] else .ok [host]
  serve k _ :=
    if k = 0 then
      .ok ⟨302, [("location".toList, "http://169.254.169.254/latest/".toList)], []⟩
    else .ok ⟨200, [], []⟩
  redirect request response :=
    if response.statusCode = 302 then
      (response.header "Location".toList).map fun url => { request with url := url }
    else none
  maxRedirects := 20
  now := 0

theorem redirect_escapes_guard :
    ((fetchRequests asciiRuntime feedConfig redirectingNet []).map Request.url =
      ["https://feed.example/".toList, "http://169.254.169.254/latest/".toList]) ∧
      isBlocked "169.254.169.254".toList = true ∧
      ¬ Guarded asciiRuntime feedConfig redirectingNet [] := by
  refine ⟨rfl, by decide, ?_⟩
  intro guarded
  have passed := guarded 1 ⟨"GET".toList, "http://169.254.169.254/latest/".toList, [], none⟩ rfl
  cases passed

end Cti
