import InferenceApi.Api.ExceptionHandlers
import InferenceApi.Api.Health
import InferenceApi.Services.Traces

/-!
# Do the metrics agree with the responses?

`record_metrics` of `app/main.py` reads its counters off the finished responses. Two outcomes
of a request escape it: an exception that only the handler of `Exception` answers, as none is
registered or none can render its response, passes through the middleware before it is answered;
and a stream rejected by the open circuit says so in its body, under status 200.
-/

namespace InferenceApi

/-- `ClassifyResponse`. -/
structure ClassifyResponse where
  label : String
  confidence : ℚ
  modelVersion : String
  latencyMs : ℚ

/-! ## The routes -/

/-- `InferResponse` as it is serialised. -/
def InferResponse.fields (resp : InferResponse) : List (String × Json) :=
  [("request_id", .str resp.requestId), ("output", .str resp.output), ("model", .str resp.model),
    ("usage", .obj (resp.usage.map fun kv => (kv.1, .num (.int kv.2)))),
    ("latency_ms", .num (.float (.rat resp.latencyMs))), ("cache_hit", .bool resp.cacheHit)]

/-- `ClassifyResponse` as it is serialised. -/
def ClassifyResponse.fields (resp : ClassifyResponse) : List (String × Json) :=
  [("label", .str resp.label), ("confidence", .num (.float (.rat resp.confidence))),
    ("model_version", .str resp.modelVersion), ("latency_ms", .num (.float (.rat resp.latencyMs)))]

/-- `HealthResponse` as it is serialised. -/
def HealthResponse.fields (resp : HealthResponse) : List (String × Json) :=
  [("status", .str resp.status), ("redis", .str resp.redis), ("llm_circuit", .str resp.llmCircuit),
    ("models_loaded", .arr (resp.modelsLoaded.map .str))]

/-- A request to one of the routes with what came of it: what the route returned, or which
exception left it, its dependencies or the framework. Of a stream these are its frames. Where
a response cannot be rendered, the exception of that is what came of the request. -/
inductive Request
  | infer (result : Except AppExn InferResponse)
  | stream (result : Except AppExn (List Frame))
  | classify (result : Except AppExn ClassifyResponse)
  | health (result : Except AppExn HealthResponse)

/-- `request.url.path`. -/
def Request.path : Request → String
  | .infer _ => "/v1/infer"
  | .stream _ => "/v1/infer/stream"
  | .classify _ => "/v1/classify"
  | .health _ => "/health"

/-- The response of the route, or the exception. -/
def Request.routed : Request → Except AppExn Response
  | .infer result => result.map fun resp => ⟨200, [], .json resp.fields⟩
  | .stream result => result.map fun _ =>
    ⟨200, [("Cache-Control", "no-cache"), ("X-Accel-Buffering", "no")], .events⟩
  | .classify result => result.map fun resp => ⟨200, [], .json resp.fields⟩
  | .health result => result.map fun resp => ⟨200, [], .json resp.fields⟩

variable (F : FastApi)

/-- What `call_next` returns to the middleware, or `none` where it raises. -/
def Request.handled (r : Request) : Option Response :=
  match r.routed with
  | .ok resp => some resp
  | .error e => handleException F e

/-- The outermost layer: the handler of `Exception` answers what has left the application, if
it is an `Exception` at all. -/
def serverError : AppExn → Option Response
  | .service .cancelledError => none
  | _ => handleUnexpectedException

/-- The response the client is sent, if any. -/
def Request.sent (r : Request) : Option Response :=
  match r.routed with
  | .ok resp => some resp
  | .error e => handleException F e <|> serverError e

/-! ## The middleware -/

/-- The counters. `HTTP_REQUESTS` has a value for each path and status class. -/
structure Counters where
  httpRequests : String → String → ℕ := fun _ _ => 0
  cacheHits : ℕ := 0
  rateLimits : ℕ := 0
  circuitOpens : ℕ := 0

/-- `TRACKED_HTTP_PATHS`. -/
def trackedHttpPaths : List String :=
  ["/health", "/v1/infer", "/v1/infer/stream", "/v1/classify"]

/-- `_metric_path_label`. -/
def metricPathLabel (path : String) : String := if path ∈ trackedHttpPaths then path else "other"

/-- `_status_class_label`. -/
def statusClassLabel (statusCode : ℕ) : String := toString (statusCode / 100) ++ "xx"

/-- `payload.get("cache_hit") is True`. -/
def isCacheHit (payload : List (String × Json)) : Bool :=
  match Json.lookup payload "cache_hit" with
  | some (.bool hit) => hit
  | _ => false

/-- The `detail` of a rejection by the open circuit. -/
def isCircuitOpen (statusCode : ℕ) (payload : List (String × Json)) : Bool :=
  statusCode = 503 &&
    match Json.lookup payload "detail" with
    | some (.obj detail) =>
      match Json.lookup detail "error" with
      | some (.str error) => error = "service unavailable"
      | _ => false
    | _ => false

/-- The part of `record_metrics` that reads the body of an `infer` response. -/
def recordInfer (statusCode : ℕ) (payload : List (String × Json)) (counters : Counters) :
    Counters :=
  let counters := if isCacheHit payload then { counters with cacheHits := counters.cacheHits + 1 }
    else counters
  if isCircuitOpen statusCode payload then
    { counters with circuitOpens := counters.circuitOpens + 1 }
  else counters

/-- `HTTP_REQUESTS.labels(...).inc()`. -/
def Counters.incHttpRequests (counters : Counters) (path statusClass : String) : Counters :=
  { counters with
    httpRequests := fun path' statusClass' =>
      counters.httpRequests path' statusClass' +
        if path = path' ∧ statusClass = statusClass' then 1 else 0 }

/-- The condition of that part: only a JSON response to `/v1/infer` is read. -/
def recordBody (path : String) (response : Response) (counters : Counters) : Counters :=
  match response.body with
  | .json payload =>
    if path = "/v1/infer" then recordInfer response.statusCode payload counters else counters
  | .events => counters

/-- `record_metrics`, from the response of `call_next` on. -/
def recordMetrics (path : String) (response : Response) (counters : Counters) : Counters :=
  -- `/metrics` itself is left out, after its body was looked at
  let counters := recordBody path response counters
  if path = "/metrics" then counters
  else
    let counters :=
      counters.incHttpRequests (metricPathLabel path) (statusClassLabel response.statusCode)
    if response.statusCode = 429 then { counters with rateLimits := counters.rateLimits + 1 }
    else counters

/-- One request and the counters: where `call_next` raises, the middleware does. -/
def Request.record (r : Request) (counters : Counters) : Counters :=
  match r.handled F with
  | some response => recordMetrics r.path response counters
  | none => counters

/-- The counters after a run of requests, the last recorded first. -/
def counted : List Request → Counters
  | [] => {}
  | r :: requests => r.record F (counted requests)

/-! ## What the counters should say -/

namespace Request

/-- A response of this status class was sent for this path. -/
def sentAs (path statusClass : String) (r : Request) : Bool :=
  r.path = path && (r.sent F).any fun resp => statusClassLabel resp.statusCode = statusClass

/-- A 429 was sent. -/
def sent429 (r : Request) : Bool := (r.sent F).any fun resp => resp.statusCode = 429

/-- An `infer` response with `cache_hit` true was sent. -/
def servedFromCache : Request → Bool
  | .infer (.ok resp) => resp.cacheHit
  | _ => false

end Request

/-- The exception with which the open circuit rejects a call of `infer`. -/
def AppExn.isCircuitOpenError : AppExn → Bool
  | .service (.circuitOpenError _) => true
  | _ => false

/-- The frame with which it rejects a stream. -/
def Frame.isRejected : Frame → Bool
  | .rejected _ => true
  | _ => false

/-- The request was refused because the circuit was open. -/
def Request.refused : Request → Bool
  | .infer (.error e) => e.isCircuitOpenError
  | .stream (.error e) => e.isCircuitOpenError
  | .stream (.ok frames) => frames.any Frame.isRejected
  | _ => false

/-- The counters agree with what the clients of a run received. -/
structure Agrees (counters : Counters) (requests : List Request) : Prop where
  httpRequests : ∀ path statusClass,
    counters.httpRequests path statusClass = requests.countP (Request.sentAs F path statusClass)
  rateLimits : counters.rateLimits = requests.countP (Request.sent429 F)
  cacheHits : counters.cacheHits = requests.countP Request.servedFromCache
  circuitOpens : counters.circuitOpens = requests.countP Request.refused

/-- No registered handler answers the exception: none is registered for it but the one of
`Exception`, the `ErrorResponse` of its own does not validate, or FastAPI's handler cannot render
its response. -/
def AppExn.Unexpected : AppExn → Prop
  | .rateLimitExceeded retryAfterS _ _ _ => retryAfterS < 0
  | .modelVersionNotFound _ => False
  | .requestValidationError errors => F.requestValidationExceptionHandler errors = none
  | .httpException statusCode detail => F.httpExceptionHandler statusCode detail = none
  | .service (.circuitOpenError retryAfterS) => retryAfterS < 0
  | .service .timeoutError => False
  | .service (.upstreamProviderError _) => False
  | .service (.redis .connectionError) => False
  | .service .cancelledError => False
  | .service _ => True

/-- The request ends in an unexpected exception, which becomes a 500. -/
def Request.Unexpected (r : Request) : Prop := ∃ e, r.routed = .error e ∧ e.Unexpected F

/-- The request is a stream that the open circuit rejects. -/
def Request.StreamRefused (r : Request) : Prop := r.refused ∧ ∃ result, r = .stream result

/-! ## What the middleware counts -/

section Middleware

variable {path : String} {statusCode : ℕ} {payload : List (String × Json)} {response : Response}
  {r : Request}

lemma path_mem_trackedHttpPaths (r : Request) : r.path ∈ trackedHttpPaths := by
  cases r <;> simp [Request.path, trackedHttpPaths]

lemma metricPathLabel_path (r : Request) : metricPathLabel r.path = r.path :=
  if_pos (path_mem_trackedHttpPaths r)

lemma path_ne_metrics (r : Request) : r.path ≠ "/metrics" := by
  cases r <;> simp [Request.path]

/-- The middleware reads the body of the response and finds `p`. -/
def Response.shows (path : String) (p : ℕ → List (String × Json) → Bool) (response : Response) :
    Bool :=
  match response.body with
  | .json payload => path = "/v1/infer" && p response.statusCode payload
  | .events => false

lemma recordInfer_eq (counters : Counters) : recordInfer statusCode payload counters =
    { counters with
      cacheHits := counters.cacheHits + if isCacheHit payload then 1 else 0
      circuitOpens :=
        counters.circuitOpens + if isCircuitOpen statusCode payload then 1 else 0 } := by
  unfold recordInfer
  dsimp only
  split <;> split <;> rfl

lemma recordBody_eq (counters : Counters) : recordBody path response counters =
    { counters with
      cacheHits := counters.cacheHits +
        if response.shows path (fun _ => isCacheHit) then 1 else 0
      circuitOpens := counters.circuitOpens +
        if response.shows path isCircuitOpen then 1 else 0 } := by
  unfold recordBody Response.shows
  split
  · by_cases hpath : path = "/v1/infer"
    · rw [if_pos hpath, recordInfer_eq]
      simp [hpath]
    · rw [if_neg hpath]
      simp [hpath]
  · rfl

lemma recordMetrics_eq (hpath : path ≠ "/metrics") (counters : Counters) :
    recordMetrics path response counters =
      { httpRequests := fun path' statusClass => counters.httpRequests path' statusClass +
          if metricPathLabel path = path' ∧ statusClassLabel response.statusCode = statusClass
            then 1 else 0
        cacheHits := counters.cacheHits +
          if response.shows path (fun _ => isCacheHit) then 1 else 0
        rateLimits := counters.rateLimits + if response.statusCode = 429 then 1 else 0
        circuitOpens := counters.circuitOpens +
          if response.shows path isCircuitOpen then 1 else 0 } := by
  unfold recordMetrics
  dsimp only
  rw [if_neg hpath, recordBody_eq, Counters.incHttpRequests]
  split <;> rfl

namespace Request

/-- The middleware gets a response of this status class for this path. -/
def handledAs (path statusClass : String) (r : Request) : Bool :=
  r.path = path && (r.handled F).any fun resp => statusClassLabel resp.statusCode = statusClass

/-- It gets a 429. -/
def handled429 (r : Request) : Bool := (r.handled F).any fun resp => resp.statusCode = 429

/-- It reads a body and finds `p`. -/
def shows (p : ℕ → List (String × Json) → Bool) (r : Request) : Bool :=
  (r.handled F).any (Response.shows r.path p)

/-- What is counted of one request. -/
lemma record_eq (r : Request) (counters : Counters) : r.record F counters =
    { httpRequests := fun path statusClass =>
        counters.httpRequests path statusClass + if r.handledAs F path statusClass then 1 else 0
      cacheHits := counters.cacheHits + if r.shows F fun _ => isCacheHit then 1 else 0
      rateLimits := counters.rateLimits + if r.handled429 F then 1 else 0
      circuitOpens := counters.circuitOpens + if r.shows F isCircuitOpen then 1 else 0 } := by
  unfold record handledAs handled429 shows
  cases r.handled F with
  | none => simp
  | some response =>
    dsimp only
    rw [recordMetrics_eq (path_ne_metrics r), metricPathLabel_path]
    simp

end Request

/-- What is counted of a run. -/
theorem counted_eq (requests : List Request) : counted F requests =
    { httpRequests := fun path statusClass => requests.countP (Request.handledAs F path statusClass)
      cacheHits := requests.countP (Request.shows F fun _ => isCacheHit)
      rateLimits := requests.countP (Request.handled429 F)
      circuitOpens := requests.countP (Request.shows F isCircuitOpen) } := by
  induction requests with
  | nil => rfl
  | cons r requests ih =>
    rw [counted, ih, Request.record_eq]
    simp only [List.countP_cons]

end Middleware

/-! ## The exceptions -/

section Exceptions

variable {F} {e : AppExn} {resp : Response} {r : Request}

/-- The registered handlers answer all but the unexpected exceptions and cancellation. -/
lemma handleException_eq_none_iff :
    handleException F e = none ↔ e.Unexpected F ∨ e = .service .cancelledError := by
  -- a handler whose own `ErrorResponse` does not validate raises, and answers nothing
  cases e with
  | rateLimitExceeded retryAfterS =>
    simp [handleException, handleRateLimitExceeded, errorResponse, AppExn.Unexpected]
  | modelVersionNotFound =>
    simp [handleException, handleModelVersionNotFound, errorResponse, AppExn.Unexpected]
  | requestValidationError =>
    simp [handleException, handleRequestValidationError, AppExn.Unexpected]
  | httpException => simp [handleException, handleHttpException, AppExn.Unexpected]
  | service e =>
    cases e with
    | timeoutError => simp [handleException, handleTimeoutError, errorResponse, AppExn.Unexpected]
    | upstreamProviderError =>
      simp [handleException, handleUpstreamProviderError, errorResponse, AppExn.Unexpected]
    | circuitOpenError =>
      simp [handleException, handleCircuitOpenError, errorResponse, AppExn.Unexpected]
    | redis e =>
      cases e <;>
        simp [handleException, handleRedisConnectionError, errorResponse, AppExn.Unexpected]
    | cancelledError => simp [handleException]
    | _ => simp [handleException, AppExn.Unexpected]

lemma errorResponse_spec {statusCode : ℕ} {error : String} {retryAfterS : Option ℚ}
    {headers : List (String × String)}
    (h : errorResponse statusCode error retryAfterS headers = some resp) :
    resp.statusCode = statusCode ∧ ∃ retryAfter, resp.body =
      .json [("detail", .obj [("error", .str error), ("retry_after_s", retryAfter)])] := by
  unfold errorResponse at h
  dsimp only at h
  split at h
  · cases h
    exact ⟨rfl, _, rfl⟩
  · cases h

/-- An `ErrorResponse` has no `cache_hit`, and it looks like a rejection by the open circuit if
its status and its text are those of one. -/
lemma shows_errorResponse {statusCode : ℕ} {error : String} {retryAfterS : Option ℚ}
    {headers : List (String × String)}
    (h : errorResponse statusCode error retryAfterS headers = some resp) :
    resp.shows "/v1/infer" (fun _ => isCacheHit) = false ∧
      resp.shows "/v1/infer" isCircuitOpen =
        (decide (statusCode = 503) && decide (error = "service unavailable")) := by
  obtain ⟨hstatus, retryAfter, hbody⟩ := errorResponse_spec h
  unfold Response.shows
  rw [hbody, hstatus]
  exact ⟨rfl, rfl⟩

/-- What the middleware finds in the response to an exception. -/
lemma shows_handleException (h : handleException F e = some resp) :
    resp.shows "/v1/infer" (fun _ => isCacheHit) = false ∧
      resp.shows "/v1/infer" isCircuitOpen = e.isCircuitOpenError := by
  unfold handleException at h
  split at h
  -- the two handlers without an `ErrorResponse`, and the exceptions without a handler
  case h_3 =>
    obtain ⟨hstatus, detail, hbody⟩ := F.validation_spec _ _ h
    unfold Response.shows
    rw [hbody, hstatus]
    exact ⟨rfl, rfl⟩
  case h_4 =>
    obtain ⟨-, hfields⟩ := F.http_spec _ _ _ h
    unfold Response.shows
    cases hbody : resp.body with
    | json fields =>
      rw [hfields fields hbody]
      exact ⟨rfl, Bool.and_false _⟩
    | events => exact ⟨rfl, rfl⟩
  case h_9 => cases h
  all_goals
    obtain ⟨hhit, hopen⟩ := shows_errorResponse h
    refine ⟨hhit, hopen.trans ?_⟩
    simp [AppExn.isCircuitOpenError]

/-- What the last layer answers is a 500. -/
lemma serverError_spec (he : e ≠ .service .cancelledError) :
    ∃ resp, serverError e = some resp ∧ resp.statusCode = 500 := by
  unfold serverError
  split
  · exact absurd rfl he
  · exact ⟨_, rfl, rfl⟩

namespace Request

lemma handled_of_unexpected (h : r.Unexpected F) : r.handled F = none := by
  obtain ⟨e, hr, he⟩ := h
  rw [handled, hr]
  exact handleException_eq_none_iff.mpr (Or.inl he)

/-- An unexpected exception becomes a 500 behind the middleware's back. -/
lemma sent_of_unexpected (h : r.Unexpected F) :
    ∃ resp, r.sent F = some resp ∧ resp.statusCode = 500 := by
  obtain ⟨e, hr, he⟩ := h
  obtain ⟨resp, hresp, hstatus⟩ := serverError_spec (e := e) (by rintro rfl; exact he)
  refine ⟨resp, ?_, hstatus⟩
  rw [sent, hr]
  dsimp only
  rw [handleException_eq_none_iff.mpr (Or.inl he), hresp]
  rfl

/-- All other responses pass through it. -/
lemma sent_of_not_unexpected (h : ¬ r.Unexpected F) : r.sent F = r.handled F := by
  unfold sent handled
  cases hr : r.routed with
  | ok resp => rfl
  | error e =>
    dsimp only
    cases hresp : handleException F e with
    | some resp => rfl
    | none =>
      rcases handleException_eq_none_iff.mp hresp with he | rfl
      · exact absurd ⟨e, hr, he⟩ h
      · rfl

end Request

end Exceptions

section Agreement

variable {F} {r : Request} {requests : List Request} {path statusClass : String}

namespace Request

lemma sentAs_of_not_unexpected (h : ¬ r.Unexpected F) :
    r.sentAs F path statusClass = r.handledAs F path statusClass := by
  rw [sentAs, handledAs, sent_of_not_unexpected h]

/-- Every response the middleware gets is sent. -/
lemma sentAs_of_handledAs (h : r.handledAs F path statusClass) :
    r.sentAs F path statusClass := by
  by_cases hr : r.Unexpected F
  · rw [handledAs, handled_of_unexpected hr] at h
    simp at h
  · rwa [sentAs_of_not_unexpected hr]

/-- A 429 is never unexpected. -/
lemma sent429_eq (r : Request) : r.sent429 F = r.handled429 F := by
  by_cases hr : r.Unexpected F
  · obtain ⟨resp, hresp, hstatus⟩ := sent_of_unexpected hr
    rw [sent429, handled429, hresp, handled_of_unexpected hr]
    simp [hstatus]
  · rw [sent429, handled429, sent_of_not_unexpected hr]

/-- Responses for other paths are not read. -/
lemma shows_of_path_ne {p : ℕ → List (String × Json) → Bool} (hpath : r.path ≠ "/v1/infer") :
    r.shows F p = false := by
  unfold shows
  cases r.handled F with
  | none => rfl
  | some resp =>
    unfold Option.any Response.shows
    dsimp only
    split
    · simp [hpath]
    · rfl

/-- Cache hits are read off correctly. -/
lemma shows_isCacheHit (r : Request) : (r.shows F fun _ => isCacheHit) = r.servedFromCache := by
  cases r with
  | infer result =>
    cases result with
    | ok resp => rfl
    | error e =>
      unfold shows handled
      dsimp only [routed, Except.map]
      cases hresp : handleException F e with
      | none => rfl
      | some resp => exact (shows_handleException hresp).1
  | _ => exact shows_of_path_ne (by simp [path])

/-- Of the refusals by the open circuit, those of `infer` are seen. -/
lemma shows_isCircuitOpen_iff :
    r.shows F isCircuitOpen ↔ r.refused ∧ ¬ r.StreamRefused ∧ ¬ r.Unexpected F := by
  cases r with
  | infer result =>
    have hstream : ¬ (infer result).StreamRefused := by simp [StreamRefused]
    cases result with
    -- a response of the route has status 200 and cannot look like a refusal
    | ok resp =>
      have hrefused : (infer (.ok resp)).refused = false := rfl
      have hshows : (infer (.ok resp)).shows F isCircuitOpen = false := rfl
      simp [hrefused, hshows]
    | error e =>
      by_cases hunexp : (infer (.error e)).Unexpected F
      · simp [shows, handled_of_unexpected hunexp, hunexp]
      · have hshows : (infer (.error e)).shows F isCircuitOpen = e.isCircuitOpenError := by
          unfold shows handled
          dsimp only [routed, Except.map]
          cases hresp : handleException F e with
          | some resp => exact (shows_handleException hresp).2
          | none =>
            rcases handleException_eq_none_iff.mp hresp with he | rfl
            · exact absurd ⟨e, rfl, he⟩ hunexp
            · rfl
        rw [hshows]
        exact ⟨fun h => ⟨h, hstream, hunexp⟩, fun h => h.1⟩
  | stream result =>
    rw [shows_of_path_ne (by simp [path])]
    simp +contextual [StreamRefused]
  | classify =>
    rw [shows_of_path_ne (by simp [path])]
    simp [refused]
  | health =>
    rw [shows_of_path_ne (by simp [path])]
    simp [refused]

end Request

/-- Where what one predicate counts is counted by the other, the counts are equal exactly if the
converse holds too. -/
lemma countP_eq_countP_iff {α : Type} {p q : α → Bool} {l : List α} (hpq : ∀ a ∈ l, p a → q a) :
    l.countP p = l.countP q ↔ ∀ a ∈ l, q a → p a := by
  induction l with
  | nil => simp
  | cons a l ih =>
    -- the tail of the one count never overtakes that of the other, so a strict head never evens out
    rw [List.forall_mem_cons] at hpq ⊢
    have hle : l.countP p ≤ l.countP q := List.countP_mono_left hpq.2
    rw [List.countP_cons, List.countP_cons, ← ih hpq.2]
    cases hp : p a with
    | true => simp [hpq.1 hp]
    | false =>
      cases hq : q a with
      | true =>
        have hne : l.countP p ≠ l.countP q + 1 := by omega
        simp [hne]
      | false => simp

/-- **When the metrics agree with the responses.** Whatever FastAPI's own handlers can render,
after every run of requests: exactly if no request of it ended in an unexpected exception, and no
stream was refused by the open circuit. -/
theorem agrees_iff (F : FastApi) (requests : List Request) :
    Agrees F (counted F requests) requests ↔
      ∀ r ∈ requests, ¬ r.Unexpected F ∧ ¬ r.StreamRefused := by
  rw [counted_eq]
  constructor
  · rintro ⟨hhttp, -, -, hopen⟩ r hr
    constructor
    -- the 500 is sent as its class, and would have to be handled as it
    · intro hunexp
      obtain ⟨resp, hresp, -⟩ := Request.sent_of_unexpected hunexp
      have hsent : r.sentAs F r.path (statusClassLabel resp.statusCode) := by
        simp [Request.sentAs, hresp]
      have hsame := (countP_eq_countP_iff fun _ _ => Request.sentAs_of_handledAs).mp
        (hhttp r.path (statusClassLabel resp.statusCode))
      have hhandled := hsame r hr hsent
      rw [Request.handledAs, Request.handled_of_unexpected hunexp] at hhandled
      simp at hhandled
    -- a refused stream is refused, and would have to be seen in a body
    · intro hstream
      have hsame := (countP_eq_countP_iff fun _ _ h =>
        (Request.shows_isCircuitOpen_iff.mp h).1).mp hopen
      exact (Request.shows_isCircuitOpen_iff.mp (hsame r hr hstream.1)).2.1 hstream
  · intro hall
    refine ⟨fun path statusClass => ?_, ?_, ?_, ?_⟩
    · exact List.countP_congr fun r hr => by
        rw [Request.sentAs_of_not_unexpected (hall r hr).1]
    · exact List.countP_congr fun r _ => by rw [r.sent429_eq]
    · exact List.countP_congr fun r _ => by rw [r.shows_isCacheHit]
    · exact List.countP_congr fun r hr => by
        rw [Request.shows_isCircuitOpen_iff]
        exact ⟨And.left, fun h => ⟨h, (hall r hr).2, (hall r hr).1⟩⟩

end Agreement

/-! ## What a refused stream is -/

namespace StreamingService

variable {c : CircuitBreaker.Config} {pid : ℕ} {call : StreamCall} {own : Log}

/-- A turn rejects the stream exactly if the breaker told it so. -/
lemma rejected_mem_iff {now : ℚ} {cb : CircuitBreaker} {input : Input}
    {b : Block Status} (hb : call.run c now cb input = some b) :
    (∃ r, .yielded (.rejected r) ∈ b.events) ↔ .isOpen true ∈ b.events := by
  -- only the first turn asks the breaker; the two failing ones yield an error frame
  unfold StreamCall.run at hb
  split at hb
  case h_1 =>
    cases hb
    unfold start
    dsimp only
    split
    · next hopen => simp [hopen]
    · next hopen => simp [hopen]
  case h_7 =>
    cases hb
    unfold handle
    split <;> simp [finish]
  case h_10 =>
    cases hb
    unfold handle
    split <;> simp [finish]
  case h_17 => cases hb
  all_goals
    cases hb
    simp [finish]

lemma rejected_happened_iff (h : StreamRun c pid call own) :
    (∃ r, Happened own (.yielded (.rejected r))) ↔ Happened own (.isOpen true) := by
  induction h with
  | create => simp [Happened]
  | run _ hb ih =>
    simp only [happened_stamp_append, exists_or, ih, rejected_mem_iff hb]

/-- The frames of a stream show a refusal exactly if the circuit was open when it started. -/
theorem refused_stream_iff (h : StreamRun c pid call own) :
    (Request.stream (.ok (frames own))).refused ↔ Happened own (.isOpen true) := by
  rw [← rejected_happened_iff h, Request.refused, List.any_eq_true]
  constructor
  · intro hany
    obtain ⟨frame, hmem, hframe⟩ := hany
    cases frame with
    | rejected r => exact ⟨r, mem_frames.mp hmem⟩
    | _ => cases hframe
  · intro hhappened
    obtain ⟨r, hr⟩ := hhappened
    exact ⟨.rejected r, mem_frames.mpr hr, rfl⟩

end StreamingService

/-- A stream refused by the open circuit. -/
def refusedStream : Request := .stream (.ok [.rejected 60])

/-- A call of `infer` at which Redis does not answer the rate limiter in time. -/
def redisTimeout : Request := .infer (.error (.service (.redis .timeoutError)))

/-- The list of errors for a body with `NaN` as its model, which quotes it. -/
def nanErrors : Json :=
  .arr [.obj [("type", .str "string_type"), ("loc", .arr [.str "body", .str "model"]),
    ("msg", .str "Input should be a valid string"), ("input", .num (.float .nan))]]

/-- A call of `infer` with that body. -/
def nanModel : Request := .infer (.error (.requestValidationError (some nanErrors)))

/-- None of them is counted as what the client received. -/
theorem refusal_and_500_not_counted :
    ¬ Agrees .plain (counted .plain [refusedStream]) [refusedStream] ∧
      ¬ Agrees .plain (counted .plain [redisTimeout]) [redisTimeout] ∧
      ¬ Agrees .plain (counted .plain [nanModel]) [nanModel] := by
  refine ⟨fun h => ?_, fun h => ?_, fun h => ?_⟩
  · exact absurd h.circuitOpens (by decide)
  · exact absurd (h.httpRequests "/v1/infer" "5xx") (by decide)
  · exact absurd (h.httpRequests "/v1/infer" "5xx") (by decide)

end InferenceApi
