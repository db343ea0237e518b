import InferenceApi.Python
import InferenceApi.Schemas

/-!
# From exceptions to responses

`app/api/exception_handlers.py`: what a client is sent when a route raises. A handler may
itself raise, when the `ErrorResponse` it builds does not validate or FastAPI's own handler, to
which two of them delegate, cannot render its response; like an exception no handler is registered
for, this leaves the application and is answered by the handler of `Exception` outside of it.
-/

namespace InferenceApi

/-- The body of a response: a JSON document, which is always an object here, or a stream of
events that is still to come. -/
inductive Body
  | json (fields : List (String × Json))
  | events

/-- A response as it is sent. -/
structure Response where
  statusCode : ℕ
  headers : List (String × String) := []
  body : Body

/-- The exceptions that can leave a route: those of its dependencies and of the framework, and
those of a service. -/
inductive AppExn
  | rateLimitExceeded (retryAfterS : ℚ) (limit : ℕ) (remaining resetS : ℤ)
  | modelVersionNotFound (version : String)
  /-- FastAPI's `RequestValidationError`, with its list of errors. They quote what was received:
  `none` is a list with a lone surrogate in a text, for which there is no JSON value here. -/
  | requestValidationError (errors : Option Json)
  /-- Every `HTTPException` of the application and of the framework has a text as its detail. -/
  | httpException (statusCode : ℕ) (detail : String)
  | service (e : Exn)

/-- `_error_response`: the body is an `ErrorResponse`, whose `retry_after_s` has `ge=0`. -/
def errorResponse (statusCode : ℕ) (error : String) (retryAfterS : Option ℚ)
    (headers : List (String × String)) : Option Response :=
  let retryAfter : Json :=
    match retryAfterS with
    | none => .null
    | some r => .num (.float (.rat r))
  if retryAfterS.all (0 ≤ ·) then
    some ⟨statusCode, headers,
      .json [("detail", .obj [("error", .str error), ("retry_after_s", retryAfter)])]⟩
  else none

/-- `str(n)` of an integer. -/
def pyStr (n : ℤ) : String := toString n

/-- `handle_rate_limit_exceeded`. -/
def handleRateLimitExceeded (retryAfterS : ℚ) (limit : ℕ) (remaining resetS : ℤ) :
    Option Response :=
  errorResponse 429 "rate limit exceeded" (some retryAfterS)
    [("Retry-After", pyStr (pyInt retryAfterS)), ("X-RateLimit-Limit", pyStr limit),
      ("X-RateLimit-Remaining", pyStr remaining), ("X-RateLimit-Reset", pyStr resetS)]

/-- `handle_circuit_open_error`. -/
def handleCircuitOpenError (retryAfterS : ℤ) : Option Response :=
  errorResponse 503 "service unavailable" (some retryAfterS)
    [("Retry-After", pyStr (pyInt retryAfterS))]

/-- `handle_model_version_not_found`. -/
def handleModelVersionNotFound (version : String) : Option Response :=
  errorResponse 400 ("model version not found: " ++ version) none []

/-- `handle_timeout_error`. -/
def handleTimeoutError : Option Response := errorResponse 504 "LLM provider timeout" none []

/-- `handle_upstream_provider_error`. -/
def handleUpstreamProviderError : Option Response :=
  errorResponse 502 "upstream provider error" none []

/-- `handle_redis_connection_error`. -/
def handleRedisConnectionError : Option Response :=
  errorResponse 503 "service temporarily degraded" none []

/-! ## FastAPI's handlers -/

/-- The handlers of `fastapi.exception_handlers`, which are not part of the repository. What is
assumed of a response of theirs is its status and what its `detail` is; there may be none, as the
body may not be renderable. -/
structure FastApi where
  requestValidationExceptionHandler : Option Json → Option Response
  httpExceptionHandler : ℕ → String → Option Response
  validation_spec : ∀ errors resp, requestValidationExceptionHandler errors = some resp →
    resp.statusCode = 422 ∧ ∃ detail, resp.body = .json [("detail", detail)]
  /-- Some statuses go without a body. -/
  http_spec : ∀ statusCode detail resp, httpExceptionHandler statusCode detail = some resp →
    resp.statusCode = statusCode ∧
      ∀ fields, resp.body = .json fields → fields = [("detail", .str detail)]

mutual

/-- `json.dumps(..., allow_nan=False)` does not raise. -/
def isFinite : Json → Bool
  | .num (.float .nan) => false
  | .num (.float (.inf _)) => false
  | .arr xs => allFinite xs
  | .obj fields => allFieldsFinite fields
  | _ => true

/-- `isFinite` of every element. -/
def allFinite : List Json → Bool
  | [] => true
  | v :: vs => isFinite v && allFinite vs

/-- `isFinite` of the value of every field. -/
def allFieldsFinite : List (String × Json) → Bool
  | [] => true
  | (_, v) :: fields => isFinite v && allFieldsFinite fields

end

/-- Handlers that render what a `JSONResponse` can render. -/
def FastApi.plain : FastApi where
  requestValidationExceptionHandler errors :=
    match errors with
    | none => none
    | some errors => if isFinite errors then some ⟨422, [], .json [("detail", errors)]⟩ else none
  httpExceptionHandler statusCode detail := some ⟨statusCode, [], .json [("detail", .str detail)]⟩
  validation_spec errors resp h := by
    cases errors with
    | none => cases h
    | some errors =>
      dsimp only at h
      split at h
      · cases h
        exact ⟨rfl, errors, rfl⟩
      · cases h
  http_spec statusCode detail resp h := by
    cases h
    exact ⟨rfl, fun fields hfields => (Body.json.inj hfields).symm⟩

/-! ## The registered handlers -/

variable (F : FastApi)

/-- `handle_request_validation_error`. -/
def handleRequestValidationError (errors : Option Json) : Option Response :=
  F.requestValidationExceptionHandler errors

/-- `handle_http_exception`. -/
def handleHttpException (statusCode : ℕ) (detail : String) : Option Response :=
  F.httpExceptionHandler statusCode detail

/-- `handle_unexpected_exception`. -/
def handleUnexpectedException : Option Response :=
  errorResponse 500 "internal server error" none []

/-- The response to an exception, or `none` when it leaves the application: the registered
handlers but the one of `Exception`, which runs outside. -/
def handleException : AppExn → Option Response
  | .rateLimitExceeded retryAfterS limit remaining resetS =>
    handleRateLimitExceeded retryAfterS limit remaining resetS
  | .modelVersionNotFound version => handleModelVersionNotFound version
  | .requestValidationError errors => handleRequestValidationError F errors
  | .httpException statusCode detail => handleHttpException F statusCode detail
  | .service (.circuitOpenError retryAfterS) => handleCircuitOpenError retryAfterS
  | .service .timeoutError => handleTimeoutError
  | .service (.upstreamProviderError _) => handleUpstreamProviderError
  | .service (.redis .connectionError) => handleRedisConnectionError
  | .service _ => none

end InferenceApi
