import InferenceApi.Lib.Json

/-!
# Requests, responses and exceptions

`InferRequest` and `InferResponse` of `app/core/schemas.py`, the exceptions of
`app/core/exceptions.py` and the built-in and library exceptions the services meet.
-/

namespace InferenceApi

/-- A `dict[str, Any]`: fields in insertion order, no key twice. -/
structure PyDict where
  fields : List (String × Json)
  nodup : (fields.map Prod.fst).Nodup

/-- `InferRequest`. -/
structure InferRequest where
  model : String
  input : String
  config : Option PyDict := none

/-- `InferResponse`. -/
structure InferResponse where
  requestId : String
  output : String
  model : String
  usage : List (String × ℤ)
  latencyMs : ℚ
  cacheHit : Bool
deriving DecidableEq

/-- What `redis.exceptions` a command may raise. `ConnectionError` is the only one the
services handle. -/
inductive RedisError
  | connectionError
  | timeoutError
  | responseError
deriving DecidableEq, Repr

/-- The exceptions that can leave a service. -/
inductive Exn
  /-- The built-in `TimeoutError`. -/
  | timeoutError
  | upstreamProviderError (statusCode : Option ℕ)
  | circuitOpenError (retryAfterS : ℤ)
  | redis (e : RedisError)
  | keyError (key : String)
  | attributeError
  | typeError
  /-- `pydantic.ValidationError`. -/
  | validationError
  /-- `asyncio.CancelledError`, which is a `BaseException` but no `Exception`. -/
  | cancelledError
  /-- Any other `Exception`. -/
  | other (name : String)
deriving DecidableEq, Repr

/-- Whether `except Exception` catches it. -/
def Exn.isException : Exn → Bool
  | .cancelledError => false
  | _ => true

/-- Two steps return if both do. -/
lemma bind_eq_ok {α β : Type} {x : Except Exn α} {f : α → Except Exn β} {b : β} :
    (x >>= f) = .ok b ↔ ∃ a, x = .ok a ∧ f a = .ok b := by
  cases x with
  | ok a => simp [bind, Except.bind]
  | error e => simp [bind, Except.bind]

/-- Two steps raise if the first does, or the second after it. -/
lemma bind_eq_error {α β : Type} {x : Except Exn α} {f : α → Except Exn β} {e : Exn} :
    (x >>= f) = .error e ↔ x = .error e ∨ ∃ a, x = .ok a ∧ f a = .error e := by
  cases x with
  | ok a => simp [bind, Except.bind]
  | error e' => simp [bind, Except.bind]

/-- `value[key]` on a decoded value. -/
def subscript (value : Json) (key : String) : Except Exn Json :=
  match value with
  | .obj fields =>
    match Json.lookup fields key with
    | some v => .ok v
    | none => .error (.keyError key)
  | _ => .error .typeError

lemma subscript_eq_ok {value v : Json} {key : String} :
    subscript value key = .ok v ↔
      ∃ fields, value = .obj fields ∧ Json.lookup fields key = some v := by
  cases value with
  | obj fields =>
    simp only [subscript, Json.obj.injEq]
    cases hlook : Json.lookup fields key with
    | none => simp [hlook]
    | some w => simp [hlook]
  | _ => simp [subscript]

/-- `value.get(key, default)` on a decoded value. -/
def dictGet (value : Json) (key : String) (default : Json) : Except Exn Json :=
  match value with
  | .obj fields => .ok ((Json.lookup fields key).getD default)
  | _ => .error .attributeError

lemma dictGet_eq_ok {value default v : Json} {key : String} : dictGet value key default = .ok v ↔
    ∃ fields, value = .obj fields ∧ (Json.lookup fields key).getD default = v := by
  cases value <;> simp [dictGet]

/-- How pydantic reads the `int` values of `usage` in lax mode. It is code of a library;
all that is used of it is that it leaves an integer as it is. -/
structure IntParser where
  parse : Json → Option ℤ
  parse_int : ∀ n, parse (.num (.int n)) = some n

/-- The reader that takes integers only. -/
def IntParser.strict : IntParser where
  parse
    | .num (.int n) => some n
    | _ => none
  parse_int _ := rfl

/-- Validation of a `dict[str, int]`. -/
def parseUsage (ints : IntParser) (usage : Json) : Option (List (String × ℤ)) :=
  match usage with
  | .obj fields => fields.mapM fun kv => (ints.parse kv.2).map fun n => (kv.1, n)
  | _ => none

/-- The constructor call `InferResponse(...)` of `_build_response`. -/
def InferResponse.validate (ints : IntParser) (requestId : String) (output model usage : Json)
    (latencyMs : ℚ) (cacheHit : Bool) : Except Exn InferResponse :=
  match output, model, parseUsage ints usage with
  | .str output, .str model, some usage =>
    if 0 ≤ latencyMs then .ok { requestId, output, model, usage, latencyMs, cacheHit }
    else .error .validationError
  | _, _, _ => .error .validationError

/-- A response that validates carries the values it was built from. -/
lemma InferResponse.validate_eq_ok {ints : IntParser} {requestId : String}
    {output model usage : Json} {latencyMs : ℚ} {cacheHit : Bool} {resp : InferResponse}
    (h : validate ints requestId output model usage latencyMs cacheHit = .ok resp) :
    resp.requestId = requestId ∧ output = .str resp.output ∧ model = .str resp.model ∧
      parseUsage ints usage = some resp.usage ∧ resp.latencyMs = latencyMs ∧
      resp.cacheHit = cacheHit := by
  unfold validate at h
  split at h
  · next husage =>
    split at h
    · cases h
      exact ⟨rfl, rfl, rfl, husage, rfl, rfl⟩
    · cases h
  · cases h

end InferenceApi
