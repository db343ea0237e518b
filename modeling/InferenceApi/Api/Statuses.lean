import InferenceApi.Api.AdapterContract
import InferenceApi.Api.Metrics
import InferenceApi.Gateway.Accounting
import InferenceApi.Gateway.Uncached
import InferenceApi.Services.Verdicts

/-!
# What the status of a response says

From the exchange with the provider to the response of `/v1/infer`: with `HttpLLMAdapter` as the
adapter and the usage recorder of the application, every status has one cause in what the request
has met, and a 200 has the text and the counts of an answer of the provider. The exception contract
of the adapter is judged by them.
-/

namespace InferenceApi

open Json HttpLLMAdapter

/-! ## What an exchange gives -/

namespace HttpLLMAdapter

/-- A 2xx answer with this content and these numbers of tokens. -/
def Exchange.Says (x : Exchange) (content : Json) (prompt completion : ℤ) : Prop :=
  ∃ body total, x = .answered (.ok body) ∧ messageContent body = .ok content ∧
    extractUsage body = .ok (.obj
      [("prompt_tokens", .num (.int prompt)), ("completion_tokens", .num (.int completion)),
        ("total_tokens", .num (.int total))])

/-- The counts of the tokens, where there are any, are such as the usage recorder takes. -/
def Exchange.Accepted : Exchange → Prop
  | .answered (.ok body) => ∀ fields usage, body = .obj fields →
      lookup fields "usage" = some (.obj usage) →
        ∀ key ∈ ["prompt_tokens", "completion_tokens"],
          ∀ v n, lookup usage key = some v → intOf v = .ok n → Metered n
  | _ => True

variable {svc : InferenceService} {req : InferRequest} {x : Exchange} {result : Json}
  {done : Completion} {content : Json} {prompt completion : ℤ} {e : Exn}

/-- An answer is well formed exactly if its content is a text, provided there are counts. -/
lemma Exchange.Says.wellFormed_iff (h : x.Says content prompt completion) :
    x.WellFormed ↔ ∃ text, content = .str text := by
  obtain ⟨body, total, rfl, hcontent, husage⟩ := h
  show HasText body ∧ HasCounts body ↔ _
  rw [and_iff_left (hasCounts_iff.mpr ⟨_, husage⟩), hasText_iff, hcontent]
  simp

/-- Zero is a count, so one that is missing does no harm. -/
lemma metered_iff {usage : List (String × Json)} {key : String} {n : ℤ}
    (h : intOf ((lookup usage key).getD (.num (.int 0))) = .ok n) :
    Metered n ↔ ∀ v k, lookup usage key = some v → intOf v = .ok k → Metered k := by
  cases hlook : lookup usage key with
  | none =>
    rw [hlook] at h
    cases h
    exact iff_of_true ⟨le_rfl, PyFloat.lt_limit (by norm_num)⟩ fun _ _ h => nomatch h
  | some v =>
    rw [hlook] at h
    constructor
    · intro hmetered v' k hv hk
      cases hv
      cases h.symm.trans hk
      exact hmetered
    · intro hall
      exact hall v n rfl h

lemma Exchange.Says.accepted_iff (h : x.Says content prompt completion) :
    x.Accepted ↔ Metered prompt ∧ Metered completion := by
  obtain ⟨body, total, rfl, -, husage⟩ := h
  obtain ⟨fields, usage, _, _, _, rfl, hdict, hprompt, hcompletion, -, hcounts⟩ :=
    extractUsage_spec husage
  cases hcounts
  rw [metered_iff hprompt, metered_iff hcompletion]
  -- a usage that is falsy has no counts either way
  have hkeys : ∀ key v, lookup usage key = some v → lookup fields "usage" = some (.obj usage) := by
    intro key v hkey
    rcases orEmpty_eq_obj.mp hdict with ⟨-, rfl⟩ | hgiven
    · cases hkey
    · cases hlook : lookup fields "usage" with
      | none =>
        rw [hlook] at hgiven
        cases hgiven
      | some given =>
        rw [hlook] at hgiven
        exact congrArg some hgiven
  have hsame : ∀ usage', lookup fields "usage" = some (.obj usage') → usage' = usage := by
    intro usage' hlook
    rw [hlook, Option.getD_some] at hdict
    rcases orEmpty_eq_obj.mp hdict with ⟨hfalsy, rfl⟩ | hgiven
    · cases usage' with
      | nil => rfl
      | cons kv rest => cases hfalsy
    · exact Json.obj.inj hgiven
  constructor
  · intro haccepted
    exact ⟨fun v n hv hn => haccepted fields usage rfl (hkeys _ v hv) _ (by simp) v n hv hn,
      fun v n hv hn => haccepted fields usage rfl (hkeys _ v hv) _ (by simp) v n hv hn⟩
  · rintro ⟨hpromptAll, hcompletionAll⟩ fields' usage' hfields hlook key hkey
    cases hfields
    obtain rfl := hsame usage' hlook
    simp only [List.mem_cons, List.not_mem_nil, or_false] at hkey
    rcases hkey with rfl | rfl
    · exact hpromptAll
    · exact hcompletionAll

/-- An exception that callers know is that of a failure, which has no counts. -/
lemma accepted_of_error (h : inferExchange x = .error e) (hwell : x.WellFormed) : x.Accepted := by
  cases x with
  | failed failure => trivial
  | answered decoded =>
    cases decoded with
    | error name => trivial
    | ok body =>
      obtain ⟨text, htext⟩ := hasText_iff.mp hwell.1
      obtain ⟨counts, hcounts⟩ := hasCounts_iff.mp hwell.2
      cases h.symm.trans (bind_eq_ok.mpr ⟨_, htext, bind_eq_ok.mpr ⟨_, hcounts, rfl⟩⟩)

/-- What a result says, and what it is mapped to. -/
lemma says_of_ok (h : inferExchange x = .ok result) :
    ∃ content prompt completion, x.Says content prompt completion ∧
      mappedUsage result = .ok ⟨.num (.int prompt), .num (.int completion)⟩ ∧
      subscript result "output" = .ok content := by
  cases x with
  | failed failure => cases h
  | answered decoded =>
    cases decoded with
    | error name => cases h
    | ok body =>
      obtain ⟨content, hcontent, hrest⟩ := bind_eq_ok.mp h
      obtain ⟨usage, husage, hresult⟩ := bind_eq_ok.mp hrest
      obtain ⟨_, _, prompt, completion, total, -, -, -, -, -, rfl⟩ := extractUsage_spec husage
      cases hresult
      exact ⟨content, prompt, completion, ⟨body, total, rfl, hcontent, husage⟩, rfl, rfl⟩

/-- There is one content and one pair of counts. -/
lemma Exchange.Says.exists_result (h : x.Says content prompt completion) :
    ∃ result, inferExchange x = .ok result ∧
      mappedUsage result = .ok ⟨.num (.int prompt), .num (.int completion)⟩ ∧
      subscript result "output" = .ok content := by
  obtain ⟨body, total, rfl, hcontent, husage⟩ := h
  refine ⟨_, bind_eq_ok.mpr ⟨content, hcontent, bind_eq_ok.mpr ⟨_, husage, rfl⟩⟩, rfl, rfl⟩

end HttpLLMAdapter

/-! ## Statuses -/

variable {F : FastApi}

/-- The status of the response to `/v1/infer`, if one is sent. -/
def statusCode (F : FastApi) (out : Except Exn InferResponse) : Option ℕ :=
  ((Request.infer (out.mapError .service)).sent F).map Response.statusCode

lemma statusCode_circuitOpenError {retryAfterS : ℤ} (h : 0 ≤ retryAfterS) :
    statusCode F (.error (.circuitOpenError retryAfterS)) = some 503 := by
  have hnonneg : (0 : ℚ) ≤ retryAfterS := by exact_mod_cast h
  simp [statusCode, Request.sent, Request.routed, Except.mapError, handleException, Except.map,
    handleCircuitOpenError, errorResponse, hnonneg]

lemma statusCode_redis {err : RedisError} (h : err ≠ .connectionError) :
    statusCode F (.error (.redis err)) = some 500 := by
  cases err with
  | connectionError => exact absurd rfl h
  | timeoutError => rfl
  | responseError => rfl

lemma statusCode_malformed {e : Exn} (h : Malformed e) :
    statusCode F (.error e) = some 500 := by
  cases h <;> rfl

/-- The statuses of an answer of the provider, good or bad. -/
def AnswerStatus (status : Option ℕ) : Prop := status ∈ [some 200, some 502, some 504]

lemma answerStatus_declared {e : Exn} (h : Declared e) :
    AnswerStatus (statusCode F (.error e)) := by
  rcases h with rfl | ⟨code, rfl⟩
  · have hstatus : statusCode F (.error .timeoutError) = some 504 := rfl
    rw [hstatus]
    simp [AnswerStatus]
  · have hstatus : statusCode F (.error (.upstreamProviderError code)) = some 502 := rfl
    rw [hstatus]
    simp [AnswerStatus]

lemma not_answerStatus_500 : ¬ AnswerStatus (some 500) := by simp [AnswerStatus]

namespace Gateway

open Transition

/-! ## Causes -/

/-- The adapter is `HttpLLMAdapter`: it answers with what it makes of an exchange, unless its
caller is cancelled. -/
def Action.OverHttp : Action → Prop
  | .input _ (.adapter r) => r = .error .cancelledError ∨ ∃ x, r = inferExchange x
  | _ => True

/-- An exchange of request `pid` for `req` went like `x`. -/
def Exchanged (s : Gateway) (pid : ℕ) (req : InferRequest) (x : Exchange) : Prop :=
  ∃ t, ⟨pid, t, .providerEnd req (inferExchange x)⟩ ∈ s.log

/-- The requests have the same body upstream, up to the order of keys. -/
def SameBody (req req' : InferRequest) : Prop :=
  KeyEquiv (.obj (buildPayload req.model req.input req.config false))
    (.obj (buildPayload req'.model req'.input req'.config false))

/-- What makes `infer` fail on its own account, in the step from `s` to `s'`. -/
inductive Fault (svc : InferenceService) (s s' : Gateway) (pid : ℕ) (call : InferCall) : Prop
  /-- A command raised something else than `ConnectionError`. -/
  | redis {t : ℚ} {op : RedisOp} {err : RedisError} : ⟨pid, t, .redisError op err⟩ ∈ s.log →
      err ≠ .connectionError → Fault svc s s' pid call
  /-- The request could not be sent to the provider, or its answer cannot be read. -/
  | malformed {x : Exchange} : s'.Exchanged pid call.req x → ¬ x.WellFormed →
      Fault svc s s' pid call
  /-- It has counts that the usage recorder does not take. -/
  | unmetered {x : Exchange} {content : Json} {prompt completion : ℤ} :
      s'.Exchanged pid call.req x → x.Says content prompt completion →
      ¬ (Metered prompt ∧ Metered completion) → Fault svc s s' pid call
  /-- The value found in the cache was made of an answer that cannot be read. -/
  | cached {writer : ℕ} {req : InferRequest} {x : Exchange} {result : Json} {done : Completion} :
      call.status.found = some (done.payload req) → s'.Exchanged writer req x →
      SameBody req call.req → inferExchange x = .ok result → Completes svc req result done →
      ¬ x.WellFormed → Fault svc s s' pid call

/-- The response has the content and the counts of an answer to the same body. -/
def Relays (s' : Gateway) (call : InferCall) (resp : InferResponse) : Prop :=
  resp.model = call.req.model ∧ ∃ writer req x prompt completion, s'.Exchanged writer req x ∧
    SameBody req call.req ∧ x.Says (.str resp.output) prompt completion ∧
    Metered prompt ∧ Metered completion ∧
    resp.usage = [("tokens_in", prompt), ("tokens_out", completion)]

/-- The statuses with their causes. -/
inductive Cause (svc : InferenceService) (s s' : Gateway) (pid : ℕ) (call : InferCall)
    (out : Except Exn InferResponse) : Option ℕ → Prop
  | answered {resp : InferResponse} : out = .ok resp → Relays s' call resp →
      Cause svc s s' pid call out (some 200)
  | refused {t : ℚ} : ⟨pid, t, .isOpen true⟩ ∈ s'.log → Cause svc s s' pid call out (some 503)
  | timeout : s'.Exchanged pid call.req (.failed .timeoutException) →
      Cause svc s s' pid call out (some 504)
  | upstream {failure : Failure} : failure ≠ .timeoutException → failure.Handled →
      s'.Exchanged pid call.req (.failed failure) → Cause svc s s' pid call out (some 502)
  | cancelled {t : ℚ} : ⟨pid, t, .providerEnd call.req (.error .cancelledError)⟩ ∈ s'.log →
      Cause svc s s' pid call out none
  | failed : Fault svc s s' pid call → Cause svc s s' pid call out (some 500)

variable {counter : Counter} {prices : Prices} {svc : InferenceService} {s s' : Gateway}
  {a : Action} {pid : ℕ} {call : InferCall}
  {out : Except Exn InferResponse} {events : List Event} {x : Exchange} {result : Json}
  {done : Completion} {req : InferRequest} {e : Exn}

/-- How a call ends, with the circuit breaker's answer in the log. -/
lemma verdict_of_returned (hs : Reachable svc s) (hstep : step svc s a = some s')
    (hp : s.procs pid = .infer call) (hret : Did s s' pid (.returned out)) :
    ∃ events, (.isOpen true ∈ events ↔ ∃ t, ⟨pid, t, .isOpen true⟩ ∈ s'.log) ∧
      Verdict svc s.now call events (own pid s'.log) out := by
  obtain ⟨call₀, input, b, hp₀, hb, hfin, rfl⟩ := turn_of_returned hstep hret
  cases hp.symm.trans hp₀
  have hown := hs.ownInv pid
  rw [hp] at hown
  have hprov := InferRun.providerInv hown
  refine ⟨b.events, ⟨fun h => ?_, ?_⟩, ?_⟩
  · exact ⟨s.now, List.mem_append_left _ (mem_stamp.mpr ⟨rfl, rfl, h⟩)⟩
  · rintro ⟨t, hmem⟩
    rcases List.mem_append.mp hmem with hnew | hold
    · exact (mem_stamp.mp hnew).2.2
    · -- a call that was rejected earlier has ended
      refine absurd (happened_own.mpr ⟨t, hold⟩) (not_rejected_of_running hprov fun out hst => ?_)
      cases run_case hb <;> simp_all
  · rw [act_log, own_stamp_self]
    exact verdict_of_run hprov (InferRun.pendingRedis hown) hb hfin

/-- A Redis error that is not handled is still to be raised. -/
lemma failing_of_returned (hs : Reachable svc s) (hstep : step svc s a = some s')
    (hp : s.procs pid = .infer call) (hret : Did s s' pid (.returned out)) :
    call.status.Failing ↔
      ∃ t op err, ⟨pid, t, .redisError op err⟩ ∈ s.log ∧ err ≠ .connectionError := by
  obtain ⟨call₀, input, b, hp₀, hb, -, -⟩ := turn_of_returned hstep hret
  cases hp.symm.trans hp₀
  have hown := hs.ownInv pid
  rw [hp] at hown
  rcases InferRun.redisInv hown with ⟨_, hfinished⟩ | hredis
  · -- a call that has ended does not end again
    cases run_case hb <;> simp_all
  · rw [← hredis]
    simp only [OtherRedisError, happened_own]
    constructor
    · rintro ⟨op, err, ⟨t, ht⟩, hne⟩
      exact ⟨t, op, err, ht, hne⟩
    · rintro ⟨t, op, err, ht, hne⟩
      exact ⟨op, err, ⟨t, ht⟩, hne⟩

/-- An answer in a run over HTTP. -/
lemma exchange_of_answer {r : Except Exn Json} (hs : Run (step svc) (fun _ a => a.OverHttp) init s)
    {t : ℚ} (hmem : ⟨pid, t, .providerEnd req r⟩ ∈ s.log) :
    r = .error .cancelledError ∨ ∃ x, r = inferExchange x :=
  answer_of_run (P := fun _ r => r = .error .cancelledError ∨ ∃ x, r = inferExchange x) hs
    (fun _ _ _ _ hok _ => hok) pid t req r hmem

/-- What a completion has of the exchange it was made of. -/
lemma completion_of_exchange
    (hrec : svc.recordUsageMetrics = some (recordUsageOutcome counter prices))
    (hx : inferExchange x = .ok result) (hdone : Completes svc req result done) :
    ∃ prompt completion, x.Says done.output prompt completion ∧
      Metered prompt ∧ Metered completion ∧
      done.usage = ⟨.num (.int prompt), .num (.int completion)⟩ := by
  obtain ⟨content, prompt, completion, hreads, hmapped, hcontent⟩ := says_of_ok hx
  have husage := Except.ok.inj (hdone.usage.symm.trans hmapped)
  have houtput : done.output = content := Except.ok.inj (hdone.output.symm.trans hcontent)
  have hrecorded := hdone.recorded _ hrec
  rw [husage] at hrecorded
  rcases recordUsageOutcome_int counter prices req.model prompt completion with
    ⟨hprompt, hcompletion, -⟩ | ⟨-, name, hraises⟩
  · exact ⟨prompt, completion, houtput ▸ hreads, hprompt, hcompletion, husage⟩
  · rw [hraises] at hrecorded
    cases hrecorded

/-- The response to a completion is refused exactly if its output is no text. -/
lemma buildResponse_error {prompt completion : ℤ} {now : ℚ} {cacheHit : Bool} (model : String)
    (husage : done.usage = ⟨.num (.int prompt), .num (.int completion)⟩) (ht : call.t0 ≤ now) :
    (∃ resp, buildResponse svc now call done.output (.str model) done.usage.toJson cacheHit =
        .ok resp ∧ done.output = .str resp.output ∧ resp.model = model ∧
        resp.usage = [("tokens_in", prompt), ("tokens_out", completion)]) ∨
      (buildResponse svc now call done.output (.str model) done.usage.toJson cacheHit =
        .error .validationError ∧ ¬ ∃ text, done.output = .str text) := by
  have hparse : parseUsage svc.ints done.usage.toJson =
      some [("tokens_in", prompt), ("tokens_out", completion)] := by
    rw [husage]
    simp [parseUsage, Usage.toJson, svc.ints.parse_int]
  have hlatency : 0 ≤ (now - call.t0) * 1000 := by linarith
  unfold buildResponse
  rw [InferResponse.validate.eq_def, hparse]
  cases done.output with
  | str text =>
    refine Or.inl ⟨⟨call.requestId, text, model,
      [("tokens_in", prompt), ("tokens_out", completion)],
      (now - call.t0) * 1000, cacheHit⟩, if_pos hlatency, rfl, rfl, rfl⟩
  | _ => exact Or.inr ⟨rfl, by simp⟩

/-- What the call raises about a result that its recorder does not accept. -/
lemma error_of_afterResult {cb : CircuitBreaker} {hasLock : Bool}
    (hrec : svc.recordUsageMetrics = some (recordUsageOutcome counter prices))
    (hx : inferExchange x = .ok result)
    (hfin : (afterResult svc call cb hasLock result).status = .finished (.error e)) :
    Malformed e ∧ ∃ content prompt completion,
      x.Says content prompt completion ∧ ¬ (Metered prompt ∧ Metered completion) := by
  obtain ⟨content, prompt, completion, hreads, hmapped, hcontent⟩ := says_of_ok hx
  have hrecord : (recordUsage svc call ⟨.num (.int prompt), .num (.int completion)⟩).2 =
      recordUsageOutcome counter prices call.req.model
        ⟨.num (.int prompt), .num (.int completion)⟩ := by
    rw [recordUsage, hrec]
  unfold afterResult at hfin
  dsimp only at hfin
  rw [hmapped] at hfin
  dsimp only at hfin
  rw [hrecord, hcontent] at hfin
  rcases recordUsageOutcome_int counter prices call.req.model prompt completion with
    ⟨-, -, hok⟩ | ⟨hnot, name, hraises⟩
  · rw [hok] at hfin
    cases hfin
  · rw [hraises] at hfin
    cases hfin
    exact ⟨.other name, content, prompt, completion, hreads, hnot⟩

/-! ## From a verdict to its cause, and back -/

/-- The response to a completion says what the exchange said, or the exchange was not well
formed. -/
lemma response_of_exchange {model : String} {cacheHit : Bool} {now : ℚ}
    (hrec : svc.recordUsageMetrics = some (recordUsageOutcome counter prices))
    (hx : inferExchange x = .ok result)
    (hdone : Completes svc req result done) (ht : call.t0 ≤ now)
    (hout : buildResponse svc now call done.output (.str model) done.usage.toJson cacheHit = out) :
    (∃ resp prompt completion, out = .ok resp ∧ resp.model = model ∧
        x.Says (.str resp.output) prompt completion ∧ Metered prompt ∧ Metered completion ∧
        resp.usage = [("tokens_in", prompt), ("tokens_out", completion)]) ∨
      (out = .error .validationError ∧ ¬ x.WellFormed) := by
  obtain ⟨prompt, completion, hreads, hprompt, hcompletion, husage⟩ :=
    completion_of_exchange hrec hx hdone
  rcases buildResponse_error model husage ht with
    ⟨resp, hresp, houtput, hmodel, hcounts⟩ | ⟨herror, hnot⟩
  · rw [houtput] at hreads
    exact Or.inl ⟨resp, prompt, completion, hout.symm.trans hresp, hmodel, hreads, hprompt,
      hcompletion, hcounts⟩
  · exact Or.inr ⟨hout.symm.trans herror, fun hwell => hnot (hreads.wellFormed_iff.mp hwell)⟩

/-- A response to an answer, the call's own or a cached one. -/
lemma relays_of_buildResponse {writer : ℕ} {cacheHit : Bool}
    (hrec : svc.recordUsageMetrics = some (recordUsageOutcome counter prices))
    (hx : inferExchange x = .ok result)
    (hexch : s'.Exchanged writer req x) (hbody : SameBody req call.req)
    (hmodel : req.model = call.req.model) (hdone : Completes svc req result done)
    (ht : call.t0 ≤ s.now)
    (hout : buildResponse svc s.now call done.output (.str req.model) done.usage.toJson cacheHit =
      out) :
    (∃ resp, out = .ok resp ∧ Relays s' call resp) ∨
      (out = .error .validationError ∧ ¬ x.WellFormed) := by
  rcases response_of_exchange hrec hx hdone ht hout with
    ⟨resp, prompt, completion, hok, hrespModel, hrest⟩ | herror
  · exact Or.inl ⟨resp, hok, hrespModel.trans hmodel, writer, req, x, prompt, completion, hexch,
      hbody, hrest⟩
  · exact Or.inr herror

/-- Where a value that was found comes from. -/
lemma exchange_of_found (hs : Run (step svc) (fun _ a => a.OverHttp) init s)
    (hcoll : CollisionFree svc s) (hp : s.procs pid = .infer call) {value : Json}
    (hfound : call.status.found = some value) :
    ∃ writer req x result done, value = done.payload req ∧ s.Exchanged writer req x ∧
      SameBody req call.req ∧ req.model = call.req.model ∧ inferExchange x = .ok result ∧
      Completes svc req result done := by
  obtain ⟨writer, t, req, result, done, hprod⟩ :=
    (Reachable.cacheInv hs.any).calls _ _ hp |>.1 _ hfound
  have htext := hcoll req call.req hprod.requested ⟨_, _, hp, rfl⟩
    ((String.append_right_inj _).mp hprod.key)
  obtain ⟨hmodel, hbody⟩ := keyEquiv_buildPayload_of_keyText_eq false htext
  rcases exchange_of_answer hs hprod.providerEnd with h | ⟨x, hx⟩
  · cases h
  · exact ⟨writer, req, x, result, done, hprod.value, ⟨t, hx ▸ hprod.providerEnd⟩, hbody, hmodel,
      hx.symm, hprod.completes⟩

lemma Exchanged.mono {writer : ℕ} (h : s.Exchanged writer req x) (hle : s.Extends s') :
    s'.Exchanged writer req x := by
  obtain ⟨t, hmem⟩ := h
  exact ⟨t, hle.log _ hmem⟩

/-- What an exchange raises, and the status it leads to. -/
lemma cause_of_error (hend : s'.Exchanged pid call.req x) (he : inferExchange x = .error e) :
    Cause svc s s' pid call (.error e) (statusCode F (.error e)) := by
  cases x with
  | failed failure =>
    cases failure with
    | timeoutException =>
      cases he
      exact .timeout hend
    | httpStatusError code =>
      cases he
      have hhandled : (Failure.httpStatusError code).Handled := trivial
      exact .upstream Failure.noConfusion hhandled hend
    | httpError =>
      cases he
      have hhandled : Failure.httpError.Handled := trivial
      exact .upstream Failure.noConfusion hhandled hend
    | unsent name =>
      cases he
      exact .failed (.malformed hend not_false)
  | answered decoded =>
    have hmalformed : Malformed e := by
      cases decoded with
      | error name =>
        cases he
        exact .other name
      | ok body => exact raisesMalformed_infer body e he
    rcases inferExchange_error he with ⟨hdeclared, -⟩ | ⟨-, hnot⟩
    · exact absurd hdeclared hmalformed.not_declared
    · rw [statusCode_malformed hmalformed]
      exact .failed (.malformed hend hnot)

/-- **Every end has a cause.** -/
lemma cause_of_verdict (hs : Run (step svc) (fun _ a => a.OverHttp) init s)
    (hrec : svc.recordUsageMetrics = some (recordUsageOutcome counter prices))
    (hcoll : CollisionFree svc s)
    (hstep : step svc s a = some s') (hp : s.procs pid = .infer call)
    (hopen : .isOpen true ∈ events → ∃ t, ⟨pid, t, .isOpen true⟩ ∈ s'.log)
    (hfailing : call.status.Failing →
      ∃ t op err, ⟨pid, t, .redisError op err⟩ ∈ s.log ∧ err ≠ .connectionError)
    (hs' : Run (step svc) (fun _ a => a.OverHttp) init s')
    (h : Verdict svc s.now call events (own pid s'.log) out) :
    Cause svc s s' pid call out (statusCode F out) := by
  have ht : call.t0 ≤ s.now := Reachable.startedInPast hs.any pid call hp
  cases h with
  | refused hrejected hnonneg =>
    obtain ⟨t, hmem⟩ := hopen hrejected
    rw [statusCode_circuitOpenError hnonneg]
    exact .refused hmem
  | redis _ hne _ hfail =>
    obtain ⟨t, op, err, hred, hother⟩ := hfailing hfail
    rw [statusCode_redis hne]
    exact .failed (.redis hred hother)
  | @provider e _ _ _ hpart =>
    obtain ⟨t, hmem⟩ := exists_providerEnd hpart
    rcases exchange_of_answer hs' hmem with hcancelled | ⟨x, hx⟩
    · cases hcancelled
      exact .cancelled hmem
    · exact cause_of_error ⟨t, hx ▸ hmem⟩ hx.symm
  | @unusable cb hasLock result e _ _ _ hpart hfin =>
    obtain ⟨t, hmem⟩ := exists_providerEnd hpart
    rcases exchange_of_answer hs' hmem with hcancelled | ⟨x, hx⟩
    · cases hcancelled
    · obtain ⟨hmalformed, content, prompt, completion, hreads, hnot⟩ :=
        error_of_afterResult hrec hx.symm hfin
      rw [statusCode_malformed hmalformed]
      exact .failed (.unmetered ⟨t, hx ▸ hmem⟩ hreads hnot)
  | cached _ hfound =>
    obtain ⟨writer, req, x, result, done, rfl, hexch, hbody, hmodel, hx, hdone⟩ :=
      exchange_of_found hs hcoll hp hfound
    have hexch' := hexch.mono (extends_step hstep)
    rcases relays_of_buildResponse hrec hx hexch' hbody hmodel hdone ht rfl with
      ⟨resp, hresp, hrelays⟩ | ⟨herror, hnot⟩
    · have hok : respondCached svc s.now call (done.payload req) = .ok resp := hresp
      rw [hok]
      exact .answered rfl hrelays
    · have herr : respondCached svc s.now call (done.payload req) = .error .validationError :=
        herror
      rw [herr]
      exact .failed (.cached hfound hexch' hbody hx hdone hnot)
  | @completed result done _ _ _ hpart hdone =>
    obtain ⟨t, hmem⟩ := exists_providerEnd hpart
    rcases exchange_of_answer hs' hmem with hcancelled | ⟨x, hx⟩
    · cases hcancelled
    · rcases relays_of_buildResponse hrec hx.symm ⟨t, hx ▸ hmem⟩ (.refl _) rfl hdone ht rfl with
        ⟨resp, hresp, hrelays⟩ | ⟨herror, hnot⟩
      · rw [hresp]
        exact .answered rfl hrelays
      · rw [herror]
        exact .failed (.malformed ⟨t, hx ▸ hmem⟩ hnot)

/-- What has come of the provider, as the verdict on the call has it. -/
lemma verdict_of_exchanged (h : Verdict svc s.now call events (own pid s'.log) out)
    {r : Except Exn Json} {t : ℚ} (hmem : ⟨pid, t, .providerEnd call.req r⟩ ∈ s'.log) :
    (∃ err result, out = .error (.redis err) ∧ err ≠ .connectionError ∧ r = .ok result) ∨
      (∃ e, r = .error e ∧ out = .error e) ∨
      (∃ result cb hasLock e, r = .ok result ∧ out = .error e ∧
        (afterResult svc call cb hasLock result).status = .finished (.error e)) ∨
      ∃ result done, r = .ok result ∧ Completes svc call.req result done ∧
        out = buildResponse svc s.now call done.output (.str call.req.model) done.usage.toJson
          false := by
  cases h with
  | refused _ _ _ _ hnil => exact absurd hmem (not_providerEnd_of_nil hnil)
  | @redis err _ hne _ _ hno =>
    cases r with
    | error e => exact absurd (exists_providerEnd_iff.mp ⟨t, hmem⟩) (hno _ e)
    | ok result => exact Or.inl ⟨err, result, rfl, hne, rfl⟩
  | provider _ _ _ hpart => exact Or.inr (Or.inl ⟨_, eq_of_providerEnd hpart hmem, rfl⟩)
  | unusable _ _ _ hpart hfin =>
    exact Or.inr (Or.inr (Or.inl ⟨_, _, _, _, eq_of_providerEnd hpart hmem, rfl, hfin⟩))
  | cached _ _ _ hnil => exact absurd hmem (not_providerEnd_of_nil hnil)
  | completed _ _ _ hpart hdone =>
    exact Or.inr (Or.inr (Or.inr ⟨_, _, eq_of_providerEnd hpart hmem, hdone, rfl⟩))

/-- A call whose provider raised ends with what it raised. -/
lemma out_of_raised (h : Verdict svc s.now call events (own pid s'.log) out) {t : ℚ}
    (hmem : ⟨pid, t, .providerEnd call.req (.error e)⟩ ∈ s'.log) : out = .error e := by
  rcases verdict_of_exchanged h hmem with ⟨_, _, -, -, hr⟩ | ⟨e', hr, hout⟩ |
    ⟨_, _, _, _, hr, -⟩ | ⟨_, _, hr, -⟩
  · cases hr
  · cases hr
    exact hout
  · cases hr
  · cases hr

/-- There is no response to a completion that cannot be read. -/
lemma status_of_unreadable {model : String} {cacheHit : Bool} {now : ℚ}
    (hrec : svc.recordUsageMetrics = some (recordUsageOutcome counter prices))
    (hx : inferExchange x = .ok result)
    (hnot : ¬ x.WellFormed) (hdone : Completes svc req result done) (ht : call.t0 ≤ now) :
    statusCode F (buildResponse svc now call done.output (.str model) done.usage.toJson cacheHit) =
      some 500 := by
  rcases response_of_exchange hrec hx hdone ht rfl with ⟨_, _, _, -, -, hreads, -⟩ | ⟨herror, -⟩
  · exact absurd (hreads.wellFormed_iff.mpr ⟨_, rfl⟩) hnot
  · rw [herror]
    rfl

/-- An answer that cannot be read is a 500. -/
lemma status_of_malformed (hrec : svc.recordUsageMetrics = some (recordUsageOutcome counter prices))
    (ht : call.t0 ≤ s.now) (h : Verdict svc s.now call events (own pid s'.log) out)
    (hend : s'.Exchanged pid call.req x) (hnot : ¬ x.WellFormed) :
    statusCode F out = some 500 := by
  obtain ⟨t, hmem⟩ := hend
  rcases verdict_of_exchanged h hmem with ⟨err, _, rfl, hne, -⟩ | ⟨e, hr, rfl⟩ |
    ⟨result, cb, hasLock, e, hr, rfl, hfin⟩ | ⟨result, done, hr, hdone, hout⟩
  · exact statusCode_redis hne
  · rcases inferExchange_error hr with ⟨-, hwell⟩ | ⟨hmalformed, -⟩
    · exact absurd hwell hnot
    · exact statusCode_malformed hmalformed
  · exact statusCode_malformed (error_of_afterResult hrec hr hfin).1
  · rw [hout]
    exact status_of_unreadable hrec hr hnot hdone ht

/-- So is one with counts that the recorder does not take. -/
lemma status_of_unmetered {content : Json} {prompt completion : ℤ}
    (hrec : svc.recordUsageMetrics = some (recordUsageOutcome counter prices))
    (h : Verdict svc s.now call events (own pid s'.log) out)
    (hend : s'.Exchanged pid call.req x) (hreads : x.Says content prompt completion)
    (hnot : ¬ (Metered prompt ∧ Metered completion)) : statusCode F out = some 500 := by
  obtain ⟨t, hmem⟩ := hend
  obtain ⟨result, hx, hmapped, -⟩ := hreads.exists_result
  rw [hx] at hmem
  rcases verdict_of_exchanged h hmem with ⟨err, _, rfl, hne, -⟩ | ⟨e, hr, -⟩ |
    ⟨result, cb, hasLock, e, hr, rfl, hfin⟩ | ⟨result, done, hr, hdone, -⟩
  · exact statusCode_redis hne
  · cases hr
  · cases hr
    exact statusCode_malformed (error_of_afterResult hrec hx hfin).1
  · cases hr
    have hrecorded := hdone.recorded _ hrec
    rw [Except.ok.inj (hdone.usage.symm.trans hmapped)] at hrecorded
    rcases recordUsageOutcome_int counter prices call.req.model prompt completion with
      ⟨hprompt, hcompletion, -⟩ | ⟨-, name, hraises⟩
    · exact absurd ⟨hprompt, hcompletion⟩ hnot
    · rw [hraises] at hrecorded
      cases hrecorded

/-- **The cause decides.** -/
lemma status_of_cause {status : Option ℕ}
    (hrec : svc.recordUsageMetrics = some (recordUsageOutcome counter prices))
    (ht : call.t0 ≤ s.now)
    (hopen : (∃ t, ⟨pid, t, .isOpen true⟩ ∈ s'.log) → .isOpen true ∈ events)
    (hfailing : (∃ t op err, ⟨pid, t, .redisError op err⟩ ∈ s.log ∧ err ≠ .connectionError) →
      call.status.Failing)
    (h : Verdict svc s.now call events (own pid s'.log) out)
    (hcause : Cause svc s s' pid call out status) : statusCode F out = status := by
  cases hcause with
  | answered hout =>
    rw [hout]
    rfl
  | refused hmem =>
    have hrejected := hopen ⟨_, hmem⟩
    cases h with
    | refused _ hnonneg => exact statusCode_circuitOpenError hnonneg
    | redis hno => exact absurd hrejected hno
    | provider hno => exact absurd hrejected hno
    | unusable hno => exact absurd hrejected hno
    | cached hno => exact absurd hrejected hno
    | completed hno => exact absurd hrejected hno
  | timeout hend =>
    obtain ⟨t, hmem⟩ := hend
    rw [out_of_raised h hmem]
    rfl
  | @upstream failure hne hhandled hend =>
    obtain ⟨t, hmem⟩ := hend
    rw [out_of_raised h hmem]
    cases failure with
    | timeoutException => exact absurd rfl hne
    | httpStatusError code => rfl
    | httpError => rfl
    | unsent name => exact hhandled.elim
  | cancelled hmem =>
    rw [out_of_raised h hmem]
    rfl
  | failed hfault =>
    cases hfault with
    | redis hred hne =>
      have hfail := hfailing ⟨_, _, _, hred, hne⟩
      cases h with
      | refused _ _ _ hno => exact absurd hfail hno
      | redis _ hother => exact statusCode_redis hother
      | provider _ _ hno => exact absurd hfail hno
      | unusable _ _ hno => exact absurd hfail hno
      | cached _ _ hno => exact absurd hfail hno
      | completed _ _ hno => exact absurd hfail hno
    | malformed hend hnot => exact status_of_malformed hrec ht h hend hnot
    | unmetered hend hreads hnot => exact status_of_unmetered hrec h hend hreads hnot
    | @cached writer req x result done hfound hend hbody hx hdone hnot =>
      have hother : call.status.found ≠ none := by rw [hfound]; exact Option.some_ne_none _
      cases h with
      | refused _ _ hnone => exact absurd hnone hother
      | redis _ _ hnone => exact absurd hnone hother
      | provider _ hnone => exact absurd hnone hother
      | unusable _ hnone => exact absurd hnone hother
      | completed _ hnone => exact absurd hnone hother
      | cached _ hfound' =>
        obtain rfl := Option.some.inj (hfound.symm.trans hfound')
        exact status_of_unreadable hrec hx hnot hdone ht

/-- **Every status has one cause.** In every run over HTTP with the application's usage recorder,
the response to a call of `infer` has a status exactly if what the request met is a cause of it: a
200 repeats an answer of the provider to the same body, a 503 is a rejection by the circuit
breaker, a 504 or 502 a failure of its own exchange, and a 500 an error of Redis, a request that
could not be sent, or an answer of the provider that cannot be used. -/
theorem infer_status_iff (F : FastApi) (hs : Run (step svc) (fun _ a => a.OverHttp) init s)
    (ha : a.OverHttp)
    (hrec : svc.recordUsageMetrics = some (recordUsageOutcome counter prices))
    (hcoll : CollisionFree svc s)
    (hstep : step svc s a = some s') (hp : s.procs pid = .infer call)
    (hret : Did s s' pid (.returned out)) (status : Option ℕ) :
    statusCode F out = status ↔ Cause svc s s' pid call out status := by
  obtain ⟨events, hopen, hverdict⟩ := verdict_of_returned hs.any hstep hp hret
  have hfailing : call.status.Failing ↔
      ∃ t op err, ⟨pid, t, .redisError op err⟩ ∈ s.log ∧ err ≠ .connectionError :=
    failing_of_returned hs.any hstep hp hret
  constructor
  · rintro rfl
    exact cause_of_verdict hs hrec hcoll hstep hp hopen.mp hfailing.mp (hs.tail ha hstep) hverdict
  · intro hcause
    exact status_of_cause hrec (Reachable.startedInPast hs.any pid call hp) hopen.mpr
      hfailing.mpr hverdict hcause

/-- The body of which the adapter makes the sample result. -/
def sampleBody : Json :=
  .obj [("choices", .arr [.obj [("message", .obj [("content", .str "[stub] same request")])]]),
    ("usage", .obj [("prompt_tokens", .num (.int 2)), ("completion_tokens", .num (.int 10))])]

/-- The status of a request that is served from the cache is due to the answer to another. -/
theorem infer_status_iff_servedFromCache :
    ∃ call, Cause metered (after metered servedFromCache)
      (after metered (servedFromCache ++ [.input 1 .resume])) 1 call (.ok cachedResponse)
        (some 200) := by
  have hstep : step metered (after metered servedFromCache) (.input 1 .resume) =
      some (after metered (servedFromCache ++ [.input 1 .resume])) := step_after (by decide +kernel)
  have hanswer : ∃ x, .ok sampleResult = inferExchange x := ⟨.answered (.ok sampleBody), rfl⟩
  have hhttp : ∀ a ∈ servedFromCache, a.OverHttp := by
    simp [servedFromCache, Action.OverHttp, hanswer]
  have hresume : (Action.input 1 .resume).OverHttp := trivial
  have honly : ∀ a ∈ servedFromCache, a.OnlyFor sampleRequest := by
    simp [servedFromCache, Action.OnlyFor]
  have hreq : ∀ req, (after metered servedFromCache).Requested req → req = sampleRequest :=
    fun _ => eq_of_requested (run_after metered honly)
  have hdid : Did (after metered servedFromCache)
      (after metered (servedFromCache ++ [.input 1 .resume])) 1 (.returned (.ok cachedResponse)) :=
    did_of_mem_responses hstep (by decide +kernel)
  obtain ⟨call, input, b, hp, -⟩ := turn_of_returned hstep hdid
  refine ⟨call, (infer_status_iff .plain (run_after metered hhttp) hresume rfl
    (fun req req' h h' _ => ?_) hstep hp hdid (some 200)).mp rfl⟩
  rw [hreq req h, hreq req' h']

/-! ## The exception contract of the adapter -/

/-- What comes of a call whose provider has answered. -/
lemma answerStatus_iff (hrec : svc.recordUsageMetrics = some (recordUsageOutcome counter prices))
    (ht : call.t0 ≤ s.now)
    (hfailing : call.status.Failing ↔
      ∃ t op err, ⟨pid, t, .redisError op err⟩ ∈ s.log ∧ err ≠ .connectionError)
    (h : Verdict svc s.now call events (own pid s'.log) out)
    (hend : s'.Exchanged pid call.req x) :
    AnswerStatus (statusCode F out) ↔ (x.WellFormed ∧ x.Accepted) ∧
      ∀ t op err, ⟨pid, t, .redisError op err⟩ ∈ s.log → err = .connectionError := by
  have hcalm : ¬ call.status.Failing →
      ∀ t op err, ⟨pid, t, .redisError op err⟩ ∈ s.log → err = .connectionError :=
    fun hno t op err hmem => by_contra fun hne => hno (hfailing.mpr ⟨t, op, err, hmem, hne⟩)
  obtain ⟨t, hmem⟩ := hend
  cases h with
  | refused _ _ _ _ hnil => exact absurd hmem (not_providerEnd_of_nil hnil)
  | cached _ _ _ hnil => exact absurd hmem (not_providerEnd_of_nil hnil)
  | redis _ hne _ hfail =>
    rw [statusCode_redis hne]
    obtain ⟨t', op, err, hred, hother⟩ := hfailing.mp hfail
    exact iff_of_false not_answerStatus_500 fun hall => hother (hall.2 t' op err hred)
  | @provider e _ _ hno hpart =>
    have hx := eq_of_providerEnd hpart hmem
    rw [and_iff_left (hcalm hno)]
    rcases inferExchange_error hx with ⟨hdeclared, hwell⟩ | ⟨hmalformed, hnot⟩
    · exact iff_of_true (answerStatus_declared hdeclared) ⟨hwell, accepted_of_error hx hwell⟩
    · rw [statusCode_malformed hmalformed]
      exact iff_of_false not_answerStatus_500 fun hall => hnot hall.1
  | unusable _ _ hno hpart hfin =>
    have hx := eq_of_providerEnd hpart hmem
    obtain ⟨hmalformed, content, prompt, completion, hreads, hnot⟩ :=
      error_of_afterResult hrec hx hfin
    rw [statusCode_malformed hmalformed]
    exact iff_of_false not_answerStatus_500 fun hall => hnot (hreads.accepted_iff.mp hall.1.2)
  | @completed result done _ _ hno hpart hdone =>
    have hx := eq_of_providerEnd hpart hmem
    rw [and_iff_left (hcalm hno)]
    have hout : buildResponse svc s.now call done.output (.str call.req.model)
        done.usage.toJson false = buildResponse svc s.now call done.output (.str call.req.model)
          done.usage.toJson false := rfl
    rcases response_of_exchange hrec hx hdone ht hout with
      ⟨resp, prompt, completion, hok, -, hreads, hprompt, hcompletion, -⟩ | ⟨herror, hnot⟩
    · rw [hok]
      have hstatus : statusCode F (.ok resp) = some 200 := rfl
      rw [hstatus]
      exact iff_of_true List.mem_cons_self
        ⟨hreads.wellFormed_iff.mpr ⟨_, rfl⟩, hreads.accepted_iff.mpr ⟨hprompt, hcompletion⟩⟩
    · rw [herror]
      exact iff_of_false not_answerStatus_500 fun hall => hnot hall.1

/-- **The exception contract holds exactly for well-formed answers**, and keeps a 500 from the
clients exactly if the usage recorder takes their counts as well. With any other body `infer`
raises what becomes a 500, or returns a text that is none; `stream` breaks off without an error
frame at the first `data` line, before the terminator, that has no delta. -/
theorem adapter_contract_iff (loads : String → Except String Json) (str : Json → String)
    (F : FastApi) (svc : InferenceService) (counter : Counter) (prices : Prices)
    (hrec : svc.recordUsageMetrics = some (recordUsageOutcome counter prices)) :
    (∀ x : Exchange, InferContract (inferExchange x) ↔ x.WellFormed) ∧
    (∀ (s s' : Gateway) (a : Action) (pid : ℕ) (call : InferCall)
        (out : Except Exn InferResponse) (x : Exchange),
      Reachable svc s → step svc s a = some s' → s.procs pid = .infer call →
      Did s s' pid (.returned out) → s'.Exchanged pid call.req x →
        (AnswerStatus (statusCode F out) ↔ (x.WellFormed ∧ x.Accepted) ∧
          ∀ t op err, ⟨pid, t, .redisError op err⟩ ∈ s.log → err = .connectionError)) ∧
    ∀ (lines : List String) (ending : Except Failure Unit),
      (StreamContract (outcome (named loads) str (ending.mapError Failure.raised) lines) ↔
        ReadToEnd loads lines ending) ∧
      (StreamAnswered (outcome (named loads) str (ending.mapError Failure.raised) lines) ↔
        ReadToEnd loads lines ending) := by
  refine ⟨inferContract_iff, fun s s' a pid call out x hs hstep hp hret hend => ?_,
    fun lines _ => ⟨streamContract_iff lines, streamAnswered_iff lines⟩⟩
  obtain ⟨events, -, hverdict⟩ := verdict_of_returned hs hstep hp hret
  exact answerStatus_iff hrec (Reachable.startedInPast hs pid call hp)
    (failing_of_returned hs hstep hp hret) hverdict hend

/-- A body with a negative count. -/
def negativeBody : Json :=
  .obj [("choices", .arr [.obj [("message", .obj [("content", .str "")])]]),
    ("usage", .obj [("prompt_tokens", .num (.int (-1)))])]

/-- A call that is about to be answered. -/
def askedProvider : List Action :=
  [.infer 0 "a" sampleRequest, .redis 0 .ok, .input 0 .resume, .redis 0 .ok, .input 0 .resume]

/-- Its answer. -/
def negativeAnswer : Action := .input 0 (.adapter (inferExchange (.answered (.ok negativeBody))))

/-- A negative count is within the contract, but no status of an answer comes of it. -/
theorem adapter_contract_iff_negativeBody :
    InferContract (inferExchange (.answered (.ok negativeBody))) ∧
    ∃ out, Did (after metered askedProvider) (after metered (askedProvider ++ [negativeAnswer])) 0
        (.returned out) ∧ ¬ AnswerStatus (statusCode .plain out) := by
  obtain ⟨hcontract, hstatus, -⟩ := adapter_contract_iff (fun _ => .error "") (fun _ => "") .plain
    metered .plain {} rfl
  have hwell : (Exchange.answered (.ok negativeBody)).WellFormed :=
    ⟨⟨_, _, _, _, _, rfl, rfl, rfl, rfl⟩, hasCounts_iff.mpr ⟨_, rfl⟩⟩
  have hnot : ¬ (Exchange.answered (.ok negativeBody)).Accepted := fun haccepted =>
    absurd (haccepted _ _ rfl rfl "prompt_tokens" (by simp) _ (-1) rfl rfl).1 (by decide)
  have hstep : step metered (after metered askedProvider) negativeAnswer =
      some (after metered (askedProvider ++ [negativeAnswer])) := step_after (by decide +kernel)
  have hret : Did (after metered askedProvider)
      (after metered (askedProvider ++ [negativeAnswer])) 0
      (.returned (.error (.other "ValueError"))) := did_of_mem_outcomes hstep (by decide +kernel)
  obtain ⟨call, hp, hreq⟩ : ∃ call, (after metered askedProvider).procs 0 = .infer call ∧
      call.req = sampleRequest := ⟨_, rfl, rfl⟩
  have hend : (after metered (askedProvider ++ [negativeAnswer])).Exchanged 0 call.req
      (.answered (.ok negativeBody)) := by
    rw [hreq]
    have hget : (after metered (askedProvider ++ [negativeAnswer])).log[3]? =
      some ⟨0, 0, .providerEnd sampleRequest (inferExchange (.answered (.ok negativeBody)))⟩ := rfl
    exact ⟨0, List.mem_of_getElem? hget⟩
  refine ⟨(hcontract _).mpr hwell, _, hret, fun hanswer => ?_⟩
  exact hnot ((hstatus _ _ _ 0 call _ _ (reachable_after metered askedProvider) hstep hp hret
    hend).mp hanswer).1.2

/-- A 2xx response with the body `{}`, and a stream with the same as its only chunk. -/
theorem empty_body_breaks_contract :
    ¬ InferContract (inferExchange (.answered (.ok (.obj [])))) ∧
    ¬ StreamContract
      (outcome (named fun _ => .ok (.obj [])) (fun _ => "") (.ok ()) ["data: {}"]) := by
  constructor
  · exact (Malformed.keyError "choices").not_declared
  · exact (Malformed.keyError "choices").not_declared

end Gateway

end InferenceApi
