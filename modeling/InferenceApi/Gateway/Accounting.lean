import InferenceApi.Gateway.Outcomes
import InferenceApi.Services.UsageMetrics

/-!
# Every provider call is accounted once

What the breaker and the usage recorder are told, over a whole run, is what the adapter
calls returned and raised. The provider's part of the log is made of starts and of the
events of one answer each (`Accounted`); every count is an induction on that.
-/

namespace InferenceApi

open CircuitBreaker

/-! ## Counting -/

/-- The calls of `record_success`. -/
def successes (es : List Event) : ℕ :=
  es.countP fun e => match e with | .recordSuccess => true | _ => false

/-- The calls of `record_failure`. -/
def failures (es : List Event) : ℕ :=
  es.countP fun e => match e with | .recordFailure => true | _ => false

/-- The starts of `adapter.infer`. -/
def starts (es : List Event) : ℕ :=
  es.countP fun e => match e with | .providerStart _ => true | _ => false

/-- The `adapter.infer` calls that returned. -/
def returned (es : List Event) : List (InferRequest × Json) :=
  es.filterMap fun e =>
    match e with
    | .providerEnd req (.ok result) => some (req, result)
    | _ => none

/-- The `adapter.infer` calls that raised. -/
def raised (es : List Event) : List (InferRequest × Exn) :=
  es.filterMap fun e =>
    match e with
    | .providerEnd req (.error e) => some (req, e)
    | _ => none

/-- The usage recorder's totals. -/
def recorded (counter : Counter) (prices : Prices) : List Event → Totals
  | [] => .zero
  | .usageRecorded model usage :: es =>
    (recordUsageMetrics counter prices (recorded counter prices es) model usage).1
  | _ :: es => recorded counter prices es

/-- `result["usage"][key]` of a result with integers, 0 where it is missing. -/
def usageTokens (key : String) (result : Json) : ℤ :=
  match dictGet result "usage" (.obj []) with
  | .ok usage =>
    match dictGet usage key (.num (.int 0)) with
    | .ok (.num (.int n)) => n
    | _ => 0
  | .error _ => 0

/-- The counts of a result as the recorder is given them. -/
def usageOf (result : Json) : Usage :=
  ⟨.num (.int (usageTokens "prompt_tokens" result)),
    .num (.int (usageTokens "completion_tokens" result))⟩

/-- The usage of a result has integers that are not negative. -/
structure NonnegUsage (result : Json) : Prop where
  mapped : mappedUsage result = .ok (usageOf result)
  prompt : 0 ≤ usageTokens "prompt_tokens" result
  completion : 0 ≤ usageTokens "completion_tokens" result

/-- The tokens with this key of the calls for a model that returned. -/
def returnedTokens (key model : String) (es : List Event) : ℤ :=
  (((returned es).filter fun call => call.1.model = model).map fun call =>
    usageTokens key call.2).sum

lemma countP_providerPart {p : Event → Bool} (hp : ∀ e, p e = true → e.ofProvider = true)
    (es : List Event) : (providerPart es).countP p = es.countP p := by
  rw [providerPart, List.countP_filter]
  refine List.countP_congr fun e _ => ?_
  rw [Bool.and_eq_true]
  exact ⟨fun h => h.1, fun h => ⟨h, hp e h⟩⟩

/-- The provider's part of a log: starts, and answers none of which is a cancellation. -/
inductive Accounted (svc : InferenceService) : List Event → Prop
  | nil : Accounted svc []
  | start (req : InferRequest) {es : List Event} : Accounted svc es →
      Accounted svc (.providerStart req :: es)
  | returns (req : InferRequest) {result : Json} {es : List Event} : NonnegUsage result →
      Accounted svc es → Accounted svc (resultEvents svc req (.ok result) ++ es)
  | raises (req : InferRequest) {e : Exn} {es : List Event} : e.isException = true →
      Accounted svc es → Accounted svc (resultEvents svc req (.error e) ++ es)

section Counts

variable {svc : InferenceService} {counter : Counter} {prices : Prices} {es : List Event}

/-- With the recorder of the app, an answer is one `record_success`, one call of the recorder
and the end of one call. -/
lemma resultEvents_ok
    (hrec : svc.recordUsageMetrics = some (recordUsageOutcome counter prices))
    (req : InferRequest) {result : Json} (h : NonnegUsage result) :
    resultEvents svc req (.ok result) =
      [.usageRecorded req.model (usageOf result), .recordSuccess,
        .providerEnd req (.ok result)] := by
  rw [resultEvents, usageEvents, hrec, h.mapped]
  rfl

lemma resultEvents_error (req : InferRequest) {e : Exn} (h : e.isException = true) :
    resultEvents svc req (.error e) = [.recordFailure, .providerEnd req (.error e)] := by
  rw [resultEvents, if_pos h]
  rfl

/-- The breaker is told of every answer once. -/
theorem Accounted.breaker
    (hrec : svc.recordUsageMetrics = some (recordUsageOutcome counter prices))
    (h : Accounted svc es) :
    successes es = (returned es).length ∧ failures es = (raised es).length := by
  induction h with
  | nil => exact ⟨rfl, rfl⟩
  | start req _ ih => exact ih
  | returns req hresult _ ih =>
    rw [resultEvents_ok hrec req hresult]
    exact ⟨by simpa [successes, returned] using ih.1, ih.2⟩
  | raises req he _ ih =>
    rw [resultEvents_error req he]
    exact ⟨ih.1, by simpa [failures, raised] using ih.2⟩

lemma returnedTokens_answer (key model : String) (req : InferRequest) (result : Json)
    (usage : Usage) (es : List Event) :
    returnedTokens key model
        (.usageRecorded req.model usage :: .recordSuccess :: .providerEnd req (.ok result) :: es) =
      (if req.model = model then usageTokens key result else 0) + returnedTokens key model es := by
  by_cases hmodel : req.model = model
  · simp [returnedTokens, returned, hmodel]
  · simp [returnedTokens, returned, hmodel]

/-- With the recorder's counters as they are at a model, and where the sums can be read off them. -/
theorem Accounted.totals (hrec : svc.recordUsageMetrics = some (recordUsageOutcome counter prices))
    (h : Accounted svc es) (model : String) :
    0 ≤ returnedTokens "prompt_tokens" model es ∧
      0 ≤ returnedTokens "completion_tokens" model es ∧
      (returnedTokens "prompt_tokens" model es ≤ 2 ^ 53 →
        returnedTokens "completion_tokens" model es ≤ 2 ^ 53 →
        recorded counter prices es model .input =
            .rat (returnedTokens "prompt_tokens" model es) ∧
          recorded counter prices es model .output =
            .rat (returnedTokens "completion_tokens" model es)) := by
  induction h with
  | nil => exact ⟨le_rfl, le_rfl, fun _ _ => ⟨rfl, rfl⟩⟩
  | start req _ ih => exact ih
  | @returns req result es hresult _ ih =>
    obtain ⟨hinNonneg, houtNonneg, hsums⟩ := ih
    rw [resultEvents_ok hrec req hresult, List.cons_append, List.cons_append, List.cons_append,
      List.nil_append, returnedTokens_answer, returnedTokens_answer]
    have hprompt := hresult.prompt
    have hcompletion := hresult.completion
    by_cases hmodel : req.model = model
    · subst hmodel
      rw [if_pos rfl, if_pos rfl]
      refine ⟨by omega, by omega, fun hin hout => ?_⟩
      have hmetered : ∀ {n : ℤ}, 0 ≤ n → n ≤ 2 ^ 53 → Metered n := fun h0 hle =>
        ⟨h0, PyFloat.lt_limit hle⟩
      obtain ⟨htokensIn, htokensOut⟩ := hsums (by omega) (by omega)
      obtain ⟨cost, hstep⟩ : ∃ cost, recordUsageMetrics counter prices (recorded counter prices es)
          req.model (usageOf result) =
            ((recorded counter prices es).recorded req.model (usageTokens "prompt_tokens" result)
              (usageTokens "completion_tokens" result) cost, .ok ()) :=
        recordUsageMetrics_of_metered _ _ (hmetered hprompt (by omega))
          (hmetered hcompletion (by omega))
      have hvalue : recorded counter prices (.usageRecorded req.model (usageOf result) ::
          .recordSuccess :: .providerEnd req (.ok result) :: es) =
          (recorded counter prices es).recorded req.model (usageTokens "prompt_tokens" result)
            (usageTokens "completion_tokens" result) cost := congrArg Prod.fst hstep
      rw [hvalue]
      constructor
      · rw [add_comm, ← add_rounded hinNonneg hprompt (by omega), ← htokensIn]
        simp [Totals.recorded, Totals.set]
      · rw [add_comm, ← add_rounded houtNonneg hcompletion (by omega), ← htokensOut]
        simp [Totals.recorded, Totals.set]
    -- each model has totals of its own
    · rw [if_neg hmodel, if_neg hmodel, zero_add, zero_add]
      refine ⟨hinNonneg, houtNonneg, fun hin hout => ?_⟩
      have hother : recorded counter prices (.usageRecorded req.model (usageOf result) ::
          .recordSuccess :: .providerEnd req (.ok result) :: es) model =
          recorded counter prices es model :=
        recordUsageMetrics_of_ne (Ne.symm hmodel) _
      rw [hother]
      exact hsums hin hout
  | raises req he _ ih =>
    rw [resultEvents_error req he]
    exact ih

end Counts

/-! ## Runs -/

section Starts

variable {svc : InferenceService} {call : InferCall} {pid : ℕ} {own : Log}

lemma starts_resultEvents (req : InferRequest) (result : Except Exn Json) :
    starts (resultEvents svc req result ++ [.providerStart req]) = 1 := by
  cases result with
  | error e =>
    rw [resultEvents]
    split <;> rfl
  | ok result =>
    rw [resultEvents, usageEvents.eq_def]
    split <;> rfl

/-- A call starts its adapter at most once. -/
theorem InferRun.starts_le_one (h : InferRun svc pid call own) :
    starts (providerEvents own) ≤ 1 := by
  have hprov := h.providerInv
  unfold ProviderInv at hprov
  split at hprov
  · rw [hprov.1]
    rfl
  · obtain ⟨⟨result, -, hpart⟩, -⟩ := hprov
    rw [hpart, starts_resultEvents]
  · obtain ⟨⟨_, ⟨result, -, hpart⟩, -⟩, -⟩ := hprov
    rw [hpart, starts_resultEvents]
  · rcases hprov with ⟨hpart, -⟩ | ⟨⟨result, hpart⟩, -⟩
    · rw [hpart]
      exact Nat.zero_le _
    · rw [hpart, starts_resultEvents]
  · rw [hprov.1]
    exact Nat.zero_le _

end Starts

namespace Gateway

open Transition

/-- Any Redis, any breaker, any time, and no request yet. -/
def starting (redis : Redis) (cb : CircuitBreaker) (now : ℚ) : Gateway :=
  { init with redis, cb, now }

variable {svc : InferenceService} {redis : Redis} {cb : CircuitBreaker} {now : ℚ} {s s' : Gateway}
  {a : Action} {pid : ℕ}

/-- The starts of a request are counted in its own part of the log. -/
lemma count_providerStarts (log : Log) :
    (providerStarts log).count pid = starts (providerEvents (own pid log)) := by
  refine Eq.trans ?_ (countP_providerPart (fun e he => ?_) _).symm
  -- a start belongs to the provider's part
  case refine_2 => cases e <;> simp_all [Event.ofProvider]
  change _ = starts ((own pid log).map Entry.event)
  induction log with
  | nil => rfl
  | cons entry log ih =>
    obtain ⟨pid', t, e⟩ := entry
    by_cases hpid : pid' = pid
    · subst hpid
      rw [own, List.filter_cons_of_pos (by simp), List.map_cons]
      cases e with
      | providerStart req =>
        change List.count pid' (pid' :: providerStarts log) = _
        rw [List.count_cons_self, ih]
        simp [starts, own]
      | _ => exact ih
    · rw [own, List.filter_cons_of_neg (by simpa using hpid)]
      cases e with
      | providerStart req =>
        change List.count pid (pid' :: providerStarts log) = _
        rw [List.count_cons_of_ne hpid]
        exact ih
      | _ => exact ih

/-- Everything that happened, newest first. -/
def events (s : Gateway) : List Event := s.log.map Entry.event

/-- The sample deployment with the app's recorder. -/
def metered : InferenceService :=
  { sample with recordUsageMetrics := some (recordUsageOutcome .plain {}) }

end Gateway
end InferenceApi
