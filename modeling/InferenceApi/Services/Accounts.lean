import InferenceApi.Services.Turns

/-!
# What a provider call leaves behind

A call of `infer` starts its adapter at most once. When the adapter answers, the answer is
counted once by the breaker and, if it can be mapped to a usage, once by the recorder.
`ProviderInv` says, by the place a call is in, which events of this kind it has had so
far; `RedisInv` which Redis errors it is about to raise.
-/

namespace InferenceApi

open CircuitBreaker

/-- The events of a provider call. -/
def Event.ofProvider : Event → Bool
  | .providerStart _ => true
  | .providerEnd _ _ => true
  | .recordSuccess => true
  | .recordFailure => true
  | .usageRecorded _ _ => true
  | _ => false

/-- The provider's part of what happened. -/
def providerPart (es : List Event) : List Event := es.filter Event.ofProvider

/-- The call of the recorder that a result leads to. -/
def usageEvents (svc : InferenceService) (req : InferRequest) (result : Json) : List Event :=
  match svc.recordUsageMetrics, mappedUsage result with
  | some _, .ok usage => [.usageRecorded req.model usage]
  | _, _ => []

/-- What an answer of the adapter leads to. -/
def resultEvents (svc : InferenceService) (req : InferRequest) : Except Exn Json → List Event
  | .ok result => usageEvents svc req result ++ [.recordSuccess, .providerEnd req (.ok result)]
  | .error e =>
    (if e.isException then [.recordFailure] else []) ++ [.providerEnd req (.error e)]

/-- An answer is logged as it was given. -/
lemma providerEnd_mem_resultEvents {svc : InferenceService} {req req' : InferRequest}
    {result result' : Except Exn Json} :
    .providerEnd req' result' ∈ resultEvents svc req result ++ [.providerStart req] ↔
      req' = req ∧ result' = result := by
  cases result with
  | error e =>
    rw [resultEvents]
    split <;> simp
  | ok value =>
    rw [resultEvents, usageEvents.eq_def]
    split <;> simp

/-- The start of the adapter, if the call has got there. -/
def startEvents (req : InferRequest) : Status → List Event
  | .provider _ => [.providerStart req]
  | _ => []

/-- What resuming a call leads to. -/
def inputEvents (svc : InferenceService) (req : InferRequest) : Input → List Event
  | .resume => []
  | .adapter result => resultEvents svc req result

section Turn

variable {svc : InferenceService} {now : ℚ} {cb cb' : CircuitBreaker} {call : InferCall}
  {pid : ℕ} {own : Log}

/-- The provider's part of a turn: a start, or an answer. -/
def Accounts (svc : InferenceService) (call : InferCall) (input : Input) (b : Block Status) :
    Prop :=
  providerPart b.events = startEvents call.req b.status ++ inputEvents svc call.req input

lemma accounts_finish {es : List Event} {out : Except Exn InferResponse} {input : Input}
    (h : providerPart es = inputEvents svc call.req input) :
    Accounts svc call input (finish cb' es out) := h

lemma accounts_startProvider {es : List Event} {hasLock : Bool} (h : providerPart es = []) :
    Accounts svc call .resume (startProvider call cb' es hasLock) := by
  change .providerStart call.req :: providerPart es = _
  rw [h]
  rfl

lemma accounts_circuitBreakerCheck :
    Accounts svc call .resume (circuitBreakerCheck svc now call cb) := by
  unfold circuitBreakerCheck
  dsimp only
  split
  · exact accounts_finish rfl
  · split
    · exact accounts_startProvider rfl
    · rfl

lemma accounts_pollLoop (deadline : ℚ) :
    Accounts svc call .resume (pollLoop now call cb deadline) := by
  unfold pollLoop
  split
  · rfl
  · exact accounts_startProvider rfl

lemma accounts_conclude (pending : Except Exn Completion) :
    Accounts svc call .resume (conclude svc now call cb pending) := by
  unfold conclude
  split <;> exact accounts_finish rfl

/-- The recorder is called exactly when there is one and the usage can be mapped. -/
lemma providerPart_recorded {usage : Usage} {result : Json} (h : mappedUsage result = .ok usage) :
    providerPart ((recordUsage svc call usage).1 ++
        [.recordSuccess, .providerEnd call.req (.ok result)]) =
      resultEvents svc call.req (.ok result) := by
  rw [resultEvents, usageEvents, h]
  unfold recordUsage
  cases svc.recordUsageMetrics with
  | none => rfl
  | some record => rfl

lemma accounts_afterResult (hasLock : Bool) (result : Json) :
    Accounts svc call (.adapter (.ok result)) (afterResult svc call cb hasLock result) := by
  unfold afterResult
  dsimp only
  split
  · next e husage =>
    refine accounts_finish ?_
    rw [inputEvents, resultEvents, usageEvents, husage]
    cases svc.recordUsageMetrics with
    | none => rfl
    | some record => rfl
  · next usage husage =>
    split
    · exact accounts_finish (providerPart_recorded husage)
    · split
      · exact accounts_finish (providerPart_recorded husage)
      · exact providerPart_recorded husage

/-- The provider's part of every turn. -/
theorem accounts_run {input : Input} {b : Block Status}
    (h : call.run svc now cb input = some b) : Accounts svc call input b := by
  cases run_case h with
  | cacheGet =>
    unfold afterCacheGet
    split
    · exact accounts_finish rfl
    · exact accounts_circuitBreakerCheck
    · exact accounts_circuitBreakerCheck
    · exact accounts_finish rfl
  | lockSet =>
    unfold afterLockSet
    split
    · exact accounts_startProvider rfl
    · exact accounts_pollLoop _
    · exact accounts_pollLoop _
    · exact accounts_finish rfl
  | pollGet =>
    unfold afterPollGet
    split
    · exact accounts_finish rfl
    · rfl
    · exact accounts_startProvider rfl
    · exact accounts_finish rfl
  | sleeping => exact accounts_pollLoop _
  | cacheSet =>
    unfold afterCacheSet
    dsimp only
    split
    · rfl
    · exact accounts_conclude _
  | lockDel =>
    unfold afterLockDel
    split
    · exact accounts_conclude _
    · exact accounts_conclude _
    · exact accounts_finish rfl
  | @provider hasLock result =>
    cases result with
    | ok result => exact accounts_afterResult _ _
    | error e =>
      unfold afterProvider
      dsimp only
      split
      · next hexc => exact accounts_finish (by rw [inputEvents, resultEvents, if_pos hexc]; rfl)
      · next hexc => exact accounts_finish (by rw [inputEvents, resultEvents, if_neg hexc]; rfl)

/-- Redis has no part in it. -/
lemma providerPart_exec {fate : Fate} {redis : Redis} {x : Executed}
    (h : call.exec svc now pid fate redis = some x) : providerPart x.events = [] := by
  refine List.filter_eq_nil_iff.mpr fun e he => ?_
  cases exec_event h he <;> exact Bool.false_ne_true

end Turn

/-! ## What a call has done about its provider, by the place it is in -/

/-- The provider's part of a log. -/
def providerEvents (log : Log) : List Event := providerPart (log.map Entry.event)

/-- The call's circuit breaker check was answered `True`. -/
def Rejected (own : Log) : Prop := Happened own (.isOpen true)

/-- The adapter has answered, with a result that completes as `done`. -/
def Answered (svc : InferenceService) (req : InferRequest) (own : Log) (done : Completion) : Prop :=
  ∃ result, Completes svc req result done ∧
    providerEvents own = resultEvents svc req (.ok result) ++ [.providerStart req]

/-- How a call can have ended: without its provider, and then with a cached response if with
any, or after its provider's answer. -/
def Settled (svc : InferenceService) (req : InferRequest) (own : Log)
    (out : Except Exn InferResponse) : Prop :=
  (providerEvents own = [] ∧ ∀ resp, out = .ok resp → resp.cacheHit = true) ∨
    (∃ result, providerEvents own = resultEvents svc req result ++ [.providerStart req]) ∧
      ¬ Rejected own ∧ ∀ resp, out = .ok resp → resp.cacheHit = false

/-- What a call has done about its provider. -/
def ProviderInv (svc : InferenceService) (call : InferCall) (own : Log) : Prop :=
  match call.status with
  | .provider _ => providerEvents own = [.providerStart call.req] ∧ ¬ Rejected own
  | .cacheSet _ done _ => Answered svc call.req own done ∧ ¬ Rejected own
  | .lockDel pending _ =>
    (∃ done, Answered svc call.req own done ∧ ∀ done', pending = .ok done' → done' = done) ∧
      ¬ Rejected own
  | .finished out => Settled svc call.req own out
  | _ => providerEvents own = [] ∧ ¬ Rejected own

section Invariants

variable {svc : InferenceService} {now : ℚ} {cb : CircuitBreaker} {call : InferCall}
  {pid : ℕ} {own own' : Log}

lemma happened_iff_mem_providerEvents {e : Event} (he : e.ofProvider = true) :
    Happened own e ↔ e ∈ providerEvents own := by
  rw [providerEvents, providerPart, List.mem_filter, and_iff_left he, List.mem_map]
  rfl

lemma providerEvents_stamp_append {es : List Event} :
    providerEvents (stamp pid now es ++ own) = providerPart es ++ providerEvents own := by
  have hmap : (stamp pid now es).map Entry.event = es := by
    rw [stamp, List.map_map]
    exact List.map_id es
  rw [providerEvents, List.map_append, hmap, providerPart, List.filter_append]
  rfl

lemma providerInv_exec {fate : Fate} {redis : Redis} {x : Executed} (h : ProviderInv svc call own)
    (hx : call.exec svc now pid fate redis = some x) :
    ProviderInv svc (call.goto now x.status) (stamp pid now x.events ++ own) := by
  have hpart : providerEvents (stamp pid now x.events ++ own) = providerEvents own := by
    rw [providerEvents_stamp_append, providerPart_exec hx]
    rfl
  have hrejected : Rejected (stamp pid now x.events ++ own) → Rejected own := fun hrej =>
    (happened_stamp_append.mp hrej).resolve_left fun he => by cases exec_event hx he
  have hanswered : ∀ {done}, Answered svc call.req own done →
      Answered svc call.req (stamp pid now x.events ++ own) done := by
    rintro done ⟨result, hdone, hresult⟩
    exact ⟨result, hdone, hpart.trans hresult⟩
  cases exec_case hx with
  | cacheGet hst =>
    rw [ProviderInv, hst] at h
    exact ⟨hpart.trans h.1, mt hrejected h.2⟩
  | lockSet hst =>
    rw [ProviderInv, hst] at h
    exact ⟨hpart.trans h.1, mt hrejected h.2⟩
  | pollGet hst =>
    rw [ProviderInv, hst] at h
    exact ⟨hpart.trans h.1, mt hrejected h.2⟩
  | cacheSet hst =>
    rw [ProviderInv, hst] at h
    exact ⟨hanswered h.1, mt hrejected h.2⟩
  | lockDel hst =>
    rw [ProviderInv, hst] at h
    obtain ⟨⟨done, hdone, hpending⟩, hno⟩ := h
    exact ⟨⟨done, hanswered hdone, hpending⟩, mt hrejected hno⟩

/-- What a turn can change about it. -/
structure ProviderTurn (svc : InferenceService) (call : InferCall) (input : Input)
    (b : Block Status) (own own' : Log) : Prop where
  part : providerEvents own' =
    startEvents call.req b.status ++ inputEvents svc call.req input ++ providerEvents own
  asked : .isOpen true ∈ b.events → ∃ reply, call.status = .cacheGet (some reply)
  rejected : Rejected own' → .isOpen true ∈ b.events ∨ Rejected own

/-- The circuit breaker is asked after the first `await` only. -/
lemma asked_of_run {input : Input} {b : Block Status} (hb : call.run svc now cb input = some b)
    (he : .isOpen true ∈ b.events) : ∃ reply, call.status = .cacheGet (some reply) := by
  generalize true = answer at he
  cases run_event hb _ he with
  | isOpen hst => exact ⟨_, hst⟩

lemma providerTurn_of_run {input : Input} {b : Block Status}
    (hb : call.run svc now cb input = some b) :
    ProviderTurn svc call input b own (stamp pid now b.events ++ own) where
  part := by rw [providerEvents_stamp_append, accounts_run hb]
  asked := asked_of_run hb
  rejected hrej := happened_stamp_append.mp hrej

/-- The places of a call whose adapter has not answered. -/
def Status.Waits : Status → Prop
  | .cacheSet _ _ _ => False
  | .lockDel _ _ => False
  | .finished out => ∀ resp, out = .ok resp → resp.cacheHit = true
  | _ => True

/-- A turn that keeps a call waiting, or ends it, before its provider. -/
lemma ProviderTurn.waits {b : Block Status} (t : ProviderTurn svc call .resume b own own')
    (h : providerEvents own = [] ∧ ¬ Rejected own) (hst : b.status.Waits)
    (hopen : .isOpen true ∈ b.events → ∃ out, b.status = .finished out) :
    ProviderInv svc (call.goto now b.status) own' := by
  have hpart := t.part
  rw [h.1, inputEvents, List.append_nil, List.append_nil] at hpart
  have hrejected : (∀ out, b.status ≠ .finished out) → ¬ Rejected own' := by
    intro hne hrej
    rcases t.rejected hrej with he | hold
    · obtain ⟨out, hfin⟩ := hopen he
      exact hne out hfin
    · exact h.2 hold
  unfold ProviderInv
  rw [InferCall.goto_status]
  cases hstatus : b.status with
  | finished out =>
    rw [hstatus] at hpart hst
    exact Or.inl ⟨hpart, hst⟩
  -- nothing is written or released before the adapter has answered
  | cacheSet => exact (hstatus ▸ hst).elim
  | lockDel => exact (hstatus ▸ hst).elim
  | provider =>
    rw [hstatus] at hpart hrejected
    exact ⟨hpart, hrejected fun _ => Status.noConfusion⟩
  | _ =>
    rw [hstatus] at hpart hrejected
    exact ⟨hpart, hrejected fun _ => Status.noConfusion⟩

/-- After the first `await` the circuit breaker is not asked again. -/
lemma ProviderTurn.waits_later {b : Block Status} (t : ProviderTurn svc call .resume b own own')
    (h : providerEvents own = [] ∧ ¬ Rejected own) (hst : b.status.Waits)
    (hne : ∀ reply, call.status ≠ .cacheGet (some reply)) :
    ProviderInv svc (call.goto now b.status) own' := by
  refine t.waits h hst fun he => ?_
  obtain ⟨reply, hreply⟩ := t.asked he
  exact absurd hreply (hne reply)

/-- A cached response says so. -/
lemma respondCached_waits (value : Json) :
    (Status.finished (respondCached svc now call value)).Waits := by
  intro resp hresp
  obtain ⟨_, -, hresp⟩ := bind_eq_ok.mp hresp
  obtain ⟨_, -, hresp⟩ := bind_eq_ok.mp hresp
  obtain ⟨_, -, hresp⟩ := bind_eq_ok.mp hresp
  exact (InferResponse.validate_eq_ok hresp).2.2.2.2.2

lemma circuitBreakerCheck_waits : (circuitBreakerCheck svc now call cb).status.Waits := by
  unfold circuitBreakerCheck
  dsimp only
  split
  · intro resp hresp
    cases hresp
  · split <;> trivial

lemma rejected_circuitBreakerCheck
    (h : .isOpen true ∈ (circuitBreakerCheck svc now call cb).events) :
    ∃ out, (circuitBreakerCheck svc now call cb).status = .finished out := by
  unfold circuitBreakerCheck at h ⊢
  dsimp only at h ⊢
  split at h
  · next hopen =>
    rw [if_pos hopen]
    exact ⟨_, rfl⟩
  · next hopen => split at h <;> simp_all [startProvider]

lemma pollLoop_waits (deadline : ℚ) : (pollLoop now call cb deadline).status.Waits := by
  unfold pollLoop
  split <;> trivial

lemma raised_waits (e : Exn) : (Status.finished (.error e)).Waits := by
  intro resp hresp
  cases hresp

/-- A turn that does not start the adapter keeps its answer. -/
lemma ProviderTurn.answered {b : Block Status} {done : Completion}
    (t : ProviderTurn svc call .resume b own own') (hstart : startEvents call.req b.status = [])
    (h : Answered svc call.req own done) : Answered svc call.req own' done := by
  obtain ⟨result, hdone, hpart⟩ := h
  refine ⟨result, hdone, ?_⟩
  rw [t.part, hstart, hpart]
  rfl

lemma conclude_startEvents {pending : Except Exn Completion} :
    startEvents call.req (conclude svc now call cb pending).status = [] := by
  unfold conclude
  split <;> rfl

/-- The end of a call whose adapter has answered. -/
lemma settled_conclude {done : Completion} {pending : Except Exn Completion}
    (h : Answered svc call.req own' done ∧ ¬ Rejected own') :
    ProviderInv svc (call.goto now (conclude svc now call cb pending).status) own' := by
  obtain ⟨⟨result, -, hpart⟩, hrejected⟩ := h
  have hsettled : ∀ out, (∀ resp, out = .ok resp → resp.cacheHit = false) →
      ProviderInv svc (call.goto now (.finished out)) own' := fun out hout =>
    Or.inr ⟨⟨_, hpart⟩, hrejected, hout⟩
  unfold conclude
  split
  · exact hsettled _ fun _ hout => by cases hout
  · exact hsettled _ fun _ hout => (InferResponse.validate_eq_ok hout).2.2.2.2.2

lemma providerInv_run {input : Input} {b : Block Status} (h : ProviderInv svc call own)
    (hb : call.run svc now cb input = some b) :
    ProviderInv svc (call.goto now b.status) (stamp pid now b.events ++ own) := by
  have t : ProviderTurn svc call input b own (stamp pid now b.events ++ own) :=
    providerTurn_of_run hb
  generalize stamp pid now b.events ++ own = own' at t ⊢
  -- the circuit breaker is asked after the first `await` only
  have hrejected : (∀ reply, call.status ≠ .cacheGet (some reply)) → ¬ Rejected own →
      ¬ Rejected own' := fun hne hno hrej =>
    (t.rejected hrej).elim (fun he => (t.asked he).elim hne) hno
  cases run_case hb with
  | cacheGet hst =>
    rw [ProviderInv, hst] at h
    unfold afterCacheGet at t ⊢
    split at t
    · exact t.waits h (respondCached_waits _) fun he => by simp [finish] at he
    · exact t.waits h circuitBreakerCheck_waits rejected_circuitBreakerCheck
    · exact t.waits h circuitBreakerCheck_waits rejected_circuitBreakerCheck
    · exact t.waits h (raised_waits _) fun he => by simp [finish] at he
  | lockSet hst =>
    rw [ProviderInv, hst] at h
    have hne : ∀ reply, call.status ≠ .cacheGet (some reply) := by simp [hst]
    unfold afterLockSet at t ⊢
    split at t
    · exact t.waits_later h trivial hne
    · exact t.waits_later h (pollLoop_waits _) hne
    · exact t.waits_later h (pollLoop_waits _) hne
    · exact t.waits_later h (raised_waits _) hne
  | pollGet hst =>
    rw [ProviderInv, hst] at h
    have hne : ∀ reply, call.status ≠ .cacheGet (some reply) := by simp [hst]
    unfold afterPollGet at t ⊢
    split at t
    · exact t.waits_later h (respondCached_waits _) hne
    · exact t.waits_later h trivial hne
    · exact t.waits_later h trivial hne
    · exact t.waits_later h (raised_waits _) hne
  | sleeping hst =>
    rw [ProviderInv, hst] at h
    have hne : ∀ reply, call.status ≠ .cacheGet (some reply) := by simp [hst]
    exact t.waits_later h (pollLoop_waits _) hne
  | @cacheSet hasLock done reply hst =>
    rw [ProviderInv, hst] at h
    have hne : ∀ reply, call.status ≠ .cacheGet (some reply) := by simp [hst]
    unfold afterCacheSet at t ⊢
    dsimp only at t ⊢
    by_cases hlock : (hasLock && svc.collapser.isSome) = true
    -- the lock is released first, with the outcome of the cache write pending
    · rw [if_pos hlock] at t ⊢
      refine ⟨⟨done, t.answered rfl h.1, fun done' hok => ?_⟩, hrejected hne h.2⟩
      split at hok <;> cases hok <;> rfl
    · rw [if_neg hlock] at t ⊢
      exact settled_conclude ⟨t.answered conclude_startEvents h.1, hrejected hne h.2⟩
  | @lockDel pending reply hst =>
    rw [ProviderInv, hst] at h
    have hne : ∀ reply, call.status ≠ .cacheGet (some reply) := by simp [hst]
    obtain ⟨⟨done, hdone, -⟩, hno⟩ := h
    unfold afterLockDel at t ⊢
    split at t
    · exact settled_conclude ⟨t.answered conclude_startEvents hdone, hrejected hne hno⟩
    · exact settled_conclude ⟨t.answered conclude_startEvents hdone, hrejected hne hno⟩
    -- the release raised; its exception is what the call ends with
    · obtain ⟨result, -, hpart⟩ := t.answered rfl hdone
      exact Or.inr ⟨⟨_, hpart⟩, hrejected hne hno, fun _ hout => by cases hout⟩
  | @provider hasLock result hst =>
    rw [ProviderInv, hst] at h
    have hne : ∀ reply, call.status ≠ .cacheGet (some reply) := by simp [hst]
    have hno := hrejected hne h.2
    have hpart := t.part
    rw [h.1] at hpart
    cases result with
    | error e =>
      have hraised : ProviderInv svc (call.goto now (.finished (.error e))) own' := by
        refine Or.inr ⟨⟨.error e, ?_⟩, hno, fun _ hout => by cases hout⟩
        rw [hpart]
        unfold afterProvider
        dsimp only
        split <;> rfl
      unfold afterProvider
      dsimp only
      split
      · exact hraised
      · exact hraised
    | ok result =>
      rw [afterProvider] at hpart ⊢
      rcases afterResult_status svc call cb hasLock result with
        ⟨done, hdone, hstatus⟩ | ⟨-, e, hstatus⟩
      · rw [hstatus] at hpart ⊢
        exact ⟨⟨result, hdone, hpart⟩, hno⟩
      · rw [hstatus] at hpart ⊢
        exact Or.inr ⟨⟨.ok result, hpart⟩, hno, fun _ hout => by cases hout⟩

/-- What a call has done about its provider, in every run of it. -/
theorem InferRun.providerInv (h : InferRun svc pid call own) : ProviderInv svc call own := by
  induction h with
  | start =>
    refine ⟨rfl, ?_⟩
    rintro ⟨_, hmem, -⟩
    cases hmem
  | exec _ hx ih => exact providerInv_exec ih hx
  | run _ hb ih => exact providerInv_run ih hb

end Invariants

/-! ## Redis errors that are not handled -/

/-- A command raised something else than `ConnectionError`. -/
def OtherRedisError (own : Log) : Prop :=
  ∃ op err, Happened own (.redisError op err) ∧ err ≠ .connectionError

/-- The reply is an error that `except redis.exceptions.ConnectionError` does not catch. -/
def Uncaught {α : Type} (reply : Option (Except RedisError α)) : Prop :=
  ∃ err, reply = some (.error err) ∧ err ≠ .connectionError

/-- The call is about to raise a Redis error. -/
def Status.Failing : Status → Prop
  | .cacheGet reply => Uncaught reply
  | .lockSet reply => Uncaught reply
  | .pollGet _ reply => Uncaught reply
  | .cacheSet _ _ reply => Uncaught reply
  | .lockDel pending reply => (∃ e, pending = .error e) ∨ Uncaught reply
  | _ => False

/-- A call that has met an error which is not handled is about to raise one, or has ended. -/
def RedisInv (call : InferCall) (own : Log) : Prop :=
  (∃ out, call.status = .finished out) ∨ (OtherRedisError own ↔ call.status.Failing)

section RedisErrors

variable {svc : InferenceService} {now : ℚ} {cb : CircuitBreaker} {call : InferCall}
  {pid : ℕ} {own : Log} {fate : Fate}

/-- The command raised something else than `ConnectionError`. -/
def Fate.Other (fate : Fate) : Prop := ∃ err, fate.Raised err ∧ err ≠ .connectionError

lemma Fate.uncaught_reply {α : Type} {x : α} : Uncaught (some (fate.reply x)) ↔ fate.Other := by
  cases fate <;> simp [Uncaught, Other, Raised, reply]

lemma not_uncaught_none {α : Type} : ¬ Uncaught (none : Option (Except RedisError α)) := by
  rintro ⟨_, h, -⟩
  cases h

lemma otherRedisError_stamp_append {es : List Event} :
    OtherRedisError (stamp pid now es ++ own) ↔
      (∃ op err, .redisError op err ∈ es ∧ err ≠ .connectionError) ∨ OtherRedisError own := by
  simp only [OtherRedisError, happened_stamp_append, or_and_right, exists_or]

/-- A command is executed, and raises what becomes of it. -/
lemma otherRedisError_exec {redis : Redis} {x : Executed}
    (hx : call.exec svc now pid fate redis = some x) :
    OtherRedisError (stamp pid now x.events ++ own) ↔ fate.Other ∨ OtherRedisError own := by
  rw [otherRedisError_stamp_append]
  refine or_congr_left ?_
  constructor
  · rintro ⟨op, err, he, hne⟩
    cases exec_event hx he with
    | redisError _ hraised => exact ⟨err, hraised, hne⟩
  · rintro ⟨err, hraised, hne⟩
    have hmem : ∀ op, .redisError op err ∈ fate.events op := fun op =>
      Fate.mem_events.mpr ⟨err, hraised, rfl⟩
    cases exec_case hx with
    | cacheGet => exact ⟨_, err, hmem _, hne⟩
    | lockSet => exact ⟨_, err, List.mem_append_right _ (hmem _), hne⟩
    | pollGet => exact ⟨_, err, hmem _, hne⟩
    | cacheSet => exact ⟨_, err, List.mem_append_right _ (hmem _), hne⟩
    | lockDel => exact ⟨_, err, List.mem_append_right _ (hmem _), hne⟩

lemma redisInv_exec {redis : Redis} {x : Executed} (h : RedisInv call own)
    (hx : call.exec svc now pid fate redis = some x) :
    RedisInv (call.goto now x.status) (stamp pid now x.events ++ own) := by
  have hiff : OtherRedisError (stamp pid now x.events ++ own) ↔
      fate.Other ∨ call.status.Failing := by
    rw [otherRedisError_exec hx]
    rcases h with ⟨out, hfin⟩ | h
    -- a call that has ended has no command to execute
    · cases exec_case hx <;> simp_all
    · rw [h]
  refine Or.inr (hiff.trans ?_)
  rw [InferCall.goto_status]
  cases exec_case hx with
  | cacheGet hst =>
    rw [hst]
    exact (or_iff_left not_uncaught_none).trans Fate.uncaught_reply.symm
  | lockSet hst =>
    rw [hst]
    exact (or_iff_left not_uncaught_none).trans Fate.uncaught_reply.symm
  | pollGet hst =>
    rw [hst]
    exact (or_iff_left not_uncaught_none).trans Fate.uncaught_reply.symm
  | cacheSet hst =>
    rw [hst]
    exact (or_iff_left not_uncaught_none).trans Fate.uncaught_reply.symm
  | lockDel hst =>
    -- what the release raises joins what is pending
    rw [hst, or_comm]
    exact or_congr (or_iff_left not_uncaught_none) Fate.uncaught_reply.symm

lemma not_uncaught_ok {α : Type} {x : α} : ¬ Uncaught (some (.ok x : Except RedisError α)) := by
  rintro ⟨_, h, -⟩
  cases h

lemma not_uncaught_connectionError {α : Type} :
    ¬ Uncaught (some (.error .connectionError : Except RedisError α)) := by
  rintro ⟨_, h, hne⟩
  cases h
  exact hne rfl

lemma not_exists_error {α : Type} {x : α} : ¬ ∃ e, (.ok x : Except Exn α) = .error e := by
  rintro ⟨_, h⟩
  cases h

lemma circuitBreakerCheck_failing :
    (∃ out, (circuitBreakerCheck svc now call cb).status = .finished out) ∨
      ¬ (circuitBreakerCheck svc now call cb).status.Failing := by
  unfold circuitBreakerCheck
  dsimp only
  split
  · exact Or.inl ⟨_, rfl⟩
  · split
    · exact Or.inr id
    · exact Or.inr not_uncaught_none

lemma pollLoop_failing (deadline : ℚ) : ¬ (pollLoop now call cb deadline).status.Failing := by
  unfold pollLoop
  split
  · exact not_uncaught_none
  · exact id

lemma conclude_finished {pending : Except Exn Completion} :
    ∃ out, (conclude svc now call cb pending).status = .finished out := by
  unfold conclude
  split <;> exact ⟨_, rfl⟩

/-- A turn that goes on has no error to raise, unless one is pending while the lock is
released. -/
lemma failing_run {input : Input} {b : Block Status} (hb : call.run svc now cb input = some b) :
    (∃ out, b.status = .finished out) ∨ (b.status.Failing ↔ call.status.Failing) := by
  cases run_case hb with
  | cacheGet hst =>
    rw [hst]
    unfold afterCacheGet
    split
    · exact Or.inl ⟨_, rfl⟩
    · exact circuitBreakerCheck_failing.imp_right fun hno => iff_of_false hno not_uncaught_ok
    · exact circuitBreakerCheck_failing.imp_right fun hno =>
        iff_of_false hno not_uncaught_connectionError
    · exact Or.inl ⟨_, rfl⟩
  | lockSet hst =>
    rw [hst]
    unfold afterLockSet
    split
    · exact Or.inr (iff_of_false id not_uncaught_ok)
    · exact Or.inr (iff_of_false (pollLoop_failing _) not_uncaught_ok)
    · exact Or.inr (iff_of_false (pollLoop_failing _) not_uncaught_connectionError)
    · exact Or.inl ⟨_, rfl⟩
  | pollGet hst =>
    rw [hst]
    unfold afterPollGet
    split
    · exact Or.inl ⟨_, rfl⟩
    · exact Or.inr (iff_of_false id not_uncaught_ok)
    · exact Or.inr (iff_of_false id not_uncaught_connectionError)
    · exact Or.inl ⟨_, rfl⟩
  | sleeping hst =>
    rw [hst]
    exact Or.inr (iff_of_false (pollLoop_failing _) id)
  | cacheSet hst =>
    rw [hst]
    unfold afterCacheSet
    dsimp only
    split
    · -- what the cache write raised is pending
      refine Or.inr ((or_iff_left not_uncaught_none).trans ?_)
      split
      · exact iff_of_false not_exists_error not_uncaught_ok
      · exact iff_of_false not_exists_error not_uncaught_connectionError
      · next err hne => exact iff_of_true ⟨_, rfl⟩ ⟨err, rfl, hne⟩
    · exact Or.inl conclude_finished
  | lockDel =>
    unfold afterLockDel
    split
    · exact Or.inl conclude_finished
    · exact Or.inl conclude_finished
    · exact Or.inl ⟨_, rfl⟩
  | @provider hasLock result hst =>
    rw [hst]
    cases result with
    | error e =>
      unfold afterProvider
      dsimp only
      split <;> exact Or.inl ⟨_, rfl⟩
    | ok result =>
      rcases afterResult_status svc call cb hasLock result with ⟨done, -, hstatus⟩ | ⟨-, e, hstatus⟩
      · rw [afterProvider, hstatus]
        exact Or.inr (iff_of_false not_uncaught_none id)
      · rw [afterProvider, hstatus]
        exact Or.inl ⟨_, rfl⟩

lemma redisInv_run {input : Input} {b : Block Status} (h : RedisInv call own)
    (hb : call.run svc now cb input = some b) :
    RedisInv (call.goto now b.status) (stamp pid now b.events ++ own) := by
  have hsame : OtherRedisError (stamp pid now b.events ++ own) ↔ OtherRedisError own := by
    rw [otherRedisError_stamp_append]
    refine or_iff_right ?_
    rintro ⟨op, err, he, -⟩
    cases run_event hb _ he
  rcases failing_run hb with hfin | hfailing
  · exact Or.inl hfin
  · rcases h with ⟨out, hfin⟩ | h
    -- a call that has ended has no more turns
    · cases run_case hb <;> simp_all
    · exact Or.inr (hsame.trans (h.trans hfailing.symm))

/-- Which Redis errors a call has met, in every run of it. -/
theorem InferRun.redisInv (h : InferRun svc pid call own) : RedisInv call own := by
  induction h with
  | start =>
    refine Or.inr (iff_of_false ?_ not_uncaught_none)
    rintro ⟨_, _, ⟨_, hmem, -⟩, -⟩
    cases hmem
  | exec _ hx ih => exact redisInv_exec ih hx
  | run _ hb ih => exact redisInv_run ih hb

end RedisErrors

end InferenceApi
