import InferenceApi.Services.Endings

/-!
# Which exception ends a call of `infer`

`Verdict` is as `Ending`, with the rejection by the circuit breaker as one of the ways, and with
the exception itself where `infer` or one of its guards raises it.
-/

namespace InferenceApi

open CircuitBreaker

/-- What is raised after the release is an error of Redis. -/
def Status.PendingRedis : Status → Prop
  | .lockDel (.error e) _ => ∃ err, e = .redis err ∧ err ≠ .connectionError
  | _ => True

/-- How a turn ends a call, and with what. `events` are those of the turn, `own` all of the
call's, the turn's included. -/
inductive Verdict (svc : InferenceService) (now : ℚ) (call : InferCall) (events : List Event)
    (own : Log) : Except Exn InferResponse → Prop
  | refused {retryAfterS : ℤ} : .isOpen true ∈ events → 0 ≤ retryAfterS →
      call.status.found = none → ¬ call.status.Failing → providerEvents own = [] →
      Verdict svc now call events own (.error (.circuitOpenError retryAfterS))
  | redis {err : RedisError} : .isOpen true ∉ events → err ≠ .connectionError →
      call.status.found = none → call.status.Failing →
      (∀ req e, .providerEnd req (.error e) ∉ providerEvents own) →
      Verdict svc now call events own (.error (.redis err))
  | provider {e : Exn} : .isOpen true ∉ events → call.status.found = none →
      ¬ call.status.Failing →
      providerEvents own = resultEvents svc call.req (.error e) ++ [.providerStart call.req] →
      Verdict svc now call events own (.error e)
  | unusable {cb : CircuitBreaker} {hasLock : Bool} {result : Json} {e : Exn} :
      .isOpen true ∉ events → call.status.found = none → ¬ call.status.Failing →
      providerEvents own = resultEvents svc call.req (.ok result) ++ [.providerStart call.req] →
      (afterResult svc call cb hasLock result).status = .finished (.error e) →
      Verdict svc now call events own (.error e)
  | cached {value : Json} : .isOpen true ∉ events → call.status.found = some value →
      ¬ call.status.Failing → providerEvents own = [] →
      Verdict svc now call events own (respondCached svc now call value)
  | completed {result : Json} {done : Completion} : .isOpen true ∉ events →
      call.status.found = none → ¬ call.status.Failing →
      providerEvents own = resultEvents svc call.req (.ok result) ++ [.providerStart call.req] →
      Completes svc call.req result done →
      Verdict svc now call events own
        (buildResponse svc now call done.output (.str call.req.model) done.usage.toJson false)

section Turns

variable {svc : InferenceService} {now : ℚ} {cb : CircuitBreaker} {pid : ℕ} {call : InferCall}
  {own : Log} {input : Input} {b : Block Status} {e : Exn}

lemma pendingRedis_of_waits {status : Status} (h : status.Waits) : status.PendingRedis := by
  cases status with
  | lockDel pending reply => exact h.elim
  | _ => trivial

lemma pendingRedis_exec {fate : Fate} {redis : Redis} {x : Executed}
    (h : call.status.PendingRedis) (hx : call.exec svc now pid fate redis = some x) :
    x.status.PendingRedis := by
  cases exec_case hx with
  | @lockDel pending hst =>
    rw [hst] at h
    cases pending with
    | ok done => trivial
    | error e => exact h
  | _ => trivial

lemma conclude_pendingRedis {pending : Except Exn Completion} :
    (conclude svc now call cb pending).status.PendingRedis := by
  cases pending with
  | ok done => trivial
  | error e => trivial

lemma pendingRedis_run (hb : call.run svc now cb input = some b) : b.status.PendingRedis := by
  cases run_case hb with
  | cacheGet =>
    unfold afterCacheGet
    split
    · trivial
    · exact pendingRedis_of_waits circuitBreakerCheck_waits
    · exact pendingRedis_of_waits circuitBreakerCheck_waits
    · trivial
  | lockSet =>
    unfold afterLockSet
    split
    · trivial
    · exact pendingRedis_of_waits (pollLoop_waits _)
    · exact pendingRedis_of_waits (pollLoop_waits _)
    · trivial
  | pollGet =>
    unfold afterPollGet
    split <;> trivial
  | sleeping => exact pendingRedis_of_waits (pollLoop_waits _)
  | cacheSet =>
    unfold afterCacheSet
    dsimp only
    split
    · split
      · trivial
      · trivial
      · next hne _ => exact ⟨_, rfl, hne⟩
    · exact conclude_pendingRedis
  | lockDel =>
    unfold afterLockDel
    split
    · exact conclude_pendingRedis
    · exact conclude_pendingRedis
    · trivial
  | @provider hasLock result =>
    unfold afterProvider
    split
    · split <;> trivial
    · rcases afterResult_status svc call cb hasLock _ with ⟨done, -, hst⟩ | ⟨-, e, hst⟩
      · rw [hst]
        trivial
      · rw [hst]
        trivial

lemma InferRun.pendingRedis (h : InferRun svc pid call own) : call.status.PendingRedis := by
  induction h with
  | start => trivial
  | exec _ hx ih => exact pendingRedis_exec ih hx
  | run _ hb => exact pendingRedis_run hb

lemma getRetryAfter_nonneg (c : Config) (now : ℚ) (cb : CircuitBreaker) :
    0 ≤ pyInt (getRetryAfter c now cb) := by
  have hnonneg : 0 ≤ getRetryAfter c now cb := by
    unfold getRetryAfter
    split
    · exact le_rfl
    · exact le_max_left _ _
  rw [pyInt, if_pos hnonneg]
  exact Int.floor_nonneg.mpr hnonneg

/-- What has come of the provider when a call has a completion. -/
lemma Answered.no_error {done : Completion} {req : InferRequest}
    (h : Answered svc call.req own done) : .providerEnd req (.error e) ∉ providerEvents own := by
  obtain ⟨result, -, hpart⟩ := h
  rw [hpart, providerEnd_mem_resultEvents]
  exact fun heq => by cases heq.2

/-- The end after the cache write and the release. -/
lemma verdict_conclude {done : Completion} {pending : Except Exn Completion} {events : List Event}
    {out : Except Exn InferResponse} (hopen : .isOpen true ∉ events)
    (hfound : call.status.found = none) (hanswered : Answered svc call.req own done)
    (hpending : ∀ done', pending = .ok done' → done' = done)
    (hfailing : call.status.Failing ↔ ∃ e, pending = .error e)
    (hredis : ∀ e, pending = .error e → ∃ err, e = .redis err ∧ err ≠ .connectionError)
    (hfin : (conclude svc now call cb pending).status = .finished out) :
    Verdict svc now call events own out := by
  cases pending with
  | error e =>
    cases hfin
    obtain ⟨err, rfl, hne⟩ := hredis e rfl
    exact .redis hopen hne hfound (hfailing.mpr ⟨_, rfl⟩) fun _ _ => hanswered.no_error
  | ok done' =>
    obtain rfl := hpending done' rfl
    obtain ⟨result, hdone, hpart⟩ := hanswered
    cases hfin
    refine .completed hopen hfound (fun hfail => ?_) hpart hdone
    obtain ⟨e, he⟩ := hfailing.mp hfail
    cases he

/-- A check that ends a call refuses it. -/
lemma verdict_circuitBreakerCheck {out : Except Exn InferResponse}
    (hfound : call.status.found = none) (hfailing : ¬ call.status.Failing)
    (hnil : providerEvents own = [])
    (hfin : (circuitBreakerCheck svc now call cb).status = .finished out) :
    Verdict svc now call (circuitBreakerCheck svc now call cb).events own out := by
  have hopen := rejected_of_circuitBreakerCheck hfin
  unfold circuitBreakerCheck at hfin
  dsimp only at hfin
  split at hfin
  · cases hfin
    exact .refused hopen (getRetryAfter_nonneg _ _ _) hfound hfailing hnil
  · split at hfin <;> cases hfin

/-- **The ways a turn ends a call.** -/
theorem verdict_of_run {out : Except Exn InferResponse} (hprov : ProviderInv svc call own)
    (hpending : call.status.PendingRedis) (hb : call.run svc now cb input = some b)
    (hfin : b.status = .finished out) :
    Verdict svc now call b.events (stamp pid now b.events ++ own) out := by
  have hpart : providerEvents (stamp pid now b.events ++ own) =
      inputEvents svc call.req input ++ providerEvents own := by
    rw [(providerTurn_of_run hb).part, hfin]
    rfl
  have hquiet : (∀ reply, call.status ≠ .cacheGet (some reply)) → .isOpen true ∉ b.events := by
    intro hne hopen
    obtain ⟨reply, hst⟩ := asked_of_run hb hopen
    exact hne reply hst
  -- from here on only the provider's part of the log matters
  generalize stamp pid now b.events ++ own = own' at hpart ⊢
  have hnone : providerEvents own' = [] →
      ∀ req e, .providerEnd req (.error e) ∉ providerEvents own' := by
    intro hnil req e hmem
    rw [hnil] at hmem
    cases hmem
  have hanswered : ∀ {done}, input = .resume → Answered svc call.req own done →
      Answered svc call.req own' done := by
    rintro done rfl ⟨result, hdone, hresult⟩
    exact ⟨result, hdone, hpart.trans hresult⟩
  cases run_case hb with
  | @cacheGet reply hst =>
    rw [ProviderInv, hst] at hprov
    rw [hprov.1] at hpart
    unfold afterCacheGet at hfin
    split at hfin
    · next value =>
      cases hfin
      exact .cached (by simp [afterCacheGet, finish]) (by rw [hst]; rfl)
        (by rw [hst]; exact not_uncaught_ok) hpart
    · exact verdict_circuitBreakerCheck (by rw [hst]; rfl) (by rw [hst]; exact not_uncaught_ok)
        hpart hfin
    · exact verdict_circuitBreakerCheck (by rw [hst]; rfl)
        (by rw [hst]; exact not_uncaught_connectionError) hpart hfin
    · next err hne =>
      cases hfin
      refine .redis ?_ hne (by rw [hst]; rfl) (by rw [hst]; exact ⟨err, rfl, hne⟩) (hnone hpart)
      cases err with
      | connectionError => exact absurd rfl hne
      | _ => simp [afterCacheGet, finish]
  | @lockSet rc reply hst =>
    rw [ProviderInv, hst] at hprov
    rw [hprov.1] at hpart
    have hopen := hquiet fun reply heq => by cases hst.symm.trans heq
    unfold afterLockSet at hfin
    split at hfin
    · cases hfin
    · exact absurd hfin pollLoop_ne_finished
    · exact absurd hfin pollLoop_ne_finished
    · next err hne =>
      cases hfin
      exact .redis hopen hne (by rw [hst]; rfl) (by rw [hst]; exact ⟨err, rfl, hne⟩) (hnone hpart)
  | @pollGet rc deadline reply hst =>
    rw [ProviderInv, hst] at hprov
    rw [hprov.1] at hpart
    have hopen := hquiet fun reply heq => by cases hst.symm.trans heq
    unfold afterPollGet at hfin
    split at hfin
    · next value =>
      cases hfin
      exact .cached hopen (by rw [hst]; rfl) (by rw [hst]; exact not_uncaught_ok) hpart
    · cases hfin
    · cases hfin
    · next err hne =>
      cases hfin
      exact .redis hopen hne (by rw [hst]; rfl) (by rw [hst]; exact ⟨err, rfl, hne⟩) (hnone hpart)
  | sleeping => exact absurd hfin pollLoop_ne_finished
  | @cacheSet hasLock done reply hst =>
    rw [ProviderInv, hst] at hprov
    have hopen := hquiet fun reply heq => by cases hst.symm.trans heq
    have hfound : call.status.found = none := by rw [hst]; rfl
    unfold afterCacheSet at hfin
    dsimp only at hfin
    split at hfin
    · cases hfin
    -- without a lock the call ends right after the cache write
    · refine verdict_conclude hopen hfound (hanswered rfl hprov.1) ?_ ?_ ?_ hfin
      · intro done' hok
        split at hok <;> cases hok <;> rfl
      · rw [hst]
        split
        · exact iff_of_false not_uncaught_ok not_exists_error
        · exact iff_of_false not_uncaught_connectionError not_exists_error
        · next err hne => exact iff_of_true ⟨err, rfl, hne⟩ ⟨_, rfl⟩
      · intro e herror
        split at herror
        · cases herror
        · cases herror
        · next err hne =>
          cases herror
          exact ⟨err, rfl, hne⟩
  | @lockDel pending reply hst =>
    rw [ProviderInv, hst] at hprov
    rw [hst] at hpending
    obtain ⟨⟨done, hdone, hcompletion⟩, -⟩ := hprov
    have hopen := hquiet fun reply heq => by cases hst.symm.trans heq
    have hfound : call.status.found = none := by rw [hst]; rfl
    have hredis : ∀ e, pending = .error e → ∃ err, e = .redis err ∧ err ≠ .connectionError := by
      rintro e rfl
      exact hpending
    unfold afterLockDel at hfin
    split at hfin
    · refine verdict_conclude hopen hfound (hanswered rfl hdone) hcompletion ?_ hredis hfin
      rw [hst]
      exact or_iff_left not_uncaught_ok
    · refine verdict_conclude hopen hfound (hanswered rfl hdone) hcompletion ?_ hredis hfin
      rw [hst]
      exact or_iff_left not_uncaught_connectionError
    -- the release raised something else than `ConnectionError`
    · next err hne =>
      cases hfin
      exact .redis hopen hne hfound (by rw [hst]; exact Or.inr ⟨err, rfl, hne⟩)
        fun _ _ => (hanswered rfl hdone).no_error
  | @provider hasLock result hst =>
    rw [ProviderInv, hst] at hprov
    rw [hprov.1] at hpart
    have hopen := hquiet fun reply heq => by cases hst.symm.trans heq
    have hfound : call.status.found = none := by rw [hst]; rfl
    have hfailing : ¬ call.status.Failing := by rw [hst]; exact id
    cases result with
    | error e =>
      have hout : out = .error e := by
        unfold afterProvider at hfin
        dsimp only at hfin
        split at hfin <;> cases hfin <;> rfl
      rw [hout]
      exact .provider hopen hfound hfailing hpart
    | ok result =>
      rcases afterResult_status svc call cb hasLock result with ⟨done, -, hst'⟩ | ⟨-, e, hst'⟩
      · cases hst'.symm.trans hfin
      · cases hst'.symm.trans hfin
        exact .unusable hopen hfound hfailing hpart hst'

end Turns

end InferenceApi
