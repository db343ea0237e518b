import InferenceApi.Services.Accounts

/-!
# How a call of `infer` ends

A call that its circuit breaker check let through ends in one of five ways. `ending_of_run`
tells them apart by what the call has met: a cached value, a Redis error that is not
handled, an exception of the provider, a result of the provider that cannot be used, or one
that can.
-/

namespace InferenceApi

open CircuitBreaker

/-- How a turn ends a call. `own` has the call's events, the turn's included. -/
inductive Ending (svc : InferenceService) (now : ℚ) (call : InferCall) (own : Log) :
    Except Exn InferResponse → Prop
  | cached {value : Json} : call.status.found = some value → ¬ call.status.Failing →
      providerEvents own = [] → Ending svc now call own (respondCached svc now call value)
  | redisError {e : Exn} : call.status.found = none → call.status.Failing →
      (providerEvents own = [] ∨ ∃ result,
        providerEvents own = resultEvents svc call.req (.ok result) ++ [.providerStart call.req]) →
      Ending svc now call own (.error e)
  | providerError {e : Exn} : call.status.found = none → ¬ call.status.Failing →
      providerEvents own = resultEvents svc call.req (.error e) ++ [.providerStart call.req] →
      Ending svc now call own (.error e)
  | unusable {result : Json} {e : Exn} : call.status.found = none → ¬ call.status.Failing →
      providerEvents own = resultEvents svc call.req (.ok result) ++ [.providerStart call.req] →
      (∀ done, ¬ Completes svc call.req result done) → Ending svc now call own (.error e)
  | completed {result : Json} {done : Completion} :
      call.status.found = none → ¬ call.status.Failing →
      providerEvents own = resultEvents svc call.req (.ok result) ++ [.providerStart call.req] →
      Completes svc call.req result done →
      Ending svc now call own
        (buildResponse svc now call done.output (.str call.req.model) done.usage.toJson false)

section Endings

variable {svc : InferenceService} {now : ℚ} {cb : CircuitBreaker} {call : InferCall}
  {pid : ℕ} {own : Log} {out : Except Exn InferResponse}

/-- A check that ends the call was answered `True`. -/
lemma rejected_of_circuitBreakerCheck
    (hfin : (circuitBreakerCheck svc now call cb).status = .finished out) :
    .isOpen true ∈ (circuitBreakerCheck svc now call cb).events := by
  unfold circuitBreakerCheck at hfin ⊢
  dsimp only at hfin ⊢
  split at hfin
  · next hopen =>
    rw [if_pos hopen, hopen]
    exact List.mem_cons_of_mem _ List.mem_cons_self
  · split at hfin
    · cases hfin
    · cases hfin

lemma pollLoop_ne_finished {deadline : ℚ} :
    (pollLoop now call cb deadline).status ≠ .finished out := by
  unfold pollLoop
  split
  · exact Status.noConfusion
  · exact Status.noConfusion

/-- The end after the cache write and the release. -/
lemma ending_conclude {done : Completion} {pending : Except Exn Completion}
    (hfound : call.status.found = none) (hanswered : Answered svc call.req own done)
    (hpending : ∀ done', pending = .ok done' → done' = done)
    (hfailing : call.status.Failing ↔ ∃ e, pending = .error e)
    (hfin : (conclude svc now call cb pending).status = .finished out) :
    Ending svc now call own out := by
  obtain ⟨result, hdone, hpart⟩ := hanswered
  cases pending with
  | error e =>
    cases hfin
    exact .redisError hfound (hfailing.mpr ⟨e, rfl⟩) (Or.inr ⟨result, hpart⟩)
  | ok done' =>
    obtain rfl := hpending done' rfl
    cases hfin
    refine .completed hfound (fun hfail => ?_) hpart hdone
    obtain ⟨e, he⟩ := hfailing.mp hfail
    cases he

/-- **The ways to end.** -/
theorem ending_of_run {input : Input} {b : Block Status} (hprov : ProviderInv svc call own)
    (hb : call.run svc now cb input = some b) (hfin : b.status = .finished out)
    (hopen : .isOpen true ∉ b.events) :
    Ending svc now call (stamp pid now b.events ++ own) out := by
  have hpart : providerEvents (stamp pid now b.events ++ own) =
      inputEvents svc call.req input ++ providerEvents own := by
    rw [(providerTurn_of_run hb).part, hfin]
    rfl
  -- from here on only the provider's part of the log matters
  generalize stamp pid now b.events ++ own = own' at hpart ⊢
  have hanswered : ∀ {done}, input = .resume → Answered svc call.req own done →
      Answered svc call.req own' done := by
    rintro done rfl ⟨result, hdone, hresult⟩
    exact ⟨result, hdone, hpart.trans hresult⟩
  cases run_case hb with
  | @cacheGet reply hst =>
    rw [ProviderInv, hst] at hprov
    rw [hprov.1] at hpart
    unfold afterCacheGet at hfin hopen
    split at hfin
    · next value =>
      cases hfin
      exact .cached (by rw [hst]; rfl) (by rw [hst]; exact not_uncaught_ok) hpart
    -- a miss, or a cache that cannot be reached: only a rejection ends the call here
    · exact absurd (rejected_of_circuitBreakerCheck hfin) hopen
    · exact absurd (rejected_of_circuitBreakerCheck hfin) hopen
    · next err hne =>
      cases hfin
      exact .redisError (by rw [hst]; rfl) (by rw [hst]; exact ⟨err, rfl, hne⟩) (Or.inl hpart)
  | @lockSet rc reply hst =>
    rw [ProviderInv, hst] at hprov
    rw [hprov.1] at hpart
    unfold afterLockSet at hfin
    split at hfin
    · cases hfin
    · exact absurd hfin pollLoop_ne_finished
    · exact absurd hfin pollLoop_ne_finished
    · next err hne =>
      cases hfin
      exact .redisError (by rw [hst]; rfl) (by rw [hst]; exact ⟨err, rfl, hne⟩) (Or.inl hpart)
  | @pollGet rc deadline reply hst =>
    rw [ProviderInv, hst] at hprov
    rw [hprov.1] at hpart
    unfold afterPollGet at hfin
    split at hfin
    · next value =>
      cases hfin
      exact .cached (by rw [hst]; rfl) (by rw [hst]; exact not_uncaught_ok) hpart
    · cases hfin
    · cases hfin
    · next err hne =>
      cases hfin
      exact .redisError (by rw [hst]; rfl) (by rw [hst]; exact ⟨err, rfl, hne⟩) (Or.inl hpart)
  | sleeping => exact absurd hfin pollLoop_ne_finished
  | @cacheSet hasLock done reply hst =>
    rw [ProviderInv, hst] at hprov
    have hfound : call.status.found = none := by rw [hst]; rfl
    unfold afterCacheSet at hfin
    dsimp only at hfin
    split at hfin
    · cases hfin
    -- without a lock the call ends right after the cache write
    · refine ending_conclude hfound (hanswered rfl hprov.1) (fun done' hok => ?_) ?_ hfin
      · split at hok <;> cases hok <;> rfl
      · rw [hst]
        split
        · exact iff_of_false not_uncaught_ok not_exists_error
        · exact iff_of_false not_uncaught_connectionError not_exists_error
        · next err hne => exact iff_of_true ⟨err, rfl, hne⟩ ⟨_, rfl⟩
  | @lockDel pending reply hst =>
    rw [ProviderInv, hst] at hprov
    obtain ⟨⟨done, hdone, hpending⟩, -⟩ := hprov
    have hfound : call.status.found = none := by rw [hst]; rfl
    unfold afterLockDel at hfin
    split at hfin
    · refine ending_conclude hfound (hanswered rfl hdone) hpending ?_ hfin
      rw [hst]
      exact or_iff_left not_uncaught_ok
    · refine ending_conclude hfound (hanswered rfl hdone) hpending ?_ hfin
      rw [hst]
      exact or_iff_left not_uncaught_connectionError
    -- the release raised something else than `ConnectionError`
    · next err hne =>
      cases hfin
      obtain ⟨result, -, hresult⟩ := hanswered rfl hdone
      exact .redisError hfound (by rw [hst]; exact Or.inr ⟨err, rfl, hne⟩)
        (Or.inr ⟨result, hresult⟩)
  | @provider hasLock result hst =>
    rw [ProviderInv, hst] at hprov
    rw [hprov.1] at hpart
    have hfound : call.status.found = none := by rw [hst]; rfl
    have hfailing : ¬ call.status.Failing := by rw [hst]; exact id
    cases result with
    | error e =>
      have hout : Ending svc now call own' (.error e) := .providerError hfound hfailing hpart
      unfold afterProvider at hfin
      dsimp only at hfin
      split at hfin <;> cases hfin <;> exact hout
    | ok result =>
      rw [afterProvider] at hfin
      rcases afterResult_status svc call cb hasLock result with
        ⟨done, -, hstatus⟩ | ⟨hnot, e, hstatus⟩
      · cases hstatus.symm.trans hfin
      · cases hstatus.symm.trans hfin
        exact .unusable hfound hfailing hpart hnot

end Endings

end InferenceApi
