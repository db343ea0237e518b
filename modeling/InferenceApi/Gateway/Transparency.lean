import InferenceApi.Gateway.Outcomes

/-!
# Are Redis errors transparent?

The cache and the lock are an optimisation: without Redis a request is to get what its
provider answers. `infer` handles `ConnectionError` at each of its five commands. Any
other Redis error ends it, even after the provider has answered.
-/

namespace InferenceApi
namespace Gateway

open Transition

/-- What a request is owed whatever becomes of its Redis commands: a cached value for its
key, or what its own provider call returned or raised. -/
inductive Transparent (svc : InferenceService) (s s' : Gateway) (pid : ℕ) (call : InferCall) :
    Except Exn InferResponse → Prop
  | cached {value : Json} {resp : InferResponse} : Sound svc s (svc.makeKey call.req) value →
      respondCached svc s.now call value = .ok resp → resp.cacheHit = true →
      Transparent svc s s' pid call (.ok resp)
  | answered {t : ℚ} {result : Json} {resp : InferResponse} :
      ⟨pid, t, .providerEnd call.req (.ok result)⟩ ∈ s'.log → Serves svc call.req result resp →
      resp.cacheHit = false → Transparent svc s s' pid call (.ok resp)
  | raised {t : ℚ} {e : Exn} : ⟨pid, t, .providerEnd call.req (.error e)⟩ ∈ s'.log →
      Transparent svc s s' pid call (.error e)

variable {svc : InferenceService} {s s' : Gateway} {a : Action} {pid : ℕ} {call : InferCall}
  {resp : InferResponse} {out : Except Exn InferResponse}

/-- Without an exception of the provider there is a response. -/
lemma Transparent.exists_ok (h : Transparent svc s s' pid call out)
    (hno : ∀ {t e}, ⟨pid, t, .providerEnd call.req (.error e)⟩ ∉ s'.log) :
    ∃ resp, out = .ok resp := by
  cases h with
  | cached => exact ⟨_, rfl⟩
  | answered => exact ⟨_, rfl⟩
  | raised hmem => exact absurd hmem hno

/-- **When Redis errors are transparent.** A call that its circuit breaker let through ends
with what it is owed exactly if every Redis error it met was a `ConnectionError`, and the
value it goes by, its provider's or a cached one, makes a valid response. -/
theorem redis_errors_transparent_iff (hs : Reachable svc s) (hstep : step svc s a = some s')
    (hp : s.procs pid = .infer call) (hret : Did s s' pid (.returned out))
    (hclosed : ∀ t, ⟨pid, t, .isOpen true⟩ ∉ s'.log) :
    Transparent svc s s' pid call out ↔
      (∀ t op err, ⟨pid, t, .redisError op err⟩ ∈ s.log → err = .connectionError) ∧
      (∀ t result, ⟨pid, t, .providerEnd call.req (.ok result)⟩ ∈ s'.log →
        Succeeds svc call.req result) ∧
      ∀ (done : Completion) (req : InferRequest),
        call.status.found = some (done.payload req) → done.Presentable svc := by
  obtain ⟨hending, hfailing⟩ := ending_of_returned hs hstep hp hret hclosed
  have ht0 := hs.startedInPast pid call hp
  have hredis : (∀ t op err, ⟨pid, t, .redisError op err⟩ ∈ s.log → err = .connectionError) ↔
      ¬ call.status.Failing := by
    rw [hfailing]
    push Not
    rfl
  rw [hredis]
  cases hending with
  | @cached value hfound hno hnil =>
    -- the value was written by some call from a result of its own: only its form is in question
    obtain ⟨writer, t, req, result, done, hprod⟩ := (hs.cacheInv.calls _ _ hp).1 _ hfound
    constructor
    · intro h
      obtain ⟨resp, hresp⟩ := h.exists_ok fun hmem => not_providerEnd_of_nil hnil hmem
      refine ⟨hno, fun _ _ hmem => absurd hmem (not_providerEnd_of_nil hnil),
        fun done req hvalue => ?_⟩
      rw [Option.some.inj (hfound.symm.trans hvalue)] at hresp
      exact (of_respondCached hresp).1
    · rintro ⟨-, -, hpresentable⟩
      rw [hprod.value] at hfound ⊢
      obtain ⟨resp, hresp, hanswer⟩ := exists_respondCached (hpresentable _ _ hfound) ht0
      rw [hresp]
      exact .cached ⟨writer, t, req, result, done, hprod⟩ (hprod.value ▸ hresp) hanswer.cacheHit
  | @redisError e hfound hfail hpart =>
    -- an error of Redis came out, and a call is owed none whatever its provider did
    refine iff_of_false (fun h => ?_) fun h => h.1 hfail
    obtain ⟨_, hresp⟩ := h.exists_ok fun hmem => by
      rcases hpart with hnil | ⟨result, hpart⟩
      · exact not_providerEnd_of_nil hnil hmem
      · cases eq_of_providerEnd hpart hmem
    cases hresp
  | providerError hfound hno hpart =>
    obtain ⟨t, hmem⟩ := exists_providerEnd hpart
    refine iff_of_true (.raised hmem) ⟨hno, fun _ result hmem => ?_, fun done req hvalue => ?_⟩
    · cases eq_of_providerEnd hpart hmem
    · cases hfound.symm.trans hvalue
  | unusable hfound hno hpart hnot =>
    -- `infer` itself raised on the provider's result: it owes this caller a response
    obtain ⟨t, hmem⟩ := exists_providerEnd hpart
    refine iff_of_false (fun h => ?_) fun h => ?_
    · obtain ⟨_, hresp⟩ := h.exists_ok fun hmem => by cases eq_of_providerEnd hpart hmem
      cases hresp
    · obtain ⟨done, hdone, -⟩ := h.2.1 t _ hmem
      exact hnot done hdone
  | @completed result done hfound hno hpart hdone =>
    obtain ⟨t, hmem⟩ := exists_providerEnd hpart
    constructor
    · intro h
      obtain ⟨resp, hresp⟩ := h.exists_ok fun hmem => by cases eq_of_providerEnd hpart hmem
      refine ⟨hno, fun t' result' hmem' => ?_, fun done req hvalue => ?_⟩
      · cases eq_of_providerEnd hpart hmem'
        exact (succeeds_iff hdone).mpr (serves_of_buildResponse hdone hresp).1
      · cases hfound.symm.trans hvalue
    · rintro ⟨-, hsucceeds, -⟩
      -- the result succeeds, so the response validates and is the one returned
      have hpresentable := (succeeds_iff hdone).mp (hsucceeds t result hmem)
      obtain ⟨resp, hresp, -⟩ := exists_buildResponse call.req hpresentable ht0 false
      obtain ⟨-, hserves, hhit⟩ := serves_of_buildResponse hdone hresp
      rw [hresp]
      exact .answered hmem hserves hhit

/-! ## A refused cache write, and no Redis at all -/

/-- The result maps to a usage of integers and has a string as its output. -/
def usable (result : Json) : Bool :=
  match mappedUsage result, subscript result "output" with
  | .ok usage, .ok (.str _) => (parseUsage .strict usage.toJson).isSome
  | _, _ => false

/-- Without a recorder that is all it takes. -/
lemma succeeds_of_usable {req : InferRequest} {result : Json} (h : usable result = true) :
    Succeeds sample req result := by
  unfold usable at h
  split at h
  · next usage output husage houtput =>
    obtain ⟨n, hn⟩ := Option.isSome_iff_exists.mp h
    exact ⟨⟨.str output, usage⟩, ⟨husage, fun _ hrec => (by cases hrec), houtput⟩, output, n, rfl,
      hn⟩
  · cases h

/-- No check was answered `True`, no provider call raised, every result is usable, and every
Redis error is a `ConnectionError` if `connectionOnly`. -/
def undisturbed (connectionOnly : Bool) (log : Log) : Bool :=
  log.all fun entry =>
    match entry.event with
    | .isOpen answer => !answer
    | .providerEnd _ (.ok result) => usable result
    | .providerEnd _ (.error _) => false
    | .redisError _ err => !connectionOnly || err = .connectionError
    | _ => true

/-- The call has not just found a cached value. -/
def foundNothing : Proc → Bool
  | .infer call => call.status.found.isNone
  | _ => false

lemma exists_of_foundNothing {proc : Proc} (h : foundNothing proc = true) :
    ∃ call, proc = .infer call ∧ call.status.found = none := by
  unfold foundNothing at h
  split at h
  · exact ⟨_, rfl, Option.isNone_iff_eq_none.mp h⟩
  · cases h

/-- A leader whose cache write is refused after its provider has answered. -/
def refusedCacheWrite : List Action :=
  [.infer 0 "a" sampleRequest, .redis 0 .ok, .input 0 .resume, .redis 0 .ok, .input 0 .resume,
    .input 0 (.adapter (.ok sampleResult)), .redis 0 (.failed .responseError), .input 0 .resume,
    .redis 0 .ok]

/-- The provider's answer is lost with the cache write. -/
theorem refused_cache_write_discards_answer :
    ¬ ∀ (svc : InferenceService) (s s' : Gateway) (a : Action) (pid : ℕ) (call : InferCall)
      (out : Except Exn InferResponse), Reachable svc s → step svc s a = some s' →
      s.procs pid = .infer call → Did s s' pid (.returned out) →
      (∀ t, ⟨pid, t, .isOpen true⟩ ∉ s'.log) → Transparent svc s s' pid call out := by
  intro hall
  have hstep : step sample (after sample refusedCacheWrite) (.input 0 .resume) =
      some (after sample (refusedCacheWrite ++ [.input 0 .resume])) :=
    step_after (by decide +kernel)
  have hret : Did (after sample refusedCacheWrite)
      (after sample (refusedCacheWrite ++ [.input 0 .resume])) 0
      (.returned (.error (.redis .responseError))) := did_of_mem_outcomes hstep (by decide +kernel)
  have hlog :
      undisturbed false (after sample (refusedCacheWrite ++ [.input 0 .resume])).log = true := by
    decide +kernel
  obtain ⟨call, hp⟩ : ∃ call, (after sample refusedCacheWrite).procs 0 = .infer call := ⟨_, rfl⟩
  have hout := hall sample _ _ _ 0 call _ (reachable_after _ _) hstep hp hret fun t hmem => by
    cases List.all_eq_true.mp hlog _ hmem
  obtain ⟨resp, hresp⟩ := hout.exists_ok fun hmem => by cases List.all_eq_true.mp hlog _ hmem
  cases hresp

/-- A call for which every Redis command fails with a `ConnectionError`. -/
def withoutRedis : List Action :=
  [.infer 0 "a" sampleRequest, .redis 0 (.failed .connectionError), .input 0 .resume,
    .redis 0 (.failed .connectionError), .input 0 .resume, .redis 0 (.failed .connectionError),
    .input 0 .resume, .input 0 (.adapter (.ok sampleResult)), .redis 0 (.failed .connectionError)]

/-- The response it gets. -/
def ownResponse : InferResponse where
  requestId := "a"
  output := "[stub] same request"
  model := "gpt-4o-mini"
  usage := [("tokens_in", 2), ("tokens_out", 10)]
  latencyMs := 0
  cacheHit := false

theorem redis_errors_transparent_iff_withoutRedis :
    ∃ call, (after sample withoutRedis).procs 0 = .infer call ∧
      Transparent sample (after sample withoutRedis)
        (after sample (withoutRedis ++ [.input 0 .resume])) 0 call (.ok ownResponse) := by
  have hstep : step sample (after sample withoutRedis) (.input 0 .resume) =
      some (after sample (withoutRedis ++ [.input 0 .resume])) := step_after (by decide +kernel)
  have hlog : undisturbed true (after sample (withoutRedis ++ [.input 0 .resume])).log = true := by
    decide +kernel
  have hredis : undisturbed true (after sample withoutRedis).log = true := by decide +kernel
  have hnothing : foundNothing ((after sample withoutRedis).procs 0) = true := by decide +kernel
  obtain ⟨call, hp, hfound⟩ := exists_of_foundNothing hnothing
  refine ⟨call, hp, (redis_errors_transparent_iff (reachable_after _ _) hstep hp
    (did_of_mem_outcomes hstep (by decide +kernel)) fun t hmem => ?_).mpr
    ⟨fun t op err hmem => ?_, fun t result hmem => ?_, fun done req hvalue => ?_⟩⟩
  · cases List.all_eq_true.mp hlog _ hmem
  · exact of_decide_eq_true (List.all_eq_true.mp hredis _ hmem)
  · exact succeeds_of_usable (List.all_eq_true.mp hlog _ hmem)
  · cases hfound.symm.trans hvalue

end Gateway
end InferenceApi
