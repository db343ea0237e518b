import InferenceApi.Gateway.Outcomes

/-!
# A client cannot tell the cache from the provider

A response is built in one way from a cached value, from a value that was waited for and from the
call's own result. So where the provider answers the same body in the same way, a call ends with
the response it would have got without a cache and without collapsing, but for `cache_hit`.
-/

namespace InferenceApi
namespace Gateway

open Transition Json HttpLLMAdapter

/-- The response of a call that goes straight to the provider and is answered `result`. -/
def direct (svc : InferenceService) (now : ℚ) (call : InferCall) (result : Json) :
    Except Exn InferResponse := do
  let usage ← mappedUsage result
  (recordUsage svc call usage).2
  let output ← subscript result "output"
  buildResponse svc now call output (.str call.req.model) usage.toJson false

/-- The provider answers as `answer` says, which goes by the body it is sent: the order of the
keys makes no difference. -/
structure Deterministic (answer : InferRequest → Json) (log : Log) : Prop where
  sameBody : ∀ req req', KeyEquiv (.obj (buildPayload req.model req.input req.config false))
    (.obj (buildPayload req'.model req'.input req'.config false)) → answer req = answer req'
  answered : ∀ pid t req result, ⟨pid, t, .providerEnd req (.ok result)⟩ ∈ log →
    result = answer req

variable {svc : InferenceService} {s s' : Gateway} {a : Action} {pid : ℕ} {call : InferCall}
  {resp : InferResponse} {result : Json} {done : Completion} {now : ℚ}

/-! ## The answers of the provider -/

/-- What is true of everything the adapter is made to answer is true of every answer in the
log. -/
lemma answer_of_run {ok : Gateway → Action → Prop} {P : InferRequest → Except Exn Json → Prop}
    (hs : Run (step svc) ok init s)
    (hok : ∀ s pid call r, ok s (.input pid (.adapter r)) → s.procs pid = .infer call →
      P call.req r) :
    ∀ pid t req r, ⟨pid, t, .providerEnd req r⟩ ∈ s.log → P req r := by
  induction hs with
  | refl =>
    intro pid t req r hmem
    cases hmem
  | @tail s s' a _ hpermitted hstep ih =>
    intro pid t req r hmem
    obtain ⟨pid', es, hlog⟩ := log_of_step hstep
    rw [hlog] at hmem
    rcases List.mem_append.mp hmem with hnew | hold
    · obtain ⟨rfl, rfl, he⟩ := mem_stamp.mp hnew
      have hdid : Did s s' pid (.providerEnd req r) := ⟨_, hlog, hnew⟩
      cases step_move hstep with
      | tick => exact absurd hdid (not_did_of_log_eq rfl)
      | infer => exact absurd hdid (not_did_of_log_eq rfl)
      | stream => exact absurd hdid (not_did_of_log_eq rfl)
      | redis hp hx => cases exec_event hx (did_act.mp hdid).2
      | @input pid' input call b hp hb =>
        obtain ⟨rfl, he⟩ := did_act.mp hdid
        cases run_event hb _ he with
        | providerEnd hst hin =>
          subst hin
          exact hok _ _ _ _ hpermitted hp
      | streamInput hp hb => exact (StreamingService.ofStream_of_mem hb _ (did_act.mp hdid).2).elim
    · exact ih pid t req r hold

/-- The same for results. -/
lemma providerEnd_of_run {ok : Gateway → Action → Prop} {P : InferRequest → Json → Prop}
    (hs : Run (step svc) ok init s)
    (hok : ∀ s pid call result, ok s (.input pid (.adapter (.ok result))) →
      s.procs pid = .infer call → P call.req result) :
    ∀ pid t req result, ⟨pid, t, .providerEnd req (.ok result)⟩ ∈ s.log → P req result := by
  intro pid t req result hmem
  refine answer_of_run (P := fun req r => ∀ result, r = .ok result → P req result) hs ?_
    pid t req _ hmem result rfl
  rintro s pid call _ hpermitted hp result rfl
  exact hok s pid call result hpermitted hp

/-! ## The response of a direct call -/

/-- A call that completes is answered with its completion. -/
lemma direct_of_completes (hdone : Completes svc call.req result done) :
    direct svc now call result =
      buildResponse svc now call done.output (.str call.req.model) done.usage.toJson false := by
  have hrecorded : (recordUsage svc call done.usage).2 = .ok () := by
    unfold recordUsage
    split
    · rfl
    · next record hrecord => exact hdone.recorded record hrecord
  rw [direct, hdone.usage]
  show ((recordUsage svc call done.usage).2 >>= fun _ => _) = _
  rw [hrecorded]
  show (subscript result "output" >>= fun output => _) = _
  rw [hdone.output]
  rfl

/-- The flag is copied. -/
lemma buildResponse_uncached {output model usage : Json} {cacheHit : Bool}
    (h : buildResponse svc now call output model usage cacheHit = .ok resp) :
    buildResponse svc now call output model usage false = .ok { resp with cacheHit := false } := by
  unfold buildResponse at h ⊢
  rw [InferResponse.validate.eq_def] at h ⊢
  split at h
  · split at h
    · next hlatency =>
      cases h
      exact if_pos hlatency
    · cases h
  · cases h

/-- A call that is under way was not rejected. -/
lemma not_rejected_of_running {own : Log} (h : ProviderInv svc call own)
    (hrunning : ∀ out, call.status ≠ .finished out) : ¬ Rejected own := by
  unfold ProviderInv at h
  split at h
  · exact h.2
  · exact h.2
  · exact h.2
  · next out hst => exact absurd hst (hrunning out)
  · exact h.2

lemma circuitBreakerCheck_ne_ok {cb : CircuitBreaker} :
    (circuitBreakerCheck svc now call cb).status ≠ .finished (.ok resp) := by
  unfold circuitBreakerCheck
  dsimp only
  split
  · simp [finish]
  · split
    · simp [startProvider]
    · simp

/-- Nor was one that returns a response. -/
lemma not_rejected_of_returned {cb : CircuitBreaker} {input : Input} {b : Block Status}
    (hb : call.run svc now cb input = some b) (hfin : b.status = .finished (.ok resp)) :
    .isOpen true ∉ b.events := by
  intro hopen
  obtain ⟨reply, hst⟩ := asked_of_run hb hopen
  cases run_case hb with
  | cacheGet =>
    unfold afterCacheGet at hfin hopen
    split at hfin
    · simp [finish] at hopen
    · exact circuitBreakerCheck_ne_ok hfin
    · exact circuitBreakerCheck_ne_ok hfin
    · cases hfin
  | _ hst' => cases hst.symm.trans hst'

lemma not_isOpen_of_returned (hs : Reachable svc s) (hstep : step svc s a = some s')
    (hret : Did s s' pid (.returned (.ok resp))) : ∀ t, ⟨pid, t, .isOpen true⟩ ∉ s'.log := by
  intro t hmem
  obtain ⟨call, input, b, hp, hb, hfin, rfl⟩ := turn_of_returned hstep hret
  have hown := hs.ownInv pid
  rw [hp] at hown
  rcases List.mem_append.mp hmem with hnew | hold
  · exact not_rejected_of_returned hb hfin (mem_stamp.mp hnew).2.2
  · refine not_rejected_of_running (InferRun.providerInv hown) (fun out hst => ?_)
      (happened_own.mpr ⟨t, hold⟩)
    cases run_case hb <;> simp_all

/-- A response comes from a result for the same body, with which the call completes. -/
lemma direct_of_returned (hs : Reachable svc s) (hcoll : CollisionFree svc s)
    (hstep : step svc s a = some s') (hp : s.procs pid = .infer call)
    (hret : Did s s' pid (.returned (.ok resp))) :
    ∃ writer t req result, ⟨writer, t, .providerEnd req (.ok result)⟩ ∈ s'.log ∧
      req.input = call.req.input ∧
      KeyEquiv (.obj (buildPayload req.model req.input req.config false))
        (.obj (buildPayload call.req.model call.req.input call.req.config false)) ∧
      direct svc s.now call result = .ok { resp with cacheHit := false } := by
  obtain ⟨hending, -⟩ :=
    ending_of_returned hs hstep hp hret (not_isOpen_of_returned hs hstep hret)
  generalize hout : Except.ok resp = out at hending
  cases hending with
  | redisError => cases hout
  | providerError => cases hout
  | unusable => cases hout
  | cached hfound =>
    -- the value was stored under the digest of the call's own text
    obtain ⟨writer, t, req, result, done, hprod⟩ := (hs.cacheInv.calls _ _ hp).1 _ hfound
    have hdigest := (String.append_right_inj _).mp hprod.key
    have htext := hcoll req call.req hprod.requested ⟨_, _, hp, rfl⟩ hdigest
    obtain ⟨hmodel, hpayload⟩ := keyEquiv_buildPayload_of_keyText_eq false htext
    refine ⟨writer, t, req, result, (extends_step hstep).log _ hprod.providerEnd,
      (of_keyText_eq htext).2.1, hpayload, ?_⟩
    have hdone : Completes svc call.req result done :=
      ⟨hprod.completes.usage, hmodel ▸ hprod.completes.recorded, hprod.completes.output⟩
    rw [direct_of_completes hdone]
    rw [hprod.value] at hout
    have hcached : buildResponse svc s.now call done.output (.str req.model) done.usage.toJson
        true = .ok resp := hout.symm
    rw [hmodel] at hcached
    exact buildResponse_uncached hcached
  | @completed result done _ _ hpart hdone =>
    obtain ⟨t, hmem⟩ := exists_providerEnd hpart
    refine ⟨pid, t, call.req, result, hmem, rfl, .refl _, ?_⟩
    rw [direct_of_completes hdone]
    exact buildResponse_uncached hout.symm

/-- **Caching is transparent.** In every run, with the provider answering the same body in the
same way, whatever Redis does and whoever waits for whom: a response, cached or not, is the one
the call would have got straight from the provider, but for `cache_hit`. -/
theorem caching_transparent (hs : Reachable svc s) (hcoll : CollisionFree svc s)
    (hstep : step svc s a = some s') (answer : InferRequest → Json)
    (hdet : Deterministic answer s'.log) (hp : s.procs pid = .infer call)
    (hret : Did s s' pid (.returned (.ok resp))) :
    direct svc s.now call (answer call.req) = .ok { resp with cacheHit := false } := by
  obtain ⟨writer, t, req, result, hend, -, hbody, hdirect⟩ :=
    direct_of_returned hs hcoll hstep hp hret
  rw [hdet.answered writer t req result hend, hdet.sameBody req call.req hbody] at hdirect
  exact hdirect

/-- The adapter returns `result` if it returns. -/
def Action.Returns (result : Json) : Action → Prop
  | .input _ (.adapter (.ok result')) => result' = result
  | _ => True

theorem caching_transparent_servedFromCache :
    ∃ call, (after sample servedFromCache).procs 1 = .infer call ∧
      direct sample (after sample servedFromCache).now call sampleResult =
        .ok { cachedResponse with cacheHit := false } := by
  have honly : ∀ a ∈ servedFromCache, a.OnlyFor sampleRequest := by
    simp [servedFromCache, Action.OnlyFor]
  have hreq : ∀ req, (after sample servedFromCache).Requested req → req = sampleRequest :=
    fun _ => eq_of_requested (run_after sample honly)
  have hreturns : ∀ a ∈ servedFromCache ++ [.input 1 .resume], a.Returns sampleResult := by
    simp [servedFromCache, Action.Returns]
  have hdet : Deterministic (fun _ => sampleResult)
      (after sample (servedFromCache ++ [.input 1 .resume])).log := by
    refine ⟨fun _ _ _ => rfl, ?_⟩
    exact providerEnd_of_run (run_after sample hreturns) fun _ _ _ _ hok _ => hok
  have hdid : Did (after sample servedFromCache)
      (after sample (servedFromCache ++ [.input 1 .resume])) 1 (.returned (.ok cachedResponse)) :=
    did_of_mem_responses step_servedFromCache (by decide +kernel)
  obtain ⟨call, input, b, hp, -⟩ := turn_of_returned step_servedFromCache hdid
  refine ⟨call, hp, ?_⟩
  refine caching_transparent (reachable_after sample _) (fun req req' h h' _ => ?_)
    step_servedFromCache (fun _ => sampleResult) hdet hp hdid
  rw [hreq req h, hreq req' h']

end Gateway
end InferenceApi
