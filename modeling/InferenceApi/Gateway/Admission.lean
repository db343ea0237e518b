import InferenceApi.Gateway.Invariants

/-!
# Admission: who reaches the provider, and whose success closes the circuit

Both results are about the distance between a request's own `is_open` check and what it
does later. In between, others may trip the breaker, let it recover, and probe it.
-/

namespace InferenceApi

open Transition SlidingWindow CircuitBreaker

/-! ## A request past its check was let through -/

/-- Suspended past the circuit breaker check. -/
def Status.Admitted : Status → Prop
  | .cacheGet _ => False
  | .finished _ => False
  | _ => True

/-- A stream past its circuit breaker check. -/
def StreamingService.Status.Admitted : StreamingService.Status → Prop
  | .created => False
  | .atRejection => False
  | .finished _ => False
  | _ => True

/-- Past the circuit breaker check. -/
def Proc.Admitted : Proc → Prop
  | .idle => False
  | .infer call => call.status.Admitted
  | .stream call => call.status.Admitted

section Calls

variable {svc : InferenceService} {now : ℚ} {cb : CircuitBreaker} {pid : ℕ}

lemma exec_admitted_iff {call : InferCall} {fate : Fate} {redis : Redis} {x : Executed}
    (h : call.exec svc now pid fate redis = some x) :
    x.status.Admitted ↔ call.status.Admitted := by
  cases exec_case h with
  | cacheGet hst => rw [hst]; rfl
  | lockSet hst => rw [hst]; rfl
  | pollGet hst => rw [hst]; rfl
  | cacheSet hst => rw [hst]; rfl
  | lockDel hst => rw [hst]; rfl

/-- The check lets a call through by answering `False`. -/
lemma circuitBreakerCheck_admitted {call : InferCall}
    (h : (circuitBreakerCheck svc now call cb).status.Admitted) :
    .isOpen false ∈ (circuitBreakerCheck svc now call cb).events := by
  unfold circuitBreakerCheck at h ⊢
  dsimp only at h ⊢
  split at h
  · exact h.elim
  · next hans =>
    rw [if_neg hans, Bool.not_eq_true _ |>.mp hans]
    split <;> simp [startProvider]

/-- A turn that ends past the check began past it, or has the check in it. -/
lemma run_admitted {call : InferCall} {input : Input} {b : Block Status}
    (h : call.run svc now cb input = some b) (hb : b.status.Admitted) :
    call.status.Admitted ∨ .isOpen false ∈ b.events := by
  cases run_case h with
  | cacheGet =>
    right
    unfold afterCacheGet at hb ⊢
    split at hb
    · exact hb.elim
    · exact circuitBreakerCheck_admitted hb
    · exact circuitBreakerCheck_admitted hb
    · exact hb.elim
  | lockSet hst => left; rw [hst]; trivial
  | pollGet hst => left; rw [hst]; trivial
  | sleeping hst => left; rw [hst]; trivial
  | cacheSet hst => left; rw [hst]; trivial
  | lockDel hst => left; rw [hst]; trivial
  | provider hst => left; rw [hst]; trivial

/-- A request past its check asked the breaker and was let through. -/
theorem InferRun.checked {call : InferCall} {own : Log} (h : InferRun svc pid call own)
    (hadm : call.status.Admitted) : ∃ t, ⟨pid, t, .isOpen false⟩ ∈ own := by
  induction h with
  | start => exact hadm.elim
  | exec _ hx ih =>
    obtain ⟨t, ht⟩ := ih ((exec_admitted_iff hx).mp hadm)
    exact ⟨t, List.mem_append_right _ ht⟩
  | @run _ _ now _ _ _ _ hb ih =>
    rcases run_admitted hb hadm with hprev | hcheck
    · obtain ⟨t, ht⟩ := ih hprev
      exact ⟨t, List.mem_append_right _ ht⟩
    · exact ⟨now, List.mem_append_left _ (List.mem_map_of_mem hcheck)⟩

lemma conclude_ne_provider {call : InferCall} {pending : Except Exn Completion} {hasLock : Bool} :
    (conclude svc now call cb pending).status ≠ .provider hasLock := by
  unfold conclude
  split <;> exact Status.noConfusion

/-- A turn that ends at the provider ends with the provider call. It was made right after
the check, or the call was past its check. -/
lemma run_startProvider {call : InferCall} {input : Input} {b : Block Status}
    (h : call.run svc now cb input = some b) {hasLock : Bool} (hb : b.status = .provider hasLock) :
    ∃ es, b.events = .providerStart call.req :: es ∧
      (es = [.isOpen false] ∨ call.status.Admitted ∧ (es = [] ∨ es = [.tryAcquired])) := by
  -- two ways to the provider are shared by several turns: out of the poll loop, and past the check
  have hpoll : ∀ {deadline}, (pollLoop now call cb deadline).status = .provider hasLock →
      (pollLoop now call cb deadline).events = [.providerStart call.req] := by
    intro deadline hst
    unfold pollLoop at hst ⊢
    split at hst
    · cases hst
    · next hlt => rw [if_neg hlt]; rfl
  have hcheck : (circuitBreakerCheck svc now call cb).status = .provider hasLock →
      (circuitBreakerCheck svc now call cb).events = [.providerStart call.req, .isOpen false] := by
    intro hst
    unfold circuitBreakerCheck at hst ⊢
    dsimp only at hst ⊢
    split at hst
    · cases hst
    · next hans =>
      rw [if_neg hans, Bool.not_eq_true _ |>.mp hans]
      split at hst
      · rfl
      · cases hst
  cases run_case h with
  | cacheGet =>
    unfold afterCacheGet at hb ⊢
    split at hb
    · cases hb
    · exact ⟨_, hcheck hb, Or.inl rfl⟩
    · exact ⟨_, hcheck hb, Or.inl rfl⟩
    · cases hb
  | lockSet hst =>
    -- the lock was won, or waited for in vain, or Redis is down
    have hadm : call.status.Admitted := by rw [hst]; trivial
    unfold afterLockSet at hb ⊢
    split at hb
    · exact ⟨_, rfl, Or.inr ⟨hadm, Or.inr rfl⟩⟩
    · exact ⟨_, hpoll hb, Or.inr ⟨hadm, Or.inl rfl⟩⟩
    · exact ⟨_, hpoll hb, Or.inr ⟨hadm, Or.inl rfl⟩⟩
    · cases hb
  | pollGet hst =>
    have hadm : call.status.Admitted := by rw [hst]; trivial
    unfold afterPollGet at hb ⊢
    split at hb
    · cases hb
    · cases hb
    · exact ⟨_, rfl, Or.inr ⟨hadm, Or.inl rfl⟩⟩
    · cases hb
  | sleeping hst =>
    exact ⟨_, hpoll hb, Or.inr ⟨by rw [hst]; trivial, Or.inl rfl⟩⟩
  | cacheSet =>
    unfold afterCacheSet at hb
    dsimp only at hb
    split at hb
    · cases hb
    · exact absurd hb conclude_ne_provider
  | lockDel =>
    unfold afterLockDel at hb
    split at hb
    · exact absurd hb conclude_ne_provider
    · exact absurd hb conclude_ne_provider
    · cases hb
  | @provider _ result =>
    cases result with
    | error e =>
      unfold afterProvider at hb
      dsimp only at hb
      split at hb <;> cases hb
    | ok result =>
      rw [afterProvider] at hb
      rcases afterResult_status svc call cb _ result with ⟨_, -, hst⟩ | ⟨-, _, hst⟩
      · rw [hst] at hb
        cases hb
      · rw [hst] at hb
        cases hb

lemma streamRun_admitted {c : Config} {call : StreamingService.StreamCall}
    {input : StreamingService.Input} {b : Block StreamingService.Status}
    (h : call.run c now cb input = some b) (hb : b.status.Admitted) :
    call.status.Admitted ∨ .isOpen false ∈ b.events := by
  unfold StreamingService.StreamCall.run at h
  split at h
  case h_1 =>
    cases h
    right
    unfold StreamingService.start at hb ⊢
    dsimp only at hb ⊢
    split at hb
    · exact hb.elim
    · next hans =>
      rw [if_neg hans, Bool.not_eq_true _ |>.mp hans]
      simp
  case h_17 => cases h
  -- a finished or rejected stream is not admitted, whatever it was before
  case h_2 => cases h; exact hb.elim
  case h_3 => cases h; exact hb.elim
  case h_4 => cases h; exact hb.elim
  all_goals
    left
    simp_all [StreamingService.Status.Admitted]

theorem StreamingService.StreamRun.checked {c : Config} {call : StreamCall} {own : Log}
    (h : StreamRun c pid call own) (hadm : call.status.Admitted) :
    ∃ t, ⟨pid, t, .isOpen false⟩ ∈ own := by
  induction h with
  | create => exact hadm.elim
  | @run _ _ now _ _ _ _ hb ih =>
    rcases streamRun_admitted hb hadm with hprev | hcheck
    · obtain ⟨t, ht⟩ := ih hprev
      exact ⟨t, List.mem_append_right _ ht⟩
    · exact ⟨now, List.mem_append_left _ (List.mem_map_of_mem hcheck)⟩

lemma handle_events {c : Config} {tokens : List String} {e : Exn} {event : Event}
    (h : event ∈ (StreamingService.handle c now cb tokens e).events) :
    (∀ req, event ≠ .providerStart req) ∧ event ≠ .recordSuccess := by
  unfold StreamingService.handle at h
  split at h <;>
    simp only [StreamingService.finish, List.mem_cons, List.not_mem_nil, or_false] at h <;>
    rcases h with rfl | h <;> (try rcases h with rfl | rfl) <;> simp

/-- A stream starts its provider call right after the check. -/
lemma streamRun_providerStart {c : Config} {call : StreamingService.StreamCall}
    {input : StreamingService.Input} {b : Block StreamingService.Status} {req : InferRequest}
    (h : call.run c now cb input = some b) (he : .providerStart req ∈ b.events) :
    b.events = [.providerStart req, .isOpen false] ∧ ¬ Blocking c now b.cb := by
  unfold StreamingService.StreamCall.run at h
  split at h
  case h_1 =>
    cases h
    unfold StreamingService.start at he ⊢
    dsimp only at he ⊢
    split at he
    · simp at he
    · next hans =>
      have hfalse := Bool.not_eq_true _ |>.mp hans
      rw [if_neg hans]
      refine ⟨?_, not_blocking_after_isOpen hfalse⟩
      cases List.mem_pair.mp he with
      | inl heq => rw [heq, hfalse]
      | inr heq => cases heq
  case h_7 => cases h; exact absurd rfl ((handle_events he).1 req)
  case h_10 => cases h; exact absurd rfl ((handle_events he).1 req)
  case h_17 => cases h
  all_goals
    cases h
    simp [StreamingService.finish] at he

/-- Only the normal end of the chunks counts as a success. -/
lemma streamRun_recordSuccess {c : Config} {call : StreamingService.StreamCall}
    {input : StreamingService.Input} {b : Block StreamingService.Status}
    (h : call.run c now cb input = some b) (he : .recordSuccess ∈ b.events) :
    call.status.Admitted ∧ b.cb = recordSuccess cb := by
  unfold StreamingService.StreamCall.run at h
  split at h
  case h_1 =>
    cases h
    unfold StreamingService.start at he
    dsimp only at he
    split at he <;> simp at he
  case h_6 hst =>
    cases h
    rw [hst]
    exact ⟨trivial, rfl⟩
  case h_7 => cases h; exact absurd rfl (handle_events he).2
  case h_10 => cases h; exact absurd rfl (handle_events he).2
  case h_17 => cases h
  all_goals
    cases h
    simp [StreamingService.finish] at he

/-- Only a result of the adapter counts as a success. -/
lemma run_recordSuccess {call : InferCall} {input : Input} {b : Block Status}
    (h : call.run svc now cb input = some b) (he : .recordSuccess ∈ b.events) :
    call.status.Admitted ∧ b.cb = recordSuccess cb := by
  have hcase := run_event h _ he
  cases run_case h with
  | provider hst =>
    refine ⟨by rw [hst]; trivial, ?_⟩
    cases hcase with
    | recordSuccess _ hin =>
      rw [Input.adapter.inj hin]
      exact afterResult_cb
  | _ hst =>
    cases hcase with
    | recordSuccess _ hin => cases hin

end Calls

namespace Gateway

variable {svc : InferenceService} {s s' : Gateway} {a : Action} {pid : ℕ} {e : Event}

/-! ## Checks in the log -/

/-- A request past its check was let through by it. -/
theorem Reachable.checked (hs : Reachable svc s) (hadm : (s.procs pid).Admitted) :
    ∃ t, ⟨pid, t, .isOpen false⟩ ∈ s.log := by
  have hown := hs.ownInv pid
  cases hp : s.procs pid with
  | idle =>
    rw [hp] at hadm
    exact hadm.elim
  | infer call =>
    rw [hp] at hown hadm
    obtain ⟨t, ht⟩ := InferRun.checked hown hadm
    exact ⟨t, (mem_own.mp ht).1⟩
  | stream call =>
    rw [hp] at hown hadm
    obtain ⟨t, ht⟩ := StreamingService.StreamRun.checked hown hadm
    exact ⟨t, (mem_own.mp ht).1⟩

/-- The answer of a check, wherever it stands in the log. -/
lemma answer_of_split {c : Config} {mid pre : Log} {entry : Entry} {answer : Bool}
    (h : AnswersFaithful c (mid ++ entry :: pre)) (he : entry.event = .isOpen answer) :
    answer = (isOpen c entry.time (replay c (breakerCalls pre))).1 := by
  induction mid with
  | nil => exact h.1 answer he
  | cons _ mid ih => exact ih h.2

/-! ## The provider is called through an open circuit only after a trip -/

/-- The breaker at the moment when the log was this one. -/
def breakerAt (svc : InferenceService) (log : Log) : CircuitBreaker :=
  replay svc.breaker (breakerCalls log)

lemma Reachable.breakerAt_eq (hs : Reachable svc s) : breakerAt svc s.log = s.cb :=
  hs.logInv.replay

/-- A provider call that is the newest event of a turn has nothing after it. -/
lemma eq_of_split {post rest es : List Event} {req req' : InferRequest}
    (h : post ++ .providerStart req :: rest = .providerStart req' :: es)
    (hes : ∀ req, .providerStart req ∉ es) : post = [] ∧ rest = es := by
  cases post with
  | nil => exact ⟨rfl, (List.cons.inj h).2⟩
  | cons e post =>
    have htail := (List.cons.inj h).2
    exact absurd (htail ▸ List.mem_append_right post List.mem_cons_self) (hes req)

/-- An entry among those of a turn is one of its events. -/
lemma stamp_eq_split {pid' : ℕ} {now t : ℚ} {es : List Event} {post rest : Log}
    (h : stamp pid' now es = post ++ ⟨pid, t, e⟩ :: rest) :
    pid = pid' ∧ ∃ post' rest', es = post' ++ e :: rest' ∧ rest = stamp pid' now rest' := by
  obtain ⟨post', tail, rfl, -, htail⟩ := List.map_eq_append_iff.mp h
  obtain ⟨e', rest', rfl, he', hrest⟩ := List.map_eq_cons_iff.mp htail
  obtain ⟨rfl, -, rfl⟩ := Entry.mk.inj he'
  exact ⟨rfl, post', rest', rfl, hrest.symm⟩

/-- What a turn logs before it starts the provider call is a check that let it through, or the
call was past its check. -/
lemma run_checked {call : InferCall} {input : Input} {b : Block Status}
    (hb : call.run svc s.now s.cb input = some b) {post rest : List Event} {req : InferRequest}
    (hsplit : b.events = post ++ .providerStart req :: rest) :
    .isOpen false ∈ rest ∨ call.status.Admitted := by
  have hstart : .providerStart req ∈ b.events :=
    hsplit ▸ List.mem_append_right post List.mem_cons_self
  cases run_event hb _ hstart with
  | providerStart hst =>
    obtain ⟨es, hevents, hcase⟩ := run_startProvider hb hst
    rw [hevents] at hsplit
    -- nothing else in the turn starts the provider, so what precedes the start is `es`
    have hes : ∀ req, .providerStart req ∉ es := by
      rcases hcase with rfl | ⟨-, rfl | rfl⟩ <;> simp
    obtain ⟨-, rfl⟩ := eq_of_split hsplit.symm hes
    rcases hcase with rfl | ⟨hadm, -⟩
    · exact Or.inl List.mem_cons_self
    · exact Or.inr hadm

/-- What a step adds before a provider call, and what was there, has the request's check. -/
lemma check_before_new_start (hs : Reachable svc s) (hstep : step svc s a = some s')
    {post rest : Log} {t : ℚ} {req : InferRequest}
    (hlog : s'.log = (post ++ ⟨pid, t, .providerStart req⟩ :: rest) ++ s.log) :
    ∃ t₀, ⟨pid, t₀, .isOpen false⟩ ∈ rest ++ s.log := by
  cases step_move hstep with
  | tick => exact absurd (List.self_eq_append_left.mp hlog) (by simp)
  | infer => exact absurd (List.self_eq_append_left.mp hlog) (by simp)
  | stream => exact absurd (List.self_eq_append_left.mp hlog) (by simp)
  | redis hp hx =>
    obtain ⟨-, post, rest, hevents, -⟩ := stamp_eq_split (List.append_cancel_right hlog)
    have hstart : Event.providerStart req ∈ _ :=
      hevents ▸ List.mem_append_right post List.mem_cons_self
    cases exec_event hx hstart
  | input hp hb =>
    obtain ⟨rfl, post, rest, hevents, rfl⟩ := stamp_eq_split (List.append_cancel_right hlog)
    -- the check is among the events of this turn, or in the log since an earlier one
    rcases run_checked hb hevents with hcheck | hadm
    · exact ⟨s.now, List.mem_append_left _ (List.mem_map_of_mem hcheck)⟩
    · obtain ⟨t₀, ht₀⟩ := hs.checked (by rw [hp]; exact hadm)
      exact ⟨t₀, List.mem_append_right _ ht₀⟩
  | streamInput hp hb =>
    obtain ⟨rfl, post, rest, hevents, rfl⟩ := stamp_eq_split (List.append_cancel_right hlog)
    have hstart : Event.providerStart req ∈ _ :=
      hevents ▸ List.mem_append_right post List.mem_cons_self
    obtain ⟨hblock, -⟩ := streamRun_providerStart hb hstart
    obtain ⟨-, rfl⟩ := eq_of_split (hevents.symm.trans hblock) (by simp)
    exact ⟨s.now, List.mem_append_left _ (List.mem_map_of_mem List.mem_cons_self)⟩

/-- Every provider call in the log comes after a check that let its request through. -/
theorem Reachable.check_before_start (hs : Reachable svc s) {post pre : Log} {t : ℚ}
    {req : InferRequest} (hlog : s.log = post ++ ⟨pid, t, .providerStart req⟩ :: pre) :
    ∃ t₀, ⟨pid, t₀, .isOpen false⟩ ∈ pre := by
  obtain ⟨s₁, a, s₂, new, rest, hs₁, hstep, -, hadded, rfl⟩ := hs.step_of_split hlog
  exact check_before_new_start hs₁ hstep hadded

/-- **Provider calls through an open circuit.** A provider call of a run is made while the
circuit is open and its recovery timeout running exactly if the breaker tripped after the
request's own check, less than a recovery timeout before the call. -/
theorem provider_start_blocked_iff (hs : Reachable svc s) {post pre : Log} {t : ℚ}
    {req : InferRequest} (hlog : s.log = post ++ ⟨pid, t, .providerStart req⟩ :: pre) :
    ∃ mid t₀ pre₀, pre = mid ++ ⟨pid, t₀, .isOpen false⟩ :: pre₀ ∧
      (Blocking svc.breaker t (breakerAt svc pre) ↔
        ∃ u ∈ tripsAfter svc.breaker (⟨.isOpen, t₀⟩ :: breakerCalls pre₀) (breakerCalls mid),
          t - u < svc.breaker.recoveryTimeout) := by
  obtain ⟨t₀, hcheck⟩ := hs.check_before_start hlog
  obtain ⟨mid, pre₀, rfl⟩ := List.append_of_mem hcheck
  have hinv := hs.logInv
  have hordered : NewestFirst Entry.time
      (⟨pid, t, .providerStart req⟩ :: (mid ++ ⟨pid, t₀, .isOpen false⟩ :: pre₀)) :=
    List.Pairwise.sublist (List.sublist_append_right _ _) (hlog ▸ hinv.newestFirst)
  have hcalls : breakerCalls (mid ++ ⟨pid, t₀, .isOpen false⟩ :: pre₀) =
      breakerCalls mid ++ ⟨.isOpen, t₀⟩ :: breakerCalls pre₀ := by
    rw [breakerCalls_append, breakerCalls_cons_of_some rfl]
  -- the log is read as the check and what is before it, below everything since
  have hfaithful : AnswersFaithful svc.breaker
      ((post ++ ⟨pid, t, .providerStart req⟩ :: mid) ++ ⟨pid, t₀, .isOpen false⟩ :: pre₀) := by
    rw [List.append_assoc, List.cons_append, ← hlog]
    exact hinv.faithful
  have hanswer := answer_of_split hfaithful rfl
  refine ⟨mid, t₀, pre₀, rfl, ?_⟩
  rw [breakerAt, hcalls]
  exact blocking_iff_trip_after_check (hcalls ▸ newestFirst_breakerCalls hordered.tail)
    (hcalls ▸ before_breakerCalls hordered.before_head) hanswer.symm

/-- A stream checks right before it calls. -/
theorem stream_start_not_blocked (hstep : step svc s a = some s') {req : InferRequest}
    (hstart : Did s s' pid (.providerStart req)) {call : StreamingService.StreamCall}
    (hp : s.procs pid = .stream call) : ¬ Blocking svc.breaker s'.now s'.cb := by
  cases deed_of_did hstep hstart with
  | redis hp' => cases hp.symm.trans hp'
  | input hp' => cases hp.symm.trans hp'
  | streamInput _ hb he => exact (streamRun_providerStart hb he).2

/-- A leader with a slow provider, a follower admitted before the circuit trips at 5 s,
and the follower's deadline at 15 s. -/
def lateFollower : List Action :=
  ([.infer 0 "a" sampleRequest, .redis 0 .ok, .input 0 .resume, .redis 0 .ok, .input 0 .resume,
    .infer 1 "b" sampleRequest, .redis 1 .ok, .input 1 .resume, .redis 1 .ok, .input 1 .resume,
    .redis 1 .ok, .input 1 .resume] : List Action)
  ++ ([2, 3, 4, 5, 6].flatMap fun pid =>
    [.stream pid sampleRequest, .streamInput pid .pull] : List Action)
  ++ (.tick 5 :: [2, 3, 4, 5, 6].map fun pid => .streamInput pid (.raise .timeoutError) :
    List Action)
  ++ ([.tick 10] : List Action)

/-- The state after the follower fell back to its own provider call. -/
def afterFallback : Gateway := after sample (lateFollower ++ [.input 1 .resume])

lemma step_fallback :
    step sample (after sample lateFollower) (.input 1 .resume) = some afterFallback :=
  step_after (by decide +kernel)

/-- The follower's provider call is the last thing that happened, at 15 s. -/
lemma afterFallback_log : ∃ req, afterFallback.log =
    ⟨1, 15, .providerStart req⟩ :: (after sample lateFollower).log := by
  -- what the turn added is one entry, and a provider call: that is enough to know it
  have hnow : (after sample lateFollower).now = 15 := by decide +kernel
  have hadded : (added (after sample lateFollower) afterFallback).length = 1 ∧
      1 ∈ providerStarts (added (after sample lateFollower) afterFallback) := by decide +kernel
  obtain ⟨t, req, hmem⟩ := mem_providerStarts.mp hadded.2
  obtain ⟨entry, hentry⟩ := List.length_eq_one_iff.mp hadded.1
  obtain ⟨rfl, hlog⟩ := log_of_mem_added step_fallback hmem
  rw [hnow, hentry] at hmem
  exact ⟨req, by rw [hlog, hentry, ← List.mem_singleton.mp hmem]; rfl⟩

/-- The follower calls the provider ten seconds after the circuit opened. -/
theorem provider_start_through_open_circuit :
    ¬ ∀ (svc : InferenceService) (s : Gateway) (post pre : Log) (pid : ℕ) (t : ℚ)
      (req : InferRequest), Reachable svc s →
      s.log = post ++ ⟨pid, t, .providerStart req⟩ :: pre →
        ¬ Blocking svc.breaker t (breakerAt svc pre) := by
  intro hall
  obtain ⟨req, hlog⟩ := afterFallback_log
  have hcb : (after sample lateFollower).cb = ⟨.opened, [5, 5, 5, 5, 5], some 5⟩ := by
    decide +kernel
  refine hall sample _ [] _ 1 15 req (reachable_after _ _) hlog ?_
  rw [(reachable_after sample lateFollower).breakerAt_eq, hcb]
  exact ⟨rfl, 5, rfl, by decide +kernel⟩

theorem provider_start_blocked_iff_lateFollower :
    ∃ mid t₀ pre₀, (after sample lateFollower).log = mid ++ ⟨1, t₀, .isOpen false⟩ :: pre₀ ∧
      (Blocking {} 15 (breakerAt sample (after sample lateFollower).log) ↔
        ∃ u ∈ tripsAfter {} (⟨.isOpen, t₀⟩ :: breakerCalls pre₀) (breakerCalls mid),
          15 - u < 60) := by
  obtain ⟨req, hlog⟩ := afterFallback_log
  exact @provider_start_blocked_iff sample _ 1 (reachable_after sample _) [] _ 15 req hlog

end Gateway
end InferenceApi
