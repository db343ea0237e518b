import InferenceApi.Api.Auth
import InferenceApi.Api.RetryAfter
import InferenceApi.Gateway.Accounting
import InferenceApi.RateLimiter.Quota
import InferenceApi.Services.Traces

/-!
# The application

The routes `infer` and `stream_infer` with their dependencies: a request shows an API key, the
rate limiter checks its client, and only then the route calls its service. The limiter and the
gateway run beside each other, with any number of requests at any point between the two.
-/

namespace InferenceApi

open Transition RateLimiter

/-! ## One provider call each -/

namespace Gateway

open StreamingService

lemma starts_append (es es' : List Event) :
    starts (es ++ es') = starts es + starts es' := List.countP_append

lemma starts_relayed (req : InferRequest) (tokens : List String) :
    starts (relayed req tokens) = 1 := by
  have hframes : starts ((tokenFrames tokens).map .yielded) = 0 := by
    refine List.countP_eq_zero.mpr fun e he => ?_
    obtain ⟨frame, -, rfl⟩ := List.mem_map.mp he
    exact Bool.false_ne_true
  rw [starts, relayed, List.countP_cons_of_neg (by simp), List.countP_cons_of_pos rfl]
  exact congrArg (· + 1) hframes

/-- A stream starts its provider once, if at all. -/
lemma starts_le_one_of_traced {req : InferRequest} {status : StreamingService.Status}
    {t : List Event}
    (h : Traced req status t) : starts t ≤ 1 := by
  cases h with
  | awaitChunk => rw [starts_relayed]
  | awaitPoll => rw [starts_relayed]
  | atToken => rw [starts_relayed]
  | atDone => rw [starts_append, starts_relayed]; rfl
  | atTimeout => rw [starts_append, starts_relayed]; rfl
  | atUpstreamError => rw [starts_append, starts_relayed]; rfl
  | concluded tokens hes =>
    rw [starts_append, starts_append, starts_relayed]
    cases hes <;> rfl
  | closed => rw [starts_append, starts_relayed]; rfl
  | _ => exact Nat.zero_le _

/-- No request, with or without a stream, calls its provider twice. -/
theorem providerStarts_nodup {svc : InferenceService} {g : Gateway} (hg : Reachable svc g) :
    (providerStarts g.log).Nodup := by
  refine List.nodup_iff_count_le_one.mpr fun pid => ?_
  rw [count_providerStarts]
  have hrun := hg.ownInv pid
  cases hp : g.procs pid with
  | idle =>
    rw [hp] at hrun
    have hnil : own pid g.log = [] := hrun
    rw [hnil]
    exact Nat.zero_le _
  | infer call =>
    rw [hp] at hrun
    exact InferRun.starts_le_one hrun
  | stream call =>
    rw [hp] at hrun
    have htraced := StreamRun.traced hrun
    have hstarts : starts (providerEvents (own pid g.log)) =
        starts (trace (own pid g.log)) := by
      refine (countP_providerPart (fun e he => ?_) _).trans (List.countP_reverse ..).symm
      -- a start belongs to the provider's part
      cases e <;> simp_all [Event.ofProvider]
    rw [hstarts]
    exact starts_le_one_of_traced htraced

end Gateway

/-! ## The system -/

/-- What the application is configured with. -/
structure Application where
  apiKeys : String
  limiter : SlidingWindowRateLimiter
  svc : InferenceService

/-- A request that its dependencies have let through. -/
structure Admission where
  pid : ℕ
  client : String
  member : Member
deriving DecidableEq

/-- What a route calls. -/
inductive Handler
  | infer (requestId : String) (req : InferRequest)
  | stream (req : InferRequest)

/-- The action with which a route starts its request. -/
def Handler.start (pid : ℕ) : Handler → Gateway.Action
  | .infer requestId req => .infer pid requestId req
  | .stream req => .stream pid req

/-- The action starts a request. -/
def Gateway.Action.starts : Gateway.Action → Bool
  | .infer _ _ _ => true
  | .stream _ _ => true
  | _ => false

/-- The limiter's keys are none of the cache or the locks, so that its part of Redis can be kept
apart from theirs. -/
theorem rlKey_ne (client : String) (svc : InferenceService) (req : InferRequest) :
    rlKey client ≠ svc.makeKey req ∧ rlKey client ≠ svc.lockKey req := by
  constructor
  · intro h
    have hlist := congrArg String.toList h
    simp [rlKey, InferenceService.makeKey, SemanticCache.makeKey] at hlist
  · intro h
    have hlist := congrArg String.toList h
    simp [rlKey, InferenceService.lockKey, RequestCollapser.lockKey] at hlist

/-- The limiter, the services, and the requests let through so far, newest first. -/
structure App where
  limiter : RateLimiter.System
  gateway : Gateway
  admissions : List Admission

namespace App

def init : App := ⟨.init, .init, []⟩

/-- What may happen next. -/
inductive Action
  /-- The dependencies of a request: its key, and the pipeline of its check. -/
  | request (pid : ℕ) (xApiKey : Option String) (member : Member)
  /-- The `ZREM` of a declined check. -/
  | zrem (client : String) (member : Member)
  /-- The route of a request runs. -/
  | enter (pid : ℕ) (handler : Handler)
  /-- A request that is being served goes on, or time passes for the services. -/
  | serve (a : Gateway.Action)

/-- One step. -/
def step (app : Application) (s : App) : Action → Option App
  | .request pid xApiKey member =>
    if s.admissions.any (·.pid = pid) then none
    else
      match requireApiKey app.apiKeys xApiKey with
      -- a 401: the rate limiter is not asked
      | .error _ => some s
      | .ok client =>
        match RateLimiter.step app.limiter s.limiter (.check client member) with
        | none => none
        | some limiter =>
          match checkRateLimit app.limiter
              (check app.limiter s.limiter.redis client member).1 with
          | .error _ => some { s with limiter }
          | .ok _ => some { s with limiter, admissions := ⟨pid, client, member⟩ :: s.admissions }
  | .zrem client member =>
    match RateLimiter.step app.limiter s.limiter (.zrem client member) with
    | none => none
    | some limiter => some { s with limiter }
  | .enter pid handler =>
    if s.admissions.any (·.pid = pid) then
      match Gateway.step app.svc s.gateway (handler.start pid) with
      | none => none
      | some gateway => some { s with gateway }
    else none
  | .serve a =>
    if a.starts then none
    else
      match Gateway.step app.svc s.gateway a with
      | none => none
      | some gateway => some { s with gateway }

/-- The runs of the application, under every schedule. -/
abbrev Reachable (app : Application) (s : App) : Prop := Run (step app) anyAction init s

/-! ## What a step does -/

/-- The steps, one by one. -/
inductive Move (app : Application) (s : App) : Action → App → Prop
  | unauthorized {pid : ℕ} {xApiKey : Option String} {member : Member} :
      Move app s (.request pid xApiKey member) s
  | declined {pid : ℕ} {client : String} {member : Member} {limiter : RateLimiter.System} :
      RateLimiter.step app.limiter s.limiter (.check client member) = some limiter →
      (check app.limiter s.limiter.redis client member).1.allowed = false →
      Move app s (.request pid (some client) member) { s with limiter }
  | admitted {pid : ℕ} {client : String} {member : Member} {limiter : RateLimiter.System} :
      (∀ a ∈ s.admissions, a.pid ≠ pid) → client ∈ apiKeysSet app.apiKeys →
      RateLimiter.step app.limiter s.limiter (.check client member) = some limiter →
      (check app.limiter s.limiter.redis client member).1.allowed = true →
      Move app s (.request pid (some client) member)
        { s with limiter, admissions := ⟨pid, client, member⟩ :: s.admissions }
  | zrem {client : String} {member : Member} {limiter : RateLimiter.System} :
      RateLimiter.step app.limiter s.limiter (.zrem client member) = some limiter →
      Move app s (.zrem client member) { s with limiter }
  | enter {pid : ℕ} {handler : Handler} {gateway : Gateway} :
      (∃ a ∈ s.admissions, a.pid = pid) →
      Gateway.step app.svc s.gateway (handler.start pid) = some gateway →
      Move app s (.enter pid handler) { s with gateway }
  | serve {a : Gateway.Action} {gateway : Gateway} : a.starts = false →
      Gateway.step app.svc s.gateway a = some gateway →
      Move app s (.serve a) { s with gateway }

variable {app : Application} {s s' : App} {a : Action}

lemma checkRateLimit_of_allowed {reply : Reply} (h : reply.allowed = true) :
    ∃ headers, checkRateLimit app.limiter reply = .ok headers := ⟨_, if_pos h⟩

lemma checkRateLimit_of_not_allowed {reply : Reply} (h : reply.allowed = false) :
    ∃ e, checkRateLimit app.limiter reply = .error e :=
  ⟨_, if_neg (by rw [h]; exact Bool.false_ne_true)⟩

/-- Every step is one of the moves. -/
theorem step_move (h : step app s a = some s') : Move app s a s' := by
  cases a with
  | request pid xApiKey member =>
    rw [step] at h
    split at h
    · cases h
    · next hnew =>
      split at h
      · cases h
        exact .unauthorized
      · next client hkey =>
        obtain ⟨rfl, hclient⟩ := requireApiKey_eq_ok.mp hkey
        split at h
        · cases h
        · next limiter hlimiter =>
          cases hallowed : (check app.limiter s.limiter.redis client member).1.allowed with
          | true =>
            obtain ⟨headers, hok⟩ := @checkRateLimit_of_allowed app _ hallowed
            rw [hok] at h
            cases h
            exact .admitted (by simpa using hnew) hclient hlimiter hallowed
          | false =>
            obtain ⟨e, herror⟩ := @checkRateLimit_of_not_allowed app _ hallowed
            rw [herror] at h
            cases h
            exact .declined hlimiter hallowed
  | zrem client member =>
    rw [step] at h
    split at h
    · cases h
    · next limiter hlimiter =>
      cases h
      exact .zrem hlimiter
  | enter pid handler =>
    rw [step] at h
    split at h
    · next hadmitted =>
      split at h
      · cases h
      · next gateway hgateway =>
        cases h
        exact .enter (by simpa using hadmitted) hgateway
    · cases h
  | serve a =>
    rw [step] at h
    split at h
    · cases h
    · next hstarts =>
      split at h
      · cases h
      · next gateway hgateway =>
        cases h
        exact .serve (by simpa using hstarts) hgateway

/-- The limiter runs as it would by itself. -/
theorem projects_limiter (app : Application) :
    Projects (step app) (RateLimiter.step app.limiter) App.limiter := by
  intro s a s' h
  cases step_move h with
  | unauthorized => exact Or.inl rfl
  | declined hlimiter => exact Or.inr ⟨_, hlimiter⟩
  | admitted _ _ hlimiter => exact Or.inr ⟨_, hlimiter⟩
  | zrem hlimiter => exact Or.inr ⟨_, hlimiter⟩
  | enter => exact Or.inl rfl
  | serve => exact Or.inl rfl

/-- So do the services. -/
theorem projects_gateway (app : Application) :
    Projects (step app) (Gateway.step app.svc) App.gateway := by
  intro s a s' h
  cases step_move h with
  | enter _ hgateway => exact Or.inr ⟨_, hgateway⟩
  | serve _ hgateway => exact Or.inr ⟨_, hgateway⟩
  | _ => exact Or.inl rfl

lemma Reachable.limiter (hs : Reachable app s) : RateLimiter.Reachable app.limiter s.limiter :=
  (projects_limiter app).run hs

lemma Reachable.gateway (hs : Reachable app s) : Gateway.Reachable app.svc s.gateway :=
  (projects_gateway app).run hs

/-! ## Who is served -/

/-- The requests of the services are those that were let through, each by a check of its own. -/
structure Inv (app : Application) (s : App) : Prop where
  checks : s.admissions.map (fun a => (⟨a.client, a.member, true⟩ : Check)) =
    s.limiter.log.filter Check.allowed
  pids : (s.admissions.map Admission.pid).Nodup
  keys : ∀ a ∈ s.admissions, a.client ∈ apiKeysSet app.apiKeys
  served : ∀ pid, s.gateway.procs pid ≠ .idle → ∃ a ∈ s.admissions, a.pid = pid

/-- Only a start brings a request to the services. -/
lemma not_idle_of_step {svc : InferenceService} {g g' : Gateway} {a : Gateway.Action} {pid : ℕ}
    (h : Gateway.step svc g a = some g') (hp : g'.procs pid ≠ .idle) :
    g.procs pid ≠ .idle ∨ ∃ handler : Handler, a = handler.start pid := by
  -- the request that acts is there already
  have hact : ∀ {pid' : ℕ} {proc proc' : Proc} {redis : Redis} {cb : CircuitBreaker}
      {es : List Event}, g.procs pid' = proc → proc ≠ .idle →
      (g.act pid' proc' redis cb es).procs pid ≠ .idle → g.procs pid ≠ .idle := by
    intro pid' proc proc' redis cb es hold hne hnew
    by_cases hpid : pid = pid'
    · subst hpid
      rw [hold]
      exact hne
    · rw [Gateway.act_procs_of_ne hpid] at hnew
      exact hnew
  cases Gateway.step_move h with
  | tick => exact Or.inl hp
  | @infer pid' requestId req =>
    by_cases hpid : pid = pid'
    · subst hpid
      exact Or.inr ⟨.infer requestId req, rfl⟩
    · rw [Gateway.act_procs_of_ne hpid] at hp
      exact Or.inl hp
  | @stream pid' req =>
    by_cases hpid : pid = pid'
    · subst hpid
      exact Or.inr ⟨.stream req, rfl⟩
    · rw [Gateway.act_procs_of_ne hpid] at hp
      exact Or.inl hp
  | redis hold => exact Or.inl (hact hold Proc.noConfusion hp)
  | input hold => exact Or.inl (hact hold Proc.noConfusion hp)
  | streamInput hold => exact Or.inl (hact hold Proc.noConfusion hp)

lemma Handler.start_pid {pid pid' : ℕ} {handler handler' : Handler}
    (h : handler.start pid = handler'.start pid') : pid = pid' := by
  cases handler <;> cases handler' <;> cases h <;> rfl

lemma Handler.starts_start {pid : ℕ} (handler : Handler) : (handler.start pid).starts = true := by
  cases handler <;> rfl

lemma inv_step (hinv : Inv app s) (h : step app s a = some s') : Inv app s' := by
  cases step_move h with
  | unauthorized => exact hinv
  | declined hlimiter hdeclined =>
    refine { hinv with checks := ?_ }
    rw [(of_step_check hlimiter).2.2.1, hdeclined, List.filter_cons_of_neg (by simp)]
    exact hinv.checks
  | admitted hnew hclient hlimiter hallowed =>
    refine ⟨?_, ?_, ?_, ?_⟩
    · rw [(of_step_check hlimiter).2.2.1, hallowed, List.filter_cons_of_pos rfl, List.map_cons,
        hinv.checks]
    · refine List.nodup_cons.mpr ⟨fun hmem => ?_, hinv.pids⟩
      obtain ⟨a, ha, hpid⟩ := List.mem_map.mp hmem
      exact hnew a ha hpid
    · exact List.forall_mem_cons.mpr ⟨hclient, hinv.keys⟩
    · intro pid' hpid'
      obtain ⟨a, ha, hpid⟩ := hinv.served pid' hpid'
      exact ⟨a, List.mem_cons_of_mem _ ha, hpid⟩
  | zrem hlimiter =>
    refine { hinv with checks := ?_ }
    rw [(of_step_zrem hlimiter).2.1]
    exact hinv.checks
  | enter hadmitted hgateway =>
    refine { hinv with served := fun pid' hpid' => ?_ }
    rcases not_idle_of_step hgateway hpid' with hold | ⟨handler', hstart⟩
    · exact hinv.served pid' hold
    · rw [← Handler.start_pid hstart]
      exact hadmitted
  | serve hstarts hgateway =>
    refine { hinv with served := fun pid' hpid' => ?_ }
    rcases not_idle_of_step hgateway hpid' with hold | ⟨handler', hstart⟩
    · exact hinv.served pid' hold
    · rw [hstart, Handler.starts_start] at hstarts
      cases hstarts

theorem Reachable.inv (hs : Reachable app s) : Inv app s := by
  refine hs.invariant ⟨rfl, List.nodup_nil, List.forall_mem_nil _, fun pid hp => ?_⟩
    fun _ _ _ hinv _ hstep => inv_step hinv hstep
  exact absurd rfl hp

/-! ## How much a client can make of the provider -/

/-- The requests of `client` let through by a check with a timestamp in `(t - 60, t]`. -/
def admittedIn (s : App) (client : String) (t : ℚ) : List Admission :=
  s.admissions.filter fun a => a.client = client ∧ t - windowS < a.member.now ∧ a.member.now ≤ t

/-- The provider calls started for them. -/
def startsIn (s : App) (client : String) (t : ℚ) : List ℕ :=
  (Gateway.providerStarts s.gateway.log).filter fun pid =>
    ∃ a ∈ admittedIn s client t, a.pid = pid

lemma Inv.admittedIn_length (hinv : Inv app s) (client : String) (t : ℚ) :
    (admittedIn s client t).length = (allowedIn s.limiter client t).length := by
  have hallowed : allowedIn s.limiter client t =
      (s.limiter.log.filter Check.allowed).filter fun c =>
        c.client = client ∧ t - windowS < c.member.now ∧ c.member.now ≤ t := by
    rw [List.filter_filter, allowedIn]
    refine List.filter_congr fun c _ => ?_
    rw [Bool.eq_iff_iff]
    simp only [decide_eq_true_eq, Bool.and_eq_true]
    tauto
  rw [hallowed, ← hinv.checks, List.filter_map, List.length_map, admittedIn]
  rfl

/-- **What a client can make of the provider.** In every run of the application, with any number
of requests at any point between the limiter and the services: whatever happens in the services
is done by a request that showed a configured key and whose own check was allowed; and the
provider calls of the requests of a client that were let through within a minute are no more than
its limit, whenever they are started and whether they are streams or not. The pipelines of the
checks run at the times they have read, and in the order of these: there is one clock. -/
theorem provider_load_bounded (app : Application) (s : App) (hs : Reachable app s) :
    (∀ entry ∈ s.gateway.log, ∃ a ∈ s.admissions, a.pid = entry.pid ∧
      a.client ∈ apiKeysSet app.apiKeys ∧ ⟨a.client, a.member, true⟩ ∈ s.limiter.log) ∧
    ∀ client t, (startsIn s client t).length ≤ app.limiter.limit := by
  have hinv := hs.inv
  constructor
  · intro entry hentry
    have hactive : s.gateway.procs entry.pid ≠ .idle := by
      intro hidle
      have hrun := hs.gateway.ownInv entry.pid
      rw [hidle] at hrun
      have hmem : entry ∈ Gateway.own entry.pid s.gateway.log := Gateway.mem_own.mpr ⟨hentry, rfl⟩
      rw [show Gateway.own entry.pid s.gateway.log = [] from hrun] at hmem
      cases hmem
    obtain ⟨a, ha, hpid⟩ := hinv.served entry.pid hactive
    refine ⟨a, ha, hpid, hinv.keys a ha, ?_⟩
    have hcheck : (⟨a.client, a.member, true⟩ : Check) ∈ s.limiter.log.filter Check.allowed := by
      rw [← hinv.checks]
      exact List.mem_map_of_mem ha
    exact (List.mem_filter.mp hcheck).1
  · intro client t
    have hnodup : (startsIn s client t).Nodup := (Gateway.providerStarts_nodup hs.gateway).filter _
    have hsubset : startsIn s client t ⊆ (admittedIn s client t).map Admission.pid := by
      intro pid hpid
      obtain ⟨a, ha, rfl⟩ := of_decide_eq_true (List.mem_filter.mp hpid).2
      exact List.mem_map_of_mem ha
    calc (startsIn s client t).length
        ≤ ((admittedIn s client t).map Admission.pid).length :=
          (List.subperm_of_subset hnodup hsubset).length_le
      _ = (allowedIn s.limiter client t).length := by
          rw [List.length_map, hinv.admittedIn_length]
      _ ≤ app.limiter.limit := by
          rw [allowedIn_length]
          exact SlidingWindow.window_length_le
            ((inv_of_reachable hs.limiter).bounded client) t

/-- A limit of one, and one key. -/
def oneAMinute : Application where
  apiKeys := "k"
  limiter := { limit := 1 }
  svc := Gateway.sample

/-- A request gets to its provider, and a second one half a minute later does not get in. -/
def secondDeclined : List Action :=
  [.request 0 (some "k") ⟨0, 0⟩, .enter 0 (.infer "r" Gateway.sampleRequest),
    .serve (.redis 0 .ok), .serve (.input 0 .resume), .serve (.redis 0 .ok),
    .serve (.input 0 .resume), .request 1 (some "k") ⟨30, 1⟩]

theorem provider_load_bounded_secondDeclined : ∃ s, Reachable oneAMinute s ∧
    (startsIn s "k" 30).length = 1 ∧ (startsIn s "k" 30).length ≤ 1 := by
  have hexec : (execute (step oneAMinute) (fun _ _ => true) init secondDeclined).any
      (fun s => (startsIn s "k" 30).length = 1) = true := by decide +kernel
  obtain ⟨s, hrun, hstarts⟩ := exists_run_of_execute (P := fun _ => True) (fun _ _ => trivial) hexec
  have hs : Reachable oneAMinute s := hrun.any
  exact ⟨s, hs, of_decide_eq_true hstarts, (provider_load_bounded oneAMinute s hs).2 "k" 30⟩

end App
end InferenceApi
