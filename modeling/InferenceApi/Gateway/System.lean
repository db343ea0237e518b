import InferenceApi.Lib.Transition
import InferenceApi.Services.StreamingService
import InferenceApi.Services.Turns

/-!
# The gateway

Any number of `infer` and `stream` requests sharing one circuit breaker and one Redis,
under every interleaving: requests arrive, Redis executes a pending command, a request
runs until it suspends again, time passes. `Move` says once what a step can do;
`step_move` is the only place where `step` is taken apart.
-/

namespace InferenceApi

open Transition

/-- A request slot. -/
inductive Proc
  | idle
  | infer (call : InferCall)
  | stream (call : StreamingService.StreamCall)

/-- The state everything shares, the requests, and the log of events. -/
structure Gateway where
  redis : Redis
  cb : CircuitBreaker
  now : ℚ
  procs : ℕ → Proc
  log : Log

namespace Gateway

/-- An empty Redis, a closed breaker, no request. -/
def init : Gateway := ⟨fun _ => none, {}, 0, fun _ => .idle, []⟩

/-- What may happen next. -/
inductive Action
  /-- Time passes. -/
  | tick (d : ℚ)
  /-- `infer` is called. -/
  | infer (pid : ℕ) (requestId : String) (req : InferRequest)
  /-- `stream` is called. -/
  | stream (pid : ℕ) (req : InferRequest)
  /-- Redis deals with the command of an `infer` call. -/
  | redis (pid : ℕ) (fate : Fate)
  /-- An `infer` call is resumed. -/
  | input (pid : ℕ) (input : Input)
  /-- A stream is resumed. -/
  | streamInput (pid : ℕ) (input : StreamingService.Input)

/-- The state after request `pid` did something. -/
def act (s : Gateway) (pid : ℕ) (proc : Proc) (redis : Redis) (cb : CircuitBreaker)
    (events : List Event) : Gateway where
  redis := redis
  cb := cb
  now := s.now
  procs := Function.update s.procs pid proc
  log := stamp pid s.now events ++ s.log

/-- One step. -/
def step (svc : InferenceService) (s : Gateway) : Action → Option Gateway
  | .tick d => if 0 ≤ d then some { s with now := s.now + d } else none
  | .infer pid requestId req =>
    match s.procs pid with
    | .idle => some (s.act pid (.infer (.start s.now requestId req)) s.redis s.cb [])
    | _ => none
  | .stream pid req =>
    -- an async generator does nothing until it is first pulled
    match s.procs pid with
    | .idle => some (s.act pid (.stream ⟨req, .created⟩) s.redis s.cb [])
    | _ => none
  -- Redis has a turn of its own: the call learns the answer in a later one
  | .redis pid fate =>
    match s.procs pid with
    | .infer call =>
      match call.exec svc s.now pid fate s.redis with
      | some x => some (s.act pid (.infer (call.goto s.now x.status)) x.redis s.cb x.events)
      | none => none
    | _ => none
  | .input pid input =>
    match s.procs pid with
    | .infer call =>
      match call.run svc s.now s.cb input with
      | some b => some (s.act pid (.infer (call.goto s.now b.status)) s.redis b.cb b.events)
      | none => none
    | _ => none
  | .streamInput pid input =>
    match s.procs pid with
    | .stream call =>
      match call.run svc.breaker s.now s.cb input with
      | some b => some (s.act pid (.stream { call with status := b.status }) s.redis b.cb b.events)
      | none => none
    | _ => none

/-- The runs of the gateway, under every schedule. -/
abbrev Reachable (svc : InferenceService) (s : Gateway) : Prop :=
  Run (step svc) anyAction init s

/-! ## What a step does -/

/-- The steps, one by one. -/
inductive Move (svc : InferenceService) (s : Gateway) : Action → Gateway → Prop
  | tick {d : ℚ} : 0 ≤ d → Move svc s (.tick d) { s with now := s.now + d }
  | infer {pid : ℕ} {requestId : String} {req : InferRequest} : s.procs pid = .idle →
      Move svc s (.infer pid requestId req)
        (s.act pid (.infer (.start s.now requestId req)) s.redis s.cb [])
  | stream {pid : ℕ} {req : InferRequest} : s.procs pid = .idle →
      Move svc s (.stream pid req) (s.act pid (.stream ⟨req, .created⟩) s.redis s.cb [])
  | redis {pid : ℕ} {fate : Fate} {call : InferCall} {x : Executed} :
      s.procs pid = .infer call → call.exec svc s.now pid fate s.redis = some x →
      Move svc s (.redis pid fate)
        (s.act pid (.infer (call.goto s.now x.status)) x.redis s.cb x.events)
  | input {pid : ℕ} {input : Input} {call : InferCall} {b : Block Status} :
      s.procs pid = .infer call → call.run svc s.now s.cb input = some b →
      Move svc s (.input pid input)
        (s.act pid (.infer (call.goto s.now b.status)) s.redis b.cb b.events)
  | streamInput {pid : ℕ} {input : StreamingService.Input} {call : StreamingService.StreamCall}
      {b : Block StreamingService.Status} :
      s.procs pid = .stream call → call.run svc.breaker s.now s.cb input = some b →
      Move svc s (.streamInput pid input)
        (s.act pid (.stream { call with status := b.status }) s.redis b.cb b.events)

variable {svc : InferenceService} {s s' : Gateway} {a : Action}

/-- Every step is one of the moves. -/
theorem step_move (h : step svc s a = some s') : Move svc s a s' := by
  cases a with
  | tick d =>
    rw [step] at h
    split at h
    · next hd =>
      cases h
      exact .tick hd
    · cases h
  | infer pid requestId req =>
    rw [step] at h
    split at h
    · next hp =>
      cases h
      exact .infer hp
    · cases h
  | stream pid req =>
    rw [step] at h
    split at h
    · next hp =>
      cases h
      exact .stream hp
    · cases h
  | redis pid fate =>
    rw [step] at h
    split at h
    · next call hp =>
      split at h
      · next x hx =>
        cases h
        exact .redis hp hx
      · cases h
    · cases h
  | input pid input =>
    rw [step] at h
    split at h
    · next call hp =>
      split at h
      · next b hb =>
        cases h
        exact .input hp hb
      · cases h
    · cases h
  | streamInput pid input =>
    rw [step] at h
    split at h
    · next call hp =>
      split at h
      · next b hb =>
        cases h
        exact .streamInput hp hb
      · cases h
    · cases h

section Act

variable {pid pid' : ℕ} {proc : Proc} {redis : Redis} {cb : CircuitBreaker} {events : List Event}

@[simp] lemma act_log :
    (s.act pid proc redis cb events).log = stamp pid s.now events ++ s.log := rfl

@[simp] lemma act_procs_self : (s.act pid proc redis cb events).procs pid = proc :=
  Function.update_self ..

lemma act_procs_of_ne (h : pid' ≠ pid) :
    (s.act pid proc redis cb events).procs pid' = s.procs pid' :=
  Function.update_of_ne h ..

/-- A request is the one that acted, or as it was. -/
lemma act_procs_cases {q : Proc} (h : (s.act pid proc redis cb events).procs pid' = q) :
    pid' = pid ∧ proc = q ∨ pid' ≠ pid ∧ s.procs pid' = q := by
  by_cases hpid : pid' = pid
  · subst hpid
    exact Or.inl ⟨rfl, act_procs_self.symm.trans h⟩
  · exact Or.inr ⟨hpid, (act_procs_of_ne hpid).symm.trans h⟩

end Act

/-- Where a call of `infer` comes from that is there after a step. -/
inductive CallOrigin (svc : InferenceService) (s : Gateway) :
    Action → Gateway → ℕ → InferCall → Prop
  | kept {a : Action} {s' : Gateway} {pid : ℕ} {call : InferCall} : s.procs pid = .infer call →
      CallOrigin svc s a s' pid call
  | started {pid : ℕ} {requestId : String} {req : InferRequest} :
      CallOrigin svc s (.infer pid requestId req)
        (s.act pid (.infer (.start s.now requestId req)) s.redis s.cb []) pid
        (.start s.now requestId req)
  | executed {pid : ℕ} {fate : Fate} {call : InferCall} {x : Executed} :
      s.procs pid = .infer call → call.exec svc s.now pid fate s.redis = some x →
      CallOrigin svc s (.redis pid fate)
        (s.act pid (.infer (call.goto s.now x.status)) x.redis s.cb x.events) pid
        (call.goto s.now x.status)
  | resumed {pid : ℕ} {input : Input} {call : InferCall} {b : Block Status} :
      s.procs pid = .infer call → call.run svc s.now s.cb input = some b →
      CallOrigin svc s (.input pid input)
        (s.act pid (.infer (call.goto s.now b.status)) s.redis b.cb b.events) pid
        (call.goto s.now b.status)

/-- One of the requests acts; every other call is as it was. -/
theorem callOrigin_of_step (h : step svc s a = some s') {pid : ℕ} {call : InferCall}
    (hp : s'.procs pid = .infer call) : CallOrigin svc s a s' pid call := by
  cases step_move h with
  | tick => exact .kept hp
  | infer =>
    rcases act_procs_cases hp with ⟨rfl, hproc⟩ | ⟨-, hp⟩
    · cases hproc
      exact .started
    · exact .kept hp
  | stream =>
    rcases act_procs_cases hp with ⟨-, hproc⟩ | ⟨-, hp⟩
    · cases hproc
    · exact .kept hp
  | redis hp₀ hx =>
    rcases act_procs_cases hp with ⟨rfl, hproc⟩ | ⟨-, hp⟩
    · cases hproc
      exact .executed hp₀ hx
    · exact .kept hp
  | input hp₀ hb =>
    rcases act_procs_cases hp with ⟨rfl, hproc⟩ | ⟨-, hp⟩
    · cases hproc
      exact .resumed hp₀ hb
    · exact .kept hp
  | streamInput =>
    rcases act_procs_cases hp with ⟨-, hproc⟩ | ⟨-, hp⟩
    · cases hproc
    · exact .kept hp

/-- The clock does not go back. -/
lemma now_le_of_step (h : step svc s a = some s') : s.now ≤ s'.now := by
  cases step_move h with
  | tick hd => exact le_add_of_nonneg_right hd
  | _ => exact le_rfl

/-! ## What a step logs -/

section Log

variable {pid : ℕ} {e : Event}

/-- In the step from `s` to `s'` the request `pid` did `e`. -/
def Did (s s' : Gateway) (pid : ℕ) (e : Event) : Prop :=
  ∃ new : Log, s'.log = new ++ s.log ∧ ⟨pid, s.now, e⟩ ∈ new

lemma did_act {pid' : ℕ} {proc : Proc} {redis : Redis} {cb : CircuitBreaker} {es : List Event} :
    Did s (s.act pid proc redis cb es) pid' e ↔ pid' = pid ∧ e ∈ es := by
  constructor
  · rintro ⟨new, hlog, hmem⟩
    rw [← List.append_cancel_right hlog] at hmem
    obtain ⟨rfl, -, he⟩ := mem_stamp.mp hmem
    exact ⟨rfl, he⟩
  · rintro ⟨rfl, he⟩
    exact ⟨_, rfl, mem_stamp.mpr ⟨rfl, rfl, he⟩⟩

/-- A step adds what one request did, at the present time. -/
lemma log_of_step (h : step svc s a = some s') :
    ∃ pid es, s'.log = stamp pid s.now es ++ s.log := by
  cases step_move h with
  | tick => exact ⟨0, [], rfl⟩
  | infer => exact ⟨_, _, rfl⟩
  | stream => exact ⟨_, _, rfl⟩
  | redis => exact ⟨_, _, rfl⟩
  | input => exact ⟨_, _, rfl⟩
  | streamInput => exact ⟨_, _, rfl⟩

lemma not_did_of_log_eq (h : s'.log = s.log) : ¬ Did s s' pid e := by
  rintro ⟨new, hlog, hmem⟩
  rw [h] at hlog
  rw [List.self_eq_append_left.mp hlog] at hmem
  cases hmem

/-- Who does something in a step: the request whose command is executed, or whose turn it is. -/
inductive Deed (svc : InferenceService) (s : Gateway) (pid : ℕ) (e : Event) : Gateway → Prop
  | redis {fate : Fate} {call : InferCall} {x : Executed} : s.procs pid = .infer call →
      call.exec svc s.now pid fate s.redis = some x → e ∈ x.events →
      Deed svc s pid e (s.act pid (.infer (call.goto s.now x.status)) x.redis s.cb x.events)
  | input {input : Input} {call : InferCall} {b : Block Status} : s.procs pid = .infer call →
      call.run svc s.now s.cb input = some b → e ∈ b.events →
      Deed svc s pid e (s.act pid (.infer (call.goto s.now b.status)) s.redis b.cb b.events)
  | streamInput {input : StreamingService.Input} {call : StreamingService.StreamCall}
      {b : Block StreamingService.Status} : s.procs pid = .stream call →
      call.run svc.breaker s.now s.cb input = some b → e ∈ b.events →
      Deed svc s pid e
        (s.act pid (.stream { call with status := b.status }) s.redis b.cb b.events)

/-- Only these do anything. -/
theorem deed_of_did (h : step svc s a = some s') (hdid : Did s s' pid e) :
    Deed svc s pid e s' := by
  cases step_move h with
  | tick => exact absurd hdid (not_did_of_log_eq rfl)
  | infer => exact absurd hdid (not_did_of_log_eq rfl)
  | stream => exact absurd hdid (not_did_of_log_eq rfl)
  | redis hp hx =>
    obtain ⟨rfl, he⟩ := did_act.mp hdid
    exact .redis hp hx he
  | input hp hb =>
    obtain ⟨rfl, he⟩ := did_act.mp hdid
    exact .input hp hb he
  | streamInput hp hb =>
    obtain ⟨rfl, he⟩ := did_act.mp hdid
    exact .streamInput hp hb he

/-- A call ends in a turn of its own. -/
lemma turn_of_returned (h : step svc s a = some s') {out : Except Exn InferResponse}
    (hret : Did s s' pid (.returned out)) :
    ∃ call input b, s.procs pid = .infer call ∧ call.run svc s.now s.cb input = some b ∧
      b.status = .finished out ∧
      s' = s.act pid (.infer (call.goto s.now b.status)) s.redis b.cb b.events := by
  cases deed_of_did h hret with
  | redis _ hx he => cases exec_event hx he
  | input hp hb he =>
    cases run_event hb _ he with
    | returned hst => exact ⟨_, _, _, hp, hb, hst, rfl⟩
  | streamInput _ hb he => exact (StreamingService.ofStream_of_mem hb _ he).elim

/-- Every entry of the log was added by a step, on top of what is below it. -/
theorem Reachable.step_of_split (hs : Reachable svc s) {post pre : Log} {t : ℚ}
    (hlog : s.log = post ++ ⟨pid, t, e⟩ :: pre) :
    ∃ s₁ a s₂ new rest, Reachable svc s₁ ∧ step svc s₁ a = some s₂ ∧ t = s₁.now ∧
      s₂.log = (new ++ ⟨pid, t, e⟩ :: rest) ++ s₁.log ∧ pre = rest ++ s₁.log := by
  induction hs generalizing post with
  | refl => simp [init] at hlog
  | @tail s s' a hr _ hstep ih =>
    obtain ⟨pid', es, hadd⟩ := log_of_step hstep
    rw [hadd] at hlog
    rcases List.append_eq_append_iff.mp hlog with ⟨rest, -, hold⟩ | ⟨rest, hnew, hold⟩
    · exact ih hold
    · -- the entry is one of the new ones, or the first of the old ones
      cases rest with
      | nil => exact @ih [] hold.symm
      | cons entry rest =>
        obtain ⟨rfl, rfl⟩ := List.cons.inj hold
        have hmem := hnew ▸ List.mem_append_right post List.mem_cons_self
        exact ⟨s, a, s', post, rest, hr, hstep, (mem_stamp.mp hmem).2.1, hnew ▸ hadd, rfl⟩

/-- The requests that start a provider call in a log, newest first. -/
def providerStarts (log : Log) : List ℕ :=
  log.filterMap fun entry =>
    match entry.event with
    | .providerStart _ => some entry.pid
    | _ => none

lemma mem_providerStarts {log : Log} :
    pid ∈ providerStarts log ↔ ∃ t req, ⟨pid, t, .providerStart req⟩ ∈ log := by
  simp only [providerStarts, List.mem_filterMap]
  constructor
  · rintro ⟨⟨pid', t, event⟩, hmem, h⟩
    cases event <;> cases h
    exact ⟨t, _, hmem⟩
  · rintro ⟨t, req, hmem⟩
    exact ⟨_, hmem, rfl⟩

/-- Other events leave the list as it is. -/
lemma providerStarts_stamp {now : ℚ} {es : List Event} {log : Log}
    (h : ∀ req, .providerStart req ∉ es) :
    providerStarts (stamp pid now es ++ log) = providerStarts log := by
  have hnone : providerStarts (stamp pid now es) = [] := by
    refine List.filterMap_eq_nil_iff.mpr fun entry hentry => ?_
    obtain ⟨e, he, rfl⟩ := List.mem_map.mp hentry
    cases e with
    | providerStart req => exact absurd he (h req)
    | _ => rfl
  rw [providerStarts, List.filterMap_append]
  exact (congrArg (· ++ _) hnone).trans (List.nil_append _)

/-- The entries a step added. -/
def added (s s' : Gateway) : Log := s'.log.take (s'.log.length - s.log.length)

/-- A step's entries are in front of the others, and have its time. -/
lemma log_of_mem_added (h : step svc s a = some s') {t : ℚ} (hmem : ⟨pid, t, e⟩ ∈ added s s') :
    t = s.now ∧ s'.log = added s s' ++ s.log := by
  obtain ⟨pid', es, hlog⟩ := log_of_step h
  have hadded : added s s' = stamp pid' s.now es := by
    rw [added, hlog, List.length_append, Nat.add_sub_cancel, List.take_left]
  rw [hadded] at hmem ⊢
  obtain ⟨-, ht, -⟩ := mem_stamp.mp hmem
  exact ⟨ht, hlog⟩

/-- What a step added to the log, it did. -/
lemma did_of_mem_added (h : step svc s a = some s') {t : ℚ} (hmem : ⟨pid, t, e⟩ ∈ added s s') :
    Did s s' pid e := by
  obtain ⟨rfl, hlog⟩ := log_of_mem_added h hmem
  exact ⟨_, hlog, hmem⟩

end Log

/-! ## Concrete runs -/

/-- A deployment with the shipped parameters. The digest is that of `sampleRequest`, the
only request made of it. -/
def sample : InferenceService where
  sha256 _ := "bbf8dffaa16848b9768f7d4386ff8491d48f80fd5da629a159225339b397b613"
  floatRepr := .coded

/-- A request without a config. -/
def sampleRequest : InferRequest where
  model := "gpt-4o-mini"
  input := "same request"

/-- An answer of an adapter. -/
def sampleResult : Json :=
  .obj [("output", .str "[stub] same request"),
    ("usage", .obj [("prompt_tokens", .num (.int 2)), ("completion_tokens", .num (.int 10)),
      ("total_tokens", .num (.int 12))])]

/-- The state after a list of actions, or the initial one if some action is not enabled. -/
def after (svc : InferenceService) (as : List Action) : Gateway :=
  (execute (step svc) (fun _ _ => true) init as).getD init

/-- All actions of the list are enabled where they are taken. -/
def enabled (svc : InferenceService) (as : List Action) : Bool :=
  (execute (step svc) (fun _ _ => true) init as).isSome

lemma run_after (svc : InferenceService) {P : Action → Prop} {as : List Action}
    (has : ∀ a ∈ as, P a) : Run (step svc) (fun _ a => P a) init (after svc as) := by
  unfold after
  cases h : execute (step svc) (fun _ _ => true) init as with
  | none => exact .refl
  | some s => exact (run_of_execute .refl has h).mono fun _ _ hok => hok.2

lemma reachable_after (svc : InferenceService) (as : List Action) :
    Reachable svc (after svc as) := run_after svc fun _ _ => trivial

lemma step_after {svc : InferenceService} {as : List Action} {a : Action}
    (h : enabled svc (as ++ [a]) = true) :
    step svc (after svc as) a = some (after svc (as ++ [a])) := by
  unfold enabled at h
  unfold after
  rw [execute_concat] at h ⊢
  cases hs : execute (step svc) (fun _ _ => true) init as with
  | none => simp [hs] at h
  | some s =>
    rw [hs] at h
    simp only [Option.bind_some, if_true] at h ⊢
    obtain ⟨s', hs'⟩ := Option.isSome_iff_exists.mp h
    simp [hs']

/-- The call has returned or raised. -/
def isFinished : Proc → Bool
  | .infer ⟨_, _, _, .finished _, _⟩ => true
  | _ => false

lemma exists_of_isFinished {proc : Proc} (h : isFinished proc = true) :
    ∃ call out, proc = .infer call ∧ call.status = .finished out := by
  unfold isFinished at h
  split at h
  · exact ⟨_, _, rfl, rfl⟩
  · cases h

end Gateway
end InferenceApi
