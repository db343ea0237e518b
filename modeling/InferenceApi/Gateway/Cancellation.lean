import InferenceApi.Gateway.CacheSoundness
import InferenceApi.Lib.Simulation

/-!
# Requests that are cancelled

A task can be cancelled wherever it is suspended, not only while it waits for its provider. The
`CancelledError` is raised at the await: no `except` clause of `infer` holds it up, but the
`finally` around the cache write does, and releases the lock first. A command that was under way
may or may not have been executed. For everybody else this is as if the request had got stuck.
-/

namespace InferenceApi

open Transition

/-! ## A cancelled call -/

/-- What is left of the command that is under way, if there is one. -/
def InferCall.inFlight (svc : InferenceService) (now : ℚ) (pid : ℕ) (executed : Bool)
    (redis : Redis) (call : InferCall) : Redis × List Event :=
  match executed, call.exec svc now pid .ok redis with
  | true, some x => (x.redis, x.events)
  | _, _ => (redis, [])

/-- `CancelledError` is raised where the call is suspended. At its provider that is an answer of
the adapter. -/
def InferCall.cancel (svc : InferenceService) (now : ℚ) (pid : ℕ) (executed : Bool)
    (redis : Redis) (call : InferCall) : Option Executed :=
  let (redis, events) := call.inFlight svc now pid executed redis
  match call.status with
  | .provider _ => none
  | .finished _ => none
  | .cacheSet hasLock _ _ =>
    -- the `finally` runs, and with it another command
    if hasLock && svc.collapser.isSome then
      some ⟨redis, .lockDel (.error .cancelledError) none, events⟩
    else
      some ⟨redis, .finished (.error .cancelledError), .returned (.error .cancelledError) :: events⟩
  | _ =>
    some ⟨redis, .finished (.error .cancelledError), .returned (.error .cancelledError) :: events⟩

/-! ## The gateway with cancellations -/

/-- The gateway, and the requests that were cancelled. -/
structure Cancelling where
  gateway : Gateway
  cancelled : List ℕ

namespace Cancelling

def init : Cancelling := ⟨.init, []⟩

/-- What may happen next. -/
inductive Action
  | step (a : Gateway.Action)
  | cancel (pid : ℕ) (executed : Bool)

/-- One step. -/
def step (svc : InferenceService) (c : Cancelling) : Action → Option Cancelling
  | .step a =>
    match Gateway.step svc c.gateway a with
    | some gateway => some { c with gateway }
    | none => none
  | .cancel pid executed =>
    match c.gateway.procs pid with
    | .infer call =>
      match call.cancel svc c.gateway.now pid executed c.gateway.redis with
      | some x =>
        some ⟨c.gateway.act pid (.infer (call.goto c.gateway.now x.status)) x.redis c.gateway.cb
          x.events, pid :: c.cancelled⟩
      | none => none
    | _ => none

/-- The runs, under every schedule. -/
abbrev Reachable (svc : InferenceService) (c : Cancelling) : Prop :=
  Run (step svc) anyAction init c

end Cancelling

/-- Nobody but the caller and the logs learn of it. -/
def Event.internal : Event → Bool
  | .redisError _ _ => true
  | .returned _ => true
  | _ => false

/-- The log without what only the callers of these requests learn. -/
def sharedLog (cancelled : List ℕ) (log : Log) : Log :=
  log.filter fun entry => !(entry.event.internal && cancelled.any (· = entry.pid))

/-- Where a cancelled call is, and where it is stuck instead. -/
inductive Abandoned : Status → Status → Prop
  | ended {e : Exn} {status : Status} : Abandoned (.finished (.error e)) status
  | releasing {e : Exn} {pending : Except Exn Completion}
      {reply : Option (Except RedisError Unit)} :
      Abandoned (.lockDel (.error e) reply) (.lockDel pending reply)

namespace Cancelling

open Gateway

/-- The gateway `g` does the same for all but the requests that were cancelled. -/
structure Follows (c : Cancelling) (g : Gateway) : Prop where
  redis : g.redis = c.gateway.redis
  cb : g.cb = c.gateway.cb
  now : g.now = c.gateway.now
  others : ∀ pid ∉ c.cancelled, g.procs pid = c.gateway.procs pid
  abandoned : ∀ pid ∈ c.cancelled, ∃ call call', c.gateway.procs pid = .infer call ∧
    g.procs pid = .infer call' ∧ call'.req = call.req ∧ Abandoned call.status call'.status
  log : sharedLog c.cancelled g.log = sharedLog c.cancelled c.gateway.log

variable {svc : InferenceService} {c c' : Cancelling} {g g' : Gateway} {pid : ℕ} {call : InferCall}
  {cancelled : List ℕ} {log log' : Log} {events events' : List Event}

lemma follows_init : Follows init .init where
  redis := rfl
  cb := rfl
  now := rfl
  others _ _ := rfl
  abandoned _ h := nomatch h
  log := rfl

/-! ## Logs -/

lemma sharedLog_append : sharedLog cancelled (log ++ log') =
    sharedLog cancelled log ++ sharedLog cancelled log' := List.filter_append ..

/-- The more requests are cancelled, the less is looked at. -/
lemma sharedLog_cons (pid : ℕ) (h : sharedLog cancelled log = sharedLog cancelled log') :
    sharedLog (pid :: cancelled) log = sharedLog (pid :: cancelled) log' := by
  have hagain : ∀ log, sharedLog (pid :: cancelled) log =
      sharedLog (pid :: cancelled) (sharedLog cancelled log) := by
    intro log
    rw [sharedLog, sharedLog, sharedLog, List.filter_filter]
    refine List.filter_congr fun entry _ => ?_
    rw [List.any_cons]
    cases entry.event.internal <;> cases (cancelled.any (· = entry.pid)) <;>
      cases decide (pid = entry.pid) <;> rfl
  rw [hagain log, hagain log', h]

/-- Of a cancelled request only what others can see is looked at. -/
lemma sharedLog_stamp {now : ℚ} (hpid : pid ∈ cancelled)
    (h : events.filter (! ·.internal) = events'.filter (! ·.internal)) :
    sharedLog cancelled (stamp pid now events) = sharedLog cancelled (stamp pid now events') := by
  have hvisible : ∀ es, sharedLog cancelled (stamp pid now es) =
      stamp pid now (es.filter (! ·.internal)) := by
    intro es
    rw [sharedLog, stamp, List.filter_map, stamp]
    congr 1
    refine List.filter_congr fun e _ => ?_
    have hany : (cancelled.any (· = pid)) = true := List.any_eq_true.mpr ⟨pid, hpid, by simp⟩
    show (!(e.internal && cancelled.any (· = pid))) = !e.internal
    rw [hany, Bool.and_true]
  rw [hvisible, hvisible, h]

/-! ## One step -/

section Steps

variable {proc : Proc} {redis : Redis} {cb : CircuitBreaker} {fate : Fate} {x : Executed}
  {input : Input} {b : Block Status} {a : Gateway.Action} {s' : Gateway}

lemma step_redis (hp : g.procs pid = .infer call)
    (hx : call.exec svc g.now pid fate g.redis = some x) :
    Gateway.step svc g (.redis pid fate) =
      some (g.act pid (.infer (call.goto g.now x.status)) x.redis g.cb x.events) := by
  rw [Gateway.step, hp]
  dsimp only
  rw [hx]

lemma step_input (hp : g.procs pid = .infer call) (hb : call.run svc g.now g.cb input = some b) :
    Gateway.step svc g (.input pid input) =
      some (g.act pid (.infer (call.goto g.now b.status)) g.redis b.cb b.events) := by
  rw [Gateway.step, hp]
  dsimp only
  rw [hb]

/-- A request that was not cancelled does the same in both. -/
lemma Follows.act (h : Follows c g) (hpid : pid ∉ c.cancelled) :
    Follows ⟨c.gateway.act pid proc redis cb events, c.cancelled⟩
      (g.act pid proc redis cb events) where
  redis := rfl
  cb := rfl
  now := h.now
  others := by
    intro pid' hpid'
    by_cases heq : pid' = pid
    · subst heq
      rw [act_procs_self, act_procs_self]
    · rw [act_procs_of_ne heq, act_procs_of_ne heq]
      exact h.others pid' hpid'
  abandoned := by
    intro pid' hpid'
    have hne : pid' ≠ pid := fun heq => hpid (heq ▸ hpid')
    rw [act_procs_of_ne hne, act_procs_of_ne hne]
    exact h.abandoned pid' hpid'
  log := by
    show sharedLog c.cancelled (stamp pid g.now events ++ g.log) =
      sharedLog c.cancelled (stamp pid c.gateway.now events ++ c.gateway.log)
    rw [sharedLog_append, sharedLog_append, h.log, h.now]

/-- A request that is cancelled, or was, does what others see in both. -/
lemma Follows.act_cancelled (h : Follows c g) (call' : InferCall) (events' : List Event)
    (hmem : ∀ p, p ∈ cancelled ↔ p = pid ∨ p ∈ c.cancelled)
    (hlog : sharedLog cancelled g.log = sharedLog cancelled c.gateway.log)
    (hreq : call'.req = call.req) (habandoned : Abandoned call.status call'.status)
    (hredis : g'.redis = redis) (hcb : g'.cb = cb) (hnow : g'.now = g.now)
    (hprocs : g'.procs = Function.update g.procs pid (.infer call'))
    (hlog' : g'.log = stamp pid g.now events' ++ g.log)
    (hevents : events'.filter (! ·.internal) = events.filter (! ·.internal)) :
    Follows ⟨c.gateway.act pid (.infer call) redis cb events, cancelled⟩ g' where
  redis := hredis
  cb := hcb
  now := hnow.trans h.now
  others := by
    intro pid' hpid'
    have hnot := mt (hmem pid').mpr hpid'
    rw [not_or] at hnot
    rw [act_procs_of_ne hnot.1, hprocs, Function.update_of_ne hnot.1]
    exact h.others pid' hnot.2
  abandoned := by
    intro pid' hpid'
    by_cases heq : pid' = pid
    · subst heq
      refine ⟨call, call', act_procs_self, ?_, hreq, habandoned⟩
      rw [hprocs, Function.update_self]
    · rw [act_procs_of_ne heq, hprocs, Function.update_of_ne heq]
      exact h.abandoned pid' (((hmem pid').mp hpid').resolve_left heq)
  log := by
    have hpid : pid ∈ cancelled := (hmem pid).mpr (Or.inl rfl)
    show sharedLog cancelled g'.log =
      sharedLog cancelled (stamp pid c.gateway.now events ++ c.gateway.log)
    rw [hlog', sharedLog_append, sharedLog_append, hlog, h.now, sharedLog_stamp hpid hevents]

lemma exec_lockDel {now : ℚ} {pending : Except Exn Completion}
    (hst : call.status = .lockDel pending none) : call.exec svc now pid fate redis = some
      { redis := fate.effect redis (RequestCollapser.release redis (svc.lockKey call.req))
        status := .lockDel pending (some (fate.reply ()))
        events := fate.effect []
            [.released (svc.lockKey call.req)
              ((TtlStore.get redis now (svc.lockKey call.req)).map Stored.writer)]
          ++ fate.events .lockDel } := by
  unfold InferCall.exec
  rw [hst]

lemma afterLockDel_error {now : ℚ} {e : Exn} (reply : Except RedisError Unit) :
    ∃ e', afterLockDel svc now call cb (.error e) reply = finish cb [] (.error e') := by
  unfold afterLockDel
  split
  · exact ⟨e, rfl⟩
  · exact ⟨e, rfl⟩
  · exact ⟨_, rfl⟩

/-- The release of a cancelled request is a release where it is stuck. -/
lemma exec_of_abandoned {call' : InferCall} {now : ℚ} (hreq : call'.req = call.req)
    (habandoned : Abandoned call.status call'.status)
    (hx : call.exec svc now pid fate redis = some x) :
    ∃ x', call'.exec svc now pid fate redis = some x' ∧ x'.redis = x.redis ∧
      x'.events = x.events ∧ Abandoned x.status x'.status := by
  generalize hst : call.status = status at habandoned
  generalize hst' : call'.status = status' at habandoned
  cases habandoned with
  | ended => cases exec_case hx with | _ hst₀ => cases hst.symm.trans hst₀
  | releasing =>
    cases exec_case hx with
    | lockDel hst₀ =>
      cases hst.symm.trans hst₀
      refine ⟨_, exec_lockDel hst', ?_, ?_, .releasing⟩
      · rw [hreq]
      · rw [hreq]
    | _ hst₀ => cases hst.symm.trans hst₀

lemma follow_redis (h : Follows c g) (hpid : pid ∈ c.cancelled)
    (hp : c.gateway.procs pid = .infer call)
    (hx : call.exec svc c.gateway.now pid fate c.gateway.redis = some x) :
    ∃ g', Run (Gateway.step svc) anyAction g g' ∧
      Follows ⟨c.gateway.act pid (.infer (call.goto c.gateway.now x.status)) x.redis c.gateway.cb
        x.events, c.cancelled⟩ g' := by
  obtain ⟨call₀, call', hp₀, hp', hreq, habandoned⟩ := h.abandoned pid hpid
  cases hp.symm.trans hp₀
  have hmem : ∀ p, p ∈ c.cancelled ↔ p = pid ∨ p ∈ c.cancelled := fun p =>
    ⟨Or.inr, fun hp => hp.elim (fun heq => heq ▸ hpid) id⟩
  rw [← h.now, ← h.redis] at hx
  obtain ⟨x', hx', hredis, hevents, hstatus⟩ := exec_of_abandoned hreq habandoned hx
  refine ⟨_, Run.refl.tail trivial (step_redis hp' hx'), ?_⟩
  exact h.act_cancelled (call'.goto g.now x'.status) x'.events hmem h.log hreq hstatus hredis h.cb
    rfl rfl rfl (by rw [hevents])

/-- A cancelled request that ends is left where it is stuck. -/
lemma follow_input (h : Follows c g) (hpid : pid ∈ c.cancelled)
    (hp : c.gateway.procs pid = .infer call)
    (hb : call.run svc c.gateway.now c.gateway.cb input = some b) :
    Follows ⟨c.gateway.act pid (.infer (call.goto c.gateway.now b.status)) c.gateway.redis b.cb
      b.events, c.cancelled⟩ g := by
  obtain ⟨call₀, call', hp₀, hp', hreq, habandoned⟩ := h.abandoned pid hpid
  cases hp.symm.trans hp₀
  have hmem : ∀ p, p ∈ c.cancelled ↔ p = pid ∨ p ∈ c.cancelled := fun p =>
    ⟨Or.inr, fun hp => hp.elim (fun heq => heq ▸ hpid) id⟩
  generalize hst : call.status = status at habandoned
  generalize hst' : call'.status = status' at habandoned
  cases habandoned with
  | ended => cases run_case hb with | _ hst₀ => cases hst.symm.trans hst₀
  | @releasing e pending reply =>
    cases run_case hb with
    | @lockDel _ reply₀ hst₀ =>
      cases hst.symm.trans hst₀
      obtain ⟨e', hend⟩ := @afterLockDel_error svc call c.gateway.cb c.gateway.now e reply₀
      rw [hend]
      refine h.act_cancelled call' [] hmem h.log hreq .ended h.redis h.cb rfl ?_ rfl rfl
      rw [← hp', Function.update_eq_self]
    | _ hst₀ => cases hst.symm.trans hst₀

/-- Where a call is in the gateway that follows. -/
lemma Follows.stuck (h : Follows c g) (hp : c.gateway.procs pid = .infer call) :
    ∃ call', g.procs pid = .infer call' ∧ call'.req = call.req ∧
      (call' = call ∨ Abandoned call.status call'.status) := by
  by_cases hpid : pid ∈ c.cancelled
  · obtain ⟨call₀, call', hp₀, hp', hreq, habandoned⟩ := h.abandoned pid hpid
    cases hp.symm.trans hp₀
    exact ⟨call', hp', hreq, Or.inr habandoned⟩
  · exact ⟨call, (h.others pid hpid).trans hp, rfl, Or.inl rfl⟩

/-- The command that is under way is executed, or not. -/
lemma follow_inFlight (svc : InferenceService) (h : Follows c g)
    (hp : c.gateway.procs pid = .infer call) (executed : Bool) :
    ∃ g' call', Run (Gateway.step svc) anyAction g g' ∧ call'.req = call.req ∧
      g'.redis = (call.inFlight svc c.gateway.now pid executed c.gateway.redis).1 ∧
      g'.cb = g.cb ∧ g'.now = g.now ∧ g'.procs = Function.update g.procs pid (.infer call') ∧
      g'.log = stamp pid g.now (call.inFlight svc c.gateway.now pid executed c.gateway.redis).2 ++
        g.log := by
  obtain ⟨call', hp', hreq, hstuck⟩ := h.stuck hp
  have hidle : g.procs = Function.update g.procs pid (.infer call') := by
    rw [← hp', Function.update_eq_self]
  cases executed with
  | false => exact ⟨g, call', .refl, hreq, h.redis, rfl, rfl, hidle, rfl⟩
  | true =>
    cases hx : call.exec svc c.gateway.now pid .ok c.gateway.redis with
    | none =>
      have hnothing : call.inFlight svc c.gateway.now pid true c.gateway.redis =
          (c.gateway.redis, []) := by simp only [InferCall.inFlight, hx]
      rw [hnothing]
      exact ⟨g, call', .refl, hreq, h.redis, rfl, rfl, hidle, rfl⟩
    | some x =>
      have hexecuted : call.inFlight svc c.gateway.now pid true c.gateway.redis =
          (x.redis, x.events) := by simp only [InferCall.inFlight, hx]
      rw [hexecuted]
      rw [← h.now, ← h.redis] at hx
      have hx' : ∃ x', call'.exec svc g.now pid .ok g.redis = some x' ∧ x'.redis = x.redis ∧
          x'.events = x.events := by
        rcases hstuck with rfl | habandoned
        · exact ⟨x, hx, rfl, rfl⟩
        · obtain ⟨x', hx', hredis, hevents, -⟩ := exec_of_abandoned hreq habandoned hx
          exact ⟨x', hx', hredis, hevents⟩
      obtain ⟨x', hx', hredis, hevents⟩ := hx'
      refine ⟨_, call'.goto g.now x'.status, Run.refl.tail trivial (step_redis hp' hx'), hreq,
        hredis, rfl, rfl, rfl, ?_⟩
      rw [← hevents]
      rfl

/-- After the cache write the call with the lock goes on to release it. -/
lemma run_cacheSet (now : ℚ) (cb : CircuitBreaker) {done : Completion}
    {reply : Except RedisError Unit} (hst : call.status = .cacheSet true done (some reply))
    (hsome : svc.collapser.isSome = true) :
    ∃ pending, call.run svc now cb .resume = some ⟨cb, .lockDel pending none, []⟩ := by
  have hrun : call.run svc now cb .resume =
      some (afterCacheSet svc now call cb true done reply) := by
    unfold InferCall.run
    rw [hst]
  have hafter : ∃ pending, afterCacheSet svc now call cb true done reply =
      ⟨cb, .lockDel pending none, []⟩ := by
    unfold afterCacheSet
    dsimp only
    rw [if_pos (by rw [hsome]; rfl)]
    exact ⟨_, rfl⟩
  obtain ⟨pending, hafter⟩ := hafter
  exact ⟨pending, hrun.trans (congrArg some hafter)⟩

/-- A step of the gateway is followed. -/
lemma follow_step (h : Follows c g) (hs : Gateway.step svc c.gateway a = some s') :
    ∃ g', Run (Gateway.step svc) anyAction g g' ∧ Follows ⟨s', c.cancelled⟩ g' := by
  -- who has not called `infer` was not cancelled
  have hlive : ∀ {pid}, (∀ call, c.gateway.procs pid ≠ .infer call) → pid ∉ c.cancelled := by
    intro pid hne hpid
    obtain ⟨call, -, hp, -⟩ := h.abandoned pid hpid
    exact hne call hp
  cases step_move hs with
  | @tick d hd =>
    have htick : Gateway.step svc g (.tick d) = some { g with now := g.now + d } := if_pos hd
    refine ⟨_, Run.refl.tail trivial htick, h.redis, h.cb, ?_, h.others, h.abandoned, h.log⟩
    rw [h.now]
  | @infer pid requestId req hp =>
    have hpid := hlive fun call hcall => by cases hp.symm.trans hcall
    have hstep : Gateway.step svc g (.infer pid requestId req) =
        some (g.act pid (.infer (.start g.now requestId req)) g.redis g.cb []) := by
      rw [Gateway.step, h.others pid hpid, hp]
    refine ⟨_, Run.refl.tail trivial hstep, ?_⟩
    rw [h.redis, h.cb, h.now]
    exact h.act hpid
  | @stream pid req hp =>
    have hpid := hlive fun call hcall => by cases hp.symm.trans hcall
    have hstep : Gateway.step svc g (.stream pid req) =
        some (g.act pid (.stream ⟨req, .created⟩) g.redis g.cb []) := by
      rw [Gateway.step, h.others pid hpid, hp]
    refine ⟨_, Run.refl.tail trivial hstep, ?_⟩
    rw [h.redis, h.cb]
    exact h.act hpid
  | @redis pid fate call x hp hx =>
    by_cases hpid : pid ∈ c.cancelled
    · exact follow_redis h hpid hp hx
    · rw [← h.now, ← h.redis] at hx
      refine ⟨_, Run.refl.tail trivial (step_redis ((h.others pid hpid).trans hp) hx), ?_⟩
      rw [h.cb, h.now]
      exact h.act hpid
  | @input pid input call b hp hb =>
    by_cases hpid : pid ∈ c.cancelled
    · exact ⟨g, .refl, follow_input h hpid hp hb⟩
    · rw [← h.now, ← h.cb] at hb
      refine ⟨_, Run.refl.tail trivial (step_input ((h.others pid hpid).trans hp) hb), ?_⟩
      rw [h.redis, h.now]
      exact h.act hpid
  | @streamInput pid input call b hp hb =>
    have hpid := hlive fun call hcall => by cases hp.symm.trans hcall
    rw [← h.now, ← h.cb] at hb
    have hstep : Gateway.step svc g (.streamInput pid input) =
        some (g.act pid (.stream { call with status := b.status }) g.redis b.cb b.events) := by
      rw [Gateway.step, h.others pid hpid, hp]
      dsimp only
      rw [hb]
    refine ⟨_, Run.refl.tail trivial hstep, ?_⟩
    rw [h.redis]
    exact h.act hpid

/-- What a cancellation does. -/
inductive CancelCase (svc : InferenceService) (call : InferCall) (left : Redis × List Event) :
    Executed → Prop
  | ended : CancelCase svc call left ⟨left.1, .finished (.error .cancelledError),
      .returned (.error .cancelledError) :: left.2⟩
  | releasing {done : Completion} {reply : Option (Except RedisError Unit)} :
      call.status = .cacheSet true done reply → svc.collapser.isSome = true →
      CancelCase svc call left ⟨left.1, .lockDel (.error .cancelledError) none, left.2⟩

lemma cancel_case {now : ℚ} {executed : Bool}
    (hx : call.cancel svc now pid executed redis = some x) :
    CancelCase svc call (call.inFlight svc now pid executed redis) x := by
  unfold InferCall.cancel at hx
  dsimp only at hx
  split at hx
  · cases hx
  · cases hx
  · next hasLock done reply hst =>
    split at hx
    · next hlock =>
      cases hx
      obtain ⟨rfl, hsome⟩ := Bool.and_eq_true_iff.mp hlock
      exact .releasing hst hsome
    · cases hx
      exact .ended
  · cases hx
    exact .ended

lemma exec_cacheSet {now : ℚ} {hasLock : Bool} {done : Completion}
    (hst : call.status = .cacheSet hasLock done none) : call.exec svc now pid fate redis = some
      { redis := fate.effect redis
          (SemanticCache.set svc now pid redis call.req (done.payload call.req))
        status := .cacheSet hasLock done (some (fate.reply ()))
        events :=
          fate.effect [] [.cacheStored (svc.makeKey call.req)] ++ fate.events .cacheSet } := by
  unfold InferCall.exec
  rw [hst]

/-- After the cache write the call is at the release. -/
lemma follow_written (hp : g.procs pid = .infer call)
    (hx : call.exec svc g.now pid fate g.redis = some x) {done : Completion}
    {reply : Except RedisError Unit} (hst : x.status = .cacheSet true done (some reply))
    (hsome : svc.collapser.isSome = true) :
    ∃ g' call' pending, Run (Gateway.step svc) anyAction g g' ∧ call'.req = call.req ∧
      call'.status = .lockDel pending none ∧ g'.redis = x.redis ∧ g'.cb = g.cb ∧
      g'.now = g.now ∧ g'.procs = Function.update g.procs pid (.infer call') ∧
      g'.log = stamp pid g.now x.events ++ g.log := by
  have hst' : (call.goto g.now x.status).status = .cacheSet true done (some reply) := hst
  obtain ⟨pending, hb⟩ := run_cacheSet g.now g.cb hst' hsome
  have hstep := step_input (g := g.act pid (.infer (call.goto g.now x.status)) x.redis g.cb
    x.events) act_procs_self hb
  refine ⟨_, (call.goto g.now x.status).goto g.now (.lockDel pending none), pending,
    (Run.refl.tail trivial (step_redis hp hx)).tail trivial hstep, rfl, rfl, rfl, rfl, rfl, ?_, rfl⟩
  exact Function.update_idem ..

/-- The cache write that is under way is executed or fails, and the call goes on to the release. -/
lemma follow_write (hp : g.procs pid = .infer call) {done : Completion}
    {reply : Option (Except RedisError Unit)} (hst : call.status = .cacheSet true done reply)
    (hsome : svc.collapser.isSome = true) (executed : Bool) :
    ∃ g' call' pending events', Run (Gateway.step svc) anyAction g g' ∧ call'.req = call.req ∧
      call'.status = .lockDel pending none ∧
      g'.redis = (call.inFlight svc g.now pid executed g.redis).1 ∧ g'.cb = g.cb ∧
      g'.now = g.now ∧ g'.procs = Function.update g.procs pid (.infer call') ∧
      g'.log = stamp pid g.now events' ++ g.log ∧
      events'.filter (! ·.internal) =
        (call.inFlight svc g.now pid executed g.redis).2.filter (! ·.internal) := by
  cases reply with
  | some reply =>
    -- the write has been answered already
    obtain ⟨pending, hb⟩ := run_cacheSet g.now g.cb hst hsome
    have hnothing : call.inFlight svc g.now pid executed g.redis = (g.redis, []) := by
      simp only [InferCall.inFlight, InferCall.exec, hst]
    rw [hnothing]
    exact ⟨_, call.goto g.now (.lockDel pending none), pending, [],
      Run.refl.tail trivial (step_input hp hb), rfl, rfl, rfl, rfl, rfl, rfl, rfl, rfl⟩
  | none =>
    cases executed with
    | true =>
      have hx : call.exec svc g.now pid .ok g.redis = some _ := exec_cacheSet hst
      have hexecuted : call.inFlight svc g.now pid true g.redis =
          (SemanticCache.set svc g.now pid g.redis call.req (done.payload call.req),
            [.cacheStored (svc.makeKey call.req)]) := by simp only [InferCall.inFlight, hx]; rfl
      rw [hexecuted]
      obtain ⟨g', call', pending, hrun, hreq, hst', hredis, hcb, hnow, hprocs, hlog⟩ :=
        follow_written hp hx rfl hsome
      exact ⟨g', call', pending, _, hrun, hreq, hst', hredis, hcb, hnow, hprocs, hlog, rfl⟩
    | false =>
      have hx : call.exec svc g.now pid (.failed .connectionError) g.redis = some _ :=
        exec_cacheSet hst
      obtain ⟨g', call', pending, hrun, hreq, hst', hredis, hcb, hnow, hprocs, hlog⟩ :=
        follow_written hp hx rfl hsome
      exact ⟨g', call', pending, _, hrun, hreq, hst', hredis, hcb, hnow, hprocs, hlog, rfl⟩

/-- A cancellation is followed: the command that is under way is executed or fails, and nothing
else. -/
lemma follow_cancel (h : Follows c g) (hp : c.gateway.procs pid = .infer call) {executed : Bool}
    (hx : call.cancel svc c.gateway.now pid executed c.gateway.redis = some x) :
    ∃ g', Run (Gateway.step svc) anyAction g g' ∧
      Follows ⟨c.gateway.act pid (.infer (call.goto c.gateway.now x.status)) x.redis c.gateway.cb
        x.events, pid :: c.cancelled⟩ g' := by
  have hmem : ∀ p, p ∈ pid :: c.cancelled ↔ p = pid ∨ p ∈ c.cancelled := fun p => List.mem_cons
  have hlog := sharedLog_cons pid h.log
  cases cancel_case hx with
  | ended =>
    obtain ⟨g', call', hrun, hreq, hredis, hcb, hnow, hprocs, hlog'⟩ :=
      follow_inFlight svc h hp executed
    exact ⟨g', hrun, h.act_cancelled call' _ hmem hlog hreq .ended hredis (hcb.trans h.cb) hnow
      hprocs hlog' rfl⟩
  | @releasing done reply hst hsome =>
    obtain ⟨call', hp', -, rfl | habandoned⟩ := h.stuck hp
    · obtain ⟨g', call'', pending, events', hrun, hreq, hst', hredis, hcb, hnow, hprocs, hlog',
        hevents⟩ := follow_write hp' hst hsome executed
      rw [h.now, h.redis] at hredis hevents
      refine ⟨g', hrun, h.act_cancelled call'' events' hmem hlog hreq ?_ hredis (hcb.trans h.cb)
        hnow hprocs hlog' hevents⟩
      rw [hst']
      exact .releasing
    · rw [hst] at habandoned
      cases habandoned

end Steps

/-! ## Runs -/

/-- Every run with cancellations is followed by one without. -/
theorem exists_follows (hc : Reachable svc c) : ∃ g, Gateway.Reachable svc g ∧ Follows c g := by
  refine Run.simulate hc (fun c g a c' hrel _ hs => ?_) follows_init
  cases a with
  | step a =>
    rw [step] at hs
    split at hs
    · next s' hstep =>
      cases hs
      exact follow_step hrel hstep
    · cases hs
  | cancel pid executed =>
    rw [step] at hs
    split at hs
    · next call hp =>
      split at hs
      · next x hx =>
        cases hs
        exact follow_cancel hrel hp hx
      · cases hs
    · cases hs

/-- **Cancellations change nothing for the others.** For every run in which requests are cancelled,
at whatever await and with their commands executed or not, there is a run of the gateway in which
none of them is: with the same Redis, breaker and clock, the same calls and streams of all others,
and the same events but for what the cancelled callers are told. And all a cancelled request may
still do is to release its lock; it ends with an exception. -/
theorem cancellations_harmless (svc : InferenceService) (c : Cancelling) (hc : Reachable svc c) :
    (∃ g, Gateway.Reachable svc g ∧ g.redis = c.gateway.redis ∧ g.cb = c.gateway.cb ∧
      g.now = c.gateway.now ∧ (∀ pid ∉ c.cancelled, g.procs pid = c.gateway.procs pid) ∧
      sharedLog c.cancelled g.log = sharedLog c.cancelled c.gateway.log) ∧
    ∀ pid ∈ c.cancelled, ∃ call e, c.gateway.procs pid = .infer call ∧
      (call.status = .finished (.error e) ∨ ∃ reply, call.status = .lockDel (.error e) reply) := by
  obtain ⟨g, hg, hfollows⟩ := exists_follows hc
  refine ⟨⟨g, hg, hfollows.redis, hfollows.cb, hfollows.now, hfollows.others, hfollows.log⟩,
    fun pid hpid => ?_⟩
  obtain ⟨call, call', hp, -, -, habandoned⟩ := hfollows.abandoned pid hpid
  generalize hst : call.status = status at habandoned
  generalize call'.status = status' at habandoned
  cases habandoned with
  | @ended e => exact ⟨call, e, hp, Or.inl hst⟩
  | @releasing e _ reply => exact ⟨call, e, hp, Or.inr ⟨reply, hst⟩⟩

/-- A leader is cancelled while its cache write is under way, and still releases its lock. -/
def cancelledWriter : List Action :=
  [.step (.infer 0 "a" sampleRequest), .step (.redis 0 .ok), .step (.input 0 .resume),
    .step (.redis 0 .ok), .step (.input 0 .resume), .step (.input 0 (.adapter (.ok sampleResult))),
    .cancel 0 true, .step (.redis 0 .ok), .step (.input 0 .resume)]

theorem cancellations_harmless_cancelledWriter :
    ∃ c, execute (step sample) (fun _ _ => true) init cancelledWriter = some c ∧
      ∃ g, Gateway.Reachable sample g ∧ g.redis = c.gateway.redis := by
  have hsome : (execute (step sample) (fun _ _ => true) init cancelledWriter).isSome = true := by
    decide +kernel
  obtain ⟨c, hc⟩ := Option.isSome_iff_exists.mp hsome
  have hrun := run_of_execute .refl (fun _ _ => trivial) hc
  obtain ⟨⟨g, hg, hredis, -⟩, -⟩ := cancellations_harmless sample c hrun.any
  exact ⟨c, hc, g, hg, hredis⟩

/-- An event that others can see is in both logs. -/
lemma mem_of_mem_sharedLog {entry : Entry} (hmem : entry ∈ log)
    (hvisible : entry.event.internal = false)
    (h : sharedLog cancelled log = sharedLog cancelled log') : entry ∈ log' := by
  have hshared : entry ∈ sharedLog cancelled log := by
    refine List.mem_filter.mpr ⟨hmem, ?_⟩
    rw [hvisible]
    rfl
  rw [h] at hshared
  exact (List.mem_filter.mp hshared).1

/-- So what holds of every run holds with cancellations. The cache, for one: what it has was
answered by the provider to a request with the key. -/
theorem cached_sound (hc : Reachable svc c) {req : InferRequest}
    {cell : TtlStore.Cell ℚ Stored} (hcell : c.gateway.redis (svc.makeKey req) = some cell) :
    ∃ writer t req' result done, ⟨writer, t, .providerEnd req' (.ok result)⟩ ∈ c.gateway.log ∧
      svc.makeKey req' = svc.makeKey req ∧ Completes svc req' result done ∧
      cell.value.value = done.payload req' := by
  obtain ⟨g, hg, hfollows⟩ := exists_follows hc
  rw [← hfollows.redis] at hcell
  obtain ⟨writer, t, req', result, done, hprod⟩ := (Reachable.cacheInv hg).stored req cell hcell
  exact ⟨writer, t, req', result, done,
    mem_of_mem_sharedLog hprod.providerEnd rfl hfollows.log, hprod.key, hprod.completes,
    hprod.value⟩

end Cancelling
end InferenceApi
