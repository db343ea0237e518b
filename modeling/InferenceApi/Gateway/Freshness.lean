import InferenceApi.Gateway.Invariants

/-!
# Redis and the history

What Redis shows under a key at any moment is what the last write to the key in the log has left,
while it lasts: a cache entry for the cache's TTL, a lock for the lock's, and nothing after a
release. So no hit is older than the TTL, and no entry is forgotten before.
-/

namespace InferenceApi

open TtlStore Transition

/-- The event is a write to `key`. -/
def Event.writes (key : String) : Event → Bool
  | .cacheStored key' => key' = key
  | .acquired key' => key' = key
  | .released key' _ => key' = key
  | _ => false

/-- The last write to a key. -/
def lastWrite (key : String) (log : Log) : Option Entry :=
  log.find? fun entry => entry.event.writes key

/-- How long what an event wrote lasts. -/
def lifetime (svc : InferenceService) : Event → Option ℚ
  | .cacheStored _ => some svc.cacheTtl
  | .acquired _ => svc.collapser.map RequestCollapser.lockTtlS
  | _ => none

/-- The commands with which a call looks into the cache, at first and while it waits. -/
def Status.Looks : Status → Prop
  | .cacheGet none => True
  | .pollGet _ none => True
  | _ => False

/-- Who wrote an entry of the log, and when that is gone. -/
def leaves (svc : InferenceService) (entry : Entry) : Option (ℕ × ℚ) :=
  (lifetime svc entry.event).map fun d => (entry.pid, entry.time + d)

/-- The request whose write a key should show. -/
def shown (svc : InferenceService) (now : ℚ) (key : String) (log : Log) : Option ℕ :=
  match (lastWrite key log).bind (leaves svc) with
  | none => none
  | some (pid, expireAt) => if now < expireAt then some pid else none

/-- Every cell of Redis is what the last write has left. -/
structure History (svc : InferenceService) (redis : Redis) (log : Log) : Prop where
  cells : ∀ key, (redis key).map (fun cell => (cell.value.writer, cell.expireAt)) =
    (lastWrite key log).bind (leaves svc)
  /-- Locks are stored and deleted under the keys of locks. -/
  locks : ∀ entry ∈ log, ∀ key, (entry.event = .acquired key ∨
    ∃ victim, entry.event = .released key victim) → ∃ req, key = svc.lockKey req

section History

variable {svc : InferenceService} {redis redis' : Redis} {log : Log} {pid : ℕ} {now : ℚ}
  {es : List Event} {key : String} {w : Event}

lemma lastWrite_stamp_of_none (h : ∀ e ∈ es, e.writes key = false) :
    lastWrite key (stamp pid now es ++ log) = lastWrite key log := by
  rw [lastWrite, List.find?_append, List.find?_eq_none.mpr]
  · rfl
  · intro entry hentry
    obtain ⟨e, he, rfl⟩ := List.mem_map.mp hentry
    rw [h e he]
    exact Bool.false_ne_true

lemma lastWrite_stamp_cons (h : w.writes key = true) :
    lastWrite key (stamp pid now (w :: es) ++ log) = some ⟨pid, now, w⟩ :=
  List.find?_cons_of_pos h

lemma lastWrite_stamp_cons_of_ne (h : w.writes key = false) :
    lastWrite key (stamp pid now (w :: es) ++ log) = lastWrite key (stamp pid now es ++ log) :=
  List.find?_cons_of_neg (by simp [h])

lemma writes_of_lastWrite {entry : Entry} (h : lastWrite key log = some entry) :
    entry ∈ log ∧ entry.event.writes key = true := by
  rw [lastWrite] at h
  have hwrites := List.find?_some h
  exact ⟨List.mem_of_find?_eq_some h, hwrites⟩

/-- Events that write nothing. -/
lemma History.silent (h : History svc redis log) (hes : ∀ e ∈ es, ∀ key, e.writes key = false) :
    History svc redis (stamp pid now es ++ log) where
  cells key := by
    rw [lastWrite_stamp_of_none fun e he => hes e he key]
    exact h.cells key
  locks entry hentry key' hkey := by
    rcases List.mem_append.mp hentry with hnew | hold
    · obtain ⟨e, he, rfl⟩ := List.mem_map.mp hnew
      have hnone := hes e he key'
      rcases hkey with hkey | ⟨victim, hkey⟩
      · have hkey' : e = .acquired key' := hkey
        simp [hkey', Event.writes] at hnone
      · have hkey' : e = .released key' victim := hkey
        simp [hkey', Event.writes] at hnone
    · exact h.locks entry hold key' hkey

/-- One write, and events that write nothing. -/
lemma History.write (h : History svc redis log) (hw : ∀ key', w.writes key' = decide (key = key'))
    (hcell : (redis' key).map (fun cell => (cell.value.writer, cell.expireAt)) =
      leaves svc ⟨pid, now, w⟩)
    (hframe : ∀ key', key' ≠ key → redis' key' = redis key')
    (hlock : w = .cacheStored key ∨ ∃ req, key = svc.lockKey req)
    (hes : ∀ e ∈ es, ∀ key, e.writes key = false) :
    History svc redis' (stamp pid now (w :: es) ++ log) := by
  have hrest := @History.silent svc redis log pid now es h hes
  constructor
  · intro key'
    by_cases hkey : key = key'
    · subst hkey
      rw [lastWrite_stamp_cons (by rw [hw]; exact decide_eq_true rfl), hcell]
      rfl
    · rw [lastWrite_stamp_cons_of_ne (by rw [hw]; exact decide_eq_false hkey),
        hframe key' (Ne.symm hkey)]
      exact hrest.cells key'
  · intro entry hentry key' hkey
    rcases List.mem_cons.mp hentry with rfl | hentry
    · have hwrites : w.writes key' = true := by
        rcases hkey with hkey | ⟨victim, hkey⟩
        · have hkey' : w = .acquired key' := hkey
          simp [hkey', Event.writes]
        · have hkey' : w = .released key' victim := hkey
          simp [hkey', Event.writes]
      rw [hw] at hwrites
      obtain rfl : key = key' := of_decide_eq_true hwrites
      rcases hlock with rfl | hlock
      · rcases hkey with hkey | ⟨victim, hkey⟩ <;> cases hkey
      · exact hlock
    · exact hrest.locks entry hentry key' hkey

/-! ## Turns -/

variable {call : InferCall} {cb : CircuitBreaker}

/-- A call writes nothing in its own turns. -/
lemma writes_run {input : Input} {b : Block Status} (hb : call.run svc now cb input = some b) :
    ∀ e ∈ b.events, ∀ key, e.writes key = false := by
  intro e he key
  cases run_event hb e he <;> rfl

lemma writes_streamRun {c : CircuitBreaker.Config} {call : StreamingService.StreamCall}
    {input : StreamingService.Input} {b : Block StreamingService.Status}
    (hb : call.run c now cb input = some b) : ∀ e ∈ b.events, ∀ key, e.writes key = false := by
  intro e he key
  have hkind := StreamingService.ofStream_of_mem hb e he
  cases e <;> first
    | rfl
    | exact hkind.elim

lemma writes_fate {fate : Fate} {op : RedisOp} : ∀ e ∈ fate.events op, ∀ key,
    e.writes key = false := by
  intro e he key
  obtain ⟨err, -, rfl⟩ := Fate.mem_events.mp he
  rfl

/-- What is executed, whether or not its answer gets lost, and what is not. -/
lemma History.fate (h : History svc redis log) {fate : Fate} {op : RedisOp} {written : List Event}
    (hw : ∀ es, (∀ e ∈ es, ∀ key, e.writes key = false) →
      History svc redis' (stamp pid now (written ++ es) ++ log)) :
    History svc (fate.effect redis redis')
      (stamp pid now (fate.effect [] written ++ fate.events op) ++ log) := by
  cases fate with
  | ok => exact hw _ writes_fate
  | lost e => exact hw _ writes_fate
  | failed e =>
    show History svc redis (stamp pid now ((Fate.failed e).events op) ++ log)
    exact h.silent writes_fate

/-- Redis deals with a command. -/
lemma History.exec (h : History svc redis log) {fate : Fate} {x : Executed}
    (hx : call.exec svc now pid fate redis = some x) :
    History svc x.redis (stamp pid now x.events ++ log) := by
  cases exec_case hx with
  | cacheGet => exact h.silent writes_fate
  | pollGet => exact h.silent writes_fate
  | @lockSet rc hst hrc =>
    refine h.fate fun es hes => ?_
    rcases rc.tryAcquire_cases now pid redis (svc.lockKey call.req) with ⟨-, hT⟩ | ⟨-, hT⟩
    · rw [hT, if_pos rfl]
      refine h.write (fun key' => rfl) ?_ (fun key' hne => setEx_of_ne hne) (Or.inr ⟨_, rfl⟩) hes
      dsimp only
      rw [setEx_self, leaves, lifetime, hrc]
      rfl
    · rw [hT, if_neg Bool.false_ne_true]
      exact h.silent hes
  | cacheSet =>
    refine h.fate fun es hes => ?_
    refine h.write (fun key' => rfl) ?_ (fun key' hne => SemanticCache.set_of_ne hne)
      (Or.inl rfl) hes
    rw [SemanticCache.set, setEx_self]
    rfl
  | lockDel =>
    refine h.fate fun es hes => ?_
    refine h.write (fun key' => rfl) ?_ (fun key' hne => RequestCollapser.release_of_ne hne)
      (Or.inr ⟨_, rfl⟩) hes
    rw [RequestCollapser.release, del_self]
    rfl

end History

namespace Gateway

variable {svc : InferenceService} {s : Gateway}

/-- In every run, Redis is what the history has left. -/
theorem Reachable.history (hs : Reachable svc s) : History svc s.redis s.log := by
  refine Run.invariant (P := fun s => History svc s.redis s.log) hs
    ⟨fun _ => rfl, fun _ he => absurd he List.not_mem_nil⟩ fun s a s' hinv _ hstep => ?_
  cases step_move hstep with
  | tick => exact hinv
  | infer => exact hinv
  | stream => exact hinv
  | redis _ hx => exact hinv.exec hx
  | input _ hb => exact hinv.silent (writes_run hb)
  | streamInput _ hb => exact hinv.silent (writes_streamRun hb)

/-- What a `GET` would find. -/
lemma Reachable.get_eq_shown (hs : Reachable svc s) (key : String) :
    (TtlStore.get s.redis s.now key).map Stored.writer = shown svc s.now key s.log := by
  have hcell := hs.history.cells key
  unfold shown
  rw [← hcell, TtlStore.get]
  cases s.redis key with
  | none => rfl
  | some cell =>
    simp only [Option.bind_some, Option.map_some, Cell.live]
    split <;> rfl

/-- Under a cache key only entries are written. -/
lemma Reachable.cacheStored_of_lastWrite (hs : Reachable svc s) {req : InferRequest} {entry : Entry}
    (h : lastWrite (svc.makeKey req) s.log = some entry) :
    entry.event = .cacheStored (svc.makeKey req) := by
  obtain ⟨hmem, hwrites⟩ := writes_of_lastWrite h
  cases hevent : entry.event with
  | cacheStored key =>
    rw [hevent] at hwrites
    rw [of_decide_eq_true hwrites]
  | acquired key =>
    rw [hevent] at hwrites
    obtain rfl : key = svc.makeKey req := of_decide_eq_true hwrites
    obtain ⟨req', hreq'⟩ := hs.history.locks entry hmem _ (Or.inl hevent)
    exact absurd hreq' (svc.makeKey_ne_lockKey req req')
  | released key victim =>
    rw [hevent] at hwrites
    obtain rfl : key = svc.makeKey req := of_decide_eq_true hwrites
    obtain ⟨req', hreq'⟩ := hs.history.locks entry hmem _ (Or.inr ⟨victim, hevent⟩)
    exact absurd hreq' (svc.makeKey_ne_lockKey req req')
  | _ => rw [hevent] at hwrites; cases hwrites

/-- A cached value is visible exactly while the last entry stored lasts. -/
lemma Reachable.get_isSome_iff (hs : Reachable svc s) (req : InferRequest) :
    (∃ value, SemanticCache.get svc s.now s.redis req = some value) ↔
      ∃ entry, lastWrite (svc.makeKey req) s.log = some entry ∧
        entry.event = .cacheStored (svc.makeKey req) ∧ entry.time ≤ s.now ∧
        s.now < entry.time + svc.cacheTtl := by
  have hshown := hs.get_eq_shown (svc.makeKey req)
  have hget : (∃ value, SemanticCache.get svc s.now s.redis req = some value) ↔
      ∃ pid, shown svc s.now (svc.makeKey req) s.log = some pid := by
    rw [← hshown, SemanticCache.get]
    cases TtlStore.get s.redis s.now (svc.makeKey req) <;> simp
  rw [hget]
  cases hlast : lastWrite (svc.makeKey req) s.log with
  | none => simp [shown, hlast]
  | some entry =>
    have hevent := hs.cacheStored_of_lastWrite hlast
    have htime : entry.time ≤ s.now := hs.logInv.before entry (writes_of_lastWrite hlast).1
    simp [shown, hlast, leaves, hevent, lifetime, htime]

/-- **Redis is what the history has left, and hits are fresh.** In every run, whatever is lost on
the way to Redis and back: at every moment every key, of an entry or of a lock, shows the request
of its last write, as long as that lasts, and nothing after a release. So a look into the cache
that is answered finds a value if and only if the last entry stored under the request's key is
younger than the cache's TTL. -/
theorem redis_shows_history (svc : InferenceService) (s : Gateway) (hs : Reachable svc s) :
    (∀ key, (TtlStore.get s.redis s.now key).map Stored.writer = shown svc s.now key s.log) ∧
    ∀ pid fate call x, s.procs pid = .infer call →
      call.exec svc s.now pid fate s.redis = some x → call.status.Looks →
        ((∃ value, x.status.found = some value) ↔ fate = .ok ∧
          ∃ entry, lastWrite (svc.makeKey call.req) s.log = some entry ∧
            entry.event = .cacheStored (svc.makeKey call.req) ∧ entry.time ≤ s.now ∧
            s.now < entry.time + svc.cacheTtl) := by
  refine ⟨hs.get_eq_shown, fun pid fate call x _ hx hlooks => ?_⟩
  rw [← hs.get_isSome_iff]
  have hfound : x.status.found = (match fate with
      | .ok => SemanticCache.get svc s.now s.redis call.req
      | _ => none) := by
    cases exec_case hx with
    | cacheGet => cases fate <;> rfl
    | pollGet => cases fate <;> rfl
    | lockSet hst => rw [hst] at hlooks; cases hlooks
    | cacheSet hst => rw [hst] at hlooks; cases hlooks
    | lockDel hst => rw [hst] at hlooks; cases hlooks
  rw [hfound]
  cases fate <;> simp

/-- A call that stores its answer, and some time. -/
def storedBefore (d : ℚ) : List Action :=
  [.infer 0 "a" sampleRequest, .redis 0 .ok, .input 0 .resume, .redis 0 .ok, .input 0 .resume,
    .input 0 (.adapter (.ok sampleResult)), .redis 0 .ok, .input 0 .resume, .redis 0 .ok,
    .input 0 .resume, .tick d]

/-- The entry lasts five minutes. -/
theorem redis_shows_history_stored :
    (TtlStore.get (after sample (storedBefore 299)).redis (after sample (storedBefore 299)).now
      (sample.makeKey sampleRequest)).map Stored.writer = some 0 ∧
    (TtlStore.get (after sample (storedBefore 300)).redis (after sample (storedBefore 300)).now
      (sample.makeKey sampleRequest)).map Stored.writer = none := by
  have hfresh : shown sample (after sample (storedBefore 299)).now (sample.makeKey sampleRequest)
      (after sample (storedBefore 299)).log = some 0 := by decide +kernel
  have hgone : shown sample (after sample (storedBefore 300)).now (sample.makeKey sampleRequest)
      (after sample (storedBefore 300)).log = none := by decide +kernel
  rw [← hfresh, ← hgone]
  exact ⟨(redis_shows_history sample _ (reachable_after sample (storedBefore 299))).1 _,
    (redis_shows_history sample _ (reachable_after sample (storedBefore 300))).1 _⟩

end Gateway
end InferenceApi
