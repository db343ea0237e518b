import InferenceApi.Gateway.Uncached
import InferenceApi.Lib.JsonDecode
import InferenceApi.Lib.Simulation

/-!
# The texts in Redis

What Redis keeps is text. `SemanticCache.set` stores what `json.dumps` makes of a value and
`SemanticCache.get` reads what it finds with `json.loads`, which may raise; a lock is the text
`1`. The gateway over these texts takes the steps of the gateway over values in every run, so
that no call ever finds an entry it cannot read.
-/

namespace InferenceApi

open Transition TtlStore Json

/-- A text in Redis. `writer` is the request that stored it; no function reads it back. -/
structure StoredText where
  text : String
  writer : ℕ

/-- The part of the keyspace with cache entries and locks. -/
abbrev TextRedis := Store String ℚ StoredText

/-! ## The commands -/

section Commands

variable (svc : InferenceService) (toFloat : List Char → PyFloat) (now : ℚ) (pid : ℕ)
  (redis : TextRedis)

/-- The `GET` of `SemanticCache.get`. -/
def SemanticCache.getText (req : InferRequest) : Option String :=
  (TtlStore.get redis now (svc.makeKey req)).map StoredText.text

/-- What `SemanticCache.get` makes of the answer; `none` is a `JSONDecodeError`. -/
def SemanticCache.decoded (answer : Except RedisError (Option String)) :
    Option (Except RedisError (Option Json)) :=
  match answer with
  | .ok (some text) => (loads toFloat text.toList).map fun value => .ok (some value)
  | .ok none => some (.ok none)
  | .error e => some (.error e)

/-- `SemanticCache.set`. -/
def SemanticCache.setText (req : InferRequest) (value : Json) : TextRedis :=
  setEx redis (svc.makeKey req) ⟨String.ofList (render svc.floatRepr value), pid⟩
    (now + svc.cacheTtl)

/-- `RequestCollapser.try_acquire`: `SET NX EX`. -/
def RequestCollapser.tryAcquireText (rc : RequestCollapser) (key : String) : Bool × TextRedis :=
  setNx redis now key ⟨"1", pid⟩ (now + rc.lockTtlS)

/-- `RequestCollapser.release`: `DEL`. -/
def RequestCollapser.releaseText (key : String) : TextRedis := del redis key

/-- Where the answer to a `GET` leaves the call. Nothing in `infer` catches a
`JSONDecodeError`. -/
def afterGet (resume : Except RedisError (Option Json) → Status) (events : List Event)
    (reply : Option (Except RedisError (Option Json))) : Status × List Event :=
  match reply with
  | some reply => (resume reply, events)
  | none =>
    (.finished (.error (.other "JSONDecodeError")),
      [.returned (.error (.other "JSONDecodeError"))])

/-- What executing a command leaves: the keyspace, the answered call, events. -/
structure TextExecuted where
  redis : TextRedis
  status : Status
  events : List Event

/-- Redis deals with the command the call has sent. -/
def InferCall.execText (fate : Fate) (call : InferCall) : Option TextExecuted :=
  match call.status, svc.collapser with
  | .cacheGet none, _ =>
    let found := afterGet (fun reply => .cacheGet (some reply)) (fate.events .cacheGet)
      (SemanticCache.decoded toFloat (fate.reply (SemanticCache.getText svc now redis call.req)))
    some { redis, status := found.1, events := found.2 }
  | .lockSet none, some rc =>
    let acquired := (rc.tryAcquireText now pid redis (svc.lockKey call.req)).1
    some
      { redis := fate.effect redis (rc.tryAcquireText now pid redis (svc.lockKey call.req)).2
        status := .lockSet (some (fate.reply acquired))
        events := fate.effect [] (if acquired then [.acquired (svc.lockKey call.req)] else [])
          ++ fate.events .lockSet }
  | .pollGet deadline none, _ =>
    let found := afterGet (fun reply => .pollGet deadline (some reply)) (fate.events .pollGet)
      (SemanticCache.decoded toFloat (fate.reply (SemanticCache.getText svc now redis call.req)))
    some { redis, status := found.1, events := found.2 }
  | .cacheSet hasLock done none, _ =>
    some
      { redis := fate.effect redis
          (SemanticCache.setText svc now pid redis call.req (done.payload call.req))
        status := .cacheSet hasLock done (some (fate.reply ()))
        events := fate.effect [] [.cacheStored (svc.makeKey call.req)] ++ fate.events .cacheSet }
  | .lockDel pending none, _ =>
    some
      { redis := fate.effect redis (RequestCollapser.releaseText redis (svc.lockKey call.req))
        status := .lockDel pending (some (fate.reply ()))
        events := fate.effect []
            [.released (svc.lockKey call.req)
              ((TtlStore.get redis now (svc.lockKey call.req)).map StoredText.writer)]
          ++ fate.events .lockDel }
  | _, _ => none

end Commands

/-- The gateway with texts in Redis. -/
structure TextGateway where
  redis : TextRedis
  cb : CircuitBreaker
  now : ℚ
  procs : ℕ → Proc
  log : Log

namespace TextGateway

/-- An empty Redis, a closed breaker, no request. -/
def init : TextGateway := ⟨fun _ => none, {}, 0, fun _ => .idle, []⟩

/-- Everything but Redis. -/
def rest (s : TextGateway) : Gateway := ⟨fun _ => none, s.cb, s.now, s.procs, s.log⟩

/-- One step. -/
def step (svc : InferenceService) (toFloat : List Char → PyFloat) (s : TextGateway) :
    Gateway.Action → Option TextGateway
  | .redis pid fate =>
    match s.procs pid with
    | .infer call =>
      match call.execText svc toFloat s.now pid s.redis fate with
      | some x =>
        some
          { s with
            redis := x.redis
            procs := Function.update s.procs pid (.infer (call.goto s.now x.status))
            log := stamp pid s.now x.events ++ s.log }
      | none => none
    | _ => none
  -- no other step looks at Redis
  | a => (Gateway.step svc s.rest a).map fun s' =>
    { redis := s.redis, cb := s'.cb, now := s'.now, procs := s'.procs, log := s'.log }

end TextGateway

/-! ## From values to texts -/

/-- What a command sends for a value: a string as it is, anything else as JSON. -/
def textOf (R : FloatRepr) : Json → String
  | .str s => s
  | value => String.ofList (render R value)

/-- What is stored, as text. -/
def Stored.asText (R : FloatRepr) (stored : Stored) : StoredText :=
  ⟨textOf R stored.value, stored.writer⟩

/-- The keyspace, as texts. -/
def Redis.asText (R : FloatRepr) (redis : Redis) : TextRedis := map (Stored.asText R) redis

/-- What a command leaves, as text. -/
def Executed.asText (R : FloatRepr) (x : Executed) : TextExecuted :=
  ⟨Redis.asText R x.redis, x.status, x.events⟩

/-- The gateway with its values as texts. -/
def Gateway.asText (R : FloatRepr) (s : Gateway) : TextGateway :=
  ⟨Redis.asText R s.redis, s.cb, s.now, s.procs, s.log⟩

section AsText

variable {svc : InferenceService} {toFloat : List Char → PyFloat} {R : FloatRepr} {now : ℚ}
  {pid : ℕ} {fate : Fate} {redis : Redis} {call : InferCall} {req : InferRequest} {key : String}

lemma getText_asText :
    SemanticCache.getText svc now (Redis.asText R redis) req =
      (SemanticCache.get svc now redis req).map (textOf R) := by
  rw [SemanticCache.getText, Redis.asText, get_map, SemanticCache.get, Option.map_map,
    Option.map_map]
  rfl

lemma setText_asText {done : Completion} :
    SemanticCache.setText svc now pid (Redis.asText svc.floatRepr redis) req (done.payload req) =
      Redis.asText svc.floatRepr
        (SemanticCache.set svc now pid redis req (done.payload req)) := by
  rw [SemanticCache.set, Redis.asText, Redis.asText, map_setEx]
  rfl

lemma tryAcquireText_asText {rc : RequestCollapser} :
    rc.tryAcquireText now pid (Redis.asText R redis) key =
      ((rc.tryAcquire now pid redis key).1,
        Redis.asText R (rc.tryAcquire now pid redis key).2) := by
  show setNx (map (Stored.asText R) redis) now key (Stored.asText R ⟨.str "1", pid⟩)
    (now + rc.lockTtlS) = _
  rw [setNx_map]
  rfl

lemma releaseText_asText :
    RequestCollapser.releaseText (Redis.asText R redis) key =
      Redis.asText R (RequestCollapser.release redis key) :=
  map_del.symm

/-- Who holds a lock does not depend on how it is written. -/
lemma writer_asText :
    (TtlStore.get (Redis.asText R redis) now key).map StoredText.writer =
      (TtlStore.get redis now key).map Stored.writer := by
  rw [Redis.asText, get_map, Option.map_map]
  rfl

lemma effect_asText {before after : Redis} :
    fate.effect (Redis.asText R before) (Redis.asText R after) =
      Redis.asText R (fate.effect before after) := by
  cases fate <;> rfl

/-- An entry that can be read is taken for the value it stands for. -/
lemma afterGet_asText {resume : Except RedisError (Option Json) → Status} {op : RedisOp}
    (hread : ∀ value, SemanticCache.get svc now redis req = some value →
      loads toFloat (textOf R value).toList = some value) :
    afterGet resume (fate.events op) (SemanticCache.decoded toFloat
        (fate.reply (SemanticCache.getText svc now (Redis.asText R redis) req))) =
      (resume (fate.reply (SemanticCache.get svc now redis req)), fate.events op) := by
  rw [getText_asText]
  cases fate with
  | ok =>
    cases hget : SemanticCache.get svc now redis req with
    | none => rfl
    | some value =>
      show afterGet resume _ ((loads toFloat (textOf R value).toList).map _) = _
      rw [hread value hget]
      rfl
  | lost e => rfl
  | failed e => rfl

/-- **Redis does the same with texts.** -/
theorem execText_asText
    (hread : ∀ value, SemanticCache.get svc now redis call.req = some value →
      loads toFloat (textOf svc.floatRepr value).toList = some value) :
    call.execText svc toFloat now pid (Redis.asText svc.floatRepr redis) fate =
      (call.exec svc now pid fate redis).map (Executed.asText svc.floatRepr) := by
  unfold InferCall.execText InferCall.exec
  cases call.status with
  | cacheGet reply =>
    cases reply with
    | none =>
      dsimp only
      rw [afterGet_asText hread]
      rfl
    | some reply => rfl
  | lockSet reply =>
    cases reply with
    | none =>
      cases svc.collapser with
      | none => rfl
      | some rc =>
        dsimp only
        rw [tryAcquireText_asText, effect_asText]
        rfl
    | some reply => rfl
  | pollGet deadline reply =>
    cases reply with
    | none =>
      dsimp only
      rw [afterGet_asText hread]
      rfl
    | some reply => rfl
  | sleeping deadline wakeAt => rfl
  | provider hasLock => rfl
  | cacheSet hasLock done reply =>
    cases reply with
    | none =>
      dsimp only
      rw [setText_asText, effect_asText]
      rfl
    | some reply => rfl
  | lockDel pending reply =>
    cases reply with
    | none =>
      dsimp only
      rw [releaseText_asText, effect_asText, writer_asText]
      rfl
    | some reply => rfl
  | finished out => rfl

end AsText

namespace Gateway

variable {svc : InferenceService} {toFloat : List Char → PyFloat} {s s' : Gateway} {a : Action}
  {pid : ℕ} {call : InferCall} {req : InferRequest} {result value : Json} {done : Completion}

/-! ## What is stored can be read -/

lemma plain_of_subscript {key : String} (hvalue : Plain value)
    (h : subscript value key = .ok result) : Plain result := by
  obtain ⟨fields, rfl, hlookup⟩ := subscript_eq_ok.mp h
  exact hvalue.of_lookup hlookup

lemma plain_of_dictGet {key : String} {default : Json} (hvalue : Plain value)
    (hdefault : Plain default) (h : dictGet value key default = .ok result) : Plain result := by
  obtain ⟨fields, rfl, hget⟩ := dictGet_eq_ok.mp h
  cases hlookup : lookup fields key with
  | none =>
    rw [hlookup] at hget
    exact hget ▸ hdefault
  | some v =>
    rw [hlookup] at hget
    exact hget ▸ hvalue.of_lookup hlookup

/-- What is cached of a plain result is plain. -/
lemma plain_payload (hresult : Plain result) (hdone : Completes svc req result done) :
    Plain (done.payload req) := by
  have houtput := plain_of_subscript hresult hdone.output
  obtain ⟨rawUsage, hraw, husage⟩ := bind_eq_ok.mp hdone.usage
  obtain ⟨tokensIn, hin, husage⟩ := bind_eq_ok.mp husage
  obtain ⟨tokensOut, hout, husage⟩ := bind_eq_ok.mp husage
  have hempty : Plain (.obj []) := plain_obj.mpr ⟨List.nodup_nil, List.forall_mem_nil _⟩
  have hrawUsage := plain_of_dictGet hresult hempty hraw
  have htokensIn := plain_of_dictGet hrawUsage (plain_int 0) hin
  have htokensOut := plain_of_dictGet hrawUsage (plain_int 0) hout
  have husage : Plain done.usage.toJson := by
    rw [← Except.ok.inj husage]
    exact plain_obj.mpr ⟨by simp, by simp [htokensIn, htokensOut]⟩
  exact plain_obj.mpr ⟨by simp, by simp [houtput, plain_str, husage]⟩

/-- The adapter returns plain JSON if it returns. -/
def Action.Plain : Action → Prop
  | .input _ (.adapter (.ok result)) => Json.Plain result
  | _ => True

/-- An entry of the cache is the text of a value that is read back. -/
lemma loads_cached (hs : Run (step svc) (fun _ a => a.Plain) init s)
    (hget : SemanticCache.get svc s.now s.redis req = some value) :
    loads toFloat (textOf svc.floatRepr value).toList = some value := by
  have hplain : ∀ pid t req result, ⟨pid, t, .providerEnd req (.ok result)⟩ ∈ s.log →
      Json.Plain result := providerEnd_of_run hs fun _ _ _ _ hok _ => hok
  obtain ⟨writer, t, req', result, done, hprod⟩ := sound_get (Reachable.cacheInv hs.any) hget
  have hpayload := plain_payload (hplain _ _ _ _ hprod.providerEnd) hprod.completes
  rw [hprod.value]
  -- an object is sent as JSON
  show loads toFloat (String.ofList (render svc.floatRepr (done.payload req'))).toList = _
  rw [String.toList_ofList]
  exact loads_render svc.floatRepr toFloat hpayload.floatless hpayload.distinct

/-! ## The two gateways -/

/-- Only commands look at Redis. -/
lemma step_asText_of_ne (ha : ∀ pid fate, a ≠ .redis pid fate) :
    TextGateway.step svc toFloat (s.asText svc.floatRepr) a =
      (step svc s a).map (Gateway.asText svc.floatRepr) := by
  cases a with
  | redis pid fate => exact absurd rfl (ha pid fate)
  | tick d =>
    simp only [TextGateway.step, step, TextGateway.rest, asText]
    split <;> rfl
  | infer pid requestId req =>
    simp only [TextGateway.step, step, TextGateway.rest, asText]
    cases s.procs pid <;> rfl
  | stream pid req =>
    simp only [TextGateway.step, step, TextGateway.rest, asText]
    cases s.procs pid <;> rfl
  | input pid input =>
    simp only [TextGateway.step, step, TextGateway.rest, asText]
    cases s.procs pid with
    | infer call =>
      dsimp only
      cases call.run svc s.now s.cb input <;> rfl
    | _ => rfl
  | streamInput pid input =>
    simp only [TextGateway.step, step, TextGateway.rest, asText]
    cases s.procs pid with
    | stream call =>
      dsimp only
      cases call.run svc.breaker s.now s.cb input <;> rfl
    | _ => rfl

/-- A command does to the texts what it does to the values. -/
lemma step_asText_redis {fate : Fate} (hs : Run (step svc) (fun _ a => a.Plain) init s) :
    TextGateway.step svc toFloat (s.asText svc.floatRepr) (.redis pid fate) =
      (step svc s (.redis pid fate)).map (Gateway.asText svc.floatRepr) := by
  simp only [TextGateway.step, step, asText]
  cases s.procs pid with
  | infer call =>
    dsimp only
    rw [execText_asText fun value hget => loads_cached hs hget]
    cases call.exec svc s.now pid fate s.redis <;> rfl
  | _ => rfl

/-- **The texts carry the values.** Whatever the requests, the schedule and the failures of
Redis: over texts, which are written and read at every access, the gateway can do exactly what it
can do over values, and gets to the same place. In particular no call raises a
`JSONDecodeError`. -/
theorem texts_refine (svc : InferenceService) (toFloat : List Char → PyFloat) {as : List Action}
    (has : ∀ a ∈ as, a.Plain) :
    execute (TextGateway.step svc toFloat) (fun _ _ => true) TextGateway.init as =
      (execute (step svc) (fun _ _ => true) init as).map (Gateway.asText svc.floatRepr) := by
  have hinit : TextGateway.init = init.asText svc.floatRepr := rfl
  rw [hinit]
  refine execute_map (fun s a hs ha => ?_) has .refl
  cases a with
  | redis pid fate => exact step_asText_redis hs
  | _ => exact step_asText_of_ne fun _ _ => Action.noConfusion

/-- A second request reads the text that the first one stored. -/
theorem texts_refine_servedFromCache :
    execute (TextGateway.step sample fun _ => .nan) (fun _ _ => true) TextGateway.init
        servedFromCache =
      some ((after sample servedFromCache).asText .coded) := by
  have hresult : Json.Plain sampleResult := by
    simp [sampleResult, plain_obj, plain_str, plain_int]
  have hplain : ∀ a ∈ servedFromCache, a.Plain := by
    simp [servedFromCache, Action.Plain, hresult]
  have henabled : enabled sample servedFromCache = true := by decide +kernel
  obtain ⟨s, hs⟩ := Option.isSome_iff_exists.mp henabled
  rw [texts_refine sample _ hplain, after, hs]
  rfl

end Gateway

end InferenceApi
