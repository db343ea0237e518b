import InferenceApi.Gateway.Outcomes
import InferenceApi.HttpAnswers

/-!
# What a failed request leaves in the cache

`infer` stores its completion before the response is built from it, and the adapter passes
the content of the message on whatever its type. So a null or non-string content is stored
and then refused by `InferResponse`, for the request and for all that find the entry.
-/

namespace InferenceApi

open Json HttpLLMAdapter

/-! ## After the cache write -/

/-- The places of a call whose `SETEX` Redis has dealt with. -/
def Status.PastWrite : Status → Prop
  | .cacheSet _ _ reply => reply.isSome
  | .lockDel _ _ => True
  | .finished _ => True
  | _ => False

section Writes

variable {svc : InferenceService} {now : ℚ} {cb : CircuitBreaker} {call : InferCall}
  {pid : ℕ} {own : Log} {key : String}

lemma pastWrite_exec {fate : Fate} {redis : Redis} {x : Executed}
    (hx : call.exec svc now pid fate redis = some x) (h : call.status.PastWrite) :
    x.status.PastWrite := by
  cases exec_case hx with
  | cacheSet => rfl
  | lockDel => trivial
  | cacheGet hst => exact (hst ▸ h : Status.PastWrite (.cacheGet none)).elim
  | lockSet hst => exact (hst ▸ h : Status.PastWrite (.lockSet none)).elim
  | @pollGet deadline hst => exact (hst ▸ h : Status.PastWrite (.pollGet deadline none)).elim

lemma conclude_pastWrite {pending : Except Exn Completion} :
    (conclude svc now call cb pending).status.PastWrite := by
  unfold conclude
  split <;> trivial

lemma pastWrite_run {input : Input} {b : Block Status} (hb : call.run svc now cb input = some b)
    (h : call.status.PastWrite) : b.status.PastWrite := by
  cases run_case hb with
  | cacheSet =>
    unfold afterCacheSet
    dsimp only
    split
    · trivial
    · exact conclude_pastWrite
  | lockDel =>
    unfold afterLockDel
    split
    · exact conclude_pastWrite
    · exact conclude_pastWrite
    · trivial
  | _ hst => rw [hst] at h; exact h.elim

/-- An entry is stored by the cache write only, under the key of the request. -/
theorem InferRun.stored (h : InferRun svc pid call own)
    (hstored : Happened own (.cacheStored key)) :
    key = svc.makeKey call.req ∧ call.status.PastWrite := by
  induction h with
  | start =>
    obtain ⟨_, hmem, -⟩ := hstored
    cases hmem
  | exec _ hx ih =>
    rcases happened_stamp_append.mp hstored with he | hold
    · cases exec_event hx he with
      | cacheStored hwrite =>
        refine ⟨rfl, ?_⟩
        cases exec_case hx with
        | cacheSet => rfl
        | lockDel => trivial
        | _ hst => cases hwrite.symm.trans hst
    · exact ⟨(ih hold).1, pastWrite_exec hx (ih hold).2⟩
  | run _ hb ih =>
    rcases happened_stamp_append.mp hstored with he | hold
    · cases run_event hb _ he
    · exact ⟨(ih hold).1, pastWrite_run hb (ih hold).2⟩

end Writes

/-! ## What an HTTP body completes with -/

section Bodies

variable {svc : InferenceService} {req : InferRequest} {body result : Json} {done : Completion}

/-- The completion has the content of the message, and integers. -/
lemma completion_of_infer (hbody : HttpLLMAdapter.infer body = .ok result)
    (hdone : Completes svc req result done) :
    messageContent body = .ok done.output ∧
      ∃ usage, parseUsage svc.ints done.usage.toJson = some usage := by
  obtain ⟨output, prompt, completion, total, hcontent, rfl⟩ := infer_eq_ok hbody
  have houtput : done.output = output := Except.ok.inj (hdone.output.symm.trans rfl)
  have husage : done.usage = ⟨.num (.int prompt), .num (.int completion)⟩ :=
    Except.ok.inj (hdone.usage.symm.trans rfl)
  refine ⟨houtput ▸ hcontent, [("tokens_in", prompt), ("tokens_out", completion)], ?_⟩
  rw [husage]
  simp [parseUsage, Usage.toJson, svc.ints.parse_int]

/-- It makes a valid response exactly if the content is a string. -/
theorem presentable_iff_of_infer (hbody : HttpLLMAdapter.infer body = .ok result)
    (hdone : Completes svc req result done) :
    done.Presentable svc ↔ ∃ text, messageContent body = .ok (.str text) := by
  obtain ⟨hcontent, usage, husage⟩ := completion_of_infer hbody hdone
  rw [hcontent]
  constructor
  · rintro ⟨text, -, htext, -⟩
    exact ⟨text, congrArg _ htext⟩
  · rintro ⟨text, htext⟩
    exact ⟨text, usage, Except.ok.inj htext, husage⟩

end Bodies

namespace Gateway

open Transition

/-- The adapter is `HttpLLMAdapter`: a result comes from the body of a response. -/
def Action.FromHttp : Action → Prop
  | .input _ (.adapter (.ok result)) => ∃ body, HttpLLMAdapter.infer body = .ok result
  | _ => True

/-- The runs with this adapter. -/
abbrev HttpRun (svc : InferenceService) (s : Gateway) : Prop :=
  Run (step svc) (fun _ a => a.FromHttp) init s

variable {svc : InferenceService} {s s' : Gateway} {a : Action} {pid : ℕ} {call : InferCall}
  {out : Except Exn InferResponse}

/-- Every result in the log is that of a body. -/
lemma body_of_providerEnd (hs : HttpRun svc s) {t : ℚ} {req : InferRequest} {result : Json}
    (hmem : ⟨pid, t, .providerEnd req (.ok result)⟩ ∈ s.log) :
    ∃ body, HttpLLMAdapter.infer body = .ok result := by
  -- the results of the environment are those of bodies, and Redis and the streams log none
  induction hs generalizing pid t with
  | refl => cases hmem
  | tail _ hok hstep ih =>
    cases step_move hstep with
    | tick => exact ih hmem
    | infer => exact ih hmem
    | stream => exact ih hmem
    | redis _ hx =>
      rcases List.mem_append.mp hmem with hnew | hold
      · cases exec_event hx (mem_stamp.mp hnew).2.2
      · exact ih hold
    | streamInput _ hb =>
      rcases List.mem_append.mp hmem with hnew | hold
      · exact (StreamingService.ofStream_of_mem hb _ (mem_stamp.mp hnew).2.2).elim
      · exact ih hold
    | input _ hb =>
      rcases List.mem_append.mp hmem with hnew | hold
      · cases run_event hb _ (mem_stamp.mp hnew).2.2 with
        | providerEnd _ hin =>
          subst hin
          exact hok
      · exact ih hold

/-- The content of the message of a result's body is a string. -/
def TextContent (body : Json) : Prop := ∃ text, messageContent body = .ok (.str text)

/-- A stored value makes a valid response exactly if the body it comes from has a string as
the content of its message. -/
lemma stored_valid_iff (hs : HttpRun svc s) {req : InferRequest} {cell : TtlStore.Cell ℚ Stored}
    (hcell : s.redis (svc.makeKey req) = some cell) :
    ∃ writer t req' body, ⟨writer, t, .providerEnd req' (HttpLLMAdapter.infer body)⟩ ∈ s.log ∧
      svc.makeKey req' = svc.makeKey req ∧
      ((∀ reader : InferCall, reader.t0 ≤ s.now →
        ∃ resp, respondCached svc s.now reader cell.value.value = .ok resp) ↔
          TextContent body) := by
  obtain ⟨writer, t, req', result, done, hprod⟩ := (Reachable.cacheInv hs.any).stored req cell hcell
  obtain ⟨body, hbody⟩ := body_of_providerEnd hs hprod.providerEnd
  refine ⟨writer, t, req', body, hbody ▸ hprod.providerEnd, hprod.key, ?_⟩
  rw [TextContent, ← presentable_iff_of_infer hbody hprod.completes, hprod.value]
  constructor
  -- any reader will do: validation does not look at the request
  · intro hall
    obtain ⟨resp, hresp⟩ := hall (.start s.now "" req) le_rfl
    exact (of_respondCached hresp).1
  · intro hpresentable reader ht0
    obtain ⟨resp, hresp, -⟩ := exists_respondCached hpresentable ht0
    exact ⟨resp, hresp⟩

/-- The place of a call that has written to the cache, and is about to end. -/
lemma answered_of_stored (hs : Reachable svc s) (hstep : step svc s a = some s')
    (hp : s.procs pid = .infer call) (hret : Did s s' pid (.returned out))
    (hstored : ∃ t, ⟨pid, t, .cacheStored (svc.makeKey call.req)⟩ ∈ s.log) :
    call.status.found = none ∧ (∃ done, Answered svc call.req (own pid s.log) done) ∧
      ∀ t, ⟨pid, t, .isOpen true⟩ ∉ s'.log := by
  have hown := hs.ownInv pid
  rw [hp] at hown
  have hpast := (InferRun.stored hown (happened_own.mpr hstored)).2
  have hprov := InferRun.providerInv hown
  obtain ⟨call₀, input, b, hp₀, hb, -, rfl⟩ := turn_of_returned hstep hret
  cases hp.symm.trans hp₀
  have hclosed : ¬ Rejected (own pid s.log) → ∀ t, ⟨pid, t, .isOpen true⟩ ∉
      stamp pid s.now b.events ++ s.log := by
    intro hno t hmem
    rcases List.mem_append.mp hmem with hnew | hold
    -- the check belongs to the turn after the first command
    · obtain ⟨reply, hst⟩ := asked_of_run hb (mem_stamp.mp hnew).2.2
      rw [hst] at hpast
      exact hpast
    · exact hno (happened_own.mpr ⟨t, hold⟩)
  cases run_case hb with
  | cacheSet hst =>
    rw [ProviderInv, hst] at hprov
    exact ⟨by rw [hst]; rfl, ⟨_, hprov.1⟩, hclosed hprov.2⟩
  | lockDel hst =>
    rw [ProviderInv, hst] at hprov
    obtain ⟨⟨done, hdone, -⟩, hno⟩ := hprov
    exact ⟨by rw [hst]; rfl, ⟨done, hdone⟩, hclosed hno⟩
  -- at any other place the call has not written yet
  | _ hst => rw [hst] at hpast; exact hpast.elim

/-- A step in which a call ends stores nothing. -/
lemma not_stored_of_returned (hstep : step svc s a = some s') (hret : Did s s' pid (.returned out))
    {t : ℚ} {key : String} (hmem : ⟨pid, t, .cacheStored key⟩ ∈ s'.log) :
    ⟨pid, t, .cacheStored key⟩ ∈ s.log := by
  obtain ⟨call, input, b, -, hb, -, rfl⟩ := turn_of_returned hstep hret
  rcases List.mem_append.mp hmem with hnew | hold
  · cases run_event hb _ (mem_stamp.mp hnew).2.2
  · exact hold

/-- When a call that has written to the cache ends with a response. -/
lemma ends_well_iff (hs : HttpRun svc s) (hstep : step svc s a = some s')
    (hp : s.procs pid = .infer call) (hret : Did s s' pid (.returned out))
    (hstored : ∃ t, ⟨pid, t, .cacheStored (svc.makeKey call.req)⟩ ∈ s.log) :
    (∀ e, out ≠ .error e) ↔
      (∀ t op err, ⟨pid, t, .redisError op err⟩ ∈ s.log → err = .connectionError) ∧
      ∀ t body, ⟨pid, t, .providerEnd call.req (HttpLLMAdapter.infer body)⟩ ∈ s.log →
        TextContent body := by
  obtain ⟨hfound, ⟨done, result, hdone, hpart⟩, hclosed⟩ :=
    answered_of_stored hs.any hstep hp hret hstored
  obtain ⟨hending, hfailing⟩ := ending_of_returned hs.any hstep hp hret hclosed
  obtain ⟨t, hmem⟩ := exists_providerEnd hpart
  -- the result in the log before the last turn is the one the call ends with
  have hsame : ∀ {r}, providerEvents (own pid s'.log) =
      resultEvents svc call.req r ++ [.providerStart call.req] → r = .ok result := by
    intro r hpart'
    exact (eq_of_providerEnd hpart' ((extends_step hstep).log _ hmem)).symm
  cases hending with
  | cached hvalue => cases hfound.symm.trans hvalue
  | @redisError e _ hfail =>
    refine iff_of_false (fun h => h e rfl) fun h => ?_
    obtain ⟨t, op, err, hred, hne⟩ := hfailing.mp hfail
    exact hne (h.1 t op err hred)
  | providerError _ _ hpart' => cases hsame hpart'
  | unusable _ _ hpart' hnot =>
    cases hsame hpart'
    exact absurd hdone (hnot done)
  | @completed _ done' _ hno hpart' hdone' =>
    cases hsame hpart'
    -- the completion it wrote is the one it ends with
    obtain rfl := hdone.unique hdone'
    have hconnection : ∀ t op err, ⟨pid, t, .redisError op err⟩ ∈ s.log →
        err = .connectionError := by
      intro t op err hred
      by_contra hne
      exact hno (hfailing.mpr ⟨t, op, err, hred, hne⟩)
    rw [and_iff_right hconnection]
    constructor
    · intro hok t' body hbody
      have hresult := eq_of_providerEnd hpart hbody
      rw [TextContent, ← presentable_iff_of_infer hresult hdone]
      cases hresp : buildResponse svc s.now call done.output (.str call.req.model)
          done.usage.toJson false with
      | error e => exact absurd hresp (hok e)
      | ok resp => exact (serves_of_buildResponse hdone hresp).1
    · intro hall
      obtain ⟨body, hbody⟩ := body_of_providerEnd hs hmem
      have hpresentable := (presentable_iff_of_infer hbody hdone).mpr (hall t body (hbody ▸ hmem))
      obtain ⟨resp, hresp, -⟩ :=
        exists_buildResponse call.req hpresentable (Reachable.startedInPast hs.any pid call hp)
          false
      intro e he
      cases hresp.symm.trans he

/-- **When a failing call leaves the cache as it was.** It does exactly if, where its entry was
stored, every Redis error it met was a `ConnectionError` and the content of its message is a
string. And an entry makes a valid response for its readers exactly if that content is. -/
theorem failing_infer_leaves_cache_iff (svc : InferenceService) (s : Gateway) (hs : HttpRun svc s) :
    (∀ (a : Action) (s' : Gateway) (pid : ℕ) (call : InferCall) (out : Except Exn InferResponse),
      step svc s a = some s' → s.procs pid = .infer call → Did s s' pid (.returned out) →
        ((∀ e, out = .error e → ∀ t, ⟨pid, t, .cacheStored (svc.makeKey call.req)⟩ ∉ s'.log) ↔
          ((∃ t, ⟨pid, t, .cacheStored (svc.makeKey call.req)⟩ ∈ s.log) →
            (∀ t op err, ⟨pid, t, .redisError op err⟩ ∈ s.log → err = .connectionError) ∧
            ∀ t body, ⟨pid, t, .providerEnd call.req (HttpLLMAdapter.infer body)⟩ ∈ s.log →
              TextContent body))) ∧
    ∀ req cell, s.redis (svc.makeKey req) = some cell →
      ∃ writer t req' body, ⟨writer, t, .providerEnd req' (HttpLLMAdapter.infer body)⟩ ∈ s.log ∧
        svc.makeKey req' = svc.makeKey req ∧
        ((∀ reader : InferCall, reader.t0 ≤ s.now →
          ∃ resp, respondCached svc s.now reader cell.value.value = .ok resp) ↔
            TextContent body) := by
  refine ⟨fun a s' pid call out hstep hp hret => ?_,
    fun req cell hcell => stored_valid_iff hs hcell⟩
  by_cases hstored : ∃ t, ⟨pid, t, .cacheStored (svc.makeKey call.req)⟩ ∈ s.log
  -- a stored entry stays in the log, so the call leaves the cache as it was only by ending well
  · obtain ⟨t, hmem⟩ := hstored
    rw [← ends_well_iff hs hstep hp hret ⟨t, hmem⟩]
    constructor
    · intro hleaves _ e he
      exact hleaves e he t ((extends_step hstep).log _ hmem)
    · intro hok e he
      exact absurd he (hok ⟨t, hmem⟩ e)
  · refine iff_of_true (fun e _ t hmem => hstored ⟨t, ?_⟩) fun h => absurd h hstored
    exact not_stored_of_returned hstep hret hmem

/-- A successful response without content. -/
def nullBody : Json :=
  .obj [("choices", .arr [.obj [("message", .obj [("content", .null)])]])]

/-- A successful response. -/
def textBody : Json :=
  .obj [("choices", .arr [.obj [("message", .obj [("content", .str "hello")])]]),
    ("usage", .obj [("prompt_tokens", .num (.int 2)), ("completion_tokens", .num (.int 10))])]

/-- What the adapter makes of a body with no usage. -/
def nullResult : Json :=
  .obj [("output", .null), ("usage", .obj [("prompt_tokens", .num (.int 0)),
    ("completion_tokens", .num (.int 0)), ("total_tokens", .num (.int 0))])]

def textResult : Json :=
  .obj [("output", .str "hello"), ("usage", .obj [("prompt_tokens", .num (.int 2)),
    ("completion_tokens", .num (.int 10)), ("total_tokens", .num (.int 12))])]

/-- A leader up to its last turn. -/
def leaderWith (result : Json) : List Action :=
  [.infer 0 "a" sampleRequest, .redis 0 .ok, .input 0 .resume, .redis 0 .ok, .input 0 .resume,
    .input 0 (.adapter (.ok result)), .redis 0 .ok, .input 0 .resume, .redis 0 .ok]

lemma httpRun_leaderWith {body result : Json} (hbody : HttpLLMAdapter.infer body = .ok result) :
    HttpRun sample (after sample (leaderWith result)) := by
  refine run_after sample fun a ha => ?_
  simp only [leaderWith, List.mem_cons, List.not_mem_nil, or_false] at ha
  rcases ha with rfl | rfl | rfl | rfl | rfl | rfl | rfl | rfl | rfl
  case inr.inr.inr.inr.inr.inl => exact ⟨body, hbody⟩
  all_goals trivial

/-- Request `pid` has stored an entry. -/
def storedIn (pid : ℕ) (log : Log) : Bool :=
  log.any fun entry =>
    match entry with
    | ⟨pid', _, .cacheStored _⟩ => pid' = pid
    | _ => false

lemma exists_of_storedIn {log : Log} (h : storedIn pid log = true) :
    ∃ t key, ⟨pid, t, .cacheStored key⟩ ∈ log := by
  obtain ⟨entry, hmem, hentry⟩ := List.any_eq_true.mp h
  split at hentry
  · rw [decide_eq_true_eq] at hentry
    exact ⟨_, _, hentry ▸ hmem⟩
  · cases hentry

/-- The request fails, and its entry stays. -/
theorem null_content_stays_in_cache :
    ¬ ∀ (svc : InferenceService) (s : Gateway), HttpRun svc s →
      ∀ (a : Action) (s' : Gateway) (pid : ℕ) (call : InferCall) (out : Except Exn InferResponse),
        step svc s a = some s' → s.procs pid = .infer call → Did s s' pid (.returned out) →
          ∀ e, out = .error e → ∀ t, ⟨pid, t, .cacheStored (svc.makeKey call.req)⟩ ∉ s'.log := by
  intro hall
  have hbody : HttpLLMAdapter.infer nullBody = .ok nullResult := rfl
  have hrun := httpRun_leaderWith hbody
  have hstep : step sample (after sample (leaderWith nullResult)) (.input 0 .resume) =
      some (after sample (leaderWith nullResult ++ [.input 0 .resume])) :=
    step_after (by decide +kernel)
  have hret : Did (after sample (leaderWith nullResult))
      (after sample (leaderWith nullResult ++ [.input 0 .resume])) 0
      (.returned (.error .validationError)) := did_of_mem_outcomes hstep (by decide +kernel)
  have hstored : storedIn 0 (after sample (leaderWith nullResult)).log = true := by decide +kernel
  obtain ⟨call, hp⟩ : ∃ call, (after sample (leaderWith nullResult)).procs 0 = .infer call :=
    ⟨_, rfl⟩
  obtain ⟨t, key, hmem⟩ := exists_of_storedIn hstored
  have hown := Reachable.ownInv hrun.any 0
  rw [hp] at hown
  obtain ⟨rfl, -⟩ := InferRun.stored hown (happened_own.mpr ⟨t, hmem⟩)
  exact hall sample _ hrun _ _ 0 call _ hstep hp hret _ rfl t ((extends_step hstep).log _ hmem)

/-- The provider's results in a log have a string as their output. -/
def textOutputs (log : Log) : Bool :=
  log.all fun entry =>
    match entry.event with
    | .providerEnd _ (.ok (.obj (("output", .str _) :: _))) => true
    | .providerEnd _ _ => false
    | _ => true

lemma textContent_of_textOutputs {log : Log} (h : textOutputs log = true) {t : ℚ}
    {req : InferRequest} {body : Json}
    (hmem : ⟨pid, t, .providerEnd req (HttpLLMAdapter.infer body)⟩ ∈ log) : TextContent body := by
  have hentry := List.all_eq_true.mp h _ hmem
  cases hbody : HttpLLMAdapter.infer body with
  | error e =>
    rw [hbody] at hentry
    cases hentry
  | ok result =>
    obtain ⟨output, _, _, _, hcontent, rfl⟩ := infer_eq_ok hbody
    rw [hbody] at hentry
    cases output with
    | str text => exact ⟨text, hcontent⟩
    | _ => cases hentry

/-- The entry of a request that was answered with a text serves its readers. -/
theorem failing_infer_leaves_cache_iff_textBody :
    ∃ cell, (after sample (leaderWith textResult)).redis (sample.makeKey sampleRequest) =
      some cell ∧ ∀ reader : InferCall, reader.t0 ≤ (after sample (leaderWith textResult)).now →
        ∃ resp, respondCached sample (after sample (leaderWith textResult)).now reader
          cell.value.value = .ok resp := by
  have hbody : HttpLLMAdapter.infer textBody = .ok textResult := rfl
  have hsome : ((after sample (leaderWith textResult)).redis
      (sample.makeKey sampleRequest)).isSome = true := by decide +kernel
  have htext : textOutputs (after sample (leaderWith textResult)).log = true := by decide +kernel
  obtain ⟨cell, hcell⟩ := Option.isSome_iff_exists.mp hsome
  obtain ⟨_, _, _, _, hmem, -, hvalid⟩ := (failing_infer_leaves_cache_iff sample _
    (httpRun_leaderWith hbody)).2 sampleRequest cell hcell
  exact ⟨cell, hcell, hvalid.mpr (textContent_of_textOutputs htext hmem)⟩

end Gateway

end InferenceApi
