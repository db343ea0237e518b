import InferenceApi.Gateway.Uncached
import InferenceApi.Lib.Simulation
import InferenceApi.Services.Traces
import InferenceApi.StubAdapter

/-!
# The gateway with the stub adapter

What clients see of the application as it is shipped: every response echoes its own request,
cached or not, and every stream that is recorded as a success has sent the ten tokens.
-/

namespace InferenceApi
namespace Gateway

open Transition StreamingService Words

/-- In `s` the action is one the stub can cause. What Redis, the clients and the clock do is
free, and a request may be cancelled while it waits. -/
def FedBy (stub : StubLLMAdapter) (s : Gateway) : Action → Prop
  | .input pid (.adapter result) => ∀ call, s.procs pid = .infer call →
    result = .error .cancelledError ∨
      ∃ draw, 0 ≤ draw ∧ draw < 1 ∧ result = stub.infer draw call.req.input
  | .streamInput pid (.chunk chunk) => ∀ call given index, s.procs pid = .stream call →
    call.status = .awaitChunk given index →
      ∃ draw, 0 ≤ draw ∧ draw < 1 ∧ stub.stream draw given.length = .ok chunk
  | .streamInput pid (.raise e) => ∀ call given index, s.procs pid = .stream call →
    call.status = .awaitChunk given index → e = .cancelledError ∨
      ∃ draw, 0 ≤ draw ∧ draw < 1 ∧ stub.stream draw given.length = .error e
  | _ => True

/-- The tokens of a stream are the stub's. -/
def OfStub : StreamingService.Status → Prop
  | .awaitChunk given _ => given <+: StubLLMAdapter.tokens
  | .awaitPoll chunk given _ => given ++ [chunk] <+: StubLLMAdapter.tokens
  | .atToken chunk given _ => given ++ [chunk] <+: StubLLMAdapter.tokens
  | .atDone given => given = StubLLMAdapter.tokens
  | .atError status given => status ≠ .success ∧ given <+: StubLLMAdapter.tokens
  | _ => True

/-- What is recorded of a stream are tokens of the stub, and all of them if it succeeded. -/
def RecordOfStub (e : Event) : Prop :=
  ∀ status given, e = .audited status given → given <+: StubLLMAdapter.tokens ∧
    (status = .success → given = StubLLMAdapter.tokens)

variable {stub : StubLLMAdapter} {svc : InferenceService} {s s' : Gateway} {a : Action} {pid : ℕ}

/-! ## Responses -/

/-- The response to an answer of the stub. -/
lemma of_direct_answer {now : ℚ} {call : InferCall} {input : String} {resp : InferResponse}
    (h : direct svc now call (StubLLMAdapter.answer input) = .ok resp) :
    resp.output = "[stub] " ++ input ∧ resp.model = call.req.model ∧
      resp.usage =
        [("tokens_in", ((words isSpace input.toList).length : ℤ)), ("tokens_out", 10)] := by
  unfold direct at h
  obtain ⟨usage, husage, h⟩ := bind_eq_ok.mp h
  obtain ⟨-, -, h⟩ := bind_eq_ok.mp h
  obtain ⟨output, houtput, h⟩ := bind_eq_ok.mp h
  obtain ⟨-, hout, hmodel, hints, -⟩ := InferResponse.validate_eq_ok h
  have husage' : usage = ⟨.num (.int (words isSpace input.toList).length), .num (.int 10)⟩ :=
    (Except.ok.inj husage).symm
  have houtput' : output = .str ("[stub] " ++ input) := (Except.ok.inj houtput).symm
  refine ⟨?_, (Json.str.inj hmodel).symm, ?_⟩
  · exact (Json.str.inj (houtput'.symm.trans hout)).symm
  · rw [husage'] at hints
    simp [parseUsage, Usage.toJson, svc.ints.parse_int] at hints
    exact hints.symm

/-! ## Streams -/

section Turn

variable {c : CircuitBreaker.Config} {now : ℚ} {cb : CircuitBreaker} {given : List String}

lemma recordOfStub_finish {es : List Event} {status : StreamStatus} {out : Except Exn Unit}
    (hes : ∀ e ∈ es, RecordOfStub e) (hgiven : given <+: StubLLMAdapter.tokens)
    (hsuccess : status = .success → given = StubLLMAdapter.tokens) :
    ∀ e ∈ (StreamingService.finish cb es status given out).events, RecordOfStub e := by
  refine List.forall_mem_cons.mpr ⟨?_, List.forall_mem_cons.mpr ⟨?_, hes⟩⟩
  · intro status' given' heq
    cases heq
  · intro status' given' heq
    cases heq
    exact ⟨hgiven, hsuccess⟩

/-- However the stub's stream is broken off, what was relayed is recorded, and as no success. -/
lemma ofStub_handle (hgiven : given <+: StubLLMAdapter.tokens) (e : Exn) :
    OfStub (handle c now cb given e).status ∧
      ∀ event ∈ (handle c now cb given e).events, RecordOfStub event := by
  unfold handle
  split
  · exact ⟨trivial, recordOfStub_finish (List.forall_mem_nil _) hgiven StreamStatus.noConfusion⟩
  · exact ⟨⟨StreamStatus.noConfusion, hgiven⟩, by simp [RecordOfStub]⟩
  · exact ⟨⟨StreamStatus.noConfusion, hgiven⟩, by simp [RecordOfStub]⟩
  · refine ⟨trivial, recordOfStub_finish ?_ hgiven StreamStatus.noConfusion⟩
    simp [RecordOfStub]

/-- A turn of a stream that is fed by the stub. -/
lemma ofStub_run {call : StreamCall} {input : StreamingService.Input}
    {b : Block StreamingService.Status} (h : OfStub call.status)
    (hfed : FedBy stub s (.streamInput pid input)) (hp : s.procs pid = .stream call)
    (hb : call.run c now cb input = some b) :
    OfStub b.status ∧ ∀ e ∈ b.events, RecordOfStub e := by
  obtain ⟨req, status⟩ := call
  unfold StreamCall.run at hb
  dsimp only at h hb
  split at hb
  case h_1 =>
    cases hb
    unfold start
    dsimp only
    split
    · exact ⟨trivial, by simp [RecordOfStub]⟩
    · exact ⟨List.nil_prefix, by simp [RecordOfStub]⟩
  -- the stub yields its next token, has no more of them, or raises
  case h_5 given index chunk =>
    cases hb
    obtain ⟨draw, -, -, hchunk⟩ := hfed _ _ _ hp rfl
    exact ⟨StubLLMAdapter.prefix_of_stream h hchunk, List.forall_mem_nil _⟩
  case h_6 given index =>
    cases hb
    obtain ⟨draw, -, -, hchunk⟩ := hfed _ _ _ hp rfl
    exact ⟨StubLLMAdapter.eq_tokens_of_stream h hchunk, by simp [RecordOfStub]⟩
  case h_7 => cases hb; exact ofStub_handle h _
  -- the chunk in hand was not relayed
  case h_8 =>
    cases hb
    have hgiven := (List.prefix_append _ _).trans h
    exact ⟨trivial, recordOfStub_finish (List.forall_mem_nil _) hgiven StreamStatus.noConfusion⟩
  case h_9 => cases hb; exact ⟨h, by simp [RecordOfStub]⟩
  case h_10 => cases hb; exact ofStub_handle ((List.prefix_append _ _).trans h) _
  case h_11 => cases hb; exact ⟨h, List.forall_mem_nil _⟩
  case h_12 =>
    cases hb
    have hgiven := (List.prefix_append _ _).trans h
    exact ⟨trivial, recordOfStub_finish (List.forall_mem_nil _) hgiven StreamStatus.noConfusion⟩
  case h_13 =>
    cases hb
    exact ⟨trivial, recordOfStub_finish (List.forall_mem_nil _) (h ▸ List.prefix_rfl) fun _ => h⟩
  case h_14 =>
    cases hb
    exact ⟨trivial, recordOfStub_finish (List.forall_mem_nil _) (h ▸ List.prefix_rfl) fun _ => h⟩
  case h_15 =>
    cases hb
    exact ⟨trivial, recordOfStub_finish (List.forall_mem_nil _) h.2 fun heq => absurd heq h.1⟩
  case h_16 =>
    cases hb
    exact ⟨trivial, recordOfStub_finish (List.forall_mem_nil _) h.2 fun heq => absurd heq h.1⟩
  case h_17 => cases hb
  -- the stream was not started, or rejected
  all_goals
    cases hb
    exact ⟨trivial, by simp [RecordOfStub]⟩

end Turn

/-- All streams and all records are the stub's. -/
structure StubInv (s : Gateway) : Prop where
  streams : ∀ pid call, s.procs pid = .stream call → OfStub call.status
  records : ∀ entry ∈ s.log, RecordOfStub entry.event

/-- What `infer` and Redis do is not recorded as a stream. -/
lemma recordOfStub_of_not_audited {e : Event} (h : ∀ status given, e ≠ .audited status given) :
    RecordOfStub e := fun status given heq => absurd heq (h status given)

lemma StubInv.act {proc : Proc} {redis : Redis} {cb : CircuitBreaker} {es : List Event}
    (hinv : StubInv s) (hproc : ∀ call, proc = .stream call → OfStub call.status)
    (hes : ∀ e ∈ es, RecordOfStub e) : StubInv (s.act pid proc redis cb es) where
  streams pid' call hp := by
    rcases act_procs_cases hp with ⟨-, h⟩ | ⟨-, h⟩
    · exact hproc call h
    · exact hinv.streams pid' call h
  records entry hentry := by
    rcases List.mem_append.mp hentry with hnew | hold
    · exact hes _ (mem_stamp.mp hnew).2.2
    · exact hinv.records entry hold

lemma stubInv_step (hinv : StubInv s) (hfed : FedBy stub s a) (h : step svc s a = some s') :
    StubInv s' := by
  cases step_move h with
  | tick => exact ⟨hinv.streams, hinv.records⟩
  | infer => exact hinv.act (fun _ h => by cases h) (List.forall_mem_nil _)
  | stream =>
    refine hinv.act (fun call h => ?_) (List.forall_mem_nil _)
    cases h
    trivial
  | redis hp hx =>
    refine hinv.act (fun _ h => by cases h) fun e he => recordOfStub_of_not_audited ?_
    rintro status given rfl
    cases exec_event hx he
  | input hp hb =>
    refine hinv.act (fun _ h => by cases h) fun e he => recordOfStub_of_not_audited ?_
    rintro status given rfl
    cases run_event hb _ he
  | streamInput hp hb =>
    obtain ⟨hstatus, hrecords⟩ := ofStub_run (hinv.streams _ _ hp) hfed hp hb
    refine hinv.act (fun call h => ?_) hrecords
    cases h
    exact hstatus

theorem stubInv_of_run (hs : Run (step svc) (FedBy stub) init s) : StubInv s := by
  have hinit : StubInv init := ⟨fun _ _ hp => (by cases hp), List.forall_mem_nil _⟩
  exact hs.invariant hinit fun _ _ _ hinv hfed hstep => stubInv_step hinv hfed hstep

/-- A stream that is recorded as a success has sent what it is recorded with, and the end. -/
lemma frames_of_success {c : CircuitBreaker.Config} {call : StreamCall} {own : Log}
    {given : List String} (h : StreamRun c pid call own) (hmem : (.success, given) ∈ audits own) :
    frames own = tokenFrames given ++ [.done] := by
  rw [frames_eq_filterMap]
  rw [audits] at hmem
  have htraced := h.traced
  generalize trace own = t at htraced hmem
  have hrelayed : ∀ tokens es, (.success, given) ∈ (relayed call.req tokens ++ es).filterMap
      Event.audit? → (.success, given) ∈ es.filterMap Event.audit? := by
    intro tokens es hmem
    rw [List.filterMap_append, filterMap_audit?_relayed] at hmem
    exact hmem
  generalize call.status = status at htraced
  cases htraced with
  | concluded tokens hes =>
    have hlast := hrelayed _ _ hmem
    rw [List.filterMap_append, filterMap_frame?_relayed]
    cases hes with
    | done =>
      simp [Event.audit?] at hlast
      rw [hlast]
      rfl
    | _ => simp [Event.audit?] at hlast
  | closed chunk tokens =>
    have hlast := hrelayed _ _ hmem
    simp [Event.audit?] at hlast
  | awaitChunk tokens =>
    rw [filterMap_audit?_relayed] at hmem
    cases hmem
  | awaitPoll chunk tokens =>
    rw [filterMap_audit?_relayed] at hmem
    cases hmem
  | atToken chunk tokens =>
    rw [filterMap_audit?_relayed] at hmem
    cases hmem
  | atDone tokens =>
    have hlast := hrelayed _ _ hmem
    simp [Event.audit?] at hlast
  | atTimeout tokens =>
    have hlast := hrelayed _ _ hmem
    simp [Event.audit?] at hlast
  | atUpstreamError tokens =>
    have hlast := hrelayed _ _ hmem
    simp [Event.audit?] at hlast
  | _ => simp [Event.audit?] at hmem

/-- **The shipped application answers every request with its own echo.** In every run in which the
adapter is the stub, with any failure rate, whatever Redis, the clients and the clock do: a
response, cached, waited for or fresh, has the text, the model and the number of words of the
very request it answers; and what is recorded of a stream is the beginning of the ten tokens, all
of them if it is recorded as a success, and then the client was sent them all, in order, and the
end. -/
theorem stub_served (stub : StubLLMAdapter) (svc : InferenceService) (s : Gateway)
    (hs : Run (step svc) (FedBy stub) init s) (hcoll : CollisionFree svc s) :
    (∀ s' a pid call resp, FedBy stub s a → step svc s a = some s' → s.procs pid = .infer call →
      Did s s' pid (.returned (.ok resp)) →
        resp.output = "[stub] " ++ call.req.input ∧ resp.model = call.req.model ∧
          resp.usage = [("tokens_in", ((words isSpace call.req.input.toList).length : ℤ)),
            ("tokens_out", 10)]) ∧
    ∀ pid call, s.procs pid = .stream call →
      ∀ status given, (status, given) ∈ audits (own pid s.log) →
        given <+: StubLLMAdapter.tokens ∧ (status = .success →
          frames (own pid s.log) = tokenFrames StubLLMAdapter.tokens ++ [.done]) := by
  constructor
  · intro s' a pid call resp hfed hstep hp hret
    obtain ⟨writer, t, req, result, hend, hinput, -, hdirect⟩ :=
      direct_of_returned hs.any hcoll hstep hp hret
    have hanswer : result = StubLLMAdapter.answer req.input := by
      refine providerEnd_of_run (P := fun req result => result = StubLLMAdapter.answer req.input)
        (hs.tail hfed hstep) ?_ writer t req result hend
      intro s pid call result hfed hp
      rcases hfed call hp with hcancelled | ⟨draw, -, -, hresult⟩
      · cases hcancelled
      · exact StubLLMAdapter.eq_answer_of_infer hresult.symm
    rw [hanswer, hinput] at hdirect
    have hechoed := of_direct_answer hdirect
    exact hechoed
  · intro pid call hp status given hmem
    have hrun := Reachable.ownInv hs.any pid
    rw [hp] at hrun
    obtain ⟨e, he, haudit⟩ := List.mem_filterMap.mp hmem
    have haudited : e = .audited status given := by
      cases e <;> cases haudit
      rfl
    obtain ⟨entry, hentry, rfl⟩ := mem_trace.mp he
    obtain ⟨hgiven, hsuccess⟩ :=
      (stubInv_of_run hs).records entry (mem_own.mp hentry).1 status given haudited
    refine ⟨hgiven, ?_⟩
    rintro rfl
    rw [frames_of_success hrun hmem, hsuccess rfl]

lemma answer_sampleRequest : StubLLMAdapter.answer sampleRequest.input = sampleResult := by rfl

/-- The action is about `sampleRequest`, and the adapter answers it. -/
def Action.Echoes : Action → Prop
  | .infer _ _ req => req = sampleRequest
  | .input _ (.adapter result) => result = .ok sampleResult
  | .stream _ _ => False
  | .streamInput _ _ => False
  | _ => True

/-- The stub answers like that when it does not fail. -/
lemma fedBy_of_echoes (h : Run (step svc) (fun _ a => a.Echoes) init s) (ha : a.Echoes) :
    FedBy {} s a := by
  have honly : Run (step svc) (fun _ a => a.OnlyFor sampleRequest) init s :=
    h.mono fun _ a ha => by cases a <;> first | exact ha | trivial
  cases a with
  | input pid input =>
    cases input with
    | adapter result =>
      intro call hp
      refine Or.inr ⟨0, le_rfl, one_pos, ?_⟩
      rw [eq_of_requested honly ⟨pid, call, hp, rfl⟩, StubLLMAdapter.infer,
        if_neg (lt_irrefl 0), answer_sampleRequest]
      exact ha
    | _ => trivial
  | streamInput => exact ha.elim
  | _ => trivial

theorem stub_served_servedFromCache :
    ∃ call, (after sample servedFromCache).procs 1 = .infer call ∧
      cachedResponse.output = "[stub] " ++ call.req.input := by
  have hechoes : ∀ a ∈ servedFromCache, a.Echoes := by simp [servedFromCache, Action.Echoes]
  have hrun := run_after sample hechoes
  have hreq : ∀ req, (after sample servedFromCache).Requested req → req = sampleRequest :=
    fun _ => eq_of_requested (hrun.mono fun _ a ha => by cases a <;> first | exact ha | trivial)
  have hdid : Did (after sample servedFromCache)
      (after sample (servedFromCache ++ [.input 1 .resume])) 1 (.returned (.ok cachedResponse)) :=
    did_of_mem_responses step_servedFromCache (by decide +kernel)
  obtain ⟨call, input, b, hp, -⟩ := turn_of_returned step_servedFromCache hdid
  refine ⟨call, hp, ((stub_served {} sample _ (hrun.mono_of_run fun _ _ => fedBy_of_echoes)
    (fun req req' h h' _ => ?_)).1 _ (.input 1 .resume) 1 call _ trivial step_servedFromCache hp
      hdid).1⟩
  rw [hreq req h, hreq req' h']

end Gateway
end InferenceApi
