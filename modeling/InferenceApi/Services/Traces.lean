import InferenceApi.Services.StreamingService

/-!
# What a stream does, in its order

The events of a stream, oldest first, are the trace of its generator. `Traced` lists all the
traces there are, by the place at which the generator is suspended; `StreamRun.traced` says
that no run has another one, whatever the breaker, the adapter and the client do.
-/

namespace InferenceApi

/-- The frame an event sends. -/
def Event.frame? : Event → Option Frame
  | .yielded frame => some frame
  | _ => none

/-- The audit record an event dispatches. -/
def Event.audit? : Event → Option (StreamStatus × List String)
  | .audited status tokens => some (status, tokens)
  | _ => none

/-- The token in a frame. -/
def Frame.token? : Frame → Option String
  | .token chunk _ => some chunk
  | _ => none

namespace StreamingService

/-! ## Traces -/

/-- The events of a log, oldest first. -/
def trace (own : Log) : List Event := (own.map Entry.event).reverse

/-- The frames among the events of a stream, in their order. -/
def frames (own : Log) : List Frame :=
  (own.filterMap fun entry =>
    match entry.event with
    | .yielded frame => some frame
    | _ => none).reverse

/-- The arguments of the calls of `_audit_log`. -/
def audits (own : Log) : List (StreamStatus × List String) := (trace own).filterMap Event.audit?

/-- The tokens whose frames the consumer was given. -/
def delivered (own : Log) : List String := (frames own).filterMap Frame.token?

lemma mem_frames {own : Log} {frame : Frame} :
    frame ∈ frames own ↔ Happened own (.yielded frame) := by
  rw [frames, List.mem_reverse, List.mem_filterMap, Happened]
  constructor
  · intro hmem
    obtain ⟨entry, hentry, hframe⟩ := hmem
    refine ⟨entry, hentry, ?_⟩
    split at hframe
    · next he =>
      cases hframe
      exact he
    · cases hframe
  · intro hhappened
    obtain ⟨entry, hentry, he⟩ := hhappened
    exact ⟨entry, hentry, by rw [he]⟩

lemma frames_eq_filterMap (own : Log) : frames own = (trace own).filterMap Event.frame? := by
  rw [frames, trace, List.filterMap_reverse, List.filterMap_map]
  rfl

lemma mem_trace {own : Log} {e : Event} : e ∈ trace own ↔ Happened own e := by
  rw [trace, List.mem_reverse, List.mem_map, Happened]

lemma trace_stamp_append (pid : ℕ) (now : ℚ) (es : List Event) (own : Log) :
    trace (stamp pid now es ++ own) = trace own ++ es.reverse := by
  have hes : (stamp pid now es).map Entry.event = es := by
    rw [stamp, List.map_map]
    exact List.map_id es
  rw [trace, List.map_append, hes, List.reverse_append, trace]

/-! ## Token events -/

/-- The frames of tokens, numbered from zero. -/
def tokenFrames (tokens : List String) : List Frame :=
  tokens.zipIdx.map fun token => .token token.1 token.2

/-- An admitted stream that has sent these tokens. -/
def relayed (req : InferRequest) (tokens : List String) : List Event :=
  .isOpen false :: .providerStart req :: (tokenFrames tokens).map .yielded

variable {req : InferRequest} {tokens : List String}

lemma tokenFrames_append (tokens : List String) (chunk : String) :
    tokenFrames (tokens ++ [chunk]) = tokenFrames tokens ++ [.token chunk tokens.length] := by
  rw [tokenFrames, List.zipIdx_append, List.map_append, Nat.zero_add]
  rfl

lemma relayed_append (req : InferRequest) (tokens : List String) (chunk : String) :
    relayed req (tokens ++ [chunk]) =
      relayed req tokens ++ [.yielded (.token chunk tokens.length)] := by
  rw [relayed, tokenFrames_append, List.map_append]
  rfl

/-- The tokens are read back off their frames. -/
lemma filterMap_token?_tokenFrames (tokens : List String) :
    (tokenFrames tokens).filterMap Frame.token? = tokens := by
  have hsome : Frame.token? ∘ (fun token : String × ℕ => Frame.token token.1 token.2) =
      some ∘ Prod.fst := by
    funext token
    rfl
  rw [tokenFrames, List.filterMap_map, hsome, List.filterMap_eq_map, List.zipIdx_map_fst]

lemma filterMap_frame?_relayed (req : InferRequest) (tokens : List String) :
    (relayed req tokens).filterMap Event.frame? = tokenFrames tokens := by
  have hsome : Event.frame? ∘ Event.yielded = some := by
    funext frame
    rfl
  rw [relayed, List.filterMap_cons_none rfl, List.filterMap_cons_none rfl, List.filterMap_map,
    hsome, List.filterMap_some]

lemma filterMap_audit?_relayed (req : InferRequest) (tokens : List String) :
    (relayed req tokens).filterMap Event.audit? = [] := by
  rw [List.filterMap_eq_nil_iff]
  intro e he
  rcases List.mem_cons.mp he with rfl | he
  · rfl
  rcases List.mem_cons.mp he with rfl | he
  · rfl
  obtain ⟨frame, -, rfl⟩ := List.mem_map.mp he
  rfl

/-! ## All traces -/

/-- How an admitted stream concludes: what it does after its last token, the status of its
audit record, and what it returns or raises. -/
inductive Conclusion : List Event → StreamStatus → Except Exn Unit → Prop
  | disconnected : Conclusion [] .cancelled (.ok ())
  | cancelled : Conclusion [] .cancelled (.error .cancelledError)
  | done : Conclusion [.recordSuccess, .yielded .done] .success (.ok ())
  | timeout : Conclusion [.recordFailure, .yielded .timeout] .timeout (.ok ())
  | upstreamError : Conclusion [.recordFailure, .yielded .upstreamError] .upstreamError (.ok ())
  | failed {e : Exn} : e ≠ .cancelledError → e ≠ .timeoutError →
      (∀ statusCode, e ≠ .upstreamProviderError statusCode) →
      Conclusion [.recordFailure] .error (.error e)

/-- The traces of a stream, by its place. -/
inductive Traced (req : InferRequest) : Status → List Event → Prop
  | created : Traced req .created []
  | atRejection (retryAfterS : ℤ) :
      Traced req .atRejection [.isOpen true, .yielded (.rejected retryAfterS)]
  | awaitChunk (tokens : List String) :
      Traced req (.awaitChunk tokens tokens.length) (relayed req tokens)
  | awaitPoll (chunk : String) (tokens : List String) :
      Traced req (.awaitPoll chunk tokens tokens.length) (relayed req tokens)
  /-- The token of the frame is not in `tokens` yet. -/
  | atToken (chunk : String) (tokens : List String) :
      Traced req (.atToken chunk tokens tokens.length) (relayed req (tokens ++ [chunk]))
  | atDone (tokens : List String) :
      Traced req (.atDone tokens) (relayed req tokens ++ [.recordSuccess, .yielded .done])
  | atTimeout (tokens : List String) :
      Traced req (.atError .timeout tokens)
        (relayed req tokens ++ [.recordFailure, .yielded .timeout])
  | atUpstreamError (tokens : List String) :
      Traced req (.atError .upstreamError tokens)
        (relayed req tokens ++ [.recordFailure, .yielded .upstreamError])
  | unstarted : Traced req (.finished (.ok ())) [.streamEnded (.ok ())]
  | rejected (retryAfterS : ℤ) :
      Traced req (.finished (.ok ()))
        [.isOpen true, .yielded (.rejected retryAfterS), .streamEnded (.ok ())]
  | concluded (tokens : List String) {es : List Event} {status : StreamStatus}
      {out : Except Exn Unit} : Conclusion es status out →
      Traced req (.finished out)
        (relayed req tokens ++ (es ++ [.audited status tokens, .streamEnded out]))
  /-- Closed at a token: the consumer has its frame, the record does not have it. -/
  | closed (chunk : String) (tokens : List String) :
      Traced req (.finished (.ok ()))
        (relayed req (tokens ++ [chunk]) ++ [.audited .cancelled tokens, .streamEnded (.ok ())])

section Run

variable {c : CircuitBreaker.Config} {pid : ℕ} {now : ℚ} {cb : CircuitBreaker}
  {call : StreamCall} {own : Log}
  {t : List Event} {input : Input} {b : Block Status}

lemma traced_handle (tokens : List String) (e : Exn) :
    Traced req (handle c now cb tokens e).status
      (relayed req tokens ++ (handle c now cb tokens e).events.reverse) := by
  unfold handle
  split
  · exact .concluded tokens .cancelled
  · exact .atTimeout tokens
  · exact .atUpstreamError tokens
  · next hcancelled htimeout hupstream =>
    exact .concluded tokens (.failed hcancelled htimeout hupstream)

lemma traced_concluded {es : List Event} {status : StreamStatus} {out : Except Exn Unit}
    (h : Conclusion es status out) : Traced req (.finished out)
      (relayed req tokens ++ es ++ [.audited status tokens, .streamEnded out]) := by
  rw [List.append_assoc]
  exact .concluded tokens h

/-- One turn. -/
theorem traced_run (h : Traced call.req call.status t) (hb : call.run c now cb input = some b) :
    Traced call.req b.status (t ++ b.events.reverse) := by
  obtain ⟨req, status⟩ := call
  dsimp only at h ⊢
  cases h with
  | created =>
    cases input with
    | pull =>
      cases hb
      unfold start
      dsimp only
      split
      · next hopen =>
        rw [hopen]
        exact .atRejection _
      · next hopen =>
        rw [Bool.not_eq_true] at hopen
        rw [hopen]
        exact .awaitChunk []
    | close => cases hb; exact .unstarted
    | _ => cases hb
  | atRejection retryAfterS =>
    cases input with
    | pull => cases hb; exact .rejected retryAfterS
    | close => cases hb; exact .rejected retryAfterS
    | _ => cases hb
  | awaitChunk tokens =>
    cases input with
    | chunk chunk =>
      cases chunk with
      | none => cases hb; exact .atDone tokens
      | some chunk =>
        cases hb
        rw [List.reverse_nil, List.append_nil]
        exact .awaitPoll chunk tokens
    | raise e => cases hb; exact traced_handle tokens e
    | _ => cases hb
  | awaitPoll chunk tokens =>
    cases input with
    | poll disconnected =>
      cases disconnected with
      | true => cases hb; exact .concluded tokens .disconnected
      | false =>
        cases hb
        have htoken : Traced req _ _ := .atToken chunk tokens
        rw [relayed_append] at htoken
        exact htoken
    | raise e => cases hb; exact traced_handle tokens e
    | _ => cases hb
  | atToken chunk tokens =>
    cases input with
    | pull =>
      cases hb
      have hnext : Traced req _ _ := .awaitChunk (tokens ++ [chunk])
      rw [List.length_append, List.length_singleton] at hnext
      rw [List.reverse_nil, List.append_nil]
      exact hnext
    | close => cases hb; exact .closed chunk tokens
    | _ => cases hb
  -- draining and closing are the same from here on: the outcome is settled
  | atDone tokens =>
    cases input with
    | pull => cases hb; exact traced_concluded .done
    | close => cases hb; exact traced_concluded .done
    | _ => cases hb
  | atTimeout tokens =>
    cases input with
    | pull => cases hb; exact traced_concluded .timeout
    | close => cases hb; exact traced_concluded .timeout
    | _ => cases hb
  | atUpstreamError tokens =>
    cases input with
    | pull => cases hb; exact traced_concluded .upstreamError
    | close => cases hb; exact traced_concluded .upstreamError
    | _ => cases hb
  | _ => cases hb

/-- **The traces of a stream.** Every run of it has one of them. -/
theorem StreamRun.traced (h : StreamRun c pid call own) :
    Traced call.req call.status (trace own) := by
  induction h with
  | create => exact .created
  | run _ hb ih =>
    rw [trace_stamp_append]
    have hturn := traced_run ih hb
    exact hturn

end Run

end StreamingService
end InferenceApi
