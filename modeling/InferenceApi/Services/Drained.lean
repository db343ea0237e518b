import InferenceApi.Services.Audit

/-!
# A stream that is drained

The consumer asks for every frame. The adapter has a list of chunks and then ends or raises,
the polls of `is_disconnected` have their answers, and the breaker and the clock are what
other requests make of them: any breaker and any time at every turn.
-/

namespace InferenceApi
namespace StreamingService

open CircuitBreaker

/-- What a stream will be given: the adapter's chunks, how the adapter ends after them, and
the answers of the polls. -/
structure Feed where
  chunks : List String
  ending : Except Exn Unit
  answers : ℕ → Bool

/-- What resumes a stream next, if it goes on. -/
def Feed.next (feed : Feed) : Status → Option (Input × Feed)
  | .awaitChunk _ _ =>
    match feed.chunks, feed.ending with
    | chunk :: chunks, _ => some (.chunk (some chunk), { feed with chunks := chunks })
    | [], .ok () => some (.chunk none, feed)
    | [], .error e => some (.raise e, feed)
  | .awaitPoll _ _ _ =>
    some (.poll (feed.answers 0), { feed with answers := fun j => feed.answers (j + 1) })
  | .finished _ => none
  | _ => some (.pull, feed)

/-- A stream that is drained: what it will still be given, where it is, what it did. -/
structure Draining where
  feed : Feed
  call : StreamCall
  own : Log

/-- One turn. -/
def Draining.turn (c : Config) (pid : ℕ) (now : ℚ) (cb : CircuitBreaker) (d : Draining) :
    Draining :=
  match d.feed.next d.call.status with
  | none => d
  | some (input, feed) =>
    match d.call.run c now cb input with
    | none => d
    | some b => ⟨feed, { d.call with status := b.status }, stamp pid now b.events ++ d.own⟩

/-- The stream after its first turns. `env` has the time and the breaker of every turn. -/
def drained (c : Config) (pid : ℕ) (env : ℕ → ℚ × CircuitBreaker) (feed : Feed)
    (req : InferRequest) : ℕ → Draining
  | 0 => ⟨feed, ⟨req, .created⟩, []⟩
  | n + 1 => (drained c pid env feed req n).turn c pid (env n).1 (env n).2

/-! ## What it should do -/

/-- How many chunks come before the first poll that reports a disconnect. -/
def Feed.sentCount (feed : Feed) : ℕ :=
  ((List.range feed.chunks.length).takeWhile fun j => !feed.answers j).length

/-- What is done after the last token. -/
structure Closing where
  events : List Event
  status : StreamStatus
  out : Except Exn Unit

/-- How the adapter's ending is reported. -/
def closingOf : Except Exn Unit → Closing
  | .ok () => ⟨[.recordSuccess, .yielded .done], .success, .ok ()⟩
  | .error .timeoutError => ⟨[.recordFailure, .yielded .timeout], .timeout, .ok ()⟩
  | .error (.upstreamProviderError _) =>
    ⟨[.recordFailure, .yielded .upstreamError], .upstreamError, .ok ()⟩
  | .error .cancelledError => ⟨[], .cancelled, .error .cancelledError⟩
  | .error e => ⟨[.recordFailure], .error, .error e⟩

/-- A client that disconnects cuts the stream off without a frame. -/
def Feed.closing (feed : Feed) : Closing :=
  if feed.sentCount < feed.chunks.length then ⟨[], .cancelled, .ok ()⟩ else closingOf feed.ending

/-- A drained stream, at its end. -/
def Ended (req : InferRequest) (tokens : List String) (closing : Closing) (d : Draining) : Prop :=
  d.call.status = .finished closing.out ∧ trace d.own = relayed req tokens ++
    (closing.events ++ [.audited closing.status tokens, .streamEnded closing.out])

section Drained

variable {c : Config} {pid : ℕ} {env : ℕ → ℚ × CircuitBreaker} {feed : Feed} {req : InferRequest}

/-- Each poll decides about one chunk. -/
lemma sentCount_cons {chunk : String} {chunks : List String} {ending : Except Exn Unit}
    {answers : ℕ → Bool} : Feed.sentCount ⟨chunk :: chunks, ending, answers⟩ =
      if answers 0 then 0 else Feed.sentCount ⟨chunks, ending, fun j => answers (j + 1)⟩ + 1 := by
  unfold Feed.sentCount
  dsimp only
  rw [List.length_cons, List.range_succ_eq_map, List.takeWhile_cons]
  cases answers 0 with
  | true => rfl
  | false =>
    rw [List.takeWhile_map]
    simp only [Bool.not_false, if_true, List.length_cons, List.length_map]
    rfl

lemma closing_nil {ending : Except Exn Unit} {answers : ℕ → Bool} :
    Feed.closing ⟨[], ending, answers⟩ = closingOf ending := rfl

lemma closing_cons {chunk : String} {chunks : List String} {ending : Except Exn Unit}
    {answers : ℕ → Bool} : Feed.closing ⟨chunk :: chunks, ending, answers⟩ =
      if answers 0 then ⟨[], .cancelled, .ok ()⟩
      else Feed.closing ⟨chunks, ending, fun j => answers (j + 1)⟩ := by
  unfold Feed.closing
  rw [sentCount_cons]
  cases answers 0 with
  | true => rfl
  | false =>
    simp only [List.length_cons, Bool.false_eq_true, if_false, Nat.add_lt_add_iff_right]

/-- A turn that is enabled. -/
lemma drained_succ {n : ℕ} {d : Draining} {input : Input} {feed' : Feed} {b : Block Status}
    (hn : drained c pid env feed req n = d) (hin : d.feed.next d.call.status = some (input, feed'))
    (hb : d.call.run c (env n).1 (env n).2 input = some b) :
    drained c pid env feed req (n + 1) =
      ⟨feed', { d.call with status := b.status }, stamp pid (env n).1 b.events ++ d.own⟩ := by
  rw [drained, hn, Draining.turn, hin]
  dsimp only
  rw [hb]

/-- The end is the end. -/
lemma drained_of_finished {n m : ℕ} {out : Except Exn Unit}
    (hn : (drained c pid env feed req n).call.status = .finished out) (hm : n ≤ m) :
    drained c pid env feed req m = drained c pid env feed req n := by
  induction m, hm using Nat.le_induction with
  | base => rfl
  | succ m _ ih =>
    rw [drained, ih, Draining.turn, hn]
    rfl

/-- After an error frame or `[DONE]` the consumer asks once more, and the stream ends. -/
lemma ended_of_pull {n : ℕ} {feed' : Feed} {req' : InferRequest} {status : Status} {own : Log}
    {tokens : List String} {es : List Event} {auditStatus : StreamStatus}
    (hn : drained c pid env feed req n = ⟨feed', ⟨req', status⟩, own⟩)
    (htrace : trace own = relayed req tokens ++ es)
    (hin : feed'.next status = some (.pull, feed'))
    (hb : ∀ now cb, StreamCall.run c now cb ⟨req', status⟩ .pull =
      some (finish cb [] auditStatus tokens (.ok ()))) :
    Ended req tokens ⟨es, auditStatus, .ok ()⟩ (drained c pid env feed req (n + 1)) := by
  rw [drained_succ hn hin (hb _ _)]
  refine ⟨rfl, ?_⟩
  rw [trace_stamp_append, htrace, List.append_assoc]
  rfl

/-- The adapter has no more chunks. -/
lemma ended_of_ending {n : ℕ} {ending : Except Exn Unit} {answers : ℕ → Bool}
    {tokens : List String} {index : ℕ} {own : Log}
    (hn : drained c pid env feed req n =
      ⟨⟨[], ending, answers⟩, ⟨req, .awaitChunk tokens index⟩, own⟩)
    (htrace : trace own = relayed req tokens) :
    ∃ m, Ended req tokens (closingOf ending) (drained c pid env feed req m) := by
  have htrace' : ∀ now es, trace (stamp pid now es ++ own) = relayed req tokens ++ es.reverse := by
    intro now es
    rw [trace_stamp_append, htrace]
  cases ending with
  | ok u =>
    have hdone := drained_succ hn rfl rfl
    exact ⟨n + 2, ended_of_pull hdone (htrace' _ _) rfl fun _ _ => rfl⟩
  | error e =>
    cases e with
    | timeoutError =>
      have herror := drained_succ hn rfl rfl
      exact ⟨n + 2, ended_of_pull herror (htrace' _ _) rfl fun _ _ => rfl⟩
    | upstreamProviderError statusCode =>
      have herror := drained_succ hn rfl rfl
      exact ⟨n + 2, ended_of_pull herror (htrace' _ _) rfl fun _ _ => rfl⟩
    | _ =>
      have hraised := drained_succ hn rfl rfl
      exact ⟨n + 1, by rw [hraised]; exact ⟨rfl, htrace' _ _⟩⟩

/-- From an `await` of the adapter on, by induction on the chunks it still has. -/
lemma ended_of_awaitChunk (chunks : List String) {n : ℕ} {ending : Except Exn Unit}
    {answers : ℕ → Bool} {tokens : List String} {own : Log}
    (hn : drained c pid env feed req n =
      ⟨⟨chunks, ending, answers⟩, ⟨req, .awaitChunk tokens tokens.length⟩, own⟩)
    (htrace : trace own = relayed req tokens) :
    ∃ m, Ended req (tokens ++ chunks.take (Feed.sentCount ⟨chunks, ending, answers⟩))
      (Feed.closing ⟨chunks, ending, answers⟩) (drained c pid env feed req m) := by
  induction chunks generalizing n answers tokens own with
  | nil =>
    rw [closing_nil, List.take_nil, List.append_nil]
    exact ended_of_ending hn htrace
  | cons chunk chunks ih =>
    have hchunk := drained_succ hn rfl rfl
    have htrace' : ∀ now es, trace (stamp pid now es ++ (stamp pid (env n).1 [] ++ own)) =
        relayed req tokens ++ es.reverse := by
      intro now es
      rw [trace_stamp_append, trace_stamp_append, htrace, List.reverse_nil, List.append_nil]
    rw [sentCount_cons, closing_cons]
    cases hpoll : answers 0 with
    | true =>
      rw [if_pos rfl, if_pos rfl, List.take_zero, List.append_nil]
      have hin : Feed.next ⟨chunks, ending, answers⟩ (.awaitPoll chunk tokens tokens.length) =
          some (.poll true, ⟨chunks, ending, fun j => answers (j + 1)⟩) := by
        simp only [Feed.next, hpoll]
      have hcut := drained_succ hchunk hin rfl
      exact ⟨n + 2, by rw [hcut]; exact ⟨rfl, htrace' _ _⟩⟩
    | false =>
      have hin : Feed.next ⟨chunks, ending, answers⟩ (.awaitPoll chunk tokens tokens.length) =
          some (.poll false, ⟨chunks, ending, fun j => answers (j + 1)⟩) := by
        simp only [Feed.next, hpoll]
      -- the frame goes out, and the consumer asks for the next one
      have hsent := drained_succ hchunk hin rfl
      have hpulled := drained_succ hsent rfl rfl
      have hlength : tokens.length + 1 = (tokens ++ [chunk]).length := by
        rw [List.length_append, List.length_singleton]
      rw [hlength] at hpulled
      obtain ⟨m, hm⟩ := ih hpulled (by
        rw [trace_stamp_append, htrace', relayed_append, List.reverse_nil, List.append_nil]
        rfl)
      rw [List.append_assoc] at hm
      exact ⟨m, hm⟩

lemma closingOf_concludes (ending : Except Exn Unit) :
    Conclusion (closingOf ending).events (closingOf ending).status (closingOf ending).out := by
  unfold closingOf
  split
  · exact .done
  · exact .timeout
  · exact .upstreamError
  · exact .cancelled
  · next e htimeout hupstream hcancelled => exact .failed hcancelled htimeout hupstream

lemma closing_concludes (feed : Feed) :
    Conclusion feed.closing.events feed.closing.status feed.closing.out := by
  unfold Feed.closing
  split
  · exact .disconnected
  · exact closingOf_concludes feed.ending

/-- No conclusion says two things. -/
lemma Conclusion.consistent {es : List Event} {status : StreamStatus} {out : Except Exn Unit}
    (h : Conclusion es status out) :
    (.yielded .done ∈ es → ∀ frame, .yielded frame ∈ es → frame = .done) ∧
      (.recordSuccess ∈ es → .recordFailure ∉ es) := by
  cases h <;> simp

lemma yielded_mem_relayed {tokens : List String} {frame : Frame} :
    .yielded frame ∈ relayed req tokens ↔ frame ∈ tokenFrames tokens := by
  simp [relayed]

lemma record_notMem_relayed {tokens : List String} :
    .recordSuccess ∉ relayed req tokens ∧ .recordFailure ∉ relayed req tokens := by
  simp [relayed]

lemma Ended.yielded_iff {tokens : List String} {closing : Closing} {d : Draining} {frame : Frame}
    (h : Ended req tokens closing d) :
    frame ∈ frames d.own ↔ frame ∈ tokenFrames tokens ∨ .yielded frame ∈ closing.events := by
  rw [mem_frames, ← mem_trace, h.2, List.mem_append, yielded_mem_relayed, List.mem_append]
  simp

/-- Once admitted, a drained stream ends after finitely many turns. -/
theorem drained_ends (hadmitted : (isOpen c (env 0).1 (env 0).2).1 = false) : ∃ n, ∀ m, n ≤ m →
    Ended req (feed.chunks.take feed.sentCount) feed.closing (drained c pid env feed req m) := by
  have hstart : StreamCall.run c (env 0).1 (env 0).2 ⟨req, .created⟩ .pull =
      some ⟨(isOpen c (env 0).1 (env 0).2).2, .awaitChunk [] 0,
        [.providerStart req, .isOpen false]⟩ := by
    change some (start c (env 0).1 req (env 0).2) = _
    unfold start
    dsimp only
    rw [hadmitted]
    rfl
  obtain ⟨n, hn⟩ := ended_of_awaitChunk feed.chunks (drained_succ rfl rfl hstart) rfl
  rw [List.nil_append] at hn
  refine ⟨n, fun m hm => ?_⟩
  rw [drained_of_finished hn.1 hm]
  exact hn

/-- **What a drained stream does.** For all chunks, all endings of the adapter, all answers of
the polls, and whatever happens to the breaker meanwhile: once admitted, it ends after finitely
many turns, having sent the chunks before the disconnect, numbered, and then what the ending
calls for. It never reports both success and failure, and leaves one audit record. -/
theorem drained_spec (c : Config) (pid : ℕ) (env : ℕ → ℚ × CircuitBreaker) (feed : Feed)
    (req : InferRequest) (hadmitted : (isOpen c (env 0).1 (env 0).2).1 = false) :
    ∃ n, ∀ m, n ≤ m →
      Ended req (feed.chunks.take feed.sentCount) feed.closing (drained c pid env feed req m) ∧
      (.done ∈ frames (drained c pid env feed req m).own →
        ∀ frame ∈ frames (drained c pid env feed req m).own,
          frame = .done ∨ ∃ chunk index, frame = .token chunk index) ∧
      ¬ (Happened (drained c pid env feed req m).own .recordSuccess ∧
        Happened (drained c pid env feed req m).own .recordFailure) ∧
      audits (drained c pid env feed req m).own =
        [(feed.closing.status, feed.chunks.take feed.sentCount)] := by
  obtain ⟨n, hends⟩ := drained_ends hadmitted
  refine ⟨n, fun m hm => ?_⟩
  have hn := hends m hm
  have hclosing := closing_concludes feed
  refine ⟨hn, ?_, ?_, ?_⟩
  · intro hdone frame hframe
    have hdone' := (hn.yielded_iff.mp hdone).resolve_left done_notMem_tokenFrames
    rcases hn.yielded_iff.mp hframe with htoken | hlast
    · obtain ⟨token, -, rfl⟩ := List.mem_map.mp htoken
      exact Or.inr ⟨token.1, token.2, rfl⟩
    · exact Or.inl (hclosing.consistent.1 hdone' frame hlast)
  · rintro ⟨hsuccess, hfailure⟩
    rw [← mem_trace, hn.2, List.mem_append, List.mem_append] at hsuccess hfailure
    have hsuccess' : .recordSuccess ∈ feed.closing.events := by
      simpa [record_notMem_relayed] using hsuccess
    have hfailure' : .recordFailure ∈ feed.closing.events := by
      simpa [record_notMem_relayed] using hfailure
    exact hclosing.consistent.2 hsuccess' hfailure'
  · rw [audits_of_trace hn.2, List.filterMap_append, hclosing.spec.2.1]
    rfl

end Drained

/-- The breaker that admits everything, at time zero. -/
theorem drained_spec_two_chunks : ∃ n, ∀ m, n ≤ m →
    frames (drained {} 0 (fun _ => (0, {})) ⟨["Hel", "lo"], .ok (), fun _ => false⟩
      ⟨"gpt-4o-mini", "hi", none⟩ m).own = [.token "Hel" 0, .token "lo" 1, .done] := by
  obtain ⟨n, hn⟩ := drained_spec {} 0 (fun _ => (0, {})) ⟨["Hel", "lo"], .ok (), fun _ => false⟩
    ⟨"gpt-4o-mini", "hi", none⟩ rfl
  refine ⟨n, fun m hm => ?_⟩
  rw [frames_eq_filterMap, (hn m hm).1.2]
  rfl
end StreamingService
end InferenceApi
