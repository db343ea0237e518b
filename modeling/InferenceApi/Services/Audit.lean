import InferenceApi.Services.Traces

/-!
# Does the audit record match what was delivered?

"The complete stream is accumulated in a list as tokens arrive" (`DECISIONS.md`). In the
code a token is appended once the consumer asks for the frame after it, so that a generator
closed in between leaves its last token out of the record.
-/

namespace InferenceApi
namespace StreamingService

/-- What the audit record of a stream says is what the consumer was given. -/
def Matches (own : Log) (status : StreamStatus) (tokens : List String) : Prop :=
  tokens = delivered own ∧ (status = .success ↔ .done ∈ frames own)

section Audit

variable {c : CircuitBreaker.Config} {pid : ℕ} {now : ℚ} {cb : CircuitBreaker} {call : StreamCall}
  {own : Log} {req : InferRequest} {tokens : List String} {rest : List Event}

lemma frames_of_trace (h : trace own = relayed req tokens ++ rest) :
    frames own = tokenFrames tokens ++ rest.filterMap Event.frame? := by
  rw [frames_eq_filterMap, h, List.filterMap_append, filterMap_frame?_relayed]

lemma audits_of_trace (h : trace own = relayed req tokens ++ rest) :
    audits own = rest.filterMap Event.audit? := by
  rw [audits, h, List.filterMap_append, filterMap_audit?_relayed, List.nil_append]

lemma delivered_of_trace (h : trace own = relayed req tokens ++ rest) :
    delivered own = tokens ++ (rest.filterMap Event.frame?).filterMap Frame.token? := by
  rw [delivered, frames_of_trace h, List.filterMap_append, filterMap_token?_tokenFrames]

lemma done_notMem_tokenFrames : .done ∉ tokenFrames tokens := by
  intro h
  obtain ⟨token, -, htoken⟩ := List.mem_map.mp h
  cases htoken

lemma done_mem_frames_of_trace (h : trace own = relayed req tokens ++ rest) :
    .done ∈ frames own ↔ .done ∈ rest.filterMap Event.frame? := by
  rw [frames_of_trace h, List.mem_append]
  exact or_iff_right done_notMem_tokenFrames

/-- A conclusion has no frame of a token, `[DONE]` is its frame of success, and it leaves the
audit record to what follows. -/
lemma Conclusion.spec {es : List Event} {status : StreamStatus} {out : Except Exn Unit}
    (h : Conclusion es status out) :
    (es.filterMap Event.frame?).filterMap Frame.token? = [] ∧ es.filterMap Event.audit? = [] ∧
      (.done ∈ es.filterMap Event.frame? ↔ status = .success) := by
  cases h with
  | disconnected => exact ⟨rfl, rfl, by simp⟩
  | cancelled => exact ⟨rfl, rfl, by simp⟩
  | done => exact ⟨rfl, rfl, by simp [Event.frame?]⟩
  | timeout => exact ⟨rfl, rfl, by simp [Event.frame?]⟩
  | upstreamError => exact ⟨rfl, rfl, by simp [Event.frame?]⟩
  | failed => exact ⟨rfl, rfl, by simp [Event.frame?]⟩

lemma handle_concludes {out : Except Exn Unit} {e : Exn}
    (hfin : (handle c now cb tokens e).status = .finished out) :
    ∃ es status, Conclusion es status out ∧
      relayed req tokens ++ (handle c now cb tokens e).events.reverse =
        relayed req tokens ++ (es ++ [.audited status tokens, .streamEnded out]) := by
  unfold handle at hfin ⊢
  split at hfin
  · cases hfin
    exact ⟨_, _, .cancelled, rfl⟩
  · cases hfin
  · cases hfin
  · next hcancelled htimeout hupstream =>
    cases hfin
    exact ⟨_, _, .failed hcancelled htimeout hupstream, rfl⟩

/-- The last turn of an admitted stream: it concludes, or it is closed at a token. -/
theorem last_turn {t : List Event} {input : Input} {b : Block Status} {out : Except Exn Unit}
    (h : Traced call.req call.status t) (hb : call.run c now cb input = some b)
    (hfin : b.status = .finished out) (hadmitted : .isOpen false ∈ t ++ b.events.reverse) :
    (∃ chunk tokens index, (call.status = .atToken chunk tokens index ∧ input = .close) ∧
      t ++ b.events.reverse = relayed call.req (tokens ++ [chunk]) ++
        [.audited .cancelled tokens, .streamEnded out]) ∨
    ((¬ ∃ chunk tokens index, call.status = .atToken chunk tokens index ∧ input = .close) ∧
      ∃ tokens es status, Conclusion es status out ∧ t ++ b.events.reverse =
        relayed call.req tokens ++ (es ++ [.audited status tokens, .streamEnded out])) := by
  obtain ⟨req, status⟩ := call
  dsimp only at h ⊢
  cases h with
  | created =>
    cases input with
    | pull =>
      cases hb
      unfold start at hfin
      dsimp only at hfin
      split at hfin <;> cases hfin
    | close => cases hb; simp at hadmitted
    | _ => cases hb
  | atRejection =>
    cases input with
    | pull => cases hb; simp at hadmitted
    | close => cases hb; simp at hadmitted
    | _ => cases hb
  | awaitChunk tokens =>
    right
    refine ⟨by simp, tokens, ?_⟩
    cases input with
    | chunk chunk => cases chunk <;> cases hb <;> cases hfin
    | raise e => cases hb; exact handle_concludes hfin
    | _ => cases hb
  | awaitPoll chunk tokens =>
    right
    refine ⟨by simp, tokens, ?_⟩
    cases input with
    | poll disconnected =>
      cases disconnected with
      | true => cases hb; cases hfin; exact ⟨_, _, .disconnected, rfl⟩
      | false => cases hb; cases hfin
    | raise e => cases hb; exact handle_concludes hfin
    | _ => cases hb
  | atToken chunk tokens =>
    left
    cases input with
    | pull => cases hb; cases hfin
    | close => cases hb; cases hfin; exact ⟨chunk, tokens, _, ⟨rfl, rfl⟩, rfl⟩
    | _ => cases hb
  | atDone tokens =>
    right
    refine ⟨by simp, tokens, ?_⟩
    cases input with
    | pull => cases hb; cases hfin; exact ⟨_, _, .done, List.append_assoc _ _ _⟩
    | close => cases hb; cases hfin; exact ⟨_, _, .done, List.append_assoc _ _ _⟩
    | _ => cases hb
  | atTimeout tokens =>
    right
    refine ⟨by simp, tokens, ?_⟩
    cases input with
    | pull => cases hb; cases hfin; exact ⟨_, _, .timeout, List.append_assoc _ _ _⟩
    | close => cases hb; cases hfin; exact ⟨_, _, .timeout, List.append_assoc _ _ _⟩
    | _ => cases hb
  | atUpstreamError tokens =>
    right
    refine ⟨by simp, tokens, ?_⟩
    cases input with
    | pull => cases hb; cases hfin; exact ⟨_, _, .upstreamError, List.append_assoc _ _ _⟩
    | close => cases hb; cases hfin; exact ⟨_, _, .upstreamError, List.append_assoc _ _ _⟩
    | _ => cases hb
  | _ => cases hb

/-- **When the audit record matches what was delivered.** For every run of an admitted stream
to its end, with any breaker, adapter and client: exactly if the generator was not closed at
the `yield` of a token. -/
theorem audit_matches_delivered_iff {input : Input} {b : Block Status} {out : Except Exn Unit}
    (h : StreamRun c pid call own) (hb : call.run c now cb input = some b)
    (hfin : b.status = .finished out)
    (hadmitted : Happened (stamp pid now b.events ++ own) (.isOpen false)) :
    ∃ status tokens, audits (stamp pid now b.events ++ own) = [(status, tokens)] ∧
      (Matches (stamp pid now b.events ++ own) status tokens ↔
        ¬ ∃ chunk tokens index, call.status = .atToken chunk tokens index ∧ input = .close) := by
  rw [← mem_trace, trace_stamp_append] at hadmitted
  rcases last_turn h.traced hb hfin hadmitted with
    ⟨chunk, tokens, index, hclosed, htrace⟩ | ⟨hclosed, tokens, es, status, hes, htrace⟩
  · rw [← trace_stamp_append] at htrace
    refine ⟨.cancelled, tokens, audits_of_trace htrace, ?_⟩
    refine iff_of_false (fun hmatches => ?_) (not_not_intro ⟨chunk, tokens, index, hclosed⟩)
    -- the record is a token short
    have hlength := congrArg List.length (hmatches.1.trans (delivered_of_trace htrace))
    simp [Event.frame?] at hlength
  · rw [← trace_stamp_append] at htrace
    obtain ⟨htokens, haudits, hdone⟩ := hes.spec
    have hframes : (es ++ [Event.audited status tokens, .streamEnded out]).filterMap Event.frame? =
        es.filterMap Event.frame? := by
      rw [List.filterMap_append]
      exact List.append_nil _
    refine ⟨status, tokens, ?_, iff_of_true ⟨?_, ?_⟩ hclosed⟩
    · rw [audits_of_trace htrace, List.filterMap_append, haudits]
      rfl
    · rw [delivered_of_trace htrace, hframes, htokens, List.append_nil]
    · rw [done_mem_frames_of_trace htrace, hframes, hdone]

end Audit

/-- A stream that is asked for one frame, gets a chunk and finds its client connected. -/
lemma one_token_sent : StreamRun {} 0 ⟨⟨"gpt-4o-mini", "hi", none⟩, .atToken "Hel" [] 0⟩
    [⟨0, 0, .yielded (.token "Hel" 0)⟩, ⟨0, 0, .providerStart ⟨"gpt-4o-mini", "hi", none⟩⟩,
      ⟨0, 0, .isOpen false⟩] := by
  have hcreated : StreamRun {} 0 ⟨⟨"gpt-4o-mini", "hi", none⟩, .created⟩ [] := .create _
  have hstarted := @StreamRun.run {} 0 _ _ 0 {} .pull _ hcreated rfl
  have hchunk := @StreamRun.run {} 0 _ _ 0 {} (.chunk (some "Hel")) _ hstarted rfl
  exact @StreamRun.run {} 0 _ _ 0 {} (.poll false) _ hchunk rfl

/-- Drained to its end, the stream has it in its record. -/
theorem audit_matches_delivered_drained : ∃ own, Happened own (.yielded .done) ∧
    ∃ status tokens, audits own = [(status, tokens)] ∧ Matches own status tokens := by
  have hpulled := @StreamRun.run {} 0 _ _ 0 {} .pull _ one_token_sent rfl
  have hdone := @StreamRun.run {} 0 _ _ 0 {} (.chunk none) _ hpulled rfl
  obtain ⟨status, tokens, haudits, hiff⟩ := @audit_matches_delivered_iff {} 0 0 {} _ _ .pull _ _
    hdone rfl rfl (mem_trace.mp List.mem_cons_self)
  refine ⟨_, ?_, status, tokens, haudits, hiff.mpr ?_⟩
  · exact mem_trace.mp (by simp [trace, stamp])
  · rintro ⟨_, _, _, hst, -⟩
    cases hst

/-- A stream closed right after its first token: the client has it, the record does not. -/
theorem closed_stream_misses_token :
    ¬ ∀ (c : CircuitBreaker.Config) (pid : ℕ) (call : StreamCall) (own : Log)
      (status : StreamStatus) (tokens : List String) (out : Except Exn Unit),
        StreamRun c pid call own → Happened own (.isOpen false) → call.status = .finished out →
          audits own = [(status, tokens)] → Matches own status tokens := by
  intro hall
  have hclosed := @StreamRun.run {} 0 _ _ 0 {} .close _ one_token_sent rfl
  have hmatches := hall _ _ _ _ .cancelled [] (.ok ()) hclosed
    (mem_trace.mp List.mem_cons_self) rfl rfl
  exact absurd hmatches.1 (by decide)

end StreamingService
end InferenceApi
