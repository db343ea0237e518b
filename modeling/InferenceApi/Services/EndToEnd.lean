import InferenceApi.HttpStream
import InferenceApi.Services.Framing
import InferenceApi.Services.Relay

/-!
# From the provider's lines to the client's events

`HttpLLMAdapter.stream` feeds `StreamingService.stream`, whose frames are the body that the
client takes apart. `Relaying` says for every place of the stream which chunks of the response
have been sent, which one is in hand and which are to come; at every moment the client has a
prefix of what the response as a whole calls for, and at the end it has all of it.
-/

namespace InferenceApi
namespace StreamingService

open CircuitBreaker HttpLLMAdapter

/-- What a client should understand of a response with these chunks and this ending. -/
def told (chunks : List String) (out : Except Exn Unit) : List Received :=
  tokensRead chunks ++ ((closingOf out).events.filterMap Event.frame?).map Frame.meaning

/-- The frames for it. -/
def framesOf (chunks : List String) (out : Except Exn Unit) : List Frame :=
  tokenFrames chunks ++ (closingOf out).events.filterMap Event.frame?

/-- The last frame is out, and the consumer has not asked for more. -/
def Status.Closes (chunks : List String) (out : Except Exn Unit) : Status → Prop
  | .atDone tokens => tokens = chunks ∧ (closingOf out).status = .success ∧
      (closingOf out).out = .ok ()
  | .atError status tokens => tokens = chunks ∧ (closingOf out).status = status ∧
      (closingOf out).out = .ok ()
  | _ => False

/-- A stream with its adapter: what is left of the response, where the stream is, and what it
has done. -/
inductive Relaying (loads : String → Except Exn Json) (str : Json → String) (req : InferRequest)
    (chunks : List String) (out : Except Exn Unit) : Upstream → Status → List Event → Prop
  | created {rest : Upstream} : Drains loads str rest chunks out →
      Relaying loads str req chunks out rest .created []
  | atRejection (rest : Upstream) (retryAfterS : ℤ) :
      Relaying loads str req chunks out rest .atRejection
        [.isOpen true, .yielded (.rejected retryAfterS)]
  | awaitChunk {rest : Upstream} {tokens ahead : List String} : Drains loads str rest ahead out →
      tokens ++ ahead = chunks →
      Relaying loads str req chunks out rest (.awaitChunk tokens tokens.length) (relayed req tokens)
  | awaitPoll {rest : Upstream} {chunk : String} {tokens ahead : List String} :
      Drains loads str rest ahead out → tokens ++ chunk :: ahead = chunks →
      Relaying loads str req chunks out rest (.awaitPoll chunk tokens tokens.length)
        (relayed req tokens)
  | atToken {rest : Upstream} {chunk : String} {tokens ahead : List String} :
      Drains loads str rest ahead out → tokens ++ chunk :: ahead = chunks →
      Relaying loads str req chunks out rest (.atToken chunk tokens tokens.length)
        (relayed req (tokens ++ [chunk]))
  | closing (rest : Upstream) {status : Status} : status.Closes chunks out →
      Relaying loads str req chunks out rest status (relayed req chunks ++ (closingOf out).events)
  | rejected (rest : Upstream) (retryAfterS : ℤ) :
      Relaying loads str req chunks out rest (.finished (.ok ()))
        [.isOpen true, .yielded (.rejected retryAfterS), .streamEnded (.ok ())]
  | ended (rest : Upstream) :
      Relaying loads str req chunks out rest (.finished (closingOf out).out)
        (relayed req chunks ++ ((closingOf out).events ++
          [.audited (closingOf out).status chunks, .streamEnded (closingOf out).out]))

section Relay

variable {c : Config} {pid : ℕ} {loads : String → Except Exn Json} {str : Json → String}
  {upstream rest : Upstream} {req : InferRequest} {call : StreamCall} {own : Log}
  {chunks tokens : List String} {out : Except Exn Unit} {now : ℚ} {cb : CircuitBreaker}
  {t : List Event} {b : Block Status}

/-! ## One turn -/

/-- The last frame is followed by the end. -/
lemma relaying_of_closes {status : Status} (h : status.Closes chunks out) {input : Input}
    (hin : input = .pull ∨ input = .poll false)
    (hb : StreamCall.run c now cb ⟨req, status⟩ input = some b) :
    Relaying loads str req chunks out rest b.status
      (relayed req chunks ++ (closingOf out).events ++ b.events.reverse) := by
  have hended : Relaying loads str req chunks out rest _ _ := .ended rest
  rw [← List.append_assoc] at hended
  cases status with
  | atDone tokens =>
    obtain ⟨rfl, hstatus, hout⟩ := h
    rw [hstatus, hout] at hended
    rcases hin with rfl | rfl
    · cases hb
      exact hended
    · cases hb
  | atError status tokens =>
    obtain ⟨rfl, hstatus, hout⟩ := h
    rw [hstatus, hout] at hended
    rcases hin with rfl | rfl
    · cases hb
      exact hended
    · cases hb
  | _ => cases h

/-- The client asks for a frame, or is found connected. -/
lemma relaying_client {input : Input}
    (h : Relaying loads str call.req chunks out rest call.status t)
    (hin : input = .pull ∨ input = .poll false) (hb : call.run c now cb input = some b) :
    Relaying loads str call.req chunks out rest b.status (t ++ b.events.reverse) := by
  obtain ⟨req, status⟩ := call
  dsimp only at h ⊢
  cases h with
  | created hdrains =>
    rcases hin with rfl | rfl
    · cases hb
      unfold start
      dsimp only
      split
      · next hopen =>
        rw [hopen]
        exact .atRejection rest _
      · next hopen =>
        rw [Bool.not_eq_true] at hopen
        rw [hopen]
        exact .awaitChunk hdrains (List.nil_append _)
    · cases hb
  | atRejection retryAfterS =>
    rcases hin with rfl | rfl
    · cases hb
      exact .rejected rest retryAfterS
    · cases hb
  | awaitChunk => rcases hin with rfl | rfl <;> cases hb
  | awaitPoll hdrains hchunks =>
    rcases hin with rfl | rfl
    · cases hb
    · cases hb
      have htoken : Relaying loads str req chunks out rest _ _ := .atToken hdrains hchunks
      rw [relayed_append] at htoken
      exact htoken
  | @atToken chunk tokens ahead hdrains hchunks =>
    rcases hin with rfl | rfl
    · cases hb
      have hnext : Relaying loads str req chunks out rest _ _ :=
        .awaitChunk hdrains ((List.append_assoc tokens [chunk] ahead).trans hchunks)
      rw [List.length_append, List.length_singleton] at hnext
      rw [List.reverse_nil, List.append_nil]
      exact hnext
    · cases hb
  | closing hcloses => exact relaying_of_closes hcloses hin hb
  | rejected => rcases hin with rfl | rfl <;> cases hb
  | ended => rcases hin with rfl | rfl <;> cases hb

/-- The adapter raises. -/
lemma relaying_handle (e : Exn) : Relaying loads str req tokens (.error e) rest
    (handle c now cb tokens e).status
    (relayed req tokens ++ (handle c now cb tokens e).events.reverse) := by
  cases e with
  | timeoutError => exact .closing rest ⟨rfl, rfl, rfl⟩
  | upstreamProviderError => exact .closing rest ⟨rfl, rfl, rfl⟩
  | _ => exact .ended rest

/-- The adapter is asked for a chunk. -/
lemma relaying_adapter {index : ℕ} (h : Relaying loads str call.req chunks out rest call.status t)
    (hst : call.status = .awaitChunk tokens index)
    (hb : call.run c now cb (adapterInput (next loads str rest.ending rest.lines).1) = some b) :
    Relaying loads str call.req chunks out (next loads str rest.ending rest.lines).2 b.status
      (t ++ b.events.reverse) := by
  obtain ⟨req, status⟩ := call
  dsimp only at h hst ⊢
  subst hst
  cases h with
  | closing hcloses => cases hcloses
  | awaitChunk hdrains hchunks =>
    cases hnext : next loads str rest.ending rest.lines with
    | mk reply rest' =>
      rw [hnext] at hb
      cases hdrains with
      | ended hnext' =>
        cases hnext.symm.trans hnext'
        cases hb
        rw [List.append_nil] at hchunks
        subst hchunks
        exact .closing rest' ⟨rfl, rfl, rfl⟩
      | raised hnext' =>
        cases hnext.symm.trans hnext'
        cases hb
        rw [List.append_nil] at hchunks
        subst hchunks
        exact relaying_handle _
      | yielded hnext' hdrains =>
        cases hnext.symm.trans hnext'
        cases hb
        rw [List.reverse_nil, List.append_nil]
        exact .awaitPoll hdrains hchunks

/-! ## Whole runs -/

/-- **Where the chunks are.** In every run, at every place. -/
theorem RelayRun.relaying (h : RelayRun c pid loads str upstream req rest call own) :
    Relaying loads str call.req (yields loads str upstream.lines)
      (outcome loads str upstream.ending upstream.lines) rest call.status (trace own) := by
  induction h with
  | create => exact .created (drains_yields upstream.lines)
  | client _ hin hb ih =>
    rw [trace_stamp_append]
    have hturn := relaying_client ih hin hb
    exact hturn
  | adapter _ hst hb ih =>
    rw [trace_stamp_append]
    have hturn := relaying_adapter ih hst hb
    exact hturn

/-- The first frames of more tokens. -/
lemma tokenFrames_mono (h : tokens <+: chunks) : tokenFrames tokens <+: tokenFrames chunks := by
  obtain ⟨more, rfl⟩ := h
  rw [tokenFrames, tokenFrames, List.zipIdx_append, List.map_append]
  exact List.prefix_append _ _

lemma relayed_frames_mono (h : tokens <+: chunks) :
    (relayed req tokens).filterMap Event.frame? <+: framesOf chunks out := by
  rw [filterMap_frame?_relayed]
  exact (tokenFrames_mono h).trans (List.prefix_append _ _)

lemma isOpen_notMem_relayed : .isOpen true ∉ relayed req tokens := by simp [relayed]

lemma isOpen_notMem_closingOf : .isOpen true ∉ (closingOf out).events := by
  unfold closingOf
  split <;> simp

/-- A stream that the breaker rejects never reaches the provider; any other one has sent a
prefix, and at its end the whole. -/
lemma Relaying.sent {status : Status} (h : Relaying loads str req chunks out rest status t) :
    ((∃ retryAfterS, t.filterMap Event.frame? = [.rejected retryAfterS]) ∧
        .isOpen true ∈ t ∧ ∀ req', .providerStart req' ∉ t) ∨
      (.isOpen true ∉ t ∧ t.filterMap Event.frame? <+: framesOf chunks out ∧
        ∀ out', status = .finished out' → out' = (closingOf out).out ∧
          t = relayed req chunks ++ ((closingOf out).events ++
            [.audited (closingOf out).status chunks, .streamEnded (closingOf out).out])) := by
  cases h with
  | created => exact Or.inr ⟨by simp, List.nil_prefix, fun _ => Status.noConfusion⟩
  | atRejection r => exact Or.inl ⟨⟨r, rfl⟩, by simp, by simp⟩
  | rejected r => exact Or.inl ⟨⟨r, rfl⟩, by simp, by simp⟩
  | awaitChunk _ hchunks =>
    exact Or.inr ⟨isOpen_notMem_relayed, relayed_frames_mono ⟨_, hchunks⟩,
      fun _ => Status.noConfusion⟩
  | awaitPoll _ hchunks =>
    exact Or.inr ⟨isOpen_notMem_relayed, relayed_frames_mono ⟨_, hchunks⟩,
      fun _ => Status.noConfusion⟩
  | @atToken chunk tokens ahead _ hchunks =>
    have hprefix : tokens ++ [chunk] <+: chunks :=
      ⟨ahead, (List.append_assoc tokens [chunk] ahead).trans hchunks⟩
    exact Or.inr ⟨isOpen_notMem_relayed, relayed_frames_mono hprefix,
      fun _ => Status.noConfusion⟩
  | closing hcloses =>
    refine Or.inr ⟨?_, ?_, ?_⟩
    · rw [List.mem_append, not_or]
      exact ⟨isOpen_notMem_relayed, isOpen_notMem_closingOf⟩
    · rw [List.filterMap_append, filterMap_frame?_relayed]
      exact List.prefix_rfl
    · rintro out' rfl
      cases hcloses
  | ended =>
    refine Or.inr ⟨?_, ?_, ?_⟩
    · rw [List.mem_append, List.mem_append, not_or, not_or]
      exact ⟨isOpen_notMem_relayed, isOpen_notMem_closingOf, by simp⟩
    · rw [List.filterMap_append, List.filterMap_append, filterMap_frame?_relayed]
      exact ⟨[], by rw [List.append_nil, framesOf]; simp [Event.frame?]⟩
    · intro out' hout'
      exact ⟨(Status.finished.inj hout').symm, rfl⟩

lemma map_meaning_framesOf : (framesOf chunks out).map Frame.meaning = told chunks out := by
  rw [framesOf, List.map_append, map_meaning_tokenFrames, told]

/-! ## Every run can be completed -/

/-- A run with this log can be continued to the end of the stream. -/
def Finishes (c : Config) (pid : ℕ) (loads : String → Except Exn Json) (str : Json → String)
    (upstream : Upstream) (req : InferRequest) (own : Log) : Prop :=
  ∃ rest call new out, RelayRun c pid loads str upstream req rest call (new ++ own) ∧
    call.status = .finished out

lemma Finishes.of_append {new : Log} (h : Finishes c pid loads str upstream req (new ++ own)) :
    Finishes c pid loads str upstream req own := by
  obtain ⟨rest, call, new', out, hrun, hfin⟩ := h
  rw [← List.append_assoc] at hrun
  exact ⟨rest, call, _, out, hrun, hfin⟩

lemma finishes_of_finished {out : Except Exn Unit}
    (h : RelayRun c pid loads str upstream req rest ⟨req, .finished out⟩ own) :
    Finishes c pid loads str upstream req own := ⟨rest, _, [], out, h, rfl⟩

/-- A turn of the client, with the breaker closed. -/
lemma RelayRun.clientTurn {status : Status}
    (h : RelayRun c pid loads str upstream req rest ⟨req, status⟩ own) (input : Input)
    (hin : input = .pull ∨ input = .poll false)
    (hb : StreamCall.run c 0 {} ⟨req, status⟩ input = some b) :
    RelayRun c pid loads str upstream req rest ⟨req, b.status⟩ (stamp pid 0 b.events ++ own) :=
  h.client hin hb

/-- A turn of the adapter. -/
lemma RelayRun.adapterTurn {index : ℕ} {reply : Except Exn (Option String)} {rest' : Upstream}
    (h : RelayRun c pid loads str upstream req rest ⟨req, .awaitChunk tokens index⟩ own)
    (hnext : next loads str rest.ending rest.lines = (reply, rest'))
    (hb : StreamCall.run c 0 {} ⟨req, .awaitChunk tokens index⟩ (adapterInput reply) = some b) :
    RelayRun c pid loads str upstream req rest' ⟨req, b.status⟩ (stamp pid 0 b.events ++ own) := by
  have hturn := @RelayRun.adapter c pid loads str upstream req rest _ own 0 {} tokens index b h rfl
  rw [hnext] at hturn
  exact hturn hb

/-- After the last frame. -/
lemma finishes_of_closes {status : Status} (hcloses : status.Closes chunks out)
    (h : RelayRun c pid loads str upstream req rest ⟨req, status⟩ own) :
    Finishes c pid loads str upstream req own := by
  cases status with
  | atDone tokens => exact (finishes_of_finished (h.clientTurn .pull (Or.inl rfl) rfl)).of_append
  | atError status tokens =>
    exact (finishes_of_finished (h.clientTurn .pull (Or.inl rfl) rfl)).of_append
  | _ => cases hcloses

/-- From an `await` of the adapter on, by induction on what the adapter still does. -/
lemma finishes_of_awaitChunk {ahead : List String} {index : ℕ}
    (hdrains : Drains loads str rest ahead out)
    (h : RelayRun c pid loads str upstream req rest ⟨req, .awaitChunk tokens index⟩ own) :
    Finishes c pid loads str upstream req own := by
  induction hdrains generalizing own tokens index with
  | ended hnext =>
    have hdone := h.adapterTurn hnext rfl
    exact (finishes_of_finished (hdone.clientTurn .pull (Or.inl rfl) rfl)).of_append.of_append
  | @raised _ _ e hnext =>
    have herror := h.adapterTurn hnext rfl
    cases e with
    | timeoutError =>
      exact (finishes_of_finished (herror.clientTurn .pull (Or.inl rfl) rfl)).of_append.of_append
    | upstreamProviderError =>
      exact (finishes_of_finished (herror.clientTurn .pull (Or.inl rfl) rfl)).of_append.of_append
    | _ => exact (finishes_of_finished herror).of_append
  | yielded hnext _ ih =>
    -- the chunk arrives, the client is connected, gets it, and asks for more
    have hchunk := h.adapterTurn hnext rfl
    have hsent := hchunk.clientTurn (.poll false) (Or.inr rfl) rfl
    have hpulled := hsent.clientTurn .pull (Or.inl rfl) rfl
    exact (ih hpulled).of_append.of_append.of_append

lemma RelayRun.req_eq (h : RelayRun c pid loads str upstream req rest call own) :
    call.req = req := by
  induction h with
  | create => rfl
  | client _ _ _ ih => exact ih
  | adapter _ _ _ ih => exact ih

/-- No run is stuck before its end. -/
theorem RelayRun.finishes (h : RelayRun c pid loads str upstream req rest call own) :
    Finishes c pid loads str upstream req own := by
  obtain ⟨callReq, status⟩ := call
  obtain rfl : callReq = req := h.req_eq
  have hplace := h.relaying
  dsimp only at hplace
  generalize trace own = t at hplace
  cases hplace with
  | created hdrains =>
    exact (finishes_of_awaitChunk hdrains (h.clientTurn .pull (Or.inl rfl) rfl)).of_append
  | atRejection =>
    exact (finishes_of_finished (h.clientTurn .pull (Or.inl rfl) rfl)).of_append
  | awaitChunk hdrains => exact finishes_of_awaitChunk hdrains h
  | awaitPoll hdrains =>
    have hsent := h.clientTurn (.poll false) (Or.inr rfl) rfl
    have hpulled := hsent.clientTurn .pull (Or.inl rfl) rfl
    exact (finishes_of_awaitChunk hdrains hpulled).of_append.of_append
  | atToken hdrains =>
    exact (finishes_of_awaitChunk hdrains (h.clientTurn .pull (Or.inl rfl) rfl)).of_append
  | closing hcloses => exact finishes_of_closes hcloses h
  | rejected => exact finishes_of_finished h
  | ended => exact finishes_of_finished h

/-! ## What the client reads -/

variable {R : Json.FloatRepr} {toFloat : List Char → PyFloat}

lemma received_eq (own : Log) :
    received toFloat (body R own) = ((trace own).filterMap Event.frame?).map Frame.meaning := by
  rw [body, received_text, frames_eq_filterMap]

/-- A run of an admitted stream to its end. -/
lemma RelayRun.received_of_finished (h : RelayRun c pid loads str upstream req rest call own)
    (hadmitted : ¬ Happened own (.isOpen true)) (hfin : call.status = .finished out) :
    received toFloat (body R own) = told (yields loads str upstream.lines)
        (outcome loads str upstream.ending upstream.lines) ∧
      audits own = [((closingOf (outcome loads str upstream.ending upstream.lines)).status,
        yields loads str upstream.lines)] := by
  rw [← mem_trace] at hadmitted
  rcases h.relaying.sent with ⟨-, hopen, -⟩ | ⟨-, -, hend⟩
  · exact absurd hopen hadmitted
  · obtain ⟨-, htrace⟩ := hend out hfin
    have hclosing := closingOf_concludes (outcome loads str upstream.ending upstream.lines)
    constructor
    · rw [received_eq, ← map_meaning_framesOf, htrace, List.filterMap_append, List.filterMap_append,
        filterMap_frame?_relayed, framesOf]
      simp [Event.frame?]
    · rw [audits_of_trace htrace, List.filterMap_append, hclosing.spec.2.1]
      rfl

lemma terminator_notMem_tokensRead : .terminator ∉ tokensRead tokens := by simp [tokensRead]

/-- The tokens are what was read. -/
lemma tokensRead_injective : Function.Injective tokensRead := by
  intro tokens tokens' h
  have htexts : ∀ tokens, (tokensRead tokens).filterMap
      (fun | .token text _ => some text | _ => none) = tokens := by
    intro tokens
    rw [tokensRead, List.filterMap_map]
    calc tokens.zipIdx.filterMap _
        = tokens.zipIdx.filterMap (some ∘ Prod.fst) := rfl
      _ = tokens.zipIdx.map Prod.fst := by rw [List.filterMap_eq_map]
      _ = tokens := List.zipIdx_map_fst 0 tokens
  rw [← htexts tokens, h, htexts tokens']

/-- The terminator says that the response ended normally. -/
lemma told_eq_iff : told chunks out = tokensRead tokens ++ [.terminator] ↔
    chunks = tokens ∧ out = .ok () := by
  constructor
  · intro h
    have hout : out = .ok () := by
      have hmem : .terminator ∈ told chunks out := by
        rw [h]
        exact List.mem_append_right _ List.mem_cons_self
      rw [told, List.mem_append, or_iff_right terminator_notMem_tokensRead] at hmem
      unfold closingOf at hmem
      split at hmem
      · rfl
      · simp [Event.frame?, Frame.meaning] at hmem
      · simp [Event.frame?, Frame.meaning] at hmem
      · simp at hmem
      · simp [Event.frame?] at hmem
    subst hout
    exact ⟨tokensRead_injective (List.append_cancel_right h), rfl⟩
  · rintro ⟨rfl, rfl⟩
    rfl

/-- Every response is relayed to its end by some run. -/
lemma exists_admitted_run (c : Config) (pid : ℕ) (loads : String → Except Exn Json)
    (str : Json → String) (upstream : Upstream) (req : InferRequest) :
    ∃ rest call own out, RelayRun c pid loads str upstream req rest call own ∧
      call.status = .finished out ∧ ¬ Happened own (.isOpen true) := by
  have hcreated : RelayRun c pid loads str upstream req upstream ⟨req, .created⟩ [] := .create
  have hstarted := hcreated.clientTurn .pull (Or.inl rfl) rfl
  obtain ⟨rest, call, new, out, hrun, hfin⟩ := hstarted.finishes
  refine ⟨rest, call, _, out, hrun, hfin, ?_⟩
  have hprovider : Happened (stamp pid 0 (start c 0 req {}).events ++ []) (.providerStart req) :=
    happened_stamp_append.mpr (Or.inl List.mem_cons_self)
  rcases hrun.relaying.sent with ⟨-, -, hnever⟩ | ⟨hnot, -⟩
  · exact absurd (mem_trace.mpr (hprovider.append new)) (hnever req)
  · exact fun hopen => hnot (mem_trace.mpr hopen)

end Relay

/-- **The client reads what the provider wrote.** For all responses, in every run with a client
that stays: at every moment the client has understood a prefix of the chunks and the ending that
the response has, numbered in order, and at the end all of it, and then the audit record has the
same chunks; a stream that the breaker rejects never reaches the provider, and says so. And no
run is stuck before its end. -/
theorem relay_received (R : Json.FloatRepr) (toFloat : List Char → PyFloat) {c : Config} {pid : ℕ}
    {loads : String → Except Exn Json} {str : Json → String} {upstream rest : Upstream}
    {req : InferRequest} {call : StreamCall} {own : Log}
    (h : RelayRun c pid loads str upstream req rest call own) :
    (Happened own (.isOpen true) →
      received toFloat (body R own) = [.error "service unavailable"] ∧
        ∀ req', ¬ Happened own (.providerStart req')) ∧
    (¬ Happened own (.isOpen true) →
      received toFloat (body R own) <+: told (yields loads str upstream.lines)
        (outcome loads str upstream.ending upstream.lines)) ∧
    (∀ out, call.status = .finished out → ¬ Happened own (.isOpen true) →
      received toFloat (body R own) = told (yields loads str upstream.lines)
        (outcome loads str upstream.ending upstream.lines) ∧
      audits own = [((closingOf (outcome loads str upstream.ending upstream.lines)).status,
        yields loads str upstream.lines)]) ∧
    ∃ rest' call' new out, RelayRun c pid loads str upstream req rest' call' (new ++ own) ∧
      call'.status = .finished out := by
  refine ⟨fun hrejected => ?_, fun hadmitted => ?_, fun out hfin hadmitted => ?_, h.finishes⟩
  · rcases h.relaying.sent with ⟨⟨r, hframes⟩, -, hnever⟩ | ⟨hnot, -⟩
    · refine ⟨by rw [received_eq, hframes]; rfl, fun req' hstart => ?_⟩
      exact hnever req' (mem_trace.mpr hstart)
    · exact absurd (mem_trace.mpr hrejected) hnot
  · rcases h.relaying.sent with ⟨-, hopen, -⟩ | ⟨-, hprefix, -⟩
    · exact absurd (mem_trace.mp hopen) hadmitted
    · rw [received_eq, ← map_meaning_framesOf]
      exact hprefix.map Frame.meaning
  · exact h.received_of_finished hadmitted hfin

/-- The response that breaks off: its one chunk, and `[DONE]`. -/
theorem relay_received_truncated : ∃ own,
    received (fun _ => .nan) (body .coded own) = [.token "Hel" 0, .terminator] := by
  obtain ⟨rest, call, own, out, hrun, hfin, hadmitted⟩ :=
    exists_admitted_run {} 0 firstChunk (fun _ => "Hel") truncated ⟨"gpt-4o-mini", "hi", none⟩
  obtain ⟨-, -, hend, -⟩ := relay_received .coded (fun _ => .nan) hrun
  exact ⟨own, (hend out hfin hadmitted).1⟩

/-- **From lines to events.** The lines that `aiter_lines` yields are chunks with any spacing and
anything that is no `data` field in between, then `data: [DONE]`. The client reads exactly the texts
of the chunks and the terminator, in every run of an admitted stream to its end, if and only if
every chunk that is looked at has a choice and every text has the space. How `httpx` cuts what it
receives into lines is not part of this. -/
theorem renderings_received_iff (R : Json.FloatRepr) (toFloat : List Char → PyFloat) (c : Config)
    (pid : ℕ) (loads : String → Except String Json) (repr : Json → String)
    (renderings : List (Rendering loads)) (rest : List String) (ending : Except HttpxError Unit)
    (req : InferRequest) :
    (∀ rest' call own out, RelayRun c pid (named loads) (strOf repr)
        ⟨renderings.map Rendering.line ++ terminatorLine :: rest, ending⟩ req rest' call own →
      call.status = .finished out → ¬ Happened own (.isOpen true) →
      received toFloat (body R own) = tokensRead (texts renderings) ++ [.terminator]) ↔
    ∀ r ∈ renderings, r.Chosen ∧ r.Heard := by
  have hterm : terminatorLine ∈ renderings.map Rendering.line ++ terminatorLine :: rest :=
    List.mem_append_right _ List.mem_cons_self
  have hdecodes : yields (named loads) (strOf repr)
        (renderings.map Rendering.line ++ terminatorLine :: rest) = texts renderings ∧
      outcome (named loads) (strOf repr) ending
        (renderings.map Rendering.line ++ terminatorLine :: rest) = .ok () ↔
      ∀ r ∈ renderings, r.Chosen ∧ r.Heard := by
    have huntil : untilTerminator (terminatorLine :: rest) = [] := by
      simp [untilTerminator]
    rw [← drains_iff, drains_ok_iff, untilTerminator_append, huntil, List.append_nil,
      said_eq_texts, texts_filter_eq_iff, and_iff_right (Or.inl hterm : _ ∨ ending = .ok ()),
      forall₂_and, List.forall_mem_map]
    exact and_congr_left fun _ => forall₂_congr fun r _ => r.readable_iff
  rw [← hdecodes, ← told_eq_iff]
  constructor
  · intro hall
    obtain ⟨rest', call, own, out, hrun, hfin, hadmitted⟩ := exists_admitted_run c pid
      (named loads) (strOf repr)
      ⟨renderings.map Rendering.line ++ terminatorLine :: rest, ending⟩ req
    rw [← hall _ _ _ out hrun hfin hadmitted]
    exact (hrun.received_of_finished hadmitted hfin).1.symm
  · intro htold rest' call own out hrun hfin hadmitted
    rw [← htold]
    exact (hrun.received_of_finished hadmitted hfin).1

end StreamingService
end InferenceApi
