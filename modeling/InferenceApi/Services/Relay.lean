import InferenceApi.HttpAnswers
import InferenceApi.Services.StreamingService

/-!
# Is a truncated stream reported as complete?

`HttpLLMAdapter.stream` feeding `StreamingService.stream` for a client that stays connected.
The adapter's loop ends normally at the terminator line and also where the body simply ends,
and the service cannot tell one from the other.
-/

namespace InferenceApi
namespace StreamingService

open CircuitBreaker HttpLLMAdapter

/-- What the adapter's next step is to the service. -/
def adapterInput : Except Exn (Option String) → Input
  | .ok chunk => .chunk chunk
  | .error e => .raise e

/-- The runs of a stream with its adapter, in any environment: any breaker, any times. The
client is connected and asks for every frame. The first argument of the relation is what is
left of the upstream response. -/
inductive RelayRun (c : Config) (pid : ℕ) (loads : String → Except Exn Json) (str : Json → String)
    (upstream : Upstream) (req : InferRequest) : Upstream → StreamCall → Log → Prop
  | create : RelayRun c pid loads str upstream req upstream ⟨req, .created⟩ []
  /-- The client asks for a frame, or is found connected. -/
  | client {rest : Upstream} {call : StreamCall} {own : Log} {now : ℚ} {cb : CircuitBreaker}
      {input : Input} {b : Block Status} : RelayRun c pid loads str upstream req rest call own →
      input = .pull ∨ input = .poll false → call.run c now cb input = some b →
      RelayRun c pid loads str upstream req rest { call with status := b.status }
        (stamp pid now b.events ++ own)
  /-- The adapter is asked for a chunk. -/
  | adapter {rest : Upstream} {call : StreamCall} {own : Log} {now : ℚ} {cb : CircuitBreaker}
      {tokens : List String} {index : ℕ} {b : Block Status} :
      RelayRun c pid loads str upstream req rest call own →
      call.status = .awaitChunk tokens index →
      call.run c now cb (adapterInput (next loads str rest.ending rest.lines).1) = some b →
      RelayRun c pid loads str upstream req (next loads str rest.ending rest.lines).2
        { call with status := b.status } (stamp pid now b.events ++ own)

/-- The client was sent `[DONE]`, or the breaker was credited a success. -/
def Reported (own : Log) : Prop := Happened own (.yielded .done) ∨ Happened own .recordSuccess

/-- The places of a stream that still needs its adapter. -/
def Status.Feeding : Status → Prop
  | .created => True
  | .awaitChunk _ _ => True
  | .awaitPoll _ _ _ => True
  | .atToken _ _ _ => True
  | _ => False

section Relay

variable {c : Config} {pid : ℕ} {loads : String → Except Exn Json} {str : Json → String}
  {upstream rest : Upstream} {req : InferRequest} {call : StreamCall} {own : Log}

/-- A stream reports completion only after its adapter has ended, and before that what is left
ends as the whole. -/
structure RelayInv (loads : String → Except Exn Json) (str : Json → String)
    (upstream rest : Upstream) (call : StreamCall) (own : Log) : Prop where
  reported : Reported own → outcome loads str upstream.ending upstream.lines = .ok ()
  feeding : call.status.Feeding → rest.ending = upstream.ending ∧
    outcome loads str rest.ending rest.lines = outcome loads str upstream.ending upstream.lines

lemma reported_stamp_append {now : ℚ} {es : List Event} :
    Reported (stamp pid now es ++ own) ↔
      (.yielded .done ∈ es ∨ .recordSuccess ∈ es) ∨ Reported own := by
  rw [Reported, happened_stamp_append, happened_stamp_append, Reported]
  exact or_or_or_comm

/-- What the client does reports nothing. -/
lemma client_turn {now : ℚ} {cb : CircuitBreaker} {input : Input} {b : Block Status}
    (hin : input = .pull ∨ input = .poll false) (hb : call.run c now cb input = some b) :
    (.yielded .done ∉ b.events ∧ .recordSuccess ∉ b.events) ∧
      (b.status.Feeding → call.status.Feeding) := by
  obtain ⟨req, status⟩ := call
  rcases hin with rfl | rfl
  · cases status with
    | created =>
      cases hb
      unfold start
      dsimp only
      split <;> simp [Status.Feeding]
    | atToken => cases hb; simp [Status.Feeding]
    | atRejection => cases hb; simp [Status.Feeding]
    | atDone => cases hb; simp [finish, Status.Feeding]
    | atError => cases hb; simp [finish, Status.Feeding]
    | _ => cases hb
  · cases status with
    | awaitPoll => cases hb; simp [Status.Feeding]
    | _ => cases hb

/-- A failure of the adapter is not reported as success. -/
lemma not_reported_handle {now : ℚ} {cb : CircuitBreaker} {tokens : List String} {e : Exn} :
    (.yielded .done ∉ (handle c now cb tokens e).events ∧
      .recordSuccess ∉ (handle c now cb tokens e).events) ∧
        ¬ (handle c now cb tokens e).status.Feeding := by
  unfold handle
  split <;> simp [finish, Status.Feeding]

theorem RelayRun.inv (h : RelayRun c pid loads str upstream req rest call own) :
    RelayInv loads str upstream rest call own := by
  induction h with
  | create =>
    refine ⟨?_, fun _ => ⟨rfl, rfl⟩⟩
    rintro (⟨_, hmem, -⟩ | ⟨_, hmem, -⟩) <;> cases hmem
  | client _ hin hb ih =>
    obtain ⟨⟨hdone, hsuccess⟩, hfeeding⟩ := client_turn hin hb
    refine ⟨fun hrep => ?_, fun hfeed => ih.feeding (hfeeding hfeed)⟩
    rcases reported_stamp_append.mp hrep with (he | he) | hold
    · exact absurd he hdone
    · exact absurd he hsuccess
    · exact ih.reported hold
  -- the one turn that can report success: the adapter says whether it has ended
  | @adapter rest call own now cb tokens index b _ hst hb ih =>
    obtain ⟨hending, houtcome⟩ := ih.feeding (by rw [hst]; trivial)
    rw [StreamCall.run.eq_def, hst] at hb
    cases hnext : next loads str rest.ending rest.lines with
    | mk reply rest' =>
      rw [hnext] at hb
      cases reply with
      | error e =>
        cases hb
        obtain ⟨⟨hdone, hsuccess⟩, hfeeding⟩ := not_reported_handle
        refine ⟨fun hrep => ?_, fun hfeed => absurd hfeed hfeeding⟩
        rcases reported_stamp_append.mp hrep with (he | he) | hold
        · exact absurd he hdone
        · exact absurd he hsuccess
        · exact ih.reported hold
      | ok chunk =>
        cases chunk with
        | none =>
          cases hb
          have hend := outcome_next_none hnext
          exact ⟨fun _ => houtcome.symm.trans hend, False.elim⟩
        | some chunk =>
          cases hb
          obtain ⟨hrest, hsame⟩ := outcome_next_some hnext
          refine ⟨fun hrep => ih.reported ?_, fun _ => ⟨hrest.trans hending, ?_⟩⟩
          · exact (reported_stamp_append.mp hrep).resolve_left (by simp)
          · rw [hrest]
            exact hsame.trans houtcome

/-- Where the adapter ends, the stream is reported as complete. -/
lemma reports_of_next_none {tokens : List String} {index : ℕ}
    (hrun : RelayRun c pid loads str upstream req rest call own)
    (hst : call.status = .awaitChunk tokens index)
    (hnext : (next loads str rest.ending rest.lines).1 = .ok none) :
    ∃ rest call own, RelayRun c pid loads str upstream req rest call own ∧ Reported own := by
  have hb : call.run c 0 {} (adapterInput (next loads str rest.ending rest.lines).1) =
      some ⟨recordSuccess {}, .atDone tokens, [.yielded .done, .recordSuccess]⟩ := by
    rw [hnext, StreamCall.run.eq_def, hst]
    rfl
  exact ⟨_, _, _, hrun.adapter hst hb, reported_stamp_append.mpr (Or.inl (Or.inl (by simp)))⟩

/-- From any of its `await`s on, a stream whose adapter ends normally gets to its end. -/
lemma reports_of_awaitChunk (lines : List String) {tokens : List String} {index : ℕ}
    (hrun : RelayRun c pid loads str upstream req rest call own)
    (hst : call.status = .awaitChunk tokens index)
    (hnext : next loads str rest.ending rest.lines = next loads str upstream.ending lines)
    (hend : outcome loads str upstream.ending lines = .ok ()) :
    ∃ rest call own, RelayRun c pid loads str upstream req rest call own ∧ Reported own := by
  induction lines generalizing rest call own tokens index with
  | nil =>
    -- the body is over: the loop falls through unless the connection broke
    rw [outcome] at hend
    refine reports_of_next_none hrun hst ?_
    rw [hnext, next.eq_def]
    cases hending : upstream.ending with
    | ok => rfl
    | error e =>
      rw [hending] at hend
      cases hend
  | cons line lines ih =>
    rw [next] at hnext
    rw [outcome] at hend
    cases hline : readLine loads str line with
    | skip =>
      rw [hline] at hnext hend
      exact ih hrun hst hnext hend
    | terminator =>
      rw [hline] at hnext
      exact reports_of_next_none hrun hst (congrArg Prod.fst hnext)
    | raises e =>
      rw [hline] at hend
      cases hend
    | chunk chunk =>
      rw [hline] at hnext hend
      dsimp only at hnext hend
      -- the chunk arrives, the client is connected, gets it, and asks for more
      have hchunk : call.run c 0 {} (adapterInput (next loads str rest.ending rest.lines).1) =
          some ⟨{}, .awaitPoll chunk tokens index, []⟩ := by
        rw [hnext, StreamCall.run.eq_def, hst]
        rfl
      have hpoll : StreamCall.run c 0 {} ⟨call.req, .awaitPoll chunk tokens index⟩ (.poll false) =
          some ⟨{}, .atToken chunk tokens index, [.yielded (.token chunk index)]⟩ := rfl
      have hpull : StreamCall.run c 0 {} ⟨call.req, .atToken chunk tokens index⟩ .pull =
          some ⟨{}, .awaitChunk (tokens ++ [chunk]) (index + 1), []⟩ := rfl
      have hrun' := ((hrun.adapter hst hchunk).client (Or.inr rfl) hpoll).client (Or.inl rfl) hpull
      exact ih hrun' rfl (by rw [hnext]) hend

/-- A stream whose adapter ends normally can be reported as complete. -/
lemma reports_of_outcome (hended : outcome loads str upstream.ending upstream.lines = .ok ()) :
    ∃ rest call own, RelayRun c pid loads str upstream req rest call own ∧ Reported own := by
  have hstart : StreamCall.run c 0 {} ⟨req, .created⟩ .pull =
      some ⟨{}, .awaitChunk [] 0, [.providerStart req, .isOpen false]⟩ := rfl
  have hcreated : RelayRun c pid loads str upstream req upstream ⟨req, .created⟩ [] := .create
  exact reports_of_awaitChunk upstream.lines (hcreated.client (Or.inl rfl) hstart) rfl rfl hended

/-- **When only terminated streams are reported as complete.** For every upstream response, in
every run: exactly if it has the terminator, or a line that the adapter cannot read, or ends
in an error of the connection. -/
theorem reported_only_if_terminated_iff (c : Config) (pid : ℕ) (loads : String → Except Exn Json)
    (str : Json → String) (upstream : Upstream) (req : InferRequest) :
    (∀ rest call own, RelayRun c pid loads str upstream req rest call own → Reported own →
      terminatorLine ∈ upstream.lines) ↔
      terminatorLine ∈ upstream.lines ∨
        (∃ line ∈ upstream.lines, ∃ e, readLine loads str line = .raises e) ∨
          ∃ e, upstream.ending = .error e := by
  constructor
  · intro hall
    by_contra hno
    -- a body without all three ends the adapter normally, so some run reports it
    push Not at hno
    obtain ⟨hterm, hlines, hending⟩ := hno
    have hended := (outcome_eq_ok_iff hterm).mpr ⟨hlines, hending⟩
    obtain ⟨rest, call, own, hrun, hrep⟩ := @reports_of_outcome c pid loads str upstream req hended
    exact hterm (hall rest call own hrun hrep)
  · rintro hcase rest call own hrun hrep
    by_contra hterm
    obtain ⟨hlines, hending⟩ := (outcome_eq_ok_iff hterm).mp (hrun.inv.reported hrep)
    rcases hcase with hmem | ⟨line, hline, e, hraises⟩ | ⟨e, herror⟩
    · exact hterm hmem
    · exact hlines line hline e hraises
    · exact hending e herror

end Relay

/-- A response that breaks off after its first chunk. -/
def truncated : Upstream where
  lines := ["data: \x7b\"choices\": [\x7b\"delta\": \x7b\"content\": \"Hel\"\x7d\x7d]\x7d", ""]
  ending := .ok ()

/-- What its one line decodes to. -/
def firstChunk (_data : String) : Except Exn Json :=
  .ok (.obj [("choices", .arr [.obj [("delta", .obj [("content", .str "Hel")])]])])

/-- It is reported as complete. -/
theorem truncated_reported_as_complete :
    ¬ ∀ (c : Config) (pid : ℕ) (loads : String → Except Exn Json) (str : Json → String)
      (upstream : Upstream) (req : InferRequest) (rest : Upstream) (call : StreamCall) (own : Log),
        RelayRun c pid loads str upstream req rest call own → Reported own →
          terminatorLine ∈ upstream.lines := by
  intro hall
  obtain ⟨rest, call, own, hrun, hrep⟩ := @reports_of_outcome {} 0 firstChunk (fun _ => "Hel")
    truncated ⟨"gpt-4o-mini", "hi", none⟩ rfl
  exact absurd (hall _ _ _ _ _ _ rest call own hrun hrep) (by decide)

end StreamingService
end InferenceApi
