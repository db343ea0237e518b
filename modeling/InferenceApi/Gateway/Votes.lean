import InferenceApi.Gateway.Accounting
import InferenceApi.Gateway.Admission
import InferenceApi.Services.Traces

/-!
# Who opens the circuit?

The breaker hears of providers through `record_success` and `record_failure`. A request, with or
without a stream, reports at most once, and only after it has called its provider. So behind
every rejection there are as many requests as the threshold asks for that have each called the
provider and failed.
-/

namespace InferenceApi

open CircuitBreaker SlidingWindow Transition

/-- The event reports a failure. -/
def Event.isFailure : Event → Bool
  | .recordFailure => true
  | _ => false

/-- The event is a report to the breaker. -/
def Event.isVerdict : Event → Bool
  | .recordSuccess => true
  | .recordFailure => true
  | _ => false

/-- What a request does about its provider, newest first: nothing, or a start and then at most
one report. -/
def Ballot (es : List Event) : Prop :=
  es = [] ∨ ∃ reports req, es = reports ++ [.providerStart req] ∧
    reports.countP Event.isVerdict ≤ 1 ∧ starts reports = 0

/-- The request was given up before there was anything to report: it was cancelled while it waited
for its provider, or the consumer of the stream went away. -/
def Proc.Abandoned (own : Log) : Proc → Prop
  | .idle => False
  | .infer _ => ∃ req e, e.isException = false ∧ Happened own (.providerEnd req (.error e))
  | .stream _ => ∃ tokens, Happened own (.audited .cancelled tokens)

/-- The request has returned or raised. -/
def Proc.Finished : Proc → Prop
  | .idle => False
  | .infer call => ∃ out, call.status = .finished out
  | .stream call => ∃ out, call.status = .finished out

/-! ## One request -/

section Requests

variable {svc : InferenceService} {pid : ℕ} {own : Log} {req : InferRequest}

lemma ofProvider_of_isVerdict {e : Event} (h : e.isVerdict = true) : e.ofProvider = true := by
  cases e <;> first
    | rfl
    | cases h

/-- A result is reported as a success, an exception as a failure, a cancellation not at all. -/
lemma verdicts_resultEvents (result : Except Exn Json) :
    (resultEvents svc req result).countP Event.isVerdict ≤ 1 ∧
      (0 < (resultEvents svc req result).countP Event.isVerdict ↔
        ¬ ∃ e, result = .error e ∧ e.isException = false) := by
  cases result with
  | ok result =>
    have hone : (resultEvents svc req (.ok result)).countP Event.isVerdict = 1 := by
      rw [resultEvents, usageEvents.eq_def]
      split <;> rfl
    rw [hone]
    exact ⟨le_rfl, iff_of_true Nat.one_pos (by simp)⟩
  | error e =>
    rw [resultEvents]
    cases he : e.isException with
    | true => exact ⟨le_rfl, iff_of_true Nat.one_pos (by simp [he])⟩
    | false => exact ⟨Nat.zero_le _, iff_of_false (lt_irrefl 0) (not_not_intro ⟨e, rfl, he⟩)⟩

lemma ballot_resultEvents (result : Except Exn Json) :
    Ballot (resultEvents svc req result ++ [.providerStart req]) := by
  refine Or.inr ⟨_, req, rfl, ?_, ?_⟩
  · exact (verdicts_resultEvents result).1
  · have hone := @starts_resultEvents svc req result
    rw [starts, List.countP_append] at hone
    exact Nat.succ.inj hone

/-! ### A call of `infer` -/

theorem InferRun.ballot {call : InferCall} (h : InferRun svc pid call own) :
    Ballot (providerEvents own) := by
  have hprov := h.providerInv
  unfold ProviderInv at hprov
  split at hprov
  · rw [hprov.1]
    exact Or.inr ⟨[], call.req, rfl, Nat.zero_le _, rfl⟩
  · obtain ⟨⟨result, -, hpart⟩, -⟩ := hprov
    rw [hpart]
    exact ballot_resultEvents _
  · obtain ⟨⟨_, ⟨result, -, hpart⟩, -⟩, -⟩ := hprov
    rw [hpart]
    exact ballot_resultEvents _
  · rcases hprov with ⟨hpart, -⟩ | ⟨⟨result, hpart⟩, -⟩
    · exact Or.inl hpart
    · rw [hpart]
      exact ballot_resultEvents _
  · exact Or.inl hprov.1

/-- A call that has ended after its provider was called has reported, unless it was cancelled. -/
lemma InferRun.reported_iff {call : InferCall} (h : InferRun svc pid call own)
    (hfin : ∃ out, call.status = .finished out) (hstart : Happened own (.providerStart req)) :
    (∃ e, e.isVerdict = true ∧ Happened own e) ↔ ¬ (Proc.infer call).Abandoned own := by
  obtain ⟨out, hfin⟩ := hfin
  have hprov := h.providerInv
  rw [ProviderInv, hfin] at hprov
  rw [happened_iff_mem_providerEvents rfl] at hstart
  rcases hprov with ⟨hnil, -⟩ | ⟨⟨result, hpart⟩, -⟩
  · rw [hnil] at hstart
    cases hstart
  · have hverdict : (∃ e, e.isVerdict = true ∧ Happened own e) ↔
        0 < (resultEvents svc call.req result).countP Event.isVerdict := by
      rw [List.countP_pos_iff]
      constructor
      · rintro ⟨e, he, hhappened⟩
        rw [happened_iff_mem_providerEvents (ofProvider_of_isVerdict he), hpart] at hhappened
        rcases List.mem_append.mp hhappened with hmem | hmem
        · exact ⟨e, hmem, he⟩
        · rw [List.mem_singleton.mp hmem] at he
          cases he
      · rintro ⟨e, hmem, he⟩
        refine ⟨e, he, ?_⟩
        rw [happened_iff_mem_providerEvents (ofProvider_of_isVerdict he), hpart]
        exact List.mem_append_left _ hmem
    have habandoned : (Proc.infer call).Abandoned own ↔
        ∃ e, result = .error e ∧ e.isException = false := by
      constructor
      · rintro ⟨req', e, he, hhappened⟩
        rw [happened_iff_mem_providerEvents rfl, hpart, providerEnd_mem_resultEvents] at hhappened
        exact ⟨e, hhappened.2.symm, he⟩
      · rintro ⟨e, rfl, he⟩
        refine ⟨call.req, e, he, ?_⟩
        rw [happened_iff_mem_providerEvents rfl, hpart, providerEnd_mem_resultEvents]
        exact ⟨rfl, rfl⟩
    rw [hverdict, habandoned]
    exact (verdicts_resultEvents result).2

end Requests

/-! ### A stream -/

section Streams

open StreamingService

variable {c : Config} {pid : ℕ} {own : Log} {req : InferRequest}
  {status : StreamingService.Status} {t : List Event}

lemma providerPart_relayed (req : InferRequest) (tokens : List String) :
    providerPart (relayed req tokens) = [.providerStart req] := by
  have hframes : providerPart ((tokenFrames tokens).map .yielded) = [] := by
    refine List.filter_eq_nil_iff.mpr fun e he => ?_
    obtain ⟨frame, -, rfl⟩ := List.mem_map.mp he
    exact Bool.false_ne_true
  rw [relayed, providerPart, List.filter_cons_of_neg (by simp [Event.ofProvider]),
    List.filter_cons_of_pos rfl]
  exact congrArg _ hframes

lemma providerPart_relayed_append (req : InferRequest) (tokens : List String) (es : List Event) :
    providerPart (relayed req tokens ++ es) = .providerStart req :: providerPart es := by
  rw [providerPart, List.filter_append]
  exact congrArg (· ++ _) (providerPart_relayed req tokens)

/-- What a stream does about its provider, oldest first. -/
lemma providerPart_of_traced (h : Traced req status t) : providerPart t = [] ∨
    ∃ reports, providerPart t = .providerStart req :: reports ∧
      reports.countP Event.isVerdict ≤ 1 ∧ starts reports = 0 := by
  cases h with
  | created => exact Or.inl rfl
  | atRejection => exact Or.inl rfl
  | unstarted => exact Or.inl rfl
  | rejected => exact Or.inl rfl
  | awaitChunk => exact Or.inr ⟨[], providerPart_relayed _ _, Nat.zero_le _, rfl⟩
  | awaitPoll => exact Or.inr ⟨[], providerPart_relayed _ _, Nat.zero_le _, rfl⟩
  | atToken => exact Or.inr ⟨[], providerPart_relayed _ _, Nat.zero_le _, rfl⟩
  | atDone => exact Or.inr ⟨_, providerPart_relayed_append _ _ _, le_rfl, rfl⟩
  | atTimeout => exact Or.inr ⟨_, providerPart_relayed_append _ _ _, le_rfl, rfl⟩
  | atUpstreamError => exact Or.inr ⟨_, providerPart_relayed_append _ _ _, le_rfl, rfl⟩
  | closed => exact Or.inr ⟨_, providerPart_relayed_append _ _ _, Nat.zero_le _, rfl⟩
  | concluded tokens hes =>
    refine Or.inr ⟨_, providerPart_relayed_append _ _ _, ?_, ?_⟩
    · cases hes <;> first
        | exact le_rfl
        | exact Nat.zero_le _
    · cases hes <;> rfl

lemma providerEvents_eq_reverse (own : Log) :
    providerEvents own = (providerPart (trace own)).reverse := by
  rw [providerEvents, trace, providerPart, providerPart, List.filter_reverse, List.reverse_reverse]

theorem StreamRun.ballot {call : StreamCall} (h : StreamRun c pid call own) :
    Ballot (providerEvents own) := by
  rw [providerEvents_eq_reverse]
  rcases providerPart_of_traced h.traced with hnil | ⟨reports, hpart, hverdicts, hstarts⟩
  · rw [hnil]
    exact Or.inl rfl
  · refine Or.inr ⟨reports.reverse, call.req, ?_, ?_, ?_⟩
    · rw [hpart, List.reverse_cons]
    · rw [List.countP_reverse]
      exact hverdicts
    · rw [starts, List.countP_reverse]
      exact hstarts

/-- A stream that has ended after its provider was called has reported, unless its consumer went
away or it was cancelled. -/
lemma StreamRun.reported_iff {call : StreamCall} (h : StreamRun c pid call own)
    (hfin : ∃ out, call.status = .finished out) (hstart : Happened own (.providerStart req)) :
    (∃ e, e.isVerdict = true ∧ Happened own e) ↔ ¬ (Proc.stream call).Abandoned own := by
  obtain ⟨out, hfin⟩ := hfin
  have htraced := h.traced
  rw [hfin] at htraced
  have hrelayed : ∀ tokens, ∀ e ∈ relayed call.req tokens,
      e.isVerdict = false ∧ ∀ tokens, e ≠ .audited .cancelled tokens := by
    intro tokens e he
    simp only [relayed, List.mem_cons, List.mem_map] at he
    rcases he with rfl | rfl | ⟨frame, -, rfl⟩
    · exact ⟨rfl, fun _ => Event.noConfusion⟩
    · exact ⟨rfl, fun _ => Event.noConfusion⟩
    · exact ⟨rfl, fun _ => Event.noConfusion⟩
  -- before the last token there is no report and no record
  have hskip : ∀ tokens es, trace own = relayed call.req tokens ++ es →
      ((∃ e, e.isVerdict = true ∧ Happened own e) ↔ ∃ e ∈ es, e.isVerdict = true) ∧
        ((Proc.stream call).Abandoned own ↔ ∃ tokens, .audited .cancelled tokens ∈ es) := by
    intro tokens es htrace
    simp only [Proc.Abandoned, ← mem_trace, htrace, List.mem_append]
    constructor
    · constructor
      · rintro ⟨e, he, hmem | hmem⟩
        · rw [(hrelayed tokens e hmem).1] at he
          cases he
        · exact ⟨e, hmem, he⟩
      · rintro ⟨e, hmem, he⟩
        exact ⟨e, he, Or.inr hmem⟩
    · refine exists_congr fun tokens' => or_iff_right fun hmem => ?_
      exact (hrelayed tokens _ hmem).2 tokens' rfl
  rw [← mem_trace] at hstart
  generalize htrace : trace own = t at htraced hstart
  cases htraced with
  | unstarted => simp at hstart
  | rejected => simp at hstart
  | concluded tokens hes =>
    obtain ⟨hverdict, habandoned⟩ := hskip tokens _ htrace
    rw [hverdict, habandoned]
    cases hes <;> simp [Event.isVerdict]
  | closed chunk tokens =>
    obtain ⟨hverdict, habandoned⟩ := hskip _ _ htrace
    rw [hverdict, habandoned]
    simp [Event.isVerdict]

end Streams

/-! ## The failures behind a trip -/

namespace CircuitBreaker

variable {c : Config} {h e : History} {u : ℚ}

lemma epoch_initial : ∀ {h : History}, epoch c h <+: h
  | [] => List.prefix_rfl
  | ⟨.recordSuccess, t⟩ :: h => by
    rw [epoch]
    split
    · exact List.nil_prefix
    · exact (List.prefix_cons_inj _).mpr epoch_initial
  | ⟨.isOpen, t⟩ :: h => (List.prefix_cons_inj _).mpr epoch_initial
  | ⟨.recordFailure, t⟩ :: h => (List.prefix_cons_inj _).mpr epoch_initial

/-- The latest trip is one of the failures. -/
lemma exists_of_latestTrip (hu : latestTrip c e = some u) :
    ∃ newer older, e = newer ++ ⟨.recordFailure, u⟩ :: older ∧ trips c older u = true := by
  induction e with
  | nil => cases hu
  | cons call e ih =>
    obtain ⟨op, t⟩ := call
    cases op with
    | isOpen =>
      obtain ⟨newer, older, rfl, htrips⟩ := ih hu
      exact ⟨_ :: newer, older, rfl, htrips⟩
    | recordSuccess =>
      obtain ⟨newer, older, rfl, htrips⟩ := ih hu
      exact ⟨_ :: newer, older, rfl, htrips⟩
    | recordFailure =>
      rw [latestTrip] at hu
      split at hu
      · next htrips =>
        cases hu
        exact ⟨[], e, rfl, htrips⟩
      · obtain ⟨newer, older, rfl, htrips⟩ := ih hu
        exact ⟨_ :: newer, older, rfl, htrips⟩

/-- The failures of a history, in its order. -/
lemma failureTimes_eq (h : History) :
    failureTimes h = (h.filter fun call => call.op = .recordFailure).map Call.time := by
  induction h with
  | nil => rfl
  | cons call h ih =>
    obtain ⟨op, t⟩ := call
    cases op with
    | recordFailure =>
      rw [failureTimes, List.filter_cons_of_pos rfl, ih]
      rfl
    | _ =>
      rw [failureTimes, List.filter_cons_of_neg (by simp), ih]

lemma failureTimes_sublist (he : e.Sublist h) : (failureTimes e).Sublist (failureTimes h) := by
  rw [failureTimes_eq, failureTimes_eq]
  exact (he.filter _).map _

/-- The failures that counted at a trip: enough of them, none older than the window. -/
lemma counted_of_latestTrip (hh : NewestFirst Call.time h)
    (hu : latestTrip c (epoch c h) = some u) :
    ∃ counted : List ℚ, counted.Sublist (failureTimes h) ∧
      c.failureThreshold ≤ counted.length ∧ ∀ v ∈ counted, u - c.window ≤ v ∧ v ≤ u := by
  obtain ⟨newer, older, hepoch, htrips⟩ := exists_of_latestTrip hu
  have hsublist : (⟨.recordFailure, u⟩ :: older : History).Sublist h :=
    (hepoch ▸ List.sublist_append_right newer _ :
      (⟨.recordFailure, u⟩ :: older : History).Sublist (epoch c h)).trans epoch_initial.sublist
  have hordered : NewestFirst Call.time (⟨.recordFailure, u⟩ :: older) := hh.sublist hsublist
  refine ⟨recent (ageWindow c) id u (u :: failureTimes older), ?_, of_decide_eq_true htrips, ?_⟩
  · exact List.filter_sublist.trans (failureTimes_sublist hsublist)
  · intro v hv
    obtain ⟨hmem, hlive⟩ := List.mem_filter.mp hv
    refine ⟨sub_le_comm.mp (of_decide_eq_true hlive), ?_⟩
    rcases List.mem_cons.mp hmem with rfl | hmem
    · exact le_rfl
    · rw [failureTimes_eq] at hmem
      obtain ⟨call, hcall, rfl⟩ := List.mem_map.mp hmem
      exact hordered.before_head call (List.mem_filter.mp hcall).1

end CircuitBreaker

/-- The reports of failures in a log. -/
def failureEntries (log : Log) : List Entry := log.filter fun entry => entry.event.isFailure

lemma failureTimes_breakerCalls (log : Log) :
    failureTimes (breakerCalls log) = (failureEntries log).map Entry.time := by
  induction log with
  | nil => rfl
  | cons entry log ih =>
    obtain ⟨pid, t, e⟩ := entry
    cases e with
    | recordFailure =>
      rw [breakerCalls_cons_of_some rfl, failureTimes, ih, failureEntries, failureEntries,
        List.filter_cons_of_pos rfl]
      rfl
    | isOpen answer =>
      rw [breakerCalls_cons_of_some rfl, failureTimes, ih, failureEntries, failureEntries,
        List.filter_cons_of_neg Bool.false_ne_true]
    | recordSuccess =>
      rw [breakerCalls_cons_of_some rfl, failureTimes, ih, failureEntries, failureEntries,
        List.filter_cons_of_neg Bool.false_ne_true]
    | _ =>
      rw [breakerCalls_cons_of_none rfl, ih, failureEntries, failureEntries,
        List.filter_cons_of_neg Bool.false_ne_true]

/-! ## All requests -/

namespace Gateway

variable {svc : InferenceService} {s : Gateway}

/-- The requests that have reported, once for each report. -/
def voters (log : Log) : List ℕ := (log.filter fun entry => entry.event.isVerdict).map Entry.pid

lemma count_voters (pid : ℕ) (log : Log) :
    (voters log).count pid = (providerEvents (own pid log)).countP Event.isVerdict := by
  rw [voters, List.count_eq_countP, List.countP_map, List.countP_filter, providerEvents,
    providerPart, List.countP_filter, List.countP_map, own, List.countP_filter]
  refine List.countP_congr fun entry _ => ?_
  simp only [Function.comp_apply, Bool.and_eq_true, beq_iff_eq, decide_eq_true_eq]
  constructor
  · rintro ⟨hpid, hverdict⟩
    exact ⟨⟨hverdict, ofProvider_of_isVerdict hverdict⟩, hpid⟩
  · rintro ⟨⟨hverdict, -⟩, hpid⟩
    exact ⟨hpid, hverdict⟩

lemma Reachable.ballot (hs : Reachable svc s) (pid : ℕ) :
    Ballot (providerEvents (own pid s.log)) := by
  have hrun := hs.ownInv pid
  cases hp : s.procs pid with
  | idle =>
    rw [hp] at hrun
    have hnil : own pid s.log = [] := hrun
    rw [hnil]
    exact Or.inl rfl
  | infer call =>
    rw [hp] at hrun
    exact InferRun.ballot hrun
  | stream call =>
    rw [hp] at hrun
    exact StreamRun.ballot hrun

/-- No request reports twice. -/
lemma Reachable.voters_nodup (hs : Reachable svc s) : (voters s.log).Nodup := by
  refine List.nodup_iff_count_le_one.mpr fun pid => ?_
  rw [count_voters]
  rcases hs.ballot pid with hnil | ⟨reports, req, heq, hle, -⟩
  · rw [hnil]
    exact Nat.zero_le _
  · rw [heq, List.countP_append]
    exact hle

/-- A report comes after the start of the provider call. -/
lemma Reachable.start_of_verdict (hs : Reachable svc s) {entry : Entry} (hmem : entry ∈ s.log)
    (hverdict : entry.event.isVerdict = true) :
    ∃ t req, ⟨entry.pid, t, .providerStart req⟩ ∈ s.log ∧ t ≤ entry.time := by
  -- the entries of the request about its provider, newest first
  obtain ⟨provided, hprovided⟩ : ∃ provided, provided =
      (own entry.pid s.log).filter (fun entry => entry.event.ofProvider) := ⟨_, rfl⟩
  have hevents : provided.map Entry.event = providerEvents (own entry.pid s.log) := by
    rw [hprovided, providerEvents, providerPart, List.filter_map]
    rfl
  have hsublist : provided.Sublist s.log := by
    rw [hprovided]
    exact List.filter_sublist.trans List.filter_sublist
  have hin : entry ∈ provided := by
    rw [hprovided]
    exact List.mem_filter.mpr ⟨mem_own.mpr ⟨hmem, rfl⟩, ofProvider_of_isVerdict hverdict⟩
  rcases hs.ballot entry.pid with hnil | ⟨reports, req, heq, -⟩
  · rw [hnil, List.map_eq_nil_iff] at hevents
    rw [hevents] at hin
    cases hin
  · rw [heq] at hevents
    obtain ⟨later, first, rfl, -, hfirst⟩ := List.map_eq_append_iff.mp hevents
    obtain ⟨start, rfl, hstart⟩ := List.map_eq_singleton_iff.mp hfirst
    have hstartMem : start ∈ s.log := hsublist.subset (by simp)
    have hpid : start.pid = entry.pid := by
      have hown : start ∈ own entry.pid s.log := by
        have hfilter : start ∈ later ++ [start] := by simp
        rw [hprovided] at hfilter
        exact (List.mem_filter.mp hfilter).1
      exact (mem_own.mp hown).2
    have hlater : entry ∈ later := by
      rcases List.mem_append.mp hin with hlater | hlast
      · exact hlater
      · rw [List.mem_singleton.mp hlast, hstart] at hverdict
        cases hverdict
    have hordered : NewestFirst Entry.time (later ++ [start]) :=
      hs.logInv.newestFirst.sublist hsublist
    refine ⟨start.time, req, ?_, ?_⟩
    · rw [← hpid, ← hstart]
      exact hstartMem
    · exact (List.pairwise_append.mp hordered).2.2 entry hlater start List.mem_cons_self

lemma failureEntries_voters (log : Log) :
    ((failureEntries log).map Entry.pid).Sublist (voters log) := by
  refine List.Sublist.map _ (List.monotone_filter_right _ fun entry hentry => ?_)
  change entry.event.isFailure = true at hentry
  generalize entry.event = event at hentry
  cases event with
  | recordFailure => rfl
  | _ => cases hentry

lemma mem_failureEntries {entry : Entry} {log : Log} :
    entry ∈ failureEntries log ↔ entry ∈ log ∧ entry.event = .recordFailure := by
  rw [failureEntries, List.mem_filter]
  refine and_congr_right fun _ => ?_
  cases entry.event <;> simp [Event.isFailure]

/-- **One request, one vote.** No request reports to the breaker twice, and none before it has
called its provider. Of those that have called it and are done, the ones that did not report are
those that were given up. -/
theorem one_vote_each (hs : Reachable svc s) :
    (voters s.log).Nodup ∧
    (∀ entry ∈ s.log, entry.event.isVerdict = true →
      ∃ t req, ⟨entry.pid, t, .providerStart req⟩ ∈ s.log ∧ t ≤ entry.time) ∧
    ∀ pid ∈ providerStarts s.log, (s.procs pid).Finished →
      (pid ∈ voters s.log ↔ ¬ (s.procs pid).Abandoned (own pid s.log)) := by
  refine ⟨hs.voters_nodup, fun entry hmem hverdict => hs.start_of_verdict hmem hverdict, ?_⟩
  intro pid hpid hfin
  obtain ⟨t, req, hstart⟩ := mem_providerStarts.mp hpid
  have hown : Happened (own pid s.log) (.providerStart req) :=
    ⟨_, mem_own.mpr ⟨hstart, rfl⟩, rfl⟩
  have hvoted : pid ∈ voters s.log ↔ ∃ e, e.isVerdict = true ∧ Happened (own pid s.log) e := by
    rw [voters, List.mem_map]
    constructor
    · rintro ⟨entry, hentry, rfl⟩
      obtain ⟨hmem, hverdict⟩ := List.mem_filter.mp hentry
      exact ⟨entry.event, hverdict, entry, mem_own.mpr ⟨hmem, rfl⟩, rfl⟩
    · rintro ⟨e, hverdict, entry, hmem, rfl⟩
      obtain ⟨hmem, hpid⟩ := mem_own.mp hmem
      exact ⟨entry, List.mem_filter.mpr ⟨hmem, hverdict⟩, hpid⟩
  rw [hvoted]
  have hrun := hs.ownInv pid
  cases hp : s.procs pid with
  | idle =>
    rw [hp] at hfin
    exact hfin.elim
  | infer call =>
    rw [hp] at hrun hfin
    exact InferRun.reported_iff hrun hfin hown
  | stream call =>
    rw [hp] at hrun hfin
    exact StreamRun.reported_iff hrun hfin hown

/-- A stream that times out, and one that is cancelled. -/
def timedOutAndCancelled : List Action :=
  [.stream 0 sampleRequest, .streamInput 0 .pull, .stream 1 sampleRequest, .streamInput 1 .pull,
    .streamInput 0 (.raise .timeoutError), .streamInput 0 .pull,
    .streamInput 1 (.raise .cancelledError)]

theorem one_vote_each_cancelled :
    (1 ∈ voters (after sample timedOutAndCancelled).log ↔
      ¬ ((after sample timedOutAndCancelled).procs 1).Abandoned
        (own 1 (after sample timedOutAndCancelled).log)) :=
  (one_vote_each (reachable_after sample timedOutAndCancelled)).2.2 1 (by decide +kernel)
    ⟨_, rfl⟩

/-- **Rejections are earned.** Behind every request the breaker turns away there is a trip no
older than the recovery timeout, and behind the trip as many different requests as the threshold
asks for that had each called their provider and failed within the window before it. -/
theorem rejections_justified (hs : Reachable svc s) {pid : ℕ} {t : ℚ}
    (hmem : ⟨pid, t, .isOpen true⟩ ∈ s.log) :
    ∃ (u : ℚ) (failed : List ℕ), u ≤ t ∧ t < u + svc.breaker.recoveryTimeout ∧
      failed.Nodup ∧ svc.breaker.failureThreshold ≤ failed.length ∧
      ∀ p ∈ failed, ∃ v started req, ⟨p, v, .recordFailure⟩ ∈ s.log ∧
        u - svc.breaker.window ≤ v ∧ v ≤ u ∧
        ⟨p, started, .providerStart req⟩ ∈ s.log ∧ started ≤ v := by
  have hinv := hs.logInv
  obtain ⟨post, pre, hlog⟩ := List.append_of_mem hmem
  have hpre : pre.Sublist s.log := by
    rw [hlog]
    exact (List.sublist_cons_self _ _).trans (List.sublist_append_right _ _)
  have hcheck : NewestFirst Entry.time (⟨pid, t, .isOpen true⟩ :: pre) :=
    hinv.newestFirst.sublist (hlog ▸ List.sublist_append_right post _)
  have hcalls := newestFirst_breakerCalls hcheck.tail
  have hbefore := before_breakerCalls hcheck.before_head
  -- the check saw a trip in force
  have hanswer := answer_of_split (hlog ▸ hinv.faithful) rfl
  obtain ⟨u, hu, hyoung⟩ :=
    (blocking_replay_iff hcalls hbefore).mp (isOpen_eq_true_iff.mp hanswer.symm)
  obtain ⟨counted, hcounted, hmany, hwindow⟩ := counted_of_latestTrip hcalls hu
  -- the failures that counted there are entries of the log
  rw [failureTimes_breakerCalls] at hcounted
  obtain ⟨entries, hentries, rfl⟩ := List.sublist_map_iff.mp hcounted
  refine ⟨u, entries.map Entry.pid, ?_, sub_lt_iff_lt_add'.mp hyoung, ?_, ?_, ?_⟩
  · obtain ⟨newer, older, hepoch, -⟩ := exists_of_latestTrip hu
    refine @before_epoch svc.breaker _ _ hbefore ⟨.recordFailure, u⟩ ?_
    rw [hepoch]
    exact List.mem_append_right _ List.mem_cons_self
  · have hvoters := (hentries.map Entry.pid).trans (failureEntries_voters pre)
    exact hs.voters_nodup.sublist (hvoters.trans ((hpre.filter _).map _))
  · rw [List.length_map] at hmany ⊢
    exact hmany
  · intro p hp
    obtain ⟨entry, hentry, rfl⟩ := List.mem_map.mp hp
    obtain ⟨hmem, hevent⟩ := mem_failureEntries.mp (hentries.subset hentry)
    obtain ⟨hlow, hhigh⟩ := hwindow _ (List.mem_map_of_mem hentry)
    obtain ⟨started, req, hstart, hle⟩ :=
      hs.start_of_verdict (hpre.subset hmem) (by rw [hevent]; rfl)
    exact ⟨entry.time, started, req, hevent ▸ hpre.subset hmem, hlow, hhigh, hstart, hle⟩

/-- When a request was turned away. -/
def rejections (log : Log) : List (ℕ × ℚ) :=
  log.filterMap fun entry =>
    match entry.event with
    | .isOpen true => some (entry.pid, entry.time)
    | _ => none

lemma mem_of_mem_rejections {log : Log} {pid : ℕ} {t : ℚ} (h : (pid, t) ∈ rejections log) :
    ⟨pid, t, .isOpen true⟩ ∈ log := by
  obtain ⟨⟨pid', t', event⟩, hmem, heq⟩ := List.mem_filterMap.mp h
  dsimp only at heq
  split at heq
  · cases heq
    exact hmem
  · cases heq

/-- Ten seconds after five streams failed another one comes. -/
theorem rejections_justified_lateFollower :
    ∃ (u : ℚ) (failed : List ℕ), u ≤ 15 ∧ 15 < u + 60 ∧ failed.Nodup ∧ 5 ≤ failed.length ∧
      ∀ p ∈ failed, ∃ v started req,
        ⟨p, v, .recordFailure⟩ ∈
          (after sample (lateFollower ++ [.stream 7 sampleRequest, .streamInput 7 .pull])).log ∧
        u - 30 ≤ v ∧ v ≤ u ∧
        ⟨p, started, .providerStart req⟩ ∈
          (after sample (lateFollower ++ [.stream 7 sampleRequest, .streamInput 7 .pull])).log ∧
        started ≤ v :=
  @rejections_justified sample _ (reachable_after sample _) 7 15
    (mem_of_mem_rejections (by decide +kernel))

end Gateway
end InferenceApi
