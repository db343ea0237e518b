import InferenceApi.Gateway.CacheSoundness
import InferenceApi.Services.Endings

/-!
# What a call of `infer` ends with

`Ending` for the calls in the gateway, and what a response says about the completion it was
built from.
-/

namespace InferenceApi
namespace Gateway

open Transition

variable {svc : InferenceService} {s s' : Gateway} {a : Action} {pid : ℕ} {call : InferCall}
  {resp : InferResponse} {out : Except Exn InferResponse}

/-- A response to a cached completion is made of a presentable one, and says so. -/
lemma of_respondCached {now : ℚ} {req : InferRequest} {done : Completion}
    (h : respondCached svc now call (done.payload req) = .ok resp) :
    done.Presentable svc ∧ resp.cacheHit = true := by
  obtain ⟨-, houtput, -, husage, -, hhit⟩ := InferResponse.validate_eq_ok h
  exact ⟨⟨_, _, houtput, husage⟩, hhit⟩

/-- The response to a call's own completion serves its result, and says so. -/
lemma serves_of_buildResponse {now : ℚ} {result : Json} {done : Completion}
    (hdone : Completes svc call.req result done)
    (h : buildResponse svc now call done.output (.str call.req.model) done.usage.toJson false =
      .ok resp) :
    done.Presentable svc ∧ Serves svc call.req result resp ∧ resp.cacheHit = false := by
  obtain ⟨-, houtput, hmodel, husage, -, hhit⟩ := InferResponse.validate_eq_ok h
  exact ⟨⟨_, _, houtput, husage⟩,
    ⟨houtput ▸ hdone.output, (Json.str.inj hmodel).symm, done.usage, hdone.usage, husage⟩, hhit⟩

/-- A result with which a call completes succeeds exactly if the completion is presentable. -/
lemma succeeds_iff {req : InferRequest} {result : Json} {done : Completion}
    (hdone : Completes svc req result done) : Succeeds svc req result ↔ done.Presentable svc := by
  constructor
  · rintro ⟨done', hdone', hpresentable⟩
    rwa [hdone.unique hdone']
  · intro hpresentable
    exact ⟨done, hdone, hpresentable⟩

/-- How a call ends in the gateway, and whether a Redis error ends it. -/
lemma ending_of_returned (hs : Reachable svc s) (hstep : step svc s a = some s')
    (hp : s.procs pid = .infer call) (hret : Did s s' pid (.returned out))
    (hclosed : ∀ t, ⟨pid, t, .isOpen true⟩ ∉ s'.log) :
    Ending svc s.now call (own pid s'.log) out ∧
      (call.status.Failing ↔
        ∃ t op err, ⟨pid, t, .redisError op err⟩ ∈ s.log ∧ err ≠ .connectionError) := by
  obtain ⟨call₀, input, b, hp₀, hb, hfin, rfl⟩ := turn_of_returned hstep hret
  cases hp.symm.trans hp₀
  have hown := hs.ownInv pid
  rw [hp] at hown
  have hopen : .isOpen true ∉ b.events := fun h =>
    hclosed _ (List.mem_append_left _ (mem_stamp.mpr ⟨rfl, rfl, h⟩))
  constructor
  · rw [act_log, own_stamp_self]
    exact ending_of_run (InferRun.providerInv hown) hb hfin hopen
  · rcases InferRun.redisInv hown with ⟨_, hfinished⟩ | hredis
    · -- a call that has ended does not end again
      cases run_case hb <;> simp_all
    · rw [← hredis]
      simp only [OtherRedisError, happened_own]
      constructor
      · rintro ⟨op, err, ⟨t, ht⟩, hne⟩
        exact ⟨t, op, err, ht, hne⟩
      · rintro ⟨t, op, err, ht, hne⟩
        exact ⟨op, err, ⟨t, ht⟩, hne⟩

/-! ## The provider's result in the log -/

section Results

variable {log : Log} {req : InferRequest} {r r₀ : Except Exn Json}

lemma exists_providerEnd_iff : (∃ t, ⟨pid, t, .providerEnd req r⟩ ∈ log) ↔
    .providerEnd req r ∈ providerEvents (own pid log) := by
  rw [← happened_own, happened_iff_mem_providerEvents rfl]

/-- A call without provider events has got no result. -/
lemma not_providerEnd_of_nil (hnil : providerEvents (own pid log) = []) {t : ℚ} :
    ⟨pid, t, .providerEnd req r⟩ ∉ log := by
  intro hmem
  have hend := exists_providerEnd_iff.mp ⟨t, hmem⟩
  rw [hnil] at hend
  cases hend

lemma exists_providerEnd (hpart : providerEvents (own pid log) =
    resultEvents svc req r ++ [.providerStart req]) : ∃ t, ⟨pid, t, .providerEnd req r⟩ ∈ log := by
  rw [exists_providerEnd_iff, hpart, providerEnd_mem_resultEvents]
  exact ⟨rfl, rfl⟩

/-- A call reaches its provider at most once: what came back then is all that ever did. -/
lemma eq_of_providerEnd (hpart : providerEvents (own pid log) =
    resultEvents svc req r₀ ++ [.providerStart req]) {t : ℚ}
    (hmem : ⟨pid, t, .providerEnd req r⟩ ∈ log) : r = r₀ := by
  have hend := exists_providerEnd_iff.mp ⟨t, hmem⟩
  rw [hpart, providerEnd_mem_resultEvents] at hend
  exact hend.2

end Results

/-- How the calls in a log ended, newest first. -/
def outcomes (log : Log) : List (ℕ × Except Exn InferResponse) :=
  log.filterMap fun entry =>
    match entry.event with
    | .returned out => some (entry.pid, out)
    | _ => none

lemma did_of_mem_outcomes (h : step svc s a = some s') (hmem : (pid, out) ∈ outcomes (added s s')) :
    Did s s' pid (.returned out) := by
  obtain ⟨⟨pid', t, event⟩, hadded, hentry⟩ := List.mem_filterMap.mp hmem
  dsimp only at hentry
  split at hentry
  · cases hentry
    exact did_of_mem_added h hadded
  · cases hentry

end Gateway
end InferenceApi
