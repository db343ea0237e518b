import Mathlib

/-!
# Sliding windows over timestamped events

An event counts at time `t` as long as its age `t - time e` is still `live`. The
predicate is *fading*: once an age is dead every larger age is. Two consequences carry
everything built on top:

* pruning a log at an earlier instant is invisible to every later count
  (`recent_recent`), so an implementation may throw away what is dead now;
* a log that is below a limit at each of its own events is below that limit in *every*
  window, not only in those ending at an event (`window_length_le`).
-/

namespace SlidingWindow

/-- A notion of age that never comes back to life. -/
structure Window (τ : Type*) [LE τ] where
  /-- Does an event of this age still count? -/
  live : τ → Bool
  /-- A smaller age is live whenever a larger one is. -/
  fading : ∀ {a b : τ}, a ≤ b → live b = true → live a = true

variable {τ ε : Type*}

/-! ## The order of a log -/

section Order

variable [Preorder τ] {time : ε → τ} {t t' : τ} {e : ε} {l : List ε}

/-- No event of the log lies after `t`. -/
def Before (time : ε → τ) (t : τ) (l : List ε) : Prop := ∀ e ∈ l, time e ≤ t

/-- A log kept newest first. -/
def NewestFirst (time : ε → τ) (l : List ε) : Prop := l.Pairwise fun e older => time older ≤ time e

lemma NewestFirst.before_head (h : NewestFirst time (e :: l)) : Before time (time e) l :=
  fun _ hx => List.rel_of_pairwise_cons h hx

lemma NewestFirst.tail (h : NewestFirst time (e :: l)) : NewestFirst time l :=
  (List.pairwise_cons.mp h).2

lemma NewestFirst.cons (h : NewestFirst time l) (he : Before time (time e) l) :
    NewestFirst time (e :: l) :=
  List.pairwise_cons.mpr ⟨he, h⟩

lemma Before.mono (h : Before time t l) (htt : t ≤ t') : Before time t' l :=
  fun e he => (h e he).trans htt

lemma Before.cons (h : Before time t l) (he : time e ≤ t) : Before time t (e :: l) := by
  intro x hx
  rcases List.mem_cons.mp hx with rfl | hx
  · exact he
  · exact h x hx

end Order

/-! ## Counting -/

section Counting

variable [AddCommGroup τ] [LinearOrder τ] {w : Window τ} {time : ε → τ} {t t' : τ} {e : ε}
  {l : List ε}

/-- The events of `l` that count at time `t`. -/
def recent (w : Window τ) (time : ε → τ) (t : τ) (l : List ε) : List ε :=
  l.filter fun e => w.live (t - time e)

/-- The events of `l` in the window that ends at `t`: not after `t` and still live. -/
def window (w : Window τ) (time : ε → τ) (t : τ) (l : List ε) : List ε :=
  l.filter fun e => decide (time e ≤ t) && w.live (t - time e)

/-- Every event was within the limit, itself included, when it was logged. -/
inductive Bounded (w : Window τ) (time : ε → τ) (limit : ℕ) : List ε → Prop
  | nil : Bounded w time limit []
  | cons {e : ε} {l : List ε} : (recent w time (time e) (e :: l)).length ≤ limit →
      Bounded w time limit l → Bounded w time limit (e :: l)

lemma recent_append (l₁ l₂ : List ε) :
    recent w time t (l₁ ++ l₂) = recent w time t l₁ ++ recent w time t l₂ :=
  List.filter_append ..

lemma recent_cons_live (h : w.live (t - time e) = true) :
    recent w time t (e :: l) = e :: recent w time t l := by
  rw [recent, List.filter_cons_of_pos (by simpa using h)]
  rfl

variable [IsOrderedAddMonoid τ]

/-- What counts later counted earlier. -/
lemma live_of_later (htt : t ≤ t') (h : w.live (t' - time e) = true) :
    w.live (t - time e) = true :=
  w.fading (sub_le_sub_right htt _) h

/-- **Pruning is invisible later.** Dropping what is dead at `t` changes no count at a
later `t'`. -/
theorem recent_recent (htt : t ≤ t') :
    recent w time t' (recent w time t l) = recent w time t' l := by
  rw [recent, recent, List.filter_filter]
  refine List.filter_congr fun e _ => ?_
  cases h : w.live (t' - time e) with
  | false => rfl
  | true => rw [live_of_later htt h, Bool.and_self]

end Counting

/-! ## From bounds at the events to a bound in every window -/

section Bound

variable [AddCommGroup τ] [LinearOrder τ] [IsOrderedAddMonoid τ] {w : Window τ} {time : ε → τ}
  {t : τ} {e : ε} {l : List ε}

/-- A window that contains the newest event holds nothing that was dead for it. -/
lemma window_length_le_of_head (he : time e ≤ t) :
    (window w time t (e :: l)).length ≤ (recent w time (time e) (e :: l)).length := by
  refine List.Sublist.length_le (List.monotone_filter_right _ fun x hx => ?_)
  rw [Bool.and_eq_true] at hx
  exact live_of_later he hx.2

/-- **Every window is bounded.** If a log was within the limit at each of its events,
then no window, wherever it ends, holds more events than the limit. -/
theorem window_length_le {limit : ℕ} (hl : Bounded w time limit l) (t : τ) :
    (window w time t l).length ≤ limit := by
  induction hl with
  | nil => exact Nat.zero_le _
  | @cons e l hhead _ ih =>
    by_cases hmem : time e ≤ t ∧ w.live (t - time e) = true
    · -- the window reaches the newest event, whose own bound covers it
      exact (window_length_le_of_head hmem.1).trans hhead
    · have hskip : window w time t (e :: l) = window w time t l := by
        rw [window, List.filter_cons_of_neg (by simpa using hmem)]
        rfl
      rw [hskip]
      exact ih

end Bound

end SlidingWindow
