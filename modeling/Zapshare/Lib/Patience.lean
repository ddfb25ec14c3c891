import Mathlib.Order.Interval.Finset.Nat

/-!
# Counters that start over

A counter over the steps of an infinite run goes up at the ticks, starts over at the resets, and
stays as it is otherwise. What it shows is the number of ticks since the last reset.

## Main results

* `Patience.exists_stretch` — a counter shows the ticks of a stretch without a reset
* `Patience.ticks_le` — and it has seen all the ticks of every such stretch
-/

namespace Patience

variable {tick reset : ℕ → Prop} [DecidablePred tick]

/-- The number of ticks from step `m` on and before step `n`. -/
def ticks (tick : ℕ → Prop) [DecidablePred tick] (m n : ℕ) : ℕ :=
  ((Finset.Ico m n).filter tick).card

@[simp] theorem ticks_self (n : ℕ) : ticks tick n n = 0 := by simp [ticks]

theorem ticks_succ {m n : ℕ} (h : m ≤ n) :
    ticks tick m (n + 1) = ticks tick m n + if tick n then 1 else 0 := by
  have hnew : n ∉ (Finset.Ico m n).filter tick := by simp
  rw [ticks, Nat.Ico_succ_right_eq_insert_Ico h, Finset.filter_insert]
  by_cases htick : tick n
  · rw [if_pos htick, if_pos htick, Finset.card_insert_of_notMem hnew, ticks]
  · rw [if_neg htick, if_neg htick, ticks, Nat.add_zero]

/-- The ticks of the run from step `N` on. -/
theorem ticks_shift (tick : ℕ → Prop) [DecidablePred tick] (N m n : ℕ) :
    ticks (fun k => tick (N + k)) m n = ticks tick (N + m) (N + n) := by
  rcases Nat.le_total m n with hmn | hnm
  · induction n, hmn using Nat.le_induction with
    | base => rw [ticks_self, ticks_self]
    | succ n hmn ih =>
      rw [ticks_succ hmn, ih, ← Nat.add_assoc, ticks_succ (Nat.add_le_add_left hmn N)]
  · rw [ticks, ticks, Finset.Ico_eq_empty (by omega), Finset.Ico_eq_empty (by omega)]
    rfl

/-- No step from `m` on and before `n` is a reset. -/
def Stretch (reset : ℕ → Prop) (m n : ℕ) : Prop := ∀ k, m ≤ k → k < n → ¬ reset k

theorem Stretch.mono {m n n' : ℕ} (h : Stretch reset m n') (hle : n ≤ n') : Stretch reset m n :=
  fun k hm hn => h k hm (Nat.lt_of_lt_of_le hn hle)

/-- The counter shows `r n` before step `n`, up to step `last`. -/
structure Counts (tick reset : ℕ → Prop) [DecidablePred tick] [DecidablePred reset] (r : ℕ → ℕ)
    (last : ℕ) : Prop where
  start : r 0 = 0
  step : ∀ n < last, r (n + 1) = if reset n then 0 else r n + if tick n then 1 else 0

variable [DecidablePred reset] {r : ℕ → ℕ} {last : ℕ}

/-- What the counter shows is the number of ticks since the last reset. -/
theorem exists_stretch (h : Counts tick reset r last) {n : ℕ} (hn : n ≤ last) :
    ∃ m ≤ n, Stretch reset m n ∧ r n = ticks tick m n := by
  induction n with
  | zero =>
    refine ⟨0, Nat.le_refl 0, ?_, by rw [h.start, ticks_self]⟩
    intro k _ hlt
    exact absurd hlt (Nat.not_lt_zero k)
  | succ n ih =>
    have hstep := h.step n hn
    by_cases hreset : reset n
    · rw [if_pos hreset] at hstep
      refine ⟨n + 1, Nat.le_refl _, ?_, by rw [hstep, ticks_self]⟩
      intro k hm hlt
      exact absurd hlt (Nat.not_lt.mpr hm)
    · rw [if_neg hreset] at hstep
      obtain ⟨m, hm, hstretch, hshown⟩ := ih (Nat.le_of_succ_le hn)
      refine ⟨m, Nat.le_succ_of_le hm, ?_, by rw [hstep, hshown, ticks_succ hm]⟩
      intro k hmk hlt
      rcases Nat.lt_succ_iff_lt_or_eq.mp hlt with hbefore | rfl
      · exact hstretch k hmk hbefore
      · exact hreset

/-- The counter has seen all the ticks since any step after which there was no reset. -/
theorem ticks_le (h : Counts tick reset r last) {m n : ℕ} (hmn : m ≤ n) (hn : n ≤ last)
    (hstretch : Stretch reset m n) : ticks tick m n ≤ r n := by
  induction n, hmn using Nat.le_induction with
  | base => simp
  | succ n hm ih =>
    have hrest := ih (Nat.le_of_succ_le hn) (hstretch.mono (Nat.le_succ n))
    rw [h.step n hn, if_neg (hstretch n hm (Nat.lt_succ_self n)), ticks_succ hm]
    exact Nat.add_le_add_right hrest _

end Patience
