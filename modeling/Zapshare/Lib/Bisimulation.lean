import Zapshare.Lib.Machine

/-!
# States that cannot be told apart

A bisimulation relates states in which every input is answered alike, and leads to related states
again. An input that is silent leads to a state related to the one it met, whichever that was: a run
without it is answered as the run with it.

## Main results

* `Machine.Bisimulation.outputs` — related states answer every run alike
* `Machine.Bisimulation.filter` — silent inputs may be left out
-/

namespace Machine

variable {σ ι ω : Type*} {step : σ → ι → σ × List ω} {R : σ → σ → Prop} {s s' : σ} {is : List ι}

/-- Related states answer every input alike, and stay related. -/
def Bisimulation (step : σ → ι → σ × List ω) (R : σ → σ → Prop) : Prop :=
  ∀ s s' i, R s s' → R (step s i).1 (step s' i).1 ∧ (step s i).2 = (step s' i).2

/-- The input leads to a state that is related to the one it meets. -/
def Silent (step : σ → ι → σ × List ω) (R : σ → σ → Prop) (i : ι) : Prop :=
  ∀ s, R (step s i).1 s

/-- The outputs at each of the inputs that `p` names. -/
def outputsAt (step : σ → ι → σ × List ω) (p : ι → Bool) (s : σ) (is : List ι) : List (List ω) :=
  ((trace step s is).filter fun e => p e.input).map Entry.output

namespace Bisimulation

variable (h : Bisimulation step R)

include h

theorem final (hs : R s s') (is : List ι) : R (final step s is) (final step s' is) := by
  induction is generalizing s s' with
  | nil => exact hs
  | cons i is ih => exact ih (h s s' i hs).1

theorem outputs (hs : R s s') (is : List ι) : outputs step s is = outputs step s' is := by
  induction is generalizing s s' with
  | nil => rfl
  | cons i is ih => rw [outputs_cons, outputs_cons, (h s s' i hs).2, ih (h s s' i hs).1]

/-- **Silent inputs may be left out.** The run without them is answered as before, and ends in a
related state. -/
theorem filter (htrans : ∀ {s₁ s₂ s₃}, R s₁ s₂ → R s₂ s₃ → R s₁ s₃) {p : ι → Bool}
    (hsilent : ∀ i, p i = false → Silent step R i) (hs : R s s') (is : List ι) :
    outputsAt step p s is = (trace step s' (is.filter p)).map Entry.output ∧
      R (Machine.final step s is) (Machine.final step s' (is.filter p)) := by
  induction is generalizing s s' with
  | nil => exact ⟨rfl, hs⟩
  | cons i is ih =>
    cases hp : p i with
    | true =>
      obtain ⟨hnext, houtput⟩ := h s s' i hs
      obtain ⟨houtputs, hfinal⟩ := ih hnext
      rw [List.filter_cons, if_pos hp]
      refine ⟨?_, hfinal⟩
      rw [outputsAt, trace_cons, List.filter_cons, if_pos hp, List.map_cons, trace_cons,
        List.map_cons, ← houtputs, ← houtput]
      rfl
    | false =>
      have hkept : ¬ p i = true := by simp [hp]
      obtain ⟨houtputs, hfinal⟩ := ih (htrans (hsilent i hp s) hs)
      rw [List.filter_cons, if_neg hkept]
      refine ⟨?_, hfinal⟩
      rw [outputsAt, trace_cons, List.filter_cons, if_neg hkept, ← houtputs]
      rfl

end Bisimulation

end Machine
