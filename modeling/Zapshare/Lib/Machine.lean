import Mathlib.Data.List.Basic
import Mathlib.Tactic.Common

/-!
# Machines that react to inputs

A machine is a function `step : σ → ι → σ × List ω`: in a state, on an input, it moves to another
state and emits some outputs. A run is a list of inputs, and its trace records what happened at
each of them.

## Main results

* `Machine.final_invariant`, `Machine.trace_invariant` — what every step preserves, every run does
* `Machine.stateAt_succ` — an infinite run, one step at a time
* `Machine.trace_keep` — inputs a machine ignores may be deleted from a run without a trace
* `Machine.potential` — the potential method, for the outputs of a run
* `Machine.countdown` — what every counted step brings closer, so does the run
* `Machine.Refines.final`, `outputs`, `count` — what one machine does, the one it refines does
-/

namespace Machine

variable {σ ι ω : Type*}

/-- What happened at one input of a run. -/
structure Entry (σ ι ω : Type*) where
  before : σ
  input : ι
  after : σ
  output : List ω

/-- The state after a run. -/
def final (step : σ → ι → σ × List ω) (s : σ) (is : List ι) : σ :=
  is.foldl (fun s i => (step s i).1) s

/-- What happened at each input of a run. -/
def trace (step : σ → ι → σ × List ω) : σ → List ι → List (Entry σ ι ω)
  | _, [] => []
  | s, i :: is => ⟨s, i, (step s i).1, (step s i).2⟩ :: trace step (step s i).1 is

/-- Everything a run emitted, in order. -/
def outputs (step : σ → ι → σ × List ω) (s : σ) (is : List ι) : List ω :=
  (trace step s is).flatMap Entry.output

variable {step : σ → ι → σ × List ω} {s : σ} {is : List ι}

@[simp] theorem final_nil : final step s [] = s := rfl

@[simp] theorem final_cons (i : ι) : final step s (i :: is) = final step (step s i).1 is := rfl

theorem final_append (is is' : List ι) :
    final step s (is ++ is') = final step (final step s is) is' :=
  List.foldl_append

@[simp] theorem trace_nil : trace step s [] = [] := rfl

@[simp] theorem trace_cons (i : ι) :
    trace step s (i :: is)
      = ⟨s, i, (step s i).1, (step s i).2⟩ :: trace step (step s i).1 is := rfl

@[simp] theorem outputs_nil : outputs step s [] = [] := rfl

@[simp] theorem outputs_cons (i : ι) :
    outputs step s (i :: is) = (step s i).2 ++ outputs step (step s i).1 is := rfl

theorem trace_append (is is' : List ι) :
    trace step s (is ++ is') = trace step s is ++ trace step (final step s is) is' := by
  induction is generalizing s with
  | nil => rfl
  | cons i is ih => simp [ih]

/-- The last entry of a trace. -/
theorem last_mem_trace (step : σ → ι → σ × List ω) (s : σ) (is : List ι) (i : ι) :
    (⟨final step s is, i, (step (final step s is) i).1, (step (final step s is) i).2⟩ : Entry σ ι ω)
      ∈ trace step s (is ++ [i]) := by
  rw [trace_append]
  exact List.mem_append_right _ List.mem_cons_self

/-- An entry of a trace is one step of the machine. -/
theorem step_of_mem_trace {e : Entry σ ι ω} (h : e ∈ trace step s is) :
    step e.before e.input = (e.after, e.output) ∧ e.input ∈ is := by
  induction is generalizing s with
  | nil => simp at h
  | cons i is ih =>
    rcases List.mem_cons.mp h with rfl | h
    · exact ⟨rfl, List.mem_cons_self⟩
    · exact ⟨(ih h).1, List.mem_cons_of_mem i (ih h).2⟩

/-- **A split of the trace is a split of the run.** The entries in front are the trace of the
inputs in front, and the entry is the step taken from where they lead. -/
theorem trace_split {pre post : List (Entry σ ι ω)} {e : Entry σ ι ω}
    (h : trace step s is = pre ++ e :: post) :
    ∃ before i after, is = before ++ i :: after ∧ pre = trace step s before ∧
      e = ⟨final step s before, i, (step (final step s before) i).1,
        (step (final step s before) i).2⟩ := by
  induction is generalizing s pre with
  | nil => simp at h
  | cons i is ih =>
    cases pre with
    | nil =>
      simp only [trace_cons, List.nil_append, List.cons.injEq] at h
      exact ⟨[], i, is, rfl, rfl, h.1.symm⟩
    | cons e' pre =>
      simp only [trace_cons, List.cons_append, List.cons.injEq] at h
      obtain ⟨before, j, after, rfl, hpre, he⟩ := ih h.2
      exact ⟨i :: before, j, after, rfl, by rw [trace_cons, h.1, hpre], he⟩

/-- An entry of a trace splits the run: the inputs before it lead to its first state. -/
theorem exists_split_of_mem_trace {e : Entry σ ι ω} (h : e ∈ trace step s is) :
    ∃ pre post, is = pre ++ e.input :: post ∧ e.before = final step s pre := by
  obtain ⟨pre, post, hsplit⟩ := List.append_of_mem h
  obtain ⟨before, i, after, his, -, rfl⟩ := trace_split hsplit
  exact ⟨before, after, his, rfl⟩

/-! ### Invariants -/

/-- **What every step preserves, every run does.** The inputs may be restricted by `Q`. -/
theorem final_invariant {P : σ → Prop} {Q : ι → Prop}
    (hstep : ∀ s i, P s → Q i → P (step s i).1) (hs : P s) (hQ : ∀ i ∈ is, Q i) :
    P (final step s is) := by
  induction is generalizing s with
  | nil => exact hs
  | cons i is ih =>
    exact ih (hstep s i hs (hQ i List.mem_cons_self)) fun j hj => hQ j (List.mem_cons_of_mem i hj)

/-- What every step of a run preserves, the run does. -/
theorem final_of_trace {P : σ → Prop} (hstep : ∀ e ∈ trace step s is, P e.before → P e.after)
    (hs : P s) : P (final step s is) := by
  induction is generalizing s with
  | nil => exact hs
  | cons i is ih =>
    refine ih (fun e he => hstep e (List.mem_cons_of_mem _ he)) ?_
    exact hstep _ List.mem_cons_self hs

/-- An invariant holds before and after every entry of a trace. -/
theorem trace_invariant {P : σ → Prop} {Q : ι → Prop}
    (hstep : ∀ s i, P s → Q i → P (step s i).1) (hs : P s) (hQ : ∀ i ∈ is, Q i) :
    ∀ e ∈ trace step s is, P e.before ∧ P e.after := by
  intro e he
  obtain ⟨pre, post, hsplit, hbefore⟩ := exists_split_of_mem_trace he
  have hpre : P e.before := by
    rw [hbefore]
    refine final_invariant hstep hs fun i hi => hQ i ?_
    rw [hsplit]
    exact List.mem_append_left _ hi
  obtain ⟨hst, hin⟩ := step_of_mem_trace he
  have := hstep e.before e.input hpre (hQ _ hin)
  rw [hst] at this
  exact ⟨hpre, this⟩

/-! ### Infinite runs -/

/-- The state before input `n` of infinitely many. -/
def stateAt (step : σ → ι → σ × List ω) (s : σ) (inputs : ℕ → ι) (n : ℕ) : σ :=
  final step s ((List.range n).map inputs)

@[simp] theorem stateAt_zero (inputs : ℕ → ι) : stateAt step s inputs 0 = s := rfl

theorem stateAt_succ (inputs : ℕ → ι) (n : ℕ) :
    stateAt step s inputs (n + 1) = (step (stateAt step s inputs n) (inputs n)).1 := by
  rw [stateAt, List.range_succ, List.map_append, final_append]
  rfl

/-! ### Ignored inputs -/

/-- The inputs of a run that are left when those `drop` names are deleted; `drop` sees the state
the input meets. -/
def keep (step : σ → ι → σ × List ω) (drop : σ → ι → Bool) : σ → List ι → List ι
  | _, [] => []
  | s, i :: is =>
    if drop s i then keep step drop (step s i).1 is else i :: keep step drop (step s i).1 is

/-- **Ignored inputs leave no trace.** Where every deleted input left the state as it was and
emitted nothing, the run without them passes through the same states, at the same inputs, with
the same outputs. -/
theorem trace_keep {drop : σ → ι → Bool}
    (h : ∀ e ∈ trace step s is, drop e.before e.input → step e.before e.input = (e.before, [])) :
    trace step s (keep step drop s is)
      = (trace step s is).filter fun e => !drop e.before e.input := by
  induction is generalizing s with
  | nil => rfl
  | cons i is ih =>
    have hrest := ih fun e he => h e (List.mem_cons_of_mem _ he)
    rw [keep, trace_cons, List.filter_cons]
    split
    · rename_i hdrop
      have hstep : step s i = (s, []) := h _ List.mem_cons_self hdrop
      rw [hstep] at hrest ⊢
      simp [hdrop, hrest]
    · rename_i hdrop
      simp [hdrop, hrest]

/-- The run without the ignored inputs ends in the same state, and has emitted the same. -/
theorem run_keep {drop : σ → ι → Bool}
    (h : ∀ e ∈ trace step s is, drop e.before e.input → step e.before e.input = (e.before, [])) :
    final step s (keep step drop s is) = final step s is ∧
      outputs step s (keep step drop s is) = outputs step s is := by
  induction is generalizing s with
  | nil => exact ⟨rfl, rfl⟩
  | cons i is ih =>
    have hrest := ih fun e he => h e (List.mem_cons_of_mem _ he)
    rw [keep, final_cons, outputs_cons]
    split
    · rename_i hdrop
      have hstep : step s i = (s, []) := h _ List.mem_cons_self hdrop
      rw [hstep] at hrest ⊢
      exact hrest
    · rw [final_cons, outputs_cons, hrest.2]
      exact ⟨hrest.1, rfl⟩

/-! ### Counting -/

/-- The number of steps of a run at which `p` holds of the state and the input. -/
def count (step : σ → ι → σ × List ω) (p : σ → ι → Bool) : σ → List ι → ℕ
  | _, [] => 0
  | s, i :: is => (if p s i then 1 else 0) + count step p (step s i).1 is

@[simp] theorem count_nil {p : σ → ι → Bool} : count step p s [] = 0 := rfl

theorem count_append {p : σ → ι → Bool} (is is' : List ι) :
    count step p s (is ++ is') = count step p s is + count step p (final step s is) is' := by
  induction is generalizing s with
  | nil => simp
  | cons i is ih =>
    rw [List.cons_append, count, ih, count, final_cons, Nat.add_assoc]

theorem count_concat {p : σ → ι → Bool} (is : List ι) (i : ι) :
    count step p s (is ++ [i]) = count step p s is + if p (final step s is) i then 1 else 0 := by
  rw [count_append]
  rfl

theorem final_concat (is : List ι) (i : ι) :
    final step s (is ++ [i]) = (step (final step s is) i).1 := by
  rw [final_append]
  rfl

theorem count_range_succ {p : σ → ι → Bool} (inputs : ℕ → ι) (n : ℕ) :
    count step p s ((List.range (n + 1)).map inputs)
      = count step p s ((List.range n).map inputs)
        + if p (stateAt step s inputs n) (inputs n) then 1 else 0 := by
  rw [List.range_succ, List.map_append]
  exact count_concat _ _

theorem count_range_add {p : σ → ι → Bool} (inputs : ℕ → ι) (m n : ℕ) :
    count step p s ((List.range (m + n)).map inputs)
      = count step p s ((List.range m).map inputs)
        + count step p (stateAt step s inputs m)
            ((List.range n).map fun k => inputs (m + k)) := by
  rw [List.range_add, List.map_append, count_append, List.map_map]
  rfl

theorem count_range_mono {p : σ → ι → Bool} (inputs : ℕ → ι) {m n : ℕ} (h : m ≤ n) :
    count step p s ((List.range m).map inputs) ≤ count step p s ((List.range n).map inputs) := by
  obtain ⟨k, rfl⟩ := Nat.exists_eq_add_of_le h
  rw [count_range_add]
  exact Nat.le_add_right _ _

/-- Two inputs that count. -/
theorem two_le_count {p : σ → ι → Bool} {inputs : ℕ → ι} {m n : ℕ} (hmn : m < n)
    (hm : p (stateAt step s inputs m) (inputs m) = true)
    (hn : p (stateAt step s inputs n) (inputs n) = true) :
    2 ≤ count step p s ((List.range (n + 1)).map inputs) := by
  have hfirst : count step p s ((List.range (m + 1)).map inputs)
      = count step p s ((List.range m).map inputs) + 1 := by
    rw [count_range_succ, if_pos hm]
  have hbetween : count step p s ((List.range (m + 1)).map inputs)
      ≤ count step p s ((List.range n).map inputs) :=
    count_range_mono inputs hmn
  rw [count_range_succ, if_pos hn]
  omega

/-- **The potential method.** Where the outputs a step counts are paid for by the potential, up to
`cost` for each step that is charged, a run outputs no more than its first potential and its
charges. -/
theorem potential {I : σ → Prop} {q : ω → Bool} {charged : σ → ι → Bool} {Φ : σ → ℕ} {cost : ℕ}
    (hinv : ∀ s i, I s → I (step s i).1)
    (hstep : ∀ s i, I s → (step s i).2.countP q + Φ (step s i).1
      ≤ Φ s + if charged s i then cost else 0)
    (hs : I s) (is : List ι) :
    (outputs step s is).countP q + Φ (final step s is) ≤ Φ s + cost * count step charged s is := by
  induction is generalizing s with
  | nil => simp
  | cons i is ih =>
    have hfirst := hstep s i hs
    have hrest := ih (hinv s i hs)
    have hcharge : cost * count step charged s (i :: is)
        = (if charged s i then cost else 0) + cost * count step charged (step s i).1 is := by
      rw [count, Nat.mul_add]
      split <;> simp
    rw [outputs_cons, List.countP_append, final_cons, hcharge]
    omega

/-- **A countdown.** Where each step that counts takes one from what is left to do, and the others
take nothing, so does a run. The inputs may be restricted by `Q`. -/
theorem countdown {I : ℕ → σ → Prop} {Q : ι → Prop} {p : σ → ι → Bool}
    (hstep : ∀ n s i, I n s → Q i → ∃ m, n = m + (if p s i then 1 else 0) ∧ I m (step s i).1)
    {n : ℕ} (hs : I n s) (hQ : ∀ i ∈ is, Q i) :
    ∃ m, n = m + count step p s is ∧ I m (final step s is) := by
  induction is generalizing s n with
  | nil => exact ⟨n, rfl, hs⟩
  | cons i is ih =>
    obtain ⟨m, hm, hnext⟩ := hstep n s i hs (hQ i List.mem_cons_self)
    obtain ⟨k, hk, hlast⟩ := ih hnext fun j hj => hQ j (List.mem_cons_of_mem i hj)
    exact ⟨k, by rw [count]; omega, hlast⟩

/-! ### Refinement

Where each step of one machine is, through `f` on its states and `g` on its outputs, the step of
another, the runs of the one are the runs of the other. The states may be restricted by an
invariant `P` of the first machine. -/

section Refinement

variable {σ' ω' : Type*} {step' : σ' → ι → σ' × List ω'} {f : σ → σ'} {g : ω → ω'} {P : σ → Prop}

/-- One machine refines another, through `f` and `g`, wherever the invariant `P` holds. -/
def Refines (step : σ → ι → σ × List ω) (step' : σ' → ι → σ' × List ω') (f : σ → σ') (g : ω → ω')
    (P : σ → Prop) : Prop :=
  ∀ s i, P s → P (step s i).1 ∧ step' (f s) i = (f (step s i).1, (step s i).2.map g)

theorem Refines.invariant (h : Refines step step' f g P) (hs : P s) (is : List ι) :
    P (final step s is) :=
  final_invariant (Q := fun _ => True) (fun s i hs _ => (h s i hs).1) hs fun _ _ => trivial

theorem Refines.final (h : Refines step step' f g P) (hs : P s) (is : List ι) :
    final step' (f s) is = f (final step s is) := by
  induction is generalizing s with
  | nil => rfl
  | cons i is ih =>
    rw [final_cons, (h s i hs).2, final_cons]
    exact ih (h s i hs).1

theorem Refines.outputs (h : Refines step step' f g P) (hs : P s) (is : List ι) :
    outputs step' (f s) is = (outputs step s is).map g := by
  induction is generalizing s with
  | nil => rfl
  | cons i is ih =>
    rw [outputs_cons, (h s i hs).2, outputs_cons, List.map_append]
    exact congrArg _ (ih (h s i hs).1)

theorem Refines.count (h : Refines step step' f g P) (hs : P s) {p : σ → ι → Bool}
    {p' : σ' → ι → Bool} (hp : ∀ s i, P s → p' (f s) i = p s i) (is : List ι) :
    count step' p' (f s) is = count step p s is := by
  induction is generalizing s with
  | nil => rfl
  | cons i is ih =>
    rw [Machine.count, Machine.count, hp s i hs, (h s i hs).2]
    exact congrArg _ (ih (h s i hs).1)

end Refinement

end Machine
