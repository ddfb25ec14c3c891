import Zapshare.Lib.Machine

/-!
# Cells of a state

A cell is a part of the state of a machine that some inputs overwrite and all others leave as it is.
After a run it holds what was written last.

## Main results

* `Machine.Cell.read_final` — a cell holds what was written last
* `Machine.Cell.lastWrite_eq_some_iff` — where in the run that was
* `Machine.Cell.exists_first_write` — where something was written first
-/

namespace Machine

variable {σ ι ω α : Type*} {step : σ → ι → σ × List ω} {s : σ} {is : List ι}

/-- A part of the state, and what an input writes there. -/
structure Cell (step : σ → ι → σ × List ω) (α : Type*) where
  read : σ → α
  write : σ → ι → Option α
  read_step : ∀ s i, read (step s i).1 = (write s i).getD (read s)

namespace Cell

variable (c : Cell step α)

/-- What is written last in a run. -/
def lastWrite : σ → List ι → Option α
  | _, [] => none
  | s, i :: is => (lastWrite (step s i).1 is).or (c.write s i)

@[simp] theorem lastWrite_nil : c.lastWrite s [] = none := rfl

@[simp] theorem lastWrite_cons (i : ι) :
    c.lastWrite s (i :: is) = (c.lastWrite (step s i).1 is).or (c.write s i) := rfl

/-- **A cell holds what was written last.** -/
theorem read_final : c.read (final step s is) = (c.lastWrite s is).getD (c.read s) := by
  induction is generalizing s with
  | nil => rfl
  | cons i is ih =>
    rw [final_cons, ih, c.read_step, lastWrite_cons]
    cases c.lastWrite (step s i).1 is <;> rfl

theorem lastWrite_append (is is' : List ι) :
    c.lastWrite s (is ++ is') = (c.lastWrite (final step s is) is').or (c.lastWrite s is) := by
  induction is generalizing s with
  | nil => simp
  | cons i is ih => rw [List.cons_append, lastWrite_cons, ih, lastWrite_cons, final_cons,
      Option.or_assoc]

/-- Nothing is written in a run without writes. -/
theorem lastWrite_eq_none_iff :
    c.lastWrite s is = none ↔ ∀ e ∈ trace step s is, c.write e.before e.input = none := by
  induction is generalizing s with
  | nil => simp
  | cons i is ih =>
    rw [lastWrite_cons, Option.or_eq_none_iff, ih, trace_cons, List.forall_mem_cons, and_comm]

/-- **What is written last** is written at one of the inputs, and at none of those after it. -/
theorem lastWrite_eq_some_iff {a : α} :
    c.lastWrite s is = some a ↔ ∃ before i after, is = before ++ i :: after ∧
      c.write (final step s before) i = some a ∧
      c.lastWrite (step (final step s before) i).1 after = none := by
  constructor
  · intro h
    induction is generalizing s with
    | nil => cases h
    | cons i is ih =>
      cases hlast : c.lastWrite (step s i).1 is with
      | some b =>
        rw [lastWrite_cons, hlast] at h
        obtain ⟨before, j, after, rfl, hwrite, hafter⟩ := ih (hlast.trans h)
        exact ⟨i :: before, j, after, rfl, hwrite, hafter⟩
      | none =>
        rw [lastWrite_cons, hlast] at h
        exact ⟨[], i, is, rfl, h, hlast⟩
  · rintro ⟨before, i, after, rfl, hwrite, hafter⟩
    rw [lastWrite_append, lastWrite_cons, hafter, hwrite]
    rfl

/-- **What is written first** is written at one of the inputs, and at none of those before it. -/
theorem exists_first_write (h : c.lastWrite s is ≠ none) : ∃ before i after a,
    is = before ++ i :: after ∧ c.lastWrite s before = none ∧
      c.write (final step s before) i = some a := by
  induction is generalizing s with
  | nil => exact absurd rfl h
  | cons i is ih =>
    cases hwrite : c.write s i with
    | some a => exact ⟨[], i, is, a, rfl, rfl, hwrite⟩
    | none =>
      rw [lastWrite_cons, hwrite, Option.or_none] at h
      obtain ⟨before, j, after, a, rfl, hbefore, hj⟩ := ih h
      refine ⟨i :: before, j, after, a, rfl, ?_, hj⟩
      rw [lastWrite_cons, hbefore, hwrite]
      rfl

end Cell

end Machine
