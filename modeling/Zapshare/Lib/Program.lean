import Mathlib.Tactic.Common

/-!
# Programs that call operations

A program ends with a result or an exception, or calls an operation and goes on with its answer; an
operation may raise an exception, too. What the operations do is not part of the program: `run`
takes it as a function on states.

## Main results

* `Program.run_andThen`, `run_bind`, `run_recover`, `run_bracket` — what composed programs do
* `Program.run_readAt_congr` — a program that only reads depends on what it reads
-/

/-- A program with operations `ο`, whose answers are of the types `ρ`, and exceptions `ε`. -/
inductive Program (ο : Type) (ρ : ο → Type) (ε α : Type)
  | done (result : Except ε α)
  | call (op : ο) (next : Except ε (ρ op) → Program ο ρ ε α)

namespace Program

variable {ο : Type} {ρ : ο → Type} {ε α β σ : Type}

/-- Go on with the result of a program, whatever it is. -/
def andThen : Program ο ρ ε α → (Except ε α → Program ο ρ ε β) → Program ο ρ ε β
  | done r, f => f r
  | call op next, f => call op fun answer => (next answer).andThen f

/-- Call one operation. -/
def perform (op : ο) : Program ο ρ ε (ρ op) := call op done

/-- A result, or an exception, that takes no operation. -/
def lift (r : Except ε α) : Program ο ρ ε α := done r

/-- Go on with what a program returned; an exception is passed on. -/
def bind (p : Program ο ρ ε α) (f : α → Program ο ρ ε β) : Program ο ρ ε β :=
  p.andThen fun
    | .ok a => f a
    | .error e => done (.error e)

instance : Monad (Program ο ρ ε) where
  pure a := done (.ok a)
  bind := bind

/-- A handler for the exceptions of a program. -/
def recover (p : Program ο ρ ε α) (handler : ε → Program ο ρ ε α) : Program ο ρ ε α :=
  p.andThen fun
    | .ok a => done (.ok a)
    | .error e => handler e

/-- A program inside the lifetime of something: `acquire` comes before it, and `release` after it
unless its exception is one that skips it. -/
def bracket (acquire release : Program ο ρ ε Unit) (skips : ε → Bool) (p : Program ο ρ ε α) :
    Program ο ρ ε α :=
  acquire.bind fun _ => p.andThen fun
    | .ok a => release.andThen fun _ => done (.ok a)
    | .error e => if skips e then done (.error e) else release.andThen fun _ => done (.error e)

/-- Run a program, with `exec` for its operations. -/
def run (exec : (op : ο) → σ → Except ε (ρ op) × σ) : Program ο ρ ε α → σ → Except ε α × σ
  | done r, s => (r, s)
  | call op next, s => (next (exec op s).1).run exec (exec op s).2

variable {exec : (op : ο) → σ → Except ε (ρ op) × σ} {s : σ}

@[simp] theorem run_done (r : Except ε α) : (done r : Program ο ρ ε α).run exec s = (r, s) := rfl

@[simp] theorem run_pure (a : α) : (pure a : Program ο ρ ε α).run exec s = (.ok a, s) := rfl

theorem run_lift {r r' : Except ε α} (h : r = r') :
    (lift r : Program ο ρ ε α).run exec s = (r', s) := by
  rw [h]
  rfl

@[simp] theorem run_perform (op : ο) : (perform op).run exec s = exec op s := rfl

/-- A composed program runs the second part on what the first one left. -/
theorem run_andThen (p : Program ο ρ ε α) (f : Except ε α → Program ο ρ ε β) :
    (p.andThen f).run exec s = (f (p.run exec s).1).run exec (p.run exec s).2 := by
  induction p generalizing s with
  | done r => rfl
  | call op next ih => exact ih _

theorem run_bind (p : Program ο ρ ε α) (f : α → Program ο ρ ε β) :
    (p >>= f).run exec s =
      match p.run exec s with
      | (.ok a, s') => (f a).run exec s'
      | (.error e, s') => (.error e, s') := by
  refine (run_andThen p _).trans ?_
  obtain ⟨_ | _, _⟩ := p.run exec s <;> rfl

theorem run_bind_ok {p : Program ο ρ ε α} {s' : σ} {a : α} (h : p.run exec s = (.ok a, s'))
    (f : α → Program ο ρ ε β) : (p >>= f).run exec s = (f a).run exec s' := by
  rw [run_bind, h]

theorem run_bind_error {p : Program ο ρ ε α} {s' : σ} {e : ε} (h : p.run exec s = (.error e, s'))
    (f : α → Program ο ρ ε β) : (p >>= f).run exec s = (.error e, s') := by
  rw [run_bind, h]

theorem run_recover (p : Program ο ρ ε α) (handler : ε → Program ο ρ ε α) :
    (p.recover handler).run exec s =
      match p.run exec s with
      | (.ok a, s') => (.ok a, s')
      | (.error e, s') => (handler e).run exec s' := by
  refine (run_andThen p _).trans ?_
  obtain ⟨_ | _, _⟩ := p.run exec s <;> rfl

theorem run_bracket (acquire release : Program ο ρ ε Unit) (skips : ε → Bool)
    (p : Program ο ρ ε α) :
    (bracket acquire release skips p).run exec s =
      match acquire.run exec s with
      | (.error e, s') => (.error e, s')
      | (.ok _, s') =>
        match p.run exec s' with
        | (.ok a, s'') => (.ok a, (release.run exec s'').2)
        | (.error e, s'') => (.error e, if skips e then s'' else (release.run exec s'').2) := by
  refine (run_bind acquire _).trans ?_
  obtain ⟨_ | _, s'⟩ := acquire.run exec s
  · rfl
  · simp only [run_andThen]
    obtain ⟨e | _, s''⟩ := p.run exec s'
    · by_cases h : skips e <;> simp [h, run_andThen]
    · simp [run_andThen]

/-! ### Programs that only read

The operations are the positions of a memory; the state is the list of those read so far. -/

section Reads

variable {ι β : Type} {mem mem' : ι → β} {log : List ι}

/-- Read one position. -/
def readAt (mem : ι → β) (k : ι) (log : List ι) : Except ε β × List ι := (.ok (mem k), log ++ [k])

/-- Nothing that was read is forgotten. -/
theorem log_subset_run (p : Program ι (fun _ => β) ε α) : log ⊆ (p.run (readAt mem) log).2 := by
  induction p generalizing log with
  | done r => exact List.Subset.refl log
  | call k next ih =>
    intro j hj
    exact ih _ (List.mem_append_left [k] hj)

/-- **A program that only reads** depends on what it reads only. -/
theorem run_readAt_congr (p : Program ι (fun _ => β) ε α)
    (h : ∀ k ∈ (p.run (readAt mem) log).2, mem k = mem' k) :
    p.run (readAt mem') log = p.run (readAt mem) log := by
  induction p generalizing log with
  | done r => rfl
  | call k next ih =>
    have hk : mem k = mem' k := by
      refine h k (log_subset_run (next (.ok (mem k))) ?_)
      exact List.mem_append_right log List.mem_cons_self
    have hnext := ih (.ok (mem k)) h
    rw [run, run, readAt, ← hk]
    exact hnext

end Reads

end Program
