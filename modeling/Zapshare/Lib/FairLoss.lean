import Zapshare.Lib.Network
import Zapshare.Lib.Patience

/-!
# Networks that lose fairly

Infinite runs of two parties over the pool. The network may lose, delay, reorder and copy whatever
it wants, but of what is sent one way again and again, it delivers something again and again that
was sent no longer ago than any given moment.

## Main results

* `Network.fair_shift_iff`, `Patient.shift` — what is left of a fair run is fair
* `Network.sent_up_since`, `sent_down_since` — a message whose place is behind those sent before has
  been sent since
* `Network.Refinement.fair_iff`, `patient_iff` — a fair run of two parties is one of those they
  refine
-/

namespace Network

open Machine

variable {σ τ μ ν : Type*}

/-- What the client sends at an event. -/
def Parties.asked (P : Parties σ τ μ ν) (w : World σ τ μ ν) : PoolEvent → List μ
  | .up _ => []
  | .down i =>
    match w.down[i]? with
    | none => []
    | some x => (P.client w.client x).2
  | .timeout => (P.timeout w.client).2

/-- The world before event `n` of infinitely many. -/
def Parties.worldAt (P : Parties σ τ μ ν) (w : World σ τ μ ν) (es : ℕ → PoolEvent) (n : ℕ) :
    World σ τ μ ν :=
  stateAt P.pool w es n

/-- **A fair run.** The client's timer goes off again and again, and of what one party sends again
and again, a message that was sent after `n` is delivered, for every `n`. -/
structure Fair (P : Parties σ τ μ ν) (w : World σ τ μ ν) (es : ℕ → PoolEvent) : Prop where
  timeout : ∀ n, ∃ m, n ≤ m ∧ es m = .timeout
  up : (∀ n, ∃ m, n ≤ m ∧ P.asked (P.worldAt w es m) (es m) ≠ []) →
    ∀ n, ∃ m i, n ≤ m ∧ es m = .up i ∧ (P.worldAt w es n).up.length ≤ i ∧
      i < (P.worldAt w es m).up.length
  down : (∀ n, ∃ m, n ≤ m ∧ (P.pool (P.worldAt w es m) (es m)).2 ≠ []) →
    ∀ n, ∃ m i, n ≤ m ∧ es m = .down i ∧ (P.worldAt w es n).down.length ≤ i ∧
      i < (P.worldAt w es m).down.length

/-- Something arrives at the client. -/
def Arrives (w : World σ τ μ ν) : PoolEvent → Prop
  | .down i => i < w.down.length
  | _ => False

instance (w : World σ τ μ ν) (e : PoolEvent) : Decidable (Arrives w e) :=
  match e with
  | .up _ => inferInstanceAs (Decidable False)
  | .down i => inferInstanceAs (Decidable (i < w.down.length))
  | .timeout => inferInstanceAs (Decidable False)

/-- **A run that a client with patience survives.** Its timer never goes off `patience` times with
nothing arriving in between. -/
def Patient (P : Parties σ τ μ ν) (w : World σ τ μ ν) (es : ℕ → PoolEvent) (patience : ℕ) : Prop :=
  ∀ m n, Patience.Stretch (fun k => Arrives (P.worldAt w es k) (es k)) m n →
    Patience.ticks (fun k => es k = .timeout) m n < patience

variable {P : Parties σ τ μ ν} {w : World σ τ μ ν} {es : ℕ → PoolEvent}

@[simp] theorem worldAt_zero : P.worldAt w es 0 = w := rfl

theorem worldAt_succ (n : ℕ) :
    P.worldAt w es (n + 1) = (P.pool (P.worldAt w es n) (es n)).1 :=
  stateAt_succ es n

/-! ### What is sent -/

theorem pool_up (P : Parties σ τ μ ν) (w : World σ τ μ ν) (e : PoolEvent) :
    (P.pool w e).1.up = w.up ++ P.asked w e := by
  cases e with
  | up i => cases h : w.up[i]? <;> simp [Parties.pool, Parties.asked, Parties.serve, h]
  | down i => cases h : w.down[i]? <;> simp [Parties.pool, Parties.asked, Parties.receive, h]
  | timeout => rfl

theorem pool_of_up {i : ℕ} {m : μ} (h : w.up[i]? = some m) :
    P.pool w (.up i) = P.serve w m w.up := by
  simp only [Parties.pool, h]

theorem pool_of_down {i : ℕ} {x : ν} (h : w.down[i]? = some x) :
    P.pool w (.down i) = P.receive w x w.down := by
  simp only [Parties.pool, h]

theorem pool_down (P : Parties σ τ μ ν) (w : World σ τ μ ν) (e : PoolEvent) :
    (P.pool w e).1.down = w.down ++ (P.pool w e).2 := by
  cases e with
  | up i => cases h : w.up[i]? <;> simp [Parties.pool, Parties.serve, h]
  | down i => cases h : w.down[i]? <;> simp [Parties.pool, Parties.receive, h]
  | timeout => simp [Parties.pool, Parties.expire]

/-- In a list that only grows, what stands behind the length it had at `N` was added since. -/
theorem added_since {α : Type*} {f g : ℕ → List α} (hgrow : ∀ n, f (n + 1) = f n ++ g n)
    {C : α → Prop} {N : ℕ} (hC : ∀ n, N ≤ n → ∀ x ∈ g n, C x) {n : ℕ} (hn : N ≤ n) :
    ∃ added, f n = f N ++ added ∧ ∀ x ∈ added, C x := by
  induction n, hn using Nat.le_induction with
  | base => exact ⟨[], by simp, by simp⟩
  | succ n hn ih =>
    obtain ⟨added, hadded, hall⟩ := ih
    refine ⟨added ++ g n, by rw [hgrow, hadded, List.append_assoc], fun x hx => ?_⟩
    rcases List.mem_append.mp hx with hx | hx
    · exact hall x hx
    · exact hC n hn x hx

/-- **What was sent up since** event `N` satisfies `C`, if everything the client sends from then on
does. -/
theorem sent_up_since {C : μ → Prop} {N : ℕ}
    (hC : ∀ n, N ≤ n → ∀ m ∈ P.asked (P.worldAt w es n) (es n), C m) {n i : ℕ} (hn : N ≤ n)
    (hi : (P.worldAt w es N).up.length ≤ i) (hin : i < (P.worldAt w es n).up.length) :
    ∃ m, (P.worldAt w es n).up[i]? = some m ∧ C m := by
  obtain ⟨added, hadded, hall⟩ := added_since (f := fun n => (P.worldAt w es n).up)
    (fun n => by rw [worldAt_succ, pool_up]) hC hn
  refine ⟨_, List.getElem?_eq_getElem hin, hall _ ?_⟩
  have hmem : (P.worldAt w es n).up[i]? = added[i - (P.worldAt w es N).up.length]? := by
    rw [hadded, List.getElem?_append_right hi]
  rw [List.getElem?_eq_getElem hin] at hmem
  exact List.mem_of_getElem? hmem.symm

/-- **What was sent down since.** -/
theorem sent_down_since {C : ν → Prop} {N : ℕ}
    (hC : ∀ n, N ≤ n → ∀ x ∈ (P.pool (P.worldAt w es n) (es n)).2, C x) {n i : ℕ} (hn : N ≤ n)
    (hi : (P.worldAt w es N).down.length ≤ i) (hin : i < (P.worldAt w es n).down.length) :
    ∃ x, (P.worldAt w es n).down[i]? = some x ∧ C x := by
  obtain ⟨added, hadded, hall⟩ := added_since (f := fun n => (P.worldAt w es n).down)
    (fun n => by rw [worldAt_succ, pool_down]) hC hn
  refine ⟨_, List.getElem?_eq_getElem hin, hall _ ?_⟩
  have hmem : (P.worldAt w es n).down[i]? = added[i - (P.worldAt w es N).down.length]? := by
    rw [hadded, List.getElem?_append_right hi]
  rw [List.getElem?_eq_getElem hin] at hmem
  exact List.mem_of_getElem? hmem.symm

/-! ### The run from an event on -/

theorem worldAt_add (N n : ℕ) :
    P.worldAt w es (N + n) = P.worldAt (P.worldAt w es N) (fun k => es (N + k)) n := by
  induction n with
  | zero => rfl
  | succ n ih => rw [← Nat.add_assoc, worldAt_succ, worldAt_succ, ih]

theorem up_length_mono {m n : ℕ} (h : m ≤ n) :
    (P.worldAt w es m).up.length ≤ (P.worldAt w es n).up.length := by
  induction n, h using Nat.le_induction with
  | base => exact Nat.le_refl _
  | succ n _ ih =>
    rw [worldAt_succ, pool_up, List.length_append]
    omega

theorem down_length_mono {m n : ℕ} (h : m ≤ n) :
    (P.worldAt w es m).down.length ≤ (P.worldAt w es n).down.length := by
  induction n, h using Nat.le_induction with
  | base => exact Nat.le_refl _
  | succ n _ ih =>
    rw [worldAt_succ, pool_down, List.length_append]
    omega

/-- **A run is fair if what is left of it from some event on is**, and the other way round. -/
theorem fair_shift_iff (N : ℕ) :
    Fair P (P.worldAt w es N) (fun k => es (N + k)) ↔ Fair P w es := by
  have hlater {k m : ℕ} (hm : N + k ≤ m) : ∃ j, k ≤ j ∧ m = N + j := ⟨m - N, by omega, by omega⟩
  have htail {p : ℕ → Prop} : (∀ n, ∃ m, n ≤ m ∧ p (N + m)) ↔ ∀ n, ∃ m, n ≤ m ∧ p m := by
    constructor
    · intro h n
      obtain ⟨m, hm, hp⟩ := h n
      exact ⟨N + m, by omega, hp⟩
    · intro h n
      obtain ⟨m, hm, hp⟩ := h (N + n)
      obtain ⟨j, hj, rfl⟩ := hlater hm
      exact ⟨j, hj, hp⟩
  constructor
  · rintro ⟨htimeout, hup, hdown⟩
    simp only [← worldAt_add] at hup hdown
    refine ⟨htail.mp htimeout, fun hsends n => ?_, fun hsends n => ?_⟩
    · obtain ⟨m, i, hm, he, hi, him⟩ := hup (htail.mpr hsends) n
      exact ⟨N + m, i, by omega, he, Nat.le_trans (up_length_mono (Nat.le_add_left n N)) hi, him⟩
    · obtain ⟨m, i, hm, he, hi, him⟩ := hdown (htail.mpr hsends) n
      exact ⟨N + m, i, by omega, he, Nat.le_trans (down_length_mono (Nat.le_add_left n N)) hi, him⟩
  · rintro ⟨htimeout, hup, hdown⟩
    refine ⟨htail.mpr htimeout, fun hsends n => ?_, fun hsends n => ?_⟩
    · simp only [← worldAt_add] at hsends ⊢
      obtain ⟨m, i, hm, he, hi, him⟩ := hup (htail.mp hsends) (N + n)
      obtain ⟨j, hj, rfl⟩ := hlater hm
      exact ⟨j, i, hj, he, hi, him⟩
    · simp only [← worldAt_add] at hsends ⊢
      obtain ⟨m, i, hm, he, hi, him⟩ := hdown (htail.mp hsends) (N + n)
      obtain ⟨j, hj, rfl⟩ := hlater hm
      exact ⟨j, i, hj, he, hi, him⟩

theorem Patient.shift {patience : ℕ} (h : Patient P w es patience) (N : ℕ) :
    Patient P (P.worldAt w es N) (fun k => es (N + k)) patience := by
  intro m n hstretch
  have hticks := Patience.ticks_shift (fun k => es k = .timeout) N m n
  rw [hticks]
  refine h (N + m) (N + n) fun k hk hkn => ?_
  obtain ⟨j, rfl⟩ : ∃ j, k = N + j := ⟨k - N, by omega⟩
  simp only [Patience.Stretch, ← worldAt_add] at hstretch
  exact hstretch j (by omega) (by omega)

/-- A run in which nothing is sent any more is fair, if the client's timer goes off. -/
theorem Fair.of_quiet {N : ℕ} (htimeout : ∀ n, ∃ m, n ≤ m ∧ es m = .timeout)
    (hquiet : ∀ n, N ≤ n → P.asked (P.worldAt w es n) (es n) = [] ∧
      (P.pool (P.worldAt w es n) (es n)).2 = []) : Fair P w es where
  timeout := htimeout
  up hsends := by
    obtain ⟨m, hm, hsend⟩ := hsends N
    exact absurd (hquiet m hm).1 hsend
  down hsends := by
    obtain ⟨m, hm, hsend⟩ := hsends N
    exact absurd (hquiet m hm).2 hsend

/-- A run in which something arrives often enough. -/
theorem Patient.of_arrivals {patience : ℕ} (h : ∀ m, ∃ k, m ≤ k ∧ k < m + patience ∧
    Arrives (P.worldAt w es k) (es k)) : Patient P w es patience := by
  intro m n hstretch
  have hshort : n < m + patience := by
    by_contra hlong
    obtain ⟨k, hk, hkn, harrives⟩ := h m
    exact hstretch k hk (by omega) harrives
  have hle : Patience.ticks (fun k => es k = .timeout) m n ≤ n - m := by
    rw [Patience.ticks, ← Nat.card_Ico]
    exact Finset.card_filter_le _ _
  obtain ⟨k, hk, hkn, -⟩ := h m
  omega

/-- A variant that goes down again and again as long as it is not zero gets there. -/
theorem exists_zero {f : ℕ → ℕ} (hdown : ∀ n, f n ≠ 0 → ∃ m, f m < f n) : ∃ n, f n = 0 := by
  have hreach : ∀ k n, f n = k → ∃ n, f n = 0 := by
    intro k
    induction k using Nat.strong_induction_on with
    | h k ih =>
      rintro n rfl
      rcases Nat.eq_zero_or_pos (f n) with hzero | hpos
      · exact ⟨n, hzero⟩
      · obtain ⟨m, hm⟩ := hdown n (Nat.ne_of_gt hpos)
        exact ih (f m) hm m rfl
  exact hreach _ 0 rfl

/-! ### Refinement -/

namespace Refinement

variable {σ' τ' μ' ν' : Type*} {Q : Parties σ' τ' μ' ν'}

theorem worldAt (R : Refinement P Q) (h : R.Holds w) (es : ℕ → PoolEvent) (n : ℕ) :
    R.Holds (P.worldAt w es n) ∧ Q.worldAt (R.world w) es n = R.world (P.worldAt w es n) :=
  ⟨R.pool.invariant h _, R.pool.final h _⟩

theorem asked (R : Refinement P Q) (h : R.Holds w) (e : PoolEvent) :
    Q.asked (R.world w) e = (P.asked w e).map R.up := by
  have hstep := congrArg (fun r => r.1.up) (R.pool w e h).2
  simp only [pool_up, world, List.map_append] at hstep
  exact List.append_cancel_left hstep

/-- **A fair run of two parties is fair for those they refine**, and the other way round. -/
theorem fair_iff (R : Refinement P Q) (h : R.Holds w) :
    Fair Q (R.world w) es ↔ Fair P w es := by
  have hup (k : ℕ) : (Q.worldAt (R.world w) es k).up.length = (P.worldAt w es k).up.length := by
    rw [(R.worldAt h es k).2, world, List.length_map]
  have hdown (k : ℕ) :
      (Q.worldAt (R.world w) es k).down.length = (P.worldAt w es k).down.length := by
    rw [(R.worldAt h es k).2, world, List.length_map]
  have hasked (k : ℕ) : Q.asked (Q.worldAt (R.world w) es k) (es k) = [] ↔
      P.asked (P.worldAt w es k) (es k) = [] := by
    rw [(R.worldAt h es k).2, R.asked (R.worldAt h es k).1, List.map_eq_nil_iff]
  have hsent (k : ℕ) : (Q.pool (Q.worldAt (R.world w) es k) (es k)).2 = [] ↔
      (P.pool (P.worldAt w es k) (es k)).2 = [] := by
    rw [(R.worldAt h es k).2, (R.pool _ _ (R.worldAt h es k).1).2, List.map_eq_nil_iff]
  constructor
  · intro hfair
    have hfairUp := hfair.up
    have hfairDown := hfair.down
    simp only [ne_eq, hup, hasked] at hfairUp
    simp only [ne_eq, hdown, hsent] at hfairDown
    exact ⟨hfair.timeout, hfairUp, hfairDown⟩
  · intro hfair
    refine ⟨hfair.timeout, ?_, ?_⟩
    · simp only [ne_eq, hup, hasked]
      exact hfair.up
    · simp only [ne_eq, hdown, hsent]
      exact hfair.down

theorem patient_iff (R : Refinement P Q) (h : R.Holds w) {patience : ℕ} :
    Patient Q (R.world w) es patience ↔ Patient P w es patience := by
  have harrives (k : ℕ) :
      Arrives (Q.worldAt (R.world w) es k) (es k) ↔ Arrives (P.worldAt w es k) (es k) := by
    rw [(R.worldAt h es k).2]
    cases es k with
    | up i => exact Iff.rfl
    | down i => simp [Arrives, world]
    | timeout => exact Iff.rfl
  simp only [Patient, Patience.Stretch, harrives]

end Refinement

end Network
