import Mathlib.Data.Nat.Log
import Mathlib.Tactic.Ring

/-!
# Base-128 varints

A varint writes a number as groups of seven bits, lowest group first, every byte but the last
with its high bit set. Nothing here knows about messages: the records of `Wire.Record` are built
on top of it.

## The fuel

`encodeVarint` runs on a fuel of `Nat.log2 n + 1` groups, which is always enough, so it is total
and structurally recursive at once and a closed encoding evaluates in the kernel. The decoder
takes the number of bytes it may read as an argument, because the format itself bounds that
number, and by a different amount for a value, a tag and a length.

## Main results

* `Wire.decodeVarint_encodeVarint` — reading back what was written, with any bytes behind it
* `Wire.decodeVarint_of_lt` — no reading within fewer bytes than the encoding has
* `Wire.encodeVarint_length_le` — `k` groups carry every number below `2 ^ (7 * k)`
-/

namespace Wire

/-- A byte string, which is what a C++ `std::string` holds. -/
abbrev Bytes := List UInt8

theorem toNat_ofNat {n : ℕ} (h : n < 256) : (UInt8.ofNat n).toNat = n := by
  rw [UInt8.toNat_ofNat']
  exact Nat.mod_eq_of_lt h

/-! ### Writing -/

/-- The groups of `n`, at most `fuel` of them. -/
def varintGroups : ℕ → ℕ → Bytes
  | 0, _ => []
  | fuel + 1, n =>
    if n < 128 then [UInt8.ofNat n]
    else UInt8.ofNat (n % 128 + 128) :: varintGroups fuel (n / 128)

/-- The varint of `n`. -/
def encodeVarint (n : ℕ) : Bytes := varintGroups (n.log2 + 1) n

/-- The fuel does not show in the result once it covers the number. -/
theorem varintGroups_eq {fuel fuel' n : ℕ} (h : n < 2 ^ fuel) (h' : n < 2 ^ fuel') (hf : 0 < fuel)
    (hf' : 0 < fuel') : varintGroups fuel n = varintGroups fuel' n := by
  induction fuel generalizing fuel' n with
  | zero => omega
  | succ fuel ih =>
    obtain ⟨fuel', rfl⟩ := Nat.exists_eq_succ_of_ne_zero (Nat.ne_of_gt hf')
    rw [varintGroups, varintGroups]
    split
    · rfl
    · rename_i hn
      have hpow : n / 128 < 2 ^ fuel := by rw [Nat.pow_succ] at h; omega
      have hpow' : n / 128 < 2 ^ fuel' := by rw [Nat.pow_succ] at h'; omega
      have hpos : ∀ {m : ℕ}, n < 2 ^ (m + 1) → 0 < m := by
        intro m hm
        rcases Nat.eq_zero_or_pos m with rfl | hp
        · omega
        · exact hp
      rw [ih hpow hpow' (hpos h) (hpos h')]

theorem encodeVarint_of_lt {n : ℕ} (h : n < 128) : encodeVarint n = [UInt8.ofNat n] := by
  rw [encodeVarint, varintGroups, if_pos h]

theorem encodeVarint_of_ge {n : ℕ} (h : 128 ≤ n) :
    encodeVarint n = UInt8.ofNat (n % 128 + 128) :: encodeVarint (n / 128) := by
  have hlt : n < 2 ^ (n.log2 + 1) := Nat.lt_log2_self
  have hpos : 0 < n.log2 := by
    rcases Nat.eq_zero_or_pos n.log2 with h0 | h0
    · rw [h0] at hlt; omega
    · exact h0
  have hdiv : n / 128 < 2 ^ n.log2 := by rw [Nat.pow_succ] at hlt; omega
  rw [encodeVarint, varintGroups, if_neg (by omega), encodeVarint,
    varintGroups_eq hdiv Nat.lt_log2_self hpos (Nat.succ_pos _)]

/-- Induction over the groups of a varint: a number of one group, or one more group in front. -/
theorem varint_induction {motive : ℕ → Prop} (last : ∀ n, n < 128 → motive n)
    (more : ∀ n, 128 ≤ n → motive (n / 128) → motive n) (n : ℕ) : motive n := by
  induction n using Nat.strong_induction_on with
  | _ n ih =>
    rcases Nat.lt_or_ge n 128 with h | h
    · exact last n h
    · exact more n h (ih _ (by omega))

theorem encodeVarint_length_pos (n : ℕ) : 0 < (encodeVarint n).length := by
  rcases Nat.lt_or_ge n 128 with h | h
  · simp [encodeVarint_of_lt h]
  · simp [encodeVarint_of_ge h]

theorem encodeVarint_ne_nil (n : ℕ) : encodeVarint n ≠ [] :=
  List.ne_nil_of_length_pos (encodeVarint_length_pos n)

theorem encodeVarint_length_le {n k : ℕ} (hk : 0 < k) (h : n < 2 ^ (7 * k)) :
    (encodeVarint n).length ≤ k := by
  induction n using varint_induction generalizing k with
  | last n hn => rw [encodeVarint_of_lt hn]; exact hk
  | more n hn ih =>
    obtain ⟨k, rfl⟩ := Nat.exists_eq_succ_of_ne_zero (Nat.ne_of_gt hk)
    have hsplit : 2 ^ (7 * (k + 1)) = 128 * 2 ^ (7 * k) := by
      rw [show 7 * (k + 1) = 7 * k + 7 by ring, Nat.pow_add]; ring
    have hkpos : 0 < k := by
      rcases Nat.eq_zero_or_pos k with rfl | hp
      · simp at h; omega
      · exact hp
    have := ih hkpos (by rw [hsplit] at h; omega)
    rw [encodeVarint_of_ge hn, List.length_cons]
    omega

/-! ### Reading -/

/-- Read a varint of at most `k` bytes: its value and the bytes behind it. -/
def decodeVarint : ℕ → Bytes → Option (ℕ × Bytes)
  | 0, _ => none
  | _ + 1, [] => none
  | k + 1, b :: rest =>
    if b.toNat < 128 then some (b.toNat, rest)
    else
      match decodeVarint k rest with
      | some (v, rest') => some (b.toNat - 128 + 128 * v, rest')
      | none => none

/-- **Read after write.** -/
theorem decodeVarint_encodeVarint {n k : ℕ} (h : (encodeVarint n).length ≤ k) (rest : Bytes) :
    decodeVarint k (encodeVarint n ++ rest) = some (n, rest) := by
  induction n using varint_induction generalizing k with
  | last n hn =>
    rw [encodeVarint_of_lt hn] at h ⊢
    obtain ⟨k, rfl⟩ := Nat.exists_eq_succ_of_ne_zero (n := k) (by simp at h; omega)
    simp only [List.singleton_append, decodeVarint, toNat_ofNat (by omega : n < 256), if_pos hn]
  | more n hn ih =>
    rw [encodeVarint_of_ge hn] at h ⊢
    obtain ⟨k, rfl⟩ := Nat.exists_eq_succ_of_ne_zero (n := k) (by simp at h; omega)
    have hrest := ih (k := k) (by simpa using h)
    simp only [List.cons_append, decodeVarint, toNat_ofNat (by omega : n % 128 + 128 < 256), hrest]
    rw [if_neg (by omega)]
    congr 2
    omega

/-- A varint that needs more bytes than the reader may take is refused. -/
theorem decodeVarint_of_lt {n k : ℕ} (h : k < (encodeVarint n).length) (rest : Bytes) :
    decodeVarint k (encodeVarint n ++ rest) = none := by
  induction n using varint_induction generalizing k with
  | last n hn =>
    rw [encodeVarint_of_lt hn] at h ⊢
    obtain rfl : k = 0 := by simpa using h
    rfl
  | more n hn ih =>
    rw [encodeVarint_of_ge hn] at h ⊢
    cases k with
    | zero => rfl
    | succ k =>
      simp only [List.cons_append, decodeVarint, toNat_ofNat (by omega : n % 128 + 128 < 256),
        ih (k := k) (by simpa using h)]
      rw [if_neg (by omega)]

/-- A varint cut short is refused. -/
theorem decodeVarint_take {n j k : ℕ} (h : j < (encodeVarint n).length) :
    decodeVarint k ((encodeVarint n).take j) = none := by
  induction n using varint_induction generalizing j k with
  | last n hn =>
    rw [encodeVarint_of_lt hn] at h ⊢
    obtain rfl : j = 0 := by simpa using h
    cases k <;> rfl
  | more n hn ih =>
    rw [encodeVarint_of_ge hn] at h ⊢
    cases k with
    | zero => rfl
    | succ k =>
      cases j with
      | zero => rfl
      | succ j =>
        simp only [List.take_succ_cons, decodeVarint,
          toNat_ofNat (by omega : n % 128 + 128 < 256), ih (j := j) (k := k) (by simpa using h)]
        rw [if_neg (by omega)]

/-- Reading a varint consumes at least one byte. -/
theorem decodeVarint_length_lt : ∀ {k : ℕ} {bs : Bytes} {v : ℕ} {rest : Bytes},
    decodeVarint k bs = some (v, rest) → rest.length < bs.length := by
  intro k
  induction k with
  | zero => intro bs v rest h; simp [decodeVarint] at h
  | succ k ih =>
    intro bs v rest h
    cases bs with
    | nil => simp [decodeVarint] at h
    | cons b bs =>
      simp only [decodeVarint] at h
      split at h
      · simp only [Option.some.injEq, Prod.mk.injEq] at h
        simp [← h.2]
      · split at h
        · rename_i hd
          simp only [Option.some.injEq, Prod.mk.injEq] at h
          have := ih hd
          rw [h.2] at this
          simp only [List.length_cons]
          omega
        · simp at h

/-- Distinct numbers have distinct varints, also with bytes behind them. -/
theorem encodeVarint_append_inj {n n' : ℕ} {rest rest' : Bytes}
    (h : encodeVarint n ++ rest = encodeVarint n' ++ rest') : n = n' ∧ rest = rest' := by
  have hn := decodeVarint_encodeVarint (n := n) (k := max (encodeVarint n).length
    (encodeVarint n').length) (Nat.le_max_left _ _) rest
  rw [h, decodeVarint_encodeVarint (Nat.le_max_right _ _) rest'] at hn
  simp only [Option.some.injEq, Prod.mk.injEq] at hn
  exact ⟨hn.1.symm, hn.2.symm⟩

end Wire
