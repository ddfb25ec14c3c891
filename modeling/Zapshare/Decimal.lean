import Mathlib.Data.List.TakeWhile
import Zapshare.Types

/-!
# Decimal numbers

`std::to_string` of an unsigned number, and `std::stoi`, which reads one back: it skips white
space, takes a sign and as many digits as there are, and ignores the rest. It throws when there
are no digits, and when the number is no `int`.

## Main results

* `decimal_injective`, `decimal_of_ge` — how numbers are written
* `stoi_decimal` — `std::stoi` reads back what `std::to_string` wrote
-/

namespace Zapshare

open Wire

/-- `std::to_string` of an unsigned number. -/
def decimal (n : ℕ) : Bytes := text (toString n)

/-- `isdigit`. -/
def isDigit (b : UInt8) : Bool := 48 ≤ b && b ≤ 57

/-- `isspace`. -/
def isSpace (b : UInt8) : Bool := b == 32 || (9 ≤ b && b ≤ 13)

/-- The number some digits stand for. -/
def digitsValue (ds : Bytes) : ℕ := ds.foldl (fun v d => 10 * v + (d.toNat - 48)) 0

/-- What `std::stoi` makes of a sign and what follows it. -/
def signedValue (negative : Bool) (s : Bytes) : Option Int32 :=
  let digits := s.takeWhile isDigit
  if digits = [] then none
  else
    let v : ℤ := if negative then -digitsValue digits else digitsValue digits
    if -2 ^ 31 ≤ v ∧ v < 2 ^ 31 then some (Int32.ofInt v) else none

/-- `std::stoi`; `none` when it throws. -/
def stoi (s : Bytes) : Option Int32 :=
  match s.dropWhile isSpace with
  | 45 :: rest => signedValue true rest
  | 43 :: rest => signedValue false rest
  | rest => signedValue false rest

/-! ### Writing -/

/-- The byte of a digit. -/
def digitByte (d : ℕ) : UInt8 := UInt8.ofNat (48 + d)

theorem digitByte_eq {d : ℕ} (h : d < 10) : UInt8.ofNat (Nat.digitChar d).toNat = digitByte d := by
  rw [Nat.toNat_digitChar_of_lt_ten h, digitByte]

theorem isDigit_digitByte : ∀ d < 10, isDigit (digitByte d) = true := by decide

theorem digitByte_toNat {d : ℕ} (h : d < 10) : (digitByte d).toNat - 48 = d := by
  have hlt : 48 + d < UInt8.size := Nat.lt_of_lt_of_le (Nat.add_lt_add_left h 48) (by decide)
  rw [digitByte, UInt8.toNat_ofNat_of_lt' hlt]
  omega

theorem decimal_eq (n : ℕ) :
    decimal n = (Nat.toDigits 10 n).map fun c => UInt8.ofNat c.toNat := by
  rw [decimal, text, Nat.toString_eq_repr, Nat.toList_repr]

theorem decimal_of_lt {n : ℕ} (h : n < 10) : decimal n = [digitByte n] := by
  rw [decimal_eq, Nat.toDigits_of_lt_base h, List.map_singleton, digitByte_eq h]

theorem decimal_of_ge {n : ℕ} (h : 10 ≤ n) :
    decimal n = decimal (n / 10) ++ [digitByte (n % 10)] := by
  rw [decimal_eq, Nat.toDigits_of_base_le (by decide) h, List.map_append, List.map_singleton,
    digitByte_eq (Nat.mod_lt n (by decide)), ← decimal_eq]

theorem decimal_ne_nil (n : ℕ) : decimal n ≠ [] := by
  rw [decimal_eq]
  simp

theorem isDigit_of_mem_decimal (n : ℕ) : ∀ b ∈ decimal n, isDigit b = true := by
  induction n using Nat.strong_induction_on with
  | _ n ih =>
    intro b hb
    rcases Nat.lt_or_ge n 10 with hlt | hge
    · rw [decimal_of_lt hlt] at hb
      obtain rfl := List.mem_singleton.mp hb
      exact isDigit_digitByte n hlt
    · rw [decimal_of_ge hge] at hb
      rcases List.mem_append.mp hb with hb | hb
      · exact ih (n / 10) (Nat.div_lt_self (by omega) (by decide)) b hb
      · obtain rfl := List.mem_singleton.mp hb
        exact isDigit_digitByte _ (Nat.mod_lt n (by decide))

theorem digitsValue_concat (ds : Bytes) (d : UInt8) :
    digitsValue (ds ++ [d]) = 10 * digitsValue ds + (d.toNat - 48) := by
  rw [digitsValue, List.foldl_append]
  rfl

/-- The digits of a number stand for it. -/
theorem digitsValue_decimal (n : ℕ) : digitsValue (decimal n) = n := by
  induction n using Nat.strong_induction_on with
  | _ n ih =>
    rcases Nat.lt_or_ge n 10 with hlt | hge
    · rw [decimal_of_lt hlt, ← List.nil_append [digitByte n], digitsValue_concat,
        digitByte_toNat hlt]
      simp [digitsValue]
    · rw [decimal_of_ge hge, digitsValue_concat,
        ih (n / 10) (Nat.div_lt_self (by omega) (by decide)),
        digitByte_toNat (Nat.mod_lt n (by decide))]
      omega

theorem decimal_injective : Function.Injective decimal := by
  intro m n h
  rw [← digitsValue_decimal m, h, digitsValue_decimal]

/-! ### Reading back -/

theorem lt_of_isDigit {b : UInt8} (h : isDigit b = true) : b < 0x80 := by
  simp only [isDigit, Bool.and_eq_true, decide_eq_true_eq] at h
  exact Nat.lt_of_le_of_lt (UInt8.le_iff_toNat_le.mp h.2) (by decide)

theorem isSpace_of_isDigit {b : UInt8} (h : isDigit b = true) : isSpace b = false := by
  simp only [isDigit, Bool.and_eq_true, decide_eq_true_eq, UInt8.le_iff_toNat_le] at h
  have hlow : 48 ≤ b.toNat := h.1
  have hne : b ≠ 32 := by
    rintro rfl
    exact absurd hlow (by decide)
  have hle : ¬ b ≤ 13 := fun hb => absurd (Nat.le_trans hlow (UInt8.le_iff_toNat_le.mp hb))
    (by decide)
  simp [isSpace, hne, hle]

/-- **`std::stoi` reads back what `std::to_string` wrote**, when it is an `int`. -/
theorem stoi_decimal {n : ℕ} (h : n < 2 ^ 31) : stoi (decimal n) = some (Int32.ofNat n) := by
  have hdigits := isDigit_of_mem_decimal n
  have hvalue : signedValue false (decimal n) = some (Int32.ofNat n) := by
    have htake : (decimal n).takeWhile isDigit = decimal n := List.takeWhile_eq_self_iff.mpr hdigits
    have hrange : -2 ^ 31 ≤ (n : ℤ) ∧ (n : ℤ) < 2 ^ 31 := by omega
    simp only [signedValue, htake, if_neg (decimal_ne_nil n), digitsValue_decimal,
      Bool.false_eq_true, if_false, if_pos hrange]
    rfl
  obtain ⟨b, rest, hcons⟩ := List.exists_cons_of_ne_nil (decimal_ne_nil n)
  have hb : isDigit b = true := hdigits b (by rw [hcons]; exact List.mem_cons_self)
  have hspace : (decimal n).dropWhile isSpace = decimal n := by
    rw [hcons, List.dropWhile_cons_of_neg (by simp [isSpace_of_isDigit hb])]
  rw [stoi, hspace]
  split
  · rename_i hneg
    rw [hcons] at hneg
    obtain rfl : b = 45 := (List.cons.inj hneg).1
    exact absurd hb (by decide)
  · rename_i hpos
    rw [hcons] at hpos
    obtain rfl : b = 43 := (List.cons.inj hpos).1
    exact absurd hb (by decide)
  · exact hvalue

example : stoi (text " -5x") = some (-5) := by decide

end Zapshare
