import Mathlib.Data.Nat.Digits.Lemmas
import Zapshare.Crypto
import Zapshare.Wire.Utf8

/-!
# The token of a transfer

`utils.hpp`: `generate_uuid_token` writes six random numbers in hexadecimal, in groups of 8, 4, 4, 4
and 16 digits. `zapshare send` uses the token as the id of the transfer, too. The generator behind
the numbers, `std::mt19937` under a `std::uniform_int_distribution`, is a parameter, `Rng32`; it is
seeded with one 32-bit number.

## Main results

* `length_generateUuidToken`, `utf8Valid_generateUuidToken` — a token is 40 bytes of ASCII
* `uuidShape_generateUuidToken` — a token is a version 4 UUID but for its last group
* `generateUuidToken_eq_iff` — a token keeps every bit that the masks keep
* `token_not_uuid` — no token is a version 4 UUID
* `token_count` — a generator does not return as many tokens as there are version 4 UUIDs
-/

namespace Zapshare

open Wire

/-- `std::setw(w) << n` in lowercase hexadecimal, with `'0'` as the fill. No width here is zero, so
it does not matter that there are no digits in zero. -/
def hexField (w n : ℕ) : Bytes := ((Nat.digits 16 n).reverse.map Crypto.hexDigit).leftpad w 48

/-- The token made of what `rnd32` returns, call by call. -/
def generateUuidToken (r₀ r₁ r₂ r₃ r₄ r₅ : UInt32) : Bytes :=
  let d0 := r₀
  let d1 := (r₁ &&& 0xFFFF).toUInt16
  let d2 := (r₂ &&& 0x0FFF ||| 0x4000).toUInt16
  let d3 := (r₃ &&& 0x3FFF ||| 0x8000).toUInt16
  let d4Hi := r₄.toUInt64
  let d4Lo := r₅.toUInt64
  hexField 8 d0.toNat ++ text "-" ++ hexField 4 d1.toNat ++ text "-" ++ hexField 4 d2.toNat ++
    text "-" ++ hexField 4 d3.toNat ++ text "-" ++ hexField 8 d4Hi.toUInt32.toNat ++
    hexField 8 d4Lo.toUInt32.toNat

/-! ### The shape of a token -/

variable {w n : ℕ}

theorem length_hexField (h : n < 16 ^ w) : (hexField w n).length = w := by
  have hdigits : (Nat.digits 16 n).length ≤ w := (Nat.digits_length_le_iff (by decide) n).mpr h
  rw [hexField, List.length_leftpad, List.length_map, List.length_reverse, Nat.max_eq_left hdigits]

theorem hexDigit_lt : ∀ d < 16, Crypto.hexDigit d < 0x80 := by decide

theorem hexField_ascii : ∀ b ∈ hexField w n, b < 0x80 := by
  intro b hb
  rcases List.mem_append.mp hb with hfill | hdigit
  · rw [List.eq_of_mem_replicate hfill]
    decide
  · obtain ⟨d, hd, rfl⟩ := List.mem_map.mp hdigit
    exact hexDigit_lt d (Nat.digits_lt_base (by decide) (List.mem_reverse.mp hd))

variable (r₀ r₁ r₂ r₃ r₄ r₅ : UInt32)

theorem length_generateUuidToken : (generateUuidToken r₀ r₁ r₂ r₃ r₄ r₅).length = 40 := by
  have hword : ∀ x : UInt32, (hexField 8 x.toNat).length = 8 := fun x => length_hexField x.toNat_lt
  have hhalf : ∀ x : UInt16, (hexField 4 x.toNat).length = 4 := fun x => length_hexField x.toNat_lt
  have hdash : (text "-").length = 1 := rfl
  simp only [generateUuidToken, List.length_append, hword, hhalf, hdash, Nat.reduceAdd]

theorem utf8Valid_generateUuidToken :
    utf8Valid (generateUuidToken r₀ r₁ r₂ r₃ r₄ r₅) = true := by
  have hdash : ∀ b ∈ text "-", b < 0x80 := by
    intro b hb
    obtain rfl : b = 45 := List.mem_singleton.mp hb
    decide
  refine utf8Valid_of_ascii fun b hb => ?_
  simp only [generateUuidToken, List.mem_append] at hb
  rcases hb with (((((((((hb | hb) | hb) | hb) | hb) | hb) | hb) | hb) | hb) | hb) <;>
    first
    | exact hexField_ascii b hb
    | exact hdash b hb

example : generateUuidToken 1 2 3 4 5 6 = text "00000001-0002-4003-8004-0000000500000006" := by
  decide

/-! ### A field is read back -/

/-- The last digit of a field. The rest is the field of what the other digits stand for, also where
the digit is a zero that the fill wrote. -/
theorem hexField_succ (w n : ℕ) :
    hexField (w + 1) n = hexField w (n / 16) ++ [Crypto.hexDigit (n % 16)] := by
  rcases Nat.eq_zero_or_pos n with rfl | hpos
  · show List.replicate (w + 1) 48 ++ [] = (List.replicate w 48 ++ []) ++ [Crypto.hexDigit 0]
    rw [List.replicate_succ', List.append_nil, List.append_nil]
    rfl
  · have hdigits : Nat.digits 16 n = n % 16 :: Nat.digits 16 (n / 16) :=
      Nat.digits_def' (by decide) hpos
    simp [hexField, hdigits, List.leftpad]

theorem hexField_zero : hexField 0 0 = [] := rfl

/-- The number a field of digits stands for. -/
def readField (bs : Bytes) : ℕ := bs.foldl (fun n b => 16 * n + (Crypto.hexValue b).getD 0) 0

theorem readField_hexField (w : ℕ) {n : ℕ} (h : n < 16 ^ w) : readField (hexField w n) = n := by
  induction w generalizing n with
  | zero =>
    obtain rfl : n = 0 := Nat.lt_one_iff.mp h
    rfl
  | succ w ih =>
    have hrest := ih (Nat.div_lt_of_lt_mul (by rwa [← Nat.pow_succ'] : n < 16 * 16 ^ w))
    have hdigit := Crypto.hexValue_hexDigit (n % 16) (Nat.mod_lt n (by decide))
    rw [readField] at hrest
    rw [hexField_succ, readField, List.foldl_append, hrest]
    show 16 * (n / 16) + (Crypto.hexValue (Crypto.hexDigit (n % 16))).getD 0 = n
    rw [hdigit]
    exact Nat.div_add_mod n 16

/-! ### Only the last group is too long -/

/-- The form of a version 4 UUID, but with `last` digits in the last group: lowercase hexadecimal
digits in five groups, the third one starting with the version, the fourth one with the
variant. -/
def UuidShape (last : ℕ) (token : Bytes) : Prop :=
  ∃ g₀ g₁ g₂ g₃ g₄ : Bytes,
    token = g₀ ++ text "-" ++ g₁ ++ text "-" ++ g₂ ++ text "-" ++ g₃ ++ text "-" ++ g₄ ∧
    [g₀, g₁, g₂, g₃, g₄].map List.length = [8, 4, 4, 4, last] ∧
    (∀ g ∈ [g₀, g₁, g₂, g₃, g₄], ∀ b ∈ g, (Crypto.hexValue b).isSome) ∧
    g₂.head? ∈ [some 52] ∧ g₃.head? ∈ [some 56, some 57, some 97, some 98]

/-- A version 4 UUID in lowercase. -/
def IsUuidV4 (token : Bytes) : Prop := UuidShape 12 token

theorem UuidShape.length_eq {last : ℕ} {token : Bytes} (h : UuidShape last token) :
    token.length = 24 + last := by
  obtain ⟨g₀, g₁, g₂, g₃, g₄, rfl, hlengths, -⟩ := h
  have hdash : (text "-").length = 1 := rfl
  simp only [List.map_cons, List.map_nil, List.cons.injEq, and_true] at hlengths
  simp only [List.length_append, hdash]
  omega

theorem isSome_hexField : ∀ b ∈ hexField w n, (Crypto.hexValue b).isSome := by
  intro b hb
  rcases List.mem_append.mp hb with hfill | hdigit
  · rw [List.eq_of_mem_replicate hfill]
    rfl
  · obtain ⟨d, hd, rfl⟩ := List.mem_map.mp hdigit
    have hlt : d < 16 := Nat.digits_lt_base (by decide) (List.mem_reverse.mp hd)
    rw [Crypto.hexValue_hexDigit d hlt]
    rfl

/-- The first of four digits. -/
theorem head?_hexField {x : UInt16} :
    (hexField 4 x.toNat).head? = some (Crypto.hexDigit (x.toNat / 4096)) := by
  have hlt := x.toNat_lt
  have hnone : x.toNat / 16 / 16 / 16 / 16 = 0 := by omega
  have hfirst : x.toNat / 16 / 16 / 16 % 16 = x.toNat / 4096 := by omega
  simp only [hexField_succ, hnone, hfirst, hexField_zero]
  rfl

/-- What a mask leaves of a number. -/
theorem toNat_masked (x : UInt32) :
    (x &&& 0xFFFF).toNat = x.toNat % 2 ^ 16 ∧ (x &&& 0x0FFF).toNat = x.toNat % 2 ^ 12 ∧
      (x &&& 0x3FFF).toNat = x.toNat % 2 ^ 14 := by
  refine ⟨?_, ?_, ?_⟩
  · exact (UInt32.toNat_and x 0xFFFF).trans (Nat.and_two_pow_sub_one_eq_mod x.toNat 16)
  · exact (UInt32.toNat_and x 0x0FFF).trans (Nat.and_two_pow_sub_one_eq_mod x.toNat 12)
  · exact (UInt32.toNat_and x 0x3FFF).trans (Nat.and_two_pow_sub_one_eq_mod x.toNat 14)

/-- The second, the third and the fourth number of a token. -/
theorem toNat_groups :
    (r₁ &&& 0xFFFF).toUInt16.toNat = r₁.toNat % 2 ^ 16 ∧
      (r₂ &&& 0x0FFF ||| 0x4000).toUInt16.toNat = 2 ^ 12 * 4 + r₂.toNat % 2 ^ 12 ∧
      (r₃ &&& 0x3FFF ||| 0x8000).toUInt16.toNat = 2 ^ 14 * 2 + r₃.toNat % 2 ^ 14 := by
  have hversion := Nat.mod_lt r₂.toNat (show 0 < 2 ^ 12 by decide)
  have hvariant := Nat.mod_lt r₃.toNat (show 0 < 2 ^ 14 by decide)
  refine ⟨?_, ?_, ?_⟩
  · rw [UInt32.toNat_toUInt16, (toNat_masked r₁).1, Nat.mod_mod]
  · rw [UInt32.toNat_toUInt16, UInt32.toNat_or, (toNat_masked r₂).2.1, Nat.or_comm,
      show (0x4000 : UInt32).toNat = 2 ^ 12 * 4 from rfl, ← Nat.two_pow_add_eq_or_of_lt hversion]
    omega
  · rw [UInt32.toNat_toUInt16, UInt32.toNat_or, (toNat_masked r₃).2.2, Nat.or_comm,
      show (0x8000 : UInt32).toNat = 2 ^ 14 * 2 from rfl, ← Nat.two_pow_add_eq_or_of_lt hvariant]
    omega

/-- A token is a version 4 UUID with four digits too many in its last group. -/
theorem uuidShape_generateUuidToken : UuidShape 16 (generateUuidToken r₀ r₁ r₂ r₃ r₄ r₅) := by
  have hword : ∀ x : UInt32, (hexField 8 x.toNat).length = 8 := fun x => length_hexField x.toNat_lt
  have hhalf : ∀ x : UInt16, (hexField 4 x.toNat).length = 4 := fun x => length_hexField x.toNat_lt
  obtain ⟨-, hversion, hvariant⟩ := toNat_groups r₁ r₂ r₃
  refine ⟨_, _, _, _, _, by rw [generateUuidToken, List.append_assoc _ (hexField 8 _)], ?_, ?_, ?_,
    ?_⟩
  · simp only [List.map_cons, List.map_nil, List.length_append, hword, hhalf, Nat.reduceAdd]
  · simp only [List.forall_mem_cons, List.forall_mem_append]
    exact ⟨isSome_hexField, isSome_hexField, isSome_hexField, isSome_hexField,
      ⟨isSome_hexField, isSome_hexField⟩, List.forall_mem_nil _⟩
  · have hdigit : (2 ^ 12 * 4 + r₂.toNat % 2 ^ 12) / 4096 = 4 := by omega
    rw [head?_hexField, hversion, hdigit]
    decide
  · have hdigit : (2 ^ 14 * 2 + r₃.toNat % 2 ^ 14) / 4096 < 12 ∧
        8 ≤ (2 ^ 14 * 2 + r₃.toNat % 2 ^ 14) / 4096 := by omega
    rw [head?_hexField, hvariant]
    generalize (2 ^ 14 * 2 + r₃.toNat % 2 ^ 14) / 4096 = d at hdigit ⊢
    obtain ⟨hlt, hle⟩ := hdigit
    interval_cases d <;> decide

/-! ### Nothing kept is lost -/

theorem hexField_inj {m : ℕ} (hn : n < 16 ^ w) (hm : m < 16 ^ w)
    (h : hexField w n = hexField w m) : n = m := by
  rw [← readField_hexField w hn, h, readField_hexField w hm]

/-- Two tokens are the same exactly if the draws agree on every bit that the masks keep. -/
theorem generateUuidToken_eq_iff (s₀ s₁ s₂ s₃ s₄ s₅ : UInt32) :
    generateUuidToken r₀ r₁ r₂ r₃ r₄ r₅ = generateUuidToken s₀ s₁ s₂ s₃ s₄ s₅ ↔
      r₀ = s₀ ∧ r₁ &&& 0xFFFF = s₁ &&& 0xFFFF ∧ r₂ &&& 0x0FFF = s₂ &&& 0x0FFF ∧
        r₃ &&& 0x3FFF = s₃ &&& 0x3FFF ∧ r₄ = s₄ ∧ r₅ = s₅ := by
  constructor
  · intro h
    have hword : ∀ x : UInt32, (hexField 8 x.toNat).length = 8 :=
      fun x => length_hexField x.toNat_lt
    have hhalf : ∀ x : UInt16, (hexField 4 x.toNat).length = 4 :=
      fun x => length_hexField x.toNat_lt
    have word_inj : ∀ x y : UInt32, hexField 8 x.toNat = hexField 8 y.toNat → x = y :=
      fun x y hxy => UInt32.toNat_inj.mp (hexField_inj x.toNat_lt y.toNat_lt hxy)
    have half_inj : ∀ x y : UInt16, hexField 4 x.toNat = hexField 4 y.toNat → x.toNat = y.toNat :=
      fun x y hxy => hexField_inj x.toNat_lt y.toNat_lt hxy
    -- The fields have fixed lengths, so they are peeled off one by one, from the last.
    obtain ⟨h, h₅⟩ := List.append_inj' h (by rw [hword, hword])
    obtain ⟨h, h₄⟩ := List.append_inj' h (by rw [hword, hword])
    obtain ⟨h, h₃⟩ := List.append_inj' (List.append_inj' h rfl).1 (by rw [hhalf, hhalf])
    obtain ⟨h, h₂⟩ := List.append_inj' (List.append_inj' h rfl).1 (by rw [hhalf, hhalf])
    obtain ⟨h, h₁⟩ := List.append_inj' (List.append_inj' h rfl).1 (by rw [hhalf, hhalf])
    have h₀ := (List.append_inj' h rfl).1
    obtain ⟨hr₁, hr₂, hr₃⟩ := toNat_groups r₁ r₂ r₃
    obtain ⟨hs₁, hs₂, hs₃⟩ := toNat_groups s₁ s₂ s₃
    rw [UInt32.toUInt32_toUInt64, UInt32.toUInt32_toUInt64] at h₄ h₅
    have hlow₁ := half_inj _ _ h₁
    have hlow₂ := half_inj _ _ h₂
    have hlow₃ := half_inj _ _ h₃
    rw [hr₁, hs₁] at hlow₁
    rw [hr₂, hs₂] at hlow₂
    rw [hr₃, hs₃] at hlow₃
    refine ⟨word_inj _ _ h₀, ?_, ?_, ?_, word_inj _ _ h₄, word_inj _ _ h₅⟩
    · rw [← UInt32.toNat_inj, (toNat_masked r₁).1, (toNat_masked s₁).1, hlow₁]
    · rw [← UInt32.toNat_inj, (toNat_masked r₂).2.1, (toNat_masked s₂).2.1]
      exact Nat.add_left_cancel hlow₂
    · rw [← UInt32.toNat_inj, (toNat_masked r₃).2.2, (toNat_masked s₃).2.2]
      exact Nat.add_left_cancel hlow₃
  · rintro ⟨h₀, h₁, h₂, h₃, h₄, h₅⟩
    simp only [generateUuidToken, h₀, h₁, h₂, h₃, h₄, h₅]

/-! ### The tokens there are -/

/-- `std::mt19937` under a `std::uniform_int_distribution` over all 32-bit numbers: the engine a
seed makes, and the next number with the engine left behind. -/
structure Rng32 where
  Engine : Type
  seed : UInt32 → Engine
  next : Engine → UInt32 × Engine

/-- The token made from what one call of `std::random_device` returns. -/
def tokenOfSeed (rng : Rng32) (rd : UInt32) : Bytes :=
  let gen := rng.seed rd
  let (r₀, gen) := rng.next gen
  let (r₁, gen) := rng.next gen
  let (r₂, gen) := rng.next gen
  let (r₃, gen) := rng.next gen
  let (r₄, gen) := rng.next gen
  let (r₅, _) := rng.next gen
  generateUuidToken r₀ r₁ r₂ r₃ r₄ r₅

/-- Over all that `std::random_device` may return, at least `n` different tokens come out. -/
def CanReturn (rng : Rng32) (n : ℕ) : Prop :=
  ∃ tokens : Finset Bytes, n ≤ tokens.card ∧ ∀ token ∈ tokens, ∃ rd, tokenOfSeed rng rd = token

/-- There are no more tokens than seeds. -/
theorem CanReturn.le {rng : Rng32} {n : ℕ} (h : CanReturn rng n) : n ≤ 2 ^ 32 := by
  obtain ⟨tokens, hcard, hreached⟩ := h
  have hsubset : tokens ⊆ (Finset.range (2 ^ 32)).image fun i => tokenOfSeed rng (.ofNat i) := by
    intro token htoken
    obtain ⟨rd, rfl⟩ := hreached token htoken
    refine Finset.mem_image.mpr ⟨rd.toNat, Finset.mem_range.mpr rd.toNat_lt, ?_⟩
    rw [UInt32.ofNat_toNat]
  calc n ≤ tokens.card := hcard
    _ ≤ ((Finset.range (2 ^ 32)).image fun i => tokenOfSeed rng (.ofNat i)).card :=
      Finset.card_le_card hsubset
    _ ≤ (Finset.range (2 ^ 32)).card := Finset.card_image_le
    _ = 2 ^ 32 := Finset.card_range _

/-- **A token is not a UUID.** Whatever is drawn, its last group has sixteen digits instead of
twelve. -/
theorem token_not_uuid : ¬ IsUuidV4 (generateUuidToken r₀ r₁ r₂ r₃ r₄ r₅) := by
  intro h
  have hlength := h.length_eq
  rw [length_generateUuidToken] at hlength
  exact absurd hlength (by decide)

/-- The token made of six zeros. -/
theorem token_not_uuid_zero :
    generateUuidToken 0 0 0 0 0 0 = text "00000000-0000-4000-8000-0000000000000000" ∧
      ¬ IsUuidV4 (generateUuidToken 0 0 0 0 0 0) := by
  refine ⟨by decide, ?_⟩
  intro h
  exact absurd h.length_eq (by decide)

/-- **One seed is all the randomness in a token.** Whatever the generator does with it, there are
fewer tokens than version 4 UUIDs. -/
theorem token_count (rng : Rng32) : ¬ CanReturn rng (2 ^ 122) := by
  intro h
  exact absurd h.le (by decide)

/-- A generator that adds one to its state. -/
theorem token_count_counter :
    ¬ CanReturn ⟨UInt32, id, fun gen => (gen, gen + 1)⟩ (2 ^ 122) := by
  intro h
  exact absurd h.le (by decide)

end Zapshare
