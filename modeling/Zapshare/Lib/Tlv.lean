import Mathlib.Algebra.Order.Group.Nat
import Mathlib.Data.List.Basic
import Mathlib.Tactic.Common

/-!
# Attributes in a buffer

Attributes that stand one behind the other: a type and a length of 16 bits each, the most
significant byte first, and a value that is padded to a multiple of four bytes. A buffer is a
function from positions to bytes, of which the first `n` have been filled.

## Main results

* `Tlv.word_of_holds`, `Tlv.dword_of_holds` — the numbers in a buffer are those written to it
* `Tlv.find_eq_some` — what a search has found
* `Tlv.find_attributes`, `Tlv.find_eq_none` — a search steps over attributes from one to the next
-/

namespace Tlv

variable {buf : ℕ → UInt8} {n i j : ℕ}

/-! ### What a buffer holds -/

/-- The bytes `bs` stand in the buffer, from position `i` on. -/
def Holds (buf : ℕ → UInt8) (i : ℕ) (bs : List UInt8) : Prop :=
  ∀ k, k < bs.length → bs[k]? = some (buf (i + k))

theorem holds_nil : Holds buf i [] := fun _ h => absurd h (Nat.not_lt_zero _)

theorem holds_cons {b : UInt8} {bs : List UInt8} :
    Holds buf i (b :: bs) ↔ buf i = b ∧ Holds buf (i + 1) bs := by
  constructor
  · intro h
    have hfirst := h 0 (Nat.succ_pos _)
    refine ⟨(Option.some.inj hfirst).symm, ?_⟩
    intro k hk
    have hnext := h (k + 1) (Nat.succ_lt_succ hk)
    rwa [List.getElem?_cons_succ, Nat.add_comm k 1, ← Nat.add_assoc] at hnext
  · rintro ⟨hfirst, hrest⟩ (_ | k) hk
    · rw [List.getElem?_cons_zero, Nat.add_zero, hfirst]
    · have hnext := hrest k (Nat.lt_of_succ_lt_succ hk)
      rwa [List.getElem?_cons_succ, Nat.add_comm k 1, ← Nat.add_assoc]

theorem holds_append {as bs : List UInt8} :
    Holds buf i (as ++ bs) ↔ Holds buf i as ∧ Holds buf (i + as.length) bs := by
  induction as generalizing i with
  | nil => exact ⟨fun h => ⟨holds_nil, h⟩, fun h => h.2⟩
  | cons a as ih =>
    rw [List.cons_append, holds_cons, ih, holds_cons, List.length_cons, and_assoc,
      Nat.add_right_comm, Nat.add_assoc]

/-! ### Numbers -/

/-- Two bytes, as a number. -/
def join (hi lo : UInt8) : UInt16 := hi.toUInt16 <<< 8 ||| lo.toUInt16

/-- Four bytes, as a number. -/
def join32 (b₃ b₂ b₁ b₀ : UInt8) : UInt32 :=
  b₃.toUInt32 <<< 24 ||| b₂.toUInt32 <<< 16 ||| b₁.toUInt32 <<< 8 ||| b₀.toUInt32

/-- A number, as two bytes. -/
def ofWord (x : UInt16) : List UInt8 := [(x >>> 8).toUInt8, x.toUInt8]

/-- A number, as four bytes. -/
def ofDword (x : UInt32) : List UInt8 :=
  [(x >>> 24).toUInt8, (x >>> 16).toUInt8, (x >>> 8).toUInt8, x.toUInt8]

/-- The number at position `i`. -/
def word (buf : ℕ → UInt8) (i : ℕ) : UInt16 := join (buf i) (buf (i + 1))

/-- The four-byte number at position `i`. -/
def dword (buf : ℕ → UInt8) (i : ℕ) : UInt32 :=
  join32 (buf i) (buf (i + 1)) (buf (i + 2)) (buf (i + 3))

/-- The bits of a number in front of those of another one. -/
theorem or_eq_add {a b k w : ℕ} (ha : a < 2 ^ w) (hb : b < 2 ^ k) :
    a <<< k % 2 ^ (k + w) ||| b = 2 ^ k * a + b := by
  have hlt : 2 ^ k * a < 2 ^ (k + w) := by
    rw [Nat.pow_add]
    exact Nat.mul_lt_mul_of_pos_left ha (Nat.two_pow_pos k)
  rw [Nat.shiftLeft_eq, Nat.mul_comm, Nat.mod_eq_of_lt hlt, Nat.two_pow_add_eq_or_of_lt hb]

theorem toNat_join (hi lo : UInt8) : (join hi lo).toNat = 256 * hi.toNat + lo.toNat := by
  have h := @or_eq_add hi.toNat lo.toNat 8 8 hi.toNat_lt lo.toNat_lt
  simpa [join] using h

theorem toNat_join32 (b₃ b₂ b₁ b₀ : UInt8) :
    (join32 b₃ b₂ b₁ b₀).toNat
      = 2 ^ 24 * b₃.toNat + (2 ^ 16 * b₂.toNat + (2 ^ 8 * b₁.toNat + b₀.toNat)) := by
  have h₃ := b₃.toNat_lt
  have h₂ := b₂.toNat_lt
  have h₁ := b₁.toNat_lt
  have h₀ := b₀.toNat_lt
  -- from the least significant byte on, each byte is put in front of a number below it
  have hlow := @or_eq_add b₁.toNat b₀.toNat 8 24 (by omega) h₀
  have hmid := @or_eq_add b₂.toNat (2 ^ 8 * b₁.toNat + b₀.toNat) 16 16 (by omega) (by omega)
  have hhigh := @or_eq_add b₃.toNat (2 ^ 16 * b₂.toNat + (2 ^ 8 * b₁.toNat + b₀.toNat)) 24 8
    h₃ (by omega)
  rw [← hhigh, ← hmid, ← hlow]
  simp [join32, Nat.or_assoc]

theorem join_split (x : UInt16) : join (x >>> 8).toUInt8 x.toUInt8 = x := by
  have hlt := x.toNat_lt
  have hhi : (x >>> 8).toUInt8.toNat = x.toNat / 2 ^ 8 % 2 ^ 8 := by
    simp [Nat.shiftRight_eq_div_pow]
  have hlo : x.toUInt8.toNat = x.toNat % 2 ^ 8 := by simp
  rw [← UInt16.toNat_inj, toNat_join, hhi, hlo]
  omega

theorem join32_split (x : UInt32) :
    join32 (x >>> 24).toUInt8 (x >>> 16).toUInt8 (x >>> 8).toUInt8 x.toUInt8 = x := by
  have hlt := x.toNat_lt
  have h₃ : (x >>> 24).toUInt8.toNat = x.toNat / 2 ^ 24 % 2 ^ 8 := by
    simp [Nat.shiftRight_eq_div_pow]
  have h₂ : (x >>> 16).toUInt8.toNat = x.toNat / 2 ^ 16 % 2 ^ 8 := by
    simp [Nat.shiftRight_eq_div_pow]
  have h₁ : (x >>> 8).toUInt8.toNat = x.toNat / 2 ^ 8 % 2 ^ 8 := by
    simp [Nat.shiftRight_eq_div_pow]
  have h₀ : x.toUInt8.toNat = x.toNat % 2 ^ 8 := by simp
  rw [← UInt32.toNat_inj, toNat_join32, h₃, h₂, h₁, h₀]
  omega

/-- **The number in a buffer is the one that was written to it.** -/
theorem word_of_holds {x : UInt16} {rest : List UInt8} (h : Holds buf i (ofWord x ++ rest)) :
    word buf i = x := by
  obtain ⟨hhi, hrest⟩ := holds_cons.mp h
  rw [word, hhi, (holds_cons.mp hrest).1, join_split]

theorem dword_of_holds {x : UInt32} {rest : List UInt8} (h : Holds buf i (ofDword x ++ rest)) :
    dword buf i = x := by
  obtain ⟨h₃, h⟩ := holds_cons.mp h
  obtain ⟨h₂, h⟩ := holds_cons.mp h
  obtain ⟨h₁, h⟩ := holds_cons.mp h
  rw [dword, h₃, h₂, h₁, (holds_cons.mp h).1, join32_split]

/-! ### Attributes -/

/-- How many bytes there are behind a value of `length` bytes. -/
def pad (length : ℕ) : ℕ := (4 - length % 4) % 4

/-- How far it is from one attribute to the next. -/
def stride (length : ℕ) : ℕ := 4 + length + pad length

theorem le_stride (length : ℕ) : 4 ≤ stride length := by
  rw [stride, Nat.add_assoc]
  exact Nat.le_add_right 4 _

/-- An attribute, with what its value is padded with. -/
structure Attribute where
  type : UInt16
  value : List UInt8
  padding : List UInt8
  length_lt : value.length < 2 ^ 16
  padding_length : padding.length = pad value.length

namespace Attribute

/-- The attribute as it is written. -/
def bytes (a : Attribute) : List UInt8 :=
  ofWord a.type ++ ofWord (UInt16.ofNat a.value.length) ++ a.value ++ a.padding

theorem length_bytes (a : Attribute) : a.bytes.length = stride a.value.length := by
  simp only [bytes, ofWord, List.length_append, List.length_cons, List.length_nil, stride,
    a.padding_length]

/-- What is read where an attribute stands. -/
theorem words_of_holds (a : Attribute) {rest : List UInt8} (h : Holds buf i (a.bytes ++ rest)) :
    word buf i = a.type ∧ (word buf (i + 2)).toNat = a.value.length ∧
      Holds buf (i + 4) (a.value ++ (a.padding ++ rest)) := by
  simp only [bytes, List.append_assoc] at h
  have htype := word_of_holds h
  have hlength := word_of_holds (holds_append.mp h).2
  have hvalue := (holds_append.mp (holds_append.mp h).2).2
  refine ⟨htype, ?_, hvalue⟩
  rw [show i + 2 = i + (ofWord a.type).length from rfl, hlength]
  exact UInt16.toNat_ofNat_of_lt a.length_lt

end Attribute

/-! ### A search -/

variable {found : UInt16 → UInt16 → Bool}

/-- The first attribute from position `i` on whose type and length satisfy `found`, as long as there
are eight bytes to look at. -/
def find (found : UInt16 → UInt16 → Bool) (buf : ℕ → UInt8) (n i : ℕ) : Option ℕ :=
  if i + 8 ≤ n then
    if found (word buf i) (word buf (i + 2)) then some i
    else find found buf n (i + stride (word buf (i + 2)).toNat)
  else none
termination_by n - i
decreasing_by
  have hstride := le_stride (word buf (i + 2)).toNat
  omega

theorem find_of_lt (h : n < i + 8) : find found buf n i = none := by
  rw [find, if_neg (Nat.not_le.mpr h)]

theorem find_of_found (h : i + 8 ≤ n) (hfound : found (word buf i) (word buf (i + 2)) = true) :
    find found buf n i = some i := by
  rw [find, if_pos h, if_pos hfound]

theorem find_of_not_found (h : i + 8 ≤ n)
    (hfound : found (word buf i) (word buf (i + 2)) = false) :
    find found buf n i = find found buf n (i + stride (word buf (i + 2)).toNat) := by
  rw [find, if_pos h, hfound, if_neg Bool.false_ne_true]

/-- From position `i` one comes to position `j` by stepping over attributes. -/
inductive Walk (buf : ℕ → UInt8) (n : ℕ) : ℕ → ℕ → Prop
  | here (i : ℕ) : Walk buf n i i
  | next {i j : ℕ} (hlt : i + 8 ≤ n) (h : Walk buf n (i + stride (word buf (i + 2)).toNat) j) :
      Walk buf n i j

/-- **What is found** is one of the attributes. -/
theorem find_eq_some (h : find found buf n i = some j) :
    Walk buf n i j ∧ j + 8 ≤ n ∧ found (word buf j) (word buf (j + 2)) = true := by
  induction i using find.induct found buf n with
  | case1 i hlt hfound =>
    rw [find_of_found hlt hfound] at h
    obtain rfl : i = j := Option.some.inj h
    exact ⟨.here i, hlt, hfound⟩
  | case2 i hlt hfound ih =>
    rw [find_of_not_found hlt (Bool.not_eq_true _ ▸ hfound)] at h
    obtain ⟨hwalk, hrest⟩ := ih h
    exact ⟨.next hlt hwalk, hrest⟩
  | case3 i hlt =>
    rw [find_of_lt (Nat.not_le.mp hlt)] at h
    cases h

/-- A search steps over one attribute that it does not look for. -/
theorem find_attribute (a : Attribute) (ha : ∀ length, found a.type length = false)
    {rest : List UInt8} (h : Holds buf i (a.bytes ++ rest)) (hn : i + 8 ≤ n) :
    find found buf n i = find found buf n (i + a.bytes.length) := by
  obtain ⟨htype, hlength, -⟩ := a.words_of_holds h
  rw [find_of_not_found hn (by rw [htype, ha]), hlength, a.length_bytes]

/-- **A search steps over attributes** that it does not look for, if eight bytes come behind
them. -/
theorem find_attributes (as : List Attribute)
    (has : ∀ a ∈ as, ∀ length, found a.type length = false) {rest : List UInt8}
    (h : Holds buf i (as.flatMap Attribute.bytes ++ rest))
    (hn : i + (as.flatMap Attribute.bytes).length + 8 ≤ n) :
    find found buf n i = find found buf n (i + (as.flatMap Attribute.bytes).length) := by
  induction as generalizing i with
  | nil => rfl
  | cons a as ih =>
    obtain ⟨ha, has⟩ := List.forall_mem_cons.mp has
    rw [List.flatMap_cons, List.length_append] at hn
    rw [List.flatMap_cons, List.append_assoc] at h
    rw [find_attribute a ha h (by omega), ih has (holds_append.mp h).2 (by omega),
      List.flatMap_cons, List.length_append, Nat.add_assoc]

/-- A search that does not find any of the attributes comes to their end. -/
theorem find_eq_none (as : List Attribute)
    (has : ∀ a ∈ as, ∀ length, found a.type length = false)
    (h : Holds buf i (as.flatMap Attribute.bytes))
    (hn : n ≤ i + (as.flatMap Attribute.bytes).length) : find found buf n i = none := by
  induction as generalizing i with
  | nil => exact find_of_lt (Nat.lt_of_le_of_lt hn (Nat.lt_add_of_pos_right (by decide)))
  | cons a as ih =>
    obtain ⟨ha, has⟩ := List.forall_mem_cons.mp has
    rcases Nat.lt_or_ge n (i + 8) with hlt | hge
    · exact find_of_lt hlt
    · rw [List.flatMap_cons] at h hn
      rw [List.length_append, ← Nat.add_assoc] at hn
      rw [find_attribute a ha h hge]
      exact ih has (holds_append.mp h).2 hn

end Tlv
