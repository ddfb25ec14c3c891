import Mathlib.Data.List.Forall2
import Zapshare.Wire.Utf8

/-!
# The characters of a text

A text in UTF-8 is a sequence of characters: a first byte, and as many bytes behind it as the first
one calls for, each in its range.

## Main results

* `Wire.utf8Valid_cons_iff` — a text that is not empty is a character and a text
* `Wire.utf8Valid_induction` — induction over the characters of a text
-/

namespace Wire

/-- Bytes in these ranges, one in each. -/
def InRanges (ranges : List (UInt8 × UInt8)) (bs : Bytes) : Prop :=
  List.Forall₂ (fun r b => r.1 ≤ b ∧ b ≤ r.2) ranges bs

/-- The bytes of a character. -/
def IsChar (b : UInt8) (tail : Bytes) : Prop :=
  ∃ ranges, utf8Tail b = some ranges ∧ InRanges ranges tail

theorem isChar_ascii {b : UInt8} (h : b < 0x80) : IsChar b [] :=
  ⟨[], if_pos h, List.Forall₂.nil⟩

/-- An ASCII character has no bytes behind it. -/
theorem IsChar.tail_eq_nil {b : UInt8} {tail : Bytes} (h : IsChar b tail) (hb : b < 0x80) :
    tail = [] := by
  obtain ⟨ranges, htail, hranges⟩ := h
  rw [utf8Tail, if_pos hb] at htail
  obtain rfl := Option.some.inj htail
  exact List.forall₂_nil_left_iff.mp hranges

/-- A byte behind the first one of a character, in general. -/
def IsContinuation (b : UInt8) : Prop := 0x80 ≤ b ∧ b ≤ 0xBF

/-! ### Characters by their length -/

theorem isChar_two {x y : UInt8} (hx : 0xC2 ≤ x ∧ x < 0xE0) (hy : IsContinuation y) :
    IsChar x [y] := by
  refine ⟨[(0x80, 0xBF)], ?_, List.Forall₂.cons hy List.Forall₂.nil⟩
  simp only [UInt8.le_iff_toNat_le, UInt8.lt_iff_toNat_lt, UInt8.reduceToNat] at hx
  simp only [utf8Tail, UInt8.lt_iff_toNat_lt, UInt8.reduceToNat]
  rw [if_neg (by omega), if_neg (by omega), if_pos (by omega)]

theorem isChar_three {x y z : UInt8} (hx : 0xE0 ≤ x ∧ x < 0xF0) (hy : IsContinuation y)
    (hlow : x = 0xE0 → 0xA0 ≤ y) (hhigh : x = 0xED → y ≤ 0x9F) (hz : IsContinuation z) :
    IsChar x [y, z] := by
  have hlast : InRanges [(0x80, 0xBF)] [z] := List.Forall₂.cons hz List.Forall₂.nil
  have hcase : ¬ x < 0x80 ∧ ¬ x < 0xC2 ∧ ¬ x < 0xE0 := by
    simp only [UInt8.le_iff_toNat_le, UInt8.lt_iff_toNat_lt, UInt8.reduceToNat] at hx ⊢
    omega
  rw [IsChar, utf8Tail, if_neg hcase.1, if_neg hcase.2.1, if_neg hcase.2.2]
  split_ifs with hE0 hED hF0
  · exact ⟨_, rfl, List.Forall₂.cons ⟨hlow hE0, hy.2⟩ hlast⟩
  · exact ⟨_, rfl, List.Forall₂.cons ⟨hy.1, hhigh hED⟩ hlast⟩
  · exact ⟨_, rfl, List.Forall₂.cons hy hlast⟩
  all_goals exact absurd hx.2 hF0

theorem isChar_four {x y z t : UInt8} (hx : 0xF0 ≤ x ∧ x ≤ 0xF4) (hy : IsContinuation y)
    (hlow : x = 0xF0 → 0x90 ≤ y) (hhigh : x = 0xF4 → y ≤ 0x8F) (hz : IsContinuation z)
    (ht : IsContinuation t) : IsChar x [y, z, t] := by
  have hlast : InRanges [(0x80, 0xBF), (0x80, 0xBF)] [z, t] :=
    List.Forall₂.cons hz (List.Forall₂.cons ht List.Forall₂.nil)
  have hcase : ¬ x < 0x80 ∧ ¬ x < 0xC2 ∧ ¬ x < 0xE0 ∧ ¬ x = 0xE0 ∧ ¬ x = 0xED ∧ ¬ x < 0xF0 := by
    simp only [UInt8.le_iff_toNat_le, UInt8.lt_iff_toNat_lt, ← UInt8.toNat_inj,
      UInt8.reduceToNat] at hx ⊢
    omega
  rw [IsChar, utf8Tail, if_neg hcase.1, if_neg hcase.2.1, if_neg hcase.2.2.1,
    if_neg hcase.2.2.2.1, if_neg hcase.2.2.2.2.1, if_neg hcase.2.2.2.2.2]
  split_ifs with hF0 hlt hF4
  · exact ⟨_, rfl, List.Forall₂.cons ⟨hlow hF0, hy.2⟩ hlast⟩
  · exact ⟨_, rfl, List.Forall₂.cons hy hlast⟩
  · exact ⟨_, rfl, List.Forall₂.cons ⟨hy.1, hhigh hF4⟩ hlast⟩
  · exfalso
    simp only [UInt8.le_iff_toNat_le, UInt8.lt_iff_toNat_lt, ← UInt8.toNat_inj,
      UInt8.reduceToNat] at hx hlt hF4
    omega

/-! ### Texts -/

/-- The automaton accepts what has first a byte in each of the ranges it remembers. -/
theorem foldlM_utf8Step_iff {ranges : List (UInt8 × UInt8)} {bs : Bytes} :
    bs.foldlM utf8Step ranges = some [] ↔
      ∃ tail rest, bs = tail ++ rest ∧ InRanges ranges tail ∧ utf8Valid rest = true := by
  induction ranges generalizing bs with
  | nil =>
    constructor
    · intro h
      exact ⟨[], bs, rfl, List.Forall₂.nil, by simp [utf8Valid, h]⟩
    · rintro ⟨tail, rest, rfl, hranges, hrest⟩
      obtain rfl := List.forall₂_nil_left_iff.mp hranges
      simpa [utf8Valid] using hrest
  | cons r ranges ih =>
    obtain ⟨lo, hi⟩ := r
    cases bs with
    | nil =>
      refine iff_of_false (by simp) ?_
      rintro ⟨tail, rest, heq, hranges, -⟩
      obtain ⟨rfl, rfl⟩ := List.append_eq_nil_iff.mp heq.symm
      exact absurd hranges (by simp [InRanges])
    | cons b bs =>
      rw [List.foldlM_cons, utf8Step]
      constructor
      · intro h
        split_ifs at h with hb
        · obtain ⟨tail, rest, rfl, hranges, hrest⟩ := ih.mp h
          exact ⟨b :: tail, rest, rfl, List.Forall₂.cons hb hranges, hrest⟩
        · simp at h
      · rintro ⟨tail, rest, heq, hranges, hrest⟩
        obtain ⟨b', tail', hb, hranges', rfl⟩ := List.forall₂_cons_left_iff.mp hranges
        obtain ⟨rfl, rfl⟩ := List.cons.inj heq
        rw [if_pos hb]
        exact ih.mpr ⟨tail', rest, rfl, hranges', hrest⟩

/-- **A text is a character and a text**, where it is not empty. -/
theorem utf8Valid_cons_iff {b : UInt8} {bs : Bytes} :
    utf8Valid (b :: bs) = true ↔
      ∃ tail rest, bs = tail ++ rest ∧ IsChar b tail ∧ utf8Valid rest = true := by
  rw [utf8Valid, beq_iff_eq, List.foldlM_cons, utf8Step]
  cases htail : utf8Tail b with
  | none =>
    refine iff_of_false (by simp) ?_
    rintro ⟨tail, rest, -, ⟨ranges, hsome, -⟩, -⟩
    rw [htail] at hsome
    cases hsome
  | some ranges =>
    refine Iff.trans foldlM_utf8Step_iff ?_
    constructor
    · rintro ⟨tail, rest, rfl, hranges, hrest⟩
      exact ⟨tail, rest, rfl, ⟨ranges, htail, hranges⟩, hrest⟩
    · rintro ⟨tail, rest, rfl, ⟨ranges', hsome, hranges⟩, hrest⟩
      obtain rfl := Option.some.inj (htail.symm.trans hsome)
      exact ⟨tail, rest, rfl, hranges, hrest⟩

theorem IsChar.utf8Valid {b : UInt8} {tail : Bytes} (h : IsChar b tail) :
    utf8Valid (b :: tail) = true :=
  utf8Valid_cons_iff.mpr ⟨tail, [], (List.append_nil tail).symm, h, rfl⟩

/-- **Induction over the characters of a text.** -/
theorem utf8Valid_induction {P : Bytes → Prop} (nil : P [])
    (char : ∀ b tail rest, IsChar b tail → P rest → P (b :: tail ++ rest)) {bs : Bytes}
    (h : utf8Valid bs = true) : P bs := by
  induction hlength : bs.length using Nat.strong_induction_on generalizing bs with
  | _ n ih =>
    cases bs with
    | nil => exact nil
    | cons b bs =>
      obtain ⟨tail, rest, rfl, hchar, hrest⟩ := utf8Valid_cons_iff.mp h
      refine char b tail rest hchar (ih rest.length ?_ hrest rfl)
      rw [← hlength, List.length_cons, List.length_append]
      omega

end Wire
