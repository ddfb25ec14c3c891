import Zapshare.Wire.Varint

/-!
# Well-formed UTF-8

A `string` field of proto3 is a byte string that must be well-formed UTF-8, and a reader refuses
a message whose `string` field is not. This is the table of well-formed byte sequences, read as
an automaton: after a lead byte it remembers the ranges the following bytes must fall in.
-/

namespace Wire

/-- The ranges the bytes behind a lead byte must fall in; `none` when no sequence starts so. -/
def utf8Tail (b : UInt8) : Option (List (UInt8 × UInt8)) :=
  if b < 0x80 then some []
  else if b < 0xC2 then none
  else if b < 0xE0 then some [(0x80, 0xBF)]
  else if b = 0xE0 then some [(0xA0, 0xBF), (0x80, 0xBF)]
  else if b = 0xED then some [(0x80, 0x9F), (0x80, 0xBF)]
  else if b < 0xF0 then some [(0x80, 0xBF), (0x80, 0xBF)]
  else if b = 0xF0 then some [(0x90, 0xBF), (0x80, 0xBF), (0x80, 0xBF)]
  else if b < 0xF4 then some [(0x80, 0xBF), (0x80, 0xBF), (0x80, 0xBF)]
  else if b = 0xF4 then some [(0x80, 0x8F), (0x80, 0xBF), (0x80, 0xBF)]
  else none

/-- One byte of the automaton; the state is the list of ranges still to come. -/
def utf8Step : List (UInt8 × UInt8) → UInt8 → Option (List (UInt8 × UInt8))
  | [], b => utf8Tail b
  | (lo, hi) :: more, b => if lo ≤ b ∧ b ≤ hi then some more else none

/-- The bytes are well-formed UTF-8. -/
def utf8Valid (bs : Bytes) : Bool := bs.foldlM utf8Step [] == some []

/-- Text of ASCII characters is well-formed. -/
theorem utf8Valid_of_ascii {bs : Bytes} (h : ∀ b ∈ bs, b < 0x80) : utf8Valid bs = true := by
  have hfold : bs.foldlM utf8Step [] = some [] := by
    induction bs with
    | nil => rfl
    | cons b bs ih =>
      have hb : utf8Step [] b = some [] := by
        simp only [utf8Step, utf8Tail, if_pos (h b List.mem_cons_self)]
      rw [List.foldlM_cons, hb]
      exact ih fun c hc => h c (List.mem_cons_of_mem b hc)
  simp [utf8Valid, hfold]

/-- Well-formed texts may be joined. -/
theorem utf8Valid_append {as bs : Bytes} (ha : utf8Valid as = true) (hb : utf8Valid bs = true) :
    utf8Valid (as ++ bs) = true := by
  simp only [utf8Valid, beq_iff_eq] at ha hb ⊢
  rw [List.foldlM_append, ha]
  exact hb

@[simp] theorem utf8Valid_nil : utf8Valid [] = true := rfl

end Wire
