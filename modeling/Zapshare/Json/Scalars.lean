import Zapshare.Json.Serializer

/-!
# Reading strings and numbers again

What the serializer writes for a string or a number is one token to the lexer, with the value that
was written. The token of a number ends where something else begins.

Of the digits that `grisu2` finds, this uses that there is one, that the first one is not zero, and
that `strtod` finds the number again. The rest of a floating-point number's text is the work of
`format_buffer`.

## Main results

* `Json.scanString_dumpEscaped` — strings
* `Json.scan_dumpInteger` — integers
* `Json.isFloat_formatBuffer`, `Json.scan_toChars` — floating-point numbers
-/

namespace Zapshare

open Wire SortedMap

/-- What `json.hpp` and the standard promise of the conversions: the digits are those of a number of
ordinary size, which begins with its first digit that counts, and they are enough to find the
`double` again. -/
structure Doubles.Documented (doubles : Doubles) : Prop where
  grisu2 : ∀ bits, Json.isFinite bits = true → bits &&& 0x7FFFFFFFFFFFFFFF ≠ 0 →
    ∃ d digits e, doubles.grisu2 (bits &&& 0x7FFFFFFFFFFFFFFF) = (d :: digits, e) ∧
      (isDigit d = true ∧ d ≠ 48) ∧ (∀ b ∈ digits, isDigit b = true) ∧
      -1000 < digits.length + e ∧ digits.length + e < 1000
  strtod_toChars : ∀ bits, Json.isFinite bits = true →
    doubles.strtod (Json.toChars doubles bits) = bits

namespace Json

/-! ### Strings -/

theorem hexValue_hexDigit : ∀ d < 16, hexValue (Crypto.hexDigit d) = some d := by decide

theorem getCodepoint_hex4 {c : ℕ} (h : c < 65536) (rest : Bytes) :
    getCodepoint (hex4 c ++ rest) = some (c, rest) := by
  have hdigit : ∀ n, hexValue (Crypto.hexDigit (n % 16)) = some (n % 16) := fun n =>
    hexValue_hexDigit (n % 16) (Nat.mod_lt n (by decide))
  have hsum : c / 4096 % 16 * 2 ^ 12 + c / 256 % 16 * 2 ^ 8 + c / 16 % 16 * 2 ^ 4 + c % 16 = c := by
    omega
  simp only [hex4, List.cons_append, List.nil_append, getCodepoint, hdigit, Option.bind_eq_bind,
    Option.bind_some, hsum]
  rfl

/-- An ASCII character is read as what was written for it. -/
theorem scanChar_escaped {b : UInt8} (h : b < 0x80) : ∃ first tail,
    escaped b.toNat b = first :: tail ∧ first ≠ 34 ∧
      ∀ rest, scanChar first (tail ++ rest) = some ([b], rest) := by
  have heq : ∀ n < 256, b.toNat = n → b = UInt8.ofNat n := by
    rintro n - rfl
    exact UInt8.ofNat_toNat.symm
  rw [escaped.eq_def]
  split
  case h_8 h1 h2 h3 h4 h5 h6 h7 =>
    have hlt : b.toNat < 0x80 := UInt8.lt_iff_toNat_lt.mp h
    split_ifs with hcontrol
    · refine ⟨92, _, rfl, by decide, fun rest => ?_⟩
      have hunicode : scanUnicode (hex4 b.toNat ++ rest) = some ([b], rest) := by
        rw [scanUnicode, getCodepoint_hex4 (by omega)]
        simp only [Option.bind_eq_bind, Option.bind_some]
        rw [if_neg (by omega), if_neg (by omega), encodeCodepoint, if_pos hlt, UInt8.ofNat_toNat]
        rfl
      rw [scanChar, if_pos rfl]
      exact hunicode
    · have hquote : b ≠ 34 := fun hb => h6 (by rw [hb]; rfl)
      have hbackslash : b ≠ 92 := fun hb => h7 (by rw [hb]; rfl)
      refine ⟨b, [], rfl, hquote, fun rest => ?_⟩
      have hnot : ¬ b ≤ 0x1F := fun hle => hcontrol (UInt8.le_iff_toNat_le.mp hle)
      rw [scanChar, if_neg hbackslash, charRanges_eq, if_neg hnot, utf8Tail, if_pos h]
      rfl
  all_goals
    rename_i hb
    rw [heq _ (by decide) hb]
    exact ⟨92, _, rfl, by decide, fun rest => rfl⟩

/-- Any other character is read as it was copied. -/
theorem scanChar_copied {b : UInt8} (h : ¬ b < 0x80) {tail : Bytes} (hchar : IsChar b tail)
    (rest : Bytes) : scanChar b (tail ++ rest) = some (b :: tail, rest) := by
  obtain ⟨ranges, hlead, htail⟩ := hchar
  have hbackslash : b ≠ 92 := by
    rintro rfl
    exact h (by decide)
  have hnot : ¬ b ≤ 0x1F := fun hle => h (UInt8.lt_of_le_of_lt hle (by decide))
  rw [scanChar, if_neg hbackslash, charRanges_eq, if_neg hnot, hlead]
  simp only [Option.bind_eq_bind, Option.bind_some, nextBytesInRange_iff.mpr ⟨rfl, htail⟩]
  rfl

/-- **A string is read again**, from what was written between the quotation marks. -/
theorem scanString_dumpEscaped {s : Bytes} (h : utf8Valid s = true) : ∃ e,
    dumpEscaped s = some e ∧ ∀ rest, scanString (e ++ 34 :: rest) = some (s, rest) := by
  refine utf8Valid_induction (P := fun s => ∃ e, dumpEscaped s = some e ∧
    ∀ rest, scanString (e ++ 34 :: rest) = some (s, rest)) ?_ ?_ h
  · refine ⟨[], rfl, fun rest => ?_⟩
    rw [List.nil_append, scanString_cons, if_pos rfl]
  · rintro b tail s hchar ⟨e, he, hread⟩
    -- what is written for the character, whether it is escaped or not
    obtain ⟨first, more, hwritten, hquote, hscan⟩ : ∃ first more,
        (if b < 0x80 then escaped b.toNat b else b :: tail) = first :: more ∧ first ≠ 34 ∧
          ∀ rest, scanChar first (more ++ rest) = some (b :: tail, rest) := by
      by_cases hascii : b < 0x80
      · obtain rfl := hchar.tail_eq_nil hascii
        rw [if_pos hascii]
        exact scanChar_escaped hascii
      · rw [if_neg hascii]
        refine ⟨b, tail, rfl, ?_, scanChar_copied hascii hchar⟩
        rintro rfl
        exact hascii (by decide)
    refine ⟨first :: more ++ e, by rw [dumpEscaped_char hchar, hwritten, he]; rfl, fun rest => ?_⟩
    rw [List.append_assoc, List.cons_append, scanString_cons, if_neg hquote, hscan]
    simp only [Option.bind_eq_bind, Option.bind_some, hread]
    rfl

/-! ### Where a number ends -/

/-- The text does not go on with what could belong to a number. -/
def Separated (rest : Bytes) : Prop :=
  ∀ b ∈ rest.head?, isDigit b = false ∧ b ≠ 46 ∧ b ≠ 101 ∧ b ≠ 69

/-- The state, and the type so far, behind some bytes of a number. -/
def advance (p : NumberState × NumberType) (bs : Bytes) : Option (NumberState × NumberType) :=
  bs.foldlM (fun p b => (p.1.next b).map (·, p.1.type p.2)) p

theorem advance_cons (state : NumberState) (type : NumberType) (b : UInt8) (bs : Bytes) :
    advance (state, type) (b :: bs) =
      (state.next b).bind fun state' => advance (state', state.type type) bs := by
  rw [advance, List.foldlM_cons]
  cases state.next b <;> rfl

theorem advance_append {p q : NumberState × NumberType} {bs : Bytes} (h : advance p bs = some q)
    (bs' : Bytes) : advance p (bs ++ bs') = advance q bs' := by
  rw [advance, List.foldlM_append, ← advance, h]
  rfl

/-- A number ends in front of what does not belong to it. -/
theorem scanNumberFrom_separated {state : NumberState} (hdone : state.isDone = true)
    (type : NumberType) {rest : Bytes} (hrest : Separated rest) :
    scanNumberFrom state type rest = some (state.type type, [], rest) := by
  cases rest with
  | nil => rw [scanNumberFrom, if_pos hdone]
  | cons b rest =>
    obtain ⟨hdigit, hpoint, he, hE⟩ := hrest b rfl
    have hnone : state.next b = none := by
      cases state <;> simp_all [NumberState.next, NumberState.isDone]
    rw [scanNumberFrom, hnone]
    exact if_pos hdone

theorem scanNumberFrom_advance {state state' : NumberState} {type type' : NumberType} {bs : Bytes}
    (h : advance (state, type) bs = some (state', type')) (hdone : state'.isDone = true)
    {rest : Bytes} (hrest : Separated rest) :
    scanNumberFrom state type (bs ++ rest) = some (state'.type type', bs, rest) := by
  induction bs generalizing state type with
  | nil =>
    obtain ⟨rfl, rfl⟩ := Prod.mk.inj (Option.some.inj h)
    exact scanNumberFrom_separated hdone type hrest
  | cons b bs ih =>
    rw [advance_cons] at h
    obtain ⟨next, hnext, h⟩ := Option.bind_eq_some_iff.mp h
    rw [List.cons_append, scanNumberFrom, hnext]
    dsimp only
    rw [ih h]
    rfl

/-- The text of a number of this type. -/
def IsNumber (type : NumberType) (bs : Bytes) : Prop :=
  ∃ b tail state state' type', bs = b :: tail ∧ numberStart b = some state ∧
    advance (state, .unsigned) tail = some (state', type') ∧ state'.isDone = true ∧
    state'.type type' = type

theorem scan_of_numberStart (doubles : Doubles) {b : UInt8} {state : NumberState}
    (h : numberStart b = some state) (rest : Bytes) :
    scan doubles (b :: rest) = scanNumber doubles b state rest := by
  have hspace : isWhitespace b = false := by
    cases hb : isWhitespace b with
    | false => rfl
    | true =>
      exfalso
      simp only [isWhitespace, Bool.or_eq_true, beq_iff_eq] at hb
      obtain ((rfl | rfl) | rfl) | rfl := hb <;> cases h
  rw [scan, List.dropWhile_cons_of_neg (by simp [hspace])]
  split
  case h_13 =>
    rename_i heq
    obtain ⟨rfl, rfl⟩ := List.cons.inj heq
    rw [h]
  case h_1 => rename_i heq; cases heq
  all_goals
    rename_i heq
    obtain ⟨rfl, rfl⟩ := List.cons.inj heq
    cases h

/-- **A number is read** up to what does not belong to it. -/
theorem scan_number (doubles : Doubles) {type : NumberType} {bs rest : Bytes}
    (h : IsNumber type bs) (hrest : Separated rest) :
    scan doubles (bs ++ rest) = (numberToken doubles type bs, rest) := by
  obtain ⟨b, tail, state, state', type', rfl, hstart, hadvance, hdone, rfl⟩ := h
  rw [List.cons_append, scan_of_numberStart doubles hstart, scanNumber,
    scanNumberFrom_advance hadvance hdone hrest]

/-! ### Integers -/

/-- Where digits may follow, more of them change nothing. -/
theorem advance_digits {state : NumberState}
    (hnext : ∀ b, isDigit b = true → state.next b = some state)
    (htype : ∀ type, state.type type = type) (type : NumberType) {bs : Bytes}
    (h : ∀ b ∈ bs, isDigit b = true) : advance (state, type) bs = some (state, type) := by
  induction bs with
  | nil => rfl
  | cons b bs ih =>
    obtain ⟨hb, hbs⟩ := List.forall_mem_cons.mp h
    rw [advance_cons, hnext b hb, Option.bind_some, htype]
    exact ih hbs

theorem advance_any1 (type : NumberType) {bs : Bytes} (h : ∀ b ∈ bs, isDigit b = true) :
    advance (.any1, type) bs = some (.any1, type) :=
  advance_digits (fun b hb => by simp [NumberState.next, hb]) (fun _ => rfl) type h

/-- A number that is not zero does not begin with a zero. -/
theorem decimal_cons {n : ℕ} (h : 0 < n) : ∃ d ds, decimal n = d :: ds ∧
    (isDigit d = true ∧ d ≠ 48) ∧ ∀ b ∈ ds, isDigit b = true := by
  induction n using Nat.strong_induction_on with
  | _ n ih =>
    rcases Nat.lt_or_ge n 10 with hlt | hge
    · have hall : ∀ n < 10, 0 < n → isDigit (digitByte n) = true ∧ digitByte n ≠ 48 := by decide
      exact ⟨digitByte n, [], decimal_of_lt hlt, hall n hlt h,
        fun b hb => absurd hb List.not_mem_nil⟩
    · obtain ⟨d, ds, heq, hd, hds⟩ := ih (n / 10) (by omega) (by omega)
      have hdecimal : decimal n = d :: (ds ++ [digitByte (n % 10)]) := by
        rw [decimal_of_ge hge, heq]
        rfl
      refine ⟨d, ds ++ [digitByte (n % 10)], hdecimal, hd, fun b hb => ?_⟩
      rcases List.mem_append.mp hb with hb | hb
      · exact hds b hb
      · rw [List.mem_singleton.mp hb]
        exact isDigit_digitByte _ (Nat.mod_lt n (by decide))

theorem numberStart_digit {d : UInt8} (h : isDigit d = true ∧ d ≠ 48) :
    numberStart d = some .any1 := by
  have hminus : d ≠ 45 := by
    rintro rfl
    exact absurd h.1 (by decide)
  rw [numberStart, if_neg hminus, if_neg h.2, if_pos h.1]

theorem next_minus {d : UInt8} (h : isDigit d = true ∧ d ≠ 48) :
    NumberState.minus.next d = some .any1 := by
  rw [NumberState.next, if_neg h.2, if_pos h.1]

theorem isNumber_decimal (n : ℕ) : IsNumber .unsigned (decimal n) := by
  rcases Nat.eq_zero_or_pos n with rfl | hpos
  · exact ⟨48, [], .zero, .zero, .unsigned, decimal_of_lt (by decide), rfl, rfl, rfl, rfl⟩
  · obtain ⟨d, ds, heq, hd, hds⟩ := decimal_cons hpos
    exact ⟨d, ds, .any1, .any1, .unsigned, heq, numberStart_digit hd, advance_any1 _ hds, rfl, rfl⟩

theorem isNumber_neg_decimal {n : ℕ} (h : 0 < n) : IsNumber .integer (45 :: decimal n) := by
  obtain ⟨d, ds, heq, hd, hds⟩ := decimal_cons h
  refine ⟨45, decimal n, .minus, .any1, .integer, rfl, rfl, ?_, rfl, rfl⟩
  rw [heq, advance_cons, next_minus hd]
  exact advance_any1 _ hds

/-- **An integer is read again.** -/
theorem scan_dumpInteger (doubles : Doubles) {i : ℤ} (h : -2 ^ 63 ≤ i ∧ i < 2 ^ 64) : ∃ t,
    scalar t = some (number i) ∧
      ∀ rest, Separated rest → scan doubles (dumpInteger i ++ rest) = (t, rest) := by
  rcases Int.lt_or_le i 0 with hneg | hnonneg
  · have htoken : numberToken doubles .integer (45 :: decimal i.natAbs) = .valueInteger i := by
      have hvalue : (-(digitsValue (decimal i.natAbs) : ℤ)) = i := by
        rw [digitsValue_decimal]
        omega
      simp only [numberToken, List.tail_cons, hvalue, if_pos h.1]
    refine ⟨.valueInteger i, rfl, fun rest hrest => ?_⟩
    rw [dumpInteger_eq, if_pos hneg, ← htoken]
    exact scan_number doubles (isNumber_neg_decimal (by omega)) hrest
  · obtain ⟨n, rfl⟩ := Int.eq_ofNat_of_zero_le hnonneg
    have htoken : numberToken doubles .unsigned (decimal n) = .valueUnsigned n := by
      have hlt : n < 2 ^ 64 := by exact_mod_cast h.2
      simp only [numberToken, digitsValue_decimal, if_pos hlt]
    refine ⟨.valueUnsigned n, rfl, fun rest hrest => ?_⟩
    rw [dumpInteger_eq, if_neg (by omega), Int.natAbs_natCast, List.nil_append, ← htoken]
    exact scan_number doubles (isNumber_decimal n) hrest

/-! ### Floating-point numbers -/

/-- The text of a floating-point number, but for a sign in front of it. -/
def IsFloat (bs : Bytes) : Prop :=
  ∃ b tail state, bs = b :: tail ∧ numberStart b = some state ∧
    NumberState.minus.next b = some state ∧ ∀ type, ∃ state' type',
      advance (state, type) tail = some (state', type') ∧ state'.isDone = true ∧
        state'.type type' = .float

theorem IsFloat.isNumber {bs : Bytes} (h : IsFloat bs) : IsNumber .float bs := by
  obtain ⟨b, tail, state, rfl, hstart, -, htail⟩ := h
  obtain ⟨state', type', hadvance, hdone, htype⟩ := htail .unsigned
  exact ⟨b, tail, state, state', type', rfl, hstart, hadvance, hdone, htype⟩

theorem IsFloat.isNumber_neg {bs : Bytes} (h : IsFloat bs) : IsNumber .float (45 :: bs) := by
  obtain ⟨b, tail, state, rfl, -, hminus, htail⟩ := h
  obtain ⟨state', type', hadvance, hdone, htype⟩ := htail .integer
  refine ⟨45, b :: tail, .minus, state', type', rfl, rfl, ?_, hdone, htype⟩
  rw [advance_cons, hminus]
  exact hadvance

/-- Behind the digits in front of it, a point is followed by digits, one at least. -/
theorem advance_fraction {state : NumberState} (h : state = .zero ∨ state = .any1)
    (type : NumberType) {bs : Bytes} (hne : bs ≠ []) (hbs : ∀ b ∈ bs, isDigit b = true) :
    advance (state, type) (46 :: bs) = some (.decimal2, .float) := by
  have hpoint : state.next 46 = some .decimal1 := by rcases h with rfl | rfl <;> rfl
  obtain ⟨d, ds, rfl⟩ := List.exists_cons_of_ne_nil hne
  obtain ⟨hd, hds⟩ := List.forall_mem_cons.mp hbs
  have hfirst : NumberState.decimal1.next d = some .decimal2 := by
    rw [NumberState.next, if_pos hd]
  rw [advance_cons, hpoint, Option.bind_some, advance_cons, hfirst]
  exact advance_digits (fun b hb => by simp [NumberState.next, hb]) (fun _ => rfl) .float hds

theorem appendExponent_eq {e : ℤ} (h : -1000 < e ∧ e < 1000) : ∃ sign d ds,
    appendExponent e = sign :: d :: ds ∧ (sign = 43 ∨ sign = 45) ∧
      isDigit d = true ∧ ∀ b ∈ ds, isDigit b = true := by
  have hsign : (if e < 0 then (45 : UInt8) else 43) = 43 ∨
      (if e < 0 then (45 : UInt8) else 43) = 45 := by
    split_ifs <;> simp
  rw [appendExponent]
  generalize (if e < 0 then (45 : UInt8) else 43) = sign at hsign ⊢
  split_ifs with hone htwo
  · exact ⟨sign, 48, _, rfl, hsign, rfl, List.forall_mem_singleton.mpr (isDigit_digitByte _ hone)⟩
  · exact ⟨sign, _, _, rfl, hsign, isDigit_digitByte _ (by omega),
      List.forall_mem_singleton.mpr (isDigit_digitByte _ (by omega))⟩
  · refine ⟨sign, _, _, rfl, hsign, isDigit_digitByte _ (by omega), List.forall_mem_cons.mpr
      ⟨isDigit_digitByte _ (by omega), List.forall_mem_singleton.mpr ?_⟩⟩
    exact isDigit_digitByte _ (by omega)

theorem advance_exponent {state : NumberState}
    (h : state = .zero ∨ state = .any1 ∨ state = .decimal2) (type : NumberType) {e : ℤ}
    (he : -1000 < e ∧ e < 1000) :
    advance (state, type) (101 :: appendExponent e) = some (.any2, .float) := by
  have hexponent : state.next 101 = some .exponent := by rcases h with rfl | rfl | rfl <;> rfl
  obtain ⟨sign, d, ds, heq, hsign, hd, hds⟩ := appendExponent_eq he
  have hnext : NumberState.exponent.next sign = some .sign := by
    rcases hsign with rfl | rfl <;> rfl
  have hfirst : NumberState.sign.next d = some .any2 := by rw [NumberState.next, if_pos hd]
  rw [heq, advance_cons, hexponent, Option.bind_some, advance_cons, hnext, Option.bind_some,
    advance_cons, hfirst]
  exact advance_digits (fun b hb => by simp [NumberState.next, hb]) (fun _ => rfl) .float hds

/-- **`format_buffer` writes the text of a floating-point number**, never that of an integer. -/
theorem isFloat_formatBuffer {d : UInt8} {digits : Bytes} {e minExp maxExp : ℤ}
    (hd : isDigit d = true ∧ d ≠ 48) (hdigits : ∀ b ∈ digits, isDigit b = true)
    (he : -1000 < digits.length + e ∧ digits.length + e < 1000) :
    IsFloat (formatBuffer (d :: digits) e minExp maxExp) := by
  have hzero : ∀ n, ∀ b ∈ List.replicate n (48 : UInt8), isDigit b = true := by
    intro n b hb
    rw [List.eq_of_mem_replicate hb]
    rfl
  rw [formatBuffer]
  split_ifs with hwhole hpoint hsmall hone
  · -- `digits[000].0`
    generalize ((d :: digits).length + e - (d :: digits).length : ℤ).toNat = zeros
    refine ⟨d, digits ++ List.replicate zeros 48 ++ [46, 48], .any1, rfl, numberStart_digit hd,
      next_minus hd, fun type => ⟨.decimal2, .float, ?_, rfl, rfl⟩⟩
    rw [advance_append (advance_any1 type (List.forall_mem_append.mpr ⟨hdigits, hzero zeros⟩))]
    exact advance_fraction (Or.inr rfl) type (by simp) (List.forall_mem_singleton.mpr rfl)
  · -- `dig.its`
    obtain ⟨m, hm⟩ : ∃ m, ((d :: digits).length + e : ℤ).toNat = m + 1 :=
      ⟨((d :: digits).length + e : ℤ).toNat - 1, by omega⟩
    have hlt : m < digits.length := by
      simp only [List.length_cons] at hm hwhole hpoint
      omega
    rw [hm]
    refine ⟨d, digits.take m ++ 46 :: digits.drop m, .any1, rfl, numberStart_digit hd,
      next_minus hd, fun type => ⟨.decimal2, .float, ?_, rfl, rfl⟩⟩
    rw [advance_append (advance_any1 type fun b hb => hdigits b (List.mem_of_mem_take hb))]
    refine advance_fraction (Or.inr rfl) type ?_ fun b hb => hdigits b (List.mem_of_mem_drop hb)
    rw [← List.length_pos_iff, List.length_drop]
    omega
  · -- `0.[000]digits`
    refine ⟨48, _, .zero, rfl, rfl, rfl, fun type => ⟨.decimal2, .float, ?_, rfl, rfl⟩⟩
    refine advance_fraction (Or.inl rfl) type (by simp) (List.forall_mem_append.mpr ⟨hzero _, ?_⟩)
    exact List.forall_mem_cons.mpr ⟨hd.1, hdigits⟩
  · -- `de+123`
    obtain rfl : digits = [] := by
      rw [List.length_cons] at hone
      exact List.length_eq_zero_iff.mp (by omega)
    refine ⟨d, _, .any1, rfl, numberStart_digit hd, next_minus hd, fun type =>
      ⟨.any2, .float, advance_exponent (Or.inr (Or.inl rfl)) type ?_, rfl, rfl⟩⟩
    simp only [List.length_cons, List.length_nil] at he ⊢
    omega
  · -- `d.igitse+123`
    have hne : digits ≠ [] := by
      rintro rfl
      exact hone rfl
    refine ⟨d, 46 :: digits ++ 101 :: _, .any1, rfl, numberStart_digit hd, next_minus hd,
      fun type => ⟨.any2, .float, ?_, rfl, rfl⟩⟩
    rw [advance_append (advance_fraction (Or.inr rfl) type hne hdigits)]
    refine advance_exponent (Or.inr (Or.inr rfl)) .float ?_
    rw [List.length_cons]
    omega

/-- **A floating-point number is read again.** -/
theorem scan_toChars {doubles : Doubles} (hdoubles : doubles.Documented) {bits : UInt64}
    (h : isFinite bits = true) {rest : Bytes} (hrest : Separated rest) :
    scan doubles (toChars doubles bits ++ rest) = (.valueFloat bits, rest) := by
  have hfloat : IsFloat (if bits &&& 0x7FFFFFFFFFFFFFFF = 0 then [48, 46, 48]
      else formatBuffer (doubles.grisu2 (bits &&& 0x7FFFFFFFFFFFFFFF)).1
        (doubles.grisu2 (bits &&& 0x7FFFFFFFFFFFFFFF)).2 (-4) 15) := by
    split_ifs with hzero
    · refine ⟨48, [46, 48], .zero, rfl, rfl, rfl, fun type => ⟨.decimal2, .float, ?_, rfl, rfl⟩⟩
      exact advance_fraction (Or.inl rfl) type (by simp) (List.forall_mem_singleton.mpr rfl)
    · obtain ⟨d, digits, e, heq, hd, hdigits, he⟩ := hdoubles.grisu2 bits h hzero
      rw [heq]
      exact isFloat_formatBuffer hd hdigits he
  have hnumber : IsNumber .float (toChars doubles bits) := by
    rw [toChars]
    split_ifs at hfloat ⊢
    all_goals first | exact hfloat.isNumber | exact hfloat.isNumber_neg
  rw [scan_number doubles hnumber hrest, numberToken, hdoubles.strtod_toChars bits h]

/-! ### Sample conversions -/

/-- The bits of one and a half. -/
def oneAndAHalf : UInt64 := 0x3FF8000000000000

/-- What a text without a sign is read as: the bits of one and a half if it says so, or else its
digits as bits. -/
def sampleMagnitude (body : Bytes) : ℕ :=
  if body = text "1.5" then oneAndAHalf.toNat
  else digitsValue ((body.takeWhile (· ≠ 101)).filter isDigit)

/-- Conversions that do not look at the value of a number: its bits are taken for its digits. Zero
and one and a half are written as they should be. -/
def sampleDoubles : Doubles where
  strtod s :=
    UInt64.ofNat (if s.head? = some 45 then 2 ^ 63 + sampleMagnitude (s.drop 1)
      else sampleMagnitude s)
  grisu2 value :=
    if value = oneAndAHalf then (text "15", -1)
    else (decimal value.toNat, 100 - (decimal value.toNat).length)

/-- The digits in front of an exponent, without a point between them. -/
theorem filter_digits {d : UInt8} {ds : Bytes} (hd : isDigit d = true)
    (hds : ∀ b ∈ ds, isDigit b = true) (rest : Bytes) (c : Prop) [Decidable c] :
    (((if c then d :: ds else d :: 46 :: ds) ++ 101 :: rest).takeWhile (· ≠ 101)).filter isDigit
      = d :: ds := by
  have hne : ∀ b ∈ d :: ds, (decide (b ≠ 101)) = true := by
    intro b hb
    have hdigit : isDigit b = true := by
      rcases List.mem_cons.mp hb with rfl | hb
      · exact hd
      · exact hds b hb
    refine decide_eq_true ?_
    rintro rfl
    exact absurd hdigit (by decide)
  have hall := List.forall_mem_cons.mp hne
  split_ifs
  · rw [List.takeWhile_append_of_pos hne, List.takeWhile_cons_of_neg (by simp), List.append_nil]
    exact List.filter_eq_self.mpr (List.forall_mem_cons.mpr ⟨hd, hds⟩)
  · have hpoint : ∀ b ∈ d :: 46 :: ds, (decide (b ≠ 101)) = true :=
      List.forall_mem_cons.mpr ⟨hall.1, List.forall_mem_cons.mpr ⟨by decide, hall.2⟩⟩
    rw [List.takeWhile_append_of_pos hpoint, List.takeWhile_cons_of_neg (by simp), List.append_nil,
      List.filter_cons_of_pos hd, List.filter_cons_of_neg (by decide)]
    exact congrArg (d :: ·) (List.filter_eq_self.mpr hds)

theorem toNat_magnitude (bits : UInt64) :
    (bits &&& 0x7FFFFFFFFFFFFFFF).toNat = bits.toNat % 2 ^ 63 := by
  rw [UInt64.toNat_and]
  exact Nat.and_two_pow_sub_one_eq_mod bits.toNat 63

/-- The number, by its sign and the rest. -/
theorem ofNat_sign (bits : UInt64) :
    UInt64.ofNat (if bits = bits &&& 0x7FFFFFFFFFFFFFFF then bits.toNat % 2 ^ 63
      else 2 ^ 63 + bits.toNat % 2 ^ 63) = bits := by
  have hlt := bits.toNat_lt
  have hiff : bits = bits &&& 0x7FFFFFFFFFFFFFFF ↔ bits.toNat = bits.toNat % 2 ^ 63 := by
    rw [← UInt64.toNat_inj, toNat_magnitude]
  refine UInt64.toNat_inj.mp ?_
  split_ifs with h
  · rw [hiff] at h
    rw [UInt64.toNat_ofNat_of_lt' (by simp only [UInt64.size]; omega)]
    omega
  · rw [hiff] at h
    rw [UInt64.toNat_ofNat_of_lt' (by simp only [UInt64.size]; omega)]
    omega

theorem formatBuffer_sample (d : UInt8) (ds : Bytes) :
    formatBuffer (d :: ds) (100 - (d :: ds).length) (-4) 15 =
      (if ((d :: ds).length : ℤ) = 1 then d :: ds else d :: 46 :: ds) ++
        101 :: appendExponent 99 := by
  have hsum : ((d :: ds).length : ℤ) + (100 - (d :: ds).length) = 100 := by omega
  simp only [formatBuffer, hsum]
  rw [if_neg (by omega), if_neg (by omega), if_neg (by omega)]
  rfl

theorem strtod_sample {body : Bytes} (hhead : body.head? ≠ some 45) :
    sampleDoubles.strtod body = UInt64.ofNat (sampleMagnitude body) ∧
      sampleDoubles.strtod (45 :: body) = UInt64.ofNat (2 ^ 63 + sampleMagnitude body) := by
  constructor
  · simp only [sampleDoubles, if_neg hhead]
  · rfl

/-- The text of a number that is not zero, without its sign. -/
theorem sampleMagnitude_formatBuffer {value : UInt64} (hpos : 0 < value.toNat) :
    let body := formatBuffer (sampleDoubles.grisu2 value).1 (sampleDoubles.grisu2 value).2 (-4) 15
    body.head? ≠ some 45 ∧ sampleMagnitude body = value.toNat := by
  by_cases hhalf : value = oneAndAHalf
  · subst hhalf
    decide +kernel
  obtain ⟨d, ds, heq, hd, hds⟩ := decimal_cons hpos
  simp only [sampleDoubles, if_neg hhalf, heq, formatBuffer_sample]
  constructor
  · split_ifs
    all_goals
      intro h
      obtain rfl := Option.some.inj h
      exact absurd hd.1 (by decide)
  · have hexponent : ∀ (body rest : Bytes), body ++ 101 :: rest ≠ text "1.5" := by
      intro body rest h
      have hmem : (101 : UInt8) ∈ text "1.5" := h ▸ List.mem_append_right _ List.mem_cons_self
      exact absurd hmem (by decide)
    rw [sampleMagnitude, if_neg (hexponent _ _), filter_digits hd.1 hds, ← heq,
      digitsValue_decimal]

/-- What is written with these conversions. -/
theorem sampleDoubles_documented : sampleDoubles.Documented where
  grisu2 bits _ hne := by
    have hpos : 0 < (bits &&& 0x7FFFFFFFFFFFFFFF).toNat :=
      Nat.pos_of_ne_zero fun h => hne (UInt64.toNat_inj.mp h)
    by_cases hhalf : bits &&& 0x7FFFFFFFFFFFFFFF = oneAndAHalf
    · exact ⟨49, [53], -1, if_pos hhalf, by decide, List.forall_mem_singleton.mpr rfl, by decide⟩
    obtain ⟨d, ds, heq, hd, hds⟩ := decimal_cons hpos
    refine ⟨d, ds, _, (if_neg hhalf).trans (Prod.ext heq rfl), hd, hds, ?_⟩
    have hlength := congrArg List.length heq
    rw [List.length_cons] at hlength
    change -1000 < (ds.length : ℤ) + (100 - (decimal _).length) ∧
      (ds.length : ℤ) + (100 - (decimal _).length) < 1000
    omega
  strtod_toChars bits _ := by
    -- the text without its sign
    obtain ⟨body, hbody, hhead, hvalue⟩ : ∃ body,
        (if bits &&& 0x7FFFFFFFFFFFFFFF = 0 then [48, 46, 48]
          else formatBuffer (sampleDoubles.grisu2 (bits &&& 0x7FFFFFFFFFFFFFFF)).1
            (sampleDoubles.grisu2 (bits &&& 0x7FFFFFFFFFFFFFFF)).2 (-4) 15) = body ∧
          body.head? ≠ some 45 ∧ sampleMagnitude body = bits.toNat % 2 ^ 63 := by
      rw [← toNat_magnitude]
      generalize bits &&& 0x7FFFFFFFFFFFFFFF = value
      by_cases hzero : value = 0
      · subst hzero
        exact ⟨_, if_pos rfl, by decide, by decide⟩
      · have hpos : 0 < value.toNat := Nat.pos_of_ne_zero fun h => hzero (UInt64.toNat_inj.mp h)
        exact ⟨_, if_neg hzero, sampleMagnitude_formatBuffer hpos⟩
    obtain ⟨hplain, hneg⟩ := strtod_sample hhead
    have hsign := ofNat_sign bits
    simp only [toChars, hbody]
    split_ifs at hsign ⊢
    · rw [List.nil_append, hplain, hvalue, hsign]
    · rw [List.singleton_append, hneg, hvalue, hsign]

end Json

end Zapshare
