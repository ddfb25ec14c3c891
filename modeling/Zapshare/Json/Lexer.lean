import Zapshare.Decimal
import Zapshare.Json
import Zapshare.Wire.Characters

/-!
# The tokens of a JSON text

The lexer of `json.hpp`. It reads byte by byte: `get` takes the next one, `unget` puts it back, and
a token is what `scan` returns. Comments are errors, and a zero byte between tokens ends the text.

`scan` is a function of what is left of the text, and returns what is left behind the token. The
texts of its errors are not part of the model, since all that the programs do with one is to catch
the exception.

## Main results

* `Json.scanString_spec` — a string of a text is well-formed UTF-8, whatever the text
* `Json.tokens_eq` — the tokens of a text, one after the other
-/

namespace Zapshare

open Wire

/-- The conversions between a `double`, given by its bits, and decimal numbers: `std::strtod`, and
the `grisu2` of `json.hpp`, which finds the digits of a positive number and their exponent. -/
structure Doubles where
  strtod : Bytes → UInt64
  grisu2 : UInt64 → Bytes × ℤ

namespace Json

/-- `token_type`, with the values of those that have one. -/
inductive Token
  | literalTrue
  | literalFalse
  | literalNull
  | valueString (s : Bytes)
  | valueUnsigned (n : ℕ)
  | valueInteger (i : ℤ)
  | valueFloat (bits : UInt64)
  | beginArray
  | beginObject
  | endArray
  | endObject
  | nameSeparator
  | valueSeparator
  | parseError
  | endOfInput
  deriving DecidableEq, Repr

/-! ### Strings -/

/-- What a hexadecimal digit stands for. -/
def hexValue (b : UInt8) : Option ℕ :=
  if 48 ≤ b ∧ b ≤ 57 then some (b.toNat - 0x30)
  else if 65 ≤ b ∧ b ≤ 70 then some (b.toNat - 0x37)
  else if 97 ≤ b ∧ b ≤ 102 then some (b.toNat - 0x57)
  else none

/-- `get_codepoint`: the four hexadecimal digits behind `\u`. -/
def getCodepoint : Bytes → Option (ℕ × Bytes)
  | b₁ :: b₂ :: b₃ :: b₄ :: rest => do
    let d₁ ← hexValue b₁
    let d₂ ← hexValue b₂
    let d₃ ← hexValue b₃
    let d₄ ← hexValue b₄
    return (d₁ * 2 ^ 12 + d₂ * 2 ^ 8 + d₃ * 2 ^ 4 + d₄, rest)
  | _ => none

/-- The bytes of a code point. -/
def encodeCodepoint (c : ℕ) : Bytes :=
  if c < 0x80 then [UInt8.ofNat c]
  else if c ≤ 0x7FF then [UInt8.ofNat (0xC0 ||| c >>> 6), UInt8.ofNat (0x80 ||| c &&& 0x3F)]
  else if c ≤ 0xFFFF then
    [UInt8.ofNat (0xE0 ||| c >>> 12), UInt8.ofNat (0x80 ||| c >>> 6 &&& 0x3F),
      UInt8.ofNat (0x80 ||| c &&& 0x3F)]
  else
    [UInt8.ofNat (0xF0 ||| c >>> 18), UInt8.ofNat (0x80 ||| c >>> 12 &&& 0x3F),
      UInt8.ofNat (0x80 ||| c >>> 6 &&& 0x3F), UInt8.ofNat (0x80 ||| c &&& 0x3F)]

/-- What follows `\u`: one code unit, or the two of a surrogate pair. -/
def scanUnicode (data : Bytes) : Option (Bytes × Bytes) := do
  let (c₁, rest) ← getCodepoint data
  if 0xD800 ≤ c₁ ∧ c₁ ≤ 0xDBFF then
    match rest with
    | 92 :: 117 :: rest => do
      let (c₂, rest) ← getCodepoint rest
      if 0xDC00 ≤ c₂ ∧ c₂ ≤ 0xDFFF then
        return (encodeCodepoint (c₁ <<< 10 + c₂ - 0x35FDC00), rest)
      else none
    | _ => none
  else if 0xDC00 ≤ c₁ ∧ c₁ ≤ 0xDFFF then none
  else return (encodeCodepoint c₁, rest)

/-- What follows a backslash. -/
def scanEscape : Bytes → Option (Bytes × Bytes)
  | 34 :: rest => some ([34], rest)
  | 92 :: rest => some ([92], rest)
  | 47 :: rest => some ([47], rest)
  | 98 :: rest => some ([8], rest)
  | 102 :: rest => some ([12], rest)
  | 110 :: rest => some ([10], rest)
  | 114 :: rest => some ([13], rest)
  | 116 :: rest => some ([9], rest)
  | 117 :: rest => scanUnicode rest
  | _ => none

/-- The ranges of the bytes behind the first byte of a character in a string; `none` where that is a
control character, or starts no character. -/
def charRanges (b : UInt8) : Option (List (UInt8 × UInt8)) :=
  if b ≤ 0x1F then none
  else if b ≤ 0x7F then some []
  else if 0xC2 ≤ b ∧ b ≤ 0xDF then some [(0x80, 0xBF)]
  else if b = 0xE0 then some [(0xA0, 0xBF), (0x80, 0xBF)]
  else if 0xE1 ≤ b ∧ b ≤ 0xEC ∨ 0xEE ≤ b ∧ b ≤ 0xEF then some [(0x80, 0xBF), (0x80, 0xBF)]
  else if b = 0xED then some [(0x80, 0x9F), (0x80, 0xBF)]
  else if b = 0xF0 then some [(0x90, 0xBF), (0x80, 0xBF), (0x80, 0xBF)]
  else if 0xF1 ≤ b ∧ b ≤ 0xF3 then some [(0x80, 0xBF), (0x80, 0xBF), (0x80, 0xBF)]
  else if b = 0xF4 then some [(0x80, 0x8F), (0x80, 0xBF), (0x80, 0xBF)]
  else none

/-- `next_byte_in_range`, for each of the ranges. -/
def nextBytesInRange : List (UInt8 × UInt8) → Bytes → Option (Bytes × Bytes)
  | [], rest => some ([], rest)
  | (lo, hi) :: ranges, b :: rest =>
    if lo ≤ b ∧ b ≤ hi then (nextBytesInRange ranges rest).map fun r => (b :: r.1, r.2) else none
  | _ :: _, [] => none

/-- One turn of the loop of `scan_string`, from a byte that is no quotation mark. -/
def scanChar (b : UInt8) (rest : Bytes) : Option (Bytes × Bytes) :=
  if b = 92 then scanEscape rest
  else do
    let ranges ← charRanges b
    let (tail, rest) ← nextBytesInRange ranges rest
    return (b :: tail, rest)

/-- `scan_string`, behind the opening quotation mark; `none` when there is an error. Each turn reads
a byte at least, so that there are no more of them than bytes. -/
def scanStringFrom : ℕ → Bytes → Option (Bytes × Bytes)
  | 0, _ => none
  | _ + 1, [] => none
  | turns + 1, b :: rest =>
    if b = 34 then some ([], rest)
    else do
      let (c, rest) ← scanChar b rest
      let (s, rest) ← scanStringFrom turns rest
      return (c ++ s, rest)

/-- `scan_string`, behind the opening quote. -/
def scanString (data : Bytes) : Option (Bytes × Bytes) := scanStringFrom data.length data

/-! ### Numbers -/

/-- The states of `scan_number` from which a byte is read. -/
inductive NumberState
  | minus
  | zero
  | any1
  | decimal1
  | decimal2
  | exponent
  | sign
  | any2
  deriving DecidableEq, Repr

/-- What `scan_number` takes a number for. -/
inductive NumberType
  | unsigned
  | integer
  | float
  deriving DecidableEq, Repr

namespace NumberState

/-- The state after a byte that belongs to the number. -/
def next : NumberState → UInt8 → Option NumberState
  | minus, b => if b = 48 then some zero else if isDigit b then some any1 else none
  | zero, b => if b = 46 then some decimal1 else if b = 101 ∨ b = 69 then some exponent else none
  | any1, b =>
    if isDigit b then some any1
    else if b = 46 then some decimal1
    else if b = 101 ∨ b = 69 then some exponent
    else none
  | decimal1, b => if isDigit b then some decimal2 else none
  | decimal2, b =>
    if isDigit b then some decimal2 else if b = 101 ∨ b = 69 then some exponent else none
  | exponent, b => if b = 43 ∨ b = 45 then some sign else if isDigit b then some any2 else none
  | sign, b => if isDigit b then some any2 else none
  | any2, b => if isDigit b then some any2 else none

/-- Whether the number may end here. -/
def isDone : NumberState → Bool
  | zero | any1 | decimal2 | any2 => true
  | _ => false

/-- What a state makes of the type of the number. -/
def type : NumberState → NumberType → NumberType
  | minus, _ => .integer
  | decimal1, _ => .float
  | exponent, _ => .float
  | _, t => t

end NumberState

/-- `scan_number` from a state on: the type of the number, its bytes, and what is left; `none` when
there is an error. -/
def scanNumberFrom : NumberState → NumberType → Bytes → Option (NumberType × Bytes × Bytes)
  | state, type, [] => if state.isDone then some (state.type type, [], []) else none
  | state, type, b :: rest =>
    match state.next b with
    | some state' =>
      (scanNumberFrom state' (state.type type) rest).map fun r => (r.1, b :: r.2.1, r.2.2)
    | none => if state.isDone then some (state.type type, [], b :: rest) else none

/-- The number a text stands for: an integer of 64 bits if it is one, and a `double` otherwise. -/
def numberToken (doubles : Doubles) : NumberType → Bytes → Token
  | .unsigned, bs =>
    let x := digitsValue bs
    if x < 2 ^ 64 then .valueUnsigned x else .valueFloat (doubles.strtod bs)
  | .integer, bs =>
    let x : ℤ := -digitsValue bs.tail
    if -2 ^ 63 ≤ x then .valueInteger x else .valueFloat (doubles.strtod bs)
  | .float, bs => .valueFloat (doubles.strtod bs)

/-- The state after the first byte of a number. -/
def numberStart (b : UInt8) : Option NumberState :=
  if b = 45 then some .minus
  else if b = 48 then some .zero
  else if isDigit b then some .any1
  else none

/-- `scan_number`, from the first byte and the state it leads to. -/
def scanNumber (doubles : Doubles) (b : UInt8) (state : NumberState) (rest : Bytes) :
    Token × Bytes :=
  match scanNumberFrom state .unsigned rest with
  | some (type, bs, rest) => (numberToken doubles type (b :: bs), rest)
  | none => (.parseError, [])

/-! ### Tokens -/

/-- The bytes that `skip_whitespace` passes over. -/
def isWhitespace (b : UInt8) : Bool := b == 32 || b == 9 || b == 10 || b == 13

/-- `scan_literal`, behind the first byte of the literal. -/
def scanLiteral (literal : Bytes) (token : Token) (rest : Bytes) : Token × Bytes :=
  if literal.isPrefixOf rest then (token, rest.drop literal.length) else (.parseError, [])

/-- `scan`, but for the byte order mark. -/
def scan (doubles : Doubles) (data : Bytes) : Token × Bytes :=
  match data.dropWhile isWhitespace with
  | [] => (.endOfInput, [])
  | 91 :: rest => (.beginArray, rest)
  | 93 :: rest => (.endArray, rest)
  | 123 :: rest => (.beginObject, rest)
  | 125 :: rest => (.endObject, rest)
  | 58 :: rest => (.nameSeparator, rest)
  | 44 :: rest => (.valueSeparator, rest)
  | 116 :: rest => scanLiteral (text "rue") .literalTrue rest
  | 102 :: rest => scanLiteral (text "alse") .literalFalse rest
  | 110 :: rest => scanLiteral (text "ull") .literalNull rest
  | 34 :: rest =>
    match scanString rest with
    | some (s, rest) => (.valueString s, rest)
    | none => (.parseError, [])
  | 0 :: _ => (.endOfInput, [])
  | b :: rest =>
    match numberStart b with
    | some state => scanNumber doubles b state rest
    | none => (.parseError, [])

/-- Nothing is read behind such a token. -/
def Token.isLast : Token → Bool
  | .parseError | .endOfInput => true
  | _ => false

/-- The tokens `scan` returns, up to an error or the end of the text. Each turn reads a byte at
least, or is the last. -/
def tokensFrom (doubles : Doubles) : ℕ → Bytes → List Token
  | 0, _ => []
  | turns + 1, data =>
    let r := scan doubles data
    if r.1.isLast then [r.1] else r.1 :: tokensFrom doubles turns r.2

/-- The tokens of what is left of a text. -/
def tokens (doubles : Doubles) (data : Bytes) : List Token :=
  tokensFrom doubles (data.length + 1) data

/-- The tokens of a whole text, which may begin with a byte order mark. -/
def textTokens (doubles : Doubles) : Bytes → List Token
  | 0xEF :: 0xBB :: 0xBF :: rest => tokens doubles rest
  | 0xEF :: _ => [.parseError]
  | data => tokens doubles data

/-! ### What a string is -/

theorem hexValue_lt {b : UInt8} {d : ℕ} (h : hexValue b = some d) : d < 16 := by
  simp only [hexValue, UInt8.le_iff_toNat_le] at h
  split_ifs at h with hdigit hupper hlower
  all_goals
    obtain rfl := Option.some.inj h
    simp only [UInt8.reduceToNat] at *
    omega

theorem getCodepoint_spec {data rest : Bytes} {c : ℕ} (h : getCodepoint data = some (c, rest)) :
    rest <:+ data ∧ c ≤ 0xFFFF := by
  match data, h with
  | b₁ :: b₂ :: b₃ :: b₄ :: rest', h =>
    simp only [getCodepoint, Option.bind_eq_bind, Option.bind_eq_some_iff, Option.pure_def,
      Option.some.injEq, Prod.mk.injEq] at h
    obtain ⟨d₁, h₁, d₂, h₂, d₃, h₃, d₄, h₄, rfl, rfl⟩ := h
    have := hexValue_lt h₁
    have := hexValue_lt h₂
    have := hexValue_lt h₃
    have := hexValue_lt h₄
    exact ⟨⟨[b₁, b₂, b₃, b₄], rfl⟩, by omega⟩

/-- The table of the lexer is that of well-formed UTF-8, without the control characters. -/
theorem charRanges_eq (b : UInt8) : charRanges b = if b ≤ 0x1F then none else utf8Tail b := by
  have hall : ∀ n < 256, charRanges (UInt8.ofNat n)
      = if UInt8.ofNat n ≤ 0x1F then none else utf8Tail (UInt8.ofNat n) := by
    decide +kernel
  simpa using hall b.toNat b.toNat_lt

theorem nextBytesInRange_iff {ranges : List (UInt8 × UInt8)} {data tail rest : Bytes} :
    nextBytesInRange ranges data = some (tail, rest) ↔
      data = tail ++ rest ∧ InRanges ranges tail := by
  induction ranges generalizing data tail with
  | nil =>
    simp only [nextBytesInRange, InRanges, List.forall₂_nil_left_iff, Option.some.injEq,
      Prod.mk.injEq]
    constructor
    · rintro ⟨rfl, rfl⟩
      exact ⟨rfl, rfl⟩
    · rintro ⟨rfl, rfl⟩
      exact ⟨rfl, rfl⟩
  | cons r ranges ih =>
    obtain ⟨lo, hi⟩ := r
    cases data with
    | nil =>
      refine iff_of_false (by simp [nextBytesInRange]) ?_
      rintro ⟨heq, hranges⟩
      rw [(List.append_eq_nil_iff.mp heq.symm).1] at hranges
      exact absurd hranges (by simp [InRanges])
    | cons b data =>
      rw [nextBytesInRange]
      constructor
      · intro h
        split_ifs at h with hb
        obtain ⟨⟨tail', rest'⟩, hnext, heq⟩ := Option.map_eq_some_iff.mp h
        obtain ⟨rfl, rfl⟩ := Prod.mk.inj heq
        obtain ⟨rfl, hranges⟩ := ih.mp hnext
        exact ⟨rfl, List.Forall₂.cons hb hranges⟩
      · rintro ⟨heq, hranges⟩
        obtain ⟨b', tail', hb, hranges', rfl⟩ := List.forall₂_cons_left_iff.mp hranges
        rw [List.cons_append] at heq
        obtain ⟨rfl, rfl⟩ := List.cons.inj heq
        rw [if_pos hb, ih.mpr ⟨rfl, hranges'⟩]
        rfl

/-- The first byte of a character: some bits in front that say how long it is, and the highest bits
of the code point. -/
theorem toNat_lead {i a n : ℕ} (hn : n < 2 ^ i) (h : 2 ^ i * a + n < 256) :
    (UInt8.ofNat (2 ^ i * a ||| n)).toNat = 2 ^ i * a + n := by
  rw [← Nat.two_pow_add_eq_or_of_lt hn a, toNat_ofNat h]

theorem toNat_continuation (c : ℕ) :
    (UInt8.ofNat (0x80 ||| c &&& 0x3F)).toNat = 0x80 + c % 64 := by
  have hand : c &&& 0x3F = c % 2 ^ 6 := Nat.and_two_pow_sub_one_eq_mod c 6
  have hlt : c % 2 ^ 6 < 2 ^ 6 := Nat.mod_lt c (Nat.two_pow_pos 6)
  rw [hand]
  exact toNat_lead (a := 2) hlt (by omega)

theorem isContinuation (c : ℕ) : IsContinuation (UInt8.ofNat (0x80 ||| c &&& 0x3F)) := by
  rw [IsContinuation, UInt8.le_iff_toNat_le, UInt8.le_iff_toNat_le, toNat_continuation]
  simp only [UInt8.reduceToNat]
  omega

/-- **A code point that is no surrogate is written as a character.** -/
theorem utf8Valid_encodeCodepoint {c : ℕ} (hle : c ≤ 0x10FFFF)
    (hsurrogate : ¬ (0xD800 ≤ c ∧ c ≤ 0xDFFF)) : utf8Valid (encodeCodepoint c) = true := by
  rw [encodeCodepoint]
  split_ifs with h1 h2 h3
  · refine (isChar_ascii ?_).utf8Valid
    rw [UInt8.lt_iff_toNat_lt, toNat_ofNat (by omega)]
    exact h1
  · have hlead : (UInt8.ofNat (0xC0 ||| c >>> 6)).toNat = 0xC0 + c / 64 := by
      rw [Nat.shiftRight_eq_div_pow]
      exact toNat_lead (i := 6) (a := 3) (by omega) (by omega)
    refine (isChar_two ?_ (isContinuation c)).utf8Valid
    simp only [UInt8.le_iff_toNat_le, UInt8.lt_iff_toNat_lt, UInt8.reduceToNat, hlead]
    omega
  · have hlead : (UInt8.ofNat (0xE0 ||| c >>> 12)).toNat = 0xE0 + c / 4096 := by
      rw [Nat.shiftRight_eq_div_pow]
      exact toNat_lead (i := 4) (a := 14) (by omega) (by omega)
    have hsecond : (UInt8.ofNat (0x80 ||| c >>> 6 &&& 0x3F)).toNat = 0x80 + c / 64 % 64 := by
      rw [toNat_continuation, Nat.shiftRight_eq_div_pow]
    refine (isChar_three ?_ (isContinuation (c >>> 6)) ?_ ?_ (isContinuation c)).utf8Valid
    all_goals
      simp only [UInt8.le_iff_toNat_le, UInt8.lt_iff_toNat_lt, ← UInt8.toNat_inj,
        UInt8.reduceToNat, hlead, hsecond]
      omega
  · have hlead : (UInt8.ofNat (0xF0 ||| c >>> 18)).toNat = 0xF0 + c / 262144 := by
      rw [Nat.shiftRight_eq_div_pow]
      exact toNat_lead (i := 3) (a := 30) (by omega) (by omega)
    have hsecond : (UInt8.ofNat (0x80 ||| c >>> 12 &&& 0x3F)).toNat = 0x80 + c / 4096 % 64 := by
      rw [toNat_continuation, Nat.shiftRight_eq_div_pow]
    refine (isChar_four ?_ (isContinuation (c >>> 12)) ?_ ?_ (isContinuation (c >>> 6))
      (isContinuation c)).utf8Valid
    all_goals
      simp only [UInt8.le_iff_toNat_le, ← UInt8.toNat_inj, UInt8.reduceToNat, hlead, hsecond]
      omega

theorem scanUnicode_spec {data c rest : Bytes} (h : scanUnicode data = some (c, rest)) :
    utf8Valid c = true ∧ rest <:+ data := by
  rw [scanUnicode, Option.bind_eq_bind, Option.bind_eq_some_iff] at h
  obtain ⟨⟨c₁, rest₁⟩, hfirst, h⟩ := h
  obtain ⟨hsuffix, hle⟩ := getCodepoint_spec hfirst
  simp only at h
  split_ifs at h with hhigh hlow
  · split at h
    · rename_i rest₂
      rw [Option.bind_eq_some_iff] at h
      obtain ⟨⟨c₂, rest₃⟩, hsecond, h⟩ := h
      obtain ⟨hsuffix', -⟩ := getCodepoint_spec hsecond
      simp only at h
      split_ifs at h with hpair
      obtain ⟨rfl, rfl⟩ := Prod.mk.inj (Option.some.inj h)
      have hshift : c₁ <<< 10 = c₁ * 1024 := Nat.shiftLeft_eq c₁ 10
      refine ⟨utf8Valid_encodeCodepoint (by omega) (by omega), ?_⟩
      exact hsuffix'.trans ((List.suffix_append [92, 117] rest₂).trans hsuffix)
    · cases h
  · obtain ⟨rfl, rfl⟩ := Prod.mk.inj (Option.some.inj h)
    exact ⟨utf8Valid_encodeCodepoint (by omega) (by omega), hsuffix⟩

theorem scanEscape_spec {data c rest : Bytes} (h : scanEscape data = some (c, rest)) :
    utf8Valid c = true ∧ rest <:+ data := by
  rw [scanEscape.eq_def] at h
  split at h
  case h_9 rest' =>
    obtain ⟨hvalid, hsuffix⟩ := scanUnicode_spec h
    exact ⟨hvalid, hsuffix.trans (List.suffix_cons 117 rest')⟩
  case h_10 => cases h
  all_goals
    obtain ⟨rfl, rfl⟩ := Prod.mk.inj (Option.some.inj h)
    exact ⟨by decide, List.suffix_cons _ _⟩

/-- One turn reads a character. -/
theorem scanChar_spec {b : UInt8} {data c rest : Bytes} (h : scanChar b data = some (c, rest)) :
    utf8Valid c = true ∧ rest <:+ data := by
  rw [scanChar] at h
  split_ifs at h
  · exact scanEscape_spec h
  · simp only [Option.bind_eq_bind, Option.bind_eq_some_iff, Option.pure_def,
      Option.some.injEq, Prod.mk.injEq] at h
    obtain ⟨ranges, hranges, ⟨tail, rest'⟩, hnext, rfl, rfl⟩ := h
    obtain ⟨rfl, hin⟩ := nextBytesInRange_iff.mp hnext
    rw [charRanges_eq] at hranges
    split_ifs at hranges
    exact ⟨IsChar.utf8Valid ⟨ranges, hranges, hin⟩, List.suffix_append tail rest'⟩

/-- With turns enough, it does not matter how many there are. -/
theorem scanStringFrom_congr {turns turns' : ℕ} {data : Bytes} (h : data.length ≤ turns)
    (h' : data.length ≤ turns') : scanStringFrom turns data = scanStringFrom turns' data := by
  induction turns generalizing turns' data with
  | zero =>
    obtain rfl := List.length_eq_zero_iff.mp (Nat.le_zero.mp h)
    cases turns' <;> rfl
  | succ turns ih =>
    cases data with
    | nil => cases turns' <;> rfl
    | cons b data =>
      rw [List.length_cons] at h h'
      obtain ⟨turns', rfl⟩ : ∃ n, turns' = n + 1 := ⟨turns' - 1, by omega⟩
      rw [scanStringFrom, scanStringFrom]
      split_ifs with hquote
      · rfl
      · cases hchar : scanChar b data with
        | none => rfl
        | some r =>
          have hlength := (scanChar_spec hchar).2.length_le
          have hrest : scanStringFrom turns r.2 = scanStringFrom turns' r.2 :=
            ih (by omega) (by omega)
          simp only [Option.bind_eq_bind, Option.bind_some, hrest]

/-- **A string, character by character.** -/
theorem scanString_cons (b : UInt8) (data : Bytes) :
    scanString (b :: data) = if b = 34 then some ([], data) else do
      let (c, rest) ← scanChar b data
      let (s, rest) ← scanString rest
      return (c ++ s, rest) := by
  rw [scanString, List.length_cons, scanStringFrom]
  split_ifs with hquote
  · rfl
  · cases hchar : scanChar b data with
    | none => rfl
    | some r =>
      have hlength := (scanChar_spec hchar).2.length_le
      simp only [Option.bind_eq_bind, Option.bind_some, scanString,
        scanStringFrom_congr hlength (Nat.le_refl _)]

/-- **A string of a text is well-formed.** -/
theorem scanString_spec {data s rest : Bytes} (h : scanString data = some (s, rest)) :
    utf8Valid s = true ∧ rest <:+ data := by
  induction hlength : data.length using Nat.strong_induction_on generalizing data s with
  | _ n ih =>
    cases data with
    | nil => cases h
    | cons b data =>
      rw [scanString_cons] at h
      split_ifs at h with hquote
      · obtain ⟨rfl, rfl⟩ := Prod.mk.inj (Option.some.inj h)
        exact ⟨rfl, List.suffix_cons b data⟩
      · simp only [Option.bind_eq_bind, Option.bind_eq_some_iff, Option.pure_def,
          Option.some.injEq, Prod.mk.injEq] at h
        obtain ⟨⟨c, rest₁⟩, hchar, ⟨s', rest₂⟩, hstring, rfl, rfl⟩ := h
        obtain ⟨hc, hsuffix⟩ := scanChar_spec hchar
        have hlt : rest₁.length < n := by
          have := hsuffix.length_le
          rw [← hlength, List.length_cons]
          omega
        obtain ⟨hs, hsuffix'⟩ := ih rest₁.length hlt hstring rfl
        exact ⟨utf8Valid_append hc hs, hsuffix'.trans (hsuffix.trans (List.suffix_cons b data))⟩

/-! ### What a number is -/

/-- The bytes of a number are taken from the text. -/
theorem scanNumberFrom_append {state : NumberState} {type type' : NumberType} {data bs rest : Bytes}
    (h : scanNumberFrom state type data = some (type', bs, rest)) : data = bs ++ rest := by
  induction data generalizing state type bs with
  | nil =>
    rw [scanNumberFrom] at h
    split_ifs at h
    simp only [Option.some.injEq, Prod.mk.injEq] at h
    obtain ⟨-, rfl, rfl⟩ := h
    rfl
  | cons b data ih =>
    rw [scanNumberFrom] at h
    split at h
    · obtain ⟨⟨t, bs', rest'⟩, hfrom, heq⟩ := Option.map_eq_some_iff.mp h
      simp only [Prod.mk.injEq] at heq
      obtain ⟨rfl, rfl, rfl⟩ := heq
      rw [ih hfrom]
      rfl
    · split_ifs at h
      simp only [Option.some.injEq, Prod.mk.injEq] at h
      obtain ⟨-, rfl, rfl⟩ := h
      rfl

/-- The tokens that may stand in front of others: strings are well-formed, and integers have 64
bits. -/
def Token.Ok : Token → Prop
  | valueString s => utf8Valid s = true
  | valueUnsigned n => n < 2 ^ 64
  | valueInteger i => -2 ^ 63 ≤ i ∧ i ≤ 0
  | _ => True

theorem ok_numberToken (doubles : Doubles) (type : NumberType) (bs : Bytes) :
    (numberToken doubles type bs).Ok := by
  cases type with
  | unsigned =>
    simp only [numberToken]
    split_ifs with h
    · exact h
    · trivial
  | integer =>
    simp only [numberToken]
    split_ifs with h
    · exact ⟨h, by omega⟩
    · trivial
  | float => trivial

/-! ### One token after the other -/

theorem scanLiteral_spec {literal rest : Bytes} {token : Token} (hok : token.Ok)
    (h : (scanLiteral literal token rest).1.isLast = false) :
    (scanLiteral literal token rest).1.Ok ∧ (scanLiteral literal token rest).2 <:+ rest := by
  rw [scanLiteral] at h ⊢
  split_ifs at h ⊢
  · exact ⟨hok, List.drop_suffix _ _⟩
  · cases h

/-- What is left of a text behind its white space, without the first byte of that. -/
theorem length_of_dropWhile {data rest : Bytes} {b : UInt8}
    (h : data.dropWhile isWhitespace = b :: rest) : rest.length < data.length := by
  have hlength := (List.dropWhile_suffix (l := data) isWhitespace).length_le
  rw [h, List.length_cons] at hlength
  exact hlength

theorem scanNumber_spec {doubles : Doubles} {b : UInt8} {state : NumberState} {rest : Bytes}
    (h : (scanNumber doubles b state rest).1.isLast = false) :
    (scanNumber doubles b state rest).1.Ok ∧ (scanNumber doubles b state rest).2 <:+ rest := by
  rw [scanNumber] at h ⊢
  split at h
  · rename_i type bs rest' hfrom
    refine ⟨ok_numberToken _ _ _, ?_⟩
    rw [scanNumberFrom_append hfrom]
    exact List.suffix_append bs rest'
  · cases h

/-- **A token that is not the last** is one that may stand in front of others, and something was
read. -/
theorem scan_spec {doubles : Doubles} {data : Bytes} (h : (scan doubles data).1.isLast = false) :
    (scan doubles data).1.Ok ∧ (scan doubles data).2.length < data.length := by
  rw [scan] at h ⊢
  split at h
  case h_1 => cases h
  case h_8 hdata | h_9 hdata | h_10 hdata =>
    obtain ⟨hok, hsuffix⟩ := scanLiteral_spec (by trivial) h
    exact ⟨hok, Nat.lt_of_le_of_lt hsuffix.length_le (length_of_dropWhile hdata)⟩
  case h_11 rest hdata =>
    cases hstring : scanString rest with
    | none =>
      rw [hstring] at h
      cases h
    | some r =>
      obtain ⟨hvalid, hsuffix⟩ := scanString_spec hstring
      exact ⟨hvalid, Nat.lt_of_le_of_lt hsuffix.length_le (length_of_dropWhile hdata)⟩
  case h_12 => cases h
  case h_13 b rest _ _ _ _ _ _ _ _ _ _ _ hdata =>
    cases hstart : numberStart b with
    | none =>
      rw [hstart] at h
      cases h
    | some state =>
      rw [hstart] at h
      obtain ⟨hok, hsuffix⟩ := scanNumber_spec h
      exact ⟨hok, Nat.lt_of_le_of_lt hsuffix.length_le (length_of_dropWhile hdata)⟩
  all_goals
    rename_i hdata
    exact ⟨trivial, length_of_dropWhile hdata⟩

/-- With turns enough, it does not matter how many there are. -/
theorem tokensFrom_congr {doubles : Doubles} {turns turns' : ℕ} {data : Bytes}
    (h : data.length < turns) (h' : data.length < turns') :
    tokensFrom doubles turns data = tokensFrom doubles turns' data := by
  induction turns generalizing turns' data with
  | zero => exact absurd h (Nat.not_lt_zero _)
  | succ turns ih =>
    obtain ⟨turns', rfl⟩ : ∃ n, turns' = n + 1 := ⟨turns' - 1, by omega⟩
    simp only [tokensFrom]
    split
    · rfl
    · rename_i hlast
      have hlength := (scan_spec (Bool.eq_false_iff.mpr hlast)).2
      have hrest : tokensFrom doubles turns (scan doubles data).2
          = tokensFrom doubles turns' (scan doubles data).2 :=
        ih (by omega) (by omega)
      rw [hrest]

/-- **The tokens of a text**, one after the other. -/
theorem tokens_eq (doubles : Doubles) (data : Bytes) :
    tokens doubles data =
      if (scan doubles data).1.isLast then [(scan doubles data).1]
      else (scan doubles data).1 :: tokens doubles (scan doubles data).2 := by
  rw [tokens, tokensFrom]
  split_ifs with hlast
  · rfl
  · have hlength := (scan_spec (Bool.eq_false_iff.mpr hlast)).2
    rw [tokensFrom_congr hlength (Nat.lt_succ_self _)]
    rfl

/-- The tokens in front of the last one are good. -/
theorem ok_of_mem_tokens {doubles : Doubles} {data : Bytes} : ∀ t ∈ tokens doubles data, t.Ok := by
  induction hlength : data.length using Nat.strong_induction_on generalizing data with
  | _ n ih =>
    intro t ht
    rw [tokens_eq] at ht
    split_ifs at ht with hlast
    · obtain rfl := List.mem_singleton.mp ht
      revert hlast
      cases (scan doubles data).1 <;> simp [Token.isLast, Token.Ok]
    · obtain ⟨hok, hlt⟩ := scan_spec (Bool.eq_false_iff.mpr hlast)
      rcases List.mem_cons.mp ht with rfl | ht
      · exact hok
      · exact ih _ (hlength ▸ hlt) rfl t ht

end Json

end Zapshare
