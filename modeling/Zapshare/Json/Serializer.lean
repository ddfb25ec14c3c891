import Mathlib.Data.List.GetD
import Zapshare.Crypto
import Zapshare.Json.Parser

/-!
# The text of a document

The serializer of `json.hpp`, as `dump()` calls it: without indentation, without escapes for what is
not ASCII, and with an exception for a string that is not UTF-8. It checks a string with an
automaton of its own, from a table.

An object is a `std::map`: its members are in the order of their keys, and of members with one key
the first one that was given stays.

## Main results

* `Json.dumpInteger_eq` — two digits at a time make the decimal number
* `Json.length_dumpInteger` — and they fill the buffer exactly
* `Json.dumpEscaped_isSome` — the table is that of well-formed UTF-8
-/

namespace Zapshare

open Wire SortedMap

namespace Json

/-! ### Integers -/

/-- The loop of `count_digits`. -/
def countDigitsFrom : ℕ → ℕ → ℕ → ℕ
  | 0, _, n => n
  | turns + 1, x, n =>
    if x < 10 then n
    else if x < 100 then n + 1
    else if x < 1000 then n + 2
    else if x < 10000 then n + 3
    else countDigitsFrom turns (x / 10000) (n + 4)

/-- `count_digits`. -/
def countDigits (x : ℕ) : ℕ := countDigitsFrom x x 1

/-- The loop that fills the buffer, from its end: two digits at a time, in front of those that are
there. -/
def fillDigits : ℕ → ℕ → Bytes → Bytes
  | 0, _, digits => digits
  | turns + 1, x, digits =>
    if 100 ≤ x then
      fillDigits turns (x / 100) (digitByte (x % 100 / 10) :: digitByte (x % 100 % 10) :: digits)
    else if 10 ≤ x then digitByte (x / 10) :: digitByte (x % 10) :: digits
    else digitByte x :: digits

/-- The characters `dump_integer` writes: as many of its buffer. -/
def countChars (i : ℤ) : ℕ := (if i < 0 then 1 else 0) + countDigits i.natAbs

/-- `dump_integer`. -/
def dumpInteger (i : ℤ) : Bytes :=
  if i = 0 then [48] else (if i < 0 then [45] else []) ++ fillDigits i.natAbs i.natAbs []

/-! ### Floating-point numbers -/

/-- `append_exponent`. -/
def appendExponent (e : ℤ) : Bytes :=
  let k := e.natAbs
  (if e < 0 then 45 else 43) ::
    if k < 10 then [48, digitByte k]
    else if k < 100 then [digitByte (k / 10), digitByte (k % 10)]
    else [digitByte (k / 100), digitByte (k % 100 / 10), digitByte (k % 100 % 10)]

/-- `format_buffer`. -/
def formatBuffer (digits : Bytes) (decimalExponent minExp maxExp : ℤ) : Bytes :=
  let k : ℤ := digits.length
  let n := k + decimalExponent
  if k ≤ n ∧ n ≤ maxExp then digits ++ List.replicate (n - k).toNat 48 ++ [46, 48]
  else if 0 < n ∧ n ≤ maxExp then digits.take n.toNat ++ 46 :: digits.drop n.toNat
  else if minExp < n ∧ n ≤ 0 then 48 :: 46 :: List.replicate (-n).toNat 48 ++ digits
  else
    (if k = 1 then digits else digits.take 1 ++ 46 :: digits.drop 1) ++
      101 :: appendExponent (n - 1)

/-- `to_chars` of a finite number: `-4` and `15` are its bounds for a number without an exponent. -/
def toChars (doubles : Doubles) (bits : UInt64) : Bytes :=
  let value := bits &&& 0x7FFFFFFFFFFFFFFF
  (if bits = value then [] else [45]) ++
    if value = 0 then [48, 46, 48]
    else formatBuffer (doubles.grisu2 value).1 (doubles.grisu2 value).2 (-4) 15

/-! ### Strings -/

/-- The first part of the table of the automaton: the classes of the bytes. -/
def utf8Classes : List ℕ :=
  List.replicate 128 0 ++ List.replicate 16 1 ++ List.replicate 16 9 ++ List.replicate 32 7 ++
  List.replicate 2 8 ++ List.replicate 30 2 ++
  [0xA, 0x3, 0x3, 0x3, 0x3, 0x3, 0x3, 0x3, 0x3, 0x3, 0x3, 0x3, 0x3, 0x4, 0x3, 0x3,
   0xB, 0x6, 0x6, 0x6, 0x5, 0x8, 0x8, 0x8, 0x8, 0x8, 0x8, 0x8, 0x8, 0x8, 0x8, 0x8]

/-- The second part: the next state, for each state and each class. -/
def utf8Transitions : List ℕ :=
  [0x0, 0x1, 0x2, 0x3, 0x5, 0x8, 0x7, 0x1, 0x1, 0x1, 0x4, 0x6, 0x1, 0x1, 0x1, 0x1,
   1, 1, 1, 1, 1, 1, 1, 1, 1, 1, 1, 1, 1, 1, 1, 1, 1, 0, 1, 1, 1, 1, 1, 0, 1, 0, 1, 1, 1, 1, 1, 1,
   1, 2, 1, 1, 1, 1, 1, 2, 1, 2, 1, 1, 1, 1, 1, 1, 1, 1, 1, 1, 1, 1, 1, 2, 1, 1, 1, 1, 1, 1, 1, 1,
   1, 2, 1, 1, 1, 1, 1, 1, 1, 2, 1, 1, 1, 1, 1, 1, 1, 1, 1, 1, 1, 1, 1, 3, 1, 3, 1, 1, 1, 1, 1, 1,
   1, 3, 1, 1, 1, 1, 1, 3, 1, 3, 1, 1, 1, 1, 1, 1, 1, 3, 1, 1, 1, 1, 1, 1, 1, 1, 1, 1, 1, 1, 1, 1]

/-- The table of the automaton. -/
def utf8d : List ℕ := utf8Classes ++ utf8Transitions

/-- The state `UTF8_ACCEPT`, between characters. -/
def utf8Accept : ℕ := 0

/-- The state `UTF8_REJECT`. -/
def utf8Reject : ℕ := 1

/-- `decode`: the next state, and the bits of the code point so far. -/
def decode (state codep : ℕ) (byte : UInt8) : ℕ × ℕ :=
  let type := utf8d.getD byte.toNat 0
  (utf8d.getD (256 + state * 16 + type) 0,
    if state ≠ utf8Accept then byte.toNat &&& 0x3F ||| codep <<< 6
    else 0xFF >>> type &&& byte.toNat)

/-- `%04x` of a code unit. -/
def hex4 (c : ℕ) : Bytes :=
  [Crypto.hexDigit (c / 4096 % 16), Crypto.hexDigit (c / 256 % 16), Crypto.hexDigit (c / 16 % 16),
    Crypto.hexDigit (c % 16)]

/-- What is written for a code point that ends with this byte. The bytes in front of its last one
are written already. -/
def escaped (codepoint : ℕ) (byte : UInt8) : Bytes :=
  match codepoint with
  | 0x08 => [92, 98]
  | 0x09 => [92, 116]
  | 0x0A => [92, 110]
  | 0x0C => [92, 102]
  | 0x0D => [92, 114]
  | 0x22 => [92, 34]
  | 0x5C => [92, 92]
  | _ => if codepoint ≤ 0x1F then 92 :: 117 :: hex4 codepoint else [byte]

/-- The loop of `dump_escaped`; `none` when it throws. -/
def dumpEscapedFrom : ℕ → ℕ → Bytes → Option Bytes
  | state, _, [] => if state = utf8Accept then some [] else none
  | state, codep, byte :: rest =>
    let r := decode state codep byte
    if r.1 = utf8Accept then (dumpEscapedFrom r.1 r.2 rest).map (escaped r.2 byte ++ ·)
    else if r.1 = utf8Reject then none
    else (dumpEscapedFrom r.1 r.2 rest).map (byte :: ·)

/-- `dump_escaped`. -/
def dumpEscaped (s : Bytes) : Option Bytes := dumpEscapedFrom utf8Accept 0 s

/-! ### Documents -/

mutual

/-- The document as it is kept: every object a map. -/
def stored : Json → Json
  | array values => array (storedElements values)
  | object members => object (collect (storedMembers members))
  | v => v

/-- The elements of an array as they are kept. -/
def storedElements : List Json → List Json
  | [] => []
  | v :: values => stored v :: storedElements values

/-- The members of an object as they are kept, in the order in which they were. -/
def storedMembers : List (Bytes × Json) → List (Bytes × Json)
  | [] => []
  | (key, v) :: members => (key, stored v) :: storedMembers members

end

mutual

/-- `serializer::dump` of a document as it is kept; `none` when it throws. -/
def write (doubles : Doubles) : Json → Option Bytes
  | null => some (text "null")
  | boolean b => some (if b then text "true" else text "false")
  | number i => some (dumpInteger i)
  | floating bits => some (if isFinite bits then toChars doubles bits else text "null")
  | string s => (dumpEscaped s).map fun e => 34 :: e ++ [34]
  | array values => (writeElements doubles values).map fun e => 91 :: e ++ [93]
  | object members => (writeMembers doubles members).map fun e => 123 :: e ++ [125]

/-- The elements of an array, with commas between them. -/
def writeElements (doubles : Doubles) : List Json → Option Bytes
  | [] => some []
  | [v] => write doubles v
  | v :: values => do
    let first ← write doubles v
    let rest ← writeElements doubles values
    return first ++ 44 :: rest

/-- The members of an object, with commas between them. -/
def writeMembers (doubles : Doubles) : List (Bytes × Json) → Option Bytes
  | [] => some []
  | [(key, v)] => do
    let name ← dumpEscaped key
    let value ← write doubles v
    return 34 :: name ++ 34 :: 58 :: value
  | (key, v) :: members => do
    let name ← dumpEscaped key
    let value ← write doubles v
    let rest ← writeMembers doubles members
    return 34 :: name ++ 34 :: 58 :: value ++ 44 :: rest

end

/-- `dump()`; `none` when it throws. -/
def dump (doubles : Doubles) (data : Json) : Option Bytes := write doubles (stored data)

/-! ### What is written for an integer -/

/-- Two digits at a time make a decimal number. -/
theorem decimal_of_ge_hundred {n : ℕ} (h : 100 ≤ n) :
    decimal n = decimal (n / 100) ++ [digitByte (n % 100 / 10), digitByte (n % 100 % 10)] := by
  have htens : n / 10 % 10 = n % 100 / 10 := by omega
  have hones : n % 10 = n % 100 % 10 := by omega
  rw [decimal_of_ge (by omega), decimal_of_ge (by omega), Nat.div_div_eq_div_mul, htens, hones,
    List.append_assoc]
  rfl

theorem fillDigits_eq {turns n : ℕ} (h : n ≤ turns) (hn : 0 < n) (digits : Bytes) :
    fillDigits turns n digits = decimal n ++ digits := by
  induction turns generalizing n digits with
  | zero => omega
  | succ turns ih =>
    rw [fillDigits]
    split_ifs with hhundred hten
    · rw [ih (by omega) (by omega), decimal_of_ge_hundred hhundred, List.append_assoc]
      rfl
    · rw [decimal_of_ge hten, decimal_of_lt (by omega)]
      rfl
    · rw [decimal_of_lt (by omega)]
      rfl

theorem length_decimal_of_ge {n : ℕ} (h : 10 ≤ n) :
    (decimal n).length = (decimal (n / 10)).length + 1 := by
  rw [decimal_of_ge h, List.length_append, List.length_singleton]

theorem length_decimal_of_lt {n : ℕ} (h : n < 10) : (decimal n).length = 1 := by
  rw [decimal_of_lt h, List.length_singleton]

theorem countDigitsFrom_eq {turns x : ℕ} (h : x ≤ turns) (hx : 0 < x) (n : ℕ) :
    countDigitsFrom turns x n + 1 = n + (decimal x).length := by
  induction turns generalizing x n with
  | zero => omega
  | succ turns ih =>
    rw [countDigitsFrom]
    split_ifs with h1 h2 h3 h4
    · rw [length_decimal_of_lt h1]
    · rw [length_decimal_of_ge (by omega), length_decimal_of_lt (by omega)]
    · rw [length_decimal_of_ge (by omega), length_decimal_of_ge (by omega),
        length_decimal_of_lt (by omega)]
    · rw [length_decimal_of_ge (by omega), length_decimal_of_ge (by omega),
        length_decimal_of_ge (by omega), length_decimal_of_lt (by omega)]
    · have hrest := ih (x := x / 10000) (by omega) (by omega) (n + 4)
      rw [hrest, length_decimal_of_ge (n := x) (by omega),
        length_decimal_of_ge (n := x / 10) (by omega),
        length_decimal_of_ge (n := x / 10 / 10) (by omega),
        length_decimal_of_ge (n := x / 10 / 10 / 10) (by omega)]
      simp only [Nat.div_div_eq_div_mul, Nat.reduceMul]
      omega

/-- **What is written for an integer**: a sign, and the decimal number. -/
theorem dumpInteger_eq (i : ℤ) :
    dumpInteger i = (if i < 0 then [45] else []) ++ decimal i.natAbs := by
  by_cases hzero : i = 0
  · subst hzero
    rw [dumpInteger, if_pos rfl, if_neg (Int.lt_irrefl 0), Int.natAbs_zero,
      decimal_of_lt (by decide)]
    rfl
  · rw [dumpInteger, if_neg hzero, fillDigits_eq (Nat.le_refl _) (Int.natAbs_pos.mpr hzero),
      List.append_nil]

/-- **The buffer is filled exactly**: no character of it is left from before, and none is written in
front of it. -/
theorem length_dumpInteger {i : ℤ} (h : i ≠ 0) : (dumpInteger i).length = countChars i := by
  have hcount : countDigits i.natAbs + 1 = 1 + (decimal i.natAbs).length :=
    countDigitsFrom_eq (Nat.le_refl _) (Int.natAbs_pos.mpr h) 1
  rw [dumpInteger_eq, countChars, List.length_append]
  split_ifs <;> simp <;> omega

/-! ### What is written for a string -/

/-- The ranges of the bytes that a state of the automaton expects. -/
def pending : ℕ → List (UInt8 × UInt8)
  | 2 => [(0x80, 0xBF)]
  | 3 => [(0x80, 0xBF), (0x80, 0xBF)]
  | 4 => [(0xA0, 0xBF), (0x80, 0xBF)]
  | 5 => [(0x80, 0x9F), (0x80, 0xBF)]
  | 6 => [(0x90, 0xBF), (0x80, 0xBF), (0x80, 0xBF)]
  | 7 => [(0x80, 0xBF), (0x80, 0xBF), (0x80, 0xBF)]
  | 8 => [(0x80, 0x8F), (0x80, 0xBF), (0x80, 0xBF)]
  | _ => []

/-- The classes, without the table. -/
def byteClass (b : UInt8) : ℕ :=
  if b < 0x80 then 0
  else if b < 0x90 then 1
  else if b < 0xA0 then 9
  else if b < 0xC0 then 7
  else if b < 0xC2 then 8
  else if b < 0xE0 then 2
  else if b = 0xE0 then 0xA
  else if b = 0xED then 4
  else if b < 0xF0 then 3
  else if b = 0xF0 then 0xB
  else if b < 0xF4 then 6
  else if b = 0xF4 then 5
  else 8

/-- The next state, by the class of the byte. -/
def transition (state type : ℕ) : ℕ := utf8Transitions.getD (state * 16 + type) 0

/-- A byte of each class. -/
def sampleByte (type : ℕ) : UInt8 :=
  [0x00, 0x80, 0xC2, 0xE1, 0xED, 0xF4, 0xF1, 0xA0, 0xC0, 0x90, 0xE0, 0xF0].getD type 0

theorem utf8Classes_eq :
    utf8Classes = (List.range 256).map fun n => byteClass (UInt8.ofNat n) := by
  decide +kernel

theorem length_utf8Classes : utf8Classes.length = 256 := by simp [utf8Classes_eq]

theorem utf8d_byte (b : UInt8) : utf8d.getD b.toNat 0 = byteClass b := by
  have hlt : b.toNat < utf8Classes.length := by
    rw [length_utf8Classes]
    exact b.toNat_lt
  rw [utf8d, List.getD_append _ _ _ _ hlt, List.getD_eq_getElem _ _ hlt]
  simp [utf8Classes_eq]

theorem utf8d_state (state type : ℕ) :
    utf8d.getD (256 + state * 16 + type) 0 = transition state type := by
  have hindex : 256 + state * 16 + type - utf8Classes.length = state * 16 + type := by
    rw [length_utf8Classes]
    omega
  rw [utf8d, List.getD_append_right _ _ _ _ (by rw [length_utf8Classes]; omega), hindex, transition]

/-- The automaton, without the table of classes. -/
theorem decode_eq (state codep : ℕ) (b : UInt8) :
    decode state codep b = (transition state (byteClass b),
      if state ≠ utf8Accept then b.toNat &&& 0x3F ||| codep <<< 6
      else 0xFF >>> byteClass b &&& b.toNat) := by
  simp only [decode, utf8d_byte, utf8d_state]

/-- Bytes of one class are treated alike. -/
theorem utf8Step_sampleByte {state : ℕ} (hstate : state < 9) (b : UInt8) :
    byteClass b < 12 ∧
      utf8Step (pending state) b = utf8Step (pending state) (sampleByte (byteClass b)) := by
  have hall : ∀ n < 256, byteClass (UInt8.ofNat n) < 12 ∧ ∀ state < 9,
      (utf8Step (pending state) (UInt8.ofNat n)
        == utf8Step (pending state) (sampleByte (byteClass (UInt8.ofNat n)))) = true := by
    decide +kernel
  obtain ⟨hlt, hstep⟩ := hall b.toNat b.toNat_lt
  rw [UInt8.ofNat_toNat] at hlt hstep
  exact ⟨hlt, eq_of_beq (hstep state hstate)⟩

/-- The transitions are right for these. -/
theorem utf8Step_transition {state type : ℕ} (hstate : state < 9) (hne : state ≠ utf8Reject)
    (htype : type < 12) :
    transition state type < 9 ∧ utf8Step (pending state) (sampleByte type) =
      if transition state type = utf8Reject then none
      else some (pending (transition state type)) := by
  have hall : ∀ state < 9, state ≠ utf8Reject → ∀ type < 12,
      (transition state type < 9 ∧ utf8Step (pending state) (sampleByte type) =
        if transition state type = utf8Reject then none
        else some (pending (transition state type)) : Bool) := by
    decide +kernel
  simpa using hall state hstate hne type htype

/-- **One step of the automaton.** -/
theorem decode_spec {state : ℕ} (hstate : state < 9) (hne : state ≠ utf8Reject) (codep : ℕ)
    (b : UInt8) :
    (decode state codep b).1 < 9 ∧ utf8Step (pending state) b =
      if (decode state codep b).1 = utf8Reject then none
      else some (pending (decode state codep b).1) := by
  obtain ⟨htype, hsample⟩ := utf8Step_sampleByte hstate b
  rw [decode_eq, hsample]
  exact utf8Step_transition hstate hne htype

/-- A state expects nothing only between characters. -/
theorem pending_eq_nil {state : ℕ} (hstate : state < 9) (hne : state ≠ utf8Reject)
    (h : pending state = []) : state = utf8Accept := by
  have hall : ∀ state < 9, state ≠ utf8Reject → pending state = [] → state = utf8Accept := by
    decide
  exact hall state hstate hne h

/-- A string is written exactly if it is well-formed from the state on. -/
theorem dumpEscapedFrom_isSome {state codep : ℕ} (hstate : state < 9) (hne : state ≠ utf8Reject)
    (s : Bytes) :
    (dumpEscapedFrom state codep s).isSome = true ↔
      s.foldlM utf8Step (pending state) = some [] := by
  induction s generalizing state codep with
  | nil =>
    rw [dumpEscapedFrom]
    split_ifs with haccept
    · subst haccept
      exact iff_of_true rfl rfl
    · refine iff_of_false (by simp) fun h => haccept (pending_eq_nil hstate hne ?_)
      simpa using h
  | cons byte s ih =>
    obtain ⟨hlt, hstep⟩ := decode_spec hstate hne codep byte
    rw [dumpEscapedFrom, List.foldlM_cons, hstep]
    by_cases hreject : (decode state codep byte).1 = utf8Reject
    · simp [hreject, utf8Accept, utf8Reject]
    · simp only [if_neg hreject, Option.bind_eq_bind, Option.bind_some]
      split_ifs with haccept
      · rw [Option.isSome_map]
        exact ih hlt hreject
      · rw [Option.isSome_map]
        exact ih hlt hreject

/-- **`dump_escaped` throws exactly for what is not UTF-8.** -/
theorem dumpEscaped_isSome (s : Bytes) :
    (dumpEscaped s).isSome = true ↔ utf8Valid s = true := by
  rw [dumpEscaped, dumpEscapedFrom_isSome (by decide) (by decide), utf8Valid, beq_iff_eq]
  rfl

/-! ### What is written for a character -/

/-- The code point so far does not matter between characters. -/
theorem dumpEscapedFrom_accept (codep : ℕ) (s : Bytes) :
    dumpEscapedFrom utf8Accept codep s = dumpEscaped s := by
  cases s <;> rfl

theorem decode_ascii {b : UInt8} (h : b < 0x80) (codep : ℕ) :
    decode utf8Accept codep b = (utf8Accept, b.toNat) := by
  have hand : 0xFF &&& b.toNat = b.toNat := by
    rw [Nat.and_comm]
    exact (Nat.and_two_pow_sub_one_eq_mod b.toNat 8).trans (Nat.mod_eq_of_lt b.toNat_lt)
  rw [decode_eq, byteClass, if_pos h]
  exact Prod.ext rfl hand

/-- The least that a code point can be: as a whole, or of the bits that are there. A character has
no shorter encoding than its own. -/
def leastCode : ℕ → ℕ
  | 0 => 0x80
  | 2 => 2
  | 3 | 5 | 7 | 8 => 1
  | _ => 0

theorem decode_lead {b : UInt8} (h : 0x80 ≤ b) (codep : ℕ)
    (hreject : (decode utf8Accept codep b).1 ≠ utf8Reject) :
    (decode utf8Accept codep b).1 ≠ utf8Accept ∧
      leastCode (decode utf8Accept codep b).1 ≤ (decode utf8Accept codep b).2 := by
  have hall : ∀ n < 256, 0x80 ≤ n →
      transition utf8Accept (byteClass (UInt8.ofNat n)) ≠ utf8Reject →
      transition utf8Accept (byteClass (UInt8.ofNat n)) ≠ utf8Accept ∧
      leastCode (transition utf8Accept (byteClass (UInt8.ofNat n)))
        ≤ 0xFF >>> byteClass (UInt8.ofNat n) &&& n := by
    decide +kernel
  have hb := hall b.toNat b.toNat_lt (UInt8.le_iff_toNat_le.mp h)
  rw [UInt8.ofNat_toNat] at hb
  rw [decode_eq] at hreject ⊢
  exact hb hreject

/-- The least that the bytes of a class add to a code point, behind the first byte. -/
def leastBits : ℕ → ℕ
  | 7 => 0x20
  | 9 => 0x10
  | _ => 0

theorem leastBits_le (b : UInt8) : leastBits (byteClass b) ≤ b.toNat &&& 0x3F := by
  have hall : ∀ n < 256, leastBits (byteClass (UInt8.ofNat n)) ≤ n &&& 0x3F := by decide +kernel
  simpa using hall b.toNat b.toNat_lt

theorem leastCode_le_decode {state codep : ℕ} (hstate : state < 9) (hne : state ≠ utf8Accept)
    (hcode : leastCode state ≤ codep) (b : UInt8)
    (hreject : (decode state codep b).1 ≠ utf8Reject) :
    leastCode (decode state codep b).1 ≤ (decode state codep b).2 := by
  have hall : ∀ state < 9, ∀ type < 12, state ≠ utf8Accept →
      (transition state type ≠ utf8Reject → leastCode (transition state type)
        ≤ max (leastBits type) (leastCode state <<< 6) : Bool) := by
    decide +kernel
  have hb := hall state hstate (byteClass b) (utf8Step_sampleByte hstate b).1 hne
  rw [decide_eq_true_eq] at hb
  have hshift : leastCode state <<< 6 ≤ codep <<< 6 := by
    rw [Nat.shiftLeft_eq, Nat.shiftLeft_eq]
    exact Nat.mul_le_mul_right _ hcode
  rw [decode_eq] at hreject ⊢
  rw [if_pos hne]
  calc leastCode (transition state (byteClass b))
      ≤ max (leastBits (byteClass b)) (leastCode state <<< 6) := hb hreject
    _ ≤ b.toNat &&& 0x3F ||| codep <<< 6 :=
      max_le ((leastBits_le b).trans Nat.left_le_or) (hshift.trans Nat.right_le_or)

theorem escaped_of_ge {codepoint : ℕ} (h : 0x80 ≤ codepoint) (byte : UInt8) :
    escaped codepoint byte = [byte] := by
  rw [escaped.eq_def]
  split
  case h_8 => rw [if_neg (by omega)]
  all_goals omega

/-- The bytes of a character behind the first one are copied. -/
theorem dumpEscapedFrom_tail {state codep : ℕ} (hstate : state < 9) (hne : state ≠ utf8Reject)
    (hnot : state ≠ utf8Accept) (hcode : leastCode state ≤ codep) {tail : Bytes}
    (h : InRanges (pending state) tail) (rest : Bytes) :
    dumpEscapedFrom state codep (tail ++ rest) = (dumpEscaped rest).map (tail ++ ·) := by
  induction tail generalizing state codep with
  | nil => exact absurd (pending_eq_nil hstate hne (List.forall₂_nil_right_iff.mp h)) hnot
  | cons b tail ih =>
    obtain ⟨r, ranges, hb, htail, hpending⟩ := List.forall₂_cons_right_iff.mp h
    obtain ⟨hlt, hstep⟩ := decode_spec hstate hne codep b
    rw [hpending, utf8Step, if_pos hb] at hstep
    split_ifs at hstep with hreject
    have hranges : ranges = pending (decode state codep b).1 := Option.some.inj hstep
    have hleast := leastCode_le_decode hstate hnot hcode b hreject
    rw [List.cons_append, dumpEscapedFrom]
    split_ifs with haccept
    · rw [haccept] at hranges hleast
      obtain rfl : tail = [] := List.forall₂_nil_left_iff.mp (hranges ▸ htail)
      rw [haccept, dumpEscapedFrom_accept, escaped_of_ge hleast]
      rfl
    · rw [ih hlt hreject haccept hleast (hranges ▸ htail), Option.map_map]
      rfl

/-- **What is written for a character**: an ASCII character may be escaped, and the bytes of any
other are copied. -/
theorem dumpEscaped_char {b : UInt8} {tail : Bytes} (h : IsChar b tail) (rest : Bytes) :
    dumpEscaped (b :: tail ++ rest) =
      (dumpEscaped rest).map ((if b < 0x80 then escaped b.toNat b else b :: tail) ++ ·) := by
  rw [dumpEscaped, List.cons_append, dumpEscapedFrom]
  by_cases hascii : b < 0x80
  · obtain rfl := h.tail_eq_nil hascii
    rw [decode_ascii hascii, if_pos rfl, if_pos hascii, dumpEscapedFrom_accept]
    rfl
  · obtain ⟨ranges, hlead, htail⟩ := h
    obtain ⟨hlt, hstep⟩ := decode_spec (by decide : utf8Accept < 9) (by decide) 0 b
    rw [show pending utf8Accept = [] from rfl, utf8Step, hlead] at hstep
    split_ifs at hstep with hreject
    obtain ⟨hnot, hleast⟩ := decode_lead (UInt8.not_lt.mp hascii) 0 hreject
    rw [if_neg hnot, if_neg hreject, if_neg hascii,
      dumpEscapedFrom_tail hlt hreject hnot hleast (Option.some.inj hstep ▸ htail), Option.map_map]
    rfl

end Json

end Zapshare
