import Zapshare.Types

/-!
# JSON documents

What the two programs use of `json.hpp`: reading a member with the `operator[]` for constant
objects, and the conversions of a value to a string and to two sizes of number. The texts are the
library's: `Platform` has its `parse` and `dump`, and what else is not part of the repository.

The `operator[]` asserts that the member is there. It throws for anything but an object, and the
conversions throw for values of another type; only an absent member is not an exception.

## Main results

* `Json.read_bind_aborts_iff` — a sequence of reads aborts at the first member that is absent
* `Platform.Documented` — what the documentation of the platform promises
-/

namespace Zapshare

open Wire

/-- A value of `nlohmann::json`. An integer is signed or unsigned, and a number with a fraction or
an exponent is a `double`, given by its bits. -/
inductive Json
  | null
  | boolean (b : Bool)
  | number (i : ℤ)
  | floating (bits : UInt64)
  | string (s : Bytes)
  | array (values : List Json)
  | object (members : List (Bytes × Json))

/-- How a call can fail to return: by an exception, or by an assertion that ends the process. -/
inductive Fault
  | thrown
  | aborted
  deriving DecidableEq, Repr

/-- What the two programs find around them. -/
structure Platform where
  /-- `json::parse`; `none` when it throws. -/
  parse : Bytes → Option Json
  /-- `json::dump`; `none` when it throws. -/
  dump : Json → Option Bytes
  /-- `static_cast<uint32_t>` of a `double`. -/
  floatToUInt32 : UInt64 → UInt32
  /-- `static_cast<size_t>` of a `double`. -/
  floatToSize : UInt64 → UInt64
  /-- What PostgreSQL stores for a string that is given for a `TEXT` column; `none` when it refuses
  the string. -/
  storeText : Bytes → Option Bytes
  /-- What the HTTP client makes of the query part of a URL. -/
  normalizeQuery : Bytes → Bytes

namespace Json

/-! ### Members -/

/-- The member of an object. -/
def find : Json → Bytes → Option Json
  | object members, key => members.lookup key
  | _, _ => none

/-- `is_object()`. -/
def isObject : Json → Bool
  | object _ => true
  | _ => false

/-- `contains(key)`. -/
def contains (data : Json) (key : Bytes) : Bool := (data.find key).isSome

/-- `operator[](key)` of a constant document. -/
def member (data : Json) (key : Bytes) : Except Fault Json :=
  match data with
  | object members =>
    match members.lookup key with
    | some value => .ok value
    | none => .error .aborted
  | _ => .error .thrown

/-! ### Conversions -/

/-- `get<std::string>()`. -/
def toStdString : Json → Except Fault Bytes
  | string s => .ok s
  | _ => .error .thrown

/-- `get<uint32_t>()`. -/
def toUInt32 (platform : Platform) : Json → Except Fault UInt32
  | number i => .ok (UInt32.ofInt i)
  | floating bits => .ok (platform.floatToUInt32 bits)
  | boolean b => .ok (if b then 1 else 0)
  | _ => .error .thrown

/-- `get<size_t>()`. -/
def toSize (platform : Platform) : Json → Except Fault UInt64
  | number i => .ok (UInt64.ofInt i)
  | floating bits => .ok (platform.floatToSize bits)
  | _ => .error .thrown

/-- What a value is converted to. -/
inductive Kind
  | string
  | uint32
  | size

/-- The values that can be converted. -/
def Kind.accepts : Kind → Json → Bool
  | .string, .string _ => true
  | .uint32, .number _ => true
  | .uint32, .floating _ => true
  | .uint32, .boolean _ => true
  | .size, .number _ => true
  | .size, .floating _ => true
  | _, _ => false

/-- A conversion returns for the values of its kind, and throws for all others. -/
structure Converts {α : Type} (convert : Json → Except Fault α) (kind : Kind) : Prop where
  accepted : ∀ v, kind.accepts v = true → ∃ a, convert v = .ok a
  refused : ∀ v, kind.accepts v = false → convert v = .error .thrown

theorem converts_toStdString : Converts toStdString .string where
  accepted v hv := by
    cases v <;> first | exact ⟨_, rfl⟩ | cases hv
  refused v hv := by
    cases v <;> first | rfl | cases hv

theorem converts_toUInt32 (platform : Platform) : Converts (toUInt32 platform) .uint32 where
  accepted v hv := by
    cases v <;> first | exact ⟨_, rfl⟩ | cases hv
  refused v hv := by
    cases v <;> first | rfl | cases hv

theorem converts_toSize (platform : Platform) : Converts (toSize platform) .size where
  accepted v hv := by
    cases v <;> first | exact ⟨_, rfl⟩ | cases hv
  refused v hv := by
    cases v <;> first | rfl | cases hv

/-! ### Reading a member -/

/-- A member and what it is converted to. -/
structure Field where
  name : Bytes
  kind : Kind

/-- The document is an object without this member. -/
def Lacks (data : Json) (name : Bytes) : Prop := data.isObject = true ∧ data.find name = none

/-- The member is there and can be converted. -/
def Reads (data : Json) (field : Field) : Prop :=
  ∃ v, data.find field.name = some v ∧ field.kind.accepts v = true

instance (data : Json) (name : Bytes) : Decidable (data.Lacks name) :=
  decidable_of_iff (data.isObject = true ∧ (data.find name).isNone = true) (by
    simp [Lacks, Option.isNone_iff_eq_none])

instance (data : Json) (field : Field) : Decidable (data.Reads field) :=
  decidable_of_iff ((data.find field.name).any field.kind.accepts = true) (by
    simp [Reads, Option.any_eq_true])

variable {α β : Type} {convert : Json → Except Fault α} {kind : Kind} {name : Bytes} {data : Json}

/-- A member, converted. -/
def read (data : Json) (convert : Json → Except Fault α) (name : Bytes) : Except Fault α :=
  data.member name >>= convert

/-- `contains(key) ? data[key] : absent`, converted. -/
def readOr (data : Json) (convert : Json → Except Fault α) (name : Bytes) (absent : α) :
    Except Fault α :=
  if data.contains name then data.read convert name else .ok absent

theorem read_of_find {v : Json} (h : data.find name = some v) :
    data.read convert name = convert v := by
  cases data with
  | object members =>
    simp only [find] at h
    simp only [read, member, h]
    rfl
  | _ => cases h

theorem uint32_ofInt_toNat (n : UInt32) : UInt32.ofInt (n.toNat : ℤ) = n := by
  have h : (n.toNat : ℤ) % 2 ^ 32 = n.toNat := by
    have := n.toNat_lt
    omega
  rw [UInt32.ofInt, h]
  simp

theorem uint64_ofInt_toNat (n : UInt64) : UInt64.ofInt (n.toNat : ℤ) = n := by
  have h : (n.toNat : ℤ) % 2 ^ 64 = n.toNat := by
    have := n.toNat_lt
    omega
  rw [UInt64.ofInt, h]
  simp

theorem read_string {s : Bytes} (h : data.find name = some (.string s)) :
    data.read toStdString name = .ok s := read_of_find h

theorem read_uint32 {platform : Platform} {n : UInt32}
    (h : data.find name = some (.number n.toNat)) :
    data.read (toUInt32 platform) name = .ok n := by
  rw [read_of_find h, toUInt32, uint32_ofInt_toNat]

theorem read_size {platform : Platform} {n : UInt64}
    (h : data.find name = some (.number n.toNat)) :
    data.read (toSize platform) name = .ok n := by
  rw [read_of_find h, toSize, uint64_ofInt_toNat]

theorem read_of_lacks (h : data.Lacks name) :
    data.read convert name = .error .aborted := by
  obtain ⟨hobject, hfind⟩ := h
  cases data with
  | object members =>
    simp only [find] at hfind
    simp only [read, member, hfind]
    rfl
  | _ => cases hobject

theorem read_of_not_object (h : data.isObject = false) :
    data.read convert name = .error .thrown := by
  cases data with
  | object members => cases h
  | _ => rfl

/-- A member is absent, or it is read, or there is an exception. -/
theorem read_cases (hc : Converts convert kind) (name : Bytes) (data : Json) :
    (data.Lacks name ∧ data.read convert name = .error .aborted) ∨
    (data.Reads ⟨name, kind⟩ ∧ ∃ a, data.read convert name = .ok a) ∨
    (¬ data.Lacks name ∧ ¬ data.Reads ⟨name, kind⟩ ∧
      data.read convert name = .error .thrown) := by
  cases hfind : data.find name with
  | some v =>
    have hnot : ¬ data.Lacks name := fun h => by simp [h.2] at hfind
    cases hv : kind.accepts v with
    | true =>
      obtain ⟨a, ha⟩ := hc.accepted v hv
      exact Or.inr (Or.inl ⟨⟨v, hfind, hv⟩, a, by rw [read_of_find hfind, ha]⟩)
    | false =>
      refine Or.inr (Or.inr ⟨hnot, ?_, by rw [read_of_find hfind, hc.refused v hv]⟩)
      rintro ⟨w, hw, hacc⟩
      rw [hfind] at hw
      cases hw
      rw [hv] at hacc
      cases hacc
  | none =>
    cases hobject : data.isObject with
    | true => exact Or.inl ⟨⟨hobject, hfind⟩, read_of_lacks ⟨hobject, hfind⟩⟩
    | false =>
      refine Or.inr (Or.inr ⟨?_, ?_, read_of_not_object hobject⟩)
      · intro hlacks
        simp [hlacks.1] at hobject
      rintro ⟨v, hv, -⟩
      rw [hfind] at hv
      cases hv

/-- A member that need not be there is no reason to end the process. -/
theorem readOr_cases (hc : Converts convert kind) (data : Json) (name : Bytes) (absent : α) :
    data.readOr convert name absent ≠ .error .aborted ∧
      ((∃ a, data.readOr convert name absent = .ok a)
        ↔ data.find name = none ∨ data.Reads ⟨name, kind⟩) := by
  cases hfind : data.find name with
  | none =>
    have hread : data.readOr convert name absent = .ok absent := by
      simp [readOr, contains, hfind]
    rw [hread]
    exact ⟨by simp, iff_of_true ⟨absent, rfl⟩ (Or.inl rfl)⟩
  | some v =>
    have hread : data.readOr convert name absent = data.read convert name := by
      simp [readOr, contains, hfind]
    rw [hread]
    rcases read_cases hc name data with ⟨hlacks, -⟩ | ⟨hreads, a, h⟩ | ⟨-, hno, h⟩
    · simp [hlacks.2] at hfind
    · rw [h]
      exact ⟨by simp, iff_of_true ⟨a, rfl⟩ (Or.inr hreads)⟩
    · rw [h]
      exact ⟨by simp, iff_of_false (by simp) (by simp [hno])⟩

/-- **A read and what follows it.** The process ends if the member is absent, or if the member is
read and the process ends in what follows. -/
theorem read_bind_aborts_iff (hc : Converts convert kind) {f : α → Except Fault β} {P : Prop}
    (hf : ∀ a, data.read convert name = .ok a → (f a = .error .aborted ↔ P)) :
    (data.read convert name >>= f) = .error .aborted
      ↔ data.Lacks name ∨ data.Reads ⟨name, kind⟩ ∧ P := by
  rcases read_cases hc name data with ⟨hlacks, h⟩ | ⟨hreads, a, h⟩ | ⟨hnot, hno, h⟩
  · rw [h]
    exact iff_of_true rfl (Or.inl hlacks)
  · have hnot : ¬ data.Lacks name := by
      intro hlacks
      rw [read_of_lacks hlacks] at h
      cases h
    rw [h]
    refine (hf a h).trans ?_
    constructor
    · intro hP
      exact Or.inr ⟨hreads, hP⟩
    · intro hor
      exact (hor.resolve_left hnot).2
  · rw [h]
    refine iff_of_false (by intro h; cases h) ?_
    rintro (hlacks | ⟨hreads, -⟩)
    · exact hnot hlacks
    · exact hno hreads

/-! ### What is documented -/

/-- The scalars that are written and read back unchanged: text in UTF-8, the integers of 64 bits,
and the truth values. -/
def Plain : Json → Bool
  | string s => utf8Valid s
  | number i => -2 ^ 63 ≤ i && i < 2 ^ 64
  | boolean _ => true
  | _ => false

theorem plain_uint32 (n : UInt32) : (number n.toNat).Plain = true := by
  have := n.toNat_lt
  simp only [Plain, Bool.and_eq_true, decide_eq_true_eq]
  omega

theorem plain_uint64 (n : UInt64) : (number n.toNat).Plain = true := by
  have := n.toNat_lt
  simp only [Plain, Bool.and_eq_true, decide_eq_true_eq]
  omega

theorem plain_int64 (n : Int64) : (number n.toInt).Plain = true := by
  have hle := n.le_toInt
  have hlt := n.toInt_lt
  simp only [Plain, Bool.and_eq_true, decide_eq_true_eq]
  omega

@[simp] theorem plain_string (s : Bytes) : (string s).Plain = utf8Valid s := rfl

@[simp] theorem plain_boolean (b : Bool) : (boolean b).Plain = true := rfl

/-- The objects that are written and read back unchanged. -/
def Flat : Json → Bool
  | object members => members.all fun m => utf8Valid m.1 && m.2.Plain
  | _ => false

@[simp] theorem flat_object_nil : (object []).Flat = true := rfl

@[simp] theorem flat_object_cons (key : Bytes) (value : Json) (members : List (Bytes × Json)) :
    (object ((key, value) :: members)).Flat = true
      ↔ utf8Valid key = true ∧ value.Plain = true ∧ (object members).Flat = true := by
  simp [Flat, and_assoc]

end Json

/-- What the documentation of the libraries and of PostgreSQL promises. The order of the members of
an object is not kept. -/
structure Platform.Documented (platform : Platform) : Prop where
  parse_dump : ∀ data : Json, data.Flat = true → ∃ s data',
    platform.dump data = some s ∧ platform.parse s = some data' ∧
      ∀ key, data'.find key = data.find key
  /-- An object is written between braces. -/
  dump_object : ∀ members s, platform.dump (.object members) = some s → s.head? = some 123
  storeText : ∀ s, utf8Valid s = true → 0 ∉ s → platform.storeText s = some s

end Zapshare
