import Zapshare.Wire.Record

/-!
# Fields of proto3 messages

The rules a generated message class follows when it turns its fields into records and back. A
scalar, `string` or `bytes` field with its default value is left out; an embedded message is
written whenever it is present, also when it is empty. Reading folds over the records of the
input, so a later record overrides an earlier one and a record no field asks for is passed over.

The `foldlM_*Field` rules walk such a fold field by field, whether or not the field was written.

## Main results

* `Wire.encodeRecords_injective` — two sequences of fields with the same bytes are the same
* `Wire.mergeFrom_take_member` — what a packet with one member parses to, also when it was cut
-/

namespace Wire

variable {α : Type*} {rs : List Record}

/-! ### Writing -/

/-- A `string` or `bytes` field. -/
def bytesField (n : ℕ) (bs : Bytes) : List Record := if bs = [] then [] else [⟨n, .len bs⟩]

/-- A `uint64` field. -/
def uint64Field (n : ℕ) (v : UInt64) : List Record := if v = 0 then [] else [⟨n, .varint v⟩]

/-- The varint of an enumerator: enums are open, and negative numbers are sign-extended. -/
def enumVarint (e : Int32) : UInt64 := e.toInt64.toUInt64

/-- An enum field. -/
def enumField (n : ℕ) (e : Int32) : List Record := uint64Field n (enumVarint e)

/-- An embedded message that is present, given by its serialization. -/
def messageField (n : ℕ) (bs : Bytes) : List Record := [⟨n, .len bs⟩]

/-! ### Reading -/

/-- The bytes of a `string` field. -/
def readString (bs : Bytes) : Option Bytes := if utf8Valid bs then some bs else none

/-- The enumerator of a varint. -/
def readEnum (v : UInt64) : Int32 := v.toUInt32.toInt32

/-- Merge the message in `bs` into `m`, one record at a time. -/
def mergeFrom (set : α → Record → Option α) (depth : ℕ) (m : α) (bs : Bytes) : Option α :=
  (records depth bs).bind fun rs => rs.foldlM set m

theorem mergeFrom_encodeRecords (set : α → Record → Option α) (depth : ℕ) (m : α)
    (h : ∀ r ∈ rs, r.WellFormed) :
    mergeFrom set depth m (encodeRecords rs) = rs.foldlM set m := by
  rw [mergeFrom, records_encodeRecords h, Option.bind_some]

theorem readEnum_enumVarint (e : Int32) : readEnum (enumVarint e) = e := by
  apply Int32.toBitVec_inj.mp
  change BitVec.setWidth 32 (BitVec.signExtend 64 e.toBitVec) = e.toBitVec
  ext i hi
  simp only [BitVec.getElem_setWidth, BitVec.getLsbD_signExtend, if_pos hi,
    BitVec.getLsbD_eq_getElem hi]
  simp [show i < 64 by omega]

theorem enumVarint_eq_zero_iff {e : Int32} : enumVarint e = 0 ↔ e = 0 := by
  constructor
  · intro h
    have := readEnum_enumVarint e
    rw [h] at this
    exact this.symm
  · rintro rfl
    rfl

/-! ### Well-formed fields

What a field writes is a record with the number of the field and a varint or a length-delimited
value, which is well-formed as soon as the whole message is short enough. -/

/-- A record as the fields of a message class write it. -/
def Record.IsField (r : Record) : Prop :=
  0 < r.number ∧ r.number < 2 ^ 29 ∧ ((∃ v, r.value = .varint v) ∨ ∃ bs, r.value = .len bs)

theorem isField_bytesField {n : ℕ} (hn : 0 < n ∧ n < 2 ^ 29) (bs : Bytes) :
    ∀ r ∈ bytesField n bs, r.IsField := by
  intro r hr
  rw [bytesField] at hr
  split at hr
  · simp at hr
  · obtain rfl := List.mem_singleton.mp hr
    exact ⟨hn.1, hn.2, Or.inr ⟨bs, rfl⟩⟩

theorem isField_uint64Field {n : ℕ} (hn : 0 < n ∧ n < 2 ^ 29) (v : UInt64) :
    ∀ r ∈ uint64Field n v, r.IsField := by
  intro r hr
  unfold uint64Field at hr
  split at hr
  · simp at hr
  · obtain rfl := List.mem_singleton.mp hr
    exact ⟨hn.1, hn.2, Or.inl ⟨v, rfl⟩⟩

theorem forall_isField_append {rs' : List Record} (h : ∀ r ∈ rs, r.IsField)
    (h' : ∀ r ∈ rs', r.IsField) : ∀ r ∈ rs ++ rs', r.IsField := by
  intro r hr
  rcases List.mem_append.mp hr with hr | hr
  · exact h r hr
  · exact h' r hr

theorem wellFormed_of_isField (hlen : (encodeRecords rs).length ≤ maxLength)
    (h : ∀ r ∈ rs, r.IsField) : ∀ r ∈ rs, r.WellFormed := by
  intro r hr
  obtain ⟨hpos, hlt, ⟨v, hv⟩ | ⟨bs, hv⟩⟩ := h r hr
  · exact ⟨hpos, hlt, by rw [hv]; trivial⟩
  · refine ⟨hpos, hlt, ?_⟩
    rw [hv]
    have hbs : bs.length ≤ (encodeRecord r).length := by
      obtain ⟨n, w⟩ := r
      obtain rfl : w = .len bs := hv
      simp only [encodeRecord, List.length_append]
      omega
    have hsub : (encodeRecord r).length ≤ (encodeRecords rs).length := by
      obtain ⟨s, t, rfl⟩ := List.append_of_mem hr
      simp only [encodeRecords_append, encodeRecords_cons, List.length_append]
      omega
    exact hbs.trans (hsub.trans hlen)

/-! ### Different fields, different bytes -/

theorem encodeTag_append_inj {n n' w w' : ℕ} {rest rest' : Bytes} (hw : w < 8) (hw' : w' < 8)
    (h : encodeTag n w ++ rest = encodeTag n' w' ++ rest') : n = n' ∧ w = w' ∧ rest = rest' := by
  obtain ⟨htag, hrest⟩ := encodeVarint_append_inj h
  exact ⟨by omega, by omega, hrest⟩

theorem encodeRecord_append_inj {r r' : Record} (hr : r.IsField) (hr' : r'.IsField)
    {rest rest' : Bytes} (h : encodeRecord r ++ rest = encodeRecord r' ++ rest') :
    r = r' ∧ rest = rest' := by
  obtain ⟨n, v⟩ := r
  obtain ⟨n', v'⟩ := r'
  obtain ⟨-, -, ⟨a, rfl⟩ | ⟨a, rfl⟩⟩ := hr <;> obtain ⟨-, -, ⟨b, rfl⟩ | ⟨b, rfl⟩⟩ := hr' <;>
    simp only [encodeRecord, List.append_assoc] at h <;>
    obtain ⟨rfl, hw, h⟩ := encodeTag_append_inj (by omega) (by omega) h
  · obtain ⟨hv, hrest⟩ := encodeVarint_append_inj h
    exact ⟨by rw [UInt64.toNat_inj.mp hv], hrest⟩
  · omega
  · omega
  · obtain ⟨hlen, h⟩ := encodeVarint_append_inj h
    obtain ⟨rfl, hrest⟩ := List.append_inj h hlen
    exact ⟨rfl, hrest⟩

/-- **Two sequences of fields with the same bytes are the same.** -/
theorem encodeRecords_injective {rs' : List Record} (h : ∀ r ∈ rs, r.IsField)
    (h' : ∀ r ∈ rs', r.IsField) (heq : encodeRecords rs = encodeRecords rs') : rs = rs' := by
  induction rs generalizing rs' with
  | nil =>
    cases rs' with
    | nil => rfl
    | cons r' rs' =>
      have := congrArg List.length heq
      have := encodeRecord_length_pos r'
      simp only [encodeRecords_nil, encodeRecords_cons, List.length_nil, List.length_append] at *
      omega
  | cons r rs ih =>
    cases rs' with
    | nil =>
      have := congrArg List.length heq
      have := encodeRecord_length_pos r
      simp only [encodeRecords_nil, encodeRecords_cons, List.length_nil, List.length_append] at *
      omega
    | cons r' rs' =>
      obtain ⟨rfl, hrest⟩ := encodeRecord_append_inj (h r List.mem_cons_self)
        (h' r' List.mem_cons_self) heq
      rw [ih (fun s hs => h s (List.mem_cons_of_mem r hs))
        (fun s hs => h' s (List.mem_cons_of_mem r hs)) hrest]

/-- An embedded message determines its number and its bytes. -/
theorem messageField_injective {n n' : ℕ} {bs bs' : Bytes}
    (h : encodeRecords (messageField n bs) = encodeRecords (messageField n' bs')) :
    n = n' ∧ bs = bs' := by
  simp only [messageField, encodeRecords_cons, encodeRecords_nil, List.append_nil,
    encodeRecord] at h
  obtain ⟨rfl, -, h⟩ := encodeTag_append_inj (by omega) (by omega) h
  exact ⟨rfl, (encodeVarint_append_inj h).2⟩

/-! ### Folding over fields -/

theorem foldlM_bytesField (set : α → Record → Option α) (m m' : α) {n : ℕ} {bs : Bytes}
    (hset : set m ⟨n, .len bs⟩ = some m') (hnil : bs = [] → m = m') :
    (bytesField n bs ++ rs).foldlM set m = rs.foldlM set m' := by
  rw [bytesField]
  split
  · rename_i h
    rw [List.nil_append, hnil h]
  · rw [List.singleton_append, List.foldlM_cons, hset]
    rfl

/-- A `string` field is refused when it is not UTF-8. -/
theorem foldlM_stringField (set : α → Record → Option α) (m : α) (f : Bytes → α) {n : ℕ}
    {bs : Bytes} (hset : set m ⟨n, .len bs⟩ = (readString bs).map f) (hnil : f [] = m) :
    (bytesField n bs ++ rs).foldlM set m
      = if utf8Valid bs then rs.foldlM set (f bs) else none := by
  rw [bytesField]
  split
  · rename_i h
    subst h
    rw [List.nil_append, hnil, utf8Valid_nil, if_pos rfl]
  · rw [List.singleton_append, List.foldlM_cons, hset, readString]
    split <;> rfl

theorem foldlM_uint64Field (set : α → Record → Option α) (m m' : α) {n : ℕ} {v : UInt64}
    (hset : set m ⟨n, .varint v⟩ = some m') (hzero : v = 0 → m = m') :
    (uint64Field n v ++ rs).foldlM set m = rs.foldlM set m' := by
  unfold uint64Field
  split
  · rename_i h
    rw [List.nil_append, hzero h]
  · rw [List.singleton_append, List.foldlM_cons, hset]
    rfl

theorem foldlM_enumField (set : α → Record → Option α) (m m' : α) {n : ℕ} {e : Int32}
    (hset : set m ⟨n, .varint (enumVarint e)⟩ = some m') (hzero : e = 0 → m = m') :
    (enumField n e ++ rs).foldlM set m = rs.foldlM set m' :=
  foldlM_uint64Field set m m' hset fun h => hzero (enumVarint_eq_zero_iff.mp h)

/-- A fold that passes over every record leaves the message as it was. -/
theorem foldlM_unknown {set : α → Record → Option α} {m : α}
    (h : ∀ r ∈ rs, set m r = some m) : rs.foldlM set m = some m := by
  induction rs with
  | nil => rfl
  | cons r rs ih =>
    rw [List.foldlM_cons, h r List.mem_cons_self]
    exact ih fun s hs => h s (List.mem_cons_of_mem r hs)

/-! ### Packets with one member

A packet that is nothing but a `oneof` is a single embedded message. -/

/-- **A packet with one member set, cut to `j` bytes**, parses exactly when nothing was cut and the
member accepts its own records. -/
theorem mergeFrom_take_member {β : Type*} (setPacket : β → Record → Option β) (p₀ : β)
    (depth k : ℕ) (ctor : α → β) (valid : Bool) {set : α → Record → Option α} {m₀ m : α}
    {depth' j : ℕ}
    (hk : 0 < k ∧ k < 16) (hj : 0 < j) (hmax : j ≤ maxLength)
    (hset : ∀ bs, setPacket p₀ ⟨k, .len bs⟩ = (mergeFrom set depth' m₀ bs).map ctor)
    (hfields : ∀ r ∈ rs, r.IsField)
    (hfold : (encodeRecords rs).length ≤ maxLength →
      rs.foldlM set m₀ = if valid then some m else none) :
    mergeFrom setPacket depth p₀ ((encodeRecords (messageField k (encodeRecords rs))).take j)
      = if (encodeRecords (messageField k (encodeRecords rs))).length ≤ j ∧ valid
        then some (ctor m) else none := by
  rw [messageField, encodeRecords_cons, encodeRecords_nil, List.append_nil]
  by_cases hfit : (encodeRecord ⟨k, .len (encodeRecords rs)⟩).length ≤ j
  · have hbody : (encodeRecords rs).length ≤ maxLength := by
      simp only [encodeRecord, List.length_append] at hfit
      omega
    have hwf : ∀ r ∈ [(⟨k, .len (encodeRecords rs)⟩ : Record)], r.WellFormed := by
      intro r hr
      obtain rfl := List.mem_singleton.mp hr
      exact ⟨hk.1, Nat.lt_trans hk.2 (by decide), hbody⟩
    have hrec := mergeFrom_encodeRecords setPacket depth p₀ hwf
    rw [encodeRecords_cons, encodeRecords_nil, List.append_nil] at hrec
    rw [List.take_of_length_le hfit, hrec, List.foldlM_cons, hset,
      mergeFrom_encodeRecords _ _ _ (wellFormed_of_isField hbody hfields), hfold hbody]
    cases valid <;> simp [hfit]
  · rw [mergeFrom]
    rcases records_take_lenRecord hk.1 hk.2 hj (encodeRecords rs) depth with h | ⟨-, h⟩
    · rw [h, if_neg (fun hc => hfit hc.1)]
      rfl
    · exact absurd h hfit

end Wire
