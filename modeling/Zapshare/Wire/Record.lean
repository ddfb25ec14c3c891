import Zapshare.Wire.Utf8

/-!
# Protobuf records

A protobuf message on the wire is a sequence of records: a field number, a wire type and a value.
This file writes such sequences and reads arbitrary bytes as one, with the limits of the reference
decoder: a tag and a length take at most five bytes, a value at most ten, a length stays below
2 GiB, groups nest to a bounded depth, and a group is skipped as a whole.

What a record *means* is left to the message: a reader folds over the records it knows and passes
over the rest, so an unknown field, or a known one with another wire type, is dropped there.

## The fuel

`parseRecords` runs on a fuel, one unit for each record. `parseRecords_fuel` says that any fuel
above the number of bytes gives the same result, so `records` never stops early for lack of it.

## Main results

* `Wire.records_encodeRecords` — reading back a sequence of well-formed records
* `Wire.records_take_lenRecord` — a length-delimited record cut short is refused
-/

namespace Wire

/-- The value of a record, by wire type. The contents of a group are skipped. -/
inductive Value
  | varint (v : UInt64)
  | i64 (bs : Bytes)
  | len (bs : Bytes)
  | group
  | i32 (bs : Bytes)
  deriving DecidableEq, Repr

/-- One record: a field number and a value. -/
structure Record where
  number : ℕ
  value : Value
  deriving DecidableEq, Repr

/-- The longest length-delimited value a reader accepts: `INT_MAX` less the slop of the input
buffer. -/
def maxLength : ℕ := 2 ^ 31 - 1 - 16

/-! ### Writing -/

/-- The tag of a record. -/
def encodeTag (number wire : ℕ) : Bytes := encodeVarint (8 * number + wire)

/-- One record as bytes. -/
def encodeRecord : Record → Bytes
  | ⟨n, .varint v⟩ => encodeTag n 0 ++ encodeVarint v.toNat
  | ⟨n, .i64 bs⟩ => encodeTag n 1 ++ bs
  | ⟨n, .len bs⟩ => encodeTag n 2 ++ (encodeVarint bs.length ++ bs)
  | ⟨n, .group⟩ => encodeTag n 3 ++ encodeTag n 4
  | ⟨n, .i32 bs⟩ => encodeTag n 5 ++ bs

/-- A sequence of records as bytes. -/
def encodeRecords (rs : List Record) : Bytes := rs.flatMap encodeRecord

@[simp] theorem encodeRecords_nil : encodeRecords [] = [] := rfl

@[simp] theorem encodeRecords_cons (r : Record) (rs : List Record) :
    encodeRecords (r :: rs) = encodeRecord r ++ encodeRecords rs := rfl

@[simp] theorem encodeRecords_append (rs rs' : List Record) :
    encodeRecords (rs ++ rs') = encodeRecords rs ++ encodeRecords rs' :=
  List.flatMap_append

theorem encodeRecord_length_pos (r : Record) : 0 < (encodeRecord r).length := by
  obtain ⟨n, v⟩ := r
  have hpos := fun wire => encodeVarint_length_pos (8 * n + wire)
  cases v with
  | varint v => have := hpos 0; simp only [encodeRecord, encodeTag, List.length_append]; omega
  | i64 bs => have := hpos 1; simp only [encodeRecord, encodeTag, List.length_append]; omega
  | len bs => have := hpos 2; simp only [encodeRecord, encodeTag, List.length_append]; omega
  | group => have := hpos 3; simp only [encodeRecord, encodeTag, List.length_append]; omega
  | i32 bs => have := hpos 5; simp only [encodeRecord, encodeTag, List.length_append]; omega

theorem length_le_encodeRecords (rs : List Record) : rs.length ≤ (encodeRecords rs).length := by
  induction rs with
  | nil => simp
  | cons r rs ih =>
    have := encodeRecord_length_pos r
    simp only [encodeRecords_cons, List.length_cons, List.length_append]
    omega

/-! ### Reading one piece -/

/-- The field number and the wire type at the head of the input. -/
def decodeTag (bs : Bytes) : Option (ℕ × ℕ × Bytes) :=
  (decodeVarint 5 bs).map fun (v, rest) => (v % 2 ^ 32 / 8, v % 8, rest)

/-- A length at the head of the input. -/
def decodeSize (bs : Bytes) : Option (ℕ × Bytes) :=
  (decodeVarint 5 bs).filter fun (v, _) => v ≤ maxLength

/-- Exactly `n` bytes of the input. -/
def takeBytes (n : ℕ) (bs : Bytes) : Option (Bytes × Bytes) :=
  if n ≤ bs.length then some (bs.take n, bs.drop n) else none

/-- The value of a record that is not a group. -/
def decodeScalar (wire : ℕ) (bs : Bytes) : Option (Value × Bytes) :=
  match wire with
  | 0 => (decodeVarint 10 bs).map fun (v, rest) => (.varint (UInt64.ofNat v), rest)
  | 1 => (takeBytes 8 bs).map fun (b, rest) => (.i64 b, rest)
  | 2 => (decodeSize bs).bind fun (n, rest) =>
      (takeBytes n rest).map fun (b, rest') => (.len b, rest')
  | 5 => (takeBytes 4 bs).map fun (b, rest) => (.i32 b, rest)
  | _ => none

/-- The records up to the end of the input, or up to the end tag of the group `grp`. -/
def parseRecords : ℕ → ℕ → Option ℕ → Bytes → Option (List Record × Bytes)
  | 0, _, _, _ => none
  | _ + 1, _, grp, [] => if grp = none then some ([], []) else none
  | fuel + 1, depth, grp, b :: bs =>
    match decodeTag (b :: bs) with
    | none => none
    | some (number, wire, rest) =>
      if number = 0 then none
      else if wire = 4 then if grp = some number then some ([], rest) else none
      else if wire = 3 then
        match depth with
        | 0 => none
        | depth' + 1 =>
          match parseRecords fuel depth' (some number) rest with
          | none => none
          | some (_, rest') =>
            (parseRecords fuel (depth' + 1) grp rest').map fun (rs, r) =>
              (⟨number, .group⟩ :: rs, r)
      else
        match decodeScalar wire rest with
        | none => none
        | some (value, rest') =>
          (parseRecords fuel depth grp rest').map fun (rs, r) => (⟨number, value⟩ :: rs, r)

/-- The bytes as a sequence of records, groups nested at most `depth` deep. -/
def records (depth : ℕ) (bs : Bytes) : Option (List Record) :=
  (parseRecords (bs.length + 1) depth none bs).map Prod.fst

/-! ### Enough fuel -/

theorem decodeTag_length_lt {bs : Bytes} {n w : ℕ} {rest : Bytes}
    (h : decodeTag bs = some (n, w, rest)) : rest.length < bs.length := by
  simp only [decodeTag, Option.map_eq_some_iff, Prod.mk.injEq, Prod.exists] at h
  obtain ⟨v, r, hv, -, -, rfl⟩ := h
  exact decodeVarint_length_lt hv

theorem takeBytes_length_le {n : ℕ} {bs b rest : Bytes} (h : takeBytes n bs = some (b, rest)) :
    rest.length ≤ bs.length := by
  simp only [takeBytes] at h
  split at h
  · simp only [Option.some.injEq, Prod.mk.injEq] at h
    rw [← h.2, List.length_drop]
    omega
  · simp at h

theorem decodeScalar_length_le {w : ℕ} {bs : Bytes} {v : Value} {rest : Bytes}
    (h : decodeScalar w bs = some (v, rest)) : rest.length ≤ bs.length := by
  unfold decodeScalar at h
  split at h
  · simp only [Option.map_eq_some_iff, Prod.mk.injEq, Prod.exists] at h
    obtain ⟨v, r, hv, -, rfl⟩ := h
    exact Nat.le_of_lt (decodeVarint_length_lt hv)
  · simp only [Option.map_eq_some_iff, Prod.mk.injEq, Prod.exists] at h
    obtain ⟨b, r, hb, -, rfl⟩ := h
    exact takeBytes_length_le hb
  · simp only [Option.bind_eq_some_iff, Option.map_eq_some_iff, Prod.mk.injEq, Prod.exists,
      decodeSize, Option.filter_eq_some_iff] at h
    obtain ⟨n, r, ⟨hn, -⟩, b, r', hb, -, rfl⟩ := h
    have := decodeVarint_length_lt hn
    have := takeBytes_length_le hb
    omega
  · simp only [Option.map_eq_some_iff, Prod.mk.injEq, Prod.exists] at h
    obtain ⟨b, r, hb, -, rfl⟩ := h
    exact takeBytes_length_le hb
  · simp at h

theorem parseRecords_length_le {fuel depth : ℕ} {grp : Option ℕ} {bs : Bytes}
    {rs : List Record} {rest : Bytes} (h : parseRecords fuel depth grp bs = some (rs, rest)) :
    rest.length ≤ bs.length := by
  induction fuel generalizing depth grp bs rs rest with
  | zero => simp [parseRecords] at h
  | succ fuel ih =>
    cases bs with
    | nil =>
      simp only [parseRecords] at h
      split at h
      · simp only [Option.some.injEq, Prod.mk.injEq] at h; simp [← h.2]
      · simp at h
    | cons b bs =>
      simp only [parseRecords] at h
      split at h
      · simp at h
      · rename_i number wire tail htag
        have htail := decodeTag_length_lt htag
        split at h
        · simp at h
        · split at h
          · split at h
            · simp only [Option.some.injEq, Prod.mk.injEq] at h; rw [← h.2]; omega
            · simp at h
          · split at h
            · split at h
              · simp at h
              · split at h
                · simp at h
                · rename_i hgrp
                  simp only [Option.map_eq_some_iff, Prod.mk.injEq, Prod.exists] at h
                  obtain ⟨rs', r', hrs, -, rfl⟩ := h
                  have := ih hgrp
                  have := ih hrs
                  omega
            · split at h
              · simp at h
              · rename_i hval
                simp only [Option.map_eq_some_iff, Prod.mk.injEq, Prod.exists] at h
                obtain ⟨rs', r', hrs, -, rfl⟩ := h
                have := decodeScalar_length_le hval
                have := ih hrs
                omega

/-- **Any fuel above the number of bytes reads the same.** -/
theorem parseRecords_fuel {fuel fuel' depth : ℕ} {grp : Option ℕ} {bs : Bytes}
    (h : bs.length < fuel) (h' : bs.length < fuel') :
    parseRecords fuel depth grp bs = parseRecords fuel' depth grp bs := by
  induction fuel generalizing fuel' depth grp bs with
  | zero => omega
  | succ fuel ih =>
    obtain ⟨fuel', rfl⟩ := Nat.exists_eq_succ_of_ne_zero (Nat.ne_of_gt (Nat.zero_lt_of_lt h'))
    cases bs with
    | nil => rfl
    | cons b bs =>
      simp only [parseRecords]
      split
      · rfl
      · rename_i number wire tail htag
        have htail := decodeTag_length_lt htag
        have hrec : ∀ (d : ℕ) (g : Option ℕ) (r : Bytes), r.length ≤ tail.length →
            parseRecords fuel d g r = parseRecords fuel' d g r :=
          fun d g r hr => ih (by omega) (by omega)
        split
        · rfl
        · split
          · rfl
          · split
            · split
              · rfl
              · rw [hrec _ _ tail (Nat.le_refl _)]
                split
                · rfl
                · rename_i hgrp
                  rw [hrec _ _ _ (parseRecords_length_le hgrp)]
            · split
              · rfl
              · rename_i hval
                rw [hrec _ _ _ (decodeScalar_length_le hval)]

/-! ### Read after write -/

/-- A record the writer and the reader agree on: its number fits a tag and its value fits its wire
type. Groups are left out, since no writer here emits one. -/
def Record.WellFormed (r : Record) : Prop :=
  0 < r.number ∧ r.number < 2 ^ 29 ∧
    match r.value with
    | .varint _ => True
    | .i64 bs => bs.length = 8
    | .len bs => bs.length ≤ maxLength
    | .group => False
    | .i32 bs => bs.length = 4

theorem decodeTag_encodeTag {n w : ℕ} (hn : n < 2 ^ 29) (hw : w < 8) (rest : Bytes) :
    decodeTag (encodeTag n w ++ rest) = some (n, w, rest) := by
  have hlt : 8 * n + w < 2 ^ 32 := by omega
  have hlen : (encodeVarint (8 * n + w)).length ≤ 5 :=
    encodeVarint_length_le (by omega) (by omega)
  simp only [decodeTag, encodeTag, decodeVarint_encodeVarint hlen, Option.map_some,
    Nat.mod_eq_of_lt hlt, Option.some.injEq, Prod.mk.injEq, and_true]
  omega

theorem decodeSize_encodeVarint (n : ℕ) (rest : Bytes) :
    decodeSize (encodeVarint n ++ rest) = if n ≤ maxLength then some (n, rest) else none := by
  rcases Nat.lt_or_ge 5 (encodeVarint n).length with h | h
  · have hn : ¬ n ≤ maxLength := fun hle =>
      absurd (encodeVarint_length_le (n := n) (k := 5) (by omega)
        (by rw [maxLength] at hle; omega)) (by omega)
    rw [decodeSize, decodeVarint_of_lt h, if_neg hn]
    rfl
  · rw [decodeSize, decodeVarint_encodeVarint h]
    by_cases hn : n ≤ maxLength <;> simp [hn, Option.filter]

theorem takeBytes_append (bs rest : Bytes) :
    takeBytes bs.length (bs ++ rest) = some (bs, rest) := by
  rw [takeBytes, if_pos (by simp), List.take_left, List.drop_left]

theorem decodeScalar_varint (v : UInt64) (rest : Bytes) :
    decodeScalar 0 (encodeVarint v.toNat ++ rest) = some (.varint v, rest) := by
  have hlen : (encodeVarint v.toNat).length ≤ 10 :=
    encodeVarint_length_le (by omega) (by have := v.toNat_lt; omega)
  simp only [decodeScalar, decodeVarint_encodeVarint hlen, Option.map_some, UInt64.ofNat_toNat]

/-- The body of a length-delimited record, read behind a header that announces `n` bytes. -/
theorem decodeScalar_len {n : ℕ} {body : Bytes} (rest : Bytes) (hbody : body.length = n) :
    decodeScalar 2 (encodeVarint n ++ (body ++ rest))
      = if n ≤ maxLength then some (.len body, rest) else none := by
  subst hbody
  simp only [decodeScalar, decodeSize_encodeVarint]
  split
  · simp [takeBytes_append]
  · rfl

/-- **One record at the head of the input.** -/
theorem parseRecords_encodeRecord {r : Record} (hr : r.WellFormed) (fuel depth : ℕ)
    (grp : Option ℕ) (rest : Bytes) :
    parseRecords (fuel + 1) depth grp (encodeRecord r ++ rest)
      = (parseRecords fuel depth grp rest).map fun (rs, bs) => (r :: rs, bs) := by
  obtain ⟨n, v⟩ := r
  obtain ⟨hpos, hlt, hv⟩ := hr
  have key : ∀ (w : ℕ) (body : Bytes), w < 8 → w ≠ 3 → w ≠ 4 →
      decodeScalar w (body ++ rest) = some (v, rest) →
      parseRecords (fuel + 1) depth grp ((encodeTag n w ++ body) ++ rest)
        = (parseRecords fuel depth grp rest).map fun (rs, bs) => (⟨n, v⟩ :: rs, bs) := by
    intro w body hw h3 h4 hdec
    obtain ⟨c, cs, hcs⟩ := List.exists_cons_of_ne_nil
      (l := encodeTag n w ++ (body ++ rest)) (by simp [encodeTag, encodeVarint_ne_nil])
    rw [List.append_assoc, hcs]
    simp only [parseRecords]
    rw [← hcs, decodeTag_encodeTag hlt hw]
    simp only [if_neg (Nat.ne_of_gt hpos), if_neg h3, if_neg h4, hdec]
  cases v with
  | varint v => exact key 0 _ (by omega) (by omega) (by omega) (decodeScalar_varint v rest)
  | i64 bs =>
    refine key 1 bs (by omega) (by omega) (by omega) ?_
    have hbs : bs.length = 8 := hv
    have := takeBytes_append bs rest
    rw [hbs] at this
    simp [decodeScalar, this]
  | len bs =>
    refine key 2 _ (by omega) (by omega) (by omega) ?_
    have hbs : bs.length ≤ maxLength := hv
    rw [List.append_assoc, decodeScalar_len rest rfl, if_pos hbs]
  | group => exact hv.elim
  | i32 bs =>
    refine key 5 bs (by omega) (by omega) (by omega) ?_
    have hbs : bs.length = 4 := hv
    have := takeBytes_append bs rest
    rw [hbs] at this
    simp [decodeScalar, this]

/-- **Read after write, for a whole message.** -/
theorem records_encodeRecords {rs : List Record} (h : ∀ r ∈ rs, r.WellFormed) (depth : ℕ) :
    records depth (encodeRecords rs) = some rs := by
  have key : ∀ fuel, rs.length < fuel →
      parseRecords fuel depth none (encodeRecords rs) = some (rs, []) := by
    induction rs with
    | nil =>
      intro fuel hfuel
      obtain ⟨fuel, rfl⟩ := Nat.exists_eq_succ_of_ne_zero (Nat.ne_of_gt (Nat.zero_lt_of_lt hfuel))
      rfl
    | cons r rs ih =>
      intro fuel hfuel
      obtain ⟨fuel, rfl⟩ := Nat.exists_eq_succ_of_ne_zero (Nat.ne_of_gt (Nat.zero_lt_of_lt hfuel))
      rw [encodeRecords_cons, parseRecords_encodeRecord (h r List.mem_cons_self),
        ih (fun s hs => h s (List.mem_cons_of_mem r hs)) fuel (by simpa using hfuel)]
      rfl
  have := length_le_encodeRecords rs
  rw [records, key _ (by omega)]
  rfl

/-! ### Length-delimited records cut short

A datagram longer than the receive buffer arrives cut to the size of the buffer. A message that is
one length-delimited record then announces more bytes than are there, and is refused. -/

/-- A header that announces `n` bytes, followed by at most that many: read back when all of them
are there, and refused otherwise. -/
theorem records_lenHeader {k n : ℕ} {body : Bytes} (hpos : 0 < k) (hk : k < 2 ^ 29)
    (hbody : body.length ≤ n) (depth : ℕ) :
    records depth (encodeTag k 2 ++ (encodeVarint n ++ body))
      = if body.length = n ∧ n ≤ maxLength then some [⟨k, .len body⟩] else none := by
  by_cases h : body.length = n ∧ n ≤ maxLength
  · obtain ⟨rfl, hmax⟩ := h
    have hwf : ∀ r ∈ [(⟨k, .len body⟩ : Record)], r.WellFormed := by
      simpa [Record.WellFormed] using ⟨hpos, hk, hmax⟩
    have := records_encodeRecords hwf depth
    simp only [encodeRecords_cons, encodeRecords_nil, List.append_nil, encodeRecord] at this
    rw [this, if_pos ⟨rfl, hmax⟩]
  · have hscalar : decodeScalar 2 (encodeVarint n ++ body) = none := by
      simp only [decodeScalar, decodeSize_encodeVarint]
      split
      · rename_i hmax
        have hlt : ¬ n ≤ body.length := fun hle => h ⟨by omega, hmax⟩
        simp [takeBytes, hlt]
      · rfl
    obtain ⟨c, cs, hcs⟩ := List.exists_cons_of_ne_nil
      (l := encodeTag k 2 ++ (encodeVarint n ++ body)) (by simp [encodeTag, encodeVarint_ne_nil])
    rw [if_neg h, records, hcs]
    simp only [parseRecords]
    rw [← hcs, decodeTag_encodeTag hk (by omega)]
    simp [Nat.ne_of_gt hpos, hscalar]

/-- **A length-delimited record cut to `j` bytes** is refused, or was not cut at all. -/
theorem records_take_lenRecord {k j : ℕ} (hpos : 0 < k) (hk : k < 16) (hj : 0 < j) (bs : Bytes)
    (depth : ℕ) :
    records depth ((encodeRecord ⟨k, .len bs⟩).take j) = none ∨
      records depth ((encodeRecord ⟨k, .len bs⟩).take j) = some [⟨k, .len bs⟩] ∧
        (encodeRecord ⟨k, .len bs⟩).length ≤ j := by
  have htag : (encodeTag k 2).length = 1 := by
    rw [encodeTag, encodeVarint_of_lt (by omega)]
    rfl
  have htake : (encodeTag k 2).take j = encodeTag k 2 := List.take_of_length_le (by omega)
  rw [encodeRecord, List.take_append, List.take_append, htake, htag]
  rcases Nat.lt_or_ge (j - 1) (encodeVarint bs.length).length with h | h
  · left
    have hsize : decodeScalar 2 ((encodeVarint bs.length).take (j - 1)) = none := by
      simp [decodeScalar, decodeSize, decodeVarint_take h]
    obtain ⟨c, cs, hcs⟩ := List.exists_cons_of_ne_nil
      (l := encodeTag k 2 ++ (encodeVarint bs.length).take (j - 1))
      (by simp [encodeTag, encodeVarint_ne_nil])
    rw [show j - 1 - (encodeVarint bs.length).length = 0 by omega, List.take_zero, List.append_nil,
      records, hcs]
    simp only [parseRecords]
    rw [← hcs, decodeTag_encodeTag (by omega) (by omega)]
    simp [Nat.ne_of_gt hpos, hsize]
  · rw [List.take_of_length_le h, records_lenHeader hpos (by omega) (List.length_take_le' _ _)]
    split
    · rename_i hfull
      have hle : bs.length ≤ j - 1 - (encodeVarint bs.length).length := by
        have := hfull.1
        rw [List.length_take] at this
        omega
      right
      rw [List.take_of_length_le hle]
      refine ⟨rfl, ?_⟩
      simp only [List.length_append, htag]
      omega
    · exact Or.inl rfl

end Wire
