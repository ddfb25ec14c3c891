import Zapshare.Control
import Zapshare.Crypto
import Zapshare.Token

/-!
# What fits into a datagram

A packet that is longer than the receive buffer is cut, and then it is not read. The payload of a
chunk is what `MAX_PACKET_SIZE` leaves when `HEADER_SIZE` bytes are set aside, and the transfer id
has to share them with the framing: up to 109 bytes of it always fit.

## Main results

* `deliverable_get`, `deliverable_ack`, `deliverable_data`, `deliverable_done` — the packets of a
  transfer with a short id can be read where they arrive
-/

namespace Zapshare

open Wire UdpConfig

/-! ### The size of a field -/

theorem length_bytesField_le {n k : ℕ} (hn : n < 16) (hk : 0 < k) (bs : Bytes)
    (h : bs.length < 2 ^ (7 * k)) :
    (encodeRecords (bytesField n bs)).length ≤ 1 + k + bs.length := by
  rw [bytesField]
  split
  · simp
  · have htag : (encodeTag n 2).length ≤ 1 := encodeVarint_length_le (by decide) (by omega)
    have hsize := encodeVarint_length_le hk h
    simp only [encodeRecords_cons, encodeRecords_nil, encodeRecord, List.append_nil,
      List.length_append]
    omega

theorem length_uint64Field_le {n : ℕ} (hn : n < 16) (v : UInt64) :
    (encodeRecords (uint64Field n v)).length ≤ 11 := by
  unfold uint64Field
  split
  · simp
  · have htag : (encodeTag n 0).length ≤ 1 := encodeVarint_length_le (by decide) (by omega)
    have hv : v.toNat < 2 ^ (7 * 10) := Nat.lt_of_lt_of_le v.toNat_lt (by decide)
    have hvalue := encodeVarint_length_le (k := 10) (by decide) hv
    simp only [encodeRecords_cons, encodeRecords_nil, encodeRecord, List.append_nil,
      List.length_append]
    omega

theorem length_messageField_le {n k : ℕ} (hn : n < 16) (hk : 0 < k) (bs : Bytes)
    (h : bs.length < 2 ^ (7 * k)) :
    (encodeRecords (messageField n bs)).length ≤ 1 + k + bs.length := by
  have htag : (encodeTag n 2).length ≤ 1 := encodeVarint_length_le (by decide) (by omega)
  have hsize := encodeVarint_length_le hk h
  simp only [messageField, encodeRecords_cons, encodeRecords_nil, encodeRecord, List.append_nil,
    List.length_append]
  omega

/-! ### The packets of a transfer -/

/-- An id that is text and leaves room for the rest of a packet. -/
structure ShortId (id : Bytes) : Prop where
  valid : utf8Valid id = true
  length_le : id.length ≤ 109

theorem shortId_generateUuidToken (r₀ r₁ r₂ r₃ r₄ r₅ : UInt32) :
    ShortId (generateUuidToken r₀ r₁ r₂ r₃ r₄ r₅) :=
  ⟨utf8Valid_generateUuidToken r₀ r₁ r₂ r₃ r₄ r₅, by rw [length_generateUuidToken]; decide⟩

variable {id : Bytes}

theorem ShortId.length_field (h : ShortId id) :
    (encodeRecords (bytesField 1 id)).length ≤ 111 := by
  have hlength := h.length_le
  have := length_bytesField_le (n := 1) (k := 1) (by decide) (by decide) id (by omega)
  omega

theorem deliverable_get (h : ShortId id) :
    (ControlPacket.get { transferId := id }).deliverable = true := by
  have hid := h.length_field
  have hpacket := length_messageField_le (n := 1) (k := 1) (by decide) (by decide)
    (encodeRecords (bytesField 1 id)) (by omega)
  simp only [ControlPacket.deliverable, ControlPacket.stringsValid, h.valid, Bool.and_true,
    decide_eq_true_eq]
  exact Nat.le_trans hpacket (by rw [maxPacketSize]; omega)

theorem deliverable_ack (h : ShortId id) (nextOffset : UInt64) :
    (ControlPacket.ack { transferId := id, nextOffset := nextOffset }).deliverable = true := by
  have hid := h.length_field
  have hoffset := length_uint64Field_le (n := 2) (by decide) nextOffset
  have hbody : (encodeRecords (bytesField 1 id ++ uint64Field 2 nextOffset)).length ≤ 122 := by
    rw [encodeRecords_append, List.length_append]
    omega
  have hpacket := length_messageField_le (n := 2) (k := 1) (by decide) (by decide)
    (encodeRecords (bytesField 1 id ++ uint64Field 2 nextOffset)) (by omega)
  simp only [ControlPacket.deliverable, ControlPacket.stringsValid, h.valid, Bool.and_true,
    decide_eq_true_eq]
  exact Nat.le_trans hpacket (by rw [maxPacketSize]; omega)

theorem deliverable_data (h : ShortId id) (offset : UInt64) {payload : Bytes}
    (hpayload : payload.length ≤ payloadSize) :
    (ControlPacket.data
      { transferId := id, offset := offset, payload := payload }).deliverable = true := by
  have hid := h.length_field
  have hoffset := length_uint64Field_le (n := 2) (by decide) offset
  have hsize : payload.length ≤ 1272 := hpayload
  have hfield := length_bytesField_le (n := 3) (k := 2) (by decide) (by decide) payload (by omega)
  have hbody : (encodeRecords
      (bytesField 1 id ++ (uint64Field 2 offset ++ bytesField 3 payload))).length ≤ 1397 := by
    rw [encodeRecords_append, encodeRecords_append, List.length_append, List.length_append]
    omega
  have hpacket := length_messageField_le (n := 3) (k := 2) (by decide) (by decide)
    (encodeRecords (bytesField 1 id ++ (uint64Field 2 offset ++ bytesField 3 payload))) (by omega)
  simp only [ControlPacket.deliverable, ControlPacket.stringsValid, h.valid, Bool.and_true,
    decide_eq_true_eq]
  exact Nat.le_trans hpacket (by rw [maxPacketSize]; omega)

/-- A `Done` that announces a digest. -/
theorem deliverable_done (h : ShortId id) (finalSize : UInt64) (hash : Vector UInt8 32) :
    (ControlPacket.done
      { transferId := id
        finalSize := finalSize
        fileHash := Crypto.hexLower hash }).deliverable = true := by
  have hid := h.length_field
  have hsize := length_uint64Field_le (n := 2) (by decide) finalSize
  have hlength := Crypto.length_hexLower hash
  have hfield := length_bytesField_le (n := 3) (k := 1) (by decide) (by decide)
    (Crypto.hexLower hash) (by omega)
  have hbody : (encodeRecords (bytesField 1 id ++
      (uint64Field 2 finalSize ++ bytesField 3 (Crypto.hexLower hash)))).length ≤ 300 := by
    rw [encodeRecords_append, encodeRecords_append, List.length_append, List.length_append]
    omega
  have hpacket := length_messageField_le (n := 4) (k := 2) (by decide) (by decide)
    (encodeRecords (bytesField 1 id ++
      (uint64Field 2 finalSize ++ bytesField 3 (Crypto.hexLower hash)))) (by omega)
  simp only [ControlPacket.deliverable, ControlPacket.stringsValid, h.valid,
    Crypto.utf8Valid_hexLower, Bool.and_true, decide_eq_true_eq]
  exact Nat.le_trans hpacket (by rw [maxPacketSize]; omega)

end Zapshare
