import Zapshare.Control

/-!
# The handshake packets

`handshake.proto`: the hellos the two peers exchange before the transfer. They travel over the
same socket as the control packets of `control.proto`, and the two packet types number their
members from the same start, so the bytes of the one also decode as the other. The last section
says as what.

## Main results

* `parse_clientHello` — reading back a `ClientHello`
* `parse_clientHello_as_control` — a `ClientHello` decodes as a `GetRequest` without transfer id
* `parse_serverHello_as_control` — a `ServerHello` decodes as an `Ack` without transfer id
-/

namespace Zapshare

open Wire

/-- `PROTOCOL_VERSION_1`, the one version there is. -/
def protocolVersion1 : Int32 := 1

/-- The public keys of one side. -/
structure PeerIdentity where
  longTermPublicKey : Bytes := []
  ephemeralPublicKey : Bytes := []
  deriving DecidableEq, Repr

/-- The receiver introduces itself, with the token that it was given. -/
structure ClientHello where
  version : Int32 := 0
  transferId : Bytes := []
  token : Bytes := []
  receiverNonce : Bytes := []
  receiverIdentity : Option PeerIdentity := none
  receiverSignature : Bytes := []
  deriving DecidableEq, Repr

/-- The sender's answer. -/
structure ServerHello where
  version : Int32 := 0
  transferId : Bytes := []
  senderNonce : Bytes := []
  senderIdentity : Option PeerIdentity := none
  senderSignature : Bytes := []
  deriving DecidableEq, Repr

/-- The end of a handshake, which neither side sends. -/
structure HandshakeFinish where
  transferId : Bytes := []
  transcriptProof : Bytes := []
  deriving DecidableEq, Repr

/-- The sender refuses the hello. -/
structure HandshakeError where
  code : ErrorCode := 0
  message : Bytes := []
  deriving DecidableEq, Repr

/-- The `body` of a handshake packet. -/
inductive HandshakePacket
  | notSet
  | clientHello (hello : ClientHello)
  | serverHello (hello : ServerHello)
  | handshakeFinish (finish : HandshakeFinish)
  | error (error : HandshakeError)
  deriving DecidableEq, Repr

/-! ### Writing -/

/-- The fields of a `PeerIdentity`, in the order of their numbers. -/
def PeerIdentity.records (m : PeerIdentity) : List Record :=
  bytesField 1 m.longTermPublicKey ++ bytesField 2 m.ephemeralPublicKey

/-- An embedded identity, written when it is present. -/
def identityField (n : ℕ) : Option PeerIdentity → List Record
  | none => []
  | some m => messageField n (encodeRecords m.records)

/-- The fields of a `ClientHello`. -/
def ClientHello.records (m : ClientHello) : List Record :=
  enumField 1 m.version ++ bytesField 2 m.transferId ++ bytesField 3 m.token ++
    bytesField 4 m.receiverNonce ++ identityField 5 m.receiverIdentity ++
    bytesField 6 m.receiverSignature

/-- The fields of a `ServerHello`. -/
def ServerHello.records (m : ServerHello) : List Record :=
  enumField 1 m.version ++ bytesField 2 m.transferId ++ bytesField 3 m.senderNonce ++
    identityField 4 m.senderIdentity ++ bytesField 5 m.senderSignature

/-- The fields of a `HandshakeFinish`. -/
def HandshakeFinish.records (m : HandshakeFinish) : List Record :=
  bytesField 1 m.transferId ++ bytesField 2 m.transcriptProof

/-- The fields of a `HandshakeError`. -/
def HandshakeError.records (m : HandshakeError) : List Record :=
  enumField 1 m.code ++ bytesField 2 m.message

/-- The field of the member that is set. -/
def HandshakePacket.records : HandshakePacket → List Record
  | .notSet => []
  | .clientHello m => messageField 1 (encodeRecords m.records)
  | .serverHello m => messageField 2 (encodeRecords m.records)
  | .handshakeFinish m => messageField 3 (encodeRecords m.records)
  | .error m => messageField 4 (encodeRecords m.records)

/-- `SerializeToString`. -/
def HandshakePacket.serializeToString (p : HandshakePacket) : Bytes := encodeRecords p.records

/-! ### Reading -/

/-- What a field that is read does to a `PeerIdentity`. An unknown one is passed over. -/
def PeerIdentity.set (m : PeerIdentity) (r : Record) : Option PeerIdentity :=
  match r.number, r.value with
  | 1, .len bs => some { m with longTermPublicKey := bs }
  | 2, .len bs => some { m with ephemeralPublicKey := bs }
  | _, _ => some m

/-- Merge the identity in `bs` into one that may be absent so far. -/
def mergeIdentity (m : Option PeerIdentity) (bs : Bytes) : Option (Option PeerIdentity) :=
  (mergeFrom PeerIdentity.set (recursionLimit - 2) (m.getD {}) bs).map some

/-- What a field that is read does to a `ClientHello`. An identity is merged into the one before. -/
def ClientHello.set (m : ClientHello) (r : Record) : Option ClientHello :=
  match r.number, r.value with
  | 1, .varint v => some { m with version := readEnum v }
  | 2, .len bs => (readString bs).map fun s => { m with transferId := s }
  | 3, .len bs => (readString bs).map fun s => { m with token := s }
  | 4, .len bs => some { m with receiverNonce := bs }
  | 5, .len bs =>
    (mergeIdentity m.receiverIdentity bs).map fun i => { m with receiverIdentity := i }
  | 6, .len bs => some { m with receiverSignature := bs }
  | _, _ => some m

/-- What a field that is read does to a `ServerHello`. -/
def ServerHello.set (m : ServerHello) (r : Record) : Option ServerHello :=
  match r.number, r.value with
  | 1, .varint v => some { m with version := readEnum v }
  | 2, .len bs => (readString bs).map fun s => { m with transferId := s }
  | 3, .len bs => some { m with senderNonce := bs }
  | 4, .len bs => (mergeIdentity m.senderIdentity bs).map fun i => { m with senderIdentity := i }
  | 5, .len bs => some { m with senderSignature := bs }
  | _, _ => some m

/-- What a field that is read does to a `HandshakeFinish`. -/
def HandshakeFinish.set (m : HandshakeFinish) (r : Record) : Option HandshakeFinish :=
  match r.number, r.value with
  | 1, .len bs => (readString bs).map fun s => { m with transferId := s }
  | 2, .len bs => some { m with transcriptProof := bs }
  | _, _ => some m

/-- What a field that is read does to a `HandshakeError`. -/
def HandshakeError.set (m : HandshakeError) (r : Record) : Option HandshakeError :=
  match r.number, r.value with
  | 1, .varint v => some { m with code := readEnum v }
  | 2, .len bs => (readString bs).map fun s => { m with message := s }
  | _, _ => some m

/-- What a field that is read does to the `body`: a member that is set already is merged into. -/
def HandshakePacket.set (p : HandshakePacket) (r : Record) : Option HandshakePacket :=
  match r.number, r.value with
  | 1, .len bs =>
    (mergeBody ClientHello.set (match p with | .clientHello m => m | _ => {}) bs).map .clientHello
  | 2, .len bs =>
    (mergeBody ServerHello.set (match p with | .serverHello m => m | _ => {}) bs).map .serverHello
  | 3, .len bs =>
    (mergeBody HandshakeFinish.set (match p with | .handshakeFinish m => m | _ => {}) bs).map
      .handshakeFinish
  | 4, .len bs =>
    (mergeBody HandshakeError.set (match p with | .error m => m | _ => {}) bs).map .error
  | _, _ => some p

/-- `ParseFromString`. -/
def HandshakePacket.parseFromString (data : Bytes) : Option HandshakePacket :=
  mergeFrom HandshakePacket.set recursionLimit .notSet data

/-! ### Read after write -/

/-- The `string` fields of a hello are well-formed UTF-8. -/
def ClientHello.stringsValid (m : ClientHello) : Bool :=
  utf8Valid m.transferId && utf8Valid m.token

theorem PeerIdentity.isField_records (m : PeerIdentity) : ∀ r ∈ m.records, r.IsField :=
  forall_isField_append (isField_bytesField (by omega) _) (isField_bytesField (by omega) _)

theorem PeerIdentity.foldlM_records (m : PeerIdentity) :
    m.records.foldlM PeerIdentity.set {} = some m := by
  rw [PeerIdentity.records,
    foldlM_bytesField PeerIdentity.set {} { m with ephemeralPublicKey := [] } rfl
      (by intro h; rw [h]),
    ← List.append_nil (bytesField 2 _),
    foldlM_bytesField PeerIdentity.set { m with ephemeralPublicKey := [] } m rfl
      (by intro h; rw [← h])]
  rfl

theorem mergeIdentity_none {m : PeerIdentity} (h : (encodeRecords m.records).length ≤ maxLength) :
    mergeIdentity none (encodeRecords m.records) = some (some m) := by
  rw [mergeIdentity, mergeFrom_encodeRecords _ _ _ (wellFormed_of_isField h m.isField_records)]
  exact congrArg (Option.map some) m.foldlM_records

/-- Folding over an identity that may be absent. -/
theorem foldlM_identityField {α : Type} (set : α → Record → Option α) (m m' : α) {n : ℕ}
    {i : Option PeerIdentity} {rs : List Record}
    (hset : ∀ p, i = some p → set m ⟨n, .len (encodeRecords p.records)⟩ = some m')
    (hnone : i = none → m = m') :
    (identityField n i ++ rs).foldlM set m = rs.foldlM set m' := by
  cases i with
  | none => rw [identityField, List.nil_append, hnone rfl]
  | some p =>
    rw [identityField, messageField, List.singleton_append, List.foldlM_cons, hset p rfl]
    rfl

theorem ClientHello.foldlM_records (m : ClientHello)
    (hlen : ∀ p, m.receiverIdentity = some p → (encodeRecords p.records).length ≤ maxLength) :
    m.records.foldlM ClientHello.set {} = if m.stringsValid then some m else none := by
  simp only [ClientHello.records, List.append_assoc]
  rw [foldlM_enumField ClientHello.set {} { version := m.version }
      (by simp [ClientHello.set, readEnum_enumVarint]) (by intro h; rw [h]),
    foldlM_stringField ClientHello.set { version := m.version }
      (fun s => { version := m.version, transferId := s }) rfl rfl,
    foldlM_stringField ClientHello.set { version := m.version, transferId := m.transferId }
      (fun s => { version := m.version, transferId := m.transferId, token := s }) rfl rfl,
    foldlM_bytesField ClientHello.set _
      { m with receiverIdentity := none, receiverSignature := [] } rfl (by intro h; rw [h]),
    foldlM_identityField ClientHello.set _ { m with receiverSignature := [] }
      (by intro p hp; simp [ClientHello.set, mergeIdentity_none (hlen p hp), hp])
      (by intro h; rw [h]),
    ← List.append_nil (bytesField 6 _),
    foldlM_bytesField ClientHello.set { m with receiverSignature := [] } m rfl
      (by intro h; rw [← h])]
  rw [ClientHello.stringsValid]
  cases utf8Valid m.transferId <;> cases utf8Valid m.token <;> rfl

/-! ### A hello read as a control packet

`GetRequest` asks for a length-delimited field `1`, and field `1` of a hello is a varint; `Ack`
asks for a varint field `2` besides, and field `2` of a hello is length-delimited. So every field
of the hello is an unknown one, whatever it holds. -/

theorem mem_bytesField {n : ℕ} {bs : Bytes} {r : Record} (hr : r ∈ bytesField n bs) :
    r = ⟨n, .len bs⟩ := by
  rw [bytesField] at hr
  split at hr
  · simp at hr
  · exact List.mem_singleton.mp hr

theorem mem_uint64Field {n : ℕ} {v : UInt64} {r : Record} (hr : r ∈ uint64Field n v) :
    r = ⟨n, .varint v⟩ := by
  unfold uint64Field at hr
  split at hr
  · simp at hr
  · exact List.mem_singleton.mp hr

theorem mem_enumField {n : ℕ} {e : Int32} {r : Record} (hr : r ∈ enumField n e) :
    r = ⟨n, .varint (enumVarint e)⟩ := mem_uint64Field hr

theorem mem_identityField {n : ℕ} {m : Option PeerIdentity} {r : Record}
    (hr : r ∈ identityField n m) : ∃ bs, r = ⟨n, .len bs⟩ := by
  cases m with
  | none => simp [identityField] at hr
  | some m => exact ⟨_, List.mem_singleton.mp hr⟩

/-- The records of either hello: a varint `1`, and length-delimited fields from `2` on. -/
def IsHelloRecord (r : Record) : Prop :=
  (∃ v, r = ⟨1, .varint v⟩) ∨ ∃ n bs, 2 ≤ n ∧ n ≤ 6 ∧ r = ⟨n, .len bs⟩

theorem isHelloRecord_clientHello (m : ClientHello) : ∀ r ∈ m.records, IsHelloRecord r := by
  intro r hr
  simp only [ClientHello.records, List.mem_append, or_assoc] at hr
  rcases hr with h | h | h | h | h | h
  · exact Or.inl ⟨_, mem_enumField h⟩
  · exact Or.inr ⟨2, _, by omega, by omega, mem_bytesField h⟩
  · exact Or.inr ⟨3, _, by omega, by omega, mem_bytesField h⟩
  · exact Or.inr ⟨4, _, by omega, by omega, mem_bytesField h⟩
  · obtain ⟨bs, h⟩ := mem_identityField h
    exact Or.inr ⟨5, bs, by omega, by omega, h⟩
  · exact Or.inr ⟨6, _, by omega, by omega, mem_bytesField h⟩

theorem isHelloRecord_serverHello (m : ServerHello) : ∀ r ∈ m.records, IsHelloRecord r := by
  intro r hr
  simp only [ServerHello.records, List.mem_append, or_assoc] at hr
  rcases hr with h | h | h | h | h
  · exact Or.inl ⟨_, mem_enumField h⟩
  · exact Or.inr ⟨2, _, by omega, by omega, mem_bytesField h⟩
  · exact Or.inr ⟨3, _, by omega, by omega, mem_bytesField h⟩
  · obtain ⟨bs, h⟩ := mem_identityField h
    exact Or.inr ⟨4, bs, by omega, by omega, h⟩
  · exact Or.inr ⟨5, _, by omega, by omega, mem_bytesField h⟩

theorem IsHelloRecord.isField {r : Record} (h : IsHelloRecord r) : r.IsField := by
  rcases h with ⟨v, rfl⟩ | ⟨n, bs, h2, h6, rfl⟩
  · exact ⟨Nat.one_pos, (by decide : 1 < 2 ^ 29), Or.inl ⟨v, rfl⟩⟩
  · exact ⟨Nat.lt_of_lt_of_le (by decide) h2, Nat.lt_of_le_of_lt h6 (by decide), Or.inr ⟨bs, rfl⟩⟩

/-- **A serialized `ClientHello`, cut to `j` bytes**, parses exactly when nothing was cut and its
strings are UTF-8, and then to itself. -/
theorem parse_clientHello (m : ClientHello) {j : ℕ} (hj : 0 < j) (hmax : j ≤ maxLength) :
    HandshakePacket.parseFromString ((HandshakePacket.clientHello m).serializeToString.take j)
      = if (HandshakePacket.clientHello m).serializeToString.length ≤ j ∧ m.stringsValid
        then some (.clientHello m) else none := by
  have hfields : ∀ r ∈ m.records, r.IsField := fun r hr =>
    (isHelloRecord_clientHello m r hr).isField
  refine mergeFrom_take_member HandshakePacket.set .notSet recursionLimit 1 .clientHello _
    (by omega) hj hmax (fun _ => rfl) hfields fun hlen => m.foldlM_records fun p hp => ?_
  have hmem : (⟨5, .len (encodeRecords p.records)⟩ : Record) ∈ m.records := by
    simp [ClientHello.records, identityField, messageField, hp]
  exact (wellFormed_of_isField hlen hfields _ hmem).2.2

theorem GetRequest.set_helloRecord (m : GetRequest) {r : Record} (h : IsHelloRecord r) :
    m.set r = some m := by
  rcases h with ⟨v, rfl⟩ | ⟨n, bs, h2, -, rfl⟩
  · rfl
  · rw [GetRequest.set]
    split
    · rename_i h1 _
      exact absurd h1 (by simp only; omega)
    · rfl

theorem Ack.set_helloRecord (m : Ack) {r : Record} (h : IsHelloRecord r) : m.set r = some m := by
  rcases h with ⟨v, rfl⟩ | ⟨n, bs, h2, -, rfl⟩
  · rfl
  · rw [Ack.set]
    split
    · rename_i h1 _
      exact absurd h1 (by simp only; omega)
    · rename_i hv
      exact absurd hv (by simp)
    · rfl

/-- A `ClientHello`, cut to `j` bytes, read by the side that expects a control packet. -/
theorem parse_clientHello_as_control (m : ClientHello) {j : ℕ} (hj : 0 < j) (hmax : j ≤ maxLength) :
    ControlPacket.parseFromString ((HandshakePacket.clientHello m).serializeToString.take j)
      = if (HandshakePacket.clientHello m).serializeToString.length ≤ j then some (.get {})
        else none := by
  have h := mergeFrom_take_member ControlPacket.set .notSet recursionLimit 1 .get true
    (by omega) hj hmax (fun _ => rfl)
    (fun r hr => (isHelloRecord_clientHello m r hr).isField)
    fun _ => foldlM_unknown fun r hr =>
      GetRequest.set_helloRecord {} (isHelloRecord_clientHello m r hr)
  simp only [and_true] at h
  exact h

/-- A `ServerHello`, cut to `j` bytes, read by the side that expects a control packet. -/
theorem parse_serverHello_as_control (m : ServerHello) {j : ℕ} (hj : 0 < j) (hmax : j ≤ maxLength) :
    ControlPacket.parseFromString ((HandshakePacket.serverHello m).serializeToString.take j)
      = if (HandshakePacket.serverHello m).serializeToString.length ≤ j then some (.ack {})
        else none := by
  have h := mergeFrom_take_member ControlPacket.set .notSet recursionLimit 2 .ack true
    (by omega) hj hmax (fun _ => rfl)
    (fun r hr => (isHelloRecord_serverHello m r hr).isField)
    fun _ => foldlM_unknown fun r hr => Ack.set_helloRecord {} (isHelloRecord_serverHello m r hr)
  simp only [and_true] at h
  exact h

/-- A request, cut to `j` bytes, read by the side that expects a handshake packet. -/
theorem parse_get_as_handshake (m : GetRequest) {j : ℕ} (hj : 0 < j) (hmax : j ≤ maxLength) :
    HandshakePacket.parseFromString ((ControlPacket.get m).serializeToString.take j)
      = if (ControlPacket.get m).serializeToString.length ≤ j then some (.clientHello {})
        else none := by
  have hset : ∀ r ∈ m.records, ClientHello.set {} r = some {} := by
    intro r hr
    rw [mem_bytesField hr]
    rfl
  have h := mergeFrom_take_member HandshakePacket.set .notSet recursionLimit 1 .clientHello true
    (by omega) hj hmax (fun _ => rfl) (isField_bytesField (by omega) m.transferId)
    fun _ => foldlM_unknown hset
  simp only [and_true] at h
  exact h

/-- An acknowledgement, cut to `j` bytes, read by the side that expects a handshake packet. -/
theorem parse_ack_as_handshake (m : Ack) {j : ℕ} (hj : 0 < j) (hmax : j ≤ maxLength) :
    HandshakePacket.parseFromString ((ControlPacket.ack m).serializeToString.take j)
      = if (ControlPacket.ack m).serializeToString.length ≤ j then some (.serverHello {})
        else none := by
  have hset : ∀ r ∈ m.records, ServerHello.set {} r = some {} := by
    intro r hr
    rcases List.mem_append.mp hr with hid | hoffset
    · rw [mem_bytesField hid]
      rfl
    · rw [mem_uint64Field hoffset]
      rfl
  have h := mergeFrom_take_member HandshakePacket.set .notSet recursionLimit 2 .serverHello true
    (by omega) hj hmax (fun _ => rfl) m.isField_records fun _ => foldlM_unknown hset
  simp only [and_true] at h
  exact h

/-! ### A handshake packet is not a chunk

The `error` member of the one packet and the `done` member of the other share their number, but an
error the sender reports carries a code, and that is a varint `1`. -/

/-- The bytes are those of a `DataChunk` or of a `Done`. -/
def IsTransferPacket (bytes : Bytes) : Prop :=
  (∃ m, bytes = (ControlPacket.data m).serializeToString) ∨
    ∃ m, bytes = (ControlPacket.done m).serializeToString

theorem not_isTransferPacket_serverHello (m : ServerHello) :
    ¬ IsTransferPacket (HandshakePacket.serverHello m).serializeToString := by
  rintro (⟨c, h⟩ | ⟨d, h⟩)
  · exact absurd (messageField_injective h).1 (by decide)
  · exact absurd (messageField_injective h).1 (by decide)

theorem not_isTransferPacket_handshakeError {m : HandshakeError} (hcode : m.code ≠ 0) :
    ¬ IsTransferPacket (HandshakePacket.error m).serializeToString := by
  rintro (⟨c, h⟩ | ⟨d, h⟩)
  · exact absurd (messageField_injective h).1 (by decide)
  · have hfields : ∀ r ∈ m.records, r.IsField :=
      forall_isField_append (isField_uint64Field (by omega) _) (isField_bytesField (by omega) _)
    have hrecords : m.records = d.records :=
      encodeRecords_injective hfields isField_three (messageField_injective h).2
    have hvarint : enumVarint m.code ≠ 0 := fun hz => hcode (enumVarint_eq_zero_iff.mp hz)
    have hmem : (⟨1, .varint (enumVarint m.code)⟩ : Record) ∈ d.records := by
      rw [← hrecords, HandshakeError.records, enumField, uint64Field, if_neg hvarint]
      exact List.mem_append_left _ List.mem_cons_self
    simp only [Done.records, List.mem_append] at hmem
    rcases hmem with h1 | h2 | h3
    · exact absurd (mem_bytesField h1) (by simp)
    · unfold uint64Field at h2
      split at h2 <;> simp at h2
    · exact absurd (mem_bytesField h3) (by simp)

theorem not_isTransferPacket_controlError (m : TransferError) :
    ¬ IsTransferPacket (ControlPacket.error m).serializeToString := by
  rintro (⟨c, h⟩ | ⟨d, h⟩)
  · exact absurd (messageField_injective h).1 (by decide)
  · exact absurd (messageField_injective h).1 (by decide)

end Zapshare
