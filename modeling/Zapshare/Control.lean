import Zapshare.Wire.Message
import Zapshare.Types

/-!
# The control packets

`control.proto`: the requests, chunks and errors the two peers exchange after the handshake, with
the classes the protobuf compiler generates for them. `ControlPacket.serializeToString` and
`ControlPacket.parseFromString` go all the way to bytes.

## Main results

* `ControlPacket.parse_take` — a serialized packet cut short is refused or read back, never read
  as another packet
* `ControlPacket.parse_received` — the same for the cut every receive buffer makes
-/

namespace Zapshare

open Wire

/-- `ErrorCode`, an open enum. -/
abbrev ErrorCode := Int32

namespace ErrorCode

/-- `ERROR_CODE_INVALID_TOKEN`. -/
def invalidToken : ErrorCode := 1
/-- `ERROR_CODE_BAD_PACKET`. -/
def badPacket : ErrorCode := 4
/-- `ERROR_CODE_TRANSFER_NOT_FOUND`. -/
def transferNotFound : ErrorCode := 5

end ErrorCode

/-- The nesting the protobuf decoder allows. -/
def recursionLimit : ℕ := 100

/-- The receiver asks for a transfer. -/
structure GetRequest where
  transferId : Bytes := []
  deriving DecidableEq, Repr

/-- The receiver has everything up to an offset. -/
structure Ack where
  transferId : Bytes := []
  nextOffset : UInt64 := 0
  deriving DecidableEq, Repr

/-- A piece of the file, and where it belongs. -/
structure DataChunk where
  transferId : Bytes := []
  offset : UInt64 := 0
  payload : Bytes := []
  deriving DecidableEq, Repr

/-- The end of the file: its size, and its hash. -/
structure Done where
  transferId : Bytes := []
  finalSize : UInt64 := 0
  fileHash : Bytes := []
  deriving DecidableEq, Repr

/-- Something went wrong with a transfer. -/
structure TransferError where
  transferId : Bytes := []
  code : ErrorCode := 0
  message : Bytes := []
  deriving DecidableEq, Repr

/-- The `body` of a control packet. -/
inductive ControlPacket
  | notSet
  | get (get : GetRequest)
  | ack (ack : Ack)
  | data (data : DataChunk)
  | done (done : Done)
  | error (error : TransferError)
  deriving DecidableEq, Repr

/-! ### Writing -/

/-- The fields of a `GetRequest`, in the order of their numbers. -/
def GetRequest.records (m : GetRequest) : List Record := bytesField 1 m.transferId

/-- The fields of an `Ack`. -/
def Ack.records (m : Ack) : List Record :=
  bytesField 1 m.transferId ++ uint64Field 2 m.nextOffset

/-- The fields of a `DataChunk`. -/
def DataChunk.records (m : DataChunk) : List Record :=
  bytesField 1 m.transferId ++ (uint64Field 2 m.offset ++ bytesField 3 m.payload)

/-- The fields of a `Done`. -/
def Done.records (m : Done) : List Record :=
  bytesField 1 m.transferId ++ (uint64Field 2 m.finalSize ++ bytesField 3 m.fileHash)

/-- The fields of a `TransferError`. -/
def TransferError.records (m : TransferError) : List Record :=
  bytesField 1 m.transferId ++ (enumField 2 m.code ++ bytesField 3 m.message)

/-- The field of the member that is set. -/
def ControlPacket.records : ControlPacket → List Record
  | .notSet => []
  | .get m => messageField 1 (encodeRecords m.records)
  | .ack m => messageField 2 (encodeRecords m.records)
  | .data m => messageField 3 (encodeRecords m.records)
  | .done m => messageField 4 (encodeRecords m.records)
  | .error m => messageField 5 (encodeRecords m.records)

/-- `SerializeToString`. -/
def ControlPacket.serializeToString (p : ControlPacket) : Bytes := encodeRecords p.records

/-! ### Reading -/

/-- What a field that is read does to a `GetRequest`. An unknown one is passed over. -/
def GetRequest.set (m : GetRequest) (r : Record) : Option GetRequest :=
  match r.number, r.value with
  | 1, .len bs => (readString bs).map fun s => { m with transferId := s }
  | _, _ => some m

/-- What a field that is read does to an `Ack`. -/
def Ack.set (m : Ack) (r : Record) : Option Ack :=
  match r.number, r.value with
  | 1, .len bs => (readString bs).map fun s => { m with transferId := s }
  | 2, .varint v => some { m with nextOffset := v }
  | _, _ => some m

/-- What a field that is read does to a `DataChunk`. -/
def DataChunk.set (m : DataChunk) (r : Record) : Option DataChunk :=
  match r.number, r.value with
  | 1, .len bs => (readString bs).map fun s => { m with transferId := s }
  | 2, .varint v => some { m with offset := v }
  | 3, .len bs => some { m with payload := bs }
  | _, _ => some m

/-- What a field that is read does to a `Done`. -/
def Done.set (m : Done) (r : Record) : Option Done :=
  match r.number, r.value with
  | 1, .len bs => (readString bs).map fun s => { m with transferId := s }
  | 2, .varint v => some { m with finalSize := v }
  | 3, .len bs => (readString bs).map fun s => { m with fileHash := s }
  | _, _ => some m

/-- What a field that is read does to a `TransferError`. -/
def TransferError.set (m : TransferError) (r : Record) : Option TransferError :=
  match r.number, r.value with
  | 1, .len bs => (readString bs).map fun s => { m with transferId := s }
  | 2, .varint v => some { m with code := readEnum v }
  | 3, .len bs => (readString bs).map fun s => { m with message := s }
  | _, _ => some m

/-- Merge an embedded message of a control packet. -/
def mergeBody {α : Type} (set : α → Record → Option α) (m : α) (bs : Bytes) : Option α :=
  mergeFrom set (recursionLimit - 1) m bs

/-- One record of a control packet. A second record of the same member merges into the first;
a record of another member replaces it. -/
def ControlPacket.set (p : ControlPacket) (r : Record) : Option ControlPacket :=
  match r.number, r.value with
  | 1, .len bs =>
    (mergeBody GetRequest.set (match p with | .get m => m | _ => {}) bs).map .get
  | 2, .len bs =>
    (mergeBody Ack.set (match p with | .ack m => m | _ => {}) bs).map .ack
  | 3, .len bs =>
    (mergeBody DataChunk.set (match p with | .data m => m | _ => {}) bs).map .data
  | 4, .len bs =>
    (mergeBody Done.set (match p with | .done m => m | _ => {}) bs).map .done
  | 5, .len bs =>
    (mergeBody TransferError.set (match p with | .error m => m | _ => {}) bs).map .error
  | _, _ => some p

/-- The packet in `data`; `none` when `ParseFromString` returns false. -/
def ControlPacket.parseFromString (data : Bytes) : Option ControlPacket :=
  mergeFrom ControlPacket.set recursionLimit .notSet data

/-! ### Read after write -/

/-- The `string` fields of a packet are well-formed UTF-8. -/
def ControlPacket.stringsValid : ControlPacket → Bool
  | .notSet => true
  | .get m => utf8Valid m.transferId
  | .ack m => utf8Valid m.transferId
  | .data m => utf8Valid m.transferId
  | .done m => utf8Valid m.transferId && utf8Valid m.fileHash
  | .error m => utf8Valid m.transferId && utf8Valid m.message

theorem GetRequest.foldlM_records (m : GetRequest) :
    m.records.foldlM GetRequest.set {} = if utf8Valid m.transferId then some m else none := by
  rw [GetRequest.records, ← List.append_nil (bytesField _ _),
    foldlM_stringField GetRequest.set {} (fun s => { transferId := s }) rfl rfl]
  rfl

theorem Ack.foldlM_records (m : Ack) :
    m.records.foldlM Ack.set {} = if utf8Valid m.transferId then some m else none := by
  rw [Ack.records, foldlM_stringField Ack.set {} (fun s => { transferId := s }) rfl rfl,
    ← List.append_nil (uint64Field _ _),
    foldlM_uint64Field Ack.set { transferId := m.transferId } m rfl (by intro h; rw [← h])]
  rfl

theorem DataChunk.foldlM_records (m : DataChunk) :
    m.records.foldlM DataChunk.set {} = if utf8Valid m.transferId then some m else none := by
  rw [DataChunk.records, foldlM_stringField DataChunk.set {} (fun s => { transferId := s }) rfl rfl,
    foldlM_uint64Field DataChunk.set { transferId := m.transferId } { m with payload := [] } rfl
      (by intro h; rw [h]),
    ← List.append_nil (bytesField 3 _),
    foldlM_bytesField DataChunk.set { m with payload := [] } m rfl (by intro h; rw [← h])]
  rfl

theorem Done.foldlM_records (m : Done) :
    m.records.foldlM Done.set {}
      = if utf8Valid m.transferId && utf8Valid m.fileHash then some m else none := by
  rw [Done.records, foldlM_stringField Done.set {} (fun s => { transferId := s }) rfl rfl,
    foldlM_uint64Field Done.set { transferId := m.transferId } { m with fileHash := [] } rfl
      (by intro h; rw [h]),
    ← List.append_nil (bytesField 3 _),
    foldlM_stringField Done.set { m with fileHash := [] } (fun s => { m with fileHash := s }) rfl
      rfl]
  cases utf8Valid m.transferId <;> cases utf8Valid m.fileHash <;> rfl

theorem TransferError.foldlM_records (m : TransferError) :
    m.records.foldlM TransferError.set {}
      = if utf8Valid m.transferId && utf8Valid m.message then some m else none := by
  rw [TransferError.records,
    foldlM_stringField TransferError.set {} (fun s => { transferId := s }) rfl rfl,
    foldlM_enumField TransferError.set { transferId := m.transferId } { m with message := [] }
      (by simp [TransferError.set, readEnum_enumVarint]) (by intro h; rw [h]),
    ← List.append_nil (bytesField 3 _),
    foldlM_stringField TransferError.set { m with message := [] } (fun s => { m with message := s })
      rfl rfl]
  cases utf8Valid m.transferId <;> cases utf8Valid m.message <;> rfl

/-- What the embedded messages with a string, a number and a string or bytes write. -/
theorem isField_three {a b : Bytes} {v : UInt64} :
    ∀ r ∈ bytesField 1 a ++ (uint64Field 2 v ++ bytesField 3 b), r.IsField :=
  forall_isField_append (isField_bytesField (by omega) a)
    (forall_isField_append (isField_uint64Field (by omega) v) (isField_bytesField (by omega) b))

/-- **A serialized packet cut to `j` bytes** parses exactly when nothing was cut and its strings
are UTF-8, and then to itself. -/
theorem ControlPacket.parse_take (p : ControlPacket) {j : ℕ} (hj : 0 < j) (hmax : j ≤ maxLength) :
    parseFromString (p.serializeToString.take j)
      = if p.serializeToString.length ≤ j ∧ p.stringsValid then some p else none := by
  cases p with
  | notSet => simp [serializeToString, ControlPacket.records, stringsValid]; rfl
  | get m =>
    exact mergeFrom_take_member ControlPacket.set .notSet recursionLimit 1 .get _ (by omega) hj
      hmax (fun _ => rfl)
      (isField_bytesField (by omega) _) fun _ => m.foldlM_records
  | ack m =>
    exact mergeFrom_take_member ControlPacket.set .notSet recursionLimit 2 .ack _ (by omega) hj
      hmax (fun _ => rfl)
      (forall_isField_append (isField_bytesField (by omega) _) (isField_uint64Field (by omega) _))
      fun _ => m.foldlM_records
  | data m =>
    exact mergeFrom_take_member ControlPacket.set .notSet recursionLimit 3 .data _ (by omega) hj
      hmax (fun _ => rfl) isField_three
      fun _ => m.foldlM_records
  | done m =>
    exact mergeFrom_take_member ControlPacket.set .notSet recursionLimit 4 .done _ (by omega) hj
      hmax (fun _ => rfl) isField_three
      fun _ => m.foldlM_records
  | error m =>
    exact mergeFrom_take_member ControlPacket.set .notSet recursionLimit 5 .error _ (by omega) hj
      hmax (fun _ => rfl) isField_three
      fun _ => m.foldlM_records

/-! ### Different packets, different bytes -/

theorem Ack.records_injective {m m' : Ack} (h : m.records = m'.records) : m = m' := by
  obtain ⟨a, v⟩ := m
  obtain ⟨a', v'⟩ := m'
  simp only [Ack.records, bytesField, uint64Field] at h
  split_ifs at h <;> simp_all

theorem DataChunk.records_injective {m m' : DataChunk} (h : m.records = m'.records) : m = m' := by
  obtain ⟨a, v, b⟩ := m
  obtain ⟨a', v', b'⟩ := m'
  simp only [DataChunk.records, bytesField, uint64Field] at h
  split_ifs at h <;> simp_all

theorem Done.records_injective {m m' : Done} (h : m.records = m'.records) : m = m' := by
  obtain ⟨a, v, b⟩ := m
  obtain ⟨a', v', b'⟩ := m'
  simp only [Done.records, bytesField, uint64Field] at h
  split_ifs at h <;> simp_all

theorem Ack.isField_records (m : Ack) : ∀ r ∈ m.records, r.IsField :=
  forall_isField_append (isField_bytesField (by omega) _) (isField_uint64Field (by omega) _)

theorem serialize_ack_injective {m m' : Ack}
    (h : (ControlPacket.ack m).serializeToString = (ControlPacket.ack m').serializeToString) :
    m = m' :=
  Ack.records_injective
    (encodeRecords_injective m.isField_records m'.isField_records (messageField_injective h).2)

theorem serialize_data_injective {m m' : DataChunk}
    (h : (ControlPacket.data m).serializeToString = (ControlPacket.data m').serializeToString) :
    m = m' :=
  DataChunk.records_injective
    (encodeRecords_injective isField_three isField_three (messageField_injective h).2)

theorem serialize_done_injective {m m' : Done}
    (h : (ControlPacket.done m).serializeToString = (ControlPacket.done m').serializeToString) :
    m = m' :=
  Done.records_injective
    (encodeRecords_injective isField_three isField_three (messageField_injective h).2)

/-! ### The receive buffer -/

/-- A packet survives a receive buffer: it fits, and its strings are UTF-8. -/
def ControlPacket.deliverable (p : ControlPacket) : Bool :=
  p.serializeToString.length ≤ UdpConfig.maxPacketSize && p.stringsValid

/-- What the receiver of a serialized packet parses. -/
theorem ControlPacket.parse_received (p : ControlPacket) :
    parseFromString (received p.serializeToString) = if p.deliverable then some p else none := by
  rw [received, p.parse_take (by decide) (by decide)]
  simp [deliverable]

end Zapshare
