import Mathlib.Logic.Equiv.List
import Zapshare.Rendezvous

/-!
# Registering and looking up a transfer

`utils.hpp`: what `zapshare` asks of the central server. The table of the server has no columns for
the local address of the sender, which is packed behind the public one, as in
`203.0.113.5;192.168.1.2:5173`, and taken apart again.

## Main results

* `unpackSenderIp_packedIp` — the two addresses survive being packed
* `transferRowFromJson_of_find`, `transferMetadataFromJson_of_find` — what the server reads from a
  registration, and what the receiver reads from the row that is returned
* `samplePlatform_documented` — a platform that behaves as documented
-/

namespace Zapshare

open Wire

namespace Utils

/-- `DEFAULT_PORT`. -/
def defaultPort : UInt32 := 5173

/-! ### Taking the addresses apart -/

/-- The two `substr` around the first `c` that `find` finds. -/
def splitFirst (c : UInt8) (s : Bytes) : Option (Bytes × Bytes) :=
  if c ∈ s then some (s.takeWhile (· ≠ c), (s.dropWhile (· ≠ c)).drop 1) else none

/-- The public address, the local one and the local port of a packed `sender_ip`. -/
def unpackSenderIp (rawIp : Bytes) : Except Fault (Bytes × Bytes × UInt32) :=
  match splitFirst 59 rawIp with
  | none => .ok (rawIp, [], 0)
  | some (senderIp, localPart) =>
    match splitFirst 58 localPart with
    | none => .ok (senderIp, localPart, defaultPort)
    | some (localIp, port) =>
      (orThrow (stoi port)).map fun n => (senderIp, localIp, UInt32.ofInt n.toInt)

/-- The fields that stand in for the local address when it was not packed. -/
def localFields (platform : Platform) (data : Json) : Except Fault (Bytes × UInt32) := do
  let localIp ← data.readOr Json.toStdString (text "sender_local_ip") []
  let localPort ← data.readOr (Json.toUInt32 platform) (text "sender_local_port") 0
  return (localIp, localPort)

/-- The local address: as it was packed, or else by the fields. -/
def localAddress (platform : Platform) (data : Json) (localIp : Bytes) (localPort : UInt32) :
    Except Fault (Bytes × UInt32) :=
  if localIp = [] then localFields platform data else .ok (localIp, localPort)

/-- `transfer_metadata_from_json`: the members in the order in which they are read. -/
def transferMetadataFromJson (platform : Platform) (data : Json) : Except Fault Transfers := do
  let id ← data.read Json.toStdString (text "id")
  let rawIp ← data.read Json.toStdString (text "sender_ip")
  let (senderIp, localIp, localPort) ← unpackSenderIp rawIp
  let senderPort ← data.read (Json.toUInt32 platform) (text "sender_port")
  let (senderLocalIp, senderLocalPort) ← localAddress platform data localIp localPort
  let protocol ← data.read Json.toStdString (text "protocol")
  let fileName ← data.read Json.toStdString (text "file_name")
  let fileSize ← data.read (Json.toSize platform) (text "file_size")
  let fileHash ← data.read Json.toStdString (text "file_hash")
  let token ← data.read Json.toStdString (text "token")
  return { id, senderIp, senderPort, senderLocalIp, senderLocalPort, protocol, fileName,
           fileSize, fileHash, token }

/-! ### Requests -/

/-- The address that is registered. -/
def packedIp (t : Transfers) : Bytes :=
  if t.senderLocalIp = [] then t.senderIp
  else t.senderIp ++ text ";" ++ t.senderLocalIp ++ text ":" ++ decimal t.senderLocalPort.toNat

/-- The document that `register_transfer` posts. -/
def registration (t : Transfers) : Json :=
  .object
    [(text "id", .string t.id),
      (text "sender_ip", .string (packedIp t)),
      (text "sender_port", .number t.senderPort.toNat),
      (text "sender_local_ip", .string t.senderLocalIp),
      (text "sender_local_port", .number t.senderLocalPort.toNat),
      (text "protocol", .string t.protocol),
      (text "file_name", .string t.fileName),
      (text "file_size", .number t.fileSize.toNat),
      (text "file_hash", .string t.fileHash),
      (text "token", .string t.token)]

/-- `register_transfer`: the request that it sends; `none` when `dump` throws. -/
def registerTransfer (platform : Platform) (t : Transfers) : Option Request :=
  (platform.dump (registration t)).map (Http.postRequest platform (text "/register"))

/-- A `client.Get(url)` that the server meets with these faults. -/
def getCall (platform : Platform) (faults : ℕ → Bool) (url : Bytes) : Call where
  request := Http.getRequest platform url
  faults := faults

/-- What the server makes of it, and what `client.Get(url)` returns. -/
def clientGet (platform : Platform) (s : Server) (faults : ℕ → Bool) (url : Bytes) :
    Server × Option Response :=
  let r := s.step platform (.call (getCall platform faults url))
  (r.1, r.2.head?)

/-- `lookup_transfer`: what the server makes of the request, and whether it answered `True`. -/
def lookUp (platform : Platform) (s : Server) (faults : ℕ → Bool) (secret : Bytes) :
    Server × Bool :=
  let r := clientGet platform s faults (text "/lookup/" ++ secret)
  (r.1, match r.2 with
    | some res => res.body = text "True"
    | none => false)

/-- What `get_transfer_metadata` makes of the answer. -/
def metadataOfResponse (platform : Platform) (res : Option Response) : Except Fault Transfers := do
  let res ← orThrow res
  let data ← orThrow (platform.parse res.body)
  transferMetadataFromJson platform data

/-- `get_transfer_metadata`: what the server makes of the request, and what is read from its
answer. -/
def getTransferMetadata (platform : Platform) (s : Server) (faults : ℕ → Bool) (secret : Bytes) :
    Server × Except Fault Transfers :=
  let r := clientGet platform s faults (text "/getfile/" ++ secret)
  (r.1, metadataOfResponse platform r.2)

/-! ### Packing and unpacking -/

theorem splitFirst_append {c : UInt8} {before : Bytes} (h : c ∉ before) (after : Bytes) :
    splitFirst c (before ++ c :: after) = some (before, after) := by
  have hne : ∀ b ∈ before, decide (b ≠ c) = true := by
    intro b hb
    refine decide_eq_true ?_
    rintro rfl
    exact h hb
  rw [splitFirst, if_pos (List.mem_append_right before List.mem_cons_self),
    List.takeWhile_append_of_pos hne, List.dropWhile_append_of_pos hne,
    List.takeWhile_cons_of_neg (by simp), List.dropWhile_cons_of_neg (by simp)]
  simp

theorem splitFirst_of_notMem {c : UInt8} {s : Bytes} (h : c ∉ s) : splitFirst c s = none :=
  if_neg h

/-- **The two addresses survive being packed.** -/
theorem unpackSenderIp_packedIp {t : Transfers} (hip : 59 ∉ t.senderIp)
    (hlocal : 58 ∉ t.senderLocalIp) (hport : t.senderLocalPort.toNat ≤ 65535)
    (hzero : t.senderLocalIp = [] → t.senderLocalPort = 0) :
    unpackSenderIp (packedIp t) = .ok (t.senderIp, t.senderLocalIp, t.senderLocalPort) := by
  by_cases hnil : t.senderLocalIp = []
  · rw [packedIp, if_pos hnil, unpackSenderIp, splitFirst_of_notMem hip, hnil, hzero hnil]
  · have hpacked : packedIp t = t.senderIp ++
        59 :: (t.senderLocalIp ++ 58 :: decimal t.senderLocalPort.toNat) := by
      rw [packedIp, if_neg hnil]
      simp [text]
    have hlt : t.senderLocalPort.toNat < 2 ^ 31 := by omega
    have hofInt : UInt32.ofInt (Int32.ofNat t.senderLocalPort.toNat).toInt = t.senderLocalPort := by
      rw [Int32.toInt_ofNat_of_lt hlt, Json.uint32_ofInt_toNat]
    rw [hpacked, unpackSenderIp, splitFirst_append hip]
    simp only [splitFirst_append hlocal, stoi_decimal hlt, orThrow, Except.map, hofInt]

/-! ### What is stored -/

/-- The transfers that the table can hold, with the local address in front of which there are no
separators. -/
structure Storable (t : Transfers) : Prop where
  texts : ∀ s ∈ [t.id, t.senderIp, t.senderLocalIp, t.protocol, t.fileName, t.fileHash, t.token],
    utf8Valid s = true ∧ 0 ∉ s
  senderIp : 59 ∉ t.senderIp
  senderLocalIp : 58 ∉ t.senderLocalIp
  senderLocalPort_le : t.senderLocalPort.toNat ≤ 65535
  senderLocalPort_eq : t.senderLocalIp = [] → t.senderLocalPort = 0
  senderPort_lt : t.senderPort.toNat < 2 ^ 31
  fileSize_lt : t.fileSize.toNat < 2 ^ 63

/-- The fields the server reads from a registration. -/
def payload (t : Transfers) : Payload where
  id := t.id
  senderIp := packedIp t
  senderPort := t.senderPort
  protocol := t.protocol
  fileName := t.fileName
  fileSize := t.fileSize
  fileHash := t.fileHash
  token := t.token

variable {platform : Platform} {t : Transfers}

theorem packedIp_text (h : Storable t) : utf8Valid (packedIp t) = true ∧ 0 ∉ packedIp t := by
  obtain ⟨-, hip, hlocal, -⟩ := List.forall_mem_cons.mp h.texts |>.imp_right fun h =>
    List.forall_mem_cons.mp h |>.imp_right List.forall_mem_cons.mp
  rw [packedIp]
  split
  · exact hip
  · have hport := isDigit_of_mem_decimal t.senderLocalPort.toNat
    have hascii : utf8Valid (decimal t.senderLocalPort.toNat) = true :=
      utf8Valid_of_ascii fun b hb => lt_of_isDigit (hport b hb)
    have hzero : 0 ∉ decimal t.senderLocalPort.toNat := by
      intro hmem
      exact absurd (hport 0 hmem) (by decide)
    constructor
    · have hstart : utf8Valid (t.senderIp ++ text ";") = true :=
        utf8Valid_append hip.1 (by decide)
      have hpair : utf8Valid (t.senderIp ++ text ";" ++ t.senderLocalIp ++ text ":") = true :=
        utf8Valid_append (utf8Valid_append hstart hlocal.1) (by decide)
      exact utf8Valid_append hpair hascii
    · have hsemicolon : (0 : UInt8) ∉ text ";" := by decide
      have hcolon : (0 : UInt8) ∉ text ":" := by decide
      simp [hip.2, hlocal.2, hzero, hsemicolon, hcolon]

/-- The members that a registration and a returned row have in common. -/
structure Carries (data : Json) (t : Transfers) : Prop where
  id : data.find (text "id") = some (.string t.id)
  senderIp : data.find (text "sender_ip") = some (.string (packedIp t))
  senderPort : data.find (text "sender_port") = some (.number t.senderPort.toNat)
  protocol : data.find (text "protocol") = some (.string t.protocol)
  fileName : data.find (text "file_name") = some (.string t.fileName)
  fileSize : data.find (text "file_size") = some (.number t.fileSize.toNat)
  fileHash : data.find (text "file_hash") = some (.string t.fileHash)
  token : data.find (text "token") = some (.string t.token)

/-- What finds the same carries the same. -/
theorem Carries.of_find {data data' : Json} (h' : Carries data' t)
    (h : ∀ key, data.find key = data'.find key) : Carries data t :=
  ⟨(h _).trans h'.id, (h _).trans h'.senderIp, (h _).trans h'.senderPort,
    (h _).trans h'.protocol, (h _).trans h'.fileName, (h _).trans h'.fileSize,
    (h _).trans h'.fileHash, (h _).trans h'.token⟩

theorem carries_registration (t : Transfers) : Carries (registration t) t :=
  ⟨rfl, rfl, rfl, rfl, rfl, rfl, rfl, rfl⟩

/-- The server reads the fields of a registration. -/
theorem transferRowFromJson_of_find {data : Json}
    (h : ∀ key, data.find key = (registration t).find key) :
    DB.transferRowFromJson platform data = .ok (payload t) := by
  obtain ⟨hid, hip, hport, hprotocol, hname, hsize, hhash, htoken⟩ :=
    (carries_registration t).of_find h
  rw [DB.transferRowFromJson, Json.read_string hid, Json.read_string hip, Json.read_uint32 hport,
    Json.read_string hprotocol, Json.read_string hname, Json.read_size hsize,
    Json.read_string hhash, Json.read_string htoken]
  rfl

/-- The row that is returned for a transfer. -/
def returnedRow (t : Transfers) (createdAt : Bytes) : TransferRow where
  id := t.id
  senderIp := packedIp t
  senderPort := t.senderPort
  protocol := t.protocol
  fileName := t.fileName
  fileSize := Int64.ofNat t.fileSize.toNat
  fileHash := t.fileHash
  token := t.token
  claimed := true
  createdAt := createdAt

theorem carries_returnedRow (ht : Storable t) (createdAt : Bytes) :
    Carries (DB.transferRowToJson (returnedRow t createdAt)) t := by
  have hsize : (Int64.ofNat t.fileSize.toNat).toInt = t.fileSize.toNat :=
    Int64.toInt_ofNat_of_lt ht.fileSize_lt
  exact ⟨rfl, rfl, rfl, rfl, rfl, congrArg (fun i => some (Json.number i)) hsize, rfl, rfl⟩

/-- The receiver reads the transfer from the row that is returned. -/
theorem transferMetadataFromJson_of_find (ht : Storable t) {createdAt : Bytes} {data : Json}
    (h : ∀ key, data.find key = (DB.transferRowToJson (returnedRow t createdAt)).find key) :
    transferMetadataFromJson platform data = .ok t := by
  obtain ⟨hid, hip, hport, hprotocol, hname, hsize, hhash, htoken⟩ :=
    (carries_returnedRow ht createdAt).of_find h
  have hunpack := unpackSenderIp_packedIp ht.senderIp ht.senderLocalIp ht.senderLocalPort_le
    ht.senderLocalPort_eq
  have hlocal : localAddress platform data t.senderLocalIp t.senderLocalPort
      = .ok (t.senderLocalIp, t.senderLocalPort) := by
    rw [localAddress]
    split
    · -- the columns have no local address, so the fields are not there either
      rename_i hnil
      have hnoIp : data.contains (text "sender_local_ip") = false := by
        rw [Json.contains, h]
        rfl
      have hnoPort : data.contains (text "sender_local_port") = false := by
        rw [Json.contains, h]
        rfl
      rw [localFields, Json.readOr, hnoIp, Json.readOr, hnoPort, hnil, ht.senderLocalPort_eq hnil]
      rfl
    · rfl
  rw [transferMetadataFromJson, Json.read_string hid, Json.read_string hip]
  simp only [bind, Except.bind, hunpack]
  rw [Json.read_uint32 hport, Json.read_string hprotocol, Json.read_string hname,
    Json.read_size hsize, Json.read_string hhash, Json.read_string htoken]
  simp only [hlocal]
  rfl

theorem clientGet_of_step {s s' : Server} {faults : ℕ → Bool} {url : Bytes} {res : Response}
    (h : s.step platform (.call (getCall platform faults url)) = (s', [res])) :
    clientGet platform s faults url = (s', some res) := by
  rw [clientGet, h]
  rfl

theorem metadataOfResponse_of_not_parse {res : Response} (h : platform.parse res.body = none) :
    metadataOfResponse platform (some res) = .error .thrown := by
  rw [metadataOfResponse]
  simp only [orThrow, bind, Except.bind, h]

theorem metadataOfResponse_of_parse {res : Response} {data : Json}
    (h : platform.parse res.body = some data) :
    metadataOfResponse platform (some res) = transferMetadataFromJson platform data := by
  rw [metadataOfResponse]
  simp only [orThrow, bind, Except.bind, h]

/-! ### What survives being written -/

theorem flat_registration (ht : Storable t) : (registration t).Flat = true := by
  have htexts := ht.texts
  simp only [List.forall_mem_cons] at htexts
  obtain ⟨hid, -, hlocal, hprotocol, hname, hhash, htoken, -⟩ := htexts
  simp only [registration, Json.flat_object_cons, Json.flat_object_nil, Json.plain_string,
    Json.plain_uint32, Json.plain_uint64, hid.1, (packedIp_text ht).1, hlocal.1, hprotocol.1,
    hname.1, hhash.1, htoken.1, true_and, and_true]
  decide

theorem flat_returnedRow (ht : Storable t) (createdAt : Timestamp) :
    (DB.transferRowToJson (returnedRow t createdAt.bytes)).Flat = true := by
  have htexts := ht.texts
  simp only [List.forall_mem_cons] at htexts
  obtain ⟨hid, -, -, hprotocol, hname, hhash, htoken, -⟩ := htexts
  simp only [DB.transferRowToJson, returnedRow, Json.flat_object_cons, Json.flat_object_nil,
    Json.plain_string, Json.plain_uint32, Json.plain_int64, Json.plain_boolean, hid.1,
    (packedIp_text ht).1, hprotocol.1, hname.1, hhash.1, htoken.1,
    utf8Valid_of_ascii createdAt.ascii, true_and, and_true]
  decide

theorem payload_storable (ht : Storable t) : (payload t).Storable where
  texts := by
    have htexts := ht.texts
    simp only [List.forall_mem_cons] at htexts
    obtain ⟨hid, -, -, hprotocol, hname, hhash, htoken, -⟩ := htexts
    simp only [List.forall_mem_cons]
    exact ⟨hid, packedIp_text ht, hprotocol, hname, hhash, htoken, fun _ h => nomatch h⟩
  senderPort_lt := ht.senderPort_lt
  fileSize_lt := ht.fileSize_lt

/-! ### A sample platform

The texts of a few documents as the library writes them. All other flat objects are numbered. -/

/-- A scalar that is written and read back unchanged. -/
abbrev Scalar := Bytes ⊕ ℤ ⊕ Bool

instance encodableByte : Encodable UInt8 :=
  Encodable.ofLeftInverse UInt8.toNat UInt8.ofNat fun _ => UInt8.ofNat_toNat

/-- The scalar as a document. -/
def Scalar.toJson : Scalar → Json
  | .inl s => .string s
  | .inr (.inl i) => .number i
  | .inr (.inr b) => .boolean b

/-- The scalar that a document is, if it is one. -/
def scalar : Json → Scalar
  | .string s => .inl s
  | .number i => .inr (.inl i)
  | .boolean b => .inr (.inr b)
  | _ => .inr (.inr false)

/-- The members of a flat object. -/
def scalars : Json → List (Bytes × Scalar)
  | .object members => members.map fun m => (m.1, scalar m.2)
  | _ => []

/-- The flat object with these members. -/
def ofScalars (members : List (Bytes × Scalar)) : Json :=
  .object (members.map fun m => (m.1, m.2.toJson))

theorem ofScalars_scalars {data : Json} (h : data.Flat = true) :
    ofScalars (scalars data) = data := by
  cases data with
  | object members =>
    have hmembers : ∀ m ∈ members, (m.1, (scalar m.2).toJson) = m := by
      intro m hm
      have hplain : m.2.Plain = true := (Bool.and_eq_true_iff.mp (List.all_eq_true.mp h m hm)).2
      obtain ⟨key, value⟩ := m
      cases value <;> first | rfl | cases hplain
    rw [ofScalars, scalars, List.map_map]
    exact congrArg Json.object ((List.map_congr_left hmembers).trans (List.map_id _))
  | _ => cases h

/-- A transfer of one byte, as it is registered. -/
def sampleTransfer (id fileName : Bytes) : Transfers where
  id := id
  senderIp := text "203.0.113.5"
  senderPort := 5173
  senderLocalIp := text "192.168.1.2"
  senderLocalPort := 5173
  protocol := text "udp"
  fileName := fileName
  fileSize := 1
  fileHash := text "6e340b9cffb37a98"
  token := id

/-- The time of the sample registrations. -/
def sampleNow : Timestamp where
  bytes := text "2026-01-01 00:00:00"
  ascii := by simp [text]

/-- The members both documents end with. -/
def sampleTail (t : Transfers) : Bytes :=
  text "\"sender_port\":5173,\"token\":\"" ++ t.token ++ text "\"\x7d"

/-- A registration as it is written, in the order of the keys. -/
def registrationText (t : Transfers) : Bytes :=
  text "\x7b\"file_hash\":\"" ++ t.fileHash ++ text "\",\"file_name\":\"" ++ t.fileName ++
    text "\",\"file_size\":1,\"id\":\"" ++ t.id ++ text "\",\"protocol\":\"" ++ t.protocol ++
    text "\",\"sender_ip\":\"" ++ packedIp t ++ text "\",\"sender_local_ip\":\"" ++
    t.senderLocalIp ++ text "\",\"sender_local_port\":5173," ++ sampleTail t

/-- A returned row as it is written. -/
def returnedText (t : Transfers) (createdAt : Bytes) : Bytes :=
  text "\x7b\"claimed\":true,\"created_at\":\"" ++ createdAt ++ text "\",\"file_hash\":\"" ++
    t.fileHash ++ text "\",\"file_name\":\"" ++ t.fileName ++
    text "\",\"file_size\":1,\"id\":\"" ++ t.id ++ text "\",\"protocol\":\"" ++ t.protocol ++
    text "\",\"sender_ip\":\"" ++ packedIp t ++ text "\"," ++ sampleTail t

/-- The documents whose texts are those of the library, and their texts. -/
def sampleDocuments : List (Bytes × List (Bytes × Scalar)) :=
  (text "\x7b\x7d", []) ::
    [(text "a", text "f"), (text "a_b", text "f"), (text "a", text "../f")].flatMap fun m =>
      let t := sampleTransfer m.1 m.2
      [(registrationText t, scalars (registration t)),
        (returnedText t sampleNow.bytes,
          scalars (DB.transferRowToJson (returnedRow t sampleNow.bytes)))]

/-- The text of a document that has none of its own. -/
def numberedText (members : List (Bytes × Scalar)) : Bytes :=
  123 :: 49 :: List.replicate (Encodable.encode members) 49

/-- The document behind a number. -/
def readNumbered : Bytes → Option (List (Bytes × Scalar))
  | 123 :: 49 :: rest => Encodable.decode rest.length
  | _ => none

theorem readNumbered_numberedText (members : List (Bytes × Scalar)) :
    readNumbered (numberedText members) = some members := by
  rw [numberedText, readNumbered, List.length_replicate, Encodable.encodek]

/-- The text of a document: its own, or its number. -/
def sampleDump (data : Json) : Option Bytes :=
  if data.Flat then
    some <| match sampleDocuments.find? fun d => d.2 = scalars data with
      | some d => d.1
      | none => numberedText (scalars data)
  else none

/-- The document of a text. -/
def sampleParse (s : Bytes) : Option Json :=
  (((sampleDocuments.find? fun d => d.1 = s).map Prod.snd).or (readNumbered s)).map ofScalars

/-- A platform on which the sample documents are what the library makes of them. -/
def samplePlatform : Platform where
  parse := sampleParse
  dump := sampleDump
  floatToUInt32 _ := 0
  floatToSize _ := 0
  storeText s := if utf8Valid s && !s.contains 0 then some s else none
  normalizeQuery s := s

/-- The registration of a sample transfer, as the server meets it. -/
def sampleCall (t : Transfers) : Call where
  request := { method := .post, target := text "/register", body := registrationText t }
  now := sampleNow

/-- No document has the text of another one, or of a number. -/
theorem sampleDocuments_spec :
    (∀ d ∈ sampleDocuments, d.1.head? = some 123 ∧ (d.1.drop 1).head? ≠ some 49) ∧
      ∀ d ∈ sampleDocuments, ∀ d' ∈ sampleDocuments, d'.1 = d.1 → d'.2 = d.2 := by
  decide +kernel

/-- What does not begin with a brace is no document. -/
theorem samplePlatform_parse_eq_none {s : Bytes} (h : s.head? ≠ some 123) :
    samplePlatform.parse s = none := by
  have hnone : (sampleDocuments.find? fun d => decide (d.1 = s)) = none := by
    rw [List.find?_eq_none]
    intro d hd heq
    have hstart := (sampleDocuments_spec.1 d hd).1
    rw [of_decide_eq_true heq] at hstart
    exact h hstart
  have hnumbered : readNumbered s = none := by
    rw [readNumbered]
    rintro rest rfl
    exact h rfl
  change sampleParse s = none
  rw [sampleParse, hnone, hnumbered]
  rfl

theorem sampleParse_sampleDump {data : Json} (h : data.Flat = true) :
    ∃ s, sampleDump data = some s ∧ sampleParse s = some data := by
  obtain ⟨hstart, hunique⟩ := sampleDocuments_spec
  refine ⟨_, if_pos h, ?_⟩
  cases hfind : sampleDocuments.find? fun d => decide (d.2 = scalars data) with
  | some d =>
    have hd : d ∈ sampleDocuments := List.mem_of_find?_eq_some hfind
    have hscalars : d.2 = scalars data := by simpa using List.find?_some hfind
    cases hfind' : sampleDocuments.find? fun d' => decide (d'.1 = d.1) with
    | some d' =>
      have hd' : d' ∈ sampleDocuments := List.mem_of_find?_eq_some hfind'
      have htext : d'.1 = d.1 := by simpa using List.find?_some hfind'
      rw [sampleParse, hfind', Option.map_some, Option.some_or, Option.map_some,
        hunique d hd d' hd' htext, hscalars, ofScalars_scalars h]
    | none => simpa using List.find?_eq_none.mp hfind' d hd
  | none =>
    have hnone : (sampleDocuments.find? fun d => decide (d.1 = numberedText (scalars data)))
        = none := by
      rw [List.find?_eq_none]
      intro d hd hnumbered
      refine (hstart d hd).2 ?_
      rw [of_decide_eq_true hnumbered]
      rfl
    rw [sampleParse, hnone, Option.map_none, Option.none_or, readNumbered_numberedText,
      Option.map_some, ofScalars_scalars h]

/-- What is registered for a sample transfer. -/
theorem registerTransfer_sample :
    ∀ m ∈ [(text "a", text "f"), (text "a_b", text "f"), (text "a", text "../f")],
      registerTransfer samplePlatform (sampleTransfer m.1 m.2)
        = some (sampleCall (sampleTransfer m.1 m.2)).request := by
  decide +kernel

theorem samplePlatform_documented : samplePlatform.Documented where
  parse_dump data h := by
    obtain ⟨s, hdump, hparse⟩ := sampleParse_sampleDump h
    exact ⟨s, data, hdump, hparse, fun _ => rfl⟩
  dump_object members s h := by
    change sampleDump _ = some s at h
    rw [sampleDump] at h
    split at h
    · split at h
      · rename_i d hfind
        cases h
        exact (sampleDocuments_spec.1 d (List.mem_of_find?_eq_some hfind)).1
      · cases h
        rfl
    · cases h
  storeText s hvalid hzero := by simp [samplePlatform, hvalid, hzero]

end Utils

end Zapshare
