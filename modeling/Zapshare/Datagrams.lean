import Zapshare.ClientIntegrity
import Zapshare.Sizes
import Zapshare.Transcript

/-!
# Nothing is cut

A transfer goes by a token of `generate_uuid_token`, its keys, nonces and signatures have the sizes
of libsodium, and its hash is what `compute_file_hash` gave. Then every packet the client and the
session exchange fits into a receive buffer, whatever the file and wherever the transfer is.

## Main results

* `datagrams_fit` — no datagram of the two programs is cut
-/

namespace Zapshare

open Wire UdpConfig

/-! ### The packets of a handshake -/

variable {token : Bytes}

/-- A field with a token. -/
theorem length_tokenField (h : token.length = 40) {n : ℕ} (hn : n < 16) :
    (encodeRecords (bytesField n token)).length ≤ 42 := by
  have := length_bytesField_le hn (k := 1) (by decide) token (by omega)
  omega

/-- A field with a short text or a key. -/
theorem length_shortField {n k : ℕ} (hn : n < 16) {bs : Bytes} (h : bs.length = k)
    (hk : k < 128) : (encodeRecords (bytesField n bs)).length ≤ 2 + k := by
  have := length_bytesField_le hn (k := 1) (by decide) bs (by omega)
  omega

theorem length_identityField {n : ℕ} (hn : n < 16) (identity : PeerIdentity)
    (hlong : identity.longTermPublicKey.length = 32)
    (hephemeral : identity.ephemeralPublicKey.length = 32) :
    (encodeRecords (identityField n (some identity))).length ≤ 70 := by
  have h1 := length_shortField (n := 1) (by decide) hlong (by decide)
  have h2 := length_shortField (n := 2) (by decide) hephemeral (by decide)
  have hbody : (encodeRecords identity.records).length ≤ 68 := by
    rw [PeerIdentity.records, encodeRecords_append, List.length_append]
    omega
  have := length_messageField_le hn (k := 1) (by decide) (encodeRecords identity.records)
    (by omega)
  rw [identityField]
  omega

/-- What a packet adds to its member. -/
theorem length_packet_le {n k : ℕ} (hn : n < 16) {body : Bytes} (hk : k < 2 ^ 14)
    (hbody : body.length ≤ k) : (encodeRecords (messageField n body)).length ≤ 3 + k := by
  have := length_messageField_le hn (k := 2) (by decide) body (by omega)
  omega

theorem length_clientHello {env : Env} (h : env.Sized) (htoken : token.length = 40) :
    (HandshakePacket.clientHello (clientHello env token)).serializeToString.length ≤ 268 := by
  have hversion := length_uint64Field_le (n := 1) (by decide) (enumVarint protocolVersion1)
  have hid := length_tokenField htoken (n := 2) (by decide)
  have htok := length_tokenField htoken (n := 3) (by decide)
  have hnonce := length_shortField (n := 4) (by decide) (h.nonce 32) (by decide)
  have hidentity := length_identityField (n := 5) (by decide)
    ⟨env.generateIdentityKeypair.publicKey, env.generateEphemeralKeypair.publicKey⟩
    h.identity h.ephemeral
  have hsignature := length_shortField (n := 6) (by decide)
    (h.signature (clientHelloTranscript { clientHello env token with receiverSignature := [] })
      env.generateIdentityKeypair) (by decide)
  refine length_packet_le (k := 265) (by decide) (by decide) ?_
  simp only [ClientHello.records, clientHello, signClientHello, enumField, encodeRecords_append,
    List.length_append] at hsignature ⊢
  omega

theorem length_serverHello {env : Env} (h : env.Sized) {hello : ClientHello}
    (hid : hello.transferId.length = 40) :
    (HandshakePacket.serverHello (Session.serverHello env hello)).serializeToString.length
      ≤ 226 := by
  have hversion := length_uint64Field_le (n := 1) (by decide) (enumVarint protocolVersion1)
  have hid := length_tokenField hid (n := 2) (by decide)
  have hnonce := length_shortField (n := 3) (by decide) (h.nonce 32) (by decide)
  have hidentity := length_identityField (n := 4) (by decide)
    ⟨env.generateIdentityKeypair.publicKey, env.generateEphemeralKeypair.publicKey⟩
    h.identity h.ephemeral
  have hsignature := length_shortField (n := 5) (by decide)
    (h.signature (serverHelloTranscript
      { Session.serverHello env hello with senderSignature := [] }) env.generateIdentityKeypair)
    (by decide)
  refine length_packet_le (k := 223) (by decide) (by decide) ?_
  simp only [ServerHello.records, Session.serverHello, signServerHello, enumField,
    encodeRecords_append, List.length_append] at hsignature ⊢
  omega

/-- The errors of the handshake. -/
def handshakeErrors : List HandshakeError :=
  [⟨ErrorCode.badPacket, text "Unsupported protocol version"⟩,
    ⟨ErrorCode.invalidToken, text "Missing Token!"⟩,
    ⟨ErrorCode.invalidToken, text "Invalid Token"⟩,
    ⟨ErrorCode.badPacket, text "Expected client hello!"⟩]

theorem length_handshakeError : ∀ m ∈ handshakeErrors,
    (HandshakePacket.error m).serializeToString.length ≤ 40 := by decide

/-! ### The packets of a transfer -/

/-- **The framing of a chunk** stays within what is set aside for it. -/
theorem length_data_le (htoken : token.length = 40) (offset : UInt64) {payload : Bytes}
    (hpayload : payload.length ≤ payloadSize) :
    (ControlPacket.data
      { transferId := token, offset := offset, payload := payload }).serializeToString.length
      ≤ payload.length + headerSize := by
  have hsize : payload.length ≤ 1272 := hpayload
  have hid := length_tokenField htoken (n := 1) (by decide)
  have hoffset := length_uint64Field_le (n := 2) (by decide) offset
  have hfield := length_bytesField_le (n := 3) (k := 2) (by decide) (by decide) payload (by omega)
  have hpacket : (encodeRecords (messageField 3 (encodeRecords
      (bytesField 1 token ++ (uint64Field 2 offset ++ bytesField 3 payload))))).length
      ≤ 3 + (56 + payload.length) := by
    refine length_packet_le (by decide) (by omega) ?_
    rw [encodeRecords_append, encodeRecords_append, List.length_append, List.length_append]
    omega
  exact Nat.le_trans hpacket (by rw [headerSize]; omega)

theorem length_get (htoken : token.length = 40) :
    (ControlPacket.get { transferId := token }).serializeToString.length ≤ 45 :=
  length_packet_le (by decide) (by decide) (length_tokenField htoken (by decide))

theorem length_ack (htoken : token.length = 40) (nextOffset : UInt64) :
    (ControlPacket.ack
      { transferId := token, nextOffset := nextOffset }).serializeToString.length ≤ 56 := by
  have hid := length_tokenField htoken (n := 1) (by decide)
  have hoffset := length_uint64Field_le (n := 2) (by decide) nextOffset
  refine length_packet_le (k := 53) (by decide) (by decide) ?_
  simp only [Ack.records, encodeRecords_append, List.length_append]
  omega

theorem length_done (htoken : token.length = 40) (finalSize : UInt64) (hash : Vector UInt8 32) :
    (ControlPacket.done
      { transferId := token
        finalSize := finalSize
        fileHash := Crypto.hexLower hash }).serializeToString.length ≤ 122 := by
  have hid := length_tokenField htoken (n := 1) (by decide)
  have hsize := length_uint64Field_le (n := 2) (by decide) finalSize
  have hhash := length_shortField (n := 3) (by decide) (Crypto.length_hexLower hash) (by decide)
  refine length_packet_le (k := 119) (by decide) (by decide) ?_
  simp only [Done.records, encodeRecords_append, List.length_append]
  omega

/-- The one error of a transfer, about the token or about no transfer. -/
theorem length_controlError {id : Bytes} (hid : id = token ∨ id = []) (htoken : token.length = 40) :
    (ControlPacket.error
      { transferId := id
        code := ErrorCode.transferNotFound
        message := text "Failed to open file" }).serializeToString.length ≤ 77 := by
  have hfield : (encodeRecords (bytesField 1 id)).length ≤ 42 := by
    rcases hid with rfl | rfl
    · exact length_tokenField htoken (by decide)
    · decide
  have hcode := length_uint64Field_le (n := 2) (by decide) (enumVarint ErrorCode.transferNotFound)
  have hmessage : (encodeRecords (bytesField 3 (text "Failed to open file"))).length ≤ 21 := by
    decide
  refine length_packet_le (k := 74) (by decide) (by decide) ?_
  simp only [TransferError.records, enumField, encodeRecords_append, List.length_append]
  omega

/-! ### What the client sends -/

/-- The datagrams of an honest client with this token: the hole punch, the hello, and what
`receive_file` sends. -/
inductive ClientSends (token : Bytes) : Bytes → Prop
  | punch : ClientSends token (text "PUNCH")
  | hello {env : Env} : env.Sized →
    ClientSends token (HandshakePacket.clientHello (clientHello env token)).serializeToString
  | get : ClientSends token (ControlPacket.get { transferId := token }).serializeToString
  | ack (nextOffset : UInt64) :
    ClientSends token
      (ControlPacket.ack { transferId := token, nextOffset := nextOffset }).serializeToString

theorem ClientSends.length_le {bytes : Bytes} (h : ClientSends token bytes)
    (htoken : token.length = 40) : bytes.length ≤ maxPacketSize := by
  cases h with
  | punch => decide
  | hello henv => exact Nat.le_trans (length_clientHello henv htoken) (by decide)
  | get => exact Nat.le_trans (length_get htoken) (by decide)
  | ack nextOffset => exact Nat.le_trans (length_ack htoken nextOffset) (by decide)

/-- `receive_file` sends requests and acknowledgements. -/
theorem Client.clientSends {args : ReceiveArgs} {sha : Sha256} (hid : args.transferId = token)
    (c : Client) (o : Outcome) : ∀ g ∈ (c.step args sha o).2, ClientSends token g.bytes := by
  have hack : ∀ n, ∀ g ∈ args.sendAck n, ClientSends token g.bytes := by
    intro n g hg
    obtain rfl := List.mem_singleton.mp hg
    rw [hid]
    exact .ack _
  have hget : ∀ g ∈ [(⟨args.peer, args.getBytes⟩ : Datagram)], ClientSends token g.bytes := by
    intro g hg
    obtain rfl := List.mem_singleton.mp hg
    rw [ReceiveArgs.getBytes, hid]
    exact .get
  rw [step]
  split
  · simp
  · cases o with
    | timeout =>
      simp only [iterate]
      split
      · exact hget
      · exact hack _
    | datagram sender rx =>
      simp only [iterate]
      split
      · simp
      · rw [handlePacket]
        split
        · rename_i m _
          rcases handleData_cases args { c with retries := 0 } m with
            ⟨-, h⟩ | ⟨-, -, h⟩ | ⟨-, -, h⟩ <;> rw [h]
          · simp
          · exact hack _
          · exact hack _
        · rename_i m _
          rcases handleDone_cases args sha { c with retries := 0 } m with
            ⟨-, h⟩ | ⟨-, -, -, h⟩ | ⟨-, -, -, h⟩ <;> rw [h]
          · simp
          · simp
          · exact hack _
        · simp
        · simp

/-! ### What the session answers -/

/-- What `zapshare send` registers under the token. -/
structure Transfers.Prepared (token : Bytes) (t : Transfers) : Prop where
  id : t.id = token
  fileHash : ∃ (sha : Sha256) (content : Bytes),
    Crypto.computeFileHash sha (.opened content) = some t.fileHash
  token : t.token = token

/-- The session meets a datagram of the client, the row of the transfer if any, and keys, nonces
and signatures of the right sizes. -/
structure Delivery.Honest (token : Bytes) (d : Delivery) : Prop where
  sized : d.env.Sized
  registered : ∀ t, d.env.getTransferMetadata token = some t → t.Prepared token
  data : ∃ bytes, ClientSends token bytes ∧ d.data = received bytes

theorem Transfers.Prepared.length_packetAt {t : Transfers} (h : t.Prepared token)
    (htoken : token.length = 40) (F : Bytes) (o : ℕ) :
    (packetAt t F o).serializeToString.length ≤ maxPacketSize := by
  rw [packetAt]
  split
  · have hpayload : ((F.drop o).take payloadSize).length ≤ payloadSize := List.length_take_le _ _
    have hdata := length_data_le htoken (UInt64.ofNat o) hpayload
    rw [chunkAt, h.id]
    calc _ ≤ ((F.drop o).take payloadSize).length + headerSize := hdata
      _ ≤ payloadSize + headerSize := Nat.add_le_add_right hpayload _
      _ = maxPacketSize := rfl
  · obtain ⟨sha, content, hhash⟩ := h.fileHash
    rw [Crypto.computeFileHash_opened] at hhash
    have hdone := length_done htoken t.fileSize (sha.digest content)
    rw [doneOf, h.id, ← Option.some.inj hhash]
    exact Nat.le_trans hdone (by decide)

/-- A hole punch is no packet of either kind. -/
theorem parse_punch : HandshakePacket.parseFromString (received (text "PUNCH")) = none ∧
    ControlPacket.parseFromString (received (text "PUNCH")) = none := by decide

section Read

variable {bytes : Bytes} (h : ClientSends token bytes)

include h

/-- The hello an honest datagram can be accepted as is the client's. -/
theorem ClientSends.hello_of_parse {hello : ClientHello}
    (hparse : HandshakePacket.parseFromString (received bytes) = some (.clientHello hello))
    (hversion : hello.version = protocolVersion1) :
    hello.transferId = token ∧ hello.token = token := by
  cases h with
  | punch =>
    rw [parse_punch.1] at hparse
    cases hparse
  | hello henv =>
    rw [parse_received_clientHello] at hparse
    obtain ⟨-, heq⟩ := Option.ite_none_right_eq_some.mp hparse
    cases heq
    exact ⟨rfl, rfl⟩
  | get =>
    rw [received, parse_get_as_handshake _ (by decide) (by decide)] at hparse
    obtain ⟨-, heq⟩ := Option.ite_none_right_eq_some.mp hparse
    cases heq
    exact absurd hversion (by decide)
  | ack nextOffset =>
    rw [received, parse_ack_as_handshake _ (by decide) (by decide)] at hparse
    obtain ⟨-, heq⟩ := Option.ite_none_right_eq_some.mp hparse
    cases heq

/-- The request an honest datagram is taken for asks for the transfer, or for none by name. -/
theorem ClientSends.get_of_parse {get : GetRequest}
    (hparse : ControlPacket.parseFromString (received bytes) = some (.get get)) :
    get.transferId = token ∨ get.transferId = [] := by
  cases h with
  | punch =>
    rw [parse_punch.2] at hparse
    cases hparse
  | hello henv =>
    rw [received, parse_clientHello_as_control _ (by decide) (by decide)] at hparse
    obtain ⟨-, heq⟩ := Option.ite_none_right_eq_some.mp hparse
    cases heq
    exact Or.inr rfl
  | get =>
    rw [ControlPacket.parse_received] at hparse
    obtain ⟨-, heq⟩ := Option.ite_none_right_eq_some.mp hparse
    cases heq
    exact Or.inl rfl
  | ack nextOffset =>
    rw [ControlPacket.parse_received] at hparse
    obtain ⟨-, heq⟩ := Option.ite_none_right_eq_some.mp hparse
    cases heq

end Read

namespace Session

variable {s : Session} {d : Delivery}

/-- What a session that waits for a hello sends: one of its errors, or the answer to the hello. -/
theorem output_waitingHello (hstate : s.mState = .waitingHello) :
    ∀ g ∈ (s.step d).2, (∃ m ∈ handshakeErrors,
        g.bytes = (HandshakePacket.error m).serializeToString) ∨
      ∃ hello, HandshakePacket.parseFromString d.data = some (.clientHello hello) ∧
        hello.version = protocolVersion1 ∧
        g.bytes = (HandshakePacket.serverHello (serverHello d.env hello)).serializeToString := by
  intro g hg
  simp only [step, handlePacket, hstate, handleHandshakePacket] at hg
  split at hg
  · simp at hg
  · rename_i hello hparse
    split_ifs at hg with hversion hempty
    · obtain rfl := List.mem_singleton.mp hg
      exact Or.inl ⟨_, List.mem_cons_self, rfl⟩
    · obtain rfl := List.mem_singleton.mp hg
      exact Or.inl ⟨_, by simp [handshakeErrors], rfl⟩
    · rw [validateToken] at hg
      cases hrow : d.env.getTransferMetadata hello.token with
      | none =>
        simp only [hrow] at hg
        obtain rfl := List.mem_singleton.mp hg
        exact Or.inl ⟨_, by simp [handshakeErrors], rfl⟩
      | some t =>
        simp only [hrow] at hg
        obtain rfl := List.mem_singleton.mp hg
        exact Or.inr ⟨hello, hparse, not_not.mp hversion, rfl⟩
  · obtain rfl := List.mem_singleton.mp hg
    exact Or.inl ⟨_, by simp [handshakeErrors], rfl⟩

/-- The error a request meets when the file cannot be opened. -/
theorem output_get_closed (hstate : s.mState = .authenticated) {get : GetRequest}
    (hparse : ControlPacket.parseFromString d.data = some (.get get))
    (hfile : d.env.files s.mFilePath = none) :
    (s.step d).2 = [⟨s.mRemoteEndpoint, (ControlPacket.error
      { transferId := get.transferId
        code := ErrorCode.transferNotFound
        message := text "Failed to open file" }).serializeToString⟩] := by
  rw [s.step_control (Or.inl hstate)]
  simp only [handleControlPacket, hparse, handleGetRequest, hstate, if_true, Env.openFile, hfile]
  rfl

/-- **One step.** Everything a session of the transfer sends on an honest datagram fits. -/
theorem length_output (htoken : token.length = 40) {path : Bytes}
    (hinv : s.Inv (fun _ => True) path) (hmeta : s.Established → s.mTransferMetadata.Prepared token)
    (hd : d.Honest token) : ∀ g ∈ (s.step d).2, g.bytes.length ≤ maxPacketSize := by
  obtain ⟨bytes, hbytes, hdata⟩ := hd.data
  intro g hg
  cases hstate : s.mState with
  | waitingHello =>
    rcases output_waitingHello hstate g hg with ⟨m, hm, heq⟩ | ⟨hello, hparse, hversion, heq⟩
    · rw [heq]
      exact Nat.le_trans (length_handshakeError m hm) (by decide)
    · rw [hdata] at hparse
      obtain ⟨hid, -⟩ := hbytes.hello_of_parse hparse hversion
      rw [heq]
      exact Nat.le_trans (length_serverHello hd.sized (hid ▸ htoken)) (by decide)
  | authenticated =>
    have hprepared := hmeta (Or.inl hstate)
    rcases step_authenticated hstate (hinv.offset_zero (Or.inr hstate)) d with
      ⟨-, heq⟩ | ⟨e, -, heq⟩ | ⟨get, m, hparse, hfile, -⟩ | ⟨get, file, F, -, -, -, heq⟩
    · simp [heq] at hg
    · simp [heq] at hg
    · rw [output_get_closed hstate hparse hfile] at hg
      obtain rfl := List.mem_singleton.mp hg
      rw [hdata] at hparse
      exact Nat.le_trans (length_controlError (hbytes.get_of_parse hparse) htoken)
        (by decide)
    · rw [heq] at hg
      obtain rfl := List.mem_singleton.mp hg
      exact hprepared.length_packetAt htoken F.bytes 0
  | transferring =>
    have hprepared := hmeta (Or.inr hstate)
    obtain ⟨F, -, hlock⟩ := hinv.lockstep hstate
    rcases step_transferring hstate hlock F.length_lt d with
      ⟨-, heq⟩ | ⟨-, heq⟩ | ⟨ack, file, -, -, -, -, heq⟩ | ⟨-, heq⟩ <;> rw [heq] at hg
    · simp at hg
    · obtain rfl := List.mem_singleton.mp hg
      rw [hlock.cache]
      exact hprepared.length_packetAt htoken F.bytes _
    · obtain rfl := List.mem_singleton.mp hg
      exact hprepared.length_packetAt htoken F.bytes _
    · simp at hg
  | closed =>
    rw [step_closed hstate] at hg
    simp at hg

/-- **A run.** Everything the session sends to honest clients fits. -/
theorem length_outputs (htoken : token.length = 40) (remote : Endpoint) (path : Bytes)
    {ds : List Delivery} (hds : ∀ d ∈ ds, d.Honest token) :
    ∀ g ∈ Machine.outputs Session.step (fresh remote path) ds, g.bytes.length ≤ maxPacketSize := by
  intro g hg
  obtain ⟨e, he, hge⟩ := List.mem_flatMap.mp hg
  obtain ⟨hstep, hinput⟩ := Machine.step_of_mem_trace he
  obtain ⟨pre, post, rfl, hbefore⟩ := Machine.exists_split_of_mem_trace he
  have hout : (e.before.step e.input).2 = e.output := by rw [hstep]
  refine length_output htoken (hbefore ▸ inv_any remote path pre) ?_ (hds _ hinput) g (hout ▸ hge)
  -- the row of an established session is the one of the hello it accepted
  intro hestablished
  rw [hbefore] at hestablished ⊢
  obtain ⟨e', he', hello, -, ⟨hparse, hversion, -⟩, hrow, -⟩ :=
    accepted_of_established pre hestablished
  have hhonest := hds e'.input (List.mem_append_left _ (Machine.step_of_mem_trace he').2)
  obtain ⟨bytes, hbytes, hdata⟩ := hhonest.data
  rw [hdata] at hparse
  rw [(hbytes.hello_of_parse hparse hversion).2] at hrow
  exact hhonest.registered _ hrow

end Session

/-! ### No datagram is cut -/

/-- The datagram fits into a receive buffer, and arrives whole. -/
def Fits (bytes : Bytes) : Prop := bytes.length ≤ maxPacketSize ∧ received bytes = bytes

theorem fits_of_length_le {bytes : Bytes} (h : bytes.length ≤ maxPacketSize) : Fits bytes :=
  ⟨h, List.take_of_length_le h⟩

/-- **Every datagram of a transfer fits.** The token is one of `generate_uuid_token`. Whatever the
client receives, and in whatever order the client's datagrams reach the session, nothing either of
them sends is cut; and a chunk takes up at most `HEADER_SIZE` bytes more than its payload. -/
theorem datagrams_fit (r₀ r₁ r₂ r₃ r₄ r₅ : UInt32) (token : Bytes)
    (hgenerated : token = generateUuidToken r₀ r₁ r₂ r₃ r₄ r₅) :
    (∀ bytes, ClientSends token bytes → Fits bytes) ∧
      (∀ env : Env, env.Sized → ClientSends token
        (HandshakePacket.clientHello (clientHello env token)).serializeToString) ∧
      (∀ (args : ReceiveArgs) (sha : Sha256) (os : List Outcome), args.transferId = token →
        ClientSends token args.getBytes ∧
          ∀ g ∈ Machine.outputs (Client.step args sha) Client.start os,
            ClientSends token g.bytes) ∧
      (∀ (remote : Endpoint) (path : Bytes) (ds : List Delivery), (∀ d ∈ ds, d.Honest token) →
        ∀ g ∈ Machine.outputs Session.step (Session.fresh remote path) ds, Fits g.bytes) ∧
      ∀ (offset : UInt64) (payload : Bytes), payload.length ≤ payloadSize →
        (ControlPacket.data
          { transferId := token
            offset := offset
            payload := payload }).serializeToString.length ≤ payload.length + headerSize := by
  have htoken : token.length = 40 := by
    rw [hgenerated]
    exact length_generateUuidToken r₀ r₁ r₂ r₃ r₄ r₅
  refine ⟨?_, ?_, ?_, ?_, ?_⟩
  · intro bytes hbytes
    exact fits_of_length_le (hbytes.length_le htoken)
  · intro env henv
    exact .hello henv
  · intro args sha os hid
    constructor
    · rw [ReceiveArgs.getBytes, hid]
      exact .get
    · intro g hg
      obtain ⟨e, he, hge⟩ := List.mem_flatMap.mp hg
      have hout : (e.before.step args sha e.input).2 = e.output := by
        rw [(Machine.step_of_mem_trace he).1]
      exact Client.clientSends hid e.before e.input g (hout ▸ hge)
  · intro remote path ds hds g hg
    exact fits_of_length_le (Session.length_outputs htoken remote path hds g hg)
  · intro offset payload hpayload
    exact length_data_le htoken offset hpayload

/-- The token of `rnd32` results `1` to `6`. -/
def sampleUuidToken : Bytes := generateUuidToken 1 2 3 4 5 6

/-- Keys, nonces and signatures of the right sizes, and the row of the token. -/
def sampleSizedEnv : Env where
  getTransferMetadata := fun token =>
    if token = sampleUuidToken then
      some { id := token, fileSize := 1, token := token
             fileHash := Crypto.hexLower (sampleSha.digest sampleFile.bytes) }
    else none
  files := fun _ => some sampleFile
  generateIdentityKeypair := ⟨List.replicate 32 1, List.replicate 64 2⟩
  generateEphemeralKeypair := ⟨List.replicate 32 3, List.replicate 32 4⟩
  randomNonce := fun n => List.replicate n 5
  sign := fun _ _ => List.replicate 64 6

theorem sampleSizedEnv_sized : sampleSizedEnv.Sized :=
  ⟨rfl, rfl, fun _ => List.length_replicate, fun _ _ => rfl⟩

theorem sampleSizedEnv_registered (t : Transfers)
    (h : sampleSizedEnv.getTransferMetadata sampleUuidToken = some t) :
    t.Prepared sampleUuidToken := by
  simp only [sampleSizedEnv, if_true, Option.some.injEq] at h
  rw [← h]
  exact ⟨rfl, ⟨sampleSha, sampleFile.bytes, Crypto.computeFileHash_opened _⟩, rfl⟩

/-- The hello of a receiver whose keys have the right sizes. -/
def sampleSizedHello : Bytes :=
  (HandshakePacket.clientHello (clientHello sampleSizedEnv sampleUuidToken)).serializeToString

theorem datagrams_fit_sample :
    Fits sampleSizedHello ∧
      ∀ g ∈ Machine.outputs Session.step (Session.fresh samplePeer samplePath)
          [⟨sampleSizedEnv, received sampleSizedHello, sampleSender⟩,
            ⟨sampleSizedEnv, received (buildGetRequest sampleUuidToken), sampleSender⟩],
        Fits g.bytes := by
  have h := datagrams_fit 1 2 3 4 5 6 sampleUuidToken rfl
  have hhello : ClientSends sampleUuidToken sampleSizedHello :=
    h.2.1 sampleSizedEnv sampleSizedEnv_sized
  refine ⟨h.1 _ hhello, h.2.2.2.1 _ _ _ ?_⟩
  intro d hd
  rcases List.mem_cons.mp hd with rfl | hd
  · exact ⟨sampleSizedEnv_sized, sampleSizedEnv_registered, _, hhello, rfl⟩
  · obtain rfl := List.mem_singleton.mp hd
    exact ⟨sampleSizedEnv_sized, sampleSizedEnv_registered, _, .get, rfl⟩

end Zapshare
