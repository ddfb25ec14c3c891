import Zapshare.Handshake
import Zapshare.Lib.Machine
import Zapshare.Lib.Stream

/-!
# The sender's session

`session.hpp`: the state machine that answers one receiver. Every handler of the source is a
function from a session to the session after it and the datagrams it sent, in the source's order
of checks.

## The surroundings

What a handler consults outside the session is an `Env`: the central server's answer for a token,
the files of the sender, the random keys and nonce of the handshake, and libsodium's signature. A
run of the session may meet another `Env` at every datagram. A throw inside
`get_transfer_metadata`, which `validate_token` catches, is `none`; sending does not fail.

`m_chunk_buffer` is not part of the state: only what the last `read` filled in is ever used.

## Main definitions

* `Env`, `Session` — the surroundings, and the members of the class
* `Session.handleHandshakePacket`, `Session.handleGetRequest`, `Session.handleAck` — the handlers
* `Session.sendNextChunk`, `Session.resendCurrentChunk` — what they answer a receiver with
* `Session.step`, `Session.receive` — one call of `handle_packet`, and one datagram
-/

namespace Zapshare

open Wire Stream

/-- How far the session is. -/
inductive State
  | waitingHello
  | authenticated
  | transferring
  | closed
  deriving DecidableEq, Repr

/-- A long-term key pair, which signs. -/
structure IdentityKeyPair where
  publicKey : Bytes
  privateKey : Bytes

/-- A key pair of one handshake. -/
structure EphemeralKeyPair where
  publicKey : Bytes
  privateKey : Bytes

/-- What the handlers consult outside the session. -/
structure Env where
  getTransferMetadata : Bytes → Option Transfers
  files : Bytes → Option FileContent
  generateIdentityKeypair : IdentityKeyPair
  generateEphemeralKeypair : EphemeralKeyPair
  randomNonce : ℕ → Bytes
  sign : Bytes → IdentityKeyPair → Bytes

/-- `std::ifstream(path, binary)`. -/
def Env.openFile (env : Env) (path : Bytes) : IfStream UInt8 :=
  match env.files path with
  | none => .closed
  | some file => .opened file.bytes

/-- `Session`, with the members of the source. -/
structure Session where
  mRemoteEndpoint : Endpoint
  mFilePath : Bytes
  mState : State := .waitingHello
  mFile : IfStream UInt8 := .closed
  mFileId : Bytes := []
  mOffset : ℕ := 0
  mLastChunkSize : ℕ := 0
  mLastChunkDone : Bool := false
  mLastPacketCache : Bytes := []
  mTransferMetadata : Transfers := {}
  deriving DecidableEq, Repr

/-- `std::to_string` of an `int`. -/
def toDecimal (i : Int32) : Bytes := text (toString i.toInt)

/-- The bytes `sign_server_hello` signs. -/
def serverHelloTranscript (hello : ServerHello) : Bytes :=
  let identity := hello.senderIdentity.getD {}
  text "server_hello" ++ toDecimal hello.version ++ hello.transferId ++ hello.senderNonce ++
    identity.longTermPublicKey ++ identity.ephemeralPublicKey

/-- `sign_server_hello`. -/
def signServerHello (env : Env) (hello : ServerHello) (senderIdentity : IdentityKeyPair) : Bytes :=
  env.sign (serverHelloTranscript hello) senderIdentity

namespace Session

/-! ### Sending -/

/-- `send_message`: everything goes to the remote endpoint. -/
def sendMessage (s : Session) (msg : Bytes) : List Datagram := [⟨s.mRemoteEndpoint, msg⟩]

/-- `send_handshake_packet`. -/
def sendHandshakePacket (s : Session) (packet : HandshakePacket) : List Datagram :=
  s.sendMessage packet.serializeToString

/-- `send_control_packet`. -/
def sendControlPacket (s : Session) (packet : ControlPacket) : List Datagram :=
  s.sendMessage packet.serializeToString

/-- `send_handshake_error`. -/
def sendHandshakeError (s : Session) (code : ErrorCode) (message : Bytes) : List Datagram :=
  s.sendHandshakePacket (.error { code := code, message := message })

/-- `send_control_error`. -/
def sendControlError (s : Session) (transferId : Bytes) (code : ErrorCode) (message : Bytes) :
    List Datagram :=
  s.sendControlPacket (.error { transferId := transferId, code := code, message := message })

/-! ### The handshake -/

/-- `validate_token`, which keeps what the central server answers for the token. -/
def validateToken (env : Env) (s : Session) (token : Bytes) : Session × Bool :=
  match env.getTransferMetadata token with
  | some t => ({ s with mTransferMetadata := t }, true)
  | none => (s, false)

/-- The answer to a hello, with the sender's fresh keys and nonce. -/
def serverHello (env : Env) (hello : ClientHello) : ServerHello :=
  let serverIdentity := env.generateIdentityKeypair
  let serverEphemeral := env.generateEphemeralKeypair
  let identity : PeerIdentity :=
    { longTermPublicKey := serverIdentity.publicKey
      ephemeralPublicKey := serverEphemeral.publicKey }
  let answer : ServerHello :=
    { version := protocolVersion1
      transferId := hello.transferId
      senderNonce := env.randomNonce 32
      senderIdentity := some identity }
  { answer with senderSignature := signServerHello env answer serverIdentity }

/-- `handle_handshake_packet`. -/
def handleHandshakePacket (env : Env) (s : Session) (data : Bytes) : Session × List Datagram :=
  match HandshakePacket.parseFromString data with
  | none => (s, [])
  | some (.clientHello hello) =>
    if hello.version ≠ protocolVersion1 then
      ({ s with mState := .closed },
        s.sendHandshakeError ErrorCode.badPacket (text "Unsupported protocol version"))
    else if hello.token = [] then
      ({ s with mState := .closed },
        s.sendHandshakeError ErrorCode.invalidToken (text "Missing Token!"))
    else
      match s.validateToken env hello.token with
      | (s, false) =>
        ({ s with mState := .closed },
          s.sendHandshakeError ErrorCode.invalidToken (text "Invalid Token"))
      | (s, true) =>
        ({ s with mState := .authenticated },
          s.sendHandshakePacket (.serverHello (serverHello env hello)))
  | some _ => (s, s.sendHandshakeError ErrorCode.badPacket (text "Expected client hello!"))

/-! ### The transfer -/

/-- The packet announcing the end of the file. -/
def donePacket (s : Session) : ControlPacket :=
  .done
    { transferId := s.mTransferMetadata.id
      finalSize := s.mTransferMetadata.fileSize
      fileHash := s.mTransferMetadata.fileHash }

/-- The packet carrying `payload`, which was read at `m_offset`. -/
def dataPacket (s : Session) (payload : Bytes) : ControlPacket :=
  .data
    { transferId := s.mTransferMetadata.id
      offset := UInt64.ofNat s.mOffset
      payload := payload }

/-- `send_next_chunk`: the chunk at `m_offset`, or the end of the file. What is sent is cached. -/
def sendNextChunk (s : Session) : Session × List Datagram :=
  if !s.mFile.isOpen then (s, [])
  else
    let (buffer, file) := (s.mFile.seekg s.mOffset).read UdpConfig.payloadSize
    let s := { s with mFile := file }
    if file.gcount = 0 then
      let bytes := s.donePacket.serializeToString
      ({ s with mLastPacketCache := bytes, mLastChunkDone := true, mLastChunkSize := 0 },
        s.sendMessage bytes)
    else
      let bytes := (s.dataPacket buffer).serializeToString
      ({ s with
          mLastChunkSize := file.gcount, mLastChunkDone := false, mLastPacketCache := bytes },
        s.sendMessage bytes)

/-- `resend_current_chunk`, from the cache. -/
def resendCurrentChunk (s : Session) : Session × List Datagram :=
  if s.mLastPacketCache = [] then s.sendNextChunk else (s, s.sendMessage s.mLastPacketCache)

/-- The name `handle_get_request` files the transfer under. -/
def fileId (s : Session) : Bytes :=
  if s.mTransferMetadata.id = [] then s.mTransferMetadata.fileName else s.mTransferMetadata.id

/-- `handle_get_request`: the transfer starts, or the current packet is sent again. -/
def handleGetRequest (env : Env) (s : Session) (get : GetRequest) : Session × List Datagram :=
  if s.mState = .authenticated then
    let s := { s with mFileId := s.fileId, mFile := env.openFile s.mFilePath }
    if !s.mFile.isOpen then
      ({ s with mState := .closed },
        s.sendControlError get.transferId ErrorCode.transferNotFound (text "Failed to open file"))
    else sendNextChunk { s with mState := .transferring }
  else if s.mState = .transferring then s.resendCurrentChunk
  else (s, [])

/-- `handle_ack`: the end of the current chunk goes on, its start asks for it again. -/
def handleAck (s : Session) (ack : Ack) : Session × List Datagram :=
  if s.mState ≠ .transferring then (s, [])
  else
    let ackOffset := ack.nextOffset.toNat
    let expectedOffset := (s.mOffset + s.mLastChunkSize) % 2 ^ 64
    if ackOffset = expectedOffset then
      if s.mLastChunkDone then ({ s with mState := .closed }, [])
      else sendNextChunk { s with mOffset := expectedOffset }
    else if ackOffset = s.mOffset then s.resendCurrentChunk
    else (s, [])

/-- `handle_control_packet`. -/
def handleControlPacket (env : Env) (s : Session) (data : Bytes) : Session × List Datagram :=
  match ControlPacket.parseFromString data with
  | some (.get get) => s.handleGetRequest env get
  | some (.ack ack) => s.handleAck ack
  | some (.error _) => ({ s with mState := .closed }, [])
  | _ => (s, [])

/-- `handle_packet`. While the hello is awaited, whoever sends is taken for the receiver. -/
def handlePacket (env : Env) (s : Session) (data : Bytes) (sender : Endpoint) :
    Session × List Datagram :=
  match s.mState with
  | .closed => (s, [])
  | .waitingHello => handleHandshakePacket env { s with mRemoteEndpoint := sender } data
  | .authenticated => s.handleControlPacket env data
  | .transferring => s.handleControlPacket env data

end Session

/-! ### The session as a machine -/

/-- One call of `handle_packet`: what it is given, and what it meets. -/
structure Delivery where
  env : Env
  data : Bytes
  sender : Endpoint

/-- One step of the session. -/
def Session.step (s : Session) (d : Delivery) : Session × List Datagram :=
  s.handlePacket d.env d.data d.sender

/-- What happened at one datagram of a run of the session. -/
abbrev SessionEntry := Machine.Entry Session Delivery Datagram

/-- `Server::do_receive` around one datagram: the receive buffer may cut it, and an empty one is
not handed on. -/
def Session.receive (env : Env) (s : Session) (datagram : Bytes) (sender : Endpoint) :
    Session × List Datagram :=
  let data := received datagram
  if data = [] then (s, []) else s.handlePacket env data sender

/-- `Server::run`: the session is created for the signalled peer and the path of the file. The
transfer id only served to poll for the peer, and does not reach the session. -/
def Server.run (pollForSignal : Bytes → Endpoint) (filePath transferId : Bytes) : Session :=
  { mRemoteEndpoint := pollForSignal transferId, mFilePath := filePath }

end Zapshare
