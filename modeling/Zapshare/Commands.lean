import Zapshare.Conversation
import Zapshare.Stun

/-!
# The two commands

`zapshare send` as far as the registration, and `zapshare get` to its end, with the central server
between them. Whatever reaches the receiver's socket, and whatever else is asked of the server in
the meantime: the file that a successful `get` leaves has the hash of the file that was sent.

## Scope

What the two commands find around them is data here: the files and addresses are the fields of a
`Sending` and of the `Surroundings`, and the datagrams that arrive are a `Reception`, an outcome for
each `recv_with_timeout`. The central server runs on in between, on any events that do not register
anything under the id again. `send` goes on to serve the file. What the session does then is in
`Zapshare.Session`, and is not needed here: `get` trusts the hash and nothing else.

## Main definitions

* `Sending`, `sendTransfer` — what `send` knows, and what it registers
* `Reception`, `sessionAfter`, `getAfter` — what reaches `get`, and how far that takes it
* `Leaves` — the events that leave what was registered alone
* `Client.Verified` — the output has the hash that was asked for

## Main results

* `storable_sendTransfer` — what `send` registers can be stored and asked for
* `runClientSession_opens_iff` — `get` opens its output when it enters `receive_file`
* `get_integrity` — a successful `get` has the hash of the file that was sent
-/

namespace Zapshare

open Wire UdpConfig Utils Machine

/-! ### `zapshare send` -/

/-- `std::filesystem::path::filename`. -/
def filename (path : Bytes) : Bytes := (path.reverse.takeWhile (· ≠ 47)).reverse

/-- What `zapshare send` meets on its way to the registration. -/
structure Sending where
  /-- The files that exist and can be opened. -/
  files : Bytes → Option FileContent
  rng : Rng32
  /-- What `std::random_device` returns. -/
  rd : UInt32
  /-- What `get_public_endpoint` receives; `none` when it throws before that. -/
  stun : Option StunBuffer
  localPort : UInt16
  /-- The address in `get_local_ip_address`; `none` when it throws. -/
  localAddress : Option UInt32

/-- The `try` around `get_public_endpoint`, which asks for the local address as well. -/
def senderIp (m : Sending) : Bytes :=
  match m.stun, m.localAddress with
  | some b, some a =>
    match (publicEndpoint (addressText a) m.localPort b).1 with
    | .ok publicEp => publicEp.ip
    | .error _ => text "127.0.0.1"
  | _, _ => text "127.0.0.1"

/-- The `transfer` that `send` registers, if it gets there. -/
def sendTransfer (sha : Sha256) (m : Sending) (filepath : Bytes) : Option Transfers := do
  let file ← m.files filepath
  let fileHash ← Crypto.computeFileHash sha (.opened file.bytes)
  let token := tokenOfSeed m.rng m.rd
  let localAddress ← m.localAddress
  return {
    id := token
    senderIp := senderIp m
    senderPort := 5173
    senderLocalIp := addressText localAddress
    senderLocalPort := 5173
    protocol := text "udp"
    fileName := filename filepath
    fileSize := UInt64.ofNat file.bytes.length
    fileHash := fileHash
    token := token }

/-! ### What is sent can be stored -/

/-- A text of digits and dots. -/
def Dotted (s : Bytes) : Prop := ∀ b ∈ s, isDigit b = true ∨ b = 46

theorem Dotted.append {s s' : Bytes} (h : Dotted s) (h' : Dotted s') : Dotted (s ++ s') :=
  fun b hb => (List.mem_append.mp hb).elim (h b) (h' b)

theorem Dotted.notMem {s : Bytes} (h : Dotted s) {b : UInt8} (hdigit : isDigit b = false)
    (hdot : b ≠ 46) : b ∉ s := by
  intro hb
  rcases h b hb with h | h
  · rw [hdigit] at h
    cases h
  · exact hdot h

theorem Dotted.utf8Valid {s : Bytes} (h : Dotted s) : utf8Valid s = true := by
  refine utf8Valid_of_ascii fun b hb => ?_
  rcases h b hb with h | rfl
  · exact lt_of_isDigit h
  · decide

theorem dotted_addressText (a : UInt32) : Dotted (addressText a) := by
  have hdecimal (n : ℕ) : Dotted (decimal n) := fun b hb => Or.inl (isDigit_of_mem_decimal n b hb)
  have hdot : Dotted (text ".") := fun b hb => Or.inr (List.mem_singleton.mp hb)
  have hfirst := ((hdecimal (a >>> 24).toNat).append hdot).append
    (hdecimal (a >>> 16 &&& 0xFF).toNat)
  exact (((hfirst.append hdot).append (hdecimal _)).append hdot).append (hdecimal _)

theorem dotted_senderIp (m : Sending) : Dotted (senderIp m) := by
  have hloopback : Dotted (text "127.0.0.1") := dotted_addressText 0x7F000001
  rw [senderIp]
  split
  · rename_i b a _ _
    cases hfind : Tlv.find isXorMapped b.bytes b.n 20 with
    | some j =>
      rw [publicEndpoint_of_some hfind]
      exact dotted_addressText _
    | none =>
      rw [publicEndpoint_of_none hfind]
      exact hloopback
  · exact hloopback

theorem isSecretChar_hexDigit : ∀ d < 16, Http.isSecretChar (Crypto.hexDigit d) = true := by
  decide

theorem isSecretChar_hexField {w n : ℕ} : ∀ b ∈ hexField w n, Http.isSecretChar b = true := by
  intro b hb
  rcases List.mem_append.mp hb with hfill | hdigit
  · rw [List.eq_of_mem_replicate hfill]
    decide
  · obtain ⟨d, hd, rfl⟩ := List.mem_map.mp hdigit
    exact isSecretChar_hexDigit d (Nat.digits_lt_base (by decide) (List.mem_reverse.mp hd))

theorem exists_generateUuidToken (rng : Rng32) (rd : UInt32) :
    ∃ r₀ r₁ r₂ r₃ r₄ r₅, tokenOfSeed rng rd = generateUuidToken r₀ r₁ r₂ r₃ r₄ r₅ :=
  ⟨_, _, _, _, _, _, rfl⟩

/-- **A token can stand in a path.** -/
theorem routable_tokenOfSeed (rng : Rng32) (rd : UInt32) :
    Server.Routable (tokenOfSeed rng rd) := by
  obtain ⟨r₀, r₁, r₂, r₃, r₄, r₅, heq⟩ := exists_generateUuidToken rng rd
  have hlength := length_generateUuidToken r₀ r₁ r₂ r₃ r₄ r₅
  have hdash : ∀ b ∈ text "-", Http.isSecretChar b = true := by
    intro b hb
    obtain rfl : b = 45 := List.mem_singleton.mp hb
    decide
  rw [heq]
  refine ⟨List.ne_nil_of_length_pos (by omega), List.all_eq_true.mpr fun b hb => ?_, by omega⟩
  simp only [generateUuidToken, List.mem_append] at hb
  rcases hb with (((((((((hb | hb) | hb) | hb) | hb) | hb) | hb) | hb) | hb) | hb) <;>
    first
    | exact isSecretChar_hexField b hb
    | exact hdash b hb

theorem shortId_tokenOfSeed (rng : Rng32) (rd : UInt32) : ShortId (tokenOfSeed rng rd) := by
  obtain ⟨r₀, r₁, r₂, r₃, r₄, r₅, heq⟩ := exists_generateUuidToken rng rd
  rw [heq]
  exact shortId_generateUuidToken r₀ r₁ r₂ r₃ r₄ r₅

theorem zero_notMem_hexLower (hash : Vector UInt8 32) : 0 ∉ Crypto.hexLower hash := by
  have hdigit : ∀ d < 16, Crypto.hexDigit d ≠ 0 := by decide
  intro hzero
  obtain ⟨b, -, hb⟩ := List.mem_flatMap.mp hzero
  have hlt := b.toNat_lt
  rcases List.mem_cons.mp hb with hb | hb
  · exact hdigit _ (by omega) hb.symm
  · exact hdigit _ (by omega) (List.mem_singleton.mp hb).symm

variable {sha : Sha256} {m : Sending} {filepath : Bytes} {t : Transfers}

/-- What is registered is what was found. -/
theorem sendTransfer_eq_some (h : sendTransfer sha m filepath = some t) :
    ∃ file a, m.files filepath = some file ∧ m.localAddress = some a ∧
      t = { id := tokenOfSeed m.rng m.rd
            senderIp := senderIp m
            senderPort := 5173
            senderLocalIp := addressText a
            senderLocalPort := 5173
            protocol := text "udp"
            fileName := filename filepath
            fileSize := UInt64.ofNat file.bytes.length
            fileHash := Crypto.hexLower (sha.digest file.bytes)
            token := tokenOfSeed m.rng m.rd } := by
  simp only [sendTransfer, Crypto.computeFileHash_opened, Option.bind_eq_bind, Option.pure_def,
    Option.bind_some, Option.bind_eq_some_iff, Option.some.injEq] at h
  obtain ⟨file, hfile, a, ha, rfl⟩ := h
  exact ⟨file, a, hfile, ha, rfl⟩

/-- **What `send` registers can be stored**, if the name of the file can. -/
theorem storable_sendTransfer (h : sendTransfer sha m filepath = some t)
    (hname : utf8Valid (filename filepath) = true ∧ 0 ∉ filename filepath) : Storable t := by
  obtain ⟨file, a, -, -, rfl⟩ := sendTransfer_eq_some h
  have hrouted := routable_tokenOfSeed m.rng m.rd
  have htoken : utf8Valid (tokenOfSeed m.rng m.rd) = true ∧ 0 ∉ tokenOfSeed m.rng m.rd := by
    refine ⟨(shortId_tokenOfSeed m.rng m.rd).valid, fun hzero => ?_⟩
    exact absurd (List.all_eq_true.mp hrouted.chars 0 hzero) (by decide)
  have hip (s : Bytes) (hs : Dotted s) : utf8Valid s = true ∧ 0 ∉ s :=
    ⟨hs.utf8Valid, hs.notMem (by decide) (by decide)⟩
  have hsize : (UInt64.ofNat file.bytes.length).toNat = file.bytes.length :=
    UInt64.toNat_ofNat_of_lt (Nat.lt_trans file.length_lt (by decide))
  refine ⟨?_, (dotted_senderIp m).notMem (by decide) (by decide),
    (dotted_addressText a).notMem (by decide) (by decide),
    (by decide : (5173 : UInt32).toNat ≤ 65535), fun hnil => ?_,
    (by decide : (5173 : UInt32).toNat < 2 ^ 31), by rw [hsize]; exact file.length_lt⟩
  · simp only [List.forall_mem_cons]
    exact ⟨htoken, hip _ (dotted_senderIp m), hip _ (dotted_addressText a), by decide, hname,
      ⟨Crypto.utf8Valid_hexLower _, zero_notMem_hexLower _⟩, htoken, List.forall_mem_nil _⟩
  · simp [addressText, decimal_ne_nil] at hnil

/-! ### `zapshare get` -/

/-- What the receiver's socket meets, and the surroundings of its hello. -/
structure Reception where
  /-- `asio::ip::make_address`. -/
  makeAddress : Bytes → Option Bytes
  env : Env
  /-- What each `recv_with_timeout` has, from the first one of `perform_handshake` on. -/
  outcomes : ℕ → Outcome

namespace Reception

variable (r : Reception)

/-- Who has answered. -/
def connectedPeer (token : Bytes) (t : Transfers) : Option Endpoint := do
  let peers ← (buildPeerCandidates r.makeAddress t).toOption
  (performHandshake r.makeAddress r.env peers (senderEp t) token r.outcomes).1

/-- What the call needs to know. -/
def callArgs (token : Bytes) (t : Transfers) (peers : List Endpoint) : CallArgs where
  token := token
  peers := peers
  hello := (HandshakePacket.clientHello (clientHello r.env token)).serializeToString
  expectedHash := t.fileHash

end Reception

/-- `run_client_session`, in front of the `n`-th `recv_with_timeout`, if it gets as far as the
handshake. -/
def sessionAfter (platform : Platform) (sha : Sha256) (s : Server) (env : Surroundings)
    (r : Reception) (token : Bytes) (n : ℕ) : Option Caller := do
  let myEp ← env.endpoint
  let server ← signalReceiverEndpoint platform s token myEp
  let server := final (Server.step platform) server env.beforeSession
  let t ← (Utils.getTransferMetadata platform server env.sessionFaults token).2.toOption
  let peers ← (buildPeerCandidates r.makeAddress t).toOption
  return stateAt (Caller.step (r.callArgs token t peers) sha) .start r.outcomes n

/-- `zapshare get`, in front of the `n`-th `recv_with_timeout`. -/
def getAfter (platform : Platform) (sha : Sha256) (s : Server) (env : Surroundings) (r : Reception)
    (secret : Bytes) (n : ℕ) : Option Caller := do
  let peer := peerTransfer platform s env secret
  let _ ← peer.2
  sessionAfter platform sha peer.1 env r secret n

variable {platform : Platform} {s : Server} {env : Surroundings} {r : Reception} {token : Bytes}

/-- **The output is opened when `receive_file` is entered.** -/
theorem runClientSession_opens_iff (sha : Sha256) (outputFilename : Bytes) :
    runClientSession platform s { env with connectedPeer := r.connectedPeer token } token
        outputFilename = some (cString outputFilename) ↔
      ∃ n peer, sessionAfter platform sha s env r token n = some (.receiving peer .start) := by
  have hpeer (t : Transfers) (peers : List Endpoint) :
      (∃ peer, (performHandshake r.makeAddress r.env peers (senderEp t) token r.outcomes).1
        = some peer) ↔
      ∃ n peer, stateAt (Caller.step (r.callArgs token t peers) sha) .start r.outcomes n
        = .receiving peer .start := by
    constructor
    · rintro ⟨peer, hpeer⟩
      obtain ⟨n, -, -, hn, -⟩ := (@Caller.connected_iff (r.callArgs token t peers) r.outcomes
        r.makeAddress r.env (senderEp t) sha peer rfl).mp hpeer
      exact ⟨n + 1, peer, hn⟩
    · rintro ⟨n, peer, hn⟩
      obtain ⟨k, hk, -, hfirst⟩ := Caller.firstAnswer_of_receiving hn
      exact ⟨peer, (performHandshake_eq_some_iff r.makeAddress r.env (senderEp t)).mpr
        ⟨k, Nat.lt_of_le_of_lt hk (by decide), hfirst⟩⟩
  simp only [runClientSession, sessionAfter, Reception.connectedPeer, Option.bind_eq_bind,
    Option.bind_eq_some_iff, Option.pure_def, Option.some.injEq, and_true]
  constructor
  · rintro ⟨myEp, hep, server, hserver, t, ht, peer, peers, hpeers, hanswer⟩
    obtain ⟨n, peer, hn⟩ := (hpeer t peers).mp ⟨peer, hanswer⟩
    exact ⟨n, peer, myEp, hep, server, hserver, t, ht, peers, hpeers, hn⟩
  · rintro ⟨n, peer, myEp, hep, server, hserver, t, ht, peers, hpeers, hn⟩
    obtain ⟨peer, hanswer⟩ := (hpeer t peers).mpr ⟨n, peer, hn⟩
    exact ⟨myEp, hep, server, hserver, t, ht, peer, peers, hpeers, hanswer⟩

/-! ### A download that succeeds -/

/-- What `receive_file` has returned true for has the hash it expects. -/
def Client.Verified (args : ReceiveArgs) (sha : Sha256) (c : Client) : Prop :=
  c.returned = some true → Crypto.hexLower (sha.digest c.out.content) = args.expectedHash

theorem Client.Verified.step {args : ReceiveArgs} {c : Client} (h : c.Verified args sha)
    (o : Outcome) : (c.step args sha o).1.Verified args sha := by
  by_cases hreturned : c.returned = none
  case neg => rwa [step_returned hreturned]
  intro htrue
  simp only [Client.step, hreturned, ne_eq, not_true_eq_false, if_false] at htrue ⊢
  have htrue := whileCheck_returned_true htrue
  rw [whileCheck_out]
  cases o with
  | timeout =>
    simp only [iterate] at htrue
    split at htrue <;> simp [hreturned] at htrue
  | datagram sender rx =>
    simp only [iterate] at htrue ⊢
    split at htrue
    · simp [hreturned] at htrue
    rename_i hsender
    rw [if_neg hsender]
    rw [handlePacket] at htrue ⊢
    obtain ⟨p, hparse⟩ : ∃ p, ControlPacket.parseFromString rx = p := ⟨_, rfl⟩
    simp only [hparse] at htrue ⊢
    split at htrue
    · rename_i m
      rcases handleData_cases args { c with retries := 0 } m with
        ⟨-, heq⟩ | ⟨-, -, heq⟩ | ⟨-, -, heq⟩ <;> rw [heq] at htrue <;>
        simp [hreturned, wrote] at htrue
    · rename_i m
      rcases handleDone_cases args sha { c with retries := 0 } m with
        ⟨-, heq⟩ | ⟨-, -, -, heq⟩ | ⟨-, -, hhash, heq⟩ <;> rw [heq] at htrue
      · simp [hreturned] at htrue
      · simp at htrue
      · rw [heq]
        exact hhash
    · simp at htrue
    · simp [hreturned] at htrue

/-- **Nothing is taken for the file that has not its hash**, in any run of the receiver. -/
theorem Caller.verified {args : CallArgs} {turns n : ℕ} {outcomes : ℕ → Outcome} {peer : Endpoint}
    {c : Client}
    (hc : stateAt (Caller.step args sha) (.connecting turns) outcomes n = .receiving peer c) :
    c.Verified (args.receiveArgs peer) sha := by
  induction n generalizing c with
  | zero => cases hc
  | succ n ih =>
    rw [stateAt_succ] at hc
    cases hs : stateAt (Caller.step args sha) (.connecting turns) outcomes n with
    | connecting k =>
      rw [hs] at hc
      cases hanswer : answeredBy args.token (outcomes n) with
      | some peer' =>
        rw [Caller.step_answered hanswer] at hc
        obtain ⟨rfl, rfl⟩ := Caller.receiving.inj hc
        intro htrue
        cases htrue
      | none =>
        rcases @Caller.step_unanswered args sha k _ hanswer with ⟨-, heq⟩ | ⟨j, -, heq⟩ <;>
          rw [heq] at hc <;> cases hc
    | receiving peer' c' =>
      rw [hs] at hc
      obtain ⟨rfl, rfl⟩ := Caller.receiving.inj hc
      exact (ih hs).step (outcomes n)
    | failed =>
      rw [hs] at hc
      cases hc

/-! ### What the receiver is told -/

/-- What is returned for a transfer whose fields are stored is the transfer, if anything is. -/
theorem getTransferMetadata_eq_of_hasFields (hplatform : platform.Documented)
    (hempty : platform.parse [] = none) (ht : Storable t) (hid : Server.Routable t.id)
    (hfields : Utils.HasFields s t) {faults : ℕ → Bool} {t' : Transfers}
    (h : (Utils.getTransferMetadata platform s faults t.id).2 = .ok t') : t' = t := by
  cases hrunning : s.running with
  | false =>
    simp [Utils.getTransferMetadata, clientGet, Server.step, hrunning, metadataOfResponse, orThrow,
      bind, Except.bind] at h
  | true =>
    rcases @Server.step_getfile platform s (getCall platform faults (text "/getfile/" ++ t.id))
        hrunning t.id (Server.routed_getfile hid) with
      ⟨-, hclear, -, -⟩ | ⟨table, -, -, hstep⟩
    · have hfaults : ∀ i < 6, faults i = false := hclear
      rw [getTransferMetadata_of_hasFields hplatform ht hid hrunning hfields hfaults] at h
      exact (Except.ok.inj h).symm
    · -- an operation on the database has thrown, and the body is empty
      rw [Utils.getTransferMetadata, clientGet_of_step hstep,
        metadataOfResponse_of_not_parse hempty] at h
      cases h

/-- A request that is not posted registers nothing. -/
theorem routed_ne_register {request : Request} (h : request.method = .get) :
    Server.routed request ≠ some .register := by
  rw [Server.routed]
  split
  · simp
  · rw [route, h]
    simp only [ne_eq, Option.or_eq_some_iff, Option.map_eq_some_iff, reduceCtorEq, and_false,
      exists_false, false_or]
    split <;> simp

/-- Nobody registers anything under `id`. -/
def Leaves (platform : Platform) (id : Bytes) (events : List ServerEvent) : Prop :=
  ∀ call, .call call ∈ events → Server.routed call.request = some .register →
    ∀ row, Server.postedRow platform call.request.body call.now = some row → row.id ≠ id

theorem hasFields_leaves {events : List ServerEvent} (h : Utils.HasFields s t)
    (hleaves : Leaves platform t.id events) :
    Utils.HasFields (final (Server.step platform) s events) t := by
  rw [Utils.HasFields, Server.fields_final]
  · exact h
  rintro e he row ⟨call, hinput, hroute, -, hrow⟩
  exact hleaves call (hinput ▸ (step_of_mem_trace he).2) hroute row hrow

/-- What is asked for stays. -/
theorem hasFields_clientGet {faults : ℕ → Bool} {url : Bytes} (h : Utils.HasFields s t) :
    Utils.HasFields (clientGet platform s faults url).1 t := by
  rw [Utils.HasFields, clientGet, Server.step_fields]
  · exact h
  rintro row ⟨call, hinput, hroute, -⟩
  obtain rfl := ServerEvent.call.inj hinput
  exact absurd hroute (routed_ne_register rfl)

theorem hasFields_peerTransfer {secret : Bytes} (h : Utils.HasFields s t)
    (hleaves : Leaves platform t.id env.beforeMetadata) :
    Utils.HasFields (peerTransfer platform s env secret).1 t := by
  have hfound : Utils.HasFields (lookUp platform s env.lookUpFaults secret).1 t :=
    hasFields_clientGet h
  rw [peerTransfer]
  split
  · exact hasFields_clientGet (hasFields_leaves hfound hleaves)
  · exact hfound

theorem hasFields_signalled {s' : Server} {id : Bytes} {endpoint : PublicEndpoint}
    (h : Utils.HasFields s t) (hsignal : signalReceiverEndpoint platform s id endpoint = some s') :
    Utils.HasFields s' t := by
  rw [Utils.HasFields, (signalReceiverEndpoint_table hsignal).1]
  exact h

/-- **What `receive_file` expects is what was registered.** -/
theorem exists_callArgs (hplatform : platform.Documented) (hempty : platform.parse [] = none)
    (ht : Storable t) (hid : Server.Routable t.id) (hfields : Utils.HasFields s t)
    (hbefore : Leaves platform t.id env.beforeMetadata)
    (hsession : Leaves platform t.id env.beforeSession) {n : ℕ} {caller : Caller}
    (hget : getAfter platform sha s env r t.id n = some caller) :
    ∃ peers, stateAt (Caller.step (r.callArgs t.id t peers) sha) .start r.outcomes n = caller := by
  simp only [getAfter, sessionAfter, Option.bind_eq_bind, Option.bind_eq_some_iff, Option.pure_def,
    Option.some.injEq] at hget
  obtain ⟨-, -, myEp, -, server, hserver, t', ht', peers, -, hcaller⟩ := hget
  have hserverFields := hasFields_signalled (hasFields_peerTransfer hfields hbefore) hserver
  have hsessionFields := hasFields_leaves hserverFields hsession
  cases hmetadata : (Utils.getTransferMetadata platform
      (final (Server.step platform) server env.beforeSession) env.sessionFaults t.id).2 with
  | error e => simp [hmetadata, Except.toOption] at ht'
  | ok t'' =>
    obtain rfl : t'' = t' := by simpa [hmetadata, Except.toOption] using ht'
    obtain rfl := getTransferMetadata_eq_of_hasFields hplatform hempty ht hid hsessionFields
      hmetadata
    exact ⟨peers, hcaller⟩

/-- **A download is the file that was sent.** A transfer that `send` made was registered last under
its id, and nobody registers another one there during the download. Whatever else is asked of the
server, whoever answers the receiver and whatever else reaches its socket: when `get` succeeds, the
output has the SHA-256 of the file that was sent. -/
theorem get_integrity (hplatform : platform.Documented) (hempty : platform.parse [] = none)
    {file : FileContent} (hfile : m.files filepath = some file)
    (hname : utf8Valid (filename filepath) = true ∧ 0 ∉ filename filepath)
    (hsent : sendTransfer sha m filepath = some t) {events : List ServerEvent}
    (hlast : LastRegistered platform s events t)
    (hbefore : Leaves platform t.id env.beforeMetadata)
    (hsession : Leaves platform t.id env.beforeSession) {n : ℕ} {peer : Endpoint} {c : Client}
    (hget : getAfter platform sha (final (Server.step platform) s events) env r t.id n
      = some (.receiving peer c))
    (hreturned : c.returned = some true) :
    sha.digest c.out.content = sha.digest file.bytes := by
  have hstorable := storable_sendTransfer hsent hname
  obtain ⟨file', a, hfile', -, rfl⟩ := sendTransfer_eq_some hsent
  obtain rfl : file = file' := Option.some.inj (hfile.symm.trans hfile')
  obtain ⟨peers, hcaller⟩ := exists_callArgs hplatform hempty hstorable
    (routable_tokenOfSeed m.rng m.rd) (hasFields_final hplatform hstorable hlast) hbefore hsession
    hget
  exact Crypto.hexLower_injective (Caller.verified hcaller hreturned)

/-! ### A sample download -/

/-- A registration that meets no fault is the last one. -/
theorem exists_lastRegistered (hplatform : platform.Documented) (ht : Storable t) :
    ∃ call, LastRegistered platform .fresh [.call call] t ∧
      (final (Server.step platform) .fresh [.call call]).running = true := by
  obtain ⟨body, -, hdump, -⟩ := hplatform.parse_dump (registration t) (flat_registration ht)
  have hrequest : registerTransfer platform t
      = some (Http.postRequest platform (text "/register") body) := by
    rw [registerTransfer, hdump, Option.map_some]
  let call : Call := { request := Http.postRequest platform (text "/register") body }
  have hstep := @step_registerTransfer platform t .fresh hplatform ht call hrequest rfl
  have hclear : (Server.fresh.connection call).Clear 3 := fun _ _ => rfl
  rw [if_pos hclear] at hstep
  refine ⟨call, ⟨[], _, [], call, rfl, rfl, hrequest, ?_, fun _ h => absurd h List.not_mem_nil⟩, ?_⟩
  · rw [hstep]
  · rw [final_cons, final_nil, hstep]
    rfl

/-- The surroundings in which nothing goes wrong before the handshake. -/
def Surroundings.silent : Surroundings :=
  { Surroundings.quiet with endpoint := some ⟨[], 0, [], 0⟩ }

/-- In these surroundings `get` gets as far as the handshake. -/
theorem getAfter_silent (hplatform : platform.Documented) (ht : Storable t)
    (hid : Server.Routable t.id) {events : List ServerEvent}
    (hlast : LastRegistered platform s events t)
    (hrunning : (final (Server.step platform) s events).running = true) {peers : List Endpoint}
    (hpeers : buildPeerCandidates r.makeAddress t = .ok peers) (n : ℕ) :
    getAfter platform sha (final (Server.step platform) s events) .silent r t.id n
      = some (stateAt (Caller.step (r.callArgs t.id t peers) sha) .start r.outcomes n) := by
  have ht' : (peerTransfer platform (final (Server.step platform) s events) .silent t.id).2
      = some t :=
    peerTransfer_of_registered hplatform ht hid hlast hrunning
  have hflat : (endpointToJson ⟨[], 0, [], 0⟩).Flat = true := by decide
  obtain ⟨body, -, hdump, -⟩ := hplatform.parse_dump _ hflat
  obtain ⟨server, hserver, hmetadata⟩ := peerTransfer_eq_some ht'
  obtain ⟨s', hs'⟩ : ∃ s', signalReceiverEndpoint platform
      (peerTransfer platform (final (Server.step platform) s events) .silent t.id).1 t.id
        ⟨[], 0, [], 0⟩ = some s' :=
    ⟨_, by rw [signalReceiverEndpoint, hdump]; rfl⟩
  obtain ⟨htable, hrunning'⟩ := signalReceiverEndpoint_table hs'
  rw [hserver] at htable hrunning'
  have hagain := (getTransferMetadata_again htable hrunning').trans hmetadata
  have hsession : (Utils.getTransferMetadata platform s' Surroundings.silent.sessionFaults t.id).2
      = .ok t := hagain
  have hendpoint : Surroundings.silent.endpoint = some ⟨[], 0, [], 0⟩ := rfl
  have hbefore : Surroundings.silent.beforeSession = [] := rfl
  simp only [getAfter, sessionAfter, ht', hendpoint, hbefore, hs', final_nil, hsession, hpeers,
    Except.toOption, Option.bind_eq_bind, Option.bind_some, Option.pure_def]

/-- A sender of the sample file without a way out, and with a generator that returns zeros. -/
def sampleSending : Sending where
  files := fun _ => some sampleFile
  rng := ⟨UInt32, id, fun gen => (gen, gen)⟩
  rd := 0
  stun := none
  localPort := 4000
  localAddress := some 0x7F000001

/-- What it registers. -/
def sentTransfer : Transfers where
  id := generateUuidToken 0 0 0 0 0 0
  senderIp := text "127.0.0.1"
  senderPort := 5173
  senderLocalIp := text "127.0.0.1"
  senderLocalPort := 5173
  protocol := text "udp"
  fileName := text "f"
  fileSize := 1
  fileHash := Crypto.hexLower (sampleDigest sampleFile.bytes)
  token := generateUuidToken 0 0 0 0 0 0

theorem sendTransfer_sample : sendTransfer sampleSha sampleSending (text "f")
    = some sentTransfer := by
  have hip : addressText 0x7F000001 = text "127.0.0.1" := by decide
  have hname : filename (text "f") = text "f" := by decide
  have hdigest : sampleSha.digest sampleFile.bytes = sampleDigest sampleFile.bytes := rfl
  simp only [sendTransfer, sampleSending, Crypto.computeFileHash_opened, Option.bind_eq_bind,
    Option.bind_some, Option.pure_def, senderIp, hip, hname, hdigest]
  rfl

/-- The answer to the hello, the file and the end. -/
def sampleReception : Reception where
  makeAddress := fun _ => some [127, 0, 0, 1]
  env := sampleEnv none
  outcomes
    | 0 => .datagram sampleSender (received (HandshakePacket.serverHello
        { version := protocolVersion1, transferId := sentTransfer.id }).serializeToString)
    | 1 => .ofControl sampleSender
        (.data { transferId := sentTransfer.id, payload := sampleFile.bytes })
    | 2 => .ofControl sampleSender (.done { transferId := sentTransfer.id, finalSize := 1 })
    | _ => .timeout

/-- The candidates for the sender of the sample transfer. -/
def samplePeers : List Endpoint := [⟨[127, 0, 0, 1], 5173⟩, ⟨[127, 0, 0, 1], 5173⟩]

theorem stateAt_sampleReception :
    stateAt (Caller.step (sampleReception.callArgs sentTransfer.id sentTransfer samplePeers)
        sampleSha) .start sampleReception.outcomes 3
      = .receiving sampleSender
          { out := ⟨[0], 1⟩, currentOffset := 1, retries := 0, returned := some true } := by
  decide +kernel

/-- A download of what was sent. -/
theorem get_integrity_sample : ∃ events c,
    LastRegistered samplePlatform .fresh events sentTransfer ∧
      getAfter samplePlatform sampleSha (final (Server.step samplePlatform) .fresh events) .silent
        sampleReception sentTransfer.id 3 = some (.receiving sampleSender c) ∧
      c.returned = some true ∧
      sampleSha.digest c.out.content = sampleSha.digest sampleFile.bytes := by
  have hname : utf8Valid (filename (text "f")) = true ∧ 0 ∉ filename (text "f") := by decide
  have ht : Storable sentTransfer := storable_sendTransfer sendTransfer_sample hname
  obtain ⟨call, hlast, hrunning⟩ := exists_lastRegistered samplePlatform_documented ht
  have hid : Server.Routable sentTransfer.id := routable_tokenOfSeed sampleSending.rng 0
  have hget := @getAfter_silent sampleSha sentTransfer samplePlatform .fresh sampleReception
    samplePlatform_documented ht hid _ hlast hrunning samplePeers rfl 3
  rw [stateAt_sampleReception] at hget
  have hleaves : Leaves samplePlatform sentTransfer.id [] := fun _ h => nomatch h
  exact ⟨_, _, hlast, hget, rfl, get_integrity samplePlatform_documented
    (samplePlatform_parse_eq_none (by decide)) rfl hname sendTransfer_sample hlast hleaves hleaves
    hget rfl⟩

end Zapshare
