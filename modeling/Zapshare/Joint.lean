import Zapshare.Client
import Zapshare.Chunking
import Zapshare.Lib.StopAndWait
import Zapshare.Sizes

/-!
# The session and the receiver, joined by a network

One authenticated `Session` and one `receive_file` with the same transfer id, and between them the
datagrams they send, as bytes. Leftovers of the hole punching and of the handshake may still be on
their way when the transfer starts.

`Pair.refinement` takes all of it down to the offsets: seen through what each datagram parses to,
the session and the receiver are the two parties of `StopAndWait`.

## Scope

The network drops, delays, reorders and duplicates, and does not forge; nothing comes from anybody
else. The file is not changed while it is sent. Datagrams are the bytes that the two programs write,
and what a receive buffer leaves of them is parsed again: a packet that does not fit is on its way
like any other, and arrives as one that cannot be read. `Pair.setting` records which packets those
are, so that nothing is assumed here about the transfer id.

## What an offset stands for

The packet for offset `o` is the chunk of the file that starts there, or the `Done` if the file ends
there. Both parties are functions of offsets then: the session of the offset it is at, and the
receiver of how much it has. `SessionOk` and `ClientOk` say that the rest of their states, the
cached packet, the position in the file and the bytes that were written, is what the offsets say.

## Main definitions

* `Pair` — the two ends, and what they agree on
* `Pair.parties` — what they do with the datagrams that arrive
* `Pair.Start` — a transfer at its start
* `Pair.setting`, `Pair.request`, `Pair.reply` — the view by offsets
* `Pair.refinement` — the two levels, connected

## Main results

* `Pair.server_spec` — the session refines the sender of `StopAndWait`
* `Pair.client_spec`, `Pair.timeout_spec` — `receive_file` refines its receiver
* `Pair.Start.holds`, `Pair.Start.initial` — and both hold at the start of a transfer
-/

namespace Zapshare

open Wire Stream UdpConfig Network StopAndWait

/-- The two ends of one transfer. The file is where it was when it was registered, with the size it
had then. -/
structure Pair where
  env : Env
  sha : Sha256
  args : ReceiveArgs
  /-- Where the datagrams of the receiver come from. -/
  receiver : Endpoint
  path : Bytes
  file : FileContent
  transfer : Transfers
  found : env.files path = some file
  id_eq : transfer.id = args.transferId
  fileSize_eq : transfer.fileSize.toNat = file.bytes.length

namespace Pair

variable (J : Pair)

/-- The parties, as they see datagrams. -/
def parties : Parties Session Client Bytes Bytes where
  server s datagram :=
    ((s.receive J.env datagram J.receiver).1,
      (s.receive J.env datagram J.receiver).2.map Datagram.bytes)
  client c datagram :=
    ((c.step J.args J.sha (.datagram J.args.peer (received datagram))).1,
      (c.step J.args J.sha (.datagram J.args.peer (received datagram))).2.map Datagram.bytes)
  timeout c :=
    ((c.step J.args J.sha .timeout).1, (c.step J.args J.sha .timeout).2.map Datagram.bytes)

/-- What `perform_udp_hole_punch` sends. -/
def punch : Bytes := text "PUNCH"

/-- A transfer at its start: the session has accepted the hello, and `receive_file` has just sent
its request. Punches and copies of the two hellos may still arrive. -/
structure Start (w : World Session Client Bytes Bytes) : Prop where
  state : w.server.mState = .authenticated
  offset : w.server.mOffset = 0
  remote : w.server.mRemoteEndpoint = J.receiver
  path : w.server.mFilePath = J.path
  metadata : w.server.mTransferMetadata = J.transfer
  client : w.client = .start
  up : ∀ b ∈ w.up, b = J.args.getBytes ∨ b = punch ∨
    ∃ h, b = (HandshakePacket.clientHello h).serializeToString
  down : ∀ b ∈ w.down, b = punch ∨ ∃ h, b = (HandshakePacket.serverHello h).serializeToString
  asked : J.args.getBytes ∈ w.up

/-! ### The transfer as a stop-and-wait protocol -/

/-- The file and the link, as far as offsets go. -/
def setting : Setting where
  length := J.file.bytes.length
  payload := payloadSize
  payload_pos := payloadSize_pos
  maxRetries := maxRetries
  good := Crypto.hexLower (J.sha.digest J.file.bytes) = J.args.expectedHash
  getOk := (ControlPacket.get { transferId := J.args.transferId }).deliverable
  ackOk := fun a => (ControlPacket.ack
    { transferId := J.args.transferId, nextOffset := UInt64.ofNat a }).deliverable
  chunkOk := fun o => (ControlPacket.data (chunkAt J.transfer J.file.bytes o)).deliverable
  doneOk := (ControlPacket.done (doneOf J.transfer)).deliverable

/-- The session, as far as offsets go. -/
def sender (s : Session) : Sender :=
  match s.mState with
  | .transferring => .sending s.mOffset
  | .closed => .closed
  | _ => .idle

/-- The local variables of `receive_file`, as far as offsets go. -/
def receiverOf (c : Client) : Receiver := ⟨c.currentOffset, c.retries, c.returned⟩

/-- What a datagram asks of the session. -/
def request (b : Bytes) : Req :=
  match ControlPacket.parseFromString (received b) with
  | some (.get _) => .get
  | some (.ack ack) => .ack ack.nextOffset.toNat
  | _ => .other

/-- The bytes start as those of a `DataChunk` do. -/
def isDataChunk (b : Bytes) : Bool := b.head? = some 26

/-- The bytes start as those of a `Done` do. -/
def isDone (b : Bytes) : Bool := b.head? = some 34

/-- What a datagram tells the receiver. -/
def reply (b : Bytes) : Rep :=
  match ControlPacket.parseFromString (received b) with
  | some (.data m) => .chunk m.offset.toNat
  | some (.done _) => .done
  | _ =>
    if isDataChunk b then .unreadable true else if isDone b then .unreadable false else .other

/-- The first byte of a packet is the tag of its member. -/
theorem isDataChunk_iff (p : ControlPacket) :
    isDataChunk p.serializeToString = true ↔ ∃ m, p = .data m := by
  cases p <;>
    simp [isDataChunk, ControlPacket.serializeToString, ControlPacket.records, messageField,
      encodeRecord, show encodeTag 1 2 = [10] from rfl, show encodeTag 2 2 = [18] from rfl,
      show encodeTag 3 2 = [26] from rfl, show encodeTag 4 2 = [34] from rfl,
      show encodeTag 5 2 = [42] from rfl]

theorem isDone_iff (p : ControlPacket) :
    isDone p.serializeToString = true ↔ ∃ m, p = .done m := by
  cases p <;>
    simp [isDone, ControlPacket.serializeToString, ControlPacket.records, messageField,
      encodeRecord, show encodeTag 1 2 = [10] from rfl, show encodeTag 2 2 = [18] from rfl,
      show encodeTag 3 2 = [26] from rfl, show encodeTag 4 2 = [34] from rfl,
      show encodeTag 5 2 = [42] from rfl]

/-! ### The invariants of the refinement -/

/-- The session at some point of the transfer. -/
structure SessionOk (s : Session) : Prop where
  path : s.mFilePath = J.path
  metadata : s.mTransferMetadata = J.transfer
  state : (s.mState = .authenticated ∧ s.mOffset = 0) ∨
    (s.mState = .transferring ∧ s.Lockstep J.file.bytes) ∨
    (s.mState = .closed ∧ s.Lockstep J.file.bytes ∧ s.mOffset = J.file.bytes.length)

/-- `receive_file` at some point of the transfer: its output is a prefix of the file. -/
structure ClientOk (c : Client) : Prop where
  running : c.returned = none → c.Running
  offset_le : c.currentOffset ≤ J.file.bytes.length
  out : c.out.content = J.file.bytes.take c.currentOffset

/-- A datagram the receiver may have sent. -/
def UpOk (b : Bytes) : Prop := ∀ e, ControlPacket.parseFromString (received b) ≠ some (.error e)

/-- A datagram the session may have sent. -/
def DownOk (b : Bytes) : Prop :=
  (∃ o ≤ J.file.bytes.length, b = (packetAt J.transfer J.file.bytes o).serializeToString) ∨
    (reply b = .other ∧ ∀ e, ControlPacket.parseFromString (received b) ≠ some (.error e))

variable {J}

/-! ### Packets that can be read -/

theorem setting_getOk :
    J.setting.getOk = (ControlPacket.get { transferId := J.args.transferId }).deliverable := by
  rw [setting]

theorem setting_ackOk (a : ℕ) : J.setting.ackOk a = (ControlPacket.ack
    { transferId := J.args.transferId, nextOffset := UInt64.ofNat a }).deliverable := by
  rw [setting]

theorem setting_chunkOk (o : ℕ) : J.setting.chunkOk o
    = (ControlPacket.data (chunkAt J.transfer J.file.bytes o)).deliverable := by
  rw [setting]

theorem setting_doneOk :
    J.setting.doneOk = (ControlPacket.done (doneOf J.transfer)).deliverable := by
  rw [setting]

/-- The packets of a transfer with a short id can all be read, but for `Done`, which carries the
hash of the file. -/
theorem getOk_of_shortId (h : ShortId J.args.transferId) : J.setting.getOk = true :=
  setting_getOk.trans (deliverable_get h)

theorem ackOk_of_shortId (h : ShortId J.args.transferId) (a : ℕ) : J.setting.ackOk a = true :=
  (setting_ackOk a).trans (deliverable_ack h _)

theorem chunkOk_of_shortId (h : ShortId J.args.transferId) (o : ℕ) :
    J.setting.chunkOk o = true := by
  have hpayload : (chunkAt J.transfer J.file.bytes o).payload.length ≤ payloadSize :=
    chunk_length.trans_le (Nat.min_le_left _ _)
  rw [setting_chunkOk]
  exact deliverable_data (J.id_eq ▸ h) _ hpayload

/-! ### Datagrams -/

theorem request_getBytes : request J.args.getBytes = J.setting.getReq := by
  rw [request, ReceiveArgs.getBytes, buildGetRequest, ControlPacket.parse_received, Setting.getReq,
    setting_getOk]
  split_ifs <;> rfl

theorem request_ack {a : ℕ} (ha : a < 2 ^ 64) :
    request (ControlPacket.ack
      { transferId := J.args.transferId, nextOffset := UInt64.ofNat a }).serializeToString
        = J.setting.ackReq a := by
  rw [request, ControlPacket.parse_received, Setting.ackReq, setting_ackOk]
  split_ifs
  · exact congrArg Req.ack (UInt64.toNat_ofNat_of_lt ha)
  · rfl

theorem upOk_of_not_error {p : ControlPacket} (h : ∀ e, p ≠ .error e) :
    UpOk p.serializeToString := by
  intro e he
  rw [ControlPacket.parse_received] at he
  split at he
  · exact h e (Option.some.inj he)
  · simp at he

theorem reply_packetAt {o : ℕ} (ho : o ≤ J.file.bytes.length) :
    reply (packetAt J.transfer J.file.bytes o).serializeToString = J.setting.packet o := by
  rw [reply, ControlPacket.parse_received]
  rcases Nat.lt_or_ge o J.file.bytes.length with hlt | hge
  · rw [packetAt_of_lt hlt, Setting.packet_of_lt hlt]
    rw [(isDataChunk_iff _).mpr ⟨_, rfl⟩, setting_chunkOk]
    cases (ControlPacket.data (chunkAt J.transfer J.file.bytes o)).deliverable
    · rfl
    · exact congrArg Rep.chunk (chunkAt_offset ho)
  · have hchunk : isDataChunk (ControlPacket.done (doneOf J.transfer)).serializeToString = false :=
      Bool.eq_false_iff.mpr fun h => by simpa using (isDataChunk_iff _).mp h
    rw [packetAt_of_ge hge, Setting.packet_of_ge hge, hchunk, (isDone_iff _).mpr ⟨_, rfl⟩,
      setting_doneOk]
    cases (ControlPacket.done (doneOf J.transfer)).deliverable <;> rfl

theorem isDataChunk_of_other {b : Bytes} (h : reply b = .other) : isDataChunk b = false := by
  rw [reply] at h
  split at h
  · simp at h
  · simp at h
  · split_ifs at h with hchunk
    exact Bool.not_eq_true _ ▸ hchunk

/-- What a `DataChunk` tells the receiver is a chunk, readable or not, and nothing else is. -/
theorem reply_isChunk {b : Bytes} (h : J.DownOk b) : (reply b).isChunk = isDataChunk b := by
  rcases h with ⟨o, ho, rfl⟩ | ⟨hother, -⟩
  · rw [reply_packetAt ho, Setting.packet_isChunk, Bool.eq_iff_iff, isDataChunk_iff,
      decide_eq_true_eq]
    rcases Nat.lt_or_ge o J.file.bytes.length with hlt | hge
    · rw [packetAt_of_lt hlt]
      exact iff_of_true hlt ⟨_, rfl⟩
    · rw [packetAt_of_ge hge]
      exact iff_of_false (Nat.not_lt.mpr hge) (by simp)
  · rw [hother, isDataChunk_of_other hother]
    rfl

/-! ### The session refines the sender -/

theorem request_eq_get {b : Bytes} {m : GetRequest}
    (h : ControlPacket.parseFromString (received b) = some (.get m)) : request b = .get := by
  rw [request, h]

theorem request_eq_ack {b : Bytes} {m : Ack}
    (h : ControlPacket.parseFromString (received b) = some (.ack m)) :
    request b = .ack m.nextOffset.toNat := by
  rw [request, h]

/-- What an inert datagram asks of a session. -/
theorem request_of_inert {s : Session} {b : Bytes} (h : s.Inert (received b)) :
    request b = .other ∨ ∃ a, request b = .ack a ∧ (s.mState = .transferring →
      a ≠ (s.mOffset + s.mLastChunkSize) % 2 ^ 64 ∧ a ≠ s.mOffset) := by
  rw [Session.Inert] at h
  rw [request]
  rcases hparse : ControlPacket.parseFromString (received b) with
    _ | (_ | get | ack | m | m | e) <;>
    simp only [hparse] at h ⊢
  · exact Or.inl trivial
  · exact Or.inl trivial
  · exact Or.inr ⟨_, rfl, h⟩
  · exact Or.inl trivial
  · exact Or.inl trivial

/-- The packet for `o` that the session has just sent. -/
theorem downOk_sent {o : ℕ} (ho : o ≤ J.file.bytes.length) (dest : Endpoint) :
    ∀ x ∈ ([⟨dest, (packetAt J.transfer J.file.bytes o).serializeToString⟩] :
      List Datagram).map Datagram.bytes, J.DownOk x := by
  intro x hx
  exact Or.inl ⟨o, ho, List.mem_singleton.mp hx⟩

theorem map_reply_sent {o : ℕ} (ho : o ≤ J.file.bytes.length) (dest : Endpoint) :
    (([⟨dest, (packetAt J.transfer J.file.bytes o).serializeToString⟩] :
      List Datagram).map Datagram.bytes).map reply = [J.setting.packet o] := by
  rw [List.map_singleton, List.map_singleton, reply_packetAt ho]

/-- What a step of the session has to do to match a step of the sender. -/
def Serves (J : Pair) (r : Session × List Datagram) (r' : Sender × List Rep) : Prop :=
  J.SessionOk r.1 ∧ (∀ x ∈ r.2.map Datagram.bytes, J.DownOk x) ∧
    r' = (sender r.1, (r.2.map Datagram.bytes).map reply)

/-- A session that waits for the request starts the transfer at it. -/
theorem session_step_idle {s : Session} (h : J.SessionOk s) (hstate : s.mState = .authenticated)
    (hoffset : s.mOffset = 0) {b : Bytes} (hb : UpOk b) :
    J.Serves (s.step ⟨J.env, received b, J.receiver⟩) (J.setting.serve .idle (request b)) := by
  have hsender : sender s = .idle := by simp [sender, hstate]
  rcases Session.step_authenticated hstate hoffset ⟨J.env, received b, J.receiver⟩ with
    ⟨hinert, heq⟩ | ⟨e, hparse, heq⟩ | ⟨get, m, hparse, hfile, heq⟩ |
    ⟨get, file, F, hparse, hfile, hread, heq⟩ <;> rw [heq]
  · refine ⟨h, by simp, ?_⟩
    rw [hsender]
    rcases request_of_inert hinert with hreq | ⟨a, hreq, -⟩ <;> rw [hreq] <;> rfl
  · exact absurd hparse (hb e)
  · exact absurd hfile (by rw [h.path, J.found]; simp)
  · obtain rfl : J.file = F := by
      rw [h.path, J.found] at hfile
      exact Option.some.inj hfile
    have hzero : 0 ≤ J.file.bytes.length := Nat.zero_le _
    rw [h.metadata]
    refine ⟨⟨h.path, rfl, Or.inr (Or.inl ⟨rfl, ?_⟩)⟩, downOk_sent hzero _, ?_⟩
    · exact Session.lockstep_sentAt _ hzero aligned_zero hread
    · rw [request_eq_get hparse]
      exact congrArg (Prod.mk _) (map_reply_sent hzero _).symm

/-- A session at work sends the current packet, or the next one, or is done. -/
theorem session_step_sending {s : Session} (h : J.SessionOk s) (hstate : s.mState = .transferring)
    (hlock : s.Lockstep J.file.bytes) {b : Bytes} (hb : UpOk b) :
    J.Serves (s.step ⟨J.env, received b, J.receiver⟩)
      (J.setting.serve (.sending s.mOffset) (request b)) := by
  have hsender : sender s = .sending s.mOffset := by simp [sender, hstate]
  have hnext : J.setting.next s.mOffset = chunkEnd J.file.bytes s.mOffset := rfl
  rcases Session.step_transferring hstate hlock J.file.length_lt
      ⟨J.env, received b, J.receiver⟩ with
    ⟨hinert, heq⟩ | ⟨hcause, heq⟩ | ⟨ack, file, hparse, hack, hlt, hread, heq⟩ | ⟨hcause, heq⟩ <;>
    rw [heq]
  · refine ⟨h, by simp, ?_⟩
    rw [hsender]
    rcases request_of_inert hinert with hreq | ⟨a, hreq, hne⟩ <;> rw [hreq]
    · rfl
    · obtain ⟨hne, hcur⟩ := hne hstate
      rw [hlock.expectedOffset J.file.length_lt] at hne
      rw [Setting.serve, if_neg (by rwa [hnext]), if_neg hcur]
      rfl
  · rw [hlock.cache, h.metadata]
    refine ⟨h, downOk_sent hlock.offset_le _, ?_⟩
    simp only [Session.sendMessage]
    rw [map_reply_sent hlock.offset_le, hsender]
    rcases hcause with ⟨get, hparse⟩ | ⟨ack, hparse, hack, hlt⟩
    · rw [request_eq_get hparse]
      rfl
    · have hne : s.mOffset ≠ J.setting.next s.mOffset :=
        Nat.ne_of_lt (Setting.lt_next (S := J.setting) hlt)
      rw [request_eq_ack hparse, hack, Setting.serve, if_neg hne, if_pos rfl]
  · have hle := chunkEnd_le hlock.offset_le
    rw [h.metadata]
    refine ⟨⟨h.path, h.metadata, Or.inr (Or.inl ⟨hstate, ?_⟩)⟩, downOk_sent hle _, ?_⟩
    · exact Session.lockstep_sentAt _ hle (aligned_chunkEnd hlock.aligned hlock.offset_le) hread
    · simp only [Session.sendMessage]
      rw [request_eq_ack hparse, hack, map_reply_sent hle, Setting.serve, if_pos hnext.symm,
        if_neg (Nat.not_le.mpr (show s.mOffset < J.setting.length from hlt))]
      simp [sender, Session.sentAt, hstate, hnext]
  · rcases hcause with ⟨e, hparse⟩ | ⟨ack, hparse, hack, hend⟩
    · exact absurd hparse (hb e)
    refine ⟨⟨h.path, h.metadata, Or.inr (Or.inr ⟨rfl, ?_, hend⟩)⟩, by simp, ?_⟩
    · exact ⟨hlock.offset_le, hlock.aligned, hlock.size, hlock.done, hlock.cache, hlock.reading⟩
    · have hge : J.setting.length ≤ s.mOffset := Nat.le_of_eq hend.symm
      have hend' : J.file.bytes.length = J.setting.next s.mOffset := by
        rw [Setting.next_of_ge hge, hend]
      rw [request_eq_ack hparse, hack, Setting.serve, if_pos hend', if_pos hge]
      rfl

/-- The step of the session on a datagram that is handed on. -/
theorem session_step {s : Session} (h : J.SessionOk s) {b : Bytes} (hb : UpOk b) :
    J.Serves (s.step ⟨J.env, received b, J.receiver⟩)
      (J.setting.serve (sender s) (request b)) := by
  rcases h.state with ⟨hstate, hoffset⟩ | ⟨hstate, hlock⟩ | ⟨hstate, -, -⟩
  · rw [show sender s = .idle by simp [sender, hstate]]
    exact session_step_idle h hstate hoffset hb
  · rw [show sender s = .sending s.mOffset by simp [sender, hstate]]
    exact session_step_sending h hstate hlock hb
  · have hsender : sender s = .closed := by simp [sender, hstate]
    rw [Session.step_closed hstate, hsender]
    exact ⟨h, by simp, (Setting.serve_closed _).trans (congrArg (Prod.mk · []) hsender.symm)⟩

/-- **The session refines the sender.** -/
theorem server_spec (s : Session) (b : Bytes) (h : J.SessionOk s) (hb : UpOk b) :
    J.SessionOk (J.parties.server s b).1 ∧ (∀ x ∈ (J.parties.server s b).2, J.DownOk x) ∧
      J.setting.serve (sender s) (request b)
        = (sender (J.parties.server s b).1, (J.parties.server s b).2.map reply) := by
  simp only [parties, Session.receive]
  by_cases hempty : received b = []
  · -- an empty datagram is not handed on, and asks for nothing
    rw [if_pos hempty]
    have hother : request b = .other := by
      rw [request, hempty]
      rfl
    rw [hother]
    refine ⟨h, by simp, ?_⟩
    rcases sender s with _ | o | _ <;> rfl
  · rw [if_neg hempty]
    exact session_step h hb

/-! ### `receive_file` refines the receiver -/

/-- A packet that only resets the retries. -/
theorem react_other {c : Client} (hrun : c.Running) {x : Rep}
    (hx : x = .other ∨ (∃ b, x = .unreadable b)) :
    J.setting.react (receiverOf c) x = (receiverOf { c with retries := 0 }, []) := by
  obtain ⟨out, offset, retries, returned⟩ := c
  obtain rfl : returned = none := hrun.returned
  rcases hx with rfl | ⟨b, rfl⟩ <;> rfl

theorem ClientOk.reset {c : Client} (h : J.ClientOk c) (hrun : c.Running) :
    J.ClientOk { c with retries := 0 } :=
  ⟨fun _ => ⟨hrun.returned, (by decide : 0 < maxRetries)⟩, h.offset_le, h.out⟩

theorem upOk_ack (a : ℕ) : ∀ x ∈ (J.args.sendAck a).map Datagram.bytes, UpOk x := by
  intro x hx
  obtain rfl := List.mem_singleton.mp hx
  exact upOk_of_not_error (by simp)

theorem map_request_ack {a : ℕ} (ha : a < 2 ^ 64) :
    ((J.args.sendAck a).map Datagram.bytes).map request = [J.setting.ackReq a] := by
  rw [ReceiveArgs.sendAck, List.map_singleton, List.map_singleton, request_ack ha]

/-- What a step of the client has to do to match a step of the receiver. -/
def Matches (J : Pair) (r : Client × List Datagram) (r' : Receiver × List Req) : Prop :=
  J.ClientOk r.1 ∧ (∀ m ∈ r.2.map Datagram.bytes, UpOk m) ∧
    r' = (receiverOf r.1, (r.2.map Datagram.bytes).map request)

/-- A chunk of the file. -/
theorem client_chunk {c : Client} (h : J.ClientOk c) (hrun : c.Running) {o : ℕ}
    (ho : o < J.file.bytes.length) :
    J.Matches ({ c with retries := 0 }.handleData J.args (chunkAt J.transfer J.file.bytes o))
      (J.setting.react (receiverOf c) (.chunk o)) := by
  have hF := J.file.length_lt
  obtain ⟨out, offset, retries, returned⟩ := c
  obtain rfl : returned = none := hrun.returned
  have hoffset : offset ≤ J.file.bytes.length := h.offset_le
  have hout : out.content = J.file.bytes.take offset := h.out
  have hid : (chunkAt J.transfer J.file.bytes o).transferId = J.args.transferId := J.id_eq
  have hoff : (chunkAt J.transfer J.file.bytes o).offset.toNat = o :=
    chunkAt_offset (Nat.le_of_lt ho)
  have hreact : J.setting.react (receiverOf ⟨out, offset, retries, none⟩) (.chunk o)
      = if o = offset then
          (⟨chunkEnd J.file.bytes o, 0, none⟩, [J.setting.ackReq (chunkEnd J.file.bytes o)])
        else if o < offset then (⟨offset, 0, none⟩, [J.setting.ackReq offset])
        else (⟨offset, 0, none⟩, []) := rfl
  rw [hreact]
  rcases Client.handleData_cases J.args ⟨out, offset, 0, none⟩
      (chunkAt J.transfer J.file.bytes o) with
    ⟨hignored, heq⟩ | ⟨-, hcur, heq⟩ | ⟨-, hold, heq⟩ <;> rw [heq]
  · have hlater : offset < o := hoff ▸ hignored.resolve_left (not_not.mpr hid)
    rw [if_neg (Nat.ne_of_gt hlater), if_neg (Nat.not_lt.mpr (Nat.le_of_lt hlater))]
    exact ⟨h.reset hrun, by simp, rfl⟩
  · obtain rfl : o = offset := hoff ▸ hcur
    rw [if_pos rfl]
    have hle := chunkEnd_le hoffset
    have hend : ((⟨out, o, 0, none⟩ : Client).wrote
        (chunkAt J.transfer J.file.bytes o).payload).currentOffset = chunkEnd J.file.bytes o := by
      simp only [Client.wrote, chunkAt, chunk_length]
      exact Nat.mod_eq_of_lt (show chunkEnd J.file.bytes o < 2 ^ 64 by omega)
    have hlength : out.content.length = o := by
      rw [hout, List.length_take, Nat.min_eq_left hoffset]
    have hcontent : ((⟨out, o, 0, none⟩ : Client).wrote
        (chunkAt J.transfer J.file.bytes o).payload).out.content
          = J.file.bytes.take (chunkEnd J.file.bytes o) := by
      have happend := OfStream.write_seekp_length out (chunkAt J.transfer J.file.bytes o).payload
      rw [hlength, hout] at happend
      rw [← take_append_chunk]
      exact happend
    refine ⟨⟨fun _ => ⟨rfl, (by decide : 0 < maxRetries)⟩, by rw [hend]; exact hle,
      by rw [hcontent, hend]⟩, upOk_ack _, ?_⟩
    rw [map_request_ack (by rw [hend]; omega), hend]
    have hview : receiverOf ((⟨out, o, 0, none⟩ : Client).wrote
        (chunkAt J.transfer J.file.bytes o).payload) = ⟨chunkEnd J.file.bytes o, 0, none⟩ := by
      rw [← hend]
      rfl
    exact congrArg (fun r => (r, [J.setting.ackReq (chunkEnd J.file.bytes o)])) hview.symm
  · have hold : o < offset := hoff ▸ hold
    rw [if_neg (Nat.ne_of_lt hold), if_pos hold]
    exact ⟨h.reset hrun, upOk_ack _, by rw [map_request_ack (by simp only; omega)]; rfl⟩

/-- The end of the file. -/
theorem client_done {c : Client} (h : J.ClientOk c) (hrun : c.Running) :
    J.Matches ({ c with retries := 0 }.handleDone J.args J.sha (doneOf J.transfer))
      (J.setting.react (receiverOf c) .done) := by
  obtain ⟨out, offset, retries, returned⟩ := c
  obtain rfl : returned = none := hrun.returned
  have hreact : J.setting.react (receiverOf ⟨out, offset, retries, none⟩) .done
      = if offset ≠ J.file.bytes.length then (⟨offset, 0, none⟩, [])
        else if J.setting.good then (⟨offset, 0, some true⟩, [J.setting.ackReq offset])
        else (⟨offset, 0, some false⟩, []) := rfl
  have hsize : (doneOf J.transfer).finalSize.toNat = J.file.bytes.length := J.fileSize_eq
  have hid : (doneOf J.transfer).transferId = J.args.transferId := J.id_eq
  rw [hreact]
  rcases Client.handleDone_cases J.args J.sha ⟨out, offset, 0, none⟩
      (doneOf J.transfer) with
    ⟨hignored, heq⟩ | ⟨-, hend, hhash, heq⟩ | ⟨-, hend, hhash, heq⟩ <;> rw [heq]
  · have hne : offset ≠ J.file.bytes.length := hsize ▸ hignored.resolve_left (not_not.mpr hid)
    rw [if_pos hne]
    exact ⟨h.reset hrun, by simp, rfl⟩
  all_goals
    have hend : offset = J.file.bytes.length := hsize ▸ hend
    have hwhole : out.content = J.file.bytes := by
      rw [show out.content = J.file.bytes.take offset from h.out, hend, List.take_length]
    have hgood : J.setting.good = true ↔
        Crypto.hexLower (J.sha.digest out.content) = J.args.expectedHash := by
      rw [hwhole]
      exact decide_eq_true_iff
    rw [if_neg (not_not.mpr hend)]
  · rw [if_neg (fun hg => hhash (hgood.mp hg))]
    exact ⟨⟨fun hr => by simp at hr, h.offset_le, h.out⟩, by simp, rfl⟩
  · have hF := J.file.length_lt
    rw [if_pos (hgood.mpr hhash)]
    exact ⟨⟨fun hr => by simp at hr, h.offset_le, h.out⟩, upOk_ack _,
      by rw [map_request_ack (by simp only; omega)]; rfl⟩

/-- A datagram that is read as neither a chunk, nor the end, nor an error. -/
theorem client_other {c : Client} (h : J.ClientOk c) (hrun : c.Running) {rx : Bytes}
    (hparse : ∀ p, ControlPacket.parseFromString rx = some p →
      (∀ m, p ≠ .data m) ∧ (∀ m, p ≠ .done m) ∧ ∀ m, p ≠ .error m)
    {x : Rep} (hx : x = .other ∨ (∃ b, x = .unreadable b)) :
    J.Matches (c.step J.args J.sha (.datagram J.args.peer rx))
      (J.setting.react (receiverOf c) x) := by
  rw [Client.step_other hrun hparse, react_other hrun hx]
  exact ⟨h.reset hrun, by simp, rfl⟩

theorem client_step {c : Client} (h : J.ClientOk c) (hrun : c.Running) {b : Bytes}
    (hb : J.DownOk b) :
    J.Matches (c.step J.args J.sha (.datagram J.args.peer (received b)))
      (J.setting.react (receiverOf c) (reply b)) := by
  rcases hb with ⟨o, ho, rfl⟩ | ⟨hother, herror⟩
  · have hparse := (packetAt J.transfer J.file.bytes o).parse_received
    rw [reply_packetAt ho]
    rcases Nat.lt_or_ge o J.file.bytes.length with hlt | hge
    · rw [packetAt_of_lt hlt, ← setting_chunkOk] at hparse
      rw [packetAt_of_lt hlt, Setting.packet_of_lt hlt]
      cases hdeliver : J.setting.chunkOk o with
      | true =>
        rw [hdeliver, if_pos rfl] at hparse
        rw [if_pos rfl, Client.step_data hrun hparse]
        exact client_chunk h hrun hlt
      | false =>
        rw [hdeliver, if_neg Bool.false_ne_true] at hparse
        rw [if_neg Bool.false_ne_true]
        exact client_other h hrun (by simp [hparse]) (Or.inr ⟨_, rfl⟩)
    · rw [packetAt_of_ge hge, ← setting_doneOk] at hparse
      rw [packetAt_of_ge hge, Setting.packet_of_ge hge]
      cases hdeliver : J.setting.doneOk with
      | true =>
        rw [hdeliver, if_pos rfl] at hparse
        rw [if_pos rfl, Client.step_done hrun hparse]
        exact client_done h hrun
      | false =>
        rw [hdeliver, if_neg Bool.false_ne_true] at hparse
        rw [if_neg Bool.false_ne_true]
        exact client_other h hrun (by simp [hparse]) (Or.inr ⟨_, rfl⟩)
  · refine client_other h hrun (fun p hp => ⟨fun m hm => ?_, fun m hm => ?_, fun m hm => ?_⟩)
      (Or.inl hother)
    · simp [reply, hp, hm] at hother
    · simp [reply, hp, hm] at hother
    · exact herror m (hp.trans (congrArg some hm))

/-- **`receive_file` refines the receiver**, on a datagram. -/
theorem client_spec (c : Client) (b : Bytes) (h : J.ClientOk c) (hb : J.DownOk b) :
    J.ClientOk (J.parties.client c b).1 ∧ (∀ m ∈ (J.parties.client c b).2, UpOk m) ∧
      J.setting.react (receiverOf c) (reply b)
        = (receiverOf (J.parties.client c b).1, (J.parties.client c b).2.map request) := by
  by_cases hreturned : c.returned = none
  · exact client_step h (h.running hreturned) hb
  · simp only [parties, Client.step_returned hreturned]
    exact ⟨h, by simp, Setting.react_returned hreturned _⟩

/-- **`receive_file` refines the receiver**, on a timeout. -/
theorem timeout_spec (c : Client) (h : J.ClientOk c) :
    J.ClientOk (J.parties.timeout c).1 ∧ (∀ m ∈ (J.parties.timeout c).2, UpOk m) ∧
      J.setting.expire (receiverOf c)
        = (receiverOf (J.parties.timeout c).1, (J.parties.timeout c).2.map request) := by
  by_cases hreturned : c.returned = none
  · have hrun := h.running hreturned
    have hF := J.file.length_lt
    have hle := h.offset_le
    simp only [parties, Client.step_timeout hrun]
    refine ⟨⟨Client.whileCheck_running _, by simpa using hle, by simpa using h.out⟩, ?_, ?_⟩
    · split
      · intro m hm
        obtain rfl := List.mem_singleton.mp hm
        exact upOk_of_not_error (by simp)
      · exact upOk_ack _
    · rw [Setting.expire_waiting (show (receiverOf c).result = none from hreturned)]
      have hcheck : receiverOf { c with retries := c.retries + 1 }.whileCheck
          = ⟨c.currentOffset, c.retries + 1,
              if c.retries + 1 < maxRetries then none else some false⟩ := by
        by_cases hlt : c.retries + 1 < maxRetries
        · rw [Client.whileCheck_of_lt hlt, if_pos hlt, ← hreturned]
          rfl
        · rw [Client.whileCheck, if_pos ⟨hreturned, hlt⟩, if_neg hlt]
          rfl
      rw [hcheck]
      refine congrArg (Prod.mk _) ?_
      show [if c.currentOffset = 0 then J.setting.getReq else J.setting.ackReq c.currentOffset] = _
      split
      · rw [List.map_singleton, List.map_singleton, request_getBytes]
      · rw [map_request_ack (by omega)]
  · simp only [parties, Client.step_returned hreturned]
    exact ⟨h, by simp, Setting.expire_returned hreturned⟩

/-- **The transfer refines stop-and-wait.** -/
def refinement (J : Pair) : Refinement J.parties J.setting.parties where
  server := sender
  client := receiverOf
  up := request
  down := reply
  Server := J.SessionOk
  Client := J.ClientOk
  Up := UpOk
  Down := J.DownOk
  server_spec := server_spec
  client_spec := client_spec
  timeout_spec := timeout_spec

/-! ### The start of a transfer -/

theorem request_clientHello (h : ClientHello) :
    (request (HandshakePacket.clientHello h).serializeToString = .get ∨
      request (HandshakePacket.clientHello h).serializeToString = .other) ∧
    UpOk (HandshakePacket.clientHello h).serializeToString := by
  have hparse := parse_clientHello_as_control h (j := maxPacketSize) (by decide) (by decide)
  rw [request, UpOk, received]
  rw [hparse]
  split_ifs
  · exact ⟨Or.inl rfl, by simp⟩
  · exact ⟨Or.inr rfl, by simp⟩

theorem reply_serverHello (h : ServerHello) :
    reply (HandshakePacket.serverHello h).serializeToString = .other ∧
      ∀ e, ControlPacket.parseFromString
        (received (HandshakePacket.serverHello h).serializeToString) ≠ some (.error e) := by
  have hparse := parse_serverHello_as_control h (j := maxPacketSize) (by decide) (by decide)
  have hchunk : isDataChunk (HandshakePacket.serverHello h).serializeToString = false := rfl
  have hdone : isDone (HandshakePacket.serverHello h).serializeToString = false := rfl
  rw [reply, received]
  rw [hparse, hchunk, hdone]
  by_cases hfits : (HandshakePacket.serverHello h).serializeToString.length ≤ maxPacketSize
  · rw [if_pos hfits]
    exact ⟨rfl, by simp⟩
  · rw [if_neg hfits]
    exact ⟨rfl, by simp⟩

variable {w : World Session Client Bytes Bytes}

/-- What may be on its way to the session at the start. -/
theorem Start.request_mem (h : J.Start w) {b : Bytes} (hb : b ∈ w.up) :
    (∀ a, request b ≠ .ack a) ∧ UpOk b := by
  rcases h.up b hb with rfl | rfl | ⟨hello, rfl⟩
  · refine ⟨fun a => ?_, upOk_of_not_error (by simp)⟩
    rw [request_getBytes]
    exact Setting.getReq_ne_ack a
  · exact ⟨fun a => by rw [show request punch = .other from rfl]; simp,
      fun e => by rw [show ControlPacket.parseFromString (received punch) = none from rfl]; simp⟩
  · obtain ⟨hreq | hreq, hok⟩ := request_clientHello hello
    · exact ⟨fun a => by rw [hreq]; simp, hok⟩
    · exact ⟨fun a => by rw [hreq]; simp, hok⟩

/-- What may be on its way to the receiver at the start. -/
theorem Start.reply_mem (h : J.Start w) {b : Bytes} (hb : b ∈ w.down) :
    reply b = .other ∧ ∀ e, ControlPacket.parseFromString (received b) ≠ some (.error e) := by
  rcases h.down b hb with rfl | ⟨hello, rfl⟩
  · exact ⟨rfl, fun e => by
      rw [show ControlPacket.parseFromString (received punch) = none from rfl]; simp⟩
  · exact reply_serverHello hello

/-- The invariants of the refinement hold at the start. -/
theorem Start.holds (h : J.Start w) : J.refinement.Holds w where
  server := ⟨h.path, h.metadata, Or.inl ⟨h.state, h.offset⟩⟩
  client := by
    show J.ClientOk w.client
    rw [h.client]
    exact ⟨fun _ => Client.running_start, Nat.zero_le _, rfl⟩
  up _ hb := (h.request_mem hb).2
  down _ hb := Or.inr (h.reply_mem hb)

/-- The start of a transfer is the start of a stop-and-wait transfer. -/
theorem Start.initial (h : J.Start w) : Initial (J.refinement.world w) where
  server := by
    show sender w.server = .idle
    simp [sender, h.state]
  client := by
    show receiverOf w.client = {}
    rw [h.client]
    rfl
  acks a ha := by
    obtain ⟨b, hb, hreq⟩ := List.mem_map.mp ha
    exact (h.request_mem hb).1 a hreq
  chunks o ho := by
    obtain ⟨b, hb, hreply⟩ := List.mem_map.mp ho
    exact absurd ((h.reply_mem hb).1.symm.trans hreply) (by simp)
  done hd := by
    obtain ⟨b, hb, hreply⟩ := List.mem_map.mp hd
    exact absurd ((h.reply_mem hb).1.symm.trans hreply) (by simp)

end Pair

end Zapshare
