import Zapshare.Delivery
import Zapshare.Lib.StopAndWaitFifo

/-!
# What a duplicate costs

`handle_ack` answers a repeated acknowledgement with the current chunk, and `receive_file` answers a
repeated chunk with its acknowledgement. A single duplicate is never absorbed so: it goes to and fro
beside the transfer, to the end of the file. On a network that loses nothing and keeps the order it
costs the chunks of the whole file at most, once more for each duplicate.

## Main results

* `chunks_bounded` — the chunks of a transfer, by the number of spurious events
-/

namespace Zapshare

open Wire UdpConfig Network StopAndWait Machine

namespace Pair

/-- A datagram the session takes for a `GetRequest`. -/
def isGetRequest (b : Bytes) : Bool :=
  match ControlPacket.parseFromString (received b) with
  | some (.get _) => true
  | _ => false

/-- The event is spurious: `receive_file` times out, the network makes a copy, or the session is
handed a `GetRequest` while it is transferring. -/
def spurious (w : World Session Client Bytes Bytes) : FifoEvent → Bool
  | .timeout => w.client.returned = none
  | .copyUp i _ => i < w.up.length
  | .copyDown i _ => i < w.down.length
  | .up => w.up.head?.any isGetRequest && w.server.mState = .transferring
  | .down => false

variable {J : Pair} {w : World Session Client Bytes Bytes}

theorem isGetRequest_eq (b : Bytes) : isGetRequest b = decide (request b = .get) := by
  obtain ⟨p, hp⟩ : ∃ p, ControlPacket.parseFromString (received b) = p := ⟨_, rfl⟩
  rcases p with _ | (_ | get | ack | m | m | e) <;> simp [isGetRequest, request, hp]

theorem isSending_sender (s : Session) :
    (sender s).isSending = decide (s.mState = .transferring) := by
  rw [sender]
  split <;> simp_all [Sender.isSending]

/-- It is what stop-and-wait calls spurious. -/
theorem spurious_world (e : FifoEvent) :
    StopAndWait.spurious (J.refinement.world w) e = spurious w e := by
  cases e with
  | timeout => rfl
  | copyUp i j => simp only [StopAndWait.spurious, Refinement.world, List.length_map, spurious]
  | copyDown i j => simp only [StopAndWait.spurious, Refinement.world, List.length_map, spurious]
  | down => rfl
  | up =>
    show ((w.up.map request).head? = some .get && (sender w.server).isSending : Bool) = _
    rw [isSending_sender, List.head?_map, spurious]
    rcases w.up.head? with _ | b
    · rfl
    · simp [isGetRequest_eq]

/-- The two numbers of a run are those of its view. -/
theorem fifo_counts (h : J.refinement.Holds w) (es : List FifoEvent) :
    (outputs J.parties.fifo w es).countP isDataChunk
        = (outputs J.setting.parties.fifo (J.refinement.world w) es).countP Rep.isChunk ∧
      count J.parties.fifo spurious w es
        = count J.setting.parties.fifo StopAndWait.spurious (J.refinement.world w) es := by
  constructor
  · rw [J.refinement.fifo.outputs h, List.countP_map]
    refine List.countP_congr fun b hb => ?_
    have hdown : J.DownOk b := J.refinement.outputs_fifo h es b hb
    rw [← reply_isChunk hdown]
    rfl
  · exact (J.refinement.fifo.count h (fun _ e _ => spurious_world e) es).symm

end Pair

/-- **What a transfer costs** on a network that loses nothing and keeps the order: the chunks of the
file, once, and once more at most for each spurious event. -/
theorem chunks_bounded (J : Pair) {w : World Session Client Bytes Bytes} (hstart : J.Start w)
    (es : List FifoEvent) :
    (outputs J.parties.fifo w es).countP Pair.isDataChunk
      ≤ (J.file.bytes.length + payloadSize - 1) / payloadSize
          * (1 + count J.parties.fifo Pair.spurious w es) := by
  obtain ⟨hchunks, hspurious⟩ := Pair.fifo_counts hstart.holds es
  rw [hchunks, hspurious]
  exact chunks_sent_le hstart.initial es

/-- The one chunk of the sample file. -/
theorem chunks_bounded_sample :
    (outputs samplePair.parties.fifo sampleWorld [.up, .down, .up]).countP Pair.isDataChunk
      ≤ (sampleFile.bytes.length + payloadSize - 1) / payloadSize
          * (1 + count samplePair.parties.fifo Pair.spurious sampleWorld [.up, .down, .up]) :=
  chunks_bounded samplePair sampleWorld_start _

/-! ### A file of three chunks -/

/-- Two full chunks and one byte. -/
def longFile : FileContent := ⟨List.replicate 2545 0, by rw [List.length_replicate]; decide⟩

/-- The registration of `longFile`. -/
def longTransfer : Transfers := { sampleTransfer sampleToken with fileSize := 2545 }

/-- The two ends of the transfer of `longFile`. -/
def longPair : Pair where
  env := sampleEnv (some longFile)
  sha := sampleSha
  args := { sampleArgs with expectedHash := Crypto.hexLower (sampleDigest longFile.bytes) }
  receiver := samplePeer
  path := samplePath
  file := longFile
  transfer := longTransfer
  found := rfl
  id_eq := rfl
  fileSize_eq := List.length_replicate.symm

/-- The transfer of `longFile` at its start. -/
def longWorld : World Session Client Bytes Bytes :=
  ⟨{ sampleSession with mTransferMetadata := longTransfer }, .start, [longPair.args.getBytes], []⟩

theorem longWorld_start : longPair.Start longWorld where
  state := rfl
  offset := rfl
  remote := rfl
  path := rfl
  metadata := rfl
  client := rfl
  up _ hb := Or.inl (List.mem_singleton.mp hb)
  down _ hb := absurd hb List.not_mem_nil
  asked := List.mem_cons_self

theorem shortId_sampleToken : ShortId sampleToken := ⟨by decide, by decide⟩

/-- The transfer of `longFile` as stop-and-wait sees it. -/
def longSetting : Setting where
  length := 2545
  payload := payloadSize
  payload_pos := payloadSize_pos
  maxRetries := maxRetries
  good := true
  getOk := true
  ackOk := fun _ => true
  chunkOk := fun _ => true
  doneOk := true

theorem longPair_setting : longPair.setting = longSetting := by
  have hlength : longPair.setting.length = 2545 := List.length_replicate
  have hgood : longPair.setting.good = true := by
    show decide (Crypto.hexLower (sampleDigest longFile.bytes)
      = Crypto.hexLower (sampleDigest longFile.bytes)) = true
    exact decide_eq_true rfl
  have hget : longPair.setting.getOk = true := Pair.getOk_of_shortId shortId_sampleToken
  have hack : longPair.setting.ackOk = fun _ => true :=
    funext fun a => Pair.ackOk_of_shortId shortId_sampleToken a
  have hchunk : longPair.setting.chunkOk = fun _ => true :=
    funext fun o => Pair.chunkOk_of_shortId shortId_sampleToken o
  have hdone : longPair.setting.doneOk = true := by
    show (ControlPacket.done (doneOf longTransfer)).deliverable = true
    decide
  simp only [Pair.setting] at hlength hgood hget hack hchunk hdone
  simp only [Pair.setting, longSetting, hlength, hgood, hget, hack, hchunk, hdone]

theorem longPair_getBytes : Pair.request longPair.args.getBytes = .get :=
  Pair.request_getBytes.trans (if_pos (Pair.getOk_of_shortId shortId_sampleToken))

/-- **One duplicate costs more than one chunk.** The network puts a copy of the first chunk behind
it. Each of the two is acknowledged, each acknowledgement is answered with a chunk, and so on: the
three chunks of the file are sent five times in all. -/
theorem one_copy_costs_two_chunks :
    let es : List FifoEvent := [.up, .copyDown 0 1, .down, .down, .up, .up, .down, .down, .up, .up]
    (longPair.file.bytes.length + payloadSize - 1) / payloadSize
        + count longPair.parties.fifo Pair.spurious longWorld es
      < (outputs longPair.parties.fifo longWorld es).countP Pair.isDataChunk := by
  intro es
  have hview : longPair.refinement.world longWorld = ⟨.idle, {}, [.get], []⟩ :=
    congrArg (fun m => (⟨.idle, {}, [m], []⟩ : Transfer)) longPair_getBytes
  obtain ⟨hchunks, hspurious⟩ := Pair.fifo_counts longWorld_start.holds es
  rw [hview, longPair_setting] at hchunks hspurious
  have hlength : longPair.file.bytes.length = 2545 := List.length_replicate
  rw [hchunks, hspurious, hlength]
  decide

/-- The bound is attained. A second copy of the hello is on its way when the transfer starts, and
the session takes it for a request: the request itself is spurious then, and every chunk is sent
twice. -/
theorem every_chunk_twice :
    let hello := (HandshakePacket.clientHello (sampleHello sampleToken)).serializeToString
    let w := { longWorld with up := [hello, longPair.args.getBytes] }
    let es : List FifoEvent := [.up, .up, .down, .down, .up, .up, .down, .down, .up, .up]
    longPair.Start w ∧
      (outputs longPair.parties.fifo w es).countP Pair.isDataChunk
        = (longPair.file.bytes.length + payloadSize - 1) / payloadSize
            * (1 + count longPair.parties.fifo Pair.spurious w es) := by
  intro hello w es
  have hstart : longPair.Start w :=
    { longWorld_start with
      up := fun b hb => by
        rcases List.mem_cons.mp hb with rfl | hb
        · exact Or.inr (Or.inr ⟨_, rfl⟩)
        · exact Or.inl (List.mem_singleton.mp hb)
      asked := List.mem_cons_of_mem _ List.mem_cons_self }
  have hhello : Pair.request hello = .get := by
    have hparse := parse_clientHello_as_control (sampleHello sampleToken) (j := maxPacketSize)
      (by decide) (by decide)
    rw [if_pos (by decide)] at hparse
    exact Pair.request_eq_get hparse
  have hview : longPair.refinement.world w = ⟨.idle, {}, [.get, .get], []⟩ :=
    congrArg₂ (fun m m' => (⟨.idle, {}, [m, m'], []⟩ : Transfer)) hhello longPair_getBytes
  obtain ⟨hchunks, hspurious⟩ := Pair.fifo_counts hstart.holds es
  rw [hview, longPair_setting] at hchunks hspurious
  have hlength : longPair.file.bytes.length = 2545 := List.length_replicate
  refine ⟨hstart, ?_⟩
  rw [hchunks, hspurious, hlength]
  decide

end Zapshare
