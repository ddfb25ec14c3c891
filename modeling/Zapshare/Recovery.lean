import Zapshare.Delivery

/-!
# Every loss is recovered from

`receive_file` asks again when nothing arrives: for the whole transfer as long as it has nothing,
and with its acknowledgement afterwards. Whatever was lost before, the answer to that is the packet
it waits for.

A packet that the receive buffer cuts is not read, though, however often it is asked for. The ids
that `generate_uuid_token` makes leave room for a whole chunk; an id of two hundred characters does
not, and its transfer stands still.

## Main results

* `timeout_recovers` — one timeout, one request and one answer are enough to go on, if the id is
  short
* `long_id_stands_still` — and a transfer with a long one at which they are not
-/

namespace Zapshare

open Wire UdpConfig Network StopAndWait Machine

namespace Pair

variable {J : Pair} {w : World Session Client Bytes Bytes}

/-- Everything on its way is lost. -/
def lose (w : World Session Client Bytes Bytes) : World Session Client Bytes Bytes :=
  { w with up := [], down := [] }

theorem holds_lose (h : J.refinement.Holds w) : J.refinement.Holds (lose w) :=
  ⟨h.server, h.client, fun _ hb => absurd hb List.not_mem_nil,
    fun _ hb => absurd hb List.not_mem_nil⟩

theorem isDone_of_reply {b : Bytes} (h : J.DownOk b) (hdone : (reply b).isDone = true) :
    ∃ m, b = (ControlPacket.done m).serializeToString := by
  rcases h with ⟨o, ho, rfl⟩ | ⟨hother, -⟩
  · rw [reply_packetAt ho, Setting.packet_isDone, decide_eq_true_eq] at hdone
    exact ⟨doneOf J.transfer, by rw [packetAt_of_ge hdone]⟩
  · simp [hother, Rep.isDone] at hdone

end Pair

/-- **One timeout is enough to go on.** In any state of a run in which the session is at work and
has not sent `Done`, and `receive_file` runs and has a retry left: everything on its way is lost,
the receiver times out, and what it sends then and the answer to that arrive. The receiver has the
next chunk then, or it has had the whole file and the session has sent `Done`.

The id of a transfer is a token of `generate_uuid_token`, which is short. -/
theorem timeout_recovers (J : Pair) (hid : ShortId J.args.transferId)
    {w₀ : World Session Client Bytes Bytes} (hstart : J.Start w₀) (es : List PoolEvent) :
    let w := final J.parties.pool w₀ es
    w.server.mState = .authenticated ∨ w.server.mState = .transferring →
    (∀ b ∈ w.down, ∀ m, b ≠ (ControlPacket.done m).serializeToString) →
    w.client.returned = none → w.client.retries < maxRetries - 1 →
    let w' := final J.parties.pool { w with up := [], down := [] } [.timeout, .up 0, .down 0]
    (w.client.currentOffset < J.file.bytes.length ∧ w'.client.currentOffset
        = w.client.currentOffset + min payloadSize (J.file.bytes.length - w.client.currentOffset)) ∨
      (w.client.currentOffset = J.file.bytes.length ∧
        ∃ b ∈ w'.down, ∃ m, b = (ControlPacket.done m).serializeToString) := by
  intro w hstate hdone hreturned hretries w'
  have hholds : J.refinement.Holds w := hstart.holds_final es
  have hinv : Inv J.setting (J.refinement.world w) := hstart.inv_final es
  have hlost : J.refinement.Holds (Pair.lose w) := Pair.holds_lose hholds
  have hopen : (J.refinement.world w).server ≠ .closed := fun hc => by
    rcases hstate with hstate | hstate
    · exact absurd ((Pair.sender_authenticated hstate).symm.trans hc) (by simp)
    · exact absurd ((Pair.sender_transferring hstate).symm.trans hc) (by simp)
  have hnone : ∀ x ∈ (J.refinement.world w).down, ¬ x.isDone := by
    intro x hx hx'
    obtain ⟨b, hb, rfl⟩ := List.mem_map.mp hx
    obtain ⟨m, rfl⟩ := Pair.isDone_of_reply (hholds.down b hb) hx'
    exact hdone _ hb m rfl
  have hleft : (J.refinement.world w).client.retries + 1 < J.setting.maxRetries :=
    Nat.add_lt_of_lt_sub hretries
  have hrun := hinv.round_trip hopen hnone hreturned hleft (Pair.getOk_of_shortId hid)
    (fun a _ => Pair.ackOk_of_shortId hid a) fun o _ => Pair.chunkOk_of_shortId hid o
  have hview : final J.setting.parties.pool { J.refinement.world w with up := [], down := [] }
      [.timeout, .up 0, .down 0] = J.refinement.world w' :=
    J.refinement.pool.final hlost _
  rw [hview] at hrun
  rcases hrun with ⟨hlt, hnext⟩ | ⟨hend, x, hx, hx'⟩
  · exact Or.inl ⟨hlt, hnext⟩
  · obtain ⟨b, hb, rfl⟩ := List.mem_map.mp hx
    have hdown : J.refinement.Holds w' := J.refinement.pool.invariant hlost _
    exact Or.inr ⟨hend, b, hb, Pair.isDone_of_reply (hdown.down b hb) hx'⟩

/-- The request for the sample file was lost. -/
theorem timeout_recovers_sample :
    (final samplePair.parties.pool { sampleWorld with up := [], down := [] }
      [.timeout, .up 0, .down 0]).client.currentOffset = 1 := by
  have hrun := timeout_recovers samplePair ⟨by decide, by decide⟩ sampleWorld_start []
    (Or.inl rfl) (fun _ hb => absurd hb List.not_mem_nil) rfl (by decide)
  rcases hrun with ⟨-, hnext⟩ | ⟨hend, -⟩
  · exact hnext
  · exact absurd hend (by decide)

/-! ### A long id -/

/-- A file of one full chunk. -/
def chunkFile : FileContent := ⟨List.replicate 1272 0, by rw [List.length_replicate]; decide⟩

/-- Two hundred characters. -/
def longId : Bytes := List.replicate 200 97

/-- The two ends of a transfer of `chunkFile` under `longId`. Its chunk takes 1481 bytes. -/
def longIdPair : Pair where
  env := sampleEnv (some chunkFile)
  sha := sampleSha
  args := { sampleArgs with transferId := longId }
  receiver := samplePeer
  path := samplePath
  file := chunkFile
  transfer := { sampleTransfer longId with fileSize := 1272 }
  found := rfl
  id_eq := rfl
  fileSize_eq := List.length_replicate.symm

/-- The transfer under `longId` at its start. -/
def longIdWorld : World Session Client Bytes Bytes :=
  ⟨{ sampleSession with mTransferMetadata := longIdPair.transfer }, .start,
    [longIdPair.args.getBytes], []⟩

theorem longIdWorld_start : longIdPair.Start longIdWorld where
  state := rfl
  offset := rfl
  remote := rfl
  path := rfl
  metadata := rfl
  client := rfl
  up _ hb := Or.inl (List.mem_singleton.mp hb)
  down _ hb := absurd hb List.not_mem_nil
  asked := List.mem_cons_self

/-- **A transfer under a long id stands still.** The request arrives, the chunk that answers it is
cut, and the receiver has nothing. -/
theorem long_id_stands_still :
    ∃ (J : Pair) (w₀ : World Session Client Bytes Bytes), J.Start w₀ ∧ ∃ es : List PoolEvent,
      let w := final J.parties.pool w₀ es
      w.server.mState = .authenticated ∧
        (∀ b ∈ w.down, ∀ m, b ≠ (ControlPacket.done m).serializeToString) ∧
        w.client.returned = none ∧ w.client.retries < maxRetries - 1 ∧
        let w' := final J.parties.pool { w with up := [], down := [] } [.timeout, .up 0, .down 0]
        ¬ ((w.client.currentOffset < J.file.bytes.length ∧ w'.client.currentOffset
            = w.client.currentOffset
              + min payloadSize (J.file.bytes.length - w.client.currentOffset)) ∨
          (w.client.currentOffset = J.file.bytes.length ∧
            ∃ b ∈ w'.down, ∃ m, b = (ControlPacket.done m).serializeToString)) := by
  have hstill : (final longIdPair.parties.pool ⟨longIdWorld.server, longIdWorld.client, [], []⟩
      [.timeout, .up 0, .down 0]).client.currentOffset = 0 := by
    decide +kernel
  have hlength : longIdPair.file.bytes.length = 1272 := List.length_replicate
  refine ⟨longIdPair, longIdWorld, longIdWorld_start, [], rfl,
    fun _ hb => absurd hb List.not_mem_nil, rfl, by decide, ?_⟩
  rw [final_nil, hlength]
  rintro w' (⟨-, hnext⟩ | ⟨hend, -⟩)
  · simp only [w', hstill] at hnext
    exact absurd hnext (by decide)
  · exact absurd hend (by decide)

end Zapshare
