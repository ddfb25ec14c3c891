import Zapshare.Acceptance
import Zapshare.ClientIntegrity
import Zapshare.Joint
import Zapshare.Lib.StopAndWaitPool

/-!
# What arrives is the file

The session and `receive_file` over a network that delays, drops, reorders and duplicates. Whatever
it does, the output of the receiver is a prefix of the file, and the two offsets stay within one
chunk of each other.

## Main results

* `Pair.Start.inv_final` — the invariant of stop-and-wait, in every run of the two programs
* `stop_and_wait_safe` — the output is a prefix of the file, and the file once `Done` is accepted
-/

namespace Zapshare

open Wire UdpConfig Network StopAndWait Machine

namespace Pair

variable {J : Pair} {w : World Session Client Bytes Bytes}

/-! ### The invariants in every run -/

theorem Start.holds_final (h : J.Start w) (es : List PoolEvent) :
    J.refinement.Holds (final J.parties.pool w es) :=
  J.refinement.pool.invariant h.holds es

/-- **The invariant of stop-and-wait holds in every run.** -/
theorem Start.inv_final (h : J.Start w) (es : List PoolEvent) :
    Inv J.setting (J.refinement.world (final J.parties.pool w es)) := by
  rw [← J.refinement.pool.final h.holds]
  exact StopAndWait.inv_final h.initial es

/-! ### The two offsets -/

theorem sender_transferring {s : Session} (h : s.mState = .transferring) :
    sender s = .sending s.mOffset := by
  simp only [sender, h]

theorem sender_closed {s : Session} (h : s.mState = .closed) : sender s = .closed := by
  simp only [sender, h]

theorem sender_authenticated {s : Session} (h : s.mState = .authenticated) : sender s = .idle := by
  simp only [sender, h]

/-- The receiver is at the start or at the end of the current chunk. -/
theorem offsets (hholds : J.refinement.Holds w) (hinv : Inv J.setting (J.refinement.world w)) :
    w.server.mOffset ≤ w.client.currentOffset ∧
      w.client.currentOffset ≤ w.server.mOffset + w.server.mLastChunkSize := by
  have hsession : J.SessionOk w.server := hholds.server
  rcases hsession.state with ⟨hstate, hoffset⟩ | ⟨hstate, hlock⟩ | ⟨hstate, -, hend⟩
  · have hzero : w.client.currentOffset = 0 := (hinv.idle (sender_authenticated hstate)).offset
    omega
  · have hview : w.client.currentOffset = w.server.mOffset ∨
        w.client.currentOffset = chunkEnd J.file.bytes w.server.mOffset :=
      (hinv.sending _ (sender_transferring hstate)).view
    have hsize := hlock.size
    rw [chunkEnd] at hview
    omega
  · have hview : w.client.currentOffset = J.file.bytes.length :=
      hinv.closed (sender_closed hstate)
    omega

/-- A receiver that was content has the whole file. -/
theorem offset_of_returned (hinv : Inv J.setting (J.refinement.world w))
    (hreturned : w.client.returned = some true) :
    w.client.currentOffset = J.file.bytes.length := by
  rcases hinv.result hreturned with hserver | hserver
  · rcases (hinv.sending _ hserver).view with hview | hview
    · exact hview
    · exact hview.trans (Setting.next_of_ge (Nat.le_refl _))
  · exact hinv.closed hserver

/-- Every `Done` on its way announces the size of the file. -/
theorem DownOk.finalSize {b : Bytes} (h : J.DownOk b) {m : Done}
    (hparse : ControlPacket.parseFromString (received b) = some (.done m)) :
    m.finalSize.toNat = J.file.bytes.length := by
  rcases h with ⟨o, -, rfl⟩ | ⟨hother, -⟩
  · rw [ControlPacket.parse_received] at hparse
    split at hparse
    · have hpacket : packetAt J.transfer J.file.bytes o = .done m := Option.some.inj hparse
      rw [(eq_doneOf_of_packetAt (congrArg ControlPacket.serializeToString hpacket)).2]
      exact J.fileSize_eq
    · simp at hparse
  · simp [reply, hparse] at hother

/-- At the end of the file the output is the file. -/
theorem ClientOk.whole {c : Client} (h : J.ClientOk c)
    (hend : c.currentOffset = J.file.bytes.length) : c.out.content = J.file.bytes := by
  rw [h.out, hend, List.take_length]

end Pair

/-- **Stop-and-wait safety.** In every state of every run over a network that delays, drops,
reorders and duplicates, the output is a prefix of the file and ends at `current_offset`, the two
offsets are within one chunk of each other, and the output is the file whenever `receive_file`
accepts a `Done`: both when one it would accept is on its way, and when it has returned true. -/
theorem stop_and_wait_safe (J : Pair) {w : World Session Client Bytes Bytes} (hstart : J.Start w)
    (es : List PoolEvent) :
    let w' := final J.parties.pool w es
    w'.client.out.content = J.file.bytes.take w'.client.currentOffset ∧
      w'.client.currentOffset ≤ J.file.bytes.length ∧
      w'.server.mOffset ≤ w'.client.currentOffset ∧
      w'.client.currentOffset ≤ w'.server.mOffset + w'.server.mLastChunkSize ∧
      (∀ b ∈ w'.down, ∀ m, ControlPacket.parseFromString (received b) = some (.done m) →
        m.transferId = J.args.transferId → m.finalSize.toNat = w'.client.currentOffset →
        w'.client.out.content = J.file.bytes) ∧
      (w'.client.returned = some true → w'.client.out.content = J.file.bytes) := by
  intro w'
  have hholds : J.refinement.Holds w' := hstart.holds_final es
  have hinv : Inv J.setting (J.refinement.world w') := hstart.inv_final es
  have hclient : J.ClientOk w'.client := hholds.client
  obtain ⟨hlow, hhigh⟩ := Pair.offsets hholds hinv
  refine ⟨hclient.out, hclient.offset_le, hlow, hhigh, fun b hb m hparse _ hsize => ?_,
    fun hreturned => hclient.whole (Pair.offset_of_returned hinv hreturned)⟩
  have hdown : J.DownOk b := hholds.down b hb
  exact hclient.whole (hsize.symm.trans (hdown.finalSize hparse))

/-! ### The sample transfer, both ends -/

/-- The two ends of the sample transfer. -/
def samplePair : Pair where
  env := sampleEnv (some sampleFile)
  sha := sampleSha
  args := sampleArgs
  receiver := samplePeer
  path := samplePath
  file := sampleFile
  transfer := sampleTransfer sampleToken
  found := rfl
  id_eq := rfl
  fileSize_eq := rfl

/-- The sample transfer at its start. -/
def sampleWorld : World Session Client Bytes Bytes :=
  ⟨sampleSession, .start, [sampleArgs.getBytes], []⟩

theorem sampleWorld_start : samplePair.Start sampleWorld where
  state := rfl
  offset := rfl
  remote := rfl
  path := rfl
  metadata := rfl
  client := rfl
  up _ hb := Or.inl (List.mem_singleton.mp hb)
  down _ hb := absurd hb List.not_mem_nil
  asked := List.mem_cons_self

/-- The request arrives, and then the chunk does. -/
theorem stop_and_wait_safe_sample :
    (final samplePair.parties.pool sampleWorld [.up 0, .down 0]).client.out.content
      = [(0 : UInt8)].take
          (final samplePair.parties.pool sampleWorld [.up 0, .down 0]).client.currentOffset :=
  (stop_and_wait_safe samplePair sampleWorld_start [.up 0, .down 0]).1

end Zapshare
