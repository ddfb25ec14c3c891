import Zapshare.Duplication
import Zapshare.Progress
import Zapshare.Lib.StopAndWaitUndisturbed

/-!
# An undisturbed transfer

A session and a `receive_file` that lose nothing, get nothing twice and do not time out. Punches and
copies of the `ServerHello` may still be on their way when the transfer starts; they cost one
delivery each, and the transfer itself costs two for each chunk and three more: the request, the end
of the file, and the last acknowledgement.

## Main results

* `undisturbed_completes` — when that many datagrams have been delivered, the session is closed and
  `receive_file` has the file; before, one is always on its way
-/

namespace Zapshare

open Wire UdpConfig Network StopAndWait Machine

namespace Pair

variable {J : Pair} {w : World Session Client Bytes Bytes}

theorem count_get_world : (J.refinement.world w).up.count .get = w.up.countP isGetRequest := by
  show (w.up.map request).count .get = _
  rw [List.count_eq_countP, List.countP_map]
  refine List.countP_congr fun b _ => ?_
  rw [isGetRequest_eq]
  simp

theorem delivers_world (e : FifoEvent) : delivers (J.refinement.world w) e = delivers w e := by
  cases e <;> simp [delivers, Refinement.world]

/-- **What an undisturbed transfer still has to deliver**, seen through the refinement. -/
theorem Start.undisturbed (h : J.Start w) (hid : ShortId J.args.transferId)
    (hhash : J.args.expectedHash = Crypto.hexLower (J.sha.digest J.file.bytes))
    (hregistered : J.transfer.fileHash = J.args.expectedHash)
    (hone : w.up.countP isGetRequest = 1) {es : List FifoEvent} (hes : ∀ e ∈ es, e.IsDelivery) :
    ∃ left, 2 * J.setting.left 0 + 2 + w.up.length + w.down.length
        = left + count J.parties.fifo delivers w es ∧
      StopAndWait.Undisturbed J.setting left (J.refinement.world (final J.parties.fifo w es)) := by
  have hdown : ∀ x ∈ (J.refinement.world w).down, x = .other := by
    intro x hx
    obtain ⟨b, hb, rfl⟩ := List.mem_map.mp hx
    exact (h.reply_mem hb).1
  have hrun := undisturbed_run (readable hid) (doneOk_of_registered hid hhash hregistered)
    (decide_eq_true hhash.symm) h.initial (count_get_world.trans hone) hdown hes
  rw [J.refinement.fifo.count h.holds fun _ e _ => delivers_world e,
    J.refinement.fifo.final h.holds] at hrun
  simpa [Refinement.world] using hrun

end Pair

/-- **An undisturbed transfer with a short id succeeds.** The hash that was registered is that of
the file, nothing is lost, copied or overtaken, `receive_file` does not time out, and one request is
on its way to the session, with punches and copies of the `ServerHello` besides. Then a transfer of
`n` chunks delivers `2 * n + 3` datagrams, and each of those besides, and no more. As long as there
are fewer, one is on its way; and then the session is closed, `receive_file` has returned true, and
its output is the file. -/
theorem undisturbed_completes (J : Pair) (hid : ShortId J.args.transferId)
    {w : World Session Client Bytes Bytes} (hstart : J.Start w)
    (hhash : J.args.expectedHash = Crypto.hexLower (J.sha.digest J.file.bytes))
    (hregistered : J.transfer.fileHash = J.args.expectedHash)
    (hone : w.up.countP Pair.isGetRequest = 1) {es : List FifoEvent}
    (hes : ∀ e ∈ es, e = .up ∨ e = .down) :
    let chunks := (J.file.bytes.length + payloadSize - 1) / payloadSize
    let total := 2 * chunks + 3 + (w.up.length - 1) + w.down.length
    let delivered := count J.parties.fifo delivers w es
    let w' := final J.parties.fifo w es
    delivered ≤ total ∧
      (delivered < total → w'.up ≠ [] ∨ w'.down ≠ []) ∧
      (delivered = total → w'.server.mState = .closed ∧ w'.client.returned = some true ∧
        w'.client.out.content = J.file.bytes) := by
  intro chunks total delivered w'
  obtain ⟨left, htotal, hleft⟩ := hstart.undisturbed hid hhash hregistered hone hes
  have hchunks : J.setting.left 0 = chunks := rfl
  have hup : 1 ≤ w.up.length := hone ▸ List.countP_le_length
  have hcount : total = left + delivered := by
    simp only [total, ← hchunks]
    omega
  refine ⟨by omega, fun hlt => ?_, fun heq => ?_⟩
  · obtain ⟨k, rfl⟩ : ∃ k, left = k + 1 := ⟨left - 1, by omega⟩
    refine hleft.in_flight.imp ?_ ?_
    · exact fun h hnil => h (by simp [Refinement.world, hnil, w'])
    · exact fun h hnil => h (by simp [Refinement.world, hnil, w'])
  · obtain rfl : left = 0 := by omega
    have hholds : J.refinement.Holds w' := J.refinement.fifo.invariant hstart.holds es
    obtain ⟨hserver, hclient⟩ := hleft.finished
    have hserver : Pair.sender w'.server = .closed := hserver
    have hclient : Pair.receiverOf w'.client
        = { offset := J.file.bytes.length, result := some true } := hclient
    refine ⟨?_, congrArg Receiver.result hclient, ?_⟩
    · rw [Pair.sender] at hserver
      split at hserver <;> simp_all
    · exact Pair.ClientOk.whole hholds.client (congrArg Receiver.offset hclient)

/-- The sample transfer takes five datagrams. -/
theorem undisturbed_completes_sample :
    let es : List FifoEvent := [.up, .down, .up, .down, .up]
    (final registeredPair.parties.fifo registeredWorld es).client.returned = some true := by
  intro es
  have hget : registeredWorld.up.countP Pair.isGetRequest = 1 := by
    rw [← @Pair.count_get_world registeredPair, world_registered]
    rfl
  have hes : ∀ e ∈ es, e = .up ∨ e = .down := by decide
  have hrun := undisturbed_completes registeredPair ⟨by decide, by decide⟩ registeredWorld_start
    rfl rfl hget hes
  refine (hrun.2.2 ?_).2.1
  rw [← registeredPair.refinement.fifo.count registeredWorld_start.holds
    fun _ e _ => Pair.delivers_world e, world_registered]
  decide

end Zapshare
