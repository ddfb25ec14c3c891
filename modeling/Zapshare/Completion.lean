import Zapshare.Delivery

/-!
# Who finishes first

The end of the last chunk is the end of the file, and `send_next_chunk` leaves the size of the last
chunk at zero when it sends `Done`: from then on the acknowledgement of the last chunk and the
acknowledgement of `Done` are the same datagram. A copy of the first closes the session, and a
receiver that still waits for `Done` will never get it.

## Main results

* `closed_after_done_iff` — the session finishes second exactly if the acknowledgement of the whole
  file reaches it at most once before that
-/

namespace Zapshare

open Wire UdpConfig Network StopAndWait Machine

namespace Pair

variable (J : Pair)

/-- The event hands the session an `Ack` of the whole file, and `receive_file` has not accepted
`Done`. -/
def finalAck (w : World Session Client Bytes Bytes) : PoolEvent → Bool
  | .up i =>
    match (w.up[i]?).bind fun b => ControlPacket.parseFromString (received b) with
    | some (.ack ack) =>
      ack.nextOffset.toNat = J.file.bytes.length && w.client.returned ≠ some true
    | _ => false
  | _ => false

variable {J} {w : World Session Client Bytes Bytes}

/-- It is what stop-and-wait calls a final acknowledgement. -/
theorem finalAck_world (e : PoolEvent) :
    StopAndWait.finalAck J.setting (J.refinement.world w) e = J.finalAck w e := by
  cases e with
  | down i => rfl
  | timeout => rfl
  | up i =>
    show ((w.up.map request)[i]? = some (.ack J.file.bytes.length) &&
      w.client.returned ≠ some true : Bool) = _
    rw [List.getElem?_map, finalAck]
    rcases w.up[i]? with _ | b
    · rfl
    · obtain ⟨p, hp⟩ : ∃ p, ControlPacket.parseFromString (received b) = p := ⟨_, rfl⟩
      rcases p with _ | (_ | get | ack | m | m | e) <;> simp [request, hp]

theorem sender_eq_closed_iff {s : Session} : sender s = .closed ↔ s.mState = .closed := by
  rw [sender]
  split <;> simp_all

end Pair

/-- **Who finishes first.** In no state of a run the session is closed before `receive_file` has
accepted `Done`, exactly if the file is empty or at most one `Ack` of the whole file is handed to
the session before that. The session of a transfer is only closed by a final `Ack`. -/
theorem closed_after_done_iff (J : Pair) {w : World Session Client Bytes Bytes}
    (hstart : J.Start w) (es : List PoolEvent) :
    (∀ pre, pre <+: es → (final J.parties.pool w pre).server.mState = .closed →
        (final J.parties.pool w pre).client.returned = some true) ↔
      J.file.bytes = [] ∨ count J.parties.pool J.finalAck w es ≤ 1 := by
  have hrefines := J.refinement.pool
  have hholds := hstart.holds
  have hnever : NeverFirst J.setting (J.refinement.world w) es ↔
      ∀ pre, pre <+: es → (final J.parties.pool w pre).server.mState = .closed →
        (final J.parties.pool w pre).client.returned = some true := by
    refine forall₂_congr fun pre _ => ?_
    rw [hrefines.final hholds]
    exact imp_congr_left Pair.sender_eq_closed_iff
  have hcount : count J.setting.parties.pool (StopAndWait.finalAck J.setting)
      (J.refinement.world w) es = count J.parties.pool J.finalAck w es :=
    hrefines.count hholds (fun _ e _ => Pair.finalAck_world e) es
  have hempty : J.setting.length = 0 ↔ J.file.bytes = [] := List.length_eq_zero_iff
  rw [← hnever, never_first_iff hstart.initial, hcount, hempty]

/-- One `Ack` of the whole file, and it only leads to the `Done`. -/
theorem closed_after_done_iff_sample :
    (∀ pre, pre <+: [PoolEvent.up 0, .down 0, .up 1] →
        (final samplePair.parties.pool sampleWorld pre).server.mState = .closed →
        (final samplePair.parties.pool sampleWorld pre).client.returned = some true) ↔
      sampleFile.bytes = [] ∨
        count samplePair.parties.pool samplePair.finalAck sampleWorld [.up 0, .down 0, .up 1] ≤ 1 :=
  closed_after_done_iff samplePair sampleWorld_start _

theorem sampleWorld_view :
    samplePair.refinement.world sampleWorld = ⟨.idle, {}, [.get], []⟩ := by
  have hget : Pair.request samplePair.args.getBytes = .get :=
    Pair.request_getBytes.trans (if_pos (by decide))
  exact congrArg (fun m => (⟨.idle, {}, [m], []⟩ : Transfer)) hget

/-- **The sender declares the transfer complete too early.** The network delivers the
acknowledgement of the only chunk twice: the first copy makes the session send `Done`, and the
second one closes it, while `receive_file` still waits for that `Done`. -/
theorem session_closed_first :
    (final samplePair.parties.pool sampleWorld [.up 0, .down 0, .up 1, .up 1]).server.mState
        = .closed ∧
      (final samplePair.parties.pool sampleWorld [.up 0, .down 0, .up 1, .up 1]).client.returned
        = none := by
  have hrun := samplePair.refinement.pool.final sampleWorld_start.holds
    [.up 0, .down 0, .up 1, .up 1]
  rw [sampleWorld_view] at hrun
  have hview : final samplePair.setting.parties.pool ⟨.idle, {}, [.get], []⟩
      [.up 0, .down 0, .up 1, .up 1]
        = ⟨.closed, ⟨1, 0, none⟩, [.get, .ack 1], [.chunk 0, .done]⟩ := by
    decide
  rw [hview] at hrun
  exact ⟨Pair.sender_eq_closed_iff.mp (congrArg World.server hrun).symm,
    congrArg (fun w => w.client.result) hrun.symm⟩

end Zapshare
