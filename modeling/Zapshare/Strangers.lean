import Zapshare.Acceptance

/-!
# Strangers

`Server::do_receive` takes datagrams from anyone, "but `handle_packet` filters". An established
session compares neither the sender of a datagram with its peer, nor the transfer id inside a
control packet with its own; what it does to a datagram of a stranger is decided by `Inert`, as for
everybody else.

## Main results

* `Session.step_eq_self_iff` — an established session ignores exactly the inert datagrams
* `strangers_interfere_iff` — strangers leave no trace in a run exactly as long as all they send is
  inert
-/

namespace Zapshare

open Wire

/-- The transfer id of a control packet the session reacts to. -/
def ControlPacket.requestId : ControlPacket → Option Bytes
  | .get m => some m.transferId
  | .ack m => some m.transferId
  | .error m => some m.transferId
  | _ => none

/-- The datagram comes from a stranger, or is about another transfer. -/
def Session.Foreign (s : Session) (d : Delivery) : Prop :=
  d.sender ≠ s.mRemoteEndpoint ∨
    ∃ id, (ControlPacket.parseFromString d.data).bind ControlPacket.requestId = some id ∧
      id ≠ s.mTransferMetadata.id

instance (s : Session) (d : Delivery) : Decidable (s.Foreign d) :=
  inferInstanceAs (Decidable (_ ∨ _))

/-- The datagrams that ought to be ignored. -/
def Session.foreignTo (s : Session) (d : Delivery) : Bool := decide (s.Established ∧ s.Foreign d)

/-! ### What an established session ignores -/

/-- A session that is in another state afterwards did not ignore the datagram. -/
theorem Session.ne_self_of_state {s : Session} {r : Session × List Datagram}
    (h : r.1.mState ≠ s.mState) : r ≠ (s, []) := fun heq => h (by rw [heq])

/-- A session that answered did not ignore the datagram. -/
theorem Session.ne_self_of_sent {s s' t : Session} {msg : Bytes} :
    (s', t.sendMessage msg) ≠ (s, []) := fun heq => by
  simpa [sendMessage] using congrArg Prod.snd heq

theorem Session.step_eq_self_iff_of_authenticated {s : Session} (hstate : s.mState = .authenticated)
    (hoffset : s.mOffset = 0) (d : Delivery) : s.step d = (s, []) ↔ s.Inert d.data := by
  rcases Session.step_authenticated hstate hoffset d with
    ⟨hinert, heq⟩ | ⟨e, hparse, heq⟩ | ⟨get, m, hparse, -, heq⟩ |
    ⟨get, file, F, hparse, -, -, heq⟩ <;> rw [heq]
  · exact iff_of_true rfl hinert
  · exact iff_of_false (ne_self_of_state (by simp [hstate])) (by simp [Inert, hparse])
  · exact iff_of_false (ne_self_of_state (by simp [hstate])) (by simp [Inert, hparse])
  · exact iff_of_false (ne_self_of_state (by simp [sentAt, hstate])) (by simp [Inert, hparse])

theorem Session.step_eq_self_iff_of_transferring {s : Session} {F : Bytes}
    (hstate : s.mState = .transferring) (hlock : s.Lockstep F) (hF : F.length < 2 ^ 63)
    (d : Delivery) : s.step d = (s, []) ↔ s.Inert d.data := by
  rcases Session.step_transferring hstate hlock hF d with
    ⟨hinert, heq⟩ | ⟨hcause, heq⟩ | ⟨ack, file, hparse, hack, -, -, heq⟩ | ⟨hcause, heq⟩ <;>
    rw [heq]
  · exact iff_of_true rfl hinert
  · refine iff_of_false ne_self_of_sent ?_
    rcases hcause with ⟨get, hparse⟩ | ⟨ack, hparse, hack, -⟩
    · simp [Inert, hparse]
    · simp [Inert, hparse, hstate, hack]
  · refine iff_of_false ne_self_of_sent fun hinert => ?_
    simp only [Inert, hparse] at hinert
    exact (hinert hstate).1 (hack.trans (hlock.expectedOffset hF).symm)
  · refine iff_of_false (ne_self_of_state (by simp [hstate])) ?_
    rcases hcause with ⟨e, hparse⟩ | ⟨ack, hparse, hack, hend⟩
    · simp [Inert, hparse]
    · simp [Inert, hparse, hstate, hack, hend]

/-- **An established session ignores exactly the inert datagrams**, whoever sent them. -/
theorem Session.Inv.step_eq_self_iff {K : FileContent → Prop} {path : Bytes} {s : Session}
    (hinv : s.Inv K path) (hs : s.Established) (d : Delivery) :
    s.step d = (s, []) ↔ s.Inert d.data := by
  rcases hs with hstate | hstate
  · exact Session.step_eq_self_iff_of_authenticated hstate (hinv.offset_zero (Or.inr hstate)) d
  · obtain ⟨F, -, hlock⟩ := hinv.lockstep hstate
    exact Session.step_eq_self_iff_of_transferring hstate hlock F.length_lt d

/-! ### Strangers in a run -/

/-- Nothing happened at the datagrams that ought to be ignored. -/
def Undisturbed (es : List SessionEntry) : Prop :=
  ∀ e ∈ es, e.before.foreignTo e.input → e.after = e.before ∧ e.output = []

/-- Everything that ought to be ignored asks nothing of the session. -/
def StrangersInert (es : List SessionEntry) : Prop :=
  ∀ e ∈ es, e.before.foreignTo e.input → e.before.Inert e.input.data

variable {remote : Endpoint} {path : Bytes}

theorem undisturbed_iff (ds : List Delivery) :
    Undisturbed (Machine.trace Session.step (Session.fresh remote path) ds) ↔
      StrangersInert (Machine.trace Session.step (Session.fresh remote path) ds) := by
  refine forall₂_congr fun e he => imp_congr_right fun hforeign => ?_
  have hinv := (Machine.trace_invariant (P := fun s => s.Inv (fun _ => True) path)
    (Q := fun _ => True) (fun s d h _ => h.step fun _ _ => trivial)
    (Session.inv_fresh remote) (fun _ _ => trivial) e he).1
  rw [← hinv.step_eq_self_iff (of_decide_eq_true hforeign).1 e.input,
    (Machine.step_of_mem_trace he).1, Prod.mk.injEq]

/-- **Strangers.** In every run, the datagrams of strangers and those about other transfers change
and send nothing exactly when all of them are inert; and then the run without them passes through
the same states and sends the same datagrams. -/
theorem strangers_interfere_iff (ds : List Delivery) :
    let es := Machine.trace Session.step (Session.fresh remote path) ds
    (Undisturbed es ↔ StrangersInert es) ∧
      (StrangersInert es →
        let kept := Machine.keep Session.step Session.foreignTo (Session.fresh remote path) ds
        Machine.trace Session.step (Session.fresh remote path) kept
            = es.filter (fun e => !e.before.foreignTo e.input) ∧
          Machine.final Session.step (Session.fresh remote path) kept
            = Machine.final Session.step (Session.fresh remote path) ds ∧
          Machine.outputs Session.step (Session.fresh remote path) kept
            = Machine.outputs Session.step (Session.fresh remote path) ds) := by
  refine ⟨undisturbed_iff ds, fun hinert => ?_⟩
  have hignored : ∀ e ∈ Machine.trace Session.step (Session.fresh remote path) ds,
      e.before.foreignTo e.input → e.before.step e.input = (e.before, []) := by
    intro e he hforeign
    obtain ⟨hafter, hout⟩ := (undisturbed_iff ds).mpr hinert e he hforeign
    rw [(Machine.step_of_mem_trace he).1, hafter, hout]
  exact ⟨Machine.trace_keep hignored, Machine.run_keep hignored⟩

/-- A peer the sample session never heard of. -/
def sampleStranger : Endpoint := ⟨[10, 0, 0, 1], 9⟩

/-- The stranger's report of an error in a transfer nobody knows. -/
def sampleError : Delivery :=
  .ofControl (sampleEnv (some sampleFile)) (.error { transferId := text "x" }) sampleStranger

/-- One datagram of a stranger ends the sample transfer. -/
theorem stranger_closes_session :
    Machine.final Session.step sampleFresh sampleRun = sampleSession ∧
      sampleSession.Established ∧ sampleError.sender ≠ sampleSession.mRemoteEndpoint ∧
      (∃ e, ControlPacket.parseFromString sampleError.data = some (.error e) ∧
        e.transferId ≠ sampleSession.mTransferMetadata.id) ∧
      (sampleSession.step sampleError).1.mState = .closed ∧
      sampleSession.step sampleError ≠ (sampleSession, []) := by
  have hparse : ControlPacket.parseFromString sampleError.data
      = some (.error { transferId := text "x" }) := by
    rw [sampleError, Delivery.ofControl, ControlPacket.parse_received, if_pos (by decide)]
  have hclosed : (sampleSession.step sampleError).1.mState = .closed := by
    rw [Session.step_control (Or.inl rfl), Session.handleControlPacket, hparse]
  refine ⟨final_sampleRun, Or.inl rfl, by decide, ⟨_, hparse, by decide⟩, hclosed, fun hself => ?_⟩
  rw [hself] at hclosed
  simp [sampleSession] at hclosed

end Zapshare
