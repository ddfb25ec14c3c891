import Zapshare.Acceptance

/-!
# A hello that arrives twice

`perform_handshake` sends its hello again whenever no answer came in time, and to every candidate
address. An authenticated session hands such a copy to `handle_control_packet`, and there it
decodes as a `GetRequest` without transfer id, which `handle_get_request` does not look at. So the
transfer starts, and the sender's answer to the hello is not repeated.

## Main results

* `Session.receive_hello_again` — what the second copy of a hello does
* `hello_retry_never_answered` — it is never answered, and the session never stays as it was
-/

namespace Zapshare

open Wire

/-- The second copy of a hello is answered as the first one was, and does nothing else. -/
structure RetryAnswered (h : ClientHello) (r : Session × List Datagram) : Prop where
  answered : ∃ g ∈ r.2, ∃ m : ServerHello,
    g.bytes = (HandshakePacket.serverHello m).serializeToString ∧ m.transferId = h.transferId
  state : r.1.mState = .authenticated
  quiet : ∀ g ∈ r.2, ¬ IsTransferPacket g.bytes

/-- A hello that survives the receive buffer is a request to a side that expects control
packets. -/
theorem parse_received_hello_as_control {h : ClientHello} (hdeliver : h.deliverable = true) :
    ControlPacket.parseFromString (received (HandshakePacket.clientHello h).serializeToString)
      = some (.get {}) := by
  simp only [ClientHello.deliverable, Bool.and_eq_true, decide_eq_true_eq] at hdeliver
  rw [received, parse_clientHello_as_control h (by decide) (by decide), if_pos hdeliver.1]

/-- **What the second copy of a hello does.** The transfer starts when the file can be opened, and
the session closes when it cannot. -/
theorem Session.receive_hello_again {s : Session} (hstate : s.mState = .authenticated)
    (hoffset : s.mOffset = 0) {h : ClientHello} (hdeliver : h.deliverable = true) (env : Env)
    (sender : Endpoint) :
    (∃ F : FileContent, env.files s.mFilePath = some F ∧
      (s.receive env (HandshakePacket.clientHello h).serializeToString sender).1.mState
        = .transferring ∧
      (s.receive env (HandshakePacket.clientHello h).serializeToString sender).2
        = s.sendMessage (packetAt s.mTransferMetadata F.bytes 0).serializeToString) ∨
    (env.files s.mFilePath = none ∧
      (s.receive env (HandshakePacket.clientHello h).serializeToString sender).1.mState
        = .closed) := by
  rw [s.receive_eq_step env (HandshakePacket.serialize_clientHello_ne_nil h) sender]
  rcases Session.step_get_authenticated hstate hoffset
      (d := ⟨env, received (HandshakePacket.clientHello h).serializeToString, sender⟩)
      (parse_received_hello_as_control hdeliver) with
    ⟨F, file, hfile, -, heq⟩ | ⟨hfile, hclosed, -⟩
  · exact Or.inl ⟨F, hfile, by rw [heq]; rfl, by rw [heq]⟩
  · exact Or.inr ⟨hfile, hclosed⟩

theorem not_retryAnswered {s : Session} (hstate : s.mState = .authenticated)
    (hoffset : s.mOffset = 0) {h : ClientHello} (hdeliver : h.deliverable = true) (env : Env)
    (sender : Endpoint) :
    ¬ RetryAnswered h
      (s.receive env (HandshakePacket.clientHello h).serializeToString sender) := by
  intro hanswered
  have hauth := hanswered.state
  rcases Session.receive_hello_again hstate hoffset hdeliver env sender with
    ⟨F, -, htransferring, -⟩ | ⟨-, hclosed⟩
  · simp [htransferring] at hauth
  · simp [hclosed] at hauth

variable {remote : Endpoint} {path : Bytes} {ds : List Delivery}

/-- The session was authenticated by these bytes. -/
def AuthenticatedBy (es : List SessionEntry) (bytes : Bytes) : Prop :=
  ∃ e ∈ es, e.before.mState = .waitingHello ∧ e.after.mState = .authenticated ∧
    e.input.data = received bytes

theorem AuthenticatedBy.deliverable {h : ClientHello}
    (hauth : AuthenticatedBy (Machine.trace Session.step (Session.fresh remote path) ds)
      (HandshakePacket.clientHello h).serializeToString) : h.deliverable = true := by
  obtain ⟨e, he, hbefore, hafter, hdata⟩ := hauth
  have hstep := (Machine.step_of_mem_trace he).1
  rcases Session.step_waitingHello hbefore e.input with
    ⟨out, heq, -⟩ | ⟨m, -, heq⟩ | ⟨h', t, hparse, -⟩
  · rw [← (Prod.mk.inj (hstep.symm.trans heq)).1.symm] at hafter
    simp [hbefore] at hafter
  · rw [(Prod.mk.inj (hstep.symm.trans heq)).1] at hafter
    simp at hafter
  · exact (deliverable_of_accepts ⟨hbefore, hafter, hparse⟩ hdata).1

/-- **The second copy of a hello is never answered.** In every run that has accepted `h` and has
not been asked for the file yet, the same bytes make the session send the first packet of the
transfer, or close when the file is not there. -/
theorem hello_retry_never_answered {h : ClientHello}
    (hauth : AuthenticatedBy (Machine.trace Session.step (Session.fresh remote path) ds)
      (HandshakePacket.clientHello h).serializeToString)
    (hstate : (Machine.final Session.step (Session.fresh remote path) ds).mState = .authenticated)
    (env : Env) (sender : Endpoint) :
    let s := Machine.final Session.step (Session.fresh remote path) ds
    let r := s.receive env (HandshakePacket.clientHello h).serializeToString sender
    ¬ RetryAnswered h r ∧
      (∀ F, env.files path = some F → r.1.mState = .transferring ∧
        r.2 = [⟨s.mRemoteEndpoint, (packetAt s.mTransferMetadata F.bytes 0).serializeToString⟩]) ∧
      (env.files path = none → r.1.mState = .closed) := by
  intro s r
  have hinv := Session.inv_any remote path ds
  have hoffset := hinv.offset_zero (Or.inr hstate)
  have hdeliver := hauth.deliverable
  refine ⟨not_retryAnswered hstate hoffset hdeliver env sender, fun F hF => ?_, fun hnone => ?_⟩
  · rcases Session.receive_hello_again hstate hoffset hdeliver env sender with
      ⟨G, hG, htransferring, hout⟩ | ⟨hnone, -⟩
    · rw [hinv.path, hF, Option.some.injEq] at hG
      subst hG
      exact ⟨htransferring, hout⟩
    · simp [hinv.path, hF] at hnone
  · rcases Session.receive_hello_again hstate hoffset hdeliver env sender with
      ⟨G, hG, -, -⟩ | ⟨-, hclosed⟩
    · simp [hinv.path, hnone] at hG
    · exact hclosed

/-- The sample session, authenticated by its hello. -/
theorem sampleRun_authenticatedBy :
    AuthenticatedBy (Machine.trace Session.step sampleFresh sampleRun)
      (HandshakePacket.clientHello (sampleHello sampleToken)).serializeToString :=
  ⟨_, List.mem_cons_self, rfl, congrArg (fun r => r.1.mState) step_sampleFresh, rfl⟩

theorem hello_retry_never_answered_sample :
    let s := Machine.final Session.step sampleFresh sampleRun
    let r := s.receive (sampleEnv (some sampleFile))
      (HandshakePacket.clientHello (sampleHello sampleToken)).serializeToString samplePeer
    ¬ RetryAnswered (sampleHello sampleToken) r ∧
      (∀ F, (sampleEnv (some sampleFile)).files samplePath = some F → r.1.mState = .transferring ∧
        r.2 = [⟨s.mRemoteEndpoint, (packetAt s.mTransferMetadata F.bytes 0).serializeToString⟩]) ∧
      ((sampleEnv (some sampleFile)).files samplePath = none → r.1.mState = .closed) :=
  hello_retry_never_answered sampleRun_authenticatedBy (congrArg Session.mState final_sampleRun) _ _

/-- The sample session takes the second copy of its hello for a request. -/
theorem sampleSession_retry_not_answered :
    AuthenticatedBy (Machine.trace Session.step sampleFresh sampleRun)
        (HandshakePacket.clientHello (sampleHello sampleToken)).serializeToString ∧
      Machine.final Session.step sampleFresh sampleRun = sampleSession ∧
      sampleSession.mState = .authenticated ∧
      ¬ RetryAnswered (sampleHello sampleToken)
        (sampleSession.receive (sampleEnv (some sampleFile))
          (HandshakePacket.clientHello (sampleHello sampleToken)).serializeToString samplePeer) :=
  ⟨sampleRun_authenticatedBy, final_sampleRun, rfl,
    not_retryAnswered rfl rfl sampleHello_deliverable _ _⟩

end Zapshare
