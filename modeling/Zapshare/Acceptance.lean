import Mathlib.Data.List.Induction
import Zapshare.Chunking

/-!
# The hello a session accepts

A session accepts at most one hello, and everything it knows of the transfer afterwards is the
answer of the central server for the token of that hello. The central server is a `Store`: the
row of a token is the transfer registered under it.

## Main results

* `Session.step_hello` — a hello with a known token authenticates its sender
* `accepted_of_established` — behind every established session there is an accepted hello
* `AcceptedHello.unique` — there is never another one
-/

namespace Zapshare

open Wire

/-- The transfers registered with the central server. `/getfile/<s>` returns the row with id
`s`. -/
structure Store where
  row : Bytes → Option Transfers
  id_row : ∀ {token t}, row token = some t → t.id = token

/-- The session has accepted a hello, and is not closed. -/
def Session.Established (s : Session) : Prop :=
  s.mState = .authenticated ∨ s.mState = .transferring

instance (s : Session) : Decidable s.Established :=
  inferInstanceAs (Decidable (s.mState = .authenticated ∨ s.mState = .transferring))

/-- The datagram is a hello the checks of `handle_handshake_packet` let through. -/
def Delivery.Acceptable (d : Delivery) (h : ClientHello) : Prop :=
  HandshakePacket.parseFromString d.data = some (.clientHello h) ∧ h.version = protocolVersion1 ∧
    h.token ≠ [] ∧ (d.env.getTransferMetadata h.token).isSome

/-- The session accepted the hello `h` at this entry. -/
def Accepts (e : SessionEntry) (h : ClientHello) : Prop :=
  e.before.mState = .waitingHello ∧ e.after.mState = .authenticated ∧
    HandshakePacket.parseFromString e.input.data = some (.clientHello h)

/-- The session accepted the hello `h` during a run. -/
def AcceptedHello (es : List SessionEntry) (h : ClientHello) : Prop := ∃ e ∈ es, Accepts e h

theorem AcceptedHello.mono {es es' : List SessionEntry} {h : ClientHello}
    (ha : AcceptedHello es h) : AcceptedHello (es ++ es') h := by
  obtain ⟨e, he, ha⟩ := ha
  exact ⟨e, List.mem_append_left _ he, ha⟩

/-! ### Accepting -/

/-- **A hello with a known token authenticates its sender**, whoever that is. -/
theorem Session.step_hello {s : Session} (hstate : s.mState = .waitingHello) {d : Delivery}
    {h : ClientHello} {t : Transfers}
    (hparse : HandshakePacket.parseFromString d.data = some (.clientHello h))
    (hversion : h.version = protocolVersion1) (htoken : h.token ≠ [])
    (ht : d.env.getTransferMetadata h.token = some t) :
    s.step d
      = ({ s with mRemoteEndpoint := d.sender, mTransferMetadata := t, mState := .authenticated },
          [⟨d.sender, (HandshakePacket.serverHello (serverHello d.env h)).serializeToString⟩]) := by
  simp only [Session.step, handlePacket, hstate, handleHandshakePacket, hparse, hversion,
    ne_eq, not_true_eq_false, if_false, htoken, validateToken, ht]
  rfl

/-- A session that waits accepts exactly the acceptable hellos. -/
theorem accepts_iff_acceptable {s : Session} (hstate : s.mState = .waitingHello) (d : Delivery)
    (h : ClientHello) :
    Accepts ⟨s, d, (s.step d).1, (s.step d).2⟩ h ↔ d.Acceptable h := by
  constructor
  · rintro ⟨-, hafter, hparse⟩
    rcases Session.step_waitingHello hstate d with
      ⟨out, heq, -⟩ | ⟨m, -, heq⟩ | ⟨hello, t, hhello, hversion, htoken, ht, -⟩
    · simp [heq, hstate] at hafter
    · simp [heq] at hafter
    · simp only [hhello, Option.some.injEq, HandshakePacket.clientHello.injEq] at hparse
      subst hparse
      exact ⟨hhello, hversion, htoken, by rw [ht]; rfl⟩
  · rintro ⟨hparse, hversion, htoken, ht⟩
    obtain ⟨t, ht⟩ := Option.isSome_iff_exists.mp ht
    exact ⟨hstate, by rw [Session.step_hello hstate hparse hversion htoken ht], hparse⟩

/-! ### Hellos as they arrive -/

/-- The hello `h` as it is handed to the session. -/
def Delivery.ofHello (env : Env) (h : ClientHello) (sender : Endpoint) : Delivery :=
  ⟨env, received (HandshakePacket.clientHello h).serializeToString, sender⟩

/-- The control packet `p` as it is handed to the session. -/
def Delivery.ofControl (env : Env) (p : ControlPacket) (sender : Endpoint) : Delivery :=
  ⟨env, received p.serializeToString, sender⟩

/-- A hello survives a receive buffer: it fits, and its strings are UTF-8. -/
def ClientHello.deliverable (h : ClientHello) : Bool :=
  (HandshakePacket.clientHello h).serializeToString.length ≤ UdpConfig.maxPacketSize &&
    h.stringsValid

theorem parse_received_clientHello (h : ClientHello) :
    HandshakePacket.parseFromString (received (HandshakePacket.clientHello h).serializeToString)
      = if h.deliverable then some (.clientHello h) else none := by
  rw [received, parse_clientHello h (by decide) (by decide)]
  simp [ClientHello.deliverable]

theorem received_ne_nil {bytes : Bytes} (h : bytes ≠ []) : received bytes ≠ [] := by
  intro hnil
  rcases List.take_eq_nil_iff.mp hnil with hzero | hnil
  · exact absurd hzero (by decide)
  · exact h hnil

theorem HandshakePacket.serialize_clientHello_ne_nil (h : ClientHello) :
    (HandshakePacket.clientHello h).serializeToString ≠ [] :=
  List.ne_nil_of_length_pos (by
    simpa [serializeToString, HandshakePacket.records, messageField]
      using encodeRecord_length_pos _)

/-- A received datagram is handed on, unless it is empty. -/
theorem Session.receive_eq_step (env : Env) (s : Session) {bytes : Bytes} (h : bytes ≠ [])
    (sender : Endpoint) : s.receive env bytes sender = s.step ⟨env, received bytes, sender⟩ := by
  simp only [Session.receive, if_neg (received_ne_nil h), Session.step]

theorem Session.step_ofHello {s : Session} (hstate : s.mState = .waitingHello) {env : Env}
    {h : ClientHello} {t : Transfers} (sender : Endpoint) (hdeliver : h.deliverable = true)
    (hversion : h.version = protocolVersion1) (htoken : h.token ≠ [])
    (ht : env.getTransferMetadata h.token = some t) :
    s.step (.ofHello env h sender)
      = ({ s with mRemoteEndpoint := sender, mTransferMetadata := t, mState := .authenticated },
          [⟨sender, (HandshakePacket.serverHello (serverHello env h)).serializeToString⟩]) := by
  refine Session.step_hello (d := .ofHello env h sender) hstate ?_ hversion htoken ht
  rw [Delivery.ofHello, parse_received_clientHello, if_pos hdeliver]

/-- A hello that was accepted has survived the receive buffer. -/
theorem deliverable_of_accepts {e : SessionEntry} {h h' : ClientHello} (ha : Accepts e h')
    (hdata : e.input.data = received (HandshakePacket.clientHello h).serializeToString) :
    h.deliverable = true ∧ h' = h := by
  have hparse := ha.2.2
  rw [hdata, parse_received_clientHello] at hparse
  split at hparse
  · rename_i hdeliver
    simp only [Option.some.injEq, HandshakePacket.clientHello.injEq] at hparse
    exact ⟨hdeliver, hparse.symm⟩
  · simp at hparse

/-! ### No way back -/

/-- A session that is past the handshake stays past it. -/
theorem Session.Inv.not_waiting_step {K : FileContent → Prop} {path : Bytes} {s : Session}
    (hinv : s.Inv K path) (h : s.mState ≠ .waitingHello) (d : Delivery) :
    (s.step d).1.mState ≠ .waitingHello ∧
      ((s.step d).1.Established → s.Established ∧
        (s.step d).1.mTransferMetadata = s.mTransferMetadata ∧
        (s.step d).1.mRemoteEndpoint = s.mRemoteEndpoint) := by
  cases hstate : s.mState with
  | waitingHello => exact absurd hstate h
  | authenticated =>
    rcases Session.step_authenticated hstate (hinv.offset_zero (Or.inr hstate)) d with
      ⟨-, heq⟩ | ⟨e, -, heq⟩ | ⟨get, m, -, -, heq⟩ | ⟨get, file, G, -, -, -, heq⟩ <;> rw [heq]
    · exact ⟨by simp [hstate], fun hs => ⟨hs, rfl, rfl⟩⟩
    · exact ⟨by simp, fun hs => by simp [Established] at hs⟩
    · exact ⟨by simp, fun hs => by simp [Established] at hs⟩
    · exact ⟨by simp [sentAt], fun _ => ⟨Or.inl hstate, rfl, rfl⟩⟩
  | transferring =>
    obtain ⟨F, -, hlock⟩ := hinv.lockstep hstate
    rcases Session.step_transferring hstate hlock F.length_lt d with
      ⟨-, heq⟩ | ⟨-, heq⟩ | ⟨ack, file, -, -, -, -, heq⟩ | ⟨-, heq⟩ <;> rw [heq]
    · exact ⟨by simp [hstate], fun hs => ⟨hs, rfl, rfl⟩⟩
    · exact ⟨by simp [hstate], fun hs => ⟨hs, rfl, rfl⟩⟩
    · exact ⟨by simp [sentAt, hstate], fun _ => ⟨Or.inr hstate, rfl, rfl⟩⟩
    · exact ⟨by simp, fun hs => by simp [Established] at hs⟩
  | closed =>
    rw [Session.step_closed hstate]
    exact ⟨by simp [hstate], fun hs => ⟨hs, rfl, rfl⟩⟩

variable {remote : Endpoint} {path : Bytes} {ds : List Delivery}

/-- Nothing is known of the files of an arbitrary run. -/
theorem Session.inv_any (remote : Endpoint) (path : Bytes) (ds : List Delivery) :
    (Machine.final Session.step (fresh remote path) ds).Inv (fun _ => True) path :=
  Session.inv_final remote fun _ _ _ _ => trivial

/-- **Behind every established session there is an accepted hello**, and its sender and the row of
its token are what the session goes by. -/
theorem accepted_of_established (ds : List Delivery) :
    let es := Machine.trace Session.step (Session.fresh remote path) ds
    let s := Machine.final Session.step (Session.fresh remote path) ds
    s.Established → ∃ e ∈ es, ∃ h, Accepts e h ∧ e.input.Acceptable h ∧
      e.input.env.getTransferMetadata h.token = some s.mTransferMetadata ∧
      e.input.sender = s.mRemoteEndpoint := by
  induction ds using List.reverseRecOn with
  | nil => intro es s h; simp [s, Session.fresh, Session.Established] at h
  | append_singleton ds d ih =>
    intro es s hs
    have hinv := Session.inv_any remote path ds
    simp only [es, s, Machine.trace_append, Machine.final_append, Machine.final_cons,
      Machine.final_nil, Machine.trace_cons, Machine.trace_nil] at hs ⊢
    set s₀ := Machine.final Session.step (Session.fresh remote path) ds
    by_cases hwait : s₀.mState = .waitingHello
    · rcases Session.step_waitingHello hwait d with
        ⟨out, heq, -⟩ | ⟨m, -, heq⟩ | ⟨h, t, hparse, hversion, htoken, ht, heq⟩
      · simp [heq, hwait, Session.Established] at hs
      · simp [heq, Session.Established] at hs
      · refine ⟨_, List.mem_append_right _ List.mem_cons_self, h, ?_, ?_, ?_, ?_⟩
        · exact ⟨hwait, by rw [heq], hparse⟩
        · exact ⟨hparse, hversion, htoken, by rw [ht]; rfl⟩
        · rw [heq]; exact ht
        · rw [heq]
    · obtain ⟨hs₀, hmeta, hremote⟩ := (hinv.not_waiting_step hwait d).2 hs
      obtain ⟨e, he, h, haccepts, hacceptable, ht, hsender⟩ := ih hs₀
      exact ⟨e, List.mem_append_left _ he, h, haccepts, hacceptable, hmeta ▸ ht, hremote ▸ hsender⟩

/-- After a hello was accepted the session never waits for one again. -/
theorem not_waiting_of_accepted (ds : List Delivery) {h : ClientHello}
    (ha : AcceptedHello (Machine.trace Session.step (Session.fresh remote path) ds) h) :
    (Machine.final Session.step (Session.fresh remote path) ds).mState ≠ .waitingHello := by
  induction ds using List.reverseRecOn with
  | nil => obtain ⟨e, he, -⟩ := ha; simp at he
  | append_singleton ds d ih =>
    obtain ⟨e, he, haccepts⟩ := ha
    rw [Machine.trace_append] at he
    rw [Machine.final_append, Machine.final_cons, Machine.final_nil]
    rcases List.mem_append.mp he with he | he
    · exact ((Session.inv_any remote path ds).not_waiting_step (ih ⟨e, he, haccepts⟩) d).1
    · obtain rfl := List.mem_singleton.mp he
      exact fun hwait => absurd (hwait.symm.trans haccepts.2.1) (by simp)

/-- **A session accepts one hello at most.** -/
theorem AcceptedHello.unique {h h' : ClientHello} (ds : List Delivery)
    (ha : AcceptedHello (Machine.trace Session.step (Session.fresh remote path) ds) h)
    (ha' : AcceptedHello (Machine.trace Session.step (Session.fresh remote path) ds) h') :
    h = h' := by
  induction ds using List.reverseRecOn with
  | nil => obtain ⟨e, he, -⟩ := ha; simp at he
  | append_singleton ds d ih =>
    rw [Machine.trace_append] at ha ha'
    obtain ⟨e, he, haccepts⟩ := ha
    obtain ⟨e', he', haccepts'⟩ := ha'
    rcases List.mem_append.mp he with he | he <;> rcases List.mem_append.mp he' with he' | he'
    · exact ih ⟨e, he, haccepts⟩ ⟨e', he', haccepts'⟩
    · obtain rfl := List.mem_singleton.mp he'
      exact absurd haccepts'.1 (not_waiting_of_accepted ds ⟨e, he, haccepts⟩)
    · obtain rfl := List.mem_singleton.mp he
      exact absurd haccepts.1 (not_waiting_of_accepted ds ⟨e', he', haccepts'⟩)
    · obtain rfl := List.mem_singleton.mp he
      obtain rfl := List.mem_singleton.mp he'
      have := haccepts.2.2.symm.trans haccepts'.2.2
      simpa using this

/-! ### A sample transfer

One transfer of a file of one byte, and a receiver that says hello. -/

/-- The row of a transfer of `sampleFile`. -/
def sampleTransfer (token : Bytes) : Transfers := { id := token, fileSize := 1, token := token }

/-- The sender's surroundings: every token names a transfer, and `file` is at every path. -/
def sampleEnv (file : Option FileContent) : Env where
  getTransferMetadata := fun token => some (sampleTransfer token)
  files := fun _ => file
  generateIdentityKeypair := ⟨[], []⟩
  generateEphemeralKeypair := ⟨[], []⟩
  randomNonce := fun n => List.replicate n 0
  sign := fun _ _ => []

/-- The hello of a receiver that was given `token`. -/
def sampleHello (token : Bytes) : ClientHello :=
  { version := protocolVersion1, transferId := token, token := token }

/-- The sender of the sample transfer, before the hello. -/
def sampleFresh : Session := .fresh samplePeer samplePath

/-- The run that accepts the hello. -/
def sampleRun : List Delivery :=
  [.ofHello (sampleEnv (some sampleFile)) (sampleHello sampleToken) samplePeer]

theorem sampleHello_deliverable : (sampleHello sampleToken).deliverable = true := by decide

/-- The sample session after the hello. -/
def sampleSession : Session :=
  { sampleFresh with mTransferMetadata := sampleTransfer sampleToken, mState := .authenticated }

theorem step_sampleFresh :
    sampleFresh.step (.ofHello (sampleEnv (some sampleFile)) (sampleHello sampleToken) samplePeer)
      = (sampleSession, [⟨samplePeer, (HandshakePacket.serverHello
          (Session.serverHello (sampleEnv (some sampleFile))
            (sampleHello sampleToken))).serializeToString⟩]) :=
  Session.step_ofHello rfl samplePeer sampleHello_deliverable rfl (by decide) rfl

theorem final_sampleRun : Machine.final Session.step sampleFresh sampleRun = sampleSession := by
  rw [sampleRun, Machine.final_cons, step_sampleFresh, Machine.final_nil]

/-- The request the receiver of the sample transfer sends next. -/
def sampleGet : Delivery :=
  .ofControl (sampleEnv (some sampleFile)) (.get { transferId := sampleToken }) samplePeer

theorem parse_sampleGet :
    ControlPacket.parseFromString sampleGet.data = some (.get { transferId := sampleToken }) := by
  rw [sampleGet, Delivery.ofControl, ControlPacket.parse_received, if_pos (by decide)]

/-- The sample file is served on request. -/
theorem step_sampleSession_get :
    (sampleSession.step sampleGet).1.mState = .transferring ∧
      (sampleSession.step sampleGet).2
        = [⟨samplePeer,
            (packetAt (sampleTransfer sampleToken) sampleFile.bytes 0).serializeToString⟩] := by
  rcases Session.step_get_authenticated (s := sampleSession) rfl rfl parse_sampleGet with
    ⟨F, file, hF, -, heq⟩ | ⟨hnone, -⟩
  · obtain rfl : sampleFile = F := Option.some.inj hF
    rw [heq]
    exact ⟨rfl, rfl⟩
  · exact absurd hnone (by simp [sampleGet, Delivery.ofControl, sampleEnv])

end Zapshare
