import Mathlib.Data.List.Induction
import Zapshare.Chunking

/-!
# The order of the states

A session goes from `WaitingHello` to `Authenticated`, `Transferring` and `Closed`, perhaps past
some of them, and never back. What a step may do to the rest of it is `Session.Forward`, which
composes; every run is therefore one step forward, too.

## Main results

* `Session.Inv.forward` — one step goes forward
* `Session.step_length_le` — one step sends at most one datagram
* `session_discipline` — both, and what a refused hello changes, in every run
-/

namespace Zapshare

open Wire

/-- The place of a state in the order of a transfer. -/
def State.rank : State → ℕ
  | .waitingHello => 0
  | .authenticated => 1
  | .transferring => 2
  | .closed => 3

theorem State.rank_pos_iff (st : State) : 0 < st.rank ↔ st ≠ .waitingHello := by
  cases st <;> simp [rank]

theorem State.rank_le_rank_closed (st : State) : st.rank ≤ State.closed.rank := by
  cases st <;> decide

/-- What a step of a session may do to it. -/
structure Session.Forward (s s' : Session) : Prop where
  rank_le : s.mState.rank ≤ s'.mState.rank
  offset_le : s.mOffset ≤ s'.mOffset
  settled : s.mState ≠ .waitingHello → s'.mRemoteEndpoint = s.mRemoteEndpoint ∧
    s'.mTransferMetadata = s.mTransferMetadata
  closed : s.mState = .closed → s' = s

namespace Session

theorem Forward.refl (s : Session) : s.Forward s :=
  ⟨Nat.le_refl _, Nat.le_refl _, fun _ => ⟨rfl, rfl⟩, fun _ => rfl⟩

theorem Forward.trans {s s' s'' : Session} (h : s.Forward s') (h' : s'.Forward s'') :
    s.Forward s'' where
  rank_le := Nat.le_trans h.rank_le h'.rank_le
  offset_le := Nat.le_trans h.offset_le h'.offset_le
  settled := by
    intro hs
    have hs' : s'.mState ≠ .waitingHello :=
      (State.rank_pos_iff _).mp (Nat.lt_of_lt_of_le ((State.rank_pos_iff _).mpr hs) h.rank_le)
    obtain ⟨hremote, hmeta⟩ := h.settled hs
    obtain ⟨hremote', hmeta'⟩ := h'.settled hs'
    exact ⟨hremote'.trans hremote, hmeta'.trans hmeta⟩
  closed := by
    intro hs
    obtain rfl := h.closed hs
    exact h'.closed hs

variable {K : FileContent → Prop} {path : Bytes} {s : Session}

/-- **One step goes forward.** -/
theorem Inv.forward (h : s.Inv K path) (d : Delivery) : s.Forward (s.step d).1 := by
  cases hstate : s.mState with
  | waitingHello =>
    have hrank : s.mState.rank ≤ State.closed.rank := State.rank_le_rank_closed _
    rcases Session.step_waitingHello hstate d with
      ⟨out, heq, -⟩ | ⟨m, -, heq⟩ | ⟨hello, t, -, -, -, -, heq⟩ <;> rw [heq]
    · exact ⟨Nat.le_refl _, Nat.le_refl _, fun hs => absurd hstate hs, by simp [hstate]⟩
    · exact ⟨hrank, Nat.le_refl _, fun hs => absurd hstate hs, by simp [hstate]⟩
    · refine ⟨?_, Nat.le_refl _, fun hs => absurd hstate hs, by simp [hstate]⟩
      rw [hstate]
      exact Nat.zero_le _
  | authenticated =>
    have hoffset := h.offset_zero (Or.inr hstate)
    have hrank : s.mState.rank ≤ State.closed.rank := State.rank_le_rank_closed _
    rcases Session.step_authenticated hstate hoffset d with
      ⟨-, heq⟩ | ⟨e, -, heq⟩ | ⟨get, m, -, -, heq⟩ | ⟨get, file, F, -, -, -, heq⟩ <;> rw [heq]
    · exact Forward.refl s
    · exact ⟨hrank, Nat.le_refl _, fun _ => ⟨rfl, rfl⟩, by simp [hstate]⟩
    · exact ⟨hrank, Nat.le_refl _, fun _ => ⟨rfl, rfl⟩, by simp [hstate]⟩
    · refine ⟨?_, ?_, fun _ => ⟨rfl, rfl⟩, by simp [hstate]⟩
      · rw [hstate]
        exact (by decide : State.authenticated.rank ≤ State.transferring.rank)
      · rw [hoffset]
        exact Nat.zero_le _
  | transferring =>
    obtain ⟨F, -, hlock⟩ := h.lockstep hstate
    rcases Session.step_transferring hstate hlock F.length_lt d with
      ⟨-, heq⟩ | ⟨-, heq⟩ | ⟨ack, file, -, -, -, -, heq⟩ | ⟨-, heq⟩ <;> rw [heq]
    · exact Forward.refl s
    · exact Forward.refl s
    · exact ⟨Nat.le_refl _, Nat.le_add_right _ _, fun _ => ⟨rfl, rfl⟩, by simp [hstate]⟩
    · exact ⟨State.rank_le_rank_closed _, Nat.le_refl _, fun _ => ⟨rfl, rfl⟩, by simp [hstate]⟩
  | closed =>
    rw [Session.step_closed hstate]
    exact Forward.refl s

/-! ### At most one datagram -/

theorem sendNextChunk_length_le (s : Session) : s.sendNextChunk.2.length ≤ 1 := by
  simp only [sendNextChunk]
  split_ifs <;> simp [sendMessage]

theorem resendCurrentChunk_length_le (s : Session) : s.resendCurrentChunk.2.length ≤ 1 := by
  rw [resendCurrentChunk]
  split_ifs
  · exact s.sendNextChunk_length_le
  · simp [sendMessage]

theorem handleGetRequest_length_le (env : Env) (s : Session) (get : GetRequest) :
    (s.handleGetRequest env get).2.length ≤ 1 := by
  simp only [handleGetRequest]
  split_ifs
  · simp [sendControlError, sendControlPacket, sendMessage]
  · exact sendNextChunk_length_le _
  · exact s.resendCurrentChunk_length_le
  · simp

theorem handleAck_length_le (s : Session) (ack : Ack) : (s.handleAck ack).2.length ≤ 1 := by
  simp only [handleAck]
  split_ifs
  · simp
  · simp
  · exact sendNextChunk_length_le _
  · exact s.resendCurrentChunk_length_le
  · simp

theorem handleControlPacket_length_le (env : Env) (s : Session) (data : Bytes) :
    (s.handleControlPacket env data).2.length ≤ 1 := by
  rw [handleControlPacket]
  split
  · exact s.handleGetRequest_length_le env _
  · exact s.handleAck_length_le _
  · simp
  · simp

theorem handleHandshakePacket_length_le (env : Env) (s : Session) (data : Bytes) :
    (s.handleHandshakePacket env data).2.length ≤ 1 := by
  rw [handleHandshakePacket]
  split
  · simp
  · split_ifs
    · simp [sendHandshakeError, sendHandshakePacket, sendMessage]
    · simp [sendHandshakeError, sendHandshakePacket, sendMessage]
    · split <;> simp [sendHandshakeError, sendHandshakePacket, sendMessage]
  · simp [sendHandshakeError, sendHandshakePacket, sendMessage]

/-- **One step sends at most one datagram**, from any state whatever. -/
theorem step_length_le (s : Session) (d : Delivery) : (s.step d).2.length ≤ 1 := by
  rw [step, handlePacket]
  split
  · simp
  · exact handleHandshakePacket_length_le _ _ _
  · exact s.handleControlPacket_length_le _ _
  · exact s.handleControlPacket_length_le _ _

end Session

/-! ### Refused hellos -/

/-- The datagram is a hello that `handle_handshake_packet` refuses: for its version, for an empty
token, or because the central server does not know the token. -/
def Delivery.Refuses (d : Delivery) (h : ClientHello) : Prop :=
  HandshakePacket.parseFromString d.data = some (.clientHello h) ∧
    (h.version ≠ protocolVersion1 ∨ h.token = [] ∨ d.env.getTransferMetadata h.token = none)

/-- A refused hello leaves no metadata behind. -/
theorem Delivery.Refuses.metadata {d : Delivery} {h : ClientHello} (hd : d.Refuses h)
    {s : Session} (hstate : s.mState = .waitingHello) :
    (s.step d).1.mTransferMetadata = s.mTransferMetadata := by
  obtain ⟨hparse, hrefused⟩ := hd
  rcases Session.step_waitingHello hstate d with
    ⟨out, heq, -⟩ | ⟨m, -, heq⟩ | ⟨hello, t, hhello, hversion, htoken, ht, -⟩
  · rw [heq]
  · rw [heq]
  · obtain rfl : hello = h := by
      simpa using hhello.symm.trans hparse
    rcases hrefused with hne | hempty | hnone
    · exact absurd hversion hne
    · exact absurd hempty htoken
    · simp [hnone] at ht

/-! ### Every run -/

variable {remote : Endpoint} {path : Bytes}

/-- **Every run goes forward.** -/
theorem Session.forward_final (remote : Endpoint) (path : Bytes) (pre post : List Delivery) :
    (Machine.final Session.step (fresh remote path) pre).Forward
      (Machine.final Session.step (fresh remote path) (pre ++ post)) := by
  have hinv : ∀ ds, (Machine.final Session.step (fresh remote path) ds).Inv (fun _ => True) path :=
    fun ds => Session.inv_final remote fun _ _ _ _ => trivial
  induction post using List.reverseRecOn with
  | nil =>
    rw [List.append_nil]
    exact Forward.refl _
  | append_singleton post d ih =>
    rw [← List.append_assoc, Machine.final_concat]
    exact ih.trans ((hinv _).forward d)

/-- A closed session sends nothing any more. -/
theorem Session.outputs_closed {s : Session} (h : s.mState = .closed) (ds : List Delivery) :
    Machine.outputs Session.step s ds = [] := by
  induction ds with
  | nil => rfl
  | cons d ds ih => rw [Machine.outputs_cons, Session.step_closed h, ih, List.append_nil]

/-- **The discipline of a session.** In every run the state only moves forward, `m_offset` never
decreases, the peer and the metadata stay once the handshake is over, and a closed session sends
nothing and stays as it is. Each datagram is answered with at most one, and a refused hello leaves
the metadata as it was. -/
theorem session_discipline (remote : Endpoint) (path : Bytes) (ds : List Delivery) :
    (∀ pre post, ds = pre ++ post →
      let s := Machine.final Session.step (Session.fresh remote path) pre
      let s' := Machine.final Session.step (Session.fresh remote path) ds
      s.mState.rank ≤ s'.mState.rank ∧ s.mOffset ≤ s'.mOffset ∧
        (s.mState ≠ .waitingHello → s'.mRemoteEndpoint = s.mRemoteEndpoint ∧
          s'.mTransferMetadata = s.mTransferMetadata) ∧
        (s.mState = .closed → s' = s ∧ Machine.outputs Session.step s post = [])) ∧
    ∀ e ∈ Machine.trace Session.step (Session.fresh remote path) ds,
      e.output.length ≤ 1 ∧
        ∀ h, e.input.Refuses h → e.after.mTransferMetadata = e.before.mTransferMetadata := by
  constructor
  · rintro pre post rfl s s'
    have hforward : s.Forward s' := Session.forward_final remote path pre post
    refine ⟨hforward.rank_le, hforward.offset_le, hforward.settled, ?_⟩
    intro hclosed
    exact ⟨hforward.closed hclosed, Session.outputs_closed hclosed post⟩
  · intro e he
    obtain ⟨hstep, -⟩ := Machine.step_of_mem_trace he
    have hafter : e.after = (e.before.step e.input).1 := (congrArg Prod.fst hstep).symm
    have houtput : e.output = (e.before.step e.input).2 := (congrArg Prod.snd hstep).symm
    constructor
    · rw [houtput]
      exact e.before.step_length_le e.input
    · intro h hrefuses
      obtain ⟨pre, post, -, hbefore⟩ := Machine.exists_split_of_mem_trace he
      have hinv : e.before.Inv (fun _ => True) path := by
        rw [hbefore]
        exact Session.inv_final remote fun _ _ _ _ => trivial
      rw [hafter]
      by_cases hwait : e.before.mState = .waitingHello
      · exact hrefuses.metadata hwait
      · exact ((hinv.forward e.input).settled hwait).2

end Zapshare
