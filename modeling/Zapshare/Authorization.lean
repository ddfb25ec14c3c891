import Zapshare.Acceptance

/-!
# Who is served the file

`Server::run` knows the transfer it was started for, and hands the session only the file.
`validate_token` accepts every token the central server has a row for, and the transfer id of the
hello is compared with nothing; the client, for its part, compares the transfer id of the answer
with the token. So the file goes to whoever knows the token of any registered transfer.

## Main results

* `exists_accepted_of_sent` — whatever is sent goes back to the one hello the session accepted
* `sendsTransfer_iff` — the file is sent to whoever asks for it
* `served_file_authorized_iff` — it is served to the right peer exactly when every hello that could
  unlock it names the transfer of the server
-/

namespace Zapshare

open Wire

/-- The session sent a chunk or `Done`. -/
def SendsTransfer (es : List SessionEntry) : Prop :=
  ∃ e ∈ es, ∃ g ∈ e.output, IsTransferPacket g.bytes

/-- Only the peer that named the transfer `tid` is served, and what it is sent are the id and the
row of `tid`. -/
structure Authorized (store : Store) (tid : Bytes) (es : List SessionEntry) : Prop where
  hello : SendsTransfer es → ∃ h, AcceptedHello es h ∧ h.token = tid ∧ h.transferId = tid
  chunk : ∀ e ∈ es, ∀ g ∈ e.output, ∀ c : DataChunk,
    g.bytes = (ControlPacket.data c).serializeToString → c.transferId = tid
  done : ∀ e ∈ es, ∀ g ∈ e.output, ∀ m : Done,
    g.bytes = (ControlPacket.done m).serializeToString →
      ∃ t, store.row tid = some t ∧ t.id = tid ∧ m = doneOf t

/-- Every hello that could unlock the file names the transfer `tid`. -/
def HellosName (tid : Bytes) (es : List SessionEntry) : Prop :=
  ∀ e ∈ es, e.before.mState = .waitingHello →
    ∀ h, e.input.Acceptable h → h.token = tid ∧ h.transferId = tid

/-- A `GetRequest` reached the authenticated session, and the file was there. -/
def FileRequested (path : Bytes) (es : List SessionEntry) : Prop :=
  ∃ e ∈ es, e.before.mState = .authenticated ∧
    (∃ get, ControlPacket.parseFromString e.input.data = some (.get get)) ∧
    (e.input.env.files path).isSome

variable {remote : Endpoint} {path : Bytes} {ds : List Delivery}

/-! ### What is sent -/

/-- The transfer starts with a request for a file that is there, and nothing is sent before. -/
theorem Session.Inv.transfer_step {K : FileContent → Prop} {s : Session} (h : s.Inv K path)
    {d : Delivery} (hd : ∀ F, d.env.files path = some F → K F)
    (ht : (s.step d).1.mState = .transferring ∨ ∃ g ∈ (s.step d).2, IsTransferPacket g.bytes) :
    s.mState = .transferring ∨ s.mState = .authenticated ∧
      (∃ get, ControlPacket.parseFromString d.data = some (.get get)) ∧
      (d.env.files path).isSome := by
  cases hstate : s.mState with
  | waitingHello =>
    exfalso
    rcases ht with ht | ⟨g, hg, ht⟩
    · rcases Session.step_waitingHello hstate d with
        ⟨out, heq, -⟩ | ⟨m, -, heq⟩ | ⟨hello, t, -, -, -, -, heq⟩ <;> simp [heq, hstate] at ht
    · obtain ⟨F, o, -, -, -, -, hcases⟩ := h.output_cases hd hg ht
      simp [hstate] at hcases
  | authenticated =>
    right
    rcases Session.step_authenticated hstate (h.offset_zero (Or.inr hstate)) d with
      ⟨-, heq⟩ | ⟨e, -, heq⟩ | ⟨get, m, -, -, heq⟩ | ⟨get, file, F, hparse, hfile, -, -⟩
    · simp [heq, hstate] at ht
    · simp [heq] at ht
    · have herror := not_isTransferPacket_controlError m
      simp [heq, herror] at ht
    · rw [h.path] at hfile
      exact ⟨rfl, ⟨get, hparse⟩, by rw [hfile]; rfl⟩
  | transferring => exact Or.inl rfl
  | closed =>
    exfalso
    simp [Session.step_closed hstate, hstate] at ht

theorem FileRequested.mono {es es' : List SessionEntry} (h : FileRequested path es) :
    FileRequested path (es ++ es') := by
  obtain ⟨e, he, hrequest⟩ := h
  exact ⟨e, List.mem_append_left _ he, hrequest⟩

/-- The session only transfers when it was asked to. -/
theorem fileRequested_of_transferring (ds : List Delivery)
    (hstate : (Machine.final Session.step (Session.fresh remote path) ds).mState
      = .transferring) :
    FileRequested path (Machine.trace Session.step (Session.fresh remote path) ds) := by
  induction ds using List.reverseRecOn with
  | nil => exact absurd hstate (by simp [Session.fresh])
  | append_singleton ds d ih =>
    rw [Machine.final_append] at hstate
    rcases (Session.inv_any remote path ds).transfer_step (fun _ _ => trivial) (Or.inl hstate) with
      hbefore | hrequest
    · rw [Machine.trace_append]
      exact (ih hbefore).mono
    · exact ⟨_, Machine.last_mem_trace _ _ ds d, hrequest⟩

/-- **The file is sent to whoever asks for it.** -/
theorem sendsTransfer_iff (ds : List Delivery) :
    SendsTransfer (Machine.trace Session.step (Session.fresh remote path) ds) ↔
      FileRequested path (Machine.trace Session.step (Session.fresh remote path) ds) := by
  constructor
  · rintro ⟨e, he, g, hg, ht⟩
    obtain ⟨pre, post, rfl, hbefore⟩ := Machine.exists_split_of_mem_trace he
    have hout : g ∈ (e.before.step e.input).2 := by
      rw [(Machine.step_of_mem_trace he).1]
      exact hg
    have hinv := Session.inv_any remote path pre
    rw [← hbefore] at hinv
    rcases hinv.transfer_step (fun _ _ => trivial) (Or.inr ⟨g, hout, ht⟩) with hstate | hrequest
    · rw [Machine.trace_append]
      exact (fileRequested_of_transferring pre (hbefore ▸ hstate)).mono
    · exact ⟨e, he, hrequest⟩
  · rintro ⟨e, he, hstate, ⟨get, hparse⟩, hfile⟩
    obtain ⟨pre, post, rfl, hbefore⟩ := Machine.exists_split_of_mem_trace he
    have hinv := Session.inv_any remote path pre
    rw [← hbefore] at hinv
    have hstep := (Machine.step_of_mem_trace he).1
    rcases Session.step_get_authenticated hstate (hinv.offset_zero (Or.inr hstate)) hparse with
      ⟨F, file, -, -, heq⟩ | ⟨hnone, -⟩
    · have hout : e.output = e.before.sendMessage
          (packetAt e.before.mTransferMetadata F.bytes 0).serializeToString :=
        (Prod.mk.inj (hstep.symm.trans heq)).2
      refine ⟨e, he, ⟨_, _⟩, by rw [hout]; exact List.mem_singleton_self _, ?_⟩
      exact packetAt_isTransferPacket e.before.mTransferMetadata F.bytes 0
    · rw [hinv.path] at hnone
      simp [hnone] at hfile

/-! ### Who it is sent to -/

/-- Where the session waits, acceptable hellos are accepted. -/
theorem acceptedHello_of_acceptable {e : SessionEntry}
    (he : e ∈ Machine.trace Session.step (Session.fresh remote path) ds)
    (hwait : e.before.mState = .waitingHello) {h : ClientHello} (ha : e.input.Acceptable h) :
    AcceptedHello (Machine.trace Session.step (Session.fresh remote path) ds) h := by
  refine ⟨e, he, ?_⟩
  have haccepts := (accepts_iff_acceptable hwait e.input h).mpr ha
  rw [(Machine.step_of_mem_trace he).1] at haccepts
  exact haccepts

/-- **What is sent goes back to an accepted hello**, whose token has the metadata the packet was
made from. -/
theorem exists_accepted_of_sent {e : SessionEntry}
    (he : e ∈ Machine.trace Session.step (Session.fresh remote path) ds) {g : Datagram}
    (hg : g ∈ e.output) (ht : IsTransferPacket g.bytes) :
    ∃ e' ∈ Machine.trace Session.step (Session.fresh remote path) ds, ∃ h t F o,
      Accepts e' h ∧ e'.input.Acceptable h ∧ e'.input.env.getTransferMetadata h.token = some t ∧
        g.bytes = (packetAt t F o).serializeToString := by
  obtain ⟨pre, post, hds, hbefore⟩ := Machine.exists_split_of_mem_trace he
  have hinv := Session.inv_any remote path pre
  rw [← (Prod.mk.inj (Machine.step_of_mem_trace he).1).2, hbefore] at hg
  obtain ⟨F, o, -, -, -, hbytes, hcases⟩ := hinv.output_cases (fun _ _ => trivial) hg ht
  have hestablished : (Machine.final Session.step (Session.fresh remote path) pre).Established := by
    rcases hcases with ⟨hstate, -⟩ | ⟨hstate, -⟩
    · exact Or.inl hstate
    · exact Or.inr hstate
  obtain ⟨e', he', h, haccepts, hacceptable, hrow, -⟩ := accepted_of_established pre hestablished
  refine ⟨e', ?_, h, _, F.bytes, o, haccepts, hacceptable, hrow, hbytes⟩
  rw [hds, Machine.trace_append]
  exact List.mem_append_left _ he'

theorem authorized_of_hellosName {store : Store} {tid : Bytes}
    (hstore : ∀ d ∈ ds, d.env.getTransferMetadata = store.row)
    (hnames : HellosName tid (Machine.trace Session.step (Session.fresh remote path) ds)) :
    Authorized store tid (Machine.trace Session.step (Session.fresh remote path) ds) := by
  have hrow : ∀ e ∈ Machine.trace Session.step (Session.fresh remote path) ds, ∀ g ∈ e.output,
      IsTransferPacket g.bytes → ∃ t F o, store.row tid = some t ∧
        g.bytes = (packetAt t F o).serializeToString := by
    intro e he g hg ht
    obtain ⟨e', he', h, t, F, o, haccepts, hacceptable, ht, hbytes⟩ :=
      exists_accepted_of_sent he hg ht
    rw [hstore _ (Machine.step_of_mem_trace he').2,
      (hnames e' he' haccepts.1 h hacceptable).1] at ht
    exact ⟨t, F, o, ht, hbytes⟩
  refine ⟨?_, fun e he g hg c hc => ?_, fun e he g hg m hm => ?_⟩
  · rintro ⟨e, he, g, hg, ht⟩
    obtain ⟨e', he', h, t, F, o, haccepts, hacceptable, -, -⟩ := exists_accepted_of_sent he hg ht
    exact ⟨h, ⟨e', he', haccepts⟩, hnames e' he' haccepts.1 h hacceptable⟩
  · obtain ⟨t, F, o, ht, hbytes⟩ := hrow e he g hg (Or.inl ⟨c, hc⟩)
    obtain ⟨-, rfl⟩ := eq_chunkAt_of_packetAt (hbytes.symm.trans hc)
    exact store.id_row ht
  · obtain ⟨t, F, o, ht, hbytes⟩ := hrow e he g hg (Or.inr ⟨m, hm⟩)
    obtain ⟨-, rfl⟩ := eq_doneOf_of_packetAt (hbytes.symm.trans hm)
    exact ⟨t, ht, store.id_row ht, rfl⟩

theorem hellosName_of_authorized {store : Store} {tid : Bytes}
    (hauth : Authorized store tid (Machine.trace Session.step (Session.fresh remote path) ds))
    (hsends : SendsTransfer (Machine.trace Session.step (Session.fresh remote path) ds)) :
    HellosName tid (Machine.trace Session.step (Session.fresh remote path) ds) := by
  intro e he hwait h hacceptable
  obtain ⟨h', haccepted, htoken, htransfer⟩ := hauth.hello hsends
  obtain rfl := haccepted.unique ds (acceptedHello_of_acceptable he hwait hacceptable)
  exact ⟨htoken, htransfer⟩

theorem authorized_of_not_sends {store : Store} {tid : Bytes} {es : List SessionEntry}
    (hsends : ¬ SendsTransfer es) : Authorized store tid es where
  hello hs := absurd hs hsends
  chunk e he g hg c hc := absurd ⟨e, he, g, hg, Or.inl ⟨c, hc⟩⟩ hsends
  done e he g hg m hm := absurd ⟨e, he, g, hg, Or.inr ⟨m, hm⟩⟩ hsends

/-- **Who is served the file.** In a run only the right peer is served exactly if nobody asks an
authenticated session for a file that is there, or all the hellos that reach the waiting session
and have a registered token name the transfer of the server. -/
theorem served_file_authorized_iff (pollForSignal : Bytes → Endpoint) {store : Store} {tid : Bytes}
    (hstore : ∀ d ∈ ds, d.env.getTransferMetadata = store.row) :
    let es := Machine.trace Session.step (Server.run pollForSignal path tid) ds
    Authorized store tid es ↔ (FileRequested path es → HellosName tid es) := by
  intro es
  constructor
  · intro hauth hrequest
    exact hellosName_of_authorized hauth ((sendsTransfer_iff ds).mpr hrequest)
  · intro hnames
    by_cases hsends : SendsTransfer es
    · exact authorized_of_hellosName hstore (hnames ((sendsTransfer_iff ds).mp hsends))
    · exact authorized_of_not_sends hsends

/-! ### Two registered transfers -/

/-- A central server that has a row for every token. -/
def sampleStore : Store := ⟨fun token => some (sampleTransfer token), by rintro _ _ ⟨⟩; rfl⟩

theorem sampleStore_row : ∀ d ∈ sampleRun ++ [sampleGet],
    d.env.getTransferMetadata = sampleStore.row := by
  intro d hd
  simp only [sampleRun, List.cons_append, List.nil_append, List.mem_cons, List.not_mem_nil,
    or_false] at hd
  rcases hd with rfl | rfl <;> rfl

theorem sampleRun_sends :
    SendsTransfer (Machine.trace Session.step sampleFresh (sampleRun ++ [sampleGet])) := by
  rw [Machine.trace_append, final_sampleRun]
  exact ⟨_, List.mem_append_right _ List.mem_cons_self, _,
    by rw [step_sampleSession_get.2]; exact List.mem_cons_self, packetAt_isTransferPacket _ _ _⟩

theorem sampleRun_hellosName :
    HellosName sampleToken (Machine.trace Session.step sampleFresh (sampleRun ++ [sampleGet])) := by
  intro e he hwait h hacceptable
  rw [Machine.trace_append, final_sampleRun] at he
  rcases List.mem_append.mp he with he | he
  · obtain rfl := List.mem_singleton.mp he
    have hparse := hacceptable.1
    rw [Delivery.ofHello, parse_received_clientHello, if_pos sampleHello_deliverable] at hparse
    obtain rfl : sampleHello sampleToken = h := by simpa using hparse
    exact ⟨rfl, rfl⟩
  · obtain rfl := List.mem_singleton.mp he
    simp [sampleSession] at hwait

theorem served_file_authorized_iff_sample :
    let es := Machine.trace Session.step (Server.run (fun _ => samplePeer) samplePath sampleToken)
      (sampleRun ++ [sampleGet])
    SendsTransfer es ∧ HellosName sampleToken es ∧ Authorized sampleStore sampleToken es :=
  ⟨sampleRun_sends, sampleRun_hellosName,
    (served_file_authorized_iff (fun _ => samplePeer) sampleStore_row).mpr fun _ =>
      sampleRun_hellosName⟩

/-- The token of one transfer unlocks the file of another: the server was started for the transfer
`o`, and serves the peer that knows `t`. -/
theorem foreign_token_served :
    let es := Machine.trace Session.step (Server.run (fun _ => samplePeer) samplePath (text "o"))
      (sampleRun ++ [sampleGet])
    (∀ d ∈ sampleRun ++ [sampleGet], d.env.getTransferMetadata = sampleStore.row) ∧
      AcceptedHello es (sampleHello (text "t")) ∧ SendsTransfer es ∧
      ¬ Authorized sampleStore (text "o") es := by
  have haccepted : AcceptedHello (Machine.trace Session.step sampleFresh (sampleRun ++ [sampleGet]))
      (sampleHello (text "t")) := by
    refine ⟨_, List.mem_cons_self, rfl, congrArg (fun r => r.1.mState) step_sampleFresh, ?_⟩
    rw [Delivery.ofHello, parse_received_clientHello, if_pos sampleHello_deliverable]
    rfl
  refine ⟨sampleStore_row, haccepted, sampleRun_sends, fun hauth => ?_⟩
  obtain ⟨h, hh, htoken, -⟩ := hauth.hello sampleRun_sends
  obtain rfl := hh.unique _ haccepted
  exact absurd htoken (by decide)

end Zapshare
