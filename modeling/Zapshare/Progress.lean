import Zapshare.Completion
import Zapshare.Lib.StopAndWaitFair

/-!
# A transfer gets on

The session and `receive_file` over a network that loses, delays, reorders and duplicates, but that
delivers something of what is sent again and again. As long as `receive_file` does not run out of
retries, it gets the whole file.

The end is another matter, since the session may be closed before `Done` has arrived. Apart from
that, `receive_file` returns true.

## Main results

* `transfer_gets_on` — in every fair run the output becomes the file, and `receive_file` returns
  true unless a second acknowledgement of the whole file reaches the session too early
-/

namespace Zapshare

open Wire UdpConfig Network StopAndWait Machine

namespace Pair

variable {J : Pair} {w : World Session Client Bytes Bytes} {es : ℕ → PoolEvent}

/-- Everything a transfer with a short id sends can be read, but for `Done`. -/
theorem readable (h : ShortId J.args.transferId) : J.setting.Readable where
  get := getOk_of_shortId h
  ack := ackOk_of_shortId h
  chunk := chunkOk_of_shortId h

theorem Start.fresh (h : J.Start w) : Fresh (J.refinement.world w).client where
  result := by rw [h.initial.client]
  retries := by rw [h.initial.client]

/-- The end of the file can be read where the hash that was registered is that of the file. -/
theorem doneOk_of_registered (hid : ShortId J.args.transferId)
    (hhash : J.args.expectedHash = Crypto.hexLower (J.sha.digest J.file.bytes))
    (hregistered : J.transfer.fileHash = J.args.expectedHash) : J.setting.doneOk = true := by
  have hdone := deliverable_done hid J.transfer.fileSize (J.sha.digest J.file.bytes)
  rw [← hhash, ← hregistered, ← J.id_eq] at hdone
  exact setting_doneOk.trans hdone

/-- From wherever a transfer is, with a receiver that has just started to wait. -/
theorem gets_on (hid : ShortId J.args.transferId) (hholds : J.refinement.Holds w)
    (hinv : Inv J.setting (J.refinement.world w)) (hfresh : Fresh (J.refinement.world w).client)
    (hfair : Fair J.parties w es) (hpatient : Patient J.parties w es maxRetries) :
    (∃ N, ∀ n, N ≤ n → (J.parties.worldAt w es n).client.out.content = J.file.bytes) ∧
      (J.args.expectedHash = Crypto.hexLower (J.sha.digest J.file.bytes) →
        J.transfer.fileHash = J.args.expectedHash →
        J.file.bytes = [] ∨
          (∀ n, count J.parties.pool J.finalAck w ((List.range n).map es) ≤ 1) →
        ∃ n, (J.parties.worldAt w es n).client.returned = some true) := by
  have hfair' := (J.refinement.fair_iff hholds).mpr hfair
  have hpatient' := (J.refinement.patient_iff hholds).mpr hpatient
  have hview (n : ℕ) := J.refinement.worldAt hholds es n
  constructor
  · obtain ⟨N, hN⟩ := hinv.exists_whole hfresh (readable hid) hfair' hpatient'
    refine ⟨N, fun n hn => ?_⟩
    have hend := hN n hn
    rw [(hview n).2] at hend
    have hclient : J.ClientOk (J.parties.worldAt w es n).client := (hview n).1.client
    exact hclient.whole hend
  · intro hhash hregistered honce
    have hdone : J.setting.doneOk = true := doneOk_of_registered hid hhash hregistered
    have hgood : J.setting.good = true := decide_eq_true hhash.symm
    have honce' : J.setting.length = 0 ∨ ∀ n, count J.setting.parties.pool
        (StopAndWait.finalAck J.setting) (J.refinement.world w) ((List.range n).map es) ≤ 1 := by
      refine honce.imp List.length_eq_zero_iff.mpr fun honce n => ?_
      rw [J.refinement.pool.count hholds fun _ e _ => finalAck_world e]
      exact honce n
    obtain ⟨n, hn⟩ := hinv.exists_accepted hfresh (readable hid) hdone hgood hfair' hpatient' honce'
    rw [(hview n).2] at hn
    exact ⟨n, hn⟩

end Pair

/-- **A transfer with a short id gets on.** In every fair run over a network that loses, delays,
reorders and duplicates, in which there are never `MAX_RETRIES` timeouts without an arrival in
between, the output of `receive_file` becomes the file. If the hash that was registered is that of
the file, and the file is empty or at most one `Ack` of the whole file is handed to the session
before `Done` is accepted, then `receive_file` returns true. -/
theorem transfer_gets_on (J : Pair) (hid : ShortId J.args.transferId)
    {w : World Session Client Bytes Bytes} (hstart : J.Start w) {es : ℕ → PoolEvent}
    (hfair : Fair J.parties w es) (hpatient : Patient J.parties w es maxRetries) :
    (∃ N, ∀ n, N ≤ n → (J.parties.worldAt w es n).client.out.content = J.file.bytes) ∧
      (J.args.expectedHash = Crypto.hexLower (J.sha.digest J.file.bytes) →
        J.transfer.fileHash = J.args.expectedHash →
        J.file.bytes = [] ∨
          (∀ n, count J.parties.pool J.finalAck w ((List.range n).map es) ≤ 1) →
        ∃ n, (J.parties.worldAt w es n).client.returned = some true) :=
  Pair.gets_on hid hstart.holds hstart.initial.inv hstart.fresh hfair hpatient

/-! ### A fair run of the sample transfer -/

/-- The sample transfer, registered with the hash of its file. -/
def registeredTransfer : Transfers :=
  { sampleTransfer sampleToken with fileHash := sampleArgs.expectedHash }

/-- The two ends of that transfer. -/
def registeredPair : Pair :=
  { samplePair with transfer := registeredTransfer, id_eq := rfl, fileSize_eq := rfl }

/-- That transfer at its start. -/
def registeredWorld : World Session Client Bytes Bytes :=
  ⟨{ sampleSession with mTransferMetadata := registeredTransfer }, .start,
    [sampleArgs.getBytes], []⟩

theorem registeredWorld_start : registeredPair.Start registeredWorld where
  state := rfl
  offset := rfl
  remote := rfl
  path := rfl
  metadata := rfl
  client := rfl
  up _ hb := Or.inl (List.mem_singleton.mp hb)
  down _ hb := absurd hb List.not_mem_nil
  asked := List.mem_cons_self

/-- Everything arrives, and then the first chunk does now and then. -/
def sampleEvents : ℕ → PoolEvent
  | 0 => .up 0
  | 1 => .down 0
  | 2 => .up 1
  | 3 => .down 1
  | n + 4 => if n % 2 = 0 then .timeout else .down 0

theorem world_registered :
    registeredPair.refinement.world registeredWorld = ⟨.idle, {}, [.get], []⟩ := by
  have hget : Pair.request sampleArgs.getBytes = .get :=
    (@Pair.request_getBytes registeredPair).trans (if_pos (by decide))
  exact congrArg (fun m => (⟨.idle, {}, [m], []⟩ : Transfer)) hget

/-- What the run looks like from its fifth event on. -/
theorem worldAt_registered (n : ℕ) :
    registeredPair.setting.parties.worldAt (registeredPair.refinement.world registeredWorld)
        sampleEvents (n + 4)
      = ⟨.sending 1, ⟨1, 0, some true⟩, [.get, .ack 1, .ack 1], [.chunk 0, .done]⟩ := by
  rw [world_registered]
  induction n with
  | zero => decide
  | succ n ih =>
    rw [show n + 1 + 4 = (n + 4) + 1 from rfl, worldAt_succ, ih]
    simp only [sampleEvents]
    split <;> rfl

theorem fair_registered : Fair registeredPair.parties registeredWorld sampleEvents := by
  rw [← registeredPair.refinement.fair_iff registeredWorld_start.holds]
  refine Fair.of_quiet (N := 4) (fun n => ⟨2 * n + 4, by omega, by simp [sampleEvents]⟩) ?_
  intro m hm
  obtain ⟨k, rfl⟩ : ∃ k, m = k + 4 := ⟨m - 4, by omega⟩
  rw [worldAt_registered]
  simp only [sampleEvents]
  split <;> exact ⟨rfl, rfl⟩

theorem patient_registered :
    Patient registeredPair.parties registeredWorld sampleEvents maxRetries := by
  rw [← registeredPair.refinement.patient_iff registeredWorld_start.holds]
  refine Patient.of_arrivals fun m => ?_
  -- something arrives at every other event
  obtain ⟨k, hk, hkn, hodd⟩ : ∃ k, m ≤ k + 4 ∧ k + 4 < m + maxRetries ∧ k % 2 = 1 := by
    rw [maxRetries]
    rcases Nat.mod_two_eq_zero_or_one m with heven | hodd
    · exact ⟨m + 1, by omega, by omega, by omega⟩
    · exact ⟨m, by omega, by omega, hodd⟩
  refine ⟨k + 4, hk, hkn, ?_⟩
  simp [worldAt_registered, sampleEvents, hodd, Arrives]

/-- One acknowledgement of the whole file arrives before the end does. -/
theorem count_registered (n : ℕ) :
    count registeredPair.parties.pool registeredPair.finalAck registeredWorld
      ((List.range (n + 4)).map sampleEvents) = 1 := by
  have hrefines := registeredPair.refinement.pool
  have hholds := registeredWorld_start.holds
  rw [← hrefines.count hholds fun _ e _ => Pair.finalAck_world e]
  induction n with
  | zero =>
    rw [world_registered]
    decide
  | succ n ih =>
    have hworld := worldAt_registered n
    rw [Parties.worldAt] at hworld
    rw [show n + 1 + 4 = (n + 4) + 1 from rfl, count_range_succ, ih, hworld]
    simp only [sampleEvents]
    split <;> rfl

/-- The sample transfer gets on, and is completed. -/
theorem transfer_gets_on_sample :
    ∃ n, (registeredPair.parties.worldAt registeredWorld sampleEvents n).client.returned
      = some true := by
  have hrun := transfer_gets_on registeredPair ⟨by decide, by decide⟩ registeredWorld_start
    fair_registered patient_registered
  refine hrun.2 rfl rfl (Or.inr fun n => ?_)
  rw [← count_registered n]
  exact count_range_mono sampleEvents (Nat.le_add_right n 4)

end Zapshare
