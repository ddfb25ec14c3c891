import Zapshare.ClientIntegrity

/-!
# Foreign packets at the receiver

`receive_file` drops what does not come from its peer, and compares the transfer id of a chunk and
of a `Done` with its own. The branch for a `TransferError` does not: an error about any transfer
ends the download, as long as it comes from the peer.

## Main results

* `Client.ignores_iff` — a foreign datagram is ignored exactly unless it is an error of the peer
* `Client.simulates_final` — ignored datagrams only postpone the timeout
* `foreign_packets_ignored_iff` — both, for every state and for every run
-/

namespace Zapshare

open Wire Stream UdpConfig

/-- The transfer id of a control packet the receiver reacts to. -/
def ControlPacket.answerId : ControlPacket → Option Bytes
  | .data m => some m.transferId
  | .done m => some m.transferId
  | .error m => some m.transferId
  | _ => none

/-- The outcome is a datagram that comes from somebody else, or is about another transfer. -/
def Outcome.Foreign (args : ReceiveArgs) : Outcome → Prop
  | .timeout => False
  | .datagram sender rx => sender ≠ args.peer ∨
      ∃ id, (ControlPacket.parseFromString rx).bind ControlPacket.answerId = some id ∧
        id ≠ args.transferId

instance (args : ReceiveArgs) : DecidablePred (Outcome.Foreign args)
  | .timeout => inferInstanceAs (Decidable False)
  | .datagram _ _ => inferInstanceAs (Decidable (_ ∨ _))

/-- The outcome is an error that the peer reports. -/
def Outcome.PeerError (args : ReceiveArgs) : Outcome → Prop
  | .timeout => False
  | .datagram sender rx => sender = args.peer ∧
      ∃ m, ControlPacket.parseFromString rx = some (.error m)

namespace Client

/-- The iteration neither returns, nor changes the file or the offset, nor sends anything. -/
structure Ignored (c : Client) (r : Client × List Datagram) : Prop where
  returned : r.1.returned = none
  out : r.1.out = c.out
  currentOffset : r.1.currentOffset = c.currentOffset
  sent : r.2 = []

variable {args : ReceiveArgs} {sha : Sha256} {c : Client}

/-- What a foreign datagram that is no error of the peer does: it resets `retries` at most. -/
theorem step_foreign (sha : Sha256) (h : c.Running) {o : Outcome} (hforeign : o.Foreign args)
    (herror : ¬ o.PeerError args) :
    c.step args sha o = (c, []) ∨ c.step args sha o = ({ c with retries := 0 }, []) := by
  cases o with
  | timeout => exact absurd hforeign id
  | datagram sender rx =>
    by_cases hsender : sender = args.peer
    case neg => exact Or.inl (step_stranger h hsender rx)
    subst hsender
    obtain ⟨id, hid, hne⟩ := hforeign.resolve_left (not_not.mpr rfl)
    right
    rcases hparse : ControlPacket.parseFromString rx with _ | (_ | get | ack | m | m | e)
    case some.data =>
      obtain rfl : m.transferId = id := by simpa [hparse, ControlPacket.answerId] using hid
      rw [step_data h hparse]
      exact if_pos hne
    case some.done =>
      obtain rfl : m.transferId = id := by simpa [hparse, ControlPacket.answerId] using hid
      rw [step_done h hparse]
      exact if_pos hne
    case some.error => exact absurd ⟨rfl, e, hparse⟩ herror
    all_goals simp [hparse, ControlPacket.answerId] at hid

/-- **What is ignored.** -/
theorem ignores_iff (h : c.Running) {o : Outcome} (hforeign : o.Foreign args) :
    Ignored c (c.step args sha o) ↔ ¬ o.PeerError args := by
  constructor
  · intro hignored herror
    cases o with
    | timeout => exact herror
    | datagram sender rx =>
      obtain ⟨rfl, m, hparse⟩ := herror
      have hreturned := hignored.returned
      rw [step_error h hparse] at hreturned
      simp at hreturned
  · intro herror
    rcases step_foreign sha h hforeign herror with heq | heq <;> rw [heq]
    · exact ⟨h.returned, rfl, rfl, rfl⟩
    · exact ⟨h.returned, rfl, rfl, rfl⟩

/-! ### A run with foreign packets, and the same run without them

Ignored datagrams of the peer reset `retries`, so the run that has them may go on where the other
one times out; otherwise the two runs agree. -/

/-- The two runs agree, up to `retries`. -/
structure Agrees (c' c : Client) : Prop where
  out : c'.out = c.out
  currentOffset : c'.currentOffset = c.currentOffset
  returned : c'.returned = c.returned
  retries : c.returned = none → c'.retries ≤ c.retries

/-- `c'` has done what `c` has, unless `c` has failed. -/
def Simulates (c' c : Client) : Prop := c.returned = some false ∨ Agrees c' c

theorem simulates_whileCheck {c' c : Client} (h : Agrees c' c) :
    Simulates c'.whileCheck c.whileCheck := by
  obtain ⟨hout, hoffset, hreturned, hretries⟩ := h
  by_cases hnone : c.returned = none
  · have hle := hretries hnone
    by_cases hlt : c.retries < maxRetries
    · right
      rw [whileCheck_of_lt hlt, whileCheck_of_lt (Nat.lt_of_le_of_lt hle hlt)]
      exact ⟨hout, hoffset, hreturned, hretries⟩
    · left
      rw [whileCheck, if_pos ⟨hnone, hlt⟩]
  · right
    rw [whileCheck, if_neg (fun hc => hnone (hreturned ▸ hc.1)), whileCheck,
      if_neg (fun hc => hnone hc.1)]
    exact ⟨hout, hoffset, hreturned, hretries⟩

/-- The handlers do not look at `retries`. -/
theorem agrees_iterate {c' c : Client} (h : Agrees c' c) (hnone : c.returned = none) (o : Outcome) :
    Agrees (c'.iterate args sha o).1 (c.iterate args sha o).1 := by
  obtain ⟨out, currentOffset, retries, returned⟩ := c
  obtain ⟨out', currentOffset', retries', returned'⟩ := c'
  obtain ⟨rfl, rfl, rfl, hretries⟩ := h
  have hle := hretries hnone
  cases o with
  | timeout =>
    simp only [iterate]
    split
    · exact ⟨rfl, rfl, rfl, fun _ => Nat.succ_le_succ hle⟩
    · exact ⟨rfl, rfl, rfl, fun _ => Nat.succ_le_succ hle⟩
  | datagram sender rx =>
    simp only [iterate]
    split
    · exact ⟨rfl, rfl, rfl, fun _ => hle⟩
    · exact ⟨rfl, rfl, rfl, fun _ => Nat.le_refl _⟩

/-- One iteration on the same outcome. -/
theorem simulates_step {c' c : Client} (h : Simulates c' c) (o : Outcome) :
    Simulates (c'.step args sha o).1 (c.step args sha o).1 := by
  rcases h with hfailed | hagrees
  · left
    rw [step_returned (by simp [hfailed]), hfailed]
  · by_cases hnone : c.returned = none
    · rw [step, if_neg (not_not.mpr (hagrees.returned.trans hnone)), step,
        if_neg (not_not.mpr hnone)]
      exact simulates_whileCheck (agrees_iterate hagrees hnone o)
    · rw [step_returned hnone, step_returned (hagrees.returned ▸ hnone)]
      exact Or.inr hagrees

/-- One iteration of the run with foreign packets, on a packet the other run does not have. -/
theorem simulates_foreign {c' c : Client} (h : Simulates c' c)
    (hrun : c'.returned = none → c'.Running) {o : Outcome} (hforeign : o.Foreign args)
    (herror : ¬ o.PeerError args) :
    Simulates (c'.step args sha o).1 c := by
  rcases h with hfailed | hagrees
  · exact Or.inl hfailed
  · right
    by_cases hnone : c'.returned = none
    · obtain ⟨hout, hoffset, hreturned, hretries⟩ := hagrees
      rcases step_foreign sha (hrun hnone) hforeign herror with heq | heq <;> rw [heq]
      · exact ⟨hout, hoffset, hreturned, hretries⟩
      · exact ⟨hout, hoffset, hreturned, fun _ => Nat.zero_le _⟩
    · rw [step_returned hnone]
      exact hagrees

/-- **Ignored datagrams only postpone the timeout.** -/
theorem simulates_final (sha : Sha256) {c' c : Client} (h : Simulates c' c)
    (hrun : c'.returned = none → c'.Running) (os : List Outcome)
    (hos : ∀ o ∈ os, o.Foreign args → ¬ o.PeerError args) :
    Simulates (Machine.final (Client.step args sha) c' os)
      (Machine.final (Client.step args sha) c (os.filter fun o => ¬ o.Foreign args)) := by
  induction os generalizing c' c with
  | nil => exact h
  | cons o os ih =>
    have hrest : ∀ o ∈ os, o.Foreign args → ¬ o.PeerError args := fun o' ho' =>
      hos o' (List.mem_cons_of_mem o ho')
    by_cases hforeign : o.Foreign args
    · rw [List.filter_cons_of_neg (by simpa using hforeign), Machine.final_cons]
      exact ih (simulates_foreign h hrun hforeign (hos o List.mem_cons_self hforeign))
        (running_step c' o) hrest
    · rw [List.filter_cons_of_pos (by simpa using hforeign), Machine.final_cons, Machine.final_cons]
      exact ih (simulates_step h o) (running_step c' o) hrest

end Client

/-- **Foreign packets.** In every state of the loop a foreign datagram is ignored exactly unless it
is an error that the peer reports. And in every run without such errors the foreign datagrams do no
harm: if the download succeeds without them, it succeeds with them, with the same file. -/
theorem foreign_packets_ignored_iff (args : ReceiveArgs) (sha : Sha256) :
    (∀ c : Client, c.Running → ∀ o : Outcome, o.Foreign args →
      (Client.Ignored c (c.step args sha o) ↔ ¬ o.PeerError args)) ∧
    (∀ os : List Outcome, (∀ o ∈ os, o.Foreign args → ¬ o.PeerError args) →
      let own := os.filter fun o => ¬ o.Foreign args
      (Machine.final (Client.step args sha) Client.start own).returned = some true →
        (Machine.final (Client.step args sha) Client.start os).returned = some true ∧
          (Machine.final (Client.step args sha) Client.start os).out
            = (Machine.final (Client.step args sha) Client.start own).out) := by
  refine ⟨fun c hrun o hforeign => Client.ignores_iff hrun hforeign, ?_⟩
  intro os hos own htrue
  have hstart : Client.Simulates Client.start Client.start :=
    Or.inr ⟨rfl, rfl, rfl, fun _ => Nat.le_refl _⟩
  rcases Client.simulates_final sha hstart (fun _ => Client.running_start) os hos with
    hfailed | hagrees
  · rw [htrue] at hfailed
    simp at hfailed
  · exact ⟨hagrees.returned.trans htrue, hagrees.out⟩

/-- An error about a transfer the receiver never asked for. -/
def sampleForeignError : Outcome :=
  .ofControl sampleArgs.peer (.error { transferId := text "x", code := 5 })

/-- The download that would succeed fails on an error about another transfer. -/
theorem foreign_error_ends_download :
    sampleForeignError.Foreign sampleArgs ∧
      ¬ Client.Ignored Client.start (Client.start.step sampleArgs sampleSha sampleForeignError) ∧
      (Machine.final (Client.step sampleArgs sampleSha) Client.start sampleOutcomes).returned
        = some true ∧
      (Machine.final (Client.step sampleArgs sampleSha) Client.start
        (sampleForeignError :: sampleOutcomes)).returned = some false := by
  have hparse : ControlPacket.parseFromString
      (received (ControlPacket.error { transferId := text "x", code := 5 }).serializeToString)
        = some (.error { transferId := text "x", code := 5 }) := by
    rw [ControlPacket.parse_received, if_pos (by decide)]
  have hforeign : sampleForeignError.Foreign sampleArgs :=
    Or.inr ⟨text "x", by rw [hparse]; rfl, by decide⟩
  have hstep : Client.start.step sampleArgs sampleSha sampleForeignError
      = ({ Client.start with retries := 0, returned := some false }, []) :=
    Client.step_error Client.running_start hparse
  refine ⟨hforeign, fun hignored => ?_, by rw [sampleOutcomes_final], ?_⟩
  · have := hignored.returned
    rw [hstep] at this
    simp at this
  · rw [Machine.final_cons, hstep]
    have hstay : ∀ os, Machine.final (Client.step sampleArgs sampleSha)
        { Client.start with retries := 0, returned := some false } os
          = { Client.start with retries := 0, returned := some false } := fun os =>
      Machine.final_invariant (P := fun c => c = _) (Q := fun _ => True)
        (fun c o hc _ => by rw [hc, Client.step_returned (by simp)]) rfl fun _ _ => trivial
    rw [hstay]

end Zapshare
