import Zapshare.ClientIntegrity
import Zapshare.Lib.Patience

/-!
# When the receiver gives up

`receive_file` counts its timeouts and gives up at `MAX_RETRIES`. Every datagram of the peer starts
the count over, whatever is in it, and a datagram of anybody else leaves the count as it is and
yet ends the wait. So the loop may go round for ever without the download getting any further.

## Main results

* `Client.step_turn` — what one iteration does to the offset and the count, and when it returns
* `receive_file_returns_iff` — which sequences of outcomes make `receive_file` return
-/

namespace Zapshare

open Wire Stream UdpConfig Machine

namespace Outcome

/-- Nothing arrived in time. -/
def isTimeout : Outcome → Bool
  | .timeout => true
  | .datagram _ _ => false

/-- Something arrived, and it was sent by the peer. -/
def isFromPeer (args : ReceiveArgs) : Outcome → Bool
  | .timeout => false
  | .datagram sender _ => sender = args.peer

/-- An error that the peer reports, or its `Done` for what has arrived. -/
def Ends (args : ReceiveArgs) (offset : ℕ) : Outcome → Prop
  | .timeout => False
  | .datagram sender rx => sender = args.peer ∧
      ((∃ m, ControlPacket.parseFromString rx = some (.error m)) ∨
        ∃ m, ControlPacket.parseFromString rx = some (.done m) ∧
          m.transferId = args.transferId ∧ offset = m.finalSize.toNat)

/-- How much has arrived after the outcome. -/
def offsetAfter (args : ReceiveArgs) (offset : ℕ) : Outcome → ℕ
  | .timeout => offset
  | .datagram sender rx =>
    match ControlPacket.parseFromString rx with
    | some (.data m) =>
      if sender = args.peer ∧ m.transferId = args.transferId ∧ m.offset.toNat = offset then
        (offset + m.payload.length) % 2 ^ 64
      else offset
    | _ => offset

end Outcome

/-- How much of the file the peer has delivered, in order, before outcome `n`. -/
def deliveredAt (args : ReceiveArgs) (outcomes : ℕ → Outcome) : ℕ → ℕ
  | 0 => 0
  | n + 1 => (outcomes n).offsetAfter args (deliveredAt args outcomes n)

namespace Client

variable {args : ReceiveArgs} {sha : Sha256} {c : Client}

/-! ### One iteration -/

/-- What an iteration does to the variables of the loop. -/
structure Turn (args : ReceiveArgs) (c : Client) (o : Outcome) (c' : Client) : Prop where
  currentOffset : c'.currentOffset = o.offsetAfter args c.currentOffset
  retries : c'.retries = if o.isFromPeer args then 0 else c.retries + if o.isTimeout then 1 else 0
  returned : c'.returned ≠ none ↔ o.Ends args c.currentOffset ∨ maxRetries ≤ c'.retries

theorem turn_timeout (h : c.Running) : c.Turn args .timeout (c.step args sha .timeout).1 := by
  have hreturned := h.returned
  rw [step_timeout h, whileCheck]
  simp only [hreturned, true_and, Nat.not_lt]
  by_cases hlast : maxRetries ≤ c.retries + 1
  · rw [if_pos hlast]
    exact ⟨rfl, rfl, iff_of_true (by simp) (Or.inr hlast)⟩
  · rw [if_neg hlast]
    refine ⟨rfl, rfl, iff_of_false (fun hne => hne rfl) ?_⟩
    rintro (hends | hmax)
    · exact hends
    · exact hlast hmax

theorem turn_stranger (h : c.Running) {sender : Endpoint} (hsender : sender ≠ args.peer)
    (rx : Bytes) :
    c.Turn args (.datagram sender rx) (c.step args sha (.datagram sender rx)).1 := by
  rw [step_stranger h hsender]
  refine ⟨?_, ?_, iff_of_false (fun hne => hne h.returned) ?_⟩
  · simp only [Outcome.offsetAfter, hsender, false_and, if_false]
    split <;> rfl
  · simp [Outcome.isFromPeer, Outcome.isTimeout, hsender]
  · rintro (hends | hmax)
    · exact hsender hends.1
    · exact absurd h.retries (Nat.not_lt.mpr hmax)

/-- A datagram of the peer starts the count over, so it remains to look at the handlers. -/
theorem turn_peer {rx : Bytes} {c' : Client} (hretries : c'.retries = 0)
    (hoffset : c'.currentOffset = (Outcome.datagram args.peer rx).offsetAfter args c.currentOffset)
    (hreturned : c'.returned ≠ none ↔ (Outcome.datagram args.peer rx).Ends args c.currentOffset) :
    c.Turn args (.datagram args.peer rx) c' := by
  refine ⟨hoffset, by simp [hretries, Outcome.isFromPeer], ?_⟩
  rw [hreturned, hretries, or_iff_left (by decide : ¬ maxRetries ≤ 0)]

/-- **One iteration.** -/
theorem step_turn (args : ReceiveArgs) (sha : Sha256) (h : c.Running) (o : Outcome) :
    c.Turn args o (c.step args sha o).1 := by
  have hnone := h.returned
  cases o with
  | timeout => exact turn_timeout h
  | datagram sender rx =>
    by_cases hsender : sender = args.peer
    case neg => exact turn_stranger h hsender rx
    subst hsender
    rcases hparse : ControlPacket.parseFromString rx with _ | (_ | get | ack | m | m | e)
    case some.data =>
      rw [step_data h hparse]
      have hends : ¬ (Outcome.datagram args.peer rx).Ends args c.currentOffset := by
        simp [Outcome.Ends, hparse]
      rcases handleData_cases args { c with retries := 0 } m with
        ⟨hignored, heq⟩ | ⟨hid, hoff, heq⟩ | ⟨hid, hoff, heq⟩ <;> rw [heq]
      · refine turn_peer rfl ?_ (iff_of_false (fun hne => hne hnone) hends)
        have hfar : ¬ (m.transferId = args.transferId ∧ m.offset.toNat = c.currentOffset) := by
          rintro ⟨hid, hoff⟩
          exact hignored.elim (absurd hid) fun hlt => absurd hoff (Nat.ne_of_gt hlt)
        simp only [Outcome.offsetAfter, hparse, true_and, if_neg hfar]
      · refine turn_peer rfl ?_ (iff_of_false (fun hne => hne hnone) hends)
        simp only [Outcome.offsetAfter, hparse, true_and]
        rw [if_pos ⟨hid, hoff⟩]
        rfl
      · refine turn_peer rfl ?_ (iff_of_false (fun hne => hne hnone) hends)
        simp only [Outcome.offsetAfter, hparse, true_and]
        rw [if_neg fun hc => absurd hc.2 (Nat.ne_of_lt hoff)]
    case some.done =>
      rw [step_done h hparse]
      rcases handleDone_cases args sha { c with retries := 0 } m with
        ⟨hignored, heq⟩ | ⟨hid, hsize, -, heq⟩ | ⟨hid, hsize, -, heq⟩ <;> rw [heq]
      · refine turn_peer rfl (by simp [Outcome.offsetAfter, hparse])
          (iff_of_false (fun hne => hne hnone) ?_)
        rintro ⟨-, ⟨e, herror⟩ | ⟨m', hdone, hid, hsize⟩⟩
        · simp [hparse] at herror
        · obtain rfl : m = m' := by simpa [hparse] using hdone
          exact hignored.elim (absurd hid) (absurd hsize)
      · exact turn_peer rfl (by simp [Outcome.offsetAfter, hparse])
          (iff_of_true (by simp) ⟨rfl, Or.inr ⟨m, hparse, hid, hsize⟩⟩)
      · exact turn_peer rfl (by simp [Outcome.offsetAfter, hparse])
          (iff_of_true (by simp) ⟨rfl, Or.inr ⟨m, hparse, hid, hsize⟩⟩)
    case some.error =>
      rw [step_error h hparse]
      exact turn_peer rfl (by simp [Outcome.offsetAfter, hparse])
        (iff_of_true (by simp) ⟨rfl, Or.inl ⟨e, hparse⟩⟩)
    all_goals
      rw [step_other h (by simp [hparse])]
      exact turn_peer rfl (by simp [Outcome.offsetAfter, hparse])
        (iff_of_false (fun hne => hne hnone) (by simp [Outcome.Ends, hparse]))

/-! ### The loop on infinitely many outcomes -/

variable {outcomes : ℕ → Outcome}

/-- The local variables before outcome `n`. -/
def before (args : ReceiveArgs) (sha : Sha256) (outcomes : ℕ → Outcome) (n : ℕ) : Client :=
  stateAt (Client.step args sha) Client.start outcomes n

theorem before_succ (n : ℕ) :
    before args sha outcomes (n + 1)
      = ((before args sha outcomes n).step args sha (outcomes n)).1 :=
  stateAt_succ outcomes n

/-- While the loop runs, the offset is what has been delivered. -/
theorem running_before {n : ℕ} (h : (before args sha outcomes n).returned = none) :
    (before args sha outcomes n).Running ∧
      (before args sha outcomes n).currentOffset = deliveredAt args outcomes n := by
  induction n with
  | zero => exact ⟨running_start, rfl⟩
  | succ n ih =>
    have hbefore : (before args sha outcomes n).returned = none := by
      by_contra hreturned
      rw [before_succ, step_returned hreturned] at h
      exact hreturned h
    obtain ⟨hrun, hoffset⟩ := ih hbefore
    rw [before_succ] at h ⊢
    refine ⟨running_step _ _ h, ?_⟩
    rw [(step_turn args sha hrun (outcomes n)).currentOffset, hoffset]
    rfl

/-- The count of timeouts, as long as the loop runs. -/
theorem counts_retries {last : ℕ}
    (h : ∀ n < last, (before args sha outcomes n).returned = none) :
    Patience.Counts (fun n => (outcomes n).isTimeout) (fun n => (outcomes n).isFromPeer args)
      (fun n => (before args sha outcomes n).retries) last := by
  refine ⟨rfl, ?_⟩
  intro n hn
  have hturn := (step_turn args sha (running_before (h n hn)).1 (outcomes n)).retries
  rw [← before_succ] at hturn
  exact hturn

end Client

/-- **Giving up.** `receive_file` returns exactly if `MAX_RETRIES` timeouts come with no datagram
of the peer among them, or if the peer reports an error or the size of what has arrived. Nothing
else ends the loop, however long the download does not get any further. -/
theorem receive_file_returns_iff (args : ReceiveArgs) (sha : Sha256) (outcomes : ℕ → Outcome) :
    (∃ n, (Client.before args sha outcomes n).returned ≠ none) ↔
      (∃ m n, Patience.Stretch (fun k => (outcomes k).isFromPeer args) m n ∧
        maxRetries ≤ Patience.ticks (fun k => (outcomes k).isTimeout) m n) ∨
      ∃ n, (outcomes n).Ends args (deliveredAt args outcomes n) := by
  constructor
  · intro hreturns
    -- the outcome at which it returns is the one before the first state in which it has returned
    obtain ⟨n, hreturned, hfirst⟩ := Nat.findX hreturns
    obtain _ | n := n
    · exact absurd rfl hreturned
    have hrunning : ∀ k < n + 1, (Client.before args sha outcomes k).returned = none :=
      fun k hk => not_not.mp (hfirst k hk)
    obtain ⟨hrun, hoffset⟩ := Client.running_before (hrunning n (Nat.lt_succ_self n))
    have hturn := Client.step_turn args sha hrun (outcomes n)
    rw [← Client.before_succ] at hturn
    rcases hturn.returned.mp hreturned with hends | hmax
    · right
      rw [hoffset] at hends
      exact ⟨n, hends⟩
    · left
      obtain ⟨m, -, hstretch, hshown⟩ :=
        Patience.exists_stretch (Client.counts_retries hrunning) (Nat.le_refl (n + 1))
      rw [hshown] at hmax
      exact ⟨m, n + 1, hstretch, hmax⟩
  · intro hcond
    by_contra hnever
    have hnone : ∀ n, (Client.before args sha outcomes n).returned = none := fun n =>
      not_not.mp fun hreturned => hnever ⟨n, hreturned⟩
    rcases hcond with ⟨m, n, hstretch, hmax⟩ | ⟨n, hends⟩
    · have hmn : m ≤ n := by
        by_contra hgt
        rw [Patience.ticks, Finset.Ico_eq_empty_of_le (Nat.le_of_not_le hgt),
          Finset.filter_empty] at hmax
        exact absurd hmax (by decide)
      have hle := Patience.ticks_le (Client.counts_retries fun k _ => hnone k) hmn
        (Nat.le_refl n) hstretch
      have hlt := (Client.running_before (hnone n)).1.retries
      omega
    · obtain ⟨hrun, hoffset⟩ := Client.running_before (hnone n)
      have hturn := Client.step_turn args sha hrun (outcomes n)
      rw [← Client.before_succ] at hturn
      rw [← hoffset] at hends
      exact hturn.returned.mpr (Or.inl hends) (hnone (n + 1))

/-- A host that is not the peer sends one empty datagram after the other: nothing ever arrives, and
the loop goes round for ever. -/
theorem receive_file_goes_round :
    let outcomes : ℕ → Outcome := fun _ => .datagram samplePeer []
    {n | (Client.before sampleArgs sampleSha outcomes (n + 1)).currentOffset
        ≠ (Client.before sampleArgs sampleSha outcomes n).currentOffset}.Finite ∧
      ∀ n, (Client.before sampleArgs sampleSha outcomes n).returned = none := by
  intro outcomes
  have hstart : ∀ n, Client.before sampleArgs sampleSha outcomes n = Client.start := by
    intro n
    induction n with
    | zero => rfl
    | succ n ih =>
      rw [Client.before_succ, ih, Client.step_stranger Client.running_start (by decide)]
  simp only [hstart]
  exact ⟨by simp, fun _ => rfl⟩

end Zapshare
