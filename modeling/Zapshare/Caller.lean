import Zapshare.Connecting

/-!
# The receiver, from its first hello on

`run_client_session` once it knows whom to call: the turns of `perform_handshake`, and then
`receive_file` with the peer that has answered. An outcome of `recv_with_timeout` is one step,
whichever of the two loops it meets.

## Main results

* `Caller.connected_iff`, `Caller.failed_iff` — the turns are the loop of `perform_handshake`
* `Caller.final_receiving` — and what follows is `receive_file`
-/

namespace Zapshare

open Wire UdpConfig Utils Machine

/-- What `run_client_session` calls with: the token, the endpoints it tries, its hello as it is
sent, and the hash it expects. -/
structure CallArgs where
  token : Bytes
  peers : List Endpoint
  hello : Bytes
  expectedHash : Bytes

namespace CallArgs

variable (args : CallArgs)

/-- The arguments of `receive_file`, when this peer has answered. -/
def receiveArgs (peer : Endpoint) : ReceiveArgs where
  peer := peer
  transferId := args.token
  expectedHash := args.expectedHash

/-- The hello goes to all candidates. -/
def sayHello : List Datagram := args.peers.map fun p => ⟨p, args.hello⟩

end CallArgs

/-- Where `run_client_session` is: in the loop of `perform_handshake`, with so many turns behind
this one; in `receive_file`; or without a peer. -/
inductive Caller
  | connecting (turns : ℕ)
  | receiving (peer : Endpoint) (c : Client)
  | failed
  deriving DecidableEq, Repr

namespace Caller

/-- In front of the first wait; the packets for the holes and the first hellos have been sent. -/
def start : Caller := .connecting (maxRetries - 1)

/-- One outcome of `recv_with_timeout`, and what is sent before the next one. -/
def step (args : CallArgs) (sha : Sha256) (s : Caller) (o : Outcome) : Caller × List Datagram :=
  match s with
  | .connecting turns =>
    match answeredBy args.token o with
    | some peer => (.receiving peer .start, [⟨peer, (args.receiveArgs peer).getBytes⟩])
    | none =>
      match turns with
      | 0 => (.failed, [])
      | turns + 1 => (.connecting turns, args.sayHello)
  | .receiving peer c =>
    let r := c.step (args.receiveArgs peer) sha o
    (.receiving peer r.1, r.2)
  | .failed => (.failed, [])

variable {args : CallArgs} {sha : Sha256} {turns : ℕ} {o : Outcome} {outcomes : ℕ → Outcome}

theorem step_answered {peer : Endpoint} (h : answeredBy args.token o = some peer) :
    step args sha (.connecting turns) o
      = (.receiving peer .start, [⟨peer, (args.receiveArgs peer).getBytes⟩]) := by
  simp only [step, h]

theorem step_unanswered (h : answeredBy args.token o = none) :
    (turns = 0 ∧ step args sha (.connecting turns) o = (.failed, [])) ∨
      ∃ k, turns = k + 1 ∧
        step args sha (.connecting turns) o = (.connecting k, args.sayHello) := by
  cases turns with
  | zero => exact Or.inl ⟨rfl, by simp only [step, h]⟩
  | succ k => exact Or.inr ⟨k, rfl, by simp only [step, h]⟩

/-- Whoever answers is the sender of the datagram. -/
theorem answeredBy_datagram {token rx : Bytes} {sender peer : Endpoint}
    (h : answeredBy token (.datagram sender rx) = some peer) : peer = sender := by
  rw [answeredBy] at h
  split at h
  · split at h
    · exact (Option.some.inj h).symm
    · cases h
  · cases h

theorem receiving_or (s : Caller) :
    (∃ peer c, s = .receiving peer c) ∨ ∀ peer c, s ≠ .receiving peer c := by
  cases s with
  | connecting turns => exact Or.inr fun _ _ h => by cases h
  | receiving peer c => exact Or.inl ⟨peer, c, rfl⟩
  | failed => exact Or.inr fun _ _ h => by cases h

theorem step_receiving (peer : Endpoint) (c : Client) :
    ∃ c', (step args sha (.receiving peer c) o).1 = .receiving peer c' := ⟨_, rfl⟩

/-! ### The loop of `perform_handshake` -/

/-- As long as nobody has answered, each outcome takes a turn. -/
theorem stateAt_unanswered {n : ℕ} (hn : n ≤ turns)
    (h : ∀ j < n, answeredBy args.token (outcomes j) = none) :
    stateAt (step args sha) (.connecting turns) outcomes n = .connecting (turns - n) := by
  induction n with
  | zero => rfl
  | succ n ih =>
    rw [stateAt_succ, ih (Nat.le_of_succ_le hn) fun j hj => h j (Nat.lt_succ_of_lt hj)]
    rcases @step_unanswered args sha (turns - n) _ (h n (Nat.lt_succ_self n)) with
      ⟨hzero, -⟩ | ⟨k, hk, heq⟩
    · omega
    · rw [heq, show turns - (n + 1) = k by omega]

/-- From the first answer on the peer is the one that gave it. -/
theorem stateAt_receiving {n m : ℕ} (hn : n ≤ turns) {peer : Endpoint}
    (hfirst : FirstAnswer args.token outcomes n peer) (hm : n + 1 ≤ m) :
    ∃ c, stateAt (step args sha) (.connecting turns) outcomes m = .receiving peer c := by
  induction m, hm using Nat.le_induction with
  | base =>
    rw [stateAt_succ, stateAt_unanswered hn hfirst.2, step_answered hfirst.1]
    exact ⟨_, rfl⟩
  | succ m _ ih =>
    obtain ⟨c, hc⟩ := ih
    rw [stateAt_succ, hc]
    exact step_receiving peer c

/-- Without an answer the loop comes to its end, and there is no way back. -/
theorem stateAt_failed {n : ℕ} (hn : turns + 1 ≤ n)
    (h : ∀ j ≤ turns, answeredBy args.token (outcomes j) = none) :
    stateAt (step args sha) (.connecting turns) outcomes n = .failed := by
  induction n, hn using Nat.le_induction with
  | base =>
    rw [stateAt_succ, stateAt_unanswered (Nat.le_refl _) fun j hj => h j (Nat.le_of_lt hj),
      Nat.sub_self]
    simp only [step, h turns (Nat.le_refl _)]
  | succ n _ ih =>
    rw [stateAt_succ, ih]
    rfl

/-- Who is received from has given the first answer, in time. -/
theorem firstAnswer_of_receiving {n : ℕ} {peer : Endpoint} {c : Client}
    (h : stateAt (step args sha) (.connecting turns) outcomes n = .receiving peer c) :
    ∃ k ≤ turns, k < n ∧ FirstAnswer args.token outcomes k peer := by
  by_cases hnone : ∀ j ≤ turns, answeredBy args.token (outcomes j) = none
  · rcases Nat.lt_or_ge turns n with hlt | hle
    · rw [stateAt_failed hlt hnone] at h
      cases h
    · rw [stateAt_unanswered hle fun j hj => hnone j (by omega)] at h
      cases h
  · have hsome : ∃ j, answeredBy args.token (outcomes j) ≠ none := by
      by_contra hno
      exact hnone fun j _ => by_contra fun hj => hno ⟨j, hj⟩
    obtain ⟨k, hk, hmin⟩ : ∃ k, answeredBy args.token (outcomes k) ≠ none ∧
        ∀ j < k, answeredBy args.token (outcomes j) = none :=
      ⟨Nat.find hsome, Nat.find_spec hsome, fun j hj => not_not.mp (Nat.find_min hsome hj)⟩
    obtain ⟨peer', hpeer⟩ := Option.ne_none_iff_exists'.mp hk
    have hfirst : FirstAnswer args.token outcomes k peer' := ⟨hpeer, hmin⟩
    have hle : k ≤ turns := by
      by_contra hgt
      exact hnone fun j hj => hmin j (by omega)
    rcases Nat.lt_or_ge k n with hlt | hge
    · obtain ⟨c', hc'⟩ := @stateAt_receiving args sha turns outcomes k n hle peer' hfirst hlt
      rw [hc'] at h
      exact ⟨k, hle, hlt, (Caller.receiving.inj h).1 ▸ hfirst⟩
    · rw [stateAt_unanswered (Nat.le_trans hge hle) fun j hj => hmin j (by omega)] at h
      cases h

/-- What has been sent when the first answer arrives. -/
theorem helloLoop_sent {n i : ℕ} (hn : n ≤ turns)
    (h : ∀ j < n, answeredBy args.token (outcomes (i + j)) = none) {peer : Endpoint}
    (hanswer : answeredBy args.token (outcomes (i + n)) = some peer) :
    (helloLoop args.token args.peers args.hello outcomes (turns + 1) i).2
      = args.sayHello ++ outputs (step args sha) (.connecting turns)
          ((List.range n).map fun j => outcomes (i + j)) := by
  induction n generalizing turns i with
  | zero =>
    rw [Nat.add_zero] at hanswer
    simp only [helloLoop, hanswer, List.range_zero, List.map_nil, outputs_nil, List.append_nil]
    rfl
  | succ n ih =>
    have hfirst := h 0 (Nat.succ_pos n)
    rw [Nat.add_zero] at hfirst
    obtain ⟨k, rfl⟩ : ∃ k, turns = k + 1 := ⟨turns - 1, by omega⟩
    have hshift (j : ℕ) : i + 1 + j = i + (j + 1) := by omega
    have hrest := @ih k (i + 1) (Nat.le_of_succ_le_succ hn)
      (fun j hj => by rw [hshift]; exact h (j + 1) (Nat.succ_lt_succ hj))
      (by rw [hshift]; exact hanswer)
    have hstep : step args sha (.connecting (k + 1)) (outcomes i)
        = (.connecting k, args.sayHello) := by
      simp only [step, hfirst]
    have hturns : (List.range (n + 1)).map (fun j => outcomes (i + j))
        = outcomes i :: (List.range n).map fun j => outcomes (i + 1 + j) := by
      rw [List.range_succ_eq_map, List.map_cons, List.map_map, Nat.add_zero]
      exact congrArg _ (List.map_congr_left fun j _ => congrArg outcomes (hshift j).symm)
    rw [hturns, outputs_cons, hstep, helloLoop, hfirst]
    exact congrArg _ hrest

/-- **The first answer is the peer that `perform_handshake` returns**, and what was sent before it
is what `perform_handshake` sends. -/
theorem connected_iff (makeAddress : Bytes → Option Bytes) (env : Env) (senderEp : PublicEndpoint)
    (sha : Sha256) {peer : Endpoint} (hhello : args.hello
      = (HandshakePacket.clientHello (clientHello env args.token)).serializeToString) :
    let r := performHandshake makeAddress env args.peers senderEp args.token outcomes
    r.1 = some peer ↔ ∃ n < maxRetries, FirstAnswer args.token outcomes n peer ∧
      stateAt (step args sha) start outcomes (n + 1) = .receiving peer .start ∧
      r.2 = performUdpHolePunch makeAddress senderEp ++ args.sayHello ++
        outputs (step args sha) start ((List.range n).map outcomes) := by
  intro r
  rw [performHandshake_eq_some_iff]
  refine exists_congr fun n => and_congr_right fun hn => ⟨fun hfirst => ?_, And.left⟩
  have hlast : n ≤ maxRetries - 1 := Nat.le_sub_one_of_lt hn
  have hanswer := hfirst.1
  refine ⟨hfirst, ?_, ?_⟩
  · rw [stateAt_succ, start, stateAt_unanswered hlast hfirst.2, step_answered hanswer]
  · have hsent := @helloLoop_sent args sha (maxRetries - 1) outcomes n 0 hlast
      (fun j hj => by rw [Nat.zero_add]; exact hfirst.2 j hj) peer
      (by rw [Nat.zero_add]; exact hanswer)
    simp only [Nat.zero_add] at hsent
    rw [List.append_assoc, start, ← hsent, hhello]
    rfl

/-- **Nobody answers in time.** -/
theorem failed_iff (makeAddress : Bytes → Option Bytes) (env : Env) (senderEp : PublicEndpoint)
    (sha : Sha256) :
    (performHandshake makeAddress env args.peers senderEp args.token outcomes).1 = none ↔
      stateAt (step args sha) start outcomes maxRetries = .failed := by
  have hturns : maxRetries = maxRetries - 1 + 1 := by decide
  constructor
  · intro hnone
    have hunanswered : ∀ j < maxRetries, answeredBy args.token (outcomes j) = none := by
      intro j
      induction j using Nat.strong_induction_on with
      | h j ih =>
        intro hj
        cases hanswer : answeredBy args.token (outcomes j) with
        | none => rfl
        | some peer =>
          have hsome : (performHandshake makeAddress env args.peers senderEp args.token
              outcomes).1 = some peer :=
            (performHandshake_eq_some_iff makeAddress env senderEp).mpr
              ⟨j, hj, hanswer, fun k hk => ih k hk (hk.trans hj)⟩
          rw [hnone] at hsome
          cases hsome
    exact stateAt_failed (Nat.le_of_eq hturns.symm) fun j hj => hunanswered j (by omega)
  · intro hfailed
    cases hr : (performHandshake makeAddress env args.peers senderEp args.token outcomes).1 with
    | none => rfl
    | some peer =>
      obtain ⟨n, hn, hfirst⟩ := (performHandshake_eq_some_iff makeAddress env senderEp).mp hr
      obtain ⟨c, hc⟩ := @stateAt_receiving args sha (maxRetries - 1) outcomes n maxRetries
        (Nat.le_sub_one_of_lt hn) peer hfirst hn
      rw [start, hc] at hfailed
      cases hfailed

/-! ### The loop of `receive_file` -/

/-- **What follows is `receive_file`.** -/
theorem final_receiving (peer : Endpoint) (c : Client) (os : List Outcome) :
    final (step args sha) (.receiving peer c) os
        = .receiving peer (final (Client.step (args.receiveArgs peer) sha) c os) ∧
      outputs (step args sha) (.receiving peer c) os
        = outputs (Client.step (args.receiveArgs peer) sha) c os := by
  induction os generalizing c with
  | nil => exact ⟨rfl, rfl⟩
  | cons o os ih =>
    obtain ⟨hfinal, houtputs⟩ := ih ((c.step (args.receiveArgs peer) sha o).1)
    rw [final_cons, final_cons, outputs_cons, outputs_cons]
    exact ⟨hfinal, congrArg _ houtputs⟩

end Caller

end Zapshare
