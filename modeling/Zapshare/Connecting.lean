import Zapshare.Candidates
import Zapshare.GivingUp
import Zapshare.Transcript

/-!
# Junk during the handshake

`perform_handshake` sends its hello and waits for one packet, `MAX_RETRIES` times. A packet that is
no answer uses up a turn just as a timeout does, and the socket on which the answer is expected is
the one through which the holes are punched.

## Main results

* `helloLoop_eq_some_iff` — whom the loop finds
* `junk_harmless_iff` — the sequences of outcomes in which junk does no harm
-/

namespace Zapshare

open Wire UdpConfig Utils

/-! ### The loop -/

/-- Where the packet comes from, if it is a `ServerHello` for this transfer. -/
def answeredBy (token : Bytes) : Outcome → Option Endpoint
  | .timeout => none
  | .datagram sender rx =>
    match HandshakePacket.parseFromString rx with
    | some (.serverHello hello) => if hello.transferId = token then some sender else none
    | _ => none

/-- The loop of `perform_handshake` from `i` on, with `turns` turns left: the peer that has
answered, and what was sent. -/
def helloLoop (token : Bytes) (peers : List Endpoint) (bytes : Bytes) (outcomes : ℕ → Outcome) :
    ℕ → ℕ → Option Endpoint × List Datagram
  | 0, _ => (none, [])
  | turns + 1, i =>
    let sent : List Datagram := peers.map fun p => ⟨p, bytes⟩
    match answeredBy token (outcomes i) with
    | some sender => (some sender, sent)
    | none =>
      let r := helloLoop token peers bytes outcomes turns (i + 1)
      (r.1, sent ++ r.2)

/-- `perform_handshake`, on the outcomes that `recv_with_timeout` has. -/
def performHandshake (makeAddress : Bytes → Option Bytes) (env : Env) (peers : List Endpoint)
    (senderEp : PublicEndpoint) (token : Bytes) (outcomes : ℕ → Outcome) :
    Option Endpoint × List Datagram :=
  let bytes := (HandshakePacket.clientHello (clientHello env token)).serializeToString
  let r := helloLoop token peers bytes outcomes maxRetries 0
  (r.1, performUdpHolePunch makeAddress senderEp ++ r.2)

variable {token bytes : Bytes} {peers : List Endpoint} {outcomes : ℕ → Outcome}

/-- **The loop finds the first answer**, if it is among the outcomes it has turns for. -/
theorem helloLoop_eq_some_iff (turns i : ℕ) (sender : Endpoint) :
    (helloLoop token peers bytes outcomes turns i).1 = some sender ↔
      ∃ k < turns, answeredBy token (outcomes (i + k)) = some sender ∧
        ∀ j < k, answeredBy token (outcomes (i + j)) = none := by
  induction turns generalizing i with
  | zero =>
    refine iff_of_false (by simp [helloLoop]) ?_
    rintro ⟨k, hk, -⟩
    exact Nat.not_lt_zero k hk
  | succ turns ih =>
    rw [helloLoop]
    cases hfirst : answeredBy token (outcomes i) with
    | some sender' =>
      simp only [Option.some.injEq]
      constructor
      · rintro rfl
        exact ⟨0, Nat.succ_pos turns, hfirst, fun j hj => absurd hj (Nat.not_lt_zero j)⟩
      · rintro ⟨k, -, hk, hnone⟩
        obtain rfl : k = 0 := by
          by_contra hpos
          have hzero := hnone 0 (Nat.pos_of_ne_zero hpos)
          rw [Nat.add_zero, hfirst] at hzero
          cases hzero
        rw [Nat.add_zero, hfirst] at hk
        exact Option.some.inj hk
    | none =>
      have hshift : ∀ j, i + 1 + j = i + (j + 1) := fun j => by omega
      simp only [ih (i + 1), hshift]
      constructor
      · rintro ⟨k, hk, hanswer, hnone⟩
        refine ⟨k + 1, Nat.succ_lt_succ hk, hanswer, ?_⟩
        rintro (_ | j) hj
        · exact hfirst
        · exact hnone j (Nat.lt_of_succ_lt_succ hj)
      · rintro ⟨k, hk, hanswer, hnone⟩
        obtain _ | k := k
        · rw [Nat.add_zero, hfirst] at hanswer
          cases hanswer
        · exact ⟨k, Nat.lt_of_succ_lt_succ hk, hanswer, fun j hj =>
            hnone (j + 1) (Nat.succ_lt_succ hj)⟩

/-- Outcome `k` is the first answer, and it comes from `sender`. -/
def FirstAnswer (token : Bytes) (outcomes : ℕ → Outcome) (k : ℕ) (sender : Endpoint) : Prop :=
  answeredBy token (outcomes k) = some sender ∧ ∀ j < k, answeredBy token (outcomes j) = none

theorem FirstAnswer.unique {k k' : ℕ} {sender sender' : Endpoint}
    (h : FirstAnswer token outcomes k sender) (h' : FirstAnswer token outcomes k' sender') :
    k = k' := by
  rcases Nat.lt_trichotomy k k' with hlt | rfl | hlt
  · have hnone := h'.2 k hlt
    rw [h.1] at hnone
    cases hnone
  · rfl
  · have hnone := h.2 k' hlt
    rw [h'.1] at hnone
    cases hnone

theorem performHandshake_eq_some_iff (makeAddress : Bytes → Option Bytes) (env : Env)
    (senderEp : PublicEndpoint) {sender : Endpoint} :
    (performHandshake makeAddress env peers senderEp token outcomes).1 = some sender ↔
      ∃ k < maxRetries, FirstAnswer token outcomes k sender := by
  simp only [performHandshake, helloLoop_eq_some_iff, Nat.zero_add, FirstAnswer]

/-- The first answer is returned, if fewer than `MAX_RETRIES` timeouts come before it: nothing else
that is received keeps it from being found. -/
def JunkHarmless (makeAddress : Bytes → Option Bytes) (env : Env) (peers : List Endpoint)
    (senderEp : PublicEndpoint) (token : Bytes) (outcomes : ℕ → Outcome) : Prop :=
  ∀ k sender, FirstAnswer token outcomes k sender →
    Patience.ticks (fun i => (outcomes i).isTimeout) 0 k < maxRetries →
    (performHandshake makeAddress env peers senderEp token outcomes).1 = some sender

/-- **Junk uses up the handshake.** It is harmless exactly if fewer than `MAX_RETRIES` outcomes of
any kind come before the first answer, unless there are as many timeouts among them. -/
theorem junk_harmless_iff (makeAddress : Bytes → Option Bytes) (env : Env) (peers : List Endpoint)
    (senderEp : PublicEndpoint) (token : Bytes) (outcomes : ℕ → Outcome) :
    JunkHarmless makeAddress env peers senderEp token outcomes ↔
      ∀ k sender, FirstAnswer token outcomes k sender →
        Patience.ticks (fun i => (outcomes i).isTimeout) 0 k < maxRetries → k < maxRetries := by
  constructor
  · intro hharmless k sender hfirst hticks
    obtain ⟨k', hk', hfirst'⟩ :=
      (performHandshake_eq_some_iff makeAddress env senderEp).mp (hharmless k sender hfirst hticks)
    rwa [hfirst.unique hfirst']
  · intro hcond k sender hfirst hticks
    rw [performHandshake_eq_some_iff]
    exact ⟨k, hcond k sender hfirst hticks, hfirst⟩

/-- Twenty of the packets a sender punches its hole with, and then its answer. -/
def samplePunched (i : ℕ) : Outcome :=
  if i < 20 then .datagram sampleSender (text "PUNCH")
  else .datagram sampleSender
    (HandshakePacket.serverHello
      { version := protocolVersion1, transferId := sampleToken }).serializeToString

/-- The hello is there, and there was no timeout, but nobody is found. -/
theorem punches_use_up_handshake :
    FirstAnswer sampleToken samplePunched 20 sampleSender ∧
      ¬ JunkHarmless sampleMakeAddress (sampleEnv (some sampleFile)) [sampleSender]
        ⟨text "203.0.113.5", 5000, [], 0⟩ sampleToken samplePunched := by
  have hpunch : ∀ i < 20, samplePunched i = .datagram sampleSender (text "PUNCH") := fun i hi =>
    if_pos hi
  have hjunk : answeredBy sampleToken (.datagram sampleSender (text "PUNCH")) = none := by
    decide
  have hfirst : FirstAnswer sampleToken samplePunched 20 sampleSender := by
    refine ⟨by decide, ?_⟩
    intro j hj
    rw [hpunch j hj, hjunk]
  refine ⟨hfirst, ?_⟩
  intro hharmless
  have hticks : Patience.ticks (fun i => (samplePunched i).isTimeout) 0 20 < maxRetries := by
    decide
  obtain ⟨k, hk, hfirst'⟩ := (performHandshake_eq_some_iff _ _ _).mp
    (hharmless 20 sampleSender hfirst hticks)
  rw [← hfirst.unique hfirst'] at hk
  exact absurd hk (by decide)

end Zapshare
