import Zapshare.Control
import Zapshare.Crypto
import Zapshare.Lib.Machine

/-!
# The receiver's loop

`client.cpp`: `receive_file`, one iteration of its loop at a time. An iteration is a function from
the local variables and one outcome of `recv_with_timeout` to the local variables after it and the
datagrams it sent, in the source's order of checks; what the function returns is one of the
variables. Writing to the output file and sending do not fail.

## Main results

* `Client.step_timeout`, `step_stranger`, `step_peer` — what one iteration does
* `Client.step_data`, `step_done`, `step_error` — and what it does to a packet of the peer
-/

namespace Zapshare

open Wire Stream UdpConfig

/-- The arguments of `receive_file`. The sockets are the network's, and the output file is the
stream. -/
structure ReceiveArgs where
  peer : Endpoint
  transferId : Bytes
  expectedHash : Bytes

/-- The local variables of `receive_file`, and what it returned if it has. -/
structure Client where
  out : OfStream UInt8 := .truncated
  currentOffset : ℕ := 0
  retries : ℕ := 0
  returned : Option Bool := none
  deriving DecidableEq, Repr

/-- An outcome of `recv_with_timeout`: `rx` is what the receive buffer left of the datagram. -/
inductive Outcome
  | timeout
  | datagram (sender : Endpoint) (rx : Bytes)

/-- The bytes of the request for a transfer. -/
def buildGetRequest (transferId : Bytes) : Bytes :=
  (ControlPacket.get { transferId := transferId }).serializeToString

/-- `get_bytes`, as `run_client_session` passes it. -/
def ReceiveArgs.getBytes (args : ReceiveArgs) : Bytes := buildGetRequest args.transferId

/-- An acknowledgement, sent to the peer. -/
def ReceiveArgs.sendAck (args : ReceiveArgs) (nextOffset : ℕ) : List Datagram :=
  [⟨args.peer, (ControlPacket.ack
    { transferId := args.transferId, nextOffset := UInt64.ofNat nextOffset }).serializeToString⟩]

namespace Client

/-! ### One iteration -/

/-- A `DataChunk`: written if it is the next one, acknowledged again if it is an old one. -/
def handleData (args : ReceiveArgs) (c : Client) (data : DataChunk) : Client × List Datagram :=
  if data.transferId ≠ args.transferId then (c, [])
  else
    let off := data.offset.toNat
    if off = c.currentOffset then
      let currentOffset := (c.currentOffset + data.payload.length) % 2 ^ 64
      ({ c with out := (c.out.seekp off).write data.payload, currentOffset := currentOffset },
        args.sendAck currentOffset)
    else if off < c.currentOffset then (c, args.sendAck c.currentOffset)
    else (c, [])

/-- A `Done`: at the right offset the hash of the file decides what is returned. -/
def handleDone (args : ReceiveArgs) (sha : Sha256) (c : Client) (done : Done) :
    Client × List Datagram :=
  if done.transferId ≠ args.transferId then (c, [])
  else if c.currentOffset ≠ done.finalSize.toNat then (c, [])
  else
    -- the file that was just closed can be opened, so the hash is there
    let fileHash := Crypto.computeFileHash sha (.opened c.out.content)
    if fileHash ≠ some args.expectedHash then ({ c with returned := some false }, [])
    else ({ c with returned := some true }, args.sendAck c.currentOffset)

/-- The packet of the peer. -/
def handlePacket (args : ReceiveArgs) (sha : Sha256) (c : Client) (rx : Bytes) :
    Client × List Datagram :=
  match ControlPacket.parseFromString rx with
  | some (.data data) => c.handleData args data
  | some (.done done) => c.handleDone args sha done
  | some (.error _) => ({ c with returned := some false }, [])
  | _ => (c, [])

/-- The body of the loop. -/
def iterate (args : ReceiveArgs) (sha : Sha256) (c : Client) : Outcome → Client × List Datagram
  | .datagram sender rx =>
    if sender ≠ args.peer then (c, []) else handlePacket args sha { c with retries := 0 } rx
  | .timeout =>
    let c := { c with retries := c.retries + 1 }
    if c.currentOffset = 0 then (c, [⟨args.peer, args.getBytes⟩])
    else (c, args.sendAck c.currentOffset)

/-- The condition of the loop, and the `return` behind it. -/
def whileCheck (c : Client) : Client :=
  if c.returned = none ∧ ¬ c.retries < maxRetries then { c with returned := some false } else c

/-- One iteration; nothing happens once the function has returned. -/
def step (args : ReceiveArgs) (sha : Sha256) (c : Client) (o : Outcome) : Client × List Datagram :=
  if c.returned ≠ none then (c, [])
  else ((c.iterate args sha o).1.whileCheck, (c.iterate args sha o).2)

/-- The state in front of the loop; the request has just been sent. -/
def start : Client := {}

/-- The loop runs. -/
structure Running (c : Client) : Prop where
  returned : c.returned = none
  retries : c.retries < maxRetries

theorem running_start : start.Running := ⟨rfl, by decide⟩

/-! ### What one iteration does -/

variable {args : ReceiveArgs} {sha : Sha256} {c : Client}

theorem whileCheck_of_lt (h : c.retries < maxRetries) : c.whileCheck = c :=
  if_neg fun hc => hc.2 h

@[simp] theorem whileCheck_out (c : Client) : c.whileCheck.out = c.out := by
  rw [whileCheck]
  split <;> rfl

@[simp] theorem whileCheck_currentOffset (c : Client) :
    c.whileCheck.currentOffset = c.currentOffset := by
  rw [whileCheck]
  split <;> rfl

/-- The loop goes on, or `receive_file` has returned. -/
theorem whileCheck_running (c : Client) (h : c.whileCheck.returned = none) :
    c.whileCheck.Running := by
  rw [whileCheck] at h ⊢
  split at h
  · simp at h
  · rename_i hc
    rw [if_neg hc]
    exact ⟨h, not_not.mp fun hlt => hc ⟨h, hlt⟩⟩

theorem whileCheck_returned_true {c : Client} (h : c.whileCheck.returned = some true) :
    c.returned = some true := by
  rw [whileCheck] at h
  split at h
  · simp at h
  · exact h

theorem step_returned (h : c.returned ≠ none) (o : Outcome) : c.step args sha o = (c, []) :=
  if_pos h

theorem step_running (h : c.Running) (o : Outcome) :
    c.step args sha o = ((c.iterate args sha o).1.whileCheck, (c.iterate args sha o).2) :=
  if_neg (not_not.mpr h.returned)

/-- After every iteration the loop goes on, or `receive_file` has returned. -/
theorem running_step (c : Client) (o : Outcome) (h : (c.step args sha o).1.returned = none) :
    (c.step args sha o).1.Running := by
  by_cases hc : c.returned = none
  · rw [step, if_neg (not_not.mpr hc)] at h ⊢
    exact whileCheck_running _ h
  · rw [step_returned hc] at h
    exact absurd h hc

theorem step_timeout (h : c.Running) :
    c.step args sha .timeout
      = ({ c with retries := c.retries + 1 }.whileCheck,
          if c.currentOffset = 0 then [⟨args.peer, args.getBytes⟩]
          else args.sendAck c.currentOffset) := by
  rw [step_running h, iterate]
  split <;> rfl

/-- A datagram of somebody else. -/
theorem step_stranger (h : c.Running) {sender : Endpoint} (hsender : sender ≠ args.peer)
    (rx : Bytes) : c.step args sha (.datagram sender rx) = (c, []) := by
  rw [step_running h, iterate, if_pos hsender, whileCheck_of_lt h.retries]

/-- The state after the chunk at the current offset was written. -/
def wrote (c : Client) (payload : Bytes) : Client :=
  { c with
    out := (c.out.seekp c.currentOffset).write payload
    currentOffset := (c.currentOffset + payload.length) % 2 ^ 64 }

/-- **A chunk** is ignored, written and acknowledged, or acknowledged only. -/
theorem handleData_cases (args : ReceiveArgs) (c : Client) (m : DataChunk) :
    ((m.transferId ≠ args.transferId ∨ c.currentOffset < m.offset.toNat) ∧
      c.handleData args m = (c, [])) ∨
    (m.transferId = args.transferId ∧ m.offset.toNat = c.currentOffset ∧
      c.handleData args m = (c.wrote m.payload, args.sendAck (c.wrote m.payload).currentOffset)) ∨
    (m.transferId = args.transferId ∧ m.offset.toNat < c.currentOffset ∧
      c.handleData args m = (c, args.sendAck c.currentOffset)) := by
  simp only [handleData]
  split_ifs with hid hoff hlt
  · exact Or.inl ⟨Or.inl hid, rfl⟩
  · exact Or.inr (Or.inl ⟨not_not.mp hid, hoff, by rw [hoff]; rfl⟩)
  · exact Or.inr (Or.inr ⟨not_not.mp hid, hlt, rfl⟩)
  · exact Or.inl ⟨Or.inr (by omega), rfl⟩

/-- **A `Done`** is ignored, or ends the loop. -/
theorem handleDone_cases (args : ReceiveArgs) (sha : Sha256) (c : Client) (m : Done) :
    ((m.transferId ≠ args.transferId ∨ c.currentOffset ≠ m.finalSize.toNat) ∧
      c.handleDone args sha m = (c, [])) ∨
    (m.transferId = args.transferId ∧ c.currentOffset = m.finalSize.toNat ∧
      Crypto.hexLower (sha.digest c.out.content) ≠ args.expectedHash ∧
      c.handleDone args sha m = ({ c with returned := some false }, [])) ∨
    (m.transferId = args.transferId ∧ c.currentOffset = m.finalSize.toNat ∧
      Crypto.hexLower (sha.digest c.out.content) = args.expectedHash ∧
      c.handleDone args sha m
        = ({ c with returned := some true }, args.sendAck c.currentOffset)) := by
  rw [handleDone]
  by_cases hid : m.transferId = args.transferId
  · rw [if_neg (not_not.mpr hid)]
    by_cases hsize : c.currentOffset = m.finalSize.toNat
    · rw [if_neg (not_not.mpr hsize)]
      simp only [Crypto.computeFileHash_opened, ne_eq, Option.some.injEq]
      by_cases hhash : Crypto.hexLower (sha.digest c.out.content) = args.expectedHash
      · exact Or.inr (Or.inr ⟨hid, hsize, hhash, if_neg (not_not.mpr hhash)⟩)
      · exact Or.inr (Or.inl ⟨hid, hsize, hhash, if_pos hhash⟩)
    · exact Or.inl ⟨Or.inr hsize, if_pos hsize⟩
  · exact Or.inl ⟨Or.inl hid, if_pos hid⟩

/-- No handler touches `retries`. -/
theorem handlePacket_retries (rx : Bytes) : (c.handlePacket args sha rx).1.retries = c.retries := by
  rw [handlePacket]
  split
  · rename_i m _
    rcases handleData_cases args c m with ⟨-, h⟩ | ⟨-, -, h⟩ | ⟨-, -, h⟩ <;>
      exact congrArg (fun r => r.1.retries) h
  · rename_i m _
    rcases handleDone_cases args sha c m with ⟨-, h⟩ | ⟨-, -, -, h⟩ | ⟨-, -, -, h⟩ <;>
      exact congrArg (fun r => r.1.retries) h
  · rfl
  · rfl

/-- A datagram of the peer. -/
theorem step_peer (h : c.Running) (rx : Bytes) :
    c.step args sha (.datagram args.peer rx)
      = { c with retries := 0 }.handlePacket args sha rx := by
  rw [step_running h, iterate, if_neg (not_not.mpr rfl), whileCheck_of_lt]
  rw [handlePacket_retries]
  exact (by decide : 0 < maxRetries)

theorem step_data (h : c.Running) {rx : Bytes} {m : DataChunk}
    (hparse : ControlPacket.parseFromString rx = some (.data m)) :
    c.step args sha (.datagram args.peer rx) = { c with retries := 0 }.handleData args m := by
  rw [step_peer h, handlePacket, hparse]

theorem step_done (h : c.Running) {rx : Bytes} {m : Done}
    (hparse : ControlPacket.parseFromString rx = some (.done m)) :
    c.step args sha (.datagram args.peer rx) = { c with retries := 0 }.handleDone args sha m := by
  rw [step_peer h, handlePacket, hparse]

theorem step_error (h : c.Running) {rx : Bytes} {m : TransferError}
    (hparse : ControlPacket.parseFromString rx = some (.error m)) :
    c.step args sha (.datagram args.peer rx)
      = ({ c with retries := 0, returned := some false }, []) := by
  rw [step_peer h, handlePacket, hparse]

/-- A packet only a sender reacts to. -/
theorem step_other (h : c.Running) {rx : Bytes}
    (hparse : ∀ p, ControlPacket.parseFromString rx = some p →
      (∀ m, p ≠ .data m) ∧ (∀ m, p ≠ .done m) ∧ ∀ m, p ≠ .error m) :
    c.step args sha (.datagram args.peer rx) = ({ c with retries := 0 }, []) := by
  rw [step_peer h, handlePacket]
  split
  · rename_i m hm
    exact absurd rfl ((hparse _ hm).1 m)
  · rename_i m hm
    exact absurd rfl ((hparse _ hm).2.1 m)
  · rename_i m hm
    exact absurd rfl ((hparse _ hm).2.2 m)
  · rfl

end Client

end Zapshare
