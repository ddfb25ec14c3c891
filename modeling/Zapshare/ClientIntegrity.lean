import Mathlib.Data.List.Induction
import Zapshare.Client

/-!
# The output file, against any peer

What `receive_file` makes of an arbitrary sequence of datagrams and timeouts, from whomever they
come. A chunk is written exactly when it starts at the end of the file, so the file is what has
been accepted, and the offset its length; the one comparison with `current_offset` is enough.

## Main results

* `Client.step_append` — one iteration appends what it accepts, and nothing else
* `receive_file_integrity` — the file, the acknowledgements and the result of every run
-/

namespace Zapshare

open Wire Stream UdpConfig

/-- What happened in one iteration of the loop. -/
abbrev ClientEntry := Machine.Entry Client Outcome Datagram

/-- The payload of the chunk an outcome delivers. -/
def Outcome.payload : Outcome → Bytes
  | .timeout => []
  | .datagram _ rx =>
    match ControlPacket.parseFromString rx with
    | some (.data m) => m.payload
    | _ => []

namespace Client

/-- The outcome is a `Done` that `receive_file` accepts in state `c`. -/
def AcceptsDone (args : ReceiveArgs) (sha : Sha256) (c : Client) (o : Outcome) (m : Done) : Prop :=
  c.returned = none ∧ (∃ rx, o = .datagram args.peer rx ∧
    ControlPacket.parseFromString rx = some (.done m)) ∧
    m.transferId = args.transferId ∧ m.finalSize.toNat = c.currentOffset ∧
    Crypto.hexLower (sha.digest c.out.content) = args.expectedHash

/-- The payload accepted at an outcome. -/
def acceptedPayload (args : ReceiveArgs) (c : Client) : Outcome → Bytes
  | .timeout => []
  | .datagram sender rx =>
    match ControlPacket.parseFromString rx with
    | some (.data m) =>
      if c.returned = none ∧ sender = args.peer ∧ m.transferId = args.transferId ∧
          m.offset.toNat = c.currentOffset then m.payload
      else []
    | _ => []

variable {args : ReceiveArgs} {sha : Sha256} {c : Client}

theorem acceptedPayload_le (args : ReceiveArgs) (c : Client) (o : Outcome) :
    (c.acceptedPayload args o).length ≤ o.payload.length := by
  cases o with
  | timeout => exact Nat.le_refl 0
  | datagram sender rx =>
    simp only [acceptedPayload, Outcome.payload]
    split
    · split
      · exact Nat.le_refl _
      · exact Nat.zero_le _
    · exact Nat.le_refl 0

/-- The acknowledgements among the datagrams are of the end of the file. -/
def AcksEnd (r : Client × List Datagram) : Prop :=
  ∀ g ∈ r.2, ∀ a : Ack, g.bytes = (ControlPacket.ack a).serializeToString →
    a.nextOffset.toNat = r.1.out.content.length

theorem acksEnd_nil (c : Client) : AcksEnd (c, []) := by
  intro g hg
  simp at hg

theorem acksEnd_sendAck {n : ℕ} (hn : n < 2 ^ 64) (h : c.out.content.length = n) :
    AcksEnd (c, args.sendAck n) := by
  intro g hg a ha
  obtain rfl := List.mem_singleton.mp hg
  rw [← serialize_ack_injective ha, h]
  exact UInt64.toNat_ofNat_of_lt hn

theorem acksEnd_getBytes (c : Client) : AcksEnd (c, [⟨args.peer, args.getBytes⟩]) := by
  intro g hg a ha
  obtain rfl := List.mem_singleton.mp hg
  exact absurd (messageField_injective ha).1 (by decide)

/-- What one iteration does to the file and the offset, and what it sends and returns. -/
structure Appends (args : ReceiveArgs) (sha : Sha256) (c : Client) (o : Outcome)
    (r : Client × List Datagram) : Prop where
  content : r.1.out.content = c.out.content ++ c.acceptedPayload args o
  offset : r.1.currentOffset = c.currentOffset + (c.acceptedPayload args o).length
  acks : AcksEnd r
  done : r.1.returned = some true → c.returned = some true ∨ ∃ m, c.AcceptsDone args sha o m

/-- An iteration that accepts nothing leaves the file alone. -/
theorem appends_of_same {o : Outcome} {r : Client × List Datagram}
    (hempty : c.acceptedPayload args o = []) (hout : r.1.out = c.out)
    (hoffset : r.1.currentOffset = c.currentOffset) (hacks : AcksEnd r)
    (hdone : r.1.returned = some true → c.returned = some true ∨ ∃ m, c.AcceptsDone args sha o m) :
    c.Appends args sha o r :=
  ⟨by rw [hempty, hout, List.append_nil], by rw [hempty, hoffset]; rfl, hacks, hdone⟩

/-- Once `receive_file` has returned, nothing is accepted. -/
theorem acceptedPayload_returned (h : c.returned ≠ none) (o : Outcome) :
    c.acceptedPayload args o = [] := by
  cases o with
  | timeout => rfl
  | datagram sender rx =>
    simp only [acceptedPayload, h, false_and, if_false]
    split <;> rfl

/-- Nothing is accepted from a stranger. -/
theorem acceptedPayload_stranger {sender : Endpoint} (h : sender ≠ args.peer) (rx : Bytes) :
    c.acceptedPayload args (.datagram sender rx) = [] := by
  simp only [acceptedPayload, h, false_and, and_false, if_false]
  split <;> rfl

/-- An iteration on a chunk of the peer. -/
theorem step_append_data (hrun : c.Running) (hlen : c.out.content.length = c.currentOffset)
    {rx : Bytes} {m : DataChunk} (hparse : ControlPacket.parseFromString rx = some (.data m))
    (hbytes : c.currentOffset + m.payload.length < 2 ^ 63) :
    c.Appends args sha (.datagram args.peer rx) (c.step args sha (.datagram args.peer rx)) := by
  have hreturned := hrun.returned
  have hlt : c.currentOffset < 2 ^ 64 := by omega
  rw [step_data hrun hparse]
  rcases handleData_cases args { c with retries := 0 } m with
    ⟨hignored, heq⟩ | ⟨hid, hoff, heq⟩ | ⟨hid, hoff, heq⟩ <;> rw [heq]
  · refine appends_of_same ?_ rfl rfl (acksEnd_nil _) fun h => by simp [hreturned] at h
    simp only [acceptedPayload, hparse]
    refine if_neg fun hc => ?_
    rcases hignored with hid | hoff
    · exact hid hc.2.2.1
    · exact absurd hc.2.2.2 (Nat.ne_of_gt hoff)
  · have haccepted : c.acceptedPayload args (.datagram args.peer rx) = m.payload := by
      simp only [acceptedPayload, hparse]
      exact if_pos ⟨hreturned, trivial, hid, hoff⟩
    have hwrite : (({ c with retries := 0 } : Client).wrote m.payload).out.content
        = c.out.content ++ m.payload := by
      simp only [wrote, ← hlen]
      exact OfStream.write_seekp_length c.out m.payload
    have hend : (({ c with retries := 0 } : Client).wrote m.payload).currentOffset
        = c.currentOffset + m.payload.length :=
      Nat.mod_eq_of_lt (show c.currentOffset + m.payload.length < 2 ^ 64 by omega)
    refine ⟨by rw [haccepted, hwrite], by rw [haccepted, hend], ?_, fun h => ?_⟩
    · refine acksEnd_sendAck (by rw [hend]; omega) ?_
      rw [hwrite, hend, List.length_append, hlen]
    · simp [wrote, hreturned] at h
  · refine appends_of_same ?_ rfl rfl (acksEnd_sendAck hlt hlen) fun h => by simp [hreturned] at h
    simp only [acceptedPayload, hparse]
    exact if_neg fun hc => absurd hc.2.2.2 (Nat.ne_of_lt hoff)

/-- An iteration on a `Done` of the peer. -/
theorem step_append_done (hrun : c.Running) (hlt : c.currentOffset < 2 ^ 64)
    (hlen : c.out.content.length = c.currentOffset) {rx : Bytes} {m : Done}
    (hparse : ControlPacket.parseFromString rx = some (.done m)) :
    c.Appends args sha (.datagram args.peer rx) (c.step args sha (.datagram args.peer rx)) := by
  have hreturned := hrun.returned
  have hempty : c.acceptedPayload args (.datagram args.peer rx) = [] := by
    simp [acceptedPayload, hparse]
  rw [step_done hrun hparse]
  rcases handleDone_cases args sha { c with retries := 0 } m with
    ⟨-, heq⟩ | ⟨-, -, -, heq⟩ | ⟨hid, hsize, hhash, heq⟩ <;> rw [heq]
  · exact appends_of_same hempty rfl rfl (acksEnd_nil _) fun h => by simp [hreturned] at h
  · exact appends_of_same hempty rfl rfl (acksEnd_nil _) fun h => by simp at h
  · exact appends_of_same hempty rfl rfl (acksEnd_sendAck hlt hlen) fun _ =>
      Or.inr ⟨m, hreturned, ⟨rx, rfl, hparse⟩, hid, hsize.symm, hhash⟩

/-- **One iteration appends what it accepts.** -/
theorem step_append (args : ReceiveArgs) (sha : Sha256) (hrun : c.returned = none → c.Running)
    (hlen : c.out.content.length = c.currentOffset) (o : Outcome)
    (hbytes : c.currentOffset + o.payload.length < 2 ^ 63) :
    c.Appends args sha o (c.step args sha o) := by
  have hlt : c.currentOffset < 2 ^ 64 := by omega
  by_cases hreturned : c.returned = none
  case neg =>
    rw [step_returned hreturned]
    exact appends_of_same (acceptedPayload_returned hreturned o) rfl rfl (acksEnd_nil c) Or.inl
  have hrun := hrun hreturned
  cases o with
  | timeout =>
    rw [step_timeout hrun]
    refine appends_of_same rfl (by simp) (by simp) ?_ fun h => ?_
    · split
      · exact acksEnd_getBytes _
      · exact acksEnd_sendAck hlt (by simpa using hlen)
    · simpa [hreturned] using whileCheck_returned_true h
  | datagram sender rx =>
    by_cases hsender : sender = args.peer
    case neg =>
      rw [step_stranger hrun hsender]
      exact appends_of_same (acceptedPayload_stranger hsender rx) rfl rfl (acksEnd_nil c) Or.inl
    subst hsender
    rcases hparse : ControlPacket.parseFromString rx with _ | (_ | get | ack | m | m | e)
    case some.data =>
      exact step_append_data hrun hlen hparse (by simpa [Outcome.payload, hparse] using hbytes)
    case some.done => exact step_append_done hrun hlt hlen hparse
    case some.error =>
      rw [step_error hrun hparse]
      exact appends_of_same (by simp [acceptedPayload, hparse]) rfl rfl (acksEnd_nil _)
        fun h => by simp at h
    all_goals
      rw [step_other hrun (by simp [hparse])]
      exact appends_of_same (by simp [acceptedPayload, hparse]) rfl rfl (acksEnd_nil _)
        fun h => by simp [hreturned] at h

/-! ### Every run -/

/-- What holds in front of every iteration. -/
structure Inv (c : Client) : Prop where
  running : c.returned = none → c.Running
  length : c.out.content.length = c.currentOffset

theorem inv_start : start.Inv := ⟨fun _ => running_start, rfl⟩

theorem Inv.step (h : c.Inv) (o : Outcome) (hbytes : c.currentOffset + o.payload.length < 2 ^ 63) :
    (c.step args sha o).1.Inv := by
  have happend := step_append args sha h.running h.length o hbytes
  refine ⟨running_step c o, ?_⟩
  rw [happend.content, happend.offset, List.length_append, h.length]

end Client

/-- The number of payload bytes that arrive. -/
def payloadBytes (os : List Outcome) : ℕ := (os.map fun o => o.payload.length).sum

theorem payloadBytes_append_singleton (os : List Outcome) (o : Outcome) :
    payloadBytes (os ++ [o]) = payloadBytes os + o.payload.length := by
  simp [payloadBytes]

variable {args : ReceiveArgs} {sha : Sha256}

/-- The run lemma: the invariant, and where the file comes from. -/
theorem client_final (args : ReceiveArgs) (sha : Sha256) (os : List Outcome)
    (hbytes : payloadBytes os < 2 ^ 63) :
    (Machine.final (Client.step args sha) Client.start os).Inv ∧
      (Machine.final (Client.step args sha) Client.start os).out.content
        = (Machine.trace (Client.step args sha) Client.start os).flatMap
            (fun e => e.before.acceptedPayload args e.input) ∧
      (Machine.final (Client.step args sha) Client.start os).currentOffset ≤ payloadBytes os := by
  induction os using List.reverseRecOn with
  | nil => exact ⟨Client.inv_start, rfl, Nat.le_refl 0⟩
  | append_singleton os o ih =>
    rw [payloadBytes_append_singleton] at hbytes ⊢
    obtain ⟨hinv, hcontent, hoffset⟩ := ih (by omega)
    have hstep : (Machine.final (Client.step args sha) Client.start os).currentOffset
        + o.payload.length < 2 ^ 63 := by omega
    have happend := Client.step_append args sha hinv.running hinv.length o hstep
    rw [Machine.final_append, Machine.trace_append]
    refine ⟨hinv.step o hstep, ?_, ?_⟩
    · rw [List.flatMap_append, ← hcontent]
      simpa using happend.content
    · have := Client.acceptedPayload_le args
        (Machine.final (Client.step args sha) Client.start os) o
      have := happend.offset
      simp only [Machine.final_cons, Machine.final_nil]
      omega

/-- What every entry of a run did. -/
theorem client_trace {os : List Outcome} (hbytes : payloadBytes os < 2 ^ 63) {e : ClientEntry}
    (he : e ∈ Machine.trace (Client.step args sha) Client.start os) :
    e.before.Inv ∧ e.before.Appends args sha e.input (e.after, e.output) := by
  obtain ⟨pre, post, rfl, hbefore⟩ := Machine.exists_split_of_mem_trace he
  have hsplit : payloadBytes (pre ++ e.input :: post)
      = payloadBytes pre + (e.input.payload.length + payloadBytes post) := by
    simp [payloadBytes]
  obtain ⟨hinv, -, hoffset⟩ := client_final args sha pre (by omega)
  rw [← hbefore] at hinv hoffset
  have happend := Client.step_append args sha hinv.running hinv.length e.input
    (by omega)
  rw [(Machine.step_of_mem_trace he).1] at happend
  exact ⟨hinv, happend⟩

/-- Behind a `true` there is an accepted `Done`, and nothing was written since. -/
theorem exists_acceptsDone {os : List Outcome} (hbytes : payloadBytes os < 2 ^ 63)
    (htrue : (Machine.final (Client.step args sha) Client.start os).returned = some true) :
    ∃ e ∈ Machine.trace (Client.step args sha) Client.start os, ∃ m,
      e.before.AcceptsDone args sha e.input m ∧
        (Machine.final (Client.step args sha) Client.start os).out.content
          = e.before.out.content := by
  induction os using List.reverseRecOn with
  | nil => simp [Client.start] at htrue
  | append_singleton os o ih =>
    have hbytes' : payloadBytes os < 2 ^ 63 := by
      rw [payloadBytes_append_singleton] at hbytes
      omega
    have hmem := Machine.last_mem_trace (Client.step args sha) Client.start os o
    have happend := (client_trace hbytes hmem).2
    rw [Machine.final_append, Machine.final_cons, Machine.final_nil] at htrue ⊢
    by_cases hbefore : (Machine.final (Client.step args sha) Client.start os).returned = some true
    · -- nothing happens after the function has returned
      obtain ⟨e, he, m, haccepts, hout⟩ := ih hbytes' hbefore
      refine ⟨e, ?_, m, haccepts, ?_⟩
      · rw [Machine.trace_append]
        exact List.mem_append_left _ he
      · rw [Client.step_returned (by simp [hbefore]), hout]
    · obtain ⟨m, haccepts⟩ := (happend.done htrue).resolve_left hbefore
      refine ⟨_, hmem, m, haccepts, ?_⟩
      rw [happend.content]
      obtain ⟨-, ⟨rx, rfl, hparse⟩, -⟩ := haccepts
      simp [Client.acceptedPayload, hparse]

/-- **The output file, against any peer.** After every sequence of outcomes, with fewer than
`2 ^ 63` bytes of payload in all:

* the file is the accepted payloads, in the order in which they were accepted, and its length is
  `current_offset`; each iteration only appended to it;
* every acknowledgement that was sent is of the length the file had then;
* if `receive_file` has returned true, it accepted a `Done`, the SHA-256 of the file is the expected
  one, and its length is the size the `Done` gave. -/
theorem receive_file_integrity {os : List Outcome} (hbytes : payloadBytes os < 2 ^ 63) :
    let es := Machine.trace (Client.step args sha) Client.start os
    let c := Machine.final (Client.step args sha) Client.start os
    c.out.content = es.flatMap (fun e => e.before.acceptedPayload args e.input) ∧
    c.out.content.length = c.currentOffset ∧
    (∀ e ∈ es, e.after.out.content
      = e.before.out.content ++ e.before.acceptedPayload args e.input) ∧
    (∀ e ∈ es, ∀ g ∈ e.output, ∀ a : Ack, g.bytes = (ControlPacket.ack a).serializeToString →
      a.nextOffset.toNat = e.after.out.content.length) ∧
    (c.returned = some true →
      (∃ e ∈ es, ∃ m, e.before.AcceptsDone args sha e.input m ∧
        m.finalSize.toNat = c.out.content.length) ∧
      Crypto.hexLower (sha.digest c.out.content) = args.expectedHash) := by
  intro es c
  obtain ⟨hinv, hcontent, -⟩ := client_final args sha os hbytes
  refine ⟨hcontent, hinv.length, fun e he => (client_trace hbytes he).2.content,
    fun e he g hg a ha => (client_trace hbytes he).2.acks g hg a ha, fun htrue => ?_⟩
  obtain ⟨e, he, m, haccepts, hout⟩ := exists_acceptsDone hbytes htrue
  refine ⟨⟨e, he, m, haccepts, ?_⟩, ?_⟩
  · rw [hout, haccepts.2.2.2.1, (client_trace hbytes he).1.length]
  · rw [hout]
    exact haccepts.2.2.2.2

/-! ### A sample transfer -/

/-- SHA-256 on the sample file. -/
def sampleDigest (bytes : Bytes) : Vector UInt8 32 :=
  if bytes = sampleFile.bytes then
    #v[110, 52, 11, 156, 255, 179, 122, 152, 156, 165, 68, 230, 187, 120, 10, 44, 120, 144, 29, 63,
      179, 55, 56, 118, 133, 17, 163, 6, 23, 175, 160, 29]
  else Vector.replicate 32 0

/-- The hash function of the samples: its context is what has been hashed so far. -/
def sampleSha : Sha256 where
  Ctx := Bytes
  init := []
  update := fun ctx block => ctx ++ block
  final := sampleDigest
  digest := sampleDigest
  final_foldl := fun blocks => by
    have key : ∀ (blocks : List Bytes) (ctx : Bytes),
        blocks.foldl (fun ctx block => ctx ++ block) ctx = ctx ++ blocks.flatten := by
      intro blocks
      induction blocks with
      | nil => simp
      | cons b blocks ih => intro ctx; simp [ih]
    rw [key, List.nil_append]

/-- The receiver of the sample transfer. -/
def sampleArgs : ReceiveArgs :=
  { peer := sampleSender
    transferId := sampleToken
    expectedHash := Crypto.hexLower (sampleDigest sampleFile.bytes) }

/-- The one chunk of the sample file. -/
def sampleChunk : DataChunk := { transferId := sampleToken, payload := sampleFile.bytes }

/-- The end of the sample file. -/
def sampleDone : Done := { transferId := sampleToken, finalSize := 1 }

/-- The control packet `p` as it is received. -/
def Outcome.ofControl (sender : Endpoint) (p : ControlPacket) : Outcome :=
  .datagram sender (received p.serializeToString)

/-- The chunk and the `Done` of the sample transfer. -/
def sampleOutcomes : List Outcome :=
  [.ofControl sampleArgs.peer (.data sampleChunk), .ofControl sampleArgs.peer (.done sampleDone)]

theorem sampleOutcomes_final :
    Machine.final (Client.step sampleArgs sampleSha) Client.start sampleOutcomes
      = { out := ⟨[0], 1⟩, currentOffset := 1, retries := 0, returned := some true } := by
  have hdata : ControlPacket.parseFromString
      (received (ControlPacket.data sampleChunk).serializeToString) = some (.data sampleChunk) := by
    rw [ControlPacket.parse_received, if_pos (by decide)]
  have hdone : ControlPacket.parseFromString
      (received (ControlPacket.done sampleDone).serializeToString) = some (.done sampleDone) := by
    rw [ControlPacket.parse_received, if_pos (by decide)]
  have hfirst : Client.start.step sampleArgs sampleSha
      (.ofControl sampleArgs.peer (.data sampleChunk))
        = Client.start.handleData sampleArgs sampleChunk :=
    Client.step_data Client.running_start hdata
  have hsecond : ({ out := ⟨[0], 1⟩, currentOffset := 1 } : Client).step sampleArgs sampleSha
      (.ofControl sampleArgs.peer (.done sampleDone))
        = ({ out := ⟨[0], 1⟩, currentOffset := 1 } : Client).handleDone sampleArgs sampleSha
            sampleDone :=
    Client.step_done ⟨rfl, by decide⟩ hdone
  have hwrote : (Client.start.handleData sampleArgs sampleChunk).1
      = { out := ⟨[0], 1⟩, currentOffset := 1 } := rfl
  rw [sampleOutcomes, Machine.final_cons, hfirst, hwrote, Machine.final_cons, hsecond,
    Machine.final_nil]
  rcases Client.handleDone_cases sampleArgs sampleSha
      { out := ⟨[0], 1⟩, currentOffset := 1 } sampleDone with
    ⟨h, -⟩ | ⟨-, -, h, -⟩ | ⟨-, -, -, heq⟩
  · exact absurd h (by decide)
  · exact absurd rfl h
  · rw [heq]

theorem receive_file_integrity_sample :
    (Machine.final (Client.step sampleArgs sampleSha) Client.start sampleOutcomes).returned
        = some true ∧
      Crypto.hexLower (sampleSha.digest
        (Machine.final (Client.step sampleArgs sampleSha) Client.start
          sampleOutcomes).out.content) = sampleArgs.expectedHash := by
  have hreturned : (Machine.final (Client.step sampleArgs sampleSha) Client.start
      sampleOutcomes).returned = some true := by
    rw [sampleOutcomes_final]
  have hbytes : payloadBytes sampleOutcomes < 2 ^ 63 := by decide
  exact ⟨hreturned, ((receive_file_integrity hbytes).2.2.2.2 hreturned).2⟩

end Zapshare
