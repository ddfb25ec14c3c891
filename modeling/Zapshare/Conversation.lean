import Zapshare.Caller
import Zapshare.Progress

/-!
# The whole conversation

The session from its creation by `Server::run` on, and `run_client_session` from its first hello on,
with a network between them that may do anything but forge. Until the session has accepted the
hello, only punches and hellos are on their way. From then on the two are the parties of a transfer,
in which a receiver that still waits for its answer counts as one that has not received anything.

## Scope

There is one receiver, with the token that the sender gave away. It tries a list of addresses, and
what it sends to others than the sender is lost. What strangers send is in `Zapshare.Strangers` and
`Zapshare.ClientStrangers`; here the network only carries what the two have sent. Nobody looks at a
clock: the order of the events says when a side times out. The session finds under the token what
the transfer is registered with.

## Two phases, one refinement

Before the session has accepted the hello, `Calling` says what may be on its way. Behind that a
`Calling` world is the start of a `Pair`, and `Connected` says that it stays one: the refinement
`answered` maps the caller to the `receive_file` inside of it, and a caller that is still in the
handshake to one that has just started. What is proved of a `Pair` holds of a conversation so,
without a second induction over its runs.

## Main definitions

* `Conversation` — the two ends, with the addresses that the receiver tries
* `Conversation.Start` — the state in which both sides are created
* `Conversation.Calling`, `Conversation.Connected` — the two phases
* `Conversation.answered` — the refinement of the second one

## Main results

* `Conversation.Start.phase` — a conversation is before the handshake or in a transfer
* `conversation_safe` — what holds in every state of every run
* `conversation_gets_on` — in every fair run the handshake fails or the output becomes the file
-/

namespace Zapshare

open Wire UdpConfig Network StopAndWait Machine

/-- The two ends of one transfer, and what the receiver starts with. The central server knows the
token, and tells the session what was registered. -/
structure Conversation where
  pair : Pair
  /-- The endpoints the receiver tries. -/
  peers : List Endpoint
  receiverEnv : Env
  token_ne : pair.args.transferId ≠ []
  registered : pair.env.getTransferMetadata pair.args.transferId = some pair.transfer

namespace Conversation

variable (V : Conversation)

/-- The hello of `perform_handshake`, as it is sent. -/
def hello : Bytes :=
  (HandshakePacket.clientHello (clientHello V.receiverEnv V.pair.args.transferId)).serializeToString

/-- The session's answer to it. -/
def answer : Bytes :=
  (HandshakePacket.serverHello (Session.serverHello V.pair.env
    (clientHello V.receiverEnv V.pair.args.transferId))).serializeToString

/-- What the receiver's side of the call needs to know. -/
def callArgs : CallArgs where
  token := V.pair.args.transferId
  peers := V.peers
  hello := V.hello
  expectedHash := V.pair.args.expectedHash

/-- Of what the receiver sends, the session gets what is sent to its address. -/
def toSender (gs : List Datagram) : List Bytes :=
  (gs.filter fun g => g.dest = V.pair.args.peer).map Datagram.bytes

/-- The parties, as they see datagrams. -/
def parties : Parties Session Caller Bytes Bytes where
  server := V.pair.parties.server
  client s datagram :=
    let r := s.step V.callArgs V.pair.sha (.datagram V.pair.args.peer (received datagram))
    (r.1, V.toSender r.2)
  timeout s :=
    let r := s.step V.callArgs V.pair.sha .timeout
    (r.1, V.toSender r.2)

/-- A conversation at its start: both sides have punched their holes, the receiver has said its
first hellos, and waits. -/
structure Start (w : World Session Caller Bytes Bytes) : Prop where
  server : ∃ remote, w.server = Session.fresh remote V.pair.path
  client : w.client = .start
  up : ∀ b ∈ w.up, b = Pair.punch ∨ b = V.hello
  down : ∀ b ∈ w.down, b = Pair.punch

/-- The receiver, as far as the transfer goes. -/
def receiver : Caller → Client
  | .receiving _ c => c
  | .connecting _ => .start
  | .failed => .start

/-- The transfer inside the conversation. -/
def transfer (w : World Session Caller Bytes Bytes) : World Session Client Bytes Bytes :=
  ⟨w.server, receiver w.client, w.up, w.down⟩

/-! ### The two phases -/

/-- The session waits for the hello. -/
structure Calling (w : World Session Caller Bytes Bytes) : Prop where
  state : w.server.mState = .waitingHello
  offset : w.server.mOffset = 0
  path : w.server.mFilePath = V.pair.path
  client : ∀ peer c, w.client ≠ .receiving peer c
  up : ∀ b ∈ w.up, b = Pair.punch ∨ b = V.hello
  down : ∀ b ∈ w.down, b = Pair.punch

/-- The session has accepted the hello, and the transfer is on. -/
structure Connected (w : World Session Caller Bytes Bytes) : Prop where
  holds : V.pair.refinement.Holds (transfer w)
  inv : Inv V.pair.setting (V.pair.refinement.world (transfer w))
  remote : w.server.mRemoteEndpoint = V.pair.receiver
  client : ∀ peer c, w.client = .receiving peer c → peer = V.pair.args.peer

theorem hello_ne_nil : V.hello ≠ [] := HandshakePacket.serialize_clientHello_ne_nil _

variable {V} {w : World Session Caller Bytes Bytes}

theorem Start.calling (h : V.Start w) : V.Calling w := by
  obtain ⟨remote, hserver⟩ := h.server
  refine ⟨by rw [hserver]; rfl, by rw [hserver]; rfl, by rw [hserver]; rfl, fun peer c hc => ?_,
    h.up, h.down⟩
  rw [h.client] at hc
  cases hc

/-! ### The receiver, before it is answered -/

/-- **A receiver that is not in `receive_file`** enters it when it is answered, and asks for the
file then; otherwise it says hello at most. -/
theorem client_cases {s : Caller} (hs : ∀ peer c, s ≠ .receiving peer c) (o : Outcome) :
    (∃ peer, answeredBy V.pair.args.transferId o = some peer ∧
      s.step V.callArgs V.pair.sha o
        = (.receiving peer .start, [⟨peer, (V.callArgs.receiveArgs peer).getBytes⟩])) ∨
    ((∀ peer c, (s.step V.callArgs V.pair.sha o).1 ≠ .receiving peer c) ∧
      ∀ b ∈ V.toSender (s.step V.callArgs V.pair.sha o).2, b = V.hello) := by
  have hhello : ∀ b ∈ V.toSender V.callArgs.sayHello, b = V.hello := by
    intro b hb
    obtain ⟨g, hg, rfl⟩ := List.mem_map.mp hb
    obtain ⟨p, -, rfl⟩ := List.mem_map.mp (List.mem_of_mem_filter hg)
    rfl
  cases s with
  | connecting turns =>
    cases hanswer : answeredBy V.pair.args.transferId o with
    | some peer => exact Or.inl ⟨peer, rfl, Caller.step_answered hanswer⟩
    | none =>
      right
      rcases @Caller.step_unanswered V.callArgs V.pair.sha turns o hanswer with
        ⟨-, heq⟩ | ⟨k, -, heq⟩ <;> rw [heq]
      · exact ⟨by simp, by simp [toSender]⟩
      · exact ⟨by simp, hhello⟩
  | receiving peer c => exact absurd rfl (hs peer c)
  | failed => exact Or.inr ⟨by simp [Caller.step], by simp [Caller.step, toSender]⟩

theorem receiver_eq_start {s : Caller} (hs : ∀ peer c, s ≠ .receiving peer c) :
    receiver s = .start := by
  cases s with
  | connecting turns => rfl
  | receiving peer c => exact absurd rfl (hs peer c)
  | failed => rfl

/-- What the receiver sends before it has got a chunk. -/
theorem request_of_call {b : Bytes} (hb : b = Pair.punch ∨ b = V.hello ∨ b = V.pair.args.getBytes) :
    (∀ a, Pair.request b ≠ .ack a) ∧ Pair.UpOk b := by
  rcases hb with rfl | rfl | rfl
  · exact ⟨fun a => by rw [show Pair.request Pair.punch = .other from rfl]; simp, fun e => by
      rw [show ControlPacket.parseFromString (received Pair.punch) = none from rfl]; simp⟩
  · obtain ⟨hreq | hreq, hok⟩ := Pair.request_clientHello
      (clientHello V.receiverEnv V.pair.args.transferId)
    · exact ⟨fun a => by rw [hello, hreq]; simp, hok⟩
    · exact ⟨fun a => by rw [hello, hreq]; simp, hok⟩
  · refine ⟨fun a => ?_, Pair.upOk_of_not_error (by simp)⟩
    rw [Pair.request_getBytes]
    exact Setting.getReq_ne_ack a

theorem reply_punch : Pair.reply Pair.punch = .other ∧
    ∀ e, ControlPacket.parseFromString (received Pair.punch) ≠ some (.error e) :=
  ⟨rfl, fun e => by
    rw [show ControlPacket.parseFromString (received Pair.punch) = none from rfl]; simp⟩

/-- Nothing is an answer that cannot be read as a `ServerHello`. -/
theorem answeredBy_punch (token : Bytes) (sender : Endpoint) :
    answeredBy token (.datagram sender (received Pair.punch)) = none := by
  have hparse : HandshakePacket.parseFromString (received Pair.punch) = none := by decide
  simp only [answeredBy, hparse]

/-! ### The receiver, in `receive_file` -/

/-- Everything `receive_file` sends goes to its peer. -/
theorem dest_of_mem_step {args : ReceiveArgs} {sha : Sha256} {c : Client} {o : Outcome} :
    ∀ g ∈ (c.step args sha o).2, g.dest = args.peer := by
  have hack (n : ℕ) : ∀ g ∈ args.sendAck n, g.dest = args.peer := by
    intro g hg
    rw [List.mem_singleton.mp hg]
  by_cases hreturned : c.returned = none
  case neg => simp [Client.step_returned hreturned]
  simp only [Client.step, hreturned, ne_eq, not_true_eq_false, if_false]
  cases o with
  | timeout =>
    simp only [Client.iterate]
    split
    · intro g hg
      rw [List.mem_singleton.mp hg]
    · exact hack _
  | datagram sender rx =>
    simp only [Client.iterate]
    split
    · simp
    simp only [Client.handlePacket]
    split
    · rename_i m _
      rcases Client.handleData_cases args { c with retries := 0 } m with
        ⟨-, heq⟩ | ⟨-, -, heq⟩ | ⟨-, -, heq⟩ <;> rw [heq]
      · simp
      · exact hack _
      · exact hack _
    · rename_i m _
      rcases Client.handleDone_cases args sha { c with retries := 0 } m with
        ⟨-, heq⟩ | ⟨-, -, -, heq⟩ | ⟨-, -, -, heq⟩ <;> rw [heq]
      · simp
      · simp
      · exact hack _
    · simp
    · simp

theorem toSender_step (c : Client) (o : Outcome) :
    V.toSender (c.step V.pair.args V.pair.sha o).2
      = (c.step V.pair.args V.pair.sha o).2.map Datagram.bytes := by
  rw [toSender, List.filter_eq_self.mpr fun g hg => by simp [dest_of_mem_step g hg]]

/-- **From the answer on the conversation is the transfer.** -/
def answered (V : Conversation) : Refinement V.parties V.pair.parties where
  server := id
  client := receiver
  up := id
  down := id
  Server _ := True
  Client s := ∃ c, s = .receiving V.pair.args.peer c
  Up _ := True
  Down _ := True
  server_spec s b _ _ := ⟨trivial, fun _ _ => trivial, by simp [parties]⟩
  client_spec := by
    rintro _ b ⟨c, rfl⟩ -
    refine ⟨⟨_, rfl⟩, fun _ _ => trivial, ?_⟩
    rw [List.map_id]
    exact congrArg (Prod.mk _) (toSender_step c _).symm
  timeout_spec := by
    rintro _ ⟨c, rfl⟩
    refine ⟨⟨_, rfl⟩, fun _ _ => trivial, ?_⟩
    rw [List.map_id]
    exact congrArg (Prod.mk _) (toSender_step c _).symm

theorem answered_holds {c : Client} (h : w.client = .receiving V.pair.args.peer c) :
    V.answered.Holds w :=
  ⟨trivial, ⟨c, h⟩, fun _ _ => trivial, fun _ _ => trivial⟩

theorem answered_world (w : World Session Caller Bytes Bytes) :
    V.answered.world w = transfer w := by
  rw [Refinement.world, transfer]
  exact congrArg₂ (World.mk _ _) (List.map_id _) (List.map_id _)

/-- Every event does to a conversation that was answered what it does to the transfer. -/
theorem answered_pool {c : Client} (h : w.client = .receiving V.pair.args.peer c) (e : PoolEvent) :
    V.pair.parties.pool (transfer w) e
        = (transfer (V.parties.pool w e).1, (V.parties.pool w e).2) ∧
      ∃ c', (V.parties.pool w e).1.client = .receiving V.pair.args.peer c' := by
  obtain ⟨hnext, heq⟩ := V.answered.pool w e (answered_holds h)
  rw [answered_world, answered_world] at heq
  exact ⟨heq.trans (congrArg (Prod.mk _) (List.map_id _)), hnext.client⟩

/-! ### One event, once the session has accepted the hello -/

/-- The session keeps its peer. -/
theorem remote_serve {s : Session} (h : V.pair.SessionOk s) (b : Bytes) :
    (V.pair.parties.server s b).1.mRemoteEndpoint = s.mRemoteEndpoint := by
  simp only [Pair.parties, Session.receive]
  split
  · rfl
  change (s.step ⟨V.pair.env, received b, V.pair.receiver⟩).1.mRemoteEndpoint = _
  rcases h.state with ⟨hstate, hoffset⟩ | ⟨hstate, hlock⟩ | ⟨hstate, -, -⟩
  · rcases Session.step_authenticated hstate hoffset ⟨V.pair.env, received b, V.pair.receiver⟩ with
      ⟨-, heq⟩ | ⟨e, -, heq⟩ | ⟨get, m, -, -, heq⟩ | ⟨get, file, F, -, -, -, heq⟩ <;> rw [heq]
    rfl
  · rcases Session.step_transferring hstate hlock V.pair.file.length_lt
        ⟨V.pair.env, received b, V.pair.receiver⟩ with
      ⟨-, heq⟩ | ⟨-, heq⟩ | ⟨ack, file, -, -, -, -, heq⟩ | ⟨-, heq⟩ <;> rw [heq]
    rfl
  · rw [Session.step_closed hstate]

/-- The receiver moves, and the transfer does not notice. -/
theorem Connected.call (h : V.Connected w) {s : Caller}
    (hs : ∀ peer c, w.client ≠ .receiving peer c) (hstart : receiver s = .start)
    (hpeer : ∀ peer c, s = .receiving peer c → peer = V.pair.args.peer)
    {bs : List Bytes} (hbs : ∀ b ∈ bs, b = V.hello ∨ b = V.pair.args.getBytes) :
    V.Connected { w with client := s, up := w.up ++ bs } := by
  have hsame : receiver s = receiver w.client := hstart.trans (receiver_eq_start hs).symm
  have hreq : ∀ b ∈ bs, (∀ a, Pair.request b ≠ .ack a) ∧ Pair.UpOk b := fun b hb =>
    request_of_call (Or.inr (hbs b hb))
  refine ⟨⟨h.holds.server, ?_, fun b hb => ?_, h.holds.down⟩, ?_, h.remote, hpeer⟩
  · show V.pair.ClientOk (receiver s)
    rw [hsame]
    exact h.holds.client
  · rcases List.mem_append.mp hb with hb | hb
    · exact h.holds.up b hb
    · exact (hreq b hb).2
  · have hworld : V.pair.refinement.world (transfer { w with client := s, up := w.up ++ bs })
        = { V.pair.refinement.world (transfer w) with
            client := Pair.receiverOf (receiver s)
            up := (V.pair.refinement.world (transfer w)).up ++ bs.map Pair.request } := by
      simp only [Refinement.world, transfer, List.map_append]
      rfl
    rw [hworld, hsame]
    refine h.inv.stay rfl Or.inl id fun a ha => ?_
    obtain ⟨b, hb, hack⟩ := List.mem_map.mp ha
    exact absurd hack ((hreq b hb).1 a)

/-- A receiver that is not in `receive_file` gets something, or gets nothing in time. -/
theorem Connected.outcome (h : V.Connected w) (hs : ∀ peer c, w.client ≠ .receiving peer c)
    {o : Outcome} (ho : ∀ peer, answeredBy V.pair.args.transferId o = some peer →
      peer = V.pair.args.peer) :
    let r := w.client.step V.callArgs V.pair.sha o
    V.Connected { w with client := r.1, up := w.up ++ V.toSender r.2 } := by
  intro r
  rcases client_cases hs o with ⟨peer, hanswer, heq⟩ | ⟨hout, hbytes⟩
  · obtain rfl := ho peer hanswer
    simp only [r, heq]
    refine h.call hs rfl (fun peer c hc => (Caller.receiving.inj hc).1.symm) fun b hb => Or.inr ?_
    obtain ⟨g, hg, rfl⟩ := List.mem_map.mp hb
    obtain rfl := List.mem_singleton.mp (List.mem_of_mem_filter hg)
    rfl
  · exact h.call hs (receiver_eq_start hout) (fun peer c hc => absurd hc (hout peer c))
      fun b hb => Or.inl (hbytes b hb)

/-- An event of the transfer. -/
theorem Connected.event (h : V.Connected w) {w' : World Session Caller Bytes Bytes} {e : PoolEvent}
    (hw' : (V.pair.parties.pool (transfer w) e).1 = transfer w')
    (hclient : ∀ peer c, w'.client = .receiving peer c → peer = V.pair.args.peer) :
    V.Connected w' := by
  have hpool := V.pair.refinement.pool (transfer w) e h.holds
  have hnext := h.inv.step e
  rw [congrArg Prod.fst hpool.2] at hnext
  simp only [hw'] at hpool hnext
  refine ⟨hpool.1, hnext, ?_, hclient⟩
  rw [← h.remote]
  have hserver : w'.server = (V.pair.parties.pool (transfer w) e).1.server := by rw [hw']; rfl
  rw [hserver]
  rcases pool_cases V.pair.parties (transfer w) e with
    heq | ⟨m, -, heq⟩ | ⟨x, -, heq⟩ | ⟨-, heq⟩ <;> rw [heq]
  · rfl
  · exact remote_serve h.holds.server m
  · rfl
  · rfl

/-- **Once the session has accepted the hello, it is in a transfer.** -/
theorem Connected.step (h : V.Connected w) (e : PoolEvent) :
    V.Connected (V.parties.pool w e).1 := by
  rcases w.client.receiving_or with ⟨peer, c, hc⟩ | hs
  · obtain rfl := h.client peer c hc
    obtain ⟨heq, c', hc'⟩ := answered_pool hc e
    refine h.event (congrArg Prod.fst heq) fun peer' c'' hc'' => ?_
    exact (Caller.receiving.inj (hc'.symm.trans hc'')).1.symm
  · rcases pool_cases V.parties w e with heq | ⟨m, hm, heq⟩ | ⟨x, hx, heq⟩ | ⟨-, heq⟩
    · rw [heq]
      exact h
    · obtain ⟨i, hi⟩ := List.mem_iff_getElem?.mp hm
      rw [heq]
      refine h.event (e := .up i) ?_ h.client
      rw [pool_of_up (w := transfer w) hi]
      rfl
    · rw [heq]
      exact h.outcome hs fun peer hanswer => Caller.answeredBy_datagram hanswer
    · rw [heq]
      exact h.outcome hs fun peer hanswer => by cases hanswer

/-! ### One event, before the session has accepted the hello -/

/-- What cannot be read does not reach the session. -/
theorem receive_unreadable {s : Session} (hstate : s.mState = .waitingHello) {b : Bytes}
    (hne : b ≠ []) (hparse : HandshakePacket.parseFromString (received b) = none) :
    V.pair.parties.server s b = ({ s with mRemoteEndpoint := V.pair.receiver }, []) := by
  simp only [Pair.parties, s.receive_eq_step V.pair.env hne V.pair.receiver, Session.step,
    Session.handlePacket, hstate, Session.handleHandshakePacket, hparse, List.map_nil]

/-- The hello, when it can be read. -/
theorem receive_hello {s : Session} (hstate : s.mState = .waitingHello)
    (hdeliver : (clientHello V.receiverEnv V.pair.args.transferId).deliverable = true) :
    V.pair.parties.server s V.hello
      = ({ s with
          mRemoteEndpoint := V.pair.receiver
          mTransferMetadata := V.pair.transfer
          mState := .authenticated },
        [V.answer]) := by
  have hparse := parse_received_clientHello (clientHello V.receiverEnv V.pair.args.transferId)
  rw [if_pos hdeliver] at hparse
  have hstep := Session.step_hello (d := ⟨V.pair.env, received V.hello, V.pair.receiver⟩) hstate
    hparse rfl V.token_ne V.registered
  simp only [Pair.parties, s.receive_eq_step V.pair.env V.hello_ne_nil V.pair.receiver, hstep]
  rfl

/-- The start of the transfer, when the session has just accepted the hello. -/
theorem Calling.connected (h : V.Calling w) :
    V.Connected { w with
      server := { w.server with
        mRemoteEndpoint := V.pair.receiver
        mTransferMetadata := V.pair.transfer
        mState := .authenticated }
      down := w.down ++ [V.answer] } := by
  have hclient : receiver w.client = .start := receiver_eq_start h.client
  have hup : ∀ b ∈ w.up, (∀ a, Pair.request b ≠ .ack a) ∧ Pair.UpOk b := fun b hb =>
    request_of_call ((h.up b hb).imp_right Or.inl)
  have hdown : ∀ b ∈ w.down ++ [V.answer], Pair.reply b = .other ∧
      ∀ e, ControlPacket.parseFromString (received b) ≠ some (.error e) := by
    intro b hb
    rcases List.mem_append.mp hb with hb | hb
    · rw [h.down b hb]
      exact reply_punch
    · rw [List.mem_singleton.mp hb]
      exact Pair.reply_serverHello _
  refine ⟨⟨⟨h.path, rfl, Or.inl ⟨rfl, h.offset⟩⟩, ?_, fun b hb => (hup b hb).2,
    fun b hb => Or.inr (hdown b hb)⟩, Initial.inv ⟨rfl, ?_, fun a ha => ?_, fun o ho => ?_,
    fun hd => ?_⟩, rfl, fun peer c hc => absurd hc (h.client peer c)⟩
  · show V.pair.ClientOk (receiver w.client)
    rw [hclient]
    exact ⟨fun _ => Client.running_start, Nat.zero_le _, rfl⟩
  · show Pair.receiverOf (receiver w.client) = {}
    rw [hclient]
    rfl
  · obtain ⟨b, hb, hreq⟩ := List.mem_map.mp ha
    exact (hup b hb).1 a hreq
  · obtain ⟨b, hb, hreply⟩ := List.mem_map.mp ho
    exact absurd ((hdown b hb).1.symm.trans hreply) (by simp)
  · obtain ⟨b, hb, hreply⟩ := List.mem_map.mp hd
    exact absurd ((hdown b hb).1.symm.trans hreply) (by simp)

/-- A datagram that is on its way to a session that waits for the hello. -/
theorem Calling.serve (h : V.Calling w) {b : Bytes} (hb : b ∈ w.up) :
    V.Calling (V.parties.serve w b w.up).1 ∨ V.Connected (V.parties.serve w b w.up).1 := by
  have hstay (hne : b ≠ []) (hparse : HandshakePacket.parseFromString (received b) = none) :
      V.Calling (V.parties.serve w b w.up).1 := by
    simp only [Parties.serve, parties, receive_unreadable h.state hne hparse, List.append_nil]
    exact ⟨h.state, h.offset, h.path, h.client, h.up, h.down⟩
  rcases h.up b hb with rfl | rfl
  · exact Or.inl (hstay (by decide) (by decide))
  · cases hdeliver : (clientHello V.receiverEnv V.pair.args.transferId).deliverable with
    | true =>
      right
      simp only [Parties.serve, parties, receive_hello h.state hdeliver]
      exact h.connected
    | false =>
      refine Or.inl (hstay V.hello_ne_nil ?_)
      rw [hello, parse_received_clientHello, hdeliver]
      rfl

/-- The receiver gets something that is no answer, or gets nothing in time. -/
theorem Calling.outcome (h : V.Calling w) {o : Outcome}
    (ho : answeredBy V.pair.args.transferId o = none) :
    let r := w.client.step V.callArgs V.pair.sha o
    V.Calling { w with client := r.1, up := w.up ++ V.toSender r.2 } := by
  intro r
  rcases client_cases h.client o with ⟨peer, hanswer, -⟩ | ⟨hout, hbytes⟩
  · rw [ho] at hanswer
    cases hanswer
  · refine ⟨h.state, h.offset, h.path, hout, fun b hb => ?_, h.down⟩
    rcases List.mem_append.mp hb with hb | hb
    · exact h.up b hb
    · exact Or.inr (hbytes b hb)

theorem Calling.step (h : V.Calling w) (e : PoolEvent) :
    V.Calling (V.parties.pool w e).1 ∨ V.Connected (V.parties.pool w e).1 := by
  rcases pool_cases V.parties w e with heq | ⟨b, hb, heq⟩ | ⟨b, hb, heq⟩ | ⟨-, heq⟩ <;> rw [heq]
  · exact Or.inl h
  · exact h.serve hb
  · obtain rfl := h.down b hb
    exact Or.inl (h.outcome (answeredBy_punch _ _))
  · exact Or.inl (h.outcome rfl)

/-- **A conversation is before the handshake or in a transfer**, in every state of every run. -/
theorem Start.phase (h : V.Start w) (es : List PoolEvent) :
    V.Calling (final V.parties.pool w es) ∨ V.Connected (final V.parties.pool w es) := by
  refine final_invariant (P := fun w => V.Calling w ∨ V.Connected w) (Q := fun _ => True)
    (fun w e hw _ => ?_) (Or.inl h.calling) fun _ _ => trivial
  exact hw.elim (fun hw => hw.step e) fun hw => Or.inr (hw.step e)

/-! ### What is known of a transfer -/

theorem Connected.not_waiting (h : V.Connected w) : w.server.mState ≠ .waitingHello := by
  have hsession : V.pair.SessionOk w.server := h.holds.server
  intro hwait
  rcases hsession.state with ⟨hs, -⟩ | ⟨hs, -⟩ | ⟨hs, -⟩ <;> rw [hwait] at hs <;> cases hs

/-- What is known when the receiver is in `receive_file`. -/
theorem Connected.receiving (h : V.Connected w) {peer : Endpoint} {c : Client}
    (hc : w.client = .receiving peer c) :
    V.pair.ClientOk c ∧ w.server.mOffset ≤ c.currentOffset ∧
      c.currentOffset ≤ w.server.mOffset + w.server.mLastChunkSize ∧
      (c.returned = some true → c.currentOffset = V.pair.file.bytes.length) := by
  have hreceiver : (transfer w).client = c := by rw [transfer, hc]; rfl
  have hclient : V.pair.ClientOk (transfer w).client := h.holds.client
  obtain ⟨hlow, hhigh⟩ := Pair.offsets h.holds h.inv
  have hreturned := @Pair.offset_of_returned V.pair _ h.inv
  rw [hreceiver] at hclient hlow hhigh hreturned
  exact ⟨hclient, hlow, hhigh, hreturned⟩

/-- A session that is closed has been told of the whole file. -/
theorem Connected.exists_whole (h : V.Connected w) (hclosed : w.server.mState = .closed) :
    ∃ c, w.client = .receiving V.pair.args.peer c ∧ c.out.content = V.pair.file.bytes := by
  have hserver : Pair.sender (transfer w).server = .closed := Pair.sender_closed hclosed
  have hend : (receiver w.client).currentOffset = V.pair.file.bytes.length := h.inv.closed hserver
  rcases w.client.receiving_or with ⟨peer, c, hc⟩ | hs
  · obtain rfl := h.client peer c hc
    rw [hc] at hend
    exact ⟨c, hc, (h.receiving hc).1.whole hend⟩
  · -- the file is empty then, and of an empty file a closed session has been told by `receive_file`
    rw [receiver_eq_start hs] at hend
    have hreturned : (receiver w.client).returned = some true := h.inv.empty hend.symm hserver
    rw [receiver_eq_start hs] at hreturned
    cases hreturned

end Conversation

/-- **The conversation is safe**, whatever the network loses, delays, reorders and duplicates. A
session past its hello serves the transfer that was registered to the receiver. A receiver past the
handshake talks to this session; its output is a prefix of the file, the two offsets are within one
chunk of each other, and the output is the file when `receive_file` has returned true. The session
is only closed when the receiver has the file. -/
theorem conversation_safe (V : Conversation) {w : World Session Caller Bytes Bytes}
    (hstart : V.Start w) (es : List PoolEvent) :
    let w' := final V.parties.pool w es
    (w'.server.mState ≠ .waitingHello → w'.server.mRemoteEndpoint = V.pair.receiver ∧
        w'.server.mTransferMetadata = V.pair.transfer) ∧
      (∀ peer c, w'.client = .receiving peer c → peer = V.pair.args.peer ∧
        w'.server.mState ≠ .waitingHello ∧
        c.out.content = V.pair.file.bytes.take c.currentOffset ∧
        w'.server.mOffset ≤ c.currentOffset ∧
        c.currentOffset ≤ w'.server.mOffset + w'.server.mLastChunkSize ∧
        (c.returned = some true → c.out.content = V.pair.file.bytes)) ∧
      (w'.server.mState = .closed → ∃ c, w'.client = .receiving V.pair.args.peer c ∧
        c.out.content = V.pair.file.bytes) := by
  intro w'
  rcases hstart.phase es with hcalling | hconnected
  · have hwait : w'.server.mState = .waitingHello := hcalling.state
    refine ⟨fun hs => absurd hwait hs, fun peer c hc => absurd hc (hcalling.client peer c),
      fun hs => ?_⟩
    rw [hwait] at hs
    cases hs
  have hsession : V.pair.SessionOk w'.server := hconnected.holds.server
  refine ⟨fun _ => ⟨hconnected.remote, hsession.metadata⟩, fun peer c hc => ?_,
    hconnected.exists_whole⟩
  obtain ⟨hclient, hlow, hhigh, hreturned⟩ := hconnected.receiving hc
  exact ⟨hconnected.client peer c hc, hconnected.not_waiting, hclient.out, hlow, hhigh,
    fun hr => hclient.whole (hreturned hr)⟩

/-! ### Every conversation gets somewhere -/

namespace Conversation

variable {V : Conversation} {w : World Session Caller Bytes Bytes} {es : ℕ → PoolEvent}

/-- An event is an outcome for the receiver, or it does not concern it. -/
theorem client_pool (V : Conversation) (w : World Session Caller Bytes Bytes) (e : PoolEvent) :
    (V.parties.pool w e).1.client = w.client ∧ e ≠ .timeout ∨
      ∃ o, (V.parties.pool w e).1.client = (w.client.step V.callArgs V.pair.sha o).1 := by
  cases e with
  | up i => cases hm : w.up[i]? <;> exact Or.inl (by simp [Parties.pool, Parties.serve, hm])
  | down i =>
    cases hx : w.down[i]? with
    | none => exact Or.inl (by simp [Parties.pool, hx])
    | some x => exact Or.inr ⟨_, by rw [pool_of_down hx]; rfl⟩
  | timeout => exact Or.inr ⟨.timeout, rfl⟩

/-- A receiver that has failed has failed. -/
theorem failed_stays {N : ℕ} (h : (V.parties.worldAt w es N).client = .failed) {n : ℕ}
    (hn : N ≤ n) : (V.parties.worldAt w es n).client = .failed := by
  induction n, hn using Nat.le_induction with
  | base => exact h
  | succ n _ ih =>
    rw [worldAt_succ]
    rcases V.client_pool (V.parties.worldAt w es n) (es n) with ⟨heq, -⟩ | ⟨o, heq⟩ <;>
      rw [heq, ih]
    rfl

/-- The turns of the loop that are left. -/
def turnsLeft : Caller → ℕ
  | .connecting turns => turns + 1
  | _ => 0

theorem turnsLeft_step (V : Conversation) (s : Caller) (o : Outcome) :
    turnsLeft (s.step V.callArgs V.pair.sha o).1 ≤ turnsLeft s - 1 := by
  cases s with
  | connecting turns =>
    cases hanswer : answeredBy V.callArgs.token o with
    | some peer =>
      rw [Caller.step_answered hanswer]
      exact Nat.zero_le _
    | none =>
      rcases @Caller.step_unanswered V.callArgs V.pair.sha turns o hanswer with
        ⟨-, heq⟩ | ⟨k, rfl, heq⟩ <;> rw [heq]
      · exact Nat.zero_le _
      · exact Nat.le_refl _
  | receiving peer c => exact Nat.zero_le _
  | failed => exact Nat.zero_le _

theorem turnsLeft_pool (V : Conversation) (w : World Session Caller Bytes Bytes) (e : PoolEvent) :
    turnsLeft (V.parties.pool w e).1.client ≤ turnsLeft w.client ∧
      (e = .timeout → turnsLeft (V.parties.pool w e).1.client ≤ turnsLeft w.client - 1) := by
  rcases V.client_pool w e with ⟨heq, he⟩ | ⟨o, heq⟩ <;> rw [heq]
  · exact ⟨Nat.le_refl _, fun h => absurd h he⟩
  · have hstep := V.turnsLeft_step w.client o
    exact ⟨by omega, fun _ => hstep⟩

/-- **The loop of `perform_handshake` comes to its end**, since every timeout takes a turn. -/
theorem exists_decided (hfair : Fair V.parties w es) :
    ∃ n, turnsLeft (V.parties.worldAt w es n).client = 0 := by
  refine exists_zero fun n hn => ?_
  have hmono {m : ℕ} (hm : n ≤ m) : turnsLeft (V.parties.worldAt w es m).client
      ≤ turnsLeft (V.parties.worldAt w es n).client := by
    induction m, hm using Nat.le_induction with
    | base => exact Nat.le_refl _
    | succ m _ ih =>
      rw [worldAt_succ]
      exact Nat.le_trans (V.turnsLeft_pool _ _).1 ih
  obtain ⟨m, hm, he⟩ := hfair.timeout n
  refine ⟨m + 1, ?_⟩
  have hdown := (V.turnsLeft_pool (V.parties.worldAt w es m) (es m)).2 he
  have hle := hmono hm
  rw [worldAt_succ]
  omega

/-- A receiver that is in `receive_file` has entered it. -/
theorem Start.exists_entered (h : V.Start w) {n : ℕ} {peer : Endpoint} {c : Client}
    (hn : (V.parties.worldAt w es n).client = .receiving peer c) :
    ∃ N ≤ n, (V.parties.worldAt w es N).client = .receiving peer .start := by
  induction n generalizing c with
  | zero =>
    rw [worldAt_zero, h.client] at hn
    cases hn
  | succ n ih =>
    rw [worldAt_succ] at hn
    rcases (V.parties.worldAt w es n).client.receiving_or with ⟨peer', c', hc'⟩ | hs
    · have hpeer : peer' = peer := by
        rcases V.client_pool (V.parties.worldAt w es n) (es n) with ⟨heq, -⟩ | ⟨o, heq⟩ <;>
          rw [heq, hc'] at hn
        · exact (Caller.receiving.inj hn).1
        · exact (Caller.receiving.inj hn).1
      obtain ⟨N, hN, hentered⟩ := ih (hpeer ▸ hc')
      exact ⟨N, Nat.le_succ_of_le hN, hentered⟩
    · refine ⟨n + 1, Nat.le_refl _, ?_⟩
      rw [worldAt_succ]
      rcases V.client_pool (V.parties.worldAt w es n) (es n) with ⟨heq, -⟩ | ⟨o, heq⟩
      · exact absurd (heq.symm.trans hn) (hs peer c)
      · rw [heq] at hn ⊢
        rcases client_cases hs o with ⟨peer', -, hstep⟩ | ⟨hout, -⟩
        · rw [hstep] at hn ⊢
          rw [(Caller.receiving.inj hn).1]
        · exact absurd hn (hout peer c)

/-- The event hands the session an `Ack` of the whole file, and the receiver has not accepted
`Done`. -/
def finalAck (V : Conversation) (w : World Session Caller Bytes Bytes) (e : PoolEvent) : Bool :=
  V.pair.finalAck (transfer w) e

/-- **A receiver that has entered `receive_file`** gets on as in any transfer. -/
theorem Connected.gets_on {N : ℕ} (h : V.Connected (V.parties.worldAt w es N))
    (hid : ShortId V.pair.args.transferId)
    (hentered : (V.parties.worldAt w es N).client = .receiving V.pair.args.peer .start)
    (hfair : Fair V.parties w es) (hpatient : Patient V.parties w es maxRetries) :
    (∃ N, ∀ n, N ≤ n → ∃ c, (V.parties.worldAt w es n).client = .receiving V.pair.args.peer c ∧
        c.out.content = V.pair.file.bytes) ∧
      (V.pair.args.expectedHash = Crypto.hexLower (V.pair.sha.digest V.pair.file.bytes) →
        V.pair.transfer.fileHash = V.pair.args.expectedHash →
        V.pair.file.bytes = [] ∨
          (∀ n, count V.parties.pool V.finalAck w ((List.range n).map es) ≤ 1) →
        ∃ n c, (V.parties.worldAt w es n).client = .receiving V.pair.args.peer c ∧
          c.returned = some true) := by
  have hholds := answered_holds hentered
  have hfair' := (V.answered.fair_iff hholds).mpr ((fair_shift_iff N).mpr hfair)
  have hpatient' := (V.answered.patient_iff hholds).mpr (hpatient.shift N)
  -- the run of the transfer, as the conversation sees it
  have hview (n : ℕ) : ∃ c,
      (V.parties.worldAt w es (N + n)).client = .receiving V.pair.args.peer c ∧
      (V.pair.parties.worldAt (transfer (V.parties.worldAt w es N))
        (fun k => es (N + k)) n).client = c := by
    obtain ⟨hnext, heq⟩ := V.answered.worldAt hholds (fun k => es (N + k)) n
    obtain ⟨c, hc⟩ := hnext.client
    rw [answered_world, answered_world, ← worldAt_add] at heq
    rw [← worldAt_add] at hc
    refine ⟨c, hc, ?_⟩
    rw [heq, transfer, hc]
    rfl
  rw [answered_world] at hfair' hpatient'
  have hfresh : Fresh (V.pair.refinement.world (transfer (V.parties.worldAt w es N))).client := by
    show Fresh (Pair.receiverOf (receiver (V.parties.worldAt w es N).client))
    rw [hentered]
    exact ⟨rfl, rfl⟩
  obtain ⟨⟨M, hM⟩, hdone⟩ := Pair.gets_on hid h.holds h.inv hfresh hfair' hpatient'
  constructor
  · refine ⟨N + M, fun n hn => ?_⟩
    obtain ⟨k, rfl⟩ : ∃ k, n = N + k := ⟨n - N, by omega⟩
    obtain ⟨c, hc, rfl⟩ := hview k
    exact ⟨_, hc, hM k (by omega)⟩
  · intro hhash hregistered honce
    have hcount (n : ℕ) : count V.pair.parties.pool V.pair.finalAck
        (transfer (V.parties.worldAt w es N)) ((List.range n).map fun k => es (N + k))
          ≤ count V.parties.pool V.finalAck w ((List.range (N + n)).map es) := by
      have hack (w : World Session Caller Bytes Bytes) (e : PoolEvent) :
          V.pair.finalAck (V.answered.world w) e = V.finalAck w e := by
        rw [answered_world, finalAck]
      have hsame := V.answered.pool.count hholds (fun w e _ => hack w e)
        ((List.range n).map fun k => es (N + k))
      rw [answered_world] at hsame
      rw [count_range_add, hsame]
      exact Nat.le_add_left _ _
    obtain ⟨n, hn⟩ := hdone hhash hregistered
      (honce.imp_right fun honce n => Nat.le_trans (hcount n) (honce (N + n)))
    obtain ⟨c, hc, rfl⟩ := hview n
    exact ⟨_, _, hc, hn⟩

end Conversation

/-- **Every conversation about a short id gets somewhere.** In every fair run in which there are
never `MAX_RETRIES` timeouts without an arrival in between, the handshake fails, or the output of
`receive_file` becomes the file. In the second case, if the hash that was registered is that of the
file, and the file is empty or at most one `Ack` of the whole file is handed to the session before
`Done` is accepted, `receive_file` returns true. -/
theorem conversation_gets_on (V : Conversation) (hid : ShortId V.pair.args.transferId)
    {w : World Session Caller Bytes Bytes} (hstart : V.Start w) {es : ℕ → PoolEvent}
    (hfair : Fair V.parties w es) (hpatient : Patient V.parties w es maxRetries) :
    (∃ N, ∀ n, N ≤ n → (V.parties.worldAt w es n).client = .failed) ∨
      (∃ N, ∀ n, N ≤ n → ∃ c, (V.parties.worldAt w es n).client = .receiving V.pair.args.peer c ∧
        c.out.content = V.pair.file.bytes) ∧
      (V.pair.args.expectedHash = Crypto.hexLower (V.pair.sha.digest V.pair.file.bytes) →
        V.pair.transfer.fileHash = V.pair.args.expectedHash →
        V.pair.file.bytes = [] ∨
          (∀ n, count V.parties.pool V.finalAck w ((List.range n).map es) ≤ 1) →
        ∃ n c, (V.parties.worldAt w es n).client = .receiving V.pair.args.peer c ∧
          c.returned = some true) := by
  obtain ⟨n, hn⟩ := Conversation.exists_decided hfair
  cases hc : (V.parties.worldAt w es n).client with
  | connecting turns =>
    rw [hc] at hn
    cases hn
  | failed => exact Or.inl ⟨n, fun m hm => Conversation.failed_stays hc hm⟩
  | receiving peer c =>
    right
    obtain ⟨N, -, hentered⟩ := hstart.exists_entered hc
    rcases hstart.phase ((List.range N).map es) with hcalling | hconnected
    · exact absurd hentered (hcalling.client peer .start)
    · obtain rfl := hconnected.client peer .start hentered
      exact hconnected.gets_on hid hentered hfair hpatient

/-! ### A sample conversation -/

/-- The sample transfer, from the first hello on. -/
def sampleConversation : Conversation where
  pair :=
    { registeredPair with
      env :=
        { sampleEnv (some sampleFile) with getTransferMetadata := fun _ => some registeredTransfer }
      found := rfl }
  peers := [sampleSender]
  receiverEnv := sampleEnv none
  token_ne := by decide
  registered := rfl

/-- The sample conversation at its start: the hello is on its way. -/
def sampleCall : World Session Caller Bytes Bytes :=
  ⟨sampleFresh, .start, [sampleConversation.hello], []⟩

theorem sampleCall_start : sampleConversation.Start sampleCall where
  server := ⟨samplePeer, rfl⟩
  client := rfl
  up _ hb := Or.inr (List.mem_singleton.mp hb)
  down _ hb := absurd hb List.not_mem_nil

/-- The hello and its answer arrive, then everything else does, and then the end does now and
then. -/
def sampleCallEvents : ℕ → PoolEvent
  | 0 => .up 0
  | 1 => .down 0
  | 2 => .up 1
  | 3 => .down 1
  | 4 => .up 2
  | 5 => .down 2
  | n + 6 => if n % 2 = 0 then .timeout else .down 1

/-- The conversation after the answer. -/
def sampleAnswered : World Session Caller Bytes Bytes :=
  ⟨registeredWorld.server, .receiving sampleSender .start,
    [sampleConversation.hello, sampleArgs.getBytes], [sampleConversation.answer]⟩

theorem sampleCall_hello : (sampleConversation.parties.pool sampleCall (.up 0)).1
    = { sampleCall with
        server := registeredWorld.server
        down := [sampleConversation.answer] } := by
  have hserve : sampleConversation.parties.server sampleCall.server sampleConversation.hello
      = (registeredWorld.server, [sampleConversation.answer]) :=
    Conversation.receive_hello rfl (by decide)
  rw [pool_of_up (m := sampleConversation.hello) rfl, Parties.serve, hserve]
  rfl

/-- The conversation after the answer. -/
theorem worldAt_two :
    sampleConversation.parties.worldAt sampleCall sampleCallEvents 2 = sampleAnswered := by
  have hanswer : answeredBy sampleToken
      (.datagram sampleSender (received sampleConversation.answer)) = some sampleSender := by
    decide
  have hclient : sampleConversation.parties.client .start sampleConversation.answer
      = (.receiving sampleSender .start, [sampleArgs.getBytes]) :=
    congrArg (fun r => (r.1, sampleConversation.toSender r.2)) (Caller.step_answered hanswer)
  rw [worldAt_succ, worldAt_succ, worldAt_zero, sampleCallEvents, sampleCall_hello,
    sampleCallEvents, pool_of_down (x := sampleConversation.answer) rfl, Parties.receive]
  simp only [sampleCall, hclient]
  rfl

/-- From there on the run is that of a transfer. -/
theorem sampleAnswered_holds : sampleConversation.answered.Holds sampleAnswered :=
  Conversation.answered_holds rfl

theorem sampleAnswered_connected : sampleConversation.Connected sampleAnswered := by
  have hphase := sampleCall_start.phase ((List.range 2).map sampleCallEvents)
  have hworld : final sampleConversation.parties.pool sampleCall
      ((List.range 2).map sampleCallEvents) = sampleAnswered := worldAt_two
  rw [hworld] at hphase
  refine hphase.resolve_left fun hcalling => ?_
  exact hcalling.client sampleSender .start rfl

/-- The offsets of that transfer. -/
def sampleOffsets : Transfer := ⟨.idle, {}, [.get, .get], [.other]⟩

theorem world_answered : sampleConversation.pair.refinement.world
    (Conversation.transfer sampleAnswered) = sampleOffsets := by
  have hget : Pair.request sampleArgs.getBytes = .get :=
    (@Pair.request_getBytes sampleConversation.pair).trans (if_pos (by decide))
  have hhello : Pair.request sampleConversation.hello = .get := by decide
  have hanswer : Pair.reply sampleConversation.answer = .other := (Pair.reply_serverHello _).1
  show (⟨_, _, [Pair.request sampleConversation.hello, Pair.request sampleArgs.getBytes],
    [Pair.reply sampleConversation.answer]⟩ : Transfer) = _
  rw [hget, hhello, hanswer]
  rfl

/-- What the run looks like when everything has arrived. -/
theorem worldAt_offsets (n : ℕ) :
    sampleConversation.pair.setting.parties.worldAt sampleOffsets
        (fun k => sampleCallEvents (2 + k)) (n + 4)
      = ⟨.sending 1, ⟨1, 0, some true⟩, [.get, .get, .ack 1, .ack 1],
          [.other, .chunk 0, .done]⟩ := by
  induction n with
  | zero => decide
  | succ n ih =>
    rw [show n + 1 + 4 = (n + 4) + 1 from rfl, worldAt_succ, ih,
      show 2 + (n + 4) = n + 6 by omega]
    simp only [sampleCallEvents]
    split <;> rfl

theorem fair_sampleCall : Fair sampleConversation.parties sampleCall sampleCallEvents := by
  rw [← fair_shift_iff 2, worldAt_two, ← sampleConversation.answered.fair_iff sampleAnswered_holds,
    Conversation.answered_world,
    ← sampleConversation.pair.refinement.fair_iff sampleAnswered_connected.holds, world_answered]
  refine Fair.of_quiet (N := 4) (fun n => ⟨2 * n + 4, by omega, ?_⟩) fun m hm => ?_
  · rw [show 2 + (2 * n + 4) = 2 * n + 6 by omega]
    simp [sampleCallEvents]
  · obtain ⟨k, rfl⟩ : ∃ k, m = k + 4 := ⟨m - 4, by omega⟩
    rw [worldAt_offsets, show 2 + (k + 4) = k + 6 by omega]
    simp only [sampleCallEvents]
    split <;> exact ⟨rfl, rfl⟩

/-- From its fifth event on three datagrams are on their way down. -/
theorem down_length_sampleCall (n : ℕ) : (sampleConversation.parties.worldAt sampleCall
    sampleCallEvents (n + 6)).down.length = 3 := by
  obtain ⟨hnext, heq⟩ := sampleConversation.answered.worldAt sampleAnswered_holds
    (fun k => sampleCallEvents (2 + k)) (n + 4)
  obtain ⟨-, heq'⟩ := sampleConversation.pair.refinement.worldAt sampleAnswered_connected.holds
    (fun k => sampleCallEvents (2 + k)) (n + 4)
  rw [world_answered, worldAt_offsets] at heq'
  rw [Conversation.answered_world, Conversation.answered_world, ← worldAt_two, ← worldAt_add,
    worldAt_two, show 2 + (n + 4) = n + 6 by omega] at heq
  rw [heq] at heq'
  have hlength := congrArg (fun w => w.down.length) heq'
  simp only [Refinement.world, List.length_map] at hlength
  exact hlength.symm

theorem patient_sampleCall :
    Patient sampleConversation.parties sampleCall sampleCallEvents maxRetries := by
  refine Patient.of_arrivals fun m => ?_
  -- something arrives at every other event
  obtain ⟨k, hk, hkn, hodd⟩ : ∃ k, m ≤ k + 6 ∧ k + 6 < m + maxRetries ∧ k % 2 = 1 := by
    rw [maxRetries]
    rcases Nat.mod_two_eq_zero_or_one m with heven | hodd
    · exact ⟨m + 1, by omega, by omega, by omega⟩
    · exact ⟨m, by omega, by omega, hodd⟩
  refine ⟨k + 6, hk, hkn, ?_⟩
  simp [sampleCallEvents, hodd, Arrives, down_length_sampleCall]

theorem receiving_sampleCall (n : ℕ) : ∃ c, (sampleConversation.parties.worldAt sampleCall
    sampleCallEvents (2 + n)).client = .receiving sampleSender c := by
  obtain ⟨hnext, -⟩ := sampleConversation.answered.worldAt sampleAnswered_holds
    (fun k => sampleCallEvents (2 + k)) n
  rw [← worldAt_two, ← worldAt_add] at hnext
  exact hnext.client

/-- The first two datagrams arrive. -/
theorem conversation_safe_sample :
    (final sampleConversation.parties.pool sampleCall
        [.up 0, .down 0]).server.mTransferMetadata = registeredTransfer := by
  have hworld : final sampleConversation.parties.pool sampleCall [.up 0, .down 0]
      = sampleAnswered :=
    worldAt_two
  refine ((conversation_safe sampleConversation sampleCall_start [.up 0, .down 0]).1 ?_).2
  rw [hworld]
  decide

/-- The sample conversation ends with the file. -/
theorem conversation_gets_on_sample :
    ∃ N, ∀ n, N ≤ n → ∃ c, (sampleConversation.parties.worldAt sampleCall sampleCallEvents n).client
        = .receiving sampleSender c ∧ c.out.content = sampleFile.bytes := by
  rcases conversation_gets_on sampleConversation ⟨by decide, by decide⟩ sampleCall_start
    fair_sampleCall patient_sampleCall with ⟨N, hfailed⟩ | ⟨hwhole, -⟩
  · -- the receiver has been answered
    obtain ⟨c, hc⟩ := receiving_sampleCall N
    rw [hfailed (2 + N) (Nat.le_add_left N 2)] at hc
    cases hc
  · exact hwhole

end Zapshare
