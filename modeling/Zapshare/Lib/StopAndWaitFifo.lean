import Mathlib.Algebra.BigOperators.Group.List.Basic
import Mathlib.Tactic.Ring
import Zapshare.Lib.StopAndWait

/-!
# Stop-and-wait over queues

What a transfer costs when nothing is lost and nothing overtakes. A spurious packet is never
absorbed: the sender answers a repeated acknowledgement with the current chunk, and the receiver
answers a repeated chunk with an acknowledgement, so the pair goes on to the end of the file. The
proof charges every message with the chunks it may still cause.

## Main results

* `StopAndWait.chunks_sent_le` — each spurious event costs at most the chunks of the whole file
-/

namespace StopAndWait

open Network Machine

variable {S : Setting}

/-- The sender has started and has not finished. -/
def Sender.isSending : Sender → Bool
  | .sending _ => true
  | _ => false

namespace Setting

variable (S)

/-- The number of chunks from `o` to the end of the file. -/
def left (o : ℕ) : ℕ := (S.length - o + S.payload - 1) / S.payload

/-- A chunk starts at `o`, or the file ends there. -/
def Boundary (o : ℕ) : Prop := (S.payload ∣ o ∧ o < S.length) ∨ o = S.length

variable {S} {o o' : ℕ}

theorem Boundary.le (h : S.Boundary o) : o ≤ S.length := by
  rcases h with ⟨-, hlt⟩ | rfl
  · exact Nat.le_of_lt hlt
  · exact Nat.le_refl _

theorem boundary_zero : S.Boundary 0 := by
  rcases Nat.eq_zero_or_pos S.length with hzero | hpos
  · exact Or.inr hzero.symm
  · exact Or.inl ⟨Nat.dvd_zero _, hpos⟩

theorem Boundary.next (h : S.Boundary o) : S.Boundary (S.next o) := by
  rcases h with ⟨⟨k, rfl⟩, hlt⟩ | rfl
  · rcases Nat.lt_or_ge (S.payload * k + S.payload) S.length with hin | hend
    · left
      have hnext : S.next (S.payload * k) = S.payload * k + S.payload := by
        rw [Setting.next]
        omega
      rw [hnext]
      exact ⟨⟨k + 1, by ring⟩, hin⟩
    · right
      rw [Setting.next]
      omega
  · exact Or.inr (next_of_ge (Nat.le_refl _))

/-- A boundary behind a chunk start is behind the whole chunk. -/
theorem Boundary.next_le_of_lt (h : S.Boundary o) (h' : S.Boundary o') (hlt : o < o') :
    S.next o ≤ o' := by
  rcases h with ⟨⟨k, rfl⟩, -⟩ | rfl
  · rcases h' with ⟨⟨k', rfl⟩, -⟩ | rfl
    · have hk : k < k' := Nat.lt_of_mul_lt_mul_left hlt
      have hmul : S.payload * (k + 1) ≤ S.payload * k' := Nat.mul_le_mul_left _ hk
      rw [Nat.mul_add, Nat.mul_one] at hmul
      rw [Setting.next]
      omega
    · exact next_le (Nat.le_of_lt hlt)
  · exact absurd h'.le (Nat.not_le.mpr hlt)

theorem left_mono (h : o ≤ o') : S.left o' ≤ S.left o :=
  Nat.div_le_div_right (by omega)

theorem left_length : S.left S.length = 0 := by
  have := S.payload_pos
  exact Nat.div_eq_of_lt (by omega)

/-- One chunk less is left behind a chunk. -/
theorem left_next (h : o < S.length) : S.left (S.next o) + 1 = S.left o := by
  have hpos := S.payload_pos
  simp only [left, Setting.next]
  rcases Nat.le_total S.payload (S.length - o) with hle | hle
  · rw [Nat.min_eq_left hle,
      show S.length - o + S.payload - 1
          = (S.length - (o + S.payload) + S.payload - 1) + S.payload by omega,
      Nat.add_div_right _ hpos]
  · rw [Nat.min_eq_right hle,
      show S.length - (o + (S.length - o)) + S.payload - 1 = S.payload - 1 by omega,
      show S.length - o + S.payload - 1 = (S.length - o - 1) + S.payload by omega,
      Nat.add_div_right _ hpos, Nat.div_eq_of_lt (by omega), Nat.div_eq_of_lt (by omega)]

/-! ### What a message may still cost -/

variable (S)

/-- The chunks an acknowledgement may still cause. -/
def reqCost : Req → ℕ
  | .ack a => S.left a
  | _ => 0

/-- The chunks a chunk may still cause, itself not counted. -/
def repCost : Rep → ℕ
  | .chunk o => S.left o - 1
  | _ => 0

/-- An idle sender has the whole file to send. -/
def senderCost : Sender → ℕ
  | .idle => S.left 0
  | _ => 0

/-- **The potential.** -/
def cost (w : Transfer) : ℕ :=
  S.senderCost w.server + (w.up.map S.reqCost).sum + (w.down.map S.repCost).sum

variable {S}

/-- A packet costs no more than what is left from its offset on. -/
theorem packet_cost : [S.packet o].countP Rep.isChunk + S.repCost (S.packet o) ≤ S.left o := by
  rcases Nat.lt_or_ge o S.length with hlt | hge
  · have := left_next hlt
    rw [packet]
    rw [if_pos hlt]
    split <;> simp [Rep.isChunk, repCost] <;> omega
  · rw [packet]
    rw [if_neg (Nat.not_lt.mpr hge)]
    split <;> simp [Rep.isChunk, repCost]

theorem getReq_cost : S.reqCost S.getReq = 0 := by
  rw [getReq]
  split <;> rfl

theorem ackReq_cost (a : ℕ) : S.reqCost (S.ackReq a) ≤ S.left a := by
  rw [ackReq]
  split
  · exact Nat.le_refl _
  · exact Nat.zero_le _

/-- **What the sender sends is paid for** by the message it answers, unless that is a request to
send the current chunk again. -/
theorem serve_cost {s : Sender} (hs : ∀ o, s = .sending o → S.Boundary o) (m : Req) :
    (S.serve s m).2.countP Rep.isChunk + ((S.serve s m).2.map S.repCost).sum
        + S.senderCost (S.serve s m).1
      ≤ S.reqCost m + S.senderCost s + if m = .get ∧ s.isSending then S.left 0 else 0 := by
  have hpacket : ∀ o,
      [S.packet o].countP Rep.isChunk + ([S.packet o].map S.repCost).sum ≤ S.left o := by
    intro o
    simpa using packet_cost (S := S) (o := o)
  rcases s with _ | o | _
  · rcases serve_idle (S := S) m with ⟨rfl, heq⟩ | ⟨-, heq⟩ <;> rw [heq]
    · have := hpacket 0
      simp only [senderCost]
      omega
    · simp only [List.countP_nil, List.map_nil, List.sum_nil]
      omega
  · have ho := hs o rfl
    rcases serve_sending ho.le m with
      ⟨-, -, -, heq⟩ | ⟨hcause, heq⟩ | ⟨rfl, -, heq⟩ | ⟨-, -, heq⟩ <;>
      rw [heq] <;> simp only [senderCost]
    · simp
    · have := hpacket o
      rcases hcause with rfl | ⟨rfl, -⟩
      · have := left_mono (S := S) (Nat.zero_le o)
        simp only [Sender.isSending, and_self, if_true]
        omega
      · simp only [reqCost]
        omega
    · have := hpacket (S.next o)
      simp only [reqCost]
      omega
    · simp
  · rw [serve_closed]
    simp [senderCost]

/-- **What the receiver sends is paid for** by the packet it answers. -/
theorem react_cost {r : Receiver} (hr : S.Boundary r.offset) {x : Rep}
    (hx : ∀ o, x = .chunk o → S.Boundary o ∧ o < S.length) :
    ((S.react r x).2.map S.reqCost).sum ≤ S.repCost x := by
  by_cases hwaiting : r.result = none
  case neg => simp [react_returned hwaiting]
  rcases react_waiting (S := S) hwaiting x with
    ⟨rfl, heq⟩ | ⟨-, hend, -, heq⟩ | ⟨-, -, -, heq⟩ | ⟨⟨o, rfl, hlt⟩, heq⟩ | ⟨-, heq⟩ <;> rw [heq]
  · have hnext := left_next (hx _ rfl).2
    have := ackReq_cost (S := S) (S.next r.offset)
    simp only [List.map_cons, List.map_nil, List.sum_cons, List.sum_nil, repCost]
    omega
  · have := ackReq_cost (S := S) r.offset
    rw [hend, left_length] at this
    simp only [List.map_cons, List.map_nil, List.sum_cons, List.sum_nil, hend]
    omega
  · simp
  · -- an old chunk ends in front of the offset, so the acknowledgement has one chunk less to cause
    obtain ⟨hboundary, hin⟩ := hx o rfl
    have hnext := left_next hin
    have hmono := left_mono (S := S) (hboundary.next_le_of_lt hr hlt)
    have := ackReq_cost (S := S) r.offset
    simp only [List.map_cons, List.map_nil, List.sum_cons, List.sum_nil, repCost]
    omega
  · simp

theorem expire_cost {r : Receiver} :
    ((S.expire r).2.map S.reqCost).sum ≤ if r.result = none then S.left 0 else 0 := by
  by_cases hwaiting : r.result = none
  · rw [expire_waiting hwaiting, if_pos hwaiting]
    simp only [List.map_cons, List.map_nil, List.sum_cons, List.sum_nil, Nat.add_zero]
    split
    · rw [getReq_cost]
      exact Nat.zero_le _
    · exact Nat.le_trans (ackReq_cost _) (left_mono (Nat.zero_le _))
  · simp [expire_returned hwaiting]

end Setting

/-! ### Every run -/

/-- The offsets in a transfer are boundaries. -/
structure Bounded (S : Setting) (w : Transfer) : Prop where
  server : ∀ o, w.server = .sending o → S.Boundary o
  client : S.Boundary w.client.offset
  acks : ∀ a, .ack a ∈ w.up → S.Boundary a
  chunks : ∀ o, .chunk o ∈ w.down → S.Boundary o ∧ o < S.length

variable {w : Transfer}

theorem Bounded.serve (h : Bounded S w) (m : Req) {up : List Req}
    (hup : ∀ m ∈ up, m ∈ w.up) : Bounded S (S.parties.serve w m up).1 := by
  have key : ∀ s out, S.serve w.server m = (s, out) → (∀ o, s = .sending o → S.Boundary o) →
      (∀ x ∈ out, ∃ o, S.Boundary o ∧ x = S.packet o) → Bounded S (S.parties.serve w m up).1 := by
    intro s out heq hs hout
    simp only [Parties.serve, Setting.parties, heq]
    refine ⟨hs, h.client, fun a ha => h.acks a (hup _ ha), fun o ho => ?_⟩
    rcases List.mem_append.mp ho with ho | ho
    · exact h.chunks o ho
    · obtain ⟨o', ho', hpacket⟩ := hout _ ho
      obtain ⟨rfl, hlt⟩ := Setting.packet_eq_chunk hpacket.symm
      exact ⟨ho', hlt⟩
  have hone : ∀ o, S.Boundary o → ∀ x ∈ [S.packet o], ∃ o, S.Boundary o ∧ x = S.packet o :=
    fun o ho x hx => ⟨o, ho, List.mem_singleton.mp hx⟩
  rcases hs : w.server with _ | o | _ <;> rw [hs] at key
  · rcases Setting.serve_idle (S := S) m with ⟨-, heq⟩ | ⟨-, heq⟩
    · refine key _ _ heq (fun o ho => ?_) (hone 0 Setting.boundary_zero)
      obtain rfl := Sender.sending.inj ho
      exact Setting.boundary_zero
    · exact key _ _ heq (fun o ho => by simp at ho) (by simp)
  · have ho := h.server o hs
    have hstay : ∀ o', Sender.sending o = .sending o' → S.Boundary o' := fun o' ho' =>
      Sender.sending.inj ho' ▸ ho
    rcases Setting.serve_sending ho.le m with
      ⟨-, -, -, heq⟩ | ⟨-, heq⟩ | ⟨-, -, heq⟩ | ⟨-, -, heq⟩
    · exact key _ _ heq hstay (by simp)
    · exact key _ _ heq hstay (hone o ho)
    · exact key _ _ heq (fun o' ho' => Sender.sending.inj ho' ▸ ho.next) (hone _ ho.next)
    · exact key _ _ heq (fun o' ho' => by simp at ho') (by simp)
  · exact key _ _ (Setting.serve_closed m) (fun o ho => by simp at ho) (by simp)

/-- The receiver goes to a boundary, and acknowledges it. -/
theorem Bounded.client_step (h : Bounded S w) {client : Receiver} {reqs : List Req}
    (hclient : S.Boundary client.offset) (hreqs : ∀ a, .ack a ∈ reqs → a = client.offset)
    {down : List Rep} (hdown : ∀ x ∈ down, x ∈ w.down) :
    Bounded S { w with client := client, up := w.up ++ reqs, down := down } := by
  refine ⟨h.server, hclient, fun a ha => ?_, fun o ho => h.chunks o (hdown _ ho)⟩
  rcases List.mem_append.mp ha with ha | ha
  · exact h.acks a ha
  · rw [hreqs a ha]
    exact hclient

theorem Bounded.receive (h : Bounded S w) {x : Rep} {down : List Rep}
    (hdown : ∀ x ∈ down, x ∈ w.down) : Bounded S (S.parties.receive w x down).1 := by
  simp only [Parties.receive, Setting.parties]
  have hack : ∀ a b, .ack a ∈ [S.ackReq b] → a = b := fun a b ha =>
    Setting.ackReq_eq_ack (List.mem_singleton.mp ha).symm
  by_cases hwaiting : w.client.result = none
  case neg =>
    rw [Setting.react_returned hwaiting]
    exact h.client_step h.client (by simp) hdown
  rcases Setting.react_waiting (S := S) hwaiting x with
    ⟨-, heq⟩ | ⟨-, -, -, heq⟩ | ⟨-, -, -, heq⟩ | ⟨-, heq⟩ | ⟨-, heq⟩ <;> rw [heq] <;>
    refine h.client_step ?_ ?_ hdown
  · exact h.client.next
  · exact fun a ha => hack a _ ha
  · exact h.client
  · exact fun a ha => hack a _ ha
  · exact h.client
  · simp
  · exact h.client
  · exact fun a ha => hack a _ ha
  · exact h.client
  · simp

theorem Bounded.expire (h : Bounded S w) : Bounded S (S.parties.expire w).1 := by
  simp only [Parties.expire, Setting.parties]
  by_cases hwaiting : w.client.result = none
  · rw [Setting.expire_waiting hwaiting]
    refine h.client_step ?_ (fun a ha => ?_) (fun _ hx => hx)
    · exact h.client
    · have ha := (List.mem_singleton.mp ha).symm
      split at ha
      · exact absurd ha (Setting.getReq_ne_ack a)
      · exact Setting.ackReq_eq_ack ha
  · rw [Setting.expire_returned hwaiting]
    exact h.client_step h.client (by simp) (fun _ hx => hx)

/-- The event is spurious: a timeout, a copy made by the network, or a request that arrives while
the sender is at work. -/
def spurious (w : Transfer) : FifoEvent → Bool
  | .timeout => w.client.result = none
  | .copyUp i _ => i < w.up.length
  | .copyDown i _ => i < w.down.length
  | .up => w.up.head? = some .get && w.server.isSending
  | .down => false

theorem Bounded.step (h : Bounded S w) (e : FifoEvent) : Bounded S (S.parties.fifo w e).1 := by
  cases e with
  | up =>
    rcases hup : w.up with _ | ⟨m, rest⟩ <;> simp only [Parties.fifo, hup]
    · exact h
    · exact h.serve m fun m' hm' => by
        rw [hup]
        exact List.mem_cons_of_mem m hm'
  | down =>
    rcases hdown : w.down with _ | ⟨x, rest⟩ <;> simp only [Parties.fifo, hdown]
    · exact h
    · exact h.receive fun x' hx' => by
        rw [hdown]
        exact List.mem_cons_of_mem x hx'
  | timeout => exact h.expire
  | copyUp i j =>
    rcases hm : w.up[i]? with _ | m <;> simp only [Parties.fifo, hm]
    · exact h
    · refine ⟨h.server, h.client, fun a ha => ?_, h.chunks⟩
      rcases List.eq_or_mem_of_mem_insertIdx ha with ha | ha
      · exact h.acks a (ha ▸ List.mem_of_getElem? hm)
      · exact h.acks a ha
  | copyDown i j =>
    rcases hx : w.down[i]? with _ | x <;> simp only [Parties.fifo, hx]
    · exact h
    · refine ⟨h.server, h.client, h.acks, fun o ho => ?_⟩
      rcases List.eq_or_mem_of_mem_insertIdx ho with ho | ho
      · exact h.chunks o (ho ▸ List.mem_of_getElem? hx)
      · exact h.chunks o ho

/-- A copy put into a list adds its own cost at most. -/
theorem sum_insertIdx_le {α : Type*} (f : α → ℕ) (xs : List α) (x : α) (j : ℕ) :
    ((xs.insertIdx j x).map f).sum ≤ f x + (xs.map f).sum := by
  rcases Nat.lt_or_ge xs.length j with hlt | hle
  · rw [List.insertIdx_of_length_lt hlt]
    exact Nat.le_add_left _ _
  · rw [((List.perm_insertIdx x xs hle).map f).sum_eq, List.map_cons, List.sum_cons]

theorem Setting.reqCost_le (m : Req) : S.reqCost m ≤ S.left 0 := by
  cases m with
  | ack a => exact left_mono (Nat.zero_le a)
  | get => exact Nat.zero_le _
  | other => exact Nat.zero_le _

theorem Setting.repCost_le (x : Rep) : S.repCost x ≤ S.left 0 := by
  cases x with
  | chunk o =>
    have := left_mono (S := S) (Nat.zero_le o)
    simp only [repCost]
    omega
  | done => exact Nat.zero_le _
  | unreadable b => exact Nat.zero_le _
  | other => exact Nat.zero_le _

/-- **One event is paid for** by the potential, up to the chunks of the whole file when it is
spurious. -/
theorem Bounded.step_cost (h : Bounded S w) (e : FifoEvent) :
    (S.parties.fifo w e).2.countP Rep.isChunk + S.cost (S.parties.fifo w e).1
      ≤ S.cost w + if spurious w e then S.left 0 else 0 := by
  cases e with
  | up =>
    rcases hup : w.up with _ | ⟨m, rest⟩ <;> simp only [Parties.fifo, hup]
    · simp
    · have hserve := Setting.serve_cost h.server m
      simp only [spurious, hup, List.head?_cons, Option.some.injEq, Bool.and_eq_true,
        decide_eq_true_eq]
      simp only [Parties.serve, Setting.parties, Setting.cost, hup, List.map_append, List.map_cons,
        List.sum_append, List.sum_cons]
      omega
  | down =>
    rcases hdown : w.down with _ | ⟨x, rest⟩ <;> simp only [Parties.fifo, hdown]
    · simp
    · have hreact := Setting.react_cost h.client (x := x) fun o ho =>
        h.chunks o (by rw [hdown, ho]; exact List.mem_cons_self)
      simp only [Parties.receive, Setting.parties, Setting.cost, hdown, List.map_append,
        List.map_cons, List.sum_append, List.sum_cons, List.countP_nil]
      omega
  | timeout =>
    have hexpire := Setting.expire_cost (S := S) (r := w.client)
    simp only [Parties.fifo, Parties.expire, Setting.parties, Setting.cost, List.map_append,
      List.sum_append, List.countP_nil, spurious, decide_eq_true_eq]
    omega
  | copyUp i j =>
    rcases hm : w.up[i]? with _ | m <;> simp only [Parties.fifo, hm]
    · simp
    · have hlt : i < w.up.length := (List.getElem?_eq_some_iff.mp hm).1
      have hsum := sum_insertIdx_le S.reqCost w.up m j
      have := Setting.reqCost_le (S := S) m
      simp only [Setting.cost, List.countP_nil, spurious, hlt, decide_true, if_true]
      omega
  | copyDown i j =>
    rcases hx : w.down[i]? with _ | x <;> simp only [Parties.fifo, hx]
    · simp
    · have hlt : i < w.down.length := (List.getElem?_eq_some_iff.mp hx).1
      have hsum := sum_insertIdx_le S.repCost w.down x j
      have := Setting.repCost_le (S := S) x
      simp only [Setting.cost, List.countP_nil, spurious, hlt, decide_true, if_true]
      omega

/-- **What a transfer costs.** The chunks that are sent are those of the file, once, and once more
for each spurious event. -/
theorem chunks_sent_le (h : Initial w) (es : List FifoEvent) :
    (outputs S.parties.fifo w es).countP Rep.isChunk
      ≤ S.left 0 * (1 + count S.parties.fifo spurious w es) := by
  have hbounded : Bounded S w :=
    ⟨fun o ho => by simp [h.server] at ho, by rw [h.client]; exact Setting.boundary_zero,
      fun a ha => absurd ha (h.acks a), fun o ho => absurd ho (h.chunks o)⟩
  have hup : (w.up.map S.reqCost).sum = 0 := by
    refine List.sum_eq_zero fun n hn => ?_
    obtain ⟨m, hm, rfl⟩ := List.mem_map.mp hn
    cases m with
    | ack a => exact absurd hm (h.acks a)
    | get => rfl
    | other => rfl
  have hdown : (w.down.map S.repCost).sum = 0 := by
    refine List.sum_eq_zero fun n hn => ?_
    obtain ⟨x, hx, rfl⟩ := List.mem_map.mp hn
    cases x with
    | chunk o => exact absurd hx (h.chunks o)
    | done => rfl
    | unreadable b => rfl
    | other => rfl
  have hcost : S.cost w = S.left 0 := by
    rw [Setting.cost, hup, hdown, h.server]
    rfl
  have hrun : (outputs S.parties.fifo w es).countP Rep.isChunk + S.cost (final S.parties.fifo w es)
      ≤ S.cost w + S.left 0 * count S.parties.fifo spurious w es :=
    potential (fun _ e h => Bounded.step h e) (fun _ e h => h.step_cost e) hbounded es
  rw [hcost] at hrun
  rw [Nat.mul_add, Nat.mul_one]
  omega

end StopAndWait
