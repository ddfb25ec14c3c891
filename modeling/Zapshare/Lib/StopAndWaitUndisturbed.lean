import Zapshare.Lib.StopAndWaitFair
import Zapshare.Lib.StopAndWaitFifo

/-!
# Stop-and-wait, undisturbed

Nothing is lost or copied, nothing overtakes, and the receiver does not time out. One message is on
its way at a time then, apart from those that mean nothing to either party, and every delivery
brings the end closer by exactly one.

## Main results

* `StopAndWait.undisturbed_run` — a file of `n` chunks takes `2 * n + 3` messages, no more and no
  less
-/

namespace Network

variable {σ τ μ ν : Type*}

/-- The event is a delivery. -/
def FifoEvent.IsDelivery (e : FifoEvent) : Prop := e = .up ∨ e = .down

/-- The event delivers a message. -/
def delivers (w : World σ τ μ ν) : FifoEvent → Bool
  | .up => !w.up.isEmpty
  | .down => !w.down.isEmpty
  | _ => false

end Network

namespace StopAndWait

open Network Machine

variable {S : Setting} {w : Transfer}

/-- The messages to the sender that mean something to it. -/
def requests (up : List Req) : List Req := up.filter (· ≠ .other)

/-- The messages to the receiver that mean something to it. -/
def replies (down : List Rep) : List Rep := down.filter (· ≠ .other)

/-- The messages that mean nothing. -/
def noise (w : Transfer) : ℕ := w.up.count .other + w.down.count .other

/-- **The stages of an undisturbed transfer**: the two parties, the message that is on its way, and
how many are still to be delivered. -/
inductive Stage (S : Setting) : Sender → Receiver → List Req → List Rep → ℕ → Prop
  | asked : Stage S .idle {} [.get] [] (2 * S.left 0 + 3)
  | sent {o : ℕ} (h : o ≤ S.length) :
    Stage S (.sending o) { offset := o } [] [S.packet o] (2 * S.left o + 2)
  | acked {o : ℕ} (h : o < S.length) :
    Stage S (.sending o) { offset := S.next o } [.ack (S.next o)] [] (2 * S.left (S.next o) + 3)
  | accepted :
    Stage S (.sending S.length) { offset := S.length, result := some true } [.ack S.length] [] 1
  | finished : Stage S .closed { offset := S.length, result := some true } [] [] 0

/-- A transfer of which `n` messages are still to be delivered. -/
def Undisturbed (S : Setting) (n : ℕ) (w : Transfer) : Prop :=
  ∃ k, n = k + noise w ∧ Stage S w.server w.client (requests w.up) (replies w.down) k

/-! ### Messages that mean nothing -/

theorem requests_cons_other (up : List Req) : requests (.other :: up) = requests up :=
  List.filter_cons_of_neg (by simp)

theorem requests_cons {m : Req} (h : m ≠ .other) (up : List Req) :
    requests (m :: up) = m :: requests up :=
  List.filter_cons_of_pos (by simpa using h)

theorem replies_cons_other (down : List Rep) : replies (.other :: down) = replies down :=
  List.filter_cons_of_neg (by simp)

theorem replies_cons {x : Rep} (h : x ≠ .other) (down : List Rep) :
    replies (x :: down) = x :: replies down :=
  List.filter_cons_of_pos (by simpa using h)

namespace Setting

theorem packet_ne_other (o : ℕ) : S.packet o ≠ .other := by
  rw [packet]
  split_ifs <;> simp

theorem serve_other (s : Sender) : S.serve s .other = (s, []) := by
  cases s <;> rfl

theorem ackReq_of_readable (h : S.Readable) (a : ℕ) : S.ackReq a = .ack a :=
  if_pos (h.ack a)

end Setting

/-- At no stage is the receiver near its last retry. -/
theorem Stage.retries {s : Sender} {r : Receiver} {up : List Req} {down : List Rep} {k : ℕ}
    (h : Stage S s r up down k) : r.retries = 0 := by
  cases h <;> rfl

theorem Stage.react_other {s : Sender} {r : Receiver} {up : List Req} {down : List Rep} {k : ℕ}
    (h : Stage S s r up down k) : S.react r .other = (r, []) := by
  by_cases hwaiting : r.result = none
  · rcases Setting.react_waiting (S := S) hwaiting .other with
      ⟨hx, -⟩ | ⟨hx, -⟩ | ⟨hx, -⟩ | ⟨⟨o, hx, -⟩, -⟩ | ⟨-, heq⟩
    · simp at hx
    · simp at hx
    · simp at hx
    · simp at hx
    · rw [heq, ← h.retries]
  · exact Setting.react_returned hwaiting .other

/-- At a stage that is not the last one a message is on its way. -/
theorem Stage.eq_zero {s : Sender} {r : Receiver} {k : ℕ} (h : Stage S s r [] [] k) : k = 0 := by
  cases h
  rfl

/-! ### One delivery -/

/-- **A message arrives at the sender.** -/
theorem Stage.serve {s : Sender} {r : Receiver} {m : Req} {up : List Req} {down : List Rep} {k : ℕ}
    (h : Stage S s r (m :: up) down k) :
    up = [] ∧ ∃ j, k = j + 1 ∧
      Stage S (S.serve s m).1 r [] (down ++ (S.serve s m).2) j := by
  cases h with
  | asked => exact ⟨rfl, 2 * S.left 0 + 2, rfl, .sent (Nat.zero_le _)⟩
  | @acked o hlt =>
    have hserve : S.serve (.sending o) (.ack (S.next o))
        = (.sending (S.next o), [S.packet (S.next o)]) := by
      rw [Setting.serve, if_pos rfl, if_neg (Nat.not_le.mpr hlt)]
    rw [hserve]
    exact ⟨rfl, 2 * S.left (S.next o) + 2, rfl, .sent (Setting.next_le (Nat.le_of_lt hlt))⟩
  | accepted =>
    have hserve : S.serve (.sending S.length) (.ack S.length) = (.closed, []) := by
      rw [Setting.serve, if_pos (Setting.next_of_ge (Nat.le_refl _)).symm, if_pos (Nat.le_refl _)]
    rw [hserve]
    exact ⟨rfl, 0, rfl, .finished⟩

/-- **A message arrives at the receiver.** -/
theorem Stage.react (hread : S.Readable) (hdone : S.doneOk = true) (hgood : S.good = true)
    {s : Sender} {r : Receiver} {x : Rep} {up : List Req} {down : List Rep} {k : ℕ}
    (h : Stage S s r up (x :: down) k) :
    down = [] ∧ ∃ j, k = j + 1 ∧
      Stage S s (S.react r x).1 (up ++ (S.react r x).2) [] j := by
  cases h with
  | @sent o hle =>
    refine ⟨rfl, 2 * S.left o + 1, rfl, ?_⟩
    rcases Nat.lt_or_eq_of_le hle with hlt | rfl
    · have hreact : S.react { offset := o } (S.packet o)
          = ({ offset := S.next o }, [.ack (S.next o)]) := by
        rw [Setting.packet_of_lt hlt, if_pos (hread.chunk o), ← Setting.ackReq_of_readable hread]
        simp [Setting.react]
      have hleft : 2 * S.left o + 1 = 2 * S.left (S.next o) + 3 := by
        have := Setting.left_next hlt
        omega
      rw [hreact, hleft]
      exact .acked hlt
    · have hreact : S.react { offset := S.length } (S.packet S.length)
          = ({ offset := S.length, result := some true }, [.ack S.length]) := by
        rw [Setting.packet_of_ge (Nat.le_refl _), if_pos hdone,
          ← Setting.ackReq_of_readable hread]
        simp [Setting.react, hgood]
      rw [hreact, Setting.left_length]
      exact .accepted

/-- At every stage the messages on their way mean something. -/
theorem Stage.not_other {s : Sender} {r : Receiver} {up : List Req} {down : List Rep} {k : ℕ}
    (h : Stage S s r up down k) : .other ∉ up ∧ .other ∉ down := by
  cases h with
  | sent h => simp [(Setting.packet_ne_other _).symm]
  | _ => simp

theorem filter_append_of_not_mem {α : Type*} [DecidableEq α] {a : α} (xs : List α)
    {ys : List α} (h : a ∉ ys) :
    (xs ++ ys).filter (· ≠ a) = xs.filter (· ≠ a) ++ ys ∧ (xs ++ ys).count a = xs.count a := by
  have hkeep : ys.filter (· ≠ a) = ys :=
    List.filter_eq_self.mpr fun y hy => decide_eq_true fun heq => h (heq ▸ hy)
  exact ⟨by rw [List.filter_append, hkeep],
    by rw [List.count_append, List.count_eq_zero_of_not_mem h, Nat.add_zero]⟩

/-- A delivery to the sender takes one from what is still to be delivered. -/
theorem Undisturbed.serve {n : ℕ} {m : Req} {up : List Req} (h : Undisturbed S n w)
    (hup : w.up = m :: up) :
    ∃ j, n = j + 1 ∧ Undisturbed S j (S.parties.serve w m up).1 := by
  obtain ⟨k, rfl, hstage⟩ := h
  simp only [noise, hup, Parties.serve, Setting.parties, Undisturbed] at hstage ⊢
  by_cases hm : m = .other
  · subst hm
    rw [requests_cons_other] at hstage
    rw [List.count_cons_self, Setting.serve_other, List.append_nil]
    exact ⟨k + (up.count .other + w.down.count .other), by omega, k, rfl, hstage⟩
  · rw [requests_cons hm] at hstage
    obtain ⟨hrest, j, rfl, hnext⟩ := hstage.serve
    have hout : .other ∉ (S.serve w.server m).2 := fun ho =>
      hnext.not_other.2 (List.mem_append_right _ ho)
    obtain ⟨hreplies, hcount⟩ := filter_append_of_not_mem w.down hout
    rw [List.count_cons_of_ne hm, replies, hreplies, hcount, hrest]
    exact ⟨j + (up.count .other + w.down.count .other), by omega, j, rfl, hnext⟩

/-- A delivery to the receiver takes one from what is still to be delivered. -/
theorem Undisturbed.receive (hread : S.Readable) (hdone : S.doneOk = true) (hgood : S.good = true)
    {n : ℕ} {x : Rep} {down : List Rep} (h : Undisturbed S n w) (hdown : w.down = x :: down) :
    ∃ j, n = j + 1 ∧ Undisturbed S j (S.parties.receive w x down).1 := by
  obtain ⟨k, rfl, hstage⟩ := h
  simp only [noise, hdown, Parties.receive, Setting.parties, Undisturbed] at hstage ⊢
  by_cases hx : x = .other
  · subst hx
    rw [replies_cons_other] at hstage
    rw [List.count_cons_self, hstage.react_other, List.append_nil]
    exact ⟨k + (w.up.count .other + down.count .other), by omega, k, rfl, hstage⟩
  · rw [replies_cons hx] at hstage
    obtain ⟨hrest, j, rfl, hnext⟩ := hstage.react hread hdone hgood
    have hout : .other ∉ (S.react w.client x).2 := fun ho =>
      hnext.not_other.1 (List.mem_append_right _ ho)
    obtain ⟨hrequests, hcount⟩ := filter_append_of_not_mem w.up hout
    rw [List.count_cons_of_ne hx, requests, hrequests, hcount, hrest]
    exact ⟨j + (w.up.count .other + down.count .other), by omega, j, rfl, hnext⟩

/-- A delivery takes one from what is still to be delivered. -/
theorem Undisturbed.step (hread : S.Readable) (hdone : S.doneOk = true) (hgood : S.good = true)
    {n : ℕ} (h : Undisturbed S n w) {e : FifoEvent} (he : e.IsDelivery) :
    ∃ m, n = m + (if delivers w e then 1 else 0) ∧
      Undisturbed S m (S.parties.fifo w e).1 := by
  rcases he with rfl | rfl
  · rcases hup : w.up with _ | ⟨m, up⟩ <;> simp only [Parties.fifo, delivers, hup]
    · exact ⟨n, rfl, h⟩
    · exact h.serve hup
  · rcases hdown : w.down with _ | ⟨x, down⟩ <;> simp only [Parties.fifo, delivers, hdown]
    · exact ⟨n, rfl, h⟩
    · exact h.receive hread hdone hgood hdown

/-! ### A whole run -/

/-- A transfer whose one request is on its way. -/
theorem Initial.undisturbed (h : Initial w) (hone : w.up.count .get = 1)
    (hdown : ∀ x ∈ w.down, x = .other) :
    Undisturbed S (2 * S.left 0 + 2 + w.up.length + w.down.length) w := by
  have hup : ∀ m ∈ w.up, m = .get ∨ m = .other := by
    intro m hm
    cases m with
    | get => exact Or.inl rfl
    | ack a => exact absurd hm (h.acks a)
    | other => exact Or.inr rfl
  have hrequests : requests w.up = [.get] := by
    rw [requests, List.filter_congr (q := (· = .get)) fun m hm => ?_]
    · rw [← List.replicate_one, ← hone, ← List.filter_eq]
    · rcases hup m hm with rfl | rfl <;> rfl
  have hlength : w.up.length = 1 + w.up.count .other := by
    rw [List.length_eq_countP_add_countP (· == .get), ← List.count_eq_countP, hone]
    refine congrArg (1 + ·) (List.countP_congr fun m hm => ?_)
    rcases hup m hm with rfl | rfl <;> decide
  have hreplies : replies w.down = [] :=
    List.filter_eq_nil_iff.mpr fun x hx => by simp [hdown x hx]
  have hcount : w.down.count .other = w.down.length :=
    List.count_eq_length.mpr fun x hx => (hdown x hx).symm
  refine ⟨2 * S.left 0 + 3, ?_, ?_⟩
  · rw [noise, hcount]
    omega
  · rw [h.server, h.client, hrequests, hreplies]
    exact .asked

/-- Nothing is on its way when nothing is left to be delivered, and the transfer is finished. -/
theorem Undisturbed.finished (h : Undisturbed S 0 w) :
    w.server = .closed ∧ w.client = { offset := S.length, result := some true } := by
  obtain ⟨k, hk, hstage⟩ := h
  obtain ⟨rfl, -⟩ : k = 0 ∧ noise w = 0 := by omega
  obtain ⟨server, client, up, down⟩ := w
  simp only at hstage ⊢
  generalize requests up = up' at hstage
  generalize replies down = down' at hstage
  cases hstage
  exact ⟨rfl, rfl⟩

/-- Before that, something is on its way. -/
theorem Undisturbed.in_flight {n : ℕ} (h : Undisturbed S (n + 1) w) : w.up ≠ [] ∨ w.down ≠ [] := by
  by_contra hnone
  obtain ⟨hup, hdown⟩ := not_or.mp hnone
  obtain ⟨k, hk, hstage⟩ := h
  rw [not_not.mp hup, not_not.mp hdown] at hstage
  have hzero : k = 0 := hstage.eq_zero
  simp [noise, not_not.mp hup, not_not.mp hdown, hzero] at hk

/-- **An undisturbed run.** As long as fewer than `2 * n + 3` messages have been delivered, for a
file of `n` chunks and besides those that meant nothing, something is on its way; and then the
sender has finished and the receiver is content. No more are ever delivered. -/
theorem undisturbed_run (hread : S.Readable) (hdone : S.doneOk = true) (hgood : S.good = true)
    (h : Initial w) (hone : w.up.count .get = 1) (hdown : ∀ x ∈ w.down, x = .other)
    {es : List FifoEvent} (hes : ∀ e ∈ es, e.IsDelivery) :
    ∃ left, 2 * S.left 0 + 2 + w.up.length + w.down.length
        = left + count S.parties.fifo delivers w es ∧
      Undisturbed S left (final S.parties.fifo w es) :=
  countdown (fun _ _ _ h he => h.step hread hdone hgood he) (h.undisturbed hone hdown) hes

end StopAndWait
