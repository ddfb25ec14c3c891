import Zapshare.Lib.Network

/-!
# Stop-and-wait by offsets

A sender hands out a file chunk by chunk, and a receiver acknowledges with the offset it is at. The
sender goes on when it is told the end of the current chunk, and repeats the current packet when it
is told its start; the receiver repeats its acknowledgement when an old chunk arrives, and when
nothing arrives. Only the offsets matter here, not what is in the chunks.

A `Setting` also says which packets can be read at all where they arrive: a packet may be too large
for a receive buffer.

## Main results

* `StopAndWait.Setting.serve_idle`, `serve_sending`, `serve_closed` — what the sender does
* `StopAndWait.Setting.react_waiting`, `expire_waiting` — what the receiver does
-/

namespace StopAndWait

open Network

/-- A message to the sender. -/
inductive Req
  | get
  | ack (offset : ℕ)
  | other
  deriving DecidableEq, Repr

/-- A message to the receiver. A chunk or the end of the file may be unreadable. -/
inductive Rep
  | chunk (offset : ℕ)
  | done
  | unreadable (isChunk : Bool)
  | other
  deriving DecidableEq, Repr

/-- A chunk, readable or not. -/
def Rep.isChunk : Rep → Bool
  | .chunk _ => true
  | .unreadable b => b
  | _ => false

/-- The end of the file, readable or not. -/
def Rep.isDone : Rep → Bool
  | .done => true
  | .unreadable b => !b
  | _ => false

/-- The transfer of one file over one link. -/
structure Setting where
  length : ℕ
  payload : ℕ
  payload_pos : 0 < payload
  maxRetries : ℕ
  /-- The receiver is content with the file. -/
  good : Bool
  getOk : Bool
  ackOk : ℕ → Bool
  chunkOk : ℕ → Bool
  doneOk : Bool

/-- The sender: it waits for a request, or is at an offset, or is done. -/
inductive Sender
  | idle
  | sending (offset : ℕ)
  | closed
  deriving DecidableEq, Repr

/-- The receiver: how far it is, how often it has timed out in a row, and what it has returned. -/
structure Receiver where
  offset : ℕ := 0
  retries : ℕ := 0
  result : Option Bool := none
  deriving DecidableEq, Repr

/-- The state of a transfer over a network. -/
abbrev Transfer := World Sender Receiver Req Rep

/-- A transfer at its beginning: nothing has been sent but requests, and what does not matter. -/
structure Initial (w : Transfer) : Prop where
  server : w.server = .idle
  client : w.client = {}
  acks : ∀ a, .ack a ∉ w.up
  chunks : ∀ o, .chunk o ∉ w.down
  done : .done ∉ w.down

namespace Setting

variable (S : Setting)

/-- The end of the chunk at `o`. -/
def next (o : ℕ) : ℕ := o + min S.payload (S.length - o)

/-- The packet for offset `o`: the chunk there, or the end of the file. -/
def packet (o : ℕ) : Rep :=
  if o < S.length then (if S.chunkOk o then .chunk o else .unreadable true)
  else if S.doneOk then .done else .unreadable false

/-- The request as it arrives. -/
def getReq : Req := if S.getOk then .get else .other

/-- The acknowledgement of `a` as it arrives. -/
def ackReq (a : ℕ) : Req := if S.ackOk a then .ack a else .other

/-! ### The two parties -/

/-- What the sender makes of a message. -/
def serve : Sender → Req → Sender × List Rep
  | .idle, .get => (.sending 0, [S.packet 0])
  | .sending o, .get => (.sending o, [S.packet o])
  | .sending o, .ack a =>
    if a = S.next o then
      if S.length ≤ o then (.closed, []) else (.sending (S.next o), [S.packet (S.next o)])
    else if a = o then (.sending o, [S.packet o])
    else (.sending o, [])
  | s, _ => (s, [])

/-- What the receiver makes of a message. -/
def react (r : Receiver) (x : Rep) : Receiver × List Req :=
  if r.result ≠ none then (r, [])
  else
    match x with
    | .chunk o =>
      if o = r.offset then ({ r with offset := S.next o, retries := 0 }, [S.ackReq (S.next o)])
      else if o < r.offset then ({ r with retries := 0 }, [S.ackReq r.offset])
      else ({ r with retries := 0 }, [])
    | .done =>
      if r.offset ≠ S.length then ({ r with retries := 0 }, [])
      else if S.good then ({ r with retries := 0, result := some true }, [S.ackReq r.offset])
      else ({ r with retries := 0, result := some false }, [])
    | _ => ({ r with retries := 0 }, [])

/-- What the receiver does when nothing arrives. -/
def expire (r : Receiver) : Receiver × List Req :=
  if r.result ≠ none then (r, [])
  else
    ({ r with
        retries := r.retries + 1
        result := if r.retries + 1 < S.maxRetries then none else some false },
      [if r.offset = 0 then S.getReq else S.ackReq r.offset])

/-- The two parties of the transfer. -/
def parties : Parties Sender Receiver Req Rep := ⟨S.serve, S.react, S.expire⟩

/-! ### Offsets -/

variable {S} {o : ℕ}

theorem le_next : o ≤ S.next o := Nat.le_add_right _ _

theorem next_le (h : o ≤ S.length) : S.next o ≤ S.length := by
  rw [next]
  omega

theorem lt_next (h : o < S.length) : o < S.next o := by
  have := S.payload_pos
  rw [next]
  omega

theorem next_of_ge (h : S.length ≤ o) : S.next o = o := by
  rw [next]
  omega

/-! ### What a packet is -/

theorem packet_of_lt (h : o < S.length) :
    S.packet o = if S.chunkOk o then .chunk o else .unreadable true := if_pos h

theorem packet_of_ge (h : S.length ≤ o) :
    S.packet o = if S.doneOk then .done else .unreadable false := if_neg (Nat.not_lt.mpr h)

theorem packet_eq_chunk {o' : ℕ} (h : S.packet o = .chunk o') : o' = o ∧ o < S.length := by
  rw [packet] at h
  split_ifs at h with hlt
  exact ⟨(Rep.chunk.inj h).symm, hlt⟩

theorem packet_isChunk : (S.packet o).isChunk = decide (o < S.length) := by
  rw [packet]
  split_ifs with hlt <;> simp [Rep.isChunk, hlt]

theorem packet_isDone : (S.packet o).isDone = decide (S.length ≤ o) := by
  rw [packet]
  split_ifs <;> simp [Rep.isDone] <;> omega

theorem packet_eq_done (h : S.packet o = .done) : S.length ≤ o := by
  rw [packet] at h
  split_ifs at h with hlt
  exact Nat.not_lt.mp hlt

theorem getReq_ne_ack (a : ℕ) : S.getReq ≠ .ack a := by
  rw [getReq]
  split <;> simp

theorem ackReq_eq_ack {a b : ℕ} (h : S.ackReq a = .ack b) : b = a := by
  rw [ackReq] at h
  split at h
  · exact (Req.ack.inj h).symm
  · simp at h

/-! ### What the sender does -/

/-- **An idle sender** starts on a request. -/
theorem serve_idle (m : Req) :
    (m = .get ∧ S.serve .idle m = (.sending 0, [S.packet 0])) ∨
      (m ≠ .get ∧ S.serve .idle m = (.idle, [])) := by
  cases m with
  | get => exact Or.inl ⟨rfl, rfl⟩
  | ack a => exact Or.inr ⟨by simp, rfl⟩
  | other => exact Or.inr ⟨by simp, rfl⟩

/-- **A sender at work** does nothing, repeats its packet, goes on, or finishes. -/
theorem serve_sending (ho : o ≤ S.length) (m : Req) :
    (m ≠ .get ∧ m ≠ .ack (S.next o) ∧ m ≠ .ack o ∧ S.serve (.sending o) m = (.sending o, [])) ∨
    ((m = .get ∨ m = .ack o ∧ o < S.length) ∧
      S.serve (.sending o) m = (.sending o, [S.packet o])) ∨
    (m = .ack (S.next o) ∧ o < S.length ∧
      S.serve (.sending o) m = (.sending (S.next o), [S.packet (S.next o)])) ∨
    (m = .ack S.length ∧ o = S.length ∧ S.serve (.sending o) m = (.closed, [])) := by
  cases m with
  | get => exact Or.inr (Or.inl ⟨Or.inl rfl, rfl⟩)
  | other => exact Or.inl ⟨by simp, by simp, by simp, rfl⟩
  | ack a =>
    rcases eq_or_ne a (S.next o) with rfl | hnext
    · rcases Nat.lt_or_ge o S.length with hlt | hge
      · refine Or.inr (Or.inr (Or.inl ⟨rfl, hlt, ?_⟩))
        rw [serve, if_pos rfl, if_neg (Nat.not_le.mpr hlt)]
      · have hend : o = S.length := Nat.le_antisymm ho hge
        refine Or.inr (Or.inr (Or.inr ⟨?_, hend, ?_⟩))
        · rw [next_of_ge hge, hend]
        · rw [serve, if_pos rfl, if_pos hge]
    · rcases eq_or_ne a o with rfl | hcur
      · have hlt : a < S.length := by
          by_contra hge
          exact hnext (next_of_ge (Nat.not_lt.mp hge)).symm
        refine Or.inr (Or.inl ⟨Or.inr ⟨rfl, hlt⟩, ?_⟩)
        rw [serve, if_neg hnext, if_pos rfl]
      · refine Or.inl ⟨by simp, by simpa using hnext, by simpa using hcur, ?_⟩
        rw [serve, if_neg hnext, if_neg hcur]

theorem serve_closed (m : Req) : S.serve .closed m = (.closed, []) := by
  cases m <;> rfl

/-! ### What the receiver does -/

variable {r : Receiver}

theorem react_returned (h : r.result ≠ none) (x : Rep) : S.react r x = (r, []) := if_pos h

/-- **A receiver that waits** takes a chunk, answers an old one, accepts or refuses the end, or
takes note that something arrived. -/
theorem react_waiting (h : r.result = none) (x : Rep) :
    (x = .chunk r.offset ∧ S.react r x
      = ({ r with offset := S.next r.offset, retries := 0 }, [S.ackReq (S.next r.offset)])) ∨
    (x = .done ∧ r.offset = S.length ∧ S.good = true ∧ S.react r x
      = ({ r with retries := 0, result := some true }, [S.ackReq r.offset])) ∨
    (x = .done ∧ r.offset = S.length ∧ S.good = false ∧ S.react r x
      = ({ r with retries := 0, result := some false }, [])) ∨
    ((∃ o, x = .chunk o ∧ o < r.offset) ∧
      S.react r x = ({ r with retries := 0 }, [S.ackReq r.offset])) ∨
    (x ≠ .chunk r.offset ∧ S.react r x = ({ r with retries := 0 }, [])) := by
  simp only [react, h, ne_eq, not_true_eq_false, if_false]
  cases x with
  | chunk o =>
    simp only
    split_ifs with heq hlt
    · subst heq
      exact Or.inl ⟨rfl, rfl⟩
    · exact Or.inr (Or.inr (Or.inr (Or.inl ⟨⟨o, rfl, hlt⟩, rfl⟩)))
    · exact Or.inr (Or.inr (Or.inr (Or.inr ⟨by simpa using heq, rfl⟩)))
  | done =>
    simp only
    split_ifs with hend hgood
    · exact Or.inr (Or.inl ⟨trivial, hend, hgood, rfl⟩)
    · exact Or.inr (Or.inr (Or.inl ⟨trivial, hend, by simpa using hgood, rfl⟩))
    · exact Or.inr (Or.inr (Or.inr (Or.inr ⟨by simp, rfl⟩)))
  | unreadable b => exact Or.inr (Or.inr (Or.inr (Or.inr ⟨by simp, rfl⟩)))
  | other => exact Or.inr (Or.inr (Or.inr (Or.inr ⟨by simp, rfl⟩)))

theorem expire_returned (h : r.result ≠ none) : S.expire r = (r, []) := if_pos h

theorem expire_waiting (h : r.result = none) :
    S.expire r = ({ r with
        retries := r.retries + 1
        result := if r.retries + 1 < S.maxRetries then none else some false },
      [if r.offset = 0 then S.getReq else S.ackReq r.offset]) :=
  if_neg (not_not.mpr h)

end Setting

end StopAndWait
