import Mathlib.Data.List.Induction
import Zapshare.Lib.StopAndWait

/-!
# Stop-and-wait over an arbitrary network

The invariant that ties the offsets of the two parties to every packet that may still arrive, and
what follows from it, however the network delays, drops, reorders and duplicates.

## Main results

* `StopAndWait.inv_final` — the views of the two parties in every run
* `StopAndWait.never_first_iff` — when the sender is not the first to finish
* `StopAndWait.Inv.round_trip` — one timeout is enough to go on
-/

namespace StopAndWait

open Network Machine

variable {S : Setting}

/-- What is known while the sender is at `o`. -/
structure Sending (S : Setting) (w : Transfer) (o : ℕ) : Prop where
  offset_le : o ≤ S.length
  view : w.client.offset = o ∨ w.client.offset = S.next o
  acks : ∀ a, .ack a ∈ w.up → a ≤ w.client.offset
  chunks : ∀ o', .chunk o' ∈ w.down → o' ≤ o
  done : .done ∈ w.down → o = S.length
  sent : S.packet o ∈ w.down

/-- What is known before the first request arrived. -/
structure Idle (w : Transfer) : Prop where
  offset : w.client.offset = 0
  acks : ∀ a, .ack a ∉ w.up
  chunks : ∀ o, .chunk o ∉ w.down
  done : .done ∉ w.down

/-- **The views of the two parties.** -/
structure Inv (S : Setting) (w : Transfer) : Prop where
  chunk_lt : ∀ o, .chunk o ∈ w.down → o < S.length
  idle : w.server = .idle → Idle w
  sending : ∀ o, w.server = .sending o → Sending S w o
  closed : w.server = .closed → w.client.offset = S.length
  result : w.client.result = some true →
    w.server = .sending S.length ∨ w.server = .closed
  early : S.length = 0 → ∀ a, .ack a ∈ w.up → w.client.result = some true
  empty : S.length = 0 → w.server = .closed → w.client.result = some true

theorem Initial.inv {w : Transfer} (h : Initial w) : Inv S w where
  chunk_lt o ho := absurd ho (h.chunks o)
  idle _ := ⟨by rw [h.client], h.acks, h.chunks, h.done⟩
  sending o ho := by simp [h.server] at ho
  closed hc := by simp [h.server] at hc
  result hr := by simp [h.client] at hr
  early _ a ha := absurd ha (h.acks a)
  empty _ hc := by simp [h.server] at hc

variable {w : Transfer}

theorem Inv.offset_le (h : Inv S w) : w.client.offset ≤ S.length := by
  rcases hs : w.server with _ | o | _
  · rw [(h.idle hs).offset]
    exact Nat.zero_le _
  · have hsending := h.sending o hs
    rcases hsending.view with hv | hv <;> rw [hv]
    · exact hsending.offset_le
    · exact Setting.next_le hsending.offset_le
  · exact Nat.le_of_eq (h.closed hs)

/-! ### The sender moves -/

/-- The sender is at `o` now, and sends the packet for it. -/
theorem Inv.send (h : Inv S w) {o : ℕ} (ho : o ≤ S.length)
    (hview : w.client.offset = o ∨ w.client.offset = S.next o)
    (hacks : ∀ a, .ack a ∈ w.up → a ≤ w.client.offset) (hchunks : ∀ o', .chunk o' ∈ w.down → o' ≤ o)
    (hdone : .done ∈ w.down → o = S.length) (hresult : w.client.result = some true → o = S.length) :
    Inv S { w with server := .sending o, down := w.down ++ [S.packet o] } where
  chunk_lt o' ho' := by
    rcases List.mem_append.mp ho' with ho' | ho'
    · exact h.chunk_lt o' ho'
    · obtain ⟨rfl, hlt⟩ := Setting.packet_eq_chunk (List.mem_singleton.mp ho').symm
      exact hlt
  idle hs := by simp at hs
  sending o' hs := by
    obtain rfl : o = o' := Sender.sending.inj hs
    refine ⟨ho, hview, hacks, fun o' ho' => ?_, fun hd => ?_,
      List.mem_append_right _ List.mem_cons_self⟩
    · rcases List.mem_append.mp ho' with ho' | ho'
      · exact hchunks o' ho'
      · exact Nat.le_of_eq (Setting.packet_eq_chunk (List.mem_singleton.mp ho').symm).1
    · rcases List.mem_append.mp hd with hd | hd
      · exact hdone hd
      · exact Nat.le_antisymm ho (Setting.packet_eq_done (List.mem_singleton.mp hd).symm)
  closed hs := by simp at hs
  result hr := Or.inl (by rw [hresult hr])
  early := h.early
  empty _ hs := by simp at hs

theorem Inv.sending_of_result (h : Inv S w) {o : ℕ} (hs : w.server = .sending o)
    (hr : w.client.result = some true) : o = S.length := by
  rcases h.result hr with hr | hr
  · exact Sender.sending.inj (hs.symm.trans hr)
  · simp [hs] at hr

theorem Inv.serve (h : Inv S w) {m : Req} (hm : m ∈ w.up) :
    Inv S (S.parties.serve w m w.up).1 := by
  rcases hs : w.server with _ | o | _
  · -- an idle sender
    have hidle := h.idle hs
    rcases Setting.serve_idle (S := S) m with ⟨-, heq⟩ | ⟨-, heq⟩ <;>
      simp only [Parties.serve, Setting.parties, hs, heq]
    · refine h.send (Nat.zero_le _) (Or.inl hidle.offset) (fun a ha => absurd ha (hidle.acks a))
        (fun o ho => absurd ho (hidle.chunks o)) (fun hd => absurd hd hidle.done) fun hr => ?_
      rcases h.result hr with hr | hr <;> simp [hs] at hr
    · rw [List.append_nil, ← hs]
      exact h
  · -- a sender at work
    have hsending := h.sending o hs
    rcases Setting.serve_sending hsending.offset_le m with
      ⟨-, -, -, heq⟩ | ⟨-, heq⟩ | ⟨rfl, hlt, heq⟩ | ⟨rfl, rfl, heq⟩ <;>
      simp only [Parties.serve, Setting.parties, hs, heq]
    · rw [List.append_nil, ← hs]
      exact h
    · exact h.send hsending.offset_le hsending.view hsending.acks hsending.chunks hsending.done
        (h.sending_of_result hs)
    · -- the acknowledgement says that the receiver has the current chunk
      have hle := hsending.acks _ hm
      have hnext := Setting.lt_next hlt
      have hview : w.client.offset = S.next o := by
        rcases hsending.view with hv | hv
        · omega
        · exact hv
      refine h.send (Setting.next_le hsending.offset_le) (Or.inl hview) hsending.acks
        (fun o' ho' => ?_) (fun hd => absurd (hsending.done hd) (Nat.ne_of_lt hlt))
        fun hr => absurd (h.sending_of_result hs hr) (Nat.ne_of_lt hlt)
      exact Nat.le_of_lt (Nat.lt_of_le_of_lt (hsending.chunks o' ho') hnext)
    · have hend : w.client.offset = S.length := by
        rcases hsending.view with hv | hv
        · exact hv
        · rw [hv, Setting.next_of_ge (Nat.le_refl _)]
      rw [List.append_nil]
      exact ⟨h.chunk_lt, fun hc => by simp at hc, fun o ho => by simp at ho, fun _ => hend,
        fun _ => Or.inr rfl, h.early, fun hzero _ => h.early hzero _ hm⟩
  · simp only [Parties.serve, Setting.parties, hs, Setting.serve_closed]
    rw [List.append_nil, ← hs]
    exact h

/-! ### The receiver moves -/

/-- The receiver stays at its offset, and repeats its acknowledgement at most. -/
theorem Inv.stay (h : Inv S w) {client : Receiver} {reqs : List Req}
    (hoffset : client.offset = w.client.offset)
    (hresult : client.result = some true →
      w.client.result = some true ∨ w.server = .sending S.length ∨ w.server = .closed)
    (hkeep : w.client.result = some true → client.result = some true)
    (hacks : ∀ a, .ack a ∈ reqs → a = w.client.offset ∧ w.server ≠ .idle ∧
      (S.length = 0 → client.result = some true)) :
    Inv S { w with client := client, up := w.up ++ reqs } where
  chunk_lt := h.chunk_lt
  idle hs := by
    have hidle := h.idle hs
    refine ⟨hoffset.trans hidle.offset, fun a ha => ?_, hidle.chunks, hidle.done⟩
    rcases List.mem_append.mp ha with ha | ha
    · exact hidle.acks a ha
    · exact (hacks a ha).2.1 hs
  sending o hs := by
    have hsending := h.sending o hs
    refine ⟨hsending.offset_le, by simpa only [hoffset] using hsending.view, fun a ha => ?_,
      hsending.chunks, hsending.done, hsending.sent⟩
    simp only [hoffset]
    rcases List.mem_append.mp ha with ha | ha
    · exact hsending.acks a ha
    · exact Nat.le_of_eq (hacks a ha).1
  closed hs := hoffset.trans (h.closed hs)
  result hr := (hresult hr).elim h.result id
  early hzero a ha := by
    rcases List.mem_append.mp ha with ha | ha
    · exact hkeep (h.early hzero a ha)
    · exact (hacks a ha).2.2 hzero
  empty hzero hs := hkeep (h.empty hzero hs)

/-- The receiver takes the chunk it waits for. -/
theorem Inv.advance (h : Inv S w) (hchunk : .chunk w.client.offset ∈ w.down)
    (hwaiting : w.client.result = none) {reqs : List Req}
    (hacks : ∀ a, .ack a ∈ reqs → a = S.next w.client.offset) :
    Inv S { w with
      client := { w.client with offset := S.next w.client.offset, retries := 0 }
      up := w.up ++ reqs } := by
  have hlt := h.chunk_lt _ hchunk
  refine ⟨h.chunk_lt, fun hs => absurd hchunk ((h.idle hs).chunks _), fun o hs => ?_, fun hs => ?_,
    fun hr => by simp [hwaiting] at hr, fun hzero => by omega,
    fun hzero => by omega⟩
  · have hsending := h.sending o hs
    -- the receiver has not taken the current chunk before, so it is at its start
    have hview : w.client.offset = o := by
      rcases hsending.view with hv | hv
      · exact hv
      · have hle := hsending.chunks _ hchunk
        have := Setting.le_next (S := S) (o := o)
        omega
    refine ⟨hsending.offset_le, Or.inr (by rw [hview]), fun a ha => ?_, hsending.chunks,
      hsending.done, hsending.sent⟩
    rcases List.mem_append.mp ha with ha | ha
    · exact Nat.le_trans (hsending.acks a ha) Setting.le_next
    · exact Nat.le_of_eq (hacks a ha)
  · exact absurd (h.closed hs) (Nat.ne_of_lt hlt)

theorem Inv.receive (h : Inv S w) {x : Rep} (hx : x ∈ w.down) :
    Inv S (S.parties.receive w x w.down).1 := by
  simp only [Parties.receive, Setting.parties]
  by_cases hwaiting : w.client.result = none
  case neg =>
    rw [Setting.react_returned hwaiting]
    exact h.stay rfl Or.inl id (by simp)
  rcases Setting.react_waiting (S := S) hwaiting x with
    ⟨rfl, heq⟩ | ⟨rfl, hend, -, heq⟩ | ⟨rfl, -, -, heq⟩ | ⟨⟨o, rfl, hlt⟩, heq⟩ | ⟨-, heq⟩ <;>
    rw [heq]
  · refine h.advance hx hwaiting fun a ha => ?_
    exact Setting.ackReq_eq_ack (List.mem_singleton.mp ha).symm
  · -- the end was only sent once everything else had been acknowledged
    have hserver : w.server = .sending S.length ∨ w.server = .closed := by
      rcases hs : w.server with _ | o | _
      · exact absurd hx (h.idle hs).done
      · rw [(h.sending o hs).done hx]
        exact Or.inl rfl
      · exact Or.inr rfl
    refine h.stay rfl (fun _ => Or.inr hserver) (fun _ => rfl) fun a ha => ?_
    refine ⟨Setting.ackReq_eq_ack (List.mem_singleton.mp ha).symm, ?_, fun _ => rfl⟩
    rcases hserver with hs | hs <;> simp [hs]
  · exact h.stay rfl (fun hr => by simp at hr) (fun hr => by simp [hwaiting] at hr) (by simp)
  · refine h.stay rfl Or.inl id fun a ha => ?_
    refine ⟨Setting.ackReq_eq_ack (List.mem_singleton.mp ha).symm,
      fun hs => (h.idle hs).chunks o hx, fun hzero => ?_⟩
    have := h.chunk_lt o hx
    omega
  · exact h.stay rfl Or.inl id (by simp)

theorem Inv.expire (h : Inv S w) : Inv S (S.parties.expire w).1 := by
  simp only [Parties.expire, Setting.parties]
  by_cases hwaiting : w.client.result = none
  case neg =>
    rw [Setting.expire_returned hwaiting]
    exact h.stay rfl Or.inl id (by simp)
  rw [Setting.expire_waiting hwaiting]
  refine h.stay rfl (fun hr => ?_) (fun hr => by simp [hwaiting] at hr) fun a ha => ?_
  · simp only at hr
    split at hr <;> simp at hr
  · have ha := (List.mem_singleton.mp ha).symm
    split at ha
    · exact absurd ha (Setting.getReq_ne_ack a)
    · rename_i hpos
      refine ⟨Setting.ackReq_eq_ack ha, fun hs => hpos (h.idle hs).offset, fun hzero => ?_⟩
      have := h.offset_le
      omega

/-- One event of the network. -/
theorem Inv.step (h : Inv S w) (e : PoolEvent) : Inv S (S.parties.pool w e).1 := by
  rcases pool_cases S.parties w e with heq | ⟨m, hm, heq⟩ | ⟨x, hx, heq⟩ | ⟨-, heq⟩ <;> rw [heq]
  · exact h
  · exact h.serve hm
  · exact h.receive hx
  · exact h.expire

/-- **The views of the two parties, in every run.** -/
theorem inv_final (h : Initial w) (es : List PoolEvent) : Inv S (final S.parties.pool w es) :=
  final_invariant (Q := fun _ => True) (fun _ e h _ => h.step e) h.inv fun _ _ => trivial

/-! ### Who finishes first

The offset that acknowledges the last chunk is the offset that acknowledges the end: a copy of the
first acknowledgement closes the sender as well as the second acknowledgement does. -/

/-- The event delivers an acknowledgement of the whole file, and the receiver has not accepted the
end yet. -/
def finalAck (S : Setting) (w : Transfer) : PoolEvent → Bool
  | .up i => w.up[i]? = some (.ack S.length) && w.client.result ≠ some true
  | _ => false

/-- At no point of the run the sender was closed and the receiver had not accepted the end. -/
def NeverFirst (S : Setting) (w : Transfer) (es : List PoolEvent) : Prop :=
  ∀ pre, pre <+: es → (final S.parties.pool w pre).server = .closed →
    (final S.parties.pool w pre).client.result = some true

theorem neverFirst_concat {es : List PoolEvent} {e : PoolEvent} :
    NeverFirst S w (es ++ [e]) ↔ NeverFirst S w es ∧
      ((final S.parties.pool w (es ++ [e])).server = .closed →
        (final S.parties.pool w (es ++ [e])).client.result = some true) := by
  constructor
  · exact fun h => ⟨fun pre hpre => h pre (hpre.trans (List.prefix_append es [e])),
      h _ List.prefix_rfl⟩
  · rintro ⟨hes, hlast⟩ pre hpre
    rcases List.prefix_concat_iff.mp hpre with rfl | hpre
    · exact hlast
    · exact hes pre hpre

/-- How many acknowledgements of the whole file came too early, when the sender is not closed. -/
def earlyAcks (S : Setting) : Sender → ℕ
  | .sending o => if o = S.length then 1 else 0
  | _ => 0

theorem earlyAcks_le (s : Sender) : earlyAcks S s ≤ 1 := by
  cases s with
  | idle => exact Nat.zero_le _
  | sending o =>
    rw [earlyAcks]
    split <;> omega
  | closed => exact Nat.zero_le _

/-- A sender at work gets a message: it stays open, with one acknowledgement of the whole file
counted if that is what came, or it closes. -/
theorem finalAck_step_sending (h : Inv S w) {o : ℕ} (hs : w.server = .sending o) {i : ℕ} {m : Req}
    (hm : w.up[i]? = some m) :
    ((S.parties.serve w m w.up).1.server ≠ .closed ∧
      earlyAcks S (S.parties.serve w m w.up).1.server
        = earlyAcks S (.sending o) + if finalAck S w (.up i) then 1 else 0) ∨
    ((S.parties.serve w m w.up).1.server = .closed ∧ earlyAcks S (.sending o) = 1 ∧
      (S.parties.serve w m w.up).1.client = w.client ∧
      (finalAck S w (.up i) = true ↔ w.client.result ≠ some true)) := by
  have hfinal : finalAck S w (.up i) = true ↔
      m = .ack S.length ∧ w.client.result ≠ some true := by
    simp [finalAck, hm]
  have hsending := h.sending o hs
  have hresult : o < S.length → w.client.result ≠ some true := fun hlt hr =>
    Nat.ne_of_lt hlt (h.sending_of_result hs hr)
  rcases Setting.serve_sending hsending.offset_le m with
    ⟨-, hnext, hcur, heq⟩ | ⟨hcause, heq⟩ | ⟨rfl, hlt, heq⟩ | ⟨rfl, rfl, heq⟩ <;>
    simp only [Parties.serve, Setting.parties, hs, heq]
  · -- an acknowledgement of the whole file is of the end of the current chunk
    left
    have hno : finalAck S w (.up i) ≠ true := by
      intro hf
      obtain ⟨rfl, -⟩ := hfinal.mp hf
      have hle := hsending.acks _ (List.mem_of_getElem? hm)
      rcases hsending.view with hv | hv
      · exact hcur (by rw [Nat.le_antisymm hsending.offset_le (hv ▸ hle)])
      · refine hnext ?_
        rw [Nat.le_antisymm (Setting.next_le hsending.offset_le) (hv ▸ hle)]
    exact ⟨by simp, by rw [if_neg hno]; rfl⟩
  · left
    have hno : finalAck S w (.up i) ≠ true := by
      intro hf
      rcases hcause with rfl | ⟨rfl, hlt⟩
      · simpa using (hfinal.mp hf).1
      · exact absurd (by simpa using (hfinal.mp hf).1) (Nat.ne_of_lt hlt)
    exact ⟨by simp, by rw [if_neg hno]; rfl⟩
  · left
    refine ⟨by simp, ?_⟩
    have hiff : finalAck S w (.up i) = true ↔ S.next o = S.length := by
      rw [hfinal]
      simp [hresult hlt]
    simp only [earlyAcks, if_neg (Nat.ne_of_lt hlt), Nat.zero_add]
    by_cases hend : S.next o = S.length
    · rw [if_pos hend, if_pos (hiff.mpr hend)]
    · rw [if_neg hend, if_neg (mt hiff.mp hend)]
  · right
    exact ⟨trivial, by simp [earlyAcks], trivial, by rw [hfinal]; simp⟩

/-- What one event does to the count, and to who finishes first. -/
theorem finalAck_step (h : Inv S w) (hn : 0 < S.length) (hopen : w.server ≠ .closed)
    (e : PoolEvent) :
    ((S.parties.pool w e).1.server ≠ .closed ∧
      earlyAcks S (S.parties.pool w e).1.server
        = earlyAcks S w.server + if finalAck S w e then 1 else 0) ∨
    ((S.parties.pool w e).1.server = .closed ∧ earlyAcks S w.server = 1 ∧
      (S.parties.pool w e).1.client = w.client ∧
      (finalAck S w e = true ↔ w.client.result ≠ some true)) := by
  cases e with
  | down i =>
    left
    simp only [Parties.pool, finalAck]
    split <;> exact ⟨hopen, rfl⟩
  | timeout => exact Or.inl ⟨hopen, rfl⟩
  | up i =>
    rcases hm : w.up[i]? with _ | m
    · left
      simp only [Parties.pool, finalAck, hm]
      exact ⟨hopen, by simp⟩
    have hpool : S.parties.pool w (.up i) = S.parties.serve w m w.up := by
      simp only [Parties.pool, hm]
    rw [hpool]
    rcases hs : w.server with _ | o | _
    · left
      have hno : finalAck S w (.up i) ≠ true := by
        intro hf
        have hack : m = .ack S.length := by
          simp only [finalAck, hm, Bool.and_eq_true, decide_eq_true_eq] at hf
          exact Option.some.inj hf.1
        exact (h.idle hs).acks _ (hack ▸ List.mem_of_getElem? hm)
      rcases Setting.serve_idle (S := S) m with ⟨-, heq⟩ | ⟨-, heq⟩ <;>
        simp only [Parties.serve, Setting.parties, hs, heq, earlyAcks, if_neg hno]
      · exact ⟨by simp, if_neg (Nat.ne_of_lt hn)⟩
      · exact ⟨by simp, trivial⟩
    · exact finalAck_step_sending h hs hm
    · exact absurd hs hopen

/-- Once both are done, nothing changes that. -/
theorem closed_step (hclosed : w.server = .closed) (e : PoolEvent) :
    (S.parties.pool w e).1.server = .closed ∧
      (w.client.result = some true → (S.parties.pool w e).1.client.result = some true ∧
        finalAck S w e = false) := by
  constructor
  · rcases pool_cases S.parties w e with heq | ⟨m, -, heq⟩ | ⟨x, -, heq⟩ | ⟨-, heq⟩ <;> rw [heq]
    · exact hclosed
    · simp only [Parties.serve, Setting.parties, hclosed, Setting.serve_closed]
    · exact hclosed
    · exact hclosed
  · intro hr
    have hreturned : w.client.result ≠ none := by simp [hr]
    refine ⟨?_, by cases e <;> simp [finalAck, hr]⟩
    rcases pool_cases S.parties w e with heq | ⟨m, -, heq⟩ | ⟨x, -, heq⟩ | ⟨-, heq⟩ <;> rw [heq]
    · exact hr
    · exact hr
    · simp only [Parties.receive, Setting.parties, Setting.react_returned hreturned, hr]
    · simp only [Parties.expire, Setting.parties, Setting.expire_returned hreturned, hr]

/-- The run lemma: the count, and who finished first. -/
theorem finalAck_count (h : Initial w) (hn : 0 < S.length) (es : List PoolEvent) :
    ((final S.parties.pool w es).server ≠ .closed ∧ NeverFirst S w es ∧
      count S.parties.pool (finalAck S) w es
        = earlyAcks S (final S.parties.pool w es).server) ∨
    ((final S.parties.pool w es).server = .closed ∧ NeverFirst S w es ∧
      (final S.parties.pool w es).client.result = some true ∧
      count S.parties.pool (finalAck S) w es = 1) ∨
    ((final S.parties.pool w es).server = .closed ∧ ¬ NeverFirst S w es ∧
      2 ≤ count S.parties.pool (finalAck S) w es) := by
  induction es using List.reverseRecOn with
  | nil =>
    left
    refine ⟨by simp [h.server], fun pre hpre => ?_, by simp [h.server, earlyAcks]⟩
    rw [List.prefix_nil.mp hpre]
    simp [h.server]
  | append_singleton es e ih =>
    have hinv := inv_final (S := S) h es
    rw [neverFirst_concat, count_concat, final_concat]
    rcases ih with ⟨hopen, hnever, hcount⟩ | ⟨hclosed, hnever, hresult, hcount⟩ |
      ⟨hclosed, hnever, hcount⟩
    · rcases finalAck_step hinv hn hopen e with ⟨hopen', hstep⟩ | ⟨hclosed, hone, hclient, hiff⟩
      · exact Or.inl ⟨hopen', ⟨hnever, fun hc => absurd hc hopen'⟩, by rw [hcount, hstep]⟩
      · rw [hcount, hone, hclient]
        by_cases hr : (final S.parties.pool w es).client.result = some true
        · refine Or.inr (Or.inl ⟨hclosed, ⟨hnever, fun _ => hr⟩, hr, ?_⟩)
          rw [if_neg (fun hf => hiff.mp hf hr)]
        · refine Or.inr (Or.inr ⟨hclosed, fun hc => hr (hc.2 hclosed), ?_⟩)
          exact Nat.le_of_eq (by rw [if_pos (hiff.mpr hr)])
    · obtain ⟨hclosed', hkeep⟩ := closed_step (S := S) hclosed e
      obtain ⟨hr, hno⟩ := hkeep hresult
      refine Or.inr (Or.inl ⟨hclosed', ⟨hnever, fun _ => hr⟩, hr, ?_⟩)
      rw [hno, hcount]
      rfl
    · exact Or.inr (Or.inr ⟨(closed_step (S := S) hclosed e).1, fun hc => hnever hc.1,
        Nat.le_trans hcount (Nat.le_add_right _ _)⟩)

/-- **Who finishes first.** The sender never finishes before the receiver has accepted the end,
exactly if the file is empty or at most one acknowledgement of the whole file reached the sender
before that. -/
theorem never_first_iff (h : Initial w) (es : List PoolEvent) :
    NeverFirst S w es ↔ S.length = 0 ∨ count S.parties.pool (finalAck S) w es ≤ 1 := by
  rcases Nat.eq_zero_or_pos S.length with hzero | hn
  · constructor
    · intro _
      exact Or.inl hzero
    · intro _ pre _ hclosed
      exact (inv_final (S := S) h pre).empty hzero hclosed
  · rcases finalAck_count (S := S) h hn es with ⟨-, hnever, hcount⟩ | ⟨-, hnever, -, hcount⟩ |
      ⟨-, hnever, hcount⟩
    · have hone : count S.parties.pool (finalAck S) w es ≤ 1 := by
        rw [hcount]
        exact earlyAcks_le _
      exact iff_of_true hnever (Or.inr hone)
    · exact iff_of_true hnever (Or.inr (Nat.le_of_eq hcount))
    · exact iff_of_false hnever (by omega)

/-! ### One timeout is enough -/

/-- **One timeout is enough to go on.** Everything on its way is lost, the receiver times out, and
what it sends and what that is answered with arrive: then the receiver has the next chunk, or the
sender has sent the end. -/
theorem Inv.round_trip (h : Inv S w) (hopen : w.server ≠ .closed) (hdone : ∀ x ∈ w.down, ¬ x.isDone)
    (hwaiting : w.client.result = none) (hretries : w.client.retries + 1 < S.maxRetries)
    (hget : S.getOk = true) (hack : ∀ a ≤ S.length, S.ackOk a = true)
    (hchunk : ∀ o < S.length, S.chunkOk o = true) :
    let w' := final S.parties.pool { w with up := [], down := [] } [.timeout, .up 0, .down 0]
    (w.client.offset < S.length ∧ w'.client.offset = S.next w.client.offset) ∨
      (w.client.offset = S.length ∧ ∃ x ∈ w'.down, x.isDone) := by
  have hexpire : S.expire w.client
      = ({ w.client with retries := w.client.retries + 1 },
          [if w.client.offset = 0 then .get else .ack w.client.offset]) := by
    rw [Setting.expire_waiting hwaiting, if_pos hretries, ← hwaiting]
    simp only [Setting.getReq, Setting.ackReq, hget, hack _ h.offset_le, if_true]
  -- the sender answers with the packet for the offset the receiver is at
  have hserve : ∃ s, S.serve w.server
      (if w.client.offset = 0 then .get else .ack w.client.offset)
        = (s, [S.packet w.client.offset]) := by
    rcases hs : w.server with _ | o | _
    · rw [(h.idle hs).offset]
      exact ⟨_, rfl⟩
    · have hsending := h.sending o hs
      have hlt : o < S.length := by
        rcases Nat.lt_or_ge o S.length with hlt | hge
        · exact hlt
        · exact absurd (Setting.packet_isDone.trans (decide_eq_true hge)) (hdone _ hsending.sent)
      have hnext := Setting.lt_next hlt
      rcases hsending.view with hv | hv <;> rw [hv]
      · split
        · exact ⟨_, rfl⟩
        · refine ⟨.sending o, ?_⟩
          rw [Setting.serve, if_neg (Nat.ne_of_lt hnext), if_pos rfl]
      · rw [if_neg (by omega)]
        refine ⟨.sending (S.next o), ?_⟩
        rw [Setting.serve, if_pos rfl, if_neg (Nat.not_le.mpr hlt)]
    · exact absurd hs hopen
  obtain ⟨s, hserve⟩ := hserve
  intro w'
  have hrun : w' = (S.parties.receive ⟨s, { w.client with retries := w.client.retries + 1 },
      [if w.client.offset = 0 then .get else .ack w.client.offset], [S.packet w.client.offset]⟩
      (S.packet w.client.offset) [S.packet w.client.offset]).1 := by
    simp only [w', final_cons, final_nil, Parties.pool, Parties.expire, Setting.parties, hexpire,
      List.nil_append, List.getElem?_cons_zero, Parties.serve, hserve]
  rw [hrun]
  rcases Nat.lt_or_ge w.client.offset S.length with hlt | hge
  · left
    refine ⟨hlt, ?_⟩
    have hpacket : S.packet w.client.offset = .chunk w.client.offset := by
      rw [Setting.packet, if_pos hlt, if_pos (hchunk _ hlt)]
    simp only [Parties.receive, Setting.parties, hpacket, Setting.react, hwaiting, ne_eq,
      not_true_eq_false, if_false, if_true]
  · right
    exact ⟨Nat.le_antisymm h.offset_le hge, _, List.mem_cons_self,
      Setting.packet_isDone.trans (decide_eq_true hge)⟩

end StopAndWait
