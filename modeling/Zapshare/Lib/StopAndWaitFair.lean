import Zapshare.Lib.FairLoss
import Zapshare.Lib.StopAndWaitPool

/-!
# Stop-and-wait over a network that loses fairly

Safety needs nothing of the network. For progress it has to deliver something now and then, and the
receiver has to have the patience to wait for it: then it gets every chunk. It also gets the end,
unless a second acknowledgement of the whole file has closed the sender before.

## Main results

* `StopAndWait.Inv.progress` — a receiver that lacks something gets the next chunk
* `StopAndWait.Inv.exists_whole` — it gets all of them
* `StopAndWait.Inv.exists_accepted` — and accepts the end, if the sender is not closed too early
-/

namespace StopAndWait

open Network Machine

variable {S : Setting} {w : Transfer} {es : ℕ → PoolEvent}

/-- What a receiver at `o` asks for when nothing arrives. -/
def Setting.reqAt (S : Setting) (o : ℕ) : Req := if o = 0 then S.getReq else S.ackReq o

/-- Everything but the end of the file can be read. -/
structure Setting.Readable (S : Setting) : Prop where
  get : S.getOk = true
  ack : ∀ a, S.ackOk a = true
  chunk : ∀ o, S.chunkOk o = true

/-- A receiver that has failed has lost its patience, or it was not content with the file. -/
def Excused (S : Setting) (r : Receiver) : Prop :=
  r.result = some false → S.maxRetries ≤ r.retries ∨ r.offset = S.length ∧ S.good = false

/-- A receiver that has just started to wait. -/
structure Fresh (r : Receiver) : Prop where
  result : r.result = none
  retries : r.retries = 0

/-! ### One event -/

theorem Inv.worldAt (h : Inv S w) (es : ℕ → PoolEvent) (n : ℕ) : Inv S (S.parties.worldAt w es n) :=
  final_invariant (Q := fun _ => True) (fun _ e h _ => h.step e) h fun _ _ => trivial

/-- **What an event does to the receiver.** It stays at its offset, and asks for nothing but what it
waits for unless it has just accepted the end; or it takes a chunk. -/
theorem Inv.client_step (h : Inv S w) (e : PoolEvent) :
    ((S.parties.pool w e).1.client.offset = w.client.offset ∧
      ((S.parties.pool w e).1.client.result ≠ some true →
        ∀ m ∈ S.parties.asked w e, m = S.reqAt w.client.offset)) ∨
    (w.client.offset < (S.parties.pool w e).1.client.offset) := by
  by_cases hwaiting : w.client.result = none
  case neg =>
    left
    cases e with
    | up i => cases hm : w.up[i]? <;> simp [Parties.pool, Parties.asked, Parties.serve, hm]
    | down i =>
      cases hx : w.down[i]? <;>
        simp [Parties.pool, Parties.asked, Parties.receive, Setting.parties, hx,
          Setting.react_returned hwaiting]
    | timeout =>
      simp [Parties.pool, Parties.asked, Parties.expire, Setting.parties,
        Setting.expire_returned hwaiting]
  cases e with
  | up i => cases hm : w.up[i]? <;> simp [Parties.pool, Parties.asked, Parties.serve, hm]
  | timeout =>
    left
    simp only [Parties.pool, Parties.asked, Parties.expire, Setting.parties,
      Setting.expire_waiting hwaiting]
    exact ⟨trivial, fun _ m hm => List.mem_singleton.mp hm⟩
  | down i =>
    cases hx : w.down[i]? with
    | none => simp [Parties.pool, Parties.asked, hx]
    | some x =>
      simp only [Parties.pool, Parties.asked, Parties.receive, Setting.parties, hx]
      rcases Setting.react_waiting (S := S) hwaiting x with
        ⟨rfl, heq⟩ | ⟨-, -, -, heq⟩ | ⟨-, -, -, heq⟩ | ⟨⟨o, -, hlt⟩, heq⟩ | ⟨-, heq⟩ <;>
        rw [heq]
      · exact Or.inr (Setting.lt_next (h.chunk_lt _ (List.mem_of_getElem? hx)))
      · exact Or.inl ⟨rfl, fun hr => absurd rfl hr⟩
      · exact Or.inl ⟨rfl, by simp⟩
      · refine Or.inl ⟨rfl, fun _ m hm => ?_⟩
        -- an old chunk starts below the offset, which is not zero then
        rw [Setting.reqAt, if_neg (by omega)]
        exact List.mem_singleton.mp hm
      · exact Or.inl ⟨rfl, by simp⟩

theorem Inv.offset_le_step (h : Inv S w) (e : PoolEvent) :
    w.client.offset ≤ (S.parties.pool w e).1.client.offset := by
  rcases h.client_step e with ⟨heq, -⟩ | hlt
  · exact Nat.le_of_eq heq.symm
  · exact Nat.le_of_lt hlt

theorem Excused.step (h : Excused S w.client) (e : PoolEvent) :
    Excused S (S.parties.pool w e).1.client := by
  by_cases hwaiting : w.client.result = none
  case neg =>
    rcases pool_cases S.parties w e with heq | ⟨m, -, heq⟩ | ⟨x, -, heq⟩ | ⟨-, heq⟩ <;> rw [heq]
    · exact h
    · exact h
    · simpa [Parties.receive, Setting.parties, Setting.react_returned hwaiting] using h
    · simpa [Parties.expire, Setting.parties, Setting.expire_returned hwaiting] using h
  rcases pool_cases S.parties w e with heq | ⟨m, -, heq⟩ | ⟨x, -, heq⟩ | ⟨-, heq⟩ <;> rw [heq]
  · exact h
  · exact h
  · simp only [Parties.receive, Setting.parties]
    rcases Setting.react_waiting (S := S) hwaiting x with
      ⟨-, heq⟩ | ⟨-, -, -, heq⟩ | ⟨-, hend, hgood, heq⟩ | ⟨-, heq⟩ | ⟨-, heq⟩ <;> rw [heq]
    · intro hr
      exact absurd (hwaiting.symm.trans hr) (by simp)
    · intro hr
      simp at hr
    · exact fun _ => Or.inr ⟨hend, hgood⟩
    · intro hr
      exact absurd (hwaiting.symm.trans hr) (by simp)
    · intro hr
      exact absurd (hwaiting.symm.trans hr) (by simp)
  · simp only [Parties.expire, Setting.parties, Setting.expire_waiting hwaiting]
    intro hr
    simp only at hr
    split at hr
    · cases hr
    · rename_i hlt
      exact Or.inl (Nat.not_lt.mp hlt)

/-- What the sender does about what a receiver asks for that lacks something. -/
theorem Inv.serve_reqAt (h : Inv S w) (hread : S.Readable) (hlt : w.client.offset < S.length) :
    S.serve w.server (S.reqAt w.client.offset)
      = (.sending w.client.offset, [S.packet w.client.offset]) := by
  rw [Setting.reqAt, Setting.getReq, Setting.ackReq, hread.get, hread.ack]
  rcases hs : w.server with _ | o | _
  · rw [(h.idle hs).offset]
    rfl
  · have hsending := h.sending o hs
    rcases hsending.view with hview | hview
    · rw [hview]
      split
      · rfl
      · have hne : o ≠ S.next o := Nat.ne_of_lt (Setting.lt_next (hview ▸ hlt))
        rw [if_pos rfl, Setting.serve, if_neg hne, if_pos rfl]
    · have ho : o < S.length := by
        by_contra hge
        rw [hview, Setting.next_of_ge (Nat.not_lt.mp hge)] at hlt
        exact hge hlt
      have hpos := Setting.lt_next ho
      rw [hview, if_neg (by omega), if_pos rfl, Setting.serve, if_pos rfl,
        if_neg (Nat.not_le.mpr ho)]
  · exact absurd (h.closed hs) (Nat.ne_of_lt hlt)

/-- A sender at the offset of a receiver that lacks something stays there, and sends nothing but the
packet for it. -/
theorem Inv.server_stays (h : Inv S w) (hlt : w.client.offset < S.length)
    (hs : w.server = .sending w.client.offset) (e : PoolEvent) :
    (S.parties.pool w e).1.server = .sending w.client.offset ∧
      ∀ x ∈ (S.parties.pool w e).2, x = S.packet w.client.offset := by
  have hsending := h.sending _ hs
  rcases pool_cases S.parties w e with heq | ⟨m, hm, heq⟩ | ⟨x, -, heq⟩ | ⟨-, heq⟩ <;> rw [heq]
  · exact ⟨hs, by simp⟩
  · rcases Setting.serve_sending hsending.offset_le m with
      ⟨-, -, -, heq⟩ | ⟨-, heq⟩ | ⟨rfl, -, -⟩ | ⟨-, hend, -⟩
    · simp [Parties.serve, Setting.parties, hs, heq]
    · simp [Parties.serve, Setting.parties, hs, heq]
    · -- nobody has acknowledged what the receiver lacks
      have hle := hsending.acks _ hm
      have := Setting.lt_next hlt
      omega
    · exact absurd hend (Nat.ne_of_lt hlt)
  · exact ⟨hs, by simp [Parties.receive]⟩
  · exact ⟨hs, by simp [Parties.expire]⟩

/-- A receiver that waits asks when its timer goes off. -/
theorem asked_timeout (h : w.client.result = none) :
    S.parties.asked w .timeout = [S.reqAt w.client.offset] := by
  simp only [Parties.asked, Setting.parties, Setting.expire_waiting h]
  rfl

/-- What a receiver that lacks something asks for arrives. -/
theorem Inv.pool_reqAt (h : Inv S w) (hread : S.Readable) (hlt : w.client.offset < S.length)
    {i : ℕ} (hi : w.up[i]? = some (S.reqAt w.client.offset)) :
    (S.parties.pool w (.up i)).1.server = .sending w.client.offset ∧
      (S.parties.pool w (.up i)).2 ≠ [] := by
  rw [pool_of_up hi]
  simp only [Parties.serve, Setting.parties, h.serve_reqAt hread hlt]
  exact ⟨trivial, List.cons_ne_nil _ _⟩

/-- The chunk that a receiver waits for arrives. -/
theorem pool_chunk (hwait : w.client.result = none) {i : ℕ}
    (hi : w.down[i]? = some (.chunk w.client.offset)) :
    (S.parties.pool w (.down i)).1.client.offset = S.next w.client.offset := by
  rw [pool_of_down hi]
  simp only [Parties.receive, Setting.parties, Setting.react, hwait, ne_eq, not_true_eq_false,
    if_false, if_true]

/-! ### Patience -/

theorem client_of_returned (h : w.client.result ≠ none) (e : PoolEvent) :
    (S.parties.pool w e).1.client = w.client := by
  rcases pool_cases S.parties w e with heq | ⟨m, -, heq⟩ | ⟨x, -, heq⟩ | ⟨-, heq⟩ <;> rw [heq]
  · rfl
  · simp only [Parties.receive, Setting.parties, Setting.react_returned h]
  · simp only [Parties.expire, Setting.parties, Setting.expire_returned h]

/-- The receiver counts the timeouts with nothing arriving in between. -/
theorem retries_step (h : w.client.result = none) (e : PoolEvent) :
    (S.parties.pool w e).1.client.retries
      = if Arrives w e then 0 else w.client.retries + if e = .timeout then 1 else 0 := by
  cases e with
  | up i => cases hm : w.up[i]? <;> simp [Parties.pool, Parties.serve, Arrives, hm]
  | timeout =>
    simp [Parties.pool, Parties.expire, Setting.parties, Setting.expire_waiting h, Arrives]
  | down i =>
    rcases Nat.lt_or_ge i w.down.length with hlt | hge
    · have harrives : Arrives w (.down i) := hlt
      obtain ⟨x, hx⟩ : ∃ x, w.down[i]? = some x := ⟨_, List.getElem?_eq_getElem hlt⟩
      rw [pool_of_down hx, if_pos harrives]
      simp only [Parties.receive, Setting.parties]
      rcases Setting.react_waiting (S := S) h x with
        ⟨-, heq⟩ | ⟨-, -, -, heq⟩ | ⟨-, -, -, heq⟩ | ⟨-, heq⟩ | ⟨-, heq⟩ <;> rw [heq]
    · simp [Parties.pool, Arrives, Nat.not_lt.mpr hge]

/-- **A receiver does not lose its patience** in a run that it has the patience for. -/
theorem retries_lt (hstart : w.client.retries = 0)
    (hpatient : Patient S.parties w es S.maxRetries) (n : ℕ) :
    (S.parties.worldAt w es n).client.retries < S.maxRetries := by
  by_contra hlost
  have hexists : ∃ k, ¬ (S.parties.worldAt w es k).client.retries < S.maxRetries := ⟨n, hlost⟩
  obtain ⟨last, hlast, hbefore⟩ := Nat.findX hexists
  -- once it has returned, it does not count any more
  have hwaits : ∀ k < last, (S.parties.worldAt w es k).client.result = none := by
    intro k hk
    by_contra hreturned
    have hsame : ∀ j, k ≤ j → (S.parties.worldAt w es j).client
        = (S.parties.worldAt w es k).client := by
      intro j hj
      induction j, hj using Nat.le_induction with
      | base => rfl
      | succ j _ ih => rw [worldAt_succ, client_of_returned (by rw [ih]; exact hreturned), ih]
    exact hbefore k hk (by rw [← hsame last (Nat.le_of_lt hk)]; exact hlast)
  have hcounts : Patience.Counts (fun k => es k = .timeout)
      (fun k => Arrives (S.parties.worldAt w es k) (es k))
      (fun k => (S.parties.worldAt w es k).client.retries) last := by
    refine ⟨hstart, fun k hk => ?_⟩
    rw [worldAt_succ]
    exact retries_step (hwaits k hk) (es k)
  obtain ⟨m, -, hstretch, hshown⟩ := Patience.exists_stretch hcounts (Nat.le_refl last)
  rw [hshown] at hlast
  exact hlast (hpatient m last hstretch)

/-! ### Fair runs -/

theorem Inv.offset_mono (h : Inv S w) (es : ℕ → PoolEvent) {m n : ℕ} (hmn : m ≤ n) :
    (S.parties.worldAt w es m).client.offset ≤ (S.parties.worldAt w es n).client.offset := by
  induction n, hmn using Nat.le_induction with
  | base => exact Nat.le_refl _
  | succ n _ ih =>
    rw [worldAt_succ]
    exact Nat.le_trans ih ((h.worldAt es n).offset_le_step (es n))

/-- A receiver that has accepted the end has the whole file. -/
theorem Inv.offset_of_accepted (h : Inv S w) (hr : w.client.result = some true) :
    w.client.offset = S.length := by
  rcases h.result hr with hs | hs
  · rcases (h.sending _ hs).view with hv | hv
    · exact hv
    · exact hv.trans (Setting.next_of_ge (Nat.le_refl _))
  · exact h.closed hs

/-- A receiver with patience that has not accepted the end waits, unless it has refused the
file. -/
theorem Fresh.waiting (hfresh : Fresh w.client)
    (hpatient : Patient S.parties w es S.maxRetries) {n : ℕ}
    (hopen : (S.parties.worldAt w es n).client.result ≠ some true)
    (hlacks : (S.parties.worldAt w es n).client.offset = S.length → S.good = true) :
    (S.parties.worldAt w es n).client.result = none := by
  have hex : Excused S (S.parties.worldAt w es n).client :=
    final_invariant (P := fun w : Transfer => Excused S w.client) (Q := fun _ => True)
      (fun _ e h _ => h.step e) (fun hr => by rw [hfresh.result] at hr; cases hr) fun _ _ => trivial
  cases hr : (S.parties.worldAt w es n).client.result with
  | none => rfl
  | some b =>
    cases b with
    | true => exact absurd hr hopen
    | false =>
      rcases hex hr with hmax | ⟨hend, hgood⟩
      · have hlt := retries_lt hfresh.retries hpatient n
        exact absurd hlt (Nat.not_lt.mpr hmax)
      · rw [hlacks hend] at hgood
        cases hgood

/-- As long as the receiver waits at `o`, what it asks for arrives again and again. -/
theorem Inv.exists_asked (h : Inv S w) (hfair : Fair S.parties w es) {o N : ℕ}
    (hstuck : ∀ n, N ≤ n → (S.parties.worldAt w es n).client.offset = o)
    (hwait : ∀ n, N ≤ n → (S.parties.worldAt w es n).client.result = none) (n : ℕ) (hn : N ≤ n) :
    ∃ m i, n ≤ m ∧ es m = .up i ∧ (S.parties.worldAt w es m).up[i]? = some (S.reqAt o) := by
  have hsends : ∀ n, ∃ m, n ≤ m ∧
      S.parties.asked (S.parties.worldAt w es m) (es m) ≠ [] := by
    intro n
    obtain ⟨m, hm, htimeout⟩ := hfair.timeout (max n N)
    refine ⟨m, Nat.le_trans (Nat.le_max_left n N) hm, ?_⟩
    rw [htimeout, asked_timeout (hwait m (Nat.le_trans (Nat.le_max_right n N) hm))]
    exact List.cons_ne_nil _ _
  have hasked : ∀ k, n ≤ k → ∀ x ∈ S.parties.asked (S.parties.worldAt w es k) (es k),
      x = S.reqAt o := by
    intro k hk x hx
    have hstep := (h.worldAt es k).client_step (es k)
    rw [← worldAt_succ, hstuck k (hn.trans hk), hstuck (k + 1) (by omega),
      hwait (k + 1) (by omega)] at hstep
    rcases hstep with ⟨-, hasked⟩ | hlt
    · exact hasked (by simp) x hx
    · exact absurd hlt (Nat.lt_irrefl o)
  obtain ⟨m, i, hm, he, hi, hin⟩ := hfair.up hsends n
  obtain ⟨x, hx, rfl⟩ := sent_up_since hasked hm hi hin
  exact ⟨m, i, hm, he, hx⟩

/-- **A receiver that lacks something gets the next chunk.** -/
theorem Inv.progress (h : Inv S w) (hfresh : Fresh w.client) (hread : S.Readable)
    (hfair : Fair S.parties w es) (hpatient : Patient S.parties w es S.maxRetries) {N : ℕ}
    (hlt : (S.parties.worldAt w es N).client.offset < S.length) :
    ∃ n, (S.parties.worldAt w es N).client.offset < (S.parties.worldAt w es n).client.offset := by
  by_contra hno
  obtain ⟨o, ho⟩ : ∃ o, (S.parties.worldAt w es N).client.offset = o := ⟨_, rfl⟩
  rw [ho] at hno hlt
  have hinv (n : ℕ) : Inv S (S.parties.worldAt w es n) := h.worldAt es n
  have hstuck : ∀ n, N ≤ n → (S.parties.worldAt w es n).client.offset = o := fun n hn => by
    have hmono := h.offset_mono es hn
    have hnot : ¬ o < (S.parties.worldAt w es n).client.offset := fun hgt => hno ⟨n, hgt⟩
    omega
  have hlacks : ∀ n, N ≤ n → (S.parties.worldAt w es n).client.offset < S.length := fun n hn => by
    rw [hstuck n hn]
    exact hlt
  have hwait : ∀ n, N ≤ n → (S.parties.worldAt w es n).client.result = none := fun n hn =>
    hfresh.waiting hpatient
      (fun hr => absurd ((hinv n).offset_of_accepted hr) (Nat.ne_of_lt (hlacks n hn)))
      fun hend => absurd hend (Nat.ne_of_lt (hlacks n hn))
  -- the sender gets to `o` when it is asked, and sends the packet for it
  have hasked : ∀ n, N ≤ n → ∃ m, n ≤ m ∧ (S.parties.worldAt w es (m + 1)).server = .sending o ∧
      (S.parties.pool (S.parties.worldAt w es m) (es m)).2 ≠ [] := by
    intro n hn
    obtain ⟨m, i, hm, he, hi⟩ := h.exists_asked hfair hstuck hwait n hn
    have hstep := (hinv m).pool_reqAt hread (hlacks m (hn.trans hm))
      (by rw [hstuck m (hn.trans hm)]; exact hi)
    rw [← he, ← worldAt_succ, hstuck m (hn.trans hm)] at hstep
    exact ⟨m, hm, hstep⟩
  -- it stays there
  obtain ⟨t, ht, hfirst, -⟩ := hasked N (Nat.le_refl N)
  have hstays : ∀ n, t + 1 ≤ n → (S.parties.worldAt w es n).server = .sending o →
      (S.parties.worldAt w es (n + 1)).server = .sending o ∧
        ∀ x ∈ (S.parties.pool (S.parties.worldAt w es n) (es n)).2, x = S.packet o := by
    intro n hn hs
    have hstay := (hinv n).server_stays (hlacks n (by omega))
      (by rw [hstuck n (by omega)]; exact hs) (es n)
    rwa [hstuck n (by omega), ← worldAt_succ] at hstay
  have hserver : ∀ n, t + 1 ≤ n → (S.parties.worldAt w es n).server = .sending o := by
    intro n hn
    induction n, hn using Nat.le_induction with
    | base => exact hfirst
    | succ n hn ih => exact (hstays n hn ih).1
  -- so it sends this packet again and again, and nothing else, and one of them arrives
  have hsends : ∀ n, ∃ m, n ≤ m ∧
      (S.parties.pool (S.parties.worldAt w es m) (es m)).2 ≠ [] := by
    intro n
    obtain ⟨m, hm, -, hsend⟩ := hasked (max n N) (Nat.le_max_right n N)
    exact ⟨m, Nat.le_trans (Nat.le_max_left n N) hm, hsend⟩
  obtain ⟨m, j, hm, he, hj, hjn⟩ := hfair.down hsends (t + 1)
  obtain ⟨x, hx, rfl⟩ :=
    sent_down_since (fun k hk x hx => (hstays k hk (hserver k hk)).2 x hx) hm hj hjn
  have hchunk : S.packet o = .chunk (S.parties.worldAt w es m).client.offset := by
    rw [hstuck m (by omega), Setting.packet_of_lt hlt, hread.chunk, if_pos rfl]
  rw [hchunk] at hx
  have hnext : (S.parties.worldAt w es (m + 1)).client.offset = S.next o := by
    rw [worldAt_succ, he, pool_chunk (hwait m (by omega)) hx, hstuck m (by omega)]
  have hgrown := Setting.lt_next hlt
  rw [hstuck (m + 1) (by omega)] at hnext
  omega

/-- **The receiver gets the whole file.** -/
theorem Inv.exists_whole (h : Inv S w) (hfresh : Fresh w.client) (hread : S.Readable)
    (hfair : Fair S.parties w es) (hpatient : Patient S.parties w es S.maxRetries) :
    ∃ N, ∀ n, N ≤ n → (S.parties.worldAt w es n).client.offset = S.length := by
  have hle (n : ℕ) : (S.parties.worldAt w es n).client.offset ≤ S.length :=
    (h.worldAt es n).offset_le
  -- by induction on what is missing
  have hreach : ∀ missing N, S.length - (S.parties.worldAt w es N).client.offset ≤ missing →
      ∃ n, (S.parties.worldAt w es n).client.offset = S.length := by
    intro missing
    induction missing with
    | zero =>
      intro N hN
      exact ⟨N, Nat.le_antisymm (hle N) (by omega)⟩
    | succ missing ih =>
      intro N hN
      rcases Nat.lt_or_ge (S.parties.worldAt w es N).client.offset S.length with hlt | hge
      · obtain ⟨n, hn⟩ := h.progress hfresh hread hfair hpatient hlt
        exact ih n (by omega)
      · exact ⟨N, Nat.le_antisymm (hle N) hge⟩
  obtain ⟨N, hN⟩ := hreach _ 0 (Nat.le_refl _)
  refine ⟨N, fun n hn => Nat.le_antisymm (hle n) ?_⟩
  rw [← hN]
  exact h.offset_mono es hn

/-! ### The end -/

/-- The end arrives at a receiver that waits for it. -/
theorem pool_done (hwait : w.client.result = none) (hend : w.client.offset = S.length)
    (hgood : S.good = true) {i : ℕ} (hi : w.down[i]? = some .done) :
    (S.parties.pool w (.down i)).1.client.result = some true := by
  rw [pool_of_down hi]
  simp only [Parties.receive, Setting.parties, Setting.react, hwait, hend, hgood, ne_eq,
    not_true_eq_false, if_false, if_true]

/-- Of an empty file there is nothing to send but the end. -/
theorem Inv.sends_end (h : Inv S w) (hzero : S.length = 0) (e : PoolEvent) :
    ∀ x ∈ (S.parties.pool w e).2, x = S.packet 0 := by
  rcases pool_cases S.parties w e with heq | ⟨m, -, heq⟩ | ⟨x, -, heq⟩ | ⟨-, heq⟩ <;> rw [heq]
  · simp
  · rcases hs : w.server with _ | o | _
    · rcases Setting.serve_idle (S := S) m with ⟨-, heq⟩ | ⟨-, heq⟩ <;>
        simp [Parties.serve, Setting.parties, hs, heq]
    · have hle := (h.sending o hs).offset_le
      obtain rfl : o = 0 := by omega
      rcases Setting.serve_sending hle m with ⟨-, -, -, heq⟩ | ⟨-, heq⟩ | ⟨-, hlt, -⟩ | ⟨-, -, heq⟩
      · simp [Parties.serve, Setting.parties, hs, heq]
      · simp [Parties.serve, Setting.parties, hs, heq]
      · omega
      · simp [Parties.serve, Setting.parties, hs, heq]
    · simp [Parties.serve, Setting.parties, hs, Setting.serve_closed]
  · simp [Parties.receive]
  · simp [Parties.expire]

/-- A sender that is open answers the first request. -/
theorem pool_reqAt_zero (hread : S.Readable) (hopen : w.server ≠ .closed) {i : ℕ}
    (hi : w.up[i]? = some (S.reqAt 0)) :
    (S.parties.pool w (.up i)).2 ≠ [] := by
  rw [pool_of_up hi, Setting.reqAt, if_pos rfl, Setting.getReq, hread.get, if_pos rfl]
  rcases hs : w.server with _ | o | _
  · simp [Parties.serve, Setting.parties, hs, Setting.serve]
  · simp [Parties.serve, Setting.parties, hs, Setting.serve]
  · exact absurd hs hopen

/-- **The receiver accepts the end**, if the sender is never closed before: if the file is empty, or
no second acknowledgement of the whole file reaches the sender. -/
theorem Inv.exists_accepted (h : Inv S w) (hfresh : Fresh w.client) (hread : S.Readable)
    (hdone : S.doneOk = true) (hgood : S.good = true) (hfair : Fair S.parties w es)
    (hpatient : Patient S.parties w es S.maxRetries)
    (honce : S.length = 0 ∨
      ∀ n, count S.parties.pool (finalAck S) w ((List.range n).map es) ≤ 1) :
    ∃ n, (S.parties.worldAt w es n).client.result = some true := by
  by_contra hno
  have hopen (n : ℕ) : (S.parties.worldAt w es n).client.result ≠ some true := fun hr =>
    hno ⟨n, hr⟩
  have hinv (n : ℕ) : Inv S (S.parties.worldAt w es n) := h.worldAt es n
  have hwait (n : ℕ) : (S.parties.worldAt w es n).client.result = none :=
    hfresh.waiting hpatient (hopen n) fun _ => hgood
  obtain ⟨N, hwhole⟩ := h.exists_whole hfresh hread hfair hpatient
  have hasked := h.exists_asked hfair hwhole fun n _ => hwait n
  rcases Nat.eq_zero_or_pos S.length with hzero | hpos
  · -- the sender is asked for the end again and again, and sends nothing else
    have hserver (n : ℕ) : (S.parties.worldAt w es n).server ≠ .closed := fun hs =>
      hopen n ((hinv n).empty hzero hs)
    have hsends : ∀ n, ∃ m, n ≤ m ∧
        (S.parties.pool (S.parties.worldAt w es m) (es m)).2 ≠ [] := by
      intro n
      obtain ⟨m, i, hm, he, hi⟩ := hasked (max n N) (Nat.le_max_right n N)
      rw [hzero] at hi
      refine ⟨m, Nat.le_trans (Nat.le_max_left n N) hm, ?_⟩
      rw [he]
      exact pool_reqAt_zero hread (hserver m) hi
    obtain ⟨m, j, hm, he, hj, hjn⟩ := hfair.down hsends N
    obtain ⟨x, hx, rfl⟩ :=
      sent_down_since (fun k _ x hx => (hinv k).sends_end hzero (es k) x hx) hm hj hjn
    rw [Setting.packet_of_ge (Nat.le_of_eq hzero), hdone, if_pos rfl] at hx
    refine hopen (m + 1) ?_
    rw [worldAt_succ, he]
    exact pool_done (hwait m) (hwhole m hm) hgood hx
  · -- the whole file is acknowledged again and again
    have hfinal : ∀ n, N ≤ n → ∃ m, n ≤ m ∧
        finalAck S (S.parties.worldAt w es m) (es m) = true := by
      intro n hn
      obtain ⟨m, i, hm, he, hi⟩ := hasked n hn
      rw [Setting.reqAt, if_neg (Nat.ne_of_gt hpos), Setting.ackReq, hread.ack, if_pos rfl] at hi
      refine ⟨m, hm, ?_⟩
      simp [finalAck, he, hi, hwait m]
    obtain ⟨m, hm, hfirst⟩ := hfinal N (Nat.le_refl N)
    obtain ⟨m', hm', hsecond⟩ := hfinal (m + 1) (by omega)
    have htwice := two_le_count hm' hfirst hsecond
    exact absurd (honce.resolve_left (Nat.ne_of_gt hpos) (m' + 1)) (by omega)

end StopAndWait
