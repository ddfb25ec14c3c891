import Mathlib.Data.List.Induction
import Zapshare.Acceptance

/-!
# The sender sends its file, in chunks, in order

What a whole run of the session sends, whatever the peer does. The peer may acknowledge what it
never received, ask again at any moment or send any bytes at all; the chunks that go out are still
the slices of the file, each is sent only behind all earlier ones, and `Done` only behind all of
them.

The history of a run enters the invariant: `Sent` says that every chunk in front of the current
one has been sent and acknowledged, and the current one sent.

## Main results

* `chunks_partition` — the chunks, in order, make up the file
* `session_chunks` — the invariant of a transfer, and what it says about everything sent
-/

namespace Zapshare

open Wire UdpConfig

variable {F : FileContent} {path : Bytes}

/-- A chunk that starts at `o` was sent. -/
def ChunkSent (es : List SessionEntry) (o : ℕ) : Prop :=
  ∃ e ∈ es, ∃ g ∈ e.output, ∃ c : DataChunk,
    g.bytes = (ControlPacket.data c).serializeToString ∧ c.offset.toNat = o

/-- An acknowledgement of offset `o` was received. -/
def AckReceived (es : List SessionEntry) (o : ℕ) : Prop :=
  ∃ e ∈ es, ∃ ack : Ack,
    ControlPacket.parseFromString e.input.data = some (.ack ack) ∧ ack.nextOffset.toNat = o

theorem ChunkSent.mono {es es' : List SessionEntry} {o : ℕ} (h : ChunkSent es o) :
    ChunkSent (es ++ es') o := by
  obtain ⟨e, he, hrest⟩ := h
  exact ⟨e, List.mem_append_left _ he, hrest⟩

theorem AckReceived.mono {es es' : List SessionEntry} {o : ℕ} (h : AckReceived es o) :
    AckReceived (es ++ es') o := by
  obtain ⟨e, he, hrest⟩ := h
  exact ⟨e, List.mem_append_left _ he, hrest⟩

/-! ### Chunk boundaries -/

/-- A chunk boundary in front of the end of a chunk is in front of the chunk, or starts it. -/
theorem lt_or_eq_of_lt_chunkEnd {F : Bytes} {o o' : ℕ} (ho : payloadSize ∣ o)
    (ho' : payloadSize ∣ o') (h : o' < chunkEnd F o) : o' < o ∨ o' = o := by
  obtain ⟨k, rfl⟩ := ho
  obtain ⟨k', rfl⟩ := ho'
  rcases Nat.lt_trichotomy k' k with hk | rfl | hk
  · exact Or.inl ((Nat.mul_lt_mul_left (by decide)).mpr hk)
  · exact Or.inr rfl
  · exfalso
    have hmul : payloadSize * (k + 1) ≤ payloadSize * k' := Nat.mul_le_mul_left _ hk
    rw [Nat.mul_add] at hmul
    rw [chunkEnd] at h
    omega

theorem Aligned.dvd {F : Bytes} {o : ℕ} (h : Aligned F o) (hlt : o < F.length) : payloadSize ∣ o :=
  h.resolve_right (Nat.ne_of_lt hlt)

/-- **The chunks, in order, make up the file.** -/
theorem chunks_partition (F : Bytes) (k : ℕ) :
    (List.range k).flatMap (fun i => (F.drop (payloadSize * i)).take payloadSize)
      = F.take (payloadSize * k) := by
  induction k with
  | zero => simp
  | succ k ih =>
    rw [List.range_succ, List.flatMap_append, ih, List.flatMap_singleton, ← List.take_add,
      Nat.mul_add, Nat.mul_one]

theorem le_payloadSize_mul_chunks (n : ℕ) :
    n ≤ payloadSize * ((n + payloadSize - 1) / payloadSize) := by
  have := Nat.div_add_mod (n + payloadSize - 1) payloadSize
  have := payloadSize_pos
  have := Nat.mod_lt (n + payloadSize - 1) payloadSize_pos
  omega

/-! ### The history of a run -/

/-- What has been sent and acknowledged when the session is at an offset of the file. -/
def Sent (F : Bytes) (es : List SessionEntry) (s : Session) : Prop :=
  s.mState = .transferring →
    (∀ o, payloadSize ∣ o → o < s.mOffset → ChunkSent es o ∧ AckReceived es (chunkEnd F o)) ∧
      (s.mOffset < F.length → ChunkSent es s.mOffset)

theorem Sent.mono {F : Bytes} {es : List SessionEntry} {s : Session} (h : Sent F es s)
    (es' : List SessionEntry) : Sent F (es ++ es') s := by
  intro hstate
  obtain ⟨hbehind, hcurrent⟩ := h hstate
  constructor
  · intro o ho hlt
    obtain ⟨hsent, hack⟩ := hbehind o ho hlt
    exact ⟨hsent.mono, hack.mono⟩
  · intro hlt
    exact (hcurrent hlt).mono

/-- The entry that sends the packet for `o` sends the chunk at `o`, if there is one. -/
theorem chunkSent_of_output {es : List SessionEntry} {e : SessionEntry} {g : Datagram} {o : ℕ}
    {t : Transfers} (he : e ∈ es) (hg : g ∈ e.output) (hlt : o < F.bytes.length)
    (hbytes : g.bytes = (packetAt t F.bytes o).serializeToString) : ChunkSent es o :=
  ⟨e, he, g, hg, chunkAt t F.bytes o, by rw [hbytes, packetAt_of_lt hlt],
    chunkAt_offset (Nat.le_of_lt hlt)⟩

/-- One step carries the history on. -/
theorem sent_step {s : Session} (hinv : s.Inv (· = F) path) {es : List SessionEntry}
    (h : Sent F.bytes es s) {d : Delivery} (hd : ∀ G, d.env.files path = some G → G = F) :
    Sent F.bytes (es ++ [⟨s, d, (s.step d).1, (s.step d).2⟩]) (s.step d).1 := by
  intro hafter
  cases hstate : s.mState with
  | waitingHello =>
    rcases Session.step_waitingHello hstate d with
      ⟨out, heq, -⟩ | ⟨m, -, heq⟩ | ⟨hello, t, -, -, -, -, heq⟩ <;> rw [heq] at hafter
    · simp [hstate] at hafter
    · simp at hafter
    · simp at hafter
  | authenticated =>
    have hoffset := hinv.offset_zero (Or.inr hstate)
    rcases Session.step_authenticated hstate hoffset d with
      ⟨-, heq⟩ | ⟨e, -, heq⟩ | ⟨get, m, -, -, heq⟩ | ⟨get, file, G, -, hfile, -, heq⟩ <;>
      rw [heq] at hafter ⊢
    · simp [hstate] at hafter
    · simp at hafter
    · simp at hafter
    · obtain rfl := hd G (hinv.path ▸ hfile)
      constructor
      · intro o _ ho
        exact absurd ho (Nat.not_lt_zero o)
      · intro hlt
        exact chunkSent_of_output (List.mem_append_right _ List.mem_cons_self) List.mem_cons_self
          hlt rfl
  | transferring =>
    obtain ⟨G, hG, hlock⟩ := hinv.lockstep hstate
    obtain rfl : G = F := hG
    rcases Session.step_transferring hstate hlock G.length_lt d with
      ⟨-, heq⟩ | ⟨-, heq⟩ | ⟨ack, file, hack, hend, hlt, -, heq⟩ | ⟨-, heq⟩ <;>
      rw [heq] at hafter ⊢
    · exact h.mono _ hstate
    · exact h.mono _ hstate
    · obtain ⟨hbehind, hcurrent⟩ := h.mono
        [⟨s, d, s.sentAt G.bytes (chunkEnd G.bytes s.mOffset) file, _⟩] hstate
      constructor
      · -- the chunk at the old offset has been sent before, and is acknowledged by this datagram
        intro o ho hlt'
        rcases lt_or_eq_of_lt_chunkEnd (hlock.aligned.dvd hlt) ho hlt' with hlt'' | rfl
        · exact hbehind o ho hlt''
        · exact ⟨hcurrent hlt, ⟨_, List.mem_append_right _ List.mem_cons_self, ack, hack, hend⟩⟩
      · intro hlt'
        exact chunkSent_of_output (List.mem_append_right _ List.mem_cons_self) List.mem_cons_self
          hlt' rfl
    · simp at hafter
  | closed =>
    rw [Session.step_closed hstate] at hafter
    simp [hstate] at hafter

variable {ds : List Delivery} (remote : Endpoint)

theorem sent_final (hds : ∀ d ∈ ds, ∀ G, d.env.files path = some G → G = F) :
    Sent F.bytes (Machine.trace Session.step (.fresh remote path) ds)
      (Machine.final Session.step (.fresh remote path) ds) := by
  induction ds using List.reverseRecOn with
  | nil => intro h; simp [Session.fresh] at h
  | append_singleton ds d ih =>
    have hpre : ∀ d ∈ ds, ∀ G, d.env.files path = some G → G = F := fun d' hd' =>
      hds d' (List.mem_append_left _ hd')
    rw [Machine.trace_append, Machine.final_append]
    exact sent_step (Session.inv_final remote hpre) (ih hpre)
      (hds d (List.mem_append_right _ List.mem_cons_self))

/-- The chunk or `Done` an entry sends, and what the history in front of it says. -/
theorem exists_packetAt_of_sent (hds : ∀ d ∈ ds, ∀ G, d.env.files path = some G → G = F)
    {pre post : List SessionEntry} {e : SessionEntry}
    (hsplit : Machine.trace Session.step (.fresh remote path) ds = pre ++ e :: post)
    {g : Datagram} (hg : g ∈ e.output) (ht : IsTransferPacket g.bytes) :
    ∃ o t, o ≤ F.bytes.length ∧ Aligned F.bytes o ∧
      g.bytes = (packetAt t F.bytes o).serializeToString ∧
      ∀ o', payloadSize ∣ o' → o' < o →
        ChunkSent pre o' ∧ AckReceived (pre ++ [e]) (chunkEnd F.bytes o') := by
  obtain ⟨before, d, after, rfl, rfl, rfl⟩ := Machine.trace_split hsplit
  have hpre : ∀ d ∈ before, ∀ G, d.env.files path = some G → G = F := fun d' hd' =>
    hds d' (List.mem_append_left _ hd')
  have hinv := Session.inv_final remote hpre
  have hd := hds d (List.mem_append_right _ List.mem_cons_self)
  have hsent := sent_final remote hpre
  obtain ⟨G, o, rfl, hle, haligned, hbytes, hcases⟩ := hinv.output_cases hd hg ht
  refine ⟨o, _, hle, haligned, hbytes, fun o' ho' hlt => ?_⟩
  rcases hcases with ⟨-, rfl⟩ | ⟨hstate, hlock, rfl | ⟨hlt', rfl, ack, hack, hend⟩⟩
  · exact absurd hlt (Nat.not_lt_zero o')
  · exact ⟨((hsent hstate).1 o' ho' hlt).1, ((hsent hstate).1 o' ho' hlt).2.mono⟩
  · rcases lt_or_eq_of_lt_chunkEnd (hlock.aligned.dvd hlt') ho' hlt with hlt'' | rfl
    · exact ⟨((hsent hstate).1 o' ho' hlt'').1, ((hsent hstate).1 o' ho' hlt'').2.mono⟩
    · exact ⟨(hsent hstate).2 hlt',
        ⟨_, List.mem_append_right _ List.mem_cons_self, ack, hack, hend⟩⟩

/-! ### The chunking of a run -/

/-- The transfer fields of a session at work on `F`. -/
structure AtChunk (F : FileContent) (s : Session) : Prop where
  offset : payloadSize ∣ s.mOffset ∨ s.mOffset = F.bytes.length
  size : s.mLastChunkSize = min payloadSize (F.bytes.length - s.mOffset)
  done : s.mLastChunkDone = true ↔ s.mOffset = F.bytes.length
  cache_data : s.mOffset < F.bytes.length →
    s.mLastPacketCache = (ControlPacket.data
      { transferId := s.mTransferMetadata.id
        offset := UInt64.ofNat s.mOffset
        payload := (F.bytes.drop s.mOffset).take s.mLastChunkSize }).serializeToString
  cache_done : s.mOffset = F.bytes.length →
    s.mLastPacketCache = (ControlPacket.done
      { transferId := s.mTransferMetadata.id
        finalSize := s.mTransferMetadata.fileSize
        fileHash := s.mTransferMetadata.fileHash }).serializeToString

theorem take_min_length {α : Type} (xs : List α) (n : ℕ) :
    xs.take (min n xs.length) = xs.take n := by
  rcases Nat.le_total n xs.length with h | h
  · rw [Nat.min_eq_left h]
  · rw [Nat.min_eq_right h, List.take_of_length_le h, List.take_length]

theorem Session.Lockstep.atChunk {s : Session} (h : s.Lockstep F.bytes) : AtChunk F s where
  offset := h.aligned
  size := h.size
  done := by
    rw [h.done, decide_eq_true_eq]
    exact ⟨fun hge => Nat.le_antisymm h.offset_le hge, fun heq => Nat.le_of_eq heq.symm⟩
  cache_data hlt := by
    have hpayload : (F.bytes.drop s.mOffset).take s.mLastChunkSize
        = (F.bytes.drop s.mOffset).take payloadSize := by
      rw [h.size, ← List.length_drop, take_min_length]
    rw [h.cache, packetAt_of_lt hlt, hpayload]
    rfl
  cache_done heq := by
    rw [h.cache, packetAt_of_ge (Nat.le_of_eq heq.symm)]
    rfl

/-- **The sender's chunking, against any peer.** For every file and every sequence of datagrams:

* a session that transfers is where `AtChunk` says;
* every `DataChunk` ever sent, for the first time or again, is a slice of the file at a multiple of
  the payload size, and the chunks at all earlier multiples were sent before it;
* these slices, in order, make up the file;
* `Done` is sent only when every chunk was, and an acknowledgement of its end was received. -/
theorem session_chunks {F : FileContent} {ds : List Delivery}
    (hds : ∀ d ∈ ds, ∀ G, d.env.files path = some G → G = F) :
    let es := Machine.trace Session.step (Session.fresh remote path) ds
    let s := Machine.final Session.step (Session.fresh remote path) ds
    (s.mState = .transferring → AtChunk F s) ∧
    (∀ pre e post, es = pre ++ e :: post → ∀ g ∈ e.output, ∀ c : DataChunk,
      g.bytes = (ControlPacket.data c).serializeToString →
        payloadSize ∣ c.offset.toNat ∧ c.offset.toNat < F.bytes.length ∧
        c.payload = (F.bytes.drop c.offset.toNat).take payloadSize ∧
        ∀ o, payloadSize ∣ o → o < c.offset.toNat → ChunkSent pre o) ∧
    ((List.range ((F.bytes.length + payloadSize - 1) / payloadSize)).flatMap
        (fun i => (F.bytes.drop (payloadSize * i)).take payloadSize) = F.bytes) ∧
    (∀ pre e post, es = pre ++ e :: post → ∀ g ∈ e.output, ∀ m : Done,
      g.bytes = (ControlPacket.done m).serializeToString →
        ∀ o, payloadSize ∣ o → o < F.bytes.length →
          ChunkSent pre o ∧
          AckReceived (pre ++ [e]) (o + min payloadSize (F.bytes.length - o))) := by
  refine ⟨fun hstate => ?_, ?_, ?_, ?_⟩
  · obtain ⟨G, rfl, hlock⟩ := (Session.inv_final remote hds).lockstep hstate
    exact hlock.atChunk
  · intro pre e post hsplit g hg c hc
    obtain ⟨o, t, hle, haligned, hbytes, hpre⟩ :=
      exists_packetAt_of_sent remote hds hsplit hg (Or.inl ⟨c, hc⟩)
    obtain ⟨hlt, rfl⟩ := eq_chunkAt_of_packetAt (hbytes.symm.trans hc)
    rw [chunkAt_offset hle]
    exact ⟨haligned.dvd hlt, hlt, rfl, fun o' ho' hlt' => (hpre o' ho' hlt').1⟩
  · rw [chunks_partition, List.take_of_length_le (le_payloadSize_mul_chunks _)]
  · intro pre e post hsplit g hg m hm o ho hlt
    obtain ⟨o', t, -, -, hbytes, hpre⟩ :=
      exists_packetAt_of_sent remote hds hsplit hg (Or.inr ⟨m, hm⟩)
    have hge := (eq_doneOf_of_packetAt (hbytes.symm.trans hm)).1
    exact hpre o ho (Nat.lt_of_lt_of_le hlt hge)

/-- The file at the path is the sample file throughout. -/
theorem sampleRun_files : ∀ d ∈ sampleRun ++ [sampleGet],
    ∀ G, d.env.files samplePath = some G → G = sampleFile := by
  intro d hd G hG
  simp only [sampleRun, List.cons_append, List.nil_append, List.mem_cons, List.not_mem_nil,
    or_false] at hd
  rcases hd with rfl | rfl <;> exact (Option.some.inj hG).symm

theorem session_chunks_sample :
    (Machine.final Session.step sampleFresh (sampleRun ++ [sampleGet])).mState = .transferring ∧
      AtChunk sampleFile (Machine.final Session.step sampleFresh (sampleRun ++ [sampleGet])) := by
  have hstate : (Machine.final Session.step sampleFresh (sampleRun ++ [sampleGet])).mState
      = .transferring := by
    rw [Machine.final_append, final_sampleRun]
    exact step_sampleSession_get.1
  exact ⟨hstate, (session_chunks samplePeer sampleRun_files).1 hstate⟩

end Zapshare
