import Zapshare.Session
import Mathlib.Algebra.Order.Group.Nat

/-!
# What one call of `handle_packet` can do

The transfer half of the session depends on one number. Once the transfer has started, the size
and the kind of the last packet, the packet cache and the flags of the file stream are all
functions of `m_offset` and of the file; `Session.Lockstep` says which. The lemmas of this file
list, state by state, everything a datagram can make of a session, so that no later proof has to
unfold a handler.

## The stream

The one stream is read again and again, also after it has hit the end of the file. A short read
sets `failbit`, and from then on `seekg` and `read` do nothing; `Lockstep.reading` records that
this happens exactly on the last chunk and behind it, where nothing is left to read.

## Main results

* `Session.sendNextChunk_eq` — a chunk is read, or `Done` is sent, according to `m_offset` alone
* `Session.step_waitingHello`, `step_authenticated`, `step_transferring` — the inversion lemmas
* `Session.inv_final` — the invariant of every run against any peer
-/

namespace Zapshare

open Wire Stream UdpConfig

/-! ### The file in chunks -/

/-- The end of the chunk that starts at `o`; the file is over where a chunk ends at its start. -/
def chunkEnd (F : Bytes) (o : ℕ) : ℕ := o + min payloadSize (F.length - o)

/-- The chunk of `F` that starts at `o`. -/
def chunkAt (t : Transfers) (F : Bytes) (o : ℕ) : DataChunk :=
  { transferId := t.id, offset := UInt64.ofNat o, payload := (F.drop o).take payloadSize }

/-- The end of the transfer `t`. -/
def doneOf (t : Transfers) : Done :=
  { transferId := t.id, finalSize := t.fileSize, fileHash := t.fileHash }

/-- The packet that answers for offset `o`. -/
def packetAt (t : Transfers) (F : Bytes) (o : ℕ) : ControlPacket :=
  if o < F.length then .data (chunkAt t F o) else .done (doneOf t)

variable {F : Bytes} {o : ℕ}

theorem chunkEnd_le (h : o ≤ F.length) : chunkEnd F o ≤ F.length := by
  rw [chunkEnd]
  omega

theorem chunkEnd_of_ge (h : F.length ≤ o) : chunkEnd F o = o := by
  rw [chunkEnd]
  omega

/-- A chunk starts on a multiple of the payload size; behind the last one the file is over. -/
def Aligned (F : Bytes) (o : ℕ) : Prop := payloadSize ∣ o ∨ o = F.length

theorem aligned_zero : Aligned F 0 := Or.inl (Nat.dvd_zero _)

theorem aligned_chunkEnd (h : Aligned F o) (hle : o ≤ F.length) : Aligned F (chunkEnd F o) := by
  rcases h with ⟨k, rfl⟩ | rfl
  · rcases Nat.le_total payloadSize (F.length - payloadSize * k) with hp | hp
    · left
      rw [chunkEnd, Nat.min_eq_left hp]
      exact ⟨k + 1, by ring⟩
    · right
      rw [chunkEnd, Nat.min_eq_right hp]
      omega
  · exact Or.inr (chunkEnd_of_ge (Nat.le_refl _))

theorem take_append_chunk : F.take o ++ (F.drop o).take payloadSize = F.take (chunkEnd F o) := by
  rw [← List.take_add, chunkEnd]
  rcases Nat.le_total payloadSize (F.length - o) with h | h
  · rw [Nat.min_eq_left h]
  · rw [Nat.min_eq_right h, List.take_of_length_le (by omega), List.take_of_length_le (by omega)]

theorem chunk_length : ((F.drop o).take payloadSize).length = min payloadSize (F.length - o) := by
  rw [List.length_take, List.length_drop]

/-! ### Reading the next chunk -/

/-- The stream after the read at offset `o`. -/
structure ReadAt (F : Bytes) (o : ℕ) (file : IfStream UInt8) : Prop where
  isOpen : file.isOpen = true
  content : file.content = F
  failbit : file.failbit = decide (F.length - o < payloadSize)

/-- The session with `o` as its offset, after the packet for `o` was sent. -/
def Session.sentAt (s : Session) (F : Bytes) (o : ℕ) (file : IfStream UInt8) : Session :=
  { s with
    mFile := file
    mOffset := o
    mLastChunkSize := min payloadSize (F.length - o)
    mLastChunkDone := decide (F.length ≤ o)
    mLastPacketCache := (packetAt s.mTransferMetadata F o).serializeToString }

/-- **`send_next_chunk`.** The stream may have failed, but only once the file is over. -/
theorem Session.sendNextChunk_eq {s : Session} (hopen : s.mFile.isOpen = true)
    (hcontent : s.mFile.content = F) (hfail : s.mFile.failbit = true → F.length ≤ s.mOffset) :
    ∃ file, ReadAt F s.mOffset file ∧
      s.sendNextChunk = (s.sentAt F s.mOffset file,
        s.sendMessage (packetAt s.mTransferMetadata F s.mOffset).serializeToString) := by
  have hpos := payloadSize_pos
  rcases hf : s.mFile.failbit with _ | _
  · -- the stream is good: the read returns the chunk, which is empty exactly at the end
    have hread := IfStream.read_seekg hopen hf s.mOffset payloadSize
    rw [hcontent] at hread
    refine ⟨_, ⟨rfl, rfl, IfStream.afterRead_failbit⟩, ?_⟩
    have hgcount : (IfStream.afterRead F s.mOffset payloadSize).gcount
        = min payloadSize (F.length - s.mOffset) := chunk_length
    simp only [sendNextChunk, hopen, Bool.not_true, Bool.false_eq_true, if_false, hread, hgcount]
    rcases Nat.lt_or_ge s.mOffset F.length with h | h
    · rw [if_neg (by omega)]
      simp only [packetAt, if_pos h, sentAt, Nat.not_le.mpr h, decide_false]
      rfl
    · rw [if_pos (by omega)]
      simp only [packetAt, if_neg (Nat.not_lt.mpr h), sentAt, h, decide_true,
        show F.length - s.mOffset = 0 by omega, Nat.min_zero]
      rfl
  · -- the stream has failed before: nothing is read, and nothing was left
    have h := hfail hf
    have hread := IfStream.read_seekg_of_fail hf s.mOffset payloadSize
    refine ⟨{ s.mFile with eofbit := false, gcount := 0 },
      ⟨hopen, hcontent, by simp [hf]; omega⟩, ?_⟩
    simp only [sendNextChunk, hopen, Bool.not_true, Bool.false_eq_true, if_false, hread, if_true]
    simp only [packetAt, if_neg (Nat.not_lt.mpr h), sentAt, h, decide_true,
      show F.length - s.mOffset = 0 by omega, Nat.min_zero]
    rfl

/-! ### The transfer in lockstep -/

/-- Everything about a transfer that has started, as functions of the file and `m_offset`. -/
structure Session.Lockstep (F : Bytes) (s : Session) : Prop where
  offset_le : s.mOffset ≤ F.length
  aligned : Aligned F s.mOffset
  size : s.mLastChunkSize = min payloadSize (F.length - s.mOffset)
  done : s.mLastChunkDone = decide (F.length ≤ s.mOffset)
  cache : s.mLastPacketCache = (packetAt s.mTransferMetadata F s.mOffset).serializeToString
  reading : ReadAt F s.mOffset s.mFile

theorem Session.lockstep_sentAt (s : Session) {file : IfStream UInt8} (hle : o ≤ F.length)
    (ha : Aligned F o) (hfile : ReadAt F o file) : (s.sentAt F o file).Lockstep F :=
  ⟨hle, ha, rfl, rfl, rfl, hfile⟩

theorem ControlPacket.serializeToString_ne_nil {p : ControlPacket} (h : p ≠ .notSet) :
    p.serializeToString ≠ [] := by
  have key : ∀ r : Record, encodeRecords [r] ≠ [] := fun r =>
    List.ne_nil_of_length_pos (by simpa using encodeRecord_length_pos r)
  cases p with
  | notSet => exact absurd rfl h
  | get m => exact key _
  | ack m => exact key _
  | data m => exact key _
  | done m => exact key _
  | error m => exact key _

theorem packetAt_ne_notSet (t : Transfers) (F : Bytes) (o : ℕ) : packetAt t F o ≠ .notSet := by
  rw [packetAt]
  split <;> simp

theorem Session.Lockstep.cache_ne_nil {s : Session} (h : s.Lockstep F) :
    s.mLastPacketCache ≠ [] := by
  rw [h.cache]
  exact ControlPacket.serializeToString_ne_nil (packetAt_ne_notSet _ _ _)

theorem Session.Lockstep.resendCurrentChunk {s : Session} (h : s.Lockstep F) :
    s.resendCurrentChunk = (s, s.sendMessage s.mLastPacketCache) := by
  rw [Session.resendCurrentChunk, if_neg h.cache_ne_nil]

theorem Session.Lockstep.expectedOffset {s : Session} (h : s.Lockstep F)
    (hF : F.length < 2 ^ 63) :
    (s.mOffset + s.mLastChunkSize) % 2 ^ 64 = chunkEnd F s.mOffset := by
  have := chunkEnd_le h.offset_le
  rw [h.size]
  exact Nat.mod_eq_of_lt (show chunkEnd F s.mOffset < 2 ^ 64 by omega)

/-- **`handle_ack` during a transfer.** An acknowledgement advances, closes, asks for the current
packet again, or does nothing. -/
theorem Session.Lockstep.handleAck {s : Session} (h : s.Lockstep F) (hF : F.length < 2 ^ 63)
    (hstate : s.mState = .transferring) (ack : Ack) :
    (ack.nextOffset.toNat = chunkEnd F s.mOffset ∧ F.length ≤ s.mOffset ∧
        s.handleAck ack = ({ s with mState := .closed }, [])) ∨
    (ack.nextOffset.toNat = chunkEnd F s.mOffset ∧ s.mOffset < F.length ∧
        ∃ file, ReadAt F (chunkEnd F s.mOffset) file ∧
          s.handleAck ack = (s.sentAt F (chunkEnd F s.mOffset) file, s.sendMessage
            (packetAt s.mTransferMetadata F (chunkEnd F s.mOffset)).serializeToString)) ∨
    (ack.nextOffset.toNat = s.mOffset ∧ s.mOffset < F.length ∧
        s.handleAck ack = (s, s.sendMessage s.mLastPacketCache)) ∨
    (ack.nextOffset.toNat ≠ chunkEnd F s.mOffset ∧ ack.nextOffset.toNat ≠ s.mOffset ∧
        s.handleAck ack = (s, [])) := by
  rw [Session.handleAck, if_neg (not_not.mpr hstate)]
  simp only [h.expectedOffset hF]
  rcases eq_or_ne ack.nextOffset.toNat (chunkEnd F s.mOffset) with hexp | hexp
  · rw [if_pos hexp]
    rcases Nat.lt_or_ge s.mOffset F.length with hlt | hge
    · right; left
      refine ⟨hexp, hlt, ?_⟩
      have hfail : s.mFile.failbit = true → F.length ≤ chunkEnd F s.mOffset := by
        rw [h.reading.failbit, decide_eq_true_eq, chunkEnd]
        omega
      obtain ⟨file, hfile, heq⟩ :=
        sendNextChunk_eq (s := { s with mOffset := chunkEnd F s.mOffset }) h.reading.isOpen
          h.reading.content hfail
      exact ⟨file, hfile, by rw [if_neg (by simpa [h.done] using hlt)]; exact heq⟩
    · left
      exact ⟨hexp, hge, by rw [if_pos (by simpa [h.done] using hge)]⟩
  · rw [if_neg hexp]
    rcases eq_or_ne ack.nextOffset.toNat s.mOffset with hcur | hcur
    · right; right; left
      have hlt : s.mOffset < F.length := by
        by_contra hge
        exact hexp (hcur.trans (chunkEnd_of_ge (Nat.not_lt.mp hge)).symm)
      rw [if_pos hcur]
      exact ⟨hcur, hlt, h.resendCurrentChunk⟩
    · right; right; right
      exact ⟨hexp, hcur, by rw [if_neg hcur]⟩

/-! ### What is sent at an offset -/

theorem packetAt_of_lt {t : Transfers} {F : Bytes} {o : ℕ} (h : o < F.length) :
    packetAt t F o = .data (chunkAt t F o) := if_pos h

theorem packetAt_of_ge {t : Transfers} {F : Bytes} {o : ℕ} (h : F.length ≤ o) :
    packetAt t F o = .done (doneOf t) := if_neg (Nat.not_lt.mpr h)

theorem packetAt_isTransferPacket (t : Transfers) (F : Bytes) (o : ℕ) :
    IsTransferPacket (packetAt t F o).serializeToString := by
  rw [packetAt]
  split
  · exact Or.inl ⟨_, rfl⟩
  · exact Or.inr ⟨_, rfl⟩

theorem chunkAt_offset {F : FileContent} {t : Transfers} {o : ℕ} (h : o ≤ F.bytes.length) :
    (chunkAt t F.bytes o).offset.toNat = o := by
  have := F.length_lt
  exact UInt64.toNat_ofNat_of_lt (Nat.lt_of_le_of_lt h (Nat.lt_trans this (by decide)))

theorem data_ne_done (c : DataChunk) (m : Done) :
    (ControlPacket.data c).serializeToString ≠ (ControlPacket.done m).serializeToString := fun h =>
  absurd (messageField_injective h).1 (by decide)

/-- A packet for an offset is a chunk only if it is the chunk there. -/
theorem eq_chunkAt_of_packetAt {t : Transfers} {F : Bytes} {o : ℕ} {c : DataChunk}
    (h : (packetAt t F o).serializeToString = (ControlPacket.data c).serializeToString) :
    o < F.length ∧ c = chunkAt t F o := by
  rcases Nat.lt_or_ge o F.length with hlt | hge
  · rw [packetAt_of_lt hlt] at h
    exact ⟨hlt, (serialize_data_injective h).symm⟩
  · rw [packetAt_of_ge hge] at h
    exact absurd h.symm (data_ne_done _ _)

/-- A packet for an offset is a `Done` only if the file is over there. -/
theorem eq_doneOf_of_packetAt {t : Transfers} {F : Bytes} {o : ℕ} {m : Done}
    (h : (packetAt t F o).serializeToString = (ControlPacket.done m).serializeToString) :
    F.length ≤ o ∧ m = doneOf t := by
  rcases Nat.lt_or_ge o F.length with hlt | hge
  · rw [packetAt_of_lt hlt] at h
    exact absurd h (data_ne_done _ _)
  · rw [packetAt_of_ge hge] at h
    exact ⟨hge, (serialize_done_injective h).symm⟩

/-! ### One step, state by state -/

/-- The datagram asks nothing of a session in state `s`: it is no control packet, or one only the
receiver reacts to, or an acknowledgement of an offset that is not the current one. -/
def Session.Inert (s : Session) (data : Bytes) : Prop :=
  match ControlPacket.parseFromString data with
  | some (.get _) => False
  | some (.error _) => False
  | some (.ack ack) =>
    s.mState = .transferring → ack.nextOffset.toNat ≠ (s.mOffset + s.mLastChunkSize) % 2 ^ 64 ∧
      ack.nextOffset.toNat ≠ s.mOffset
  | _ => True

/-- **A session that waits for a hello.** It waits on, closes with an error, or authenticates the
peer whose token the central server knows. -/
theorem Session.step_waitingHello {s : Session} (hstate : s.mState = .waitingHello) (d : Delivery) :
    (∃ out, s.step d = ({ s with mRemoteEndpoint := d.sender }, out) ∧
        ∀ g ∈ out, ∃ m : HandshakeError, m.code ≠ 0 ∧
          g.bytes = (HandshakePacket.error m).serializeToString) ∨
    (∃ m : HandshakeError, m.code ≠ 0 ∧
        s.step d = ({ s with mRemoteEndpoint := d.sender, mState := .closed },
          [⟨d.sender, (HandshakePacket.error m).serializeToString⟩])) ∨
    (∃ hello t, HandshakePacket.parseFromString d.data = some (.clientHello hello) ∧
        hello.version = protocolVersion1 ∧ hello.token ≠ [] ∧
        d.env.getTransferMetadata hello.token = some t ∧
        s.step d
          = ({ s with
              mRemoteEndpoint := d.sender
              mTransferMetadata := t
              mState := .authenticated },
              [⟨d.sender,
                (HandshakePacket.serverHello (serverHello d.env hello)).serializeToString⟩])) := by
  have hone : (1 : Int32) ≠ 0 := by decide
  have hfour : (4 : Int32) ≠ 0 := by decide
  simp only [Session.step, handlePacket, hstate, handleHandshakePacket]
  split
  · exact Or.inl ⟨[], rfl, by simp⟩
  · rename_i hello hparse
    split
    · exact Or.inr (Or.inl ⟨⟨ErrorCode.badPacket, _⟩, hfour, rfl⟩)
    · rename_i hversion
      split
      · exact Or.inr (Or.inl ⟨⟨ErrorCode.invalidToken, _⟩, hone, rfl⟩)
      · rename_i htoken
        rcases ht : d.env.getTransferMetadata hello.token with _ | t
        · simp only [validateToken, ht]
          exact Or.inr (Or.inl ⟨⟨ErrorCode.invalidToken, _⟩, hone, rfl⟩)
        · simp only [validateToken, ht]
          exact Or.inr (Or.inr ⟨hello, t, hparse, not_not.mp hversion, htoken, ht, rfl⟩)
  · refine Or.inl ⟨_, rfl, fun g hg => ?_⟩
    obtain rfl := List.mem_singleton.mp hg
    exact ⟨⟨ErrorCode.badPacket, _⟩, hfour, rfl⟩

theorem Session.step_control {s : Session}
    (hstate : s.mState = .authenticated ∨ s.mState = .transferring) (d : Delivery) :
    s.step d = s.handleControlPacket d.env d.data := by
  rcases hstate with h | h <;> simp only [Session.step, handlePacket, h]

/-- **An authenticated session.** A request starts the transfer of the file, or closes the session
when there is none; an error closes it; everything else is inert. -/
theorem Session.step_authenticated {s : Session} (hstate : s.mState = .authenticated)
    (hoffset : s.mOffset = 0) (d : Delivery) :
    (s.Inert d.data ∧ s.step d = (s, [])) ∨
    (∃ e, ControlPacket.parseFromString d.data = some (.error e) ∧
        s.step d = ({ s with mState := .closed }, [])) ∨
    (∃ get m, ControlPacket.parseFromString d.data = some (.get get) ∧
        d.env.files s.mFilePath = none ∧
        s.step d = ({ s with mState := .closed, mFileId := s.fileId, mFile := .closed },
          [⟨s.mRemoteEndpoint, (ControlPacket.error m).serializeToString⟩])) ∨
    (∃ get file, ∃ F : FileContent, ControlPacket.parseFromString d.data = some (.get get) ∧
        d.env.files s.mFilePath = some F ∧ ReadAt F.bytes 0 file ∧
        s.step d
          = ({ s with mState := .transferring, mFileId := s.fileId }.sentAt F.bytes 0 file,
              s.sendMessage (packetAt s.mTransferMetadata F.bytes 0).serializeToString)) := by
  rw [s.step_control (Or.inl hstate)]
  rcases hparse : ControlPacket.parseFromString d.data with _ | (_ | get | ack | _ | _ | e) <;>
    simp only [Inert, handleControlPacket, hparse]
  case some.get =>
    right; right
    simp only [handleGetRequest, hstate, if_true, Env.openFile]
    rcases hfile : d.env.files s.mFilePath with _ | F
    · exact Or.inl ⟨get, _, rfl, rfl, rfl⟩
    · obtain ⟨file, hread, heq⟩ := sendNextChunk_eq (F := F.bytes)
        (s := { s with mFileId := s.fileId, mFile := .opened F.bytes, mState := .transferring })
        rfl rfl (by simp [IfStream.opened])
      simp only [hoffset] at hread
      refine Or.inr ⟨get, file, F, rfl, rfl, hread, ?_⟩
      simp only [hoffset] at heq ⊢
      exact heq
  case some.ack => exact Or.inl ⟨by simp [hstate], by simp [handleAck, hstate]⟩
  case some.error => exact Or.inr (Or.inl ⟨e, rfl, trivial⟩)
  all_goals exact Or.inl ⟨trivial, trivial⟩

/-- **A request to an authenticated session** starts the transfer when the file can be opened, and
closes the session when it cannot. -/
theorem Session.step_get_authenticated {s : Session} (hstate : s.mState = .authenticated)
    (hoffset : s.mOffset = 0) {d : Delivery} {get : GetRequest}
    (hparse : ControlPacket.parseFromString d.data = some (.get get)) :
    (∃ F : FileContent, ∃ file, d.env.files s.mFilePath = some F ∧ ReadAt F.bytes 0 file ∧
      s.step d
        = ({ s with mState := .transferring, mFileId := s.fileId }.sentAt F.bytes 0 file,
            s.sendMessage (packetAt s.mTransferMetadata F.bytes 0).serializeToString)) ∨
    (d.env.files s.mFilePath = none ∧ (s.step d).1.mState = .closed ∧
      ∃ m, (s.step d).2 = s.sendControlPacket (.error m)) := by
  rcases Session.step_authenticated hstate hoffset d with
    ⟨hinert, -⟩ | ⟨e, herror, -⟩ | ⟨get', m, -, hfile, heq⟩ | ⟨get', file, F, -, hfile, hread, heq⟩
  · simp [Session.Inert, hparse] at hinert
  · simp [hparse] at herror
  · exact Or.inr ⟨hfile, by rw [heq], m, by rw [heq]; rfl⟩
  · exact Or.inl ⟨F, file, hfile, hread, heq⟩

/-- **A session that transfers.** It is left as it was, sends the current packet again, advances to
the next chunk, or closes. -/
theorem Session.step_transferring {s : Session} (hstate : s.mState = .transferring)
    (h : s.Lockstep F) (hF : F.length < 2 ^ 63) (d : Delivery) :
    (s.Inert d.data ∧ s.step d = (s, [])) ∨
    (((∃ get, ControlPacket.parseFromString d.data = some (.get get)) ∨
          ∃ ack, ControlPacket.parseFromString d.data = some (.ack ack) ∧
            ack.nextOffset.toNat = s.mOffset ∧ s.mOffset < F.length) ∧
        s.step d = (s, s.sendMessage s.mLastPacketCache)) ∨
    (∃ ack file, ControlPacket.parseFromString d.data = some (.ack ack) ∧
        ack.nextOffset.toNat = chunkEnd F s.mOffset ∧ s.mOffset < F.length ∧
        ReadAt F (chunkEnd F s.mOffset) file ∧
        s.step d = (s.sentAt F (chunkEnd F s.mOffset) file, s.sendMessage
          (packetAt s.mTransferMetadata F (chunkEnd F s.mOffset)).serializeToString)) ∨
    (((∃ e, ControlPacket.parseFromString d.data = some (.error e)) ∨
          ∃ ack, ControlPacket.parseFromString d.data = some (.ack ack) ∧
            ack.nextOffset.toNat = F.length ∧ s.mOffset = F.length) ∧
        s.step d = ({ s with mState := .closed }, [])) := by
  rw [s.step_control (Or.inr hstate)]
  rcases hparse : ControlPacket.parseFromString d.data with _ | (_ | get | ack | _ | _ | e) <;>
    simp only [Inert, handleControlPacket, hparse]
  case some.get =>
    refine Or.inr (Or.inl ⟨Or.inl ⟨get, rfl⟩, ?_⟩)
    simp [handleGetRequest, hstate, h.resendCurrentChunk]
  case some.ack =>
    rcases h.handleAck hF hstate ack with
      ⟨hexp, hge, heq⟩ | ⟨hexp, hlt, file, hfile, heq⟩ | ⟨hcur, hlt, heq⟩ | ⟨hexp, hcur, heq⟩
    · have hend : s.mOffset = F.length := Nat.le_antisymm h.offset_le hge
      rw [chunkEnd_of_ge hge, hend] at hexp
      exact Or.inr (Or.inr (Or.inr ⟨Or.inr ⟨ack, rfl, hexp, hend⟩, heq⟩))
    · exact Or.inr (Or.inr (Or.inl ⟨ack, file, rfl, hexp, hlt, hfile, heq⟩))
    · exact Or.inr (Or.inl ⟨Or.inr ⟨ack, rfl, hcur, hlt⟩, heq⟩)
    · left
      rw [h.expectedOffset hF]
      exact ⟨fun _ => ⟨hexp, hcur⟩, heq⟩
  case some.error => exact Or.inr (Or.inr (Or.inr ⟨Or.inl ⟨e, rfl⟩, trivial⟩))
  all_goals exact Or.inl ⟨trivial, trivial⟩

theorem Session.step_closed {s : Session} (hstate : s.mState = .closed) (d : Delivery) :
    s.step d = (s, []) := by
  simp only [Session.step, handlePacket, hstate]

/-! ### The invariant of every run

`K` is what is known of the files that may be found at the path; the session reads the file it
found when the transfer started. -/

/-- The path stays what it was, the offset is zero before the transfer, and during it the session is
in step with the file that it reads. -/
structure Session.Inv (K : FileContent → Prop) (path : Bytes) (s : Session) : Prop where
  path : s.mFilePath = path
  offset_zero : s.mState = .waitingHello ∨ s.mState = .authenticated → s.mOffset = 0
  lockstep : s.mState = .transferring → ∃ F : FileContent, K F ∧ s.Lockstep F.bytes

/-- The session `Server::run` creates. -/
def Session.fresh (remote : Endpoint) (path : Bytes) : Session :=
  { mRemoteEndpoint := remote, mFilePath := path }

variable {K : FileContent → Prop} {path : Bytes}

theorem Session.inv_fresh (remote : Endpoint) : (fresh remote path).Inv K path :=
  ⟨rfl, fun _ => rfl, by simp [fresh]⟩

theorem Session.Inv.step {s : Session} (h : s.Inv K path) {d : Delivery}
    (hd : ∀ F, d.env.files path = some F → K F) : (s.step d).1.Inv K path := by
  cases hstate : s.mState with
  | waitingHello =>
    have hoffset := h.offset_zero (Or.inl hstate)
    rcases Session.step_waitingHello hstate d with
      ⟨out, heq, -⟩ | ⟨m, -, heq⟩ | ⟨hello, t, -, -, -, -, heq⟩ <;> rw [heq]
    · exact ⟨h.path, fun _ => hoffset, fun ht => by simp [hstate] at ht⟩
    · exact ⟨h.path, fun _ => hoffset, fun ht => by simp at ht⟩
    · exact ⟨h.path, fun _ => hoffset, fun ht => by simp at ht⟩
  | authenticated =>
    have hoffset := h.offset_zero (Or.inr hstate)
    rcases Session.step_authenticated hstate hoffset d with
      ⟨-, heq⟩ | ⟨e, -, heq⟩ | ⟨get, m, -, -, heq⟩ | ⟨get, file, F, -, hfile, hread, heq⟩ <;>
      rw [heq]
    · exact h
    · exact ⟨h.path, fun _ => hoffset, fun ht => by simp at ht⟩
    · exact ⟨h.path, fun _ => hoffset, fun ht => by simp at ht⟩
    · refine ⟨h.path, fun ht => by simp [sentAt] at ht, fun _ => ⟨F, hd F (h.path ▸ hfile), ?_⟩⟩
      exact Session.lockstep_sentAt _ (Nat.zero_le _) aligned_zero hread
  | transferring =>
    obtain ⟨F, hK, hlock⟩ := h.lockstep hstate
    rcases Session.step_transferring hstate hlock F.length_lt d with
      ⟨-, heq⟩ | ⟨-, heq⟩ | ⟨ack, file, -, -, -, hread, heq⟩ | ⟨-, heq⟩ <;> rw [heq]
    · exact h
    · exact h
    · refine ⟨h.path, fun ht => by simp [sentAt, hstate] at ht, fun _ => ⟨F, hK, ?_⟩⟩
      exact Session.lockstep_sentAt _ (chunkEnd_le hlock.offset_le)
        (aligned_chunkEnd hlock.aligned hlock.offset_le) hread
    · exact ⟨h.path, fun ht => by simp at ht, fun ht => by simp at ht⟩
  | closed =>
    rw [Session.step_closed hstate]
    exact h

/-- **The invariant of every run.** -/
theorem Session.inv_final (remote : Endpoint) {ds : List Delivery}
    (hds : ∀ d ∈ ds, ∀ F, d.env.files path = some F → K F) :
    (Machine.final Session.step (fresh remote path) ds).Inv K path :=
  Machine.final_invariant (fun _ _ h hd => h.step hd) (inv_fresh remote) hds

/-- **Every chunk and every `Done` that is sent** answers for the offset the session is at, or for
the next one, on an acknowledgement of the current chunk. -/
theorem Session.Inv.output_cases {s : Session} (h : s.Inv K path) {d : Delivery}
    (hd : ∀ F, d.env.files path = some F → K F) {g : Datagram} (hg : g ∈ (s.step d).2)
    (ht : IsTransferPacket g.bytes) :
    ∃ F : FileContent, ∃ o, K F ∧ o ≤ F.bytes.length ∧ Aligned F.bytes o ∧
      g.bytes = (packetAt s.mTransferMetadata F.bytes o).serializeToString ∧
      (s.mState = .authenticated ∧ o = 0 ∨
        s.mState = .transferring ∧ s.Lockstep F.bytes ∧ (o = s.mOffset ∨
          s.mOffset < F.bytes.length ∧ o = chunkEnd F.bytes s.mOffset ∧
            ∃ ack, ControlPacket.parseFromString d.data = some (.ack ack) ∧
              ack.nextOffset.toNat = chunkEnd F.bytes s.mOffset)) := by
  cases hstate : s.mState with
  | waitingHello =>
    exfalso
    rcases Session.step_waitingHello hstate d with
      ⟨out, heq, hout⟩ | ⟨m, hcode, heq⟩ | ⟨hello, t, -, -, -, -, heq⟩ <;> rw [heq] at hg
    · obtain ⟨m, hcode, hm⟩ := hout g hg
      exact not_isTransferPacket_handshakeError hcode (hm ▸ ht)
    · obtain rfl := List.mem_singleton.mp hg
      exact not_isTransferPacket_handshakeError hcode ht
    · obtain rfl := List.mem_singleton.mp hg
      exact not_isTransferPacket_serverHello _ ht
  | authenticated =>
    rcases Session.step_authenticated hstate (h.offset_zero (Or.inr hstate)) d with
      ⟨-, heq⟩ | ⟨e, -, heq⟩ | ⟨get, m, -, -, heq⟩ | ⟨get, file, F, -, hfile, -, heq⟩ <;>
      rw [heq] at hg
    · simp at hg
    · simp at hg
    · obtain rfl := List.mem_singleton.mp hg
      exact absurd ht (not_isTransferPacket_controlError m)
    · obtain rfl := List.mem_singleton.mp hg
      exact ⟨F, 0, hd F (h.path ▸ hfile), Nat.zero_le _, aligned_zero, rfl, Or.inl ⟨rfl, rfl⟩⟩
  | transferring =>
    obtain ⟨F, hK, hlock⟩ := h.lockstep hstate
    rcases Session.step_transferring hstate hlock F.length_lt d with
      ⟨-, heq⟩ | ⟨-, heq⟩ | ⟨ack, file, hack, hend, hlt, -, heq⟩ | ⟨-, heq⟩ <;> rw [heq] at hg
    · simp at hg
    · obtain rfl := List.mem_singleton.mp hg
      exact ⟨F, s.mOffset, hK, hlock.offset_le, hlock.aligned, hlock.cache,
        Or.inr ⟨rfl, hlock, Or.inl rfl⟩⟩
    · obtain rfl := List.mem_singleton.mp hg
      exact ⟨F, chunkEnd F.bytes s.mOffset, hK, chunkEnd_le hlock.offset_le,
        aligned_chunkEnd hlock.aligned hlock.offset_le, rfl,
        Or.inr ⟨rfl, hlock, Or.inr ⟨hlt, rfl, ack, hack, hend⟩⟩⟩
    · simp at hg
  | closed =>
    rw [Session.step_closed hstate] at hg
    simp at hg

end Zapshare
