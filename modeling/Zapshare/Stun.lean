import Zapshare.Download
import Zapshare.Lib.Tlv

/-!
# Where am I?

`utils.hpp`: `get_public_endpoint_for_socket` asks a STUN server which endpoint its packets come
from, and looks through the attributes of whatever is received next for an `XOR-MAPPED-ADDRESS`.
The loop is a program that reads bytes of the receive buffer, so that it can be told which; behind
the bytes that were received the buffer holds anything, and so does what is behind the buffer.

## Main results

* `run_stunLoop` — the loop reads the first attribute that `Tlv.find` finds
* `stun_decodes` — what a server writes is what is returned
* `stun_reads_iff` — which datagrams are read beyond their end
* `stun_own_answer_iff` — which datagrams are taken for the answer though they are not
-/

namespace Zapshare

open Wire Tlv

/-- The buffer of 1024 bytes after `receive_from`, and the number of bytes received. -/
structure StunBuffer where
  bytes : ℕ → UInt8
  n : ℕ
  n_le : n ≤ 1024

/-- A datagram has been received. -/
structure StunBuffer.Received (b : StunBuffer) (datagram : Bytes) : Prop where
  n : b.n = datagram.length
  holds : Holds b.bytes 0 datagram

namespace Utils

/-- A program that reads bytes of the buffer. -/
abbrev StunRead := Program ℕ (fun _ => UInt8) Fault

/-- The request; the last bytes of it are `rand()`. -/
def stunRequest (rand : Vector UInt8 12) : Bytes :=
  [0, 1, 0, 0, 0x21, 0x12, 0xA4, 0x42] ++ rand.toList

/-- `(buf[i] << 8) | buf[i + 1]`. -/
def readWord (i : ℕ) : StunRead UInt16 := do
  let hi ← .perform i
  let lo ← .perform (i + 1)
  return join hi lo

/-- The magic cookie. -/
def xk : UInt32 := 0x2112A442

/-- The text of an address. -/
def addressText (a : UInt32) : Bytes :=
  decimal (a >>> 24).toNat ++ text "." ++ decimal (a >>> 16 &&& 0xFF).toNat ++ text "." ++
    decimal (a >>> 8 &&& 0xFF).toNat ++ text "." ++ decimal (a &&& 0xFF).toNat

/-- The address and the port in the attribute at position `i`. -/
def readAddress (i : ℕ) : StunRead (Bytes × UInt16) := do
  let port ← readWord (i + 6)
  let p := (port.toUInt32 ^^^ xk >>> 16).toUInt16
  let b₃ ← .perform (i + 8)
  let b₂ ← .perform (i + 9)
  let b₁ ← .perform (i + 10)
  let b₀ ← .perform (i + 11)
  let a := join32 b₃ b₂ b₁ b₀ ^^^ xk
  return (addressText a, p)

/-- The loop, from position `i` on. It throws if it comes to the end. -/
def stunLoop (n i : ℕ) : StunRead (Bytes × UInt16) :=
  if i + 8 ≤ n then do
    let t ← readWord i
    let l ← readWord (i + 2)
    if t = 0x20 ∧ 8 ≤ l then readAddress i
    else stunLoop n (i + (4 + l.toNat + (4 - l.toNat % 4) % 4))
  else .lift (.error .thrown)
termination_by n - i

/-- `get_public_endpoint_for_socket`, once `n` bytes have been received. The local address and port
are the socket's. -/
def getPublicEndpointForSocket (localIp : Bytes) (localPort : UInt16) (n : ℕ) :
    StunRead PublicEndpoint := do
  let (ip, port) ← stunLoop n 20
  return { ip, port, localIp, localPort }

/-- What it returns, and the positions it has read. -/
def publicEndpoint (localIp : Bytes) (localPort : UInt16) (b : StunBuffer) :
    Except Fault PublicEndpoint × List ℕ :=
  (getPublicEndpointForSocket localIp localPort b.n).run (Program.readAt b.bytes) []

/-! ### The loop is a search -/

/-- The attributes the loop stops at. -/
def isXorMapped (t l : UInt16) : Bool := t = 0x20 ∧ 8 ≤ l

/-- The address and the port in the attribute at position `i` of a buffer. -/
def addressAt (buf : ℕ → UInt8) (i : ℕ) : Bytes × UInt16 :=
  (addressText (dword buf (i + 8) ^^^ xk), ((word buf (i + 6)).toUInt32 ^^^ xk >>> 16).toUInt16)

variable {buf : ℕ → UInt8} {n i : ℕ} {log : List ℕ}

theorem run_readWord (buf : ℕ → UInt8) (i : ℕ) (log : List ℕ) :
    (readWord i).run (Program.readAt buf) log = (.ok (word buf i), log ++ [i, i + 1]) := by
  have hrun : (readWord i).run (Program.readAt buf) log
      = (.ok (word buf i), log ++ [i] ++ [i + 1]) := rfl
  rw [hrun, List.append_assoc, List.singleton_append]

theorem run_readAddress (buf : ℕ → UInt8) (i : ℕ) (log : List ℕ) :
    (readAddress i).run (Program.readAt buf) log
      = (.ok (addressAt buf i), log ++ [i + 6, i + 7, i + 8, i + 9, i + 10, i + 11]) := by
  rw [readAddress, Program.run_bind_ok (run_readWord buf (i + 6) log)]
  have hrun : ∀ log' : List ℕ, log' ++ [i + 8] ++ [i + 9] ++ [i + 10] ++ [i + 11]
      = log' ++ [i + 8, i + 9, i + 10, i + 11] := by simp
  exact congrArg (Prod.mk _) ((hrun _).trans (List.append_assoc _ _ _))

theorem run_stunLoop_of_lt (h : n < i + 8) :
    (stunLoop n i).run (Program.readAt buf) log = (.error .thrown, log) := by
  rw [stunLoop, if_neg (Nat.not_le.mpr h)]
  rfl

/-- One turn of the loop. -/
theorem run_stunLoop_of_le (h : i + 8 ≤ n) :
    (stunLoop n i).run (Program.readAt buf) log
      = if isXorMapped (word buf i) (word buf (i + 2)) then
          (readAddress i).run (Program.readAt buf) (log ++ [i, i + 1, i + 2, i + 3])
        else
          (stunLoop n (i + stride (word buf (i + 2)).toNat)).run (Program.readAt buf)
            (log ++ [i, i + 1, i + 2, i + 3]) := by
  have hlog : log ++ [i, i + 1] ++ [i + 2, i + 2 + 1] = log ++ [i, i + 1, i + 2, i + 3] := by
    rw [List.append_assoc]
    rfl
  rw [stunLoop, if_pos h, Program.run_bind_ok (run_readWord buf i log),
    Program.run_bind_ok (run_readWord buf (i + 2) _), hlog]
  simp only [isXorMapped, decide_eq_true_eq, stride, pad]
  split <;> rfl

/-- **The loop is a search.** It reads the first attribute that is found, or throws. Up to there it
reads bytes that have been received, and no more than there are. -/
theorem run_stunLoop (buf : ℕ → UInt8) (n i : ℕ) (log : List ℕ) :
    ∃ reads : List ℕ, (∀ k ∈ reads, k < n) ∧ reads.length ≤ n - i ∧
      (stunLoop n i).run (Program.readAt buf) log =
        match find isXorMapped buf n i with
        | some j => (.ok (addressAt buf j),
            log ++ reads ++ [j + 6, j + 7, j + 8, j + 9, j + 10, j + 11])
        | none => (.error .thrown, log ++ reads) := by
  induction i using find.induct isXorMapped buf n generalizing log with
  | case1 i hle hfound =>
    refine ⟨[i, i + 1, i + 2, i + 3], by simp; omega, by simp; omega, ?_⟩
    rw [find_of_found hle hfound, run_stunLoop_of_le hle, if_pos hfound, run_readAddress]
  | case2 i hle hfound ih =>
    obtain ⟨reads, hreads, hlength, hrun⟩ := ih (log ++ [i, i + 1, i + 2, i + 3])
    refine ⟨[i, i + 1, i + 2, i + 3] ++ reads, ?_, ?_, ?_⟩
    · exact List.forall_mem_append.mpr ⟨by simp; omega, hreads⟩
    · have hstride := le_stride (word buf (i + 2)).toNat
      simp only [List.length_append, List.length_cons, List.length_nil]
      omega
    · rw [find_of_not_found hle (Bool.not_eq_true _ ▸ hfound), run_stunLoop_of_le hle,
        if_neg hfound, hrun]
      simp only [List.append_assoc]
  | case3 i hle =>
    refine ⟨[], List.forall_mem_nil _, Nat.zero_le _, ?_⟩
    rw [find_of_lt (Nat.not_le.mp hle), run_stunLoop_of_lt (Nat.not_le.mp hle), List.append_nil]

/-- What is returned for the attribute at position `i`. -/
def endpointAt (localIp : Bytes) (localPort : UInt16) (buf : ℕ → UInt8) (i : ℕ) :
    PublicEndpoint where
  ip := (addressAt buf i).1
  port := (addressAt buf i).2
  localIp := localIp
  localPort := localPort

variable {localIp : Bytes} {localPort : UInt16}

/-- What is found is returned. -/
theorem run_getPublicEndpointForSocket (localIp : Bytes) (localPort : UInt16) (buf : ℕ → UInt8)
    (n : ℕ) :
    ∃ reads : List ℕ, (∀ k ∈ reads, k < n) ∧ reads.length ≤ n ∧
      (getPublicEndpointForSocket localIp localPort n).run (Program.readAt buf) [] =
        match find isXorMapped buf n 20 with
        | some j => (.ok (endpointAt localIp localPort buf j),
            reads ++ [j + 6, j + 7, j + 8, j + 9, j + 10, j + 11])
        | none => (.error .thrown, reads) := by
  obtain ⟨reads, hreads, hlength, hrun⟩ := run_stunLoop buf n 20 []
  refine ⟨reads, hreads, Nat.le_trans hlength (Nat.sub_le n 20), ?_⟩
  rw [getPublicEndpointForSocket, Program.run_bind, hrun]
  cases find isXorMapped buf n 20 <;> rfl

theorem publicEndpoint_of_some {b : StunBuffer} {j : ℕ}
    (h : find isXorMapped b.bytes b.n 20 = some j) :
    (publicEndpoint localIp localPort b).1 = .ok (endpointAt localIp localPort b.bytes j) := by
  obtain ⟨reads, -, -, hrun⟩ := run_getPublicEndpointForSocket localIp localPort b.bytes b.n
  rw [publicEndpoint, hrun, h]

theorem publicEndpoint_of_none {b : StunBuffer} (h : find isXorMapped b.bytes b.n 20 = none) :
    (publicEndpoint localIp localPort b).1 = .error .thrown := by
  obtain ⟨reads, -, -, hrun⟩ := run_getPublicEndpointForSocket localIp localPort b.bytes b.n
  rw [publicEndpoint, hrun, h]

/-! ### What a server writes -/

/-- The text of an address of four bytes: the bytes in decimal, with dots between them. -/
def dottedDecimal (octets : Bytes) : Bytes :=
  List.intercalate (text ".") (octets.map fun b => decimal b.toNat)

/-- The attribute with the address `a` and the port `p`, in the family of IPv4. -/
def xorMappedAddress (a : UInt32) (p : UInt16) : Attribute where
  type := 0x20
  value := [0, 1] ++ ofWord (p ^^^ 0x2112) ++ ofDword (a ^^^ 0x2112A442)
  padding := []
  length_lt := by simp [ofWord, ofDword]
  padding_length := by simp [ofWord, ofDword, pad]

/-- A Binding Success response. -/
def stunResponse (txid : Vector UInt8 12) (attributes : List Attribute) : Bytes :=
  let body := attributes.flatMap Attribute.bytes
  ofWord 0x0101 ++ ofWord (UInt16.ofNat body.length) ++ ofDword 0x2112A442 ++ txid.toList ++ body

theorem length_stunResponse (txid : Vector UInt8 12) (attributes : List Attribute) :
    (stunResponse txid attributes).length
      = 20 + (attributes.flatMap Attribute.bytes).length := by
  have hheader : (ofWord 0x0101 ++ ofWord (UInt16.ofNat
      (attributes.flatMap Attribute.bytes).length) ++ ofDword 0x2112A442 ++ txid.toList).length
        = 20 := by
    simp [ofWord, ofDword]
  rw [stunResponse, List.length_append, hheader]

/-- The attributes stand behind the header. -/
theorem holds_attributes {b : StunBuffer} {txid : Vector UInt8 12} {attributes : List Attribute}
    (h : b.Received (stunResponse txid attributes)) :
    Holds b.bytes 20 (attributes.flatMap Attribute.bytes) := by
  have hholds := (holds_append.mp h.holds).2
  simpa [ofWord, ofDword] using hholds

/-- The text that is written is that of the four bytes. -/
theorem addressText_eq (a : UInt32) : addressText a = dottedDecimal (ofDword a) := by
  have hlt := a.toNat_lt
  have hmask : ∀ x : UInt32, (x &&& 0xFF).toNat = x.toUInt8.toNat := by
    intro x
    rw [UInt32.toNat_and, UInt32.toNat_toUInt8]
    exact Nat.and_two_pow_sub_one_eq_mod x.toNat 8
  have hhigh : (a >>> 24).toNat = (a >>> 24).toUInt8.toNat := by
    simp [Nat.shiftRight_eq_div_pow]
    omega
  rw [addressText, hhigh, hmask, hmask, hmask]
  simp [dottedDecimal, ofDword, List.intercalate]

/-- The address and the port are what the server has written. -/
theorem addressAt_of_holds {buf : ℕ → UInt8} {i : ℕ} {a : UInt32} {p : UInt16} {rest : Bytes}
    (h : Holds buf i ((xorMappedAddress a p).bytes ++ rest)) :
    addressAt buf i = (dottedDecimal (ofDword a), p) := by
  have hvalue := ((xorMappedAddress a p).words_of_holds h).2.2
  simp only [xorMappedAddress, List.append_assoc] at hvalue
  have hport := word_of_holds (holds_append.mp hvalue).2
  have haddress := dword_of_holds (holds_append.mp (holds_append.mp hvalue).2).2
  have hlow : (xk >>> 16).toUInt16 = 0x2112 := by decide
  have hword : word buf (i + 6) = p ^^^ 0x2112 := hport
  have hdword : dword buf (i + 8) = a ^^^ xk := haddress
  rw [addressAt, hword, hdword, UInt32.toUInt16_xor, UInt16.toUInt16_toUInt32, hlow,
    UInt16.xor_assoc, UInt32.xor_assoc, UInt16.xor_self, UInt32.xor_self, UInt16.xor_zero,
    UInt32.xor_zero, addressText_eq]

end Utils

open Utils

/-- **What a server writes is what is returned.** Whatever attributes come before and after, the
address and the port are those of the `XOR-MAPPED-ADDRESS`; without one there is an exception. The
loop ends after no more reads than there are bytes, but for the six of the address. -/
theorem stun_decodes (localIp : Bytes) (localPort : UInt16) :
    (∀ (a : UInt32) (p : UInt16) (txid : Vector UInt8 12) (before after : List Attribute)
      (b : StunBuffer), (∀ x ∈ before, x.type ≠ 0x20) →
      b.Received (stunResponse txid (before ++ xorMappedAddress a p :: after)) →
      (publicEndpoint localIp localPort b).1
        = .ok ⟨dottedDecimal (ofDword a), p, localIp, localPort⟩) ∧
    (∀ (txid : Vector UInt8 12) (attributes : List Attribute) (b : StunBuffer),
      (∀ x ∈ attributes, x.type ≠ 0x20) → b.Received (stunResponse txid attributes) →
      (publicEndpoint localIp localPort b).1 = .error .thrown) ∧
    ∀ (buf : ℕ → UInt8) (n : ℕ),
      ((getPublicEndpointForSocket localIp localPort n).run (Program.readAt buf) []).2.length
        ≤ n + 6 := by
  have hother : ∀ attributes : List Attribute, (∀ x ∈ attributes, x.type ≠ 0x20) →
      ∀ x ∈ attributes, ∀ length, isXorMapped x.type length = false := by
    intro attributes h x hx length
    simp [isXorMapped, h x hx]
  refine ⟨?_, ?_, ?_⟩
  · intro a p txid before after b hbefore hreceived
    have hattributes := holds_attributes hreceived
    rw [List.flatMap_append, List.flatMap_cons] at hattributes
    have hhere := (holds_append.mp hattributes).2
    obtain ⟨htype, hlength, -⟩ := (xorMappedAddress a p).words_of_holds hhere
    have hn := hreceived.n
    have hsize : (xorMappedAddress a p).bytes.length = 12 := rfl
    rw [length_stunResponse, List.flatMap_append, List.flatMap_cons, List.length_append,
      List.length_append, hsize] at hn
    have hfind : find isXorMapped b.bytes b.n 20
        = some (20 + (before.flatMap Attribute.bytes).length) := by
      rw [find_attributes before (hother before hbefore) hattributes (by omega)]
      have hle : 8 ≤ word b.bytes (20 + (before.flatMap Attribute.bytes).length + 2) := by
        rw [UInt16.le_iff_toNat_le, hlength]
        exact Nat.le_refl 8
      refine find_of_found (by omega) (decide_eq_true ⟨htype, hle⟩)
    rw [publicEndpoint_of_some hfind, endpointAt, addressAt_of_holds hhere]
  · intro txid attributes b hattributes hreceived
    refine publicEndpoint_of_none (find_eq_none attributes (hother attributes hattributes)
      (holds_attributes hreceived) ?_)
    rw [hreceived.n, length_stunResponse]
  · intro buf n
    obtain ⟨reads, -, hlength, hrun⟩ := run_getPublicEndpointForSocket localIp localPort buf n
    rw [hrun]
    cases find isXorMapped buf n 20 with
    | none => exact Nat.le_add_right_of_le hlength
    | some j => simpa using hlength

/-- A buffer with a datagram in it, and zeros behind. -/
def StunBuffer.ofDatagram (datagram : Bytes) (h : datagram.length ≤ 1024) : StunBuffer where
  bytes k := datagram.getD k 0
  n := datagram.length
  n_le := h

theorem StunBuffer.received_ofDatagram (datagram : Bytes) (h : datagram.length ≤ 1024) :
    (StunBuffer.ofDatagram datagram h).Received datagram where
  n := rfl
  holds k hk := by
    rw [Nat.zero_add]
    simp [StunBuffer.ofDatagram, hk]

/-- An attribute of another type, whose value has five bytes. -/
def sampleSoftware : Attribute where
  type := 0x8022
  value := text "stun1"
  padding := [0, 0, 0]
  length_lt := by decide
  padding_length := by decide

/-- An answer with one attribute before the address and one after it. -/
def sampleStunResponse : Bytes :=
  stunResponse (.replicate 12 7)
    ([sampleSoftware] ++ xorMappedAddress 0xCB007105 5173 :: [sampleSoftware])

theorem stun_decodes_sample :
    (publicEndpoint (text "192.168.1.2") 4000
        (.ofDatagram sampleStunResponse (by decide))).1
      = .ok ⟨text "203.0.113.5", 5173, text "192.168.1.2", 4000⟩ := by
  have hreceived := StunBuffer.received_ofDatagram sampleStunResponse (by decide)
  exact (stun_decodes (text "192.168.1.2") 4000).1 0xCB007105 5173 (.replicate 12 7)
    [sampleSoftware] [sampleSoftware] _ (by decide) hreceived

/-! ### What is read -/

/-- Only bytes that have been received are read, and nothing else makes a difference. -/
structure ReadsReceived (localIp : Bytes) (localPort : UInt16) (b : StunBuffer) : Prop where
  reads : ∀ k ∈ (publicEndpoint localIp localPort b).2, k < b.n
  same : ∀ bytes, (∀ k < b.n, b.bytes k = bytes k) →
    publicEndpoint localIp localPort { b with bytes := bytes } = publicEndpoint localIp localPort b

/-- The attribute an endpoint is taken from has been received as a whole. -/
def TakenWhole (localIp : Bytes) (localPort : UInt16) (b : StunBuffer) : Prop :=
  ∀ ep, (publicEndpoint localIp localPort b).1 = .ok ep → ∃ i,
    find isXorMapped b.bytes b.n 20 = some i ∧ ep = endpointAt localIp localPort b.bytes i ∧
      i + 4 + (word b.bytes (i + 2)).toNat ≤ b.n

theorem reads_received_iff (localIp : Bytes) (localPort : UInt16) (b : StunBuffer) :
    ReadsReceived localIp localPort b ↔
      ∀ i, find isXorMapped b.bytes b.n 20 = some i → i + 12 ≤ b.n := by
  obtain ⟨reads, hreads, -, hrun⟩ := run_getPublicEndpointForSocket localIp localPort b.bytes b.n
  constructor
  · intro hreceived i hfind
    rw [hfind] at hrun
    have hlast := hreceived.reads (i + 11)
    rw [publicEndpoint, hrun] at hlast
    exact hlast (by simp)
  · intro hcond
    have hbounds : ∀ k ∈ (publicEndpoint localIp localPort b).2, k < b.n := by
      rw [publicEndpoint, hrun]
      cases hfind : find isXorMapped b.bytes b.n 20 with
      | none => exact hreads
      | some i =>
        have hle := hcond i hfind
        exact List.forall_mem_append.mpr ⟨hreads, by simp; omega⟩
    refine ⟨hbounds, ?_⟩
    intro bytes hsame
    exact Program.run_readAt_congr _ fun k hk => hsame k (hbounds k hk)

/-- **What is read beyond the datagram.** All that is read has been received exactly if the first
twelve bytes of the attribute at which the loop stops have been. Moreover the attribute has been
received as a whole exactly if it ends within the datagram; the loop does not look. -/
theorem stun_reads_iff (localIp : Bytes) (localPort : UInt16) (b : StunBuffer) :
    (ReadsReceived localIp localPort b ↔
      ∀ i, find isXorMapped b.bytes b.n 20 = some i → i + 12 ≤ b.n) ∧
    (ReadsReceived localIp localPort b ∧ TakenWhole localIp localPort b ↔
      ∀ i, find isXorMapped b.bytes b.n 20 = some i →
        i + 4 + (word b.bytes (i + 2)).toNat ≤ b.n) := by
  refine ⟨reads_received_iff localIp localPort b, ?_⟩
  constructor
  · rintro ⟨-, hwhole⟩ i hfind
    obtain ⟨j, hfind', -, hle⟩ := hwhole _ (publicEndpoint_of_some hfind)
    rw [hfind] at hfind'
    obtain rfl := Option.some.inj hfind'
    exact hle
  · intro hcond
    constructor
    · rw [reads_received_iff]
      intro i hfind
      have hle := hcond i hfind
      have hfound := of_decide_eq_true (find_eq_some hfind).2.2
      have hlength := UInt16.le_iff_toNat_le.mp hfound.2
      rw [show (8 : UInt16).toNat = 8 from rfl] at hlength
      omega
    · intro ep hep
      cases hfind : find isXorMapped b.bytes b.n 20 with
      | none =>
        rw [publicEndpoint_of_none hfind] at hep
        cases hep
      | some i =>
        rw [publicEndpoint_of_some hfind] at hep
        exact ⟨i, rfl, (Except.ok.inj hep).symm, hcond i hfind⟩

/-- The header of an answer, and the first eight bytes of the attribute with the address. -/
def sampleCutOff : Bytes :=
  (stunResponse (.replicate 12 7) [xorMappedAddress 0xCB007105 5173]).take 28

/-- The address in the answer is what the buffer held before. -/
theorem stun_reads_beyond :
    let b := StunBuffer.ofDatagram sampleCutOff (by decide)
    31 ∈ (publicEndpoint (text "192.168.1.2") 4000 b).2 ∧ b.n = 28 ∧
      ¬ ReadsReceived (text "192.168.1.2") 4000 b := by
  intro b
  have hfind : find isXorMapped b.bytes b.n 20 = some 20 :=
    find_of_found (by decide) (by decide)
  obtain ⟨reads, -, -, hrun⟩ :=
    run_getPublicEndpointForSocket (text "192.168.1.2") 4000 b.bytes b.n
  rw [hfind] at hrun
  have hread : 31 ∈ (publicEndpoint (text "192.168.1.2") 4000 b).2 := by
    rw [publicEndpoint, hrun]
    simp
  refine ⟨hread, by decide, ?_⟩
  intro hreceived
  exact absurd (hreceived.reads 31 hread) (by decide)

/-! ### Who is believed -/

/-- The datagram is the answer to the request with these random bytes: a Binding Success response
with the same transaction id, and among its attributes there is an address in the family of
IPv4. -/
structure OwnAnswer (rand : Vector UInt8 12) (b : StunBuffer) : Prop where
  size : 20 ≤ b.n
  type : word b.bytes 0 = 0x0101
  /-- The magic cookie and the transaction id are those of the request. -/
  echo : ∀ k, 4 ≤ k → k < 20 → (stunRequest rand)[k]? = some (b.bytes k)
  address : ∃ i, Walk b.bytes b.n 20 i ∧ i + 4 + (word b.bytes (i + 2)).toNat ≤ b.n ∧
    isXorMapped (word b.bytes i) (word b.bytes (i + 2)) = true ∧ b.bytes (i + 5) = 1

/-- **Whoever answers is believed**: an endpoint is returned for own answers only exactly if the
datagram is one, or if no attribute in it looks like an address. -/
theorem stun_own_answer_iff (localIp : Bytes) (localPort : UInt16) (rand : Vector UInt8 12)
    (b : StunBuffer) :
    ((∃ ep, (publicEndpoint localIp localPort b).1 = .ok ep) → OwnAnswer rand b) ↔
      find isXorMapped b.bytes b.n 20 = none ∨ OwnAnswer rand b := by
  cases hfind : find isXorMapped b.bytes b.n 20 with
  | none =>
    rw [publicEndpoint_of_none hfind]
    exact iff_of_true (by simp) (Or.inl rfl)
  | some i =>
    rw [publicEndpoint_of_some hfind]
    simp

/-- An answer to somebody else's request: the transaction id is not the one of the request. -/
theorem stun_believes_other_answer :
    let b := StunBuffer.ofDatagram
      (stunResponse (.replicate 12 7) [xorMappedAddress 0xCB007105 5173]) (by decide)
    (∃ ep, (publicEndpoint (text "192.168.1.2") 4000 b).1 = .ok ep) ∧
      ¬ OwnAnswer (.replicate 12 8) b := by
  intro b
  have hfind : find isXorMapped b.bytes b.n 20 = some 20 :=
    find_of_found (by decide) (by decide)
  refine ⟨⟨_, publicEndpoint_of_some hfind⟩, ?_⟩
  intro hown
  exact absurd (hown.echo 8 (by decide) (by decide)) (by decide)

end Zapshare
