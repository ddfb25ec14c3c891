import Zapshare.Session

/-!
# The secure channel

`session_crypto.cpp`: session keys from two ephemeral key pairs, and packets sealed under them. A
sealed packet is a nonce followed by what the AEAD makes of the plaintext, with the sequence number
as associated data.

What is used of libsodium is a `Sodium`. Its functions write through pointers into strings of the
caller; a write past the end of the string is a `Failure` here, and so are a `CHECK` that fires, a
throw, a `substr` from past the end and a size subtraction that wraps.

## Main results

* `channel_round_trip` — what one side seals the other side opens, in both directions
* `opens_iff` — what `decrypt_packet` opens is what `encrypt_packet` could have sealed
-/

namespace Zapshare

open Wire

/-- The ways in which the functions of this file do not return. -/
inductive Failure
  | check
  | runtimeError
  | outOfRange
  | wrapped
  | overrun
  deriving DecidableEq, Repr

namespace Crypto

/-- `crypto_kx_PUBLICKEYBYTES`. -/
def kxPublicKeyBytes : ℕ := 32

/-- `crypto_kx_SECRETKEYBYTES`. -/
def kxSecretKeyBytes : ℕ := 32

/-- `crypto_kx_SESSIONKEYBYTES`. -/
def kxSessionKeyBytes : ℕ := 32

/-- `crypto_aead_xchacha20poly1305_ietf_KEYBYTES`. -/
def aeadKeyBytes : ℕ := 32

/-- `crypto_aead_xchacha20poly1305_ietf_NPUBBYTES`. -/
def aeadNonceBytes : ℕ := 24

/-- `crypto_aead_xchacha20poly1305_ietf_ABYTES`. -/
def aeadTagBytes : ℕ := 16

end Crypto

open Crypto

/-- What is used of libsodium. What a function writes through its pointers is its result, in the
order of the pointers; `none` is a return value other than zero. -/
structure Sodium where
  init : Int32
  /-- The key pair that some random bytes give: the public key, then the private one. -/
  kxKeypair : Bytes → Option (Bytes × Bytes)
  /-- From the client's public and private key and the server's public key: rx, then tx. -/
  kxClientSessionKeys : Bytes → Bytes → Bytes → Option (Bytes × Bytes)
  /-- From the server's public and private key and the client's public key: rx, then tx. -/
  kxServerSessionKeys : Bytes → Bytes → Bytes → Option (Bytes × Bytes)
  /-- From the plaintext, the associated data, the nonce and the key. -/
  aeadEncrypt : Bytes → Bytes → Bytes → Bytes → Option Bytes
  /-- From the ciphertext, the associated data, the nonce and the key. -/
  aeadDecrypt : Bytes → Bytes → Bytes → Bytes → Option Bytes

/-- The key to send with, and the one to receive with. -/
structure SessionKeys where
  txKey : Bytes
  rxKey : Bytes
  deriving DecidableEq, Repr

/-! ### Strings -/

/-- `CHECK`. -/
def check (condition : Bool) : Except Failure Unit :=
  if condition then .ok () else .error .check

/-- A string of `n` zero bytes. -/
def zeros (n : ℕ) : Bytes := List.replicate n 0

/-- What is left in a string after a function wrote to the front of it. -/
def fill (buffer written : Bytes) : Except Failure Bytes :=
  if written.length ≤ buffer.length then .ok (written ++ buffer.drop written.length)
  else .error .overrun

/-- `std::string::substr(pos, count)`. -/
def substr (s : Bytes) (pos count : ℕ) : Except Failure Bytes :=
  if pos ≤ s.length then .ok ((s.drop pos).take count) else .error .outOfRange

/-- `std::string::substr(pos)`. -/
def substrFrom (s : Bytes) (pos : ℕ) : Except Failure Bytes := substr s pos s.length

/-- The difference of two sizes. -/
def sizeSub (a b : ℕ) : Except Failure ℕ := if b ≤ a then .ok (a - b) else .error .wrapped

/-- `std::string::resize`. -/
def resize (s : Bytes) (n : ℕ) : Bytes := s.take n ++ zeros (n - s.length)

theorem length_zeros (n : ℕ) : (zeros n).length = n := List.length_replicate

theorem fill_zeros {n : ℕ} {written : Bytes} (h : written.length = n) :
    fill (zeros n) written = .ok written := by
  subst h
  simp [fill, zeros]

theorem resize_self (s : Bytes) : resize s s.length = s := by simp [resize, zeros]

/-! ### Keys -/

/-- `ensure_libsodium_initialized`. -/
def ensureLibsodiumInitialized (sodium : Sodium) : Except Failure Unit :=
  if sodium.init < 0 then .error .runtimeError else .ok ()

/-- `generate_ephemeral_keypair`, from the random bytes that libsodium draws. -/
def generateEphemeralKeypair (sodium : Sodium) (random : Bytes) :
    Except Failure EphemeralKeyPair := do
  ensureLibsodiumInitialized sodium
  match sodium.kxKeypair random with
  | none => throw .runtimeError
  | some (pk, sk) =>
    let publicKey ← fill (zeros kxPublicKeyBytes) pk
    let privateKey ← fill (zeros kxSecretKeyBytes) sk
    check (publicKey.length = kxPublicKeyBytes)
    check (privateKey.length = kxSecretKeyBytes)
    return { publicKey := publicKey, privateKey := privateKey }

/-- `derive_client_keys`. -/
def deriveClientKeys (sodium : Sodium) (clientKeyPair : EphemeralKeyPair)
    (serverPublicKey : Bytes) : Except Failure SessionKeys := do
  ensureLibsodiumInitialized sodium
  check (clientKeyPair.privateKey.length = kxSecretKeyBytes)
  check (clientKeyPair.publicKey.length = kxPublicKeyBytes)
  if serverPublicKey.length ≠ kxPublicKeyBytes then throw .runtimeError
  match sodium.kxClientSessionKeys clientKeyPair.publicKey clientKeyPair.privateKey
      serverPublicKey with
  | none => throw .runtimeError
  | some (r, t) =>
    let rx ← fill (zeros kxSessionKeyBytes) r
    let tx ← fill (zeros kxSessionKeyBytes) t
    return { txKey := tx, rxKey := rx }

/-- `derive_server_keys`. -/
def deriveServerKeys (sodium : Sodium) (serverKeyPair : EphemeralKeyPair)
    (clientPublicKey : Bytes) : Except Failure SessionKeys := do
  ensureLibsodiumInitialized sodium
  check (serverKeyPair.privateKey.length = kxSecretKeyBytes)
  check (serverKeyPair.publicKey.length = kxPublicKeyBytes)
  if clientPublicKey.length ≠ kxPublicKeyBytes then throw .runtimeError
  match sodium.kxServerSessionKeys serverKeyPair.publicKey serverKeyPair.privateKey
      clientPublicKey with
  | none => throw .runtimeError
  | some (r, t) =>
    let rx ← fill (zeros kxSessionKeyBytes) r
    let tx ← fill (zeros kxSessionKeyBytes) t
    return { txKey := tx, rxKey := rx }

/-! ### Packets -/

/-- The bytes of a `uint64_t` in memory, the lowest first. -/
def sequenceBytes (sequence : UInt64) : Bytes :=
  (List.range 8).map fun i => UInt8.ofNat (sequence.toNat / 256 ^ i)

/-- `encrypt_packet`, when `randombytes_buf` draws `nonce`. -/
def encryptPacket (sodium : Sodium) (nonce : Vector UInt8 aeadNonceBytes) (plaintext key : Bytes)
    (sequence : UInt64) : Except Failure Bytes := do
  ensureLibsodiumInitialized sodium
  check (key.length = aeadKeyBytes)
  let ciphertext := zeros (plaintext.length + aeadTagBytes)
  match sodium.aeadEncrypt plaintext (sequenceBytes sequence) nonce.toList key with
  | none => throw .runtimeError
  | some c =>
    let ciphertext ← fill ciphertext c
    return nonce.toList ++ resize ciphertext c.length

/-- `decrypt_packet`: what it returns, and what `*plaintext` holds then. -/
def decryptPacket (sodium : Sodium) (ciphertext key : Bytes) (sequence : UInt64)
    (plaintext : Option Bytes) : Except Failure (Bool × Bytes) := do
  ensureLibsodiumInitialized sodium
  match plaintext with
  | none => throw .check
  | some plaintext =>
    check (key.length = aeadKeyBytes)
    if ciphertext.length < aeadNonceBytes + aeadTagBytes then return (false, plaintext)
    let nonce ← substr ciphertext 0 aeadNonceBytes
    let encryptedPayload ← substrFrom ciphertext aeadNonceBytes
    if encryptedPayload.length < aeadTagBytes then return (false, plaintext)
    let decryptedPayload := zeros (← sizeSub encryptedPayload.length aeadTagBytes)
    match sodium.aeadDecrypt encryptedPayload (sequenceBytes sequence) nonce key with
    | none => return (false, plaintext)
    | some m =>
      let decryptedPayload ← fill decryptedPayload m
      return (true, resize decryptedPayload m.length)

/-- Two sequence numbers with the same bytes are equal. -/
theorem sequenceBytes_injective : Function.Injective sequenceBytes := by
  intro a b h
  have hbyte : ∀ i < 8, a.toNat / 256 ^ i % 256 = b.toNat / 256 ^ i % 256 := by
    intro i hi
    have heq := congrArg (·[i]?) h
    simp only [sequenceBytes, List.getElem?_map, List.getElem?_range hi, Option.map_some,
      Option.some.injEq] at heq
    simpa using congrArg UInt8.toNat heq
  have h0 := hbyte 0 (by decide)
  have h1 := hbyte 1 (by decide)
  have h2 := hbyte 2 (by decide)
  have h3 := hbyte 3 (by decide)
  have h4 := hbyte 4 (by decide)
  have h5 := hbyte 5 (by decide)
  have h6 := hbyte 6 (by decide)
  have h7 := hbyte 7 (by decide)
  have ha := a.toNat_lt
  have hb := b.toNat_lt
  apply UInt64.toNat_inj.mp
  norm_num at h0 h1 h2 h3 h4 h5 h6 h7 ha hb
  omega

theorem length_sequenceBytes (sequence : UInt64) : (sequenceBytes sequence).length = 8 := by
  simp [sequenceBytes]

/-! ### What is known of libsodium -/

/-- The documented behaviour the round trip rests on. -/
structure Sodium.Documented (sodium : Sodium) : Prop where
  kxKeypair_length : ∀ {random pk sk}, sodium.kxKeypair random = some (pk, sk) →
    pk.length = kxPublicKeyBytes ∧ sk.length = kxSecretKeyBytes
  client_length : ∀ {pk sk other rx tx}, sodium.kxClientSessionKeys pk sk other = some (rx, tx) →
    rx.length = kxSessionKeyBytes ∧ tx.length = kxSessionKeyBytes
  server_length : ∀ {pk sk other rx tx}, sodium.kxServerSessionKeys pk sk other = some (rx, tx) →
    rx.length = kxSessionKeyBytes ∧ tx.length = kxSessionKeyBytes
  /-- The two sides of an exchange agree crosswise. -/
  crosswise : ∀ {random random' cpk csk spk ssk crx ctx srx stx},
    sodium.kxKeypair random = some (cpk, csk) → sodium.kxKeypair random' = some (spk, ssk) →
    sodium.kxClientSessionKeys cpk csk spk = some (crx, ctx) →
    sodium.kxServerSessionKeys spk ssk cpk = some (srx, stx) → crx = stx ∧ ctx = srx
  /-- Encryption succeeds, and decryption inverts it. -/
  decrypt_encrypt : ∀ (m ad : Bytes) {nonce key : Bytes},
    nonce.length = aeadNonceBytes → key.length = aeadKeyBytes →
    ∃ c, sodium.aeadEncrypt m ad nonce key = some c ∧ c.length = m.length + aeadTagBytes ∧
      sodium.aeadDecrypt c ad nonce key = some m

/-- An ideal AEAD, in a libsodium that could be initialised. -/
structure Sodium.Ideal (sodium : Sodium) : Prop where
  initialized : ¬ sodium.init < 0
  /-- Decryption succeeds on what encryption maps to the ciphertext, and on nothing else. -/
  decrypt_iff : ∀ {m c ad nonce key : Bytes},
    nonce.length = aeadNonceBytes → key.length = aeadKeyBytes →
    (sodium.aeadDecrypt c ad nonce key = some m ↔ sodium.aeadEncrypt m ad nonce key = some c)
  encrypt_length : ∀ {m c ad nonce key : Bytes},
    sodium.aeadEncrypt m ad nonce key = some c → c.length = m.length + aeadTagBytes
  /-- A ciphertext is valid for one associated data only, among those of the size of a sequence
  number. -/
  associated_data : ∀ {m m' c ad ad' nonce key : Bytes}, ad.length = 8 → ad'.length = 8 →
    sodium.aeadEncrypt m ad nonce key = some c → sodium.aeadEncrypt m' ad' nonce key = some c →
    ad = ad'

/-! ### A sample

What libsodium computes for two key pairs and one packet, and a toy cipher elsewhere. -/

/-- A private key of consecutive bytes. -/
def samplePrivateKey (first : ℕ) : Bytes := (List.range 32).map fun i => UInt8.ofNat (first + i)

/-- The public key that belongs to `samplePrivateKey 1`. -/
def sampleClientPublicKey : Bytes :=
  [7, 163, 124, 188, 20, 32, 147, 200, 183, 85, 220, 27, 16, 232, 108, 180, 38, 55, 74, 209, 106,
    168, 83, 237, 11, 223, 192, 178, 184, 109, 28, 124]

/-- The public key that belongs to `samplePrivateKey 33`. -/
def sampleServerPublicKey : Bytes :=
  [88, 105, 175, 244, 80, 84, 151, 50, 203, 170, 237, 94, 93, 249, 179, 10, 109, 163, 28, 176,
    229, 116, 43, 173, 90, 212, 161, 167, 104, 241, 166, 123]

/-- The key from the server to the client. -/
def sampleRxKey : Bytes :=
  [73, 167, 251, 153, 166, 191, 206, 171, 19, 128, 61, 244, 235, 22, 14, 141, 3, 113, 145, 112,
    239, 254, 77, 81, 244, 125, 76, 48, 46, 132, 19, 66]

/-- The key from the client to the server. -/
def sampleTxKey : Bytes :=
  [182, 226, 196, 146, 245, 23, 89, 5, 152, 185, 235, 244, 17, 75, 108, 51, 204, 141, 208, 169,
    248, 191, 124, 136, 221, 108, 192, 33, 49, 147, 230, 203]

/-- A nonce of consecutive bytes. -/
def sampleNonce : Vector UInt8 aeadNonceBytes := Vector.ofFn fun i => UInt8.ofNat i.val

/-- The ciphertext of the text `ok` with sequence number 1. -/
def sampleCiphertext : Bytes :=
  [129, 229, 91, 50, 97, 118, 146, 91, 100, 49, 213, 227, 8, 108, 26, 100, 168, 229]

/-- The toy cipher writes the associated data in front of the plaintext. -/
def toyTag (ad : Bytes) : Bytes := ad.take aeadTagBytes ++ zeros (aeadTagBytes - ad.length)

/-- The toy cipher opens what carries the associated data. -/
def toyOpen (c ad : Bytes) : Option Bytes :=
  if c.take aeadTagBytes = toyTag ad then some (c.drop aeadTagBytes) else none

/-- The sample ciphertext trades places with the toy ciphertext of the same packet. -/
def sampleTrade (nonce key : Bytes) : Equiv.Perm Bytes :=
  if nonce = sampleNonce.toList ∧ key = sampleTxKey then
    Equiv.swap (toyTag (sequenceBytes 1) ++ text "ok") sampleCiphertext
  else Equiv.refl Bytes

/-- A library that agrees with libsodium on the sample. -/
def sampleSodium : Sodium where
  init := 0
  kxKeypair random :=
    if random = samplePrivateKey 1 then some (sampleClientPublicKey, samplePrivateKey 1)
    else some (sampleServerPublicKey, samplePrivateKey 33)
  kxClientSessionKeys pk sk other :=
    if pk = sampleClientPublicKey ∧ sk = samplePrivateKey 1 ∧ other = sampleServerPublicKey then
      some (sampleRxKey, sampleTxKey)
    else none
  kxServerSessionKeys pk sk other :=
    if pk = sampleServerPublicKey ∧ sk = samplePrivateKey 33 ∧ other = sampleClientPublicKey then
      some (sampleTxKey, sampleRxKey)
    else none
  aeadEncrypt m ad nonce key := some (sampleTrade nonce key (toyTag ad ++ m))
  aeadDecrypt c ad nonce key := toyOpen ((sampleTrade nonce key).symm c) ad

theorem length_toyTag (ad : Bytes) : (toyTag ad).length = aeadTagBytes := by
  rw [toyTag, List.length_append, List.length_take, length_zeros]
  omega

theorem take_toyTag {ad : Bytes} (h : ad.length = 8) : (toyTag ad).take 8 = ad := by
  have htag : ad.take aeadTagBytes = ad := List.take_of_length_le (by rw [h]; decide)
  rw [toyTag, htag, List.take_left' h]

theorem toyOpen_eq_some {c ad m : Bytes} : toyOpen c ad = some m ↔ c = toyTag ad ++ m := by
  constructor
  · intro h
    obtain ⟨htag, hm⟩ := Option.ite_none_right_eq_some.mp h
    rw [← htag, ← Option.some.inj hm, List.take_append_drop]
  · rintro rfl
    rw [toyOpen, List.take_left' (length_toyTag ad), List.drop_left' (length_toyTag ad), if_pos rfl]

theorem length_sampleTrade (nonce key x : Bytes) :
    (sampleTrade nonce key x).length = x.length := by
  rw [sampleTrade]
  split
  · rw [Equiv.swap_apply_def]
    split
    · next h => rw [h]; decide
    · split
      · next h => rw [h]; decide
      · rfl
  · rfl

theorem sampleSodium_decrypt_iff {m c ad nonce key : Bytes} :
    sampleSodium.aeadDecrypt c ad nonce key = some m
      ↔ sampleSodium.aeadEncrypt m ad nonce key = some c := by
  rw [sampleSodium, toyOpen_eq_some, Equiv.symm_apply_eq, Option.some.injEq, eq_comm]

theorem sampleSodium_encrypt_length {m c ad nonce key : Bytes}
    (hc : sampleSodium.aeadEncrypt m ad nonce key = some c) :
    c.length = m.length + aeadTagBytes := by
  rw [← Option.some.inj hc, length_sampleTrade, List.length_append, length_toyTag, add_comm]

theorem sampleSodium_documented : sampleSodium.Documented where
  kxKeypair_length {random pk sk} h := by
    simp only [sampleSodium] at h
    split at h <;> cases h <;> decide
  client_length h := by
    obtain ⟨-, h⟩ := Option.ite_none_right_eq_some.mp h
    cases h
    decide
  server_length h := by
    obtain ⟨-, h⟩ := Option.ite_none_right_eq_some.mp h
    cases h
    decide
  crosswise _ _ hC hS := by
    obtain ⟨-, hC⟩ := Option.ite_none_right_eq_some.mp hC
    obtain ⟨-, hS⟩ := Option.ite_none_right_eq_some.mp hS
    cases hC
    cases hS
    exact ⟨rfl, rfl⟩
  decrypt_encrypt m ad nonce key _ _ :=
    ⟨_, rfl, sampleSodium_encrypt_length rfl, sampleSodium_decrypt_iff.mpr rfl⟩

theorem sampleSodium_ideal : sampleSodium.Ideal where
  initialized := by decide
  decrypt_iff _ _ := sampleSodium_decrypt_iff
  encrypt_length := sampleSodium_encrypt_length
  associated_data {m m' c ad ad' nonce key} had had' hc hc' := by
    have heq := (sampleTrade nonce key).injective
      ((Option.some.inj hc).trans (Option.some.inj hc').symm)
    have htag := (List.append_inj heq (by rw [length_toyTag, length_toyTag])).1
    rw [← take_toyTag had, htag, take_toyTag had']

/-! ### What the functions compute -/

section Computed

variable {sodium : Sodium} (hinit : ¬ sodium.init < 0)

include hinit

theorem ensureLibsodiumInitialized_ok : ensureLibsodiumInitialized sodium = .ok () :=
  if_neg hinit

theorem encryptPacket_of_some {nonce : Vector UInt8 aeadNonceBytes} {m key c : Bytes}
    {sequence : UInt64} (hkey : key.length = aeadKeyBytes)
    (hc : sodium.aeadEncrypt m (sequenceBytes sequence) nonce.toList key = some c)
    (hlen : c.length = m.length + aeadTagBytes) :
    encryptPacket sodium nonce m key sequence = .ok (nonce.toList ++ c) := by
  simp [encryptPacket, ensureLibsodiumInitialized_ok hinit, check, hkey, hc, fill_zeros hlen,
    resize_self]
  rfl

theorem encryptPacket_of_none {nonce : Vector UInt8 aeadNonceBytes} {m key : Bytes}
    {sequence : UInt64} (hkey : key.length = aeadKeyBytes)
    (hc : sodium.aeadEncrypt m (sequenceBytes sequence) nonce.toList key = none) :
    encryptPacket sodium nonce m key sequence = .error .runtimeError := by
  simp [encryptPacket, ensureLibsodiumInitialized_ok hinit, check, hkey, hc]
  rfl

/-- Anything shorter than a nonce and a tag is rejected. -/
theorem decryptPacket_short {x key plaintext : Bytes} {sequence : UInt64}
    (hkey : key.length = aeadKeyBytes) (hx : x.length < aeadNonceBytes + aeadTagBytes) :
    decryptPacket sodium x key sequence (some plaintext) = .ok (false, plaintext) := by
  simp [decryptPacket, ensureLibsodiumInitialized_ok hinit, check, hkey, hx]
  rfl

/-- Otherwise the AEAD decides, on the bytes after the nonce. -/
theorem decryptPacket_long {x key plaintext : Bytes} {sequence : UInt64}
    (hkey : key.length = aeadKeyBytes) (hx : aeadNonceBytes + aeadTagBytes ≤ x.length) :
    decryptPacket sodium x key sequence (some plaintext) =
      match sodium.aeadDecrypt (x.drop aeadNonceBytes) (sequenceBytes sequence)
          (x.take aeadNonceBytes) key with
      | none => .ok (false, plaintext)
      | some m =>
        (fill (zeros (x.length - aeadNonceBytes - aeadTagBytes)) m).map fun decrypted =>
          (true, resize decrypted m.length) := by
  have hnonce : aeadNonceBytes ≤ x.length := by omega
  have hpayload : aeadTagBytes ≤ (x.drop aeadNonceBytes).length := by
    rw [List.length_drop]
    omega
  have htake : substr x 0 aeadNonceBytes = .ok (x.take aeadNonceBytes) := by simp [substr]
  have hdrop : substrFrom x aeadNonceBytes = .ok (x.drop aeadNonceBytes) := by
    rw [substrFrom, substr, if_pos hnonce, List.take_of_length_le (by simp)]
  have hsub : sizeSub (x.drop aeadNonceBytes).length aeadTagBytes
      = .ok (x.length - aeadNonceBytes - aeadTagBytes) := by
    rw [sizeSub, if_pos hpayload, List.length_drop]
  simp only [decryptPacket, ensureLibsodiumInitialized_ok hinit, check, hkey, decide_true,
    if_true, if_neg (not_lt.mpr hx), htake, hdrop, bind, Except.bind, if_neg (not_lt.mpr hpayload),
    hsub]
  cases sodium.aeadDecrypt (x.drop aeadNonceBytes) (sequenceBytes sequence)
      (x.take aeadNonceBytes) key with
  | none => rfl
  | some m => cases fill (zeros (x.length - aeadNonceBytes - aeadTagBytes)) m <;> rfl

end Computed

/-! ### The round trip -/

/-- A generated key pair is what libsodium gave. -/
theorem kxKeypair_of_generated {sodium : Sodium} (h : sodium.Documented) {random : Bytes}
    {pair : EphemeralKeyPair} (hp : generateEphemeralKeypair sodium random = .ok pair) :
    ¬ sodium.init < 0 ∧ sodium.kxKeypair random = some (pair.publicKey, pair.privateKey) := by
  by_cases hinit : sodium.init < 0
  · simp [generateEphemeralKeypair, ensureLibsodiumInitialized, hinit, bind, Except.bind] at hp
  · refine ⟨hinit, ?_⟩
    simp only [generateEphemeralKeypair, ensureLibsodiumInitialized_ok hinit, bind,
      Except.bind] at hp
    cases hk : sodium.kxKeypair random with
    | none => simp [hk, throw, throwThe, MonadExceptOf.throw] at hp
    | some keys =>
      obtain ⟨pk, sk⟩ := keys
      obtain ⟨hpk, hsk⟩ := h.kxKeypair_length hk
      simp [hk, fill_zeros hpk, fill_zeros hsk, check, hpk, hsk, pure, Except.pure] at hp
      rw [← hp]

/-- The client's derivation, on keys of the sizes it checks. -/
theorem deriveClientKeys_eq {sodium : Sodium} (h : sodium.Documented) (hinit : ¬ sodium.init < 0)
    {pair : EphemeralKeyPair} {other : Bytes} (hpk : pair.publicKey.length = kxPublicKeyBytes)
    (hsk : pair.privateKey.length = kxSecretKeyBytes) (ho : other.length = kxPublicKeyBytes) :
    deriveClientKeys sodium pair other =
      match sodium.kxClientSessionKeys pair.publicKey pair.privateKey other with
      | none => .error .runtimeError
      | some (rx, tx) => .ok { txKey := tx, rxKey := rx } := by
  simp only [deriveClientKeys, ensureLibsodiumInitialized_ok hinit, check, hpk, hsk, ho,
    decide_true, if_true, bind, Except.bind, ne_eq, not_true_eq_false, if_false]
  cases hk : sodium.kxClientSessionKeys pair.publicKey pair.privateKey other with
  | none => rfl
  | some keys =>
    obtain ⟨hrx, htx⟩ := h.client_length hk
    simp only [fill_zeros hrx, fill_zeros htx]
    rfl

/-- The server's derivation, on keys of the sizes it checks. -/
theorem deriveServerKeys_eq {sodium : Sodium} (h : sodium.Documented) (hinit : ¬ sodium.init < 0)
    {pair : EphemeralKeyPair} {other : Bytes} (hpk : pair.publicKey.length = kxPublicKeyBytes)
    (hsk : pair.privateKey.length = kxSecretKeyBytes) (ho : other.length = kxPublicKeyBytes) :
    deriveServerKeys sodium pair other =
      match sodium.kxServerSessionKeys pair.publicKey pair.privateKey other with
      | none => .error .runtimeError
      | some (rx, tx) => .ok { txKey := tx, rxKey := rx } := by
  simp only [deriveServerKeys, ensureLibsodiumInitialized_ok hinit, check, hpk, hsk, ho,
    decide_true, if_true, bind, Except.bind, ne_eq, not_true_eq_false, if_false]
  cases hk : sodium.kxServerSessionKeys pair.publicKey pair.privateKey other with
  | none => rfl
  | some keys =>
    obtain ⟨hrx, htx⟩ := h.server_length hk
    simp only [fill_zeros hrx, fill_zeros htx]
    rfl

/-- What is sealed under a key is opened under the same key and sequence number. -/
theorem decryptPacket_encryptPacket {sodium : Sodium} (h : sodium.Documented)
    (hinit : ¬ sodium.init < 0) {key : Bytes} (hkey : key.length = aeadKeyBytes)
    (nonce : Vector UInt8 aeadNonceBytes) (m plaintext : Bytes) (sequence : UInt64) :
    ((encryptPacket sodium nonce m key sequence).bind fun x =>
      decryptPacket sodium x key sequence (some plaintext)) = .ok (true, m) := by
  have hnonce : nonce.toList.length = aeadNonceBytes := nonce.length_toList
  obtain ⟨c, hc, hlen, hd⟩ := h.decrypt_encrypt m (sequenceBytes sequence) hnonce hkey
  have hlong : aeadNonceBytes + aeadTagBytes ≤ (nonce.toList ++ c).length := by
    rw [List.length_append, hnonce, hlen]
    omega
  have hsize : (nonce.toList ++ c).length - aeadNonceBytes - aeadTagBytes = m.length := by
    rw [List.length_append, hnonce, hlen]
    omega
  rw [encryptPacket_of_some hinit hkey hc hlen, Except.bind, decryptPacket_long hinit hkey hlong,
    List.drop_left' hnonce, List.take_left' hnonce, hd, hsize]
  simp only [fill_zeros, Except.map, resize_self]

/-- What either side of a key exchange seals, the other side opens to the same plaintext. No
`CHECK` fires on the way. -/
theorem channel_round_trip {sodium : Sodium} (h : sodium.Documented) {random random' : Bytes}
    {c s : EphemeralKeyPair} (hc : generateEphemeralKeypair sodium random = .ok c)
    (hs : generateEphemeralKeypair sodium random' = .ok s) :
    deriveClientKeys sodium c s.publicKey ≠ .error .check ∧
      deriveServerKeys sodium s c.publicKey ≠ .error .check ∧
      ∀ {C S : SessionKeys}, deriveClientKeys sodium c s.publicKey = .ok C →
        deriveServerKeys sodium s c.publicKey = .ok S →
        ∀ (m plaintext : Bytes) (nonce : Vector UInt8 aeadNonceBytes) (n : UInt64),
          ((encryptPacket sodium nonce m C.txKey n).bind fun x =>
            decryptPacket sodium x S.rxKey n (some plaintext)) = .ok (true, m) ∧
          ((encryptPacket sodium nonce m S.txKey n).bind fun x =>
            decryptPacket sodium x C.rxKey n (some plaintext)) = .ok (true, m) := by
  obtain ⟨hinit, hck⟩ := kxKeypair_of_generated h hc
  obtain ⟨-, hsk⟩ := kxKeypair_of_generated h hs
  obtain ⟨hcpk, hcsk⟩ := h.kxKeypair_length hck
  obtain ⟨hspk, hssk⟩ := h.kxKeypair_length hsk
  rw [deriveClientKeys_eq h hinit hcpk hcsk hspk, deriveServerKeys_eq h hinit hspk hssk hcpk]
  cases hC : sodium.kxClientSessionKeys c.publicKey c.privateKey s.publicKey with
  | none => cases sodium.kxServerSessionKeys s.publicKey s.privateKey c.publicKey <;> simp
  | some ckeys =>
    cases hS : sodium.kxServerSessionKeys s.publicKey s.privateKey c.publicKey with
    | none => simp
    | some skeys =>
      obtain ⟨hrx, htx⟩ := h.crosswise hck hsk hC hS
      obtain ⟨hcrx, hctx⟩ := h.client_length hC
      refine ⟨by simp, by simp, ?_⟩
      rintro C S ⟨⟩ ⟨⟩ m plaintext nonce n
      constructor
      · simp only [← htx]
        exact decryptPacket_encryptPacket h hinit hctx nonce m plaintext n
      · simp only [← hrx]
        exact decryptPacket_encryptPacket h hinit hcrx nonce m plaintext n

/-- The key pair of the client. -/
def sampleClientKeys : EphemeralKeyPair := ⟨sampleClientPublicKey, samplePrivateKey 1⟩

/-- The key pair of the server. -/
def sampleServerKeys : EphemeralKeyPair := ⟨sampleServerPublicKey, samplePrivateKey 33⟩

theorem channel_round_trip_sample :
    ((encryptPacket sampleSodium sampleNonce (text "ok") sampleTxKey 1).bind fun x =>
        decryptPacket sampleSodium x sampleTxKey 1 (some [])) = .ok (true, text "ok") ∧
      ((encryptPacket sampleSodium sampleNonce (text "ok") sampleRxKey 1).bind fun x =>
        decryptPacket sampleSodium x sampleRxKey 1 (some [])) = .ok (true, text "ok") :=
  have hc : generateEphemeralKeypair sampleSodium (samplePrivateKey 1) = .ok sampleClientKeys := rfl
  have hs : generateEphemeralKeypair sampleSodium (samplePrivateKey 33) = .ok sampleServerKeys :=
    rfl
  (channel_round_trip sampleSodium_documented hc hs).2.2 (C := ⟨sampleTxKey, sampleRxKey⟩)
    (S := ⟨sampleRxKey, sampleTxKey⟩) (by decide) (by decide) (text "ok") [] sampleNonce 1

/-! ### What is opened -/

/-- `x` is a nonce followed by the ciphertext of `m` for it. -/
def SealedAs (sodium : Sodium) (key : Bytes) (n : UInt64) (m x : Bytes) : Prop :=
  ∃ nonce : Vector UInt8 aeadNonceBytes, ∃ c : Bytes,
    sodium.aeadEncrypt m (sequenceBytes n) nonce.toList key = some c ∧ x = nonce.toList ++ c

/-- The same bytes are the same nonce and the same ciphertext. -/
theorem SealedAs.same {sodium : Sodium} {key m m' x : Bytes} {n n' : UInt64}
    (hx : SealedAs sodium key n m x) (hx' : SealedAs sodium key n' m' x) :
    ∃ (nonce : Vector UInt8 aeadNonceBytes) (c : Bytes),
      sodium.aeadEncrypt m (sequenceBytes n) nonce.toList key = some c ∧
        sodium.aeadEncrypt m' (sequenceBytes n') nonce.toList key = some c := by
  obtain ⟨nonce, c, hc, rfl⟩ := hx
  obtain ⟨nonce', c', hc', heq⟩ := hx'
  obtain ⟨hnonce, rfl⟩ := List.append_inj heq (by simp)
  rw [← hnonce] at hc'
  exact ⟨nonce, c, hc, hc'⟩

section Ideal

variable {sodium : Sodium} (h : sodium.Ideal) {key : Bytes}

include h

/-- A packet is sealed for one sequence number only. -/
theorem sequence_of_sealedAs {m m' x : Bytes} {n n' : UInt64} (hx : SealedAs sodium key n m x)
    (hx' : SealedAs sodium key n' m' x) : n = n' := by
  obtain ⟨nonce, c, hc, hc'⟩ := hx.same hx'
  exact sequenceBytes_injective (h.associated_data (length_sequenceBytes n)
    (length_sequenceBytes n') hc hc')

variable (hkey : key.length = aeadKeyBytes)

include hkey

/-- A packet is sealed as one plaintext only. -/
theorem plaintext_of_sealedAs {m m' x : Bytes} {n : UInt64} (hx : SealedAs sodium key n m x)
    (hx' : SealedAs sodium key n m' x) : m = m' := by
  obtain ⟨nonce, c, hc, hc'⟩ := hx.same hx'
  have hm := (h.decrypt_iff nonce.length_toList hkey).mpr hc
  have hm' := (h.decrypt_iff nonce.length_toList hkey).mpr hc'
  exact Option.some.inj (hm.symm.trans hm')

/-- What `encrypt_packet` returns is sealed. -/
theorem sealedAs_of_encryptPacket {nonce : Vector UInt8 aeadNonceBytes} {m x : Bytes} {n : UInt64}
    (hx : encryptPacket sodium nonce m key n = .ok x) : SealedAs sodium key n m x := by
  cases hc : sodium.aeadEncrypt m (sequenceBytes n) nonce.toList key with
  | none =>
    rw [encryptPacket_of_none h.initialized hkey hc] at hx
    cases hx
  | some c =>
    rw [encryptPacket_of_some h.initialized hkey hc (h.encrypt_length hc)] at hx
    cases hx
    exact ⟨nonce, c, hc, rfl⟩

/-- A packet is opened if it is sealed, and only then; nothing else happens. -/
theorem decryptPacket_ideal (x plaintext : Bytes) (n : UInt64) :
    (∃ m, SealedAs sodium key n m x ∧
        decryptPacket sodium x key n (some plaintext) = .ok (true, m)) ∨
      (∀ m, ¬ SealedAs sodium key n m x) ∧
        decryptPacket sodium x key n (some plaintext) = .ok (false, plaintext) := by
  by_cases hx : x.length < aeadNonceBytes + aeadTagBytes
  · refine Or.inr ⟨?_, decryptPacket_short h.initialized hkey hx⟩
    rintro m ⟨nonce, c, hc, rfl⟩
    have hlen := h.encrypt_length hc
    rw [List.length_append, nonce.length_toList, hlen] at hx
    omega
  · have hx : aeadNonceBytes + aeadTagBytes ≤ x.length := not_lt.mp hx
    have hnonce : (x.take aeadNonceBytes).length = aeadNonceBytes := by
      rw [List.length_take]
      omega
    rw [decryptPacket_long h.initialized hkey hx]
    cases hd : sodium.aeadDecrypt (x.drop aeadNonceBytes) (sequenceBytes n)
        (x.take aeadNonceBytes) key with
    | none =>
      refine Or.inr ⟨?_, rfl⟩
      rintro m ⟨nonce, c, hc, rfl⟩
      rw [List.drop_left' nonce.length_toList, List.take_left' nonce.length_toList,
        (h.decrypt_iff nonce.length_toList hkey).mpr hc] at hd
      cases hd
    | some m =>
      have hc := (h.decrypt_iff hnonce hkey).mp hd
      have hlen : m.length = x.length - aeadNonceBytes - aeadTagBytes := by
        have := h.encrypt_length hc
        rw [List.length_drop] at this
        omega
      refine Or.inl ⟨m, ⟨⟨(x.take aeadNonceBytes).toArray, by simpa using hnonce⟩,
        x.drop aeadNonceBytes, hc, (List.take_append_drop _ x).symm⟩, ?_⟩
      simp only [fill_zeros hlen, Except.map, resize_self]

end Ideal

/-- `decrypt_packet` accepts what is sealed under its key and sequence number, with the plaintext
that was sealed. Everything else it rejects, and then `*plaintext` is what it was. -/
theorem opens_iff {sodium : Sodium} (h : sodium.Ideal) {key : Bytes}
    (hkey : key.length = aeadKeyBytes) (x plaintext : Bytes) (n : UInt64) :
    (∀ m, decryptPacket sodium x key n (some plaintext) = .ok (true, m)
        ↔ SealedAs sodium key n m x) ∧
      ((¬ ∃ m, SealedAs sodium key n m x) →
        decryptPacket sodium x key n (some plaintext) = .ok (false, plaintext)) ∧
      (x.length < aeadNonceBytes + aeadTagBytes →
        decryptPacket sodium x key n (some plaintext) = .ok (false, plaintext)) ∧
      (∀ nonce m n', n' ≠ n → encryptPacket sodium nonce m key n' = .ok x →
        decryptPacket sodium x key n (some plaintext) = .ok (false, plaintext)) ∧
      ∃ r, decryptPacket sodium x key n (some plaintext) = .ok r := by
  obtain ⟨m₀, hm₀, hopen⟩ | ⟨hnone, hclosed⟩ := decryptPacket_ideal h hkey x plaintext n
  · have hother : ∀ m' n', SealedAs sodium key n' m' x → n' = n := by
      intro m' n' hm'
      exact sequence_of_sealedAs h hm' hm₀
    refine ⟨?_, ?_, ?_, ?_, _, hopen⟩
    · intro m
      rw [hopen]
      constructor
      · rintro ⟨⟩
        exact hm₀
      · intro hm
        rw [plaintext_of_sealedAs h hkey hm hm₀]
    · intro hno
      exact absurd ⟨m₀, hm₀⟩ hno
    · intro hx
      exact decryptPacket_short h.initialized hkey hx
    · intro nonce m' n' hne hx
      exact absurd (hother m' n' (sealedAs_of_encryptPacket h hkey hx)) hne
  · refine ⟨?_, fun _ => hclosed, fun _ => hclosed, fun _ _ _ _ _ => hclosed, _, hclosed⟩
    intro m
    rw [hclosed]
    exact iff_of_false (by simp) (hnone m)

theorem opens_iff_sample :
    decryptPacket sampleSodium (sampleNonce.toList ++ sampleCiphertext) sampleTxKey 1 (some [])
        = .ok (true, text "ok") ∧
      decryptPacket sampleSodium (sampleNonce.toList ++ sampleCiphertext) sampleTxKey 2
        (some [7]) = .ok (false, [7]) :=
  have hseal : encryptPacket sampleSodium sampleNonce (text "ok") sampleTxKey 1
      = .ok (sampleNonce.toList ++ sampleCiphertext) := by decide
  ⟨((opens_iff sampleSodium_ideal (by decide) _ [] 1).1 _).mpr
      ⟨sampleNonce, sampleCiphertext, by decide, rfl⟩,
    (opens_iff sampleSodium_ideal (by decide) _ [7] 2).2.2.2.1 _ _ 1 (by decide) hseal⟩

end Zapshare
