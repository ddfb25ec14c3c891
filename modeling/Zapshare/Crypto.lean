import Zapshare.Lib.Stream
import Zapshare.Types
import Zapshare.Wire.Utf8

/-!
# The hash of a file

`crypto.hpp`: `compute_file_hash` feeds a file to SHA-256 in blocks of 4096 bytes and writes the
digest in lowercase hexadecimal. OpenSSL is a parameter, `Sha256`; what is assumed of it is that
successive updates hash the concatenation of their blocks.

## Main results

* `Crypto.computeFileHash_opened` — the hash of a file is the hash of its bytes
* `file_hash_text` — how a file of any length is fed, and what its hash looks like
-/

namespace Zapshare

open Wire Stream

/-- `SHA256_Init`, `SHA256_Update` and `SHA256_Final`. -/
structure Sha256 where
  Ctx : Type
  init : Ctx
  update : Ctx → Bytes → Ctx
  final : Ctx → Vector UInt8 32
  /-- The digest of a byte string. -/
  digest : Bytes → Vector UInt8 32
  /-- Successive updates hash the concatenation. -/
  final_foldl : ∀ blocks : List Bytes, final (blocks.foldl update init) = digest blocks.flatten

namespace Crypto

/-- `buffer_size`. -/
def bufferSize : ℕ := 4096

/-- A digit below 16, in lowercase hexadecimal. -/
def hexDigit (n : ℕ) : UInt8 := UInt8.ofNat (if n < 10 then 48 + n else 87 + n)

/-- `std::hex` with a width of two and `'0'` as the fill. -/
def hexByte (b : UInt8) : Bytes := [hexDigit (b.toNat / 16), hexDigit (b.toNat % 16)]

/-- The hash as text, as `compute_file_hash` returns it. -/
def hexLower (hash : Vector UInt8 32) : Bytes := hash.toList.flatMap hexByte

variable (sha : Sha256)

/-- The loop of `compute_file_hash`: the context, the buffer and the stream when a read came up
short. Each turn advances the stream, so `fuel` need not exceed the length of the file by more than
one. -/
def hashLoop : ℕ → sha.Ctx → IfStream UInt8 → sha.Ctx × Bytes × IfStream UInt8
  | 0, ctx, file => (ctx, [], file)
  | fuel + 1, ctx, file =>
    let (buffer, file) := file.read bufferSize
    if file.failbit then (ctx, buffer, file) else hashLoop fuel (sha.update ctx buffer) file

/-- Feed what the last, short read left in the buffer. -/
def feedRest (r : sha.Ctx × Bytes × IfStream UInt8) : sha.Ctx :=
  if r.2.2.gcount > 0 then sha.update r.1 r.2.1 else r.1

/-- The hash of the file behind a stream; `none` when the file cannot be opened, which throws. -/
def computeFileHash (file : IfStream UInt8) : Option Bytes :=
  if !file.isOpen then none
  else
    let ctx := feedRest sha (hashLoop sha (file.content.length + 1) sha.init file)
    some (hexLower (sha.final ctx))

end Crypto

namespace Crypto

/-! ### Every byte is fed once, in order -/

theorem read_of_short {file : IfStream UInt8} (heof : file.eofbit = false)
    (hfail : file.failbit = false) {n : ℕ} (h : (file.content.drop file.pos).length < n) :
    (file.read n).1 = file.content.drop file.pos ∧ (file.read n).2.failbit = true ∧
      (file.read n).2.gcount = (file.content.drop file.pos).length := by
  have hchunk := List.take_of_length_le (Nat.le_of_lt h)
  simp only [IfStream.read, heof, hfail, Bool.or_self, Bool.false_eq_true, if_false, hchunk]
  exact ⟨trivial, decide_eq_true h, trivial⟩

theorem read_of_full {file : IfStream UInt8} (heof : file.eofbit = false)
    (hfail : file.failbit = false) {n : ℕ} (h : n ≤ (file.content.drop file.pos).length) :
    (file.read n).2.eofbit = false ∧ (file.read n).2.failbit = false ∧
      (file.read n).2.content = file.content ∧ (file.read n).2.pos = file.pos + n := by
  have hlen : ((file.content.drop file.pos).take n).length = n := by
    rw [List.length_take, Nat.min_eq_left h]
  simp [IfStream.read, heof, hfail, hlen]

/-- **The loop feeds what is left of the file**, whole and in order, whatever it is fed to. -/
theorem feedRest_hashLoop (fuel : ℕ) (file : IfStream UInt8) (heof : file.eofbit = false)
    (hfail : file.failbit = false) (hfuel : (file.content.drop file.pos).length < fuel) :
    ∃ blocks : List Bytes, blocks.flatten = file.content.drop file.pos ∧
      (∀ block ∈ blocks, 0 < block.length ∧ block.length ≤ bufferSize) ∧
      ∀ (sha : Sha256) (ctx : sha.Ctx),
        feedRest sha (hashLoop sha fuel ctx file) = blocks.foldl sha.update ctx := by
  induction fuel generalizing file with
  | zero => exact absurd hfuel (Nat.not_lt_zero _)
  | succ fuel ih =>
    have hpos : 0 < bufferSize := by decide
    rcases Nat.lt_or_ge (file.content.drop file.pos).length bufferSize with hshort | hfull
    · obtain ⟨hchunk, hfail', hgcount⟩ := read_of_short heof hfail hshort
      have hloop : ∀ (sha : Sha256) (ctx : sha.Ctx), hashLoop sha (fuel + 1) ctx file
          = (ctx, (file.read bufferSize).1, (file.read bufferSize).2) := by
        intro sha ctx
        rw [hashLoop]
        simp only [hfail', if_true]
      rcases Nat.eq_zero_or_pos (file.content.drop file.pos).length with hzero | hrest
      · refine ⟨[], (List.length_eq_zero_iff.mp hzero).symm, List.forall_mem_nil _, ?_⟩
        intro sha ctx
        rw [hloop, feedRest, hgcount, if_neg (by omega)]
        rfl
      · refine ⟨[file.content.drop file.pos], by simp, ?_, ?_⟩
        · intro block hblock
          rw [List.mem_singleton.mp hblock]
          exact ⟨hrest, Nat.le_of_lt hshort⟩
        · intro sha ctx
          rw [hloop, feedRest, hgcount, hchunk, if_pos hrest]
          rfl
    · obtain ⟨heof', hfail', hcontent, hadvance⟩ := read_of_full heof hfail hfull
      have hless : ((file.read bufferSize).2.content.drop (file.read bufferSize).2.pos).length
          < fuel := by
        rw [hcontent, hadvance]
        simp only [List.length_drop] at hfuel hfull ⊢
        omega
      obtain ⟨blocks, hflatten, hsizes, hblocks⟩ := ih (file.read bufferSize).2 heof' hfail' hless
      refine ⟨(file.read bufferSize).1 :: blocks, ?_, ?_, ?_⟩
      · rw [List.flatten_cons, hflatten, hcontent]
        exact IfStream.read_append_drop heof hfail bufferSize
      · have hlength : (file.read bufferSize).1.length = bufferSize := by
          rw [List.length_drop] at hfull
          simp [IfStream.read, heof, hfail, hfull]
        refine List.forall_mem_cons.mpr ⟨?_, hsizes⟩
        rw [hlength]
        exact ⟨hpos, Nat.le_refl _⟩
      · intro sha ctx
        have hloop : hashLoop sha (fuel + 1) ctx file
            = hashLoop sha fuel (sha.update ctx (file.read bufferSize).1)
                (file.read bufferSize).2 := by
          rw [hashLoop]
          simp only [hfail', Bool.false_eq_true, if_false]
        rw [hloop, hblocks]
        rfl

/-- What a file is cut into before it is fed. -/
theorem exists_blocks (content : Bytes) :
    ∃ blocks : List Bytes, blocks.flatten = content ∧
      (∀ block ∈ blocks, 0 < block.length ∧ block.length ≤ bufferSize) ∧
      ∀ sha : Sha256,
        feedRest sha (hashLoop sha (content.length + 1) sha.init (.opened content))
          = blocks.foldl sha.update sha.init := by
  obtain ⟨blocks, hflatten, hsizes, hblocks⟩ := feedRest_hashLoop (content.length + 1)
    (.opened content) rfl rfl (by simp [IfStream.opened])
  exact ⟨blocks, hflatten, hsizes, fun sha => hblocks sha sha.init⟩

/-- **The hash of a file is the hash of its bytes.** -/
theorem computeFileHash_opened {sha : Sha256} (content : Bytes) :
    computeFileHash sha (.opened content) = some (hexLower (sha.digest content)) := by
  obtain ⟨blocks, hflatten, -, hblocks⟩ := exists_blocks content
  have hcontext := hblocks sha
  rw [← hflatten, ← sha.final_foldl, ← hcontext, hflatten]
  rfl

/-! ### The text of a digest -/

/-- What a lowercase hexadecimal digit stands for. -/
def hexValue (b : UInt8) : Option ℕ :=
  if 48 ≤ b ∧ b ≤ 57 then some (b.toNat - 48)
  else if 97 ≤ b ∧ b ≤ 102 then some (b.toNat - 87)
  else none

/-- The bytes a text of lowercase hexadecimal digits stands for, two digits to a byte. -/
def readHex : Bytes → Option Bytes
  | [] => some []
  | [_] => none
  | hi :: lo :: rest => do
    let hi ← hexValue hi
    let lo ← hexValue lo
    let bytes ← readHex rest
    return UInt8.ofNat (16 * hi + lo) :: bytes

theorem hexValue_hexDigit : ∀ d < 16, hexValue (hexDigit d) = some d := by decide

/-- A text of digits is read back. -/
theorem readHex_flatMap_hexByte (bs : Bytes) : readHex (bs.flatMap hexByte) = some bs := by
  induction bs with
  | nil => rfl
  | cons b bs ih =>
    have hlt := b.toNat_lt
    have hhi := hexValue_hexDigit (b.toNat / 16) (by omega)
    have hlo := hexValue_hexDigit (b.toNat % 16) (by omega)
    have hbyte : UInt8.ofNat (16 * (b.toNat / 16) + b.toNat % 16) = b := by
      rw [Nat.div_add_mod, UInt8.ofNat_toNat]
    rw [List.flatMap_cons]
    show readHex (_ :: _ :: bs.flatMap hexByte) = some (b :: bs)
    simp only [readHex, hhi, hlo, ih, Option.bind_eq_bind, Option.bind_some, Option.pure_def, hbyte]

theorem length_hexLower (hash : Vector UInt8 32) : (hexLower hash).length = 64 := by
  simp [hexLower, hexByte, List.length_flatMap]

theorem readHex_hexLower (hash : Vector UInt8 32) :
    readHex (hexLower hash) = some hash.toList :=
  readHex_flatMap_hexByte hash.toList

/-- Different digests have different texts. -/
theorem hexLower_injective : Function.Injective hexLower := by
  intro a b h
  have hread := congrArg readHex h
  rw [readHex_hexLower, readHex_hexLower] at hread
  exact Vector.toList_inj.mp (Option.some.inj hread)

theorem hexDigit_ascii : ∀ d < 16, hexDigit d < 0x80 := by decide

/-- The text of a digest can stand in a string field. -/
theorem utf8Valid_hexLower (hash : Vector UInt8 32) : utf8Valid (hexLower hash) = true := by
  refine utf8Valid_of_ascii fun b hb => ?_
  obtain ⟨c, -, hb⟩ := List.mem_flatMap.mp hb
  have hlt := c.toNat_lt
  rcases List.mem_pair.mp hb with rfl | rfl
  · exact hexDigit_ascii _ (by omega)
  · exact hexDigit_ascii _ (by omega)

end Crypto

/-- **The hash of a file.** Whatever its length, it is cut into blocks of at most 4096 bytes that
are fed one after the other; the result is the digest of the file, as 64 lowercase hexadecimal
digits, and two files have the same one exactly if they have the same digest. -/
theorem file_hash_text :
    (∀ content : Bytes, ∃ blocks : List Bytes, blocks.flatten = content ∧
      (∀ block ∈ blocks, 0 < block.length ∧ block.length ≤ Crypto.bufferSize) ∧
      ∀ sha : Sha256,
        Crypto.feedRest sha
            (Crypto.hashLoop sha (content.length + 1) sha.init (.opened content))
          = blocks.foldl sha.update sha.init) ∧
    ∀ (sha : Sha256) (content : Bytes), ∃ hash,
      Crypto.computeFileHash sha (.opened content) = some hash ∧ hash.length = 64 ∧
        Crypto.readHex hash = some (sha.digest content).toList ∧
        ∀ content', Crypto.computeFileHash sha (.opened content') = some hash ↔
          sha.digest content' = sha.digest content := by
  refine ⟨Crypto.exists_blocks, ?_⟩
  intro sha content
  refine ⟨_, Crypto.computeFileHash_opened content, Crypto.length_hexLower _,
    Crypto.readHex_hexLower _, ?_⟩
  intro content'
  rw [Crypto.computeFileHash_opened, Option.some.injEq]
  exact Crypto.hexLower_injective.eq_iff

end Zapshare
