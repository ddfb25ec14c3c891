import Zapshare.Acceptance
import Zapshare.Decimal

/-!
# What the hellos sign

`sign_client_hello` and `sign_server_hello` sign a label, the version in decimal and the fields of
the hello, one behind the other. Nothing says where a field ends, so the bytes of one field may
just as well be those of the next one, and the last digits of the version those of the first field:
`layout_unique_iff` says which hellos have a signature that is good for no other hello.

## Main results

* `layout_unique_iff` — a concatenation has one reading only when nothing can be moved
* `transcript_unique_iff` — the same for the two hellos
* `clientHello_sameSigned` — the hellos of two runs of `perform_handshake` are told apart
-/

namespace Zapshare

open Wire

/-! ### The hello of the receiver -/

/-- The bytes `sign_client_hello` signs. -/
def clientHelloTranscript (hello : ClientHello) : Bytes :=
  let identity := hello.receiverIdentity.getD {}
  text "client_hello" ++ toDecimal hello.version ++ hello.transferId ++ hello.token ++
    hello.receiverNonce ++ identity.longTermPublicKey ++ identity.ephemeralPublicKey

/-- `sign_client_hello`. -/
def signClientHello (env : Env) (hello : ClientHello) (receiverIdentity : IdentityKeyPair) :
    Bytes :=
  env.sign (clientHelloTranscript hello) receiverIdentity

/-- The hello `perform_handshake` sends, with the receiver's fresh keys and nonce. Nothing else of
the surroundings matters. -/
def clientHello (env : Env) (token : Bytes) : ClientHello :=
  let receiverIdentity := env.generateIdentityKeypair
  let receiverEphemeral := env.generateEphemeralKeypair
  let identity : PeerIdentity :=
    { longTermPublicKey := receiverIdentity.publicKey
      ephemeralPublicKey := receiverEphemeral.publicKey }
  let hello : ClientHello :=
    { version := protocolVersion1
      transferId := token
      token := token
      receiverNonce := env.randomNonce 32
      receiverIdentity := some identity }
  { hello with receiverSignature := signClientHello env hello receiverIdentity }

/-- The two hellos agree on all that is signed. -/
structure ClientHello.SameSigned (a b : ClientHello) : Prop where
  version : a.version = b.version
  transferId : a.transferId = b.transferId
  token : a.token = b.token
  receiverNonce : a.receiverNonce = b.receiverNonce
  longTermPublicKey : (a.receiverIdentity.getD {}).longTermPublicKey
    = (b.receiverIdentity.getD {}).longTermPublicKey
  ephemeralPublicKey : (a.receiverIdentity.getD {}).ephemeralPublicKey
    = (b.receiverIdentity.getD {}).ephemeralPublicKey

/-- The two hellos agree on all that is signed. -/
structure ServerHello.SameSigned (a b : ServerHello) : Prop where
  version : a.version = b.version
  transferId : a.transferId = b.transferId
  senderNonce : a.senderNonce = b.senderNonce
  longTermPublicKey : (a.senderIdentity.getD {}).longTermPublicKey
    = (b.senderIdentity.getD {}).longTermPublicKey
  ephemeralPublicKey : (a.senderIdentity.getD {}).ephemeralPublicKey
    = (b.senderIdentity.getD {}).ephemeralPublicKey

/-! ### The version, in decimal -/

/-- The minus sign of a negative number. -/
def signBytes (i : Int32) : Bytes := if i.toInt < 0 then [45] else []

theorem toDecimal_eq (i : Int32) : toDecimal i = signBytes i ++ decimal i.toInt.natAbs := by
  rw [toDecimal, decimal, text, text, Int.toString_eq_repr, Int.repr_eq_if, signBytes]
  by_cases h : i.toInt < 0
  · have hnat : (-i.toInt).toNat = i.toInt.natAbs := by omega
    rw [if_neg (Int.not_le.mpr h), if_pos h, hnat, String.toList_append, List.map_append]
    rfl
  · have hnat : i.toInt.toNat = i.toInt.natAbs := by omega
    rw [if_pos (Int.not_lt.mp h), if_neg h, hnat]
    rfl

/-- A number of more than one digit ends in a digit, and what is in front of it is a number. -/
theorem toDecimal_split {i : Int32} (h : 10 ≤ i.toInt.natAbs) :
    ∃ j : Int32, ∃ d, toDecimal i = toDecimal j ++ [d] := by
  have hlow := i.le_toInt
  have hhigh := i.toInt_lt
  have habs : (i.toInt.tdiv 10).natAbs = i.toInt.natAbs / 10 := Int.natAbs_tdiv _ _
  have hj : (Int32.ofInt (i.toInt.tdiv 10)).toInt = i.toInt.tdiv 10 :=
    Int32.toInt_ofInt_of_le (by omega) (by omega)
  refine ⟨Int32.ofInt (i.toInt.tdiv 10), digitByte (i.toInt.natAbs % 10), ?_⟩
  have hsign : signBytes (Int32.ofInt (i.toInt.tdiv 10)) = signBytes i := by
    rw [signBytes, signBytes, hj]
    rcases lt_or_ge i.toInt 0 with hneg | hpos
    · have hopposite : (-i.toInt).tdiv 10 = -i.toInt.tdiv 10 := Int.neg_tdiv _ _
      have hge : 0 ≤ (-i.toInt).tdiv 10 := Int.tdiv_nonneg (by omega) (by decide)
      rw [if_pos (by omega), if_pos hneg]
    · have hge : 0 ≤ i.toInt.tdiv 10 := Int.tdiv_nonneg hpos (by decide)
      rw [if_neg (Int.not_lt.mpr hge), if_neg (Int.not_lt.mpr hpos)]
  rw [toDecimal_eq, toDecimal_eq, hsign, hj, habs, decimal_of_ge h, List.append_assoc]

/-- Two numbers of one digit are one if the digits of the one start the other. -/
theorem toDecimal_of_prefix {i j : Int32} (hi : i.toInt.natAbs < 10) {rest : Bytes}
    (h : toDecimal j ++ rest = toDecimal i) : j = i ∧ rest = [] := by
  rw [toDecimal_eq, toDecimal_eq, decimal_of_lt hi, List.append_assoc] at h
  obtain ⟨b, bs, hcons⟩ := List.exists_cons_of_ne_nil (decimal_ne_nil j.toInt.natAbs)
  have hb : isDigit b = true :=
    isDigit_of_mem_decimal _ b (by rw [hcons]; exact List.mem_cons_self)
  have hminus : b ≠ 45 := by
    rintro rfl
    exact absurd hb (by decide)
  have hdigit : digitByte i.toInt.natAbs ≠ 45 := by
    intro heq
    exact absurd (heq ▸ isDigit_digitByte _ hi) (by decide)
  have key : signBytes j = signBytes i ∧ decimal j.toInt.natAbs ++ rest
      = [digitByte i.toInt.natAbs] := by
    rw [hcons] at h ⊢
    simp only [signBytes] at h ⊢
    split_ifs at h ⊢
    · exact ⟨rfl, (List.cons.inj h).2⟩
    · exact absurd (List.cons.inj h).1.symm hdigit
    · exact absurd (List.cons.inj h).1 hminus
    · exact ⟨rfl, h⟩
  obtain ⟨hsign, hrest⟩ := key
  rw [hcons, List.cons_append, List.cons.injEq, List.append_eq_nil_iff] at hrest
  obtain ⟨rfl, rfl, rfl⟩ := hrest
  have habs : j.toInt.natAbs = i.toInt.natAbs :=
    decimal_injective (hcons.trans (decimal_of_lt hi).symm)
  refine ⟨Int32.toInt_inj.mp ?_, rfl⟩
  simp only [signBytes] at hsign
  split_ifs at hsign
  · omega
  · omega

/-! ### One field behind the other -/

/-- A label, a number and some fields, with nothing in between. -/
def layout (label : Bytes) (version : Int32) (fields : List Bytes) : Bytes :=
  label ++ toDecimal version ++ fields.flatten

theorem layout_inj {label : Bytes} {v v' : Int32} {fields fields' : List Bytes} :
    layout label v' fields' = layout label v fields ↔
      toDecimal v' ++ fields'.flatten = toDecimal v ++ fields.flatten := by
  rw [layout, layout, List.append_assoc, List.append_assoc, List.append_cancel_left_eq]

/-- All the bytes in one of the first two fields. -/
def gather (bytes : Bytes) (inFirst : Bool) (k : ℕ) : List Bytes :=
  (if inFirst then [bytes, []] else [[], bytes]) ++ List.replicate k []

theorem length_gather (bytes : Bytes) (inFirst : Bool) (k : ℕ) :
    (gather bytes inFirst k).length = k + 2 := by
  cases inFirst <;> simp [gather]

theorem flatten_gather (bytes : Bytes) (inFirst : Bool) (k : ℕ) :
    (gather bytes inFirst k).flatten = bytes := by
  cases inFirst <;> simp [gather]

/-- **One reading only.** Two fields or more, one behind the other, can be read in one way only if
they are all empty and the number in front of them has one digit. -/
theorem layout_unique_iff (label : Bytes) (v : Int32) {fields : List Bytes}
    (hlen : 2 ≤ fields.length) :
    (∀ v' fields', fields'.length = fields.length →
        layout label v' fields' = layout label v fields → v' = v ∧ fields' = fields) ↔
      (∀ f ∈ fields, f = []) ∧ v.toInt.natAbs < 10 := by
  obtain ⟨k, hk⟩ := Nat.exists_eq_add_of_le' hlen
  constructor
  · intro h
    -- all the bytes may be those of the first field, and those of the second one
    have hmove : ∀ inFirst, gather fields.flatten inFirst k = fields := by
      intro inFirst
      have hlayout : layout label v (gather fields.flatten inFirst k) = layout label v fields := by
        rw [layout_inj, flatten_gather]
      exact (h v _ ((length_gather _ _ _).trans hk.symm) hlayout).2
    have hempty : fields.flatten = [] := by
      have hboth := (hmove true).trans (hmove false).symm
      exact (List.cons.inj hboth).1
    refine ⟨List.flatten_eq_nil_iff.mp hempty, ?_⟩
    by_contra hge
    obtain ⟨j, d, hsplit⟩ := toDecimal_split (Nat.not_lt.mp hge)
    have hmoved := h j (gather [d] true k) ((length_gather _ _ _).trans hk.symm)
      (layout_inj.mpr (by rw [flatten_gather, hempty, List.append_nil, hsplit]))
    have : [d] = fields.flatten := by rw [← hmoved.2, flatten_gather]
    rw [hempty] at this
    simp at this
  · rintro ⟨hempty, hdigit⟩ v' fields' hlen' heq
    have hflat : fields.flatten = [] := List.flatten_eq_nil_iff.mpr hempty
    rw [layout_inj, hflat, List.append_nil] at heq
    obtain ⟨hv, hrest⟩ := toDecimal_of_prefix hdigit heq
    have hrep : ∀ gs : List Bytes, (∀ g ∈ gs, g = []) → gs = List.replicate gs.length [] := by
      intro gs hgs
      exact List.eq_replicate_of_mem hgs
    refine ⟨hv, ?_⟩
    rw [hrep fields hempty, hrep fields' (List.flatten_eq_nil_iff.mp hrest), hlen']

/-- Fields of known lengths are told apart. -/
theorem layout_injective {label : Bytes} {v : Int32} {fields fields' : List Bytes}
    (hlen : fields'.map List.length = fields.map List.length)
    (h : layout label v fields' = layout label v fields) : fields' = fields := by
  rw [layout_inj, List.append_cancel_left_eq] at h
  clear label v
  induction fields generalizing fields' with
  | nil => simpa using hlen
  | cons f fields ih =>
    cases fields' with
    | nil => simp at hlen
    | cons f' fields' =>
      simp only [List.map_cons, List.cons.injEq] at hlen
      rw [List.flatten_cons, List.flatten_cons] at h
      obtain ⟨rfl, hrest⟩ := List.append_inj h hlen.1
      rw [ih hlen.2 hrest]

/-! ### The transcripts -/

/-- The fields of a hello that are signed, in their order. -/
def ClientHello.signedFields (hello : ClientHello) : List Bytes :=
  [hello.transferId, hello.token, hello.receiverNonce,
    (hello.receiverIdentity.getD {}).longTermPublicKey,
    (hello.receiverIdentity.getD {}).ephemeralPublicKey]

/-- The fields of a hello that are signed, in their order. -/
def ServerHello.signedFields (hello : ServerHello) : List Bytes :=
  [hello.transferId, hello.senderNonce, (hello.senderIdentity.getD {}).longTermPublicKey,
    (hello.senderIdentity.getD {}).ephemeralPublicKey]

theorem clientHelloTranscript_eq (hello : ClientHello) :
    clientHelloTranscript hello =
      layout (text "client_hello") hello.version hello.signedFields := by
  simp [clientHelloTranscript, layout, ClientHello.signedFields]

theorem serverHelloTranscript_eq (hello : ServerHello) :
    serverHelloTranscript hello =
      layout (text "server_hello") hello.version hello.signedFields := by
  simp [serverHelloTranscript, layout, ServerHello.signedFields]

theorem ClientHello.sameSigned_iff {a b : ClientHello} :
    a.SameSigned b ↔ b.version = a.version ∧ b.signedFields = a.signedFields := by
  constructor
  · rintro ⟨h1, h2, h3, h4, h5, h6⟩
    exact ⟨h1.symm, by simp [signedFields, h2, h3, h4, h5, h6]⟩
  · rintro ⟨hversion, hfields⟩
    simp only [signedFields, List.cons.injEq, and_true] at hfields
    obtain ⟨h2, h3, h4, h5, h6⟩ := hfields
    exact ⟨hversion.symm, h2.symm, h3.symm, h4.symm, h5.symm, h6.symm⟩

theorem ServerHello.sameSigned_iff {a b : ServerHello} :
    a.SameSigned b ↔ b.version = a.version ∧ b.signedFields = a.signedFields := by
  constructor
  · rintro ⟨h1, h2, h3, h4, h5⟩
    exact ⟨h1.symm, by simp [signedFields, h2, h3, h4, h5]⟩
  · rintro ⟨hversion, hfields⟩
    simp only [signedFields, List.cons.injEq, and_true] at hfields
    obtain ⟨h2, h3, h4, h5⟩ := hfields
    exact ⟨hversion.symm, h2.symm, h3.symm, h4.symm, h5.symm⟩

/-- A hello with any fields whatever. -/
theorem ClientHello.exists_signedFields (v : Int32) {fields : List Bytes} (h : fields.length = 5) :
    ∃ hello : ClientHello, hello.version = v ∧ hello.signedFields = fields := by
  match fields, h with
  | [f1, f2, f3, f4, f5], _ =>
    exact ⟨⟨v, f1, f2, f3, some ⟨f4, f5⟩, []⟩, rfl, rfl⟩

theorem ServerHello.exists_signedFields (v : Int32) {fields : List Bytes} (h : fields.length = 4) :
    ∃ hello : ServerHello, hello.version = v ∧ hello.signedFields = fields := by
  match fields, h with
  | [f1, f2, f3, f4], _ =>
    exact ⟨⟨v, f1, f2, some ⟨f3, f4⟩, []⟩, rfl, rfl⟩

/-- **Which signatures are good for one hello only.** The signature of a hello fits no hello with
other fields exactly if all its fields are empty and its version has a single digit. -/
theorem transcript_unique_iff (client : ClientHello) (server : ServerHello) :
    ((∀ b, clientHelloTranscript b = clientHelloTranscript client → client.SameSigned b) ↔
        (∀ f ∈ client.signedFields, f = []) ∧ client.version.toInt.natAbs < 10) ∧
      ((∀ b, serverHelloTranscript b = serverHelloTranscript server → server.SameSigned b) ↔
        (∀ f ∈ server.signedFields, f = []) ∧ server.version.toInt.natAbs < 10) := by
  constructor
  · rw [← layout_unique_iff (text "client_hello") client.version
      (show 2 ≤ client.signedFields.length from Nat.le_add_left 2 _)]
    constructor
    · intro h v fields hlen heq
      obtain ⟨b, rfl, rfl⟩ := ClientHello.exists_signedFields v hlen
      refine ClientHello.sameSigned_iff.mp (h b ?_)
      rw [clientHelloTranscript_eq, clientHelloTranscript_eq, heq]
    · intro h b hb
      rw [clientHelloTranscript_eq, clientHelloTranscript_eq] at hb
      exact ClientHello.sameSigned_iff.mpr (h b.version b.signedFields rfl hb)
  · rw [← layout_unique_iff (text "server_hello") server.version
      (show 2 ≤ server.signedFields.length from Nat.le_add_left 2 _)]
    constructor
    · intro h v fields hlen heq
      obtain ⟨b, rfl, rfl⟩ := ServerHello.exists_signedFields v hlen
      refine ServerHello.sameSigned_iff.mp (h b ?_)
      rw [serverHelloTranscript_eq, serverHelloTranscript_eq, heq]
    · intro h b hb
      rw [serverHelloTranscript_eq, serverHelloTranscript_eq] at hb
      exact ServerHello.sameSigned_iff.mpr (h b.version b.signedFields rfl hb)

/-- **Moved bytes.** What a receiver signs for its token `t` is also what it would have signed for
no transfer id and the token `tt`. -/
theorem moved_token_same_transcript :
    ∃ a b : ClientHello, a = clientHello (sampleEnv none) sampleToken ∧
      clientHelloTranscript b = clientHelloTranscript a ∧ b.version = protocolVersion1 ∧
      b.token ≠ [] ∧ ¬ a.SameSigned b := by
  refine ⟨_, { clientHello (sampleEnv none) sampleToken with
    transferId := [], token := text "tt" }, rfl, by decide, rfl, by decide, fun h => ?_⟩
  exact absurd h.token (by decide)

/-! ### Hellos of known sizes -/

/-- The sizes of libsodium: keys and nonces of 32 bytes, signatures of 64. -/
structure Env.Sized (env : Env) : Prop where
  identity : env.generateIdentityKeypair.publicKey.length = 32
  ephemeral : env.generateEphemeralKeypair.publicKey.length = 32
  nonce : ∀ n, (env.randomNonce n).length = n
  signature : ∀ message key, (env.sign message key).length = 64

/-- **The hellos of `perform_handshake` are told apart** by what is signed: the token is there twice
and everything else has a fixed size. -/
theorem clientHello_sameSigned {env env' : Env} (h : env.Sized) (h' : env'.Sized)
    {token token' : Bytes} (heq : clientHelloTranscript (clientHello env' token')
      = clientHelloTranscript (clientHello env token)) :
    (clientHello env token).SameSigned (clientHello env' token') := by
  rw [clientHelloTranscript_eq, clientHelloTranscript_eq] at heq
  have hlengths : ∀ {e : Env}, e.Sized → ∀ t,
      (clientHello e t).signedFields.map List.length = [t.length, t.length, 32, 32, 32] := by
    intro e he t
    simp [clientHello, ClientHello.signedFields, he.identity, he.ephemeral, he.nonce]
  have htotal : (clientHello env' token').signedFields.flatten.length
      = (clientHello env token).signedFields.flatten.length :=
    congrArg List.length (List.append_cancel_left (layout_inj.mp heq))
  rw [List.length_flatten, List.length_flatten, hlengths h, hlengths h'] at htotal
  have htoken : token'.length = token.length := by
    simp only [List.sum_cons, List.sum_nil] at htotal
    omega
  refine ClientHello.sameSigned_iff.mpr ⟨rfl, layout_injective ?_ heq⟩
  rw [hlengths h, hlengths h', htoken]

end Zapshare
