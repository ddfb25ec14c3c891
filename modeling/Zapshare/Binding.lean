import Zapshare.Transcript

/-!
# What a `ServerHello` answers

`handshake.proto` lists what the signature of a `ServerHello` covers: the token, the nonce and the
ephemeral key of the receiver among it. `sign_server_hello` signs the answer only, and of the hello
that is answered the answer repeats the transfer id and nothing else.

## Main results

* `serverHello_binding_iff` — two hellos have answers with different transcripts exactly if they
  name different transfers
-/

namespace Zapshare

open Wire

/-- The bytes that are signed for the answer to a hello. -/
def signedAnswer (env : Env) (hello : ClientHello) : Bytes :=
  serverHelloTranscript (Session.serverHello env hello)

/-- The same server identity key, ephemeral key and nonce. -/
structure Env.SameKeys (env env' : Env) : Prop where
  identity : env.generateIdentityKeypair = env'.generateIdentityKeypair
  ephemeral : env.generateEphemeralKeypair = env'.generateEphemeralKeypair
  nonce : env.randomNonce 32 = env'.randomNonce 32

/-- The hellos differ in something the answer ought to be bound to. -/
def ClientHello.Differs (a b : ClientHello) : Prop :=
  a.token ≠ b.token ∨ a.receiverNonce ≠ b.receiverNonce ∨
    (a.receiverIdentity.getD {}).ephemeralPublicKey
      ≠ (b.receiverIdentity.getD {}).ephemeralPublicKey

/-- The entry answers `h` with a `ServerHello`, and `signedAnswer` is what is signed for it. -/
def AnswersWith (e : SessionEntry) (h : ClientHello) : Prop :=
  ∃ answer : ServerHello,
    e.output = [⟨e.input.sender, (HandshakePacket.serverHello answer).serializeToString⟩] ∧
      answer.senderSignature = e.input.env.sign (signedAnswer e.input.env h)
        e.input.env.generateIdentityKeypair

/-- An accepted hello is answered, and the answer is signed. -/
theorem answersWith_of_accepts {remote : Endpoint} {path : Bytes} {ds : List Delivery}
    {e : SessionEntry} {h : ClientHello}
    (he : e ∈ Machine.trace Session.step (Session.fresh remote path) ds) (ha : Accepts e h) :
    AnswersWith e h := by
  obtain ⟨hstep, -⟩ := Machine.step_of_mem_trace he
  have hentry : (⟨e.before, e.input, (e.before.step e.input).1, (e.before.step e.input).2⟩ :
      SessionEntry) = e := by rw [hstep]
  obtain ⟨hparse, hversion, htoken, ht⟩ :=
    (accepts_iff_acceptable ha.1 e.input h).mp (hentry.symm ▸ ha)
  obtain ⟨t, ht⟩ := Option.isSome_iff_exists.mp ht
  have hout := Session.step_hello ha.1 hparse hversion htoken ht
  rw [hstep] at hout
  exact ⟨Session.serverHello e.input.env h, congrArg Prod.snd hout, rfl⟩

/-- With the same keys, two answers differ in what is signed exactly in the transfer id. -/
theorem signedAnswer_eq_iff {env env' : Env} (hkeys : env.SameKeys env') {h h' : ClientHello} :
    signedAnswer env h = signedAnswer env' h' ↔ h.transferId = h'.transferId := by
  simp only [signedAnswer, serverHelloTranscript, Session.serverHello, Option.getD_some,
    hkeys.identity, hkeys.ephemeral, hkeys.nonce, List.append_cancel_right_eq,
    List.append_cancel_left_eq]

/-- **What an answer is bound to.** Two sessions with the same keys and nonce accept two hellos: the
bytes that are signed for the two answers differ whenever the hellos differ in the token, the nonce
or the ephemeral key of the receiver, exactly if they do not differ so or name different
transfers. -/
theorem serverHello_binding_iff {remote₁ remote₂ : Endpoint} {path₁ path₂ : Bytes}
    {ds₁ ds₂ : List Delivery} {e₁ e₂ : SessionEntry} {h₁ h₂ : ClientHello}
    (he₁ : e₁ ∈ Machine.trace Session.step (Session.fresh remote₁ path₁) ds₁)
    (he₂ : e₂ ∈ Machine.trace Session.step (Session.fresh remote₂ path₂) ds₂)
    (ha₁ : Accepts e₁ h₁) (ha₂ : Accepts e₂ h₂) (hkeys : e₁.input.env.SameKeys e₂.input.env) :
    AnswersWith e₁ h₁ ∧ AnswersWith e₂ h₂ ∧
      ((h₁.Differs h₂ → signedAnswer e₁.input.env h₁ ≠ signedAnswer e₂.input.env h₂) ↔
        ¬ h₁.Differs h₂ ∨ h₁.transferId ≠ h₂.transferId) := by
  refine ⟨answersWith_of_accepts he₁ ha₁, answersWith_of_accepts he₂ ha₂, ?_⟩
  rw [ne_eq, signedAnswer_eq_iff hkeys, imp_iff_not_or]

/-! ### The sample hello, and one with another nonce -/

/-- The hello of the sample transfer, with another nonce. -/
def sampleHelloAgain : ClientHello := { sampleHello sampleToken with receiverNonce := [1] }

/-- A hello arrives at the sender of the sample transfer. -/
def sampleEntry (h : ClientHello) : SessionEntry :=
  let d := Delivery.ofHello (sampleEnv (some sampleFile)) h samplePeer
  ⟨sampleFresh, d, (sampleFresh.step d).1, (sampleFresh.step d).2⟩

theorem sampleEntry_mem (h : ClientHello) :
    sampleEntry h ∈ Machine.trace Session.step (Session.fresh samplePeer samplePath)
      [(sampleEntry h).input] :=
  List.mem_cons_self

theorem accepts_sampleEntry {h : ClientHello} (hdeliver : h.deliverable = true)
    (hversion : h.version = protocolVersion1) (htoken : h.token ≠ []) :
    Accepts (sampleEntry h) h := by
  refine (accepts_iff_acceptable rfl _ h).mpr ⟨?_, hversion, htoken, rfl⟩
  rw [Delivery.ofHello, parse_received_clientHello, if_pos hdeliver]

/-- The hello again, answered with the same keys. -/
theorem serverHello_binding_iff_sample :
    AnswersWith (sampleEntry (sampleHello sampleToken)) (sampleHello sampleToken) ∧
      AnswersWith (sampleEntry sampleHelloAgain) sampleHelloAgain ∧
      (((sampleHello sampleToken).Differs sampleHelloAgain →
          signedAnswer (sampleEnv (some sampleFile)) (sampleHello sampleToken)
            ≠ signedAnswer (sampleEnv (some sampleFile)) sampleHelloAgain) ↔
        ¬ (sampleHello sampleToken).Differs sampleHelloAgain ∨
          (sampleHello sampleToken).transferId ≠ sampleHelloAgain.transferId) :=
  serverHello_binding_iff (sampleEntry_mem _) (sampleEntry_mem _)
    (accepts_sampleEntry sampleHello_deliverable rfl (by decide))
    (accepts_sampleEntry (by decide) rfl (by decide)) ⟨rfl, rfl, rfl⟩

/-- **A recorded answer fits a fresh hello.** Two hellos with different nonces are both accepted,
with the same keys, and the same bytes are signed for the two answers. -/
theorem recorded_answer_fits :
    Accepts (sampleEntry (sampleHello sampleToken)) (sampleHello sampleToken) ∧
      Accepts (sampleEntry sampleHelloAgain) sampleHelloAgain ∧
      (sampleHello sampleToken).receiverNonce ≠ sampleHelloAgain.receiverNonce ∧
      signedAnswer (sampleEntry (sampleHello sampleToken)).input.env (sampleHello sampleToken)
        = signedAnswer (sampleEntry sampleHelloAgain).input.env sampleHelloAgain :=
  ⟨accepts_sampleEntry sampleHello_deliverable rfl (by decide),
    accepts_sampleEntry (by decide) rfl (by decide), by decide,
    (signedAnswer_eq_iff ⟨rfl, rfl, rfl⟩).mpr rfl⟩

end Zapshare
