import Zapshare.Metadata
import Zapshare.Session

/-!
# Documents without a member

`transfer_row_from_json` and `transfer_metadata_from_json` read one member of a document after the
other, inside of functions that catch exceptions. A member of another type is an exception. A
member that is not there is not: if nothing threw before it is read, the process ends.

## Main results

* `transferRowFromJson_aborts_iff`, `transferMetadataFromJson_aborts_iff` — the documents that end
  the process
* `documents_harmless_iff` — all others are stored or read, or are answered with an exception
* `empty_document_aborts` — the empty object is not
-/

namespace Zapshare

open Wire

/-! ### Reading in order -/

/-- What a function asks of a document at one point: a member, or something else that throws if it
is not the case. -/
inductive Check
  | field (field : Json.Field)
  | holds (P : Json → Prop)

/-- The first thing that goes wrong is a member that is not there. -/
def Missing (data : Json) : List Check → Prop
  | [] => False
  | .field f :: checks => data.Lacks f.name ∨ data.Reads f ∧ Missing data checks
  | .holds P :: checks => P data ∧ Missing data checks

/-- A call that does not end the process, and what follows it. -/
theorem bind_aborts_iff {α β : Type} {r : Except Fault α} {f : α → Except Fault β} {P Q : Prop}
    (hr : r ≠ .error .aborted) (hok : (∃ a, r = .ok a) ↔ P)
    (hf : ∀ a, r = .ok a → (f a = .error .aborted ↔ Q)) :
    (r >>= f) = .error .aborted ↔ P ∧ Q := by
  cases r with
  | ok a =>
    have hP : P := hok.mp ⟨a, rfl⟩
    refine (hf a rfl).trans ?_
    exact (and_iff_right hP).symm
  | error e =>
    have hP : ¬ P := by
      intro hP
      obtain ⟨a, ha⟩ := hok.mpr hP
      cases ha
    constructor
    · intro h
      cases h
      exact absurd rfl hr
    · intro h
      exact absurd h.1 hP

/-! ### A registration -/

/-- What `transfer_row_from_json` asks of a document. -/
def rowChecks : List Check :=
  [.field ⟨text "id", .string⟩, .field ⟨text "sender_ip", .string⟩,
    .field ⟨text "sender_port", .uint32⟩, .field ⟨text "protocol", .string⟩,
    .field ⟨text "file_name", .string⟩, .field ⟨text "file_size", .size⟩,
    .field ⟨text "file_hash", .string⟩, .field ⟨text "token", .string⟩]

/-- Both functions end with the same reads. -/
theorem lastReads_aborts_iff {α : Type} (platform : Platform) (data : Json)
    (f : Bytes → Bytes → UInt64 → Bytes → Bytes → α) :
    (do
      let protocol ← data.read Json.toStdString (text "protocol")
      let fileName ← data.read Json.toStdString (text "file_name")
      let fileSize ← data.read (Json.toSize platform) (text "file_size")
      let fileHash ← data.read Json.toStdString (text "file_hash")
      let token ← data.read Json.toStdString (text "token")
      return f protocol fileName fileSize fileHash token) = Except.error Fault.aborted ↔
      Missing data [.field ⟨text "protocol", .string⟩, .field ⟨text "file_name", .string⟩,
        .field ⟨text "file_size", .size⟩, .field ⟨text "file_hash", .string⟩,
        .field ⟨text "token", .string⟩] := by
  have hstring := Json.converts_toStdString
  refine Json.read_bind_aborts_iff hstring fun protocol _ => ?_
  refine Json.read_bind_aborts_iff hstring fun fileName _ => ?_
  refine Json.read_bind_aborts_iff (Json.converts_toSize platform) fun fileSize _ => ?_
  refine Json.read_bind_aborts_iff hstring fun fileHash _ => ?_
  refine Json.read_bind_aborts_iff hstring fun token _ => ?_
  exact iff_of_false (fun h => nomatch h) fun h => h

theorem transferRowFromJson_aborts_iff (platform : Platform) (data : Json) :
    DB.transferRowFromJson platform data = .error .aborted ↔ Missing data rowChecks := by
  have hstring := Json.converts_toStdString
  have huint32 := Json.converts_toUInt32 platform
  refine Json.read_bind_aborts_iff hstring fun id _ => ?_
  refine Json.read_bind_aborts_iff hstring fun senderIp _ => ?_
  refine Json.read_bind_aborts_iff huint32 fun senderPort _ => ?_
  exact lastReads_aborts_iff platform data _

/-! ### The metadata of a transfer -/

/-- The packed address can be taken apart. -/
def Unpacks (data : Json) : Prop :=
  ∃ rawIp a, data.find (text "sender_ip") = some (.string rawIp) ∧
    Utils.unpackSenderIp rawIp = .ok a

/-- A member that need not be there. -/
def Optional (data : Json) (field : Json.Field) : Prop :=
  data.find field.name = none ∨ data.Reads field

/-- The local address is packed, or the members that stand in for it are of the right types. -/
def LocalReads (data : Json) : Prop :=
  (∃ rawIp a, data.find (text "sender_ip") = some (.string rawIp) ∧
    Utils.unpackSenderIp rawIp = .ok a ∧ a.2.1 ≠ []) ∨
  Optional data ⟨text "sender_local_ip", .string⟩ ∧
    Optional data ⟨text "sender_local_port", .uint32⟩

/-- What `transfer_metadata_from_json` asks of a document. -/
def metadataChecks : List Check :=
  [.field ⟨text "id", .string⟩, .field ⟨text "sender_ip", .string⟩, .holds Unpacks,
    .field ⟨text "sender_port", .uint32⟩, .holds LocalReads, .field ⟨text "protocol", .string⟩,
    .field ⟨text "file_name", .string⟩, .field ⟨text "file_size", .size⟩,
    .field ⟨text "file_hash", .string⟩, .field ⟨text "token", .string⟩]

/-- A string that was read is the member. -/
theorem find_of_read_string {data : Json} {name s : Bytes}
    (h : data.read Json.toStdString name = .ok s) : data.find name = some (.string s) := by
  cases hfind : data.find name with
  | some v =>
    rw [Json.read_of_find hfind] at h
    cases v <;> cases h
    rfl
  | none =>
    cases data with
    | object members =>
      have hlacks : (Json.object members).Lacks name := ⟨rfl, hfind⟩
      rw [Json.read_of_lacks hlacks] at h
      cases h
    | _ => cases h

theorem unpackSenderIp_ne_aborted (rawIp : Bytes) :
    Utils.unpackSenderIp rawIp ≠ .error .aborted := by
  rw [Utils.unpackSenderIp]
  split
  · simp
  · split
    · simp
    · rename_i port _
      cases stoi port <;> simp [orThrow, Except.map]

theorem localAddress_cases (platform : Platform) (data : Json) (localIp : Bytes)
    (localPort : UInt32) :
    Utils.localAddress platform data localIp localPort ≠ .error .aborted ∧
      ((∃ a, Utils.localAddress platform data localIp localPort = .ok a) ↔
        localIp ≠ [] ∨ Optional data ⟨text "sender_local_ip", .string⟩ ∧
          Optional data ⟨text "sender_local_port", .uint32⟩) := by
  rw [Utils.localAddress]
  split
  · rename_i hnil
    obtain ⟨hip, hipIff⟩ := Json.readOr_cases Json.converts_toStdString data
      (text "sender_local_ip") []
    obtain ⟨hport, hportIff⟩ := Json.readOr_cases (Json.converts_toUInt32 platform) data
      (text "sender_local_port") 0
    rw [Optional, Optional, ← hipIff, ← hportIff, Utils.localFields]
    cases hreadIp : data.readOr Json.toStdString (text "sender_local_ip") [] with
    | error e =>
      rw [hreadIp] at hip
      exact ⟨by simpa [bind, Except.bind] using hip, by simp [hnil, bind, Except.bind]⟩
    | ok ip =>
      cases hreadPort : data.readOr (Json.toUInt32 platform) (text "sender_local_port") 0 with
      | error e =>
        rw [hreadPort] at hport
        exact ⟨by simpa [bind, Except.bind] using hport, by simp [hnil, bind, Except.bind]⟩
      | ok port => exact ⟨by simp [bind, Except.bind, pure, Except.pure], by
          simp [bind, Except.bind, pure, Except.pure]⟩
  · rename_i hne
    exact ⟨by simp, iff_of_true ⟨_, rfl⟩ (Or.inl hne)⟩

theorem transferMetadataFromJson_aborts_iff (platform : Platform) (data : Json) :
    Utils.transferMetadataFromJson platform data = .error .aborted
      ↔ Missing data metadataChecks := by
  have hstring := Json.converts_toStdString
  have huint32 := Json.converts_toUInt32 platform
  refine Json.read_bind_aborts_iff hstring fun id _ => ?_
  refine Json.read_bind_aborts_iff hstring fun rawIp hraw => ?_
  have hfind := find_of_read_string hraw
  have hpacked (rawIp' : Bytes) :
      data.find (text "sender_ip") = some (.string rawIp') ↔ rawIp' = rawIp := by
    rw [hfind]
    constructor
    · rintro ⟨⟩
      rfl
    · rintro rfl
      rfl
  refine bind_aborts_iff (unpackSenderIp_ne_aborted rawIp) ?_ fun a ha => ?_
  · simp only [Unpacks, hpacked, exists_and_left, exists_eq_left]
  refine Json.read_bind_aborts_iff huint32 fun senderPort _ => ?_
  refine bind_aborts_iff (localAddress_cases platform data a.2.1 a.2.2).1 ?_ fun b _ => ?_
  · rw [(localAddress_cases platform data a.2.1 a.2.2).2, LocalReads]
    simp only [hpacked, exists_and_left, exists_eq_left, ha, Except.ok.injEq, exists_eq_left']
  exact lastReads_aborts_iff platform data _

/-! ### The functions that catch exceptions -/

/-- `register_transfers` stores a row with all fields of the document, or throws and stores
nothing. -/
def StoresOrThrows (platform : Platform) (now : Timestamp) (owner : ℕ) (c : Connection)
    (data : Json) : Prop :=
  let r := (DB.registerTransfers platform data).run (Connection.exec platform now owner) c
  (∃ p row, DB.transferRowFromJson platform data = .ok p ∧ p.columns platform now = some row ∧
    r.1 = .ok () ∧ r.2.table = c.table.upsert row) ∨
  (r.1 = .error .thrown ∧ r.2.table = c.table)

/-- A function returns, or throws. -/
def YieldsOrThrows {α : Type} (r : Except Fault α) : Prop := (∃ a, r = .ok a) ∨ r = .error .thrown

theorem yieldsOrThrows_iff {α : Type} (r : Except Fault α) :
    YieldsOrThrows r ↔ r ≠ .error .aborted := by
  cases r with
  | ok a => exact iff_of_true (Or.inl ⟨a, rfl⟩) (by simp)
  | error e => cases e <;> simp [YieldsOrThrows]

theorem storesOrThrows_iff (platform : Platform) (now : Timestamp) (owner : ℕ) (c : Connection)
    (data : Json) :
    StoresOrThrows platform now owner c data ↔
      ¬ (c.txn = none ∧ c.faults 0 = false ∧ Missing data rowChecks) := by
  rw [← transferRowFromJson_aborts_iff platform, StoresOrThrows]
  by_cases hidle : c.txn = none
  · rcases @DB.registerTransfers_cases platform now owner c hidle data with
      ⟨h0, hp, hr, htable⟩ | ⟨hr, htable, hwhy⟩ | ⟨p, row, hclear, hp, hrow, hr, htable⟩
    · refine iff_of_false ?_ (not_not_intro ⟨hidle, h0, hp⟩)
      rw [hr]
      simp
    · refine iff_of_true (Or.inr ⟨hr, htable⟩) ?_
      rintro ⟨-, h0, hp⟩
      rw [DB.run_registerTransfers_aborted hidle h0 hp] at hr
      cases hr
    · refine iff_of_true (Or.inl ⟨p, row, hp, hrow, hr, htable⟩) ?_
      rintro ⟨-, -, haborted⟩
      rw [hp] at haborted
      cases haborted
  · have hbusy : (DB.registerTransfers platform data).run (Connection.exec platform now owner) c
        = (.error .thrown, c.shift) := run_transaction_busy hidle
    constructor
    · rintro - ⟨hnone, -⟩
      exact hidle hnone
    · intro
      rw [hbusy]
      exact Or.inr ⟨rfl, rfl⟩

/-- The server stays up, unless it is asked to store a document that ends the process. -/
theorem step_running_iff (platform : Platform) (s : Server) (call : Call) :
    (s.step platform (.call call)).1.running = s.running ↔
      ¬ (s.running = true ∧ Server.routed call.request = some .register ∧ call.faults 0 = false ∧
        ∃ data, platform.parse call.request.body = some data ∧ Missing data rowChecks) := by
  cases hrunning : s.running with
  | false => simp [Server.step, hrunning]
  | true =>
    cases hroute : Server.routed call.request with
    | none =>
      obtain ⟨answers, h, -⟩ := @Server.step_not_routed platform call hroute
      simp [h s hrunning, hrunning]
    | some handler =>
      cases handler with
      | register =>
        have haborted : ∀ data, platform.parse call.request.body = some data →
            Missing data rowChecks → call.faults 0 = false →
            (s.step platform (.call call)).1.running = false := by
          intro data hparse hmissing h0
          rw [Server.step_register_aborted hrunning hroute h0 hparse
            ((transferRowFromJson_aborts_iff platform data).mpr hmissing)]
        rcases @Server.step_register platform s call hrunning hroute with
          ⟨data, hparse, h0, hp, h⟩ | ⟨-, h⟩ | ⟨row, -, h⟩
        · refine iff_of_false (by simp [h]) (not_not_intro ⟨rfl, rfl, h0, data, hparse, ?_⟩)
          exact (transferRowFromJson_aborts_iff platform data).mp hp
        · refine iff_of_true (by simp [h, hrunning]) ?_
          rintro ⟨-, -, h0, data, hparse, hmissing⟩
          simpa [h, hrunning] using haborted data hparse hmissing h0
        · refine iff_of_true (by simp [h, hrunning]) ?_
          rintro ⟨-, -, h0, data, hparse, hmissing⟩
          simpa [h, hrunning] using haborted data hparse hmissing h0
      | lookup secret =>
        obtain ⟨res, h, -⟩ := @Server.step_lookup platform s call hrunning secret hroute
        simp [h, hrunning]
      | getfile secret =>
        rcases @Server.step_getfile platform s call hrunning secret hroute with
          ⟨body, -, -, h⟩ | ⟨table, -, -, h⟩ <;> simp [h, hrunning]
      | postSignal id =>
        rw [Server.step_routed hrunning hroute]
        simp [Server.dispatch, hrunning]
      | getSignal id =>
        rw [Server.step_routed hrunning hroute]
        simp [Server.dispatch, hrunning]
      | health =>
        rw [Server.step_routed hrunning hroute]
        simp [Server.dispatch, hrunning]

/-- `Session::validate_token`, in a process that may end: a `catch (...)` is no help against a
failed assertion. -/
def validateToken (session : Session) : Except Fault Transfers → Except Fault (Session × Bool)
  | .ok t => .ok ({ session with mTransferMetadata := t }, true)
  | .error .thrown => .ok (session, false)
  | .error .aborted => .error .aborted

/-- As long as it does not end, it answers as the session of a process that cannot. -/
theorem validateToken_eq {env : Env} {token : Bytes} {session : Session}
    {r : Except Fault Transfers} (henv : env.getTransferMetadata token = r.toOption)
    (hr : r ≠ .error .aborted) :
    validateToken session r = .ok (session.validateToken env token) := by
  rw [Session.validateToken, henv]
  cases r with
  | ok t => rfl
  | error e =>
    cases e with
    | thrown => rfl
    | aborted => exact absurd rfl hr

/-- Nor is it against a document without a member. -/
theorem validateToken_answers_iff (platform : Platform) (session : Session)
    (res : Option Response) :
    (∃ a, validateToken session (Utils.metadataOfResponse platform res) = .ok a) ↔
      ¬ ∃ r data, res = some r ∧ platform.parse r.body = some data ∧
        Missing data metadataChecks := by
  have hanswers : ∀ r : Except Fault Transfers,
      (∃ a, validateToken session r = .ok a) ↔ r ≠ .error .aborted := by
    intro r
    cases r with
    | ok t => simp [validateToken]
    | error e => cases e <;> simp [validateToken]
  rw [hanswers]
  cases res with
  | none => simp [Utils.metadataOfResponse, orThrow, bind, Except.bind]
  | some r =>
    cases hparse : platform.parse r.body with
    | none => simp [Utils.metadataOfResponse_of_not_parse hparse, hparse]
    | some data =>
      rw [Utils.metadataOfResponse_of_parse hparse, Ne,
        transferMetadataFromJson_aborts_iff platform data]
      simp [hparse]

/-- **Only documents without a member do harm.** What is posted is stored as a row, or there is an
exception and the table is unchanged, unless the transaction has been opened and the first thing
wrong with the document is a member that is not there. No other request ends the server. The
metadata of a transfer is read, or there is an exception and `validate_token` answers false, unless
the first thing wrong with what the server answered is a member that is not there. -/
theorem documents_harmless_iff (platform : Platform) :
    (∀ now owner c data, StoresOrThrows platform now owner c data ↔
      ¬ (c.txn = none ∧ c.faults 0 = false ∧ Missing data rowChecks)) ∧
    (∀ s call, (Server.step platform s (.call call)).1.running = s.running ↔
      ¬ (s.running = true ∧ Server.routed call.request = some .register ∧ call.faults 0 = false ∧
        ∃ data, platform.parse call.request.body = some data ∧ Missing data rowChecks)) ∧
    (∀ data, YieldsOrThrows (Utils.transferMetadataFromJson platform data) ↔
      ¬ Missing data metadataChecks) ∧
    (∀ session res, (∃ a, validateToken session (Utils.metadataOfResponse platform res) = .ok a) ↔
      ¬ ∃ r data, res = some r ∧ platform.parse r.body = some data ∧
        Missing data metadataChecks) := by
  refine ⟨storesOrThrows_iff platform, step_running_iff platform, ?_,
    validateToken_answers_iff platform⟩
  intro data
  rw [yieldsOrThrows_iff, Ne, transferMetadataFromJson_aborts_iff]

/-- The empty object lacks every member: it ends the server, and whoever is answered with it. -/
theorem empty_document_aborts :
    let c : Connection := { table := Server.fresh.table }
    let post : Request := { method := .post, target := text "/register", body := text "\x7b\x7d" }
    let answer : Response := { status := 200, body := text "\x7b\x7d" }
    ¬ StoresOrThrows Utils.samplePlatform .empty 0 c (.object []) ∧
      (Server.step Utils.samplePlatform .fresh (.call { request := post })).1.running = false ∧
      ¬ YieldsOrThrows (Utils.transferMetadataFromJson Utils.samplePlatform (.object [])) ∧
      validateToken { mRemoteEndpoint := samplePeer, mFilePath := samplePath }
        (Utils.metadataOfResponse Utils.samplePlatform (some answer)) = .error .aborted := by
  intro c post answer
  have hmissing : Missing (.object []) rowChecks := Or.inl ⟨rfl, rfl⟩
  refine ⟨?_, by rfl, ?_, by rfl⟩
  · rw [storesOrThrows_iff]
    exact not_not_intro ⟨rfl, rfl, hmissing⟩
  · rw [yieldsOrThrows_iff, Ne, transferMetadataFromJson_aborts_iff]
    exact not_not_intro (Or.inl ⟨rfl, rfl⟩)

end Zapshare
