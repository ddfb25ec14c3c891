import Zapshare.Metadata

/-!
# What becomes of a registered transfer

`register_transfer` and `get_transfer_metadata` over runs of the central server. Between the two,
the record is packed, written as a document, read into the server's own record, stored in the
columns of a row, and taken the same way back; other clients may do in the meantime whatever they
like, except registering something under the same id.

An id that no path can have is registered all the same, and cannot be asked for.

## Main results

* `metadata_survives` — what is asked for is what was registered last
* `unroutable_id_lost` — not for every id
-/

namespace Zapshare

open Wire

namespace Utils

variable {platform : Platform} {t : Transfers} {s : Server}

/-! ### One registration -/

/-- The row that a registration of a transfer stands for. -/
theorem postedRow_registerTransfer (hplatform : platform.Documented) (ht : Storable t)
    {request : Request} (hrequest : registerTransfer platform t = some request) (now : Timestamp) :
    Server.postedRow platform request.body now = some ((payload t).row now) := by
  obtain ⟨body, data, hdump, hparse, hfind⟩ :=
    hplatform.parse_dump (registration t) (flat_registration ht)
  rw [registerTransfer, hdump] at hrequest
  cases hrequest
  change Server.postedRow platform body now = _
  rw [Server.postedRow, hparse, Option.map_some, transferRowFromJson_of_find hfind]
  exact Payload.columns_eq hplatform (payload_storable ht) now

theorem routed_registerTransfer {request : Request}
    (hrequest : registerTransfer platform t = some request) :
    Server.routed request = some .register := by
  rw [registerTransfer] at hrequest
  obtain ⟨body, -, rfl⟩ := Option.map_eq_some_iff.mp hrequest
  exact Server.routed_register body

/-- The row under the id of a transfer, apart from what no registration sets. -/
def HasFields (s : Server) (t : Transfers) : Prop :=
  (s.table.row t.id).map Row.fields = some ((payload t).row .empty).fields

/-- A registration stores its row, unless the database fails. -/
theorem step_registerTransfer (hplatform : platform.Documented) (ht : Storable t) {call : Call}
    (hrequest : registerTransfer platform t = some call.request) (hrunning : s.running = true) :
    s.step platform (.call call) =
      if (s.connection call).Clear 3 then
        ({ s with table := s.table.upsert ((payload t).row call.now) }, [{ status := 201 }])
      else (s, [{ status := 200 }]) := by
  have hposted := postedRow_registerTransfer hplatform ht hrequest call.now
  rcases @Server.step_register platform s call hrunning (routed_registerTransfer hrequest) with
    ⟨data, hparse, -, haborted, -⟩ | ⟨hrow, h⟩ | ⟨row, hrow, h⟩
  · -- the posted document is read to its end
    simp [Server.postedRow, hparse, haborted] at hposted
  · rw [Server.storedRow, hposted] at hrow
    rw [h, if_neg]
    intro hclear
    simp [hclear] at hrow
  · rw [Server.storedRow, hposted] at hrow
    split at hrow
    · rename_i hclear
      cases hrow
      rw [h, if_pos hclear]
    · cases hrow

/-- A registration that was answered with success has stored the fields. -/
theorem hasFields_of_registered (hplatform : platform.Documented) (ht : Storable t) {call : Call}
    (hrequest : registerTransfer platform t = some call.request)
    (hsuccess : (s.step platform (.call call)).2 = [{ status := 201 }]) :
    HasFields (s.step platform (.call call)).1 t := by
  cases hrunning : s.running with
  | false => simp [Server.step, hrunning] at hsuccess
  | true =>
    have hstep := step_registerTransfer hplatform ht hrequest hrunning
    split at hstep
    · rw [hstep, HasFields, Table.fields_upsert]
      exact if_pos rfl
    · simp [hstep] at hsuccess

/-! ### The requests for it -/

/-- A transfer whose fields are stored is found. -/
theorem lookUp_of_hasFields (hid : Server.Routable t.id) (hrunning : s.running = true)
    (hfields : HasFields s t) {faults : ℕ → Bool} (hfaults : ∀ i < 2, faults i = false) :
    lookUp platform s faults t.id = (s, true) := by
  obtain ⟨res, hstep, hres⟩ := @Server.step_lookup platform s
    (getCall platform faults (text "/lookup/" ++ t.id)) hrunning t.id (Server.routed_lookup hid)
  obtain ⟨row, hrow, -⟩ := Option.map_eq_some_iff.mp hfields
  have hanswer := hres hfaults
  rw [hrow] at hanswer
  simp [lookUp, clientGet_of_step hstep, hanswer]

/-- A transfer whose fields are stored is returned. -/
theorem getTransferMetadata_of_hasFields (hplatform : platform.Documented) (ht : Storable t)
    (hid : Server.Routable t.id) (hrunning : s.running = true) (hfields : HasFields s t)
    {faults : ℕ → Bool} (hfaults : ∀ i < 6, faults i = false) :
    (getTransferMetadata platform s faults t.id).2 = .ok t := by
  obtain ⟨row, hrow, hrowFields⟩ := Option.map_eq_some_iff.mp hfields
  have hread := DB.toTransferRow_of_fields (payload_storable ht) hrowFields
  obtain ⟨body, data, hdump, hparse, hfind⟩ :=
    hplatform.parse_dump _ (flat_returnedRow ht (row.createdAt.getD .empty))
  have hcreated : (row.createdAt.getD .empty).bytes
      = (row.createdAt.map Timestamp.bytes).getD [] := by
    cases row.createdAt <;> rfl
  have hbody : (s.table.row t.id).bind (Server.fileBody platform) = some body := by
    rw [hrow, Option.bind_some, Server.fileBody, hread, ← hcreated]
    exact hdump
  rcases @Server.step_getfile platform s (getCall platform faults (text "/getfile/" ++ t.id))
      hrunning t.id (Server.routed_getfile hid) with
    ⟨body', -, hbody', hstep⟩ | ⟨table, hwhy, -, -⟩
  · rw [hbody] at hbody'
    cases hbody'
    rw [getTransferMetadata, clientGet_of_step hstep]
    exact (metadataOfResponse_of_parse hparse).trans (transferMetadataFromJson_of_find ht hfind)
  · rw [hbody] at hwhy
    rcases hwhy with hclear | hnone
    · exact absurd hfaults hclear
    · cases hnone

/-! ### Runs -/

/-- In a run, the last registration under the id of a transfer that was answered with success is
its own. -/
def LastRegistered (platform : Platform) (s : Server) (events : List ServerEvent) (t : Transfers) :
    Prop :=
  ∃ before e after call, Machine.trace (Server.step platform) s events = before ++ e :: after ∧
    e.input = .call call ∧ registerTransfer platform t = some call.request ∧
    e.output = [{ status := 201 }] ∧
    ∀ e' ∈ after, ∀ row, Server.Registered platform e' row → row.id ≠ t.id

/-- **What was registered last is still there.** -/
theorem hasFields_final (hplatform : platform.Documented) (ht : Storable t)
    {events : List ServerEvent} (hlast : LastRegistered platform s events t) :
    HasFields (Machine.final (Server.step platform) s events) t := by
  obtain ⟨before, e, after, call, htrace, hinput, hrequest, hsuccess, hafter⟩ := hlast
  obtain ⟨pre, i, post, rfl, rfl, rfl⟩ := Machine.trace_split htrace
  obtain rfl : i = .call call := hinput
  have hfields := hasFields_of_registered hplatform ht hrequest hsuccess
  rw [Machine.trace_append] at htrace
  obtain ⟨-, hpost⟩ := List.cons.inj (List.append_cancel_left htrace)
  rw [Machine.final_append, Machine.final_cons, HasFields,
    Server.fields_final (hpost ▸ hafter)]
  exact hfields

/-- **Metadata survives the rendezvous.** Whatever was asked of the server in the meantime, a
transfer that was registered last under its id is found, and is returned as it was. -/
theorem metadata_survives (hplatform : platform.Documented) (ht : Storable t)
    (hid : Server.Routable t.id) {events : List ServerEvent}
    (hlast : LastRegistered platform s events t)
    (hrunning : (Machine.final (Server.step platform) s events).running = true)
    {faults : ℕ → Bool} (hfaults : ∀ i < 6, faults i = false) :
    (lookUp platform (Machine.final (Server.step platform) s events) faults t.id).2 = true ∧
      (getTransferMetadata platform (Machine.final (Server.step platform) s events) faults t.id).2
        = .ok t := by
  have hfields := hasFields_final hplatform ht hlast
  constructor
  · rw [lookUp_of_hasFields hid hrunning hfields fun i hi => hfaults i (by omega)]
  · exact getTransferMetadata_of_hasFields hplatform ht hid hrunning hfields hfaults

theorem storable_sampleTransfer {id fileName : Bytes} (hid : utf8Valid id = true ∧ 0 ∉ id)
    (hname : utf8Valid fileName = true ∧ 0 ∉ fileName) : Storable (sampleTransfer id fileName) where
  texts := by
    simp only [sampleTransfer, List.forall_mem_cons]
    exact ⟨hid, by decide, by decide, by decide, hname, by decide, hid, List.forall_mem_nil _⟩
  senderIp := (by decide : 59 ∉ text "203.0.113.5")
  senderLocalIp := (by decide : 58 ∉ text "192.168.1.2")
  senderLocalPort_le := (by decide : 5173 ≤ 65535)
  senderLocalPort_eq := (by decide : text "192.168.1.2" = [] → (5173 : UInt32) = 0)
  senderPort_lt := (by decide : 5173 < 2 ^ 31)
  fileSize_lt := (by decide : 1 < 2 ^ 63)

theorem routable_sample : Server.Routable (text "a") := ⟨by decide, by decide, by decide⟩

/-- The server after the registration of a sample transfer. -/
theorem final_sample {t : Transfers} (ht : Storable t)
    (hrequest : registerTransfer samplePlatform t = some (sampleCall t).request) :
    LastRegistered samplePlatform .fresh [.call (sampleCall t)] t ∧
      (Machine.final (Server.step samplePlatform) .fresh [.call (sampleCall t)]).running
        = true := by
  have hstep := @step_registerTransfer samplePlatform t .fresh samplePlatform_documented ht
    (sampleCall t) hrequest rfl
  have hclear : (Server.fresh.connection (sampleCall t)).Clear 3 := fun _ _ => rfl
  rw [if_pos hclear] at hstep
  constructor
  · refine ⟨[], _, [], sampleCall t, rfl, rfl, hrequest, ?_, fun _ h => nomatch h⟩
    rw [hstep]
  · rw [Machine.final_cons, Machine.final_nil, hstep]
    rfl

theorem metadata_survives_sample :
    let t := sampleTransfer (text "a") (text "f")
    let server := Machine.final (Server.step samplePlatform) .fresh [.call (sampleCall t)]
    (lookUp samplePlatform server (fun _ => false) t.id).2 = true ∧
      (getTransferMetadata samplePlatform server (fun _ => false) t.id).2 = .ok t := by
  have ht : Storable (sampleTransfer (text "a") (text "f")) :=
    storable_sampleTransfer (by decide) (by decide)
  obtain ⟨hlast, hrunning⟩ := final_sample ht (registerTransfer_sample (_, _) (by decide))
  exact metadata_survives samplePlatform_documented ht routable_sample hlast hrunning
    fun _ _ => rfl

/-- An id that no path can have is not found. -/
theorem lookUp_of_not_routed (hrunning : s.running = true) {faults : ℕ → Bool} {id : Bytes}
    (hroute : Server.routed (Http.getRequest platform (text "/lookup/" ++ id)) = none) :
    (lookUp platform s faults id).2 = false := by
  obtain ⟨answers, hstep, hcases⟩ := @Server.step_not_routed platform
    (getCall platform faults (text "/lookup/" ++ id)) hroute
  rcases hcases with ⟨rfl, -⟩ | ⟨status, rfl, hstatus, -⟩
  · simp [lookUp, clientGet, hstep s hrunning]
  have hbody : text "Error Status: " ++ decimal status ≠ text "True" := by
    intro h
    have hhead := congrArg List.head? h
    simp [text] at hhead
  simp [lookUp, clientGet_of_step (hstep s hrunning), errorHandler, hstatus.1, hbody]

/-- And what it is answered with is no document. -/
theorem getTransferMetadata_of_not_routed (hrunning : s.running = true) {faults : ℕ → Bool}
    {id : Bytes} (hroute : Server.routed (Http.getRequest platform (text "/getfile/" ++ id)) = none)
    (hparse : ∀ status, platform.parse (text "Error Status: " ++ decimal status) = none) :
    (getTransferMetadata platform s faults id).2 = .error .thrown := by
  obtain ⟨answers, hstep, hcases⟩ := @Server.step_not_routed platform
    (getCall platform faults (text "/getfile/" ++ id)) hroute
  rcases hcases with ⟨rfl, -⟩ | ⟨status, rfl, hstatus, -⟩
  · rw [getTransferMetadata, clientGet, hstep s hrunning]
    rfl
  rw [getTransferMetadata, clientGet_of_step (hstep s hrunning), errorHandler, if_pos hstatus.1]
  exact metadataOfResponse_of_not_parse (hparse status)

/-- While the database does not answer, nothing is returned. -/
theorem getTransferMetadata_of_fault (hrunning : s.running = true) {id : Bytes}
    (hid : Server.Routable id) (hparse : platform.parse [] = none) :
    (getTransferMetadata platform s (fun _ => true) id).2 = .error .thrown := by
  rcases @Server.step_getfile platform s (getCall platform (fun _ => true) (text "/getfile/" ++ id))
      hrunning id (Server.routed_getfile hid) with
    ⟨body, hclear, -, -⟩ | ⟨table, -, -, hstep⟩
  · exact absurd (hclear 0 (by decide)) (by simp [Server.connection, getCall])
  · rw [getTransferMetadata, clientGet_of_step hstep]
    exact metadataOfResponse_of_not_parse hparse

/-- A transfer whose id has an underscore is registered, and cannot be asked for. And one that can
be is not returned while the database does not answer. -/
theorem unroutable_id_lost :
    (let t := sampleTransfer (text "a_b") (text "f")
      let server := Machine.final (Server.step samplePlatform) .fresh [.call (sampleCall t)]
      LastRegistered samplePlatform .fresh [.call (sampleCall t)] t ∧ Storable t ∧
        server.running = true ∧ (lookUp samplePlatform server (fun _ => false) t.id).2 = false ∧
        (getTransferMetadata samplePlatform server (fun _ => false) t.id).2 = .error .thrown) ∧
      (let t := sampleTransfer (text "a") (text "f")
        let server := Machine.final (Server.step samplePlatform) .fresh [.call (sampleCall t)]
        LastRegistered samplePlatform .fresh [.call (sampleCall t)] t ∧ Storable t ∧
          server.running = true ∧
          (getTransferMetadata samplePlatform server (fun _ => true) t.id).2 = .error .thrown) := by
  have ht : Storable (sampleTransfer (text "a_b") (text "f")) :=
    storable_sampleTransfer (by decide) (by decide)
  have ht' : Storable (sampleTransfer (text "a") (text "f")) :=
    storable_sampleTransfer (by decide) (by decide)
  obtain ⟨hlast, hrunning⟩ := final_sample ht (registerTransfer_sample (_, _) (by decide))
  obtain ⟨hlast', hrunning'⟩ := final_sample ht' (registerTransfer_sample (_, _) (by decide))
  refine ⟨⟨hlast, ht, hrunning, lookUp_of_not_routed hrunning (by decide +kernel),
    getTransferMetadata_of_not_routed hrunning (by decide +kernel) fun status => ?_⟩,
    hlast', ht', hrunning', getTransferMetadata_of_fault hrunning' routable_sample
      (samplePlatform_parse_eq_none (by decide))⟩
  exact samplePlatform_parse_eq_none (by simp [text])

end Utils

end Zapshare
