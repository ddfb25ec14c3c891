import Zapshare.Metadata

/-!
# What a status says

The handlers of `/register` and `/getfile` set the status when they succeed, and only then. What
they catch is written to the log, and leaves the status to the framework, whose choice is 200. A
request that the framework itself refuses, and an exception that no handler catches, is answered
with an error.

## Main results

* `register_truthful_iff`, `getfile_truthful_iff` — the requests whose status tells the truth
* `status_truthful_iff` — both
* `failures_are_answered_200` — a body that is no document, and a secret that nobody registered
-/

namespace Zapshare

open Wire

/-- An answer that tells the truth about what took effect: it is one of success if something did,
and an error if nothing did. -/
def Truthful (effect : Response → Prop) (answers : List Response) : Prop :=
  ∃ res, answers = [res] ∧ (res.Success ↔ effect res) ∧
    (¬ effect res → 400 ≤ res.status ∧ res.status < 600)

/-- No answer does not tell the truth. -/
theorem not_truthful_nil {effect : Response → Prop} : ¬ Truthful effect [] := by
  rintro ⟨res, hres, -⟩
  cases hres

theorem truthful_of_success {effect : Response → Prop} {res : Response} (hres : res.Success) :
    Truthful effect [res] ↔ effect res := by
  constructor
  · rintro ⟨res', hcons, hiff, -⟩
    cases hcons
    exact hiff.mp hres
  · intro h
    refine ⟨res, rfl, iff_of_true hres h, ?_⟩
    intro hno
    exact absurd h hno

theorem truthful_of_error {effect : Response → Prop} {status : ℕ}
    (hstatus : 400 ≤ status ∧ status < 500) :
    Truthful effect [errorHandler { status }] ↔ ¬ effect (errorHandler { status }) := by
  have hsame : (errorHandler { status }).status = status := by
    rw [errorHandler, if_pos hstatus.1]
  have hno : ¬ (errorHandler { status }).Success := by
    rw [Response.Success, hsame]
    omega
  constructor
  · rintro ⟨res', hcons, hiff, -⟩ h
    cases hcons
    exact hno (hiff.mpr h)
  · intro h
    refine ⟨_, rfl, iff_of_false hno h, ?_⟩
    intro
    rw [hsame]
    omega

/-! ### `/register` -/

/-- A row with the fields of a registration. -/
structure Row.Holds (row : Row) (p : Payload) : Prop where
  id : row.id = p.id
  senderIp : row.senderIp = p.senderIp
  senderPort : row.senderPort.toInt = p.senderPort.toNat
  protocol : row.protocol = p.protocol
  fileName : row.fileName = some p.fileName
  fileSize : row.fileSize.map Int64.toInt = some (p.fileSize.toNat : ℤ)
  fileHash : row.fileHash = some p.fileHash
  token : row.token = p.token

/-- The row under the id of the posted fields holds them. -/
def PostedHeld (platform : Platform) (body : Bytes) (row : Bytes → Option Row) : Prop :=
  ∃ data p r, platform.parse body = some data ∧ DB.transferRowFromJson platform data = .ok p ∧
    row p.id = some r ∧ r.Holds p

/-- The status of a registration tells the truth. -/
def RegisterTruthful (platform : Platform) (s : Server) (call : Call) : Prop :=
  let r := s.step platform (.call call)
  Truthful (fun _ => PostedHeld platform call.request.body r.1.table.row) r.2

/-- The row that is going to stand under an id: the one that is stored, or else the one that is
there. -/
def rowAfter (platform : Platform) (s : Server) (call : Call) (id : Bytes) : Option Row :=
  ((Server.storedRow platform s call).filter fun row => row.id = id).or (s.table.row id)

variable {platform : Platform} {s : Server} {call : Call}

theorem Row.holds_fields {row : Row} {p : Payload} : row.fields.Holds p ↔ row.Holds p :=
  ⟨fun ⟨h1, h2, h3, h4, h5, h6, h7, h8⟩ => ⟨h1, h2, h3, h4, h5, h6, h7, h8⟩,
    fun ⟨h1, h2, h3, h4, h5, h6, h7, h8⟩ => ⟨h1, h2, h3, h4, h5, h6, h7, h8⟩⟩

/-- Whether a row holds the fields of a registration can be told from its fields. -/
theorem exists_holds_iff {row : Option Row} {p : Payload} :
    (∃ r, row = some r ∧ r.Holds p) ↔ ∃ r, row.map Row.fields = some r ∧ r.Holds p := by
  cases row with
  | none => simp
  | some r => simp [Row.holds_fields]

/-- What an `INSERT … ON CONFLICT` leaves under an id holds the same fields as the row that is
going to stand there. -/
theorem postedHeld_upsert {body : Bytes} {new : Row}
    (hstored : Server.storedRow platform s call = some new) :
    PostedHeld platform body (s.table.upsert new).row
      ↔ PostedHeld platform body (rowAfter platform s call) := by
  have hrow : ∀ id, ((s.table.upsert new).row id).map Row.fields
      = (rowAfter platform s call id).map Row.fields := by
    intro id
    rw [Table.fields_upsert, rowAfter, hstored]
    by_cases hid : id = new.id
    · simp [hid, Option.filter]
    · simp [hid, Option.filter, Ne.symm hid]
  have key : ∀ id p, (∃ r, (s.table.upsert new).row id = some r ∧ r.Holds p)
      ↔ ∃ r, rowAfter platform s call id = some r ∧ r.Holds p := by
    intro id p
    rw [exists_holds_iff, hrow, ← exists_holds_iff]
  simp only [PostedHeld, exists_and_left, key]

/-- **The status of a registration** tells the truth if the posted fields can be read, and are
stored unchanged or were there before. -/
theorem register_truthful_iff (hrunning : s.running = true)
    (hroute : Server.routed call.request = some .register) :
    RegisterTruthful platform s call
      ↔ PostedHeld platform call.request.body (rowAfter platform s call) := by
  rw [RegisterTruthful]
  rcases @Server.step_register platform s call hrunning hroute with
    ⟨data, hparse, -, haborted, h⟩ | ⟨hstored, h⟩ | ⟨row, hstored, h⟩
  · rw [h]
    refine iff_of_false not_truthful_nil ?_
    rintro ⟨data', p, r, hparse', hp, -⟩
    rw [hparse] at hparse'
    cases hparse'
    rw [haborted] at hp
    cases hp
  · have hafter : rowAfter platform s call = s.table.row := by
      funext id
      rw [rowAfter, hstored]
      rfl
    rw [h, hafter]
    exact truthful_of_success (by decide)
  · rw [h, ← postedHeld_upsert hstored]
    exact truthful_of_success (by decide)

/-! ### `/getfile` -/

/-- The body is the document of the row, and the row is marked. -/
def Returned (platform : Platform) (table : Table) (secret : Bytes) (res : Response) : Prop :=
  ∃ row data, table.row secret = some row ∧ row.claimed = some true ∧
    DB.toTransferRow row = .ok data ∧ platform.dump (DB.transferRowToJson data) = some res.body

/-- The status of a request for a file tells the truth. -/
def GetfileTruthful (platform : Platform) (s : Server) (call : Call) (secret : Bytes) : Prop :=
  Truthful (Returned platform (s.step platform (.call call)).1.table secret)
    (s.step platform (.call call)).2

/-- No other body is the document of a row. -/
theorem not_returned (hplatform : platform.Documented) {table : Table} {secret : Bytes}
    {res : Response} (h : res.body.head? ≠ some 123) : ¬ Returned platform table secret res := by
  rintro ⟨row, data, -, -, -, hdump⟩
  exact h (hplatform.dump_object _ _ hdump)

theorem returned_markClaimed {secret body : Bytes}
    (h : (s.table.row secret).bind (Server.fileBody platform) = some body) :
    Returned platform (s.table.markClaimed secret) secret { status := 200, body } := by
  obtain ⟨row, hrow, hbody⟩ := Option.bind_eq_some_iff.mp h
  rw [Server.fileBody] at hbody
  split at hbody
  · rename_i data hdata
    have hclaimed : DB.toTransferRow { row with claimed := some true }
        = .ok { data with claimed := true } := by
      rw [DB.toTransferRow_claimed, hdata]
      rfl
    exact ⟨_, _, Table.row_markClaimed hrow, rfl, hclaimed, hbody⟩
  · cases hbody

/-- **The status of a request for a file** tells the truth if the row is there and can be written,
and nothing throws. -/
theorem getfile_truthful_iff (hplatform : platform.Documented) (hrunning : s.running = true)
    {secret : Bytes} (hroute : Server.routed call.request = some (.getfile secret)) :
    GetfileTruthful platform s call secret
      ↔ (s.connection call).Clear 6 ∧
        ∃ body, (s.table.row secret).bind (Server.fileBody platform) = some body := by
  rw [GetfileTruthful]
  rcases @Server.step_getfile platform s call hrunning secret hroute with
    ⟨body, hclear, hbody, h⟩ | ⟨table, hwhy, -, h⟩
  · rw [h, truthful_of_success (by simp [Response.Success])]
    exact iff_of_true (returned_markClaimed hbody) ⟨hclear, body, hbody⟩
  · rw [h, truthful_of_success (by decide)]
    refine iff_of_false (not_returned hplatform (by simp)) ?_
    rintro ⟨hclear, body, hbody⟩
    rcases hwhy with hwhy | hwhy
    · exact hwhy hclear
    · rw [hbody] at hwhy
      cases hwhy

/-! ### Both -/

/-- **When the status tells the truth.** Of a registration it does if the posted fields can be read,
and are stored unchanged or were there before; of a request for a file if the row is there and can
be written, and nothing throws. What the framework refuses, is told to have had no effect, if its
line is read at all. -/
theorem status_truthful_iff (hplatform : platform.Documented) (hrunning : s.running = true)
    (call : Call) :
    (Server.IsRegister call.request →
      (RegisterTruthful platform s call
        ↔ Http.LineRead call.request ∧
          if Server.routed call.request = none then
            ¬ PostedHeld platform call.request.body s.table.row
          else PostedHeld platform call.request.body (rowAfter platform s call))) ∧
    (∀ secret, Server.IsGetfile call.request secret →
      (GetfileTruthful platform s call secret
        ↔ Http.LineRead call.request ∧
          (Server.routed call.request = none ∨
            (s.connection call).Clear 6 ∧
              ∃ body, (s.table.row secret).bind (Server.fileBody platform) = some body))) := by
  constructor
  · intro hregister
    rcases Server.routed_of_isRegister hregister with hroute | hroute
    · obtain ⟨answers, h, hcases⟩ := @Server.step_not_routed platform call hroute
      rw [RegisterTruthful, h s hrunning, if_pos hroute]
      rcases hcases with ⟨rfl, hread⟩ | ⟨status, rfl, hstatus, hread⟩
      · exact iff_of_false not_truthful_nil fun hand => hread hand.1
      · rw [and_iff_right hread]
        exact truthful_of_error hstatus
    · rw [and_iff_right (Server.lineRead_of_routed hroute), if_neg (by simp [hroute])]
      exact register_truthful_iff hrunning hroute
  · intro secret hgetfile
    rcases Server.routed_of_isGetfile hgetfile with hroute | hroute
    · obtain ⟨answers, h, hcases⟩ := @Server.step_not_routed platform call hroute
      rw [GetfileTruthful, h s hrunning]
      rcases hcases with ⟨rfl, hread⟩ | ⟨status, rfl, hstatus, hread⟩
      · exact iff_of_false not_truthful_nil fun hand => hread hand.1
      · rw [truthful_of_error hstatus]
        refine iff_of_true (not_returned hplatform ?_) ⟨hread, Or.inl hroute⟩
        simp [errorHandler, hstatus.1, text]
    · rw [getfile_truthful_iff hplatform hrunning hroute,
        and_iff_right (Server.lineRead_of_routed hroute), or_iff_right (by simp [hroute])]

open Utils

theorem status_truthful_iff_sample :
    let call := sampleCall (sampleTransfer (text "a") (text "f"))
    RegisterTruthful samplePlatform .fresh call
      ↔ Http.LineRead call.request ∧
        if Server.routed call.request = none then
          ¬ PostedHeld samplePlatform call.request.body Server.fresh.table.row
        else PostedHeld samplePlatform call.request.body (rowAfter samplePlatform .fresh call) :=
  (status_truthful_iff samplePlatform_documented rfl (sampleCall _)).1 ⟨rfl, by decide⟩

/-- A registration without a body. -/
def emptyRegistration : Call where
  request := { method := .post, target := text "/register" }

/-- A request for a file that nobody has registered. -/
def unknownGetfile : Call where
  request := { method := .get, target := text "/getfile/a" }

/-- A registration without a body and a request for a file that nobody has registered are answered
200, although the one stored nothing and the other found nothing. -/
theorem failures_are_answered_200 :
    (Server.fresh.step samplePlatform (.call emptyRegistration)).2 = [{ status := 200 }] ∧
      ¬ RegisterTruthful samplePlatform .fresh emptyRegistration ∧
      (Server.fresh.step samplePlatform (.call unknownGetfile)).2 = [{ status := 200 }] ∧
      ¬ GetfileTruthful samplePlatform .fresh unknownGetfile (text "a") := by
  refine ⟨by decide +kernel, ?_, by decide +kernel, ?_⟩
  · rw [register_truthful_iff rfl (by decide)]
    rintro ⟨data, p, r, hparse, -⟩
    have hnone : samplePlatform.parse emptyRegistration.request.body = none :=
      samplePlatform_parse_eq_none (by decide)
    rw [hnone] at hparse
    cases hparse
  · rw [getfile_truthful_iff samplePlatform_documented rfl (by decide)]
    rintro ⟨-, body, hbody⟩
    cases hbody

end Zapshare
