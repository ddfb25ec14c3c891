import Zapshare.Json
import Zapshare.Lib.Program

/-!
# The database of the central server

`database.hpp`: the table of transfers, and the functions that open a transaction, execute
statements and commit. A function of the source is a `Program` over the operations of libpqxx, so
that it can be run step by step as well as as a whole.

## PostgreSQL and libpqxx

A connection has at most one transaction; opening another one throws. What a transaction writes is
seen by itself only, until it commits. A transaction that goes out of scope without a commit is
rolled back. Every operation may throw for reasons of its own, and then has no effect.

A row keeps the columns of the table, with `INTEGER` and `BIGINT` narrower than the numbers the
programs store there, and with the columns that may be `NULL`.

## Scope

The table is the one of the source, with the statements of the source: there is no SQL here, and a
statement is what it does to the table. Texts that PostgreSQL does not take, and numbers that do not
fit the columns, make it throw. Of isolation only this much is modelled, that a transaction sees the
table as it was when it began, and replaces it when it commits, which is all that a single
connection shows. The table is there from the start; the function that creates it is left out, and
so is the connection string. Failed assertions end the process, as they do in a build that has them.

## Main definitions

* `Row`, `Table`, `Payload`, `TransferRow` — what is stored, what is posted and what is read
* `DbOp`, `Connection.exec` — the operations, and what a connection makes of them
* `DB.registerTransfers`, `DB.getTransfersMetadata`, `DB.lookupTransfer`, `DB.markTransferClaimed` —
  the functions of the source

## Main results

* `DB.toTransferRow_of_fields` — the fields of a registration survive in the columns
* `DB.registerTransfers_cases`, `markTransferClaimed_cases`, `lookupTransfer_cases`,
  `getTransfersMetadata_cases` — what the functions do, whatever throws
-/

namespace Zapshare

open Wire

/-! ### Rows -/

/-- A `TIMESTAMP`, as PostgreSQL writes it. -/
structure Timestamp where
  bytes : Bytes
  ascii : ∀ b ∈ bytes, b < 0x80
  deriving DecidableEq, Repr

/-- What stands for a missing timestamp. -/
def Timestamp.empty : Timestamp where
  bytes := []
  ascii := List.forall_mem_nil _

/-- A row of `transfers`. -/
structure Row where
  id : Bytes
  senderIp : Bytes
  senderPort : Int32
  protocol : Bytes
  fileName : Option Bytes
  fileSize : Option Int64
  fileHash : Option Bytes
  token : Bytes
  claimed : Option Bool
  createdAt : Option Timestamp
  deriving DecidableEq, Repr

/-- The table, by its primary key. -/
structure Table where
  row : Bytes → Option Row
  id_row : ∀ {id r}, row id = some r → r.id = id

/-- `Transfer_Payload`, the fields of a registration. -/
structure Payload where
  id : Bytes
  senderIp : Bytes
  senderPort : UInt32
  protocol : Bytes
  fileName : Bytes
  fileSize : UInt64
  fileHash : Bytes
  token : Bytes
  deriving DecidableEq, Repr

/-- `TransferRow`, a row as the program sees it. -/
structure TransferRow where
  id : Bytes
  senderIp : Bytes
  senderPort : UInt32
  protocol : Bytes
  fileName : Bytes
  fileSize : Int64
  fileHash : Bytes
  token : Bytes
  claimed : Bool
  createdAt : Bytes
  deriving DecidableEq, Repr

/-- An unsigned number as an `INTEGER`; `none` when it is out of range. -/
def toInteger (n : UInt32) : Option Int32 :=
  if n.toNat < 2 ^ 31 then some (Int32.ofNat n.toNat) else none

/-- An unsigned number as a `BIGINT`; `none` when it is out of range. -/
def toBigint (n : UInt64) : Option Int64 :=
  if n.toNat < 2 ^ 63 then some (Int64.ofNat n.toNat) else none

/-- The columns an `INSERT` of the fields fills in; `none` when PostgreSQL refuses one of them. The
other two have their defaults. -/
def Payload.columns (platform : Platform) (p : Payload) (now : Timestamp) : Option Row := do
  return {
    id := ← platform.storeText p.id
    senderIp := ← platform.storeText p.senderIp
    senderPort := ← toInteger p.senderPort
    protocol := ← platform.storeText p.protocol
    fileName := some (← platform.storeText p.fileName)
    fileSize := some (← toBigint p.fileSize)
    fileHash := some (← platform.storeText p.fileHash)
    token := ← platform.storeText p.token
    claimed := some false
    createdAt := some now }

/-- What `INSERT … ON CONFLICT (id) DO UPDATE` leaves of a row that is there: the columns that are
not among those updated. -/
def Row.onConflict (old new : Row) : Row :=
  { new with claimed := old.claimed, createdAt := old.createdAt }

/-- The table with a row put under its id. -/
def Table.set (t : Table) (r : Row) : Table where
  row id := if id = r.id then some r else t.row id
  id_row {id r'} h := by
    split at h
    · rename_i heq
      rw [← Option.some.inj h, heq]
    · exact t.id_row h

/-- `INSERT … ON CONFLICT (id) DO UPDATE`. -/
def Table.upsert (t : Table) (new : Row) : Table :=
  match t.row new.id with
  | none => t.set new
  | some old => t.set (old.onConflict new)

/-- `UPDATE transfers SET claimed = true WHERE id = …`. -/
def Table.markClaimed (t : Table) (id : Bytes) : Table :=
  match t.row id with
  | none => t
  | some r => t.set { r with claimed := some true }

/-- The columns of a registration. -/
def Row.fields (r : Row) : Row := { r with claimed := none, createdAt := none }

theorem Table.row_set (t : Table) (r : Row) (id : Bytes) :
    (t.set r).row id = if id = r.id then some r else t.row id := rfl

/-- An `INSERT … ON CONFLICT` leaves the fields it was given, and no other row changes. -/
theorem Table.fields_upsert (t : Table) (new : Row) (id : Bytes) :
    ((t.upsert new).row id).map Row.fields =
      if id = new.id then some new.fields else (t.row id).map Row.fields := by
  rw [upsert]
  split
  · rw [row_set]
    split <;> rfl
  · rw [row_set]
    change Option.map _ (if id = new.id then _ else _) = _
    split <;> rfl

/-- Marking changes no field. -/
theorem Table.fields_markClaimed (t : Table) (id id' : Bytes) :
    ((t.markClaimed id).row id').map Row.fields = (t.row id').map Row.fields := by
  rw [markClaimed]
  split
  · rfl
  · rename_i r hr
    rw [row_set]
    change Option.map _ (if id' = r.id then _ else _) = _
    split
    · rename_i hid
      have hid' : id' = id := hid.trans (t.id_row hr)
      rw [hid', hr]
      rfl
    · rfl

/-! ### The connection -/

/-- What the functions ask of libpqxx: to open a transaction, to execute one of their statements in
it, to commit it, and to close it when it goes out of scope. -/
inductive DbOp
  | begin
  | select (id : Bytes)
  | markClaimed (id : Bytes)
  | insert (p : Payload)
  | commit
  | close

/-- A `SELECT` by the primary key has at most one row. -/
abbrev DbOp.Answer : DbOp → Type
  | .select _ => Option Row
  | _ => Unit

/-- An open transaction: whose it is, and the table as it sees it. -/
structure Transaction where
  owner : ℕ
  view : Table

/-- The connection: what is committed, the open transaction if there is one, and which of the next
operations are going to throw. -/
structure Connection where
  table : Table
  txn : Option Transaction := none
  faults : ℕ → Bool := fun _ => false

namespace Connection

/-- The table as the transaction of `owner` sees it. -/
def view (c : Connection) (owner : ℕ) : Option Table :=
  match c.txn with
  | some txn => if txn.owner = owner then some txn.view else none
  | none => none

/-- Change the view of a transaction; it throws if there is nothing to change it to. -/
def update (c : Connection) (owner : ℕ) (f : Table → Option Table) :
    Except Fault Unit × Connection :=
  match (c.view owner).bind f with
  | some view => (.ok (), { c with txn := some ⟨owner, view⟩ })
  | none => (.error .thrown, c)

/-- What an operation does when it does not throw for reasons of its own. -/
def perform (platform : Platform) (now : Timestamp) (owner : ℕ) :
    (op : DbOp) → Connection → Except Fault op.Answer × Connection
  | .begin, c =>
    match c.txn with
    | some _ => (.error .thrown, c)
    | none => (.ok (), { c with txn := some ⟨owner, c.table⟩ })
  | .select id, c =>
    match c.view owner with
    | some view => (.ok (view.row id), c)
    | none => (.error .thrown, c)
  | .markClaimed id, c => c.update owner fun view => some (view.markClaimed id)
  | .insert p, c => c.update owner fun view => (p.columns platform now).map view.upsert
  | .commit, c =>
    match c.view owner with
    | some view => (.ok (), { c with table := view, txn := none })
    | none => (.error .thrown, c)
  | .close, c => (.ok (), if (c.view owner).isSome then { c with txn := none } else c)

/-- The operation that could have thrown is over. -/
def shift (c : Connection) : Connection := { c with faults := fun n => c.faults (n + 1) }

/-- One operation. Rolling back in a destructor does not throw. -/
def exec (platform : Platform) (now : Timestamp) (owner : ℕ) (op : DbOp) (c : Connection) :
    Except Fault op.Answer × Connection :=
  match op with
  | .close => c.perform platform now owner .close
  | op => if c.faults 0 then (.error .thrown, c.shift) else c.shift.perform platform now owner op

/-- The next `n` operations do not throw for reasons of their own. -/
def Clear (c : Connection) (n : ℕ) : Prop := ∀ i < n, c.faults i = false

instance (c : Connection) (n : ℕ) : Decidable (c.Clear n) :=
  Nat.decidableBallLT n fun i _ => c.faults i = false

end Connection

/-- The same, of the faults themselves. -/
def Faultless (faults : ℕ → Bool) (n : ℕ) : Prop := ∀ i < n, faults i = false

instance Faultless.decidable (faults : ℕ → Bool) (n : ℕ) : Decidable (Faultless faults n) :=
  Nat.decidableBallLT n fun i _ => faults i = false

/-! ### The functions of the source

A `catch` that throws again leaves an exception an exception, and is not repeated here. -/

/-- What a function of `database.hpp` does with the connection. -/
abbrev Db (α : Type) := Program DbOp DbOp.Answer Fault α

namespace DB

/-- `pqxx::work txn{conn}`. -/
def begin : Db Unit := Program.perform (ε := Fault) DbOp.begin

/-- `SELECT … FROM transfers WHERE id = …`. -/
def select (id : Bytes) : Db (Option Row) := Program.perform (ε := Fault) (DbOp.select id)

/-- `UPDATE transfers SET claimed = true WHERE id = …`. -/
def markClaimed (id : Bytes) : Db Unit := Program.perform (ε := Fault) (DbOp.markClaimed id)

/-- `INSERT INTO transfers … ON CONFLICT (id) DO UPDATE`. -/
def insert (p : Payload) : Db Unit := Program.perform (ε := Fault) (DbOp.insert p)

/-- `txn.commit()`. -/
def commit : Db Unit := Program.perform (ε := Fault) DbOp.commit

/-- The transaction goes out of scope. -/
def close : Db Unit := Program.perform (ε := Fault) DbOp.close

/-- The body of a function that opens a transaction first. The transaction is closed on every way
out but the end of the process. -/
def transaction {α : Type} (body : Db α) : Db α :=
  Program.bracket begin close (fun e => e = .aborted) body

/-- `to_transfer_row`. A negative number is no `uint32_t`. -/
def toTransferRow (row : Row) : Except Fault TransferRow :=
  if row.senderPort < 0 then .error .thrown
  else
    .ok {
      id := row.id
      senderIp := row.senderIp
      senderPort := UInt32.ofInt row.senderPort.toInt
      protocol := row.protocol
      fileName := row.fileName.getD []
      fileSize := row.fileSize.getD 0
      fileHash := row.fileHash.getD []
      token := row.token
      claimed := row.claimed.getD false
      createdAt := (row.createdAt.map Timestamp.bytes).getD [] }

/-- `transfer_row_to_json`. -/
def transferRowToJson (t : TransferRow) : Json :=
  .object
    [(text "id", .string t.id),
      (text "sender_ip", .string t.senderIp),
      (text "sender_port", .number t.senderPort.toNat),
      (text "protocol", .string t.protocol),
      (text "file_name", .string t.fileName),
      (text "file_size", .number t.fileSize.toInt),
      (text "file_hash", .string t.fileHash),
      (text "token", .string t.token),
      (text "claimed", .boolean t.claimed),
      (text "created_at", .string t.createdAt)]

/-- `transfer_row_from_json`: the members in the order in which they are read. -/
def transferRowFromJson (platform : Platform) (data : Json) : Except Fault Payload := do
  let id ← data.read Json.toStdString (text "id")
  let senderIp ← data.read Json.toStdString (text "sender_ip")
  let senderPort ← data.read (Json.toUInt32 platform) (text "sender_port")
  let protocol ← data.read Json.toStdString (text "protocol")
  let fileName ← data.read Json.toStdString (text "file_name")
  let fileSize ← data.read (Json.toSize platform) (text "file_size")
  let fileHash ← data.read Json.toStdString (text "file_hash")
  let token ← data.read Json.toStdString (text "token")
  return { id, senderIp, senderPort, protocol, fileName, fileSize, fileHash, token }

/-- `lookup_transfer`, which catches what the query throws. -/
def lookupTransfer (secret : Bytes) : Db Bool :=
  transaction <| Program.recover
    (do
      let r ← select secret
      return r.isSome)
    fun
      | .thrown => return false
      | .aborted => Program.lift (.error .aborted)

/-- `mark_transfer_claimed`, in a transaction of its own. -/
def markTransferClaimed (secret : Bytes) : Db Unit :=
  transaction do
    markClaimed secret
    commit

/-- The first row of a result. Of a result without rows every column is null, which is no string. -/
def firstRow : Option Row → Except Fault TransferRow
  | some row => toTransferRow row
  | none => .error .thrown

/-- `get_transfers_metadata`. The row is marked before the result is known to have one. -/
def getTransfersMetadata (secret : Bytes) : Db TransferRow :=
  transaction do
    let r ← select secret
    commit
    markTransferClaimed secret
    let data ← Program.lift (firstRow r)
    return { data with claimed := true }

/-- `register_transfers`. Nobody uses the value that it does not return. -/
def registerTransfers (platform : Platform) (data : Json) : Db Unit :=
  transaction do
    let payload ← Program.lift (transferRowFromJson platform data)
    insert payload
    commit

end DB

/-! ### Rows that are written and read back -/

/-- The fields of a registration that the columns can hold. -/
structure Payload.Storable (p : Payload) : Prop where
  texts : ∀ s ∈ [p.id, p.senderIp, p.protocol, p.fileName, p.fileHash, p.token],
    utf8Valid s = true ∧ 0 ∉ s
  senderPort_lt : p.senderPort.toNat < 2 ^ 31
  fileSize_lt : p.fileSize.toNat < 2 ^ 63

/-- The row that stands for the fields. -/
def Payload.row (p : Payload) (now : Timestamp) : Row where
  id := p.id
  senderIp := p.senderIp
  senderPort := Int32.ofNat p.senderPort.toNat
  protocol := p.protocol
  fileName := some p.fileName
  fileSize := some (Int64.ofNat p.fileSize.toNat)
  fileHash := some p.fileHash
  token := p.token
  claimed := some false
  createdAt := some now

theorem Payload.columns_eq {platform : Platform} (hplatform : platform.Documented) {p : Payload}
    (h : p.Storable) (now : Timestamp) : p.columns platform now = some (p.row now) := by
  have htext : ∀ s ∈ [p.id, p.senderIp, p.protocol, p.fileName, p.fileHash, p.token],
      platform.storeText s = some s := fun s hs =>
    hplatform.storeText s (h.texts s hs).1 (h.texts s hs).2
  simp only [List.forall_mem_cons] at htext
  obtain ⟨hid, hip, hprotocol, hname, hhash, htoken, -⟩ := htext
  have hport : toInteger p.senderPort = some _ := if_pos h.senderPort_lt
  have hsize : toBigint p.fileSize = some _ := if_pos h.fileSize_lt
  simp only [columns, hid, hip, hport, hprotocol, hname, hsize, hhash, htoken]
  rfl

/-- A row that has been marked is read as any other. -/
theorem DB.toTransferRow_claimed (row : Row) :
    toTransferRow { row with claimed := some true }
      = (toTransferRow row).map fun data => { data with claimed := true } := by
  rw [toTransferRow, toTransferRow]
  split <;> rfl

theorem Table.row_markClaimed {t : Table} {id : Bytes} {row : Row} (h : t.row id = some row) :
    (t.markClaimed id).row id = some { row with claimed := some true } := by
  rw [markClaimed, h]
  exact if_pos (t.id_row h).symm

/-- A row with the fields of a registration is read back as they were. -/
theorem DB.toTransferRow_of_fields {p : Payload} (h : p.Storable) {now : Timestamp} {row : Row}
    (hrow : row.fields = (p.row now).fields) :
    toTransferRow row = .ok {
      id := p.id
      senderIp := p.senderIp
      senderPort := p.senderPort
      protocol := p.protocol
      fileName := p.fileName
      fileSize := Int64.ofNat p.fileSize.toNat
      fileHash := p.fileHash
      token := p.token
      claimed := row.claimed.getD false
      createdAt := (row.createdAt.map Timestamp.bytes).getD [] } := by
  obtain ⟨id, senderIp, senderPort, protocol, fileName, fileSize, fileHash, token, claimed,
    createdAt⟩ := row
  simp only [Row.fields, Payload.row, Row.mk.injEq, and_true] at hrow
  obtain ⟨rfl, rfl, rfl, rfl, rfl, rfl, rfl, rfl⟩ := hrow
  have hport : (Int32.ofNat p.senderPort.toNat).toInt = p.senderPort.toNat :=
    Int32.toInt_ofNat_of_lt h.senderPort_lt
  have hpos : ¬ Int32.ofNat p.senderPort.toNat < 0 := by
    rw [Int32.lt_iff_toInt_lt, hport, Int32.toInt_zero]
    omega
  rw [toTransferRow, if_neg hpos, hport, Json.uint32_ofInt_toNat]
  rfl

/-! ### One operation on an idle connection, and in a transaction -/

section Operations

variable {platform : Platform} {now : Timestamp} {owner : ℕ} {c : Connection}

/-- The connection with a transaction of `owner`, which sees `view`. -/
def Connection.inTransaction (c : Connection) (owner : ℕ) (view : Table) : Connection :=
  { c with txn := some ⟨owner, view⟩ }

theorem view_inTransaction (c : Connection) (owner : ℕ) (view : Table) :
    (c.inTransaction owner view).view owner = some view := by
  simp [Connection.inTransaction, Connection.view]

theorem run_begin (hidle : c.txn = none) :
    DB.begin.run (Connection.exec platform now owner) c =
      if c.faults 0 then (.error .thrown, c.shift)
      else (.ok (), c.shift.inTransaction owner c.table) := by
  change Connection.exec platform now owner .begin c = _
  simp [Connection.exec, Connection.perform, Connection.shift, Connection.inTransaction, hidle]

variable {view : Table}

theorem run_select (id : Bytes) :
    (DB.select id).run (Connection.exec platform now owner) (c.inTransaction owner view) =
      (if c.faults 0 then .error .thrown else .ok (view.row id),
        c.shift.inTransaction owner view) := by
  change Connection.exec platform now owner (.select id) (c.inTransaction owner view) = _
  have hview := view_inTransaction c.shift owner view
  cases h : c.faults 0 <;>
    simp [Connection.exec, Connection.perform, Connection.shift, Connection.inTransaction, h] at *
  simp [hview]

/-- What executing a statement that changes the view does, when `f` is what it changes. -/
def Changes (platform : Platform) (now : Timestamp) (owner : ℕ) (op : Db Unit)
    (f : Table → Option Table) : Prop :=
  ∀ (c : Connection) (view : Table),
    op.run (Connection.exec platform now owner) (c.inTransaction owner view) =
      if c.faults 0 then (.error .thrown, c.shift.inTransaction owner view)
      else
        match f view with
        | some view' => (.ok (), c.shift.inTransaction owner view')
        | none => (.error .thrown, c.shift.inTransaction owner view)

theorem changes_markClaimed (id : Bytes) :
    Changes platform now owner (DB.markClaimed id) fun view => some (view.markClaimed id) := by
  intro c view
  change Connection.exec platform now owner (.markClaimed id) (c.inTransaction owner view) = _
  cases h : c.faults 0 <;>
    simp [Connection.exec, Connection.perform, Connection.update, Connection.view,
      Connection.shift, Connection.inTransaction, h]

theorem changes_insert (p : Payload) :
    Changes platform now owner (DB.insert p) fun view =>
      (p.columns platform now).map view.upsert := by
  intro c view
  change Connection.exec platform now owner (.insert p) (c.inTransaction owner view) = _
  cases h : c.faults 0 <;> cases hrow : p.columns platform now <;>
    simp [Connection.exec, Connection.perform, Connection.update, Connection.view,
      Connection.shift, Connection.inTransaction, h, hrow]

theorem run_commit :
    DB.commit.run (Connection.exec platform now owner) (c.inTransaction owner view) =
      if c.faults 0 then (.error .thrown, c.shift.inTransaction owner view)
      else (.ok (), { c.shift with table := view, txn := none }) := by
  change Connection.exec platform now owner .commit (c.inTransaction owner view) = _
  cases h : c.faults 0 <;>
    simp [Connection.exec, Connection.perform, Connection.view,
      Connection.shift, Connection.inTransaction, h]

theorem run_close_inTransaction :
    DB.close.run (Connection.exec platform now owner) (c.inTransaction owner view) =
      (.ok (), { c with txn := none }) := by
  change Connection.exec platform now owner .close (c.inTransaction owner view) = _
  simp [Connection.exec, Connection.perform, Connection.view, Connection.inTransaction]

theorem run_close_idle (hidle : c.txn = none) :
    DB.close.run (Connection.exec platform now owner) c = (.ok (), c) := by
  change Connection.exec platform now owner .close c = _
  simp [Connection.exec, Connection.perform, Connection.view, hidle]

section Transaction

variable {α : Type} {body : Db α} {c' : Connection}

/-- The transaction cannot be opened. -/
theorem run_transaction_fault (hidle : c.txn = none) (h0 : c.faults 0 = true) :
    (DB.transaction body).run (Connection.exec platform now owner) c
      = (.error .thrown, c.shift) := by
  rw [DB.transaction, Program.run_bracket, run_begin hidle, h0]
  rfl

/-- Somebody else has a transaction open. -/
theorem run_transaction_busy (hbusy : c.txn ≠ none) :
    (DB.transaction body).run (Connection.exec platform now owner) c
      = (.error .thrown, c.shift) := by
  obtain ⟨txn, htxn⟩ := Option.ne_none_iff_exists'.mp hbusy
  have hbegin : DB.begin.run (Connection.exec platform now owner) c
      = (.error .thrown, c.shift) := by
    change Connection.exec platform now owner .begin c = _
    simp [Connection.exec, Connection.perform, Connection.shift, htxn]
  rw [DB.transaction, Program.run_bracket, hbegin]

/-- The body throws inside the transaction, which is rolled back. -/
theorem run_transaction_thrown (hidle : c.txn = none) (h0 : c.faults 0 = false)
    (h : body.run (Connection.exec platform now owner) (c.shift.inTransaction owner c.table)
      = (.error .thrown, c'.inTransaction owner view)) :
    (DB.transaction body).run (Connection.exec platform now owner) c
      = (.error .thrown, { c' with txn := none }) := by
  rw [DB.transaction, Program.run_bracket, run_begin hidle, h0]
  simp only [Bool.false_eq_true, if_false, h, run_close_inTransaction]
  rfl

/-- The body returns inside the transaction, which is rolled back. -/
theorem run_transaction_returned (hidle : c.txn = none) (h0 : c.faults 0 = false) {a : α}
    (h : body.run (Connection.exec platform now owner) (c.shift.inTransaction owner c.table)
      = (.ok a, c'.inTransaction owner view)) :
    (DB.transaction body).run (Connection.exec platform now owner) c
      = (.ok a, { c' with txn := none }) := by
  rw [DB.transaction, Program.run_bracket, run_begin hidle, h0]
  simp only [Bool.false_eq_true, if_false, h, run_close_inTransaction]

/-- The body leaves no transaction to be closed. -/
theorem run_transaction_ended (hidle : c.txn = none) (h0 : c.faults 0 = false) {r : Except Fault α}
    (h : body.run (Connection.exec platform now owner) (c.shift.inTransaction owner c.table)
      = (r, c')) (hidle' : c'.txn = none) :
    (DB.transaction body).run (Connection.exec platform now owner) c = (r, c') := by
  rw [DB.transaction, Program.run_bracket, run_begin hidle, h0]
  simp only [Bool.false_eq_true, if_false, h]
  cases r with
  | error e => cases e <;> simp [run_close_idle hidle']
  | ok a => simp [run_close_idle hidle']

/-- The process ends in the body. -/
theorem run_transaction_aborted (hidle : c.txn = none) (h0 : c.faults 0 = false)
    (h : body.run (Connection.exec platform now owner) (c.shift.inTransaction owner c.table)
      = (.error .aborted, c')) :
    (DB.transaction body).run (Connection.exec platform now owner) c = (.error .aborted, c') := by
  rw [DB.transaction, Program.run_bracket, run_begin hidle, h0]
  simp only [Bool.false_eq_true, if_false, h]
  rfl

end Transaction

end Operations

/-! ### What the functions do -/

section Functions

variable {platform : Platform} {now : Timestamp} {owner : ℕ} {c : Connection}

theorem Connection.not_clear {i n : ℕ} (h : c.faults i = true) (hi : i < n) : ¬ c.Clear n := by
  intro hclear
  rw [hclear i hi] at h
  cases h

theorem Connection.clear_two (h0 : c.faults 0 = false) (h1 : c.faults 1 = false) : c.Clear 2 := by
  intro i hi
  match i with
  | 0 => exact h0
  | 1 => exact h1

theorem Connection.clear_succ {n : ℕ} (h0 : c.faults 0 = false) (h : c.shift.Clear n) :
    c.Clear (n + 1) := by
  intro i hi
  cases i with
  | zero => exact h0
  | succ i => exact h i (Nat.lt_of_succ_lt_succ hi)

theorem Connection.Clear.shift {n : ℕ} (h : c.Clear (n + 1)) : c.shift.Clear n :=
  fun i hi => h (i + 1) (Nat.succ_lt_succ hi)

/-- A statement that changes the view, and the commit after it: either of them throws, or what the
transaction sees becomes the table. -/
theorem Changes.run_commit {op : Db Unit} {f : Table → Option Table}
    (hop : Changes platform now owner op f) (c : Connection) (view : Table) :
    let r := (op >>= fun _ => DB.commit).run (Connection.exec platform now owner)
      (c.inTransaction owner view)
    (∃ (c' : Connection) (v : Table), r = (.error .thrown, c'.inTransaction owner v) ∧
      c'.table = c.table ∧ (¬ c.Clear 2 ∨ f view = none)) ∨
    (∃ v, c.Clear 2 ∧ f view = some v ∧
      r = (.ok (), { c.shift.shift with table := v, txn := none })) := by
  intro r
  have hrun := hop c view
  cases h0 : c.faults 0 with
  | true =>
    rw [h0] at hrun
    exact Or.inl ⟨_, _, Program.run_bind_error hrun _, rfl, Or.inl (c.not_clear h0 (by decide))⟩
  | false =>
    rw [h0] at hrun
    cases hf : f view with
    | none =>
      rw [hf] at hrun
      exact Or.inl ⟨_, _, Program.run_bind_error hrun _, rfl, Or.inr rfl⟩
    | some v =>
      rw [hf] at hrun
      have hcommit := @Zapshare.run_commit platform now owner c.shift v
      have hr : r = _ := (Program.run_bind_ok hrun _).trans hcommit
      cases h1 : c.faults 1 with
      | true =>
        rw [show c.shift.faults 0 = true from h1] at hr
        exact Or.inl ⟨_, _, hr, rfl, Or.inl (c.not_clear h1 (by decide))⟩
      | false =>
        rw [show c.shift.faults 0 = false from h1] at hr
        exact Or.inr ⟨v, c.clear_two h0 h1, rfl, hr⟩

/-- An assertion that fails ends the process with the transaction open. -/
theorem DB.run_registerTransfers_aborted (hidle : c.txn = none) (h0 : c.faults 0 = false)
    {data : Json} (hp : transferRowFromJson platform data = .error .aborted) :
    (DB.registerTransfers platform data).run (Connection.exec platform now owner) c
      = (.error .aborted, c.shift.inTransaction owner c.table) :=
  run_transaction_aborted hidle h0 (Program.run_bind_error (Program.run_lift hp) _)

/-- **`register_transfers`** ends the process while it reads the fields, or throws and stores
nothing, or stores a row with all fields. -/
theorem DB.registerTransfers_cases (hidle : c.txn = none) (data : Json) :
    let r := (DB.registerTransfers platform data).run (Connection.exec platform now owner) c
    (c.faults 0 = false ∧ transferRowFromJson platform data = .error .aborted ∧
      r.1 = .error .aborted ∧ r.2.table = c.table) ∨
    (r.1 = .error .thrown ∧ r.2.table = c.table ∧
      (¬ c.Clear 3 ∨ ∀ p row, transferRowFromJson platform data = .ok p →
        p.columns platform now ≠ some row)) ∨
    (∃ p row, c.Clear 3 ∧ transferRowFromJson platform data = .ok p ∧
      p.columns platform now = some row ∧ r.1 = .ok () ∧ r.2.table = c.table.upsert row) := by
  intro r
  cases h0 : c.faults 0 with
  | true =>
    have hr : r = _ := run_transaction_fault hidle h0
    rw [hr]
    exact Or.inr (Or.inl ⟨rfl, rfl, Or.inl (c.not_clear h0 (by decide))⟩)
  | false =>
    cases hp : transferRowFromJson platform data with
    | error e =>
      cases e with
      | aborted =>
        have hr : r = _ := run_registerTransfers_aborted hidle h0 hp
        rw [hr]
        exact Or.inl ⟨rfl, rfl, rfl, rfl⟩
      | thrown =>
        have hr : r = _ := run_transaction_thrown hidle h0
          (Program.run_bind_error (Program.run_lift hp) _)
        rw [hr]
        refine Or.inr (Or.inl ⟨rfl, rfl, Or.inr ?_⟩)
        rintro p row ⟨⟩
    | ok p =>
      rcases (changes_insert p).run_commit c.shift c.table with
        ⟨c', v, hrun, htable, hwhy⟩ | ⟨v, hclear, hv, hrun⟩
      · have hr : r = _ := run_transaction_thrown hidle h0
          ((Program.run_bind_ok (Program.run_lift hp) _).trans hrun)
        rw [hr]
        refine Or.inr (Or.inl ⟨rfl, htable, hwhy.imp ?_ ?_⟩)
        · intro hclear h
          exact hclear h.shift
        · rintro hnone p' row ⟨⟩ hrow
          simp [hrow] at hnone
      · have hr : r = _ := run_transaction_ended hidle h0
          ((Program.run_bind_ok (Program.run_lift hp) _).trans hrun) rfl
        obtain ⟨row, hrow, rfl⟩ := Option.map_eq_some_iff.mp hv
        rw [hr]
        exact Or.inr (Or.inr ⟨p, row, Connection.clear_succ h0 hclear, rfl, hrow, rfl, rfl⟩)

/-- **`mark_transfer_claimed`** throws and changes nothing, or marks the row. -/
theorem DB.markTransferClaimed_cases (hidle : c.txn = none) (secret : Bytes) :
    let r := (DB.markTransferClaimed secret).run (Connection.exec platform now owner) c
    (r.1 = .error .thrown ∧ r.2.table = c.table ∧ r.2.txn = none ∧ ¬ c.Clear 3) ∨
    (c.Clear 3 ∧
      r = (.ok (), { c.shift.shift.shift with table := c.table.markClaimed secret })) := by
  intro r
  cases h0 : c.faults 0 with
  | true =>
    have hr : r = _ := run_transaction_fault hidle h0
    rw [hr]
    exact Or.inl ⟨rfl, rfl, hidle, c.not_clear h0 (by decide)⟩
  | false =>
    rcases (changes_markClaimed secret).run_commit c.shift c.table with
      ⟨c', v, hrun, htable, hwhy⟩ | ⟨v, hclear, hv, hrun⟩
    · have hr : r = _ := run_transaction_thrown hidle h0 hrun
      rw [hr]
      refine Or.inl ⟨rfl, htable, rfl, ?_⟩
      intro hclear
      rcases hwhy with hwhy | hwhy
      · exact hwhy hclear.shift
      · cases hwhy
    · have hr : r = _ := run_transaction_ended hidle h0 hrun rfl
      cases hv
      refine Or.inr ⟨Connection.clear_succ h0 hclear, hr.trans ?_⟩
      simp [Connection.shift, hidle]

/-- **`lookup_transfer`** tells whether the row is there, unless an operation throws. -/
theorem DB.lookupTransfer_cases (hidle : c.txn = none) (secret : Bytes) :
    let r := (DB.lookupTransfer secret).run (Connection.exec platform now owner) c
    r.2.table = c.table ∧
      ((c.faults 0 = true ∧ r.1 = .error .thrown) ∨
        (c.faults 0 = false ∧ c.faults 1 = true ∧ r.1 = .ok false) ∨
        (c.Clear 2 ∧ r.1 = .ok (c.table.row secret).isSome)) := by
  intro r
  cases h0 : c.faults 0 with
  | true =>
    have hr : r = _ := run_transaction_fault hidle h0
    rw [hr]
    exact ⟨rfl, Or.inl ⟨rfl, rfl⟩⟩
  | false =>
    have hselect := @run_select platform now owner c.shift c.table secret
    have hbody : (Program.recover (do
          let r ← select secret
          return r.isSome)
        fun
          | .thrown => return false
          | .aborted => Program.lift (.error .aborted)).run (Connection.exec platform now owner)
        (c.shift.inTransaction owner c.table)
        = (.ok (if c.faults 1 then false else (c.table.row secret).isSome),
          c.shift.shift.inTransaction owner c.table) := by
      rw [Program.run_recover, Program.run_bind, hselect]
      cases h1 : c.faults 1 <;> simp [Connection.shift, h1]
    have hr : r = _ := run_transaction_returned hidle h0 hbody
    rw [hr]
    refine ⟨rfl, Or.inr ?_⟩
    cases h1 : c.faults 1 with
    | true => exact Or.inl ⟨rfl, rfl, rfl⟩
    | false => exact Or.inr ⟨c.clear_two h0 h1, rfl⟩

theorem DB.firstRow_error {r : Option Row} {e : Fault} (h : firstRow r = .error e) :
    e = .thrown := by
  cases r with
  | none => exact (Except.error.inj h).symm
  | some row =>
    rw [firstRow, toTransferRow] at h
    split at h
    · exact (Except.error.inj h).symm
    · cases h

/-- The first transaction of `get_transfers_metadata`, and what follows it. -/
theorem run_select_commit {α : Type} {view : Table} (secret : Bytes) (rest : Option Row → Db α) :
    (do
      let r ← DB.select secret
      DB.commit
      rest r).run (Connection.exec platform now owner) (c.inTransaction owner view) =
      if c.faults 0 then (.error .thrown, c.shift.inTransaction owner view)
      else if c.faults 1 then (.error .thrown, c.shift.shift.inTransaction owner view)
      else (rest (view.row secret)).run (Connection.exec platform now owner)
        { c.shift.shift with table := view, txn := none } := by
  rw [Program.run_bind, run_select]
  cases h0 : c.faults 0 with
  | true => rfl
  | false =>
    simp only [Bool.false_eq_true, if_false]
    rw [Program.run_bind, run_commit, show c.shift.faults 0 = c.faults 1 from rfl]
    cases h1 : c.faults 1 <;> rfl

/-- What `get_transfers_metadata` does after its first transaction, up to the end of its scope. -/
theorem DB.run_getTransfersMetadata_rest (hidle : c.txn = none) (secret : Bytes)
    (row : Option Row) :
    ∃ r c', (do
        markTransferClaimed secret
        let data ← Program.lift (firstRow row)
        return { data with claimed := true }).run (Connection.exec platform now owner) c = (r, c') ∧
      c'.txn = none ∧
      ((¬ c.Clear 3 ∧ r = .error .thrown ∧ c'.table = c.table) ∨
        (c.Clear 3 ∧ r = (firstRow row).map (fun data => { data with claimed := true }) ∧
          c'.table = c.table.markClaimed secret)) := by
  rcases @DB.markTransferClaimed_cases platform now owner c hidle secret with
    ⟨hmark, htable, hidle', hclear⟩ | ⟨hclear, hmark⟩
  · exact ⟨_, _, Program.run_bind_error (Prod.ext hmark rfl) _, hidle',
      Or.inl ⟨hclear, rfl, htable⟩⟩
  · refine ⟨(firstRow row).map fun data => { data with claimed := true },
      { c.shift.shift.shift with table := c.table.markClaimed secret },
      (Program.run_bind_ok hmark _).trans ?_, hidle, Or.inr ⟨hclear, rfl, rfl⟩⟩
    cases firstRow row <;> rfl

/-- **`get_transfers_metadata`** marks the row and returns it, or throws. -/
theorem DB.getTransfersMetadata_cases (hidle : c.txn = none) (secret : Bytes) :
    let r := (DB.getTransfersMetadata secret).run (Connection.exec platform now owner) c
    (¬ c.Clear 6 ∧ r.1 = .error .thrown ∧ r.2.table = c.table) ∨
    (c.Clear 6 ∧
      r.1 = (firstRow (c.table.row secret)).map (fun data => { data with claimed := true }) ∧
      r.2.table = c.table.markClaimed secret) := by
  intro r
  have hthrown : ∀ {i c'}, c.faults i = true → i < 6 → r = (.error .thrown, c') →
      c'.table = c.table → ¬ c.Clear 6 ∧ r.1 = .error .thrown ∧ r.2.table = c.table := by
    intro i c' hi hlt hr htable
    rw [hr]
    exact ⟨c.not_clear hi hlt, rfl, htable⟩
  have hbody := @run_select_commit platform now owner c.shift _ c.table secret fun r => do
    markTransferClaimed secret
    let data ← Program.lift (firstRow r)
    return { data with claimed := true }
  rw [show c.shift.faults 0 = c.faults 1 from rfl, show c.shift.faults 1 = c.faults 2 from rfl]
    at hbody
  cases h0 : c.faults 0 with
  | true => exact Or.inl (hthrown h0 (by decide) (run_transaction_fault hidle h0) rfl)
  | false =>
    cases h1 : c.faults 1 with
    | true =>
      rw [if_pos h1] at hbody
      exact Or.inl (hthrown h1 (by decide) (run_transaction_thrown hidle h0 hbody) rfl)
    | false =>
      rw [if_neg (by simp [h1])] at hbody
      cases h2 : c.faults 2 with
      | true =>
        rw [if_pos h2] at hbody
        exact Or.inl (hthrown h2 (by decide) (run_transaction_thrown hidle h0 hbody) rfl)
      | false =>
        rw [if_neg (by simp [h2])] at hbody
        -- the transaction is over, and the row is marked in another one
        obtain ⟨r', c', hrun, hidle', hrest⟩ := @DB.run_getTransfersMetadata_rest platform now owner
          { c.shift.shift.shift with table := c.table, txn := none } rfl secret
          (c.table.row secret)
        have hr : r = _ := run_transaction_ended hidle h0 (hbody.trans hrun) hidle'
        rw [hr]
        refine hrest.imp (And.imp_left ?_) (And.imp_left ?_)
        · intro hclear h
          exact hclear h.shift.shift.shift
        · intro hclear
          exact Connection.clear_succ h0 (Connection.clear_succ h1
            (Connection.clear_succ h2 hclear))

end Functions

end Zapshare
