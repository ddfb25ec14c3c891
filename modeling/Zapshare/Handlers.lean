import Zapshare.Workers
import Mathlib.Data.Set.Basic

/-!
# Handlers that are not disturbed

What the handlers that use the database do when they have it for themselves, how much of the table
they depend on, and in which order they call their operations. A mark on a row changes neither an
answer nor what is stored otherwise; so it does not matter that `/getfile` makes its mark later than
it reads the row, unless the row was not there.

## The shape of a handler

Every handler opens a transaction with its first operation on the database, or answers without one.
`Opens`, `Inside` and `Quiet` say what may follow, as predicates on programs: in front of a
transaction, in it, and when there is nothing left but to close it and to answer. They follow the
handlers operation by operation, so that a step of a worker is one case of them, and no proof about
a pool unfolds a handler.

## Scope

Only `/lookup`, `/getfile` and `/register` are here. Who owns the transactions does not matter to a
request that is not disturbed, and its owner is a parameter where the pool needs it.

## Main definitions

* `AheadBy` — a table with some marks made in advance
* `Job.stored` — the row that a registration stores
* `Quiet`, `Inside`, `Opens` — the order of the operations
* `Settled` — what is left of a request decides its answer, and the mark it makes

## Main results

* `Job.run_eq_alone` — a request that is not disturbed does what it does alone
* `Job.alone_aheadBy` — marks that are made too early change no answer
* `Job.opens` — the order in which a handler calls its operations
-/

namespace Zapshare

open Wire

/-! ### Marked rows -/

/-- A row that has been marked. -/
def Row.claim (r : Row) : Row := { r with claimed := some true }

theorem Table.ext_row {t t' : Table} (h : ∀ id, t.row id = t'.row id) : t = t' := by
  cases t
  cases t'
  congr
  exact funext h

theorem Table.row_markClaimed_eq (t : Table) (id id' : Bytes) :
    (t.markClaimed id).row id' = if id' = id then (t.row id).map Row.claim else t.row id' := by
  cases hrow : t.row id with
  | none =>
    rw [markClaimed, hrow]
    by_cases heq : id' = id
    · rw [if_pos heq, heq]
      exact hrow
    · rw [if_neg heq]
  | some r =>
    rw [markClaimed, hrow, row_set, ← t.id_row hrow]
    rfl

theorem Table.row_upsert (t : Table) (new : Row) (id : Bytes) :
    (t.upsert new).row id =
      if id = new.id then some ((t.row new.id).elim new fun old => old.onConflict new)
      else t.row id := by
  rw [upsert]
  cases t.row new.id <;> exact t.row_set _ id

/-- Rows do not vanish, and marking makes none. -/
theorem Table.row_markClaimed_eq_none {t : Table} {id id' : Bytes} :
    (t.markClaimed id).row id' = none ↔ t.row id' = none := by
  rw [row_markClaimed_eq]
  split
  · rename_i heq
    rw [heq, Option.map_eq_none_iff]
  · rfl

/-- `s` is ahead of `t`: the rows of `ids` are marked in it. -/
def AheadBy (ids : Set Bytes) (t s : Table) : Prop :=
  ∀ id, (id ∈ ids → s.row id = (t.row id).map Row.claim) ∧ (id ∉ ids → s.row id = t.row id)

variable {ids : Set Bytes} {t s : Table}

theorem aheadBy_empty : AheadBy ∅ t s ↔ s = t := by
  constructor
  · intro h
    exact Table.ext_row fun id => (h id).2 (Set.notMem_empty id)
  · rintro rfl id
    exact ⟨fun h => absurd h (Set.notMem_empty id), fun _ => rfl⟩

/-- What is going to be marked may be marked now. -/
theorem aheadBy_markClaimed {id : Bytes} :
    AheadBy ids (t.markClaimed id) s ↔ AheadBy (insert id ids) t s := by
  refine forall_congr' fun id' => ?_
  rw [Table.row_markClaimed_eq, Set.mem_insert_iff]
  by_cases hid : id' = id
  · have hclaim : ((t.row id).map Row.claim).map Row.claim = (t.row id).map Row.claim := by
      cases t.row id <;> rfl
    simp only [hid, if_true, true_or, forall_const, not_true, false_imp_iff, and_true, hclaim]
    exact ⟨fun h => (Classical.em (id ∈ ids)).elim h.1 h.2, fun h => ⟨fun _ => h, fun _ => h⟩⟩
  · simp only [hid, if_false, false_or]

theorem AheadBy.isSome (h : AheadBy ids t s) (id : Bytes) :
    (s.row id).isSome = (t.row id).isSome := by
  by_cases hid : id ∈ ids
  · rw [(h id).1 hid, Option.isSome_map]
  · rw [(h id).2 hid]

theorem AheadBy.markClaimed (h : AheadBy ids t s) (id : Bytes) :
    AheadBy ids (t.markClaimed id) (s.markClaimed id) := by
  have hclaim : (s.row id).map Row.claim = (t.row id).map Row.claim := by
    by_cases hid : id ∈ ids
    · rw [(h id).1 hid]
      cases t.row id <;> rfl
    · rw [(h id).2 hid]
  intro id'
  rw [Table.row_markClaimed_eq, Table.row_markClaimed_eq]
  split
  · refine ⟨fun _ => ?_, fun _ => hclaim⟩
    rw [hclaim]
    cases t.row id <;> rfl
  · exact h id'

/-- A row may be stored behind a mark, if the mark is not one for a row that was not there. -/
theorem AheadBy.upsert (h : AheadBy ids t s) {new : Row}
    (hnew : new.id ∈ ids → t.row new.id ≠ none) : AheadBy ids (t.upsert new) (s.upsert new) := by
  intro id
  rw [Table.row_upsert, Table.row_upsert]
  split
  · rename_i hid
    subst hid
    refine ⟨fun hid => ?_, fun hid => by rw [(h new.id).2 hid]⟩
    obtain ⟨old, hold⟩ := Option.ne_none_iff_exists'.mp (hnew hid)
    rw [(h new.id).1 hid, hold]
    rfl
  · exact h id

/-- A mark does not show in what `/getfile` answers. -/
theorem AheadBy.fileDraft (platform : Platform) (h : AheadBy ids t s) (id : Bytes) :
    Server.fileDraft platform (s.row id) = Server.fileDraft platform (t.row id) := by
  have hclaim : ∀ row : Row, Server.fileBody platform row.claim = Server.fileBody platform row := by
    intro row
    rw [Server.fileBody, Server.fileBody, Row.claim, DB.toTransferRow_claimed]
    cases DB.toTransferRow row <;> rfl
  by_cases hid : id ∈ ids
  · rw [(h id).1 hid, Server.fileDraft, Server.fileDraft]
    cases t.row id with
    | none => rfl
    | some row => rw [Option.map_some, Option.bind_some, Option.bind_some, hclaim]
  · rw [(h id).2 hid]

/-! ### Whose transaction it is -/

/-- The connection, with its transaction in the hands of `owner`. -/
def Connection.ofOwner (c : Connection) (owner : ℕ) : Connection :=
  { c with txn := c.txn.map fun txn => ⟨owner, txn.view⟩ }

section Owner

variable {platform : Platform} {now : Timestamp}

theorem Connection.update_ofOwner (f : Table → Option Table) (c : Connection) :
    ∃ r c', ∀ owner, (c.ofOwner owner).update owner f = (r, Connection.ofOwner c' owner) := by
  obtain ⟨table, _ | ⟨owner, view⟩, faults⟩ := c
  · exact ⟨.error .thrown, ⟨table, none, faults⟩, fun _ => rfl⟩
  · cases hf : f view with
    | none =>
      refine ⟨.error .thrown, ⟨table, some ⟨owner, view⟩, faults⟩, fun _ => ?_⟩
      simp [update, Connection.view, ofOwner, hf]
    | some view' =>
      refine ⟨.ok (), ⟨table, some ⟨owner, view'⟩, faults⟩, fun _ => ?_⟩
      simp [update, Connection.view, ofOwner, hf]

theorem Connection.perform_ofOwner (op : DbOp) (c : Connection) :
    ∃ r c', ∀ owner, Connection.perform platform now owner op (c.ofOwner owner)
      = (r, Connection.ofOwner c' owner) := by
  cases op with
  | markClaimed id => exact update_ofOwner _ c
  | insert p => exact update_ofOwner _ c
  | begin =>
    obtain ⟨table, _ | txn, faults⟩ := c
    · exact ⟨.ok (), ⟨table, some ⟨0, table⟩, faults⟩, fun _ => rfl⟩
    · exact ⟨.error .thrown, ⟨table, some txn, faults⟩, fun _ => rfl⟩
  | select id =>
    obtain ⟨table, _ | txn, faults⟩ := c
    · exact ⟨.error .thrown, ⟨table, none, faults⟩, fun _ => rfl⟩
    · refine ⟨.ok (txn.view.row id), ⟨table, some txn, faults⟩, fun _ => ?_⟩
      simp [perform, view, ofOwner]
  | commit =>
    obtain ⟨table, _ | txn, faults⟩ := c
    · exact ⟨.error .thrown, ⟨table, none, faults⟩, fun _ => rfl⟩
    · refine ⟨.ok (), ⟨txn.view, none, faults⟩, fun _ => ?_⟩
      simp [perform, view, ofOwner]
  | close =>
    refine ⟨.ok (), { c with txn := none }, fun _ => ?_⟩
    obtain ⟨table, _ | txn, faults⟩ := c <;> simp [perform, view, ofOwner]

theorem Connection.exec_ofOwner (op : DbOp) (c : Connection) :
    ∃ r c', ∀ owner, Connection.exec platform now owner op (c.ofOwner owner)
      = (r, Connection.ofOwner c' owner) := by
  cases hfault : c.faults 0 with
  | false =>
    cases op with
    | close => exact @perform_ofOwner platform now .close c
    | _ =>
      obtain ⟨r, c', h⟩ := @perform_ofOwner platform now _ c.shift
      refine ⟨r, c', fun owner => ?_⟩
      rw [← h owner]
      exact if_neg (by simp [ofOwner, hfault])
  | true =>
    cases op with
    | close => exact @perform_ofOwner platform now .close c
    | _ => exact ⟨.error .thrown, c.shift, fun owner => if_pos hfault⟩

theorem Db.run_ofOwner {α : Type} (p : Db α) (c : Connection) :
    ∃ r c', ∀ owner, p.run (Connection.exec platform now owner) (c.ofOwner owner)
      = (r, Connection.ofOwner c' owner) := by
  induction p generalizing c with
  | done r => exact ⟨r, c, fun _ => rfl⟩
  | call op next ih =>
    obtain ⟨answer, c', hexec⟩ := @Connection.exec_ofOwner platform now op c
    obtain ⟨r, c'', hrun⟩ := ih answer c'
    refine ⟨r, c'', fun owner => ?_⟩
    rw [Program.run, hexec, hrun]

end Owner

/-! ### Requests that have the server for themselves -/

namespace Job

variable {platform : Platform} {job : Job}

/-- **A request that is not disturbed** does what it does alone, whoever owns its transactions. -/
theorem run_eq_alone {owner : ℕ} {r : Except Fault Draft} {c : Connection}
    (h : (job.handler platform).run (Connection.exec platform job.call.now owner)
      (job.connection t) = (r, c)) :
    job.alone platform t = (r, c.table) := by
  obtain ⟨r', c', hrun⟩ := @Db.run_ofOwner platform job.call.now _ (job.handler platform)
    (job.connection t)
  obtain ⟨rfl, rfl⟩ := Prod.mk.inj ((hrun owner).symm.trans h)
  have hzero := hrun 0
  simp only [Connection.ofOwner, Option.map_none] at hzero
  rw [alone, hzero]
  rfl

/-- `/lookup` does not change the table. -/
theorem alone_lookup {secret : Bytes} (hroute : job.route = .lookup secret) (t : Table) :
    job.alone platform t =
      (if job.call.faults 0 then .error .thrown
        else .ok { body := text (if !job.call.faults 1 && (t.row secret).isSome then "True"
          else "False") }, t) := by
  rw [alone, handler, hroute]
  exact Server.run_lookupHandler_eq rfl secret

/-- `/getfile` answers the row, and marks it, if no operation throws. -/
theorem alone_getfile {secret : Bytes} (hroute : job.route = .getfile secret) (t : Table) :
    job.alone platform t =
      if Faultless job.call.faults 6 then
        (.ok (Server.fileDraft platform (t.row secret)), t.markClaimed secret)
      else (.ok {}, t) := by
  rw [alone, handler, hroute]
  exact Server.run_getfileHandler_eq rfl secret

/-- The row that `/register` stores, if any, unless it ends the process. -/
def stored (platform : Platform) (job : Job) : Except Fault (Option Row) :=
  Server.storing platform job.call.request.body job.call.now job.call.faults

/-- `/register` ends the process, or stores the row it has to store. -/
theorem alone_register (hroute : job.route = .register) (t : Table) :
    job.alone platform t =
      match job.stored platform with
      | .error e => (.error e, t)
      | .ok none => (.ok {}, t)
      | .ok (some row) => (.ok { status := some 201 }, t.upsert row) := by
  rw [alone, handler, hroute]
  exact Server.run_registerHandler_eq rfl job.call.request.body

/-- A row that has been posted is stored, if nothing throws for reasons of its own. -/
theorem stored_of_posted {row : Row} (hclear : Faultless job.call.faults 3)
    (hrow : Server.postedRow platform job.call.request.body job.call.now = some row) :
    job.stored platform = .ok (some row) := by
  have hstoring := @Server.storing_eq platform job.call.request.body job.call.now job.call.faults
  rw [if_pos hclear, hrow] at hstoring
  refine hstoring ?_
  rintro data hparse - hp
  obtain ⟨p, hp', -⟩ := (Server.postedRow_eq_some hparse).mp hrow
  rw [hp] at hp'
  cases hp'

/-- **Marks that are made too early** change no answer, and the table only by themselves, unless a
row is stored that is one of them. -/
theorem alone_aheadBy (job : Job) (h : AheadBy ids t s)
    (hnew : ∀ id ∈ ids, t.row id = none → (job.alone platform t).2.row id = none) :
    (job.alone platform s).1 = (job.alone platform t).1 ∧
      AheadBy ids (job.alone platform t).2 (job.alone platform s).2 := by
  cases hroute : job.route with
  | lookup secret =>
    rw [alone_lookup hroute, alone_lookup hroute, h.isSome]
    exact ⟨rfl, h⟩
  | getfile secret =>
    rw [alone_getfile hroute, alone_getfile hroute, h.fileDraft]
    split
    · exact ⟨rfl, h.markClaimed secret⟩
    · exact ⟨rfl, h⟩
  | register =>
    rw [alone_register hroute] at hnew
    rw [alone_register hroute, alone_register hroute]
    generalize job.stored platform = stored at hnew ⊢
    obtain e | _ | row := stored
    · exact ⟨rfl, h⟩
    · exact ⟨rfl, h⟩
    · refine ⟨rfl, h.upsert fun hid hnone => ?_⟩
      have hrow := hnew row.id hid hnone
      rw [Table.row_upsert, if_pos rfl] at hrow
      cases hrow

end Job

/-! ### The order of the operations -/

/-- The operations that are executed in a transaction and leave it open. -/
def DbOp.IsStatement : DbOp → Prop
  | .select _ | .markClaimed _ | .insert _ => True
  | _ => False

/-- Nothing is left to be done but to close what is not open. -/
inductive Quiet : Db Draft → Prop
  | done {r : Except Fault Draft} (hr : r ≠ .error .aborted) : Quiet (.done r)
  | close {next : Except Fault Unit → Db Draft} (h : Quiet (next (.ok ()))) :
    Quiet (.call .close next)

/-- A transaction is open; `After` holds of what is left when it is over. It does not end on any
other way but with the process. -/
inductive Inside (After : Db Draft → Prop) : Db Draft → Prop
  | aborted : Inside After (.done (.error .aborted))
  | statement {op : DbOp} {next : Except Fault op.Answer → Db Draft} (hop : op.IsStatement)
    (h : ∀ r, Inside After (next r)) : Inside After (.call op next)
  | commit {next : Except Fault Unit → Db Draft} (hfault : Inside After (next (.error .thrown)))
    (h : After (next (.ok ()))) : Inside After (.call .commit next)
  | close {next : Except Fault Unit → Db Draft} (h : After (next (.ok ()))) :
    Inside After (.call .close next)

/-- A transaction is going to be opened; `After` holds of what is left when it is over. -/
def Opens (After : Db Draft → Prop) (p : Db Draft) : Prop :=
  ∃ next, p = .call .begin next ∧ Quiet (next (.error .thrown)) ∧ Inside After (next (.ok ()))

/-- What the scope of a transaction does at its end. -/
def closing {α : Type} (p : Db α) : Db α :=
  p.andThen fun
    | .ok a => DB.close.andThen fun _ => .done (.ok a)
    | .error e =>
      if decide (e = .aborted) then .done (.error e)
      else DB.close.andThen fun _ => .done (.error e)

theorem transaction_eq {α : Type} (body : Db α) :
    DB.transaction body = DB.begin.bind fun _ => closing body := by
  rw [DB.transaction, Program.bracket]
  congr
  funext _
  rw [closing]
  congr
  funext r
  cases r <;> rfl

/-- What `/getfile` has left to do when it has found the row. -/
def markingRest (platform : Platform) (secret : Bytes) (row : Option Row) : Db Draft :=
  Server.sendRow platform <| closing do
    DB.markTransferClaimed secret
    let data ← Program.lift (DB.firstRow row)
    return { data with claimed := true }

/-- What a request may have left to do when its first transaction is over. -/
def Job.Left (platform : Platform) (job : Job) (p : Db Draft) : Prop :=
  Quiet p ∨ ∃ secret row, job.route = .getfile secret ∧ p = markingRest platform secret row

section Shapes

variable {platform : Platform}

theorem opens_lookup {After : Db Draft → Prop} (hquiet : ∀ {p}, Quiet p → After p)
    (secret : Bytes) : Opens After (lookupHandler secret) := by
  refine ⟨_, rfl, Quiet.done (by simp), Inside.statement trivial fun r => ?_⟩
  cases r with
  | ok row => exact Inside.close (hquiet (Quiet.done (by simp)))
  | error e =>
    cases e with
    | thrown => exact Inside.close (hquiet (Quiet.done (by simp)))
    | aborted => exact Inside.aborted

theorem opens_register {After : Db Draft → Prop} (hquiet : ∀ {p}, Quiet p → After p)
    (body : Bytes) :
    registerHandler platform body = .done (.ok {}) ∨
      Opens After (registerHandler platform body) := by
  have hover : ∀ draft : Draft, After (.done (.ok draft)) :=
    fun draft => hquiet (Quiet.done (by simp))
  rw [registerHandler]
  cases platform.parse body with
  | none => exact Or.inl rfl
  | some data =>
    refine Or.inr ⟨_, rfl, Quiet.done (by simp), ?_⟩
    cases DB.transferRowFromJson platform data with
    | error e =>
      cases e with
      | thrown => exact Inside.close (hover _)
      | aborted => exact Inside.aborted
    | ok p =>
      refine Inside.statement trivial fun r => ?_
      cases r with
      | ok _ =>
        refine Inside.commit (Inside.close (hover _)) (hquiet (Quiet.close ?_))
        exact Quiet.done (by simp)
      | error e =>
        cases e with
        | thrown => exact Inside.close (hover _)
        | aborted => exact Inside.aborted

theorem opens_getfile {After : Db Draft → Prop} (hquiet : ∀ {p}, Quiet p → After p)
    {secret : Bytes} (hrest : ∀ row, After (markingRest platform secret row)) :
    Opens After (getfileHandler platform secret) := by
  have hover : ∀ draft : Draft, After (.done (.ok draft)) :=
    fun draft => hquiet (Quiet.done (by simp))
  rw [Server.getfileHandler_eq, DB.getTransfersMetadata, transaction_eq]
  refine ⟨_, rfl, Quiet.done (by simp), Inside.statement trivial fun r => ?_⟩
  cases r with
  | ok row => exact Inside.commit (Inside.close (hover _)) (hrest row)
  | error e =>
    cases e with
    | thrown => exact Inside.close (hover _)
    | aborted => exact Inside.aborted

theorem quiet_sendRow (data : TransferRow) :
    Quiet (Server.sendRow platform (.done (.ok data))) := by
  change Quiet (catching (do
    let body ← Program.lift (orThrow (platform.dump (DB.transferRowToJson data)))
    return ({ status := some 200, body } : Draft)) (return {}))
  cases platform.dump (DB.transferRowToJson data) <;> exact Quiet.done (by simp)

theorem opens_markingRest (secret : Bytes) (row : Option Row) :
    Opens Quiet (markingRest platform secret row) := by
  have hover : ∀ draft : Draft, Quiet (.done (.ok draft)) := fun draft => Quiet.done (by simp)
  have hfirst : ∀ {r}, DB.firstRow row = r → Quiet (Server.sendRow platform (closing (do
      let data ← Program.lift r
      return { data with claimed := true }))) := by
    rintro (e | data) hrow
    · obtain rfl := DB.firstRow_error hrow
      exact Quiet.close (hover _)
    · refine Quiet.close ?_
      exact quiet_sendRow { data with claimed := true }
  rw [markingRest, DB.markTransferClaimed, transaction_eq]
  refine ⟨_, rfl, Quiet.close (hover _), Inside.statement trivial fun r => ?_⟩
  cases r with
  | ok row => exact Inside.commit (Inside.close (Quiet.close (hover _))) (Quiet.close (hfirst rfl))
  | error e =>
    cases e with
    | thrown => exact Inside.close (Quiet.close (hover _))
    | aborted => exact Inside.aborted

/-- **The order of the operations of a request**: one transaction, or two for `/getfile`. -/
theorem Job.opens (job : Job) :
    job.handler platform = .done (.ok {}) ∨ Opens (job.Left platform) (job.handler platform) := by
  rw [handler]
  cases hroute : job.route with
  | lookup secret => exact Or.inr (opens_lookup Or.inl secret)
  | getfile secret =>
    exact Or.inr (opens_getfile Or.inl fun row => Or.inr ⟨secret, row, hroute, rfl⟩)
  | register => exact opens_register Or.inl _

/-! ### What is left to be done -/

/-- The table with a mark that may be due. -/
def Table.markDue (t : Table) : Option Bytes → Table
  | some id => t.markClaimed id
  | none => t

/-- What is left of a request answers `r` and makes the mark that is due, whatever the table. -/
def Settled (platform : Platform) (now : Timestamp) (owner : ℕ) (r : Except Fault Draft)
    (due : Option Bytes) (p : Db Draft) (faults : ℕ → Bool) : Prop :=
  ∀ t, ∃ c, p.run (Connection.exec platform now owner) { table := t, faults } = (r, c) ∧
    c.table = t.markDue due

variable {now : Timestamp} {owner : ℕ} {c c' : Connection}

namespace Connection

/-- Closing what is not open does nothing. -/
theorem exec_close_out (h : c.view owner = none) :
    Connection.exec platform now owner .close c = (.ok (), c) := by
  simp [exec, perform, h]

theorem exec_begin_fault (h : c.faults 0 = true) :
    Connection.exec platform now owner .begin c = (.error .thrown, c.shift) :=
  if_pos h

theorem exec_begin (h : c.faults 0 = false) (hidle : c.txn = none) :
    Connection.exec platform now owner .begin c
      = (.ok (), { c.shift with txn := some ⟨owner, c.table⟩ }) := by
  have hrun := @run_begin platform now owner c hidle
  rw [h] at hrun
  exact hrun

variable {view : Table}

theorem exec_changes {op : Db Unit} {f : Table → Option Table}
    (hop : Changes platform now owner op f) :
    ∃ r view', op.run (Connection.exec platform now owner) (c.inTransaction owner view)
      = (r, c.shift.inTransaction owner view') := by
  have hrun := hop c view
  split at hrun
  · exact ⟨_, _, hrun⟩
  · split at hrun <;> exact ⟨_, _, hrun⟩

/-- A statement is executed in the transaction that is open. -/
theorem exec_statement {op : DbOp} (hop : op.IsStatement) (htxn : c.txn = some ⟨owner, view⟩) :
    ∃ r view', Connection.exec platform now owner op c
      = (r, { c.shift with txn := some ⟨owner, view'⟩ }) := by
  have hview : c = c.inTransaction owner view := by rw [inTransaction, ← htxn]
  cases op with
  | select id =>
    have hrun := @run_select platform now owner c view id
    rw [← hview] at hrun
    exact ⟨_, view, hrun⟩
  | markClaimed id =>
    rw [hview]
    exact exec_changes (changes_markClaimed id)
  | insert p =>
    rw [hview]
    exact exec_changes (changes_insert p)
  | begin => exact hop.elim
  | commit => exact hop.elim
  | close => exact hop.elim

theorem exec_commit_fault (h : c.faults 0 = true) :
    Connection.exec platform now owner .commit c = (.error .thrown, c.shift) :=
  if_pos h

theorem exec_commit (h : c.faults 0 = false) (htxn : c.txn = some ⟨owner, view⟩) :
    Connection.exec platform now owner .commit c
      = (.ok (), { c.shift with table := view, txn := none }) := by
  have hview : c = c.inTransaction owner view := by rw [inTransaction, ← htxn]
  have hrun := @run_commit platform now owner c view
  rw [← hview, h] at hrun
  exact hrun

theorem exec_close (htxn : c.txn = some ⟨owner, view⟩) :
    Connection.exec platform now owner .close c = (.ok (), { c with txn := none }) := by
  have hview : c = c.inTransaction owner view := by rw [inTransaction, ← htxn]
  have hrun := @run_close_inTransaction platform now owner c view
  rw [← hview] at hrun
  exact hrun

end Connection

theorem Quiet.run_eq {p : Db Draft} (h : Quiet p) :
    ∃ r, r ≠ .error .aborted ∧ ∀ now owner c, Connection.view c owner = none →
      p.run (Connection.exec platform now owner) c = (r, c) := by
  induction h with
  | @done r hr => exact ⟨r, hr, fun _ _ _ _ => rfl⟩
  | @close next _ ih =>
    obtain ⟨r, hr, hrun⟩ := ih
    refine ⟨r, hr, fun now owner c hview => ?_⟩
    rw [Program.run, Connection.exec_close_out hview]
    exact hrun now owner c hview

theorem Quiet.settled {p : Db Draft} (h : Quiet p) (faults : ℕ → Bool) :
    ∃ r, r ≠ .error .aborted ∧ Settled platform now owner r none p faults := by
  obtain ⟨r, hr, hrun⟩ := @Quiet.run_eq platform p h
  exact ⟨r, hr, fun t => ⟨_, hrun now owner { table := t, faults } rfl, rfl⟩⟩

theorem run_closing {α : Type} {p : Db α} {r : Except Fault α}
    (h : p.run (Connection.exec platform now owner) c = (r, c')) (hidle : c'.txn = none) :
    (closing p).run (Connection.exec platform now owner) c = (r, c') := by
  rw [closing, Program.run_andThen, h]
  obtain (_ | _) | _ := r
  · exact congrArg (Prod.mk _) (congrArg Prod.snd (@run_close_idle platform now owner c' hidle))
  · rfl
  · exact congrArg (Prod.mk _) (congrArg Prod.snd (@run_close_idle platform now owner c' hidle))

/-- The mark is due if nothing throws before it is made. -/
theorem settled_markingRest (secret : Bytes) (row : Option Row) (faults : ℕ → Bool) :
    ∃ r, r ≠ .error .aborted ∧
      Settled platform now owner r (if Faultless faults 3 then some secret else none)
        (markingRest platform secret row) faults := by
  have hrest : ∀ t, _ := fun t => @DB.run_getTransfersMetadata_rest platform now owner
    { table := t, faults } rfl secret row
  by_cases hclear : Faultless faults 3
  · refine ⟨.ok (Server.fileDraft platform row), by simp, fun t => ?_⟩
    obtain ⟨r, c, hrun, hidle, hcases⟩ := hrest t
    rcases hcases with ⟨hfault, -⟩ | ⟨-, rfl, htable⟩
    · exact absurd hclear hfault
    · exact ⟨c, Server.run_sendRow (run_closing hrun hidle), by rw [if_pos hclear]; exact htable⟩
  · refine ⟨.ok {}, by simp, fun t => ?_⟩
    obtain ⟨r, c, hrun, hidle, hcases⟩ := hrest t
    rcases hcases with ⟨-, rfl, htable⟩ | ⟨hclear', -⟩
    · exact ⟨c, Server.run_sendRow_thrown (run_closing hrun hidle),
        by rw [if_neg hclear]; exact htable⟩
    · exact absurd hclear' hclear

/-- What is left after the first transaction is settled, and a mark that is due is made in another
transaction. -/
theorem Job.Left.settled {job : Job} {p : Db Draft} (h : job.Left platform p)
    (faults : ℕ → Bool) :
    ∃ r due, r ≠ .error .aborted ∧ Settled platform now owner r due p faults ∧
      (Quiet p ∧ due = none ∨ Opens Quiet p ∧
        ∀ id, due = some id → job.route = .getfile id ∧ Faultless faults 3) := by
  rcases h with h | ⟨secret, row, hroute, rfl⟩
  · obtain ⟨r, hr, hsettled⟩ := @Quiet.settled platform now owner p h faults
    exact ⟨r, none, hr, hsettled, Or.inl ⟨h, rfl⟩⟩
  · obtain ⟨r, hr, hsettled⟩ := @settled_markingRest platform now owner secret row faults
    refine ⟨r, _, hr, hsettled, Or.inr ⟨opens_markingRest secret row, fun id hid => ?_⟩⟩
    split at hid
    · rename_i hclear
      obtain rfl := Option.some.inj hid
      exact ⟨hroute, hclear⟩
    · cases hid

end Shapes

/-! ### One after the other -/

section Turns

variable {platform : Platform}

/-- No request removes a row. -/
theorem Job.alone_row_ne_none (job : Job) {id : Bytes} (h : t.row id ≠ none) :
    (job.alone platform t).2.row id ≠ none := by
  cases hroute : job.route with
  | lookup secret =>
    rw [alone_lookup hroute]
    exact h
  | getfile secret =>
    rw [alone_getfile hroute]
    split
    · rwa [Ne, Table.row_markClaimed_eq_none]
    · exact h
  | register =>
    rw [alone_register hroute]
    obtain e | _ | row := job.stored platform
    · exact h
    · exact h
    · rw [Table.row_upsert]
      split
      · exact Option.some_ne_none _
      · exact h

theorem Server.step_row_ne_none {s : Server} (job : Job) {id : Bytes}
    (h : s.table.row id ≠ none) : (s.step platform (.call job.call)).1.table.row id ≠ none := by
  cases hrunning : s.running with
  | true =>
    rw [Server.step_job hrunning]
    exact job.alone_row_ne_none h
  | false => rwa [Server.step_down hrunning]

variable {n : ℕ} {jobs : Fin n → Job} {s : Server}

theorem Server.final_row_ne_none {s : Server} {id : Bytes} (order : List (Fin n))
    (h : s.table.row id ≠ none) :
    (Machine.final (Server.step platform) s (Pool.calls jobs order)).table.row id ≠ none := by
  induction order generalizing s with
  | nil => exact h
  | cons o order ih => exact ih (step_row_ne_none (jobs o) h)

/-- In a sequential order every request has its turn. -/
theorem exists_turn {order : List (Fin n)} {o : Fin n}
    (ho : o ∈ order) {f : Fin n → List Response}
    (h : (Machine.trace (Server.step platform) s (Pool.calls jobs order)).map Machine.Entry.output
      = order.map f) :
    ∃ s' : Server, (∀ id, s.table.row id ≠ none → s'.table.row id ≠ none) ∧
      (s'.step platform (.call (jobs o).call)).2 = f o ∧
      ∀ id, (s'.step platform (.call (jobs o).call)).1.table.row id ≠ none →
        (Machine.final (Server.step platform) s (Pool.calls jobs order)).table.row id ≠ none := by
  induction order generalizing s with
  | nil => cases ho
  | cons o' order ih =>
    rw [Pool.calls, List.map_cons, Machine.trace_cons, List.map_cons, List.map_cons,
      List.cons.injEq] at h
    rcases List.mem_cons.mp ho with rfl | ho
    · exact ⟨s, fun _ h => h, h.1, fun _ => Server.final_row_ne_none order⟩
    · obtain ⟨s', hrows, hstep, hfinal⟩ := ih ho h.2
      exact ⟨s', fun id hid => hrows id (Server.step_row_ne_none _ hid), hstep, hfinal⟩

namespace Pool.Serializable

variable {P : Pool n} {o : Fin n}

/-- What a request was answered it is answered alone, on some table with at least the rows that were
there before, and at most those that are there afterwards. -/
theorem exists_alone (h : P.Serializable platform jobs s) (hsent : (P.threads o).sent ≠ []) :
    ∃ t : Table, (∀ id, s.table.row id ≠ none → t.row id ≠ none) ∧
      (P.threads o).sent = respond ((jobs o).alone platform t).1 ∧
      ∀ id, ((jobs o).alone platform t).2.row id ≠ none → P.table.row id ≠ none := by
  obtain ⟨order, hperm, hanswers, htable⟩ := h
  have ho : o ∈ order := hperm.mem_iff.mpr (List.mem_finRange o)
  obtain ⟨s', hrows, hstep, hfinal⟩ := exists_turn ho hanswers
  cases hrunning : s'.running with
  | true =>
    rw [Server.step_job hrunning] at hstep hfinal
    rw [htable] at hfinal
    exact ⟨s'.table, hrows, hstep.symm, hfinal⟩
  | false =>
    rw [Server.step_down hrunning] at hstep
    exact absurd hstep.symm hsent

/-- **A lookup of a registered id** is answered so, if nothing throws for reasons of its own. -/
theorem lookup (h : P.Serializable platform jobs s) {secret : Bytes}
    (hroute : (jobs o).route = .lookup secret) (hrow : s.table.row secret ≠ none)
    (hclear : Faultless (jobs o).call.faults 2) (hsent : (P.threads o).sent ≠ []) :
    (P.threads o).sent = [{ status := 200, body := text "True" }] := by
  obtain ⟨t, hrows, hanswer, -⟩ := h.exists_alone hsent
  rw [hanswer, Job.alone_lookup hroute, hclear 0 (by decide), hclear 1 (by decide),
    Option.isSome_iff_ne_none.mpr (hrows secret hrow)]
  rfl

/-- **A `/getfile` of a registered id** is answered with a row that is stored under it. -/
theorem getfile (h : P.Serializable platform jobs s) {secret : Bytes}
    (hroute : (jobs o).route = .getfile secret) (hrow : s.table.row secret ≠ none)
    (hclear : Faultless (jobs o).call.faults 6) (hsent : (P.threads o).sent ≠ []) :
    ∃ row, row.id = secret ∧
      (P.threads o).sent = respond (.ok (Server.fileDraft platform (some row))) := by
  obtain ⟨t, hrows, hanswer, -⟩ := h.exists_alone hsent
  obtain ⟨row, hrow⟩ := Option.ne_none_iff_exists'.mp (hrows secret hrow)
  rw [Job.alone_getfile hroute, if_pos hclear, hrow] at hanswer
  exact ⟨row, t.id_row hrow, hanswer⟩

/-- **A registration** is stored, if its fields can be and no operation throws. -/
theorem register (h : P.Serializable platform jobs s) (hroute : (jobs o).route = .register)
    {row : Row} (hrow : Server.postedRow platform (jobs o).call.request.body (jobs o).call.now
      = some row)
    (hclear : Faultless (jobs o).call.faults 3) (hsent : (P.threads o).sent ≠ []) :
    (P.threads o).sent = [{ status := 201 }] ∧ P.table.row row.id ≠ none := by
  obtain ⟨t, -, hanswer, hfinal⟩ := h.exists_alone hsent
  rw [Job.alone_register hroute, Job.stored_of_posted hclear hrow] at hanswer hfinal
  refine ⟨hanswer, hfinal row.id ?_⟩
  rw [Table.row_upsert, if_pos rfl]
  exact Option.some_ne_none _

end Pool.Serializable

end Turns

end Zapshare
