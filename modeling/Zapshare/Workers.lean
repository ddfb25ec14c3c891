import Zapshare.Rendezvous
import Mathlib.Data.List.FinRange
import Mathlib.Logic.Function.Basic

/-!
# The worker threads of the central server

`main.cpp` hands the requests to a pool of at least two threads, and all of them use the one
connection of `database.hpp`. A request that uses the database is run one operation at a time here,
and the operations of different requests come in any order. How many workers there are is left
open: fewer of them allow fewer orders.

## Main definitions

* `Job` — a request that arrives at one of these handlers
* `Pool`, `Pool.step` — the requests under way on the shared connection, and a step of one of them
* `Pool.Serializable` — the answers and the table are those of a sequential order

## Main results

* `Pool.step_done`, `Pool.step_call` — what a step of a worker does
* `Server.step_job` — a request that has the server for itself
-/

namespace Zapshare

open Wire

/-! ### Requests -/

/-- The routes whose handlers use the database. -/
inductive DbRoute
  | lookup (secret : Bytes)
  | getfile (secret : Bytes)
  | register
  deriving DecidableEq, Repr

/-- The same handler among all of them. -/
def DbRoute.toRoute : DbRoute → Route
  | .lookup secret => .lookup secret
  | .getfile secret => .getfile secret
  | .register => .register

/-- A request that one of these handlers is called for. -/
structure Job where
  call : Call
  route : DbRoute
  routed : Server.routed call.request = some route.toRoute

/-- The handler of a request. -/
def Job.handler (platform : Platform) (job : Job) : Db Draft :=
  match job.route with
  | .lookup secret => lookupHandler secret
  | .getfile secret => getfileHandler platform secret
  | .register => registerHandler platform job.call.request.body

/-! ### The pool -/

/-- A request as its worker sees it: nobody has taken it yet, or there is something left to be done,
with these of the operations on the database going to throw, or it is over. -/
inductive Thread
  | waiting
  | active (rest : Db Draft) (faults : ℕ → Bool)
  | answered (responses : List Response)

/-- What was sent. -/
def Thread.sent : Thread → List Response
  | .answered responses => responses
  | _ => []

/-- The requests, and the connection that they share. -/
structure Pool (n : ℕ) where
  table : Table
  txn : Option Transaction := none
  running : Bool := true
  threads : Fin n → Thread := fun _ => .waiting

namespace Pool

variable {n : ℕ}

/-- The pool when the requests arrive. -/
def start (s : Server) : Pool n := { table := s.table, running := s.running }

/-- The connection as a request meets it. -/
def connection (P : Pool n) (faults : ℕ → Bool) : Connection :=
  { table := P.table, txn := P.txn, faults }

/-- What is left of a request, and the faults it is going to meet. -/
def rest (platform : Platform) (jobs : Fin n → Job) (P : Pool n) (o : Fin n) :
    Option (Db Draft × (ℕ → Bool)) :=
  match P.threads o with
  | .waiting => some ((jobs o).handler platform, (jobs o).call.faults)
  | .active p faults => some (p, faults)
  | .answered _ => none

/-- The pool when a step of `o` has left this behind. -/
def put (P : Pool n) (o : Fin n) (th : Thread) (table : Table) (txn : Option Transaction) :
    Pool n :=
  { P with table, txn, threads := Function.update P.threads o th }

/-- The worker of `o` performs one operation, or answers. -/
def advance (platform : Platform) (now : Timestamp) (P : Pool n) (o : Fin n)
    (faults : ℕ → Bool) : Db Draft → Pool n × List (Fin n × Response)
  | .done r =>
    ({ P.put o (.answered (respond r)) P.table P.txn with running := decide (respond r ≠ []) },
      (respond r).map fun res => (o, res))
  | .call op next =>
    let r := Connection.exec platform now o op (P.connection faults)
    (P.put o (.active (next r.1) r.2.faults) r.2.table r.2.txn, [])

/-- One step of the worker of `o`, if it has anything to do and the process is running. -/
def step (platform : Platform) (jobs : Fin n → Job) (P : Pool n) (o : Fin n) :
    Pool n × List (Fin n × Response) :=
  if P.running then
    match P.rest platform jobs o with
    | some (p, faults) => P.advance platform (jobs o).call.now o faults p
    | none => (P, [])
  else (P, [])

/-- Nothing is left to be done: every request is over, or the process has ended. -/
def Complete (P : Pool n) : Prop := P.running = false ∨ ∀ o, ∃ sent, P.threads o = .answered sent

/-- The requests, one after the other. -/
def calls (jobs : Fin n → Job) (order : List (Fin n)) : List ServerEvent :=
  order.map fun o => .call (jobs o).call

/-- **Some sequential order** of the requests has the answers and the table of the pool. -/
def Serializable (platform : Platform) (jobs : Fin n → Job) (s : Server) (P : Pool n) : Prop :=
  ∃ order : List (Fin n), order.Perm (List.finRange n) ∧
    (Machine.trace (Server.step platform) s (calls jobs order)).map Machine.Entry.output
      = order.map (fun o => (P.threads o).sent) ∧
    (Machine.final (Server.step platform) s (calls jobs order)).table = P.table

/-! ### What a step does -/

variable {platform : Platform} {jobs : Fin n → Job} {P : Pool n} {o : Fin n}

section Put

variable {th : Thread} {table : Table} {txn : Option Transaction}

@[simp] theorem put_table : (P.put o th table txn).table = table := rfl

@[simp] theorem threads_put : (P.put o th table txn).threads o = th := by
  simp [put]

theorem threads_put_of_ne {o' : Fin n} (h : o' ≠ o) :
    (P.put o th table txn).threads o' = P.threads o' := by
  simp [put, Function.update_of_ne h]

end Put

/-- A process that has ended does nothing. -/
theorem step_ended (h : P.running = false) : P.step platform jobs o = (P, []) := by
  simp [step, h]

/-- A request that is over stays so. -/
theorem step_answered {sent : List Response} (h : P.threads o = .answered sent) :
    P.step platform jobs o = (P, []) := by
  simp [step, rest, h]

theorem step_done (hrunning : P.running = true) {r : Except Fault Draft} {faults : ℕ → Bool}
    (h : P.rest platform jobs o = some (.done r, faults)) :
    (P.step platform jobs o).1
      = { P.put o (.answered (respond r)) P.table P.txn with
          running := decide (respond r ≠ []) } := by
  simp only [step, hrunning, if_true, h, advance]

theorem rest_waiting (h : P.threads o = .waiting) :
    P.rest platform jobs o = some ((jobs o).handler platform, (jobs o).call.faults) := by
  rw [rest, h]

theorem rest_active {p : Db Draft} {faults : ℕ → Bool} (h : P.threads o = .active p faults) :
    P.rest platform jobs o = some (p, faults) := by
  rw [rest, h]

theorem step_call (hrunning : P.running = true) {op : DbOp} {faults : ℕ → Bool}
    {next : Except Fault op.Answer → Db Draft}
    (h : P.rest platform jobs o = some (.call op next, faults)) {r : Except Fault op.Answer}
    {c : Connection}
    (hexec : Connection.exec platform (jobs o).call.now o op (P.connection faults) = (r, c)) :
    (P.step platform jobs o).1 = P.put o (.active (next r) c.faults) c.table c.txn := by
  simp only [step, hrunning, if_true, h, advance, hexec]

end Pool

/-! ### One request at a time -/

/-- The connection as a request meets it when nobody uses it. -/
abbrev Job.connection (job : Job) (t : Table) : Connection :=
  { table := t, faults := job.call.faults }

/-- What a request does to a table and is answered when it has the server for itself. -/
def Job.alone (platform : Platform) (job : Job) (t : Table) : Except Fault Draft × Table :=
  let r := (job.handler platform).run (Connection.exec platform job.call.now 0) (job.connection t)
  (r.1, r.2.table)

theorem Server.step_job {platform : Platform} {s : Server} (hrunning : s.running = true)
    (job : Job) :
    s.step platform (.call job.call)
      = ({ s with
            table := (job.alone platform s.table).2
            running := decide (respond (job.alone platform s.table).1 ≠ []) },
          respond (job.alone platform s.table).1) := by
  rw [step_routed hrunning job.routed]
  obtain ⟨call, route, hrouted⟩ := job
  cases route <;> rfl

/-- A server that is down answers nothing. -/
theorem Server.step_down {platform : Platform} {s : Server} (hdown : s.running = false)
    (job : Job) : s.step platform (.call job.call) = (s, []) := by
  simp [Server.step, hdown]

end Zapshare
