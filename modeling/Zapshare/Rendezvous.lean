import Zapshare.Database
import Zapshare.Http
import Zapshare.Lib.Machine

/-!
# The central server

`main.cpp` of the central server: its routes and their handlers. Requests are handled one at a time
here, and at the same time in `Zapshare.Workers`; what a handler does to the database is a program
of `Zapshare.Database`.

A handler that does not set the status leaves it to the framework, which answers 200; an exception
that leaves a handler is answered 500, and the error handler replaces the body of every answer from
400 on. A handler that ends the process leaves the request unanswered, and the server is down until
it is started again: what was committed is still there, and the signals are lost.

A request may be refused before a route is looked for, as `Http.refusal` says, and one whose path
matches no route is answered 404. Neither changes anything.

## Main definitions

* `Route`, `route` — the handlers, and which of them a path leads to
* `Server`, `ServerEvent` — the server, and what may happen to it
* `Server.routed` — the handler a request arrives at
* `Server.processRequest`, `Server.step` — one event

## Main results

* `Server.step_register`, `Server.step_getfile` — what the two handlers do and answer
* `Server.step_table` — what a request does to the table
* `Server.fields_final` — the fields of a row stay until the next registration under its id
-/

namespace Zapshare

open Wire

/-! ### The handlers -/

/-- A response being filled in; the status may not be set yet. -/
structure Draft where
  status : Option ℕ := none
  body : Bytes := []

/-- A `catch` of `std::exception`. -/
def catching {α : Type} (p handler : Db α) : Db α :=
  p.recover fun
    | .thrown => handler
    | .aborted => Program.lift (.error .aborted)

/-- A call that may throw. -/
def orThrow {α : Type} : Option α → Except Fault α
  | some a => .ok a
  | none => .error .thrown

/-- The handler of `GET /lookup/…`. -/
def lookupHandler (secret : Bytes) : Db Draft := do
  let found ← DB.lookupTransfer secret
  return { body := text (if found then "True" else "False") }

/-- The handler of `GET /getfile/…`, which catches every exception. -/
def getfileHandler (platform : Platform) (secret : Bytes) : Db Draft :=
  catching
    (do
      let row ← DB.getTransfersMetadata secret
      let data ← Program.lift (orThrow (platform.dump (DB.transferRowToJson row)))
      return { status := some 200, body := data })
    (return {})

/-- The handler of `POST /register`, which catches every exception. -/
def registerHandler (platform : Platform) (body : Bytes) : Db Draft :=
  catching
    (do
      let data ← Program.lift (orThrow (platform.parse body))
      DB.registerTransfers platform data
      return { status := some 201 })
    (return {})

/-- `signal_store`. -/
abbrev Signals := Bytes → Option Json

/-- The handler of `POST /signal/…`. -/
def postSignalHandler (platform : Platform) (id body : Bytes) (signals : Signals) :
    Draft × Signals :=
  match platform.parse body with
  | none => ({ status := some 400 }, signals)
  | some data =>
    -- the signal is stored before it is written to the log, which may throw
    ({ status := some (if (platform.dump data).isSome then 200 else 400) },
      fun id' => if id' = id then some data else signals id')

/-- The handler of `GET /signal/…`. -/
def getSignalHandler (platform : Platform) (id : Bytes) (signals : Signals) : Except Fault Draft :=
  match signals id with
  | some data => (orThrow (platform.dump data)).map fun body => { body := body }
  | none => .ok { status := some 404 }

/-- The handler of `GET /health`. -/
def healthHandler : Draft :=
  { body := text "Your Server is healthy and running just fine brother!\n" ++
      text "You've come to right place!" }

/-! ### The routes -/

/-- The handlers, with what the route matches. -/
inductive Route
  | lookup (secret : Bytes)
  | getfile (secret : Bytes)
  | register
  | postSignal (id : Bytes)
  | getSignal (id : Bytes)
  | health
  deriving DecidableEq, Repr

/-- A route that ends in `([A-Za-z0-9\-]+)`. -/
def matchSecret (start path : Bytes) : Option Bytes :=
  let secret := path.drop start.length
  if path.take start.length = start ∧ secret ≠ [] ∧ secret.all Http.isSecretChar then some secret
  else none

/-- The handler a request is dispatched to. -/
def route (r : Request) : Option Route :=
  let path := Http.requestPath r.target
  match r.method with
  | .get =>
    ((matchSecret (text "/lookup/") path).map Route.lookup).or
      (((matchSecret (text "/getfile/") path).map Route.getfile).or
        (((matchSecret (text "/signal/") path).map Route.getSignal).or
          (if path = text "/health" then some .health else none)))
  | .post =>
    if path = text "/register" then some .register
    else (matchSecret (text "/signal/") path).map Route.postSignal

/-! ### The server -/

/-- The server: the table, whether the process is running, and the signals it holds. -/
structure Server where
  table : Table
  running : Bool := true
  signals : Signals := fun _ => none

/-- The server after its first start. -/
def Server.fresh : Server := { table := { row := fun _ => none, id_row := fun h => nomatch h } }

/-- A request as the server meets it: what time it is, and which of the operations on the database
are going to throw. -/
structure Call where
  request : Request
  now : Timestamp := .empty
  faults : ℕ → Bool := fun _ => false

/-- What may happen to the server. -/
inductive ServerEvent
  | call (call : Call)
  | restart

/-- The error handler, which sees every answer from 400 on. -/
def errorHandler (r : Response) : Response :=
  if 400 ≤ r.status then { r with body := text "Error Status: " ++ decimal r.status } else r

/-- What becomes of the result of a handler; a process that has ended does not answer. -/
def respond : Except Fault Draft → List Response
  | .ok draft => [errorHandler { status := draft.status.getD 200, body := draft.body }]
  | .error .thrown => [errorHandler { status := 500 }]
  | .error .aborted => []

namespace Server

/-- Run a handler that uses the database. -/
def runDb (platform : Platform) (s : Server) (call : Call) (handler : Db Draft) :
    Server × List Response :=
  let r := handler.run (Connection.exec platform call.now 0)
    { table := s.table, faults := call.faults }
  ({ s with table := r.2.table, running := decide (respond r.1 ≠ []) }, respond r.1)

/-- What a handler does to the server, and what it answers. -/
def dispatch (platform : Platform) (s : Server) (call : Call) : Route → Server × List Response
  | .lookup secret => s.runDb platform call (lookupHandler secret)
  | .getfile secret => s.runDb platform call (getfileHandler platform secret)
  | .register => s.runDb platform call (registerHandler platform call.request.body)
  | .postSignal id =>
    let r := postSignalHandler platform id call.request.body s.signals
    ({ s with signals := r.2 }, respond (.ok r.1))
  | .getSignal id => (s, respond (getSignalHandler platform id s.signals))
  | .health => (s, respond (.ok healthHandler))

/-- The handler that answers, if the request is not refused and a route matches. -/
def routed (r : Request) : Option Route :=
  match Http.refusal r with
  | some _ => none
  | none => route r

/-- `process_request`. -/
def processRequest (platform : Platform) (s : Server) (call : Call) : Server × List Response :=
  match Http.refusal call.request with
  | some .dropped => (s, [])
  | some (.answered status) => (s, [errorHandler { status }])
  | none =>
    match route call.request with
    | none => (s, [errorHandler { status := 404 }])
    | some handler => s.dispatch platform call handler

/-- One event. A server that is down answers nothing. -/
def step (platform : Platform) (s : Server) : ServerEvent → Server × List Response
  | .call call => if s.running then s.processRequest platform call else (s, [])
  | .restart => ({ s with running := true, signals := fun _ => none }, [])

variable {platform : Platform} {s : Server} {call : Call}

/-- A request that reaches a handler. -/
theorem step_routed (hrunning : s.running = true) {handler : Route}
    (hroute : routed call.request = some handler) :
    s.step platform (.call call) = s.dispatch platform call handler := by
  rw [routed] at hroute
  split at hroute
  · cases hroute
  · rename_i hrefusal
    simp only [step, hrunning, if_true, processRequest, hrefusal, hroute]

theorem lineRead_of_routed {r : Request} {handler : Route} (h : routed r = some handler) :
    Http.LineRead r := by
  rw [routed] at h
  split at h
  · cases h
  · rename_i hrefusal
    exact Http.lineRead_of_refusal_eq_none hrefusal

/-- A request that reaches no handler changes nothing. It is answered with an error, unless its line
is not read. -/
theorem step_not_routed (hroute : routed call.request = none) :
    ∃ answers, (∀ s : Server, s.running = true → s.step platform (.call call) = (s, answers)) ∧
      ((answers = [] ∧ ¬ Http.LineRead call.request) ∨
        ∃ status, answers = [errorHandler { status }] ∧ (400 ≤ status ∧ status < 500) ∧
          Http.LineRead call.request) := by
  rw [routed] at hroute
  split at hroute
  · rename_i how hrefusal
    rcases Http.refusal_cases hrefusal with ⟨rfl, hread⟩ | ⟨status, rfl, hstatus, hread⟩
    · refine ⟨[], ?_, Or.inl ⟨rfl, hread⟩⟩
      intro s hrunning
      simp only [step, hrunning, if_true, processRequest, hrefusal]
    · refine ⟨_, ?_, Or.inr ⟨status, rfl, hstatus, hread⟩⟩
      intro s hrunning
      simp only [step, hrunning, if_true, processRequest, hrefusal]
  · rename_i hrefusal
    refine ⟨_, ?_, Or.inr ⟨404, rfl, by decide, Http.lineRead_of_refusal_eq_none hrefusal⟩⟩
    intro s hrunning
    simp only [step, hrunning, if_true, processRequest, hrefusal, hroute]

/-- The connection as a call meets it. -/
def connection (s : Server) (call : Call) : Connection :=
  { table := s.table, faults := call.faults }

/-! ### Secrets in a path -/

/-- The ids that can stand in a path. -/
structure Routable (id : Bytes) : Prop where
  ne_nil : id ≠ []
  chars : id.all Http.isSecretChar = true
  length_le : id.length ≤ 8183

theorem Routable.isPlain {id start : Bytes} (h : Routable id)
    (hstart : ∀ b ∈ start, Http.isPlain b = true) : ∀ b ∈ start ++ id, Http.isPlain b = true := by
  intro b hb
  rcases List.mem_append.mp hb with hb | hb
  · exact hstart b hb
  · simp [Http.isPlain, List.all_eq_true.mp h.chars b hb]

theorem matchSecret_append {id start : Bytes} (h : Routable id) :
    matchSecret start (start ++ id) = some id := by
  simp [matchSecret, h.ne_nil, h.chars]

/-- Another route does not match. -/
theorem matchSecret_eq_none {start path : Bytes} (h : path.take start.length ≠ start) :
    matchSecret start path = none := by
  simp [matchSecret, h]

/-- A path that starts with another text is another path. -/
theorem append_ne_of_take {start path : Bytes} (h : path.take start.length ≠ start)
    (rest : Bytes) : start ++ rest ≠ path := by
  rintro rfl
  exact h List.take_left

/-- A plain path that is not too long arrives at the route that matches it. -/
theorem routed_of_isPlain {method : Method} {path body : Bytes}
    (hplain : ∀ b ∈ path, Http.isPlain b = true) (hne : path ≠ [])
    (hlength : path.length ≤ 8192) {handler : Route}
    (hroute : ∀ target, Http.requestPath target = path →
      route { method, target, body } = some handler) :
    routed { method, target := Http.requestTarget platform path, body } = some handler := by
  rw [routed, Http.refusal_eq_none_of_isPlain platform hplain hne hlength]
  exact hroute _ (Http.requestPath_requestTarget platform hplain)

theorem routed_lookup {id : Bytes} (h : Routable id) :
    routed (Http.getRequest platform (text "/lookup/" ++ id)) = some (.lookup id) := by
  have hstart : (text "/lookup/").length = 8 := by decide
  refine routed_of_isPlain (h.isPlain (Http.isPlain_of_all (by decide)))
    (List.append_ne_nil_of_left_ne_nil (by decide) id) ?_ fun target htarget => ?_
  · rw [List.length_append, hstart]
    exact Nat.le_trans (Nat.add_le_add_left h.length_le 8) (by decide)
  · rw [route]
    simp only [htarget, matchSecret_append h]
    rfl

/-- The other routes with a secret do not match a request for a file. -/
theorem matchSecret_getfile (secret : Bytes) :
    matchSecret (text "/lookup/") (text "/getfile/" ++ secret) = none ∧
      matchSecret (text "/signal/") (text "/getfile/" ++ secret) = none := by
  constructor
  · refine matchSecret_eq_none ?_
    change text "/getfile" ≠ text "/lookup/"
    decide
  · refine matchSecret_eq_none ?_
    change text "/getfile" ≠ text "/signal/"
    decide

theorem routed_getfile {id : Bytes} (h : Routable id) :
    routed (Http.getRequest platform (text "/getfile/" ++ id)) = some (.getfile id) := by
  have hstart : (text "/getfile/").length = 9 := by decide
  refine routed_of_isPlain (h.isPlain (Http.isPlain_of_all (by decide)))
    (List.append_ne_nil_of_left_ne_nil (by decide) id) ?_ fun target htarget => ?_
  · rw [List.length_append, hstart]
    exact Nat.add_le_add_left h.length_le 9
  · rw [route]
    simp only [htarget, matchSecret_append h, (matchSecret_getfile id).1]
    rfl

theorem routed_register (body : Bytes) :
    routed (Http.postRequest platform (text "/register") body) = some .register := by
  refine routed_of_isPlain (Http.isPlain_of_all (by decide)) (by decide) (by decide)
    fun target htarget => ?_
  rw [route]
  simp only [htarget, if_true]

/-- A request to `/register`. -/
def IsRegister (r : Request) : Prop :=
  r.method = .post ∧ Http.requestPath r.target = text "/register"

/-- A request to `/getfile`, with whatever stands behind it in the path. -/
def IsGetfile (r : Request) (secret : Bytes) : Prop :=
  r.method = .get ∧ Http.requestPath r.target = text "/getfile/" ++ secret

theorem routed_of_isRegister {r : Request} (h : IsRegister r) :
    routed r = none ∨ routed r = some .register := by
  rw [routed]
  split
  · exact Or.inl rfl
  · refine Or.inr ?_
    rw [route, h.1, h.2]
    exact if_pos rfl

theorem routed_of_isGetfile {r : Request} {secret : Bytes} (h : IsGetfile r secret) :
    routed r = none ∨ routed r = some (.getfile secret) := by
  have hhealth : text "/getfile/" ++ secret ≠ text "/health" := append_ne_of_take (by decide) _
  rw [routed]
  split
  · exact Or.inl rfl
  · rw [route, h.1, h.2]
    simp only [(matchSecret_getfile secret).1, (matchSecret_getfile secret).2, hhealth, if_false,
      Option.map_none, Option.none_or, Option.or_none]
    rw [matchSecret]
    split <;> simp

/-- A request that is posted to `/signal` is posted to nothing else. -/
theorem routed_of_signal {r : Request} {id : Bytes} (hmethod : r.method = .post)
    (hpath : Http.requestPath r.target = text "/signal/" ++ id) :
    routed r = none ∨ ∃ id', routed r = some (.postSignal id') := by
  have hregister : text "/signal/" ++ id ≠ text "/register" := append_ne_of_take (by decide) _
  rw [routed]
  split
  · exact Or.inl rfl
  · rw [route, hmethod, hpath]
    simp only [hregister, if_false]
    rw [matchSecret]
    split <;> simp

/-- What the run of a handler makes of the server, if it does not end the process. -/
theorem runDb_eq (hrunning : s.running = true) {handler : Db Draft} {r : Except Fault Draft}
    {c : Connection}
    (h : handler.run (Connection.exec platform call.now 0) (s.connection call) = (r, c))
    (hr : r ≠ .error .aborted) :
    s.runDb platform call handler = ({ s with table := c.table }, respond r) := by
  have hne : respond r ≠ [] := by
    intro hnil
    cases r with
    | ok draft => cases hnil
    | error e =>
      cases e with
      | thrown => cases hnil
      | aborted => exact hr rfl
  rw [connection] at h
  simp only [runDb, h, hne, ne_eq, not_false_eq_true, decide_true, ← hrunning]

theorem runDb_aborted {handler : Db Draft} {c : Connection}
    (h : handler.run (Connection.exec platform call.now 0) (s.connection call)
      = (.error .aborted, c)) :
    s.runDb platform call handler = ({ s with table := c.table, running := false }, []) := by
  rw [connection] at h
  simp [runDb, h, respond]

/-- What a `catch` passes on, and what it does not. -/
theorem run_catching {now : Timestamp} {owner : ℕ} {α : Type} (p handler : Db α)
    (c : Connection) :
    (catching p handler).run (Connection.exec platform now owner) c =
      match p.run (Connection.exec platform now owner) c with
      | (.error .thrown, c') => handler.run (Connection.exec platform now owner) c'
      | r => r := by
  rw [catching, Program.run_recover]
  obtain ⟨e | _, _⟩ := p.run (Connection.exec platform now owner) c
  · cases e <;> rfl
  · rfl

/-! ### `/register` -/

/-- What the handler makes of a call of `register_transfers`. -/
theorem run_registerHandler {now : Timestamp} {owner : ℕ} {body : Bytes} {data : Json}
    (hparse : platform.parse body = some data) {c c' : Connection} {r : Except Fault Unit}
    (h : (DB.registerTransfers platform data).run (Connection.exec platform now owner) c
      = (r, c')) :
    (registerHandler platform body).run (Connection.exec platform now owner) c =
      match r with
      | .ok _ => (.ok { status := some 201 }, c')
      | .error .thrown => (.ok {}, c')
      | .error .aborted => (.error .aborted, c') := by
  have hdata : orThrow (platform.parse body) = .ok data := by rw [hparse]; rfl
  rw [registerHandler, run_catching, Program.run_bind_ok (Program.run_lift hdata)]
  cases r with
  | ok a => rw [Program.run_bind_ok h, Program.run_pure]
  | error e =>
    rw [Program.run_bind_error h]
    cases e <;> rfl

/-- The row that a body posted to `/register` stands for, if it does for one. -/
def postedRow (platform : Platform) (body : Bytes) (now : Timestamp) : Option Row :=
  match (platform.parse body).map (DB.transferRowFromJson platform) with
  | some (.ok p) => p.columns platform now
  | _ => none

theorem postedRow_eq_some {body : Bytes} {data : Json} (hparse : platform.parse body = some data)
    {now : Timestamp} {row : Row} :
    postedRow platform body now = some row ↔
      ∃ p, DB.transferRowFromJson platform data = .ok p ∧ p.columns platform now = some row := by
  rw [postedRow, hparse, Option.map_some]
  cases DB.transferRowFromJson platform data <;> simp

/-- The row a call to `/register` stores. -/
def storedRow (platform : Platform) (s : Server) (call : Call) : Option Row :=
  if (s.connection call).Clear 3 then postedRow platform call.request.body call.now else none

/-- A document that ends the process while it is read. -/
theorem step_register_aborted (hrunning : s.running = true)
    (hroute : routed call.request = some .register) (h0 : call.faults 0 = false) {data : Json}
    (hparse : platform.parse call.request.body = some data)
    (hp : DB.transferRowFromJson platform data = .error .aborted) :
    s.step platform (.call call) = ({ s with running := false }, []) := by
  have hrun := run_registerHandler hparse
    (@DB.run_registerTransfers_aborted platform call.now 0 (s.connection call) rfl h0 data hp)
  rw [step_routed hrunning hroute, dispatch, runDb_aborted hrun]
  rfl

/-- The row a body posted to `/register` is going to leave, if any, unless it ends the process. -/
def storing (platform : Platform) (body : Bytes) (now : Timestamp) (faults : ℕ → Bool) :
    Except Fault (Option Row) :=
  match platform.parse body with
  | none => .ok none
  | some data =>
    match faults 0, DB.transferRowFromJson platform data with
    | false, .error .aborted => .error .aborted
    | _, _ => .ok (if Faultless faults 3 then postedRow platform body now else none)

theorem storing_eq {body : Bytes} {now : Timestamp} {faults : ℕ → Bool}
    (h : ∀ data, platform.parse body = some data → faults 0 = false →
      DB.transferRowFromJson platform data ≠ .error .aborted) :
    storing platform body now faults
      = .ok (if Faultless faults 3 then postedRow platform body now else none) := by
  cases hparse : platform.parse body with
  | none => simp [storing, postedRow, hparse]
  | some data =>
    simp only [storing, hparse]
    split
    · rename_i h0 hp
      exact absurd hp (h data hparse h0)
    · rfl

/-- **The handler of `/register`** ends the process, or stores a row and answers 201, or leaves the
answer as it was. -/
theorem run_registerHandler_eq {now : Timestamp} {owner : ℕ} {c : Connection} (hidle : c.txn = none)
    (body : Bytes) :
    let r := (registerHandler platform body).run (Connection.exec platform now owner) c
    (r.1, r.2.table) =
      match storing platform body now c.faults with
      | .error e => (.error e, c.table)
      | .ok none => (.ok {}, c.table)
      | .ok (some row) => (.ok { status := some 201 }, c.table.upsert row) := by
  intro r
  cases hparse : platform.parse body with
  | none =>
    have hr : r = (.ok {}, c) := by
      change (registerHandler platform body).run (Connection.exec platform now owner) c = _
      rw [registerHandler, run_catching, hparse]
      rfl
    rw [hr, storing, hparse]
  | some data =>
    by_cases habort : c.faults 0 = false ∧ DB.transferRowFromJson platform data = .error .aborted
    · have hr : r = _ := run_registerHandler hparse
        (DB.run_registerTransfers_aborted hidle habort.1 habort.2)
      rw [hr, storing, hparse]
      simp only [habort.1, habort.2]
      rfl
    · have hcases := @DB.registerTransfers_cases platform now owner c hidle data
      cases hr : (DB.registerTransfers platform data).run
        (Connection.exec platform now owner) c with
      | mk res c' =>
      have hrun : r = _ := run_registerHandler hparse hr
      rw [storing_eq (by
        rintro data' hparse' h0 hp
        rw [hparse] at hparse'
        exact habort ⟨h0, Option.some.inj hparse' ▸ hp⟩), hrun]
      simp only [hr] at hcases
      rcases hcases with ⟨h0, hp, -⟩ | ⟨rfl, htable, hwhy⟩ |
        ⟨p, row, hclear, hp, hrow, rfl, htable⟩
      · exact absurd ⟨h0, hp⟩ habort
      · have hnone : (if Faultless c.faults 3 then postedRow platform body now else none)
            = none := by
          split
          · rename_i hclear
            rw [Option.eq_none_iff_forall_ne_some]
            intro row hposted
            obtain ⟨p, hp, hrow⟩ := (postedRow_eq_some hparse).mp hposted
            exact hwhy.resolve_left (not_not_intro hclear) p row hp hrow
          · rfl
        rw [hnone, htable]
      · have hposted := (postedRow_eq_some hparse).mpr ⟨p, hp, hrow⟩
        have hfaults : Faultless c.faults 3 := hclear
        rw [if_pos hfaults, hposted, htable]

/-- **`/register`** ends the process, or is answered 200 and stores nothing, or is answered 201 and
stores the posted row. -/
theorem step_register (hrunning : s.running = true)
    (hroute : routed call.request = some .register) :
    (∃ data, platform.parse call.request.body = some data ∧ call.faults 0 = false ∧
      DB.transferRowFromJson platform data = .error .aborted ∧
      s.step platform (.call call) = ({ s with running := false }, [])) ∨
    (storedRow platform s call = none ∧
      s.step platform (.call call) = (s, [{ status := 200 }])) ∨
    (∃ row, storedRow platform s call = some row ∧
      s.step platform (.call call)
        = ({ s with table := s.table.upsert row }, [{ status := 201 }])) := by
  rw [step_routed hrunning hroute, dispatch]
  have hrun := @run_registerHandler_eq platform call.now 0 (s.connection call) rfl
    call.request.body
  cases hr : (registerHandler platform call.request.body).run (Connection.exec platform call.now 0)
    (s.connection call) with
  | mk r c =>
  simp only [hr] at hrun
  by_cases habort : ∃ data, platform.parse call.request.body = some data ∧
      call.faults 0 = false ∧ DB.transferRowFromJson platform data = .error .aborted
  · obtain ⟨data, hparse, h0, hp⟩ := habort
    have hstoring : storing platform call.request.body call.now (s.connection call).faults
        = .error .aborted := by
      rw [storing, hparse]
      simp only [connection, h0, hp]
    rw [hstoring] at hrun
    obtain ⟨rfl, htable⟩ := Prod.mk.inj hrun
    refine Or.inl ⟨data, hparse, h0, hp, ?_⟩
    rw [runDb_aborted hr, htable]
    rfl
  · have hstoring : storing platform call.request.body call.now (s.connection call).faults
        = .ok (storedRow platform s call) :=
      storing_eq fun data hparse h0 hp => habort ⟨data, hparse, h0, hp⟩
    rw [hstoring] at hrun
    refine Or.inr ?_
    cases hrow : storedRow platform s call with
    | none =>
      rw [hrow] at hrun
      obtain ⟨rfl, htable⟩ := Prod.mk.inj hrun
      refine Or.inl ⟨rfl, ?_⟩
      rw [runDb_eq hrunning hr (by simp), htable]
      rfl
    | some row =>
      rw [hrow] at hrun
      obtain ⟨rfl, htable⟩ := Prod.mk.inj hrun
      refine Or.inr ⟨row, rfl, ?_⟩
      rw [runDb_eq hrunning hr (by simp), htable]
      rfl

/-! ### `/getfile` and `/lookup` -/

/-- The body that stands for a row, which has been marked. -/
def fileBody (platform : Platform) (row : Row) : Option Bytes :=
  match DB.toTransferRow row with
  | .ok data => platform.dump (DB.transferRowToJson { data with claimed := true })
  | .error _ => none

/-- Marking a row leaves the body that stands for it. -/
theorem bind_fileBody_markClaimed (platform : Platform) (t : Table) (id : Bytes) :
    ((t.markClaimed id).row id).bind (fileBody platform) = (t.row id).bind (fileBody platform) := by
  cases hrow : t.row id with
  | none => rw [Table.markClaimed, hrow, hrow]
  | some row =>
    rw [Table.row_markClaimed hrow, Option.bind_some, Option.bind_some, fileBody, fileBody,
      DB.toTransferRow_claimed]
    cases DB.toTransferRow row <;> rfl

theorem bind_fileBody (platform : Platform) (row : Option Row) :
    row.bind (fileBody platform) =
      match DB.firstRow row with
      | .ok data => platform.dump (DB.transferRowToJson { data with claimed := true })
      | .error _ => none := by
  cases row <;> rfl

/-- The handler of `/getfile`, behind the call that finds the row. -/
def sendRow (platform : Platform) (p : Db TransferRow) : Db Draft :=
  catching
    (do
      let row ← p
      let data ← Program.lift (orThrow (platform.dump (DB.transferRowToJson row)))
      return { status := some 200, body := data })
    (return {})

theorem getfileHandler_eq (platform : Platform) (secret : Bytes) :
    getfileHandler platform secret = sendRow platform (DB.getTransfersMetadata secret) := rfl

/-- What `/getfile` answers when this is stored. -/
def fileDraft (platform : Platform) (row : Option Row) : Draft :=
  match row.bind (fileBody platform) with
  | some body => { status := some 200, body }
  | none => {}

/-- The row that was found is sent, or the answer is left as it was. -/
theorem run_sendRow {now : Timestamp} {owner : ℕ} {p : Db TransferRow} {c c' : Connection}
    {row : Option Row}
    (h : p.run (Connection.exec platform now owner) c
      = ((DB.firstRow row).map (fun data => { data with claimed := true }), c')) :
    (sendRow platform p).run (Connection.exec platform now owner) c
      = (.ok (fileDraft platform row), c') := by
  rw [sendRow, run_catching, fileDraft, bind_fileBody]
  cases hrow : DB.firstRow row with
  | error e =>
    obtain rfl := DB.firstRow_error hrow
    rw [hrow] at h
    rw [Program.run_bind_error h]
    rfl
  | ok data =>
    rw [hrow] at h
    rw [Program.run_bind_ok h]
    cases hdump : platform.dump (DB.transferRowToJson { data with claimed := true }) with
    | none =>
      have hlift : orThrow (none : Option Bytes) = .error .thrown := rfl
      rw [Program.run_bind_error (Program.run_lift hlift)]
      simp [hdump]
    | some body =>
      have hlift : orThrow (some body) = .ok body := rfl
      rw [Program.run_bind_ok (Program.run_lift hlift)]
      simp [hdump]

/-- The call that finds the row throws. -/
theorem run_sendRow_thrown {now : Timestamp} {owner : ℕ} {p : Db TransferRow}
    {c c' : Connection}
    (h : p.run (Connection.exec platform now owner) c = (.error .thrown, c')) :
    (sendRow platform p).run (Connection.exec platform now owner) c = (.ok {}, c') := by
  rw [sendRow, run_catching, Program.run_bind_error h]
  rfl

/-- **The handler of `/getfile`** marks the row and answers it, unless an operation throws. -/
theorem run_getfileHandler_eq {now : Timestamp} {owner : ℕ} {c : Connection} (hidle : c.txn = none)
    (secret : Bytes) :
    let r := (getfileHandler platform secret).run (Connection.exec platform now owner) c
    (r.1, r.2.table) =
      if Faultless c.faults 6 then
        (.ok (fileDraft platform (c.table.row secret)), c.table.markClaimed secret)
      else (.ok {}, c.table) := by
  intro r
  have hcases := @DB.getTransfersMetadata_cases platform now owner c hidle secret
  cases hr : (DB.getTransfersMetadata secret).run (Connection.exec platform now owner) c with
  | mk res c' =>
  simp only [hr] at hcases
  rcases hcases with ⟨hclear, rfl, htable⟩ | ⟨hclear, rfl, htable⟩
  · have hrun : r = _ := run_sendRow_thrown hr
    have hfaults : ¬ Faultless c.faults 6 := hclear
    rw [hrun, htable, if_neg hfaults]
  · have hrun : r = _ := run_sendRow hr
    have hfaults : Faultless c.faults 6 := hclear
    rw [hrun, htable, if_pos hfaults]

/-- **`/getfile`** is answered with the row, which it marks, or with an empty body. -/
theorem step_getfile (hrunning : s.running = true) {secret : Bytes}
    (hroute : routed call.request = some (.getfile secret)) :
    (∃ body, (s.connection call).Clear 6 ∧
      (s.table.row secret).bind (fileBody platform) = some body ∧
      s.step platform (.call call)
        = ({ s with table := s.table.markClaimed secret }, [{ status := 200, body }])) ∨
    (∃ table, (¬ (s.connection call).Clear 6 ∨
        (s.table.row secret).bind (fileBody platform) = none) ∧
      (table = s.table ∨ table = s.table.markClaimed secret) ∧
      s.step platform (.call call) = ({ s with table }, [{ status := 200 }])) := by
  rw [step_routed hrunning hroute, dispatch]
  have hrun := @run_getfileHandler_eq platform call.now 0 (s.connection call) rfl secret
  cases hr : (getfileHandler platform secret).run (Connection.exec platform call.now 0)
    (s.connection call) with
  | mk r c =>
  simp only [hr] at hrun
  by_cases hclear : (s.connection call).Clear 6
  · rw [if_pos (show Faultless (s.connection call).faults 6 from hclear)] at hrun
    obtain ⟨rfl, htable⟩ := Prod.mk.inj hrun
    have hstep := runDb_eq hrunning hr (by simp)
    rw [show (s.connection call).table = s.table from rfl] at htable hstep
    cases hbody : (s.table.row secret).bind (fileBody platform) with
    | none =>
      rw [fileDraft, hbody] at hstep
      exact Or.inr ⟨c.table, Or.inr rfl, Or.inr htable, hstep⟩
    | some body =>
      rw [fileDraft, hbody, htable] at hstep
      exact Or.inl ⟨body, hclear, rfl, hstep⟩
  · rw [if_neg (show ¬ Faultless (s.connection call).faults 6 from hclear)] at hrun
    obtain ⟨rfl, htable⟩ := Prod.mk.inj hrun
    exact Or.inr ⟨c.table, Or.inl hclear, Or.inl htable, runDb_eq hrunning hr (by simp)⟩

/-- **The handler of `/lookup`** answers whether the row is there, or that it is not if the query
throws, or throws itself. The table is left as it was. -/
theorem run_lookupHandler_eq {now : Timestamp} {owner : ℕ} {c : Connection} (hidle : c.txn = none)
    (secret : Bytes) :
    let r := (lookupHandler secret).run (Connection.exec platform now owner) c
    (r.1, r.2.table) =
      (if c.faults 0 then .error .thrown
        else .ok { body := text (if !c.faults 1 && (c.table.row secret).isSome then "True"
          else "False") }, c.table) := by
  intro r
  have hcases := @DB.lookupTransfer_cases platform now owner c hidle secret
  cases hr : (DB.lookupTransfer secret).run (Connection.exec platform now owner) c with
  | mk res c' =>
  have hrun : r =
      (res.map fun found => { body := text (if found then "True" else "False") }, c') := by
    change (lookupHandler secret).run (Connection.exec platform now owner) c = _
    rw [lookupHandler, Program.run_bind, hr]
    cases res <;> rfl
  simp only [hr] at hcases
  obtain ⟨htable, hcases⟩ := hcases
  rw [hrun]
  rcases hcases with ⟨h0, rfl⟩ | ⟨h0, h1, rfl⟩ | ⟨hclear, rfl⟩
  · simp [h0, htable, Except.map]
  · simp [h0, h1, htable, Except.map]
  · have h0 : c.faults 0 = false := hclear 0 (by decide)
    have h1 : c.faults 1 = false := hclear 1 (by decide)
    simp [h0, h1, htable, Except.map]

/-- **`/lookup`** changes nothing. Unless an operation throws it is answered with whether the row is
there. -/
theorem step_lookup (hrunning : s.running = true) {secret : Bytes}
    (hroute : routed call.request = some (.lookup secret)) :
    ∃ res, s.step platform (.call call) = (s, [res]) ∧
      ((s.connection call).Clear 2 →
        res = { status := 200
                body := text (if (s.table.row secret).isSome then "True" else "False") }) := by
  rw [step_routed hrunning hroute, dispatch]
  have hrun := @run_lookupHandler_eq platform call.now 0 (s.connection call) rfl secret
  cases hr : (lookupHandler secret).run (Connection.exec platform call.now 0)
    (s.connection call) with
  | mk r c =>
  simp only [hr] at hrun
  obtain ⟨hres, htable⟩ := Prod.mk.inj hrun
  have hsame : { s with table := c.table } = s := by rw [htable]; rfl
  cases h0 : (s.connection call).faults 0 with
  | true =>
    rw [h0, if_pos rfl] at hres
    subst hres
    refine ⟨errorHandler { status := 500 }, ?_, ?_⟩
    · rw [runDb_eq hrunning hr (by simp), hsame]
      rfl
    · intro hclear
      exact absurd hclear ((s.connection call).not_clear h0 (by decide))
  | false =>
    rw [h0, if_neg (by decide)] at hres
    subst hres
    refine ⟨_, by rw [runDb_eq hrunning hr (by simp), hsame]; rfl, fun hclear => ?_⟩
    rw [hclear 1 (by decide)]
    rfl

/-! ### Any request -/

/-- **What an event does to the table.** It stores a row, marks one, or leaves the table. -/
theorem step_table (s : Server) (e : ServerEvent) :
    (s.step platform e).1.table = s.table ∨
    (∃ id, (s.step platform e).1.table = s.table.markClaimed id) ∨
    (∃ call row, e = .call call ∧ routed call.request = some .register ∧
      postedRow platform call.request.body call.now = some row ∧
      (s.step platform e).2 = [{ status := 201 }] ∧
      (s.step platform e).1.table = s.table.upsert row) := by
  cases e with
  | restart => exact Or.inl rfl
  | call call =>
    cases hrunning : s.running with
    | false =>
      refine Or.inl ?_
      simp [step, hrunning]
    | true =>
      cases hroute : routed call.request with
      | none =>
        obtain ⟨answers, h, -⟩ := @step_not_routed platform call hroute
        exact Or.inl (by rw [h s hrunning])
      | some handler =>
        cases handler with
        | lookup secret =>
          obtain ⟨res, h, -⟩ := @step_lookup platform s call hrunning secret hroute
          exact Or.inl (by rw [h])
        | getfile secret =>
          rcases @step_getfile platform s call hrunning secret hroute with
            ⟨body, -, -, h⟩ | ⟨table, -, rfl | rfl, h⟩
          · exact Or.inr (Or.inl ⟨secret, by rw [h]⟩)
          · exact Or.inl (by rw [h])
          · exact Or.inr (Or.inl ⟨secret, by rw [h]⟩)
        | register =>
          rcases @step_register platform s call hrunning hroute with
            ⟨data, -, -, -, h⟩ | ⟨-, h⟩ | ⟨row, hrow, h⟩
          · exact Or.inl (by rw [h])
          · exact Or.inl (by rw [h])
          · refine Or.inr (Or.inr ⟨call, row, rfl, hroute, ?_, by rw [h], by rw [h]⟩)
            rw [storedRow] at hrow
            split at hrow
            · exact hrow
            · cases hrow
        | postSignal id => exact Or.inl (by rw [step_routed hrunning hroute]; rfl)
        | getSignal id => exact Or.inl (by rw [step_routed hrunning hroute]; rfl)
        | health => exact Or.inl (by rw [step_routed hrunning hroute]; rfl)

/-! ### Runs -/

/-- A registration that was answered with success, and its row. -/
def Registered (platform : Platform) (e : Machine.Entry Server ServerEvent Response) (row : Row) :
    Prop :=
  ∃ call, e.input = .call call ∧ routed call.request = some .register ∧
    e.output = [{ status := 201 }] ∧
    postedRow platform call.request.body call.now = some row

/-- A step that is no registration under an id leaves the fields that are stored there. -/
theorem step_fields {id : Bytes} (s : Server) (e : ServerEvent)
    (h : ∀ row, Registered platform ⟨s, e, (s.step platform e).1, (s.step platform e).2⟩ row →
      row.id ≠ id) :
    ((s.step platform e).1.table.row id).map Row.fields = (s.table.row id).map Row.fields := by
  rcases @step_table platform s e with htable | ⟨id', htable⟩ |
    ⟨call, row, he, hroute, hrow, hres, htable⟩
  · rw [htable]
  · rw [htable, Table.fields_markClaimed]
  · have hne : id ≠ row.id := (h row ⟨call, he, hroute, hres, hrow⟩).symm
    rw [htable, Table.fields_upsert, if_neg hne]

/-- **The fields of a row stay until the next registration under its id.** -/
theorem fields_final {id : Bytes} {events : List ServerEvent}
    (h : ∀ e ∈ Machine.trace (step platform) s events, ∀ row, Registered platform e row →
      row.id ≠ id) :
    ((Machine.final (step platform) s events).table.row id).map Row.fields
      = (s.table.row id).map Row.fields := by
  induction events generalizing s with
  | nil => rfl
  | cons e events ih =>
    rw [Machine.final_cons, ih fun e' he' => h e' (List.mem_cons_of_mem _ he'),
      step_fields s e (h _ List.mem_cons_self)]

end Server

end Zapshare
