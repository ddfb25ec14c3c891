import Zapshare.Handlers
import Zapshare.Lib.Cell
import Zapshare.Lib.Bisimulation

/-!
# What becomes of a transfer

The row of a transfer over a whole run of the server, whatever is asked of it, whatever throws, and
however often it ends and is started again. And what of that can be told from the answers: a row is
marked when its file is asked for, but nobody ever sees the mark.

## Main results

* `Server.step_row` — what an event does to a row
* `row_history` — a row is what was registered last, since it was registered first, and it is marked
  if it was asked for since then
* `reads_unobservable` — a request that only reads makes no difference to the answers to others
-/

namespace Zapshare

open Wire Machine

/-! ### Rows -/

/-- The row that is stored over another one, if there is one. -/
def Row.over (new : Row) (old : Option Row) : Row := old.elim new fun old => old.onConflict new

/-- What is filled in has not been claimed. -/
theorem Payload.columns_eq_some {platform : Platform} {p : Payload} {now : Timestamp} {row : Row}
    (h : p.columns platform now = some row) :
    row.claimed = some false ∧ row.createdAt = some now := by
  simp only [columns, Option.bind_eq_bind, Option.bind_eq_some_iff, Option.pure_def,
    Option.some.injEq] at h
  obtain ⟨-, -, -, -, -, -, -, -, -, -, -, -, -, -, -, -, rfl⟩ := h
  exact ⟨rfl, rfl⟩

namespace Server

variable {platform : Platform} {s s' : Server} {call : Call} {id : Bytes}

/-! ### The handlers that use the database -/

/-- The server behind a handler, if it is known what the handler makes of the table. -/
theorem runDb_eq_of_run {handler : Db Draft} {r : Except Fault Draft} {t : Table}
    (h : let r' := handler.run (Connection.exec platform call.now 0) (s.connection call)
      (r'.1, r'.2.table) = (r, t)) :
    s.runDb platform call handler
      = ({ s with table := t, running := decide (respond r ≠ []) }, respond r) := by
  simp only [Prod.mk.injEq] at h
  rw [connection] at h
  simp only [runDb, h.1, h.2]

/-- What is answered leaves the server running. -/
theorem running_eq (hrunning : s.running = true) {r : Except Fault Draft} (hr : respond r ≠ [])
    (t : Table) :
    { s with table := t, running := decide (respond r ≠ []) } = { s with table := t } := by
  rw [decide_eq_true hr, ← hrunning]

theorem dispatch_lookup (hrunning : s.running = true) (secret : Bytes) :
    s.dispatch platform call (.lookup secret) =
      (s, respond (if call.faults 0 then .error .thrown
        else .ok { body := text (if !call.faults 1 && (s.table.row secret).isSome then "True"
          else "False") })) := by
  have hrun := @run_lookupHandler_eq platform call.now 0 (s.connection call) rfl secret
  rw [dispatch, runDb_eq_of_run hrun, running_eq hrunning]
  · rfl
  · cases (s.connection call).faults 0 <;> simp [respond]

theorem dispatch_getfile (hrunning : s.running = true) (secret : Bytes) :
    s.dispatch platform call (.getfile secret) =
      if Faultless call.faults 6 then
        ({ s with table := s.table.markClaimed secret },
          respond (.ok (fileDraft platform (s.table.row secret))))
      else (s, respond (.ok {})) := by
  have hrun := @run_getfileHandler_eq platform call.now 0 (s.connection call) rfl secret
  have hfaults : (s.connection call).faults = call.faults := rfl
  rw [hfaults] at hrun
  split
  · rename_i hclear
    rw [if_pos hclear] at hrun
    rw [dispatch, runDb_eq_of_run hrun, running_eq hrunning (by simp [respond])]
    rfl
  · rename_i hclear
    rw [if_neg hclear] at hrun
    rw [dispatch, runDb_eq_of_run hrun, running_eq hrunning (by simp [respond])]
    rfl

theorem dispatch_register (hrunning : s.running = true) :
    s.dispatch platform call .register =
      match storing platform call.request.body call.now call.faults with
      | .error e => ({ s with running := decide (respond (.error e) ≠ []) }, respond (.error e))
      | .ok none => (s, [{ status := 200 }])
      | .ok (some row) => ({ s with table := s.table.upsert row }, [{ status := 201 }]) := by
  have hrun := @run_registerHandler_eq platform call.now 0 (s.connection call) rfl
    call.request.body
  have hfaults : (s.connection call).faults = call.faults := rfl
  rw [hfaults] at hrun
  cases hstoring : storing platform call.request.body call.now call.faults with
  | error e =>
    rw [hstoring] at hrun
    rw [dispatch, runDb_eq_of_run hrun]
    rfl
  | ok row =>
    cases row with
    | none =>
      rw [hstoring] at hrun
      rw [dispatch, runDb_eq_of_run hrun, running_eq hrunning (by simp [respond])]
      rfl
    | some row =>
      rw [hstoring] at hrun
      rw [dispatch, runDb_eq_of_run hrun, running_eq hrunning (by simp [respond])]
      rfl

/-! ### What an event does to a row -/

/-- The row an event stores under the id. -/
def stores (platform : Platform) (id : Bytes) (s : Server) : ServerEvent → Option Row
  | .restart => none
  | .call call =>
    if s.running ∧ routed call.request = some .register then
      match storing platform call.request.body call.now call.faults with
      | .ok (some row) => if row.id = id then some row else none
      | _ => none
    else none

/-- The event marks the row under the id. -/
def marks (id : Bytes) (s : Server) : ServerEvent → Bool
  | .restart => false
  | .call call =>
    s.running && routed call.request = some (.getfile id) && decide (Faultless call.faults 6)

/-- **What an event does to a row.** -/
theorem step_row (s : Server) (e : ServerEvent) :
    (s.step platform e).1.table.row id =
      match stores platform id s e with
      | some new => some (new.over (s.table.row id))
      | none => if marks id s e then (s.table.row id).map Row.claim else s.table.row id := by
  cases e with
  | restart => rfl
  | call call =>
    cases hrunning : s.running with
    | false => simp [step, stores, marks, hrunning]
    | true =>
      cases hroute : routed call.request with
      | none =>
        obtain ⟨answers, hstep, -⟩ := @step_not_routed platform call hroute
        simp [hstep s hrunning, stores, marks, hroute]
      | some handler =>
        rw [step_routed hrunning hroute]
        cases handler with
        | getfile secret =>
          rw [dispatch_getfile hrunning]
          simp only [stores, marks, hrunning, hroute, Bool.true_and, Option.some.injEq,
            Route.getfile.injEq, reduceCtorEq, and_false, if_false]
          by_cases hclear : Faultless call.faults 6
          · simp only [hclear, if_true, Table.row_markClaimed_eq, decide_true, Bool.and_true,
              decide_eq_true_eq, eq_comm (a := id)]
            split
            · rename_i hid
              rw [hid]
            · rfl
          · simp only [hclear, if_false, decide_false, Bool.and_false, Bool.false_eq_true]
        | register =>
          rw [dispatch_register hrunning]
          simp only [stores, marks, hrunning, hroute, and_self, if_true]
          cases storing platform call.request.body call.now call.faults with
          | error e => simp
          | ok row =>
            cases row with
            | none => simp
            | some row =>
              simp only [Table.row_upsert, eq_comm (a := id)]
              by_cases hid : row.id = id
              · simp only [hid, if_true, Row.over]
              · simp [hid]
        | lookup secret => simp [dispatch_lookup hrunning, stores, marks, hroute]
        | postSignal id' => simp [dispatch, stores, marks, hroute]
        | getSignal id' => simp [dispatch, stores, marks, hroute]
        | health => simp [dispatch, stores, marks, hroute]

theorem storing_eq_ok {body : Bytes} {now : Timestamp} {faults : ℕ → Bool} {row : Row}
    (h : storing platform body now faults = .ok (some row)) :
    Faultless faults 3 ∧ postedRow platform body now = some row := by
  rw [storing] at h
  split at h
  · cases h
  · split at h
    · cases h
    · have hrow := Except.ok.inj h
      split at hrow
      · rename_i hclear
        exact ⟨hclear, hrow⟩
      · cases hrow

/-- A row is stored unmarked, and with the time. -/
theorem stores_eq_some {e : ServerEvent} {row : Row} (h : stores platform id s e = some row) :
    row.id = id ∧ row.claimed = some false ∧
      ∃ call, e = .call call ∧ row.createdAt = some call.now := by
  cases e with
  | restart => cases h
  | call call =>
    rw [stores] at h
    split at h
    · split at h
      · rename_i row' hstoring
        split at h
        · rename_i hid
          obtain rfl := Option.some.inj h
          have hposted := (storing_eq_ok hstoring).2
          cases hparse : platform.parse call.request.body with
          | none => simp [postedRow, hparse] at hposted
          | some data =>
            obtain ⟨p, -, hcolumns⟩ := (postedRow_eq_some hparse).mp hposted
            obtain ⟨hclaimed, hcreated⟩ := Payload.columns_eq_some hcolumns
            exact ⟨hid, hclaimed, call, rfl, hcreated⟩
        · cases h
      · cases h
    · cases h

/-- What stores a row does not mark it. -/
theorem marks_of_stores {e : ServerEvent} {row : Row} (h : stores platform id s e = some row) :
    marks id s e = false := by
  cases e with
  | restart => rfl
  | call call =>
    rw [stores] at h
    split at h
    · rename_i hregister
      simp [marks, hregister.2]
    · cases h

/-- **A row that is there stays**, with the time it was stored first, and is marked if it is asked
for. -/
theorem row_stays {row : Row} (hrow : s.table.row id = some row) (events : List ServerEvent) :
    ∃ row', (final (step platform) s events).table.row id = some row' ∧
      row'.createdAt = row.createdAt ∧
      row'.claimed =
        if (trace (step platform) s events).any fun e => marks id e.before e.input then some true
        else row.claimed := by
  induction events generalizing s row with
  | nil => exact ⟨row, hrow, rfl, rfl⟩
  | cons e events ih =>
    have hstep := @step_row platform id s e
    rw [trace_cons, List.any_cons, final_cons]
    cases hstores : stores platform id s e with
    | some new =>
      simp only [hstores, hrow] at hstep
      obtain ⟨row', hrow', hcreated, hclaimed⟩ := ih hstep
      refine ⟨row', hrow', hcreated, ?_⟩
      rw [hclaimed, marks_of_stores hstores, Bool.false_or]
      rfl
    | none =>
      cases hmarks : marks id s e with
      | true =>
        simp only [hstores, hmarks, if_true, hrow, Option.map_some] at hstep
        obtain ⟨row', hrow', hcreated, hclaimed⟩ := ih hstep
        refine ⟨row', hrow', hcreated, ?_⟩
        rw [hclaimed, Bool.true_or, if_pos rfl]
        split <;> rfl
      | false =>
        simp only [hstores, hmarks, hrow, Bool.false_eq_true, if_false] at hstep
        obtain ⟨row', hrow', hcreated, hclaimed⟩ := ih hstep
        exact ⟨row', hrow', hcreated, by rw [hclaimed, Bool.false_or]⟩

/-- **The fields of the row under an id** are a cell of the server. -/
def fields (platform : Platform) (id : Bytes) : Cell (step platform) (Option Row) where
  read s := (s.table.row id).map Row.fields
  write s e := (stores platform id s e).map fun row => some row.fields
  read_step s e := by
    rw [step_row]
    cases stores platform id s e with
    | some new => cases s.table.row id <;> rfl
    | none =>
      simp only [Option.map_none, Option.getD_none]
      split
      · cases s.table.row id <;> rfl
      · rfl

/-- The first row that was stored under the id, in a run of the server from its first start on; what
came after it, and the state in front of that. -/
structure FirstStored (platform : Platform) (id : Bytes) (events : List ServerEvent) where
  before : List ServerEvent
  event : ServerEvent
  after : List ServerEvent
  row : Row
  split : events = before ++ event :: after
  stored : stores platform id (final (step platform) .fresh before) event = some row
  first : ∀ e ∈ trace (step platform) .fresh before, stores platform id e.before e.input = none

/-- The last one. -/
structure LastStored (platform : Platform) (id : Bytes) (events : List ServerEvent) where
  before : List ServerEvent
  event : ServerEvent
  after : List ServerEvent
  row : Row
  split : events = before ++ event :: after
  stored : stores platform id (final (step platform) .fresh before) event = some row
  last : ∀ e ∈ trace (step platform) (step platform (final (step platform) .fresh before) event).1
    after, stores platform id e.before e.input = none

theorem exists_firstStored {events : List ServerEvent}
    (h : (fields platform id).lastWrite .fresh events ≠ none) :
    Nonempty (FirstStored platform id events) := by
  obtain ⟨before, event, after, a, hsplit, hfirst, hwrite⟩ :=
    (fields platform id).exists_first_write h
  obtain ⟨row, hstored, -⟩ := Option.map_eq_some_iff.mp hwrite
  refine ⟨⟨before, event, after, row, hsplit, hstored, fun e he => ?_⟩⟩
  exact Option.map_eq_none_iff.mp ((Cell.lastWrite_eq_none_iff _).mp hfirst e he)

theorem exists_lastStored {events : List ServerEvent} {row : Option Row}
    (h : (fields platform id).lastWrite .fresh events = some row) :
    ∃ last : LastStored platform id events, row = some last.row.fields := by
  obtain ⟨before, event, after, hsplit, hwrite, hlast⟩ := (Cell.lastWrite_eq_some_iff _).mp h
  obtain ⟨new, hstored, rfl⟩ := Option.map_eq_some_iff.mp hwrite
  refine ⟨⟨before, event, after, new, hsplit, hstored, fun e he => ?_⟩, rfl⟩
  exact Option.map_eq_none_iff.mp ((Cell.lastWrite_eq_none_iff _).mp hlast e he)

/-- Before the first row is stored there is none. -/
theorem FirstStored.row_eq_none {events : List ServerEvent}
    (first : FirstStored platform id events) :
    (final (step platform) .fresh first.before).table.row id = none := by
  have hread := @Cell.read_final _ _ _ _ _ .fresh first.before (fields platform id)
  have hnone : (fields platform id).lastWrite .fresh first.before = none :=
    (Cell.lastWrite_eq_none_iff _).mpr fun e he => Option.map_eq_none_iff.mpr (first.first e he)
  rw [hnone] at hread
  exact Option.map_eq_none_iff.mp hread

end Server

/-- **What the row under an id is**, after any run of the server: there is none if none was ever
stored; and otherwise it has the fields that were stored last and the time at which a row was stored
first, and it is marked exactly if it was asked for after that. -/
theorem row_history (platform : Platform) (id : Bytes) (events : List ServerEvent) :
    let row := (final (Server.step platform) .fresh events).table.row id
    (row = none ∧ ∀ e ∈ trace (Server.step platform) .fresh events,
      Server.stores platform id e.before e.input = none) ∨
    ∃ (first : Server.FirstStored platform id events) (last : Server.LastStored platform id events),
      ∃ r, row = some r ∧ r.fields = last.row.fields ∧ r.createdAt = first.row.createdAt ∧
        r.claimed = some ((trace (Server.step platform)
          ((final (Server.step platform) .fresh first.before).step platform first.event).1
          first.after).any fun e => Server.marks id e.before e.input) := by
  intro row
  have hread := @Cell.read_final _ _ _ _ _ .fresh events (Server.fields platform id)
  cases hwrite : (Server.fields platform id).lastWrite .fresh events with
  | none =>
    rw [hwrite] at hread
    refine Or.inl ⟨Option.map_eq_none_iff.mp hread, fun e he => ?_⟩
    exact Option.map_eq_none_iff.mp ((Cell.lastWrite_eq_none_iff _).mp hwrite e he)
  | some fields =>
    have hsome : (Server.fields platform id).lastWrite .fresh events ≠ none := by simp [hwrite]
    obtain ⟨first⟩ := Server.exists_firstStored hsome
    obtain ⟨last, rfl⟩ := Server.exists_lastStored hwrite
    -- the row at the time it is stored first
    have hstored : ((final (Server.step platform) .fresh first.before).step platform
        first.event).1.table.row id = some first.row := by
      rw [Server.step_row, first.stored, first.row_eq_none]
      rfl
    obtain ⟨r, hr, hcreated, hclaimed⟩ := Server.row_stays hstored first.after
    rw [← final_cons, ← final_append, ← first.split] at hr
    refine Or.inr ⟨first, last, r, hr, ?_, hcreated, ?_⟩
    · rw [hwrite] at hread
      have hfields : row.map Row.fields = some last.row.fields := hread
      rw [show row = some r from hr] at hfields
      exact Option.some.inj hfields
    · rw [hclaimed, (Server.stores_eq_some first.stored).2.1]
      cases (trace (Server.step platform) ((final (Server.step platform) .fresh first.before).step
        platform first.event).1 first.after).any fun e => Server.marks id e.before e.input <;> rfl

/-! ### What nobody sees -/

namespace Server

variable {platform : Platform} {s s' s'' : Server} {call : Call} {id : Bytes}

/-- The row without its mark. -/
def unmarked (row : Row) : Row := { row with claimed := none }

/-- Two servers that differ at most in the marks of their rows. -/
structure Alike (s s' : Server) : Prop where
  running : s.running = s'.running
  signals : s.signals = s'.signals
  row : ∀ id, (s.table.row id).map unmarked = (s'.table.row id).map unmarked

theorem Alike.refl (s : Server) : Alike s s := ⟨rfl, rfl, fun _ => rfl⟩

theorem Alike.trans (h : Alike s s') (h' : Alike s' s'') : Alike s s'' :=
  ⟨h.running.trans h'.running, h.signals.trans h'.signals, fun id => (h.row id).trans (h'.row id)⟩

/-- The answer does not show the mark. -/
theorem fileBody_unmarked (platform : Platform) (row : Row) :
    fileBody platform (unmarked row) = fileBody platform row := by
  simp only [fileBody, unmarked, DB.toTransferRow]
  by_cases hport : row.senderPort < 0
  · simp only [hport, if_true]
  · simp only [hport, if_false]

theorem Alike.fileDraft (h : Alike s s') (id : Bytes) :
    fileDraft platform (s.table.row id) = fileDraft platform (s'.table.row id) := by
  have hbody (row : Option Row) :
      row.bind (fileBody platform) = (row.map unmarked).bind (fileBody platform) := by
    cases row with
    | none => rfl
    | some row => exact (fileBody_unmarked platform row).symm
  rw [Server.fileDraft, Server.fileDraft, hbody, hbody (s'.table.row id), h.row id]

theorem Alike.isSome (h : Alike s s') (id : Bytes) :
    (s.table.row id).isSome = (s'.table.row id).isSome := by
  have hsome := congrArg Option.isSome (h.row id)
  rwa [Option.isSome_map, Option.isSome_map] at hsome

/-- What an event stores is the same. -/
theorem Alike.stores (h : Alike s s') (e : ServerEvent) :
    stores platform id s e = stores platform id s' e := by
  cases e with
  | restart => rfl
  | call call => rw [Server.stores, Server.stores, h.running]

/-- The rows stay alike. -/
theorem Alike.step_row (h : Alike s s') (e : ServerEvent) (id : Bytes) :
    ((s.step platform e).1.table.row id).map unmarked
      = ((s'.step platform e).1.table.row id).map unmarked := by
  have hmark (row : Option Row) : (row.map Row.claim).map unmarked = row.map unmarked := by
    cases row <;> rfl
  have hrow := h.row id
  rw [Server.step_row, Server.step_row, h.stores e]
  cases Server.stores platform id s' e with
  | some new =>
    simp only [Option.map_some]
    revert hrow
    cases s.table.row id <;> cases s'.table.row id <;> intro hrow
    · rfl
    · cases hrow
    · cases hrow
    · rename_i old old'
      have hcreated := congrArg (fun row => row.map Row.createdAt) hrow
      simp only [Option.map_some, Option.some.injEq, unmarked] at hcreated
      simp [Row.over, Row.onConflict, unmarked, hcreated]
  | none =>
    simp only
    split <;> split <;> simp only [hmark, hrow]

/-- **The mark is not seen.** Servers that differ in nothing else answer every request alike. -/
theorem alike_bisimulation (platform : Platform) : Bisimulation (step platform) Alike := by
  intro s s' e h
  have hrow := @Alike.step_row platform s s' h e
  suffices hrest : (s.step platform e).1.running = (s'.step platform e).1.running ∧
      (s.step platform e).1.signals = (s'.step platform e).1.signals ∧
      (s.step platform e).2 = (s'.step platform e).2 from
    ⟨⟨hrest.1, hrest.2.1, hrow⟩, hrest.2.2⟩
  cases e with
  | restart => exact ⟨rfl, rfl, rfl⟩
  | call call =>
    cases hrunning : s.running with
    | false =>
      have hrunning' : s'.running = false := h.running ▸ hrunning
      simp [step, hrunning, hrunning', h.signals]
    | true =>
      have hrunning' : s'.running = true := h.running ▸ hrunning
      cases hroute : routed call.request with
      | none =>
        obtain ⟨answers, hstep, -⟩ := @step_not_routed platform call hroute
        rw [hstep s hrunning, hstep s' hrunning']
        exact ⟨h.running, h.signals, rfl⟩
      | some handler =>
        rw [step_routed hrunning hroute, step_routed hrunning' hroute]
        cases handler with
        | lookup secret =>
          rw [dispatch_lookup hrunning, dispatch_lookup hrunning', h.isSome secret]
          exact ⟨h.running, h.signals, rfl⟩
        | getfile secret =>
          rw [dispatch_getfile hrunning, dispatch_getfile hrunning', h.fileDraft secret]
          split <;> exact ⟨h.running, h.signals, rfl⟩
        | register =>
          rw [dispatch_register hrunning, dispatch_register hrunning']
          cases storing platform call.request.body call.now call.faults with
          | error e => exact ⟨rfl, h.signals, rfl⟩
          | ok row => cases row <;> exact ⟨h.running, h.signals, rfl⟩
        | postSignal id => simp only [dispatch, h.signals, h.running, and_self]
        | getSignal id => simp only [dispatch, h.signals, h.running, and_self]
        | health => exact ⟨h.running, h.signals, rfl⟩

/-- The requests that only read: all but those that register a transfer or post a signal. -/
def reads : ServerEvent → Bool
  | .restart => false
  | .call call =>
    match routed call.request with
    | some .register => false
    | some (.postSignal _) => false
    | _ => true

/-- What only reads does not store anything. -/
theorem stores_of_reads {e : ServerEvent} (h : reads e = true) : stores platform id s e = none := by
  cases e with
  | restart => rfl
  | call call =>
    rw [stores, if_neg]
    rintro ⟨-, hroute⟩
    simp [reads, hroute] at h

/-- **What only reads is silent.** -/
theorem silent_of_reads {e : ServerEvent} (h : reads e = true) :
    Silent (step platform) Alike e := by
  intro s
  have hrow (id : Bytes) : ((s.step platform e).1.table.row id).map unmarked
      = (s.table.row id).map unmarked := by
    rw [step_row, stores_of_reads h]
    simp only
    split
    · cases s.table.row id <;> rfl
    · rfl
  suffices hrest : (s.step platform e).1.running = s.running ∧
      (s.step platform e).1.signals = s.signals from ⟨hrest.1, hrest.2, hrow⟩
  cases e with
  | restart => cases h
  | call call =>
    cases hrunning : s.running with
    | false => simp [step, hrunning]
    | true =>
      cases hroute : routed call.request with
      | none =>
        obtain ⟨answers, hstep, -⟩ := @step_not_routed platform call hroute
        rw [hstep s hrunning]
        exact ⟨hrunning, rfl⟩
      | some handler =>
        rw [step_routed hrunning hroute]
        cases handler with
        | lookup secret =>
          rw [dispatch_lookup hrunning]
          exact ⟨hrunning, rfl⟩
        | getfile secret =>
          rw [dispatch_getfile hrunning]
          split <;> exact ⟨hrunning, rfl⟩
        | register => simp [reads, hroute] at h
        | postSignal id => simp [reads, hroute] at h
        | getSignal id => exact ⟨hrunning, rfl⟩
        | health => exact ⟨hrunning, rfl⟩

end Server

/-- **Reading makes no difference.** Leave out of a run of the server any of the requests that
neither register a transfer nor post a signal: all others are answered as before, and so is whatever
comes after the run. -/
theorem reads_unobservable (platform : Platform) (s : Server) (events : List ServerEvent)
    (chosen : ServerEvent → Bool) :
    let kept := fun e => !(Server.reads e && chosen e)
    outputsAt (Server.step platform) kept s events
        = (trace (Server.step platform) s (events.filter kept)).map Entry.output ∧
      ∀ later, outputs (Server.step platform) (final (Server.step platform) s events) later
        = outputs (Server.step platform) (final (Server.step platform) s (events.filter kept))
            later := by
  intro kept
  have hsilent : ∀ e, kept e = false → Silent (Server.step platform) Server.Alike e := by
    intro e he
    refine Server.silent_of_reads ?_
    simp only [kept, Bool.not_eq_false', Bool.and_eq_true] at he
    exact he.1
  obtain ⟨houtputs, halike⟩ := (Server.alike_bisimulation platform).filter
    (fun h h' => h.trans h') hsilent (Server.Alike.refl s) events
  exact ⟨houtputs, fun later => (Server.alike_bisimulation platform).outputs halike later⟩

end Zapshare
