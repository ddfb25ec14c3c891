import Zapshare.Handlers
import Zapshare.Lib.Bisimulation
import Zapshare.Metadata
import Mathlib.Data.Fin.VecNotation

/-!
# Requests at the same time

The pool does what some sequential order of the requests does, as long as no step opens a
transaction while another one is open, no registration makes a row appear between the two
transactions of a `/getfile` that looks for it, and the process does not end while another request
is under way that has changed the table or is going to.

## The order

A request has its turn when its first transaction is over. Nothing that happens afterwards changes
its answer, and of what it does to the table at most a mark is left to be made. `Tracks` therefore
compares the pool with a server that has handled the requests of `log` one after the other: the
answers are settled, and the table of the server is ahead of that of the pool by the marks that are
due. A mark that is made early is seen by nobody, which is what `Zapshare.Handlers` proves.

A process that ends leaves requests unanswered. They come behind the one that ended it, where they
do nothing, so they must not have left anything in the table either: that is the last clause of
`Pool.Undisturbed`, which lookups and failing registrations meet.

## Scope

Requests are those whose handlers use the database; the others do not touch the connection. A step
is one operation on it, or the answer. How the pool chooses the next worker is left open, and so is
how many workers there are. The condition is on the steps of a run, and says nothing about the runs
that have others: `lookups_collide` is one of those.

## Main definitions

* `Pool.Undisturbed` — the steps that get into nobody's way
* `Job.Inert` — the requests that leave no trace in the server
* `Standing`, `Tracks` — how far the requests are, and the sequential order that they are in
* `InOrder` — the invariant of a run

## Main results

* `InOrder.step` — what one step preserves
* `interleaving_serializable` — the requests do not disturb each other in such a run
* `lookups_collide` — two lookups do in another one
-/

namespace Zapshare

open Wire

variable {n : ℕ} {platform : Platform} {jobs : Fin n → Job} {P : Pool n} {o : Fin n}

/-! ### Undisturbed steps -/

/-- The request is under way. -/
def Pool.Active (P : Pool n) (o : Fin n) : Prop := ∃ p faults, P.threads o = .active p faults

/-- A `/getfile` has found what is stored under `id`, and is going to mark it. -/
def Pool.Between (jobs : Fin n → Job) (P : Pool n) (o : Fin n) (id : Bytes) : Prop :=
  (jobs o).route = .getfile id ∧
    ∃ next faults, P.threads o = .active (.call .begin next) faults ∧ Faultless faults 3

/-- A process that goes on has answered. -/
theorem respond_ne_nil {r : Except Fault Draft} (h : r ≠ .error .aborted) : respond r ≠ [] := by
  obtain (_ | _) | _ := r
  · exact List.cons_ne_nil _ _
  · exact absurd rfl h
  · exact List.cons_ne_nil _ _

/-- The request leaves the server as it is, whatever it meets there: it is a lookup, or a
registration of which nothing is stored. A `/getfile` may have a mark to make, and does not
count. -/
def Job.Inert (platform : Platform) (job : Job) : Prop :=
  Machine.Silent (Server.step platform) Eq (.call job.call) ∧ ∀ id, job.route ≠ .getfile id

theorem Job.inert_of_lookup (platform : Platform) {job : Job} {secret : Bytes}
    (hroute : job.route = .lookup secret) : job.Inert platform := by
  refine ⟨fun s => ?_, by simp [hroute]⟩
  cases hrunning : s.running with
  | false => rw [Server.step_down hrunning]
  | true =>
    have hrouted : Server.routed job.call.request = some (.lookup secret) := by
      rw [job.routed, hroute]
      rfl
    obtain ⟨res, hstep, -⟩ := Server.step_lookup hrunning hrouted
    rw [hstep]

theorem Job.inert_of_register {job : Job} (hroute : job.route = .register)
    (hstored : job.stored platform = .ok none) : job.Inert platform := by
  refine ⟨fun s => ?_, by simp [hroute]⟩
  cases hrunning : s.running with
  | false => rw [Server.step_down hrunning]
  | true =>
    rw [Server.step_job hrunning, Job.alone_register hroute, hstored,
      decide_eq_true (respond_ne_nil (by simp)), ← hrunning]

/-- The next step of the worker of `o` gets into nobody's way, and nobody into its. -/
def Pool.Undisturbed (platform : Platform) (jobs : Fin n → Job) (P : Pool n) (o : Fin n) : Prop :=
  match P.rest platform jobs o with
  | some (.call .begin _, faults) => faults 0 = false → P.txn = none
  | some (.call .commit _, faults) =>
    faults 0 = false → ∀ txn, P.txn = some txn → ∀ id, P.table.row id = none →
      txn.view.row id ≠ none → ∀ o', ¬ P.Between jobs o' id
  | some (.done (.error .aborted), _) => ∀ o', o' ≠ o → P.Active o' → (jobs o').Inert platform
  | _ => True

/-- The transaction that is open is one of `o`. -/
def Pool.Holds (P : Pool n) (o : Fin n) : Prop := ∃ view, P.txn = some ⟨o, view⟩

/-- No other request than `o` has a transaction open. -/
def Pool.FreeFor (P : Pool n) (o : Fin n) : Prop := ∀ txn, P.txn = some txn → txn.owner = o

theorem Pool.freeFor_of_idle (h : P.txn = none) : P.FreeFor o :=
  fun _ htxn => nomatch h.symm.trans htxn

theorem Pool.Holds.freeFor (h : P.Holds o) : P.FreeFor o := by
  obtain ⟨view, hview⟩ := h
  intro txn htxn
  rw [← Option.some.inj (hview.symm.trans htxn)]

/-! ### How far the requests are -/

/-- How far a request is. Those of `log` are past their first transaction: it is settled what they
are going to answer, and which mark is due. -/
inductive Standing (platform : Platform) (jobs : Fin n → Job) (P : Pool n) (log : List (Fin n))
    (reply : Fin n → Except Fault Draft) (due : Fin n → Option Bytes) (o : Fin n) : Thread → Prop
  | waiting (hlog : o ∉ log) (hdue : due o = none) (hout : ¬ P.Holds o) :
    Standing platform jobs P log reply due o .waiting
  | first {p : Db Draft} {faults : ℕ → Bool} {view : Table} (hlog : o ∉ log) (hdue : due o = none)
    (htxn : P.txn = some ⟨o, view⟩) (hin : Inside ((jobs o).Left platform) p)
    (hrun : p.run (Connection.exec platform (jobs o).call.now o) (P.connection faults)
      = ((jobs o).handler platform).run (Connection.exec platform (jobs o).call.now o)
        ((jobs o).connection P.table)) :
    Standing platform jobs P log reply due o (.active p faults)
  | outside {p : Db Draft} {faults : ℕ → Bool} (hlog : o ∈ log) (hout : ¬ P.Holds o)
    (hsettled : Settled platform (jobs o).call.now o (reply o) (due o) p faults)
    (hshape : Quiet p ∧ due o = none ∨ Opens Quiet p ∧
      ∀ id, due o = some id → (jobs o).route = .getfile id ∧ Faultless faults 3) :
    Standing platform jobs P log reply due o (.active p faults)
  | second {p : Db Draft} {faults : ℕ → Bool} {view : Table} (hlog : o ∈ log)
    (htxn : P.txn = some ⟨o, view⟩) (hin : Inside Quiet p)
    (hrun : ∃ c, p.run (Connection.exec platform (jobs o).call.now o) (P.connection faults)
      = (reply o, c) ∧ c.table = P.table.markDue (due o)) :
    Standing platform jobs P log reply due o (.active p faults)
  | answered {sent : List Response} (hlog : o ∈ log) (hdue : due o = none) (hout : ¬ P.Holds o)
    (hsent : sent = respond (reply o)) : Standing platform jobs P log reply due o (.answered sent)

/-- The marks that are due. -/
def dueIds (due : Fin n → Option Bytes) : Set Bytes := {id | ∃ o, due o = some id}

/-- The server after the requests of `log`, one after the other, has answered what the pool is going
to answer, and its table is the one of the pool with the marks that are due. -/
structure Tracks (platform : Platform) (jobs : Fin n → Job) (s : Server) (P : Pool n)
    (log : List (Fin n)) (reply : Fin n → Except Fault Draft) (due : Fin n → Option Bytes) :
    Prop where
  nodup : log.Nodup
  reply_ne : ∀ o ∈ log, reply o ≠ .error .aborted
  running : (Machine.final (Server.step platform) s (Pool.calls jobs log)).running = true
  answers : (Machine.trace (Server.step platform) s (Pool.calls jobs log)).map Machine.Entry.output
    = log.map fun o => respond (reply o)
  ahead : AheadBy (dueIds due) P.table
    (Machine.final (Server.step platform) s (Pool.calls jobs log)).table
  standing : ∀ o, Standing platform jobs P log reply due o (P.threads o)

/-! ### What the others see of a step -/

/-- `P'` is `P` after a step of `o`: no other request has moved, or lost its transaction or been
given one, or seen the table change under it. -/
structure Pool.Moves (P : Pool n) (o : Fin n) (P' : Pool n) : Prop where
  threads : ∀ o', o' ≠ o → P'.threads o' = P.threads o'
  kept : ∀ o' view, o' ≠ o → P.txn = some ⟨o', view⟩ → P'.txn = P.txn ∧ P'.table = P.table
  gained : ∀ o', o' ≠ o → P'.Holds o' → P.Holds o'

section Frame

variable {P' : Pool n} {log log' : List (Fin n)} {reply reply' : Fin n → Except Fault Draft}
  {due due' : Fin n → Option Bytes} {th : Thread} {o' : Fin n}

/-- A step of one request leaves the others where they stand. -/
theorem Standing.frame (h : Standing platform jobs P log reply due o' th) (hmoves : P.Moves o P')
    (hne : o' ≠ o) (hlog : o' ∈ log' ↔ o' ∈ log) (hreply : reply' o' = reply o')
    (hdue : due' o' = due o') : Standing platform jobs P' log' reply' due' o' th := by
  have hout' : ¬ P.Holds o' → ¬ P'.Holds o' := fun hout h => hout (hmoves.gained o' hne h)
  cases h with
  | waiting hlog' hdue' hout => exact .waiting (mt hlog.mp hlog') (hdue.trans hdue') (hout' hout)
  | first hlog' hdue' htxn hin hrun =>
    obtain ⟨htxn', htable⟩ := hmoves.kept o' _ hne htxn
    refine .first (mt hlog.mp hlog') (hdue.trans hdue') (htxn'.trans htxn) hin ?_
    rw [Pool.connection, htxn', htable]
    exact hrun
  | outside hlog' hout hsettled hshape =>
    rw [← hreply, ← hdue] at hsettled
    rw [← hdue] at hshape
    exact .outside (hlog.mpr hlog') (hout' hout) hsettled hshape
  | second hlog' htxn hin hrun =>
    obtain ⟨htxn', htable⟩ := hmoves.kept o' _ hne htxn
    refine .second (hlog.mpr hlog') (htxn'.trans htxn) hin ?_
    rw [Pool.connection, htxn', htable, hreply, hdue]
    exact hrun
  | answered hlog' hdue' hout hsent =>
    exact .answered (hlog.mpr hlog') (hdue.trans hdue') (hout' hout) (by rw [hreply, hsent])

/-- A mark that is due may be made. -/
theorem aheadBy_due (o : Fin n) (id : Option Bytes) {t s : Table} :
    AheadBy (dueIds (Function.update due o id)) t s ↔
      AheadBy (dueIds (Function.update due o none)) (t.markDue id) s := by
  cases id with
  | none => rfl
  | some id =>
    have hids : dueIds (Function.update due o (some id))
        = insert id (dueIds (Function.update due o none)) := by
      ext id'
      constructor
      · rintro ⟨o', ho'⟩
        by_cases hne : o' = o
        · subst hne
          rw [Function.update_self] at ho'
          exact Or.inl (Option.some.inj ho').symm
        · refine Or.inr ⟨o', ?_⟩
          rwa [Function.update_of_ne hne] at ho' ⊢
      · rintro (rfl | ⟨o', ho'⟩)
        · exact ⟨o, Function.update_self _ _ _⟩
        · refine ⟨o', ?_⟩
          by_cases hne : o' = o
          · subst hne
            rw [Function.update_self] at ho'
            cases ho'
          · rwa [Function.update_of_ne hne] at ho' ⊢
    rw [hids]
    exact aheadBy_markClaimed.symm

variable {s : Server}

/-- A request moves on without getting past its first transaction. -/
theorem Tracks.move (h : Tracks platform jobs s P log reply due) (hmoves : P.Moves o P')
    (hdue : ∀ o', o' ≠ o → due' o' = due o')
    (hahead : AheadBy (dueIds due') P'.table
      (Machine.final (Server.step platform) s (Pool.calls jobs log)).table)
    (hstanding : Standing platform jobs P' log reply due' o (P'.threads o)) :
    Tracks platform jobs s P' log reply due' where
  nodup := h.nodup
  reply_ne := h.reply_ne
  running := h.running
  answers := h.answers
  ahead := hahead
  standing o' := by
    by_cases hne : o' = o
    · subst hne
      exact hstanding
    · rw [hmoves.threads o' hne]
      exact (h.standing o').frame hmoves hne Iff.rfl rfl (hdue o' hne)

theorem Table.row_markDue_eq_none {t : Table} {id : Option Bytes} {id' : Bytes} :
    (t.markDue id).row id' = none ↔ t.row id' = none := by
  cases id with
  | none => rfl
  | some id => exact Table.row_markClaimed_eq_none

/-- **A request gets past its first transaction.** It has its turn in the sequential order then. -/
theorem Tracks.settle (h : Tracks platform jobs s P log reply due) (hmoves : P.Moves o P')
    (hlog : o ∉ log) (hdue : due o = none) {r : Except Fault Draft} {id : Option Bytes}
    (hr : r ≠ .error .aborted)
    (halone : (jobs o).alone platform P.table = (r, P'.table.markDue id))
    (hnew : ∀ id' ∈ dueIds due, P.table.row id' = none → P'.table.row id' = none)
    (hstanding : Standing platform jobs P' (log ++ [o]) (Function.update reply o r)
      (Function.update due o id) o (P'.threads o)) :
    Tracks platform jobs s P' (log ++ [o]) (Function.update reply o r)
      (Function.update due o id) := by
  have hreply : ∀ o' ∈ log, Function.update reply o r o' = reply o' := by
    intro o' ho'
    refine Function.update_of_ne ?_ _ _
    rintro rfl
    exact hlog ho'
  have hcalls : Pool.calls jobs (log ++ [o]) = Pool.calls jobs log ++ [.call (jobs o).call] :=
    List.map_append
  obtain ⟨hanswer, hahead⟩ := @Job.alone_aheadBy _ _ _ platform (jobs o) h.ahead (by
    intro id' hid' hnone
    rw [halone, Table.row_markDue_eq_none]
    exact hnew id' hid' hnone)
  have hstep := @Server.step_job platform _ h.running (jobs o)
  rw [halone] at hanswer hahead
  rw [hanswer, decide_eq_true (respond_ne_nil hr)] at hstep
  constructor
  · exact List.nodup_append.mpr ⟨h.nodup, List.nodup_singleton o, by
      rintro o' ho' _ ho rfl
      exact hlog (List.mem_singleton.mp ho ▸ ho')⟩
  · intro o' ho'
    rcases List.mem_append.mp ho' with ho' | ho'
    · rw [hreply o' ho']
      exact h.reply_ne o' ho'
    · rw [List.mem_singleton.mp ho', Function.update_self]
      exact hr
  · rw [hcalls, Machine.final_concat, hstep]
  · rw [hcalls, Machine.trace_append, List.map_append, List.map_append, h.answers]
    congr 1
    · exact List.map_congr_left fun o' ho' => by rw [hreply o' ho']
    · simp [hstep]
  · rw [hcalls, Machine.final_concat, hstep, aheadBy_due, ← hdue, Function.update_eq_self]
    exact hahead
  · intro o'
    by_cases hne : o' = o
    · subst hne
      exact hstanding
    · rw [hmoves.threads o' hne]
      refine (h.standing o').frame hmoves hne ?_ (Function.update_of_ne hne _ _)
        (Function.update_of_ne hne _ _)
      simp [hne]

end Frame

/-! ### What one step preserves -/

section Step

variable {th : Thread} {table : Table} {txn : Option Transaction}

theorem Pool.moves_same (P : Pool n) (o : Fin n) (th : Thread) :
    P.Moves o (P.put o th P.table P.txn) where
  threads _ h := P.threads_put_of_ne h
  kept _ _ _ _ := ⟨rfl, rfl⟩
  gained _ _ h := h

theorem Pool.moves_own (h : P.FreeFor o) (htxn : ∀ txn', txn = some txn' → txn'.owner = o) :
    P.Moves o (P.put o th table txn) where
  threads _ h := P.threads_put_of_ne h
  kept _ _ hne htxn' := absurd (Fin.ext (h _ htxn')) hne
  gained _ hne hholds := absurd (Fin.ext (htxn _ hholds.choose_spec)) hne

theorem Pool.moves_over (h : P.FreeFor o) : P.Moves o (P.put o th table none) :=
  moves_own h fun _ htxn => nomatch htxn

theorem Pool.moves_opened (h : P.FreeFor o) {view : Table} :
    P.Moves o (P.put o th table (some ⟨o, view⟩)) :=
  moves_own h fun _ htxn => by rw [← Option.some.inj htxn]

variable {s : Server} {log : List (Fin n)} {reply : Fin n → Except Fault Draft}
  {due : Fin n → Option Bytes}

/-- Where the pool is after each step: the process is running, and the requests stand somewhere, or
it has ended and they have been answered in order. -/
def InOrder (platform : Platform) (jobs : Fin n → Job) (s : Server) (P : Pool n) : Prop :=
  (P.running = true ∧ ∃ log reply due, Tracks platform jobs s P log reply due) ∨
  (P.running = false ∧ P.Serializable platform jobs s)

theorem Tracks.inOrder (h : Tracks platform jobs s P log reply due) (hrunning : P.running = true) :
    InOrder platform jobs s P :=
  Or.inl ⟨hrunning, log, reply, due, h⟩

/-- A request moves on, and the others see nothing of it. -/
theorem Tracks.stay (h : Tracks platform jobs s P log reply due) (hrunning : P.running = true)
    (hstanding : Standing platform jobs (P.put o th P.table P.txn) log reply due o th) :
    InOrder platform jobs s (P.put o th P.table P.txn) := by
  refine (h.move (P.moves_same o th) (fun _ _ => rfl) h.ahead ?_).inOrder hrunning
  rw [Pool.threads_put]
  exact hstanding

/-- A request moves on in a transaction of its own. -/
theorem Tracks.moveIn (h : Tracks platform jobs s P log reply due) (hrunning : P.running = true)
    (hfree : P.FreeFor o) {view : Table}
    (hstanding : Standing platform jobs (P.put o th P.table (some ⟨o, view⟩)) log reply due o th) :
    InOrder platform jobs s (P.put o th P.table (some ⟨o, view⟩)) := by
  refine (h.move (Pool.moves_opened hfree) (fun _ _ => rfl) h.ahead ?_).inOrder hrunning
  rw [Pool.threads_put]
  exact hstanding

/-- A step that answers. -/
theorem Pool.step_answer (hrunning : P.running = true) {r : Except Fault Draft}
    {faults : ℕ → Bool} (hr : r ≠ .error .aborted)
    (h : P.rest platform jobs o = some (.done r, faults)) :
    (P.step platform jobs o).1 = P.put o (.answered (respond r)) P.table P.txn := by
  rw [Pool.step_done hrunning h, decide_eq_true (respond_ne_nil hr), ← hrunning]
  rfl

/-- The first step of a request. -/
theorem Tracks.step_waiting (h : Tracks platform jobs s P log reply due)
    (hrunning : P.running = true) (hok : P.Undisturbed platform jobs o)
    (hth : P.threads o = .waiting) (hlog : o ∉ log) (hdue : due o = none) (hout : ¬ P.Holds o) :
    InOrder platform jobs s (P.step platform jobs o).1 := by
  have hrest := @Pool.rest_waiting n platform jobs P o hth
  rcases @Job.opens platform (jobs o) with hdone | ⟨next, hcall, hquiet, hin⟩
  · have halone : (jobs o).alone platform P.table = (.ok {}, P.table.markDue none) := by
      rw [Job.alone, hdone]
      rfl
    rw [hdone] at hrest
    rw [Pool.step_answer hrunning (by simp) hrest]
    have hmoves := P.moves_same o (.answered (respond (.ok {})))
    refine (h.settle hmoves hlog hdue (by simp) halone (fun _ _ h => h) ?_).inOrder hrunning
    rw [Pool.threads_put]
    exact .answered (by simp) (by simp) hout (by simp)
  · rw [hcall] at hrest
    cases hfault : (jobs o).call.faults 0 with
    | true =>
      have hexec := @Connection.exec_begin_fault platform (jobs o).call.now o
        ((jobs o).connection P.table) hfault
      obtain ⟨r, hr, hrun⟩ := @Quiet.run_eq platform _ hquiet
      have hhandler : ((jobs o).handler platform).run
          (Connection.exec platform (jobs o).call.now o) ((jobs o).connection P.table)
            = (r, Connection.shift ((jobs o).connection P.table)) := by
        rw [hcall, Program.run, hexec]
        exact hrun _ _ _ rfl
      have halone : (jobs o).alone platform P.table = (r, P.table.markDue none) :=
        (jobs o).run_eq_alone hhandler
      rw [Pool.step_call hrunning hrest (Connection.exec_begin_fault hfault)]
      refine (h.settle (P.moves_same o _) hlog hdue hr halone (fun _ _ h => h) ?_).inOrder hrunning
      rw [Pool.threads_put]
      refine .outside (by simp) hout ?_ (Or.inl ⟨hquiet, by simp⟩)
      rw [Function.update_self, Function.update_self]
      exact fun t => ⟨_, hrun _ _ _ rfl, rfl⟩
    | false =>
      simp only [Pool.Undisturbed, hrest] at hok
      have hexec := @Connection.exec_begin platform (jobs o).call.now o
        ((jobs o).connection P.table) hfault rfl
      rw [Pool.step_call hrunning hrest (Connection.exec_begin hfault (hok hfault))]
      have hfree : P.FreeFor o := Pool.freeFor_of_idle (hok hfault)
      refine h.moveIn hrunning hfree (.first hlog hdue rfl hin ?_)
      change _ = ((jobs o).handler platform).run _ ((jobs o).connection P.table)
      rw [hcall, Program.run, hexec]
      rfl

/-- The first transaction of a request is over. -/
theorem Tracks.settle_first (h : Tracks platform jobs s P log reply due)
    (hrunning : P.running = true) (hlog : o ∉ log) (hdue : due o = none) (hfree : P.FreeFor o)
    {p : Db Draft} {faults : ℕ → Bool} (hleft : (jobs o).Left platform p)
    (hrun : p.run (Connection.exec platform (jobs o).call.now o) { table, faults }
      = ((jobs o).handler platform).run (Connection.exec platform (jobs o).call.now o)
        ((jobs o).connection P.table))
    (hnew : ∀ id ∈ dueIds due, P.table.row id = none → table.row id = none) :
    InOrder platform jobs s (P.put o (.active p faults) table none) := by
  obtain ⟨r, id, hr, hsettled, hshape⟩ :=
    @Job.Left.settled platform (jobs o).call.now o (jobs o) p hleft faults
  obtain ⟨c, hc, htable⟩ := hsettled table
  have halone : (jobs o).alone platform P.table = (r, table.markDue id) := by
    rw [← htable]
    exact (jobs o).run_eq_alone (hrun.symm.trans hc)
  have hmoves : P.Moves o (P.put o (.active p faults) table none) := Pool.moves_over hfree
  refine (h.settle hmoves hlog hdue hr halone hnew ?_).inOrder hrunning
  rw [Pool.threads_put]
  refine .outside (by simp) (fun hholds => nomatch hholds.choose_spec) ?_ ?_
  · rw [Function.update_self, Function.update_self]
    exact hsettled
  · rw [Function.update_self]
    exact hshape

/-- The transaction in which a mark is made is over. -/
theorem Tracks.settle_second (h : Tracks platform jobs s P log reply due)
    (hrunning : P.running = true) (hlog : o ∈ log) (hfree : P.FreeFor o) {p : Db Draft}
    {faults : ℕ → Bool} (hquiet : Quiet p)
    (hrun : ∃ c, p.run (Connection.exec platform (jobs o).call.now o) { table, faults }
      = (reply o, c) ∧ c.table = P.table.markDue (due o)) :
    InOrder platform jobs s (P.put o (.active p faults) table none) := by
  obtain ⟨r, hr, hquiet'⟩ := @Quiet.run_eq platform p hquiet
  obtain ⟨c, hc, htable⟩ := hrun
  rw [hquiet' _ _ _ rfl] at hc
  obtain ⟨hreply, rfl⟩ := Prod.mk.inj hc
  have hmoves : P.Moves o (P.put o (.active p faults) table none) := Pool.moves_over hfree
  have hothers : ∀ o', o' ≠ o → Function.update due o none o' = due o' :=
    fun o' hne => Function.update_of_ne hne _ _
  refine (h.move hmoves hothers ?_ ?_).inOrder hrunning
  · have hahead := h.ahead
    rw [← Function.update_eq_self o due, aheadBy_due] at hahead
    rw [Pool.put_table, show table = _ from htable]
    exact hahead
  · rw [Pool.threads_put]
    refine .outside hlog (fun hholds => nomatch hholds.choose_spec) ?_ (Or.inl ⟨hquiet, by simp⟩)
    rw [← hreply, Function.update_self]
    exact fun t => ⟨_, hquiet' _ _ _ rfl, rfl⟩

/-- A mark that is due is one of a `/getfile` between its transactions, if no other request has
the connection. -/
theorem Tracks.between (h : Tracks platform jobs s P log reply due) (hdue : due o = none)
    (hown : P.Holds o) {id : Bytes} (hid : id ∈ dueIds due) : ∃ o', P.Between jobs o' id := by
  obtain ⟨o', ho'⟩ := hid
  have hne : o' ≠ o := by
    rintro rfl
    rw [hdue] at ho'
    cases ho'
  have hst := h.standing o'
  generalize hth : P.threads o' = th at hst
  cases hst with
  | waiting _ hdue' => exact absurd (hdue'.symm.trans ho') (by simp)
  | first _ hdue' => exact absurd (hdue'.symm.trans ho') (by simp)
  | answered _ hdue' => exact absurd (hdue'.symm.trans ho') (by simp)
  | second _ htxn => exact absurd (Fin.ext (congrArg Transaction.owner
      (Option.some.inj (htxn.symm.trans hown.choose_spec)))) hne
  | outside _ _ _ hshape =>
    rcases hshape with ⟨-, hdue'⟩ | ⟨⟨next, rfl, -⟩, hfiles⟩
    · exact absurd (hdue'.symm.trans ho') (by simp)
    · obtain ⟨hroute, hfaults⟩ := hfiles id ho'
      exact ⟨o', hroute, next, _, hth, hfaults⟩

/-- A step in the first transaction of a request, unless it ends the process. -/
theorem Tracks.step_first (h : Tracks platform jobs s P log reply due) (hrunning : P.running = true)
    (hok : P.Undisturbed platform jobs o) {op : DbOp} {next : Except Fault op.Answer → Db Draft}
    {faults : ℕ → Bool} (hth : P.threads o = .active (.call op next) faults) (hlog : o ∉ log)
    (hdue : due o = none) {view : Table} (htxn : P.txn = some ⟨o, view⟩)
    (hin : Inside ((jobs o).Left platform) (.call op next))
    (hrun : (Program.call op next).run (Connection.exec platform (jobs o).call.now o)
        (P.connection faults)
      = ((jobs o).handler platform).run (Connection.exec platform (jobs o).call.now o)
        ((jobs o).connection P.table)) :
    InOrder platform jobs s (P.step platform jobs o).1 := by
  have hrest := @Pool.rest_active n platform jobs P o _ _ hth
  have hfree : P.FreeFor o := Pool.Holds.freeFor ⟨view, htxn⟩
  rw [Program.run] at hrun
  cases hin with
  | statement hop hnext =>
    obtain ⟨r, view', hexec⟩ := @Connection.exec_statement platform (jobs o).call.now o
      (P.connection faults) view op hop htxn
    rw [hexec] at hrun
    rw [Pool.step_call hrunning hrest hexec]
    exact h.moveIn hrunning hfree (.first hlog hdue rfl (hnext r) hrun)
  | commit hfault hnext =>
    cases h0 : faults 0 with
    | true =>
      rw [Connection.exec_commit_fault h0] at hrun
      rw [Pool.step_call hrunning hrest (Connection.exec_commit_fault h0)]
      exact h.stay hrunning (.first hlog hdue htxn hfault hrun)
    | false =>
      rw [Connection.exec_commit h0 htxn] at hrun
      rw [Pool.step_call hrunning hrest (Connection.exec_commit h0 htxn)]
      refine h.settle_first hrunning hlog hdue hfree hnext hrun fun id hid hnone => ?_
      by_contra hrow
      obtain ⟨o', hbetween⟩ := h.between hdue ⟨view, htxn⟩ hid
      simp only [Pool.Undisturbed, hrest] at hok
      exact hok h0 _ htxn id hnone hrow o' hbetween
  | close hnext =>
    rw [Connection.exec_close htxn] at hrun
    rw [Pool.step_call hrunning hrest (Connection.exec_close htxn)]
    exact h.settle_first hrunning hlog hdue hfree hnext hrun fun _ _ hnone => hnone

/-- A step in the transaction in which a mark is made. -/
theorem Tracks.step_second (h : Tracks platform jobs s P log reply due)
    (hrunning : P.running = true)
    {p : Db Draft} {faults : ℕ → Bool} (hth : P.threads o = .active p faults) (hlog : o ∈ log)
    {view : Table} (htxn : P.txn = some ⟨o, view⟩) (hin : Inside Quiet p)
    (hrun : ∃ c, p.run (Connection.exec platform (jobs o).call.now o) (P.connection faults)
      = (reply o, c) ∧ c.table = P.table.markDue (due o)) :
    InOrder platform jobs s (P.step platform jobs o).1 := by
  have hrest := @Pool.rest_active n platform jobs P o _ _ hth
  have hfree : P.FreeFor o := Pool.Holds.freeFor ⟨view, htxn⟩
  cases hin with
  | aborted =>
    obtain ⟨c, hc, -⟩ := hrun
    exact absurd (congrArg Prod.fst hc).symm (h.reply_ne o hlog)
  | statement hop hnext =>
    obtain ⟨r, view', hexec⟩ := @Connection.exec_statement platform (jobs o).call.now o
      (P.connection faults) view _ hop htxn
    rw [Program.run, hexec] at hrun
    rw [Pool.step_call hrunning hrest hexec]
    exact h.moveIn hrunning hfree (.second hlog rfl (hnext r) hrun)
  | commit hfault hnext =>
    rw [Program.run] at hrun
    cases h0 : faults 0 with
    | true =>
      rw [Connection.exec_commit_fault h0] at hrun
      rw [Pool.step_call hrunning hrest (Connection.exec_commit_fault h0)]
      exact h.stay hrunning (.second hlog htxn hfault hrun)
    | false =>
      rw [Connection.exec_commit h0 htxn] at hrun
      rw [Pool.step_call hrunning hrest (Connection.exec_commit h0 htxn)]
      exact h.settle_second hrunning hlog hfree hnext hrun
  | close hnext =>
    rw [Program.run, Connection.exec_close htxn] at hrun
    rw [Pool.step_call hrunning hrest (Connection.exec_close htxn)]
    exact h.settle_second hrunning hlog hfree hnext hrun

theorem Pool.view_connection (hout : ¬ P.Holds o) (faults : ℕ → Bool) :
    (P.connection faults).view o = none := by
  cases htxn : P.txn with
  | none => simp [Pool.connection, Connection.view, htxn]
  | some txn =>
    have hne : txn.owner ≠ o := by
      intro heq
      exact hout ⟨txn.view, by rw [htxn, ← heq]⟩
    simp [Pool.connection, Connection.view, htxn, hne]

/-- A step of a request that is past its first transaction, and has none open. -/
theorem Tracks.step_outside (h : Tracks platform jobs s P log reply due)
    (hrunning : P.running = true)
    (hok : P.Undisturbed platform jobs o) {p : Db Draft} {faults : ℕ → Bool}
    (hth : P.threads o = .active p faults) (hlog : o ∈ log) (hout : ¬ P.Holds o)
    (hsettled : Settled platform (jobs o).call.now o (reply o) (due o) p faults)
    (hshape : Quiet p ∧ due o = none ∨ Opens Quiet p ∧
      ∀ id, due o = some id → (jobs o).route = .getfile id ∧ Faultless faults 3) :
    InOrder platform jobs s (P.step platform jobs o).1 := by
  have hrest := @Pool.rest_active n platform jobs P o _ _ hth
  rcases hshape with ⟨hquiet, hdue⟩ | ⟨⟨next, rfl, hquiet, hin⟩, hfiles⟩
  · cases hquiet with
    | done hr =>
      obtain ⟨c, hc, -⟩ := hsettled P.table
      rw [Pool.step_answer hrunning hr hrest]
      exact h.stay hrunning (.answered hlog hdue hout (congrArg (fun r => respond r.1) hc))
    | close hnext =>
      have hexec := @Connection.exec_close_out platform (jobs o).call.now o _
        (Pool.view_connection hout faults)
      rw [Pool.step_call hrunning hrest hexec]
      exact h.stay hrunning (.outside hlog hout hsettled (Or.inl ⟨hnext, hdue⟩))
  · cases h0 : faults 0 with
    | true =>
      have hdue : due o = none := by
        rw [Option.eq_none_iff_forall_ne_some]
        intro id hid
        have hclear := (hfiles id hid).2 0 (by decide)
        rw [h0] at hclear
        cases hclear
      rw [Pool.step_call hrunning hrest (Connection.exec_begin_fault h0)]
      refine h.stay hrunning (.outside hlog hout (fun t => ?_) (Or.inl ⟨hquiet, hdue⟩))
      have hrun := hsettled t
      rw [Program.run, Connection.exec_begin_fault h0] at hrun
      exact hrun
    | false =>
      simp only [Pool.Undisturbed, hrest] at hok
      have hfree : P.FreeFor o := Pool.freeFor_of_idle (hok h0)
      have hrun := hsettled P.table
      rw [Program.run, Connection.exec_begin h0 rfl] at hrun
      rw [Pool.step_call hrunning hrest (Connection.exec_begin h0 (hok h0))]
      exact h.moveIn hrunning hfree (.second hlog rfl hin hrun)

/-! ### The end -/

/-- The table of the server, when no mark is due. -/
theorem Tracks.table_eq (h : Tracks platform jobs s P log reply due) (hdue : ∀ o, due o = none) :
    (Machine.final (Server.step platform) s (Pool.calls jobs log)).table = P.table := by
  have hids : dueIds due = ∅ := by
    rw [Set.eq_empty_iff_forall_notMem]
    rintro id ⟨o, ho⟩
    rw [hdue o] at ho
    cases ho
  have hahead := h.ahead
  rw [hids] at hahead
  exact aheadBy_empty.mp hahead

/-- Every request is over. -/
theorem Tracks.serializable (h : Tracks platform jobs s P log reply due)
    (hover : ∀ o, ∃ sent, P.threads o = .answered sent) : P.Serializable platform jobs s := by
  have hstanding : ∀ o, o ∈ log ∧ due o = none ∧ (P.threads o).sent = respond (reply o) := by
    intro o
    obtain ⟨sent, hsent⟩ := hover o
    have hst := h.standing o
    rw [hsent] at hst ⊢
    cases hst with
    | answered hlog hdue _ hsent => exact ⟨hlog, hdue, hsent⟩
  refine ⟨log, ?_, ?_, h.table_eq fun o => (hstanding o).2.1⟩
  · refine (List.perm_ext_iff_of_nodup h.nodup (List.nodup_finRange n)).mpr fun o => ?_
    exact iff_of_true (hstanding o).1 (List.mem_finRange o)
  · rw [h.answers]
    exact List.map_congr_left fun o _ => (hstanding o).2.2.symm

/-- A server that is down answers none of the requests. -/
theorem run_down (hdown : s.running = false) (order : List (Fin n)) :
    (Machine.trace (Server.step platform) s (Pool.calls jobs order)).map Machine.Entry.output
        = order.map (fun _ => []) ∧
      Machine.final (Server.step platform) s (Pool.calls jobs order) = s := by
  induction order with
  | nil => exact ⟨rfl, rfl⟩
  | cons o order ih =>
    have hstep := @Server.step_down platform s hdown (jobs o)
    rw [Pool.calls, List.map_cons, Machine.trace_cons, Machine.final_cons, hstep, List.map_cons]
    exact ⟨congrArg (List.cons []) ih.1, ih.2⟩

/-- Requests that leave the server as it is may be left out. -/
theorem run_filter (keep : Fin n → Bool) {f : Fin n → List Response} {order : List (Fin n)}
    (hkeep : ∀ o ∈ order, keep o = false → (jobs o).Inert platform)
    (hanswers : (Machine.trace (Server.step platform) s (Pool.calls jobs order)).map
      Machine.Entry.output = order.map f) :
    (Machine.trace (Server.step platform) s (Pool.calls jobs (order.filter keep))).map
        Machine.Entry.output = (order.filter keep).map f ∧
      Machine.final (Server.step platform) s (Pool.calls jobs (order.filter keep))
        = Machine.final (Server.step platform) s (Pool.calls jobs order) := by
  induction order generalizing s with
  | nil => exact ⟨rfl, rfl⟩
  | cons o order ih =>
    have hcalls (order : List (Fin n)) : Pool.calls jobs (o :: order)
        = .call (jobs o).call :: Pool.calls jobs order := List.map_cons
    rw [hcalls, Machine.trace_cons, List.map_cons, List.map_cons] at hanswers
    obtain ⟨hanswer, hrest⟩ := List.cons.inj hanswers
    obtain ⟨hanswers', hfinal⟩ := ih (fun o' ho' => hkeep o' (List.mem_cons_of_mem o ho')) hrest
    cases hk : keep o with
    | true =>
      rw [List.filter_cons, if_pos hk, hcalls, hcalls, Machine.trace_cons, List.map_cons,
        List.map_cons]
      exact ⟨congrArg₂ List.cons hanswer hanswers', hfinal⟩
    | false =>
      have hsame := (hkeep o List.mem_cons_self hk).1 s
      rw [hsame] at hanswers' hfinal
      rw [List.filter_cons, if_neg (by simp [hk]), hcalls, Machine.final_cons, hsame]
      exact ⟨hanswers', hfinal⟩

/-- A request that has been answered. -/
def Thread.over : Thread → Bool
  | .answered _ => true
  | _ => false

/-- Where the other requests stand when one ends the process in its transaction. -/
theorem Tracks.others_at_end (h : Tracks platform jobs s P log reply due)
    (hothers : ∀ o', o' ≠ o → P.Active o' → (jobs o').Inert platform) {view : Table}
    (htxn : P.txn = some ⟨o, view⟩) {o' : Fin n} (hne : o' ≠ o) :
    due o' = none ∧
      if (P.threads o').over then o' ∈ log ∧ (P.threads o').sent = respond (reply o')
      else (P.threads o').sent = [] ∧ (o' ∈ log → (jobs o').Inert platform) := by
  have hactive := hothers o' hne
  have hst := h.standing o'
  generalize hth : P.threads o' = th at hst
  have hout : ∀ view', P.txn ≠ some ⟨o', view'⟩ := by
    intro view' htxn'
    exact hne (Fin.ext (congrArg Transaction.owner (Option.some.inj (htxn'.symm.trans htxn))))
  cases hst with
  | waiting hlog hdue => exact ⟨hdue, rfl, fun h => absurd h hlog⟩
  | answered hlog hdue _ hsent => exact ⟨hdue, hlog, hsent⟩
  | first _ _ htxn' => exact absurd htxn' (hout _)
  | second _ htxn' => exact absurd htxn' (hout _)
  | outside hlog _ _ hshape =>
    have hinert := hactive ⟨_, _, hth⟩
    refine ⟨?_, rfl, fun _ => hinert⟩
    rcases hshape with ⟨-, hdue⟩ | ⟨-, hfiles⟩
    · exact hdue
    · rw [Option.eq_none_iff_forall_ne_some]
      intro id hid
      exact hinert.2 id (hfiles id hid).1

/-- The requests behind `o`, if those of `before` are in front of it. -/
def others (before : List (Fin n)) (o : Fin n) : List (Fin n) :=
  (List.finRange n).filter fun o' => decide (o' ∉ before ∧ o' ≠ o)

theorem mem_others {before : List (Fin n)} {o o' : Fin n} :
    o' ∈ others before o ↔ o' ∉ before ∧ o' ≠ o := by
  simp [others]

/-- All requests have a turn then. -/
theorem perm_others {before : List (Fin n)} (hnodup : before.Nodup) {o : Fin n} (ho : o ∉ before) :
    (before ++ o :: others before o).Perm (List.finRange n) := by
  have hnodup' : (before ++ o :: others before o).Nodup := by
    refine List.nodup_append.mpr ⟨hnodup, List.nodup_cons.mpr ⟨?_, ?_⟩, ?_⟩
    · rw [mem_others]
      exact fun h => h.2 rfl
    · exact (List.nodup_finRange n).filter _
    · rintro o' ho' _ h rfl
      rcases List.mem_cons.mp h with rfl | h
      · exact ho ho'
      · exact (mem_others.mp h).1 ho'
  refine (List.perm_ext_iff_of_nodup hnodup' (List.nodup_finRange n)).mpr fun o' => ?_
  refine iff_of_true ?_ (List.mem_finRange o')
  rw [List.mem_append, List.mem_cons, mem_others]
  tauto

/-- A process that has ended has answered in order: the requests that were under way come behind
the one that ended it. -/
theorem Tracks.step_end (h : Tracks platform jobs s P log reply due) (hrunning : P.running = true)
    (hok : P.Undisturbed platform jobs o) {faults : ℕ → Bool}
    (hth : P.threads o = .active (.done (.error .aborted)) faults) (hlog : o ∉ log)
    (hdue : due o = none) {view : Table} (htxn : P.txn = some ⟨o, view⟩)
    (hrun : (Program.done (.error .aborted)).run
        (Connection.exec platform (jobs o).call.now o) (P.connection faults)
      = ((jobs o).handler platform).run (Connection.exec platform (jobs o).call.now o)
        ((jobs o).connection P.table)) :
    InOrder platform jobs s (P.step platform jobs o).1 := by
  have hrest := @Pool.rest_active n platform jobs P o _ _ hth
  rw [Pool.step_done hrunning hrest]
  simp only [Pool.Undisturbed, hrest] at hok
  have hothers (o' : Fin n) (hne : o' ≠ o) := h.others_at_end hok htxn hne
  have htable := h.table_eq fun o' => by
    by_cases hne : o' = o
    · rw [hne, hdue]
    · exact (hothers o' hne).1
  have halone : (jobs o).alone platform P.table = (.error .aborted, P.table) :=
    (jobs o).run_eq_alone hrun.symm
  have hstep := @Server.step_job platform _ h.running (jobs o)
  rw [htable, halone] at hstep
  have hdown : ((Machine.final (Server.step platform) s (Pool.calls jobs log)).step platform
      (.call (jobs o).call)).1.running = false := by
    rw [hstep]
    rfl
  -- first those that have been answered, as before, and behind `o` those that have not
  let before := log.filter fun o' => (P.threads o').over
  let behind := others before o
  have hbefore : ∀ o' ∈ before, o' ≠ o ∧ (P.threads o').sent = respond (reply o') := by
    intro o' ho'
    obtain ⟨hlog', hover⟩ := List.mem_filter.mp ho'
    have hne : o' ≠ o := fun heq => hlog (heq ▸ hlog')
    have hsent := (hothers o' hne).2
    rw [if_pos hover] at hsent
    exact ⟨hne, hsent.2⟩
  have hunsent : ∀ o' ∈ behind, o' ≠ o ∧ (P.threads o').sent = [] := by
    intro o' ho'
    obtain ⟨hnot, hne⟩ := mem_others.mp ho'
    refine ⟨hne, ?_⟩
    have hsent := (hothers o' hne).2
    split at hsent
    · rename_i hover
      exact absurd (List.mem_filter.mpr ⟨hsent.1, hover⟩) hnot
    · exact hsent.1
  obtain ⟨hanswers, hsame⟩ := run_filter (fun o' => (P.threads o').over) (by
    intro o' ho' hover
    have hne : o' ≠ o := fun heq => hlog (heq ▸ ho')
    have hinert := (hothers o' hne).2
    rw [if_neg (by simp [hover])] at hinert
    exact hinert.2 ho') h.answers
  obtain ⟨hsent, hfinal⟩ := @run_down n platform jobs _ hdown behind
  have hcalls : Pool.calls jobs (before ++ o :: behind)
      = Pool.calls jobs before ++ .call (jobs o).call :: Pool.calls jobs behind := List.map_append
  refine Or.inr ⟨rfl, before ++ o :: behind, ?_, ?_, ?_⟩
  · exact perm_others (h.nodup.filter _) fun ho => (hbefore o ho).1 rfl
  · rw [hcalls, Machine.trace_append, List.map_append, List.map_append, hanswers,
      Machine.trace_cons, List.map_cons, List.map_cons, hsame, hsent, hstep]
    have hput : ∀ o', o' ≠ o → (P.put o (.answered []) P.table P.txn).threads o' = P.threads o' :=
      fun o' hne => Pool.threads_put_of_ne hne
    congr 1
    · refine List.map_congr_left fun o' ho' => ?_
      obtain ⟨hne, hsent'⟩ := hbefore o' ho'
      exact hsent'.symm.trans (congrArg Thread.sent (hput o' hne).symm)
    · congr 1
      · change [] = ((P.put o (.answered []) P.table P.txn).threads o).sent
        rw [Pool.threads_put]
        rfl
      · refine List.map_congr_left fun o' ho' => ?_
        obtain ⟨hne, hsent'⟩ := hunsent o' ho'
        exact hsent'.symm.trans (congrArg Thread.sent (hput o' hne).symm)
  · rw [hcalls, Machine.final_append, Machine.final_cons, hsame, hfinal, hstep]
    rfl

/-! ### Any interleaving -/

/-- **What one step preserves.** -/
theorem InOrder.step (h : InOrder platform jobs s P)
    (hok : P.running = true → P.Undisturbed platform jobs o) :
    InOrder platform jobs s (P.step platform jobs o).1 := by
  rcases h with ⟨hrunning, log, reply, due, h⟩ | ⟨hended, h⟩
  · have hok := hok hrunning
    have hst := h.standing o
    generalize hth : P.threads o = th at hst
    cases hst with
    | waiting hlog hdue hout => exact h.step_waiting hrunning hok hth hlog hdue hout
    | @first p _ _ hlog hdue htxn hin hrun =>
      cases p with
      | call op next => exact h.step_first hrunning hok hth hlog hdue htxn hin hrun
      | done r =>
        cases hin with
        | aborted => exact h.step_end hrunning hok hth hlog hdue htxn hrun
    | outside hlog hout hsettled hshape =>
      exact h.step_outside hrunning hok hth hlog hout hsettled hshape
    | second hlog htxn hin hrun => exact h.step_second hrunning hth hlog htxn hin hrun
    | answered =>
      rw [Pool.step_answered hth]
      exact h.inOrder hrunning
  · rw [Pool.step_ended hended]
    exact Or.inr ⟨hended, h⟩

theorem inOrder_start (s : Server) : InOrder platform jobs s (Pool.start s) := by
  cases hrunning : s.running with
  | true =>
    refine Or.inl ⟨hrunning, [], fun _ => .ok {}, fun _ => none, ?_⟩
    refine ⟨List.nodup_nil, List.forall_mem_nil _, hrunning, rfl, ?_, fun o => ?_⟩
    · have hids : dueIds (fun _ : Fin n => none) = ∅ := by simp [dueIds]
      rw [hids]
      exact aheadBy_empty.mpr rfl
    · exact .waiting List.not_mem_nil rfl fun hholds => nomatch hholds.choose_spec
  | false =>
    obtain ⟨hsent, hfinal⟩ := @run_down n platform jobs s hrunning (List.finRange n)
    exact Or.inr ⟨hrunning, List.finRange n, List.Perm.refl _, hsent, by rw [hfinal]; rfl⟩

end Step

/-- **Requests do not disturb each other** in any interleaving whose steps are undisturbed: what
they are answered and what they leave in the table is what some sequential order of them would. -/
theorem interleaving_serializable (platform : Platform) (jobs : Fin n → Job) (s : Server)
    (schedule : List (Fin n))
    (hok : ∀ e ∈ Machine.trace (Pool.step platform jobs) (Pool.start s) schedule,
      e.before.running = true → e.before.Undisturbed platform jobs e.input)
    (hcomplete : (Machine.final (Pool.step platform jobs) (Pool.start s) schedule).Complete) :
    (Machine.final (Pool.step platform jobs) (Pool.start s) schedule).Serializable platform jobs
      s := by
  have hinOrder : InOrder platform jobs s
      (Machine.final (Pool.step platform jobs) (Pool.start s) schedule) := by
    refine Machine.final_of_trace (fun e he h => ?_) (inOrder_start s)
    have hstep := h.step (hok e he)
    rw [(Machine.step_of_mem_trace he).1] at hstep
    exact hstep
  rcases hinOrder with ⟨hrunning, log, reply, due, h⟩ | ⟨-, h⟩
  · refine h.serializable (hcomplete.resolve_left ?_)
    rw [hrunning]
    exact Bool.true_eq_false_eq_False
  · exact h

/-! ### Two lookups -/

/-- The row of a registration under `a`. -/
def sampleRow : Row :=
  (Utils.payload (Utils.sampleTransfer (text "a") (text "f"))).row Utils.sampleNow

/-- The server after that registration. -/
def sampleRegistered : Server := { Server.fresh with table := Server.fresh.table.upsert sampleRow }

/-- A lookup of the row that is there. -/
def sampleLookup : Job where
  call := { request := { method := .get, target := text "/lookup/a" } }
  route := .lookup (text "a")
  routed := by decide +kernel

/-- The second lookup begins when the first one has closed its transaction, and not been answered
yet. -/
theorem interleaving_serializable_sample :
    (Machine.final (Pool.step Utils.samplePlatform fun _ : Fin 2 => sampleLookup)
        (Pool.start sampleRegistered) [0, 0, 0, 1, 0, 1, 1, 1]).Serializable Utils.samplePlatform
      (fun _ => sampleLookup) sampleRegistered := by
  refine interleaving_serializable Utils.samplePlatform _ _ _ ?_ (Or.inr ?_)
  · simp only [Machine.trace_cons, Machine.trace_nil, List.forall_mem_cons]
    exact ⟨fun _ _ => rfl, fun _ => trivial, fun _ => trivial, fun _ _ => rfl, fun _ => trivial,
      fun _ => trivial, fun _ => trivial, fun _ => trivial, List.forall_mem_nil _⟩
  · exact Fin.forall_fin_two.mpr ⟨⟨_, rfl⟩, ⟨_, rfl⟩⟩

/-- The second of two lookups of a registered id finds the transaction of the first one open, and
fails. -/
theorem lookups_collide :
    let P := Machine.final (Pool.step Utils.samplePlatform fun _ : Fin 2 => sampleLookup)
      (Pool.start sampleRegistered) [0, 1, 1, 0, 0, 0]
    P.Complete ∧ (P.threads 0).sent = [{ status := 200, body := text "True" }] ∧
      (P.threads 1).sent = [{ status := 500, body := text "Error Status: 500" }] ∧
      ¬ P.Serializable Utils.samplePlatform (fun _ => sampleLookup) sampleRegistered := by
  intro P
  refine ⟨Or.inr (Fin.forall_fin_two.mpr ⟨⟨_, rfl⟩, ⟨_, rfl⟩⟩), by decide +kernel,
    by decide +kernel, fun h => ?_⟩
  have hanswer := h.lookup (o := 1) rfl (by decide +kernel) (fun _ _ => rfl) (by decide +kernel)
  exact absurd hanswer (by decide +kernel)

/-- A registration that ends the process: its document is the empty object. -/
def sampleEnding : Job where
  call := { request := { method := .post, target := text "/register", body := text "\x7b\x7d" } }
  route := .register
  routed := by decide +kernel

/-- A registration of which nothing is stored: its transaction cannot be opened. -/
def sampleFailing : Job where
  call := { request := sampleEnding.call.request, faults := fun k => k == 0 }
  route := .register
  routed := by decide +kernel

-- A lookup that has closed its transaction and a registration that stores nothing are under way.
example :
    let jobs := ![sampleLookup, sampleFailing, sampleEnding]
    let P := Machine.final (Pool.step Utils.samplePlatform jobs) (Pool.start sampleRegistered)
      [0, 0, 0, 1, 2]
    P.Undisturbed Utils.samplePlatform jobs 2 := by
  intro jobs P
  change ∀ o, o ≠ 2 → P.Active o → (jobs o).Inert Utils.samplePlatform
  rintro ⟨_ | _ | _ | k, hk⟩ hne _
  · exact Job.inert_of_lookup _ rfl
  · exact Job.inert_of_register rfl rfl
  · exact absurd rfl hne
  · exact absurd hk (by omega)

/-- A request for the file that is registered under `a`. -/
def sampleGetfile : Job where
  call := { request := { method := .get, target := text "/getfile/a" } }
  route := .getfile (text "a")
  routed := by decide +kernel

/-- The registration of a file under `a`. -/
def sampleRegistration : Job where
  call := Utils.sampleCall (Utils.sampleTransfer (text "a") (text "f"))
  route := .register
  routed := by decide +kernel

-- A row that is registered between the transactions of a `/getfile` is marked, and not returned.
example :
    let P := Machine.final (Pool.step Utils.samplePlatform ![sampleGetfile, sampleRegistration])
      (Pool.start .fresh) [0, 0, 0, 1, 1, 1, 1, 1, 0, 0, 0, 0, 0, 0]
    (P.threads 0).sent = [{ status := 200 }] ∧ (P.threads 1).sent = [{ status := 201 }] ∧
      (P.table.row (text "a")).map Row.claimed = some (some true) := by
  decide +kernel

end Zapshare
