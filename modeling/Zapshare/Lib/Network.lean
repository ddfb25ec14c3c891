import Mathlib.Data.List.InsertIdx
import Zapshare.Lib.Machine

/-!
# Two parties and a network

A server that reacts to messages, a client that reacts to messages and to timeouts, and a network
that carries the messages of each to the other. There are two networks. The *pool* keeps everything
that was ever sent and delivers any of it at any time, so it delays, drops, reorders and duplicates.
The *queues* lose nothing and keep the order, but for the copies they make.

A run of either is a run of a machine, and what it outputs is what the server sends.

## Main results

* `Network.Refinement.pool`, `Network.Refinement.fifo` — where the parties of one system refine
  those of another one by one, the systems do, over either network
-/

namespace Network

open Machine

variable {σ τ μ ν : Type*}

/-- A server that reacts to messages, and a client that reacts to messages and to timeouts. -/
structure Parties (σ τ μ ν : Type*) where
  server : σ → μ → σ × List ν
  client : τ → ν → τ × List μ
  timeout : τ → τ × List μ

/-- The states of the parties, and the messages on their way up to the server and down to the
client. -/
structure World (σ τ μ ν : Type*) where
  server : σ
  client : τ
  up : List μ
  down : List ν
  deriving DecidableEq, Repr

namespace Parties

variable (P : Parties σ τ μ ν)

/-- The server receives `m`, and `up` stays on its way. -/
def serve (w : World σ τ μ ν) (m : μ) (up : List μ) : World σ τ μ ν × List ν :=
  ({ w with
      server := (P.server w.server m).1
      up := up
      down := w.down ++ (P.server w.server m).2 },
    (P.server w.server m).2)

/-- The client receives `x`, and `down` stays on its way. -/
def receive (w : World σ τ μ ν) (x : ν) (down : List ν) : World σ τ μ ν × List ν :=
  ({ w with
      client := (P.client w.client x).1
      up := w.up ++ (P.client w.client x).2
      down := down },
    [])

/-- Nothing arrived at the client in time. -/
def expire (w : World σ τ μ ν) : World σ τ μ ν × List ν :=
  ({ w with client := (P.timeout w.client).1, up := w.up ++ (P.timeout w.client).2 }, [])

end Parties

/-- An event of the pool: the `i`-th message that was sent one way arrives, once more perhaps, or
the client times out. -/
inductive PoolEvent
  | up (i : ℕ)
  | down (i : ℕ)
  | timeout
  deriving DecidableEq, Repr

/-- The network that may do anything but forge. -/
def Parties.pool (P : Parties σ τ μ ν) (w : World σ τ μ ν) : PoolEvent → World σ τ μ ν × List ν
  | .up i =>
    match w.up[i]? with
    | none => (w, [])
    | some m => P.serve w m w.up
  | .down i =>
    match w.down[i]? with
    | none => (w, [])
    | some x => P.receive w x w.down
  | .timeout => P.expire w

/-- An event of the queues: the first message one way arrives, the client times out, or a copy of
the `i`-th message is put at place `j`. -/
inductive FifoEvent
  | up
  | down
  | timeout
  | copyUp (i j : ℕ)
  | copyDown (i j : ℕ)
  deriving DecidableEq, Repr

/-- The network that loses nothing and keeps the order. -/
def Parties.fifo (P : Parties σ τ μ ν) (w : World σ τ μ ν) : FifoEvent → World σ τ μ ν × List ν
  | .up =>
    match w.up with
    | [] => (w, [])
    | m :: rest => P.serve w m rest
  | .down =>
    match w.down with
    | [] => (w, [])
    | x :: rest => P.receive w x rest
  | .timeout => P.expire w
  | .copyUp i j =>
    match w.up[i]? with
    | none => (w, [])
    | some m => ({ w with up := w.up.insertIdx j m }, [])
  | .copyDown i j =>
    match w.down[i]? with
    | none => (w, [])
    | some x => ({ w with down := w.down.insertIdx j x }, [])

/-! ### The pool, step by step -/

variable {P : Parties σ τ μ ν} {w : World σ τ μ ν}

/-- **What an event of the pool does**: nothing, or it delivers a message, or the client times
out. -/
theorem pool_cases (P : Parties σ τ μ ν) (w : World σ τ μ ν) (e : PoolEvent) :
    P.pool w e = (w, []) ∨ (∃ m ∈ w.up, P.pool w e = P.serve w m w.up) ∨
      (∃ x ∈ w.down, P.pool w e = P.receive w x w.down) ∨
      (e = .timeout ∧ P.pool w e = P.expire w) := by
  cases e with
  | up i =>
    rcases hm : w.up[i]? with _ | m
    · exact Or.inl (by simp only [Parties.pool, hm])
    · exact Or.inr (Or.inl ⟨m, List.mem_of_getElem? hm, by simp only [Parties.pool, hm]⟩)
  | down i =>
    rcases hx : w.down[i]? with _ | x
    · exact Or.inl (by simp only [Parties.pool, hx])
    · exact Or.inr (Or.inr (Or.inl ⟨x, List.mem_of_getElem? hx, by simp only [Parties.pool, hx]⟩))
  | timeout => exact Or.inr (Or.inr (Or.inr ⟨rfl, rfl⟩))

/-! ### The queues, step by step -/

/-- What the server sends is on its way then. -/
theorem mem_down_of_mem_fifo {e : FifoEvent} {x : ν} (hx : x ∈ (P.fifo w e).2) :
    x ∈ (P.fifo w e).1.down := by
  cases e with
  | up =>
    rcases hup : w.up with _ | ⟨m, rest⟩ <;> simp only [Parties.fifo, hup] at hx ⊢
    · exact absurd hx List.not_mem_nil
    · exact List.mem_append_right _ hx
  | down =>
    rcases hdown : w.down with _ | ⟨y, rest⟩ <;> simp only [Parties.fifo, hdown] at hx
    · exact absurd hx List.not_mem_nil
    · exact absurd hx List.not_mem_nil
  | timeout => exact absurd hx List.not_mem_nil
  | copyUp i j =>
    simp only [Parties.fifo] at hx
    split at hx <;> exact absurd hx List.not_mem_nil
  | copyDown i j =>
    simp only [Parties.fifo] at hx
    split at hx <;> exact absurd hx List.not_mem_nil

/-! ### Refinement, party by party -/

variable {σ' τ' μ' ν' : Type*}

/-- Each party of `P` does what its counterpart in `Q` does, seen through four maps, as long as the
states and the messages satisfy four predicates. -/
structure Refinement (P : Parties σ τ μ ν) (Q : Parties σ' τ' μ' ν') where
  server : σ → σ'
  client : τ → τ'
  up : μ → μ'
  down : ν → ν'
  Server : σ → Prop
  Client : τ → Prop
  Up : μ → Prop
  Down : ν → Prop
  server_spec : ∀ s m, Server s → Up m →
    Server (P.server s m).1 ∧ (∀ x ∈ (P.server s m).2, Down x) ∧
      Q.server (server s) (up m) = (server (P.server s m).1, (P.server s m).2.map down)
  client_spec : ∀ t x, Client t → Down x →
    Client (P.client t x).1 ∧ (∀ m ∈ (P.client t x).2, Up m) ∧
      Q.client (client t) (down x) = (client (P.client t x).1, (P.client t x).2.map up)
  timeout_spec : ∀ t, Client t →
    Client (P.timeout t).1 ∧ (∀ m ∈ (P.timeout t).2, Up m) ∧
      Q.timeout (client t) = (client (P.timeout t).1, (P.timeout t).2.map up)

namespace Refinement

variable {Q : Parties σ' τ' μ' ν'} (R : Refinement P Q)

/-- A world, seen through the maps. -/
def world (w : World σ τ μ ν) : World σ' τ' μ' ν' :=
  ⟨R.server w.server, R.client w.client, w.up.map R.up, w.down.map R.down⟩

/-- The four predicates. -/
structure Holds (w : World σ τ μ ν) : Prop where
  server : R.Server w.server
  client : R.Client w.client
  up : ∀ m ∈ w.up, R.Up m
  down : ∀ x ∈ w.down, R.Down x

variable {R}

theorem serve_spec (h : R.Holds w) {m : μ} {up : List μ} (hm : R.Up m) (hup : ∀ m ∈ up, R.Up m) :
    R.Holds (P.serve w m up).1 ∧ Q.serve (R.world w) (R.up m) (up.map R.up)
      = (R.world (P.serve w m up).1, (P.serve w m up).2.map R.down) := by
  obtain ⟨hserver, hdown, heq⟩ := R.server_spec w.server m h.server hm
  refine ⟨⟨hserver, h.client, hup, fun x hx => ?_⟩, ?_⟩
  · rcases List.mem_append.mp hx with hx | hx
    · exact h.down x hx
    · exact hdown x hx
  · simp only [Parties.serve, world, heq, List.map_append]

theorem receive_spec (h : R.Holds w) {x : ν} {down : List ν} (hx : R.Down x)
    (hdown : ∀ x ∈ down, R.Down x) :
    R.Holds (P.receive w x down).1 ∧ Q.receive (R.world w) (R.down x) (down.map R.down)
      = (R.world (P.receive w x down).1, (P.receive w x down).2.map R.down) := by
  obtain ⟨hclient, hup, heq⟩ := R.client_spec w.client x h.client hx
  refine ⟨⟨h.server, hclient, fun m hm => ?_, hdown⟩, ?_⟩
  · rcases List.mem_append.mp hm with hm | hm
    · exact h.up m hm
    · exact hup m hm
  · simp only [Parties.receive, world, heq, List.map_append, List.map_nil]

theorem expire_spec (h : R.Holds w) :
    R.Holds (P.expire w).1 ∧ Q.expire (R.world w)
      = (R.world (P.expire w).1, (P.expire w).2.map R.down) := by
  obtain ⟨hclient, hup, heq⟩ := R.timeout_spec w.client h.client
  refine ⟨⟨h.server, hclient, fun m hm => ?_, h.down⟩, ?_⟩
  · rcases List.mem_append.mp hm with hm | hm
    · exact h.up m hm
    · exact hup m hm
  · simp only [Parties.expire, world, heq, List.map_append, List.map_nil]

/-- **Over the pool.** -/
theorem pool (R : Refinement P Q) : Refines P.pool Q.pool R.world R.down R.Holds := by
  intro w e h
  cases e with
  | up i =>
    rcases hm : w.up[i]? with _ | m
    · simp only [Parties.pool, world, List.getElem?_map, hm, Option.map_none]
      exact ⟨h, rfl⟩
    · have hspec := serve_spec h (h.up m (List.mem_of_getElem? hm)) h.up
      simp only [Parties.pool, world, List.getElem?_map, hm, Option.map_some]
      exact hspec
  | down i =>
    rcases hx : w.down[i]? with _ | x
    · simp only [Parties.pool, world, List.getElem?_map, hx, Option.map_none]
      exact ⟨h, rfl⟩
    · have hspec := receive_spec h (h.down x (List.mem_of_getElem? hx)) h.down
      simp only [Parties.pool, world, List.getElem?_map, hx, Option.map_some]
      exact hspec
  | timeout => exact expire_spec h

/-- **Over the queues.** -/
theorem fifo (R : Refinement P Q) : Refines P.fifo Q.fifo R.world R.down R.Holds := by
  intro w e h
  cases e with
  | up =>
    rcases hup : w.up with _ | ⟨m, rest⟩
    · simp only [Parties.fifo, world, hup, List.map_nil]
      exact ⟨h, trivial⟩
    · have hm := h.up
      rw [hup] at hm
      have hspec := serve_spec h (hm m List.mem_cons_self) fun m' hm' =>
        hm m' (List.mem_cons_of_mem m hm')
      simp only [Parties.fifo, hup, world, List.map_cons] at hspec ⊢
      simp only [Parties.serve] at hspec ⊢
      exact hspec
  | down =>
    rcases hdown : w.down with _ | ⟨x, rest⟩
    · simp only [Parties.fifo, world, hdown, List.map_nil]
      exact ⟨h, trivial⟩
    · have hx := h.down
      rw [hdown] at hx
      have hspec := receive_spec h (hx x List.mem_cons_self) fun x' hx' =>
        hx x' (List.mem_cons_of_mem x hx')
      simp only [Parties.fifo, hdown, world, List.map_cons] at hspec ⊢
      simp only [Parties.receive] at hspec ⊢
      exact hspec
  | timeout => exact expire_spec h
  | copyUp i j =>
    rcases hm : w.up[i]? with _ | m
    · simp only [Parties.fifo, world, List.getElem?_map, hm, Option.map_none]
      exact ⟨h, rfl⟩
    · simp only [Parties.fifo, world, List.getElem?_map, hm, Option.map_some, List.map_nil]
      refine ⟨⟨h.server, h.client, fun m' hm' => ?_, h.down⟩, ?_⟩
      · rcases List.eq_or_mem_of_mem_insertIdx hm' with rfl | hm'
        · exact h.up m' (List.mem_of_getElem? hm)
        · exact h.up m' hm'
      · rw [List.map_insertIdx]
  | copyDown i j =>
    rcases hx : w.down[i]? with _ | x
    · simp only [Parties.fifo, world, List.getElem?_map, hx, Option.map_none]
      exact ⟨h, rfl⟩
    · simp only [Parties.fifo, world, List.getElem?_map, hx, Option.map_some, List.map_nil]
      refine ⟨⟨h.server, h.client, h.up, fun x' hx' => ?_⟩, ?_⟩
      · rcases List.eq_or_mem_of_mem_insertIdx hx' with rfl | hx'
        · exact h.down x' (List.mem_of_getElem? hx)
        · exact h.down x' hx'
      · rw [List.map_insertIdx]

/-- What the server sends in a run over the queues. -/
theorem outputs_fifo (R : Refinement P Q) (h : R.Holds w) (es : List FifoEvent) :
    ∀ x ∈ outputs P.fifo w es, R.Down x := by
  induction es generalizing w with
  | nil => simp
  | cons e es ih =>
    intro x hx
    have hnext : R.Holds (P.fifo w e).1 := (R.fifo w e h).1
    rw [outputs_cons] at hx
    rcases List.mem_append.mp hx with hx | hx
    · exact hnext.down x (mem_down_of_mem_fifo hx)
    · exact ih hnext x hx

end Refinement

end Network
