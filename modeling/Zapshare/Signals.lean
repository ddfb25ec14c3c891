import Zapshare.Candidates
import Zapshare.Chunking
import Zapshare.Lib.Cell

/-!
# How the sender finds the receiver

The receiver posts its endpoints to `/signal/<id>`, and the sender asks there once a second, thirty
times. The server keeps what was posted in memory. Anybody may post there, the server may end and be
started again, and requests of all kinds may come in between.

## Main results

* `Server.signals_final_iff` — a signal is what was posted last since the server was started
* `signal_answered` — and that is what a request for it is answered with
* `pollForSignal_eq_some_iff` — the sender takes the first answer that it can read
* `sender_meets_receiver` — if nobody else posts there, the sender gets what the receiver has sent
-/

namespace Zapshare

open Wire Machine Utils

/-! ### Reading a signal -/

namespace Json

/-- `get<uint16_t>()`; the parameter is the `static_cast` of a `double`. -/
def toUInt16 (cast : UInt64 → UInt16) : Json → Except Fault UInt16
  | number i => .ok (UInt16.ofInt i)
  | floating bits => .ok (cast bits)
  | boolean b => .ok (if b then 1 else 0)
  | _ => .error .thrown

/-- `operator[](key)` of a document that is not constant: what is absent becomes a `null`, and so no
assertion fails. -/
def index (data : Json) (key : Bytes) : Except Fault Json :=
  match data with
  | object members => .ok ((members.lookup key).getD null)
  | null => .ok null
  | _ => .error .thrown

theorem index_of_find {data v : Json} {key : Bytes} (h : data.find key = some v) :
    data.index key = .ok v := by
  cases data with
  | object members =>
    rw [find] at h
    rw [index, h, Option.getD_some]
  | _ => cases h

theorem index_string {data : Json} {key s : Bytes} (h : data.find key = some (.string s)) :
    (data.index key >>= toStdString) = .ok s := by
  rw [index_of_find h]
  rfl

theorem uint16_ofInt_toNat (n : UInt16) : UInt16.ofInt (n.toNat : ℤ) = n := by
  have h : (n.toNat : ℤ) % 2 ^ 16 = n.toNat := by
    have := n.toNat_lt
    omega
  rw [UInt16.ofInt, h]
  simp

theorem index_uint16 {cast : UInt64 → UInt16} {data : Json} {key : Bytes} {n : UInt16}
    (h : data.find key = some (.number n.toNat)) :
    (data.index key >>= toUInt16 cast) = .ok n := by
  rw [index_of_find h]
  exact congrArg Except.ok (uint16_ofInt_toNat n)

end Json

namespace Utils

/-- The endpoint in a signal. -/
def endpointFromJson (cast : UInt64 → UInt16) (data : Json) : Except Fault PublicEndpoint := do
  let ip ← data.index (text "public_ip") >>= Json.toStdString
  let port ← data.index (text "public_port") >>= Json.toUInt16 cast
  let localIp ←
    if data.contains (text "local_ip") then data.index (text "local_ip") >>= Json.toStdString
    else .ok []
  let localPort ←
    if data.contains (text "local_port") then
      data.index (text "local_port") >>= Json.toUInt16 cast
    else .ok 0
  return { ip, port, localIp, localPort }

/-- What `poll_for_signal` makes of an answer. Whatever is thrown on the way is caught. -/
def readSignal (platform : Platform) (cast : UInt64 → UInt16) :
    Option Response → Option PublicEndpoint
  | some res =>
    if res.status = 200 then do
      let data ← platform.parse res.body
      (endpointFromJson cast data).toOption
    else none
  | none => none

/-- **An endpoint is read back from what was written**, in whatever order its members come. -/
theorem endpointFromJson_of_find {cast : UInt64 → UInt16} {data : Json} {endpoint : PublicEndpoint}
    (h : ∀ key, data.find key = (endpointToJson endpoint).find key) :
    endpointFromJson cast data = .ok endpoint := by
  have hip : data.find (text "public_ip") = some (.string endpoint.ip) := h _
  have hport : data.find (text "public_port") = some (.number endpoint.port.toNat) := h _
  have hlocalIp : data.find (text "local_ip") = some (.string endpoint.localIp) := h _
  have hlocalPort : data.find (text "local_port") = some (.number endpoint.localPort.toNat) := h _
  simp only [endpointFromJson, Json.contains, Json.index_string hip, Json.index_uint16 hport,
    Json.index_string hlocalIp, Json.index_uint16 hlocalPort, hlocalIp, hlocalPort,
    Option.isSome_some, if_true]
  rfl

end Utils

variable {endpoint : PublicEndpoint}

theorem flat_endpointToJson (hip : utf8Valid endpoint.ip = true)
    (hlocalIp : utf8Valid endpoint.localIp = true) : (endpointToJson endpoint).Flat = true := by
  have hport (n : UInt16) : (Json.number n.toNat).Plain = true := by
    have := n.toNat_lt
    simp only [Json.Plain, Bool.and_eq_true, decide_eq_true_eq]
    omega
  have hkeys : ∀ key ∈ [text "public_ip", text "public_port", text "local_ip", text "local_port"],
      utf8Valid key = true := by
    decide
  simp only [List.forall_mem_cons] at hkeys
  simp only [endpointToJson, Json.flat_object_cons, Json.flat_object_nil, Json.plain_string,
    hkeys.1, hkeys.2.1, hkeys.2.2.1, hkeys.2.2.2.1, hip, hlocalIp, hport, and_self]

/-- The request carries the endpoint. -/
def Announces (platform : Platform) (endpoint : PublicEndpoint) (call : Call) : Prop :=
  platform.dump (endpointToJson endpoint) = some call.request.body

/-- An object of scalars is read back as one. -/
def Platform.KeepsFlat (platform : Platform) : Prop :=
  ∀ data body data', data.Flat = true → platform.dump data = some body →
    platform.parse body = some data' → data'.Flat = true

/-! ### The signals of the server -/

namespace Server

variable {platform : Platform} {s : Server} {call : Call} {id : Bytes}

/-- A request that posts this under the id. -/
def Posts (platform : Platform) (id : Bytes) (call : Call) (data : Json) : Prop :=
  routed call.request = some (.postSignal id) ∧ platform.parse call.request.body = some data

/-- What an event puts under the id. -/
def posted (platform : Platform) (id : Bytes) (s : Server) : ServerEvent → Option (Option Json)
  | .restart => some none
  | .call call =>
    if s.running ∧ routed call.request = some (.postSignal id) then
      (platform.parse call.request.body).map some
    else none

/-- A request that is not posted to a signal leaves all of them. -/
theorem step_signals (h : ∀ id, routed call.request ≠ some (.postSignal id)) :
    (s.step platform (.call call)).1.signals = s.signals := by
  cases hrunning : s.running with
  | false => simp [step, hrunning]
  | true =>
    cases hroute : routed call.request with
    | none =>
      obtain ⟨answers, hstep, -⟩ := @step_not_routed platform call hroute
      rw [hstep s hrunning]
    | some handler =>
      rw [step_routed hrunning hroute]
      cases handler with
      | postSignal id => exact absurd hroute (h id)
      | _ => rfl

theorem step_postSignal (hrunning : s.running = true)
    (hroute : routed call.request = some (.postSignal id)) :
    (s.step platform (.call call)).1.signals =
      match platform.parse call.request.body with
      | some data => fun id' => if id' = id then some data else s.signals id'
      | none => s.signals := by
  rw [step_routed hrunning hroute, dispatch, postSignalHandler]
  cases platform.parse call.request.body <;> rfl

/-- **The signal under an id** is a cell of the server. -/
def signal (platform : Platform) (id : Bytes) : Cell (step platform) (Option Json) where
  read s := s.signals id
  write s e := posted platform id s e
  read_step s e := by
    cases e with
    | restart => rfl
    | call call =>
      by_cases hpost : ∃ id', routed call.request = some (.postSignal id')
      · obtain ⟨id', hroute⟩ := hpost
        cases hrunning : s.running with
        | false => simp [step, posted, hrunning]
        | true =>
          simp only [step_postSignal hrunning hroute, posted, hrunning, hroute, true_and,
            Option.some.injEq, Route.postSignal.injEq]
          by_cases hid : id' = id
          · subst hid
            cases platform.parse call.request.body <;> simp
          · have hne : ¬ id = id' := fun heq => hid heq.symm
            cases platform.parse call.request.body <;> simp [hid, hne]
      · have hnone (id' : Bytes) : routed call.request ≠ some (.postSignal id') :=
          fun hroute => hpost ⟨id', hroute⟩
        simp [step_signals hnone, posted, hnone id]

/-- The document was posted under the id in this run, and since then the server was neither started
again nor sent another one. -/
def LastPosted (platform : Platform) (id : Bytes) (s : Server) (events : List ServerEvent)
    (data : Json) : Prop :=
  ∃ before call after, events = before ++ .call call :: after ∧
    (final (step platform) s before).running = true ∧ Posts platform id call data ∧
    ∀ e ∈ trace (step platform) (step platform (final (step platform) s before) (.call call)).1
      after, e.input ≠ .restart ∧ ∀ call' data', e.input = .call call' → e.before.running = true →
        ¬ Posts platform id call' data'

theorem posted_eq_some_iff {e : ServerEvent} {data : Json} :
    posted platform id s e = some (some data) ↔
      ∃ call, e = .call call ∧ s.running = true ∧ Posts platform id call data := by
  cases e with
  | restart => simp [posted]
  | call call =>
    simp only [posted, Posts]
    split
    · rename_i h
      simp [h.1, h.2]
    · rename_i h
      refine iff_of_false (by simp) ?_
      rintro ⟨call', heq, hrunning, hroute, -⟩
      obtain rfl := ServerEvent.call.inj heq
      exact h ⟨hrunning, hroute⟩

theorem posted_eq_none_iff {e : ServerEvent} :
    posted platform id s e = none ↔
      e ≠ .restart ∧ ∀ call data, e = .call call → s.running = true →
        ¬ Posts platform id call data := by
  cases e with
  | restart => simp [posted]
  | call call =>
    simp only [posted, Posts]
    split
    · rename_i h
      rw [Option.map_eq_none_iff, Option.eq_none_iff_forall_ne_some]
      constructor
      · intro hnone
        refine ⟨by simp, ?_⟩
        rintro call' data heq - ⟨-, hparse⟩
        obtain rfl := ServerEvent.call.inj heq
        exact hnone data hparse
      · rintro ⟨-, hnone⟩ data hparse
        exact hnone call data rfl h.1 ⟨h.2, hparse⟩
    · rename_i h
      refine iff_of_true rfl ⟨by simp, ?_⟩
      rintro call' data heq hrunning ⟨hroute, -⟩
      obtain rfl := ServerEvent.call.inj heq
      exact h ⟨hrunning, hroute⟩

/-- **A signal is what was posted last**, since the server was started. -/
theorem signals_final_iff {events : List ServerEvent} {data : Json} :
    (final (step platform) .fresh events).signals id = some data ↔
      LastPosted platform id .fresh events data := by
  have hread : (final (step platform) .fresh events).signals id
      = ((signal platform id).lastWrite .fresh events).getD none :=
    (signal platform id).read_final
  have hsome : (final (step platform) .fresh events).signals id = some data ↔
      (signal platform id).lastWrite .fresh events = some (some data) := by
    rw [hread]
    cases (signal platform id).lastWrite .fresh events <;> simp
  rw [hsome, Cell.lastWrite_eq_some_iff, LastPosted]
  constructor
  · rintro ⟨before, e, after, rfl, hwrite, hafter⟩
    obtain ⟨call, rfl, hrunning, hposts⟩ := posted_eq_some_iff.mp hwrite
    refine ⟨before, call, after, rfl, hrunning, hposts, fun e he => ?_⟩
    exact posted_eq_none_iff.mp ((Cell.lastWrite_eq_none_iff _).mp hafter e he)
  · rintro ⟨before, call, after, rfl, hrunning, hposts, hafter⟩
    refine ⟨before, .call call, after, rfl, posted_eq_some_iff.mpr ⟨call, rfl, hrunning, hposts⟩,
      (Cell.lastWrite_eq_none_iff _).mpr fun e he => ?_⟩
    exact posted_eq_none_iff.mpr (hafter e he)

/-! ### Requests for a signal -/

/-- The other routes with a secret do not match a request for a signal. -/
theorem matchSecret_signal (id : Bytes) :
    matchSecret (text "/lookup/") (text "/signal/" ++ id) = none ∧
      matchSecret (text "/getfile/") (text "/signal/" ++ id) = none := by
  constructor
  · refine matchSecret_eq_none ?_
    change text "/signal/" ≠ text "/lookup/"
    decide
  · refine matchSecret_eq_none fun h => ?_
    have hstart : text "/signal/" = text "/getfile" := congrArg (List.take 8) h
    exact absurd hstart (by decide)

theorem length_signal {id : Bytes} (h : Routable id) : (text "/signal/" ++ id).length ≤ 8192 := by
  have hstart : (text "/signal/").length = 8 := by decide
  rw [List.length_append, hstart]
  exact Nat.le_trans (Nat.add_le_add_left h.length_le 8) (by decide)

theorem routed_getSignal (h : Routable id) :
    routed (Http.getRequest platform (text "/signal/" ++ id)) = some (.getSignal id) := by
  refine routed_of_isPlain (h.isPlain (Http.isPlain_of_all (by decide)))
    (List.append_ne_nil_of_left_ne_nil (by decide) id) (length_signal h)
    fun target htarget => ?_
  rw [route]
  simp only [htarget, matchSecret_append h, (matchSecret_signal id).1, (matchSecret_signal id).2]
  rfl

theorem routed_postSignal (h : Routable id) (body : Bytes) :
    routed (Http.postRequest platform (text "/signal/" ++ id) body) = some (.postSignal id) := by
  have hregister : text "/signal/" ++ id ≠ text "/register" := append_ne_of_take (by decide) id
  refine routed_of_isPlain (h.isPlain (Http.isPlain_of_all (by decide)))
    (List.append_ne_nil_of_left_ne_nil (by decide) id) (length_signal h)
    fun target htarget => ?_
  rw [route]
  simp only [htarget, matchSecret_append h, hregister, if_false, Option.map_some]

/-- A request for a signal changes nothing. -/
theorem step_getSignal (hrunning : s.running = true)
    (hroute : routed call.request = some (.getSignal id)) :
    s.step platform (.call call) = (s, respond (getSignalHandler platform id s.signals)) := by
  rw [step_routed hrunning hroute, dispatch]

end Server

/-! ### A sample signal -/

/-- The endpoint of a receiver on the same host. -/
def sampleEndpoint : PublicEndpoint := ⟨text "127.0.0.1", 4000, text "127.0.0.1", 4000⟩

theorem samplePlatform_keepsFlat : samplePlatform.KeepsFlat := by
  intro data body data' hflat hdump hparse
  obtain ⟨body', hdump', hparse'⟩ := sampleParse_sampleDump hflat
  obtain rfl : body' = body := Option.some.inj (hdump'.symm.trans hdump)
  obtain rfl : data = data' := Option.some.inj (hparse'.symm.trans hparse)
  exact hflat

/-- A receiver posts its endpoint. -/
theorem exists_sampleSignal : ∃ call data, Announces samplePlatform sampleEndpoint call ∧
    Server.Posts samplePlatform (text "a") call data := by
  obtain ⟨body, data, hdump, hparse, -⟩ := samplePlatform_documented.parse_dump
    (endpointToJson sampleEndpoint) (flat_endpointToJson (by decide) (by decide))
  exact ⟨{ request := Http.postRequest samplePlatform (text "/signal/" ++ text "a") body }, data,
    hdump, Server.routed_postSignal routable_sample body, hparse⟩

/-! ### What is answered -/

/-- **What a request for a signal is answered with**, in every run of the server: the document that
was posted last under the id since the server was started, 500 if it cannot be written, and 404 if
there is none. -/
theorem signal_answered {platform : Platform} {id : Bytes} {call : Call}
    (hroute : Server.routed call.request = some (.getSignal id)) {events : List ServerEvent}
    (hrunning : (final (Server.step platform) .fresh events).running = true) :
    let r := (final (Server.step platform) .fresh events).step platform (.call call)
    (∃ data, Server.LastPosted platform id .fresh events data ∧
      r.2 = match platform.dump data with
        | some body => [{ status := 200, body }]
        | none => [errorHandler { status := 500 }]) ∨
    ((∀ data, ¬ Server.LastPosted platform id .fresh events data) ∧
      r.2 = [errorHandler { status := 404 }]) := by
  intro r
  have hr : r = _ := Server.step_getSignal hrunning hroute
  have hsignals := fun data => @Server.signals_final_iff platform id events data
  rw [hr]
  cases hsignal : (final (Server.step platform) .fresh events).signals id with
  | some data =>
    refine Or.inl ⟨data, (hsignals data).mp hsignal, ?_⟩
    rw [getSignalHandler, hsignal]
    simp only
    cases platform.dump data <;> rfl
  | none =>
    refine Or.inr ⟨fun data hlast => ?_, ?_⟩
    · rw [(hsignals data).mpr hlast] at hsignal
      cases hsignal
    · rw [getSignalHandler, hsignal]
      rfl

/-- The sample signal is answered. -/
theorem signal_answered_sample : ∃ call body,
    ((final (Server.step samplePlatform) .fresh [.call call]).step samplePlatform
      (.call (getCall samplePlatform (fun _ => false) (text "/signal/" ++ text "a")))).2
      = [{ status := 200, body }] := by
  obtain ⟨call, data, hcall, hposts⟩ := exists_sampleSignal
  have hrunning : (final (Server.step samplePlatform) .fresh [.call call]).running = true := by
    rw [final_cons, final_nil, Server.step_routed rfl hposts.1]
    rfl
  have hlast : Server.LastPosted samplePlatform (text "a") .fresh [.call call] data :=
    ⟨[], call, [], rfl, rfl, hposts, fun _ h => nomatch h⟩
  have hflat := samplePlatform_keepsFlat _ _ _ (flat_endpointToJson (by decide) (by decide)) hcall
    hposts.2
  obtain ⟨body, -, hdump, -⟩ := samplePlatform_documented.parse_dump data hflat
  rcases @signal_answered samplePlatform (text "a")
      (getCall samplePlatform (fun _ => false) (text "/signal/" ++ text "a"))
      (Server.routed_getSignal routable_sample) _ hrunning with
    ⟨data', hlast', hres⟩ | ⟨hnone, -⟩
  · have hsame := (Server.signals_final_iff.mpr hlast').symm.trans
      (Server.signals_final_iff.mpr hlast)
    obtain rfl := Option.some.inj hsame
    rw [hdump] at hres
    exact ⟨call, body, hres⟩
  · exact absurd hlast (hnone data)

/-! ### `poll_for_signal` -/

/-- What the sender meets while it polls: what is asked of the server before each of its requests,
and which of these get no answer. -/
structure Polling where
  between : ℕ → List ServerEvent
  lost : ℕ → Bool := fun _ => false

/-- The loop of `poll_for_signal` from request `i` on, with `turns` requests left: the server behind
it, and the endpoint that was found. -/
def pollLoop (platform : Platform) (cast : UInt64 → UInt16) (P : Polling) (id : Bytes) :
    ℕ → ℕ → Server → Server × Option PublicEndpoint
  | 0, _, s => (s, none)
  | turns + 1, i, s =>
    let r := clientGet platform (final (Server.step platform) s (P.between i))
      (fun _ => false) (text "/signal/" ++ id)
    match readSignal platform cast (if P.lost i then none else r.2) with
    | some endpoint => (r.1, some endpoint)
    | none => pollLoop platform cast P id turns (i + 1) r.1

/-- `poll_for_signal`, which throws when it has found nothing. -/
def pollForSignal (platform : Platform) (cast : UInt64 → UInt16) (P : Polling) (id : Bytes)
    (s : Server) : Option PublicEndpoint :=
  (pollLoop platform cast P id 30 0 s).2

/-- `Server::run`: what it sends to punch the hole, and the session it makes; `none` if something is
thrown before. -/
def serverRun (platform : Platform) (cast : UInt64 → UInt16) (makeAddress : Bytes → Option Bytes)
    (P : Polling) (s : Server) (filePath transferId : Bytes) :
    Option (List Datagram × Session) := do
  let peerEp ← pollForSignal platform cast P transferId s
  let address ← makeAddress peerEp.ip
  return (performUdpHolePunch makeAddress peerEp,
    Server.run (fun _ => ⟨address, peerEp.port⟩) filePath transferId)

variable {platform : Platform} {cast : UInt64 → UInt16} {P : Polling} {s : Server} {id : Bytes}
  {endpoint : PublicEndpoint}

/-- The endpoint that can be read from a signal. -/
def Server.seen (platform : Platform) (cast : UInt64 → UInt16) (id : Bytes) (s : Server) :
    Option PublicEndpoint :=
  if s.running then do
    let data ← s.signals id
    let body ← platform.dump data
    let data ← platform.parse body
    (endpointFromJson cast data).toOption
  else none

/-- A request of the loop sees what can be read, and leaves the server as it is. -/
theorem clientGet_signal (hid : Server.Routable id) (faults : ℕ → Bool) :
    (clientGet platform s faults (text "/signal/" ++ id)).1 = s ∧
      readSignal platform cast (clientGet platform s faults (text "/signal/" ++ id)).2
        = s.seen platform cast id := by
  cases hrunning : s.running with
  | false => simp [clientGet, Server.step, Server.seen, hrunning, readSignal]
  | true =>
    have hstep := @Server.step_getSignal platform s
      (getCall platform faults (text "/signal/" ++ id)) id hrunning
      (Server.routed_getSignal hid)
    rw [clientGet, hstep]
    refine ⟨rfl, ?_⟩
    rw [Server.seen, if_pos hrunning]
    cases hsignal : s.signals id with
    | none =>
      rw [getSignalHandler, hsignal]
      rfl
    | some data =>
      rw [getSignalHandler, hsignal]
      simp only [Option.bind_eq_bind, Option.bind_some]
      cases platform.dump data <;> rfl

/-- The server that request `k` of the loop meets, from request `i` on. -/
def Polling.server (P : Polling) (platform : Platform) (s : Server) (i k : ℕ) : Server :=
  final (Server.step platform) s ((List.range (k + 1)).flatMap fun j => P.between (i + j))

theorem Polling.server_zero (i : ℕ) :
    P.server platform s i 0 = final (Server.step platform) s (P.between i) := by
  simp [server]

theorem Polling.server_succ (i k : ℕ) :
    P.server platform s i (k + 1)
      = P.server platform (final (Server.step platform) s (P.between i)) (i + 1) k := by
  rw [server, List.range_succ_eq_map, List.flatMap_cons, List.flatMap_map, final_append, server]
  simp only [Nat.add_zero, Nat.succ_eq_add_one, Nat.add_assoc, Nat.add_comm 1]

/-- What request `k` of the loop finds. -/
def Polling.found (P : Polling) (platform : Platform) (cast : UInt64 → UInt16) (id : Bytes)
    (s : Server) (i k : ℕ) : Option PublicEndpoint :=
  if P.lost (i + k) then none else (P.server platform s i k).seen platform cast id

/-- **The loop takes the first answer that it can read.** -/
theorem pollLoop_eq_some_iff (hid : Server.Routable id) (turns i : ℕ) :
    (pollLoop platform cast P id turns i s).2 = some endpoint ↔
      ∃ k < turns, P.found platform cast id s i k = some endpoint ∧
        ∀ j < k, P.found platform cast id s i j = none := by
  induction turns generalizing i s with
  | zero =>
    refine iff_of_false (by simp [pollLoop]) ?_
    rintro ⟨k, hk, -⟩
    exact Nat.not_lt_zero k hk
  | succ turns ih =>
    obtain ⟨hserver, hread⟩ := @clientGet_signal platform cast
      (final (Server.step platform) s (P.between i)) id hid fun _ => false
    have hfirst : readSignal platform cast (if P.lost i then none else
        (clientGet platform (final (Server.step platform) s (P.between i)) (fun _ => false)
          (text "/signal/" ++ id)).2) = P.found platform cast id s i 0 := by
      rw [Polling.found, Nat.add_zero, Polling.server_zero, ← hread]
      cases P.lost i <;> rfl
    have hrest (k : ℕ) : P.found platform cast id s i (k + 1)
        = P.found platform cast id (final (Server.step platform) s (P.between i)) (i + 1) k := by
      rw [Polling.found, Polling.found, Polling.server_succ, Nat.add_right_comm, Nat.add_assoc]
    rw [pollLoop]
    simp only [hfirst, hserver]
    cases hfound : P.found platform cast id s i 0 with
    | some endpoint' =>
      simp only [Option.some.injEq]
      constructor
      · rintro rfl
        exact ⟨0, Nat.succ_pos turns, hfound, fun j hj => absurd hj (Nat.not_lt_zero j)⟩
      · rintro ⟨_ | k, -, hk, hnone⟩
        · rw [hfound] at hk
          exact Option.some.inj hk
        · rw [hnone 0 (Nat.succ_pos k)] at hfound
          cases hfound
    | none =>
      simp only [ih (i + 1)]
      constructor
      · rintro ⟨k, hk, hanswer, hnone⟩
        refine ⟨k + 1, Nat.succ_lt_succ hk, (hrest k).trans hanswer, ?_⟩
        rintro (_ | j) hj
        · exact hfound
        · exact (hrest j).trans (hnone j (Nat.lt_of_succ_lt_succ hj))
      · rintro ⟨_ | k, hk, hanswer, hnone⟩
        · rw [hfound] at hanswer
          cases hanswer
        · refine ⟨k, Nat.lt_of_succ_lt_succ hk, (hrest k).symm.trans hanswer, fun j hj => ?_⟩
          exact (hrest j).symm.trans (hnone (j + 1) (Nat.succ_lt_succ hj))

theorem pollForSignal_eq_some_iff (hid : Server.Routable id) :
    pollForSignal platform cast P id s = some endpoint ↔
      ∃ k < 30, P.found platform cast id s 0 k = some endpoint ∧
        ∀ j < k, P.found platform cast id s 0 j = none :=
  pollLoop_eq_some_iff hid 30 0

/-! ### The receiver's signal -/

/-- What was asked of the server before request `k`. -/
def Polling.events (P : Polling) (k : ℕ) : List ServerEvent :=
  (List.range (k + 1)).flatMap P.between

theorem Polling.server_eq_final (k : ℕ) :
    P.server platform s 0 k = final (Server.step platform) s (P.events k) := by
  simp only [server, events, Nat.zero_add]

theorem Polling.mem_events {k : ℕ} {e : ServerEvent} :
    e ∈ P.events k ↔ ∃ i ≤ k, e ∈ P.between i := by
  simp only [events, List.mem_flatMap, List.mem_range, Nat.lt_succ_iff]

/-- **What the receiver has posted is what the sender reads.** -/
theorem seen_of_signal (hplatform : platform.Documented) (hkeeps : platform.KeepsFlat)
    (hip : utf8Valid endpoint.ip = true) (hlocalIp : utf8Valid endpoint.localIp = true)
    (hrunning : s.running = true) {data : Json} (hsignal : s.signals id = some data) {call : Call}
    (hcall : Announces platform endpoint call)
    (hparse : platform.parse call.request.body = some data) :
    s.seen platform cast id = some endpoint := by
  have hflat := flat_endpointToJson hip hlocalIp
  obtain ⟨body, data', hdump, hparse', hfind⟩ := hplatform.parse_dump _ hflat
  obtain rfl : call.request.body = body := Option.some.inj (hcall.symm.trans hdump)
  obtain rfl : data = data' := Option.some.inj (hparse.symm.trans hparse')
  -- the server writes it again
  obtain ⟨body, data', hdump', hparse', hfind'⟩ :=
    hplatform.parse_dump data (hkeeps _ _ _ hflat hdump hparse)
  have hread := @endpointFromJson_of_find cast data' endpoint fun key =>
    (hfind' key).trans (hfind key)
  simp only [Server.seen, hrunning, if_true, hsignal, hdump', hparse', hread, Except.toOption,
    Option.bind_eq_bind, Option.bind_some]

/-- A signal stays until the server is started again. -/
theorem signal_stays {events : List ServerEvent} (hsignal : s.signals id ≠ none)
    (hevents : .restart ∉ events) :
    (final (Server.step platform) s events).signals id ≠ none := by
  refine final_invariant (P := fun s : Server => s.signals id ≠ none) (Q := fun e => e ≠ .restart)
    ?_ hsignal fun e he heq => hevents (heq ▸ he)
  intro s e hs he
  have hstep := (Server.signal platform id).read_step s e
  change (s.step platform e).1.signals id = _ at hstep
  rw [hstep]
  change (Server.posted platform id s e).getD (s.signals id) ≠ none
  cases e with
  | restart => exact absurd rfl he
  | call call =>
    rw [Server.posted]
    split
    · cases platform.parse call.request.body <;> simp [hs]
    · exact hs

/-- Nobody but the receiver posts anything under the id before the last of the requests. -/
def Polling.OnlyReceiver (P : Polling) (platform : Platform) (id : Bytes)
    (endpoint : PublicEndpoint) : Prop :=
  ∀ i < 30, ∀ call data, .call call ∈ P.between i → Server.Posts platform id call data →
    Announces platform endpoint call

section OnlyReceiver

variable (hplatform : platform.Documented) (hkeeps : platform.KeepsFlat)
  (hip : utf8Valid endpoint.ip = true) (hlocalIp : utf8Valid endpoint.localIp = true)
  (honly : P.OnlyReceiver platform id endpoint)

include hplatform hkeeps hip hlocalIp honly

/-- Whatever signal there is, is the receiver's. -/
theorem seen_of_onlyReceiver {k : ℕ} (hk : k < 30)
    (hrunning : (final (Server.step platform) .fresh (P.events k)).running = true)
    (hsignal : (final (Server.step platform) .fresh (P.events k)).signals id ≠ none) :
    (final (Server.step platform) .fresh (P.events k)).seen platform cast id = some endpoint := by
  obtain ⟨data, hdata⟩ := Option.ne_none_iff_exists'.mp hsignal
  obtain ⟨before, call, after, hevents, -, hposts, -⟩ := Server.signals_final_iff.mp hdata
  obtain ⟨i, hik, hi⟩ := Polling.mem_events.mp
    (hevents ▸ List.mem_append_right before List.mem_cons_self)
  exact seen_of_signal hplatform hkeeps hip hlocalIp hrunning hdata
    (honly i (Nat.lt_of_le_of_lt hik hk) call data hi hposts) hposts.2

/-- No request finds anything else. -/
theorem found_of_onlyReceiver {k : ℕ} (hk : k < 30) {endpoint' : PublicEndpoint}
    (h : P.found platform cast id .fresh 0 k = some endpoint') : endpoint' = endpoint := by
  rw [Polling.found, Polling.server_eq_final] at h
  split at h
  · cases h
  · have hsome := h
    rw [Server.seen] at hsome
    split at hsome
    · rename_i hrunning
      simp only [Option.bind_eq_bind, Option.bind_eq_some_iff] at hsome
      obtain ⟨data, hsignal, -⟩ := hsome
      rw [seen_of_onlyReceiver hplatform hkeeps hip hlocalIp honly hk hrunning
        (by simp [hsignal])] at h
      exact (Option.some.inj h).symm
    · cases hsome

/-- Once a request finds it, it is returned. -/
theorem pollForSignal_of_found (hid : Server.Routable id) {k : ℕ} (hk : k < 30)
    (hfound : P.found platform cast id .fresh 0 k = some endpoint) :
    pollForSignal platform cast P id .fresh = some endpoint := by
  -- the first request that finds anything
  have hexists : ∃ k, P.found platform cast id .fresh 0 k ≠ none := ⟨k, by simp [hfound]⟩
  have hlt : Nat.find hexists < 30 :=
    Nat.lt_of_le_of_lt (Nat.find_min' hexists (by simp [hfound])) hk
  obtain ⟨endpoint', hfirst⟩ := Option.ne_none_iff_exists'.mp (Nat.find_spec hexists)
  obtain rfl := found_of_onlyReceiver hplatform hkeeps hip hlocalIp honly hlt hfirst
  exact (pollForSignal_eq_some_iff hid).mpr ⟨Nat.find hexists, hlt, hfirst, fun j hj =>
    not_not.mp (Nat.find_min hexists hj)⟩

end OnlyReceiver

/-- **The sender meets the receiver.** Nobody but the receiver posts anything under the id, and
otherwise the server is asked for whatever anybody likes, and may end and be started again. Then the
sender punches the hole to the receiver's endpoints and makes its session for the public one, or it
makes none. It makes one if a request is answered before which the receiver has posted, and the
server was not started again in between. -/
theorem sender_meets_receiver (hplatform : platform.Documented) (hkeeps : platform.KeepsFlat)
    (hid : Server.Routable id) (hip : utf8Valid endpoint.ip = true)
    (hlocalIp : utf8Valid endpoint.localIp = true) (honly : P.OnlyReceiver platform id endpoint)
    (makeAddress : Bytes → Option Bytes) (filePath : Bytes) :
    let r := serverRun platform cast makeAddress P .fresh filePath id
    let punches := performUdpHolePunch makeAddress endpoint
    (∀ sent session, r = some (sent, session) → ∃ address, makeAddress endpoint.ip = some address ∧
      sent = punches ∧ session = .fresh ⟨address, endpoint.port⟩ filePath) ∧
    ∀ k < 30, P.lost k = false →
      (final (Server.step platform) .fresh (P.events k)).running = true →
      (∃ before call after data, P.events k = before ++ .call call :: after ∧
        (final (Server.step platform) .fresh before).running = true ∧
        Server.Posts platform id call data ∧ .restart ∉ after) →
      ∀ address, makeAddress endpoint.ip = some address →
        r = some (punches, .fresh ⟨address, endpoint.port⟩ filePath) := by
  intro r punches
  constructor
  · intro sent session hr
    simp only [r, serverRun, Option.bind_eq_bind, Option.bind_eq_some_iff, Option.pure_def,
      Option.some.injEq, Prod.mk.injEq] at hr
    obtain ⟨endpoint', hpoll, address, haddress, rfl, rfl⟩ := hr
    obtain ⟨k, hk, hanswer, -⟩ := (pollForSignal_eq_some_iff hid).mp hpoll
    obtain rfl := found_of_onlyReceiver hplatform hkeeps hip hlocalIp honly hk hanswer
    exact ⟨address, haddress, rfl, rfl⟩
  · rintro k hk hlost hrunning ⟨before, call, after, data, hevents, hup, hposts, hafter⟩ address
      haddress
    have hsignal : (final (Server.step platform) .fresh (P.events k)).signals id ≠ none := by
      rw [hevents, final_append, final_cons]
      refine signal_stays ?_ hafter
      rw [Server.step_postSignal hup hposts.1, hposts.2]
      simp
    have hfound : P.found platform cast id .fresh 0 k = some endpoint := by
      rw [Polling.found, Nat.zero_add, hlost, Polling.server_eq_final]
      exact seen_of_onlyReceiver hplatform hkeeps hip hlocalIp honly hk hrunning hsignal
    have hpoll := pollForSignal_of_found hplatform hkeeps hip hlocalIp honly hid hk hfound
    simp only [r, serverRun, hpoll, Option.bind_eq_bind, Option.bind_some, haddress,
      Option.pure_def]
    rfl

/-- It is posted before the first request of the sender. -/
def samplePolling (call : Call) : Polling where
  between i := if i = 0 then [.call call] else []

theorem sender_meets_receiver_sample : ∃ call,
    serverRun samplePlatform (fun _ => 0) (fun _ => some [127, 0, 0, 1]) (samplePolling call) .fresh
        (text "f") (text "a")
      = some (performUdpHolePunch (fun _ => some [127, 0, 0, 1]) sampleEndpoint,
          .fresh ⟨[127, 0, 0, 1], 4000⟩ (text "f")) := by
  obtain ⟨call, data, hcall, hposts⟩ := exists_sampleSignal
  have hrunning : (final (Server.step samplePlatform) .fresh [.call call]).running = true := by
    rw [final_cons, final_nil, Server.step_routed rfl hposts.1]
    rfl
  refine ⟨call, (sender_meets_receiver (P := samplePolling call) samplePlatform_documented
    samplePlatform_keepsFlat routable_sample (by decide) (by decide) ?_ _ _).2 0 (by decide) rfl
    hrunning ⟨[], call, [], data, rfl, rfl, hposts, List.not_mem_nil⟩ _ rfl⟩
  intro i _ call' data' hcall' _
  simp only [samplePolling] at hcall'
  split at hcall'
  · obtain rfl := ServerEvent.call.inj (List.mem_singleton.mp hcall')
    exact hcall
  · cases hcall'

end Zapshare
