import Zapshare.Lib.Path
import Zapshare.Survival

/-!
# Where a download is written

`zapshare get` in `main.cpp`, and `run_client_session` in `client.cpp` as far as the output file is
concerned: the name it is opened by is the one in the metadata, as whoever registered the transfer
wrote it. What happens on the network is not part of this; the central server is.

## Main results

* `getTransferMetadata_again` — the metadata is asked for twice, and is returned twice
* `download_in_directory_iff` — the names that stay in the working directory
* `registered_name_escapes` — not all that can be registered do
-/

namespace Zapshare

open Wire

namespace Utils

/-- `PublicEndpoint`. -/
structure PublicEndpoint where
  ip : Bytes
  port : UInt16
  localIp : Bytes
  localPort : UInt16

/-- The document that `signal_receiver_endpoint` posts. -/
def endpointToJson (endpoint : PublicEndpoint) : Json :=
  .object
    [(text "public_ip", .string endpoint.ip),
      (text "public_port", .number endpoint.port.toNat),
      (text "local_ip", .string endpoint.localIp),
      (text "local_port", .number endpoint.localPort.toNat)]

/-- The request of `signal_receiver_endpoint`, and what the server makes of it; `none` when `dump`
throws. Its answer is written to the log only. -/
def signalReceiverEndpoint (platform : Platform) (s : Server) (id : Bytes)
    (endpoint : PublicEndpoint) : Option Server :=
  (platform.dump (endpointToJson endpoint)).map fun body =>
    (s.step platform
      (.call { request := Http.postRequest platform (text "/signal/" ++ id) body })).1

end Utils

open Utils

/-! ### `zapshare get` -/

/-- What a download meets on its way: which operations on the database throw in its requests, what
is asked of the server by others in between, and what the network does. -/
structure Surroundings where
  lookUpFaults : ℕ → Bool := fun _ => false
  beforeMetadata : List ServerEvent := []
  metadataFaults : ℕ → Bool := fun _ => false
  /-- `get_public_endpoint_for_socket`; `none` when it throws. -/
  endpoint : Option PublicEndpoint
  beforeSession : List ServerEvent := []
  sessionFaults : ℕ → Bool := fun _ => false
  /-- `build_peer_candidates` and `perform_handshake`: who has answered. -/
  connectedPeer : Transfers → Option Endpoint

/-- `c_str`, as a file is opened by: a name ends at the first null character. -/
def cString (s : Bytes) : Bytes := s.takeWhile (· ≠ 0)

/-- The first request for the metadata, which comes after the look-up; and the server after it. -/
def peerTransfer (platform : Platform) (s : Server) (env : Surroundings) (secret : Bytes) :
    Server × Option Transfers :=
  let found := lookUp platform s env.lookUpFaults secret
  if found.2 then
    let server := Machine.final (Server.step platform) found.1 env.beforeMetadata
    let t := getTransferMetadata platform server env.metadataFaults secret
    (t.1, t.2.toOption)
  else (found.1, none)

/-- `run_client_session`: the path it opens for output, if it opens one. -/
def runClientSession (platform : Platform) (s : Server) (env : Surroundings)
    (token outputFilename : Bytes) : Option Bytes := do
  let myEp ← env.endpoint
  let server ← signalReceiverEndpoint platform s token myEp
  let server := Machine.final (Server.step platform) server env.beforeSession
  let t ← (getTransferMetadata platform server env.sessionFaults token).2.toOption
  let _ ← env.connectedPeer t
  -- `receive_file` opens the file before it does anything else
  return cString outputFilename

/-- `zapshare get`: the path that is opened for output, if one is. -/
def get (platform : Platform) (s : Server) (env : Surroundings) (secret : Bytes) :
    Option Bytes := do
  let peer := peerTransfer platform s env secret
  let t ← peer.2
  runClientSession platform peer.1 env secret t.fileName

/-! ### Asking twice -/

variable {platform : Platform} {s s' : Server} {secret : Bytes} {faults : ℕ → Bool}

/-- What is posted to `/signal` leaves the table, and the server running. -/
theorem signalReceiverEndpoint_table {endpoint : PublicEndpoint}
    (h : signalReceiverEndpoint platform s secret endpoint = some s') :
    s'.table = s.table ∧ s'.running = s.running := by
  obtain ⟨body, -, rfl⟩ := Option.map_eq_some_iff.mp h
  obtain ⟨rest, hpath⟩ := Http.exists_requestPath_append platform
    (@Http.isPlain_of_all (text "/signal/") (by decide)) secret
  cases hrunning : s.running with
  | false => simp [Server.step, hrunning]
  | true =>
    let call : Call := { request := Http.postRequest platform (text "/signal/" ++ secret) body }
    rcases @Server.routed_of_signal call.request rest rfl hpath with hroute | ⟨id, hroute⟩
    · obtain ⟨answers, hstep, -⟩ := @Server.step_not_routed platform call hroute
      rw [hstep s hrunning]
      exact ⟨rfl, hrunning⟩
    · have hstep := @Server.step_routed platform s call hrunning _ hroute
      rw [hstep]
      exact ⟨rfl, hrunning⟩

/-- A request for a file is answered as before, if the table and the process are what the first
answer left. -/
theorem step_getfile_again {call : Call} (hgetfile : Server.IsGetfile call.request secret)
    (htable : s'.table = (s.step platform (.call call)).1.table)
    (hrunning : s'.running = (s.step platform (.call call)).1.running) :
    (s'.step platform (.call call)).2 = (s.step platform (.call call)).2 := by
  cases hs : s.running with
  | false =>
    have hs' : s'.running = false := by rw [hrunning]; simp [Server.step, hs]
    simp [Server.step, hs, hs']
  | true =>
    rcases Server.routed_of_isGetfile hgetfile with hroute | hroute
    · obtain ⟨answers, hstep, -⟩ := @Server.step_not_routed platform call hroute
      have hs' : s'.running = true := by rw [hrunning, hstep s hs, hs]
      rw [hstep s hs, hstep s' hs']
    · rcases @Server.step_getfile platform s call hs secret hroute with
        ⟨body, hclear, hbody, h⟩ | ⟨table, hwhy, hor, h⟩
      · have hs' : s'.running = true := by rw [hrunning, h]; exact hs
        have hbody' : (s'.table.row secret).bind (Server.fileBody platform) = some body := by
          rw [htable, h, Server.bind_fileBody_markClaimed, hbody]
        rcases @Server.step_getfile platform s' call hs' secret hroute with
          ⟨body', -, hbody'', h'⟩ | ⟨table, hwhy, -, -⟩
        · rw [hbody'] at hbody''
          cases hbody''
          rw [h, h']
        · rw [hbody'] at hwhy
          exact absurd hclear (hwhy.resolve_right (by simp))
      · have hs' : s'.running = true := by rw [hrunning, h]; exact hs
        have hbody' : (s'.table.row secret).bind (Server.fileBody platform)
            = (s.table.row secret).bind (Server.fileBody platform) := by
          rw [htable, h]
          rcases hor with rfl | rfl
          · rfl
          · exact Server.bind_fileBody_markClaimed platform s.table secret
        rcases @Server.step_getfile platform s' call hs' secret hroute with
          ⟨body', hclear, hbody'', -⟩ | ⟨table, -, -, h'⟩
        · rw [hbody'] at hbody''
          rw [hbody''] at hwhy
          exact absurd hclear (hwhy.resolve_right (by simp))
        · rw [h, h']

/-- **The metadata is returned again**, unless the table has changed in the meantime. -/
theorem getTransferMetadata_again
    (htable : s'.table = (getTransferMetadata platform s faults secret).1.table)
    (hrunning : s'.running = (getTransferMetadata platform s faults secret).1.running) :
    (getTransferMetadata platform s' faults secret).2
      = (getTransferMetadata platform s faults secret).2 := by
  obtain ⟨rest, hpath⟩ := Http.exists_requestPath_append platform
    (@Http.isPlain_of_all (text "/getfile/") (by decide)) secret
  have hgetfile : Server.IsGetfile (getCall platform faults (text "/getfile/" ++ secret)).request
      rest := ⟨rfl, hpath⟩
  simp only [getTransferMetadata, clientGet, step_getfile_again hgetfile htable hrunning]

/-! ### The name that is opened -/

/-- A path is that of an entry of the working directory, wherever that is. -/
def InWorkingDirectory (path : Bytes) : Prop :=
  Path.IsName path ∧ ∀ cwd, Path.resolve cwd path = cwd ++ [path]

theorem inWorkingDirectory_iff {path : Bytes} : InWorkingDirectory path ↔ Path.IsName path :=
  ⟨And.left, fun h => ⟨h, fun _ => Path.resolve_of_isName h⟩⟩

/-- What is opened is the name in the metadata. -/
theorem get_eq_some {env : Surroundings} {t : Transfers} {path : Bytes}
    (ht : (peerTransfer platform s env secret).2 = some t)
    (h : get platform s env secret = some path) : path = cString t.fileName := by
  rw [get, ht] at h
  simp only [runClientSession, Option.bind_eq_bind, Option.bind_eq_some_iff, Option.pure_def,
    Option.some.injEq] at h
  obtain ⟨t', rfl, -, -, -, -, -, -, -, -, hpath⟩ := h
  exact hpath.symm

/-- The surroundings in which the first metadata is returned, the server is left alone, and the
peer answers. -/
def Surroundings.connecting (env : Surroundings) (endpoint : PublicEndpoint) (peer : Endpoint) :
    Surroundings :=
  { env with
    endpoint := some endpoint
    beforeSession := []
    sessionFaults := env.metadataFaults
    connectedPeer := fun _ => some peer }

/-- What the first request for the metadata returned, the server returned. -/
theorem peerTransfer_eq_some {env : Surroundings} {t : Transfers}
    (ht : (peerTransfer platform s env secret).2 = some t) :
    ∃ server, (peerTransfer platform s env secret).1
        = (getTransferMetadata platform server env.metadataFaults secret).1 ∧
      (getTransferMetadata platform server env.metadataFaults secret).2 = .ok t := by
  rw [peerTransfer] at ht ⊢
  split at ht
  · rename_i hfound
    refine ⟨_, by rw [if_pos hfound], ?_⟩
    cases hmetadata : (getTransferMetadata platform
      (Machine.final (Server.step platform) (lookUp platform s env.lookUpFaults secret).1
        env.beforeMetadata) env.metadataFaults secret).2 with
    | ok t' =>
      simp only [hmetadata, Except.toOption, Option.some.injEq] at ht
      rw [ht]
    | error e => simp [hmetadata, Except.toOption] at ht
  · cases ht

/-- In these surroundings the download gets as far as the output file. -/
theorem get_connecting (hplatform : platform.Documented) {env : Surroundings} {t : Transfers}
    (ht : (peerTransfer platform s env secret).2 = some t) (peer : Endpoint) :
    get platform s (env.connecting ⟨[], 0, [], 0⟩ peer) secret = some (cString t.fileName) := by
  have hpeer : peerTransfer platform s (env.connecting ⟨[], 0, [], 0⟩ peer) secret
      = peerTransfer platform s env secret := rfl
  have hflat : (endpointToJson ⟨[], 0, [], 0⟩).Flat = true := by decide
  obtain ⟨body, -, hdump, -⟩ := hplatform.parse_dump _ hflat
  obtain ⟨server, hserver, hmetadata⟩ := peerTransfer_eq_some ht
  obtain ⟨s', hs'⟩ : ∃ s', signalReceiverEndpoint platform (peerTransfer platform s env secret).1
      secret ⟨[], 0, [], 0⟩ = some s' := ⟨_, by rw [signalReceiverEndpoint, hdump]; rfl⟩
  obtain ⟨htable, hrunning⟩ := signalReceiverEndpoint_table hs'
  rw [hserver] at htable hrunning
  have hagain := (getTransferMetadata_again htable hrunning).trans hmetadata
  rw [get, hpeer, ht]
  simp only [runClientSession, Surroundings.connecting, Option.bind_eq_bind, Option.bind_some, hs',
    Machine.final_nil, hagain, Except.toOption, Option.pure_def]

/-- **The names that stay in the working directory.** For metadata that the server returns for a
secret, no download opens anything but an entry of the working directory if and only if the name in
it is one, up to the first null character. -/
theorem download_in_directory_iff (hplatform : platform.Documented) {t : Transfers}
    (hreturned : ∃ env, (peerTransfer platform s env secret).2 = some t) :
    (∀ env path, (peerTransfer platform s env secret).2 = some t →
      get platform s env secret = some path → InWorkingDirectory path)
      ↔ Path.IsName (cString t.fileName) := by
  constructor
  · intro h
    obtain ⟨env, ht⟩ := hreturned
    exact (h (env.connecting ⟨[], 0, [], 0⟩ samplePeer) _ ht
      (get_connecting hplatform ht samplePeer)).1
  · intro hname env path ht hget
    rw [get_eq_some ht hget, inWorkingDirectory_iff]
    exact hname

/-! ### What anybody can register -/

/-- The surroundings in which nothing goes wrong until the metadata is there. -/
def Surroundings.quiet : Surroundings := { endpoint := none, connectedPeer := fun _ => none }

/-- Whatever name was registered last, it is the one in the metadata. -/
theorem peerTransfer_of_registered (hplatform : platform.Documented) {t : Transfers}
    (ht : Storable t) (hid : Server.Routable t.id) {events : List ServerEvent}
    (hlast : LastRegistered platform s events t)
    (hrunning : (Machine.final (Server.step platform) s events).running = true) :
    (peerTransfer platform (Machine.final (Server.step platform) s events) .quiet t.id).2
      = some t := by
  have hfields := hasFields_final hplatform ht hlast
  have hfound := @lookUp_of_hasFields platform t _ hid hrunning hfields (fun _ => false)
    fun _ _ => rfl
  have hmetadata := @getTransferMetadata_of_hasFields platform t _ hplatform ht hid hrunning hfields
    (fun _ => false) fun _ _ => rfl
  simp only [peerTransfer, Surroundings.quiet, hfound, if_true, Machine.final_nil, hmetadata]
  rfl

/-- The server after somebody has registered a name that leads out of the directory. -/
def escapingServer : Server :=
  Machine.final (Server.step samplePlatform) .fresh
    [.call (sampleCall (sampleTransfer (text "a") (text "../f")))]

theorem peerTransfer_escapingServer :
    (peerTransfer samplePlatform escapingServer .quiet (text "a")).2
      = some (sampleTransfer (text "a") (text "../f")) := by
  have ht : Storable (sampleTransfer (text "a") (text "../f")) :=
    storable_sampleTransfer (by decide) (by decide)
  obtain ⟨hlast, hrunning⟩ := final_sample ht (registerTransfer_sample (_, _) (by decide))
  exact peerTransfer_of_registered samplePlatform_documented ht routable_sample hlast hrunning

theorem download_in_directory_iff_sample :
    (∀ env path, (peerTransfer samplePlatform escapingServer env (text "a")).2
        = some (sampleTransfer (text "a") (text "../f")) →
      get samplePlatform escapingServer env (text "a") = some path → InWorkingDirectory path)
      ↔ Path.IsName (cString (text "../f")) :=
  download_in_directory_iff samplePlatform_documented ⟨_, peerTransfer_escapingServer⟩

/-- A download of what was registered as `../f` opens it, one directory up. -/
theorem registered_name_escapes :
    get samplePlatform escapingServer (Surroundings.quiet.connecting ⟨[], 0, [], 0⟩ samplePeer)
        (text "a") = some (text "../f") ∧
      ¬ InWorkingDirectory (text "../f") ∧
      Path.resolve [text "home", text "downloads"] (text "../f") = [text "home", text "f"] := by
  refine ⟨get_connecting samplePlatform_documented peerTransfer_escapingServer samplePeer, ?_,
    by decide⟩
  rw [inWorkingDirectory_iff]
  decide

end Zapshare
