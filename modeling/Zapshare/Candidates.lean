import Zapshare.Download
import Zapshare.Missing

/-!
# The ports a receiver tries

`run_client_session` takes the addresses of the sender from the metadata and tries them in two
places: `build_peer_candidates` for the hellos, and `perform_udp_hole_punch` for the packets in
front of them. Each of them makes 16 bits of a port that was read into 32, and `std::stoi` read the
local one, if it was packed.

## Main results

* `transferMetadataFromJson_yields_iff` — the documents that are read
* `Written.of_ok` — a port that is written properly is the one that is tried
* `ports_exact_iff` — the documents of which no port is changed on the way
-/

namespace Zapshare

open Wire

/-! ### From the metadata to the handshake -/

/-- `build_peer_candidates`. The parameter is `asio::ip::make_address`, which throws for what is no
address. -/
def buildPeerCandidates (makeAddress : Bytes → Option Bytes) (t : Transfers) :
    Except Fault (List Endpoint) := do
  let address ← orThrow (makeAddress t.senderIp)
  let peer : Endpoint := { address, port := t.senderPort.toUInt16 }
  if t.senderLocalIp ≠ [] ∧ t.senderLocalPort ≠ 0 then
    let localAddress ← orThrow (makeAddress t.senderLocalIp)
    return [peer, { address := localAddress, port := t.senderLocalPort.toUInt16 }]
  else return [peer]

namespace Utils

/-- The candidates of `perform_udp_hole_punch`; `none` when `make_address` throws, which is
caught. -/
def punchCandidates (makeAddress : Bytes → Option Bytes) (peerEndpoint : PublicEndpoint) :
    Option (List Endpoint) := do
  let address ← makeAddress peerEndpoint.ip
  let peer : Endpoint := { address, port := peerEndpoint.port }
  if peerEndpoint.localIp ≠ [] ∧ peerEndpoint.localPort ≠ 0 then
    let localAddress ← makeAddress peerEndpoint.localIp
    return [peer, { address := localAddress, port := peerEndpoint.localPort }]
  else return [peer]

/-- The datagrams `perform_udp_hole_punch` sends: five rounds over the candidates. -/
def performUdpHolePunch (makeAddress : Bytes → Option Bytes) (peerEndpoint : PublicEndpoint) :
    List Datagram :=
  let candidates := (punchCandidates makeAddress peerEndpoint).getD []
  (List.range 5).flatMap fun _ => candidates.map fun endpoint => ⟨endpoint, text "PUNCH"⟩

end Utils

open Utils

/-- `sender_ep`. -/
def senderEp (t : Transfers) : PublicEndpoint where
  ip := t.senderIp
  port := t.senderPort.toUInt16
  localIp := t.senderLocalIp
  localPort := t.senderLocalPort.toUInt16

/-- What `run_client_session` calls `perform_handshake` with, if it gets there with this answer of
the server. -/
def handshakeArguments (platform : Platform) (makeAddress : Bytes → Option Bytes) (data : Json) :
    Except Fault (List Endpoint × PublicEndpoint) := do
  let t ← transferMetadataFromJson platform data
  let peers ← buildPeerCandidates makeAddress t
  return (peers, senderEp t)

/-! ### The documents that are read -/

/-- Nothing goes wrong. -/
def Passed (data : Json) : List Check → Prop
  | [] => True
  | .field f :: checks => data.Reads f ∧ Passed data checks
  | .holds P :: checks => P data ∧ Passed data checks

section Yields

variable {α β : Type} {convert : Json → Except Fault α} {kind : Json.Kind} {name : Bytes}
  {data : Json} {r : Except Fault α} {f : α → Except Fault β} {b : β}

theorem bind_eq_ok : (r >>= f) = .ok b ↔ ∃ a, r = .ok a ∧ f a = .ok b := by
  cases r with
  | ok a => exact ⟨fun h => ⟨a, rfl, h⟩, by rintro ⟨_, ⟨⟩, h⟩; exact h⟩
  | error e => exact iff_of_false (fun h => nomatch h) (by rintro ⟨_, ⟨⟩, -⟩)

theorem bind_yields_iff {P Q : Prop} (hr : (∃ a, r = .ok a) ↔ P)
    (hf : ∀ a, r = .ok a → ((∃ b, f a = .ok b) ↔ Q)) :
    (∃ b, (r >>= f) = .ok b) ↔ P ∧ Q := by
  simp only [bind_eq_ok]
  constructor
  · rintro ⟨b, a, ha, hb⟩
    exact ⟨hr.mp ⟨a, ha⟩, (hf a ha).mp ⟨b, hb⟩⟩
  · rintro ⟨hP, hQ⟩
    obtain ⟨a, ha⟩ := hr.mpr hP
    obtain ⟨b, hb⟩ := (hf a ha).mpr hQ
    exact ⟨b, a, ha, hb⟩

theorem read_yields_iff (hc : Json.Converts convert kind) :
    (∃ a, data.read convert name = .ok a) ↔ data.Reads ⟨name, kind⟩ := by
  rcases Json.read_cases hc name data with ⟨hlacks, h⟩ | ⟨hreads, a, h⟩ | ⟨-, hno, h⟩
  · rw [h]
    refine iff_of_false (by simp) ?_
    rintro ⟨v, hv, -⟩
    simp [hlacks.2] at hv
  · exact iff_of_true ⟨a, h⟩ hreads
  · rw [h]
    exact iff_of_false (by simp) hno

/-- A read and what follows it. -/
theorem read_bind_yields_iff (hc : Json.Converts convert kind) {Q : Prop}
    (hf : ∀ a, data.read convert name = .ok a → ((∃ b, f a = .ok b) ↔ Q)) :
    (∃ b, (data.read convert name >>= f) = .ok b) ↔ data.Reads ⟨name, kind⟩ ∧ Q :=
  bind_yields_iff (read_yields_iff hc) hf

end Yields

/-- **The documents that are read.** -/
theorem transferMetadataFromJson_yields_iff (platform : Platform) (data : Json) :
    (∃ t, transferMetadataFromJson platform data = .ok t) ↔ Passed data metadataChecks := by
  have hstring := Json.converts_toStdString
  have huint32 := Json.converts_toUInt32 platform
  refine read_bind_yields_iff hstring fun id _ => ?_
  refine read_bind_yields_iff hstring fun rawIp hraw => ?_
  have hfind := find_of_read_string hraw
  have hpacked (rawIp' : Bytes) :
      data.find (text "sender_ip") = some (.string rawIp') ↔ rawIp' = rawIp := by
    rw [hfind]
    constructor
    · rintro ⟨⟩
      rfl
    · rintro rfl
      rfl
  refine bind_yields_iff ?_ fun a ha => ?_
  · simp only [Unpacks, hpacked, exists_and_left, exists_eq_left]
  refine read_bind_yields_iff huint32 fun senderPort _ => ?_
  refine bind_yields_iff ?_ fun b _ => ?_
  · rw [(localAddress_cases platform data a.2.1 a.2.2).2, LocalReads]
    simp only [hpacked, exists_and_left, exists_eq_left, ha, Except.ok.injEq, exists_eq_left']
  refine read_bind_yields_iff hstring fun protocol _ => ?_
  refine read_bind_yields_iff hstring fun fileName _ => ?_
  refine read_bind_yields_iff (Json.converts_toSize platform) fun fileSize _ => ?_
  refine read_bind_yields_iff hstring fun fileHash _ => ?_
  refine read_bind_yields_iff hstring fun token _ => ?_
  exact iff_of_true ⟨_, rfl⟩ trivial

/-- What was read on the way to the ports. -/
theorem transferMetadataFromJson_ok {platform : Platform} {data : Json} {t : Transfers}
    (h : transferMetadataFromJson platform data = .ok t) :
    ∃ rawIp a, data.find (text "sender_ip") = some (.string rawIp) ∧
      unpackSenderIp rawIp = .ok a ∧
      data.read (Json.toUInt32 platform) (text "sender_port") = .ok t.senderPort ∧
      localAddress platform data a.2.1 a.2.2 = .ok (t.senderLocalIp, t.senderLocalPort) := by
  simp only [transferMetadataFromJson, bind_eq_ok] at h
  obtain ⟨id, -, rawIp, hraw, a, ha, senderPort, hport, b, hlocal, _, -, _, -, _, -, _, -, _, -,
    hresult⟩ := h
  cases hresult
  exact ⟨rawIp, a, find_of_read_string hraw, ha, hport, hlocal⟩

/-! ### The ports as they are written -/

/-- The local address in a packed `sender_ip`, and the text of its port, if there is one. -/
def packedLocal (rawIp : Bytes) : Bytes × Option Bytes :=
  match splitFirst 59 rawIp with
  | none => ([], none)
  | some (_, localPart) =>
    match splitFirst 58 localPart with
    | none => (localPart, none)
    | some (localIp, port) => (localIp, some port)

/-- The document writes these two ports, as numbers below 65536: the public one as an integer, the
local one in decimal behind the packed address, or as an integer where no address is packed. The
port is `DEFAULT_PORT` where an address is packed without one, and zero where there is nothing. -/
structure Written (data : Json) (rawIp : Bytes) (port localPort : UInt16) : Prop where
  senderIp : data.find (text "sender_ip") = some (.string rawIp)
  senderPort : data.find (text "sender_port") = some (.number port.toNat)
  packed : ∀ s, (packedLocal rawIp).2 = some s → s = decimal localPort.toNat
  default : (packedLocal rawIp).1 ≠ [] → (packedLocal rawIp).2 = none →
    localPort = defaultPort.toUInt16
  field : (packedLocal rawIp).1 = [] →
    data.find (text "sender_local_port") = some (.number localPort.toNat) ∨
      data.find (text "sender_local_port") = none ∧ localPort = 0

/-- The document writes its ports properly. -/
def WritesPorts (data : Json) : Prop := ∃ rawIp port localPort, Written data rawIp port localPort

theorem uint32_ofInt_toUInt16 (n : UInt16) : UInt32.ofInt (n.toNat : ℤ) = n.toUInt32 := by
  rw [← Json.uint32_ofInt_toNat n.toUInt32, UInt16.toNat_toUInt32]

theorem unpackSenderIp_packedLocal {rawIp : Bytes} {a : Bytes × Bytes × UInt32}
    (h : unpackSenderIp rawIp = .ok a) :
    a.2.1 = (packedLocal rawIp).1 ∧
      ((packedLocal rawIp).1 ≠ [] → (packedLocal rawIp).2 = none → a.2.2 = defaultPort) ∧
      ∀ s, (packedLocal rawIp).2 = some s → ∃ n, stoi s = some n ∧
        a.2.2 = UInt32.ofInt n.toInt := by
  cases hsemicolon : splitFirst 59 rawIp with
  | none =>
    simp only [unpackSenderIp, packedLocal, hsemicolon, Except.ok.injEq] at h ⊢
    subst h
    refine ⟨rfl, fun hne => absurd rfl hne, ?_⟩
    rintro s ⟨⟩
  | some p =>
    cases hcolon : splitFirst 58 p.2 with
    | none =>
      simp only [unpackSenderIp, packedLocal, hsemicolon, hcolon, Except.ok.injEq] at h ⊢
      subst h
      refine ⟨rfl, fun _ _ => rfl, ?_⟩
      rintro s ⟨⟩
    | some q =>
      simp only [unpackSenderIp, packedLocal, hsemicolon, hcolon] at h ⊢
      cases hn : stoi q.2 with
      | none =>
        rw [hn] at h
        cases h
      | some n =>
        rw [hn] at h
        cases h
        refine ⟨rfl, ?_, ?_⟩
        · intro _ hnone
          cases hnone
        · rintro s ⟨⟩
          exact ⟨n, hn, rfl⟩

variable {platform : Platform} {data : Json} {rawIp : Bytes} {port localPort : UInt16}
  {t : Transfers}

/-- **A port that is written properly is the one that is read.** -/
theorem Written.of_ok (h : Written data rawIp port localPort)
    (hok : transferMetadataFromJson platform data = .ok t) :
    t.senderPort = port.toUInt32 ∧ t.senderLocalPort = localPort.toUInt32 := by
  obtain ⟨rawIp', a, hraw, hunpack, hport, hlocal⟩ := transferMetadataFromJson_ok hok
  obtain rfl : rawIp = rawIp' := by
    have heq := h.senderIp.symm.trans hraw
    simpa using heq
  obtain ⟨hip, hdefault, htext⟩ := unpackSenderIp_packedLocal hunpack
  constructor
  · rw [Json.read_of_find h.senderPort, Json.toUInt32, uint32_ofInt_toUInt16] at hport
    exact (Except.ok.inj hport).symm
  · rw [localAddress, hip] at hlocal
    split at hlocal
    · rename_i hnil
      simp only [localFields, bind_eq_ok] at hlocal
      obtain ⟨localIp, -, port', hread, hresult⟩ := hlocal
      have hport' : t.senderLocalPort = port' := (congrArg Prod.snd (Except.ok.inj hresult)).symm
      rw [hport']
      rcases h.field hnil with hfield | ⟨hnone, rfl⟩
      · rw [Json.readOr, Json.contains, hfield, Option.isSome_some, if_pos rfl,
          Json.read_of_find hfield, Json.toUInt32, uint32_ofInt_toUInt16] at hread
        exact (Except.ok.inj hread).symm
      · rw [Json.readOr, Json.contains, hnone] at hread
        exact (Except.ok.inj hread).symm
    · rename_i hne
      have hvalue : t.senderLocalPort = a.2.2 := (congrArg Prod.snd (Except.ok.inj hlocal)).symm
      rw [hvalue]
      cases hpacked : (packedLocal rawIp).2 with
      | none =>
        rw [hdefault hne hpacked, h.default hne hpacked]
        rfl
      | some s =>
        have hlt : localPort.toNat < 2 ^ 31 := by
          have := localPort.toNat_lt
          omega
        obtain ⟨n, hn, hnumber⟩ := htext s hpacked
        rw [h.packed s hpacked, stoi_decimal hlt] at hn
        cases hn
        rw [hnumber, Int32.toInt_ofNat_of_lt hlt, uint32_ofInt_toUInt16]

/-! ### The candidates -/

/-- The ports of the candidates, in order. -/
theorem punchCandidates_ports {makeAddress : Bytes → Option Bytes} {ep : PublicEndpoint}
    {peers : List Endpoint} (h : punchCandidates makeAddress ep = some peers) :
    peers.map Endpoint.port = [ep.port] ∨ peers.map Endpoint.port = [ep.port, ep.localPort] := by
  rw [punchCandidates] at h
  obtain ⟨address, -, h⟩ := Option.bind_eq_some_iff.mp h
  split at h
  · obtain ⟨localAddress, -, h⟩ := Option.bind_eq_some_iff.mp h
    cases h
    exact Or.inr rfl
  · cases h
    exact Or.inl rfl

/-- Where 16 bits are enough for the local port, both functions try the same endpoints. -/
theorem buildPeerCandidates_eq (makeAddress : Bytes → Option Bytes)
    (h : t.senderLocalPort ≠ 0 ↔ (senderEp t).localPort ≠ 0) :
    buildPeerCandidates makeAddress t = orThrow (punchCandidates makeAddress (senderEp t)) := by
  rw [buildPeerCandidates, punchCandidates]
  simp only [h]
  change orThrow (makeAddress t.senderIp) >>= _ = orThrow (makeAddress t.senderIp >>= _)
  cases makeAddress t.senderIp with
  | none => rfl
  | some address =>
    change (if t.senderLocalIp ≠ [] ∧ (senderEp t).localPort ≠ 0 then _ else _)
      = orThrow (if t.senderLocalIp ≠ [] ∧ (senderEp t).localPort ≠ 0 then _ else _)
    split
    · change orThrow (makeAddress t.senderLocalIp) >>= _
        = orThrow (makeAddress t.senderLocalIp >>= _)
      cases makeAddress t.senderLocalIp <;> rfl
    · rfl

theorem orThrow_eq_ok {α : Type} {o : Option α} {a : α} : orThrow o = .ok a ↔ o = some a := by
  cases o <;> simp [orThrow]

/-- The endpoints `perform_handshake` is called with have the ports that are written in the
document, and the hellos go where the packets in front of them do. Where a port is not written
properly, `transfer_metadata_from_json` throws. -/
def PortsExact (platform : Platform) (makeAddress : Bytes → Option Bytes) (data : Json) : Prop :=
  (∀ peers ep, handshakeArguments platform makeAddress data = .ok (peers, ep) →
    (∃ rawIp, Written data rawIp ep.port ep.localPort) ∧
      (peers.map Endpoint.port = [ep.port] ∨ peers.map Endpoint.port = [ep.port, ep.localPort]) ∧
      punchCandidates makeAddress ep = some peers) ∧
  (¬ WritesPorts data → transferMetadataFromJson platform data = .error .thrown)

/-- **Ports that are written properly arrive.** -/
theorem Written.of_handshakeArguments (h : Written data rawIp port localPort)
    {makeAddress : Bytes → Option Bytes} {peers : List Endpoint} {ep : PublicEndpoint}
    (hok : handshakeArguments platform makeAddress data = .ok (peers, ep)) :
    ep.port = port ∧ ep.localPort = localPort ∧ punchCandidates makeAddress ep = some peers := by
  simp only [handshakeArguments, bind_eq_ok] at hok
  obtain ⟨t, ht, peers', hpeers, hresult⟩ := hok
  cases hresult
  obtain ⟨hport, hlocal⟩ := h.of_ok ht
  have hsender : (senderEp t).port = port := by
    rw [senderEp, hport, UInt16.toUInt16_toUInt32]
  have hsenderLocal : (senderEp t).localPort = localPort := by
    rw [senderEp, hlocal, UInt16.toUInt16_toUInt32]
  have hzero : t.senderLocalPort ≠ 0 ↔ (senderEp t).localPort ≠ 0 := by
    rw [hsenderLocal, hlocal, Ne, Ne, ← UInt32.toNat_inj, ← UInt16.toNat_inj,
      UInt16.toNat_toUInt32]
    rfl
  rw [buildPeerCandidates_eq makeAddress hzero, orThrow_eq_ok] at hpeers
  exact ⟨hsender, hsenderLocal, hpeers⟩

/-- **Ports.** They are taken exactly, or are refused, if the document writes them properly, or if
something else in it throws: a member that cannot be read, or a packed port that is no number, and
no member that is absent before. -/
theorem ports_exact_iff (platform : Platform) (makeAddress : Bytes → Option Bytes) (data : Json) :
    PortsExact platform makeAddress data ↔
      WritesPorts data ∨ ¬ Passed data metadataChecks ∧ ¬ Missing data metadataChecks := by
  rw [← transferMetadataFromJson_yields_iff platform,
    ← transferMetadataFromJson_aborts_iff platform]
  constructor
  · rintro ⟨-, hthrows⟩
    by_cases hwritten : WritesPorts data
    · exact Or.inl hwritten
    · right
      rw [hthrows hwritten]
      simp
  · rintro (⟨rawIp, port, localPort, hwritten⟩ | ⟨hread, hmissing⟩)
    · refine ⟨?_, fun hnot => absurd ⟨rawIp, port, localPort, hwritten⟩ hnot⟩
      intro peers ep hok
      obtain ⟨rfl, rfl, hpunch⟩ := hwritten.of_handshakeArguments hok
      exact ⟨⟨rawIp, hwritten⟩, punchCandidates_ports hpunch, hpunch⟩
    · constructor
      · intro peers ep hok
        simp only [handshakeArguments, bind_eq_ok] at hok
        obtain ⟨t, ht, -⟩ := hok
        exact absurd ⟨t, ht⟩ hread
      · intro _
        cases h : transferMetadataFromJson platform data with
        | ok t => exact absurd ⟨t, h⟩ hread
        | error e =>
          cases e with
          | thrown => rfl
          | aborted => exact absurd h hmissing

/-- The metadata of a sender at port 70000, whose local port is 65536. -/
def sampleWidePorts : Json :=
  .object
    [(text "id", .string (text "a")),
      (text "sender_ip", .string (text "203.0.113.5;192.168.1.2: 65536x")),
      (text "sender_port", .number 70000),
      (text "protocol", .string (text "udp")),
      (text "file_name", .string (text "f")),
      (text "file_size", .number 1),
      (text "file_hash", .string (text "6e340b9cffb37a98")),
      (text "token", .string (text "a"))]

/-- The two addresses of the sample. -/
def sampleMakeAddress (s : Bytes) : Option Bytes :=
  if s = text "203.0.113.5" then some [203, 0, 113, 5]
  else if s = text "192.168.1.2" then some [192, 168, 1, 2]
  else none

/-- It is read without complaint; the hellos go to two ports that are not those, and the packets in
front of them to one. -/
theorem ports_cut_off :
    let ep : PublicEndpoint := ⟨text "203.0.113.5", 4464, text "192.168.1.2", 0⟩
    handshakeArguments samplePlatform sampleMakeAddress sampleWidePorts
        = .ok ([⟨[203, 0, 113, 5], 4464⟩, ⟨[192, 168, 1, 2], 0⟩], ep) ∧
      punchCandidates sampleMakeAddress ep = some [⟨[203, 0, 113, 5], 4464⟩] ∧
      ¬ PortsExact samplePlatform sampleMakeAddress sampleWidePorts := by
  intro ep
  have hread : handshakeArguments samplePlatform sampleMakeAddress sampleWidePorts
      = .ok ([⟨[203, 0, 113, 5], 4464⟩, ⟨[192, 168, 1, 2], 0⟩], ep) := by
    rfl
  have hpunch : punchCandidates sampleMakeAddress ep = some [⟨[203, 0, 113, 5], 4464⟩] := by
    rfl
  refine ⟨hread, hpunch, ?_⟩
  rintro ⟨hexact, -⟩
  have hsame := (hexact _ _ hread).2.2
  rw [hpunch] at hsame
  simp at hsame

end Zapshare
