import Zapshare.Json.RoundTrip
import Zapshare.Signals

/-!
# The platform with the library of the repository

Elsewhere the platform's `parse` and `dump` are parameters, with what their documentation promises.
Here they are those of the `json.hpp` in the repository, and the promises are proved.

## Main results

* `Platform.UsesLibrary.documented`, `Platform.UsesLibrary.keepsFlat` — the promises
* `library_documented` — the two together
* `signal_relayed` — the server gives on every document that was posted, and never fails to
-/

namespace Zapshare

open Wire SortedMap Machine

namespace Json

variable {members : List (Bytes × Json)}

theorem forall_of_flat (h : (object members).Flat = true) :
    ∀ m ∈ members, utf8Valid m.1 = true ∧ m.2.Plain = true := by
  simpa [Flat] using h

/-- A scalar is neither an array nor an object, and is kept as it is. -/
theorem spec_of_plain {v : Json} (h : v.Plain = true) :
    v.All InRange ∧ v.All IsText ∧ stored v = v := by
  cases v with
  | string s => exact ⟨trivial, h, rfl⟩
  | number i =>
    simp only [Plain, Bool.and_eq_true, decide_eq_true_eq] at h
    exact ⟨h, trivial, rfl⟩
  | boolean b => exact ⟨trivial, trivial, rfl⟩
  | _ => cases h

theorem stored_of_flat (h : (object members).Flat = true) :
    stored (object members) = object (collect members) := by
  have hid : members.map (fun m => (m.1, stored m.2)) = members := by
    have hplain : ∀ m ∈ members, stored m.2 = m.2 := fun m hm =>
      (spec_of_plain (forall_of_flat h m hm).2).2.2
    rw [List.map_congr_left fun m hm => by rw [hplain m hm], List.map_id']
  rw [stored_object, hid]

theorem inRange_of_flat (h : (object members).Flat = true) : (object members).All InRange :=
  all_object.mpr ⟨trivial, fun m hm => (spec_of_plain (forall_of_flat h m hm).2).1⟩

theorem isText_of_flat (h : (object members).Flat = true) :
    (stored (object members)).All IsText := by
  rw [stored_of_flat h]
  exact all_object.mpr ⟨fun m hm => (forall_of_flat h m (mem_collect m hm)).1,
    fun m hm => (spec_of_plain (forall_of_flat h m (mem_collect m hm)).2).2.1⟩

/-- What is kept of an object of scalars is one. -/
theorem flat_stored {data : Json} (h : data.Flat = true) : (stored data).Flat = true := by
  cases data with
  | object members =>
    rw [stored_of_flat h]
    simpa [Flat] using fun key v hm => forall_of_flat h (key, v) (mem_collect _ hm)
  | _ => cases h

/-- An object of scalars is written, and read as what is kept of it. -/
theorem exists_dump_of_flat {doubles : Doubles} (hdoubles : doubles.Documented) {data : Json}
    (h : data.Flat = true) :
    ∃ s, dump doubles data = some s ∧ parse doubles s = some (stored data) := by
  cases data with
  | object members =>
    obtain ⟨s, hs⟩ := Option.isSome_iff_exists.mp
      ((dump_isSome_iff doubles (object members)).mpr (isText_of_flat h))
    exact ⟨s, hs, parse_dump hdoubles (inRange_of_flat h) hs⟩
  | _ => cases h

end Json

/-! ### The promises -/

/-- The platform's documents are those of the library. -/
structure Platform.UsesLibrary (platform : Platform) (doubles : Doubles) : Prop where
  parse_eq : platform.parse = Json.parse doubles
  dump_eq : platform.dump = Json.dump doubles

variable {platform : Platform} {doubles : Doubles}

theorem Platform.UsesLibrary.documented (h : platform.UsesLibrary doubles)
    (hdoubles : doubles.Documented)
    (hstore : ∀ s, utf8Valid s = true → 0 ∉ s → platform.storeText s = some s) :
    platform.Documented where
  parse_dump data hflat := by
    obtain ⟨s, hdump, hparse⟩ := Json.exists_dump_of_flat hdoubles hflat
    refine ⟨s, Json.stored data, by rw [h.dump_eq, hdump], by rw [h.parse_eq, hparse],
      fun key => ?_⟩
    cases data with
    | object members =>
      have hbeq : (List.instBEq : BEq Bytes) = instBEqOfDecidableEq := lawful_beq_subsingleton _ _
      rw [Json.stored_of_flat hflat, Json.find, Json.find, hbeq, lookup_collect]
    | _ => cases hflat
  dump_object members s hs := by
    rw [h.dump_eq, Json.dump, Json.stored_object, Json.write] at hs
    obtain ⟨e, -, rfl⟩ := Option.map_eq_some_iff.mp hs
    rfl
  storeText := hstore

theorem Platform.UsesLibrary.keepsFlat (h : platform.UsesLibrary doubles)
    (hdoubles : doubles.Documented) : platform.KeepsFlat := by
  intro data body data' hflat hdump hparse
  obtain ⟨s, hdump', hparse'⟩ := Json.exists_dump_of_flat hdoubles hflat
  rw [h.dump_eq, hdump'] at hdump
  obtain rfl := Option.some.inj hdump
  rw [h.parse_eq, hparse'] at hparse
  obtain rfl := Option.some.inj hparse
  exact Json.flat_stored hflat

/-- **The library keeps the promises** that are made for it elsewhere. -/
theorem library_documented (h : platform.UsesLibrary doubles) (hdoubles : doubles.Documented)
    (hstore : ∀ s, utf8Valid s = true → 0 ∉ s → platform.storeText s = some s) :
    platform.Documented ∧ platform.KeepsFlat :=
  ⟨h.documented hdoubles hstore, h.keepsFlat hdoubles⟩

/-- The sample platform, with the library's documents. -/
def samplePlatformOfLibrary : Platform :=
  { Utils.samplePlatform with
    parse := Json.parse Json.sampleDoubles
    dump := Json.dump Json.sampleDoubles }

theorem library_documented_sample :
    samplePlatformOfLibrary.Documented ∧ samplePlatformOfLibrary.KeepsFlat :=
  library_documented ⟨rfl, rfl⟩ Json.sampleDoubles_documented fun s hvalid hzero => by
    simp [samplePlatformOfLibrary, Utils.samplePlatform, hvalid, hzero]

/-! ### The signals -/

/-- **The server gives on every document**, in every run: a request for a signal is answered with a
text of the document that was posted last under the id since the server was started, and with 404 if
there is none. No document that the server accepts is one that it cannot write. -/
theorem signal_relayed (h : platform.UsesLibrary doubles) (hdoubles : doubles.Documented)
    {id : Bytes} {call : Call} (hroute : Server.routed call.request = some (.getSignal id))
    {events : List ServerEvent}
    (hrunning : (final (Server.step platform) .fresh events).running = true) :
    let r := (final (Server.step platform) .fresh events).step platform (.call call)
    (∃ data body, Server.LastPosted platform id .fresh events data ∧
      r.2 = [{ status := 200, body }] ∧ platform.parse body = some data) ∨
    ((∀ data, ¬ Server.LastPosted platform id .fresh events data) ∧
      r.2 = [errorHandler { status := 404 }]) := by
  intro r
  have hr : r = _ := Server.step_getSignal hrunning hroute
  have hsignals := fun data => @Server.signals_final_iff platform id events data
  rw [hr]
  cases hsignal : (final (Server.step platform) .fresh events).signals id with
  | some data =>
    have hlast := (hsignals data).mp hsignal
    obtain ⟨-, call', -, -, -, ⟨-, hposted⟩, -⟩ := hlast
    rw [h.parse_eq] at hposted
    -- what was read when it was posted can be written now
    obtain ⟨body, hdump, hparse⟩ := Json.dump_of_parse hdoubles hposted
    refine Or.inl ⟨data, body, (hsignals data).mp hsignal, ?_, by rw [h.parse_eq, hparse]⟩
    rw [getSignalHandler, hsignal]
    simp only [h.dump_eq, hdump]
    rfl
  | none =>
    refine Or.inr ⟨fun data hlast => ?_, ?_⟩
    · rw [(hsignals data).mpr hlast] at hsignal
      cases hsignal
    · rw [getSignalHandler, hsignal]
      rfl

/-- A document is posted, and given on. -/
theorem signal_relayed_sample : ∃ call body,
    ((final (Server.step samplePlatformOfLibrary) .fresh [.call call]).step samplePlatformOfLibrary
      (.call (Utils.getCall samplePlatformOfLibrary (fun _ => false)
        (text "/signal/" ++ text "a")))).2 = [{ status := 200, body }] := by
  obtain ⟨s, hs⟩ : ∃ s, Json.dump Json.sampleDoubles Json.sampleDocument = some s :=
    Option.isSome_iff_exists.mp (by decide +kernel)
  have hparse := Json.parse_dump Json.sampleDoubles_documented Json.sampleDocument_inRange hs
  let call : Call :=
    { request := Http.postRequest samplePlatformOfLibrary (text "/signal/" ++ text "a") s }
  have hposts : Server.Posts samplePlatformOfLibrary (text "a") call
      (Json.stored Json.sampleDocument) :=
    ⟨Server.routed_postSignal Utils.routable_sample s, hparse⟩
  have hrunning : (final (Server.step samplePlatformOfLibrary) .fresh [.call call]).running
      = true := by
    rw [final_cons, final_nil, Server.step_routed rfl hposts.1]
    rfl
  have hlast : Server.LastPosted samplePlatformOfLibrary (text "a") .fresh [.call call]
      (Json.stored Json.sampleDocument) :=
    ⟨[], call, [], rfl, rfl, hposts, fun _ he => absurd he List.not_mem_nil⟩
  rcases @signal_relayed samplePlatformOfLibrary Json.sampleDoubles ⟨rfl, rfl⟩
      Json.sampleDoubles_documented (text "a")
      (Utils.getCall samplePlatformOfLibrary (fun _ => false) (text "/signal/" ++ text "a"))
      (Server.routed_getSignal Utils.routable_sample) _ hrunning with
    ⟨-, body, -, hres, -⟩ | ⟨hnone, -⟩
  · exact ⟨call, body, hres⟩
  · exact absurd hlast (hnone _)

end Zapshare
