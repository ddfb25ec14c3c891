import Zapshare.Json.Scalars

/-!
# Reading a document again

What `dump` writes is read again by `parse`, as the document that was kept; and what `parse` has
read can be written.

## Main results

* `Json.dump_isSome_iff`, `Json.parse_dump` — what can be written, and that it is read again
* `Json.dump_round_trip` — the two together
* `Json.dump_of_parse` — what was read can be written, and is read again
-/

namespace Zapshare

open Wire SortedMap

namespace Json

/-! ### The values in a document -/

/-- Induction over a document: the elements of an array, and the members of an object. -/
@[elab_as_elim]
theorem induction {P : Json → Prop} (null : P null) (boolean : ∀ b, P (boolean b))
    (number : ∀ i, P (number i)) (floating : ∀ bits, P (floating bits))
    (string : ∀ s, P (string s))
    (array : ∀ values, (∀ v ∈ values, P v) → P (array values))
    (object : ∀ members, (∀ m ∈ members, P m.2) → P (object members)) (data : Json) : P data :=
  @Json.rec P (fun values => ∀ v ∈ values, P v) (fun members => ∀ m ∈ members, P m.2)
    (fun m => P m.2) null boolean number floating string array object
    (fun _ hv => absurd hv List.not_mem_nil) (fun _ _ h hs => List.forall_mem_cons.mpr ⟨h, hs⟩)
    (fun _ hm => absurd hm List.not_mem_nil) (fun _ _ h hs => List.forall_mem_cons.mpr ⟨h, hs⟩)
    (fun _ _ h => h) data

mutual

/-- A property of a value and of all values in it. -/
def All (P : Json → Prop) : Json → Prop
  | array values => P (array values) ∧ AllElements P values
  | object members => P (object members) ∧ AllMembers P members
  | v => P v

/-- The same of every element of an array. -/
def AllElements (P : Json → Prop) : List Json → Prop
  | [] => True
  | v :: values => All P v ∧ AllElements P values

/-- The same of every member of an object. -/
def AllMembers (P : Json → Prop) : List (Bytes × Json) → Prop
  | [] => True
  | (_, v) :: members => All P v ∧ AllMembers P members

end

variable {P : Json → Prop} {values : List Json} {members : List (Bytes × Json)}

theorem all_array : (array values).All P ↔ P (array values) ∧ ∀ v ∈ values, v.All P := by
  have helements : AllElements P values ↔ ∀ v ∈ values, v.All P := by
    induction values with
    | nil => simp [AllElements]
    | cons v values ih => rw [AllElements, ih, List.forall_mem_cons]
  rw [All, helements]

theorem all_object :
    (object members).All P ↔ P (object members) ∧ ∀ m ∈ members, m.2.All P := by
  have hmembers : AllMembers P members ↔ ∀ m ∈ members, m.2.All P := by
    induction members with
    | nil => simp [AllMembers]
    | cons m members ih => rw [AllMembers, ih, List.forall_mem_cons]
  rw [All, hmembers]

/-- The integers have 64 bits, and the floating-point numbers are finite. -/
def InRange : Json → Prop
  | number i => -2 ^ 63 ≤ i ∧ i < 2 ^ 64
  | floating bits => isFinite bits = true
  | _ => True

/-- The strings are well-formed, and so are the keys. -/
def IsText : Json → Prop
  | string s => utf8Valid s = true
  | object members => ∀ m ∈ members, utf8Valid m.1 = true
  | _ => True

/-- The members of an object are in the order of their keys. -/
def IsMap : Json → Prop
  | object members => Sorted members
  | _ => True

/-! ### The document that is kept -/

theorem stored_array : stored (array values) = array (values.map stored) := by
  have helements : storedElements values = values.map stored := by
    induction values with
    | nil => rfl
    | cons v values ih => rw [storedElements, ih, List.map_cons]
  rw [stored, helements]

theorem storedMembers_eq :
    storedMembers members = members.map fun m => (m.1, stored m.2) := by
  induction members with
  | nil => rfl
  | cons m members ih => rw [storedMembers, ih, List.map_cons]

theorem stored_object :
    stored (object members) = object (collect (members.map fun m => (m.1, stored m.2))) := by
  rw [stored, storedMembers_eq]

/-- A member that is kept is one that was there. -/
theorem exists_of_mem_collect {m : Bytes × Json}
    (h : m ∈ collect (members.map fun m => (m.1, stored m.2))) :
    ∃ m' ∈ members, m.1 = m'.1 ∧ m.2 = stored m'.2 := by
  obtain ⟨m', hm', rfl⟩ := List.mem_map.mp (mem_collect m h)
  exact ⟨m', hm', rfl, rfl⟩

theorem isMap_stored (data : Json) : (stored data).All IsMap := by
  induction data using induction with
  | array values ih =>
    rw [stored_array, all_array]
    exact ⟨trivial, List.forall_mem_map.mpr ih⟩
  | object members ih =>
    rw [stored_object, all_object]
    refine ⟨sorted_collect _, fun m hm => ?_⟩
    obtain ⟨m', hm', -, heq⟩ := exists_of_mem_collect hm
    rw [heq]
    exact ih m' hm'
  | _ => trivial

/-- What is in order is kept as it is. -/
theorem stored_eq {data : Json} (h : data.All IsMap) : stored data = data := by
  induction data using induction with
  | array values ih =>
    have hvalues := (all_array.mp h).2
    rw [stored_array, List.map_congr_left fun v hv => ih v hv (hvalues v hv), List.map_id']
  | object members ih =>
    obtain ⟨hsorted, hmembers⟩ := all_object.mp h
    have hid : members.map (fun m => (m.1, stored m.2)) = members := by
      rw [List.map_congr_left fun m hm => by rw [ih m hm (hmembers m hm)], List.map_id']
    rw [stored_object, hid, collect_of_sorted hsorted]
  | _ => rfl

theorem inRange_stored {data : Json} (h : data.All InRange) : (stored data).All InRange := by
  induction data using induction with
  | array values ih =>
    have hvalues := (all_array.mp h).2
    rw [stored_array, all_array]
    exact ⟨trivial, List.forall_mem_map.mpr fun v hv => ih v hv (hvalues v hv)⟩
  | object members ih =>
    have hmembers := (all_object.mp h).2
    rw [stored_object, all_object]
    refine ⟨trivial, fun m hm => ?_⟩
    obtain ⟨m', hm', -, heq⟩ := exists_of_mem_collect hm
    rw [heq]
    exact ih m' hm' (hmembers m' hm')
  | _ => exact h

/-! ### What can be written -/

theorem writeElements_isSome (doubles : Doubles) :
    (writeElements doubles values).isSome = true ↔
      ∀ v ∈ values, (write doubles v).isSome = true := by
  induction values with
  | nil => simp [writeElements]
  | cons v values ih =>
    cases values with
    | nil => simp [writeElements]
    | cons w values =>
      rw [List.forall_mem_cons, ← ih, writeElements]
      · cases write doubles v <;> cases writeElements doubles (w :: values) <;> simp
      · simp

theorem writeMembers_isSome (doubles : Doubles) :
    (writeMembers doubles members).isSome = true ↔
      ∀ m ∈ members, utf8Valid m.1 = true ∧ (write doubles m.2).isSome = true := by
  induction members with
  | nil => simp [writeMembers]
  | cons m members ih =>
    obtain ⟨key, v⟩ := m
    rw [List.forall_mem_cons, ← ih, ← dumpEscaped_isSome]
    cases members with
    | nil =>
      simp only [writeMembers]
      cases dumpEscaped key <;> cases write doubles v <;> simp
    | cons m' members =>
      rw [writeMembers]
      · cases dumpEscaped key <;> cases write doubles v <;>
          cases writeMembers doubles (m' :: members) <;> simp
      · simp

theorem write_isSome (doubles : Doubles) (v : Json) :
    (write doubles v).isSome = true ↔ v.All IsText := by
  induction v using induction with
  | string s => rw [write, Option.isSome_map, dumpEscaped_isSome, All, IsText] <;> simp
  | array values ih =>
    rw [write, Option.isSome_map, writeElements_isSome, all_array, IsText, true_and]
    · exact forall₂_congr ih
    · simp
    · simp
  | object members ih =>
    rw [write, Option.isSome_map, writeMembers_isSome, all_object, IsText]
    exact ⟨fun h => ⟨fun m hm => (h m hm).1, fun m hm => (ih m hm).mp (h m hm).2⟩,
      fun h m hm => ⟨h.1 m hm, (ih m hm).mpr (h.2 m hm)⟩⟩
  | _ => exact iff_of_true rfl trivial

/-- **What can be written**: a document whose strings are well-formed, as far as they are kept. -/
theorem dump_isSome_iff (doubles : Doubles) (data : Json) :
    (dump doubles data).isSome = true ↔ (stored data).All IsText :=
  write_isSome doubles (stored data)

/-! ### The tokens of what is written -/

/-- These bytes are read as these tokens, in front of what does not belong to a number. -/
def Lexes (doubles : Doubles) (bs : Bytes) (ts : List Token) : Prop :=
  ∀ rest, Separated rest → tokens doubles (bs ++ rest) = ts ++ tokens doubles rest

theorem tokens_of_scan {doubles : Doubles} {data rest : Bytes} {t : Token}
    (h : scan doubles data = (t, rest)) (hlast : t.isLast = false) :
    tokens doubles data = t :: tokens doubles rest := by
  rw [tokens_eq, h, hlast]
  rfl

section

variable {doubles : Doubles} {bs bs' : Bytes} {ts ts' : List Token}

theorem lexes_one {t : Token} (hlast : t.isLast = false)
    (h : ∀ rest, Separated rest → scan doubles (bs ++ rest) = (t, rest)) :
    Lexes doubles bs [t] := fun rest hrest => tokens_of_scan (h rest hrest) hlast

/-- A token that is one byte. -/
theorem Lexes.cons {b : UInt8} {t : Token} (hlast : t.isLast = false)
    (h : ∀ rest, scan doubles (b :: rest) = (t, rest)) (h' : Lexes doubles bs ts) :
    Lexes doubles (b :: bs) (t :: ts) := by
  intro rest hrest
  rw [List.cons_append, tokens_of_scan (h _) hlast, h' rest hrest]
  rfl

/-- One text behind another, which must not continue a number. -/
theorem Lexes.append (h : Lexes doubles bs ts) (h' : Lexes doubles bs' ts')
    (hsep : ∀ rest, Separated rest → Separated (bs' ++ rest)) :
    Lexes doubles (bs ++ bs') (ts ++ ts') := by
  intro rest hrest
  rw [List.append_assoc, h _ (hsep rest hrest), h' rest hrest, List.append_assoc]

end

/-- Where one of these bytes comes next, no number goes on. -/
theorem separated_cons {b : UInt8} (h : isDigit b = false ∧ b ≠ 46 ∧ b ≠ 101 ∧ b ≠ 69)
    (rest : Bytes) : Separated (b :: rest) := by
  intro b' hb'
  obtain rfl : b = b' := by simpa using hb'
  exact h

theorem lexes_string (doubles : Doubles) {s e : Bytes} (h : dumpEscaped s = some e) :
    Lexes doubles (34 :: e ++ [34]) [.valueString s] := by
  have hvalid : utf8Valid s = true := (dumpEscaped_isSome s).mp (by rw [h]; rfl)
  obtain ⟨e', he', hread⟩ := scanString_dumpEscaped hvalid
  obtain rfl : e = e' := Option.some.inj (h.symm.trans he')
  refine lexes_one rfl fun rest _ => ?_
  have hspace : (34 :: (e ++ 34 :: rest)).dropWhile isWhitespace = 34 :: (e ++ 34 :: rest) := rfl
  rw [List.append_assoc, List.cons_append, List.singleton_append]
  simp only [scan, hspace, hread]

/-! ### The document is read again -/

/-- The grammar's lists of elements grow at their end; they may as well at the front. -/
theorem Elements.cons {ts ts' : List Token} {v : Json} {values : List Json} (h : Derives ts v)
    (h' : Elements ts' values) : Elements (ts ++ .valueSeparator :: ts') (v :: values) :=
  @Elements.rec (fun _ _ _ => True)
    (fun ts' values _ => Elements (ts ++ .valueSeparator :: ts') (v :: values))
    (fun _ _ _ => True) (fun _ => trivial) trivial (fun _ _ => trivial) trivial
    (fun _ _ => trivial) (fun h' _ => .more (.one h) h')
    (fun _ h' ih _ => by simpa using Elements.more ih h') (fun _ _ => trivial)
    (fun _ _ _ _ => trivial) ts' values h'

theorem Members.cons {key : Bytes} {ts ts' : List Token} {v : Json}
    {members : List (Bytes × Json)} (h : Derives ts v) (h' : Members ts' members) :
    Members (.valueString key :: .nameSeparator :: ts ++ .valueSeparator :: ts')
      ((key, v) :: members) :=
  @Members.rec (fun _ _ _ => True) (fun _ _ _ => True)
    (fun ts' members _ => Members
      (.valueString key :: .nameSeparator :: ts ++ .valueSeparator :: ts') ((key, v) :: members))
    (fun _ => trivial) trivial (fun _ _ => trivial) trivial (fun _ _ => trivial)
    (fun _ _ => trivial) (fun _ _ _ _ => trivial) (fun h' _ => .more (.one h) h')
    (fun _ h' ih _ => by simpa using Members.more ih h') ts' members h'

/-- What is written for the value is read as the tokens of the value. -/
def ReadsAs (doubles : Doubles) (v : Json) : Prop :=
  ∀ bs, write doubles v = some bs → ∃ ts, Derives ts v ∧ Lexes doubles bs ts

theorem reads_elements {doubles : Doubles} {values : List Json}
    (h : ∀ v ∈ values, ReadsAs doubles v) (hne : values ≠ []) {bs : Bytes}
    (hwrite : writeElements doubles values = some bs) :
    ∃ ts, Elements ts values ∧ Lexes doubles bs ts := by
  induction values generalizing bs with
  | nil => exact absurd rfl hne
  | cons v values ih =>
    obtain ⟨hv, hvalues⟩ := List.forall_mem_cons.mp h
    cases values with
    | nil =>
      obtain ⟨ts, hts, hlexes⟩ := hv bs hwrite
      exact ⟨ts, .one hts, hlexes⟩
    | cons w values =>
      simp only [writeElements, Option.bind_eq_bind, Option.bind_eq_some_iff, Option.pure_def,
        Option.some.injEq] at hwrite
      obtain ⟨first, hfirst, rest, hrest, rfl⟩ := hwrite
      obtain ⟨ts, hts, hlexes⟩ := hv first hfirst
      obtain ⟨ts', hts', hlexes'⟩ := ih hvalues (by simp) hrest
      exact ⟨_, .cons hts hts', hlexes.append (.cons rfl (fun _ => rfl) hlexes')
        fun _ _ => separated_cons (by decide) _⟩

theorem lexes_member {doubles : Doubles} {key name value : Bytes} {ts : List Token}
    (hname : dumpEscaped key = some name) (h : Lexes doubles value ts) :
    Lexes doubles (34 :: name ++ 34 :: 58 :: value)
      (.valueString key :: .nameSeparator :: ts) := by
  have hvalue : Lexes doubles (58 :: value) (.nameSeparator :: ts) := .cons rfl (fun _ => rfl) h
  simpa using (lexes_string doubles hname).append hvalue fun _ _ => separated_cons (by decide) _

theorem reads_members {doubles : Doubles} {members : List (Bytes × Json)}
    (h : ∀ m ∈ members, ReadsAs doubles m.2) (hne : members ≠ []) {bs : Bytes}
    (hwrite : writeMembers doubles members = some bs) :
    ∃ ts, Members ts members ∧ Lexes doubles bs ts := by
  induction members generalizing bs with
  | nil => exact absurd rfl hne
  | cons m members ih =>
    obtain ⟨key, v⟩ := m
    obtain ⟨hv, hmembers⟩ := List.forall_mem_cons.mp h
    cases members with
    | nil =>
      simp only [writeMembers, Option.bind_eq_bind, Option.bind_eq_some_iff, Option.pure_def,
        Option.some.injEq] at hwrite
      obtain ⟨name, hname, value, hvalue, rfl⟩ := hwrite
      obtain ⟨ts, hts, hlexes⟩ := hv value hvalue
      exact ⟨_, .one hts, lexes_member hname hlexes⟩
    | cons m' members =>
      simp only [writeMembers, Option.bind_eq_bind, Option.bind_eq_some_iff, Option.pure_def,
        Option.some.injEq] at hwrite
      obtain ⟨name, hname, value, hvalue, rest, hrest, rfl⟩ := hwrite
      obtain ⟨ts, hts, hlexes⟩ := hv value hvalue
      obtain ⟨ts', hts', hlexes'⟩ := ih hmembers (by simp) hrest
      exact ⟨_, .cons hts hts', (lexes_member hname hlexes).append
        (.cons rfl (fun _ => rfl) hlexes') fun _ _ => separated_cons (by decide) _⟩

/-- A list of values between brackets. -/
theorem Lexes.brackets {doubles : Doubles} {first last : UInt8} {t t' : Token} {bs : Bytes}
    {ts : List Token} (ht : t.isLast = false) (ht' : t'.isLast = false)
    (hfirst : ∀ rest, scan doubles (first :: rest) = (t, rest))
    (hlast : ∀ rest, scan doubles (last :: rest) = (t', rest))
    (hsep : isDigit last = false ∧ last ≠ 46 ∧ last ≠ 101 ∧ last ≠ 69) (h : Lexes doubles bs ts) :
    Lexes doubles (first :: bs ++ [last]) (t :: ts ++ [t']) :=
  .cons ht hfirst (h.append (lexes_one ht' fun rest _ => hlast rest)
    fun rest _ => separated_cons hsep rest)

/-- **What is written is read as the tokens of the value.** -/
theorem readsAs {doubles : Doubles} (hdoubles : doubles.Documented) {v : Json}
    (hrange : v.All InRange) (hmap : v.All IsMap) : ReadsAs doubles v := by
  induction v using induction with
  | null =>
    rintro bs ⟨⟩
    exact ⟨[.literalNull], .scalar rfl, lexes_one rfl fun rest _ => rfl⟩
  | boolean b =>
    rintro bs ⟨⟩
    cases b with
    | false => exact ⟨[.literalFalse], .scalar rfl, lexes_one rfl fun rest _ => rfl⟩
    | true => exact ⟨[.literalTrue], .scalar rfl, lexes_one rfl fun rest _ => rfl⟩
  | number i =>
    rintro bs ⟨⟩
    obtain ⟨t, ht, hscan⟩ := scan_dumpInteger doubles hrange
    have hlast : t.isLast = false := by cases t <;> first | rfl | cases ht
    exact ⟨[t], .scalar ht, lexes_one hlast hscan⟩
  | floating bits =>
    have hfinite : isFinite bits = true := hrange
    rintro bs ⟨⟩
    refine ⟨[.valueFloat bits], .scalar (if_pos hfinite), ?_⟩
    rw [if_pos hfinite]
    exact lexes_one rfl fun rest hrest => scan_toChars hdoubles hfinite hrest
  | string s =>
    intro bs hwrite
    obtain ⟨e, he, rfl⟩ := Option.map_eq_some_iff.mp hwrite
    exact ⟨[.valueString s], .scalar rfl, lexes_string doubles he⟩
  | array values ih =>
    intro bs hwrite
    obtain ⟨e, he, rfl⟩ := Option.map_eq_some_iff.mp hwrite
    have hvalues : ∀ v ∈ values, ReadsAs doubles v := fun v hv =>
      ih v hv ((all_array.mp hrange).2 v hv) ((all_array.mp hmap).2 v hv)
    rcases eq_or_ne values [] with rfl | hne
    · obtain rfl := Option.some.inj he
      exact ⟨_, .emptyArray, .cons rfl (fun _ => rfl) (lexes_one rfl fun rest _ => rfl)⟩
    · obtain ⟨ts, hts, hlexes⟩ := reads_elements hvalues hne he
      exact ⟨_, .array hts,
        hlexes.brackets rfl rfl (fun _ => rfl) (fun _ => rfl) (by decide)⟩
  | object members ih =>
    intro bs hwrite
    obtain ⟨e, he, rfl⟩ := Option.map_eq_some_iff.mp hwrite
    have hmembers : ∀ m ∈ members, ReadsAs doubles m.2 := fun m hm =>
      ih m hm ((all_object.mp hrange).2 m hm) ((all_object.mp hmap).2 m hm)
    rcases eq_or_ne members [] with rfl | hne
    · obtain rfl := Option.some.inj he
      exact ⟨_, .emptyObject, .cons rfl (fun _ => rfl) (lexes_one rfl fun rest _ => rfl)⟩
    · obtain ⟨ts, hts, hlexes⟩ := reads_members hmembers hne he
      have hsorted : assignAll members = members := assignAll_of_sorted (all_object.mp hmap).1
      have hderives := Derives.object hts
      rw [hsorted] at hderives
      exact ⟨_, hderives, hlexes.brackets rfl rfl (fun _ => rfl) (fun _ => rfl) (by decide)⟩

/-- A text that is read has no byte order mark in front of it, nor the beginning of one. -/
theorem textTokens_of_lexes {doubles : Doubles} {bs : Bytes} {ts : List Token}
    (h : Lexes doubles bs ts) : textTokens doubles bs = ts ++ [.endOfInput] := by
  have htokens : tokens doubles bs = ts ++ [.endOfInput] := by
    have hempty := h [] fun b hb => by cases hb
    rwa [List.append_nil] at hempty
  -- the lexer finds no token there
  have herror : ∀ rest, tokens doubles (0xEF :: rest) = [.parseError] := fun _ => rfl
  rw [textTokens.eq_def]
  split
  case h_1 | h_2 =>
    exfalso
    rw [herror] at htokens
    have hlength := congrArg List.getLast? htokens
    simp at hlength
  case h_3 => exact htokens

/-- **The document is read again**, as it was kept. -/
theorem parse_dump {doubles : Doubles} (hdoubles : doubles.Documented) {data : Json}
    (hrange : data.All InRange) {s : Bytes} (h : dump doubles data = some s) :
    parse doubles s = some (stored data) := by
  obtain ⟨ts, hderives, hlexes⟩ :=
    readsAs hdoubles (inRange_stored hrange) (isMap_stored data) s h
  rw [parse, textTokens_of_lexes hlexes, parseTokens_iff]
  exact ⟨ts, [], rfl, hderives⟩

/-- Numbers of both kinds, and a string with a quote, a backslash, two control characters and one
character of two bytes. The members are not in order. -/
def sampleDocument : Json :=
  object
    [(text "b", floating oneAndAHalf),
      (text "a", array [number (-1), floating 0, string (text "\"\\\n" ++ [0x01, 0xC3, 0xA9])])]

theorem sampleDocument_inRange : sampleDocument.All InRange := by
  have hhalf : isFinite oneAndAHalf = true := by decide
  have hzero : isFinite 0 = true := by decide
  simp [sampleDocument, All, AllMembers, AllElements, InRange, hhalf, hzero]

/-- A document as the parser builds it. -/
def Parsed (v : Json) : Prop := v.All InRange ∧ v.All IsText ∧ v.All IsMap

theorem parsed_scalar {t : Token} {v : Json} (hok : t.Ok) (h : scalar t = some v) : Parsed v := by
  cases t with
  | valueString s =>
    cases h
    exact ⟨trivial, hok, trivial⟩
  | valueUnsigned n =>
    cases h
    have hlt : n < 2 ^ 64 := hok
    exact ⟨⟨by omega, by exact_mod_cast hlt⟩, trivial, trivial⟩
  | valueInteger i =>
    cases h
    have hbounds : -2 ^ 63 ≤ i ∧ i ≤ 0 := hok
    exact ⟨⟨hbounds.1, by omega⟩, trivial, trivial⟩
  | valueFloat bits =>
    rw [scalar] at h
    split_ifs at h with hfinite
    cases h
    exact ⟨hfinite, trivial, trivial⟩
  | literalTrue | literalFalse | literalNull =>
    cases h
    exact ⟨trivial, trivial, trivial⟩
  | _ => cases h

theorem parsed_array {values : List Json} (h : ∀ v ∈ values, Parsed v) : Parsed (array values) :=
  ⟨all_array.mpr ⟨trivial, fun v hv => (h v hv).1⟩,
    all_array.mpr ⟨trivial, fun v hv => (h v hv).2.1⟩,
    all_array.mpr ⟨trivial, fun v hv => (h v hv).2.2⟩⟩

theorem parsed_object {members : List (Bytes × Json)}
    (h : ∀ m ∈ members, utf8Valid m.1 = true ∧ Parsed m.2) :
    Parsed (object (assignAll members)) := by
  have hmembers : ∀ m ∈ assignAll members, utf8Valid m.1 = true ∧ Parsed m.2 := fun m hm =>
    h m (mem_assignAll m hm)
  exact ⟨all_object.mpr ⟨trivial, fun m hm => (hmembers m hm).2.1⟩,
    all_object.mpr ⟨fun m hm => (hmembers m hm).1, fun m hm => (hmembers m hm).2.2.1⟩,
    all_object.mpr ⟨sorted_assignAll members, fun m hm => (hmembers m hm).2.2.2⟩⟩

/-- **What is derived** from tokens as the lexer finds them. -/
theorem Derives.parsed {ts : List Token} {v : Json} (h : Derives ts v) (hok : ∀ t ∈ ts, t.Ok) :
    Parsed v := by
  refine @Derives.rec (fun ts v _ => (∀ t ∈ ts, t.Ok) → Parsed v)
    (fun ts values _ => (∀ t ∈ ts, t.Ok) → ∀ v ∈ values, Parsed v)
    (fun ts members _ => (∀ t ∈ ts, t.Ok) → ∀ m ∈ members, utf8Valid m.1 = true ∧ Parsed m.2)
    ?scalar ?emptyArray ?array ?emptyObject ?object ?one ?more ?oneMember ?moreMembers ts v h hok
  case scalar => exact fun h hok => parsed_scalar (hok _ (List.mem_singleton_self _)) h
  case emptyArray => exact fun _ => parsed_array fun v hv => absurd hv List.not_mem_nil
  case array => exact fun _ ih hok => parsed_array (ih fun t ht => hok t (by simp [ht]))
  case emptyObject =>
    exact fun _ => @parsed_object [] fun m hm => absurd hm List.not_mem_nil
  case object => exact fun _ ih hok => parsed_object (ih fun t ht => hok t (by simp [ht]))
  case one => exact fun _ ih hok => List.forall_mem_singleton.mpr (ih hok)
  case more =>
    exact fun _ _ ih ih' hok => List.forall_mem_append.mpr ⟨ih fun t ht => hok t (by simp [ht]),
      List.forall_mem_singleton.mpr (ih' fun t ht => hok t (by simp [ht]))⟩
  case oneMember =>
    exact fun _ ih hok => List.forall_mem_singleton.mpr
      ⟨hok _ List.mem_cons_self, ih fun t ht => hok t (by simp [ht])⟩
  case moreMembers =>
    intro key _ _ _ _ _ _ ih ih' hok
    have hkey : utf8Valid key = true := hok (.valueString key) (by simp)
    exact List.forall_mem_append.mpr ⟨ih fun t ht => hok t (by simp [ht]),
      List.forall_mem_singleton.mpr ⟨hkey, ih' fun t ht => hok t (by simp [ht])⟩⟩

/-- **What is read** has numbers and strings that can be written, and its objects are in order. -/
theorem parsed_of_parse {doubles : Doubles} {s : Bytes} {v : Json} (h : parse doubles s = some v) :
    Parsed v := by
  obtain ⟨ts, rest, heq, hderives⟩ := parseTokens_iff.mp h
  refine hderives.parsed fun t ht => ?_
  have hmem : t ∈ textTokens doubles s := by
    rw [heq]
    exact List.mem_append_left _ ht
  rw [textTokens.eq_def] at hmem
  split at hmem
  case h_2 =>
    rw [List.mem_singleton.mp hmem]
    trivial
  all_goals exact ok_of_mem_tokens t hmem

/-- **What was read can be written**, and is read again as the same document. -/
theorem dump_of_parse {doubles : Doubles} (hdoubles : doubles.Documented) {s : Bytes} {v : Json}
    (h : parse doubles s = some v) :
    ∃ s', dump doubles v = some s' ∧ parse doubles s' = some v := by
  obtain ⟨hrange, htext, hmap⟩ := parsed_of_parse h
  have hstored : stored v = v := stored_eq hmap
  have hsome : (dump doubles v).isSome = true :=
    (dump_isSome_iff doubles v).mpr (by rwa [hstored])
  obtain ⟨s', hs'⟩ := Option.isSome_iff_exists.mp hsome
  refine ⟨s', hs', ?_⟩
  rw [parse_dump hdoubles hrange hs', hstored]

end Json

end Zapshare
