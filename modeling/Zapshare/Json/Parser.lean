import Zapshare.Json.Lexer
import Zapshare.Lib.SortedMap

/-!
# The parser

`sax_parse_internal` of `json.hpp`, with the document that `json_sax_dom_parser` builds on the way.
The parser is a loop with an explicit stack. It holds, for each array and object that is still open,
which of the two it is (`states`) and the value so far (`ref_stack`); here the two stacks are one,
of frames.

The source puts an array or object in its place when it is opened, and changes it there through a
pointer. Nothing looks at it before it is closed, so that here it is put in place then.

The grammar below says what the parser is for, without any stack. An object is a `std::map`: its
members are in the order of their keys, and of members with one key the last one stays.

## Main results

* `Json.parseTokens_iff`, `Json.parse_iff` — the parser accepts what the grammar derives, with the
  value it derives
-/

namespace Zapshare

open Wire SortedMap

namespace Json

/-- An array or object that is open: the values or members so far, and the key of the next
member. -/
inductive Frame
  | array (values : List Json)
  | object (members : List (Bytes × Json)) (key : Bytes)

/-- `std::isfinite` of a `double`. -/
def isFinite (bits : UInt64) : Bool := bits >>> 52 &&& 0x7FF ≠ 0x7FF

/-- The values that are one token. -/
def scalar : Token → Option Json
  | .literalTrue => some (boolean true)
  | .literalFalse => some (boolean false)
  | .literalNull => some null
  | .valueString s => some (string s)
  | .valueUnsigned n => some (number n)
  | .valueInteger i => some (number i)
  | .valueFloat bits => if isFinite bits then some (floating bits) else none
  | _ => none

mutual

/-- The loop where a value is expected. -/
def parseValue : List Frame → List Token → Option (Json × List Token)
  | stack, .beginObject :: .endObject :: ts => evaluate stack (object []) ts
  | stack, .beginObject :: .valueString key :: .nameSeparator :: ts =>
    parseValue (.object [] key :: stack) ts
  | stack, .beginArray :: .endArray :: ts => evaluate stack (array []) ts
  | stack, .beginArray :: ts => parseValue (.array [] :: stack) ts
  | stack, t :: ts =>
    match scalar t with
    | some v => evaluate stack v ts
    | none => none
  | _, [] => none

/-- The loop behind a value: the evaluation of the state. -/
def evaluate : List Frame → Json → List Token → Option (Json × List Token)
  | [], v, ts => some (v, ts)
  | .array values :: stack, v, .valueSeparator :: ts =>
    parseValue (.array (values ++ [v]) :: stack) ts
  | .array values :: stack, v, .endArray :: ts => evaluate stack (array (values ++ [v])) ts
  | .object members key :: stack, v, .valueSeparator :: .valueString key' :: .nameSeparator :: ts =>
    parseValue (.object (assign key v members) key' :: stack) ts
  | .object members key :: stack, v, .endObject :: ts =>
    evaluate stack (object (assign key v members)) ts
  | _, _, _ => none

end

/-- `parse`: behind the value there must be nothing. -/
def parseTokens (ts : List Token) : Option Json :=
  match parseValue [] ts with
  | some (v, .endOfInput :: _) => some v
  | _ => none

/-- `json::parse` of a string; `none` when it throws. -/
def parse (doubles : Doubles) (data : Bytes) : Option Json := parseTokens (textTokens doubles data)

/-! ### The grammar -/

mutual

/-- The tokens of a value. -/
inductive Derives : List Token → Json → Prop
  | scalar {t : Token} {v : Json} (h : scalar t = some v) : Derives [t] v
  | emptyArray : Derives [.beginArray, .endArray] (array [])
  | array {ts : List Token} {values : List Json} (h : Elements ts values) :
    Derives (.beginArray :: ts ++ [.endArray]) (array values)
  | emptyObject : Derives [.beginObject, .endObject] (object [])
  | object {ts : List Token} {members : List (Bytes × Json)} (h : Members ts members) :
    Derives (.beginObject :: ts ++ [.endObject]) (object (assignAll members))

/-- The tokens of values, one at least, with commas between them. -/
inductive Elements : List Token → List Json → Prop
  | one {ts : List Token} {v : Json} (h : Derives ts v) : Elements ts [v]
  | more {ts ts' : List Token} {values : List Json} {v : Json} (h : Elements ts values)
    (h' : Derives ts' v) : Elements (ts ++ .valueSeparator :: ts') (values ++ [v])

/-- The tokens of members, one at least, with commas between them. -/
inductive Members : List Token → List (Bytes × Json) → Prop
  | one {key : Bytes} {ts : List Token} {v : Json} (h : Derives ts v) :
    Members (.valueString key :: .nameSeparator :: ts) [(key, v)]
  | more {key : Bytes} {ts ts' : List Token} {members : List (Bytes × Json)} {v : Json}
    (h : Members ts members) (h' : Derives ts' v) :
    Members (ts ++ .valueSeparator :: .valueString key :: .nameSeparator :: ts')
      (members ++ [(key, v)])

end

/-! ### What is derived is parsed -/

/-- The tokens do not begin with a closing bracket. -/
def NotClosing (ts : List Token) : Prop := ∃ t ts', ts = t :: ts' ∧ t ≠ .endArray

theorem NotClosing.append {ts : List Token} (h : NotClosing ts) (ts' : List Token) :
    NotClosing (ts ++ ts') := by
  obtain ⟨t, rest, rfl, ht⟩ := h
  exact ⟨t, rest ++ ts', rfl, ht⟩

/-- The parser takes the tokens for the value, wherever it meets them. -/
def ParsesValue (ts : List Token) (v : Json) : Prop :=
  NotClosing ts ∧ ∀ stack rest, parseValue stack (ts ++ rest) = evaluate stack v rest

/-- The parser takes the tokens for the values, in an array. -/
def ParsesElements (ts : List Token) (values : List Json) : Prop :=
  NotClosing ts ∧ ∃ values' v, values = values' ++ [v] ∧ ∀ stack rest,
    parseValue (.array [] :: stack) (ts ++ rest) = evaluate (.array values' :: stack) v rest

/-- The parser takes the tokens for the members, in an object. -/
def ParsesMembers (ts : List Token) (members : List (Bytes × Json)) : Prop :=
  ∃ key ts' key' members' v, ts = .valueString key :: .nameSeparator :: ts' ∧
    members = members' ++ [(key', v)] ∧ ∀ stack rest,
      parseValue (.object [] key :: stack) (ts' ++ rest)
        = evaluate (.object (assignAll members') key' :: stack) v rest

theorem assignAll_concat (members : List (Bytes × Json)) (key : Bytes) (v : Json) :
    assignAll (members ++ [(key, v)]) = assign key v (assignAll members) :=
  List.foldl_concat _ _ _ _

theorem parsesValue_scalar {t : Token} {v : Json} (h : scalar t = some v) : ParsesValue [t] v := by
  cases t with
  | valueFloat bits =>
    refine ⟨⟨_, [], rfl, by simp⟩, fun stack rest => ?_⟩
    rw [List.singleton_append, parseValue, h] <;> simp
  | _ =>
    cases h <;> exact ⟨⟨_, [], rfl, by simp⟩, fun _ _ => rfl⟩

theorem parsesValue_array {ts : List Token} {values : List Json} (h : ParsesElements ts values) :
    ParsesValue (.beginArray :: ts ++ [.endArray]) (array values) := by
  obtain ⟨⟨t, ts, rfl, ht⟩, values', v, rfl, hparse⟩ := h
  refine ⟨⟨_, _, rfl, by simp⟩, fun stack rest => ?_⟩
  have hopen : parseValue stack (.beginArray :: t :: ts ++ [.endArray] ++ rest)
      = parseValue (.array [] :: stack) (t :: ts ++ (.endArray :: rest)) := by
    rw [List.append_assoc]
    cases t <;> first | rfl | exact absurd rfl ht
  rw [hopen, hparse, evaluate]

theorem parsesValue_object {ts : List Token} {members : List (Bytes × Json)}
    (h : ParsesMembers ts members) :
    ParsesValue (.beginObject :: ts ++ [.endObject]) (object (assignAll members)) := by
  obtain ⟨key, ts, key', members', v, rfl, rfl, hparse⟩ := h
  refine ⟨⟨_, _, rfl, by simp⟩, fun stack rest => ?_⟩
  have hopen : parseValue stack
      (.beginObject :: (.valueString key :: .nameSeparator :: ts) ++ [.endObject] ++ rest)
      = parseValue (.object [] key :: stack) (ts ++ (.endObject :: rest)) := by
    rw [List.append_assoc]
    rfl
  rw [hopen, hparse, evaluate, assignAll_concat]

theorem parsesElements_one {ts : List Token} {v : Json} (h : ParsesValue ts v) :
    ParsesElements ts [v] :=
  ⟨h.1, [], v, rfl, fun stack rest => h.2 (.array [] :: stack) rest⟩

theorem parsesElements_more {ts ts' : List Token} {values : List Json} {v : Json}
    (h : ParsesElements ts values) (h' : ParsesValue ts' v) :
    ParsesElements (ts ++ .valueSeparator :: ts') (values ++ [v]) := by
  obtain ⟨hhead, values', w, rfl, hparse⟩ := h
  refine ⟨hhead.append _, values' ++ [w], v, rfl, fun stack rest => ?_⟩
  rw [List.append_assoc, hparse, List.cons_append, evaluate]
  exact h'.2 _ rest

theorem parsesMembers_one {key : Bytes} {ts : List Token} {v : Json} (h : ParsesValue ts v) :
    ParsesMembers (.valueString key :: .nameSeparator :: ts) [(key, v)] :=
  ⟨key, ts, key, [], v, rfl, rfl, fun stack rest => h.2 (.object [] key :: stack) rest⟩

theorem parsesMembers_more {key : Bytes} {ts ts' : List Token} {members : List (Bytes × Json)}
    {v : Json} (h : ParsesMembers ts members) (h' : ParsesValue ts' v) :
    ParsesMembers (ts ++ .valueSeparator :: .valueString key :: .nameSeparator :: ts')
      (members ++ [(key, v)]) := by
  obtain ⟨first, ts, key', members', w, rfl, rfl, hparse⟩ := h
  refine ⟨first, ts ++ .valueSeparator :: .valueString key :: .nameSeparator :: ts', key,
    members' ++ [(key', w)], v, rfl, rfl, fun stack rest => ?_⟩
  rw [List.append_assoc, hparse, List.cons_append, List.cons_append, List.cons_append, evaluate,
    assignAll_concat]
  exact h'.2 _ rest

/-- **What is derived is parsed**, wherever it stands. -/
theorem Derives.parses {ts : List Token} {v : Json} (h : Derives ts v) : ParsesValue ts v :=
  @Derives.rec (fun ts v _ => ParsesValue ts v) (fun ts values _ => ParsesElements ts values)
    (fun ts members _ => ParsesMembers ts members)
    (fun h => parsesValue_scalar h) ⟨⟨_, _, rfl, by simp⟩, fun _ _ => rfl⟩
    (fun _ ih => parsesValue_array ih) ⟨⟨_, _, rfl, by simp⟩, fun _ _ => rfl⟩
    (fun _ ih => parsesValue_object ih) (fun _ ih => parsesElements_one ih)
    (fun _ _ ih ih' => parsesElements_more ih ih') (fun _ ih => parsesMembers_one ih)
    (fun _ _ ih ih' => parsesMembers_more ih ih') ts v h

/-! ### What is parsed is derived -/

/-- The tokens read so far, where these arrays and objects are open. -/
inductive Opened : List Frame → List Token → Prop
  | none : Opened [] []
  | array {stack : List Frame} {pre : List Token} (h : Opened stack pre) :
    Opened (.array [] :: stack) (pre ++ [.beginArray])
  | element {stack : List Frame} {pre ts : List Token} {values : List Json}
    (h : Opened stack pre) (h' : Elements ts values) :
    Opened (.array values :: stack) (pre ++ .beginArray :: ts ++ [.valueSeparator])
  | object {stack : List Frame} {pre : List Token} {key : Bytes} (h : Opened stack pre) :
    Opened (.object [] key :: stack) (pre ++ [.beginObject, .valueString key, .nameSeparator])
  | member {stack : List Frame} {pre ts : List Token} {members : List (Bytes × Json)} {key : Bytes}
    (h : Opened stack pre) (h' : Members ts members) :
    Opened (.object (assignAll members) key :: stack)
      (pre ++ .beginObject :: ts ++ [.valueSeparator, .valueString key, .nameSeparator])

/-- The elements of an open array, with the value behind them. -/
theorem Opened.elements {values : List Json} {stack : List Frame} {pre cur : List Token} {v : Json}
    (h : Opened (.array values :: stack) pre) (hcur : Derives cur v) :
    ∃ pre' ts, Opened stack pre' ∧ Elements ts (values ++ [v]) ∧
      pre ++ cur = pre' ++ .beginArray :: ts := by
  cases h with
  | @array _ pre' h => exact ⟨pre', cur, h, .one hcur, by simp⟩
  | @element _ pre' ts _ h h' =>
    exact ⟨pre', ts ++ .valueSeparator :: cur, h, .more h' hcur, by simp⟩

/-- The members of an open object, with the value behind them. -/
theorem Opened.members {members : List (Bytes × Json)} {key : Bytes} {stack : List Frame}
    {pre cur : List Token} {v : Json} (h : Opened (.object members key :: stack) pre)
    (hcur : Derives cur v) :
    ∃ pre' ts ms, Opened stack pre' ∧ Members ts ms ∧ assignAll ms = assign key v members ∧
      pre ++ cur = pre' ++ .beginObject :: ts := by
  cases h with
  | @object _ pre' _ h => exact ⟨pre', _, _, h, .one hcur, rfl, by simp⟩
  | @member _ pre' ts ms _ h h' =>
    exact ⟨pre', _, _, h, .more h' hcur, assignAll_concat _ _ _, by simp⟩

/-- What is parsed behind the tokens read so far is derived, together with these. -/
def Sound (ts : List Token) : Prop :=
  (∀ stack pre v rest, Opened stack pre → parseValue stack ts = some (v, rest) →
    ∃ mid, ts = mid ++ rest ∧ Derives (pre ++ mid) v) ∧
  (∀ stack pre cur w v rest, Opened stack pre → Derives cur w →
    evaluate stack w ts = some (v, rest) → ∃ mid, ts = mid ++ rest ∧ Derives (pre ++ cur ++ mid) v)

/-- Where a value is expected. -/
theorem sound_value {ts : List Token} (ih : ∀ ts', ts'.length < ts.length → Sound ts')
    {stack : List Frame} {pre : List Token} {v : Json} {rest : List Token}
    (hopen : Opened stack pre) (h : parseValue stack ts = some (v, rest)) :
    ∃ mid, ts = mid ++ rest ∧ Derives (pre ++ mid) v := by
  -- the tokens that are read here, and what comes of the others
  have hvalue : ∀ cur ts' w, ts = cur ++ ts' → cur ≠ [] → Derives cur w →
      evaluate stack w ts' = some (v, rest) → ∃ mid, ts = mid ++ rest ∧ Derives (pre ++ mid) v := by
    rintro cur ts' w rfl hne hcur h
    have hlt : ts'.length < (cur ++ ts').length := by
      have := List.length_pos_iff.mpr hne
      rw [List.length_append]
      omega
    obtain ⟨mid, rfl, hmid⟩ := (ih ts' hlt).2 stack pre cur w v rest hopen hcur h
    exact ⟨cur ++ mid, (List.append_assoc _ _ _).symm, by rwa [← List.append_assoc]⟩
  have hframe : ∀ cur ts' frame, ts = cur ++ ts' → cur ≠ [] → Opened (frame :: stack) (pre ++ cur) →
      parseValue (frame :: stack) ts' = some (v, rest) →
      ∃ mid, ts = mid ++ rest ∧ Derives (pre ++ mid) v := by
    rintro cur ts' frame rfl hne hcur h
    have hlt : ts'.length < (cur ++ ts').length := by
      have := List.length_pos_iff.mpr hne
      rw [List.length_append]
      omega
    obtain ⟨mid, rfl, hmid⟩ := (ih ts' hlt).1 (frame :: stack) (pre ++ cur) v rest hcur h
    exact ⟨cur ++ mid, (List.append_assoc _ _ _).symm, by rwa [← List.append_assoc]⟩
  rw [parseValue.eq_def] at h
  split at h
  · exact hvalue [.beginObject, .endObject] _ _ rfl (by simp) .emptyObject h
  · exact hframe [.beginObject, .valueString _, .nameSeparator] _ _ rfl (by simp) hopen.object h
  · exact hvalue [.beginArray, .endArray] _ _ rfl (by simp) .emptyArray h
  · exact hframe [.beginArray] _ _ rfl (by simp) hopen.array h
  · split at h
    · rename_i hscalar
      exact hvalue [_] _ _ rfl (by simp) (.scalar hscalar) h
    · cases h
  · cases h

/-- Behind a value. -/
theorem sound_evaluate {ts : List Token} (ih : ∀ ts', ts'.length < ts.length → Sound ts')
    {stack : List Frame} {pre cur : List Token} {w v : Json} {rest : List Token}
    (hopen : Opened stack pre) (hcur : Derives cur w) (h : evaluate stack w ts = some (v, rest)) :
    ∃ mid, ts = mid ++ rest ∧ Derives (pre ++ cur ++ mid) v := by
  rw [evaluate.eq_def] at h
  split at h
  · obtain ⟨rfl, rfl⟩ := Prod.mk.inj (Option.some.inj h)
    cases hopen
    exact ⟨[], rfl, by simpa using hcur⟩
  · rename_i values stack ts'
    obtain ⟨pre', body, hpre', helements, heq⟩ := hopen.elements hcur
    obtain ⟨mid, rfl, hmid⟩ := (ih ts' (by simp)).1 _ _ v rest (hpre'.element helements) h
    exact ⟨.valueSeparator :: mid, rfl, by rw [heq]; simpa using hmid⟩
  · rename_i values stack ts'
    obtain ⟨pre', body, hpre', helements, heq⟩ := hopen.elements hcur
    obtain ⟨mid, rfl, hmid⟩ := (ih ts' (by simp)).2 _ _ _ _ v rest hpre' (.array helements) h
    exact ⟨.endArray :: mid, rfl, by rw [heq]; simpa using hmid⟩
  · rename_i members key stack key' ts'
    obtain ⟨pre', body, ms, hpre', hmembers, hassign, heq⟩ := hopen.members hcur
    rw [← hassign] at h
    obtain ⟨mid, rfl, hmid⟩ := (ih ts' (by simp; omega)).1 _ _ v rest (hpre'.member hmembers) h
    exact ⟨.valueSeparator :: .valueString key' :: .nameSeparator :: mid, rfl, by
      rw [heq]; simpa using hmid⟩
  · rename_i members key stack ts'
    obtain ⟨pre', body, ms, hpre', hmembers, hassign, heq⟩ := hopen.members hcur
    rw [← hassign] at h
    obtain ⟨mid, rfl, hmid⟩ := (ih ts' (by simp)).2 _ _ _ _ v rest hpre' (.object hmembers) h
    exact ⟨.endObject :: mid, rfl, by rw [heq]; simpa using hmid⟩
  · cases h

theorem sound (ts : List Token) : Sound ts := by
  induction hlength : ts.length using Nat.strong_induction_on generalizing ts with
  | _ n ih =>
    have ih' : ∀ ts' : List Token, ts'.length < ts.length → Sound ts' :=
      fun ts' hlt => ih _ (hlength ▸ hlt) ts' rfl
    exact ⟨fun _ _ _ _ hopen h => sound_value ih' hopen h,
      fun _ _ _ _ _ _ hopen hcur h => sound_evaluate ih' hopen hcur h⟩

/-- **The parser is the grammar.** It accepts the tokens of one value and nothing behind it. -/
theorem parseTokens_iff {ts : List Token} {v : Json} :
    parseTokens ts = some v ↔ ∃ ts' rest, ts = ts' ++ .endOfInput :: rest ∧ Derives ts' v := by
  rw [parseTokens]
  constructor
  · intro h
    split at h
    · rename_i w rest hparse
      obtain rfl := Option.some.inj h
      obtain ⟨mid, heq, hmid⟩ := (sound ts).1 [] [] w _ .none hparse
      exact ⟨mid, rest, heq, hmid⟩
    · cases h
  · rintro ⟨ts', rest, rfl, hderives⟩
    rw [hderives.parses.2 [] (.endOfInput :: rest), evaluate]

/-- **What is accepted**: a text whose tokens, up to its end, are derived. -/
theorem parse_iff (doubles : Doubles) (data : Bytes) (v : Json) :
    parse doubles data = some v ↔
      ∃ ts rest, textTokens doubles data = ts ++ .endOfInput :: rest ∧ Derives ts v :=
  parseTokens_iff

end Json

end Zapshare
