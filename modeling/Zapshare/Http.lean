import Mathlib.Data.List.DropRight
import Zapshare.Decimal
import Zapshare.Json

/-!
# Requests and responses

What the two programs use of `httplib.h`: how a client writes the path of a URL into the request
line, how the server reads the line and takes the path from it, which requests the server refuses
before it looks for a handler, and what an answer consists of.

## Scope

The header fields are left out: none of the programs sets or reads one. A request here has none by
which the framework answers differently, or reads the body differently: no `Range`, to which it
answers with a part of the body or refuses to, no `Expect`, `Accept` or `Content-Encoding`, and not
the content type of a form. Its body arrives whole, and its version is one that the server knows.

## Main definitions

* `Request`, `Response` — what is sent and what is answered
* `requestTarget` — how a client writes a path
* `requestPath` — how the server reads it
* `refusal` — the requests that the server answers, or drops, at the sight of their first line

## Main results

* `requestPath_requestTarget` — a plain path arrives unchanged
* `refusal_eq_none_of_isPlain` — and is not refused, if it is not too long
-/

namespace Zapshare

open Wire

/-- The methods of the requests that the programs send. -/
inductive Method
  | get
  | post
  deriving DecidableEq, Repr

/-- A request: its target is what stands in the request line between the method and the version, so
there is no line break in it. -/
structure Request where
  method : Method
  target : Bytes
  body : Bytes := []
  deriving DecidableEq, Repr

/-- An answer. -/
structure Response where
  status : ℕ
  body : Bytes := []
  deriving DecidableEq, Repr

/-- The statuses of success. -/
def Response.Success (r : Response) : Prop := 200 ≤ r.status ∧ r.status < 300

instance (r : Response) : Decidable r.Success :=
  inferInstanceAs (Decidable (200 ≤ r.status ∧ r.status < 300))

namespace Http

/-- `CPPHTTPLIB_MAX_LINE_LENGTH`. -/
def maxLineLength : ℕ := 32768

/-- `CPPHTTPLIB_REQUEST_URI_MAX_LENGTH`. -/
def requestUriMaxLength : ℕ := 8192

/-! ### The client -/

/-- A hexadecimal digit below 16, in uppercase. -/
def upperHexDigit (n : ℕ) : UInt8 := UInt8.ofNat (if n < 10 then 48 + n else 55 + n)

/-- A byte behind a `%`. -/
def percentEncode (b : UInt8) : Bytes :=
  [37, upperHexDigit (b.toNat / 16), upperHexDigit (b.toNat % 16)]

/-- The characters `encode_path` writes in hexadecimal. -/
def escaped (b : UInt8) : Bool := b ∈ text " +\r\n',;" || 0x80 ≤ b

/-- `encode_path`, which ends at a null character. -/
def encodePath (s : Bytes) : Bytes :=
  (s.takeWhile (· ≠ 0)).flatMap fun b => if escaped b then percentEncode b else [b]

/-- The target of a request for a path. A query is normalised. -/
def requestTarget (platform : Platform) (path : Bytes) : Bytes :=
  let query := (path.dropWhile (· ≠ 63)).drop 1
  let normalized := platform.normalizeQuery query
  encodePath (path.takeWhile (· ≠ 63)) ++
    if query = [] ∨ normalized = [] then [] else 63 :: normalized

/-- The request of `client.Get(url)`. -/
def getRequest (platform : Platform) (url : Bytes) : Request where
  method := .get
  target := requestTarget platform url

/-- The request of `client.Post(url, body)`. -/
def postRequest (platform : Platform) (url body : Bytes) : Request where
  method := .post
  target := requestTarget platform url
  body := body

/-! ### The server -/

/-- `is_hex`. -/
def isHex (b : UInt8) : Option ℕ :=
  if isDigit b then some (b.toNat - 48)
  else if 65 ≤ b ∧ b ≤ 70 then some (b.toNat - 55)
  else if 97 ≤ b ∧ b ≤ 102 then some (b.toNat - 87)
  else none

/-- `from_hex_to_i`: the first `count` characters as a number. -/
def fromHexToI (s : Bytes) (count : ℕ) : Option ℕ :=
  if s.length < count then none
  else (s.take count).foldlM (fun v b => (isHex b).map fun d => v * 16 + d) 0

/-- `to_utf8`, of a number of four hexadecimal digits. -/
def toUtf8 (code : ℕ) : Bytes :=
  if code < 0x80 then [UInt8.ofNat code]
  else if code < 0x800 then [UInt8.ofNat (0xC0 + code / 64), UInt8.ofNat (0x80 + code % 64)]
  else if 0xD800 ≤ code ∧ code < 0xE000 then []
  else
    [UInt8.ofNat (0xE0 + code / 4096), UInt8.ofNat (0x80 + code / 64 % 64),
      UInt8.ofNat (0x80 + code % 64)]

/-- What stands behind a `%`: the bytes it means, and how many characters it takes. -/
def readEscape : Bytes → Option (Bytes × ℕ)
  | 117 :: rest => (fromHexToI rest 4).map fun code => (toUtf8 code, 5)
  | rest => (fromHexToI rest 2).map fun code => ([UInt8.ofNat code], 2)

/-- The loop of `decode_path_component`, with the characters it still has to pass over. -/
def decodeFrom : ℕ → Bytes → Bytes
  | _, [] => []
  | skip + 1, _ :: rest => decodeFrom skip rest
  | 0, b :: rest =>
    if b = 37 then
      match readEscape rest with
      | some (bytes, skip) => bytes ++ decodeFrom skip rest
      | none => b :: decodeFrom 0 rest
    else b :: decodeFrom 0 rest

/-- `decode_path_component`. -/
def decodePathComponent (component : Bytes) : Bytes := decodeFrom 0 component

/-- `is_space_or_tab`. -/
def isSpaceOrTab (b : UInt8) : Bool := b == 32 || b == 9

/-- `trim`, as `split` applies it to each part of a line. -/
def trim (s : Bytes) : Bytes := (s.dropWhile isSpaceOrTab).rdropWhile isSpaceOrTab

/-- The target as `parse_request_line` keeps it: a fragment is cut off. -/
def parsedTarget (target : Bytes) : Bytes := (trim target).takeWhile (· ≠ 35)

/-- The path of a target: what stands before a fragment and a query. -/
def requestPath (target : Bytes) : Bytes :=
  decodePathComponent ((parsedTarget target).takeWhile (· ≠ 63))

/-- The method as it stands in the line. -/
def methodName : Method → Bytes
  | .get => text "GET"
  | .post => text "POST"

/-- The line a request starts with. -/
def requestLine (r : Request) : Bytes :=
  methodName r.method ++ 32 :: (r.target ++ text " HTTP/1.1\r\n")

/-- `getline` reads the line of the request: it gives a longer one up. -/
def LineRead (r : Request) : Prop := (requestLine r).length ≤ maxLineLength

instance (r : Request) : Decidable (LineRead r) :=
  inferInstanceAs (Decidable ((requestLine r).length ≤ maxLineLength))

/-- `parse_request_line` finds three parts in the line: the target is one word. At a null character
the line ends, and then not with a line break. -/
def LineParsed (target : Bytes) : Prop := trim target ≠ [] ∧ 32 ∉ trim target ∧ 0 ∉ target

instance (target : Bytes) : Decidable (LineParsed target) :=
  inferInstanceAs (Decidable (trim target ≠ [] ∧ 32 ∉ trim target ∧ 0 ∉ target))

/-- How `process_request` refuses a request. -/
inductive Refusal
  /-- The connection is closed without an answer. -/
  | dropped
  | answered (status : ℕ)
  deriving DecidableEq, Repr

/-- What `process_request` does at the sight of the first line, if it refuses the request there. -/
def refusal (r : Request) : Option Refusal :=
  if ¬ LineRead r then some .dropped
  else if ¬ LineParsed r.target then some (.answered 400)
  else if (parsedTarget r.target).length > requestUriMaxLength then some (.answered 414)
  else none

/-- A request that is refused without an answer is one whose line is not read; to the others an
error is answered. -/
theorem refusal_cases {r : Request} {how : Refusal} (h : refusal r = some how) :
    (how = .dropped ∧ ¬ LineRead r) ∨
      ∃ status, how = .answered status ∧ (400 ≤ status ∧ status < 500) ∧ LineRead r := by
  rw [refusal] at h
  split at h
  · rename_i hread
    exact Or.inl ⟨(Option.some.inj h).symm, hread⟩
  · rename_i hread
    rw [not_not] at hread
    refine Or.inr ?_
    split at h
    · exact ⟨400, (Option.some.inj h).symm, by decide, hread⟩
    · split at h
      · exact ⟨414, (Option.some.inj h).symm, by decide, hread⟩
      · cases h

/-- What is not refused is read. -/
theorem lineRead_of_refusal_eq_none {r : Request} (h : refusal r = none) : LineRead r := by
  by_contra hread
  rw [refusal, if_pos hread] at h
  cases h

/-! ### Plain paths -/

/-- The characters of a `[A-Za-z0-9\-]+` in a route. -/
def isSecretChar (b : UInt8) : Bool :=
  (65 ≤ b && b ≤ 90) || (97 ≤ b && b ≤ 122) || isDigit b || b == 45

/-- The characters that a path may have and arrive unchanged, among others. -/
def isPlain (b : UInt8) : Bool := isSecretChar b || b == 47 || b == 95

/-- Plain characters are neither escaped nor the start of an escape. -/
theorem not_escaped_of_isPlain {b : UInt8} (h : isPlain b = true) : escaped b = false ∧ b ≠ 37 := by
  constructor
  · by_contra hescaped
    simp only [escaped, Bool.not_eq_false, Bool.or_eq_true, decide_eq_true_eq] at hescaped
    rcases hescaped with hmem | hhigh
    · have key : ∀ c ∈ text " +\r\n',;", isPlain c = false := by
        simp [text, isPlain, isSecretChar, isDigit]
      rw [key b hmem] at h
      cases h
    · simp only [isPlain, isSecretChar, isDigit, Bool.or_eq_true, Bool.and_eq_true,
        decide_eq_true_eq, beq_iff_eq, UInt8.le_iff_toNat_le, ← UInt8.toNat_inj,
        UInt8.toNat_ofNat] at h hhigh
      omega
  · rintro rfl
    exact absurd h (by decide)

/-- Plain characters are not blank. -/
theorem isSpaceOrTab_of_isPlain {b : UInt8} (h : isPlain b = true) : isSpaceOrTab b = false := by
  by_contra hblank
  simp only [isSpaceOrTab, Bool.not_eq_false, Bool.or_eq_true, beq_iff_eq] at hblank
  rcases hblank with rfl | rfl <;> exact absurd h (by decide)

variable {path : Bytes}

/-- For a path that is written out, the test can be run. -/
theorem isPlain_of_all (h : path.all isPlain = true) : ∀ b ∈ path, isPlain b = true :=
  List.all_eq_true.mp h

theorem takeWhile_append_of_isPlain (h : ∀ b ∈ path, isPlain b = true) {c : UInt8}
    (hc : isPlain c = false) (rest : Bytes) :
    (path ++ rest).takeWhile (· ≠ c) = path ++ rest.takeWhile (· ≠ c) := by
  refine List.takeWhile_append_of_pos ?_
  intro b hb
  refine decide_eq_true ?_
  rintro rfl
  rw [h b hb] at hc
  cases hc

theorem takeWhile_of_isPlain (h : ∀ b ∈ path, isPlain b = true) {c : UInt8}
    (hc : isPlain c = false) : path.takeWhile (· ≠ c) = path := by
  have happend := takeWhile_append_of_isPlain h hc []
  rwa [List.append_nil, List.takeWhile_nil, List.append_nil] at happend

theorem encodePath_append (h : ∀ b ∈ path, isPlain b = true) (rest : Bytes) :
    encodePath (path ++ rest) = path ++ encodePath rest := by
  rw [encodePath, takeWhile_append_of_isPlain h (by decide), List.flatMap_append, encodePath]
  congr 1
  induction path with
  | nil => rfl
  | cons b path ih =>
    have hb := (not_escaped_of_isPlain (h b List.mem_cons_self)).1
    rw [List.flatMap_cons, ih fun c hc => h c (List.mem_cons_of_mem b hc), hb]
    rfl

theorem decodePathComponent_append (h : ∀ b ∈ path, isPlain b = true) (rest : Bytes) :
    decodePathComponent (path ++ rest) = path ++ decodePathComponent rest := by
  simp only [decodePathComponent]
  induction path with
  | nil => rfl
  | cons b path ih =>
    have hb := (not_escaped_of_isPlain (h b List.mem_cons_self)).2
    rw [List.cons_append, decodeFrom, if_neg hb, ih fun c hc => h c (List.mem_cons_of_mem b hc)]
    rfl

theorem encodePath_of_isPlain (h : ∀ b ∈ path, isPlain b = true) : encodePath path = path := by
  have happend := encodePath_append h []
  rwa [List.append_nil, show encodePath [] = [] from rfl, List.append_nil] at happend

theorem decodePathComponent_of_isPlain (h : ∀ b ∈ path, isPlain b = true) :
    decodePathComponent path = path := by
  have happend := decodePathComponent_append h []
  rwa [List.append_nil, show decodePathComponent [] = [] from rfl, List.append_nil] at happend

/-- There is nothing to trim in front of a plain start, nor in it. -/
theorem trim_append_of_isPlain (h : ∀ b ∈ path, isPlain b = true) (hne : path ≠ [])
    (rest : Bytes) : ∃ rest', trim (path ++ rest) = path ++ rest' := by
  have hblank : ∀ b ∈ path, isSpaceOrTab b = false := fun b hb => isSpaceOrTab_of_isPlain (h b hb)
  obtain ⟨b, path', rfl⟩ := List.exists_cons_of_ne_nil hne
  rw [trim, List.cons_append, List.dropWhile_cons_of_neg (by simp [hblank b List.mem_cons_self]),
    ← List.cons_append, List.rdropWhile, List.reverse_append, List.dropWhile_append]
  split
  · refine ⟨[], ?_⟩
    rw [List.append_nil, ← List.rdropWhile, List.rdropWhile_eq_self_iff]
    intro hne'
    simp [hblank _ (List.getLast_mem hne')]
  · exact ⟨_, by rw [List.reverse_append, List.reverse_reverse]⟩

theorem trim_of_isPlain (h : ∀ b ∈ path, isPlain b = true) : trim path = path := by
  have hblank : ∀ b ∈ path, ¬ isSpaceOrTab b = true := by
    intro b hb
    simp [isSpaceOrTab_of_isPlain (h b hb)]
  have hdrop : path.dropWhile isSpaceOrTab = path := by
    rw [List.dropWhile_eq_self_iff]
    intro hlength
    exact hblank _ (List.getElem_mem hlength)
  rw [trim, hdrop, List.rdropWhile_eq_self_iff]
  intro hne
  exact hblank _ (List.getLast_mem hne)

theorem parsedTarget_of_isPlain (h : ∀ b ∈ path, isPlain b = true) : parsedTarget path = path := by
  rw [parsedTarget, trim_of_isPlain h, takeWhile_of_isPlain h (by decide)]

/-- Whatever stands behind a plain start of a path, the start arrives unchanged. -/
theorem exists_requestPath_append (platform : Platform) (h : ∀ b ∈ path, isPlain b = true)
    (behind : Bytes) :
    ∃ rest, requestPath (requestTarget platform (path ++ behind)) = path ++ rest := by
  by_cases hne : path = []
  · subst hne
    exact ⟨_, (List.nil_append _).symm⟩
  rw [requestTarget, takeWhile_append_of_isPlain h (by decide), encodePath_append h,
    List.append_assoc, requestPath, parsedTarget]
  obtain ⟨rest, htrim⟩ := trim_append_of_isPlain h hne _
  rw [htrim, takeWhile_append_of_isPlain h (by decide),
    takeWhile_append_of_isPlain h (by decide), decodePathComponent_append h]
  exact ⟨_, rfl⟩

theorem requestTarget_of_isPlain (platform : Platform) (h : ∀ b ∈ path, isPlain b = true) :
    requestTarget platform path = path := by
  have hdrop : path.dropWhile (· ≠ 63) = [] := by
    have happend := List.takeWhile_append_dropWhile (p := fun b => decide (b ≠ 63)) (l := path)
    rw [takeWhile_of_isPlain h (by decide)] at happend
    exact List.append_right_eq_self.mp happend
  rw [requestTarget, hdrop, takeWhile_of_isPlain h (by decide), encodePath_of_isPlain h]
  simp

/-- **A plain path arrives unchanged.** -/
theorem requestPath_requestTarget (platform : Platform) (h : ∀ b ∈ path, isPlain b = true) :
    requestPath (requestTarget platform path) = path := by
  rw [requestTarget_of_isPlain platform h, requestPath, parsedTarget_of_isPlain h,
    takeWhile_of_isPlain h (by decide), decodePathComponent_of_isPlain h]

/-- **A plain path is not refused** if it is not too long. -/
theorem refusal_eq_none_of_isPlain (platform : Platform) (h : ∀ b ∈ path, isPlain b = true)
    (hne : path ≠ []) (hlength : path.length ≤ requestUriMaxLength) {method : Method}
    {body : Bytes} :
    refusal { method, target := requestTarget platform path, body } = none := by
  rw [requestTarget_of_isPlain platform h]
  have hread : LineRead { method, target := path, body } := by
    have hmethod : (methodName method).length ≤ 4 := by cases method <;> decide
    have hversion : (text " HTTP/1.1\r\n").length = 11 := by decide
    rw [requestUriMaxLength] at hlength
    simp only [LineRead, requestLine, maxLineLength, List.length_append, List.length_cons, hversion]
    omega
  have hparsed : LineParsed path := by
    have habsent : ∀ b, isPlain b = false → b ∉ path := by
      intro b hb hmem
      rw [h b hmem] at hb
      cases hb
    rw [LineParsed, trim_of_isPlain h]
    exact ⟨hne, habsent 32 (by decide), habsent 0 (by decide)⟩
  rw [refusal, if_neg (not_not_intro hread), if_neg (not_not_intro hparsed), if_neg]
  rw [parsedTarget_of_isPlain h]
  exact Nat.not_lt.mpr hlength

end Http

end Zapshare
