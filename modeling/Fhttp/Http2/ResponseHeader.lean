import Fhttp.Http2.Framer

/-!
# The header of a response

What `clientConnReadLoop.handleResponse` and `processTrailers` take from the fields of a
`HEADERS` frame: the status, the header map, the announced trailers and the content
length.  The functions of the standard library that they use are modelled too:
`strconv.Atoi`, `strconv.ParseUint`, `textproto.CanonicalMIMEHeaderKey` and
`textproto.TrimString`.

A header map is the list of its keys with their values.
-/

namespace Fhttp.Http2

open Hpack (Bytes HeaderField ascii)

/-! ## Numbers -/

def isDigit (b : UInt8) : Bool := 0x30 ≤ b && b ≤ 0x39

/-- The value of a number in decimal digits. -/
def decimal? (s : Bytes) : Option Nat :=
  if s.isEmpty || !s.all isDigit then none
  else some (s.foldl (fun n b => 10 * n + (b.toNat - 0x30)) 0)

/-- `strconv.Atoi`. -/
def atoi (s : Bytes) : Option Int :=
  match s with
  | [] => none
  | b :: rest =>
    if b = 0x2d then
      (decimal? rest).bind fun n => if n ≤ 2 ^ 63 then some (-(n : Int)) else none
    else
      (decimal? (if b = 0x2b then rest else s)).bind fun n =>
        if n < 2 ^ 63 then some (n : Int) else none

/-- `strconv.ParseUint(s, 10, 63)`. -/
def parseUint63 (s : Bytes) : Option Nat :=
  (decimal? s).bind fun n => if n < 2 ^ 63 then some n else none

/-! ## Header maps -/

/-- `validHeaderFieldByte` of `net/textproto`: the characters of a token. -/
def validHeaderFieldByte (b : UInt8) : Bool :=
  isDigit b || (0x41 ≤ b && b ≤ 0x5a) || (0x61 ≤ b && b ≤ 0x7a) || b ∈ ascii "!#$%&'*+-.^_`|~"

/-- The documented behaviour of the tables of `httpguts`: the characters of a token, and
the octets of a field value, which are no control characters but may be blanks. -/
structure HttpGuts.Documented (g : HttpGuts) : Prop where
  token : ∀ b, g.isTokenByte b = validHeaderFieldByte b
  value : ∀ b, g.isValueByte b = !((b < 0x20 && b != 0x09) || b == 0x7f)

/-- The tables themselves. -/
def HttpGuts.tables : HttpGuts where
  isTokenByte := validHeaderFieldByte
  isValueByte b := !((b < 0x20 && b != 0x09) || b == 0x7f)

theorem HttpGuts.documented_tables : HttpGuts.tables.Documented := ⟨fun _ => rfl, fun _ => rfl⟩

/-- A letter of a canonical key. -/
def canonicalLetter (upper : Bool) (b : UInt8) : UInt8 :=
  if upper && (0x61 ≤ b && b ≤ 0x7a) then b - 0x20
  else if !upper && (0x41 ≤ b && b ≤ 0x5a) then b + 0x20
  else b

/-- The letters of a key: the first one and those after a hyphen are upper case. -/
def canonicalLetters (upper : Bool) : Bytes → Bytes
  | [] => []
  | b :: s => canonicalLetter upper b :: canonicalLetters (canonicalLetter upper b == 0x2d) s

/-- `http.CanonicalHeaderKey`. -/
def canonicalHeaderKey (s : Bytes) : Bytes :=
  if s.all validHeaderFieldByte then canonicalLetters true s else s

/-- `http.Header`. -/
abbrev Header := List (Bytes × List Bytes)

namespace Header

/-- `h[key]`, if the key is in the map. -/
def get? (h : Header) (key : Bytes) : Option (List Bytes) := (h.find? (·.1 == key)).map Prod.snd

/-- `h[key]`, which is nil when the key is not in the map. -/
def get (h : Header) (key : Bytes) : List Bytes := (h.get? key).getD []

/-- `h[key] = values`. -/
def set (h : Header) (key : Bytes) (values : List Bytes) : Header :=
  h.filter (·.1 != key) ++ [(key, values)]

/-- `h[key] = append(h[key], value)`. -/
def append (h : Header) (key value : Bytes) : Header := h.set key (h.get key ++ [value])

/-- Whether the map has the key. -/
def has (h : Header) (key : Bytes) : Bool := h.any (·.1 == key)

/-- `delete(h, key)`. -/
def del (h : Header) (key : Bytes) : Header := h.filter (·.1 != key)

/-- `Get` of a canonical key: the first value. -/
def first (h : Header) (key : Bytes) : Bytes := (h.get key).headD []

variable {h : Header} {key : Bytes} {p : Bytes × List Bytes → Bool}

theorem get?_eq_none : h.get? key = none ↔ ∀ kv ∈ h, kv.1 ≠ key := by
  simp [get?]

theorem get?_filter (hp : ∀ kv, kv.1 = key → p kv = true) :
    get? (h.filter p) key = h.get? key := by
  have hsame : (fun kv => decide (p kv = true ∧ (kv.1 == key) = true)) =
      fun kv : Bytes × List Bytes => kv.1 == key := by
    funext kv
    by_cases heq : kv.1 = key
    · rw [hp kv heq, heq]
      simp
    · rw [beq_false_of_ne heq]
      simp
  unfold get?
  rw [List.find?_filter, hsame]

theorem get_filter (hp : ∀ kv, kv.1 = key → p kv = true) : get (h.filter p) key = h.get key :=
  congrArg (Option.getD · []) (get?_filter hp)

theorem get?_del (h : Header) (k k' : Bytes) :
    (h.del k).get? k' = if k' = k then none else h.get? k' := by
  split
  · rename_i heq
    rw [get?_eq_none, heq]
    exact fun kv hkv => bne_iff_ne.mp (List.mem_filter.mp hkv).2
  · rename_i hne
    exact get?_filter fun kv heq => bne_iff_ne.mpr (heq ▸ hne)

theorem get?_set (h : Header) (k k' : Bytes) (v : List Bytes) :
    (h.set k v).get? k' = if k' = k then some v else h.get? k' := by
  have hset : (h.set k v).get? k' = ((h.del k).get? k').or (get? [(k, v)] k') := by
    unfold get? set del
    rw [List.find?_append, Option.map_or]
  rw [hset, get?_del]
  by_cases heq : k' = k
  · simp [heq, get?]
  · simp [heq, Ne.symm heq, get?]

theorem get_set (h : Header) (k k' : Bytes) (v : List Bytes) :
    (h.set k v).get k' = if k' = k then v else h.get k' := by
  rw [get, get?_set]
  split <;> rfl

theorem mem_keys_of_get (hne : h.get key ≠ []) : key ∈ h.map Prod.fst := by
  by_contra hmem
  refine hne (congrArg (Option.getD · []) (get?_eq_none.mpr fun kv hkv heq => ?_))
  exact hmem (List.mem_map.mpr ⟨kv, hkv, heq⟩)

end Header

/-! ## Lists of header elements -/

/-- `isASCIISpace` of `net/textproto`. -/
def isSpace (b : UInt8) : Bool := b == 0x20 || b == 0x09 || b == 0x0a || b == 0x0d

/-- `textproto.TrimString`. -/
def trimString (s : Bytes) : Bytes :=
  ((s.dropWhile isSpace).reverse.dropWhile isSpace).reverse

/-- The parts of a string between commas. -/
def splitComma : Bytes → List Bytes
  | [] => [[]]
  | b :: s =>
    if b = 0x2c then [] :: splitComma s
    else
      match splitComma s with
      | [] => [[b]]
      | part :: parts => (b :: part) :: parts

/-- The elements that `foreachHeaderElement` visits. -/
def headerElements (v : Bytes) : List Bytes :=
  let v := trimString v
  if v = [] then []
  else if !v.contains 0x2c then [v]
  else ((splitComma v).map trimString).filter (· ≠ [])

/-! ## The fields of a frame -/

/-- `MetaHeadersFrame.PseudoValue`; the name has its colon. -/
def pseudoValue (fields : List HeaderField) (pseudo : Bytes) : Bytes :=
  (((pseudoFields fields).find? (·.name == pseudo)).map HeaderField.value).getD []

/-- `MetaHeadersFrame.RegularFields`. -/
def regularFields (fields : List HeaderField) : List HeaderField :=
  fields.dropWhile HeaderField.isPseudo

/-- One regular field of a response: the field `Trailer` announces trailers, all others are
added to the header. -/
def addResponseField (acc : Header × Header) (hf : HeaderField) : Header × Header :=
  let key := canonicalHeaderKey hf.name
  if key = ascii "Trailer" then
    (acc.1, (headerElements hf.value).foldl (fun t v => t.set (canonicalHeaderKey v) []) acc.2)
  else (acc.1.append key hf.value, acc.2)

/-- The header and the announced trailers of a response. -/
def responseHeader (fields : List HeaderField) : Header × Header :=
  (regularFields fields).foldl addResponseField ([], [])

/-- The header map of the regular fields of a frame. -/
def regularHeader (fields : List HeaderField) : Header :=
  (regularFields fields).foldl (fun h hf => h.append (canonicalHeaderKey hf.name) hf.value) []

/-- `bodyAllowedForStatus`, of which package `http2` has a copy. -/
def bodyAllowedForStatus (status : Int) : Bool :=
  if status ≥ 100 ∧ status ≤ 199 then false
  else if status = 204 then false
  else if status = 304 then false
  else true

/-- `ContentLength` of a response that may have a body: -1 when it is not known. -/
def responseContentLength (header : Header) : Int :=
  match header.get (ascii "Content-Length") with
  | [clen] => ((parseUint63 clen).map (fun n => (n : Int))).getD (-1)
  | _ => -1

end Fhttp.Http2
