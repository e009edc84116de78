import Mathlib.Data.List.DropRight
import Fhttp.Http.HeaderWrite

/-!
# How a message delimits its body

`readTransfer` of `transfer.go`, which reads the framing of a request or of a response from its
header: the fields `Transfer-Encoding`, `Content-Length` and `Trailer` are checked and removed or
rewritten, and the body is the reader that they call for.

`HeaderValuesContainsToken` of `httpguts` is a parameter.
-/

namespace Fhttp.Http

open Hpack (Bytes ascii)
open Http2 (Header isSpace trimString canonicalHeaderKey headerElements parseUint63
  bodyAllowedForStatus)
open List

/-! ## The entries of a header -/

/-- Deleting a key that is not there changes nothing. -/
theorem del_of_get?_none {h : Header} {k : Bytes} (hnone : h.get? k = none) : h.del k = h :=
  filter_eq_self.mpr fun kv hkv => bne_iff_ne.mpr (Header.get?_eq_none.mp hnone kv hkv)

/-- Trimming twice is trimming once. -/
theorem trimString_trimString (s : Bytes) : trimString (trimString s) = trimString s := by
  have hfront : ((s.dropWhile isSpace).rdropWhile isSpace).dropWhile isSpace =
      (s.dropWhile isSpace).rdropWhile isSpace := by
    rw [dropWhile_eq_self_iff]
    intro hpos
    have hfront : (s.dropWhile isSpace).rdropWhile isSpace <+: s.dropWhile isSpace :=
      rdropWhile_prefix isSpace _
    have hlong : 0 < (s.dropWhile isSpace).length := Nat.lt_of_lt_of_le hpos hfront.length_le
    rw [hfront.getElem hpos]
    exact dropWhile_get_zero_not isSpace s hlong
  show (((s.dropWhile isSpace).rdropWhile isSpace).dropWhile isSpace).rdropWhile isSpace =
    (s.dropWhile isSpace).rdropWhile isSpace
  rw [hfront]
  exact rdropWhile_idempotent isSpace _

/-! ## The reader's state -/

/-- The errors, with the strings that their texts quote. -/
inductive TransferError where
  /-- An `unsupportedTEError`. -/
  | unsupportedTE (text : String) (got : List Bytes)
  | errorf (text : String) (got : List Bytes)
  /-- `badStringError`. -/
  | badString (what : String) (str : Bytes)
deriving DecidableEq, Repr

/-- The body of a message: no bytes, or a reader for the connection. -/
inductive Body where
  | noBody
  /-- A chunked reader; the trailer is read after it. -/
  | chunked (closing : Bool)
  /-- An `io.LimitReader`. -/
  | limited (n : Nat) (closing : Bool)
  /-- The connection itself. -/
  | untilClose (closing : Bool)
deriving DecidableEq, Repr

/-- What kind of message it is: a request with its method and `Close`, or a response with its
status and with the method of its `Request`, unless that is nil. -/
inductive Origin where
  | request (method : Bytes) (close : Bool)
  | response (statusCode : Int) (request : Option Bytes)
deriving DecidableEq, Repr

structure Message where
  origin : Origin
  protoMajor : Int
  protoMinor : Int
  header : Header
  transferEncoding : List Bytes
deriving DecidableEq, Repr

/-- The fields that `readTransfer` sets in a message. -/
structure Transferred where
  header : Header
  body : Body
  contentLength : Int
  transferEncoding : List Bytes
  close : Bool
  trailer : Option Header
deriving DecidableEq, Repr

structure TransferReader where
  header : Header
  statusCode : Int
  requestMethod : Bytes
  protoMajor : Int
  protoMinor : Int
  chunked : Bool
  close : Bool
deriving DecidableEq, Repr

/-- A version is `m.n` or later. -/
def atLeast (major minor m n : Int) : Bool := major > m || (major == m && minor ≥ n)

def TransferReader.protoAtLeast (t : TransferReader) (m n : Int) : Bool :=
  atLeast t.protoMajor t.protoMinor m n

def noResponseBodyExpected (requestMethod : Bytes) : Bool := requestMethod == ascii "HEAD"

def Message.isResponse (m : Message) : Bool :=
  match m.origin with
  | .request _ _ => false
  | .response _ _ => true

/-! ## The header fields -/

/-- `shouldClose`, with the header that it leaves. -/
def shouldClose (hasToken : List Bytes → Bytes → Bool) (major minor : Int) (header : Header)
    (removeCloseHeader : Bool) : Bool × Header :=
  if major < 1 then (true, header)
  else
    let conv := header.get (ascii "Connection")
    let hasClose := hasToken conv (ascii "close")
    if major = 1 ∧ minor = 0 then
      (hasClose || !hasToken conv (ascii "keep-alive"), header)
    else if hasClose && removeCloseHeader then
      (hasClose, header.del (ascii "Connection"))
    else (hasClose, header)

/-- The version of a message: 1.1 if it is unset. -/
def Message.version (m : Message) : Int × Int :=
  if m.protoMajor = 0 ∧ m.protoMinor = 0 then (1, 1) else (m.protoMajor, m.protoMinor)

/-- The reader for a message. -/
def transferReader (hasToken : List Bytes → Bytes → Bool) (m : Message) : TransferReader :=
  match m.origin with
  | .response statusCode request =>
    let c := shouldClose hasToken m.protoMajor m.protoMinor m.header true
    { header := c.2, statusCode, requestMethod := request.getD (ascii "GET"),
      protoMajor := m.version.1, protoMinor := m.version.2, chunked := false, close := c.1 }
  | .request method close =>
    { header := m.header, statusCode := 200, requestMethod := method,
      protoMajor := m.version.1, protoMinor := m.version.2, chunked := false, close }

def TransferReader.parseTransferEncoding (rt : Runtime) (t : TransferReader) :
    Except TransferError TransferReader :=
  match t.header.get? (ascii "Transfer-Encoding") with
  | none => .ok t
  | some raw =>
    let header := t.header.del (ascii "Transfer-Encoding")
    if !t.protoAtLeast 1 1 then .ok { t with header }
    else
      match raw with
      | [v] =>
        if rt.toLower (trimString v) ≠ ascii "chunked" then
          .error (.unsupportedTE "unsupported transfer encoding: %q" [v])
        else
          .ok { t with
            header := header.del (ascii "Content-Length")
            chunked := true }
      | _ => .error (.unsupportedTE "too many transfer encodings: %q" raw)

/-- `parseContentLength`: -1 if no value is set. -/
def parseContentLength (cl : Bytes) : Except TransferError Int :=
  let cl := trimString cl
  if cl = [] then .ok (-1)
  else
    match parseUint63 cl with
    | none => .error (.badString "bad Content-Length" cl)
    | some n => .ok n

/-- The header with one of several equal `Content-Length` values. -/
def dedupContentLength (header : Header) : Except TransferError Header :=
  match header.get (ascii "Content-Length") with
  | v :: w :: rest =>
    if (w :: rest).all fun ct => trimString v == trimString ct then
      .ok ((header.del (ascii "Content-Length")).append (ascii "Content-Length")
        (trimString v))
    else
      .error (.errorf "http: message cannot contain multiple Content-Length headers; got %q"
        (v :: w :: rest))
  | _ => .ok header

/-- The only `Content-Length` value, or the empty string. -/
def onlyLength (header : Header) : Bytes :=
  match header.get (ascii "Content-Length") with
  | [v] => trimString v
  | _ => []

/-- The length that the only `Content-Length` value gives, if that is not blank. -/
def lengthOf (isResponse : Bool) (header : Header) : Except TransferError (Int × Header) :=
  if onlyLength header ≠ [] then
    (parseContentLength (onlyLength header)).map fun n => (n, header)
  else .ok (if isResponse then -1 else 0, header.del (ascii "Content-Length"))

/-- `fixLength`, after the values have been compared. -/
def fixLengthOf (isResponse : Bool) (status : Int) (requestMethod : Bytes) (header : Header)
    (chunked : Bool) : Except TransferError (Int × Header) :=
  let contentLens := header.get (ascii "Content-Length")
  if noResponseBodyExpected requestMethod then
    if !isResponse && !contentLens.isEmpty && contentLens != [ascii "0"] then
      .error (.errorf "http: method cannot contain a Content-Length; got %q" contentLens)
    else .ok (0, header)
  else if status.tdiv 100 = 1 then .ok (0, header)
  else if status = 204 ∨ status = 304 then .ok (0, header)
  else if chunked then .ok (-1, header)
  else lengthOf isResponse header

/-- `fixLength`, with the header that it leaves. -/
def fixLength (isResponse : Bool) (status : Int) (requestMethod : Bytes) (header : Header)
    (chunked : Bool) : Except TransferError (Int × Header) :=
  dedupContentLength header >>= fun header =>
    fixLengthOf isResponse status requestMethod header chunked

/-- The keys that must not be in a trailer. -/
def forbiddenTrailer (key : Bytes) : Bool :=
  key == ascii "Transfer-Encoding" || key == ascii "Trailer" || key == ascii "Content-Length"

/-- The keys that the values of a `Trailer` field announce. -/
def trailerKeys (vv : List Bytes) : List Bytes :=
  vv.flatMap fun v => (headerElements v).map canonicalHeaderKey

/-- The trailer with these keys, which is nil if there are none. -/
def announced (keys : List Bytes) : Option Header :=
  if keys = [] then none
  else some (keys.foldl (fun trailer key => trailer.set key []) [])

/-- `fixTrailer`, with the header that it leaves. -/
def fixTrailer (header : Header) (chunked : Bool) :
    Except TransferError (Option Header × Header) :=
  match header.get? (ascii "Trailer") with
  | none => .ok (none, header)
  | some vv =>
    if !chunked then .ok (none, header)
    else
      match (trailerKeys vv).find? forbiddenTrailer with
      | some key => .error (.badString "bad trailer Key" key)
      | none => .ok (announced (trailerKeys vv), header.del (ascii "Trailer"))

/-! ## readTransfer -/

/-- The body reader for the length, which is negative when there is no `Content-Length`. -/
def prepareBody (chunked : Bool) (requestMethod : Bytes) (statusCode realLength : Int)
    (close : Bool) : Body :=
  if chunked then
    if noResponseBodyExpected requestMethod || !bodyAllowedForStatus statusCode then .noBody
    else .chunked close
  else if realLength = 0 then .noBody
  else if realLength > 0 then .limited realLength.toNat close
  else if close then .untilClose close
  else .noBody

/-- What `ContentLength` is set to. -/
def reportedLength (isResponse : Bool) (requestMethod : Bytes) (realLength : Int)
    (header : Header) : Except TransferError Int :=
  if isResponse && requestMethod == ascii "HEAD" then
    parseContentLength (header.first (ascii "Content-Length"))
  else .ok realLength

/-- The body of a response is unbounded if nothing limits it; the connection is closed then. -/
def closeAfter (isResponse : Bool) (t : TransferReader) (realLength : Int) : Bool :=
  t.close || isResponse && realLength == -1 && !t.chunked && bodyAllowedForStatus t.statusCode

/-- The fields of the message, once its header has been read. -/
def unifyOutput (m : Message) (t : TransferReader) (realLength contentLength : Int)
    (trailer : Option Header × Header) : Transferred :=
  let close := closeAfter m.isResponse t realLength
  { header := trailer.2
    body := prepareBody t.chunked t.requestMethod t.statusCode realLength close
    contentLength
    transferEncoding := if t.chunked then [ascii "chunked"] else m.transferEncoding
    close
    trailer := trailer.1 }

def readTransfer (rt : Runtime) (hasToken : List Bytes → Bytes → Bool) (m : Message) :
    Except TransferError Transferred :=
  (transferReader hasToken m).parseTransferEncoding rt >>= fun t =>
    fixLength m.isResponse t.statusCode t.requestMethod t.header t.chunked >>= fun len =>
      reportedLength m.isResponse t.requestMethod len.1 len.2 >>= fun contentLength =>
        (fixTrailer len.2 t.chunked).map (unifyOutput m t len.1 contentLength)

end Fhttp.Http
