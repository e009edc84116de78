import Fhttp.Http2.EncodeHeaders

/-!
# The writer of a response

`responseWriter` and `responseWriterState` of `http2/server.go`: what a handler does to its
response, and the frames that are asked for.  A handler changes the map that `Header` returns,
calls `WriteHeader`, `Write` and `Flush`, and returns.  Bytes go through a `bufio.Writer`, whose
`Write` and `Flush` are modelled too, to `writeChunk`, which sends the header before the first
chunk and decides where the stream ends.

The frames are the `writeResHeaders` and `writeData` that go to the connection.  All of them are
written; only the frame that ends the stream may come back with an error, when the handler sees
that the stream is closed before it sees the result.
-/

namespace Fhttp.Http2

open Hpack (Bytes HeaderField ascii)
open Lib.Panic (Fault)

/-- What a response depends on besides its handler. -/
structure ResponseEnv where
  rt : Http.Runtime
  guts : HttpGuts
  /-- `httpguts.ValidTrailerHeader`, which forbids the fields that are about the message. -/
  validTrailerHeader : Bytes → Bool
  validTrailerHeader_te : validTrailerHeader (ascii "Transfer-Encoding") = false
  /-- `http.DetectContentType`. -/
  detectContentType : Bytes → Bytes
  /-- The text of the time. -/
  date : Bytes
  /-- The method of the request is HEAD. -/
  isHead : Bool
  /-- The handler sees the end of the stream before the result of its last frame. -/
  closedFirst : Bool
  /-- The keys that a `range` over the header map visits while it is changed: those of the map at
  the start, and any of those that are added. -/
  visits : Header → List Bytes
  visits_all : ∀ h, ∀ k ∈ h.map Prod.fst, k ∈ visits h

/-! ## The frames -/

/-- `writeResHeaders`. -/
structure ResHeaders where
  /-- 0 means no `:status`. -/
  httpResCode : Int := 0
  h : Header
  /-- Which keys of `h` to write; all if there is no list. -/
  trailers : Option (List Bytes) := none
  endStream : Bool
  date : Bytes := []
  contentType : Bytes := []
  contentLength : Bytes := []
deriving DecidableEq

/-- What a handler asks the connection to write. -/
inductive ResponseWrite where
  | headers (w : ResHeaders)
  | data (p : Bytes) (endStream : Bool)
deriving DecidableEq

/-- Some keys, sorted. -/
def sortedKeys (keys : List Bytes) : List Bytes := keys.mergeSort fun a b => decide (a ≤ b)

/-- The fields of one key: invalid ones are left out. -/
def encodeKey (env : ResponseEnv) (h : Header) (key : Bytes) : List HeaderField :=
  let name := env.rt.toLower key
  if !env.guts.validWireHeaderFieldName name then []
  else
    ((h.get key).filter fun v =>
      env.guts.validHeaderFieldValue v &&
        !(name == ascii "transfer-encoding" && v != ascii "trailers")).map
      fun v => { name := name, value := v }

/-- `encodeHeaders`. -/
def encodeHeaders (env : ResponseEnv) (h : Header) (keys : Option (List Bytes)) :
    List HeaderField :=
  (keys.getD (sortedKeys (h.map Prod.fst))).flatMap (encodeKey env h)

/-- A field with a value, if there is one. -/
def optionalField (name : String) (value : Bytes) : List HeaderField :=
  if value = [] then [] else [{ name := ascii name, value := value }]

/-- The fields that `writeResHeaders.writeFrame` encodes. -/
def ResHeaders.fields (env : ResponseEnv) (w : ResHeaders) : List HeaderField :=
  (if w.httpResCode = 0 then []
    else [{ name := ascii ":status", value := formatInt w.httpResCode }]) ++
    encodeHeaders env w.h w.trailers ++ optionalField "content-type" w.contentType ++
    optionalField "content-length" w.contentLength ++ optionalField "date" w.date

/-! ## The state -/

/-- The errors that `Write` and `Flush` may return. -/
inductive ResponseError where
  | errBodyNotAllowed
  /-- The handler wrote more than the declared `Content-Length`. -/
  | wroteTooMuch
  | errStreamClosed
  | errShortWrite
deriving DecidableEq, Repr

/-- `responseWriterState`. -/
structure ResponseWriter where
  handlerHeader : Header := []
  /-- The header map at the time of `WriteHeader`. -/
  snapHeader : Header := []
  trailers : List Bytes := []
  status : Int := 0
  wroteHeader : Bool := false
  sentHeader : Bool := false
  handlerDone : Bool := false
  dirty : Bool := false
  sentContentLen : Int64 := 0
  wroteBytes : Int64 := 0
  /-- The bytes in the `bufio.Writer`. -/
  buf : Bytes := []
  /-- The error of the `bufio.Writer`, which stays. -/
  bwErr : Option ResponseError := none
  /-- What was asked for. -/
  out : List ResponseWrite := []
  /-- `startGracefulShutdown` was called. -/
  shutdown : Bool := false
deriving DecidableEq

/-- The size of the buffer. -/
def handlerChunkWriteSize : Nat := 4 * 1024

/-- `TrailerPrefix`. -/
def trailerFront : Bytes := ascii "Trailer:"

namespace ResponseWriter

/-- `declareTrailer`. -/
def declareTrailer (env : ResponseEnv) (trailers : List Bytes) (k : Bytes) : List Bytes :=
  let k := canonicalHeaderKey k
  if !env.validTrailerHeader k then trailers
  else if trailers.contains k then trailers
  else trailers ++ [k]

/-- The trailers that a header map declares. -/
def declareTrailers (env : ResponseEnv) (trailers : List Bytes) (h : Header) : List Bytes :=
  ((h.get (ascii "Trailer")).flatMap headerElements).foldl (declareTrailer env) trailers

def hasTrailers (s : ResponseWriter) : Bool := s.trailers.length > 0

def hasNonemptyTrailers (s : ResponseWriter) : Bool := s.trailers.any s.handlerHeader.has

/-- `writeHeader` after the check of the code. -/
def snapshot (s : ResponseWriter) (code : Int) : ResponseWriter :=
  if s.wroteHeader then s
  else { s with wroteHeader := true, status := code, snapHeader := s.handlerHeader }

/-- `writeHeader`, which panics on a code that has not three digits. -/
def writeHeader (s : ResponseWriter) (code : Int) : Except Fault ResponseWriter :=
  if s.wroteHeader then .ok s
  else if code < 100 ∨ code > 999 then .error (.panic s!"invalid WriteHeader code {code}")
  else .ok (s.snapshot code)

/-- A visit of a key in `promoteUndeclaredTrailers`. -/
def promoteKey (env : ResponseEnv) (s : ResponseWriter) (k : Bytes) : ResponseWriter :=
  if trailerFront.isPrefixOf k && s.handlerHeader.has k then
    let trailerKey := k.drop trailerFront.length
    { s with
      trailers := declareTrailer env s.trailers trailerKey
      handlerHeader :=
        s.handlerHeader.set (canonicalHeaderKey trailerKey) (s.handlerHeader.get k) }
  else s

/-- `promoteUndeclaredTrailers`. -/
def promoteUndeclaredTrailers (env : ResponseEnv) (s : ResponseWriter) : ResponseWriter :=
  let s := (env.visits s.handlerHeader).foldl (promoteKey env) s
  { s with trailers := sortedKeys s.trailers }

/-- The result of a frame that goes to the connection. -/
def frameResult (env : ResponseEnv) (endStream : Bool) : Option ResponseError :=
  if endStream && env.closedFirst then some .errStreamClosed else none

/-- The length that is sent in the header, as text. -/
def contentLengthText (env : ResponseEnv) (s : ResponseWriter) (p : Bytes) : Bytes :=
  let clen := s.snapHeader.first (ascii "Content-Length")
  if (parseUint63 clen).isSome then clen
  else if s.handlerDone && bodyAllowedForStatus s.status && (p.length > 0 || !env.isHead) then
    formatInt p.length
  else []

/-- The type that is sent in the header, if the handler has not set one. -/
def contentTypeText (env : ResponseEnv) (s : ResponseWriter) (p : Bytes) : Bytes :=
  if s.snapHeader.first (ascii "Content-Encoding") = [] ∧ !s.snapHeader.has (ascii "Content-Type") ∧
      bodyAllowedForStatus s.status ∧ p.length > 0 then
    env.detectContentType p
  else []

/-- The header map that is sent: the length and `Connection` are taken out. -/
def sentMap (s : ResponseWriter) : Header :=
  let h :=
    if s.snapHeader.first (ascii "Content-Length") = [] then s.snapHeader
    else s.snapHeader.del (ascii "Content-Length")
  h.del (ascii "Connection")

/-- The end of the stream is in the header frame. -/
def headerEndsStream (env : ResponseEnv) (s : ResponseWriter) (p : Bytes) : Bool :=
  (s.handlerDone && !s.hasTrailers && p.length == 0) || env.isHead

/-- The handler asks for the connection to be closed. -/
def asksClose (s : ResponseWriter) : Bool :=
  s.snapHeader.has (ascii "Connection") &&
    s.snapHeader.first (ascii "Connection") == ascii "close"

/-- What is taken from the header map when the header is sent. -/
def headerSent (env : ResponseEnv) (s : ResponseWriter) : ResponseWriter :=
  { s with
    sentHeader := true
    sentContentLen := ((parseUint63 (s.snapHeader.first (ascii "Content-Length"))).map
      Int64.ofNat).getD s.sentContentLen
    trailers := declareTrailers env s.trailers s.snapHeader
    snapHeader := s.sentMap
    shutdown := s.shutdown || s.asksClose }

/-- The header frame. -/
def headerFrame (env : ResponseEnv) (s : ResponseWriter) (p : Bytes) : ResHeaders where
  httpResCode := s.status
  h := s.sentMap
  endStream := (s.headerSent env).headerEndsStream env p
  contentType := s.contentTypeText env p
  contentLength := s.contentLengthText env p
  date := if s.snapHeader.has (ascii "Date") then [] else env.date

/-- The first part of `writeChunk`, which sends the header: the result, if the chunk ends with
it. -/
def sendHeader (env : ResponseEnv) (s : ResponseWriter) (p : Bytes) :
    Option (Nat × Option ResponseError) × ResponseWriter :=
  let w := s.headerFrame env p
  let t := { s.headerSent env with out := s.out ++ [.headers w] }
  match frameResult env w.endStream with
  | some err => (some (0, some err), { t with dirty := true })
  | none => (if w.endStream then some (0, none) else none, t)

/-- The frames of a chunk of the body: the data, and at the end the trailers. -/
def sendFrames (env : ResponseEnv) (s : ResponseWriter) (p : Bytes) :
    Nat × Option ResponseError × ResponseWriter :=
  let endStream := s.handlerDone && !s.hasNonemptyTrailers
  let s :=
    if p.length > 0 || endStream then { s with out := s.out ++ [.data p endStream] } else s
  match frameResult env endStream with
  | some err => (0, some err, { s with dirty := true })
  | none =>
    if s.handlerDone && s.hasNonemptyTrailers then
      let s := { s with
        out := s.out ++
          [.headers { h := s.handlerHeader, trailers := some s.trailers, endStream := true }] }
      match frameResult env true with
      | some err => (p.length, some err, { s with dirty := true })
      | none => (p.length, none, s)
    else (p.length, none, s)

/-- The last part of `writeChunk`, for a response with a body. -/
def sendBody (env : ResponseEnv) (s : ResponseWriter) (p : Bytes) :
    Nat × Option ResponseError × ResponseWriter :=
  sendFrames env (if s.handlerDone then s.promoteUndeclaredTrailers env else s) p

/-- `writeChunk`: the number of bytes, the error and the state. -/
def writeChunk (env : ResponseEnv) (s : ResponseWriter) (p : Bytes) :
    Nat × Option ResponseError × ResponseWriter :=
  let s := s.snapshot 200
  let header := if s.sentHeader then (none, s) else s.sendHeader env p
  match header.1 with
  | some r => (r.1, r.2, header.2)
  | none =>
    if env.isHead then (p.length, none, header.2)
    else if p.length == 0 && !header.2.handlerDone then (0, none, header.2)
    else header.2.sendBody env p

/-! ## The buffer -/

/-- `Available` of the `bufio.Writer`. -/
def available (s : ResponseWriter) : Nat := handlerChunkWriteSize - s.buf.length

/-- `Flush` of the `bufio.Writer`. -/
def bufioFlush (env : ResponseEnv) (s : ResponseWriter) : ResponseWriter :=
  if s.bwErr.isSome || s.buf.length == 0 then s
  else
    let r := s.writeChunk env s.buf
    let err := if r.1 < s.buf.length && r.2.1.isNone then some .errShortWrite else r.2.1
    if err.isSome then { r.2.2 with buf := s.buf.drop r.1, bwErr := err }
    else { r.2.2 with buf := [] }

/-- `Write` of the `bufio.Writer`, and `WriteString`, which does not write around the buffer: the
number of bytes and the error. -/
def bufioWrite (env : ResponseEnv) (direct : Bool) :
    Nat → ResponseWriter → Bytes → Nat → Except Fault (Nat × Option ResponseError × ResponseWriter)
  | fuel, s, p, nn =>
    if p.length > s.available ∧ s.bwErr = none then
      match fuel with
      | 0 => .error .diverges
      | fuel + 1 =>
        if s.buf.length == 0 && direct then
          let r := s.writeChunk env p
          bufioWrite env direct fuel { r.2.2 with bwErr := r.2.1 } (p.drop r.1) (nn + r.1)
        else
          let n := min s.available p.length
          bufioWrite env direct fuel (bufioFlush env { s with buf := s.buf ++ p.take n }) (p.drop n)
            (nn + n)
    else
      match s.bwErr with
      | some err => .ok (nn, some err, s)
      | none => .ok (nn + p.length, none, { s with buf := s.buf ++ p })

/-! ## The handler -/

/-- `responseWriter.write`. -/
def write (env : ResponseEnv) (direct : Bool) (s : ResponseWriter) (p : Bytes) :
    Except Fault (Nat × Option ResponseError × ResponseWriter) :=
  let s := s.snapshot 200
  if !bodyAllowedForStatus s.status then .ok (0, some .errBodyNotAllowed, s)
  else
    let s := { s with wroteBytes := s.wroteBytes + Int64.ofNat p.length }
    if s.sentContentLen ≠ 0 ∧ s.wroteBytes > s.sentContentLen then .ok (0, some .wroteTooMuch, s)
    else bufioWrite env direct (p.length + 2) s p 0

/-- `Flush`. -/
def flush (env : ResponseEnv) (s : ResponseWriter) : ResponseWriter :=
  if s.buf.length > 0 then s.bufioFlush env else (s.writeChunk env []).2.2

/-- `handlerDone`: the handler has returned. -/
def finish (env : ResponseEnv) (s : ResponseWriter) : ResponseWriter :=
  flush env { s with handlerDone := true }

/-- What a handler does with its `responseWriter`. -/
inductive Op where
  /-- The map that `Header` returns is changed. -/
  | header (h : Header)
  | writeHeader (code : Int)
  | write (p : Bytes)
  | writeString (p : Bytes)
  | flush
deriving DecidableEq

/-- A response under way, with the bytes that `Write` has accepted. -/
structure Progress where
  rws : ResponseWriter := {}
  accepted : Bytes := []
deriving DecidableEq

/-- What a call of `Write` adds. -/
def Progress.wrote (st : Progress) (p : Bytes) (r : Nat × Option ResponseError × ResponseWriter) :
    Progress :=
  { rws := r.2.2, accepted := st.accepted ++ p.take r.1 }

/-- One call of the handler. -/
def Progress.step (env : ResponseEnv) (st : Progress) : Op → Except Fault Progress
  | .header h => .ok { st with rws := { st.rws with handlerHeader := h } }
  | .writeHeader code => (st.rws.writeHeader code).map fun rws => { st with rws := rws }
  | .write p => (st.rws.write env true p).map (st.wrote p)
  | .writeString p => (st.rws.write env false p).map (st.wrote p)
  | .flush => .ok { st with rws := st.rws.flush env }

/-- A handler up to its return. -/
def Progress.run (env : ResponseEnv) (ops : List Op) : Except Fault Progress :=
  ops.foldlM (Progress.step env) {}

end ResponseWriter

end Fhttp.Http2
