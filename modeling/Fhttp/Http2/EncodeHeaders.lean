import Fhttp.Hpack.Lockstep
import Fhttp.Http.Header
import Fhttp.Http2.Transport

/-!
# The header block of a request

`ClientConn.encodeHeaders` of `http2/transport.go`.  It goes through the fields of a request
twice: first to add up their sizes, then to write them to the HPACK encoder.  The fields
are the pseudo-header fields, in the order that the request or the transport asks for,
the announced trailers, and the header map, sorted.

`httpguts.PunycodeHostPort`, which is not part of the repository, is a parameter; so are the
tables of that package (`HttpGuts`).
-/

namespace Fhttp.Http

open Hpack (Bytes ascii)
open Http2 (Header)

/-- What a request line needs of a `url.URL`.  `escapedPath` is the result of
`EscapedPath`. -/
structure URL where
  scheme : Bytes
  opaqueData : Bytes := []
  host : Bytes
  escapedPath : Bytes
  forceQuery : Bool := false
  rawQuery : Bytes := []
deriving DecidableEq, Repr

/-- `URL.RequestURI`. -/
def URL.requestURI (u : URL) : Bytes :=
  let result :=
    if u.opaqueData = [] then
      if u.escapedPath = [] then ascii "/" else u.escapedPath
    else if (ascii "//").isPrefixOf u.opaqueData then u.scheme ++ ascii ":" ++ u.opaqueData
    else u.opaqueData
  if u.forceQuery || u.rawQuery != [] then result ++ ascii "?" ++ u.rawQuery else result

/-- A request, as far as its header block depends on it. -/
structure Request where
  method : Bytes
  url : URL
  host : Bytes
  header : Header
  header_nodup : (header.map Prod.fst).Nodup
  contentLength : Int
  /-- `Body` is neither nil nor `NoBody`. -/
  body : Bool

end Fhttp.Http

namespace Fhttp.Http2

open Hpack (Bytes HeaderField Encoder ascii)
open Http (Runtime headerOrderKey pHeaderOrderKey)

def HttpGuts.validHeaderFieldName (g : HttpGuts) (v : Bytes) : Bool :=
  !v.isEmpty && v.all g.isTokenByte

/-- `strconv.FormatInt(n, 10)`. -/
def formatInt (n : Int) : Bytes :=
  (if n < 0 then ascii "-" else []) ++
    (Nat.toDigits 10 n.natAbs).map fun c => UInt8.ofNat c.toNat

/-- `strings.TrimPrefix`. -/
def trimFront (s front : Bytes) : Bytes := if front.isPrefixOf s then s.drop front.length else s

def validPseudoPath (v : Bytes) : Bool := v.head? == some 0x2f || v == ascii "*"

def defaultUserAgent : Bytes := ascii "Go-http-client/2.0"

/-- The errors of `encodeHeaders`. -/
inductive EncodeError where
  /-- The error of `PunycodeHostPort`. -/
  | punycode (text : String)
  /-- `invalid request :path`, with `URL.Opaque` if there is one. -/
  | invalidPath (orig : Bytes) (opaqueData : Option Bytes)
  /-- `invalid HTTP header name`. -/
  | invalidHeaderName (k : Bytes)
  /-- `invalid HTTP header value`. -/
  | invalidHeaderValue (v k : Bytes)
  | requestHeaderListSize
deriving DecidableEq, Repr

def shouldSendReqContentLength (method : Bytes) (contentLength : Int) : Bool :=
  if contentLength > 0 then true
  else if contentLength < 0 then false
  else method == ascii "POST" || method == ascii "PUT" || method == ascii "PATCH"

def actualContentLength (req : Http.Request) : Int :=
  if !req.body then 0
  else if req.contentLength ≠ 0 then req.contentLength
  else -1

def isNormalConnect (req : Http.Request) : Bool :=
  req.method == ascii "CONNECT" &&
    (req.header.get (canonicalHeaderKey (ascii ":protocol"))).headD [] == []

/-- The host and the path of a request. -/
def requestTarget (punycodeHostPort : Bytes → Except String Bytes) (req : Http.Request) :
    Except EncodeError (Bytes × Bytes) :=
  match punycodeHostPort (if req.host = [] then req.url.host else req.host) with
  | .error err => .error (.punycode err)
  | .ok host =>
    let orig := req.url.requestURI
    let path := trimFront orig (req.url.scheme ++ ascii "://" ++ host)
    if isNormalConnect req then .ok (host, [])
    else if validPseudoPath orig then .ok (host, orig)
    else if validPseudoPath path then .ok (host, path)
    else
      .error (.invalidPath orig
        (if req.url.opaqueData ≠ [] then some req.url.opaqueData else none))

def isMagicKey (k : Bytes) : Bool := k == pHeaderOrderKey || k == headerOrderKey

/-- What is wrong with a key or its values. -/
def checkKey (g : HttpGuts) (kv : Bytes × List Bytes) : Option EncodeError :=
  if !g.validHeaderFieldName kv.1 && kv.1 != ascii ":protocol" then
    if isMagicKey kv.1 then none else some (.invalidHeaderName kv.1)
  else
    (kv.2.find? fun v => !g.validHeaderFieldValue v).map fun v => .invalidHeaderValue v kv.1

/-- The pseudo-header fields.  Unknown names in the order are skipped. -/
def pseudoHeader (req : Http.Request) (host path : Bytes) (order : Option (List Bytes)) :
    List (Bytes × Bytes) :=
  let m := if req.method = [] then ascii "GET" else req.method
  match order with
  | some order =>
    order.flatMap fun p =>
      if p = ascii ":authority" then [(ascii ":authority", host)]
      else if p = ascii ":method" then [(ascii ":method", m)]
      else if p = ascii ":path" then
        if req.method ≠ ascii "CONNECT" then [(ascii ":path", path)] else []
      else if p = ascii ":scheme" then
        if req.method ≠ ascii "CONNECT" then [(ascii ":scheme", req.url.scheme)] else []
      else []
  | none =>
    [(ascii ":authority", host), (ascii ":method", m)] ++
      if !isNormalConnect req then [(ascii ":path", path), (ascii ":scheme", req.url.scheme)]
      else []

/-- `if _, ok := h[key]; !ok && add { h[key] = values }`. -/
def Header.addMissing (h : Header) (add : Bool) (key : Bytes) (values : List Bytes) : Header :=
  if (h.get? key).isNone && add then h.set key values else h

/-- The clone of the header map, with the fields that the transport adds. -/
def outgoingHeader (req : Http.Request) (addGzipHeader : Bool) (contentLength : Int) : Header :=
  (req.header.addMissing (shouldSendReqContentLength req.method contentLength)
    (ascii "content-length") [formatInt contentLength]).addMissing addGzipHeader
    (ascii "accept-encoding") [ascii "gzip, deflate, br"]

/-- The cookie pairs of a `Cookie` value. -/
def cookieCrumbs (v : Bytes) : List Bytes :=
  match h : v.idxOf? 0x3b with
  | none => if v.length > 0 then [v] else []
  | some p => v.take p :: cookieCrumbs ((v.drop (p + 1)).dropWhile (· == 0x20))
termination_by v.length
decreasing_by
  have hp : p < v.length := List.idxOf?_eq_some_iff.mp h |>.1
  have hle : ((v.drop (p + 1)).dropWhile (· == 0x20)).length ≤ (v.drop (p + 1)).length :=
    (List.dropWhile_sublist _).length_le
  rw [List.length_drop] at hle
  omega

/-- The fields for one key of the map, and whether it is the user agent. -/
def keyFields (rt : Runtime) (kv : Bytes × List Bytes) : List (Bytes × Bytes) × Bool :=
  if kv.2.length = 0 then ([], false)
  else if rt.equalFold kv.1 (ascii "host") then ([], false)
  else if rt.equalFold kv.1 (ascii "connection") || rt.equalFold kv.1 (ascii "proxy-connection") ||
      rt.equalFold kv.1 (ascii "transfer-encoding") || rt.equalFold kv.1 (ascii "upgrade") ||
      rt.equalFold kv.1 (ascii "keep-alive") then
    ([], false)
  else if rt.equalFold kv.1 (ascii "cookie") then
    ((kv.2.flatMap cookieCrumbs).map fun v => (ascii "cookie", v), false)
  else if rt.equalFold kv.1 (ascii "user-agent") then
    (if kv.2.headD [] = [] then [] else [(kv.1, kv.2.headD [])], true)
  else (kv.2.map fun v => (kv.1, v), false)

namespace ClientConn

/-- The order of the pseudo-header fields: that of the request, or that of the transport. -/
def pseudoHeaderOrder (cc : ClientConn) (req : Http.Request) : Option (List Bytes) :=
  match req.header.get? pHeaderOrderKey with
  | some order => some order
  | none => if cc.t.pseudoHeaderOrder.length > 0 then some cc.t.pseudoHeaderOrder else none

/-- `enumerateHeaders`: the names and values with which `f` is called.  `i` tells the two
calls apart. -/
def enumerateHeaders (rt : Runtime) (i : Nat) (cc : ClientConn) (req : Http.Request)
    (host path : Bytes) (addGzipHeader : Bool) (trailers : Bytes) (contentLength : Int) :
    List (Bytes × Bytes) :=
  let hdrs := outgoingHeader req addGzipHeader contentLength
  let kvs := Http.sortedKeyValuesBy rt i ((hdrs.get? headerOrderKey).map Http.orderOf) hdrs
  pseudoHeader req host path (cc.pseudoHeaderOrder req) ++
    (if trailers ≠ [] then [(ascii "trailer", trailers)] else []) ++
    kvs.flatMap (fun kv => (keyFields rt kv).1) ++
    if kvs.any fun kv => (keyFields rt kv).2 then [] else [(ascii "user-agent", defaultUserAgent)]

end ClientConn

/-- The sum of the sizes, as `uint64`. -/
def headerListSize (fields : List (Bytes × Bytes)) : UInt64 :=
  fields.foldl (fun n f => n + (HeaderField.size { name := f.1, value := f.2 }).toUInt64) 0

namespace ClientConn

/-- The fields that the second call of `enumerateHeaders` writes. -/
def writtenFields (rt : Runtime) (cc : ClientConn) (req : Http.Request) (host path : Bytes)
    (addGzipHeader : Bool) (trailers : Bytes) (contentLength : Int) : List HeaderField :=
  ((cc.enumerateHeaders rt 2 req host path addGzipHeader trailers contentLength).filter fun f =>
    !isMagicKey f.1).map fun f => { name := rt.toLower f.1, value := f.2 }

/-- `encodeHeaders` up to the second call of `enumerateHeaders`: the fields to write. -/
def requestFields (rt : Runtime) (g : HttpGuts) (punycodeHostPort : Bytes → Except String Bytes)
    (cc : ClientConn) (req : Http.Request) (addGzipHeader : Bool) (trailers : Bytes)
    (contentLength : Int) : Except EncodeError (List HeaderField) :=
  match requestTarget punycodeHostPort req with
  | .error e => .error e
  | .ok (host, path) =>
    match (rt.range 0 req.header).findSome? (checkKey g) with
    | some e => .error e
    | none =>
      if headerListSize (cc.enumerateHeaders rt 1 req host path addGzipHeader trailers
          contentLength) > cc.peerMaxHeaderListSize then
        .error .requestHeaderListSize
      else
        .ok (cc.writtenFields rt req host path addGzipHeader trailers contentLength)

/-- `encodeHeaders`: the header block or an error, and the encoder afterwards.  `none` is a
panic of the encoder. -/
def encodeHeaders? (rt : Runtime) (g : HttpGuts) (punycodeHostPort : Bytes → Except String Bytes)
    (cc : ClientConn) (req : Http.Request) (addGzipHeader : Bool) (trailers : Bytes)
    (contentLength : Int) : Option (Except EncodeError Bytes × Encoder) :=
  match cc.requestFields rt g punycodeHostPort req addGzipHeader trailers contentLength with
  | .error e => some (.error e, cc.henc)
  | .ok fields => (cc.henc.writeFields? fields).map fun (block, henc) => (.ok block, henc)

end ClientConn

end Fhttp.Http2
