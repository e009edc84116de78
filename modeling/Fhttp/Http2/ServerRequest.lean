import Fhttp.Http2.ResponseWriter

/-!
# The request in a HEADERS frame

What the server takes from the fields of a HEADERS frame: `newWriterAndRequest` and
`newWriterAndRequestNoBody` of `http2/server.go`, and `checkValidHTTP2RequestHeaders`.  A request
that is malformed is a stream error with the code PROTOCOL_ERROR.

Of the request the parts that its handler sees are kept, but for what comes from the
connection (the address and the TLS state) and the parsed URL, which is that of the
`RequestURI`.
-/

namespace Fhttp.Http2

open Hpack (Bytes HeaderField ascii)

/-- What the server depends on for a request: the library functions that it calls. -/
structure RequestLib where
  /-- `url.ParseRequestURI` returns no error. -/
  parseRequestURI : Bytes → Bool
  /-- `httpguts.ValidTrailerHeader`. -/
  validTrailerHeader : Bytes → Bool

/-- `requestParam`. -/
structure RequestParam where
  method : Bytes
  scheme : Bytes
  authority : Bytes
  path : Bytes
  header : Header
  protocol : Bytes

/-- The `http.Request` of a handler, with its `requestBody`. -/
structure ServerRequest where
  method : Bytes
  header : Header
  host : Bytes
  requestURI : Bytes
  /-- nil when no trailer is announced. -/
  trailer : Option Header
  contentLength : Int := 0
  /-- A 100-continue is to be sent when the body is read. -/
  needsContinue : Bool
  /-- The body has a pipe. -/
  hasPipe : Bool := false
deriving DecidableEq

/-- The map `Request.Trailer`, after the keys in one field `Trailer`. -/
def addTrailerKeys (trailer : Option Header) (v : Bytes) : Option Header :=
  (splitComma v).foldl (fun trailer part =>
    let key := canonicalHeaderKey (trimString part)
    if key = ascii "Transfer-Encoding" ∨ key = ascii "Trailer" ∨ key = ascii "Content-Length" then
      trailer
    else some ((trailer.getD []).set key [])) trailer

/-- The values of cookies, joined. -/
def joinCookies : List Bytes → Bytes
  | [] => []
  | [v] => v
  | v :: vs => v ++ ascii "; " ++ joinCookies vs

/-- The header of a request without what is about the connection. -/
def RequestParam.requestHeader (rp : RequestParam) : Header :=
  let h :=
    if rp.header.first (ascii "Expect") = ascii "100-continue" then rp.header.del (ascii "Expect")
    else rp.header
  let h :=
    if (h.get (ascii "Cookie")).length > 1 then
      h.set (ascii "Cookie") [joinCookies (h.get (ascii "Cookie"))]
    else h
  h.del (ascii "Trailer")

/-- `newWriterAndRequestNoBody`, or `none` for its stream error. -/
def newWriterAndRequestNoBody (lib : RequestLib) (rp : RequestParam) : Option ServerRequest :=
  let plainConnect := rp.method = ascii "CONNECT" ∧ rp.protocol = []
  if ¬ plainConnect ∧ lib.parseRequestURI rp.path = false then none
  else some
    { method := rp.method
      header := rp.requestHeader
      host := rp.authority
      requestURI := if plainConnect then rp.authority else rp.path
      trailer := (rp.header.get (ascii "Trailer")).foldl addTrailerKeys none
      needsContinue := rp.header.first (ascii "Expect") = ascii "100-continue" }

/-- The parameters of a request, from the fields of its frame. -/
def requestParamOf (fields : List HeaderField) : RequestParam :=
  let header := regularHeader fields
  let authority := pseudoValue fields (ascii ":authority")
  let protocol := pseudoValue fields (ascii ":protocol")
  { method := pseudoValue fields (ascii ":method")
    scheme := pseudoValue fields (ascii ":scheme")
    authority := if authority = [] then header.first (ascii "Host") else authority
    path := pseudoValue fields (ascii ":path")
    header := if protocol = [] then header else header.set (ascii ":protocol") [protocol]
    protocol := protocol }

/-- The pseudo-headers of a request are malformed.  The authority is that of the frame. -/
def malformedPseudo (fields : List HeaderField) : Bool :=
  let value (name : String) := pseudoValue fields (ascii name)
  if value ":method" = ascii "CONNECT" then
    value ":protocol" = [] &&
      (value ":path" ≠ [] || value ":scheme" ≠ [] || value ":authority" = [])
  else
    value ":method" = [] || value ":path" = [] ||
      (value ":scheme" ≠ ascii "https" && value ":scheme" ≠ ascii "http")

/-- `ContentLength` of a request whose body is open. -/
def requestContentLength (header : Header) : Int :=
  if header.has (ascii "Content-Length") then
    ((parseUint63 (header.first (ascii "Content-Length"))).getD 0 : Nat)
  else -1

/-- `newWriterAndRequest`, or `none` for its stream error. -/
def newWriterAndRequest (lib : RequestLib) (fields : List HeaderField) (streamEnded : Bool) :
    Option ServerRequest :=
  let rp := requestParamOf fields
  if malformedPseudo fields then none
  else if rp.method = ascii "HEAD" ∧ streamEnded = false then none
  else
    (newWriterAndRequestNoBody lib rp).map fun req =>
      if streamEnded then req
      else { req with contentLength := requestContentLength rp.header, hasPipe := true }

def connHeaders : List Bytes :=
  [ascii "Connection", ascii "Keep-Alive", ascii "Proxy-Connection", ascii "Transfer-Encoding",
    ascii "Upgrade"]

/-- `checkValidHTTP2RequestHeaders` returns no error. -/
def validHTTP2RequestHeaders (h : Header) : Bool :=
  !connHeaders.any h.has &&
    match h.get (ascii "Te") with
    | [] => true
    | [te] => te = ascii "trailers" || te = []
    | _ => false

/-- The handler that runs for a request. -/
inductive RequestHandler where
  /-- `ServeHTTP` of the server's handler. -/
  | serveHTTP
  /-- `handleHeaderListTooLong`. -/
  | headerListTooLong
  /-- `new400Handler`. -/
  | badRequest
deriving DecidableEq, Repr

def handlerFor (req : ServerRequest) (truncated : Bool) : RequestHandler :=
  if truncated then .headerListTooLong
  else if validHTTP2RequestHeaders req.header then .serveHTTP
  else .badRequest

end Fhttp.Http2
