import Fhttp.Hpack.Encoder
import Fhttp.Http2.Flow
import Fhttp.Http2.HeaderFragments
import Fhttp.Http2.Pipe
import Fhttp.Http2.ResponseHeader

/-!
# The state of a client connection

The types `Transport`, `ClientConn` and `clientStream` of `http2/transport.go`, the
functions that create and forget streams, and `newClientConn`.

A `*clientStream` is a `StreamRef`, and `ClientConn.stream` is the memory it points to.
The map `cc.streams` is the list of the streams in it: the key of a stream is its `ID`.
The channels of a stream are what they can hold: `resc` is the one result in its buffer,
and `done` and `peerReset` say whether they are closed.

`out` are the frames that were written.  Left out are the network (a write to it does
not fail), the TLS state, the caller's tracing and the times with the idle timer.
-/

namespace Fhttp.Http2

open Hpack (Bytes Decoder Encoder)
open Lib.Panic (Fault)

/-! ## Errors and results -/

/-- The errors of the client. -/
inductive ClientError where
  /-- Those of the framer, and `ConnectionError`, `StreamError`, `io.EOF` and
  `io.ErrUnexpectedEOF`. -/
  | frame (e : Error)
  | pipeWrite (e : Pipe.WriteError)
  | goAwayError (lastStreamID : UInt32) (errCode : ErrCode) (debugData : Bytes)
  | errClientConnClosed
  | errClientConnGotGoAway
  | errClientConnUnusable
  | errClosedResponseBody
  | errReqBodyTooLong
  | errRequestCanceled
  | errRequestHeaderListSize
  | errResponseHeaderListSize
  | errStopReqBodyWrite
  | errStopReqBodyWriteAndCancel
  | errStreamClosed
  /-- An error that is made with `errors.New` or `fmt.Errorf` where it is returned. -/
  | text (msg : String)
  /-- An error of the caller's: of a context, a request body or a trace function. -/
  | caller (n : Nat)
deriving DecidableEq, Repr

/-- `ConnectionError(code)`. -/
def ClientError.connection (code : ErrCode) : ClientError := .frame (.connectionError code)

/-- Whether an error is a `ConnectionError`. -/
def ClientError.isConnection : ClientError → Bool
  | .frame (.connectionError _) => true
  | _ => false

def ClientError.eof : ClientError := .frame .eof

def ClientError.unexpectedEOF : ClientError := .frame .unexpectedEOF

/-- What the connection needs of a request. -/
structure Request where
  method : Bytes
  /-- Whether there is a `Body`. -/
  body : Bool
  /-- `isConnectionCloseRequest`. -/
  connectionClose : Bool
deriving DecidableEq, Repr

/-- A response.  Its body is the pipe of the stream (`transportResponseBody`) or
`noBody`. -/
structure Response where
  statusCode : Int
  header : Header
  trailer : Header
  contentLength : Int
  body : Bool
deriving DecidableEq, Repr

inductive ResAndError where
  | res (res : Response)
  | err (err : ClientError)
deriving DecidableEq, Repr

/-! ## Streams -/

/-- The code that the client attaches to a pipe. -/
inductive ReadFn where
  | copyTrailers
deriving DecidableEq, Repr

/-- `clientStream`. -/
structure ClientStream where
  id : UInt32
  bufPipe : Pipe ClientError ReadFn := {}
  /-- -1 means unknown. -/
  bytesRemain : Int := 0
  /-- Whether we sent a `RST_STREAM` to the server. -/
  didReset : Bool := false
  /-- Whether the channel is closed. -/
  done : Bool := false
  /-- Got the first response byte. -/
  firstByte : Bool := false
  flow : Int32 := 0
  gotEndStream : Bool := false
  inflow : Int32 := 0
  num1xx : UInt8 := 0
  /-- Got the actual headers. -/
  pastHeaders : Bool := false
  /-- Got the optional trailers. -/
  pastTrailers : Bool := false
  /-- Whether the channel is closed. -/
  peerReset : Bool := false
  readErr : Option ClientError := none
  req : Option Request := none
  resc : Option ResAndError := none
  resetErr : Option ClientError := none
  /-- What is in the client's `Response.Trailer`, when there is a response. -/
  resTrailer : Option Header := none
  stopReqBody : Option ClientError := none
  /-- The accumulated trailers. -/
  trailer : Header := []

namespace ClientStream

/-- Send a result on `resc` if there is room for it. -/
def trySend (s : ClientStream) (re : ResAndError) : ClientStream :=
  { s with resc := if s.resc.isSome then s.resc else some re }

/-- `bufPipe.CloseWithError`. -/
def closePipe (s : ClientStream) (err : ClientError) : ClientStream :=
  { s with bufPipe := s.bufPipe.closeWithError err }

end ClientStream

abbrev StreamRef := Nat

/-! ## Connections -/

/-- A priority to send when the connection is set up. -/
structure Priority where
  priorityParam : PriorityParam
  streamID : UInt32

/-- The configuration of connections. -/
structure Transport where
  allowHTTP : Bool := false
  initialStreamID : UInt32 := 0
  connectionFlow : UInt32 := 0
  headerPriority : Option PriorityParam := none
  priorities : List Priority := []
  /-- Whether there is a `PushHandler`. -/
  pushHandler : Bool := false
  /-- The map, which may be nil. -/
  settings : Option (SettingID → Option UInt32) := none
  settingsOrder : List SettingID := []
  disableKeepAlives : Bool := false
  strictMaxConcurrentStreams : Bool := false
  pseudoHeaderOrder : List Bytes := []

/-- `GoAwayFrame`. -/
structure GoAway where
  lastStreamID : UInt32
  errCode : ErrCode
deriving DecidableEq, Repr

/-- What the read loop is doing.  It can stop inside a frame in two places. -/
inductive LoopState where
  /-- It reads the next frame. -/
  | running
  /-- It sends a result on `resc` of a stream; after that it may have a stream to forget. -/
  | sending (cs : StreamRef) (re : ResAndError) (deferred : Option UInt32)
  /-- It writes data to the pipe of a stream, which may be the end of the stream. -/
  | delivering (cs : StreamRef) (data : Bytes) (streamEnded : Bool)
  | stopped
deriving DecidableEq, Repr

/-- `ClientConn`, and `clientConnReadLoop`, which belongs to it. -/
structure ClientConn where
  t : Transport
  /-- The framer as it was set up; what it reads later are the frames that the read loop
  gets. -/
  fr : Framer
  singleUse : Bool
  closed : Bool := false
  closing : Bool := false
  flow : Int32 := 0
  goAway : Option GoAway := none
  goAwayDebug : Bytes := []
  henc : Encoder := Encoder.new
  hencMaxTableSize : UInt32 := 4096
  highestPromiseID : UInt32 := 0
  inflow : Int32 := 0
  initialWindowSize : UInt32 := 65535
  maxConcurrentStreams : UInt32 := 1000
  maxFrameSize : UInt32 := 16384
  nextStreamID : UInt32 := 1
  peerMaxHeaderListSize : UInt64 := 0xffffffffffffffff
  pings : List (Vector UInt8 8) := []
  streams : List StreamRef := []
  wantSettingsAck : Bool := true
  connFlow : UInt32
  streamFlow : UInt32
  stream : StreamRef → ClientStream := fun _ => { id := 0 }
  /-- The next stream to allocate. -/
  nextRef : StreamRef := 0
  out : List WriteCall := []
  loop : LoopState := .running
  closeWhenIdle : Bool := false
  /-- Ever saw a `HEADERS` reply. -/
  gotReply : Bool := false

namespace ClientConn

/-- Write a frame; a frame that the framer refuses is not written. -/
def send (cc : ClientConn) (c : WriteCall) : ClientConn :=
  { cc with out := if (c.write false).isOk then cc.out ++ [c] else cc.out }

/-- Change a stream. -/
def update (cc : ClientConn) (cs : StreamRef) (f : ClientStream → ClientStream) : ClientConn :=
  { cc with stream := Function.update cc.stream cs (f (cc.stream cs)) }

/-- Change all streams in the map. -/
def updateOpen (cc : ClientConn) (f : ClientStream → ClientStream) : ClientConn :=
  { cc with stream := fun cs => if cs ∈ cc.streams then f (cc.stream cs) else cc.stream cs }

/-! ### The map of the streams -/

/-- `cc.streams[id]`. -/
def lookup (cc : ClientConn) (id : UInt32) : Option StreamRef :=
  cc.streams.find? fun cs => (cc.stream cs).id == id

/-- `delete(cc.streams, id)`. -/
def delete (cc : ClientConn) (id : UInt32) : ClientConn :=
  { cc with streams := cc.streams.filter fun cs => (cc.stream cs).id != id }

/-- `close(cs.done)`. -/
def closeDone (cc : ClientConn) (cs : StreamRef) : Except Fault ClientConn :=
  if (cc.stream cs).done then .error (.panic "close of closed channel")
  else .ok (cc.update cs fun s => { s with done := true })

/-- `streamByID`. -/
def streamByID (cc : ClientConn) (id : UInt32) (andRemove : Bool) :
    Except Fault (Option StreamRef × ClientConn) :=
  match cc.lookup id with
  | none => .ok (none, cc)
  | some cs =>
    if andRemove && !cc.closed then do
      let cc ← (cc.delete id).closeDone cs
      .ok (some cs, cc)
    else .ok (some cs, cc)

def forgetStreamID (cc : ClientConn) (id : UInt32) : Except Fault ClientConn :=
  (cc.streamByID id true).map Prod.snd

/-- `newStreamWithID`. -/
def newStreamWithID (cc : ClientConn) (streamID : UInt32) (incNext : Bool) :
    StreamRef × ClientConn :=
  let cs : ClientStream :=
    { id := streamID
      flow := (Flow.add 0 cc.initialWindowSize.toInt32).1
      inflow := (Flow.add 0 cc.streamFlow.toInt32).1 }
  (cc.nextRef,
    { cc.delete streamID with
      stream := Function.update cc.stream cc.nextRef cs
      streams := (cc.delete streamID).streams ++ [cc.nextRef]
      nextRef := cc.nextRef + 1
      nextStreamID := if incNext then cc.nextStreamID + 2 else cc.nextStreamID })

def newStream (cc : ClientConn) : StreamRef × ClientConn := cc.newStreamWithID cc.nextStreamID true

/-! ### Results -/

/-- `bufPipe.CloseWithError`. -/
def closePipe (cc : ClientConn) (cs : StreamRef) (err : ClientError) : ClientConn :=
  cc.update cs (·.closePipe err)

def writeStreamReset (cc : ClientConn) (streamID : UInt32) (code : ErrCode) : ClientConn :=
  cc.send (.rstStream streamID code)

/-! ### Closing -/

/-- `closeForError`.  The channel `done` of the streams is not closed. -/
def closeForError (cc : ClientConn) (err : ClientError) : ClientConn :=
  { cc.updateOpen fun s => (s.trySend (.err err)).closePipe err with streams := [], closed := true }

def closeIfIdle (cc : ClientConn) : ClientConn :=
  if cc.streams.isEmpty then { cc with closed := true } else cc

end ClientConn

/-! ## Setting up a connection -/

namespace Transport

def initialHeaderTableSize : UInt32 := 4096
def initialWindowSize : UInt32 := 65535
def transportDefaultConnFlow : UInt32 := 15663105
def maxInt32 : UInt32 := 0x7fffffff

/-- `t.Settings[id]`, when it is in the map. -/
def setting? (t : Transport) (id : SettingID) : Option UInt32 := t.settings.bind (· id)

/-- `maxHeaderListSize`. -/
def maxHeaderListSize (t : Transport) : UInt32 :=
  let v := (t.setting? .maxHeaderListSize).getD 0
  if v = 0 then 0xa00000 else if v = 0xffffffff then 0 else v

/-- The settings that a new connection sends. -/
def initialSettings (t : Transport) : List Setting :=
  match t.settings with
  | some settings => t.settingsOrder.map fun id => { id := id, val := (settings id).getD 0 }
  | none => [{ id := .enablePush, val := if t.pushHandler then 1 else 0 }]

/-- The window that the peer has for a stream. -/
def streamFlow (t : Transport) : UInt32 :=
  match t.setting? .initialWindowSize with
  | some v => if v ≠ 0 then v else initialWindowSize
  | none => initialWindowSize

/-- The window that is added to the one of the connection. -/
def connFlow (t : Transport) : UInt32 :=
  if t.connectionFlow ≠ 0 then t.connectionFlow else transportDefaultConnFlow

/-- One of the priorities that a new connection sends. -/
def writePriority (cc : ClientConn) (p : Priority) : ClientConn :=
  { cc.send (.priority p.streamID p.priorityParam) with nextStreamID := p.streamID + 2 }

/-- `newClientConn`, up to the start of the read loop. -/
def newClientConn (t : Transport) (singleUse : Bool) : Except ClientError ClientConn :=
  if t.connFlow > maxInt32 then
    .error (.text ("http2: connection flow control window too large: " ++ toString t.connFlow ++
      " (max: 2147483647)"))
  else if t.streamFlow > maxInt32 then
    .error (.text ("http2: stream flow control window too large: " ++ toString t.streamFlow ++
      " (max: 2147483647)"))
  else
    let cc : ClientConn :=
      { t := t
        fr := { Framer.new [] with
          readMetaHeaders :=
            some (Decoder.new ((t.setting? .headerTableSize).getD initialHeaderTableSize))
          maxHeaderListSizeOpt := t.maxHeaderListSize }
        singleUse := singleUse
        flow := (Flow.add 0 initialWindowSize.toInt32).1
        connFlow := t.connFlow
        streamFlow := t.streamFlow
        nextStreamID :=
          if t.initialStreamID ≠ 0 then t.initialStreamID else if t.allowHTTP then 3 else 1
        closeWhenIdle := t.disableKeepAlives || singleUse }
    let cc := cc.send (.settings t.initialSettings)
    let cc := if t.connFlow > 0 then cc.send (.windowUpdate 0 t.connFlow) else cc
    let cc := t.priorities.foldl writePriority cc
    .ok { cc with
      inflow := (Flow.add 0 (t.connFlow.toInt32 + initialWindowSize.toInt32)).1 }

end Transport

end Fhttp.Http2
