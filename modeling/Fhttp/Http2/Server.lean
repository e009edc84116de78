import Fhttp.Http2.PriorityControl
import Fhttp.Http2.ServerRequest

/-!
# A server connection and its writer

The model of `serverConn` of `http2/server.go`, and the part of it that writes frames:
`writeFrame`, `startFrameWrite`, `wroteFrame`, `scheduleFrameWrite`, `closeStream` and what they
call.

These functions call each other: `scheduleFrameWrite` starts the frames of the write scheduler one
after the other, a frame that is written may close its stream, and a stream that is closed
gives flow control back with a frame that is scheduled in turn.  The flag
`inFrameScheduleLoop` ends the recursion, since `scheduleFrameWrite` returns at once when it is
set.  So each function has a parameter `schedule`, which stands for its calls of
`scheduleFrameWrite`: in the loop it does nothing (`pure`), and outside it is `scheduleFrameWrite`.

A stream is known by its id.  The write scheduler is any `WriteScheduler`.  A frame that is
too large for the write buffer is written by its own goroutine (`inFlight`), and the serve
loop hears of its end later; whether a frame fits is not known to the model but for the
frames that never do.  The result of a write goes to the handler that waits for it, and does
not matter to the connection, so it is left out.  So are time, logs, the hooks for connection
states, and the settings that only the encoder uses.
-/

namespace Fhttp.Http2

open Lib.Panic (Fault)

namespace ErrCode

def streamClosed : ErrCode := 0x5
def refusedStream : ErrCode := 0x7

end ErrCode

/-! ## Frames -/

/-- The types of `writeFramer` other than `writeData` and `StreamError`. -/
inductive FrameKind where
  | writeSettings
  | writeSettingsAck
  | writeGoAway
  | writePingAck
  | writeResHeaders (endStream : Bool)
  | write100ContinueHeadersFrame
  | writeWindowUpdate
  | writePushPromise
  | handlerPanicRST
  | flushFrameWriter
deriving DecidableEq, Repr

namespace FrameKind

/-- The place of a type among all of them. -/
def number : FrameKind → Nat
  | writeSettings => 0
  | writeSettingsAck => 1
  | writeGoAway => 2
  | writePingAck => 3
  | writeResHeaders false => 4
  | writeResHeaders true => 5
  | write100ContinueHeadersFrame => 6
  | writeWindowUpdate => 7
  | writePushPromise => 8
  | handlerPanicRST => 9
  | flushFrameWriter => 10

def ofNumber : Nat → FrameKind
  | 0 => writeSettings
  | 1 => writeSettingsAck
  | 2 => writeGoAway
  | 3 => writePingAck
  | 4 => writeResHeaders false
  | 5 => writeResHeaders true
  | 6 => write100ContinueHeadersFrame
  | 7 => writeWindowUpdate
  | 8 => writePushPromise
  | 9 => handlerPanicRST
  | _ => flushFrameWriter

/-- A frame of a type; `value` stands for its other fields. -/
def framer (k : FrameKind) (value : Nat := 0) : WriteFramer := .other (11 * value + k.number)

end FrameKind

/-- The type of a frame, if it is not one of the two that have their own constructor. -/
def WriteFramer.kind : WriteFramer → Option FrameKind
  | .other tag => some (.ofNumber (tag % 11))
  | _ => none

namespace FrameWriteRequest

/-- `writeEndsStream`. -/
def endsStream (wr : FrameWriteRequest) : Bool :=
  match wr.write with
  | .writeData _ _ endStream => endStream
  | w => w.kind == some (.writeResHeaders true)

/-- Frames that flush the buffer are never written by the serve goroutine. -/
def flushes (wr : FrameWriteRequest) : Bool :=
  match wr.write.kind with
  | some .flushFrameWriter => true
  | some .writeGoAway => true
  | some (.writeResHeaders _) => true
  | some .writePushPromise => true
  | _ => false

/-- RST_STREAM and WINDOW_UPDATE may be sent on a stream in `stateHalfClosedLocal`. -/
def allowedHalfClosed (wr : FrameWriteRequest) : Bool :=
  match wr.write with
  | .streamError _ _ => true
  | w => w.kind == some .handlerPanicRST || w.kind == some .writeWindowUpdate

end FrameWriteRequest

/-! ## Streams -/

/-- `streamState`. -/
inductive StreamState where
  | stateIdle
  | stateOpen
  | stateHalfClosedLocal
  | stateHalfClosedRemote
  | stateClosed
deriving DecidableEq, Repr

/-- `stateName`. -/
def StreamState.name : StreamState → String
  | stateIdle => "Idle"
  | stateOpen => "Open"
  | stateHalfClosedLocal => "HalfClosedLocal"
  | stateHalfClosedRemote => "HalfClosedRemote"
  | stateClosed => "Closed"

/-- The errors with which the body of a request may end. -/
inductive BodyError where
  | eof
  /-- The sender tried to send more than the declared length. -/
  | moreThanDeclared (declared : Int)
  /-- The request declared a length, and the sender wrote another number of bytes. -/
  | notAsDeclared (declared wrote : Int)
  | streamError (streamID : UInt32) (code : ErrCode)
  | errClientDisconnected
  | errClosedBody
  | errHandlerComplete
  | errHandlerPanicked
deriving DecidableEq, Repr

/-- `stream`, with the request that its handler got.  The window `flow` is in the `Flows` of the
connection. -/
structure ServerStream where
  state : StreamState := .stateIdle
  /-- The pipe of the body; its code is `copyTrailersToHandlerRequest`. -/
  body : Option (Pipe BodyError Unit) := none
  bodyBytes : Int := 0
  declBodyBytes : Int := 0
  inflow : Int32 := 0
  resetQueued : Bool := false
  gotTrailerHeader : Bool := false
  wroteHeaders : Bool := false
  trailer : Option Header := none
  reqTrailer : Option Header := none
  /-- The context of the request was cancelled. -/
  cancelled : Bool := false
  /-- `cw` was closed. -/
  cwClosed : Bool := false
  request : Option ServerRequest := none
  handler : Option RequestHandler := none
deriving DecidableEq

/-! ## Connections -/

/-- A `Server`, and what a connection depends on besides the peer and its handlers. -/
structure ServerEnv where
  maxConcurrentStreams : UInt32 := 0
  maxUploadBufferPerConnection : Int32 := 0
  maxUploadBufferPerStream : Int32 := 0
  lib : RequestLib
  /-- `h1ServerKeepAlivesDisabled`, when the stream is closed. -/
  keepAlivesDisabled : UInt32 → Bool := fun _ => false
  /-- The `i`-th frame fits the write buffer. -/
  withinBuffer : Nat → Bool
  /-- The order of the `i`-th loop over the map of streams. -/
  rangeStreams : Nat → List UInt32 → List UInt32 := fun _ ids => ids
  rangeStreams_perm : ∀ i ids, (rangeStreams i ids).Perm ids
  /-- A bound for the passes of the loop of `scheduleFrameWrite`. -/
  passes : Nat

namespace ServerEnv

/-- `initialWindowSize`. -/
def initialWindowSize : Int32 := 65535

def initialConnRecvWindowSize (env : ServerEnv) : Int32 :=
  if env.maxUploadBufferPerConnection > initialWindowSize then env.maxUploadBufferPerConnection
  else 1048576

def initialStreamRecvWindowSize (env : ServerEnv) : Int32 :=
  if env.maxUploadBufferPerStream > 0 then env.maxUploadBufferPerStream else 1048576

/-- `maxConcurrentStreams()`, which is `sc.advMaxStreams`. -/
def advMaxStreams (env : ServerEnv) : UInt32 :=
  if env.maxConcurrentStreams > 0 then env.maxConcurrentStreams else 250

/-- `maxQueuedControlFrames()`. -/
def maxQueuedControlFrames : Int := 10000

end ServerEnv

/-- Flow-control credit that the peer has granted for sending: to a stream, or to the
connection if the id is 0. -/
structure Grant where
  streamID : UInt32
  amount : Int
deriving DecidableEq, Repr

/-- A frame that was popped, with the limits that it had to keep. -/
structure PoppedFrame where
  wr : FrameWriteRequest
  streamWindow : Int32
  connWindow : Int32
  maxFrameSize : Int32

/-- A call of the write scheduler that adds no frames. -/
inductive SchedulerCall where
  | openStream (streamID pusherID : UInt32)
  | closeStream (streamID : UInt32)
  | adjustStream (streamID : UInt32) (priority : PriorityParam)

/-- The write scheduler after a call. -/
def SchedulerCall.apply (W : WriteScheduler) (ws : W.State) : SchedulerCall → Except Fault W.State
  | openStream streamID pusherID => W.openStream ws streamID pusherID
  | closeStream streamID => W.closeStream ws streamID
  | adjustStream streamID priority => W.adjustStream ws streamID priority

/-- What has happened on a connection. -/
structure ServerHistory (W : WriteScheduler) where
  /-- The streams that were made, and those that were closed. -/
  created : List UInt32 := []
  closed : List UInt32 := []
  /-- The streams whose handlers were started. -/
  started : List UInt32 := []
  grants : List Grant := []
  popped : List PoppedFrame := []
  /-- The calls that may discard frames, each with the scheduler before it. -/
  calls : List (SchedulerCall × W.State) := []
  /-- For each push, the number of pushed streams after it, and the limit of the client. -/
  pushes : List (UInt32 × UInt32) := []
  /-- The flow-controlled bytes of the DATA frames that came for a stream that is not idle, by
  stream; those that were taken from the window of the connection; and those that were given
  back to it. -/
  received : List (UInt32 × Nat) := []
  taken : List (UInt32 × Nat) := []
  refunded : List (UInt32 × Nat) := []
  /-- The last stream id of the GOAWAY frame. -/
  announced : Option UInt32 := none

/-- A window for receiving: that of the connection, to which bytes of a stream are given back, or
that of a stream. -/
inductive InboundWindow where
  | conn (source : UInt32)
  | stream (id : UInt32)
deriving DecidableEq, Repr

/-- The stream of a window, if it is that of a stream. -/
def InboundWindow.stream? : InboundWindow → Option UInt32
  | conn _ => none
  | stream id => some id

/-- `serverConn`, with the goroutines that belong to it. -/
structure ServerConn (W : WriteScheduler) where
  /-- `serve` has not returned. -/
  serving : Bool := true
  flows : Flows
  inflow : Int32
  writeSched : W.State
  pushEnabled : Bool := true
  sawFirstSettings : Bool := false
  needToSendSettingsAck : Bool := false
  unackedSettings : Int := 0
  queuedControlFrames : Int := 0
  clientMaxStreams : UInt32 := 0xffffffff
  curClientStreams : UInt32 := 0
  curPushedStreams : UInt32 := 0
  maxClientStreamID : UInt32 := 0
  maxPushPromiseID : UInt32 := 0
  /-- The ids in the map `streams`. -/
  streams : List UInt32 := []
  /-- The streams that have been made, by their ids. -/
  stream : UInt32 → ServerStream := fun _ => {}
  initialStreamSendWindowSize : Int32 := ServerEnv.initialWindowSize
  writingFrame : Bool := false
  writingFrameAsync : Bool := false
  needsFrameFlush : Bool := false
  inGoAway : Bool := false
  inFrameScheduleLoop : Bool := false
  needToSendGoAway : Bool := false
  goAwayCode : ErrCode := .no
  /-- The shutdown timer was started. -/
  shutdownTimer : Bool := false
  /-- The frame of `writeFrameAsync`. -/
  inFlight : Option FrameWriteRequest := none
  /-- The number of frames that were started, and that of the loops over the streams. -/
  writes : Nat := 0
  ranges : Nat := 0
  /-- The streams whose handlers run. -/
  handlers : List UInt32 := []
  /-- The reads of which the serve loop has not heard. -/
  bodyReads : List (UInt32 × Nat) := []
  history : ServerHistory W := {}

namespace ServerConn

variable {W : WriteScheduler} (env : ServerEnv)

/-- A new connection, before `serve`. -/
def newConn (W : WriteScheduler) : ServerConn W where
  flows :=
    { stream := fun _ => 0
      conn := (Flow.add 0 ServerEnv.initialWindowSize).1
      maxFrameSize := 16384 }
  inflow := (Flow.add 0 ServerEnv.initialWindowSize).1
  writeSched := W.new

/-- Change the fields of a stream. -/
def update (sc : ServerConn W) (id : UInt32) (f : ServerStream → ServerStream) : ServerConn W :=
  { sc with stream := Function.update sc.stream id (f (sc.stream id)) }

/-- `state`. -/
def state (sc : ServerConn W) (streamID : UInt32) : StreamState :=
  if streamID ∈ sc.streams then (sc.stream streamID).state
  else if streamID % 2 = 1 then
    if streamID ≤ sc.maxClientStreamID then .stateClosed else .stateIdle
  else if streamID ≤ sc.maxPushPromiseID then .stateClosed
  else .stateIdle

/-- `curOpenStreams`. -/
def curOpenStreams (sc : ServerConn W) : UInt32 := sc.curClientStreams + sc.curPushedStreams

/-- `isPushed`. -/
def isPushed (id : UInt32) : Bool := id % 2 == 0

/-! ## Frames that are queued -/

/-- The connection after a call of the write scheduler. -/
def called (sc : ServerConn W) (c : SchedulerCall) (ws : W.State) : ServerConn W :=
  { sc with
    writeSched := ws
    history := { sc.history with calls := sc.history.calls ++ [(c, sc.writeSched)] } }

/-- A call of the write scheduler. -/
def call (sc : ServerConn W) (c : SchedulerCall) : Except Fault (ServerConn W) := do
  let ws ← c.apply W sc.writeSched
  .ok (sc.called c ws)

/-- The connection after a `Push`. -/
def pushed (sc : ServerConn W) (wr : FrameWriteRequest) (ws : W.State) : ServerConn W :=
  { sc with
    writeSched := ws
    queuedControlFrames := sc.queuedControlFrames + if wr.isControl then 1 else 0 }

/-- `Push`, with the count of control frames. -/
def push (sc : ServerConn W) (wr : FrameWriteRequest) : Except Fault (ServerConn W) := do
  let ws ← W.push sc.writeSched wr
  .ok (sc.pushed wr ws)

/-- The connection after a `Pop`. -/
def popped (sc : ServerConn W) (r : Option FrameWriteRequest × Flows × W.State) : ServerConn W :=
  { sc with
    flows := r.2.1
    writeSched := r.2.2
    queuedControlFrames :=
      sc.queuedControlFrames - if r.1.any FrameWriteRequest.isControl then 1 else 0
    history := { sc.history with
      popped := sc.history.popped ++ r.1.toList.map fun wr =>
        { wr := wr
          streamWindow := sc.flows.stream wr.streamID
          connWindow := sc.flows.conn
          maxFrameSize := sc.flows.maxFrameSize } } }

/-- `Pop`, with the count of control frames.  Nothing is popped after an error. -/
def pop (sc : ServerConn W) : Except Fault (Option FrameWriteRequest × ServerConn W) :=
  if !sc.inGoAway || sc.goAwayCode == .no then do
    let r ← W.pop sc.writeSched sc.flows
    .ok (r.1, sc.popped r)
  else .ok (none, sc)

/-- A frame is not written: its stream is closed, and it is no RST_STREAM; or it is a
100-continue, and the headers were sent before. -/
def ignoresWrite (sc : ServerConn W) (wr : FrameWriteRequest) : Bool :=
  (wr.streamID != 0 && sc.state wr.streamID == .stateClosed && !wr.isReset) ||
    (wr.write.kind == some .write100ContinueHeadersFrame &&
      wr.stream.any fun id => (sc.stream id).wroteHeaders)

/-- The headers of a response are written. -/
def noteHeaders (sc : ServerConn W) (wr : FrameWriteRequest) : ServerConn W :=
  match wr.write.kind, wr.stream with
  | some (.writeResHeaders _), some id => sc.update id fun st => { st with wroteHeaders := true }
  | _, _ => sc

/-- `writeFrame`. -/
def writeFrame (schedule : ServerConn W → Except Fault (ServerConn W)) (sc : ServerConn W)
    (wr : FrameWriteRequest) : Except Fault (ServerConn W) :=
  if sc.ignoresWrite wr then schedule (sc.noteHeaders wr)
  else do
    let sc ← (sc.noteHeaders wr).push wr
    schedule sc

/-- `goAway`. -/
def goAway (schedule : ServerConn W → Except Fault (ServerConn W)) (sc : ServerConn W)
    (code : ErrCode) : Except Fault (ServerConn W) :=
  if sc.inGoAway then .ok sc
  else schedule { sc with inGoAway := true, needToSendGoAway := true, goAwayCode := code }

/-- `resetStream`. -/
def resetStream (schedule : ServerConn W → Except Fault (ServerConn W)) (sc : ServerConn W)
    (streamID : UInt32) (code : ErrCode) : Except Fault (ServerConn W) := do
  let sc ← sc.writeFrame schedule { write := .streamError streamID code }
  .ok (if streamID ∈ sc.streams then sc.update streamID fun st => { st with resetQueued := true }
    else sc)

/-! ## Flow control that is given back -/

/-- Bytes of a stream are added to the window of the connection. -/
def refill (sc : ServerConn W) (source : UInt32) (n : Int32) : ServerConn W :=
  { sc with
    inflow := (Flow.add sc.inflow n).1
    history := { sc.history with
      refunded := sc.history.refunded ++ [(source, n.toNatClampNeg)] } }

/-- The connection after `add` of an inbound window, or `none` if the window would be too
large. -/
def addInflow (sc : ServerConn W) (w : InboundWindow) (n : Int32) : Option (ServerConn W) :=
  match w with
  | .conn source => if (Flow.add sc.inflow n).2 then some (sc.refill source n) else none
  | .stream id =>
    if (Flow.add (sc.stream id).inflow n).2 then
      some (sc.update id fun st => { st with inflow := (Flow.add st.inflow n).1 })
    else none

/-- `sendWindowUpdate32`. -/
def sendWindowUpdate32 (schedule : ServerConn W → Except Fault (ServerConn W)) (sc : ServerConn W)
    (w : InboundWindow) (n : Int32) : Except Fault (ServerConn W) :=
  if n = 0 then .ok sc
  else if n < 0 then .error (.panic "negative update")
  else do
    let sc ← sc.writeFrame schedule
      { write := FrameKind.writeWindowUpdate.framer n.toNatClampNeg, stream := w.stream? }
    match sc.addInflow w n with
    | some sc => .ok sc
    | none => .error (.panic "internal error; sent too many window updates without decrements?")

/-- The constant `maxUint31` of `sendWindowUpdate`. -/
def maxUint31 : Nat := 2147483647

/-- `sendWindowUpdate`. -/
def sendWindowUpdate (schedule : ServerConn W → Except Fault (ServerConn W)) (sc : ServerConn W)
    (w : InboundWindow) (n : Nat) : Except Fault (ServerConn W) := do
  let sc ← (List.replicate (n / maxUint31) (Int32.ofNat maxUint31)).foldlM
    (fun sc k => sc.sendWindowUpdate32 schedule w k) sc
  sc.sendWindowUpdate32 schedule w (Int32.ofNat (n % maxUint31))

/-! ## Streams that end -/

/-- The stream leaves the table. -/
def forget (sc : ServerConn W) (id : UInt32) : ServerConn W :=
  { sc.update id (fun st => { st with state := .stateClosed }) with
    curPushedStreams := if isPushed id then sc.curPushedStreams - 1 else sc.curPushedStreams
    curClientStreams := if isPushed id then sc.curClientStreams else sc.curClientStreams - 1
    streams := sc.streams.erase id
    history := { sc.history with closed := sc.history.closed ++ [id] } }

/-- The body of a stream that is closed: what is unread is given back, and the pipe ends. -/
def closeBody (schedule : ServerConn W → Except Fault (ServerConn W)) (sc : ServerConn W)
    (id : UInt32) (err : BodyError) : Except Fault (ServerConn W) :=
  match (sc.stream id).body with
  | none => .ok sc
  | some p => do
    let sc ← sc.sendWindowUpdate schedule (.conn id) p.len
    .ok (sc.update id fun st => { st with body := st.body.map fun p => p.closeWithError err })

/-- The last stream is closed.  If keep-alives are disabled, so is the connection. -/
def lastStream (schedule : ServerConn W → Except Fault (ServerConn W)) (sc : ServerConn W)
    (id : UInt32) : Except Fault (ServerConn W) :=
  if sc.streams.isEmpty && env.keepAlivesDisabled id then sc.goAway schedule .no else .ok sc

/-- `closeStream`. -/
def closeStream (schedule : ServerConn W → Except Fault (ServerConn W)) (sc : ServerConn W)
    (id : UInt32) (err : BodyError) : Except Fault (ServerConn W) :=
  if (sc.stream id).state = .stateIdle ∨ (sc.stream id).state = .stateClosed then
    .error (.panic ("invariant; can't close stream in state " ++ (sc.stream id).state.name))
  else do
    let sc ← lastStream env schedule (sc.forget id) id
    let sc ← sc.closeBody schedule id err
    (sc.update id fun st => { st with cwClosed := true }).call (.closeStream id)

/-! ## Streams that begin -/

/-- The stream comes to the table. -/
def addStream (sc : ServerConn W) (id : UInt32) (state : StreamState) : ServerConn W :=
  { sc with
    flows := { sc.flows with
      stream := Function.update sc.flows.stream id (Flow.add 0 sc.initialStreamSendWindowSize).1 }
    stream := Function.update sc.stream id
      { state := state, inflow := (Flow.add 0 env.initialStreamRecvWindowSize).1 }
    streams := id :: sc.streams
    curPushedStreams := if isPushed id then sc.curPushedStreams + 1 else sc.curPushedStreams
    curClientStreams := if isPushed id then sc.curClientStreams else sc.curClientStreams + 1
    history := { sc.history with
      created := sc.history.created ++ [id]
      grants := sc.history.grants ++ [⟨id, sc.initialStreamSendWindowSize.toInt⟩] } }

/-- `newStream`. -/
def newStream (sc : ServerConn W) (id pusherID : UInt32) (state : StreamState) :
    Except Fault (ServerConn W) :=
  if id = 0 then .error (.panic "internal error: cannot create stream with id 0")
  else (addStream env sc id state).call (.openStream id pusherID)

/-- `go sc.runHandler`. -/
def runHandler (sc : ServerConn W) (id : UInt32) (handler : RequestHandler) : ServerConn W :=
  { sc.update id (fun st => { st with handler := some handler }) with
    handlers := id :: sc.handlers
    history := { sc.history with started := sc.history.started ++ [id] } }

/-- A stream is promised. -/
def promise (sc : ServerConn W) (id : UInt32) : ServerConn W :=
  { sc with
    maxPushPromiseID := id
    history := { sc.history with
      pushes := sc.history.pushes ++ [(sc.curPushedStreams + 1, sc.clientMaxStreams)] } }

/-- The function `allocatePromisedID` of `startPush`, and whether it has returned an id.  `Push`
has validated the request.  It runs in the loop of `scheduleFrameWrite`. -/
def allocatePromisedID (sc : ServerConn W) (parent : UInt32) :
    Except Fault (Bool × ServerConn W) :=
  if !sc.pushEnabled then .ok (false, sc)
  else if sc.curPushedStreams + 1 > sc.clientMaxStreams then .ok (false, sc)
  else if sc.maxPushPromiseID + 2 ≥ 0x80000000 then do
    let sc ← sc.goAway pure .no
    .ok (false, sc)
  else do
    let id := sc.maxPushPromiseID + 2
    let sc ← newStream env (sc.promise id) id parent .stateHalfClosedRemote
    .ok (true, sc.runHandler id .serveHTTP)

/-! ## Frames that are written -/

/-- The part of `wroteFrame` after the flags: what the frame does to its stream. -/
def frameDone (schedule : ServerConn W → Except Fault (ServerConn W)) (sc : ServerConn W)
    (wr : FrameWriteRequest) : Except Fault (ServerConn W) :=
  if wr.endsStream then
    match wr.stream with
    | none => .error (.panic "internal error: expecting non-nil stream")
    | some id =>
      match (sc.stream id).state with
      | .stateOpen =>
        (sc.update id fun st => { st with state := .stateHalfClosedLocal }).resetStream schedule id
          .no
      | .stateHalfClosedRemote => sc.closeStream env schedule id .errHandlerComplete
      | _ => .ok sc
  else
    match wr.write, wr.stream with
    | .streamError streamID code, _ =>
      if streamID ∈ sc.streams then
        sc.closeStream env schedule streamID (.streamError streamID code)
      else .ok sc
    | w, some id =>
      if w.kind = some .handlerPanicRST then sc.closeStream env schedule id .errHandlerPanicked
      else .ok sc
    | _, none => .ok sc

/-- `wroteFrame`. -/
def wroteFrame (schedule : ServerConn W → Except Fault (ServerConn W)) (sc : ServerConn W)
    (wr : FrameWriteRequest) : Except Fault (ServerConn W) :=
  if !sc.writingFrame then
    .error (.panic "internal error: expected to be already writing a frame")
  else do
    let sc ← frameDone env schedule
      { sc with writingFrame := false, writingFrameAsync := false, inFlight := none } wr
    schedule sc

/-- The frame is written, by the serve goroutine or by one of its own. -/
def beginWrite (sc : ServerConn W) (wr : FrameWriteRequest) : Except Fault (ServerConn W) :=
  let sc := { sc with writingFrame := true, needsFrameFlush := true, writes := sc.writes + 1 }
  if !wr.flushes && env.withinBuffer sc.writes then
    wroteFrame env pure { sc with writingFrameAsync := false } wr
  else .ok { sc with writingFrameAsync := true, inFlight := some wr }

/-- The panics of `startFrameWrite` for a frame on a stream. -/
def checkStream (sc : ServerConn W) (wr : FrameWriteRequest) : Except Fault Unit :=
  match wr.stream with
  | none => .ok ()
  | some id =>
    match (sc.stream id).state with
    | .stateHalfClosedLocal =>
      if wr.allowedHalfClosed then .ok ()
      else .error (.panic "internal error: attempt to send frame on a half-closed-local stream")
    | .stateClosed => .error (.panic "internal error: attempt to send frame on a closed stream")
    | _ => .ok ()

/-- `startFrameWrite`. -/
def startFrameWrite (sc : ServerConn W) (wr : FrameWriteRequest) : Except Fault (ServerConn W) :=
  if sc.writingFrame then
    .error (.panic "internal error: can only be writing one frame at a time")
  else do
    sc.checkStream wr
    if wr.write.kind = some .writePushPromise then
      let (promised, sc) ← allocatePromisedID env sc wr.streamID
      if promised then beginWrite env sc wr else .ok { sc with writingFrameAsync := false }
    else beginWrite env sc wr

/-- A GOAWAY frame is taken. -/
def announce (sc : ServerConn W) : ServerConn W :=
  { sc with
    needToSendGoAway := false
    history := { sc.history with announced := some sc.maxClientStreamID } }

/-- One pass of the loop of `scheduleFrameWrite`: whether the loop goes on, and the connection
after it. -/
def schedulePass (sc : ServerConn W) : Except Fault (Bool × ServerConn W) :=
  if sc.needToSendGoAway then do
    let sc ← startFrameWrite env sc.announce
      { write := FrameKind.writeGoAway.framer sc.maxClientStreamID.toNat }
    .ok (true, sc)
  else if sc.needToSendSettingsAck then do
    let sc ← startFrameWrite env { sc with needToSendSettingsAck := false }
      { write := FrameKind.writeSettingsAck.framer }
    .ok (true, sc)
  else do
    let (wr, sc) ← sc.pop
    match wr with
    | some wr =>
      let sc ← startFrameWrite env sc wr
      .ok (true, sc)
    | none =>
      if sc.needsFrameFlush then
        let sc ← startFrameWrite env sc { write := FrameKind.flushFrameWriter.framer }
        .ok (true, { sc with needsFrameFlush := false })
      else .ok (false, sc)

/-- The loop of `scheduleFrameWrite`. -/
def scheduleLoop : Nat → ServerConn W → Except Fault (ServerConn W)
  | 0, _ => .error .diverges
  | passes + 1, sc =>
    if sc.writingFrameAsync then .ok sc
    else do
      let (goesOn, sc) ← schedulePass env sc
      if goesOn then scheduleLoop passes sc else .ok sc

/-- `scheduleFrameWrite`. -/
def scheduleFrameWrite (sc : ServerConn W) : Except Fault (ServerConn W) :=
  if sc.writingFrame || sc.inFrameScheduleLoop then .ok sc
  else do
    let sc ← scheduleLoop env env.passes { sc with inFrameScheduleLoop := true }
    .ok { sc with inFrameScheduleLoop := false }

end ServerConn

end Fhttp.Http2
