import Fhttp.Lib.Run
import Fhttp.Http2.ServerFrames

/-!
# The server as a system

A connection with everything that acts on it: the frames of the peer, the handlers, which send
headers, data and pushes and read the bodies of requests, the goroutine that writes a frame,
and the timers.  A run is a sequence of events in any order.  An event that is not possible in
a state leaves it as it is.

The events of the serve loop are the cases of its `select`.  A handler may do anything with its
stream at any time: that the `responseWriter` sends its frames in a certain order is not assumed
here.
-/

namespace Fhttp.Http2

open Hpack (Bytes)
open Lib.Panic (Fault)

/-- A frame that a handler sends. -/
inductive HandlerFrame where
  | headers (endStream : Bool) (value : Nat)
  | data (p : Bytes) (endStream : Bool)
  | continue100
  /-- The handler has panicked. -/
  | panicRST
deriving DecidableEq

/-- The request to write a frame of a handler. -/
def HandlerFrame.request (id : UInt32) : HandlerFrame → FrameWriteRequest
  | headers endStream value =>
    { write := (FrameKind.writeResHeaders endStream).framer value, stream := some id }
  | data p endStream => { write := .writeData id p endStream, stream := some id }
  | continue100 => { write := FrameKind.write100ContinueHeadersFrame.framer, stream := some id }
  | panicRST => { write := FrameKind.handlerPanicRST.framer, stream := some id }

inductive ServerEvent where
  /-- A frame comes from a handler. -/
  | wantWriteFrame (id : UInt32) (f : HandlerFrame)
  /-- `onWriteTimeout` of a stream. -/
  | writeTimeout (id : UInt32)
  /-- `writeFrameAsync` has ended. -/
  | wroteFrame
  | readFrame (r : Except Error Frame)
  /-- The serve loop hears of a read, the `i`-th of those it has not heard of. -/
  | bodyRead (i : Nat)
  | settingsTimer
  | idleTimer
  | shutdownTimer
  | gracefulShutdown
  | startPush (parent : UInt32) (value : Nat)
  /-- `Read` of the body of a request, of at most `n` bytes. -/
  | handlerRead (id : UInt32) (n : Nat)
  /-- `Close` of the body of a request. -/
  | handlerClose (id : UInt32)
  | handlerReturn (id : UInt32)

namespace ServerConn

variable {W : WriteScheduler} (env : ServerEnv)

/-! ## The serve loop -/

/-- `noteBodyRead`. -/
def noteBodyRead (sc : ServerConn W) (id : UInt32) (n : Nat) : Except Fault (ServerConn W) := do
  let sc ← sc.sendWindowUpdate (scheduleFrameWrite env) (.conn id) n
  if (sc.stream id).state ≠ .stateHalfClosedRemote ∧ (sc.stream id).state ≠ .stateClosed then
    sc.sendWindowUpdate (scheduleFrameWrite env) (.stream id) n
  else .ok sc

/-- `startPush`.  The handler gets an error if the stream has ended or pushes are disabled. -/
def startPush (sc : ServerConn W) (parent : UInt32) (value : Nat) : Except Fault (ServerConn W) :=
  if (sc.stream parent).state ≠ .stateOpen ∧ (sc.stream parent).state ≠ .stateHalfClosedRemote then
    .ok sc
  else if !sc.pushEnabled then .ok sc
  else sc.writeFrame (scheduleFrameWrite env)
    { write := FrameKind.writePushPromise.framer value, stream := some parent }

/-- `closeAllStreamsOnConnClose`. -/
def closeAllStreams : ServerConn W → List UInt32 → Except Fault (ServerConn W)
  | sc, [] => .ok sc
  | sc, id :: ids =>
    if id ∈ sc.streams then do
      let sc ← sc.closeStream env (scheduleFrameWrite env) id .errClientDisconnected
      closeAllStreams sc ids
    else closeAllStreams sc ids

/-- `serve` returns. -/
def stopServing (sc : ServerConn W) : Except Fault (ServerConn W) :=
  closeAllStreams env { sc with serving := false, ranges := sc.ranges + 1 }
    (env.rangeStreams sc.ranges sc.streams)

/-- The shutdown timer starts after a GOAWAY, but in a graceful shutdown only when all streams
have ended. -/
def startShutdownTimer (sc : ServerConn W) : ServerConn W :=
  let sentGoAway := sc.inGoAway && !sc.needToSendGoAway && !sc.writingFrame
  if sentGoAway && (sc.goAwayCode != .no || sc.curOpenStreams == 0) then
    { sc with shutdownTimer := true }
  else sc

/-- A case of the `select` of `serve`: whether the loop goes on, and the connection after it.
What a handler does is not one of them. -/
def serveCase (sc : ServerConn W) : ServerEvent → Except Fault (Bool × ServerConn W)
  | .wantWriteFrame id f => goesOn (sc.writeFrame (scheduleFrameWrite env) (f.request id))
  | .writeTimeout id => goesOn (sc.resetStream (scheduleFrameWrite env) id .internal)
  | .wroteFrame =>
    match sc.inFlight with
    | some wr => goesOn (wroteFrame env (scheduleFrameWrite env) sc wr)
    | none => .ok (true, sc)
  | .readFrame r => processFrameFromReader env sc r
  | .bodyRead i =>
    match sc.bodyReads[i]? with
    | some (id, n) =>
      goesOn (noteBodyRead env { sc with bodyReads := sc.bodyReads.eraseIdx i } id n)
    | none => .ok (true, sc)
  | .settingsTimer => .ok (false, sc)
  | .idleTimer => goesOn (sc.goAway (scheduleFrameWrite env) .no)
  | .shutdownTimer => .ok (!sc.shutdownTimer, sc)
  | .gracefulShutdown => goesOn (sc.goAway (scheduleFrameWrite env) .no)
  | .startPush parent value => goesOn (startPush env sc parent value)
  | .handlerRead .. => .ok (true, sc)
  | .handlerClose .. => .ok (true, sc)
  | .handlerReturn .. => .ok (true, sc)

/-- An event for the serve loop can happen: messages from a handler are about a stream that was
made, and a push is not about a pushed stream. -/
def possible (sc : ServerConn W) : ServerEvent → Bool
  | .wantWriteFrame id _ => id ∈ sc.history.created
  | .writeTimeout id => id ∈ sc.history.created
  | .startPush parent _ => parent ∈ sc.history.created && !isPushed parent
  | .wroteFrame => sc.inFlight.isSome
  | _ => true

/-- One pass of the loop of `serve`. -/
def servePass (sc : ServerConn W) (e : ServerEvent) : Except Fault (ServerConn W) := do
  let (goesOn, sc) ← serveCase env sc e
  if !goesOn || sc.queuedControlFrames > ServerEnv.maxQueuedControlFrames then stopServing env sc
  else .ok sc.startShutdownTimer

/-! ## The handlers -/

/-- `copyTrailersToHandlerRequest`: only the trailers that were announced are copied. -/
def copyTrailers (trailer reqTrailer : Header) : Header :=
  reqTrailer.map fun kv => if trailer.has kv.1 then (kv.1, trailer.get kv.1) else kv

/-- The body of a stream after a `Read`. -/
def readBody (sc : ServerConn W) (id : UInt32) (r : Pipe.ReadResult BodyError Unit)
    (p : Pipe BodyError Unit) : ServerConn W :=
  { sc.update id (fun st => { st with
      body := some p
      reqTrailer :=
        if r.ran.isSome then st.reqTrailer.map (copyTrailers (st.trailer.getD []))
        else st.reqTrailer }) with
    bodyReads := if r.bytes = [] then sc.bodyReads else sc.bodyReads ++ [(id, r.bytes.length)] }

/-- `Read` of the body of a request.  It waits if there is nothing to return. -/
def handlerRead (sc : ServerConn W) (id : UInt32) (n : Nat) : ServerConn W :=
  match (sc.stream id).body with
  | none => sc
  | some p =>
    match p.read n with
    | none => sc
    | some (r, p) => sc.readBody id r p

/-- `Close` of the body of a request. -/
def handlerClose (sc : ServerConn W) (id : UInt32) : ServerConn W :=
  sc.update id fun st => { st with body := st.body.map fun p => p.breakWithError .errClosedBody }

/-- The handler of a stream returns. -/
def handlerReturn (sc : ServerConn W) (id : UInt32) : ServerConn W :=
  { sc.update id (fun st => { st with cancelled := true }) with handlers := sc.handlers.erase id }

/-! ## Runs -/

/-- One event. -/
def step (sc : ServerConn W) : ServerEvent → Except Fault (ServerConn W)
  | .handlerRead id n => .ok (if id ∈ sc.history.created then sc.handlerRead id n else sc)
  | .handlerClose id => .ok (if id ∈ sc.history.created then sc.handlerClose id else sc)
  | .handlerReturn id => .ok (if id ∈ sc.handlers then sc.handlerReturn id else sc)
  | e => if sc.serving && sc.possible e then servePass env sc e else .ok sc

/-- The beginning of `serve`: the settings, and the window of the connection if it is not that
of the protocol. -/
def start (W : WriteScheduler) : Except Fault (ServerConn W) := do
  let sc ← (newConn W).writeFrame (scheduleFrameWrite env)
    { write := FrameKind.writeSettings.framer }
  let diff := env.initialConnRecvWindowSize - ServerEnv.initialWindowSize
  let sc := { sc with unackedSettings := sc.unackedSettings + 1 }
  if diff > 0 then
    sc.sendWindowUpdate (scheduleFrameWrite env) (.conn 0) diff.toNatClampNeg
  else .ok sc

/-- The connection after a sequence of events. -/
def run (W : WriteScheduler) (events : List ServerEvent) : Except Fault (ServerConn W) := do
  let sc ← start env W
  events.foldlM (step env) sc

end ServerConn

/-! ## A server for examples -/

/-- A server with the default settings, in which every frame fits the write buffer. -/
def simpleServer : ServerEnv where
  lib := { parseRequestURI := fun _ => true, validTrailerHeader := fun _ => true }
  withinBuffer := fun _ => true
  rangeStreams_perm := fun _ ids => .refl ids
  passes := 20

/-- The random scheduler that takes the streams in the order of the map. -/
def simpleScheduling : Scheduling := .random fun _ => ⟨id, fun l => .refl l⟩

namespace ServerEvent

/-- An empty SETTINGS frame comes. -/
def settings : ServerEvent := .readFrame (.ok (.settings ⟨FrameType.settings, 0, 0, 0⟩ []))

/-- A HEADERS frame comes. -/
def headers (id : UInt32) (flags : Flags) (fields : List Hpack.HeaderField) : ServerEvent :=
  .readFrame (.ok (.metaHeaders ⟨FrameType.headers, flags, 0, id⟩ {} fields false))

/-- A RST_STREAM frame comes. -/
def reset (id : UInt32) : ServerEvent :=
  .readFrame (.ok (.rstStream ⟨FrameType.rstStream, 0, 4, id⟩ .no))

end ServerEvent

end Fhttp.Http2
