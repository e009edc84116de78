import Fhttp.Lib.Run
import Fhttp.Http2.ResponseBody

/-!
# The client as a system

A connection with everything that acts on it: the read loop, which gets the frames of the
peer, the goroutines of round trips and of request bodies, and the caller, who reads,
closes and cancels.  A run is a sequence of events in any order; an event that is not
possible in a state leaves it as it is.

A goroutine that gives up the lock in the middle of something is a `Task`: what it still
has to do.  A step of a task is what it does under the lock, or in one method of a pipe.
-/

namespace Fhttp.Http2

open Hpack (Bytes Encoder)
open Lib.Panic (Fault)

/-! ## Goroutines -/

/-- What a goroutine still has to do. -/
inductive Task where
  /-- `cancelStream`, and then `bufPipe.CloseWithError` if there is an error: the calls of
  `awaitRequestCancel`, `PushedRequest.ReadResponse` and `PushedRequest.Cancel`. -/
  | cancel (cs : StreamRef) (after : Option ClientError)
  | cancelReset (cs : StreamRef) (after : Option ClientError)
  | cancelForget (cs : StreamRef) (after : Option ClientError)
  | closePipe (cs : StreamRef) (err : ClientError)
  /-- `transportResponseBody.Close`. -/
  | close (cs : StreamRef)
  | closeReset (cs : StreamRef) (unread : Nat) (serverSentStreamEnd : Bool)
  | closeBreak (cs : StreamRef)
  /-- `forgetStreamID`. -/
  | forget (cs : StreamRef)
  /-- `writeStreamReset`. -/
  | reset (cs : StreamRef) (code : ErrCode)
  /-- The flow control of a `Read`. -/
  | credit (cs : StreamRef) (err : Option ClientError)
  /-- The `WriteData` for what flow control has allowed. -/
  | writeData (cs : StreamRef) (data : Bytes) (endStream : Bool)
deriving DecidableEq

namespace Task

/-- The end of a `cancelStream`. -/
def cancelled (cs : StreamRef) (after : Option ClientError) : Option Task :=
  after.map (.closePipe cs)

/-- One step of a goroutine: what is left to do, and the connection after it. -/
def step (cc : ClientConn) : Task → Except Fault (Option Task × ClientConn)
  | .cancel cs after =>
    let (didReset, cc) := cc.cancelMark cs
    .ok (if didReset then some (.cancelReset cs after) else cancelled cs after, cc)
  | .cancelReset cs after =>
    .ok (some (.cancelForget cs after), cc.writeStreamReset (cc.stream cs).id .cancel)
  | .cancelForget cs after => do
    let cc ← cc.forgetStreamID (cc.stream cs).id
    .ok (cancelled cs after, cc)
  | .closePipe cs err => .ok (none, cc.closePipe cs err)
  | .close cs =>
    match cc.closeCheck cs with
    | none => .ok (none, cc)
    | some (unread, serverSentStreamEnd) =>
      if unread > 0 ∨ !serverSentStreamEnd then
        .ok (some (.closeReset cs unread serverSentStreamEnd), cc)
      else .ok (some (.closeBreak cs), cc)
  | .closeReset cs unread serverSentStreamEnd =>
    .ok (some (.closeBreak cs), cc.closeReset cs unread serverSentStreamEnd)
  | .closeBreak cs => .ok (some (.forget cs), cc.closeBreak cs)
  | .forget cs => do
    let cc ← cc.forgetStreamID (cc.stream cs).id
    .ok (none, cc)
  | .reset cs code => .ok (none, cc.writeStreamReset (cc.stream cs).id code)
  | .credit cs err => do
    let cc ← cc.creditRead cs err
    .ok (none, cc)
  | .writeData cs data endStream =>
    .ok (none, cc.send (.data (cc.stream cs).id endStream data none))

end Task

namespace ClientConn

/-! ## Round trips -/

/-- `canTakeNewRequestLocked`; how many requests wait for a slot and whether the connection
was idle for too long are inputs. -/
def canTakeNewRequest (cc : ClientConn) (pendingRequests : Nat) (tooIdle : Bool) : Bool :=
  if cc.singleUse && cc.nextStreamID > 1 then false
  else
    let maxConcurrentOkay := cc.t.strictMaxConcurrentStreams ||
      decide (cc.streams.length + 1 < cc.maxConcurrentStreams.toNat)
    cc.goAway.isNone && !cc.closed && !cc.closing && maxConcurrentOkay &&
      decide (cc.nextStreamID.toNat + 2 * pendingRequests < 0x7fffffff) && !tooIdle

/-- `awaitOpenSlotForRequest` lets a request through. -/
def admits (cc : ClientConn) (pendingRequests : Nat) (tooIdle : Bool) : Bool :=
  cc.canTakeNewRequest pendingRequests tooIdle &&
    decide (cc.streams.length + 1 ≤ cc.maxConcurrentStreams.toNat)

/-- What `encodeHeaders` gives for a request: the header block, and the encoder after it. -/
structure EncodedRequest where
  req : Request
  hdrs : Bytes
  henc : Encoder
  /-- The request has neither a body nor trailers. -/
  endStream : Bool

/-- `roundTrip` up to the header block that it writes. -/
def startRequest (cc : ClientConn) (r : EncodedRequest) :
    Except Fault (StreamRef × ClientConn) := do
  let (cs, cc) := { cc with henc := r.henc }.newStream
  let cc := cc.update cs fun s => { s with req := some r.req }
  let calls ← writeHeaders cc.t.headerPriority (cc.stream cs).id r.endStream cc.maxFrameSize.toNat
    r.hdrs
  .ok (cs, calls.foldl send cc)

/-- `checkResetOrDone`.  When both channels are closed, either error can be the result. -/
def checkResetOrDone (cc : ClientConn) (cs : StreamRef) : Option ClientError :=
  if (cc.stream cs).peerReset then (cc.stream cs).resetErr
  else if (cc.stream cs).done then some .errStreamClosed
  else none

/-- How many bytes `awaitFlowControl` takes when `a` are available. -/
def allowance (cc : ClientConn) (a : Int32) (maxBytes : Nat) : Int32 :=
  let take := if a.toInt > maxBytes then Int32.ofNat maxBytes else a
  if take > cc.maxFrameSize.toInt32 then cc.maxFrameSize.toInt32 else take

/-- One pass of `awaitFlowControl`.  It waits when nothing is available. -/
def awaitFlowControl (cc : ClientConn) (cs : StreamRef) (maxBytes : Nat) :
    Except Fault (Option (Except ClientError Int32) × ClientConn) :=
  if cc.closed then .ok (some (.error .errClientConnClosed), cc)
  else
    match (cc.stream cs).stopReqBody with
    | some err => .ok (some (.error err), cc)
    | none =>
      match cc.checkResetOrDone cs with
      | some err => .ok (some (.error err), cc)
      | none =>
        let a := Flow.available (cc.stream cs).flow cc.flow
        if a > 0 then do
          let take := cc.allowance a maxBytes
          let (n, conn) ← Flow.take (cc.stream cs).flow cc.flow take
          .ok (some (.ok take), { cc with flow := conn }.update cs fun s => { s with flow := n })
        else .ok (none, cc)

end ClientConn

/-! ## Events -/

inductive ClientEvent where
  /-- The read loop gets a frame or an error from the framer. -/
  | receive (outside : ClientConn.Outside) (res : Except Error Frame)
  /-- The read loop goes on inside a frame. -/
  | resume
  /-- A round trip starts. -/
  | roundTrip (r : ClientConn.EncodedRequest) (pendingRequests : Nat) (tooIdle : Bool)
  /-- A round trip, or a `ReadResponse` of a pushed request, gets a result. -/
  | result (cs : StreamRef)
  /-- A round trip ends without a result of the read loop. -/
  | leave (cs : StreamRef)
  /-- `abortRequestBodyWrite`. -/
  | abortBody (cs : StreamRef) (err : ClientError)
  /-- The body of a request waits for flow control. -/
  | awaitFlow (cs : StreamRef) (remain : Bytes) (endStream : Bool)
  /-- The caller reads from a body. -/
  | read (cs : StreamRef) (n : Nat)
  /-- A goroutine starts. -/
  | start (t : Task)
  /-- A goroutine takes a step. -/
  | step (i : Nat)
  /-- `Close`, or a lost ping. -/
  | closeForError (err : ClientError)
  /-- The idle timer, or the end of `Shutdown`. -/
  | closeIfIdle
  /-- The start of `Shutdown`. -/
  | sendGoAway
  /-- `Ping` sends a frame. -/
  | ping (data : Vector UInt8 8)

/-- What has happened so far.  The steps of the client do not look at it. -/
structure History where
  /-- The streams that round trips have created. -/
  requests : List StreamRef := []
  /-- The flow-controlled bytes of the `DATA` frames received. -/
  received : Nat := 0
  /-- The streams that the read loop has removed from the map. -/
  removed : List StreamRef := []
  /-- The increments that a stream and the connection have got. -/
  increments : StreamRef → Nat := fun _ => 0
  connIncrements : Nat := 0
  /-- The bytes that flow control has allowed to a stream and to all of them. -/
  taken : StreamRef → Int := fun _ => 0
  connTaken : Int := 0

/-- A connection, and what is going on around it. -/
structure Client where
  cc : ClientConn
  tasks : List Task := []
  /-- The streams of the round trips that wait for a result. -/
  waiting : List StreamRef := []
  /-- The streams whose response bodies the caller has got. -/
  bodies : List StreamRef := []
  hist : History := {}

namespace History

/-- A frame that the read loop handles. -/
def receive (hist : History) (cc : ClientConn) : Frame → History
  | .data h _ => { hist with received := hist.received + h.length.toNat }
  | .windowUpdate h increment =>
    if h.streamID = 0 then { hist with connIncrements := hist.connIncrements + increment.toNat }
    else
      match cc.lookup h.streamID with
      | some cs =>
        { hist with
          increments :=
            Function.update hist.increments cs (hist.increments cs + increment.toNat) }
      | none => hist
  | _ => hist

/-- The streams that were in the map and are not any more. -/
def remove (hist : History) (before after : ClientConn) : History :=
  { hist with
    removed := hist.removed ++ before.streams.filter fun cs => !after.streams.contains cs }

/-- Bytes that flow control allows. -/
def take (hist : History) (cs : StreamRef) (n : Int32) : History :=
  { hist with
    taken := Function.update hist.taken cs (hist.taken cs + n.toInt)
    connTaken := hist.connTaken + n.toInt }

end History

namespace Client

/-- The read loop gets a result of `ReadFrame`. -/
def receive (s : Client) (outside : ClientConn.Outside) (res : Except Error Frame) :
    Except Fault Client := do
  let cc ← s.cc.receive outside res
  let hist :=
    match s.cc.loop, res with
    | .running, .ok f => s.hist.receive s.cc f
    | _, _ => s.hist
  .ok { s with cc := cc, hist := hist.remove s.cc cc }

def resume (s : Client) : Except Fault Client := do
  let cc ← s.cc.resume
  .ok { s with cc := cc, hist := s.hist.remove s.cc cc }

def roundTrip (s : Client) (r : ClientConn.EncodedRequest) (pendingRequests : Nat)
    (tooIdle : Bool) : Except Fault Client :=
  if s.cc.admits pendingRequests tooIdle then do
    let (cs, cc) ← s.cc.startRequest r
    .ok { s with
      cc := cc
      waiting := cs :: s.waiting
      hist := { s.hist with requests := cs :: s.hist.requests } }
  else .ok s

/-- Take what is on `resc` of a stream. -/
def result (s : Client) (cs : StreamRef) : Client :=
  match (s.cc.stream cs).resc with
  | none => s
  | some re =>
    let handedOut :=
      match re with
      | .res res => res.body
      | .err _ => false
    { s with
      cc := s.cc.update cs fun cs => { cs with resc := none }
      waiting := s.waiting.filter (· ≠ cs)
      bodies := if handedOut then cs :: s.bodies else s.bodies }

def awaitFlow (s : Client) (cs : StreamRef) (remain : Bytes) (endStream : Bool) :
    Except Fault Client := do
  let (res, cc) ← s.cc.awaitFlowControl cs remain.length
  match res with
  | some (.ok n) =>
    if n < 0 then .error (.panic "slice bounds out of range")
    else
      .ok { s with
        cc := cc
        tasks := s.tasks ++ [.writeData cs (remain.take n.toInt.toNat) endStream]
        hist := s.hist.take cs n }
  | _ => .ok { s with cc := cc }

/-- Whether a `Read` of the stream is between the pipe and its flow control. -/
def reading (s : Client) (cs : StreamRef) : Bool :=
  s.tasks.any fun t =>
    match t with
    | .credit cs' _ => cs' == cs
    | _ => false

def read (s : Client) (cs : StreamRef) (n : Nat) : Except Fault Client :=
  if cs ∈ s.bodies ∧ !s.reading cs then do
    match ← s.cc.readBody cs n with
    | none => .ok s
    | some (r, cc) =>
      .ok { s with
        cc := cc
        tasks := if r.tokens then s.tasks ++ [.credit cs r.err] else s.tasks }
  else .ok s

/-- What a goroutine may start with. -/
def startable (s : Client) : Task → Bool
  | .cancel cs _ => cs < s.cc.nextRef
  | .close cs => cs ∈ s.bodies
  | .forget cs => cs < s.cc.nextRef
  | .reset cs _ => cs < s.cc.nextRef
  | _ => false

def stepTask (s : Client) (i : Nat) : Except Fault Client :=
  match s.tasks[i]? with
  | none => .ok s
  | some t => do
    let (next, cc) ← t.step s.cc
    let tasks :=
      match next with
      | some t => s.tasks.set i t
      | none => s.tasks.eraseIdx i
    .ok { s with cc := cc, tasks := tasks }

/-- `sendGoAway`. -/
def sendGoAway (s : Client) : Client :=
  if s.cc.closing then s
  else { s with cc := { s.cc.send (.goAway s.cc.nextStreamID .no []) with closing := true } }

def step (s : Client) : ClientEvent → Except Fault Client
  | .receive outside res => s.receive outside res
  | .resume => s.resume
  | .roundTrip r pendingRequests tooIdle => s.roundTrip r pendingRequests tooIdle
  | .result cs => .ok (s.result cs)
  | .leave cs => .ok { s with waiting := s.waiting.filter (· ≠ cs) }
  | .abortBody cs err =>
    .ok { s with cc := s.cc.update cs fun s => { s with stopReqBody := some err } }
  | .awaitFlow cs remain endStream => s.awaitFlow cs remain endStream
  | .read cs n => s.read cs n
  | .start t => .ok (if s.startable t then { s with tasks := s.tasks ++ [t] } else s)
  | .step i => s.stepTask i
  | .closeForError err => .ok { s with cc := s.cc.closeForError err }
  | .closeIfIdle => .ok { s with cc := s.cc.closeIfIdle }
  | .sendGoAway => .ok s.sendGoAway
  | .ping data =>
    .ok { s with cc := { s.cc.send (.ping false data) with pings := data :: s.cc.pings } }

/-- A run from a state. -/
def run (s : Client) (events : List ClientEvent) : Except Fault Client := events.foldlM step s

end Client

/-- A new client. -/
def Transport.newClient (t : Transport) (singleUse : Bool) : Except ClientError Client :=
  (t.newClientConn singleUse).map fun cc => { cc := cc }

end Fhttp.Http2
