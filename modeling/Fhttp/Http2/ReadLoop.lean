import Fhttp.Http2.Transport

/-!
# The read loop of a client connection

The model of `clientConnReadLoop`: `run` with the handler of every frame type, and
`cleanup`.  A handler is one step of the connection, except in two places where the loop
is not alone: before it sends a result on the channel `resc` of a stream, which may have
to wait for the receiver, and between the accounting of `DATA` and the write to the pipe
of the stream.  There a handler ends with the rest that is left to do (`Handled`), and
`resume` does the rest.

What comes from outside is an input of the step: what the caller's trace function says
to a 1xx response, and whether a pushed request is accepted.  A `StreamError` of the
framer without a cause has no `errDetail` either, so the line in `run` that fills it in
has no counterpart here.
-/

namespace Fhttp.Http2

open Hpack (Bytes HeaderField ascii)
open Lib.Panic (Fault)

/-- The value of a pointer that must not be nil. -/
def deref {α : Type} (p : Option α) : Except Fault α :=
  match p with
  | some a => .ok a
  | none => .error (.panic "invalid memory address or nil pointer dereference")

/-- How a handler ends: it returns, or a part of it is left to do. -/
inductive Handled where
  | returned (err : Option ClientError)
  | send (cs : StreamRef) (re : ResAndError) (deferred : Option UInt32)
  | deliver (cs : StreamRef) (data : Bytes) (streamEnded : Bool)

namespace ClientConn

/-! ## The end of a stream -/

/-- `endStreamError`; without an error it is `endStream`. -/
def endStreamError (cc : ClientConn) (cs : StreamRef) (err : Option ClientError) :
    Except Fault ClientConn := do
  let req ← deref (cc.stream cs).req
  let cc := if req.connectionClose then { cc with closeWhenIdle := true } else cc
  let e := err.getD .eof
  let code := if err.isNone then some ReadFn.copyTrailers else none
  .ok (cc.update cs fun s =>
    { s with bufPipe := s.bufPipe.closeWithErrorAndCode e code }.trySend (.err e))

/-! ## Headers -/

def max1xxResponses : UInt8 := 5

/-- `handleResponse`.  It gives no response for a 1xx status. -/
def handleResponse (cc : ClientConn) (cs : StreamRef) (h : FrameHeader) (fields : List HeaderField)
    (truncated : Bool) (got1xx : Option ClientError) :
    Except Fault (Except ClientError (Option Response) × ClientConn) :=
  if truncated then .ok (.error .errResponseHeaderListSize, cc)
  else
    let status := pseudoValue fields (ascii ":status")
    if status = [] then
      .ok (.error (.text "malformed response from server: missing status pseudo header"), cc)
    else
      match atoi status with
      | none =>
        .ok (.error
          (.text "malformed response from server: malformed non-numeric status pseudo header"), cc)
      | some statusCode =>
        let (header, trailer) := responseHeader fields
        if 100 ≤ statusCode ∧ statusCode ≤ 199 then
          let cc := cc.update cs fun s => { s with num1xx := s.num1xx + 1 }
          if (cc.stream cs).num1xx > max1xxResponses then
            .ok (.error (.text "http2: too many 1xx informational responses"), cc)
          else
            match got1xx with
            | some err => .ok (.error err, cc)
            | none => .ok (.ok none, cc.update cs fun s => { s with pastHeaders := false })
        else do
          let streamEnded := h.flags.has flagHeadersEndStream
          let req ← deref (cc.stream cs).req
          let isHead := req.method == ascii "HEAD"
          let contentLength := if !streamEnded || isHead then responseContentLength header else 0
          let res : Response :=
            { statusCode := statusCode
              header := header
              trailer := trailer
              contentLength := contentLength
              body := !(streamEnded || isHead) }
          if streamEnded || isHead then .ok (.ok (some res), cc)
          else
            .ok (.ok (some res), cc.update cs fun s =>
              { s with bufPipe := { b := some [] }, bytesRemain := contentLength })

/-- `processTrailers`. -/
def processTrailers (cc : ClientConn) (cs : StreamRef) (h : FrameHeader)
    (fields : List HeaderField) : Except Fault (Option ClientError × ClientConn) :=
  if (cc.stream cs).pastTrailers then .ok (some (.connection .protocol), cc)
  else
    let cc := cc.update cs fun s => { s with pastTrailers := true }
    if !h.flags.has flagHeadersEndStream then .ok (some (.connection .protocol), cc)
    else if pseudoFields fields ≠ [] then .ok (some (.connection .protocol), cc)
    else do
      let cc := cc.update cs fun s => { s with trailer := regularHeader fields }
      let cc ← cc.endStreamError cs none
      .ok (none, cc)

/-- The call of `forgetStreamID` that was deferred. -/
def runDeferred (cc : ClientConn) (deferred : Option UInt32) : Except Fault ClientConn :=
  match deferred with
  | some id => cc.forgetStreamID id
  | none => .ok cc

/-- The start of `processHeaders`.  After the last frame of a stream, the stream is forgotten
at once, or at the end when the request has a body. -/
def headersEnded (cc : ClientConn) (cs : StreamRef) (h : FrameHeader) :
    Except Fault (Option UInt32 × ClientConn) :=
  if h.flags.has flagHeadersEndStream then do
    let cc := cc.update cs fun s => { s with gotEndStream := true }
    let req ← deref (cc.stream cs).req
    if req.body then .ok (some h.streamID, cc)
    else do
      let cc ← cc.forgetStreamID h.streamID
      .ok (none, cc)
  else .ok (none, cc)

/-- The end of `processHeaders` for a header block that is not a trailer. -/
def processResponse (cc : ClientConn) (cs : StreamRef) (h : FrameHeader) (fields : List HeaderField)
    (truncated : Bool) (got1xx : Option ClientError) (deferred : Option UInt32) :
    Except Fault (Handled × ClientConn) := do
  let (res, cc) ← cc.handleResponse cs h fields truncated got1xx
  match res with
  | .error err =>
    if err.isConnection then do
      let cc ← cc.runDeferred deferred
      .ok (.returned (some err), cc)
    else do
      let cc := cc.writeStreamReset h.streamID .protocol
      let cc ← cc.forgetStreamID (cc.stream cs).id
      .ok (.send cs (.err err) deferred, cc)
  | .ok none => do
    let cc ← cc.runDeferred deferred
    .ok (.returned none, cc)
  | .ok (some res) =>
    let cc := cc.update cs fun s => { s with resTrailer := some res.trailer }
    .ok (.send cs (.res res) deferred, cc)

def processHeaders (cc : ClientConn) (h : FrameHeader) (fields : List HeaderField)
    (truncated : Bool) (got1xx : Option ClientError) : Except Fault (Handled × ClientConn) :=
  match cc.lookup h.streamID with
  | none => .ok (.returned none, cc)
  | some cs => do
    let (deferred, cc) ← cc.headersEnded cs h
    let cc := cc.update cs fun s => { s with firstByte := true }
    if (cc.stream cs).pastHeaders then do
      let (err, cc) ← cc.processTrailers cs h fields
      let cc ← cc.runDeferred deferred
      .ok (.returned err, cc)
    else
      (cc.update cs fun s => { s with pastHeaders := true }).processResponse cs h fields truncated
        got1xx deferred

/-! ## Data -/

/-- The window that is given back for a `DATA` frame at once: that of the padding, and that
of the data when nobody will read it. -/
def refundOf (h : FrameHeader) (data : Bytes) (didReset : Bool) : Nat :=
  (h.length.toNat - data.length) + if didReset then data.length else 0

/-- The part of `processData` that gives back a refund. -/
def refundData (cc : ClientConn) (cs : StreamRef) (didReset : Bool) (refund : Nat) : ClientConn :=
  if refund > 0 then
    let cc := { cc with inflow := (Flow.add cc.inflow (Int32.ofNat refund)).1 }.send
      (.windowUpdate 0 (UInt32.ofNat refund))
    if didReset then cc
    else
      (cc.update cs fun s => { s with inflow := (Flow.add s.inflow (Int32.ofNat refund)).1 }).send
        (.windowUpdate (cc.stream cs).id (UInt32.ofNat refund))
  else cc

/-- The accounting of a `DATA` frame with a positive length, when the windows allow it. -/
def takeData (cc : ClientConn) (cs : StreamRef) (h : FrameHeader) (data : Bytes) :
    Except Fault ClientConn := do
  let taken ← Flow.take (cc.stream cs).inflow cc.inflow h.length.toInt32
  let didReset := (cc.stream cs).didReset
  .ok (({ cc with inflow := taken.2 }.update cs fun s => { s with inflow := taken.1 }).refundData
    cs didReset (refundOf h data didReset))

/-- `processData` for a stream that is not in the map. -/
def unknownData (cc : ClientConn) (h : FrameHeader) : Option ClientError × ClientConn :=
  let serverInitiated := h.streamID % 2 = 0
  if h.streamID ≥ cc.nextStreamID ∧ ¬ serverInitiated then (some (.connection .protocol), cc)
  else if h.length > 0 then
    (none, { cc with inflow := (Flow.add cc.inflow h.length.toInt32).1 }.send
      (.windowUpdate 0 h.length))
  else (none, cc)

/-- The end of `processData`, after the data. -/
def dataEnded (cc : ClientConn) (cs : StreamRef) (streamEnded : Bool) :
    Except Fault (Handled × ClientConn) :=
  if streamEnded then do
    let cc ← cc.endStreamError cs none
    .ok (.returned none, cc)
  else .ok (.returned none, cc)

/-- `StreamError` for a frame that the protocol does not allow. -/
def protocolError (streamID : UInt32) : ClientError := .frame (.streamError streamID .protocol none)

/-- `processData` for a stream in the map, up to the write to the pipe. -/
def receiveData (cc : ClientConn) (cs : StreamRef) (h : FrameHeader) (data : Bytes)
    (streamEnded : Bool) : Except Fault (Handled × ClientConn) :=
  if !(cc.stream cs).firstByte then do
    let cc ← cc.endStreamError cs (some (protocolError h.streamID))
    .ok (.returned none, cc)
  else if h.length > 0 then do
    let req ← deref (cc.stream cs).req
    if req.method = ascii "HEAD" ∧ data ≠ [] then do
      let cc ← cc.endStreamError cs (some (protocolError h.streamID))
      .ok (.returned none, cc)
    else if Flow.available (cc.stream cs).inflow cc.inflow ≥ h.length.toInt32 then do
      let cc ← cc.takeData cs h data
      if data ≠ [] ∧ !(cc.stream cs).didReset then .ok (.deliver cs data streamEnded, cc)
      else cc.dataEnded cs streamEnded
    else .ok (.returned (some (.connection .flowControl)), cc)
  else cc.dataEnded cs streamEnded

/-- `processData`, up to the write to the pipe. -/
def processData (cc : ClientConn) (h : FrameHeader) (data : Bytes) :
    Except Fault (Handled × ClientConn) := do
  let (cs?, cc) ← cc.streamByID h.streamID (h.flags.has flagDataEndStream)
  match cs? with
  | none => .ok (.returned (cc.unknownData h).1, (cc.unknownData h).2)
  | some cs =>
    if h.flags.has flagDataEndStream then
      (cc.update cs fun s => { s with gotEndStream := true }).receiveData cs h data true
    else cc.receiveData cs h data false

/-- The write to the pipe, and the end of `processData`. -/
def deliverData (cc : ClientConn) (cs : StreamRef) (data : Bytes) (streamEnded : Bool) :
    Except Fault (Handled × ClientConn) :=
  let (err, pipe) := (cc.stream cs).bufPipe.write data
  let cc := cc.update cs fun s => { s with bufPipe := pipe }
  match err with
  | some e => do
    let cc ← cc.endStreamError cs (some (.pipeWrite e))
    .ok (.returned (some (.pipeWrite e)), cc)
  | none => cc.dataEnded cs streamEnded

/-! ## The other frames -/

/-- `setGoAway`. -/
def setGoAway (cc : ClientConn) (lastStreamID : UInt32) (errCode : ErrCode) (debugData : Bytes) :
    ClientConn :=
  let errCode :=
    match cc.goAway with
    | some old => if old.errCode ≠ .no then old.errCode else errCode
    | none => errCode
  let cc :=
    { cc with
      goAway := some { lastStreamID := lastStreamID, errCode := errCode }
      goAwayDebug := if cc.goAwayDebug = [] then debugData else cc.goAwayDebug }
  cc.updateOpen fun s =>
    if s.id > lastStreamID then s.trySend (.err .errClientConnGotGoAway) else s

/-- Change the send windows of all open streams. -/
def adjustWindows (cc : ClientConn) (delta : Int32) : ClientConn :=
  cc.updateOpen fun s => { s with flow := (Flow.add s.flow delta).1 }

/-- One setting of a `SETTINGS` frame. -/
def processSetting (cc : ClientConn) (s : Setting) : Except ClientError ClientConn :=
  if s.id = SettingID.maxFrameSize then .ok { cc with maxFrameSize := s.val }
  else if s.id = SettingID.maxConcurrentStreams then .ok { cc with maxConcurrentStreams := s.val }
  else if s.id = SettingID.maxHeaderListSize then
    .ok { cc with peerMaxHeaderListSize := s.val.toUInt64 }
  else if s.id = SettingID.initialWindowSize then
    if s.val > Transport.maxInt32 then .error (.connection .flowControl)
    else
      let delta := s.val.toInt32 - cc.initialWindowSize.toInt32
      .ok { cc.adjustWindows delta with initialWindowSize := s.val }
  else if s.id = SettingID.headerTableSize then
    let size := if s.val > Transport.initialHeaderTableSize then Transport.initialHeaderTableSize
      else s.val
    if size ≠ cc.hencMaxTableSize then
      .ok { cc with henc := cc.henc.setMaxDynamicTableSize size, hencMaxTableSize := size }
    else .ok cc
  else if s.id = SettingID.enableConnectProtocol then
    match s.valid with
    | .error e => .error (.frame e)
    | .ok () => .ok cc
  else .ok cc

/-- `ForeachSetting`: the settings up to the first error are applied. -/
def processSettingList (cc : ClientConn) : List Setting → Option ClientError × ClientConn
  | [] => (none, cc)
  | s :: rest =>
    match cc.processSetting s with
    | .error e => (some e, cc)
    | .ok cc => cc.processSettingList rest

def processSettings (cc : ClientConn) (h : FrameHeader) (p : Bytes) :
    Option ClientError × ClientConn :=
  if h.flags.has flagSettingsAck then
    if cc.wantSettingsAck then (none, { cc with wantSettingsAck := false })
    else (some (.connection .protocol), cc)
  else
    match cc.processSettingList (settingsOf p) with
    | (some e, cc) => (some e, cc)
    | (none, cc) => (none, cc.send .settingsAck)

def processWindowUpdate (cc : ClientConn) (h : FrameHeader) (increment : UInt32) :
    Option ClientError × ClientConn :=
  match cc.lookup h.streamID with
  | some cs =>
    match Flow.add (cc.stream cs).flow increment.toInt32 with
    | (n, true) => (none, cc.update cs fun s => { s with flow := n })
    | (_, false) => (some (.connection .flowControl), cc)
  | none =>
    if h.streamID ≠ 0 then (none, cc)
    else
      match Flow.add cc.flow increment.toInt32 with
      | (n, true) => (none, { cc with flow := n })
      | (_, false) => (some (.connection .flowControl), cc)

def processResetStream (cc : ClientConn) (h : FrameHeader) (errCode : ErrCode) :
    Except Fault ClientConn := do
  let (cs?, cc) ← cc.streamByID h.streamID true
  match cs? with
  | none => .ok cc
  | some cs =>
    if (cc.stream cs).peerReset then .ok cc
    else
      let err : ClientError := .frame (.streamError (cc.stream cs).id errCode none)
      .ok ((cc.update cs fun s => { s with resetErr := some err, peerReset := true }).closePipe cs
        err)

def processPing (cc : ClientConn) (h : FrameHeader) (data : Vector UInt8 8) : ClientConn :=
  if h.flags.has flagPingAck then { cc with pings := cc.pings.filter (· != data) }
  else cc.send (.ping true data)

/-- `processPushPromise`.  The last argument is what `pushedRequestToHTTPRequest` and the
checks of the scheme, the port and the authority say. -/
def processPushPromise (cc : ClientConn) (h : FrameHeader) (promiseID : UInt32)
    (pushed : Except ClientError Request) : Option ClientError × ClientConn :=
  if !cc.t.pushHandler then (some (.connection .protocol), cc)
  else if h.streamID % 2 ≠ 1 then (some (.connection .protocol), cc)
  else if promiseID % 2 ≠ 0 then (some (.connection .protocol), cc)
  else
    match cc.lookup h.streamID with
    | none => (some (.connection .protocol), cc)
    | some cs =>
      if (cc.stream cs).resetErr.isSome || (cc.stream cs).gotEndStream then
        (some (.connection .protocol), cc)
      else if promiseID ≤ cc.highestPromiseID then (some (.connection .protocol), cc)
      else
        let (pushedStream, cc) :=
          { cc with highestPromiseID := promiseID }.newStreamWithID promiseID false
        match pushed with
        | .error _ => (some (.frame (.streamError h.streamID .protocol none)), cc)
        | .ok req => (none, cc.update pushedStream fun s => { s with req := some req })

/-! ## The loop -/

/-- The error that the streams get when the read loop ends. -/
def cleanupError (cc : ClientConn) (err : ClientError) : ClientError :=
  match cc.goAway with
  | some goAway =>
    if err = .eof then .goAwayError goAway.lastStreamID goAway.errCode cc.goAwayDebug else err
  | none => if err = .eof then .unexpectedEOF else err

/-- `cleanup`, after the read loop has ended with an error. -/
def cleanup (cc : ClientConn) (err : ClientError) : Except Fault ClientConn :=
  let e := cc.cleanupError err
  if cc.streams.any fun cs => (cc.stream cs).done then .error (.panic "close of closed channel")
  else
    .ok { cc.updateOpen fun s => { (s.closePipe e).trySend (.err e) with done := true } with
      closed := true
      loop := .stopped }

/-- The end of the read loop: `readLoop` after `run`. -/
def stop (cc : ClientConn) (err : ClientError) : Except Fault ClientConn :=
  match err with
  | .frame (.connectionError code) => (cc.send (.goAway 0 code [])).cleanup err
  | _ => cc.cleanup err

/-- The end of one pass of the loop in `run`. -/
def endOfFrame (cc : ClientConn) (err : Option ClientError) (maybeIdle : Bool) :
    Except Fault ClientConn :=
  match err with
  | some e => cc.stop e
  | none =>
    let cc := { cc with loop := .running }
    .ok (if cc.closeWhenIdle && cc.gotReply && maybeIdle then cc.closeIfIdle else cc)

/-- What is left to do after a handler.  Only handlers of frames after which the connection
may be idle leave something. -/
def handled (cc : ClientConn) (result : Handled) : Except Fault ClientConn :=
  match result with
  | .returned err => cc.endOfFrame err true
  | .send cs re deferred =>
    if (cc.stream cs).resc.isSome then .ok { cc with loop := .sending cs re deferred }
    else do
      let cc ← (cc.update cs fun s => { s with resc := some re }).runDeferred deferred
      cc.endOfFrame none true
  | .deliver cs data streamEnded => .ok { cc with loop := .delivering cs data streamEnded }

/-- What the world outside says while a frame is handled. -/
structure Outside where
  /-- The error of the trace function for a 1xx response, if there is one. -/
  got1xx : Option ClientError := none
  /-- The request of a push promise, or why it is rejected. -/
  pushed : Except ClientError Request := .error .errRequestCanceled

/-- The loop gets a frame. -/
def handleFrame (cc : ClientConn) (outside : Outside) : Frame → Except Fault ClientConn
  | .metaHeaders h _ fields truncated => do
    let (result, cc) ← cc.processHeaders h fields truncated outside.got1xx
    { cc with gotReply := true }.handled result
  | .data h data => do
    let (result, cc) ← cc.processData h data
    cc.handled result
  | .goAway _ lastStreamID errCode debugData =>
    (cc.setGoAway lastStreamID errCode debugData).endOfFrame none true
  | .rstStream h errCode => do
    let cc ← cc.processResetStream h errCode
    cc.endOfFrame none true
  | .settings h p =>
    let (err, cc) := cc.processSettings h p
    cc.endOfFrame err false
  | .metaPushPromise h promiseID _ _ =>
    let (err, cc) := cc.processPushPromise h promiseID outside.pushed
    cc.endOfFrame err false
  | .windowUpdate h increment =>
    let (err, cc) := cc.processWindowUpdate h increment
    cc.endOfFrame err false
  | .ping h data => (cc.processPing h data).endOfFrame none false
  | _ => cc.endOfFrame none false

/-- The loop gets an error from the framer. -/
def handleError (cc : ClientConn) : Error → Except Fault ClientConn
  | .streamError streamID code cause =>
    match cc.lookup streamID with
    | none => .ok cc
    | some cs => do
      let cc := cc.writeStreamReset (cc.stream cs).id code
      let cc ← cc.forgetStreamID (cc.stream cs).id
      cc.endStreamError cs (some (.frame (.streamError streamID code cause)))
  | e => cc.stop (.frame e)

/-- The loop gets the next result of `ReadFrame`. -/
def receive (cc : ClientConn) (outside : Outside) (res : Except Error Frame) :
    Except Fault ClientConn :=
  match cc.loop with
  | .running =>
    match res with
    | .ok f => cc.handleFrame outside f
    | .error e => cc.handleError e
  | _ => .ok cc

/-- The loop goes on inside a frame. -/
def resume (cc : ClientConn) : Except Fault ClientConn :=
  match cc.loop with
  | .sending cs re deferred => cc.handled (.send cs re deferred)
  | .delivering cs data streamEnded => do
    let (result, cc) ← cc.deliverData cs data streamEnded
    cc.handled result
  | _ => .ok cc

end ClientConn

end Fhttp.Http2
