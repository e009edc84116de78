import Fhttp.Http2.Server

/-!
# The frames that a server receives

`processFrame` of `http2/server.go` and the methods that it calls, one for each type of frame.
They return an error for the connection or for a stream, which `processFrameFromReader` turns
into a GOAWAY or a RST_STREAM frame.
-/

namespace Fhttp.Http2

open Hpack (Bytes HeaderField)
open Lib.Panic (Fault)

/-- The errors of `processFrame`. -/
inductive FrameError where
  | streamError (streamID : UInt32) (code : ErrCode)
  | connectionError (code : ErrCode)
  | goAwayFlowError
deriving DecidableEq, Repr

/-- `StreamEnded` of a DATA or HEADERS frame. -/
def FrameHeader.streamEnded (h : FrameHeader) : Bool := h.flags.has flagHeadersEndStream

/-- `HasPriority` of a HEADERS frame. -/
def FrameHeader.hasPriority (h : FrameHeader) : Bool := h.flags.has flagHeadersPriority

/-- `HasDuplicates` of a SETTINGS frame. -/
def hasDuplicates (settings : List Setting) : Bool := !decide (settings.map Setting.id).Nodup

namespace ServerConn

variable {W : WriteScheduler} (env : ServerEnv)

/-- The error of a method, and the connection after it. -/
abbrev Processed (W : WriteScheduler) := Except Fault (Option FrameError × ServerConn W)

/-- A method that ends without an error, after a step that may panic. -/
def succeeds (r : Except Fault (ServerConn W)) : Processed W := r.map fun sc => (none, sc)

/-! ## The windows of the peer -/

/-- Credit for the connection. -/
def creditConn (sc : ServerConn W) (n : Int32) (amount : Int) : ServerConn W :=
  { sc with
    flows := { sc.flows with conn := (Flow.add sc.flows.conn n).1 }
    history := { sc.history with grants := sc.history.grants ++ [⟨0, amount⟩] } }

/-- Credit for a stream. -/
def creditStream (sc : ServerConn W) (id : UInt32) (n : Int32) (amount : Int) : ServerConn W :=
  { sc with
    flows := { sc.flows with
      stream := Function.update sc.flows.stream id (Flow.add (sc.flows.stream id) n).1 }
    history := { sc.history with grants := sc.history.grants ++ [⟨id, amount⟩] } }

/-- `add` of the window of a stream, or of the connection if the id is 0.  It is `none` if the
window would be too large.  The amount is what `n` stands for. -/
def addFlow (sc : ServerConn W) (id : UInt32) (n : Int32) (amount : Int) : Option (ServerConn W) :=
  if id = 0 then
    if (Flow.add sc.flows.conn n).2 then some (sc.creditConn n amount) else none
  else if (Flow.add (sc.flows.stream id) n).2 then some (sc.creditStream id n amount)
  else none

/-- `processWindowUpdate`. -/
def processWindowUpdate (sc : ServerConn W) (h : FrameHeader) (increment : UInt32) : Processed W :=
  if h.streamID ≠ 0 ∧ sc.state h.streamID = .stateIdle then
    .ok (some (.connectionError .protocol), sc)
  else if h.streamID ≠ 0 ∧ h.streamID ∉ sc.streams then .ok (none, sc)
  else
    match sc.addFlow h.streamID increment.toInt32 increment.toInt32.toInt with
    | some sc => succeeds (scheduleFrameWrite env sc)
    | none =>
      if h.streamID ≠ 0 then .ok (some (.streamError h.streamID .flowControl), sc)
      else .ok (some .goAwayFlowError, sc)

/-- The loop of `processSettingInitialWindowSize` over the streams.  The flag is false if a window
would be too large. -/
def growWindows (n : Int32) (amount : Int) : ServerConn W → List UInt32 → Bool × ServerConn W
  | sc, [] => (true, sc)
  | sc, id :: ids =>
    match sc.addFlow id n amount with
    | none => (false, sc)
    | some sc => growWindows n amount sc ids

/-- `processSettingInitialWindowSize`. -/
def processSettingInitialWindowSize (sc : ServerConn W) (val : UInt32) :
    Option FrameError × ServerConn W :=
  let r := growWindows (val.toInt32 - sc.initialStreamSendWindowSize)
    (val.toNat - sc.initialStreamSendWindowSize.toInt)
    { sc with initialStreamSendWindowSize := val.toInt32, ranges := sc.ranges + 1 }
    (env.rangeStreams sc.ranges sc.streams)
  (if r.1 then none else some (.connectionError .flowControl), r.2)

/-- `processSetting`. -/
def processSetting (sc : ServerConn W) (s : Setting) : Option FrameError × ServerConn W :=
  match s.valid with
  | .error (.connectionError code) => (some (.connectionError code), sc)
  | .error _ => (some (.connectionError .protocol), sc)
  | .ok () =>
    if s.id = SettingID.enablePush then (none, { sc with pushEnabled := s.val != 0 })
    else if s.id = SettingID.maxConcurrentStreams then (none, { sc with clientMaxStreams := s.val })
    else if s.id = SettingID.initialWindowSize then processSettingInitialWindowSize env sc s.val
    else if s.id = SettingID.maxFrameSize then
      (none, { sc with flows := { sc.flows with maxFrameSize := s.val.toInt32 } })
    else (none, sc)

/-- `ForeachSetting` with `processSetting`. -/
def processSettingList : ServerConn W → List Setting → Option FrameError × ServerConn W
  | sc, [] => (none, sc)
  | sc, s :: settings =>
    match processSetting env sc s with
    | (some err, sc) => (some err, sc)
    | (none, sc) => processSettingList sc settings

/-- `processSettings`. -/
def processSettings (sc : ServerConn W) (h : FrameHeader) (p : Bytes) : Processed W :=
  if h.flags.has flagSettingsAck then
    .ok (if sc.unackedSettings - 1 < 0 then some (.connectionError .protocol) else none,
      { sc with unackedSettings := sc.unackedSettings - 1 })
  else if (settingsOf p).length > 100 || hasDuplicates (settingsOf p) then
    .ok (some (.connectionError .protocol), sc)
  else
    match processSettingList env sc (settingsOf p) with
    | (some err, sc) => .ok (some err, sc)
    | (none, sc) => succeeds (scheduleFrameWrite env { sc with needToSendSettingsAck := true })

/-! ## The body of a request -/

/-- `endStream`. -/
def endStream (sc : ServerConn W) (id : UInt32) : Except Fault (ServerConn W) :=
  match (sc.stream id).body with
  | none => .error (.panic "invalid memory address or nil pointer dereference")
  | some p =>
    let declared := (sc.stream id).declBodyBytes
    let wrote := (sc.stream id).bodyBytes
    .ok (sc.update id fun st => { st with
      body := some (
        if declared ≠ -1 ∧ declared ≠ wrote then p.closeWithError (.notAsDeclared declared wrote)
        else (p.closeWithErrorAndCode .eof (some ())).closeWithError .eof)
      state := .stateHalfClosedRemote })

/-- A DATA frame came. -/
def noteReceived (sc : ServerConn W) (h : FrameHeader) : ServerConn W :=
  { sc with history := { sc.history with
      received := sc.history.received ++ [(h.streamID, h.length.toNat)] } }

/-- The bytes of a DATA frame are taken from the window of the connection, which then is
`conn`. -/
def noteTaken (sc : ServerConn W) (h : FrameHeader) (conn : Int32) : ServerConn W :=
  { sc with
    inflow := conn
    history := { sc.history with taken := sc.history.taken ++ [(h.streamID, h.length.toNat)] } }

/-- `processData` for a stream that takes no data: only the window of the connection counts. -/
def refuseData (sc : ServerConn W) (h : FrameHeader) : Processed W :=
  let length := h.length.toInt32
  if sc.inflow < length then .ok (some (.streamError h.streamID .flowControl), sc)
  else if length > sc.inflow then .error tookTooMuch
  else do
    let sc' ← (sc.noteTaken h (sc.inflow - length)).sendWindowUpdate (scheduleFrameWrite env)
      (.conn h.streamID) h.length.toNat
    .ok (if h.streamID ∈ sc.streams ∧ (sc'.stream h.streamID).resetQueued then none
      else some (.streamError h.streamID .streamClosed), sc')

/-- The window for padding is given back at once. -/
def refundPadding (sc : ServerConn W) (h : FrameHeader) (data : Bytes) :
    Except Fault (ServerConn W) :=
  let pad := h.length.toInt32 - Int32.ofNat data.length
  if pad > 0 then do
    let sc ← sc.sendWindowUpdate32 (scheduleFrameWrite env) (.conn h.streamID) pad
    sc.sendWindowUpdate32 (scheduleFrameWrite env) (.stream h.streamID) pad
  else .ok sc

/-- The data, if there is any, is written to the pipe of the body: an error, or the connection
after it. -/
def writeBody (sc : ServerConn W) (h : FrameHeader) (p : Pipe BodyError Unit) (data : Bytes) :
    Processed W :=
  if data.length > 0 then
    match p.write data with
    | (some _, _) => do
      let sc ← sc.sendWindowUpdate (scheduleFrameWrite env) (.conn h.streamID) h.length.toNat
      .ok (some (.streamError h.streamID .streamClosed), sc)
    | (none, p) =>
      .ok (none, sc.update h.streamID fun st => { st with
        body := some p, bodyBytes := st.bodyBytes + data.length })
  else .ok (none, sc)

/-- The part of `processData` after the window is taken. -/
def storeData (sc : ServerConn W) (h : FrameHeader) (p : Pipe BodyError Unit) (data : Bytes) :
    Processed W := do
  let (err, sc) ← writeBody env sc h p data
  if err.isSome then .ok (err, sc) else succeeds (refundPadding env sc h data)

/-- The part of `processData` that takes the window and writes the data. -/
def takeData (sc : ServerConn W) (h : FrameHeader) (p : Pipe BodyError Unit) (data : Bytes) :
    Processed W :=
  let length := h.length.toInt32
  if h.length = 0 then .ok (none, sc)
  else if Flow.available (sc.stream h.streamID).inflow sc.inflow < length then
    .ok (some (.streamError h.streamID .flowControl), sc)
  else do
    let (inflow, conn) ← Flow.take (sc.stream h.streamID).inflow sc.inflow length
    storeData env ((sc.noteTaken h conn).update h.streamID fun st => { st with inflow := inflow }) h
      p data

/-- `processData` for a stream that is open. -/
def acceptData (sc : ServerConn W) (h : FrameHeader) (data : Bytes) : Processed W :=
  let st := sc.stream h.streamID
  match st.body with
  | none => .error (.panic "internal error: should have a body in this state")
  | some p =>
    if st.declBodyBytes ≠ -1 ∧ st.bodyBytes + data.length > st.declBodyBytes then
      .ok (some (.streamError h.streamID .protocol), sc.update h.streamID fun st => { st with
        body := some (p.closeWithError (.moreThanDeclared st.declBodyBytes)) })
    else do
      let (err, sc) ← takeData env sc h p data
      if err.isSome then .ok (err, sc)
      else if h.streamEnded then succeeds (sc.endStream h.streamID)
      else .ok (none, sc)

/-- `processData`. -/
def processData (sc : ServerConn W) (h : FrameHeader) (data : Bytes) : Processed W :=
  if sc.inGoAway && sc.goAwayCode != .no then .ok (none, sc)
  else if h.streamID = 0 ∨ sc.state h.streamID = .stateIdle then
    .ok (some (.connectionError .protocol), sc)
  else if h.streamID ∉ sc.streams ∨ sc.state h.streamID ≠ .stateOpen ∨
      (sc.stream h.streamID).gotTrailerHeader ∨ (sc.stream h.streamID).resetQueued then
    refuseData env (sc.noteReceived h) h
  else acceptData env (sc.noteReceived h) h data

/-! ## The other frames of a stream -/

/-- `processResetStream`. -/
def processResetStream (sc : ServerConn W) (h : FrameHeader) (code : ErrCode) : Processed W :=
  if sc.state h.streamID = .stateIdle then .ok (some (.connectionError .protocol), sc)
  else if h.streamID ∈ sc.streams then
    succeeds ((sc.update h.streamID fun st => { st with cancelled := true }).closeStream env
      (scheduleFrameWrite env) h.streamID (.streamError h.streamID code))
  else .ok (none, sc)

/-- The trailers are added to those of the stream, up to one that is not allowed. -/
def addTrailers : Header → List HeaderField → Bool × Header
  | t, [] => (true, t)
  | t, hf :: fields =>
    if env.lib.validTrailerHeader (canonicalHeaderKey hf.name) then
      addTrailers (t.append (canonicalHeaderKey hf.name) hf.value) fields
    else (false, t)

/-- The trailers of a frame, for a stream that keeps them. -/
def keepTrailers (sc : ServerConn W) (id : UInt32) (fields : List HeaderField) :
    Bool × ServerConn W :=
  match (sc.stream id).trailer with
  | none => (true, sc)
  | some t =>
    ((addTrailers env t (regularFields fields)).1,
      sc.update id fun st => { st with
        trailer := some (addTrailers env t (regularFields fields)).2 })

/-- `processTrailerHeaders`. -/
def processTrailerHeaders (sc : ServerConn W) (h : FrameHeader) (fields : List HeaderField) :
    Processed W :=
  if (sc.stream h.streamID).gotTrailerHeader then .ok (some (.connectionError .protocol), sc)
  else
    let sc := sc.update h.streamID fun st => { st with gotTrailerHeader := true }
    if !h.streamEnded || !(pseudoFields fields).isEmpty then
      .ok (some (.streamError h.streamID .protocol), sc)
    else if (keepTrailers env sc h.streamID fields).1 then
      succeeds ((keepTrailers env sc h.streamID fields).2.endStream h.streamID)
    else .ok (some (.streamError h.streamID .protocol), (keepTrailers env sc h.streamID fields).2)

/-- The stream gets its request, and the handler is started. -/
def startRequest (sc : ServerConn W) (id : UInt32) (req : ServerRequest) (truncated : Bool) :
    ServerConn W :=
  (sc.update id fun st => { st with
    reqTrailer := req.trailer
    trailer := req.trailer.map fun _ => []
    body := if req.hasPipe then some { b := some [] } else none
    declBodyBytes := req.contentLength
    request := some req }).runHandler id (handlerFor req truncated)

/-- The priority in a HEADERS frame. -/
def adjustNew (sc : ServerConn W) (h : FrameHeader) (priority : PriorityParam) :
    Except Fault (ServerConn W) :=
  if h.hasPriority then sc.call (.adjustStream h.streamID priority) else .ok sc

/-- `processHeaders` for a new stream. -/
def openRequest (sc : ServerConn W) (h : FrameHeader) (priority : PriorityParam)
    (fields : List HeaderField) (truncated : Bool) : Processed W :=
  if sc.curClientStreams + 1 > env.advMaxStreams then
    .ok (some (.streamError h.streamID
      (if sc.unackedSettings = 0 then .protocol else .refusedStream)), sc)
  else do
    let sc ← newStream env sc h.streamID 0
      (if h.streamEnded then .stateHalfClosedRemote else .stateOpen)
    if h.hasPriority && h.streamID == priority.streamDep then
      .ok (some (.streamError h.streamID .protocol), sc)
    else
      let sc ← sc.adjustNew h priority
      match newWriterAndRequest env.lib fields h.streamEnded with
      | none => .ok (some (.streamError h.streamID .protocol), sc)
      | some req => .ok (none, sc.startRequest h.streamID req truncated)

/-- `processHeaders`. -/
def processHeaders (sc : ServerConn W) (h : FrameHeader) (priority : PriorityParam)
    (fields : List HeaderField) (truncated : Bool) : Processed W :=
  if sc.inGoAway then .ok (none, sc)
  else if h.streamID % 2 ≠ 1 then .ok (some (.connectionError .protocol), sc)
  else if h.streamID ∈ sc.streams then
    if (sc.stream h.streamID).resetQueued then .ok (none, sc)
    else if (sc.stream h.streamID).state = .stateHalfClosedRemote then
      .ok (some (.streamError h.streamID .streamClosed), sc)
    else processTrailerHeaders env sc h fields
  else if h.streamID ≤ sc.maxClientStreamID then .ok (some (.connectionError .protocol), sc)
  else openRequest env { sc with maxClientStreamID := h.streamID } h priority fields truncated

/-- `processPriority`. -/
def processPriority (sc : ServerConn W) (h : FrameHeader) (priority : PriorityParam) :
    Processed W :=
  if sc.inGoAway then .ok (none, sc)
  else if h.streamID = priority.streamDep then
    .ok (some (.streamError h.streamID .protocol), sc)
  else succeeds (sc.call (.adjustStream h.streamID priority))

/-! ## All frames -/

/-- `processPing`. -/
def processPing (sc : ServerConn W) (h : FrameHeader) (data : Vector UInt8 8) : Processed W :=
  if h.flags.has flagPingAck then .ok (none, sc)
  else if h.streamID ≠ 0 then .ok (some (.connectionError .protocol), sc)
  else if sc.inGoAway && sc.goAwayCode != .no then .ok (none, sc)
  else succeeds (sc.writeFrame (scheduleFrameWrite env)
    { write := FrameKind.writePingAck.framer (Lib.BigEndian.ofBytes data.toList) })

/-- `processGoAway`. -/
def processGoAway (sc : ServerConn W) : Processed W := do
  let sc ← sc.goAway (scheduleFrameWrite env) .no
  .ok (none, { sc with pushEnabled := false })

/-- The part of `processFrame` after the check of the first frame. -/
def dispatch (sc : ServerConn W) : Frame → Processed W
  | .settings h p => processSettings env sc h p
  | .metaHeaders h priority fields truncated => processHeaders env sc h priority fields truncated
  | .windowUpdate h increment => processWindowUpdate env sc h increment
  | .ping h data => processPing env sc h data
  | .data h data => processData env sc h data
  | .rstStream h code => processResetStream env sc h code
  | .priority h priority => sc.processPriority h priority
  | .goAway .. => processGoAway env sc
  | .metaPushPromise .. => .ok (some (.connectionError .protocol), sc)
  | _ => .ok (none, sc)

/-- `processFrame`. -/
def processFrame (sc : ServerConn W) (f : Frame) : Processed W :=
  match f with
  | .settings .. => dispatch env { sc with sawFirstSettings := true } f
  | _ =>
    if sc.sawFirstSettings then dispatch env sc f
    else .ok (some (.connectionError .protocol), sc)

/-- What `processFrameFromReader` does with an error of `processFrame`. -/
def handleError (sc : ServerConn W) : FrameError → Except Fault (ServerConn W)
  | .streamError streamID code => sc.resetStream (scheduleFrameWrite env) streamID code
  | .connectionError code => sc.goAway (scheduleFrameWrite env) code
  | .goAwayFlowError => sc.goAway (scheduleFrameWrite env) .flowControl

/-- A step that keeps the connection open. -/
def goesOn (r : Except Fault (ServerConn W)) : Except Fault (Bool × ServerConn W) :=
  r.map fun sc => (true, sc)

/-- `processFrameFromReader`: whether the connection is kept open, and the connection after it. -/
def processFrameFromReader (sc : ServerConn W) : Except Error Frame →
    Except Fault (Bool × ServerConn W)
  | .ok f => do
    let (err, sc) ← processFrame env sc f
    match err with
    | none => .ok (true, sc)
    | some err => goesOn (handleError env sc err)
  | .error .errFrameTooLarge => goesOn (sc.goAway (scheduleFrameWrite env) .frameSize)
  | .error (.streamError streamID code _) =>
    goesOn (sc.resetStream (scheduleFrameWrite env) streamID code)
  | .error (.connectionError code) => goesOn (sc.goAway (scheduleFrameWrite env) code)
  | .error _ => .ok (false, sc)

end ServerConn

end Fhttp.Http2
