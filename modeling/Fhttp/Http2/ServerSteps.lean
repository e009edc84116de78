import Fhttp.Lib.Steps
import Fhttp.Http2.ServerLoop

/-!
# The small steps of a server

Every event changes a connection in a sequence of small steps: a frame is pushed or popped,
a stream comes to the table or leaves it, a window grows.  `Step` is the list of them, with what
is known when each of them is made.  `Fails` is the list of the places where the server panics.

A small step is made in a `Phase` of the event: a frame may have been taken from the scheduler and
not yet be written, and a stream may have left the table and its frames not yet be purged.

`ServerWriterSteps` and `ServerEventSteps` go through the functions of the server once and find
the small steps of each.  What holds in every run is then proved step by step, with no function of
the server in sight.
-/

namespace Fhttp.Http2

open Hpack (Bytes)
open Lib.Panic (Fault)
open Lib.Steps (Stepwise)

/-- Whether a function is called in the loop of `scheduleFrameWrite` or outside of it. -/
inductive Mode where
  | inside
  | outside
deriving DecidableEq

/-- Where in an event a connection is. -/
structure Phase where
  /-- The streams that have left the table and whose frames are not yet purged, by mode. -/
  inner : Option UInt32 := none
  outer : Option UInt32 := none
  /-- The frame that was taken from the scheduler, or that was written, and whose effect on its
  stream is still to come. -/
  writing : Option FrameWriteRequest := none
  /-- A stream has come to the table and its handler is not yet started. -/
  opened : Option UInt32 := none
  /-- The data of a stream is being processed. -/
  receiving : Option UInt32 := none

namespace Phase

/-- The stream that is being closed in a mode. -/
def closing (g : Phase) : Mode → Option UInt32
  | .inside => g.inner
  | .outside => g.outer

/-- Set the stream that is being closed in a mode. -/
def close (g : Phase) (id : Option UInt32) : Mode → Phase
  | .inside => { g with inner := id }
  | .outside => { g with outer := id }

/-- No frame is being written. -/
def idle (g : Phase) : Phase := { g with writing := none }

/-- No stream is being closed in the loop, and none is being opened. -/
def Quiet (g : Phase) : Prop := g.inner = none ∧ g.opened = none

/-- Frames may be scheduled.  In the loop nothing is scheduled. -/
def Free (g : Phase) (mode : Mode) : Prop := mode = .outside → g.writing = none ∧ g.Quiet

theorem free_inside (g : Phase) : g.Free .inside := nofun

theorem idle_of_writing {g : Phase} (h : g.writing = none) : g.idle = g := by
  cases g
  cases h
  rfl

theorem idle_set {g : Phase} (h : g.writing = none) (wr : Option FrameWriteRequest) :
    ({ g with writing := wr } : Phase).idle = g := by
  cases g
  cases h
  rfl

theorem close_none {g : Phase} {mode : Mode} (h : g.closing mode = none) (id : Option UInt32) :
    (g.close id mode).close none mode = g := by
  cases g
  cases mode <;> cases h <;> rfl

@[simp] theorem closing_close (g : Phase) (id : Option UInt32) (mode : Mode) :
    (g.close id mode).closing mode = id := by
  cases mode <;> rfl

end Phase

/-- The calls of `scheduleFrameWrite` in a mode. -/
def Mode.schedule {W : WriteScheduler} (env : ServerEnv) : Mode → ServerConn W →
    Except Fault (ServerConn W)
  | .inside => pure
  | .outside => ServerConn.scheduleFrameWrite env

/-- The stream gets this state and this body, and keeps its window. -/
def ServerStream.Becomes (st : ServerStream) (state : StreamState)
    (body : Option (Pipe BodyError Unit)) (st' : ServerStream) : Prop :=
  st'.state = state ∧ st'.body = body ∧ st'.inflow = st.inflow

namespace ServerConn

variable {W : WriteScheduler}

/-! ## The list -/

/-- The frames that come to the scheduler. -/
inductive Origin (e : ServerEvent) (sc : ServerConn W) : FrameWriteRequest → Prop
  | handler (id : UInt32) (f : HandlerFrame) (he : e = .wantWriteFrame id f)
      (hid : id ∈ sc.history.created) : Origin e sc (f.request id)
  | push (parent : UInt32) (value : Nat) (he : e = .startPush parent value)
      (hid : parent ∈ sc.history.created) :
      Origin e sc { write := FrameKind.writePushPromise.framer value, stream := some parent }
  | reset (id : UInt32) (code : ErrCode) : Origin e sc { write := .streamError id code }
  | update (w : InboundWindow) (n : Nat) (hid : ∀ id, w = .stream id → id ∈ sc.history.created) :
      Origin e sc { write := FrameKind.writeWindowUpdate.framer n, stream := w.stream? }
  | settings : Origin e sc { write := FrameKind.writeSettings.framer }
  | ping (value : Nat) : Origin e sc { write := FrameKind.writePingAck.framer value }

/-- `writeFrame` does not ignore a frame because its stream is closed. -/
def Accepts (sc : ServerConn W) (wr : FrameWriteRequest) : Prop :=
  wr.isReset = true ∨ wr.streamID = 0 ∨ sc.state wr.streamID ≠ .stateClosed

/-- Why a stream is closed. -/
inductive Closes (g : Phase) (sc : ServerConn W) (id : UInt32) : Prop
  /-- The peer resets it, or the connection ends. -/
  | received (hmem : id ∈ sc.streams) (hidle : g.writing = none) (hreceiving : g.receiving = none)
  /-- RST_STREAM was written. -/
  | reset (wr : FrameWriteRequest) (code : ErrCode) (hw : g.writing = some wr)
      (hwr : wr.write = .streamError id code) (hmem : id ∈ sc.streams)
      (hflight : sc.inFlight = none)
  /-- The response was written, and the request has ended. -/
  | ended (wr : FrameWriteRequest) (hw : g.writing = some wr) (hends : wr.endsStream = true)
      (hid : wr.stream = some id) (hstate : (sc.stream id).state = .stateHalfClosedRemote)
      (hflight : sc.inFlight = none)
  /-- RST_STREAM was written after a panic of the handler. -/
  | panicked (wr : FrameWriteRequest) (hw : g.writing = some wr)
      (hkind : wr.write.kind = some .handlerPanicRST) (hid : wr.stream = some id)
      (hflight : sc.inFlight = none)

/-- When a stream is closed outside of the loop. -/
inductive Outer (sc₀ : ServerConn W) (e : ServerEvent) (g : Phase) (sc : ServerConn W)
    (id : UInt32) : Prop
  | stopping (hserving : sc.serving = false)
  | reset (h : FrameHeader) (code : ErrCode) (he : e = .readFrame (.ok (.rstStream h code)))
      (hid : h.streamID = id) (hsched : sc.writeSched = sc₀.writeSched)
  | wrote (he : e = .wroteFrame) (hw : g.writing = sc₀.inFlight)
      (hsched : sc.writeSched = sc₀.writeSched)

/-- The code of `CloseWithError` changes nothing but the error of a pipe. -/
def Kept (p p' : Pipe BodyError Unit) : Prop :=
  p'.b = p.b ∧ p'.unread = p.unread ∧ p'.breakErr = p.breakErr

/-- The small steps of the event `e` that began in `sc₀`. -/
inductive Step (env : ServerEnv) (sc₀ : ServerConn W) (e : ServerEvent) :
    Phase × ServerConn W → Phase × ServerConn W → Prop
  | flags (g : Phase) (sc : ServerConn W)
      (pushEnabled sawFirstSettings needToSendSettingsAck needsFrameFlush : Bool)
      (inFrameScheduleLoop shutdownTimer : Bool) (unackedSettings : Int)
      (clientMaxStreams : UInt32) (writes ranges : Nat) :
      Step env sc₀ e (g, sc) (g, { sc with
        pushEnabled := pushEnabled, sawFirstSettings := sawFirstSettings
        needToSendSettingsAck := needToSendSettingsAck, needsFrameFlush := needsFrameFlush
        inFrameScheduleLoop := inFrameScheduleLoop, shutdownTimer := shutdownTimer
        unackedSettings := unackedSettings, clientMaxStreams := clientMaxStreams
        writes := writes, ranges := ranges })
  | stop (g : Phase) (sc : ServerConn W) :
      Step env sc₀ e (g, sc) (g, { sc with serving := false })
  | goAway (g : Phase) (sc : ServerConn W) (code : ErrCode) (h : sc.inGoAway = false) :
      Step env sc₀ e (g, sc)
        (g, { sc with inGoAway := true, needToSendGoAway := true, goAwayCode := code })
  | announce (g : Phase) (sc : ServerConn W) (hneed : sc.needToSendGoAway = true)
      (hidle : g.writing = none) (hasync : sc.writingFrameAsync = false) :
      Step env sc₀ e (g, sc)
        ({ g with
            writing := some { write := FrameKind.writeGoAway.framer sc.maxClientStreamID.toNat } },
          sc.announce)
  | control (g : Phase) (sc : ServerConn W) (k : FrameKind) (hidle : g.writing = none)
      (hasync : sc.writingFrameAsync = false)
      (hk : k = .writeSettingsAck ∨ k = .flushFrameWriter) :
      Step env sc₀ e (g, sc) ({ g with writing := some { write := k.framer } }, sc)
  | pop (g : Phase) (sc : ServerConn W) (r : Option FrameWriteRequest × Flows × W.State)
      (hidle : g.writing = none) (hinner : g.inner = none)
      (hasync : sc.writingFrameAsync = false) (hpop : W.pop sc.writeSched sc.flows = .ok r) :
      Step env sc₀ e (g, sc) ({ g with writing := r.1 }, sc.popped r)
  | promise (g : Phase) (sc : ServerConn W) (wr : FrameWriteRequest) (hw : g.writing = some wr)
      (hkind : wr.write.kind = some .writePushPromise)
      (hmax : ¬ sc.curPushedStreams + 1 > sc.clientMaxStreams)
      (hid : ¬ sc.maxPushPromiseID + 2 ≥ 0x80000000) (hne : sc.maxPushPromiseID + 2 ≠ 0) :
      Step env sc₀ e (g, sc) ({ g with opened := some (sc.maxPushPromiseID + 2) },
        addStream env (sc.promise (sc.maxPushPromiseID + 2)) (sc.maxPushPromiseID + 2)
          .stateHalfClosedRemote)
  | request (g : Phase) (h : FrameHeader) (priority : PriorityParam)
      (fields : List Hpack.HeaderField) (truncated : Bool) (state : StreamState)
      (he : e = .readFrame (.ok (.metaHeaders h priority fields truncated)))
      (hgoAway : sc₀.inGoAway = false) (hodd : h.streamID % 2 = 1) (hnew : h.streamID ∉ sc₀.streams)
      (hmax : ¬ h.streamID ≤ sc₀.maxClientStreamID)
      (hroom : ¬ sc₀.curClientStreams + 1 > env.advMaxStreams)
      (hidle : g.writing = none)
      (hstate : state = .stateHalfClosedRemote ∨ state = .stateOpen) :
      Step env sc₀ e (g, sc₀) ({ g with opened := some h.streamID },
        addStream env { sc₀ with maxClientStreamID := h.streamID } h.streamID state)
  | refuse (g : Phase) (sc : ServerConn W) (id : UInt32) (hgoAway : sc.inGoAway = false)
      (hmax : ¬ id ≤ sc.maxClientStreamID) :
      Step env sc₀ e (g, sc) (g, { sc with maxClientStreamID := id })
  | openStream (g : Phase) (sc : ServerConn W) (id pusherID : UInt32) (ws : W.State)
      (hopened : g.opened = some id) (hid : id ≠ 0)
      (hcall : W.openStream sc.writeSched id pusherID = .ok ws) :
      Step env sc₀ e (g, sc) (g, sc.called (.openStream id pusherID) ws)
  | adjustStream (g : Phase) (sc : ServerConn W) (id : UInt32) (priority : PriorityParam)
      (ws : W.State) (hcall : W.adjustStream sc.writeSched id priority = .ok ws) :
      Step env sc₀ e (g, sc) (g, sc.called (.adjustStream id priority) ws)
  | runPushed (g : Phase) (sc : ServerConn W) (id : UInt32) (hopened : g.opened = some id)
      (hwriting : g.writing ≠ none) :
      Step env sc₀ e (g, sc) ({ g with opened := none }, sc.runHandler id .serveHTTP)
  | runRequest (g : Phase) (sc : ServerConn W) (id : UInt32) (req : ServerRequest)
      (truncated : Bool) (hopened : g.opened = some id) (hidle : g.writing = none) :
      Step env sc₀ e (g, sc) ({ g with opened := none }, sc.startRequest id req truncated)
  | abandon (g : Phase) (sc : ServerConn W) (id : UInt32) (hopened : g.opened = some id)
      (hidle : g.writing = none) :
      Step env sc₀ e (g, sc) ({ g with opened := none }, sc)
  | begins (g : Phase) (sc : ServerConn W) (wr : FrameWriteRequest) (writes : Nat)
      (hw : g.writing = some wr)
      (hok : wr.write.kind ≠ some .writePushPromise → sc.checkStream wr = .ok ()) :
      Step env sc₀ e (g, sc) (g, { sc with
        writingFrame := false, writingFrameAsync := false, inFlight := none
        needsFrameFlush := true, writes := writes })
  | beginsAsync (g : Phase) (sc : ServerConn W) (wr : FrameWriteRequest) (writes : Nat)
      (hw : g.writing = some wr)
      (hok : wr.write.kind ≠ some .writePushPromise → sc.checkStream wr = .ok ()) :
      Step env sc₀ e (g, sc) (g.idle, { sc with
        writingFrame := true, writingFrameAsync := true, inFlight := some wr
        needsFrameFlush := true, writes := writes })
  | cancel (g : Phase) (sc : ServerConn W) (wr : FrameWriteRequest) (hw : g.writing = some wr)
      (hkind : wr.write.kind = some .writePushPromise) :
      Step env sc₀ e (g, sc) (g.idle, { sc with writingFrameAsync := false })
  | wrote (g : Phase) (wr : FrameWriteRequest) (he : e = .wroteFrame)
      (hflight : sc₀.inFlight = some wr) (hwriting : sc₀.writingFrame = true)
      (hidle : g.writing = none) :
      Step env sc₀ e (g, sc₀) ({ g with writing := some wr },
        { sc₀ with writingFrame := false, writingFrameAsync := false, inFlight := none })
  | done (g : Phase) (sc : ServerConn W) (wr : FrameWriteRequest) (hw : g.writing = some wr) :
      Step env sc₀ e (g, sc) (g.idle, sc)
  | halfClose (g : Phase) (sc : ServerConn W) (wr : FrameWriteRequest) (id : UInt32)
      (hw : g.writing = some wr) (hends : wr.endsStream = true) (hid : wr.stream = some id)
      (hopen : (sc.stream id).state = .stateOpen) :
      Step env sc₀ e (g, sc)
        (g.idle, sc.update id fun st => { st with state := .stateHalfClosedLocal })
  | forget (g : Phase) (sc : ServerConn W) (mode : Mode) (id : UInt32)
      (hidle : (sc.stream id).state ≠ .stateIdle) (hclosed : (sc.stream id).state ≠ .stateClosed)
      (hcloses : Closes g sc id) (hfree : g.closing mode = none)
      (hout : mode = .outside → g.Quiet ∧ Outer sc₀ e g sc id) :
      Step env sc₀ e (g, sc) (g.idle.close (some id) mode, sc.forget id)
  | purge (g : Phase) (sc : ServerConn W) (mode : Mode) (id : UInt32) (ws : W.State)
      (hclosing : g.closing mode = some id)
      (hcall : W.closeStream sc.writeSched id = .ok ws) :
      Step env sc₀ e (g, sc) (g.close none mode, sc.called (.closeStream id) ws)
  | push (g : Phase) (sc : ServerConn W) (wr : FrameWriteRequest) (ws : W.State)
      (horigin : Origin e sc wr) (haccepts : sc.Accepts wr)
      (hpush : W.push sc.writeSched wr = .ok ws) :
      Step env sc₀ e (g, sc) (g, sc.pushed wr ws)
  | touch (g : Phase) (sc : ServerConn W) (id : UInt32) (f : ServerStream → ServerStream)
      (hf : (sc.stream id).Becomes (sc.stream id).state (sc.stream id).body (f (sc.stream id))) :
      Step env sc₀ e (g, sc) (g, sc.update id f)
  | endBody (g : Phase) (sc : ServerConn W) (id : UInt32) (f : ServerStream → ServerStream)
      (p p' : Pipe BodyError Unit) (hbody : (sc.stream id).body = some p) (hkept : Kept p p')
      (hf : (sc.stream id).Becomes (sc.stream id).state (some p') (f (sc.stream id))) :
      Step env sc₀ e (g, sc) (g, sc.update id f)
  | endRemote (g : Phase) (sc : ServerConn W) (id : UInt32) (f : ServerStream → ServerStream)
      (p p' : Pipe BodyError Unit) (hbody : (sc.stream id).body = some p) (hkept : Kept p p')
      (hmem : id ∈ sc.streams ∨ g.receiving = some id)
      (hf : (sc.stream id).Becomes .stateHalfClosedRemote (some p') (f (sc.stream id))) :
      Step env sc₀ e (g, sc) (g, sc.update id f)
  | receive (g : Phase) (sc : ServerConn W) (h : FrameHeader) :
      Step env sc₀ e (g, sc) (g, sc.noteReceived h)
  | accept (g : Phase) (sc : ServerConn W) (id : UInt32) (hmem : id ∈ sc.streams) :
      Step env sc₀ e (g, sc) ({ g with receiving := some id }, sc)
  | accepted (g : Phase) (sc : ServerConn W) :
      Step env sc₀ e (g, sc) ({ g with receiving := none }, sc)
  | takeConn (g : Phase) (sc : ServerConn W) (h : FrameHeader)
      (hle : h.length.toInt32 ≤ sc.inflow) :
      Step env sc₀ e (g, sc) (g, sc.noteTaken h (sc.inflow - h.length.toInt32))
  | takeBoth (g : Phase) (sc : ServerConn W) (h : FrameHeader)
      (hle : h.length.toInt32 ≤ Flow.available (sc.stream h.streamID).inflow sc.inflow) :
      Step env sc₀ e (g, sc)
        (g, (sc.noteTaken h (sc.inflow - h.length.toInt32)).update h.streamID fun st =>
          { st with inflow := (sc.stream h.streamID).inflow - h.length.toInt32 })
  | writeBody (g : Phase) (sc : ServerConn W) (id : UInt32) (f : ServerStream → ServerStream)
      (p p' : Pipe BodyError Unit) (data : Bytes) (hbody : (sc.stream id).body = some p)
      (hwrite : p.write data = (none, p'))
      (hf : (sc.stream id).Becomes (sc.stream id).state (some p') (f (sc.stream id))) :
      Step env sc₀ e (g, sc) (g, sc.update id f)
  | refillConn (g : Phase) (sc : ServerConn W) (source : UInt32) (n : Int32) (hn : 0 < n)
      (hadd : (Flow.add sc.inflow n).2 = true) :
      Step env sc₀ e (g, sc) (g, sc.refill source n)
  | refillStream (g : Phase) (sc : ServerConn W) (id : UInt32) (n : Int32) (hn : 0 < n)
      (hadd : (Flow.add (sc.stream id).inflow n).2 = true) :
      Step env sc₀ e (g, sc)
        (g, sc.update id fun st => { st with inflow := (Flow.add st.inflow n).1 })
  | creditConn (g : Phase) (sc : ServerConn W) (n : Int32)
      (hadd : (Flow.add sc.flows.conn n).2 = true) :
      Step env sc₀ e (g, sc) (g, sc.creditConn n n.toInt)
  | creditStream (g : Phase) (sc : ServerConn W) (id : UInt32) (n : Int32) (hid : id ≠ 0)
      (hmem : id ∈ sc.streams) (hadd : (Flow.add (sc.flows.stream id) n).2 = true) :
      Step env sc₀ e (g, sc) (g, sc.creditStream id n n.toInt)
  | resize (g : Phase) (sc : ServerConn W) (v : Int32) (hv : 0 ≤ v) (ranges : Nat) :
      Step env sc₀ e (g, sc) (g, { sc with initialStreamSendWindowSize := v, ranges := ranges })
  | frameSize (g : Phase) (sc : ServerConn W) (v : Int32) :
      Step env sc₀ e (g, sc) (g, { sc with flows := { sc.flows with maxFrameSize := v } })
  | heard (g : Phase) (i : Nat) (he : e = .bodyRead i) :
      Step env sc₀ e (g, sc₀) (g, { sc₀ with bodyReads := sc₀.bodyReads.eraseIdx i })
  | read (g : Phase) (id : UInt32) (n : Nat) (p p' : Pipe BodyError Unit)
      (r : Pipe.ReadResult BodyError Unit) (he : e = .handlerRead id n)
      (hid : id ∈ sc₀.history.created)
      (hbody : (sc₀.stream id).body = some p) (hread : p.read n = some (r, p')) :
      Step env sc₀ e (g, sc₀) (g, sc₀.readBody id r p')
  | breaks (g : Phase) (id : UInt32) (he : e = .handlerClose id) :
      Step env sc₀ e (g, sc₀) (g, sc₀.handlerClose id)
  | returns (g : Phase) (id : UInt32) (he : e = .handlerReturn id) (hmem : id ∈ sc₀.handlers) :
      Step env sc₀ e (g, sc₀) (g, sc₀.handlerReturn id)

/-- Where the server does not return. -/
inductive Fails (sc₀ : ServerConn W) (e : ServerEvent) : Phase × ServerConn W → Fault → Prop
  | diverges (x : Phase × ServerConn W) : Fails sc₀ e x .diverges
  | push (g : Phase) (sc : ServerConn W) (wr : FrameWriteRequest) (err : Fault)
      (horigin : Origin e sc wr) (haccepts : sc.Accepts wr)
      (hpush : W.push sc.writeSched wr = .error err) : Fails sc₀ e (g, sc) err
  | pop (g : Phase) (sc : ServerConn W) (err : Fault)
      (hpop : W.pop sc.writeSched sc.flows = .error err) : Fails sc₀ e (g, sc) err
  | openStream (g : Phase) (sc : ServerConn W) (id pusherID : UInt32) (err : Fault)
      (hid : id ≠ 0) (hcall : W.openStream sc.writeSched id pusherID = .error err) :
      Fails sc₀ e (g, sc) err
  | adjustStream (g : Phase) (sc : ServerConn W) (id : UInt32) (priority : PriorityParam)
      (err : Fault) (hcall : W.adjustStream sc.writeSched id priority = .error err) :
      Fails sc₀ e (g, sc) err
  | purge (g : Phase) (sc : ServerConn W) (id : UInt32) (err : Fault)
      (hcall : W.closeStream sc.writeSched id = .error err) : Fails sc₀ e (g, sc) err
  | closeStream (g : Phase) (sc : ServerConn W) (id : UInt32)
      (hstate : (sc.stream id).state = .stateIdle ∨ (sc.stream id).state = .stateClosed)
      (hcloses : Closes g sc id) :
      Fails sc₀ e (g, sc)
        (.panic ("invariant; can't close stream in state " ++ (sc.stream id).state.name))
  | halfClosed (g : Phase) (sc : ServerConn W) (wr : FrameWriteRequest) (id : UInt32)
      (hw : g.writing = some wr) (hid : wr.stream = some id)
      (hstate : (sc.stream id).state = .stateHalfClosedLocal)
      (hnot : wr.allowedHalfClosed = false) :
      Fails sc₀ e (g, sc)
        (.panic "internal error: attempt to send frame on a half-closed-local stream")
  | closed (g : Phase) (sc : ServerConn W) (wr : FrameWriteRequest) (id : UInt32)
      (hw : g.writing = some wr) (hid : wr.stream = some id)
      (hstate : (sc.stream id).state = .stateClosed) :
      Fails sc₀ e (g, sc) (.panic "internal error: attempt to send frame on a closed stream")
  | zeroStream (g : Phase) (sc : ServerConn W) (hid : sc.maxPushPromiseID + 2 = 0) :
      Fails sc₀ e (g, sc) (.panic "internal error: cannot create stream with id 0")
  | noStream (g : Phase) (sc : ServerConn W) (wr : FrameWriteRequest) (hw : g.writing = some wr)
      (hends : wr.endsStream = true) (hid : wr.stream = none) :
      Fails sc₀ e (g, sc) (.panic "internal error: expecting non-nil stream")
  | busy (g : Phase) (sc : ServerConn W) (wr : FrameWriteRequest) (hw : g.writing = some wr)
      (hwriting : sc.writingFrame = true) :
      Fails sc₀ e (g, sc) (.panic "internal error: can only be writing one frame at a time")
  | notWriting (g : Phase) (wr : FrameWriteRequest) (hflight : sc₀.inFlight = some wr)
      (hwriting : sc₀.writingFrame = false) :
      Fails sc₀ e (g, sc₀) (.panic "internal error: expected to be already writing a frame")
  | noBody (g : Phase) (sc : ServerConn W) (id : UInt32) (hbody : (sc.stream id).body = none)
      (hmem : id ∈ sc.streams ∨ g.receiving = some id) :
      Fails sc₀ e (g, sc) (.panic "invalid memory address or nil pointer dereference")
  | noPipe (g : Phase) (sc : ServerConn W) (id : UInt32) (hmem : id ∈ sc.streams)
      (hstate : (sc.stream id).state = .stateOpen) (hreset : (sc.stream id).resetQueued = false)
      (hbody : (sc.stream id).body = none) :
      Fails sc₀ e (g, sc) (.panic "internal error: should have a body in this state")
  | tooMany (g : Phase) (sc : ServerConn W) (w : InboundWindow) (n : Int32) (hn : 0 < n)
      (hadd : sc.addInflow w n = none) :
      Fails sc₀ e (g, sc)
        (.panic "internal error; sent too many window updates without decrements?")

/-- A function of the server makes small steps, and ends in the phase in which it began. -/
abbrev Keeps (env : ServerEnv) (sc₀ : ServerConn W) (e : ServerEvent) (g : Phase)
    (sc : ServerConn W) (x : Except Fault (ServerConn W)) : Prop :=
  Stepwise (Step env sc₀ e) (Fails sc₀ e) (g, sc) (fun sc' => (g, sc')) x

/-- A function of the server makes small steps, and with them the frame of the phase has had its
effect. -/
abbrev Writes (env : ServerEnv) (sc₀ : ServerConn W) (e : ServerEvent) (g : Phase)
    (sc : ServerConn W) (x : Except Fault (ServerConn W)) : Prop :=
  Stepwise (Step env sc₀ e) (Fails sc₀ e) (g, sc) (fun sc' => (g.idle, sc')) x

end ServerConn

end Fhttp.Http2
