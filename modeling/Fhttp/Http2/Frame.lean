import Fhttp.Hpack.Basic
import Fhttp.Lib.BigEndian

/-!
# Frames

The model of the frame types of `http2/frame.go`: the frame header, the
frames, one parser for each frame type and one `Write` method for each.

A parser gets the frame header and a payload whose length is the `Length` of
the header.  A `Write` method gives the octets of its single call of
`f.w.Write`; a writer that fails makes the method return its error, so octets
here are octets on the wire.  The field `valid` of a frame header is left out:
it only says that the buffers of a frame were not reused yet.
-/

namespace Fhttp.Http2

open Hpack (Bytes HeaderField)
open Lib

/-! ## Error codes, flags and settings -/

abbrev ErrCode := UInt32

namespace ErrCode

def no : ErrCode := 0x0
def protocol : ErrCode := 0x1
def internal : ErrCode := 0x2
def flowControl : ErrCode := 0x3
def frameSize : ErrCode := 0x6
def cancel : ErrCode := 0x8
def compression : ErrCode := 0x9

end ErrCode

abbrev FrameType := UInt8

namespace FrameType

def data : FrameType := 0x0
def headers : FrameType := 0x1
def priority : FrameType := 0x2
def rstStream : FrameType := 0x3
def settings : FrameType := 0x4
def pushPromise : FrameType := 0x5
def ping : FrameType := 0x6
def goAway : FrameType := 0x7
def windowUpdate : FrameType := 0x8
def continuation : FrameType := 0x9

/-- `frameName`, in the order of the types. -/
def names : List String :=
  ["DATA", "HEADERS", "PRIORITY", "RST_STREAM", "SETTINGS", "PUSH_PROMISE", "PING", "GOAWAY",
    "WINDOW_UPDATE", "CONTINUATION"]

def string (t : FrameType) : String :=
  match names[t.toNat]? with
  | some s => s
  | none => "UNKNOWN_FRAME_TYPE_" ++ toString t.toNat

end FrameType

abbrev Flags := UInt8

/-- Whether all flags of `v` are set. -/
def Flags.has (f v : Flags) : Bool := f &&& v == v

def flagDataEndStream : Flags := 0x1
def flagDataPadded : Flags := 0x8
def flagHeadersEndStream : Flags := 0x1
def flagHeadersEndHeaders : Flags := 0x4
def flagHeadersPadded : Flags := 0x8
def flagHeadersPriority : Flags := 0x20
def flagSettingsAck : Flags := 0x1
def flagPingAck : Flags := 0x1
def flagContinuationEndHeaders : Flags := 0x4
def flagPushPromiseEndHeaders : Flags := 0x4
def flagPushPromisePadded : Flags := 0x8

abbrev SettingID := UInt16

namespace SettingID

def headerTableSize : SettingID := 0x1
def enablePush : SettingID := 0x2
def maxConcurrentStreams : SettingID := 0x3
def initialWindowSize : SettingID := 0x4
def maxFrameSize : SettingID := 0x5
def maxHeaderListSize : SettingID := 0x6
def enableConnectProtocol : SettingID := 0x8

end SettingID

structure Setting where
  id : SettingID
  val : UInt32
deriving DecidableEq, Repr

/-- The priority parameters of a stream. -/
structure PriorityParam where
  streamDep : UInt32 := 0
  exclusive : Bool := false
  weight : UInt8 := 0
deriving DecidableEq, Repr

def PriorityParam.isZero (p : PriorityParam) : Bool := p == {}

/-! ## Errors -/

/-- What is wrong with a header list. -/
inductive HeaderError where
  | headerFieldValueError (value : Bytes)
  | headerFieldNameError (name : Bytes)
  | errPseudoAfterRegular
  | pseudoHeaderError (name : Bytes)
  | duplicatePseudoHeaderError (name : Bytes)
  | errMixPseudoHeaderTypes
deriving DecidableEq, Repr

/-- The errors of `ReadFrame`.  A parser gives a `connError` with its reason,
which `ReadFrame` turns into a `connectionError`.  The panic of a type assertion
is one of them. -/
inductive Error where
  | eof
  | unexpectedEOF
  | errFrameTooLarge
  | illegalUseOfAllowIllegalReads
  | typeAssertion
  | connError (code : ErrCode) (reason : String)
  | connectionError (code : ErrCode)
  | streamError (streamID : UInt32) (code : ErrCode) (cause : Option HeaderError)
deriving DecidableEq, Repr

/-- `Setting.Valid`. -/
def Setting.valid (s : Setting) : Except Error Unit :=
  if s.id = SettingID.enablePush then
    if s.val ≠ 1 ∧ s.val ≠ 0 then .error (.connectionError .protocol) else .ok ()
  else if s.id = SettingID.initialWindowSize then
    if s.val > 0x7fffffff then .error (.connectionError .flowControl) else .ok ()
  else if s.id = SettingID.maxFrameSize then
    if s.val < 16384 ∨ s.val > 0xffffff then .error (.connectionError .protocol) else .ok ()
  else if s.id = SettingID.enableConnectProtocol then
    if s.val ≠ 1 ∧ s.val ≠ 0 then .error (.connectionError .protocol) else .ok ()
  else .ok ()

/-! ## Frames -/

/-- The header of all frames. -/
structure FrameHeader where
  type : FrameType
  flags : Flags
  /-- The length of the frame without the header. -/
  length : UInt32
  streamID : UInt32
deriving DecidableEq, Repr

/-- A frame.  The two meta frames are not on the wire: they stand for a
`HEADERS` or `PUSH_PROMISE` frame with all its `CONTINUATION` frames. -/
inductive Frame where
  | data (h : FrameHeader) (data : Bytes)
  | headers (h : FrameHeader) (priority : PriorityParam) (headerFragBuf : Bytes)
  | priority (h : FrameHeader) (priority : PriorityParam)
  | rstStream (h : FrameHeader) (errCode : ErrCode)
  | settings (h : FrameHeader) (p : Bytes)
  | pushPromise (h : FrameHeader) (promiseID : UInt32) (headerFragBuf : Bytes)
  | ping (h : FrameHeader) (data : Vector UInt8 8)
  | goAway (h : FrameHeader) (lastStreamID : UInt32) (errCode : ErrCode) (debugData : Bytes)
  | windowUpdate (h : FrameHeader) (increment : UInt32)
  | continuation (h : FrameHeader) (headerFragBuf : Bytes)
  | unknown (h : FrameHeader) (p : Bytes)
  | metaHeaders (h : FrameHeader) (priority : PriorityParam) (fields : List HeaderField)
      (truncated : Bool)
  | metaPushPromise (h : FrameHeader) (promiseID : UInt32) (fields : List HeaderField)
      (truncated : Bool)
deriving DecidableEq

def Frame.header : Frame → FrameHeader
  | data h _ => h
  | headers h _ _ => h
  | priority h _ => h
  | rstStream h _ => h
  | settings h _ => h
  | pushPromise h _ _ => h
  | ping h _ => h
  | goAway h _ _ _ => h
  | windowUpdate h _ => h
  | continuation h _ => h
  | unknown h _ => h
  | metaHeaders h _ _ _ => h
  | metaPushPromise h _ _ _ => h

/-! ## Parsers -/

/-- `binary.BigEndian.Uint16` of the first two octets. -/
def uint16 (p : Bytes) : UInt16 := UInt16.ofNat (BigEndian.ofBytes (p.take 2))

/-- `binary.BigEndian.Uint32` of the first four octets. -/
def uint32 (p : Bytes) : UInt32 := UInt32.ofNat (BigEndian.ofBytes (p.take 4))

def frameHeaderLen : Nat := 9

/-- The frame header in the nine octets of `headerBuf`. -/
def decodeFrameHeader (buf : Bytes) : FrameHeader where
  length := UInt32.ofNat (BigEndian.ofBytes (buf.take 3))
  type := buf.getD 3 0
  flags := buf.getD 4 0
  streamID := uint32 (buf.drop 5) &&& 0x7fffffff

/-- The length of a frame has 24 bits. -/
theorem length_decodeFrameHeader_lt (buf : Bytes) :
    (decodeFrameHeader buf).length.toNat < 2 ^ 24 := by
  have hlt := BigEndian.ofBytes_lt (buf.take 3)
  have hpow : 256 ^ (buf.take 3).length ≤ 256 ^ 3 :=
    Nat.pow_le_pow_right (by decide) (List.length_take_le ..)
  have hmod : (decodeFrameHeader buf).length.toNat = BigEndian.ofBytes (buf.take 3) % 2 ^ 32 :=
    UInt32.toNat_ofNat'
  omega

section

variable {ε α β : Type}

/-- A check of a parser that was passed. -/
theorem ok_of_ite {c : Prop} [Decidable c] {e : ε} {x : Except ε α} {a : α}
    (h : (if c then .error e else x) = .ok a) : ¬ c ∧ x = .ok a := by
  split at h
  · cases h
  · exact ⟨‹_›, h⟩

theorem ok_of_bind {x : Except ε α} {k : α → Except ε β} {b : β} (h : (x >>= k) = .ok b) :
    ∃ a, x = .ok a ∧ k a = .ok b := by
  cases x with
  | error e => cases h
  | ok a => exact ⟨a, rfl, h⟩

end

def readByte : Bytes → Except Error (Bytes × UInt8)
  | [] => .error .unexpectedEOF
  | b :: p => .ok (p, b)

def readUint32 (p : Bytes) : Except Error (Bytes × UInt32) :=
  if p.length < 4 then .error .unexpectedEOF else .ok (p.drop 4, uint32 p)

/-- The pad length, which is there when the frame is padded. -/
def readPadLength (padded : Bool) (p : Bytes) : Except Error (Bytes × UInt8) :=
  if padded then readByte p else .ok (p, 0)

/-- What is left of a payload without its padding. -/
def unpad (p : Bytes) (padLength : UInt8) : Bytes := p.take (p.length - padLength.toNat)

def parseDataFrame (fh : FrameHeader) (payload : Bytes) : Except Error Frame :=
  if fh.streamID = 0 then .error (.connError .protocol "DATA frame with stream ID 0")
  else do
    let (payload, padSize) ← readPadLength (fh.flags.has flagDataPadded) payload
    if padSize.toNat > payload.length then
      .error (.connError .protocol "pad size larger than data payload")
    else .ok (.data fh (unpad payload padSize))

/-- The priority parameters in a payload: the exclusive bit is the high bit of
the stream. -/
def priorityOf (v : UInt32) (weight : UInt8) : PriorityParam where
  streamDep := v &&& 0x7fffffff
  exclusive := v != v &&& 0x7fffffff
  weight := weight

/-- The priority parameters of a `HEADERS` frame, when it has them. -/
def readPriority (has : Bool) (p : Bytes) : Except Error (Bytes × PriorityParam) :=
  if has then do
    let (p, v) ← readUint32 p
    let (p, weight) ← readByte p
    .ok (p, priorityOf v weight)
  else .ok (p, {})

def parseHeadersFrame (fh : FrameHeader) (p : Bytes) : Except Error Frame :=
  if fh.streamID = 0 then .error (.connError .protocol "HEADERS frame with stream ID 0")
  else do
    let (p, padLength) ← readPadLength (fh.flags.has flagHeadersPadded) p
    let (p, priority) ← readPriority (fh.flags.has flagHeadersPriority) p
    if p.length ≤ padLength.toNat then .error (.streamError fh.streamID .protocol none)
    else .ok (.headers fh priority (unpad p padLength))

def parsePriorityFrame (fh : FrameHeader) (payload : Bytes) : Except Error Frame :=
  if fh.streamID = 0 then .error (.connError .protocol "PRIORITY frame with stream ID 0")
  else if payload.length ≠ 5 then
    .error (.connError .frameSize
      ("PRIORITY frame payload size was " ++ toString payload.length ++ "; want 5"))
  else .ok (.priority fh (priorityOf (uint32 payload) (payload.getD 4 0)))

def parseRSTStreamFrame (fh : FrameHeader) (p : Bytes) : Except Error Frame :=
  if p.length ≠ 4 then .error (.connectionError .frameSize)
  else if fh.streamID = 0 then .error (.connectionError .protocol)
  else .ok (.rstStream fh (uint32 p))

/-- `SettingsFrame.Setting`. -/
def settingAt (p : Bytes) (i : Nat) : Setting where
  id := uint16 (p.drop (i * 6))
  val := uint32 (p.drop (i * 6 + 2))

/-- The settings of a frame, in the order of `ForeachSetting`. -/
def settingsOf (p : Bytes) : List Setting := (List.range (p.length / 6)).map (settingAt p)

/-- `SettingsFrame.Value`. -/
def settingValue (p : Bytes) (id : SettingID) : Option UInt32 :=
  ((settingsOf p).find? fun s => s.id == id).map Setting.val

def parseSettingsFrame (fh : FrameHeader) (p : Bytes) : Except Error Frame :=
  if fh.flags.has flagSettingsAck ∧ fh.length > 0 then .error (.connectionError .frameSize)
  else if fh.streamID ≠ 0 then .error (.connectionError .protocol)
  else if p.length % 6 ≠ 0 then .error (.connectionError .frameSize)
  else if (settingValue p SettingID.initialWindowSize).any (· > 0x7fffffff) then
    .error (.connectionError .flowControl)
  else .ok (.settings fh p)

def parsePushPromise (fh : FrameHeader) (p : Bytes) : Except Error Frame :=
  if fh.streamID = 0 then .error (.connError .protocol "PUSH_PROMISE frame with stream ID 0")
  else do
    let (p, padLength) ← readPadLength (fh.flags.has flagPushPromisePadded) p
    let (p, promiseID) ← readUint32 p
    if padLength.toNat > p.length then .error (.connectionError .protocol)
    else .ok (.pushPromise fh (promiseID &&& 0x7fffffff) (unpad p padLength))

def parsePingFrame (fh : FrameHeader) (payload : Bytes) : Except Error Frame :=
  if h : payload.length = 8 then
    if fh.streamID ≠ 0 then .error (.connectionError .protocol)
    else .ok (.ping fh ⟨payload.toArray, h⟩)
  else .error (.connectionError .frameSize)

def parseGoAwayFrame (fh : FrameHeader) (p : Bytes) : Except Error Frame :=
  if fh.streamID ≠ 0 then .error (.connectionError .protocol)
  else if p.length < 8 then .error (.connectionError .frameSize)
  else .ok (.goAway fh (uint32 p &&& 0x7fffffff) (uint32 (p.drop 4)) (p.drop 8))

def parseWindowUpdateFrame (fh : FrameHeader) (p : Bytes) : Except Error Frame :=
  if p.length ≠ 4 then .error (.connectionError .frameSize)
  else
    let inc := uint32 p &&& 0x7fffffff
    if inc = 0 then
      if fh.streamID = 0 then .error (.connectionError .protocol)
      else .error (.streamError fh.streamID .protocol none)
    else .ok (.windowUpdate fh inc)

def parseContinuationFrame (fh : FrameHeader) (p : Bytes) : Except Error Frame :=
  if fh.streamID = 0 then .error (.connError .protocol "CONTINUATION frame with stream ID 0")
  else .ok (.continuation fh p)

def parseUnknownFrame (fh : FrameHeader) (p : Bytes) : Except Error Frame := .ok (.unknown fh p)

/-- The parser for a frame type, from the map `frameParsers`. -/
def typeFrameParser (t : FrameType) : FrameHeader → Bytes → Except Error Frame :=
  if t = FrameType.data then parseDataFrame
  else if t = FrameType.headers then parseHeadersFrame
  else if t = FrameType.priority then parsePriorityFrame
  else if t = FrameType.rstStream then parseRSTStreamFrame
  else if t = FrameType.settings then parseSettingsFrame
  else if t = FrameType.pushPromise then parsePushPromise
  else if t = FrameType.ping then parsePingFrame
  else if t = FrameType.goAway then parseGoAwayFrame
  else if t = FrameType.windowUpdate then parseWindowUpdateFrame
  else if t = FrameType.continuation then parseContinuationFrame
  else parseUnknownFrame

/-! ## Write methods

The first argument is the field `AllowIllegalWrites` of the framer. -/

/-- The errors of the `Write` methods. -/
inductive WriteError where
  | errStreamID
  | errDepStreamID
  | errPadLength
  | errPadBytes
  | errFrameTooLarge
  | illegalWindowIncrementValue
deriving DecidableEq, Repr

def validStreamIDOrZero (streamID : UInt32) : Bool := streamID &&& 0x80000000 == 0

def validStreamID (streamID : UInt32) : Bool := streamID != 0 && streamID &&& 0x80000000 == 0

def writeUint16 (v : UInt16) : Bytes := [(v >>> 8).toUInt8, v.toUInt8]

def writeUint32 (v : UInt32) : Bytes :=
  [(v >>> 24).toUInt8, (v >>> 16).toUInt8, (v >>> 8).toUInt8, v.toUInt8]

/-- The frame header, with a length that `endWrite` fills in. -/
def startWrite (ftype : FrameType) (flags : Flags) (streamID : UInt32) : Bytes :=
  [0, 0, 0, ftype, flags] ++ writeUint32 streamID

/-- Fill in the length of the frame and write it. -/
def endWrite (wbuf : Bytes) : Except WriteError Bytes :=
  let length := wbuf.length - frameHeaderLen
  if length ≥ 2 ^ 24 then .error .errFrameTooLarge
  else
    .ok ([UInt8.ofNat (length >>> 16), UInt8.ofNat (length >>> 8), UInt8.ofNat length] ++
      wbuf.drop 3)

/-- `if c { flags |= f }`. -/
def Flags.setIf (flags : Flags) (c : Bool) (f : Flags) : Flags := if c then flags ||| f else flags

def dataFlags (endStream padded : Bool) : Flags :=
  (Flags.setIf 0 endStream flagDataEndStream).setIf padded flagDataPadded

/-- `WriteDataPadded`, and `WriteData` when there is no padding.  A padding that
is empty but not nil sets the flag. -/
def writeDataPadded (allow : Bool) (streamID : UInt32) (endStream : Bool) (data : Bytes)
    (pad : Option Bytes) : Except WriteError Bytes :=
  if !validStreamID streamID && !allow then .error .errStreamID
  else if (pad.getD []).length > 255 then .error .errPadLength
  else if !allow && (pad.getD []).any (· != 0) then .error .errPadBytes
  else
    endWrite (startWrite .data (dataFlags endStream pad.isSome) streamID ++
      ((pad.map fun pad => UInt8.ofNat pad.length).toList ++ data ++ pad.getD []))

/-- The octets of a list of settings. -/
def settingsBytes (settings : List Setting) : Bytes :=
  settings.flatMap fun s => writeUint16 s.id ++ writeUint32 s.val

def writeSettings (settings : List Setting) : Except WriteError Bytes :=
  endWrite (startWrite .settings 0 0 ++ settingsBytes settings)

def writeSettingsAck : Except WriteError Bytes := endWrite (startWrite .settings flagSettingsAck 0)

def pingFlags (ack : Bool) : Flags := if ack then flagPingAck else 0

def writePing (ack : Bool) (data : Vector UInt8 8) : Except WriteError Bytes :=
  endWrite (startWrite .ping (pingFlags ack) 0 ++ data.toList)

def writeGoAway (maxStreamID : UInt32) (code : ErrCode) (debugData : Bytes) :
    Except WriteError Bytes :=
  endWrite (startWrite .goAway 0 0 ++
    (writeUint32 (maxStreamID &&& 0x7fffffff) ++ writeUint32 code ++ debugData))

def writeWindowUpdate (allow : Bool) (streamID incr : UInt32) : Except WriteError Bytes :=
  if (incr < 1 || incr > 2147483647) && !allow then .error .illegalWindowIncrementValue
  else endWrite (startWrite .windowUpdate 0 streamID ++ writeUint32 incr)

/-- The parameters of a `HEADERS` frame. -/
structure HeadersFrameParam where
  streamID : UInt32
  blockFragment : Bytes
  endStream : Bool := false
  endHeaders : Bool := false
  padLength : UInt8 := 0
  priority : PriorityParam := {}

def headersFlags (padded endStream endHeaders priority : Bool) : Flags :=
  (((Flags.setIf 0 padded flagHeadersPadded).setIf endStream flagHeadersEndStream).setIf
    endHeaders flagHeadersEndHeaders).setIf priority flagHeadersPriority

def HeadersFrameParam.flags (p : HeadersFrameParam) : Flags :=
  headersFlags (p.padLength != 0) p.endStream p.endHeaders (!p.priority.isZero)

/-- The pad length in front of a fragment, when there is padding. -/
def padLengthBytes (padLength : UInt8) : Bytes := if padLength ≠ 0 then [padLength] else []

/-- `padZeros[:padLength]`. -/
def padZeros (padLength : UInt8) : Bytes := List.replicate padLength.toNat 0

/-- The five octets of priority parameters. -/
def writePriorityParam (p : PriorityParam) : Bytes :=
  writeUint32 (if p.exclusive then p.streamDep ||| 0x80000000 else p.streamDep) ++ [p.weight]

def writeHeaders (allow : Bool) (p : HeadersFrameParam) : Except WriteError Bytes :=
  if !validStreamID p.streamID && !allow then .error .errStreamID
  else if !p.priority.isZero && (!validStreamIDOrZero p.priority.streamDep && !allow) then
    .error .errDepStreamID
  else
    endWrite (startWrite .headers p.flags p.streamID ++
      (padLengthBytes p.padLength ++
        (if p.priority.isZero then [] else writePriorityParam p.priority) ++ p.blockFragment ++
        padZeros p.padLength))

/-- `WritePriority`.  The dependency is checked even when illegal writes are
allowed. -/
def writePriority (allow : Bool) (streamID : UInt32) (p : PriorityParam) :
    Except WriteError Bytes :=
  if !validStreamID streamID && !allow then .error .errStreamID
  else if !validStreamIDOrZero p.streamDep then .error .errDepStreamID
  else endWrite (startWrite .priority 0 streamID ++ writePriorityParam p)

def writeRSTStream (allow : Bool) (streamID : UInt32) (code : ErrCode) :
    Except WriteError Bytes :=
  if !validStreamID streamID && !allow then .error .errStreamID
  else endWrite (startWrite .rstStream 0 streamID ++ writeUint32 code)

def continuationFlags (endHeaders : Bool) : Flags :=
  Flags.setIf 0 endHeaders flagContinuationEndHeaders

def writeContinuation (allow : Bool) (streamID : UInt32) (endHeaders : Bool)
    (headerBlockFragment : Bytes) : Except WriteError Bytes :=
  if !validStreamID streamID && !allow then .error .errStreamID
  else
    endWrite (startWrite .continuation (continuationFlags endHeaders) streamID ++
      headerBlockFragment)

/-- The parameters of a `PUSH_PROMISE` frame. -/
structure PushPromiseParam where
  streamID : UInt32
  promiseID : UInt32
  blockFragment : Bytes
  endHeaders : Bool := false
  padLength : UInt8 := 0

def pushPromiseFlags (padded endHeaders : Bool) : Flags :=
  (Flags.setIf 0 padded flagPushPromisePadded).setIf endHeaders flagPushPromiseEndHeaders

def PushPromiseParam.flags (p : PushPromiseParam) : Flags :=
  pushPromiseFlags (p.padLength != 0) p.endHeaders

def writePushPromise (allow : Bool) (p : PushPromiseParam) : Except WriteError Bytes :=
  if !validStreamID p.streamID && !allow then .error .errStreamID
  else if !validStreamID p.promiseID && !allow then .error .errStreamID
  else
    endWrite (startWrite .pushPromise p.flags p.streamID ++
      (padLengthBytes p.padLength ++ writeUint32 p.promiseID ++ p.blockFragment ++
        padZeros p.padLength))

end Fhttp.Http2
