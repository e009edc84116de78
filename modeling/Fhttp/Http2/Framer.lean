import Fhttp.Hpack.Decoder
import Fhttp.Http2.Frame

/-!
# The framer

The reading side of `Framer` in `http2/frame.go`: `ReadFrame`, the check of the
frame order, and the merging of header frames into meta frames.

The reader is the list of octets that have not been read, after which it is at
its end.  Every function gives its result with the framer afterwards, also when
it fails.  Logging and the reuse of buffers and frames are left out.

The per-octet tables of package `httpguts`, which is not part of the repository,
are a parameter.
-/

namespace Fhttp.Http2

open Hpack (Bytes HeaderField Decoder EmitFunc ascii)

/-- The tables of `httpguts`.  Names and values are checked octet by octet:
`IsTokenRune` is false for every rune that is not ASCII, so the runes of a name
do not matter. -/
structure HttpGuts where
  isTokenByte : UInt8 → Bool
  isValueByte : UInt8 → Bool

def HttpGuts.validHeaderFieldValue (g : HttpGuts) (v : Bytes) : Bool := v.all g.isValueByte

/-- `validWireHeaderFieldName` of `http2/http2.go`. -/
def HttpGuts.validWireHeaderFieldName (g : HttpGuts) (v : Bytes) : Bool :=
  !v.isEmpty && v.all fun r => g.isTokenByte r && !(65 ≤ r && r ≤ 90)

/-- What `ErrorDetail` returns. -/
inductive ErrDetail where
  | reason (text : String)
  | header (e : HeaderError)
deriving DecidableEq, Repr

structure Framer where
  /-- What is left to read. -/
  r : Bytes
  lastFrame : Option Frame := none
  errDetail : Option ErrDetail := none
  /-- Non-zero if the last frame was an unfinished header block. -/
  lastHeaderStream : UInt32 := 0
  maxReadSize : UInt32
  allowIllegalReads : Bool := false
  readMetaHeaders : Option Decoder := none
  /-- Zero means the default. -/
  maxHeaderListSizeOpt : UInt32 := 0

namespace Framer

def maxFrameSize : UInt32 := 0xffffff

/-- `NewFramer`. -/
def new (r : Bytes) : Framer where
  r := r
  maxReadSize := maxFrameSize

def maxHeaderListSize (fr : Framer) : UInt32 :=
  if fr.maxHeaderListSizeOpt = 0 then 0x1000000 else fr.maxHeaderListSizeOpt

/-- `maxHeaderStringLen`.  A `uint32` always fits into an `int`. -/
def maxHeaderStringLen (fr : Framer) : Int := fr.maxHeaderListSize.toNat

/-! ## One frame -/

/-- `io.ReadFull` for `n` octets: they, or the error, and what is left. -/
def readFull (n : Nat) (r : Bytes) : Except Error Bytes × Bytes :=
  if n ≤ r.length then (.ok (r.take n), r.drop n)
  else (.error (if r = [] then .eof else .unexpectedEOF), [])

/-- The header and the payload of the next frame. -/
def readRaw (fr : Framer) : Except Error (FrameHeader × Bytes) × Framer :=
  match readFull frameHeaderLen fr.r with
  | (.error e, r) => (.error e, { fr with r := r })
  | (.ok buf, r) =>
    let fh := decodeFrameHeader buf
    if fh.length > fr.maxReadSize then (.error .errFrameTooLarge, { fr with r := r })
    else
      match readFull fh.length.toNat r with
      | (.error e, r) => (.error e, { fr with r := r })
      | (.ok payload, r) => (.ok (fh, payload), { fr with r := r })

/-- Stash the reason away and give a connection error. -/
def connError {α : Type} (fr : Framer) (code : ErrCode) (reason : String) :
    Except Error α × Framer :=
  (.error (.connectionError code), { fr with errDetail := some (.reason reason) })

/-- Why a frame with the header `fh` may not come next.  (A header block is open
only after a frame, so `lastFrame` is set then.) -/
def orderError (fr : Framer) (fh : FrameHeader) : Option String :=
  if fr.lastHeaderStream ≠ 0 then
    if fh.type ≠ .continuation then
      some ("got " ++ fh.type.string ++ " for stream " ++ toString fh.streamID ++
        "; expected CONTINUATION following " ++
        (fr.lastFrame.map fun last => last.header.type.string).getD "" ++
        " for stream " ++ toString fr.lastHeaderStream)
    else if fh.streamID ≠ fr.lastHeaderStream then
      some ("got CONTINUATION for stream " ++ toString fh.streamID ++ "; expected stream " ++
        toString fr.lastHeaderStream)
    else none
  else if fh.type = .continuation then
    some ("unexpected CONTINUATION for stream " ++ toString fh.streamID)
  else none

/-- The stream of the header block that is open after a frame. -/
def headerStreamAfter (fr : Framer) (fh : FrameHeader) : UInt32 :=
  if fh.type = .headers ∨ fh.type = .pushPromise ∨ fh.type = .continuation then
    if fh.flags.has flagHeadersEndHeaders then 0 else fh.streamID
  else fr.lastHeaderStream

def checkFrameOrder (fr : Framer) (f : Frame) : Except Error Unit × Framer :=
  let fr' := { fr with lastFrame := some f }
  if fr.allowIllegalReads then (.ok (), fr')
  else
    match fr.orderError f.header with
    | some reason => fr'.connError .protocol reason
    | none => (.ok (), { fr' with lastHeaderStream := fr.headerStreamAfter f.header })

/-- `ReadFrame` without the merging of header frames. -/
def readSingle (fr : Framer) : Except Error Frame × Framer :=
  match { fr with errDetail := none }.readRaw with
  | (.error e, fr) => (.error e, fr)
  | (.ok (fh, payload), fr) =>
    match typeFrameParser fh.type fh payload with
    | .error (.connError code reason) => fr.connError code reason
    | .error e => (.error e, fr)
    | .ok f =>
      match fr.checkFrameOrder f with
      | (.error e, fr) => (.error e, fr)
      | (.ok (), fr) => (.ok f, fr)

/-! ## What one frame takes from the reader -/

/-- The first frame of the octets `r`, and the octets behind it. -/
def splitFrame? (r : Bytes) : Option (FrameHeader × Bytes × Bytes) :=
  let fh := decodeFrameHeader (r.take frameHeaderLen)
  if frameHeaderLen + fh.length.toNat ≤ r.length then
    some (fh, (r.drop frameHeaderLen).take fh.length.toNat,
      r.drop (frameHeaderLen + fh.length.toNat))
  else none

variable {fh : FrameHeader} {payload r' : Bytes} {fr fr' : Framer} {f : Frame}

theorem splitFrame?_length {r : Bytes} (h : splitFrame? r = some (fh, payload, r')) :
    payload.length = fh.length.toNat ∧ r.length = frameHeaderLen + payload.length + r'.length := by
  unfold splitFrame? at h
  simp only at h
  split at h
  · cases h
    rw [List.length_take, List.length_drop, List.length_drop]
    omega
  · cases h

theorem readRaw_of_split (h : splitFrame? fr.r = some (fh, payload, r'))
    (hsize : fh.length ≤ fr.maxReadSize) :
    fr.readRaw = (.ok (fh, payload), { fr with r := r' }) := by
  unfold splitFrame? at h
  simp only at h
  split at h
  · cases h
    have hlen : frameHeaderLen ≤ fr.r.length := by omega
    unfold readRaw readFull
    simp only [if_pos hlen, if_neg (UInt32.not_lt.mpr hsize)]
    rw [if_pos (by rw [List.length_drop]; omega), List.drop_drop]
  · cases h

/-- `readRaw` succeeds only on a frame that is not too large. -/
theorem readRaw_ok (h : fr.readRaw = (.ok (fh, payload), fr')) :
    splitFrame? fr.r = some (fh, payload, fr'.r) ∧ fh.length ≤ fr.maxReadSize ∧
      fr' = { fr with r := fr'.r } := by
  unfold readRaw readFull at h
  by_cases hlen : frameHeaderLen ≤ fr.r.length
  · simp only [if_pos hlen] at h
    by_cases hsize : (decodeFrameHeader (fr.r.take frameHeaderLen)).length > fr.maxReadSize
    · rw [if_pos hsize] at h
      cases h
    rw [if_neg hsize] at h
    by_cases hrest : (decodeFrameHeader (fr.r.take frameHeaderLen)).length.toNat ≤
        (fr.r.drop frameHeaderLen).length
    · rw [if_pos hrest] at h
      cases h
      refine ⟨?_, UInt32.not_lt.mp hsize, rfl⟩
      unfold splitFrame?
      rw [List.length_drop] at hrest
      rw [if_pos (by omega), List.drop_drop]
    · rw [if_neg hrest] at h
      cases h
  · simp only [if_neg hlen] at h
    cases h

/-- No error of `readRaw` is a stream error. -/
theorem readRaw_error {e : Error} (h : fr.readRaw = (.error e, fr')) :
    ∀ id code cause, e ≠ .streamError id code cause := by
  intro id code cause he
  subst he
  have hfull : ∀ {n r r'}, readFull n r ≠ (.error (.streamError id code cause), r') := by
    intro n r r' hr
    unfold readFull at hr
    split at hr
    · cases hr
    · split at hr
      · cases hr
      · cases hr
  unfold readRaw at h
  split at h
  · rename_i e' r hr
    cases h
    exact hfull hr
  simp only at h
  split at h
  · cases h
  · split at h
    · rename_i e' r hr
      cases h
      exact hfull hr
    · cases h

/-- The framer after the frame `f`, which left the octets `r'`. -/
def accepted (fr : Framer) (f : Frame) (r' : Bytes) : Framer :=
  { fr with
    r := r'
    errDetail := none
    lastFrame := some f
    lastHeaderStream :=
      if fr.allowIllegalReads then fr.lastHeaderStream else fr.headerStreamAfter f.header }

theorem readSingle_of_split (h : splitFrame? fr.r = some (fh, payload, r'))
    (hsize : fh.length ≤ fr.maxReadSize) (hparse : typeFrameParser fh.type fh payload = .ok f)
    (horder : fr.allowIllegalReads = false → fr.orderError f.header = none) :
    fr.readSingle = (.ok f, fr.accepted f r') := by
  have hraw : readRaw { fr with errDetail := none } =
      (.ok (fh, payload), { fr with r := r', errDetail := none }) := readRaw_of_split h hsize
  unfold readSingle
  simp only [hraw, hparse, checkFrameOrder, accepted]
  cases hallow : fr.allowIllegalReads with
  | true => rfl
  | false =>
    have hnone := horder hallow
    unfold orderError at hnone ⊢
    simp only [Bool.false_eq_true, if_false, hnone]
    rfl

/-- What is known when a frame was read. -/
theorem readSingle_ok (h : fr.readSingle = (.ok f, fr')) :
    ∃ fh payload, splitFrame? fr.r = some (fh, payload, fr'.r) ∧ fh.length ≤ fr.maxReadSize ∧
      typeFrameParser fh.type fh payload = .ok f ∧
      (fr.allowIllegalReads = false → fr.orderError f.header = none) ∧
      fr' = fr.accepted f fr'.r := by
  unfold readSingle at h
  split at h
  · cases h
  rename_i fh payload fr₁ hraw
  obtain ⟨hsplit, hsize, hfr₁⟩ := readRaw_ok hraw
  rw [hfr₁] at h
  split at h
  · cases h
  · cases h
  · rename_i f₁ hparse
    unfold checkFrameOrder at h
    cases hallow : fr.allowIllegalReads with
    | true =>
      simp only [hallow, if_true] at h
      cases h
      refine ⟨fh, payload, hsplit, hsize, hparse, fun hfalse => absurd hfalse (by decide), ?_⟩
      simp only [accepted, hallow, if_true]
    | false =>
      simp only [hallow, Bool.false_eq_true, if_false] at h
      split at h
      · cases h
      rename_i fr₂ horder
      split at horder
      · cases horder
      · rename_i hnone
        cases horder
        cases h
        refine ⟨fh, payload, hsplit, hsize, hparse, fun _ => hnone, ?_⟩
        simp only [accepted, hallow, Bool.false_eq_true, if_false]
        rfl

theorem readSingle_length (h : fr.readSingle = (.ok f, fr')) : fr'.r.length < fr.r.length := by
  obtain ⟨fh, payload, hsplit, _⟩ := readSingle_ok h
  have hlen := (splitFrame?_length hsplit).2
  have hnine : frameHeaderLen = 9 := rfl
  omega

end Framer

/-! ## Meta frames -/

/-- The state that the emit callback of `readMetaFrame` captures. -/
structure MetaState where
  fields : List HeaderField := []
  truncated : Bool := false
  remainSize : UInt32
  sawRegular : Bool := false
  invalid : Option HeaderError := none

/-- The last thing that is found wrong with a field; an earlier error stays. -/
def MetaState.check (g : HttpGuts) (s : MetaState) (hf : HeaderField) : Option HeaderError :=
  let invalid :=
    if !g.validHeaderFieldValue hf.value then some (.headerFieldValueError hf.value)
    else s.invalid
  if hf.isPseudo then
    if s.sawRegular then some .errPseudoAfterRegular else invalid
  else
    if !g.validWireHeaderFieldName hf.name then some (.headerFieldNameError hf.name)
    else invalid

/-- The emit callback.  It turns emission off after an invalid field, and after
the first field that is too large for what is left of the header list size. -/
def metaEmit (g : HttpGuts) : EmitFunc MetaState := fun s hf =>
  let invalid := s.check g hf
  let s := { s with invalid := invalid, sawRegular := s.sawRegular || !hf.isPseudo }
  if invalid.isSome then (s, false)
  else if hf.size > s.remainSize then ({ s with truncated := true }, false)
  else ({ s with remainSize := s.remainSize - hf.size, fields := s.fields ++ [hf] }, true)

/-- `pseudoFields`. -/
def pseudoFields (fields : List HeaderField) : List HeaderField :=
  fields.takeWhile HeaderField.isPseudo

def requestPseudos : List Bytes :=
  [ascii ":method", ascii ":path", ascii ":scheme", ascii ":authority", ascii ":protocol"]

def responsePseudos : List Bytes := [ascii ":status"]

/-- The loop of `checkPseudos`: `seen` are the fields before. -/
def checkPseudosLoop (seen : List HeaderField) (isRequest isResponse : Bool) :
    List HeaderField → Except HeaderError (Bool × Bool)
  | [] => .ok (isRequest, isResponse)
  | hf :: pf =>
    if hf.name ∈ requestPseudos then
      if seen.any fun hf2 => hf.name == hf2.name then .error (.duplicatePseudoHeaderError hf.name)
      else checkPseudosLoop (seen ++ [hf]) true isResponse pf
    else if hf.name ∈ responsePseudos then
      if seen.any fun hf2 => hf.name == hf2.name then .error (.duplicatePseudoHeaderError hf.name)
      else checkPseudosLoop (seen ++ [hf]) isRequest true pf
    else .error (.pseudoHeaderError hf.name)

def checkPseudos (fields : List HeaderField) : Except HeaderError Unit :=
  match checkPseudosLoop [] false false (pseudoFields fields) with
  | .error e => .error e
  | .ok (isRequest, isResponse) =>
    if isRequest && isResponse then .error .errMixPseudoHeaderTypes else .ok ()

/-- The fragment of a frame that can be continued, and whether it ends its header
block. -/
def Frame.continuable? : Frame → Option (Bytes × Bool)
  | .headers h _ frag => some (frag, h.flags.has flagHeadersEndHeaders)
  | .pushPromise h _ frag => some (frag, h.flags.has flagPushPromiseEndHeaders)
  | _ => none

/-- The meta frame for a `HEADERS` or `PUSH_PROMISE` frame. -/
def Frame.toMeta (fields : List HeaderField) (truncated : Bool) : Frame → Frame
  | .headers h prio _ => .metaHeaders h prio fields truncated
  | .pushPromise h promiseID _ => .metaPushPromise h promiseID fields truncated
  | f => f

/-- `Fields` and `Truncated` of a meta frame. -/
def Frame.meta? : Frame → Option (List HeaderField × Bool)
  | .metaHeaders _ _ fields truncated => some (fields, truncated)
  | .metaPushPromise _ _ fields truncated => some (fields, truncated)
  | _ => none

namespace Framer

/-- The loop of `readMetaFrame`: write a fragment, then read the next frame.  The
header block is open in the loop, so the call of `ReadFrame` gives no frame
that would be merged, nor any other than a `CONTINUATION` frame: see
`readSingle_open`.  The last branch is the panic of the type assertion. -/
def metaLoop (g : HttpGuts) (fr : Framer) (hdec : Decoder) (s : MetaState) (frag : Bytes)
    (ended : Bool) : Except Error (Decoder × MetaState) × Framer :=
  let w := hdec.write (metaEmit g) s frag
  let fr := { fr with readMetaHeaders := some w.d }
  if w.err.isSome then (.error (.connectionError .compression), fr)
  else if ended then (.ok (w.d, w.s), fr)
  else
    match h : fr.readSingle with
    | (.error e, fr') => (.error e, fr')
    | (.ok (.continuation fh frag'), fr') =>
      have := readSingle_length h
      metaLoop g fr' w.d w.s frag' (fh.flags.has flagContinuationEndHeaders)
    | (.ok _, fr') => (.error .typeAssertion, fr')
termination_by fr.r.length

/-- Reject a header block that was decoded. -/
def rejectHeaders (fr : Framer) (streamID : UInt32) (e : HeaderError) :
    Except Error Frame × Framer :=
  (.error (.streamError streamID .protocol (some e)), { fr with errDetail := some (.header e) })

/-- The end of `readMetaFrame`, after the loop. -/
def finishMeta (fr : Framer) (hdec : Decoder) (s : MetaState) (cont : Frame) :
    Except Error Frame × Framer :=
  let fr := { fr with readMetaHeaders := some hdec.close.2 }
  if hdec.close.1.isSome then (.error (.connectionError .compression), fr)
  else
    match s.invalid with
    | some e => fr.rejectHeaders cont.header.streamID e
    | none =>
      match checkPseudos s.fields with
      | .error e => fr.rejectHeaders cont.header.streamID e
      | .ok () => (.ok (cont.toMeta s.fields s.truncated), fr)

def readMetaFrame (g : HttpGuts) (fr : Framer) (hdec : Decoder) (cont : Frame) (frag : Bytes)
    (ended : Bool) : Except Error Frame × Framer :=
  if fr.allowIllegalReads then (.error .illegalUseOfAllowIllegalReads, fr)
  else
    let hdec := (hdec.setEmitEnabled true).setMaxStringLength fr.maxHeaderStringLen
    match metaLoop g fr hdec { remainSize := fr.maxHeaderListSize } frag ended with
    | (.error e, fr) => (.error e, fr)
    | (.ok (hdec, s), fr) => fr.finishMeta hdec s cont

def readFrame (g : HttpGuts) (fr : Framer) : Except Error Frame × Framer :=
  match fr.readSingle with
  | (.error e, fr) => (.error e, fr)
  | (.ok f, fr) =>
    match f.continuable?, fr.readMetaHeaders with
    | some (frag, ended), some hdec => fr.readMetaFrame g hdec f frag ended
    | _, _ => (.ok f, fr)

/-- The results of `n` calls of `ReadFrame`. -/
def readFrames (g : HttpGuts) : Nat → Framer → List (Except Error Frame) × Framer
  | 0, fr => ([], fr)
  | n + 1, fr =>
    let (result, fr) := fr.readFrame g
    let (results, fr) := readFrames g n fr
    (result :: results, fr)

end Framer

end Fhttp.Http2
