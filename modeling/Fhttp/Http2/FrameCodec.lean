import Fhttp.Http2.Framer

/-!
# The frame codec

What the `Write` methods of a framer put on the wire, `ReadFrame` gives back:
the same frames, in the same order.

Every `Write` method ends in the same two steps, so every call is one frame
`frameBytes` with a type, flags, a stream and a payload (`WriteCall.write_ok`),
and the header of every frame is read in the same way (`splitFrame?_frameBytes`).
What is left is one lemma for each of the ten payloads.
-/

namespace Fhttp.Http2

open Hpack (Bytes)
open Lib
open List (append_assoc drop_left' length_append take_left')
open BigEndian

/-! ## Numbers on the wire -/

theorem writeUint16_eq (v : UInt16) : writeUint16 v = toBytes 2 v.toNat := by
  have hbyte : (v >>> 8).toUInt8 = UInt8.ofNat (v.toNat >>> (8 * 1)) := by
    apply UInt8.toNat_inj.mp
    rfl
  rw [toBytes_eq_shiftRight, toBytes_eq_shiftRight, ← hbyte]
  rfl

theorem writeUint32_eq (v : UInt32) : writeUint32 v = toBytes 4 v.toNat := by
  have hbyte : ∀ k : Nat, k < 32 →
      (v >>> UInt32.ofNat k).toUInt8 = UInt8.ofNat (v.toNat >>> k) := by
    intro k hk
    apply UInt8.toNat_inj.mp
    rw [UInt32.toNat_toUInt8, UInt32.toNat_shiftRight, UInt8.toNat_ofNat', UInt32.toNat_ofNat',
      Nat.mod_eq_of_lt (show k < 2 ^ 32 by omega), Nat.mod_eq_of_lt hk]
  rw [toBytes_eq_shiftRight, toBytes_eq_shiftRight,
    toBytes_eq_shiftRight, toBytes_eq_shiftRight, ← hbyte (8 * 3) (by decide),
    ← hbyte (8 * 2) (by decide), ← hbyte (8 * 1) (by decide)]
  rfl

theorem uint16_append (v : UInt16) (rest : Bytes) : uint16 (writeUint16 v ++ rest) = v := by
  have hlt : v.toNat < 256 ^ 2 := v.toNat_lt
  unfold uint16
  rw [writeUint16_eq, take_left' (length_toBytes _ _),
    ofBytes_toBytes_of_lt hlt, UInt16.ofNat_toNat]

theorem uint32_append (v : UInt32) (rest : Bytes) : uint32 (writeUint32 v ++ rest) = v := by
  have hlt : v.toNat < 256 ^ 4 := v.toNat_lt
  unfold uint32
  rw [writeUint32_eq, take_left' (length_toBytes _ _),
    ofBytes_toBytes_of_lt hlt, UInt32.ofNat_toNat]

@[simp] theorem length_writeUint32 (v : UInt32) : (writeUint32 v).length = 4 := rfl

theorem uint32_writeUint32 (v : UInt32) : uint32 (writeUint32 v) = v := by
  rw [← List.append_nil (writeUint32 v), uint32_append]

theorem readUint32_append (v : UInt32) (rest : Bytes) :
    readUint32 (writeUint32 v ++ rest) = .ok (rest, v) := by
  unfold readUint32
  rw [if_neg (by simp), uint32_append, drop_left' (length_writeUint32 v)]

/-! ### The reserved bit -/

variable {v id : UInt32} {p : PriorityParam} {bytes : Bytes}

theorem and_low_bits (h : v.toNat < 2 ^ 31) : v &&& 0x7fffffff = v := by
  apply UInt32.toNat_inj.mp
  rw [UInt32.toNat_and]
  show v.toNat &&& (2 ^ 31 - 1) = v.toNat
  rw [Nat.and_two_pow_sub_one_eq_mod, Nat.mod_eq_of_lt h]

theorem lt_of_and_high_bit (h : v &&& 0x80000000 = 0) : v.toNat < 2 ^ 31 := by
  have hand : v.toNat &&& 2 ^ 31 = 0 := by
    have hzero := congrArg UInt32.toNat h
    rwa [UInt32.toNat_and] at hzero
  have hlt := v.toNat_lt
  rw [Nat.and_two_pow] at hand
  by_contra hge
  have hbit : v.toNat.testBit 31 = true := by
    rw [Nat.testBit_eq_decide_div_mod_eq, decide_eq_true_eq]
    omega
  rw [hbit] at hand
  cases hand

/-- The high bit is added by `or`, and taken away again by the mask. -/
theorem or_high_bit (h : v.toNat < 2 ^ 31) : (v ||| 0x80000000).toNat = v.toNat + 2 ^ 31 := by
  show v.toNat ||| 2 ^ 31 = _
  have hsum := Nat.two_pow_add_eq_or_of_lt h 1
  rw [Nat.mul_one, Nat.or_comm] at hsum
  omega

theorem or_and_low_bits (h : v.toNat < 2 ^ 31) : (v ||| 0x80000000) &&& 0x7fffffff = v := by
  apply UInt32.toNat_inj.mp
  rw [UInt32.toNat_and, or_high_bit h]
  show (v.toNat + 2 ^ 31) &&& (2 ^ 31 - 1) = v.toNat
  rw [Nat.and_two_pow_sub_one_eq_mod, Nat.add_mod_right, Nat.mod_eq_of_lt h]

theorem validStreamIDOrZero_lt (h : validStreamIDOrZero id = true) : id.toNat < 2 ^ 31 := by
  unfold validStreamIDOrZero at h
  rw [beq_iff_eq] at h
  exact lt_of_and_high_bit h

theorem validStreamID_spec (h : validStreamID id = true) : id ≠ 0 ∧ id.toNat < 2 ^ 31 := by
  unfold validStreamID at h
  rw [Bool.and_eq_true, bne_iff_ne, beq_iff_eq] at h
  exact ⟨h.1, lt_of_and_high_bit h.2⟩

/-! ## One frame on the wire -/

/-- The octets of a frame. -/
def frameBytes (t : FrameType) (flags : Flags) (streamID : UInt32) (payload : Bytes) : Bytes :=
  toBytes 3 payload.length ++ [t, flags] ++ writeUint32 streamID ++ payload

/-- The header of a frame with the given payload. -/
def frameHeader (t : FrameType) (flags : Flags) (streamID : UInt32) (payload : Bytes) :
    FrameHeader where
  type := t
  flags := flags
  length := UInt32.ofNat payload.length
  streamID := streamID

section

variable {t : FrameType} {flags : Flags} {streamID : UInt32}

variable {payload : Bytes}

/-- `endWrite` puts the length in the place that `startWrite` left for it. -/
theorem endWrite_startWrite : endWrite (startWrite t flags streamID ++ payload) =
    if payload.length < 2 ^ 24 then .ok (frameBytes t flags streamID payload)
    else .error .errFrameTooLarge := by
  have hlen : (startWrite t flags streamID ++ payload).length - frameHeaderLen =
      payload.length := by
    rw [length_append]
    show 9 + payload.length - 9 = _
    omega
  unfold endWrite frameBytes
  simp only [hlen, toBytes_eq_shiftRight, ← Nat.not_lt, ite_not]
  rfl

section

variable (hid : streamID.toNat < 2 ^ 31) (hlen : payload.length < 2 ^ 24)

include hid hlen

theorem decodeFrameHeader_frameBytes :
    decodeFrameHeader (toBytes 3 payload.length ++ [t, flags] ++ writeUint32 streamID) =
      frameHeader t flags streamID payload := by
  have hlength : ofBytes (toBytes 3 payload.length) = payload.length :=
    ofBytes_toBytes_of_lt hlen
  obtain ⟨x, y, z, hthree⟩ : ∃ x y z, toBytes 3 payload.length = [x, y, z] :=
    List.length_eq_three.mp (length_toBytes 3 payload.length)
  rw [hthree] at hlength ⊢
  show FrameHeader.mk t flags (UInt32.ofNat (ofBytes [x, y, z]))
    (uint32 (writeUint32 streamID) &&& 0x7fffffff) = _
  rw [hlength, uint32_writeUint32, and_low_bits hid]
  rfl

/-- The frame at the front of the octets is the frame that was written. -/
theorem splitFrame?_frameBytes (rest : Bytes) :
    Framer.splitFrame? (frameBytes t flags streamID payload ++ rest) =
      some (frameHeader t flags streamID payload, payload, rest) := by
  have hnine : (toBytes 3 payload.length ++ [t, flags] ++
      writeUint32 streamID).length = frameHeaderLen := by
    rfl
  have hlength : (frameHeader t flags streamID payload).length.toNat = payload.length := by
    show (UInt32.ofNat payload.length).toNat = _
    rw [UInt32.toNat_ofNat', Nat.mod_eq_of_lt (by omega)]
  unfold Framer.splitFrame? frameBytes
  rw [append_assoc, take_left' hnine, decodeFrameHeader_frameBytes hid hlen]
  simp only [hlength]
  rw [length_append, hnine, length_append, if_pos (by omega), drop_left' hnine,
    take_left' rfl, ← List.drop_drop, drop_left' hnine, drop_left' rfl]

end

end

/-! ## Payloads -/

theorem unpad_append (p pad : Bytes) {padLength : UInt8} (h : pad.length = padLength.toNat) :
    unpad (p ++ pad) padLength = p := by
  unfold unpad
  rw [length_append, h, Nat.add_sub_cancel, take_left' rfl]

@[simp] theorem length_padZeros (padLength : UInt8) :
    (padZeros padLength).length = padLength.toNat := List.length_replicate

/-- The pad length is on the wire when it is not zero. -/
theorem readPadLength_append (padLength : UInt8) (rest : Bytes) :
    readPadLength (padLength != 0) (padLengthBytes padLength ++ rest) = .ok (rest, padLength) := by
  unfold readPadLength padLengthBytes
  by_cases hzero : padLength = 0
  · subst hzero
    rfl
  · rw [if_pos (bne_iff_ne.mpr hzero), if_pos hzero]
    rfl

theorem priorityOf_writePriorityParam (h : p.streamDep.toNat < 2 ^ 31) :
    priorityOf (if p.exclusive then p.streamDep ||| 0x80000000 else p.streamDep) p.weight = p := by
  obtain ⟨dep, exclusive, weight⟩ := p
  have hdep : dep.toNat < 2 ^ 31 := h
  cases exclusive with
  | false =>
    show PriorityParam.mk (dep &&& 0x7fffffff) (dep != dep &&& 0x7fffffff) weight = _
    rw [and_low_bits hdep, bne_self_eq_false]
  | true =>
    have hne : dep ||| 0x80000000 ≠ dep := by
      intro heq
      have htoNat := congrArg UInt32.toNat heq
      rw [or_high_bit hdep] at htoNat
      omega
    show PriorityParam.mk ((dep ||| 0x80000000) &&& 0x7fffffff)
      (dep ||| 0x80000000 != (dep ||| 0x80000000) &&& 0x7fffffff) weight = _
    rw [or_and_low_bits hdep, bne_iff_ne.mpr hne]

/-- The priority parameters are on the wire when they are not zero. -/
theorem readPriority_append (h : p.isZero = false → p.streamDep.toNat < 2 ^ 31) (rest : Bytes) :
    readPriority (!p.isZero) ((if p.isZero then [] else writePriorityParam p) ++ rest) =
      .ok (rest, p) := by
  unfold readPriority
  cases hzero : p.isZero with
  | true =>
    have hp : p = {} := beq_iff_eq.mp hzero
    subst hp
    rfl
  | false =>
    simp only [Bool.not_false, if_true, Bool.false_eq_true, if_false]
    unfold writePriorityParam
    rw [append_assoc, readUint32_append]
    show Except.ok (rest, priorityOf _ p.weight) = _
    rw [priorityOf_writePriorityParam (h hzero)]

theorem length_settingsBytes (settings : List Setting) :
    (settingsBytes settings).length = settings.length * 6 := by
  induction settings with
  | nil => rfl
  | cons s settings ih =>
    show (writeUint16 s.id ++ writeUint32 s.val ++ settingsBytes settings).length = _
    rw [length_append, ih, List.length_cons]
    show 6 + _ = _
    omega

theorem settingAt_settingsBytes {settings : List Setting} {i : Nat} {s : Setting}
    (h : settings[i]? = some s) : settingAt (settingsBytes settings) i = s := by
  induction settings generalizing i with
  | nil => cases h
  | cons s₀ settings ih =>
    have hsix : (writeUint16 s₀.id ++ writeUint32 s₀.val).length = 6 := rfl
    have hcons : settingsBytes (s₀ :: settings) =
        writeUint16 s₀.id ++ writeUint32 s₀.val ++ settingsBytes settings := rfl
    cases i with
    | zero =>
      have hs : s₀ = s := Option.some.inj h
      show Setting.mk (uint16 (settingsBytes (s₀ :: settings)))
        (uint32 ((settingsBytes (s₀ :: settings)).drop 2)) = s
      rw [hcons, append_assoc, uint16_append, drop_left' (by rfl), uint32_append, hs]
    | succ i =>
      have hdrop : ∀ k, (settingsBytes (s₀ :: settings)).drop (6 + k) =
          (settingsBytes settings).drop k := by
        intro k
        rw [hcons, ← List.drop_drop, drop_left' hsix]
      rw [← ih (List.getElem?_cons_succ.symm.trans h)]
      unfold settingAt
      rw [show (i + 1) * 6 + 2 = 6 + (i * 6 + 2) by omega, show (i + 1) * 6 = 6 + i * 6 by omega,
        hdrop, hdrop]

/-- The settings of a frame are the settings that were written, in order. -/
theorem settingsOf_settingsBytes (settings : List Setting) :
    settingsOf (settingsBytes settings) = settings := by
  unfold settingsOf
  rw [length_settingsBytes, Nat.mul_div_cancel _ (by decide)]
  apply List.ext_getElem?
  intro i
  rw [List.getElem?_map]
  by_cases hi : i < settings.length
  · rw [List.getElem?_range hi, Option.map_some,
      settingAt_settingsBytes (List.getElem?_eq_getElem hi), List.getElem?_eq_getElem hi]
  · rw [List.getElem?_eq_none (by rw [List.length_range]; omega), List.getElem?_eq_none (by omega)]
    rfl

/-! ## Calls of the framer -/

/-- A call of a `Write` method. -/
inductive WriteCall where
  | data (streamID : UInt32) (endStream : Bool) (data : Bytes) (pad : Option Bytes)
  | headers (p : HeadersFrameParam)
  | priority (streamID : UInt32) (p : PriorityParam)
  | rstStream (streamID : UInt32) (code : ErrCode)
  | settings (settings : List Setting)
  | settingsAck
  | pushPromise (p : PushPromiseParam)
  | ping (ack : Bool) (data : Vector UInt8 8)
  | goAway (maxStreamID : UInt32) (code : ErrCode) (debugData : Bytes)
  | windowUpdate (streamID incr : UInt32)
  | continuation (streamID : UInt32) (endHeaders : Bool) (headerBlockFragment : Bytes)

/-! ### Flags -/

theorem dataFlags_padded (endStream padded : Bool) :
    (dataFlags endStream padded).has flagDataPadded = padded := by
  cases endStream <;> cases padded <;> rfl

section

variable (padded endStream endHeaders priority : Bool)

theorem headersFlags_has :
    let flags := headersFlags padded endStream endHeaders priority
    flags.has flagHeadersPadded = padded ∧ flags.has flagHeadersPriority = priority ∧
      flags.has flagHeadersEndHeaders = endHeaders := by
  cases padded <;> cases endStream <;> cases endHeaders <;> cases priority <;> decide

theorem pushPromiseFlags_has :
    (pushPromiseFlags padded endHeaders).has flagPushPromisePadded = padded ∧
      (pushPromiseFlags padded endHeaders).has flagHeadersEndHeaders = endHeaders := by
  cases padded <;> cases endHeaders <;> decide

theorem continuationFlags_endHeaders :
    (continuationFlags endHeaders).has flagHeadersEndHeaders = endHeaders := by
  cases endHeaders <;> rfl

end

namespace WriteCall

def write (allow : Bool) : WriteCall → Except WriteError Bytes
  | data id endStream body pad => writeDataPadded allow id endStream body pad
  | headers p => writeHeaders allow p
  | priority id p => writePriority allow id p
  | rstStream id code => writeRSTStream allow id code
  | settings list => writeSettings list
  | settingsAck => writeSettingsAck
  | pushPromise p => writePushPromise allow p
  | ping ack body => writePing ack body
  | goAway maxStreamID code debugData => writeGoAway maxStreamID code debugData
  | windowUpdate id incr => writeWindowUpdate allow id incr
  | continuation id endHeaders frag => writeContinuation allow id endHeaders frag

def type : WriteCall → FrameType
  | data .. => .data
  | headers _ => .headers
  | priority .. => .priority
  | rstStream .. => .rstStream
  | settings _ => .settings
  | settingsAck => .settings
  | pushPromise _ => .pushPromise
  | ping .. => .ping
  | goAway .. => .goAway
  | windowUpdate .. => .windowUpdate
  | continuation .. => .continuation

def flags : WriteCall → Flags
  | data _ endStream _ pad => dataFlags endStream pad.isSome
  | headers p => p.flags
  | settingsAck => flagSettingsAck
  | pushPromise p => p.flags
  | ping ack _ => pingFlags ack
  | continuation _ endHeaders _ => continuationFlags endHeaders
  | _ => 0

/-- The stream of the frame. -/
def streamID : WriteCall → UInt32
  | data id .. => id
  | headers p => p.streamID
  | priority id _ => id
  | rstStream id _ => id
  | pushPromise p => p.streamID
  | windowUpdate id _ => id
  | continuation id _ _ => id
  | _ => 0

def payload : WriteCall → Bytes
  | data _ _ body pad =>
    (pad.map fun pad => UInt8.ofNat pad.length).toList ++ body ++ pad.getD []
  | headers p =>
    padLengthBytes p.padLength ++
      (if p.priority.isZero then [] else writePriorityParam p.priority) ++ p.blockFragment ++
      padZeros p.padLength
  | priority _ p => writePriorityParam p
  | rstStream _ code => writeUint32 code
  | settings list => settingsBytes list
  | settingsAck => []
  | pushPromise p =>
    padLengthBytes p.padLength ++ writeUint32 p.promiseID ++ p.blockFragment ++
      padZeros p.padLength
  | ping _ body => body.toList
  | goAway maxStreamID code debugData =>
    writeUint32 (maxStreamID &&& 0x7fffffff) ++ writeUint32 code ++ debugData
  | windowUpdate _ incr => writeUint32 incr
  | continuation _ _ frag => frag

/-- What a `Write` method has checked when it returns nil. -/
def Checked : WriteCall → Prop
  | data id _ _ pad => validStreamID id = true ∧ (pad.getD []).length ≤ 255
  | headers p =>
    validStreamID p.streamID = true ∧
      (p.priority.isZero = false → validStreamIDOrZero p.priority.streamDep = true)
  | priority id p => validStreamID id = true ∧ validStreamIDOrZero p.streamDep = true
  | rstStream id _ => validStreamID id = true
  | pushPromise p => validStreamID p.streamID = true ∧ validStreamID p.promiseID = true
  | windowUpdate _ incr => 1 ≤ incr.toNat ∧ incr.toNat < 2 ^ 31
  | continuation id _ _ => validStreamID id = true
  | _ => True

/-- A check at the start of a `Write` method, which was passed. -/
theorem passed {ε α : Type} {c : Bool} {e : ε} {x : Except ε α} {a : α}
    (h : (if c then .error e else x) = .ok a) : c = false ∧ x = .ok a := by
  cases c with
  | true => cases h
  | false => exact ⟨rfl, h⟩

theorem checked_of_passed {b : Bool} (h : (!b && !false) = false) : b = true := by
  cases b with
  | true => rfl
  | false => cases h

variable {c : WriteCall} {bytes : Bytes} {id : UInt32} {code : ErrCode} {list : List Setting}
  {openStream : Option UInt32} {fr : Framer}

theorem write_checked (hchecked : c.Checked)
    (h : endWrite (startWrite c.type c.flags c.streamID ++ c.payload) = .ok bytes) :
    bytes = frameBytes c.type c.flags c.streamID c.payload ∧ c.payload.length < 2 ^ 24 ∧
      c.Checked := by
  rw [endWrite_startWrite] at h
  split at h
  · rename_i hlen
    cases h
    exact ⟨rfl, hlen, hchecked⟩
  · cases h

/-- A call that returns nil writes one frame. -/
theorem write_ok (h : c.write false = .ok bytes) :
    bytes = frameBytes c.type c.flags c.streamID c.payload ∧ c.payload.length < 2 ^ 24 ∧
      c.Checked := by
  cases c with
  | data id endStream body pad =>
    obtain ⟨hid, h⟩ := passed h
    by_cases hpad : (pad.getD []).length > 255
    · rw [if_pos hpad] at h
      cases h
    · rw [if_neg hpad] at h
      obtain ⟨_, h⟩ := passed h
      exact write_checked ⟨checked_of_passed hid, Nat.not_lt.mp hpad⟩ h
  | headers p =>
    obtain ⟨hid, h⟩ := passed h
    obtain ⟨hdep, h⟩ := passed h
    refine write_checked ⟨checked_of_passed hid, fun hzero => checked_of_passed ?_⟩ h
    rwa [hzero, Bool.not_false, Bool.true_and] at hdep
  | priority id p =>
    obtain ⟨hid, h⟩ := passed h
    obtain ⟨hdep, h⟩ := passed h
    exact write_checked ⟨checked_of_passed hid, by simpa using hdep⟩ h
  | rstStream id code =>
    obtain ⟨hid, h⟩ := passed h
    exact write_checked (checked_of_passed hid) h
  | settings list =>
    exact write_checked trivial h
  | settingsAck =>
    have hempty : endWrite (startWrite .settings flagSettingsAck 0 ++ []) = .ok bytes := h
    exact write_checked trivial hempty
  | pushPromise p =>
    obtain ⟨hid, h⟩ := passed h
    obtain ⟨hpromise, h⟩ := passed h
    exact write_checked ⟨checked_of_passed hid, checked_of_passed hpromise⟩ h
  | ping ack body =>
    exact write_checked trivial h
  | goAway maxStreamID code debugData =>
    exact write_checked trivial h
  | windowUpdate id incr =>
    obtain ⟨hincr, h⟩ := passed h
    refine write_checked ?_ h
    simp [UInt32.lt_iff_toNat_lt] at hincr
    show 1 ≤ incr.toNat ∧ incr.toNat < 2 ^ 31
    omega
  | continuation id endHeaders frag =>
    obtain ⟨hid, h⟩ := passed h
    exact write_checked (checked_of_passed hid) h

/-- What the caller promises: stream ids below `2 ^ 31`, a fragment in every
`HEADERS` frame, and valid settings. -/
def Admissible : WriteCall → Prop
  | headers p => p.blockFragment ≠ []
  | settings list => ∀ s ∈ list, s.valid = .ok ()
  | goAway maxStreamID _ _ => maxStreamID.toNat < 2 ^ 31
  | windowUpdate id _ => id.toNat < 2 ^ 31
  | _ => True

/-- The frame has the content that the call was given. -/
def Content : WriteCall → Frame → Prop
  | data _ _ body _, .data _ body' => body' = body
  | headers p, .headers _ prio frag => prio = p.priority ∧ frag = p.blockFragment
  | priority _ p, .priority _ p' => p' = p
  | rstStream _ code, .rstStream _ code' => code' = code
  | settings list, .settings _ p => settingsOf p = list
  | settingsAck, .settings _ p => settingsOf p = []
  | pushPromise p, .pushPromise _ id frag => id = p.promiseID ∧ frag = p.blockFragment
  | ping _ body, .ping _ body' => body' = body
  | goAway id code debugData, .goAway _ id' code' debugData' =>
    id' = id ∧ code' = code ∧ debugData' = debugData
  | windowUpdate _ incr, .windowUpdate _ incr' => incr' = incr
  | continuation _ _ frag, .continuation _ frag' => frag' = frag
  | _, _ => False

/-- The header of the frame of a call. -/
def header (c : WriteCall) : FrameHeader := frameHeader c.type c.flags c.streamID c.payload

/-- The parser for the type of a call gives a frame with the content of the
call. -/
def Parses (c : WriteCall) : Prop :=
  ∃ f, typeFrameParser c.type c.header c.payload = .ok f ∧ f.header = c.header ∧ c.Content f

theorem parses_data {endStream : Bool} {body : Bytes} {pad : Option Bytes}
    (h : (data id endStream body pad).Checked) : (data id endStream body pad).Parses := by
  have hid : (data id endStream body pad).header.streamID ≠ 0 := (validStreamID_spec h.1).1
  have hflag : (data id endStream body pad).header.flags.has flagDataPadded = pad.isSome :=
    dataFlags_padded endStream pad.isSome
  have hpad : readPadLength pad.isSome (data id endStream body pad).payload =
      .ok (body ++ pad.getD [], UInt8.ofNat (pad.getD []).length) := by
    cases pad with
    | none => rfl
    | some pad => rfl
  have hlength : (pad.getD []).length = (UInt8.ofNat (pad.getD []).length).toNat := by
    rw [UInt8.toNat_ofNat', Nat.mod_eq_of_lt (Nat.lt_succ_of_le h.2)]
  have hfits : ¬ (UInt8.ofNat (pad.getD []).length).toNat > (body ++ pad.getD []).length := by
    rw [← hlength, length_append]
    omega
  refine ⟨.data (data id endStream body pad).header body, ?_, rfl, rfl⟩
  show parseDataFrame _ _ = _
  unfold parseDataFrame
  rw [if_neg hid, hflag, hpad]
  show (if _ then _ else _) = _
  rw [if_neg hfits, unpad_append _ _ hlength]

theorem parses_headers {p : HeadersFrameParam} (h : (headers p).Checked)
    (ha : (headers p).Admissible) : (headers p).Parses := by
  have hid : (headers p).header.streamID ≠ 0 := (validStreamID_spec h.1).1
  have hpadded : (headers p).header.flags.has flagHeadersPadded = (p.padLength != 0) :=
    (headersFlags_has ..).1
  have hpriority : (headers p).header.flags.has flagHeadersPriority = !p.priority.isZero :=
    (headersFlags_has ..).2.1
  have hdep : p.priority.isZero = false → p.priority.streamDep.toNat < 2 ^ 31 :=
    fun hzero => validStreamIDOrZero_lt (h.2 hzero)
  have hfrag : ¬ (p.blockFragment ++ padZeros p.padLength).length ≤ p.padLength.toNat := by
    have hpos := List.length_pos_iff.mpr ha
    rw [length_append, length_padZeros]
    omega
  refine ⟨.headers (headers p).header p.priority p.blockFragment, ?_, rfl, rfl, rfl⟩
  show parseHeadersFrame _ (padLengthBytes p.padLength ++
      (if p.priority.isZero then [] else writePriorityParam p.priority) ++ p.blockFragment ++
      padZeros p.padLength) = _
  unfold parseHeadersFrame
  rw [if_neg hid, hpadded, hpriority, append_assoc, append_assoc, readPadLength_append]
  show (readPriority (!p.priority.isZero) _ >>= _) = _
  rw [readPriority_append hdep]
  show (if _ then _ else _) = _
  rw [if_neg hfrag, unpad_append _ _ (length_padZeros _)]

theorem parses_priority {p : PriorityParam} (h : (priority id p).Checked) :
    (priority id p).Parses := by
  have hid : (priority id p).header.streamID ≠ 0 := (validStreamID_spec h.1).1
  refine ⟨.priority (priority id p).header p, ?_, rfl, rfl⟩
  show parsePriorityFrame _ (writePriorityParam p) = _
  unfold parsePriorityFrame
  rw [if_neg hid, if_neg (fun hne => hne rfl)]
  unfold writePriorityParam
  rw [uint32_append]
  show Except.ok (Frame.priority _ (priorityOf _ p.weight)) = _
  rw [priorityOf_writePriorityParam (validStreamIDOrZero_lt h.2)]

theorem parses_rstStream (h : (rstStream id code).Checked) : (rstStream id code).Parses := by
  have hid : (rstStream id code).header.streamID ≠ 0 := (validStreamID_spec h).1
  refine ⟨.rstStream (rstStream id code).header code, ?_, rfl, rfl⟩
  show parseRSTStreamFrame _ (writeUint32 code) = _
  unfold parseRSTStreamFrame
  rw [if_neg (fun hne => hne rfl), if_neg hid, uint32_writeUint32]

/-- A valid initial window size is accepted by the parser. -/
theorem settingValue_le (h : ∀ s ∈ list, s.valid = .ok ()) :
    ¬ (settingValue (settingsBytes list) SettingID.initialWindowSize).any (· > 0x7fffffff) := by
  unfold settingValue
  rw [settingsOf_settingsBytes]
  cases hfind : list.find? fun s => s.id == SettingID.initialWindowSize with
  | none => exact Bool.false_ne_true
  | some s =>
    have hid : s.id = SettingID.initialWindowSize := by
      have hbeq := List.find?_some hfind
      exact beq_iff_eq.mp hbeq
    have hvalid := h s (List.mem_of_find?_eq_some hfind)
    unfold Setting.valid at hvalid
    rw [if_neg (by rw [hid]; decide), if_pos hid] at hvalid
    intro hany
    rw [Option.map_some, Option.any_some, decide_eq_true_eq] at hany
    rw [if_pos hany] at hvalid
    cases hvalid

theorem parses_settings (ha : (settings list).Admissible) : (settings list).Parses := by
  have hack : (settings list).header.flags.has flagSettingsAck = false := by
    show Flags.has 0 flagSettingsAck = false
    decide
  refine ⟨.settings (settings list).header (settingsBytes list), ?_, rfl,
    settingsOf_settingsBytes list⟩
  show parseSettingsFrame _ (settingsBytes list) = _
  unfold parseSettingsFrame
  rw [if_neg (by rw [hack]; exact fun hfalse => Bool.false_ne_true hfalse.1),
    if_neg (fun hid => hid rfl),
    if_neg (by rw [length_settingsBytes, Nat.mul_mod_left]; exact fun hne => hne rfl),
    if_neg (settingValue_le ha)]

theorem parses_pushPromise {p : PushPromiseParam} (h : (pushPromise p).Checked) :
    (pushPromise p).Parses := by
  have hid : (pushPromise p).header.streamID ≠ 0 := (validStreamID_spec h.1).1
  have hpadded : (pushPromise p).header.flags.has flagPushPromisePadded = (p.padLength != 0) :=
    (pushPromiseFlags_has ..).1
  have hfrag : ¬ p.padLength.toNat > (p.blockFragment ++ padZeros p.padLength).length := by
    rw [length_append, length_padZeros]
    omega
  refine ⟨.pushPromise (pushPromise p).header p.promiseID p.blockFragment, ?_, rfl, rfl, rfl⟩
  show parsePushPromise _ (padLengthBytes p.padLength ++ writeUint32 p.promiseID ++
    p.blockFragment ++ padZeros p.padLength) = _
  unfold parsePushPromise
  rw [if_neg hid, hpadded, append_assoc, append_assoc, readPadLength_append]
  simp only [bind, Except.bind]
  rw [readUint32_append]
  show (if _ then _ else _) = _
  rw [if_neg hfrag, unpad_append _ _ (length_padZeros _), and_low_bits (validStreamID_spec h.2).2]

theorem parses_ping (ack : Bool) (body : Vector UInt8 8) : (ping ack body).Parses := by
  refine ⟨.ping (ping ack body).header body, ?_, rfl, rfl⟩
  show parsePingFrame _ body.toList = _
  unfold parsePingFrame
  rw [dif_pos Vector.length_toList, if_neg (fun hid => hid rfl)]
  rfl

theorem parses_goAway {debugData : Bytes} (ha : (goAway id code debugData).Admissible) :
    (goAway id code debugData).Parses := by
  have hlen : (writeUint32 (id &&& 0x7fffffff) ++ writeUint32 code).length = 8 := rfl
  have hsize : ¬ (writeUint32 (id &&& 0x7fffffff) ++ writeUint32 code ++ debugData).length < 8 := by
    rw [length_append, hlen]
    omega
  refine ⟨.goAway (goAway id code debugData).header id code debugData, ?_, rfl, rfl, rfl, rfl⟩
  show typeFrameParser .goAway _ (writeUint32 (id &&& 0x7fffffff) ++ writeUint32 code ++
    debugData) = _
  rw [show typeFrameParser .goAway = parseGoAwayFrame from rfl]
  unfold parseGoAwayFrame
  rw [if_neg (fun hid => hid rfl), if_neg hsize, drop_left' hlen, append_assoc,
    uint32_append, drop_left' (length_writeUint32 _), uint32_append, and_low_bits ha,
    and_low_bits ha]

theorem parses_windowUpdate {incr : UInt32} (h : (windowUpdate id incr).Checked) :
    (windowUpdate id incr).Parses := by
  have hincr : incr ≠ 0 := by
    intro hzero
    subst hzero
    exact absurd h.1 (by decide)
  refine ⟨.windowUpdate (windowUpdate id incr).header incr, ?_, rfl, rfl⟩
  show typeFrameParser .windowUpdate _ (writeUint32 incr) = _
  rw [show typeFrameParser .windowUpdate = parseWindowUpdateFrame from rfl]
  unfold parseWindowUpdateFrame
  rw [if_neg (fun hne => hne rfl), uint32_writeUint32, and_low_bits h.2]
  exact if_neg hincr

theorem parses_continuation {endHeaders : Bool} {frag : Bytes}
    (h : (continuation id endHeaders frag).Checked) : (continuation id endHeaders frag).Parses := by
  have hid : (continuation id endHeaders frag).header.streamID ≠ 0 := (validStreamID_spec h).1
  refine ⟨.continuation (continuation id endHeaders frag).header frag, ?_, rfl, rfl⟩
  exact if_neg hid

/-- The payload of every admissible call is parsed to its content. -/
theorem parses (h : c.Checked) (ha : c.Admissible) : c.Parses := by
  cases c with
  | data => exact parses_data h
  | headers => exact parses_headers h ha
  | priority => exact parses_priority h
  | rstStream => exact parses_rstStream h
  | settings => exact parses_settings ha
  | settingsAck => exact ⟨.settings settingsAck.header [], rfl, rfl, rfl⟩
  | pushPromise => exact parses_pushPromise h
  | ping => exact parses_ping _ _
  | goAway => exact parses_goAway ha
  | windowUpdate => exact parses_windowUpdate h
  | continuation => exact parses_continuation h

/-- The stream of an admissible call has no high bit. -/
theorem streamID_lt (h : c.Checked) (ha : c.Admissible) : c.streamID.toNat < 2 ^ 31 := by
  cases c with
  | data => exact (validStreamID_spec h.1).2
  | headers => exact (validStreamID_spec h.1).2
  | priority => exact (validStreamID_spec h.1).2
  | rstStream => exact (validStreamID_spec h).2
  | settings => exact Nat.two_pow_pos 31
  | settingsAck => exact Nat.two_pow_pos 31
  | pushPromise => exact (validStreamID_spec h.1).2
  | ping => exact Nat.two_pow_pos 31
  | goAway => exact Nat.two_pow_pos 31
  | windowUpdate => exact ha
  | continuation => exact (validStreamID_spec h).2

/-! ## The order of frames -/

/-- The call may come when the header block of the given stream is open. -/
def InOrder (openStream : Option UInt32) : WriteCall → Prop
  | continuation id _ _ => openStream = some id
  | _ => openStream = none

/-- The stream whose header block is open after the call. -/
def openAfter (openStream : Option UInt32) : WriteCall → Option UInt32
  | headers p => if p.endHeaders then none else some p.streamID
  | pushPromise p => if p.endHeaders then none else some p.streamID
  | continuation id endHeaders _ => if endHeaders then none else some id
  | _ => openStream

/-- `HEADERS`, `PUSH_PROMISE` and `CONTINUATION` frames in the order that RFC
7540 asks for: an unfinished header block is followed by a `CONTINUATION` frame of
the same stream, and there is none elsewhere. -/
def LegalOrder (openStream : Option UInt32) : List WriteCall → Prop
  | [] => True
  | c :: cs => c.InOrder openStream ∧ LegalOrder (c.openAfter openStream) cs

theorem orderError_none (h : c.Checked) (hin : c.InOrder openStream)
    (hopen : fr.lastHeaderStream = openStream.getD 0) : fr.orderError c.header = none := by
  unfold Framer.orderError
  cases c with
  | continuation id endHeaders frag =>
    have hid : fr.lastHeaderStream = id := by
      rw [hopen, show openStream = some id from hin]
      rfl
    rw [if_pos (by rw [hid]; exact (validStreamID_spec h).1), if_neg (fun hne => hne rfl), hid,
      if_neg (fun hne => hne rfl)]
  | _ =>
    have hid : fr.lastHeaderStream = 0 := by
      rw [hopen, show openStream = none from hin]
      rfl
    rw [if_neg (fun hne => hne hid)]
    exact if_neg (by simp only [header, frameHeader, type]; decide)

/-- The open stream after a frame, as the framer keeps it. -/
theorem ite_getD (endHeaders : Bool) (id : UInt32) :
    (if endHeaders = true then 0 else id) = (if endHeaders then none else some id).getD 0 := by
  cases endHeaders <;> rfl

theorem headerStreamAfter_header (hopen : fr.lastHeaderStream = openStream.getD 0) :
    fr.headerStreamAfter c.header = (c.openAfter openStream).getD 0 := by
  unfold Framer.headerStreamAfter
  cases c with
  | headers p =>
    have hflag : (headers p).header.flags.has flagHeadersEndHeaders = p.endHeaders :=
      (headersFlags_has ..).2.2
    rw [if_pos (.inl (show (headers p).header.type = .headers from rfl)), hflag]
    exact ite_getD _ _
  | pushPromise p =>
    have hflag : (pushPromise p).header.flags.has flagHeadersEndHeaders = p.endHeaders :=
      (pushPromiseFlags_has ..).2
    rw [if_pos (.inr (.inl (show (pushPromise p).header.type = .pushPromise from rfl))), hflag]
    exact ite_getD _ _
  | continuation id endHeaders frag =>
    have hflag : (continuation id endHeaders frag).header.flags.has flagHeadersEndHeaders =
      endHeaders := continuationFlags_endHeaders ..
    have htype : (continuation id endHeaders frag).header.type = .continuation := rfl
    rw [if_pos (.inr (.inr htype)), hflag]
    exact ite_getD _ _
  | _ =>
    exact hopen

end WriteCall

/-! ## A sequence of calls -/

/-- All octets that a sequence of calls writes, when they all return nil. -/
def writeAll (allow : Bool) : List WriteCall → Except WriteError Bytes
  | [] => .ok []
  | c :: cs => do
    let bytes ← c.write allow
    let rest ← writeAll allow cs
    .ok (bytes ++ rest)

theorem writeAll_cons {allow : Bool} {c : WriteCall} {cs : List WriteCall}
    (h : writeAll allow (c :: cs) = .ok bytes) :
    ∃ b bs, c.write allow = .ok b ∧ writeAll allow cs = .ok bs ∧ bytes = b ++ bs := by
  simp only [writeAll, bind, Except.bind] at h
  split at h
  · cases h
  · rename_i b hb
    split at h
    · cases h
    · rename_i bs hbs
      cases h
      exact ⟨b, bs, hb, hbs, rfl⟩

/-- The frame is the one that the call was given: the type, the flags, the stream
and the content. -/
structure SameFrame (c : WriteCall) (f : Frame) : Prop where
  type : f.header.type = c.type
  flags : f.header.flags = c.flags
  streamID : f.header.streamID = c.streamID
  content : c.Content f

section

variable {fr : Framer} {c : WriteCall} {bytes rest : Bytes} {openStream : Option UInt32}
  (hopen : fr.allowIllegalReads = false → fr.lastHeaderStream = openStream.getD 0)
  (hwrite : c.write false = .ok bytes) (ha : c.Admissible)
  (hsize : c.payload.length ≤ fr.maxReadSize.toNat) (hin : c.InOrder openStream)
  (hr : fr.r = bytes ++ rest)

include hopen hwrite ha hsize hin hr

/-- One call, read without the merging of header frames. -/
theorem readSingle_write :
    ∃ f, fr.readSingle = (.ok f, fr.accepted f rest) ∧ f.header = c.header ∧ c.Content f := by
  obtain ⟨rfl, hlen, hchecked⟩ := WriteCall.write_ok hwrite
  obtain ⟨f, hparse, hheader, hcontent⟩ := WriteCall.parses hchecked ha
  have hsplit : Framer.splitFrame? (frameBytes c.type c.flags c.streamID c.payload ++ rest) =
      some (c.header, c.payload, rest) :=
    splitFrame?_frameBytes (WriteCall.streamID_lt hchecked ha) hlen rest
  rw [← hr] at hsplit
  have hfits : c.header.length ≤ fr.maxReadSize := by
    show (UInt32.ofNat c.payload.length).toNat ≤ _
    rw [UInt32.toNat_ofNat', Nat.mod_eq_of_lt (by omega)]
    exact hsize
  refine ⟨f, Framer.readSingle_of_split hsplit hfits hparse fun hallow => ?_, hheader, hcontent⟩
  rw [hheader]
  exact WriteCall.orderError_none hchecked hin (hopen hallow)

/-- One call, read by a framer that does not merge header frames. -/
theorem readFrame_write (g : HttpGuts) (hmeta : fr.readMetaHeaders = none) :
    ∃ f, fr.readFrame g = (.ok f, fr.accepted f rest) ∧ f.header = c.header ∧ c.Content f := by
  obtain ⟨f, hsingle, hheader, hcontent⟩ := readSingle_write hopen hwrite ha hsize hin hr
  refine ⟨f, ?_, hheader, hcontent⟩
  unfold Framer.readFrame
  rw [hsingle]
  have hnone : (fr.accepted f rest).readMetaHeaders = none := hmeta
  simp only [hnone]
  cases f.continuable? <;> rfl

end

theorem readFrames_of_order (g : HttpGuts) (calls : List WriteCall) {fr : Framer} {rest : Bytes}
    {openStream : Option UInt32} (hmeta : fr.readMetaHeaders = none)
    (hopen : fr.allowIllegalReads = false → fr.lastHeaderStream = openStream.getD 0)
    (hwrite : writeAll false calls = .ok bytes) (hr : fr.r = bytes ++ rest)
    (ha : ∀ c ∈ calls, c.Admissible) (hsize : ∀ c ∈ calls, c.payload.length ≤ fr.maxReadSize.toNat)
    (horder : WriteCall.LegalOrder openStream calls) :
    ∃ frames fr', fr.readFrames g calls.length = (frames.map .ok, fr') ∧ fr'.r = rest ∧
      List.Forall₂ SameFrame calls frames := by
  induction calls generalizing fr bytes openStream with
  | nil =>
    cases hwrite
    exact ⟨[], fr, rfl, hr, List.Forall₂.nil⟩
  | cons c cs ih =>
    obtain ⟨b, bs, hb, hbs, rfl⟩ := writeAll_cons hwrite
    rw [append_assoc] at hr
    obtain ⟨f, hread, hheader, hcontent⟩ := readFrame_write hopen hb
      (ha c List.mem_cons_self) (hsize c List.mem_cons_self) horder.1 hr g hmeta
    have hopen' : (fr.accepted f (bs ++ rest)).allowIllegalReads = false →
        (fr.accepted f (bs ++ rest)).lastHeaderStream = (c.openAfter openStream).getD 0 := by
      intro hallow
      have hfalse : fr.allowIllegalReads = false := hallow
      unfold Framer.accepted
      rw [hfalse, hheader]
      exact WriteCall.headerStreamAfter_header (hopen hallow)
    have hmeta' : (fr.accepted f (bs ++ rest)).readMetaHeaders = none := hmeta
    obtain ⟨frames, fr', hreads, hrest, hsame⟩ := ih hmeta' hopen' hbs rfl
      (fun c' hc' => ha c' (List.mem_cons_of_mem _ hc'))
      (fun c' hc' => hsize c' (List.mem_cons_of_mem _ hc')) horder.2
    refine ⟨f :: frames, fr', ?_, hrest, List.Forall₂.cons ?_ hsame⟩
    · simp only [List.length_cons, Framer.readFrames, hread, hreads, List.map_cons]
    · exact ⟨by rw [hheader]; rfl, by rw [hheader]; rfl, by rw [hheader]; rfl, hcontent⟩

/-- The frame codec.  A sequence of `Write` calls in a legal order, which all
return nil, is read back as the same frames in the same order. -/
theorem readFrames_writeAll (g : HttpGuts) (calls : List WriteCall) {fr : Framer}
    {bytes rest : Bytes} (hmeta : fr.readMetaHeaders = none) (hstart : fr.lastHeaderStream = 0)
    (hwrite : writeAll false calls = .ok bytes) (hr : fr.r = bytes ++ rest)
    (ha : ∀ c ∈ calls, c.Admissible) (hsize : ∀ c ∈ calls, c.payload.length ≤ fr.maxReadSize.toNat)
    (horder : WriteCall.LegalOrder none calls) :
    ∃ frames fr', fr.readFrames g calls.length = (frames.map .ok, fr') ∧ fr'.r = rest ∧
      List.Forall₂ SameFrame calls frames := by
  have hopen : fr.allowIllegalReads = false →
      fr.lastHeaderStream = (none : Option UInt32).getD 0 := fun _ => hstart
  exact readFrames_of_order g calls hmeta hopen hwrite hr ha hsize horder

/-- A `HEADERS` frame with priority and padding, its `CONTINUATION` frame, a padded
`DATA` frame and a `SETTINGS` frame. -/
def sampleCalls : List WriteCall :=
  [.headers
      { streamID := 1
        blockFragment := [0x82]
        padLength := 2
        priority := { streamDep := 3, exclusive := true, weight := 15 } },
    .continuation 1 true [0x84],
    .data 1 true [0x68, 0x69] (some [0]),
    .settings [⟨SettingID.initialWindowSize, 65535⟩]]

theorem readFrames_writeAll_sample :
    ∃ bytes, writeAll false sampleCalls = .ok bytes ∧
      ∃ frames fr', (Framer.new bytes).readFrames ⟨fun _ => true, fun _ => true⟩ 4 =
          (frames.map .ok, fr') ∧
        fr'.r = [] ∧ List.Forall₂ SameFrame sampleCalls frames := by
  have hsettings : (⟨SettingID.initialWindowSize, 65535⟩ : Setting).valid = .ok () := rfl
  have hadmissible : ∀ c ∈ sampleCalls, c.Admissible := by
    intro c hc
    simp only [sampleCalls, List.mem_cons, List.not_mem_nil, or_false] at hc
    rcases hc with rfl | rfl | rfl | rfl
    · exact List.cons_ne_nil _ _
    · trivial
    · trivial
    · intro s hs
      rw [List.mem_singleton.mp hs]
      exact hsettings
  refine ⟨_, rfl, ?_⟩
  exact readFrames_writeAll ⟨fun _ => true, fun _ => true⟩ sampleCalls rfl rfl rfl
    (List.append_nil _).symm hadmissible (by decide) ⟨rfl, rfl, rfl, rfl, trivial⟩

end Fhttp.Http2
