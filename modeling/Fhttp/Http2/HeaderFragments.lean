import Fhttp.Lib.Fragments
import Fhttp.Http2.FrameCodec
import Fhttp.Http2.HeaderBlock

/-!
# Writing a header block

A header block is written as one `HEADERS` or `PUSH_PROMISE` frame and as many
`CONTINUATION` frames as it takes.  The client does this in `ClientConn.writeHeaders`,
the server in `splitHeaderBlock`, which gets what to write for a fragment as a
function.  The loops are the same but for two things: the server uses the least frame
size that every peer must allow and stops at the first frame that its framer refuses,
while the client uses the frame size of the peer and drops the results of the framer.

`CarriesBlock` says what the frames should be, and `CarriesBlock.decodedByPeer` that a
framer that merges header frames then decodes the header block that was written.
-/

namespace Fhttp.Http2

open Hpack (Bytes Decoder)
open Lib
open WriteCall
open List

/-! ## The loops -/

/-- What is written for a fragment, when it is the first one and when it is the last. -/
abbrev FragmentCall := (frag : Bytes) → (firstFrag lastFrag : Bool) → WriteCall

namespace ClientConn

/-- The priority of every header block, unless `Transport.HeaderPriority` is set. -/
def defaultHeaderPriorityParam : PriorityParam where
  exclusive := true
  weight := 255
  streamDep := 0

/-- The call of the framer for a fragment. -/
def headersCall (headerPriority : Option PriorityParam) (streamID : UInt32) (endStream : Bool) :
    FragmentCall := fun chunk first endHeaders =>
  if first then
    .headers {
      streamID := streamID
      blockFragment := chunk
      endStream := endStream
      endHeaders := endHeaders
      priority := headerPriority.getD defaultHeaderPriorityParam }
  else .continuation streamID endHeaders chunk

/-- The loop of `writeHeaders`: the calls that it makes.  Their results are dropped. -/
def writeHeadersLoop (headerPriority : Option PriorityParam) (streamID : UInt32)
    (endStream : Bool) (maxFrameSize : Nat) :
    Nat → Bool → Bytes → Except Panic.Fault (List WriteCall)
  | _, _, [] => .ok []
  | 0, _, _ :: _ => .error .diverges
  | fuel + 1, first, b :: hdrs => do
    let chunk :=
      if (b :: hdrs).length > maxFrameSize then (b :: hdrs).take maxFrameSize else b :: hdrs
    let hdrs := (b :: hdrs).drop chunk.length
    let calls ← writeHeadersLoop headerPriority streamID endStream maxFrameSize fuel false hdrs
    .ok (headersCall headerPriority streamID endStream chunk first hdrs.isEmpty :: calls)

/-- `writeHeaders`, while the connection can be written to (`cc.werr` is nil). -/
def writeHeaders (headerPriority : Option PriorityParam) (streamID : UInt32) (endStream : Bool)
    (maxFrameSize : Nat) (hdrs : Bytes) : Except Panic.Fault (List WriteCall) :=
  writeHeadersLoop headerPriority streamID endStream maxFrameSize hdrs.length true hdrs

end ClientConn

/-- The loop of `splitHeaderBlock`: the frames that were written, and the error of the
call that ended it. -/
def splitHeaderBlockLoop (fn : FragmentCall) (maxFrameSize : Nat) :
    Nat → Bool → Bytes → Except Panic.Fault (List WriteCall × Option WriteError)
  | _, _, [] => .ok ([], none)
  | 0, _, _ :: _ => .error .diverges
  | fuel + 1, first, b :: headerBlock =>
    let frag :=
      if (b :: headerBlock).length > maxFrameSize then (b :: headerBlock).take maxFrameSize
      else b :: headerBlock
    let headerBlock := (b :: headerBlock).drop frag.length
    let call := fn frag first headerBlock.isEmpty
    match call.write false with
    | .error err => .ok ([], some err)
    | .ok _ => do
      let (calls, err) ← splitHeaderBlockLoop fn maxFrameSize fuel false headerBlock
      .ok (call :: calls, err)

/-- `splitHeaderBlock`.  The frame size is the least that every peer must allow. -/
def splitHeaderBlock (headerBlock : Bytes) (fn : FragmentCall) :
    Except Panic.Fault (List WriteCall × Option WriteError) :=
  splitHeaderBlockLoop fn 16384 headerBlock.length true headerBlock

/-- `writeResHeaders.writeHeaderBlock`. -/
def writeResHeaders.writeHeaderBlock (streamID : UInt32) (endStream : Bool) : FragmentCall :=
  fun frag firstFrag lastFrag =>
    if firstFrag then
      .headers {
        streamID := streamID
        blockFragment := frag
        endStream := endStream
        endHeaders := lastFrag }
    else .continuation streamID lastFrag frag

/-- `writePushPromise.writeHeaderBlock`. -/
def writePushPromise.writeHeaderBlock (streamID promisedID : UInt32) : FragmentCall :=
  fun frag firstFrag lastFrag =>
    if firstFrag then
      .pushPromise {
        streamID := streamID
        promiseID := promisedID
        blockFragment := frag
        endHeaders := lastFrag }
    else .continuation streamID lastFrag frag

/-! ## The calls are those for the pieces of the block -/

/-- The calls for the fragments of a block. -/
def blockCalls (fn : FragmentCall) : Bool → List Bytes → List WriteCall
  | _, [] => []
  | first, frag :: frags => fn frag first frags.isEmpty :: blockCalls fn false frags

/-- The calls are made in order, up to the first that is refused. -/
def writeUntilError : List WriteCall → List WriteCall × Option WriteError
  | [] => ([], none)
  | c :: cs =>
    match c.write false with
    | .error err => ([], some err)
    | .ok _ => (c :: (writeUntilError cs).1, (writeUntilError cs).2)

theorem take_of_chunk (m : Nat) (l : Bytes) :
    (if l.length > m then l.take m else l) = l.take m := by
  split
  · rfl
  · exact (take_of_length_le (by omega)).symm

theorem drop_length_take (m : Nat) (l : Bytes) : l.drop (l.take m).length = l.drop m := by
  rw [length_take]
  rcases Nat.le_total m l.length with hle | hle
  · rw [Nat.min_eq_left hle]
  · rw [Nat.min_eq_right hle, drop_length, drop_of_length_le hle]

theorem ClientConn.writeHeadersLoop_eq (headerPriority : Option PriorityParam) (streamID : UInt32)
    (endStream : Bool) (m fuel : Nat) (first : Bool) (block : Bytes) :
    writeHeadersLoop headerPriority streamID endStream m fuel first block =
      (Fragments.split m fuel block).map
        (blockCalls (headersCall headerPriority streamID endStream) first) := by
  induction fuel generalizing block first with
  | zero => cases block <;> rfl
  | succ fuel ih =>
    cases block with
    | nil => rfl
    | cons b block =>
      simp only [writeHeadersLoop, take_of_chunk, drop_length_take, ih, Fragments.split]
      cases hsplit : Fragments.split m fuel ((b :: block).drop m) with
      | error e => rfl
      | ok pieces =>
        simp only [Except.map, bind, Except.bind, blockCalls, Fragments.isEmpty_of_split hsplit]

variable {block : Bytes} {calls : List WriteCall} {c : WriteCall} {fn : FragmentCall}
  {streamID : UInt32} {frags : List Bytes} {accepted : Prop}

theorem splitHeaderBlockLoop_eq (fn : FragmentCall) {m fuel : Nat} {first : Bool}
    {pieces : List Bytes} (h : Fragments.split m fuel block = .ok pieces) :
    splitHeaderBlockLoop fn m fuel first block =
      .ok (writeUntilError (blockCalls fn first pieces)) := by
  induction fuel generalizing block first pieces with
  | zero =>
    cases block with
    | nil =>
      cases h
      rfl
    | cons b block => cases h
  | succ fuel ih =>
    cases block with
    | nil =>
      cases h
      rfl
    | cons b block =>
      rw [Fragments.split] at h
      cases hsplit : Fragments.split m fuel ((b :: block).drop m) with
      | error e =>
        rw [hsplit] at h
        cases h
      | ok rest =>
        rw [hsplit] at h
        cases h
        simp only [splitHeaderBlockLoop, take_of_chunk, drop_length_take, blockCalls,
          writeUntilError, Fragments.isEmpty_of_split hsplit]
        cases (fn ((b :: block).take m) first ((b :: block).drop m).isEmpty).write false with
        | error err => rfl
        | ok bytes =>
          simp only [ih hsplit]
          rfl

/-! ## Which calls write a frame -/

theorem isOk_endWrite (t : FrameType) (flags : Flags) (streamID : UInt32) (payload : Bytes) :
    (endWrite (startWrite t flags streamID ++ payload)).isOk =
      decide (payload.length < 2 ^ 24) := by
  rw [endWrite_startWrite]
  by_cases h : payload.length < 2 ^ 24
  · rw [if_pos h, decide_eq_true h]
    rfl
  · rw [if_neg h, decide_eq_false h]
    rfl

/-- A check at the start of a `Write` method. -/
theorem isOk_check {ε α : Type} (c : Bool) (e : ε) (x : Except ε α) :
    (if (!c && !false) = true then .error e else x).isOk = (c && x.isOk) := by
  cases c <;> rfl

theorem isOk_headers (p : HeadersFrameParam) :
    ((headers p).write false).isOk = true ↔
      (headers p).Checked ∧ (headers p).payload.length < 2 ^ 24 := by
  rw [write, writeHeaders, isOk_check, Bool.and_eq_true, Checked, and_assoc, and_congr_right_iff]
  intro _
  cases hzero : p.priority.isZero with
  | true =>
    simp only [Bool.not_true, Bool.false_and, Bool.false_eq_true, if_false, isOk_endWrite,
      decide_eq_true_eq, reduceCtorEq, false_implies, true_and, payload, hzero, if_true]
  | false =>
    rw [show ∀ b, (!false && b) = b from fun _ => rfl, isOk_check, isOk_endWrite,
      Bool.and_eq_true, decide_eq_true_eq]
    simp only [true_implies, payload, hzero]

theorem isOk_pushPromise (p : PushPromiseParam) :
    ((pushPromise p).write false).isOk = true ↔
      (pushPromise p).Checked ∧ (pushPromise p).payload.length < 2 ^ 24 := by
  rw [write, writePushPromise, isOk_check, isOk_check, isOk_endWrite, Bool.and_eq_true,
    Bool.and_eq_true, decide_eq_true_eq, Checked, and_assoc]
  rfl

theorem isOk_continuation (id : UInt32) (endHeaders : Bool) (frag : Bytes) :
    ((continuation id endHeaders frag).write false).isOk = true ↔
      validStreamID id = true ∧ frag.length < 2 ^ 24 := by
  rw [write, writeContinuation, isOk_check, isOk_endWrite, Bool.and_eq_true,
    decide_eq_true_eq]

/-! ## The frames of a header block -/

/-- The frames that calls of the framer write, when their results are dropped. -/
def framesWritten (calls : List WriteCall) : List WriteCall :=
  calls.filter fun c => (c.write false).isOk

theorem framesWritten_cons (c : WriteCall) (calls : List WriteCall) :
    framesWritten (c :: calls) =
      if (c.write false).isOk = true then c :: framesWritten calls else framesWritten calls :=
  filter_cons

theorem mem_framesWritten :
    c ∈ framesWritten calls ↔ c ∈ calls ∧ (c.write false).isOk = true := mem_filter

/-- The `CONTINUATION` frames for fragments: the last one ends the header block. -/
def continuations (streamID : UInt32) : List Bytes → List WriteCall
  | [] => []
  | frag :: frags => .continuation streamID frags.isEmpty frag :: continuations streamID frags

/-- The frames carry the header block: first the one that `opening` makes for its
fragment, with `END_HEADERS` if it is the only one, then `CONTINUATION` frames of the
same stream, with `END_HEADERS` on the last. -/
def CarriesBlock (opening : Bytes → Bool → WriteCall) (streamID : UInt32) (block : Bytes)
    (frames : List WriteCall) : Prop :=
  ∃ frag frags, frames = opening frag frags.isEmpty :: continuations streamID frags ∧
    frag ++ frags.flatten = block ∧ frag ≠ []

theorem blockCalls_false
    (hcont : ∀ frag last, fn frag false last = .continuation streamID last frag)
    (frags : List Bytes) : blockCalls fn false frags = continuations streamID frags := by
  induction frags with
  | nil => rfl
  | cons frag frags ih => rw [blockCalls, continuations, ih, hcont]

theorem mem_continuations (h : c ∈ continuations streamID frags) :
    ∃ frag ∈ frags, ∃ last, c = .continuation streamID last frag := by
  induction frags with
  | nil => cases h
  | cons frag frags ih =>
    rcases mem_cons.mp h with rfl | h
    · exact ⟨frag, mem_cons_self, _, rfl⟩
    · obtain ⟨frag', hmem, last, rfl⟩ := ih h
      exact ⟨frag', mem_cons_of_mem _ hmem, last, rfl⟩

theorem continuation_mem {frag : Bytes} (h : frag ∈ frags) :
    ∃ last, .continuation streamID last frag ∈ continuations streamID frags := by
  induction frags with
  | nil => cases h
  | cons frag' frags ih =>
    rcases mem_cons.mp h with rfl | h
    · exact ⟨_, mem_cons_self⟩
    · obtain ⟨last, hmem⟩ := ih h
      exact ⟨last, mem_cons_of_mem _ hmem⟩

section

variable {fn : FragmentCall} {streamID : UInt32} {m : Nat} {block : Bytes} {pieces : List Bytes}

/-- The calls for the pieces of a block that is not empty. -/
theorem blockCalls_pieces
    (hcont : ∀ frag last, fn frag false last = .continuation streamID last frag)
    (hpieces : Fragments.Pieces m block pieces) (hblock : block ≠ []) :
    ∃ frags, blockCalls fn true pieces =
        fn (block.take m) true frags.isEmpty :: continuations streamID frags ∧
      block.take m ++ frags.flatten = block ∧ block.take m ≠ [] ∧
      (∀ frag ∈ frags, frag.length ≤ m) ∧ (block.length ≤ m → frags = []) := by
  have hhead := hpieces.head?
  rw [if_neg hblock] at hhead
  obtain ⟨frags, rfl⟩ := head?_eq_some_iff.mp hhead
  have hne : block.take m ≠ [] := hpieces.ne_nil _ mem_cons_self
  have hflat := hpieces.flatten
  refine ⟨frags, ?_, hflat, hne, ?_, ?_⟩
  · rw [blockCalls, blockCalls_false hcont]
  · exact fun frag h => hpieces.length_le frag (mem_cons_of_mem _ h)
  · intro hle
    rw [flatten_cons, take_of_length_le hle] at hflat
    have hempty : frags.flatten = [] := by
      simpa using hflat
    cases frags with
    | nil => rfl
    | cons frag frags =>
      have hnil := flatten_eq_nil_iff.mp hempty frag mem_cons_self
      exact (hpieces.ne_nil frag (mem_cons_of_mem _ mem_cons_self) hnil).elim

end

theorem framesWritten_continuations (hid : validStreamID streamID = true)
    (hlen : ∀ frag ∈ frags, frag.length < 2 ^ 24) :
    framesWritten (continuations streamID frags) = continuations streamID frags := by
  refine filter_eq_self.mpr fun c hc => ?_
  obtain ⟨frag, hmem, last, rfl⟩ := mem_continuations hc
  exact (isOk_continuation ..).mpr ⟨hid, hlen frag hmem⟩

theorem isOk_of_mem_writeUntilError (h : c ∈ (writeUntilError calls).1) :
    (c.write false).isOk = true := by
  induction calls with
  | nil => cases h
  | cons c' cs ih =>
    rw [writeUntilError] at h
    cases hwrite : c'.write false with
    | error e =>
      rw [hwrite] at h
      cases h
    | ok bytes =>
      rw [hwrite] at h
      rcases mem_cons.mp h with rfl | h
      · rw [hwrite]
        rfl
      · exact ih h

theorem writeUntilError_of_isOk (h : ∀ c ∈ calls, (c.write false).isOk = true) :
    writeUntilError calls = (calls, none) := by
  induction calls with
  | nil => rfl
  | cons c cs ih =>
    rw [forall_mem_cons] at h
    rw [writeUntilError, ih h.2]
    cases hwrite : c.write false with
    | error e =>
      rw [hwrite] at h
      cases h.1
    | ok bytes => rfl

/-! ### The client -/

namespace ClientConn

/-- The framer takes a `HEADERS` frame with a fragment of `n` octets.  The priority has
five octets. -/
def HeadersAccepted (priority : PriorityParam) (streamID : UInt32) (n : Nat) : Prop :=
  validStreamID streamID = true ∧
    (priority.isZero = false → validStreamIDOrZero priority.streamDep = true) ∧
    n + (if priority.isZero then 0 else 5) < 2 ^ 24

instance decidableHeadersAccepted (priority : PriorityParam) (streamID : UInt32) (n : Nat) :
    Decidable (HeadersAccepted priority streamID n) :=
  inferInstanceAs (Decidable (_ ∧ (_ → _) ∧ _))

section

variable (headerPriority : Option PriorityParam) (streamID : UInt32) (endStream : Bool)

theorem length_payload_headersCall (chunk : Bytes) (last : Bool) :
    (headersCall headerPriority streamID endStream chunk true last).payload.length =
      chunk.length +
        if (headerPriority.getD defaultHeaderPriorityParam).isZero then 0 else 5 := by
  simp only [headersCall, if_true, payload, padLengthBytes, padZeros, length_append]
  cases (headerPriority.getD defaultHeaderPriorityParam).isZero with
  | true =>
    simp
  | false =>
    simp [writePriorityParam]
    omega

theorem isOk_headersCall (chunk : Bytes) (last : Bool) :
    ((headersCall headerPriority streamID endStream chunk true last).write false).isOk = true ↔
      HeadersAccepted (headerPriority.getD defaultHeaderPriorityParam) streamID chunk.length := by
  have hlen := length_payload_headersCall headerPriority streamID endStream chunk last
  simp only [headersCall, if_true] at hlen ⊢
  rw [isOk_headers, hlen, Checked, and_assoc]
  rfl

variable {m : Nat}

theorem writeHeaders_eq (hm : 0 < m) (hdrs : Bytes) :
    ∃ pieces, Fragments.Pieces m hdrs pieces ∧
      writeHeaders headerPriority streamID endStream m hdrs =
        .ok (blockCalls (headersCall headerPriority streamID endStream) true pieces) := by
  obtain ⟨pieces, hsplit, hpieces⟩ := Fragments.split_ok hm (Nat.le_refl hdrs.length)
  refine ⟨pieces, hpieces, ?_⟩
  rw [writeHeaders, writeHeadersLoop_eq, hsplit]
  rfl

theorem headersCall_false (frag : Bytes) (last : Bool) :
    headersCall headerPriority streamID endStream frag false last =
      .continuation streamID last frag := rfl

/-- The client writes the header block if and only if its framer takes the first frame. -/
theorem writeHeaders_carriesBlock (hm : 0 < m) {hdrs : Bytes} (hne : hdrs ≠ []) :
    ∃ calls, writeHeaders headerPriority streamID endStream m hdrs = .ok calls ∧
      (CarriesBlock (headersCall headerPriority streamID endStream · true ·) streamID hdrs
          (framesWritten calls) ↔
        HeadersAccepted (headerPriority.getD defaultHeaderPriorityParam) streamID
          (min m hdrs.length)) := by
  obtain ⟨pieces, hpieces, heq⟩ := writeHeaders_eq headerPriority streamID endStream hm hdrs
  refine ⟨_, heq, ?_⟩
  obtain ⟨frags, hcalls, hflat, htake, hle, hone⟩ :=
    blockCalls_pieces (headersCall_false headerPriority streamID endStream) hpieces hne
  have haccepted := isOk_headersCall headerPriority streamID endStream (hdrs.take m) frags.isEmpty
  rw [length_take] at haccepted
  rw [hcalls, ← haccepted]
  constructor
  · rintro ⟨frag, frags', hframes, -⟩
    by_contra hrefused
    rw [framesWritten_cons, if_neg hrefused] at hframes
    have hmem : headersCall headerPriority streamID endStream frag true frags'.isEmpty ∈
        framesWritten (continuations streamID frags) := by
      rw [hframes]
      exact mem_cons_self
    obtain ⟨_, _, _, hcont⟩ := mem_continuations (mem_framesWritten.mp hmem).1
    cases hcont
  · intro hok
    refine ⟨hdrs.take m, frags, ?_, hflat, htake⟩
    obtain ⟨hid, _, hsize⟩ := haccepted.mp hok
    have hfrags : ∀ frag ∈ frags, frag.length < 2 ^ 24 := by
      intro frag hmem
      have hlong : ¬ hdrs.length ≤ m := by
        intro hshort
        rw [hone hshort] at hmem
        cases hmem
      have hlen := hle frag hmem
      omega
    rw [framesWritten_cons, if_pos hok, framesWritten_continuations hid hfrags]

/-- The payloads are within the frame size of the peer, unless the first frame has a
full fragment and a priority. -/
theorem writeHeaders_payload_le_iff {m : Nat} (hm : 16384 ≤ m) (hdrs : Bytes) :
    ∃ calls, writeHeaders headerPriority streamID endStream m hdrs = .ok calls ∧
      ((∀ c ∈ framesWritten calls, c.payload.length ≤ m) ↔
        (headerPriority.getD defaultHeaderPriorityParam).isZero = true ∨
        hdrs.length + 5 ≤ m ∨
        ¬ HeadersAccepted (headerPriority.getD defaultHeaderPriorityParam) streamID
          (min m hdrs.length)) := by
  obtain ⟨pieces, hpieces, heq⟩ :=
    writeHeaders_eq headerPriority streamID endStream (show 0 < m by omega) hdrs
  refine ⟨_, heq, ?_⟩
  by_cases hne : hdrs = []
  · rw [hne] at hpieces ⊢
    have hnone := hpieces.head?
    rw [if_pos rfl, head?_eq_none_iff] at hnone
    rw [hnone]
    refine iff_of_true (fun c hc => ?_) (Or.inr (Or.inl ?_))
    · cases hc
    · rw [length_nil]
      omega
  obtain ⟨frags, hcalls, -, -, hle, -⟩ :=
    blockCalls_pieces (headersCall_false headerPriority streamID endStream) hpieces hne
  have haccepted := isOk_headersCall headerPriority streamID endStream (hdrs.take m) frags.isEmpty
  have hlen := length_payload_headersCall headerPriority streamID endStream (hdrs.take m)
    frags.isEmpty
  rw [length_take] at haccepted hlen
  have hfirst : (∀ c ∈ framesWritten
        (blockCalls (headersCall headerPriority streamID endStream) true pieces),
      c.payload.length ≤ m) ↔
        (HeadersAccepted (headerPriority.getD defaultHeaderPriorityParam) streamID
            (min m hdrs.length) →
          (headersCall headerPriority streamID endStream (hdrs.take m) true
            frags.isEmpty).payload.length ≤ m) := by
    rw [hcalls]
    constructor
    · exact fun h hok => h _ (mem_framesWritten.mpr ⟨mem_cons_self, haccepted.mpr hok⟩)
    · intro h c hc
      obtain ⟨hmem, hok⟩ := mem_framesWritten.mp hc
      rcases mem_cons.mp hmem with rfl | hmem
      · exact h (haccepted.mp hok)
      · obtain ⟨frag, hfrag, last, rfl⟩ := mem_continuations hmem
        exact hle frag hfrag
  rw [hfirst, hlen]
  cases (headerPriority.getD defaultHeaderPriorityParam).isZero with
  | true => exact iff_of_true (fun _ => Nat.min_le_left _ _) (Or.inl rfl)
  | false =>
    simp only [Bool.false_eq_true, if_false, false_or]
    rw [imp_iff_or_not]
    refine or_congr_left ?_
    omega

end

theorem writeHeaders_payload_le_iff_small :
    ∃ calls, writeHeaders none 1 true 16384 [0x82, 0x84] = .ok calls ∧
      ∀ c ∈ framesWritten calls, c.payload.length ≤ 16384 := by
  obtain ⟨calls, heq, hiff⟩ :=
    writeHeaders_payload_le_iff none 1 true (Nat.le_refl 16384) [0x82, 0x84]
  exact ⟨calls, heq, hiff.mpr (Or.inr (Or.inl (by decide)))⟩

/-- A header block that just fits, with the default priority. -/
theorem full_first_frame :
    ∃ calls, writeHeaders none 1 true 16384 (List.replicate 16384 0x82) = .ok calls ∧
      ∃ c ∈ framesWritten calls, 16384 < c.payload.length := by
  obtain ⟨pieces, hpieces, heq⟩ :=
    writeHeaders_eq none 1 true (show 0 < 16384 by decide) (replicate 16384 0x82)
  have hne : replicate 16384 (0x82 : UInt8) ≠ [] := by
    decide
  obtain ⟨frags, hcalls, -⟩ := blockCalls_pieces (headersCall_false none 1 true) hpieces hne
  refine ⟨_, heq, headersCall none 1 true ((replicate 16384 0x82).take 16384) true
    frags.isEmpty, mem_framesWritten.mpr ⟨?_, ?_⟩, ?_⟩
  · rw [hcalls]
    exact mem_cons_self
  · rw [isOk_headersCall, length_take, length_replicate]
    decide
  · rw [length_payload_headersCall, length_take, length_replicate]
    decide

end ClientConn

/-! ### The server -/

/-- `splitHeaderBlock` writes the header block under a condition. -/
def CarriedIf (fn : FragmentCall) (streamID : UInt32) (block : Bytes) (accepted : Prop) : Prop :=
  ∃ calls err, splitHeaderBlock block fn = .ok (calls, err) ∧
    (∀ c ∈ calls, (c.write false).isOk = true) ∧
    (err = none ∧ CarriesBlock (fn · true ·) streamID block calls ↔ accepted)

/-- `splitHeaderBlock` writes the header block if and only if the framer takes the first
frame, which does not depend on the fragment. -/
theorem splitHeaderBlock_carriesBlock
    (hcont : ∀ frag last, fn frag false last = .continuation streamID last frag)
    (hfirst : ∀ frag last, frag.length ≤ 16384 →
      (((fn frag true last).write false).isOk = true ↔ accepted))
    (hid : accepted → validStreamID streamID = true) (hne : block ≠ []) :
    CarriedIf fn streamID block accepted := by
  obtain ⟨pieces, hsplit, hpieces⟩ :=
    Fragments.split_ok (show 0 < 16384 by decide) (Nat.le_refl block.length)
  obtain ⟨frags, hcalls, hflat, htake, hle, -⟩ := blockCalls_pieces hcont hpieces hne
  have hok := hfirst (block.take 16384) frags.isEmpty (length_take_le _ _)
  refine ⟨_, _, splitHeaderBlockLoop_eq fn hsplit, fun c => isOk_of_mem_writeUntilError, ?_⟩
  rw [hcalls, ← hok]
  constructor
  · rintro ⟨herr, -⟩
    rw [writeUntilError] at herr
    cases hwrite : (fn (block.take 16384) true frags.isEmpty).write false with
    | error e =>
      rw [hwrite] at herr
      cases herr
    | ok bytes => rfl
  · intro hok'
    have hall : ∀ c ∈ fn (block.take 16384) true frags.isEmpty :: continuations streamID frags,
        (c.write false).isOk = true := by
      rw [forall_mem_cons]
      refine ⟨hok', fun c hc => ?_⟩
      obtain ⟨frag, hmem, last, rfl⟩ := mem_continuations hc
      have hlen := hle frag hmem
      exact (isOk_continuation ..).mpr ⟨hid (hok.mp hok'), by omega⟩
    rw [writeUntilError_of_isOk hall]
    exact ⟨rfl, _, frags, rfl, hflat, htake⟩

theorem writeResHeaders.carriesBlock (streamID : UInt32) (endStream : Bool) (hne : block ≠ []) :
    CarriedIf (writeHeaderBlock streamID endStream) streamID block
      (validStreamID streamID = true) := by
  refine splitHeaderBlock_carriesBlock (fun _ _ => rfl) (fun frag last hlen => ?_) id hne
  simp only [writeHeaderBlock, if_true]
  rw [isOk_headers]
  simp only [Checked, payload, show PriorityParam.isZero {} = true from rfl,
    padLengthBytes, padZeros, reduceCtorEq, false_implies, and_true]
  refine and_iff_left ?_
  simp
  omega

theorem writePushPromise.carriesBlock (streamID promisedID : UInt32) (hne : block ≠ []) :
    CarriedIf (writeHeaderBlock streamID promisedID) streamID block
      (validStreamID streamID = true ∧ validStreamID promisedID = true) := by
  refine splitHeaderBlock_carriesBlock (fun _ _ => rfl) (fun frag last hlen => ?_) And.left hne
  simp only [writeHeaderBlock, if_true]
  rw [isOk_pushPromise]
  simp only [Checked, payload, padLengthBytes, padZeros]
  refine and_iff_left ?_
  simp
  omega

/-! ## The peer reads the header block -/

namespace Framer

/-- The result of `readMetaFrame` after the fragments were written to the decoder. -/
def decoded (cont : Frame) : Option Hpack.Err × Decoder × MetaState → Except Error Frame
  | (some _, _, _) => .error (.connectionError .compression)
  | (none, hdec, s) => ((Framer.new []).finishMeta hdec s cont).1

theorem finishMeta_fst (fr fr' : Framer) (hdec : Decoder) (s : MetaState) (cont : Frame) :
    (fr.finishMeta hdec s cont).1 = (fr'.finishMeta hdec s cont).1 := by
  unfold finishMeta
  split
  · rfl
  · split
    · rfl
    · split <;> rfl

theorem finishMeta_r (fr : Framer) (hdec : Decoder) (s : MetaState) (cont : Frame) :
    (fr.finishMeta hdec s cont).2.r = fr.r := by
  unfold finishMeta
  split
  · rfl
  · split
    · rfl
    · split <;> rfl

variable {fr : Framer}

theorem readSingle_continuation {id : UInt32} {frag bytes rest : Bytes} {last : Bool}
    (hallow : fr.allowIllegalReads = false) (hopen : fr.lastHeaderStream = id)
    (hwrite : (continuation id last frag).write false = .ok bytes)
    (hsize : frag.length ≤ fr.maxReadSize.toNat) (hr : fr.r = bytes ++ rest) :
    ∃ fh fr', fr.readSingle = (.ok (.continuation fh frag), fr') ∧
      fh.flags.has flagContinuationEndHeaders = last ∧ fr'.r = rest ∧
      fr'.lastHeaderStream = (if last then 0 else id) ∧ fr'.allowIllegalReads = false ∧
      fr'.maxReadSize = fr.maxReadSize := by
  have hopen' : fr.lastHeaderStream = (some id).getD 0 := hopen
  obtain ⟨f, hread, hheader, hcontent⟩ :=
    readSingle_write (fun _ => hopen') hwrite trivial hsize rfl hr
  cases f with
  | continuation fh frag' =>
    obtain rfl : frag' = frag := hcontent
    obtain rfl : fh = _ := hheader
    refine ⟨_, _, hread, continuationFlags_endHeaders last, rfl, ?_, hallow, rfl⟩
    show (if fr.allowIllegalReads = true then _ else fr.headerStreamAfter _) = _
    rw [hallow, if_neg (by decide)]
    refine (headerStreamAfter_header hopen').trans ?_
    cases last <;> rfl
  | _ => cases hcontent

section

variable {g : HttpGuts} {fr : Framer} {hdec : Decoder} {s : MetaState} {frag : Bytes}

theorem metaLoop_error {e : Hpack.Err} (h : (hdec.write (metaEmit g) s frag).err = some e)
    (ended : Bool) :
    (metaLoop g fr hdec s frag ended).1 = .error (.connectionError .compression) := by
  rw [metaLoop]
  simp only [h, Option.isSome_some, if_true]

theorem metaLoop_ended (h : (hdec.write (metaEmit g) s frag).err = none) :
    metaLoop g fr hdec s frag true =
      (.ok ((hdec.write (metaEmit g) s frag).d, (hdec.write (metaEmit g) s frag).s),
        { fr with readMetaHeaders := some (hdec.write (metaEmit g) s frag).d }) := by
  rw [metaLoop]
  simp only [h, Option.isSome_none, Bool.false_eq_true, if_false, if_true]

theorem metaLoop_next {fr' : Framer} {fh : FrameHeader} {frag' : Bytes}
    (h : (hdec.write (metaEmit g) s frag).err = none)
    (hread : readSingle { fr with readMetaHeaders := some (hdec.write (metaEmit g) s frag).d } =
      (.ok (.continuation fh frag'), fr')) :
    metaLoop g fr hdec s frag false =
      metaLoop g fr' (hdec.write (metaEmit g) s frag).d (hdec.write (metaEmit g) s frag).s frag'
        (fh.flags.has flagContinuationEndHeaders) := by
  rw [metaLoop]
  simp only [h, Option.isSome_none, Bool.false_eq_true, if_false]
  split
  · rename_i hread'
    rw [hread] at hread'
    cases hread'
  · rename_i hread'
    rw [hread] at hread'
    cases hread'
    rfl
  · rename_i hnot hread'
    rw [hread] at hread'
    cases hread'
    exact (hnot _ _ rfl).elim

end

/-- The decoder as `readMetaFrame` sets it up. -/
def metaDecoder (fr : Framer) (hdec : Decoder) : Decoder :=
  (hdec.setEmitEnabled true).setMaxStringLength fr.maxHeaderStringLen

/-- All fragments of a header block, written to the decoder. -/
def writeFragments (g : HttpGuts) (fr : Framer) (hdec : Decoder) (frags : List Bytes) :
    Option Hpack.Err × Decoder × MetaState :=
  Decoder.writeAll (metaEmit g) (fr.metaDecoder hdec) { remainSize := fr.maxHeaderListSize } frags

section

variable (g : HttpGuts) {id : UInt32} (frags : List Bytes) {fr : Framer} (hdec : Decoder)
  {bytes rest : Bytes} (hallow : fr.allowIllegalReads = false)
  (hopen : fr.lastHeaderStream = if frags.isEmpty then 0 else id)
  (hwrite : writeAll false (continuations id frags) = .ok bytes) (hr : fr.r = bytes ++ rest)
  (hsize : ∀ frag ∈ frags, frag.length ≤ fr.maxReadSize.toNat)

include hallow hopen hwrite hr hsize

/-- The loop of `readMetaFrame` writes the fragments of the `CONTINUATION` frames to the
decoder, up to the first error. -/
theorem metaLoop_continuations (s : MetaState) (frag : Bytes) :
    (∀ e, (Decoder.writeAll (metaEmit g) hdec s (frag :: frags)).1 = some e →
      (metaLoop g fr hdec s frag frags.isEmpty).1 = .error (.connectionError .compression)) ∧
    (∀ d s', Decoder.writeAll (metaEmit g) hdec s (frag :: frags) = (none, d, s') →
      ∃ fr', metaLoop g fr hdec s frag frags.isEmpty = (.ok (d, s'), fr') ∧ fr'.r = rest) := by
  induction frags generalizing fr hdec s frag bytes with
  | nil =>
    cases hwrite
    rw [Decoder.writeAll]
    cases herr : (hdec.write (metaEmit g) s frag).err with
    | some e =>
      refine ⟨fun _ _ => metaLoop_error herr _, fun d s' h => ?_⟩
      cases h
    | none =>
      refine ⟨fun e h => ?_, fun d s' h => ?_⟩
      · cases h
      · cases h
        exact ⟨_, metaLoop_ended herr, hr⟩
  | cons frag' frags ih =>
    rw [Decoder.writeAll]
    cases herr : (hdec.write (metaEmit g) s frag).err with
    | some e =>
      refine ⟨fun _ _ => metaLoop_error herr _, fun d s' h => ?_⟩
      cases h
    | none =>
      obtain ⟨b, bs, hb, hbs, rfl⟩ := writeAll_cons hwrite
      rw [forall_mem_cons] at hsize
      rw [append_assoc] at hr
      obtain ⟨fh, fr', hread, hlast, hr', hopen', hallow', hmax⟩ :=
        @readSingle_continuation
          { fr with readMetaHeaders := some (hdec.write (metaEmit g) s frag).d } id frag' b _
          frags.isEmpty hallow hopen hb hsize.1 hr
      rw [isEmpty_cons, metaLoop_next herr hread, hlast]
      refine ih _ hallow' hopen' hbs hr' (fun frag hfrag => ?_) _ _
      rw [hmax]
      exact hsize.2 frag hfrag

/-- `readMetaFrame` gives what the decoder gives for the fragments. -/
theorem readMetaFrame_continuations (cont : Frame) (frag : Bytes) :
    (fr.readMetaFrame g hdec cont frag frags.isEmpty).1 =
        decoded cont (fr.writeFragments g hdec (frag :: frags)) ∧
      ∀ f, (fr.readMetaFrame g hdec cont frag frags.isEmpty).1 = .ok f →
        (fr.readMetaFrame g hdec cont frag frags.isEmpty).2.r = rest := by
  obtain ⟨herror, hok⟩ := metaLoop_continuations g frags (fr.metaDecoder hdec) hallow hopen hwrite
    hr hsize { remainSize := fr.maxHeaderListSize } frag
  unfold readMetaFrame
  simp only [hallow, Bool.false_eq_true, if_false]
  rcases hres : fr.writeFragments g hdec (frag :: frags) with ⟨err, d, s⟩
  cases err with
  | some e =>
    have hloop := herror e (congrArg Prod.fst hres)
    unfold metaDecoder at hloop
    revert hloop
    rcases metaLoop g fr _ _ frag frags.isEmpty with ⟨res, fr'⟩
    rintro rfl
    exact ⟨rfl, fun f h => by cases h⟩
  | none =>
    obtain ⟨fr', hloop, hr'⟩ := hok d s hres
    unfold metaDecoder at hloop
    rw [hloop]
    exact ⟨finishMeta_fst _ _ _ _ _, fun _ _ => (finishMeta_r _ _ _ _).trans hr'⟩

end

theorem readMetaFrame_whole (g : HttpGuts) (hallow : fr.allowIllegalReads = false)
    (hclosed : fr.lastHeaderStream = 0) (hdec : Decoder) (cont : Frame) (block : Bytes) :
    (fr.readMetaFrame g hdec cont block true).1 =
      decoded cont (fr.writeFragments g hdec [block]) := by
  have hopen : fr.lastHeaderStream = if ([] : List Bytes).isEmpty then 0 else 0 := hclosed
  have hr : fr.r = [] ++ fr.r := rfl
  exact (readMetaFrame_continuations g [] hdec hallow hopen rfl hr nofun cont block).1

/-- The octets of one fragment or of several decode alike, unless a string is too long
for the peer. -/
theorem writeFragments_flatten (g : HttpGuts) (fr : Framer) (hdec : Decoder) (frags : List Bytes) :
    fr.writeFragments g hdec frags = fr.writeFragments g hdec [frags.flatten] ∨
      (fr.writeFragments g hdec frags).1 = some .errStringLength := by
  have hwhole : fr.writeFragments g hdec [frags.flatten] =
      (Decoder.write (metaEmit g) (fr.metaDecoder hdec) { remainSize := fr.maxHeaderListSize }
        frags.flatten).outcome := by
    unfold writeFragments
    rw [Decoder.writeAll]
    cases herr : (Decoder.write (metaEmit g) (fr.metaDecoder hdec)
      { remainSize := fr.maxHeaderListSize } frags.flatten).err with
    | some e => simp only [Decoder.WriteResult.outcome, herr]
    | none => simp only [Decoder.WriteResult.outcome, herr, Decoder.writeAll]
  rw [hwhole]
  exact (Decoder.writeAll_flatten (metaEmit g) _ _ frags).imp_right And.right

end Framer

/-- The stream, the fragment and `END_HEADERS` of a call that opens a header block. -/
def WriteCall.opens? : WriteCall → Option (UInt32 × Bytes × Bool)
  | .headers p => some (p.streamID, p.blockFragment, p.endHeaders)
  | .pushPromise p => some (p.streamID, p.blockFragment, p.endHeaders)
  | _ => none

section

variable {c : WriteCall} {id : UInt32} {frag : Bytes} {last : Bool}
  (h : c.opens? = some (id, frag, last))

include h

theorem continuable?_of_opens? {f : Frame} (hheader : f.header = c.header)
    (hcontent : c.Content f) :
    f.continuable? = some (frag, last) := by
  cases c with
  | headers p =>
    cases f with
    | headers fh prio frag' =>
      cases h
      obtain rfl : fh = _ := hheader
      obtain rfl : frag' = _ := hcontent.2
      exact congrArg (fun last => some (_, last)) (headersFlags_has ..).2.2
    | _ => cases hcontent
  | pushPromise p =>
    cases f with
    | pushPromise fh promiseID frag' =>
      cases h
      obtain rfl : fh = _ := hheader
      obtain rfl : frag' = _ := hcontent.2
      exact congrArg (fun last => some (_, last)) (pushPromiseFlags_has ..).2
    | _ => cases hcontent
  | _ => cases h

theorem openAfter_of_opens? :
    c.InOrder none ∧ c.openAfter none = if last then none else some id := by
  cases c with
  | headers p =>
    cases h
    exact ⟨rfl, rfl⟩
  | pushPromise p =>
    cases h
    exact ⟨rfl, rfl⟩
  | _ => cases h

theorem admissible_of_opens? (hfrag : frag ≠ []) : c.Admissible := by
  cases c with
  | headers p =>
    cases h
    exact hfrag
  | pushPromise p => trivial
  | _ => cases h

end

/-- A peer that merges header frames, and is not inside another header block, decodes the
header block that the frames carry: it reads what it would read if the whole block came
in the first frame, unless a string is too long for it. -/
def DecodedByPeer (block : Bytes) (frames : List WriteCall) : Prop :=
  ∃ bytes, writeAll false frames = .ok bytes ∧
    ∀ (g : HttpGuts) (fr : Framer) (hdec : Decoder) (rest : Bytes),
      fr.readMetaHeaders = some hdec → fr.allowIllegalReads = false → fr.lastHeaderStream = 0 →
      fr.r = bytes ++ rest → (∀ c ∈ frames, c.payload.length ≤ fr.maxReadSize.toNat) →
      ∃ c f, frames.head? = some c ∧ f.header = c.header ∧ c.Content f ∧
        (((fr.readFrame g).1 = (fr.readMetaFrame g hdec f block true).1 ∧
            ∀ f', (fr.readFrame g).1 = .ok f' → (fr.readFrame g).2.r = rest) ∨
          ((fr.readFrame g).1 = .error (.connectionError .compression) ∧
            ∃ frags, frags.flatten = block ∧
              (fr.writeFragments g hdec frags).1 = some .errStringLength))

theorem writeAll_of_isOk (h : ∀ c ∈ calls, (c.write false).isOk = true) :
    ∃ bytes, writeAll false calls = .ok bytes := by
  induction calls with
  | nil => exact ⟨[], rfl⟩
  | cons c cs ih =>
    rw [forall_mem_cons] at h
    obtain ⟨rest, hrest⟩ := ih h.2
    cases hwrite : c.write false with
    | error e =>
      rw [hwrite] at h
      cases h.1
    | ok bytes =>
      refine ⟨bytes ++ rest, ?_⟩
      rw [writeAll, hwrite, hrest]
      rfl

/-- A framer that merges header frames reads the frames as it would read the whole header
block in one frame, or it gives up since a string is too long for it. -/
theorem CarriesBlock.decodedByPeer {opening : Bytes → Bool → WriteCall} {id : UInt32}
    {frames : List WriteCall} (h : CarriesBlock opening id block frames)
    (hopening : ∀ frag last, (opening frag last).opens? = some (id, frag, last))
    (hok : ∀ c ∈ frames, (c.write false).isOk = true) : DecodedByPeer block frames := by
  obtain ⟨bytes, hwrite⟩ := writeAll_of_isOk hok
  refine ⟨bytes, hwrite, fun g fr hdec rest hmeta hallow hclosed hr hsize => ?_⟩
  obtain ⟨frag, frags, rfl, rfl, hfrag⟩ := h
  have hopens := hopening frag frags.isEmpty
  obtain ⟨b, bs, hb, hbs, rfl⟩ := writeAll_cons hwrite
  rw [append_assoc] at hr
  rw [forall_mem_cons] at hsize
  have hopen : fr.lastHeaderStream = (none : Option UInt32).getD 0 := hclosed
  obtain ⟨hin, hafter⟩ := openAfter_of_opens? hopens
  obtain ⟨f, hread, hheader, hcontent⟩ :=
    readSingle_write (fun _ => hopen) hb (admissible_of_opens? hopens hfrag) hsize.1 hin hr
  refine ⟨_, f, rfl, hheader, hcontent, ?_⟩
  have hstream : (fr.accepted f (bs ++ rest)).lastHeaderStream =
      if frags.isEmpty then 0 else id := by
    show (if fr.allowIllegalReads = true then _ else fr.headerStreamAfter f.header) = _
    rw [hallow, if_neg (by decide), hheader, headerStreamAfter_header hopen, hafter]
    cases frags.isEmpty <;> rfl
  have hfits : ∀ frag ∈ frags, frag.length ≤ (fr.accepted f (bs ++ rest)).maxReadSize.toNat := by
    intro frag hmem
    obtain ⟨last, hmem⟩ := continuation_mem hmem
    exact hsize.2 _ hmem
  have hframe : fr.readFrame g =
      (fr.accepted f (bs ++ rest)).readMetaFrame g hdec f frag frags.isEmpty := by
    unfold Framer.readFrame
    rw [hread]
    have hsome : (fr.accepted f (bs ++ rest)).readMetaHeaders = some hdec := hmeta
    simp only [continuable?_of_opens? hopens hheader hcontent, hsome]
  have hallow' : (fr.accepted f (bs ++ rest)).allowIllegalReads = false := hallow
  obtain ⟨hresult, hrest⟩ :=
    Framer.readMetaFrame_continuations g frags hdec hallow' hstream hbs rfl hfits f frag
  rw [← hframe] at hresult hrest
  change (fr.readFrame g).1 = Framer.decoded f (fr.writeFragments g hdec (frag :: frags)) at hresult
  rw [Framer.readMetaFrame_whole g hallow hclosed hdec f]
  rcases fr.writeFragments_flatten g hdec (frag :: frags) with hsame | hlong
  · left
    rw [hsame, flatten_cons] at hresult
    exact ⟨hresult, hrest⟩
  · right
    refine ⟨?_, frag :: frags, rfl, hlong⟩
    rw [hresult]
    revert hlong
    rcases fr.writeFragments g hdec (frag :: frags) with ⟨err, d, s⟩
    rintro rfl
    rfl

theorem CarriedIf.decodedByPeer (h : CarriedIf fn streamID block accepted)
    (hopening : ∀ frag last, (fn frag true last).opens? = some (streamID, frag, last)) :
    ∃ calls err, splitHeaderBlock block fn = .ok (calls, err) ∧
      (err = none ∧ CarriesBlock (fn · true ·) streamID block calls ∧ DecodedByPeer block calls ↔
        accepted) := by
  obtain ⟨calls, err, heq, hok, hiff⟩ := h
  refine ⟨calls, err, heq, fun h => hiff.mp ⟨h.1, h.2.1⟩, fun h => ?_⟩
  obtain ⟨herr, hcarries⟩ := hiff.mpr h
  exact ⟨herr, hcarries, hcarries.decodedByPeer hopening hok⟩

/-- The frames carry the header block and the peer decodes it, on the client if and only
if the framer takes the first frame, and on the server, for response headers, trailers and
push promises, if and only if the stream ids are valid. -/
theorem headerBlock_fragments (streamID : UInt32) {block : Bytes} (hne : block ≠ []) :
    (∀ (headerPriority : Option PriorityParam) (endStream : Bool) (maxFrameSize : Nat),
      1 ≤ maxFrameSize →
      ∃ calls,
        ClientConn.writeHeaders headerPriority streamID endStream maxFrameSize block = .ok calls ∧
        (CarriesBlock (ClientConn.headersCall headerPriority streamID endStream · true ·) streamID
            block (framesWritten calls) ∧
          DecodedByPeer block (framesWritten calls) ↔
        ClientConn.HeadersAccepted (headerPriority.getD ClientConn.defaultHeaderPriorityParam)
          streamID (min maxFrameSize block.length))) ∧
    (∀ endStream : Bool,
      ∃ calls err,
        splitHeaderBlock block (writeResHeaders.writeHeaderBlock streamID endStream) =
          .ok (calls, err) ∧
        (err = none ∧
          CarriesBlock (writeResHeaders.writeHeaderBlock streamID endStream · true ·) streamID
            block calls ∧
          DecodedByPeer block calls ↔
        validStreamID streamID = true)) ∧
    (∀ promisedID : UInt32,
      ∃ calls err,
        splitHeaderBlock block (writePushPromise.writeHeaderBlock streamID promisedID) =
          .ok (calls, err) ∧
        (err = none ∧
          CarriesBlock (writePushPromise.writeHeaderBlock streamID promisedID · true ·) streamID
            block calls ∧
          DecodedByPeer block calls ↔
        validStreamID streamID = true ∧ validStreamID promisedID = true)) := by
  refine ⟨fun headerPriority endStream m hm => ?_, fun endStream => ?_, fun promisedID => ?_⟩
  · obtain ⟨calls, heq, hiff⟩ :=
      ClientConn.writeHeaders_carriesBlock headerPriority streamID endStream hm hne
    refine ⟨calls, heq, fun h => hiff.mp h.1, fun h => ⟨hiff.mpr h, ?_⟩⟩
    exact (hiff.mpr h).decodedByPeer (fun _ _ => rfl) fun c hc => (mem_framesWritten.mp hc).2
  · exact (writeResHeaders.carriesBlock streamID endStream hne).decodedByPeer fun _ _ => rfl
  · exact (writePushPromise.carriesBlock streamID promisedID hne).decodedByPeer fun _ _ => rfl

/-- Two fragments of a request, of a response and of a push promise. -/
theorem headerBlock_fragments_two :
    (∃ calls, ClientConn.writeHeaders none 1 true 1 [0x82, 0x84] = .ok calls ∧
      CarriesBlock (ClientConn.headersCall none 1 true · true ·) 1 [0x82, 0x84]
        (framesWritten calls)) ∧
    (∃ calls, splitHeaderBlock [0x82, 0x84] (writeResHeaders.writeHeaderBlock 1 true) =
      .ok (calls, none)) ∧
    (∃ calls, splitHeaderBlock [0x82, 0x84] (writePushPromise.writeHeaderBlock 1 2) =
      .ok (calls, none)) := by
  have hne : ([0x82, 0x84] : Bytes) ≠ [] := by decide
  obtain ⟨hclient, hserver, hpush⟩ := headerBlock_fragments 1 hne
  refine ⟨?_, ?_, ?_⟩
  · obtain ⟨calls, heq, hiff⟩ := hclient none true 1 (by decide)
    exact ⟨calls, heq, (hiff.mpr (by decide)).1⟩
  · obtain ⟨calls, err, heq, hiff⟩ := hserver true
    obtain ⟨rfl, -⟩ := hiff.mpr (by decide)
    exact ⟨calls, heq⟩
  · obtain ⟨calls, err, heq, hiff⟩ := hpush 2
    obtain ⟨rfl, -⟩ := hiff.mpr (by decide)
    exact ⟨calls, heq⟩

/-- With the largest frame size the first frame of a long header block is too large for the
framer, since it has a priority.  The client goes on with `CONTINUATION` frames. -/
theorem refused_first_frame :
    ∃ calls,
      ClientConn.writeHeaders none 1 true (2 ^ 24 - 1) (List.replicate (2 ^ 24) 0x82) = .ok calls ∧
      ¬ CarriesBlock (ClientConn.headersCall none 1 true · true ·) 1 (List.replicate (2 ^ 24) 0x82)
        (framesWritten calls) := by
  have hne : replicate (2 ^ 24) (0x82 : UInt8) ≠ [] := by
    decide
  obtain ⟨calls, heq, hiff⟩ :=
    ClientConn.writeHeaders_carriesBlock none 1 true (show 0 < 2 ^ 24 - 1 by decide) hne
  refine ⟨calls, heq, fun h => ?_⟩
  have haccepted := hiff.mp h
  rw [length_replicate] at haccepted
  exact absurd haccepted (by decide)

end Fhttp.Http2
