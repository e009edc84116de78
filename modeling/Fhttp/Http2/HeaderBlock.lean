import Fhttp.Hpack.Chunking
import Fhttp.Http2.Framer

/-!
# Header blocks on the wire

A header block is a `HEADERS` or `PUSH_PROMISE` frame with the `CONTINUATION`
frames behind it.  This module says which frames one call of `ReadFrame` takes
from the reader, and what it writes to the HPACK decoder (`ReadCall`): a frame
that is not part of a header block, a frame that its parser rejects with a
stream error, a whole header block, or a header block that is cut short by a
rejected frame.
-/

namespace Fhttp.Http2

open Hpack (Bytes Decoder)

/-! ## Frames on the wire -/

/-- A frame as it is on the wire. -/
structure RawFrame where
  fh : FrameHeader
  payload : Bytes

namespace RawFrame

/-- What the parser for its type makes of a frame. -/
def parsed (w : RawFrame) : Except Error Frame := typeFrameParser w.fh.type w.fh w.payload

def startsBlock (w : RawFrame) : Bool := w.fh.type == .headers || w.fh.type == .pushPromise

def isContinuation (w : RawFrame) : Bool := w.fh.type == .continuation

/-- The flag `END_HEADERS`. -/
def endsHeaders (w : RawFrame) : Bool := w.fh.flags.has flagHeadersEndHeaders

/-- The parser gives a stream error: a `WINDOW_UPDATE` frame of a stream with the
increment zero, or a `HEADERS` frame without a fragment. -/
def rejected (w : RawFrame) : Bool :=
  match w.parsed with
  | .error (.streamError ..) => true
  | _ => false

/-- The header block fragment of a frame, without padding and priority. -/
def fragment (w : RawFrame) : Bytes :=
  match w.parsed with
  | .ok (.headers _ _ frag) => frag
  | .ok (.pushPromise _ _ frag) => frag
  | .ok (.continuation _ frag) => frag
  | _ => []

end RawFrame

/-- The concatenated fragments of a header block. -/
def blockBytes (block : List RawFrame) : Bytes := block.flatMap RawFrame.fragment

theorem blockBytes_eq_flatten (block : List RawFrame) :
    blockBytes block = (block.map RawFrame.fragment).flatten := List.flatMap_def

/-- The octets `r` are the given frames, followed by `r'`. -/
inductive Received : Bytes → List RawFrame → Bytes → Prop where
  | nil (r : Bytes) : Received r [] r
  | cons {r r' r'' : Bytes} {fh : FrameHeader} {payload : Bytes} {ws : List RawFrame}
      (h : Framer.splitFrame? r = some (fh, payload, r')) (hs : Received r' ws r'') :
      Received r (⟨fh, payload⟩ :: ws) r''

namespace Received

variable {r r' : Bytes}

theorem single {fh : FrameHeader} {payload : Bytes}
    (h : Framer.splitFrame? r = some (fh, payload, r')) : Received r [⟨fh, payload⟩] r' :=
  .cons h (.nil r')

theorem append {r'' : Bytes} {ws ws' : List RawFrame} (h : Received r ws r')
    (h' : Received r' ws' r'') : Received r (ws ++ ws') r'' := by
  induction h with
  | nil r => exact h'
  | cons hsplit _ ih => exact .cons hsplit (ih h')

end Received

/-! ## What the parsers give -/

/-- A frame that is no part of a header block. -/
structure Frame.Plain (fh : FrameHeader) (f : Frame) : Prop where
  header : f.header = fh
  continuable? : f.continuable? = none
  meta? : f.meta? = none

variable {fh : FrameHeader} {p : Bytes} {f : Frame} {w : RawFrame}

theorem plain_parseDataFrame (h : parseDataFrame fh p = .ok f) : f.Plain fh := by
  obtain ⟨_, h⟩ := ok_of_ite h
  obtain ⟨a, _, h⟩ := ok_of_bind h
  obtain ⟨_, h⟩ := ok_of_ite h
  cases h
  exact ⟨rfl, rfl, rfl⟩

theorem parseHeadersFrame_ok (h : parseHeadersFrame fh p = .ok f) :
    fh.streamID ≠ 0 ∧ ∃ prio frag, f = .headers fh prio frag := by
  obtain ⟨hid, h⟩ := ok_of_ite h
  obtain ⟨a, _, h⟩ := ok_of_bind h
  obtain ⟨b, _, h⟩ := ok_of_bind h
  obtain ⟨_, h⟩ := ok_of_ite h
  cases h
  exact ⟨hid, _, _, rfl⟩

theorem parsePushPromise_ok (h : parsePushPromise fh p = .ok f) :
    fh.streamID ≠ 0 ∧ ∃ promiseID frag, f = .pushPromise fh promiseID frag := by
  obtain ⟨hid, h⟩ := ok_of_ite h
  obtain ⟨a, _, h⟩ := ok_of_bind h
  obtain ⟨b, _, h⟩ := ok_of_bind h
  obtain ⟨_, h⟩ := ok_of_ite h
  cases h
  exact ⟨hid, _, _, rfl⟩

theorem parseContinuationFrame_ok (h : parseContinuationFrame fh p = .ok f) :
    fh.streamID ≠ 0 ∧ f = .continuation fh p := by
  obtain ⟨hid, h⟩ := ok_of_ite h
  cases h
  exact ⟨hid, rfl⟩

theorem plain_parsePriorityFrame (h : parsePriorityFrame fh p = .ok f) : f.Plain fh := by
  obtain ⟨_, h⟩ := ok_of_ite h
  obtain ⟨_, h⟩ := ok_of_ite h
  cases h
  exact ⟨rfl, rfl, rfl⟩

theorem plain_parseRSTStreamFrame (h : parseRSTStreamFrame fh p = .ok f) : f.Plain fh := by
  obtain ⟨_, h⟩ := ok_of_ite h
  obtain ⟨_, h⟩ := ok_of_ite h
  cases h
  exact ⟨rfl, rfl, rfl⟩

theorem plain_parseSettingsFrame (h : parseSettingsFrame fh p = .ok f) : f.Plain fh := by
  obtain ⟨_, h⟩ := ok_of_ite h
  obtain ⟨_, h⟩ := ok_of_ite h
  obtain ⟨_, h⟩ := ok_of_ite h
  obtain ⟨_, h⟩ := ok_of_ite h
  cases h
  exact ⟨rfl, rfl, rfl⟩

theorem plain_parsePingFrame (h : parsePingFrame fh p = .ok f) : f.Plain fh := by
  unfold parsePingFrame at h
  split at h
  · obtain ⟨_, h⟩ := ok_of_ite h
    cases h
    exact ⟨rfl, rfl, rfl⟩
  · cases h

theorem plain_parseGoAwayFrame (h : parseGoAwayFrame fh p = .ok f) : f.Plain fh := by
  obtain ⟨_, h⟩ := ok_of_ite h
  obtain ⟨_, h⟩ := ok_of_ite h
  cases h
  exact ⟨rfl, rfl, rfl⟩

theorem plain_parseWindowUpdateFrame (h : parseWindowUpdateFrame fh p = .ok f) : f.Plain fh := by
  obtain ⟨_, h⟩ := ok_of_ite h
  simp only at h
  split at h
  · split at h
    · cases h
    · cases h
  · cases h
    exact ⟨rfl, rfl, rfl⟩

/-- The type of a frame that is no part of a header block. -/
theorem other_type {t : FrameType} (ht : w.fh.type = t)
    (hne : t ≠ .headers ∧ t ≠ .pushPromise ∧ t ≠ .continuation) :
    w.startsBlock = false ∧ w.isContinuation = false := by
  unfold RawFrame.startsBlock RawFrame.isContinuation
  rw [ht, beq_eq_false_iff_ne.mpr hne.1, beq_eq_false_iff_ne.mpr hne.2.1,
    beq_eq_false_iff_ne.mpr hne.2.2]
  exact ⟨rfl, rfl⟩

section

variable (h : w.parsed = .ok f)

include h

/-- The four ways in which a frame is parsed, as far as header blocks go. -/
theorem parsed_ok :
    (w.fh.type = .headers ∧ w.fh.streamID ≠ 0 ∧ ∃ prio frag, f = .headers w.fh prio frag) ∨
    (w.fh.type = .pushPromise ∧ w.fh.streamID ≠ 0 ∧
      ∃ promiseID frag, f = .pushPromise w.fh promiseID frag) ∨
    (w.fh.type = .continuation ∧ w.fh.streamID ≠ 0 ∧ f = .continuation w.fh w.payload) ∨
    ((w.startsBlock = false ∧ w.isContinuation = false) ∧ f.Plain w.fh) := by
  unfold RawFrame.parsed typeFrameParser at h
  split at h
  · exact .inr (.inr (.inr ⟨other_type ‹_› (by decide), plain_parseDataFrame h⟩))
  split at h
  · exact .inl ⟨‹_›, parseHeadersFrame_ok h⟩
  split at h
  · exact .inr (.inr (.inr ⟨other_type ‹_› (by decide), plain_parsePriorityFrame h⟩))
  split at h
  · exact .inr (.inr (.inr ⟨other_type ‹_› (by decide), plain_parseRSTStreamFrame h⟩))
  split at h
  · exact .inr (.inr (.inr ⟨other_type ‹_› (by decide), plain_parseSettingsFrame h⟩))
  split at h
  · exact .inr (.inl ⟨‹_›, parsePushPromise_ok h⟩)
  split at h
  · exact .inr (.inr (.inr ⟨other_type ‹_› (by decide), plain_parsePingFrame h⟩))
  split at h
  · exact .inr (.inr (.inr ⟨other_type ‹_› (by decide), plain_parseGoAwayFrame h⟩))
  split at h
  · exact .inr (.inr (.inr ⟨other_type ‹_› (by decide), plain_parseWindowUpdateFrame h⟩))
  split at h
  · exact .inr (.inr (.inl ⟨‹_›, parseContinuationFrame_ok h⟩))
  · rename_i hheaders _ _ _ hpush _ _ _ hcont
    cases h
    exact .inr (.inr (.inr
      ⟨other_type rfl ⟨hheaders, hpush, hcont⟩, ⟨rfl, rfl, rfl⟩⟩))

theorem parsed_header : f.header = w.fh := by
  rcases parsed_ok h with ⟨_, _, _, _, rfl⟩ | ⟨_, _, _, _, rfl⟩ | ⟨_, _, rfl⟩ | ⟨_, hplain⟩
  · rfl
  · rfl
  · rfl
  · exact hplain.header

/-- No parser gives a meta frame. -/
theorem parsed_meta? : f.meta? = none := by
  rcases parsed_ok h with ⟨_, _, _, _, rfl⟩ | ⟨_, _, _, _, rfl⟩ | ⟨_, _, rfl⟩ | ⟨_, hplain⟩
  · rfl
  · rfl
  · rfl
  · exact hplain.meta?

/-- A frame that starts a header block has a fragment and a stream. -/
theorem parsed_startsBlock (hstart : w.startsBlock = true) :
    w.fh.streamID ≠ 0 ∧ w.isContinuation = false ∧
      f.continuable? = some (w.fragment, w.endsHeaders) := by
  unfold RawFrame.fragment RawFrame.isContinuation
  rw [h]
  rcases parsed_ok h with ⟨ht, hid, _, _, rfl⟩ | ⟨ht, hid, _, _, rfl⟩ | ⟨ht, _, _⟩ | ⟨hother, _⟩
  · rw [ht]
    exact ⟨hid, rfl, rfl⟩
  · rw [ht]
    exact ⟨hid, rfl, rfl⟩
  · unfold RawFrame.startsBlock at hstart
    rw [ht] at hstart
    exact absurd hstart (by decide)
  · rw [hother.1] at hstart
    cases hstart

theorem parsed_continuation (hcont : w.isContinuation = true) :
    f = .continuation w.fh w.fragment := by
  unfold RawFrame.fragment
  rw [h]
  unfold RawFrame.isContinuation at hcont
  rw [beq_iff_eq] at hcont
  rcases parsed_ok h with ⟨ht, _⟩ | ⟨ht, _⟩ | ⟨_, _, rfl⟩ | ⟨hother, _⟩
  · rw [hcont] at ht
    exact absurd ht (by decide)
  · rw [hcont] at ht
    exact absurd ht (by decide)
  · rfl
  · unfold RawFrame.isContinuation at hother
    rw [hcont] at hother
    exact absurd hother.2 (by decide)

theorem parsed_not_startsBlock (hstart : w.startsBlock = false) : f.continuable? = none := by
  unfold RawFrame.startsBlock at hstart
  rcases parsed_ok h with ⟨ht, _⟩ | ⟨ht, _⟩ | ⟨_, _, rfl⟩ | ⟨_, hplain⟩
  · rw [ht] at hstart
    exact absurd hstart (by decide)
  · rw [ht] at hstart
    exact absurd hstart (by decide)
  · rfl
  · exact hplain.continuable?

end

/-- A `CONTINUATION` frame is not rejected with a stream error. -/
theorem isContinuation_of_rejected (h : w.rejected = true) : w.isContinuation = false := by
  unfold RawFrame.isContinuation
  by_contra hcont
  rw [Bool.not_eq_false, beq_iff_eq] at hcont
  have hparsed : w.parsed = parseContinuationFrame w.fh w.payload := by
    unfold RawFrame.parsed
    rw [hcont]
    rfl
  unfold RawFrame.rejected at h
  rw [hparsed] at h
  unfold parseContinuationFrame at h
  split at h
  · rename_i hid
    split at hid <;> cases hid
  · cases h

theorem fragment_of_rejected (h : w.rejected = true) : w.fragment = [] := by
  unfold RawFrame.rejected at h
  unfold RawFrame.fragment
  split at h
  · rename_i hparsed
    rw [hparsed]
  · cases h

theorem not_rejected_of_parsed (h : w.parsed = .ok f) : w.rejected = false := by
  unfold RawFrame.rejected
  rw [h]

/-- The error ends the connection: `terminalReadFrameError`. -/
def Error.terminal : Error → Bool
  | .streamError .. => false
  | _ => true

/-- What is known when a frame was rejected with a stream error. -/
theorem Framer.readSingle_error {fr fr' : Framer} {e : Error}
    (h : fr.readSingle = (.error e, fr')) (he : e.terminal = false) :
    ∃ w : RawFrame, splitFrame? fr.r = some (w.fh, w.payload, fr'.r) ∧ w.rejected = true ∧
      fr' = { fr with r := fr'.r, errDetail := none } := by
  unfold readSingle at h
  split at h
  · rename_i e' fr₁ hraw
    cases h
    cases e with
    | streamError id code cause => exact absurd rfl (readRaw_error hraw id code cause)
    | _ => cases he
  · rename_i fh payload fr₁ hraw
    obtain ⟨hsplit, _, hfr₁⟩ := readRaw_ok hraw
    split at h
    · cases h
      cases he
    · rename_i e' _ hparse
      cases h
      refine ⟨⟨fh, payload⟩, hsplit, ?_, hfr₁⟩
      cases e with
      | streamError id code cause =>
        unfold RawFrame.rejected RawFrame.parsed
        rw [hparse]
      | _ => cases he
    · unfold checkFrameOrder at h
      split at h
      · rename_i horder
        split at horder
        · cases horder
        · split at horder
          · cases horder
            cases h
            cases he
          · cases horder
      · cases h

/-! ## The loop over a header block -/

/-- The frames complete a header block of the stream `id` whose last frame had the
flag `END_HEADERS` or not. -/
def Completes (id : UInt32) : Bool → List RawFrame → Prop
  | true, ws => ws = []
  | false, [] => False
  | false, w :: ws => w.isContinuation = true ∧ w.fh.streamID = id ∧ w.rejected = false ∧
      Completes id w.endsHeaders ws

/-- The frames continue a header block of the stream `id` without completing it. -/
def Unfinished (id : UInt32) (ws : List RawFrame) : Prop :=
  ∀ w ∈ ws, w.isContinuation = true ∧ w.fh.streamID = id ∧ w.rejected = false ∧
    w.endsHeaders = false

namespace Framer

variable {fr fr' : Framer} {hdec : Decoder}

/-- While a header block is open, `ReadFrame` gives the next frame of that block
and no other frame. -/
theorem readSingle_open (h : fr.readSingle = (.ok f, fr')) (hallow : fr.allowIllegalReads = false)
    (hopen : fr.lastHeaderStream ≠ 0) :
    ∃ w : RawFrame, splitFrame? fr.r = some (w.fh, w.payload, fr'.r) ∧
      w.isContinuation = true ∧ w.fh.streamID = fr.lastHeaderStream ∧ w.rejected = false ∧
      f = .continuation w.fh w.fragment ∧
      fr'.lastHeaderStream = (if w.endsHeaders then 0 else fr.lastHeaderStream) ∧
      fr'.allowIllegalReads = false ∧ fr'.readMetaHeaders = fr.readMetaHeaders := by
  obtain ⟨fh, payload, hsplit, _, hparse, horder, hfr'⟩ := readSingle_ok h
  have hparsed : RawFrame.parsed ⟨fh, payload⟩ = .ok f := hparse
  have hheader := parsed_header hparsed
  have hnone := horder hallow
  rw [hheader] at hnone
  unfold orderError at hnone
  rw [if_pos hopen] at hnone
  split at hnone
  · cases hnone
  rename_i htype
  split at hnone
  · cases hnone
  rename_i hid
  rw [Decidable.not_not] at htype hid
  have hcont : RawFrame.isContinuation ⟨fh, payload⟩ = true := beq_iff_eq.mpr htype
  refine ⟨⟨fh, payload⟩, hsplit, hcont, hid, not_rejected_of_parsed hparsed,
    parsed_continuation hparsed hcont, ?_, ?_, ?_⟩
  · rw [hfr']
    unfold accepted headerStreamAfter
    simp only [hallow, Bool.false_eq_true, if_false]
    rw [hheader, if_pos (.inr (.inr htype)), hid]
    rfl
  · rw [hfr']
    exact hallow
  · rw [hfr']
    rfl

/-- The outcome of the loop: the header block is complete and was written to the
decoder fragment by fragment, or the connection is at its end, or a frame in the
middle of the header block was rejected with a stream error. -/
inductive LoopResult (g : HttpGuts) (fr fr' : Framer) (hdec : Decoder) (s : MetaState)
    (frag : Bytes) (ended : Bool) (id : UInt32) :
    Except Error (Decoder × MetaState) → Prop where
  | complete {d : Decoder} {s' : MetaState} {ws : List RawFrame}
      (received : Received fr.r ws fr'.r) (completes : Completes id ended ws)
      (written : Decoder.writeAll (metaEmit g) hdec s (frag :: ws.map RawFrame.fragment) =
        (none, d, s'))
      (closed : fr'.lastHeaderStream = 0) (decoder : fr'.readMetaHeaders = some d)
      (allow : fr'.allowIllegalReads = false) :
        LoopResult g fr fr' hdec s frag ended id (.ok (d, s'))
  | terminal {e : Error} (terminal : e.terminal = true) :
      LoopResult g fr fr' hdec s frag ended id (.error e)
  | broken {e : Error} {ws : List RawFrame} {w : RawFrame} {d : Decoder}
      (received : Received fr.r (ws ++ [w]) fr'.r) (ended_eq : ended = false)
      (unfinished : Unfinished id ws) (rejected : w.rejected = true)
      (still_open : fr'.lastHeaderStream = id) (decoder : fr'.readMetaHeaders = some d)
      (allow : fr'.allowIllegalReads = false) : LoopResult g fr fr' hdec s frag ended id (.error e)

variable {s : MetaState} {res : Except Error Frame}

theorem metaLoop_spec (g : HttpGuts) (hallow : fr.allowIllegalReads = false) {frag : Bytes}
    {ended : Bool} {id : UInt32} (hid : id ≠ 0)
    (hopen : fr.lastHeaderStream = if ended then 0 else id)
    {res : Except Error (Decoder × MetaState)} (h : metaLoop g fr hdec s frag ended = (res, fr')) :
    LoopResult g fr fr' hdec s frag ended id res := by
  induction hn : fr.r.length using Nat.strongRecOn generalizing fr hdec s frag ended with
  | ind n ih =>
    rw [metaLoop] at h
    cases herr : (hdec.write (metaEmit g) s frag).err with
    | some e =>
      rw [herr] at h
      cases h
      exact .terminal rfl
    | none =>
      rw [herr] at h
      simp only [Option.isSome_none, Bool.false_eq_true, if_false] at h
      cases ended with
      | true =>
        cases h
        refine .complete (.nil _) rfl ?_ hopen rfl hallow
        simp only [Decoder.writeAll, herr, List.map_nil]
      | false =>
        simp only [Bool.false_eq_true, if_false] at h hopen
        split at h
        · rename_i e fr₁ hread
          cases h
          cases he : e.terminal with
          | true => exact .terminal he
          | false =>
            obtain ⟨w, hsplit, hrejected, hfr'⟩ := readSingle_error hread he
            have hreceived : Received fr.r ([] ++ [w]) fr'.r := .single hsplit
            have hdecoder : fr'.readMetaHeaders = some (hdec.write (metaEmit g) s frag).d := by
              rw [hfr']
            refine .broken hreceived rfl (fun _ hw => by cases hw) hrejected ?_ hdecoder ?_
            · rw [hfr']
              exact hopen
            · rw [hfr']
              exact hallow
        · rename_i fh frag' fr₁ hread
          have hlt := readSingle_length hread
          obtain ⟨w, hsplit, hcont, hw, hrejected, hf, hstream, hallow₁, hmeta⟩ :=
            readSingle_open hread hallow (by rw [hopen]; exact hid)
          simp only at hstream hw hsplit hlt
          rw [hopen] at hstream hw
          cases hf
          have hrest := ih fr₁.r.length (by omega) hallow₁ hstream h rfl
          cases hrest with
          | complete received completes written closed decoder allow =>
            refine .complete (.cons hsplit received) ⟨hcont, hw, hrejected, completes⟩ ?_
              closed decoder allow
            rw [Decoder.writeAll]
            simp only [herr]
            exact written
          | terminal terminal => exact .terminal terminal
          | @broken _ ws w' _ received ended_eq unfinished rejected still_open decoder allow =>
            have hreceived : Received fr.r ((w :: ws) ++ [w']) fr'.r := .cons hsplit received
            refine .broken hreceived rfl ?_ rejected still_open decoder allow
            intro w' hw'
            rcases List.mem_cons.mp hw' with rfl | hw'
            · exact ⟨hcont, hw, hrejected, ended_eq⟩
            · exact unfinished w' hw'
        · rename_i f fr₁ hnot hread
          obtain ⟨w, _, _, _, _, hf, _⟩ :=
            readSingle_open hread hallow (by rw [hopen]; exact hid)
          exact (hnot w.fh w.fragment hf).elim

/-! ## One call of `ReadFrame` -/

/-- What one call of `ReadFrame` does when it returns a frame or a stream error:
the frames it takes from the reader, and what it writes to the HPACK decoder. -/
inductive ReadCall (g : HttpGuts) (fr fr' : Framer) (hdec : Decoder) :
    Except Error Frame → List RawFrame → Prop where
  | plain {w : RawFrame} {f : Frame} (parsed : w.parsed = .ok f)
      (other : w.startsBlock = false) (order : fr.orderError w.fh = none)
      (after : fr' = fr.accepted f fr'.r) : ReadCall g fr fr' hdec (.ok f) [w]
  | rejected {w : RawFrame} {e : Error} (rejected : w.rejected = true)
      (after : fr' = { fr with r := fr'.r, errDetail := none }) :
      ReadCall g fr fr' hdec (.error e) [w]
  | block {res : Except Error Frame} {w : RawFrame} {ws : List RawFrame} {f : Frame}
      {d : Decoder} {s : MetaState} (parsed : w.parsed = .ok f) (starts : w.startsBlock = true)
      (order : fr.orderError w.fh = none)
      (completes : Completes w.fh.streamID w.endsHeaders ws)
      (written : Decoder.writeAll (metaEmit g)
        ((hdec.setEmitEnabled true).setMaxStringLength fr.maxHeaderStringLen)
        { remainSize := fr.maxHeaderListSize } ((w :: ws).map RawFrame.fragment) = (none, d, s))
      (close : d.close.1 = none) (decoder : fr'.readMetaHeaders = some d.close.2)
      (closed : fr'.lastHeaderStream = 0) (allow : fr'.allowIllegalReads = false)
      (result : ∀ f', res = .ok f' → s.invalid = none ∧ checkPseudos s.fields = .ok () ∧
        f' = f.toMeta s.fields s.truncated) :
      ReadCall g fr fr' hdec res (w :: ws)
  | broken {e : Error} {w w' : RawFrame} {ws : List RawFrame} {d : Decoder}
      (starts : w.startsBlock = true) (accepted : w.rejected = false)
      (notEnded : w.endsHeaders = false) (unfinished : Unfinished w.fh.streamID ws)
      (rejected : w'.rejected = true) (decoder : fr'.readMetaHeaders = some d)
      (allow : fr'.allowIllegalReads = false) :
      ReadCall g fr fr' hdec (.error e) (w :: (ws ++ [w']))

/-- The result does not end the connection. -/
def goesOn : Except Error Frame → Bool
  | .ok _ => true
  | .error e => !e.terminal

theorem not_terminal_of_goesOn {e : Error} (h : goesOn (.error e) = true) : e.terminal = false := by
  have hnot : (!e.terminal) = true := h
  rwa [Bool.not_eq_true'] at hnot

theorem finishMeta_spec {cont : Frame} (h : fr.finishMeta hdec s cont = (res, fr'))
    (hgoes : goesOn res = true) :
    hdec.close.1 = none ∧ fr'.readMetaHeaders = some hdec.close.2 ∧ fr'.r = fr.r ∧
      fr'.lastHeaderStream = fr.lastHeaderStream ∧
      fr'.allowIllegalReads = fr.allowIllegalReads ∧
      ∀ f', res = .ok f' → s.invalid = none ∧ checkPseudos s.fields = .ok () ∧
        f' = cont.toMeta s.fields s.truncated := by
  unfold finishMeta rejectHeaders at h
  cases hclose : hdec.close.1 with
  | some e =>
    rw [hclose] at h
    cases h
    cases hgoes
  | none =>
    rw [hclose] at h
    simp only [Option.isSome_none, Bool.false_eq_true, if_false] at h
    split at h
    · cases h
      exact ⟨rfl, rfl, rfl, rfl, rfl, fun f' hf' => by cases hf'⟩
    rename_i hvalid
    split at h
    · cases h
      exact ⟨rfl, rfl, rfl, rfl, rfl, fun f' hf' => by cases hf'⟩
    · rename_i hpseudos
      cases h
      refine ⟨rfl, rfl, rfl, rfl, rfl, fun f' hf' => ?_⟩
      cases hf'
      exact ⟨hvalid, hpseudos, rfl⟩

/-- The open stream after an accepted frame that starts a header block. -/
theorem accepted_lastHeaderStream {r' : Bytes} (hallow : fr.allowIllegalReads = false)
    (hparsed : w.parsed = .ok f) (hstart : w.startsBlock = true) :
    (fr.accepted f r').lastHeaderStream = if w.endsHeaders then 0 else w.fh.streamID := by
  have htype : w.fh.type = .headers ∨ w.fh.type = .pushPromise := by
    unfold RawFrame.startsBlock at hstart
    rwa [Bool.or_eq_true, beq_iff_eq, beq_iff_eq] at hstart
  unfold accepted headerStreamAfter
  simp only [hallow, Bool.false_eq_true, if_false, parsed_header hparsed]
  rw [if_pos (htype.imp_right .inl)]
  rfl

/-- Every call of `ReadFrame` that returns a frame or a stream error is one of the
four. -/
theorem readFrame_call (g : HttpGuts) (hallow : fr.allowIllegalReads = false)
    (hmeta : fr.readMetaHeaders = some hdec) (h : fr.readFrame g = (res, fr'))
    (hgoes : goesOn res = true) : ∃ ws, Received fr.r ws fr'.r ∧ ReadCall g fr fr' hdec res ws := by
  unfold readFrame at h
  split at h
  · rename_i e fr₁ hread
    cases h
    obtain ⟨w, hsplit, hrejected, hfr'⟩ := readSingle_error hread (not_terminal_of_goesOn hgoes)
    exact ⟨[w], .single hsplit, .rejected hrejected hfr'⟩
  rename_i f fr₁ hread
  obtain ⟨fh, payload, hsplit, _, hparse, horder, hfr₁⟩ := readSingle_ok hread
  have hparsed : RawFrame.parsed ⟨fh, payload⟩ = .ok f := hparse
  have horder' := horder hallow
  rw [parsed_header hparsed] at horder'
  cases hstart : RawFrame.startsBlock ⟨fh, payload⟩ with
  | false =>
    rw [parsed_not_startsBlock hparsed hstart] at h
    cases h
    exact ⟨_, .single hsplit, .plain hparsed hstart horder' hfr₁⟩
  | true =>
    obtain ⟨hid, _, hcontinuable⟩ := parsed_startsBlock hparsed hstart
    have hallow₁ : fr₁.allowIllegalReads = false := by
      rw [hfr₁]
      exact hallow
    have hmeta₁ : fr₁.readMetaHeaders = some hdec := by
      rw [hfr₁]
      exact hmeta
    have hopen : fr₁.lastHeaderStream =
        if RawFrame.endsHeaders ⟨fh, payload⟩ then 0 else fh.streamID := by
      rw [hfr₁]
      exact accepted_lastHeaderStream hallow hparsed hstart
    rw [hcontinuable, hmeta₁] at h
    simp only [readMetaFrame, hallow₁, Bool.false_eq_true, if_false] at h
    split at h
    · rename_i e fr₂ hloop
      cases h
      cases metaLoop_spec g hallow₁ hid hopen hloop with
      | terminal terminal =>
        rw [not_terminal_of_goesOn hgoes] at terminal
        cases terminal
      | broken received ended_eq unfinished rejected still_open decoder allow =>
        exact ⟨_, .cons hsplit received, .broken hstart (not_rejected_of_parsed hparsed)
          ended_eq unfinished rejected decoder allow⟩
    · rename_i d s fr₂ hloop
      cases metaLoop_spec g hallow₁ hid hopen hloop with
      | complete received completes written closed decoder allow =>
        obtain ⟨hclose, hdecoder, hr, hstream, hallow', hresult⟩ := finishMeta_spec h hgoes
        refine ⟨_, .cons hsplit ?_, .block hparsed hstart horder' completes ?_ hclose hdecoder
          (hstream.trans closed) (hallow'.trans allow) hresult⟩
        · rw [hr]
          exact received
        · rw [hfr₁] at written
          exact written

end Framer

end Fhttp.Http2
