import Fhttp.Http2.HeaderBlock

/-!
# What the framer delivers

The handlers of frames rely on what the parsers have checked: `HEADERS` and `DATA` frames
belong to a stream, the data of a `DATA` frame is not longer than the frame, whose length
has 24 bits, and a `WINDOW_UPDATE` frame has an increment from 1 to 2^31-1.  `Frame.Delivered`
says this, and holds for all frames that `ReadFrame` returns.
-/

namespace Fhttp.Http2

open Hpack (Bytes)

/-- What the framer has checked of a frame. -/
def Frame.Delivered : Frame → Prop
  | .data h d => h.streamID ≠ 0 ∧ h.length.toNat < 2 ^ 24 ∧ d.length ≤ h.length.toNat
  | .metaHeaders h .. => h.streamID ≠ 0
  | .windowUpdate _ increment => 1 ≤ increment.toNat ∧ increment.toNat < 2 ^ 31
  | _ => True

instance Frame.decidableDelivered : DecidablePred Frame.Delivered
  | .data h d =>
    inferInstanceAs
      (Decidable (h.streamID ≠ 0 ∧ h.length.toNat < 2 ^ 24 ∧ d.length ≤ h.length.toNat))
  | .metaHeaders h .. => inferInstanceAs (Decidable (h.streamID ≠ 0))
  | .windowUpdate _ increment =>
    inferInstanceAs (Decidable (1 ≤ increment.toNat ∧ increment.toNat < 2 ^ 31))
  | .headers .. | .priority .. | .rstStream .. | .settings .. | .pushPromise .. | .ping ..
  | .goAway .. | .continuation .. | .unknown .. | .metaPushPromise .. =>
    isTrue trivial

variable {fh : FrameHeader} {payload p : Bytes} {f : Frame}

theorem Framer.splitFrame?_length_lt {r r' : Bytes}
    (h : splitFrame? r = some (fh, payload, r')) : fh.length.toNat < 2 ^ 24 := by
  unfold splitFrame? at h
  simp only at h
  split at h
  · cases h
    exact length_decodeFrameHeader_lt _
  · cases h

theorem length_readPadLength {padded : Bool} {r : Bytes × UInt8}
    (h : readPadLength padded p = .ok r) : r.1.length ≤ p.length := by
  unfold readPadLength at h
  split at h
  · cases p with
    | nil => cases h
    | cons b p =>
      cases h
      exact Nat.le_succ _
  · cases h
    exact Nat.le_refl _

theorem delivered_parseDataFrame (h : parseDataFrame fh payload = .ok f)
    (hlen : payload.length = fh.length.toNat) (hlt : fh.length.toNat < 2 ^ 24) : f.Delivered := by
  obtain ⟨hid, h⟩ := ok_of_ite h
  obtain ⟨r, hpad, h⟩ := ok_of_bind h
  obtain ⟨_, h⟩ := ok_of_ite h
  cases h
  have hrest := length_readPadLength hpad
  have htake : (unpad r.1 r.2).length ≤ r.1.length := List.length_take_le' ..
  exact ⟨hid, hlt, by omega⟩

theorem delivered_parseWindowUpdateFrame (h : parseWindowUpdateFrame fh p = .ok f) :
    f.Delivered := by
  obtain ⟨_, h⟩ := ok_of_ite h
  dsimp only at h
  split at h
  · split at h <;> cases h
  · rename_i hzero
    cases h
    have hle : (uint32 p &&& 0x7fffffff).toNat ≤ 0x7fffffff := Nat.and_le_right
    have hpos : (uint32 p &&& 0x7fffffff).toNat ≠ 0 := fun heq => hzero (UInt32.toNat_inj.mp heq)
    exact ⟨by omega, by omega⟩

/-- The frames of one type. -/
theorem delivered_typeFrameParser (h : typeFrameParser fh.type fh payload = .ok f)
    (hlen : payload.length = fh.length.toNat) (hlt : fh.length.toNat < 2 ^ 24) : f.Delivered := by
  unfold typeFrameParser at h
  split at h
  · exact delivered_parseDataFrame h hlen hlt
  split at h
  · obtain ⟨_, _, _, rfl⟩ := parseHeadersFrame_ok h
    trivial
  iterate 2
    split at h
    · iterate 2 obtain ⟨_, h⟩ := ok_of_ite h
      cases h
      trivial
  split at h
  · iterate 4 obtain ⟨_, h⟩ := ok_of_ite h
    cases h
    trivial
  split at h
  · obtain ⟨_, _, _, rfl⟩ := parsePushPromise_ok h
    trivial
  split at h
  · unfold parsePingFrame at h
    split at h
    · obtain ⟨_, h⟩ := ok_of_ite h
      cases h
      trivial
    · cases h
  split at h
  · iterate 2 obtain ⟨_, h⟩ := ok_of_ite h
    cases h
    trivial
  split at h
  · exact delivered_parseWindowUpdateFrame h
  split at h
  · obtain ⟨_, rfl⟩ := parseContinuationFrame_ok h
    trivial
  · cases h
    trivial

namespace Framer

variable {g : HttpGuts} {fr : Framer} {f : Frame}

theorem delivered_of_readMetaFrame {hdec : Hpack.Decoder} {cont : Frame} {frag : Bytes}
    {ended : Bool} (hcont : cont.continuable?.isSome) (hid : cont.header.streamID ≠ 0)
    (h : (fr.readMetaFrame g hdec cont frag ended).1 = .ok f) : f.Delivered := by
  have hmeta (fields : List Hpack.HeaderField) (truncated : Bool) :
      (cont.toMeta fields truncated).Delivered := by
    cases cont with
    | headers => exact hid
    | pushPromise => trivial
    | _ => cases hcont
  unfold readMetaFrame at h
  split at h
  · cases h
  dsimp only at h
  split at h
  · cases h
  unfold finishMeta at h
  split at h
  · cases h
  split at h
  · cases h
  split at h
  · cases h
  · cases h
    exact hmeta ..

/-- `ReadFrame` delivers no other frames. -/
theorem delivered_of_readFrame (h : (fr.readFrame g).1 = .ok f) : f.Delivered := by
  unfold readFrame at h
  split at h
  · cases h
  rename_i f₀ fr' hread
  obtain ⟨fh, payload, hsplit, -, hparse, -, -⟩ := readSingle_ok hread
  split at h
  · rename_i frag ended hdec hcont hsome
    have hid : f₀.header.streamID ≠ 0 := by
      obtain ⟨-, hid, _, _, rfl⟩ | ⟨-, hid, _, _, rfl⟩ | ⟨-, hid, rfl⟩ | ⟨-, hplain⟩ :=
        parsed_ok (w := ⟨fh, payload⟩) hparse
      · exact hid
      · exact hid
      · exact hid
      · cases hplain.continuable?.symm.trans hcont
    exact delivered_of_readMetaFrame (Option.isSome_of_eq_some hcont) hid h
  · cases h
    exact delivered_typeFrameParser hparse (splitFrame?_length hsplit).1
      (splitFrame?_length_lt hsplit)

theorem delivered_windowUpdate : (Frame.windowUpdate ⟨.windowUpdate, 0, 4, 0⟩ 5).Delivered :=
  @delivered_of_readFrame ⟨fun _ => true, fun _ => true⟩
    (.new [0, 0, 4, 8, 0, 0, 0, 0, 0, 0, 0, 0, 5])
    _ rfl

end Framer

end Fhttp.Http2
