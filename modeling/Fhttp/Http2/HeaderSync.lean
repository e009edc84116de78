import Mathlib.Data.List.Chain
import Fhttp.Hpack.Emission
import Fhttp.Http2.HeaderBlock

/-!
# The framer and its HPACK decoder

A framer that merges header frames shares one HPACK decoder with all header
blocks of a connection.  The decoder must see every fragment of every block,
whatever becomes of the block: that is what `HeadersInSync` asks for.  The
reference is a decoder that emits nothing, has no limit, and gets every block
whole (`decodeBlocks`).

A frame that its parser rejects with a stream error is returned before the order
of frames is checked.  In the middle of a header block this ends the merging,
while the caller goes on: the rest of the block is never decoded.
`headers_in_sync_iff` says that this is the only way to get out of step, and
`headers_out_of_sync` is an example of it.
-/

namespace Fhttp.Http2

open Hpack (Bytes Decoder EmitFunc)
open List

/-! ## The header blocks of a sequence of frames -/

/-- A frame that starts a header block starts a new one, and a `CONTINUATION`
frame goes to the last one. -/
def addFrame (blocks : List (List RawFrame)) (w : RawFrame) : List (List RawFrame) :=
  if w.startsBlock then blocks ++ [[w]]
  else if w.isContinuation then
    match blocks.getLast? with
    | none => blocks
    | some b => blocks.dropLast ++ [b ++ [w]]
  else blocks

/-- The header blocks: each `HEADERS` or `PUSH_PROMISE` frame with all its
`CONTINUATION` frames. -/
def headerBlocks (frames : List RawFrame) : List (List RawFrame) := frames.foldl addFrame []

/-- A callback that is never called. -/
def noEmit : EmitFunc Unit := fun _ _ => ((), false)

/-- Decode one block and close it, for the state of the decoder only. -/
def decodeBlock (d : Decoder) (block : Bytes) : Option Decoder :=
  let r := Decoder.write noEmit { d with emitEnabled := false, maxStrLen := 0 } () block
  if r.err.isSome then none
  else if r.d.close.1.isSome then none
  else some r.d.close.2

/-- Decode blocks in order. -/
def decodeBlocks (d : Decoder) (blocks : List Bytes) : Option Decoder :=
  blocks.foldlM decodeBlock d

/-! ## The order of frames -/

/-- The frame leaves a header block open. -/
def RawFrame.unfinished (w : RawFrame) : Bool :=
  (w.startsBlock || w.isContinuation) && !w.endsHeaders && !w.rejected

/-- A `CONTINUATION` frame comes exactly after an unfinished frame, and is of the
same stream. -/
def InOrder (w w' : RawFrame) : Prop :=
  (w'.isContinuation = true ↔ w.unfinished = true) ∧
    (w'.isContinuation = true → w'.fh.streamID = w.fh.streamID)

/-- The frames of every header block are contiguous and on one stream. -/
structure Contiguous (frames : List RawFrame) : Prop where
  chain : frames.IsChain InOrder
  head : ∀ w ∈ frames.head?, w.isContinuation = false

/-- No frame is rejected with a stream error while a header block is open. -/
def Undisturbed (frames : List RawFrame) : Prop :=
  frames.IsChain fun w w' => w.unfinished = true → w'.rejected = false

/-- The decoder of the framer has seen the header blocks of the frames, and these
are contiguous. -/
structure HeadersInSync (d₀ : Decoder) (frames : List RawFrame) (fr : Framer) : Prop where
  decoder : ∃ d dref, fr.readMetaHeaders = some d ∧
    decodeBlocks d₀ ((headerBlocks frames).map blockBytes) = some dref ∧
    Decoder.SameState dref d
  contiguous : Contiguous frames

/-- A frame was rejected while a header block was open. -/
def Disturbed (frames : List RawFrame) : Prop :=
  ∃ w w' : RawFrame, [w, w'] <:+: frames ∧ w.unfinished = true ∧ w'.rejected = true

variable {frames ws : List RawFrame} {w : RawFrame} {d hdec d₀ : Decoder} {g : HttpGuts}
  {fr fr' : Framer}

theorem Disturbed.append (h : Disturbed frames) (ws : List RawFrame) :
    Disturbed (frames ++ ws) := by
  obtain ⟨w, w', hinfix, hw⟩ := h
  exact ⟨w, w', hinfix.trans (prefix_append frames ws).isInfix, hw⟩

theorem Disturbed.not_undisturbed (h : Disturbed frames) : ¬ Undisturbed frames := by
  obtain ⟨w, w', hinfix, hunfinished, hrejected⟩ := h
  intro hchain
  have hrun := List.IsChain.infix hchain hinfix
  have hpair := (isChain_cons_cons.mp hrun).1 hunfinished
  rw [hrejected] at hpair
  cases hpair

theorem Disturbed.not_contiguous (h : Disturbed frames) : ¬ Contiguous frames := by
  obtain ⟨w, w', hinfix, hunfinished, hrejected⟩ := h
  intro hcontiguous
  have hrun := List.IsChain.infix hcontiguous.chain hinfix
  have hcont := (isChain_cons_cons.mp hrun).1.1.mpr hunfinished
  rw [isContinuation_of_rejected hrejected] at hcont
  cases hcont

/-! ## Header blocks that are added -/

theorem headerBlocks_append (frames ws : List RawFrame) :
    headerBlocks (frames ++ ws) = ws.foldl addFrame (headerBlocks frames) :=
  foldl_append

theorem addFrame_other (hstart : w.startsBlock = false) (hcont : w.isContinuation = false)
    (blocks : List (List RawFrame)) : addFrame blocks w = blocks := by
  unfold addFrame
  rw [hstart, hcont]
  rfl

theorem foldl_addFrame_continuations (h : ∀ w ∈ ws, w.startsBlock = false ∧ w.isContinuation = true)
    (blocks : List (List RawFrame)) (b : List RawFrame) :
    ws.foldl addFrame (blocks ++ [b]) = blocks ++ [b ++ ws] := by
  induction ws generalizing b with
  | nil => rw [foldl_nil, append_nil]
  | cons w ws ih =>
    obtain ⟨hstart, hcont⟩ := h w mem_cons_self
    have hadd : addFrame (blocks ++ [b]) w = blocks ++ [b ++ [w]] := by
      unfold addFrame
      rw [hstart, hcont, getLast?_concat, dropLast_concat]
      rfl
    rw [foldl_cons, hadd, ih fun w' hw' => h w' (mem_cons_of_mem _ hw'), append_assoc]
    rfl

/-- A whole header block behind other frames. -/
theorem headerBlocks_block (frames : List RawFrame) (hstart : w.startsBlock = true)
    (h : ∀ w' ∈ ws, w'.startsBlock = false ∧ w'.isContinuation = true) :
    headerBlocks (frames ++ w :: ws) = headerBlocks frames ++ [w :: ws] := by
  have hadd : addFrame (headerBlocks frames) w = headerBlocks frames ++ [[w]] := by
    unfold addFrame
    rw [hstart]
    rfl
  rw [headerBlocks_append, foldl_cons, hadd, foldl_addFrame_continuations h]
  rfl

theorem decodeBlocks_concat (d : Decoder) (blocks : List Bytes) (b : Bytes) :
    decodeBlocks d (blocks ++ [b]) = (decodeBlocks d blocks).bind fun d' => decodeBlock d' b := by
  unfold decodeBlocks
  rw [foldlM_append]
  cases foldlM decodeBlock d blocks with
  | none => rfl
  | some d' =>
    show (decodeBlock d' b >>= fun d'' => some d'') = decodeBlock d' b
    cases decodeBlock d' b <;> rfl

/-- A decoder between two header blocks. -/
structure BetweenBlocks (d : Decoder) : Prop where
  firstField : d.firstField = true
  saveBuf : d.saveBuf = []

/-- A block that was closed without an error. -/
theorem betweenBlocks_close (h : d.close.1 = none) : BetweenBlocks d.close.2 := by
  unfold Decoder.close at h ⊢
  split at h
  · cases h
  · rename_i hsave
    rw [if_neg hsave]
    exact ⟨rfl, length_eq_zero_iff.mp (Nat.eq_zero_of_not_pos hsave)⟩

/-- Between two blocks there is nothing that an empty block changes. -/
theorem decodeBlock_nil (h : BetweenBlocks d) :
    ∃ d', decodeBlock d [] = some d' ∧ Decoder.SameState d d' := by
  have hclose : Decoder.close { d with emitEnabled := false, maxStrLen := 0 } =
      (none, { d with emitEnabled := false, maxStrLen := 0, firstField := true }) := by
    unfold Decoder.close
    rw [if_neg (by rw [h.saveBuf]; exact Nat.lt_irrefl 0)]
  unfold decodeBlock
  simp only [Decoder.write_nil, hclose]
  exact ⟨_, rfl, rfl, h.firstField.symm, rfl⟩

/-- A block that the framer has written to its decoder, in pieces and with limits,
is decoded by the reference to the same state. -/
theorem decodeBlock_of_written {dref : Decoder} {s s' : MetaState} {chunks : List Bytes}
    (hsame : Decoder.SameState dref hdec) (h : Decoder.writeAll (metaEmit g)
      ((hdec.setEmitEnabled true).setMaxStringLength fr.maxHeaderStringLen) s chunks =
        (none, d, s'))
    (hclose : d.close.1 = none) :
    ∃ dref', decodeBlock dref chunks.flatten = some dref' ∧
      Decoder.SameState dref' d.close.2 := by
  have hquieter : Decoder.Quieter (metaEmit g)
      ((hdec.setEmitEnabled true).setMaxStringLength fr.maxHeaderStringLen)
      { dref with emitEnabled := false, maxStrLen := 0 } :=
    ⟨⟨hsame.dynTab.symm, hsame.saveBuf.symm, hsame.firstField.symm, .inr rfl,
      fun hon => Bool.noConfusion hon⟩, .inr rfl⟩
  obtain ⟨herr, hd, _⟩ := Decoder.write_flatten _ _ _ h
  obtain ⟨herr', hquieter'⟩ := Decoder.quieter_write noEmit s () hquieter chunks.flatten herr
  have hafter := hquieter'.sameState
  rw [hd] at hafter
  refine ⟨_, ?_, hafter.close.2.symm⟩
  unfold decodeBlock
  simp only [herr', hafter.close.1, hclose, Option.isSome_none, Bool.false_eq_true, if_false]

/-! ## Chains of frames -/

theorem startsBlock_of_isContinuation (h : w.isContinuation = true) : w.startsBlock = false := by
  unfold RawFrame.startsBlock
  rw [beq_iff_eq.mp h]
  rfl

/-- The frames of a block that is completed. -/
theorem completes_continuations {id : UInt32} {ended : Bool} (h : Completes id ended ws) :
    ∀ w ∈ ws, w.startsBlock = false ∧ w.isContinuation = true := by
  induction ws generalizing ended with
  | nil =>
    intro w hw
    cases hw
  | cons w ws ih =>
    cases ended with
    | true => cases h
    | false =>
      obtain ⟨hcont, _, _, hrest⟩ := h
      intro w' hw'
      rcases mem_cons.mp hw' with rfl | hw'
      · exact ⟨startsBlock_of_isContinuation hcont, hcont⟩
      · exact ih hrest w' hw'

/-- A header block is a chain in order, without a rejected frame, and leaves no
header block open. -/
theorem completes_chain (hw : (w.startsBlock || w.isContinuation) = true)
    (hrejected : w.rejected = false) (h : Completes w.fh.streamID w.endsHeaders ws) :
    (w :: ws).IsChain InOrder ∧ Undisturbed (w :: ws) ∧
      ∀ v ∈ (w :: ws).getLast?, v.unfinished = false := by
  induction ws generalizing w with
  | nil =>
    have hended : w.endsHeaders = true := by
      cases hended : w.endsHeaders with
      | true => rfl
      | false =>
        rw [hended] at h
        cases h
    refine ⟨isChain_singleton w, isChain_singleton w, fun v hv => ?_⟩
    have hvw : w = v := Option.some.inj hv
    unfold RawFrame.unfinished
    rw [← hvw, hended, Bool.not_true, Bool.and_false, Bool.false_and]
  | cons w' ws ih =>
    have hended : w.endsHeaders = false := by
      cases hended : w.endsHeaders with
      | false => rfl
      | true =>
        rw [hended] at h
        cases h
    rw [hended] at h
    obtain ⟨hcont, hid, hrejected', hrest⟩ := h
    rw [← hid] at hrest
    obtain ⟨hchain, hundisturbed, hlast⟩ := ih (by rw [hcont, Bool.or_true]) hrejected' hrest
    have hunfinished : w.unfinished = true := by
      unfold RawFrame.unfinished
      rw [hw, hended, hrejected]
      rfl
    refine ⟨isChain_cons_cons.mpr ⟨⟨?_, fun _ => hid⟩, hchain⟩,
      isChain_cons_cons.mpr ⟨fun _ => hrejected', hundisturbed⟩, hlast⟩
    exact ⟨fun _ => hunfinished, fun _ => hcont⟩

/-- Frames that come when no header block is open. -/
theorem chain_append (hcontiguous : Contiguous frames) (hundisturbed : Undisturbed frames)
    (hlast : ∀ v ∈ frames.getLast?, v.unfinished = false) (hchain : ws.IsChain InOrder)
    (hws : Undisturbed ws) (hhead : ∀ w ∈ ws.head?, w.isContinuation = false) :
    Contiguous (frames ++ ws) ∧ Undisturbed (frames ++ ws) := by
  refine ⟨⟨?_, ?_⟩, ?_⟩
  · refine isChain_append.mpr ⟨hcontiguous.chain, hchain, fun v hv w hw => ?_⟩
    have hcont := hhead w hw
    rw [InOrder, hcont, hlast v hv]
    exact ⟨Iff.rfl, fun hfalse => Bool.noConfusion hfalse⟩
  · intro w hw
    rw [head?_append] at hw
    cases hframes : frames.head? with
    | none =>
      rw [hframes] at hw
      exact hhead w hw
    | some v =>
      rw [hframes] at hw
      exact hcontiguous.head w (by rw [hframes]; exact hw)
  · refine isChain_append.mpr ⟨hundisturbed, hws, fun v hv w _ hunfinished => ?_⟩
    rw [hlast v hv] at hunfinished
    cases hunfinished

/-! ## Whole runs -/

/-- Between two calls of `ReadFrame`, after the given frames, when no frame was
rejected in the middle of a header block. -/
structure Sync (d₀ : Decoder) (frames : List RawFrame) (fr : Framer) : Prop where
  allow : fr.allowIllegalReads = false
  closed : fr.lastHeaderStream = 0
  decoder : ∃ d dref, fr.readMetaHeaders = some d ∧ BetweenBlocks d ∧
    decodeBlocks d₀ ((headerBlocks frames).map blockBytes) = some dref ∧
    Decoder.SameState dref d
  contiguous : Contiguous frames
  undisturbed : Undisturbed frames
  last : ∀ v ∈ frames.getLast?, v.unfinished = false

/-- A frame that changes neither the decoder nor the header blocks. -/
theorem Sync.single (h : Sync d₀ frames fr) (hcont : w.isContinuation = false)
    (hfinished : w.unfinished = false) (hblocks : w.startsBlock = false ∨ w.rejected = true)
    (hallow : fr'.allowIllegalReads = fr.allowIllegalReads)
    (hclosed : fr'.lastHeaderStream = fr.lastHeaderStream)
    (hdecoder : fr'.readMetaHeaders = fr.readMetaHeaders) : Sync d₀ (frames ++ [w]) fr' := by
  obtain ⟨hcontiguous, hundisturbed⟩ := chain_append h.contiguous h.undisturbed h.last
    (isChain_singleton w) (isChain_singleton w)
    (fun v hv => by rw [← Option.some.inj hv]; exact hcont)
  refine ⟨hallow.trans h.allow, hclosed.trans h.closed, ?_, hcontiguous, hundisturbed, ?_⟩
  · obtain ⟨d, dref, hd, hbetween, hdref, hsame⟩ := h.decoder
    cases hstart : w.startsBlock with
    | false =>
      refine ⟨d, dref, hdecoder.trans hd, hbetween, ?_, hsame⟩
      rw [headerBlocks_append]
      show decodeBlocks d₀ ((addFrame (headerBlocks frames) w).map blockBytes) = _
      rw [addFrame_other hstart hcont, hdref]
    | true =>
      have hrejected : w.rejected = true := by
        rcases hblocks with hfalse | hrejected
        · rw [hstart] at hfalse
          cases hfalse
        · exact hrejected
      have hempty : blockBytes [w] = [] := by
        show w.fragment ++ [] = []
        rw [fragment_of_rejected hrejected]
        rfl
      have hbetween' : BetweenBlocks dref :=
        ⟨hsame.firstField.symm.trans hbetween.firstField,
          hsame.saveBuf.symm.trans hbetween.saveBuf⟩
      obtain ⟨dref', hdref', hsame'⟩ := decodeBlock_nil hbetween'
      refine ⟨d, dref', hdecoder.trans hd, hbetween, ?_, ?_⟩
      · rw [headerBlocks_block frames hstart (fun _ hw' => by cases hw'), map_append,
          map_singleton, hempty, decodeBlocks_concat, hdref]
        exact hdref'
      · exact ⟨hsame.dynTab.trans hsame'.dynTab.symm, hsame.firstField.trans hsame'.firstField.symm,
          hsame.saveBuf.trans hsame'.saveBuf.symm⟩
  · intro v hv
    rw [getLast?_concat] at hv
    rw [← Option.some.inj hv]
    exact hfinished

/-- One call keeps the framer in sync, or a frame was rejected in the middle of a
header block. -/
theorem Sync.call (h : Sync d₀ frames fr) (hmeta : fr.readMetaHeaders = some hdec)
    {res : Except Error Frame} (hcall : Framer.ReadCall g fr fr' hdec res ws) :
    Sync d₀ (frames ++ ws) fr' ∨ Disturbed (frames ++ ws) := by
  have horder : ∀ {w : RawFrame}, fr.orderError w.fh = none → w.isContinuation = false := by
    intro w hnone
    unfold Framer.orderError at hnone
    rw [if_neg (fun hne => hne h.closed)] at hnone
    split at hnone
    · cases hnone
    · exact beq_eq_false_iff_ne.mpr ‹_›
  cases hcall with
  | @plain w f parsed other order after =>
    have hcont := horder order
    have hfinished : w.unfinished = false := by
      unfold RawFrame.unfinished
      rw [other, hcont]
      rfl
    have hstream : fr'.lastHeaderStream = fr.lastHeaderStream := by
      rw [after]
      unfold Framer.accepted Framer.headerStreamAfter
      simp only [h.allow, Bool.false_eq_true, if_false, parsed_header parsed]
      unfold RawFrame.startsBlock at other
      unfold RawFrame.isContinuation at hcont
      rw [Bool.or_eq_false_iff, beq_eq_false_iff_ne, beq_eq_false_iff_ne] at other
      rw [beq_eq_false_iff_ne] at hcont
      rw [if_neg (fun htype => htype.elim other.1 fun htype => htype.elim other.2 hcont)]
    exact .inl (h.single hcont hfinished (.inl other) (by rw [after]; rfl) hstream
      (by rw [after]; rfl))
  | @rejected w e rejected after =>
    have hfinished : w.unfinished = false := by
      unfold RawFrame.unfinished
      rw [rejected, Bool.not_true, Bool.and_false]
    exact .inl (h.single (isContinuation_of_rejected rejected) hfinished (.inr rejected)
      (by rw [after]) (by rw [after]) (by rw [after]))
  | @block _ w ws f d s parsed starts order completes written close decoder closed allow result =>
    left
    obtain ⟨_, hcont, _⟩ := parsed_startsBlock parsed starts
    obtain ⟨hchain, hundisturbed, hlast⟩ := completes_chain (by rw [starts, Bool.true_or])
      (not_rejected_of_parsed parsed) completes
    obtain ⟨hcontiguous, hundisturbed'⟩ := chain_append h.contiguous h.undisturbed h.last hchain
      hundisturbed (fun v hv => by rw [← Option.some.inj hv]; exact hcont)
    refine ⟨allow, closed, ?_, hcontiguous, hundisturbed', ?_⟩
    · obtain ⟨d', dref, hd', _, hdref, hsame⟩ := h.decoder
      rw [hmeta] at hd'
      cases hd'
      obtain ⟨dref', hdref', hsame'⟩ := decodeBlock_of_written hsame written close
      refine ⟨d.close.2, dref', decoder, betweenBlocks_close close, ?_, hsame'⟩
      rw [headerBlocks_block frames starts (completes_continuations completes), map_append,
        map_singleton, decodeBlocks_concat, hdref, blockBytes_eq_flatten]
      exact hdref'
    · intro v hv
      rw [getLast?_append_of_ne_nil _ (cons_ne_nil w ws)] at hv
      exact hlast v hv
  | @broken e w w' ws d starts accepted notEnded unfinished rejected decoder allow =>
    right
    have hunfinished : ∀ v ∈ w :: ws, v.unfinished = true := by
      intro v hv
      unfold RawFrame.unfinished
      rcases mem_cons.mp hv with rfl | hv
      · rw [starts, notEnded, accepted]
        rfl
      · obtain ⟨hcont, _, haccepted, hnotEnded⟩ := unfinished v hv
        rw [hcont, haccepted, hnotEnded, Bool.or_true]
        rfl
    have hne : w :: ws ≠ [] := cons_ne_nil w ws
    refine ⟨(w :: ws).getLast hne, w', ?_, hunfinished _ (getLast_mem hne), rejected⟩
    refine ⟨frames ++ (w :: ws).dropLast, [], ?_⟩
    have hsplit := dropLast_append_getLast hne
    calc frames ++ (w :: ws).dropLast ++ [(w :: ws).getLast hne, w'] ++ []
        = frames ++ ((w :: ws).dropLast ++ [(w :: ws).getLast hne]) ++ [w'] := by simp
      _ = frames ++ w :: (ws ++ [w']) := by rw [hsplit]; simp

/-- What a call leaves as it was, also when it breaks off in a header block. -/
theorem Framer.ReadCall.keeps {res : Except Error Frame} (hcall : ReadCall g fr fr' hdec res ws)
    (hallow : fr.allowIllegalReads = false) (hmeta : fr.readMetaHeaders = some hdec) :
    fr'.allowIllegalReads = false ∧ ∃ d, fr'.readMetaHeaders = some d := by
  cases hcall with
  | plain parsed other order after =>
    rw [after]
    exact ⟨hallow, hdec, hmeta⟩
  | rejected rejected after =>
    rw [after]
    exact ⟨hallow, hdec, hmeta⟩
  | block parsed starts order completes written close decoder closed allow result =>
    exact ⟨allow, _, decoder⟩
  | broken starts accepted notEnded unfinished rejected decoder allow =>
    exact ⟨allow, _, decoder⟩

/-- A run of calls, after the frames `frames`. -/
theorem Framer.readFrames_sync (g : HttpGuts) (n : Nat) (hallow : fr.allowIllegalReads = false)
    (hmeta : ∃ hdec, fr.readMetaHeaders = some hdec) (h : Sync d₀ frames fr ∨ Disturbed frames)
    (hgoes : ∀ res ∈ (fr.readFrames g n).1, goesOn res = true) :
    ∃ ws, Received fr.r ws (fr.readFrames g n).2.r ∧
      (Sync d₀ (frames ++ ws) (fr.readFrames g n).2 ∨ Disturbed (frames ++ ws)) := by
  induction n generalizing frames fr with
  | zero => exact ⟨[], .nil _, by rwa [append_nil]⟩
  | succ n ih =>
    obtain ⟨hdec, hdec_eq⟩ := hmeta
    have hhead := hgoes (fr.readFrame g).1 mem_cons_self
    obtain ⟨ws, hreceived, hcall⟩ := readFrame_call g hallow hdec_eq rfl hhead
    obtain ⟨hallow', hmeta'⟩ := hcall.keeps hallow hdec_eq
    have hstep : Sync d₀ (frames ++ ws) (fr.readFrame g).2 ∨ Disturbed (frames ++ ws) := by
      rcases h with hsync | hdisturbed
      · exact hsync.call hdec_eq hcall
      · exact .inr (hdisturbed.append ws)
    obtain ⟨ws', hreceived', hrest⟩ := ih hallow' hmeta' hstep
      (fun res hres => hgoes res (mem_cons_of_mem _ hres))
    refine ⟨ws ++ ws', hreceived.append hreceived', ?_⟩
    rw [← append_assoc]
    exact hrest

/-- After any number of calls that returned a frame or a stream error, the decoder
has seen exactly the header blocks of the frames that were read, and these are
contiguous, if and only if no frame was rejected with a stream error in the
middle of a header block. -/
theorem headers_in_sync_iff (g : HttpGuts) (fr : Framer) (d₀ : Decoder) (n : Nat)
    (hallow : fr.allowIllegalReads = false) (hclosed : fr.lastHeaderStream = 0)
    (hmeta : fr.readMetaHeaders = some d₀) (hbetween : BetweenBlocks d₀)
    (hgoes : ∀ res ∈ (fr.readFrames g n).1, Framer.goesOn res = true) :
    ∃ frames, Received fr.r frames (fr.readFrames g n).2.r ∧
      (HeadersInSync d₀ frames (fr.readFrames g n).2 ↔ Undisturbed frames) := by
  have hstart : Sync d₀ [] fr := by
    refine ⟨hallow, hclosed, ⟨d₀, d₀, hmeta, hbetween, rfl, rfl, rfl, rfl⟩, ⟨.nil, ?_⟩, .nil, ?_⟩
    · intro w hw
      cases hw
    · intro w hw
      cases hw
  obtain ⟨frames, hreceived, h⟩ :=
    Framer.readFrames_sync g n hallow ⟨d₀, hmeta⟩ (Or.inl hstart) hgoes
  refine ⟨frames, hreceived, ?_⟩
  rcases h with hsync | hdisturbed
  · obtain ⟨d, dref, hd, _, hdref, hsame⟩ := hsync.decoder
    exact ⟨fun _ => hsync.undisturbed, fun _ => ⟨⟨d, dref, hd, hdref, hsame⟩, hsync.contiguous⟩⟩
  · exact ⟨fun hin => (hdisturbed.not_contiguous hin.contiguous).elim,
      fun hundisturbed => (hdisturbed.not_undisturbed hundisturbed).elim⟩

/-- A framer that merges header frames, with a new decoder. -/
def mergingFramer (r : Bytes) : Framer :=
  { Framer.new r with readMetaHeaders := some (Decoder.new 4096) }

/-- `:method: GET` in a `HEADERS` frame without `END_HEADERS`. -/
def openingFrame : Bytes := [0, 0, 1, 1, 0, 0, 0, 0, 1, 0x82]

/-- `a: b`, to be added to the dynamic table, in the last `CONTINUATION` frame. -/
def closingFrame : Bytes := [0, 0, 5, 9, 4, 0, 0, 0, 1, 0x40, 1, 0x61, 1, 0x62]

/-- A `WINDOW_UPDATE` frame of the same stream with the increment zero. -/
def zeroWindowUpdate : Bytes := [0, 0, 4, 8, 0, 0, 0, 0, 1, 0, 0, 0, 0]

theorem headers_in_sync_iff_merged :
    ∃ frames, Received (openingFrame ++ closingFrame) frames
        ((mergingFramer (openingFrame ++ closingFrame)).readFrames ⟨fun _ => true, fun _ => true⟩
          1).2.r ∧
      (HeadersInSync (Decoder.new 4096) frames
        ((mergingFramer (openingFrame ++ closingFrame)).readFrames ⟨fun _ => true, fun _ => true⟩
          1).2 ↔ Undisturbed frames) :=
  headers_in_sync_iff ⟨fun _ => true, fun _ => true⟩ (mergingFramer (openingFrame ++ closingFrame))
    (Decoder.new 4096) 1 rfl rfl rfl ⟨rfl, rfl⟩ (by decide +kernel)

/-- The frames of `openingFrame`, `zeroWindowUpdate` and `closingFrame`. -/
def interruptedFrames : List RawFrame :=
  [⟨⟨.headers, 0, 1, 1⟩, [0x82]⟩, ⟨⟨.windowUpdate, 0, 4, 1⟩, [0, 0, 0, 0]⟩,
    ⟨⟨.continuation, 4, 5, 1⟩, [0x40, 1, 0x61, 1, 0x62]⟩]

/-- Two calls take the three frames and return a stream error and a `CONTINUATION`
frame.  The entry that the header block adds is not in the decoder's table. -/
theorem headers_out_of_sync :
    let fr := mergingFramer (openingFrame ++ zeroWindowUpdate ++ closingFrame)
    let after := fr.readFrames ⟨fun _ => true, fun _ => true⟩ 2
    (∀ res ∈ after.1, Framer.goesOn res = true) ∧
      Received fr.r interruptedFrames after.2.r ∧
      after.2.readMetaHeaders.map (fun d => d.dynTab.table.ents.length) = some 0 ∧
      (decodeBlocks (Decoder.new 4096) ((headerBlocks interruptedFrames).map blockBytes)).map
        (fun d => d.dynTab.table.ents.length) = some 1 ∧
      ¬ HeadersInSync (Decoder.new 4096) interruptedFrames after.2 := by
  intro fr after
  have htable : after.2.readMetaHeaders.map (fun d => d.dynTab.table.ents.length) = some 0 := by
    decide +kernel
  have href : (decodeBlocks (Decoder.new 4096)
      ((headerBlocks interruptedFrames).map blockBytes)).map
        (fun d => d.dynTab.table.ents.length) = some 1 := by
    decide +kernel
  refine ⟨by decide +kernel, ?_, htable, href, fun hin => ?_⟩
  · have hr : after.2.r = [] := by decide +kernel
    have hfirst : Framer.splitFrame? fr.r =
        some (⟨.headers, 0, 1, 1⟩, [0x82], zeroWindowUpdate ++ closingFrame) := by
      decide +kernel
    have hsecond : Framer.splitFrame? (zeroWindowUpdate ++ closingFrame) =
        some (⟨.windowUpdate, 0, 4, 1⟩, [0, 0, 0, 0], closingFrame) := rfl
    rw [hr]
    exact .cons hfirst (.cons hsecond (.single rfl))
  · obtain ⟨d, dref, hd, hdref, hsame⟩ := hin.decoder
    rw [hd, Option.map_some, hsame.dynTab] at htable
    rw [hdref, Option.map_some, htable] at href
    cases href

end Fhttp.Http2
