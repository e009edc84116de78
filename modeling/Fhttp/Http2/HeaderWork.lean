import Fhttp.Http2.HeaderFragments
import Fhttp.Http2.HeaderSync

/-!
# How much one call of ReadFrame reads

A framer that merges header frames goes on to decode a header block after the limit for the
header list is reached, so that its table stays the same as that of the peer.  What it reads
in one call is bounded by the number of `CONTINUATION` frames that the peer sends
(`readFrame_octets`), but not by the limit and the frame size (`header_work_unbounded`).
-/

namespace Fhttp.Http2

open Hpack (Bytes Decoder EmitFunc ascii)
open List

/-- A `CONTINUATION` frame that does not end its header block. -/
def RawFrame.continues (w : RawFrame) : Prop :=
  (∃ frag, w.parsed = .ok (.continuation w.fh frag)) ∧ w.endsHeaders = false

namespace Framer

/-- The octets of the largest frame that is read, with its header. -/
def largestFrame (fr : Framer) : Nat := frameHeaderLen + fr.maxReadSize.toNat

theorem readRaw_octets (fr : Framer) : fr.r.length ≤ fr.readRaw.2.r.length + fr.largestFrame := by
  unfold readRaw readFull largestFrame
  grind [UInt32.le_iff_toNat_le, UInt32.not_lt]

theorem readSingle_octets (fr : Framer) :
    fr.r.length ≤ fr.readSingle.2.r.length + fr.largestFrame := by
  have hr : fr.readSingle.2.r = (readRaw { fr with errDetail := none }).2.r := by
    unfold readSingle
    grind [checkFrameOrder, connError]
  rw [hr]
  exact readRaw_octets { fr with errDetail := none }

section

variable (g : HttpGuts) (fr : Framer) (hdec : Decoder) (s : MetaState) (frag : Bytes)

theorem metaLoop_true_r : (metaLoop g fr hdec s frag true).2.r = fr.r := by
  rw [metaLoop]
  split <;> rfl

/-- The loop reads the `CONTINUATION` frames that do not end the header block, and one frame
more. -/
theorem metaLoop_octets (ended : Bool) :
    ∃ ws r', Received fr.r ws r' ∧ (∀ w ∈ ws, w.continues) ∧
      fr.r.length ≤ (metaLoop g fr hdec s frag ended).2.r.length +
        (ws.length + 1) * fr.largestFrame := by
  have hone : ∀ {fr fr' : Framer}, fr.r.length ≤ fr'.r.length + fr.largestFrame →
      ∃ ws r', Received fr.r ws r' ∧ (∀ w ∈ ws, w.continues) ∧
        fr.r.length ≤ fr'.r.length + (ws.length + 1) * fr.largestFrame :=
    fun hle => ⟨[], _, .nil _, nofun, by simpa using hle⟩
  fun_induction metaLoop g fr hdec s frag ended with
  | case1 => exact hone (Nat.le_add_right _ _)
  | case2 => exact hone (Nat.le_add_right _ _)
  | case3 fr hdec s frag ended w fr₁ herr hended e fr' hread =>
    have hle := readSingle_octets fr₁
    rw [hread] at hle
    exact hone hle
  | case4 fr hdec s frag ended w fr₁ herr hended fh frag' fr' hread hlt ih =>
    have hle := readSingle_octets fr₁
    rw [hread] at hle
    obtain ⟨fh₀, payload, hsplit, -, hparse, -, hfr'⟩ := readSingle_ok hread
    obtain rfl : fh = fh₀ := parsed_header (w := ⟨fh₀, payload⟩) hparse
    cases hend : fh.flags.has flagContinuationEndHeaders with
    | true =>
      refine hone ?_
      rw [metaLoop_true_r]
      exact hle
    | false =>
      rw [hend] at ih
      obtain ⟨ws, r', hreceived, hws, hoctets⟩ := ih
      have hmax : fr'.largestFrame = fr.largestFrame := by
        rw [hfr']
        rfl
      refine ⟨⟨fh, payload⟩ :: ws, r', .cons hsplit hreceived,
        forall_mem_cons.mpr ⟨⟨⟨frag', hparse⟩, hend⟩, hws⟩, ?_⟩
      have hle : fr.r.length ≤ fr'.r.length + fr.largestFrame := hle
      rw [hmax] at hoctets
      rw [length_cons, Nat.succ_mul]
      omega
  | case5 fr hdec s frag ended w fr₁ herr hended f fr' hnot hread =>
    have hle := readSingle_octets fr₁
    rw [hread] at hle
    exact hone hle

end

/-- What one call of `ReadFrame` reads: at most one frame more than those at the front of the
connection that are, but for the first, `CONTINUATION` frames without `END_HEADERS`. -/
theorem readFrame_octets (g : HttpGuts) (fr : Framer) :
    ∃ ws r', Received fr.r ws r' ∧ (∀ w ∈ ws.tail, w.continues) ∧
      fr.r.length ≤ (fr.readFrame g).2.r.length + (ws.length + 1) * fr.largestFrame := by
  have hle := readSingle_octets fr
  have hone : ∀ {fr' : Framer}, fr.r.length ≤ fr'.r.length + fr.largestFrame →
      ∃ ws r', Received fr.r ws r' ∧ (∀ w ∈ ws.tail, w.continues) ∧
        fr.r.length ≤ fr'.r.length + (ws.length + 1) * fr.largestFrame :=
    fun hle => ⟨[], _, .nil _, nofun, by simpa using hle⟩
  unfold readFrame
  cases hread : fr.readSingle with
  | mk res fr₁ =>
    rw [hread] at hle
    cases res with
    | error e => exact hone hle
    | ok f =>
      have hle : fr.r.length ≤ fr₁.r.length + fr.largestFrame := hle
      simp only
      split
      · rename_i frag ended hdec hcont hmeta
        unfold readMetaFrame
        split
        · exact hone hle
        obtain ⟨fh, payload, hsplit, -, -, -, hfr₁⟩ := readSingle_ok hread
        have hmax : fr₁.largestFrame = fr.largestFrame := by
          rw [hfr₁]
          rfl
        obtain ⟨ws, r', hreceived, hws, hoctets⟩ := metaLoop_octets g fr₁
          ((hdec.setEmitEnabled true).setMaxStringLength fr₁.maxHeaderStringLen)
          { remainSize := fr₁.maxHeaderListSize } frag ended
        refine ⟨⟨fh, payload⟩ :: ws, r', .cons hsplit hreceived, hws, ?_⟩
        have hsum : fr.r.length ≤ (metaLoop g fr₁
            ((hdec.setEmitEnabled true).setMaxStringLength fr₁.maxHeaderStringLen)
            { remainSize := fr₁.maxHeaderListSize } frag ended).2.r.length +
              ((ws.length + 1) + 1) * fr.largestFrame := by
          rw [hmax] at hoctets
          rw [Nat.succ_mul]
          omega
        simp only
        split
        · rename_i hloop
          rwa [hloop] at hsum
        · rename_i hloop
          rw [hloop] at hsum
          rwa [finishMeta_r]
      · exact hone hle

end Framer

/-! ## A flood of CONTINUATION frames -/

section

variable {σ : Type} (emit : EmitFunc σ) {d : Decoder}

/-- The field `:method: GET` of the static table is decoded from one octet. -/
theorem write_methodGet (s : σ) (hbuf : d.saveBuf = []) (hlen : 7 ≤ d.maxStrLen) :
    (d.write emit s [0x82]).err = none ∧ (d.write emit s [0x82]).d.saveBuf = [] ∧
      (d.write emit s [0x82]).d.maxStrLen = d.maxStrLen := by
  let hf : Hpack.HeaderField := { name := ascii ":method", value := ascii "GET" }
  have hemit : ∃ d₁ s₁, Decoder.callEmit emit { d with saveBuf := [] } s hf = .ok (d₁, s₁) ∧
      d₁.maxStrLen = d.maxStrLen := by
    unfold Decoder.callEmit
    rw [if_neg fun hlong => ?_]
    · split
      · exact ⟨_, _, rfl, rfl⟩
      · exact ⟨_, _, rfl, rfl⟩
    · have hlong : (7 : Int) > d.maxStrLen ∨ (3 : Int) > d.maxStrLen := hlong.2
      omega
  obtain ⟨d₁, s₁, hcall, hmax⟩ := hemit
  have hstep : Decoder.parseNext emit ({ d with saveBuf := [] }, s) [0x82] =
      .ok ({ d₁ with firstField := false }, s₁) [] := by
    have hrepr : Decoder.parseHeaderFieldRepr emit { d with saveBuf := [] } s [0x82] =
        Decoder.returnEmit emit { d with saveBuf := [] } s hf [] := rfl
    unfold Decoder.parseNext
    rw [hrepr, Decoder.returnEmit, hcall]
    rfl
  have hrun : (Decoder.stepper emit).run ({ d with saveBuf := [] }, s) (d.saveBuf ++ [0x82]) =
      .parked ({ d₁ with firstField := false }, s₁) [] := by
    rw [hbuf, nil_append, Lib.Incremental.Stepper.run_of_ok _ hstep,
      Lib.Incremental.Stepper.run_nil]
  unfold Decoder.write
  rw [if_neg (cons_ne_nil _ _), hrun]
  exact ⟨rfl, rfl, hmax⟩

theorem writeAll_methodGet (n : Nat) (s : σ) (hbuf : d.saveBuf = []) (hlen : 7 ≤ d.maxStrLen) :
    ∃ d' s', d.writeAll emit s (replicate n [0x82]) = (none, d', s') := by
  induction n generalizing d s with
  | zero => exact ⟨d, s, rfl⟩
  | succ n ih =>
    obtain ⟨herr, hbuf', hlen'⟩ := write_methodGet emit s hbuf hlen
    rw [replicate_succ, Decoder.writeAll]
    simp only [herr]
    exact ih _ hbuf' (hlen' ▸ hlen)

end

/-- A HEADERS frame that does not end its header block. -/
def floodHeaders : WriteCall :=
  .headers { streamID := 1, blockFragment := [0x82], endStream := true, endHeaders := false }

/-- One call reads all `CONTINUATION` frames. -/
theorem readFrame_flood (g : HttpGuts) (n : Nat) :
    ∃ bytes, writeAll false (floodHeaders :: continuations 1 (replicate (n + 1) [0x82])) =
        .ok bytes ∧ ((mergingFramer bytes).readFrame g).2.r = [] := by
  have hok : ∀ c ∈ floodHeaders :: continuations 1 (replicate (n + 1) [0x82]),
      (c.write false).isOk = true := by
    rw [forall_mem_cons]
    refine ⟨by decide, fun c hc => ?_⟩
    obtain ⟨frag, hmem, last, rfl⟩ := mem_continuations hc
    rw [eq_of_mem_replicate hmem]
    exact (isOk_continuation ..).mpr ⟨by decide, by decide⟩
  obtain ⟨bytes, hwrite⟩ := writeAll_of_isOk hok
  obtain ⟨b, bs, hb, hbs, rfl⟩ := writeAll_cons hwrite
  refine ⟨b ++ bs, hwrite, ?_⟩
  have hsize : 1 ≤ Framer.maxFrameSize.toNat := by decide
  have hr : (mergingFramer (b ++ bs)).r = b ++ bs := rfl
  have hfits : floodHeaders.payload.length ≤ (mergingFramer (b ++ bs)).maxReadSize.toNat := hsize
  have hin : floodHeaders.InOrder none := rfl
  have hopens : floodHeaders.opens? = some (1, [0x82], false) := rfl
  obtain ⟨f, hread, hheader, hcontent⟩ :=
    readSingle_write (fun _ => rfl) hb (cons_ne_nil _ _) hfits hin hr
  have hcont := continuable?_of_opens? hopens hheader hcontent
  let fr := (mergingFramer (b ++ bs)).accepted f bs
  have hopen : fr.lastHeaderStream = 1 := by
    show Framer.headerStreamAfter (mergingFramer (b ++ bs)) f.header = 1
    rw [hheader]
    rfl
  have hallow : fr.allowIllegalReads = false := rfl
  have hrest : fr.r = bs ++ [] := (append_nil bs).symm
  obtain ⟨d', s', hdecode⟩ := writeAll_methodGet (metaEmit g) (n + 2)
    (d := fr.metaDecoder (Decoder.new 4096))
    { remainSize := fr.maxHeaderListSize } rfl (show 7 ≤ (16777216 : Int) by decide)
  have hfrags : ∀ frag ∈ replicate (n + 1) ([0x82] : Bytes),
      frag.length ≤ fr.maxReadSize.toNat := by
    intro frag hfrag
    rw [eq_of_mem_replicate hfrag]
    exact hsize
  obtain ⟨fr', hloop, hr'⟩ := (Framer.metaLoop_continuations g
    (replicate (n + 1) [0x82]) (fr.metaDecoder (Decoder.new 4096)) hallow hopen hbs hrest hfrags
    { remainSize := fr.maxHeaderListSize } [0x82]).2 d' s' hdecode
  have hmeta : (Framer.readMetaFrame g fr (Decoder.new 4096) f [0x82] false).2.r = [] := by
    unfold Framer.readMetaFrame
    simp only [hallow, Bool.false_eq_true, if_false]
    rw [replicate_succ, isEmpty_cons, Framer.metaDecoder] at hloop
    rw [hloop]
    exact (Framer.finishMeta_r ..).trans hr'
  unfold Framer.readFrame
  rw [hread]
  simp only [hcont]
  exact hmeta

/-- No function of the limit for the header list and of the frame size bounds the octets of a
header block that one call reads. -/
theorem header_work_unbounded :
    ¬ ∃ bound : UInt32 → UInt32 → Nat, ∀ (g : HttpGuts) (fr : Framer) (frags : List Bytes)
      (bytes rest : Bytes), writeAll false (floodHeaders :: continuations 1 frags) = .ok bytes →
        fr.r = bytes ++ rest → (fr.readFrame g).2.r = rest →
        frags.flatten.length ≤ bound fr.maxHeaderListSize fr.maxReadSize := by
  rintro ⟨bound, hbound⟩
  obtain ⟨bytes, hwrite, hread⟩ :=
    readFrame_flood ⟨fun _ => true, fun _ => true⟩
      (bound (mergingFramer []).maxHeaderListSize (mergingFramer []).maxReadSize)
  have hle := hbound _ (mergingFramer bytes) _ bytes [] hwrite (append_nil _).symm hread
  rw [flatten_replicate_singleton, length_replicate] at hle
  exact absurd hle (Nat.not_succ_le_self _)

end Fhttp.Http2
