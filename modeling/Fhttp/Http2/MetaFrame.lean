import Fhttp.Hpack.Emission
import Fhttp.Http2.HeaderBlock

/-!
# What is in a meta frame

The fields of a meta frame have passed two checks.  The emit callback looks at one
field at a time, while the header block is decoded (`metaEmit`), and
`checkPseudos` looks at the pseudo-header fields afterwards.  `ValidFields` is
what they give together.

By `write_feed` the callback has been fed the first fields of the block, so that
the first check is a fold over a list: `feed_metaEmit`.  The main result is
`readFrame_meta_valid`.
-/

namespace Fhttp.Http2

open Hpack (Bytes HeaderField Decoder ascii)
open Hpack.Decoder (feed)
open List

/-! ## The emit callback -/

/-- The fields that the callback has added to the meta frame.  There is no
pseudo-header field among them when a regular field was seen before. -/
structure Added (g : HttpGuts) (sawRegular : Bool) (more : List HeaderField) : Prop where
  values : ∀ hf ∈ more, g.validHeaderFieldValue hf.value = true
  names : ∀ hf ∈ more, hf.isPseudo = false → g.validWireHeaderFieldName hf.name = true
  order : ∃ pseudos regulars, more = pseudos ++ regulars ∧
    (∀ hf ∈ pseudos, hf.isPseudo = true) ∧ (∀ hf ∈ regulars, hf.isPseudo = false) ∧
    (sawRegular = true → pseudos = [])

theorem Added.nil (g : HttpGuts) (sawRegular : Bool) : Added g sawRegular [] where
  values := nofun
  names := nofun
  order := ⟨[], [], rfl, nofun, nofun, fun _ => rfl⟩

variable {g : HttpGuts} {hf : HeaderField} {s : MetaState} {seen fields : List HeaderField}
  {f : Frame}

/-- A field in front of others. -/
theorem Added.cons {sawRegular : Bool} {more : List HeaderField}
    (h : Added g (sawRegular || !hf.isPseudo) more)
    (hvalue : g.validHeaderFieldValue hf.value = true)
    (hname : hf.isPseudo = false → g.validWireHeaderFieldName hf.name = true)
    (hpseudo : hf.isPseudo = true → sawRegular = false) : Added g sawRegular (hf :: more) where
  values := by
    intro hf' hmem
    rcases mem_cons.mp hmem with rfl | hmem
    · exact hvalue
    · exact h.values hf' hmem
  names := by
    intro hf' hmem
    rcases mem_cons.mp hmem with rfl | hmem
    · exact hname
    · exact h.names hf' hmem
  order := by
    obtain ⟨pseudos, regulars, rfl, hpseudos, hregulars, hnone⟩ := h.order
    cases hp : hf.isPseudo with
    | true =>
      refine ⟨hf :: pseudos, regulars, rfl, ?_, hregulars, fun hsaw => ?_⟩
      · intro hf' hmem
        rcases mem_cons.mp hmem with rfl | hmem
        · exact hp
        · exact hpseudos hf' hmem
      · rw [hpseudo hp] at hsaw
        cases hsaw
    | false =>
      have hnil : pseudos = [] := hnone (by rw [hp, Bool.not_false, Bool.or_true])
      subst hnil
      refine ⟨[], hf :: regulars, rfl, (fun hf' hmem => by cases hmem), ?_, fun _ => rfl⟩
      intro hf' hmem
      rcases mem_cons.mp hmem with rfl | hmem
      · exact hp
      · exact hregulars hf' hmem

/-- A field with which the callback finds nothing wrong. -/
theorem check_eq_none (h : s.check g hf = none) :
    s.invalid = none ∧ g.validHeaderFieldValue hf.value = true ∧
      (hf.isPseudo = false → g.validWireHeaderFieldName hf.name = true) ∧
      (hf.isPseudo = true → s.sawRegular = false) := by
  unfold MetaState.check at h
  cases hpseudo : hf.isPseudo with
  | true =>
    rw [hpseudo, if_pos rfl] at h
    split at h
    · cases h
    · rename_i hsaw
      split at h
      · cases h
      · rename_i hvalue
        rw [Bool.not_eq_true', Bool.not_eq_false] at hvalue
        exact ⟨h, hvalue, fun hfalse => Bool.noConfusion hfalse,
          fun _ => Bool.eq_false_of_not_eq_true hsaw⟩
  | false =>
    rw [hpseudo, if_neg Bool.false_ne_true] at h
    split at h
    · cases h
    · rename_i hname
      split at h
      · cases h
      · rename_i hvalue
        rw [Bool.not_eq_true', Bool.not_eq_false] at hvalue hname
        exact ⟨h, hvalue, fun _ => hname, fun hfalse => Bool.noConfusion hfalse⟩

/-- What the callback does with a field: it is invalid, too large, or added. -/
theorem metaEmit_cases (g : HttpGuts) (s : MetaState) (hf : HeaderField) :
    ((metaEmit g s hf).2 = false ∧ (metaEmit g s hf).1.invalid ≠ none) ∨
    ((metaEmit g s hf).2 = false ∧ (metaEmit g s hf).1.truncated = true ∧
      (metaEmit g s hf).1.fields = s.fields ∧ (metaEmit g s hf).1.remainSize = s.remainSize) ∨
    (s.check g hf = none ∧ hf.size ≤ s.remainSize ∧
      metaEmit g s hf =
        ({ s with
            invalid := none
            sawRegular := s.sawRegular || !hf.isPseudo
            remainSize := s.remainSize - hf.size
            fields := s.fields ++ [hf] }, true)) := by
  unfold metaEmit
  cases hcheck : s.check g hf with
  | some e => exact .inl ⟨rfl, Option.some_ne_none e⟩
  | none =>
    right
    by_cases hlarge : hf.size > s.remainSize
    · left
      simp only [Option.isSome_none, Bool.false_eq_true, if_false, if_pos hlarge, true_and]
    · right
      refine ⟨rfl, UInt32.not_lt.mp hlarge, ?_⟩
      simp only [Option.isSome_none, Bool.false_eq_true, if_false, if_neg hlarge]

/-- The callback adds the first fields that it is fed, all of them when emission
stays on, and otherwise the meta frame is truncated. -/
theorem feed_metaEmit (g : HttpGuts) (log : List HeaderField) {s' : MetaState} {on : Bool}
    (h : feed (metaEmit g) s log = (s', on)) (hvalid : s'.invalid = none)
    (htruncated : s.truncated = false) :
    ∃ more, s'.fields = s.fields ++ more ∧ Added g s.sawRegular more ∧ more <+: log ∧
      (more = log ↔ on = true) ∧ s'.truncated = !on ∧
      (more.map fun hf => hf.size.toNat).sum + s'.remainSize.toNat = s.remainSize.toNat := by
  induction log generalizing s with
  | nil =>
    cases h
    exact ⟨[], (append_nil _).symm, .nil g _, prefix_rfl,
      ⟨fun _ => rfl, fun _ => rfl⟩, htruncated, Nat.zero_add _⟩
  | cons hf log ih =>
    rw [feed] at h
    rcases metaEmit_cases g s hf with ⟨hoff, hinvalid⟩ | ⟨hoff, htrunc, hfields, hremain⟩ |
      ⟨hcheck, hsize, hemit⟩
    · rw [if_neg (by rw [hoff]; exact Bool.false_ne_true)] at h
      rw [h] at hinvalid
      exact (hinvalid hvalid).elim
    · rw [if_neg (by rw [hoff]; exact Bool.false_ne_true)] at h
      rw [h] at hoff htrunc hfields hremain
      cases hoff
      refine ⟨[], by rw [hfields, append_nil], .nil g _, nil_prefix, ?_, htrunc, ?_⟩
      · exact ⟨fun hnil => absurd hnil.symm (cons_ne_nil hf log),
          fun hfalse => Bool.noConfusion hfalse⟩
      · rw [hremain]
        exact Nat.zero_add _
    · rw [hemit, if_pos rfl] at h
      obtain ⟨_, hvalue, hname, hpseudo⟩ := check_eq_none hcheck
      obtain ⟨more, hfields, hadded, hprefix, hall, htrunc, hsum⟩ := ih h htruncated
      refine ⟨hf :: more, ?_, hadded.cons hvalue hname hpseudo, ?_, ?_, htrunc, ?_⟩
      · rw [hfields, append_assoc]
        rfl
      · exact cons_prefix_cons.mpr ⟨rfl, hprefix⟩
      · rw [cons.injEq, hall]
        exact ⟨fun hboth => hboth.2, fun hon => ⟨rfl, hon⟩⟩
      · have hle : hf.size.toNat ≤ s.remainSize.toNat := UInt32.le_iff_toNat_le.mp hsize
        rw [UInt32.toNat_sub_of_le _ _ hsize] at hsum
        rw [map_cons, sum_cons]
        omega

/-! ## `checkPseudos` -/

theorem requestPseudos_disjoint : ∀ name ∈ requestPseudos, name ∉ responsePseudos := by
  decide

theorem nodup_concat (hseen : (seen.map HeaderField.name).Nodup)
    (hnew : ¬ (seen.any fun hf2 => hf.name == hf2.name) = true) :
    ((seen ++ [hf]).map HeaderField.name).Nodup := by
  rw [map_append, nodup_append]
  refine ⟨hseen, nodup_singleton _, ?_⟩
  intro a ha b hb hab
  obtain ⟨hf2, hmem, rfl⟩ := mem_map.mp ha
  rw [map_singleton, mem_singleton] at hb
  refine hnew (any_eq_true.mpr ⟨hf2, hmem, ?_⟩)
  rw [hab, hb]
  exact beq_self_eq_true _

/-- The pseudo-header fields that pass the loop, after those in `seen`. -/
theorem checkPseudosLoop_ok {pf : List HeaderField} {isRequest isResponse : Bool} {r : Bool × Bool}
    (h : checkPseudosLoop seen isRequest isResponse pf = .ok r)
    (hseen : (seen.map HeaderField.name).Nodup) :
    ((seen ++ pf).map HeaderField.name).Nodup ∧
      (∀ hf ∈ pf, hf.name ∈ requestPseudos ∨ hf.name ∈ responsePseudos) ∧
      ((isRequest = true ∨ ∃ hf ∈ pf, hf.name ∈ requestPseudos) → r.1 = true) ∧
      ((isResponse = true ∨ ∃ hf ∈ pf, hf.name ∈ responsePseudos) → r.2 = true) := by
  induction pf generalizing seen isRequest isResponse with
  | nil =>
    cases h
    refine ⟨by rwa [append_nil], (fun hf hmem => by cases hmem), ?_, ?_⟩
    · intro hor
      exact hor.elim id fun ⟨hf, hmem, _⟩ => by cases hmem
    · intro hor
      exact hor.elim id fun ⟨hf, hmem, _⟩ => by cases hmem
  | cons hf pf ih =>
    have hassoc : seen ++ hf :: pf = seen ++ [hf] ++ pf := (append_cons seen hf pf)
    rw [checkPseudosLoop] at h
    split at h
    · rename_i hrequest
      split at h
      · cases h
      rename_i hnew
      obtain ⟨hnodup, hknown, hreq, hres⟩ := ih h (nodup_concat hseen hnew)
      refine ⟨by rwa [hassoc], ?_, fun _ => hreq (.inl rfl), ?_⟩
      · exact forall_mem_cons.mpr ⟨.inl hrequest, hknown⟩
      · intro hor
        refine hres (hor.imp_right fun hex => ?_)
        rw [exists_mem_cons_iff] at hex
        refine hex.resolve_left fun hresponse => ?_
        exact absurd hresponse (requestPseudos_disjoint _ hrequest)
    · rename_i hrequest
      split at h
      · rename_i hresponse
        split at h
        · cases h
        rename_i hnew
        obtain ⟨hnodup, hknown, hreq, hres⟩ := ih h (nodup_concat hseen hnew)
        refine ⟨by rwa [hassoc], ?_, ?_, fun _ => hres (.inl rfl)⟩
        · exact forall_mem_cons.mpr ⟨.inr hresponse, hknown⟩
        · intro hor
          refine hreq (hor.imp_right fun hex => ?_)
          rw [exists_mem_cons_iff] at hex
          exact hex.resolve_left hrequest
      · cases h

/-- The pseudo-header fields of a request or of a response. -/
structure ValidPseudos (pseudos : List HeaderField) : Prop where
  known : ∀ hf ∈ pseudos, hf.name ∈ requestPseudos ∨ hf.name ∈ responsePseudos
  nodup : (pseudos.map HeaderField.name).Nodup
  notMixed : ¬ ((∃ hf ∈ pseudos, hf.name ∈ requestPseudos) ∧
    ∃ hf ∈ pseudos, hf.name ∈ responsePseudos)

theorem checkPseudos_ok (h : checkPseudos fields = .ok ()) :
    ValidPseudos (pseudoFields fields) := by
  unfold checkPseudos at h
  split at h
  · cases h
  · rename_i isRequest isResponse hloop
    obtain ⟨hnodup, hknown, hreq, hres⟩ := checkPseudosLoop_ok hloop nodup_nil
    refine ⟨hknown, hnodup, fun hmixed => ?_⟩
    have hrequest : isRequest = true := hreq (.inr hmixed.1)
    have hresponse : isResponse = true := hres (.inr hmixed.2)
    rw [hrequest, hresponse] at h
    cases h

/-! ## The whole frame -/

/-- The callback adds only fields that `callEmit` has found short enough. -/
theorem invariant_shortFields (g : HttpGuts) {limit : Int} (hlimit : limit ≠ 0) :
    Decoder.Invariant (metaEmit g) fun ds => ds.1.maxStrLen = limit ∧
      ∀ hf ∈ ds.2.fields, (hf.name.length : Int) ≤ limit ∧ (hf.value.length : Int) ≤ limit where
  emit := by
    intro d s hf h _ hwithin
    refine ⟨h.1, ?_⟩
    have hshort := hwithin (by rw [h.1]; exact hlimit)
    rw [h.1] at hshort
    intro hf' hmem
    unfold metaEmit at hmem
    simp only at hmem
    split at hmem
    · exact h.2 hf' hmem
    split at hmem
    · exact h.2 hf' hmem
    · rcases mem_append.mp hmem with hmem | hmem
      · exact h.2 hf' hmem
      · rw [mem_singleton.mp hmem]
        exact hshort
  add := fun _ h => h
  setMaxSize := fun _ h => h
  firstField := fun h => h

/-- The fields of a valid meta frame, for a limit on the header list size. -/
structure ValidFields (g : HttpGuts) (limit : UInt32) (fields : List HeaderField) : Prop where
  split : ∃ pseudos regulars, fields = pseudos ++ regulars ∧ ValidPseudos pseudos ∧
    ∀ hf ∈ regulars, hf.isPseudo = false ∧ g.validWireHeaderFieldName hf.name = true
  values : ∀ hf ∈ fields, g.validHeaderFieldValue hf.value = true
  size : (fields.map fun hf => hf.size.toNat).sum ≤ limit.toNat
  /-- Below this limit `Size` does not wrap. -/
  entrySize : limit.toNat + 16 < 2 ^ 31 → (fields.map HeaderField.entrySize).sum ≤ limit.toNat

/-- The fields that a whole block is decoded to without limits. -/
def decodedFields (d : Decoder) (block : Bytes) : List HeaderField :=
  (Decoder.write Decoder.collect { d with emitEnabled := true, maxStrLen := 0 } [] block).s

theorem pseudoFields_append {pseudos regulars : List HeaderField}
    (hpseudos : ∀ hf ∈ pseudos, hf.isPseudo = true)
    (hregulars : ∀ hf ∈ regulars, hf.isPseudo = false) :
    pseudoFields (pseudos ++ regulars) = pseudos := by
  unfold pseudoFields
  rw [takeWhile_append_of_pos hpseudos]
  cases regulars with
  | nil => exact append_nil _
  | cons hf regulars =>
    have hneg : ¬ hf.isPseudo = true := by
      rw [hregulars hf mem_cons_self]
      exact Bool.false_ne_true
    rw [takeWhile_cons_of_neg hneg, append_nil]

/-- The sizes do not wrap when names and values are not longer than the limit. -/
theorem map_size_eq_entrySize {limit : Nat} (hlimit : limit + 16 < 2 ^ 31)
    (h : ∀ hf ∈ fields, hf.name.length ≤ limit ∧ hf.value.length ≤ limit) :
    (fields.map fun hf => hf.size.toNat) = fields.map HeaderField.entrySize := by
  refine map_congr_left fun hf hmem => HeaderField.size_toNat_of_lt ?_
  have hlen := h hf hmem
  unfold HeaderField.entrySize
  omega

theorem maxHeaderStringLen_ne_zero (fr : Framer) : fr.maxHeaderStringLen ≠ 0 := by
  unfold Framer.maxHeaderStringLen Framer.maxHeaderListSize
  split
  · decide
  · rename_i hne
    intro hzero
    exact hne (UInt32.toNat_inj.mp (Int.ofNat.inj hzero))

section

variable {g : HttpGuts} {fr : Framer} {hdec d : Decoder} {s : MetaState} {chunks : List Bytes}
  (h : Decoder.writeAll (metaEmit g)
    ((hdec.setEmitEnabled true).setMaxStringLength fr.maxHeaderStringLen)
    { remainSize := fr.maxHeaderListSize } chunks = (none, d, s))

include h

/-- The names and values that are added are not longer than the limit. -/
theorem fields_length_le :
    ∀ hf ∈ s.fields, hf.name.length ≤ fr.maxHeaderListSize.toNat ∧
      hf.value.length ≤ fr.maxHeaderListSize.toNat := by
  obtain ⟨_, _, hs⟩ := Decoder.write_flatten _ _ _ h
  intro hf hmem
  rw [← hs] at hmem
  unfold Decoder.write at hmem
  split at hmem
  · cases hmem
  rw [Decoder.writeDone_state] at hmem
  have hshort := (invariant_shortFields g (maxHeaderStringLen_ne_zero fr)).run
    (d := { (hdec.setEmitEnabled true).setMaxStringLength fr.maxHeaderStringLen with
      saveBuf := [] })
    (s := { remainSize := fr.maxHeaderListSize }) ⟨rfl, fun _ hnil => by cases hnil⟩
    (hdec.saveBuf ++ chunks.flatten)
  have hlen := hshort.2 hf hmem
  unfold Framer.maxHeaderStringLen at hlen
  omega

/-- What a header block that was written to the decoder gives. -/
theorem valid_of_written (hvalid : s.invalid = none) (hpseudos : checkPseudos s.fields = .ok ()) :
    ValidFields g fr.maxHeaderListSize s.fields ∧
      s.fields <+: decodedFields hdec chunks.flatten ∧
      (s.fields = decodedFields hdec chunks.flatten ↔ s.truncated = false) := by
  obtain ⟨herr, hd, hs⟩ := Decoder.write_flatten _ _ _ h
  have hfeed := (Decoder.write_feed (metaEmit g) _ _ chunks.flatten rfl herr).1
  rw [hs] at hfeed
  obtain ⟨more, hfields, hadded, hprefix, hall, htruncated, hsum⟩ :=
    feed_metaEmit g _ hfeed hvalid rfl
  have hmore : s.fields = more := hfields
  have hsize : (more.map fun hf => hf.size.toNat).sum ≤ fr.maxHeaderListSize.toNat :=
    Nat.le_of_add_right_le (Nat.le_of_eq hsum)
  obtain ⟨pseudos, regulars, hsplit, hpseudo, hregular, _⟩ := hadded.order
  rw [hmore] at hpseudos ⊢
  refine ⟨⟨⟨pseudos, regulars, hsplit, ?_, ?_⟩, hadded.values, hsize, fun hlimit => ?_⟩, hprefix,
    ?_⟩
  · have hchecked := checkPseudos_ok hpseudos
    rwa [hsplit, pseudoFields_append hpseudo hregular] at hchecked
  · intro hf hmem
    exact ⟨hregular hf hmem,
      hadded.names hf (by rw [hsplit]; exact mem_append_right _ hmem) (hregular hf hmem)⟩
  · rw [← map_size_eq_entrySize hlimit]
    · exact hsize
    · rw [← hmore]
      exact fields_length_le h
  · rw [htruncated, Bool.not_eq_false']
    exact hall

end

theorem meta?_toMeta (h : f.meta? = none) {fields' : List HeaderField} {truncated truncated' : Bool}
    (h' : (f.toMeta fields truncated).meta? = some (fields', truncated')) :
    fields = fields' ∧ truncated = truncated' := by
  cases f with
  | headers fh prio frag =>
    cases h'
    exact ⟨rfl, rfl⟩
  | pushPromise fh promiseID frag =>
    cases h'
    exact ⟨rfl, rfl⟩
  | metaHeaders => cases h
  | metaPushPromise => cases h
  | _ => cases h'

/-- Meta frames come from a framer that merges header frames. -/
theorem merging_of_meta {fr fr' : Framer} {m : List HeaderField × Bool}
    (h : fr.readFrame g = (.ok f, fr')) (hf : f.meta? = some m) :
    fr.allowIllegalReads = false ∧ ∃ hdec, fr.readMetaHeaders = some hdec := by
  unfold Framer.readFrame at h
  split at h
  · cases h
  rename_i f₀ fr₁ hread
  obtain ⟨fh, payload, _, _, hparse, _, hfr₁⟩ := Framer.readSingle_ok hread
  have hparsed : RawFrame.parsed ⟨fh, payload⟩ = .ok f₀ := hparse
  split at h
  · rename_i frag ended hdec _ hmeta
    rw [hfr₁] at h hmeta
    refine ⟨?_, hdec, hmeta⟩
    unfold Framer.readMetaFrame at h
    split at h
    · cases h
    · rename_i hallow
      exact Bool.eq_false_of_not_eq_true hallow
  · cases h
    rw [parsed_meta? hparsed] at hf
    cases hf

/-- Every meta frame that `ReadFrame` returns has valid fields.  They are the first
fields of the header block, and all of them exactly when the frame is not
truncated. -/
theorem readFrame_meta_valid (g : HttpGuts) {fr fr' : Framer} {f : Frame}
    {fields : List HeaderField} {truncated : Bool} (h : fr.readFrame g = (.ok f, fr'))
    (hf : f.meta? = some (fields, truncated)) :
    ∃ (hdec : Decoder) (w : RawFrame) (ws : List RawFrame), fr.readMetaHeaders = some hdec ∧
      w.startsBlock = true ∧ Completes w.fh.streamID w.endsHeaders ws ∧
      Received fr.r (w :: ws) fr'.r ∧
      ValidFields g fr.maxHeaderListSize fields ∧
      fields <+: decodedFields hdec (blockBytes (w :: ws)) ∧
      (fields = decodedFields hdec (blockBytes (w :: ws)) ↔ truncated = false) := by
  obtain ⟨hallow, hdec, hmeta⟩ := merging_of_meta h hf
  obtain ⟨frames, hreceived, hcall⟩ := Framer.readFrame_call g hallow hmeta h rfl
  cases hcall with
  | plain parsed other order after =>
    rw [parsed_meta? parsed] at hf
    cases hf
  | @block _ w ws f₀ d s parsed starts order completes written close decoder closed allow result =>
    obtain ⟨hinvalid, hpseudos, rfl⟩ := result f rfl
    obtain ⟨rfl, rfl⟩ := meta?_toMeta (parsed_meta? parsed) hf
    refine ⟨hdec, w, ws, hmeta, starts, completes, hreceived, ?_⟩
    exact valid_of_written written hinvalid hpseudos

/-- A `HEADERS` frame with the fields `:method: GET` and `a: b`, for a framer with a
limit of 60 octets. -/
def limitedFramer : Framer :=
  { Framer.new [0, 0, 6, 1, 4, 0, 0, 0, 1, 0x82, 0x40, 1, 0x61, 1, 0x62] with
    readMetaHeaders := some (Decoder.new 4096)
    maxHeaderListSizeOpt := 60 }

/-- The second field does not fit any more. -/
theorem readFrame_meta_valid_limited :
    ValidFields ⟨fun _ => true, fun _ => true⟩ 60
      [{ name := ascii ":method", value := ascii "GET" }] := by
  have hread : (limitedFramer.readFrame ⟨fun _ => true, fun _ => true⟩).1.toOption =
      some (.metaHeaders ⟨.headers, 4, 6, 1⟩ {}
        [{ name := ascii ":method", value := ascii "GET" }] true) := by
    decide +kernel
  cases hres : limitedFramer.readFrame ⟨fun _ => true, fun _ => true⟩ with
  | mk res fr' =>
    rw [hres] at hread
    cases res with
    | error e => cases hread
    | ok f =>
      have hmeta : f.meta? =
          some ([{ name := ascii ":method", value := ascii "GET" }], true) := by
        rw [Option.some.inj hread]
        rfl
      obtain ⟨_, _, _, _, _, _, _, hvalid, _⟩ := readFrame_meta_valid _ hres hmeta
      exact hvalid

end Fhttp.Http2
