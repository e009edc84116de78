import Mathlib.Algebra.Order.BigOperators.Group.List
import Mathlib.Algebra.Order.Group.Nat
import Fhttp.Http2.MetaFrame
import Fhttp.Http2.PseudoOrder

/-!
# The header block of a request and the reader of the same package

`encodeHeaders` writes a list of fields, and `readMetaFrame` checks one.  The two were
written independently.  `WellFormed` says what the fields of a request should be like; what
`encodeHeaders` writes is so if and only if the request is `Sendable`, and then, and only
then, the framer of a peer in lockstep returns the fields as a meta frame.

The names are always right.  What can go wrong is the place of `:protocol`, a key of the
header map that is written among the regular fields, and the values that do not come
from the map.
-/

namespace Fhttp.Hpack

open Lib.Incremental
open List

variable {e : Encoder} {d : Decoder} {fs : List HeaderField} {σ : Type}

section

variable (h : e.Aligned d) (hon : d.emitEnabled = true) {emit : EmitFunc σ} {s s' : σ}

include h hon

/-- What an aligned decoder makes of a list of fields that the callback takes to the end. -/
theorem Encoder.Aligned.run_fields
    (hadmits : ∀ f ∈ fs, d.Admits f.name.length ∧ d.Admits f.value.length) (hfit : e.FieldsFit fs)
    (hfeed : Decoder.feed emit s fs = (s', true)) :
    ∃ bytes e' d', e.writeFields? fs = some (bytes, e') ∧ (fs ≠ [] → bytes ≠ []) ∧
      (Decoder.stepper emit).run (d, s) bytes = .parked (d', s') [] := by
  induction fs generalizing e d s with
  | nil =>
    cases hfeed
    exact ⟨[], e, d, rfl, fun hnil => absurd rfl hnil, Stepper.run_nil _ _⟩
  | cons f fs ih =>
    obtain ⟨hf, hrest⟩ := forall_mem_cons.mp hadmits
    obtain ⟨b, e₁, d₁, hne, hwrite, -, hlimit, haligned, hparse⟩ := h.field hon hf.1 hf.2 hfit.1
    rw [Decoder.feed] at hfeed
    split at hfeed
    · rename_i hemit
      have hadmits₁ : ∀ f' ∈ fs, Decoder.Admits { d₁ with emitEnabled := true } f'.name.length ∧
          Decoder.Admits { d₁ with emitEnabled := true } f'.value.length := by
        rwa [hlimit]
      obtain ⟨bs, e₂, d₂, hwrites, -, hrun⟩ :=
        ih (haligned true) rfl hadmits₁ (hfit.2 b e₁ hwrite) hfeed
      refine ⟨b ++ bs, e₂, d₂, ?_, fun _ => append_ne_nil_of_left_ne_nil hne bs, ?_⟩
      · simp only [writeFields?, hwrite, Option.bind_some, hwrites, Option.map_some]
      · rw [(Decoder.stepper emit).run_of_ok (hparse emit s bs), hemit, hrun]
    · rename_i hemit
      exact absurd (congrArg Prod.snd hfeed) hemit

/-- `Write` of the block of such a list. -/
theorem Encoder.Aligned.write_fields (hsave : d.saveBuf = []) (hne : fs ≠ [])
    (hadmits : ∀ f ∈ fs, d.Admits f.name.length ∧ d.Admits f.value.length) (hfit : e.FieldsFit fs)
    (hfeed : Decoder.feed emit s fs = (s', true)) :
    ∃ bytes e', e.writeFields? fs = some (bytes, e') ∧ (d.write emit s bytes).err = none ∧
      (d.write emit s bytes).s = s' ∧ (d.write emit s bytes).d.saveBuf = [] := by
  obtain ⟨bytes, e', d', hwrite, hbytes, hrun⟩ := h.run_fields hon hadmits hfit hfeed
  have hsame : { d with saveBuf := [] } = d := by
    rw [← hsave]
  have hwritten : d.write emit s bytes = ⟨bytes.length, none, { d' with saveBuf := [] }, s'⟩ := by
    rw [Decoder.write, if_neg (hbytes hne), hsave, nil_append, hsame, hrun,
      Decoder.writeDone_of_not_large (fun hlarge => hlarge.1 rfl)]
  refine ⟨bytes, e', hwrite, ?_⟩
  rw [hwritten]
  exact ⟨rfl, rfl, rfl⟩

end

theorem Decoder.feed_collect (log fs : List HeaderField) :
    feed collect log fs = (log ++ fs, true) := by
  induction fs generalizing log with
  | nil => rw [append_nil, feed]
  | cons f fs ih =>
    have hone : collect log f = (log ++ [f], true) := rfl
    rw [feed, hone, if_pos rfl, ih, append_assoc]
    rfl

end Fhttp.Hpack

namespace Fhttp.Http2

open Hpack (Bytes HeaderField Encoder Decoder Lockstep ascii)
open Hpack.Decoder (feed)
open Http (Runtime headerOrderKey lowerAscii isAscii)
open List

/-! ## Well-formed fields -/

/-- The fields that belong to one connection. -/
def connectionHeaders : List Bytes :=
  [ascii "connection", ascii "proxy-connection", ascii "transfer-encoding", ascii "upgrade",
    ascii "keep-alive"]

/-- No regular field is before a pseudo-header field. -/
def PseudoFirst (fields : List HeaderField) : Prop :=
  fields.Pairwise fun f f' => f'.isPseudo = true → f.isPseudo = true

/-- The names of the fields of a request: pseudo-header fields of requests, and lower-case
tokens that are no fields of the connection.  A magic key is neither. -/
structure WellNamed (g : HttpGuts) (fields : List HeaderField) : Prop where
  pseudo : ∀ f ∈ fields, f.isPseudo = true → f.name ∈ requestPseudos
  regular : ∀ f ∈ fields, f.isPseudo = false →
    g.validWireHeaderFieldName f.name = true ∧ f.name ∉ connectionHeaders

/-- The fields of a request. -/
structure WellFormed (g : HttpGuts) (fields : List HeaderField) : Prop extends
    WellNamed g fields where
  order : PseudoFirst fields
  once : ((fields.filter HeaderField.isPseudo).map HeaderField.name).Nodup
  values : ∀ f ∈ fields, g.validHeaderFieldValue f.value = true

variable {g : HttpGuts}

variable {pseudos regulars fields : List HeaderField} {s : MetaState}

section

variable (hpseudos : ∀ f ∈ pseudos, f.isPseudo = true)
  (hregulars : ∀ f ∈ regulars, f.isPseudo = false)

include hpseudos hregulars

theorem pseudoFirst_append : PseudoFirst (pseudos ++ regulars) := by
  refine pairwise_append.mpr ⟨?_, ?_, fun f hf _ _ _ => hpseudos f hf⟩
  · exact pairwise_of_forall_mem_list fun f hf _ _ _ => hpseudos f hf
  · refine pairwise_of_forall_mem_list fun _ _ f' hf' hpseudo => ?_
    exact absurd ((hregulars f' hf').symm.trans hpseudo) Bool.false_ne_true

theorem filter_isPseudo_append : (pseudos ++ regulars).filter HeaderField.isPseudo = pseudos := by
  rw [filter_append, filter_eq_self.mpr hpseudos,
    filter_eq_nil_iff.mpr fun f hf => by rw [hregulars f hf]; exact Bool.false_ne_true,
    append_nil]

end

/-- Regular fields between pseudo-header fields. -/
theorem pseudoFirst_between {first between second rest : List HeaderField}
    (hfirst : ∀ f ∈ first, f.isPseudo = true) (hbetween : ∀ f ∈ between, f.isPseudo = false)
    (hsecond : ∀ f ∈ second, f.isPseudo = true) (hne : second ≠ [])
    (hrest : ∀ f ∈ rest, f.isPseudo = false) :
    PseudoFirst (first ++ (between ++ (second ++ rest))) ↔ between = [] := by
  constructor
  · intro h
    obtain ⟨f', hf'⟩ := exists_mem_of_ne_nil second hne
    refine eq_nil_iff_forall_not_mem.mpr fun f hf => ?_
    have hpair := (pairwise_append.mp (pairwise_append.mp h).2.1).2.2
    have hpseudo := hpair f hf f' (mem_append_left _ hf') (hsecond f' hf')
    exact Bool.false_ne_true ((hbetween f hf).symm.trans hpseudo)
  · rintro rfl
    rw [nil_append, ← append_assoc]
    exact pseudoFirst_append (forall_mem_append.mpr ⟨hfirst, hsecond⟩) hrest

/-- The first fields up to a regular one are all the pseudo-header fields. -/
theorem PseudoFirst.pseudoFields_eq (h : PseudoFirst fields) :
    pseudoFields fields = fields.filter HeaderField.isPseudo := by
  unfold pseudoFields
  induction fields with
  | nil => rfl
  | cons f fields ih =>
    obtain ⟨hf, hrest⟩ := pairwise_cons.mp h
    cases hpseudo : f.isPseudo with
    | true => rw [takeWhile_cons_of_pos hpseudo, filter_cons, if_pos hpseudo, ih hrest]
    | false =>
      have hneg : ¬ f.isPseudo = true := by
        rw [hpseudo]
        exact Bool.false_ne_true
      rw [takeWhile_cons_of_neg hneg, filter_cons, if_neg hneg, eq_comm, filter_eq_nil_iff]
      exact fun f' hf' hpseudo' => hneg (hf f' hf' hpseudo')

/-! ## What `readMetaFrame` accepts -/

theorem check_of_valid {f : HeaderField} (hinvalid : s.invalid = none)
    (hvalue : g.validHeaderFieldValue f.value = true)
    (hname : f.isPseudo = false → g.validWireHeaderFieldName f.name = true)
    (hpseudo : f.isPseudo = true → s.sawRegular = false) : s.check g f = none := by
  unfold MetaState.check
  cases hf : f.isPseudo with
  | true => simp [hvalue, hinvalid, hpseudo hf]
  | false => simp [hvalue, hinvalid, hname hf]

/-- The callback takes all fields of a list that is valid and fits. -/
theorem feed_metaEmit_valid (hinvalid : s.invalid = none)
    (hsize : fieldsSize fields ≤ s.remainSize.toNat)
    (hvalues : ∀ f ∈ fields, g.validHeaderFieldValue f.value = true)
    (hnames : ∀ f ∈ fields, f.isPseudo = false → g.validWireHeaderFieldName f.name = true)
    (horder : PseudoFirst fields) (hsaw : s.sawRegular = true → ∀ f ∈ fields, f.isPseudo = false) :
    ∃ s', feed (metaEmit g) s fields = (s', true) ∧ s'.fields = s.fields ++ fields ∧
      s'.invalid = none ∧ s'.truncated = s.truncated := by
  induction fields generalizing s with
  | nil => exact ⟨s, rfl, (append_nil _).symm, hinvalid, rfl⟩
  | cons f fields ih =>
    obtain ⟨hvalue, hvalues⟩ := forall_mem_cons.mp hvalues
    obtain ⟨hname, hnames⟩ := forall_mem_cons.mp hnames
    obtain ⟨hfirst, horder⟩ := pairwise_cons.mp horder
    have hpseudo : f.isPseudo = true → s.sawRegular = false := by
      intro hf
      rw [Bool.eq_false_iff]
      exact fun hregular => Bool.false_ne_true ((hsaw hregular f mem_cons_self).symm.trans hf)
    have hcheck := check_of_valid hinvalid hvalue hname hpseudo
    rw [fieldsSize, map_cons, sum_cons, ← fieldsSize] at hsize
    have hlt := s.remainSize.toNat_lt
    have hfsize : f.size.toNat = f.entrySize := HeaderField.size_toNat_of_lt (by omega)
    have hle : f.size ≤ s.remainSize := by
      rw [UInt32.le_iff_toNat_le]
      omega
    have hemit : metaEmit g s f =
        ({ s with
            invalid := none
            sawRegular := s.sawRegular || !f.isPseudo
            remainSize := s.remainSize - f.size
            fields := s.fields ++ [f] }, true) := by
      unfold metaEmit
      simp only [hcheck, Option.isSome_none, Bool.false_eq_true, if_false,
        if_neg (UInt32.not_lt.mpr hle)]
    have hremain : fieldsSize fields ≤ (s.remainSize - f.size).toNat := by
      rw [UInt32.toNat_sub_of_le _ _ hle]
      omega
    have hregular : (s.sawRegular || !f.isPseudo) = true → ∀ f' ∈ fields, f'.isPseudo = false := by
      intro hor f' hf'
      rw [Bool.or_eq_true, Bool.not_eq_true'] at hor
      rcases hor with hsaw' | hf
      · exact hsaw hsaw' f' (mem_cons_of_mem f hf')
      · rw [Bool.eq_false_iff]
        exact fun hpseudo' => Bool.false_ne_true (hf.symm.trans (hfirst f' hf' hpseudo'))
    obtain ⟨s', hfeed, hfields, hvalid, htruncated⟩ := ih (s := (metaEmit g s f).1)
      (by rw [hemit]) (by rwa [hemit]) hvalues hnames horder (by rwa [hemit])
    rw [hemit] at hfields htruncated
    refine ⟨s', ?_, ?_, hvalid, htruncated⟩
    · rw [feed, if_pos (by rw [hemit]), hfeed]
    · rw [hfields, append_assoc]
      rfl

theorem checkPseudosLoop_request {pf seen : List HeaderField} {isRequest : Bool}
    (hknown : ∀ f ∈ pf, f.name ∈ requestPseudos)
    (hnodup : ((seen ++ pf).map HeaderField.name).Nodup) :
    ∃ isRequest', checkPseudosLoop seen isRequest false pf = .ok (isRequest', false) := by
  induction pf generalizing seen isRequest with
  | nil => exact ⟨isRequest, rfl⟩
  | cons f pf ih =>
    obtain ⟨hf, hknown⟩ := forall_mem_cons.mp hknown
    have hnew : ¬ (seen.any fun f' => f.name == f'.name) = true := by
      intro hany
      obtain ⟨f', hf', heq⟩ := any_eq_true.mp hany
      rw [map_append, nodup_append] at hnodup
      exact hnodup.2.2 f'.name (mem_map_of_mem hf') f.name mem_cons_self
        (beq_iff_eq.mp heq).symm
    rw [append_cons] at hnodup
    rw [checkPseudosLoop, if_pos hf, if_neg hnew]
    exact ih hknown hnodup

theorem WellFormed.checkPseudos (h : WellFormed g fields) : checkPseudos fields = .ok () := by
  have hknown : ∀ f ∈ fields.filter HeaderField.isPseudo, f.name ∈ requestPseudos := by
    intro f hf
    obtain ⟨hmem, hpseudo⟩ := mem_filter.mp hf
    exact h.pseudo f hmem hpseudo
  have hloop : ∃ isRequest,
      checkPseudosLoop [] false false (pseudoFields fields) = .ok (isRequest, false) := by
    rw [h.order.pseudoFields_eq]
    exact checkPseudosLoop_request hknown h.once
  obtain ⟨isRequest, hloop⟩ := hloop
  unfold Http2.checkPseudos
  rw [hloop]
  dsimp only
  rw [Bool.and_false, if_neg Bool.false_ne_true]

namespace Framer

variable {fr fr' : Framer} {hdec : Decoder} {cont : Frame} {block : Bytes}

/-- `readMetaFrame` of a frame that ends its block. -/
theorem readMetaFrame_ended (hallow : fr.allowIllegalReads = false)
    {w : Decoder.WriteResult MetaState}
    (hw : (fr.metaDecoder hdec).write (metaEmit g) { remainSize := fr.maxHeaderListSize } block =
      w) :
    fr.readMetaFrame g hdec cont block true =
      if w.err.isSome then
        (.error (.connectionError .compression), { fr with readMetaHeaders := some w.d })
      else finishMeta { fr with readMetaHeaders := some w.d } w.d w.s cont := by
  unfold readMetaFrame
  rw [if_neg (by rw [hallow]; exact Bool.false_ne_true)]
  subst hw
  dsimp only
  rw [← metaDecoder, metaLoop]
  by_cases herr : ((fr.metaDecoder hdec).write (metaEmit g) { remainSize := fr.maxHeaderListSize }
      block).err.isSome = true
  · rw [if_pos herr, if_pos herr]
  · rw [if_neg herr, if_neg herr, if_pos rfl]

/-- What `readMetaFrame` returns is valid. -/
theorem validFields_of_readMetaFrame (hallow : fr.allowIllegalReads = false)
    {fields : List HeaderField}
    {truncated : Bool} (hcont : cont.meta? = none) {f : Frame}
    (hf : f.meta? = some (fields, truncated))
    (h : fr.readMetaFrame g hdec cont block true = (.ok f, fr')) :
    ValidFields g fr.maxHeaderListSize fields := by
  generalize hw :
      (fr.metaDecoder hdec).write (metaEmit g) { remainSize := fr.maxHeaderListSize } block = w
    at h
  rw [readMetaFrame_ended hallow hw] at h
  split at h
  · cases h
  rename_i herr
  rw [Bool.not_eq_true, Option.isSome_eq_false_iff, Option.isNone_iff_eq_none] at herr
  have hall : Decoder.writeAll (metaEmit g) (fr.metaDecoder hdec)
      { remainSize := fr.maxHeaderListSize } [block] = (none, w.d, w.s) := by
    rw [Decoder.writeAll, hw, herr]
    rfl
  unfold finishMeta at h
  split at h
  · cases h
  split at h
  · cases h
  split at h
  · cases h
  · rename_i hinvalid _ hpseudos
    cases h
    obtain ⟨rfl, rfl⟩ := meta?_toMeta hcont hf
    exact (valid_of_written hall hinvalid hpseudos).1

end Framer

/-- The framer returns the fields of a well-formed block. -/
theorem WellFormed.readMetaFrame {fields : List HeaderField} (h : WellFormed g fields)
    {e e' : Encoder}
    {block : Bytes} {hdec : Decoder} {fr : Framer} (hallow : fr.allowIllegalReads = false)
    (hstep : Lockstep e { hdec with emitEnabled := true, maxStrLen := 0 }) (hne : fields ≠ [])
    (hfit : e.FieldsFit fields) (hsize : fieldsSize fields ≤ fr.maxHeaderListSize.toNat)
    (hwrite : e.writeFields? fields = some (block, e')) (cont : Frame) :
    ∃ fr', fr.readMetaFrame g hdec cont block true = (.ok (cont.toMeta fields false), fr') := by
  obtain ⟨s, hfeed, hfields, hinvalid, htruncated⟩ :=
    feed_metaEmit_valid (s := { remainSize := fr.maxHeaderListSize }) rfl hsize h.values
      (fun f hf hregular => (h.regular f hf hregular).1) h.order nofun
  have hadmits : ∀ f ∈ fields,
      (fr.metaDecoder hdec).Admits f.name.length ∧ (fr.metaDecoder hdec).Admits f.value.length := by
    intro f hf
    have hle : f.entrySize ≤ fieldsSize fields := le_sum_of_mem (mem_map_of_mem hf)
    have hlimit := fr.maxHeaderListSize.toNat_lt
    have hstr : (fr.metaDecoder hdec).maxStrLen = fr.maxHeaderListSize.toNat := rfl
    unfold HeaderField.entrySize at hle
    unfold Decoder.Admits
    omega
  have haligned : e.Aligned (fr.metaDecoder hdec) :=
    ⟨hstep.inStep.table, hstep.inStep.inv, hstep.inStep.settled⟩
  obtain ⟨bytes, e₁, hwrite₁, herr, rfl, hsave⟩ :=
    haligned.write_fields rfl hstep.saveBuf hne hadmits hfit hfeed
  obtain rfl : bytes = block := by
    rw [hwrite, Option.some.injEq, Prod.mk.injEq] at hwrite₁
    exact hwrite₁.1.symm
  have hclose : ¬ ((fr.metaDecoder hdec).write (metaEmit g) { remainSize := fr.maxHeaderListSize }
      bytes).d.close.1.isSome = true := by
    rw [Decoder.close, hsave, if_neg (by exact Nat.lt_irrefl 0)]
    exact Bool.false_ne_true
  rw [Framer.readMetaFrame_ended hallow rfl, herr, Option.isSome_none, if_neg Bool.false_ne_true]
  unfold Framer.finishMeta
  rw [if_neg hclose, hinvalid, hfields, nil_append, h.checkPseudos, htruncated]
  exact ⟨_, rfl⟩

/-- The fields of a meta frame with the names of a request. -/
theorem ValidFields.wellFormed {limit : UInt32} (h : ValidFields g limit fields)
    (hnamed : WellNamed g fields) : WellFormed g fields := by
  obtain ⟨pseudos, regulars, rfl, hpseudos, hregulars⟩ := h.split
  have hknown : ∀ k, k ∈ requestPseudos ∨ k ∈ responsePseudos →
      (k.length != 0 && k[0]? == some 58) = true := by
    intro k hk
    have hall : ∀ k ∈ requestPseudos ++ responsePseudos,
        (k.length != 0 && k[0]? == some 58) = true := by decide
    exact hall k (mem_append.mpr hk)
  have hpseudo : ∀ f ∈ pseudos, f.isPseudo = true := fun f hf => hknown _ (hpseudos.known f hf)
  have hregular : ∀ f ∈ regulars, f.isPseudo = false := fun f hf => (hregulars f hf).1
  refine ⟨hnamed, pseudoFirst_append hpseudo hregular, ?_, h.values⟩
  rw [filter_isPseudo_append hpseudo hregular]
  exact hpseudos.nodup

/-! ## The fields of a request -/

variable {rt : Runtime} {kv : Bytes × List Bytes}

theorem keyFields_connection (hk : isAscii kv.1 = true) (h : lowerAscii kv.1 ∈ connectionHeaders) :
    (keyFields rt kv).1 = [] := by
  unfold keyFields
  split
  · rfl
  split
  · rfl
  split
  · rfl
  · rename_i hconn
    refine absurd ?_ hconn
    simp (disch := decide) only [equalFold_special hk]
    simpa [connectionHeaders, or_assoc] using h

theorem Header.nodup_set {h : Header} (hnodup : (h.map Prod.fst).Nodup) (key : Bytes)
    (values : List Bytes) : ((h.set key values).map Prod.fst).Nodup := by
  unfold Header.set
  rw [map_append, nodup_append]
  refine ⟨hnodup.sublist (filter_sublist.map _), nodup_singleton _, ?_⟩
  intro k hk k' hk'
  obtain ⟨kv, hkv, rfl⟩ := mem_map.mp hk
  rw [mem_singleton.mp hk']
  exact bne_iff_ne.mp (mem_filter.mp hkv).2

theorem nodup_outgoingHeader (req : Http.Request) (gzip : Bool) (n : Int) :
    ((outgoingHeader req gzip n).map Prod.fst).Nodup := by
  have hadd {h : Header} (hnodup : (h.map Prod.fst).Nodup) (add : Bool) (key : Bytes)
      (values : List Bytes) : ((h.addMissing add key values).map Prod.fst).Nodup := by
    unfold Header.addMissing
    split
    · exact Header.nodup_set hnodup key values
    · exact hnodup
  exact hadd (hadd req.header_nodup _ _ _) _ _ _

theorem mem_outgoingHeader_protocol {req : Http.Request} {gzip : Bool} {n : Int} {vs : List Bytes} :
    (ascii ":protocol", vs) ∈ outgoingHeader req gzip n ↔ (ascii ":protocol", vs) ∈ req.header := by
  have hadd {h : Header} {add : Bool} {key : Bytes} {values : List Bytes}
      (hkey : ascii ":protocol" ≠ key) :
      (ascii ":protocol", vs) ∈ h.addMissing add key values ↔ (ascii ":protocol", vs) ∈ h := by
    unfold Header.addMissing
    split
    · rw [Header.mem_set, and_iff_left hkey]
      exact or_iff_left fun heq => hkey (congrArg Prod.fst heq)
    · rfl
  unfold outgoingHeader
  rw [hadd (by decide), hadd (by decide)]

/-- The fields of the key `:protocol`. -/
theorem keyWritten_protocol (vs : List Bytes) :
    keyWritten rt (ascii ":protocol", vs) = vs.map fun v => plainField (ascii ":protocol", v) := by
  have hascii : isAscii (ascii ":protocol") = true := by decide
  have hregular : lowerAscii (ascii ":protocol") ∉ specialKeys := by decide
  have hall : ∀ f ∈ vs.map fun v => (ascii ":protocol", v), (!isMagicKey f.1) = true := by
    intro f hf
    obtain ⟨v, -, rfl⟩ := mem_map.mp hf
    rfl
  unfold keyWritten
  rw [keyFields_regular hascii hregular, filter_eq_self.mpr hall, map_map]
  refine map_congr_left fun v _ => ?_
  rw [Function.comp_apply, rt.toLower_ascii _ hascii]
  rfl

namespace ClientConn

variable {cc : ClientConn} {req : Http.Request} {host path trailers : Bytes} {gzip : Bool} {n : Int}

/-- Where the fields that are written come from. -/
theorem mem_writtenFields {f : HeaderField}
    (h : f ∈ cc.writtenFields rt req host path gzip trailers n) :
    (∃ p ∈ pseudoHeader req host path (cc.pseudoHeaderOrder req), f = plainField p) ∨
      f = plainField (ascii "trailer", trailers) ∨
      (∃ kv ∈ outgoingHeader req gzip n, f ∈ keyWritten rt kv) ∨
      f = plainField (ascii "user-agent", defaultUserAgent) := by
  rw [writtenFields_eq, mem_append, mem_append] at h
  rcases h with (h | h) | h
  · obtain ⟨p, hp, rfl⟩ := mem_map.mp h
    rcases mem_append.mp hp with hp | hp
    · exact .inl ⟨p, hp, rfl⟩
    · split at hp
      · rw [mem_singleton.mp hp]
        exact .inr (.inl rfl)
      · cases hp
  · obtain ⟨kv, hkv, hf⟩ := mem_flatMap.mp h
    exact .inr (.inr (.inl ⟨kv, (requestKeys_perm 2).mem_iff.mp hkv, hf⟩))
  · obtain ⟨p, hp, rfl⟩ := mem_map.mp h
    unfold userAgentFields at hp
    split at hp
    · cases hp
    · rw [mem_singleton.mp hp]
      exact .inr (.inr (.inr rfl))

/-- The key `:protocol` is ordered before the other keys that are written. -/
def Leads (rt : Runtime) (req : Http.Request) (gzip : Bool) (n : Int) (vs : List Bytes) : Prop :=
  ∀ kv ∈ outgoingHeader req gzip n, kv.1 ≠ ascii ":protocol" → keyWritten rt kv ≠ [] →
    Http.less rt (((outgoingHeader req gzip n).get? headerOrderKey).map Http.orderOf)
      (ascii ":protocol", vs) kv = true

/-- What a request must be like for its fields to be well formed.  The values that do not come
from the header map are field values, and the key `:protocol`, if it is there, has
one value and comes before everything else that is written after the
pseudo-header. -/
structure Sendable (rt : Runtime) (g : HttpGuts) (cc : ClientConn) (req : Http.Request)
    (host path trailers : Bytes) (gzip : Bool) (n : Int) : Prop where
  pseudo : ∀ f ∈ pseudoHeader req host path (cc.pseudoHeaderOrder req),
    g.validHeaderFieldValue f.2 = true
  announced : g.validHeaderFieldValue trailers = true
  protocol : ∀ vs, (ascii ":protocol", vs) ∈ req.header → vs ≠ [] →
    vs.length = 1 ∧ trailers = [] ∧ Leads rt req gzip n vs

variable {order : Option (List Bytes)} {vs : List Bytes}

theorem nodup_pseudoHeader (horder : ∀ names, order = some names → names.Perm pseudoNames) :
    ((pseudoHeader req host path order).map Prod.fst).Nodup := by
  cases order with
  | some names =>
    have hnodup : names.Nodup := (horder names rfl).nodup_iff.mpr (by decide)
    rw [pseudoHeader_order_names]
    exact hnodup.filter _
  | none =>
    have hall : pseudoNames.Nodup := by decide
    have htwo : [ascii ":authority", ascii ":method"].Nodup := by decide
    unfold pseudoHeader
    cases isNormalConnect req with
    | true => exact htwo
    | false => exact hall

/-- The announcement of the trailers. -/
def trailerFields (trailers : Bytes) : List HeaderField :=
  if trailers ≠ [] then [plainField (ascii "trailer", trailers)] else []

theorem writtenFields_parts :
    cc.writtenFields rt req host path gzip trailers n =
      (pseudoHeader req host path (cc.pseudoHeaderOrder req)).map plainField ++
        (trailerFields trailers ++ (requestKeys rt 2 req gzip n).flatMap (keyWritten rt) ++
          (userAgentFields rt 2 req gzip n).map plainField) := by
  have htrailer : (if trailers ≠ [] then [(ascii "trailer", trailers)] else []).map plainField =
      trailerFields trailers := by
    unfold trailerFields
    split <;> rfl
  rw [writtenFields_eq, leadingFields, map_append, htrailer]
  simp only [append_assoc]

theorem isPseudo_trailerFields : ∀ f ∈ trailerFields trailers, f.isPseudo = false := by
  intro f hf
  unfold trailerFields at hf
  split at hf
  · rw [mem_singleton.mp hf]
    rfl
  · cases hf

theorem isPseudo_userAgent {i : Nat} :
    ∀ f ∈ (userAgentFields rt i req gzip n).map plainField, f.isPseudo = false := by
  intro f hf
  obtain ⟨p, hp, rfl⟩ := mem_map.mp hf
  unfold userAgentFields at hp
  split at hp
  · cases hp
  · rw [mem_singleton.mp hp]
    rfl

theorem isPseudo_pseudoHeader :
    ∀ f ∈ (pseudoHeader req host path order).map plainField, f.isPseudo = true := by
  intro f hf
  obtain ⟨p, hp, rfl⟩ := mem_map.mp hf
  exact isPseudo_of_pseudoNames (pseudoHeader_names p hp)

/-- The keys that are written before and after `:protocol`. -/
theorem requestKeys_split (h : (ascii ":protocol", vs) ∈ req.header) :
    ∃ before after,
      requestKeys rt 2 req gzip n = before ++ (ascii ":protocol", vs) :: after ∧
      (∀ kv ∈ before ++ after, kv ∈ outgoingHeader req gzip n ∧ kv.1 ≠ ascii ":protocol") ∧
      (∀ kv ∈ before,
        Http.less rt (((outgoingHeader req gzip n).get? headerOrderKey).map Http.orderOf)
          (ascii ":protocol", vs) kv = false) ∧
      ∀ kv ∈ after,
        Http.less rt (((outgoingHeader req gzip n).get? headerOrderKey).map Http.orderOf)
          kv (ascii ":protocol", vs) = false := by
  have hmem : (ascii ":protocol", vs) ∈ rt.range 2 (outgoingHeader req gzip n) :=
    (rt.range_perm 2 _).mem_iff.mpr (mem_outgoingHeader_protocol.mpr h)
  obtain ⟨before, after, hsplit, hbefore, hafter⟩ := rt.sorter.sort_split Http.less_ordering hmem
  refine ⟨before, after, hsplit, fun kv hkv => ?_, hbefore, hafter⟩
  have hperm : (before ++ (ascii ":protocol", vs) :: after).Perm (outgoingHeader req gzip n) := by
    rw [← hsplit]
    exact requestKeys_perm 2
  have hnodup := (hperm.map Prod.fst).nodup_iff.mpr (nodup_outgoingHeader req gzip n)
  have hcons : (before ++ (ascii ":protocol", vs) :: after).Perm
      ((ascii ":protocol", vs) :: (before ++ after)) := perm_middle
  have hnodup' := (hcons.map Prod.fst).nodup_iff.mp hnodup
  rw [map_cons, nodup_cons] at hnodup'
  refine ⟨(hcons.symm.trans hperm).mem_iff.mp (mem_cons_of_mem _ hkv), fun heq => ?_⟩
  exact hnodup'.1 (mem_map.mpr ⟨kv, hkv, heq⟩)

/-- The key `:protocol` and another one that is written are told apart by the order. -/
theorem less_protocol (hg : g.Documented) (hkv : checkKey g kv = none)
    (hkey : kv.1 ≠ ascii ":protocol") (hwritten : keyWritten rt kv ≠ [])
    {headerOrder : Option (List Bytes)}
    (h : Http.less rt (headerOrder.map Http.orderOf) kv (ascii ":protocol", vs) = false) :
    Http.less rt (headerOrder.map Http.orderOf) (ascii ":protocol", vs) kv = true := by
  refine Http.less_total hkey (fun heq => ?_) h
  obtain ⟨f, hf⟩ := exists_mem_of_ne_nil _ hwritten
  rcases keyWritten_name hg hkv hf with ⟨heq', -⟩ | ⟨-, hwire⟩
  · exact hkey heq'
  have hlower : lowerAscii (ascii ":protocol") = ascii ":protocol" := by decide
  have hname := (keyWritten_spec hg hkv hf).2.1
  rw [rt.toLower_ascii _ ((checkKey_eq_none hkv).1.isAscii hg),
    rt.toLower_ascii _ (by decide : isAscii (ascii ":protocol") = true), hlower, ← hname] at heq
  have hregular := isPseudo_of_validWire hg hwire
  unfold HeaderField.isPseudo at hregular
  rw [heq] at hregular
  exact absurd hregular (by decide)

section

variable (horder : ∀ names, cc.pseudoHeaderOrder req = some names → names.Perm pseudoNames)

include horder

variable {vs : List Bytes}

/-- Pseudo-header fields and the values of `:protocol`. -/
theorem nodup_protocol_iff (hne : vs ≠ []) :
    (((pseudoHeader req host path (cc.pseudoHeaderOrder req)).map plainField ++
      vs.map fun v => plainField (ascii ":protocol", v)).map HeaderField.name).Nodup ↔
      vs.length = 1 := by
  have hfirst : ((pseudoHeader req host path (cc.pseudoHeaderOrder req)).map plainField).map
      HeaderField.name =
      (pseudoHeader req host path (cc.pseudoHeaderOrder req)).map Prod.fst := by
    rw [map_map]
    rfl
  have hsecond : (vs.map fun v => plainField (ascii ":protocol", v)).map HeaderField.name =
      replicate vs.length (ascii ":protocol") := by
    rw [map_map, eq_replicate_iff]
    refine ⟨length_map _, fun k hk => ?_⟩
    obtain ⟨v, -, rfl⟩ := mem_map.mp hk
    rfl
  have hdisjoint : ∀ k ∈ (pseudoHeader req host path (cc.pseudoHeaderOrder req)).map Prod.fst,
      ∀ k' ∈ replicate vs.length (ascii ":protocol"), k ≠ k' := by
    intro k hk k' hk' heq
    obtain ⟨p, hp, rfl⟩ := mem_map.mp hk
    have hnames := pseudoHeader_names p hp
    rw [heq, eq_of_mem_replicate hk'] at hnames
    exact absurd hnames (by decide)
  have hpos := length_pos_iff.mpr hne
  rw [map_append, hfirst, hsecond, nodup_append, nodup_replicate]
  refine ⟨fun h => by omega, fun h => ⟨nodup_pseudoHeader horder, by omega, hdisjoint⟩⟩

theorem writtenFields_ne_nil : cc.writtenFields rt req host path gzip trailers n ≠ [] := by
  have hpseudo : pseudoHeader req host path (cc.pseudoHeaderOrder req) ≠ [] := by
    cases hnames : cc.pseudoHeaderOrder req with
    | none => exact cons_ne_nil _ _
    | some names =>
      intro hnil
      have hmem : ascii ":method" ∈ names.filter (sentInOrder req) :=
        mem_filter.mpr ⟨(horder names hnames).mem_iff.mpr (by decide), rfl⟩
      rw [← pseudoHeader_order_names req host path, hnil] at hmem
      cases hmem
  rw [writtenFields_parts]
  exact append_ne_nil_of_left_ne_nil (by rwa [Ne, map_eq_nil_iff]) _

variable (hg : g.Documented) (hcheck : ∀ kv ∈ req.header, checkKey g kv = none)

include hg hcheck

omit horder in
/-- The names are right for every request. -/
theorem wellNamed_writtenFields :
    WellNamed g (cc.writtenFields rt req host path gzip trailers n) := by
  have hown {k v : Bytes} (hk : k ∈ [ascii "trailer", ascii "user-agent"]) :
      (plainField (k, v)).isPseudo = false ∧ g.validWireHeaderFieldName k = true ∧
        k ∉ connectionHeaders := by
    have htables : g.isTokenByte = HttpGuts.tables.isTokenByte := funext hg.token
    have hnames : ∀ k ∈ [ascii "trailer", ascii "user-agent"],
        (k.length != 0 && k[0]? == some 58) = false ∧
          HttpGuts.tables.validWireHeaderFieldName k = true ∧ k ∉ connectionHeaders := by
      decide
    rw [HttpGuts.validWireHeaderFieldName, htables]
    exact hnames k hk
  have hsplit : ∀ f ∈ cc.writtenFields rt req host path gzip trailers n,
      f.name ∈ requestPseudos ∧ f.isPseudo = true ∨
        f.isPseudo = false ∧ g.validWireHeaderFieldName f.name = true ∧
          f.name ∉ connectionHeaders := by
    intro f hf
    rcases mem_writtenFields hf with ⟨p, hp, rfl⟩ | rfl | ⟨kv, hkv, hkf⟩ | rfl
    · have hknown : ∀ k ∈ pseudoNames, k ∈ requestPseudos := by decide
      have hp := pseudoHeader_names p hp
      exact .inl ⟨hknown _ hp, isPseudo_of_pseudoNames hp⟩
    · exact .inr (hown (by decide))
    · have hkv := checkKey_outgoing hg hcheck hkv
      rcases keyWritten_name hg hkv hkf with ⟨-, heq⟩ | ⟨-, hwire⟩
      · have hprotocol : ascii ":protocol" ∈ requestPseudos := by decide
        refine .inl ⟨heq ▸ hprotocol, ?_⟩
        unfold HeaderField.isPseudo
        rw [heq]
        decide
      · refine .inr ⟨isPseudo_of_validWire hg hwire, hwire, fun hconn => ?_⟩
        rw [(keyWritten_spec hg hkv hkf).2.1] at hconn
        unfold keyWritten at hkf
        rw [keyFields_connection ((checkKey_eq_none hkv).1.isAscii hg) hconn] at hkf
        cases hkf
    · exact .inr (hown (by decide))
  constructor
  · intro f hf hpseudo
    rcases hsplit f hf with ⟨hname, -⟩ | ⟨hregular, -⟩
    · exact hname
    · exact absurd (hregular.symm.trans hpseudo) Bool.false_ne_true
  · intro f hf hregular
    rcases hsplit f hf with ⟨-, hpseudo⟩ | ⟨-, hname⟩
    · exact absurd (hregular.symm.trans hpseudo) Bool.false_ne_true
    · exact hname

omit horder in
theorem values_iff :
    (∀ f ∈ cc.writtenFields rt req host path gzip trailers n,
        g.validHeaderFieldValue f.value = true) ↔
      (∀ f ∈ pseudoHeader req host path (cc.pseudoHeaderOrder req),
        g.validHeaderFieldValue f.2 = true) ∧ g.validHeaderFieldValue trailers = true := by
  constructor
  · intro h
    rw [writtenFields_eq] at h
    have hleading : ∀ p ∈ cc.leadingFields req host path trailers,
        g.validHeaderFieldValue p.2 = true := fun p hp =>
      h (plainField p) (mem_append_left _ (mem_append_left _ (mem_map_of_mem hp)))
    refine ⟨fun p hp => hleading p (mem_append_left _ hp), ?_⟩
    by_cases htrailers : trailers = []
    · rw [htrailers]
      rfl
    · refine hleading (ascii "trailer", trailers) (mem_append_right _ ?_)
      rw [if_pos htrailers]
      exact mem_singleton_self _
  · rintro ⟨hpseudo, htrailers⟩ f hf
    rcases mem_writtenFields hf with ⟨p, hp, rfl⟩ | rfl | ⟨kv, hkv, hkf⟩ | rfl
    · exact hpseudo p hp
    · exact htrailers
    · exact (keyWritten_spec hg (checkKey_outgoing hg hcheck hkv) hkf).2.2
    · have htables : g.isValueByte = HttpGuts.tables.isValueByte := funext hg.value
      rw [HttpGuts.validHeaderFieldValue, htables]
      decide

omit horder in
/-- The other keys have regular fields only. -/
theorem isPseudo_keyWritten (hkv : kv ∈ outgoingHeader req gzip n)
    (hne : kv.1 ≠ ascii ":protocol") :
    ∀ f ∈ keyWritten rt kv, f.isPseudo = false := by
  intro f hf
  rcases keyWritten_name hg (checkKey_outgoing hg hcheck hkv) hf with ⟨heq, -⟩ | ⟨-, hwire⟩
  · exact absurd heq hne
  · exact isPseudo_of_validWire hg hwire

/-- The fields of a request with the key `:protocol`. -/
theorem pseudoFirst_protocol_iff (hvs : (ascii ":protocol", vs) ∈ req.header) (hne : vs ≠ []) :
    (PseudoFirst (cc.writtenFields rt req host path gzip trailers n) ∧
      (((cc.writtenFields rt req host path gzip trailers n).filter HeaderField.isPseudo).map
        HeaderField.name).Nodup) ↔
      vs.length = 1 ∧ trailers = [] ∧ Leads rt req gzip n vs := by
  obtain ⟨before, after, hsplit, hothers, hbefore, hafter⟩ := requestKeys_split hvs
  have hregular {kvs : List (Bytes × List Bytes)} (hkvs : ∀ kv ∈ kvs, kv ∈ before ++ after) :
      ∀ f ∈ kvs.flatMap (keyWritten rt), f.isPseudo = false := by
    intro f hf
    obtain ⟨kv, hkv, hf⟩ := mem_flatMap.mp hf
    obtain ⟨hmem, hkey⟩ := hothers kv (hkvs kv hkv)
    exact isPseudo_keyWritten hg hcheck hmem hkey f hf
  have hparts : cc.writtenFields rt req host path gzip trailers n =
      (pseudoHeader req host path (cc.pseudoHeaderOrder req)).map plainField ++
        ((trailerFields trailers ++ before.flatMap (keyWritten rt)) ++
          (vs.map (fun v => plainField (ascii ":protocol", v)) ++
            (after.flatMap (keyWritten rt) ++
              (userAgentFields rt 2 req gzip n).map plainField))) := by
    rw [writtenFields_parts, hsplit, flatMap_append, flatMap_cons, keyWritten_protocol]
    simp only [append_assoc]
  have hfirst : ∀ f ∈ (pseudoHeader req host path (cc.pseudoHeaderOrder req)).map plainField,
      f.isPseudo = true := isPseudo_pseudoHeader
  have hbetween : ∀ f ∈ trailerFields trailers ++ before.flatMap (keyWritten rt),
      f.isPseudo = false :=
    forall_mem_append.mpr ⟨isPseudo_trailerFields,
      hregular fun kv hkv => mem_append_left _ hkv⟩
  have hsecond : ∀ f ∈ vs.map (fun v => plainField (ascii ":protocol", v)), f.isPseudo = true := by
    intro f hf
    obtain ⟨v, -, rfl⟩ := mem_map.mp hf
    rfl
  have hrest :
      ∀ f ∈ after.flatMap (keyWritten rt) ++ (userAgentFields rt 2 req gzip n).map plainField,
      f.isPseudo = false :=
    forall_mem_append.mpr ⟨hregular fun kv hkv => mem_append_right _ hkv,
      isPseudo_userAgent⟩
  have hne' : vs.map (fun v => plainField (ascii ":protocol", v)) ≠ [] := by
    rwa [Ne, map_eq_nil_iff]
  have hfilter : (cc.writtenFields rt req host path gzip trailers n).filter HeaderField.isPseudo =
      (pseudoHeader req host path (cc.pseudoHeaderOrder req)).map plainField ++
        vs.map fun v => plainField (ascii ":protocol", v) := by
    rw [hparts, filter_append, filter_append, filter_isPseudo_append hsecond hrest,
      filter_eq_self.mpr hfirst, filter_eq_nil_iff.mpr, nil_append]
    exact fun f hf => Bool.eq_false_iff.mp (hbetween f hf)
  have hbefore_iff : before.flatMap (keyWritten rt) = [] ↔ Leads rt req gzip n vs := by
    rw [flatMap_eq_nil_iff]
    constructor
    · intro h kv hkv hkey hwritten
      have hmem : kv ∈ before ++ (ascii ":protocol", vs) :: after := by
        rw [← hsplit]
        exact (requestKeys_perm 2).mem_iff.mpr hkv
      rcases mem_append.mp hmem with hmem | hmem
      · exact absurd (h kv hmem) hwritten
      rcases mem_cons.mp hmem with rfl | hmem
      · exact absurd rfl hkey
      · exact less_protocol hg (checkKey_outgoing hg hcheck hkv) hkey hwritten (hafter kv hmem)
    · intro h kv hkv
      by_contra hwritten
      obtain ⟨hmem, hkey⟩ := hothers kv (mem_append_left _ hkv)
      exact Bool.false_ne_true ((hbefore kv hkv).symm.trans (h kv hmem hkey hwritten))
  have htrailers : trailerFields trailers = [] ↔ trailers = [] := by
    unfold trailerFields
    split
    · rename_i hsome
      exact iff_of_false (cons_ne_nil _ _) hsome
    · rename_i hnone
      exact iff_of_true rfl (not_not.mp hnone)
  rw [hfilter, nodup_protocol_iff horder hne, hparts,
    pseudoFirst_between hfirst hbetween hsecond hne' hrest, append_eq_nil_iff, htrailers,
    hbefore_iff, and_comm]

/-- The order of the fields and the number of pseudo-header fields are right if and only if the
key `:protocol` is. -/
theorem pseudoFirst_iff :
    (PseudoFirst (cc.writtenFields rt req host path gzip trailers n) ∧
      (((cc.writtenFields rt req host path gzip trailers n).filter HeaderField.isPseudo).map
        HeaderField.name).Nodup) ↔
      ∀ vs, (ascii ":protocol", vs) ∈ req.header → vs ≠ [] →
        vs.length = 1 ∧ trailers = [] ∧ Leads rt req gzip n vs := by
  by_cases hprotocol : ∃ vs, (ascii ":protocol", vs) ∈ req.header ∧ vs ≠ []
  · obtain ⟨vs, hvs, hne⟩ := hprotocol
    rw [pseudoFirst_protocol_iff horder hg hcheck hvs hne]
    refine ⟨fun h vs' hvs' _ => ?_, fun h => h vs hvs hne⟩
    obtain rfl : vs' = vs := congrArg Prod.snd (inj_on_of_nodup_map req.header_nodup hvs' hvs rfl)
    exact h
  · have hregular : ∀ f ∈ trailerFields trailers ++
        (requestKeys rt 2 req gzip n).flatMap (keyWritten rt) ++
          (userAgentFields rt 2 req gzip n).map plainField, f.isPseudo = false := by
      refine forall_mem_append.mpr ⟨forall_mem_append.mpr ⟨isPseudo_trailerFields, ?_⟩,
        isPseudo_userAgent⟩
      intro f hf
      obtain ⟨kv, hkv, hf⟩ := mem_flatMap.mp hf
      have hmem := (requestKeys_perm 2).mem_iff.mp hkv
      by_cases hkey : kv.1 = ascii ":protocol"
      · obtain ⟨k, vs⟩ := kv
        obtain rfl : k = ascii ":protocol" := hkey
        have hnil : vs = [] := by
          by_contra hne
          exact hprotocol ⟨vs, mem_outgoingHeader_protocol.mp hmem, hne⟩
        rw [hnil, keyWritten_protocol] at hf
        cases hf
      · exact isPseudo_keyWritten hg hcheck hmem hkey f hf
    refine iff_of_true ⟨?_, ?_⟩ fun vs hvs hne => (hprotocol ⟨vs, hvs, hne⟩).elim
    · rw [writtenFields_parts]
      exact pseudoFirst_append isPseudo_pseudoHeader hregular
    · rw [writtenFields_parts, filter_isPseudo_append isPseudo_pseudoHeader hregular, map_map]
      exact nodup_pseudoHeader horder

theorem wellFormed_iff :
    WellFormed g (cc.writtenFields rt req host path gzip trailers n) ↔
      cc.Sendable rt g req host path trailers gzip n := by
  constructor
  · intro h
    obtain ⟨hpseudo, hannounced⟩ := (values_iff hg hcheck).mp h.values
    exact ⟨hpseudo, hannounced, (pseudoFirst_iff horder hg hcheck).mp ⟨h.order, h.once⟩⟩
  · intro h
    obtain ⟨hfirst, honce⟩ := (pseudoFirst_iff horder hg hcheck).mpr h.protocol
    exact ⟨wellNamed_writtenFields hg hcheck, hfirst, honce,
      (values_iff hg hcheck).mpr ⟨h.pseudo, h.announced⟩⟩

end

/-- For every request that `encodeHeaders` accepts, with no order for the pseudo-header or one
of the four names: the block is decoded to the fields that were written, their names
are right, and they are well formed, and accepted by the framer of a peer in
lockstep, if and only if the request is sendable. -/
theorem block_accepted_iff {punycodeHostPort : Bytes → Except String Bytes} (hg : g.Documented)
    (horder : ∀ names, cc.pseudoHeaderOrder req = some names → names.Perm pseudoNames)
    (htarget : requestTarget punycodeHostPort req = .ok (host, path)) {block : Bytes}
    {henc : Encoder}
    (hencode : cc.encodeHeaders? rt g punycodeHostPort req gzip trailers n = some (.ok block, henc))
    {fr : Framer} {hdec : Decoder} (hallow : fr.allowIllegalReads = false)
    (hstep : Lockstep cc.henc { hdec with emitEnabled := true, maxStrLen := 0 })
    (hfit : cc.henc.FieldsFit (cc.writtenFields rt req host path gzip trailers n))
    (hsize : fieldsSize (cc.writtenFields rt req host path gzip trailers n) ≤
      fr.maxHeaderListSize.toNat) (fh : FrameHeader) (prio : PriorityParam) :
    decodedFields hdec block = cc.writtenFields rt req host path gzip trailers n ∧
      WellNamed g (cc.writtenFields rt req host path gzip trailers n) ∧
      (WellFormed g (cc.writtenFields rt req host path gzip trailers n) ↔
        cc.Sendable rt g req host path trailers gzip n) ∧
      ((∃ fr', fr.readMetaFrame g hdec (.headers fh prio block) block true =
          (.ok (.metaHeaders fh prio (cc.writtenFields rt req host path gzip trailers n) false),
            fr')) ↔ cc.Sendable rt g req host path trailers gzip n) := by
  obtain ⟨hcheck, hwrite⟩ : (∀ kv ∈ req.header, checkKey g kv = none) ∧
      cc.henc.writeFields? (cc.writtenFields rt req host path gzip trailers n) =
        some (block, henc) := by
    unfold encodeHeaders? at hencode
    cases hfields : cc.requestFields rt g punycodeHostPort req gzip trailers n with
    | error e =>
      rw [hfields] at hencode
      cases hencode
    | ok fields =>
      obtain ⟨host', path', htarget', hcheck, -, rfl⟩ := requestFields_eq_ok.mp hfields
      rw [htarget] at htarget'
      cases htarget'
      rw [hfields] at hencode
      obtain ⟨r, hr, heq⟩ := Option.map_eq_some_iff.mp hencode
      cases heq
      exact ⟨hcheck, hr⟩
  have hne : cc.writtenFields rt req host path gzip trailers n ≠ [] := writtenFields_ne_nil horder
  have hnamed : WellNamed g (cc.writtenFields rt req host path gzip trailers n) :=
    wellNamed_writtenFields hg hcheck
  refine ⟨?_, hnamed, wellFormed_iff horder hg hcheck, ?_⟩
  · obtain ⟨bytes, e, hwrite', -, hfields, -⟩ :=
      hstep.inStep.aligned.write_fields hstep.inStep.emitting hstep.saveBuf hne
        (fun _ _ => ⟨Or.inl hstep.inStep.limit, Or.inl hstep.inStep.limit⟩) hfit
        (Decoder.feed_collect [] _)
    rw [hwrite, Option.some.injEq, Prod.mk.injEq] at hwrite'
    rw [decodedFields, hwrite'.1]
    exact hfields
  · rw [← wellFormed_iff horder hg hcheck]
    constructor
    · rintro ⟨fr', hread⟩
      exact (Framer.validFields_of_readMetaFrame hallow rfl rfl hread).wellFormed hnamed
    · intro h
      exact h.readMetaFrame hallow hstep hne hfit hsize hwrite (.headers fh prio block)

/-- An extended `CONNECT` request with another field, in an order. -/
def socketRequest (order : List Bytes) : Http.Request :=
  bareRequest (ascii "CONNECT")
    [(ascii "Accept", [ascii "*/*"]), (ascii ":protocol", [ascii "websocket"]),
      (headerOrderKey, order)]
    (by decide : [ascii "Accept", ascii ":protocol", headerOrderKey].Nodup)

/-- The fields of such a request around those of the header map. -/
def socketFields (fields : List (Bytes × Bytes)) : List HeaderField :=
  ([(ascii ":authority", ascii "a"), (ascii ":method", ascii "CONNECT"), (ascii ":path", ascii "/"),
    (ascii ":scheme", ascii "https")] ++ fields ++
    [(ascii "user-agent", defaultUserAgent)]).map plainField

/-- The framer of the peer of a new connection. -/
def peerFramer : Framer := Framer.new []

theorem lockstep_plainConn : Lockstep plainConn.henc
    { Decoder.new 4096 with emitEnabled := true, maxStrLen := 0 } :=
  Hpack.lockstep_new

/-- A request of a new connection is encoded when its fields are small. -/
theorem encodeHeaders?_plainConn {fields : List HeaderField} (hne : fields ≠ [])
    (hfields : (plainConn.plainFields req []).toOption = some fields)
    (hsmall : ∀ f ∈ fields, 4096 + f.entrySize < 2 ^ 32) :
    ∃ host path block henc, requestTarget .ok req = .ok (host, path) ∧
      fields = plainConn.writtenFields .plain req host path false [] (actualContentLength req) ∧
      plainConn.encodeHeaders? .plain .tables .ok req false [] (actualContentLength req) =
        some (.ok block, henc) ∧ plainConn.henc.FieldsFit fields := by
  have hok : plainConn.requestFields .plain .tables .ok req false [] (actualContentLength req) =
      .ok fields := by
    unfold plainFields at hfields
    cases hres :
        plainConn.requestFields .plain .tables .ok req false [] (actualContentLength req) with
    | error e =>
      rw [hres] at hfields
      cases hfields
    | ok fields' =>
      rw [hres] at hfields
      cases hfields
      rfl
  have hwithin : plainConn.henc.Within 4096 := ⟨Encoder.inv_new, by decide, by decide⟩
  have hfit := (hwithin.fields hsmall).1
  obtain ⟨host, path, htarget, -, -, heq⟩ := requestFields_eq_ok.mp hok
  obtain ⟨block, henc, hwrite, -⟩ :=
    lockstep_plainConn.inStep.aligned.write_fields rfl rfl hne
      (fun _ _ => ⟨.inl rfl, .inl rfl⟩) hfit (Decoder.feed_collect [] fields)
  refine ⟨host, path, block, henc, htarget, heq, ?_, hfit⟩
  unfold encodeHeaders?
  rw [hok]
  dsimp only
  rw [hwrite]
  rfl

/-- The framer returns the fields of such a request when `:protocol` is the first one. -/
theorem block_accepted_iff_first :
    ∃ block fr', peerFramer.readMetaFrame .tables (Decoder.new 4096)
        (.headers ⟨.headers, 4, 0, 1⟩ {} block) block true =
      (.ok (.metaHeaders ⟨.headers, 4, 0, 1⟩ {}
        (socketFields [(ascii ":protocol", ascii "websocket"), (ascii "accept", ascii "*/*")])
        false), fr') := by
  have hfields : (plainConn.plainFields
      (socketRequest [ascii ":protocol", ascii "accept"]) []).toOption =
      some (socketFields [(ascii ":protocol", ascii "websocket"),
        (ascii "accept", ascii "*/*")]) := by
    decide +kernel
  obtain ⟨host, path, block, henc, htarget, heq, hencode, hfit⟩ :=
    encodeHeaders?_plainConn (cons_ne_nil _ _) hfields (by decide)
  have horder : plainConn.pseudoHeaderOrder (socketRequest [ascii ":protocol", ascii "accept"]) =
      none := by
    decide
  have hallow : peerFramer.allowIllegalReads = false := rfl
  have hiff := block_accepted_iff HttpGuts.documented_tables
    (fun names hnames => by rw [horder] at hnames; cases hnames) htarget hencode hallow
    lockstep_plainConn (heq ▸ hfit) (heq ▸ by decide) ⟨.headers, 4, 0, 1⟩ {}
  rw [← heq] at hiff
  refine ⟨block, hiff.2.2.2.mpr (hiff.2.2.1.mp ⟨hiff.2.1, ?_, by decide, by decide⟩)⟩
  unfold PseudoFirst
  decide

/-- When `accept` is the first one, `:protocol` comes after it, and the framer does not return the
fields. -/
theorem protocol_after_regular :
    (plainConn.plainFields (socketRequest [ascii "accept"]) []).toOption =
        some (socketFields
          [(ascii "accept", ascii "*/*"), (ascii ":protocol", ascii "websocket")]) ∧
      ∃ block henc, plainConn.encodeHeaders? .plain .tables .ok (socketRequest [ascii "accept"])
          false [] 0 = some (.ok block, henc) ∧
        ∀ fr', peerFramer.readMetaFrame .tables (Decoder.new 4096)
            (.headers ⟨.headers, 4, 0, 1⟩ {} block) block true ≠
          (.ok (.metaHeaders ⟨.headers, 4, 0, 1⟩ {}
            (socketFields [(ascii "accept", ascii "*/*"), (ascii ":protocol", ascii "websocket")])
            false), fr') := by
  have hfields : (plainConn.plainFields (socketRequest [ascii "accept"]) []).toOption =
      some (socketFields [(ascii "accept", ascii "*/*"),
        (ascii ":protocol", ascii "websocket")]) := by
    decide +kernel
  obtain ⟨-, -, block, henc, -, -, hencode, -⟩ :=
    encodeHeaders?_plainConn (cons_ne_nil _ _) hfields (by decide)
  refine ⟨hfields, block, henc, hencode, fun fr' hread => ?_⟩
  have hvalid := Framer.validFields_of_readMetaFrame rfl rfl rfl hread
  have hfirst := (hvalid.wellFormed ⟨by decide, by decide⟩).order
  unfold PseudoFirst at hfirst
  exact absurd hfirst (by decide)

end ClientConn

end Fhttp.Http2
