import Fhttp.Hpack.Chunking
import Fhttp.Hpack.DynamicTable
import Fhttp.Hpack.Wire

/-!
# Encoder and decoder in lockstep

An encoder and a decoder whose dynamic tables hold the same entries stay in
that relation over any sequence of header blocks.  The tables are evicted
independently, by each side on its own; they stay equal because eviction reads
the entries, the size and the bound and nothing else (`SameTable`).

The indices that the encoder writes count from the newest entry.  So one field
is decoded correctly even when the decoder still holds older entries that the
encoder has evicted: `parse_writeRepr` only asks for the entries of the encoder
to be the newest ones of the decoder.  The lockstep result uses it for equal
tables.
-/

namespace Fhttp.Hpack

open Lib.Incremental Lib.Budget
open Decoder
open DynamicTable
open UInt64 (ofNat toNat_ofNat')
open List
open Option

/-! ## Equal tables -/

/-- Two dynamic tables with the same entries, size and bound.  The lookup maps
of the decoder's table are never read, and the evict count is internal. -/
structure SameTable (dt dt' : DynamicTable) : Prop where
  ents : dt'.table.ents = dt.table.ents
  size : dt'.size = dt.size
  maxSize : dt'.maxSize = dt.maxSize

namespace SameTable

variable {dt dt' : DynamicTable}

theorem evict (h : SameTable dt dt') : SameTable dt.evict dt'.evict := by
  rw [evict_eq, evict_eq dt']
  refine ⟨?_, ?_, h.maxSize⟩
  · simp only [h.ents, h.size, h.maxSize]
  · simp only [h.ents, h.size, h.maxSize]

theorem setMaxSize (h : SameTable dt dt') (v : UInt32) :
    SameTable (dt.setMaxSize v) (dt'.setMaxSize v) := by
  exact evict ⟨h.ents, h.size, rfl⟩

theorem add (h : SameTable dt dt') (f : HeaderField) : SameTable (dt.add f) (dt'.add f) := by
  refine evict ⟨?_, ?_, h.maxSize⟩
  · simp only [HeaderFieldTable.addEntry_ents, h.ents]
  · simp only [h.size]

end SameTable

/-! ## The invariant of the encoder -/

namespace Encoder

/-- The table of the encoder is right, and no entry in it is so long that its
size wraps. -/
structure Inv (e : Encoder) : Prop where
  dynTab : e.dynTab.Inv
  entrySize : ∀ g ∈ e.dynTab.table.ents, g.entrySize < 2 ^ 32

/-- Writing `f` does not make a size wrap: not the size of the field, and not
the sum of the entries when the field is added to the table. -/
def FieldFits (dt : DynamicTable) (f : HeaderField) : Prop :=
  f.entrySize < 2 ^ 32 ∧
    (f.sensitive = false → f.entrySize ≤ dt.maxSize.toNat →
      dt.size.toNat + f.entrySize < 2 ^ 32)

variable {e : Encoder}

/-- Every entry takes at least 32 octets of the size. -/
theorem le_weight {l : List HeaderField} (hl : ∀ g ∈ l, g.entrySize < 2 ^ 32) :
    32 * l.length ≤ weight HeaderField.weight l := by
  induction l with
  | nil => exact Nat.le_refl 0
  | cons g l ih =>
    have hg : g.weight = g.entrySize := HeaderField.size_toNat_of_lt (hl g mem_cons_self)
    have hge : 32 ≤ g.entrySize := Nat.le_add_left _ _
    have hrest := ih fun g' hg' => hl g' (mem_cons_of_mem _ hg')
    rw [weight_cons, length_cons]
    omega

theorem Inv.len_lt (h : e.Inv) : e.dynTab.table.len + staticTable.len < 2 ^ 63 := by
  have hlen := le_weight h.entrySize
  rw [← h.dynTab.size_eq] at hlen
  have hsize := e.dynTab.size.toNat_lt
  show e.dynTab.table.ents.length + 61 < 2 ^ 63
  omega

/-- The other fields of the encoder do not matter. -/
theorem Inv.of_dynTab {e' : Encoder} (h : e.Inv) (heq : e'.dynTab = e.dynTab) : e'.Inv := by
  refine ⟨?_, ?_⟩
  · rw [heq]
    exact h.dynTab
  · rw [heq]
    exact h.entrySize

theorem Inv.setMaxSize (h : e.Inv) (v : UInt32) :
    ({ e with dynTab := e.dynTab.setMaxSize v } : Encoder).Inv where
  dynTab := h.dynTab.setMaxSize v
  entrySize := by
    intro g hg
    simp only [setMaxSize_ents h.dynTab] at hg
    exact h.entrySize g ((fit_suffix _ _ _).mem hg)

theorem Inv.add (h : e.Inv) {f : HeaderField} (hfit : FieldFits e.dynTab f)
    (hindex : e.shouldIndex f = true) : ({ e with dynTab := e.dynTab.add f } : Encoder).Inv := by
  unfold shouldIndex at hindex
  rw [Bool.and_eq_true, Bool.not_eq_true', decide_eq_true_eq, UInt32.le_iff_toNat_le,
    HeaderField.size_toNat_of_lt hfit.1] at hindex
  have hsum := hfit.2 hindex.1 hindex.2
  refine ⟨h.dynTab.add hsum, ?_⟩
  intro g hg
  simp only [add_ents h.dynTab hsum] at hg
  rcases mem_append.mp ((fit_suffix _ _ _).mem hg) with hg | hg
  · exact h.entrySize g hg
  · rw [mem_singleton.mp hg]
    exact hfit.1

end Encoder

/-! ## One field -/

variable {k : Nat} {g : HeaderField} {d : Decoder} {p : Bytes} {fs : List HeaderField} {e : Encoder}
  {b : Block}

/-- The static table answers the index of its entries. -/
theorem Decoder.at?_static (d : Decoder) (hg : staticTable.ents[k]? = some g) :
    d.at? (ofNat (staticTable.indexOf true k)) = some g := by
  have hk : k < staticTable.len := (List.getElem?_eq_some_iff.mp hg).1
  rw [staticTable_len] at hk
  have hidx : staticTable.indexOf true k = k + 1 := rfl
  have htoNat : (ofNat (k + 1)).toNat = k + 1 := by
    rw [toNat_ofNat', Nat.mod_eq_of_lt (by omega)]
  have hne : ofNat (k + 1) ≠ 0 := by
    intro h
    rw [h] at htoNat
    cases htoNat
  unfold at?
  rw [hidx, if_neg hne, htoNat, if_pos (by rw [staticTable_len]; omega), Nat.add_sub_cancel, hg]

/-- The decoder answers the index of an entry of the encoder, when those entries
are its own newest ones. -/
theorem Decoder.at?_dynamic {t : HeaderFieldTable} (hlen : t.len + staticTable.len < 2 ^ 63)
    (hsuffix : t.ents <:+ d.dynTab.table.ents) (hg : t.ents[k]? = some g) :
    d.at? (ofNat (t.indexOf false k + staticTable.len)) = some g := by
  obtain ⟨old, hold⟩ := hsuffix
  have hk : k < t.len := (List.getElem?_eq_some_iff.mp hg).1
  have hidx : t.indexOf false k = t.len - k := rfl
  have hdlen : d.dynTab.table.len = old.length + t.len := by
    show d.dynTab.table.ents.length = _
    rw [← hold, length_append]
    rfl
  have htoNat : (ofNat (t.len - k + staticTable.len)).toNat =
      t.len - k + staticTable.len := by
    rw [toNat_ofNat', Nat.mod_eq_of_lt (by omega)]
  have hne : ofNat (t.len - k + staticTable.len) ≠ 0 := by
    intro h
    rw [h, staticTable_len] at htoNat
    have : (0 : UInt64).toNat = 0 := rfl
    omega
  have hmax : ¬ t.len - k + staticTable.len > d.maxTableIndex := by
    unfold maxTableIndex
    omega
  unfold at?
  rw [hidx, if_neg hne, htoNat, if_neg (by omega), if_neg hmax, Nat.add_sub_cancel, hdlen,
    show old.length + t.len - (t.len - k) = old.length + k by omega, ← hold,
    List.getElem?_append_right (Nat.le_add_right _ _), Nat.add_sub_cancel_left, hg]

namespace Encoder

variable {e : Encoder} {d : Decoder}

/-- The answer of `searchTable`, in terms of what the decoder looks up. -/
theorem searchTable?_spec (h : e.Inv)
    (hsuffix : e.dynTab.table.ents <:+ d.dynTab.table.ents) (f : HeaderField) :
    ∃ idx m, e.searchTable? f = some (idx, m) ∧ idx < 2 ^ 63 ∧
      (m = true → idx ≠ 0 ∧ f.sensitive = false) ∧
      (idx ≠ 0 → ∃ g, d.at? (ofNat idx) = some g ∧ g.name = f.name ∧
        (m = true → g.value = f.value)) := by
  obtain ⟨i, mi, hsi, hi, hmi, hientry⟩ := HeaderFieldTable.search?_spec staticTable_inv true f
  obtain ⟨j, mj, hsj, hj, hmj, hjentry⟩ := HeaderFieldTable.search?_spec h.dynTab.table false f
  have hlen := h.len_lt
  have hmatch : ∀ {t : HeaderFieldTable},
      (∃ g ∈ t.ents, g.pair = f.pair) → ∃ g ∈ t.ents, g.name = f.name := by
    intro t ht
    obtain ⟨g, hg, hpair⟩ := ht
    exact ⟨g, hg, congrArg PairNameValue.name hpair⟩
  have hstatic : i ≠ 0 → i < 2 ^ 63 ∧ ∃ g, d.at? (ofNat i) = some g ∧ g.name = f.name ∧
      (mi = true → g.value = f.value) := by
    intro hi0
    obtain ⟨k, g, hg, hname, hvalue, rfl⟩ := hientry hi0
    have hk : k < staticTable.len := (List.getElem?_eq_some_iff.mp hg).1
    refine ⟨?_, g, d.at?_static hg, hname, hvalue⟩
    show k + 1 < 2 ^ 63
    omega
  by_cases hmi' : mi = true
  · have hi0 : i ≠ 0 := hi.mpr (hmatch (hmi.mp hmi').2)
    refine ⟨i, true, ?_, (hstatic hi0).1, fun _ => ⟨hi0, (hmi.mp hmi').1⟩, fun _ => ?_⟩
    · simp [searchTable?, hsi, hmi']
    · obtain ⟨g, hg, hname, hvalue⟩ := (hstatic hi0).2
      exact ⟨g, hg, hname, fun _ => hvalue hmi'⟩
  by_cases hdyn : (mj || (i == 0 && j != 0)) = true
  · have hj0 : j ≠ 0 := by
      rw [Bool.or_eq_true, Bool.and_eq_true, bne_iff_ne] at hdyn
      rcases hdyn with hm | hz
      · exact hj.mpr (hmatch (hmj.mp hm).2)
      · exact hz.2
    obtain ⟨k, g, hg, hname, hvalue, hjk⟩ := hjentry hj0
    refine ⟨j + staticTable.len, mj, ?_, ?_, fun hm => ?_, fun _ => ?_⟩
    · simp only [searchTable?, hsi, bind_some, if_neg hmi', hsj, map_some,
        if_pos hdyn]
    · have : e.dynTab.table.indexOf false k ≤ e.dynTab.table.len := Nat.sub_le _ _
      omega
    · exact ⟨by omega, (hmj.mp hm).1⟩
    · rw [hjk]
      exact ⟨g, at?_dynamic hlen hsuffix hg, hname, hvalue⟩
  · refine ⟨i, false, ?_, ?_, fun hm => absurd hm Bool.false_ne_true, fun hi0 => ?_⟩
    · simp only [searchTable?, hsi, bind_some, if_neg hmi', hsj, map_some,
        if_neg hdyn]
    · by_cases hi0 : i = 0
      · omega
      · exact (hstatic hi0).1
    · obtain ⟨_, g, hg, hname, _⟩ := hstatic hi0
      exact ⟨g, hg, hname, fun hm => absurd hm Bool.false_ne_true⟩

/-- The encoder after a field, of which `indexed` says whether it was added to
the table. -/
def fieldWritten (e : Encoder) (f : HeaderField) (indexed : Bool) : Encoder :=
  if indexed then { e with dynTab := e.dynTab.add f } else e

variable {f : HeaderField} {σ : Type} {v : UInt32}

/-- The encoder does not panic on a field, and the decoder reads the bytes as
that field.  Both add it to their tables or neither does. -/
theorem parse_writeRepr (h : e.Inv) (hsuffix : e.dynTab.table.ents <:+ d.dynTab.table.ents)
    (hon : d.emitEnabled = true) (hdname : d.Admits f.name.length)
    (hdvalue : d.Admits f.value.length) (hf : f.entrySize < 2 ^ 32) :
    ∃ bytes indexed, bytes ≠ [] ∧
      e.writeRepr? [] f = some (bytes, e.fieldWritten f indexed) ∧
      (indexed = true → e.shouldIndex f = true) ∧
      ∀ {σ : Type} (emit : EmitFunc σ) (s : σ) (rest : Bytes),
        parseHeaderFieldRepr emit d s (bytes ++ rest) =
          .ok (emitted emit (d.literalRead f indexed) s f) rest := by
  obtain ⟨idx, m, hsearch, hlt, hm, hidx⟩ := searchTable?_spec h hsuffix f
  have htoNat : (ofNat idx).toNat = idx := by
    rw [toNat_ofNat', Nat.mod_eq_of_lt (by omega)]
  have hne : idx ≠ 0 → ofNat idx ≠ 0 := by
    intro h0 hz
    rw [hz] at htoNat
    exact h0 htoNat.symm
  have hname : f.name.length < 2 ^ 63 := by
    unfold HeaderField.entrySize at hf
    omega
  have hvalue : f.value.length < 2 ^ 63 := by
    unfold HeaderField.entrySize at hf
    omega
  unfold writeRepr?
  rw [hsearch, map_some]
  cases m with
  | true =>
    obtain ⟨hidx0, hsens⟩ := hm rfl
    obtain ⟨g, hg, hgname, hgvalue⟩ := hidx hidx0
    have hgf : ({ name := g.name, value := g.value } : HeaderField) = f := by
      rw [hgname, hgvalue rfl, ← hsens]
    refine ⟨orAt (appendVarInt [] 7 (ofNat idx)) 0 0x80, false, ?_, ?_, ?_, ?_⟩
    · obtain ⟨b, l, hbl, _⟩ := appendVarInt_head (k := 7) (by decide) (ofNat idx)
      rw [show appendVarInt [] 7 (ofNat idx) = b :: l from hbl]
      exact cons_ne_nil _ _
    · rfl
    · exact fun hfalse => absurd hfalse Bool.false_ne_true
    · intro σ emit s rest
      rw [parse_indexed emit s (by rw [htoNat]; exact hlt) hg, hgf]
      exact returnEmit_ok emit s hdname hdvalue hon rest
  | false =>
    have hkind : e.shouldIndex f = true → f.sensitive = false := by
      intro hindex
      unfold shouldIndex at hindex
      rw [Bool.and_eq_true, Bool.not_eq_true'] at hindex
      exact hindex.1
    have hread : (d.literalRead f (e.shouldIndex f)).maxStrLen = d.maxStrLen ∧
        (d.literalRead f (e.shouldIndex f)).emitEnabled = true := by
      unfold literalRead
      split
      · exact ⟨rfl, hon⟩
      · exact ⟨rfl, hon⟩
    have hadmits {len : Nat} (hlen : d.Admits len) :
        (d.literalRead f (e.shouldIndex f)).Admits len := by
      unfold Admits
      rwa [hread.1]
    refine ⟨literalBytes f (ofNat idx) (e.shouldIndex f), e.shouldIndex f, ?_, ?_, id, ?_⟩
    · obtain ⟨b, l, hbl, _⟩ := appendVarInt_head (nameBits_lt (e.shouldIndex f)) (ofNat idx)
      unfold literalBytes
      rw [hbl]
      exact cons_ne_nil _ _
    · by_cases hidx0 : idx = 0
      · subst hidx0
        simp only [Bool.false_eq_true, if_false, if_true, appendNewName_eq, nil_append]
        rfl
      · simp only [Bool.false_eq_true, if_false, if_neg hidx0,
          appendIndexedName_eq _ _ (hne hidx0), nil_append]
        rfl
    · intro σ emit s rest
      rw [parse_literal emit s hon hdname hdvalue hkind hname hvalue
        (by rw [htoNat]; exact hlt)]
      · exact returnEmit_ok emit s (hadmits hdname) (hadmits hdvalue) hread.2 rest
      · intro hi0
        have hidx0 : idx ≠ 0 := by
          intro hz
          rw [hz] at hi0
          exact hi0 rfl
        obtain ⟨g, hg, hgname, _⟩ := hidx hidx0
        exact ⟨g, hg, hgname⟩

/-! ## The fields of a block -/

/-- A sequence of `WriteField` calls: all the bytes, and the encoder. -/
def writeFields? (e : Encoder) : List HeaderField → Option (Bytes × Encoder)
  | [] => some ([], e)
  | f :: fs =>
    (e.writeField? f).bind fun (b, e') =>
      (e'.writeFields? fs).map fun (bs, e'') => (b ++ bs, e'')

/-- No call of the sequence makes a size wrap. -/
def FieldsFit (e : Encoder) : List HeaderField → Prop
  | [] => True
  | f :: fs => FieldFits e.dynTab f ∧ ∀ b e', e.writeField? f = some (b, e') → e'.FieldsFit fs

theorem writeField?_of_settled (h : e.tableSizeUpdate = false) (f : HeaderField) :
    e.writeField? f = e.writeRepr? [] f := by
  have hidle : e.writeTableSize = ([], e) := by
    unfold writeTableSize
    rw [if_neg (by rw [h]; exact Bool.false_ne_true)]
  rw [writeField?, hidle]

/-- The tables agree and no size update is due. -/
structure Aligned (e : Encoder) (d : Decoder) : Prop where
  table : SameTable e.dynTab d.dynTab
  inv : e.Inv
  settled : e.tableSizeUpdate = false

/-- One field keeps encoder and decoder aligned, whatever the callback does with it. -/
theorem Aligned.field (h : Aligned e d) (hon : d.emitEnabled = true) {f : HeaderField}
    (hname : d.Admits f.name.length) (hvalue : d.Admits f.value.length)
    (hfit : FieldFits e.dynTab f) :
    ∃ bytes e', ∃ d' : Decoder, bytes ≠ [] ∧ e.writeField? f = some (bytes, e') ∧
      e'.minSize = e.minSize ∧ d'.maxStrLen = d.maxStrLen ∧
        (∀ on, Aligned e' { d' with emitEnabled := on }) ∧
      ∀ {σ : Type} (emit : EmitFunc σ) (s : σ) (rest : Bytes),
        parseNext emit (d, s) (bytes ++ rest) =
          .ok ({ d' with emitEnabled := (emit s f).2 }, (emit s f).1) rest := by
  have hsuffix : e.dynTab.table.ents <:+ d.dynTab.table.ents := by
    rw [h.table.ents]
  obtain ⟨bytes, indexed, hne, hwrite, hindex, hparse⟩ :=
    parse_writeRepr h.inv hsuffix hon hname hvalue hfit.1
  refine ⟨bytes, e.fieldWritten f indexed, { d.literalRead f indexed with firstField := false },
    hne, ?_, ?_, ?_, fun on => ?_, ?_⟩
  · rw [writeField?_of_settled h.settled, hwrite]
  · cases indexed <;> rfl
  · cases indexed <;> rfl
  · cases indexed with
    | true => exact ⟨h.table.add f, h.inv.add hfit (hindex rfl), h.settled⟩
    | false => exact ⟨h.table, h.inv, h.settled⟩
  · intro σ emit s rest
    unfold parseNext
    simp only [hparse emit s rest]
    rfl

/-- In the middle of a block: the tables agree and no size update is due. -/
structure InStep (e : Encoder) (d : Decoder) : Prop where
  table : SameTable e.dynTab d.dynTab
  inv : e.Inv
  settled : e.tableSizeUpdate = false
  limit : d.maxStrLen = 0
  emitting : d.emitEnabled = true

theorem InStep.aligned (h : InStep e d) : Aligned e d := ⟨h.table, h.inv, h.settled⟩

/-- One field keeps encoder and decoder in step. -/
theorem InStep.field (h : InStep e d) (hfit : FieldFits e.dynTab f) (log : List HeaderField) :
    ∃ bytes e' d', bytes ≠ [] ∧ e.writeField? f = some (bytes, e') ∧ InStep e' d' ∧
      e'.minSize = e.minSize ∧
      ∀ rest, parseNext collect (d, log) (bytes ++ rest) =
        .ok (d', log ++ [f]) rest := by
  obtain ⟨bytes, e', d', hne, hwrite, hmin, hlimit, haligned, hparse⟩ :=
    h.aligned.field h.emitting (.inl h.limit) (.inl h.limit) hfit
  obtain ⟨htable, hinv, hsettled⟩ := haligned true
  exact ⟨bytes, e', { d' with emitEnabled := true }, hne, hwrite,
    ⟨htable, hinv, hsettled, hlimit.trans h.limit, rfl⟩, hmin, hparse collect log⟩

/-- The fields of a block keep encoder and decoder in step. -/
theorem InStep.fields (h : InStep e d) (fs : List HeaderField) (hfit : e.FieldsFit fs)
    (log : List HeaderField) :
    ∃ bytes e' d', e.writeFields? fs = some (bytes, e') ∧ InStep e' d' ∧
      e'.minSize = e.minSize ∧ (fs ≠ [] → bytes ≠ []) ∧
      (stepper collect).run (d, log) bytes = .parked (d', log ++ fs) [] := by
  induction fs generalizing e d log with
  | nil =>
    refine ⟨[], e, d, rfl, h, rfl, fun hnil => absurd rfl hnil, ?_⟩
    rw [Stepper.run_nil, append_nil]
  | cons f fs ih =>
    obtain ⟨b, e₁, d₁, hne, hwrite, h₁, hmin₁, hparse⟩ := h.field hfit.1 log
    obtain ⟨bs, e₂, d₂, hwrites, h₂, hmin₂, _, hrun⟩ :=
      ih h₁ (hfit.2 b e₁ hwrite) (log ++ [f])
    refine ⟨b ++ bs, e₂, d₂, ?_, h₂, hmin₂.trans hmin₁, fun _ => ?_, ?_⟩
    · simp only [writeFields?, hwrite, bind_some, hwrites, map_some]
    · rw [Ne, append_eq_nil_iff]
      exact fun hnil => hne hnil.1
    · rw [(stepper collect).run_of_ok (hparse bs), hrun, append_assoc]
      rfl

/-! ## Size updates -/

theorem appendIndexedName_append (dst : Bytes) (f : HeaderField) (i : UInt64) (indexing : Bool) :
    appendIndexedName dst f i indexing = dst ++ appendIndexedName [] f i indexing := by
  have hbits : (if indexing then 6 else 4 : UInt64) = ofNat (nameBits indexing) := by
    cases indexing <;> rfl
  unfold appendIndexedName
  simp only [hbits]
  rw [appendHpackString_append, appendHpackString_append (orAt (appendVarInt [] _ _) _ _),
    orAt_appendVarInt (nameBits_lt indexing), append_assoc]
  rfl

/-- The bytes before a field do not matter. -/
theorem writeRepr?_append (e : Encoder) (buf : Bytes) (f : HeaderField) :
    e.writeRepr? buf f = (e.writeRepr? [] f).map fun r => (buf ++ r.1, r.2) := by
  unfold writeRepr?
  rw [Option.map_map]
  congr 1
  funext idx
  obtain ⟨idx, m⟩ := idx
  simp only [Function.comp]
  cases m with
  | true => simp only [if_true, appendIndexed_eq, nil_append]
  | false =>
    by_cases hidx0 : idx = 0
    · simp only [Bool.false_eq_true, if_false, if_pos hidx0, appendNewName_eq, nil_append]
    · simp only [Bool.false_eq_true, if_false, if_neg hidx0]
      rw [appendIndexedName_append]

theorem writeTableSize_settled (e : Encoder) : e.writeTableSize.2.tableSizeUpdate = false := by
  unfold writeTableSize
  split
  · rfl
  · rename_i h
    exact Bool.eq_false_iff.mpr h

theorem writeTableSize_dynTab (e : Encoder) : e.writeTableSize.2.dynTab = e.dynTab := by
  unfold writeTableSize
  split <;> rfl

/-- The first field of a block is written behind the size updates that are due,
as an encoder without due updates would write it. -/
theorem writeFields?_settle (e : Encoder) (f : HeaderField) (fs : List HeaderField) :
    e.writeFields? (f :: fs) =
      (e.writeTableSize.2.writeFields? (f :: fs)).map fun r =>
        (e.writeTableSize.1 ++ r.1, r.2) := by
  have hfirst : e.writeField? f = (e.writeTableSize.2.writeField? f).map fun r =>
      (e.writeTableSize.1 ++ r.1, r.2) := by
    rw [writeField?_of_settled e.writeTableSize_settled, writeField?, writeRepr?_append]
  unfold writeFields?
  rw [hfirst]
  cases e.writeTableSize.2.writeField? f with
  | none => rfl
  | some r =>
    simp only [map_some, bind_some]
    cases r.2.writeFields? fs with
    | none => rfl
    | some r' => simp only [map_some, append_assoc]

theorem fieldsFit_settle {fs : List HeaderField} (h : e.FieldsFit (f :: fs)) :
    e.writeTableSize.2.FieldsFit (f :: fs) := by
  refine ⟨?_, fun b e' hwrite => ?_⟩
  · rw [writeTableSize_dynTab]
    exact h.1
  · refine h.2 (e.writeTableSize.1 ++ b) e' ?_
    rw [writeField?_of_settled e.writeTableSize_settled] at hwrite
    rw [writeField?, writeRepr?_append, hwrite, map_some]

theorem appendTableSize_append_ne_nil (v : UInt32) (rest : Bytes) :
    appendTableSize [] v ++ rest ≠ [] := by
  obtain ⟨b, l, hbl, _⟩ := appendVarInt_head (k := 5) (by decide) v.toUInt64
  rw [appendTableSize_eq, show appendVarInt [] 5 v.toUInt64 = b :: l from hbl]
  exact cons_ne_nil _ _

/-- A size update that comes too late. -/
theorem run_tableSize_late (emit : EmitFunc σ) (s : σ) (hfirst : d.firstField = false)
    (hsize : d.dynTab.size > 0) (rest : Bytes) :
    ∃ ds, (stepper emit).run (d, s) (appendTableSize [] v ++ rest) =
      .failed (.decodingError
        "dynamic table size update MUST occur at the beginning of a header block") ds := by
  have hstep : (stepper emit).step (d, s) (appendTableSize [] v ++ rest) =
      .fail (.decodingError
        "dynamic table size update MUST occur at the beginning of a header block",
        ({ d with firstField := false }, s)) := by
    show parseNext emit (d, s) (appendTableSize [] v ++ rest) = _
    unfold parseNext
    rw [appendTableSize_eq, nil_append, parse_tableSize_late emit s hfirst hsize]
    rfl
  exact ⟨_, Stepper.run_of_fail _ (appendTableSize_append_ne_nil v rest) hstep⟩

/-- One size update on the wire, read at a place where the decoder accepts it. -/
theorem run_tableSize (emit : EmitFunc σ) (s : σ) (hfirst : d.firstField = true ∨ d.dynTab.size = 0)
    (hv : v ≤ d.dynTab.allowedMaxSize) (rest : Bytes) :
    (stepper emit).run (d, s) (appendTableSize [] v ++ rest) =
      (stepper emit).run
        ({ d with dynTab := d.dynTab.setMaxSize v, firstField := false }, s) rest := by
  apply Stepper.run_of_ok
  show parseNext emit (d, s) (appendTableSize [] v ++ rest) = _
  unfold parseNext
  rw [appendTableSize_eq, nil_append, parse_tableSize emit s hfirst hv]
  rfl

end Encoder

/-! ## Blocks -/

open Encoder

/-- What is written between two `Close` calls: perhaps a call of
`SetMaxDynamicTableSize`, then the fields of a header block. -/
structure Block where
  resize : Option UInt32
  fields : List HeaderField

/-- The encoder when the block starts. -/
def Block.start (b : Block) (e : Encoder) : Encoder :=
  match b.resize with
  | none => e
  | some v => e.setMaxDynamicTableSize v

/-- A sequence of blocks goes from the encoder to the decoder.  The result is
what the decoder makes of every block, and both ends.  `none` is a panic of
the encoder. -/
def exchange? (e : Encoder) (d : Decoder) :
    List Block → Option (List (Except Err (List HeaderField)) × Encoder × Decoder)
  | [] => some ([], e, d)
  | b :: bs =>
    ((b.start e).writeFields? b.fields).bind fun (bytes, e') =>
      let r := d.decodeFull bytes
      (exchange? e' r.2 bs).map fun (rs, e'', d'') => (r.1 :: rs, e'', d'')

/-- No call of the sequence makes a size wrap. -/
def BlocksFit (e : Encoder) : List Block → Prop
  | [] => True
  | b :: bs => (b.start e).FieldsFit b.fields ∧
      ∀ bytes e', (b.start e).writeFields? b.fields = some (bytes, e') → BlocksFit e' bs

/-- Between two blocks: the tables agree, no size update is due, and the decoder
waits for a block with nothing saved. -/
structure Lockstep (e : Encoder) (d : Decoder) : Prop where
  inStep : InStep e d
  minSize : e.minSize = uint32Max
  firstField : d.firstField = true
  saveBuf : d.saveBuf = []

/-- `DecodeFull` of bytes that the loop of `Write` reads to the end. -/
theorem Decoder.decodeFull_of_run {d' : Decoder} (hsave : d.saveBuf = []) (hp : p ≠ [])
    (hrun : (stepper collect).run (d, []) p = .parked (d', fs) []) :
    d.decodeFull p = (.ok fs, { d' with saveBuf := [], firstField := true }) := by
  have hsame : { d with saveBuf := [] } = d := by
    rw [← hsave]
  have hwrite : write collect d [] p = ⟨p.length, none, { d' with saveBuf := [] }, fs⟩ := by
    rw [write, if_neg hp, hsave, nil_append, hsame, hrun,
      writeDone_of_not_large (fun hlarge => hlarge.1 rfl)]
  unfold decodeFull
  rw [hwrite]
  rfl

/-- `DecodeFull` of bytes that the loop of `Write` refuses. -/
theorem Decoder.decodeFull_of_failed {err : Err} {ds : Decoder × List HeaderField}
    (hsave : d.saveBuf = []) (hp : p ≠ []) (hrun : (stepper collect).run (d, []) p = .failed err ds)
    : (d.decodeFull p).1 = .error err := by
  have hsame : { d with saveBuf := [] } = d := by
    rw [← hsave]
  have hwrite : write collect d [] p = ⟨p.length, some err, ds.1, ds.2⟩ := by
    rw [write, if_neg hp, hsave, nil_append, hsame, hrun]
    rfl
  unfold decodeFull
  rw [hwrite]

/-- The bound that `SetMaxDynamicTableSize` puts in force. -/
def Encoder.cappedSize (e : Encoder) (v : UInt32) : UInt32 :=
  if v > e.maxSizeLimit then e.maxSizeLimit else v

theorem Encoder.cappedSize_le (e : Encoder) (v : UInt32) : e.cappedSize v ≤ v := by
  unfold cappedSize
  split
  · exact UInt32.le_of_lt ‹_›
  · exact UInt32.le_refl v

/-- The size update at the start of a block, if there is one, brings the two
tables together again. -/
theorem Lockstep.start (h : Lockstep e d)
    (hv : ∀ v, b.resize = some v → v ≤ d.dynTab.allowedMaxSize) :
    ∃ d₁, InStep (b.start e).writeTableSize.2 d₁ ∧
      (b.start e).writeTableSize.2.minSize = uint32Max ∧
      ∀ {σ : Type} (emit : EmitFunc σ) (s : σ) (rest : Bytes),
        (stepper emit).run (d, s) ((b.start e).writeTableSize.1 ++ rest) =
          (stepper emit).run (d₁, s) rest := by
  unfold Block.start
  cases hb : b.resize with
  | none =>
    have hidle : e.writeTableSize = ([], e) := by
      unfold writeTableSize
      rw [if_neg (by rw [h.inStep.settled]; exact Bool.false_ne_true)]
    rw [hidle]
    exact ⟨d, h.inStep, h.minSize, fun _ _ _ => rfl⟩
  | some v =>
    have hmin : (e.setMaxDynamicTableSize v).minSize = e.cappedSize v := by
      show (if e.cappedSize v < e.minSize then e.cappedSize v else e.minSize) = _
      rw [h.minSize]
      split
      · rfl
      · rename_i hge
        apply UInt32.toNat_inj.mp
        have hmax : (e.cappedSize v).toNat < 2 ^ 32 := UInt32.toNat_lt _
        rw [UInt32.lt_iff_toNat_lt] at hge
        have : uint32Max.toNat = 0xffffffff := rfl
        omega
    have hmax : (e.setMaxDynamicTableSize v).dynTab.maxSize = e.cappedSize v :=
      setMaxSize_maxSize _ _
    have hupd : (e.setMaxDynamicTableSize v).writeTableSize =
        (appendTableSize [] (e.cappedSize v),
          { e.setMaxDynamicTableSize v with tableSizeUpdate := false, minSize := uint32Max }) := by
      have hdue : (e.setMaxDynamicTableSize v).tableSizeUpdate = true := rfl
      unfold writeTableSize
      rw [if_pos hdue, hmin, hmax, if_neg (UInt32.lt_irrefl _)]
    rw [hupd]
    refine ⟨{ d with dynTab := d.dynTab.setMaxSize (e.cappedSize v), firstField := false },
      ?_, rfl, ?_⟩
    · exact ⟨h.inStep.table.setMaxSize _, (h.inStep.inv.setMaxSize _).of_dynTab rfl, rfl,
        h.inStep.limit, h.inStep.emitting⟩
    · intro σ emit s rest
      exact run_tableSize emit s (.inl h.firstField)
        (UInt32.le_trans (e.cappedSize_le v) (hv v hb)) rest

/-- A block whose size updates bring the two ends in step is decoded, and leaves
them in step. -/
theorem decodeFull_of_start {d₁ : Decoder} (hsave : d.saveBuf = [])
    (hstep : InStep e.writeTableSize.2 d₁)
    (hrun₁ : ∀ s rest, (stepper collect).run (d, s) (e.writeTableSize.1 ++ rest) =
      (stepper collect).run (d₁, s) rest) (hne : fs ≠ []) (hfit : e.FieldsFit fs) :
    ∃ bytes e' d', e.writeFields? fs = some (bytes, e') ∧ d.decodeFull bytes = (.ok fs, d') ∧
      InStep e' d' ∧ e'.minSize = e.writeTableSize.2.minSize ∧
      d'.firstField = true ∧ d'.saveBuf = [] ∧
      d'.dynTab.allowedMaxSize = d.dynTab.allowedMaxSize := by
  cases fs with
  | nil => exact absurd rfl hne
  | cons f fs =>
    obtain ⟨bytes, e', d₂, hwrite, hstep', hmin', hbytes, hrun₂⟩ :=
      hstep.fields (f :: fs) (fieldsFit_settle hfit) []
    have hrun : (stepper collect).run (d, []) (e.writeTableSize.1 ++ bytes) =
        .parked (d₂, f :: fs) [] := by
      rw [hrun₁, hrun₂, nil_append]
    have hp : e.writeTableSize.1 ++ bytes ≠ [] := by
      rw [Ne, append_eq_nil_iff]
      exact fun hnil => hbytes hne hnil.2
    have hconfig := config_run collect d [] (e.writeTableSize.1 ++ bytes)
    rw [hrun] at hconfig
    refine ⟨_, e', _, ?_, decodeFull_of_run hsave hp hrun, ?_, hmin', rfl, rfl,
      hconfig.allowedMaxSize⟩
    · rw [writeFields?_settle, hwrite, map_some]
    · exact ⟨hstep'.table, hstep'.inv, hstep'.settled, hstep'.limit, hstep'.emitting⟩

/-- One block keeps encoder and decoder in lockstep. -/
theorem Lockstep.block (h : Lockstep e d) (hne : b.fields ≠ [])
    (hv : ∀ v, b.resize = some v → v ≤ d.dynTab.allowedMaxSize)
    (hfit : (b.start e).FieldsFit b.fields) :
    ∃ bytes e' d', (b.start e).writeFields? b.fields = some (bytes, e') ∧
      d.decodeFull bytes = (.ok b.fields, d') ∧ Lockstep e' d' ∧
      d'.dynTab.allowedMaxSize = d.dynTab.allowedMaxSize := by
  obtain ⟨d₁, hstep, hmin, hrun₁⟩ := h.start hv
  obtain ⟨bytes, e', d', hwrite, hdecode, hstep', hmin', hfirst, hsave, hallowed⟩ :=
    decodeFull_of_start h.saveBuf hstep (hrun₁ collect) hne hfit
  exact ⟨bytes, e', d', hwrite, hdecode, ⟨hstep', hmin'.trans hmin, hfirst, hsave⟩, hallowed⟩

/-- Encoder and decoder stay in lockstep.  Over any sequence of non-empty header
blocks, with at most one `SetMaxDynamicTableSize` call before each of them,
the encoder does not panic, the decoder accepts every block and emits exactly
its fields in order, and the two dynamic tables have the same entries, size
and maximum size. -/
theorem lockstep_exchange {e : Encoder} {d : Decoder} (h : Lockstep e d) (blocks : List Block)
    (hne : ∀ b ∈ blocks, b.fields ≠ [])
    (hv : ∀ b ∈ blocks, ∀ v, b.resize = some v → v ≤ d.dynTab.allowedMaxSize)
    (hfit : BlocksFit e blocks) :
    ∃ e' d', exchange? e d blocks = some (blocks.map fun b => .ok b.fields, e', d') ∧
      SameTable e'.dynTab d'.dynTab := by
  induction blocks generalizing e d with
  | nil => exact ⟨e, d, rfl, h.inStep.table⟩
  | cons b bs ih =>
    obtain ⟨bytes, e₁, d₁, hwrite, hdecode, h₁, hallowed⟩ :=
      h.block (hne b mem_cons_self) (hv b mem_cons_self) hfit.1
    obtain ⟨e₂, d₂, hrest, hsame⟩ := ih h₁ (fun b' hb' => hne b' (mem_cons_of_mem _ hb'))
      (by rw [hallowed]; exact fun b' hb' => hv b' (mem_cons_of_mem _ hb'))
      (hfit.2 bytes e₁ hwrite)
    refine ⟨e₂, d₂, ?_, hsame⟩
    simp only [exchange?, hwrite, bind_some, hdecode, hrest, map_some, map_cons]

/-! ## Sizes that never wrap

The hypothesis on sizes holds by itself for every table bound and field that
occur in practice: it is enough that the largest bound and a field together
stay below `2 ^ 32`. -/

namespace Encoder

/-- An encoder whose bounds are at most `m`. -/
structure Within (m : Nat) (e : Encoder) : Prop where
  inv : e.Inv
  maxSize : e.dynTab.maxSize.toNat ≤ m
  maxSizeLimit : e.maxSizeLimit.toNat ≤ m

variable {m : Nat} {e : Encoder}

variable {f : HeaderField} {b : Bytes} {e' : Encoder}

theorem Within.fieldFits (h : e.Within m) (hf : m + f.entrySize < 2 ^ 32) :
    FieldFits e.dynTab f := by
  have hsize := UInt32.le_iff_toNat_le.mp h.inv.dynTab.size_le
  have hmax := h.maxSize
  exact ⟨by omega, fun _ _ => by omega⟩

/-- `WriteField` adds the field to the table, or leaves the table alone. -/
theorem writeField?_dynTab (h : e.writeField? f = some (b, e')) :
    e'.maxSizeLimit = e.maxSizeLimit ∧
      (e'.dynTab = e.dynTab ∨ e.shouldIndex f = true ∧ e'.dynTab = e.dynTab.add f) := by
  have hlimit : e.writeTableSize.2.maxSizeLimit = e.maxSizeLimit := by
    unfold writeTableSize
    split <;> rfl
  have hindex : e.writeTableSize.2.shouldIndex f = e.shouldIndex f := by
    unfold shouldIndex
    rw [writeTableSize_dynTab]
  obtain ⟨⟨idx, nameValueMatch⟩, _, hr⟩ := map_eq_some_iff.mp h
  rw [← hlimit, ← hindex, ← writeTableSize_dynTab e]
  generalize e.writeTableSize.2 = e₀ at hr ⊢
  cases nameValueMatch with
  | true =>
    have he' : e₀ = e' := congrArg Prod.snd hr
    rw [← he']
    exact ⟨rfl, .inl rfl⟩
  | false =>
    have he' : e₀.fieldWritten f (e₀.shouldIndex f) = e' := by
      simp only [Bool.false_eq_true, if_false] at hr
      by_cases hidx0 : idx = 0
      · rw [if_pos hidx0] at hr
        exact congrArg Prod.snd hr
      · rw [if_neg hidx0] at hr
        exact congrArg Prod.snd hr
    rw [← he']
    cases e₀.shouldIndex f with
    | true => exact ⟨rfl, .inr ⟨rfl, rfl⟩⟩
    | false => exact ⟨rfl, .inl rfl⟩

theorem Within.writeField? (h : e.Within m) (hf : m + f.entrySize < 2 ^ 32)
    (hwrite : e.writeField? f = some (b, e')) : e'.Within m := by
  obtain ⟨hlimit, hsame | ⟨hindex, hadd⟩⟩ := writeField?_dynTab hwrite
  · refine ⟨h.inv.of_dynTab hsame, ?_, ?_⟩
    · rw [hsame]
      exact h.maxSize
    · rw [hlimit]
      exact h.maxSizeLimit
  · refine ⟨(h.inv.add (h.fieldFits hf) hindex).of_dynTab hadd, ?_, ?_⟩
    · rw [hadd, add_maxSize]
      exact h.maxSize
    · rw [hlimit]
      exact h.maxSizeLimit

theorem Within.setMaxDynamicTableSize (h : e.Within m) (v : UInt32) :
    (e.setMaxDynamicTableSize v).Within m where
  inv := (h.inv.setMaxSize (e.cappedSize v)).of_dynTab rfl
  maxSize := by
    have hmax : (e.setMaxDynamicTableSize v).dynTab.maxSize = e.cappedSize v :=
      setMaxSize_maxSize _ _
    have hlimit := h.maxSizeLimit
    rw [hmax]
    unfold cappedSize
    split
    · exact hlimit
    · rename_i hle
      rw [gt_iff_lt, UInt32.lt_iff_toNat_lt] at hle
      omega
  maxSizeLimit := h.maxSizeLimit

theorem Within.fields (h : e.Within m) {fs : List HeaderField}
    (hfs : ∀ f ∈ fs, m + f.entrySize < 2 ^ 32) :
    e.FieldsFit fs ∧ ∀ b e', e.writeFields? fs = some (b, e') → e'.Within m := by
  induction fs generalizing e with
  | nil =>
    refine ⟨trivial, fun b e' hwrite => ?_⟩
    cases hwrite
    exact h
  | cons f fs ih =>
    have hf := hfs f mem_cons_self
    have hrest : ∀ f' ∈ fs, m + f'.entrySize < 2 ^ 32 :=
      fun f' hf' => hfs f' (mem_cons_of_mem _ hf')
    refine ⟨⟨h.fieldFits hf, fun b e' hwrite => (ih (h.writeField? hf hwrite) hrest).1⟩, ?_⟩
    intro b e' hwrites
    obtain ⟨r, hr, hmap⟩ := bind_eq_some_iff.mp hwrites
    obtain ⟨r', hr', heq⟩ := map_eq_some_iff.mp hmap
    cases heq
    exact (ih (h.writeField? hf hr) hrest).2 _ _ hr'

end Encoder

/-- Blocks of fields that are small against the bounds make no size wrap. -/
theorem blocksFit_of_within {m : Nat} (h : e.Within m) {blocks : List Block}
    (hfs : ∀ b ∈ blocks, ∀ f ∈ b.fields, m + f.entrySize < 2 ^ 32) : BlocksFit e blocks := by
  induction blocks generalizing e with
  | nil => trivial
  | cons b bs ih =>
    have hstart : (b.start e).Within m := by
      unfold Block.start
      split
      · exact h
      · exact h.setMaxDynamicTableSize _
    obtain ⟨hfit, hwithin⟩ := hstart.fields (hfs b mem_cons_self)
    exact ⟨hfit, fun bytes e' hwrite =>
      ih (hwithin bytes e' hwrite) fun b' hb' => hfs b' (mem_cons_of_mem _ hb')⟩

theorem Encoder.inv_new : Encoder.new.Inv :=
  ⟨inv_empty.setMaxSize _, fun g hg => by cases hg⟩

/-- A new encoder and a new decoder with the default table size start in
lockstep. -/
theorem lockstep_new : Lockstep Encoder.new (new initialHeaderTableSize) := by
  refine ⟨⟨⟨rfl, rfl, rfl⟩, Encoder.inv_new, rfl, rfl, rfl⟩, rfl, rfl, rfl⟩

/-- Two blocks between new ends: a field that is added to both tables, and then,
under a smaller bound, the field by its index and a sensitive one. -/
theorem lockstep_exchange_new :
    ∃ e d, exchange? Encoder.new (Decoder.new 4096)
        [⟨none, [{ name := ascii "a", value := ascii "1" }]⟩,
          ⟨some 64, [{ name := ascii "a", value := ascii "1" },
            { name := ascii "b", value := ascii "2", sensitive := true }]⟩] =
      some ([.ok [{ name := ascii "a", value := ascii "1" }],
        .ok [{ name := ascii "a", value := ascii "1" },
          { name := ascii "b", value := ascii "2", sensitive := true }]], e, d) ∧
      SameTable e.dynTab d.dynTab := by
  have hwithin : Encoder.new.Within 4096 := ⟨Encoder.inv_new, by decide, by decide⟩
  refine lockstep_exchange lockstep_new _ (by decide) (fun b hb v hv => ?_)
    (blocksFit_of_within hwithin (by decide +kernel))
  rcases mem_pair.mp hb with rfl | rfl
  · cases hv
  · obtain rfl := some.inj hv
    decide

end Fhttp.Hpack
