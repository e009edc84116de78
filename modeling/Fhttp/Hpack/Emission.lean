import Fhttp.Hpack.Chunking
import Fhttp.Hpack.HuffmanCodec

/-!
# Decoding with emission switched off

A server that has seen enough of a header block switches emission off and goes
on decoding, so that the dynamic table stays in step with the peer.  Strings
that are not wanted are then skipped and not decompressed.  This module
compares two decoders that go over the same bytes, of which the second wants
no more strings than the first and has no tighter limit (`Quieter`): where the
first one succeeds, the second one succeeds with the same dynamic table.

`quieter_parseNext` is the step, `quieter_write` one call of `Write` and
`quieter_calls` a sequence of calls.
-/

namespace Fhttp.Hpack

open Lib.Incremental

variable {σ τ : Type}

namespace Decoder

/-- Two decoders at the same point of a block.  The second one has no tighter
limit than the first, and wants no string that the first does not want. -/
structure Alike (d d' : Decoder) : Prop where
  dynTab : d'.dynTab = d.dynTab
  saveBuf : d'.saveBuf = d.saveBuf
  firstField : d'.firstField = d.firstField
  limit : d'.maxStrLen = d.maxStrLen ∨ d'.maxStrLen = 0
  wants : d'.emitEnabled = true → d.emitEnabled = true

variable {emit : EmitFunc σ} {d d' : Decoder}

theorem Alike.at? (h : Alike d d') (i : UInt64) : d'.at? i = d.at? i := by
  unfold Decoder.at? maxTableIndex
  rw [h.dynTab]

theorem Alike.not_tooLong (h : Alike d d') {n : UInt64} (hn : ¬ tooLong d n) : ¬ tooLong d' n := by
  unfold tooLong at hn ⊢
  rcases h.limit with heq | hzero
  · rwa [heq]
  · rw [hzero]
    exact fun hlong => hlong.1 rfl

/-! ## Strings -/

/-- What the two decoders hold of one string: the same when the second one
wants it, and otherwise no more. -/
def SameString (want' : Bool) (s s' : Bytes) : Prop :=
  s'.length ≤ s.length ∧ (want' = true → s' = s)

theorem sameString_refl (want' : Bool) (s : Bytes) : SameString want' s s :=
  ⟨Nat.le_refl _, fun _ => rfl⟩

theorem sameString_nil (s : Bytes) : SameString false s [] :=
  ⟨Nat.zero_le _, fun h => by cases h⟩

/-- A string that decodes within a limit decodes without one. -/
theorem huffmanDecode_unlimited {maxLen : Int} {v s : Bytes}
    (h : huffmanDecode maxLen v = .ok s) : huffmanDecode 0 v = .ok s := by
  have hspec := huffmanDecode_spec maxLen v
  rw [h] at hspec
  exact (huffmanDecode_eq_ok_iff v s).mpr hspec

variable {want want' : Bool} {ds : Decoder × σ} {s₀ : σ} {ds' : Decoder × List HeaderField}

section

variable (h : Alike d d') (hw : want' = true → want = true)

include h hw

theorem follows_decodeString {isHuff : Bool} (raw rest : Bytes) :
    Follows (SameString want')
      (Read.ofExcept (decodeString d want isHuff raw) rest)
      (Read.ofExcept (decodeString d' want' isHuff raw) rest) := by
  unfold decodeString
  cases want' with
  | false =>
    cases isHuff with
    | false => exact follows_ok (sameString_nil _) rest
    | true =>
      cases hs : (if want = true then huffmanDecode d.maxStrLen raw else .ok []) with
      | error e => trivial
      | ok s => exact follows_ok (sameString_nil s) rest
  | true =>
    rw [hw rfl]
    cases isHuff with
    | false => exact follows_ok (sameString_refl _ _) rest
    | true =>
      cases hs : huffmanDecode d.maxStrLen raw with
      | error e => trivial
      | ok s =>
        have hs' : huffmanDecode d'.maxStrLen raw = .ok s := by
          rcases h.limit with heq | hzero
          · rw [heq, hs]
          · rw [hzero]
            exact huffmanDecode_unlimited hs
        rw [hs']
        exact follows_ok (sameString_refl _ _) rest

theorem follows_readString (p : Bytes) :
    Follows (SameString want') (readString d want p) (readString d' want' p) := by
  cases p with
  | nil => rfl
  | cons b p =>
    refine (follows_refl (fun _ => rfl) (readVarInt 7 (b :: p))).bind ?_
    intro n n' rest hn
    subst hn
    by_cases hlong : tooLong d n
    · rw [if_pos hlong]
      trivial
    rw [if_neg hlong, if_neg (h.not_tooLong hlong)]
    refine (follows_refl (fun _ => rfl) (readExactly n.toNat rest)).bind ?_
    intro raw raw' rest' hraw
    subst hraw
    exact follows_decodeString h hw raw rest'

theorem follows_readName (nameIdx : UInt64) (buf : Bytes) :
    Follows (SameString want') (readName d want nameIdx buf) (readName d' want' nameIdx buf) := by
  unfold readName
  split
  · rw [h.at? nameIdx]
    cases d.at? nameIdx with
    | none => trivial
    | some hf => exact follows_ok (sameString_refl _ _) buf
  · exact follows_readString h hw buf

end

/-! ## Field representations

The two decoders differ only in what they do with a field, so a relation `R`
between them is kept by a representation when it is kept by the hand-over of a
field and by a size update. -/

/-- What the two decoders hand over: the same field, when the second one emits,
and otherwise no longer strings. -/
structure SameField (d' : Decoder) (hf hf' : HeaderField) : Prop where
  name : hf'.name.length ≤ hf.name.length
  value : hf'.value.length ≤ hf.value.length
  same : d'.emitEnabled = true → hf' = hf

/-- The relation `R` holds after a field is handed over, and after a size update. -/
structure KeptByEmit (emit : EmitFunc σ) (emit' : EmitFunc τ) (on on' : Bool) (s : σ) (s' : τ)
    (R : Decoder × σ → Decoder × τ → Prop) : Prop where
  returnEmit : ∀ {d d' : Decoder} {hf hf' : HeaderField} (rest : Bytes), Alike d d' →
    d.emitEnabled = on → d'.emitEnabled = on' → SameField d' hf hf' →
    Follows R (returnEmit emit d s hf rest) (returnEmit emit' d' s' hf' rest)
  sizeUpdate : ∀ {d d' : Decoder}, Alike d d' → d.emitEnabled = on → d'.emitEnabled = on' →
    R (d, s) (d', s')

section

variable {emit' : EmitFunc τ} {s : σ} {s' : τ} {R : Decoder × σ → Decoder × τ → Prop}

section

variable (h : Alike d d') (hR : KeptByEmit emit emit' d.emitEnabled d'.emitEnabled s s' R)

include h hR

theorem follows_parseFieldIndexed (buf : Bytes) :
    Follows R (parseFieldIndexed emit d s buf) (parseFieldIndexed emit' d' s' buf) := by
  refine ((follows_refl (fun _ => rfl) (readVarInt 7 buf)).mapErr _ _).bind ?_
  intro idx idx' rest hidx
  subst hidx
  rw [h.at? idx]
  cases d.at? idx with
  | none => trivial
  | some hf => exact hR.returnEmit rest h rfl rfl ⟨Nat.le_refl _, Nat.le_refl _, fun _ => rfl⟩

theorem follows_parseFieldLiteral (n : UInt64) (it : IndexType) (buf : Bytes) :
    Follows R (parseFieldLiteral n it emit d s buf) (parseFieldLiteral n it emit' d' s' buf) := by
  have hw : (d'.emitEnabled || it.indexed) = true → (d.emitEnabled || it.indexed) = true := by
    rw [Bool.or_eq_true, Bool.or_eq_true]
    exact fun hwant => hwant.imp_left h.wants
  refine ((follows_refl (fun _ => rfl) (readVarInt n buf)).mapErr _ _).bind ?_
  intro nameIdx nameIdx' rest hidx
  subst hidx
  refine ((follows_readName h hw nameIdx rest).mapErr _ _).bind ?_
  intro name name' rest hname
  refine ((follows_readString h hw rest).mapErr _ _).bind ?_
  intro value value' rest hvalue
  have hsame : ∀ d₁ : Decoder, d₁.emitEnabled = d'.emitEnabled →
      SameField d₁ { name := name, value := value, sensitive := it.sensitive }
        { name := name', value := value', sensitive := it.sensitive } := by
    intro d₁ hd₁
    refine ⟨hname.1, hvalue.1, fun hon => ?_⟩
    have hwant : (d'.emitEnabled || it.indexed) = true := by
      rw [← hd₁, hon, Bool.true_or]
    rw [hname.2 hwant, hvalue.2 hwant]
  cases hit : it.indexed with
  | false => exact hR.returnEmit rest h rfl rfl (hsame d' rfl)
  | true =>
    have hwant : (d'.emitEnabled || it.indexed) = true := by
      rw [hit, Bool.or_true]
    have hadd : Alike
        { d with dynTab := d.dynTab.add { name := name, value := value } }
        { d' with dynTab := d'.dynTab.add { name := name', value := value' } } := by
      rw [hname.2 hwant, hvalue.2 hwant]
      exact ⟨by simp only [h.dynTab], h.saveBuf, h.firstField, h.limit, h.wants⟩
    exact hR.returnEmit rest hadd rfl rfl (hsame _ rfl)

theorem follows_parseDynamicTableSizeUpdate (buf : Bytes) :
    Follows R (parseDynamicTableSizeUpdate d s buf) (parseDynamicTableSizeUpdate d' s' buf) := by
  unfold parseDynamicTableSizeUpdate
  rw [h.firstField, h.dynTab]
  split
  · trivial
  refine ((follows_refl (fun _ => rfl) (readVarInt 5 buf)).mapErr _ _).bind ?_
  intro size size' rest hsize
  subst hsize
  split
  · trivial
  · have hset : Alike { d with dynTab := d.dynTab.setMaxSize size.toUInt32 }
        { d' with dynTab := d.dynTab.setMaxSize size.toUInt32, firstField := d.firstField } :=
      ⟨rfl, h.saveBuf, rfl, h.limit, h.wants⟩
    exact follows_ok (hR.sizeUpdate hset rfl rfl) rest

theorem follows_parseHeaderFieldRepr (buf : Bytes) :
    Follows R (parseHeaderFieldRepr emit d s buf) (parseHeaderFieldRepr emit' d' s' buf) := by
  cases buf with
  | nil => rfl
  | cons b buf =>
    unfold parseHeaderFieldRepr
    rw [peek_cons, peek_cons]
    split
    · exact follows_parseFieldIndexed h hR _
    split
    · exact follows_parseFieldLiteral h hR _ _ _
    split
    · exact follows_parseFieldLiteral h hR _ _ _
    split
    · exact follows_parseFieldLiteral h hR _ _ _
    split
    · exact follows_parseDynamicTableSizeUpdate h hR _
    · trivial

/-- One pass of the loop of `Write`, for a relation that does not look at
`firstField`. -/
theorem follows_parseNext (hfirst : ∀ {ds : Decoder × σ} {ds' : Decoder × τ}, R ds ds' →
      R ({ ds.1 with firstField := false }, ds.2) ({ ds'.1 with firstField := false }, ds'.2))
    (buf : Bytes) :
    Follows R (parseNext emit (d, s) buf) (parseNext emit' (d', s') buf) := by
  refine ((follows_parseHeaderFieldRepr h hR buf).mapErr _ _).bind ?_
  intro ds ds' rest hds
  exact follows_ok (hfirst hds) rest

end

/-- The lengths that `callEmit` checks. -/
theorem not_tooLong_of_sameField (h : Alike d d') {hf hf' : HeaderField}
    (hsame : SameField d' hf hf')
    (hok : ¬ (d.maxStrLen ≠ 0 ∧
      ((hf.name.length : Int) > d.maxStrLen ∨ (hf.value.length : Int) > d.maxStrLen))) :
    ¬ (d'.maxStrLen ≠ 0 ∧
      ((hf'.name.length : Int) > d'.maxStrLen ∨ (hf'.value.length : Int) > d'.maxStrLen)) := by
  have hname := hsame.name
  have hvalue := hsame.value
  rcases h.limit with heq | hzero
  · omega
  · rw [hzero]
    exact fun hlong => hlong.1 rfl

end

/-! ## A decoder that emits less -/

/-- The second decoder emits no more than the first.  Either the first one emits
every field, or the second one emits none. -/
structure Quieter (emit : EmitFunc σ) (d d' : Decoder) : Prop where
  alike : Alike d d'
  emission : (d.emitEnabled = true ∧ ∀ s f, (emit s f).2 = true) ∨ d'.emitEnabled = false

/-- The two decoders after a representation. -/
def QuieterState (emit : EmitFunc σ) (ds : Decoder × σ) (ds' : Decoder × τ) : Prop :=
  Quieter emit ds.1 ds'.1

variable (emit' : EmitFunc τ) (s : σ) (s' : τ)

theorem keptByEmit_quieter (h : Quieter emit d d') :
    KeptByEmit emit emit' d.emitEnabled d'.emitEnabled s s' (QuieterState emit) where
  returnEmit := by
    intro d₁ d₁' hf hf' rest halike hon hon' hsame
    unfold returnEmit callEmit
    split
    · trivial
    rename_i hok
    rw [if_neg (not_tooLong_of_sameField halike hsame hok)]
    rcases h.emission with ⟨hall, hemit⟩ | hoff
    · rw [if_pos (hon.trans hall)]
      have hafter : ∀ b : Bool, Alike { d₁ with emitEnabled := (emit s hf).2 }
          { d₁' with emitEnabled := b } := by
        intro b
        exact ⟨halike.dynTab, halike.saveBuf, halike.firstField, halike.limit,
          fun _ => hemit _ _⟩
      split
      · exact follows_ok ⟨hafter _, .inl ⟨hemit _ _, hemit⟩⟩ rest
      · exact follows_ok ⟨hafter d₁'.emitEnabled, .inl ⟨hemit _ _, hemit⟩⟩ rest
    · have hoff' : d₁'.emitEnabled = false := hon'.trans hoff
      have hafter : ∀ b : Bool, Alike { d₁ with emitEnabled := b } d₁' := by
        intro b
        refine ⟨halike.dynTab, halike.saveBuf, halike.firstField, halike.limit, fun hon => ?_⟩
        rw [hoff'] at hon
        cases hon
      have hnot : ¬ d₁'.emitEnabled = true := by
        rw [hoff']
        exact Bool.false_ne_true
      split
      · exact follows_ok ⟨hafter _, .inr hoff'⟩ rest
      · exact follows_ok ⟨halike, .inr hoff'⟩ rest
  sizeUpdate := by
    intro d₁ d₁' halike hon hon'
    refine ⟨halike, h.emission.imp (fun hall => ⟨hon.trans hall.1, hall.2⟩) fun hoff => ?_⟩
    exact hon'.trans hoff

theorem quieter_parseNext {ds' : Decoder × τ} (h : QuieterState emit ds ds') (buf : Bytes) :
    Follows (QuieterState emit) (parseNext emit ds buf) (parseNext emit' ds' buf) := by
  refine follows_parseNext h.alike (keptByEmit_quieter emit' ds.2 ds'.2 h) ?_ buf
  intro ds₁ ds₁' h₁
  exact ⟨⟨h₁.alike.dynTab, h₁.alike.saveBuf, rfl, h₁.alike.limit, h₁.alike.wants⟩, h₁.emission⟩

/-! ## Calls -/

/-- One call of `Write`. -/
theorem quieter_write (h : Quieter emit d d') (p : Bytes) (hok : (write emit d s p).err = none) :
    (write emit' d' s' p).err = none ∧
      Quieter emit (write emit d s p).d (write emit' d' s' p).d := by
  by_cases hp : p = []
  · subst hp
    exact ⟨rfl, h⟩
  unfold write at hok ⊢
  rw [if_neg hp] at hok
  rw [if_neg hp, if_neg hp, h.alike.saveBuf]
  cases hrun : (stepper emit).run ({ d with saveBuf := [] }, s) (d.saveBuf ++ p) with
  | failed e ds =>
    rw [hrun] at hok
    cases hok
  | parked ds left =>
    have hstart : QuieterState emit ({ d with saveBuf := [] }, s)
        ({ d' with saveBuf := [] }, s') :=
      ⟨⟨h.alike.dynTab, rfl, h.alike.firstField, h.alike.limit, h.alike.wants⟩, h.emission⟩
    obtain ⟨ds', hrun', h'⟩ := (stepper emit).run_sim (stepper emit') (QuieterState emit)
      (fun _ _ b hR => quieter_parseNext emit' hR b) hstart hrun
    obtain ⟨d₁, s₁⟩ := ds
    obtain ⟨d₁', s₁'⟩ := ds'
    have hsmall : ¬ (left ≠ [] ∧ saveTooLarge d₁ left) := by
      intro hlarge
      rw [hrun, writeDone_of_large hlarge] at hok
      cases hok
    have hsmall' : ¬ (left ≠ [] ∧ saveTooLarge d₁' left) := by
      intro hlarge
      refine hsmall ⟨hlarge.1, ?_⟩
      have hlimit := hlarge.2
      unfold saveTooLarge at hlimit ⊢
      rcases h'.alike.limit with heq | hzero
      · rwa [← heq]
      · exact absurd hzero hlimit.1
    rw [hrun', writeDone_of_not_large hsmall, writeDone_of_not_large hsmall']
    exact ⟨rfl, ⟨h'.alike.dynTab, rfl, h'.alike.firstField, h'.alike.limit, h'.alike.wants⟩,
      h'.emission⟩

/-- A call during a header block. -/
inductive Call where
  | write (p : Bytes)
  /-- `SetEmitEnabled(false)`. -/
  | emitOff

/-- The bytes of a call. -/
def Call.chunk? : Call → Option Bytes
  | .write p => some p
  | .emitOff => none

/-- A sequence of calls, up to the first error. -/
def runCalls (emit : EmitFunc σ) (d : Decoder) (s : σ) :
    List Call → Option Err × Decoder × σ
  | [] => (none, d, s)
  | .write p :: cs =>
    let r := write emit d s p
    match r.err with
    | some e => (some e, r.d, r.s)
    | none => runCalls emit r.d r.s cs
  | .emitOff :: cs => runCalls emit (d.setEmitEnabled false) s cs

/-- A sequence of calls, of which the first decoder makes the `Write` calls only. -/
theorem quieter_calls (h : Quieter emit d d') (calls : List Call)
    (hok : (writeAll emit d s (calls.filterMap Call.chunk?)).1 = none) :
    (runCalls emit' d' s' calls).1 = none ∧
      Quieter emit (writeAll emit d s (calls.filterMap Call.chunk?)).2.1
        (runCalls emit' d' s' calls).2.1 := by
  induction calls generalizing d d' s s' with
  | nil => exact ⟨rfl, h⟩
  | cons c calls ih =>
    cases c with
    | emitOff =>
      have h' : Quieter emit d (d'.setEmitEnabled false) :=
        ⟨⟨h.alike.dynTab, h.alike.saveBuf, h.alike.firstField, h.alike.limit,
          fun hon => Bool.noConfusion hon⟩, .inr rfl⟩
      exact ih s s' h' hok
    | write p =>
      have hchunks : (Call.write p :: calls).filterMap Call.chunk? =
          p :: calls.filterMap Call.chunk? := rfl
      rw [hchunks, writeAll] at hok ⊢
      cases herr : (write emit d s p).err with
      | some e =>
        rw [herr] at hok
        cases hok
      | none =>
        obtain ⟨herr', h'⟩ := quieter_write emit' s s' h p herr
        simp only [herr] at hok ⊢
        rw [runCalls]
        simp only [herr']
        exact ih _ _ h' hok

/-! ## What the callback sees

A callback that switches emission off has seen the first fields of the block, in
order: `write_feed` compares it with `collect`, which sees all of them. -/

/-- Hand fields to the callback until it switches emission off. -/
def feed (emit : EmitFunc σ) (s : σ) : List HeaderField → σ × Bool
  | [] => (s, true)
  | f :: fs => if (emit s f).2 then feed emit (emit s f).1 fs else emit s f

theorem feed_append (emit : EmitFunc σ) (s : σ) (fs gs : List HeaderField) :
    feed emit s (fs ++ gs) =
      if (feed emit s fs).2 then feed emit (feed emit s fs).1 gs else feed emit s fs := by
  induction fs generalizing s with
  | nil => rfl
  | cons f fs ih =>
    rw [List.cons_append, feed, feed]
    split
    · exact ih _
    · rfl

/-- The first decoder has handed over all fields so far. -/
structure Feeding (emit : EmitFunc σ) (s₀ : σ) (ds : Decoder × σ)
    (ds' : Decoder × List HeaderField) : Prop where
  alike : Alike ds.1 ds'.1
  on : ds.1.emitEnabled = true
  on' : ds'.1.emitEnabled = true
  fed : feed emit s₀ ds'.2 = (ds.2, true)

/-- The first decoder's callback has switched emission off. -/
structure Fed (emit : EmitFunc σ) (s₀ : σ) (ds : Decoder × σ)
    (ds' : Decoder × List HeaderField) : Prop where
  off : ds.1.emitEnabled = false
  fed : feed emit s₀ ds'.2 = (ds.2, false)

theorem keptByEmit_feeding (h : Feeding emit s₀ ds ds') :
    KeptByEmit emit collect ds.1.emitEnabled ds'.1.emitEnabled ds.2 ds'.2
      fun ds₁ ds₁' => Feeding emit s₀ ds₁ ds₁' ∨ Fed emit s₀ ds₁ ds₁' where
  returnEmit := by
    intro d₁ d₁' hf hf' rest halike hon hon' hsame
    unfold returnEmit callEmit
    split
    · trivial
    rename_i hok
    have hon₁' := hon'.trans h.on'
    rw [if_neg (not_tooLong_of_sameField halike hsame hok), if_pos (hon.trans h.on),
      if_pos hon₁', hsame.same hon₁']
    have hfed : feed emit s₀ (ds'.2 ++ [hf]) = emit ds.2 hf := by
      rw [feed_append, h.fed, if_pos rfl, feed]
      split
      · rename_i htrue
        rw [feed, ← htrue]
      · rfl
    refine follows_ok ?_ rest
    cases hemit : (emit ds.2 hf).2 with
    | true =>
      refine .inl ⟨⟨halike.dynTab, halike.saveBuf, halike.firstField, halike.limit,
        fun _ => rfl⟩, rfl, rfl, ?_⟩
      rw [← hemit]
      exact hfed
    | false =>
      refine .inr ⟨rfl, ?_⟩
      rw [← hemit]
      exact hfed
  sizeUpdate := by
    intro d₁ d₁' halike hon hon'
    exact .inl ⟨halike, hon.trans h.on, hon'.trans h.on', h.fed⟩

theorem feeding_parseNext (h : Feeding emit s₀ ds ds') (buf : Bytes) :
    Follows (fun ds₁ ds₁' => Feeding emit s₀ ds₁ ds₁' ∨ Fed emit s₀ ds₁ ds₁')
      (parseNext emit ds buf) (parseNext collect ds' buf) := by
  refine follows_parseNext h.alike (keptByEmit_feeding h) ?_ buf
  intro ds₁ ds₁' h₁
  refine h₁.imp (fun h₁ => ?_) fun h₁ => ⟨h₁.off, h₁.fed⟩
  exact ⟨⟨h₁.alike.dynTab, h₁.alike.saveBuf, rfl, h₁.alike.limit, h₁.alike.wants⟩, h₁.on, h₁.on',
    h₁.fed⟩

/-- Without emission the callback is not called. -/
theorem invariant_off (emit : EmitFunc σ) (s : σ) :
    Invariant emit fun ds => ds.1.emitEnabled = false ∧ ds.2 = s where
  emit := by
    intro d s' hf h hon _
    rw [h.1] at hon
    cases hon
  add := fun _ h => h
  setMaxSize := fun _ h => h
  firstField := fun h => h

/-- Fields behind the one that switched emission off do not matter. -/
theorem invariant_fed (emit : EmitFunc σ) (s₀ s : σ) :
    Invariant collect fun ds => feed emit s₀ ds.2 = (s, false) where
  emit := by
    intro d log hf h _ _
    show feed emit s₀ (log ++ [hf]) = (s, false)
    rw [feed_append, h]
    rfl
  add := fun _ h => h
  setMaxSize := fun _ h => h
  firstField := fun h => h

/-- The loop of `Write`. -/
theorem feeding_run (h : Feeding emit s₀ ds ds') {buf left : Bytes} {ds₁ : Decoder × σ}
    (hrun : (stepper emit).run ds buf = .parked ds₁ left) :
    (∃ ds₁', (stepper collect).run ds' buf = .parked ds₁' left ∧ Feeding emit s₀ ds₁ ds₁') ∨
      Fed emit s₀ ds₁ ((stepper collect).run ds' buf).state := by
  refine (stepper emit).run_sim_until (stepper collect) (Feeding emit s₀) (Fed emit s₀)
    (fun _ _ b hR => feeding_parseNext hR b) ?_ h hrun
  intro ds₂ ds₂' b hfed ds₃ left₃ hrun₃
  have hoff := (invariant_off emit ds₂.2).run ⟨hfed.off, rfl⟩ b
  rw [hrun₃] at hoff
  have hstate : ds₃.2 = ds₂.2 := hoff.2
  refine ⟨hoff.1, ?_⟩
  rw [hstate]
  exact (invariant_fed emit s₀ ds₂.2).run hfed.fed b

/-- One call of `Write` that succeeds does to the state of the callback what the
fields of the whole block do, up to the one that switches emission off. -/
theorem write_feed (emit : EmitFunc σ) (d : Decoder) (s : σ) (p : Bytes)
    (hon : d.emitEnabled = true) (hok : (write emit d s p).err = none) :
    feed emit s (write collect { d with maxStrLen := 0 } [] p).s =
        ((write emit d s p).s, (write emit d s p).d.emitEnabled) ∧
      ((write emit d s p).d.emitEnabled = true →
        (write collect { d with maxStrLen := 0 } [] p).err = none) := by
  by_cases hp : p = []
  · subst hp
    rw [write_nil, write_nil, hon]
    exact ⟨rfl, fun _ => rfl⟩
  unfold write at hok ⊢
  rw [if_neg hp] at hok
  rw [if_neg hp, if_neg hp]
  have hstart : Feeding emit s ({ d with saveBuf := [] }, s)
      ({ d with maxStrLen := 0, saveBuf := [] }, []) :=
    ⟨⟨rfl, rfl, rfl, .inr rfl, fun _ => hon⟩, hon, hon, rfl⟩
  cases hrun : (stepper emit).run ({ d with saveBuf := [] }, s) (d.saveBuf ++ p) with
  | failed e ds =>
    rw [hrun] at hok
    cases hok
  | parked ds left =>
    obtain ⟨d₁, s₁⟩ := ds
    have hsmall : ¬ (left ≠ [] ∧ saveTooLarge d₁ left) := by
      intro hlarge
      rw [hrun, writeDone_of_large hlarge] at hok
      cases hok
    rw [writeDone_of_not_large hsmall]
    rcases feeding_run hstart hrun with ⟨⟨d₁', log⟩, hrun', h'⟩ | h'
    · have hlimit : d₁'.maxStrLen = 0 := by
        have hconfig := config_run collect { d with maxStrLen := 0, saveBuf := [] } []
          (d.saveBuf ++ p)
        rw [hrun'] at hconfig
        exact hconfig.maxStrLen
      have hsmall' : ¬ (left ≠ [] ∧ saveTooLarge d₁' left) := fun hlarge => hlarge.2.1 hlimit
      rw [hrun', writeDone_of_not_large hsmall', show d₁.emitEnabled = true from h'.on]
      exact ⟨h'.fed, fun _ => rfl⟩
    · have hoff₁ : d₁.emitEnabled = false := h'.off
      rw [writeDone_state, hoff₁]
      exact ⟨h'.fed, fun hfalse => Bool.noConfusion hfalse⟩

/-- The state that the next header block depends on. -/
structure SameState (d d' : Decoder) : Prop where
  dynTab : d'.dynTab = d.dynTab
  firstField : d'.firstField = d.firstField
  saveBuf : d'.saveBuf = d.saveBuf

theorem Quieter.sameState (h : Quieter emit d d') : SameState d d' :=
  ⟨h.alike.dynTab, h.alike.firstField, h.alike.saveBuf⟩

theorem SameState.symm (h : SameState d d') : SameState d' d :=
  ⟨h.dynTab.symm, h.firstField.symm, h.saveBuf.symm⟩

theorem SameState.close (h : SameState d d') :
    d'.close.1 = d.close.1 ∧ SameState d.close.2 d'.close.2 := by
  unfold Decoder.close
  rw [h.saveBuf]
  split
  · exact ⟨rfl, h.dynTab, h.firstField, rfl⟩
  · exact ⟨rfl, h.dynTab, rfl, rfl⟩

end Decoder

open Decoder in
/-- Switching emission off does not put the decoder out of step.  When a block
decodes with a callback that never switches emission off, it also decodes
with any callback and with `SetEmitEnabled(false)` calls anywhere, to the same
dynamic table. -/
theorem emission_off (emit : EmitFunc σ) (emit' : EmitFunc τ) (d : Decoder) (s : σ) (s' : τ)
    (calls : List Call) (hall : ∀ s f, (emit s f).2 = true) (hon : d.emitEnabled = true)
    (hwrite : (writeAll emit d s (calls.filterMap Call.chunk?)).1 = none)
    (hclose : (writeAll emit d s (calls.filterMap Call.chunk?)).2.1.close.1 = none) :
    (runCalls emit' d s' calls).1 = none ∧
    (runCalls emit' d s' calls).2.1.close.1 = none ∧
    SameState (writeAll emit d s (calls.filterMap Call.chunk?)).2.1
      (runCalls emit' d s' calls).2.1 ∧
    SameState (writeAll emit d s (calls.filterMap Call.chunk?)).2.1.close.2
      (runCalls emit' d s' calls).2.1.close.2 := by
  have hstart : Quieter emit d d := ⟨⟨rfl, rfl, rfl, Or.inl rfl, id⟩, Or.inl ⟨hon, hall⟩⟩
  obtain ⟨hok, hquiet⟩ := quieter_calls emit' s s' hstart calls hwrite
  have hsame := hquiet.sameState
  exact ⟨hok, hsame.close.1.trans hclose, hsame, hsame.close.2⟩

open Decoder in
/-- Two literals, the first of which is indexed.  Emission is off for the
second one, whose name is not looked at any more. -/
theorem emission_off_second : (runCalls collect (Decoder.new 4096) []
      [.write [0x40, 0x01, 0x61, 0x01, 0x62], .emitOff, .write [0x00, 0x01, 0x63, 0x00]]).1 =
      none := by
  have hcalls := emission_off collect collect (Decoder.new 4096) [] []
    [.write [0x40, 0x01, 0x61, 0x01, 0x62], .emitOff, .write [0x00, 0x01, 0x63, 0x00]]
    (fun _ _ => rfl) rfl (by decide +kernel) (by decide +kernel)
  exact hcalls.1

end Fhttp.Hpack
