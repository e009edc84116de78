import Fhttp.Hpack.Lockstep

/-!
# Changes of the table size between two blocks

Between two header blocks the encoder may get any number of
`SetMaxDynamicTableSize` and `SetMaxDynamicTableSizeLimit` calls.  It evicts at
every one of them, and remembers two numbers for the next block: the least
size that `SetMaxDynamicTableSize` put in force, and the size in force at the
end.  The next block announces the first of them when it is smaller, and then
the second (RFC 7541, section 4.2).

This is not enough.  The decoder takes a second announcement only when its
table is empty, and a size that `SetMaxDynamicTableSizeLimit` put in force for
a while is not announced at all.  `next_block_iff` says exactly which calls
leave the next block acceptable and the tables equal (`SizesReach`), and
`size_change_out_of_sync` has one sequence of calls for each of the two ways
to fail.
-/

namespace Fhttp.Hpack

open Lib.Incremental Lib.Budget Encoder
open Decoder
open DynamicTable
open HeaderField (weight)

/-! ## Calls -/

/-- A call between two blocks. -/
inductive SizeCall where
  | setMax (v : UInt32)
  | setLimit (v : UInt32)

/-- The argument of a call. -/
def SizeCall.value : SizeCall → UInt32
  | .setMax v => v
  | .setLimit v => v

def SizeCall.apply (e : Encoder) : SizeCall → Encoder
  | .setMax v => e.setMaxDynamicTableSize v
  | .setLimit v => e.setMaxDynamicTableSizeLimit v

def Encoder.sizeCalls (e : Encoder) (calls : List SizeCall) : Encoder :=
  calls.foldl SizeCall.apply e

/-- A size that was put in force, and whether `SetMaxDynamicTableSize` did it. -/
structure Bound where
  size : UInt32
  bySetMax : Bool

/-- The sizes that the calls put in force one after the other, for an encoder
with the maximum size `maxSize` and the limit `limit`.  A lower limit is a new
size only when it is below the size in force. -/
def boundsOf (maxSize limit : UInt32) : List SizeCall → List Bound
  | [] => []
  | .setMax v :: cs =>
    let v' := if v > limit then limit else v
    ⟨v', true⟩ :: boundsOf v' limit cs
  | .setLimit v :: cs =>
    if maxSize > v then ⟨v, false⟩ :: boundsOf v v cs else boundsOf maxSize v cs

/-- The least size by `SetMaxDynamicTableSize`, from `m` down. -/
def leastSetMax (m : UInt32) (bs : List Bound) : UInt32 :=
  bs.foldl (fun m b => if b.bySetMax ∧ b.size < m then b.size else m) m

/-- The least size of all, from `m` down. -/
def leastBound (m : Nat) (bs : List Bound) : Nat :=
  bs.foldl (fun m b => min m b.size.toNat) m

/-- The last size, or `m`. -/
def lastBound (m : UInt32) (bs : List Bound) : UInt32 :=
  bs.foldl (fun _ b => b.size) m

/-- The sizes that calls of the encoder put in force. -/
def Encoder.bounds (e : Encoder) (calls : List SizeCall) : List Bound :=
  boundsOf e.dynTab.maxSize e.maxSizeLimit calls

/-- What the calls do to the encoder. -/
structure Resized (e e' : Encoder) (bs : List Bound) : Prop where
  inv : e'.Inv
  minSize : e'.minSize = leastSetMax e.minSize bs
  update : e'.tableSizeUpdate = (e.tableSizeUpdate || !bs.isEmpty)
  maxSize : e'.dynTab.maxSize = lastBound e.dynTab.maxSize bs
  ents : e'.dynTab.table.ents =
    bs.foldl (fun l b => fit weight b.size.toNat l) e.dynTab.table.ents

variable {e : Encoder} {bs : List Bound} {a : UInt32}

/-- One more size in front of a history. -/
theorem Resized.cons {e₁ e' : Encoder} {b : Bound}
    (hmin : e₁.minSize = if b.bySetMax ∧ b.size < e.minSize then b.size else e.minSize)
    (hupdate : e₁.tableSizeUpdate = true) (hmax : e₁.dynTab.maxSize = b.size)
    (hents : e₁.dynTab.table.ents = fit weight b.size.toNat e.dynTab.table.ents)
    (h : Resized e₁ e' bs) : Resized e e' (b :: bs) where
  inv := h.inv
  minSize := by
    rw [h.minSize, hmin]
    rfl
  update := by
    rw [h.update, hupdate, Bool.true_or, List.isEmpty_cons, Bool.not_false, Bool.or_true]
  maxSize := by
    rw [h.maxSize, hmax]
    rfl
  ents := by
    rw [h.ents, hents]
    rfl

theorem resized_sizeCalls (h : e.Inv) (calls : List SizeCall) :
    Resized e (e.sizeCalls calls) (e.bounds calls) := by
  induction calls generalizing e with
  | nil => exact ⟨h, rfl, (Bool.or_false _).symm, rfl, rfl⟩
  | cons c calls ih =>
    cases c with
    | setMax v =>
      have hmax : (e.setMaxDynamicTableSize v).dynTab.maxSize = e.cappedSize v :=
        setMaxSize_maxSize _ _
      have hrest := ih ((h.setMaxSize (e.cappedSize v)).of_dynTab
        (rfl : (e.setMaxDynamicTableSize v).dynTab = _))
      rw [Encoder.bounds, hmax] at hrest
      refine Resized.cons ?_ rfl hmax (setMaxSize_ents h.dynTab _) hrest
      simp only [true_and]
      rfl
    | setLimit v =>
      show Resized e ((e.setMaxDynamicTableSizeLimit v).sizeCalls calls)
        (if e.dynTab.maxSize > v then
          ⟨v, false⟩ :: boundsOf v v calls else boundsOf e.dynTab.maxSize v calls)
      unfold setMaxDynamicTableSizeLimit
      by_cases hlow : e.dynTab.maxSize > v
      · rw [if_pos hlow, if_pos hlow]
        have hrest := ih ((h.setMaxSize v).of_dynTab (rfl :
            ({ e with
            maxSizeLimit := v, tableSizeUpdate := true,
            dynTab := e.dynTab.setMaxSize v } : Encoder).dynTab = _))
        simp only [Encoder.bounds, setMaxSize_maxSize] at hrest
        refine Resized.cons ?_ rfl (setMaxSize_maxSize _ _)
          (setMaxSize_ents h.dynTab _) hrest
        simp only [Bool.false_eq_true, false_and, if_false]
      · rw [if_neg hlow, if_neg hlow]
        have hrest := ih (h.of_dynTab (rfl : ({ e with maxSizeLimit := v } : Encoder).dynTab = _))
        exact ⟨hrest.inv, hrest.minSize, hrest.update, hrest.maxSize, hrest.ents⟩

/-- A history of evictions is one eviction to the least of the sizes. -/
theorem foldl_fit (bs : List Bound) (m : Nat) (l : List HeaderField) :
    bs.foldl (fun l b => fit weight b.size.toNat l) (fit weight m l) =
      fit weight (leastBound m bs) l := by
  induction bs generalizing m with
  | nil => rfl
  | cons b bs ih =>
    rw [List.foldl_cons, fit_fit, ih]
    rfl

/-- The last size is one of the sizes. -/
theorem leastBound_le_last (hne : bs ≠ []) (n : Nat) (m : UInt32) :
    leastBound n bs ≤ (lastBound m bs).toNat := by
  induction bs generalizing n m with
  | nil => exact absurd rfl hne
  | cons b bs ih =>
    by_cases hbs : bs = []
    · subst hbs
      exact Nat.min_le_right _ _
    · exact ih hbs _ _

/-- The least size by `SetMaxDynamicTableSize` is one of the sizes, or `m`. -/
theorem leastBound_le_leastSetMax (n : Nat) (m : UInt32) (bs : List Bound) (hn : n ≤ m.toNat) :
    leastBound n bs ≤ (leastSetMax m bs).toNat := by
  induction bs generalizing n m with
  | nil => exact hn
  | cons b bs ih =>
    refine ih _ _ ?_
    show min n b.size.toNat ≤ (if b.bySetMax ∧ b.size < m then b.size else m).toNat
    split
    · exact Nat.min_le_right _ _
    · exact Nat.le_trans (Nat.min_le_left _ _) hn

/-- A common upper bound on the arguments bounds every size. -/
theorem size_le_of_value_le {calls : List SizeCall} (h : ∀ c ∈ calls, c.value ≤ a)
    (maxSize limit : UInt32) : ∀ b ∈ boundsOf maxSize limit calls, b.size ≤ a := by
  induction calls generalizing maxSize limit with
  | nil =>
    intro b hb
    cases hb
  | cons c calls ih =>
    have hc := h c List.mem_cons_self
    have hrest := ih fun c' hc' => h c' (List.mem_cons_of_mem _ hc')
    cases c with
    | setMax v =>
      intro b hb
      rcases List.mem_cons.mp hb with rfl | hb
      · split
        · exact UInt32.le_trans (UInt32.le_of_lt ‹_›) hc
        · exact hc
      · exact hrest _ _ b hb
    | setLimit v =>
      intro b hb
      unfold boundsOf at hb
      split at hb
      · rcases List.mem_cons.mp hb with rfl | hb
        · exact hc
        · exact hrest _ _ b hb
      · exact hrest _ _ b hb

theorem lastBound_le (hne : bs ≠ []) (h : ∀ b ∈ bs, b.size ≤ a) (m : UInt32) :
    lastBound m bs ≤ a := by
  induction bs generalizing m with
  | nil => exact absurd rfl hne
  | cons b bs ih =>
    by_cases hbs : bs = []
    · subst hbs
      exact h b List.mem_cons_self
    · exact ih hbs (fun b' hb' => h b' (List.mem_cons_of_mem _ hb')) _

/-! ## The next block -/

/-- The next block is accepted, whatever its fields are, and after it the two
tables hold the same entries with the same maximum size. -/
def NextBlockInSync (e : Encoder) (d : Decoder) : Prop :=
  ∀ fs, fs ≠ [] → e.FieldsFit fs →
    ∃ bytes e' fs' d', e.writeFields? fs = some (bytes, e') ∧
      d.decodeFull bytes = (.ok fs', d') ∧
      d'.dynTab.table.ents = e'.dynTab.table.ents ∧ d'.dynTab.maxSize = e'.dynTab.maxSize

/-- The calls can be announced.  Either they put no size in force.  Or the least
size by `SetMaxDynamicTableSize` is below the last size, so that both are
announced, and the least one empties the table.  Or only the last size is
announced, and no entry that fits it was evicted on the way. -/
def SizesReach (e : Encoder) (calls : List SizeCall) : Prop :=
  let bs := e.bounds calls
  let least := leastSetMax uint32Max bs
  let last := lastBound e.dynTab.maxSize bs
  bs = [] ∨
    (least < last ∧ fit weight least.toNat e.dynTab.table.ents = []) ∨
    (¬ least < last ∧
      fit weight last.toNat e.dynTab.table.ents =
        fit weight (leastBound uint32Max.toNat bs) e.dynTab.table.ents)

/-- The first size that is announced, if it is less than the second. -/
abbrev Encoder.leastSize (e : Encoder) (calls : List SizeCall) : UInt32 :=
  leastSetMax uint32Max (e.bounds calls)

/-- The size in force after the calls. -/
abbrev Encoder.lastSize (e : Encoder) (calls : List SizeCall) : UInt32 :=
  lastBound e.dynTab.maxSize (e.bounds calls)

theorem lastSize_le (calls : List SizeCall) (hv : ∀ c ∈ calls, c.value ≤ a)
    (hne : e.bounds calls ≠ []) : e.lastSize calls ≤ a :=
  lastBound_le hne (size_le_of_value_le hv _ _) _

/-- A field that changes no table. -/
def probe : HeaderField := { name := [], value := [], sensitive := true }

theorem fieldsFit_probe (e : Encoder) : e.FieldsFit [probe] :=
  ⟨⟨by decide, fun hfalse => by cases hfalse⟩, fun _ _ _ => trivial⟩

section

variable {d : Decoder} (h : Lockstep e d) (calls : List SizeCall)

include h

/-- The entries of the encoder after the calls. -/
theorem sizeCalls_ents :
    (e.sizeCalls calls).dynTab.table.ents =
      fit weight
        (leastBound uint32Max.toNat (e.bounds calls))
        e.dynTab.table.ents := by
  have hall : fit weight uint32Max.toNat e.dynTab.table.ents =
      e.dynTab.table.ents := by
    apply fit_eq_self
    rw [← h.inStep.inv.dynTab.size_eq]
    exact Nat.le_of_lt_succ e.dynTab.size.toNat_lt
  rw [(resized_sizeCalls h.inStep.inv calls).ents, ← foldl_fit, hall]

theorem size_eq_weight : d.dynTab.size.toNat = weight weight d.dynTab.table.ents := by
  rw [h.inStep.table.size, h.inStep.table.ents]
  exact h.inStep.inv.dynTab.size_eq

/-- The table of the decoder after it was told the size `v`. -/
theorem announced_ents (v : UInt32) :
    (d.dynTab.setMaxSize v).table.ents =
        fit weight v.toNat e.dynTab.table.ents ∧
      (d.dynTab.setMaxSize v).size.toNat =
        weight weight (d.dynTab.setMaxSize v).table.ents := by
  have hevict := evict_ents { d.dynTab with maxSize := v } (size_eq_weight h)
  rw [setMaxSize_eq]
  refine ⟨?_, hevict.2⟩
  rw [hevict.1, h.inStep.table.ents]

/-- Tables with the same entries and bound are in step, because the sizes of
both are right. -/
theorem inStep_of_ents {dt : DynamicTable} (hsize : dt.size.toNat = weight weight dt.table.ents)
    (hents : dt.table.ents = (e.sizeCalls calls).dynTab.table.ents)
    (hmax : dt.maxSize = (e.sizeCalls calls).dynTab.maxSize) :
    InStep (e.sizeCalls calls).writeTableSize.2
      { d with dynTab := dt, firstField := false } := by
  have hinv := (resized_sizeCalls h.inStep.inv calls).inv
  have hdyn := (e.sizeCalls calls).writeTableSize_dynTab
  refine ⟨⟨?_, ?_, ?_⟩, hinv.of_dynTab hdyn, writeTableSize_settled _, h.inStep.limit,
    h.inStep.emitting⟩
  · rw [hdyn]
    exact hents
  · rw [hdyn]
    apply UInt32.toNat_inj.mp
    rw [hinv.dynTab.size_eq, ← hents]
    exact hsize
  · rw [hdyn]
    exact hmax

section

variable (hne : e.bounds calls ≠ [])

include hne

theorem update_due : (e.sizeCalls calls).tableSizeUpdate = true := by
  rw [(resized_sizeCalls h.inStep.inv calls).update, List.isEmpty_eq_false_iff.mpr hne,
    Bool.not_false, Bool.or_true]

/-- The announcements when two of them are due. -/
theorem writeTableSize_two (hlt : e.leastSize calls < e.lastSize calls) :
    (e.sizeCalls calls).writeTableSize.1 =
      appendTableSize [] (e.leastSize calls) ++ appendTableSize [] (e.lastSize calls) := by
  have hres := resized_sizeCalls h.inStep.inv calls
  unfold writeTableSize
  rw [if_pos (update_due h calls hne), hres.minSize, hres.maxSize, h.minSize, if_pos hlt]
  show appendTableSize (appendTableSize [] _) _ = _
  rw [appendTableSize_eq (appendTableSize [] _), appendTableSize_eq [] (lastBound _ _),
    List.nil_append]

/-- The announcement when one of them is due. -/
theorem writeTableSize_one (hge : ¬ e.leastSize calls < e.lastSize calls) :
    (e.sizeCalls calls).writeTableSize.1 = appendTableSize [] (e.lastSize calls) := by
  have hres := resized_sizeCalls h.inStep.inv calls
  unfold writeTableSize
  rw [if_pos (update_due h calls hne), hres.minSize, hres.maxSize, h.minSize, if_neg hge]

end

section

variable (hv : ∀ c ∈ calls, c.value ≤ d.dynTab.allowedMaxSize)

include hv

/-- What is announced brings the decoder in step, when the calls can be
announced. -/
theorem start_of_sizesReach (hreach : SizesReach e calls) :
    ∃ d₁, InStep (e.sizeCalls calls).writeTableSize.2 d₁ ∧
      ∀ s rest, (stepper collect).run (d, s)
          ((e.sizeCalls calls).writeTableSize.1 ++ rest) =
        (stepper collect).run (d₁, s) rest := by
  have hres := resized_sizeCalls h.inStep.inv calls
  have hents := sizeCalls_ents h calls
  by_cases hne : e.bounds calls = []
  · have hidle : (e.sizeCalls calls).tableSizeUpdate = false := by
      rw [hres.update, hne, h.inStep.settled]
      rfl
    have hwrite : (e.sizeCalls calls).writeTableSize = ([], e.sizeCalls calls) := by
      unfold writeTableSize
      rw [if_neg (by rw [hidle]; exact Bool.false_ne_true)]
    have hsame : (e.sizeCalls calls).dynTab.table.ents = e.dynTab.table.ents := by
      rw [hres.ents, hne]
      rfl
    have hmax : (e.sizeCalls calls).dynTab.maxSize = e.dynTab.maxSize := by
      rw [hres.maxSize, hne]
      rfl
    have hstep := inStep_of_ents h calls (size_eq_weight h) (h.inStep.table.ents.trans hsame.symm)
      (h.inStep.table.maxSize.trans hmax.symm)
    refine ⟨d, ⟨hstep.table, hstep.inv, hstep.settled, h.inStep.limit, h.inStep.emitting⟩, ?_⟩
    intro s rest
    rw [hwrite]
    rfl
  have hlast := lastSize_le calls hv hne
  rcases hreach with hnil | ⟨hlt, hempty⟩ | ⟨hge, hsame⟩
  · exact absurd hnil hne
  · have hfirst := announced_ents h (e.leastSize calls)
    rw [hempty] at hfirst
    have hzero : (d.dynTab.setMaxSize (e.leastSize calls)).size = 0 := by
      apply UInt32.toNat_inj.mp
      rw [hfirst.2, hfirst.1]
      rfl
    have hsecond := evict_ents
      { d.dynTab.setMaxSize (e.leastSize calls) with
        maxSize := e.lastSize calls } hfirst.2
    have hnone : (e.sizeCalls calls).dynTab.table.ents = [] := by
      have hle := fit_suffix_fit (w := weight)
        (leastBound_le_leastSetMax _ uint32Max (e.bounds calls) (Nat.le_refl _))
        e.dynTab.table.ents
      rw [hempty, List.suffix_nil] at hle
      rw [hents, hle]
    refine ⟨_, inStep_of_ents h calls hsecond.2 ?_ ?_, ?_⟩
    · rw [hsecond.1, hnone]
      simp only [hfirst.1]
      rfl
    · rw [evict_maxSize, hres.maxSize]
    · intro s rest
      rw [writeTableSize_two h calls hne hlt, List.append_assoc,
        run_tableSize _ s (.inl h.firstField)
          (UInt32.le_trans (UInt32.le_of_lt hlt) hlast),
        run_tableSize _ s (.inr hzero)
          (by rw [setMaxSize_allowedMaxSize]; exact hlast)]
      rfl
  · have hone := announced_ents h (e.lastSize calls)
    refine ⟨_, inStep_of_ents h calls hone.2 ?_ ?_, ?_⟩
    · rw [hone.1, hsame, hents]
    · rw [setMaxSize_maxSize, hres.maxSize]
    · intro s rest
      rw [writeTableSize_one h calls hne hge, run_tableSize _ s (.inl h.firstField) hlast]

/-- When two sizes are announced and the first leaves an entry, the block is
refused. -/
theorem refused_of_two (hne : e.bounds calls ≠ []) (hlt : e.leastSize calls < e.lastSize calls)
    (hleft : fit weight (e.leastSize calls).toNat e.dynTab.table.ents ≠ []) (rest : Bytes) :
    (d.decodeFull ((e.sizeCalls calls).writeTableSize.1 ++ rest)).1 =
      .error (.decodingError
        "dynamic table size update MUST occur at the beginning of a header block") := by
  have hlast := lastSize_le calls hv hne
  have hfirst := announced_ents h (e.leastSize calls)
  have hsize : (d.dynTab.setMaxSize (e.leastSize calls)).size > 0 := by
    have hfits : ∀ g ∈ fit weight (e.leastSize calls).toNat e.dynTab.table.ents,
        g.entrySize < 2 ^ 32 :=
      fun g hg => h.inStep.inv.entrySize g ((fit_suffix _ _ _).mem hg)
    have hweight := le_weight hfits
    have hlen := List.length_pos_iff.mpr hleft
    rw [gt_iff_lt, UInt32.lt_iff_toNat_lt, hfirst.2, hfirst.1]
    show 0 < _
    omega
  have hrun : ∃ ds, (stepper collect).run (d, [])
      ((e.sizeCalls calls).writeTableSize.1 ++ rest) = .failed (.decodingError
        "dynamic table size update MUST occur at the beginning of a header block") ds := by
    rw [writeTableSize_two h calls hne hlt, List.append_assoc,
      run_tableSize _ _ (.inl h.firstField) (UInt32.le_trans (UInt32.le_of_lt hlt) hlast)]
    exact run_tableSize_late _ _ rfl hsize rest
  have hbytes : (e.sizeCalls calls).writeTableSize.1 ++ rest ≠ [] := by
    rw [writeTableSize_two h calls hne hlt, List.append_assoc]
    exact appendTableSize_append_ne_nil _ _
  obtain ⟨ds, hrun⟩ := hrun
  exact decodeFull_of_failed h.saveBuf hbytes hrun

/-- When one size is announced, the probe is accepted and the decoder keeps what
fits that size. -/
theorem decodeFull_probe (hne : e.bounds calls ≠ [])
    (hge : ¬ e.leastSize calls < e.lastSize calls) :
    ∃ bytes e' d', (e.sizeCalls calls).writeFields? [probe] = some (bytes, e') ∧
      d.decodeFull bytes = (.ok [probe], d') ∧
      e'.dynTab.table.ents = (e.sizeCalls calls).dynTab.table.ents ∧
      d'.dynTab.table.ents = fit weight (e.lastSize calls).toNat e.dynTab.table.ents := by
  have hres := resized_sizeCalls h.inStep.inv calls
  have hlast := lastSize_le calls hv hne
  have hone := announced_ents h (e.lastSize calls)
  have hdyn := (e.sizeCalls calls).writeTableSize_dynTab
  have hsuffix : (e.sizeCalls calls).writeTableSize.2.dynTab.table.ents <:+
      (d.dynTab.setMaxSize (e.lastSize calls)).table.ents := by
    rw [hdyn, sizeCalls_ents h calls, hone.1]
    exact fit_suffix_fit (leastBound_le_last hne _ _) _
  obtain ⟨bytes, indexed, hbytes, hwrite, hindex, hparse⟩ :=
    parse_writeRepr
      (d := { d with dynTab := d.dynTab.setMaxSize (e.lastSize calls), firstField := false })
      (hres.inv.of_dynTab hdyn) hsuffix h.inStep.emitting (f := probe) (.inl h.inStep.limit)
      (.inl h.inStep.limit) (by decide)
  have hplain : indexed = false := by
    cases indexed with
    | false => rfl
    | true => exact absurd (hindex rfl) Bool.false_ne_true
  subst hplain
  have hfields : (e.sizeCalls calls).writeFields? [probe] =
      some ((e.sizeCalls calls).writeTableSize.1 ++ bytes,
        (e.sizeCalls calls).writeTableSize.2) := by
    rw [writeFields?_settle]
    simp only [writeFields?, writeField?_of_settled (writeTableSize_settled _), hwrite,
      Option.bind_some, Option.map_some, List.append_nil]
    rfl
  have hstep : (stepper collect).step
      ({ d with dynTab := d.dynTab.setMaxSize (e.lastSize calls), firstField := false }, [])
      (bytes ++ []) = .ok ({ d with
        dynTab := d.dynTab.setMaxSize (e.lastSize calls)
        emitEnabled := true
        firstField := false }, [probe]) [] := by
    show parseNext collect _ _ = _
    unfold parseNext
    rw [hparse]
    rfl
  have hrun : (stepper collect).run (d, [])
      ((e.sizeCalls calls).writeTableSize.1 ++ bytes) = .parked ({ d with
        dynTab := d.dynTab.setMaxSize (e.lastSize calls)
        emitEnabled := true
        firstField := false }, [probe]) [] := by
    rw [List.append_nil] at hstep
    rw [writeTableSize_one h calls hne hge, run_tableSize _ _ (.inl h.firstField) hlast,
      Stepper.run_of_ok _ hstep, Stepper.run_nil]
  have hp : (e.sizeCalls calls).writeTableSize.1 ++ bytes ≠ [] := by
    rw [Ne, List.append_eq_nil_iff]
    exact fun hnil => hbytes hnil.2
  exact ⟨_, _, _, hfields, decodeFull_of_run h.saveBuf hp hrun, by rw [hdyn], hone.1⟩

end

/-- The next block is accepted and leaves the tables equal exactly when the calls
can be announced. -/
theorem next_block_iff (hv : ∀ c ∈ calls, c.value ≤ d.dynTab.allowedMaxSize) :
    NextBlockInSync (e.sizeCalls calls) d ↔ SizesReach e calls := by
  constructor
  · intro hsync
    obtain ⟨bytes, e', fs', d', hwrite, hdecode, hents, _⟩ :=
      hsync [probe] (List.cons_ne_nil _ _) (fieldsFit_probe _)
    by_cases hne : e.bounds calls = []
    · exact Or.inl hne
    right
    by_cases hlt : e.leastSize calls < e.lastSize calls
    · refine Or.inl ⟨hlt, ?_⟩
      by_contra hleft
      rw [writeFields?_settle] at hwrite
      obtain ⟨r, _, hr⟩ := Option.map_eq_some_iff.mp hwrite
      cases hr
      have hrefused := refused_of_two h calls hv hne hlt hleft r.1
      rw [hdecode] at hrefused
      cases hrefused
    · refine Or.inr ⟨hlt, ?_⟩
      obtain ⟨bytes', e'', d'', hwrite', hdecode', he'', hd''⟩ :=
        decodeFull_probe h calls hv hne hlt
      rw [hwrite] at hwrite'
      cases hwrite'
      rw [hdecode] at hdecode'
      cases hdecode'
      rw [← hd'', hents, he'', sizeCalls_ents h calls]
  · intro hreach fs hfs hfit
    obtain ⟨d₁, hstep, hrun⟩ := start_of_sizesReach h calls hv hreach
    obtain ⟨bytes, e', d', hwrite, hdecode, hstep', _⟩ :=
      decodeFull_of_start h.saveBuf hstep hrun hfs hfit
    exact ⟨bytes, e', fs, d', hwrite, hdecode, hstep'.table.ents, hstep'.table.maxSize⟩

end

/-- Two ends that have exchanged the field `a: 1`. -/
def seededEncoder : Encoder :=
  { Encoder.new with
    dynTab := Encoder.new.dynTab.add { name := ascii "a", value := ascii "1" } }

@[inherit_doc seededEncoder]
def seededDecoder : Decoder :=
  { new 4096 with
    dynTab := (new 4096).dynTab.add { name := ascii "a", value := ascii "1" } }

theorem lockstep_seeded : Lockstep seededEncoder seededDecoder := by
  have hfit : FieldFits Encoder.new.dynTab { name := ascii "a", value := ascii "1" } :=
    ⟨by decide, fun _ _ => by decide⟩
  have hsame := lockstep_new.inStep.table.add { name := ascii "a", value := ascii "1" }
  have hindex : Encoder.new.shouldIndex { name := ascii "a", value := ascii "1" } = true := by
    decide
  exact ⟨⟨hsame, Encoder.inv_new.add hfit hindex, rfl, rfl, rfl⟩, rfl, rfl, rfl⟩

/-- The table is emptied before it gets its old size back, so that the calls can
be announced. -/
theorem next_block_iff_emptied :
    NextBlockInSync (seededEncoder.sizeCalls [.setMax 0, .setMax 4096]) seededDecoder := by
  refine (next_block_iff lockstep_seeded [.setMax 0, .setMax 4096] (by decide)).mpr ?_
  exact Or.inr (Or.inl ⟨by decide, by decide +kernel⟩)

/-- Two ends in lockstep with one entry of 34 octets.  After `SetMaxDynamicTableSize`
with 100 and then 4096 the next block is refused.  After the limit was 10 for a
while, the next block leaves an entry in the decoder's table that the
encoder has evicted. -/
theorem size_change_out_of_sync :
    Lockstep seededEncoder seededDecoder ∧ seededDecoder.dynTab.allowedMaxSize = 4096 ∧
      ¬ NextBlockInSync (seededEncoder.sizeCalls [.setMax 100, .setMax 4096]) seededDecoder ∧
      ¬ NextBlockInSync
        (seededEncoder.sizeCalls [.setLimit 10, .setLimit 4096, .setMax 4096])
        seededDecoder := by
  refine ⟨lockstep_seeded, rfl, ?_, ?_⟩
  · intro hsync
    obtain ⟨bytes, e', fs', d', hwrite, hdecode, _⟩ :=
      hsync [probe] (List.cons_ne_nil _ _) (fieldsFit_probe _)
    have hrefused : ((seededEncoder.sizeCalls [.setMax 100, .setMax 4096]).writeFields?
        [probe]).map (fun r => (seededDecoder.decodeFull r.1).1.isOk) = some false := by
      decide +kernel
    rw [hwrite, Option.map_some, hdecode] at hrefused
    cases hrefused
  · intro hsync
    obtain ⟨bytes, e', fs', d', hwrite, hdecode, hents, _⟩ :=
      hsync [probe] (List.cons_ne_nil _ _) (fieldsFit_probe _)
    have htables : ((seededEncoder.sizeCalls
        [.setLimit 10, .setLimit 4096, .setMax 4096]).writeFields? [probe]).map (fun r =>
          ((seededDecoder.decodeFull r.1).2.dynTab.table.ents.length,
            r.2.dynTab.table.ents.length)) = some (1, 0) := by
      decide +kernel
    rw [hwrite, Option.map_some, hdecode, hents] at htables
    have hlen := Prod.mk.inj (Option.some.inj htables)
    exact absurd (hlen.1.symm.trans hlen.2) (by decide)

end Fhttp.Hpack
