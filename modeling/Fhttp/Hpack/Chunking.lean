import Fhttp.Hpack.Decoder

/-!
# Writing a header block in pieces

A caller of the decoder may hand a header block over in any number of `Write`
calls.  `writeAll` is that sequence of calls, up to the first error.  The main
result, `writeAll_flatten`, compares it with one `Write` of all the bytes.
Without a string length limit the two are the same: the same fields go to the
callback, the error is the same and so is the decoder.  With a limit, a piece
may also be refused because too much of a field is waiting, and that is
`ErrStringLength`.

The argument is `Stepper.run_append`.  What remains is that a parse function
changes neither the limit nor the saved data (`config_run`).
-/

namespace Fhttp.Hpack

open Lib.Incremental

variable {σ : Type}

namespace Decoder

/-! ## Invariants of the parse functions

A parse function changes the decoder and the state of the callback in few ways,
and what these keep, every outcome has. -/

/-- The field passes the check of `callEmit`. -/
def withinLimit (d : Decoder) (hf : HeaderField) : Prop :=
  d.maxStrLen ≠ 0 → (hf.name.length : Int) ≤ d.maxStrLen ∧ (hf.value.length : Int) ≤ d.maxStrLen

/-- What the hand-over of a field, a new entry, a size update and the end of a
representation keep. -/
structure Invariant (emit : EmitFunc σ) (I : Decoder × σ → Prop) : Prop where
  emit : ∀ {d : Decoder} {s : σ} {hf : HeaderField}, I (d, s) → d.emitEnabled = true →
    withinLimit d hf → I ({ d with emitEnabled := (emit s hf).2 }, (emit s hf).1)
  add : ∀ {d : Decoder} {s : σ} (f : HeaderField), I (d, s) →
    I ({ d with dynTab := d.dynTab.add f }, s)
  setMaxSize : ∀ {d : Decoder} {s : σ} (v : UInt32), I (d, s) →
    I ({ d with dynTab := d.dynTab.setMaxSize v }, s)
  firstField : ∀ {d : Decoder} {s : σ}, I (d, s) → I ({ d with firstField := false }, s)

/-- Every state that an outcome carries is in `I`. -/
def Keeps (I : Decoder × σ → Prop) (r : Parsed σ) : Prop := r.All I fun es => I es.2

namespace Invariant

variable {emit : EmitFunc σ} {I : Decoder × σ → Prop} {d : Decoder} {s : σ}

/-- A read that fails before anything is written. -/
theorem all_mapErr {α : Type} (h : I (d, s)) (r : Read UInt8 Err α) :
    (r.mapErr fun e => (e, (d, s))).All (fun _ => True) fun es => I es.2 :=
  (r.all_of_forall (fun _ => trivial) fun _ => trivial).mapErr fun _ _ => h

section

variable (hI : Invariant emit I) (h : I (d, s))

include hI h

theorem returnEmit (hf : HeaderField) (rest : Bytes) : Keeps I (returnEmit emit d s hf rest) := by
  unfold Decoder.returnEmit callEmit
  split
  · exact h
  · split
    · rename_i hon
      exact hI.emit h hon fun hne => by omega
    · exact h

variable (buf : Bytes)

theorem parseFieldIndexed : Keeps I (parseFieldIndexed emit d s buf) := by
  refine (all_mapErr h _).bind fun idx rest _ => ?_
  split
  · exact h
  · exact hI.returnEmit h _ _

theorem parseFieldLiteral (n : UInt64) (it : IndexType) (buf : Bytes) :
    Keeps I (parseFieldLiteral n it emit d s buf) := by
  refine (all_mapErr h _).bind fun nameIdx rest _ => ?_
  refine (all_mapErr h _).bind fun name rest _ => ?_
  refine (all_mapErr h _).bind fun value rest _ => ?_
  apply hI.returnEmit
  split
  · exact hI.add _ h
  · exact h

theorem parseDynamicTableSizeUpdate : Keeps I (parseDynamicTableSizeUpdate d s buf) := by
  unfold Decoder.parseDynamicTableSizeUpdate
  split
  · exact h
  refine (all_mapErr h _).bind fun size rest _ => ?_
  split
  · exact h
  · exact hI.setMaxSize _ h

theorem parseHeaderFieldRepr : Keeps I (parseHeaderFieldRepr emit d s buf) := by
  cases buf with
  | nil => trivial
  | cons b buf =>
    unfold Decoder.parseHeaderFieldRepr
    rw [peek_cons]
    split
    · exact hI.parseFieldIndexed h _
    split
    · exact hI.parseFieldLiteral h _ _ _
    split
    · exact hI.parseFieldLiteral h _ _ _
    split
    · exact hI.parseFieldLiteral h _ _ _
    split
    · exact hI.parseDynamicTableSizeUpdate h _
    · exact h

theorem parseNext : Keeps I (parseNext emit (d, s) buf) := by
  refine ((hI.parseHeaderFieldRepr h buf).mapErr ?_).bind ?_
  · intro es h'
    exact hI.firstField h'
  · intro ds rest h'
    exact hI.firstField h'

/-- The loop of `Write` keeps an invariant. -/
theorem run : I ((stepper emit).run (d, s) buf).state :=
  (stepper emit).run_invariant I (fun _ b h' => hI.parseNext h' b) h buf

end

end Invariant

/-- The fields of the decoder that no parse function writes. -/
structure SameConfig (d d' : Decoder) : Prop where
  maxStrLen : d'.maxStrLen = d.maxStrLen
  saveBuf : d'.saveBuf = d.saveBuf
  allowedMaxSize : d'.dynTab.allowedMaxSize = d.dynTab.allowedMaxSize

theorem invariant_sameConfig (emit : EmitFunc σ) (d : Decoder) :
    Invariant emit fun ds => SameConfig d ds.1 where
  emit := fun h _ _ => ⟨h.maxStrLen, h.saveBuf, h.allowedMaxSize⟩
  add := fun f h =>
    ⟨h.maxStrLen, h.saveBuf, (DynamicTable.add_allowedMaxSize _ f).trans h.allowedMaxSize⟩
  setMaxSize := fun v h =>
    ⟨h.maxStrLen, h.saveBuf, (DynamicTable.setMaxSize_allowedMaxSize _ v).trans h.allowedMaxSize⟩
  firstField := fun h => ⟨h.maxStrLen, h.saveBuf, h.allowedMaxSize⟩

variable (emit : EmitFunc σ) (d : Decoder) (s : σ)

/-- The loop of `Write` keeps the configuration. -/
theorem config_run (buf : Bytes) : SameConfig d ((stepper emit).run (d, s) buf).state.1 := by
  have hstart : SameConfig d (d, s).1 := ⟨rfl, rfl, rfl⟩
  exact (invariant_sameConfig emit d).run hstart buf

/-! ## Sequences of `Write` calls -/

/-- The error and the state after a call. -/
def WriteResult.outcome (r : WriteResult σ) : Option Err × Decoder × σ := (r.err, r.d, r.s)

/-- One `Write` call for each piece, up to the first error. -/
def writeAll (emit : EmitFunc σ) (d : Decoder) (s : σ) :
    List Bytes → Option Err × Decoder × σ
  | [] => (none, d, s)
  | p :: ps =>
    let r := write emit d s p
    match r.err with
    | some e => (some e, r.d, r.s)
    | none => writeAll emit r.d r.s ps

@[simp] theorem write_nil : write emit d s [] = ⟨0, none, d, s⟩ := rfl

theorem writeAll_nil_cons (ps : List Bytes) :
    writeAll emit d s ([] :: ps) = writeAll emit d s ps := rfl

/-- Empty pieces are not looked at. -/
theorem writeAll_of_flatten_eq_nil {ps : List Bytes} (h : ps.flatten = []) :
    writeAll emit d s ps = (none, d, s) := by
  induction ps with
  | nil => rfl
  | cons p ps ih =>
    rw [List.flatten_cons, List.append_eq_nil_iff] at h
    rw [h.1, writeAll_nil_cons]
    exact ih h.2

/-- The number of bytes does not matter for the error and the state. -/
theorem outcome_writeDone (len len' : Nat) (o : Outcome (Decoder × σ) UInt8 Err) :
    (writeDone len o).outcome = (writeDone len' o).outcome := by
  cases o with
  | failed e ds => rfl
  | parked ds left =>
    obtain ⟨d, s⟩ := ds
    by_cases hlarge : left ≠ [] ∧ saveTooLarge d left
    · rw [writeDone_of_large hlarge, writeDone_of_large hlarge]
    · rw [writeDone_of_not_large hlarge, writeDone_of_not_large hlarge]
      rfl

/-- A `Write` of two pieces at once is the two `Write` calls, unless the first
call finds that too much is waiting. -/
theorem write_append {p q : Bytes} (hp : p ≠ []) (hq : q ≠ []) :
    (∃ e, (write emit d s p).err = some e ∧
      ((write emit d s (p ++ q)).outcome = (write emit d s p).outcome ∨
        d.maxStrLen ≠ 0 ∧ e = .errStringLength)) ∨
    ((write emit d s p).err = none ∧
      (write emit d s p).d.maxStrLen = d.maxStrLen ∧
      (write emit d s (p ++ q)).outcome =
        (write emit (write emit d s p).d (write emit d s p).s q).outcome) := by
  have hpq : p ++ q ≠ [] := by
    rw [Ne, List.append_eq_nil_iff]
    exact fun h => hp h.1
  have hconfig := config_run emit { d with saveBuf := [] } s (d.saveBuf ++ p)
  have hboth : write emit d s (p ++ q) = writeDone (p ++ q).length
      ((stepper emit).run ({ d with saveBuf := [] }, s) (d.saveBuf ++ p ++ q)) := by
    rw [write, if_neg hpq, List.append_assoc]
  rw [(stepper emit).run_append] at hboth
  have hfirst : write emit d s p = writeDone p.length
      ((stepper emit).run ({ d with saveBuf := [] }, s) (d.saveBuf ++ p)) := by
    rw [write, if_neg hp]
  cases hrun : (stepper emit).run ({ d with saveBuf := [] }, s) (d.saveBuf ++ p) with
  | failed e ds =>
    rw [hrun] at hboth hfirst
    refine .inl ⟨e, by rw [hfirst, writeDone], .inl ?_⟩
    rw [hboth, hfirst]
    exact outcome_writeDone _ _ _
  | parked ds left =>
    obtain ⟨d', s'⟩ := ds
    rw [hrun] at hboth hfirst hconfig
    have hlimit : d'.maxStrLen = d.maxStrLen := hconfig.maxStrLen
    have hsave : d'.saveBuf = [] := hconfig.saveBuf
    by_cases hlarge : left ≠ [] ∧ saveTooLarge d' left
    · rw [writeDone_of_large hlarge] at hfirst
      refine .inl ⟨.errStringLength, by rw [hfirst], .inr ⟨?_, rfl⟩⟩
      rw [← hlimit]
      exact hlarge.2.1
    · rw [writeDone_of_not_large hlarge] at hfirst
      refine .inr ⟨by rw [hfirst], by rw [hfirst]; exact hlimit, ?_⟩
      have hback : { { d' with saveBuf := left } with saveBuf := [] } = d' := by
        rw [← hsave]
      rw [hboth, hfirst, write, if_neg hq]
      simp only [hback]
      exact outcome_writeDone _ _ _

/-- Any sequence of `Write` calls does what one `Write` of all the bytes does,
except that with a length limit it may fail with `ErrStringLength`. -/
theorem writeAll_flatten (chunks : List Bytes) :
    writeAll emit d s chunks = (write emit d s chunks.flatten).outcome ∨
      d.maxStrLen ≠ 0 ∧ (writeAll emit d s chunks).1 = some .errStringLength := by
  induction chunks generalizing d s with
  | nil => exact .inl rfl
  | cons p ps ih =>
    by_cases hp : p = []
    · subst hp
      exact ih d s
    by_cases hq : ps.flatten = []
    · left
      rw [List.flatten_cons, hq, List.append_nil, writeAll]
      cases herr : (write emit d s p).err with
      | some e => simp only [WriteResult.outcome, herr]
      | none => simp only [writeAll_of_flatten_eq_nil emit _ _ hq, WriteResult.outcome, herr]
    · rw [List.flatten_cons, writeAll]
      rcases write_append emit d s hp hq with ⟨e, herr, hsame | hlong⟩ | ⟨herr, hlimit, hrest⟩
      · left
        rw [hsame]
        simp only [WriteResult.outcome, herr]
      · right
        simp only [herr]
        exact ⟨hlong.1, by rw [hlong.2]⟩
      · simp only [herr]
        rw [hrest, ← hlimit]
        exact ih _ _

/-- Calls that all succeed do what one `Write` does. -/
theorem write_flatten {chunks : List Bytes} {d' : Decoder} {s' : σ}
    (h : writeAll emit d s chunks = (none, d', s')) :
    (write emit d s chunks.flatten).err = none ∧ (write emit d s chunks.flatten).d = d' ∧
      (write emit d s chunks.flatten).s = s' := by
  rcases writeAll_flatten emit d s chunks with hsame | ⟨_, herr⟩
  · rw [h] at hsame
    have hrest := congrArg Prod.snd hsame
    exact ⟨(congrArg Prod.fst hsame).symm, (congrArg Prod.fst hrest).symm,
      (congrArg Prod.snd hrest).symm⟩
  · rw [h] at herr
    cases herr

/-- The way the bytes are cut into `Write` calls does not matter.  Without a
length limit the calls together do exactly what one `Write` does.  With any
limit, a sequence of calls that all succeed does what one `Write` does, and a
sequence that fails does so too or fails with `ErrStringLength`. -/
theorem chunking_independence (chunks : List Bytes) :
    (d.maxStrLen = 0 →
      writeAll emit d s chunks = (write emit d s chunks.flatten).outcome) ∧
    ((writeAll emit d s chunks).1 = none →
      writeAll emit d s chunks = (write emit d s chunks.flatten).outcome) ∧
    (∀ e, (writeAll emit d s chunks).1 = some e →
      e = .errStringLength ∨
        writeAll emit d s chunks = (write emit d s chunks.flatten).outcome) := by
  rcases writeAll_flatten emit d s chunks with hsame | ⟨hlimit, herr⟩
  · exact ⟨fun _ => hsame, fun _ => hsame, fun _ _ => Or.inr hsame⟩
  · refine ⟨fun h => absurd h hlimit, fun h => ?_, fun e h => ?_⟩
    · rw [herr] at h
      cases h
    · rw [herr] at h
      exact Or.inl (Option.some.inj h).symm

/-- A literal field that is cut inside its name and before its value. -/
theorem chunking_independence_literal :
    writeAll collect (Decoder.new 4096) [] [[0x40, 0x02, 0x61], [], [0x62], [0x01, 0x63]] =
      (write collect (Decoder.new 4096) [] [0x40, 0x02, 0x61, 0x62, 0x01, 0x63]).outcome ∧
    (write collect (Decoder.new 4096) [] [0x40, 0x02, 0x61, 0x62, 0x01, 0x63]).s =
      [{ name := [0x61, 0x62], value := [0x63] }] :=
  ⟨(chunking_independence collect (Decoder.new 4096) []
    [[0x40, 0x02, 0x61], [], [0x62], [0x01, 0x63]]).1 rfl, by decide +kernel⟩

end Decoder

end Fhttp.Hpack
