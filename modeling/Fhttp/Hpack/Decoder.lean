import Fhttp.Hpack.Huffman
import Fhttp.Hpack.Tables
import Fhttp.Lib.Incremental

/-!
# The HPACK decoder

The model of `Decoder` in `http2/hpack/hpack.go`.

A parse function takes the unread buffer and gives a `Read`: `errNeedMore` is
`Read.needMore`, any other error is `Read.fail` with the decoder at that time,
and success is the new decoder with the rest of the buffer.  Every parse
function is stable and takes at least one byte, so one field representation is
a `Stepper` and the loop of `Write` is `Stepper.run`.

The `emit` callback is a function of a state `σ` of its own.  It sees a field
and gives its new state, with the flag that says whether emission is enabled
afterwards: a callback may call `SetEmitEnabled`.

The field `buf` of `Decoder` is only valid during `Write`; it is the argument
of the parse functions.
-/

namespace Fhttp.Hpack

open Lib.Incremental

variable {σ : Type}

/-- The emit callback. -/
abbrev EmitFunc (σ : Type) := σ → HeaderField → σ × Bool

/-- The decoding context. -/
structure Decoder where
  dynTab : DynamicTable
  /-- Whether calls to emit are enabled. -/
  emitEnabled : Bool
  /-- Zero means unlimited. -/
  maxStrLen : Int
  /-- Data of previous calls to `Write` that was not parsed yet. -/
  saveBuf : Bytes
  /-- Processing the first field of the header block. -/
  firstField : Bool

namespace Decoder

/-- `NewDecoder`. -/
def new (maxDynamicTableSize : UInt32) : Decoder where
  dynTab := { DynamicTable.empty with allowedMaxSize := maxDynamicTableSize }.setMaxSize
    maxDynamicTableSize
  emitEnabled := true
  maxStrLen := 0
  saveBuf := []
  firstField := true

def setEmitEnabled (d : Decoder) (v : Bool) : Decoder := { d with emitEnabled := v }

def setMaxStringLength (d : Decoder) (n : Int) : Decoder := { d with maxStrLen := n }

def maxTableIndex (d : Decoder) : Nat := d.dynTab.table.len + staticTable.len

/-- The field with index `i`: the static table first, then the dynamic table
from its newest entry. -/
def at? (d : Decoder) (i : UInt64) : Option HeaderField :=
  if i = 0 then none
  else if i.toNat ≤ staticTable.len then staticTable.ents[i.toNat - 1]?
  else if i.toNat > d.maxTableIndex then none
  else d.dynTab.table.ents[d.dynTab.table.len - (i.toNat - staticTable.len)]?

end Decoder

/-! ## Integers and strings -/

def errVarintOverflow : Err := .decodingError "varint integer overflow"

/-- The loop of `readVarInt` over the bytes after the first one. -/
def readVarIntLoop (i m : UInt64) : Bytes → Read UInt8 Err UInt64
  | [] => .needMore
  | b :: p =>
    let i := i + ((b &&& 127).toUInt64 <<< m)
    if b &&& 128 = 0 then .ok i p
    else
      let m := m + 7
      if m ≥ 63 then .fail errVarintOverflow else readVarIntLoop i m p

/-- The low `n` bits of the first byte. -/
def varIntHead (n : UInt64) (b : UInt8) : UInt64 :=
  if n < 8 then b.toUInt64 &&& ((1 <<< n) - 1) else b.toUInt64

/-- Read an integer whose first byte holds `n` bits of it.  (`n` is between 1
and 8; `readVarInt` panics for other values, and no caller passes one.) -/
def readVarInt (n : UInt64) : Bytes → Read UInt8 Err UInt64
  | [] => .needMore
  | b :: p =>
    let i := varIntHead n b
    if i < (1 <<< n) - 1 then .ok i p else readVarIntLoop i 0 p

theorem readVarIntLoop_cons (i m : UInt64) (b : UInt8) (p : Bytes) :
    readVarIntLoop i m (b :: p) =
      if b &&& 128 = 0 then .ok (i + ((b &&& 127).toUInt64 <<< m)) p
      else if m + 7 ≥ 63 then .fail errVarintOverflow
      else readVarIntLoop (i + ((b &&& 127).toUInt64 <<< m)) (m + 7) p := rfl

theorem readVarInt_cons (n : UInt64) (b : UInt8) (p : Bytes) :
    readVarInt n (b :: p) =
      if varIntHead n b < (1 <<< n) - 1 then .ok (varIntHead n b) p
      else readVarIntLoop (varIntHead n b) 0 p := rfl

/-- The string in the bytes `raw`.  It is decompressed only when it is wanted. -/
def decodeString (d : Decoder) (wantStr isHuff : Bool) (raw : Bytes) : Except Err Bytes :=
  if !isHuff then .ok (if wantStr then raw else [])
  else if wantStr then huffmanDecode d.maxStrLen raw
  else .ok []

/-- Whether a length on the wire is above the limit.  The conversion of a
negative limit to `uint64` wraps. -/
def tooLong (d : Decoder) (strLen : UInt64) : Prop :=
  d.maxStrLen ≠ 0 ∧ (strLen.toNat : Int) > d.maxStrLen % 2 ^ 64

instance (d : Decoder) (strLen : UInt64) : Decidable (tooLong d strLen) :=
  inferInstanceAs (Decidable (_ ∧ _))

/-- Read a string: the length with the Huffman bit, then the bytes. -/
def readString (d : Decoder) (wantStr : Bool) : Bytes → Read UInt8 Err Bytes :=
  peek fun b p =>
    let isHuff := b &&& 128 != 0
    (readVarInt 7 p).bind fun strLen p =>
      if tooLong d strLen then .fail .errStringLength
      else
        (readExactly strLen.toNat p).bind fun raw p =>
          .ofExcept (decodeString d wantStr isHuff raw) p

/-! ## Field representations -/

/-- How a literal is indexed. -/
inductive IndexType where
  | indexedTrue
  | indexedFalse
  | indexedNever
deriving DecidableEq

def IndexType.indexed (v : IndexType) : Bool := v == .indexedTrue

def IndexType.sensitive (v : IndexType) : Bool := v == .indexedNever

namespace Decoder

/-- The outcome of parsing one representation: the decoder and the state of the
callback. -/
abbrev Parsed (σ : Type) := Read UInt8 (Err × (Decoder × σ)) (Decoder × σ)

/-- Hand a field to the callback, when emission is enabled. -/
def callEmit (emit : EmitFunc σ) (d : Decoder) (s : σ) (hf : HeaderField) :
    Except Err (Decoder × σ) :=
  if d.maxStrLen ≠ 0 ∧
      ((hf.name.length : Int) > d.maxStrLen ∨ (hf.value.length : Int) > d.maxStrLen) then
    .error .errStringLength
  else if d.emitEnabled then
    .ok ({ d with emitEnabled := (emit s hf).2 }, (emit s hf).1)
  else .ok (d, s)

/-- `return d.callEmit(hf)`, with `d.buf` set to the rest. -/
def returnEmit (emit : EmitFunc σ) (d : Decoder) (s : σ) (hf : HeaderField) (rest : Bytes) :
    Parsed σ :=
  (Read.ofExcept (callEmit emit d s hf) rest).mapErr fun e => (e, (d, s))

def parseFieldIndexed (emit : EmitFunc σ) (d : Decoder) (s : σ) (buf : Bytes) : Parsed σ :=
  ((readVarInt 7 buf).mapErr fun e => (e, (d, s))).bind fun idx buf =>
    match d.at? idx with
    | none => .fail (.invalidIndexError idx.toNat, (d, s))
    | some hf => returnEmit emit d s { name := hf.name, value := hf.value } buf

/-- The name of a literal: an index, or a string when the index is zero. -/
def readName (d : Decoder) (wantStr : Bool) (nameIdx : UInt64) (buf : Bytes) :
    Read UInt8 Err Bytes :=
  if nameIdx > 0 then
    match d.at? nameIdx with
    | none => .fail (.invalidIndexError nameIdx.toNat)
    | some ihf => .ok ihf.name buf
  else readString d wantStr buf

def parseFieldLiteral (n : UInt64) (it : IndexType) (emit : EmitFunc σ) (d : Decoder) (s : σ)
    (buf : Bytes) : Parsed σ :=
  let wantStr := d.emitEnabled || it.indexed
  ((readVarInt n buf).mapErr fun e => (e, (d, s))).bind fun nameIdx buf =>
    ((readName d wantStr nameIdx buf).mapErr fun e => (e, (d, s))).bind fun name buf =>
      ((readString d wantStr buf).mapErr fun e => (e, (d, s))).bind fun value buf =>
        let hf : HeaderField := { name := name, value := value }
        let d := if it.indexed then { d with dynTab := d.dynTab.add hf } else d
        returnEmit emit d s { hf with sensitive := it.sensitive } buf

def parseDynamicTableSizeUpdate (d : Decoder) (s : σ) (buf : Bytes) : Parsed σ :=
  if ¬ d.firstField ∧ d.dynTab.size > 0 then
    .fail (.decodingError
      "dynamic table size update MUST occur at the beginning of a header block", (d, s))
  else
    ((readVarInt 5 buf).mapErr fun e => (e, (d, s))).bind fun size buf =>
      if size > d.dynTab.allowedMaxSize.toUInt64 then
        .fail (.decodingError "dynamic table size update too large", (d, s))
      else .ok ({ d with dynTab := d.dynTab.setMaxSize size.toUInt32 }, s) buf

/-- One representation, told apart by the high bits of its first byte. -/
def parseHeaderFieldRepr (emit : EmitFunc σ) (d : Decoder) (s : σ) : Bytes → Parsed σ :=
  peek fun b buf =>
    if b &&& 128 ≠ 0 then parseFieldIndexed emit d s buf
    else if b &&& 192 = 64 then parseFieldLiteral 6 .indexedTrue emit d s buf
    else if b &&& 240 = 0 then parseFieldLiteral 4 .indexedFalse emit d s buf
    else if b &&& 240 = 16 then parseFieldLiteral 4 .indexedNever emit d s buf
    else if b &&& 224 = 32 then parseDynamicTableSizeUpdate d s buf
    else .fail (.decodingError "invalid encoding", (d, s))

/-- The body of the loop of `Write`: one representation, after which the next
one is not the first. -/
def parseNext (emit : EmitFunc σ) (ds : Decoder × σ) (buf : Bytes) : Parsed σ :=
  ((parseHeaderFieldRepr emit ds.1 ds.2 buf).mapErr fun (e, (d, s)) =>
    (e, ({ d with firstField := false }, s))).bind fun (d, s) buf =>
      .ok ({ d with firstField := false }, s) buf

end Decoder

/-! ## The parse functions are stable

One lemma for each function; every proof follows the way the function is put
together. -/

theorem stable_readVarIntLoop (i m : UInt64) : Stable (readVarIntLoop i m) where
  ok := by
    intro b a rest more h
    induction b generalizing i m with
    | nil => cases h
    | cons x b ih =>
      rw [readVarIntLoop_cons] at h
      rw [List.cons_append, readVarIntLoop_cons]
      split at h
      · rename_i hlast
        rw [if_pos hlast]
        cases h
        rfl
      · rename_i hlast
        rw [if_neg hlast]
        split at h
        · cases h
        · rename_i hm
          rw [if_neg hm]
          exact ih _ _ h
  fail := by
    intro b e more h
    induction b generalizing i m with
    | nil => cases h
    | cons x b ih =>
      rw [readVarIntLoop_cons] at h
      rw [List.cons_append, readVarIntLoop_cons]
      split at h
      · cases h
      rename_i hlast
      rw [if_neg hlast]
      split at h
      · rename_i hm
        rw [if_pos hm]
        exact h
      · rename_i hm
        rw [if_neg hm]
        exact ih _ _ h

theorem shrinks_readVarIntLoop (i m : UInt64) : Shrinks (readVarIntLoop i m) := by
  intro b a rest h
  induction b generalizing i m with
  | nil => cases h
  | cons x b ih =>
    rw [readVarIntLoop_cons] at h
    split at h
    · cases h
      exact Nat.le_succ _
    · split at h
      · cases h
      · exact Nat.le_succ_of_le (ih _ _ h)

theorem stable_readVarInt (n : UInt64) : Stable (readVarInt n) where
  ok := by
    intro b a rest more h
    cases b with
    | nil => cases h
    | cons x b =>
      rw [readVarInt_cons] at h
      rw [List.cons_append, readVarInt_cons]
      split at h
      · rename_i hlt
        rw [if_pos hlt]
        cases h
        rfl
      · rename_i hlt
        rw [if_neg hlt]
        exact (stable_readVarIntLoop _ _).ok more h
  fail := by
    intro b e more h
    cases b with
    | nil => cases h
    | cons x b =>
      rw [readVarInt_cons] at h
      rw [List.cons_append, readVarInt_cons]
      split at h
      · cases h
      · rename_i hlt
        rw [if_neg hlt]
        exact (stable_readVarIntLoop _ _).fail more h

theorem consumes_readVarInt (n : UInt64) : Consumes (readVarInt n) := by
  intro b a rest h
  cases b with
  | nil => cases h
  | cons x b =>
    rw [readVarInt_cons] at h
    split at h
    · cases h
      exact Nat.lt_succ_self _
    · exact Nat.lt_succ_of_le (shrinks_readVarIntLoop _ _ _ _ _ h)

theorem stable_readString (d : Decoder) (wantStr : Bool) : Stable (readString d wantStr) := by
  refine Stable.peek fun b => Stable.bind (stable_readVarInt 7) fun strLen => ?_
  by_cases hlimit : tooLong d strLen
  · simp only [if_pos hlimit]
    exact stable_fail _
  · simp only [if_neg hlimit]
    exact Stable.bind (stable_readExactly _) fun raw => stable_ofExcept _

theorem consumes_readString (d : Decoder) (wantStr : Bool) : Consumes (readString d wantStr) := by
  refine Consumes.peek fun b => Consumes.bind (consumes_readVarInt 7) fun strLen => ?_
  by_cases hlimit : tooLong d strLen
  · simp only [if_pos hlimit]
    exact shrinks_fail _
  · simp only [if_neg hlimit]
    exact Shrinks.bind (shrinks_readExactly _) fun raw => shrinks_ofExcept _

namespace Decoder

variable (emit : EmitFunc σ) (d : Decoder) (s : σ)

theorem stable_returnEmit (hf : HeaderField) : Stable (returnEmit emit d s hf) :=
  Stable.mapErr (stable_ofExcept _) _

theorem shrinks_returnEmit (hf : HeaderField) : Shrinks (returnEmit emit d s hf) :=
  Shrinks.mapErr (shrinks_ofExcept _) _

theorem stable_readName (wantStr : Bool) (nameIdx : UInt64) :
    Stable (readName d wantStr nameIdx) := by
  unfold readName
  by_cases hidx : nameIdx > 0
  · simp only [if_pos hidx]
    cases d.at? nameIdx with
    | none => exact stable_fail _
    | some ihf => exact stable_ok _
  · simp only [if_neg hidx]
    exact stable_readString d wantStr

theorem shrinks_readName (wantStr : Bool) (nameIdx : UInt64) :
    Shrinks (readName d wantStr nameIdx) := by
  unfold readName
  by_cases hidx : nameIdx > 0
  · simp only [if_pos hidx]
    cases d.at? nameIdx with
    | none => exact shrinks_fail _
    | some ihf => exact shrinks_ok _
  · simp only [if_neg hidx]
    exact (consumes_readString d wantStr).shrinks

theorem stable_parseFieldIndexed : Stable (parseFieldIndexed emit d s) := by
  refine Stable.bind ((stable_readVarInt 7).mapErr _) fun idx => ?_
  cases d.at? idx with
  | none => exact stable_fail _
  | some hf => exact stable_returnEmit emit d s _

theorem consumes_parseFieldIndexed : Consumes (parseFieldIndexed emit d s) := by
  refine Consumes.bind ((consumes_readVarInt 7).mapErr _) fun idx => ?_
  cases d.at? idx with
  | none => exact shrinks_fail _
  | some hf => exact shrinks_returnEmit emit d s _

theorem stable_parseFieldLiteral (n : UInt64) (it : IndexType) :
    Stable (parseFieldLiteral n it emit d s) :=
  Stable.bind ((stable_readVarInt n).mapErr _) fun _ =>
    Stable.bind ((stable_readName d _ _).mapErr _) fun _ =>
      Stable.bind ((stable_readString d _).mapErr _) fun _ => stable_returnEmit emit _ s _

theorem consumes_parseFieldLiteral (n : UInt64) (it : IndexType) :
    Consumes (parseFieldLiteral n it emit d s) :=
  Consumes.bind ((consumes_readVarInt n).mapErr _) fun _ =>
    Shrinks.bind ((shrinks_readName d _ _).mapErr _) fun _ =>
      Shrinks.bind ((consumes_readString d _).shrinks.mapErr _) fun _ =>
        shrinks_returnEmit emit _ s _

theorem stable_parseDynamicTableSizeUpdate : Stable (parseDynamicTableSizeUpdate d s) := by
  unfold parseDynamicTableSizeUpdate
  by_cases hfirst : ¬ d.firstField ∧ d.dynTab.size > 0
  · simp only [if_pos hfirst]
    exact stable_fail _
  · simp only [if_neg hfirst]
    refine Stable.bind ((stable_readVarInt 5).mapErr _) fun size => ?_
    by_cases hsize : size > d.dynTab.allowedMaxSize.toUInt64
    · simp only [if_pos hsize]
      exact stable_fail _
    · simp only [if_neg hsize]
      exact stable_ok _

theorem consumes_parseDynamicTableSizeUpdate : Consumes (parseDynamicTableSizeUpdate d s) := by
  unfold parseDynamicTableSizeUpdate
  by_cases hfirst : ¬ d.firstField ∧ d.dynTab.size > 0
  · simp only [if_pos hfirst]
    intro b a rest h
    cases h
  · simp only [if_neg hfirst]
    refine Consumes.bind ((consumes_readVarInt 5).mapErr _) fun size => ?_
    by_cases hsize : size > d.dynTab.allowedMaxSize.toUInt64
    · simp only [if_pos hsize]
      exact shrinks_fail _
    · simp only [if_neg hsize]
      exact shrinks_ok _

theorem stable_parseHeaderFieldRepr : Stable (parseHeaderFieldRepr emit d s) := by
  refine Stable.peek fun b => ?_
  split
  · exact stable_parseFieldIndexed emit d s
  split
  · exact stable_parseFieldLiteral emit d s _ _
  split
  · exact stable_parseFieldLiteral emit d s _ _
  split
  · exact stable_parseFieldLiteral emit d s _ _
  split
  · exact stable_parseDynamicTableSizeUpdate d s
  · exact stable_fail _

theorem consumes_parseHeaderFieldRepr : Consumes (parseHeaderFieldRepr emit d s) := by
  refine Consumes.peek fun b => ?_
  split
  · exact consumes_parseFieldIndexed emit d s
  split
  · exact consumes_parseFieldLiteral emit d s _ _
  split
  · exact consumes_parseFieldLiteral emit d s _ _
  split
  · exact consumes_parseFieldLiteral emit d s _ _
  split
  · exact consumes_parseDynamicTableSizeUpdate d s
  · intro buf a rest h
    cases h

/-- One pass of the loop of `Write`. -/
def stepper (emit : EmitFunc σ) : Stepper (Decoder × σ) UInt8 Err where
  step := parseNext emit
  stable := fun ds =>
    Stable.bind ((stable_parseHeaderFieldRepr emit ds.1 ds.2).mapErr _) fun _ => stable_ok _
  consumes := fun ds =>
    Consumes.bind ((consumes_parseHeaderFieldRepr emit ds.1 ds.2).mapErr _) fun _ => shrinks_ok _

/-! ## `Write` and `Close` -/

/-- What `Write` returns, with the decoder and the state of the callback. -/
structure WriteResult (σ : Type) where
  n : Nat
  err : Option Err
  d : Decoder
  s : σ

/-- The last check before data is saved for the next call: `int64` wraps. -/
def saveTooLarge (d : Decoder) (buf : Bytes) : Prop :=
  d.maxStrLen ≠ 0 ∧ (buf.length : Int) > Int.bmod (2 * (d.maxStrLen + 8)) (2 ^ 64)

instance (d : Decoder) (buf : Bytes) : Decidable (saveTooLarge d buf) :=
  inferInstanceAs (Decidable (_ ∧ _))

/-- What `Write` does after its loop, with `len` bytes written.  There is data
left over when the loop ended with `errNeedMore`. -/
def writeDone (len : Nat) : Outcome (Decoder × σ) UInt8 Err → WriteResult σ
  | .parked (d, s) left =>
    if left ≠ [] ∧ saveTooLarge d left then ⟨0, some .errStringLength, d, s⟩
    else ⟨len, none, { d with saveBuf := left }, s⟩
  | .failed e (d, s) => ⟨len, some e, d, s⟩

theorem writeDone_of_large {d : Decoder} {left : Bytes} (h : left ≠ [] ∧ saveTooLarge d left)
    (len : Nat) (s : σ) :
    writeDone len (.parked (d, s) left) = ⟨0, some .errStringLength, d, s⟩ := if_pos h

theorem writeDone_of_not_large {d : Decoder} {left : Bytes}
    (h : ¬ (left ≠ [] ∧ saveTooLarge d left)) (len : Nat) (s : σ) :
    writeDone len (.parked (d, s) left) = ⟨len, none, { d with saveBuf := left }, s⟩ := if_neg h

/-- The state of the callback is that of the loop. -/
theorem writeDone_state (len : Nat) (o : Outcome (Decoder × σ) UInt8 Err) :
    (writeDone len o).s = o.state.2 := by
  cases o with
  | failed e ds => rfl
  | parked ds left =>
    obtain ⟨d, s⟩ := ds
    by_cases hlarge : left ≠ [] ∧ saveTooLarge d left
    · rw [writeDone_of_large hlarge]
      rfl
    · rw [writeDone_of_not_large hlarge]
      rfl

def write (emit : EmitFunc σ) (d : Decoder) (s : σ) (p : Bytes) : WriteResult σ :=
  if p = [] then ⟨0, none, d, s⟩
  else writeDone p.length
    ((stepper emit).run ({ d with saveBuf := [] }, s) (d.saveBuf ++ p))

/-- The end of a header block. -/
def close (d : Decoder) : Option Err × Decoder :=
  if d.saveBuf.length > 0 then
    (some (.decodingError "truncated headers"), { d with saveBuf := [] })
  else (none, { d with firstField := true })

/-- The callback of `DecodeFull`: it collects the fields, and does not change
whether emission is enabled. -/
def collect : EmitFunc (List HeaderField) := fun hf f => (hf ++ [f], true)

/-- Decode an entire block. -/
def decodeFull (d : Decoder) (p : Bytes) : Except Err (List HeaderField) × Decoder :=
  let r := write collect d [] p
  match r.err with
  | some e => (.error e, r.d)
  | none =>
    match r.d.close with
    | (some e, d) => (.error e, d)
    | (none, d) => (.ok r.s, d)

end Decoder

end Fhttp.Hpack
