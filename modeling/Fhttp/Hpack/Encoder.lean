import Fhttp.Hpack.Huffman
import Fhttp.Hpack.Tables

/-!
# The HPACK encoder

The model of `http2/hpack/encode.go`.

`WriteField` gives its bytes to an `io.Writer` in one call.  Here the bytes are
returned; the writer takes all of them, as a `bytes.Buffer` does.  The scratch
field `buf` is empty at the start of every call, so it is not part of the
state.

`search` can panic, so `searchTable?` and `writeField?` return `Option`.
-/

namespace Fhttp.Hpack

/-! ## Representations -/

/-- `dst[first] |= t`. -/
def orAt (dst : Bytes) (first : Nat) (t : UInt8) : Bytes := dst.modify first (· ||| t)

theorem toNat_shiftRight_seven (i : UInt64) : (i >>> 7).toNat = i.toNat / 128 := by
  show i.toNat >>> 7 = i.toNat / 128
  rw [Nat.shiftRight_eq_div_pow]

/-- The loop of `appendVarInt`: seven bits at a time, the low ones first. -/
def appendVarIntLoop (dst : Bytes) (i : UInt64) : Bytes :=
  if i ≥ 128 then appendVarIntLoop (dst ++ [(0x80 ||| (i &&& 0x7f)).toUInt8]) (i >>> 7)
  else dst ++ [i.toUInt8]
termination_by i.toNat
decreasing_by
  rename_i h
  have hle : 128 ≤ i.toNat := UInt64.le_iff_toNat_le.mp h
  rw [toNat_shiftRight_seven]
  omega

/-- Append `i` in the form whose first byte holds `n` bits of it. -/
def appendVarInt (dst : Bytes) (n : UInt64) (i : UInt64) : Bytes :=
  let k : UInt64 := (1 <<< n) - 1
  if i < k then dst ++ [i.toUInt8] else appendVarIntLoop (dst ++ [k.toUInt8]) (i - k)

/-- Append `s`, in Huffman codes when that is strictly shorter. -/
def appendHpackString (dst : Bytes) (s : Bytes) : Bytes :=
  let huffmanLength := huffmanEncodeLength s
  if huffmanLength < s.length then
    let first := dst.length
    let dst := appendVarInt dst 7 (UInt64.ofNat huffmanLength)
    let dst := appendHuffmanString dst s
    orAt dst first 0x80
  else appendVarInt dst 7 (UInt64.ofNat s.length) ++ s

/-- The type byte of a literal. -/
def encodeTypeByte (indexing sensitive : Bool) : UInt8 :=
  if sensitive then 0x10 else if indexing then 0x40 else 0

def appendIndexed (dst : Bytes) (i : UInt64) : Bytes :=
  orAt (appendVarInt dst 7 i) dst.length 0x80

def appendNewName (dst : Bytes) (f : HeaderField) (indexing : Bool) : Bytes :=
  let dst := dst ++ [encodeTypeByte indexing f.sensitive]
  appendHpackString (appendHpackString dst f.name) f.value

def appendIndexedName (dst : Bytes) (f : HeaderField) (i : UInt64) (indexing : Bool) : Bytes :=
  let first := dst.length
  let n : UInt64 := if indexing then 6 else 4
  let dst := appendVarInt dst n i
  appendHpackString (orAt dst first (encodeTypeByte indexing f.sensitive)) f.value

def appendTableSize (dst : Bytes) (v : UInt32) : Bytes :=
  orAt (appendVarInt dst 5 v.toUInt64) dst.length 0x20

/-! ## The encoder -/

def uint32Max : UInt32 := 0xffffffff

def initialHeaderTableSize : UInt32 := 4096

structure Encoder where
  dynTab : DynamicTable
  /-- The minimum table size set by `SetMaxDynamicTableSize` after the previous
  size update. -/
  minSize : UInt32
  /-- The maximum table size that this encoder supports. -/
  maxSizeLimit : UInt32
  /-- Whether a size update is required. -/
  tableSizeUpdate : Bool

namespace Encoder

/-- `NewEncoder`. -/
def new : Encoder where
  dynTab := DynamicTable.empty.setMaxSize initialHeaderTableSize
  minSize := uint32Max
  maxSizeLimit := initialHeaderTableSize
  tableSizeUpdate := false

/-- Search `f` in the static table, and then, when there is no exact match, in
the dynamic table. -/
def searchTable? (e : Encoder) (f : HeaderField) : Option (Nat × Bool) :=
  (staticTable.search? true f).bind fun (i, nameValueMatch) =>
    if nameValueMatch then some (i, true)
    else
      (e.dynTab.table.search? false f).map fun (j, nameValueMatch) =>
        if nameValueMatch || (i == 0 && j != 0) then (j + staticTable.len, nameValueMatch)
        else (i, false)

/-- Whether `f` should be indexed. -/
def shouldIndex (e : Encoder) (f : HeaderField) : Bool :=
  !f.sensitive && f.size ≤ e.dynTab.maxSize

/-- The first part of `WriteField`: the size updates that are due. -/
def writeTableSize (e : Encoder) : Bytes × Encoder :=
  if e.tableSizeUpdate then
    let buf := if e.minSize < e.dynTab.maxSize then appendTableSize [] e.minSize else []
    (appendTableSize buf e.dynTab.maxSize,
      { e with tableSizeUpdate := false, minSize := uint32Max })
  else ([], e)

/-- The second part of `WriteField`: the field. -/
def writeRepr? (e : Encoder) (buf : Bytes) (f : HeaderField) : Option (Bytes × Encoder) :=
  (e.searchTable? f).map fun (idx, nameValueMatch) =>
    if nameValueMatch then (appendIndexed buf (UInt64.ofNat idx), e)
    else
      let indexing := e.shouldIndex f
      let e := if indexing then { e with dynTab := e.dynTab.add f } else e
      if idx = 0 then (appendNewName buf f indexing, e)
      else (appendIndexedName buf f (UInt64.ofNat idx) indexing, e)

/-- Encode `f`, after the size updates that are due. -/
def writeField? (e : Encoder) (f : HeaderField) : Option (Bytes × Encoder) :=
  (e.writeTableSize.2).writeRepr? e.writeTableSize.1 f

def setMaxDynamicTableSize (e : Encoder) (v : UInt32) : Encoder :=
  let v := if v > e.maxSizeLimit then e.maxSizeLimit else v
  { e with
    minSize := if v < e.minSize then v else e.minSize
    tableSizeUpdate := true
    dynTab := e.dynTab.setMaxSize v }

def setMaxDynamicTableSizeLimit (e : Encoder) (v : UInt32) : Encoder :=
  if e.dynTab.maxSize > v then
    { e with maxSizeLimit := v, tableSizeUpdate := true, dynTab := e.dynTab.setMaxSize v }
  else { e with maxSizeLimit := v }

end Encoder

end Fhttp.Hpack
