import Mathlib.Algebra.Group.Int.Defs
import Mathlib.Algebra.GroupWithZero.Nat
import Mathlib.Data.List.Basic

/-!
# Header fields and errors of package `hpack`

A Go `string` is a list of bytes.  The error values are those that
`http2/hpack/hpack.go` and `http2/hpack/huffman.go` return to a caller.  The
internal `errNeedMore` is not among them: it is the outcome `Read.needMore` of
`Fhttp.Lib.Incremental`.
-/

namespace Fhttp.Hpack

/-- The octets of a Go `string` or `[]byte`. -/
abbrev Bytes := List UInt8

/-- The octets of an ASCII literal. -/
def ascii (s : String) : Bytes := s.toList.map fun c => UInt8.ofNat c.toNat

/-- A name-value pair.  Both are opaque sequences of octets. -/
structure HeaderField where
  name : Bytes
  value : Bytes := []
  /-- The field should never be indexed. -/
  sensitive : Bool := false
deriving DecidableEq, Repr

namespace HeaderField

/-- Whether the name starts with a colon. -/
def isPseudo (hf : HeaderField) : Bool :=
  hf.name.length != 0 && hf.name[0]? == some 58

/-- The size of an entry without the wrap of `uint32` (RFC 7541, section
4.1). -/
def entrySize (hf : HeaderField) : Nat := hf.name.length + hf.value.length + 32

/-- The size of an entry, as `Size` computes it. -/
def size (hf : HeaderField) : UInt32 := UInt32.ofNat hf.entrySize

theorem size_toNat (hf : HeaderField) : hf.size.toNat = hf.entrySize % 2 ^ 32 :=
  UInt32.toNat_ofNat'

theorem size_toNat_of_lt {hf : HeaderField} (h : hf.entrySize < 2 ^ 32) :
    hf.size.toNat = hf.entrySize := by
  rw [size_toNat, Nat.mod_eq_of_lt h]

end HeaderField

/-- The errors of the decoder.  A `DecodingError` carries the text of its cause,
or the index that an `InvalidIndexError` names. -/
inductive Err where
  | errStringLength
  | errInvalidHuffman
  | decodingError (text : String)
  | invalidIndexError (idx : Nat)
deriving DecidableEq, Repr

end Fhttp.Hpack
