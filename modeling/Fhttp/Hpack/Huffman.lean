import Fhttp.Hpack.Basic

/-!
# The Huffman codec of package `hpack`

The model of `http2/hpack/huffman.go` and of the two code tables of
`http2/hpack/tables.go`.

The decoding tree has 256 children at every internal node, and a leaf keeps
the number of bits of its last byte that belong to the code.  An internal node
is represented by its array of children, a function of the byte.  The loops of
`huffmanDecode` use natural numbers for `cbits` and `sbits`, which stay below
64, and wrap `cur` at 64 bits, as `uint` does.

The loop over the bits of one byte ends because a leaf takes at least one bit.
`Node.leaf` carries that as the field `pos`, so a tree on which the loop would
hang cannot be built.
-/

namespace Fhttp.Hpack

/-! ## The code tables -/

/-- The Huffman code of every byte. -/
def huffmanCodes : List Nat :=
  [ 0x1ff8, 0x7fffd8, 0xfffffe2, 0xfffffe3, 0xfffffe4, 0xfffffe5, 0xfffffe6, 0xfffffe7,
    0xfffffe8, 0xffffea, 0x3ffffffc, 0xfffffe9, 0xfffffea, 0x3ffffffd, 0xfffffeb, 0xfffffec,
    0xfffffed, 0xfffffee, 0xfffffef, 0xffffff0, 0xffffff1, 0xffffff2, 0x3ffffffe, 0xffffff3,
    0xffffff4, 0xffffff5, 0xffffff6, 0xffffff7, 0xffffff8, 0xffffff9, 0xffffffa, 0xffffffb,
    0x14, 0x3f8, 0x3f9, 0xffa, 0x1ff9, 0x15, 0xf8, 0x7fa,
    0x3fa, 0x3fb, 0xf9, 0x7fb, 0xfa, 0x16, 0x17, 0x18,
    0x0, 0x1, 0x2, 0x19, 0x1a, 0x1b, 0x1c, 0x1d,
    0x1e, 0x1f, 0x5c, 0xfb, 0x7ffc, 0x20, 0xffb, 0x3fc,
    0x1ffa, 0x21, 0x5d, 0x5e, 0x5f, 0x60, 0x61, 0x62,
    0x63, 0x64, 0x65, 0x66, 0x67, 0x68, 0x69, 0x6a,
    0x6b, 0x6c, 0x6d, 0x6e, 0x6f, 0x70, 0x71, 0x72,
    0xfc, 0x73, 0xfd, 0x1ffb, 0x7fff0, 0x1ffc, 0x3ffc, 0x22,
    0x7ffd, 0x3, 0x23, 0x4, 0x24, 0x5, 0x25, 0x26,
    0x27, 0x6, 0x74, 0x75, 0x28, 0x29, 0x2a, 0x7,
    0x2b, 0x76, 0x2c, 0x8, 0x9, 0x2d, 0x77, 0x78,
    0x79, 0x7a, 0x7b, 0x7ffe, 0x7fc, 0x3ffd, 0x1ffd, 0xffffffc,
    0xfffe6, 0x3fffd2, 0xfffe7, 0xfffe8, 0x3fffd3, 0x3fffd4, 0x3fffd5, 0x7fffd9,
    0x3fffd6, 0x7fffda, 0x7fffdb, 0x7fffdc, 0x7fffdd, 0x7fffde, 0xffffeb, 0x7fffdf,
    0xffffec, 0xffffed, 0x3fffd7, 0x7fffe0, 0xffffee, 0x7fffe1, 0x7fffe2, 0x7fffe3,
    0x7fffe4, 0x1fffdc, 0x3fffd8, 0x7fffe5, 0x3fffd9, 0x7fffe6, 0x7fffe7, 0xffffef,
    0x3fffda, 0x1fffdd, 0xfffe9, 0x3fffdb, 0x3fffdc, 0x7fffe8, 0x7fffe9, 0x1fffde,
    0x7fffea, 0x3fffdd, 0x3fffde, 0xfffff0, 0x1fffdf, 0x3fffdf, 0x7fffeb, 0x7fffec,
    0x1fffe0, 0x1fffe1, 0x3fffe0, 0x1fffe2, 0x7fffed, 0x3fffe1, 0x7fffee, 0x7fffef,
    0xfffea, 0x3fffe2, 0x3fffe3, 0x3fffe4, 0x7ffff0, 0x3fffe5, 0x3fffe6, 0x7ffff1,
    0x3ffffe0, 0x3ffffe1, 0xfffeb, 0x7fff1, 0x3fffe7, 0x7ffff2, 0x3fffe8, 0x1ffffec,
    0x3ffffe2, 0x3ffffe3, 0x3ffffe4, 0x7ffffde, 0x7ffffdf, 0x3ffffe5, 0xfffff1, 0x1ffffed,
    0x7fff2, 0x1fffe3, 0x3ffffe6, 0x7ffffe0, 0x7ffffe1, 0x3ffffe7, 0x7ffffe2, 0xfffff2,
    0x1fffe4, 0x1fffe5, 0x3ffffe8, 0x3ffffe9, 0xffffffd, 0x7ffffe3, 0x7ffffe4, 0x7ffffe5,
    0xfffec, 0xfffff3, 0xfffed, 0x1fffe6, 0x3fffe9, 0x1fffe7, 0x1fffe8, 0x7ffff3,
    0x3fffea, 0x3fffeb, 0x1ffffee, 0x1ffffef, 0xfffff4, 0xfffff5, 0x3ffffea, 0x7ffff4,
    0x3ffffeb, 0x7ffffe6, 0x3ffffec, 0x3ffffed, 0x7ffffe7, 0x7ffffe8, 0x7ffffe9, 0x7ffffea,
    0x7ffffeb, 0xffffffe, 0x7ffffec, 0x7ffffed, 0x7ffffee, 0x7ffffef, 0x7fffff0, 0x3ffffee ]

/-- The number of bits of every code. -/
def huffmanCodeLen : List Nat :=
  [ 13, 23, 28, 28, 28, 28, 28, 28, 28, 24, 30, 28, 28, 30, 28, 28,
    28, 28, 28, 28, 28, 28, 30, 28, 28, 28, 28, 28, 28, 28, 28, 28,
    6, 10, 10, 12, 13, 6, 8, 11, 10, 10, 8, 11, 8, 6, 6, 6,
    5, 5, 5, 6, 6, 6, 6, 6, 6, 6, 7, 8, 15, 6, 12, 10,
    13, 6, 7, 7, 7, 7, 7, 7, 7, 7, 7, 7, 7, 7, 7, 7,
    7, 7, 7, 7, 7, 7, 7, 7, 8, 7, 8, 13, 19, 13, 14, 6,
    15, 5, 6, 5, 6, 5, 6, 6, 6, 5, 7, 7, 6, 6, 6, 5,
    6, 7, 6, 5, 5, 6, 7, 7, 7, 7, 7, 15, 11, 14, 13, 28,
    20, 22, 20, 20, 22, 22, 22, 23, 22, 23, 23, 23, 23, 23, 24, 23,
    24, 24, 22, 23, 24, 23, 23, 23, 23, 21, 22, 23, 22, 23, 23, 24,
    22, 21, 20, 22, 22, 23, 23, 21, 23, 22, 22, 24, 21, 22, 23, 23,
    21, 21, 22, 21, 23, 22, 23, 23, 20, 22, 22, 22, 23, 22, 22, 23,
    26, 26, 20, 19, 22, 23, 22, 25, 26, 26, 26, 27, 27, 26, 24, 25,
    19, 21, 26, 27, 27, 26, 27, 24, 21, 21, 26, 26, 28, 27, 27, 27,
    20, 24, 20, 21, 22, 21, 21, 23, 22, 22, 25, 25, 24, 24, 26, 23,
    26, 27, 26, 26, 27, 27, 27, 27, 27, 28, 27, 27, 27, 27, 27, 26 ]

/-- `huffmanCodes[c]`. -/
def huffmanCode (c : UInt8) : Nat := huffmanCodes.getD c.toNat 0

/-- `huffmanCodeLen[c]`. -/
def huffmanLen (c : UInt8) : Nat := huffmanCodeLen.getD c.toNat 0

theorem length_huffmanCodes : huffmanCodes.length = 256 := by decide +kernel

theorem length_huffmanCodeLen : huffmanCodeLen.length = 256 := by decide +kernel

/-- The code and the length of a byte stand at its place in the two tables. -/
theorem huffmanTable_getElem? (c : UInt8) :
    (huffmanCodes.zip huffmanCodeLen)[c.toNat]? = some (huffmanCode c, huffmanLen c) := by
  have hc : c.toNat < huffmanCodes.length := by
    rw [length_huffmanCodes]
    exact c.toNat_lt
  have hl : c.toNat < huffmanCodeLen.length := by
    rw [length_huffmanCodeLen]
    exact c.toNat_lt
  rw [List.getElem?_zip_eq_some]
  refine ⟨?_, ?_⟩
  · rw [huffmanCode, List.getD_eq_getElem?_getD, List.getElem?_eq_getElem hc, Option.getD_some]
  · rw [huffmanLen, List.getD_eq_getElem?_getD, List.getElem?_eq_getElem hl, Option.getD_some]

theorem huffmanTable_mem (c : UInt8) :
    (huffmanCode c, huffmanLen c) ∈ huffmanCodes.zip huffmanCodeLen :=
  List.mem_of_getElem? (huffmanTable_getElem? c)

theorem huffmanLen_pos (c : UInt8) : 0 < huffmanLen c := by
  have hall : ∀ p ∈ huffmanCodes.zip huffmanCodeLen, 0 < p.2 := by decide +kernel
  exact hall _ (huffmanTable_mem c)

/-! ## The encoder -/

/-- `dst[len(dst)-1] |= t`. -/
def orLast (dst : Bytes) (t : UInt8) : Bytes := dst.modify (dst.length - 1) (· ||| t)

/-- The loop of `appendByteToHuffmanCode`: the low `nbits` bits of `code` go into
the last byte of `dst`, of which `rembits` bits are free, and into new bytes. -/
def appendCodeLoop (code : Nat) (dst : Bytes) (rembits nbits : Nat) : Bytes × Nat :=
  if rembits > nbits then
    (orLast dst (UInt8.ofNat (code <<< (rembits - nbits))), rembits - nbits)
  else
    let dst := orLast dst (UInt8.ofNat (code >>> (nbits - rembits)))
    if nbits - rembits = 0 then (dst, 8)
    else appendCodeLoop code (dst ++ [0]) 8 (nbits - rembits)
termination_by 9 * nbits + (8 - rembits)

def appendByteToHuffmanCode (dst : Bytes) (rembits : Nat) (c : UInt8) : Bytes × Nat :=
  appendCodeLoop (huffmanCode c) dst rembits (huffmanLen c)

/-- The loop of `AppendHuffmanString` over the bytes of the string. -/
def appendHuffmanLoop (dst : Bytes) (rembits : Nat) : Bytes → Bytes × Nat
  | [] => (dst, rembits)
  | c :: s =>
    let dst := if rembits = 8 then dst ++ [0] else dst
    let r := appendByteToHuffmanCode dst rembits c
    appendHuffmanLoop r.1 r.2 s

/-- Append `s`, as encoded in Huffman codes, to `dst`.  The last byte is filled
with the first bits of the EOS code, which are ones. -/
def appendHuffmanString (dst : Bytes) (s : Bytes) : Bytes :=
  let r := appendHuffmanLoop dst 8 s
  if r.2 < 8 then orLast r.1 (UInt8.ofNat (0x3fffffff >>> (30 - r.2))) else r.1

/-- The number of bytes that the Huffman code of `s` takes. -/
def huffmanEncodeLength (s : Bytes) : Nat := ((s.map huffmanLen).sum + 7) / 8

/-! ## The decoding tree -/

/-- A node of the decoding tree. -/
inductive Node where
  /-- `codeLen` bits of the last byte led to the symbol `sym`. -/
  | leaf (codeLen : Nat) (sym : UInt8) (pos : 0 < codeLen)
  | internal (children : UInt8 → Option Node)

/-- The children of a new internal node. -/
def noChildren : UInt8 → Option Node := fun _ => none

/-- The children of child `i`, which is made when it is missing.  (No code goes
through a leaf: that would need one code to begin another.) -/
def childOrNew (children : UInt8 → Option Node) (i : UInt8) : UInt8 → Option Node :=
  match children i with
  | some (.internal ch) => ch
  | _ => noChildren

/-- Add the code of `sym` below an internal node.  A code of more than eight
bits goes through the child of its first byte.  The last byte of the code
fills every child that begins with its bits. -/
def addDecoderNode (children : UInt8 → Option Node) (sym : UInt8) (code codeLen : Nat)
    (pos : 0 < codeLen) : UInt8 → Option Node :=
  if h : codeLen > 8 then
    let i := UInt8.ofNat (code >>> (codeLen - 8))
    let cur := childOrNew children i
    Function.update children i
      (some (.internal (addDecoderNode cur sym code (codeLen - 8) (by omega))))
  else
    let shift := 8 - codeLen
    let start := (UInt8.ofNat (code <<< shift)).toNat
    let stop := 1 <<< shift
    fun i =>
      if start ≤ i.toNat ∧ i.toNat < start + stop then some (.leaf codeLen sym pos)
      else children i
termination_by codeLen

/-- Add the codes of a list of symbols. -/
def addDecoderNodes (children : UInt8 → Option Node) (syms : List UInt8) :
    UInt8 → Option Node :=
  syms.foldl
    (fun ch c => addDecoderNode ch c (huffmanCode c) (huffmanLen c) (huffmanLen_pos c)) children

/-- The children of the root, as `buildRootHuffmanNode` makes them: the code of
every byte, in order. -/
@[irreducible] def rootHuffmanNode : UInt8 → Option Node :=
  addDecoderNodes noChildren ((List.range 256).map UInt8.ofNat)

/-! ## The decoder -/

/-- The variables of `huffmanDecode`.  `n` is the current internal node, `cur`
the bit buffer with `cbits` valid low bits, `sbits` the number of bits of the
symbol being decoded and `out` the buffer written so far. -/
structure HuffState where
  n : UInt8 → Option Node
  cur : Nat
  cbits : Nat
  sbits : Nat
  out : Bytes

/-- A symbol was decoded with `codeLen` bits of the bit buffer. -/
def HuffState.emit (st : HuffState) (codeLen : Nat) (sym : UInt8) : HuffState :=
  { st with
    n := rootHuffmanNode
    cbits := st.cbits - codeLen
    sbits := st.cbits - codeLen
    out := st.out ++ [sym] }

/-- Whether one more byte would exceed the length limit.  Zero is no limit. -/
def HuffState.full (maxLen : Int) (st : HuffState) : Prop :=
  maxLen ≠ 0 ∧ (st.out.length : Int) = maxLen

instance (maxLen : Int) (st : HuffState) : Decidable (st.full maxLen) :=
  inferInstanceAs (Decidable (_ ∧ _))

/-- The inner loop: `for cbits >= 8`. -/
def huffmanDecodeByte (maxLen : Int) (st : HuffState) : Except Err HuffState :=
  if st.cbits ≥ 8 then
    match st.n (UInt8.ofNat (st.cur >>> (st.cbits - 8))) with
    | none => .error .errInvalidHuffman
    | some (.leaf codeLen sym _) =>
      if st.full maxLen then .error .errStringLength
      else huffmanDecodeByte maxLen (st.emit codeLen sym)
    | some (.internal ch) => huffmanDecodeByte maxLen { st with n := ch, cbits := st.cbits - 8 }
  else .ok st
termination_by st.cbits
decreasing_by
  · simp only [HuffState.emit]
    omega
  · omega

/-- The outer loop: one byte of the input goes into the bit buffer. -/
def huffmanDecodeBytes (maxLen : Int) : Bytes → HuffState → Except Err HuffState
  | [], st => .ok st
  | b :: v, st =>
    match huffmanDecodeByte maxLen
        { st with
          cur := (st.cur <<< 8 ||| b.toNat) % 2 ^ 64
          cbits := st.cbits + 8
          sbits := st.sbits + 8 } with
    | .error e => .error e
    | .ok st' => huffmanDecodeBytes maxLen v st'

/-- The last loop: `for cbits > 0`, over the bits that are left. -/
def huffmanDecodeRest (maxLen : Int) (st : HuffState) : Except Err HuffState :=
  if st.cbits > 0 then
    match st.n (UInt8.ofNat (st.cur <<< (8 - st.cbits))) with
    | none => .error .errInvalidHuffman
    | some (.internal _) => .ok st
    | some (.leaf codeLen sym _) =>
      if codeLen > st.cbits then .ok st
      else if st.full maxLen then .error .errStringLength
      else huffmanDecodeRest maxLen (st.emit codeLen sym)
  else .ok st
termination_by st.cbits
decreasing_by
  simp only [HuffState.emit]
  omega

/-- Decode `v`.  A limit `maxLen` other than zero bounds the result. -/
def huffmanDecode (maxLen : Int) (v : Bytes) : Except Err Bytes :=
  match huffmanDecodeBytes maxLen v ⟨rootHuffmanNode, 0, 0, 0, []⟩ with
  | .error e => .error e
  | .ok st =>
    match huffmanDecodeRest maxLen st with
    | .error e => .error e
    | .ok st =>
      if st.sbits > 7 then .error .errInvalidHuffman
      else if st.cur &&& (2 ^ st.cbits - 1) ≠ 2 ^ st.cbits - 1 then .error .errInvalidHuffman
      else .ok st.out

end Fhttp.Hpack
