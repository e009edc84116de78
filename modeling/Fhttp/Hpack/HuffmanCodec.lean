import Fhttp.Hpack.HuffmanTree

/-!
# Exactness of the Huffman codec

The encoder writes the code words of a string and fills the last byte with
ones (`bytesBits_appendHuffmanString`).  The decoder accepts exactly the bit
strings of that form (`huffmanDecode_spec`): a decoded string is what was
encoded, and an input that is refused has no such form at all.

The invariant of the decoder, `Reading x π st`, says what the bits `x` read so
far are: the words of the output, then the bytes `π` that led to the current
node of the tree, then the bits that are still in the bit buffer.
-/

namespace Fhttp.Hpack

open Lib.BitString Lib.PrefixCode
open List

/-! ## Padding -/

/-- No code is all ones, so padding with ones is never read as a symbol. -/
theorem unreadable_ones (n : Nat) : huffman.Unreadable (replicate n true) := by
  intro c hc
  have hall : ∀ p ∈ huffmanCodes.zip huffmanCodeLen, p.1 ≠ 2 ^ p.2 - 1 := by decide +kernel
  have hword : bits (huffmanLen c) (huffmanCode c) = replicate (huffmanLen c) true := by
    have htake := prefix_iff_eq_take.mp hc
    have hle := hc.length_le
    rw [huffman_word, length_huffmanWord, length_replicate] at hle
    rw [huffman_word, length_huffmanWord, take_replicate, Nat.min_eq_left hle] at htake
    exact htake
  refine hall _ (huffmanTable_mem c) (bits_inj (huffmanCode_lt c) ?_ ?_)
  · exact Nat.sub_lt (Nat.two_pow_pos _) (by decide)
  · rw [hword, bits_ones]

/-- What the encoder makes of a string, and at most seven bits of padding. -/
def Canonical (x : List Bool) : Prop :=
  ∃ s k, k ≤ 7 ∧ x = huffman.encode s ++ replicate k true

variable {k rembits : Nat} {t : UInt8} {s : Bytes} {answer : Except Err HuffState}

/-- A byte of ones and then zeros is on the way to a symbol. -/
theorem exists_word_of_ones (hk : k ≤ 7) :
    ∃ c, huffmanWord c <+: replicate k true ++ replicate (8 - k) false ∨
      replicate k true ++ replicate (8 - k) false <+: huffmanWord c := by
  have h : ∀ k : Fin 8, ∃ c ∈ ([48, 61, 69, 85, 119, 38, 88, 33] : List UInt8),
      huffmanWord c <+: replicate k.val true ++ replicate (8 - k.val) false ∨
        replicate k.val true ++ replicate (8 - k.val) false <+: huffmanWord c := by
    decide +kernel
  obtain ⟨c, _, hc⟩ := h ⟨k, by omega⟩
  exact ⟨c, hc⟩

/-! ## The encoder -/

theorem orLast_concat (front : Bytes) (b t : UInt8) :
    orLast (front ++ [b]) t = front ++ [b ||| t] := by
  rw [orLast, length_append, length_singleton, Nat.add_sub_cancel]
  induction front with
  | nil => rfl
  | cons a front ih => simpa using ih

variable {y x : List Bool} {r : Nat} {dst v : Bytes} {st st' : HuffState} {maxLen : Int}

/-- Bits that go into the free end of a byte. -/
theorem byteBits_or {b : UInt8} (hr : r ≤ 8) (ht : t.toNat < 2 ^ r)
    (h : byteBits b = y ++ replicate r false) : byteBits (b ||| t) = y ++ bits r t.toNat := by
  have hlen := congrArg length h
  rw [length_byteBits, length_append, length_replicate] at hlen
  rw [byteBits, bits_of_le hr] at h
  obtain ⟨hy, hfree⟩ := append_inj h (by rw [length_bits]; omega)
  have hzero : b.toNat % 2 ^ r = 0 := by
    refine bits_inj (Nat.mod_lt _ (Nat.two_pow_pos r)) (Nat.two_pow_pos r) ?_
    rw [bits_mod (Nat.le_refl r), hfree]
    have := bits_shiftLeft 0 r 0
    rw [Nat.zero_add, bits_zero, nil_append, Nat.zero_shiftLeft] at this
    exact this.symm
  rw [byteBits, UInt8.toNat_or, bits_or hr hzero ht, hy]

/-- Bits that go into the free end of the last byte. -/
theorem bytesBits_orLast (hr : 0 < r) (hr8 : r ≤ 8) (ht : t.toNat < 2 ^ r)
    (h : bytesBits dst = y ++ replicate r false) :
    bytesBits (orLast dst t) = y ++ bits r t.toNat := by
  have hlen := congrArg length h
  rw [length_bytesBits, length_append, length_replicate] at hlen
  rcases eq_nil_or_concat' dst with rfl | ⟨front, b, rfl⟩
  · rw [length_nil] at hlen
    omega
  rw [bytesBits_append, bytesBits_cons, bytesBits_nil, append_nil,
    append_eq_append_iff] at h
  have hlast : ∃ z, y = bytesBits front ++ z ∧ byteBits b = z ++ replicate r false := by
    rcases h with ⟨z, hy, hb⟩ | ⟨z, hf, hrep⟩
    · exact ⟨z, hy, hb⟩
    · have hz : z = [] := by
        have := congrArg length hrep
        rw [length_replicate, length_append, length_byteBits] at this
        exact eq_nil_of_length_eq_zero (by omega)
      subst hz
      exact ⟨[], by rw [hf, append_nil, append_nil], hrep.symm⟩
  obtain ⟨z, rfl, hb⟩ := hlast
  rw [orLast_concat, bytesBits_append, bytesBits_cons, bytesBits_nil, append_nil,
    byteBits_or hr8 ht hb, append_assoc]

theorem toNat_ofNat_lt {x : Nat} (h : x < 2 ^ r ∨ r = 8) : (UInt8.ofNat x).toNat < 2 ^ r := by
  rcases h with hx | rfl
  · exact Nat.lt_of_le_of_lt (Nat.mod_le _ _) hx
  · exact UInt8.toNat_lt _

/-- The bits of the last byte that the writer has not used: eight stands for
none, the next byte is not made yet. -/
def freeBits (rembits : Nat) : Nat := if rembits = 8 then 0 else rembits

/-- The loop of `appendByteToHuffmanCode` writes the low `nbits` bits of the code. -/
theorem appendCodeLoop_spec {code : Nat} {nbits : Nat} (hr : 0 < rembits) (hr8 : rembits ≤ 8)
    (hcode : code < 2 ^ nbits ∨ rembits = 8) (hn : 0 < nbits)
    (h : bytesBits dst = y ++ replicate rembits false) :
    (0 < (appendCodeLoop code dst rembits nbits).2 ∧
      (appendCodeLoop code dst rembits nbits).2 ≤ 8) ∧
    bytesBits (appendCodeLoop code dst rembits nbits).1 = y ++ bits nbits code ++
      replicate (freeBits (appendCodeLoop code dst rembits nbits).2) false := by
  induction nbits using Nat.strongRecOn generalizing dst rembits y with
  | ind nbits ih =>
    rw [appendCodeLoop]
    by_cases hlt : rembits > nbits
    · rw [if_pos hlt]
      have ht : (UInt8.ofNat (code <<< (rembits - nbits))).toNat < 2 ^ rembits := by
        refine toNat_ofNat_lt (hcode.imp_left fun hlow => ?_)
        calc code <<< (rembits - nbits)
          _ = code * 2 ^ (rembits - nbits) := Nat.shiftLeft_eq _ _
          _ < 2 ^ nbits * 2 ^ (rembits - nbits) :=
            Nat.mul_lt_mul_of_pos_right hlow (Nat.two_pow_pos _)
          _ = 2 ^ rembits := by rw [← Nat.pow_add, Nat.add_sub_cancel' (by omega)]
      refine ⟨⟨by omega, by omega⟩, ?_⟩
      rw [bytesBits_orLast hr hr8 ht h, UInt8.toNat_ofNat', bits_mod hr8, freeBits,
        if_neg (by omega), append_assoc, ← bits_shiftLeft, Nat.add_sub_cancel' (by omega)]
    · rw [if_neg hlt]
      have ht : (UInt8.ofNat (code >>> (nbits - rembits))).toNat < 2 ^ rembits := by
        refine toNat_ofNat_lt (hcode.imp_left fun hlow => ?_)
        rw [Nat.shiftRight_eq_div_pow]
        apply Nat.div_lt_of_lt_mul
        rwa [← Nat.pow_add, Nat.sub_add_cancel (by omega)]
      have hfill : bytesBits (orLast dst (UInt8.ofNat (code >>> (nbits - rembits)))) =
          y ++ bits rembits (code >>> (nbits - rembits)) := by
        rw [bytesBits_orLast hr hr8 ht h, UInt8.toNat_ofNat', bits_mod hr8]
      have hcut : bits nbits code =
          bits rembits (code >>> (nbits - rembits)) ++ bits (nbits - rembits) code := by
        rw [← bits_add, Nat.add_sub_cancel' (by omega)]
      by_cases hend : nbits - rembits = 0
      · simp only [hend, if_true] at hfill hcut ⊢
        refine ⟨⟨by decide, by decide⟩, ?_⟩
        rw [hfill, hcut]
        simp [freeBits]
      rw [if_neg hend]
      have hroom : bytesBits (orLast dst (UInt8.ofNat (code >>> (nbits - rembits))) ++ [0]) =
          y ++ bits rembits (code >>> (nbits - rembits)) ++ replicate 8 false := by
        rw [bytesBits_append, hfill]
        rfl
      have hnext := ih (nbits - rembits) (by omega) (by decide) (Nat.le_refl 8) (.inr rfl)
        (by omega) hroom
      refine ⟨hnext.1, ?_⟩
      rw [hnext.2, hcut]
      simp only [append_assoc]

/-- The loop over the string writes the words of its bytes. -/
theorem appendHuffmanLoop_spec (s : Bytes) (hr : 0 < rembits) (hr8 : rembits ≤ 8)
    (h : bytesBits dst = y ++ replicate (freeBits rembits) false) :
    (0 < (appendHuffmanLoop dst rembits s).2 ∧ (appendHuffmanLoop dst rembits s).2 ≤ 8) ∧
    bytesBits (appendHuffmanLoop dst rembits s).1 = y ++ huffman.encode s ++
      replicate (freeBits (appendHuffmanLoop dst rembits s).2) false := by
  induction s generalizing dst rembits y with
  | nil => exact ⟨⟨hr, hr8⟩, by simpa [appendHuffmanLoop] using h⟩
  | cons c s ih =>
    have hroom : bytesBits (if rembits = 8 then dst ++ [0] else dst) =
        y ++ replicate rembits false := by
      by_cases hfull : rembits = 8
      · subst hfull
        have hzero : bytesBits [0] = replicate 8 false := rfl
        rw [if_pos rfl, bytesBits_append, h, hzero]
        simp [freeBits]
      · rw [if_neg hfull, h, freeBits, if_neg hfull]
    obtain ⟨⟨hpos, hle⟩, hbits⟩ := appendCodeLoop_spec hr hr8 (.inl (huffmanCode_lt c))
      (huffmanLen_pos c) hroom
    have hrest := ih hpos hle hbits
    refine ⟨hrest.1, ?_⟩
    rw [appendHuffmanLoop, BitCode.encode_cons, huffman_word, huffmanWord, ← append_assoc]
    exact hrest.2

/-- The encoder writes the words of the string behind `dst`, and ones to the end
of the last byte. -/
theorem bytesBits_appendHuffmanString (dst s : Bytes) :
    ∃ k, k ≤ 7 ∧ bytesBits (appendHuffmanString dst s) =
      bytesBits dst ++ (huffman.encode s ++ replicate k true) := by
  have hstart : bytesBits dst = bytesBits dst ++ replicate (freeBits 8) false :=
    (append_nil _).symm
  obtain ⟨⟨hpos, hle⟩, hbits⟩ := appendHuffmanLoop_spec s (by decide) (Nat.le_refl 8) hstart
  unfold appendHuffmanString
  by_cases hfree : (appendHuffmanLoop dst 8 s).2 < 8
  · simp only [if_pos hfree]
    generalize (appendHuffmanLoop dst 8 s).2 = r at hpos hle hbits hfree ⊢
    rw [freeBits, if_neg (by omega)] at hbits
    have hones : 0x3fffffff >>> (30 - r) = 2 ^ r - 1 := by
      have hall : ∀ r : Fin 9, 0x3fffffff >>> (30 - r.val) = 2 ^ r.val - 1 := by decide
      exact hall ⟨r, by omega⟩
    have hlow : 2 ^ r - 1 < 2 ^ r := Nat.sub_lt (Nat.two_pow_pos r) (by decide)
    refine ⟨r, by omega, ?_⟩
    rw [hones, bytesBits_orLast hpos hle (toNat_ofNat_lt (.inl hlow)) hbits,
      UInt8.toNat_ofNat', bits_mod hle, bits_ones, append_assoc]
  · simp only [if_neg hfree]
    refine ⟨0, by decide, ?_⟩
    rw [hbits, freeBits, if_pos (by omega), append_assoc]
    rfl

theorem length_encode (s : Bytes) : (huffman.encode s).length = (s.map huffmanLen).sum := by
  induction s with
  | nil => rfl
  | cons c s ih => simp [ih]

/-- `HuffmanEncodeLength` is the length of the encoding. -/
theorem length_appendHuffmanString (s : Bytes) :
    (appendHuffmanString [] s).length = huffmanEncodeLength s := by
  obtain ⟨k, hk, hbits⟩ := bytesBits_appendHuffmanString [] s
  rw [bytesBits_nil, nil_append] at hbits
  have hlen := congrArg length hbits
  rw [length_bytesBits, length_append, length_replicate, length_encode] at hlen
  rw [huffmanEncodeLength]
  omega

/-- Bytes whose bits are the words of a string and padding, behind the same
front, are the same bytes. -/
theorem eq_of_padding {v' y : Bytes} {k' : Nat} (hk : k ≤ 7) (hk' : k' ≤ 7)
    (hv : bytesBits v = bytesBits y ++ (x ++ replicate k true))
    (hv' : bytesBits v' = bytesBits y ++ (x ++ replicate k' true)) : v = v' := by
  have hlen := congrArg length hv
  have hlen' := congrArg length hv'
  simp only [length_bytesBits, length_append, length_replicate] at hlen hlen'
  have hkk : k = k' := by omega
  subst hkk
  exact bytesBits_inj (hv.trans hv'.symm)

/-- The bytes before the string do not matter. -/
theorem appendHuffmanString_eq (dst s : Bytes) :
    appendHuffmanString dst s = dst ++ appendHuffmanString [] s := by
  obtain ⟨k, hk, hbits⟩ := bytesBits_appendHuffmanString dst s
  obtain ⟨k', hk', hbits'⟩ := bytesBits_appendHuffmanString [] s
  refine eq_of_padding hk hk' hbits ?_
  rw [bytesBits_append, hbits', bytesBits_nil, nil_append]

/-- The padding is determined by the words before it. -/
theorem eq_appendHuffmanString_iff (v s : Bytes) :
    v = appendHuffmanString [] s ↔
      ∃ k, k ≤ 7 ∧ bytesBits v = huffman.encode s ++ replicate k true := by
  obtain ⟨k', hk', hs⟩ := bytesBits_appendHuffmanString [] s
  constructor
  · intro h
    rw [h]
    exact ⟨k', hk', hs⟩
  · intro h
    obtain ⟨k, hk, hv⟩ := h
    exact eq_of_padding (y := []) hk hk' hv hs

/-! ## The decoder -/

/-- No input that goes on from `x` is the encoding of a string. -/
def Dead (x : List Bool) : Prop := ∀ more, ¬ Canonical (x ++ more)

theorem Dead.append (h : Dead x) (y : List Bool) : Dead (x ++ y) := by
  intro more hc
  rw [append_assoc] at hc
  exact h _ hc

theorem Dead.not_canonical (h : Dead x) : ¬ Canonical x := by
  have := h []
  rwa [append_nil] at this

/-- The decoder in state `st` has read the bits `x`, and the last bytes `π` of
them led to the current node. -/
structure Reading (x : List Bool) (π : Bytes) (st : HuffState) : Prop where
  bits_eq : x = huffman.encode st.out ++ (bytesBits π ++ bits st.cbits st.cur)
  sbits_eq : st.sbits = 8 * π.length + st.cbits
  tree : Tree allSymbols π st.n

namespace Reading

variable {x : List Bool} {π : Bytes} {st : HuffState}

/-- One more byte of input. -/
theorem push (h : Reading x π st) (hc : st.cbits < 8) (b : UInt8) :
    Reading (x ++ byteBits b) π
      { st with
        cur := (st.cur <<< 8 ||| b.toNat) % 2 ^ 64
        cbits := st.cbits + 8
        sbits := st.sbits + 8 } where
  bits_eq := by
    have hzero : st.cur <<< 8 % 2 ^ 8 = 0 := by
      rw [Nat.shiftLeft_eq, Nat.mul_mod_left]
    have hbits : bits (st.cbits + 8) ((st.cur <<< 8 ||| b.toNat) % 2 ^ 64) =
        bits st.cbits st.cur ++ byteBits b := by
      rw [bits_mod (by omega), bits_or (Nat.le_add_left 8 _) hzero b.toNat_lt,
        Nat.shiftLeft_shiftRight, Nat.add_sub_cancel, byteBits]
    simp only [hbits, h.bits_eq, append_assoc]
  sbits_eq := by
    simp only [h.sbits_eq, Nat.add_assoc]
  tree := h.tree

variable {b : UInt8}

section

variable (h : Reading x π st)

include h

/-- A leaf ends a word, and the decoder is at the root again. -/
theorem emit {k : Nat} {sym : UInt8} {pos : 0 < k} (hb : st.n b = some (.leaf k sym pos))
    (hk : k ≤ st.cbits) (hbits : (byteBits b).take k = (bits st.cbits st.cur).take k) :
    Reading x [] (st.emit k sym) where
  bits_eq := by
    obtain ⟨_, _, hword⟩ := h.tree.leaf hb
    have hcut : bits st.cbits st.cur =
        (byteBits b).take k ++ bits (st.cbits - k) st.cur := by
      rw [hbits, ← drop_bits hk, take_append_drop]
    simp only [HuffState.emit, BitCode.encode_append, BitCode.encode_cons, BitCode.encode_nil,
      huffman_word, hword, bytesBits_nil, append_nil, nil_append]
    rw [h.bits_eq, hcut]
    simp only [append_assoc]
  sbits_eq := by
    rw [length_nil, Nat.mul_zero, Nat.zero_add]
    rfl
  tree := by
    exact tree_rootHuffmanNode

/-- A node with children takes the byte that led to it. -/
theorem descend {ch : UInt8 → Option Node} (hb : st.n b = some (.internal ch)) (hc : 8 ≤ st.cbits)
    (hbits : byteBits b = (bits st.cbits st.cur).take 8) :
    Reading x (π ++ [b]) { st with n := ch, cbits := st.cbits - 8 } where
  bits_eq := by
    have hcut : bits st.cbits st.cur = byteBits b ++ bits (st.cbits - 8) st.cur := by
      rw [hbits, ← drop_bits hc, take_append_drop]
    rw [h.bits_eq, hcut]
    simp
  sbits_eq := by
    simp only [h.sbits_eq, length_append, length_singleton]
    omega
  tree := h.tree.child hb

/-- When the input is an encoding, the bits behind the output are words of the
encoding and the padding. -/
theorem remaining {more : List Bool} (hc : Canonical (x ++ more)) :
    ∃ t k, k ≤ 7 ∧ bytesBits π ++ (bits st.cbits st.cur ++ more) =
      huffman.encode t ++ replicate k true := by
  obtain ⟨s, k, hk, hx⟩ := hc
  rw [h.bits_eq, append_assoc, append_assoc] at hx
  obtain ⟨t, _, ht⟩ := huffman.encode_append_cancel (unreadable_ones k) hx
  exact ⟨t, k, hk, ht⟩

/-- A missing child under eight bits of input is an error. -/
theorem dead (hb : st.n b = none) (hbits : byteBits b = (bits st.cbits st.cur).take 8) :
    Dead x := by
  intro more hcan
  obtain ⟨t, k, hk, ht⟩ := h.remaining hcan
  have hpath : bytesBits (π ++ [b]) <+: huffman.encode t ++ replicate k true := by
    rw [← ht, bytesBits_append, prefix_append_right_inj, bytesBits_cons, bytesBits_nil,
      append_nil, hbits]
    refine List.IsPrefix.trans ?_ (prefix_append _ _)
    exact take_prefix _ _
  cases t with
  | nil =>
    have hlen := hpath.length_le
    simp at hlen
    omega
  | cons c t =>
    rw [BitCode.encode_cons, append_assoc] at hpath
    have hmiss := h.tree.missing hb (mem_allSymbols c)
    rcases prefix_or_prefix_of_prefix hpath (prefix_append _ _) with hp | hp
    · exact hmiss.2 hp
    · exact hmiss.1 hp

end

end Reading

/-- The answer of a loop that has read the bits `x`.  An error is either the
length limit, or the input is wrong. -/
def Refused (maxLen : Int) (wrong : Prop) (e : Err) : Prop :=
  (e = .errInvalidHuffman ∧ wrong) ∨ (e = .errStringLength ∧ maxLen ≠ 0)

section

variable (maxLen : Int) {x : List Bool} {π : Bytes} {st : HuffState}

/-- The inner loop. -/
theorem huffmanDecodeByte_spec (h : Reading x π st) :
    match huffmanDecodeByte maxLen st with
    | .ok st' => st'.cbits < 8 ∧ ∃ π', Reading x π' st'
    | .error e => Refused maxLen (Dead x) e := by
  induction hn : st.cbits using Nat.strongRecOn generalizing π st with
  | ind n ih =>
    rw [huffmanDecodeByte]
    by_cases hc : st.cbits ≥ 8
    swap
    · rw [if_neg hc]
      exact ⟨by omega, π, h⟩
    rw [if_pos hc]
    generalize hb : UInt8.ofNat (st.cur >>> (st.cbits - 8)) = b
    have hbits : byteBits b = (bits st.cbits st.cur).take 8 := by
      rw [take_bits hc, ← hb, byteBits_ofNat]
    cases hnode : st.n b with
    | none => exact .inl ⟨rfl, h.dead hnode hbits⟩
    | some node =>
      cases node with
      | internal ch => exact ih _ (by simp only; omega) (h.descend hnode hc hbits) rfl
      | leaf k sym pos =>
        obtain ⟨hk, _, _⟩ := h.tree.leaf hnode
        by_cases hfull : st.full maxLen
        · simp only [if_pos hfull]
          exact .inr ⟨rfl, hfull.1⟩
        · simp only [if_neg hfull]
          have htake : (byteBits b).take k = (bits st.cbits st.cur).take k := by
            rw [hbits, take_take, Nat.min_eq_left hk]
          exact ih _ (by simp only [HuffState.emit]; omega)
            (h.emit hnode (by omega) htake) rfl

/-- The outer loop. -/
theorem huffmanDecodeBytes_spec (v : Bytes) (h : Reading x π st) (hc : st.cbits < 8) :
    match huffmanDecodeBytes maxLen v st with
    | .ok st' => st'.cbits < 8 ∧ ∃ π', Reading (x ++ bytesBits v) π' st'
    | .error e => Refused maxLen (Dead (x ++ bytesBits v)) e := by
  induction v generalizing x π st with
  | nil =>
    rw [huffmanDecodeBytes, bytesBits_nil, append_nil]
    exact ⟨hc, π, h⟩
  | cons b v ih =>
    have hbyte := huffmanDecodeByte_spec maxLen (h.push hc b)
    rw [huffmanDecodeBytes, bytesBits_cons, ← append_assoc]
    split at hbyte
    · rename_i st' heq
      obtain ⟨hc', π', h'⟩ := hbyte
      rw [heq]
      exact ih h' hc'
    · rename_i e heq
      rw [heq]
      exact hbyte.imp_left fun hdead => ⟨hdead.1, hdead.2.append _⟩

end

/-- At the end of an encoding there is a whole word in the bit buffer, or only
padding. -/
theorem Reading.word_or_padding {π : Bytes} (h : Reading x π st) (hcan : Canonical x) :
    (∃ c, huffmanWord c <+: bytesBits π ++ bits st.cbits st.cur) ∨
      (π = [] ∧ bits st.cbits st.cur = replicate st.cbits true) := by
  rw [← append_nil x] at hcan
  obtain ⟨t, k, hk, ht⟩ := h.remaining hcan
  rw [append_nil] at ht
  cases t with
  | cons c t =>
    refine .inl ⟨c, ?_⟩
    rw [ht, BitCode.encode_cons, append_assoc]
    exact prefix_append _ _
  | nil =>
    rw [BitCode.encode_nil, nil_append] at ht
    have hlen := congrArg length ht
    rw [length_append, length_bytesBits, length_bits, length_replicate] at hlen
    have hπ : π = [] := eq_nil_of_length_eq_zero (by omega)
    subst hπ
    rw [bytesBits_nil, nil_append] at ht
    refine .inr ⟨rfl, ?_⟩
    rw [ht]
    congr 1
    omega

/-- The last loop.  When the input is an encoding, it stops in the padding. -/
theorem huffmanDecodeRest_spec (maxLen : Int) {x : List Bool} {π : Bytes} {st : HuffState}
    (h : Reading x π st) (hc : st.cbits < 8) :
    match huffmanDecodeRest maxLen st with
    | .ok st' => ∃ π', Reading x π' st' ∧
        (Canonical x → π' = [] ∧ st'.cbits < 8 ∧
          bits st'.cbits st'.cur = replicate st'.cbits true)
    | .error e => Refused maxLen (¬ Canonical x) e := by
  induction hn : st.cbits using Nat.strongRecOn generalizing π st with
  | ind n ih =>
    rw [huffmanDecodeRest]
    by_cases hpos : st.cbits > 0
    swap
    · rw [if_neg hpos]
      refine ⟨π, h, fun hcan => ?_⟩
      rcases h.word_or_padding hcan with ⟨c, hw⟩ | ⟨hπ, hones⟩
      · rw [Nat.eq_zero_of_not_pos hpos, bits_zero, append_nil] at hw
        exact absurd hw (h.tree.unread c)
      · exact ⟨hπ, hc, hones⟩
    rw [if_pos hpos]
    generalize hb : UInt8.ofNat (st.cur <<< (8 - st.cbits)) = b
    have hbits : byteBits b = bits st.cbits st.cur ++ replicate (8 - st.cbits) false := by
      rw [← hb, byteBits_ofNat, ← bits_shiftLeft, Nat.add_sub_cancel' (by omega)]
    have hpath : bytesBits π ++ bits st.cbits st.cur <+: bytesBits (π ++ [b]) := by
      rw [bytesBits_append, prefix_append_right_inj, bytesBits_cons, bytesBits_nil,
        append_nil, hbits]
      exact prefix_append _ _
    cases hnode : st.n b with
    | none =>
      refine .inl ⟨rfl, fun hcan => ?_⟩
      rcases h.word_or_padding hcan with ⟨c, hw⟩ | ⟨rfl, hones⟩
      · exact (h.tree.missing hnode (mem_allSymbols c)).1 (hw.trans hpath)
      · obtain ⟨c, hword⟩ := exists_word_of_ones (k := st.cbits) (by omega)
        have hmiss := h.tree.missing hnode (mem_allSymbols c)
        rw [nil_append, bytesBits_cons, bytesBits_nil, append_nil, hbits, hones] at hmiss
        exact hword.elim hmiss.1 hmiss.2
    | some node =>
      cases node with
      | internal ch =>
        refine ⟨π, h, fun hcan => ?_⟩
        rcases h.word_or_padding hcan with ⟨c, hw⟩ | ⟨hπ, hones⟩
        · exact absurd (hw.trans hpath) ((h.tree.child hnode).unread c)
        · exact ⟨hπ, hc, hones⟩
      | leaf k sym pos =>
        obtain ⟨_, _, hsym⟩ := h.tree.leaf hnode
        by_cases hlong : k > st.cbits
        · simp only [if_pos hlong]
          refine ⟨π, h, fun hcan => ?_⟩
          rcases h.word_or_padding hcan with ⟨c, hw⟩ | ⟨hπ, hones⟩
          · have hlen := hw.length_le
            have hlen' := congrArg length hsym
            have hbegin : huffmanWord c <+: huffmanWord sym := by
              refine hw.trans ?_
              rw [hsym, prefix_append_right_inj, prefix_take_iff, hbits, length_bits]
              exact ⟨prefix_append _ _, by omega⟩
            rw [huffmanWord_inj_of_begins c sym hbegin] at hlen
            simp only [length_append, length_take, length_byteBits, length_bits] at *
            omega
          · exact ⟨hπ, hc, hones⟩
        · simp only [if_neg hlong]
          by_cases hfull : st.full maxLen
          · simp only [if_pos hfull]
            exact .inr ⟨rfl, hfull.1⟩
          · simp only [if_neg hfull]
            have htake : (byteBits b).take k = (bits st.cbits st.cur).take k := by
              rw [hbits, take_append_of_le_length (by rw [length_bits]; omega)]
            exact ih _ (by simp only [HuffState.emit]; omega)
              (h.emit hnode (by omega) htake) (by simp only [HuffState.emit]; omega) rfl

/-- What the decoder accepts and what it refuses. -/
theorem huffmanDecode_spec (maxLen : Int) (v : Bytes) :
    match huffmanDecode maxLen v with
    | .ok s => v = appendHuffmanString [] s
    | .error e => Refused maxLen (¬ Canonical (bytesBits v)) e := by
  have hstart : Reading [] [] ⟨rootHuffmanNode, 0, 0, 0, []⟩ := ⟨rfl, rfl, tree_rootHuffmanNode⟩
  have hbytes := huffmanDecodeBytes_spec maxLen v hstart (by decide)
  rw [nil_append] at hbytes
  rw [huffmanDecode]
  split at hbytes
  · rename_i st heq
    obtain ⟨hc, π, h⟩ := hbytes
    have hrest := huffmanDecodeRest_spec maxLen h hc
    simp only [heq]
    split at hrest
    · rename_i st' heq'
      obtain ⟨π', h', hcan⟩ := hrest
      simp only [heq']
      have hsbits := h'.sbits_eq
      by_cases hs : st'.sbits > 7
      · rw [if_pos hs]
        refine .inl ⟨rfl, fun hx => ?_⟩
        obtain ⟨rfl, hc', _⟩ := hcan hx
        rw [length_nil] at hsbits
        omega
      · rw [if_neg hs]
        by_cases hmask : st'.cur &&& (2 ^ st'.cbits - 1) = 2 ^ st'.cbits - 1
        · rw [if_neg (not_not_intro hmask)]
          have hπ : π' = [] := eq_nil_of_length_eq_zero (by omega)
          subst hπ
          refine (eq_appendHuffmanString_iff v st'.out).mpr ⟨st'.cbits, by omega, ?_⟩
          rw [h'.bits_eq, (bits_eq_ones_iff _ _).mpr hmask, bytesBits_nil, nil_append]
        · rw [if_pos hmask]
          refine .inl ⟨rfl, fun hx => hmask ?_⟩
          exact (bits_eq_ones_iff _ _).mp (hcan hx).2.2
    · rename_i e heq'
      simp only [heq']
      exact hrest
  · rename_i e heq
    simp only [heq]
    exact hbytes.imp_left fun hdead => ⟨hdead.1, hdead.2.not_canonical⟩

/-- Without a limit there is one error. -/
theorem huffmanDecode_error {e : Err} (h : huffmanDecode 0 v = .error e) :
    e = .errInvalidHuffman ∧ ¬ Canonical (bytesBits v) := by
  have hspec := huffmanDecode_spec 0 v
  rw [h] at hspec
  exact hspec.resolve_right fun hlimit => hlimit.2 rfl

/-- Decoding inverts the encoding, and nothing else decodes. -/
theorem huffmanDecode_eq_ok_iff (v s : Bytes) :
    huffmanDecode 0 v = .ok s ↔ v = appendHuffmanString [] s := by
  constructor
  · intro h
    have hspec := huffmanDecode_spec 0 v
    rw [h] at hspec
    exact hspec
  · intro h
    obtain ⟨k, hk, hv⟩ := (eq_appendHuffmanString_iff v s).mp h
    cases hd : huffmanDecode 0 v with
    | error e => exact absurd ⟨s, k, hk, hv⟩ (huffmanDecode_error hd).2
    | ok s' =>
      have hspec := huffmanDecode_spec 0 v
      rw [hd] at hspec
      obtain ⟨k', hk', hv'⟩ := (eq_appendHuffmanString_iff v s').mp hspec
      have hs := huffman.encode_append_inj (unreadable_ones k') (unreadable_ones k)
        (hv'.symm.trans hv)
      rw [hs.1]

/-- The code of EOS, which the encoder uses for its padding only. -/
def eosWord : List Bool := bits 30 0x3fffffff

theorem eosWord_eq : eosWord = replicate 30 true := by decide

/-- No word begins an input that goes on with EOS. -/
theorem unreadable_eosWord_append (more : List Bool) : huffman.Unreadable (eosWord ++ more) := by
  intro c hc
  have hall : ∀ p ∈ huffmanCodes.zip huffmanCodeLen, p.2 ≤ 30 := by decide +kernel
  refine unreadable_ones 30 c ?_
  refine prefix_of_prefix_length_le hc (prefix_append _ _) ?_
  rw [huffman_word, length_huffmanWord, length_replicate]
  exact hall _ (huffmanTable_mem c)

/-- A tail that is neither words nor at most seven ones is refused. -/
theorem huffmanDecode_bad_tail {p : List Bool} (hv : bytesBits v = huffman.encode s ++ p)
    (hun : huffman.Unreadable p) (hbad : 7 < p.length ∨ false ∈ p) :
    huffmanDecode 0 v = .error .errInvalidHuffman := by
  cases hd : huffmanDecode 0 v with
  | error e => rw [(huffmanDecode_error hd).1]
  | ok s' =>
    obtain ⟨k, hk, hv'⟩ :=
      (eq_appendHuffmanString_iff v s').mp ((huffmanDecode_eq_ok_iff v s').mp hd)
    have hp := (huffman.encode_append_inj hun (unreadable_ones k) (hv.symm.trans hv')).2
    subst hp
    rcases hbad with hlen | hmem
    · rw [length_replicate] at hlen
      omega
    · exact absurd (eq_of_mem_replicate hmem) (by decide)

/-- The Huffman codec is exact.  Decoding without a limit gives `s` for the
encoding of `s` and for nothing else, the encoding has the length that
`HuffmanEncodeLength` computes, and padding of more than seven bits, padding
with a zero in it and EOS are refused after any string. -/
theorem huffman_exact :
    (∀ v s, huffmanDecode 0 v = .ok s ↔ v = appendHuffmanString [] s) ∧
    (∀ s, (appendHuffmanString [] s).length = huffmanEncodeLength s) ∧
    (∀ v s p, bytesBits v = huffman.encode s ++ p → huffman.Unreadable p →
      (7 < p.length ∨ false ∈ p) → huffmanDecode 0 v = .error .errInvalidHuffman) ∧
    (∀ v s more, bytesBits v = huffman.encode s ++ (eosWord ++ more) →
      huffmanDecode 0 v = .error .errInvalidHuffman) := by
  refine ⟨huffmanDecode_eq_ok_iff, length_appendHuffmanString, ?_, ?_⟩
  · intro v s p hv hun hbad
    exact huffmanDecode_bad_tail hv hun hbad
  · intro v s more hv
    refine huffmanDecode_bad_tail hv (unreadable_eosWord_append more) (Or.inl ?_)
    rw [eosWord_eq, length_append, length_replicate]
    omega

/-- The string `0` in its code of five bits.  With three ones it decodes; with
a byte of padding more, with a zero in the padding, or before EOS, it is
refused. -/
theorem huffman_exact_zero :
    huffmanDecode 0 [0x07] = .ok [48] ∧
    huffmanDecode 0 [0x07, 0xff] = .error .errInvalidHuffman ∧
    huffmanDecode 0 [0x06] = .error .errInvalidHuffman ∧
    huffmanDecode 0 [0x07, 0xff, 0xff, 0xff, 0xff] = .error .errInvalidHuffman := by
  refine ⟨?_, ?_, ?_, ?_⟩
  · exact (huffman_exact.1 [0x07] [48]).mpr (by decide +kernel)
  · exact huffman_exact.2.2.1 _ [48] (replicate 11 true) (by decide +kernel)
      (unreadable_ones 11) (by decide)
  · have hall : ∀ p ∈ huffmanCodes.zip huffmanCodeLen, 3 < p.2 := by decide +kernel
    refine huffman_exact.2.2.1 _ [48] [true, true, false] (by decide +kernel) ?_ (by decide)
    intro c hc
    have hlen := hc.length_le
    exact absurd (hall _ (huffmanTable_mem c)) (by simpa using hlen)
  · exact huffman_exact.2.2.2 _ [48] (replicate 5 true) (by decide +kernel)

/-! ## Limits -/

/-- The answer of a loop that ends in `st'` without a limit, under a limit: the same, if the
limit is not below the output. -/
def Within (maxLen : Int) (st st' : HuffState) (answer : Except Err HuffState) : Prop :=
  st.out.length ≤ st'.out.length ∧ ((st'.out.length : Int) ≤ maxLen → answer = .ok st')

theorem within_self (h : answer = .ok st) : Within maxLen st st answer :=
  ⟨Nat.le_refl _, fun _ => h⟩

/-- A loop that goes on with one more symbol. -/
theorem Within.emit {sym : UInt8} {answer' : Except Err HuffState}
    (h : Within maxLen (st.emit k sym) st' answer) (hnext : ¬ st.full maxLen → answer' = answer) :
    Within maxLen st st' answer' := by
  obtain ⟨hout, hlimit⟩ := h
  simp only [HuffState.emit, length_append, length_singleton] at hout
  refine ⟨by omega, fun hle => (hnext fun hfull => ?_).trans (hlimit hle)⟩
  have := hfull.2
  omega

theorem huffmanDecodeByte_limit (h : huffmanDecodeByte 0 st = .ok st') :
    Within maxLen st st' (huffmanDecodeByte maxLen st) := by
  fun_induction huffmanDecodeByte 0 st with
  | case1 => cases h
  | case2 st hc codeLen sym pos hnode hfull => cases h
  | case3 st hc codeLen sym pos hnode hfull ih =>
    refine (ih h).emit fun hnot => ?_
    rw [huffmanDecodeByte, if_pos hc, hnode]
    exact if_neg hnot
  | case4 st hc ch hnode ih =>
    rw [huffmanDecodeByte, if_pos hc, hnode]
    exact ih h
  | case5 st hc =>
    cases h
    exact within_self (by rw [huffmanDecodeByte, if_neg hc])

theorem huffmanDecodeBytes_limit (h : huffmanDecodeBytes 0 v st = .ok st') :
    Within maxLen st st' (huffmanDecodeBytes maxLen v st) := by
  induction v generalizing st with
  | nil =>
    cases h
    exact within_self rfl
  | cons b v ih =>
    rw [huffmanDecodeBytes] at h
    split at h
    · cases h
    · rename_i st₁ hbyte
      obtain ⟨hout, hlimit⟩ := huffmanDecodeByte_limit hbyte
      obtain ⟨hout', hlimit'⟩ := ih h
      refine ⟨Nat.le_trans hout hout', fun hle => ?_⟩
      rw [huffmanDecodeBytes, hlimit (by omega)]
      exact hlimit' hle

theorem huffmanDecodeRest_limit (h : huffmanDecodeRest 0 st = .ok st') :
    Within maxLen st st' (huffmanDecodeRest maxLen st) := by
  fun_induction huffmanDecodeRest 0 st with
  | case1 => cases h
  | case2 st hc ch hnode =>
    cases h
    exact within_self (by rw [huffmanDecodeRest, if_pos hc, hnode])
  | case3 st hc codeLen sym pos hnode hshort =>
    cases h
    refine within_self ?_
    rw [huffmanDecodeRest, if_pos hc, hnode]
    exact if_pos hshort
  | case4 st hc codeLen sym pos hnode hshort hfull => cases h
  | case5 st hc codeLen sym pos hnode hshort hfull ih =>
    refine (ih h).emit fun hnot => ?_
    rw [huffmanDecodeRest, if_pos hc, hnode]
    exact (if_neg hshort).trans (if_neg hnot)
  | case6 st hc =>
    cases h
    exact within_self (by rw [huffmanDecodeRest, if_neg hc])

/-- A limit that the result keeps changes nothing. -/
theorem huffmanDecode_of_le (h : huffmanDecode 0 v = .ok s) (hle : (s.length : Int) ≤ maxLen) :
    huffmanDecode maxLen v = .ok s := by
  unfold huffmanDecode at h ⊢
  split at h
  · cases h
  rename_i st hbytes
  split at h
  · cases h
  rename_i st' hrest
  have hout : st'.out = s := by
    split at h
    · cases h
    · split at h
      · cases h
      · cases h
        rfl
  obtain ⟨hgrows, hrest'⟩ := huffmanDecodeRest_limit hrest
  rw [hout] at hgrows hrest'
  rw [(huffmanDecodeBytes_limit hbytes).2 (by omega)]
  dsimp only
  rw [hrest' hle]
  exact h

end Fhttp.Hpack
