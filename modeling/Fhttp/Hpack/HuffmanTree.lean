import Fhttp.Hpack.Huffman
import Fhttp.Lib.BitString
import Fhttp.Lib.PrefixCode
import Mathlib.Data.List.Nodup

/-!
# The Huffman code and its decoding tree

The two tables of `http2/hpack/tables.go` are a prefix code, `huffman`.  That
is a check over all pairs of codes, done on numbers: a code begins another one
when the high bits of the other are the code.

`Tree syms π ch` says that the array of children `ch`, found below the bytes
`π`, holds the codes of the symbols `syms` and nothing else: a leaf is a symbol
whose word ends in its byte, a child with children is on the way to a longer
word, and a missing child is on the way to none.  `addDecoderNode` keeps it
(`Tree.addDecoderNode`), so the tree that the package builds has it for all 256
symbols (`tree_rootHuffmanNode`).
-/

namespace Fhttp.Hpack

open Lib.BitString Lib.PrefixCode
open List

/-! ## The prefix code -/

/-- The code word of a byte. -/
def huffmanWord (c : UInt8) : List Bool := bits (huffmanLen c) (huffmanCode c)

variable (c : UInt8)

@[simp] theorem length_huffmanWord : (huffmanWord c).length = huffmanLen c :=
  length_bits _ _

/-- Code `p` is the high bits of code `q`. -/
def beginsCode (p q : Nat × Nat) : Bool := p.2.ble q.2 && (q.1 >>> (q.2 - p.2)).beq p.1

/-- No code of the table begins another one. -/
theorem huffmanTable_pairwise :
    (huffmanCodes.zip huffmanCodeLen).Pairwise
      fun p q => (beginsCode p q || beginsCode q p) = false := by
  decide +kernel

theorem huffmanCode_lt : huffmanCode c < 2 ^ huffmanLen c := by
  have hall : ∀ p ∈ huffmanCodes.zip huffmanCodeLen, p.1 < 2 ^ p.2 := by decide +kernel
  exact hall _ (huffmanTable_mem c)

variable {b i : UInt8} {w : List Bool} {code : Nat}

/-- A word that begins another one is the high bits of its code. -/
theorem beginsCode_of_word {a : UInt8} (h : huffmanWord a <+: huffmanWord b) :
    beginsCode (huffmanCode a, huffmanLen a) (huffmanCode b, huffmanLen b) = true := by
  have hle : huffmanLen a ≤ huffmanLen b := by
    simpa only [length_huffmanWord] using h.length_le
  have hbits : bits (huffmanLen a) (huffmanCode b >>> (huffmanLen b - huffmanLen a))
      = bits (huffmanLen a) (huffmanCode a) := by
    have htake := prefix_iff_eq_take.mp h
    rw [length_huffmanWord, huffmanWord, huffmanWord, take_bits hle] at htake
    exact htake.symm
  have hlt : huffmanCode b >>> (huffmanLen b - huffmanLen a) < 2 ^ huffmanLen a := by
    rw [Nat.shiftRight_eq_div_pow]
    apply Nat.div_lt_of_lt_mul
    rw [← Nat.pow_add, Nat.sub_add_cancel hle]
    exact huffmanCode_lt b
  have heq := bits_inj hlt (huffmanCode_lt a) hbits
  simp [beginsCode, hle, heq]

theorem huffmanWord_inj_of_begins (a b : UInt8) (h : huffmanWord a <+: huffmanWord b) : a = b := by
  have hcode := beginsCode_of_word h
  have hpair := pairwise_iff_getElem.mp huffmanTable_pairwise
  obtain ⟨ha, hga⟩ := List.getElem?_eq_some_iff.mp (huffmanTable_getElem? a)
  obtain ⟨hb, hgb⟩ := List.getElem?_eq_some_iff.mp (huffmanTable_getElem? b)
  rcases Nat.lt_trichotomy a.toNat b.toNat with hlt | heq | hlt
  · have := hpair _ _ ha hb hlt
    simp [hga, hgb, hcode] at this
  · exact UInt8.toNat_inj.mp heq
  · have := hpair _ _ hb ha hlt
    simp [hga, hgb, hcode] at this

/-- The Huffman code of HPACK. -/
def huffman : BitCode UInt8 where
  word := huffmanWord
  word_ne_nil := by
    intro c hnil
    have hlen := congrArg length hnil
    rw [length_huffmanWord] at hlen
    exact absurd hlen (Nat.ne_of_gt (huffmanLen_pos c))
  word_inj_of_begins := huffmanWord_inj_of_begins

@[simp] theorem huffman_word : huffman.word c = huffmanWord c := rfl

/-! ## The decoding tree -/

/-- The children `ch` below the bytes `π` hold the codes of `syms`. -/
inductive Tree (syms : List UInt8) : Bytes → (UInt8 → Option Node) → Prop where
  | mk {π : Bytes} {ch : UInt8 → Option Node}
    (unread : huffman.Unreadable (bytesBits π))
    (leaf : ∀ b k sym pos, ch b = some (.leaf k sym pos) →
      k ≤ 8 ∧ sym ∈ syms ∧ huffmanWord sym = bytesBits π ++ (byteBits b).take k)
    (child : ∀ b ch', ch b = some (.internal ch') → Tree syms (π ++ [b]) ch')
    (missing : ∀ b, ch b = none → ∀ sym ∈ syms,
      ¬ huffmanWord sym <+: bytesBits (π ++ [b]) ∧ ¬ bytesBits (π ++ [b]) <+: huffmanWord sym) :
    Tree syms π ch

namespace Tree

variable {syms : List UInt8} {π : Bytes} {ch : UInt8 → Option Node}

theorem unread (h : Tree syms π ch) : huffman.Unreadable (bytesBits π) := by
  cases h
  assumption

variable {b sym : UInt8}

section

variable (h : Tree syms π ch)

include h

theorem leaf {k : Nat} {pos : 0 < k} (hb : ch b = some (.leaf k sym pos)) :
    k ≤ 8 ∧ sym ∈ syms ∧ huffmanWord sym = bytesBits π ++ (byteBits b).take k := by
  cases h with
  | mk _ hleaf _ _ => exact hleaf _ _ _ _ hb

theorem child {ch' : UInt8 → Option Node} (hb : ch b = some (.internal ch')) :
    Tree syms (π ++ [b]) ch' := by
  cases h with
  | mk _ _ hchild _ => exact hchild _ _ hb

theorem missing (hb : ch b = none) (hs : sym ∈ syms) :
    ¬ huffmanWord sym <+: bytesBits (π ++ [b]) ∧ ¬ bytesBits (π ++ [b]) <+: huffmanWord sym := by
  cases h with
  | mk _ _ _ hmissing => exact hmissing _ hb _ hs

/-- A tree also holds a symbol whose word does not pass through it. -/
theorem weaken (hs : ¬ bytesBits π <+: huffmanWord sym) : Tree (sym :: syms) π ch := by
  induction h with
  | @mk π ch hun hleaf _ hmissing ih =>
    have hpath : ∀ b, ¬ bytesBits (π ++ [b]) <+: huffmanWord sym := by
      intro b hb
      refine hs (IsPrefix.trans ?_ hb)
      rw [bytesBits_append]
      exact prefix_append _ _
    refine .mk hun ?_ ?_ ?_
    · intro b k c pos hb
      obtain ⟨hk, hc, hw⟩ := hleaf b k c pos hb
      exact ⟨hk, mem_cons_of_mem _ hc, hw⟩
    · intro b ch' hb
      exact ih b ch' hb (hpath b)
    · intro b hb c hc
      rcases mem_cons.mp hc with rfl | hc
      · refine ⟨fun hw => ?_, hpath b⟩
        rw [bytesBits_append] at hw
        rcases prefix_or_prefix_of_prefix hw (prefix_append (bytesBits π) _) with h | h
        · exact hun _ h
        · exact hs h
      · exact hmissing b hb c hc

end

/-- A new node is a tree of the symbols whose words do not pass through it. -/
theorem noChildren (hun : huffman.Unreadable (bytesBits (π ++ [b])))
    (h : ∀ sym ∈ syms, ¬ bytesBits (π ++ [b]) <+: huffmanWord sym) :
    Tree syms (π ++ [b]) noChildren := by
  refine .mk hun ?_ ?_ ?_
  · intro b' k c pos hb
    cases hb
  · intro b' ch' hb
    cases hb
  · intro b' _ c hc
    have hfront : bytesBits (π ++ [b]) <+: bytesBits (π ++ [b] ++ [b']) := by
      rw [bytesBits_append (π ++ [b])]
      exact prefix_append _ _
    refine ⟨fun hw => ?_, fun hw => h c hc (hfront.trans hw)⟩
    rcases prefix_or_prefix_of_prefix hw hfront with hp | hp
    · exact hun c hp
    · exact h c hc hp

end Tree

/-! ## Adding a code -/

variable {n : Nat} {π : Bytes} {sym : UInt8} {syms : List UInt8} {ch : UInt8 → Option Node}

/-- The children that the last byte of a code fills are those that begin with
its bits. -/
theorem fills_iff (hn : n ≤ 8) (code : Nat) (i : UInt8) :
    ((UInt8.ofNat (code <<< (8 - n))).toNat ≤ i.toNat ∧
      i.toNat < (UInt8.ofNat (code <<< (8 - n))).toNat + 1 <<< (8 - n)) ↔
    bits n code <+: byteBits i := by
  have hi : i.toNat < 2 ^ 8 := i.toNat_lt
  have hsplit : 2 ^ 8 = 2 ^ n * 2 ^ (8 - n) := by
    rw [← Nat.pow_add, Nat.add_sub_cancel' hn]
  have hstart : (UInt8.ofNat (code <<< (8 - n))).toNat = code % 2 ^ n * 2 ^ (8 - n) := by
    rw [UInt8.toNat_ofNat', Nat.shiftLeft_eq, hsplit, Nat.mul_mod_mul_right]
  rw [hstart, Nat.one_shiftLeft, prefix_iff_eq_take, length_bits, byteBits, take_bits hn,
    Nat.shiftRight_eq_div_pow]
  have hdiv : (code % 2 ^ n * 2 ^ (8 - n) ≤ i.toNat ∧
      i.toNat < code % 2 ^ n * 2 ^ (8 - n) + 2 ^ (8 - n)) ↔
      i.toNat / 2 ^ (8 - n) = code % 2 ^ n := by
    rw [Nat.div_eq_iff (Nat.two_pow_pos _)]
    have := Nat.two_pow_pos (8 - n)
    omega
  rw [hdiv]
  constructor
  · intro h
    rw [h, bits_mod (Nat.le_refl n)]
  · intro h
    refine bits_inj ?_ (Nat.mod_lt _ (Nat.two_pow_pos n)) ?_
    · apply Nat.div_lt_of_lt_mul
      rw [Nat.mul_comm, ← hsplit]
      exact hi
    · rw [bits_mod (Nat.le_refl n), h]

/-- A code of more than eight bits goes on below the byte of its first eight. -/
theorem bits_split (hn : 8 < n) (code : Nat) :
    bits n code = byteBits (UInt8.ofNat (code >>> (n - 8))) ++ bits (n - 8) code := by
  rw [byteBits_ofNat, ← bits_add]
  congr 1
  omega

/-- The place of a path in front of a word that goes on. -/
theorem unreadable_of_begins (hw : w ≠ []) (h : huffmanWord sym = bytesBits π ++ w) :
    huffman.Unreadable (bytesBits π) := by
  intro c hc
  have hbegin : huffmanWord c <+: huffmanWord sym := by
    rw [h]
    exact hc.trans (prefix_append _ _)
  have hcs := huffmanWord_inj_of_begins c sym hbegin
  subst hcs
  have hlen := hc.length_le
  rw [huffman_word, h, length_append] at hlen
  exact hw (eq_nil_of_length_eq_zero (by omega))

/-- Two different bytes after one path are on the way to different words. -/
theorem not_begins_of_ne {x y : List Bool} (hib : b ≠ i) :
    ¬ bytesBits (π ++ [b]) ++ x = bytesBits (π ++ [i]) ++ y := by
  intro h
  refine hib ?_
  have hpath := (append_inj h (by simp)).1
  exact cons.inj (append_cancel_left (bytesBits_inj hpath)) |>.1

/-- A code of at most eight bits makes leaves. -/
theorem Tree.addLeaf (h : Tree syms π ch) (pos : 0 < n) (hn : n ≤ 8)
    (hw : huffmanWord sym = bytesBits π ++ bits n code) :
    Tree (sym :: syms) π (Fhttp.Hpack.addDecoderNode ch sym code n pos) := by
  have hval : ∀ i, Fhttp.Hpack.addDecoderNode ch sym code n pos i =
      if bits n code <+: byteBits i then some (.leaf n sym pos) else ch i := by
    intro i
    rw [Fhttp.Hpack.addDecoderNode, dif_neg (by omega)]
    simp only [fills_iff hn]
  have hthrough : ∀ b, bytesBits (π ++ [b]) <+: huffmanWord sym → bits n code <+: byteBits b := by
    intro b hb
    rw [hw, bytesBits_append, prefix_append_right_inj, bytesBits_cons, bytesBits_nil,
      append_nil] at hb
    have hlen := hb.length_le
    rw [length_byteBits, length_bits] at hlen
    rw [hb.eq_of_length (by simp; omega)]
  refine .mk h.unread ?_ ?_ ?_
  · intro b k c pos' hb
    rw [hval] at hb
    split at hb
    · rename_i hfill
      cases hb
      refine ⟨hn, mem_cons_self, ?_⟩
      rw [hw, prefix_iff_eq_take.mp hfill, length_bits]
    · obtain ⟨hk, hc, hword⟩ := h.leaf hb
      exact ⟨hk, mem_cons_of_mem _ hc, hword⟩
  · intro b ch' hb
    rw [hval] at hb
    split at hb
    · cases hb
    · rename_i hfill
      exact (h.child hb).weaken fun hb' => hfill (hthrough b hb')
  · intro b hb c hc
    rw [hval] at hb
    split at hb
    · cases hb
    · rename_i hfill
      rcases mem_cons.mp hc with rfl | hc
      · refine ⟨fun hb' => hfill ?_, fun hb' => hfill (hthrough b hb')⟩
        rw [hw, bytesBits_append, prefix_append_right_inj, bytesBits_cons, bytesBits_nil,
          append_nil] at hb'
        exact hb'
      · exact h.missing hb hc

/-- Below the first byte of a new word there is a tree already, or room for one. -/
theorem Tree.childOrNew (h : Tree syms π ch) (hfresh : sym ∉ syms) (hne : w ≠ [])
    (hw : huffmanWord sym = bytesBits (π ++ [i]) ++ w) :
    Tree syms (π ++ [i]) (Fhttp.Hpack.childOrNew ch i) := by
  rw [Fhttp.Hpack.childOrNew]
  cases hci : ch i with
  | none =>
    exact Tree.noChildren (unreadable_of_begins hne hw) fun c hc => (h.missing hci hc).2
  | some node =>
    cases node with
    | internal ch' => exact h.child hci
    | leaf k c hk =>
      obtain ⟨_, hc, hcw⟩ := h.leaf hci
      have hbegin : huffmanWord c <+: huffmanWord sym := by
        rw [hcw, hw, bytesBits_append, append_assoc, prefix_append_right_inj,
          bytesBits_cons, bytesBits_nil, append_nil]
        refine List.IsPrefix.trans ?_ (prefix_append _ _)
        exact take_prefix _ _
      rw [huffmanWord_inj_of_begins c sym hbegin] at hc
      exact absurd hc hfresh

/-- Adding the code of a new symbol adds the symbol to the tree. -/
theorem Tree.addDecoderNode (h : Tree syms π ch) (hfresh : sym ∉ syms) (pos : 0 < n)
    (hw : huffmanWord sym = bytesBits π ++ bits n code) :
    Tree (sym :: syms) π (Fhttp.Hpack.addDecoderNode ch sym code n pos) := by
  induction n using Nat.strongRecOn generalizing π ch with
  | ind n ih =>
    rcases Nat.lt_or_ge 8 n with hn | hn
    swap
    · exact h.addLeaf pos hn hw
    rw [Fhttp.Hpack.addDecoderNode, dif_pos hn]
    generalize hi : UInt8.ofNat (code >>> (n - 8)) = i
    have hword : huffmanWord sym = bytesBits (π ++ [i]) ++ bits (n - 8) code := by
      rw [hw, bits_split hn, hi]
      simp
    have hrest : bits (n - 8) code ≠ [] := by
      intro hnil
      have := congrArg length hnil
      rw [length_bits, length_nil] at this
      omega
    have hbelow := ih (n - 8) (by omega) (h.childOrNew hfresh hrest hword) (by omega) hword
    have hother : ∀ b, b ≠ i → ¬ bytesBits (π ++ [b]) <+: huffmanWord sym := by
      rintro b hb ⟨x, hx⟩
      rw [hword] at hx
      exact not_begins_of_ne hb hx
    refine .mk h.unread ?_ ?_ ?_
    · intro b k c pos' hb
      rcases eq_or_ne b i with rfl | hbi
      · rw [Function.update_self] at hb
        cases hb
      · rw [Function.update_of_ne hbi] at hb
        obtain ⟨hk, hc, hcw⟩ := h.leaf hb
        exact ⟨hk, mem_cons_of_mem _ hc, hcw⟩
    · intro b ch' hb
      rcases eq_or_ne b i with rfl | hbi
      · rw [Function.update_self] at hb
        cases hb
        exact hbelow
      · rw [Function.update_of_ne hbi] at hb
        exact (h.child hb).weaken (hother b hbi)
    · intro b hb c hc
      rcases eq_or_ne b i with rfl | hbi
      · rw [Function.update_self] at hb
        cases hb
      · rw [Function.update_of_ne hbi] at hb
        rcases mem_cons.mp hc with rfl | hc
        · refine ⟨?_, hother b hbi⟩
          rintro ⟨x, hx⟩
          rw [hword, append_assoc] at hx
          exact not_begins_of_ne hbi (hx.trans (append_nil _).symm).symm
        · exact h.missing hb hc

/-- Adding the codes of a list of different symbols. -/
theorem Tree.addDecoderNodes {l : List UInt8} (h : Tree syms [] ch) (hl : (l.reverse ++ syms).Nodup)
    : Tree (l.reverse ++ syms) [] (Fhttp.Hpack.addDecoderNodes ch l) := by
  induction l generalizing syms ch with
  | nil => exact h
  | cons c l ih =>
    rw [reverse_cons, append_assoc, singleton_append] at hl ⊢
    have hfresh : c ∉ syms := (nodup_cons.mp (nodup_append.mp hl).2.1).1
    exact ih (h.addDecoderNode hfresh (huffmanLen_pos c) (by simp [huffmanWord])) hl

/-- Every byte, the one added last in front. -/
def allSymbols : List UInt8 := ((range 256).map UInt8.ofNat).reverse

theorem mem_allSymbols : c ∈ allSymbols := by
  rw [allSymbols, mem_reverse, mem_map]
  exact ⟨c.toNat, mem_range.mpr c.toNat_lt, UInt8.ofNat_toNat⟩

theorem nodup_allSymbols : allSymbols.Nodup := by
  rw [allSymbols, nodup_reverse]
  refine Nodup.map_on ?_ nodup_range
  intro x hx y hy hxy
  have hmod := congrArg UInt8.toNat hxy
  rw [UInt8.toNat_ofNat', UInt8.toNat_ofNat'] at hmod
  rw [mem_range] at hx hy
  omega

theorem tree_noChildren : Tree [] [] noChildren := by
  refine .mk ?_ ?_ ?_ ?_
  · intro c hc
    exact huffman.word_ne_nil c (prefix_nil.mp hc)
  · intro b k c pos hb
    cases hb
  · intro b ch' hb
    cases hb
  · intro b _ c hc
    cases hc

/-- The tree that the package builds holds the code of every byte. -/
theorem tree_rootHuffmanNode : Tree allSymbols [] rootHuffmanNode := by
  have hnodup := nodup_allSymbols
  unfold rootHuffmanNode
  unfold allSymbols at hnodup ⊢
  generalize (range 256).map UInt8.ofNat = l at hnodup ⊢
  rw [← append_nil l.reverse] at hnodup ⊢
  exact tree_noChildren.addDecoderNodes hnodup

end Fhttp.Hpack
