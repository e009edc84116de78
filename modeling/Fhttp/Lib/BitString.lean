import Mathlib.Data.Nat.Bitwise

/-!
# Bit strings, high bit first

`bits n v` is the list of the low `n` bits of `v`, the high one first, and
`bytesBits` is the bit string of a list of bytes.  The lemmas say how the shift
and mask operations of a bit writer or a bit reader look on these lists:

* `bits_add` cuts a bit string in two, which is a right shift and a mask;
* `bits_or` puts bits into the free low end of a byte;
* `bytesBits_inj` reads the bytes back.
-/

namespace Fhttp.Lib.BitString

open List

/-- The low `n` bits of `v`, high bit first. -/
def bits : Nat → Nat → List Bool
  | 0, _ => []
  | n + 1, v => v.testBit n :: bits n v

@[simp] theorem bits_zero (v : Nat) : bits 0 v = [] := rfl

@[simp] theorem length_bits (n v : Nat) : (bits n v).length = n := by
  induction n with
  | zero => rfl
  | succ n ih => rw [bits, length_cons, ih]

variable {n u v k : Nat}

/-- `bits n` sees the low `n` bits only. -/
theorem bits_congr (h : ∀ i, i < n → u.testBit i = v.testBit i) : bits n u = bits n v := by
  induction n with
  | zero => rfl
  | succ n ih =>
    rw [bits, bits, h n (Nat.lt_succ_self n), ih fun i hi => h i (Nat.lt_succ_of_lt hi)]

theorem testBit_eq_of_bits_eq (h : bits n u = bits n v) :
    ∀ i, i < n → u.testBit i = v.testBit i := by
  induction n with
  | zero =>
    intro i hi
    exact absurd hi (Nat.not_lt_zero i)
  | succ n ih =>
    intro i hi
    rw [bits, bits, cons.injEq] at h
    rcases Nat.lt_succ_iff_lt_or_eq.mp hi with hlt | rfl
    · exact ih h.2 i hlt
    · exact h.1

theorem bits_mod {m : Nat} (h : n ≤ m) (v : Nat) : bits n (v % 2 ^ m) = bits n v := by
  refine bits_congr fun i hi => ?_
  rw [Nat.testBit_mod_two_pow, decide_eq_true (by omega), Bool.true_and]

/-- Numbers below `2 ^ n` are determined by their `n` bits. -/
theorem bits_inj (hu : u < 2 ^ n) (hv : v < 2 ^ n) (h : bits n u = bits n v) : u = v := by
  apply Nat.eq_of_testBit_eq
  intro i
  by_cases hi : i < n
  · exact testBit_eq_of_bits_eq h i hi
  · have hpow : 2 ^ n ≤ 2 ^ i := Nat.pow_le_pow_right (by decide) (Nat.le_of_not_lt hi)
    rw [Nat.testBit_lt_two_pow (by omega), Nat.testBit_lt_two_pow (by omega)]

/-- The high part of a bit string is a right shift. -/
theorem bits_add (a b v : Nat) : bits (a + b) v = bits a (v >>> b) ++ bits b v := by
  induction a with
  | zero => rw [Nat.zero_add, bits_zero, nil_append]
  | succ a ih =>
    rw [Nat.succ_add, bits, bits, ih, Nat.testBit_shiftRight, Nat.add_comm b a, cons_append]

theorem bits_of_le (h : k ≤ n) (v : Nat) : bits n v = bits (n - k) (v >>> k) ++ bits k v := by
  rw [← bits_add, Nat.sub_add_cancel h]

theorem take_bits (h : k ≤ n) (v : Nat) : (bits n v).take k = bits k (v >>> (n - k)) := by
  have hsplit : bits n v = bits k (v >>> (n - k)) ++ bits (n - k) v := by
    rw [← bits_add, Nat.add_sub_cancel' h]
  rw [hsplit, take_left' (length_bits _ _)]

theorem drop_bits (h : k ≤ n) (v : Nat) : (bits n v).drop k = bits (n - k) v := by
  have hsplit : bits n v = bits k (v >>> (n - k)) ++ bits (n - k) v := by
    rw [← bits_add, Nat.add_sub_cancel' h]
  rw [hsplit, drop_left' (length_bits _ _)]

/-- A left shift puts zeros behind. -/
theorem bits_shiftLeft (n k v : Nat) : bits (n + k) (v <<< k) = bits n v ++ replicate k false := by
  rw [bits_add]
  congr 1
  · rw [Nat.shiftLeft_shiftRight]
  · have hzero : ∀ j, j ≤ k → bits j (v <<< k) = replicate j false := by
      intro j
      induction j with
      | zero =>
        intro _
        rfl
      | succ j ih =>
        intro hj
        rw [bits, ih (by omega), Nat.testBit_shiftLeft,
          decide_eq_false (by omega), Bool.false_and, replicate_succ]
    exact hzero k (Nat.le_refl k)

theorem bits_ones (n : Nat) : bits n (2 ^ n - 1) = replicate n true := by
  have h : ∀ m, m ≤ n → bits m (2 ^ n - 1) = replicate m true := by
    intro m
    induction m with
    | zero =>
      intro _
      rfl
    | succ m ih =>
      intro hm
      rw [bits, ih (by omega), Nat.testBit_two_pow_sub_one, decide_eq_true (by omega),
        replicate_succ]
  exact h n (Nat.le_refl n)

/-- The low bits are all ones exactly when the mask says so. -/
theorem bits_eq_ones_iff (n v : Nat) :
    bits n v = replicate n true ↔ v &&& (2 ^ n - 1) = 2 ^ n - 1 := by
  rw [Nat.and_two_pow_sub_one_eq_mod]
  constructor
  · intro h
    refine bits_inj (Nat.mod_lt _ (Nat.two_pow_pos n)) ?_ ?_
    · exact Nat.sub_lt (Nat.two_pow_pos n) (by decide)
    · rw [bits_mod (Nat.le_refl n), h, bits_ones]
  · intro h
    rw [← bits_mod (Nat.le_refl n), h, bits_ones]

/-- Bits that go into the free low end of a number. -/
theorem bits_or {r x t : Nat} (hr : r ≤ n) (hx : x % 2 ^ r = 0) (ht : t < 2 ^ r) :
    bits n (x ||| t) = bits (n - r) (x >>> r) ++ bits r t := by
  rw [bits_of_le hr]
  congr 1
  · refine bits_congr fun i _ => ?_
    rw [Nat.testBit_shiftRight, Nat.testBit_shiftRight, Nat.testBit_or]
    have hpow : 2 ^ r ≤ 2 ^ (r + i) := Nat.pow_le_pow_right (by decide) (Nat.le_add_right r i)
    rw [Nat.testBit_lt_two_pow (x := t) (by omega), Bool.or_false]
  · refine bits_congr fun i hi => ?_
    have hxi : x.testBit i = false := by
      have hmod := Nat.testBit_mod_two_pow x r i
      rw [hx, Nat.zero_testBit, decide_eq_true hi, Bool.true_and] at hmod
      exact hmod.symm
    rw [Nat.testBit_or, hxi, Bool.false_or]

/-! ## Bytes -/

/-- The eight bits of a byte. -/
def byteBits (b : UInt8) : List Bool := bits 8 b.toNat

/-- The bit string of a list of bytes. -/
def bytesBits (l : List UInt8) : List Bool := l.flatMap byteBits

@[simp] theorem length_byteBits (b : UInt8) : (byteBits b).length = 8 := length_bits _ _

@[simp] theorem bytesBits_nil : bytesBits [] = [] := rfl

@[simp] theorem bytesBits_cons (b : UInt8) (l : List UInt8) :
    bytesBits (b :: l) = byteBits b ++ bytesBits l := rfl

@[simp] theorem bytesBits_append (l l' : List UInt8) :
    bytesBits (l ++ l') = bytesBits l ++ bytesBits l' := by
  simp [bytesBits]

@[simp] theorem length_bytesBits (l : List UInt8) : (bytesBits l).length = 8 * l.length := by
  induction l with
  | nil => rfl
  | cons b l ih =>
    rw [bytesBits_cons, length_append, length_byteBits, ih, length_cons]
    omega

theorem byteBits_ofNat (n : Nat) : byteBits (UInt8.ofNat n) = bits 8 n := by
  rw [byteBits, UInt8.toNat_ofNat', bits_mod (Nat.le_refl 8)]

theorem byteBits_inj {a b : UInt8} (h : byteBits a = byteBits b) : a = b :=
  UInt8.toNat_inj.mp (bits_inj a.toNat_lt b.toNat_lt h)

/-- A bit string of whole bytes is the bit string of one list of bytes. -/
theorem bytesBits_inj {l l' : List UInt8} (h : bytesBits l = bytesBits l') : l = l' := by
  induction l generalizing l' with
  | nil =>
    cases l' with
    | nil => rfl
    | cons b l' =>
      have := congrArg length h
      simp at this
      omega
  | cons a l ih =>
    cases l' with
    | nil =>
      have := congrArg length h
      simp at this
    | cons b l' =>
      obtain ⟨hb, hl⟩ := append_inj h (by rw [length_byteBits, length_byteBits])
      rw [byteBits_inj hb, ih hl]

end Fhttp.Lib.BitString
