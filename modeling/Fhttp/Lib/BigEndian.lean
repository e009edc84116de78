import Mathlib.Data.List.Induction
import Mathlib.Data.Nat.Bitwise

/-!
# Big-endian numbers

The octets of a number, most significant first, and back.  A width other than
a power of two (the 24 bits of a length field) is like any other, so the
numbers are `Nat`.
-/

namespace Fhttp.Lib.BigEndian

/-- The number with the given octets. -/
def ofBytes (l : List UInt8) : Nat := l.foldl (fun n b => n * 256 + b.toNat) 0

/-- The last `k` octets of a number. -/
def toBytes : Nat → Nat → List UInt8
  | 0, _ => []
  | k + 1, n => toBytes k (n / 256) ++ [UInt8.ofNat n]

@[simp] theorem length_toBytes (k n : Nat) : (toBytes k n).length = k := by
  induction k generalizing n with
  | zero => rfl
  | succ k ih => rw [toBytes, List.length_append, ih, List.length_singleton]

theorem ofBytes_concat (l : List UInt8) (b : UInt8) :
    ofBytes (l ++ [b]) = ofBytes l * 256 + b.toNat := by
  rw [ofBytes, List.foldl_append]
  rfl

theorem ofBytes_lt (l : List UInt8) : ofBytes l < 256 ^ l.length := by
  induction l using List.reverseRecOn with
  | nil => decide
  | append_singleton l b ih =>
    have hb := b.toNat_lt
    rw [ofBytes_concat, List.length_append, List.length_singleton, Nat.pow_succ]
    omega

theorem ofBytes_toBytes (k n : Nat) : ofBytes (toBytes k n) = n % 256 ^ k := by
  induction k generalizing n with
  | zero => rw [Nat.pow_zero, Nat.mod_one]; rfl
  | succ k ih =>
    rw [toBytes, ofBytes_concat, ih, Nat.pow_succ, Nat.mul_comm (256 ^ k), Nat.mod_mul,
      UInt8.toNat_ofNat']
    omega

theorem ofBytes_toBytes_of_lt {k n : Nat} (h : n < 256 ^ k) : ofBytes (toBytes k n) = n := by
  rw [ofBytes_toBytes, Nat.mod_eq_of_lt h]

/-- The octets of a number, by shifts. -/
theorem toBytes_eq_shiftRight (k n : Nat) :
    toBytes (k + 1) n = UInt8.ofNat (n >>> (8 * k)) :: toBytes k n := by
  induction k generalizing n with
  | zero => rfl
  | succ k ih =>
    have hshift : (n / 256) >>> (8 * k) = n >>> (8 * (k + 1)) := by
      rw [show 8 * (k + 1) = 8 + 8 * k by omega, Nat.shiftRight_add, Nat.shiftRight_eq_div_pow n 8]
    show toBytes (k + 1) (n / 256) ++ [UInt8.ofNat n] = _
    rw [ih, hshift]
    rfl

end Fhttp.Lib.BigEndian
