import Mathlib.Algebra.Group.Int.Defs
import Mathlib.Algebra.GroupWithZero.Nat
import Mathlib.Tactic.Common
import Fhttp.Lib.Panic

/-!
# Flow-control windows

The model of `http2/flow.go`.  A window is the field `n` of a `flow`; the window of a
stream has a pointer to the window of its connection, which is an argument here.

`add` checks for overflow by comparing signs.  `add_of_fits` and `add_of_overflow` say
that the check is exact: the sum is taken when it is an `int32`, and the window is left as
it was when it is not.
-/

namespace Fhttp.Http2.Flow

open Lib.Panic (Fault)

/-- `available` of a window of a stream, with the window `conn` of its connection. -/
def available (n conn : Int32) : Int32 := if conn < n then conn else n

/-- `take` for a stream: the two windows after it. -/
def take (n conn k : Int32) : Except Fault (Int32 × Int32) :=
  if k > available n conn then .error (.panic "internal error: took too much")
  else .ok (n - k, conn - k)

/-- `add`: the window after it, and whether the sum was taken. -/
def add (n k : Int32) : Int32 × Bool :=
  let sum := n + k
  if decide (sum > k) = decide (n > 0) then (sum, true) else (n, false)

theorem take_eq {n conn k : Int32} (h : k ≤ available n conn) :
    take n conn k = .ok (n - k, conn - k) :=
  if_neg (Int32.not_lt.mpr h)

/-! ## Conversions -/

theorem toInt_toInt32 {v : UInt32} (h : v.toNat < 2 ^ 31) : v.toInt32.toInt = v.toNat := by
  show v.toBitVec.toInt = _
  rw [BitVec.toInt_eq_toNat_of_lt]
  · rfl
  · show 2 * v.toNat < 2 ^ 32
    omega

theorem toNat_toUInt32 {v : Int32} (h : 0 ≤ v.toInt) : (v.toUInt32.toNat : Int) = v.toInt := by
  have hv : v.toInt = v.toUInt32.toBitVec.toInt := rfl
  rw [hv] at h ⊢
  rw [BitVec.toInt_eq_toNat_cond] at h ⊢
  split
  · rfl
  · omega

theorem toInt_ofInt {n : Int} (h : 0 ≤ n ∧ n < 2 ^ 31) : (Int32.ofInt n).toInt = n := by
  have hsize : (Int32.size : Int) = 2 ^ 32 := rfl
  rw [Int32.toInt_ofInt]
  exact Int.bmod_eq_of_le (by omega) (by omega)

/-! ## The methods -/

theorem toInt_available (n conn : Int32) : (available n conn).toInt = min n.toInt conn.toInt := by
  unfold available
  split
  · rename_i h
    have hlt := Int32.lt_iff_toInt_lt.mp h
    omega
  · rename_i h
    have hle := Int32.le_iff_toInt_le.mp (Int32.not_lt.mp h)
    omega

variable {n k : Int32}

/-- The sum of two windows, when it does not overflow. -/
theorem toInt_add (h : -2 ^ 31 ≤ n.toInt + k.toInt ∧ n.toInt + k.toInt < 2 ^ 31) :
    (n + k).toInt = n.toInt + k.toInt := by
  rw [Int32.toInt_add]
  exact Int.bmod_eq_of_le (by omega) (by omega)

theorem toInt_sub (h : -2 ^ 31 ≤ n.toInt - k.toInt ∧ n.toInt - k.toInt < 2 ^ 31) :
    (n - k).toInt = n.toInt - k.toInt := by
  rw [Int32.toInt_sub]
  exact Int.bmod_eq_of_le (by omega) (by omega)

theorem add_of_fits (h : -2 ^ 31 ≤ n.toInt + k.toInt ∧ n.toInt + k.toInt < 2 ^ 31) :
    add n k = (n + k, true) := by
  have hsum := toInt_add h
  refine if_pos ?_
  rw [decide_eq_decide, gt_iff_lt, gt_iff_lt, Int32.lt_iff_toInt_lt, Int32.lt_iff_toInt_lt, hsum]
  show _ ↔ (0 : Int) < _
  omega

theorem add_of_overflow (h : ¬ (-2 ^ 31 ≤ n.toInt + k.toInt ∧ n.toInt + k.toInt < 2 ^ 31)) :
    add n k = (n, false) := by
  have hn := n.toInt_lt
  have hn' := n.le_toInt
  have hk := k.toInt_lt
  have hk' := k.le_toInt
  have hsum : (n + k).toInt = n.toInt + k.toInt + 2 ^ 32 ∨
      (n + k).toInt = n.toInt + k.toInt - 2 ^ 32 := by
    rw [Int32.toInt_add, Int.bmod_def]
    split <;> omega
  have hlt := (n + k).toInt_lt
  have hle := (n + k).le_toInt
  refine if_neg ?_
  rw [decide_eq_decide, gt_iff_lt, gt_iff_lt, Int32.lt_iff_toInt_lt, Int32.lt_iff_toInt_lt]
  show ¬ (_ ↔ (0 : Int) < _)
  omega

theorem add_nonneg (hn : 0 ≤ n.toInt) (hk : 0 ≤ k.toInt) : 0 ≤ (add n k).1.toInt := by
  by_cases h : -2 ^ 31 ≤ n.toInt + k.toInt ∧ n.toInt + k.toInt < 2 ^ 31
  · rw [add_of_fits h, toInt_add h]
    omega
  · rw [add_of_overflow h]
    exact hn

theorem add_le (n : Int32) (hk : 0 ≤ k.toInt) : (add n k).1.toInt ≤ n.toInt + k.toInt := by
  by_cases h : -2 ^ 31 ≤ n.toInt + k.toInt ∧ n.toInt + k.toInt < 2 ^ 31
  · rw [add_of_fits h]
    exact Int.le_of_eq (toInt_add h)
  · rw [add_of_overflow h]
    exact Int.le_add_of_nonneg_right hk

end Fhttp.Http2.Flow
