import Mathlib.Init

/-!
# Binary search

`search n f` is the smallest index below `n` at which `f` holds, or `n`, if `f` stays true once
it is.  The recursion is on a bound for the number of passes of the loop, which is `n`.
-/

namespace Fhttp.Lib

def searchLoop (f : Nat → Bool) : Nat → Nat → Nat → Nat
  | 0, i, _ => i
  | fuel + 1, i, j =>
    if i < j then
      if f ((i + j) / 2) then searchLoop f fuel i ((i + j) / 2)
      else searchLoop f fuel ((i + j) / 2 + 1) j
    else i

def search (n : Nat) (f : Nat → Bool) : Nat := searchLoop f n 0 n

/-- `r` divides the indices below `n` into those at which `f` is false and the others. -/
def Divides (f : Nat → Bool) (n r : Nat) : Prop :=
  r ≤ n ∧ (∀ k < r, f k = false) ∧ ∀ k, r ≤ k → k < n → f k = true

variable {f : Nat → Bool} {n : Nat}

section

variable (hf : ∀ a b, a ≤ b → b < n → f a = true → f b = true)

include hf

theorem divides_searchLoop {fuel i j : Nat} (hij : i ≤ j) (hj : j ≤ n) (hfuel : j - i ≤ fuel)
    (hlo : ∀ k < i, f k = false) (hhi : ∀ k, j ≤ k → k < n → f k = true) :
    Divides f n (searchLoop f fuel i j) := by
  induction fuel generalizing i j with
  | zero =>
    have heq : i = j := by omega
    subst heq
    exact ⟨hj, hlo, hhi⟩
  | succ fuel ih =>
    simp only [searchLoop]
    split
    · split
      · rename_i hmid
        refine ih (by omega) (by omega) (by omega) hlo ?_
        intro k hk hkn
        exact hf _ k hk hkn hmid
      · rename_i hmid
        refine ih (by omega) hj (by omega) ?_ hhi
        intro k hk
        rw [Bool.eq_false_iff]
        intro htrue
        exact hmid (hf k _ (by omega) (by omega) htrue)
    · have heq : i = j := by omega
      subst heq
      exact ⟨hj, hlo, hhi⟩

theorem divides_search : Divides f n (search n f) := by
  apply divides_searchLoop hf (Nat.zero_le n) (Nat.le_refl n) (Nat.sub_le n 0)
  · intro k hk
    omega
  · intro k hk hkn
    omega

end

end Fhttp.Lib
