import Fhttp.Lib.Panic

/-!
# Cutting a list into pieces

`split m` is the loop that takes pieces of at most `m` elements from the front of a
list until nothing is left.  With `m = 0` it makes no progress and does not end
(`split_zero`); otherwise it gives the pieces, in order (`split_ok`).
-/

namespace Fhttp.Lib.Fragments

open Panic (Fault)
open List

variable {α : Type}

/-- The pieces of a list; the first argument after `m` bounds the passes of the loop. -/
def split (m : Nat) : Nat → List α → Except Fault (List (List α))
  | _, [] => .ok []
  | 0, _ :: _ => .error .diverges
  | fuel + 1, a :: l => (split m fuel ((a :: l).drop m)).map ((a :: l).take m :: ·)

variable {m fuel : Nat} {l : List α}

/-- There are pieces only if there is something to cut. -/
theorem isEmpty_of_split {pieces : List (List α)} (h : split m fuel l = .ok pieces) :
    pieces.isEmpty = l.isEmpty := by
  cases l with
  | nil =>
    unfold split at h
    cases h
    rfl
  | cons a l =>
    cases fuel with
    | zero => cases h
    | succ fuel =>
      unfold split at h
      cases hrest : split m fuel ((a :: l).drop m) with
      | error e =>
        rw [hrest] at h
        cases h
      | ok rest =>
        rw [hrest] at h
        cases h
        rfl

/-- The pieces of `l`: they are not empty, none is longer than `m`, and the first is as
long as it can be. -/
structure Pieces (m : Nat) (l : List α) (pieces : List (List α)) : Prop where
  flatten : pieces.flatten = l
  ne_nil : ∀ p ∈ pieces, p ≠ []
  length_le : ∀ p ∈ pieces, p.length ≤ m
  head? : pieces.head? = if l = [] then none else some (l.take m)

theorem split_ok (hm : 0 < m) (h : l.length ≤ fuel) :
    ∃ pieces, split m fuel l = .ok pieces ∧ Pieces m l pieces := by
  induction fuel generalizing l with
  | zero =>
    obtain rfl := length_eq_zero_iff.mp (Nat.le_zero.mp h)
    exact ⟨[], rfl, rfl, by simp, by simp, rfl⟩
  | succ fuel ih =>
    cases l with
    | nil => exact ⟨[], rfl, rfl, by simp, by simp, rfl⟩
    | cons a l =>
      have hrest : ((a :: l).drop m).length ≤ fuel := by
        rw [length_drop]
        omega
      obtain ⟨pieces, heq, hpieces⟩ := ih hrest
      refine ⟨(a :: l).take m :: pieces, ?_, ?_, ?_, ?_, rfl⟩
      · rw [split, heq]
        rfl
      · rw [flatten_cons, hpieces.flatten, take_append_drop]
      · simp only [forall_mem_cons]
        refine ⟨?_, hpieces.ne_nil⟩
        rw [Ne, take_eq_nil_iff]
        rintro (hzero | hnil)
        · omega
        · cases hnil
      · simp only [forall_mem_cons]
        exact ⟨length_take_le _ _, hpieces.length_le⟩

theorem split_zero (fuel : Nat) (h : l ≠ []) : split 0 fuel l = .error .diverges := by
  induction fuel with
  | zero =>
    cases l with
    | nil => exact (h rfl).elim
    | cons a l => rfl
  | succ fuel ih =>
    cases l with
    | nil => exact (h rfl).elim
    | cons a l =>
      rw [split, drop_zero, ih]
      rfl

end Fhttp.Lib.Fragments
