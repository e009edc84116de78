import Mathlib.Algebra.BigOperators.Group.Finset.Piecewise
import Mathlib.Algebra.BigOperators.Group.Finset.Sigma
import Fhttp.Lib.Forest

/-!
# Sums over the subtrees of a forest

The nodes of a forest have weights, and each keeps a tally that should be the sum of
the weights in its subtree.  `Tallied` is the equation for one node: its tally is its
weight and the tallies of its kids.  If it holds for a node and all nodes below it, the
tally is the sum over the subtree (`eq_subtreeSum`).

The rules say which changes keep the equations: a change of the parents of nodes whose
tally is zero (`Tallied.of_moved`), a new node (`Tallied.cons`), a change of one weight
that is added to all tallies above it (`Tallied.add`), and a node that is replaced by
one of its kids (`Tallied.replace`).
-/

namespace Fhttp.Lib.Forest

open Classical
open Finset

variable {α M : Type*} [AddCommMonoid M]

/-- The sum of the weights in the subtree of a node. -/
noncomputable def subtreeSum (parent : α → Option α) (nodes : Finset α) (w : α → M) (n : α) : M :=
  ∑ x ∈ nodes with Above parent n x, w x

/-- The sum of the tallies of the kids of a node. -/
noncomputable def kidsSum (parent : α → Option α) (nodes : Finset α) (f : α → M) (n : α) : M :=
  ∑ k ∈ nodes with parent k = some n, f k

/-- The tally of a node is its weight and the tallies of its kids. -/
def Tallied (parent : α → Option α) (nodes : Finset α) (w f : α → M) (n : α) : Prop :=
  f n = w n + kidsSum parent nodes f n

variable {parent parent' : α → Option α} {nodes : Finset α} {w w' f f' : α → M} {n x : α}

/-- At most one kid of a node is above another node. -/
theorem sum_kids_above (hended : ∀ y, Ended parent y)
    (hnodes : ∀ {k p}, parent k = some p → k ∈ nodes) (n x : α) (c : M) :
    (∑ k ∈ nodes with parent k = some n, if Above parent k x then c else 0) =
      if Above parent n x ∧ n ≠ x then c else 0 := by
  by_cases h : Above parent n x ∧ n ≠ x
  · obtain ⟨k, hk, habove⟩ := h.1.exists_child_above h.2
    rw [if_pos h, sum_eq_single k]
    · exact if_pos habove
    · intro y hy hne
      have hyn : parent y = some n := (mem_filter.mp hy).2
      refine if_neg fun hyx => ?_
      rcases habove.total hyx with hky | hyk
      · exact (hended k).not_above_parent hk (hky.above_parent hne.symm hyn)
      · exact (hended y).not_above_parent hyn (hyk.above_parent hne hk)
    · intro hk'
      exact (hk' (mem_filter.mpr ⟨hnodes hk, hk⟩)).elim
  · rw [if_neg h]
    refine sum_eq_zero fun k hk => if_neg fun hkx => h ?_
    have hkn : parent k = some n := (mem_filter.mp hk).2
    refine ⟨(Above.of_parent hkn).trans hkx, fun heq => ?_⟩
    rw [← heq] at hkx
    exact (hended k).not_above_parent hkn hkx

/-! ## Changes that keep the tallies -/

theorem kidsSum_eq_sum (parent : α → Option α) (nodes : Finset α) (f : α → M) (n : α) :
    kidsSum parent nodes f n = ∑ k ∈ nodes, if parent k = some n then f k else 0 :=
  sum_filter ..

/-- No node with a tally becomes a kid of `n` or stops to be one. -/
theorem Tallied.of_moved (h : Tallied parent nodes w f n)
    (hmoved : ∀ k ∈ nodes, f k ≠ 0 → (parent' k = some n ↔ parent k = some n)) :
    Tallied parent' nodes w f n := by
  unfold Tallied at h ⊢
  rw [h, kidsSum_eq_sum, kidsSum_eq_sum]
  congr 1
  refine sum_congr rfl fun k hk => ?_
  by_cases hzero : f k = 0
  · rw [hzero, ite_self, ite_self]
  · simp only [hmoved k hk hzero]

/-- A new node has no tally. -/
theorem Tallied.cons (h : Tallied parent nodes w f n) (hx : x ∉ nodes) (hn : n ≠ x)
    (hparent : ∀ y, y ≠ x → parent' y = parent y) (hw : w' n = w n)
    (hf : ∀ y, y ≠ x → f' y = f y) (hzero : f' x = 0) :
    Tallied parent' (cons x nodes hx) w' f' n := by
  unfold Tallied at h ⊢
  rw [hf n hn, hw, h, kidsSum_eq_sum, kidsSum_eq_sum, sum_cons, hzero, ite_self, zero_add]
  congr 1
  refine sum_congr rfl fun y hy => ?_
  have hyx : y ≠ x := fun heq => hx (heq ▸ hy)
  rw [hparent y hyx, hf y hyx]

/-- A node without a weight and without kids. -/
theorem tallied_of_childless (hkids : ∀ k ∈ nodes, parent k ≠ some n) (hw : w n = 0)
    (hf : f n = 0) :
    Tallied parent nodes w f n := by
  unfold Tallied kidsSum
  rw [hf, hw, zero_add, filter_false_of_mem hkids, sum_empty]

/-- Something is added to the weight of `x` and to all tallies above it. -/
theorem Tallied.add (hended : ∀ y, Ended parent y)
    (hnodes : ∀ {k p}, parent k = some p → k ∈ nodes) {b : M} (h : Tallied parent nodes w f n)
    (hw : w' n = if n = x then w n + b else w n)
    (hf : ∀ y, f' y = if Above parent y x then f y + b else f y) :
    Tallied parent nodes w' f' n := by
  have hkids : kidsSum parent nodes f' n =
      kidsSum parent nodes f n + if Above parent n x ∧ n ≠ x then b else 0 := by
    rw [← sum_kids_above hended hnodes, kidsSum, kidsSum, ← sum_add_distrib]
    refine sum_congr rfl fun k _ => ?_
    rw [hf k]
    split
    · rfl
    · rw [add_zero]
  unfold Tallied at h ⊢
  rw [hf n, hkids, hw, h]
  by_cases hnx : n = x
  · rw [if_pos (hnx ▸ .refl), if_pos hnx, if_neg fun hand => hand.2 hnx, add_zero, add_right_comm]
  · by_cases habove : Above parent n x
    · rw [if_pos habove, if_neg hnx, if_pos ⟨habove, hnx⟩, add_assoc]
    · rw [if_neg habove, if_neg hnx, if_neg fun hand => habove hand.1, add_zero]

/-- A node leaves the forest, and its kid takes its place. -/
theorem Tallied.replace {m k : α} (h : Tallied parent nodes w f n) (hm : m ∈ nodes) (hk : k ∈ nodes)
    (hn : n ≠ m) (hkid : parent k = some m) (hf : f k = f m)
    (hgone : parent' m = none) (hplace : parent' k = parent m)
    (hother : ∀ y, y ≠ m → y ≠ k → parent' y = parent y) : Tallied parent' nodes w f n := by
  unfold Tallied at h ⊢
  rw [h, kidsSum_eq_sum, kidsSum_eq_sum]
  congr 1
  refine sum_equiv (Equiv.swap m k) (fun y => ?_) fun y _ => ?_
  · by_cases hym : y = m
    · rw [hym, Equiv.swap_apply_left]
      exact iff_of_true hm hk
    by_cases hyk : y = k
    · rw [hyk, Equiv.swap_apply_right]
      exact iff_of_true hk hm
    · rw [Equiv.swap_apply_of_ne_of_ne hym hyk]
  · by_cases hym : y = m
    · rw [hym, Equiv.swap_apply_left, hplace, hf]
    by_cases hyk : y = k
    · rw [hyk, Equiv.swap_apply_right, hgone, hkid, if_neg fun heq => hn (Option.some.inj heq).symm]
      rfl
    · rw [Equiv.swap_apply_of_ne_of_ne hym hyk, hother y hym hyk]

/-! ## The tally of a node is the sum over its subtree -/

section

variable (hended : ∀ y, Ended parent y) (hnodes : ∀ {k p}, parent k = some p → k ∈ nodes)

include hended hnodes

theorem subtreeSum_eq (w : α → M) (hn : n ∈ nodes) :
    Tallied parent nodes w (subtreeSum parent nodes w) n := by
  have hsplit : ∀ y ∈ nodes, (if Above parent n y then w y else 0) =
      (if n = y then w y else 0) +
        ∑ k ∈ nodes with parent k = some n, if Above parent k y then w y else 0 := by
    intro y _
    rw [sum_kids_above hended hnodes]
    by_cases hny : n = y
    · rw [if_pos (hny ▸ .refl), if_pos hny, if_neg fun hand => hand.2 hny, add_zero]
    · rw [if_neg hny, zero_add]
      simp only [ne_eq, hny, not_false_eq_true, and_true]
  unfold Tallied subtreeSum kidsSum
  rw [sum_filter, sum_congr rfl hsplit, sum_add_distrib, sum_comm, sum_ite_eq, if_pos hn]
  congr 1
  exact sum_congr rfl fun k _ => (sum_filter ..).symm

/-- If the equation holds for a node and all nodes below it, its tally is the sum of the
weights in its subtree. -/
theorem eq_subtreeSum {P : α → Prop} (hkid : ∀ {k p}, parent k = some p → P k)
    (h : ∀ y, P y → Tallied parent nodes w f y) (hn : n ∈ nodes) (hP : P n) :
    f n = subtreeSum parent nodes w n := by
  induction hcard : (nodes.filter (Above parent n ·)).card using Nat.strong_induction_on
    generalizing n with
  | _ c ih =>
    rw [h n hP, subtreeSum_eq hended hnodes w hn]
    congr 1
    refine sum_congr rfl fun k hk => ?_
    obtain ⟨hk, hkn⟩ := mem_filter.mp hk
    refine ih _ ?_ hk (hkid hkn) rfl
    rw [← hcard]
    refine card_lt_card (ssubset_iff_of_subset ?_ |>.mpr ⟨n, ?_, ?_⟩)
    · intro y hy
      obtain ⟨hy, hky⟩ := mem_filter.mp hy
      exact mem_filter.mpr ⟨hy, (Above.of_parent hkn).trans hky⟩
    · exact mem_filter.mpr ⟨hn, .refl⟩
    · exact fun hmem => (hended k).not_above_parent hkn (mem_filter.mp hmem).2

end

end Fhttp.Lib.Forest
