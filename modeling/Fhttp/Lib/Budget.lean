import Mathlib.Algebra.GroupWithZero.Nat
import Mathlib.Data.List.Infix

/-!
# Queues that keep the newest items within a budget

A queue holds items in order of arrival.  Every item has a weight, and the
queue keeps the longest suffix whose total weight is within a budget.  `fit`
is that suffix.

The budget may change between arrivals.  `History` is a list of arrivals and
budget changes, `live` is the queue that such a history leaves, and
`live_longest` says what `live` is without a fold: it is the longest suffix of
all arrivals that was within the budget at every point of the history.
-/

namespace Fhttp.Lib.Budget

open List

variable {α : Type}

/-- The total weight of a list of items. -/
def weight (w : α → Nat) (l : List α) : Nat := (l.map w).sum

variable (w : α → Nat) (m : Nat) (l : List α)

@[simp] theorem weight_nil : weight w [] = 0 := rfl

@[simp] theorem weight_cons (a : α) (l : List α) : weight w (a :: l) = w a + weight w l := by
  simp [weight]

@[simp] theorem weight_append (l' : List α) : weight w (l ++ l') = weight w l + weight w l' := by
  simp [weight]

theorem weight_le_of_suffix {w : α → Nat} {s l : List α} (h : s <:+ l) :
    weight w s ≤ weight w l := by
  obtain ⟨t, rfl⟩ := h
  simp

/-- The longest suffix of `l` whose weight is at most `m`. -/
def fit (w : α → Nat) (m : Nat) : List α → List α
  | [] => []
  | a :: l => if weight w (a :: l) ≤ m then a :: l else fit w m l

theorem fit_suffix : fit w m l <:+ l := by
  induction l with
  | nil => exact suffix_rfl
  | cons a l ih =>
    rw [fit]
    split
    · exact suffix_rfl
    · exact ih.trans (suffix_cons a l)

theorem weight_fit_le : weight w (fit w m l) ≤ m := by
  induction l with
  | nil => exact Nat.zero_le m
  | cons a l ih =>
    rw [fit]
    split
    · assumption
    · exact ih

section

variable {w : α → Nat} {m : Nat}

theorem fit_eq_self {l : List α} (h : weight w l ≤ m) : fit w m l = l := by
  cases l with
  | nil => rfl
  | cons a l => rw [fit, if_pos h]

/-- `fit` is the longest suffix within the budget. -/
theorem fit_longest {s l : List α} (hs : s <:+ l) (hw : weight w s ≤ m) : s <:+ fit w m l := by
  induction l with
  | nil => exact hs
  | cons a l ih =>
    rw [fit]
    split
    · exact hs
    · rename_i hgt
      rcases suffix_cons_iff.mp hs with rfl | hs'
      · exact absurd hw hgt
      · exact ih hs'

/-- Two suffixes of one list that are suffixes of each other are equal, so
`fit` is determined by `fit_suffix`, `weight_fit_le` and `fit_longest`. -/
theorem eq_fit {s l : List α} (hs : s <:+ l) (hw : weight w s ≤ m)
    (hmax : ∀ t, t <:+ l → weight w t ≤ m → t <:+ s) : s = fit w m l := by
  have h1 := fit_longest hs hw
  have h2 := hmax _ (fit_suffix w m l) (weight_fit_le w m l)
  exact h1.eq_of_length (Nat.le_antisymm h1.length_le h2.length_le)

end

/-- Two budgets in turn are the smaller budget. -/
theorem fit_fit (m' : Nat) (l : List α) : fit w m (fit w m' l) = fit w (min m' m) l := by
  refine eq_fit ((fit_suffix w m _).trans (fit_suffix w m' l)) ?_ ?_
  · have h1 := weight_fit_le w m (fit w m' l)
    have h2 := weight_le_of_suffix (w := w) (fit_suffix w m (fit w m' l))
    have h3 := weight_fit_le w m' l
    omega
  · intro t ht hw
    exact fit_longest (fit_longest ht (by omega)) (by omega)

/-- A smaller budget keeps a suffix of what a larger one keeps. -/
theorem fit_suffix_fit {w : α → Nat} {m m' : Nat} (h : m ≤ m') (l : List α) :
    fit w m l <:+ fit w m' l :=
  fit_longest (fit_suffix w m l) (Nat.le_trans (weight_fit_le w m l) h)

/-! ## Histories -/

/-- One event of a history: an item arrives, or the budget becomes `m`. -/
inductive Event (α : Type) where
  | arrive (a : α)
  | budget (m : Nat)

/-- The items that arrived, oldest first. -/
def arrivals : List (Event α) → List α
  | [] => []
  | .arrive a :: h => a :: arrivals h
  | .budget _ :: h => arrivals h

/-- The budget in force at the end of a history that starts with `m`. -/
def budgetAfter (m : Nat) : List (Event α) → Nat
  | [] => m
  | .arrive _ :: h => budgetAfter m h
  | .budget m' :: h => budgetAfter m' h

/-- The queue after a history that starts with budget `m` and queue `q`. -/
def live (w : α → Nat) (m : Nat) (q : List α) : List (Event α) → List α
  | [] => q
  | .arrive a :: h => live w m (fit w m (q ++ [a])) h
  | .budget m' :: h => live w m' (fit w m' q) h

/-- The arrivals after the first `k` were within the budget at every point of
the history. -/
def Allowed (w : α → Nat) (m : Nat) (h : List (Event α)) (k : Nat) : Prop :=
  ∀ p, p <+: h → weight w ((arrivals p).drop k) ≤ budgetAfter m p

@[simp] theorem arrivals_append (h h' : List (Event α)) :
    arrivals (h ++ h') = arrivals h ++ arrivals h' := by
  induction h with
  | nil => rfl
  | cons e h ih => cases e <;> simp [arrivals, ih]

@[simp] theorem budgetAfter_append (h h' : List (Event α)) :
    budgetAfter m (h ++ h') = budgetAfter (budgetAfter m h) h' := by
  induction h generalizing m with
  | nil => rfl
  | cons e h ih => cases e <;> simp [budgetAfter, ih]

theorem live_append (q : List α) (h h' : List (Event α)) :
    live w m q (h ++ h') = live w (budgetAfter m h) (live w m q h) h' := by
  induction h generalizing m q with
  | nil => rfl
  | cons e h ih => cases e <;> simp [live, budgetAfter, ih]

section

variable {w : α → Nat} {m : Nat}

theorem Allowed.of_append {h h' : List (Event α)} {k : Nat} (ha : Allowed w m (h ++ h') k) :
    Allowed w m h k :=
  fun p hp => ha p (hp.trans (prefix_append h h'))

/-- One more event keeps a suffix allowed exactly when the whole history is
within the last budget too. -/
theorem allowed_concat {h : List (Event α)} {e : Event α} {k : Nat} :
    Allowed w m (h ++ [e]) k ↔
      Allowed w m h k ∧
        weight w ((arrivals (h ++ [e])).drop k) ≤ budgetAfter m (h ++ [e]) := by
  constructor
  · intro ha
    exact ⟨ha.of_append, ha _ (prefix_refl _)⟩
  · rintro ⟨ha, hlast⟩ p hp
    rcases prefix_concat_iff.mp hp with rfl | hp'
    · simpa using hlast
    · exact ha p hp'

theorem Allowed.mono {h : List (Event α)} {k j : Nat} (hkj : k ≤ j) (ha : Allowed w m h k) :
    Allowed w m h j := by
  intro p hp
  have hsuf : (arrivals p).drop j <:+ (arrivals p).drop k := by
    rw [show j = k + (j - k) by omega, ← drop_drop]
    exact drop_suffix _ _
  exact Nat.le_trans (weight_le_of_suffix hsuf) (ha p hp)

end

section

variable (w : α → Nat) (m : Nat)

/-- Both kinds of event refit the old queue followed by the new arrivals. -/
theorem live_concat (q : List α) (h : List (Event α)) (e : Event α) :
    live w m q (h ++ [e]) =
      fit w (budgetAfter m (h ++ [e])) (live w m q h ++ arrivals [e]) := by
  rw [live_append, budgetAfter_append]
  cases e with
  | arrive a => rfl
  | budget m' => simp [live, budgetAfter, arrivals]

private theorem live_longest_aux (h : List (Event α)) :
    ∃ k, k ≤ (arrivals h).length ∧ live w m [] h = (arrivals h).drop k ∧
      Allowed w m h k ∧ ∀ j, Allowed w m h j → k ≤ j := by
  induction h using reverseRecOn with
  | nil =>
    refine ⟨0, Nat.zero_le _, rfl, ?_, fun j _ => Nat.zero_le j⟩
    intro p hp
    rw [prefix_nil.mp hp]
    exact Nat.zero_le _
  | append_singleton h e ih =>
    obtain ⟨k, hkle, hlive, hk, hmin⟩ := ih
    have hfit : live w m [] (h ++ [e]) =
        fit w (budgetAfter m (h ++ [e])) ((arrivals (h ++ [e])).drop k) := by
      rw [live_concat, hlive, arrivals_append, drop_append_of_le_length hkle]
    obtain ⟨t, ht⟩ := fit_suffix w (budgetAfter m (h ++ [e])) ((arrivals (h ++ [e])).drop k)
    have hlive' : live w m [] (h ++ [e]) = (arrivals (h ++ [e])).drop (k + t.length) := by
      rw [hfit, ← drop_drop]
      nth_rewrite 2 [← ht]
      rw [drop_left]
    have htlen : k + t.length ≤ (arrivals (h ++ [e])).length := by
      have h1 : t.length ≤ ((arrivals (h ++ [e])).drop k).length := by
        rw [← ht, length_append]
        omega
      have h2 : k ≤ (arrivals (h ++ [e])).length := by
        rw [arrivals_append, length_append]
        omega
      rw [length_drop] at h1
      omega
    refine ⟨k + t.length, htlen, hlive', ?_, ?_⟩
    · refine allowed_concat.mpr ⟨hk.mono (by omega), ?_⟩
      rw [← hlive', hfit]
      exact weight_fit_le _ _ _
    · intro j hj
      obtain ⟨hj1, hj2⟩ := allowed_concat.mp hj
      have hkj : k ≤ j := hmin j hj1
      have hsuf : (arrivals (h ++ [e])).drop j <:+
          (arrivals (h ++ [e])).drop (k + t.length) := by
        rw [← hlive', hfit]
        refine fit_longest ?_ hj2
        rw [show j = k + (j - k) by omega, ← drop_drop]
        exact drop_suffix _ _
      have hlen := hsuf.length_le
      rw [length_drop, length_drop] at hlen
      omega

/-- The queue is the longest suffix of the arrivals that was within the budget
at every point of the history: it drops the least number of arrivals that
`Allowed` admits. -/
theorem live_longest (h : List (Event α)) :
    ∃ k, live w m [] h = (arrivals h).drop k ∧ Allowed w m h k ∧
      ∀ j, Allowed w m h j → k ≤ j := by
  obtain ⟨k, _, hlive, hk, hmin⟩ := live_longest_aux w m h
  exact ⟨k, hlive, hk, hmin⟩

end

end Fhttp.Lib.Budget
