import Mathlib.Data.List.Sort

/-!
# Sorting with a comparison

What a library function that sorts promises: if the comparison is a transitive ordering, the
result is a permutation of the list in which no element is less than one before it.
Elements that the comparison does not tell apart may come in any order, so that a
program may rely on a `Sorter` but not on the order of such elements.
-/

namespace Fhttp.Lib

variable {α : Type}

/-- A comparison by which a list can be sorted. -/
structure TransitiveOrdering (less : α → α → Bool) : Prop where
  irrefl : ∀ a, less a a = false
  trans : ∀ {a b c}, less a b = true → less b c = true → less a c = true
  trans_not : ∀ {a b c}, less a b = false → less b c = false → less a c = false

theorem TransitiveOrdering.asymm {less : α → α → Bool} (h : TransitiveOrdering less) {a b : α}
    (hab : less a b = true) : less b a = false := by
  rw [Bool.eq_false_iff]
  intro hba
  exact Bool.false_ne_true ((h.irrefl a).symm.trans (h.trans hab hba))

/-- A function that sorts. -/
structure Sorter (α : Type) where
  sort : (α → α → Bool) → List α → List α
  perm : ∀ less l, (sort less l).Perm l
  sorted : ∀ {less}, TransitiveOrdering less →
    ∀ l, (sort less l).Pairwise fun a b => less b a = false

namespace Sorter

/-- Sorting by insertion, which keeps the order of elements that are not told apart. -/
def insertion : Sorter α where
  sort less l := l.insertionSort fun a b => less b a = false
  perm less l := List.perm_insertionSort _ l
  sorted := by
    intro less h l
    have htotal : Std.Total fun a b => less b a = false := by
      refine ⟨fun a b => ?_⟩
      cases hab : less a b with
      | false => exact Or.inr rfl
      | true => exact Or.inl (h.asymm hab)
    have htrans :
        IsTrans α fun a b => less b a = false := ⟨fun _ _ _ hba hcb => h.trans_not hcb hba⟩
    exact List.pairwise_insertionSort _ l

/-- An element of a sorted list, with what is before and what is after it. -/
theorem sort_split (s : Sorter α) {less : α → α → Bool} (h : TransitiveOrdering less) {l : List α}
    {x : α} (hx : x ∈ l) :
    ∃ before after, s.sort less l = before ++ x :: after ∧ (∀ a ∈ before, less x a = false) ∧
      ∀ a ∈ after, less a x = false := by
  obtain ⟨before, after, hsplit⟩ := List.append_of_mem ((s.perm less l).mem_iff.mpr hx)
  have hsorted := s.sorted h l
  rw [hsplit, List.pairwise_append, List.pairwise_cons] at hsorted
  exact ⟨before, after, hsplit, fun a ha => hsorted.2.2 a ha x List.mem_cons_self, hsorted.2.1.1⟩

end Sorter

end Fhttp.Lib
