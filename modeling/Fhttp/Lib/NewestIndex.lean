import Mathlib.Logic.Function.Basic

/-!
# An index from keys to the newest item of a queue

A queue gives its items consecutive numbers: the oldest live item has number
`c + 1` after `c` evictions.  An index maps a key to the number of the newest
live item with that key.  `Indexes` says that a map is such an index and holds
nothing else.  The two lemmas about it are the two operations of a queue:
`Indexes.concat` for an arrival and `Indexes.tail` for the eviction of the
oldest item, which deletes a key only when the map still names that item.
-/

namespace Fhttp.Lib.NewestIndex

variable {α K : Type}

/-- `id` is the number of the newest item with key `x`. -/
def Newest (key : α → K) (c : Nat) (ents : List α) (x : K) (id : Nat) : Prop :=
  ∃ k a, ents[k]? = some a ∧ key a = x ∧ id = c + k + 1 ∧
    ∀ j b, k < j → ents[j]? = some b → key b ≠ x

/-- `m` maps every key of a live item to its newest item, and no other key. -/
def Indexes (key : α → K) (c : Nat) (ents : List α) (m : K → Option Nat) : Prop :=
  ∀ x id, m x = some id ↔ Newest key c ents x id

theorem newest_concat_self (key : α → K) (c : Nat) (ents : List α) (a : α) (id : Nat) :
    Newest key c (ents ++ [a]) (key a) id ↔ id = c + ents.length + 1 := by
  constructor
  · rintro ⟨k, b, hb, hkey, rfl, hnew⟩
    have hk : k < ents.length + 1 := by
      have := (List.getElem?_eq_some_iff.mp hb).1
      simpa using this
    by_contra hne
    exact hnew ents.length a (by omega) (by simp) rfl
  · rintro rfl
    refine ⟨ents.length, a, by simp, rfl, rfl, ?_⟩
    intro j b hj hb
    have := (List.getElem?_eq_some_iff.mp hb).1
    simp at this
    omega

variable {key : α → K} {c : Nat} {ents : List α}

theorem newest_concat_other {a : α} {x : K} (hx : key a ≠ x) (c : Nat) (ents : List α) (id : Nat) :
    Newest key c (ents ++ [a]) x id ↔ Newest key c ents x id := by
  constructor
  · rintro ⟨k, b, hb, hkey, rfl, hnew⟩
    have hk : k < ents.length := by
      have hlt := (List.getElem?_eq_some_iff.mp hb).1
      rw [List.length_append, List.length_singleton] at hlt
      by_contra hge
      have hke : k = ents.length := by omega
      subst hke
      rw [List.getElem?_concat_length] at hb
      cases hb
      exact hx hkey
    refine ⟨k, b, by rwa [List.getElem?_append_left hk] at hb, hkey, rfl, ?_⟩
    intro j b' hj hb'
    have hjl := (List.getElem?_eq_some_iff.mp hb').1
    exact hnew j b' hj (by rwa [List.getElem?_append_left hjl])
  · rintro ⟨k, b, hb, hkey, rfl, hnew⟩
    have hk := (List.getElem?_eq_some_iff.mp hb).1
    refine ⟨k, b, by rwa [List.getElem?_append_left hk], hkey, rfl, ?_⟩
    intro j b' hj hb'
    rcases Nat.lt_or_ge j ents.length with hjl | hjl
    · exact hnew j b' hj (by rwa [List.getElem?_append_left hjl] at hb')
    have hje : j = ents.length := by
      have := (List.getElem?_eq_some_iff.mp hb').1
      rw [List.length_append, List.length_singleton] at this
      omega
    subst hje
    rw [List.getElem?_concat_length] at hb'
    cases hb'
    exact hx

/-- An arrival makes its own key point to it. -/
theorem Indexes.concat [DecidableEq K] {m : K → Option Nat} (h : Indexes key c ents m) (a : α) :
    Indexes key c (ents ++ [a])
      (Function.update m (key a) (some (c + ents.length + 1))) := by
  intro x id
  by_cases hx : x = key a
  · subst hx
    rw [Function.update_self, newest_concat_self, Option.some_inj]
    exact eq_comm
  · rw [Function.update_of_ne hx, newest_concat_other (Ne.symm hx)]
    exact h x id

/-- The newest item of a queue is the newest of the tail, or the oldest item
when no later one has its key. -/
theorem newest_cons (key : α → K) (c : Nat) (a : α) (ents : List α) (x : K) (id : Nat) :
    Newest key c (a :: ents) x id ↔
      Newest key (c + 1) ents x id ∨
        (key a = x ∧ id = c + 1 ∧ ∀ b ∈ ents, key b ≠ x) := by
  constructor
  · rintro ⟨k, b, hb, hkey, rfl, hnew⟩
    cases k with
    | zero =>
      cases hb
      refine .inr ⟨hkey, rfl, fun b' hb' => ?_⟩
      obtain ⟨j, hj⟩ := List.getElem?_of_mem hb'
      exact hnew (j + 1) b' (Nat.succ_pos j) hj
    | succ k =>
      refine .inl ⟨k, b, hb, hkey, by omega, fun j b' hj hb' => ?_⟩
      exact hnew (j + 1) b' (Nat.succ_lt_succ hj) hb'
  · rintro (⟨k, b, hb, hkey, rfl, hnew⟩ | ⟨hkey, rfl, hnone⟩)
    · refine ⟨k + 1, b, hb, hkey, by omega, fun j b' hj hb' => ?_⟩
      cases j with
      | zero => exact absurd hj (Nat.not_lt_zero _)
      | succ j => exact hnew j b' (Nat.lt_of_succ_lt_succ hj) hb'
    · refine ⟨0, a, rfl, hkey, rfl, fun j b' hj hb' => ?_⟩
      cases j with
      | zero => exact absurd hj (Nat.lt_irrefl 0)
      | succ j => exact hnone b' (List.mem_of_getElem? hb')

/-- A key has a newest item exactly when some live item has that key. -/
theorem exists_newest_iff (key : α → K) (c : Nat) (ents : List α) (x : K) :
    (∃ id, Newest key c ents x id) ↔ ∃ a ∈ ents, key a = x := by
  constructor
  · rintro ⟨id, k, a, ha, hkey, _⟩
    exact ⟨a, List.mem_of_getElem? ha, hkey⟩
  · intro h
    induction ents generalizing c with
    | nil => simp at h
    | cons a ents ih =>
      by_cases htail : ∃ b ∈ ents, key b = x
      · obtain ⟨id, hid⟩ := ih (c + 1) htail
        exact ⟨id, (newest_cons key c a ents x id).mpr (.inl hid)⟩
      · have hnone : ∀ b ∈ ents, key b ≠ x := fun b hb hk => htail ⟨b, hb, hk⟩
        obtain ⟨b, hb, hk⟩ := h
        rcases List.mem_cons.mp hb with rfl | hb'
        · exact ⟨c + 1, (newest_cons key c b ents x _).mpr (.inr ⟨hk, rfl, hnone⟩)⟩
        · exact absurd hk (hnone b hb')

/-- The numbers of a queue start above the number of evicted items. -/
theorem Newest.lt {x : K} {id : Nat} (h : Newest key c ents x id) : c < id := by
  obtain ⟨k, _, _, _, rfl, _⟩ := h
  omega

/-- The eviction of the oldest item deletes its key when the map still names
that item, and leaves the map alone otherwise. -/
theorem Indexes.tail [DecidableEq K] {a : α} {m : K → Option Nat}
    (h : Indexes key c (a :: ents) m) :
    Indexes key (c + 1) ents
      (if m (key a) = some (c + 1) then Function.update m (key a) none else m) := by
  intro x id
  have hx := h x id
  rw [newest_cons] at hx
  by_cases hdel : m (key a) = some (c + 1)
  · rw [if_pos hdel]
    have hnone : ∀ b ∈ ents, key b ≠ key a := by
      rcases (newest_cons key c a ents (key a) (c + 1)).mp ((h _ _).mp hdel) with hn | hn
      · exact absurd hn.lt (Nat.lt_irrefl _)
      · exact hn.2.2
    by_cases hxa : x = key a
    · subst hxa
      rw [Function.update_self]
      constructor
      · intro hf
        cases hf
      · intro hn
        obtain ⟨b, hb, hk⟩ := (exists_newest_iff key (c + 1) ents (key a)).mp ⟨id, hn⟩
        exact absurd hk (hnone b hb)
    · rw [Function.update_of_ne hxa, hx]
      constructor
      · rintro (hn | ⟨hk, _⟩)
        · exact hn
        · exact absurd hk.symm hxa
      · exact .inl
  · rw [if_neg hdel, hx]
    constructor
    · rintro (hn | ⟨hk, rfl, hnone⟩)
      · exact hn
      · subst hk
        exact absurd ((h _ _).mpr ((newest_cons key c a ents _ _).mpr
          (.inr ⟨rfl, rfl, hnone⟩))) hdel
    · exact .inl

end Fhttp.Lib.NewestIndex
