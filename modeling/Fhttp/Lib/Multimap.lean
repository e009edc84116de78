import Mathlib.Data.List.Nodup

/-!
# Maps to lists, and pairs of them

A `Multimap` is a map whose values are lists: a key that is absent reads as the empty
list.  A relation that has to be searched from both sides is often kept in two such maps,
one for each direction.  `Inverse` says that two maps do hold one relation, each pair
once, and no key with nothing under it; adding a pair on both sides and removing one
element from both keep it.
-/

namespace Fhttp.Lib

open Function (update_of_ne update_self)
open List

/-- A map whose values are lists. -/
structure Multimap (α β : Type) where
  get : α → Option (List β)

namespace Multimap

variable {α β : Type}

/-- The map without any key. -/
def empty : Multimap α β := ⟨fun _ => none⟩

/-- The list under a key, empty if the key is absent. -/
def values (m : Multimap α β) (a : α) : List β := (m.get a).getD []

section Update

variable [DecidableEq α]

def put (m : Multimap α β) (a : α) (l : List β) : Multimap α β :=
  ⟨Function.update m.get a (some l)⟩

def delete (m : Multimap α β) (a : α) : Multimap α β :=
  ⟨Function.update m.get a none⟩

/-- Add one value at the end of the list under a key. -/
def append (m : Multimap α β) (a : α) (b : β) : Multimap α β := m.put a (m.values a ++ [b])

section

variable (m : Multimap α β) (a a' : α)

theorem values_put (l : List β) : (m.put a l).values a' = if a' = a then l else m.values a' := by
  dsimp only [values, put]
  by_cases h : a' = a
  · rw [h, update_self, if_pos rfl, Option.getD_some]
  · rw [update_of_ne h, if_neg h]

theorem values_delete : (m.delete a).values a' = if a' = a then [] else m.values a' := by
  dsimp only [values, delete]
  by_cases h : a' = a
  · rw [h, update_self, if_pos rfl, Option.getD_none]
  · rw [update_of_ne h, if_neg h]

theorem values_append (b : β) :
    (m.append a b).values a' = if a' = a then m.values a ++ [b] else m.values a' :=
  m.values_put a a' _

end

theorem mem_values_append {m : Multimap α β} {a a' : α} {b b' : β} :
    b' ∈ (m.append a b).values a' ↔ b' ∈ m.values a' ∨ a' = a ∧ b' = b := by
  rw [values_append]
  by_cases h : a' = a
  · rw [if_pos h, mem_append, mem_singleton, h, and_iff_right rfl]
  · rw [if_neg h, or_iff_left fun hb => h hb.1]

end Update

/-- No key has an empty list. -/
def Full (m : Multimap α β) : Prop := ∀ a, m.get a ≠ some []

variable [DecidableEq α]

variable {m : Multimap α β} {a : α} {w : Multimap β α} {b : β}

theorem Full.put (h : m.Full) {l : List β} (hl : l ≠ []) : (m.put a l).Full := by
  intro a'
  dsimp only [Multimap.put]
  by_cases heq : a' = a
  · rw [heq, update_self]
    exact fun hsome => hl (Option.some.inj hsome)
  · rw [update_of_ne heq]
    exact h a'

theorem Full.delete (h : m.Full) (a : α) : (m.delete a).Full := by
  intro a'
  dsimp only [Multimap.delete]
  by_cases heq : a' = a
  · rw [heq, update_self]
    exact nofun
  · rw [update_of_ne heq]
    exact h a'

variable [DecidableEq β]

/-- Take one value out of the list under a key; a key with nothing left is deleted. -/
def dropValue (b : β) (m : Multimap α β) (a : α) : Multimap α β :=
  match m.get a with
  | none => m
  | some l => if (l.filter (· ≠ b)).length > 0 then m.put a (l.filter (· ≠ b)) else m.delete a

theorem values_dropValue (b : β) (m : Multimap α β) (a a' : α) :
    (m.dropValue b a).values a' =
      if a' = a then (m.values a).filter (· ≠ b) else m.values a' := by
  unfold dropValue
  cases hm : m.get a with
  | none =>
    have hnil : m.values a = [] := by rw [values, hm, Option.getD_none]
    by_cases h : a' = a
    · rw [if_pos h, h, hnil, filter_nil]
    · rw [if_neg h]
  | some l =>
    have hl : m.values a = l := by rw [values, hm, Option.getD_some]
    dsimp only
    split
    · rw [values_put, hl]
    · rename_i hlen
      rw [values_delete, hl, length_eq_zero_iff.mp (Nat.eq_zero_of_not_pos hlen)]

theorem Full.dropValue (h : m.Full) (b : β) (a : α) : (m.dropValue b a).Full := by
  unfold Multimap.dropValue
  cases m.get a with
  | none => exact h
  | some l =>
    dsimp only
    split
    · rename_i hlen
      exact h.put (ne_nil_of_length_pos hlen)
    · exact h.delete a

/-- Taking one value out of the lists under several keys. -/
theorem values_foldl_dropValue (b : β) (as : List α) (m : Multimap α β) (a' : α) :
    (as.foldl (dropValue b) m).values a' =
      if a' ∈ as then (m.values a').filter (· ≠ b) else m.values a' := by
  induction as generalizing m with
  | nil => rw [if_neg not_mem_nil, foldl_nil]
  | cons a as ih =>
    rw [foldl_cons, ih, values_dropValue]
    by_cases h : a' = a
    · rw [if_pos h, if_pos (mem_cons.mpr (.inl h)), h, filter_filter]
      simp only [Bool.and_self, ite_self]
    · rw [if_neg h]
      exact if_congr (by rw [mem_cons, or_iff_right h]) rfl rfl

theorem Full.foldl_dropValue (h : m.Full) (b : β) (as : List α) :
    (as.foldl (Multimap.dropValue b) m).Full := by
  induction as generalizing m with
  | nil => exact h
  | cons a as ih => exact ih (h.dropValue b a)

/-! ## Two directions of one relation -/

/-- Two maps hold the two directions of one relation, without repetition. -/
structure Inverse (m : Multimap α β) (w : Multimap β α) : Prop where
  mem_iff : ∀ a b, b ∈ m.values a ↔ a ∈ w.values b
  nodup : ∀ a, (m.values a).Nodup
  nodup_keys : ∀ b, (w.values b).Nodup
  full : m.Full
  full_keys : w.Full

omit [DecidableEq α] [DecidableEq β] in
theorem Inverse.empty : Inverse (Multimap.empty : Multimap α β) Multimap.empty where
  mem_iff _ _ := ⟨nofun, nofun⟩
  nodup _ := nodup_nil
  nodup_keys _ := nodup_nil
  full _ := nofun
  full_keys _ := nofun

omit [DecidableEq α] [DecidableEq β] in
/-- What has no key on one side is under no key of the other. -/
theorem Inverse.not_mem (h : Inverse m w) (hb : w.get b = none) (a : α) : b ∉ m.values a := by
  rw [h.mem_iff, values, hb]
  exact not_mem_nil

omit [DecidableEq β] in
private theorem nodup_values_append (h : ∀ a, (m.values a).Nodup) (hb : b ∉ m.values a) (a' : α) :
    ((m.append a b).values a').Nodup := by
  rw [values_append]
  split
  · exact nodup_append_comm.mp (nodup_cons.mpr ⟨hb, h a⟩)
  · exact h a'

/-- A new pair is added on both sides. -/
theorem Inverse.append (h : Inverse m w) (hb : b ∉ m.values a) :
    Inverse (m.append a b) (w.append b a) where
  mem_iff a' b' := by rw [mem_values_append, mem_values_append, h.mem_iff, and_comm]
  nodup := nodup_values_append h.nodup hb
  nodup_keys := nodup_values_append h.nodup_keys fun ha => hb ((h.mem_iff a b).mpr ha)
  full := h.full.put (append_ne_nil_of_right_ne_nil _ (cons_ne_nil b []))
  full_keys := h.full_keys.put (append_ne_nil_of_right_ne_nil _ (cons_ne_nil a []))

/-- Walking the keys of an element and taking it out under each of them leaves it nowhere. -/
theorem Inverse.remove (h : Inverse m w) (b : β) :
    Inverse ((w.values b).foldl (Multimap.dropValue b) m) (w.delete b) := by
  have hvalues (a : α) : ((w.values b).foldl (Multimap.dropValue b) m).values a =
      (m.values a).filter (· ≠ b) := by
    rw [values_foldl_dropValue]
    split
    · rfl
    · rename_i ha
      have hne : ∀ b' ∈ m.values a, decide (b' ≠ b) = true := by
        intro b' hb'
        refine decide_eq_true fun heq => ha ((h.mem_iff a b).mp (heq ▸ hb'))
      exact (filter_eq_self.mpr hne).symm
  refine ⟨fun a b' => ?_, fun a => ?_, fun b' => ?_, h.full.foldl_dropValue b _,
    h.full_keys.delete b⟩
  · rw [hvalues, mem_filter, values_delete, decide_eq_true_eq, h.mem_iff]
    by_cases hb : b' = b
    · rw [if_pos hb]
      exact ⟨fun hmem => absurd hb hmem.2, nofun⟩
    · rw [if_neg hb]
      exact and_iff_left hb
  · rw [hvalues]
    exact (h.nodup a).filter _
  · rw [values_delete]
    split
    · exact nodup_nil
    · exact h.nodup_keys b'

end Multimap

end Fhttp.Lib
