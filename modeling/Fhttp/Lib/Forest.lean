import Mathlib.Data.List.Nodup
import Mathlib.Data.List.Range
import Mathlib.Data.List.Perm.Subperm

/-!
# Forests given by their parents

A forest is a partial function that gives the parent of a node.  `Rooted` says that
the chain of parents from a node ends at a given root.  `Above` is the order of
the forest: a node and all the nodes on its chain.

The results are about what changes of the parents keep.  If some nodes get new
parents and these nodes are rooted afterwards, so is every node that was
(`Rooted.of_changed`).  A chain that meets none of them is the same as before
(`Depth.of_unchanged`).
-/

namespace Fhttp.Lib.Forest

variable {α : Type*} {parent parent' : α → Option α} {r : α}

/-- The chain of parents from a node leads to `r` in the given number of steps, and
ends there. -/
inductive Depth (parent : α → Option α) (r : α) : α → Nat → Prop where
  | root (h : parent r = none) : Depth parent r r 0
  | step {x p : α} {d : Nat} (h : parent x = some p) (hp : Depth parent r p d) :
      Depth parent r x (d + 1)

/-- The chain of parents from a node ends at `r`. -/
def Rooted (parent : α → Option α) (r x : α) : Prop := ∃ d, Depth parent r x d

/-- The chain of parents from a node ends somewhere. -/
def Ended (parent : α → Option α) (x : α) : Prop := ∃ r, Rooted parent r x

/-- `Above parent a x`: `a` is the node `x`, or on its chain of parents. -/
inductive Above (parent : α → Option α) (a : α) : α → Prop where
  | refl : Above parent a a
  | step {x p : α} (h : parent x = some p) (hp : Above parent a p) : Above parent a x

variable {x p a b : α} {d : Nat}

theorem Rooted.step (h : parent x = some p) (hp : Rooted parent r p) : Rooted parent r x := by
  obtain ⟨d, hd⟩ := hp
  exact ⟨d + 1, .step h hd⟩

theorem Ended.step (h : parent x = some p) (hp : Ended parent p) : Ended parent x := by
  obtain ⟨r, hr⟩ := hp
  exact ⟨r, hr.step h⟩

theorem ended_of_none (h : parent x = none) : Ended parent x := ⟨x, 0, .root h⟩

theorem Depth.unique {d' : Nat} (h : Depth parent r x d) (h' : Depth parent r x d') : d = d' := by
  induction h generalizing d' with
  | root hroot =>
    cases h' with
    | root _ => rfl
    | step hx _ =>
      rw [hroot] at hx
      cases hx
  | step hx _ ih =>
    cases h' with
    | root hroot =>
      rw [hroot] at hx
      cases hx
    | step hx' hp' =>
      rw [hx] at hx'
      cases hx'
      rw [ih hp']

/-- The parent of a node is one step nearer to the root. -/
theorem Depth.parent_eq (h : Depth parent r x d) (hx : parent x = some p) :
    ∃ d', d = d' + 1 ∧ Depth parent r p d' := by
  cases h with
  | root hroot =>
    rw [hroot] at hx
    cases hx
  | @step _ p' d' hx' hp =>
    rw [hx] at hx'
    cases hx'
    exact ⟨d', rfl, hp⟩

theorem Rooted.parent_eq (h : Rooted parent r x) (hx : parent x = some p) : Rooted parent r p := by
  obtain ⟨d, hd⟩ := h
  obtain ⟨d', _, hp⟩ := hd.parent_eq hx
  exact ⟨d', hp⟩

theorem Rooted.eq_root (h : Rooted parent r x) (hx : parent x = none) : x = r := by
  obtain ⟨d, hd⟩ := h
  cases hd with
  | root _ => rfl
  | step hx' _ =>
    rw [hx] at hx'
    cases hx'

theorem Above.trans (h : Above parent a b) (h' : Above parent b x) : Above parent a x := by
  induction h' with
  | refl => exact h
  | step hx _ ih => exact .step hx ih

/-- A node on the chain of `x` is not further from the root than `x`. -/
theorem Above.depth_le (h : Above parent a x) (hx : Depth parent r x d) :
    ∃ d', d' ≤ d ∧ Depth parent r a d' := by
  induction h generalizing d with
  | refl => exact ⟨d, Nat.le_refl d, hx⟩
  | step hparent _ ih =>
    obtain ⟨e, rfl, hp⟩ := hx.parent_eq hparent
    obtain ⟨d', hle, ha⟩ := ih hp
    exact ⟨d', Nat.le_succ_of_le hle, ha⟩

/-- A rooted node is not above its own parent. -/
theorem Rooted.not_above_parent (h : Rooted parent r x) (hx : parent x = some p) :
    ¬ Above parent x p := by
  intro habove
  obtain ⟨d, hd⟩ := h
  obtain ⟨e, rfl, hp⟩ := hd.parent_eq hx
  obtain ⟨d', hle, hd'⟩ := habove.depth_le hp
  have heq := hd.unique hd'
  omega

theorem Ended.not_above_parent (h : Ended parent x) (hx : parent x = some p) :
    ¬ Above parent x p := by
  obtain ⟨r, hr⟩ := h
  exact hr.not_above_parent hx

/-- The parent of a node is above it. -/
theorem Above.of_parent (h : parent x = some p) : Above parent p x := .step h .refl

/-- What is above a node, other than the node, is above its parent. -/
theorem Above.above_parent (h : Above parent a x) (hne : a ≠ x) (hx : parent x = some p) :
    Above parent a p := by
  cases h with
  | refl => exact (hne rfl).elim
  | step hx' hp =>
    rw [hx] at hx'
    cases hx'
    exact hp

/-- The child on the way from a node to what is above it. -/
theorem Above.exists_child_above (h : Above parent a x) (hne : a ≠ x) :
    ∃ c, parent c = some a ∧ Above parent c x := by
  induction h with
  | refl => exact (hne rfl).elim
  | @step x p hx _ ih =>
    by_cases hap : a = p
    · exact ⟨x, by rw [hx, hap], .refl⟩
    · obtain ⟨c, hc, habove⟩ := ih hap
      exact ⟨c, hc, .step hx habove⟩

/-- Of two nodes above another one, one is above the other. -/
theorem Above.total (ha : Above parent a x) (hb : Above parent b x) :
    Above parent a b ∨ Above parent b a := by
  induction ha with
  | refl => exact .inr hb
  | step hx hp ih =>
    cases hb with
    | refl => exact .inl (.step hx hp)
    | step hx' hp' =>
      rw [hx] at hx'
      cases hx'
      exact ih hp'

/-- Only the root is above the root. -/
theorem Above.eq_of_root (h : Above parent a r) (hr : parent r = none) : a = r := by
  cases h with
  | refl => rfl
  | step hx _ =>
    rw [hr] at hx
    cases hx

/-! ## Changes of parents -/

/-- A chain that meets no node with a new parent. -/
theorem Depth.of_unchanged (h : Depth parent r x d)
    (hsame : ∀ a, Above parent a x → parent' a = parent a) : Depth parent' r x d := by
  induction h with
  | root hroot => exact .root ((hsame r .refl).trans hroot)
  | @step x p d hx _ ih =>
    exact .step ((hsame x .refl).trans hx) (ih fun a ha => hsame a (.step hx ha))

theorem Rooted.of_unchanged (h : Rooted parent r x)
    (hsame : ∀ a, Above parent a x → parent' a = parent a) : Rooted parent' r x := by
  obtain ⟨d, hd⟩ := h
  exact ⟨d, hd.of_unchanged hsame⟩

theorem Ended.of_unchanged (h : Ended parent x)
    (hsame : ∀ a, Above parent a x → parent' a = parent a) : Ended parent' x := by
  obtain ⟨r, hr⟩ := h
  exact ⟨r, hr.of_unchanged hsame⟩

/-- Nothing else is above a node whose chain has not changed. -/
theorem Above.of_unchanged (h : Above parent' b x)
    (hsame : ∀ a, Above parent a x → parent' a = parent a) : Above parent b x := by
  induction h with
  | refl => exact .refl
  | @step x p hx _ ih =>
    have hx' : parent x = some p := (hsame x .refl).symm.trans hx
    exact .step hx' (ih fun a ha => hsame a (.step hx' ha))

/-- A property that a node has from its parent, when every node with a new parent has it. -/
theorem Rooted.induction_changed {P : α → Prop} (h : Rooted parent r x)
    (hroot : parent' r = none → P r) (hstep : ∀ x p, parent' x = some p → P p → P x)
    (hchanged : ∀ a, parent' a ≠ parent a → P a) : P x := by
  obtain ⟨d, hd⟩ := h
  induction hd with
  | root hnone =>
    by_cases hsame : parent' r = parent r
    · exact hroot (hsame.trans hnone)
    · exact hchanged r hsame
  | @step x p d hx _ ih =>
    by_cases hsame : parent' x = parent x
    · exact hstep x p (hsame.trans hx) ih
    · exact hchanged x hsame

/-- When every node with a new parent is rooted, so is every node that was. -/
theorem Rooted.of_changed (h : Rooted parent r x)
    (hchanged : ∀ a, parent' a ≠ parent a → Rooted parent' r a) : Rooted parent' r x :=
  h.induction_changed (fun hnone => ⟨0, .root hnone⟩) (fun _ _ hx hp => hp.step hx) hchanged

/-- When the chain of every node with a new parent ends, so does every chain that
did. -/
theorem Ended.of_changed (h : Ended parent x)
    (hchanged : ∀ a, parent' a ≠ parent a → Ended parent' a) : Ended parent' x := by
  obtain ⟨r, hr⟩ := h
  exact hr.induction_changed ended_of_none (fun _ _ hx hp => hp.step hx) hchanged

/-- A node is left out, and its kids are given to its parent. -/
theorem Rooted.bypass {n : α} (h : Rooted parent r x) (hxn : x ≠ n) (hn : n ≠ r)
    (hkid : ∀ a, a ≠ n → parent a = some n → parent' a = parent n)
    (hother : ∀ a, a ≠ n → parent a ≠ some n → parent' a = parent a) : Rooted parent' r x := by
  obtain ⟨d, hd⟩ := h
  induction d using Nat.strong_induction_on generalizing x with
  | _ d ih =>
    cases hd with
    | root hroot =>
      have hne : parent r ≠ some n := by
        rw [hroot]
        nofun
      exact ⟨0, .root ((hother r hxn hne).trans hroot)⟩
    | @step _ p d hx hp =>
      by_cases hpn : p = n
      · subst hpn
        cases hp with
        | root _ => exact (hn rfl).elim
        | @step _ q d hq hqd =>
          have hqp : q ≠ p := by
            rintro rfl
            have := hqd.unique (.step hq hqd)
            omega
          exact (ih d (by omega) hqp hqd).step ((hkid x hxn hx).trans hq)
      · have hne : parent x ≠ some n := fun heq => hpn (Option.some.inj (hx.symm.trans heq))
        exact (ih d (by omega) hpn hp).step ((hother x hxn hne).trans hx)

/-! ## Bounds -/

/-- The chain of a node as a list. -/
theorem Depth.exists_chain (h : Depth parent r x d) :
    ∃ l : List α, l.length = d + 1 ∧ l.Nodup ∧ ∀ a ∈ l, Above parent a x := by
  induction h with
  | root _ =>
    refine ⟨[r], rfl, List.nodup_singleton r, fun a ha => ?_⟩
    rw [List.mem_singleton.mp ha]
    exact .refl
  | @step x p d hx hp ih =>
    obtain ⟨l, hlength, hnodup, habove⟩ := ih
    have hnew : x ∉ l := fun hmem =>
      Rooted.not_above_parent ⟨d + 1, .step hx hp⟩ hx (habove x hmem)
    refine ⟨x :: l, by rw [List.length_cons, hlength], List.nodup_cons.mpr ⟨hnew, hnodup⟩, ?_⟩
    intro a ha
    rcases List.mem_cons.mp ha with rfl | ha
    · exact .refl
    · exact .step hx (habove a ha)

/-- Numbers below `n` without repetition are at most `n`. -/
theorem length_le_of_lt {l : List Nat} {n : Nat} (hnodup : l.Nodup) (hlt : ∀ a ∈ l, a < n) :
    l.length ≤ n := by
  have hsub : l ⊆ List.range n := fun a ha => List.mem_range.mpr (hlt a ha)
  have hle := (hnodup.subperm hsub).length_le
  rwa [List.length_range] at hle

/-- In a forest of `n` nodes every chain is shorter than `n`. -/
theorem Depth.lt_size {parent : Nat → Option Nat} {r x n : Nat} (h : Depth parent r x d)
    (hlt : ∀ a, Above parent a x → a < n) : d < n := by
  obtain ⟨l, hlength, hnodup, habove⟩ := h.exists_chain
  have hle := length_le_of_lt hnodup fun a ha => hlt a (habove a ha)
  omega

end Fhttp.Lib.Forest
