import Fhttp.Http2.PriorityReach

/-!
# Reprioritisation

What `AdjustStream` does to the dependencies of a stream that is in the tree, for every
well-formed tree (section 5.3.3 of RFC 7540).  If the stream is to depend on one of its
own dependencies, that one is moved to the former parent of the stream first.  With the
exclusive flag the stream gets all other dependencies of its new parent.
`adjustStream_reprioritises` says this for the parents of all nodes, and that the tree
is well-formed again and has the same nodes.
-/

namespace Fhttp.Http2

open Lib.Run Lib.Forest PriorityTree

/-- The nodes of a well-formed tree are the root and the nodes that have a parent. -/
theorem PriorityTree.Wf.rooted_iff {t : PriorityTree} {kids : Ref → List Ref} (h : t.Wf kids)
    {r : Ref} : Rooted t.parent root r ↔ r = root ∨ t.parent r ≠ none := by
  constructor
  · intro hr
    by_cases hp : t.parent r = none
    · exact .inl (hr.eq_root hp)
    · exact .inr hp
  · rintro (rfl | hp)
    · exact h.rooted_root
    · obtain ⟨p, hp⟩ := Option.ne_none_iff_exists'.mp hp
      exact h.rooted hp

namespace PriorityWriteScheduler

variable {ws : PriorityWriteScheduler} {n p : Ref}

/-- The node `n` depends on `p` now. -/
structure Reprioritised (t t' : PriorityTree) (n p : Ref) (priority : PriorityParam) : Prop where
  parent : t'.parent n = some p
  weight : (t'.node n).weight = priority.weight
  freed : Above t.parent n p → t'.parent p = t.parent n
  only : priority.exclusive = true → ∀ y, t'.parent y = some p ↔ y = n
  adopted : priority.exclusive = true → ∀ y, y ≠ n → t.parent y = some p → t'.parent y = some n
  other : ∀ y, y ≠ n → ¬ (y = p ∧ Above t.parent n p) →
    ¬ (priority.exclusive = true ∧ t.parent y = some p) → t'.parent y = t.parent y

/-- The node `n` depends on the root, with the default weight. -/
structure Defaulted (t t' : PriorityTree) (n : Ref) : Prop where
  parent : t'.parent n = some root
  weight : (t'.node n).weight = priorityDefaultWeight
  other : ∀ y, y ≠ n → t'.parent y = t.parent y

variable {t t' : PriorityTree} {priority : PriorityParam}

theorem Adjusted.reprioritised (h : ws.Base) (hnp : n ≠ p)
    (hp : ws.nodes priority.streamDep = some p) (hadjusted : Adjusted ws n priority t) :
    Reprioritised ws.tree t n p priority := by
  obtain ⟨kids, hforest⟩ := h.forest
  have hparent : t.parent = placedParents (freedParents ws.tree n p) n p priority.exclusive := by
    rw [hadjusted.parent, hp]
    exact if_neg hnp
  have hself : t.parent n = some p := by
    rw [hparent]
    exact if_pos rfl
  have hother : ∀ y, y ≠ n → t.parent y =
      if priority.exclusive = true ∧ ws.tree.parent y = some p ∧ y ≠ p then some n
      else freedParents ws.tree n p y := by
    intro y hy
    rw [hparent]
    exact placedParents_of_ne hforest hy priority.exclusive
  have hloop : ∀ {y}, ws.tree.parent y = some p → y ≠ p := by
    rintro y hy rfl
    exact (hforest.ended y).not_above_parent hy .refl
  refine ⟨hself, ?_, fun habove => ?_, fun hex y => ⟨fun hy => ?_, fun hy => ?_⟩,
    fun hex y hy hkid => ?_, fun y hy hmoved hkid => ?_⟩
  · rw [hadjusted.node, Function.update_self, hp]
    exact if_neg hnp
  · rw [hother p hnp.symm, if_neg fun hex => hex.2.2 rfl]
    exact freedParents_of_above habove
  · by_contra hne
    rw [hother y hne] at hy
    split at hy
    · exact hnp (Option.some.inj hy)
    · rename_i hkid
      by_cases hyp : y = p
      · rw [hyp] at hy
        exact freedParents_ne_self hforest hy
      · rw [freedParents_of_ne _ hyp] at hy
        exact hkid ⟨hex, hy, hyp⟩
  · rw [hy]
    exact hself
  · rw [hother y hy]
    exact if_pos ⟨hex, hkid, hloop hkid⟩
  · rw [hother y hy, if_neg fun hex => hkid ⟨hex.1, hex.2.1⟩]
    by_cases hyp : y = p
    · rw [freedParents_of_not_above fun habove => hmoved ⟨hyp, habove⟩]
    · exact freedParents_of_ne _ hyp

theorem Adjusted.defaulted (hp : ws.nodes priority.streamDep = none)
    (hadjusted : Adjusted ws n priority t) : Defaulted ws.tree t n := by
  have hparent : t.parent = Function.update ws.tree.parent n (some root) := by
    rw [hadjusted.parent, hp]
    rfl
  refine ⟨?_, ?_, fun y hy => ?_⟩
  · rw [hparent]
    exact Function.update_self ..
  · rw [hadjusted.node, Function.update_self, hp]
    rfl
  · rw [hparent]
    exact Function.update_of_ne hy ..

/-- A node has a parent afterwards if it had one before. -/
theorem Reprioritised.parent_eq_none (h : Reprioritised t t' n p priority) (hn : t.parent n ≠ none)
    (y : Ref) : t'.parent y = none ↔ t.parent y = none := by
  by_cases hy : y = n
  · rw [hy, h.parent]
    simp [hn]
  by_cases hkid : priority.exclusive = true ∧ t.parent y = some p
  · rw [h.adopted hkid.1 y hy hkid.2, hkid.2]
    simp
  by_cases hmoved : y = p ∧ Above t.parent n p
  · rw [hmoved.1, h.freed hmoved.2]
    refine ⟨fun hnone => (hn hnone).elim, fun hnone => ?_⟩
    have hroot := hmoved.2.eq_of_root hnone
    rw [hroot] at hn
    exact (hn hnone).elim
  · rw [h.other y hy hmoved hkid]

theorem Defaulted.parent_eq_none (h : Defaulted t t' n) (hn : t.parent n ≠ none) (y : Ref) :
    t'.parent y = none ↔ t.parent y = none := by
  by_cases hy : y = n
  · rw [hy, h.parent]
    simp [hn]
  · rw [h.other y hy]

/-- `AdjustStream` for a stream in the tree that is to depend on another one.  The tree
is well-formed afterwards, with the same nodes, of which only the weight of the stream
may have changed.  If the other stream is in the tree, the stream depends on it;
otherwise the stream gets the default priority. -/
theorem adjustStream_reprioritises (h : ws.Inv) {id : UInt32} (hid : id ≠ 0)
    (hn : ws.nodes id = some n) (priority : PriorityParam) (hdep : priority.streamDep ≠ id) :
    ∃ t, ws.adjustStream id priority = .ok { ws with tree := t } ∧ Inv { ws with tree := t } ∧
      (∀ r, Rooted t.parent root r ↔ Rooted ws.tree.parent root r) ∧
      (∀ r, t.node r = { ws.tree.node r with weight := (t.node r).weight }) ∧
      (∀ r, r ≠ n → t.node r = ws.tree.node r) ∧
      match ws.nodes priority.streamDep with
      | some p => Reprioritised ws.tree t n p priority
      | none => Defaulted ws.tree t n := by
  have hroot := h.base.ne_root hn hid
  have hrooted := (h.nodes hn).1
  obtain ⟨t, hok, hbase, hadjusted⟩ := adjustNode_eq h.base hroot (h.base.nodes hn).1 priority
  have hinv := h.adjusted hroot hrooted hbase hadjusted
  obtain ⟨kids, hwf⟩ := h.tree
  obtain ⟨kids', hwf'⟩ := hinv.tree
  have hparent : ws.tree.parent n ≠ none := fun hnone => hroot (hrooted.eq_root hnone)
  have hnode : ∀ r, r ≠ n → t.node r = ws.tree.node r := by
    intro r hr
    rw [hadjusted.node]
    exact Function.update_of_ne hr ..
  have hcases : (∀ y, t.parent y = none ↔ ws.tree.parent y = none) ∧
      match ws.nodes priority.streamDep with
      | some p => Reprioritised ws.tree t n p priority
      | none => Defaulted ws.tree t n := by
    cases hp : ws.nodes priority.streamDep with
    | none =>
      have hdefault := hadjusted.defaulted hp
      exact ⟨hdefault.parent_eq_none hparent, hdefault⟩
    | some p =>
      have hnp : n ≠ p := by
        rintro rfl
        exact hdep (h.base.id_unique hp hn)
      have hplaced := hadjusted.reprioritised h.base hnp hp
      exact ⟨hplaced.parent_eq_none hparent, hplaced⟩
  refine ⟨t, (adjustStream_known hid hn priority).trans hok, hinv, fun r => ?_,
    fun r => ?_, hnode, hcases.2⟩
  · have hr : Rooted t.parent root r ↔ r = root ∨ t.parent r ≠ none := hwf'.rooted_iff
    rw [hr, hwf.rooted_iff, ne_eq, ne_eq, hcases.1 r]
  · by_cases hr : r = n
    · rw [hr, hadjusted.node, Function.update_self]
    · rw [hnode r hr]

/-- Stream 3 depends on stream 1, which is then to depend on stream 3. -/
theorem adjustStream_reprioritises_dependency :
    ∃ ws t, (new {}).run keepOrder [.openStream 1 0, .openStream 3 1] = .ok ws ∧
      ws.adjustStream 1 { streamDep := 3, exclusive := true, weight := 7 } =
        .ok { ws with tree := t } ∧
      ws.nodes 1 = some 1 ∧ ws.nodes 3 = some 2 ∧ ws.tree.parent 2 = some 1 ∧
      t.parent 1 = some 2 ∧ t.parent 2 = some root := by
  obtain ⟨ws, hrun, hnode₁, hnode₃, hparent₁, hparent₃⟩ :
      ∃ ws, (new {}).run keepOrder [.openStream 1 0, .openStream 3 1] = .ok ws ∧
        ws.nodes 1 = some 1 ∧ ws.nodes 3 = some 2 ∧ ws.tree.parent 1 = some root ∧
        ws.tree.parent 2 = some 1 := ⟨_, rfl, rfl, rfl, rfl, rfl⟩
  have hinv := (ends_run keepOrder (inv_new {}) (by decide +kernel)).of_ok hrun
  obtain ⟨t, hadjust, _, _, _, _, hplaced⟩ := adjustStream_reprioritises hinv (by decide) hnode₁
    { streamDep := 3, exclusive := true, weight := 7 } (by decide)
  rw [hnode₃] at hplaced
  exact ⟨ws, t, hrun, hadjust, hnode₁, hnode₃, hparent₃, hplaced.parent,
    (hplaced.freed (.of_parent hparent₃)).trans hparent₁⟩

end PriorityWriteScheduler

end Fhttp.Http2
