import Fhttp.Lib.ForestSum
import Fhttp.Http2.PriorityCalls

/-!
# The bytes of a subtree

A node of the priority tree counts the bytes that were sent for its stream, and keeps
the sum of these counts over its subtree in `subtreeBytes`.  The sums decide about the
order of siblings.  `addBytes` adds to the counter of a node and to the sums of all
nodes above it.

The sums are not touched when nodes get other parents.  `AdjustStream` moves a node
with the bytes of its subtree to another parent, and `removeNode` takes away a node with
its counter and all its kids but the first.  `subtreeBytes_eq_of_keepsTally` is about
the runs in which what is moved or taken away has sent nothing.  `moved_bytes` shows what
happens otherwise.
-/

namespace Fhttp.Http2

open Lib.Panic Lib.Run Lib.LinkedTree Lib.Forest
open Function (update update_of_ne update_self)
open PriorityTree
open Finset

/-- The sums are those of `int64`, with its overflow. -/
instance addCommMonoidInt64 : AddCommMonoid Int64 where
  add_assoc := Int64.add_assoc
  zero_add := Int64.zero_add
  add_zero := Int64.add_zero
  add_comm := Int64.add_comm
  nsmul := nsmulRec

namespace PriorityTree

/-- The sum of the counters of all nodes in the subtree of a node. -/
noncomputable def bytesBelow (t : PriorityTree) (n : Ref) : Int64 :=
  subtreeSum t.parent (range t.size) (fun x => (t.node x).bytes) n

/-- `subtreeBytes` is the counter of the node and the sums of its kids. -/
def Balanced (t : PriorityTree) (n : Ref) : Prop :=
  Tallied t.parent (range t.size) (fun x => (t.node x).bytes)
    (fun x => (t.node x).subtreeBytes) n

variable {t t' : PriorityTree} {kids : Ref → List Ref} {n y : Ref}

/-- Other fields change. -/
theorem Balanced.congr (h : Balanced t y) (hsize : t'.size = t.size)
    (hparent : t'.parent = t.parent)
    (hbytes : ∀ x, (t'.node x).bytes = (t.node x).bytes)
    (hsum : ∀ x, (t'.node x).subtreeBytes = (t.node x).subtreeBytes) : Balanced t' y := by
  unfold Balanced
  rw [hsize, hparent]
  simp only [hbytes, hsum]
  exact h

theorem Balanced.modify (h : Balanced t y) (n : Ref) {f : PriorityNode → PriorityNode}
    (hbytes : ∀ x, (f x).bytes = x.bytes) (hsum : ∀ x, (f x).subtreeBytes = x.subtreeBytes) :
    Balanced (t.modify n f) y := by
  exact h.congr rfl rfl (field_modify t n PriorityNode.bytes hbytes)
    (field_modify t n PriorityNode.subtreeBytes hsum)

/-- The counter of `n` and the sums above it change by the same amount. -/
theorem Balanced.count (hforest : Forested t kids) (h : Balanced t y) (hsize : t'.size = t.size)
    (hparent : t'.parent = t.parent) {b : Int64} (hself : (t'.node n).bytes = (t.node n).bytes + b)
    (hother : ∀ x, x ≠ n → (t'.node x).bytes = (t.node x).bytes)
    (habove : ∀ x, Above t.parent x n → (t'.node x).subtreeBytes = (t.node x).subtreeBytes + b)
    (hbeside : ∀ x, ¬ Above t.parent x n → (t'.node x).subtreeBytes = (t.node x).subtreeBytes) :
    Balanced t' y := by
  unfold Balanced
  rw [hsize, hparent]
  refine Tallied.add (x := n) (b := b) hforest.ended
    (fun hk => mem_range.mpr (hforest.alloc hk).1) h ?_ fun x => ?_
  · by_cases hy : y = n
    · rw [if_pos hy, hy, hself]
    · rw [if_neg hy, hother y hy]
  · by_cases hx : Above t.parent x n
    · rw [if_pos hx, habove x hx]
    · rw [if_neg hx, hbeside x hx]

/-- Whether nothing was sent for a subtree. -/
def unsent (t : PriorityTree) (n : Ref) : Bool := (t.node n).subtreeBytes == 0

theorem unsent_iff : t.unsent n = true ↔ (t.node n).subtreeBytes = 0 := beq_iff_eq

/-- Whether the first kid of a node has the same sum as the node, or nothing was sent
for it if it has no kid. -/
def replaceable (t : PriorityTree) (n : Ref) : Bool :=
  match t.links.kids n with
  | none => t.unsent n
  | some k => (t.node k).subtreeBytes == (t.node n).subtreeBytes

/-- Whether a node may be removed: it has no parent, or its first kid can take its
place. -/
def removable (t : PriorityTree) (n : Ref) : Bool := t.links.parent n == none || t.replaceable n

end PriorityTree

namespace PriorityWriteScheduler

variable {ws ws' : PriorityWriteScheduler} {n y : Ref}

/-! ## The invariant -/

/-- All sums are right. -/
structure Tally (ws : PriorityWriteScheduler) : Prop where
  base : ws.Base
  balanced : ∀ {y}, ws.Present y → ws.tree.Balanced y

theorem tally_new (cfg : PriorityWriteSchedulerConfig) : (new cfg).Tally where
  base := base_new cfg
  balanced := fun _ => tallied_of_childless nofun rfl rfl

namespace Tally

section

variable (h : ws.Tally)

include h

theorem present_lt (hy : ws.Present y) : y < ws.tree.size := by
  rcases hy with ⟨id, hid⟩ | ⟨p, hp⟩
  · exact (h.base.nodes hid).1
  · obtain ⟨kids, hforest⟩ := h.base.forest
    exact (hforest.alloc hp).1

/-- The sum of a node is the sum over its subtree. -/
theorem subtreeBytes_eq (hy : ws.Present y) :
    (ws.tree.node y).subtreeBytes = ws.tree.bytesBelow y := by
  obtain ⟨kids, hforest⟩ := h.base.forest
  exact eq_subtreeSum hforest.ended (fun hk => mem_range.mpr (hforest.alloc hk).1)
    (fun {k p} hk => .inr ⟨p, hk⟩) (fun y hy => h.balanced hy)
    (mem_range.mpr (h.present_lt hy)) hy

theorem setMaxID (maxID : UInt32) : Tally { ws with maxID := maxID } :=
  ⟨h.base.setOther maxID ws.writeThrottleLimit, h.balanced⟩

/-- The tree changes, but not the parents. -/
theorem of_tree {t : PriorityTree} (hbase : Base { ws with tree := t })
    (hparent : t.parent = ws.tree.parent) (hbal : ∀ y, ws.tree.Balanced y → t.Balanced y) :
    Tally { ws with tree := t } where
  base := hbase
  balanced := by
    intro y hy
    refine hbal y (h.balanced ?_)
    rcases hy with hy | ⟨p, hp⟩
    · exact .inl hy
    · rw [hparent] at hp
      exact .inr ⟨p, hp⟩

/-- A field other than the sums and the links changes. -/
theorem modify (n : Ref) {f : PriorityNode → PriorityNode} (hid : ∀ x, (f x).id = x.id)
    (hbytes : ∀ x, (f x).bytes = x.bytes) (hsum : ∀ x, (f x).subtreeBytes = x.subtreeBytes) :
    Tally { ws with tree := ws.tree.modify n f } :=
  h.of_tree (h.base.sameLinks (sameLinks_modify ws.tree n hid)) rfl
    fun _ hy => hy.modify n hbytes hsum

theorem added {streamID : UInt32} (hid : streamID ≠ 0) (state : PriorityNodeState) {p : Ref}
    (hp : p < ws.tree.size) : (ws.added streamID state p).Tally where
  base := h.base.added hid state hp
  balanced := by
    intro y hy
    obtain ⟨kids, hforest⟩ := h.base.forest
    have hnew : ws.tree.size ∉ range ws.tree.size := notMem_range_self
    have hrange : range (ws.tree.size + 1) =
        cons ws.tree.size (range ws.tree.size) hnew := by
      rw [cons_eq_insert, range_add_one]
    have hparent : ∀ x, x ≠ ws.tree.size →
        (ws.added streamID state p).tree.parent x = ws.tree.parent x := by
      intro x hx
      rw [parent_added, update_of_ne hx]
    have hnode : ∀ x, x ≠ ws.tree.size →
        (ws.added streamID state p).tree.node x = ws.tree.node x :=
      fun x hx => update_of_ne hx ..
    by_cases hsize : y = ws.tree.size
    · rw [hsize]
      refine tallied_of_childless (fun k _ hk => ?_) ?_ ?_
      · by_cases hks : k = ws.tree.size
        · rw [hks, parent_added, update_self] at hk
          exact Nat.ne_of_lt hp (Option.some.inj hk)
        · rw [hparent k hks] at hk
          exact Nat.lt_irrefl _ (hforest.alloc hk).2
      · rw [node_added_size]
      · rw [node_added_size]
    · have hold : ws.Present y := by
        rcases hy with ⟨id, hid⟩ | ⟨q, hq⟩
        · rcases nodes_added hid with ⟨_, hy⟩ | ⟨_, hid⟩
          · exact (hsize hy).elim
          · exact .inl ⟨id, hid⟩
        · rw [hparent y hsize] at hq
          exact .inr ⟨q, hq⟩
      show Tallied _ (range (ws.tree.size + 1)) _ _ y
      rw [hrange]
      refine (h.balanced hold).cons hnew hsize hparent ?_ (fun x hx => ?_) ?_
      · rw [hnode y hsize]
      · rw [hnode x hx]
      · rw [node_added_size]

/-- A node is removed whose first kid can take its place. -/
theorem removed (hbase : ws'.Base) (hremoved : Removed ws ws' n) (hn : ws.tree.removable n = true) :
    ws'.Tally where
  base := hbase
  balanced := by
    intro y hy
    obtain ⟨kids, hforest⟩ := h.base.forest
    obtain ⟨hyn, hold⟩ := hremoved.present h.base hy
    unfold PriorityTree.Balanced
    rw [hremoved.size, hremoved.node]
    unfold removable at hn
    rw [Bool.or_eq_true, beq_iff_eq] at hn
    have hmoved : ∀ k, (k = n → (ws.tree.node k).subtreeBytes ≠ 0 → ws.tree.parent n = none) →
        (ws.tree.links.kids n = some k → ws.tree.parent n ≠ some y) →
        (ws.tree.node k).subtreeBytes ≠ 0 →
        (ws'.tree.parent k = some y ↔ ws.tree.parent k = some y) := by
      intro k hself hfirst hsent
      rw [hremoved.parent k]
      split
      · rename_i hkn
        rw [hkn, hself hkn hsent]
      · split
        · rename_i hk
          rw [hforest.parent_of_first hk]
          exact iff_of_false (hfirst hk) fun heq => hyn (Option.some.inj heq).symm
        · rfl
    rcases hn with hroot | hn
    · have hroot : ws.tree.parent n = none := hroot
      refine (h.balanced hold).of_moved fun k _ hsent =>
        hmoved k (fun _ _ => hroot) (fun _ => ?_) hsent
      rw [hroot]
      exact (Option.some_ne_none y).symm
    unfold replaceable at hn
    cases hfirst : ws.tree.links.kids n with
    | none =>
      rw [hfirst] at hn
      refine (h.balanced hold).of_moved fun k _ hsent =>
        hmoved k (fun hkn hne => ?_) (fun hk => ?_) hsent
      · rw [hkn] at hne
        exact (hne (unsent_iff.mp hn)).elim
      · rw [hfirst] at hk
        cases hk
    | some k =>
      rw [hfirst] at hn
      have hk := hforest.parent_of_first hfirst
      obtain ⟨hklt, hnlt⟩ := hforest.alloc hk
      have hkn : k ≠ n := fun heq => (hforest.ended k).not_above_parent hk (heq ▸ .refl)
      refine (h.balanced hold).replace (mem_range.mpr hnlt) (mem_range.mpr hklt)
        hyn hk (beq_iff_eq.mp hn) ?_ ?_ fun x hxn hxk => ?_
      · rw [hremoved.parent n, if_pos rfl]
      · rw [hremoved.parent k, if_neg hkn, if_pos hfirst]
      · rw [hremoved.parent x, if_neg hxn, hfirst, if_neg fun heq => hxk (Option.some.inj heq).symm]

theorem evicted {m : Option Ref} (hbase : ws'.Base) (hevicted : Evicted ws ws' m)
    (hm : ∀ n ∈ m, ws.tree.removable n = true) : ws'.Tally := by
  cases m with
  | none =>
    rw [show ws' = ws from hevicted]
    exact h
  | some n => exact h.removed hbase hevicted (hm n rfl)

theorem closing {t : PriorityTree} (hbase : Base { ws with tree := t })
    (hclosing : Closing ws.tree t n) : Tally { ws with tree := t } := by
  obtain ⟨kids, hforest⟩ := h.base.forest
  have hparent : t.parent = ws.tree.parent := congrArg Pointers.parent hclosing.links
  refine h.of_tree hbase hparent fun y hy =>
    hy.count (n := n) (b := -(ws.tree.node n).bytes) hforest hclosing.size hparent ?_
      (fun x hx => ?_)
      (fun x hx => ?_) hclosing.other
  · rw [hclosing.self, Int64.add_neg_eq_sub, Int64.sub_self]
  · rw [hclosing.node x hx]
  · rw [hclosing.above x hx, Int64.add_neg_eq_sub]

variable {s : PopState}

theorem popped {wr : FrameWriteRequest} (hbase : s.ws.Base) (hs : PoppedAt ws n wr s) :
    s.ws.Tally := by
  obtain ⟨kids, hforest⟩ := h.base.forest
  refine ⟨hbase, fun {y} hy => ?_⟩
  have hold : ws.Present y := by
    rcases hy with ⟨id, hid⟩ | ⟨p, hp⟩
    · rw [hs.rest] at hid
      exact .inl ⟨id, hid⟩
    · rw [hs.parent] at hp
      exact .inr ⟨p, hp⟩
  refine (h.balanced hold).count (n := n) (b := Int64.ofNat wr.dataSize) hforest hs.size
    hs.parent ?_
    (fun x hx => ?_) hs.above hs.other
  · rw [hs.self]
  · rw [hs.node x hx]

theorem unpopped {flows : Flows} (hbase : s.ws.Base) (hs : Unpopped ws flows s) : s.ws.Tally := by
  have hrest := hs.rest
  rw [hrest] at hbase ⊢
  refine h.of_tree hbase hs.parent fun y hy => hy.congr hs.size hs.parent (fun x => ?_) fun x => ?_
  · rw [hs.node]
  · rw [hs.node]

/-- What is moved by `AdjustStream` has sent nothing.  A node that is moved keeps a parent. -/
theorem adjusted (hn : ws.Present n) {priority : PriorityParam} {t : PriorityTree}
    (hbase : Base { ws with tree := t }) (hadjusted : Adjusted ws n priority t)
    (hself : (ws.tree.node n).subtreeBytes = 0 ∨
      ws.tree.parent n = some ((ws.nodes priority.streamDep).getD root))
    (hfree : ∀ p, ws.nodes priority.streamDep = some p → n ≠ p → Above ws.tree.parent n p →
      (ws.tree.node p).subtreeBytes = 0)
    (hadopt : priority.exclusive = true → ∀ p, ws.nodes priority.streamDep = some p → n ≠ p →
      ∀ k, k ≠ n → ws.tree.parent k = some p → (ws.tree.node k).subtreeBytes = 0) :
    Tally { ws with tree := t } := by
  have hmoved : ∀ k, t.parent k ≠ ws.tree.parent k →
      (ws.tree.node k).subtreeBytes = 0 ∧ ws.Present k := by
    intro k hk
    rw [hadjusted.parent] at hk
    rcases adjustedParents_ne hk with
      ⟨rfl, hparent⟩ | ⟨p, hdep, hnp, ⟨rfl, habove⟩ | ⟨hexcl, hkn, hparent⟩⟩
    · exact ⟨hself.resolve_right hparent, hn⟩
    · exact ⟨hfree k hdep hnp habove, .inl ⟨_, hdep⟩⟩
    · exact ⟨hadopt hexcl p hdep hnp k hkn hparent, .inr ⟨p, hparent⟩⟩
  refine ⟨hbase, fun {y} hy => ?_⟩
  have hold : ws.Present y := by
    by_cases hsame : t.parent y = ws.tree.parent y
    · rcases hy with hy | ⟨p, hp⟩
      · exact .inl hy
      · exact .inr ⟨p, hsame.symm.trans hp⟩
    · exact (hmoved y hsame).2
  show t.Balanced y
  unfold PriorityTree.Balanced
  rw [hadjusted.size]
  simp only [hadjusted.field PriorityNode.bytes fun _ _ => rfl,
    hadjusted.field PriorityNode.subtreeBytes fun _ _ => rfl]
  refine (h.balanced hold).of_moved fun k _ hsent => ?_
  rw [Classical.not_not.mp fun hk => hsent (hmoved k hk).1]

end

end Tally

/-! ## The calls -/

/-- Whether the node `p` depends on the node `n`. -/
def dependsOn (t : PriorityTree) (p n : Ref) : Bool :=
  (isAncestorLoop t n t.size (t.links.parent p)).toOption == some true

variable {p : Ref}

theorem dependsOn_of_above {t : PriorityTree} {kids : Ref → List Ref} (h : Forested t kids)
    (hne : n ≠ p) (habove : Above t.parent n p) : dependsOn t p n = true := by
  obtain ⟨b, hloop, hb⟩ := isAncestor_spec h hne
  unfold dependsOn
  rw [hloop, hb.mpr habove]
  rfl

/-- Whether nothing was sent for the nodes that `n` gets from the node on which it is to
depend. -/
def adoptsUnsent (ws : PriorityWriteScheduler) (n : Ref) (priority : PriorityParam) : Bool :=
  !priority.exclusive ||
    match ws.nodes priority.streamDep with
    | none => true
    | some p =>
      (List.range ws.tree.size).all fun k =>
        ws.tree.links.parent k != some p || k == n || ws.tree.unsent k

/-- Whether nothing was sent for the node `n`, if it gets another parent, nor for the node on
which it is to depend, if that depends on `n`. -/
def movesUnsent (ws : PriorityWriteScheduler) (n : Ref) (priority : PriorityParam) : Bool :=
  (ws.tree.unsent n ||
      ws.tree.links.parent n == some ((ws.nodes priority.streamDep).getD root)) &&
    match ws.nodes priority.streamDep with
    | none => true
    | some p => n == p || ws.tree.unsent p || !dependsOn ws.tree p n

/-- The tree when a call removes a node.  `CloseStream` has taken back the bytes of its
stream by then. -/
def treeAtRemoval (ws : PriorityWriteScheduler) : Call → PriorityTree
  | .closeStream streamID =>
    match ws.nodes streamID with
    | none => ws.tree
    | some n => (ws.tree.addBytes n (-(ws.tree.node n).bytes)).toOption.getD ws.tree
  | _ => ws.tree

/-- Whether what a call moves has sent nothing, and what it removes can be replaced. -/
def keepsTally (ws : PriorityWriteScheduler) (c : Call) : Bool :=
  (ws.removed? c).all (ws.treeAtRemoval c).removable &&
    match c with
    | .adjustStream streamID priority =>
      match ws.nodes streamID with
      | some n => ws.movesUnsent n priority && ws.adoptsUnsent n priority
      | none => ws.adoptsUnsent ws.tree.size priority
    | _ => true

theorem adoptsUnsent_kid {priority : PriorityParam} (h : ws.adoptsUnsent n priority = true)
    (hexcl : priority.exclusive = true) {k : Ref} (hp : ws.nodes priority.streamDep = some p)
    (hk : ws.tree.parent k = some p) (hlt : k < ws.tree.size) (hkn : k ≠ n) :
    (ws.tree.node k).subtreeBytes = 0 := by
  unfold adoptsUnsent at h
  rw [hexcl, hp, Bool.not_true, Bool.false_or, List.all_eq_true] at h
  have hunsent := h k (List.mem_range.mpr hlt)
  rw [show ws.tree.links.parent k = some p from hk, bne_self_eq_false, Bool.false_or,
    beq_eq_false_iff_ne.mpr hkn, Bool.false_or] at hunsent
  exact unsent_iff.mp hunsent

namespace Tally

theorem openStream (h : ws.Tally) (streamID pusherID : UInt32) :
    Ends Tally (ws.openStream streamID pusherID) := by
  refine ends_of_told (((openStream_outcome h.base streamID pusherID).weaken
    fun _ he => he.1).imp fun ws' hws' => ?_)
  cases hws' with
  | @known n => exact h.modify n (fun _ => rfl) (fun _ => rfl) fun _ => rfl
  | new hn hp =>
    exact (h.added (h.base.ne_zero hn) .priorityNodeOpen (h.base.nodes hp).1).setMaxID _

variable {streamID : UInt32}

/-- The sums by which `keepsTally` decides about `CloseStream` are those of the tree after its
first part. -/
theorem removable_closing (h : ws.Base) (hn : ws.nodes streamID = some n) {t : PriorityTree}
    (hclosing : Closing ws.tree t n) (m : Ref) :
    (ws.treeAtRemoval (.closeStream streamID)).removable m = t.removable m := by
  obtain ⟨kids, hforest⟩ := h.forest
  obtain ⟨t₁, hadd, hcounted⟩ := addBytes_eq hforest (h.nodes hn).1 (-(ws.tree.node n).bytes)
  have hsum : ∀ x, (t₁.node x).subtreeBytes = (t.node x).subtreeBytes := by
    intro x
    by_cases hx : Above ws.tree.parent x n
    · rw [hcounted.above x hx, hclosing.above x hx, Int64.add_neg_eq_sub]
    · rw [hcounted.other x hx, hclosing.other x hx]
  have htree : ws.treeAtRemoval (.closeStream streamID) = t₁ := by
    unfold treeAtRemoval
    simp only [hn]
    rw [hadd]
    rfl
  unfold removable replaceable unsent
  rw [htree, hcounted.links, hclosing.links]
  simp only [hsum]

theorem closeStream (h : ws.Tally) (hkeeps : ws.keepsTally (.closeStream streamID) = true) :
    Ends Tally (ws.closeStream streamID) := by
  refine ends_of_told (((closeStream_outcome h.base streamID).weaken fun _ he => he.1).imp
    fun ws' hws' => ?_)
  cases hws' with
  | @mk n t ws₁ hid hn hclosing hbase hevicted hbase₁ hbase' =>
    unfold keepsTally at hkeeps
    rw [Bool.and_eq_true, Option.all_eq_true, removed?_closeStream hn] at hkeeps
    have htally₁ : ws₁.Tally := (h.closing hbase hclosing).evicted hbase₁ hevicted fun m hm =>
      (removable_closing h.base hn hclosing m).symm.trans (hkeeps.1 m hm)
    exact ⟨hbase', htally₁.balanced⟩

/-- What is moved for a node in the map has sent nothing. -/
theorem adjustKnown (h : ws.Tally) {streamID : UInt32} (hn : ws.nodes streamID = some n)
    {priority : PriorityParam} {t : PriorityTree} (hbase : Base { ws with tree := t })
    (hadjusted : Adjusted ws n priority t) (hmoves : ws.movesUnsent n priority = true)
    (hadopts : ws.adoptsUnsent n priority = true) : Tally { ws with tree := t } := by
  obtain ⟨kids, hforest⟩ := h.base.forest
  unfold movesUnsent at hmoves
  rw [Bool.and_eq_true, Bool.or_eq_true, beq_iff_eq] at hmoves
  refine h.adjusted (.inl ⟨streamID, hn⟩) hbase hadjusted
    (hmoves.1.imp_left unsent_iff.mp) (fun p hp hnp habove => ?_)
    fun hexcl p hp hnp k hkn hk => adoptsUnsent_kid hadopts hexcl hp hk (hforest.alloc hk).1 hkn
  have hfree := hmoves.2
  simp only [hp] at hfree
  rw [dependsOn_of_above hforest hnp habove, Bool.not_true, Bool.or_false,
    beq_eq_false_iff_ne.mpr hnp, Bool.false_or] at hfree
  exact unsent_iff.mp hfree

/-- A new node below the root changes nothing for another node. -/
theorem removable_added (hbase : ws.Base) {state : PriorityNodeState} {m : Ref} (hm : m ≠ root)
    (hlt : m < ws.tree.size) :
    (ws.added streamID state root).tree.removable m = ws.tree.removable m := by
  obtain ⟨kids, hforest⟩ := hbase.forest
  obtain ⟨kids', hforest', hkids⟩ := hforest.add
    { id := streamID, weight := priorityDefaultWeight, state := state } hbase.pos
  have hfirst : (ws.added streamID state root).tree.links.kids m = ws.tree.links.kids m := by
    rw [hforest.shape.head m, ← hkids m hm]
    exact hforest'.shape.head m
  have hparent : (ws.added streamID state root).tree.links.parent m = ws.tree.links.parent m :=
    parent_moved_of_ne _ _ (Nat.ne_of_lt hlt)
  unfold removable replaceable unsent
  rw [hfirst, hparent, node_added_of_lt _ _ _ hlt]
  cases hk : ws.tree.links.kids m with
  | none => rfl
  | some k =>
    simp only [node_added_of_lt streamID state root (hforest.alloc (hforest.parent_of_first hk)).1]

/-- A parent after a node was removed: it is the one before, or that of the removed node. -/
theorem parent_evicted {m : Option Ref} (hevicted : Evicted ws ws' m) {k q : Ref}
    (hk : ws'.tree.parent k = some q) :
    ws.tree.parent k = some q ∨
      ∃ x ∈ m, ws.tree.links.kids x = some k ∧ ws.tree.parent x = some q := by
  cases m with
  | none =>
    rw [show ws' = ws from hevicted] at hk
    exact .inl hk
  | some x =>
    rw [Removed.parent hevicted k] at hk
    split at hk
    · cases hk
    split at hk
    · rename_i hfirst
      exact .inr ⟨x, rfl, hfirst, hk⟩
    · exact .inl hk

/-- What is moved for a stream that gets an idle node has sent nothing. -/
theorem adjustNew (h : ws.Tally) {streamID : UInt32} (hid : streamID ≠ 0)
    {priority : PriorityParam} {ws₂ : PriorityWriteScheduler} {t : PriorityTree}
    (hevicted : Evicted (ws.addedIdle streamID) ws₂ (oldest? ws.idleNodes ws.maxIdleNodesInTree))
    (hbase₂ : ws₂.Base) (hself : ws₂.tree.parent ws.tree.size = some root)
    (hbase₃ : Base { ws₂ with idleNodes := ws.idleAfter })
    (hbase : Base { ws₂ with idleNodes := ws.idleAfter, tree := t })
    (hadjusted : Adjusted { ws₂ with idleNodes := ws.idleAfter } ws.tree.size priority t)
    (hadopts : ws.adoptsUnsent ws.tree.size priority = true)
    (hremovable : ∀ m ∈ oldest? ws.idleNodes ws.maxIdleNodesInTree, ws.tree.removable m = true) :
    Tally { ws₂ with idleNodes := ws.idleAfter, tree := t } := by
  obtain ⟨kids, hforest⟩ := h.base.forest
  have htally₁ : (ws.addedIdle streamID).Tally :=
    (h.setMaxID streamID).added hid .priorityNodeIdle h.base.pos
  have hparent₁ : (ws.addedIdle streamID).tree.parent =
      update ws.tree.parent ws.tree.size (some root) := parent_added ..
  have hremovable₁ : ∀ m ∈ oldest? ws.idleNodes ws.maxIdleNodesInTree,
      (ws.addedIdle streamID).tree.removable m = true := by
    intro m hm
    obtain ⟨hroot, hlt⟩ := h.base.idle (mem_of_oldest? hm)
    exact (removable_added (h.setMaxID streamID).base hroot hlt).trans (hremovable m hm)
  have htally₃ : Tally { ws₂ with idleNodes := ws.idleAfter } :=
    ⟨hbase₃, (htally₁.evicted hbase₂ hevicted hremovable₁).balanced⟩
  have hnone₁ : ∀ k, (ws.addedIdle streamID).tree.parent k ≠ some ws.tree.size := by
    intro k hk
    by_cases hkn : k = ws.tree.size
    · rw [hkn, hparent₁, update_self] at hk
      exact Nat.ne_of_lt h.base.pos (Option.some.inj hk)
    · rw [hparent₁, update_of_ne hkn] at hk
      exact Nat.lt_irrefl _ (hforest.alloc hk).2
  refine htally₃.adjusted (.inr ⟨root, hself⟩) hbase hadjusted (.inl ?_)
    (fun p _ hne habove => ?_) fun hexcl p hp hne k hkn hk => ?_
  · show (ws₂.tree.node ws.tree.size).subtreeBytes = 0
    rw [hevicted.node, show (ws.addedIdle streamID).tree.node ws.tree.size = _ from
      node_added_size ..]
  · obtain ⟨c, hc, _⟩ := habove.exists_child_above hne
    rcases parent_evicted hevicted hc with hc | ⟨m, _, _, hc⟩
    · exact (hnone₁ c hc).elim
    · exact (hnone₁ m hc).elim
  · have hdep : ws.nodes priority.streamDep = some p :=
      (nodes_added (hevicted.nodes hp)).elim (fun heq => (hne heq.2.symm).elim) fun hp => hp.2
    have hunsent : ∀ x, x ≠ ws.tree.size → (ws.addedIdle streamID).tree.parent x = some p →
        ((ws.addedIdle streamID).tree.node x).subtreeBytes = 0 := by
      intro x hx hxp
      rw [hparent₁, update_of_ne hx] at hxp
      have hlt := (hforest.alloc hxp).1
      rw [show (ws.addedIdle streamID).tree.node x = ws.tree.node x from node_added_of_lt _ _ _ hlt]
      exact adoptsUnsent_kid hadopts hexcl hdep hxp hlt hx
    show (ws₂.tree.node k).subtreeBytes = 0
    rw [hevicted.node]
    rcases parent_evicted hevicted hk with hk | ⟨m, hm, hfirst, hmp⟩
    · exact hunsent k hkn hk
    · have hr := hremovable₁ m hm
      unfold removable replaceable at hr
      rw [show (ws.addedIdle streamID).tree.links.parent m = some p from hmp, hfirst,
        Bool.or_eq_true, beq_iff_eq, beq_iff_eq] at hr
      rw [hr.resolve_left (Option.some_ne_none p)]
      exact hunsent m (Nat.ne_of_lt (h.base.idle (mem_of_oldest? hm)).2) hmp

theorem adjustStream (h : ws.Tally) {priority : PriorityParam}
    (hkeeps : ws.keepsTally (.adjustStream streamID priority) = true) :
    Ends Tally (ws.adjustStream streamID priority) := by
  refine ends_of_told ((adjustStream_outcome h.base streamID priority).imp
    fun ws' ⟨hid, hws'⟩ => ?_)
  unfold keepsTally at hkeeps
  rw [Bool.and_eq_true, Option.all_eq_true] at hkeeps
  obtain ⟨hremovable, hmoves⟩ := hkeeps
  cases hws' with
  | known hn hbase hadjusted =>
    simp only [hn] at hmoves
    rw [Bool.and_eq_true] at hmoves
    exact h.adjustKnown hn hbase hadjusted hmoves.1 hmoves.2
  | ignored => exact h
  | new hn hlt hmax hbase₁ hevicted hbase₂ hself hbase₃ hbase hadjusted =>
    simp only [hn] at hmoves
    rw [removed?_adjustStream hn hlt] at hremovable
    exact h.adjustNew hid hevicted hbase₂ hself hbase₃ hbase hadjusted hmoves hremovable

theorem push (h : ws.Tally) (wr : FrameWriteRequest) : Ends Tally (ws.push wr) := by
  cases htarget : ws.pushTarget? wr with
  | some n =>
    rw [push_eq htarget]
    exact h.modify n (fun _ => rfl) (fun _ => rfl) fun _ => rfl
  | none =>
    rw [push_panics htarget]
    trivial

theorem pop (go : Sorting) (h : ws.Tally) (flows : Flows) :
    Ends (fun s => s.ws.Tally) (ws.pop go flows) := by
  refine (pop_ends go h.base flows).imp fun s hs => ?_
  obtain ⟨hbase, hs | ⟨n, wr, hs⟩⟩ := hs
  · exact h.unpopped hbase hs
  · exact h.popped hbase hs

theorem step (go : Sorting) (h : ws.Tally) {c : Call} (hkeeps : ws.keepsTally c = true) :
    Ends Tally (ws.step go c) := by
  cases c with
  | openStream streamID pusherID => exact h.openStream streamID pusherID
  | closeStream streamID => exact h.closeStream hkeeps
  | adjustStream streamID priority => exact h.adjustStream hkeeps
  | push wr => exact h.push wr
  | pop flows => exact (h.pop go flows).map fun _ hs => hs

end Tally

/-! ## Runs -/

/-- In a run in which what is moved has sent nothing, and a removed node is replaced by a
kid with the same sum, `subtreeBytes` of every node is the sum of the counters in its
subtree. -/
theorem subtreeBytes_eq_of_keepsTally (go : Sorting) (cfg : PriorityWriteSchedulerConfig)
    (calls : List Call) (h : Always (step go) (keepsTally · · = true) (new cfg) calls) :
    Ends (fun ws => ∀ id n, ws.nodes id = some n →
        (ws.tree.node n).subtreeBytes = ws.tree.bytesBelow n)
      ((new cfg).run go calls) :=
  (ends_of_always (fun _ _ hws hc => Tally.step go hws hc) (tally_new cfg) h).imp
    fun _ hws id _ hn => hws.subtreeBytes_eq (Or.inl ⟨id, hn⟩)

/-- Streams 1 and 3 are siblings, and 5 bytes were sent for stream 1. -/
def sendingCalls : List Call :=
  [.openStream 1 0, .openStream 3 0,
    .push { write := .writeData 1 [1, 2, 3, 4, 5] true, stream := some 1 },
    .pop { stream := fun _ => 65535, conn := 65535, maxFrameSize := 16384 }]

/-- Stream 3, for which nothing was sent, is moved below stream 1, which is closed then. -/
theorem subtreeBytes_eq_of_keepsTally_sending :
    Ends (fun ws => ∀ id n, ws.nodes id = some n →
        (ws.tree.node n).subtreeBytes = ws.tree.bytesBelow n)
      ((new { maxClosedNodesInTree := 0 }).run keepOrder
        (sendingCalls ++ [.adjustStream 3 { streamDep := 1, exclusive := true, weight := 7 },
          .closeStream 1])) :=
  subtreeBytes_eq_of_keepsTally keepOrder { maxClosedNodesInTree := 0 } _ (by decide +kernel)

/-- Stream 1 is moved below stream 3.  The sum of stream 3 is still 0, but its subtree has
sent 5 bytes. -/
theorem moved_bytes :
    ∃ ws, (new {}).run keepOrder
        (sendingCalls ++ [.adjustStream 1 { streamDep := 3, exclusive := false, weight := 7 }]) =
          .ok ws ∧
      ws.nodes 3 = some 2 ∧ (ws.tree.node 2).subtreeBytes = 0 ∧ ws.tree.bytesBelow 2 = 5 := by
  obtain ⟨ws, hrun, hnode, hsum, hsize, hparent, hbytes⟩ : ∃ ws, (new {}).run keepOrder
        (sendingCalls ++ [.adjustStream 1 { streamDep := 3, exclusive := false, weight := 7 }]) =
          .ok ws ∧
      ws.nodes 3 = some 2 ∧ (ws.tree.node 2).subtreeBytes = 0 ∧ ws.tree.size = 3 ∧
      (ws.tree.parent 0 = none ∧ ws.tree.parent 1 = some 2) ∧
      (ws.tree.node 1).bytes = 5 ∧ (ws.tree.node 2).bytes = 0 :=
    ⟨_, rfl, rfl, rfl, rfl, ⟨rfl, rfl⟩, rfl, rfl⟩
  refine ⟨ws, hrun, hnode, hsum, ?_⟩
  classical
  unfold bytesBelow subtreeSum
  rw [hsize, sum_filter]
  have hzero : ¬ Above ws.tree.parent 2 0 := fun h => by cases h.eq_of_root hparent.1
  simp [sum_range_succ, hzero, Above.of_parent hparent.2, Above.refl, hbytes.1, hbytes.2]

end PriorityWriteScheduler

end Fhttp.Http2
