import Fhttp.Http2.PriorityCalls

/-!
# Every node of the scheduler is in the tree

`Pop` finds the frames of a stream by a walk from the root over first kids and next
siblings.  Hence every node in the scheduler's map must be reachable that way.
`Inv` is the invariant that gives it: the tree is well-formed, that is, a forest in which
every node that has a parent is below the root, and every node in the map is below the
root.

All calls keep it, but for one: a node that is removed should hand all its kids over
to its parent, and `removeNode` hands over the first one only.  Its loop goes on
with the sibling that the kid has in its new place.  `reachable_of_oneKid` is about
the runs in which no node with more than one kid is removed, and `orphaned` shows
what happens otherwise.
-/

namespace Fhttp.Http2

open Lib.Panic Lib.Run Lib.LinkedTree Lib.Forest
open Function (update_of_ne update_self)

namespace PriorityTree

/-- A well-formed tree, and the kids of its nodes. -/
structure Wf (t : PriorityTree) (kids : Ref → List Ref) : Prop where
  shape : Shape t.links kids
  parent_root : t.parent root = none
  rooted : ∀ {r p : Ref}, t.parent r = some p → Rooted t.parent root r
  alloc : ∀ {r p : Ref}, t.parent r = some p → r < t.size
  pos : root < t.size
  ids : ∀ {r : Ref}, r ≠ root → r < t.size → (t.node r).id ≠ 0

variable {t : PriorityTree} {kids : Ref → List Ref} {n r : Ref}

theorem Wf.rooted_root (h : Wf t kids) : Rooted t.parent root root :=
  ⟨0, .root h.parent_root⟩

/-- Rooted nodes have been made. -/
theorem Wf.lt_size (h : Wf t kids) (hr : Rooted t.parent root r) : r < t.size := by
  cases hp : t.parent r with
  | none =>
    rw [hr.eq_root hp]
    exact h.pos
  | some p => exact h.alloc hp

theorem Wf.forested (h : Wf t kids) : Forested t kids where
  shape := h.shape
  ended := by
    intro r
    cases hp : t.parent r with
    | none => exact ended_of_none hp
    | some p => exact ⟨root, h.rooted hp⟩
  alloc := fun hp => ⟨h.alloc hp, h.lt_size ((h.rooted hp).parent_eq hp)⟩

/-- Whether a node has at most one kid. -/
def oneKid (t : PriorityTree) (n : Ref) : Bool :=
  match t.links.kids n with
  | none => true
  | some k => (t.links.next k).isNone

theorem Forested.oneKid_iff (h : Forested t kids) : t.oneKid n = true ↔ (kids n).length ≤ 1 := by
  have hlinked := h.shape.linked n
  unfold oneKid
  rw [h.shape.head n]
  match hkids : kids n with
  | [] => exact ⟨fun _ => Nat.zero_le 1, fun _ => rfl⟩
  | [k] =>
    rw [hkids] at hlinked
    refine ⟨fun _ => Nat.le_refl 1, fun _ => ?_⟩
    show (t.links.next k).isNone = true
    rw [hlinked.2.1]
    rfl
  | k :: k' :: l =>
    rw [hkids] at hlinked
    refine ⟨fun hone => ?_, fun hle => ?_⟩
    · have hnone : (t.links.next k).isNone = true := hone
      rw [hlinked.2.1] at hnone
      cases hnone
    · simp only [List.length_cons] at hle
      omega

/-- A kid of a node with at most one kid is the first one. -/
theorem Forested.first_of_oneKid (h : Forested t kids) (hone : t.oneKid n = true)
    (hr : t.parent r = some n) : t.links.kids n = some r := by
  have hmem : r ∈ kids n := (h.shape.mem n r).mpr hr
  obtain ⟨k, hk⟩ := List.length_eq_one_iff.mp
    (Nat.le_antisymm (h.oneKid_iff.mp hone) (List.length_pos_of_mem hmem))
  rw [hk] at hmem
  rw [h.shape.head n, hk, List.mem_singleton.mp hmem]
  rfl

end PriorityTree

open PriorityTree

namespace PriorityWriteScheduler

variable {ws ws' : PriorityWriteScheduler} {n : Ref}

/-- Every node in the map is below the root, in a well-formed tree. -/
structure Inv (ws : PriorityWriteScheduler) : Prop where
  tree : ∃ kids, ws.tree.Wf kids
  nodes : ∀ {id n}, ws.nodes id = some n → Rooted ws.tree.parent root n ∧ (ws.tree.node n).id = id
  zero : ws.nodes 0 = some root
  /-- The nodes that are kept for a while may be in the tree or not. -/
  kept : ∀ {n}, n ∈ ws.closedNodes ∨ n ∈ ws.idleNodes → n ≠ root ∧ n < ws.tree.size

theorem inv_of_rooted (h : ws.Base)
    (hrooted : ∀ {y}, ws.Present y → Rooted ws.tree.parent root y) : ws.Inv where
  tree := by
    obtain ⟨kids, hforest⟩ := h.forest
    exact ⟨kids, hforest.shape, h.parent_root, fun hp => hrooted (.inr ⟨_, hp⟩),
      fun hp => (hforest.alloc hp).1, h.pos, h.ids⟩
  nodes := fun hn => ⟨hrooted (.inl ⟨_, hn⟩), (h.nodes hn).2⟩
  zero := h.zero
  kept := fun hn => hn.elim (fun hn => h.closed hn) fun hn => h.idle hn

theorem inv_new (cfg : PriorityWriteSchedulerConfig) : (new cfg).Inv := by
  refine inv_of_rooted (base_new cfg) fun {y} hy => ?_
  rcases hy with ⟨id, hid⟩ | ⟨p, hp⟩
  · have hite : (if id = 0 then some root else none) = some y := hid
    split at hite
    · cases hite
      exact ⟨0, .root rfl⟩
    · cases hite
  · cases hp

namespace Inv

section

variable (h : ws.Inv)

include h

theorem base : ws.Base := by
  obtain ⟨kids, hwf⟩ := h.tree
  exact ⟨⟨kids, hwf.forested⟩, hwf.parent_root, hwf.pos,
    fun hn => ⟨hwf.lt_size (h.nodes hn).1, (h.nodes hn).2⟩, h.zero, hwf.ids,
    fun hn => h.kept (.inl hn), fun hn => h.kept (.inr hn)⟩

theorem rooted {y : Ref} (hy : ws.Present y) : Rooted ws.tree.parent root y := by
  rcases hy with ⟨id, hid⟩ | ⟨p, hp⟩
  · exact (h.nodes hid).1
  · obtain ⟨kids, hwf⟩ := h.tree
    exact hwf.rooted hp

theorem setMaxID (maxID : UInt32) : Inv { ws with maxID := maxID } :=
  ⟨h.tree, h.nodes, h.zero, h.kept⟩

/-- Every node that gets another parent, or gets into the map, is below the root then. -/
theorem of_changed (hbase : ws'.Base) (hnodes : ∀ {id y}, ws'.nodes id = some y →
      ws.nodes id = some y ∨ Rooted ws'.tree.parent root y)
    (hchanged : ∀ y, ws'.tree.parent y ≠ ws.tree.parent y → Rooted ws'.tree.parent root y) :
    ws'.Inv := by
  have hkeep : ∀ {y}, ws.Present y → Rooted ws'.tree.parent root y :=
    fun hy => (h.rooted hy).of_changed hchanged
  refine inv_of_rooted hbase fun {y} hy => ?_
  rcases hy with ⟨id, hid⟩ | ⟨p, hp⟩
  · exact (hnodes hid).elim (fun hid => hkeep (.inl ⟨id, hid⟩)) fun hrooted => hrooted
  · by_cases hsame : ws'.tree.parent y = ws.tree.parent y
    · exact hkeep (.inr ⟨p, hsame.symm.trans hp⟩)
    · exact hchanged y hsame

/-- Neither the map nor the parents change. -/
theorem of_parent (hbase : ws'.Base) (hnodes : ws'.nodes = ws.nodes)
    (hparent : ws'.tree.parent = ws.tree.parent) : ws'.Inv :=
  h.of_changed hbase (fun hn => .inl (hnodes ▸ hn)) fun y hy => (hy (by rw [hparent])).elim

/-! ## Nodes that come and go -/

variable {streamID : UInt32} {p : Ref}

theorem added (hid : streamID ≠ 0) (state : PriorityNodeState) (hp : Rooted ws.tree.parent root p) :
    (ws.added streamID state p).Inv := by
  obtain ⟨kids, hwf⟩ := h.tree
  have hlt := hwf.lt_size hp
  have hother : ∀ a, a ≠ ws.tree.size →
      (ws.added streamID state p).tree.parent a = ws.tree.parent a := by
    intro a ha
    rw [parent_added, update_of_ne ha]
  have hnew : Rooted (ws.added streamID state p).tree.parent root ws.tree.size := by
    refine .step (p := p) ?_ (hp.of_unchanged fun a ha => hother a ?_)
    · rw [parent_added, update_self]
    · exact Nat.ne_of_lt (hwf.forested.lt_of_above ha hlt)
  refine h.of_changed (h.base.added hid state hlt) (fun hn => ?_) fun y hy => ?_
  · rcases nodes_added hn with ⟨_, rfl⟩ | ⟨_, hn⟩
    · exact .inr hnew
    · exact .inl hn
  · have hy : y = ws.tree.size := by
      by_contra hne
      exact hy (hother y hne)
    exact hy ▸ hnew

/-- A node with at most one kid is removed. -/
theorem removed (hbase : ws'.Base) (hremoved : Removed ws ws' n) (hn : n ≠ root)
    (hone : ws.tree.oneKid n = true) : ws'.Inv := by
  obtain ⟨kids, hforest⟩ := h.base.forest
  refine inv_of_rooted hbase fun hy => ?_
  obtain ⟨hyn, hy⟩ := hremoved.present h.base hy
  refine (h.rooted hy).bypass hyn hn (fun k hkn hk => ?_) fun k hkn hk => ?_
  · rw [hremoved.parent k, if_neg hkn, if_pos (hforest.first_of_oneKid hone hk)]
  · rw [hremoved.parent k, if_neg hkn, if_neg fun hfirst => hk (hforest.parent_of_first hfirst)]

theorem evicted (hbase : ws'.Base) {m : Option Ref} (hevicted : Evicted ws ws' m)
    (hm : ∀ n ∈ m, n ≠ root ∧ ws.tree.oneKid n = true) : ws'.Inv := by
  cases m with
  | none => exact (show ws' = ws from hevicted) ▸ h
  | some n => exact h.removed hbase hevicted (hm n rfl).1 (hm n rfl).2

/-! ## Priorities that are adjusted -/

/-- The new parent is below the root when `n` has been put below it. -/
theorem rooted_placed (hn : n ≠ root) (hnr : Rooted ws.tree.parent root n)
    (hp : Rooted ws.tree.parent root p) (hnp : n ≠ p) (exclusive : Bool) :
    Rooted (placedParents (freedParents ws.tree n p) n p exclusive) root p := by
  obtain ⟨kids, hforest⟩ := h.base.forest
  have hkeep : ∀ a, a ≠ n → a ≠ p → ws.tree.parent a ≠ some p →
      placedParents (freedParents ws.tree n p) n p exclusive a = ws.tree.parent a := by
    intro a han hap hkid
    rw [placedParents_of_ne hforest han, if_neg fun hex => hkid hex.2.1, freedParents_of_ne _ hap]
  have hself : placedParents (freedParents ws.tree n p) n p exclusive p =
      freedParents ws.tree n p p := by
    rw [placedParents_of_ne hforest hnp.symm, if_neg fun hex => hex.2.2 rfl]
  by_cases habove : Above ws.tree.parent n p
  · cases hq : ws.tree.parent n with
    | none => exact (hn (hnr.eq_root hq)).elim
    | some q =>
      have hnot : ∀ a, Above ws.tree.parent a q → ¬ Above ws.tree.parent n a :=
        fun a ha hna => hnr.not_above_parent hq (hna.trans ha)
      refine .step (hself.trans ((freedParents_of_above habove).trans hq))
        ((hnr.parent_eq hq).of_unchanged fun a ha => hkeep a ?_ ?_ ?_)
      · exact fun heq => hnot a ha (heq ▸ .refl)
      · exact fun heq => hnot a ha (heq ▸ habove)
      · exact fun hkid => hnot a ha (.step hkid habove)
  · refine hp.of_unchanged fun a ha => ?_
    have han : a ≠ n := fun heq => habove (heq ▸ ha)
    by_cases hap : a = p
    · rw [hap, hself, freedParents_of_not_above habove]
    · exact hkeep a han hap fun hkid => (hforest.ended a).not_above_parent hkid ha

theorem adjusted (hn : n ≠ root) (hnr : Rooted ws.tree.parent root n) {priority : PriorityParam}
    {t : PriorityTree} (hbase : Base { ws with tree := t }) (hadjusted : Adjusted ws n priority t) :
    Inv { ws with tree := t } := by
  refine h.of_changed hbase (fun hn => .inl hn) fun y hy => ?_
  rw [hadjusted.parent] at hy ⊢
  cases hdep : ws.nodes priority.streamDep with
  | none =>
    rw [hdep] at hy
    rcases adjustedParents_ne hy with ⟨rfl, _⟩ | ⟨p, hp, _⟩
    · refine .step (p := root) (update_self ..) ⟨0, .root ?_⟩
      exact (update_of_ne hn.symm ..).trans h.base.parent_root
    · cases hp
  | some p =>
    rw [hdep] at hy
    by_cases hnp : n = p
    · exact (hy (congrFun (if_pos hnp) y)).elim
    have hplaced := h.rooted_placed hn hnr (h.nodes hdep).1 hnp priority.exclusive
    have heq : adjustedParents ws.tree n priority.exclusive (some p) =
        placedParents (freedParents ws.tree n p) n p priority.exclusive := if_neg hnp
    have hself : Rooted (placedParents (freedParents ws.tree n p) n p priority.exclusive) root n :=
      hplaced.step (if_pos rfl)
    rw [heq]
    rcases adjustedParents_ne hy with ⟨rfl, _⟩ | ⟨q, hq, _, hmoved⟩
    · exact hself
    cases hq
    rcases hmoved with ⟨rfl, _⟩ | ⟨hexcl, hyn, hkid⟩
    · exact hplaced
    · obtain ⟨kids, hforest⟩ := h.base.forest
      have hyp : y ≠ p := fun heq => (hforest.ended y).not_above_parent hkid (heq ▸ .refl)
      refine hself.step ?_
      rw [placedParents_of_ne hforest hyn, if_pos ⟨hexcl, hkid, hyp⟩]

/-! ## The calls -/

theorem openStream (streamID pusherID : UInt32) : Ends Inv (ws.openStream streamID pusherID) := by
  refine ends_of_told (((openStream_outcome h.base streamID pusherID).weaken
    fun _ he => he.1).imp fun ws' hws' => ?_)
  cases hws' with
  | known hn hidle =>
    exact h.of_parent (h.base.sameLinks (sameLinks_modify _ _ fun _ => rfl)) rfl rfl
  | new hn hp =>
    exact (h.added (h.base.ne_zero hn) .priorityNodeOpen (h.nodes hp).1).setMaxID _

theorem closeStream (hone : ∀ n ∈ ws.removed? (.closeStream streamID), ws.tree.oneKid n = true) :
    Ends Inv (ws.closeStream streamID) := by
  refine ends_of_told (((closeStream_outcome h.base streamID).weaken fun _ he => he.1).imp
    fun ws' hws' => ?_)
  cases hws' with
  | @mk n t ws₁ hid hn hclosing hbase hevicted hbase₁ hbase' =>
    rw [removed?_closeStream hn] at hone
    have hinv := h.of_parent hbase rfl (congrArg Pointers.parent hclosing.links)
    have hinv₁ : ws₁.Inv := by
      refine hinv.evicted hbase₁ hevicted fun m hm => ⟨?_, ?_⟩
      · rcases mem_of_retired? hm with rfl | hm
        · exact h.base.ne_root hn hid
        · exact (h.base.closed hm).1
      · unfold oneKid
        rw [hclosing.links]
        exact hone m hm
    exact hinv₁.of_parent hbase' rfl rfl

theorem adjustStream {priority : PriorityParam}
    (hone : ∀ n ∈ ws.removed? (.adjustStream streamID priority), ws.tree.oneKid n = true) :
    Ends Inv (ws.adjustStream streamID priority) := by
  refine ends_of_told ((adjustStream_outcome h.base streamID priority).imp
    fun ws' ⟨hid, hws'⟩ => ?_)
  cases hws' with
  | known hn hbase hadjusted =>
    exact h.adjusted (h.base.ne_root hn hid) (h.nodes hn).1 hbase hadjusted
  | ignored => exact h
  | @new ws₂ t hn hlt hmax hbase₁ hevicted hbase₂ hself hbase₃ hbase hadjusted =>
    rw [removed?_adjustStream hn hlt] at hone
    obtain ⟨kids, hforest⟩ := h.base.forest
    obtain ⟨kids₁, hforest₁, hkids⟩ := hforest.add
      { id := streamID, weight := priorityDefaultWeight, state := .priorityNodeIdle } h.base.pos
    have hinv₁ : (ws.addedIdle streamID).Inv :=
      (h.setMaxID streamID).added hid .priorityNodeIdle (h.nodes h.zero).1
    have hinv₂ : ws₂.Inv := by
      refine hinv₁.evicted hbase₂ hevicted fun m hm => ?_
      have hroot := (h.base.idle (mem_of_oldest? hm)).1
      refine ⟨hroot, hforest₁.oneKid_iff.mpr ?_⟩
      rw [hkids m hroot]
      exact hforest.oneKid_iff.mp (hone m hm)
    have hinv₃ : Inv { ws₂ with idleNodes := ws.idleAfter } := hinv₂.of_parent hbase₃ rfl rfl
    exact hinv₃.adjusted (Nat.pos_iff_ne_zero.mp h.base.pos) (hinv₃.rooted (.inr ⟨root, hself⟩))
      hbase hadjusted

theorem push (wr : FrameWriteRequest) : Ends Inv (ws.push wr) := by
  cases hn : ws.pushTarget? wr with
  | none =>
    rw [push_panics hn]
    trivial
  | some n =>
    rw [push_eq hn]
    exact h.of_parent (h.base.sameLinks (sameLinks_modify _ _ fun _ => rfl)) rfl rfl

end

theorem pop (go : Sorting) (h : ws.Inv) (flows : Flows) :
    Ends (fun s => s.ws.Inv) (ws.pop go flows) := by
  refine (pop_ends go h.base flows).imp fun s hs => ?_
  obtain ⟨hbase, hs | ⟨n, wr, hs⟩⟩ := hs
  · exact h.of_parent hbase (by rw [hs.rest]) hs.parent
  · exact h.of_parent hbase (by rw [hs.rest]) hs.parent

end Inv

/-! ## Runs -/

theorem step_spec (go : Sorting) (h : ws.Inv) (c : Call)
    (hone : ∀ n ∈ ws.removed? c, ws.tree.oneKid n = true) : Ends Inv (ws.step go c) := by
  cases c with
  | openStream streamID pusherID => exact h.openStream streamID pusherID
  | push wr => exact h.push wr
  | pop flows => exact (h.pop go flows).map fun _ hs => hs
  | closeStream streamID => exact h.closeStream hone
  | adjustStream streamID priority => exact h.adjustStream hone

/-- Whether a call removes no node with more than one kid. -/
def removesOneKid (ws : PriorityWriteScheduler) (c : Call) : Bool :=
  (ws.removed? c).all ws.tree.oneKid

theorem ends_run (go : Sorting) (h : ws.Inv) {calls : List Call}
    (hone : Always (step go) (removesOneKid · · = true) ws calls) : Ends Inv (ws.run go calls) :=
  ends_of_always (fun _ c hws hc => step_spec go hws c ((Option.all_eq_true _ _).mp hc)) h hone

/-- In a run that removes no node with more than one kid, every node in the map can
be reached from the root by first kids and next siblings, and its chain of parents
ends at the root.  No call fails to end. -/
theorem reachable_of_oneKid (go : Sorting) (cfg : PriorityWriteSchedulerConfig)
    (calls : List Call) (hone : Always (step go) (removesOneKid · · = true) (new cfg) calls) :
    Ends (fun ws => ∀ id n, ws.nodes id = some n →
        Reach ws.tree.links root n ∧ Rooted ws.tree.parent root n)
      ((new cfg).run go calls) := by
  refine (ends_run go (inv_new cfg) hone).imp fun ws hinv id n hn => ?_
  obtain ⟨kids, hwf⟩ := hinv.tree
  exact ⟨hwf.shape.reach (hinv.nodes hn).1, (hinv.nodes hn).1⟩

/-- Stream 3 depends on stream 1 and then on stream 5, and stream 1 is closed. -/
theorem reachable_of_oneKid_adjusted :
    Ends (fun ws => ∀ id n, ws.nodes id = some n →
        Reach ws.tree.links root n ∧ Rooted ws.tree.parent root n)
      ((new { maxClosedNodesInTree := 0 }).run keepOrder
        [.openStream 1 0, .openStream 3 1, .openStream 5 1,
          .adjustStream 3 { streamDep := 5, exclusive := true, weight := 7 }, .closeStream 1,
          .push { write := .other 0, stream := some 3 },
          .pop { stream := fun _ => 65535, conn := 65535, maxFrameSize := 16384 }]) :=
  reachable_of_oneKid keepOrder { maxClosedNodesInTree := 0 } _ (by decide +kernel)

/-- Stream 1 has pushed the streams 3 and 5 when it is closed. -/
def orphaningCalls : List Call :=
  [.openStream 1 0, .openStream 3 1, .openStream 5 1, .closeStream 1]

/-- The node of stream 3 is in the map, but neither can it be reached from the root
nor do its parents lead there.  A frame of stream 3 is not found by `Pop`. -/
theorem orphaned :
    ∃ ws, (new { maxClosedNodesInTree := 0 }).run keepOrder orphaningCalls = .ok ws ∧
      ws.nodes 3 = some 2 ∧ ¬ Reach ws.tree.links root 2 ∧ ¬ Rooted ws.tree.parent root 2 ∧
      (do let ws ← ws.push { write := .other 0, stream := some 3 }
          let s ← ws.pop keepOrder
            { stream := fun _ => 65535, conn := 65535, maxFrameSize := 16384 }
          return s.wr) = .ok none := by
  refine ⟨_, rfl, rfl, fun h => ?_, fun h => ?_, rfl⟩
  · have hreach := h.mem_of_closed (S := ({0, 3} : Set Ref)) (Or.inl rfl)
      (fun p c hp hc => ?_) (fun p c hp hc => ?_)
    · rcases hreach with h2 | h2
      · cases h2
      · cases h2
    · rcases hp with rfl | rfl
      · exact Or.inr (Option.some.inj hc).symm
      · cases hc
    · rcases hp with rfl | rfl
      · cases hc
      · cases hc
  · have hroot := (h.parent_eq (p := 1) rfl).eq_root rfl
    cases hroot

end PriorityWriteScheduler

end Fhttp.Http2
