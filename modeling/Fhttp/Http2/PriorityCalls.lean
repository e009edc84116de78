import Fhttp.Lib.Run
import Fhttp.Http2.PriorityWalk

/-!
# What the calls of the priority scheduler do

`Base` holds of the scheduler after any calls: the nodes form a forest, and the map
and the two lists refer to nodes that have been made.  For each method of
`priorityWriteScheduler` there is a lemma that says when it returns, and what it has
changed then.  The invariants of whole runs are derived from these lemmas, without a
look at the links.
-/

namespace Fhttp.Http2

open Lib.Panic Lib.LinkedTree Lib.Forest PriorityTree
open Function (update update_apply update_eq_self update_of_ne update_self)
open List

namespace PriorityWriteScheduler

variable {ws ws' : PriorityWriteScheduler} {n : Ref}

/-- What holds of the scheduler after any calls. -/
structure Base (ws : PriorityWriteScheduler) : Prop where
  forest : ∃ kids, Forested ws.tree kids
  parent_root : ws.tree.parent root = none
  pos : root < ws.tree.size
  nodes : ∀ {id n}, ws.nodes id = some n → n < ws.tree.size ∧ (ws.tree.node n).id = id
  zero : ws.nodes 0 = some root
  ids : ∀ {n}, n ≠ root → n < ws.tree.size → (ws.tree.node n).id ≠ 0
  closed : ∀ {n}, n ∈ ws.closedNodes → n ≠ root ∧ n < ws.tree.size
  idle : ∀ {n}, n ∈ ws.idleNodes → n ≠ root ∧ n < ws.tree.size

theorem base_new (cfg : PriorityWriteSchedulerConfig) : (new cfg).Base where
  forest := ⟨_, forested_init⟩
  parent_root := rfl
  pos := Nat.one_pos
  nodes := by
    intro id n h
    have hite : (if id = 0 then some root else none) = some n := h
    split at hite
    · rename_i hid
      cases hite
      exact ⟨Nat.one_pos, hid.symm⟩
    · cases hite
  zero := rfl
  ids := fun hn hlt => (hn (Nat.lt_one_iff.mp hlt)).elim
  closed := nofun
  idle := nofun

/-- The nodes of the scheduler: those in the map, and those that have a parent. -/
def Present (ws : PriorityWriteScheduler) (y : Ref) : Prop :=
  (∃ id, ws.nodes id = some y) ∨ ∃ p, ws.tree.parent y = some p

namespace Base

/-- Fields change that the invariant does not read. -/
theorem setOther (h : ws.Base) (maxID : UInt32) (limit : Int32) :
    Base { ws with maxID := maxID, writeThrottleLimit := limit } :=
  ⟨h.forest, h.parent_root, h.pos, h.nodes, h.zero, h.ids, h.closed, h.idle⟩

/-- A node in the map, other than that of stream 0. -/
theorem ne_root (h : ws.Base) {id : UInt32} (hn : ws.nodes id = some n) (hid : id ≠ 0) :
    n ≠ root := by
  intro heq
  rw [heq] at hn
  exact hid ((h.nodes hn).2.symm.trans (h.nodes h.zero).2)

theorem ne_zero (h : ws.Base) {id : UInt32} (hn : ws.nodes id = none) : id ≠ 0 := by
  rintro rfl
  cases h.zero.symm.trans hn

/-- Two ids do not have the same node. -/
theorem id_unique (h : ws.Base) {id id' : UInt32} (hn : ws.nodes id = some n)
    (hn' : ws.nodes id' = some n) : id = id' :=
  (h.nodes hn).2.symm.trans (h.nodes hn').2

variable {t : PriorityTree}

/-- Changes of the tree that keep the nodes and their ids. -/
theorem of_tree (h : ws.Base) (hforest : ∃ kids, Forested t kids) (hroot : t.parent root = none)
    (hsize : t.size = ws.tree.size) (hid : ∀ r, (t.node r).id = (ws.tree.node r).id) :
    Base { ws with tree := t } where
  forest := hforest
  parent_root := hroot
  pos := by
    rw [hsize]
    exact h.pos
  nodes := by
    intro id n hn
    rw [hsize, hid]
    exact h.nodes hn
  zero := h.zero
  ids := by
    intro n hn hlt
    rw [hid]
    exact h.ids hn (hlt.trans_eq hsize)
  closed := fun hn => ⟨(h.closed hn).1, (h.closed hn).2.trans_eq hsize.symm⟩
  idle := fun hn => ⟨(h.idle hn).1, (h.idle hn).2.trans_eq hsize.symm⟩

theorem sameLinks (h : ws.Base) (hsame : SameLinks ws.tree t) : Base { ws with tree := t } := by
  obtain ⟨kids, hforest⟩ := h.forest
  refine h.of_tree ⟨kids, hforest.sameLinks hsame⟩ ?_ hsame.size hsame.id
  rw [parent, hsame.links]
  exact h.parent_root

end Base

/-! ## Nodes that come and go -/

/-- The scheduler after a node was added. -/
def added (ws : PriorityWriteScheduler) (streamID : UInt32) (state : PriorityNodeState)
    (parent : Ref) : PriorityWriteScheduler :=
  { ws with
    tree := (ws.tree.alloc
      { id := streamID, weight := priorityDefaultWeight, state := state }).moved
      ws.tree.size (some parent)
    nodes := fun id => if id = streamID then some ws.tree.size else ws.nodes id }

variable {p : Ref} {streamID : UInt32} {m : Option Ref} {wr : FrameWriteRequest} {s : PopState}

section

variable (streamID : UInt32) (state : PriorityNodeState)

theorem addNode_eq (hp : p < ws.tree.size) :
    ws.addNode streamID state p = .ok (ws.added streamID state p) := by
  unfold addNode
  simp only
  rw [setParent_eq _ fun heq => Nat.ne_of_lt hp (Option.some.inj heq)]
  rfl

theorem node_added_of_lt (p : Ref) {r : Ref} (hr : r < ws.tree.size) :
    (ws.added streamID state p).tree.node r = ws.tree.node r :=
  update_of_ne (Nat.ne_of_lt hr) ..

theorem node_added_size (p : Ref) :
    (ws.added streamID state p).tree.node ws.tree.size =
      { id := streamID, weight := priorityDefaultWeight, state := state } :=
  update_self ..

theorem parent_added (p : Ref) :
    (ws.added streamID state p).tree.parent = update ws.tree.parent ws.tree.size (some p) :=
  parent_moved ..

end

/-- The map after a node was added. -/
theorem nodes_added {state : PriorityNodeState} {id : UInt32}
    (hn : (ws.added streamID state p).nodes id = some n) :
    (id = streamID ∧ n = ws.tree.size) ∨ (id ≠ streamID ∧ ws.nodes id = some n) := by
  have hite : (if id = streamID then some ws.tree.size else ws.nodes id) = some n := hn
  split at hite
  · exact .inl ⟨‹_›, (Option.some.inj hite).symm⟩
  · exact .inr ⟨‹_›, hite⟩

theorem Base.added (h : ws.Base) (hid : streamID ≠ 0) (state : PriorityNodeState)
    (hp : p < ws.tree.size) :
    (ws.added streamID state p).Base where
  forest := by
    obtain ⟨kids, hforest⟩ := h.forest
    obtain ⟨kids', hforest', _⟩ := hforest.add _ hp
    exact ⟨kids', hforest'⟩
  parent_root := (parent_moved_of_ne _ _ (Nat.ne_of_lt h.pos)).trans h.parent_root
  pos := Nat.lt_succ_of_lt h.pos
  nodes := by
    intro id n hn
    rcases nodes_added hn with ⟨heq, rfl⟩ | ⟨_, hn⟩
    · rw [node_added_size]
      exact ⟨Nat.lt_succ_self _, heq.symm⟩
    · obtain ⟨hlt, hidn⟩ := h.nodes hn
      rw [node_added_of_lt _ _ _ hlt]
      exact ⟨Nat.lt_succ_of_lt hlt, hidn⟩
  zero := (if_neg hid.symm).trans h.zero
  ids := by
    intro n hn hlt
    rcases Nat.lt_succ_iff_lt_or_eq.mp hlt with hlt | rfl
    · rw [node_added_of_lt _ _ _ hlt]
      exact h.ids hn hlt
    · rw [node_added_size]
      exact hid
  closed := fun hn => ⟨(h.closed hn).1, Nat.lt_succ_of_lt (h.closed hn).2⟩
  idle := fun hn => ⟨(h.idle hn).1, Nat.lt_succ_of_lt (h.idle hn).2⟩

/-- What `removeNode` does. -/
structure Removed (ws ws' : PriorityWriteScheduler) (n : Ref) : Prop where
  rest : ws' = { ws with
    tree := ws'.tree
    nodes := fun id => if id = (ws.tree.node n).id then none else ws.nodes id }
  node : ws'.tree.node = ws.tree.node
  size : ws'.tree.size = ws.tree.size
  parent : ∀ y, ws'.tree.parent y =
    if y = n then none
    else if ws.tree.links.kids n = some y then ws.tree.parent n
    else ws.tree.parent y

/-- The map after a node was removed. -/
theorem Removed.nodes (h : Removed ws ws' n) {id : UInt32} {m : Ref} (hm : ws'.nodes id = some m) :
    id ≠ (ws.tree.node n).id ∧ ws.nodes id = some m := by
  rw [h.rest] at hm
  have hite : (if id = (ws.tree.node n).id then none else ws.nodes id) = some m := hm
  split at hite
  · cases hite
  · exact ⟨‹_›, hite⟩

variable {y : Ref} {list : List Ref} {maxSize : Int}

/-- The other nodes were there before. -/
theorem Removed.present (h : Removed ws ws' n) (hbase : ws.Base) (hy : ws'.Present y) :
    y ≠ n ∧ ws.Present y := by
  rcases hy with ⟨id, hid⟩ | ⟨p, hp⟩
  · obtain ⟨hne, hid⟩ := h.nodes hid
    refine ⟨?_, .inl ⟨id, hid⟩⟩
    rintro rfl
    exact hne (hbase.nodes hid).2.symm
  obtain ⟨kids, hforest⟩ := hbase.forest
  rw [h.parent y] at hp
  split at hp
  · cases hp
  refine ⟨‹_›, .inr ?_⟩
  split at hp
  · exact ⟨n, hforest.parent_of_first ‹_›⟩
  · exact ⟨p, hp⟩

theorem removeNode_eq (h : ws.Base) (hn : n ≠ root) (hlt : n < ws.tree.size) :
    ∃ ws', ws.removeNode n = .ok ws' ∧ ws'.Base ∧ Removed ws ws' n := by
  obtain ⟨kids, hforest⟩ := h.forest
  obtain ⟨t₁, kids₁, hloop, hforest₁, _, hsize, hnode, hparent₁⟩ := removeNodeLoop_eq hforest n
  obtain ⟨kids₂, hshape₂⟩ := exists_shape_moved hforest₁.shape n none
  have hforest₂ := hforest₁.detach hshape₂
  have hparent : ∀ y, (t₁.moved n none).parent y =
      if y = n then none
      else if ws.tree.links.kids n = some y then ws.tree.parent n
      else ws.tree.parent y := by
    intro y
    rw [parent_moved, update_apply, hparent₁ y]
  have hroot : (t₁.moved n none).parent root = none := by
    rw [hparent root, if_neg hn.symm, if_neg]
    · exact h.parent_root
    · intro hfirst
      have hp := hforest.parent_of_first hfirst
      rw [h.parent_root] at hp
      cases hp
  have hbase : Base { ws with tree := t₁.moved n none } :=
    h.of_tree ⟨kids₂, hforest₂⟩ hroot hsize fun r => by
      rw [show (t₁.moved n none).node = _ from hnode]
  have hidn : (t₁.node n).id = (ws.tree.node n).id := by rw [hnode]
  unfold removeNode
  rw [hloop]
  simp only [bind, Except.bind]
  rw [setParent_eq t₁ (Option.some_ne_none n).symm]
  simp only [hidn]
  refine ⟨_, rfl, ⟨hbase.forest, hbase.parent_root, hbase.pos, ?_, ?_, hbase.ids, hbase.closed,
    hbase.idle⟩, rfl, hnode, hsize, hparent⟩
  · intro id r hr
    have hite : (if id = (ws.tree.node n).id then none else ws.nodes id) = some r := hr
    split at hite
    · cases hite
    · exact hbase.nodes hite
  · exact (if_neg (h.ids hn hlt).symm).trans h.zero

/-- The node that a full list loses. -/
def oldest? (list : List Ref) (maxSize : Int) : Option Ref :=
  if (list.length : Int) = maxSize then list.head? else none

theorem mem_of_oldest? (hn : n ∈ oldest? list maxSize) : n ∈ list := by
  unfold oldest? at hn
  split at hn
  · exact mem_of_mem_head? hn
  · cases hn

/-- The list after a node was added to it. -/
def keptNodes (list : List Ref) (maxSize : Int) (n : Ref) : List Ref :=
  if maxSize = 0 then list
  else if (list.length : Int) = maxSize then list.tail ++ [n]
  else list ++ [n]

/-- A node may be removed. -/
def Evicted (ws ws' : PriorityWriteScheduler) : Option Ref → Prop
  | none => ws' = ws
  | some m => Removed ws ws' m

section

variable (h : Evicted ws ws' m)

include h

theorem Evicted.nodes {id : UInt32} (hy : ws'.nodes id = some y) : ws.nodes id = some y := by
  cases m with
  | none => exact (show ws' = ws from h) ▸ hy
  | some x => exact (Removed.nodes h hy).2

theorem Evicted.size : ws'.tree.size = ws.tree.size := by
  cases m with
  | none => rw [show ws' = ws from h]
  | some m => exact Removed.size h

theorem Evicted.node : ws'.tree.node = ws.tree.node := by
  cases m with
  | none => rw [show ws' = ws from h]
  | some m => exact Removed.node h

/-- A node that is neither removed nor a kid of the removed one keeps its parent. -/
theorem Evicted.parent_eq (hbase : ws.Base) (hy : y ∉ m)
    (hkid : ∀ x ∈ m, ws.tree.parent y ≠ some x) :
    ws'.tree.parent y = ws.tree.parent y := by
  cases m with
  | none => rw [show ws' = ws from h]
  | some x =>
    obtain ⟨kids, hforest⟩ := hbase.forest
    rw [Removed.parent h, if_neg fun heq => hy (congrArg some heq.symm),
      if_neg fun hfirst => hkid x rfl (hforest.parent_of_first hfirst)]

/-- Only the tree and the map change. -/
theorem Evicted.rest : ws' = { ws with tree := ws'.tree, nodes := ws'.nodes } := by
  cases m with
  | none => rw [show ws' = ws from h]
  | some m => rw [Removed.rest h]

end

theorem addClosedOrIdleNode_eq (h : ws.Base) (hlist : ∀ m ∈ list, m ≠ root ∧ m < ws.tree.size)
    (maxSize : Int) (n : Ref) :
    ∃ ws', ws.addClosedOrIdleNode list maxSize n = .ok (ws', keptNodes list maxSize n) ∧
      ws'.Base ∧ Evicted ws ws' (oldest? list maxSize) := by
  unfold addClosedOrIdleNode keptNodes oldest?
  by_cases hzero : maxSize = 0
  · rw [if_pos hzero, if_pos hzero]
    refine ⟨ws, rfl, h, ?_⟩
    split
    · rename_i hfull
      cases list with
      | nil => rfl
      | cons m rest =>
        rw [length_cons] at hfull
        omega
    · rfl
  rw [if_neg hzero, if_neg hzero]
  by_cases hfull : (list.length : Int) = maxSize
  · rw [if_pos hfull, if_pos hfull, if_pos hfull]
    cases list with
    | nil => exact (hzero hfull.symm).elim
    | cons oldest rest =>
      obtain ⟨hroot, hlt⟩ := hlist oldest mem_cons_self
      obtain ⟨ws', hremove, hbase, hremoved⟩ := removeNode_eq h hroot hlt
      refine ⟨ws', ?_, hbase, hremoved⟩
      simp only
      rw [hremove]
      rfl
  · rw [if_neg hfull, if_neg hfull, if_neg hfull]
    exact ⟨ws, rfl, h, rfl⟩

/-- The nodes that stay in the list. -/
theorem keptNodes_eq (list : List Ref) (n : Ref) (hmax : maxSize ≠ 0) :
    ∃ rest, keptNodes list maxSize n = rest ++ [n] ∧ rest.Sublist list ∧
      ∀ m ∈ oldest? list maxSize, list = m :: rest := by
  unfold keptNodes oldest?
  rw [if_neg hmax]
  split
  · refine ⟨list.tail, rfl, tail_sublist list, fun m hm => ?_⟩
    cases list with
    | nil => cases hm
    | cons a l =>
      cases hm
      rfl
  · exact ⟨list, rfl, .refl list, fun m hm => by cases hm⟩

theorem mem_keptNodes {m : Ref} (hm : m ∈ keptNodes list maxSize n) : m = n ∨ m ∈ list := by
  unfold keptNodes at hm
  split at hm
  · exact .inr hm
  split at hm
  · rcases mem_append.mp hm with hm | hm
    · exact .inr (mem_of_mem_tail hm)
    · exact .inl (mem_singleton.mp hm)
  · rcases mem_append.mp hm with hm | hm
    · exact .inr hm
    · exact .inl (mem_singleton.mp hm)

/-- The node that a call removes, if it removes one. -/
def removed? (ws : PriorityWriteScheduler) : Call → Option Ref
  | .closeStream streamID =>
    match ws.nodes streamID with
    | none => none
    | some n =>
      if ws.maxClosedNodesInTree > 0 then oldest? ws.closedNodes ws.maxClosedNodesInTree
      else some n
  | .adjustStream streamID _ =>
    match ws.nodes streamID with
    | some _ => none
    | none =>
      if streamID > ws.maxID then oldest? ws.idleNodes ws.maxIdleNodesInTree else none
  | _ => none

/-- A sorting that leaves siblings as they are. -/
def keepOrder : Sorting where
  sort := fun _ l => l
  perm := fun _ l => .refl l
  quotientLE := fun _ _ _ _ => false

/-! ## Streams that are opened and closed -/

/-- The panics of the calls that open, close and adjust a stream. -/
inductive Told : Fault → Prop where
  | opened (streamID : UInt32) : Told (.panic s!"stream {streamID} already opened")
  | closeRoot : Told (.panic "violation of WriteScheduler interface: cannot close stream 0")
  | unknown (streamID : UInt32) :
      Told (.panic s!"violation of WriteScheduler interface: unknown stream {streamID}")
  | closed (streamID : UInt32) :
      Told (.panic s!"violation of WriteScheduler interface: stream {streamID} already closed")
  | adjustRoot : Told (.panic "adjustPriority on root")

theorem ends_of_told {α : Type} {P : α → Prop} {x : Except Fault α} (h : Outcome Told P x) :
    Ends P x :=
  ends_iff.mpr (h.weaken fun _ he => by cases he <;> exact nofun)

/-- What `OpenStream` does to a stream that can be opened. -/
inductive Opened (ws : PriorityWriteScheduler) (streamID : UInt32) :
    PriorityWriteScheduler → Prop where
  | known {n : Ref} (hn : ws.nodes streamID = some n)
      (hidle : (ws.tree.node n).state = .priorityNodeIdle) :
      Opened ws streamID
        { ws with tree := ws.tree.modify n fun x => { x with state := .priorityNodeOpen } }
  | new {id : UInt32} {p : Ref} (hn : ws.nodes streamID = none) (hp : ws.nodes id = some p) :
      Opened ws streamID
        { ws.added streamID .priorityNodeOpen p with
          maxID := if streamID > ws.maxID then streamID else ws.maxID }

theorem openStream_outcome (h : ws.Base) (streamID pusherID : UInt32) :
    Outcome (fun e => Told e ∧ ∃ n, ws.nodes streamID = some n ∧
        (ws.tree.node n).state ≠ .priorityNodeIdle)
      (Opened ws streamID) (ws.openStream streamID pusherID) := by
  unfold openStream
  cases hn : ws.nodes streamID with
  | some n =>
    simp only
    split
    · exact ⟨.opened streamID, n, rfl, ‹_›⟩
    · exact .known hn (not_not.mp ‹_›)
  | none =>
    obtain ⟨id, hp⟩ : ∃ id, ws.nodes id = some ((ws.nodes pusherID).getD root) := by
      cases hpusher : ws.nodes pusherID with
      | none => exact ⟨0, h.zero⟩
      | some p => exact ⟨pusherID, hpusher⟩
    simp only
    rw [addNode_eq streamID _ (h.nodes hp).1]
    exact .new hn hp

/-- What the first part of `CloseStream` does to the tree. -/
structure Closing (t t' : PriorityTree) (n : Ref) : Prop where
  links : t'.links = t.links
  size : t'.size = t.size
  self : t'.node n =
    { t.node n with
      q := {}
      state := .priorityNodeClosed
      bytes := 0
      subtreeBytes := (t'.node n).subtreeBytes }
  node : ∀ y, y ≠ n → t'.node y = { t.node y with subtreeBytes := (t'.node y).subtreeBytes }
  above : ∀ y, Above t.parent y n →
    (t'.node y).subtreeBytes = (t.node y).subtreeBytes - (t.node n).bytes
  other : ∀ y, ¬ Above t.parent y n → (t'.node y).subtreeBytes = (t.node y).subtreeBytes

theorem Closing.sameLinks {t t' : PriorityTree} (h : Closing t t' n) : SameLinks t t' := by
  refine ⟨h.links, h.size, fun r => ?_⟩
  by_cases hr : r = n
  · rw [hr, h.self]
  · rw [h.node r hr]

theorem closeStream_eq (h : ws.Base) {streamID : UInt32} (hid : streamID ≠ 0)
    (hn : ws.nodes streamID = some n) (hopen : (ws.tree.node n).state = .priorityNodeOpen) :
    ∃ t', Closing ws.tree t' n ∧ Base { ws with tree := t' } ∧
      ws.closeStream streamID = { ws with tree := t' }.retire n := by
  obtain ⟨kids, hforest⟩ := h.forest
  let t₁ := ws.tree.modify n fun x => { x with state := .priorityNodeClosed }
  have hself₁ : t₁.node n = { ws.tree.node n with state := .priorityNodeClosed } :=
    update_self ..
  have hne₁ : ∀ y, y ≠ n → t₁.node y = ws.tree.node y := fun y hy => update_of_ne hy ..
  have hsame₁ : SameLinks ws.tree t₁ := sameLinks_modify _ _ fun _ => rfl
  obtain ⟨t₂, hadd, hcounted⟩ :=
    addBytes_eq (hforest.sameLinks hsame₁) (h.nodes hn).1 (-(t₁.node n).bytes)
  let t₃ := t₂.modify n fun x => { x with q := {} }
  have hself₃ : t₃.node n = { t₂.node n with q := {} } := update_self ..
  have hne₃ : ∀ y, y ≠ n → t₃.node y = t₂.node y := fun y hy => update_of_ne hy ..
  have hsum₁ : ∀ y, (t₁.node y).subtreeBytes = (ws.tree.node y).subtreeBytes := by
    intro y
    by_cases hy : y = n
    · rw [hy, hself₁]
    · rw [hne₁ y hy]
  have hsum₃ : ∀ y, (t₃.node y).subtreeBytes = (t₂.node y).subtreeBytes := by
    intro y
    by_cases hy : y = n
    · rw [hy, hself₃]
    · rw [hne₃ y hy]
  have hclosing : Closing ws.tree t₃ n := by
    refine ⟨hcounted.links, hcounted.size, ?_, fun y hy => ?_, fun y hy => ?_, fun y hy => ?_⟩
    · rw [hsum₃ n, hself₃, hcounted.node n, if_pos rfl, hself₁, Int64.add_neg_eq_sub,
        Int64.sub_self]
    · rw [hne₃ y hy]
      refine (hcounted.node y).trans ?_
      rw [if_neg hy, hne₁ y hy]
    · rw [hsum₃ y, hcounted.above y hy, hsum₁ y, hself₁, Int64.add_neg_eq_sub]
    · rw [hsum₃ y, hcounted.other y hy, hsum₁ y]
  refine ⟨t₃, hclosing, h.sameLinks hclosing.sameLinks, ?_⟩
  unfold closeStream
  rw [if_neg hid]
  simp only [hn]
  rw [if_neg (not_not_intro hopen)]
  rw [hadd]
  rfl

/-- The node that `CloseStream` removes in the end. -/
def retired? (ws : PriorityWriteScheduler) (n : Ref) : Option Ref :=
  if ws.maxClosedNodesInTree > 0 then oldest? ws.closedNodes ws.maxClosedNodesInTree else some n

/-- The closed nodes after a node was closed. -/
def closedAfter (ws : PriorityWriteScheduler) (n : Ref) : List Ref :=
  if ws.maxClosedNodesInTree > 0 then keptNodes ws.closedNodes ws.maxClosedNodesInTree n
  else ws.closedNodes

theorem mem_of_retired? {m : Ref} (hm : m ∈ ws.retired? n) : m = n ∨ m ∈ ws.closedNodes := by
  unfold retired? at hm
  split at hm
  · exact .inr (mem_of_oldest? hm)
  · exact .inl (Option.some.inj hm).symm

theorem mem_closedAfter {m : Ref} (hm : m ∈ ws.closedAfter n) : m = n ∨ m ∈ ws.closedNodes := by
  unfold closedAfter at hm
  split at hm
  · exact mem_keptNodes hm
  · exact .inr hm

theorem retire_eq (h : ws.Base) (hn : n ≠ root) (hlt : n < ws.tree.size) :
    ∃ ws₁, Evicted ws ws₁ (ws.retired? n) ∧ ws₁.Base ∧
      ws.retire n = .ok { ws₁ with closedNodes := ws.closedAfter n } ∧
      Base { ws₁ with closedNodes := ws.closedAfter n } := by
  unfold retire retired? closedAfter
  split
  · obtain ⟨ws₁, hadd, hbase, hevicted⟩ := addClosedOrIdleNode_eq h
      (fun m hm => h.closed hm) ws.maxClosedNodesInTree n
    refine ⟨ws₁, hevicted, hbase, ?_, hbase.forest, hbase.parent_root, hbase.pos, hbase.nodes,
      hbase.zero, hbase.ids, fun {m} hm => ?_, hbase.idle⟩
    · rw [hadd]
      rfl
    · have hsize : ws₁.tree.size = ws.tree.size := hevicted.size
      rw [hsize]
      rcases mem_keptNodes hm with rfl | hm
      · exact ⟨hn, hlt⟩
      · exact h.closed hm
  · obtain ⟨ws₁, hremove, hbase, hremoved⟩ := removeNode_eq h hn hlt
    have hlist : { ws₁ with closedNodes := ws.closedNodes } = ws₁ := by rw [hremoved.rest]
    refine ⟨ws₁, hremoved, hbase, ?_, ?_⟩
    · rw [hremove, hlist]
    · rw [hlist]
      exact hbase

/-- What `CloseStream` does to a stream that is open: its node is closed, and a node may be
removed. -/
inductive Closed (ws : PriorityWriteScheduler) (streamID : UInt32) :
    PriorityWriteScheduler → Prop where
  | mk {n : Ref} {t : PriorityTree} {ws₁ : PriorityWriteScheduler} (hid : streamID ≠ 0)
      (hn : ws.nodes streamID = some n) (hclosing : Closing ws.tree t n)
      (hbase : Base { ws with tree := t })
      (hevicted : Evicted { ws with tree := t } ws₁ (ws.retired? n)) (hbase₁ : ws₁.Base)
      (hbase' : Base { ws₁ with closedNodes := ws.closedAfter n }) :
      Closed ws streamID { ws₁ with closedNodes := ws.closedAfter n }

theorem closeStream_outcome (h : ws.Base) (streamID : UInt32) :
    Outcome (fun e => Told e ∧ (streamID ≠ 0 → ∀ n, ws.nodes streamID = some n →
        (ws.tree.node n).state ≠ .priorityNodeOpen))
      (Closed ws streamID) (ws.closeStream streamID) := by
  by_cases hid : streamID = 0
  · unfold closeStream
    rw [if_pos hid]
    exact ⟨.closeRoot, fun hne => (hne hid).elim⟩
  cases hn : ws.nodes streamID with
  | none =>
    unfold closeStream
    rw [if_neg hid]
    simp only [hn]
    exact ⟨.unknown streamID, nofun⟩
  | some n =>
    by_cases hopen : (ws.tree.node n).state = .priorityNodeOpen
    · obtain ⟨t, hclosing, hbase, hclose⟩ := closeStream_eq h hid hn hopen
      obtain ⟨ws₁, hevicted, hbase₁, hretire, hbase'⟩ := retire_eq hbase (h.ne_root hn hid)
        ((h.nodes hn).1.trans_eq hclosing.size.symm)
      rw [hclose, hretire]
      exact .mk hid hn hclosing hbase hevicted hbase₁ hbase'
    · unfold closeStream
      rw [if_neg hid]
      simp only [hn]
      rw [if_pos hopen]
      exact ⟨.closed streamID, fun _ m hm => Option.some.inj hm ▸ hopen⟩

theorem removed?_closeStream (hn : ws.nodes streamID = some n) :
    ws.removed? (.closeStream streamID) = ws.retired? n := by
  unfold removed?
  simp only [hn]
  rfl

/-! ## Priorities that are adjusted -/

open Classical in
/-- The parents after the new parent `p` of `n` was freed from `n`. -/
noncomputable def freedParents (t : PriorityTree) (n p : Ref) : Ref → Option Ref :=
  if Above t.parent n p then Function.update t.parent p (t.parent n) else t.parent

/-- The parents after `n` was put below `p`. -/
def placedParents (parent : Ref → Option Ref) (n p : Ref) (exclusive : Bool) (y : Ref) :
    Option Ref :=
  if y = n then some p
  else if exclusive = true ∧ parent y = some p then some n
  else parent y

/-- The parents after `AdjustStream` for the node `n`, with the node of the stream on
which it is to depend. -/
noncomputable def adjustedParents (t : PriorityTree) (n : Ref) (exclusive : Bool) :
    Option Ref → Ref → Option Ref
  | none => Function.update t.parent n (some root)
  | some p => if n = p then t.parent else placedParents (freedParents t n p) n p exclusive

/-- The weight of the node `n` after `AdjustStream`. -/
def adjustedWeight (t : PriorityTree) (n : Ref) (weight : UInt8) : Option Ref → UInt8
  | none => priorityDefaultWeight
  | some p => if n = p then (t.node n).weight else weight

theorem freedParents_of_ne (t : PriorityTree) (hy : y ≠ p) : freedParents t n p y = t.parent y := by
  unfold freedParents
  split
  · exact update_of_ne hy ..
  · rfl

section

variable {t : PriorityTree}

theorem freedParents_of_above (h : Above t.parent n p) : freedParents t n p p = t.parent n := by
  unfold freedParents
  rw [if_pos h]
  exact update_self ..

theorem freedParents_of_not_above (h : ¬ Above t.parent n p) : freedParents t n p = t.parent := by
  exact if_neg h

variable {kids : Ref → List Ref}

/-- The new parent does not depend on itself, also after it was moved. -/
theorem freedParents_ne_self (h : Forested t kids) : freedParents t n p p ≠ some p := by
  by_cases habove : Above t.parent n p
  · rw [freedParents_of_above habove]
    exact fun hp => (h.ended n).not_above_parent hp habove
  · rw [freedParents_of_not_above habove]
    exact fun hp => (h.ended p).not_above_parent hp .refl

/-- The parents of the other nodes, after `n` was put below `p`. -/
theorem placedParents_of_ne (h : Forested t kids) {y : Ref} (hy : y ≠ n) (exclusive : Bool) :
    placedParents (freedParents t n p) n p exclusive y =
      if exclusive = true ∧ t.parent y = some p ∧ y ≠ p then some n else freedParents t n p y := by
  unfold placedParents
  rw [if_neg hy]
  by_cases hyp : y = p
  · subst hyp
    rw [if_neg fun hex => freedParents_ne_self h hex.2, if_neg fun hex => hex.2.2 rfl]
  · simp only [freedParents_of_ne t hyp, ne_eq, hyp, not_false_eq_true, and_true]

/-- The nodes that get another parent. -/
theorem adjustedParents_ne {k : Ref} {exclusive : Bool} {dep : Option Ref}
    (hk : adjustedParents t n exclusive dep k ≠ t.parent k) :
    (k = n ∧ t.parent n ≠ some (dep.getD root)) ∨
      ∃ p, dep = some p ∧ n ≠ p ∧ ((k = p ∧ Above t.parent n p) ∨
        (exclusive = true ∧ k ≠ n ∧ t.parent k = some p)) := by
  cases dep with
  | none =>
    by_cases hkn : k = n
    · refine .inl ⟨hkn, fun hroot => hk ?_⟩
      rw [hkn]
      exact (update_self ..).trans hroot.symm
    · exact (hk (update_of_ne hkn ..)).elim
  | some p =>
    have hk : (if n = p then t.parent else placedParents (freedParents t n p) n p exclusive) k ≠
        t.parent k := hk
    by_cases hnp : n = p
    · exact (hk (by rw [if_pos hnp])).elim
    rw [if_neg hnp, placedParents] at hk
    by_cases hkn : k = n
    · rw [if_pos hkn, hkn] at hk
      exact .inl ⟨hkn, hk.symm⟩
    rw [if_neg hkn] at hk
    refine .inr ⟨p, rfl, hnp, ?_⟩
    by_cases hfreed : freedParents t n p k = t.parent k
    · rw [hfreed] at hk
      split at hk
      · rename_i hexcl
        exact .inr ⟨hexcl.1, hkn, hexcl.2⟩
      · exact (hk rfl).elim
    · refine .inl ⟨?_, ?_⟩
      · by_contra hkp
        exact hfreed (freedParents_of_ne t hkp)
      · by_contra habove
        exact hfreed (congrFun (freedParents_of_not_above habove) k)

/-- `freeParent` and the rest of `AdjustStream`, for another node as the parent. -/
theorem readjust_eq (h : Forested t kids) (hn : n < t.size) (hp : p < t.size) (hnp : n ≠ p)
    (exclusive : Bool) :
    ∃ t₁ t₂ kids', freeParent t n p = .ok t₁ ∧ adoptKids t₁ n p exclusive = .ok t₂ ∧
      Forested (t₂.moved n (some p)) kids' ∧ t₂.size = t.size ∧ t₂.node = t.node ∧
      (t₂.moved n (some p)).parent = placedParents (freedParents t n p) n p exclusive := by
  obtain ⟨t₁, kids₁, hfree, hforest₁, hsize₁, hnode₁, hnot, hsame, hfreed⟩ :=
    freeParent_eq h hp hnp
  obtain ⟨t₂, kids₂, hadopt, hforest₂, hsize₂, hnode₂, hparent⟩ :=
    place_eq hforest₁ (hn.trans_eq hsize₁.symm) (hp.trans_eq hsize₁.symm) hnot exclusive
  have hfreed' : t₁.parent = freedParents t n p := by
    unfold freedParents
    split
    · rename_i habove
      exact hfreed habove
    · rename_i habove
      exact hsame habove
  refine ⟨t₁, t₂, kids₂, hfree, hadopt, hforest₂, hsize₂.trans hsize₁, hnode₂.trans hnode₁, ?_⟩
  funext y
  rw [hparent y, ← hfreed']
  rfl

/-- What `AdjustStream` does for a node in the tree. -/
structure Adjusted (ws : PriorityWriteScheduler) (n : Ref) (priority : PriorityParam)
    (t' : PriorityTree) : Prop where
  size : t'.size = ws.tree.size
  node : t'.node = Function.update ws.tree.node n { ws.tree.node n with
    weight := adjustedWeight ws.tree n priority.weight (ws.nodes priority.streamDep) }
  parent : t'.parent = adjustedParents ws.tree n priority.exclusive (ws.nodes priority.streamDep)

/-- A field other than the weight. -/
theorem Adjusted.field {α : Type} {priority : PriorityParam} (h : Adjusted ws n priority t)
    (field : PriorityNode → α) (hfield : ∀ x w, field { x with weight := w } = field x) (m : Ref) :
    field (t.node m) = field (ws.tree.node m) := by
  rw [h.node]
  by_cases hm : m = n
  · rw [hm, update_self, hfield]
  · rw [update_of_ne hm]

end

theorem adjustNode_eq (h : ws.Base) (hn : n ≠ root) (hlt : n < ws.tree.size)
    (priority : PriorityParam) :
    ∃ t', ws.adjustNode n priority = .ok { ws with tree := t' } ∧ Base { ws with tree := t' } ∧
      Adjusted ws n priority t' := by
  obtain ⟨kids, hforest⟩ := h.forest
  have hfinish : ∀ {t : PriorityTree} {kids' : Ref → List Ref} {w : UInt8},
      Forested t kids' → t.size = ws.tree.size → t.node = ws.tree.node → t.parent root = none →
      Base { ws with tree := t.modify n fun x => { x with weight := w } } := by
    intro t kids' w hforest' hsize hnode hroot
    have hbase : Base { ws with tree := t } :=
      h.of_tree ⟨kids', hforest'⟩ hroot hsize fun r => by rw [hnode]
    exact hbase.sameLinks (sameLinks_modify t n fun _ => rfl)
  unfold adjustNode
  cases hdep : ws.nodes priority.streamDep with
  | none =>
    have hnot : ¬ Above ws.tree.parent n root := fun habove =>
      hn (habove.eq_of_root h.parent_root)
    obtain ⟨kids', hshape⟩ := exists_shape_moved hforest.shape n (some root)
    have hforest' := hforest.move hlt h.pos hnot hshape
    rw [setParent_eq _ fun heq => hn (Option.some.inj heq).symm]
    refine ⟨_, rfl, hfinish hforest' rfl rfl ?_, rfl, ?_, ?_⟩
    · rw [parent_moved_of_ne _ _ hn.symm]
      exact h.parent_root
    · rw [hdep]
      rfl
    · rw [hdep]
      exact parent_moved ..
  | some p =>
    simp only
    by_cases hnp : n = p
    · rw [if_pos hnp]
      refine ⟨ws.tree, rfl, h, rfl, ?_, ?_⟩
      · rw [hdep]
        show _ = update ws.tree.node n { ws.tree.node n with weight := if n = p then _ else _ }
        rw [if_pos hnp]
        exact (update_eq_self n ws.tree.node).symm
      · rw [hdep]
        exact (if_pos hnp).symm
    · obtain ⟨t₁, t₂, kids', hfree, hadopt, hforest', hsize, hnode, hparent⟩ :=
        readjust_eq hforest hlt (h.nodes hdep).1 hnp priority.exclusive
      rw [if_neg hnp, hfree]
      simp only [bind, Except.bind]
      rw [hadopt]
      simp only
      rw [setParent_eq t₂ fun heq => hnp (Option.some.inj heq).symm]
      refine ⟨_, rfl, hfinish hforest' hsize hnode ?_, hsize, ?_, ?_⟩
      · rw [hparent]
        unfold placedParents freedParents
        rw [if_neg hn.symm]
        split
        · rename_i habove
          have hroot : update ws.tree.parent p (ws.tree.parent n) root = none := by
            rw [update_of_ne]
            · exact h.parent_root
            · intro heq
              rw [← heq] at habove
              exact hn (habove.eq_of_root h.parent_root)
          rw [hroot, if_neg]
          exact fun hfalse => by cases hfalse.2
        · rw [h.parent_root, if_neg]
          exact fun hfalse => by cases hfalse.2
      · rw [hdep]
        show update t₂.node n { t₂.node n with weight := _ } =
          update ws.tree.node n { ws.tree.node n with weight := if n = p then _ else _ }
        rw [if_neg hnp, hnode]
      · rw [hdep]
        show (t₂.moved n (some p)).parent = if n = p then _ else _
        rw [if_neg hnp]
        exact hparent

/-- The scheduler after an idle node was added for a stream. -/
def addedIdle (ws : PriorityWriteScheduler) (streamID : UInt32) : PriorityWriteScheduler :=
  { ws with maxID := streamID }.added streamID .priorityNodeIdle root

/-- The list of idle nodes after that. -/
def idleAfter (ws : PriorityWriteScheduler) : List Ref :=
  keptNodes ws.idleNodes ws.maxIdleNodesInTree ws.tree.size

/-- What `AdjustStream` does to another stream than 0: its node is adjusted, or nothing happens,
or it gets an idle node, for which a node may be removed. -/
inductive AdjustedStream (ws : PriorityWriteScheduler) (streamID : UInt32)
    (priority : PriorityParam) : PriorityWriteScheduler → Prop where
  | known {n : Ref} {t : PriorityTree} (hn : ws.nodes streamID = some n)
      (hbase : Base { ws with tree := t }) (hadjusted : Adjusted ws n priority t) :
      AdjustedStream ws streamID priority { ws with tree := t }
  | ignored (hn : ws.nodes streamID = none) : AdjustedStream ws streamID priority ws
  | new {ws₂ : PriorityWriteScheduler} {t : PriorityTree} (hn : ws.nodes streamID = none)
      (hlt : ws.maxID < streamID) (hmax : ws.maxIdleNodesInTree ≠ 0)
      (hbase₁ : (ws.addedIdle streamID).Base)
      (hevicted : Evicted (ws.addedIdle streamID) ws₂
        (oldest? ws.idleNodes ws.maxIdleNodesInTree))
      (hbase₂ : ws₂.Base) (hself : ws₂.tree.parent ws.tree.size = some root)
      (hbase₃ : Base { ws₂ with idleNodes := ws.idleAfter })
      (hbase : Base { ws₂ with idleNodes := ws.idleAfter, tree := t })
      (hadjusted : Adjusted { ws₂ with idleNodes := ws.idleAfter } ws.tree.size priority t) :
      AdjustedStream ws streamID priority { ws₂ with idleNodes := ws.idleAfter, tree := t }

theorem adjustStream_known (hid : streamID ≠ 0) (hn : ws.nodes streamID = some n)
    (priority : PriorityParam) : ws.adjustStream streamID priority = ws.adjustNode n priority := by
  unfold adjustStream
  rw [if_neg hid, hn]

/-- `AdjustStream` for a stream that gets an idle node. -/
theorem adjustStream_new (h : ws.Base) (hid : streamID ≠ 0) (hn : ws.nodes streamID = none)
    (hnew : ¬ (streamID ≤ ws.maxID ∨ ws.maxIdleNodesInTree = 0)) (priority : PriorityParam) :
    Returns (AdjustedStream ws streamID priority) (ws.adjustStream streamID priority) := by
  have hbase : Base { ws with maxID := streamID } := h.setOther streamID ws.writeThrottleLimit
  have hbase₁ := hbase.added hid .priorityNodeIdle h.pos
  obtain ⟨ws₂, hadd, hbase₂, hevicted⟩ := addClosedOrIdleNode_eq hbase₁
    (fun m hm => hbase₁.idle hm)
    ({ ws with maxID := streamID }.added streamID .priorityNodeIdle root).maxIdleNodesInTree
    ws.tree.size
  have hsize : ws₂.tree.size = ws.tree.size + 1 := hevicted.size
  have hroot : ws.tree.size ≠ root := Nat.pos_iff_ne_zero.mp h.pos
  have hbase₃ : Base { ws₂ with idleNodes := ws.idleAfter } := by
    refine ⟨hbase₂.forest, hbase₂.parent_root, hbase₂.pos, hbase₂.nodes, hbase₂.zero, hbase₂.ids,
      hbase₂.closed, fun {m} hm => ?_⟩
    rw [hsize]
    rcases mem_keptNodes hm with rfl | hm
    · exact ⟨hroot, Nat.lt_succ_self _⟩
    · exact ⟨(h.idle hm).1, Nat.lt_succ_of_lt (h.idle hm).2⟩
  obtain ⟨t', hadjust, hbase', hadjusted⟩ := adjustNode_eq hbase₃ hroot
    ((Nat.lt_succ_self _).trans_eq hsize.symm) priority
  have haddNode := addNode_eq streamID .priorityNodeIdle hbase.pos
  have heq : ws.adjustStream streamID priority =
      adjustNode { ws₂ with idleNodes := ws.idleAfter } ws.tree.size priority := by
    unfold adjustStream
    rw [if_neg hid]
    simp only [hn]
    rw [if_neg hnew, haddNode]
    simp only [bind, Except.bind]
    rw [hadd]
    rfl
  rw [not_or, UInt32.not_le] at hnew
  have hself₁ : (ws.addedIdle streamID).tree.parent ws.tree.size = some root := by
    rw [show (ws.addedIdle streamID).tree.parent = _ from parent_added .., update_self]
  have hself : ws₂.tree.parent ws.tree.size = some root := by
    refine (hevicted.parent_eq hbase₁ (fun hm => ?_) fun x hx heq => ?_).trans hself₁
    · exact Nat.lt_irrefl _ (h.idle (mem_of_oldest? hm)).2
    · exact (h.idle (mem_of_oldest? hx)).1 (Option.some.inj (heq.symm.trans hself₁))
  have hdone := AdjustedStream.new hn hnew.1 hnew.2 hbase₁ hevicted hbase₂ hself hbase₃ hbase'
    hadjusted
  rw [heq, hadjust]
  exact hdone

theorem adjustStream_returns (h : ws.Base) (hid : streamID ≠ 0) (priority : PriorityParam) :
    Returns (AdjustedStream ws streamID priority) (ws.adjustStream streamID priority) := by
  cases hn : ws.nodes streamID with
  | some n =>
    obtain ⟨t, hadjust, hbase, hadjusted⟩ :=
      adjustNode_eq h (h.ne_root hn hid) (h.nodes hn).1 priority
    rw [adjustStream_known hid hn, hadjust]
    exact .known hn hbase hadjusted
  | none =>
    by_cases hold : streamID ≤ ws.maxID ∨ ws.maxIdleNodesInTree = 0
    · unfold adjustStream
      rw [if_neg hid]
      simp only [hn]
      rw [if_pos hold]
      exact .ignored hn
    · exact adjustStream_new h hid hn hold priority

theorem adjustStream_outcome (h : ws.Base) (streamID : UInt32) (priority : PriorityParam) :
    Outcome Told (fun ws' => streamID ≠ 0 ∧ AdjustedStream ws streamID priority ws')
      (ws.adjustStream streamID priority) := by
  by_cases hid : streamID = 0
  · unfold adjustStream
    rw [if_pos hid]
    exact .adjustRoot
  · exact ((adjustStream_returns h hid priority).imp fun _ hws => ⟨hid, hws⟩).weaken
      fun _ hfalse => hfalse.elim

theorem removed?_adjustStream {priority : PriorityParam} (hn : ws.nodes streamID = none)
    (hlt : ws.maxID < streamID) : ws.removed? (.adjustStream streamID priority) =
      oldest? ws.idleNodes ws.maxIdleNodesInTree := by
  unfold removed?
  simp only [hn]
  exact if_pos hlt

/-! ## Frames that are pushed and popped -/

/-- The node to which `Push` adds a frame. -/
def pushTarget? (ws : PriorityWriteScheduler) (wr : FrameWriteRequest) : Option Ref :=
  if wr.streamID = 0 then some root
  else
    match ws.nodes wr.streamID with
    | some n => some n
    | none => if wr.dataSize > 0 then none else some root

theorem push_eq (hn : ws.pushTarget? wr = some n) :
    ws.push wr = .ok
      { ws with tree := ws.tree.modify n fun x => { x with q := x.q.push wr } } := by
  unfold pushTarget? at hn
  unfold push
  by_cases hid : wr.streamID = 0
  · rw [if_pos hid] at hn ⊢
    cases hn
    rfl
  rw [if_neg hid] at hn ⊢
  cases hnode : ws.nodes wr.streamID with
  | some m =>
    simp only [hnode] at hn ⊢
    cases hn
    rfl
  | none =>
    simp only [hnode] at hn ⊢
    by_cases hsize : wr.dataSize > 0
    · rw [if_pos hsize] at hn
      cases hn
    · rw [if_neg hsize] at hn ⊢
      cases hn
      rfl

/-- A frame for which there is no node. -/
theorem push_panics (hn : ws.pushTarget? wr = none) :
    ws.push wr = .error (.panic "add DATA on non-open stream") := by
  unfold pushTarget? at hn
  unfold push
  by_cases hid : wr.streamID = 0
  · rw [if_pos hid] at hn
    cases hn
  rw [if_neg hid] at hn ⊢
  cases hnode : ws.nodes wr.streamID with
  | some m =>
    simp only [hnode] at hn
    cases hn
  | none =>
    simp only [hnode] at hn ⊢
    by_cases hsize : wr.dataSize > 0
    · rw [if_pos hsize]
      rfl
    · rw [if_neg hsize] at hn
      cases hn

/-- The state of `Pop` before a frame was found. -/
structure Unpopped (ws : PriorityWriteScheduler) (flows : Flows) (s : PopState) : Prop where
  rest : s.ws = { ws with tree := s.ws.tree }
  node : s.ws.tree.node = ws.tree.node
  parent : s.ws.tree.parent = ws.tree.parent
  size : s.ws.tree.size = ws.tree.size
  flows : s.flows = flows
  frame : s.wr = none

/-- The state of `Pop` after the frame `wr` was taken from the queue of the node `n`. -/
structure PoppedAt (ws : PriorityWriteScheduler) (n : Ref) (wr : FrameWriteRequest) (s : PopState) :
    Prop where
  rooted : Rooted ws.tree.parent root n
  takes : Lib.Delivery.Takes FrameWriteRequest.Splits (ws.tree.node n).q.s wr (s.ws.tree.node n).q.s
  frame : s.wr = some wr
  rest : s.ws = { ws with
    tree := s.ws.tree
    writeThrottleLimit := s.ws.writeThrottleLimit }
  parent : s.ws.tree.parent = ws.tree.parent
  size : s.ws.tree.size = ws.tree.size
  self : s.ws.tree.node n =
    { ws.tree.node n with
      q := (s.ws.tree.node n).q
      bytes := (ws.tree.node n).bytes + Int64.ofNat wr.dataSize
      subtreeBytes := (s.ws.tree.node n).subtreeBytes }
  node : ∀ y, y ≠ n →
    s.ws.tree.node y = { ws.tree.node y with subtreeBytes := (s.ws.tree.node y).subtreeBytes }
  above : ∀ y, Above ws.tree.parent y n →
    (s.ws.tree.node y).subtreeBytes = (ws.tree.node y).subtreeBytes + Int64.ofNat wr.dataSize
  other : ∀ y, ¬ Above ws.tree.parent y n →
    (s.ws.tree.node y).subtreeBytes = (ws.tree.node y).subtreeBytes

theorem PoppedAt.id (h : PoppedAt ws n wr s) (r : Ref) :
    (s.ws.tree.node r).id = (ws.tree.node r).id := by
  by_cases hr : r = n
  · rw [hr, h.self]
  · rw [h.node r hr]

/-- The limit for the bytes that are taken from the queue of a node. -/
def popLimit (ws : PriorityWriteScheduler) (openParent : Bool) : Int32 :=
  if openParent then ws.writeThrottleLimit else maxInt32

theorem popNode_eq {flows : Flows} {kids : Ref → List Ref} (openParent : Bool)
    (hs : Unpopped ws flows s) (hforest : Forested s.ws.tree kids) (hn : n < s.ws.tree.size)
    (hrooted : Rooted s.ws.tree.parent root n)
    (hsound : ∀ wr ∈ (ws.tree.node n).q.s.head?, wr.Sound) :
    ∃ b s', popNode n openParent s = .ok (b, s') ∧ SameLinks s.ws.tree s'.ws.tree ∧
      ((b = false ∧ Unpopped ws flows s' ∧
          ∀ wr ∈ (ws.tree.node n).q.s.head?, wr.Blocked (ws.popLimit openParent) flows) ∨
        (b = true ∧ (∃ wr, PoppedAt ws n wr s') ∧
          ∃ wr ∈ (ws.tree.node n).q.s.head?, ¬ wr.Blocked (ws.popLimit openParent) flows)) := by
  have hlimit : (if openParent then s.ws.writeThrottleLimit else maxInt32) =
      ws.popLimit openParent := by
    rw [hs.rest]
    rfl
  have hnode : s.ws.tree.node n = ws.tree.node n := by rw [hs.node]
  unfold popNode
  simp only
  rw [hlimit, hnode, hs.flows]
  rcases (ws.tree.node n).q.consume_cases (ws.popLimit openParent) flows hsound with
    ⟨hconsume, hblocked⟩ | ⟨wr, rest, fl', hconsume, htakes, hfree⟩
  · have hsame : s.ws.tree.modify n (fun x => { x with q := (ws.tree.node n).q }) = s.ws.tree := by
      unfold PriorityTree.modify
      rw [← hnode]
      simp only [update_eq_self]
    rw [hconsume]
    refine ⟨false, _, rfl, ?_, .inl ⟨rfl, ⟨?_, ?_, ?_, ?_, rfl, rfl⟩, hblocked⟩⟩
    · rw [hsame]
      exact .refl _
    · rw [hsame]
      exact hs.rest
    · rw [hsame]
      exact hs.node
    · exact hs.parent
    · exact hs.size
  · let t₁ := s.ws.tree.modify n fun x => { x with q := ⟨rest⟩ }
    have hself₁ : t₁.node n = { ws.tree.node n with q := ⟨rest⟩ } := by
      rw [← hnode]
      exact update_self ..
    have hne₁ : ∀ y, y ≠ n → t₁.node y = ws.tree.node y := by
      intro y hy
      rw [← hs.node]
      exact update_of_ne hy ..
    have hsum₁ : ∀ y, (t₁.node y).subtreeBytes = (ws.tree.node y).subtreeBytes := by
      intro y
      by_cases hy : y = n
      · rw [hy, hself₁]
      · rw [hne₁ y hy]
    have hsame₁ : SameLinks s.ws.tree t₁ := sameLinks_modify _ _ fun _ => rfl
    obtain ⟨t₂, hadd, hcounted⟩ :=
      addBytes_eq (hforest.sameLinks hsame₁) hn (Int64.ofNat wr.dataSize)
    have hparent₁ : t₁.parent = ws.tree.parent := hs.parent
    have hself₂ : t₂.node n = { ws.tree.node n with
        q := ⟨rest⟩
        bytes := (ws.tree.node n).bytes + Int64.ofNat wr.dataSize
        subtreeBytes := (t₂.node n).subtreeBytes } := by
      refine (hcounted.node n).trans ?_
      rw [if_pos rfl, hself₁]
    have hq₂ : (t₂.node n).q = ⟨rest⟩ := by rw [hself₂]
    rw [← hq₂] at hself₂
    replace htakes :
        Lib.Delivery.Takes FrameWriteRequest.Splits (ws.tree.node n).q.s wr (t₂.node n).q.s := by
      rw [hq₂]
      exact htakes
    rw [hconsume]
    simp only [bind, Except.bind]
    rw [show addBytes (s.ws.tree.modify n fun x => { x with q := ⟨rest⟩ }) n _ = .ok t₂ from hadd]
    refine ⟨true, _, rfl, hsame₁.trans hcounted.sameLinks,
      .inr ⟨rfl, ⟨wr, ?_, ?_, rfl, ?_, ?_, ?_, ?_, fun y hy => ?_, fun y hy => ?_, fun y hy => ?_⟩,
        hfree⟩⟩
    · rw [← hs.parent]
      exact hrooted
    · exact htakes
    · rw [hs.rest]
    · exact (congrArg Pointers.parent hcounted.links).trans hparent₁
    · exact hcounted.size.trans hs.size
    · exact hself₂
    · refine (hcounted.node y).trans ?_
      rw [if_neg hy, hne₁ y hy]
    · rw [← hparent₁] at hy
      exact (hcounted.above y hy).trans (by rw [hsum₁ y])
    · rw [← hparent₁] at hy
      exact (hcounted.other y hy).trans (hsum₁ y)

/-- No frame in a queue makes `Pop` fail. -/
def QueuesSound (ws : PriorityWriteScheduler) : Prop :=
  ∀ n, ∀ wr ∈ (ws.tree.node n).q.s, wr.Sound

/-- What makes `Pop` fail. -/
def PopFault (ws : PriorityWriteScheduler) (e : Fault) : Prop := ¬ ws.QueuesSound ∧ e ≠ .diverges

theorem walkRule_popNode (ws : PriorityWriteScheduler) (flows : Flows) :
    WalkRule (fun s : PopState => s.ws.tree) (fun s t => { s with ws := { s.ws with tree := t } })
      popNode ws.PopFault
      fun b s => if b then ∃ n wr, PoppedAt ws n wr s else Unpopped ws flows s where
  get := fun _ _ => rfl
  sort := by
    intro s t hs hnode hsize hparent
    refine ⟨?_, hnode.trans hs.node, hparent.trans hs.parent, hsize.trans hs.size, hs.flows,
      hs.frame⟩
    rw [hs.rest]
  visit := by
    intro n s kids openParent hs hforest hlt hrooted _
    by_cases hsound : ∀ wr ∈ (ws.tree.node n).q.s.head?, wr.Sound
    · obtain ⟨b, s', hpop, hsame, hcases⟩ := popNode_eq openParent hs hforest hlt hrooted hsound
      rw [hpop]
      refine ⟨?_, hsame⟩
      rcases hcases with ⟨rfl, hunpopped, _⟩ | ⟨rfl, ⟨wr, hpopped⟩, _⟩
      · exact hunpopped
      · exact ⟨n, wr, hpopped⟩
    · obtain ⟨wr, hwr⟩ := not_forall.mp hsound
      obtain ⟨hhead, hwr⟩ := Classical.not_imp.mp hwr
      have hconsume := WriteQueue.consume_of_not_sound hhead hwr
      rw [← hs.node] at hconsume
      unfold popNode
      simp only
      rw [hconsume]
      exact ⟨fun h => hwr (h n wr (mem_of_mem_head? hhead)), fun h => by cases h⟩

theorem unpopped_start (ws : PriorityWriteScheduler) (flows : Flows) :
    Unpopped ws flows ⟨ws, flows, none⟩ := ⟨rfl, rfl, rfl, rfl, rfl, rfl⟩

variable (go : Sorting)

theorem pop_outcome (h : ws.Base) (flows : Flows) :
    Outcome ws.PopFault
      (fun s => s.ws.Base ∧ (Unpopped ws flows s ∨ ∃ n wr, PoppedAt ws n wr s))
      (ws.pop go flows) := by
  obtain ⟨kids, hforest⟩ := h.forest
  have hwalk := walk_spec go (walkRule_popNode ws flows) (n := root) false
    (s := ⟨ws, flows, none⟩) (unpopped_start ws flows) hforest h.pos (.root h.parent_root)
    (Nat.le_refl _)
  refine hwalk.bind fun r hr => ?_
  obtain ⟨b, s⟩ := r
  obtain ⟨hcases, kids', hsorted⟩ := hr
  have hforest' : ∃ kids', Forested s.ws.tree kids' := ⟨kids', hsorted.forest⟩
  have hroot : s.ws.tree.parent root = none := by
    rw [hsorted.parent]
    exact h.parent_root
  cases b with
  | false =>
    have hs : Unpopped ws flows s := hcases
    have hbase := h.of_tree hforest' hroot hs.size fun r => by rw [hs.node]
    rw [← hs.rest] at hbase
    exact ⟨hbase, .inl hs⟩
  | true =>
    obtain ⟨n, wr, hs⟩ : ∃ n wr, PoppedAt ws n wr s := hcases
    have hbase := h.of_tree hforest' hroot hs.size hs.id
    refine ⟨?_, .inr ⟨n, wr, hs⟩⟩
    rw [hs.rest]
    exact hbase.setOther ws.maxID s.ws.writeThrottleLimit

theorem pop_eq (h : ws.Base) (hsound : ws.QueuesSound) (flows : Flows) :
    ∃ s, ws.pop go flows = .ok s ∧ s.ws.Base ∧
      (Unpopped ws flows s ∨ ∃ n wr, PoppedAt ws n wr s) :=
  returns_iff.mp ((pop_outcome go h flows).weaken fun _ hfault => hfault.1 hsound)

theorem pop_ends (h : ws.Base) (flows : Flows) :
    Ends (fun s => s.ws.Base ∧ (Unpopped ws flows s ∨ ∃ n wr, PoppedAt ws n wr s))
      (ws.pop go flows) :=
  ends_iff.mpr ((pop_outcome go h flows).weaken fun _ hfault => hfault.2)

/-- A frame in the queue of the root that is not blocked is popped first. -/
theorem pop_root (h : ws.Base) (hsound : ws.QueuesSound) (flows : Flows)
    (hwr : wr ∈ (ws.tree.node root).q.s.head?) (hfree : ¬ wr.Blocked maxInt32 flows)
    (hpop : ws.pop go flows = .ok s) : ∃ wr, PoppedAt ws root wr s := by
  obtain ⟨kids, hforest⟩ := h.forest
  obtain ⟨b, s', hnode, _, hcases⟩ := popNode_eq false (unpopped_start ws flows) hforest
    h.pos ⟨0, .root h.parent_root⟩ fun wr hwr => hsound root wr (mem_of_mem_head? hwr)
  have hempty : ((ws.tree.node root).q).empty = false := by
    unfold WriteQueue.empty
    cases hs : (ws.tree.node root).q.s with
    | nil =>
      rw [hs] at hwr
      cases hwr
    | cons a l => rfl
  rcases hcases with ⟨_, _, hblocked⟩ | ⟨rfl, hpopped, _⟩
  · exact (hfree (hblocked wr hwr)).elim
  have hsize : ws.tree.size = (ws.tree.size - 1) + 1 :=
    (Nat.sub_add_cancel (Nat.one_le_of_lt h.pos)).symm
  have hdone : ws.pop go flows = .ok s' := by
    unfold pop
    rw [hsize, walkReadyInOrder, callReady, if_neg (by rw [hempty]; exact Bool.false_ne_true),
      hnode]
    rfl
  rw [hdone] at hpop
  cases hpop
  exact hpopped

end PriorityWriteScheduler

end Fhttp.Http2
