import Fhttp.Http2.PriorityCalls

/-!
# Open streams stay known to the priority scheduler

A stream that is open must have an open node in the scheduler's map, or `Push` of a
DATA frame and `CloseStream` panic.  `Streams` are the streams that the caller has
opened and closed, and `legal` says which calls the interface `WriteScheduler`
allows.  `Life` relates the scheduler to the streams; every legal call keeps it, but
for one.

A stream that was idle when it got a node stays in `idleNodes` after it is opened.
When the list is full, the next idle stream makes `AdjustStream` remove the node,
whatever its state is.  `known_of_keepsOpen` is about the runs in which this does
not happen to an open stream, and `forgotten` shows one in which it does.
-/

namespace Fhttp.Http2

open Lib.Panic Lib.Run PriorityTree
open Function (update update_of_ne update_self)
open List

/-! ## Legal calls -/

namespace PriorityWriteScheduler

/-- The streams that have been opened, and those that have been closed. -/
structure Streams where
  opened : List UInt32 := []
  closed : List UInt32 := []

namespace Streams

/-- A stream that has been opened and not closed. -/
def isOpen (st : Streams) (id : UInt32) : Bool := id ∈ st.opened && id ∉ st.closed

/-- The calls that the interface allows.  A stream is opened once, and closed when it
is open.  Frames are pushed on open streams, but for RST_STREAM and the frames of the
connection.  A DATA frame belongs to an open stream. -/
def legal (st : Streams) : Call → Bool
  | .openStream streamID _ => streamID ≠ 0 && streamID ∉ st.opened
  | .closeStream streamID => st.isOpen streamID
  | .adjustStream streamID _ => streamID ≠ 0
  | .push wr =>
    (wr.streamID == 0 || st.isOpen wr.streamID || wr.isReset) &&
      (wr.dataSize == 0 || (wr.stream.isSome && st.isOpen wr.streamID))
  | .pop _ => true

/-- The streams after a call. -/
def after (st : Streams) : Call → Streams
  | .openStream streamID _ => { st with opened := streamID :: st.opened }
  | .closeStream streamID => { st with closed := streamID :: st.closed }
  | _ => st

/-- All calls of a sequence are legal. -/
def legalRun : Streams → List Call → Bool
  | _, [] => true
  | st, c :: calls => st.legal c && legalRun (st.after c) calls

/-- The state that the node of a stream should have. -/
def stateOf (st : Streams) (id : UInt32) : PriorityNodeState :=
  if id ∈ st.closed then .priorityNodeClosed
  else if id ∈ st.opened then .priorityNodeOpen
  else .priorityNodeIdle

variable {id streamID : UInt32}

section

variable {st : Streams}

theorem isOpen_iff : st.isOpen id = true ↔ id ∈ st.opened ∧ id ∉ st.closed := by
  unfold isOpen
  rw [Bool.and_eq_true, decide_eq_true_eq, decide_eq_true_eq]

theorem stateOf_eq_open (h : st.isOpen id = true) : st.stateOf id = .priorityNodeOpen := by
  obtain ⟨hopened, hclosed⟩ := isOpen_iff.mp h
  unfold stateOf
  rw [if_neg hclosed, if_pos hopened]

theorem stateOf_after_open {pusherID : UInt32} (h : id ≠ streamID) :
    (st.after (.openStream streamID pusherID)).stateOf id = st.stateOf id := by
  unfold stateOf after
  simp only [mem_cons, h, false_or]

theorem stateOf_after_close (h : id ≠ streamID) :
    (st.after (.closeStream streamID)).stateOf id = st.stateOf id := by
  unfold stateOf after
  simp only [mem_cons, h, false_or]

end

end Streams

/-! ## The invariant -/

/-- The scheduler knows the streams.  The nodes in `idle` are in the map, or their
stream has been closed. -/
structure Life (ws : PriorityWriteScheduler) (st : Streams) (idle : List Ref) : Prop where
  base : ws.Base
  sound : ws.QueuesSound
  state : ∀ {id n}, id ≠ 0 → ws.nodes id = some n → (ws.tree.node n).state = st.stateOf id
  known : ∀ {id}, st.isOpen id = true → ∃ n, ws.nodes id = some n
  maxID : ∀ {id n}, ws.nodes id = some n → id ≤ ws.maxID
  opened : ∀ {id}, id ∈ st.opened → id ≠ 0 ∧ id ≤ ws.maxID
  closed : ∀ {id}, id ∈ st.closed → id ∈ st.opened
  idleNodes : ∀ {n}, n ∈ idle → n < ws.tree.size ∧
    (ws.nodes (ws.tree.node n).id = some n ∨ (ws.tree.node n).id ∈ st.closed)
  nodup : idle.Nodup
  closedNodes : ∀ {n}, n ∈ ws.closedNodes → (ws.tree.node n).id ∈ st.closed

variable {ws ws' : PriorityWriteScheduler} {st : Streams} {n : Ref} {idle : List Ref}

theorem life_new (cfg : PriorityWriteSchedulerConfig) : Life (new cfg) {} [] where
  base := base_new cfg
  sound := fun _ wr hwr => by cases hwr
  state := by
    intro id n hid h
    have hite : (if id = 0 then some root else none) = some n := h
    rw [if_neg hid] at hite
    cases hite
  known := nofun
  maxID := by
    intro id n h
    have hite : (if id = 0 then some root else none) = some n := h
    split at hite
    · rename_i hid
      rw [hid]
      exact UInt32.zero_le
    · cases hite
  opened := nofun
  closed := nofun
  idleNodes := nofun
  nodup := nodup_nil
  closedNodes := nofun

namespace Life

/-- The tree changes, but not what the invariant reads of it. -/
theorem of_tree (h : Life ws st idle) {t : PriorityTree} (hbase : Base { ws with tree := t })
    (hsound : ∀ n, ∀ wr ∈ (t.node n).q.s, wr.Sound) (hsize : t.size = ws.tree.size)
    (hstate : ∀ n, (t.node n).state = (ws.tree.node n).state)
    (hid : ∀ n, (t.node n).id = (ws.tree.node n).id) : Life { ws with tree := t } st idle where
  base := hbase
  sound := hsound
  state := fun hne hn => (hstate _).trans (h.state hne hn)
  known := h.known
  maxID := h.maxID
  opened := h.opened
  closed := h.closed
  idleNodes := by
    intro n hn
    rw [hsize, hid]
    exact h.idleNodes hn
  nodup := h.nodup
  closedNodes := by
    intro n hn
    rw [hid]
    exact h.closedNodes hn

/-- A node is removed whose stream is not open. -/
theorem removed (h : Life ws st idle) (hbase : ws'.Base) (hremoved : Removed ws ws' n)
    (hopen : ¬ st.isOpen (ws.tree.node n).id = true)
    (hidle : ∀ m ∈ idle, (ws.tree.node m).id = (ws.tree.node n).id →
      (ws.tree.node m).id ∈ st.closed) : Life ws' st idle := by
  have hnode := hremoved.node
  have hsize := hremoved.size
  have hrest := hremoved.rest
  generalize ws'.tree = t at hnode hsize hrest hbase
  subst hrest
  refine ⟨hbase, fun m wr hwr => ?_, fun {id m} hne hm => ?_, fun {id} hid => ?_,
    fun {id m} hm => ?_, h.opened, h.closed, fun {m} hm => ?_, h.nodup, fun {m} hm => ?_⟩
  · rw [show t.node m = ws.tree.node m from by rw [hnode]] at hwr
    exact h.sound m wr hwr
  · have hite : (if id = (ws.tree.node n).id then none else ws.nodes id) = some m := hm
    rw [hnode]
    split at hite
    · cases hite
    · exact h.state hne hite
  · obtain ⟨m, hm⟩ := h.known hid
    refine ⟨m, (if_neg fun heq => ?_).trans hm⟩
    rw [heq] at hid
    exact hopen hid
  · have hite : (if id = (ws.tree.node n).id then none else ws.nodes id) = some m := hm
    split at hite
    · cases hite
    · exact h.maxID hite
  · show m < t.size ∧ ((if (t.node m).id = (ws.tree.node n).id then none
      else ws.nodes (t.node m).id) = some m ∨ (t.node m).id ∈ st.closed)
    rw [hsize, hnode]
    obtain ⟨hlt, hcases⟩ := h.idleNodes hm
    refine ⟨hlt, ?_⟩
    split
    · rename_i heq
      exact .inr (hidle m hm heq)
    · exact hcases
  · rw [hnode]
    exact h.closedNodes hm

variable {streamID : UInt32}

/-- A stream without a node that was not opened has no node in the lists either. -/
theorem id_ne_of_mem (h : Life ws st ws.idleNodes) (hopened : streamID ∉ st.opened)
    (hn : ws.nodes streamID = none) (hmem : n ∈ ws.closedNodes ++ ws.idleNodes) :
    (ws.tree.node n).id ≠ streamID := by
  intro heq
  have hclosed : (ws.tree.node n).id ∈ st.closed := by
    rcases mem_append.mp hmem with hmem | hmem
    · exact h.closedNodes hmem
    · obtain ⟨_, hmap | hclosed⟩ := h.idleNodes hmem
      · rw [heq, hn] at hmap
        cases hmap
      · exact hclosed
  rw [heq] at hclosed
  exact hopened (h.closed hclosed)

section

variable (h : Life ws st idle)

include h

theorem sublist {l : List Ref} (hl : l.Sublist idle) : Life ws st l :=
  ⟨h.base, h.sound, h.state, h.known, h.maxID, h.opened, h.closed,
    fun hn => h.idleNodes (hl.subset hn), h.nodup.sublist hl, h.closedNodes⟩

/-- A node may be removed whose stream is not open. -/
theorem evicted (hbase : ws'.Base) {m : Option Ref} (hevicted : Evicted ws ws' m)
    (hopen : ∀ n ∈ m, ¬ st.isOpen (ws.tree.node n).id = true)
    (hidle : ∀ n ∈ m, ∀ k ∈ idle, (ws.tree.node k).id = (ws.tree.node n).id →
      (ws.tree.node k).id ∈ st.closed) : Life ws' st idle := by
  cases m with
  | none => exact (show ws' = ws from hevicted) ▸ h
  | some n => exact h.removed hbase hevicted (hopen n rfl) (hidle n rfl)

/-- Another node that is in the map. -/
theorem concat (hlt : n < ws.tree.size) (hnew : n ∉ idle)
    (hn : ws.nodes (ws.tree.node n).id = some n) : Life ws st (idle ++ [n]) := by
  refine ⟨h.base, h.sound, h.state, h.known, h.maxID, h.opened, h.closed, fun {m} hm => ?_, ?_,
    h.closedNodes⟩
  · rcases mem_append.mp hm with hm | hm
    · exact h.idleNodes hm
    · rw [mem_singleton.mp hm]
      exact ⟨hlt, .inl hn⟩
  · rw [nodup_append]
    refine ⟨h.nodup, nodup_singleton n, fun a ha b hb heq => hnew ?_⟩
    rw [← mem_singleton.mp hb, ← heq]
    exact ha

/-- A new node for a stream that is not in the map. -/
theorem added (hid : streamID ≠ 0) (hn : ws.nodes streamID = none) {state : PriorityNodeState}
    {p : Ref} (hp : p < ws.tree.size) {maxID : UInt32} (hmax : ws.maxID ≤ maxID)
    (hle : streamID ≤ maxID) {st' : Streams} (hstate : st'.stateOf streamID = state)
    (hother : ∀ id, id ≠ streamID → st'.stateOf id = st.stateOf id)
    (hopened : ∀ id, id ∈ st'.opened → id = streamID ∨ id ∈ st.opened)
    (hclosed : st'.closed = st.closed) (hsub : ∀ id ∈ st.opened, id ∈ st'.opened) :
    Life { ws.added streamID state p with maxID := maxID } st' idle := by
  have hbase := h.base.added hid state hp
  have hlt : ∀ {id m}, ws.nodes id = some m → m < ws.tree.size := fun hm => (h.base.nodes hm).1
  have hnodes : ∀ {id m}, (ws.added streamID state p).nodes id = some m → _ := nodes_added
  refine ⟨hbase.setOther maxID ws.writeThrottleLimit, fun m wr hwr => ?_, fun {id m} hne hm => ?_,
    fun {id} hopen => ?_, fun {id m} hm => ?_, fun {id} hmem => ?_, fun {id} hmem => ?_,
    fun {m} hm => ?_, h.nodup, fun {m} hm => ?_⟩
  · have hwr : wr ∈ (update ws.tree.node ws.tree.size _ m).q.s := hwr
    by_cases hm : m = ws.tree.size
    · rw [hm, update_self] at hwr
      cases hwr
    · rw [update_of_ne hm] at hwr
      exact h.sound m wr hwr
  · rcases hnodes hm with ⟨rfl, rfl⟩ | ⟨heq, hm⟩
    · rw [node_added_size, hstate]
    · rw [node_added_of_lt _ _ _ (hlt hm), hother id heq]
      exact h.state hne hm
  · by_cases heq : id = streamID
    · exact ⟨ws.tree.size, if_pos heq⟩
    · obtain ⟨hmem, hnot⟩ := Streams.isOpen_iff.mp hopen
      rw [hclosed] at hnot
      have hmem' := (hopened id hmem).resolve_left heq
      obtain ⟨m, hm⟩ := h.known (Streams.isOpen_iff.mpr ⟨hmem', hnot⟩)
      exact ⟨m, (if_neg heq).trans hm⟩
  · rcases hnodes hm with ⟨rfl, _⟩ | ⟨_, hm⟩
    · exact hle
    · exact UInt32.le_trans (h.maxID hm) hmax
  · rcases hopened id hmem with rfl | hmem
    · exact ⟨hid, hle⟩
    · exact ⟨(h.opened hmem).1, UInt32.le_trans (h.opened hmem).2 hmax⟩
  · rw [hclosed] at hmem
    exact hsub id (h.closed hmem)
  · obtain ⟨hm', hcases⟩ := h.idleNodes hm
    show m < ws.tree.size + 1 ∧ ((if ((ws.added streamID state p).tree.node m).id = streamID
      then some ws.tree.size else ws.nodes ((ws.added streamID state p).tree.node m).id) = some m ∨
        ((ws.added streamID state p).tree.node m).id ∈ st'.closed)
    rw [node_added_of_lt _ _ _ hm', hclosed]
    refine ⟨Nat.lt_succ_of_lt hm', hcases.imp_left fun hmap => ?_⟩
    rw [if_neg]
    · exact hmap
    · intro heq
      rw [heq, hn] at hmap
      cases hmap
  · rw [node_added_of_lt _ _ _ (h.base.closed hm).2, hclosed]
    exact h.closedNodes hm

end

end Life

/-! ## The calls -/

namespace Life

section

variable (h : Life ws st idle) {streamID : UInt32}

include h

/-- A stream that was not opened has no node, or an idle one. -/
theorem stateOf_new (hnew : streamID ∉ st.opened) : st.stateOf streamID = .priorityNodeIdle := by
  unfold Streams.stateOf
  rw [if_neg fun hmem => hnew (h.closed hmem), if_neg hnew]

theorem opens (hid : streamID ≠ 0) (hnew : streamID ∉ st.opened) (pusherID : UInt32) :
    Returns (Opened ws streamID) (ws.openStream streamID pusherID) :=
  (openStream_outcome h.base streamID pusherID).weaken fun _ ⟨_, _, hn, hidle⟩ =>
    hidle ((h.state hid hn).trans (h.stateOf_new hnew))

theorem closes (hopen : st.isOpen streamID = true) :
    Returns (Closed ws streamID) (ws.closeStream streamID) := by
  obtain ⟨n, hn⟩ := h.known hopen
  have hid : streamID ≠ 0 := (h.opened (Streams.isOpen_iff.mp hopen).1).1
  exact (closeStream_outcome h.base streamID).weaken fun _ he =>
    he.2 hid n hn ((h.state hid hn).trans (Streams.stateOf_eq_open hopen))

theorem openStream (hid : streamID ≠ 0) (hnew : streamID ∉ st.opened) (pusherID : UInt32) :
    ∃ ws', ws.openStream streamID pusherID = .ok ws' ∧
      Life ws' (st.after (.openStream streamID pusherID)) idle ∧ ws'.idleNodes = ws.idleNodes := by
  have hnot : streamID ∉ st.closed := fun hmem => hnew (h.closed hmem)
  have hopened : (st.after (.openStream streamID pusherID)).stateOf streamID =
      .priorityNodeOpen := by
    refine Streams.stateOf_eq_open (Streams.isOpen_iff.mpr ⟨mem_cons_self, hnot⟩)
  obtain ⟨ws', hopen, hws'⟩ := returns_iff.mp (h.opens hid hnew pusherID)
  refine ⟨ws', hopen, ?_⟩
  cases hws' with
  | new hn hp =>
    refine ⟨h.added hid hn (h.base.nodes hp).1 ?_ ?_ hopened
      (fun id hne => Streams.stateOf_after_open hne)
      (fun id hmem => mem_cons.mp hmem) rfl (fun id hmem => mem_cons_of_mem _ hmem), rfl⟩
    · split
      · rename_i hlt
        exact UInt32.le_of_lt hlt
      · exact UInt32.le_refl _
    · split
      · exact UInt32.le_refl _
      · rename_i hlt
        exact UInt32.not_lt.mp hlt
  | @known n hn hidle =>
    refine ⟨?_, rfl⟩
    have hsame : SameLinks ws.tree (ws.tree.modify n fun x =>
        { x with state := .priorityNodeOpen }) := sameLinks_modify _ _ fun _ => rfl
    have hne : ∀ m, m ≠ n → (ws.tree.modify n fun x =>
        { x with state := .priorityNodeOpen }).node m = ws.tree.node m :=
      fun m hm => update_of_ne hm ..
    have hself : (ws.tree.modify n fun x => { x with state := .priorityNodeOpen }).node n =
        { ws.tree.node n with state := .priorityNodeOpen } := update_self ..
    refine ⟨h.base.sameLinks hsame, fun m wr hwr => ?_, fun {id m} hid' hm => ?_,
      fun {id} hopen => ?_, h.maxID, fun {id} hmem => ?_, fun {id} hmem => ?_, fun {m} hm => ?_,
      h.nodup, fun {m} hm => ?_⟩
    · by_cases hm : m = n
      · rw [hm, hself] at hwr
        exact h.sound n wr hwr
      · rw [hne m hm] at hwr
        exact h.sound m wr hwr
    · by_cases heq : id = streamID
      · rw [heq, hn] at hm
        cases hm
        rw [hself, heq, hopened]
      · have hmn : m ≠ n := by
          intro hmn
          rw [hmn] at hm
          exact heq (h.base.id_unique hm hn)
        rw [hne m hmn, Streams.stateOf_after_open heq]
        exact h.state hid' hm
    · by_cases heq : id = streamID
      · exact ⟨n, by rw [heq]; exact hn⟩
      · obtain ⟨hmem, hclosed⟩ := Streams.isOpen_iff.mp hopen
        exact h.known (Streams.isOpen_iff.mpr ⟨(mem_cons.mp hmem).resolve_left heq, hclosed⟩)
    · rcases mem_cons.mp hmem with rfl | hmem
      · exact ⟨hid, h.maxID hn⟩
      · exact h.opened hmem
    · exact mem_cons_of_mem _ (h.closed hmem)
    · obtain ⟨hlt, hcases⟩ := h.idleNodes hm
      refine ⟨hlt, ?_⟩
      rw [hsame.id]
      exact hcases
    · rw [hsame.id]
      exact h.closedNodes hm

/-- The first part of `CloseStream`. -/
theorem closing (hopen : st.isOpen streamID = true) (hn : ws.nodes streamID = some n)
    {t : PriorityTree} (hclosing : Closing ws.tree t n) (hbase : Base { ws with tree := t }) :
    Life { ws with tree := t } (st.after (.closeStream streamID)) idle := by
  have hsame := hclosing.sameLinks
  obtain ⟨hmem, _⟩ := Streams.isOpen_iff.mp hopen
  refine ⟨hbase, fun m wr hwr => ?_, fun {id m} hid hm => ?_, fun {id} hid => ?_, h.maxID, h.opened,
    fun {id} hid => ?_, fun {m} hm => ?_, h.nodup, fun {m} hm => ?_⟩
  · by_cases hmn : m = n
    · rw [hmn, hclosing.self] at hwr
      cases hwr
    · rw [hclosing.node m hmn] at hwr
      exact h.sound m wr hwr
  · by_cases heq : id = streamID
    · have hmn : m = n := by
        rw [heq, hn] at hm
        exact (Option.some.inj hm).symm
      rw [hmn, hclosing.self, heq]
      exact (if_pos mem_cons_self).symm
    · have hmn : m ≠ n := by
        intro hmn
        rw [hmn] at hm
        exact heq (h.base.id_unique hm hn)
      rw [hclosing.node m hmn, Streams.stateOf_after_close heq]
      exact h.state hid hm
  · obtain ⟨hopened, hclosed⟩ := Streams.isOpen_iff.mp hid
    exact h.known (Streams.isOpen_iff.mpr ⟨hopened, fun hc => hclosed (mem_cons_of_mem _ hc)⟩)
  · rcases mem_cons.mp hid with rfl | hid
    · exact hmem
    · exact h.closed hid
  · rw [hsame.size, hsame.id]
    obtain ⟨hlt, hcases⟩ := h.idleNodes hm
    exact ⟨hlt, hcases.imp_right (mem_cons_of_mem _)⟩
  · rw [hsame.id]
    exact mem_cons_of_mem _ (h.closedNodes hm)

theorem closeStream (hopen : st.isOpen streamID = true) :
    ∃ ws', ws.closeStream streamID = .ok ws' ∧ Life ws' (st.after (.closeStream streamID)) idle ∧
      ws'.idleNodes = ws.idleNodes := by
  obtain ⟨ws', hclose, @⟨n, t, ws₁, hid, hn, hclosing, hbase, hevicted, hbase₁, hbase'⟩⟩ :=
    returns_iff.mp (h.closes hopen)
  have hlife := h.closing hopen hn hclosing hbase
  have hsame := hclosing.sameLinks
  have hclosedn : (t.node n).id ∈ (st.after (.closeStream streamID)).closed := by
    rw [hsame.id, (h.base.nodes hn).2]
    exact mem_cons_self
  have hgone : ∀ m ∈ ws.retired? n,
      (t.node m).id ∈ (st.after (.closeStream streamID)).closed := by
    intro m hm
    rcases mem_of_retired? hm with rfl | hm
    · exact hclosedn
    · exact hlife.closedNodes hm
  have hlife₁ : Life ws₁ (st.after (.closeStream streamID)) idle := by
    refine hlife.evicted hbase₁ hevicted (fun m hm hopen' => ?_) fun m hm k hk heq => ?_
    · exact (Streams.isOpen_iff.mp hopen').2 (hgone m hm)
    · exact heq ▸ hgone m hm
  have hidle : ws₁.idleNodes = ws.idleNodes := by rw [hevicted.rest]
  refine ⟨_, hclose, ⟨hbase', hlife₁.sound, hlife₁.state, hlife₁.known, hlife₁.maxID,
    hlife₁.opened, hlife₁.closed, hlife₁.idleNodes, hlife₁.nodup, fun {m} hm => ?_⟩, hidle⟩
  have hnode : ws₁.tree.node = t.node := hevicted.node
  rw [hnode]
  rcases mem_closedAfter hm with rfl | hm
  · exact hclosedn
  · exact hlife.closedNodes hm

end

/-- `AdjustStream` for a node in the tree. -/
theorem adjusted (h : Life ws st idle) {priority : PriorityParam} {t : PriorityTree}
    (hbase : Base { ws with tree := t }) (hadjusted : Adjusted ws n priority t) :
    Life { ws with tree := t } st idle := by
  refine h.of_tree hbase (fun m wr hwr => ?_) hadjusted.size
    (hadjusted.field PriorityNode.state fun _ _ => rfl)
    (hadjusted.field PriorityNode.id fun _ _ => rfl)
  rw [hadjusted.field PriorityNode.q fun _ _ => rfl] at hwr
  exact h.sound m wr hwr

section

variable (h : Life ws st ws.idleNodes) {streamID : UInt32} (hid : streamID ≠ 0)

include h hid

/-- The idle nodes after a stream got one. -/
theorem adjustNew (hn : ws.nodes streamID = none) (hlt : ws.maxID < streamID)
    (hmax : ws.maxIdleNodesInTree ≠ 0) {ws₂ : PriorityWriteScheduler}
    (hevicted : Evicted (ws.addedIdle streamID) ws₂ (oldest? ws.idleNodes ws.maxIdleNodesInTree))
    (hbase₂ : ws₂.Base) (hbase₃ : Base { ws₂ with idleNodes := ws.idleAfter })
    (hkeeps : ∀ n ∈ oldest? ws.idleNodes ws.maxIdleNodesInTree,
      (ws.tree.node n).state ≠ .priorityNodeOpen) :
    Life { ws₂ with idleNodes := ws.idleAfter } st ws.idleAfter := by
  have hopened : streamID ∉ st.opened := fun hmem =>
    UInt32.not_le.mpr hlt (h.opened hmem).2
  have hlife₁ : Life (ws.addedIdle streamID) st ws.idleNodes :=
    h.added hid hn h.base.pos (UInt32.le_of_lt hlt) (UInt32.le_refl _) (h.stateOf_new hopened)
      (fun _ _ => rfl) (fun _ hmem => .inr hmem) rfl fun _ hmem => hmem
  obtain ⟨rest, hkept, hsub, hfull⟩ := keptNodes_eq ws.idleNodes ws.tree.size hmax
  have hltm : ∀ m ∈ ws.idleNodes, m < ws.tree.size := fun m hm => (h.idleNodes hm).1
  have hidm : ∀ m ∈ ws.idleNodes, (ws.addedIdle streamID).tree.node m = ws.tree.node m :=
    fun m hm => node_added_of_lt _ _ _ (hltm m hm)
  have hfresh : ∀ m ∈ ws.idleNodes, (ws.tree.node m).id ≠ streamID :=
    fun m hm => h.id_ne_of_mem hopened hn (mem_append_right _ hm)
  have hsize : (ws.addedIdle streamID).tree.node ws.tree.size = _ := node_added_size ..
  have hlife₁' := (hlife₁.sublist hsub).concat (n := ws.tree.size) (Nat.lt_succ_self _)
    (fun hmem => Nat.lt_irrefl _ (hltm _ (hsub.subset hmem))) (by
      rw [hsize]
      exact if_pos rfl)
  have hlife₂ : Life ws₂ st (rest ++ [ws.tree.size]) := by
    refine hlife₁'.evicted hbase₂ hevicted (fun m hm => ?_) fun m hm k hk heq => ?_
    · have hmem := mem_of_oldest? hm
      have hstate := hkeeps m hm
      rw [hidm m hmem]
      obtain ⟨_, hmap | hclosed⟩ := h.idleNodes hmem
      · intro hopen
        have hne := (h.opened (Streams.isOpen_iff.mp hopen).1).1
        exact hstate ((h.state hne hmap).trans (Streams.stateOf_eq_open hopen))
      · exact fun hopen => (Streams.isOpen_iff.mp hopen).2 hclosed
    · have hmem := mem_of_oldest? hm
      rw [hidm m hmem] at heq
      rcases mem_append.mp hk with hk | hk
      · have hkmem := hsub.subset hk
        rw [hidm k hkmem] at heq ⊢
        have hnodup := h.nodup
        rw [hfull m hm] at hnodup
        obtain ⟨_, hmapk | hclosed⟩ := h.idleNodes hkmem
        · obtain ⟨_, hmapm | hclosed⟩ := h.idleNodes hmem
          · rw [heq, hmapm] at hmapk
            cases hmapk
            exact ((nodup_cons.mp hnodup).1 hk).elim
          · rw [heq]
            exact hclosed
        · exact hclosed
      · rw [mem_singleton.mp hk, hsize] at heq
        exact (hfresh m hmem heq.symm).elim
  have hidle : ws.idleAfter = rest ++ [ws.tree.size] := hkept
  rw [hidle] at hbase₃ ⊢
  exact ⟨hbase₃, hlife₂.sound, hlife₂.state, hlife₂.known, hlife₂.maxID, hlife₂.opened,
    hlife₂.closed, hlife₂.idleNodes, hlife₂.nodup, hlife₂.closedNodes⟩

theorem adjustStream (priority : PriorityParam)
    (hkeeps : ∀ n ∈ ws.removed? (.adjustStream streamID priority),
      (ws.tree.node n).state ≠ .priorityNodeOpen) :
    ∃ ws', ws.adjustStream streamID priority = .ok ws' ∧ Life ws' st ws'.idleNodes := by
  obtain ⟨ws', hadjust, hws'⟩ := returns_iff.mp (adjustStream_returns h.base hid priority)
  refine ⟨ws', hadjust, ?_⟩
  cases hws' with
  | known hn hbase hadjusted => exact h.adjusted hbase hadjusted
  | ignored => exact h
  | new hn hlt hmax hbase₁ hevicted hbase₂ hself hbase₃ hbase hadjusted =>
    rw [removed?_adjustStream hn hlt] at hkeeps
    exact (h.adjustNew hid hn hlt hmax hevicted hbase₂ hbase₃ hkeeps).adjusted hbase hadjusted

end

variable {wr : FrameWriteRequest}

/-- There is a queue for every frame that may be pushed. -/
theorem pushTarget (h : Life ws st idle) (hlegal : st.legal (.push wr) = true) :
    ∃ n, ws.pushTarget? wr = some n ∧ ws.push wr = .ok
      { ws with tree := ws.tree.modify n fun x => { x with q := x.q.push wr } } := by
  obtain ⟨_, hdata⟩ := (Bool.and_eq_true _ _).mp hlegal
  have htarget : ∃ n, ws.pushTarget? wr = some n := by
    unfold pushTarget?
    split
    · exact ⟨root, rfl⟩
    cases hn : ws.nodes wr.streamID with
    | some n => exact ⟨n, rfl⟩
    | none =>
      refine ⟨root, if_neg fun hsize => ?_⟩
      rcases Bool.or_eq_true_iff.mp hdata with hzero | hopen
      · rw [beq_iff_eq] at hzero
        omega
      · obtain ⟨n, hn'⟩ := h.known ((Bool.and_eq_true _ _).mp hopen).2
        rw [hn] at hn'
        cases hn'
  obtain ⟨n, hn⟩ := htarget
  exact ⟨n, hn, push_eq hn⟩

theorem push (h : Life ws st idle) (hlegal : st.legal (.push wr) = true) :
    ∃ ws', ws.push wr = .ok ws' ∧ Life ws' st idle ∧ ws'.idleNodes = ws.idleNodes := by
  obtain ⟨_, hdata⟩ := (Bool.and_eq_true _ _).mp hlegal
  have hwr : wr.Sound := by
    intro hpos hnone
    rcases Bool.or_eq_true_iff.mp hdata with hzero | hopen
    · rw [beq_iff_eq] at hzero
      omega
    · rw [hnone] at hopen
      cases hopen
  obtain ⟨n, _, hpush⟩ := h.pushTarget hlegal
  have hsame : SameLinks ws.tree (ws.tree.modify n fun x => { x with q := x.q.push wr }) :=
    sameLinks_modify _ _ fun _ => rfl
  refine ⟨_, hpush, ?_, rfl⟩
  refine h.of_tree (h.base.sameLinks hsame) (fun m wr' hwr' => ?_) rfl (fun m => ?_) hsame.id
  · rw [node_modify] at hwr'
    by_cases hm : m = n
    · rw [hm, update_self] at hwr'
      rcases mem_append.mp hwr' with hwr' | hwr'
      · exact h.sound n wr' hwr'
      · rw [mem_singleton.mp hwr']
        exact hwr
    · rw [update_of_ne hm] at hwr'
      exact h.sound m wr' hwr'
  · refine field_modify ws.tree n PriorityNode.state ?_ m
    exact fun _ => rfl

theorem pop (go : Sorting) (h : Life ws st idle) (flows : Flows) :
    ∃ s, ws.pop go flows = .ok s ∧ Life s.ws st idle ∧ s.ws.idleNodes = ws.idleNodes := by
  obtain ⟨s, hpop, hbase, hcases⟩ := pop_eq go h.base h.sound flows
  refine ⟨s, hpop, ?_⟩
  rcases hcases with hs | ⟨n, wr, hs⟩
  · rw [hs.rest] at hbase ⊢
    refine ⟨h.of_tree hbase (fun m wr hwr => ?_) hs.size (fun m => by rw [hs.node])
      (fun m => by rw [hs.node]), rfl⟩
    rw [hs.node] at hwr
    exact h.sound m wr hwr
  · have hother : ∀ m, (s.ws.tree.node m).state = (ws.tree.node m).state ∧
        (s.ws.tree.node m).id = (ws.tree.node m).id := by
      intro m
      by_cases hm : m = n
      · rw [hm, hs.self]
        exact ⟨rfl, rfl⟩
      · rw [hs.node m hm]
        exact ⟨rfl, rfl⟩
    have hsound : ∀ m, ∀ wr ∈ (s.ws.tree.node m).q.s, wr.Sound := by
      intro m wr' hwr'
      by_cases hm : m = n
      · rw [hm] at hwr'
        exact WriteQueue.takes_sound hs.takes (h.sound n) wr' hwr'
      · rw [hs.node m hm] at hwr'
        exact h.sound m wr' hwr'
    have hbase' : Base { ws with tree := s.ws.tree } := by
      rw [hs.rest] at hbase
      exact ⟨hbase.forest, hbase.parent_root, hbase.pos, hbase.nodes, hbase.zero, hbase.ids,
        hbase.closed, hbase.idle⟩
    have hlife := h.of_tree hbase' hsound hs.size (fun m => (hother m).1) fun m => (hother m).2
    rw [hs.rest] at hbase ⊢
    exact ⟨⟨hbase, hlife.sound, hlife.state, hlife.known, hlife.maxID, hlife.opened, hlife.closed,
      hlife.idleNodes, hlife.nodup, hlife.closedNodes⟩, rfl⟩

end Life

/-! ## Runs -/

/-- Whether a call removes no node of an open stream that was idle before. -/
def keepsOpen (ws : PriorityWriteScheduler) : Call → Bool
  | .adjustStream streamID priority =>
    (ws.removed? (.adjustStream streamID priority)).all fun n =>
      (ws.tree.node n).state != .priorityNodeOpen
  | _ => true

theorem Life.step (go : Sorting) (h : Life ws st ws.idleNodes) {c : Call}
    (hlegal : st.legal c = true) (hkeeps : ws.keepsOpen c = true) :
    ∃ ws', ws.step go c = .ok ws' ∧ Life ws' (st.after c) ws'.idleNodes := by
  cases c with
  | openStream streamID pusherID =>
    obtain ⟨hid, hnew⟩ := (Bool.and_eq_true _ _).mp hlegal
    obtain ⟨ws', hopen, hlife, hidle⟩ :=
      h.openStream (of_decide_eq_true hid) (of_decide_eq_true hnew) pusherID
    exact ⟨ws', hopen, hidle ▸ hlife⟩
  | closeStream streamID =>
    obtain ⟨ws', hclose, hlife, hidle⟩ := h.closeStream hlegal
    exact ⟨ws', hclose, hidle ▸ hlife⟩
  | adjustStream streamID priority =>
    refine h.adjustStream (of_decide_eq_true hlegal) priority fun n hn => ?_
    have hstate := (Option.all_eq_true _ _).mp hkeeps n hn
    exact bne_iff_ne.mp hstate
  | push wr =>
    obtain ⟨ws', hpush, hlife, hidle⟩ := h.push hlegal
    exact ⟨ws', hpush, hidle ▸ hlife⟩
  | pop flows =>
    obtain ⟨s, hpop, hlife, hidle⟩ := h.pop go flows
    refine ⟨s.ws, ?_, hidle ▸ hlife⟩
    show (ws.pop go flows).map PopState.ws = _
    rw [hpop]
    rfl

/-- What the calls of a legal run keep, with what they leave behind. -/
theorem run_of_legal {β : Type} {go : Sorting} {cond : PriorityWriteScheduler → Call → Prop}
    {f : PriorityWriteScheduler → Call → List β}
    {J : PriorityWriteScheduler → Streams → List β → Prop}
    (hkeep : ∀ {ws st l c}, J ws st l → st.legal c = true → cond ws c →
      ∃ ws', ws.step go c = .ok ws' ∧ J ws' (st.after c) (l ++ f ws c))
    {l : List β} (h : J ws st l) {calls : List Call} (hlegal : st.legalRun calls = true)
    (halways : Always (step go) cond ws calls) :
    ∃ ws', ws.run go calls = .ok ws' ∧
      J ws' (calls.foldl Streams.after st) (l ++ log (step go) f ws calls) := by
  have hrun : Returns _ (ws.run go calls) := outcome_of_log (f := f)
    (J := fun ws rest l => ∃ st', J ws st' l ∧ st'.legalRun rest = true ∧
      Always (step go) cond ws rest ∧
      rest.foldl Streams.after st' = calls.foldl Streams.after st) ?_ ⟨st, h, hlegal, halways, rfl⟩
  · obtain ⟨ws', hok, st', h', -, -, hst⟩ := returns_iff.mp hrun
    exact ⟨ws', hok, hst ▸ h'⟩
  rintro ws c rest l ⟨st', h, hlegal, halways, hst⟩
  obtain ⟨hlegalc, hlegal⟩ := (Bool.and_eq_true _ _).mp hlegal
  obtain ⟨ws', hstep, h'⟩ := hkeep h hlegalc halways.1
  exact returns_iff.mpr ⟨ws', hstep, _, h', hlegal, halways.rest hstep, hst⟩

/-- In a legal run in which no node of an open stream is removed from the idle nodes,
no call panics.  Afterwards every stream that was opened and not closed is in the map
with an open node, so that it can be closed and frames can be pushed on it. -/
theorem known_of_keepsOpen (go : Sorting) (cfg : PriorityWriteSchedulerConfig) (calls : List Call)
    (hlegal : Streams.legalRun {} calls = true)
    (hkeeps : Always (step go) (keepsOpen · · = true) (new cfg) calls) :
    ∃ ws, (new cfg).run go calls = .ok ws ∧
      ∀ id, (calls.foldl Streams.after {}).isOpen id = true →
        (∃ n, ws.nodes id = some n ∧ (ws.tree.node n).state = .priorityNodeOpen) ∧
        (∃ ws', ws.closeStream id = .ok ws') ∧
        ∀ wr : FrameWriteRequest, wr.streamID = id → ∃ ws', ws.push wr = .ok ws' := by
  obtain ⟨ws, hrun, hlife⟩ := run_of_legal (f := fun _ _ => ([] : List Unit)) (l := [])
    (J := fun ws st _ => Life ws st ws.idleNodes) (fun h => h.step go) (life_new cfg) hlegal hkeeps
  refine ⟨ws, hrun, fun id hopen => ?_⟩
  obtain ⟨n, hn⟩ := hlife.known hopen
  have hid := (hlife.opened (Streams.isOpen_iff.mp hopen).1).1
  obtain ⟨ws', hclose, _⟩ := hlife.closeStream hopen
  refine ⟨⟨n, hn, (hlife.state hid hn).trans (Streams.stateOf_eq_open hopen)⟩, ⟨ws', hclose⟩,
    fun wr hwr => ⟨_, push_eq (n := n) ?_⟩⟩
  unfold pushTarget?
  rw [hwr, if_neg hid, hn]

/-- An idle stream is opened, closed, and removed from the idle nodes after that. -/
theorem known_of_keepsOpen_closed :
    ∃ ws, (new { maxIdleNodesInTree := 1 }).run keepOrder
        [.adjustStream 3 {}, .openStream 3 0, .openStream 5 3, .closeStream 3,
          .adjustStream 7 { streamDep := 5 }] = .ok ws ∧
      ∃ n, ws.nodes 5 = some n ∧ (ws.tree.node n).state = .priorityNodeOpen := by
  obtain ⟨ws, hrun, hknown⟩ := known_of_keepsOpen keepOrder { maxIdleNodesInTree := 1 }
    [.adjustStream 3 {}, .openStream 3 0, .openStream 5 3, .closeStream 3,
      .adjustStream 7 { streamDep := 5 }] (by decide +kernel) (by decide +kernel)
  exact ⟨ws, hrun, (hknown 5 (by decide +kernel)).1⟩

/-- Stream 3 is idle when it gets a node, and open when the next idle stream does. -/
def forgettingCalls : List Call := [.adjustStream 3 {}, .openStream 3 0, .adjustStream 5 {}]

/-- Stream 3 is open but not known any more: it cannot be closed, and a DATA frame
cannot be pushed on it. -/
theorem forgotten :
    Streams.legalRun {} forgettingCalls = true ∧
      (forgettingCalls.foldl Streams.after {}).isOpen 3 = true ∧
      ∃ ws, (new { maxIdleNodesInTree := 1 }).run keepOrder forgettingCalls = .ok ws ∧
        ws.nodes 3 = none ∧
        ws.closeStream 3 =
          .error (.panic "violation of WriteScheduler interface: unknown stream 3") ∧
        ws.push { write := .writeData 3 [0] false, stream := some 3 } =
          .error (.panic "add DATA on non-open stream") :=
  ⟨by decide, by decide, _, rfl, rfl, rfl, rfl⟩

end PriorityWriteScheduler

end Fhttp.Http2
