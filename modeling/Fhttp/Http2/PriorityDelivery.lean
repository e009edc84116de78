import Fhttp.Http2.PriorityLife
import Fhttp.Http2.PriorityReach

/-!
# Delivery through the priority scheduler

What was pushed into the scheduler is popped in order, is queued in the tree, or was
discarded when its stream was closed.  The frames of a stream are in the queue of its
node and, if they were pushed when it had none, in that of the root (`queued`).
`Filled` says where the frames are, and `Contract` is the invariant of all runs.

A node that is removed takes the frames in its queue with it.  This happens to a
stream other than the one that is closed when RST_STREAM was pushed on a closed or
idle stream whose node is kept in the tree.  `delivered_of_keepsFrames` is about the
runs in which such a node has an empty queue, and `lost` shows one in which it has
not.
-/

namespace Fhttp.Http2

open Lib.Panic Lib.Run Lib.LinkedTree Lib.Delivery PriorityTree
open Function (update_of_ne update_self)
open FrameWriteRequest
open List
open Option

namespace PriorityWriteScheduler

open FrameWriteRequest (Splits)

/-! ## The frames of a stream -/

/-- The frames in the queue of the node of a stream. -/
def queueOf (ws : PriorityWriteScheduler) (id : UInt32) : List FrameWriteRequest :=
  match ws.nodes id with
  | some n => (ws.tree.node n).q.s
  | none => []

/-- The frames of a stream that are queued, in the order in which they are popped. -/
def queued (ws : PriorityWriteScheduler) (id : UInt32) : List FrameWriteRequest :=
  (ws.tree.node root).q.s.filter (fun wr => wr.streamID == id) ++
    if id = 0 then [] else ws.queueOf id

/-- Where the frames are.  The nodes in `kept` are those of the lists of closed and
idle nodes. -/
structure Filled (ws : PriorityWriteScheduler) (kept : List Ref) : Prop where
  control : ∀ wr ∈ (ws.tree.node root).q.s, wr.dataSize = 0
  ids : ∀ {n}, n ≠ root → ∀ wr ∈ (ws.tree.node n).q.s,
    wr.streamID = (ws.tree.node n).id
  known : ∀ {n}, n ≠ root → (ws.tree.node n).q.s ≠ [] →
    ws.nodes (ws.tree.node n).id = some n
  /-- A node that is removed does not take another one out of the map. -/
  alone : ∀ {n m}, n ∈ kept → ws.nodes (ws.tree.node n).id = some m → m = n

variable {ws ws' : PriorityWriteScheduler} {st : Streams} {n : Ref} {kept : List Ref}
  {h : List (Event UInt32 FrameWriteRequest)}

variable (go : Sorting) (cfg : PriorityWriteSchedulerConfig)

theorem filled_new : Filled (new cfg) [] where
  control := nofun
  ids := nofun
  known := fun _ hq => (hq rfl).elim
  alone := nofun

theorem queued_new : (new cfg).queued = fun _ => [] := by
  funext id
  show [] ++ (if id = 0 then [] else (new cfg).queueOf id) = []
  rw [nil_append]
  split
  · rfl
  · rename_i hid
    unfold queueOf
    rw [show (new cfg).nodes id = none from if_neg hid]

namespace Filled

section

variable (hf : Filled ws kept)

include hf

theorem mono {l : List Ref} (hl : ∀ m ∈ l, m ∈ kept) : Filled ws l :=
  ⟨hf.control, hf.ids, hf.known, fun hn => hf.alone (hl _ hn)⟩

/-- Another node that is in the map. -/
theorem cons (hn : ws.nodes (ws.tree.node n).id = some n) : Filled ws (n :: kept) := by
  refine ⟨hf.control, hf.ids, hf.known, fun {k m} hk hm => ?_⟩
  rcases mem_cons.mp hk with rfl | hk
  · rw [hn] at hm
    exact (some.inj hm).symm
  · exact hf.alone hk hm

/-- The tree changes, but neither the queues nor the ids of its nodes. -/
theorem of_tree {t : PriorityTree} (hq : ∀ n, (t.node n).q = (ws.tree.node n).q)
    (hid : ∀ n, (t.node n).id = (ws.tree.node n).id) :
    Filled { ws with tree := t } kept ∧ queued { ws with tree := t } = ws.queued := by
  refine ⟨⟨?_, fun {n} hn => ?_, fun {n} hn hne => ?_, fun {n m} hn hm => ?_⟩, ?_⟩
  · rw [hq]
    exact hf.control
  · rw [hq, hid]
    exact hf.ids hn
  · rw [hq] at hne
    rw [hid]
    exact hf.known hn hne
  · rw [hid] at hm
    exact hf.alone hn hm
  · funext id
    simp only [queued, queueOf, hq]

theorem added (hbase : ws.Base) {streamID : UInt32} (hn : ws.nodes streamID = none)
    (state : PriorityNodeState) (p : Ref)
    (hkept : ∀ m ∈ kept, m < ws.tree.size ∧ (ws.tree.node m).id ≠ streamID) :
    Filled (ws.added streamID state p) kept ∧ (ws.added streamID state p).queued = ws.queued := by
  have hnode : ∀ m, m ≠ ws.tree.size → (ws.added streamID state p).tree.node m = ws.tree.node m :=
    fun m hm => update_of_ne hm ..
  have hnew : ((ws.added streamID state p).tree.node ws.tree.size).q.s = [] := by
    rw [node_added_size]
  have hroot := hnode root (Nat.ne_of_lt hbase.pos)
  refine ⟨⟨?_, fun {m} hm wr hwr => ?_, fun {m} hm hne => ?_, fun {m k} hm hk => ?_⟩, ?_⟩
  · rw [hroot]
    exact hf.control
  · by_cases hsize : m = ws.tree.size
    · rw [hsize, hnew] at hwr
      cases hwr
    · rw [hnode m hsize] at hwr ⊢
      exact hf.ids hm wr hwr
  · by_cases hsize : m = ws.tree.size
    · rw [hsize] at hne
      exact (hne hnew).elim
    · rw [hnode m hsize] at hne ⊢
      have hmap := hf.known hm hne
      refine (if_neg fun heq => ?_).trans hmap
      rw [heq, hn] at hmap
      cases hmap
  · obtain ⟨hlt, hidm⟩ := hkept m hm
    rw [hnode m (Nat.ne_of_lt hlt)] at hk
    exact hf.alone hm ((if_neg hidm).symm.trans hk)
  · funext id
    unfold queued queueOf
    rw [hroot]
    congr 1
    by_cases hzero : id = 0
    · rw [if_pos hzero, if_pos hzero]
    rw [if_neg hzero, if_neg hzero]
    by_cases heq : id = streamID
    · rw [heq, hn, show (ws.added streamID state p).nodes streamID =
        some ws.tree.size from if_pos rfl]
      exact hnew
    · rw [show (ws.added streamID state p).nodes id = ws.nodes id from if_neg heq]
      cases hm : ws.nodes id with
      | none => rfl
      | some m =>
        show ((ws.added streamID state p).tree.node m).q.s = _
        rw [hnode m (Nat.ne_of_lt (hbase.nodes hm).1)]

/-- A node with an empty queue is removed. -/
theorem removed (hremoved : Removed ws ws' n) (hempty : (ws.tree.node n).q.s = [])
    (halone : ∀ m, ws.nodes (ws.tree.node n).id = some m → m = n) :
    Filled ws' kept ∧ ws'.queued = ws.queued := by
  have hnode := hremoved.node
  have hrest := hremoved.rest
  generalize ws'.tree = t at hnode hrest
  subst hrest
  refine ⟨⟨?_, fun {m} hm => ?_, fun {m} hm hne => ?_, fun {m k} hm hk => ?_⟩, ?_⟩
  · rw [hnode]
    exact hf.control
  · rw [hnode]
    exact hf.ids hm
  · rw [hnode] at hne ⊢
    have hmap := hf.known hm hne
    refine (if_neg fun heq => ?_).trans hmap
    rw [heq] at hmap
    rw [halone m hmap] at hne
    exact hne hempty
  · have hk : (if (t.node m).id = (ws.tree.node n).id then none
        else ws.nodes (t.node m).id) = some k := hk
    rw [hnode] at hk
    split at hk
    · cases hk
    · exact hf.alone hm hk
  · funext id
    simp only [queued, queueOf, hnode]
    congr 1
    by_cases heq : id = (ws.tree.node n).id
    · rw [heq, if_pos rfl]
      cases hm : ws.nodes (ws.tree.node n).id with
      | none => rfl
      | some m =>
        simp only
        rw [halone m hm, hempty]
    · rw [if_neg heq]

theorem evicted {m : Option Ref} (hevicted : Evicted ws ws' m)
    (hempty : ∀ n ∈ m, (ws.tree.node n).q.s = [])
    (halone : ∀ n ∈ m, ∀ k, ws.nodes (ws.tree.node n).id = some k → k = n) :
    Filled ws' kept ∧ ws'.queued = ws.queued := by
  cases m with
  | none =>
    rw [show ws' = ws from hevicted]
    exact ⟨hf, rfl⟩
  | some n => exact hf.removed hevicted (hempty n rfl) (halone n rfl)

end

section

variable (hf : Filled ws kept) (hbase : ws.Base) {t : PriorityTree}

include hf hbase

/-- The queue of a node other than the root changes. -/
theorem of_queue {streamID : UInt32} (hzero : streamID ≠ 0) (hn : ws.nodes streamID = some n)
    (hq : ∀ m, m ≠ n → (t.node m).q = (ws.tree.node m).q)
    (hid : ∀ m, (t.node m).id = (ws.tree.node m).id)
    (hself : ∀ wr ∈ (t.node n).q.s, wr.streamID = streamID) :
    Filled { ws with tree := t } kept ∧
      queued { ws with tree := t } streamID =
        (ws.tree.node root).q.s.filter (fun wr => wr.streamID == streamID) ++ (t.node n).q.s ∧
      ∀ id, id ≠ streamID → queued { ws with tree := t } id = ws.queued id := by
  have hroot : root ≠ n := (hbase.ne_root hn hzero).symm
  have hidn : (ws.tree.node n).id = streamID := (hbase.nodes hn).2
  refine ⟨⟨?_, fun {m} hm => ?_, fun {m} hm hne => ?_, fun {m k} hm hk => ?_⟩, ?_, fun id hne => ?_⟩
  · rw [hq root hroot]
    exact hf.control
  · rw [hid]
    by_cases hmn : m = n
    · rw [hmn, hidn]
      exact hself
    · rw [hq m hmn]
      exact hf.ids hm
  · rw [hid]
    by_cases hmn : m = n
    · rw [hmn, hidn]
      exact hn
    · rw [hq m hmn] at hne
      exact hf.known hm hne
  · rw [hid] at hk
    exact hf.alone hm hk
  · simp only [queued, queueOf, hn, if_neg hzero, hq root hroot]
  · unfold queued queueOf
    rw [hq root hroot]
    congr 1
    cases hm : ws.nodes id with
    | none => rfl
    | some m =>
      have hmn : m ≠ n := by
        intro hmn
        rw [hmn] at hm
        exact hne (hbase.id_unique hm hn)
      simp only [hq m hmn]

/-- The queue of the root changes. -/
theorem of_root (hq : ∀ m, m ≠ root → (t.node m).q = (ws.tree.node m).q)
    (hid : ∀ m, (t.node m).id = (ws.tree.node m).id)
    (hcontrol : ∀ wr ∈ (t.node root).q.s, wr.dataSize = 0) :
    Filled { ws with tree := t } kept ∧
      ∀ id, queued { ws with tree := t } id =
        (t.node root).q.s.filter (fun wr => wr.streamID == id) ++
          if id = 0 then [] else ws.queueOf id := by
  refine ⟨⟨hcontrol, fun {m} hm => ?_, fun {m} hm hne => ?_, fun {m k} hm hk => ?_⟩, fun id => ?_⟩
  · rw [hq m hm, hid]
    exact hf.ids hm
  · rw [hq m hm] at hne
    rw [hid]
    exact hf.known hm hne
  · rw [hid] at hk
    exact hf.alone hm hk
  · unfold queued queueOf
    congr 1
    by_cases hzero : id = 0
    · rw [if_pos hzero, if_pos hzero]
    cases hm : ws.nodes id with
    | none => rfl
    | some m => simp only [hq m (hbase.ne_root hm hzero)]

/-- The first part of `CloseStream`: the queue of the node is emptied. -/
theorem closing {streamID : UInt32} (hzero : streamID ≠ 0) (hn : ws.nodes streamID = some n)
    (hclosing : Closing ws.tree t n) :
    Filled { ws with tree := t } kept ∧
      ws.queued streamID = queued { ws with tree := t } streamID ++ (ws.tree.node n).q.s ∧
      (∀ wr ∈ queued { ws with tree := t } streamID, wr.dataSize = 0) ∧
      ∀ id, id ≠ streamID → queued { ws with tree := t } id = ws.queued id := by
  have hself : (t.node n).q.s = [] := by rw [hclosing.self]
  obtain ⟨hfilled, hqueued, hother⟩ := hf.of_queue hbase hzero hn
    (fun m hm => by rw [hclosing.node m hm]) hclosing.sameLinks.id
    (fun wr hwr => by rw [hself] at hwr; cases hwr)
  rw [hself, append_nil] at hqueued
  refine ⟨hfilled, ?_, ?_, hother⟩
  · rw [hqueued]
    simp only [queued, queueOf, if_neg hzero, hn]
  · rw [hqueued]
    exact fun wr hwr => hf.control wr (mem_filter.mp hwr).1

/-- A frame is added to a queue. -/
theorem push {wr : FrameWriteRequest} (hn : ws.pushTarget? wr = some n)
    (hdata : 0 < wr.dataSize → wr.streamID ≠ 0)
    (ht : t = ws.tree.modify n fun x => { x with q := x.q.push wr }) :
    Filled { ws with tree := t } kept ∧
      queued { ws with tree := t } wr.streamID = ws.queued wr.streamID ++ [wr] ∧
      ∀ id, id ≠ wr.streamID → queued { ws with tree := t } id = ws.queued id := by
  have hself : (t.node n).q.s = (ws.tree.node n).q.s ++ [wr] := by
    rw [ht, node_modify, update_self]
    rfl
  have hq : ∀ m, m ≠ n → (t.node m).q = (ws.tree.node m).q := by
    intro m hm
    rw [ht, node_modify, update_of_ne hm]
  have hid : ∀ m, (t.node m).id = (ws.tree.node m).id := by
    rw [ht]
    exact field_modify ws.tree n PriorityNode.id fun _ => rfl
  have htarget : (n = root ∧ wr.dataSize = 0 ∧ (wr.streamID = 0 ∨ ws.nodes wr.streamID = none)) ∨
      (wr.streamID ≠ 0 ∧ ws.nodes wr.streamID = some n) := by
    unfold pushTarget? at hn
    split at hn
    · rename_i hzero
      refine .inl ⟨(some.inj hn).symm, ?_, .inl hzero⟩
      by_contra hsize
      exact hdata (Nat.pos_of_ne_zero hsize) hzero
    rename_i hzero
    split at hn
    · rename_i hm
      cases hn
      exact .inr ⟨hzero, hm⟩
    · rename_i hm
      split at hn
      · cases hn
      · rename_i hsize
        exact .inl ⟨(some.inj hn).symm, Nat.eq_zero_of_not_pos hsize, .inr hm⟩
  rcases htarget with ⟨rfl, hsize, hstream⟩ | ⟨hzero, hmap⟩
  · obtain ⟨hfilled, hqueued⟩ := hf.of_root hbase hq hid (fun wr' hwr' => by
      rw [hself] at hwr'
      rcases mem_append.mp hwr' with hwr' | hwr'
      · exact hf.control wr' hwr'
      · rw [mem_singleton.mp hwr']
        exact hsize)
    have hnone : (if wr.streamID = 0 then [] else ws.queueOf wr.streamID) = [] := by
      rcases hstream with hzero | hnone
      · rw [if_pos hzero]
      · unfold queueOf
        rw [hnone]
        split <;> rfl
    refine ⟨hfilled, ?_, fun id hne => ?_⟩
    · rw [hqueued, hself, queued, hnone, filter_append]
      simp
    · rw [hqueued, hself, queued, filter_append]
      simp [Ne.symm hne]
  · obtain ⟨hfilled, hqueued, hother⟩ := hf.of_queue hbase hzero hmap hq hid (fun wr' hwr' => by
      rw [hself] at hwr'
      rcases mem_append.mp hwr' with hwr' | hwr'
      · rw [hf.ids (hbase.ne_root hmap hzero) wr' hwr', (hbase.nodes hmap).2]
      · rw [mem_singleton.mp hwr'])
    refine ⟨hfilled, ?_, hother⟩
    rw [hqueued, hself]
    simp only [queued, queueOf, if_neg hzero, hmap, append_assoc]

end

/-- A frame is popped.  The queue of the root comes first. -/
theorem popped (hf : Filled ws kept) (hbase : ws.Base) {wr : FrameWriteRequest} {s : PopState}
    (hs : PoppedAt ws n wr s) (hfirst : n = root ∨ (ws.tree.node root).q.s = []) :
    Filled s.ws kept ∧ Takes Splits (ws.queued wr.streamID) wr (s.ws.queued wr.streamID) ∧
      ∀ id, id ≠ wr.streamID → s.ws.queued id = ws.queued id := by
  have htakes := hs.takes
  have hq : ∀ m, m ≠ n → (s.ws.tree.node m).q = (ws.tree.node m).q := by
    intro m hm
    rw [hs.node m hm]
  have hid := hs.id
  have hqueued' : s.ws.queued = queued { ws with tree := s.ws.tree } := by
    rw [hs.rest]
    rfl
  have hfilled' : Filled { ws with tree := s.ws.tree } kept → Filled s.ws kept := by
    intro hfilled
    rw [hs.rest]
    exact ⟨hfilled.control, hfilled.ids, hfilled.known, hfilled.alone⟩
  rw [hqueued']
  by_cases hroot : n = root
  · subst hroot
    have hwhole := WriteQueue.takes_eq_cons htakes hf.control
    obtain ⟨hfilled, hqueued⟩ := hf.of_root hbase hq hid (fun wr' hwr' =>
      hf.control wr' (by rw [hwhole]; exact mem_cons_of_mem _ hwr'))
    refine ⟨hfilled' hfilled, ?_, fun id hne => ?_⟩
    · have htaken :
          ws.queued wr.streamID = wr :: queued { ws with tree := s.ws.tree } wr.streamID := by
        rw [hqueued, queued, hwhole, filter_cons_of_pos (by simp)]
        rfl
      rw [htaken]
      exact .whole ..
    · rw [hqueued, queued, hwhole, filter_cons_of_neg]
      simp [Ne.symm hne]
  · have hempty : (ws.tree.node root).q.s = [] := hfirst.resolve_left hroot
    have hne : (ws.tree.node n).q.s ≠ [] := by
      intro hnil
      rw [hnil] at htakes
      cases htakes
    have hmap := hf.known hroot hne
    have hids := hf.ids hroot
    have hstream : wr.streamID = (ws.tree.node n).id :=
      htakes.of_forall (fun f a b hsplits hf => hsplits.streamID_consumed.trans hf) hids
    rw [← hstream] at hmap hids
    have hzero : wr.streamID ≠ 0 := by
      intro hzero
      rw [hzero, hbase.zero] at hmap
      exact hroot (some.inj hmap).symm
    obtain ⟨hfilled, hqueued, hother⟩ := hf.of_queue hbase hzero hmap hq hid
      (htakes.forall_rest (fun f a b hsplits hf => hsplits.streamID_rest.trans hf) hids)
    refine ⟨hfilled' hfilled, ?_, hother⟩
    have hold : ws.queued wr.streamID = (ws.tree.node n).q.s := by
      simp only [queued, queueOf, if_neg hzero, hmap, hempty, filter_nil, nil_append]
    rw [hold, hqueued, hempty]
    exact htakes

end Filled

/-! ## The calls -/

/-- The node is that of the stream that the call closes. -/
def closes (ws : PriorityWriteScheduler) : Call → Ref → Bool
  | .closeStream streamID, n => ws.nodes streamID == some n
  | _, _ => false

/-- Whether a call that removes a node removes one with at most one kid, and no frames
but those of a stream that it closes.  It does not remove the node of an open stream
that was idle before. -/
def keepsFrames (ws : PriorityWriteScheduler) (c : Call) : Bool :=
  ws.keepsOpen c && (ws.removed? c).all fun n =>
    ws.tree.oneKid n && (ws.closes c n || (ws.tree.node n).q.empty)

variable {c : Call} {calls : List Call}

theorem keepsFrames_removed (hkeeps : ws.keepsFrames c = true) (hn : n ∈ ws.removed? c) :
    ws.tree.oneKid n = true ∧ (ws.closes c n = true ∨ (ws.tree.node n).q.s = []) := by
  have hall := (Option.all_eq_true _ _).mp ((Bool.and_eq_true _ _).mp hkeeps).2 n hn
  obtain ⟨hone, hcloses⟩ := (Bool.and_eq_true _ _).mp hall
  refine ⟨hone, (Bool.or_eq_true_iff.mp hcloses).imp_right fun hempty => ?_⟩
  exact eq_nil_of_length_eq_zero (beq_iff_eq.mp hempty)

namespace Filled

variable {streamID : UInt32} {priority : PriorityParam}

section

variable (hf : Filled ws (ws.closedNodes ++ ws.idleNodes)) (hlife : Life ws st ws.idleNodes)

include hf hlife

theorem openStream {pusherID : UInt32} (hzero : streamID ≠ 0) (hnew : streamID ∉ st.opened)
    (hopen : ws.openStream streamID pusherID = .ok ws') :
    Filled ws' (ws'.closedNodes ++ ws'.idleNodes) ∧ ws'.queued = ws.queued := by
  cases (hlife.opens hzero hnew pusherID).of_ok hopen with
  | @new _ p hn =>
    obtain ⟨hfilled, hqueued⟩ := hf.added hlife.base hn .priorityNodeOpen p fun m hm => by
      refine ⟨?_, hlife.id_ne_of_mem hnew hn hm⟩
      rcases mem_append.mp hm with hm | hm
      · exact (hlife.base.closed hm).2
      · exact (hlife.base.idle hm).2
    exact ⟨⟨hfilled.control, hfilled.ids, hfilled.known, hfilled.alone⟩, hqueued⟩
  | known =>
    refine hf.of_tree (field_modify _ _ PriorityNode.q ?_) (field_modify _ _ PriorityNode.id ?_)
    · exact fun _ => rfl
    · exact fun _ => rfl

theorem closeStream (hopen : st.isOpen streamID = true)
    (hkeeps : ws.keepsFrames (.closeStream streamID) = true)
    (hclose : ws.closeStream streamID = .ok ws') :
    Filled ws' (ws'.closedNodes ++ ws'.idleNodes) ∧
      (∃ q, ws.queued streamID = ws'.queued streamID ++ q) ∧
      (∀ wr ∈ ws'.queued streamID, wr.dataSize = 0) ∧
      ∀ id, id ≠ streamID → ws'.queued id = ws.queued id := by
  obtain @⟨n, t, ws₁, hzero, hn, hclosing, _, hevicted, _, _⟩ := (hlife.closes hopen).of_ok hclose
  obtain ⟨hfilled, hqueued, hcontrol, hother⟩ := hf.closing hlife.base hzero hn hclosing
  have hself : (t.node n).q.s = [] := by rw [hclosing.self]
  have hmap : ws.nodes (t.node n).id = some n := by
    rw [hclosing.sameLinks.id, (hlife.base.nodes hn).2]
    exact hn
  have hfilled₁ : Filled { ws with tree := t } (n :: (ws.closedNodes ++ ws.idleNodes)) :=
    hfilled.cons hmap
  have hgone : ∀ m ∈ ws.retired? n,
      m ∈ n :: (ws.closedNodes ++ ws.idleNodes) ∧ (t.node m).q.s = [] := by
    intro m hm
    by_cases hmn : m = n
    · rw [hmn]
      exact ⟨mem_cons_self, hself⟩
    have hlist : m ∈ ws.closedNodes := (mem_of_retired? hm).resolve_left hmn
    refine ⟨mem_cons_of_mem _ (mem_append_left _ hlist), ?_⟩
    rw [← removed?_closeStream hn] at hm
    rw [hclosing.node m hmn]
    refine (keepsFrames_removed hkeeps hm).2.resolve_left fun hcloses => hmn ?_
    exact (some.inj (hn.symm.trans (beq_iff_eq.mp hcloses))).symm
  obtain ⟨hfilled₂, hqueued₂⟩ := hfilled₁.evicted hevicted (fun m hm => (hgone m hm).2)
    fun m hm k hk => hfilled₁.alone (hgone m hm).1 hk
  have hqueued' : queued { ws₁ with closedNodes := ws.closedAfter n } =
      queued { ws with tree := t } := hqueued₂
  have hidle : ws₁.idleNodes = ws.idleNodes := by rw [hevicted.rest]
  have hfilled₃ := hfilled₂.mono (l := ws.closedAfter n ++ ws₁.idleNodes) fun m hm => by
    rw [hidle] at hm
    rcases mem_append.mp hm with hm | hm
    · rcases mem_closedAfter hm with rfl | hm
      · exact mem_cons_self
      · exact mem_cons_of_mem _ (mem_append_left _ hm)
    · exact mem_cons_of_mem _ (mem_append_right _ hm)
  rw [hqueued']
  exact ⟨⟨hfilled₃.control, hfilled₃.ids, hfilled₃.known, hfilled₃.alone⟩, ⟨_, hqueued⟩, hcontrol,
    hother⟩

end

/-- `AdjustStream` for a node in the tree. -/
theorem adjusted (hf : Filled ws kept) {t : PriorityTree} (hadjusted : Adjusted ws n priority t) :
    Filled { ws with tree := t } kept ∧ queued { ws with tree := t } = ws.queued :=
  hf.of_tree (hadjusted.field PriorityNode.q fun _ _ => rfl)
    (hadjusted.field PriorityNode.id fun _ _ => rfl)

theorem adjustStream (hf : Filled ws (ws.closedNodes ++ ws.idleNodes))
    (hlife : Life ws st ws.idleNodes) (hzero : streamID ≠ 0)
    (hkeeps : ws.keepsFrames (.adjustStream streamID priority) = true)
    (hadjust : ws.adjustStream streamID priority = .ok ws') :
    Filled ws' (ws'.closedNodes ++ ws'.idleNodes) ∧ ws'.queued = ws.queued := by
  cases (adjustStream_returns hlife.base hzero priority).of_ok hadjust with
  | known hn _ hadjusted => exact hf.adjusted hadjusted
  | ignored => exact ⟨hf, rfl⟩
  | @new ws₂ t hn hmax _ _ hevicted _ _ _ _ hadjusted =>
    have hnew : streamID ∉ st.opened := fun hmem => UInt32.not_le.mpr hmax (hlife.opened hmem).2
    have hlt : ∀ m ∈ ws.closedNodes ++ ws.idleNodes, m < ws.tree.size := by
      intro m hm
      rcases mem_append.mp hm with hm | hm
      · exact (hlife.base.closed hm).2
      · exact (hlife.base.idle hm).2
    obtain ⟨hfilled, hqueued⟩ := hf.added hlife.base hn .priorityNodeIdle root
      fun m hm => ⟨hlt m hm, hlife.id_ne_of_mem hnew hn hm⟩
    have hfilled₁ : Filled (ws.addedIdle streamID)
        (ws.tree.size :: (ws.closedNodes ++ ws.idleNodes)) := by
      refine Filled.cons ⟨hfilled.control, hfilled.ids, hfilled.known, hfilled.alone⟩ ?_
      rw [show (ws.addedIdle streamID).tree.node ws.tree.size = _ from node_added_size ..]
      exact if_pos rfl
    have hempty : ∀ m ∈ oldest? ws.idleNodes ws.maxIdleNodesInTree,
        ((ws.addedIdle streamID).tree.node m).q.s = [] := by
      intro m hm
      rw [show (ws.addedIdle streamID).tree.node m = _ from
        node_added_of_lt _ _ _ (hlife.base.idle (mem_of_oldest? hm)).2]
      have hremoved : ws.removed? (.adjustStream streamID priority) = _ :=
        removed?_adjustStream hn hmax
      rw [← hremoved] at hm
      exact (keepsFrames_removed hkeeps hm).2.resolve_left Bool.false_ne_true
    obtain ⟨hfilled₂, hqueued₂⟩ := hfilled₁.evicted hevicted hempty fun m hm k hk =>
      hfilled₁.alone (mem_cons_of_mem _ (mem_append_right _ (mem_of_oldest? hm))) hk
    have hclosed : ws₂.closedNodes = ws.closedNodes := by
      rw [hevicted.rest]
      rfl
    have hfilled₃ := hfilled₂.mono (l := ws₂.closedNodes ++ ws.idleAfter) fun m hm => by
      rw [hclosed] at hm
      rcases mem_append.mp hm with hm | hm
      · exact mem_cons_of_mem _ (mem_append_left _ hm)
      · rcases mem_keptNodes hm with rfl | hm
        · exact mem_cons_self
        · exact mem_cons_of_mem _ (mem_append_right _ hm)
    have hfilled₄ : Filled { ws₂ with idleNodes := ws.idleAfter }
        (ws₂.closedNodes ++ ws.idleAfter) :=
      ⟨hfilled₃.control, hfilled₃.ids, hfilled₃.known, hfilled₃.alone⟩
    obtain ⟨hfilled₅, hqueued₅⟩ := hfilled₄.adjusted hadjusted
    exact ⟨hfilled₅, hqueued₅.trans (hqueued₂.trans hqueued)⟩

/-- The frame that `Pop` finds. -/
theorem pop (go : Sorting) (hf : Filled ws kept) (hbase : ws.Base) (hsound : ws.QueuesSound)
    {flows : Flows} {s : PopState} (hpop : ws.pop go flows = .ok s) :
    Filled s.ws kept ∧
      ((s.wr = none ∧ s.ws.queued = ws.queued) ∨
        ∃ wr, s.wr = some wr ∧
          Takes Splits (ws.queued wr.streamID) wr (s.ws.queued wr.streamID) ∧
          ∀ id, id ≠ wr.streamID → s.ws.queued id = ws.queued id) := by
  cases hroot : (ws.tree.node root).q.s with
  | cons f q =>
    have hmem : f ∈ (ws.tree.node root).q.s := by
      rw [hroot]
      exact mem_cons_self
    have hhead : f ∈ (ws.tree.node root).q.s.head? := by
      rw [hroot]
      rfl
    obtain ⟨wr, hs⟩ := pop_root go hbase hsound flows hhead
      (fun hblocked => Nat.ne_of_gt hblocked.1 (hf.control f hmem)) hpop
    obtain ⟨hfilled, hqueued⟩ := hf.popped hbase hs (.inl rfl)
    exact ⟨hfilled, .inr ⟨wr, hs.frame, hqueued⟩⟩
  | nil =>
    obtain ⟨s', hpop', _, hcases⟩ := pop_eq go hbase hsound flows
    rw [hpop'] at hpop
    cases hpop
    rcases hcases with hs | ⟨n, wr, hs⟩
    · obtain ⟨hfilled, hqueued⟩ := hf.of_tree (t := s.ws.tree) (fun m => by rw [hs.node])
        (fun m => by rw [hs.node])
      rw [← hs.rest] at hfilled hqueued
      exact ⟨hfilled, .inl ⟨hs.frame, hqueued⟩⟩
    · obtain ⟨hfilled, hqueued⟩ := hf.popped hbase hs (.inr hroot)
      exact ⟨hfilled, .inr ⟨wr, hs.frame, hqueued⟩⟩

end Filled

/-! ## Runs -/

/-- What a call does to the queues. -/
def events (go : Sorting) (ws : PriorityWriteScheduler) :
    Call → List (Event UInt32 FrameWriteRequest)
  | .push wr => [.push wr]
  | .closeStream streamID => [.close streamID]
  | .pop flows =>
    match ws.pop go flows with
    | .ok s => (s.wr.map Event.pop).toList
    | .error _ => []
  | .openStream _ _ => []
  | .adjustStream _ _ => []

/-- What the calls of a sequence do to the queues. -/
def history (go : Sorting) :
    PriorityWriteScheduler → List Call → List (Event UInt32 FrameWriteRequest) :=
  log (step go) (events go)

/-- The scheduler knows the streams and where their frames are, and has delivered them
in order. -/
structure Contract (ws : PriorityWriteScheduler) (st : Streams)
    (h : List (Event UInt32 FrameWriteRequest)) : Prop where
  life : Life ws st ws.idleNodes
  filled : Filled ws (ws.closedNodes ++ ws.idleNodes)
  delivered : Delivered streamID Splits payload h ws.queued
  final : Final streamID payload (fun id => id ∈ st.closed) h

theorem contract_new : Contract (new cfg) {} [] := by
  refine ⟨life_new cfg, filled_new cfg, ?_, ⟨fun _ => prefix_rfl, fun _ _ => rfl, fun _ _ => rfl⟩⟩
  rw [queued_new]
  exact .nil ..

/-- A frame that is pushed on a closed stream has no bytes. -/
theorem payload_eq_nil_of_closed {wr : FrameWriteRequest} (hlegal : st.legal (.push wr) = true)
    (hclosed : wr.streamID ∈ st.closed) : wr.payload = [] := by
  obtain ⟨_, hdata⟩ := (Bool.and_eq_true _ _).mp hlegal
  rcases Bool.or_eq_true_iff.mp hdata with hzero | hopen
  · rw [beq_iff_eq, dataSize_eq] at hzero
    exact eq_nil_of_length_eq_zero hzero
  · exact ((Streams.isOpen_iff.mp ((Bool.and_eq_true _ _).mp hopen).2).2 hclosed).elim

theorem Contract.step (hc : Contract ws st h) (hlegal : st.legal c = true)
    (hkeeps : ws.keepsFrames c = true) :
    ∃ ws', ws.step go c = .ok ws' ∧ Contract ws' (st.after c) (h ++ ws.events go c) := by
  obtain ⟨ws', hstep, hlife⟩ := hc.life.step go hlegal ((Bool.and_eq_true _ _).mp hkeeps).1
  refine ⟨ws', hstep, ?_⟩
  cases c with
  | openStream streamID pusherID =>
    obtain ⟨hid, hnew⟩ := (Bool.and_eq_true _ _).mp hlegal
    obtain ⟨hfilled, hqueued⟩ := hc.filled.openStream hc.life (of_decide_eq_true hid)
      (of_decide_eq_true hnew) hstep
    rw [events, append_nil]
    exact ⟨hlife, hfilled, hqueued ▸ hc.delivered, hc.final⟩
  | closeStream streamID =>
    obtain ⟨hfilled, ⟨q, hqueued⟩, hcontrol, hother⟩ :=
      hc.filled.closeStream hc.life hlegal hkeeps hstep
    refine ⟨hlife, hfilled, hc.delivered.close hqueued ?_ hother, hc.final.close fun id => ?_⟩
    · refine flatMap_eq_nil_iff.mpr fun wr hwr => eq_nil_of_length_eq_zero ?_
      rw [← dataSize_eq]
      exact hcontrol wr hwr
    · exact mem_cons
  | adjustStream streamID priority =>
    obtain ⟨hfilled, hqueued⟩ :=
      hc.filled.adjustStream hc.life (of_decide_eq_true hlegal) hkeeps hstep
    rw [events, append_nil]
    exact ⟨hlife, hfilled, hqueued ▸ hc.delivered, hc.final⟩
  | push wr =>
    obtain ⟨n, hn, hpush⟩ := hc.life.pushTarget hlegal
    have hdata : 0 < wr.dataSize → wr.streamID ≠ 0 := by
      intro hpos
      rcases Bool.or_eq_true_iff.mp ((Bool.and_eq_true _ _).mp hlegal).2 with hzero | hopen
      · rw [beq_iff_eq] at hzero
        omega
      · have hmem := Streams.isOpen_iff.mp ((Bool.and_eq_true _ _).mp hopen).2
        exact (hc.life.opened hmem.1).1
    obtain ⟨hfilled, hqueued, hother⟩ := hc.filled.push hc.life.base hn hdata rfl
    have heq : ws' = _ := Except.ok.inj (hstep.symm.trans hpush)
    subst heq
    exact ⟨hlife, hfilled, hc.delivered.push hqueued hother,
      hc.final.push (payload_eq_nil_of_closed hlegal)⟩
  | pop flows =>
    obtain ⟨s, hpop, _, hs⟩ := pop_eq go hc.life.base hc.life.sound flows
    have heq : s.ws = ws' := by
      have hmap : (ws.pop go flows).map PopState.ws = .ok ws' := hstep
      rw [hpop] at hmap
      exact Except.ok.inj hmap
    subst heq
    have hevents : ws.events go (.pop flows) = (s.wr.map Event.pop).toList := by
      simp only [events, hpop]
    have hlists : s.ws.closedNodes ++ s.ws.idleNodes = ws.closedNodes ++ ws.idleNodes := by
      rcases hs with hs | ⟨n, wr, hs⟩ <;> rw [hs.rest]
    obtain ⟨hfilled, hcases⟩ := hc.filled.pop go hc.life.base hc.life.sound hpop
    rw [← hlists] at hfilled
    rw [hevents]
    rcases hcases with ⟨hwr, hqueued⟩ | ⟨wr, hwr, htakes, hother⟩
    · rw [hwr, map_none, toList_none, append_nil]
      exact ⟨hlife, hfilled, hqueued ▸ hc.delivered, hc.final⟩
    · rw [hwr, map_some, toList_some]
      have hdelivered := hc.delivered.take (fun _ _ _ hsplits => hsplits.payload_eq) htakes hother
      exact ⟨hlife, hfilled, hdelivered, hc.final.pop hdelivered⟩

theorem removesOneKid_of_keepsFrames (hkeeps : ws.keepsFrames c = true) :
    ws.removesOneKid c = true :=
  (Option.all_eq_true _ _).mpr fun _ hn => (keepsFrames_removed hkeeps hn).1

/-- In a legal run in which every node that is removed has at most one kid, and no
frames unless its stream is closed by the call, no call panics.  There is an account of
the frames of each stream: in push order, what of a frame was popped, and whether the
rest is queued or was discarded when the stream was closed later.  The bytes that were
popped are the beginning of those that were pushed.  Every frame that is queued is in
the queue of a node that can be reached from the root. -/
theorem delivered_of_keepsFrames (go : Sorting) (cfg : PriorityWriteSchedulerConfig)
    (calls : List Call) (hlegal : Streams.legalRun {} calls = true)
    (hkeeps : Always (step go) (keepsFrames · · = true) (new cfg) calls) :
    ∃ ws, (new cfg).run go calls = .ok ws ∧ ∀ id,
      (∃ es, Ledger FrameWriteRequest.streamID Splits (history go (new cfg) calls) id
        (ws.queued id) es) ∧
      (popped FrameWriteRequest.streamID id (history go (new cfg) calls)).flatMap
          FrameWriteRequest.payload <+:
        (pushed FrameWriteRequest.streamID id (history go (new cfg) calls)).flatMap
          FrameWriteRequest.payload ∧
      ∀ wr ∈ ws.queued id, ∃ n, wr ∈ (ws.tree.node n).q.s ∧ Reach ws.tree.links root n := by
  obtain ⟨ws, hrun, hc⟩ := run_of_legal (fun hc => hc.step go) (contract_new cfg) hlegal hkeeps
  have hone := hkeeps.imp fun _ _ => removesOneKid_of_keepsFrames
  have hinv := (ends_run go (inv_new cfg) hone).of_ok hrun
  obtain ⟨kids, hwf⟩ := hinv.tree
  refine ⟨ws, hrun, fun id => ⟨hc.delivered.ledger id, hc.final.popped id, fun wr hwr => ?_⟩⟩
  rcases mem_append.mp hwr with hwr | hwr
  · exact ⟨root, (mem_filter.mp hwr).1, hwf.shape.reach hwf.rooted_root⟩
  · split at hwr
    · cases hwr
    · unfold queueOf at hwr
      split at hwr
      · rename_i n hn
        exact ⟨n, hwr, hwf.shape.reach (hinv.nodes hn).1⟩
      · cases hwr

/-- A DATA frame is popped in part and discarded in part, and RST_STREAM is popped
before the node of the closed stream is removed. -/
def resettingCalls : List Call :=
  [.openStream 1 0, .push { write := .writeData 1 [7, 8, 9] true, stream := some 1 },
    .pop { stream := fun _ => 65535, conn := 65535, maxFrameSize := 2 }, .closeStream 1,
    .push { write := .streamError 1 8 },
    .pop { stream := fun _ => 65535, conn := 65535, maxFrameSize := 16384 }, .openStream 3 0,
    .closeStream 3]

theorem delivered_of_keepsFrames_resetting :
    ∃ ws, (new { maxClosedNodesInTree := 1 }).run keepOrder resettingCalls = .ok ws ∧
      (∃ es, Ledger FrameWriteRequest.streamID Splits
        (history keepOrder (new { maxClosedNodesInTree := 1 }) resettingCalls) 1 (ws.queued 1) es) ∧
      (popped FrameWriteRequest.streamID 1
        (history keepOrder (new { maxClosedNodesInTree := 1 }) resettingCalls)).flatMap
          FrameWriteRequest.payload = [7, 8] := by
  obtain ⟨ws, hrun, hdelivered⟩ := delivered_of_keepsFrames keepOrder { maxClosedNodesInTree := 1 }
    resettingCalls (by decide +kernel) (by decide +kernel)
  exact ⟨ws, hrun, (hdelivered 1).1, by decide +kernel⟩

/-- RST_STREAM is pushed on stream 1 after it was closed.  When stream 3 is closed, it
takes the place of stream 1 among the closed nodes. -/
def losingCalls : List Call :=
  [.openStream 1 0, .closeStream 1, .push { write := .streamError 1 8 }, .openStream 3 0,
    .closeStream 3]

/-- No account is right if stream 1 was closed before the frame was pushed, and the
frame is neither queued nor was it popped. -/
theorem not_ledger_of_closed_before (f : FrameWriteRequest) (es : List (Entry FrameWriteRequest))
    (hf : f.streamID = 1) : ¬ Ledger streamID Splits [.close 1, .push f, .close 3] 1 [] es := by
  intro hl
  have hframes := hl.frames
  simp only [pushed, filterMap_cons, filterMap_nil, if_pos hf] at hframes
  obtain ⟨e, rfl, _⟩ := map_eq_singleton_iff.mp hframes
  have hpopped := hl.popped
  have hqueued := hl.queued
  cases hfate : e.fate with
  | queued => simp [Entry.queued?, hfate] at hqueued
  | popped => simp [Entry.popped, hfate, popped] at hpopped
  | discarded =>
    obtain ⟨j, hlt, hclose⟩ := hl.discarded e mem_cons_self hfate
    rcases j with _ | _ | _ | j
    · omega
    · cases hclose
    · cases hclose
    · cases hclose

/-- RST_STREAM was not popped, it is not queued in the tree any more, and the stream was
not closed after it was pushed. -/
theorem lost :
    Streams.legalRun {} losingCalls = true ∧
      ∃ ws, (new { maxClosedNodesInTree := 1 }).run keepOrder losingCalls = .ok ws ∧
        pushed FrameWriteRequest.streamID 1
          (history keepOrder (new { maxClosedNodesInTree := 1 }) losingCalls) =
            [{ write := .streamError 1 8 }] ∧
        ws.nodes 1 = none ∧ ws.queued 1 = [] ∧
        (¬ ∃ es, Ledger FrameWriteRequest.streamID Splits
          (history keepOrder (new { maxClosedNodesInTree := 1 }) losingCalls) 1 (ws.queued 1) es) ∧
        (ws.pop keepOrder { stream := fun _ => 65535, conn := 65535, maxFrameSize := 16384 }).map
          PopState.wr = .ok none := by
  obtain ⟨ws, hrun, hnone, hqueued, hpop⟩ :
      ∃ ws, (new { maxClosedNodesInTree := 1 }).run keepOrder losingCalls = .ok ws ∧
        ws.nodes 1 = none ∧ ws.queued 1 = [] ∧
        (ws.pop keepOrder { stream := fun _ => 65535, conn := 65535, maxFrameSize := 16384 }).map
          PopState.wr = .ok none := ⟨_, rfl, rfl, rfl, rfl⟩
  refine ⟨by decide, ws, hrun, rfl, hnone, hqueued, ?_, hpop⟩
  rw [hqueued]
  rintro ⟨es, hl⟩
  exact not_ledger_of_closed_before _ es rfl hl

end PriorityWriteScheduler

end Fhttp.Http2
