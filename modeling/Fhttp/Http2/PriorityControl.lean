import Mathlib.Algebra.Order.BigOperators.Group.Finset
import Fhttp.Http2.PriorityCalls
import Fhttp.Http2.Scheduler

/-!
# The control frames of the priority scheduler

The priority scheduler holds the frames in the queues of the nodes that it can still find:
through its map, or as a kid of another node (`holds`).  When a node is removed, its frames
are no longer held.  `Shrinks` is what the calls other than `Push` and `Pop` do: no node that
was not held is held afterwards, and its queue stays as it is or is emptied.

`priority_lawful` is the contract that the server uses, and `Scheduling` the choice between
the two schedulers.
-/

namespace Fhttp.Http2

open Lib.Panic PriorityTree
open Function (update update_of_ne update_self)
open Finset

namespace PriorityWriteScheduler

variable {ws ws' ws'' : PriorityWriteScheduler} {n : Ref}

/-- The scheduler can find a node. -/
def holds (ws : PriorityWriteScheduler) (n : Ref) : Bool :=
  (ws.tree.parent n).isSome || ws.nodes (ws.tree.node n).id == some n

/-- The control frames in the queue of a node, if it is held. -/
def controlsAt (ws : PriorityWriteScheduler) (n : Ref) : Nat :=
  if ws.holds n then controls (ws.tree.node n).q.s else 0

/-- The number of control frames that are held. -/
def heldControls (ws : PriorityWriteScheduler) : Nat :=
  ∑ n ∈ range ws.tree.size, ws.controlsAt n

theorem holds_iff : ws.holds n = true ↔
    ws.tree.parent n ≠ none ∨ ws.nodes (ws.tree.node n).id = some n := by
  unfold holds
  rw [Bool.or_eq_true, Option.isSome_iff_ne_none, beq_iff_eq]

/-- A node in the map. -/
theorem Base.holds (h : ws.Base) {id : UInt32} (hn : ws.nodes id = some n) : ws.holds n = true := by
  refine holds_iff.mpr (.inr ?_)
  rw [(h.nodes hn).2]
  exact hn

/-! ## Calls that add no frames -/

/-- No frame is added: the new nodes have none, and a node with frames that is held was held
before, with the same frames. -/
structure Shrinks (ws ws' : PriorityWriteScheduler) : Prop where
  size : ws.tree.size ≤ ws'.tree.size
  holds : ∀ {n}, n < ws.tree.size → (ws'.tree.node n).q.s ≠ [] → ws'.holds n = true →
    ws.holds n = true
  queue : ∀ {n}, n < ws.tree.size →
    (ws'.tree.node n).q.s = (ws.tree.node n).q.s ∨ (ws'.tree.node n).q.s = []
  new : ∀ {n}, ws.tree.size ≤ n → n < ws'.tree.size → (ws'.tree.node n).q.s = []

theorem Shrinks.refl (ws : PriorityWriteScheduler) : Shrinks ws ws :=
  ⟨Nat.le_refl _, fun _ _ h => h, fun _ => .inl rfl, fun hle hlt => absurd hlt (Nat.not_lt.mpr hle)⟩

theorem Shrinks.trans (h : Shrinks ws ws') (h' : Shrinks ws' ws'') : Shrinks ws ws'' where
  size := Nat.le_trans h.size h'.size
  holds := by
    intro n hn hne hholds
    have hn' := Nat.lt_of_lt_of_le hn h.size
    have hq : (ws'.tree.node n).q.s ≠ [] := by
      rcases h'.queue hn' with hq | hq
      · rwa [hq] at hne
      · exact (hne hq).elim
    exact h.holds hn hq (h'.holds hn' hne hholds)
  queue := by
    intro n hn
    rcases h'.queue (Nat.lt_of_lt_of_le hn h.size) with hq | hq
    · rw [hq]
      exact h.queue hn
    · exact .inr hq
  new := by
    intro n hn hlt
    by_cases hnew : ws'.tree.size ≤ n
    · exact h'.new hnew hlt
    · rcases h'.queue (Nat.lt_of_not_le hnew) with hq | hq
      · rw [hq]
        exact h.new hn (Nat.lt_of_not_le hnew)
      · exact hq

theorem Shrinks.held_le (h : Shrinks ws ws') : ws'.heldControls ≤ ws.heldControls := by
  have hnew : ∀ n ∈ range ws'.tree.size, n ∉ range ws.tree.size →
      ws'.controlsAt n = 0 := by
    intro n hn hold
    rw [mem_range] at hn hold
    unfold controlsAt
    rw [h.new (Nat.not_lt.mp hold) hn, controls_nil, ite_self]
  have hsub : range ws.tree.size ⊆ range ws'.tree.size :=
    range_subset_range.mpr h.size
  unfold heldControls
  rw [← sum_subset hsub hnew]
  refine sum_le_sum fun n hn => ?_
  rw [mem_range] at hn
  unfold controlsAt
  by_cases hempty : (ws'.tree.node n).q.s = []
  · rw [hempty, controls_nil, ite_self]
    exact Nat.zero_le _
  by_cases hholds : ws'.holds n = true
  · rw [if_pos hholds, if_pos (h.holds hn hempty hholds), (h.queue hn).resolve_right hempty]
  · rw [if_neg hholds]
    exact Nat.zero_le _

/-- The queues stay as they are. -/
theorem shrinks_of_queue (hsize : ws'.tree.size = ws.tree.size)
    (hholds : ∀ {n}, (ws'.tree.node n).q.s ≠ [] → ws'.holds n = true → ws.holds n = true)
    (hq : ∀ n, (ws'.tree.node n).q.s = (ws.tree.node n).q.s) : Shrinks ws ws' :=
  ⟨Nat.le_of_eq hsize.symm, fun _ => hholds, fun {n} _ => .inl (hq n),
    fun hle hlt => absurd hlt (by omega)⟩

theorem shrinks_added (streamID : UInt32) (state : PriorityNodeState) (p : Ref) :
    Shrinks ws (ws.added streamID state p) where
  size := Nat.le_succ _
  holds := by
    intro n hlt _ hholds
    rw [holds_iff, node_added_of_lt _ _ _ hlt] at hholds
    refine holds_iff.mpr (hholds.imp (fun hparent => ?_) fun hmap => ?_)
    · rwa [parent_added, update_of_ne (Nat.ne_of_lt hlt)] at hparent
    · rcases nodes_added hmap with ⟨_, hsize⟩ | ⟨_, hmap⟩
      · exact absurd hsize (Nat.ne_of_lt hlt)
      · exact hmap
  queue := fun hlt => .inl (by rw [node_added_of_lt _ _ _ hlt])
  new := by
    intro n hle hlt
    have heq : n = ws.tree.size := Nat.le_antisymm (Nat.lt_succ_iff.mp hlt) hle
    rw [heq, node_added_size]

theorem shrinks_removed (h : ws.Base) (hremoved : Removed ws ws' n) : Shrinks ws ws' := by
  obtain ⟨kids, hforest⟩ := h.forest
  refine shrinks_of_queue hremoved.size (fun {m} _ hholds => ?_) fun m => by rw [hremoved.node]
  rw [holds_iff, hremoved.node, hremoved.parent m] at hholds
  refine holds_iff.mpr (hholds.imp (fun hparent => ?_) fun hmap => ?_)
  · split at hparent
    · exact (hparent rfl).elim
    split at hparent
    · rw [hforest.parent_of_first ‹_›]
      exact Option.some_ne_none n
    · exact hparent
  · exact (hremoved.nodes hmap).2

theorem shrinks_evicted (h : ws.Base) {m : Option Ref} (hevicted : Evicted ws ws' m) :
    Shrinks ws ws' := by
  cases m with
  | none =>
    rw [show ws' = ws from hevicted]
    exact .refl ws
  | some m => exact shrinks_removed h hevicted

variable {t : PriorityTree}

/-- The queue of a node that is closed is emptied. -/
theorem queue_closing (hclosing : Closing ws.tree t n) (m : Ref) :
    (t.node m).q.s = (ws.tree.node m).q.s ∨ (t.node m).q.s = [] := by
  by_cases hm : m = n
  · rw [hm, hclosing.self]
    exact .inr rfl
  · rw [hclosing.node m hm]
    exact .inl rfl

theorem shrinks_closing (hclosing : Closing ws.tree t n) :
    Shrinks ws { ws with tree := t } where
  size := Nat.le_of_eq hclosing.size.symm
  holds := by
    intro m _ _ hholds
    rw [holds_iff] at hholds ⊢
    rwa [show t.parent m = ws.tree.parent m by rw [parent, parent, hclosing.links],
      hclosing.sameLinks.id m] at hholds
  queue := fun _ => queue_closing hclosing _
  new := fun hle hlt => absurd (hlt.trans_eq hclosing.size) (Nat.not_lt.mpr hle)

/-- The parents after `AdjustStream`: only a node of the map may get a parent. -/
theorem adjustedParents_ne_none {exclusive : Bool} {dep : Option Ref} {m : Ref}
    (h : adjustedParents ws.tree n exclusive dep m ≠ none) :
    ws.tree.parent m ≠ none ∨ m = n ∨ dep = some m := by
  by_cases hsame : adjustedParents ws.tree n exclusive dep m = ws.tree.parent m
  · exact .inl (hsame ▸ h)
  rcases adjustedParents_ne hsame with ⟨hm, _⟩ | ⟨p, hp, _, ⟨hm, _⟩ | ⟨_, _, hm⟩⟩
  · exact .inr (.inl hm)
  · exact .inr (.inr (hm ▸ hp))
  · exact .inl (hm ▸ Option.some_ne_none p)

theorem shrinks_adjusted (h : ws.Base) (hn : ws.holds n = true ∨ (ws.tree.node n).q.s = [])
    {priority : PriorityParam} (hadjusted : Adjusted ws n priority t) :
    Shrinks ws { ws with tree := t } := by
  have hid : ∀ m, (t.node m).id = (ws.tree.node m).id :=
    hadjusted.field PriorityNode.id fun _ _ => rfl
  have hq : ∀ m, (t.node m).q.s = (ws.tree.node m).q.s :=
    hadjusted.field (fun x => x.q.s) fun _ _ => rfl
  refine shrinks_of_queue hadjusted.size (fun {m} hne hholds => ?_) hq
  rw [holds_iff] at hholds
  rw [hadjusted.parent, hid m] at hholds
  rw [hq m] at hne
  rcases hholds with hparent | hmap
  · rcases adjustedParents_ne_none hparent with hparent | rfl | hdep
    · exact holds_iff.mpr (.inl hparent)
    · exact hn.resolve_right hne
    · exact h.holds hdep
  · exact holds_iff.mpr (.inr hmap)

/-! ## Calls that change one queue -/

/-- The queue of a node that is held changes. -/
theorem held_of_queue (hlt : n < ws.tree.size) (hholds : ws.holds n = true)
    (hsize : ws'.tree.size = ws.tree.size) (hsame : ∀ m, ws'.holds m = ws.holds m)
    (hq : ∀ m, m ≠ n → (ws'.tree.node m).q = (ws.tree.node m).q) :
    ws'.heldControls + controls (ws.tree.node n).q.s =
      ws.heldControls + controls (ws'.tree.node n).q.s := by
  have hmem : n ∈ range ws.tree.size := mem_range.mpr hlt
  have hself : ws.controlsAt n = controls (ws.tree.node n).q.s := if_pos hholds
  have hself' : ws'.controlsAt n = controls (ws'.tree.node n).q.s :=
    if_pos ((hsame n).trans hholds)
  have hother : ∑ m ∈ (range ws.tree.size).erase n, ws'.controlsAt m =
      ∑ m ∈ (range ws.tree.size).erase n, ws.controlsAt m := by
    refine sum_congr rfl fun m hm => ?_
    unfold controlsAt
    rw [hsame m, hq m (ne_of_mem_erase hm)]
  have hsum : ws.controlsAt n + ∑ m ∈ (range ws.tree.size).erase n, ws.controlsAt m =
      ws.heldControls := add_sum_erase _ _ hmem
  have hsum' : ws'.controlsAt n + ∑ m ∈ (range ws.tree.size).erase n, ws'.controlsAt m =
      ws'.heldControls := by
    unfold heldControls
    rw [hsize]
    exact add_sum_erase _ _ hmem
  omega

/-- Changes of the tree that keep the links and the ids. -/
theorem holds_sameLinks (hsame : SameLinks ws.tree t) (m : Ref) :
    holds { ws with tree := t } m = ws.holds m := by
  unfold holds
  rw [hsame.id m, parent, hsame.links]

/-! ## The contract -/

/-- What holds of the scheduler of a connection. -/
structure Ok (ws : PriorityWriteScheduler) : Prop where
  base : ws.Base
  sound : ws.QueuesSound

theorem ok_new (cfg : PriorityWriteSchedulerConfig) : (new cfg).Ok :=
  ⟨base_new cfg, fun _ _ hwr => by cases hwr⟩

theorem heldControls_new (cfg : PriorityWriteSchedulerConfig) : (new cfg).heldControls = 0 := by
  refine sum_eq_zero fun n _ => ?_
  unfold controlsAt
  have hempty : ((new cfg).tree.node n).q.s = [] := rfl
  rw [hempty, controls_nil, ite_self]

/-- A frame is in the queue of a node. -/
def Mem (ws : PriorityWriteScheduler) (f : FrameWriteRequest) : Prop :=
  ∃ n, f ∈ (ws.tree.node n).q.s

/-- The scheduler after a call that adds no frames. -/
structure Calm (ws ws' : PriorityWriteScheduler) : Prop where
  ok : ws'.Ok
  held : ws'.heldControls ≤ ws.heldControls
  mem : ∀ f, ws'.Mem f → ws.Mem f

theorem Ok.calm (h : ws.Ok) (hbase : ws'.Base) (hshrinks : Shrinks ws ws')
    (hq : ∀ m, (ws'.tree.node m).q.s = (ws.tree.node m).q.s ∨ (ws'.tree.node m).q.s = []) :
    Calm ws ws' := by
  have hmem : ∀ {m f}, f ∈ (ws'.tree.node m).q.s → f ∈ (ws.tree.node m).q.s := by
    intro m f hf
    rcases hq m with hq | hq
    · rwa [hq] at hf
    · rw [hq] at hf
      cases hf
  exact ⟨⟨hbase, fun m wr hwr => h.sound m wr (hmem hwr)⟩, hshrinks.held_le,
    fun f ⟨m, hf⟩ => ⟨m, hmem hf⟩⟩

theorem Ok.refl_calm (h : ws.Ok) : Calm ws ws := ⟨h, Nat.le_refl _, fun _ hf => hf⟩

/-- A new node has no frames. -/
theorem queue_added (streamID : UInt32) (state : PriorityNodeState) (p m : Ref) :
    ((ws.added streamID state p).tree.node m).q.s = (ws.tree.node m).q.s ∨
      ((ws.added streamID state p).tree.node m).q.s = [] := by
  by_cases hm : m = ws.tree.size
  · rw [hm, node_added_size]
    exact .inr rfl
  · refine .inl ?_
    show (update ws.tree.node ws.tree.size _ m).q.s = _
    rw [update_of_ne hm]

theorem Told.ne_tookTooMuch {e : Fault} (h : Told e) : e ≠ tookTooMuch := by
  have hne {front : String} {c : Char} (hc : front.toList.head? = some c) (hi : c ≠ 'i')
      (rest : String) : Fault.panic (front ++ rest) ≠ tookTooMuch := by
    intro heq
    have hhead := congrArg (fun s => s.toList.head?) (Fault.panic.inj heq)
    rw [String.toList_append, List.head?_append, hc] at hhead
    exact hi (Option.some.inj hhead)
  cases h with
  | opened streamID =>
    rw [String.append_assoc]
    exact hne (c := 's') rfl (by decide) _
  | closeRoot => decide
  | unknown streamID => exact hne (c := 'v') rfl (by decide) _
  | closed streamID =>
    rw [String.append_assoc]
    exact hne (c := 'v') rfl (by decide) _
  | adjustRoot => decide

theorem Ok.openStream (h : ws.Ok) {streamID : UInt32} (hid : streamID ≠ 0) (pusherID : UInt32) :
    Outcome (· ≠ tookTooMuch) (Calm ws) (ws.openStream streamID pusherID) := by
  refine ((openStream_outcome h.base streamID pusherID).weaken
    fun _ he => he.1.ne_tookTooMuch).imp fun ws' hws' => ?_
  cases hws' with
  | @new _ p hn hp =>
    have hbase := h.base.added hid .priorityNodeOpen (h.base.nodes hp).1
    have hadded : Shrinks ws _ := shrinks_added streamID .priorityNodeOpen p
    exact h.calm (hbase.setOther _ _) ⟨hadded.size, hadded.holds, hadded.queue, hadded.new⟩
      fun m => queue_added streamID _ p m
  | @known n hn hidle =>
    have hsame := sameLinks_modify ws.tree n (f := fun x => { x with state := .priorityNodeOpen })
      fun _ => rfl
    have hq := field_modify ws.tree n (f := fun x => { x with state := .priorityNodeOpen })
      (fun x => x.q.s) fun _ => rfl
    have hshrinks : Shrinks ws
        { ws with tree := ws.tree.modify n fun x => { x with state := .priorityNodeOpen } } := by
      refine shrinks_of_queue rfl (fun {m} _ hholds => ?_) hq
      rwa [holds_sameLinks hsame] at hholds
    exact h.calm (h.base.sameLinks hsame) hshrinks fun m => .inl (hq m)

/-- The frames of a node that is closed are discarded, and so are those of a node that is
removed for it. -/
theorem Ok.closeStream (h : ws.Ok) (streamID : UInt32) :
    Outcome (· ≠ tookTooMuch) (Calm ws) (ws.closeStream streamID) := by
  refine ((closeStream_outcome h.base streamID).weaken
    fun _ he => he.1.ne_tookTooMuch).imp fun ws' hws' => ?_
  cases hws' with
  | @mk n t ws₁ hid hn hclosing hbase hevicted hbase₁ hbase' =>
    have hshrinks := (shrinks_closing hclosing).trans (shrinks_evicted hbase hevicted)
    refine h.calm hbase' ⟨hshrinks.size, hshrinks.holds, hshrinks.queue, hshrinks.new⟩ fun m => ?_
    rw [hevicted.node]
    exact queue_closing hclosing m

theorem Ok.adjustStream (h : ws.Ok) (streamID : UInt32) (priority : PriorityParam) :
    Outcome (· ≠ tookTooMuch) (Calm ws) (ws.adjustStream streamID priority) := by
  refine ((adjustStream_outcome h.base streamID priority).weaken
    fun _ he => he.ne_tookTooMuch).imp fun ws' hws' => ?_
  cases hws'.2 with
  | known hn hbase hadjusted =>
    exact h.calm hbase (shrinks_adjusted h.base (.inl (h.base.holds hn)) hadjusted)
      fun m => .inl (hadjusted.field (fun x => x.q.s) (fun _ _ => rfl) m)
  | ignored => exact h.refl_calm
  | @new ws₂ t hn hlt hmax hbase₁ hevicted hbase₂ hself hbase₃ hbase hadjusted =>
    have hq₂ : ∀ m, (ws₂.tree.node m).q.s =
        ((ws.added streamID .priorityNodeIdle root).tree.node m).q.s := by
      intro m
      rw [hevicted.node]
      rfl
    have hempty : (ws₂.tree.node ws.tree.size).q.s = [] := by
      rw [hq₂, node_added_size]
    have hmax : Shrinks ws { ws with maxID := streamID } :=
      shrinks_of_queue rfl (fun _ hholds => hholds) fun _ => rfl
    have hadded : Shrinks ws (ws.addedIdle streamID) :=
      hmax.trans (shrinks_added streamID .priorityNodeIdle root)
    have hkept : Shrinks ws₂ { ws₂ with idleNodes := ws.idleAfter } :=
      shrinks_of_queue rfl (fun _ hholds => hholds) fun _ => rfl
    have hshrinks := ((hadded.trans (shrinks_evicted hbase₁ hevicted)).trans hkept).trans
      (shrinks_adjusted hbase₃ (.inr hempty) hadjusted)
    refine h.calm hbase hshrinks fun m => ?_
    rw [hadjusted.field (fun x => x.q.s) (fun _ _ => rfl) m]
    rw [hq₂ m]
    exact queue_added streamID _ root m

theorem Ok.push (h : ws.Ok) {wr : FrameWriteRequest} (hwr : wr.Sound) :
    Outcome (· ≠ tookTooMuch)
      (fun ws' => ws'.Ok ∧ ws'.heldControls = ws.heldControls + controls [wr] ∧
        ∀ f, ws'.Mem f → f = wr ∨ ws.Mem f) (ws.push wr) := by
  cases hn : ws.pushTarget? wr with
  | none =>
    rw [push_panics hn]
    show Fault.panic _ ≠ tookTooMuch
    decide
  | some n =>
    have hknown : ∃ id, ws.nodes id = some n := by
      unfold pushTarget? at hn
      split at hn
      · exact ⟨0, h.base.zero.trans hn⟩
      split at hn
      · rename_i m hm
        exact ⟨_, hm.trans hn⟩
      split at hn
      · cases hn
      · exact ⟨0, h.base.zero.trans hn⟩
    obtain ⟨id, hid⟩ := hknown
    let t := ws.tree.modify n fun x => { x with q := x.q.push wr }
    have hself : (t.node n).q.s = (ws.tree.node n).q.s ++ [wr] := by
      show (update ws.tree.node n _ n).q.s = _
      rw [update_self]
      rfl
    have hother : ∀ m, m ≠ n → t.node m = ws.tree.node m := fun m hm => update_of_ne hm ..
    have hsame : SameLinks ws.tree t := sameLinks_modify _ _ fun _ => rfl
    have hheld : heldControls { ws with tree := t } + controls (ws.tree.node n).q.s =
        ws.heldControls + controls (t.node n).q.s :=
      held_of_queue (h.base.nodes hid).1 (h.base.holds hid) hsame.size (holds_sameLinks hsame)
        fun m hm => by rw [hother m hm]
    rw [hself, controls_append] at hheld
    rw [push_eq hn]
    have hmem : ∀ {m f}, f ∈ (t.node m).q.s → f = wr ∨ f ∈ (ws.tree.node m).q.s := by
      intro m f hf
      by_cases hm : m = n
      · rw [hm, hself] at hf
        rw [hm]
        exact (List.mem_append.mp hf).symm.imp List.mem_singleton.mp fun hf => hf
      · rw [hother m hm] at hf
        exact .inr hf
    refine ⟨⟨h.base.sameLinks hsame, fun m f hf => ?_⟩, ?_, fun f ⟨m, hf⟩ => ?_⟩
    · rcases hmem hf with rfl | hf
      · exact hwr
      · exact h.sound m f hf
    · show heldControls { ws with tree := t } = _
      omega
    · exact (hmem hf).imp (fun heq => heq) fun hf => ⟨m, hf⟩

/-- What the walk of `Pop` does to the windows. -/
theorem walkRule_drawn (flows : Flows) :
    WalkRule (fun s : PopState => s.ws.tree) (fun s t => { s with ws := { s.ws with tree := t } })
      popNode (· ≠ tookTooMuch)
      fun b s => DrawnOption flows s.wr s.flows ∧ (b = false → s.wr = none) where
  get := fun _ _ => rfl
  sort := fun hs _ _ _ => hs
  visit := by
    intro n s kids openParent hs hforest hlt _ _
    have hflows : s.flows = flows := by
      have hdrawn := hs.1
      rwa [hs.2 rfl] at hdrawn
    refine ((s.ws.tree.node n).q.consume_drawn _ s.flows).bind fun r hr => ?_
    obtain ⟨wr, q, fl⟩ := r
    rw [hflows] at hr
    have hsame : SameLinks s.ws.tree (s.ws.tree.modify n fun x => { x with q := q }) :=
      sameLinks_modify _ _ fun _ => rfl
    cases wr with
    | none => exact ⟨⟨hr, fun _ => rfl⟩, hsame⟩
    | some wr =>
      obtain ⟨t, hadd, hcounted⟩ := addBytes_eq (hforest.sameLinks hsame)
        (hlt.trans_eq hsame.size.symm) (Int64.ofNat wr.dataSize)
      simp only
      rw [hadd]
      exact ⟨⟨hr, fun hfalse => by cases hfalse⟩, hsame.trans hcounted.sameLinks⟩

theorem pop_drawn (go : Sorting) (h : ws.Base) (flows : Flows) :
    Outcome (· ≠ tookTooMuch) (fun s => DrawnOption flows s.wr s.flows) (ws.pop go flows) := by
  obtain ⟨kids, hforest⟩ := h.forest
  have hwalk := walk_spec go (walkRule_drawn flows) (n := root) false
    (s := ⟨ws, flows, none⟩) ⟨rfl, fun _ => rfl⟩ hforest h.pos (.root h.parent_root) (Nat.le_refl _)
  exact hwalk.bind fun r hr => hr.1.1

theorem Ok.pop (go : Sorting) (h : ws.Ok) (flows : Flows) :
    Returns (fun s => s.ws.Ok ∧ DrawnOption flows s.wr s.flows ∧
      s.ws.heldControls + controls s.wr.toList = ws.heldControls ∧
      ∀ P, SplitClosed P → (∀ f, ws.Mem f → P f) →
        (∀ wr ∈ s.wr, P wr) ∧ ∀ f, s.ws.Mem f → P f) (ws.pop go flows) := by
  obtain ⟨s, hpop, hbase, hcases⟩ := pop_eq go h.base h.sound flows
  have hdrawn := pop_drawn go h.base flows
  rw [hpop] at hdrawn ⊢
  have hlinks : s.ws.nodes = ws.nodes ∧ s.ws.tree.parent = ws.tree.parent ∧
      s.ws.tree.size = ws.tree.size ∧ ∀ m, (s.ws.tree.node m).id = (ws.tree.node m).id := by
    rcases hcases with hs | ⟨n, wr, hs⟩
    · exact ⟨by rw [hs.rest], hs.parent, hs.size, fun m => by rw [hs.node]⟩
    · exact ⟨by rw [hs.rest], hs.parent, hs.size, hs.id⟩
  obtain ⟨hnodes, hparent, hsize, hid⟩ := hlinks
  have hholds : ∀ m, s.ws.holds m = ws.holds m := by
    intro m
    unfold holds
    rw [hnodes, hparent, hid m]
  rcases hcases with hs | ⟨n, wr, hs⟩
  · refine ⟨⟨hbase, fun m wr hwr => ?_⟩, hdrawn, ?_, fun P _ hall => ⟨fun wr hwr => ?_, ?_⟩⟩
    · rw [hs.node] at hwr
      exact h.sound m wr hwr
    · rw [hs.frame, Option.toList_none, controls_nil, Nat.add_zero]
      unfold heldControls controlsAt
      rw [hsize]
      refine sum_congr rfl fun m _ => ?_
      rw [hholds m, hs.node]
    · rw [hs.frame] at hwr
      cases hwr
    · rintro f ⟨m, hf⟩
      rw [hs.node] at hf
      exact hall f ⟨m, hf⟩
  · have hother : ∀ m, m ≠ n → (s.ws.tree.node m).q = (ws.tree.node m).q := by
      intro m hm
      rw [hs.node m hm]
    have hcount := controls_takes hs.takes fun wr hwr => h.sound n wr hwr
    have hfound : ws.holds n = true ∧ n < ws.tree.size := by
      obtain ⟨kids, hforest⟩ := h.base.forest
      cases hp : ws.tree.parent n with
      | none =>
        have hroot := hs.rooted.eq_root hp
        rw [hroot]
        exact ⟨h.base.holds h.base.zero, h.base.pos⟩
      | some p =>
        refine ⟨holds_iff.mpr (.inl ?_), (hforest.alloc hp).1⟩
        rw [hp]
        exact Option.some_ne_none p
    have hheld := held_of_queue hfound.2 hfound.1 hsize hholds hother
    refine ⟨⟨hbase, fun m wr' hwr' => ?_⟩, hdrawn, ?_, fun P hP hall => ?_⟩
    · by_cases hm : m = n
      · rw [hm] at hwr'
        exact WriteQueue.takes_sound hs.takes (fun wr hwr => h.sound n wr hwr) wr' hwr'
      · rw [hother m hm] at hwr'
        exact h.sound m wr' hwr'
    · rw [hs.frame, Option.toList_some]
      omega
    · obtain ⟨hwr, hrest⟩ := hP.takes hs.takes fun f hf => hall f ⟨n, hf⟩
      refine ⟨fun f hf => ?_, fun f hf => ?_⟩
      · rw [hs.frame] at hf
        cases hf
        exact hwr
      · obtain ⟨m, hf⟩ := hf
        by_cases hm : m = n
        · rw [hm] at hf
          exact hrest f hf
        · rw [hother m hm] at hf
          exact hall f ⟨m, hf⟩

end PriorityWriteScheduler

/-- `NewPriorityWriteScheduler`. -/
def WriteScheduler.priority (go : Sorting) (cfg : PriorityWriteSchedulerConfig) :
    WriteScheduler where
  State := PriorityWriteScheduler
  new := .new cfg
  openStream := PriorityWriteScheduler.openStream
  closeStream := PriorityWriteScheduler.closeStream
  adjustStream := PriorityWriteScheduler.adjustStream
  push := PriorityWriteScheduler.push
  pop ws fl := (ws.pop go fl).map fun s => (s.wr, s.flows, s.ws)
  held := PriorityWriteScheduler.heldControls
  Mem := PriorityWriteScheduler.Mem

theorem priority_lawful (go : Sorting) (cfg : PriorityWriteSchedulerConfig) :
    (WriteScheduler.priority go cfg).Lawful PriorityWriteScheduler.Ok where
  new := PriorityWriteScheduler.ok_new cfg
  held_new := PriorityWriteScheduler.heldControls_new cfg
  mem_new := fun f ⟨n, hf⟩ => by cases hf
  openStream _ pusherID h hid := (h.openStream hid pusherID).imp fun _ hcalm =>
    ⟨hcalm.ok, hcalm.held, hcalm.mem⟩
  closeStream id h := (h.closeStream id).imp fun _ hcalm => ⟨hcalm.ok, hcalm.held, hcalm.mem⟩
  adjustStream id priority h := (h.adjustStream id priority).imp fun _ hcalm =>
    ⟨hcalm.ok, hcalm.held, hcalm.mem⟩
  push h hwr := (h.push hwr.sound).imp fun _ hpushed => ⟨hpushed.1, hpushed.2.1, hpushed.2.2⟩
  pop fl h := ((h.pop go fl).weaken fun _ hfalse => hfalse.elim).map fun _ hs =>
    ⟨hs.1, hs.2.1, hs.2.2.1, hs.2.2.2⟩

/-- The write scheduler of a connection: the random one, unless `NewWriteScheduler` of the
server makes another. -/
inductive Scheduling where
  | random (range : Nat → RandomWriteScheduler.MapOrder)
  | priority (go : Sorting) (cfg : PriorityWriteSchedulerConfig)

def Scheduling.scheduler : Scheduling → WriteScheduler
  | random range => .random range
  | priority go cfg => .priority go cfg

theorem Scheduling.lawful (k : Scheduling) : ∃ Ok, k.scheduler.Lawful Ok := by
  cases k with
  | random range => exact ⟨_, random_lawful range⟩
  | priority go cfg => exact ⟨_, priority_lawful go cfg⟩

end Fhttp.Http2
