import Fhttp.Http2.PriorityTree

/-!
# The priority write scheduler

`priorityWriteScheduler` of `http2/writesched_priority.go`: the tree of priorities,
the map from stream ids to its nodes, and the closed and idle nodes that are kept
for a while.  `Call` is a call of the interface `WriteScheduler`, and `run` a
sequence of calls.
-/

namespace Fhttp.Http2

open Lib.Panic

structure PriorityWriteSchedulerConfig where
  maxClosedNodesInTree : Int := 10
  maxIdleNodesInTree : Int := 10
  throttleOutOfOrderWrites : Bool := false

/-- The scheduler.  `root` is the node with the address 0 of the tree. -/
structure PriorityWriteScheduler where
  tree : PriorityTree
  nodes : UInt32 → Option Ref
  maxID : UInt32
  closedNodes : List Ref
  idleNodes : List Ref
  maxClosedNodesInTree : Int
  maxIdleNodesInTree : Int
  writeThrottleLimit : Int32
  enableWriteThrottle : Bool

namespace PriorityWriteScheduler

open PriorityTree (root Sorting)

/-- `NewPriorityWriteScheduler`.  The defaults are those of the configuration. -/
def new (cfg : PriorityWriteSchedulerConfig := {}) : PriorityWriteScheduler where
  tree := .init
  nodes := fun id => if id = 0 then some root else none
  maxID := 0
  closedNodes := []
  idleNodes := []
  maxClosedNodesInTree := cfg.maxClosedNodesInTree
  maxIdleNodesInTree := cfg.maxIdleNodesInTree
  writeThrottleLimit := if cfg.throttleOutOfOrderWrites then 1024 else maxInt32
  enableWriteThrottle := cfg.throttleOutOfOrderWrites

/-! ## Nodes that come and go -/

/-- A new node with the default weight, its parent, and its entry in the map. -/
def addNode (ws : PriorityWriteScheduler) (streamID : UInt32) (state : PriorityNodeState)
    (parent : Ref) : Except Fault PriorityWriteScheduler := do
  let t := ws.tree.alloc { id := streamID, weight := priorityDefaultWeight, state := state }
  let t ← t.setParent ws.tree.size (some parent)
  return { ws with
    tree := t
    nodes := fun id => if id = streamID then some ws.tree.size else ws.nodes id }

/-- The loop of `removeNode`.  It goes on with the sibling that the kid has after it
was moved. -/
def removeNodeLoop (n : Ref) : Nat → PriorityTree → Option Ref → Except Fault PriorityTree
  | _, t, none => .ok t
  | 0, _, some _ => .error .diverges
  | fuel + 1, t, some k => do
    let t ← t.setParent k (t.links.parent n)
    removeNodeLoop n fuel t (t.links.next k)

def removeNode (ws : PriorityWriteScheduler) (n : Ref) : Except Fault PriorityWriteScheduler := do
  let t ← removeNodeLoop n ws.tree.size ws.tree (ws.tree.links.kids n)
  let t ← t.setParent n none
  return { ws with
    tree := t
    nodes := fun id => if id = (t.node n).id then none else ws.nodes id }

/-- `addClosedOrIdleNode`, with the list afterwards.  A full list loses its oldest
node. -/
def addClosedOrIdleNode (ws : PriorityWriteScheduler) (list : List Ref) (maxSize : Int) (n : Ref) :
    Except Fault (PriorityWriteScheduler × List Ref) :=
  if maxSize = 0 then .ok (ws, list)
  else if (list.length : Int) = maxSize then
    match list with
    | [] => .error (.panic "index out of range")
    | oldest :: rest => do
      let ws ← ws.removeNode oldest
      return (ws, rest ++ [n])
  else .ok (ws, list ++ [n])

/-! ## The interface -/

def openStream (ws : PriorityWriteScheduler) (streamID pusherID : UInt32) :
    Except Fault PriorityWriteScheduler :=
  match ws.nodes streamID with
  | some curr =>
    if (ws.tree.node curr).state ≠ .priorityNodeIdle then
      .error (.panic s!"stream {streamID} already opened")
    else .ok
      { ws with tree := ws.tree.modify curr fun x => { x with state := .priorityNodeOpen } }
  | none => do
    let parent := (ws.nodes pusherID).getD root
    let ws ← ws.addNode streamID .priorityNodeOpen parent
    return { ws with maxID := if streamID > ws.maxID then streamID else ws.maxID }

/-- The end of `CloseStream`: the node is kept for a while, or removed. -/
def retire (ws : PriorityWriteScheduler) (n : Ref) : Except Fault PriorityWriteScheduler :=
  if ws.maxClosedNodesInTree > 0 then do
    let (ws, closedNodes) ← ws.addClosedOrIdleNode ws.closedNodes ws.maxClosedNodesInTree n
    return { ws with closedNodes := closedNodes }
  else ws.removeNode n

def closeStream (ws : PriorityWriteScheduler) (streamID : UInt32) :
    Except Fault PriorityWriteScheduler :=
  if streamID = 0 then
    .error (.panic "violation of WriteScheduler interface: cannot close stream 0")
  else
    match ws.nodes streamID with
    | none => .error (.panic s!"violation of WriteScheduler interface: unknown stream {streamID}")
    | some n =>
      if (ws.tree.node n).state ≠ .priorityNodeOpen then
        .error (.panic
          s!"violation of WriteScheduler interface: stream {streamID} already closed")
      else do
        let t := ws.tree.modify n fun x => { x with state := .priorityNodeClosed }
        let t ← t.addBytes n (-(t.node n).bytes)
        { ws with tree := t.modify n fun x => { x with q := {} } }.retire n

/-- The loop that looks for `n` among the ancestors of a node. -/
def isAncestorLoop (t : PriorityTree) (n : Ref) : Nat → Option Ref → Except Fault Bool
  | _, none => .ok false
  | 0, some _ => .error .diverges
  | fuel + 1, some x =>
    if x = n then .ok true else isAncestorLoop t n fuel (t.links.parent x)

/-- The loop that gives the kids of a node to `n`. -/
def adoptLoop (n : Ref) : Nat → PriorityTree → Option Ref → Except Fault PriorityTree
  | _, t, none => .ok t
  | 0, _, some _ => .error .diverges
  | fuel + 1, t, some k => do
    let next := t.links.next k
    let t ← if k ≠ n then t.setParent k (some n) else pure t
    adoptLoop n fuel t next

/-- If the new parent of `n` depends on `n`, it is first moved to the parent of `n`. -/
def freeParent (t : PriorityTree) (n parent : Ref) : Except Fault PriorityTree := do
  let dependent ← isAncestorLoop t n t.size (t.links.parent parent)
  if dependent then t.setParent parent (t.links.parent n) else .ok t

/-- With the exclusive flag `n` gets the other kids of its new parent. -/
def adoptKids (t : PriorityTree) (n parent : Ref) (exclusive : Bool) : Except Fault PriorityTree :=
  if exclusive then adoptLoop n t.size t (t.links.kids parent) else .ok t

/-- `AdjustStream` for a node that is in the tree. -/
def adjustNode (ws : PriorityWriteScheduler) (n : Ref) (priority : PriorityParam) :
    Except Fault PriorityWriteScheduler :=
  match ws.nodes priority.streamDep with
  | none => do
    let t ← ws.tree.setParent n (some root)
    return { ws with tree := t.modify n fun x => { x with weight := priorityDefaultWeight } }
  | some parent =>
    if n = parent then .ok ws
    else do
      let t ← freeParent ws.tree n parent
      let t ← adoptKids t n parent priority.exclusive
      let t ← t.setParent n (some parent)
      return { ws with tree := t.modify n fun x => { x with weight := priority.weight } }

def adjustStream (ws : PriorityWriteScheduler) (streamID : UInt32) (priority : PriorityParam) :
    Except Fault PriorityWriteScheduler :=
  if streamID = 0 then .error (.panic "adjustPriority on root")
  else
    match ws.nodes streamID with
    | some n => ws.adjustNode n priority
    | none =>
      if streamID ≤ ws.maxID ∨ ws.maxIdleNodesInTree = 0 then .ok ws
      else do
        let n := ws.tree.size
        let ws ← { ws with maxID := streamID }.addNode streamID .priorityNodeIdle root
        let (ws, idleNodes) ← ws.addClosedOrIdleNode ws.idleNodes ws.maxIdleNodesInTree n
        { ws with idleNodes := idleNodes }.adjustNode n priority

def push (ws : PriorityWriteScheduler) (wr : FrameWriteRequest) :
    Except Fault PriorityWriteScheduler := do
  let n ←
    if wr.streamID = 0 then pure root
    else
      match ws.nodes wr.streamID with
      | some n => pure n
      | none =>
        if wr.dataSize > 0 then .error (.panic "add DATA on non-open stream") else pure root
  return { ws with tree := ws.tree.modify n fun x => { x with q := x.q.push wr } }

/-- What the function in `Pop` captures. -/
structure PopState where
  ws : PriorityWriteScheduler
  flows : Flows
  wr : Option FrameWriteRequest

/-- The throttling limit after a frame was taken. -/
def throttled (ws : PriorityWriteScheduler) (openParent : Bool) : Int32 :=
  if openParent then
    if ws.writeThrottleLimit + 1024 < 0 then maxInt32 else ws.writeThrottleLimit + 1024
  else if ws.enableWriteThrottle then 1024
  else ws.writeThrottleLimit

/-- The function that `Pop` calls for every node with a non-empty queue. -/
def popNode (n : Ref) (openParent : Bool) (s : PopState) : Except Fault (Bool × PopState) := do
  let limit := if openParent then s.ws.writeThrottleLimit else maxInt32
  let (wr, q, flows) ← (s.ws.tree.node n).q.consume limit s.flows
  let t := s.ws.tree.modify n fun x => { x with q := q }
  let s := { s with ws := { s.ws with tree := t }, flows := flows, wr := wr }
  match wr with
  | none => return (false, s)
  | some wr =>
    let t ← t.addBytes n (Int64.ofNat wr.dataSize)
    let ws := { s.ws with tree := t, writeThrottleLimit := s.ws.throttled openParent }
    return (true, { s with ws := ws })

/-- `Pop`: the frame, if any, and the windows and the scheduler afterwards. -/
def pop (go : Sorting) (ws : PriorityWriteScheduler) (flows : Flows) : Except Fault PopState := do
  let (_, s) ← PriorityTree.walkReadyInOrder (fun s : PopState => s.ws.tree)
    (fun s t => { s with ws := { s.ws with tree := t } }) go popNode ws.tree.size root false
    ⟨ws, flows, none⟩
  return s

/-! ## Runs -/

/-- A call of the interface.  The windows at a call of `Pop` are arbitrary. -/
inductive Call where
  | openStream (streamID pusherID : UInt32)
  | closeStream (streamID : UInt32)
  | adjustStream (streamID : UInt32) (priority : PriorityParam)
  | push (wr : FrameWriteRequest)
  | pop (flows : Flows)

/-- The scheduler after a call. -/
def step (go : Sorting) (ws : PriorityWriteScheduler) : Call → Except Fault PriorityWriteScheduler
  | .openStream streamID pusherID => ws.openStream streamID pusherID
  | .closeStream streamID => ws.closeStream streamID
  | .adjustStream streamID priority => ws.adjustStream streamID priority
  | .push wr => ws.push wr
  | .pop flows => (ws.pop go flows).map PopState.ws

/-- The scheduler after a sequence of calls. -/
def run (go : Sorting) (ws : PriorityWriteScheduler) (calls : List Call) :
    Except Fault PriorityWriteScheduler :=
  calls.foldlM (step go) ws

end PriorityWriteScheduler

end Fhttp.Http2
