import Fhttp.Lib.LinkedTree
import Fhttp.Http2.WriteSched

/-!
# The priority tree

`priorityNode` of `http2/writesched_priority.go`.  A node is known by a number, its
address, and 0 is the address of the root.  The links between nodes are kept
apart from their other fields, as the pointers of a linked tree.  Addresses from
`size` on are those of nodes that have not been made yet.

A loop over nodes has a bound of `size` passes; that this is enough is proved in
`Fhttp.Http2.PriorityReach`.  The sorting of siblings is a parameter, since it is
that of the package `sort`, with a comparison of `float64` quotients.
-/

namespace Fhttp.Http2

open Lib.Panic Lib.LinkedTree

/-- The address of a node. -/
abbrev Ref := Nat

inductive PriorityNodeState where
  | priorityNodeOpen
  | priorityNodeClosed
  | priorityNodeIdle
deriving DecidableEq, Repr

def priorityDefaultWeight : UInt8 := 15

/-- The fields of `priorityNode` other than the links. -/
structure PriorityNode where
  q : WriteQueue := {}
  id : UInt32 := 0
  weight : UInt8 := 0
  state : PriorityNodeState := .priorityNodeOpen
  bytes : Int64 := 0
  subtreeBytes : Int64 := 0

structure PriorityTree where
  node : Ref → PriorityNode
  links : Pointers Ref
  size : Nat

namespace PriorityTree

/-- The address of the root. -/
def root : Ref := 0

/-- The tree that has only the root. -/
def init : PriorityTree where
  node := fun _ => {}
  links := ⟨fun _ => none, fun _ => none, fun _ => none, fun _ => none⟩
  size := 1

/-- Change the fields of a node. -/
def modify (t : PriorityTree) (n : Ref) (f : PriorityNode → PriorityNode) : PriorityTree :=
  { t with node := Function.update t.node n (f (t.node n)) }

/-- A new node, without links. -/
def alloc (t : PriorityTree) (x : PriorityNode) : PriorityTree :=
  { t with node := Function.update t.node t.size x, size := t.size + 1 }

def setParent (t : PriorityTree) (n : Ref) (parent : Option Ref) : Except Fault PriorityTree :=
  if parent = some n then .error (.panic "setParent to self")
  else .ok { t with links := t.links.move n parent }

/-- The loop of `addBytes`, from a node up to the root. -/
def addBytesLoop (b : Int64) : Nat → PriorityTree → Option Ref → Except Fault PriorityTree
  | _, t, none => .ok t
  | 0, _, some _ => .error .diverges
  | fuel + 1, t, some n =>
    addBytesLoop b fuel (t.modify n fun x => { x with subtreeBytes := x.subtreeBytes + b })
      (t.links.parent n)

def addBytes (t : PriorityTree) (n : Ref) (b : Int64) : Except Fault PriorityTree :=
  addBytesLoop b t.size (t.modify n fun x => { x with bytes := x.bytes + b }) (some n)

/-! ## The order of siblings -/

/-- What the sorting of siblings takes from Go's library. -/
structure Sorting where
  /-- `sort.Sort` for a comparison. -/
  sort : (Ref → Ref → Bool) → List Ref → List Ref
  /-- It only calls `Swap`, whatever the comparison is. -/
  perm : ∀ less l, (sort less l).Perm l
  /-- `float64(bi)/float64(bk) <= float64(wi)/float64(wk)`. -/
  quotientLE : Int64 → Int64 → UInt8 → UInt8 → Bool

/-- `Less` of `sortPriorityNodeSiblings`.  The sum `weight+1` is a `uint8`. -/
def less (go : Sorting) (t : PriorityTree) (i k : Ref) : Bool :=
  let wi := (t.node i).weight + 1
  let bi := (t.node i).subtreeBytes
  let wk := (t.node k).weight + 1
  let bk := (t.node k).subtreeBytes
  if bi = 0 ∧ bk = 0 then wi ≥ wk
  else if bk = 0 then false
  else go.quotientLE bi bk wi wk

/-- The loop that looks for a sibling with another weight, from `k` on. -/
def needSortLoop (t : PriorityTree) (w : UInt8) : Nat → Option Ref → Except Fault Bool
  | _, none => .ok false
  | 0, some _ => .error .diverges
  | fuel + 1, some k =>
    if (t.node k).weight ≠ w then .ok true else needSortLoop t w fuel (t.links.next k)

/-- Take all kids of a node away from it. -/
def takeKidsLoop (n : Ref) : Nat → PriorityTree → List Ref → Except Fault (PriorityTree × List Ref)
  | fuel, t, tmp =>
    match t.links.kids n with
    | none => .ok (t, tmp)
    | some k =>
      match fuel with
      | 0 => .error .diverges
      | fuel + 1 => do
        let t ← t.setParent k none
        takeKidsLoop n fuel t (tmp ++ [k])

/-- Give the nodes of a list back to a node, the last one first. -/
def putKids (n : Ref) : List Ref → PriorityTree → Except Fault PriorityTree
  | [], t => .ok t
  | k :: tmp, t => do
    let t ← putKids n tmp t
    t.setParent k (some n)

/-- Sort the kids of a node. -/
def sortKids (go : Sorting) (t : PriorityTree) (n : Ref) : Except Fault PriorityTree := do
  let (t, tmp) ← takeKidsLoop n t.size t []
  putKids n (go.sort (less go t) tmp) t

/-- Sort the kids of a node, of which `k` is the first, unless they have the same
weight. -/
def sortIfNeeded (go : Sorting) (t : PriorityTree) (n k : Ref) : Except Fault PriorityTree := do
  let needSort ← needSortLoop t (t.node k).weight t.size (t.links.next k)
  if needSort then sortKids go t n else .ok t

/-! ## The walk -/

section Walk

variable {S : Type} (tree : S → PriorityTree) (setTree : S → PriorityTree → S)

/-- Visit a node and its next siblings until a visit says that the walk ends.  The
tree is part of a state, which a visit changes. -/
def visitLoop (visit : Ref → S → Except Fault (Bool × S)) :
    Nat → Option Ref → S → Except Fault (Bool × S)
  | _, none, s => .ok (false, s)
  | 0, some _, _ => .error .diverges
  | fuel + 1, some k, s => do
    let (halt, s) ← visit k s
    if halt then return (true, s)
    visitLoop visit fuel ((tree s).links.next k) s

/-- Call a function for a node whose queue is not empty. -/
def callReady (f : Ref → Bool → S → Except Fault (Bool × S)) (n : Ref) (openParent : Bool)
    (s : S) : Except Fault (Bool × S) :=
  if ((tree s).node n).q.empty then .ok (false, s) else f n openParent s

/-- `walkReadyInOrder`, to the given depth.  The function `f` is called for nodes with
a non-empty queue, with a flag that is set if an ancestor is open. -/
def walkReadyInOrder (go : Sorting) (f : Ref → Bool → S → Except Fault (Bool × S)) :
    Nat → Ref → Bool → S → Except Fault (Bool × S)
  | 0, _, _, _ => .error .diverges
  | fuel + 1, n, openParent, s => do
    let (halt, s) ← callReady tree f n openParent s
    if halt then return (true, s)
    match (tree s).links.kids n with
    | none => return (false, s)
    | some k =>
      let openParent :=
        if ((tree s).node n).id ≠ 0 then
          openParent || ((tree s).node n).state == .priorityNodeOpen
        else openParent
      let t ← (tree s).sortIfNeeded go n k
      visitLoop tree (walkReadyInOrder go f fuel · openParent ·) t.size (t.links.kids n)
        (setTree s t)

end Walk

end PriorityTree

end Fhttp.Http2
