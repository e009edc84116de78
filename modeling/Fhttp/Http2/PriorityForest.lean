import Fhttp.Http2.PriorityScheduler

/-!
# The priority tree as a forest

The links of the priority tree always form a forest (`Forested`): they are
consistent, and every chain of parents ends.  This needs nothing about the calls
that were made, and holds also of nodes that have been cut off from the root.

There is one lemma for each operation of `http2/writesched_priority.go` that changes
links.  It says that the operation returns, and which parents the nodes have
afterwards.  What follows for the sums of bytes, for the order of siblings and for
the nodes below the root is derived from that.
-/

namespace Fhttp.Http2

open Lib.LinkedTree Lib.Forest
open Function (update update_apply update_of_ne update_self)
open List
open Option

namespace PriorityTree

/-! ## The invariant -/

/-- The parents of a tree. -/
abbrev parent (t : PriorityTree) : Ref → Option Ref := t.links.parent

/-- A well-formed forest, and the kids of its nodes. -/
structure Forested (t : PriorityTree) (kids : Ref → List Ref) : Prop where
  shape : Shape t.links kids
  ended : ∀ r, Ended t.parent r
  alloc : ∀ {r p : Ref}, t.parent r = some p → r < t.size ∧ p < t.size

/-- A change of other fields than the links and the ids. -/
structure SameLinks (t t' : PriorityTree) : Prop where
  links : t'.links = t.links
  size : t'.size = t.size
  id : ∀ r, (t'.node r).id = (t.node r).id

namespace SameLinks

theorem refl (t : PriorityTree) : SameLinks t t := ⟨rfl, rfl, fun _ => rfl⟩

theorem trans {t t' t'' : PriorityTree} (h : SameLinks t t') (h' : SameLinks t' t'') :
    SameLinks t t'' :=
  ⟨h'.links.trans h.links, h'.size.trans h.size, fun r => (h'.id r).trans (h.id r)⟩

end SameLinks

@[simp] theorem node_modify (t : PriorityTree) (n : Ref) (f : PriorityNode → PriorityNode) :
    (t.modify n f).node = update t.node n (f (t.node n)) := rfl

variable {f : PriorityNode → PriorityNode} {parent : Option Ref} {a : Ref}

/-- A field that a change leaves alone. -/
theorem field_modify {α : Type} (t : PriorityTree) (n : Ref) (field : PriorityNode → α)
    (hf : ∀ x, field (f x) = field x) (r : Ref) :
    field ((t.modify n f).node r) = field (t.node r) := by
  rw [node_modify]
  by_cases hr : r = n
  · rw [hr, update_self, hf]
  · rw [update_of_ne hr]

theorem sameLinks_modify (t : PriorityTree) (n : Ref) (hf : ∀ x, (f x).id = x.id) :
    SameLinks t (t.modify n f) :=
  ⟨rfl, rfl, field_modify t n PriorityNode.id hf⟩

variable {t t' : PriorityTree} {kids kids' : Ref → List Ref} {n p r : Ref}

section

variable (h : Forested t kids)

include h

theorem Forested.sameLinks (hsame : SameLinks t t') : Forested t' kids where
  shape := by
    rw [hsame.links]
    exact h.shape
  ended := by
    rw [parent, hsame.links]
    exact h.ended
  alloc := by
    rw [parent, hsame.links, hsame.size]
    exact h.alloc

variable {k a : Ref}

/-- The first kid of a node has the node as its parent. -/
theorem Forested.parent_of_first (hk : t.links.kids n = some k) : t.parent k = some n := by
  rw [h.shape.head n] at hk
  exact (h.shape.mem n k).mp (mem_of_mem_head? hk)

/-- What is above a node that has been made has been made. -/
theorem Forested.lt_of_above {x : Ref} (ha : Above t.parent a x) (hx : x < t.size) :
    a < t.size := by
  induction ha with
  | refl => exact hx
  | step hp _ ih => exact ih (h.alloc hp).2

theorem Forested.depth_lt {d : Nat} (hr : r < t.size) (hd : Depth t.parent a r d) : d < t.size :=
  hd.lt_size fun _ hx => h.lt_of_above hx hr

/-- A node has at most as many kids as there are nodes. -/
theorem Forested.length_kids_le (n : Ref) : (kids n).length ≤ t.size := by
  refine length_le_of_lt (h.shape.nodup n) fun k hk => ?_
  exact (h.alloc ((h.shape.mem n k).mp hk)).1

/-- A kid is not above its parent. -/
theorem Forested.not_above_of_mem (hk : k ∈ kids n) : ¬ Above t.parent k n :=
  (h.ended k).not_above_parent ((h.shape.mem n k).mp hk)

end

theorem forested_init : Forested init fun _ => [] where
  shape := by
    refine ⟨fun _ => rfl, fun _ => trivial, fun p c => ⟨fun hmem => ?_, fun hp => ?_⟩,
      fun _ => nodup_nil, fun _ _ => ⟨rfl, rfl⟩⟩
    · cases hmem
    · cases hp
  ended := fun _ => ended_of_none rfl
  alloc := nofun

/-- Changes of links after which the chains of the nodes with a new parent end. -/
theorem Forested.of_changed (h : Forested t kids) (hshape : Shape t'.links kids')
    (hsize : t'.size = t.size) (hended : ∀ r, t'.parent r ≠ t.parent r → Ended t'.parent r)
    (halloc : ∀ r q, t'.parent r ≠ t.parent r → t'.parent r = some q → r < t.size ∧ q < t.size) :
    Forested t' kids' where
  shape := hshape
  ended := fun r => (h.ended r).of_changed hended
  alloc := by
    intro r q hq
    rw [hsize]
    by_cases hsame : t'.parent r = t.parent r
    · exact h.alloc (hsame.symm.trans hq)
    · exact halloc r q hsame hq

/-! ## Moving a node -/

/-- The tree after a node was moved. -/
abbrev moved (t : PriorityTree) (n : Ref) (parent : Option Ref) : PriorityTree :=
  { t with links := t.links.move n parent }

theorem setParent_eq (t : PriorityTree) (h : parent ≠ some n) :
    t.setParent n parent = .ok (t.moved n parent) := if_neg h

theorem parent_moved (t : PriorityTree) (n : Ref) (parent : Option Ref) :
    (t.moved n parent).parent = update t.parent n parent := move_parent ..

theorem moved_self (t : PriorityTree) (n : Ref) : t.moved n (t.parent n) = t := by
  show { t with links := t.links.move n (t.links.parent n) } = t
  rw [move_self]

theorem exists_shape_moved (h : Shape t.links kids) (n : Ref) (parent : Option Ref) :
    ∃ kids', Shape (t.moved n parent).links kids' := by
  by_cases hsame : t.parent n = parent
  · rw [← hsame, moved_self]
    exact ⟨kids, h⟩
  · exact ⟨_, h.move hsame⟩

theorem parent_moved_of_ne (t : PriorityTree) (parent : Option Ref) (h : a ≠ n) :
    (t.moved n parent).parent a = t.parent a := by
  rw [parent_moved, update_of_ne h]

theorem eq_of_parent_moved_ne (h : (t.moved n parent).parent a ≠ t.parent a) : a = n := by
  by_contra hne
  exact h (parent_moved_of_ne t parent hne)

section

variable (h : Forested t kids)

include h

/-- A node is moved below a node that is not below it. -/
theorem Forested.move (hn : n < t.size) (hp : p < t.size) (hnot : ¬ Above t.parent n p)
    (hshape : Shape (t.moved n (some p)).links kids') : Forested (t.moved n (some p)) kids' := by
  have hself : (t.moved n (some p)).parent n = some p := by rw [parent_moved, update_self]
  have hp' : Ended (t.moved n (some p)).parent p := by
    refine (h.ended p).of_unchanged fun a ha => parent_moved_of_ne t (some p) fun heq => ?_
    exact hnot (heq ▸ ha)
  refine h.of_changed hshape rfl (fun r hr => ?_) fun r q hr hq => ?_
  · rw [eq_of_parent_moved_ne hr]
    exact hp'.step hself
  · rw [eq_of_parent_moved_ne hr] at hq ⊢
    rw [hself] at hq
    cases hq
    exact ⟨hn, hp⟩

/-- A node is taken away from its parent. -/
theorem Forested.detach (hshape : Shape (t.moved n none).links kids') :
    Forested (t.moved n none) kids' := by
  have hself : (t.moved n none).parent n = none := by rw [parent_moved, update_self]
  refine h.of_changed hshape rfl (fun r hr => ?_) fun r q hr hq => ?_
  · rw [eq_of_parent_moved_ne hr]
    exact ended_of_none hself
  · rw [eq_of_parent_moved_ne hr, hself] at hq
    cases hq

/-! ## A new node -/

variable (x : PriorityNode)

theorem Forested.alloc' : Forested (t.alloc x) kids where
  shape := h.shape
  ended := h.ended
  alloc := fun hp => ⟨Nat.lt_succ_of_lt (h.alloc hp).1, Nat.lt_succ_of_lt (h.alloc hp).2⟩

/-- A node that has not been made has no parent. -/
theorem Forested.parent_size : t.parent t.size = none := by
  cases hp : t.parent t.size with
  | none => rfl
  | some p => exact (Nat.lt_irrefl _ (h.alloc hp).1).elim

/-- A node that has not been made is only above itself. -/
theorem Forested.not_above_size (hp : p < t.size) : ¬ Above t.parent t.size p := by
  intro habove
  obtain ⟨c, hc, _⟩ := habove.exists_child_above (Nat.ne_of_gt hp)
  exact Nat.lt_irrefl _ (h.alloc hc).2

/-- A new node below another one. -/
theorem Forested.grow (hp : p < t.size) :
    Forested ((t.alloc x).moved t.size (some p)) (Lib.LinkedTree.moved kids t.size (some p)) := by
  have hnew : t.parent t.size ≠ some p := by
    rw [h.parent_size]
    exact (some_ne_none p).symm
  exact (h.alloc' x).move (Nat.lt_succ_self _) (Nat.lt_succ_of_lt hp) (h.not_above_size hp)
    ((h.alloc' x).shape.move hnew)

theorem Forested.add (hp : p < t.size) :
    ∃ kids', Forested ((t.alloc x).moved t.size (some p)) kids' ∧
      ∀ q, q ≠ p → kids' q = kids q := by
  refine ⟨_, h.grow x hp, fun q hq => ?_⟩
  unfold Lib.LinkedTree.moved
  rw [if_neg fun heq => hq (some.inj heq), erase_of_not_mem]
  intro hmem
  have hparent := (h.shape.mem q _).mp hmem
  rw [show t.links.parent t.size = none from h.parent_size] at hparent
  cases hparent

end

/-! ## `addBytes` -/

/-- The effect of `addBytes`. -/
structure Counted (t t' : PriorityTree) (n : Ref) (b : Int64) : Prop where
  links : t'.links = t.links
  size : t'.size = t.size
  node : ∀ y, t'.node y =
    { t.node y with
      bytes := if y = n then (t.node y).bytes + b else (t.node y).bytes
      subtreeBytes := (t'.node y).subtreeBytes }
  above : ∀ y, Above t.parent y n → (t'.node y).subtreeBytes = (t.node y).subtreeBytes + b
  other : ∀ y, ¬ Above t.parent y n → (t'.node y).subtreeBytes = (t.node y).subtreeBytes

theorem Counted.sameLinks {b : Int64} (h : Counted t t' n b) : SameLinks t t' :=
  ⟨h.links, h.size, fun r => by rw [h.node r]⟩

/-- The loop adds to the sums of the nodes above `n`. -/
theorem addBytesLoop_spec (b : Int64) {a : Ref} {d fuel : Nat} (hd : Depth t.parent a n d)
    (hfuel : d < fuel) :
    ∃ t', addBytesLoop b fuel t (some n) = .ok t' ∧ t'.links = t.links ∧ t'.size = t.size ∧
      (∀ y, t'.node y = { t.node y with subtreeBytes := (t'.node y).subtreeBytes }) ∧
      (∀ y, Above t.parent y n → (t'.node y).subtreeBytes = (t.node y).subtreeBytes + b) ∧
      ∀ y, ¬ Above t.parent y n → (t'.node y).subtreeBytes = (t.node y).subtreeBytes := by
  induction fuel generalizing t n d with
  | zero => exact (Nat.not_lt_zero d hfuel).elim
  | succ fuel ih =>
    let t₁ := t.modify n fun x => { x with subtreeBytes := x.subtreeBytes + b }
    have hself : (t₁.node n).subtreeBytes = (t.node n).subtreeBytes + b := by
      show (update t.node n _ n).subtreeBytes = _
      rw [update_self]
    have hne : ∀ y, y ≠ n → t₁.node y = t.node y := fun y hy => update_of_ne hy ..
    have hnode : ∀ y, t₁.node y = { t.node y with subtreeBytes := (t₁.node y).subtreeBytes } := by
      intro y
      by_cases hy : y = n
      · subst hy
        show update t.node y _ y = _
        rw [update_self, hself]
      · rw [hne y hy]
    rw [addBytesLoop]
    cases hd with
    | root hroot =>
      rw [show t.links.parent a = none from hroot]
      refine ⟨t₁, by cases fuel <;> rfl, rfl, rfl, hnode, fun y hy => ?_, fun y hy => ?_⟩
      · rw [hy.eq_of_root hroot, hself]
      · rw [hne y fun heq => hy (heq ▸ .refl)]
    | @step _ p d hp hd =>
      have hnot : ¬ Above t.parent n p := Rooted.not_above_parent ⟨d + 1, .step hp hd⟩ hp
      rw [show t.links.parent n = some p from hp]
      obtain ⟨t', hloop, hlinks, hsize, hnode', habove, hother⟩ :=
        ih (t := t₁) (n := p) hd (by omega)
      refine ⟨t', hloop, hlinks, hsize, fun y => ?_, fun y hy => ?_, fun y hy => ?_⟩
      · rw [hnode' y, hnode y]
      · by_cases hyn : y = n
        · rw [hyn, hother n hnot, hself]
        · rw [habove y (hy.above_parent hyn hp), hne y hyn]
      · have hyn : y ≠ n := fun heq => hy (heq ▸ .refl)
        rw [hother y fun hyp => hy (.step hp hyp), hne y hyn]

/-- `addBytes` returns. -/
theorem addBytes_eq (h : Forested t kids) (hn : n < t.size) (b : Int64) :
    ∃ t', t.addBytes n b = .ok t' ∧ Counted t t' n b := by
  obtain ⟨a, d, hd⟩ := h.ended n
  let t₁ := t.modify n fun x => { x with bytes := x.bytes + b }
  have hbytes : ∀ y, t₁.node y = { t.node y with
      bytes := if y = n then (t.node y).bytes + b else (t.node y).bytes } := by
    intro y
    show update t.node n _ y = _
    by_cases hy : y = n
    · rw [hy, update_self, if_pos rfl]
    · rw [update_of_ne hy, if_neg hy]
  obtain ⟨t', hloop, hlinks, hsize, hnode, habove, hother⟩ :=
    addBytesLoop_spec b (t := t₁) hd (h.depth_lt hn hd)
  refine ⟨t', hloop, hlinks, hsize, fun y => ?_, fun y hy => ?_, fun y hy => ?_⟩
  · exact (hnode y).trans (by rw [hbytes y])
  · rw [habove y hy, hbytes y]
  · rw [hother y hy, hbytes y]

end PriorityTree

open PriorityTree

namespace PriorityWriteScheduler

variable {t : PriorityTree} {kids : Ref → List Ref} {n p r : Ref}

/-! ## `removeNode` -/

variable {l : List Ref} {fuel : Nat}

/-- The loop of `removeNode` does nothing to nodes that have the parent of `n`. -/
theorem removeNodeLoop_same {q : Option Ref} (hlinked : Linked t.links.prev t.links.next q l none)
    (hp : t.parent n = some p) (hl : ∀ c ∈ l, t.parent c = some p ∧ c ≠ p) (hfuel : l.length ≤ fuel)
    : removeNodeLoop n fuel t l.head? = .ok t := by
  induction l generalizing q fuel with
  | nil => cases fuel <;> rfl
  | cons c l ih =>
    obtain ⟨hcp, hne⟩ := hl c mem_cons_self
    obtain ⟨_, hnext, hrest⟩ := hlinked
    rw [or_none] at hnext
    cases fuel with
    | zero => cases hfuel
    | succ fuel =>
      have hset : t.setParent c (t.links.parent n) = .ok t := by
        rw [show t.links.parent n = some p from hp,
          setParent_eq t fun heq => hne (some.inj heq).symm, ← hcp, moved_self]
      show removeNodeLoop n (fuel + 1) t (some c) = .ok t
      rw [removeNodeLoop, hset]
      show removeNodeLoop n fuel t (t.links.next c) = .ok t
      rw [hnext]
      exact ih hrest (fun c' hc' => hl c' (mem_cons_of_mem c hc'))
        (Nat.le_of_succ_le_succ hfuel)

/-- The loop of `removeNode` gives the first kid of the node to the parent of the
node, and no other kid. -/
theorem removeNodeLoop_eq (h : Forested t kids) (n : Ref) :
    ∃ t₁ kids₁, removeNodeLoop n t.size t (t.links.kids n) = .ok t₁ ∧ Forested t₁ kids₁ ∧
      kids₁ n = (kids n).tail ∧ t₁.size = t.size ∧ t₁.node = t.node ∧
      ∀ y, t₁.parent y = if t.links.kids n = some y then t.parent n else t.parent y := by
  rw [h.shape.head n]
  cases hkids : kids n with
  | nil =>
    refine ⟨t, kids, by cases t.size <;> rfl, h, hkids, rfl, rfl, fun y => ?_⟩
    rw [head?_nil, if_neg (some_ne_none y).symm]
  | cons k l =>
    have hmem : k ∈ kids n := by
      rw [hkids]
      exact mem_cons_self
    have hk : t.parent k = some n := (h.shape.mem n k).mp hmem
    obtain ⟨hlt, hnlt⟩ := h.alloc hk
    have hkn : k ≠ n := fun heq => h.not_above_of_mem hmem (heq ▸ .refl)
    have hnp : t.parent n ≠ some n := fun heq => (h.ended n).not_above_parent heq .refl
    have hkp : t.parent n ≠ some k := fun heq =>
      h.not_above_of_mem hmem (.of_parent heq)
    have hnew : t.parent k ≠ t.parent n := by
      rw [hk]
      exact fun heq => hnp heq.symm
    have hkidsn : Lib.LinkedTree.moved kids k (t.parent n) n = l := by
      unfold Lib.LinkedTree.moved
      rw [if_neg fun heq => hnp heq.symm, hkids, erase_cons_head]
    have hshape := h.shape.move hnew
    have hparent : ∀ y, (t.moved k (t.parent n)).parent y =
        if some k = some y then t.parent n else t.parent y := by
      intro y
      rw [parent_moved, update_apply]
      simp only [some.injEq, eq_comm]
    have hstep : ∀ fuel, removeNodeLoop n (fuel + 1) t (some k) = removeNodeLoop n fuel
        (t.moved k (t.parent n)) ((t.moved k (t.parent n)).links.next k) := by
      intro fuel
      rw [removeNodeLoop, setParent_eq t hkp]
      rfl
    have hforest :
        Forested (t.moved k (t.parent n)) (Lib.LinkedTree.moved kids k (t.parent n)) := by
      cases hp : t.parent n with
      | none =>
        rw [hp] at hshape
        exact h.detach hshape
      | some p =>
        rw [hp] at hshape
        refine h.move hlt (h.alloc hp).2 (fun habove => ?_) hshape
        exact h.not_above_of_mem hmem (habove.trans (.of_parent hp))
    refine ⟨_, _, ?_, hforest, hkidsn, rfl, rfl, hparent⟩
    have hsize : t.size = (t.size - 1) + 1 := (Nat.sub_add_cancel (Nat.one_le_of_lt hlt)).symm
    rw [hsize, head?_cons, hstep]
    cases hp : t.parent n with
    | none =>
      have hnone : (t.moved k none).parent k = none := by rw [parent_moved, update_self]
      rw [hp] at hshape
      rw [(hshape.detached k hnone).2]
      cases t.size - 1 <;> rfl
    | some p =>
      rw [hp] at hshape hforest hnew
      have hkidsp : Lib.LinkedTree.moved kids k (some p) p = k :: kids p := by
        unfold Lib.LinkedTree.moved
        rw [if_pos rfl, erase_of_not_mem]
        exact fun hmem' => hnew ((h.shape.mem p k).mp hmem')
      have hlinked := hshape.linked p
      have hlength := hforest.length_kids_le p
      rw [hkidsp] at hlinked hlength
      obtain ⟨_, hnext, hrest⟩ := hlinked
      rw [or_none] at hnext
      rw [hnext]
      refine removeNodeLoop_same hrest (p := p) ?_ (fun c hc => ⟨?_, fun heq => ?_⟩) ?_
      · rw [parent_moved_of_ne t (some p) hkn.symm, hp]
      · refine (hforest.shape.mem p c).mp ?_
        rw [hkidsp]
        exact mem_cons_of_mem k hc
      · exact h.not_above_of_mem hc (heq ▸ .refl)
      · exact Nat.le_sub_one_of_lt hlength

/-! ## `AdjustStream` -/

theorem isAncestorLoop_spec (n : Ref) {a x : Ref} {d : Nat} (hd : Depth t.parent a x d)
    (hfuel : d < fuel) :
    ∃ b, isAncestorLoop t n fuel (some x) = .ok b ∧ (b = true ↔ Above t.parent n x) := by
  induction fuel generalizing x d with
  | zero => exact (Nat.not_lt_zero d hfuel).elim
  | succ fuel ih =>
    rw [isAncestorLoop]
    by_cases hx : x = n
    · rw [if_pos hx, hx]
      exact ⟨true, rfl, fun _ => .refl, fun _ => rfl⟩
    rw [if_neg hx]
    cases hd with
    | root hroot =>
      rw [show t.links.parent a = none from hroot]
      refine ⟨false, by cases fuel <;> rfl, fun hfalse => Bool.noConfusion hfalse, fun habove => ?_⟩
      exact (hx (habove.eq_of_root hroot).symm).elim
    | @step _ p d hp hd =>
      rw [show t.links.parent x = some p from hp]
      obtain ⟨b, hloop, hb⟩ := ih hd (by omega)
      exact ⟨b, hloop, hb.trans
        ⟨fun habove => .step hp habove, fun habove => habove.above_parent (Ne.symm hx) hp⟩⟩

/-- The loop finds out whether a node is above another one. -/
theorem isAncestor_spec (h : Forested t kids) (hne : n ≠ p) :
    ∃ b, isAncestorLoop t n t.size (t.links.parent p) = .ok b ∧
      (b = true ↔ Above t.parent n p) := by
  cases hq : t.links.parent p with
  | none =>
    refine ⟨false, by cases t.size <;> rfl, fun hfalse => Bool.noConfusion hfalse, fun habove => ?_⟩
    exact (hne (habove.eq_of_root hq)).elim
  | some q =>
    obtain ⟨a, d, hd⟩ := h.ended q
    obtain ⟨b, hloop, hb⟩ := isAncestorLoop_spec n hd (h.depth_lt (h.alloc hq).2 hd)
    exact ⟨b, hloop, hb.trans
      ⟨fun habove => .step hq habove, fun habove => habove.above_parent hne hq⟩⟩

/-- The loop gives the kids in `l` to `n`.  It makes no difference that the links
may form a cycle while it runs. -/
theorem adoptLoop_spec {pre : List Ref} (h : Shape t.links kids) (hpn : p ≠ n)
    (hkids : kids p = pre ++ l) (hfuel : l.length ≤ fuel) :
    ∃ t' kids', adoptLoop n fuel t l.head? = .ok t' ∧ Shape t'.links kids' ∧
      t'.size = t.size ∧ t'.node = t.node ∧
      ∀ y, t'.parent y = if y ∈ l ∧ y ≠ n then some n else t.parent y := by
  induction l generalizing t kids pre fuel with
  | nil =>
    refine ⟨t, kids, by cases fuel <;> rfl, h, rfl, rfl, fun y => ?_⟩
    rw [if_neg fun hy => not_mem_nil hy.1]
  | cons k l ih =>
    have hk : t.parent k = some p := by
      refine (h.mem p k).mp ?_
      rw [hkids]
      exact mem_append_right pre mem_cons_self
    have hlinked := h.linked p
    have hnodup := h.nodup p
    rw [hkids] at hlinked hnodup
    have hnext : t.links.next k = l.head? := by
      have hnext' := (linked_append.mp hlinked).2.2.1
      rwa [or_none] at hnext'
    cases fuel with
    | zero => cases hfuel
    | succ fuel =>
      have hfuel' : l.length ≤ fuel := Nat.le_of_succ_le_succ hfuel
      rw [head?_cons, adoptLoop, hnext]
      by_cases hkn : k = n
      · have hpre : kids p = pre ++ [k] ++ l := by
          rw [hkids, append_assoc]
          rfl
        obtain ⟨t', kids', hloop, hshape, hsize, hnode, hparent⟩ := ih h hpre hfuel'
        refine ⟨t', kids', ?_, hshape, hsize, hnode, fun y => ?_⟩
        · rw [if_neg (not_not_intro hkn)]
          exact hloop
        · have hiff : (y ∈ k :: l ∧ y ≠ n) ↔ (y ∈ l ∧ y ≠ n) := by
            rw [mem_cons, hkn]
            exact ⟨fun hy => ⟨hy.1.resolve_left hy.2, hy.2⟩, fun hy => ⟨.inr hy.1, hy.2⟩⟩
          rw [hparent y]
          simp only [hiff]
      · have hnew : t.parent k ≠ some n := by
          rw [hk]
          exact fun heq => hpn (some.inj heq)
        have hkl : k ∉ pre := fun hmem =>
          (nodup_cons.mp (nodup_middle.mp hnodup)).1 (mem_append_left l hmem)
        have hkids' : Lib.LinkedTree.moved kids k (some n) p = pre ++ l := by
          unfold Lib.LinkedTree.moved
          rw [if_neg fun heq => hpn (some.inj heq), hkids, erase_append_right _ hkl,
            erase_cons_head]
        obtain ⟨t', kids', hloop, hshape, hsize, hnode, hparent⟩ :=
          ih (t := t.moved k (some n)) (h.move hnew) hkids' hfuel'
        refine ⟨t', kids', ?_, hshape, hsize, hnode, fun y => ?_⟩
        · rw [if_pos hkn, setParent_eq t fun heq => hkn (some.inj heq).symm]
          exact hloop
        · rw [hparent y, parent_moved, update_apply]
          by_cases hyk : y = k
          · rw [hyk, if_pos rfl, ite_self, if_pos ⟨mem_cons_self, hkn⟩]
          · rw [if_neg hyk]
            have hiff : (y ∈ k :: l ∧ y ≠ n) ↔ (y ∈ l ∧ y ≠ n) := by
              rw [mem_cons, or_iff_right hyk]
            simp only [hiff]

/-- The new parent of a node no longer depends on the node. -/
theorem freeParent_eq (h : Forested t kids) (hp : p < t.size) (hnp : n ≠ p) :
    ∃ t₁ kids₁, freeParent t n p = .ok t₁ ∧ Forested t₁ kids₁ ∧ t₁.size = t.size ∧
      t₁.node = t.node ∧ ¬ Above t₁.parent n p ∧
      (¬ Above t.parent n p → t₁.parent = t.parent) ∧
      (Above t.parent n p → t₁.parent = update t.parent p (t.parent n)) := by
  obtain ⟨b, hloop, hb⟩ := isAncestor_spec h hnp
  unfold freeParent
  rw [hloop]
  cases b with
  | false =>
    have hnot : ¬ Above t.parent n p := fun habove => Bool.noConfusion (hb.mpr habove)
    exact ⟨t, kids, rfl, h, rfl, rfl, hnot, fun _ => rfl, fun habove => (hnot habove).elim⟩
  | true =>
    have habove := hb.mp rfl
    have hnotp : ∀ q, t.parent n = some q → ¬ Above t.parent p q := by
      intro q hq hpq
      exact (h.ended n).not_above_parent hq (habove.trans hpq)
    have hself : (t.moved p (t.parent n)).parent p = t.parent n := by
      rw [parent_moved, update_self]
    obtain ⟨kids₁, hshape⟩ := exists_shape_moved h.shape p (t.parent n)
    have hforest : Forested (t.moved p (t.parent n)) kids₁ := by
      cases hq : t.parent n with
      | none =>
        rw [hq] at hshape
        exact h.detach hshape
      | some q =>
        rw [hq] at hshape
        exact h.move hp (h.alloc hq).2 (hnotp q hq) hshape
    refine ⟨t.moved p (t.parent n), kids₁, ?_, hforest, rfl, rfl, fun habove₁ => ?_,
      fun hnot => (hnot habove).elim, fun _ => parent_moved ..⟩
    · exact setParent_eq t fun heq => hnotp p heq .refl
    · cases hq : t.parent n with
      | none =>
        rw [hq] at hself habove₁
        exact hnp (habove₁.eq_of_root hself)
      | some q =>
        rw [hq] at hself habove₁
        refine (h.ended n).not_above_parent hq
          ((habove₁.above_parent hnp hself).of_unchanged fun a ha => ?_)
        refine parent_moved_of_ne t (some q) fun heq => ?_
        rw [heq] at ha
        exact hnotp q hq ha

/-- The node is put below its new parent, which does not depend on it, and gets the
other kids of its parent if it is to be the only one. -/
theorem place_eq (h : Forested t kids) (hn : n < t.size) (hp : p < t.size)
    (hnot : ¬ Above t.parent n p) (exclusive : Bool) :
    ∃ t₁ kids₂, adoptKids t n p exclusive = .ok t₁ ∧ Forested (t₁.moved n (some p)) kids₂ ∧
      t₁.size = t.size ∧ t₁.node = t.node ∧
      ∀ y, (t₁.moved n (some p)).parent y =
        if y = n then some p
        else if exclusive = true ∧ t.parent y = some p then some n
        else t.parent y := by
  have hpn : p ≠ n := fun heq => hnot (heq ▸ .refl)
  unfold adoptKids
  cases exclusive with
  | false =>
    obtain ⟨kids₂, hshape⟩ := exists_shape_moved h.shape n (some p)
    refine ⟨t, kids₂, rfl, h.move hn hp hnot hshape, rfl, rfl, fun y => ?_⟩
    rw [parent_moved, update_apply, if_neg (c := false = true ∧ _) fun hf => by cases hf.1]
  | true =>
    have hall : kids p = [] ++ kids p := rfl
    obtain ⟨t₁, kids₁, hloop, hshape₁, hsize, hnode, hparent⟩ :=
      adoptLoop_spec h.shape hpn hall (h.length_kids_le p)
    obtain ⟨kids₂, hshape₂⟩ := exists_shape_moved hshape₁ n (some p)
    have hparent₂ : ∀ y, (t₁.moved n (some p)).parent y =
        if y = n then some p else if true = true ∧ t.parent y = some p then some n
        else t.parent y := by
      intro y
      rw [parent_moved, update_apply]
      split
      · rfl
      · rename_i hyn
        have hiff : (y ∈ kids p ∧ y ≠ n) ↔ (true = true ∧ t.parent y = some p) := by
          rw [h.shape.mem]
          exact ⟨fun hy => ⟨rfl, hy.1⟩, fun hy => ⟨hy.2, hyn⟩⟩
        rw [hparent y]
        simp only [hiff]
    refine ⟨t₁, kids₂, ?_, ?_, hsize, hnode, hparent₂⟩
    · rw [if_pos rfl, h.shape.head p]
      exact hloop
    have hp₂ : Ended (t₁.moved n (some p)).parent p := by
      refine (h.ended p).of_unchanged fun a ha => ?_
      have han : a ≠ n := fun heq => hnot (heq ▸ ha)
      rw [hparent₂ a, if_neg han, if_neg]
      exact fun hkid => (h.ended a).not_above_parent hkid.2 ha
    have hn₂ : Ended (t₁.moved n (some p)).parent n := by
      refine hp₂.step ?_
      rw [hparent₂ n, if_pos rfl]
    refine h.of_changed hshape₂ hsize (fun r hr => ?_) fun r q hr hq => ?_
    · by_cases hrn : r = n
      · rw [hrn]
        exact hn₂
      · rw [hparent₂ r, if_neg hrn] at hr
        have hkid : true = true ∧ t.parent r = some p := by
          by_contra hkid
          exact hr (if_neg hkid)
        refine hn₂.step ?_
        rw [hparent₂ r, if_neg hrn, if_pos hkid]
    · rw [hparent₂ r] at hr hq
      split at hq
      · rename_i hrn
        cases hq
        rw [hrn]
        exact ⟨hn, hp⟩
      rename_i hrn
      rw [if_neg hrn] at hr
      split at hq
      · rename_i hkid
        cases hq
        exact ⟨(h.alloc hkid.2).1, hn⟩
      · rename_i hkid
        rw [if_neg hkid] at hr
        exact (hr rfl).elim

end PriorityWriteScheduler

end Fhttp.Http2
