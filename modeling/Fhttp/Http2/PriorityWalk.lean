import Mathlib.Data.List.Sort
import Fhttp.Http2.PriorityForest

/-!
# The walk of `Pop` over the priority tree

`walkReadyInOrder` sorts the kids of a node before it visits them.  `sortKids_spec`
says that sorting permutes the kids of one node and does nothing else.  `Resorted`
is what a walk does: below the node where it starts, kids may be permuted.  By
`walk_spec` the walk ends.

Kids that have sent nothing should be visited by decreasing weight.  One is added to a
weight, in eight bits, and the largest weight becomes the smallest (`visits_byWeight_iff`).
-/

namespace Fhttp.Http2

open Lib.Panic Lib.LinkedTree Lib.Forest
open Function (update update_apply update_eq_self update_idem update_of_ne update_self)
open List

namespace PriorityTree

variable {t t' : PriorityTree} {kids : Ref → List Ref} {n : Ref}

/-! ## Sorting kids -/

section

variable {l : List Ref}

/-- A node that is taken away from its parent is taken out of one list. -/
theorem moved_none {k : Ref} (h : Shape t.links kids) (hkids : kids n = k :: l) :
    Lib.LinkedTree.moved kids k none = update kids n l := by
  funext q
  unfold Lib.LinkedTree.moved
  rw [if_neg (Option.some_ne_none q)]
  by_cases hq : q = n
  · rw [hq, update_self, hkids, erase_cons_head]
  · rw [update_of_ne hq, erase_of_not_mem]
    intro hmem
    refine hq (h.eq_of_mem hmem ?_)
    rw [hkids]
    exact mem_cons_self

theorem ite_mem_cons {α : Type} {k y : Ref} (a b : α) :
    (if y ∈ k :: l then a else b) = if y = k then a else if y ∈ l then a else b := by
  by_cases hyk : y = k
  · rw [if_pos hyk, if_pos (mem_cons.mpr (.inl hyk))]
  · rw [if_neg hyk]
    simp only [mem_cons, or_iff_right hyk]

theorem takeKidsLoop_spec {fuel : Nat} (h : Shape t.links kids) (hkids : kids n = l)
    (hfuel : l.length ≤ fuel) (tmp : List Ref) :
    ∃ t', takeKidsLoop n fuel t tmp = .ok (t', tmp ++ l) ∧
      Shape t'.links (update kids n []) ∧ t'.size = t.size ∧ t'.node = t.node ∧
      ∀ y, t'.parent y = if y ∈ l then none else t.parent y := by
  induction l generalizing t kids fuel tmp with
  | nil =>
    refine ⟨t, ?_, ?_, rfl, rfl, fun y => (if_neg not_mem_nil).symm⟩
    · unfold takeKidsLoop
      rw [h.head n, hkids, append_nil]
      rfl
    · rwa [← hkids, update_eq_self]
  | cons k l ih =>
    have hk : t.parent k = some n := by
      refine (h.mem n k).mp ?_
      rw [hkids]
      exact mem_cons_self
    cases fuel with
    | zero => cases hfuel
    | succ fuel =>
      have hne : t.parent k ≠ none := by
        rw [hk]
        exact Option.some_ne_none n
      have hshape : Shape (t.moved k none).links (update kids n l) := by
        rw [← moved_none h hkids]
        exact h.move hne
      obtain ⟨t', hloop, hshape', hsize, hnode, hparent⟩ :=
        ih hshape (update_self ..) (Nat.le_of_succ_le_succ hfuel) (tmp ++ [k])
      rw [update_idem] at hshape'
      refine ⟨t', ?_, hshape', hsize, hnode, fun y => ?_⟩
      · unfold takeKidsLoop
        rw [h.head n, hkids, head?_cons]
        simp only
        rw [setParent_eq t (Option.some_ne_none k).symm, append_cons tmp k l]
        exact hloop
      · rw [hparent y, parent_moved, update_apply, ite_mem_cons]
        by_cases hyk : y = k
        · rw [if_pos hyk, if_pos hyk, ite_self]
        · rw [if_neg hyk, if_neg hyk]

theorem putKids_spec (h : Shape t.links kids) (hl : ∀ k ∈ l, t.parent k = none ∧ k ≠ n)
    (hnodup : l.Nodup) :
    ∃ t', putKids n l t = .ok t' ∧ Shape t'.links (update kids n (l ++ kids n)) ∧
      t'.size = t.size ∧ t'.node = t.node ∧
      ∀ y, t'.parent y = if y ∈ l then some n else t.parent y := by
  induction l with
  | nil =>
    refine ⟨t, rfl, ?_, rfl, rfl, fun y => (if_neg not_mem_nil).symm⟩
    rwa [nil_append, update_eq_self]
  | cons k l ih =>
    obtain ⟨hkl, hnodup⟩ := nodup_cons.mp hnodup
    obtain ⟨hk, hkn⟩ := hl k mem_cons_self
    obtain ⟨t₁, hput, hshape, hsize, hnode, hparent⟩ :=
      ih (fun k' hk' => hl k' (mem_cons_of_mem k hk')) hnodup
    have hk₁ : t₁.parent k = none := by
      rw [hparent k, if_neg hkl, hk]
    have hnot : ∀ q, k ∉ update kids n (l ++ kids n) q := by
      intro q hmem
      have hq := (hshape.mem q k).mp hmem
      rw [show t₁.links.parent k = none from hk₁] at hq
      cases hq
    have hmoved : Lib.LinkedTree.moved (update kids n (l ++ kids n)) k (some n) =
        update kids n (k :: l ++ kids n) := by
      funext q
      unfold Lib.LinkedTree.moved
      rw [erase_of_not_mem (hnot q)]
      by_cases hq : q = n
      · rw [hq, if_pos rfl, update_self, update_self]
        rfl
      · rw [if_neg fun heq => hq (Option.some.inj heq), update_of_ne hq, update_of_ne hq]
    have hne : t₁.parent k ≠ some n := by
      rw [hk₁]
      exact (Option.some_ne_none n).symm
    refine ⟨t₁.moved k (some n), ?_, ?_, hsize, hnode, fun y => ?_⟩
    · rw [putKids, hput]
      exact setParent_eq t₁ fun heq => hkn (Option.some.inj heq).symm
    · rw [← hmoved]
      exact hshape.move hne
    · rw [parent_moved, update_apply, hparent y, ite_mem_cons]

end

/-- Sorting permutes the kids of a node. -/
theorem sortKids_spec (go : Sorting) (h : Forested t kids) (n : Ref) :
    ∃ t', sortKids go t n = .ok t' ∧
      Shape t'.links (update kids n (go.sort (less go t) (kids n))) ∧ t'.size = t.size ∧
      t'.node = t.node ∧ t'.parent = t.parent := by
  obtain ⟨t₁, htake, hshape₁, hsize₁, hnode₁, hparent₁⟩ :=
    takeKidsLoop_spec h.shape rfl (h.length_kids_le n) []
  have hless : less go t₁ = less go t := by
    unfold less
    rw [hnode₁]
  have hperm := go.perm (less go t) (kids n)
  have hsorted : ∀ k ∈ go.sort (less go t) (kids n), t₁.parent k = none ∧ k ≠ n := by
    intro k hk
    have hmem := hperm.mem_iff.mp hk
    rw [hparent₁ k, if_pos hmem]
    exact ⟨rfl, fun heq => h.not_above_of_mem hmem (heq ▸ .refl)⟩
  obtain ⟨t₂, hput, hshape₂, hsize₂, hnode₂, hparent₂⟩ :=
    putKids_spec hshape₁ hsorted (hperm.nodup_iff.mpr (h.shape.nodup n))
  rw [update_idem, update_self, append_nil] at hshape₂
  refine ⟨t₂, ?_, hshape₂, hsize₂.trans hsize₁, hnode₂.trans hnode₁, ?_⟩
  · unfold sortKids
    rw [htake]
    show putKids n (go.sort (less go t₁) (kids n)) t₁ = _
    rw [hless]
    exact hput
  · funext y
    rw [hparent₂ y, hparent₁ y]
    by_cases hy : y ∈ kids n
    · rw [if_pos (hperm.mem_iff.mpr hy)]
      exact ((h.shape.mem n y).mp hy).symm
    · rw [if_neg fun hmem => hy (hperm.mem_iff.mp hmem), if_neg hy]

theorem needSortLoop_eq (w : UInt8) {l : List Ref} {q : Option Ref} {fuel : Nat}
    (hlinked : Linked t.links.prev t.links.next q l none) (hfuel : l.length ≤ fuel) :
    needSortLoop t w fuel l.head? = .ok (l.any fun k => (t.node k).weight ≠ w) := by
  induction l generalizing q fuel with
  | nil => cases fuel <;> rfl
  | cons k l ih =>
    obtain ⟨_, hnext, hrest⟩ := hlinked
    rw [Option.or_none] at hnext
    cases fuel with
    | zero => cases hfuel
    | succ fuel =>
      rw [head?_cons, needSortLoop, hnext, ih hrest (Nat.le_of_succ_le_succ hfuel)]
      by_cases hw : (t.node k).weight = w <;> simp [hw]

/-- The kids of a node in the order in which they are visited. -/
def visitOrder (go : Sorting) (t : PriorityTree) : List Ref → List Ref
  | [] => []
  | k :: l =>
    if l.any fun k' => (t.node k').weight ≠ (t.node k).weight then go.sort (less go t) (k :: l)
    else k :: l

/-! ## The walk -/

/-- What a walk from `n` does to the tree: below `n` kids are permuted. -/
structure Resorted (n : Ref) (t t' : PriorityTree) (kids kids' : Ref → List Ref) : Prop where
  forest : Forested t' kids'
  parent : t'.parent = t.parent
  size : t'.size = t.size
  outside : ∀ q, ¬ Above t.parent n q → kids' q = kids q

namespace Resorted

theorem refl (n : Ref) (h : Forested t kids) : Resorted n t t kids kids :=
  ⟨h, rfl, rfl, fun _ _ => rfl⟩

/-- A walk from a node after a walk from another one, which is below it. -/
theorem trans {t₁ t₂ : PriorityTree} {kids₁ kids₂ : Ref → List Ref} {k : Ref}
    (h : Resorted k t t₁ kids kids₁) (hk : Above t.parent n k)
    (h' : Resorted n t₁ t₂ kids₁ kids₂) : Resorted n t t₂ kids kids₂ where
  forest := h'.forest
  parent := h'.parent.trans h.parent
  size := h'.size.trans h.size
  outside := by
    intro q hq
    have hq' : ¬ Above t₁.parent n q := by
      rw [h.parent]
      exact hq
    rw [h'.outside q hq', h.outside q fun habove => hq (hk.trans habove)]

end Resorted

/-- A change of other fields comes before. -/
theorem SameLinks.resorted (h : SameLinks t t') (hforest : Forested t kids) :
    Resorted n t t' kids kids :=
  ⟨hforest.sameLinks h, congrArg Pointers.parent h.links, h.size, fun _ _ => rfl⟩

/-- The kids of a node are sorted, if they have to be. -/
theorem resorted_sortIfNeeded (go : Sorting) (h : Forested t kids) {k : Ref} {l : List Ref}
    (hkids : kids n = k :: l) :
    ∃ t' kids', sortIfNeeded go t n k = .ok t' ∧ t'.node = t.node ∧
      Resorted n t t' kids kids' ∧ kids' n = visitOrder go t (kids n) := by
  have hlinked := h.shape.linked n
  have hlength := h.length_kids_le n
  rw [hkids] at hlinked hlength
  obtain ⟨_, hnext, hrest⟩ := hlinked
  rw [Option.or_none] at hnext
  unfold sortIfNeeded
  rw [hnext, needSortLoop_eq _ hrest (Nat.le_of_succ_le hlength), hkids, visitOrder]
  generalize (l.any _) = needSort
  cases needSort with
  | false => exact ⟨t, kids, rfl, rfl, .refl n h, hkids⟩
  | true =>
    obtain ⟨t', hsort, hshape, hsize, hnode, hparent⟩ := sortKids_spec go h n
    have hforest : Forested t' (update kids n _) :=
      h.of_changed hshape hsize (fun r hr => (hr (by rw [hparent])).elim)
        fun r q hr => (hr (by rw [hparent])).elim
    refine ⟨t', _, hsort, hnode, ⟨hforest, hparent, hsize, fun q hq => ?_⟩, ?_⟩
    · have hqn : q ≠ n := by
        intro heq
        rw [heq] at hq
        exact hq .refl
      exact update_of_ne hqn ..
    · rw [update_self, hkids]
      rfl

section Walk

variable {S : Type} {tree : S → PriorityTree} {setTree : S → PriorityTree → S}
  {F : Fault → Prop} {P : Bool → S → Prop}

/-- The rule for walks: `P false` holds of the state while the walk goes on, and
`P true` holds when a visit has ended it. -/
structure WalkRule (tree : S → PriorityTree) (setTree : S → PriorityTree → S)
    (f : Ref → Bool → S → Except Fault (Bool × S)) (F : Fault → Prop) (P : Bool → S → Prop) :
    Prop where
  get : ∀ s t, tree (setTree s t) = t
  /-- Sorting changes the order of siblings only. -/
  sort : ∀ {s t}, P false s → t.node = (tree s).node → t.size = (tree s).size →
    t.parent = (tree s).parent → P false (setTree s t)
  /-- The function is called for nodes with a frame, and does not change the links. -/
  visit : ∀ {n s kids} openParent, P false s → Forested (tree s) kids → n < (tree s).size →
    Rooted (tree s).parent root n → ((tree s).node n).q.empty = false →
    Outcome F (fun r => P r.1 r.2 ∧ SameLinks (tree s) (tree r.2)) (f n openParent s)

/-- The loop over the kids of a node, of which those in `l` are left. -/
theorem visitLoop_spec {P : List Ref → Bool → S → Prop}
    {visit : Ref → S → Except Fault (Bool × S)} {pre l : List Ref} {fuel : Nat}
    {s : S} (hP : P l false s) (h : Forested (tree s) kids) (hkids : kids n = pre ++ l)
    (hfuel : l.length ≤ fuel)
    (hvisit : ∀ {k l s₁ kids₁}, P (k :: l) false s₁ → Forested (tree s₁) kids₁ →
      (tree s₁).parent = (tree s).parent → (tree s₁).size = (tree s).size →
      (tree s).parent k = some n →
      Outcome F (fun r => P l r.1 r.2 ∧ ∃ kids₂, Resorted k (tree s₁) (tree r.2) kids₁ kids₂)
        (visit k s₁)) :
    Outcome F (fun r => (∃ l, (r.1 = false → l = []) ∧ P l r.1 r.2) ∧
        ∃ kids', Resorted n (tree s) (tree r.2) kids kids')
      (visitLoop tree visit fuel l.head? s) := by
  induction l generalizing s kids pre fuel with
  | nil =>
    have hdone : visitLoop tree visit fuel none s = .ok (false, s) := by cases fuel <;> rfl
    rw [head?_nil, hdone]
    exact ⟨⟨[], fun _ => rfl, hP⟩, kids, .refl n h⟩
  | cons k l ih =>
    cases fuel with
    | zero => cases hfuel
    | succ fuel =>
      have hmem : k ∈ kids n := by
        rw [hkids]
        exact mem_append_right pre mem_cons_self
      have hk := (h.shape.mem n k).mp hmem
      refine (hvisit hP h rfl rfl hk).bind fun r hr => ?_
      obtain ⟨halt, s₁⟩ := r
      obtain ⟨hP₁, kids₁, hsorted⟩ := hr
      simp only at hP₁ hsorted ⊢
      cases halt with
      | true =>
        exact ⟨⟨l, nofun, hP₁⟩, kids₁, hsorted.trans (.of_parent hk) (.refl n hsorted.forest)⟩
      | false =>
        have hkids₁ : kids₁ n = pre ++ [k] ++ l := by
          rw [hsorted.outside n (h.not_above_of_mem hmem), hkids, append_assoc]
          rfl
        have hnext : (tree s₁).links.next k = l.head? := by
          have hlinked := hsorted.forest.shape.linked n
          rw [hkids₁, append_assoc] at hlinked
          have hnext := (linked_append.mp hlinked).2.2.1
          rwa [Option.or_none] at hnext
        rw [if_neg Bool.false_ne_true, hnext]
        refine (ih hP₁ hsorted.forest hkids₁ (Nat.le_of_succ_le_succ hfuel) ?_).imp fun r hr => ?_
        · intro k' l' s₂ kids₂ hP₂ hforest hparent hsize hk'
          rw [hsorted.parent] at hparent hk'
          exact hvisit hP₂ hforest hparent (hsize.trans hsorted.size) hk'
        · obtain ⟨hP', kids', hsorted'⟩ := hr
          exact ⟨hP', kids', hsorted.trans (.of_parent hk) hsorted'⟩

/-- A walk with enough fuel for the tree below `n` ends. -/
theorem walk_spec (go : Sorting) {f : Ref → Bool → S → Except Fault (Bool × S)}
    (hf : WalkRule tree setTree f F P) {fuel d : Nat} (openParent : Bool) {s : S}
    (hP : P false s) (h : Forested (tree s) kids) (hn : n < (tree s).size)
    (hd : Depth (tree s).parent root n d) (hfuel : (tree s).size ≤ fuel + d) :
    Outcome F (fun r => P r.1 r.2 ∧ ∃ kids', Resorted n (tree s) (tree r.2) kids kids')
      (walkReadyInOrder tree setTree go f fuel n openParent s) := by
  induction fuel generalizing n d openParent s kids with
  | zero =>
    have hlt := h.depth_lt hn hd
    omega
  | succ fuel ih =>
    have hfirst : Outcome F (fun r => P r.1 r.2 ∧ SameLinks (tree s) (tree r.2))
        (callReady tree f n openParent s) := by
      unfold callReady
      split
      · exact ⟨hP, .refl _⟩
      · rename_i hempty
        exact hf.visit openParent hP h hn ⟨d, hd⟩ (Bool.eq_false_iff.mpr hempty)
    refine hfirst.bind fun r hr => ?_
    obtain ⟨halt, s₁⟩ := r
    obtain ⟨hP₁, hsame⟩ := hr
    simp only at hP₁ hsame ⊢
    have hforest := h.sameLinks hsame
    have hparent : (tree s₁).parent = (tree s).parent := congrArg Pointers.parent hsame.links
    cases halt with
    | true => exact ⟨hP₁, kids, hsame.resorted h⟩
    | false =>
      rw [if_neg Bool.false_ne_true, hforest.shape.head n]
      cases hkids : kids n with
      | nil => exact ⟨hP₁, kids, hsame.resorted h⟩
      | cons k l =>
        obtain ⟨t', kids', hsort, hnode, hsorted, _⟩ := resorted_sortIfNeeded go hforest hkids
        rw [head?_cons]
        simp only
        rw [hsort]
        show Outcome F _ (visitLoop tree _ t'.size (t'.links.kids n) (setTree s₁ t'))
        have hP₂ := hf.sort hP₁ hnode hsorted.size hsorted.parent
        have htree : tree (setTree s₁ t') = t' := hf.get s₁ t'
        generalize setTree s₁ t' = s₂ at hP₂ htree
        subst htree
        rw [hsorted.forest.shape.head n]
        have hall : kids' n = [] ++ kids' n := rfl
        refine (visitLoop_spec (P := fun _ => P) hP₂ hsorted.forest hall
          (hsorted.forest.length_kids_le n) ?_).imp fun r hr => ?_
        · intro k' _ s₃ kids₃ hP₃ hforest₃ hparent₃ hsize₃ hk'
          have hparent' : (tree s₃).parent = (tree s).parent :=
            hparent₃.trans (hsorted.parent.trans hparent)
          have hsize' : (tree s₃).size = (tree s).size :=
            hsize₃.trans (hsorted.size.trans hsame.size)
          rw [hsorted.parent, hparent] at hk'
          refine ih _ hP₃ hforest₃ ?_ (d := d + 1) ?_ ?_
          · rw [hsize']
            exact (h.alloc hk').1
          · rw [hparent']
            exact .step hk' hd
          · omega
        · obtain ⟨⟨_, _, hP₃⟩, kids₃, hsorted₃⟩ := hr
          exact ⟨hP₃, kids₃, (hsame.resorted h).trans .refl (hsorted.trans .refl hsorted₃)⟩

end Walk

/-! ## The order of the visits -/

def ready (t : PriorityTree) (n : Ref) : Bool := !(t.node n).q.empty

def isKid (t : PriorityTree) (n k : Ref) : Bool := t.parent k = some n

/-- A function for walks that notes the nodes for which it is called. -/
def note (n : Ref) (_ : Bool) (s : PriorityTree × List Ref) :
    Except Fault (Bool × PriorityTree × List Ref) :=
  .ok (false, s.1, s.2 ++ [n])

def visits (go : Sorting) : Nat → Ref → Bool → PriorityTree × List Ref →
    Except Fault (Bool × PriorityTree × List Ref) :=
  walkReadyInOrder Prod.fst (fun s t => (t, s.2)) go note

/-- After `n`, the nodes below it are visited, and its kids in their order. -/
theorem visits_spec (go : Sorting) {fuel d : Nat} (openParent : Bool) {s : PriorityTree × List Ref}
    (h : Forested s.1 kids) (hn : n < s.1.size) (hd : Depth s.1.parent root n d)
    (hfuel : s.1.size ≤ fuel + d) :
    Outcome (fun _ => False) (fun r => (r.1 = false ∧ r.2.1.node = s.1.node ∧
        ∃ w, r.2.2 = s.2 ++ [n].filter (ready s.1) ++ w ∧
          (∀ x ∈ w, ∃ p, s.1.parent x = some p ∧ Above s.1.parent n p) ∧
          w.filter (isKid s.1 n) = (visitOrder go s.1 (kids n)).filter (ready s.1)) ∧
        ∃ kids', Resorted n s.1 r.2.1 kids kids')
      (visits go fuel n openParent s) := by
  induction fuel generalizing n d openParent s kids with
  | zero =>
    have hlt := h.depth_lt hn hd
    omega
  | succ fuel ih =>
    obtain ⟨t, log⟩ := s
    have hfirst : Outcome (fun _ => False) (· = (false, t, log ++ [n].filter (ready t)))
        (callReady Prod.fst note n openParent (t, log)) := by
      unfold callReady note ready
      cases hq : (t.node n).q.empty <;> simp [hq, Outcome]
    refine hfirst.bind fun r hr => ?_
    subst hr
    simp only
    rw [if_neg Bool.false_ne_true, h.shape.head n]
    cases hkids : kids n with
    | nil => exact ⟨⟨rfl, rfl, [], (append_nil _).symm, nofun, rfl⟩, kids, .refl n h⟩
    | cons k l =>
      obtain ⟨t', kids', hsort, hnode, hsorted, horder⟩ := resorted_sortIfNeeded go h hkids
      rw [head?_cons]
      simp only
      rw [hsort]
      show Outcome _ _ (visitLoop Prod.fst _ t'.size (t'.links.kids n) (t', _))
      rw [hsorted.forest.shape.head n]
      refine (visitLoop_spec (n := n) (P := fun l b s' => b = false ∧ s'.1.node = t.node ∧
        ∃ w, s'.2 = log ++ [n].filter (ready t) ++ w ∧
          (∀ x ∈ w, ∃ p, t.parent x = some p ∧ Above t.parent n p) ∧
          w.filter (isKid t n) ++ l.filter (ready t) = (kids' n).filter (ready t))
        ⟨rfl, hnode, [], (append_nil _).symm, nofun, rfl⟩ hsorted.forest (nil_append _).symm
        (hsorted.forest.length_kids_le n) ?_).imp fun r hr => ?_
      · intro k' l' s₃ kids₃ hP hforest₃ hparent₃ hsize₃ hk'
        obtain ⟨-, hnode₃, w, hw, hbelow, hfilter⟩ := hP
        rw [hsorted.parent] at hparent₃ hk'
        rw [hsorted.size] at hsize₃
        have hready : ready s₃.1 = ready t := by
          funext x
          unfold ready
          rw [hnode₃]
        refine (ih (d := d + 1) _ hforest₃ ?_ ?_ ?_).imp fun r hr => ?_
        · rw [hsize₃]
          exact (h.alloc hk').1
        · rw [hparent₃]
          exact .step hk' hd
        · omega
        · obtain ⟨⟨hr, hnode', w', hw', hbelow', -⟩, hsorted'⟩ := hr
          rw [hparent₃] at hbelow'
          rw [hready, hw] at hw'
          refine ⟨⟨hr, hnode'.trans hnode₃, w ++ [k'].filter (ready t) ++ w', ?_, ?_, ?_⟩, hsorted'⟩
          · rw [hw', ← append_assoc, ← append_assoc]
          · intro x hx
            rcases mem_append.mp hx with hx | hx
            · rcases mem_append.mp hx with hx | hx
              · exact hbelow x hx
              · rw [mem_singleton.mp (mem_of_mem_filter hx)]
                exact ⟨n, hk', .refl⟩
            · obtain ⟨p, hp, habove⟩ := hbelow' x hx
              exact ⟨p, hp, (Above.of_parent hk').trans habove⟩
          · have hw₀ : w'.filter (isKid t n) = [] := by
              refine filter_eq_nil_iff.mpr fun x hx hkid => ?_
              obtain ⟨p, hp, habove⟩ := hbelow' x hx
              rw [of_decide_eq_true hkid] at hp
              cases hp
              exact h.not_above_of_mem ((h.shape.mem n k').mpr hk') habove
            have hk₀ : ([k'].filter (ready t)).filter (isKid t n) = [k'].filter (ready t) := by
              refine filter_eq_self.mpr fun x hx => ?_
              rw [mem_singleton.mp (mem_of_mem_filter hx)]
              exact decide_eq_true hk'
            rw [filter_append, filter_append, hw₀, hk₀, append_nil, append_assoc, ← filter_append]
            exact hfilter
      · obtain ⟨⟨l, hl, hr, hnode', w, hw, hbelow, hfilter⟩, kids₃, hsorted₃⟩ := hr
        rw [hl hr, filter_nil, append_nil, horder, hkids] at hfilter
        exact ⟨⟨hr, hnode', w, hw, hbelow, hfilter⟩, kids₃, hsorted.trans .refl hsorted₃⟩

section Weights

variable (go : Sorting)

theorem visitOrder_perm (t : PriorityTree) : ∀ l, (visitOrder go t l).Perm l
  | [] => .nil
  | k :: l => by
    rw [visitOrder]
    split
    · exact go.perm _ _
    · exact .refl _

/-- The ready kids are in the order of their sums, which are eight bits. -/
theorem visitOrder_pairwise {l : List Ref}
    (hsort : (go.sort (less go t) l).Pairwise (less go t · ·))
    (hunsent : ∀ k ∈ l, ready t k → (t.node k).subtreeBytes = 0) :
    ((visitOrder go t l).filter (ready t)).Pairwise
      fun a b => (t.node b).weight + 1 ≤ (t.node a).weight + 1 := by
  cases l with
  | nil => exact .nil
  | cons k l =>
    rw [visitOrder]
    split
    · refine (hsort.filter _).imp_of_mem fun {a b} ha hb hab => ?_
      have hzero : ∀ c ∈ (go.sort (less go t) (k :: l)).filter (ready t),
          (t.node c).subtreeBytes = 0 := by
        intro c hc
        obtain ⟨hc, hready⟩ := mem_filter.mp hc
        exact hunsent c ((go.perm _ _).mem_iff.mp hc) hready
      unfold less at hab
      simpa [hzero a ha, hzero b hb] using hab
    · rename_i hsame
      have hweight : ∀ a ∈ k :: l, (t.node a).weight = (t.node k).weight := by
        simpa using hsame
      refine pairwise_of_forall_mem_list fun a ha b hb => ?_
      rw [hweight a (mem_of_mem_filter ha), hweight b (mem_of_mem_filter hb)]
      exact UInt8.le_refl _

/-- The sum is 0 for one weight, which is then not in its place. -/
theorem le_iff_of_succ_le {a b : UInt8} (h : b + 1 ≤ a + 1) : b ≤ a ↔ (a = 255 ↔ b = 255) := by
  simp only [UInt8.le_iff_toNat_le, UInt8.toNat_add, ← UInt8.toNat_inj] at h ⊢
  have ha := a.toNat_lt
  have hb := b.toNat_lt
  simp only [UInt8.reduceToNat] at h ⊢
  omega

/-- Ready kids that have sent nothing are visited by decreasing weight if and only if
the largest weight is that of all of them or of none.  It is assumed that `sort.Sort` has
sorted the kids by the comparison. -/
theorem visits_byWeight_iff {d : Nat} (h : Forested t kids) (hn : n < t.size)
    (hd : Depth t.parent root n d) (hsort : (go.sort (less go t) (kids n)).Pairwise (less go t · ·))
    (hunsent : ∀ k ∈ kids n, ready t k → (t.node k).subtreeBytes = 0) (openParent : Bool) :
    ∃ t' log, visits go t.size n openParent (t, []) = .ok (false, t', log) ∧
      (log.filter (isKid t n)).Perm ((kids n).filter (ready t)) ∧
      ((log.filter (isKid t n)).Pairwise (fun a b => (t.node b).weight ≤ (t.node a).weight) ↔
        ∀ a ∈ kids n, ∀ b ∈ kids n, ready t a → ready t b →
          ((t.node a).weight = 255 ↔ (t.node b).weight = 255)) := by
  obtain ⟨⟨_, t', log⟩, hvisits, ⟨rfl, -, w, hlog, -, hw⟩, -⟩ := Lib.Panic.returns_iff.mp
    (visits_spec go openParent (s := (t, [])) h hn hd (Nat.le_add_right _ _))
  simp only at hlog hw
  have hself : isKid t n n = false := by
    refine decide_eq_false fun hp => ?_
    exact h.not_above_of_mem ((h.shape.mem n n).mpr hp) .refl
  have hkids : log.filter (isKid t n) = (visitOrder go t (kids n)).filter (ready t) := by
    rw [hlog, nil_append, filter_append, hw, filter_filter]
    simp [hself]
  have hperm := (visitOrder_perm go t (kids n)).filter (ready t)
  refine ⟨t', log, hvisits, hkids ▸ hperm, ?_⟩
  have hpairs := visitOrder_pairwise go hsort hunsent
  rw [hkids]
  constructor
  · intro hle a ha b hb hra hrb
    have hboth := (hpairs.and hle).imp fun hab => (le_iff_of_succ_le hab.1).mp hab.2
    exact hboth.forall_of_forall (fun _ _ => .rfl)
      (hperm.mem_iff.mpr (mem_filter.mpr ⟨ha, hra⟩))
      (hperm.mem_iff.mpr (mem_filter.mpr ⟨hb, hrb⟩))
  · intro hsame
    refine hpairs.imp_of_mem fun ha hb hab => (le_iff_of_succ_le hab).mpr ?_
    obtain ⟨ha, hra⟩ := mem_filter.mp (hperm.mem_iff.mp ha)
    obtain ⟨hb, hrb⟩ := mem_filter.mp (hperm.mem_iff.mp hb)
    exact hsame _ ha _ hb hra hrb

/-- Two streams with a frame each, and the given weights. -/
def twoStreams (w₁ w₂ : UInt8) : PriorityTree :=
  let q : WriteQueue := ⟨[⟨.other 0, none, none⟩]⟩
  (((init.alloc { q, weight := w₁ }).moved 1 (some root)).alloc
    { q, weight := w₂ }).moved 2 (some root)

theorem forested_twoStreams (w₁ w₂ : UInt8) : Forested (twoStreams w₁ w₂)
    (Lib.LinkedTree.moved (Lib.LinkedTree.moved (fun _ => []) 1 (some root)) 2 (some root)) :=
  (forested_init.grow _ Nat.zero_lt_one).grow _ Nat.zero_lt_two

def insertionSorting : Sorting where
  sort less l := l.insertionSort (less · ·)
  perm _ := perm_insertionSort _
  quotientLE _ _ _ _ := true

theorem visits_byWeight_twoStreams : ∃ t' log,
    visits insertionSorting 3 root false (twoStreams 7 200, []) = .ok (false, t', log) ∧
      (log.filter (isKid (twoStreams 7 200) root)).Pairwise fun a b =>
        ((twoStreams 7 200).node b).weight ≤ ((twoStreams 7 200).node a).weight := by
  obtain ⟨t', log, hlog, -, hiff⟩ := visits_byWeight_iff insertionSorting
    (forested_twoStreams 7 200) (n := root) (by decide) (.root rfl) (by decide +kernel)
    (by decide +kernel)
    false
  exact ⟨t', log, hlog, hiff.mpr (by decide +kernel)⟩

/-- The stream with weight 255 is visited after the one with weight 0. -/
theorem visits_weight_255 :
    (visits insertionSorting 3 root false (twoStreams 255 0, [])).map (·.2.2) = .ok [2, 1] ∧
      ((twoStreams 255 0).node 2).weight = 0 ∧ ((twoStreams 255 0).node 1).weight = 255 := by
  decide +kernel

end Weights

end PriorityTree

end Fhttp.Http2
