import Fhttp.Lib.Forest

/-!
# Trees with linked lists of children

A node points to its parent, to its first child, and to its two siblings in the
doubly linked list of its parent's children.  `Shape t children` says that the
pointers are consistent, and which lists they stand for.

The one operation is to move a node: to take it out of its list (`unlink`), and to
put it at the head of another one, or nowhere (`link`).  `Shape.move` says what
becomes of the lists.  Nothing is assumed about cycles: a node may be moved below
itself, and back.
-/

namespace Fhttp.Lib.LinkedTree

open Function (update update_apply update_eq_self update_of_ne update_self)
open List

variable {α : Type*}

/-! ## Linked lists -/

/-- The cells of the list are linked in both directions.  The first one comes after
`p` and the last one before `e`. -/
def Linked (prev next : α → Option α) : Option α → List α → Option α → Prop
  | _, [], _ => True
  | p, a :: l, e => prev a = p ∧ next a = l.head?.or e ∧ Linked prev next (some a) l e

section Linked

variable {prev next prev' next' : α → Option α} {p e : Option α} {l m : List α}

theorem linked_append :
    Linked prev next p (l ++ m) e ↔
      Linked prev next p l (m.head?.or e) ∧ Linked prev next (l.getLast?.or p) m e := by
  induction l generalizing p with
  | nil => exact ⟨fun h => ⟨trivial, h⟩, fun h => h.2⟩
  | cons a l ih =>
    have hhead : (l ++ m).head?.or e = l.head?.or (m.head?.or e) := by
      rw [head?_append, Option.or_assoc]
    have hlast : (a :: l).getLast?.or p = l.getLast?.or (some a) := by
      rw [getLast?_cons]
      cases l.getLast? <;> rfl
    rw [cons_append, Linked, Linked, ih, hhead, hlast]
    exact ⟨fun ⟨hp, hn, hl, hm⟩ => ⟨⟨hp, hn, hl⟩, hm⟩, fun ⟨⟨hp, hn, hl⟩, hm⟩ => ⟨hp, hn, hl, hm⟩⟩

/-- Only the pointers of the cells matter. -/
theorem Linked.congr (h : Linked prev next p l e)
    (hsame : ∀ a ∈ l, prev' a = prev a ∧ next' a = next a) : Linked prev' next' p l e := by
  induction l generalizing p with
  | nil => trivial
  | cons a l ih =>
    obtain ⟨hp, hn, hl⟩ := h
    obtain ⟨hprev, hnext⟩ := hsame a mem_cons_self
    exact ⟨hprev.trans hp, hnext.trans hn, ih hl fun b hb => hsame b (mem_cons_of_mem a hb)⟩

variable [DecidableEq α]

/-- Another cell comes after the list. -/
theorem Linked.update_next {a : α} (h : Linked prev next p (l ++ [a]) e) (hnew : a ∉ l)
    (e' : Option α) : Linked prev (update next a e') p (l ++ [a]) e' := by
  rw [linked_append] at h ⊢
  obtain ⟨hl, ha, _, _⟩ := h
  refine ⟨hl.congr fun b hb => ⟨rfl, ?_⟩, ha, ?_, trivial⟩
  · have hne : b ≠ a := fun heq => hnew (heq ▸ hb)
    rw [update_of_ne hne]
  · rw [update_self]
    rfl

/-- Another cell comes before the list. -/
theorem Linked.update_prev {b : α} (h : Linked prev next p (b :: l) e) (hnew : b ∉ l)
    (p' : Option α) : Linked (update prev b p') next p' (b :: l) e := by
  obtain ⟨_, hn, hl⟩ := h
  refine ⟨update_self .., hn, hl.congr fun a ha => ⟨?_, rfl⟩⟩
  have hne : a ≠ b := fun heq => hnew (heq ▸ ha)
  rw [update_of_ne hne]

end Linked

/-! ## Trees -/

/-- The pointers of all nodes. -/
structure Pointers (α : Type*) where
  parent : α → Option α
  /-- The first child. -/
  kids : α → Option α
  prev : α → Option α
  next : α → Option α

namespace Pointers

variable [DecidableEq α]

/-- Take a node out of the list of its parent.  Its own pointers stay. -/
def unlink (t : Pointers α) (n : α) : Pointers α :=
  match t.parent n with
  | none => t
  | some p =>
    let t :=
      match t.prev n with
      | none => { t with kids := Function.update t.kids p (t.next n) }
      | some a => { t with next := Function.update t.next a (t.next n) }
    match t.next n with
    | none => t
    | some b => { t with prev := Function.update t.prev b (t.prev n) }

/-- Put a node that is in no list at the head of the list of `p`. -/
def linkFirst (t : Pointers α) (n p : α) : Pointers α :=
  let t : Pointers α := { t with
    parent := Function.update t.parent n (some p)
    next := Function.update t.next n (t.kids p)
    prev := Function.update t.prev n none }
  let t :=
    match t.next n with
    | none => t
    | some b => { t with prev := Function.update t.prev b (some n) }
  { t with kids := Function.update t.kids p (some n) }

/-- Put a node that is in no list at the head of a list, or nowhere. -/
def link (t : Pointers α) (n : α) : Option α → Pointers α
  | none =>
    { t with
      parent := Function.update t.parent n none
      next := Function.update t.next n none
      prev := Function.update t.prev n none }
  | some p => t.linkFirst n p

/-- Give a node another parent, or none. -/
def move (t : Pointers α) (n : α) (parent : Option α) : Pointers α :=
  if t.parent n = parent then t else (t.unlink n).link n parent

end Pointers

/-- The pointers are consistent, and `children` are the lists that they stand for. -/
structure Shape (t : Pointers α) (children : α → List α) : Prop where
  head : ∀ p, t.kids p = (children p).head?
  linked : ∀ p, Linked t.prev t.next none (children p) none
  mem : ∀ p c, c ∈ children p ↔ t.parent c = some p
  nodup : ∀ p, (children p).Nodup
  detached : ∀ c, t.parent c = none → t.prev c = none ∧ t.next c = none

/-- The same for all nodes but `n`, which is in no list. -/
structure ShapeBut (t : Pointers α) (n : α) (children : α → List α) : Prop where
  head : ∀ p, t.kids p = (children p).head?
  linked : ∀ p, Linked t.prev t.next none (children p) none
  mem : ∀ p c, c ∈ children p ↔ c ≠ n ∧ t.parent c = some p
  nodup : ∀ p, (children p).Nodup
  detached : ∀ c, c ≠ n → t.parent c = none → t.prev c = none ∧ t.next c = none

variable {t : Pointers α} {children : α → List α} {n : α}

variable {p c r : α} {l : List α}

/-- The lists are disjoint. -/
theorem Shape.eq_of_mem (h : Shape t children) {q : α} (hp : c ∈ children p) (hq : c ∈ children q) :
    p = q := by
  rw [h.mem] at hp hq
  rw [hp] at hq
  exact Option.some.inj hq

/-- The node and its neighbours in the list of its parent. -/
theorem Shape.split (h : Shape t children) (hp : t.parent n = some p) :
    ∃ l m, children p = l ++ n :: m ∧ t.prev n = l.getLast? ∧ t.next n = m.head? ∧
      (n :: (l ++ m)).Nodup ∧ Linked t.prev t.next none l (some n) ∧
      Linked t.prev t.next (some n) m none := by
  obtain ⟨l, m, hsplit⟩ := append_of_mem ((h.mem p n).mpr hp)
  have hlinked := h.linked p
  have hnodup := h.nodup p
  rw [hsplit] at hlinked hnodup
  obtain ⟨hl, hprev, hnext, hm⟩ := linked_append.mp hlinked
  rw [Option.or_none] at hprev hnext
  exact ⟨l, m, hsplit, hprev, hnext, nodup_middle.mp hnodup, hl, hm⟩

/-- A node can be reached from `r` by going to first children and to next siblings. -/
inductive Reach (t : Pointers α) (r : α) : α → Prop where
  | start : Reach t r r
  | kids {p c : α} (hp : Reach t r p) (h : t.kids p = some c) : Reach t r c
  | next {c c' : α} (hc : Reach t r c) (h : t.next c = some c') : Reach t r c'

/-- What can be reached from a cell of a set that the links do not leave is in the set. -/
theorem Reach.mem_of_closed {S : Set α} (h : Reach t r c) (hr : r ∈ S)
    (hkids : ∀ p c, p ∈ S → t.kids p = some c → c ∈ S)
    (hnext : ∀ c c', c ∈ S → t.next c = some c' → c' ∈ S) : c ∈ S := by
  induction h with
  | start => exact hr
  | kids _ hc ih => exact hkids _ _ ih hc
  | next _ hc ih => exact hnext _ _ ih hc

/-- All cells of a list can be reached when the first one can. -/
theorem Linked.reach {p e : Option α} (h : Linked t.prev t.next p l e)
    (hhead : ∀ a ∈ l.head?, Reach t r a) : ∀ c ∈ l, Reach t r c := by
  induction l generalizing p with
  | nil =>
    intro c hc
    cases hc
  | cons a l ih =>
    obtain ⟨_, hnext, hl⟩ := h
    have ha : Reach t r a := hhead a rfl
    intro c hc
    rcases mem_cons.mp hc with rfl | hc
    · exact ha
    · refine ih hl (fun b hb => ?_) c hc
      refine .next ha ?_
      rw [hnext, show l.head? = some b from hb]
      rfl

/-- A node that is rooted can be reached. -/
theorem Shape.reach (h : Shape t children) {x : α} (hx : Forest.Rooted t.parent r x) :
    Reach t r x := by
  obtain ⟨d, hd⟩ := hx
  induction hd with
  | root _ => exact .start
  | @step x p d hp _ ih =>
    refine (h.linked p).reach (fun a ha => .kids ih ?_) x ((h.mem p x).mpr hp)
    rw [h.head]
    exact ha

variable [DecidableEq α]

/-! ## Moving a node -/

/-- The writes of `unlink`, for a node that is not its own neighbour. -/
theorem unlink_eq {p : α} (hp : t.parent n = some p) (hprev : t.prev n ≠ some n) :
    t.unlink n =
      { parent := t.parent
        kids :=
          match t.prev n with
          | none => update t.kids p (t.next n)
          | some _ => t.kids
        next :=
          match t.prev n with
          | none => t.next
          | some a => update t.next a (t.next n)
        prev :=
          match t.next n with
          | none => t.prev
          | some b => update t.prev b (t.prev n) } := by
  unfold Pointers.unlink
  simp only [hp]
  cases ha : t.prev n with
  | none => cases t.next n <;> simp only [ha]
  | some a =>
    have hne : n ≠ a := fun heq => hprev (by rw [ha, ← heq])
    simp only [update_of_ne hne]
    cases t.next n <;> simp only [ha]

/-- What `unlink` does to a node in the list `l ++ n :: m` of its parent. -/
theorem unlink_spec {m : List α} (hp : t.parent n = some p) (hkids : t.kids p = (l ++ n :: m).head?)
    (hprev : t.prev n = l.getLast?) (hnext : t.next n = m.head?) (hnodup : (n :: (l ++ m)).Nodup)
    (hl : Linked t.prev t.next none l (some n)) (hm : Linked t.prev t.next (some n) m none) :
    (t.unlink n).parent = t.parent ∧
      (t.unlink n).kids = update t.kids p (l ++ m).head? ∧
      Linked (t.unlink n).prev (t.unlink n).next none (l ++ m) none ∧
      ∀ c, c ∉ l ++ m → (t.unlink n).prev c = t.prev c ∧ (t.unlink n).next c = t.next c := by
  obtain ⟨hnew, hnodup⟩ := nodup_cons.mp hnodup
  rcases eq_nil_or_concat' l with rfl | ⟨l, a, rfl⟩
  · have hnone : t.prev n = none := hprev
    rw [unlink_eq hp (by rw [hnone]; exact (Option.some_ne_none n).symm), hnone, hnext]
    cases m with
    | nil => exact ⟨rfl, rfl, trivial, fun _ _ => ⟨rfl, rfl⟩⟩
    | cons b m =>
      refine ⟨rfl, rfl, hm.update_prev (nodup_cons.mp hnodup).1 none, fun c hc => ⟨?_, rfl⟩⟩
      exact update_of_ne (ne_of_not_mem_cons hc) ..
  · have hhead : (l ++ [a] ++ m).head? = t.kids p := by
      rw [hkids]
      cases l <;> rfl
    rw [getLast?_concat] at hprev
    have hna : n ≠ a := fun heq => hnew (by simp [heq])
    have ha : a ∉ l := by
      have hla := (nodup_append.mp hnodup).1
      rw [nodup_append] at hla
      exact fun hmem => hla.2.2 a hmem a (mem_singleton_self a) rfl
    have hother : ∀ c, c ∉ l ++ [a] ++ m → c ≠ a := fun c hc heq => hc (by simp [heq])
    have hself : t.prev n ≠ some n := by
      rw [hprev]
      exact fun heq => hna (Option.some.inj heq).symm
    rw [unlink_eq hp hself, hprev, hnext, hhead, update_eq_self]
    cases m with
    | nil =>
      rw [append_nil] at hother ⊢
      refine ⟨rfl, rfl, hl.update_next ha none, fun c hc => ⟨rfl, ?_⟩⟩
      exact update_of_ne (hother c hc) ..
    | cons b m =>
      obtain ⟨hbm, hdisjoint⟩ := (nodup_append.mp hnodup).2
      refine ⟨rfl, rfl, linked_append.mpr ⟨?_, ?_⟩, fun c hc => ⟨?_, ?_⟩⟩
      · refine (hl.update_next ha (some b)).congr fun c hc => ⟨?_, rfl⟩
        exact update_of_ne (hdisjoint c hc b mem_cons_self) ..
      · rw [getLast?_concat]
        refine (hm.update_prev (nodup_cons.mp hbm).1 (some a)).congr fun c hc => ⟨rfl, ?_⟩
        have hne : c ≠ a := fun heq => hdisjoint a (by simp) c hc heq.symm
        exact update_of_ne hne ..
      · have hne : c ≠ b := fun heq => hc (by simp [heq])
        exact update_of_ne hne ..
      · exact update_of_ne (hother c hc) ..

theorem Shape.unlink (h : Shape t children) (n : α) :
    ShapeBut (t.unlink n) n fun q => (children q).erase n := by
  cases hp : t.parent n with
  | none =>
    have hnot : ∀ q, n ∉ children q := by
      intro q hmem
      rw [h.mem, hp] at hmem
      cases hmem
    have hsame : t.unlink n = t := by
      unfold Pointers.unlink
      rw [hp]
    have hchildren : (fun q => (children q).erase n) = children :=
      funext fun q => erase_of_not_mem (hnot q)
    rw [hsame, hchildren]
    refine ⟨h.head, h.linked, fun p c => ?_, h.nodup, fun c _ => h.detached c⟩
    rw [h.mem]
    refine ⟨fun hc => ⟨fun heq => ?_, hc⟩, fun hc => hc.2⟩
    rw [heq, hp] at hc
    cases hc
  | some p =>
    obtain ⟨l, m, hsplit, hprev, hnext, hnodup, hl, hm⟩ := h.split hp
    obtain ⟨hparent, hkids, hlinked, hother⟩ :=
      unlink_spec hp (by rw [h.head, hsplit]) hprev hnext hnodup hl hm
    have hnl : n ∉ l := fun hmem => (nodup_cons.mp hnodup).1 (mem_append_left m hmem)
    have herase : (children p).erase n = l ++ m := by
      rw [hsplit, erase_append_right _ hnl, erase_cons_head]
    have hq : ∀ q, q ≠ p → (children q).erase n = children q := by
      intro q hne
      refine erase_of_not_mem fun hmem => hne ?_
      exact h.eq_of_mem hmem ((h.mem p n).mpr hp)
    have hdisjoint : ∀ q, q ≠ p → ∀ c ∈ children q, c ∉ l ++ m := by
      intro q hne c hc hmem
      refine hne (h.eq_of_mem hc ?_)
      rw [← herase] at hmem
      exact mem_of_mem_erase hmem
    refine ⟨fun q => ?_, fun q => ?_, fun q c => ?_, fun q => (h.nodup q).erase n, ?_⟩
    · rw [hkids]
      by_cases hqp : q = p
      · rw [hqp, update_self, herase]
      · rw [update_of_ne hqp, h.head, hq q hqp]
    · by_cases hqp : q = p
      · rw [hqp, herase]
        exact hlinked
      · rw [hq q hqp]
        exact (h.linked q).congr fun c hc => hother c (hdisjoint q hqp c hc)
    · rw [hparent, (h.nodup q).mem_erase_iff, h.mem]
    · intro c hne hc
      rw [hparent] at hc
      have hnot : c ∉ l ++ m := by
        intro hmem
        rw [← herase] at hmem
        have hcp := (h.mem p c).mp (mem_of_mem_erase hmem)
        rw [hc] at hcp
        cases hcp
      rw [(hother c hnot).1, (hother c hnot).2]
      exact h.detached c hc

/-- The node is put at the head of a list. -/
theorem ShapeBut.linkFirst (h : ShapeBut t n children) (p : α) :
    Shape (t.linkFirst n p) fun q => if q = p then n :: children q else children q := by
  have hnot : ∀ q, n ∉ children q := fun q hmem => ((h.mem q n).mp hmem).1 rfl
  have hspec : (t.linkFirst n p).parent = update t.parent n (some p) ∧
      (t.linkFirst n p).kids = update t.kids p (some n) ∧
      (t.linkFirst n p).next = update t.next n (children p).head? ∧
      (t.linkFirst n p).prev n = none ∧
      (∀ c, c ≠ n → c ∉ children p → (t.linkFirst n p).prev c = t.prev c) ∧
      Linked (t.linkFirst n p).prev t.next (some n) (children p) none := by
    have hfirst : t.kids p = (children p).head? := h.head p
    have hlinked := h.linked p
    have hnodup := h.nodup p
    have hmem := hnot p
    unfold Pointers.linkFirst
    simp only [update_self, hfirst]
    cases hlist : children p with
    | nil =>
      refine ⟨rfl, rfl, rfl, update_self .., fun c hc _ => ?_, trivial⟩
      exact update_of_ne hc ..
    | cons b l =>
      rw [hlist] at hlinked hnodup hmem
      have hnb : n ≠ b := ne_of_not_mem_cons hmem
      refine ⟨rfl, rfl, rfl, ?_, fun c hc hcl => ?_, ?_⟩
      · exact (update_of_ne hnb ..).trans (update_self ..)
      · refine (update_of_ne (ne_of_not_mem_cons hcl) ..).trans ?_
        exact update_of_ne hc ..
      · have hrest : Linked (update t.prev n none) t.next none (b :: l) none := by
          refine hlinked.congr fun c hc => ⟨?_, rfl⟩
          have hcn : c ≠ n := fun heq => hmem (heq ▸ hc)
          exact update_of_ne hcn ..
        exact hrest.update_prev (nodup_cons.mp hnodup).1 (some n)
  obtain ⟨hparent, hkids, hnext, hprev, hother, hlist⟩ := hspec
  have hnext' : ∀ c, c ≠ n → (t.linkFirst n p).next c = t.next c := by
    intro c hc
    rw [hnext, update_of_ne hc]
  have hmem : ∀ q c, c ∈ children q → c ≠ n := fun q c hc heq => hnot q (heq ▸ hc)
  refine ⟨fun q => ?_, fun q => ?_, fun q c => ?_, fun q => ?_, fun c hc => ?_⟩
  · rw [hkids]
    split
    · rename_i hqp
      rw [hqp, update_self, head?_cons]
    · rename_i hqp
      rw [update_of_ne hqp, h.head]
  · split
    · rename_i hqp
      rw [hqp]
      refine ⟨hprev, ?_, hlist.congr fun c hc => ⟨rfl, hnext' c (hmem p c hc)⟩⟩
      rw [hnext, update_self, Option.or_none]
    · rename_i hqp
      refine (h.linked q).congr fun c hc => ⟨hother c (hmem q c hc) fun hcp => hqp ?_,
        hnext' c (hmem q c hc)⟩
      have hparents := ((h.mem q c).mp hc).2.symm.trans ((h.mem p c).mp hcp).2
      exact Option.some.inj hparents
  · rw [hparent]
    by_cases hcn : c = n
    · rw [hcn, update_self]
      split
      · rename_i hqp
        rw [hqp]
        exact ⟨fun _ => rfl, fun _ => mem_cons_self⟩
      · rename_i hqp
        exact ⟨fun hc => (hnot q hc).elim, fun heq => (hqp (Option.some.inj heq).symm).elim⟩
    · rw [update_of_ne hcn]
      have hiff : c ∈ children q ↔ t.parent c = some q := by
        rw [h.mem]
        exact ⟨fun hc => hc.2, fun hc => ⟨hcn, hc⟩⟩
      split
      · rw [mem_cons, hiff]
        exact ⟨fun hc => hc.resolve_left hcn, .inr⟩
      · exact hiff
  · split
    · exact nodup_cons.mpr ⟨hnot q, h.nodup q⟩
    · exact h.nodup q
  · rw [hparent] at hc
    have hcn : c ≠ n := by
      intro heq
      rw [heq, update_self] at hc
      cases hc
    rw [update_of_ne hcn] at hc
    have hcp : c ∉ children p := by
      intro hmem
      rw [h.mem, hc] at hmem
      cases hmem.2
    rw [hother c hcn hcp, hnext' c hcn]
    exact h.detached c hcn hc

/-- The node is put nowhere. -/
theorem ShapeBut.link_none (h : ShapeBut t n children) : Shape (t.link n none) children := by
  have hmem : ∀ q c, c ∈ children q → c ≠ n := fun q c hc => ((h.mem q c).mp hc).1
  refine ⟨h.head, fun q => ?_, fun q c => ?_, h.nodup, fun c hc => ?_⟩
  · refine (h.linked q).congr fun c hc => ?_
    exact ⟨update_of_ne (hmem q c hc) .., update_of_ne (hmem q c hc) ..⟩
  · show c ∈ children q ↔ update t.parent n none c = some q
    rw [h.mem, update_apply]
    split
    · rename_i hcn
      exact ⟨fun hc => (hc.1 hcn).elim, fun hfalse => by cases hfalse⟩
    · rename_i hcn
      exact ⟨fun hc => hc.2, fun hc => ⟨hcn, hc⟩⟩
  · show update t.prev n none c = none ∧ update t.next n none c = none
    by_cases hcn : c = n
    · rw [hcn, update_self, update_self]
      exact ⟨rfl, rfl⟩
    · have hc' : update t.parent n none c = none := hc
      rw [update_of_ne hcn] at hc' ⊢
      rw [update_of_ne hcn]
      exact h.detached c hcn hc'

/-- The lists after a node was moved. -/
def moved (children : α → List α) (n : α) (parent : Option α) (q : α) : List α :=
  if some q = parent then n :: (children q).erase n else (children q).erase n

section

variable (t : Pointers α) (n : α)

theorem link_parent (parent : Option α) : (t.link n parent).parent = update t.parent n parent := by
  cases parent with
  | none => rfl
  | some p =>
    show (t.linkFirst n p).parent = _
    unfold Pointers.linkFirst
    simp only [update_self]
    cases t.kids p <;> rfl

theorem unlink_parent : (t.unlink n).parent = t.parent := by
  unfold Pointers.unlink
  cases t.parent n with
  | none => rfl
  | some p =>
    simp only
    split
    · split <;> rfl
    · split <;> rfl

/-- A node that is moved gets its new parent, and no other node does. -/
theorem move_parent (parent : Option α) : (t.move n parent).parent = update t.parent n parent := by
  unfold Pointers.move
  split
  · rename_i heq
    rw [← heq, update_eq_self]
  · rw [link_parent, unlink_parent]

end

/-- A node is moved to another parent. -/
theorem Shape.move (h : Shape t children) {parent : Option α} (hnew : t.parent n ≠ parent) :
    Shape (t.move n parent) (moved children n parent) := by
  unfold Pointers.move
  rw [if_neg hnew]
  cases parent with
  | none => exact (h.unlink n).link_none
  | some p =>
    have hmoved : moved children n (some p) =
        fun q => if q = p then n :: (children q).erase n else (children q).erase n := by
      funext q
      unfold moved
      simp only [Option.some.injEq]
    rw [hmoved]
    exact (h.unlink n).linkFirst p

/-- Moving a node to the parent that it has changes nothing. -/
theorem move_self (t : Pointers α) (n : α) : t.move n (t.parent n) = t := if_pos rfl

end Fhttp.Lib.LinkedTree
