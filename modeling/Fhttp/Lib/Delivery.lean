import Mathlib.Algebra.GroupWithZero.Nat
import Mathlib.Data.List.Basic
import Mathlib.Data.List.DropRight
import Mathlib.Data.List.Infix

/-!
# Delivery through queues of frames that may be split

Frames that belong to streams are pushed into queues and popped from them.  A frame
may be popped in several pieces.  When a stream is closed, the frames in its queue may
be discarded.

The contract is kept as a ledger.  It has an entry for every frame that was pushed on
a stream, in push order: the pieces that were popped, and the fate of the last piece.
`Ledger` relates the entries to the history of the events and to the queue.  The
operations on a queue are rules that keep a ledger: `Ledger.push`, `Ledger.take` and
`Ledger.close`.  `Balanced` says that the contents of what was popped and of what is
queued are those of what was pushed.

`Delivered` is the contract for all streams.  A stream that was closed may be used
again, so that its contents are balanced since it was closed last.  `Final` is about
streams that are closed for good: what was popped of them is the beginning of what
was pushed.
-/

namespace Fhttp.Lib.Delivery

open List

variable {ι F β : Type*}

/-- What happens to the queues. -/
inductive Event (ι F : Type*) where
  | push (f : F)
  | pop (f : F)
  | close (id : ι)
deriving DecidableEq

/-- What became of the last piece of a frame. -/
inductive Fate where
  | queued
  | popped
  | discarded
deriving DecidableEq

/-- A frame that was pushed: where in the history, its pieces that were popped before
the last one, and the last one. -/
structure Entry (F : Type*) where
  pos : Nat
  frame : F
  parts : List F
  last : F
  fate : Fate

/-- The pieces of an entry that were popped. -/
def Entry.popped (e : Entry F) : List F :=
  match e.fate with
  | .popped => e.parts ++ [e.last]
  | _ => e.parts

/-- The piece of an entry that is in the queue. -/
def Entry.queued? (e : Entry F) : Option F :=
  match e.fate with
  | .queued => some e.last
  | _ => none

/-- The entry after the queue was discarded. -/
def Entry.discard (e : Entry F) : Entry F :=
  match e.fate with
  | .queued => { e with fate := .discarded }
  | _ => e

/-- The pieces of a frame: all but the last one were split off it. -/
inductive Pieces (Splits : F → F → F → Prop) : F → List F → Prop where
  | whole (f : F) : Pieces Splits f [f]
  | split {f a b : F} {l : List F} (h : Splits f a b) (hl : Pieces Splits b l) :
      Pieces Splits f (a :: l)

/-- What is taken from a queue, and what is left: the first frame, or a piece of it. -/
inductive Takes (Splits : F → F → F → Prop) : List F → F → List F → Prop where
  | whole (f : F) (q : List F) : Takes Splits (f :: q) f q
  | part {f a b : F} (h : Splits f a b) (q : List F) : Takes Splits (f :: q) a (b :: q)

section Foreign

variable {stream : F → ι} {id : ι} {f : F}

/-- An event that moves no frame of the stream. -/
def Foreign (stream : F → ι) (id : ι) : Event ι F → Prop
  | .push f => stream f ≠ id
  | .pop f => stream f ≠ id
  | .close _ => True

theorem foreign_close (stream : F → ι) (id id' : ι) : Foreign stream id (.close id') := trivial

theorem foreign_push (hf : stream f ≠ id) : Foreign stream id (.push f) := hf

theorem foreign_pop (hf : stream f ≠ id) : Foreign stream id (.pop f) := hf

end Foreign

section History

variable [DecidableEq ι] (stream : F → ι) (id : ι)

/-- The frames that were pushed on a stream. -/
def pushed (h : List (Event ι F)) : List F :=
  h.filterMap fun
    | .push f => if stream f = id then some f else none
    | _ => none

/-- The frames that were popped of a stream. -/
def popped (h : List (Event ι F)) : List F :=
  h.filterMap fun
    | .pop f => if stream f = id then some f else none
    | _ => none

/-- The event closes the stream. -/
def Event.closes : Event ι F → Bool
  | .close id' => id' == id
  | _ => false

/-- The events since the stream was closed. -/
def since (h : List (Event ι F)) : List (Event ι F) := h.rtakeWhile fun ev => !ev.closes id

variable {stream id} {h : List (Event ι F)} {f : F}

theorem since_push : since id (h ++ [.push f]) = since id h ++ [.push f] :=
  rtakeWhile_concat_pos _ _ _ rfl

theorem since_pop : since id (h ++ [.pop f]) = since id h ++ [.pop f] :=
  rtakeWhile_concat_pos _ _ _ rfl

theorem since_close_of_ne {id' : ι} (hne : id' ≠ id) :
    since id (h ++ [.close id']) = since id h ++ [.close id'] :=
  rtakeWhile_concat_pos _ _ _ (by simp [Event.closes, hne])

theorem since_close : since id (h ++ [.close id]) = [] :=
  rtakeWhile_concat_neg _ _ _ (by simp [Event.closes])

theorem pushed_push (hf : stream f = id) :
    pushed stream id (h ++ [.push f]) = pushed stream id h ++ [f] := by
  simp [pushed, hf]

theorem popped_push : popped stream id (h ++ [.push f]) = popped stream id h := by
  simp [popped]

theorem pushed_pop : pushed stream id (h ++ [.pop f]) = pushed stream id h := by
  simp [pushed]

theorem popped_pop (hf : stream f = id) :
    popped stream id (h ++ [.pop f]) = popped stream id h ++ [f] := by
  simp [popped, hf]

theorem pushed_foreign {ev : Event ι F} (hev : Foreign stream id ev) :
    pushed stream id (h ++ [ev]) = pushed stream id h := by
  cases ev with
  | push f => simp [pushed, show stream f ≠ id from hev]
  | pop f => simp [pushed]
  | close id => simp [pushed]

theorem popped_foreign {ev : Event ι F} (hev : Foreign stream id ev) :
    popped stream id (h ++ [ev]) = popped stream id h := by
  cases ev with
  | push f => simp [popped]
  | pop f => simp [popped, show stream f ≠ id from hev]
  | close id => simp [popped]

end History

section

variable {Splits : F → F → F → Prop}

/-- The last piece is split once more. -/
theorem Pieces.concat {f a b c : F} {l : List F} (h : Pieces Splits f (l ++ [c]))
    (hc : Splits c a b) : Pieces Splits f (l ++ [a] ++ [b]) := by
  induction l generalizing f with
  | nil =>
    cases h with
    | whole f => exact .split hc (.whole b)
    | split _ hl => cases hl
  | cons x l ih =>
    rw [cons_append] at h
    generalize hl : l ++ [c] = l' at h ih
    cases h with
    | whole f => exact (append_ne_nil_of_right_ne_nil l (cons_ne_nil c []) hl).elim
    | split hx hl' => exact .split hx (ih hl')

/-- A property that goes over to what is left of a frame. -/
theorem Takes.forall_rest {P : F → Prop} (hP : ∀ f a b, Splits f a b → P f → P b) {q q' : List F}
    {f : F} (h : Takes Splits q f q') (hq : ∀ x ∈ q, P x) : ∀ x ∈ q', P x := by
  cases h with
  | whole f q => exact fun x hx => hq x (mem_cons_of_mem _ hx)
  | part hsplit q =>
    intro x hx
    rcases mem_cons.mp hx with rfl | hx
    · exact hP _ _ _ hsplit (hq _ mem_cons_self)
    · exact hq x (mem_cons_of_mem _ hx)

/-- A property that goes over to the piece that is taken. -/
theorem Takes.of_forall {P : F → Prop} (hP : ∀ f a b, Splits f a b → P f → P a) {q q' : List F}
    {f : F} (h : Takes Splits q f q') (hq : ∀ x ∈ q, P x) : P f := by
  cases h with
  | whole f q => exact hq f mem_cons_self
  | part hsplit q => exact hP _ _ _ hsplit (hq _ mem_cons_self)

end

/-! ## The ledger -/

/-- The entries of a stream account for the history and for the queue. -/
structure Ledger [DecidableEq ι] (stream : F → ι) (Splits : F → F → F → Prop)
    (h : List (Event ι F)) (id : ι) (q : List F) (es : List (Entry F)) : Prop where
  frames : es.map Entry.frame = pushed stream id h
  pos : ∀ e ∈ es, h[e.pos]? = some (.push e.frame)
  increasing : (es.map Entry.pos).Pairwise (· < ·)
  pieces : ∀ e ∈ es, Pieces Splits e.frame (e.parts ++ [e.last])
  popped : es.flatMap Entry.popped = popped stream id h
  queued : es.filterMap Entry.queued? = q
  /-- Only a frame that was pushed before its stream was closed is discarded. -/
  discarded : ∀ e ∈ es, e.fate = .discarded → ∃ j, e.pos < j ∧ h[j]? = some (.close id)
  /-- Nothing was popped of a frame that comes after one in the queue. -/
  ordered : es.Pairwise fun e e' => e.fate = .queued → e'.popped = []

theorem getElem?_concat {α : Type*} {l : List α} {a x : α} {j : Nat} (h : l[j]? = some a) :
    (l ++ [x])[j]? = some a := by
  obtain ⟨hlt, _⟩ := List.getElem?_eq_some_iff.mp h
  rw [List.getElem?_append_left hlt]
  exact h

theorem Entry.queued?_eq_some {e : Entry F} {f : F} (h : e.queued? = some f) :
    e.fate = .queued ∧ e.last = f := by
  unfold queued? at h
  split at h
  · exact ⟨‹_›, Option.some.inj h⟩
  · cases h

theorem Entry.queued?_eq_none {e : Entry F} (h : e.queued? = none) : e.fate ≠ .queued := by
  intro hfate
  unfold queued? at h
  rw [hfate] at h
  cases h

theorem Entry.fate_discard (e : Entry F) : e.discard.fate ≠ .queued := by
  unfold discard
  split
  · exact nofun
  · exact fun h => by contradiction

theorem Entry.popped_discard (e : Entry F) : e.discard.popped = e.popped := by
  unfold discard popped
  cases hfate : e.fate with
  | queued => rfl
  | popped => rw [hfate]
  | discarded => rw [hfate]

/-- Nothing else changes when an entry is discarded. -/
theorem Entry.discard_eq (e : Entry F) : e.discard = { e with fate := e.discard.fate } := by
  unfold discard
  split <;> rfl

theorem Entry.pos_discard (e : Entry F) : e.discard.pos = e.pos := by
  rw [e.discard_eq]

theorem Entry.frame_discard (e : Entry F) : e.discard.frame = e.frame := by
  rw [e.discard_eq]

namespace Ledger

variable [DecidableEq ι] {stream : F → ι} {Splits : F → F → F → Prop} {h : List (Event ι F)}
  {id : ι} {q q' : List F} {es : List (Entry F)} {f : F}

theorem nil (stream : F → ι) (Splits : F → F → F → Prop) (id : ι) :
    Ledger stream Splits [] id [] [] where
  frames := rfl
  pos := by simp
  increasing := .nil
  pieces := by simp
  popped := rfl
  queued := rfl
  discarded := by simp
  ordered := .nil

/-- An event that moves no frame of the stream. -/
theorem foreign (hl : Ledger stream Splits h id q es) {ev : Event ι F}
    (hev : Foreign stream id ev) : Ledger stream Splits (h ++ [ev]) id q es where
  frames := hl.frames.trans (pushed_foreign hev).symm
  pos := fun e he => getElem?_concat (hl.pos e he)
  increasing := hl.increasing
  pieces := hl.pieces
  popped := hl.popped.trans (popped_foreign hev).symm
  queued := hl.queued
  discarded := by
    intro e he hfate
    obtain ⟨j, hj, hclose⟩ := hl.discarded e he hfate
    exact ⟨j, hj, getElem?_concat hclose⟩
  ordered := hl.ordered

theorem pos_lt (hl : Ledger stream Splits h id q es) {e : Entry F} (he : e ∈ es) :
    e.pos < h.length :=
  (List.getElem?_eq_some_iff.mp (hl.pos e he)).1

/-- A frame is put at the end of the queue. -/
theorem push (hl : Ledger stream Splits h id q es) (hf : stream f = id) :
    Ledger stream Splits (h ++ [.push f]) id (q ++ [f])
      (es ++ [⟨h.length, f, [], f, .queued⟩]) where
  frames := by
    rw [map_append, hl.frames, pushed_push hf]
    rfl
  pos := by
    intro e he
    rcases mem_append.mp he with he | he
    · exact getElem?_concat (hl.pos e he)
    · rw [mem_singleton.mp he]
      simp
  increasing := by
    rw [map_append, pairwise_append]
    refine ⟨hl.increasing, pairwise_singleton .., ?_⟩
    rintro _ hold _ hnew
    obtain ⟨e, he, rfl⟩ := mem_map.mp hold
    cases mem_singleton.mp hnew
    exact hl.pos_lt he
  pieces := by
    intro e he
    rcases mem_append.mp he with he | he
    · exact hl.pieces e he
    · rw [mem_singleton.mp he]
      exact .whole f
  popped := by
    rw [flatMap_append, hl.popped, popped_push]
    simp [Entry.popped]
  queued := by
    rw [filterMap_append, hl.queued]
    simp [Entry.queued?]
  discarded := by
    intro e he hfate
    rcases mem_append.mp he with he | he
    · obtain ⟨j, hj, hclose⟩ := hl.discarded e he hfate
      exact ⟨j, hj, getElem?_concat hclose⟩
    · rw [mem_singleton.mp he] at hfate
      cases hfate
  ordered := by
    rw [pairwise_append]
    refine ⟨hl.ordered, pairwise_singleton .., fun e _ e' he' _ => ?_⟩
    rw [mem_singleton.mp he']
    rfl

/-- One more piece of the first entry in the queue is popped. -/
theorem advance {l₁ l₂ : List (Entry F)} {a a' : Entry F}
    (hl : Ledger stream Splits h id q (l₁ ++ a :: l₂)) (hf : stream f = id)
    (hnone : ∀ e ∈ l₁, e.queued? = none) (ha : a.fate = .queued)
    (hpos : a'.pos = a.pos) (hframe : a'.frame = a.frame)
    (hpieces : Pieces Splits a'.frame (a'.parts ++ [a'.last]))
    (hpopped : a'.popped = a.parts ++ [f]) (hfate : a'.fate ≠ .discarded)
    (hq : (a' :: l₂).filterMap Entry.queued? = q') :
    Ledger stream Splits (h ++ [.pop f]) id q' (l₁ ++ a' :: l₂) := by
  obtain ⟨horder₁, horder₂, horder⟩ := pairwise_append.mp hl.ordered
  obtain ⟨hafter, horder₂⟩ := pairwise_cons.mp horder₂
  have hmem : ∀ e ∈ l₁ ++ a' :: l₂, e = a' ∨ e ∈ l₁ ++ a :: l₂ := by
    intro e he
    rw [mem_append, mem_cons] at he ⊢
    tauto
  have hrest : l₂.flatMap Entry.popped = [] :=
    flatMap_eq_nil_iff.mpr fun e he => hafter e he ha
  have hold := hl.popped
  have haparts : a.popped = a.parts := by
    unfold Entry.popped
    rw [ha]
  refine ⟨?_, fun e he => ?_, ?_, fun e he => ?_, ?_, ?_, fun e he hdisc => ?_, ?_⟩
  · rw [pushed_pop, ← hl.frames]
    simp [hframe]
  · rcases hmem e he with rfl | he
    · rw [hpos, hframe]
      exact getElem?_concat (hl.pos a (by simp))
    · exact getElem?_concat (hl.pos e he)
  · have hsame : (l₁ ++ a' :: l₂).map Entry.pos = (l₁ ++ a :: l₂).map Entry.pos := by simp [hpos]
    rw [hsame]
    exact hl.increasing
  · rcases hmem e he with rfl | he
    · exact hpieces
    · exact hl.pieces e he
  · rw [popped_pop hf, ← hold]
    simp [hpopped, haparts, hrest]
  · rw [filterMap_append, filterMap_eq_nil_iff.mpr hnone, hq, nil_append]
  · rcases hmem e he with rfl | he
    · exact (hfate hdisc).elim
    · obtain ⟨j, hj, hclose⟩ := hl.discarded e he hdisc
      exact ⟨j, hj, getElem?_concat hclose⟩
  · rw [pairwise_append, pairwise_cons]
    refine ⟨horder₁, ⟨fun e he _ => hafter e he ha, horder₂⟩, fun e he e' he' hqueued => ?_⟩
    exact (Entry.queued?_eq_none (hnone e he) hqueued).elim

/-- A frame, or a piece of it, is taken from the queue. -/
theorem take (hl : Ledger stream Splits h id q es) (ht : Takes Splits q f q')
    (hf : stream f = id) : ∃ es', Ledger stream Splits (h ++ [.pop f]) id q' es' := by
  cases ht with
  | whole f q =>
    obtain ⟨l₁, a, l₂, rfl, hnone, ha, hq⟩ := filterMap_eq_cons_iff.mp hl.queued
    obtain ⟨hfate, hlast⟩ := Entry.queued?_eq_some ha
    refine ⟨l₁ ++ { a with fate := .popped } :: l₂, hl.advance hf hnone hfate rfl rfl
      (hl.pieces a (by simp)) ?_ nofun ?_⟩
    · rw [← hlast]
      rfl
    · exact hq
  | @part c a' b hsplit q =>
    obtain ⟨l₁, a, l₂, rfl, hnone, ha, hq⟩ := filterMap_eq_cons_iff.mp hl.queued
    obtain ⟨hfate, hlast⟩ := Entry.queued?_eq_some ha
    refine ⟨l₁ ++ { a with parts := a.parts ++ [f], last := b } :: l₂,
      hl.advance hf hnone hfate rfl rfl ?_ ?_ (fun hdisc => ?_) ?_⟩
    · have hpieces := hl.pieces a (by simp)
      rw [hlast] at hpieces
      exact hpieces.concat hsplit
    · simp [Entry.popped, hfate]
    · rw [hfate] at hdisc
      cases hdisc
    · simp [Entry.queued?, hfate, hq]

/-- The stream is closed, and the end of the queue is discarded. -/
theorem close (hl : Ledger stream Splits h id (q ++ q') es) :
    ∃ es', Ledger stream Splits (h ++ [.close id]) id q es' := by
  obtain ⟨l₁, l₂, rfl, hq, hq'⟩ := filterMap_eq_append_iff.mp hl.queued
  obtain ⟨horder₁, horder₂, horder⟩ := pairwise_append.mp hl.ordered
  have hmem :
      ∀ e ∈ l₁ ++ l₂.map Entry.discard, ∃ e₀ ∈ l₁ ++ l₂, e = { e₀ with fate := e.fate } := by
    intro e he
    rcases mem_append.mp he with he | he
    · exact ⟨e, mem_append_left _ he, rfl⟩
    · obtain ⟨e₀, he₀, rfl⟩ := mem_map.mp he
      exact ⟨e₀, mem_append_right _ he₀, e₀.discard_eq⟩
  refine ⟨l₁ ++ l₂.map Entry.discard, ?_, fun e he => ?_, ?_, fun e he => ?_, ?_, ?_,
    fun e he _ => ?_, ?_⟩
  · rw [pushed_foreign (foreign_close stream id id), ← hl.frames]
    simp [Function.comp_def, Entry.frame_discard]
  · obtain ⟨e₀, he₀, heq⟩ := hmem e he
    rw [heq]
    exact getElem?_concat (hl.pos e₀ he₀)
  · have hsame : (l₁ ++ l₂.map Entry.discard).map Entry.pos = (l₁ ++ l₂).map Entry.pos := by
      simp [Function.comp_def, Entry.pos_discard]
    rw [hsame]
    exact hl.increasing
  · obtain ⟨e₀, he₀, heq⟩ := hmem e he
    rw [heq]
    exact hl.pieces e₀ he₀
  · rw [popped_foreign (foreign_close stream id id), ← hl.popped]
    simp [flatMap_map, Entry.popped_discard]
  · have hnone : (l₂.map Entry.discard).filterMap Entry.queued? = [] := by
      rw [filterMap_eq_nil_iff]
      intro e he
      obtain ⟨e₀, _, rfl⟩ := mem_map.mp he
      cases hqueued : e₀.discard.queued? with
      | none => rfl
      | some f => exact (e₀.fate_discard (Entry.queued?_eq_some hqueued).1).elim
    rw [filterMap_append, hq, hnone, append_nil]
  · obtain ⟨e₀, he₀, heq⟩ := hmem e he
    refine ⟨h.length, ?_, by simp⟩
    rw [heq]
    exact hl.pos_lt (e := e₀) he₀
  · rw [pairwise_append, pairwise_map]
    refine ⟨horder₁, horder₂.imp fun _ hqueued => (Entry.fate_discard _ hqueued).elim, ?_⟩
    intro e he e' he' hqueued
    obtain ⟨e₀, he₀, rfl⟩ := mem_map.mp he'
    rw [e₀.popped_discard]
    exact horder e he e₀ he₀ hqueued

end Ledger

/-! ## Contents -/

/-- The contents of what was popped and of what is queued are those of what was
pushed. -/
def Balanced [DecidableEq ι] (stream : F → ι) (payload : F → List β) (h : List (Event ι F)) (id : ι)
    (q : List F) : Prop :=
  (popped stream id h).flatMap payload ++ q.flatMap payload = (pushed stream id h).flatMap payload

/-- The contents of what is taken come first in those of the queue. -/
theorem Takes.payload_eq {Splits : F → F → F → Prop} {payload : F → List β}
    (hpay : ∀ f a b, Splits f a b → payload f = payload a ++ payload b) {q q' : List F} {f : F}
    (h : Takes Splits q f q') : q.flatMap payload = payload f ++ q'.flatMap payload := by
  cases h with
  | whole f q => rfl
  | part hsplit q =>
    rw [flatMap_cons, flatMap_cons, hpay _ _ _ hsplit, append_assoc]

namespace Balanced

variable [DecidableEq ι] {stream : F → ι} {payload : F → List β} {h : List (Event ι F)}
  {id : ι} {q q' : List F} {f : F}

theorem nil (stream : F → ι) (payload : F → List β) (id : ι) :
    Balanced stream payload [] id [] := rfl

theorem foreign (hb : Balanced stream payload h id q) {ev : Event ι F}
    (hev : Foreign stream id ev) : Balanced stream payload (h ++ [ev]) id q := by
  unfold Balanced
  rw [pushed_foreign hev, popped_foreign hev]
  exact hb

theorem push (hb : Balanced stream payload h id q) (hf : stream f = id) :
    Balanced stream payload (h ++ [.push f]) id (q ++ [f]) := by
  unfold Balanced at hb ⊢
  rw [popped_push, pushed_push hf, flatMap_append, flatMap_append, ← append_assoc, hb]

theorem take {Splits : F → F → F → Prop}
    (hpay : ∀ f a b, Splits f a b → payload f = payload a ++ payload b)
    (hb : Balanced stream payload h id q) (ht : Takes Splits q f q') (hf : stream f = id) :
    Balanced stream payload (h ++ [.pop f]) id q' := by
  unfold Balanced at hb ⊢
  rw [ht.payload_eq hpay] at hb
  rw [popped_pop hf, pushed_pop, flatMap_append, ← hb]
  simp

theorem isPrefix_popped (hb : Balanced stream payload h id q) :
    (popped stream id h).flatMap payload <+: (pushed stream id h).flatMap payload :=
  ⟨_, hb⟩

end Balanced

/-! ## All streams -/

section Streams

variable [DecidableEq ι]

/-- The contract for the queues of all streams. -/
structure Delivered (stream : F → ι) (Splits : F → F → F → Prop) (payload : F → List β)
    (h : List (Event ι F)) (queue : ι → List F) : Prop where
  ledger : ∀ id, ∃ es, Ledger stream Splits h id (queue id) es
  balanced : ∀ id, Balanced stream payload (since id h) id (queue id)

/-- The contents of what was popped are the beginning of those of what was pushed.
Nothing but empty frames is pushed on a stream that has been closed. -/
structure Final (stream : F → ι) (payload : F → List β) (closed : ι → Prop)
    (h : List (Event ι F)) : Prop where
  popped : ∀ id,
    (popped stream id h).flatMap payload <+: (pushed stream id h).flatMap payload
  since : ∀ id, ¬ closed id → Delivery.since id h = h
  closed : ∀ id, closed id → (pushed stream id (Delivery.since id h)).flatMap payload = []

variable {stream : F → ι} {Splits : F → F → F → Prop} {payload : F → List β}
  {h : List (Event ι F)} {queue queue' : ι → List F} {f : F}

namespace Delivered

theorem nil (stream : F → ι) (Splits : F → F → F → Prop) (payload : F → List β) :
    Delivered stream Splits payload [] fun _ => [] :=
  ⟨fun id => ⟨[], .nil stream Splits id⟩, fun id => .nil stream payload id⟩

theorem push (hd : Delivered stream Splits payload h queue)
    (hqueue : queue' (stream f) = queue (stream f) ++ [f])
    (hother : ∀ id, id ≠ stream f → queue' id = queue id) :
    Delivered stream Splits payload (h ++ [.push f]) queue' := by
  refine ⟨fun id => ?_, fun id => ?_⟩
  · obtain ⟨es, hl⟩ := hd.ledger id
    by_cases hid : id = stream f
    · subst hid
      rw [hqueue]
      exact ⟨_, hl.push rfl⟩
    · rw [hother id hid]
      exact ⟨es, hl.foreign (Ne.symm hid)⟩
  · rw [since_push]
    by_cases hid : id = stream f
    · subst hid
      rw [hqueue]
      exact (hd.balanced _).push rfl
    · rw [hother id hid]
      exact (hd.balanced id).foreign (Ne.symm hid)

theorem take (hpay : ∀ f a b, Splits f a b → payload f = payload a ++ payload b)
    (hd : Delivered stream Splits payload h queue)
    (hqueue : Takes Splits (queue (stream f)) f (queue' (stream f)))
    (hother : ∀ id, id ≠ stream f → queue' id = queue id) :
    Delivered stream Splits payload (h ++ [.pop f]) queue' := by
  refine ⟨fun id => ?_, fun id => ?_⟩
  · obtain ⟨es, hl⟩ := hd.ledger id
    by_cases hid : id = stream f
    · subst hid
      exact hl.take hqueue rfl
    · rw [hother id hid]
      exact ⟨es, hl.foreign (Ne.symm hid)⟩
  · rw [since_pop]
    by_cases hid : id = stream f
    · subst hid
      exact (hd.balanced _).take hpay hqueue rfl
    · rw [hother id hid]
      exact (hd.balanced id).foreign (Ne.symm hid)

/-- The stream is closed.  What stays in its queue has no contents. -/
theorem close (hd : Delivered stream Splits payload h queue) {id : ι} {q : List F}
    (hqueue : queue id = queue' id ++ q) (hempty : (queue' id).flatMap payload = [])
    (hother : ∀ id', id' ≠ id → queue' id' = queue id') :
    Delivered stream Splits payload (h ++ [.close id]) queue' := by
  refine ⟨fun id' => ?_, fun id' => ?_⟩
  · obtain ⟨es, hl⟩ := hd.ledger id'
    by_cases hid : id' = id
    · subst hid
      rw [hqueue] at hl
      exact hl.close
    · rw [hother id' hid]
      exact ⟨es, hl.foreign trivial⟩
  · by_cases hid : id' = id
    · subst hid
      rw [since_close]
      exact hempty
    · rw [since_close_of_ne (Ne.symm hid), hother id' hid]
      exact (hd.balanced id').foreign trivial

end Delivered

namespace Final

variable {closed closed' : ι → Prop}

section

variable (hl : Final stream payload closed h)

include hl

theorem push (hf : closed (stream f) → payload f = []) :
    Final stream payload closed (h ++ [.push f]) := by
  refine ⟨fun id => ?_, fun id hid => ?_, fun id hid => ?_⟩
  · rw [popped_push]
    by_cases hid : stream f = id
    · rw [pushed_push hid, flatMap_append]
      exact (hl.popped id).trans (prefix_append ..)
    · rw [pushed_foreign (foreign_push hid)]
      exact hl.popped id
  · rw [since_push, hl.since id hid]
  · rw [since_push]
    by_cases hid' : stream f = id
    · rw [pushed_push hid', flatMap_append, hl.closed id hid]
      simp [hf (hid' ▸ hid)]
    · rw [pushed_foreign (foreign_push hid')]
      exact hl.closed id hid

/-- After a frame was popped the contents are balanced. -/
theorem pop (hd : Delivered stream Splits payload (h ++ [.pop f]) queue) :
    Final stream payload closed (h ++ [.pop f]) := by
  refine ⟨fun id => ?_, fun id hid => ?_, fun id hid => ?_⟩
  · by_cases hid : stream f = id
    · have hb := hd.balanced id
      rw [since_pop] at hb
      by_cases hclosed : closed id
      · unfold Balanced at hb
        rw [pushed_pop, hl.closed id hclosed, popped_pop hid, flatMap_append] at hb
        obtain ⟨_, hlast⟩ := append_eq_nil_iff.mp (append_eq_nil_iff.mp hb).1
        have hnil : payload f = [] := by simpa using hlast
        rw [popped_pop hid, pushed_pop, flatMap_append]
        simpa [hnil] using hl.popped id
      · rw [hl.since id hclosed] at hb
        exact hb.isPrefix_popped
    · rw [popped_foreign (foreign_pop hid), pushed_pop]
      exact hl.popped id
  · rw [since_pop, hl.since id hid]
  · rw [since_pop, pushed_pop]
    exact hl.closed id hid

theorem close {id : ι} (hclosed : ∀ id', closed' id' ↔ id' = id ∨ closed id') :
    Final stream payload closed' (h ++ [.close id]) := by
  refine ⟨fun id' => ?_, fun id' hid => ?_, fun id' hid => ?_⟩
  · rw [popped_foreign (foreign_close stream id' id), pushed_foreign (foreign_close stream id' id)]
    exact hl.popped id'
  · rw [hclosed, not_or] at hid
    rw [since_close_of_ne (Ne.symm hid.1), hl.since id' hid.2]
  · by_cases heq : id' = id
    · rw [heq, since_close]
      rfl
    · rw [since_close_of_ne (Ne.symm heq), pushed_foreign (foreign_close stream id' id)]
      exact hl.closed id' (((hclosed id').mp hid).resolve_left heq)

end

end Final

end Streams

end Fhttp.Lib.Delivery
