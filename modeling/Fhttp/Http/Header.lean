import Fhttp.Lib.Sorting
import Fhttp.Http2.ResponseHeader

/-!
# The order of header keys

`Header.SortedKeyValues` and `Header.SortedKeyValuesBy` of `header.go`.  The keys in the order
list come first, by their place in it, and the others after them, by their bytes.

A map of the source has no order of its own: a `range` over it may visit the keys in any
order, and `sort.Sort` may put keys that are not told apart in any order.  Both are
choices of the `Runtime`.
-/

namespace Fhttp.Http

open Hpack (Bytes ascii)
open Lib (Sorter TransitiveOrdering)
open Http2 (Header)
open List

/-- The magic key for the order of the header. -/
def headerOrderKey : Bytes := ascii "Header-Order:"

/-- The magic key for the order of the pseudo-header. -/
def pHeaderOrderKey : Bytes := ascii "PHeader-Order:"

/-- The lower case of an ASCII letter. -/
def lowerByte (b : UInt8) : UInt8 := if 0x41 ≤ b ∧ b ≤ 0x5a then b + 0x20 else b

def lowerAscii (s : Bytes) : Bytes := s.map lowerByte

def isAscii (s : Bytes) : Bool := s.all (· < 0x80)

/-- What the source leaves to the language and its library.  Beyond ASCII the case of a
letter is a matter of the Unicode tables. -/
structure Runtime where
  /-- The order of the keys in the `i`-th `range` over a map. -/
  range : Nat → Header → Header
  range_perm : ∀ i h, (range i h).Perm h
  /-- `sort.Sort`. -/
  sorter : Sorter (Bytes × List Bytes)
  toLower : Bytes → Bytes
  toLower_ascii : ∀ s, isAscii s = true → toLower s = lowerAscii s
  equalFold : Bytes → Bytes → Bool
  equalFold_ascii : ∀ s t, isAscii s = true → isAscii t = true →
    equalFold s t = (lowerAscii s == lowerAscii t)

/-- A runtime that visits the keys as they are listed. -/
def Runtime.plain : Runtime where
  range _ h := h
  range_perm _ h := Perm.refl h
  sorter := .insertion
  toLower := lowerAscii
  toLower_ascii _ _ := rfl
  equalFold s t := lowerAscii s == lowerAscii t
  equalFold_ascii _ _ _ _ := rfl

/-- The map from the names in an order list to their places; a later place wins. -/
def orderOf (headerOrder : List Bytes) (name : Bytes) : Option Nat :=
  headerOrder.zipIdx.foldl (fun place v => if v.1 = name then some v.2 else place) none

/-- `headerSorter.Less`.  The source looks up the places of all keys before it sorts. -/
def less (rt : Runtime) (order : Option (Bytes → Option Nat)) (a b : Bytes × List Bytes) : Bool :=
  match order with
  | none => decide (a.1 < b.1)
  | some order =>
    match order (rt.toLower a.1), order (rt.toLower b.1) with
    | none, none => decide (a.1 < b.1)
    | none, some _ => false
    | some _, none => true
    | some i, some j => decide (i < j)

/-- `SortedKeyValuesBy`, and `SortedKeyValues` if there is no order, with nothing excluded. -/
def sortedKeyValuesBy (rt : Runtime) (i : Nat) (order : Option (Bytes → Option Nat)) (h : Header) :
    List (Bytes × List Bytes) :=
  rt.sorter.sort (less rt order) (rt.range i h)

variable {rt : Runtime} {order : Option (Bytes → Option Nat)}

theorem less_ordering : TransitiveOrdering (less rt order) := by
  have hlt {a b c : Bytes} (hab : a < b) (hbc : b < c) : a < c := List.lt_trans hab hbc
  have hnot {a b c : Bytes} (hab : ¬ a < b) (hbc : ¬ b < c) : ¬ a < c :=
    fun hac => (List.not_lt.mpr (List.le_trans (List.not_lt.mp hbc) (List.not_lt.mp hab))) hac
  constructor
  · intro a
    unfold less
    cases order with
    | none => exact decide_eq_false (List.lt_irrefl a.1)
    | some order =>
      dsimp only
      cases order (rt.toLower a.1) with
      | none => exact decide_eq_false (List.lt_irrefl a.1)
      | some i => exact decide_eq_false (Nat.lt_irrefl i)
  · intro a b c
    unfold less
    cases order with
    | none =>
      simp only [decide_eq_true_eq]
      exact hlt
    | some order =>
      dsimp only
      cases order (rt.toLower a.1) <;> cases order (rt.toLower b.1) <;>
        cases order (rt.toLower c.1) <;> simp only [decide_eq_true_eq] <;>
        first
          | exact hlt
          | exact Nat.lt_trans
          | simp
  · intro a b c
    unfold less
    cases order with
    | none =>
      simp only [decide_eq_false_iff_not]
      exact hnot
    | some order =>
      dsimp only
      cases order (rt.toLower a.1) <;> cases order (rt.toLower b.1) <;>
        cases order (rt.toLower c.1) <;> simp only [decide_eq_false_iff_not] <;>
        first
          | exact hnot
          | omega
          | simp

theorem orderOf_concat (headerOrder : List Bytes) (v name : Bytes) :
    orderOf (headerOrder ++ [v]) name =
      if v = name then some headerOrder.length else orderOf headerOrder name := by
  unfold orderOf
  rw [zipIdx_append, foldl_append, Nat.zero_add]
  rfl

variable {headerOrder : List Bytes} {name : Bytes} {a b : Bytes × List Bytes}

theorem orderOf_eq_none_iff : orderOf headerOrder name = none ↔ name ∉ headerOrder := by
  induction headerOrder using reverseRecOn with
  | nil => exact ⟨fun _ => not_mem_nil, fun _ => rfl⟩
  | append_singleton headerOrder v ih =>
    rw [orderOf_concat, mem_append, mem_singleton, not_or]
    by_cases hv : v = name
    · rw [if_pos hv]
      exact ⟨nofun, fun h => (h.2 hv.symm).elim⟩
    · rw [if_neg hv, ih]
      exact (and_iff_left fun h => hv h.symm).symm

/-- A place in the order list has the name at that place. -/
theorem getElem?_of_orderOf {i : Nat} (h : orderOf headerOrder name = some i) :
    headerOrder[i]? = some name := by
  induction headerOrder using reverseRecOn with
  | nil => cases h
  | append_singleton headerOrder v ih =>
    rw [orderOf_concat] at h
    split at h
    · rename_i hv
      cases h
      rw [List.getElem?_concat_length, hv]
    · have hi := ih h
      rw [List.getElem?_append_left (List.getElem?_eq_some_iff.mp hi).1, hi]

/-- Two keys that are not told apart by the order are told apart by their bytes, unless they
are the same up to their case and the list names them. -/
theorem less_of_untied {headerOrder : Option (List Bytes)} (hne : a.1 ≠ b.1)
    (huntied : ∀ l, headerOrder = some l → rt.toLower a.1 = rt.toLower b.1 → rt.toLower a.1 ∉ l)
    (h : less rt (headerOrder.map orderOf) a b = false) :
    less rt (headerOrder.map orderOf) b a = true := by
  have hbytes (hlt : decide (a.1 < b.1) = false) : decide (b.1 < a.1) = true := by
    rw [decide_eq_false_iff_not] at hlt
    exact decide_eq_true (Std.lt_of_le_of_ne (List.not_lt.mp hlt) hne.symm)
  unfold less at h ⊢
  cases headerOrder with
  | none => exact hbytes h
  | some headerOrder =>
    dsimp only [Option.map_some] at h ⊢
    cases ha : orderOf headerOrder (rt.toLower a.1) with
    | none =>
      cases hb : orderOf headerOrder (rt.toLower b.1) with
      | none =>
        rw [ha, hb] at h
        exact hbytes h
      | some j => rfl
    | some i =>
      cases hb : orderOf headerOrder (rt.toLower b.1) with
      | none =>
        rw [ha, hb] at h
        cases h
      | some j =>
        rw [ha, hb, decide_eq_false_iff_not] at h
        refine decide_eq_true (Nat.lt_of_le_of_ne (Nat.not_lt.mp h) fun heq => ?_)
        have hplace := getElem?_of_orderOf ha
        rw [← heq] at hplace
        have hsame := Option.some.inj (hplace.symm.trans (getElem?_of_orderOf hb))
        exact huntied headerOrder rfl hsame (mem_of_getElem? hplace)

/-- Keys that differ in lower case are told apart. -/
theorem less_total {headerOrder : Option (List Bytes)} (hne : a.1 ≠ b.1)
    (hlower : rt.toLower a.1 ≠ rt.toLower b.1) (h : less rt (headerOrder.map orderOf) a b = false) :
    less rt (headerOrder.map orderOf) b a = true :=
  less_of_untied hne (fun _ _ heq => (hlower heq).elim) h

theorem sortedKeyValuesBy_perm (i : Nat) (h : Header) : (sortedKeyValuesBy rt i order h).Perm h :=
  (rt.sorter.perm _ _).trans (rt.range_perm i h)

end Fhttp.Http
