import Fhttp.Hpack.Tables
import Fhttp.Lib.Budget
import Fhttp.Lib.NewestIndex

/-!
# The invariant of the dynamic table

`HeaderFieldTable.Inv` says that `byName` and `byNameValue` are indexes of the
live entries in the sense of `Fhttp.Lib.NewestIndex`.  It does not depend on
the sizes, so it holds whether or not a `uint32` wraps.  `DynamicTable.Inv`
adds the size: it is the sum of the sizes of the live entries and within the
bound.  With that, `evict` keeps exactly the longest suffix of the entries
that fits (`DynamicTable.evict_ents`), in the sense of `Fhttp.Lib.Budget`.

`DynamicTable.run_spec` is the result for whole runs of `add` and
`setMaxSize` from the empty table.
-/

namespace Fhttp.Hpack

open Fhttp.Lib.Budget Fhttp.Lib.NewestIndex

/-! ## The lookup maps -/

namespace HeaderFieldTable

/-- Both maps point every live key to its newest entry, and hold no other
key. -/
structure Inv (t : HeaderFieldTable) : Prop where
  byName : Indexes HeaderField.name t.evictCount t.ents t.byName
  byNameValue : Indexes HeaderField.pair t.evictCount t.ents t.byNameValue

theorem inv_init : init.Inv where
  byName := by
    intro x id
    simp [init, Newest]
  byNameValue := by
    intro x id
    simp [init, Newest]

variable {t : HeaderFieldTable}

theorem Inv.addEntry (h : t.Inv) (f : HeaderField) :
    (t.addEntry f).Inv where
  byName := by
    have := h.byName.concat f
    rwa [Nat.add_comm t.evictCount t.ents.length] at this
  byNameValue := by
    have := h.byNameValue.concat f
    rwa [Nat.add_comm t.evictCount t.ents.length] at this

/-- An id is never zero, so the zero of a missing key is not one. -/
private theorem getD_eq_succ {o : Option Nat} {c : Nat} : o.getD 0 = c + 1 ↔ o = some (c + 1) := by
  cases o <;> simp

private theorem forgetAll_indexes (fs rest : List HeaderField) :
    ∀ (t : HeaderFieldTable) (c : Nat),
      Indexes HeaderField.name c (fs ++ rest) t.byName →
      Indexes HeaderField.pair c (fs ++ rest) t.byNameValue →
      Indexes HeaderField.name (c + fs.length) rest (t.forgetAll fs (c + 1)).byName ∧
        Indexes HeaderField.pair (c + fs.length) rest (t.forgetAll fs (c + 1)).byNameValue := by
  induction fs with
  | nil =>
    intro t c h1 h2
    exact ⟨h1, h2⟩
  | cons f fs ih =>
    intro t c h1 h2
    rw [forgetAll, List.length_cons, show c + (fs.length + 1) = c + 1 + fs.length by omega]
    refine ih (t.forget f (c + 1)) (c + 1) ?_ ?_
    · rw [List.cons_append] at h1
      simpa only [forget, getD_eq_succ] using h1.tail
    · rw [List.cons_append] at h2
      simpa only [forget, getD_eq_succ] using h2.tail

/-- The eviction of the `n` oldest entries keeps the maps right. -/
theorem Inv.evictOldest {t' : HeaderFieldTable} (h : t.Inv) {n : Nat}
    (he : t.evictOldest? n = some t') : t'.Inv := by
  have hn : n ≤ t.len := by
    by_contra hgt
    simp [evictOldest?, Nat.lt_of_not_le hgt] at he
  rw [evictOldest?_of_le hn] at he
  cases he
  have hlen : (t.ents.take n).length = n := List.length_take_of_le hn
  have hsplit : t.ents.take n ++ t.ents.drop n = t.ents := List.take_append_drop n t.ents
  have hidx := forgetAll_indexes (t.ents.take n) (t.ents.drop n) t t.evictCount
    (by rw [hsplit]; exact h.byName) (by rw [hsplit]; exact h.byNameValue)
  rw [hlen] at hidx
  exact ⟨hidx.1, hidx.2⟩

theorem inv_foldl_addEntry (l : List HeaderField) (h : t.Inv) : (l.foldl addEntry t).Inv := by
  induction l generalizing t with
  | nil => exact h
  | cons f l ih => exact ih (h.addEntry f)

end HeaderFieldTable

theorem staticTable_inv : staticTable.Inv :=
  HeaderFieldTable.inv_foldl_addEntry _ HeaderFieldTable.inv_init

/-! ## `search` -/

namespace HeaderFieldTable

/-- The position in the table that an HPACK index names. -/
def indexOf (static : Bool) (t : HeaderFieldTable) (k : Nat) : Nat :=
  if static then k + 1 else t.len - k

variable {t : HeaderFieldTable}

theorem indexOf_pos {static : Bool} {k : Nat} (hk : k < t.len) : 0 < t.indexOf static k := by
  unfold indexOf
  split <;> omega

/-- The id of a live entry has an index, and the index names that entry. -/
theorem idToIndex?_newest {K : Type} {key : HeaderField → K} {x : K} {id : Nat} (static : Bool)
    (h : Newest key t.evictCount t.ents x id) :
    ∃ k g, t.ents[k]? = some g ∧ key g = x ∧
      t.idToIndex? static id = some (t.indexOf static k) := by
  obtain ⟨k, g, hg, hkey, rfl, _⟩ := h
  refine ⟨k, g, hg, hkey, ?_⟩
  have hle : ¬ t.evictCount + k + 1 ≤ t.evictCount := by omega
  have hsub : t.evictCount + k + 1 - t.evictCount - 1 = k := by omega
  simp only [idToIndex?, if_neg hle, hsub, indexOf]
  cases static <;> rfl

/-- What `search` answers on a table with right maps.  It does not panic.  The
index is zero exactly when no live entry has the name, and otherwise it is the
index of an entry with that name; the flag is set exactly when `f` is not
sensitive and a live entry has its name and value, and then the index is that
of such an entry. -/
theorem search?_spec (h : t.Inv) (static : Bool) (f : HeaderField) :
    ∃ i m, t.search? static f = some (i, m) ∧
      (i ≠ 0 ↔ ∃ g ∈ t.ents, g.name = f.name) ∧
      (m = true ↔ f.sensitive = false ∧ ∃ g ∈ t.ents, g.pair = f.pair) ∧
      (i ≠ 0 → ∃ k g, t.ents[k]? = some g ∧ g.name = f.name ∧
        (m = true → g.value = f.value) ∧ i = t.indexOf static k) := by
  have hlt : ∀ {k : Nat} {g : HeaderField}, t.ents[k]? = some g → k < t.len :=
    fun hg => (List.getElem?_eq_some_iff.mp hg).1
  by_cases hpair : f.sensitive = false ∧ ∃ g ∈ t.ents, g.pair = f.pair
  · obtain ⟨hs, hex⟩ := hpair
    obtain ⟨id, hid⟩ := (exists_newest_iff HeaderField.pair t.evictCount t.ents f.pair).mpr hex
    obtain ⟨k, g, hg, hkey, hidx⟩ := idToIndex?_newest static hid
    have hmap := (h.byNameValue _ _).mpr hid
    have hid0 : id ≠ 0 := Nat.ne_of_gt (Nat.lt_of_le_of_lt (Nat.zero_le _) hid.lt)
    have hname : g.name = f.name := congrArg PairNameValue.name hkey
    have hvalue : g.value = f.value := congrArg PairNameValue.value hkey
    have hi0 : t.indexOf static k ≠ 0 := Nat.ne_of_gt (indexOf_pos (hlt hg))
    refine ⟨t.indexOf static k, true, ?_, ?_, ?_, ?_⟩
    · simp [search?, hs, hmap, hid0, hidx]
    · exact iff_of_true hi0 ⟨g, List.mem_of_getElem? hg, hname⟩
    · exact iff_of_true rfl ⟨hs, hex⟩
    · exact fun _ => ⟨k, g, hg, hname, fun _ => hvalue, rfl⟩
  · have hmiss : (if !f.sensitive then (t.byNameValue f.pair).getD 0 else 0) = 0 := by
      by_cases hs : f.sensitive = false
      · have hnone : t.byNameValue f.pair = none := by
          cases hm : t.byNameValue f.pair with
          | none => rfl
          | some id =>
            have hex := (exists_newest_iff HeaderField.pair t.evictCount t.ents f.pair).mp
              ⟨id, (h.byNameValue _ _).mp hm⟩
            exact absurd ⟨hs, hex⟩ hpair
        simp [hs, hnone]
      · simp [hs]
    by_cases hname : ∃ g ∈ t.ents, g.name = f.name
    · obtain ⟨id, hid⟩ :=
        (exists_newest_iff HeaderField.name t.evictCount t.ents f.name).mpr hname
      obtain ⟨k, g, hg, hkey, hidx⟩ := idToIndex?_newest static hid
      have hmap := (h.byName _ _).mpr hid
      have hid0 : id ≠ 0 := Nat.ne_of_gt (Nat.lt_of_le_of_lt (Nat.zero_le _) hid.lt)
      have hi0 : t.indexOf static k ≠ 0 := Nat.ne_of_gt (indexOf_pos (hlt hg))
      refine ⟨t.indexOf static k, false, ?_, ?_, ?_, ?_⟩
      · simp only [search?, hmiss]
        simp [hmap, hid0, hidx]
      · exact iff_of_true hi0 hname
      · exact iff_of_false (by simp) hpair
      · exact fun _ => ⟨k, g, hg, hkey, by simp, rfl⟩
    · have hnone : t.byName f.name = none := by
        cases hm : t.byName f.name with
        | none => rfl
        | some id =>
          exact absurd ((exists_newest_iff HeaderField.name t.evictCount t.ents f.name).mp
            ⟨id, (h.byName _ _).mp hm⟩) hname
      refine ⟨0, false, ?_, ?_, ?_, ?_⟩
      · simp only [search?, hmiss]
        simp [hnone]
      · exact iff_of_false (by simp) hname
      · exact iff_of_false (by simp) hpair
      · exact fun h0 => absurd rfl h0

end HeaderFieldTable

/-! ## Sizes -/

/-- The weight of an entry in the budget of the table. -/
def HeaderField.weight (f : HeaderField) : Nat := f.size.toNat

namespace DynamicTable

/-- The invariant of a dynamic table whose sizes have not wrapped. -/
structure Inv (dt : DynamicTable) : Prop where
  table : dt.table.Inv
  size_eq : dt.size.toNat = weight HeaderField.weight dt.table.ents
  size_le : dt.size ≤ dt.maxSize

private theorem evictLoop_spec (m : UInt32) (fs : List HeaderField) :
    ∀ (size : UInt32) (n : Nat), size.toNat = weight HeaderField.weight fs →
      ∃ j, (evictLoop m size fs n).2 = n + j ∧
        fs.drop j = fit HeaderField.weight m.toNat fs ∧
        (evictLoop m size fs n).1.toNat =
          weight HeaderField.weight (fit HeaderField.weight m.toNat fs) := by
  induction fs with
  | nil =>
    intro size n hsize
    exact ⟨0, rfl, rfl, hsize⟩
  | cons f fs ih =>
    intro size n hsize
    rw [evictLoop, fit]
    by_cases hgt : size > m
    · have hgt' : ¬ weight HeaderField.weight (f :: fs) ≤ m.toNat := by
        rw [← hsize]
        exact Nat.not_le.mpr (UInt32.lt_iff_toNat_lt.mp hgt)
      have hle : f.size ≤ size := by
        rw [UInt32.le_iff_toNat_le, hsize, weight_cons]
        exact Nat.le_add_right _ _
      have hsub : (size - f.size).toNat = weight HeaderField.weight fs := by
        rw [UInt32.toNat_sub_of_le _ _ hle, hsize, weight_cons]
        exact Nat.add_sub_cancel_left _ _
      obtain ⟨j, hj, hdrop, hw⟩ := ih (size - f.size) (n + 1) hsub
      rw [if_pos hgt, if_neg hgt']
      exact ⟨j + 1, by omega, hdrop, hw⟩
    · have hle : weight HeaderField.weight (f :: fs) ≤ m.toNat := by
        rw [← hsize]
        exact Nat.not_lt.mp (fun h => hgt (UInt32.lt_iff_toNat_lt.mpr h))
      rw [if_neg hgt, if_pos hle]
      exact ⟨0, rfl, rfl, hsize⟩

variable {dt : DynamicTable} {f : HeaderField}

theorem evict_table_inv (h : dt.table.Inv) : dt.evict.table.Inv := by
  have heq := dt.evict?_eq
  simp only [evict?, Option.map_eq_some_iff] at heq
  obtain ⟨t, ht, hdt⟩ := heq
  rw [← hdt]
  exact h.evictOldest ht

/-- `evict` keeps the longest suffix of the entries that fits the bound. -/
theorem evict_ents (dt : DynamicTable)
    (hsize : dt.size.toNat = weight HeaderField.weight dt.table.ents) :
    dt.evict.table.ents = fit HeaderField.weight dt.maxSize.toNat dt.table.ents ∧
      dt.evict.size.toNat = weight HeaderField.weight dt.evict.table.ents := by
  obtain ⟨j, hj, hdrop, hw⟩ := evictLoop_spec dt.maxSize dt.table.ents dt.size 0 hsize
  rw [Nat.zero_add] at hj
  rw [evict_eq]
  simp only [hj, hdrop, hw, and_self]

/-- `evict` makes the invariant from right maps and a right size. -/
theorem inv_evict (dt : DynamicTable) (ht : dt.table.Inv)
    (hsize : dt.size.toNat = weight HeaderField.weight dt.table.ents) : dt.evict.Inv where
  table := evict_table_inv ht
  size_eq := (dt.evict_ents hsize).2
  size_le := by
    rw [UInt32.le_iff_toNat_le, (dt.evict_ents hsize).2, (dt.evict_ents hsize).1, evict_maxSize]
    exact weight_fit_le _ _ _

theorem Inv.setMaxSize (h : dt.Inv) (v : UInt32) : (dt.setMaxSize v).Inv :=
  inv_evict { dt with maxSize := v } h.table h.size_eq

theorem setMaxSize_ents (h : dt.Inv) (v : UInt32) :
    (dt.setMaxSize v).table.ents = fit HeaderField.weight v.toNat dt.table.ents :=
  (evict_ents { dt with maxSize := v } h.size_eq).1

section

variable (h : dt.Inv) (hfit : dt.size.toNat + f.entrySize < 2 ^ 32)

include h hfit

/-- The size after `addEntry` is right when the sum does not wrap. -/
private theorem add_size_eq :
    (dt.size + f.size).toNat = weight HeaderField.weight (dt.table.addEntry f).ents := by
  have hf : f.size.toNat = f.entrySize := HeaderField.size_toNat_of_lt (by omega)
  rw [UInt32.toNat_add, Nat.mod_eq_of_lt (by rw [hf]; exact hfit),
    HeaderFieldTable.addEntry_ents, weight_append, h.size_eq, weight_cons, weight_nil,
    Nat.add_zero]
  rfl

theorem Inv.add : (dt.add f).Inv :=
  inv_evict { dt with table := dt.table.addEntry f, size := dt.size + f.size }
    (h.table.addEntry f) (add_size_eq h hfit)

theorem add_ents :
    (dt.add f).table.ents =
      fit HeaderField.weight dt.maxSize.toNat (dt.table.ents ++ [f]) :=
  (evict_ents { dt with table := dt.table.addEntry f, size := dt.size + f.size }
    (add_size_eq h hfit)).1

end

theorem inv_empty : empty.Inv where
  table := HeaderFieldTable.inv_init
  size_eq := rfl
  size_le := UInt32.le_refl _

/-! ## Runs -/

/-- A call on a dynamic table. -/
inductive Op where
  | add (f : HeaderField)
  | setMaxSize (v : UInt32)

/-- One call.  `none` is a panic. -/
def step? (dt : DynamicTable) : Op → Option DynamicTable
  | .add f => dt.add? f
  | .setMaxSize v => dt.setMaxSize? v

/-- A sequence of calls.  `none` is a panic. -/
def run? (dt : DynamicTable) : List Op → Option DynamicTable
  | [] => some dt
  | op :: ops => (dt.step? op).bind fun dt' => dt'.run? ops

/-- No call of the sequence makes the sum of the entry sizes wrap. -/
def SizesFit (dt : DynamicTable) : List Op → Prop
  | [] => True
  | .add f :: ops => dt.size.toNat + f.entrySize < 2 ^ 32 ∧ (dt.add f).SizesFit ops
  | .setMaxSize v :: ops => (dt.setMaxSize v).SizesFit ops

/-- The call as an event of a queue with a budget. -/
def Op.event : Op → Event HeaderField
  | .add f => .arrive f
  | .setMaxSize v => .budget v.toNat

private theorem run?_live (ops : List Op) :
    ∀ dt : DynamicTable, dt.Inv → dt.SizesFit ops →
      ∃ dt', dt.run? ops = some dt' ∧ dt'.Inv ∧
        dt'.table.ents =
          live HeaderField.weight dt.maxSize.toNat dt.table.ents (ops.map Op.event) := by
  induction ops with
  | nil =>
    intro dt h _
    exact ⟨dt, rfl, h, rfl⟩
  | cons op ops ih =>
    intro dt h hfit
    cases op with
    | add f =>
      obtain ⟨hf, hfit'⟩ := hfit
      obtain ⟨dt', hrun, hinv, hlive⟩ := ih (dt.add f) (h.add hf) hfit'
      refine ⟨dt', ?_, hinv, ?_⟩
      · rw [run?, step?, add?_eq, Option.bind_some, hrun]
      · rw [hlive, add_ents h hf, add_maxSize]
        rfl
    | setMaxSize v =>
      obtain ⟨dt', hrun, hinv, hlive⟩ := ih (dt.setMaxSize v) (h.setMaxSize v) hfit
      refine ⟨dt', ?_, hinv, ?_⟩
      · rw [run?, step?, setMaxSize?_eq, Option.bind_some, hrun]
      · rw [hlive, setMaxSize_ents h, setMaxSize_maxSize]
        rfl

/-- Every run of `add` and `setMaxSize` from the empty table.  The run does not
panic.  The size is the sum of the entry sizes and within the bound.  The live
entries are the additions after the first `k`, for the least `k` that the
successive limits allowed at every point of the run.  The maps point every live
name and pair to its newest entry and hold no other key.  `search` does not
panic either; its index is not zero exactly when a live entry has the name, and
then it names an entry with that name, and with that value when the flag says
so. -/
theorem run_spec (ops : List Op) (hfit : empty.SizesFit ops) :
    ∃ dt, empty.run? ops = some dt ∧
      dt.size.toNat = (dt.table.ents.map fun f => f.size.toNat).sum ∧
      dt.size ≤ dt.maxSize ∧
      (∃ k, dt.table.ents = (arrivals (ops.map Op.event)).drop k ∧
        Allowed HeaderField.weight 0 (ops.map Op.event) k ∧
        ∀ j, Allowed HeaderField.weight 0 (ops.map Op.event) j → k ≤ j) ∧
      (∀ name id, dt.table.byName name = some id ↔
        Newest HeaderField.name dt.table.evictCount dt.table.ents name id) ∧
      (∀ p id, dt.table.byNameValue p = some id ↔
        Newest HeaderField.pair dt.table.evictCount dt.table.ents p id) ∧
      ∀ f, ∃ i m, dt.table.search? false f = some (i, m) ∧
        (i ≠ 0 ↔ ∃ g ∈ dt.table.ents, g.name = f.name) ∧
        (m = true ↔ f.sensitive = false ∧ ∃ g ∈ dt.table.ents, g.pair = f.pair) ∧
        (i ≠ 0 → i ≤ dt.table.len ∧ ∃ g, dt.table.ents[dt.table.len - i]? = some g ∧
          g.name = f.name ∧ (m = true → g.value = f.value)) := by
  obtain ⟨dt, hrun, hinv, hlive⟩ := run?_live ops empty inv_empty hfit
  refine ⟨dt, hrun, hinv.size_eq, hinv.size_le, ?_, hinv.table.byName, hinv.table.byNameValue,
    fun f => ?_⟩
  · rw [hlive]
    exact live_longest HeaderField.weight 0 (ops.map Op.event)
  · obtain ⟨i, m, hsearch, hi, hm, hentry⟩ := HeaderFieldTable.search?_spec hinv.table false f
    refine ⟨i, m, hsearch, hi, hm, fun h0 => ?_⟩
    obtain ⟨k, g, hg, hname, hvalue, rfl⟩ := hentry h0
    have hk : k < dt.table.len := (List.getElem?_eq_some_iff.mp hg).1
    have hback : dt.table.len - (dt.table.len - k) = k := by omega
    refine ⟨Nat.sub_le _ _, g, ?_, hname, hvalue⟩
    rw [HeaderFieldTable.indexOf, if_neg (by simp), hback]
    exact hg

/-- `run_spec` at a run in which a lower limit evicts the older of two
entries. -/
theorem run_spec_evicting :
    empty.SizesFit [.setMaxSize 100, .add ⟨ascii "a", ascii "1", false⟩,
        .add ⟨ascii "b", ascii "2", false⟩, .setMaxSize 40] ∧
      ∃ dt, empty.run? [.setMaxSize 100, .add ⟨ascii "a", ascii "1", false⟩,
          .add ⟨ascii "b", ascii "2", false⟩, .setMaxSize 40] = some dt ∧
        dt.size.toNat = (dt.table.ents.map fun f => f.size.toNat).sum ∧
        dt.size ≤ dt.maxSize := by
  have hfit : empty.SizesFit [.setMaxSize 100, .add ⟨ascii "a", ascii "1", false⟩,
      .add ⟨ascii "b", ascii "2", false⟩, .setMaxSize 40] :=
    ⟨by decide +kernel, by decide +kernel, trivial⟩
  obtain ⟨dt, hrun, hsize, hle, _⟩ := run_spec _ hfit
  exact ⟨hfit, dt, hrun, hsize, hle⟩

end DynamicTable

end Fhttp.Hpack
