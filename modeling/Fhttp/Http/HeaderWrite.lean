import Fhttp.Http.Header

/-!
# Writing a header

`Header.writeSubset` of `header.go`, and `Write` and `WriteSubset` through it.  The maps that it
reads are shared with its callers, so that they are kept in a `Memory` and passed by reference;
what it writes is the list of its lines.

Two runs of the program may go through a map in different orders.  `writeSubset_lines_eq_iff` says
for which headers the lines are the same all the same.
-/

namespace Fhttp.Http

open Hpack (Bytes ascii)
open Lib (Sorter)
open Http2 (Header trimString)
open Function (update update_of_ne update_self)
open List

/-! ## Maps in memory -/

/-- A map of keys to exclude. -/
abbrev ExcludeMap := Bytes → Option Bool

/-- The maps of the program.  A reference to a map is its place here, and none for a nil map. -/
structure Memory where
  headers : List Header
  excludes : List ExcludeMap

namespace Memory

def header (mem : Memory) (r : Option Nat) : Header := (r.bind fun r => mem.headers[r]?).getD []

def exclude (mem : Memory) (r : Option Nat) : ExcludeMap :=
  (r.bind fun r => mem.excludes[r]?).getD fun _ => none

/-- `exclude[k]`, which is false for a key that is not in the map. -/
def excluded (mem : Memory) (r : Option Nat) (k : Bytes) : Bool := (mem.exclude r k).getD false

/-- `make(map[string]bool)`. -/
def makeExclude (mem : Memory) : Memory := { mem with excludes := mem.excludes ++ [fun _ => none] }

/-- `dst[k] = v`. -/
def setExclude (mem : Memory) (dst : Nat) (k : Bytes) (v : Bool) : Memory :=
  { mem with excludes := mem.excludes.modify dst fun m => Function.update m k (some v) }

/-- `maps.Copy(dst, src)`. -/
def copyExclude (mem : Memory) (dst : Nat) (src : Option Nat) : Memory :=
  { mem with excludes := mem.excludes.modify dst fun m k => (mem.exclude src k).or (m k) }

/-- A copy of the excluded keys, with the magic keys added to it. -/
def excludeMagic (mem : Memory) (exclude : Option Nat) : Memory :=
  ((mem.makeExclude.copyExclude mem.excludes.length exclude).setExclude mem.excludes.length
    headerOrderKey true).setExclude mem.excludes.length pHeaderOrderKey true

end Memory

/-! ## Lines -/

/-- `headerNewlineToSpace.Replace`. -/
def newlineToSpace (v : Bytes) : Bytes := v.map fun b => if b = 0x0a ∨ b = 0x0d then 0x20 else b

/-- The lines of the entries: a key and a value each. -/
def headerLines (kvs : List (Bytes × List Bytes)) : List (Bytes × Bytes) :=
  kvs.flatMap fun kv => kv.2.map fun v => (kv.1, trimString (newlineToSpace v))

/-- A line on the wire. -/
def wireLine (line : Bytes × Bytes) : Bytes := line.1 ++ ascii ": " ++ line.2 ++ ascii "\r\n"

/-- The entries that are not excluded, sorted. -/
def sortedSubset (rt : Runtime) (i : Nat) (order : Option (Bytes → Option Nat))
    (exclude : Bytes → Bool) (h : Header) : List (Bytes × List Bytes) :=
  rt.sorter.sort (less rt order) ((rt.range i h).filter fun kv => !exclude kv.1)

/-- `Header.writeSubset`, in the `i`-th `range`. -/
def writeSubset (rt : Runtime) (i : Nat) (mem : Memory) (h exclude : Option Nat) :
    Memory × List (Bytes × Bytes) :=
  match (mem.header h).get? headerOrderKey with
  | some headerOrder =>
    let mem' := mem.excludeMagic exclude
    (mem', headerLines (sortedSubset rt i (some (orderOf headerOrder))
      (mem'.excluded (some mem.excludes.length)) (mem'.header h)))
  | none => (mem, headerLines (sortedSubset rt i none (mem.excluded exclude) (mem.header h)))

/-- `Header.Write`. -/
def write (rt : Runtime) (i : Nat) (mem : Memory) (h : Option Nat) :
    Memory × List (Bytes × Bytes) :=
  writeSubset rt i mem h none

/-! ## The keys that are written -/

/-- The keys for the orders. -/
def isMagic (key : Bytes) : Bool := key == headerOrderKey || key == pHeaderOrderKey

/-- The keys that a write leaves out: the magic ones only if there is an order list. -/
def leftOut (h : Header) (exclude : Bytes → Bool) (key : Bytes) : Bool :=
  exclude key || (h.get? headerOrderKey).isSome && isMagic key

/-- The lines of a header. -/
def subsetLines (rt : Runtime) (i : Nat) (h : Header) (exclude : Bytes → Bool) :
    List (Bytes × Bytes) :=
  headerLines (sortedSubset rt i ((h.get? headerOrderKey).map orderOf) (leftOut h exclude) h)

namespace Memory

variable {mem : Memory}

theorem exclude_makeExclude (r : Option Nat) : mem.makeExclude.exclude r = mem.exclude r := by
  cases r with
  | none => rfl
  | some r =>
    show ((mem.excludes ++ [fun _ => none])[r]?).getD _ = (mem.excludes[r]?).getD _
    rcases Nat.lt_trichotomy r mem.excludes.length with hr | rfl | hr
    · rw [getElem?_append_left hr]
    · rw [getElem?_concat_length, getElem?_eq_none (Nat.le_refl _)]
      rfl
    · rw [getElem?_eq_none (by rw [length_append]; exact hr), getElem?_eq_none (Nat.le_of_lt hr)]

theorem modify_concat {α : Type} (l : List α) (a : α) (f : α → α) :
    (l ++ [a]).modify l.length f = l ++ [f a] := by
  induction l with
  | nil => rfl
  | cons b l ih => rw [cons_append, length_cons, modify_succ_cons, ih]; rfl

/-- The copy is a new map, next to those that were there. -/
theorem excludes_excludeMagic (exclude : Option Nat) :
    (mem.excludeMagic exclude).excludes = mem.excludes ++
      [update (update (mem.exclude exclude) headerOrderKey (some true))
        pHeaderOrderKey (some true)] := by
  have hcopy : (mem.makeExclude.copyExclude mem.excludes.length exclude).excludes =
      mem.excludes ++ [mem.exclude exclude] := by
    refine (modify_concat mem.excludes _ _).trans ?_
    simp only [exclude_makeExclude, Option.or_none]
  unfold excludeMagic setExclude
  rw [hcopy, modify_concat, modify_concat]

theorem excluded_excludeMagic (exclude : Option Nat) {h : Header}
    (hlookup : (h.get? headerOrderKey).isSome = true) :
    (mem.excludeMagic exclude).excluded (some mem.excludes.length) =
      leftOut h (mem.excluded exclude) := by
  funext k
  have hmap : (mem.excludeMagic exclude).exclude (some mem.excludes.length) =
      update (update (mem.exclude exclude) headerOrderKey (some true))
        pHeaderOrderKey (some true) := by
    show ((mem.excludeMagic exclude).excludes[mem.excludes.length]?).getD _ = _
    rw [excludes_excludeMagic, getElem?_concat_length, Option.getD_some]
  rw [excluded, hmap, leftOut, hlookup, Bool.true_and, isMagic]
  by_cases hp : k = pHeaderOrderKey
  · rw [hp, update_self, Option.getD_some, beq_self_eq_true, Bool.or_true, Bool.or_true]
  · rw [update_of_ne hp, beq_eq_false_iff_ne.mpr hp, Bool.or_false]
    by_cases hk : k = headerOrderKey
    · rw [hk, update_self, Option.getD_some, beq_self_eq_true, Bool.or_true]
    · rw [update_of_ne hk, beq_eq_false_iff_ne.mpr hk, Bool.or_false]
      rfl

end Memory

variable {rt : Runtime} {mem : Memory} {h exclude : Option Nat}

section

variable (rt : Runtime) (i : Nat) (mem : Memory) (h exclude : Option Nat)

/-- What is written depends on the header and on the excluded keys only. -/
theorem writeSubset_lines :
    (writeSubset rt i mem h exclude).2 =
      subsetLines rt i (mem.header h) (mem.excluded exclude) := by
  unfold writeSubset subsetLines
  cases hlookup : (mem.header h).get? headerOrderKey with
  | none =>
    have hleft : leftOut (mem.header h) (mem.excluded exclude) = mem.excluded exclude := by
      funext k
      rw [leftOut, hlookup, Option.isSome_none, Bool.false_and, Bool.or_false]
    rw [hleft]
    rfl
  | some headerOrder =>
    have hexcl : (mem.excludeMagic exclude).excluded (some mem.excludes.length) =
        leftOut (mem.header h) (mem.excluded exclude) :=
      Memory.excluded_excludeMagic exclude (by rw [hlookup]; rfl)
    dsimp only
    rw [hexcl]
    rfl

end

/-! ## Runs that go through the map in different orders -/

/-- Two entries with lines of their own whose keys the order list names, both, at one place. -/
def Tied (rt : Runtime) (h : Header) (exclude : Bytes → Bool) (a b : Bytes × List Bytes) : Prop :=
  a ∈ h ∧ b ∈ h ∧ a.1 ≠ b.1 ∧ rt.toLower a.1 = rt.toLower b.1 ∧
    (∃ headerOrder, h.get? headerOrderKey = some headerOrder ∧ rt.toLower a.1 ∈ headerOrder) ∧
    (leftOut h exclude a.1 = false ∧ a.2 ≠ []) ∧ leftOut h exclude b.1 = false ∧ b.2 ≠ []

theorem headerLines_cons (kv : Bytes × List Bytes) (kvs : List (Bytes × List Bytes)) :
    headerLines (kv :: kvs) =
      kv.2.map (fun v => (kv.1, trimString (newlineToSpace v))) ++ headerLines kvs := rfl

/-- An entry without values has no lines. -/
theorem headerLines_filter (kvs : List (Bytes × List Bytes)) :
    headerLines (kvs.filter fun kv => !kv.2.isEmpty) = headerLines kvs := by
  induction kvs with
  | nil => rfl
  | cons kv kvs ih =>
    cases hempty : kv.2.isEmpty with
    | false =>
      rw [filter_cons_of_pos (by rw [hempty]; rfl), headerLines_cons, headerLines_cons, ih]
    | true =>
      rw [filter_cons_of_neg (by rw [hempty]; exact Bool.false_ne_true), ih, headerLines_cons,
        isEmpty_iff.mp hempty, map_nil, nil_append]

theorem sortedSubset_perm (i : Nat) (order : Option (Bytes → Option Nat)) (exclude : Bytes → Bool)
    (h : Header) : (sortedSubset rt i order exclude h).Perm (h.filter fun kv => !exclude kv.1) :=
  (rt.sorter.perm _ _).trans ((rt.range_perm i h).filter _)

section

variable {h : Header} {exclude : Bytes → Bool} (hmap : (h.map Prod.fst).Nodup)
  (huntied : ∀ a b, ¬ Tied rt h exclude a b)

include hmap huntied

/-- Entries that are not tied are sorted strictly, if those without lines are left out. -/
theorem sortedSubset_strict (i : Nat) :
    ((sortedSubset rt i ((h.get? headerOrderKey).map orderOf) (leftOut h exclude) h).filter
      fun kv => !kv.2.isEmpty).Pairwise
      fun a b => less rt ((h.get? headerOrderKey).map orderOf) a b = true := by
  have hperm : (sortedSubset rt i ((h.get? headerOrderKey).map orderOf) (leftOut h exclude)
      h).Perm (h.filter fun kv => !leftOut h exclude kv.1) := sortedSubset_perm i _ _ h
  have hsorted : (sortedSubset rt i ((h.get? headerOrderKey).map orderOf) (leftOut h exclude)
      h).Pairwise fun a b => less rt ((h.get? headerOrderKey).map orderOf) b a = false :=
    rt.sorter.sorted less_ordering _
  have hkeys : (sortedSubset rt i ((h.get? headerOrderKey).map orderOf) (leftOut h exclude)
      h).Pairwise fun a b => a.1 ≠ b.1 := by
    refine hperm.symm.pairwise ?_ fun hne => hne.symm
    exact (pairwise_map.mp hmap).filter _
  rw [pairwise_filter]
  refine (hsorted.and hkeys).imp_of_mem fun {a b} ha hb ⟨hle, hne⟩ hanil hbnil => ?_
  obtain ⟨hah, hain⟩ := mem_filter.mp (hperm.mem_iff.mp ha)
  obtain ⟨hbh, hbin⟩ := mem_filter.mp (hperm.mem_iff.mp hb)
  rw [Bool.not_eq_true'] at hain hbin
  rw [Bool.not_eq_true', isEmpty_eq_false_iff] at hanil hbnil
  refine less_of_untied hne.symm (fun headerOrder horder hlower hmem => ?_) hle
  exact huntied b a ⟨hbh, hah, hne.symm, hlower, ⟨headerOrder, horder, hmem⟩, ⟨hbin, hbnil⟩,
    hain, hanil⟩

/-- The lines of entries that are not tied do not depend on the order in the map. -/
theorem subsetLines_eq (i j : Nat) : subsetLines rt i h exclude = subsetLines rt j h exclude := by
  unfold subsetLines
  rw [← headerLines_filter, ← headerLines_filter (sortedSubset rt j _ _ _)]
  refine congrArg headerLines (Perm.eq_of_pairwise (fun a b _ _ hab hba => ?_)
    (sortedSubset_strict hmap huntied i) (sortedSubset_strict hmap huntied j) ?_)
  · rw [less_ordering.asymm hab] at hba
    cases hba
  · exact ((sortedSubset_perm i _ _ h).trans (sortedSubset_perm j _ _ h).symm).filter _

end

variable {kvs : List (Bytes × List Bytes)}

/-- Of two entries, the first one has the first line. -/
theorem find?_headerLines {a b : Bytes × List Bytes} (hsub : [a, b].Sublist kvs)
    (hkeys : (kvs.map Prod.fst).Nodup) (ha : a.2 ≠ []) :
    ((headerLines kvs).find? fun line => line.1 == a.1 || line.1 == b.1).map Prod.fst =
      some a.1 := by
  induction kvs with
  | nil => cases hsub
  | cons kv kvs ih =>
    rw [map_cons, nodup_cons] at hkeys
    rw [headerLines_cons]
    cases hsub with
    | cons _ hsub =>
      have hne (c : Bytes × List Bytes) (hc : c ∈ [a, b]) : (kv.1 == c.1) = false := by
        rw [beq_eq_false_iff_ne]
        intro heq
        exact hkeys.1 (heq ▸ mem_map_of_mem (hsub.subset hc))
      have hnone : (kv.2.map fun v => (kv.1, trimString (newlineToSpace v))).find?
          (fun line => line.1 == a.1 || line.1 == b.1) = none := by
        rw [find?_eq_none]
        intro line hline
        obtain ⟨v, -, rfl⟩ := mem_map.mp hline
        rw [hne a mem_cons_self, hne b (mem_cons_of_mem a mem_cons_self)]
        exact Bool.false_ne_true
      rw [find?_append, hnone, Option.none_or]
      exact ih hsub hkeys.2
    | cons_cons _ hsub =>
      obtain ⟨v, vs, hv⟩ := exists_cons_of_ne_nil ha
      rw [hv, map_cons, cons_append, find?_cons_of_pos]
      · rfl
      · rw [beq_self_eq_true, Bool.true_or]

/-- A runtime that goes through one map in two given ways, and sorts by insertion. -/
def twoWays (rt : Runtime) (h first second : Header) (hfirst : first.Perm h)
    (hsecond : second.Perm h) : Runtime where
  range i h' := if h' = h then (if i = 0 then first else second) else h'
  range_perm i h' := by
    split
    · rename_i heq
      rw [heq]
      split
      · exact hfirst
      · exact hsecond
    · exact Perm.refl h'
  sorter := .insertion
  toLower := rt.toLower
  toLower_ascii := rt.toLower_ascii
  equalFold := rt.equalFold
  equalFold_ascii := rt.equalFold_ascii

section

variable {h : Header} {exclude : Bytes → Bool} {a b : Bytes × List Bytes}
  (htied : Tied rt h exclude a b)

include htied

/-- Tied entries stay as the map has them. -/
theorem sublist_sort_of_tied (rest : Header) :
    [a, b].Sublist ((Sorter.insertion).sort (less rt ((h.get? headerOrderKey).map orderOf))
      ((a :: b :: rest).filter fun kv => !leftOut h exclude kv.1)) := by
  obtain ⟨-, -, -, hlower, ⟨headerOrder, hlookup, hmem⟩, ⟨ha, -⟩, hb, -⟩ := htied
  have hplace : orderOf headerOrder (rt.toLower a.1) ≠ none :=
    fun hnone => orderOf_eq_none_iff.mp hnone hmem
  obtain ⟨i, hi⟩ := Option.ne_none_iff_exists'.mp hplace
  rw [filter_cons_of_pos (by rw [ha]; rfl), filter_cons_of_pos (by rw [hb]; rfl), hlookup]
  refine pair_sublist_insertionSort ?_ (((nil_sublist _).cons_cons b).cons_cons a)
  show less rt (some (orderOf headerOrder)) b a = false
  rw [less, ← hlower, hi]
  exact decide_eq_false (Nat.lt_irrefl i)

/-- The one of two tied entries that comes first in the map has the first line. -/
theorem find?_lines_of_tied (hmap : (h.map Prod.fst).Nodup) {rest : Header}
    (hperm : (a :: b :: rest).Perm h) :
    ((headerLines ((Sorter.insertion).sort (less rt ((h.get? headerOrderKey).map orderOf))
      ((a :: b :: rest).filter fun kv => !leftOut h exclude kv.1))).find?
        fun line => line.1 == a.1 || line.1 == b.1).map Prod.fst = some a.1 := by
  refine find?_headerLines (sublist_sort_of_tied htied rest) ?_ htied.2.2.2.2.2.1.2
  have hkeys : ((a :: b :: rest).map Prod.fst).Nodup := (hperm.map Prod.fst).nodup_iff.mpr hmap
  refine ((Sorter.insertion.perm _ _).map Prod.fst).nodup_iff.mpr ?_
  exact hkeys.sublist (filter_sublist.map Prod.fst)

theorem Tied.symm : Tied rt h exclude b a := by
  obtain ⟨ha, hb, hne, hlower, horder, hina, hinb⟩ := htied
  exact ⟨hb, ha, hne.symm, hlower.symm, hlower ▸ horder, hinb, hina⟩

end

/-- The lines are the same in any two runs exactly if no two entries are tied. -/
theorem writeSubset_lines_eq_iff (rt : Runtime) (mem : Memory) (h exclude : Option Nat)
    (hmap : ((mem.header h).map Prod.fst).Nodup) :
    (∀ rt' : Runtime, rt'.toLower = rt.toLower → ∀ i j,
      (writeSubset rt' i mem h exclude).2 = (writeSubset rt' j mem h exclude).2) ↔
      ∀ a b, ¬ Tied rt (mem.header h) (mem.excluded exclude) a b := by
  constructor
  · intro hsame a b htied
    have hbrest : b ∈ (mem.header h).erase a :=
      (mem_erase_of_ne fun heq => htied.2.2.1 (congrArg Prod.fst heq).symm).mpr htied.2.1
    have hfirst : (a :: b :: ((mem.header h).erase a).erase b).Perm (mem.header h) :=
      ((perm_cons_erase hbrest).symm.cons a).trans (perm_cons_erase htied.1).symm
    have hsecond : (b :: a :: ((mem.header h).erase a).erase b).Perm (mem.header h) :=
      (Perm.swap a b _).trans hfirst
    have hrun := hsame (twoWays rt (mem.header h) _ _ hfirst hsecond) rfl 0 1
    rw [writeSubset_lines, writeSubset_lines] at hrun
    have hlines := congrArg
      (fun lines => (lines.find? fun line => line.1 == a.1 || line.1 == b.1).map Prod.fst) hrun
    have hway (i : Nat) : (twoWays rt (mem.header h) _ _ hfirst hsecond).range i (mem.header h) =
        if i = 0 then a :: b :: ((mem.header h).erase a).erase b
        else b :: a :: ((mem.header h).erase a).erase b := if_pos rfl
    unfold subsetLines sortedSubset at hlines
    rw [hway, if_pos rfl, hway, if_neg Nat.one_ne_zero] at hlines
    have hone := find?_lines_of_tied htied hmap hfirst
    have hother := find?_lines_of_tied htied.symm hmap hsecond
    simp only [Bool.or_comm (_ == b.1)] at hother
    exact htied.2.2.1 (Option.some.inj (hone.symm.trans (hlines.trans hother)))
  · intro huntied rt' hlower i j
    rw [writeSubset_lines, writeSubset_lines]
    refine subsetLines_eq hmap (fun a b htied => huntied a b ?_) i j
    unfold Tied at htied ⊢
    rwa [hlower] at htied

/-- A header with an order list that names two of its keys, which differ in their case. -/
def twoCases : Header :=
  [(headerOrderKey, [ascii "foo"]), (ascii "Foo", [ascii "1"]), (ascii "foo", [ascii "2"])]

theorem writeSubset_lines_eq_iff_twoCases :
    (∀ rt' : Runtime, rt'.toLower = Runtime.plain.toLower → ∀ i j,
      (writeSubset rt' i ⟨[twoCases], []⟩ (some 0) none).2 =
        (writeSubset rt' j ⟨[twoCases], []⟩ (some 0) none).2) ↔
      ∀ a b, ¬ Tied .plain twoCases (fun _ => false) a b :=
  writeSubset_lines_eq_iff .plain ⟨[twoCases], []⟩ (some 0) none (by decide)

/-- Two runs that write the two keys in different orders. -/
theorem writeSubset_lines_ne :
    (writeSubset (twoWays .plain twoCases twoCases twoCases.reverse (.refl _)
        twoCases.reverse_perm) 0 ⟨[twoCases], []⟩ (some 0) none).2 =
        [(ascii "Foo", ascii "1"), (ascii "foo", ascii "2")] ∧
      (writeSubset (twoWays .plain twoCases twoCases twoCases.reverse (.refl _)
        twoCases.reverse_perm) 1 ⟨[twoCases], []⟩ (some 0) none).2 =
        [(ascii "foo", ascii "2"), (ascii "Foo", ascii "1")] := by
  decide

/-! ## The bytes on the wire -/

/-- What `WriteSubset` writes. -/
def output (rt : Runtime) (i : Nat) (mem : Memory) (h exclude : Option Nat) : Bytes :=
  (writeSubset rt i mem h exclude).2.flatMap wireLine

def NoNewline (s : Bytes) : Prop := 0x0a ∉ s ∧ 0x0d ∉ s

/-- One line for each value of each key that is not left out, and no newline within a line. -/
def OneLineEach (mem : Memory) (h exclude : Option Nat) (out : Bytes) : Prop :=
  ∃ lines : List (Bytes × Bytes), out = lines.flatMap wireLine ∧
    lines.Perm (headerLines ((mem.header h).filter fun kv =>
      !leftOut (mem.header h) (mem.excluded exclude) kv.1)) ∧
    ∀ line ∈ lines, NoNewline line.1 ∧ NoNewline line.2

theorem noNewline_value (v : Bytes) : NoNewline (trimString (newlineToSpace v)) := by
  have hmem {b : UInt8} (hb : b ∈ trimString (newlineToSpace v)) : b ≠ 0x0a ∧ b ≠ 0x0d := by
    have hb' : b ∈ newlineToSpace v :=
      (dropWhile_sublist _).mem (mem_reverse.mp
        ((dropWhile_sublist _).mem (mem_reverse.mp hb)))
    obtain ⟨c, -, rfl⟩ := mem_map.mp hb'
    grind
  exact ⟨fun h => (hmem h).1 rfl, fun h => (hmem h).2 rfl⟩

theorem mem_headerLines {line : Bytes × Bytes} :
    line ∈ headerLines kvs ↔
      ∃ kv ∈ kvs, ∃ v ∈ kv.2, (kv.1, trimString (newlineToSpace v)) = line := by
  simp only [headerLines, mem_flatMap, mem_map]

/-- The output is safe exactly if no key that is written has a newline in it.  With an order list
or without one, every value of such a key has its line. -/
theorem output_oneLineEach_iff (rt : Runtime) (i : Nat) (mem : Memory) (h exclude : Option Nat) :
    OneLineEach mem h exclude (output rt i mem h exclude) ↔
      ∀ kv ∈ mem.header h, leftOut (mem.header h) (mem.excluded exclude) kv.1 = false →
        kv.2 ≠ [] → NoNewline kv.1 := by
  unfold OneLineEach output
  rw [writeSubset_lines]
  generalize mem.header h = h
  generalize mem.excluded exclude = exclude
  constructor
  · rintro ⟨lines, -, hlines, hclean⟩ kv hkv hin hne
    obtain ⟨v, hv⟩ := exists_mem_of_ne_nil _ hne
    have hwritten : kv ∈ h.filter fun kv => !leftOut h exclude kv.1 :=
      mem_filter.mpr ⟨hkv, by rw [hin]; rfl⟩
    exact (hclean _ (hlines.mem_iff.mpr (mem_headerLines.mpr ⟨kv, hwritten, v, hv, rfl⟩))).1
  · intro hall
    have hperm : (subsetLines rt i h exclude).Perm
        (headerLines (h.filter fun kv => !leftOut h exclude kv.1)) :=
      (sortedSubset_perm i _ _ h).flatMap_right _
    refine ⟨_, rfl, hperm, fun line hline => ?_⟩
    obtain ⟨kv, hkv, v, hv, rfl⟩ := mem_headerLines.mp (hperm.mem_iff.mp hline)
    obtain ⟨hkv, hin⟩ := mem_filter.mp hkv
    rw [Bool.not_eq_true'] at hin
    exact ⟨hall kv hkv hin (ne_nil_of_mem hv), noNewline_value v⟩

/-- A key with a newline is written as two lines. -/
theorem output_twoLines :
    output .plain 0 ⟨[[(ascii "A: b\r\nC", [ascii "d"])]], []⟩ (some 0) none =
        ascii "A: b\r\nC: d\r\n" ∧
      ¬ OneLineEach ⟨[[(ascii "A: b\r\nC", [ascii "d"])]], []⟩ (some 0) none
        (ascii "A: b\r\nC: d\r\n") := by
  refine ⟨by decide, ?_⟩
  rintro ⟨lines, -, hlines, hclean⟩
  have hmem : (ascii "A: b\r\nC", ascii "d") ∈ lines := hlines.mem_iff.mpr (by decide)
  exact (hclean _ hmem).1.1 (by decide)

end Fhttp.Http
