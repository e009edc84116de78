import Fhttp.Hpack.Basic

/-!
# The header field tables of package `hpack`

The model of `http2/hpack/tables.go` and of the `dynamicTable` of
`http2/hpack/hpack.go`.

A Go map is a function to `Option`: a read of a missing key gives zero, which
is `Option.getD 0`.  The `uint32`
sizes wrap, as they do in Go.  The ids and the evict count are natural
numbers; `tables.go` explains why the `uint64` counter is not expected to
overflow.

A function that can panic returns `Option`, and `none` is the panic.  The
names of those functions end in `?`.  `evict?` never panics
(`DynamicTable.evict?_isSome`), so `DynamicTable.add` and
`DynamicTable.setMaxSize` are total functions.
-/

namespace Fhttp.Hpack

/-- The key of `byNameValue`. -/
structure PairNameValue where
  name : Bytes
  value : Bytes
deriving DecidableEq

/-- The `byNameValue` key of an entry. -/
def HeaderField.pair (f : HeaderField) : PairNameValue := ⟨f.name, f.value⟩

/-! ## `headerFieldTable` -/

/-- A list of entries, oldest first, with the two lookup maps.  The unique id
of `ents[k]` is `k + evictCount + 1`. -/
structure HeaderFieldTable where
  ents : List HeaderField
  evictCount : Nat
  byName : Bytes → Option Nat
  byNameValue : PairNameValue → Option Nat

namespace HeaderFieldTable

/-- The zero table after `init`: two empty maps. -/
def init : HeaderFieldTable := ⟨[], 0, fun _ => none, fun _ => none⟩

/-- The number of entries. -/
def len (t : HeaderFieldTable) : Nat := t.ents.length

/-- Add an entry at the end and point both maps to it. -/
def addEntry (t : HeaderFieldTable) (f : HeaderField) : HeaderFieldTable :=
  let id := t.len + t.evictCount + 1
  { t with
    byName := Function.update t.byName f.name (some id)
    byNameValue := Function.update t.byNameValue f.pair (some id)
    ents := t.ents ++ [f] }

/-- The body of the loop of `evictOldest` for the entry `f` with id `id`: a map
loses the key of `f` when it still names `id`. -/
def forget (t : HeaderFieldTable) (f : HeaderField) (id : Nat) : HeaderFieldTable :=
  { t with
    byName :=
      if (t.byName f.name).getD 0 = id then Function.update t.byName f.name none else t.byName
    byNameValue :=
      if (t.byNameValue f.pair).getD 0 = id then Function.update t.byNameValue f.pair none
      else t.byNameValue }

/-- The loop of `evictOldest` over the evicted entries. -/
def forgetAll (t : HeaderFieldTable) : List HeaderField → Nat → HeaderFieldTable
  | [], _ => t
  | f :: fs, id => (t.forget f id).forgetAll fs (id + 1)

/-- Evict the `n` oldest entries.  It panics when there are fewer than `n`, and
when `evictCount` overflows, which a natural number does not do. -/
def evictOldest? (t : HeaderFieldTable) (n : Nat) : Option HeaderFieldTable :=
  if n > t.len then none
  else
    let t' := t.forgetAll (t.ents.take n) (t.evictCount + 1)
    if t.evictCount + n < t.evictCount then none
    else some { t' with ents := t.ents.drop n, evictCount := t.evictCount + n }

/-- The HPACK index of an id.  The static table counts from the oldest entry
and a dynamic table from the newest.  A pointer comparison with `staticTable`
decides which it is; here it is the argument `static`. -/
def idToIndex? (static : Bool) (t : HeaderFieldTable) (id : Nat) : Option Nat :=
  if id ≤ t.evictCount then none
  else
    let k := id - t.evictCount - 1
    if !static then some (t.len - k) else some (k + 1)

/-- Find `f`: first the pair, unless `f` is sensitive, then the name.  The index
is zero when there is no match, and the flag says that the value matches
too. -/
def search? (static : Bool) (t : HeaderFieldTable) (f : HeaderField) : Option (Nat × Bool) :=
  let pairId := if !f.sensitive then (t.byNameValue f.pair).getD 0 else 0
  if pairId ≠ 0 then (t.idToIndex? static pairId).map fun i => (i, true)
  else
    let nameId := (t.byName f.name).getD 0
    if nameId ≠ 0 then (t.idToIndex? static nameId).map fun i => (i, false)
    else some (0, false)

@[simp] theorem addEntry_ents (t : HeaderFieldTable) (f : HeaderField) :
    (t.addEntry f).ents = t.ents ++ [f] := rfl

/-- With enough entries `evictOldest` does not panic. -/
theorem evictOldest?_of_le {t : HeaderFieldTable} {n : Nat} (h : n ≤ t.len) :
    t.evictOldest? n =
      some { t.forgetAll (t.ents.take n) (t.evictCount + 1) with
        ents := t.ents.drop n
        evictCount := t.evictCount + n } := by
  have h1 : ¬ n > t.len := Nat.not_lt.mpr h
  have h2 : ¬ t.evictCount + n < t.evictCount := Nat.not_lt.mpr (Nat.le_add_right _ _)
  simp only [evictOldest?, if_neg h1, if_neg h2]

end HeaderFieldTable

/-! ## The static table -/

/-- `staticTableEntries`. -/
def staticTableEntries : List HeaderField :=
  [ { name := ascii ":authority" },
    { name := ascii ":method", value := ascii "GET" },
    { name := ascii ":method", value := ascii "POST" },
    { name := ascii ":path", value := ascii "/" },
    { name := ascii ":path", value := ascii "/index.html" },
    { name := ascii ":scheme", value := ascii "http" },
    { name := ascii ":scheme", value := ascii "https" },
    { name := ascii ":status", value := ascii "200" },
    { name := ascii ":status", value := ascii "204" },
    { name := ascii ":status", value := ascii "206" },
    { name := ascii ":status", value := ascii "304" },
    { name := ascii ":status", value := ascii "400" },
    { name := ascii ":status", value := ascii "404" },
    { name := ascii ":status", value := ascii "500" },
    { name := ascii "accept-charset" },
    { name := ascii "accept-encoding", value := ascii "gzip, deflate" },
    { name := ascii "accept-language" },
    { name := ascii "accept-ranges" },
    { name := ascii "accept" },
    { name := ascii "access-control-allow-origin" },
    { name := ascii "age" },
    { name := ascii "allow" },
    { name := ascii "authorization" },
    { name := ascii "cache-control" },
    { name := ascii "content-disposition" },
    { name := ascii "content-encoding" },
    { name := ascii "content-language" },
    { name := ascii "content-length" },
    { name := ascii "content-location" },
    { name := ascii "content-range" },
    { name := ascii "content-type" },
    { name := ascii "cookie" },
    { name := ascii "date" },
    { name := ascii "etag" },
    { name := ascii "expect" },
    { name := ascii "expires" },
    { name := ascii "from" },
    { name := ascii "host" },
    { name := ascii "if-match" },
    { name := ascii "if-modified-since" },
    { name := ascii "if-none-match" },
    { name := ascii "if-range" },
    { name := ascii "if-unmodified-since" },
    { name := ascii "last-modified" },
    { name := ascii "link" },
    { name := ascii "location" },
    { name := ascii "max-forwards" },
    { name := ascii "proxy-authenticate" },
    { name := ascii "proxy-authorization" },
    { name := ascii "range" },
    { name := ascii "referer" },
    { name := ascii "refresh" },
    { name := ascii "retry-after" },
    { name := ascii "server" },
    { name := ascii "set-cookie" },
    { name := ascii "strict-transport-security" },
    { name := ascii "transfer-encoding" },
    { name := ascii "user-agent" },
    { name := ascii "vary" },
    { name := ascii "via" },
    { name := ascii "www-authenticate" } ]

/-- `newStaticTable`: every entry is added and none is evicted. -/
def newStaticTable : HeaderFieldTable :=
  staticTableEntries.foldl HeaderFieldTable.addEntry HeaderFieldTable.init

def staticTable : HeaderFieldTable := newStaticTable

theorem staticTable_len : staticTable.len = 61 := by
  rfl

/-! ## `dynamicTable` -/

/-- A header field table with a size in octets and a bound on it.  A size
update on the wire may set `maxSize` up to `allowedMaxSize`. -/
structure DynamicTable where
  table : HeaderFieldTable
  size : UInt32
  maxSize : UInt32
  allowedMaxSize : UInt32

namespace DynamicTable

/-- The zero table with its maps made. -/
def empty : DynamicTable := ⟨HeaderFieldTable.init, 0, 0, 0⟩

/-- The loop of `evict`: count entries off the size, oldest first, while the
size is above the bound.  The result is the new size and the count. -/
def evictLoop (maxSize : UInt32) : UInt32 → List HeaderField → Nat → UInt32 × Nat
  | size, [], n => (size, n)
  | size, f :: fs, n =>
    if size > maxSize then evictLoop maxSize (size - f.size) fs (n + 1) else (size, n)

/-- If the table is too big, evict old entries. -/
def evict? (dt : DynamicTable) : Option DynamicTable :=
  let r := evictLoop dt.maxSize dt.size dt.table.ents 0
  (dt.table.evictOldest? r.2).map fun t => { dt with table := t, size := r.1 }

def setMaxSize? (dt : DynamicTable) (v : UInt32) : Option DynamicTable :=
  { dt with maxSize := v }.evict?

def add? (dt : DynamicTable) (f : HeaderField) : Option DynamicTable :=
  { dt with table := dt.table.addEntry f, size := dt.size + f.size }.evict?

theorem evictLoop_le (maxSize : UInt32) (fs : List HeaderField) :
    ∀ (size : UInt32) (n : Nat), (evictLoop maxSize size fs n).2 ≤ n + fs.length := by
  induction fs with
  | nil =>
    intro size n
    exact Nat.le_refl n
  | cons f fs ih =>
    intro size n
    rw [evictLoop, List.length_cons]
    split
    · have := ih (size - f.size) (n + 1)
      omega
    · exact Nat.le_add_right _ _

section

variable (dt : DynamicTable)

/-- The loop of `evict` stops at the number of entries, so `evictOldest` does
not panic. -/
theorem evict?_isSome : dt.evict?.isSome := by
  have hle := evictLoop_le dt.maxSize dt.table.ents dt.size 0
  rw [Nat.zero_add] at hle
  simp only [evict?, HeaderFieldTable.evictOldest?_of_le hle, Option.map_some, Option.isSome_some]

variable (v : UInt32) (f : HeaderField)

theorem setMaxSize?_isSome : (dt.setMaxSize? v).isSome :=
  evict?_isSome _

theorem add?_isSome : (dt.add? f).isSome :=
  evict?_isSome _

/-- `evict?` without the panic that it never makes. -/
def evict (dt : DynamicTable) : DynamicTable := dt.evict?.get dt.evict?_isSome

def setMaxSize (dt : DynamicTable) (v : UInt32) : DynamicTable :=
  (dt.setMaxSize? v).get (dt.setMaxSize?_isSome v)

def add (dt : DynamicTable) (f : HeaderField) : DynamicTable :=
  (dt.add? f).get (dt.add?_isSome f)

theorem evict?_eq : dt.evict? = some dt.evict :=
  (Option.some_get _).symm

theorem setMaxSize?_eq : dt.setMaxSize? v = some (dt.setMaxSize v) :=
  (Option.some_get _).symm

theorem add?_eq : dt.add? f = some (dt.add f) :=
  (Option.some_get _).symm

theorem setMaxSize_eq :
    dt.setMaxSize v = { dt with maxSize := v }.evict := rfl

theorem add_eq :
    dt.add f =
      { dt with table := dt.table.addEntry f, size := dt.size + f.size }.evict := rfl

/-- What `evict` does to the fields. -/
theorem evict_eq :
    dt.evict =
      { dt with
        table :=
          { dt.table.forgetAll
              (dt.table.ents.take (evictLoop dt.maxSize dt.size dt.table.ents 0).2)
              (dt.table.evictCount + 1) with
            ents := dt.table.ents.drop (evictLoop dt.maxSize dt.size dt.table.ents 0).2
            evictCount :=
              dt.table.evictCount + (evictLoop dt.maxSize dt.size dt.table.ents 0).2 }
        size := (evictLoop dt.maxSize dt.size dt.table.ents 0).1 } := by
  have hle := evictLoop_le dt.maxSize dt.table.ents dt.size 0
  rw [Nat.zero_add] at hle
  have h := dt.evict?_eq
  simp only [evict?, HeaderFieldTable.evictOldest?_of_le hle, Option.map_some] at h
  exact (Option.some.inj h).symm

@[simp] theorem evict_maxSize : dt.evict.maxSize = dt.maxSize := by
  rw [evict_eq]

@[simp] theorem evict_allowedMaxSize : dt.evict.allowedMaxSize = dt.allowedMaxSize := by
  rw [evict_eq]

@[simp] theorem setMaxSize_maxSize : (dt.setMaxSize v).maxSize = v := by
  rw [setMaxSize_eq, evict_maxSize]

@[simp] theorem setMaxSize_allowedMaxSize :
    (dt.setMaxSize v).allowedMaxSize = dt.allowedMaxSize := by
  rw [setMaxSize_eq, evict_allowedMaxSize]

@[simp] theorem add_maxSize : (dt.add f).maxSize = dt.maxSize := by
  rw [add_eq, evict_maxSize]

@[simp] theorem add_allowedMaxSize : (dt.add f).allowedMaxSize = dt.allowedMaxSize := by
  rw [add_eq, evict_allowedMaxSize]

end

end DynamicTable

end Fhttp.Hpack
