import Mathlib.Data.List.GetD
import Mathlib.Data.List.Perm.Basic
import Fhttp.Lib.Run
import Fhttp.Hpack.Basic

/-!
# The data buffer of a body

The model of `http2/databuffer.go`.  A buffer is a list of chunks, and the chunks come from
pools that all the buffers share and go back to them.  A chunk therefore has an identity:
`Chunks.heap` has the bytes of every chunk ever made, by number, and a buffer and a pool hold
numbers.  Two buffers with the same chunk would overwrite each other's bytes.

`Holds` relates a buffer to the queue of its unread bytes, and `Apart` says that no chunk has
two owners.  Each method is specified with a frame, the chunks of the other buffers, which it
leaves alone.  `World` puts the buffers of a process together, and the main result is that it
refines a list of byte queues.
-/

namespace Fhttp.Http2

open Hpack (Bytes)
open Lib.Panic (Fault Returns)
open List

/-! ## The pools -/

/-- `dataChunkSizeClasses`. -/
def dataChunkSizeClasses : List Nat := [1 * 1024, 2 * 1024, 4 * 1024, 8 * 1024, 16 * 1024]

/-- The chunks of a process. -/
structure Chunks where
  /-- The bytes of each chunk. -/
  heap : List Bytes := []
  /-- The chunks in `dataChunkPools`: the index of the pool, and the number of the chunk. -/
  pooled : List (Nat × Nat) := []
deriving DecidableEq

namespace Chunks

/-- The bytes of a chunk. -/
def chunk (m : Chunks) (c : Nat) : Bytes := m.heap.getD c []

/-- The index of the first class that is large enough, or of the last class. -/
def classFor (size : Int64) : Nat :=
  dataChunkSizeClasses.dropLast.findIdx (fun n => size ≤ Int64.ofNat n)

/-- `New` of a pool: a new chunk. -/
def make (m : Chunks) (i : Nat) : Nat × Chunks :=
  (m.heap.length, { m with heap := m.heap ++ [replicate (dataChunkSizeClasses.getD i 0) 0] })

/-- `Get` of a pool.  A pool may return any chunk in it, and it may make a new one; `pick` is
the choice. -/
def get (m : Chunks) (i : Nat) (pick : Option Nat) : Nat × Chunks :=
  match pick.bind (fun k => m.pooled[k]?.map (k, ·)) with
  | none => m.make i
  | some (k, j, c) => if j = i then (c, { m with pooled := m.pooled.eraseIdx k }) else m.make i

def getDataBufferChunk (m : Chunks) (size : Int64) (pick : Option Nat) : Nat × Chunks :=
  m.get (classFor size) pick

def putDataBufferChunk (m : Chunks) (c : Nat) : Except Fault Chunks :=
  match dataChunkSizeClasses.findIdx? (· == (m.chunk c).length) with
  | some i => .ok { m with pooled := (i, c) :: m.pooled }
  | none => .error (.panic s!"unexpected buffer len={(m.chunk c).length}")

end Chunks

/-! ## The buffer -/

/-- `dataBuffer`. -/
structure DataBuffer where
  chunks : List Nat := []
  /-- The next byte to read is `chunks[0][r]`. -/
  r : Nat := 0
  /-- The next byte to write is `chunks[len(chunks)-1][w]`. -/
  w : Nat := 0
  /-- The total of the buffered bytes. -/
  size : Int := 0
  /-- We expect at least this many bytes in future `Write` calls. -/
  expected : Int64 := 0
deriving DecidableEq

/-- `s[i:j]`. -/
def slice (s : Bytes) (i j : Nat) : Except Fault Bytes :=
  if i ≤ j ∧ j ≤ s.length then .ok ((s.take j).drop i)
  else .error (.panic "slice bounds out of range")

namespace DataBuffer

def bytesFromFirstChunk (m : Chunks) (b : DataBuffer) : Except Fault Bytes :=
  match b.chunks with
  | [] => .error (.panic "index out of range")
  | [c] => slice (m.chunk c) b.r b.w
  | c :: _ :: _ => slice (m.chunk c) b.r (m.chunk c).length

/-- If the first chunk has been consumed, advance to the next chunk. -/
def advance (m : Chunks) (b : DataBuffer) : Except Fault (Chunks × DataBuffer) :=
  match b.chunks with
  | [] => .error (.panic "index out of range")
  | c :: rest =>
    if b.r = (m.chunk c).length then do
      let m ← m.putDataBufferChunk c
      .ok (m, { b with chunks := rest, r := 0 })
    else .ok (m, b)

/-- The loop of `Read`, with `n` bytes to fill; `got` is filled. -/
def readLoop : Nat → Chunks → DataBuffer → Nat → Bytes → Except Fault (Bytes × Chunks × DataBuffer)
  | fuel, m, b, n, got =>
    if 0 < n ∧ 0 < b.size then
      match fuel with
      | 0 => .error .diverges
      | fuel + 1 => do
        let readFrom ← bytesFromFirstChunk m b
        let copied := readFrom.take n
        let next ← advance m
          { b with r := b.r + copied.length, size := b.size - copied.length }
        readLoop fuel next.1 next.2 (n - copied.length) (got ++ copied)
    else .ok (got, m, b)

/-- `Read` into `n` bytes: the bytes read, or nothing for `errReadEmpty`. -/
def read (m : Chunks) (b : DataBuffer) (n : Nat) :
    Except Fault (Option Bytes × Chunks × DataBuffer) :=
  if b.size = 0 then .ok (none, m, b)
  else do
    let r ← readLoop n m b n []
    .ok (some r.1, r.2)

/-- `Len`. -/
def len (b : DataBuffer) : Int := b.size

/-- `lastChunkOrAlloc`: the chunk, and whether a chunk was picked from the pools. -/
def lastChunkOrAlloc (m : Chunks) (b : DataBuffer) (want : Int64) (pick : Option Nat) :
    Nat × Bool × Chunks × DataBuffer :=
  let alloc := m.getDataBufferChunk want pick
  let fresh := (alloc.1, true, alloc.2, { b with chunks := b.chunks ++ [alloc.1], w := 0 })
  match b.chunks.getLast? with
  | none => fresh
  | some last => if b.w < (m.chunk last).length then (last, false, m, b) else fresh

/-- `copy(chunk[w:], p)`: the number of bytes, and the chunk after it. -/
def copyInto (chunk : Bytes) (w : Nat) (p : Bytes) : Except Fault (Nat × Bytes) := do
  let room ← slice chunk w chunk.length
  let n := min room.length p.length
  .ok (n, chunk.take w ++ p.take n ++ chunk.drop (w + n))

/-- One pass of the loop of `Write`: the bytes written, and the choices left. -/
def writeOnce (m : Chunks) (b : DataBuffer) (p : Bytes) (picks : List (Option Nat)) :
    Except Fault (Nat × List (Option Nat) × Chunks × DataBuffer) := do
  let want := if b.expected > Int64.ofNat p.length then b.expected else Int64.ofNat p.length
  let last := lastChunkOrAlloc m b want (picks.headD none)
  let m := last.2.2.1
  let b := last.2.2.2
  let copied ← copyInto (m.chunk last.1) b.w p
  .ok (copied.1, if last.2.1 then picks.tail else picks,
    { m with heap := m.heap.set last.1 copied.2 },
    { b with
      w := b.w + copied.1
      size := b.size + copied.1
      expected := b.expected - Int64.ofNat copied.1 })

def writeLoop : Nat → Chunks → DataBuffer → Bytes → List (Option Nat) →
    Except Fault (Chunks × DataBuffer)
  | _, m, b, [], _ => .ok (m, b)
  | 0, _, _, _ :: _, _ => .error .diverges
  | fuel + 1, m, b, p, picks => do
    let r ← writeOnce m b p picks
    writeLoop fuel r.2.2.1 r.2.2.2 (p.drop r.1) r.2.1

/-- `Write`: the number of bytes.  `picks` are the choices of the pools. -/
def write (m : Chunks) (b : DataBuffer) (p : Bytes) (picks : List (Option Nat)) :
    Except Fault (Nat × Chunks × DataBuffer) := do
  let r ← writeLoop p.length m b p picks
  .ok (p.length, r)

end DataBuffer

/-! ## The bytes in a list of chunks -/

namespace Chunks

variable {m m' : Chunks} {w c : Nat} {cs : List Nat}

/-- The bytes that have been written to some chunks, the last of them up to `w`. -/
def stored (m : Chunks) (w : Nat) : List Nat → Bytes
  | [] => []
  | [c] => (m.chunk c).take w
  | c :: c' :: cs => m.chunk c ++ stored m w (c' :: cs)

theorem stored_congr (h : ∀ c ∈ cs, m'.chunk c = m.chunk c) : m'.stored w cs = m.stored w cs := by
  fun_induction stored m w cs with
  | case1 => rfl
  | case2 c => rw [stored, h c (mem_singleton_self c)]
  | case3 c c' cs ih =>
    rw [stored, h c mem_cons_self, ih fun d hd => h d (mem_cons_of_mem c hd)]

theorem stored_cons (hne : cs ≠ []) : m.stored w (c :: cs) = m.chunk c ++ m.stored w cs := by
  cases cs with
  | nil => exact absurd rfl hne
  | cons c' cs => rfl

/-- The chunks before the last one are full. -/
theorem stored_concat (m : Chunks) (w : Nat) (cs : List Nat) (c : Nat) :
    m.stored w (cs ++ [c]) = cs.flatMap m.chunk ++ (m.chunk c).take w := by
  induction cs with
  | nil => rfl
  | cons d cs ih =>
    rw [cons_append, stored_cons (by simp), ih, flatMap_cons, append_assoc]

/-- A new chunk after a full one. -/
theorem stored_alloc (hfull : ∀ last, cs.getLast? = some last → (m.chunk last).length ≤ w)
    (c : Nat) : m.stored 0 (cs ++ [c]) = m.stored w cs := by
  rw [stored_concat, take_zero, append_nil]
  rcases eq_nil_or_concat cs with rfl | ⟨init, last, rfl⟩
  · rfl
  · rw [concat_eq_append] at hfull ⊢
    rw [stored_concat, flatMap_append, take_of_length_le (hfull last (by simp))]
    simp

/-! ## The owners of the chunks -/

variable {data : Bytes} {ids : List Nat}

theorem chunk_set_self (h : c < m.heap.length) :
    ({ m with heap := m.heap.set c data } : Chunks).chunk c = data := by
  simp [chunk, h]

theorem chunk_set_ne {d : Nat} (h : d ≠ c) :
    ({ m with heap := m.heap.set c data } : Chunks).chunk d = m.chunk d := by
  simp [chunk, Ne.symm h]

/-- No chunk has two owners among the pools and `ids`, and every chunk has the size of a
class. -/
structure Apart (m : Chunks) (ids : List Nat) : Prop where
  nodup : (m.pooled.map Prod.snd ++ ids).Nodup
  made : ∀ c ∈ m.pooled.map Prod.snd ++ ids, c < m.heap.length
  sized : ∀ data ∈ m.heap, data.length ∈ dataChunkSizeClasses

theorem Apart.perm {ids' : List Nat} (h : m.Apart ids) (hp : ids'.Perm ids) : m.Apart ids' where
  nodup := (hp.append_left _).nodup_iff.mpr h.nodup
  made c hc := h.made c ((hp.append_left _).mem_iff.mp hc)
  sized := h.sized

theorem Apart.size_mem (h : m.Apart ids) (hc : c ∈ ids) :
    (m.chunk c).length ∈ dataChunkSizeClasses := by
  have hlt := h.made c (mem_append_right _ hc)
  have hget : m.chunk c = m.heap[c] := by simp [chunk, hlt]
  rw [hget]
  exact h.sized _ (getElem_mem hlt)

theorem size_pos {n : Nat} (h : n ∈ dataChunkSizeClasses) : 0 < n := by
  have hall : ∀ n ∈ dataChunkSizeClasses, 0 < n := by decide
  exact hall n h

theorem Apart.chunk_pos (h : m.Apart ids) (hc : c ∈ ids) : 0 < (m.chunk c).length :=
  size_pos (h.size_mem hc)

/-- The chunks that a call leaves alone. -/
def Untouched (m m' : Chunks) (ids : List Nat) : Prop := ∀ c ∈ ids, m'.chunk c = m.chunk c

theorem Untouched.refl (m : Chunks) (ids : List Nat) : m.Untouched m ids := fun _ _ => rfl

theorem Untouched.trans {m'' : Chunks} (h : m.Untouched m' ids) (h' : m'.Untouched m'' ids) :
    m.Untouched m'' ids :=
  fun c hc => (h' c hc).trans (h c hc)

theorem class_mem (size : Int64) :
    dataChunkSizeClasses.getD (classFor size) 0 ∈ dataChunkSizeClasses := by
  have hle : classFor size ≤ 4 := findIdx_le_length
  have hlt : classFor size < dataChunkSizeClasses.length := Nat.lt_succ_of_le hle
  rw [getD_eq_getElem _ _ hlt]
  exact getElem_mem hlt

/-- A new chunk. -/
theorem Apart.make (h : m.Apart ids) (size : Int64) :
    (m.make (classFor size)).2.Apart ((m.make (classFor size)).1 :: ids) ∧
      m.Untouched (m.make (classFor size)).2 ids := by
  unfold Chunks.make
  refine ⟨⟨?_, ?_, ?_⟩, ?_⟩
  · refine (perm_middle.nodup_iff).mpr (nodup_cons.mpr ⟨fun hmem => ?_, h.nodup⟩)
    exact absurd (h.made _ hmem) (Nat.lt_irrefl _)
  · intro c hc
    rcases mem_cons.mp (perm_middle.mem_iff.mp hc) with rfl | hc
    · simp
    · have := h.made c hc
      simp only [length_append]
      omega
  · intro d hd
    rcases mem_append.mp hd with hd | hd
    · exact h.sized d hd
    · rw [mem_singleton.mp hd, length_replicate]
      exact class_mem size
  · intro c hc
    have hlt := h.made c (mem_append_right _ hc)
    simp [chunk, List.getElem?_append_left hlt]

/-- `Get` takes a chunk that nobody has. -/
theorem Apart.get (h : m.Apart ids) (size : Int64) (pick : Option Nat) :
    (m.getDataBufferChunk size pick).2.Apart ((m.getDataBufferChunk size pick).1 :: ids) ∧
      m.Untouched (m.getDataBufferChunk size pick).2 ids := by
  unfold getDataBufferChunk Chunks.get
  split
  · exact h.make size
  rename_i k j c hpick
  obtain ⟨k, rfl, hk⟩ : ∃ i, pick = some i ∧ m.pooled[i]?.map (i, ·) = some (k, j, c) :=
    Option.bind_eq_some_iff.mp hpick
  obtain ⟨item, hk, heq⟩ := Option.map_eq_some_iff.mp hk
  cases heq
  split
  · refine ⟨?_, fun _ _ => rfl⟩
    obtain ⟨hlt, hget⟩ := List.getElem?_eq_some_iff.mp hk
    have hperm : ((j, c) :: m.pooled.eraseIdx k).Perm m.pooled := by
      rw [← hget]
      exact getElem_cons_eraseIdx_perm hlt
    have hids : ((m.pooled.eraseIdx k).map Prod.snd ++ c :: ids).Perm
        (m.pooled.map Prod.snd ++ ids) :=
      perm_middle.trans ((hperm.map Prod.snd).append_right ids)
    exact ⟨hids.nodup_iff.mpr h.nodup, fun d hd => h.made d (hids.mem_iff.mp hd), h.sized⟩
  · exact h.make size

/-- `Put` gives up a chunk. -/
theorem Apart.put (h : m.Apart (c :: ids)) :
    Returns (fun m' => m'.Apart ids ∧ m'.heap = m.heap ∧ c ∈ m'.pooled.map Prod.snd)
      (m.putDataBufferChunk c) := by
  have hmem := h.size_mem mem_cons_self
  unfold putDataBufferChunk
  cases hfind : dataChunkSizeClasses.findIdx? (· == (m.chunk c).length) with
  | none =>
    have := findIdx?_eq_none_iff.mp hfind _ hmem
    simp at this
  | some i =>
    have hids : (((i, c) :: m.pooled).map Prod.snd ++ ids).Perm
        (m.pooled.map Prod.snd ++ c :: ids) := perm_middle.symm
    exact ⟨⟨hids.nodup_iff.mpr h.nodup, fun d hd => h.made d (hids.mem_iff.mp hd), h.sized⟩,
      rfl, by simp⟩

/-- A write to a chunk of the right owner. -/
theorem Apart.set (h : m.Apart ids) (hdata : data.length = (m.chunk c).length) :
    ({ m with heap := m.heap.set c data } : Chunks).Apart ids := by
  refine ⟨h.nodup, fun d hd => ?_, fun d hd => ?_⟩
  · rw [length_set]
    exact h.made d hd
  · rcases mem_or_eq_of_mem_set hd with hd | rfl
    · exact h.sized d hd
    · by_cases hlt : c < m.heap.length
      · have hget : m.chunk c = m.heap[c] := by simp [chunk, hlt]
        rw [hdata, hget]
        exact h.sized _ (getElem_mem hlt)
      · rw [set_eq_of_length_le (Nat.le_of_not_lt hlt)] at hd
        exact h.sized _ hd

end Chunks

/-! ## A buffer is a queue -/

namespace DataBuffer

open Chunks

variable {m : Chunks} {b : DataBuffer} {q : Bytes} {frame : List Nat}

/-- The unread bytes of the buffer are `q`. -/
structure Holds (m : Chunks) (b : DataBuffer) (q : Bytes) : Prop where
  unread : q = (m.stored b.w b.chunks).drop b.r
  size : b.size = q.length
  /-- The reader is not ahead of the writer. -/
  behind : b.r ≤ (m.stored b.w b.chunks).length
  /-- A chunk that is read to its end is given up. -/
  first : ∀ c, b.chunks.head? = some c → b.r < (m.chunk c).length
  last : ∀ c, b.chunks.getLast? = some c → b.w ≤ (m.chunk c).length
  empty : b.chunks = [] → b.r = 0

theorem holds_new (m : Chunks) (expected : Int64) : Holds m { expected := expected } [] where
  unread := rfl
  size := rfl
  behind := Nat.le_refl _
  first _ h := by cases h
  last _ h := by cases h
  empty _ := rfl

/-- The buffer only looks at its own chunks. -/
theorem Holds.congr {m' : Chunks} (h : Holds m b q) (hsame : m.Untouched m' b.chunks) :
    Holds m' b q := by
  have hstored : m'.stored b.w b.chunks = m.stored b.w b.chunks := stored_congr hsame
  refine ⟨hstored ▸ h.unread, h.size, hstored ▸ h.behind, fun c hc => ?_, fun c hc => ?_, h.empty⟩
  · rw [hsame c (mem_of_mem_head? hc)]
    exact h.first c hc
  · rw [hsame c (mem_of_getLast? hc)]
    exact h.last c hc

/-! ### `Read` -/

/-- The bytes of the first chunk are the first unread bytes. -/
theorem Holds.bytesFromFirstChunk (h : Holds m b q) {c : Nat} {rest : List Nat}
    (hchunks : b.chunks = c :: rest) :
    Returns (fun f => q = f ++ m.stored b.w rest ∧ b.r + f.length ≤ (m.chunk c).length ∧
      (rest ≠ [] → b.r + f.length = (m.chunk c).length)) (bytesFromFirstChunk m b) := by
  have hr : b.r < (m.chunk c).length := h.first c (by rw [hchunks]; rfl)
  have hunread := h.unread
  have hbehind := h.behind
  rw [hchunks] at hunread hbehind
  unfold DataBuffer.bytesFromFirstChunk
  rw [hchunks]
  cases rest with
  | nil =>
    have hw : b.w ≤ (m.chunk c).length := h.last c (by rw [hchunks]; rfl)
    have hlen : ((m.chunk c).take b.w).length = b.w := by
      rw [length_take]
      omega
    have hrw : b.r ≤ b.w := by
      rw [stored, hlen] at hbehind
      exact hbehind
    dsimp only
    rw [slice, if_pos ⟨hrw, hw⟩]
    refine ⟨?_, ?_, fun hne => absurd rfl hne⟩
    · rw [hunread]
      simp [stored]
    · rw [length_drop, hlen]
      omega
  | cons c' cs =>
    dsimp only
    rw [slice, if_pos ⟨by omega, Nat.le_refl _⟩, take_length]
    refine ⟨?_, ?_, fun _ => ?_⟩
    · rw [hunread, stored_cons (by simp), drop_append_of_le_length (by omega)]
    · rw [length_drop]
      omega
    · rw [length_drop]
      omega

section

variable (h : Holds m b q) (ha : m.Apart (b.chunks ++ frame))

include h ha

/-- The reader moves on by `k` bytes of the first chunk. -/
theorem Holds.advance {c : Nat} {rest : List Nat} (hchunks : b.chunks = c :: rest) {f : Bytes}
    {k : Nat} (hq : q = f ++ m.stored b.w rest) (hf : b.r + f.length ≤ (m.chunk c).length)
    (hk : k ≤ f.length) :
    Returns (fun x => Holds x.1 x.2 (q.drop k) ∧ x.1.Apart (x.2.chunks ++ frame) ∧
        m.Untouched x.1 frame)
      (advance m { b with r := b.r + k, size := b.size - k }) := by
  have hsize : b.size - k = ((q.drop k).length : Int) := by
    rw [h.size, length_drop, hq, length_append]
    omega
  rw [hchunks] at ha
  unfold DataBuffer.advance
  rw [hchunks]
  dsimp only
  split
  · have hkf : k = f.length := by omega
    have ha' : m.Apart (c :: (rest ++ frame)) := ha
    refine ha'.put.bind fun m' hm' => ?_
    obtain ⟨hapart, hheap, _⟩ := hm'
    have hsame : ∀ ids, m.Untouched m' ids := fun ids d _ => by simp only [chunk, hheap]
    have hstored : m'.stored b.w rest = m.stored b.w rest := stored_congr (hsame rest)
    have hdrop : q.drop k = m.stored b.w rest := by
      rw [hq, hkf, drop_left]
    refine ⟨⟨?_, hsize, Nat.zero_le _, fun d hd => ?_, fun d hd => ?_, fun _ => rfl⟩, hapart,
      hsame frame⟩
    · rw [hdrop, ← hstored]
      rfl
    · exact hapart.chunk_pos (mem_append_left _ (mem_of_mem_head? hd))
    · rw [hsame rest d (mem_of_getLast? hd)]
      refine h.last d ?_
      rw [hchunks]
      cases rest with
      | nil => cases hd
      | cons c' cs => exact hd
  · refine ⟨⟨?_, hsize, ?_, fun d hd => ?_, fun d hd => ?_, fun hnil => ?_⟩, ha,
      Untouched.refl m frame⟩
    · rw [h.unread, drop_drop, hchunks]
    · have hlen := congrArg length h.unread
      rw [hq, length_append, length_drop, hchunks] at hlen
      have hbehind := h.behind
      rw [hchunks] at hbehind
      dsimp only
      omega
    · cases hd
      dsimp only
      omega
    · exact h.last d (by rw [hchunks]; exact hd)
    · cases hnil

/-- The loop of `Read` fills its slice, or empties the buffer. -/
theorem Holds.readLoop {fuel n : Nat} (hfuel : n ≤ fuel) (got : Bytes) :
    Returns (fun x => x.1 = got ++ q.take n ∧ Holds x.2.1 x.2.2 (q.drop n) ∧
        x.2.1.Apart (x.2.2.chunks ++ frame) ∧ m.Untouched x.2.1 frame)
      (readLoop fuel m b n got) := by
  induction fuel generalizing m b q n got with
  | zero =>
    obtain rfl : n = 0 := by omega
    exact ⟨by simp, h, ha, Untouched.refl m frame⟩
  | succ fuel ih =>
    unfold DataBuffer.readLoop
    split
    · rename_i hmore
      obtain ⟨hn, hpos⟩ := hmore
      have hq : 0 < q.length := by
        have := h.size
        omega
      obtain ⟨c, rest, hchunks⟩ : ∃ c rest, b.chunks = c :: rest := by
        refine exists_cons_of_ne_nil fun hnil => ?_
        have hnone := h.unread
        rw [hnil, stored, drop_nil] at hnone
        rw [hnone] at hq
        exact Nat.lt_irrefl 0 hq
      refine (h.bytesFromFirstChunk hchunks).bind fun f hf => ?_
      obtain ⟨hqf, hle, hfull⟩ := hf
      have hlast : rest = [] ∨ b.r + f.length = (m.chunk c).length :=
        (Classical.em (rest = [])).imp_right hfull
      have hr : b.r < (m.chunk c).length := h.first c (by rw [hchunks]; rfl)
      have hfpos : 0 < f.length := by
        rcases hlast with hrest | hend
        · rw [hrest, stored, append_nil] at hqf
          rw [← hqf]
          exact hq
        · omega
      have hk : (f.take n).length = min n f.length := length_take
      refine (h.advance ha hchunks hqf hle (length_take_le' n f)).bind fun x hx => ?_
      obtain ⟨hholds, hapart, hsame⟩ := hx
      refine (ih hholds hapart (by omega) (got ++ f.take n)).imp fun y hy => ?_
      obtain ⟨hgot, hholds', hapart', hsame'⟩ := hy
      have hsplit : q.take n =
          f.take n ++ (q.drop (f.take n).length).take (n - (f.take n).length) := by
        rw [hk]
        rcases Nat.le_total n f.length with hnf | hnf
        · rw [Nat.min_eq_left hnf, Nat.sub_self, take_zero, append_nil, hqf,
            take_append_of_le_length hnf]
        · rw [Nat.min_eq_right hnf, hqf, drop_left, take_of_length_le hnf,
            take_append, take_of_length_le hnf]
      refine ⟨?_, ?_, hapart', hsame.trans hsame'⟩
      · rw [hgot, append_assoc, ← hsplit]
      · rw [drop_drop, Nat.add_sub_cancel' (by omega)] at hholds'
        exact hholds'
    · have hdone : q.take n = [] ∧ q.drop n = q := by
        rcases Nat.eq_zero_or_pos n with rfl | hn
        · exact ⟨take_zero, drop_zero⟩
        · have hq : q = [] := by
            have := h.size
            refine eq_nil_of_length_eq_zero ?_
            omega
          rw [hq]
          exact ⟨take_nil, drop_nil⟩
      rw [hdone.1, hdone.2]
      exact ⟨by simp, h, ha, Untouched.refl m frame⟩

/-- `Read` takes the first bytes of the queue, and fails on an empty queue. -/
theorem Holds.read (n : Nat) :
    Returns (fun x => x.1 = (if q = [] then none else some (q.take n)) ∧
        Holds x.2.1 x.2.2 (q.drop n) ∧ x.2.1.Apart (x.2.2.chunks ++ frame) ∧
          m.Untouched x.2.1 frame)
      (read m b n) := by
  unfold DataBuffer.read
  have hsize := h.size
  by_cases hq : q = []
  · subst hq
    have hzero : b.size = 0 := hsize
    rw [if_pos hzero, if_pos rfl, drop_nil]
    exact ⟨rfl, h, ha, Untouched.refl m frame⟩
  · have hpos : 0 < q.length := length_pos_iff.mpr hq
    have hne : b.size ≠ 0 := by omega
    rw [if_neg hne, if_neg hq]
    refine (h.readLoop ha (Nat.le_refl n) []).bind fun x hx => ?_
    exact ⟨congrArg some hx.1, hx.2⟩

/-! ### `Write` -/

/-- `lastChunkOrAlloc` gives the last chunk, which has room. -/
theorem Holds.lastChunkOrAlloc (want : Int64) (pick : Option Nat)
    {x : Nat × Bool × Chunks × DataBuffer} (hx : x = lastChunkOrAlloc m b want pick) :
    Holds x.2.2.1 x.2.2.2 q ∧ x.2.2.1.Apart (x.2.2.2.chunks ++ frame) ∧ m.Untouched x.2.2.1 frame ∧
      x.2.2.2.chunks.getLast? = some x.1 ∧ x.2.2.2.w < (x.2.2.1.chunk x.1).length := by
  have hfresh (hfull : ∀ last, b.chunks.getLast? = some last → (m.chunk last).length ≤ b.w) :
      Holds (m.getDataBufferChunk want pick).2
          { b with chunks := b.chunks ++ [(m.getDataBufferChunk want pick).1], w := 0 } q ∧
        (m.getDataBufferChunk want pick).2.Apart
          (b.chunks ++ [(m.getDataBufferChunk want pick).1] ++ frame) ∧
        m.Untouched (m.getDataBufferChunk want pick).2 frame ∧
        (b.chunks ++ [(m.getDataBufferChunk want pick).1]).getLast? =
          some (m.getDataBufferChunk want pick).1 ∧
        0 < ((m.getDataBufferChunk want pick).2.chunk
          (m.getDataBufferChunk want pick).1).length := by
    obtain ⟨hapart, hsame⟩ := ha.get want pick
    have hpos := hapart.chunk_pos mem_cons_self
    generalize m.getDataBufferChunk want pick = g at hapart hsame hpos ⊢
    have hown : m.Untouched g.2 b.chunks := fun c hc => hsame c (mem_append_left _ hc)
    have hold := h.congr hown
    have hstored : g.2.stored 0 (b.chunks ++ [g.1]) = g.2.stored b.w b.chunks := by
      refine stored_alloc (fun last hlast => ?_) g.1
      rw [hown last (mem_of_getLast? hlast)]
      exact hfull last hlast
    refine ⟨⟨?_, h.size, ?_, fun c hc => ?_, fun c _ => Nat.zero_le _, fun hnil => ?_⟩, ?_,
      fun c hc => hsame c (mem_append_right _ hc), by simp, hpos⟩
    · rw [hstored]
      exact hold.unread
    · rw [hstored]
      exact hold.behind
    · cases hchunks : b.chunks with
      | nil =>
        rw [hchunks] at hc
        cases hc
        rw [h.empty hchunks]
        exact hpos
      | cons d ds =>
        rw [hchunks] at hc
        exact hold.first c (by rw [hchunks]; exact hc)
    · simp at hnil
    · refine hapart.perm ?_
      rw [append_assoc]
      exact perm_middle
  unfold DataBuffer.lastChunkOrAlloc at hx
  cases hlast : b.chunks.getLast? with
  | none =>
    rw [hlast] at hx
    subst hx
    exact hfresh (fun last hl => by rw [hlast] at hl; cases hl)
  | some last =>
    rw [hlast] at hx
    dsimp only at hx
    split at hx
    · rename_i hroom
      subst hx
      exact ⟨h, ha, Untouched.refl m frame, hlast, hroom⟩
    · subst hx
      refine hfresh fun c hc => ?_
      rw [hlast] at hc
      cases hc
      omega

end

/-- The bytes copied into the last chunk are added to the stored ones. -/
theorem stored_copy {cs : List Nat} {c w : Nat} (data : Bytes) (hlast : cs.getLast? = some c)
    (hnodup : cs.Nodup) (hc : c < m.heap.length) (hw : w ≤ (m.chunk c).length) (rest : Bytes) :
    ({ m with heap := m.heap.set c ((m.chunk c).take w ++ data ++ rest) } : Chunks).stored
        (w + data.length) cs = m.stored w cs ++ data := by
  obtain ⟨init, rfl⟩ := getLast?_eq_some_iff.mp hlast
  have hinit : ∀ d ∈ init, d ≠ c := by
    intro d hd
    exact (nodup_append.mp hnodup).2.2 d hd c (mem_singleton_self c)
  rw [stored_concat, stored_concat, chunk_set_self hc]
  have hfull : init.flatMap
      (chunk { m with heap := m.heap.set c ((m.chunk c).take w ++ data ++ rest) }) =
        init.flatMap m.chunk := by
    refine flatMap_congr fun d hd => ?_
    exact chunk_set_ne (hinit d hd)
  have hlen : ((m.chunk c).take w ++ data).length = w + data.length := by
    rw [length_append, length_take]
    omega
  rw [hfull, take_append_of_le_length (Nat.le_of_eq hlen.symm), ← hlen, take_length, append_assoc]

section

variable (h : Holds m b q) (ha : m.Apart (b.chunks ++ frame))

include h ha

/-- A pass of the loop of `Write` appends some bytes. -/
theorem Holds.writeOnce {p : Bytes} (hp : p ≠ []) (picks : List (Option Nat)) :
    Returns (fun x => 0 < x.1 ∧ x.1 ≤ p.length ∧ Holds x.2.2.1 x.2.2.2 (q ++ p.take x.1) ∧
        x.2.2.1.Apart (x.2.2.2.chunks ++ frame) ∧ m.Untouched x.2.2.1 frame)
      (writeOnce m b p picks) := by
  unfold DataBuffer.writeOnce
  dsimp only
  generalize hx : DataBuffer.lastChunkOrAlloc m b _ _ = x
  obtain ⟨hholds, hapart, hsame, hlast, hroom⟩ := h.lastChunkOrAlloc ha _ _ hx.symm
  obtain ⟨c, picked, m', b'⟩ := x
  dsimp only at hholds hapart hsame hlast hroom ⊢
  have hmem : c ∈ b'.chunks := mem_of_getLast? hlast
  have hc : c < m'.heap.length :=
    hapart.made c (mem_append_right _ (mem_append_left _ hmem))
  have hpos : 0 < p.length := length_pos_iff.mpr hp
  have hnodup : (b'.chunks ++ frame).Nodup := (nodup_append.mp hapart.nodup).2.1
  have hcopy : copyInto (m'.chunk c) b'.w p =
      .ok (min ((m'.chunk c).length - b'.w) p.length,
        (m'.chunk c).take b'.w ++ p.take (min ((m'.chunk c).length - b'.w) p.length) ++
          (m'.chunk c).drop (b'.w + min ((m'.chunk c).length - b'.w) p.length)) := by
    unfold copyInto slice
    rw [if_pos ⟨Nat.le_of_lt hroom, Nat.le_refl _⟩]
    simp [take_length, bind, Except.bind]
  rw [hcopy]
  generalize hn : min ((m'.chunk c).length - b'.w) p.length = n
  have hnp : n ≤ p.length := by omega
  have hnw : b'.w + n ≤ (m'.chunk c).length := by omega
  have htake : (p.take n).length = n := by
    rw [length_take]
    omega
  have hstored := stored_copy (p.take n) hlast (nodup_append.mp hnodup).1 hc
    (Nat.le_of_lt hroom) ((m'.chunk c).drop (b'.w + n))
  rw [htake] at hstored
  have hdata : ((m'.chunk c).take b'.w ++ p.take n ++ (m'.chunk c).drop (b'.w + n)).length =
      (m'.chunk c).length := by
    rw [length_append, length_append, length_take, length_drop, htake]
    omega
  have hlen : ∀ d, (({ m' with heap := m'.heap.set c ((m'.chunk c).take b'.w ++ p.take n ++
      (m'.chunk c).drop (b'.w + n)) } : Chunks).chunk d).length = (m'.chunk d).length := by
    intro d
    by_cases hd : d = c
    · rw [hd, chunk_set_self hc, hdata]
    · rw [chunk_set_ne hd]
  refine ⟨by omega, hnp, ⟨?_, ?_, ?_, fun d hd => ?_, fun d hd => ?_, hholds.empty⟩,
    hapart.set hdata, hsame.trans fun d hd => chunk_set_ne ?_⟩
  · rw [hstored, drop_append_of_le_length hholds.behind, ← hholds.unread]
  · dsimp only
    rw [hholds.size, length_append, htake]
    omega
  · dsimp only
    rw [hstored, length_append]
    have := hholds.behind
    omega
  · rw [hlen]
    exact hholds.first d hd
  · rw [hlen]
    have heq : d = c := by
      rw [hlast] at hd
      exact (Option.some.inj hd).symm
    rw [heq]
    exact hnw
  · exact ((nodup_append.mp hnodup).2.2 c hmem d hd).symm

theorem Holds.writeLoop {fuel : Nat} {p : Bytes} (hfuel : p.length ≤ fuel)
    (picks : List (Option Nat)) :
    Returns (fun x => Holds x.1 x.2 (q ++ p) ∧ x.1.Apart (x.2.chunks ++ frame) ∧
      m.Untouched x.1 frame)
      (writeLoop fuel m b p picks) := by
  induction fuel generalizing m b q p picks with
  | zero =>
    obtain rfl : p = [] := eq_nil_of_length_eq_zero (by omega)
    rw [append_nil]
    exact ⟨h, ha, Untouched.refl m frame⟩
  | succ fuel ih =>
    cases p with
    | nil =>
      rw [append_nil]
      exact ⟨h, ha, Untouched.refl m frame⟩
    | cons x p =>
      refine (h.writeOnce ha (by simp) picks).bind fun r hr => ?_
      obtain ⟨hpos, hle, hholds, hapart, hsame⟩ := hr
      have hrest : ((x :: p).drop r.1).length ≤ fuel := by
        rw [length_drop]
        omega
      refine (ih hholds hapart hrest r.2.1).imp fun y hy => ?_
      rw [append_assoc, take_append_drop] at hy
      exact ⟨hy.1, hy.2.1, hsame.trans hy.2.2⟩

/-- `Write` appends its bytes to the queue. -/
theorem Holds.write (p : Bytes) (picks : List (Option Nat)) :
    Returns (fun x => x.1 = p.length ∧ Holds x.2.1 x.2.2 (q ++ p) ∧
        x.2.1.Apart (x.2.2.chunks ++ frame) ∧ m.Untouched x.2.1 frame)
      (write m b p picks) := by
  refine (h.writeLoop ha (Nat.le_refl _) picks).bind fun x hx => ?_
  exact ⟨rfl, hx⟩

end

end DataBuffer

/-! ## The buffers of a process -/

/-- The buffers of a process, and the chunks that they share. -/
structure BufferWorld where
  chunks : Chunks := {}
  buffers : List DataBuffer := []

/-- What happens to the buffers.  `picks` are the choices of the pools; a pool may also lose a
chunk to the garbage collector. -/
inductive BufferOp where
  | new (expected : Int64)
  | write (i : Nat) (p : Bytes) (picks : List (Option Nat))
  | read (i n : Nat)
  | collect (k : Nat)

inductive BufferAnswer where
  | done
  | wrote (n : Nat)
  /-- The bytes read, or nothing for `errReadEmpty`. -/
  | read (p : Option Bytes)
deriving DecidableEq

def BufferWorld.step (w : BufferWorld) : BufferOp → Except Fault (BufferAnswer × BufferWorld)
  | .new expected => .ok (.done, { w with buffers := w.buffers ++ [{ expected := expected }] })
  | .write i p picks =>
    match w.buffers[i]? with
    | none => .ok (.done, w)
    | some b => do
      let r ← b.write w.chunks p picks
      .ok (.wrote r.1, { chunks := r.2.1, buffers := w.buffers.set i r.2.2 })
  | .read i n =>
    match w.buffers[i]? with
    | none => .ok (.done, w)
    | some b => do
      let r ← b.read w.chunks n
      .ok (.read r.1, { chunks := r.2.1, buffers := w.buffers.set i r.2.2 })
  | .collect k =>
    .ok (.done, { w with chunks := { w.chunks with pooled := w.chunks.pooled.eraseIdx k } })

/-- The same for byte queues, which is what the buffers are for. -/
def queuesStep (qs : List Bytes) : BufferOp → BufferAnswer × List Bytes
  | .new _ => (.done, qs ++ [[]])
  | .write i p _ =>
    match qs[i]? with
    | none => (.done, qs)
    | some q => (.wrote p.length, qs.set i (q ++ p))
  | .read i n =>
    match qs[i]? with
    | none => (.done, qs)
    | some q => (.read (if q = [] then none else some (q.take n)), qs.set i (q.drop n))
  | .collect _ => (.done, qs)

namespace BufferWorld

open DataBuffer (Holds)

variable {w : BufferWorld} {qs : List Bytes}

/-- Each buffer holds its queue, and no chunk is in two places. -/
structure Refines (w : BufferWorld) (qs : List Bytes) : Prop where
  length : w.buffers.length = qs.length
  holds : ∀ (i : Nat) (b : DataBuffer) (q : Bytes), w.buffers[i]? = some b → qs[i]? = some q →
    Holds w.chunks b q
  apart : w.chunks.Apart (w.buffers.flatMap DataBuffer.chunks)

/-- The chunks of the other buffers. -/
def others (w : BufferWorld) (i : Nat) : List Nat :=
  (w.buffers.eraseIdx i).flatMap DataBuffer.chunks

variable {i : Nat} {b : DataBuffer}

theorem chunks_perm {buffers : List DataBuffer} (hb : buffers[i]? = some b) :
    (buffers.flatMap DataBuffer.chunks).Perm
      (b.chunks ++ (buffers.eraseIdx i).flatMap DataBuffer.chunks) := by
  obtain ⟨hlt, rfl⟩ := List.getElem?_eq_some_iff.mp hb
  exact ((getElem_cons_eraseIdx_perm hlt).flatMap_right _).symm

theorem Refines.own (h : Refines w qs) (hb : w.buffers[i]? = some b) :
    w.chunks.Apart (b.chunks ++ w.others i) :=
  h.apart.perm (chunks_perm hb).symm

/-- A call of a method of one buffer. -/
theorem Refines.call (h : Refines w qs) (hb : w.buffers[i]? = some b) {m : Chunks} {b' : DataBuffer}
    {q' : Bytes} (hholds : Holds m b' q') (hapart : m.Apart (b'.chunks ++ w.others i))
    (hsame : w.chunks.Untouched m (w.others i)) :
    Refines { chunks := m, buffers := w.buffers.set i b' } (qs.set i q') := by
  have hlt : i < w.buffers.length := (List.getElem?_eq_some_iff.mp hb).1
  refine ⟨?_, ?_, ?_⟩
  · rw [length_set, length_set]
    exact h.length
  · intro j d q hd hq
    rw [List.getElem?_set] at hd hq
    split_ifs at hd hq with hij hj
    · cases hd
      cases hq
      exact hholds
    · refine (h.holds j d q hd hq).congr fun c hc => hsame c ?_
      refine mem_flatMap.mpr ⟨d, ?_, hc⟩
      exact mem_eraseIdx_iff_getElem?.mpr ⟨j, Ne.symm hij, hd⟩
  · refine hapart.perm ?_
    have hset : (w.buffers.set i b')[i]? = some b' := by
      rw [List.getElem?_set_self hlt]
    have hperm := chunks_perm hset
    rw [eraseIdx_set_eq] at hperm
    exact hperm

/-- A step of the buffers answers as a step of the queues. -/
theorem Refines.step (h : Refines w qs) (op : BufferOp) :
    Returns (fun r => r.1 = (queuesStep qs op).1 ∧ Refines r.2 (queuesStep qs op).2)
      (w.step op) := by
  have hnone (i : Nat) (hi : w.buffers[i]? = none) : qs[i]? = none := by
    rw [List.getElem?_eq_none_iff] at hi ⊢
    rw [← h.length]
    exact hi
  have hsome (i : Nat) (b : DataBuffer) (hi : w.buffers[i]? = some b) : ∃ q, qs[i]? = some q := by
    obtain ⟨hlt, _⟩ := List.getElem?_eq_some_iff.mp hi
    rw [h.length] at hlt
    exact ⟨_, List.getElem?_eq_getElem hlt⟩
  cases op with
  | new expected =>
    refine ⟨rfl, ⟨by simp [queuesStep, h.length], ?_, ?_⟩⟩
    · intro i b q hb hq
      dsimp only [queuesStep] at hb hq
      rcases Nat.lt_trichotomy i w.buffers.length with hlt | rfl | hgt
      · rw [List.getElem?_append_left hlt] at hb
        rw [List.getElem?_append_left (h.length ▸ hlt)] at hq
        exact h.holds i b q hb hq
      · rw [List.getElem?_concat_length] at hb
        rw [h.length, List.getElem?_concat_length] at hq
        cases hb
        cases hq
        exact DataBuffer.holds_new w.chunks expected
      · rw [List.getElem?_eq_none (by simp; omega)] at hb
        cases hb
    · simpa using h.apart
  | write i p picks =>
    unfold BufferWorld.step queuesStep
    dsimp only
    cases hb : w.buffers[i]? with
    | none =>
      rw [hnone i hb]
      exact ⟨rfl, h⟩
    | some b =>
      obtain ⟨q, hq⟩ := hsome i b hb
      rw [hq]
      refine ((h.holds i b q hb hq).write (h.own hb) p picks).bind fun r hr => ?_
      obtain ⟨hn, hholds, hapart, hsame⟩ := hr
      exact ⟨congrArg BufferAnswer.wrote hn, h.call hb hholds hapart hsame⟩
  | read i n =>
    unfold BufferWorld.step queuesStep
    dsimp only
    cases hb : w.buffers[i]? with
    | none =>
      rw [hnone i hb]
      exact ⟨rfl, h⟩
    | some b =>
      obtain ⟨q, hq⟩ := hsome i b hb
      rw [hq]
      refine ((h.holds i b q hb hq).read (h.own hb) n).bind fun r hr => ?_
      obtain ⟨hp, hholds, hapart, hsame⟩ := hr
      exact ⟨congrArg BufferAnswer.read hp, h.call hb hholds hapart hsame⟩
  | collect k =>
    have hsub : ((w.chunks.pooled.eraseIdx k).map Prod.snd ++
        w.buffers.flatMap DataBuffer.chunks).Sublist
          (w.chunks.pooled.map Prod.snd ++ w.buffers.flatMap DataBuffer.chunks) :=
      ((eraseIdx_sublist _ k).map Prod.snd).append_right _
    refine ⟨rfl, ⟨h.length, fun i b q hb hq => ?_, ?_⟩⟩
    · exact (h.holds i b q hb hq).congr fun _ _ => rfl
    · exact ⟨h.apart.nodup.sublist hsub, fun c hc => h.apart.made c (hsub.subset hc), h.apart.sized⟩

theorem refines_nil : Refines {} [] where
  length := rfl
  holds _ _ _ h := by cases h
  apart := ⟨nodup_nil, nofun, nofun⟩

/-- The buffers refine byte queues, whatever the expected sizes are and whatever the pools
choose.  Every sequence of calls returns, with the answers of the queues; `Len` is the length of
the queue, and no chunk in a pool is a chunk of a buffer. -/
theorem dataBuffer_refines (ops : List BufferOp) :
    ∃ w, Lib.Run.trace step {} ops = .ok ((Lib.Run.specTrace queuesStep [] ops).1, w) ∧
      w.buffers.map DataBuffer.len =
        (Lib.Run.specTrace queuesStep [] ops).2.map (fun q => (q.length : Int)) ∧
      ∀ b ∈ w.buffers, ∀ c ∈ b.chunks, c ∉ w.chunks.pooled.map Prod.snd := by
  have hrun := Lib.Run.trace_refines (R := Refines) (fun w qs op h => h.step op) refines_nil ops
  obtain ⟨⟨answers, w⟩, hok, hanswers, h⟩ := Lib.Panic.returns_iff.mp hrun
  dsimp only at hanswers h
  refine ⟨w, by rw [hok, hanswers], ?_, ?_⟩
  · refine ext_getElem (by simp [h.length]) fun i hi hi' => ?_
    rw [length_map] at hi hi'
    rw [getElem_map, getElem_map]
    exact (h.holds i _ _ (List.getElem?_eq_getElem hi) (List.getElem?_eq_getElem hi')).size
  · intro b hb c hc hpool
    have hown : c ∈ w.buffers.flatMap DataBuffer.chunks := mem_flatMap.mpr ⟨b, hb, hc⟩
    exact (nodup_append.mp h.apart.nodup).2.2 c hpool c hown rfl

end BufferWorld

end Fhttp.Http2
