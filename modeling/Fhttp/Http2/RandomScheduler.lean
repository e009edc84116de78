import Mathlib.Data.List.AList
import Fhttp.Lib.Run
import Fhttp.Http2.WriteSched

/-!
# The random write scheduler

`randomWriteScheduler` of `http2/writesched_random.go`, with the `writeQueuePool` of
`http2/writesched.go`.  A queue is known by a number, its address, since the queues
that are not in use are kept in the pool and given to other streams.  Addresses from
`size` on are those of queues that have not been made yet.  The order in which `Pop`
goes through the map is a parameter of the call.

`Inv` says that no two streams share a queue and that the queues in the pool are empty
and belong to no stream.  The contract of delivery follows by the rules of
`Fhttp.Lib.Delivery`, since the frames of a stream are those in its queue.
-/

namespace Fhttp.Http2

open Lib.Panic Lib.Run Lib.Delivery
open Function (update update_eq_self update_of_ne update_self)
open List

/-- The address of a queue. -/
abbrev QueueRef := Nat

structure RandomWriteScheduler where
  zero : WriteQueue := {}
  sq : AList (fun _ : UInt32 => QueueRef) := ∅
  queuePool : List QueueRef := []
  /-- The queues by their addresses. -/
  queue : QueueRef → WriteQueue := fun _ => {}
  size : Nat := 0

namespace RandomWriteScheduler

open FrameWriteRequest (Splits)

theorem not_maxInt32_lt (n : Int32) : ¬ maxInt32 < n :=
  Int32.not_lt.mpr (Int32.le_iff_toInt_le.mpr (Int32.toInt_le n))

/-- `NewRandomWriteScheduler`. -/
def new : RandomWriteScheduler := {}

/-! ## The pool -/

/-- `put` of the pool. -/
def put (ws : RandomWriteScheduler) (q : QueueRef) : RandomWriteScheduler :=
  { ws with
    queue := Function.update ws.queue q {}
    queuePool := ws.queuePool ++ [q] }

/-- `get` of the pool: the queue, and the scheduler afterwards. -/
def get (ws : RandomWriteScheduler) : QueueRef × RandomWriteScheduler :=
  match ws.queuePool.getLast? with
  | none =>
    (ws.size, { ws with queue := Function.update ws.queue ws.size {}, size := ws.size + 1 })
  | some q => (q, { ws with queuePool := ws.queuePool.dropLast })

/-! ## The interface -/

/-- Idle streams are not tracked. -/
def openStream (ws : RandomWriteScheduler) (_streamID _pusherID : UInt32) :
    RandomWriteScheduler := ws

def closeStream (ws : RandomWriteScheduler) (streamID : UInt32) : RandomWriteScheduler :=
  match ws.sq.lookup streamID with
  | none => ws
  | some q => { ws with sq := ws.sq.erase streamID }.put q

/-- Priorities are ignored. -/
def adjustStream (ws : RandomWriteScheduler) (_streamID : UInt32) (_priority : PriorityParam) :
    RandomWriteScheduler := ws

/-- The queue of a stream, which is taken from the pool if there is none yet. -/
def queueFor (ws : RandomWriteScheduler) (id : UInt32) : QueueRef × RandomWriteScheduler :=
  match ws.sq.lookup id with
  | some q => (q, ws)
  | none =>
    let (q, ws) := ws.get
    (q, { ws with sq := ws.sq.insert id q })

def push (ws : RandomWriteScheduler) (wr : FrameWriteRequest) : RandomWriteScheduler :=
  if wr.streamID = 0 then { ws with zero := ws.zero.push wr }
  else
    let (q, ws) := ws.queueFor wr.streamID
    { ws with queue := Function.update ws.queue q ((ws.queue q).push wr) }

/-- The order in which a loop goes through the map. -/
structure MapOrder where
  order : List (Σ _ : UInt32, QueueRef) → List (Σ _ : UInt32, QueueRef)
  perm : ∀ l, (order l).Perm l

/-- What `Pop` returns, and the scheduler and the windows afterwards. -/
structure PopResult where
  ws : RandomWriteScheduler
  flows : Flows
  wr : Option FrameWriteRequest

/-- The loop of `Pop` over the entries of the map. -/
def popLoop (ws : RandomWriteScheduler) (flows : Flows) :
    List (Σ _ : UInt32, QueueRef) → Except Fault PopResult
  | [] => .ok ⟨ws, flows, none⟩
  | ⟨streamID, q⟩ :: entries => do
    let (wr, queue, flows) ← (ws.queue q).consume maxInt32 flows
    let ws := { ws with queue := Function.update ws.queue q queue }
    match wr with
    | none => ws.popLoop flows entries
    | some wr =>
      if queue.empty then return ⟨{ ws with sq := ws.sq.erase streamID }.put q, flows, some wr⟩
      else return ⟨ws, flows, some wr⟩

def pop (ws : RandomWriteScheduler) (flows : Flows) (range : MapOrder) : Except Fault PopResult :=
  if !ws.zero.empty then do
    let (wr, zero) ← ws.zero.shift
    return ⟨{ ws with zero := zero }, flows, some wr⟩
  else ws.popLoop flows (range.order ws.sq.entries)

/-- A call of the interface.  The windows and the order of the map at a call of `Pop`
are arbitrary. -/
inductive Call where
  | openStream (streamID pusherID : UInt32)
  | closeStream (streamID : UInt32)
  | adjustStream (streamID : UInt32) (priority : PriorityParam)
  | push (wr : FrameWriteRequest)
  | pop (flows : Flows) (range : MapOrder)

/-- The scheduler after a call. -/
def step (ws : RandomWriteScheduler) : Call → Except Fault RandomWriteScheduler
  | .openStream streamID pusherID => .ok (ws.openStream streamID pusherID)
  | .closeStream streamID => .ok (ws.closeStream streamID)
  | .adjustStream streamID priority => .ok (ws.adjustStream streamID priority)
  | .push wr => .ok (ws.push wr)
  | .pop flows range => (ws.pop flows range).map PopResult.ws

/-- The scheduler after a sequence of calls. -/
def run (ws : RandomWriteScheduler) (calls : List Call) : Except Fault RandomWriteScheduler :=
  calls.foldlM step ws

/-! ## The frames of a stream -/

/-- The frames of a stream that are queued, or those of the connection. -/
def queued (ws : RandomWriteScheduler) (id : UInt32) : List FrameWriteRequest :=
  if id = 0 then ws.zero.s
  else
    match ws.sq.lookup id with
    | some q => (ws.queue q).s
    | none => []

/-- Streams do not share queues, and the queues in the pool are empty and not in use. -/
structure Inv (ws : RandomWriteScheduler) : Prop where
  zero : ∀ wr ∈ ws.zero.s, wr.streamID = 0
  stream : ∀ {id q}, ws.sq.lookup id = some q →
    id ≠ 0 ∧ q < ws.size ∧ ∀ wr ∈ (ws.queue q).s, wr.streamID = id
  alone : ∀ {id id' q}, ws.sq.lookup id = some q → ws.sq.lookup id' = some q → id = id'
  used : ∀ {id q}, ws.sq.lookup id = some q → q ∉ ws.queuePool
  pool : ∀ q ∈ ws.queuePool, q < ws.size ∧ (ws.queue q).s = []
  nodup : ws.queuePool.Nodup

variable {ws : RandomWriteScheduler} {q : QueueRef} {id : UInt32}
  {h : List (Event UInt32 FrameWriteRequest)}

theorem inv_new : new.Inv where
  zero := nofun
  stream := nofun
  alone := nofun
  used := nofun
  pool := nofun
  nodup := .nil

theorem queued_of_ne_zero (hid : id ≠ 0) (hq : ws.sq.lookup id = some q) :
    ws.queued id = (ws.queue q).s := by
  unfold queued
  rw [if_neg hid, hq]

namespace Inv

section

variable (hinv : ws.Inv)

include hinv

/-- The queue of a stream changes. -/
theorem of_queue (hq : ws.sq.lookup id = some q) {x : WriteQueue}
    (hx : ∀ wr ∈ x.s, wr.streamID = id) :
    Inv { ws with queue := update ws.queue q x } ∧
      queued { ws with queue := update ws.queue q x } id = x.s ∧
      ∀ id', id' ≠ id → queued { ws with queue := update ws.queue q x } id' = ws.queued id' := by
  obtain ⟨hid, hlt, _⟩ := hinv.stream hq
  have hother : ∀ {id' r}, id' ≠ id → ws.sq.lookup id' = some r → r ≠ q := by
    intro id' r hne hr heq
    rw [heq] at hr
    exact hne (hinv.alone hr hq)
  refine ⟨⟨hinv.zero, fun {id' r} hr => ?_, hinv.alone, hinv.used, fun r hr => ?_, hinv.nodup⟩, ?_,
    fun id' hne => ?_⟩
  · obtain ⟨hid', hlt', hr'⟩ := hinv.stream hr
    refine ⟨hid', hlt', ?_⟩
    by_cases heq : id' = id
    · subst heq
      rw [hq] at hr
      cases hr
      show ∀ wr ∈ (update ws.queue q x q).s, _
      rw [update_self]
      exact hx
    · show ∀ wr ∈ (update ws.queue q x r).s, _
      rw [update_of_ne (hother heq hr)]
      exact hr'
  · obtain ⟨hlt', hempty⟩ := hinv.pool r hr
    refine ⟨hlt', ?_⟩
    show (update ws.queue q x r).s = []
    rw [update_of_ne]
    · exact hempty
    · intro heq
      rw [heq] at hr
      exact hinv.used hq hr
  · unfold queued
    simp only [if_neg hid, hq, update_self]
  · unfold queued
    split
    · rfl
    cases hr : ws.sq.lookup id' with
    | none => rfl
    | some r =>
      simp only
      rw [update_of_ne (hother hne hr)]

/-- A stream leaves the map, and its queue goes back to the pool. -/
theorem erase (hq : ws.sq.lookup id = some q) :
    Inv ({ ws with sq := ws.sq.erase id }.put q) ∧
      queued ({ ws with sq := ws.sq.erase id }.put q) id = [] ∧
      ∀ id', id' ≠ id → queued ({ ws with sq := ws.sq.erase id }.put q) id' = ws.queued id' := by
  obtain ⟨hid, hlt, _⟩ := hinv.stream hq
  obtain ⟨hinv', _, hqueued⟩ := hinv.of_queue hq (x := {}) nofun
  have hlookup : ∀ {id' r}, (ws.sq.erase id).lookup id' = some r →
      id' ≠ id ∧ ws.sq.lookup id' = some r := by
    intro id' r hr
    by_cases heq : id' = id
    · rw [heq, AList.lookup_erase] at hr
      cases hr
    · rw [AList.lookup_erase_ne heq] at hr
      exact ⟨heq, hr⟩
  refine ⟨⟨hinv.zero, fun hr => hinv'.stream (hlookup hr).2,
    fun hr hr' => hinv.alone (hlookup hr).2 (hlookup hr').2, fun {id' r} hr hmem => ?_,
    fun r hr => ?_, ?_⟩, ?_, fun id' hne => ?_⟩
  · obtain ⟨hne, hr⟩ := hlookup hr
    rcases mem_append.mp hmem with hmem | hmem
    · exact hinv.used hr hmem
    · rw [mem_singleton.mp hmem] at hr
      exact hne (hinv.alone hr hq)
  · rcases mem_append.mp hr with hr | hr
    · exact hinv'.pool r hr
    · rw [mem_singleton.mp hr]
      exact ⟨hlt, congrArg WriteQueue.s (update_self ..)⟩
  · refine nodup_append.mpr ⟨hinv.nodup, nodup_singleton q, fun a ha b hb heq => ?_⟩
    rw [← mem_singleton.mp hb, ← heq] at hq
    exact hinv.used hq ha
  · unfold queued put
    rw [if_neg hid]
    simp only [AList.lookup_erase]
  · rw [← hqueued id' hne]
    unfold queued put
    simp only [AList.lookup_erase_ne hne]

/-- The queue that comes from the pool is empty, and no stream has it. -/
theorem get :
    ws.get.2.Inv ∧ ws.get.1 < ws.get.2.size ∧ (ws.get.2.queue ws.get.1).s = [] ∧
      ws.get.1 ∉ ws.get.2.queuePool ∧ ws.get.2.sq = ws.sq ∧
      (∀ {id}, ws.sq.lookup id ≠ some ws.get.1) ∧ ws.get.2.queued = ws.queued := by
  unfold RandomWriteScheduler.get
  cases hlast : ws.queuePool.getLast? with
  | none =>
    have hfresh : ∀ {id r}, ws.sq.lookup id = some r → r ≠ ws.size :=
      fun hr => Nat.ne_of_lt (hinv.stream hr).2.1
    have hnil : ws.queuePool = [] := getLast?_eq_none_iff.mp hlast
    refine ⟨⟨hinv.zero, fun {id r} hr => ?_, hinv.alone, hinv.used, fun r hr => ?_, hinv.nodup⟩,
      Nat.lt_succ_self _, congrArg WriteQueue.s (update_self ..), ?_, rfl,
      fun hr => hfresh hr rfl, ?_⟩
    · obtain ⟨hid, hlt, hstream⟩ := hinv.stream hr
      refine ⟨hid, Nat.lt_succ_of_lt hlt, ?_⟩
      show ∀ wr ∈ (update ws.queue ws.size {} r).s, _
      rw [update_of_ne (hfresh hr)]
      exact hstream
    · rw [hnil] at hr
      cases hr
    · rw [hnil]
      exact not_mem_nil
    · funext id
      unfold queued
      split
      · rfl
      cases hr : ws.sq.lookup id with
      | none => rfl
      | some r =>
        simp only
        rw [update_of_ne (hfresh hr)]
  | some q =>
    have hpool : ws.queuePool = ws.queuePool.dropLast ++ [q] :=
      (dropLast_append_getLast? q hlast).symm
    have hmem : q ∈ ws.queuePool := mem_of_getLast? hlast
    have hsub : ∀ r ∈ ws.queuePool.dropLast, r ∈ ws.queuePool := fun r => mem_of_mem_dropLast
    have hnodup := hinv.nodup
    rw [hpool, nodup_append] at hnodup
    refine ⟨⟨hinv.zero, hinv.stream, hinv.alone, fun hr hmem' => hinv.used hr (hsub _ hmem'),
      fun r hr => hinv.pool r (hsub r hr), hnodup.1⟩, (hinv.pool q hmem).1, (hinv.pool q hmem).2,
      ?_, rfl, fun hr => hinv.used hr hmem, rfl⟩
    exact fun hmem' => hnodup.2.2 q hmem' q (mem_singleton_self q) rfl

/-- The queue of a stream, which may be a new one. -/
theorem queueFor (hid : id ≠ 0) :
    (ws.queueFor id).2.Inv ∧ (ws.queueFor id).2.sq.lookup id = some (ws.queueFor id).1 ∧
      (ws.queueFor id).2.queued = ws.queued := by
  unfold RandomWriteScheduler.queueFor
  cases hq : ws.sq.lookup id with
  | some q => exact ⟨hinv, hq, rfl⟩
  | none =>
    obtain ⟨hinv', hlt, hempty, hpool, hsq, hfresh, hqueued⟩ := hinv.get
    generalize ws.get = r at hinv' hlt hempty hpool hsq hfresh hqueued
    obtain ⟨q, ws'⟩ := r
    have hlookup : ∀ {id' r}, (ws'.sq.insert id q).lookup id' = some r →
        (id' = id ∧ r = q) ∨ (id' ≠ id ∧ ws'.sq.lookup id' = some r) := by
      intro id' r hr
      by_cases heq : id' = id
      · rw [heq, AList.lookup_insert] at hr
        exact .inl ⟨heq, (Option.some.inj hr).symm⟩
      · rw [AList.lookup_insert_ne heq] at hr
        exact .inr ⟨heq, hr⟩
    refine ⟨⟨hinv'.zero, fun hr => ?_, fun hr₁ hr₂ => ?_, fun hr => ?_, hinv'.pool, hinv'.nodup⟩,
      AList.lookup_insert _, ?_⟩
    · rcases hlookup hr with ⟨rfl, rfl⟩ | ⟨_, hr⟩
      · refine ⟨hid, hlt, ?_⟩
        rw [hempty]
        exact fun wr hwr => by cases hwr
      · exact hinv'.stream hr
    · rcases hlookup hr₁ with ⟨hid₁, hr₁⟩ | ⟨_, hr₁⟩
      · rcases hlookup hr₂ with ⟨hid₂, _⟩ | ⟨_, hr₂⟩
        · rw [hid₁, hid₂]
        · rw [hsq, hr₁] at hr₂
          exact (hfresh hr₂).elim
      · rcases hlookup hr₂ with ⟨_, hr₂⟩ | ⟨_, hr₂⟩
        · rw [hsq, hr₂] at hr₁
          exact (hfresh hr₁).elim
        · exact hinv'.alone hr₁ hr₂
    · rcases hlookup hr with ⟨rfl, rfl⟩ | ⟨_, hr⟩
      · exact hpool
      · exact hinv'.used hr
    · rw [← hqueued]
      funext id'
      unfold queued
      by_cases heq : id' = id
      · rw [heq, if_neg hid, if_neg hid]
        simp only [AList.lookup_insert]
        rw [hsq, hq, hempty]
      · simp only [AList.lookup_insert_ne heq]

theorem closeStream (id : UInt32) :
    (ws.closeStream id).Inv ∧ (id ≠ 0 → (ws.closeStream id).queued id = []) ∧
      ∀ id', (id = 0 ∨ id' ≠ id) → (ws.closeStream id).queued id' = ws.queued id' := by
  unfold RandomWriteScheduler.closeStream
  cases hq : ws.sq.lookup id with
  | none =>
    refine ⟨hinv, fun hid => ?_, fun _ _ => rfl⟩
    unfold queued
    rw [if_neg hid, hq]
  | some q =>
    obtain ⟨hinv', hempty, hother⟩ := hinv.erase hq
    exact ⟨hinv', fun _ => hempty, fun id' hne =>
      hother id' (hne.resolve_left (hinv.stream hq).1)⟩

theorem push (wr : FrameWriteRequest) :
    (ws.push wr).Inv ∧ (ws.push wr).queued wr.streamID = ws.queued wr.streamID ++ [wr] ∧
      ∀ id, id ≠ wr.streamID → (ws.push wr).queued id = ws.queued id := by
  unfold RandomWriteScheduler.push
  by_cases hid : wr.streamID = 0
  · rw [if_pos hid]
    refine ⟨⟨fun wr' hwr' => ?_, hinv.stream, hinv.alone, hinv.used, hinv.pool, hinv.nodup⟩, ?_,
      fun id hne => ?_⟩
    · rcases mem_append.mp hwr' with hwr' | hwr'
      · exact hinv.zero wr' hwr'
      · rw [mem_singleton.mp hwr']
        exact hid
    · unfold queued
      rw [if_pos hid, if_pos hid]
      rfl
    · unfold queued
      rw [if_neg (hid ▸ hne), if_neg (hid ▸ hne)]
  · rw [if_neg hid]
    obtain ⟨hinv', hq, hqueued⟩ := hinv.queueFor hid
    have hold := queued_of_ne_zero hid hq
    obtain ⟨_, _, hstream⟩ := hinv'.stream hq
    rw [← hqueued, hold]
    refine hinv'.of_queue hq fun wr' hwr' => ?_
    rcases mem_append.mp hwr' with hwr' | hwr'
    · exact hstream wr' hwr'
    · rw [mem_singleton.mp hwr']

/-- The loop of `Pop` takes the first frame that it finds in a queue and that is not
blocked. -/
theorem popLoop (flows : Flows) {entries : List (Σ _ : UInt32, QueueRef)}
    (hentries : ∀ e ∈ entries, ws.sq.lookup e.1 = some e.2) :
    ∃ s, ws.popLoop flows entries = .ok s ∧
      ((s.wr = none ∧ s.ws = ws ∧
          ∀ e ∈ entries, ∀ wr ∈ (ws.queued e.1).head?, wr.Blocked maxInt32 flows) ∨
        ∃ wr, s.wr = some wr ∧ s.ws.Inv ∧
          Takes Splits (ws.queued wr.streamID) wr (s.ws.queued wr.streamID) ∧
          (∀ id, id ≠ wr.streamID → s.ws.queued id = ws.queued id) ∧
          ∃ id, id ≠ 0 ∧ ∃ wr ∈ (ws.queued id).head?, ¬ wr.Blocked maxInt32 flows) := by
  induction entries with
  | nil => exact ⟨⟨ws, flows, none⟩, rfl, .inl ⟨rfl, rfl, fun e he => by cases he⟩⟩
  | cons e entries ih =>
    obtain ⟨id, q⟩ := e
    have hq : ws.sq.lookup id = some q := hentries ⟨id, q⟩ mem_cons_self
    obtain ⟨hid, _, hstream⟩ := hinv.stream hq
    have hqueued := queued_of_ne_zero hid hq
    have hsound : ∀ wr ∈ (ws.queue q).s.head?, wr.Sound := fun wr hwr =>
      FrameWriteRequest.sound_of_streamID_ne (by
        rw [hstream wr (mem_of_mem_head? hwr)]
        exact hid)
    unfold RandomWriteScheduler.popLoop
    rcases (ws.queue q).consume_cases maxInt32 flows hsound with
      ⟨hconsume, hblocked⟩ | ⟨wr, rest, flows', hconsume, htakes, hfree⟩
    · obtain ⟨s, hs, hcases⟩ := ih fun e he => hentries e (mem_cons_of_mem _ he)
      rw [hconsume]
      simp only [bind, Except.bind, update_eq_self]
      refine ⟨s, hs, hcases.imp_left fun ⟨hwr, hws, hrest⟩ => ⟨hwr, hws, fun e he => ?_⟩⟩
      rcases mem_cons.mp he with rfl | he
      · rw [hqueued]
        exact hblocked
      · exact hrest e he
    · have hwr : wr.streamID = id :=
        htakes.of_forall (fun _ _ _ hsplits hf => hsplits.streamID_consumed.trans hf) hstream
      subst hwr
      obtain ⟨hinv', hself, hother⟩ := hinv.of_queue hq (x := ⟨rest⟩)
        (htakes.forall_rest (fun _ _ _ hsplits hf => hsplits.streamID_rest.trans hf) hstream)
      have hready : ∃ id, id ≠ 0 ∧ ∃ wr ∈ (ws.queued id).head?, ¬ wr.Blocked maxInt32 flows :=
        ⟨_, hid, by rw [hqueued]; exact hfree⟩
      rw [← hqueued] at htakes
      rw [hconsume]
      simp only [bind, Except.bind]
      split
      · rename_i hempty
        have hrest : rest = [] := eq_nil_of_length_eq_zero (beq_iff_eq.mp hempty)
        obtain ⟨hinv'', hself', hother'⟩ := hinv'.erase hq
        refine ⟨_, rfl, .inr ⟨wr, rfl, hinv'', ?_, fun id hne => ?_, hready⟩⟩
        · rw [hself', ← hrest]
          exact htakes
        · exact (hother' id hne).trans (hother id hne)
      · refine ⟨_, rfl, .inr ⟨wr, rfl, hinv', ?_, hother, hready⟩⟩
        rw [hself]
        exact htakes

/-- The cases of `Pop`. -/
theorem pop (flows : Flows) (range : MapOrder) :
    ∃ s, ws.pop flows range = .ok s ∧
      ((s.wr = none ∧ s.ws = ws ∧ ws.zero.s = [] ∧
          ∀ id, id ≠ 0 → ∀ wr ∈ (ws.queued id).head?, wr.Blocked maxInt32 flows) ∨
        ∃ wr, s.wr = some wr ∧ s.ws.Inv ∧
          Takes Splits (ws.queued wr.streamID) wr (s.ws.queued wr.streamID) ∧
          (∀ id, id ≠ wr.streamID → s.ws.queued id = ws.queued id) ∧
          (ws.zero.s.head? = some wr ∨ ws.zero.s = [] ∧
            ∃ id, id ≠ 0 ∧ ∃ wr ∈ (ws.queued id).head?, ¬ wr.Blocked maxInt32 flows)) := by
  unfold RandomWriteScheduler.pop
  cases hzero : ws.zero.s with
  | cons wr rest =>
    have hempty : (!ws.zero.empty) = true := by simp [WriteQueue.empty, hzero]
    have hshift : ws.zero.shift = .ok (wr, ⟨rest⟩) := by simp only [WriteQueue.shift, hzero]
    have hstream : ∀ wr' ∈ wr :: rest, wr'.streamID = 0 := by
      rw [← hzero]
      exact hinv.zero
    have hid := hstream wr mem_cons_self
    rw [if_pos hempty, hshift]
    refine ⟨_, rfl, .inr ⟨wr, rfl, ⟨fun wr' hwr' => hstream wr' (mem_cons_of_mem _ hwr'),
      hinv.stream, hinv.alone, hinv.used, hinv.pool, hinv.nodup⟩, ?_, fun id hne => ?_, .inl rfl⟩⟩
    · unfold queued
      rw [hid, if_pos rfl, if_pos rfl, hzero]
      exact .whole ..
    · unfold queued
      rw [if_neg (hid ▸ hne), if_neg (hid ▸ hne)]
  | nil =>
    have hempty : (!ws.zero.empty) = false := by simp [WriteQueue.empty, hzero]
    have hperm := range.perm ws.sq.entries
    have hentries : ∀ e ∈ range.order ws.sq.entries, ws.sq.lookup e.1 = some e.2 :=
      fun e he => AList.mem_lookup_iff.mpr (hperm.mem_iff.mp he)
    obtain ⟨s, hs, hcases⟩ := hinv.popLoop flows hentries
    rw [hempty, if_neg Bool.false_ne_true]
    refine ⟨s, hs, ?_⟩
    rcases hcases with ⟨hwr, hws, hblocked⟩ | ⟨wr, hwr, hinv', htakes, hother, hready⟩
    · refine .inl ⟨hwr, hws, rfl, fun id hid wr hhead => ?_⟩
      cases hq : ws.sq.lookup id with
      | none =>
        unfold queued at hhead
        rw [if_neg hid, hq] at hhead
        cases hhead
      | some q =>
        exact hblocked ⟨id, q⟩ (hperm.mem_iff.mpr (AList.mem_lookup_iff.mp hq)) wr hhead
    · exact .inr ⟨wr, hwr, hinv', htakes, hother, .inr ⟨rfl, hready⟩⟩

end

end Inv

/-! ## Runs -/

/-- What a call does to the queues.  The connection is not a stream that can be
closed. -/
def events (ws : RandomWriteScheduler) : Call → List (Event UInt32 FrameWriteRequest)
  | .push wr => [.push wr]
  | .closeStream streamID => if streamID = 0 then [] else [.close streamID]
  | .pop flows range =>
    match ws.pop flows range with
    | .ok s => (s.wr.map Event.pop).toList
    | .error _ => []
  | .openStream _ _ => []
  | .adjustStream _ _ => []

/-- What the calls of a sequence do to the queues. -/
def history : RandomWriteScheduler → List Call → List (Event UInt32 FrameWriteRequest) :=
  log step events

/-- The scheduler has delivered the frames in order. -/
structure Contract (ws : RandomWriteScheduler) (h : List (Event UInt32 FrameWriteRequest)) :
    Prop where
  inv : ws.Inv
  delivered : Delivered FrameWriteRequest.streamID Splits FrameWriteRequest.payload h ws.queued

theorem contract_new : Contract new [] := by
  refine ⟨inv_new, ?_⟩
  have hqueued : new.queued = fun _ => [] := by
    funext id
    unfold queued
    split <;> rfl
  rw [hqueued]
  exact .nil ..

theorem Contract.step (hc : Contract ws h) (c : Call) :
    ∃ ws', ws.step c = .ok ws' ∧ Contract ws' (h ++ ws.events c) := by
  cases c with
  | openStream streamID pusherID =>
    refine ⟨ws, rfl, ?_⟩
    rw [events, append_nil]
    exact hc
  | adjustStream streamID priority =>
    refine ⟨ws, rfl, ?_⟩
    rw [events, append_nil]
    exact hc
  | closeStream streamID =>
    obtain ⟨hinv, hempty, hother⟩ := hc.inv.closeStream streamID
    refine ⟨_, rfl, hinv, ?_⟩
    rw [events]
    by_cases hid : streamID = 0
    · have hqueued : (ws.closeStream streamID).queued = ws.queued :=
        funext fun id => hother id (.inl hid)
      rw [if_pos hid, append_nil, hqueued]
      exact hc.delivered
    · rw [if_neg hid]
      refine hc.delivered.close (q := ws.queued streamID) ?_ ?_ fun id hne => hother id (.inr hne)
      · rw [hempty hid, nil_append]
      · rw [hempty hid]
        rfl
  | push wr =>
    obtain ⟨hinv, hqueued, hother⟩ := hc.inv.push wr
    exact ⟨_, rfl, hinv, hc.delivered.push hqueued hother⟩
  | pop flows range =>
    obtain ⟨s, hpop, hcases⟩ := hc.inv.pop flows range
    have hevents : ws.events (.pop flows range) = (s.wr.map Event.pop).toList := by
      simp only [events, hpop]
    refine ⟨s.ws, ?_, ?_⟩
    · show (ws.pop flows range).map PopResult.ws = .ok s.ws
      rw [hpop]
      rfl
    rw [hevents]
    rcases hcases with ⟨hwr, hws, _⟩ | ⟨wr, hwr, hinv, htakes, hother, _⟩
    · rw [hwr, hws, Option.map_none, Option.toList_none, append_nil]
      exact hc
    · rw [hwr, Option.map_some, Option.toList_some]
      exact ⟨hinv, hc.delivered.take (fun _ _ _ hsplits => hsplits.payload_eq) htakes hother⟩

theorem Contract.run (hc : Contract ws h) (calls : List Call) :
    ∃ ws', ws.run calls = .ok ws' ∧ Contract ws' (h ++ history ws calls) :=
  returns_iff.mp (outcome_of_log (J := fun ws _ h => Contract ws h)
    (fun _ c _ _ hc => returns_iff.mpr (hc.step c)) hc)

/-- No call panics.  After any calls there is an account of the frames of each stream
and of the connection: in push order, what of a frame was popped, and whether the rest
is queued or was discarded when the stream was closed later.  The bytes that were
popped since the stream was closed last are the beginning of those that were pushed.
`Pop` returns a frame of the connection if there is one, and no frame exactly if there
is none and the queue of every stream is empty or its first frame is blocked, which
means that it has bytes and the window is not positive. -/
theorem random_delivered (calls : List Call) :
    ∃ ws, new.run calls = .ok ws ∧
      (∀ id, (∃ es, Ledger FrameWriteRequest.streamID Splits (history new calls) id
          (ws.queued id) es) ∧
        (popped FrameWriteRequest.streamID id (since id (history new calls))).flatMap
            FrameWriteRequest.payload <+:
          (pushed FrameWriteRequest.streamID id (since id (history new calls))).flatMap
            FrameWriteRequest.payload) ∧
      ∀ flows range, ∃ s, ws.pop flows range = .ok s ∧
        (∀ wr ∈ (ws.queued 0).head?, s.wr = some wr) ∧
        (s.wr = none ↔ ws.queued 0 = [] ∧
          ∀ id, id ≠ 0 → ∀ wr ∈ (ws.queued id).head?, wr.Blocked maxInt32 flows) ∧
        (0 < flows.maxFrameSize → ∀ wr : FrameWriteRequest,
          wr.Blocked maxInt32 flows ↔ 0 < wr.dataSize ∧ flows.available wr.streamID ≤ 0) := by
  obtain ⟨ws, hrun, hc⟩ := contract_new.run calls
  refine ⟨ws, hrun, fun id => ⟨hc.delivered.ledger id, (hc.delivered.balanced id).isPrefix_popped⟩,
    fun flows range => ?_⟩
  obtain ⟨s, hpop, hcases⟩ := hc.inv.pop flows range
  refine ⟨s, hpop, ?_⟩
  have hconn : ws.queued 0 = ws.zero.s := if_pos rfl
  have hwindow : 0 < flows.maxFrameSize → ∀ wr : FrameWriteRequest,
      wr.Blocked maxInt32 flows ↔ 0 < wr.dataSize ∧ flows.available wr.streamID ≤ 0 :=
    fun hmax wr => and_congr_right fun _ => Flows.allowed_le_zero_iff hmax not_maxInt32_lt _
  rw [hconn]
  rcases hcases with ⟨hwr, _, hzero, hblocked⟩ | ⟨wr, hwr, _, _, _, hfirst⟩
  · refine ⟨fun wr hhead => ?_, ⟨fun _ => ⟨hzero, hblocked⟩, fun _ => hwr⟩, hwindow⟩
    rw [hzero] at hhead
    cases hhead
  refine ⟨fun wr' hhead => ?_, ⟨fun hnone => ?_, fun ⟨hzero, hblocked⟩ => ?_⟩, hwindow⟩
  · rcases hfirst with hhead' | ⟨hzero, _⟩
    · rw [hwr, ← hhead']
      exact hhead
    · rw [hzero] at hhead
      cases hhead
  · rw [hwr] at hnone
    cases hnone
  · rcases hfirst with hhead | ⟨_, id, hid, wr', hhead, hfree⟩
    · rw [hzero] at hhead
      cases hhead
    · exact (hfree (hblocked id hid wr' hhead)).elim

end RandomWriteScheduler

end Fhttp.Http2
