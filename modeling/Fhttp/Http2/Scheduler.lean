import Fhttp.Http2.RandomScheduler

/-!
# What the server needs of a write scheduler

The interface `WriteScheduler` of `http2/writesched.go`, as the server uses it.  `Pop` of the
source reads and changes the windows of the connection, so they are passed along.

`Lawful` is the part of the contract that the accounts of the server rest on.  A frame that
`Pop` returns fits the windows and the frame size of the peer, and its bytes are taken from
both windows (`Drawn`).  The number of control frames that are held goes up by those that
are pushed and down by those that are popped, and a call that closes or moves a stream adds
none; it may discard some.  No method takes more from a window than there is.

The random scheduler is lawful (`random_lawful`).
-/

namespace Fhttp.Http2

open Lib.Panic Lib.Delivery
open Function (update update_eq_self update_of_ne update_self)
open RandomWriteScheduler
open FrameWriteRequest
open List

/-- The panic of `take` of a window. -/
def tookTooMuch : Fault := .panic "internal error: took too much"

namespace FrameWriteRequest

/-- `isControl`: the frame counts as a control frame. -/
def isControl (wr : FrameWriteRequest) : Bool := wr.stream.isNone

/-- A DATA frame with bytes is for a stream. -/
def Addressed (wr : FrameWriteRequest) : Prop := 0 < wr.dataSize → wr.streamID ≠ 0

variable {wr : FrameWriteRequest}

theorem Addressed.sound (h : wr.Addressed) : wr.Sound :=
  fun hsize => sound_of_streamID_ne (h hsize) hsize

theorem Addressed.payload_eq_nil (h : wr.Addressed) (hid : wr.streamID = 0) : wr.payload = [] := by
  apply eq_nil_of_length_eq_zero
  rw [← dataSize_eq]
  exact Nat.eq_zero_of_not_pos fun hpos => h hpos hid

end FrameWriteRequest

/-- The number of control frames in a list. -/
def controls (l : List FrameWriteRequest) : Nat := l.countP isControl

@[simp] theorem controls_nil : controls [] = 0 := rfl

theorem controls_append (l l' : List FrameWriteRequest) :
    controls (l ++ l') = controls l + controls l' := countP_append

theorem controls_cons (wr : FrameWriteRequest) (l : List FrameWriteRequest) :
    controls (wr :: l) = controls [wr] + controls l := controls_append [wr] l

variable {wr : FrameWriteRequest} {s s' : List FrameWriteRequest} {fl fl' : Flows} {n : Int32}

theorem controls_of_stream (h : wr.stream ≠ none) : controls [wr] = 0 := by
  show [wr].countP isControl = 0
  rw [countP_singleton, isControl, if_neg]
  simpa using h

/-- A frame that is taken from a queue is no longer counted there.  A DATA frame of a stream
may be split; it is no control frame, and neither are its parts. -/
theorem controls_takes (h : Takes Splits s wr s') (hs : ∀ wr ∈ s, wr.Sound) :
    controls s' + controls [wr] = controls s := by
  cases h with
  | whole wr s' =>
    rw [controls_cons wr s']
    omega
  | part hsplits s' =>
    have hstream := hs _ mem_cons_self hsplits.dataSize_pos
    cases hsplits with
    | data streamID p p' endStream stream done hp hp' =>
      have hdata : ∀ d e f, controls [⟨.writeData streamID d e, stream, f⟩] = 0 :=
        fun d e f => controls_of_stream hstream
      rw [controls_cons, controls_cons _ s', hdata, hdata, hdata]
      rfl

/-! ## The windows -/

/-- What a popped frame takes from the windows.  Without bytes it takes nothing. -/
structure Drawn (fl : Flows) (wr : FrameWriteRequest) (fl' : Flows) : Prop where
  stream : wr.payload ≠ [] → (wr.payload.length : Int) ≤ (fl.stream wr.streamID).toInt
  conn : wr.payload ≠ [] → (wr.payload.length : Int) ≤ fl.conn.toInt
  frameSize : wr.payload ≠ [] → (wr.payload.length : Int) ≤ fl.maxFrameSize.toInt
  taken : wr.payload ≠ [] → fl.take wr.streamID (Int32.ofNat wr.payload.length) = .ok fl'
  none : wr.payload = [] → fl' = fl

theorem drawn_of_nil (fl : Flows) (h : wr.payload = []) : Drawn fl wr fl :=
  ⟨fun hne => (hne h).elim, fun hne => (hne h).elim, fun hne => (hne h).elim,
    fun hne => (hne h).elim, fun _ => rfl⟩

/-- Bytes that `Consume` may take fit all three limits. -/
theorem drawn_of_allowed (hle : (wr.payload.length : Int) ≤ (fl.allowed wr.streamID n).toInt)
    (htake : fl.take wr.streamID (Int32.ofNat wr.payload.length) = .ok fl')
    (hne : wr.payload ≠ []) :
    Drawn fl wr fl' := by
  have havail : (fl.allowed wr.streamID n).toInt ≤ (fl.available wr.streamID).toInt :=
    Int32.le_iff_toInt_le.mp (fl.allowed_le_available wr.streamID n)
  have hmin := Flow.toInt_available (fl.stream wr.streamID) fl.conn
  have hstream : (fl.available wr.streamID).toInt ≤ (fl.stream wr.streamID).toInt :=
    hmin.trans_le (Int.min_le_left ..)
  have hconn : (fl.available wr.streamID).toInt ≤ fl.conn.toInt :=
    hmin.trans_le (Int.min_le_right ..)
  have hmax : (fl.allowed wr.streamID n).toInt ≤ fl.maxFrameSize.toInt := by
    unfold Flows.allowed
    simp only
    generalize (if n < fl.available wr.streamID then n else fl.available wr.streamID) = limit
    split
    · exact Int.le_refl _
    · rename_i hlt
      exact Int32.le_iff_toInt_le.mp (Int32.not_lt.mp hlt)
  exact ⟨fun _ => by omega, fun _ => by omega, fun _ => by omega, fun _ => htake,
    fun hnil => (hne hnil).elim⟩

/-- The frame that `Consume` returns, if it returns one. -/
def FrameWriteRequest.Consumed.frame? : Consumed → Option FrameWriteRequest
  | .nothing => none
  | .whole wr => some wr
  | .parts consumed _ => some consumed

/-- What a frame takes from the windows if there is one. -/
def DrawnOption (fl : Flows) : Option FrameWriteRequest → Flows → Prop
  | none, fl' => fl' = fl
  | some wr, fl' => Drawn fl wr fl'

/-- The first `k` bytes of a longer DATA frame, where `k` is what may be taken. -/
theorem drawn_part {id streamID : UInt32} {p : Hpack.Bytes} {k : Nat}
    (hk : (k : Int) = (fl.allowed id n).toInt) (hpos : 0 < k) (hlong : k < p.length)
    (htake : fl.take id (fl.allowed id n) = .ok fl') :
    Drawn fl ⟨.writeData streamID (p.take k) false, some id, none⟩ fl' := by
  have hmax : (fl.allowed id n).toInt ≤ 2147483647 := Int32.toInt_le _
  have hlen : (p.take k).length = k := by
    rw [length_take]
    omega
  have hofNat : Int32.ofNat k = fl.allowed id n := by
    apply Int32.toInt_inj.mp
    rw [Int32.toInt_ofNat_of_lt (by omega), hk]
  refine drawn_of_allowed (n := n) ?_ ?_ ?_
  · show ((p.take k).length : Int) ≤ (fl.allowed id n).toInt
    omega
  · show fl.take id (Int32.ofNat (p.take k).length) = .ok fl'
    rw [hlen, hofNat]
    exact htake
  · show p.take k ≠ []
    intro hnil
    rw [hnil, length_nil] at hlen
    omega

theorem FrameWriteRequest.consume_drawn (wr : FrameWriteRequest) (n : Int32) (fl : Flows) :
    Outcome (· ≠ tookTooMuch) (fun r => DrawnOption fl r.1.frame? r.2) (wr.consume n fl) := by
  obtain ⟨write, stream, done⟩ := wr
  cases write with
  | streamError id code => exact drawn_of_nil fl rfl
  | other tag => exact drawn_of_nil fl rfl
  | writeData streamID p endStream =>
    unfold consume
    simp only
    by_cases hp : p.length = 0
    · rw [if_pos hp]
      exact drawn_of_nil fl (eq_nil_of_length_eq_zero hp)
    rw [if_neg hp]
    cases stream with
    | none =>
      show Fault.panic _ ≠ tookTooMuch
      decide
    | some id =>
      have hne : p ≠ [] := fun hnil => hp (by rw [hnil]; rfl)
      simp only
      by_cases hblocked : fl.allowed id n ≤ 0
      · rw [if_pos hblocked]
        exact rfl
      rw [if_neg hblocked]
      have hpos : 0 < (fl.allowed id n).toInt := Int32.lt_iff_toInt_lt.mp (Int32.not_le.mp hblocked)
      by_cases hlong : (p.length : Int) > (fl.allowed id n).toInt
      · obtain ⟨fl', htake⟩ := Flows.take_eq (fl.allowed_le_available id n)
        rw [if_pos hlong, htake]
        have hk : ((fl.allowed id n).toInt.toNat : Int) = (fl.allowed id n).toInt :=
          Int.toNat_of_nonneg (Int.le_of_lt hpos)
        exact drawn_part hk (by omega) (by omega) htake
      · have hshort : (p.length : Int) ≤ (fl.allowed id n).toInt := Int.not_lt.mp hlong
        obtain ⟨fl', htake⟩ := Flows.take_allowed hshort
        rw [if_neg hlong, htake]
        have hdrawn : Drawn fl ⟨.writeData streamID p endStream, some id, done⟩ fl' :=
          drawn_of_allowed (n := n) hshort htake hne
        exact hdrawn

theorem WriteQueue.consume_drawn (q : WriteQueue) (n : Int32) (fl : Flows) :
    Outcome (· ≠ tookTooMuch) (fun r => DrawnOption fl r.1 r.2.2) (q.consume n fl) := by
  unfold WriteQueue.consume
  split
  · exact rfl
  · rename_i wr s _
    refine (wr.consume_drawn n fl).bind fun r hr => ?_
    obtain ⟨result, fl'⟩ := r
    cases result <;> exact hr

/-- What `consume` does to a queue, if it does not fail. -/
theorem WriteQueue.consume_takes (q : WriteQueue) (n : Int32) (fl : Flows) :
    Yields (fun r => (r.1 = none → r.2.1 = q) ∧
      ∀ wr ∈ r.1, Takes Splits q.s wr r.2.1.s) (q.consume n fl) := by
  by_cases hsound : ∀ wr ∈ q.s.head?, wr.Sound
  · rcases q.consume_cases n fl hsound with ⟨hconsume, _⟩ | ⟨wr, s', fl', hconsume, htakes, _⟩
    · rw [hconsume]
      exact ⟨fun _ => rfl, fun wr hwr => by cases hwr⟩
    · rw [hconsume]
      refine ⟨nofun, fun wr' hwr' => ?_⟩
      cases hwr'
      exact htakes
  · obtain ⟨wr, hwr⟩ := not_forall.mp hsound
    obtain ⟨hhead, hwr⟩ := Classical.not_imp.mp hwr
    rw [WriteQueue.consume_of_not_sound hhead hwr]
    trivial

/-! ## The interface -/

/-- A `WriteScheduler`.  `OpenStream` has the id of the stream and that of its pusher. -/
structure WriteScheduler where
  State : Type
  new : State
  openStream : State → UInt32 → UInt32 → Except Fault State
  closeStream : State → UInt32 → Except Fault State
  adjustStream : State → UInt32 → PriorityParam → Except Fault State
  push : State → FrameWriteRequest → Except Fault State
  /-- `Pop`: the frame, if any, and the windows and the scheduler afterwards. -/
  pop : State → Flows → Except Fault (Option FrameWriteRequest × Flows × State)
  /-- The number of control frames that are held. -/
  held : State → Nat
  /-- A frame is in a queue. -/
  Mem : State → FrameWriteRequest → Prop

/-- What holds of a frame holds of its parts. -/
def SplitClosed (P : FrameWriteRequest → Prop) : Prop :=
  ∀ f a b, Splits f a b → P f → P a ∧ P b

theorem SplitClosed.takes {P : FrameWriteRequest → Prop} (hP : SplitClosed P)
    (h : Takes Splits s wr s') (hs : ∀ f ∈ s, P f) : P wr ∧ ∀ f ∈ s', P f :=
  ⟨h.of_forall (fun f a b hsplits hf => (hP f a b hsplits hf).1) hs,
    h.forall_rest (fun f a b hsplits hf => (hP f a b hsplits hf).2) hs⟩

namespace WriteScheduler

variable (W : WriteScheduler)

/-- A call adds no frame. -/
structure Loses (s s' : W.State) : Prop where
  held : W.held s' ≤ W.held s
  mem : ∀ f, W.Mem s' f → W.Mem s f

/-- A frame is pushed. -/
structure Gains (s : W.State) (wr : FrameWriteRequest) (s' : W.State) : Prop where
  held : W.held s' = W.held s + controls [wr]
  mem : ∀ f, W.Mem s' f → f = wr ∨ W.Mem s f

/-- What `Pop` does. -/
structure Pops (s : W.State) (fl : Flows) (r : Option FrameWriteRequest × Flows × W.State) :
    Prop where
  drawn : DrawnOption fl r.1 r.2.1
  held : W.held r.2.2 + controls r.1.toList = W.held s
  mem : ∀ P, SplitClosed P → (∀ f, W.Mem s f → P f) →
    (∀ wr ∈ r.1, P wr) ∧ ∀ f, W.Mem r.2.2 f → P f

/-- The part of the contract on which the accounts of the server rest, in the states that
have `Ok`. -/
structure Lawful (Ok : W.State → Prop) : Prop where
  new : Ok W.new
  held_new : W.held W.new = 0
  mem_new : ∀ f, ¬ W.Mem W.new f
  openStream : ∀ {s} id pusherID, Ok s → id ≠ 0 → Outcome (· ≠ tookTooMuch)
    (fun s' => Ok s' ∧ W.Loses s s') (W.openStream s id pusherID)
  closeStream : ∀ {s} id, Ok s → Outcome (· ≠ tookTooMuch)
    (fun s' => Ok s' ∧ W.Loses s s') (W.closeStream s id)
  adjustStream : ∀ {s} id priority, Ok s → Outcome (· ≠ tookTooMuch)
    (fun s' => Ok s' ∧ W.Loses s s') (W.adjustStream s id priority)
  push : ∀ {s} {wr : FrameWriteRequest}, Ok s → wr.Addressed → Outcome (· ≠ tookTooMuch)
    (fun s' => Ok s' ∧ W.Gains s wr s') (W.push s wr)
  pop : ∀ {s} fl, Ok s → Outcome (· ≠ tookTooMuch)
    (fun r => Ok r.2.2 ∧ W.Pops s fl r) (W.pop s fl)

end WriteScheduler

/-! ## The random scheduler -/

namespace RandomWriteScheduler

variable {ws : RandomWriteScheduler} {q : QueueRef} {id : UInt32}

/-- The number of control frames in the queues of a list of entries of the map. -/
def controlsAt (queue : QueueRef → WriteQueue) (entries : List (Σ _ : UInt32, QueueRef)) : Nat :=
  (entries.map fun e => controls (queue e.2).s).sum

/-- The number of control frames that are held: those of the connection, and those in the
queues of the streams in the map. -/
def heldControls (ws : RandomWriteScheduler) : Nat :=
  controls ws.zero.s + controlsAt ws.queue ws.sq.entries

theorem controlsAt_append (queue : QueueRef → WriteQueue) (l l' : List (Σ _ : UInt32, QueueRef)) :
    controlsAt queue (l ++ l') = controlsAt queue l + controlsAt queue l' := by
  unfold controlsAt
  rw [map_append, sum_append]

theorem controlsAt_cons (queue : QueueRef → WriteQueue) (id : UInt32) (q : QueueRef)
    (l : List (Σ _ : UInt32, QueueRef)) :
    controlsAt queue (⟨id, q⟩ :: l) = controls (queue q).s + controlsAt queue l := by
  unfold controlsAt
  rw [map_cons, sum_cons]

theorem controlsAt_congr {queue queue' : QueueRef → WriteQueue}
    {l : List (Σ _ : UInt32, QueueRef)} (h : ∀ e ∈ l, (queue' e.2).s = (queue e.2).s) :
    controlsAt queue' l = controlsAt queue l := by
  unfold controlsAt
  congr 1
  refine map_congr_left fun e he => ?_
  rw [h e he]

section

variable (hinv : ws.Inv)

include hinv

section

variable (hq : ws.sq.lookup id = some q)

include hq

/-- The entry of a stream splits the map; no other stream has its queue. -/
theorem Inv.entries :
    ∃ l l', ws.sq.entries = l ++ ⟨id, q⟩ :: l' ∧ (ws.sq.erase id).entries = l ++ l' ∧
      ∀ e ∈ l ++ l', e.2 ≠ q := by
  have hmem : id ∈ ws.sq := AList.lookup_isSome.mp (by rw [hq]; rfl)
  obtain ⟨q', l, l', hl, hentries, herase⟩ := exists_of_kerase (AList.mem_keys.mp hmem)
  have hq' : q' = q := by
    have hin : (⟨id, q'⟩ : Σ _ : UInt32, QueueRef) ∈ ws.sq.entries := by
      rw [hentries]
      exact mem_append_right _ mem_cons_self
    have hlookup : ws.sq.lookup id = some q' := AList.mem_lookup_iff.mpr hin
    rw [hq] at hlookup
    exact (Option.some.inj hlookup).symm
  subst hq'
  refine ⟨l, l', hentries, herase, fun e he heq => ?_⟩
  have hin : e ∈ (ws.sq.erase id).entries := by
    show e ∈ ws.sq.entries.kerase id
    rw [herase]
    exact he
  have hlookup : (ws.sq.erase id).lookup e.1 = some e.2 := AList.mem_lookup_iff.mpr hin
  by_cases hid : e.1 = id
  · rw [hid, AList.lookup_erase] at hlookup
    cases hlookup
  · rw [AList.lookup_erase_ne hid, heq] at hlookup
    exact hid (hinv.alone hlookup hq)

/-- The queue of a stream changes. -/
theorem Inv.held_of_queue (x : WriteQueue) :
    heldControls { ws with queue := update ws.queue q x } + controls (ws.queue q).s =
      ws.heldControls + controls x.s := by
  obtain ⟨l, l', hentries, _, hother⟩ := hinv.entries hq
  have hkeep : controlsAt (update ws.queue q x) (l ++ l') = controlsAt ws.queue (l ++ l') :=
    controlsAt_congr fun e he => by rw [update_of_ne (hother e he)]
  rw [controlsAt_append, controlsAt_append] at hkeep
  unfold heldControls
  simp only
  rw [hentries, controlsAt_append, controlsAt_cons, controlsAt_append, controlsAt_cons, update_self]
  omega

/-- A stream leaves the map with the frames in its queue. -/
theorem Inv.held_erase :
    heldControls ({ ws with sq := ws.sq.erase id }.put q) + controls (ws.queue q).s =
      ws.heldControls := by
  obtain ⟨l, l', hentries, herase, hother⟩ := hinv.entries hq
  have hkeep : controlsAt (update ws.queue q {}) (l ++ l') = controlsAt ws.queue (l ++ l') :=
    controlsAt_congr fun e he => by rw [update_of_ne (hother e he)]
  unfold heldControls put
  simp only
  rw [herase, hkeep, hentries, controlsAt_append, controlsAt_append, controlsAt_cons]
  omega

end

theorem Inv.held_get : ws.get.2.heldControls = ws.heldControls := by
  unfold RandomWriteScheduler.get
  cases hlast : ws.queuePool.getLast? with
  | some q => rfl
  | none =>
    unfold heldControls
    simp only
    congr 1
    refine controlsAt_congr fun e he => ?_
    rw [update_of_ne]
    exact Nat.ne_of_lt (hinv.stream (AList.mem_lookup_iff.mpr he)).2.1

theorem Inv.held_queueFor (id : UInt32) : (ws.queueFor id).2.heldControls = ws.heldControls := by
  unfold RandomWriteScheduler.queueFor
  cases hq : ws.sq.lookup id with
  | some q => rfl
  | none =>
    obtain ⟨_, _, hempty, _, hsq, _, _⟩ := hinv.get
    have hget := hinv.held_get
    have hnew : id ∉ ws.get.2.sq := by
      rw [hsq]
      exact AList.lookup_eq_none.mp hq
    have hentries : (ws.get.2.sq.insert id ws.get.1).entries =
        ⟨id, ws.get.1⟩ :: ws.get.2.sq.entries := AList.entries_insert_of_notMem hnew
    rw [← hget]
    unfold heldControls
    rw [hentries, controlsAt_cons, hempty, controls_nil, Nat.zero_add]

theorem Inv.held_pushed (hq : ws.sq.lookup id = some q) (wr : FrameWriteRequest) :
    heldControls { ws with queue := update ws.queue q ((ws.queue q).push wr) } =
      ws.heldControls + controls [wr] := by
  have hheld := hinv.held_of_queue hq ((ws.queue q).push wr)
  have hadd : controls ((ws.queue q).push wr).s = controls (ws.queue q).s + controls [wr] :=
    controls_append ..
  omega

theorem Inv.held_push (wr : FrameWriteRequest) :
    (ws.push wr).heldControls = ws.heldControls + controls [wr] := by
  unfold RandomWriteScheduler.push
  by_cases hid : wr.streamID = 0
  · rw [if_pos hid]
    show controls (ws.zero.s ++ [wr]) + controlsAt ws.queue ws.sq.entries =
      controls ws.zero.s + controlsAt ws.queue ws.sq.entries + controls [wr]
    rw [controls_append]
    omega
  · rw [if_neg hid]
    obtain ⟨hinv', hq, _⟩ := hinv.queueFor hid
    rw [← hinv.held_queueFor wr.streamID]
    exact hinv'.held_pushed hq wr

theorem Inv.held_closeStream (id : UInt32) :
    (ws.closeStream id).heldControls ≤ ws.heldControls := by
  unfold RandomWriteScheduler.closeStream
  cases hq : ws.sq.lookup id with
  | none => exact Nat.le_refl _
  | some q =>
    have herase := hinv.held_erase hq
    show heldControls ({ ws with sq := ws.sq.erase id }.put q) ≤ _
    omega

end

/-- What the loop of `Pop` does to the windows, whatever the order of the map.  The frames
of the connection stay. -/
theorem popLoop_drawn (flows : Flows) (entries : List (Σ _ : UInt32, QueueRef)) :
    Outcome (· ≠ tookTooMuch) (fun r => DrawnOption flows r.wr r.flows ∧ r.ws.zero = ws.zero)
      (ws.popLoop flows entries) := by
  induction entries generalizing ws flows with
  | nil => exact ⟨rfl, rfl⟩
  | cons e entries ih =>
    refine ((ws.queue e.2).consume_drawn maxInt32 flows).bind fun r hr => ?_
    obtain ⟨wr, queue, flows'⟩ := r
    cases wr with
    | none =>
      have hsame : flows' = flows := hr
      subst hsame
      exact ih flows'
    | some wr =>
      simp only
      split <;> exact ⟨hr, rfl⟩

theorem Inv.popLoop_held (hinv : ws.Inv) (flows : Flows) {entries : List (Σ _ : UInt32, QueueRef)}
    (hentries : ∀ e ∈ entries, ws.sq.lookup e.1 = some e.2) :
    Returns (fun r => r.ws.heldControls + controls r.wr.toList = ws.heldControls)
      (ws.popLoop flows entries) := by
  induction entries with
  | nil => exact rfl
  | cons e entries ih =>
    obtain ⟨id, q⟩ := e
    have hq : ws.sq.lookup id = some q := hentries ⟨id, q⟩ mem_cons_self
    obtain ⟨hid, _, hstream⟩ := hinv.stream hq
    have hsound : ∀ wr ∈ (ws.queue q).s, wr.Sound := fun wr hwr =>
      sound_of_streamID_ne (by rw [hstream wr hwr]; exact hid)
    unfold RandomWriteScheduler.popLoop
    rcases (ws.queue q).consume_cases maxInt32 flows
        (fun wr hwr => hsound wr (mem_of_mem_head? hwr)) with
      ⟨hconsume, _⟩ | ⟨wr, rest, flows', hconsume, htakes, _⟩
    · rw [hconsume]
      simp only [bind, Except.bind, update_eq_self]
      exact ih fun e he => hentries e (mem_cons_of_mem _ he)
    have hcount := controls_takes htakes hsound
    have hheld := hinv.held_of_queue hq ⟨rest⟩
    simp only at hheld
    obtain ⟨hinv', _, _⟩ := hinv.of_queue hq (x := ⟨rest⟩)
      (htakes.forall_rest (fun _ _ _ hsplits hf => hsplits.streamID_rest.trans hf) hstream)
    rw [hconsume]
    simp only [bind, Except.bind]
    split
    · rename_i hempty
      have hrest : rest = [] := eq_nil_of_length_eq_zero (beq_iff_eq.mp hempty)
      subst hrest
      have herase := hinv'.held_erase hq
      simp only [update_self, controls_nil] at herase hheld hcount
      show heldControls (put { ws with
        sq := ws.sq.erase id, queue := update ws.queue q ⟨[]⟩ } q) + controls [wr] = _
      omega
    · show heldControls { ws with queue := update ws.queue q ⟨rest⟩ } + controls [wr] = _
      omega

/-- The frames of the connection have no bytes. -/
structure Ok (ws : RandomWriteScheduler) : Prop where
  inv : ws.Inv
  zero : ∀ wr ∈ ws.zero.s, wr.payload = []

theorem ok_new : new.Ok := ⟨inv_new, fun _ hwr => by cases hwr⟩

theorem Ok.closeStream (h : ws.Ok) (id : UInt32) : (ws.closeStream id).Ok := by
  refine ⟨(h.inv.closeStream id).1, ?_⟩
  unfold RandomWriteScheduler.closeStream
  split
  · exact h.zero
  · exact h.zero

variable {wr f : FrameWriteRequest} {P : FrameWriteRequest → Prop}

theorem zero_queueFor (id : UInt32) : (ws.queueFor id).2.zero = ws.zero := by
  unfold queueFor get
  cases ws.sq.lookup id with
  | some q => rfl
  | none => cases ws.queuePool.getLast? <;> rfl

theorem Ok.push (h : ws.Ok) (hwr : wr.Addressed) : (ws.push wr).Ok := by
  refine ⟨(h.inv.push wr).1, ?_⟩
  unfold RandomWriteScheduler.push
  by_cases hid : wr.streamID = 0
  · rw [if_pos hid]
    intro wr' hwr'
    rcases mem_append.mp hwr' with hwr' | hwr'
    · exact h.zero wr' hwr'
    · rw [mem_singleton.mp hwr']
      exact hwr.payload_eq_nil hid
  · rw [if_neg hid]
    rw [zero_queueFor]
    exact h.zero

/-- A frame is in a queue, be it that of a stream or not. -/
def Mem (ws : RandomWriteScheduler) (f : FrameWriteRequest) : Prop :=
  f ∈ ws.zero.s ∨ ∃ q, f ∈ (ws.queue q).s

/-- A frame that is in a queue after one queue was set. -/
theorem mem_of_update {x : WriteQueue} (h : ∃ r, f ∈ (update ws.queue q x r).s) :
    f ∈ x.s ∨ ∃ r, f ∈ (ws.queue r).s := by
  obtain ⟨r, hr⟩ := h
  by_cases heq : r = q
  · rw [heq, update_self] at hr
    exact .inl hr
  · rw [update_of_ne heq] at hr
    exact .inr ⟨r, hr⟩

theorem mem_closeStream (h : (ws.closeStream id).Mem f) : ws.Mem f := by
  unfold RandomWriteScheduler.closeStream at h
  split at h
  · exact h
  · refine h.imp (fun hz => hz) fun hq => ?_
    exact (mem_of_update hq).resolve_left nofun

theorem mem_push (h : (ws.push wr).Mem f) : f = wr ∨ ws.Mem f := by
  have hget : ∀ {r}, f ∈ (ws.get.2.queue r).s → ∃ r, f ∈ (ws.queue r).s := by
    intro r hr
    unfold RandomWriteScheduler.get at hr
    split at hr
    · exact (mem_of_update ⟨r, hr⟩).resolve_left nofun
    · exact ⟨r, hr⟩
  have hqueueFor : ∀ {r}, f ∈ ((ws.queueFor wr.streamID).2.queue r).s →
      ∃ r, f ∈ (ws.queue r).s := by
    intro r hr
    unfold RandomWriteScheduler.queueFor at hr
    split at hr
    · exact ⟨r, hr⟩
    · exact hget hr
  unfold RandomWriteScheduler.push at h
  by_cases hid : wr.streamID = 0
  · rw [if_pos hid] at h
    rcases h with hz | hq
    · rcases mem_append.mp hz with hz | hz
      · exact .inr (.inl hz)
      · exact .inl (mem_singleton.mp hz)
    · exact .inr (.inr hq)
  · rw [if_neg hid] at h
    rcases h with hz | hq
    · rw [zero_queueFor] at hz
      exact .inr (.inl hz)
    · rcases mem_of_update hq with hq | ⟨r, hr⟩
      · rcases mem_append.mp hq with hq | hq
        · exact .inr (.inr (hqueueFor hq))
        · exact .inl (mem_singleton.mp hq)
      · exact .inr (.inr (hqueueFor hr))

theorem popLoop_all (hP : SplitClosed P) (flows : Flows) (entries : List (Σ _ : UInt32, QueueRef))
    (h : ∀ f, ws.Mem f → P f) :
    Yields (fun r => (∀ wr ∈ r.wr, P wr) ∧ ∀ f, r.ws.Mem f → P f) (ws.popLoop flows entries) := by
  induction entries generalizing ws flows with
  | nil => exact ⟨fun wr hwr => (by cases hwr), h⟩
  | cons e entries ih =>
    refine ((ws.queue e.2).consume_takes maxInt32 flows).bind fun r hr => ?_
    obtain ⟨wr, queue, flows'⟩ := r
    have hqueue : ∀ f ∈ (ws.queue e.2).s, P f := fun f hf => h f (.inr ⟨e.2, hf⟩)
    have hset : (∀ f ∈ queue.s, P f) → ∀ (sq : AList fun _ : UInt32 => QueueRef) f,
        Mem { ws with sq := sq, queue := update ws.queue e.2 queue } f → P f := by
      intro hall sq f hf
      rcases hf with hz | hq
      · exact h f (.inl hz)
      · exact (mem_of_update hq).elim (hall f) fun hf => h f (.inr hf)
    cases wr with
    | none =>
      have hsame : queue = ws.queue e.2 := hr.1 rfl
      exact ih flows' (hset (by rw [hsame]; exact hqueue) ws.sq)
    | some wr =>
      obtain ⟨hwr, hrest⟩ := hP.takes (hr.2 wr rfl) hqueue
      have hframe : ∀ f ∈ some wr, P f := fun f hf => Option.some.inj hf ▸ hwr
      show Yields _ (if queue.empty then _ else _)
      split
      · refine ⟨hframe, fun f hf => ?_⟩
        rcases hf with hz | hq
        · exact h f (.inl hz)
        · rcases mem_of_update hq with hq | hq
          · cases hq
          · exact hset hrest ws.sq f (.inr hq)
      · exact ⟨hframe, hset hrest ws.sq⟩

theorem pop_all (hP : SplitClosed P) (flows : Flows) (range : MapOrder) (h : ∀ f, ws.Mem f → P f) :
    Yields (fun r => (∀ wr ∈ r.wr, P wr) ∧ ∀ f, r.ws.Mem f → P f) (ws.pop flows range) := by
  unfold pop
  split
  · cases hs : ws.zero.s with
    | nil =>
      simp only [WriteQueue.shift, hs]
      trivial
    | cons wr rest =>
      have hmem : ∀ f ∈ wr :: rest, P f := fun f hf => h f (.inl (hs ▸ hf))
      simp only [WriteQueue.shift, hs]
      refine ⟨fun f hf => Option.some.inj hf ▸ hmem wr mem_cons_self, fun f hf => ?_⟩
      rcases hf with hz | hq
      · exact hmem f (mem_cons_of_mem _ hz)
      · exact h f (.inr hq)
  · exact popLoop_all hP flows _ h

theorem Ok.pop (h : ws.Ok) (flows : Flows) (range : MapOrder) :
    Returns (fun r => r.ws.Ok ∧ DrawnOption flows r.wr r.flows ∧
      r.ws.heldControls + controls r.wr.toList = ws.heldControls) (ws.pop flows range) := by
  obtain ⟨r, hpop, hcases⟩ := h.inv.pop flows range
  have hinv : r.ws.Inv := by
    rcases hcases with ⟨_, hws, _⟩ | ⟨_, _, hinv, _⟩
    · rw [hws]
      exact h.inv
    · exact hinv
  rw [hpop]
  unfold RandomWriteScheduler.pop at hpop
  cases hs : ws.zero.s with
  | nil =>
    have hempty : ¬ (!ws.zero.empty) = true := by simp [WriteQueue.empty, hs]
    rw [if_neg hempty] at hpop
    have hentries : ∀ e ∈ range.order ws.sq.entries, ws.sq.lookup e.1 = some e.2 :=
      fun e he => AList.mem_lookup_iff.mpr ((range.perm _).mem_iff.mp he)
    have hdrawn : Outcome _ _ (ws.popLoop _ _) := popLoop_drawn flows (range.order ws.sq.entries)
    have hheld := h.inv.popLoop_held flows hentries
    rw [hpop] at hdrawn hheld
    refine ⟨⟨hinv, ?_⟩, hdrawn.1, hheld⟩
    rw [show r.ws.zero = ws.zero from hdrawn.2]
    exact h.zero
  | cons wr rest =>
    have hempty : (!ws.zero.empty) = true := by simp [WriteQueue.empty, hs]
    have hshift : ws.zero.shift = .ok (wr, ⟨rest⟩) := by simp only [WriteQueue.shift, hs]
    have hnil : ∀ wr' ∈ wr :: rest, wr'.payload = [] := by
      rw [← hs]
      exact h.zero
    rw [if_pos hempty, hshift] at hpop
    cases hpop
    refine ⟨⟨hinv, fun wr' hwr' => hnil wr' (mem_cons_of_mem _ hwr')⟩,
      drawn_of_nil flows (hnil wr mem_cons_self), ?_⟩
    show controls rest + controlsAt ws.queue ws.sq.entries + controls [wr] =
      controls ws.zero.s + controlsAt ws.queue ws.sq.entries
    rw [hs, controls_cons wr rest]
    omega

end RandomWriteScheduler

/-- `NewRandomWriteScheduler`, with the order of the map at each call of `Pop`. -/
def WriteScheduler.random (range : Nat → MapOrder) : WriteScheduler where
  State := RandomWriteScheduler × Nat
  new := (.new, 0)
  openStream s id pusherID := .ok (s.1.openStream id pusherID, s.2)
  closeStream s id := .ok (s.1.closeStream id, s.2)
  adjustStream s id priority := .ok (s.1.adjustStream id priority, s.2)
  push s wr := .ok (s.1.push wr, s.2)
  pop s fl := (s.1.pop fl (range s.2)).map fun r => (r.wr, r.flows, r.ws, s.2 + 1)
  held s := s.1.heldControls
  Mem s f := s.1.Mem f

theorem random_lawful (range : Nat → MapOrder) :
    (WriteScheduler.random range).Lawful fun s => s.1.Ok where
  new := ok_new
  held_new := rfl
  mem_new f h := by
    rcases h with hz | ⟨q, hq⟩
    · cases hz
    · cases hq
  openStream _ _ h _ := ⟨h, Nat.le_refl _, fun _ hf => hf⟩
  closeStream id h := ⟨h.closeStream id, h.inv.held_closeStream id,
    fun _ hf => mem_closeStream hf⟩
  adjustStream _ _ h := ⟨h, Nat.le_refl _, fun _ hf => hf⟩
  push h hwr := ⟨h.push hwr, h.inv.held_push _, fun _ hf => mem_push hf⟩
  pop := by
    intro s fl h
    obtain ⟨r, hpop, hok, hdrawn, hheld⟩ := returns_iff.mp (h.pop fl (range s.2))
    have hall : ∀ P, SplitClosed P → (∀ f, s.1.Mem f → P f) → _ := fun P hP hs =>
      yields_iff.mp (pop_all hP fl (range s.2) hs) r hpop
    show Outcome _ _ ((s.1.pop fl (range s.2)).map _)
    rw [hpop]
    exact ⟨hok, hdrawn, hheld, hall⟩

end Fhttp.Http2
