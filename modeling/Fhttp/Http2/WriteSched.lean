import Fhttp.Lib.Delivery
import Fhttp.Http2.Flow
import Fhttp.Http2.Frame

/-!
# Requests to write a frame

`FrameWriteRequest` and `writeQueue` of `http2/writesched.go`, on which the write
schedulers are built.

A stream is known by its id.  The windows of all streams, the window of the
connection and the frame size that the peer allows are passed along (`Flows`).
The pool of queues is that of the scheduler that uses it.
-/

namespace Fhttp.Http2

open Hpack (Bytes)
open Lib.Panic Lib.Delivery
open List

/-- `math.MaxInt32`. -/
def maxInt32 : Int32 := 2147483647

/-! ## Flow control -/

/-- The state that the streams of a connection share: the windows, and
`sc.maxFrameSize`. -/
structure Flows where
  /-- The field `n` of the flow of a stream. -/
  stream : UInt32 → Int32
  conn : Int32
  maxFrameSize : Int32

namespace Flows

/-- `available` of the flow of a stream, which has a connection-level flow. -/
def available (fl : Flows) (id : UInt32) : Int32 :=
  Flow.available (fl.stream id) fl.conn

def take (fl : Flows) (id : UInt32) (n : Int32) : Except Fault Flows := do
  let (stream, conn) ← Flow.take (fl.stream id) fl.conn n
  .ok { fl with stream := Function.update fl.stream id stream, conn }

/-- The number of bytes that `Consume` may take, with the limit `n`. -/
def allowed (fl : Flows) (id : UInt32) (n : Int32) : Int32 :=
  let allowed := fl.available id
  let allowed := if n < allowed then n else allowed
  if fl.maxFrameSize < allowed then fl.maxFrameSize else allowed

theorem ite_lt_le (a b : Int32) : (if a < b then a else b) ≤ b := by
  split
  · rename_i h
    exact Int32.le_of_lt h
  · exact Int32.le_refl b

theorem allowed_le_available (fl : Flows) (id : UInt32) (n : Int32) :
    fl.allowed id n ≤ fl.available id :=
  Int32.le_trans (ite_lt_le ..) (ite_lt_le ..)

variable {fl : Flows} {n : Int32} {id : UInt32}

/-- With the greatest limit, only a window that is not positive allows no bytes. -/
theorem allowed_le_zero_iff (hmax : 0 < fl.maxFrameSize) (hn : ∀ m : Int32, ¬ n < m) (id : UInt32) :
    fl.allowed id n ≤ 0 ↔ fl.available id ≤ 0 := by
  unfold allowed
  simp only
  rw [if_neg (hn _)]
  split
  · rename_i hlt
    exact ⟨fun hle => absurd hle (Int32.not_le.mpr hmax),
      fun hle => absurd hle (Int32.not_le.mpr (Int32.lt_trans hmax hlt))⟩
  · exact Iff.rfl

theorem take_eq (h : n ≤ fl.available id) : ∃ fl', fl.take id n = .ok fl' := by
  unfold take
  rw [Flow.take_eq h]
  exact ⟨_, rfl⟩

theorem take_allowed {len : Nat} (h : (len : Int) ≤ (fl.allowed id n).toInt) :
    ∃ fl', fl.take id (Int32.ofNat len) = .ok fl' := by
  have hmax : (fl.allowed id n).toInt ≤ 2147483647 := Int32.toInt_le _
  refine take_eq (Int32.le_trans (Int32.le_iff_toInt_le.mpr ?_) (fl.allowed_le_available id n))
  rw [Int32.toInt_ofNat_of_lt (by omega)]
  exact h

end Flows

/-! ## Requests -/

/-- `writeFramer`: what is to be written. -/
inductive WriteFramer where
  | writeData (streamID : UInt32) (p : Bytes) (endStream : Bool)
  | streamError (streamID : UInt32) (code : ErrCode)
  /-- Any of the other types, with a number to tell values apart. -/
  | other (tag : Nat)
deriving DecidableEq

structure FrameWriteRequest where
  write : WriteFramer
  stream : Option UInt32 := none
  /-- The channel to which the result is sent. -/
  done : Option Nat := none
deriving DecidableEq

namespace FrameWriteRequest

def streamID (wr : FrameWriteRequest) : UInt32 :=
  match wr.stream with
  | none =>
    match wr.write with
    | .streamError streamID _ => streamID
    | _ => 0
  | some id => id

def dataSize (wr : FrameWriteRequest) : Nat :=
  match wr.write with
  | .writeData _ p _ => p.length
  | _ => 0

/-- A request to write RST_STREAM. -/
def isReset (wr : FrameWriteRequest) : Bool :=
  match wr.write with
  | .streamError _ _ => true
  | _ => false

/-- The bytes of a DATA frame. -/
def payload (wr : FrameWriteRequest) : Bytes :=
  match wr.write with
  | .writeData _ p _ => p
  | _ => []

theorem dataSize_eq (wr : FrameWriteRequest) : wr.dataSize = wr.payload.length := by
  unfold dataSize payload
  cases wr.write <;> rfl

/-- What `Consume` returns: no frame, one, or two. -/
inductive Consumed where
  | nothing
  | whole (wr : FrameWriteRequest)
  | parts (consumed rest : FrameWriteRequest)
deriving DecidableEq

/-- `Consume`, with the windows afterwards. -/
def consume (wr : FrameWriteRequest) (n : Int32) (fl : Flows) :
    Except Fault (Consumed × Flows) :=
  match wr.write with
  | .writeData streamID p endStream =>
    if p.length = 0 then .ok (.whole wr, fl)
    else
      match wr.stream with
      | none => .error (.panic "invalid memory address or nil pointer dereference")
      | some id =>
        let allowed := fl.allowed id n
        if allowed ≤ 0 then .ok (.nothing, fl)
        else if (p.length : Int) > allowed.toInt then do
          let fl ← fl.take id allowed
          let k := allowed.toInt.toNat
          let consumed : FrameWriteRequest :=
            { write := .writeData streamID (p.take k) false, stream := wr.stream }
          let rest : FrameWriteRequest :=
            { write := .writeData streamID (p.drop k) endStream
              stream := wr.stream
              done := wr.done }
          return (.parts consumed rest, fl)
        else do
          let fl ← fl.take id (Int32.ofNat p.length)
          return (.whole wr, fl)
  | _ => .ok (.whole wr, fl)

/-- A DATA frame with bytes belongs to a stream. -/
def Sound (wr : FrameWriteRequest) : Prop := 0 < wr.dataSize → wr.stream ≠ none

variable {wr consumed rest : FrameWriteRequest}

theorem sound_of_streamID_ne (h : wr.streamID ≠ 0) : wr.Sound := by
  intro hsize hstream
  unfold streamID at h
  unfold dataSize at hsize
  rw [hstream] at h
  cases hwrite : wr.write with
  | writeData id p endStream =>
    rw [hwrite] at h
    exact h rfl
  | streamError id code =>
    rw [hwrite] at hsize
    exact Nat.lt_irrefl 0 hsize
  | other tag =>
    rw [hwrite] at hsize
    exact Nat.lt_irrefl 0 hsize

/-- Flow control prevents that any bytes are consumed. -/
def Blocked (wr : FrameWriteRequest) (n : Int32) (fl : Flows) : Prop :=
  0 < wr.dataSize ∧ fl.allowed wr.streamID n ≤ 0

/-- The frame `wr` is split into `consumed` and `rest`.  Only the last piece keeps
END_STREAM and the channel for the result. -/
inductive Splits : FrameWriteRequest → FrameWriteRequest → FrameWriteRequest → Prop where
  | data (streamID : UInt32) (p p' : Bytes) (endStream : Bool) (stream : Option UInt32)
      (done : Option Nat) (hp : p ≠ []) (hp' : p' ≠ []) :
      Splits ⟨.writeData streamID (p ++ p') endStream, stream, done⟩
        ⟨.writeData streamID p false, stream, none⟩ ⟨.writeData streamID p' endStream, stream, done⟩

section

variable (h : Splits wr consumed rest)

include h

theorem Splits.streamID_consumed : consumed.streamID = wr.streamID := by
  cases h
  rfl

theorem Splits.streamID_rest : rest.streamID = wr.streamID := by
  cases h
  rfl

theorem Splits.payload_eq : wr.payload = consumed.payload ++ rest.payload := by
  cases h
  rfl

/-- Only a DATA frame with bytes is split. -/
theorem Splits.dataSize_pos : 0 < wr.dataSize := by
  cases h with
  | data streamID p p' endStream stream done hp hp' =>
    show 0 < (p ++ p').length
    rw [length_append]
    have hpos := length_pos_of_ne_nil hp
    omega

theorem Splits.sound (hwr : wr.Sound) : rest.Sound := by
  have hstream := hwr h.dataSize_pos
  cases h
  exact fun _ => hstream

end

/-- A DATA frame with bytes, of which `allowed` may be taken. -/
theorem consume_data (streamID id : UInt32) {p : Bytes} (endStream : Bool) (done : Option Nat)
    (n : Int32) (fl : Flows) (hp : p.length ≠ 0) (hfree : ¬ fl.allowed id n ≤ 0) :
    ∃ fl', consume ⟨.writeData streamID p endStream, some id, done⟩ n fl =
        .ok (.whole ⟨.writeData streamID p endStream, some id, done⟩, fl') ∨
      ∃ consumed rest, consume ⟨.writeData streamID p endStream, some id, done⟩ n fl =
          .ok (.parts consumed rest, fl') ∧
        Splits ⟨.writeData streamID p endStream, some id, done⟩ consumed rest := by
  have hpos : 0 < (fl.allowed id n).toInt := Int32.lt_iff_toInt_lt.mp (Int32.not_le.mp hfree)
  unfold consume
  simp only [if_neg hp, if_neg hfree]
  split
  · obtain ⟨fl', htake⟩ := Flows.take_eq (fl.allowed_le_available id n)
    rw [htake]
    refine ⟨fl', .inr ⟨_, _, rfl, ?_⟩⟩
    generalize hk : (fl.allowed id n).toInt.toNat = k
    have hfirst : p.take k ≠ [] := by
      intro hnil
      have hlen := congrArg length hnil
      rw [length_take, length_nil] at hlen
      omega
    have hlast : p.drop k ≠ [] := by
      intro hnil
      have hlen := congrArg length hnil
      rw [length_drop, length_nil] at hlen
      omega
    have hsplit := Splits.data streamID (p.take k) (p.drop k) endStream (some id) done hfirst hlast
    rwa [take_append_drop] at hsplit
  · rename_i hlong
    obtain ⟨fl', htake⟩ := Flows.take_allowed (Int.not_lt.mp hlong)
    rw [htake]
    exact ⟨fl', .inl rfl⟩

/-- The cases of `Consume` for a frame that belongs to a stream if it has to. -/
theorem consume_cases (wr : FrameWriteRequest) (n : Int32) (fl : Flows) (h : wr.Sound) :
    (wr.consume n fl = .ok (.nothing, fl) ∧ wr.Blocked n fl) ∨
      (¬ wr.Blocked n fl ∧ ∃ fl', wr.consume n fl = .ok (.whole wr, fl') ∨
        ∃ consumed rest, wr.consume n fl = .ok (.parts consumed rest, fl') ∧
          Splits wr consumed rest) := by
  obtain ⟨write, stream, done⟩ := wr
  cases write with
  | streamError id code => exact .inr ⟨fun hb => Nat.lt_irrefl 0 hb.1, fl, .inl rfl⟩
  | other tag => exact .inr ⟨fun hb => Nat.lt_irrefl 0 hb.1, fl, .inl rfl⟩
  | writeData streamID p endStream =>
    by_cases hp : p.length = 0
    · refine .inr ⟨fun hb => ?_, fl, .inl (if_pos hp)⟩
      have hpos : 0 < p.length := hb.1
      omega
    cases stream with
    | none => exact (h (Nat.pos_of_ne_zero hp) rfl).elim
    | some id =>
      by_cases hblocked : fl.allowed id n ≤ 0
      · refine .inl ⟨?_, Nat.pos_of_ne_zero hp, hblocked⟩
        unfold consume
        simp only [if_neg hp, if_pos hblocked]
      · exact .inr ⟨fun hb => hblocked hb.2,
          consume_data streamID id endStream done n fl hp hblocked⟩

end FrameWriteRequest

/-! ## Queues -/

structure WriteQueue where
  s : List FrameWriteRequest := []
deriving DecidableEq

namespace WriteQueue

def empty (q : WriteQueue) : Bool := q.s.length == 0

def push (q : WriteQueue) (wr : FrameWriteRequest) : WriteQueue := ⟨q.s ++ [wr]⟩

def shift (q : WriteQueue) : Except Fault (FrameWriteRequest × WriteQueue) :=
  match q.s with
  | [] => .error (.panic "invalid use of queue")
  | wr :: s => .ok (wr, ⟨s⟩)

/-- `consume`: the frame, if any, the queue and the windows afterwards. -/
def consume (q : WriteQueue) (n : Int32) (fl : Flows) :
    Except Fault (Option FrameWriteRequest × WriteQueue × Flows) :=
  match q.s with
  | [] => .ok (none, q, fl)
  | wr :: s => do
    let (result, fl) ← wr.consume n fl
    match result with
    | .nothing => return (none, q, fl)
    | .whole consumed => return (some consumed, ⟨s⟩, fl)
    | .parts consumed rest => return (some consumed, ⟨rest :: s⟩, fl)

variable {wr : FrameWriteRequest}

variable {s s' : List FrameWriteRequest}

/-- What is left in a queue after a frame was taken. -/
theorem takes_sound (h : Takes FrameWriteRequest.Splits s wr s') (hs : ∀ wr ∈ s, wr.Sound) :
    ∀ wr ∈ s', wr.Sound :=
  h.forall_rest (fun _ _ _ hsplits => hsplits.sound) hs

/-- A frame without bytes is taken as it is. -/
theorem takes_eq_cons (h : Takes FrameWriteRequest.Splits s wr s')
    (hs : ∀ wr ∈ s, wr.dataSize = 0) :
    s = wr :: s' := by
  cases h with
  | whole wr s => rfl
  | part hsplits s =>
    have hzero := hs _ mem_cons_self
    have hpos := hsplits.dataSize_pos
    omega

/-- The cases of `consume`: nothing is taken only if the queue is empty or its first
frame is blocked. -/
theorem consume_cases (q : WriteQueue) (n : Int32) (fl : Flows) (h : ∀ wr ∈ q.s.head?, wr.Sound) :
    (q.consume n fl = .ok (none, q, fl) ∧ ∀ wr ∈ q.s.head?, wr.Blocked n fl) ∨
      ∃ wr s' fl', q.consume n fl = .ok (some wr, ⟨s'⟩, fl') ∧
        Takes FrameWriteRequest.Splits q.s wr s' ∧
        ∃ wr ∈ q.s.head?, ¬ wr.Blocked n fl := by
  obtain ⟨s⟩ := q
  cases s with
  | nil => exact .inl ⟨rfl, fun wr hwr => by cases hwr⟩
  | cons wr s =>
    unfold consume
    simp only
    rcases wr.consume_cases n fl (h wr rfl) with ⟨hnothing, hblocked⟩ |
      ⟨hfree, fl', hwhole | ⟨consumed, rest, hparts, hsplits⟩⟩
    · rw [hnothing]
      refine .inl ⟨rfl, fun wr' hwr' => ?_⟩
      cases hwr'
      exact hblocked
    · rw [hwhole]
      exact .inr ⟨wr, s, fl', rfl, .whole wr s, wr, rfl, hfree⟩
    · rw [hparts]
      exact .inr ⟨consumed, rest :: s, fl', rfl, .part hsplits s, wr, rfl, hfree⟩

/-- A DATA frame with bytes that belongs to no stream makes `consume` fail. -/
theorem consume_of_not_sound {q : WriteQueue} (hwr : wr ∈ q.s.head?) (h : ¬ wr.Sound) (n : Int32)
    (fl : Flows) :
    q.consume n fl = .error (.panic "invalid memory address or nil pointer dereference") := by
  obtain ⟨hsize, hstream⟩ := Classical.not_imp.mp h
  rw [not_not] at hstream
  obtain ⟨write, stream, done⟩ := wr
  subst hstream
  obtain ⟨s⟩ := q
  cases s with
  | nil => cases hwr
  | cons _ s =>
    cases hwr
    cases write with
    | streamError id code => exact (Nat.lt_irrefl 0 hsize).elim
    | other tag => exact (Nat.lt_irrefl 0 hsize).elim
    | writeData streamID p endStream =>
      have hp : p.length ≠ 0 := Nat.ne_of_gt hsize
      simp only [consume, FrameWriteRequest.consume, if_neg hp]
      rfl

end WriteQueue

end Fhttp.Http2
