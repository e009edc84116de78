import Fhttp.Http2.ClientEffects
import Fhttp.Http2.Delivered

/-!
# What the read loop does

One specification for each handler that is not quiet, and from them what the loop does
with a frame: it does not panic on a well-formed connection, and keeps it well-formed.
-/

namespace Fhttp.Http2

open Hpack (Bytes HeaderField ascii)
open Lib.Panic (Returns)
open Fhttp.Http2.Flow
open List

theorem isOk_windowUpdate (id incr : UInt32) :
    ((WriteCall.windowUpdate id incr).write false).isOk =
      decide (1 ≤ incr.toNat ∧ incr.toNat < 2 ^ 31) := by
  have hlen : (writeUint32 incr).length < 2 ^ 24 := by
    show 4 < 2 ^ 24
    decide
  rw [WriteCall.write, writeWindowUpdate]
  by_cases h : 1 ≤ incr.toNat ∧ incr.toNat < 2 ^ 31
  · have hlow : ¬ incr < 1 := by
      show ¬ incr.toNat < 1
      omega
    have hhigh : ¬ incr > 2147483647 := by
      show ¬ 2147483647 < incr.toNat
      omega
    simp only [hlow, hhigh, decide_false, Bool.or_self, Bool.false_and, Bool.false_eq_true,
      if_false, isOk_endWrite, hlen, h, and_self]
  · have hout : incr < 1 ∨ incr > 2147483647 := by
      show incr.toNat < 1 ∨ 2147483647 < incr.toNat
      omega
    rw [decide_eq_false h, if_pos]
    · rfl
    · simpa using hout

namespace ClientConn

variable {cc : ClientConn} {cs : StreamRef}

/-- A `WINDOW_UPDATE` frame with an increment that the framer allows. -/
theorem send_windowUpdate (cc : ClientConn) (id : UInt32) {incr : UInt32} (hpos : 1 ≤ incr.toNat)
    (hlt : incr.toNat < 2 ^ 31) :
    cc.send (.windowUpdate id incr) = { cc with out := cc.out ++ [.windowUpdate id incr] } := by
  rw [send, isOk_windowUpdate, if_pos (decide_eq_true ⟨hpos, hlt⟩)]

/-! ## Data -/

/-- New windows for what the peer sends, with the frames that are written for them. -/
def refill (cc : ClientConn) (cs : StreamRef) (i n : Int32) (calls : List WriteCall) : ClientConn :=
  { cc with inflow := i, out := cc.out ++ calls }.update cs fun s => { s with inflow := n }

theorem stream_refill_self (cc : ClientConn) (cs : StreamRef) (i n : Int32)
    (calls : List WriteCall) :
    (cc.refill cs i n calls).stream cs = { cc.stream cs with inflow := n } :=
  stream_update_self ..

theorem stream_refill_of_ne (cc : ClientConn) {cs' : StreamRef} (h : cs' ≠ cs) (i n : Int32)
    (calls : List WriteCall) : (cc.refill cs i n calls).stream cs' = cc.stream cs' :=
  stream_update_of_ne _ h _

theorem bufPipe_refill (cc : ClientConn) (cs : StreamRef) (i n : Int32) (calls : List WriteCall)
    (cs' : StreamRef) :
    ((cc.refill cs i n calls).stream cs').bufPipe = (cc.stream cs').bufPipe := by
  by_cases heq : cs' = cs
  · rw [heq, stream_refill_self]
  · rw [stream_refill_of_ne cc heq]

/-- The frames that `takeData` writes. -/
def refundCalls (id : UInt32) (refund : Nat) (didReset : Bool) : List WriteCall :=
  if refund > 0 then
    .windowUpdate 0 (UInt32.ofNat refund) ::
      if didReset then [] else [.windowUpdate id (UInt32.ofNat refund)]
  else []

variable {h : FrameHeader} {data : Bytes}

theorem refundOf_le (hdata : data.length ≤ h.length.toNat) (didReset : Bool) :
    refundOf h data didReset ≤ h.length.toNat := by
  unfold refundOf
  split <;> omega

/-- Taking from both windows what is available. -/
theorem take_of_available {n conn k : Int32} (hk : 0 ≤ k.toInt) (h : available n conn ≥ k) :
    take n conn k = .ok (n - k, conn - k) ∧ k.toInt ≤ n.toInt ∧ k.toInt ≤ conn.toInt ∧
      (n - k).toInt = n.toInt - k.toInt ∧ (conn - k).toInt = conn.toInt - k.toInt := by
  have hle : k.toInt ≤ min n.toInt conn.toInt := by
    rw [← toInt_available]
    exact Int32.le_iff_toInt_le.mp h
  have hn := n.toInt_lt
  have hconn := conn.toInt_lt
  refine ⟨take_eq h, by omega, by omega, ?_, ?_⟩
  · exact toInt_sub (by omega)
  · exact toInt_sub (by omega)

theorem takeData_ok (hlt : h.length.toNat < 2 ^ 24) (hdata : data.length ≤ h.length.toNat)
    (havail : available (cc.stream cs).inflow cc.inflow ≥ h.length.toInt32) :
    ∃ i n, cc.takeData cs h data = .ok (cc.refill cs i n
        (refundCalls (cc.stream cs).id (refundOf h data (cc.stream cs).didReset)
          (cc.stream cs).didReset)) ∧
      i.toInt = cc.inflow.toInt - h.length.toNat + refundOf h data (cc.stream cs).didReset ∧
      n.toInt = (cc.stream cs).inflow.toInt - h.length.toNat +
        if (cc.stream cs).didReset then 0 else refundOf h data (cc.stream cs).didReset := by
  have hlen : h.length.toInt32.toInt = h.length.toNat := toInt_toInt32 (by omega)
  obtain ⟨htake, hn, hconn, hn', hconn'⟩ := take_of_available (by omega) havail
  have hrefund := refundOf_le hdata (cc.stream cs).didReset
  unfold takeData refundData
  rw [htake]
  simp only [Bind.bind, Except.bind]
  generalize hR : refundOf h data (cc.stream cs).didReset = R at *
  have hRint : (Int32.ofNat R).toInt = R := Int32.toInt_ofNat_of_lt (by omega)
  have hRuint : (UInt32.ofNat R).toNat = R := by
    refine UInt32.toNat_ofNat_of_lt' ?_
    show R < 2 ^ 32
    omega
  have hinflow := cc.inflow.toInt_lt
  have hsinflow := (cc.stream cs).inflow.toInt_lt
  have hadd : (cc.inflow - h.length.toInt32 + Int32.ofNat R).toInt =
      cc.inflow.toInt - h.length.toNat + R := by
    rw [toInt_add (by omega)]
    omega
  have hsadd : ((cc.stream cs).inflow - h.length.toInt32 + Int32.ofNat R).toInt =
      (cc.stream cs).inflow.toInt - h.length.toNat + R := by
    rw [toInt_add (by omega)]
    omega
  have hfits : add (cc.inflow - h.length.toInt32) (Int32.ofNat R) =
      (cc.inflow - h.length.toInt32 + Int32.ofNat R, true) := add_of_fits (by omega)
  have hsfits : add ((cc.stream cs).inflow - h.length.toInt32) (Int32.ofNat R) =
      ((cc.stream cs).inflow - h.length.toInt32 + Int32.ofNat R, true) :=
    add_of_fits (by omega)
  by_cases hpos : R > 0
  · rw [if_pos hpos, send_windowUpdate _ _ (by omega) (by omega)]
    cases hreset : (cc.stream cs).didReset with
    | true =>
      refine ⟨_, (cc.stream cs).inflow - h.length.toInt32, ?_, hadd, ?_⟩
      · simp only [if_true, refill, refundCalls, if_pos hpos, update, hfits]
      · rw [hn', if_pos rfl]
        omega
    | false =>
      refine ⟨_, _, ?_, hadd, hsadd⟩
      rw [if_neg Bool.false_ne_true, send_windowUpdate _ _ (by omega) (by omega)]
      simp only [Bool.false_eq_true, if_false, refill, refundCalls, if_pos hpos, update, hfits,
        hsfits, Function.update_self, Function.update_idem, append_assoc, cons_append, nil_append]
  · have hzero : R = 0 := by omega
    refine ⟨cc.inflow - h.length.toInt32, (cc.stream cs).inflow - h.length.toInt32, ?_, ?_, ?_⟩
    · simp only [refill, refundCalls, if_neg hpos, append_nil, update]
    · omega
    · rw [hn', hzero, ite_self]
      omega

/-- A change of the windows of a stream and its connection. -/
theorem same_refill (cc : ClientConn) (cs : StreamRef) (i n : Int32) (calls : List WriteCall) :
    Same cc (cc.refill cs i n calls) := by
  have hconn : Same cc { cc with inflow := i, out := cc.out ++ calls } := { Same.refl cc with }
  exact hconn.trans (.update _ cs ⟨rfl, rfl, fun h => h⟩)

theorem ends_refill (cc : ClientConn) (cs : StreamRef) (i n : Int32) (calls : List WriteCall) :
    Leaves cc (cc.refill cs i n calls) := by
  have hconn : Leaves cc { cc with inflow := i, out := cc.out ++ calls } := { Leaves.refl cc with }
  exact hconn.trans (.update _ cs fun h => h) fun _ h => h

theorem wf_refill (h : Wf cc) (cs : StreamRef) (i n : Int32) (calls : List WriteCall) :
    Wf (cc.refill cs i n calls) := by
  have hwf : Wf { cc with inflow := i, out := cc.out ++ calls } := h.congr
  exact hwf.update cs ⟨rfl, rfl, fun h => h⟩ rfl (h.trailer cs)

/-- What `processData` does. -/
inductive DataHandled (cc : ClientConn) (h : FrameHeader) (data : Bytes) :
    Handled × ClientConn → Prop
  | unknown (hlookup : cc.lookup h.streamID = none) :
    DataHandled cc h data (.returned (cc.unknownData h).1, (cc.unknownData h).2)
  /-- No window is charged. -/
  | uncharged {cs : StreamRef} {cc' : ClientConn} (hlookup : cc.lookup h.streamID = some cs)
    (hcause : h.length = 0 ∨ (cc.stream cs).firstByte = false ∨
      (data ≠ [] ∧ ∃ req, (cc.stream cs).req = some req ∧ req.method = ascii "HEAD"))
    (hkept : Kept cc cc') : DataHandled cc h data (.returned none, cc')
  | exceeded {cs : StreamRef} {cc' : ClientConn} (hlookup : cc.lookup h.streamID = some cs)
    (hkept : Kept cc cc') : DataHandled cc h data (.returned (some (.connection .flowControl)), cc')
  | charged {cs : StreamRef} {cc₁ cc' : ClientConn} {i n : Int32} {result : Handled}
    (hlookup : cc.lookup h.streamID = some cs) (hkept : Kept cc cc₁)
    (hreset : (cc₁.stream cs).didReset = (cc.stream cs).didReset)
    (hfits : (h.length.toNat : Int) ≤ cc.inflow.toInt ∧
      (h.length.toNat : Int) ≤ (cc.stream cs).inflow.toInt)
    (hi : i.toInt = cc.inflow.toInt - h.length.toNat + refundOf h data (cc.stream cs).didReset)
    (hn : n.toInt = (cc.stream cs).inflow.toInt - h.length.toNat +
      if (cc.stream cs).didReset then 0 else refundOf h data (cc.stream cs).didReset)
    (hrest : Kept (cc₁.refill cs i n
      (refundCalls (cc.stream cs).id (refundOf h data (cc.stream cs).didReset)
        (cc.stream cs).didReset)) cc')
    (hresult : (∃ streamEnded, result = .deliver cs data streamEnded ∧
      (cc.stream cs).didReset = false) ∨ result = .returned none) :
    DataHandled cc h data (result, cc')

theorem DataHandled.wf {r : Handled × ClientConn} (hr : DataHandled cc h data r) (hwf : Wf cc) :
    Wf r.2 ∧ r.2.loop = cc.loop := by
  cases hr with
  | unknown =>
    unfold unknownData
    dsimp only
    split
    · exact ⟨hwf, rfl⟩
    split
    · exact ⟨hwf.congr, rfl⟩
    · exact ⟨hwf, rfl⟩
  | uncharged _ _ hkept => exact ⟨hkept.wf, hkept.loop⟩
  | exceeded _ hkept => exact ⟨hkept.wf, hkept.loop⟩
  | charged _ hkept _ _ _ _ hrest => exact ⟨hrest.wf, hrest.loop.trans hkept.loop⟩

theorem kept_dataEnded (h : Wf cc) (hloop : cc.loop ≠ .stopped) (hcs : cs < cc.nextRef)
    (streamEnded : Bool) :
    Returns (fun r => r.1 = .returned none ∧ Kept cc r.2) (cc.dataEnded cs streamEnded) := by
  unfold dataEnded
  split
  · exact (kept_endStreamError h hloop hcs none).bind fun _ hkept => ⟨rfl, hkept⟩
  · exact ⟨rfl, .refl h⟩

variable {hdr : FrameHeader} {cc'' : ClientConn} {s : Setting}

theorem receiveData_spec (h : Wf cc) (hloop : cc.loop ≠ .stopped) (hlt : hdr.length.toNat < 2 ^ 24)
    (hdata : data.length ≤ hdr.length.toNat) (hlookup : cc.lookup hdr.streamID = some cs)
    {cc₁ : ClientConn} (hkept : Kept cc cc₁)
    (hfirst : (cc₁.stream cs).firstByte = (cc.stream cs).firstByte)
    (hreset : (cc₁.stream cs).didReset = (cc.stream cs).didReset) (streamEnded : Bool) :
    Returns (fun r => DataHandled cc hdr data r ∧ r.1.Ready r.2)
      (cc₁.receiveData cs hdr data streamEnded) := by
  have hloop₁ : cc₁.loop ≠ .stopped := hkept.loop ▸ hloop
  have hcs : cs < cc₁.nextRef := hkept.same.nextRef ▸ h.allocated cs (mem_of_lookup hlookup)
  have hid : (cc₁.stream cs).id = (cc.stream cs).id := (hkept.same.stream cs).id
  obtain ⟨req, hreq, hderef⟩ := deref_req hkept.wf hloop₁ hcs
  unfold receiveData
  rw [hfirst]
  split
  · rename_i hnot
    refine (kept_endStreamError hkept.wf hloop₁ hcs _).bind fun cc' hkept' => ⟨?_, trivial⟩
    exact .uncharged hlookup (.inr (.inl (by simpa using hnot))) (hkept.trans hkept')
  split
  · rw [hderef]
    show Returns _ (ite _ _ _)
    split
    · rename_i hhead
      refine (kept_endStreamError hkept.wf hloop₁ hcs _).bind fun cc' hkept' => ⟨?_, trivial⟩
      refine .uncharged hlookup (.inr (.inr ⟨hhead.2, req, ?_, hhead.1⟩)) (hkept.trans hkept')
      rw [← hreq, (hkept.same.stream cs).req]
    split
    · rename_i havail
      obtain ⟨i, n, htake, hi, hn⟩ := takeData_ok hlt hdata havail
      have hlen : hdr.length.toInt32.toInt = hdr.length.toNat := toInt_toInt32 (by omega)
      obtain ⟨-, hfits, hfits', -⟩ := take_of_available (by omega) havail
      rw [hid, hreset] at htake
      rw [hreset, hkept.recv.inflow] at hi
      rw [hreset, hkept.recv.streamInflow] at hn
      rw [hkept.recv.streamInflow, hlen] at hfits
      rw [hkept.recv.inflow, hlen] at hfits'
      rw [htake]
      have hwf := wf_refill hkept.wf cs i n (refundCalls (cc.stream cs).id
        (refundOf hdr data (cc.stream cs).didReset) (cc.stream cs).didReset)
      show Returns _ (ite _ _ _)
      split
      · rename_i hdeliver
        refine ⟨.charged hlookup hkept hreset ⟨hfits', hfits⟩ hi hn (.refl hwf) (.inl ?_), hcs⟩
        refine ⟨streamEnded, rfl, ?_⟩
        have hnot := hdeliver.2
        rw [refill, stream_update_self] at hnot
        rw [← hreset]
        simpa using hnot
      · refine (kept_dataEnded hwf hloop₁ hcs streamEnded).imp ?_
        rintro ⟨_, cc'⟩ ⟨rfl, hrest⟩
        exact ⟨.charged hlookup hkept hreset ⟨hfits', hfits⟩ hi hn hrest (.inr rfl), trivial⟩
    · exact ⟨.exceeded hlookup hkept, trivial⟩
  · rename_i hzero
    refine (kept_dataEnded hkept.wf hloop₁ hcs streamEnded).imp ?_
    rintro ⟨_, cc'⟩ ⟨rfl, hkept'⟩
    refine ⟨.uncharged hlookup (.inl ?_) (hkept.trans hkept'), trivial⟩
    exact UInt32.toNat_inj.mp (Nat.eq_zero_of_not_pos hzero)

theorem processData_spec (h : Wf cc) (hloop : cc.loop ≠ .stopped)
    (hdel : (Frame.data hdr data).Delivered) :
    Returns (fun r => DataHandled cc hdr data r ∧ r.1.Ready r.2) (cc.processData hdr data) := by
  obtain ⟨-, hlt, hdata⟩ := hdel
  unfold processData
  rw [streamByID_eq h]
  cases hlookup : cc.lookup hdr.streamID with
  | none =>
    have hwithout : cc.without hdr.streamID (hdr.flags.has flagDataEndStream) = cc := by
      rw [without, hlookup]
    rw [hwithout]
    exact ⟨.unknown hlookup, trivial⟩
  | some cs =>
    have hwithout := kept_without h hdr.streamID (hdr.flags.has flagDataEndStream)
    obtain ⟨done, hstream⟩ := stream_without cc hdr.streamID (hdr.flags.has flagDataEndStream) cs
    split
    · have hgot : Kept (cc.without hdr.streamID (hdr.flags.has flagDataEndStream))
          ((cc.without hdr.streamID (hdr.flags.has flagDataEndStream)).update cs fun s =>
            { s with gotEndStream := true }) := .update hwithout.wf cs (.of_eq (.refl _))
      refine receiveData_spec h hloop hlt hdata hlookup (hwithout.trans hgot) ?_ ?_ true
      · rw [stream_update_self, hstream]
      · rw [stream_update_self, hstream]
    · refine receiveData_spec h hloop hlt hdata hlookup hwithout ?_ ?_ false
      · rw [hstream]
      · rw [hstream]

/-- The data goes to the pipe, and nothing else changes that counts. -/
structure Delivered (cc cc' : ClientConn) (cs : StreamRef) (data : Bytes) : Prop where
  same : Same cc cc'
  send : SameSend cc cc'
  ends : Leaves cc cc'
  wf : Wf cc'
  loop : cc'.loop = cc.loop
  inflow : cc'.inflow = cc.inflow
  updates : cc'.out.filter WriteCall.isWindowUpdate = cc.out.filter WriteCall.isWindowUpdate
  streamInflow : ∀ cs', (cc'.stream cs').inflow = (cc.stream cs').inflow
  pipe : (cc.stream cs).bufPipe.Wf → (cc'.stream cs).bufPipe.Wf ∧
    (cc'.stream cs).bufPipe.len ≤ (cc.stream cs).bufPipe.len + data.length
  pipeOther : ∀ cs' ≠ cs, (cc.stream cs').bufPipe.Shrinks (cc'.stream cs').bufPipe

variable {cc' : ClientConn}

theorem Delivered.trans (h : Delivered cc cc' cs data) (hkept : Kept cc' cc'') :
    Delivered cc cc'' cs data where
  same := h.same.trans hkept.same
  send := h.send.trans hkept.send
  ends := h.ends.trans hkept.ends hkept.same.streams
  wf := hkept.wf
  loop := hkept.loop.trans h.loop
  inflow := hkept.recv.inflow.trans h.inflow
  updates := hkept.recv.updates.trans h.updates
  streamInflow := fun cs' => (hkept.recv.streamInflow cs').trans (h.streamInflow cs')
  pipe := fun hwf =>
    have hshrinks := hkept.recv.pipe cs (h.pipe hwf).1
    ⟨hshrinks.1, Nat.le_trans hshrinks.2 (h.pipe hwf).2⟩
  pipeOther := fun cs' hne => (h.pipeOther cs' hne).trans (hkept.recv.pipe cs')

theorem deliverData_spec (h : Wf cc) (hloop : cc.loop ≠ .stopped) (hcs : cs < cc.nextRef)
    (data : Bytes) (streamEnded : Bool) :
    Returns (fun r => Delivered cc r.2 cs data ∧ ∃ err, r.1 = .returned err)
      (cc.deliverData cs data streamEnded) := by
  have hpipe : Delivered cc (cc.update cs fun s =>
      { s with bufPipe := ((cc.stream cs).bufPipe.write data).2 }) cs data := by
    refine ⟨.update cc cs ⟨rfl, rfl, fun h => h⟩, ?_, ?_, ?_, rfl, rfl, rfl, ?_, ?_,
      fun cs' hne => ?_⟩
    · exact { SameSend.refl cc with
        streamFlow := forall_update (P := fun cs' s => s.flow = (cc.stream cs').flow)
          (fun _ => rfl) rfl }
    · exact .update cc cs fun h => h
    · exact h.update cs ⟨rfl, rfl, fun h => h⟩ rfl (h.trailer cs)
    · exact forall_update (P := fun cs' s => s.inflow = (cc.stream cs').inflow) (fun _ => rfl) rfl
    · rw [stream_update_self]
      exact Pipe.len_write _ _
    · rw [stream_update_of_ne cc hne]
      exact .refl _
  unfold deliverData
  dsimp only
  split
  · exact (kept_endStreamError hpipe.wf hloop hcs _).bind fun _ hkept =>
      ⟨hpipe.trans hkept, _, rfl⟩
  · refine (kept_dataEnded hpipe.wf hloop hcs streamEnded).imp ?_
    rintro ⟨_, cc'⟩ ⟨rfl, hkept⟩
    exact ⟨hpipe.trans hkept, _, rfl⟩

/-! ## Settings and window updates -/

/-- Only the windows for what we send change. -/
structure KeptRecv (cc cc' : ClientConn) : Prop where
  same : Same cc cc'
  recv : SameRecv cc cc'
  ends : Leaves cc cc'
  wf : Wf cc'
  loop : cc'.loop = cc.loop

theorem KeptRecv.refl (h : Wf cc) : KeptRecv cc cc := ⟨.refl cc, .refl cc, .refl cc, h, rfl⟩

theorem KeptRecv.trans (h : KeptRecv cc cc') (h' : KeptRecv cc' cc'') : KeptRecv cc cc'' :=
  ⟨h.same.trans h'.same, h.recv.trans h'.recv, h.ends.trans h'.ends h'.same.streams, h'.wf,
    h'.loop.trans h.loop⟩

theorem keptRecv_adjustWindows (h : Wf cc) (delta : Int32) :
    KeptRecv cc (cc.adjustWindows delta) := by
  have hstream (cs : StreamRef) : ∃ n, (cc.adjustWindows delta).stream cs =
      { cc.stream cs with flow := n } := by
    rw [adjustWindows, stream_updateOpen]
    split
    · exact ⟨_, rfl⟩
    · exact ⟨(cc.stream cs).flow, rfl⟩
  have hsame : Same cc (cc.adjustWindows delta) :=
    { Same.refl cc with
      stream := fun cs => by
        obtain ⟨n, hn⟩ := hstream cs
        rw [hn]
        exact ⟨rfl, rfl, fun h => h⟩ }
  refine ⟨hsame, ⟨rfl, rfl, fun cs => ?_, fun cs => ?_⟩,
    .of_stream rfl (fun h => h) fun cs hcs => ?_, ?_, rfl⟩
  · obtain ⟨n, hn⟩ := hstream cs
    rw [hn]
  · obtain ⟨n, hn⟩ := hstream cs
    rw [hn]
    exact .refl _
  · obtain ⟨n, hn⟩ := hstream cs
    rw [hn]
    exact hcs
  · refine h.of_same hsame rfl rfl (fun cs _ => ?_) fun cs => ?_
    · obtain ⟨n, hn⟩ := hstream cs
      rw [hn]
    · obtain ⟨n, hn⟩ := hstream cs
      rw [hn]
      exact h.trailer cs

/-- A setting that is stored in a field of its own. -/
structure SettingStored (cc cc' : ClientConn) : Prop where
  streams : cc'.streams = cc.streams
  stream : cc'.stream = cc.stream
  nextRef : cc'.nextRef = cc.nextRef
  loop : cc'.loop = cc.loop
  closed : cc'.closed = cc.closed
  inflow : cc'.inflow = cc.inflow
  flow : cc'.flow = cc.flow
  out : cc'.out = cc.out
  connFlow : cc'.connFlow = cc.connFlow
  streamFlow : cc'.streamFlow = cc.streamFlow
  initialWindowSize : cc'.initialWindowSize = cc.initialWindowSize

theorem SettingStored.refl (cc : ClientConn) : SettingStored cc cc :=
  ⟨rfl, rfl, rfl, rfl, rfl, rfl, rfl, rfl, rfl, rfl, rfl⟩

theorem SettingStored.keptRecv (hstored : SettingStored cc cc') (h : Wf cc) : KeptRecv cc cc' where
  same :=
    ⟨hstored.connFlow, hstored.streamFlow, hstored.nextRef, fun _ hcs => hstored.streams ▸ hcs,
      fun cs => by
        rw [hstored.stream]
        exact .refl _⟩
  recv :=
    ⟨hstored.inflow, congrArg _ hstored.out, fun cs => by rw [hstored.stream], fun cs => by
      rw [hstored.stream]
      exact .refl _⟩
  ends := .of_stream hstored.streams (fun hl => hstored.loop ▸ hl) fun cs hcs => by
    rw [hstored.stream]
    exact hcs
  wf := h.congr hstored.streams hstored.stream hstored.nextRef hstored.loop hstored.closed
    hstored.connFlow hstored.streamFlow
  loop := hstored.loop

/-- What a setting does. -/
theorem processSetting_ok (hok : cc.processSetting s = .ok cc') :
    (s.id ≠ SettingID.initialWindowSize ∧ SettingStored cc cc') ∨
      (s.id = SettingID.initialWindowSize ∧ s.val ≤ Transport.maxInt32 ∧
        cc' = { cc.adjustWindows (s.val.toInt32 - cc.initialWindowSize.toInt32) with
          initialWindowSize := s.val }) := by
  have hne {id : SettingID} (hid : s.id = id) (hother : id ≠ SettingID.initialWindowSize) :
      s.id ≠ SettingID.initialWindowSize := hid ▸ hother
  unfold processSetting at hok
  split at hok
  · rename_i hid
    cases hok
    exact .inl ⟨hne hid (by decide), { SettingStored.refl cc with }⟩
  split at hok
  · rename_i hid
    cases hok
    exact .inl ⟨hne hid (by decide), { SettingStored.refl cc with }⟩
  split at hok
  · rename_i hid
    cases hok
    exact .inl ⟨hne hid (by decide), { SettingStored.refl cc with }⟩
  split at hok
  · rename_i hid
    split at hok
    · cases hok
    · rename_i hle
      cases hok
      exact .inr ⟨hid, UInt32.not_lt.mp hle, rfl⟩
  rename_i hnot
  refine .inl ⟨hnot, ?_⟩
  split at hok
  · dsimp only at hok
    generalize (if s.val > Transport.initialHeaderTableSize then Transport.initialHeaderTableSize
      else s.val) = size at hok
    split at hok
    · cases hok
      exact { SettingStored.refl cc with }
    · cases hok
      exact .refl cc
  split at hok
  · cases hvalid : s.valid with
    | error e =>
      rw [hvalid] at hok
      cases hok
    | ok =>
      rw [hvalid] at hok
      cases hok
      exact .refl cc
  · cases hok
    exact .refl cc

theorem keptRecv_processSetting (h : Wf cc) (hok : cc.processSetting s = .ok cc') :
    KeptRecv cc cc' := by
  obtain ⟨-, hstored⟩ | ⟨-, -, rfl⟩ := processSetting_ok hok
  · exact hstored.keptRecv h
  · have hadjust := keptRecv_adjustWindows h (s.val.toInt32 - cc.initialWindowSize.toInt32)
    exact ⟨{ hadjust.same with }, { hadjust.recv with }, { hadjust.ends with },
      hadjust.wf.congr, rfl⟩

theorem keptRecv_processSettingList (settings : List Setting) (h : Wf cc) :
    KeptRecv cc (cc.processSettingList settings).2 := by
  induction settings generalizing cc with
  | nil => exact .refl h
  | cons s rest ih =>
    unfold processSettingList
    cases hok : cc.processSetting s with
    | error e => exact .refl h
    | ok cc' =>
      have hkept := keptRecv_processSetting h hok
      exact hkept.trans (ih hkept.wf)

theorem keptRecv_processSettings (h : Wf cc) (hdr : FrameHeader) (p : Bytes) :
    KeptRecv cc (cc.processSettings hdr p).2 := by
  have hlist := keptRecv_processSettingList (settingsOf p) h
  unfold processSettings
  split
  · split
    · exact SettingStored.keptRecv { SettingStored.refl cc with } h
    · exact .refl h
  cases hres : cc.processSettingList (settingsOf p) with
  | mk err cc₁ =>
    rw [hres] at hlist
    cases err with
    | some e => exact hlist
    | none =>
      have hack := Kept.sent (c := .settingsAck) hlist.wf rfl rfl
      exact hlist.trans ⟨hack.same, hack.recv, hack.ends, hack.wf, hack.loop⟩

theorem keptRecv_processWindowUpdate (h : Wf cc) (hdr : FrameHeader) (increment : UInt32) :
    KeptRecv cc (cc.processWindowUpdate hdr increment).2 := by
  unfold processWindowUpdate
  cases hlookup : cc.lookup hdr.streamID with
  | some cs =>
    dsimp only
    cases hadd : add (cc.stream cs).flow increment.toInt32 with
    | mk n ok =>
      cases ok with
      | false => exact .refl h
      | true =>
        dsimp only
        refine ⟨.update cc cs ⟨rfl, rfl, fun h => h⟩, ⟨rfl, rfl, ?_, ?_⟩, ?_, ?_, rfl⟩
        · exact forall_update (P := fun cs' s => s.inflow = (cc.stream cs').inflow)
            (fun _ => rfl) rfl
        · exact forall_update (P := fun cs' s => (cc.stream cs').bufPipe.Shrinks s.bufPipe)
            (fun _ => .refl _) (.refl _)
        · exact .update cc cs fun h => h
        · exact h.update cs ⟨rfl, rfl, fun h => h⟩ rfl (h.trailer cs)
  | none =>
    dsimp only
    split
    · exact .refl h
    · cases hadd : add cc.flow increment.toInt32 with
      | mk n ok =>
        cases ok with
        | false => exact .refl h
        | true =>
          exact ⟨{ Same.refl cc with }, { SameRecv.refl cc with }, { Leaves.refl cc with },
            h.congr, rfl⟩

/-! ## New streams -/

/-- The stream that `newStreamWithID` creates, with its request. -/
def freshStream (cc : ClientConn) (id : UInt32) (req : Option Request) : ClientStream where
  id := id
  flow := (add 0 cc.initialWindowSize.toInt32).1
  inflow := (add 0 cc.streamFlow.toInt32).1
  req := req

/-- A stream is created. -/
structure Created (cc cc' : ClientConn) (id : UInt32) (req : Option Request) : Prop where
  connFlow : cc'.connFlow = cc.connFlow
  streamFlow : cc'.streamFlow = cc.streamFlow
  initialWindowSize : cc'.initialWindowSize = cc.initialWindowSize
  maxFrameSize : cc'.maxFrameSize = cc.maxFrameSize
  inflow : cc'.inflow = cc.inflow
  flow : cc'.flow = cc.flow
  loop : cc'.loop = cc.loop
  closed : cc'.closed = cc.closed
  nextRef : cc'.nextRef = cc.nextRef + 1
  streams : cc'.streams = (cc.delete id).streams ++ [cc.nextRef]
  stream : cc'.stream = Function.update cc.stream cc.nextRef (cc.freshStream id req)
  updates : cc'.out.filter WriteCall.isWindowUpdate = cc.out.filter WriteCall.isWindowUpdate
  data : cc'.out.filter WriteCall.isData = cc.out.filter WriteCall.isData

namespace Created

variable {id : UInt32} {req : Option Request}

theorem stream_new (h : Created cc cc' id req) : cc'.stream cc.nextRef = cc.freshStream id req := by
  rw [h.stream, Function.update_self]

theorem stream_old (h : Created cc cc' id req) (hcs : cs ≠ cc.nextRef) :
    cc'.stream cs = cc.stream cs := by
  rw [h.stream, Function.update_of_ne hcs]

/-- The streams in the map are the new one and those with another number. -/
theorem mem_streams (h : Created cc cc' id req) :
    cs ∈ cc'.streams ↔ cs ∈ cc.streams ∧ (cc.stream cs).id ≠ id ∨ cs = cc.nextRef := by
  rw [h.streams, mem_append, mem_singleton, delete, mem_filter, bne_iff_ne]

theorem tidy (h : Created cc cc' id req) (ht : Tidy cc) : Tidy cc' where
  allocated := fun cs hcs => by
    rw [h.nextRef]
    rcases h.mem_streams.mp hcs with ⟨hold, -⟩ | rfl
    · exact Nat.lt_succ_of_lt (ht.allocated cs hold)
    · exact Nat.lt_succ_self _
  unallocated := fun cs hcs => by
    rw [h.nextRef] at hcs
    have hlt : cc.nextRef < cs := hcs
    rw [h.stream_old (Nat.ne_of_gt hlt)]
    exact ht.unallocated cs (Nat.le_of_lt hlt)
  unique := by
    have hid : (cc'.stream cc.nextRef).id = id := by
      rw [h.stream_new]
      rfl
    have hold {cs : StreamRef} (hcs : cs ∈ cc.streams) : cc'.stream cs = cc.stream cs :=
      h.stream_old (Nat.ne_of_lt (ht.allocated cs hcs))
    intro cs hcs cs' hcs' heq
    rcases h.mem_streams.mp hcs with ⟨hmem, hne⟩ | rfl
    · rw [hold hmem] at heq
      rcases h.mem_streams.mp hcs' with ⟨hmem', -⟩ | rfl
      · rw [hold hmem'] at heq
        exact ht.unique cs hmem cs' hmem' heq
      · exact absurd (heq.trans hid) hne
    · rcases h.mem_streams.mp hcs' with ⟨hmem', hne'⟩ | rfl
      · rw [hold hmem'] at heq
        exact absurd (heq.symm.trans hid) hne'
      · rfl
  notDone := fun cs hcs => by
    by_cases heq : cs = cc.nextRef
    · rw [heq, h.stream_new]
      rfl
    · rw [h.stream_old heq]
      exact ht.notDone cs ((h.mem_streams.mp hcs).resolve_right heq).1
  trailer := fun cs => by
    by_cases heq : cs = cc.nextRef
    · rw [heq, h.stream_new]
      intro res hres
      cases hres
    · rw [h.stream_old heq]
      exact ht.trailer cs

theorem grows (h : Created cc cc' id req) : Grows cc cc' where
  connFlow := h.connFlow
  streamFlow := h.streamFlow
  nextRef := h.nextRef ▸ Nat.le_succ _
  stream := fun cs hcs => by
    rw [h.stream_old (Nat.ne_of_lt hcs)]
    exact .refl _

/-- A stream with a request keeps an open connection well-formed. -/
theorem wf {req : Request} (h : Created cc cc' id (some req)) (hwf : Wf cc)
    (hrun : cc.loop ≠ .stopped)
    (hclosed : cc.closed = false) : Wf cc' where
  allocated := (h.tidy (hwf.tidy hrun)).allocated
  unallocated := (h.tidy (hwf.tidy hrun)).unallocated
  unique := (h.tidy (hwf.tidy hrun)).unique
  requested := fun _ cs hcs => by
    by_cases heq : cs = cc.nextRef
    · rw [heq, h.stream_new]
      rfl
    · have hlt : cs < cc.nextRef + 1 := h.nextRef ▸ hcs
      rw [h.stream_old heq]
      exact hwf.requested hrun cs (Nat.lt_of_le_of_ne (Nat.le_of_lt_succ hlt) heq)
  notDone := fun _ => (h.tidy (hwf.tidy hrun)).notDone
  closed := fun hl => absurd (h.loop ▸ hl) hrun
  empty := fun hc => by
    rw [h.closed, hclosed] at hc
    cases hc
  trailer := (h.tidy (hwf.tidy hrun)).trailer
  ready := by
    have hready := hwf.ready
    rw [h.loop]
    cases hl : cc.loop with
    | sending cs re deferred =>
      rw [hl] at hready
      refine ⟨h.nextRef ▸ Nat.lt_succ_of_lt hready.1, fun res hres => ?_⟩
      rw [h.stream_old (Nat.ne_of_lt hready.1)]
      exact hready.2 res hres
    | delivering cs data streamEnded =>
      rw [hl] at hready
      rw [LoopState.Ready, h.nextRef]
      exact Nat.lt_succ_of_lt hready
    | running => trivial
    | stopped => trivial

end Created

/-- `newStreamWithID` for a request. -/
theorem created_newStreamWithID (cc : ClientConn) (id : UInt32) (incNext : Bool) :
    Created cc (cc.newStreamWithID id incNext).2 id none where
  connFlow := rfl
  streamFlow := rfl
  initialWindowSize := rfl
  maxFrameSize := rfl
  inflow := rfl
  flow := rfl
  loop := rfl
  closed := rfl
  nextRef := rfl
  streams := rfl
  stream := rfl
  updates := rfl
  data := rfl

/-- A stream gets its request. -/
theorem Created.update {id : UInt32} (h : Created cc cc' id none) (req : Request) :
    Created cc (cc'.update cc.nextRef fun s => { s with req := some req }) id (some req) :=
  { h with
    stream := by
      show Function.update cc'.stream cc.nextRef _ = _
      rw [h.stream_new, h.stream, Function.update_idem]
      rfl }

/-- A push promise is refused, or creates a stream. -/
theorem processPushPromise_cases (h : Wf cc) (hloop : cc.loop ≠ .stopped) (hdr : FrameHeader)
    (promiseID : UInt32) (pushed : Except ClientError Request) :
    (∃ err, cc.processPushPromise hdr promiseID pushed = (some err, cc)) ∨
      (cc.closed = false ∧
        ((∃ err cc', cc.processPushPromise hdr promiseID pushed = (some err, cc') ∧
          Created cc cc' promiseID none) ∨
        (∃ req cc', cc.processPushPromise hdr promiseID pushed = (none, cc') ∧
          Created cc cc' promiseID (some req)))) := by
  unfold processPushPromise
  split
  · exact .inl ⟨_, rfl⟩
  split
  · exact .inl ⟨_, rfl⟩
  split
  · exact .inl ⟨_, rfl⟩
  cases hlookup : cc.lookup hdr.streamID with
  | none => exact .inl ⟨_, rfl⟩
  | some cs =>
    have hclosed : cc.closed = false := by
      refine Bool.eq_false_iff.mpr fun hclosed => ?_
      rcases h.empty hclosed with hl | hnil
      · exact hloop hl
      · exact not_mem_nil (hnil ▸ mem_of_lookup hlookup)
    have hcreated : Created cc
        ({ cc with highestPromiseID := promiseID }.newStreamWithID promiseID false).2
        promiseID none :=
      { created_newStreamWithID { cc with highestPromiseID := promiseID } promiseID false with }
    dsimp only
    split
    · exact .inl ⟨_, rfl⟩
    split
    · exact .inl ⟨_, rfl⟩
    cases pushed with
    | error e => exact .inr ⟨hclosed, .inl ⟨_, _, rfl, hcreated⟩⟩
    | ok req => exact .inr ⟨hclosed, .inr ⟨req, _, rfl, hcreated.update req⟩⟩

/-! ## The loop -/

theorem cleanup_spec (h : Tidy cc) (err : ClientError) :
    Returns (fun cc' => Quiet cc cc' ∧ Wf cc' ∧ cc'.loop = .stopped) (cc.cleanup err) := by
  have hany : cc.streams.any (fun cs => (cc.stream cs).done) = false := by
    rw [any_eq_false]
    exact fun cs hcs => by simp [h.notDone cs hcs]
  have hstream (s : ClientStream) (e : ClientError) :
      KeptStream s ((s.closePipe e).trySend (.err e)) :=
    (KeptStream.closePipe s e).trans (.trySend _ e)
  have hopen : Quiet cc (cc.updateOpen fun s => { (s.closePipe (cc.cleanupError err)).trySend
      (.err (cc.cleanupError err)) with done := true }) :=
    .updateOpen cc fun s =>
      { (hstream s (cc.cleanupError err)).toQuietStream with ended := fun _ => rfl }
  have hquiet : Quiet cc
      { cc.updateOpen fun s => { (s.closePipe (cc.cleanupError err)).trySend
          (.err (cc.cleanupError err)) with done := true } with
        closed := true
        loop := .stopped } :=
    { same := { hopen.same with }
      recv := { hopen.recv with }
      send := { hopen.send with }
      ends :=
        { hopen.ends with
          stopped := fun _ => .inr fun cs hcs => by
            have hcs : cs ∈ cc.streams := hcs
            show (ite _ _ _ : ClientStream).done = true
            rw [if_pos hcs] } }
  unfold cleanup
  simp only [hany]
  refine ⟨hquiet, ?_, rfl⟩
  refine ⟨⟨h.allocated, fun cs hcs => (hquiet.same.stream cs).id.trans (h.unallocated cs hcs),
    fun cs hcs cs' hcs' hid => ?_, fun cs => ?_⟩, fun h => (h rfl).elim, fun h => (h rfl).elim,
    fun _ => rfl, fun _ => .inl rfl, trivial⟩
  · rw [(hquiet.same.stream cs).id, (hquiet.same.stream cs').id] at hid
    exact h.unique cs hcs cs' hcs' hid
  · show ∀ res, (ite _ _ _ : ClientStream).resc = _ → ClientStream.Answered (ite _ _ _)
    split
    · exact (hstream (cc.stream cs) (cc.cleanupError err)).result (h.trailer cs)
    · exact h.trailer cs

/-- The loop stops. -/
theorem stop_spec (h : Tidy cc) (err : ClientError) :
    Returns (fun cc' => Quiet cc cc' ∧ Wf cc' ∧ cc'.loop = .stopped) (cc.stop err) := by
  unfold stop
  split
  · rename_i code
    have hsent : Tidy (cc.send (.goAway 0 code [])) := { h with }
    refine (cleanup_spec hsent _).imp fun cc' hcc' => ?_
    exact ⟨(Quiet.sent cc rfl rfl).trans hcc'.1, hcc'.2⟩
  · exact cleanup_spec h err

theorem wf_running (h : Wf cc) (hloop : cc.loop ≠ .stopped) : Wf { cc with loop := .running } where
  allocated := h.allocated
  unallocated := h.unallocated
  unique := h.unique
  requested := fun _ => h.requested hloop
  notDone := fun _ => h.notDone hloop
  closed := nofun
  empty := fun hclosed => .inr ((h.empty hclosed).resolve_left hloop)
  trailer := h.trailer
  ready := trivial

theorem wf_closeIfIdle (h : Wf cc) : Wf cc.closeIfIdle := by
  unfold closeIfIdle
  split
  · rename_i hempty
    exact
      { h with
        closed := fun _ => rfl
        empty := fun _ => .inr (isEmpty_iff.mp hempty)
        ready := h.ready.imp rfl fun _ h => h }
  · exact h

theorem quiet_closeIfIdle (cc : ClientConn) : Quiet cc cc.closeIfIdle := by
  unfold closeIfIdle
  split
  · exact .of_stream (fun h => h) fun _ => .refl _
  · exact .refl cc

theorem endOfFrame_spec (h : Wf cc) (hloop : cc.loop ≠ .stopped) (err : Option ClientError)
    (maybeIdle : Bool) :
    Returns (fun cc' => Quiet cc cc' ∧ Wf cc' ∧
      cc'.loop = if err.isSome then .stopped else .running)
      (cc.endOfFrame err maybeIdle) := by
  cases err with
  | some e =>
    exact stop_spec (h.tidy hloop) e
  | none =>
    have hwf := wf_running h hloop
    have hquiet : Quiet cc { cc with loop := .running } :=
      .of_stream nofun fun _ => .refl _
    show Quiet cc (ite _ _ _) ∧ _
    split
    · refine ⟨hquiet.trans (quiet_closeIfIdle _), wf_closeIfIdle hwf, ?_⟩
      unfold closeIfIdle
      split <;> rfl
    · exact ⟨hquiet, hwf, rfl⟩

end ClientConn

/-- What the loop may do after a handler. -/
def LoopState.After (result : Handled) : LoopState → Prop
  | .running => ∀ e, result ≠ .returned (some e)
  | .sending cs re deferred => result = .send cs re deferred
  | .delivering cs data streamEnded => result = .deliver cs data streamEnded
  | .stopped => True

variable {l : LoopState}

variable {err : Option ClientError}

theorem LoopState.after_of_returned (h : l = if err.isSome then .stopped else .running)
    {result : Handled} (hresult : ∀ e, result = .returned (some e) → err.isSome) :
    l.After result := by
  rw [h]
  cases err with
  | none => exact fun e heq => Bool.noConfusion (hresult e heq)
  | some e => trivial

theorem LoopState.After.stopped {e : ClientError} (h : l.After (.returned (some e))) :
    l = .stopped := by
  cases l with
  | stopped => rfl
  | running => exact absurd rfl (h e)
  | sending => cases h
  | delivering => cases h

theorem LoopState.After.ne_delivering (h : l.After (.returned err)) (cs : StreamRef) (data : Bytes)
    (streamEnded : Bool) : l ≠ .delivering cs data streamEnded := by
  rintro rfl
  cases h

namespace ClientConn

variable {cc : ClientConn}

theorem handled_spec (h : Wf cc) (hloop : cc.loop ≠ .stopped) {result : Handled}
    (hready : result.Ready cc) :
    Returns (fun cc' => Quiet cc cc' ∧ Wf cc' ∧ cc'.loop.After result) (cc.handled result) := by
  have hparked (l : LoopState) (hne : l ≠ .stopped) (hready : l.Ready cc) :
      Quiet cc { cc with loop := l } ∧ Wf { cc with loop := l } :=
    ⟨.of_stream (fun h => absurd h hne) fun _ => .refl _,
      { wf_running h hloop with
        requested := fun _ => h.requested hloop
        notDone := fun _ => h.notDone hloop
        closed := fun h => absurd h hne
        empty := fun hclosed => .inr ((h.empty hclosed).resolve_left hloop)
        ready := hready.imp rfl fun _ h => h }⟩
  cases result with
  | returned err =>
    refine (endOfFrame_spec h hloop err true).imp fun cc' hcc' => ?_
    refine ⟨hcc'.1, hcc'.2.1, LoopState.after_of_returned hcc'.2.2 fun e heq => ?_⟩
    rw [Handled.returned.inj heq]
    rfl
  | send cs re deferred =>
    unfold handled
    dsimp only
    split
    · obtain ⟨hquiet, hwf⟩ := hparked (.sending cs re deferred) nofun hready
      exact ⟨hquiet, hwf, rfl⟩
    have hsent : Kept cc (cc.update cs fun s => { s with resc := some re }) := by
      refine .update h cs ⟨⟨⟨rfl, rfl, fun h => h⟩, rfl, rfl, .refl _, fun h => h⟩, rfl, ?_⟩
      intro _ res hres
      exact hready.2 res (Option.some.inj hres)
    refine (kept_runDeferred hsent.wf deferred).bind fun cc₁ hrun => ?_
    have hloop₁ : cc₁.loop ≠ .stopped := hrun.loop ▸ hloop
    refine (endOfFrame_spec hrun.wf hloop₁ none true).imp fun cc' hcc' => ?_
    exact ⟨(hsent.toQuiet.trans hrun.toQuiet).trans hcc'.1, hcc'.2.1,
      LoopState.after_of_returned hcc'.2.2 nofun⟩
  | deliver cs data streamEnded =>
    obtain ⟨hquiet, hwf⟩ := hparked (.delivering cs data streamEnded) nofun hready
    exact ⟨hquiet, hwf, rfl⟩

end ClientConn

/-- The frames that may change windows of streams that exist. -/
def Frame.isFlow : Frame → Bool
  | .data .. => true
  | .settings .. => true
  | .windowUpdate .. => true
  | _ => false

namespace ClientConn

variable {cc cc' : ClientConn}

/-- What a frame does. -/
inductive FrameHandled (cc : ClientConn) (outside : Outside) : Frame → ClientConn → Prop
  | data {h : FrameHeader} {data : Bytes} {result : Handled} {cc₁ cc' : ClientConn}
    (hdata : DataHandled cc h data (result, cc₁)) (hquiet : Quiet cc₁ cc')
    (hafter : cc'.loop.After result) : FrameHandled cc outside (.data h data) cc'
  | settings {h : FrameHeader} {p : Bytes} {cc' : ClientConn}
    (hquiet : Quiet (cc.processSettings h p).2 cc')
    (hloop : cc'.loop = if (cc.processSettings h p).1.isSome then .stopped else .running) :
    FrameHandled cc outside (.settings h p) cc'
  | windowUpdate {h : FrameHeader} {increment : UInt32} {cc' : ClientConn}
    (hquiet : Quiet (cc.processWindowUpdate h increment).2 cc')
    (hloop : cc'.loop =
      if (cc.processWindowUpdate h increment).1.isSome then .stopped else .running) :
    FrameHandled cc outside (.windowUpdate h increment) cc'
  | pushed {h : FrameHeader} {promiseID : UInt32} {fields : List HeaderField} {truncated : Bool}
    {req : Option Request} {cc₁ cc' : ClientConn} (hclosed : cc.closed = false)
    (hcreated : Created cc cc₁ promiseID req) (hquiet : Quiet cc₁ cc')
    (hafter : cc'.loop = .running ∨ cc'.loop = .stopped) :
    FrameHandled cc outside (.metaPushPromise h promiseID fields truncated) cc'
  | quiet {f : Frame} {cc' : ClientConn} (hf : f.isFlow = false) (hquiet : Quiet cc cc')
    (hafter : ∀ cs data streamEnded, cc'.loop ≠ .delivering cs data streamEnded) :
    FrameHandled cc outside f cc'

variable {f : Frame} {res : Except Error Frame} {outside : Outside}

theorem handleFrame_spec (h : Wf cc) (hloop : cc.loop ≠ .stopped) (outside : Outside)
    (hdel : f.Delivered) :
    Returns (fun cc' => Wf cc' ∧ FrameHandled cc outside f cc') (cc.handleFrame outside f) := by
  have hend {f : Frame} (hf : f.isFlow = false) {cc₁ : ClientConn} (hkept : Kept cc cc₁)
      (err : Option ClientError) (maybeIdle : Bool) :
      Returns (fun cc' => Wf cc' ∧ FrameHandled cc outside f cc')
        (cc₁.endOfFrame err maybeIdle) := by
    refine (endOfFrame_spec hkept.wf (hkept.loop ▸ hloop) err maybeIdle).imp fun cc' hcc' => ?_
    refine ⟨hcc'.2.1, .quiet hf (hkept.toQuiet.trans hcc'.1) ?_⟩
    rw [hcc'.2.2]
    cases err <;> nofun
  cases f with
  | data hdr data =>
    refine (processData_spec h hloop hdel).bind ?_
    rintro ⟨result, cc₁⟩ ⟨hdata, hready⟩
    have hkept := hdata.wf h
    refine (handled_spec hkept.1 (hkept.2 ▸ hloop) hready).imp fun cc' hcc' => ?_
    exact ⟨hcc'.2.1, .data hdata hcc'.1 hcc'.2.2⟩
  | settings hdr p =>
    have hkept := keptRecv_processSettings h hdr p
    refine (endOfFrame_spec hkept.wf (hkept.loop ▸ hloop) _ false).imp fun cc' hcc' => ?_
    exact ⟨hcc'.2.1, .settings hcc'.1 hcc'.2.2⟩
  | windowUpdate hdr increment =>
    have hkept := keptRecv_processWindowUpdate h hdr increment
    refine (endOfFrame_spec hkept.wf (hkept.loop ▸ hloop) _ false).imp fun cc' hcc' => ?_
    exact ⟨hcc'.2.1, .windowUpdate hcc'.1 hcc'.2.2⟩
  | metaPushPromise hdr promiseID fields truncated =>
    show Returns _ ((cc.processPushPromise hdr promiseID outside.pushed).2.endOfFrame
      (cc.processPushPromise hdr promiseID outside.pushed).1 false)
    obtain ⟨err, hpush⟩ | ⟨hclosed, ⟨err, cc₁, hpush, hcreated⟩ | ⟨req, cc₁, hpush, hcreated⟩⟩ :=
      processPushPromise_cases h hloop hdr promiseID outside.pushed
    · rw [hpush]
      exact hend rfl (.refl h) _ false
    · rw [hpush]
      refine (stop_spec (hcreated.tidy (h.tidy hloop)) err).imp fun cc' hcc' => ?_
      exact ⟨hcc'.2.1, .pushed hclosed hcreated hcc'.1 (.inr hcc'.2.2)⟩
    · rw [hpush]
      have hloop₁ : cc₁.loop ≠ .stopped := hcreated.loop ▸ hloop
      refine (endOfFrame_spec (hcreated.wf h hloop hclosed) hloop₁ none false).imp
        fun cc' hcc' => ?_
      exact ⟨hcc'.2.1, .pushed hclosed hcreated hcc'.1 (.inl hcc'.2.2)⟩
  | metaHeaders hdr priority fields truncated =>
    refine (kept_processHeaders h hloop hdel fields truncated outside.got1xx).bind ?_
    rintro ⟨result, cc₁⟩ ⟨hkept, hready, hnot⟩
    have hgot : Kept cc₁ { cc₁ with gotReply := true } :=
      ⟨.of_stream (fun h => h) fun _ => .refl _, hkept.wf.congr, rfl⟩
    have hready' : result.Ready { cc₁ with gotReply := true } := by
      cases result <;> exact hready
    have hloop₁ : cc₁.loop ≠ .stopped := hkept.loop ▸ hloop
    refine (handled_spec hgot.wf hloop₁ hready').imp fun cc' hcc' => ?_
    refine ⟨hcc'.2.1, .quiet rfl ((hkept.trans hgot).toQuiet.trans hcc'.1) ?_⟩
    intro cs data streamEnded hl
    have hafter := hcc'.2.2
    rw [hl] at hafter
    rw [hafter] at hnot
    cases hnot
  | goAway hdr lastStreamID errCode debugData =>
    exact hend rfl (kept_setGoAway h lastStreamID errCode debugData) none true
  | rstStream hdr errCode =>
    refine (kept_processResetStream h hdr errCode).bind fun cc₁ hkept => ?_
    exact hend rfl hkept none true
  | ping hdr data => exact hend rfl (kept_processPing h hdr data) none false
  | headers | priority | pushPromise | continuation | unknown =>
    exact hend rfl (.refl h) none false

theorem handleError_spec (h : Wf cc) (hloop : cc.loop ≠ .stopped) (e : Error) :
    Returns (fun cc' => Quiet cc cc' ∧ Wf cc' ∧ (cc'.loop = cc.loop ∨ cc'.loop = .stopped))
      (cc.handleError e) := by
  unfold handleError
  split
  · rename_i streamID code cause
    cases hlookup : cc.lookup streamID with
    | none => exact ⟨.refl cc, h, .inl rfl⟩
    | some cs =>
      have hreset : Kept cc (cc.writeStreamReset (cc.stream cs).id code) := .sent h rfl rfl
      have hforget := hreset.trans (kept_without hreset.wf
        ((cc.writeStreamReset (cc.stream cs).id code).stream cs).id true)
      dsimp only
      rw [forgetStreamID_eq hreset.wf]
      refine (kept_endStreamError hforget.wf (hforget.loop ▸ hloop) ?_ _).imp fun cc' hkept => ?_
      · exact hforget.same.nextRef ▸ h.allocated cs (mem_of_lookup hlookup)
      · have hall := hforget.trans hkept
        exact ⟨hall.toQuiet, hall.wf, .inl hall.loop⟩
  · exact (stop_spec (h.tidy hloop) _).imp fun _ hcc' =>
      ⟨hcc'.1, hcc'.2.1, .inr hcc'.2.2⟩

/-- What the loop does with a result of the framer. -/
inductive Received (cc : ClientConn) (outside : Outside) (res : Except Error Frame)
    (cc' : ClientConn) : Prop
  | busy (hloop : cc.loop ≠ .running) (heq : cc' = cc)
  | error {e : Error} (hloop : cc.loop = .running) (hres : res = .error e) (hquiet : Quiet cc cc')
    (hafter : cc'.loop = .running ∨ cc'.loop = .stopped)
  | frame {f : Frame} (hloop : cc.loop = .running) (hres : res = .ok f)
    (hframe : FrameHandled cc outside f cc')

theorem receive_spec (h : Wf cc) (outside : Outside) (hdel : ∀ f, res = .ok f → f.Delivered) :
    Returns (fun cc' => Wf cc' ∧ Received cc outside res cc') (cc.receive outside res) := by
  by_cases hloop : cc.loop = .running
  · have hne : cc.loop ≠ .stopped := by
      rw [hloop]
      nofun
    unfold receive
    rw [hloop]
    cases res with
    | ok f =>
      exact (handleFrame_spec h hne outside (hdel f rfl)).imp fun cc' hcc' =>
        ⟨hcc'.1, .frame hloop rfl hcc'.2⟩
    | error e =>
      exact (handleError_spec h hne e).imp fun cc' hcc' =>
        ⟨hcc'.2.1, .error hloop rfl hcc'.1 (hloop ▸ hcc'.2.2)⟩
  · have hbusy : cc.receive outside res = .ok cc := by
      unfold receive
      split
      · exact absurd ‹_› hloop
      · rfl
    rw [hbusy]
    exact ⟨h, .busy hloop rfl⟩

/-- What the loop does inside a frame. -/
inductive Resumed (cc : ClientConn) (cc' : ClientConn) : Prop
  | idle (heq : cc' = cc)
  | sent {cs : StreamRef} {re : ResAndError} {deferred : Option UInt32}
    (hloop : cc.loop = .sending cs re deferred) (hquiet : Quiet cc cc')
    (hafter : ∀ cs data streamEnded, cc'.loop ≠ .delivering cs data streamEnded)
  | delivered {cs : StreamRef} {data : Bytes} {streamEnded : Bool} {cc₁ : ClientConn}
    (hloop : cc.loop = .delivering cs data streamEnded) (hdelivered : Delivered cc cc₁ cs data)
    (hquiet : Quiet cc₁ cc') (hafter : cc'.loop = .running ∨ cc'.loop = .stopped)

theorem resume_spec (h : Wf cc) : Returns (fun cc' => Wf cc' ∧ Resumed cc cc') cc.resume := by
  have hready := h.ready
  unfold resume
  cases hloop : cc.loop with
  | running => exact ⟨h, .idle rfl⟩
  | stopped => exact ⟨h, .idle rfl⟩
  | sending cs re deferred =>
    have hne : cc.loop ≠ .stopped := by
      rw [hloop]
      nofun
    rw [hloop] at hready
    have hsend : (Handled.send cs re deferred).Ready cc := hready
    refine (handled_spec h hne hsend).imp fun cc' hcc' => ?_
    refine ⟨hcc'.2.1, .sent hloop hcc'.1 fun cs' data streamEnded hl => ?_⟩
    have hafter := hcc'.2.2
    rw [hl] at hafter
    cases hafter
  | delivering cs data streamEnded =>
    have hne : cc.loop ≠ .stopped := by
      rw [hloop]
      nofun
    rw [hloop] at hready
    refine (deliverData_spec h hne hready data streamEnded).bind ?_
    rintro ⟨result, cc₁⟩ ⟨hdelivered, err, rfl⟩
    have hne₁ : cc₁.loop ≠ .stopped := hdelivered.loop ▸ hne
    refine (endOfFrame_spec hdelivered.wf hne₁ err true).imp fun cc' hcc' => ?_
    refine ⟨hcc'.2.1, .delivered hloop hdelivered hcc'.1 ?_⟩
    rw [hcc'.2.2]
    cases err with
    | none => exact .inl rfl
    | some e => exact .inr rfl

/-! ## What all frames keep -/

theorem same_unknownData (cc : ClientConn) (h : FrameHeader) : Same cc (cc.unknownData h).2 := by
  unfold unknownData
  dsimp only
  split
  · exact .refl cc
  split
  · exact { Same.refl cc with }
  · exact .refl cc

theorem DataHandled.same {h : FrameHeader} {data : Bytes} {r : Handled × ClientConn}
    (hr : DataHandled cc h data r) : Same cc r.2 := by
  cases hr with
  | unknown => exact same_unknownData cc h
  | uncharged _ _ hkept => exact hkept.same
  | exceeded _ hkept => exact hkept.same
  | charged _ hkept _ _ _ _ hrest => exact (hkept.same.trans (same_refill ..)).trans hrest.same

theorem FrameHandled.grows (h : Wf cc) (hf : FrameHandled cc outside f cc') : Grows cc cc' := by
  cases hf with
  | data hdata hquiet => exact (hdata.same.trans hquiet.same).grows
  | settings hquiet => exact ((keptRecv_processSettings h _ _).same.trans hquiet.same).grows
  | windowUpdate hquiet => exact ((keptRecv_processWindowUpdate h _ _).same.trans hquiet.same).grows
  | pushed _ hcreated hquiet => exact hcreated.grows.trans hquiet.same.grows
  | quiet _ hquiet => exact hquiet.same.grows

theorem Received.grows (h : Wf cc) (hr : Received cc outside res cc') : Grows cc cc' := by
  cases hr with
  | busy _ heq => exact heq ▸ (Same.refl cc).grows
  | error _ _ hquiet => exact hquiet.same.grows
  | frame _ _ hframe => exact hframe.grows h

theorem Resumed.same (hr : Resumed cc cc') : Same cc cc' := by
  cases hr with
  | idle heq => exact heq ▸ .refl cc
  | sent _ hquiet => exact hquiet.same
  | delivered _ hdelivered hquiet => exact hdelivered.same.trans hquiet.same

end ClientConn

end Fhttp.Http2
