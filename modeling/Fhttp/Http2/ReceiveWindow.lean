import Fhttp.Http2.ClientSteps

/-!
# The windows for what the peer sends

A `DATA` frame is charged to the windows of its stream and of the connection, and `Read`
and `Close` give back to them.  `Client.Moved` says what an event does to these windows;
the results about runs are derived from it:

* the window of the connection is what the peer thinks it is, as long as every `DATA`
  frame is charged and no sum overflows (`inflow_mirrors`);
* a stream with data in its pipe has no more than the configured window, as long as
  `Read` does not see less of it than there is (`stream_budget`);
* when the window of a stream is used up, `Read` gives something back if and only if the
  configured window is above a threshold (`read_updates_iff`).
-/

namespace Fhttp.Http2

open Hpack (Bytes ascii)
open ClientConn
open Transport
open List

/-! ## What an event does to the windows -/

variable {cc cc' : ClientConn}

theorem SameRecv.refill (h : SameRecv cc cc') (cs : StreamRef) (i n : Int32)
    (calls : List WriteCall) : SameRecv (cc.refill cs i n calls) (cc'.refill cs i n calls) where
  inflow := rfl
  updates := by
    simp only [ClientConn.refill, ClientConn.update, filter_append, h.updates]
  streamInflow := fun cs' => by
    by_cases heq : cs' = cs
    · rw [heq, stream_refill_self, stream_refill_self]
    · rw [stream_refill_of_ne _ heq, stream_refill_of_ne _ heq]
      exact h.streamInflow cs'
  pipe := fun cs' => by
    rw [bufPipe_refill, bufPipe_refill]
    exact h.pipe cs'

theorem SameRecv.update (cc : ClientConn) (cs : StreamRef) {f : ClientStream → ClientStream}
    (hinflow : (f (cc.stream cs)).inflow = (cc.stream cs).inflow)
    (hpipe : (cc.stream cs).bufPipe.Shrinks (f (cc.stream cs)).bufPipe) :
    SameRecv cc (cc.update cs f) :=
  { SameRecv.refl cc with
    streamInflow := forall_update (P := fun cs' s => s.inflow = (cc.stream cs').inflow)
      (fun _ => rfl) hinflow
    pipe := forall_update (P := fun cs' s => (cc.stream cs').bufPipe.Shrinks s.bufPipe)
      (fun _ => .refl _) hpipe }

/-- A frame for what the connection gets back. -/
theorem SameRecv.send (h : SameRecv cc cc') (i : Int32) (c : WriteCall) :
    SameRecv ({ cc with inflow := i }.send c) ({ cc' with inflow := i }.send c) where
  inflow := rfl
  updates := by
    simp only [ClientConn.send]
    split
    · rw [filter_append, filter_append, h.updates]
    · exact h.updates
  streamInflow := h.streamInflow
  pipe := h.pipe

def Frame.isData : Frame → Bool
  | .data .. => true
  | _ => false

namespace Client

variable {s s' : Client} {e : ClientEvent}

/-- The bytes for a stream that the read loop has charged and not written to the pipe. -/
def inHand (s : Client) (cs : StreamRef) : Nat :=
  match s.cc.loop with
  | .delivering cs' data _ => if cs' = cs then data.length else 0
  | _ => 0

section

variable (h : ∀ cs data streamEnded, s.cc.loop ≠ .delivering cs data streamEnded) (cs : StreamRef)

include h

theorem inHand_eq_zero : s.inHand cs = 0 := by
  unfold inHand
  split
  · rename_i hloop
    exact absurd hloop (h _ _ _)
  · rfl

theorem inHand_le (n : Nat) : s.inHand cs ≤ n :=
  (inHand_eq_zero h cs).trans_le (Nat.zero_le n)

end

theorem ne_delivering {l : LoopState} (h : l = .running ∨ l = .stopped)
    (cs : StreamRef) (data : Bytes) (streamEnded : Bool) : l ≠ .delivering cs data streamEnded := by
  rcases h with h | h <;> rw [h] <;> nofun

theorem inHand_congr (h : s'.cc.loop = s.cc.loop) (cs : StreamRef) :
    s'.inHand cs = s.inHand cs := by
  unfold inHand
  rw [h]

/-- What an event does to the windows for what the peer sends. -/
inductive Moved (s : Client) : ClientEvent → Client → Prop
  | same {e : ClientEvent} {s' : Client} (hrecv : SameRecv s.cc s'.cc)
    (hhand : ∀ cs, s'.inHand cs ≤ s.inHand cs) (hreceived : s'.hist.received = s.hist.received) :
    Moved s e s'
  /-- A `DATA` frame that no window is charged for. -/
  | uncharged {outside : ClientConn.Outside} {h : FrameHeader} {data : Bytes} {s' : Client}
    (hloop : s.cc.loop = .running) (hrecv : SameRecv s.cc s'.cc) (hhand : ∀ cs, s'.inHand cs = 0)
    (hcause : s'.cc.loop = .stopped ∨ h.length = 0 ∨ ∃ cs, s.cc.lookup h.streamID = some cs ∧
      ((s.cc.stream cs).firstByte = false ∨
        (data ≠ [] ∧ ∃ req, (s.cc.stream cs).req = some req ∧ req.method = ascii "HEAD")))
    (hreceived : s'.hist.received = s.hist.received + h.length.toNat) :
    Moved s (.receive outside (.ok (.data h data))) s'
  /-- A `DATA` frame on a stream that is not in the map. -/
  | unknown {outside : ClientConn.Outside} {h : FrameHeader} {data : Bytes} {s' : Client}
    (hloop : s.cc.loop = .running) (hlookup : s.cc.lookup h.streamID = none)
    (hasked : ¬ (h.streamID ≥ s.cc.nextStreamID ∧ ¬ h.streamID % 2 = 0)) (hlength : h.length > 0)
    (hrecv : SameRecv ({ s.cc with inflow := (Flow.add s.cc.inflow h.length.toInt32).1 }.send
      (.windowUpdate 0 h.length)) s'.cc)
    (hhand : ∀ cs, s'.inHand cs = 0)
    (hreceived : s'.hist.received = s.hist.received + h.length.toNat) :
    Moved s (.receive outside (.ok (.data h data))) s'
  | charged {outside : ClientConn.Outside} {h : FrameHeader} {data : Bytes} {cs : StreamRef}
    {i n : Int32} {s' : Client}
    (hfits : (h.length.toNat : Int) ≤ s.cc.inflow.toInt ∧
      (h.length.toNat : Int) ≤ (s.cc.stream cs).inflow.toInt)
    (hi : i.toInt = s.cc.inflow.toInt - h.length.toNat + refundOf h data (s.cc.stream cs).didReset)
    (hn : n.toInt = (s.cc.stream cs).inflow.toInt - h.length.toNat +
      if (s.cc.stream cs).didReset then 0 else refundOf h data (s.cc.stream cs).didReset)
    (hid : (s.cc.stream cs).id = h.streamID)
    (hrecv : SameRecv (s.cc.refill cs i n
      (refundCalls (s.cc.stream cs).id (refundOf h data (s.cc.stream cs).didReset)
        (s.cc.stream cs).didReset)) s'.cc)
    (hhand : s'.inHand cs ≤ if (s.cc.stream cs).didReset then 0 else data.length)
    (hother : ∀ cs' ≠ cs, s'.inHand cs' = 0)
    (hreceived : s'.hist.received = s.hist.received + h.length.toNat) :
    Moved s (.receive outside (.ok (.data h data))) s'
  | delivered {cs : StreamRef} {data : Bytes} {cc₁ : ClientConn} {s' : Client}
    (hinHand : s.inHand cs = data.length) (hdelivered : Delivered s.cc cc₁ cs data)
    (hrecv : SameRecv cc₁ s'.cc) (hhand : ∀ cs, s'.inHand cs = 0)
    (hreceived : s'.hist.received = s.hist.received) : Moved s .resume s'
  | created {e : ClientEvent} {id : UInt32} {req : Option Request} {cc₁ : ClientConn} {s' : Client}
    (hcreated : Created s.cc cc₁ id req) (hrecv : SameRecv cc₁ s'.cc)
    (hhand : ∀ cs, s'.inHand cs ≤ s.inHand cs) (hreceived : s'.hist.received = s.hist.received) :
    Moved s e s'
  | credited {i : Nat} {cs : StreamRef} {err : Option ClientError} {s' : Client}
    (htask : s.tasks[i]? = some (.credit cs err)) (hcredit : s.cc.creditRead cs err = .ok s'.cc)
    (hhand : ∀ cs, s'.inHand cs ≤ s.inHand cs) (hreceived : s'.hist.received = s.hist.received) :
    Moved s (.step i) s'
  | closed {i : Nat} {cs : StreamRef} {unread : Nat} {serverSentStreamEnd : Bool} {s' : Client}
    (htask : s.tasks[i]? = some (.closeReset cs unread serverSentStreamEnd)) (hpos : 0 < unread)
    (hrecv : SameRecv ({ s.cc with inflow := (Flow.add s.cc.inflow (Int32.ofNat unread)).1 }.send
      (.windowUpdate 0 (UInt32.ofNat unread))) s'.cc)
    (hhand : ∀ cs, s'.inHand cs ≤ s.inHand cs) (hreceived : s'.hist.received = s.hist.received) :
    Moved s (.step i) s'

variable {f : Frame} {outside : ClientConn.Outside} {cc' : ClientConn} {singleUse : Bool}
  {events : List ClientEvent}

/-- Only `DATA` frames are counted. -/
theorem received_receive (hist : History) (cc : ClientConn) (hf : f.isData = false) :
    (hist.receive cc f).received = hist.received := by
  cases f with
  | data hdr data => cases hf
  | windowUpdate hdr increment =>
    simp only [History.receive]
    split
    · rfl
    · cases cc.lookup hdr.streamID <;> rfl
  | _ => rfl

section

variable (hloop : s.cc.loop = .running)

include hloop

/-- The history after a frame that is not counted. -/
theorem received_frame (hf : f.isData = false) (cc' : ClientConn) :
    ((s.received (.ok f)).remove s.cc cc').received = s.hist.received := by
  unfold received
  rw [hloop]
  exact received_receive s.hist s.cc hf

/-- The history after a `DATA` frame. -/
theorem received_data (h : FrameHeader) (data : Bytes) (cc' : ClientConn) :
    ((s.received (.ok (.data h data))).remove s.cc cc').received =
      s.hist.received + h.length.toNat := by
  unfold received
  rw [hloop]
  rfl

theorem moved_of_data {h : FrameHeader} {data : Bytes} {result : Handled} {cc₁ : ClientConn}
    (hdata : DataHandled s.cc h data (result, cc₁)) (hquiet : Quiet cc₁ cc')
    (hafter : cc'.loop.After result) :
    s.Moved (.receive outside (.ok (.data h data)))
      { s with cc := cc', hist := (s.received (.ok (.data h data))).remove s.cc cc' } := by
  have hreceived := received_data hloop h data cc'
  cases hdata with
  | unknown hlookup =>
    have hhand : ∀ cs, inHand { s with
        cc := cc', hist := (s.received (.ok (.data h data))).remove s.cc cc' } cs = 0 :=
      inHand_eq_zero hafter.ne_delivering
    unfold unknownData at hquiet hafter
    dsimp only at hquiet hafter
    split at hquiet
    · rename_i hnever
      rw [if_pos hnever] at hafter
      exact .uncharged hloop hquiet.recv hhand (.inl hafter.stopped) hreceived
    rename_i hasked
    split at hquiet
    · rename_i hpos
      exact .unknown hloop hlookup hasked hpos hquiet.recv hhand hreceived
    · rename_i hzero
      refine .uncharged hloop hquiet.recv hhand (.inr (.inl ?_)) hreceived
      exact UInt32.toNat_inj.mp (Nat.eq_zero_of_not_pos hzero)
  | uncharged hlookup hcause hkept =>
    refine .uncharged hloop (hkept.recv.trans hquiet.recv) (inHand_eq_zero hafter.ne_delivering)
      (.inr ?_) hreceived
    exact hcause.imp id fun hcause => ⟨_, hlookup, hcause⟩
  | exceeded hlookup hkept =>
    exact .uncharged hloop (hkept.recv.trans hquiet.recv) (inHand_eq_zero hafter.ne_delivering)
      (.inl hafter.stopped) hreceived
  | @charged cs cc₂ _ i n _ hlookup hkept hreset hfits hi hn hrest hresult =>
    have hinHand (cs') : inHand { s with
        cc := cc', hist := (s.received (.ok (.data h data))).remove s.cc cc' } cs' ≤
        if cs' = cs ∧ (s.cc.stream cs).didReset = false then data.length else 0 := by
      unfold inHand
      split
      · rename_i cs'' data' streamEnded hl
        rw [hl] at hafter
        rcases hresult with ⟨streamEnded', hresult, hnot⟩ | hresult
        · cases hafter.symm.trans hresult
          rw [if_congr (and_iff_left hnot) rfl rfl]
          simp only [eq_comm, Nat.le_refl]
        · cases hafter.symm.trans hresult
      · exact Nat.zero_le _
    refine .charged hfits hi hn (id_of_lookup hlookup)
      (((hkept.recv.refill ..).trans hrest.recv).trans hquiet.recv) ?_ ?_ hreceived
    · have hcs := hinHand cs
      cases hd : (s.cc.stream cs).didReset <;> simpa [hd] using hcs
    · intro cs' hne
      have hcs' := hinHand cs'
      rw [if_neg fun hand => hne hand.1] at hcs'
      exact Nat.eq_zero_of_le_zero hcs'

end

theorem moved_of_received {res : Except Error Frame} (h : ClientConn.Received s.cc outside res cc')
    (hwf : s.Wf) :
    s.Moved (.receive outside res)
      { s with cc := cc', hist := (s.received res).remove s.cc cc' } := by
  cases h with
  | busy hloop heq =>
    rw [heq]
    have hreceived : s.received res = s.hist := by
      unfold received
      split
      · rename_i hrun
        exact absurd hrun hloop
      · rfl
    rw [hreceived]
    exact .same (.refl _) (fun _ => Nat.le_refl _) rfl
  | error hloop hres hquiet hafter =>
    rw [hres]
    refine .same hquiet.recv (fun cs => inHand_le (ne_delivering hafter) cs _) ?_
    unfold received
    rw [hloop]
    rfl
  | @frame f hloop hres hframe =>
    rw [hres]
    have hhand (h : ∀ cs data streamEnded, cc'.loop ≠ .delivering cs data streamEnded)
        (cs : StreamRef) : inHand { s with
          cc := cc', hist := (s.received (.ok f)).remove s.cc cc' } cs ≤ s.inHand cs :=
      inHand_le h cs _
    have hnext {p : Bool} (h : cc'.loop = if p then .stopped else .running) :
        ∀ cs data streamEnded, cc'.loop ≠ .delivering cs data streamEnded := by
      intro cs data streamEnded heq
      rw [heq] at h
      split at h <;> cases h
    cases hframe with
    | data hdata hquiet hafter => exact moved_of_data hloop hdata hquiet hafter
    | settings hquiet hloop' =>
      exact .same ((keptRecv_processSettings hwf.conn _ _).recv.trans hquiet.recv)
        (hhand (hnext hloop')) (received_frame hloop rfl _)
    | windowUpdate hquiet hloop' =>
      exact .same ((keptRecv_processWindowUpdate hwf.conn _ _).recv.trans hquiet.recv)
        (hhand (hnext hloop')) (received_frame hloop rfl _)
    | pushed hclosed hcreated hquiet hafter =>
      exact .created hcreated hquiet.recv (hhand (ne_delivering hafter))
        (received_frame hloop rfl _)
    | quiet hf hquiet hafter =>
      refine .same hquiet.recv (hhand hafter) (received_frame hloop ?_ _)
      cases f with
      | data => cases hf
      | _ => rfl

/-- What an event does to the windows for what the peer sends. -/
theorem Stepped.moved (h : s.Stepped e s') (hwf : s.Wf) : s.Moved e s' := by
  cases h with
  | received h => exact moved_of_received h hwf
  | resumed h =>
    cases h with
    | idle heq =>
      rw [heq]
      exact .same (.refl _) (fun _ => Nat.le_refl _) rfl
    | sent hloop hquiet hafter =>
      exact .same hquiet.recv (fun cs => inHand_le hafter cs _) rfl
    | delivered hloop hdelivered hquiet hafter =>
      refine .delivered ?_ hdelivered hquiet.recv (inHand_eq_zero (ne_delivering hafter)) rfl
      unfold inHand
      rw [hloop]
      exact if_pos rfl
  | created hclosed hcreated hkept =>
    refine .created hcreated hkept.recv (fun cs => ?_) rfl
    exact Nat.le_of_eq (inHand_congr (hkept.loop.trans hcreated.loop) cs)
  | @awaited cs _ _ _ n conn _ _ _ _ =>
    have hflow : SameRecv s.cc { s.cc with flow := conn } := { SameRecv.refl s.cc with }
    have hupdate :=
      SameRecv.update { s.cc with flow := conn } cs (f := fun s => { s with flow := n })
      rfl (.refl _)
    exact .same (hflow.trans hupdate) (fun _ => Nat.le_refl _) rfl
  | credited htask hcredit =>
    refine .credited htask hcredit (fun cs => Nat.le_of_eq (inHand_congr ?_ cs)) rfl
    exact (still_creditRead hcredit).loop
  | @closeReset i cs unread serverSentStreamEnd htask =>
    obtain ⟨cc₁, hkept, heq⟩ := kept_closeReset hwf.conn cs serverSentStreamEnd
    have hloop := (still_closeReset hwf.conn cs unread serverSentStreamEnd).loop
    rcases Nat.eq_zero_or_pos unread with rfl | hpos
    · refine .same ?_ (fun cs => Nat.le_of_eq (inHand_congr hloop cs)) rfl
      rw [heq]
      exact hkept.recv
    · refine .closed htask hpos ?_ (fun cs => Nat.le_of_eq (inHand_congr hloop cs)) rfl
      rw [heq, if_pos hpos]
      exact hkept.recv.send _ _
  | wrote htask =>
    exact .same { SameRecv.refl s.cc with updates := filter_out_send _ rfl }
      (fun _ => Nat.le_refl _) rfl
  | closedForError =>
    exact .same (recv_closeForError ..) (fun _ => Nat.le_refl _) rfl
  | quiet hquiet hloop htasks hcredit =>
    exact .same hquiet.recv (fun cs => Nat.le_of_eq (inHand_congr hloop cs)) rfl

/-! ## What holds in every run -/

theorem Stepped.grows (h : s.Stepped e s') (hwf : s.Wf) : Grows s.cc s'.cc := by
  cases h with
  | received h => exact h.grows hwf.conn
  | resumed h => exact h.same.grows
  | created hclosed hcreated hkept => exact hcreated.grows.trans hkept.same.grows
  | awaited => exact (s.cc.still_take ..).same.grows
  | credited _ hcredit => exact (still_creditRead hcredit).same.grows
  | closeReset => exact (still_closeReset hwf.conn ..).same.grows
  | wrote _ =>
    have hsame (c : WriteCall) : Same s.cc (s.cc.send c) := { Same.refl s.cc with }
    exact (hsame _).grows
  | closedForError => exact (same_closeForError ..).grows
  | quiet hquiet => exact hquiet.same.grows

/-- What the windows of a client never lose. -/
structure Sound (t : Transport) (s : Client) : Prop where
  connFlow : s.cc.connFlow = t.connFlow
  streamFlow : s.cc.streamFlow = t.streamFlow
  connFlow_lt : s.cc.connFlow.toNat < 2 ^ 31
  streamFlow_lt : s.cc.streamFlow.toNat < 2 ^ 31
  inflow : ∀ cs, 0 ≤ (s.cc.stream cs).inflow.toInt
  pipe : ∀ cs, (s.cc.stream cs).bufPipe.Wf

variable {t : Transport}

theorem Fresh.sound (h : s.Fresh t) : s.Sound t where
  connFlow := h.connFlow
  streamFlow := h.streamFlow
  connFlow_lt := h.connFlow ▸ h.connFlow_lt
  streamFlow_lt := h.streamFlow ▸ h.streamFlow_lt
  inflow := fun cs => by
    rw [h.stream]
    exact Int.le_refl 0
  pipe := fun cs => by
    rw [h.stream]
    nofun

/-- The window of a new stream. -/
theorem toInt_inflow_fresh {cc : ClientConn} (hlt : cc.streamFlow.toNat < 2 ^ 31) (id : UInt32)
    (req : Option Request) : (cc.freshStream id req).inflow.toInt = cc.streamFlow.toNat := by
  have hflow := Flow.toInt_toInt32 hlt
  have hzero : (0 : Int32).toInt = 0 := rfl
  show (Flow.add 0 cc.streamFlow.toInt32).1.toInt = _
  rw [Flow.add_of_fits (by omega), Flow.toInt_add (by omega), hflow]
  omega

/-- The windows of the streams and their pipes after an event. -/
theorem Moved.sound (h : s.Moved e s') (hgrows : Grows s.cc s'.cc) (hs : s.Sound t) :
    s'.Sound t := by
  have hsame {cc₁ : ClientConn} (hrecv : SameRecv cc₁ s'.cc)
      (hinflow : ∀ cs, 0 ≤ (cc₁.stream cs).inflow.toInt)
      (hpipe : ∀ cs, (cc₁.stream cs).bufPipe.Wf) : s'.Sound t :=
    { connFlow := hgrows.connFlow.trans hs.connFlow
      streamFlow := hgrows.streamFlow.trans hs.streamFlow
      connFlow_lt := hgrows.connFlow ▸ hs.connFlow_lt
      streamFlow_lt := hgrows.streamFlow ▸ hs.streamFlow_lt
      inflow := fun cs => hrecv.streamInflow cs ▸ hinflow cs
      pipe := fun cs => (hrecv.pipe cs (hpipe cs)).1 }
  have hrefill {cs : StreamRef} {i n : Int32} {calls : List WriteCall} (hn : 0 ≤ n.toInt)
      (hrecv : SameRecv (s.cc.refill cs i n calls) s'.cc) : s'.Sound t :=
    hsame hrecv (forall_update (P := fun _ s => 0 ≤ s.inflow.toInt) hs.inflow hn)
      (forall_update (P := fun _ s => s.bufPipe.Wf) hs.pipe (hs.pipe cs))
  cases h with
  | same hrecv => exact hsame hrecv hs.inflow hs.pipe
  | uncharged _ hrecv => exact hsame hrecv hs.inflow hs.pipe
  | unknown _ _ _ _ hrecv => exact hsame hrecv hs.inflow hs.pipe
  | charged hfits hi hn hid hrecv =>
    refine hrefill ?_ hrecv
    rw [hn]
    split <;> omega
  | @delivered cs data cc₁ _ hinHand hdelivered hrecv =>
    refine hsame hrecv (fun cs' => ?_) fun cs' => ?_
    · rw [hdelivered.streamInflow]
      exact hs.inflow cs'
    · by_cases heq : cs' = cs
      · exact heq ▸ (hdelivered.pipe (hs.pipe cs)).1
      · exact (hdelivered.pipeOther cs' heq (hs.pipe cs')).1
  | created hcreated hrecv =>
    refine hsame hrecv ?_ ?_ <;> rw [hcreated.stream]
    · refine (Function.forall_update_iff _ fun _ (s : ClientStream) => 0 ≤ s.inflow.toInt).mpr
        ⟨?_, fun cs _ => hs.inflow cs⟩
      rw [toInt_inflow_fresh hs.streamFlow_lt]
      exact Int.natCast_nonneg _
    · exact (Function.forall_update_iff _ fun _ (s : ClientStream) => s.bufPipe.Wf).mpr
        ⟨nofun, fun cs _ => hs.pipe cs⟩
  | @credited i cs err _ htask hcredit =>
    obtain ⟨i, n, calls, heq, -, hn⟩ := creditRead_refill hcredit
    have hrecv : SameRecv (s.cc.refill cs i n calls) s'.cc := heq ▸ .refl _
    exact hrefill (hn (hs.inflow cs)) hrecv
  | closed _ _ hrecv => exact hsame hrecv hs.inflow hs.pipe

/-- An invariant of the runs of a new client, whose events meet a condition. -/
theorem invariant_of_run {I : Client → Prop} {cond : Client → ClientEvent → Prop}
    (hnew : t.newClient singleUse = .ok s) (hI : s.Fresh t → I s)
    (hstep : ∀ {s e s'}, s.Wf → s.Sound t → I s → e.Delivered → cond s e → s.Stepped e s' → I s')
    (hdel : ∀ e ∈ events, e.Delivered) (halways : Lib.Run.Always step cond s events)
    (hrun : s.run events = .ok s') : s'.Wf ∧ s'.Sound t ∧ I s' := by
  have hfresh := newClient_fresh hnew
  refine run_invariant (I := fun s => s.Sound t ∧ I s) ?_ hfresh.wf ⟨hfresh.sound, hI hfresh⟩ hdel
    halways hrun
  intro s e s' hwf hs hdel hcond hstepped
  exact ⟨(hstepped.moved hwf).sound (hstepped.grows hwf) hs.1,
    hstep hwf hs.1 hs.2 hdel hcond hstepped⟩

/-- Every state of a run is sound. -/
theorem sound_of_run (hnew : t.newClient singleUse = .ok s) (hdel : ∀ e ∈ events, e.Delivered)
    (hrun : s.run events = .ok s') : s'.Wf ∧ s'.Sound t := by
  have halways : Lib.Run.Always step (fun _ _ => True) s events :=
    Lib.Run.always_of_forall (fun _ _ => trivial) s events
  have h := invariant_of_run (I := fun _ => True) hnew (fun _ => trivial)
    (fun _ _ _ _ _ _ => trivial) hdel halways hrun
  exact ⟨h.1, h.2.1⟩

end Client

/-! ## The window of the connection -/

/-- What a frame gives to the window of the connection. -/
def WriteCall.connIncrement : WriteCall → Nat
  | .windowUpdate streamID incr => if streamID = 0 then incr.toNat else 0
  | _ => 0

/-- What the frames written so far have given to the window of the connection. -/
def ClientConn.connIncrements (cc : ClientConn) : Nat := (cc.out.map WriteCall.connIncrement).sum

theorem sum_connIncrement_filter (calls : List WriteCall) :
    ((calls.filter WriteCall.isWindowUpdate).map WriteCall.connIncrement).sum =
      (calls.map WriteCall.connIncrement).sum := by
  induction calls with
  | nil => rfl
  | cons c calls ih =>
    cases c with
    | windowUpdate id incr =>
      simp only [filter_cons, WriteCall.isWindowUpdate, if_true, map_cons, sum_cons, ih]
    | _ =>
      simp only [filter_cons, WriteCall.isWindowUpdate, Bool.false_eq_true, if_false,
        map_cons, sum_cons, ih, WriteCall.connIncrement, Nat.zero_add]

namespace ClientConn

variable {cc cc' : ClientConn} {cs : StreamRef}

theorem connIncrements_congr
    (h : cc'.out.filter WriteCall.isWindowUpdate = cc.out.filter WriteCall.isWindowUpdate) :
    cc'.connIncrements = cc.connIncrements := by
  unfold connIncrements
  rw [← sum_connIncrement_filter, h, sum_connIncrement_filter]

theorem connIncrements_refill (cc : ClientConn) (cs : StreamRef) (i n : Int32)
    (calls : List WriteCall) : (cc.refill cs i n calls).connIncrements =
      cc.connIncrements + (calls.map WriteCall.connIncrement).sum := by
  simp only [connIncrements, refill, update, map_append, sum_append]

theorem connIncrement_refundCalls {id : UInt32} (hid : id ≠ 0) {refund : Nat}
    (hrefund : refund < 2 ^ 32) (didReset : Bool) :
    ((refundCalls id refund didReset).map WriteCall.connIncrement).sum = refund := by
  have hnat : (UInt32.ofNat refund).toNat = refund := UInt32.toNat_ofNat_of_lt' hrefund
  unfold refundCalls
  split
  · cases didReset with
    | true => simp [WriteCall.connIncrement, hnat]
    | false => simp [WriteCall.connIncrement, hnat, hid]
  · have hzero : refund = 0 := by omega
    rw [hzero]
    rfl

theorem connIncrement_addCalls (id : UInt32) (add : Int32) (hadd : 0 ≤ add.toInt) :
    (((addCalls id add).map WriteCall.connIncrement).sum : Int) =
      if id = 0 then add.toInt else 0 := by
  have hnat := Flow.toNat_toUInt32 hadd
  unfold addCalls
  split
  · by_cases hid : id = 0
    · simp [WriteCall.connIncrement, hid, hnat]
    · simp [WriteCall.connIncrement, hid]
  · rename_i hzero
    have hadd : add = 0 := not_not.mp hzero
    rw [hadd]
    split <;> rfl

end ClientConn

namespace Client

variable {t : Transport} {s s' : Client} {e : ClientEvent}

/-- Every `DATA` frame with a length is charged: it is on a stream in the map that has got a
response and is not that of a `HEAD` request, or it ends the connection.  What `Close` gives
back does not overflow. -/
def accounted (s : Client) : ClientEvent → Bool
  | .receive _ (.ok (.data h data)) =>
    s.cc.loop ≠ .running || h.length = 0 ||
      match s.cc.lookup h.streamID with
      | some cs =>
        (s.cc.stream cs).firstByte &&
          (data.isEmpty || (s.cc.stream cs).req.map (·.method) ≠ some (ascii "HEAD"))
      | none => h.streamID ≥ s.cc.nextStreamID && h.streamID % 2 ≠ 0
  | .step i =>
    match s.tasks[i]? with
    | some (.closeReset _ unread _) => s.cc.inflow.toInt + unread < 2 ^ 31
    | _ => true
  | _ => true

/-- The window of the connection is what the peer thinks it is. -/
def Mirrors (s : Client) : Prop :=
  s.cc.loop ≠ .stopped →
    s.cc.inflow.toInt = 65535 + (s.cc.connIncrements : Int) - (s.hist.received : Int)

/-- A read loop that has stopped does not start again. -/
theorem Stepped.stopped (h : s.Stepped e s') (hwf : s.Wf) (hstopped : s.cc.loop = .stopped) :
    s'.cc.loop = .stopped := by
  cases h with
  | received h =>
    cases h with
    | busy _ heq => exact heq ▸ hstopped
    | error hloop => cases hloop.symm.trans hstopped
    | frame hloop => cases hloop.symm.trans hstopped
  | resumed h =>
    cases h with
    | idle heq => exact heq ▸ hstopped
    | sent hloop => cases hloop.symm.trans hstopped
    | delivered hloop => cases hloop.symm.trans hstopped
  | created hclosed hcreated hkept => exact (hkept.loop.trans hcreated.loop).trans hstopped
  | awaited => exact hstopped
  | credited _ hcredit => exact (still_creditRead hcredit).loop.trans hstopped
  | closeReset => exact (still_closeReset hwf.conn ..).loop.trans hstopped
  | wrote => exact hstopped
  | closedForError => exact hstopped
  | quiet _ hloop => exact hloop.trans hstopped

section

variable {outside : ClientConn.Outside} {h : FrameHeader} {data : Bytes}
  (hcond : s.accounted (.receive outside (.ok (.data h data))) = true)
  (hloop : s.cc.loop = .running) (hlength : h.length ≠ 0)

include hcond hloop hlength

/-- A frame that is charged is on no stream that would not be. -/
theorem not_uncharged {cs : StreamRef} (hlookup : s.cc.lookup h.streamID = some cs) :
    ¬ ((s.cc.stream cs).firstByte = false ∨
      (data ≠ [] ∧ ∃ req, (s.cc.stream cs).req = some req ∧ req.method = ascii "HEAD")) := by
  simp only [accounted, hloop, hlength, hlookup, ne_eq, not_true_eq_false, decide_false,
    Bool.false_or, Bool.and_eq_true, Bool.or_eq_true, decide_eq_true_eq] at hcond
  rintro (hfirst | ⟨hdata, req, hreq, hhead⟩)
  · rw [hfirst] at hcond
    exact absurd hcond.1 Bool.false_ne_true
  · rcases hcond.2 with hempty | hmethod
    · exact hdata (isEmpty_iff.mp hempty)
    · rw [hreq] at hmethod
      exact hmethod (congrArg some hhead)

/-- A frame on a stream that is not in the map ends the connection. -/
theorem not_unknown (hlookup : s.cc.lookup h.streamID = none) :
    h.streamID ≥ s.cc.nextStreamID ∧ ¬ h.streamID % 2 = 0 := by
  simpa only [accounted, hloop, hlength, hlookup, ne_eq, not_true_eq_false, decide_false,
    Bool.false_or, Bool.and_eq_true, decide_eq_true_eq, not_false_eq_true] using hcond

end

theorem mirrors_step (hwf : s.Wf) (hs : s.Sound t)
    (hI : 0 ≤ s.cc.inflow.toInt ∧ s.Mirrors) (hdel : e.Delivered) (hcond : s.accounted e = true)
    (hstep : s.Stepped e s') : 0 ≤ s'.cc.inflow.toInt ∧ s'.Mirrors := by
  obtain ⟨hnonneg, hmirrors⟩ := hI
  have hopen (h : s'.cc.loop ≠ .stopped) : s.cc.loop ≠ .stopped := fun hstopped =>
    h (hstep.stopped hwf hstopped)
  have hsame {cc₁ : ClientConn} (hinflow : cc₁.inflow = s.cc.inflow)
      (hupdates :
        cc₁.out.filter WriteCall.isWindowUpdate = s.cc.out.filter WriteCall.isWindowUpdate)
      (hrecv : SameRecv cc₁ s'.cc) (hreceived : s'.hist.received = s.hist.received) :
      0 ≤ s'.cc.inflow.toInt ∧ s'.Mirrors := by
    unfold Mirrors
    rw [hrecv.inflow, hinflow, connIncrements_congr (hrecv.updates.trans hupdates), hreceived]
    exact ⟨hnonneg, fun h => hmirrors (hopen h)⟩
  cases hstep.moved hwf with
  | same hrecv _ hreceived => exact hsame rfl rfl hrecv hreceived
  | created hcreated hrecv _ hreceived =>
    exact hsame hcreated.inflow hcreated.updates hrecv hreceived
  | delivered _ hdelivered hrecv _ hreceived =>
    exact hsame hdelivered.inflow hdelivered.updates hrecv hreceived
  | @uncharged outside h data _ hloop hrecv _ hcause hreceived =>
    rcases hcause with hstopped | hzero | ⟨cs, hlookup, hcause⟩
    · exact ⟨hrecv.inflow ▸ hnonneg, fun hne => absurd hstopped hne⟩
    · rw [hzero] at hreceived
      exact hsame rfl rfl hrecv hreceived
    · by_cases hzero : h.length = 0
      · rw [hzero] at hreceived
        exact hsame rfl rfl hrecv hreceived
      · exact absurd hcause (not_uncharged hcond hloop hzero hlookup)
  | @unknown outside h data _ hloop hlookup hasked hlength hrecv _ hreceived =>
    have hne : h.length ≠ 0 := fun heq => by
      rw [heq] at hlength
      exact absurd hlength (by decide)
    exact absurd (not_unknown hcond hloop hne hlookup) hasked
  | @charged outside h data cs i n _ hfits hi hn hid hrecv _ _ hreceived =>
    obtain ⟨hid₀, hlt, hdata⟩ := hdel
    have hrefund := refundOf_le hdata (s.cc.stream cs).didReset
    have hincr := connIncrements_refill s.cc cs i n (refundCalls
      (s.cc.stream cs).id (refundOf h data (s.cc.stream cs).didReset)
      (s.cc.stream cs).didReset)
    rw [connIncrement_refundCalls (hid ▸ hid₀) (by omega)] at hincr
    have hinflow : s'.cc.inflow = i := hrecv.inflow
    unfold Mirrors at hmirrors ⊢
    rw [hinflow, hi, connIncrements_congr hrecv.updates, hincr, hreceived]
    refine ⟨by omega, fun h => ?_⟩
    have hbefore := hmirrors (hopen h)
    omega
  | @credited _ cs err _ htask hcredit _ hreceived =>
    have hlt := hs.connFlow_lt
    obtain ⟨i, conn, stream, hok, hi, hconn, hstream⟩ :=
      creditRead_ok hlt hs.streamFlow_lt (by omega) (hs.inflow cs) err
    have hs' : s'.cc = s.cc.refill cs i _ _ := Except.ok.inj (hcredit.symm.trans hok)
    have hid : (s.cc.stream cs).id ≠ 0 :=
      (hwf.bodies cs (hwf.credit cs err (mem_of_getElem? htask))).2
    have hle := s.cc.inflow_le_refilled
    have hgive := s.cc.giveBack_nonneg (s.cc.lacks cs)
    have hconnCalls := connIncrement_addCalls 0 conn (by omega)
    have hstreamCalls := connIncrement_addCalls (s.cc.stream cs).id stream (by
      rw [hstream]
      split <;> omega)
    rw [if_pos rfl] at hconnCalls
    rw [if_neg hid] at hstreamCalls
    unfold Mirrors at hmirrors ⊢
    rw [hreceived, hs', connIncrements_refill, map_append, sum_append]
    refine ⟨?_, fun h => ?_⟩
    · show 0 ≤ i.toInt
      omega
    · have hbefore := hmirrors h
      show i.toInt = _
      omega
  | @closed _ cs unread _ _ htask hpos hrecv _ hreceived =>
    have hfits : s.cc.inflow.toInt + unread < 2 ^ 31 := by
      simpa [accounted, htask] using hcond
    have hint : (Int32.ofNat unread).toInt = unread := Int32.toInt_ofNat_of_lt (by omega)
    have hnat : (UInt32.ofNat unread).toNat = unread := by
      refine UInt32.toNat_ofNat_of_lt' ?_
      show unread < 2 ^ 32
      omega
    rw [send_windowUpdate _ _ (by omega) (by omega),
      Flow.add_of_fits (by omega)] at hrecv
    have hinflow : s'.cc.inflow.toInt = s.cc.inflow.toInt + unread := by
      rw [hrecv.inflow, ← hint]
      exact Flow.toInt_add (by omega)
    have hincr : s'.cc.connIncrements = s.cc.connIncrements + unread := by
      rw [connIncrements_congr hrecv.updates]
      simp [connIncrements, WriteCall.connIncrement, hnat]
    refine ⟨by omega, fun h => ?_⟩
    have hbefore := hmirrors (hopen h)
    omega

/-- The window of the connection is 65535 and what the frames written have given to it, less
what the `DATA` frames received have taken. -/
theorem inflow_mirrors {singleUse : Bool} {s₀ : Client} (hnew : t.newClient singleUse = .ok s₀)
    (hconnFlow : t.connFlow.toNat + 65535 < 2 ^ 31) {events : List ClientEvent}
    (hdel : ∀ e ∈ events, e.Delivered)
    (haccounted : Lib.Run.Always step (fun s e => s.accounted e = true) s₀ events)
    (hrun : s₀.run events = .ok s) (hopen : s.cc.loop ≠ .stopped) :
    s.cc.inflow.toInt = 65535 + (s.cc.connIncrements : Int) - (s.hist.received : Int) ∧
      s.cc.inflow.toInt ≤ 2 ^ 31 - 1 := by
  have hfresh (h : s₀.Fresh t) : 0 ≤ s₀.cc.inflow.toInt ∧ s₀.Mirrors := by
    have hflow := Flow.toInt_toInt32 h.connFlow_lt
    have hwindow : (65535 : Int32).toInt = 65535 := rfl
    have hsum : (t.connFlow.toInt32 + 65535).toInt = t.connFlow.toNat + 65535 := by
      rw [Flow.toInt_add (by omega), hflow, hwindow]
    have hzero : (0 : Int32).toInt = 0 := rfl
    have hinflow : s₀.cc.inflow.toInt = t.connFlow.toNat + 65535 := by
      rw [h.inflow, Flow.add_of_fits (by omega), Flow.toInt_add (by omega)]
      omega
    have hincr : s₀.cc.connIncrements = t.connFlow.toNat := by
      unfold connIncrements
      rw [← sum_connIncrement_filter, h.updates]
      rfl
    refine ⟨by omega, fun _ => ?_⟩
    rw [hinflow, hincr, h.hist]
    show _ = 65535 + (t.connFlow.toNat : Int) - 0
    omega
  obtain ⟨-, -, -, hmirrors⟩ := invariant_of_run hnew hfresh mirrors_step hdel haccounted hrun
  have hlt := s.cc.inflow.toInt_lt
  exact ⟨hmirrors hopen, by omega⟩

/-- A response is read in part. -/
def readEvents : List ClientEvent :=
  [.roundTrip getRequest 0 false, .headers 1 4 "200", .result 0, .data 1 [1, 2, 3], .resume,
    .read 0 2, .step 0]

theorem inflow_mirrors_read :
    ∃ s₀ s : Client, Transport.newClient {} false = .ok s₀ ∧ s₀.run readEvents = .ok s ∧
      s.hist.received = 3 ∧
      s.cc.inflow.toInt = 65535 + (s.cc.connIncrements : Int) - (s.hist.received : Int) ∧
      s.cc.inflow.toInt ≤ 2 ^ 31 - 1 := by
  obtain ⟨s₀, s, hnew, hrun, haccounted, hopen, hreceived⟩ :
      ∃ s₀ s : Client, newClient {} false = .ok s₀ ∧ s₀.run readEvents = .ok s ∧
        Lib.Run.Always step (fun s e => s.accounted e = true) s₀ readEvents ∧
        s.cc.loop ≠ .stopped ∧ s.hist.received = 3 :=
    exists_of_checkRun (by decide +kernel)
  exact ⟨s₀, s, hnew, hrun, hreceived,
    inflow_mirrors hnew (by decide) (by decide) haccounted hrun hopen⟩

/-- A `DATA` frame after the end of the stream is given back and was never taken. -/
theorem inflow_ahead :
    ∃ s₀ s : Client, Transport.newClient {} false = .ok s₀ ∧
      s₀.run [.roundTrip getRequest 0 false, .headers 1 5 "200", .data 1 [0]] = .ok s ∧
      s.cc.loop = .running ∧
      s.cc.inflow.toInt = 65535 + (s.cc.connIncrements : Int) - (s.hist.received : Int) + 1 :=
  exists_of_checkRun (by decide +kernel)

/-! ## The window of a stream -/

/-- `Read` sees all of the window of its stream: the connection has as much, and the read
loop has nothing in hand for the stream. -/
def seesWindow (s : Client) : ClientEvent → Bool
  | .step i =>
    match s.tasks[i]? with
    | some (.credit cs none) => (s.cc.stream cs).inflow.toInt ≤ s.cc.refilled && s.inHand cs = 0
    | _ => true
  | _ => true

/-- What the peer may still send on a stream, and what is on the way to the reader, is not
more than the configured window. -/
def Within (s : Client) : Prop :=
  ∀ cs, (s.cc.stream cs).inflow.toInt + (s.cc.stream cs).bufPipe.len + s.inHand cs ≤
    s.cc.streamFlow.toNat

variable {cs : StreamRef} {err : Option ClientError} {i : Nat}

/-- The flow control of a `Read` that did not panic. -/
theorem credited_spec (hs : s.Sound t) {cc' : ClientConn} (h : s.cc.creditRead cs err = .ok cc') :
    ∃ i stream : Int32, ∃ calls,
      cc' = s.cc.refill cs i (Flow.add (s.cc.stream cs).inflow stream).1 calls ∧
      stream.toInt = if err.isNone then s.cc.giveBack (s.cc.lacks cs) else 0 := by
  by_cases hfits : s.cc.connFlow.toNat - s.cc.inflow.toInt < 2 ^ 31
  · obtain ⟨i, conn, stream, hok, -, -, hstream⟩ :=
      creditRead_ok hs.connFlow_lt hs.streamFlow_lt hfits (hs.inflow cs) err
    exact ⟨i, stream, _, Except.ok.inj (h.symm.trans hok), hstream⟩
  · cases h.symm.trans (creditRead_panics hs.connFlow_lt (Int.not_lt.mp hfits) err)

theorem within_credited (hs : s.Sound t) (hI : s.Within)
    (htask : s.tasks[i]? = some (.credit cs err)) (hcond : s.seesWindow (.step i) = true)
    (hcredit : s.cc.creditRead cs err = .ok s'.cc) (hhand : ∀ cs, s'.inHand cs ≤ s.inHand cs) :
    s'.Within := by
  obtain ⟨i', stream, calls, hs', hstream⟩ := credited_spec hs hcredit
  intro cs'
  have hbefore := hI cs'
  have hhand' := hhand cs'
  have hflow : s'.cc.streamFlow = s.cc.streamFlow := by
    rw [hs']
    rfl
  rw [hflow, hs', bufPipe_refill]
  by_cases heq : cs' = cs
  · subst heq
    rw [stream_refill_self]
    show (Flow.add (s.cc.stream cs').inflow stream).1.toInt +
      ((s.cc.stream cs').bufPipe.len : Int) + s'.inHand cs' ≤ _
    have hnonneg := s.cc.giveBack_nonneg (s.cc.lacks cs')
    have hadd := Flow.add_le (s.cc.stream cs').inflow (k := stream) (by
      rw [hstream]
      split <;> omega)
    cases err with
    | some e =>
      rw [Option.isNone_some, if_neg Bool.false_ne_true] at hstream
      omega
    | none =>
      have hsees : (s.cc.stream cs').inflow.toInt ≤ s.cc.refilled ∧ s.inHand cs' = 0 := by
        simpa [seesWindow, htask] using hcond
      have hlacks : s.cc.lacks cs' = s.cc.streamFlow.toNat - (s.cc.stream cs').inflow.toInt -
          (s.cc.stream cs').bufPipe.len := by
        unfold lacks
        rw [Int.min_eq_left hsees.1]
      have hle := s.cc.giveBack_le (Int.le_refl (s.cc.lacks cs')) (by omega)
      omega
  · rw [stream_refill_of_ne _ heq]
    omega

theorem within_step (hwf : s.Wf) (hs : s.Sound t) (hI : s.Within) (hdel : e.Delivered)
    (hcond : s.seesWindow e = true) (hstep : s.Stepped e s') : s'.Within := by
  have hflow := (hstep.grows hwf).streamFlow
  have hsame {cc₁ : ClientConn} (hrecv : SameRecv cc₁ s'.cc) {cs : StreamRef}
      (hpipe : (cc₁.stream cs).bufPipe.Wf)
      (hle : (cc₁.stream cs).inflow.toInt + (cc₁.stream cs).bufPipe.len + s'.inHand cs ≤
        s.cc.streamFlow.toNat) :
      (s'.cc.stream cs).inflow.toInt + (s'.cc.stream cs).bufPipe.len + s'.inHand cs ≤
        s'.cc.streamFlow.toNat := by
    have hlen := (hrecv.pipe cs hpipe).2
    rw [hrecv.streamInflow, hflow]
    omega
  have hkept {cc₁ : ClientConn} (hrecv : SameRecv cc₁ s'.cc) (hstream : cc₁.stream = s.cc.stream)
      (hhand : ∀ cs, s'.inHand cs ≤ s.inHand cs) : s'.Within := by
    intro cs
    have hbefore := hI cs
    have hhand' := hhand cs
    refine hsame hrecv (hstream ▸ hs.pipe cs) ?_
    rw [hstream]
    omega
  cases hstep.moved hwf with
  | same hrecv hhand => exact hkept hrecv rfl hhand
  | uncharged _ hrecv hhand => exact hkept hrecv rfl fun cs => by simp [hhand]
  | unknown _ _ _ _ hrecv hhand => exact hkept hrecv rfl fun cs => by simp [hhand]
  | closed _ _ hrecv hhand => exact hkept hrecv rfl hhand
  | @charged outside h data cs i n _ hfits hi hn hid hrecv hhand hother =>
    obtain ⟨-, -, hdata⟩ := hdel
    intro cs'
    have hbefore := hI cs'
    refine hsame hrecv ?_ ?_
    · rw [bufPipe_refill]
      exact hs.pipe cs'
    by_cases heq : cs' = cs
    · subst heq
      rw [stream_refill_self]
      show n.toInt + ((s.cc.stream cs').bufPipe.len : Int) + s'.inHand cs' ≤ _
      unfold refundOf at hn
      cases hreset : (s.cc.stream cs').didReset with
      | true =>
        rw [hreset, if_pos rfl] at hn hhand
        omega
      | false =>
        rw [hreset, if_neg Bool.false_ne_true] at hn hhand
        rw [if_neg Bool.false_ne_true] at hn
        omega
    · rw [stream_refill_of_ne _ heq]
      have hhand' := hother cs' heq
      omega
  | @delivered cs data cc₁ _ hinHand hdelivered hrecv hhand =>
    intro cs'
    have hbefore := hI cs'
    have hhand' := hhand cs'
    by_cases heq : cs' = cs
    · subst heq
      have hpipe := hdelivered.pipe (hs.pipe cs')
      refine hsame hrecv hpipe.1 ?_
      rw [hdelivered.streamInflow]
      omega
    · have hpipe := hdelivered.pipeOther cs' heq (hs.pipe cs')
      refine hsame hrecv hpipe.1 ?_
      rw [hdelivered.streamInflow]
      omega
  | @created _ id req cc₁ _ hcreated hrecv hhand =>
    intro cs
    have hbefore := hI cs
    have hhand' := hhand cs
    by_cases heq : cs = s.cc.nextRef
    · have hnone : s.inHand cs = 0 := by
        have hready := hwf.conn.ready
        unfold inHand
        split
        · rename_i cs' data streamEnded hloop
          rw [hloop] at hready
          have hlt : cs' < s.cc.nextRef := hready
          refine if_neg fun hcs' => ?_
          rw [hcs', heq] at hlt
          exact Nat.lt_irrefl _ hlt
        · rfl
      have hnew : cc₁.stream cs = s.cc.freshStream id req := heq ▸ hcreated.stream_new
      refine hsame hrecv ?_ ?_
      · rw [hnew]
        nofun
      · rw [hnew, toInt_inflow_fresh hs.streamFlow_lt]
        show (s.cc.streamFlow.toNat : Int) + ((0 : Nat) : Int) + _ ≤ _
        omega
    · have hold := hcreated.stream_old heq
      refine hsame hrecv (hold ▸ hs.pipe cs) ?_
      rw [hold]
      omega
  | credited htask hcredit hhand => exact within_credited hs hI htask hcond hcredit hhand

/-- The window of a stream and the unread bytes in its pipe are not more than the configured
window. -/
theorem stream_budget {singleUse : Bool} {s₀ : Client} (hnew : t.newClient singleUse = .ok s₀)
    {events : List ClientEvent} (hdel : ∀ e ∈ events, e.Delivered)
    (hsees : Lib.Run.Always step (fun s e => s.seesWindow e = true) s₀ events)
    (hrun : s₀.run events = .ok s) (cs : StreamRef) :
    (s.cc.stream cs).inflow.toInt + ((s.cc.stream cs).bufPipe.len : Int) ≤
      s.cc.streamFlow.toNat := by
  have hfresh (h : s₀.Fresh t) : s₀.Within := by
    intro cs
    rw [inHand_eq_zero (ne_delivering (.inl h.loop)), h.stream]
    exact Int.natCast_nonneg _
  obtain ⟨-, -, hwithin⟩ := invariant_of_run hnew hfresh within_step hdel hsees hrun
  have hcs := hwithin cs
  omega

theorem stream_budget_read :
    ∃ s₀ s : Client, Transport.newClient {} false = .ok s₀ ∧ s₀.run readEvents = .ok s ∧
      (s.cc.stream 0).bufPipe.len = 1 ∧
      (s.cc.stream 0).inflow.toInt + ((s.cc.stream 0).bufPipe.len : Int) ≤
        s.cc.streamFlow.toNat := by
  obtain ⟨s₀, s, hnew, hrun, hsees, hlen⟩ :
      ∃ s₀ s : Client, newClient {} false = .ok s₀ ∧ s₀.run readEvents = .ok s ∧
        Lib.Run.Always step (fun s e => s.seesWindow e = true) s₀ readEvents ∧
        (s.cc.stream 0).bufPipe.len = 1 :=
    exists_of_checkRun (by decide +kernel)
  exact ⟨s₀, s, hnew, hrun, hlen, stream_budget hnew (by decide) hsees hrun 0⟩

/-- The window of the connection is smaller than the one of a stream. -/
def narrowTransport : Transport where
  connectionFlow := 4
  settings := some fun id => if id = .initialWindowSize then some 100000 else none
  settingsOrder := [.initialWindowSize]

/-- One byte is read, and the stream gets back what the connection lacks. -/
theorem stream_over_budget :
    ∃ s₀ s : Client, narrowTransport.newClient false = .ok s₀ ∧
      s₀.run [.roundTrip getRequest 0 false, .headers 1 4 "200", .result 0, .data 1 [1], .resume,
        .read 0 1, .step 0] = .ok s ∧
      s.cc.streamFlow = 100000 ∧ (s.cc.stream 0).inflow.toInt = 134461 :=
  exists_of_checkRun (by decide +kernel)

/-! ## Refilling a stream -/

/-- A `Read` that returns bytes and no error leaves its flow control to do. -/
theorem step_read (hwf : s.Wf) {n : Nat} {r : BodyRead} {cc₁ : ClientConn} (hbody : cs ∈ s.bodies)
    (hfree : s.reading cs = false) (hread : s.cc.readBody cs n = .ok (some (r, cc₁)))
    (hnil : r.err = none) (hbytes : r.bytes ≠ []) :
    s.step (.read cs n) = .ok { s with cc := cc₁, tasks := s.tasks ++ [.credit cs none] } := by
  have hspec := kept_readBody hwf.conn (hwf.bodies cs hbody) n
  rw [hread] at hspec
  have htokens := (hspec r cc₁ rfl).2.1 hnil hbytes
  show s.read cs n = _
  unfold read
  rw [if_pos ⟨hbody, by simp [hfree]⟩, hread]
  show Except.ok { s with cc := cc₁, tasks := ite _ _ _ } = _
  rw [if_pos htokens, hnil]

/-- What `Read` gives back to a stream that has nothing left. -/
theorem giveBack_all (cc : ClientConn) :
    cc.giveBack cc.streamFlow.toNat =
      if cc.streamFlow.toNat > (if cc.initialWindowSize < 1048576 then 16384 else 4096) then
        (cc.streamFlow.toNat : Int)
      else 0 := by
  have hthreshold : aggressiveThreshold = 16384 := rfl
  have hrefresh : transportDefaultStreamMinRefresh = 4096 := rfl
  unfold giveBack
  by_cases hsmall : cc.initialWindowSize < 1048576
  · simp only [if_pos hsmall]
    exact if_congr (by omega) rfl rfl
  · simp only [if_neg hsmall]
    exact if_congr (by omega) rfl rfl

/-- The flow control of a `Read` whose stream has an empty pipe and nothing left. -/
theorem credit_used_up (hwf : s.Wf) (hs : s.Sound t) (htask : s.tasks[i]? = some (.credit cs none))
    (hinflow : (s.cc.stream cs).inflow = 0) (hpipe : (s.cc.stream cs).bufPipe.len = 0)
    (hconn : 0 < s.cc.inflow.toInt) :
    ∃ s' calls, s.step (.step i) = .ok s' ∧ s'.cc.out = s.cc.out ++ calls ∧
      ((∃ incr, 0 < incr ∧ WriteCall.windowUpdate (s.cc.stream cs).id incr ∈ calls) ↔
        s.cc.streamFlow.toNat > if s.cc.initialWindowSize < 1048576 then 16384 else 4096) := by
  have hlt := hs.connFlow_lt
  have hzero : (s.cc.stream cs).inflow.toInt = 0 := by
    rw [hinflow]
    rfl
  obtain ⟨i', conn, stream, hok, -, -, hstream⟩ :=
    creditRead_ok hlt hs.streamFlow_lt (by omega) (hs.inflow cs) none
  have hid : (s.cc.stream cs).id ≠ 0 :=
    (hwf.bodies cs (hwf.credit cs none (mem_of_getElem? htask))).2
  have hlacks : s.cc.lacks cs = s.cc.streamFlow.toNat := by
    have hle := s.cc.inflow_le_refilled
    unfold lacks
    omega
  rw [Option.isNone_none, if_pos rfl, hlacks, giveBack_all] at hstream
  have hstep : s.step (.step i) = .ok { s with
      cc := s.cc.refill cs i' (Flow.add (s.cc.stream cs).inflow stream).1
        (addCalls 0 conn ++ addCalls (s.cc.stream cs).id stream)
      tasks := s.tasks.eraseIdx i } := by
    show s.stepTask i = _
    unfold stepTask
    rw [htask]
    dsimp only
    rw [Task.step, hok]
    rfl
  refine ⟨_, _, hstep, rfl, ?_⟩
  have hmem (incr : UInt32) : WriteCall.windowUpdate (s.cc.stream cs).id incr ∈
      addCalls 0 conn ++ addCalls (s.cc.stream cs).id stream ↔
        stream ≠ 0 ∧ incr = stream.toUInt32 := by
    unfold addCalls
    by_cases hc : conn = 0 <;> by_cases hst : stream = 0 <;> simp [hc, hst, hid]
  constructor
  · rintro ⟨incr, -, hincr⟩
    have hne := ((hmem incr).mp hincr).1
    by_contra hsmall
    rw [if_neg hsmall] at hstream
    exact hne (Int32.toInt_inj.mp hstream)
  · intro hbig
    rw [if_pos hbig] at hstream
    have hpos : 0 < stream.toInt := by
      split at hbig <;> omega
    have hne : stream ≠ 0 := by
      rintro rfl
      exact absurd hpos (by decide)
    refine ⟨stream.toUInt32, ?_, (hmem _).mpr ⟨hne, rfl⟩⟩
    have hnat := Flow.toNat_toUInt32 (Int.le_of_lt hpos)
    refine UInt32.lt_iff_toNat_lt.mpr ?_
    show 0 < _
    omega

/-- A run, an event and another run. -/
theorem run_append_cons {events events' : List ClientEvent} {s₀ s₁ s₂ : Client}
    (hrun : s₀.run events = .ok s) (hstep : s.step e = .ok s₁) (hrun' : s₁.run events' = .ok s₂) :
    s₀.run (events ++ e :: events') = .ok s₂ := by
  unfold run at hrun hrun' ⊢
  rw [foldlM_append, hrun]
  show foldlM step s (e :: events') = _
  rw [foldlM_cons, hstep]
  exact hrun'

/-- A `Read` returns bytes and no error.  When its flow control finds that the window of the
stream is used up, the pipe is empty and the connection has something left, it writes a
`WINDOW_UPDATE` for the stream if and only if the configured window is above a threshold. -/
theorem read_updates_iff {singleUse : Bool} {s₀ : Client} (hnew : t.newClient singleUse = .ok s₀)
    {events : List ClientEvent} (hdel : ∀ e ∈ events, e.Delivered) (hrun : s₀.run events = .ok s)
    {cs : StreamRef} {n : Nat} {r : ClientConn.BodyRead} {cc₁ : ClientConn} (hbody : cs ∈ s.bodies)
    (hfree : s.reading cs = false) (hread : s.cc.readBody cs n = .ok (some (r, cc₁)))
    (hnil : r.err = none) (hbytes : r.bytes ≠ []) :
    ∃ s₁, s.step (.read cs n) = .ok s₁ ∧ s₁.cc = cc₁ ∧
      s₁.tasks = s.tasks ++ [.credit cs none] ∧
      ∀ events' s₂ i, (∀ e ∈ events', e.Delivered) → s₁.run events' = .ok s₂ →
        s₂.tasks[i]? = some (.credit cs none) → (s₂.cc.stream cs).inflow = 0 →
        (s₂.cc.stream cs).bufPipe.len = 0 → 0 < s₂.cc.inflow.toInt →
        ∃ s₃ calls, s₂.step (.step i) = .ok s₃ ∧ s₃.cc.out = s₂.cc.out ++ calls ∧
          ((∃ incr, 0 < incr ∧ WriteCall.windowUpdate (s₂.cc.stream cs).id incr ∈ calls) ↔
            t.streamFlow.toNat >
              if s₂.cc.initialWindowSize < 1048576 then 16384 else 4096) := by
  obtain ⟨hwf, -⟩ := sound_of_run hnew hdel hrun
  have hstep := step_read hwf hbody hfree hread hnil hbytes
  refine ⟨_, hstep, rfl, rfl, fun events' s₂ i hdel' hrun' htask hinflow hpipe hconn => ?_⟩
  have hall : s₀.run (events ++ .read cs n :: events') = .ok s₂ :=
    run_append_cons hrun hstep hrun'
  have hdelAll : ∀ e ∈ events ++ .read cs n :: events', e.Delivered :=
    forall_mem_append.mpr ⟨hdel, forall_mem_cons.mpr ⟨trivial, hdel'⟩⟩
  obtain ⟨hwf₂, hs₂⟩ := sound_of_run hnew hdelAll hall
  have hcredit := credit_used_up hwf₂ hs₂ htask hinflow hpipe hconn
  rw [hs₂.streamFlow] at hcredit
  exact hcredit

/-- A transport whose streams have a window of `w` bytes. -/
def windowTransport (w : UInt32) : Transport where
  settings := some fun id => if id = .initialWindowSize then some w else none
  settingsOrder := [.initialWindowSize]

/-- A response whose body takes the window of its stream, from a peer with a window of `2 ^ 20`
bytes. -/
def fillEvents (data : Bytes) : List ClientEvent :=
  [.receive {} (.ok (.settings { type := .settings, flags := 0, length := 6, streamID := 0 }
      [0, 4, 0, 16, 0, 0])),
    .roundTrip getRequest 0 false, .headers 1 4 "200", .result 0, .data 1 data, .resume]

theorem read_updates_iff_fill :
    ∃ s₀ s₁ s₂ : Client, ∃ calls, (windowTransport 4097).newClient false = .ok s₀ ∧
      s₀.run (fillEvents (List.replicate 4097 0) ++ [.read 0 4097]) = .ok s₁ ∧
      s₁.step (.step 0) = .ok s₂ ∧ s₂.cc.out = s₁.cc.out ++ calls ∧
      ∃ incr, 0 < incr ∧ WriteCall.windowUpdate (s₁.cc.stream 0).id incr ∈ calls := by
  obtain ⟨s₀, s, hnew, hrun, hbody, hfree, htasks, hcheck⟩ :
      ∃ s₀ s : Client, (windowTransport 4097).newClient false = .ok s₀ ∧
        s₀.run (fillEvents (replicate 4097 0)) = .ok s ∧
        0 ∈ s.bodies ∧ s.reading 0 = false ∧ s.tasks = [] ∧
        ((s.cc.readBody 0 4097).toOption.any fun res => res.any fun r =>
          decide (r.1.err = none ∧ r.1.bytes ≠ [] ∧ (r.2.stream 0).inflow = 0 ∧
            (r.2.stream 0).bufPipe.len = 0 ∧ 0 < r.2.inflow.toInt ∧
            r.2.initialWindowSize = 1048576)) = true :=
    exists_of_checkRun (by decide +kernel)
  have hdel : ∀ e ∈ fillEvents (replicate 4097 0), e.Delivered := by
    decide +kernel
  obtain ⟨res, hread, hres⟩ := exists_of_any hcheck
  obtain ⟨⟨r, cc₁⟩, rfl, hr⟩ := (Option.any_eq_true _ _).mp hres
  obtain ⟨hnil, hbytes, hinflow, hpipe, hconn, hsize⟩ := of_decide_eq_true hr
  obtain ⟨s₁, hstep, rfl, hs₁, hall⟩ :=
    read_updates_iff hnew hdel hrun hbody hfree hread hnil hbytes
  have htask : s₁.tasks[0]? = some (.credit 0 none) := by
    rw [hs₁, htasks]
    rfl
  have hrun₁ : s₁.run [] = .ok s₁ := rfl
  obtain ⟨s₂, calls, hstep₂, hout, hiff⟩ := hall [] s₁ 0
    (fun _ he => absurd he not_mem_nil) hrun₁ htask hinflow hpipe hconn
  refine ⟨s₀, s₁, s₂, calls, hnew, run_append_cons hrun hstep rfl, hstep₂, hout, hiff.mpr ?_⟩
  rw [hsize]
  decide

/-- A window of four bytes is used up, and `Read` gives nothing back. -/
theorem read_stalls :
    ∃ s₀ s s' : Client, (windowTransport 4).newClient false = .ok s₀ ∧
      s₀.run (fillEvents [1, 2, 3, 4] ++ [.read 0 4]) = .ok s ∧ s.tasks = [.credit 0 none] ∧
      (s.cc.stream 0).inflow = 0 ∧ (s.cc.stream 0).bufPipe.len = 0 ∧ 0 < s.cc.inflow.toInt ∧
      s.step (.step 0) = .ok s' ∧ s'.cc.out.length = s.cc.out.length ∧
      (s'.cc.stream 0).inflow = 0 := by
  obtain ⟨s₀, s, hnew, hrun, htasks, hinflow, hpipe, hconn, hcheck⟩ :
      ∃ s₀ s : Client, (windowTransport 4).newClient false = .ok s₀ ∧
        s₀.run (fillEvents [1, 2, 3, 4] ++ [.read 0 4]) = .ok s ∧ s.tasks = [.credit 0 none] ∧
        (s.cc.stream 0).inflow = 0 ∧ (s.cc.stream 0).bufPipe.len = 0 ∧ 0 < s.cc.inflow.toInt ∧
        ((s.step (.step 0)).toOption.any fun s' =>
          decide (s'.cc.out.length = s.cc.out.length ∧ (s'.cc.stream 0).inflow = 0)) = true :=
    exists_of_checkRun (by decide +kernel)
  obtain ⟨s', hstep, hs'⟩ := exists_of_any hcheck
  exact ⟨s₀, s, s', hnew, hrun, htasks, hinflow, hpipe, hconn, hstep, of_decide_eq_true hs'⟩

end Client

end Fhttp.Http2
