import Fhttp.Http2.ReceiveWindow

/-!
# The streams of a client connection

Streams are put into the map when a request starts or the peer promises a push, and they
leave it when they end, when they are forgotten or when the connection is closed.

* A stream that is not in the map, or whose connection is closed, is done, and its channel
  is closed only once (`done_of_left`).  `closeForError` empties the map and closes no
  channel, and a stream with the number of another one takes its place in the map.
* A request is let through when there is a slot for it (`admits_iff_slot`).  The two tests
  of the source do not agree, and both count pushed streams.
-/

namespace Fhttp.Http2

open Hpack (Bytes)
open List

namespace ClientConn

variable {cc cc' : ClientConn}

/-! ## Streams that leave the map -/

theorem DataHandled.ends {h : FrameHeader} {data : Bytes} {r : Handled × ClientConn}
    (hr : DataHandled cc h data r) : Leaves cc r.2 := by
  cases hr with
  | unknown =>
    unfold unknownData
    dsimp only
    split
    · exact .refl cc
    split
    · exact { Leaves.refl cc with }
    · exact .refl cc
  | uncharged _ _ hkept => exact hkept.ends
  | exceeded _ hkept => exact hkept.ends
  | charged _ hkept _ _ _ _ hrest =>
    refine (hkept.ends.trans (ends_refill ..) ?_).trans hrest.ends hrest.same.streams
    exact (same_refill ..).streams

/-- A frame ends streams, or it promises one. -/
theorem FrameHandled.ends {outside : Outside} {f : Frame} (h : Wf cc)
    (hf : FrameHandled cc outside f cc') :
    (cc'.nextRef = cc.nextRef ∧ Leaves cc cc') ∨
      ∃ hdr promiseID fields truncated req cc₁,
        f = .metaPushPromise hdr promiseID fields truncated ∧
        cc.closed = false ∧ Created cc cc₁ promiseID req ∧ Quiet cc₁ cc' := by
  cases hf with
  | data hdata hquiet =>
    exact .inl ⟨hquiet.same.nextRef.trans hdata.same.nextRef,
      hdata.ends.trans hquiet.ends hquiet.same.streams⟩
  | @settings hdr p _ hquiet =>
    have hkept := keptRecv_processSettings h hdr p
    exact .inl ⟨hquiet.same.nextRef.trans hkept.same.nextRef,
      hkept.ends.trans hquiet.ends hquiet.same.streams⟩
  | @windowUpdate hdr increment _ hquiet =>
    have hkept := keptRecv_processWindowUpdate h hdr increment
    exact .inl ⟨hquiet.same.nextRef.trans hkept.same.nextRef,
      hkept.ends.trans hquiet.ends hquiet.same.streams⟩
  | pushed hclosed hcreated hquiet =>
    exact .inr ⟨_, _, _, _, _, _, rfl, hclosed, hcreated, hquiet⟩
  | quiet _ hquiet => exact .inl ⟨hquiet.same.nextRef, hquiet.ends⟩

theorem Resumed.ends (hr : Resumed cc cc') : Leaves cc cc' := by
  cases hr with
  | idle heq => exact heq ▸ .refl cc
  | sent _ hquiet => exact hquiet.ends
  | delivered _ hdelivered hquiet => exact hdelivered.ends.trans hquiet.ends hquiet.same.streams

/-- Every stream that is not in the map is done, and all are when the read loop has stopped. -/
def AllDone (cc : ClientConn) : Prop :=
  ∀ cs < cc.nextRef, cs ∉ cc.streams ∨ cc.loop = .stopped → (cc.stream cs).done

theorem AllDone.of_ends (h : cc.AllDone) (hnextRef : cc'.nextRef = cc.nextRef)
    (hends : Leaves cc cc') :
    cc'.AllDone := by
  intro cs hcs hcase
  rw [hnextRef] at hcs
  have hleft (hnot : cs ∉ cc'.streams) : (cc'.stream cs).done := by
    by_cases hmem : cs ∈ cc.streams
    · exact hends.left cs hmem hnot
    · exact hends.done cs (h cs hcs (.inl hmem))
  rcases hcase with hnot | hstopped
  · exact hleft hnot
  · rcases hends.stopped hstopped with hbefore | hall
    · exact hends.done cs (h cs hcs (.inr hbefore))
    · by_cases hmem : cs ∈ cc'.streams
      · exact hall cs hmem
      · exact hleft hmem

theorem AllDone.of_still (h : cc.AllDone) (hstill : Still cc cc') : cc'.AllDone :=
  h.of_ends hstill.same.nextRef hstill.ends

/-- A stream with a number of its own is created. -/
theorem AllDone.created {id : UInt32} {req : Option Request} (h : cc.AllDone) (hwf : Wf cc)
    (hcreated : Created cc cc' id req) (hclosed : cc.closed = false) (hnew : cc.lookup id = none) :
    cc'.AllDone := by
  intro cs hcs hcase
  have hloop : cc'.loop ≠ .stopped := fun hl => by
    have := hwf.closed (hcreated.loop ▸ hl)
    rw [hclosed] at this
    cases this
  have hnot := hcase.resolve_right hloop
  have hne : cs ≠ cc.nextRef := fun heq => hnot (hcreated.mem_streams.mpr (.inr heq))
  rw [hcreated.nextRef] at hcs
  have hlt : cs < cc.nextRef := Nat.lt_of_le_of_ne (Nat.le_of_lt_succ hcs) hne
  rw [hcreated.stream_old hne]
  refine h cs hlt (.inl fun hmem => hnot (hcreated.mem_streams.mpr (.inl ⟨hmem, fun hid => ?_⟩)))
  have hfind := find?_eq_none.mp hnew cs hmem
  exact hfind (beq_iff_eq.mpr hid)

end ClientConn

namespace Client

variable {t : Transport} {s s' : Client} {e : ClientEvent}

/-- No open stream is dropped: `closeForError` finds only streams that are done, and a new
stream has a number that no stream in the map has. -/
def keepsDone (s : Client) : ClientEvent → Bool
  | .closeForError _ => s.cc.streams.all fun cs => (s.cc.stream cs).done
  | .roundTrip .. => (s.cc.lookup s.cc.nextStreamID).isNone
  | .receive _ (.ok (.metaPushPromise _ promiseID _ _)) => (s.cc.lookup promiseID).isNone
  | _ => true

theorem allDone_step (hwf : s.Wf) (h : s.cc.AllDone) (hcond : s.keepsDone e = true)
    (hstep : s.Stepped e s') : s'.cc.AllDone := by
  cases hstep with
  | received hr =>
    cases hr with
    | busy _ heq => exact heq ▸ h
    | error _ _ hquiet => exact h.of_ends hquiet.same.nextRef hquiet.ends
    | frame _ hres hframe =>
      rcases hframe.ends hwf.conn with ⟨hnextRef, hends⟩ |
        ⟨hdr, promiseID, fields, truncated, req, cc₁, hf, hclosed, hcreated, hquiet⟩
      · exact h.of_ends hnextRef hends
      · rw [hres, hf] at hcond
        have hnew := Option.isNone_iff_eq_none.mp hcond
        exact (h.created hwf.conn hcreated hclosed hnew).of_ends hquiet.same.nextRef hquiet.ends
  | resumed hr => exact h.of_ends hr.same.nextRef hr.ends
  | created hclosed hcreated hkept =>
    have hnew := Option.isNone_iff_eq_none.mp hcond
    exact (h.created hwf.conn hcreated hclosed hnew).of_ends hkept.same.nextRef hkept.ends
  | awaited => exact h.of_still (s.cc.still_take ..)
  | credited _ hcredit => exact h.of_still (ClientConn.still_creditRead hcredit)
  | closeReset => exact h.of_still (ClientConn.still_closeReset hwf.conn ..)
  | wrote => exact h.of_ends rfl { Leaves.refl s.cc with }
  | closedForError =>
    intro cs hcs _
    refine (s.cc.stream_closeForError _ cs).ended ?_
    by_cases hmem : cs ∈ s.cc.streams
    · exact all_eq_true.mp hcond cs hmem
    · exact h cs hcs (.inl hmem)
  | quiet hquiet => exact h.of_ends hquiet.same.nextRef hquiet.ends

/-- A channel that is closed is not closed again. -/
theorem step_ne_closed_twice (hwf : s.Wf) (hdel : e.Delivered) :
    s.step e ≠ .error (.panic "close of closed channel") := by
  intro hstep
  have hspec := step_spec hwf hdel
  rw [hstep] at hspec
  cases e with
  | awaitFlow cs remain endStream => exact absurd hspec.1 (by decide)
  | roundTrip r pendingRequests tooIdle => cases hspec
  | step i =>
    obtain ⟨cs, err, -, hcredit⟩ := hspec
    exact absurd (ClientConn.creditRead_error hcredit) (by decide)
  | _ => exact hspec

/-- A stream that has left the map, or whose connection has been closed, is done, and no
event closes its channel again. -/
theorem done_of_left {singleUse : Bool} {s₀ : Client} (hnew : t.newClient singleUse = .ok s₀)
    {events : List ClientEvent} (hdel : ∀ e ∈ events, e.Delivered)
    (hkeeps : Lib.Run.Always step (fun s e => s.keepsDone e = true) s₀ events)
    (hrun : s₀.run events = .ok s) :
    (∀ cs < s.cc.nextRef, cs ∉ s.cc.streams ∨ s.cc.closed = true → (s.cc.stream cs).done = true) ∧
      ∀ e : ClientEvent, e.Delivered → s.step e ≠ .error (.panic "close of closed channel") := by
  obtain ⟨hwf, -, hdone⟩ := invariant_of_run (I := fun s => s.cc.AllDone) hnew
    (fun hfresh cs hcs => absurd (hfresh.nextRef ▸ hcs) (Nat.not_lt_zero cs))
    (fun hwf _ h _ hcond hstep => allDone_step hwf h hcond hstep) hdel hkeeps hrun
  refine ⟨fun cs hcs hcase => hdone cs hcs ?_, fun e hdel => step_ne_closed_twice hwf hdel⟩
  rcases hcase with hnot | hclosed
  · exact Or.inl hnot
  · rcases hwf.conn.empty hclosed with hstopped | hnil
    · exact Or.inr hstopped
    · exact Or.inl (hnil ▸ not_mem_nil)

/-- A stream ends, another one is open, and the read loop stops. -/
def endEvents : List ClientEvent :=
  [.roundTrip getRequest 0 false, .roundTrip getRequest 0 false, .headers 1 5 "200",
    .receive {} (.error (.connectionError .protocol))]

theorem done_of_left_ended :
    ∃ s₀ s : Client, Transport.newClient {} false = .ok s₀ ∧ s₀.run endEvents = .ok s ∧
      s.cc.streams = [1] ∧ (s.cc.stream 0).done = true ∧ (s.cc.stream 1).done = true := by
  obtain ⟨s₀, s, hnew, hrun, hkeeps, hstreams, hnextRef, hclosed⟩ :
      ∃ s₀ s : Client, Transport.newClient {} false = .ok s₀ ∧ s₀.run endEvents = .ok s ∧
        Lib.Run.Always step (fun s e => s.keepsDone e = true) s₀ endEvents ∧
        s.cc.streams = [1] ∧ s.cc.nextRef = 2 ∧ s.cc.closed = true :=
    Transport.exists_of_checkRun (by decide +kernel)
  obtain ⟨hdone, -⟩ := done_of_left hnew (by decide) hkeeps hrun
  rw [hnextRef] at hdone
  exact ⟨s₀, s, hnew, hrun, hstreams, hdone 0 (by decide) (Or.inr hclosed),
    hdone 1 (by decide) (Or.inr hclosed)⟩

/-- `Close` takes an open stream out of the map and does not close its channel. -/
theorem left_not_done :
    ∃ s₀ s : Client, Transport.newClient {} false = .ok s₀ ∧
      s₀.run [.roundTrip getRequest 0 false, .closeForError .errClientConnClosed] = .ok s ∧
      0 < s.cc.nextRef ∧ 0 ∉ s.cc.streams ∧ s.cc.closed = true ∧ (s.cc.stream 0).done = false :=
  Transport.exists_of_checkRun (by decide +kernel)

end Client

/-! ## Slots for requests -/

/-- The connection could take a request if there was a slot for it. -/
def ClientConn.Healthy (cc : ClientConn) (pendingRequests : Nat) (tooIdle : Bool) : Prop :=
  cc.goAway = none ∧ cc.closed = false ∧ cc.closing = false ∧
    cc.nextStreamID.toNat + 2 * pendingRequests < 0x7fffffff ∧ tooIdle = false

instance ClientConn.decidableHealthy (cc : ClientConn) (pendingRequests : Nat) (tooIdle : Bool) :
    Decidable (cc.Healthy pendingRequests tooIdle) :=
  inferInstanceAs (Decidable (_ ∧ _ ∧ _ ∧ _ ∧ _))

theorem ClientConn.admits_iff {cc : ClientConn} {pendingRequests : Nat} {tooIdle : Bool}
    (h : cc.Healthy pendingRequests tooIdle) :
    cc.admits pendingRequests tooIdle = true ↔
      ¬ (cc.singleUse = true ∧ cc.nextStreamID > 1) ∧
      cc.streams.length + (if cc.t.strictMaxConcurrentStreams then 1 else 2) ≤
        cc.maxConcurrentStreams.toNat := by
  obtain ⟨hgoAway, hclosed, hclosing, hids, hidle⟩ := h
  unfold admits canTakeNewRequest
  by_cases hsingle : cc.singleUse = true ∧ cc.nextStreamID > 1
  · simp [hsingle.1, hsingle.2]
  have hfirst : (cc.singleUse && decide (cc.nextStreamID > 1)) = false := by
    rw [Bool.and_eq_false_iff, decide_eq_false_iff_not, Bool.eq_false_iff]
    exact not_and_or.mp hsingle
  rw [hfirst, hgoAway, hclosed, hclosing, hidle, and_iff_right hsingle]
  cases cc.t.strictMaxConcurrentStreams with
  | true => simp [hids]
  | false =>
    simp [hids]
    omega

/-- The map after a request has started. -/
theorem ClientConn.streams_startRequest {cc cc' : ClientConn} {r : EncodedRequest} {cs : StreamRef}
    (h : cc.startRequest r = .ok (cs, cc')) :
    cs = cc.nextRef ∧ cc'.streams = (cc.delete cc.nextStreamID).streams ++ [cc.nextRef] := by
  have hsends (calls : List WriteCall) (cc : ClientConn) :
      (calls.foldl send cc).streams = cc.streams := by
    induction calls generalizing cc with
    | nil => rfl
    | cons c calls ih => exact ih (cc.send c)
  obtain ⟨calls, -, heq⟩ := ok_of_bind h
  cases heq
  exact ⟨rfl, hsends calls _⟩

namespace Client

variable {t : Transport} {s s' : Client}

/-- The streams in the map that round trips have created. -/
def openRequests (s : Client) : Nat := (s.cc.streams.filter (· ∈ s.hist.requests)).length

theorem openRequests_le (s : Client) : s.openRequests ≤ s.cc.streams.length :=
  length_filter_le ..

/-- The slots of the peer are used up, or the tests of the source leave room for a request. -/
def slotsExact (s : Client) : Prop :=
  s.cc.maxConcurrentStreams.toNat ≤ s.openRequests ∨
    ¬ (s.cc.singleUse = true ∧ s.cc.nextStreamID > 1) ∧
      s.cc.streams.length + (if s.cc.t.strictMaxConcurrentStreams then 1 else 2) ≤
        s.cc.maxConcurrentStreams.toNat

/-- A request that is let through adds one stream. -/
theorem openRequests_roundTrip (hwf : s.Wf) {r : ClientConn.EncodedRequest} {pendingRequests : Nat}
    {tooIdle : Bool} (hadmits : s.cc.admits pendingRequests tooIdle = true)
    (hstep : s.step (.roundTrip r pendingRequests tooIdle) = .ok s') :
    s'.openRequests ≤ s.openRequests + 1 := by
  have hround : s.roundTrip r pendingRequests tooIdle = .ok s' := hstep
  rw [roundTrip, if_pos hadmits] at hround
  obtain ⟨⟨cs, cc'⟩, hstart, hs'⟩ := ok_of_bind hround
  obtain ⟨rfl, hstreams⟩ := ClientConn.streams_startRequest hstart
  cases hs'
  unfold openRequests
  rw [hstreams, filter_append, length_append]
  refine Nat.add_le_add ?_ (length_filter_le ..)
  have hold : ∀ cs ∈ (s.cc.delete s.cc.nextStreamID).streams,
      decide (cs ∈ s.cc.nextRef :: s.hist.requests) = decide (cs ∈ s.hist.requests) := by
    intro cs hcs
    have hlt := hwf.conn.allocated cs (mem_of_mem_filter hcs)
    rw [decide_eq_decide, mem_cons]
    exact or_iff_right (Nat.ne_of_lt hlt)
  rw [filter_congr hold]
  exact (filter_sublist.filter _).length_le

/-- On a healthy connection a request is let through at once exactly if fewer requests are
open than the peer allows, if and only if the tests of the source leave room for it.  In
any case a request that is let through leaves no more requests open than the peer allows. -/
theorem admits_iff_slot {singleUse : Bool} {s₀ : Client} (hnew : t.newClient singleUse = .ok s₀)
    {events : List ClientEvent} (hdel : ∀ e ∈ events, e.Delivered) (hrun : s₀.run events = .ok s)
    {pendingRequests : Nat} {tooIdle : Bool} (hhealthy : s.cc.Healthy pendingRequests tooIdle) :
    ((s.cc.admits pendingRequests tooIdle = true ↔
        s.openRequests < s.cc.maxConcurrentStreams.toNat) ↔ s.slotsExact) ∧
      (s.cc.admits pendingRequests tooIdle = true →
        s.openRequests < s.cc.maxConcurrentStreams.toNat ∧
        ∀ r s', s.step (.roundTrip r pendingRequests tooIdle) = .ok s' →
          s'.openRequests ≤ s.cc.maxConcurrentStreams.toNat) := by
  obtain ⟨hwf, -⟩ := sound_of_run hnew hdel hrun
  have hle := s.openRequests_le
  have hiff := ClientConn.admits_iff hhealthy
  have hroom : s.cc.admits pendingRequests tooIdle = true →
      s.openRequests < s.cc.maxConcurrentStreams.toNat := by
    intro hadmits
    have hlen := (hiff.mp hadmits).2
    split at hlen <;> omega
  refine ⟨?_, fun hadmits => ⟨hroom hadmits, fun r s' hstep => ?_⟩⟩
  · unfold slotsExact
    rw [← hiff]
    constructor
    · intro h
      rcases Nat.lt_or_ge s.openRequests s.cc.maxConcurrentStreams.toNat with hlt | hge
      · exact Or.inr (h.mpr hlt)
      · exact Or.inl hge
    · rintro (hfull | hadmits)
      · exact ⟨hroom, fun hlt => absurd hlt (Nat.not_lt.mpr hfull)⟩
      · exact ⟨hroom, fun _ => hadmits⟩
  · exact Nat.le_trans (openRequests_roundTrip hwf hadmits hstep) (hroom hadmits)

/-- The peer allows one request at a time. -/
def oneSlot : ClientEvent :=
  .receive {} (.ok (.settings { type := .settings, flags := 0, length := 6, streamID := 0 }
    [0, 3, 0, 0, 0, 1]))

theorem admits_iff_slot_strict :
    ∃ s₀ s : Client, Transport.newClient { strictMaxConcurrentStreams := true } false = .ok s₀ ∧
      s₀.run [oneSlot] = .ok s ∧ s.cc.admits 0 false = true ∧ s.openRequests = 0 := by
  obtain ⟨s₀, s, hnew, hrun, hhealthy, hsingle, hstrict, hstreams, hmax⟩ :
      ∃ s₀ s : Client, Transport.newClient { strictMaxConcurrentStreams := true } false = .ok s₀ ∧
        s₀.run [oneSlot] = .ok s ∧ s.cc.Healthy 0 false ∧ s.cc.singleUse = false ∧
        s.cc.t.strictMaxConcurrentStreams = true ∧ s.cc.streams = [] ∧
        s.cc.maxConcurrentStreams = 1 :=
    Transport.exists_of_checkRun (by decide +kernel)
  have hopen : s.openRequests = 0 := by
    rw [openRequests, hstreams]
    rfl
  have hexact : s.slotsExact := by
    refine Or.inr ⟨fun h => absurd (hsingle.symm.trans h.1) Bool.false_ne_true, ?_⟩
    rw [hstrict, hstreams, hmax]
    decide
  have hiff := (admits_iff_slot hnew (by decide) hrun hhealthy).1.mpr hexact
  refine ⟨s₀, s, hnew, hrun, hiff.mpr ?_, hopen⟩
  rw [hopen, hmax]
  decide

/-- Without `StrictMaxConcurrentStreams` the one slot is never used. -/
theorem slot_unused :
    ∃ s₀ s : Client, Transport.newClient {} false = .ok s₀ ∧ s₀.run [oneSlot] = .ok s ∧
      s.cc.Healthy 0 false ∧ s.cc.admits 0 false = false ∧ s.openRequests = 0 ∧
      s.cc.maxConcurrentStreams = 1 :=
  Transport.exists_of_checkRun (by decide +kernel)

end Client

end Fhttp.Http2
