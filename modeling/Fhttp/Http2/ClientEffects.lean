import Fhttp.Http2.Client

/-!
# What the handlers of a client keep

Most of what happens on a connection has nothing to do with flow control: headers,
trailers, resets, `GOAWAY`, cancelling.  `Quiet` says what that means, once for all
handlers: no window changes, no `DATA` or `WINDOW_UPDATE` frame is written, no stream is
created, and no pipe gets data.  Its parts are for the handlers that are not quiet: most
of them change either the windows for what the peer sends or those for what we send.

`Wf` is what keeps the handlers from a panic: the streams in the map exist and have
requests, their channels `done` are not closed, and a response has a place for its
trailers.
-/

namespace Fhttp.Http2

open Hpack (Bytes HeaderField)
open Lib.Panic (Returns)

/-! ## Pipes -/

namespace Pipe

variable {ε φ : Type} {p p' p'' : Pipe ε φ}

/-- A pipe that was broken has no buffer, and only then bytes are counted as unread. -/
def Wf (p : Pipe ε φ) : Prop := p.b.isSome → p.unread = 0 ∧ p.breakErr = none

/-- A change that adds nothing to the pipe. -/
def Shrinks (p p' : Pipe ε φ) : Prop := p.Wf → p'.Wf ∧ p'.len ≤ p.len

theorem Shrinks.refl (p : Pipe ε φ) : p.Shrinks p := fun h => ⟨h, Nat.le_refl _⟩

theorem Shrinks.trans (h : p.Shrinks p') (h' : p'.Shrinks p'') : p.Shrinks p'' := fun hp =>
  ⟨(h' (h hp).1).1, Nat.le_trans (h' (h hp).1).2 (h hp).2⟩

theorem shrinks_closeWithErrorAndCode (p : Pipe ε φ) (e : ε) (fn : Option φ) :
    p.Shrinks (p.closeWithErrorAndCode e fn) := by
  unfold closeWithErrorAndCode
  split
  · exact .refl p
  · exact fun h => ⟨h, Nat.le_refl _⟩

/-- A pipe with an empty buffer. -/
theorem shrinks_empty (p : Pipe ε φ) : p.Shrinks { b := some [] } :=
  fun _ => ⟨fun _ => ⟨rfl, rfl⟩, Nat.zero_le _⟩

theorem shrinks_breakWithError (p : Pipe ε φ) (e : ε) : p.Shrinks (p.breakWithError e) := by
  unfold breakWithError
  split
  · exact .refl p
  · refine fun h => ⟨nofun, ?_⟩
    cases hb : p.b with
    | none => simp [len, hb]
    | some bytes =>
      have hunread := (h (Option.isSome_of_eq_some hb)).1
      simp [len, hb, hunread]

variable {n : Nat} {r : ReadResult ε φ}

theorem shrinks_read (h : p.read n = some (r, p')) : p.Shrinks p' := by
  intro hwf
  cases read_done h with
  | broken => exact ⟨hwf, Nat.le_refl _⟩
  | filled _ hb =>
    cases hp : p.b with
    | none => exact absurd (by rw [hp]; rfl) hb
    | some l => exact ⟨fun _ => hwf (Option.isSome_of_eq_some hp), by simp [len, hp]⟩
  | closed =>
    refine ⟨nofun, ?_⟩
    cases hp : p.b with
    | none => simp [len, hp]
    | some l =>
      have hunread := (hwf (Option.isSome_of_eq_some hp)).1
      simp [len, hunread]

/-- What `Read` returns was in the buffer. -/
theorem length_read_le (h : p.read n = some (r, p')) : r.bytes.length ≤ p.len := by
  cases read_done h with
  | broken => exact Nat.zero_le _
  | filled _ hb =>
    cases hp : p.b with
    | none => exact absurd (by rw [hp]; rfl) hb
    | some l =>
      simp only [len, hp]
      exact List.length_take_le' ..
  | closed => exact Nat.zero_le _

theorem len_write (p : Pipe ε φ) (d : Bytes) :
    p.Wf → (p.write d).2.Wf ∧ (p.write d).2.len ≤ p.len + d.length := by
  intro hwf
  unfold write
  split
  · exact ⟨hwf, Nat.le_add_right _ _⟩
  split
  · rename_i hbreak
    have hb : p.b = none := by
      refine Option.not_isSome_iff_eq_none.mp fun hsome => ?_
      rw [(hwf hsome).2] at hbreak
      cases hbreak
    exact ⟨fun hsome => absurd hsome (by simp [hb]), by simp [len, hb]⟩
  cases hb : p.b with
  | none => exact ⟨hwf, Nat.le_add_right _ _⟩
  | some bytes =>
    refine ⟨fun _ => hwf (Option.isSome_of_eq_some hb), ?_⟩
    simp [len, hb]

end Pipe

/-! ## What stays the same -/

/-- What a stream keeps. -/
structure SameStream (s s' : ClientStream) : Prop where
  id : s'.id = s.id
  req : s'.req = s.req
  trailer : s.resTrailer.isSome → s'.resTrailer.isSome

/-- No stream is created, and the configuration is the same. -/
structure Same (cc cc' : ClientConn) : Prop where
  connFlow : cc'.connFlow = cc.connFlow
  streamFlow : cc'.streamFlow = cc.streamFlow
  nextRef : cc'.nextRef = cc.nextRef
  streams : cc'.streams ⊆ cc.streams
  stream : ∀ cs, SameStream (cc.stream cs) (cc'.stream cs)

def WriteCall.isWindowUpdate : WriteCall → Bool
  | .windowUpdate .. => true
  | _ => false

def WriteCall.isData : WriteCall → Bool
  | .data .. => true
  | _ => false

/-- The windows for what the peer sends are the same, and no pipe gets data. -/
structure SameRecv (cc cc' : ClientConn) : Prop where
  inflow : cc'.inflow = cc.inflow
  updates : cc'.out.filter WriteCall.isWindowUpdate = cc.out.filter WriteCall.isWindowUpdate
  streamInflow : ∀ cs, (cc'.stream cs).inflow = (cc.stream cs).inflow
  pipe : ∀ cs, (cc.stream cs).bufPipe.Shrinks (cc'.stream cs).bufPipe

/-- The windows for what we send are the same. -/
structure SameSend (cc cc' : ClientConn) : Prop where
  flow : cc'.flow = cc.flow
  initialWindowSize : cc'.initialWindowSize = cc.initialWindowSize
  maxFrameSize : cc'.maxFrameSize = cc.maxFrameSize
  data : cc'.out.filter WriteCall.isData = cc.out.filter WriteCall.isData
  streamFlow : ∀ cs, (cc'.stream cs).flow = (cc.stream cs).flow

/-- A stream that leaves the map is done, and so are all when the read loop stops. -/
structure Leaves (cc cc' : ClientConn) : Prop where
  done : ∀ cs, (cc.stream cs).done → (cc'.stream cs).done
  left : ∀ cs ∈ cc.streams, cs ∉ cc'.streams → (cc'.stream cs).done
  stopped : cc'.loop = .stopped → cc.loop = .stopped ∨ ∀ cs ∈ cc'.streams, (cc'.stream cs).done

/-- A change that leaves all windows alone. -/
structure Quiet (cc cc' : ClientConn) : Prop where
  same : Same cc cc'
  recv : SameRecv cc cc'
  send : SameSend cc cc'
  ends : Leaves cc cc'

/-- A change of a stream that leaves its windows alone and adds nothing to its pipe. -/
structure QuietStream (s s' : ClientStream) : Prop extends SameStream s s' where
  inflow : s'.inflow = s.inflow
  flow : s'.flow = s.flow
  pipe : s.bufPipe.Shrinks s'.bufPipe
  ended : s.done → s'.done

theorem SameStream.refl (s : ClientStream) : SameStream s s := ⟨rfl, rfl, fun h => h⟩

variable {s s' : ClientStream}

theorem SameStream.trans {s'' : ClientStream} (h : SameStream s s') (h' : SameStream s' s'') :
    SameStream s s'' :=
  ⟨h'.id.trans h.id, h'.req.trans h.req, fun hsome => h'.trailer (h.trailer hsome)⟩

/-- The stream has got a response, which has a place for its trailers. -/
def ClientStream.Answered (s : ClientStream) : Prop := s.resTrailer.isSome ∧ s.id ≠ 0

theorem SameStream.answered (h : SameStream s s') (hs : s.Answered) :
    s'.Answered := ⟨h.trailer hs.1, h.id ▸ hs.2⟩

namespace QuietStream

theorem refl (s : ClientStream) : QuietStream s s := ⟨.refl s, rfl, rfl, .refl _, fun h => h⟩

theorem trans {s s' s'' : ClientStream} (h : QuietStream s s') (h' : QuietStream s' s'') :
    QuietStream s s'' where
  toSameStream := h.toSameStream.trans h'.toSameStream
  inflow := h'.inflow.trans h.inflow
  flow := h'.flow.trans h.flow
  pipe := h.pipe.trans h'.pipe
  ended := fun hs => h'.ended (h.ended hs)

end QuietStream

namespace ClientConn

@[simp] theorem stream_update_self (cc : ClientConn) (cs : StreamRef)
    (f : ClientStream → ClientStream) : (cc.update cs f).stream cs = f (cc.stream cs) :=
  Function.update_self ..

variable {cs : StreamRef} {cc : ClientConn} {id : UInt32}

theorem stream_update_of_ne (cc : ClientConn) {cs' : StreamRef} (h : cs' ≠ cs)
    (f : ClientStream → ClientStream) : (cc.update cs f).stream cs' = cc.stream cs' :=
  Function.update_of_ne h ..

theorem stream_updateOpen (cc : ClientConn) (f : ClientStream → ClientStream) (cs : StreamRef) :
    (cc.updateOpen f).stream cs = if cs ∈ cc.streams then f (cc.stream cs) else cc.stream cs := rfl

/-- A property of all streams after a change of one of them. -/
theorem forall_update {f : ClientStream → ClientStream} {P : StreamRef → ClientStream → Prop}
    (h : ∀ cs', P cs' (cc.stream cs')) (hf : P cs (f (cc.stream cs))) (cs' : StreamRef) :
    P cs' ((cc.update cs f).stream cs') := by
  by_cases heq : cs' = cs
  · rw [heq, stream_update_self]
    exact hf
  · rw [stream_update_of_ne cc heq]
    exact h cs'

theorem mem_of_lookup (h : cc.lookup id = some cs) :
    cs ∈ cc.streams := List.mem_of_find?_eq_some h

theorem id_of_lookup (h : cc.lookup id = some cs) : (cc.stream cs).id = id := by
  have hid := List.find?_some h
  exact beq_iff_eq.mp hid

end ClientConn

section

variable {cc cc' cc'' : ClientConn}

theorem Same.refl (cc : ClientConn) : Same cc cc := ⟨rfl, rfl, rfl, fun _ h => h, fun _ => .refl _⟩

theorem Same.trans (h : Same cc cc') (h' : Same cc' cc'') : Same cc cc'' where
  connFlow := h'.connFlow.trans h.connFlow
  streamFlow := h'.streamFlow.trans h.streamFlow
  nextRef := h'.nextRef.trans h.nextRef
  streams := fun _ hmem => h.streams (h'.streams hmem)
  stream := fun cs => (h.stream cs).trans (h'.stream cs)

variable {f : ClientStream → ClientStream}

theorem Same.update (cc : ClientConn) (cs : StreamRef)
    (h : SameStream (cc.stream cs) (f (cc.stream cs))) : Same cc (cc.update cs f) :=
  { Same.refl cc with
    stream := ClientConn.forall_update (P := fun cs' s => SameStream (cc.stream cs') s)
      (fun _ => .refl _) h }

/-- The configuration and the streams that exist are the same; streams may be created. -/
structure Grows (cc cc' : ClientConn) : Prop where
  connFlow : cc'.connFlow = cc.connFlow
  streamFlow : cc'.streamFlow = cc.streamFlow
  nextRef : cc.nextRef ≤ cc'.nextRef
  stream : ∀ cs < cc.nextRef, SameStream (cc.stream cs) (cc'.stream cs)

theorem Same.grows (h : Same cc cc') : Grows cc cc' :=
  ⟨h.connFlow, h.streamFlow, Nat.le_of_eq h.nextRef.symm, fun cs _ => h.stream cs⟩

theorem Grows.trans (h : Grows cc cc') (h' : Grows cc' cc'') : Grows cc cc'' where
  connFlow := h'.connFlow.trans h.connFlow
  streamFlow := h'.streamFlow.trans h.streamFlow
  nextRef := Nat.le_trans h.nextRef h'.nextRef
  stream := fun cs hcs => (h.stream cs hcs).trans (h'.stream cs (Nat.lt_of_lt_of_le hcs h.nextRef))

theorem SameRecv.refl (cc : ClientConn) : SameRecv cc cc :=
  ⟨rfl, rfl, fun _ => rfl, fun _ => .refl _⟩

theorem SameRecv.trans (h : SameRecv cc cc') (h' : SameRecv cc' cc'') : SameRecv cc cc'' where
  inflow := h'.inflow.trans h.inflow
  updates := h'.updates.trans h.updates
  streamInflow := fun cs => (h'.streamInflow cs).trans (h.streamInflow cs)
  pipe := fun cs => (h.pipe cs).trans (h'.pipe cs)

theorem SameSend.refl (cc : ClientConn) : SameSend cc cc := ⟨rfl, rfl, rfl, rfl, fun _ => rfl⟩

theorem SameSend.trans (h : SameSend cc cc') (h' : SameSend cc' cc'') : SameSend cc cc'' where
  flow := h'.flow.trans h.flow
  initialWindowSize := h'.initialWindowSize.trans h.initialWindowSize
  maxFrameSize := h'.maxFrameSize.trans h.maxFrameSize
  data := h'.data.trans h.data
  streamFlow := fun cs => (h'.streamFlow cs).trans (h.streamFlow cs)

/-- A change that leaves the map alone. -/
theorem Leaves.of_stream (hstreams : cc'.streams = cc.streams)
    (hloop : cc'.loop = .stopped → cc.loop = .stopped)
    (hdone : ∀ cs, (cc.stream cs).done → (cc'.stream cs).done) : Leaves cc cc' where
  done := hdone
  left := fun _ hcs hnot => absurd (hstreams ▸ hcs) hnot
  stopped := fun hl => .inl (hloop hl)

theorem Leaves.refl (cc : ClientConn) : Leaves cc cc := .of_stream rfl (fun h => h) fun _ h => h

theorem Leaves.update (cc : ClientConn) (cs : StreamRef)
    (h : (cc.stream cs).done → (f (cc.stream cs)).done) : Leaves cc (cc.update cs f) :=
  .of_stream rfl (fun h => h) (ClientConn.forall_update
    (P := fun cs' s => (cc.stream cs').done → s.done) (fun _ h => h) h)

theorem Leaves.trans (h : Leaves cc cc') (h' : Leaves cc' cc'')
    (hstreams : cc''.streams ⊆ cc'.streams) : Leaves cc cc'' where
  done := fun cs hcs => h'.done cs (h.done cs hcs)
  left := fun cs hcs hnot => by
    by_cases hmem : cs ∈ cc'.streams
    · exact h'.left cs hmem hnot
    · exact h'.done cs (h.left cs hcs hmem)
  stopped := fun hl => by
    rcases h'.stopped hl with hl' | hall
    · exact (h.stopped hl').imp_right fun hall cs hcs => h'.done cs (hall cs (hstreams hcs))
    · exact .inr hall

/-- The frames of a kind, after a frame of another kind. -/
theorem filter_out_send (cc : ClientConn) {p : WriteCall → Bool} {c : WriteCall}
    (hc : p c = false) :
    (cc.send c).out.filter p = cc.out.filter p := by
  simp only [ClientConn.send]
  split
  · rw [List.filter_append, List.filter_singleton, hc]
    exact List.append_nil _
  · rfl

end

namespace Quiet

variable {cc cc' cc'' : ClientConn}

theorem refl (cc : ClientConn) : Quiet cc cc := ⟨.refl cc, .refl cc, .refl cc, .refl cc⟩

theorem trans (h : Quiet cc cc') (h' : Quiet cc' cc'') : Quiet cc cc'' :=
  ⟨h.same.trans h'.same, h.recv.trans h'.recv, h.send.trans h'.send,
    h.ends.trans h'.ends h'.same.streams⟩

/-- A change of the streams, and of nothing else that counts. -/
theorem of_stream (hloop : cc'.loop = .stopped → cc.loop = .stopped)
    (hstream : ∀ cs, QuietStream (cc.stream cs) (cc'.stream cs))
    (hconnFlow : cc'.connFlow = cc.connFlow := by rfl)
    (hstreamFlow : cc'.streamFlow = cc.streamFlow := by rfl)
    (hnextRef : cc'.nextRef = cc.nextRef := by rfl) (hstreams : cc'.streams = cc.streams := by rfl)
    (hinflow : cc'.inflow = cc.inflow := by rfl) (hflow : cc'.flow = cc.flow := by rfl)
    (hinitial : cc'.initialWindowSize = cc.initialWindowSize := by rfl)
    (hmax : cc'.maxFrameSize = cc.maxFrameSize := by rfl) (hout : cc'.out = cc.out := by rfl) :
    Quiet cc cc' where
  same := ⟨hconnFlow, hstreamFlow, hnextRef, fun _ hcs => hstreams ▸ hcs,
    fun cs => (hstream cs).toSameStream⟩
  recv := ⟨hinflow, congrArg _ hout, fun cs => (hstream cs).inflow, fun cs => (hstream cs).pipe⟩
  send := ⟨hflow, hinitial, hmax, congrArg _ hout, fun cs => (hstream cs).flow⟩
  ends := .of_stream hstreams hloop fun cs => (hstream cs).ended

variable {f : ClientStream → ClientStream}

/-- A change of one stream. -/
theorem update (cc : ClientConn) (cs : StreamRef)
    (h : QuietStream (cc.stream cs) (f (cc.stream cs))) : Quiet cc (cc.update cs f) :=
  of_stream (fun h => h)
    (ClientConn.forall_update (P := fun cs' s => QuietStream (cc.stream cs') s)
      (fun _ => .refl _) h)

/-- A change of the streams in the map. -/
theorem updateOpen (cc : ClientConn) (h : ∀ s, QuietStream s (f s)) :
    Quiet cc (cc.updateOpen f) := by
  refine of_stream (fun h => h) fun cs => ?_
  rw [ClientConn.stream_updateOpen]
  split
  · exact h _
  · exact .refl _

/-- A frame that is not part of flow control. -/
theorem sent (cc : ClientConn) {c : WriteCall} (hupdate : c.isWindowUpdate = false)
    (hdata : c.isData = false) : Quiet cc (cc.send c) where
  same := { Same.refl cc with }
  recv := { SameRecv.refl cc with updates := filter_out_send cc hupdate }
  send := { SameSend.refl cc with data := filter_out_send cc hdata }
  ends := { Leaves.refl cc with }

end Quiet

/-- A change of the windows, with which no stream is dropped and the read loop goes on. -/
structure Still (cc cc' : ClientConn) : Prop where
  same : Same cc cc'
  ends : Leaves cc cc'
  loop : cc'.loop = cc.loop

/-! ## Well-formed connections -/

/-- What a loop that has stopped inside a frame works on. -/
def LoopState.Ready (cc : ClientConn) : LoopState → Prop
  | .sending cs re _ => cs < cc.nextRef ∧ ∀ res, re = .res res → (cc.stream cs).Answered
  | .delivering cs _ _ => cs < cc.nextRef
  | _ => True

theorem LoopState.Ready.imp {cc cc' : ClientConn} {l : LoopState} (h : l.Ready cc)
    (hnextRef : cc'.nextRef = cc.nextRef)
    (htrailer : ∀ cs, (cc.stream cs).Answered → (cc'.stream cs).Answered) : l.Ready cc' := by
  cases l with
  | sending cs re deferred => exact ⟨hnextRef ▸ h.1, fun res hres => htrailer cs (h.2 res hres)⟩
  | delivering cs data streamEnded =>
    rw [LoopState.Ready, hnextRef]
    exact h
  | running => trivial
  | stopped => trivial

/-- The streams in the map have their own ids, and results that were announced. -/
structure Indexed (cc : ClientConn) : Prop where
  allocated : ∀ cs ∈ cc.streams, cs < cc.nextRef
  unallocated : ∀ cs, cc.nextRef ≤ cs → (cc.stream cs).id = 0
  unique : ∀ cs ∈ cc.streams, ∀ cs' ∈ cc.streams, (cc.stream cs).id = (cc.stream cs').id → cs = cs'
  trailer : ∀ cs res, (cc.stream cs).resc = some (.res res) → (cc.stream cs).Answered

structure Wf (cc : ClientConn) : Prop extends Indexed cc where
  requested : cc.loop ≠ .stopped → ∀ cs < cc.nextRef, (cc.stream cs).req.isSome
  notDone : cc.loop ≠ .stopped → ∀ cs ∈ cc.streams, (cc.stream cs).done = false
  closed : cc.loop = .stopped → cc.closed
  empty : cc.closed → cc.loop = .stopped ∨ cc.streams = []
  ready : cc.loop.Ready cc

/-- What a connection keeps when a push that is rejected leaves a stream without a request. -/
structure Tidy (cc : ClientConn) : Prop extends Indexed cc where
  notDone : ∀ cs ∈ cc.streams, (cc.stream cs).done = false

/-- A change of a stream that keeps its connection well-formed. -/
structure KeptStream (s s' : ClientStream) : Prop extends QuietStream s s' where
  done : s'.done = s.done
  result : (∀ res, s.resc = some (.res res) → s.Answered) →
    ∀ res, s'.resc = some (.res res) → s'.Answered

/-- A handler keeps the connection well-formed and leaves all windows alone. -/
structure Kept (cc cc' : ClientConn) : Prop extends Quiet cc cc' where
  wf : Wf cc'
  loop : cc'.loop = cc.loop

namespace Wf

variable {cc cc' : ClientConn}

theorem tidy (h : Wf cc) (hloop : cc.loop ≠ .stopped) : Tidy cc :=
  ⟨h.toIndexed, h.notDone hloop⟩

/-- A change that keeps the channels of the streams in the map. -/
theorem of_same (h : Wf cc) (hsame : Same cc cc') (hloop : cc'.loop = cc.loop)
    (hclosed : cc'.closed = cc.closed)
    (hdone : ∀ cs ∈ cc'.streams, (cc'.stream cs).done = (cc.stream cs).done)
    (hresult : ∀ cs res, (cc'.stream cs).resc = some (.res res) →
      (cc'.stream cs).Answered) : Wf cc' where
  allocated := fun cs hcs => hsame.nextRef ▸ h.allocated cs (hsame.streams hcs)
  unallocated := fun cs hcs => by
    rw [(hsame.stream cs).id]
    exact h.unallocated cs (hsame.nextRef ▸ hcs)
  unique := fun cs hcs cs' hcs' hid => by
    rw [(hsame.stream cs).id, (hsame.stream cs').id] at hid
    exact h.unique cs (hsame.streams hcs) cs' (hsame.streams hcs') hid
  requested := fun hl cs hcs => by
    rw [(hsame.stream cs).req]
    exact h.requested (hloop ▸ hl) cs (hsame.nextRef ▸ hcs)
  notDone := fun hl cs hcs => by
    rw [hdone cs hcs]
    exact h.notDone (hloop ▸ hl) cs (hsame.streams hcs)
  closed := fun hl => hclosed ▸ h.closed (hloop ▸ hl)
  empty := fun hc => by
    rw [hloop]
    refine (h.empty (hclosed ▸ hc)).imp_right fun hnil => ?_
    exact List.subset_nil.mp (hnil ▸ hsame.streams)
  trailer := hresult
  ready := by
    rw [hloop]
    exact h.ready.imp hsame.nextRef fun cs => (hsame.stream cs).answered

/-- The fields that count are the same. -/
theorem congr (h : Wf cc) (hstreams : cc'.streams = cc.streams := by rfl)
    (hstream : cc'.stream = cc.stream := by rfl) (hnextRef : cc'.nextRef = cc.nextRef := by rfl)
    (hloop : cc'.loop = cc.loop := by rfl) (hclosed : cc'.closed = cc.closed := by rfl)
    (hconnFlow : cc'.connFlow = cc.connFlow := by rfl)
    (hstreamFlow : cc'.streamFlow = cc.streamFlow := by rfl) : Wf cc' := by
  have hsame : Same cc cc' := ⟨hconnFlow, hstreamFlow, hnextRef, fun _ hcs => hstreams ▸ hcs,
    fun cs => hstream ▸ .refl _⟩
  refine h.of_same hsame hloop hclosed (fun cs _ => by rw [hstream]) ?_
  rw [hstream]
  exact h.trailer

theorem update (h : Wf cc) (cs : StreamRef) {f : ClientStream → ClientStream}
    (hf : SameStream (cc.stream cs) (f (cc.stream cs)))
    (hdone : (f (cc.stream cs)).done = (cc.stream cs).done)
    (hresult : ∀ res, (f (cc.stream cs)).resc = some (.res res) → (f (cc.stream cs)).Answered) :
    Wf (cc.update cs f) := by
  refine h.of_same (.update cc cs hf) rfl rfl (fun cs' _ => ?_) ?_
  · exact ClientConn.forall_update (P := fun cs' s => s.done = (cc.stream cs').done)
      (fun _ => rfl) hdone cs'
  · exact ClientConn.forall_update
      (P := fun _ s => ∀ res, s.resc = some (.res res) → s.Answered) h.trailer hresult

end Wf

namespace KeptStream

theorem refl (s : ClientStream) : KeptStream s s := ⟨.refl s, rfl, fun h => h⟩

/-- A change of fields that do not count. -/
theorem of_eq {s s' : ClientStream} (hpipe : s.bufPipe.Shrinks s'.bufPipe)
    (hid : s'.id = s.id := by rfl) (hinflow : s'.inflow = s.inflow := by rfl)
    (hflow : s'.flow = s.flow := by rfl) (hreq : s'.req = s.req := by rfl)
    (htrailer : s'.resTrailer = s.resTrailer := by rfl) (hdone : s'.done = s.done := by rfl)
    (hresc : s'.resc = s.resc := by rfl) : KeptStream s s' := by
  refine ⟨⟨⟨hid, hreq, fun h => ?_⟩, hinflow, hflow, hpipe, fun h => hdone ▸ h⟩, hdone, fun h => ?_⟩
  · rw [htrailer]
    exact h
  · rw [hresc, ClientStream.Answered, htrailer, hid]
    exact h

/-- An error for the waiting round trip. -/
theorem trySend (s : ClientStream) (err : ClientError) : KeptStream s (s.trySend (.err err)) := by
  refine ⟨⟨⟨rfl, rfl, fun h => h⟩, rfl, rfl, .refl _, fun h => h⟩, rfl, fun h res hres => ?_⟩
  simp only [ClientStream.trySend] at hres ⊢
  split at hres
  · exact h res hres
  · cases hres

theorem closePipe (s : ClientStream) (err : ClientError) : KeptStream s (s.closePipe err) :=
  of_eq (s.bufPipe.shrinks_closeWithErrorAndCode err none)

theorem trans {s s' s'' : ClientStream} (h : KeptStream s s') (h' : KeptStream s' s'') :
    KeptStream s s'' :=
  ⟨h.toQuietStream.trans h'.toQuietStream, h'.done.trans h.done, fun hs => h'.result (h.result hs)⟩

end KeptStream

namespace Kept

variable {cc cc' cc'' : ClientConn}

theorem refl (h : Wf cc) : Kept cc cc := ⟨.refl cc, h, rfl⟩

theorem trans (h : Kept cc cc') (h' : Kept cc' cc'') : Kept cc cc'' :=
  ⟨h.toQuiet.trans h'.toQuiet, h'.wf, h'.loop.trans h.loop⟩

/-- A quiet change that keeps the channels of the streams in the map. -/
theorem of_quiet (h : Wf cc) (hquiet : Quiet cc cc') (hloop : cc'.loop = cc.loop)
    (hclosed : cc'.closed = cc.closed)
    (hdone : ∀ cs ∈ cc'.streams, (cc'.stream cs).done = (cc.stream cs).done)
    (hresult : ∀ cs res, (cc'.stream cs).resc = some (.res res) →
      (cc'.stream cs).Answered) : Kept cc cc' :=
  ⟨hquiet, h.of_same hquiet.same hloop hclosed hdone hresult, hloop⟩

variable {f : ClientStream → ClientStream}

theorem update (h : Wf cc) (cs : StreamRef) (hf : KeptStream (cc.stream cs) (f (cc.stream cs))) :
    Kept cc (cc.update cs f) :=
  ⟨.update cc cs hf.toQuietStream,
    h.update cs hf.toSameStream hf.done (hf.result (h.trailer cs)), rfl⟩

theorem updateOpen (h : Wf cc) (hf : ∀ s, KeptStream s (f s)) : Kept cc (cc.updateOpen f) := by
  refine of_quiet h (.updateOpen cc fun s => (hf s).toQuietStream) rfl rfl (fun cs hcs => ?_)
    fun cs => ?_
  · have hcs : cs ∈ cc.streams := hcs
    rw [ClientConn.stream_updateOpen, if_pos hcs]
    exact (hf _).done
  · rw [ClientConn.stream_updateOpen]
    split
    · exact (hf _).result (h.trailer cs)
    · exact h.trailer cs

theorem sent (h : Wf cc) {c : WriteCall} (hupdate : c.isWindowUpdate = false)
    (hdata : c.isData = false) : Kept cc (cc.send c) :=
  of_quiet h (.sent cc hupdate hdata) rfl rfl (fun _ _ => rfl) h.trailer

end Kept

/-! ## The end of a stream -/

namespace ClientConn

variable {cc : ClientConn}

/-- The connection after `streamByID`. -/
def without (cc : ClientConn) (id : UInt32) (andRemove : Bool) : ClientConn :=
  match cc.lookup id with
  | none => cc
  | some cs =>
    if andRemove && !cc.closed then
      (cc.delete id).update cs fun s => { s with done := true }
    else cc

theorem streamByID_eq (h : Wf cc) (id : UInt32) (andRemove : Bool) :
    cc.streamByID id andRemove = .ok (cc.lookup id, cc.without id andRemove) := by
  unfold streamByID without
  cases hcs : cc.lookup id with
  | none => rfl
  | some cs =>
    by_cases hremove : (andRemove && !cc.closed) = true
    · have hclosed : cc.closed = false := by simpa using (Bool.and_eq_true_iff.mp hremove).2
      have hloop : cc.loop ≠ .stopped := fun hl => by simp [h.closed hl] at hclosed
      have hdone : ((cc.delete id).stream cs).done = false := h.notDone hloop cs (mem_of_lookup hcs)
      simp only [hremove, if_true, closeDone, hdone]
      rfl
    · simp only [hremove]
      rfl

variable {cs : StreamRef}

/-- A stream leaves the map and is done. -/
theorem quiet_remove (h : Wf cc) {id : UInt32} (hcs : cc.lookup id = some cs) :
    Quiet cc ((cc.delete id).update cs fun s => { s with done := true }) := by
  have hupdate : Quiet cc (cc.update cs fun s => { s with done := true }) :=
    .update cc cs ⟨⟨rfl, rfl, fun h => h⟩, rfl, rfl, .refl _, fun _ => rfl⟩
  refine
    { same := { hupdate.same with streams := fun _ h => List.mem_of_mem_filter h }
      recv := { hupdate.recv with }
      send := { hupdate.send with }
      ends := ⟨hupdate.ends.done, fun cs' hcs' hnot => ?_, .inl⟩ }
  have hid : (cc.stream cs').id = id := by
    by_contra hne
    exact hnot (List.mem_filter.mpr ⟨hcs', by simpa using hne⟩)
  have heq : cs' = cs :=
    h.unique cs' hcs' cs (mem_of_lookup hcs) (hid.trans (id_of_lookup hcs).symm)
  rw [heq, stream_update_self]

theorem kept_without (h : Wf cc) (id : UInt32) (andRemove : Bool) :
    Kept cc (cc.without id andRemove) := by
  unfold without
  cases hcs : cc.lookup id with
  | none => exact .refl h
  | some cs =>
    by_cases hremove : (andRemove && !cc.closed) = true
    · simp only [hremove, if_true]
      refine .of_quiet h (quiet_remove h hcs) rfl rfl (fun cs' hcs' => ?_) ?_
      · have hne : cs' ≠ cs := by
          rintro rfl
          have hid := (List.mem_filter.mp hcs').2
          simp [id_of_lookup hcs] at hid
        rw [stream_update_of_ne _ hne]
        rfl
      · exact forall_update (P := fun _ s => ∀ res, s.resc = some (.res res) → s.Answered) h.trailer
          (h.trailer cs)
    · simp only [hremove]
      exact .refl h

theorem stream_without (cc : ClientConn) (id : UInt32) (andRemove : Bool) (cs : StreamRef) :
    ∃ done, (cc.without id andRemove).stream cs = { cc.stream cs with done := done } := by
  unfold without
  cases hlookup : cc.lookup id with
  | none => exact ⟨_, rfl⟩
  | some cs' =>
    by_cases hremove : (andRemove && !cc.closed) = true
    · simp only [hremove, if_true]
      by_cases heq : cs = cs'
      · rw [heq, stream_update_self]
        exact ⟨true, rfl⟩
      · rw [stream_update_of_ne _ heq]
        exact ⟨_, rfl⟩
    · simp only [hremove]
      exact ⟨_, rfl⟩

theorem forgetStreamID_eq (h : Wf cc) (id : UInt32) :
    cc.forgetStreamID id = .ok (cc.without id true) := by
  rw [forgetStreamID, streamByID_eq h]
  rfl

theorem kept_runDeferred (h : Wf cc) (deferred : Option UInt32) :
    Returns (Kept cc) (cc.runDeferred deferred) := by
  cases deferred with
  | none => exact Kept.refl h
  | some id =>
    rw [runDeferred, forgetStreamID_eq h]
    exact kept_without h id true

theorem deref_req (h : Wf cc) (hloop : cc.loop ≠ .stopped) (hcs : cs < cc.nextRef) :
    ∃ req, (cc.stream cs).req = some req ∧ deref (cc.stream cs).req = .ok req := by
  obtain ⟨req, hreq⟩ := Option.isSome_iff_exists.mp (h.requested hloop cs hcs)
  exact ⟨req, hreq, by rw [hreq, deref]⟩

/-- The connection after `endStreamError` for a stream with the request `req`. -/
def streamEnded (cc : ClientConn) (cs : StreamRef) (req : Request) (err : Option ClientError) :
    ClientConn :=
  (if req.connectionClose then { cc with closeWhenIdle := true } else cc).update cs fun s =>
    ClientStream.trySend
      { s with
        bufPipe := s.bufPipe.closeWithErrorAndCode (err.getD .eof)
          (if err.isNone then some .copyTrailers else none) }
      (.err (err.getD .eof))

theorem endStreamError_eq {req : Request} (hreq : (cc.stream cs).req = some req)
    (err : Option ClientError) : cc.endStreamError cs err = .ok (cc.streamEnded cs req err) := by
  unfold endStreamError
  rw [hreq]
  rfl

theorem kept_streamEnded (h : Wf cc) (cs : StreamRef) (req : Request) (err : Option ClientError) :
    Kept cc (cc.streamEnded cs req err) := by
  have hkept : Kept cc (if req.connectionClose then { cc with closeWhenIdle := true } else cc) := by
    split
    · exact ⟨.of_stream (fun h => h) fun _ => .refl _, h.congr, rfl⟩
    · exact .refl h
  refine hkept.trans (.update hkept.wf cs ?_)
  refine KeptStream.trans ?_ (.trySend _ _)
  exact .of_eq (Pipe.shrinks_closeWithErrorAndCode _ _ _)

theorem kept_endStreamError (h : Wf cc) (hloop : cc.loop ≠ .stopped) (hcs : cs < cc.nextRef)
    (err : Option ClientError) : Returns (Kept cc) (cc.endStreamError cs err) := by
  obtain ⟨req, hreq, -⟩ := deref_req h hloop hcs
  rw [endStreamError_eq hreq]
  exact kept_streamEnded h cs req err

end ClientConn

/-! ## Headers -/

/-- The rest of a handler can be done. -/
def Handled.Ready (cc : ClientConn) : Handled → Prop
  | .returned _ => True
  | .send cs re _ => cs < cc.nextRef ∧ ∀ res, re = .res res → (cc.stream cs).Answered
  | .deliver cs _ _ => cs < cc.nextRef

def Handled.isDeliver : Handled → Bool
  | .deliver .. => true
  | _ => false

namespace ClientConn

variable {cc : ClientConn} {cs : StreamRef}

section

variable (h : Wf cc) (hloop : cc.loop ≠ .stopped) (hcs : cs < cc.nextRef)

include h hloop hcs

section

variable (hdr : FrameHeader) (fields : List HeaderField)

theorem kept_handleResponse (truncated : Bool) (got1xx : Option ClientError) :
    Returns (fun r => Kept cc r.2) (cc.handleResponse cs hdr fields truncated got1xx) := by
  have hrefl : Kept cc cc := .refl h
  unfold handleResponse
  split
  · exact hrefl
  dsimp only
  split
  · exact hrefl
  cases atoi (pseudoValue fields (Hpack.ascii ":status")) with
  | none => exact hrefl
  | some statusCode =>
    dsimp only
    split
    · have hcount : Kept cc (cc.update cs fun s => { s with num1xx := s.num1xx + 1 }) :=
        .update h cs (.of_eq (.refl _))
      split
      · exact hcount
      cases got1xx with
      | some err => exact hcount
      | none =>
        have hback := Kept.update hcount.wf cs (f := fun s => { s with pastHeaders := false })
          (.of_eq (.refl _))
        exact hcount.trans hback
    · obtain ⟨req, -, hderef⟩ := deref_req h hloop hcs
      rw [hderef]
      show Returns _ (ite _ _ _)
      split
      · exact hrefl
      · have hopened (n : Int) := Kept.update h cs
          (f := fun s => { s with bufPipe := { b := some [] }, bytesRemain := n })
          (.of_eq (Pipe.shrinks_empty _))
        exact hopened _

theorem kept_processTrailers :
    Returns (fun r => Kept cc r.2) (cc.processTrailers cs hdr fields) := by
  unfold processTrailers
  split
  · exact Kept.refl h
  have hpast : Kept cc (cc.update cs fun s => { s with pastTrailers := true }) :=
    .update h cs (.of_eq (.refl _))
  split
  · exact hpast
  split
  · exact hpast
  have hset : Kept cc ((cc.update cs fun s => { s with pastTrailers := true }).update cs fun s =>
      { s with trailer := regularHeader fields }) :=
    hpast.trans (.update hpast.wf cs (.of_eq (.refl _)))
  exact (kept_endStreamError hset.wf hloop hcs none).bind fun _ hkept => hset.trans hkept

end

theorem kept_headersEnded (hdr : FrameHeader) :
    Returns (fun r => Kept cc r.2) (cc.headersEnded cs hdr) := by
  unfold headersEnded
  split
  · have hgot : Kept cc (cc.update cs fun s => { s with gotEndStream := true }) :=
      .update h cs (.of_eq (.refl _))
    obtain ⟨req, -, hderef⟩ := deref_req hgot.wf hloop hcs
    dsimp only
    rw [hderef]
    show Returns _ (ite _ _ _)
    split
    · exact hgot
    · rw [forgetStreamID_eq hgot.wf]
      exact hgot.trans (kept_without hgot.wf hdr.streamID true)
  · exact Kept.refl h

theorem kept_processResponse (hid : (cc.stream cs).id ≠ 0) (hdr : FrameHeader)
    (fields : List HeaderField) (truncated : Bool) (got1xx : Option ClientError)
    (deferred : Option UInt32) :
    Returns (fun r => Kept cc r.2 ∧ r.1.Ready r.2 ∧ r.1.isDeliver = false)
      (cc.processResponse cs hdr fields truncated got1xx deferred) := by
  refine (kept_handleResponse h hloop hcs hdr fields truncated got1xx).bind ?_
  rintro ⟨res, cc₁⟩ hkept
  cases res with
  | error err =>
    dsimp only
    split
    · exact (kept_runDeferred hkept.wf deferred).bind fun _ hrun => ⟨hkept.trans hrun, trivial, rfl⟩
    have hreset : Kept cc (cc₁.writeStreamReset hdr.streamID .protocol) :=
      hkept.trans (.sent hkept.wf rfl rfl)
    rw [forgetStreamID_eq hreset.wf]
    have hforget := kept_without hreset.wf
      ((cc₁.writeStreamReset hdr.streamID .protocol).stream cs).id true
    have hall := hreset.trans hforget
    refine ⟨hall, ⟨?_, fun res hres => by cases hres⟩, rfl⟩
    exact hall.same.nextRef ▸ hcs
  | ok res =>
    cases res with
    | none =>
      exact (kept_runDeferred hkept.wf deferred).bind
        fun _ hrun => ⟨hkept.trans hrun, trivial, rfl⟩
    | some res =>
      have hid₁ : (cc₁.stream cs).id ≠ 0 := (hkept.same.stream cs).id ▸ hid
      have hslot : Kept cc₁ (cc₁.update cs fun s => { s with resTrailer := some res.trailer }) :=
        .update hkept.wf cs
          ⟨⟨⟨rfl, rfl, fun _ => rfl⟩, rfl, rfl, .refl _, fun h => h⟩, rfl, fun _ _ _ => ⟨rfl, hid₁⟩⟩
      have hall := hkept.trans hslot
      refine ⟨hall, ⟨?_, fun _ _ => ?_⟩, rfl⟩
      · exact hall.same.nextRef ▸ hcs
      · rw [stream_update_self]
        exact ⟨rfl, hid₁⟩

end

theorem kept_processHeaders (h : Wf cc) (hloop : cc.loop ≠ .stopped) {hdr : FrameHeader}
    (hid : hdr.streamID ≠ 0) (fields : List HeaderField) (truncated : Bool)
    (got1xx : Option ClientError) :
    Returns (fun r => Kept cc r.2 ∧ r.1.Ready r.2 ∧ r.1.isDeliver = false)
      (cc.processHeaders hdr fields truncated got1xx) := by
  unfold processHeaders
  cases hlookup : cc.lookup hdr.streamID with
  | none => exact ⟨.refl h, trivial, rfl⟩
  | some cs =>
    have hcs : cs < cc.nextRef := h.allocated cs (mem_of_lookup hlookup)
    refine (kept_headersEnded h hloop hcs hdr).bind ?_
    rintro ⟨deferred, cc₁⟩ hkept
    have hfirst : Kept cc (cc₁.update cs fun s => { s with firstByte := true }) :=
      hkept.trans (.update hkept.wf cs (.of_eq (.refl _)))
    have hloop₁ : (cc₁.update cs fun s => { s with firstByte := true }).loop ≠ .stopped :=
      hfirst.loop ▸ hloop
    have hcs₁ : cs < (cc₁.update cs fun s => { s with firstByte := true }).nextRef :=
      hfirst.same.nextRef ▸ hcs
    dsimp only
    split
    · refine (kept_processTrailers hfirst.wf hloop₁ hcs₁ hdr fields).bind ?_
      rintro ⟨err, cc₂⟩ htrailers
      exact (kept_runDeferred htrailers.wf deferred).bind fun _ hrun =>
        ⟨(hfirst.trans htrailers).trans hrun, trivial, rfl⟩
    · have hpast := Kept.update hfirst.wf cs (f := fun s => { s with pastHeaders := true })
        (.of_eq (.refl _))
      have hid₁ := (hfirst.trans hpast).same.stream cs |>.id
      rw [id_of_lookup hlookup] at hid₁
      refine (kept_processResponse hpast.wf hloop₁ hcs₁ (hid₁ ▸ hid) hdr fields truncated got1xx
        deferred).imp ?_
      exact fun _ hr => ⟨(hfirst.trans hpast).trans hr.1, hr.2⟩

/-! ## Other frames -/

theorem kept_setGoAway (h : Wf cc) (lastStreamID : UInt32) (errCode : ErrCode) (debugData : Bytes) :
    Kept cc (cc.setGoAway lastStreamID errCode debugData) := by
  have hstored (goAway : Option GoAway) (debug : Bytes) :
      Kept cc { cc with goAway := goAway, goAwayDebug := debug } :=
    ⟨.of_stream (fun h => h) fun _ => .refl _, h.congr, rfl⟩
  unfold setGoAway
  refine (hstored _ _).trans (.updateOpen (hstored _ _).wf fun s => ?_)
  split
  · exact .trySend s _
  · exact .refl s

theorem kept_processResetStream (h : Wf cc) (hdr : FrameHeader) (errCode : ErrCode) :
    Returns (Kept cc) (cc.processResetStream hdr errCode) := by
  have hwithout := kept_without h hdr.streamID true
  unfold processResetStream
  rw [streamByID_eq h]
  cases hlookup : cc.lookup hdr.streamID with
  | none => exact hwithout
  | some cs =>
    show Returns _ (ite _ _ _)
    split
    · exact hwithout
    · have hmark (err : ClientError) := Kept.update hwithout.wf cs
        (f := fun s => { s with resetErr := some err, peerReset := true }) (.of_eq (.refl _))
      exact (hwithout.trans (hmark _)).trans (.update (hmark _).wf cs (.closePipe _ _))

theorem kept_processPing (h : Wf cc) (hdr : FrameHeader) (data : Vector UInt8 8) :
    Kept cc (cc.processPing hdr data) := by
  unfold processPing
  split
  · exact ⟨.of_stream (fun h => h) fun _ => .refl _, h.congr, rfl⟩
  · exact .sent h rfl rfl

end ClientConn

end Fhttp.Http2
