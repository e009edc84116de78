import Fhttp.Http2.ClientLoop

/-!
# What the steps of a client do

The specifications of everything that acts on a connection besides the read loop, and
`Client.Stepped`, which says what an event can do to a client.  The invariants of runs are
derived from it.
-/

namespace Fhttp.Http2

open Hpack (Bytes ascii)
open Lib.Panic (Fault Outcome Returns Yields yields_iff)
open ClientConn
open List
open Fhttp.Http2.Flow

namespace ClientConn

variable {cc cc' : ClientConn} {cs : StreamRef}

/-! ## Reading -/

theorem kept_copyTrailers (h : Wf cc) (hcs : (cc.stream cs).Answered) :
    Returns (Kept cc) (cc.copyTrailers cs) := by
  unfold copyTrailers
  generalize (cc.stream cs).trailer = trailer
  induction trailer generalizing cc with
  | nil => exact Kept.refl h
  | cons kv trailer ih =>
    rw [foldlM_cons]
    obtain ⟨t, ht⟩ := Option.isSome_iff_exists.mp hcs.1
    have hset :
        Kept cc (cc.update cs fun s => { s with resTrailer := some (t.set kv.1 kv.2) }) := by
      refine .update h cs ⟨⟨⟨rfl, rfl, fun _ => rfl⟩, rfl, rfl, .refl _, fun h => h⟩, rfl, ?_⟩
      exact fun _ _ _ => ⟨rfl, hcs.2⟩
    have hstep : copyTrailer cs cc kv =
        .ok (cc.update cs fun s => { s with resTrailer := some (t.set kv.1 kv.2) }) := by
      unfold copyTrailer
      rw [ht]
      rfl
    rw [hstep]
    refine (ih hset.wf ?_).imp fun cc' hkept => hset.trans hkept
    exact (hset.same.stream cs).answered hcs

theorem kept_countBody (h : Wf cc) (cs : StreamRef) (bytes : Bytes) (err : Option ClientError) :
    Kept cc (cc.countBody cs bytes err).2 := by
  have hsticky {cc : ClientConn} (h : Wf cc) (e : ClientError) :
      Kept cc (cc.update cs fun s => { s with readErr := some e }) :=
    .update h cs (.of_eq (.refl _))
  unfold countBody
  dsimp only
  split
  · split
    · cases err with
      | some e => exact hsticky h e
      | none =>
        have hreset : Kept cc (cc.writeStreamReset (cc.stream cs).id .protocol) := .sent h rfl rfl
        exact hreset.trans (hsticky hreset.wf _)
    · have hcount : Kept cc
          (cc.update cs fun s => { s with bytesRemain := s.bytesRemain - bytes.length }) :=
        .update h cs (.of_eq (.refl _))
      split
      · exact hcount.trans (hsticky hcount.wf _)
      · exact hcount
  · exact .refl h

/-- There is flow control to give back when bytes are returned without an error, and not when
none came from the pipe. -/
theorem tokens_countBody (cc : ClientConn) (cs : StreamRef) (bytes : Bytes)
    (err : Option ClientError) :
    ((cc.countBody cs bytes err).1.err = none → (cc.countBody cs bytes err).1.bytes ≠ [] →
      (cc.countBody cs bytes err).1.tokens = true) ∧
    ((cc.countBody cs bytes err).1.tokens = true → bytes ≠ []) := by
  have htokens :
      (bytes ≠ [] → (!bytes.isEmpty) = true) ∧ ((!bytes.isEmpty) = true → bytes ≠ []) := by
    simp
  unfold countBody
  dsimp only
  split
  · split
    · cases err <;> exact ⟨nofun, nofun⟩
    · split
      · exact ⟨nofun, nofun⟩
      · exact ⟨fun _ => htokens.1, htokens.2⟩
  · exact ⟨fun _ => htokens.1, htokens.2⟩

theorem kept_readBody (h : Wf cc) (hcs : (cc.stream cs).Answered) (n : Nat) :
    Returns (fun res => ∀ r cc', res = some (r, cc') → Kept cc cc' ∧
      (r.err = none → r.bytes ≠ [] → r.tokens = true) ∧
      (r.tokens = true → 0 < (cc.stream cs).bufPipe.len)) (cc.readBody cs n) := by
  unfold readBody
  split
  · intro r cc' heq
    cases heq
    exact ⟨.refl h, nofun, nofun⟩
  split
  · intro r cc' heq
    cases heq
  rename_i r pipe hread
  have hpipe : Kept cc (cc.update cs fun s => { s with bufPipe := pipe }) :=
    .update h cs (.of_eq (Pipe.shrinks_read hread))
  have hlen : r.bytes ≠ [] → 0 < (cc.stream cs).bufPipe.len := fun hne =>
    Nat.lt_of_lt_of_le (length_pos_of_ne_nil hne) (Pipe.length_read_le hread)
  have hcount {cc₁ : ClientConn} (hkept : Kept cc cc₁) {r' : BodyRead} {cc' : ClientConn}
      (heq : some (cc₁.countBody cs r.bytes r.err) = some (r', cc')) :
      Kept cc cc' ∧ (r'.err = none → r'.bytes ≠ [] → r'.tokens = true) ∧
        (r'.tokens = true → 0 < (cc.stream cs).bufPipe.len) := by
    have htokens := tokens_countBody cc₁ cs r.bytes r.err
    have hkept' := kept_countBody hkept.wf cs r.bytes r.err
    rw [Option.some.inj heq] at htokens hkept'
    exact ⟨hkept.trans hkept', htokens.1, fun ht => hlen (htokens.2 ht)⟩
  split
  · refine (kept_copyTrailers hpipe.wf ((hpipe.same.stream cs).answered hcs)).bind ?_
    exact fun cc₁ hkept r' cc' heq => hcount (hpipe.trans hkept) heq
  · exact fun r' cc' heq => hcount hpipe heq

/-! ## Flow control of a `Read` -/

/-- `WriteWindowUpdate` for what is given back. -/
def addCalls (id : UInt32) (add : Int32) : List WriteCall :=
  if add ≠ 0 then [.windowUpdate id add.toUInt32] else []

variable {add : Int32} {err : Option ClientError}

theorem sendAdd_ok (cc : ClientConn) (id : UInt32) (h : 0 ≤ add.toInt) :
    cc.sendAdd id add = .ok { cc with out := cc.out ++ addCalls id add } := by
  unfold sendAdd addCalls
  by_cases hzero : add = 0
  · rw [if_neg (not_not_intro hzero), if_neg (not_not_intro hzero), append_nil]
  have hlt := add.toInt_lt
  have hpos : add.toInt ≠ 0 := fun heq => hzero (Int32.toInt_inj.mp heq)
  have hnat := toNat_toUInt32 h
  have hnonneg : ¬ add < 0 := by
    rw [Int32.lt_iff_toInt_lt]
    show ¬ add.toInt < 0
    omega
  rw [if_pos hzero, if_pos hzero, mustUint31, if_neg hnonneg]
  show Except.ok (cc.send _) = _
  rw [send_windowUpdate cc id (by omega) (by omega)]

theorem sendAdd_panics (cc : ClientConn) (id : UInt32) (h : add.toInt < 0) :
    cc.sendAdd id add = .error (.panic "out of range") := by
  have hneg : add < 0 := Int32.lt_iff_toInt_lt.mpr h
  have hzero : add ≠ 0 := by
    rintro rfl
    exact absurd h (by decide)
  rw [sendAdd, if_pos hzero, mustUint31, if_pos hneg]
  rfl

/-- The only fault is the panic of `mustUint31`. -/
theorem creditRead_error {fault : Fault} (h : cc.creditRead cs err = .error fault) :
    fault = .panic "out of range" := by
  have hsend {cc : ClientConn} {id : UInt32} {add : Int32} (h : cc.sendAdd id add = .error fault) :
      fault = .panic "out of range" := by
    by_cases hneg : add.toInt < 0
    · rw [sendAdd_panics cc id hneg] at h
      cases h
      rfl
    · rw [sendAdd_ok cc id (Int.not_lt.mp hneg)] at h
      cases h
  unfold creditRead at h
  dsimp only at h
  cases hconn : sendAdd _ 0 cc.connAdd with
  | error e =>
    rw [hconn] at h
    cases h
    exact hsend hconn
  | ok cc₁ =>
    rw [hconn] at h
    exact hsend h

/-- Whatever the windows are, only they change, and only `WINDOW_UPDATE` frames are written. -/
theorem creditRead_refill (h : cc.creditRead cs err = .ok cc') :
    ∃ i n calls, cc' = cc.refill cs i n calls ∧ (∀ c ∈ calls, c.isData = false) ∧
      (0 ≤ (cc.stream cs).inflow.toInt → 0 ≤ n.toInt) := by
  have hsend {cc cc' : ClientConn} {id : UInt32} {add : Int32} (h : cc.sendAdd id add = .ok cc') :
      0 ≤ add.toInt ∧ ∃ calls, cc' = { cc with out := cc.out ++ calls } ∧
        ∀ c ∈ calls, c.isData = false := by
    by_cases hneg : add.toInt < 0
    · rw [sendAdd_panics cc id hneg] at h
      cases h
    rw [sendAdd_ok cc id (Int.not_lt.mp hneg)] at h
    cases h
    refine ⟨Int.not_lt.mp hneg, _, rfl, fun c hc => ?_⟩
    unfold addCalls at hc
    split at hc
    · rw [mem_singleton.mp hc]
      rfl
    · cases hc
  obtain ⟨cc₁, h₁, h₂⟩ := ok_of_bind h
  obtain ⟨-, calls₁, rfl, hcalls₁⟩ := hsend h₁
  obtain ⟨hnonneg, calls₂, rfl, hcalls₂⟩ := hsend h₂
  refine ⟨(Flow.add cc.inflow cc.connAdd).1, (Flow.add (cc.stream cs).inflow
    (if err.isNone then
      streamAdd { cc with inflow := (Flow.add cc.inflow cc.connAdd).1 } cs
    else 0)).1, calls₁ ++ calls₂, ?_, fun c hc => ?_, fun hinflow => add_nonneg hinflow hnonneg⟩
  · simp only [refill, update, append_assoc]
  · rcases mem_append.mp hc with hc | hc
    · exact hcalls₁ c hc
    · exact hcalls₂ c hc

section

variable (hconnFlow : cc.connFlow.toNat < 2 ^ 31)

include hconnFlow

theorem toInt_half : (cc.connFlow / 2).toInt32.toInt = (cc.connFlow.toNat / 2 : Nat) := by
  have hdiv : (cc.connFlow / 2).toNat = cc.connFlow.toNat / 2 := UInt32.toNat_div ..
  rw [toInt_toInt32 (by omega), hdiv]

/-- A window of the connection that is so far below zero that it cannot be refilled. -/
theorem creditRead_panics (h : 2 ^ 31 ≤ cc.connFlow.toNat - cc.inflow.toInt)
    (err : Option ClientError) : cc.creditRead cs err = .error (.panic "out of range") := by
  have hbound := cc.inflow.le_toInt
  have hflow := toInt_toInt32 hconnFlow
  have hhalf := toInt_half hconnFlow
  have hlt : cc.inflow < (cc.connFlow / 2).toInt32 := by
    rw [Int32.lt_iff_toInt_lt, hhalf]
    omega
  have hneg : cc.connAdd.toInt < 0 := by
    rw [connAdd, if_pos hlt, Int32.toInt_sub, hflow, Int.bmod_def]
    split <;> omega
  unfold creditRead
  dsimp only
  rw [sendAdd_panics _ _ hneg]
  rfl

theorem toInt_connAdd (hfits : cc.connFlow.toNat - cc.inflow.toInt < 2 ^ 31) :
    cc.connAdd.toInt = if cc.inflow.toInt < (cc.connFlow.toNat / 2 : Nat) then
      cc.connFlow.toNat - cc.inflow.toInt else 0 := by
  have hhalf := toInt_half hconnFlow
  have hflow := toInt_toInt32 hconnFlow
  have hbound := cc.inflow.toInt_lt
  unfold connAdd
  by_cases hlt : cc.inflow < (cc.connFlow / 2).toInt32
  · rw [if_pos hlt, if_pos (by rw [← hhalf]; exact Int32.lt_iff_toInt_lt.mp hlt),
      toInt_sub (by omega), hflow]
  · rw [if_neg hlt, if_neg (by rw [← hhalf, ← Int32.lt_iff_toInt_lt]; exact hlt)]
    rfl

end

/-- What `Read` gives back to a stream that lacks `u` bytes of its window. -/
def giveBack (cc : ClientConn) (u : Int) : Int :=
  if cc.initialWindowSize < 1048576 then if u > aggressiveThreshold then u else 0
  else if u > transportDefaultStreamMinRefresh ∧ u > ((cc.streamFlow.toNat / 2 : Nat) : Int) then u
  else 0

theorem giveBack_nonneg (cc : ClientConn) (u : Int) : 0 ≤ cc.giveBack u := by
  have hthreshold : aggressiveThreshold = 16384 := rfl
  unfold giveBack
  split
  · split <;> omega
  · split <;> omega

theorem giveBack_le (cc : ClientConn) {u v : Int} (huv : u ≤ v) (hv : 0 ≤ v) :
    cc.giveBack u ≤ v := by
  unfold giveBack
  split
  · split <;> omega
  · split <;> omega

theorem toInt_streamAdd (hstreamFlow : cc.streamFlow.toNat < 2 ^ 31)
    (hinflow : 0 ≤ cc.inflow.toInt) (hstream : 0 ≤ (cc.stream cs).inflow.toInt) :
    (cc.streamAdd cs).toInt = cc.giveBack (cc.unsent cs) := by
  have havail := toInt_available (cc.stream cs).inflow cc.inflow
  have hunsent : cc.unsent cs < 2 ^ 31 := by
    unfold unsent
    omega
  have hthreshold : aggressiveThreshold = 16384 := rfl
  have hhalf : (cc.streamFlow / 2).toNat = cc.streamFlow.toNat / 2 := UInt32.toNat_div ..
  unfold streamAdd giveBack
  dsimp only
  rw [hhalf]
  split
  · split
    · exact toInt_ofInt (by omega)
    · rfl
  · split
    · exact toInt_ofInt (by omega)
    · rfl

/-- The window of the connection after a `Read` has given back to it. -/
def refilled (cc : ClientConn) : Int :=
  if cc.inflow.toInt < (cc.connFlow.toNat / 2 : Nat) then cc.connFlow.toNat else cc.inflow.toInt

theorem inflow_le_refilled (cc : ClientConn) : cc.inflow.toInt ≤ cc.refilled := by
  unfold refilled
  split <;> omega

/-- What a stream lacks of its window, when the connection was refilled. -/
def lacks (cc : ClientConn) (cs : StreamRef) : Int :=
  cc.streamFlow.toNat - min (cc.stream cs).inflow.toInt cc.refilled - (cc.stream cs).bufPipe.len

/-- The flow control of a `Read`, when the connection can be refilled. -/
theorem creditRead_ok (hconnFlow : cc.connFlow.toNat < 2 ^ 31)
    (hstreamFlow : cc.streamFlow.toNat < 2 ^ 31)
    (hinflow : cc.connFlow.toNat - cc.inflow.toInt < 2 ^ 31)
    (hstream : 0 ≤ (cc.stream cs).inflow.toInt) (err : Option ClientError) :
    ∃ i conn stream : Int32,
      cc.creditRead cs err = .ok (cc.refill cs i (Flow.add (cc.stream cs).inflow stream).1
        (addCalls 0 conn ++ addCalls (cc.stream cs).id stream)) ∧
      i.toInt = cc.refilled ∧ conn.toInt = cc.refilled - cc.inflow.toInt ∧
      stream.toInt = if err.isNone then cc.giveBack (cc.lacks cs) else 0 := by
  have hbound := cc.inflow.toInt_lt
  have hconn := toInt_connAdd hconnFlow hinflow
  have hconn' : cc.connAdd.toInt = cc.refilled - cc.inflow.toInt := by
    unfold refilled
    split <;> omega
  have hrefilled : 0 ≤ cc.refilled ∧ cc.refilled < 2 ^ 31 := by
    unfold refilled
    split <;> omega
  have hfits : Flow.add cc.inflow cc.connAdd = (cc.inflow + cc.connAdd, true) :=
    add_of_fits (by omega)
  have hi : (cc.inflow + cc.connAdd).toInt = cc.refilled := by
    rw [toInt_add (by omega)]
    omega
  have hlacks : unsent { cc with inflow := cc.inflow + cc.connAdd } cs = cc.lacks cs := by
    unfold unsent lacks
    rw [toInt_available, hi]
  have hstreamAdd : (streamAdd { cc with inflow := cc.inflow + cc.connAdd } cs).toInt =
      cc.giveBack (unsent { cc with inflow := cc.inflow + cc.connAdd } cs) :=
    toInt_streamAdd hstreamFlow (hi ▸ hrefilled.1) hstream
  rw [hlacks] at hstreamAdd
  refine ⟨cc.inflow + cc.connAdd, cc.connAdd,
    if err.isNone then streamAdd { cc with inflow := cc.inflow + cc.connAdd } cs else 0,
    ?_, hi, hconn', ?_⟩
  · have hnonneg := cc.giveBack_nonneg (cc.lacks cs)
    unfold creditRead
    dsimp only
    rw [hfits, sendAdd_ok _ _ (by omega)]
    show sendAdd _ _ _ = _
    rw [sendAdd_ok]
    · simp only [refill, update, Function.update_self, append_assoc]
    · split
      · rw [hstreamAdd]
        exact hnonneg
      · exact Int.le_refl 0
  · split
    · exact hstreamAdd
    · rfl

/-! ## The other steps -/

theorem kept_closeReset (h : Wf cc) (cs : StreamRef) (serverSentStreamEnd : Bool) :
    ∃ cc₁, Kept cc cc₁ ∧ ∀ unread, cc.closeReset cs unread serverSentStreamEnd =
      if unread > 0 then
        { cc₁ with inflow := (Flow.add cc.inflow (Int32.ofNat unread)).1 }.send
          (.windowUpdate 0 (UInt32.ofNat unread))
      else cc₁ := by
  cases serverSentStreamEnd with
  | true => exact ⟨cc, .refl h, fun _ => rfl⟩
  | false =>
    have hreset : Kept cc (cc.send (.rstStream (cc.stream cs).id .cancel)) := .sent h rfl rfl
    exact ⟨_, hreset.trans (.update hreset.wf cs (f := fun s => { s with didReset := true })
      (.of_eq (.refl _))), fun _ => rfl⟩

theorem still_closeReset (h : Wf cc) (cs : StreamRef) (unread : Nat) (serverSentStreamEnd : Bool) :
    Still cc (cc.closeReset cs unread serverSentStreamEnd) := by
  obtain ⟨cc₁, hkept, heq⟩ := kept_closeReset h cs serverSentStreamEnd
  rw [heq]
  split
  · exact ⟨hkept.same.trans { Same.refl cc₁ with },
      hkept.ends.trans { Leaves.refl cc₁ with } fun _ h => h, hkept.loop⟩
  · exact ⟨hkept.same, hkept.ends, hkept.loop⟩

theorem still_creditRead (h : cc.creditRead cs err = .ok cc') : Still cc cc' := by
  obtain ⟨i, n, calls, rfl, -, -⟩ := creditRead_refill h
  exact ⟨same_refill .., ends_refill .., rfl⟩

theorem still_take (cc : ClientConn) (cs : StreamRef) (n conn : Int32) :
    Still cc ({ cc with flow := conn }.update cs fun s => { s with flow := n }) := by
  have hsame : Same cc { cc with flow := conn } := { Same.refl cc with }
  have hends : Leaves cc { cc with flow := conn } := { Leaves.refl cc with }
  exact ⟨hsame.trans (.update _ cs ⟨rfl, rfl, fun h => h⟩),
    hends.trans (.update _ cs fun h => h) fun _ h => h, rfl⟩

theorem kept_closeBreak (h : Wf cc) (cs : StreamRef) : Kept cc (cc.closeBreak cs) :=
  .update h cs (.of_eq (Pipe.shrinks_breakWithError _ _))

theorem kept_cancelMark (h : Wf cc) (cs : StreamRef) : Kept cc (cc.cancelMark cs).2 :=
  Kept.update h cs (f := fun s => { s with didReset := true }) (.of_eq (.refl _))

section

variable (cc : ClientConn) (err : ClientError)

/-- The streams after `closeForError`.  They leave the map and are not done. -/
theorem stream_closeForError (cs : StreamRef) :
    KeptStream (cc.stream cs) ((cc.closeForError err).stream cs) := by
  show KeptStream _ (ite _ _ _)
  split
  · exact (KeptStream.trySend _ err).trans (.closePipe _ err)
  · exact .refl _

theorem same_closeForError : Same cc (cc.closeForError err) :=
  { Same.refl cc with
    streams := nil_subset _
    stream := fun cs => (cc.stream_closeForError err cs).toSameStream }

theorem recv_closeForError : SameRecv cc (cc.closeForError err) :=
  { SameRecv.refl cc with
    streamInflow := fun cs => (cc.stream_closeForError err cs).inflow
    pipe := fun cs => (cc.stream_closeForError err cs).pipe }

end

theorem wf_closeForError (h : Wf cc) (err : ClientError) : Wf (cc.closeForError err) where
  allocated := fun _ hcs => absurd hcs not_mem_nil
  unallocated := fun cs hcs => by
    rw [((same_closeForError cc err).stream cs).id]
    exact h.unallocated cs hcs
  unique := fun _ hcs => absurd hcs not_mem_nil
  requested := fun hloop cs hcs => by
    rw [((same_closeForError cc err).stream cs).req]
    exact h.requested hloop cs hcs
  notDone := fun _ _ hcs => absurd hcs not_mem_nil
  closed := fun _ => rfl
  empty := fun _ => .inr rfl
  trailer := fun cs => (cc.stream_closeForError err cs).result (h.trailer cs)
  ready := h.ready.imp rfl fun cs => ((same_closeForError cc err).stream cs).answered

end ClientConn

theorem mem_blockCalls {fn : FragmentCall} {c : WriteCall} (pieces : List Bytes) {first : Bool}
    (h : c ∈ blockCalls fn first pieces) : ∃ frag first last, c = fn frag first last := by
  induction pieces generalizing first with
  | nil => cases h
  | cons frag frags ih =>
    rcases mem_cons.mp h with rfl | hmem
    · exact ⟨_, _, _, rfl⟩
    · exact ih hmem

/-- `writeHeaders` returns or does not end.  Its calls are not part of flow control. -/
theorem writeHeaders_flow (headerPriority : Option PriorityParam) (streamID : UInt32)
    (endStream : Bool) (maxFrameSize : Nat) (hdrs : Bytes) :
    Outcome (· = .diverges) (fun calls => ∀ c ∈ calls, c.isWindowUpdate = false ∧ c.isData = false)
      (ClientConn.writeHeaders headerPriority streamID endStream maxFrameSize hdrs) := by
  rw [ClientConn.writeHeaders, ClientConn.writeHeadersLoop_eq]
  have hcalls (pieces : List Bytes) : ∀ c ∈
      blockCalls (headersCall headerPriority streamID endStream) true pieces,
      c.isWindowUpdate = false ∧ c.isData = false := by
    intro c hc
    obtain ⟨frag, first, last, rfl⟩ := mem_blockCalls pieces hc
    cases first <;> exact ⟨rfl, rfl⟩
  rcases Nat.eq_zero_or_pos maxFrameSize with rfl | hpos
  · cases hdrs with
    | nil => exact hcalls []
    | cons b hdrs =>
      rw [Lib.Fragments.split_zero _ (cons_ne_nil b hdrs)]
      rfl
  · obtain ⟨pieces, hsplit, -⟩ := Lib.Fragments.split_ok hpos (Nat.le_refl hdrs.length)
    rw [hsplit]
    exact hcalls pieces

namespace ClientConn

variable {cc : ClientConn}

theorem kept_sends {calls : List WriteCall}
    (hcalls : ∀ c ∈ calls, c.isWindowUpdate = false ∧ c.isData = false) (h : Wf cc) :
    Kept cc (calls.foldl send cc) := by
  induction calls generalizing cc with
  | nil => exact .refl h
  | cons c calls ih =>
    have hc := hcalls c mem_cons_self
    have hsent : Kept cc (cc.send c) := .sent h hc.1 hc.2
    exact hsent.trans (ih (fun c hmem => hcalls c (mem_cons_of_mem _ hmem)) hsent.wf)

theorem startRequest_spec (h : Wf cc) (hclosed : cc.closed = false) (r : EncodedRequest) :
    Outcome (· = .diverges)
      (fun res => res.1 = cc.nextRef ∧ ∃ cc₁, Created cc cc₁ cc.nextStreamID (some r.req) ∧
        Kept cc₁ res.2)
      (cc.startRequest r) := by
  have hloop : cc.loop ≠ .stopped := fun hl => by
    have := h.closed hl
    rw [hclosed] at this
    cases this
  have hnew : Created cc ({ cc with henc := r.henc }.newStream).2 cc.nextStreamID none :=
    { created_newStreamWithID { cc with henc := r.henc } cc.nextStreamID true with }
  have hcreated := hnew.update r.req
  have hwf := hcreated.wf h hloop hclosed
  refine (writeHeaders_flow ..).bind fun calls hcalls => ⟨rfl, _, hcreated, ?_⟩
  exact kept_sends hcalls hwf

/-- What flow control allows is not more than what is available. -/
theorem allowance_le (cc : ClientConn) (a : Int32) (maxBytes : Nat) :
    cc.allowance a maxBytes ≤ a := by
  have hcap (b : Int32) :
      (if b > cc.maxFrameSize.toInt32 then cc.maxFrameSize.toInt32 else b) ≤ b := by
    split
    · exact Int32.le_of_lt ‹_›
    · exact Int32.le_refl b
  have hbytes : (if a.toInt > maxBytes then Int32.ofNat maxBytes else a) ≤ a := by
    split
    · have hlt := a.toInt_lt
      rw [Int32.le_iff_toInt_le, Int32.toInt_ofNat_of_lt (by omega)]
      omega
    · exact Int32.le_refl a
  exact Int32.le_trans (hcap _) hbytes

/-- What flow control allows, when the frame size of the peer is an `int32`. -/
theorem toInt_allowance (hmax : cc.maxFrameSize.toNat < 2 ^ 31) (a : Int32) (maxBytes : Nat) :
    (cc.allowance a maxBytes).toInt = min (min a.toInt maxBytes) cc.maxFrameSize.toNat := by
  have hlt := a.toInt_lt
  have hframe := toInt_toInt32 hmax
  have hbytes : (if a.toInt > maxBytes then Int32.ofNat maxBytes else a).toInt =
      min a.toInt maxBytes := by
    split
    · rw [Int32.toInt_ofNat_of_lt (by omega)]
      omega
    · omega
  unfold allowance
  dsimp only
  generalize (if a.toInt > maxBytes then Int32.ofNat maxBytes else a) = take at hbytes
  split
  · rename_i hbig
    have hlt := Int32.lt_iff_toInt_lt.mp hbig
    omega
  · rename_i hsmall
    have hle := Int32.le_iff_toInt_le.mp (Int32.not_lt.mp hsmall)
    omega

/-- `awaitFlowControl` never takes more than there is. -/
theorem awaitFlowControl_spec (cc : ClientConn) (cs : StreamRef) (maxBytes : Nat) :
    Returns (fun r => r.2 = cc ∧ (∀ n, r.1 ≠ some (.ok n)) ∨ ∃ n conn : Int32,
      r.1 = some (.ok (cc.allowance (available (cc.stream cs).flow cc.flow) maxBytes)) ∧
      available (cc.stream cs).flow cc.flow > 0 ∧
      Flow.take (cc.stream cs).flow cc.flow
        (cc.allowance (available (cc.stream cs).flow cc.flow) maxBytes) = .ok (n, conn) ∧
      r.2 = { cc with flow := conn }.update cs fun s => { s with flow := n })
      (cc.awaitFlowControl cs maxBytes) := by
  unfold awaitFlowControl
  split
  · exact .inl ⟨rfl, nofun⟩
  split
  · exact .inl ⟨rfl, nofun⟩
  split
  · exact .inl ⟨rfl, nofun⟩
  dsimp only
  split
  · rename_i hpos
    have hle := cc.allowance_le (available (cc.stream cs).flow cc.flow) maxBytes
    rw [Flow.take_eq hle]
    exact .inr ⟨_, _, rfl, hpos, rfl, rfl⟩
  · exact .inl ⟨rfl, nofun⟩

end ClientConn

/-! ## Events -/

variable {α : Type} {i : Nat} {t : Transport}

/-- An element that does not count is removed. -/
theorem filter_eraseIdx_of_not {p : α → Bool} {l : List α} {a : α} (ha : l[i]? = some a)
    (hp : p a = false) : (l.eraseIdx i).filter p = l.filter p := by
  induction l generalizing i with
  | nil => rfl
  | cons x l ih =>
    cases i with
    | zero =>
      cases ha
      rw [eraseIdx_cons_zero, filter_cons_of_neg (by simp [hp])]
    | succ i => rw [eraseIdx_cons_succ, filter_cons, filter_cons, ih ha]

/-- An element that does not count is replaced by another one. -/
theorem filter_set_of_not {p : α → Bool} {l : List α} {a b : α} (ha : l[i]? = some a)
    (hp : p a = false) (hb : p b = false) : (l.set i b).filter p = l.filter p := by
  induction l generalizing i with
  | nil => rfl
  | cons x l ih =>
    cases i with
    | zero =>
      cases ha
      rw [set_cons_zero, filter_cons_of_neg (by simp [hb]), filter_cons_of_neg (by simp [hp])]
    | succ i => rw [set_cons_succ, filter_cons, filter_cons, ih ha]

/-- The events of a run: a frame is one that the framer delivers. -/
def ClientEvent.Delivered : ClientEvent → Prop
  | .receive _ (.ok f) => f.Delivered
  | _ => True

instance ClientEvent.decidableDelivered : DecidablePred ClientEvent.Delivered
  | .receive _ (.ok f) => inferInstanceAs (Decidable f.Delivered)
  | .receive _ (.error _) | .resume | .roundTrip .. | .result .. | .leave .. | .abortBody ..
  | .awaitFlow .. | .read .. | .start .. | .step .. | .closeForError .. | .closeIfIdle | .sendGoAway
  | .ping .. => isTrue trivial

def Task.isWriteData : Task → Bool
  | .writeData .. => true
  | _ => false

namespace Client

/-- What keeps a client from a panic, besides its windows. -/
structure Wf (s : Client) : Prop where
  conn : Http2.Wf s.cc
  bodies : ∀ cs ∈ s.bodies, (s.cc.stream cs).Answered
  credit : ∀ cs err, Task.credit cs err ∈ s.tasks → cs ∈ s.bodies

/-- How an event may fail: `creditRead` and the slice of what `awaitFlowControl` allows may
panic, and the loop of `writeHeaders` may not end. -/
def MayFail (s : Client) (e : ClientEvent) (fault : Fault) : Prop :=
  match e with
  | .awaitFlow .. =>
    fault = .panic "slice bounds out of range" ∧ 2 ^ 31 ≤ s.cc.maxFrameSize.toNat
  | .roundTrip .. => fault = .diverges
  | .step i => ∃ cs err, s.tasks[i]? = some (.credit cs err) ∧ s.cc.creditRead cs err = .error fault
  | _ => False

/-- The history after a result of the framer. -/
def received (s : Client) (res : Except Error Frame) : History :=
  match s.cc.loop, res with
  | .running, .ok f => s.hist.receive s.cc f
  | _, _ => s.hist

/-- What an event can do. -/
inductive Stepped (s : Client) : ClientEvent → Client → Prop
  | received {outside : ClientConn.Outside} {res : Except Error Frame} {cc' : ClientConn}
    (h : ClientConn.Received s.cc outside res cc') :
    Stepped s (.receive outside res)
      { s with cc := cc', hist := (s.received res).remove s.cc cc' }
  | resumed {cc' : ClientConn} (h : Resumed s.cc cc') :
    Stepped s .resume { s with cc := cc', hist := s.hist.remove s.cc cc' }
  | created {r : EncodedRequest} {pendingRequests : Nat} {tooIdle : Bool}
    {cc₁ cc' : ClientConn} (hclosed : s.cc.closed = false)
    (hcreated : Created s.cc cc₁ s.cc.nextStreamID (some r.req)) (hkept : Kept cc₁ cc') :
    Stepped s (.roundTrip r pendingRequests tooIdle)
      { s with
        cc := cc'
        waiting := s.cc.nextRef :: s.waiting
        hist := { s.hist with requests := s.cc.nextRef :: s.hist.requests } }
  | awaited {cs : StreamRef} {remain : Bytes} {endStream : Bool} {take n conn : Int32}
    (havailable : available (s.cc.stream cs).flow s.cc.flow > 0)
    (hallowance : take =
      s.cc.allowance (available (s.cc.stream cs).flow s.cc.flow) remain.length)
    (htake : Flow.take (s.cc.stream cs).flow s.cc.flow take = .ok (n, conn))
    (hnonneg : ¬ take < 0) :
    Stepped s (.awaitFlow cs remain endStream)
      { s with
        cc := { s.cc with flow := conn }.update cs fun s => { s with flow := n }
        tasks := s.tasks ++ [.writeData cs (remain.take take.toInt.toNat) endStream]
        hist := s.hist.take cs take }
  | credited {i : Nat} {cs : StreamRef} {err : Option ClientError} {cc' : ClientConn}
    (htask : s.tasks[i]? = some (.credit cs err)) (hcredit : s.cc.creditRead cs err = .ok cc') :
    Stepped s (.step i) { s with cc := cc', tasks := s.tasks.eraseIdx i }
  | closeReset {i : Nat} {cs : StreamRef} {unread : Nat} {serverSentStreamEnd : Bool}
    (htask : s.tasks[i]? = some (.closeReset cs unread serverSentStreamEnd)) :
    Stepped s (.step i)
      { s with
        cc := s.cc.closeReset cs unread serverSentStreamEnd
        tasks := s.tasks.set i (.closeBreak cs) }
  | wrote {i : Nat} {cs : StreamRef} {data : Bytes} {endStream : Bool}
    (htask : s.tasks[i]? = some (.writeData cs data endStream)) :
    Stepped s (.step i)
      { s with
        cc := s.cc.send (.data (s.cc.stream cs).id endStream data none)
        tasks := s.tasks.eraseIdx i }
  | closedForError {err : ClientError} :
    Stepped s (.closeForError err) { s with cc := s.cc.closeForError err }
  | quiet {e : ClientEvent} {cc' : ClientConn} {tasks : List Task} {waiting bodies : List StreamRef}
    (hquiet : Quiet s.cc cc') (hloop : cc'.loop = s.cc.loop)
    (htasks : tasks.filter Task.isWriteData = s.tasks.filter Task.isWriteData)
    (hcredit : ∀ cs err, Task.credit cs err ∈ tasks →
      Task.credit cs err ∈ s.tasks ∨ 0 < (s.cc.stream cs).bufPipe.len) :
    Stepped s e { s with cc := cc', tasks := tasks, waiting := waiting, bodies := bodies }

variable {s s' : Client}

section

variable (h : s.Wf)

include h

theorem Wf.bodies_lt {cs : StreamRef} (hcs : cs ∈ s.bodies) : cs < s.cc.nextRef := by
  refine Nat.lt_of_not_le fun hle => ?_
  exact (h.bodies cs hcs).2 (h.conn.unallocated cs hle)

variable {cc' : ClientConn}

/-- The invariant after a change of the connection that keeps its streams. -/
theorem Wf.of_grows (hconn : Http2.Wf cc') (hgrows : Grows s.cc cc') {tasks : List Task}
    (htasks : ∀ cs err, Task.credit cs err ∈ tasks → cs ∈ s.bodies) {waiting : List StreamRef}
    {hist : History} :
    Wf { s with cc := cc', tasks := tasks, waiting := waiting, hist := hist } where
  conn := hconn
  bodies := fun cs hcs => (hgrows.stream cs (h.bodies_lt hcs)).answered (h.bodies cs hcs)
  credit := htasks

/-- An event that is quiet and leaves the tasks alone. -/
theorem stepped_quiet {e : ClientEvent} {cc' : ClientConn} (hkept : Kept s.cc cc')
    {waiting : List StreamRef} :
    Wf { s with cc := cc', waiting := waiting } ∧
      s.Stepped e { s with cc := cc', waiting := waiting } :=
  ⟨h.of_grows hkept.wf hkept.same.grows h.credit,
    .quiet hkept.toQuiet hkept.loop rfl fun _ _ => .inl⟩

/-- A step of a task that is quiet. -/
theorem stepTask_quiet {i : Nat} {t : Task} (htask : s.tasks[i]? = some t)
    (hdata : t.isWriteData = false) {next : Option Task} (hstep : t.step s.cc = .ok (next, cc'))
    (hkept : Kept s.cc cc')
    (hnext : ∀ t' ∈ next, t'.isWriteData = false ∧ ∀ cs err, t' ≠ .credit cs err) :
    Returns (fun s' => s'.Wf ∧ s.Stepped (.step i) s') (s.stepTask i) := by
  unfold stepTask
  rw [htask]
  dsimp only
  rw [hstep]
  cases next with
  | none =>
    refine ⟨h.of_grows hkept.wf hkept.same.grows fun cs err hmem => ?_, ?_⟩
    · exact h.credit cs err (mem_of_mem_eraseIdx hmem)
    · refine .quiet hkept.toQuiet hkept.loop (filter_eraseIdx_of_not htask hdata) ?_
      exact fun cs err hmem => .inl (mem_of_mem_eraseIdx hmem)
  | some t' =>
    obtain ⟨hdata', hcredit⟩ := hnext t' rfl
    have hold (cs err) (hmem : Task.credit cs err ∈ s.tasks.set i t') : .credit cs err ∈ s.tasks :=
      (mem_or_eq_of_mem_set hmem).resolve_right fun hnew => hcredit cs err hnew.symm
    refine ⟨h.of_grows hkept.wf hkept.same.grows fun cs err hmem => ?_, ?_⟩
    · exact h.credit cs err (hold cs err hmem)
    · refine .quiet hkept.toQuiet hkept.loop (filter_set_of_not htask hdata hdata') ?_
      exact fun cs err hmem => .inl (hold cs err hmem)

theorem stepTask_spec (i : Nat) :
    Outcome (s.MayFail (.step i)) (fun s' => s'.Wf ∧ s.Stepped (.step i) s') (s.stepTask i) := by
  have hquiet {x : Except Fault Client}
      (hx : Returns (fun s' => s'.Wf ∧ s.Stepped (.step i) s') x) :
      Outcome (s.MayFail (.step i)) (fun s' => s'.Wf ∧ s.Stepped (.step i) s') x :=
    hx.weaken fun _ hfalse => hfalse.elim
  have hcancelled {cs : StreamRef} {after : Option ClientError} :
      ∀ t' ∈ Task.cancelled cs after, t'.isWriteData = false ∧ ∀ cs err, t' ≠ .credit cs err := by
    intro t' ht'
    cases after with
    | none => cases ht'
    | some err =>
      cases ht'
      exact ⟨rfl, nofun⟩
  cases htask : s.tasks[i]? with
  | none =>
    rw [stepTask, htask]
    exact stepped_quiet h (.refl h.conn)
  | some t =>
    cases t with
    | cancel cs after =>
      refine hquiet (stepTask_quiet h htask rfl rfl (kept_cancelMark h.conn cs) ?_)
      split
      · rintro _ ⟨⟩
        exact ⟨rfl, nofun⟩
      · exact hcancelled
    | cancelReset cs after =>
      refine hquiet (stepTask_quiet h htask rfl rfl (.sent h.conn rfl rfl) ?_)
      rintro _ ⟨⟩
      exact ⟨rfl, nofun⟩
    | cancelForget cs after =>
      have hstep : Task.step s.cc (.cancelForget cs after) =
          .ok (Task.cancelled cs after, s.cc.without (s.cc.stream cs).id true) := by
        rw [Task.step, forgetStreamID_eq h.conn]
        rfl
      exact hquiet (stepTask_quiet h htask rfl hstep (kept_without h.conn _ true)
        hcancelled)
    | closePipe cs err =>
      exact hquiet (stepTask_quiet h htask rfl rfl (.update h.conn cs (.closePipe _ err)) nofun)
    | close cs =>
      cases hcheck : s.cc.closeCheck cs with
      | none =>
        have hstep : Task.step s.cc (.close cs) = .ok (none, s.cc) := by
          rw [Task.step, hcheck]
        exact hquiet (stepTask_quiet h htask rfl hstep (.refl h.conn) nofun)
      | some r =>
        have hstep : Task.step s.cc (.close cs) =
            .ok (some (if r.1 > 0 ∨ !r.2 then .closeReset cs r.1 r.2 else .closeBreak cs),
              s.cc) := by
          rw [Task.step, hcheck]
          dsimp only
          split <;> rfl
        refine hquiet (stepTask_quiet h htask rfl hstep (.refl h.conn) ?_)
        rintro _ ⟨⟩
        split <;> exact ⟨rfl, nofun⟩
    | closeReset cs unread serverSentStreamEnd =>
      rw [stepTask, htask]
      obtain ⟨cc₁, hkept, heq⟩ := kept_closeReset h.conn cs serverSentStreamEnd
      have hwf : Http2.Wf (s.cc.closeReset cs unread serverSentStreamEnd) := by
        rw [heq]
        split
        · exact hkept.wf.congr
        · exact hkept.wf
      refine ⟨h.of_grows hwf (still_closeReset h.conn ..).same.grows
        fun cs' err hmem => ?_, .closeReset htask⟩
      rcases mem_or_eq_of_mem_set hmem with hold | hnew
      · exact h.credit cs' err hold
      · cases hnew
    | closeBreak cs =>
      refine hquiet (stepTask_quiet h htask rfl rfl (kept_closeBreak h.conn cs) ?_)
      rintro _ ⟨⟩
      exact ⟨rfl, nofun⟩
    | forget cs =>
      have hstep : Task.step s.cc (.forget cs) =
          .ok (none, s.cc.without (s.cc.stream cs).id true) := by
        rw [Task.step, forgetStreamID_eq h.conn]
        rfl
      exact hquiet (stepTask_quiet h htask rfl hstep (kept_without h.conn _ true) nofun)
    | reset cs code =>
      exact hquiet (stepTask_quiet h htask rfl rfl (.sent h.conn rfl rfl) nofun)
    | credit cs err =>
      rw [stepTask, htask]
      cases hcredit : s.cc.creditRead cs err with
      | error fault =>
        dsimp only
        rw [Task.step, hcredit]
        exact ⟨cs, err, htask, hcredit⟩
      | ok cc' =>
        dsimp only
        rw [Task.step, hcredit]
        obtain ⟨i', n, calls, rfl, -, -⟩ := creditRead_refill hcredit
        refine ⟨h.of_grows (wf_refill h.conn ..) (same_refill ..).grows
          fun cs' err' hmem => ?_, .credited htask hcredit⟩
        exact h.credit cs' err' (mem_of_mem_eraseIdx hmem)
    | writeData cs data endStream =>
      rw [stepTask, htask]
      have hwf : Http2.Wf (s.cc.send (.data (s.cc.stream cs).id endStream data none)) :=
        h.conn.congr
      have hsame : Same s.cc (s.cc.send (.data (s.cc.stream cs).id endStream data none)) :=
        { Same.refl s.cc with }
      refine ⟨h.of_grows hwf hsame.grows fun cs' err' hmem => ?_, .wrote htask⟩
      exact h.credit cs' err' (mem_of_mem_eraseIdx hmem)

theorem receive_spec (outside : ClientConn.Outside) {res : Except Error Frame}
    (hdel : ∀ f, res = .ok f → f.Delivered) :
    Returns (fun s' => s'.Wf ∧ s.Stepped (.receive outside res) s') (s.receive outside res) := by
  refine (ClientConn.receive_spec h.conn outside hdel).bind fun cc' hcc' => ?_
  exact ⟨h.of_grows hcc'.1 (hcc'.2.grows h.conn) h.credit, .received hcc'.2⟩

theorem roundTrip_spec (r : EncodedRequest) (pendingRequests : Nat) (tooIdle : Bool) :
    Outcome (· = .diverges)
      (fun s' => s'.Wf ∧ s.Stepped (.roundTrip r pendingRequests tooIdle) s')
      (s.roundTrip r pendingRequests tooIdle) := by
  unfold roundTrip
  split
  · rename_i hadmits
    have hclosed : s.cc.closed = false := by
      simp only [admits, canTakeNewRequest] at hadmits
      split at hadmits
      · simp at hadmits
      · simp only [Bool.and_eq_true] at hadmits
        simpa using hadmits.1.1.1.1.1.2
    refine (startRequest_spec h.conn hclosed r).bind ?_
    rintro ⟨cs, cc'⟩ ⟨rfl, cc₁, hcreated, hkept⟩
    refine ⟨h.of_grows hkept.wf (hcreated.grows.trans hkept.same.grows) h.credit, ?_⟩
    exact .created hclosed hcreated hkept
  · exact stepped_quiet h (.refl h.conn)

theorem result_spec (cs : StreamRef) : (s.result cs).Wf ∧ s.Stepped (.result cs) (s.result cs) := by
  unfold result
  cases hresc : (s.cc.stream cs).resc with
  | none => exact stepped_quiet h (.refl h.conn)
  | some re =>
    have hkept : Kept s.cc (s.cc.update cs fun s => { s with resc := none }) := by
      refine .update h.conn cs ⟨⟨⟨rfl, rfl, fun h => h⟩, rfl, rfl, .refl _, fun h => h⟩, rfl, ?_⟩
      intro _ res hres
      cases hres
    refine ⟨⟨hkept.wf, fun cs' hcs' => ?_, fun cs' err hmem => ?_⟩,
      .quiet hkept.toQuiet rfl rfl fun _ _ => .inl⟩
    · refine (hkept.same.stream cs').answered ?_
      cases re with
      | err e => exact h.bodies cs' hcs'
      | res res =>
        dsimp only at hcs'
        split at hcs'
        · rcases mem_cons.mp hcs' with rfl | hold
          · exact h.conn.trailer cs' res hresc
          · exact h.bodies cs' hold
        · exact h.bodies cs' hcs'
    · have hold := h.credit cs' err hmem
      cases re with
      | err e => exact hold
      | res res =>
        dsimp only
        split
        · exact mem_cons_of_mem _ hold
        · exact hold

theorem read_spec (cs : StreamRef) (n : Nat) :
    Returns (fun s' => s'.Wf ∧ s.Stepped (.read cs n) s') (s.read cs n) := by
  unfold read
  split
  · rename_i hcs
    refine (kept_readBody h.conn (h.bodies cs hcs.1) n).bind fun res hres => ?_
    cases res with
    | none => exact stepped_quiet h (.refl h.conn)
    | some x =>
      obtain ⟨r, cc'⟩ := x
      obtain ⟨hkept, -, hlen⟩ := hres r cc' rfl
      have hnew (cs' err) (hmem : Task.credit cs' err ∈
          if r.tokens then s.tasks ++ [.credit cs r.err] else s.tasks) :
          Task.credit cs' err ∈ s.tasks ∨ cs' = cs ∧ r.tokens = true := by
        split at hmem
        · rename_i htokens
          rcases mem_append.mp hmem with hold | hnew
          · exact .inl hold
          · cases mem_singleton.mp hnew
            exact .inr ⟨rfl, htokens⟩
        · exact .inl hmem
      refine ⟨h.of_grows hkept.wf hkept.same.grows fun cs' err hmem => ?_,
        .quiet hkept.toQuiet hkept.loop ?_ fun cs' err hmem => ?_⟩
      · rcases hnew cs' err hmem with hold | ⟨rfl, -⟩
        · exact h.credit cs' err hold
        · exact hcs.1
      · split
        · rw [filter_append]
          exact append_nil _
        · rfl
      · rcases hnew cs' err hmem with hold | ⟨rfl, htokens⟩
        · exact .inl hold
        · exact .inr (hlen htokens)
  · exact stepped_quiet h (.refl h.conn)

theorem awaitFlow_spec (cs : StreamRef) (remain : Bytes) (endStream : Bool) :
    Outcome (s.MayFail (.awaitFlow cs remain endStream))
      (fun s' => s'.Wf ∧ s.Stepped (.awaitFlow cs remain endStream) s')
      (s.awaitFlow cs remain endStream) := by
  refine ((s.cc.awaitFlowControl_spec cs remain.length).weaken fun _ hfalse => hfalse.elim).bind ?_
  rintro ⟨res, cc'⟩ (⟨hcc, hres⟩ | ⟨n, conn, hres, havailable, htake, hcc⟩)
  · have hsame : Outcome (s.MayFail (.awaitFlow cs remain endStream))
        (fun s' => s'.Wf ∧ s.Stepped (.awaitFlow cs remain endStream) s')
        (.ok { s with cc := cc' } : Except Fault Client) := by
      rw [show cc' = s.cc from hcc]
      exact stepped_quiet h (.refl h.conn)
    cases res with
    | none => exact hsame
    | some r =>
      cases r with
      | error e => exact hsame
      | ok n => exact absurd rfl (hres n)
  · generalize htaken : s.cc.allowance (available (s.cc.stream cs).flow s.cc.flow)
      remain.length = taken at hres htake
    obtain rfl : res = some (.ok taken) := hres
    show Outcome _ _ (ite (taken < 0) _ _)
    split
    · rename_i hneg
      refine ⟨rfl, Nat.le_of_not_lt fun hlt => ?_⟩
      have hallow := toInt_allowance hlt
        (available (s.cc.stream cs).flow s.cc.flow) remain.length
      have hpos := Int32.lt_iff_toInt_lt.mp havailable
      have hneg := Int32.lt_iff_toInt_lt.mp hneg
      have hzero : (0 : Int32).toInt = 0 := rfl
      rw [htaken] at hallow
      omega
    · rename_i hnonneg
      have hwf : Http2.Wf { s.cc with flow := conn } := h.conn.congr
      obtain rfl : cc' = _ := hcc
      refine ⟨h.of_grows (hwf.update cs ⟨rfl, rfl, fun h => h⟩ rfl (h.conn.trailer cs))
        (s.cc.still_take cs n conn).same.grows fun cs' err hmem => ?_,
        .awaited havailable htaken.symm htake hnonneg⟩
      rcases mem_append.mp hmem with hold | hnew
      · exact h.credit cs' err hold
      · cases mem_singleton.mp hnew

theorem start_spec (t : Task) :
    Wf (if s.startable t then { s with tasks := s.tasks ++ [t] } else s) ∧
      s.Stepped (.start t) (if s.startable t then { s with tasks := s.tasks ++ [t] } else s) := by
  split
  · rename_i hstart
    have hold (cs err) (hmem : Task.credit cs err ∈ s.tasks ++ [t]) : .credit cs err ∈ s.tasks := by
      rcases mem_append.mp hmem with hold | hnew
      · exact hold
      · cases mem_singleton.mp hnew
        cases hstart
    refine ⟨h.of_grows h.conn (Same.refl s.cc).grows fun cs err hmem => ?_,
      .quiet (.refl _) rfl ?_ fun cs err hmem => .inl (hold cs err hmem)⟩
    · exact h.credit cs err (hold cs err hmem)
    · rw [filter_append, filter_singleton]
      cases t with
      | writeData => cases hstart
      | _ => exact append_nil _
  · exact stepped_quiet h (.refl h.conn)

/-- What an event does to a client, and how it may fail. -/
theorem step_spec {e : ClientEvent} (hdel : e.Delivered) :
    Outcome (s.MayFail e) (fun s' => s'.Wf ∧ s.Stepped e s') (s.step e) := by
  cases e with
  | receive outside res =>
    refine (receive_spec h outside ?_).weaken fun _ hfalse => hfalse
    rintro f rfl
    exact hdel
  | resume =>
    refine (resume_spec h.conn).bind fun cc' hcc' => ?_
    exact ⟨h.of_grows hcc'.1 hcc'.2.same.grows h.credit, .resumed hcc'.2⟩
  | roundTrip r pendingRequests tooIdle => exact roundTrip_spec h r pendingRequests tooIdle
  | result cs => exact result_spec h cs
  | leave cs =>
    exact stepped_quiet h (.refl h.conn)
  | abortBody cs err =>
    exact stepped_quiet h (Kept.update h.conn cs (f := fun s => { s with stopReqBody := some err })
      (.of_eq (.refl _)))
  | awaitFlow cs remain endStream => exact awaitFlow_spec h cs remain endStream
  | read cs n => exact (read_spec h cs n).weaken fun _ hfalse => hfalse
  | start t => exact start_spec h t
  | step i => exact stepTask_spec h i
  | closeForError err =>
    exact ⟨h.of_grows (wf_closeForError h.conn err)
      (same_closeForError s.cc err).grows h.credit, .closedForError⟩
  | closeIfIdle =>
    have hquiet := quiet_closeIfIdle s.cc
    refine stepped_quiet h ⟨hquiet, wf_closeIfIdle h.conn, ?_⟩
    unfold closeIfIdle
    split <;> rfl
  | sendGoAway =>
    show Wf s.sendGoAway ∧ s.Stepped _ s.sendGoAway
    unfold sendGoAway
    split
    · exact stepped_quiet h (.refl h.conn)
    · have hsent := Kept.sent (c := .goAway s.cc.nextStreamID .no []) h.conn rfl rfl
      have hclosing : Kept s.cc
          { s.cc.send (.goAway s.cc.nextStreamID .no []) with closing := true } :=
        hsent.trans ⟨.of_stream (fun h => h) fun _ => .refl _, hsent.wf.congr, rfl⟩
      exact stepped_quiet h hclosing
  | ping data =>
    have hsent := Kept.sent (c := .ping false data) h.conn rfl rfl
    have hping : Kept s.cc { s.cc.send (.ping false data) with pings := data :: s.cc.pings } :=
      hsent.trans ⟨.of_stream (fun h => h) fun _ => .refl _, hsent.wf.congr, rfl⟩
    exact stepped_quiet h hping

end

/-! ## Runs -/

/-- An invariant that every event keeps, as long as a condition holds, holds after a run. -/
theorem run_invariant {I : Client → Prop} {cond : Client → ClientEvent → Prop}
    (hstep : ∀ {s e s'}, s.Wf → I s → e.Delivered → cond s e → s.Stepped e s' → I s')
    (hwf : s.Wf) (hI : I s) {events : List ClientEvent} (hdel : ∀ e ∈ events, e.Delivered)
    (halways : Lib.Run.Always step cond s events) (hrun : s.run events = .ok s') :
    s'.Wf ∧ I s' := by
  have hends : Yields _ (s.run events) := Lib.Run.outcome_of_rest
    (J := fun s rest => (s.Wf ∧ I s) ∧ (∀ e ∈ rest, e.Delivered) ∧ Lib.Run.Always step cond s rest)
    ?_ ⟨⟨hwf, hI⟩, hdel, halways⟩
  · exact (hends.of_ok hrun).1
  rintro s e rest ⟨⟨hwf, hI⟩, hdel, halways⟩
  refine yields_iff.mpr fun s₁ hs₁ => ?_
  have hdel₁ := hdel e mem_cons_self
  have hspec := (step_spec hwf hdel₁).of_ok hs₁
  exact ⟨⟨hspec.1, hstep hwf hI hdel₁ halways.1 hspec.2⟩,
    fun e he => hdel e (mem_cons_of_mem _ he), halways.rest hs₁⟩

end Client

/-- A new client. -/
structure Client.Fresh (t : Transport) (s : Client) : Prop where
  tasks : s.tasks = []
  waiting : s.waiting = []
  bodies : s.bodies = []
  hist : s.hist = {}
  streams : s.cc.streams = []
  stream : s.cc.stream = fun _ => { id := 0 }
  nextRef : s.cc.nextRef = 0
  loop : s.cc.loop = .running
  closed : s.cc.closed = false
  goAway : s.cc.goAway = none
  connFlow : s.cc.connFlow = t.connFlow
  streamFlow : s.cc.streamFlow = t.streamFlow
  connFlow_lt : t.connFlow.toNat < 2 ^ 31
  streamFlow_lt : t.streamFlow.toNat < 2 ^ 31
  inflow : s.cc.inflow = (Flow.add 0 (t.connFlow.toInt32 + 65535)).1
  flow : s.cc.flow = 65535
  initialWindowSize : s.cc.initialWindowSize = 65535
  maxFrameSize : s.cc.maxFrameSize = 16384
  updates : s.cc.out.filter WriteCall.isWindowUpdate = [.windowUpdate 0 t.connFlow]
  data : s.cc.out.filter WriteCall.isData = []

theorem Transport.foldl_writePriority (priorities : List Priority) (cc : ClientConn) :
    ∃ calls nextStreamID, priorities.foldl writePriority cc =
        { cc with out := cc.out ++ calls, nextStreamID := nextStreamID } ∧
      ∀ c ∈ calls, c.isWindowUpdate = false ∧ c.isData = false := by
  induction priorities generalizing cc with
  | nil => exact ⟨[], cc.nextStreamID, by simp, nofun⟩
  | cons p priorities ih =>
    obtain ⟨calls, nextStreamID, heq, hcalls⟩ := ih (writePriority cc p)
    rw [foldl_cons, heq]
    simp only [writePriority, send]
    split
    · refine ⟨.priority p.streamID p.priorityParam :: calls, nextStreamID, by simp, fun c hc => ?_⟩
      rcases mem_cons.mp hc with rfl | hc
      · exact ⟨rfl, rfl⟩
      · exact hcalls c hc
    · exact ⟨calls, nextStreamID, rfl, hcalls⟩

theorem Transport.connFlow_pos (t : Transport) : 0 < t.connFlow.toNat := by
  unfold connFlow
  split
  · rename_i hne
    exact Nat.pos_of_ne_zero fun hzero => hne (UInt32.toNat_inj.mp hzero)
  · decide

/-- What is left to show about a connection before its read loop starts. -/
theorem Transport.fresh_of_conn {t : Transport} {cc : ClientConn} {inflow : Int32}
    (hkept : cc.streams = [] ∧ (cc.stream = fun _ => { id := 0 }) ∧ cc.nextRef = 0 ∧
      cc.loop = .running ∧ cc.closed = false ∧ cc.goAway = none)
    (hset : cc.connFlow = t.connFlow ∧ cc.streamFlow = t.streamFlow ∧ cc.flow = 65535 ∧
      cc.initialWindowSize = 65535 ∧ cc.maxFrameSize = 16384)
    (hconnFlow : t.connFlow.toNat < 2 ^ 31) (hstreamFlow : t.streamFlow.toNat < 2 ^ 31)
    (hinflow : inflow = (Flow.add 0 (t.connFlow.toInt32 + 65535)).1)
    (hupdates : cc.out.filter WriteCall.isWindowUpdate = [.windowUpdate 0 t.connFlow])
    (hdata : cc.out.filter WriteCall.isData = []) :
    Client.Fresh t { cc := { cc with inflow := inflow } } := by
  obtain ⟨hstreams, hstream, hnextRef, hloop, hclosed, hgoAway⟩ := hkept
  obtain ⟨hconn, hstreamWindow, hflow, hinitial, hframe⟩ := hset
  exact ⟨rfl, rfl, rfl, rfl, hstreams, hstream, hnextRef, hloop, hclosed, hgoAway, hconn,
    hstreamWindow, hconnFlow, hstreamFlow, hinflow, hflow, hinitial, hframe, hupdates, hdata⟩

theorem Transport.newClient_fresh {singleUse : Bool} {s : Client}
    (h : t.newClient singleUse = .ok s) : s.Fresh t := by
  unfold newClient newClientConn at h
  split at h
  · cases h
  split at h
  · cases h
  rename_i hconnFlow hstreamFlow
  have hconnFlow : t.connFlow.toNat < 2 ^ 31 := by
    exact Nat.lt_succ_of_le (Nat.le_of_not_lt hconnFlow)
  have hstreamFlow : t.streamFlow.toNat < 2 ^ 31 := by
    exact Nat.lt_succ_of_le (Nat.le_of_not_lt hstreamFlow)
  have hpos : t.connFlow > 0 := UInt32.lt_iff_toNat_lt.mpr t.connFlow_pos
  have hwindow : initialWindowSize.toInt32 = 65535 := by decide
  have hflow : (Flow.add 0 65535).1 = 65535 := by decide
  dsimp only at h
  rw [if_pos hpos, send_windowUpdate _ _ t.connFlow_pos hconnFlow] at h
  generalize hfold : foldl writePriority _ t.priorities = cc' at h
  obtain ⟨calls, nextStreamID, heq, hcalls⟩ := hfold ▸ foldl_writePriority t.priorities _
  have hnone {p : WriteCall → Bool} (hp : ∀ c ∈ calls, p c = false) : calls.filter p = [] :=
    filter_eq_nil_iff.mpr fun c hc => by simp [hp c hc]
  cases h
  refine fresh_of_conn ?_ ?_ hconnFlow hstreamFlow (by rw [hwindow]) ?_ ?_
  · rw [heq]
    exact ⟨rfl, rfl, rfl, rfl, rfl, rfl⟩
  · rw [heq]
    refine ⟨rfl, rfl, ?_, rfl, rfl⟩
    show (Flow.add 0 initialWindowSize.toInt32).1 = 65535
    rw [hwindow, hflow]
  · rw [heq, filter_append, filter_append, hnone fun c hc => (hcalls c hc).1, filter_out_send _ rfl]
    rfl
  · rw [heq, filter_append, filter_append, hnone fun c hc => (hcalls c hc).2, filter_out_send _ rfl]
    rfl

namespace Client

variable {s : Client}

theorem Fresh.wf (h : s.Fresh t) : s.Wf := by
  refine ⟨⟨⟨?_, ?_, ?_, ?_⟩, ?_, ?_, ?_, ?_, ?_⟩, ?_, ?_⟩
  · rw [h.streams]
    nofun
  · rw [h.stream]
    exact fun _ _ => rfl
  · rw [h.streams]
    nofun
  · rw [h.stream]
    nofun
  · rw [h.nextRef]
    exact fun _ cs hcs => absurd hcs (Nat.not_lt_zero cs)
  · rw [h.streams]
    nofun
  · rw [h.loop]
    nofun
  · rw [h.closed]
    nofun
  · rw [h.loop]
    trivial
  · rw [h.bodies]
    nofun
  · rw [h.tasks]
    nofun

end Client

/-! ## Runs that can be evaluated -/

/-- A result that passes a test. -/
theorem exists_of_any {ε : Type} {x : Except ε α} {p : α → Bool} (h : x.toOption.any p = true) :
    ∃ a, x = .ok a ∧ p a = true := by
  cases x with
  | error e => cases h
  | ok a => exact ⟨a, rfl, h⟩

/-- A test of a run of a new client, on its first state and its last one. -/
def Transport.checkRun (t : Transport) (events : List ClientEvent)
    (p : Client → Client → Bool) : Bool :=
  (t.newClient false).toOption.any fun s₀ => (s₀.run events).toOption.any (p s₀)

theorem Transport.exists_of_checkRun {events : List ClientEvent} {P : Client → Client → Prop}
    [∀ s₀ s, Decidable (P s₀ s)] (h : t.checkRun events (fun s₀ s => decide (P s₀ s)) = true) :
    ∃ s₀ s, t.newClient false = .ok s₀ ∧ s₀.run events = .ok s ∧ P s₀ s := by
  obtain ⟨s₀, hnew, h⟩ := exists_of_any h
  obtain ⟨s, hrun, hp⟩ := exists_of_any h
  exact ⟨s₀, s, hnew, hrun, of_decide_eq_true hp⟩

/-- A `GET` request without a body. -/
def getRequest : EncodedRequest where
  req := { method := ascii "GET", body := false, connectionClose := false }
  hdrs := [0x82]
  henc := .new
  endStream := true

/-- The `HEADERS` of a response, with nothing but its status. -/
def ClientEvent.headers (streamID : UInt32) (flags : Flags) (status : String) : ClientEvent :=
  .receive {} (.ok (.metaHeaders
    { type := .headers, flags := flags, length := 0, streamID := streamID } {}
    [{ name := ascii ":status", value := ascii status }] false))

/-- A `DATA` frame without padding. -/
def ClientEvent.data (streamID : UInt32) (data : Bytes) : ClientEvent :=
  .receive {} (.ok (.data
    { type := .data, flags := 0, length := .ofNat data.length, streamID := streamID } data))

end Fhttp.Http2
