import Fhttp.Lib.Run
import Fhttp.Http2.ResponseWriter

/-!
# What a handler asks for

`Shape` is the invariant of a response with a body: before its header is sent, nothing has been
asked for; after it, the header and the bytes of the DATA frames, which with those in the buffer
are the accepted bytes.  `Closed` is what the return of the handler adds.  A response to a HEAD
request has only its header (`HeadShape`).
-/

namespace Fhttp.Http2

open Hpack (Bytes HeaderField ascii)
open Lib.Panic (Outcome Returns Yields)
open List

namespace ResponseWriter

variable {env : ResponseEnv} {s : ResponseWriter} {p : Bytes}

/-! ## One chunk -/

/-- The header map of the response: the one at the time of `WriteHeader`, or the one that it would
take. -/
def pending (s : ResponseWriter) : Header := if s.wroteHeader then s.snapHeader else s.handlerHeader

/-- What `snapshot` changes. -/
structure Snapped (s s' : ResponseWriter) : Prop where
  wroteHeader : s'.wroteHeader = true
  snapHeader : s'.snapHeader = s.pending
  status : s.wroteHeader = true → s'.status = s.status
  handlerHeader : s'.handlerHeader = s.handlerHeader
  trailers : s'.trailers = s.trailers
  sentHeader : s'.sentHeader = s.sentHeader
  handlerDone : s'.handlerDone = s.handlerDone
  sentContentLen : s'.sentContentLen = s.sentContentLen
  wroteBytes : s'.wroteBytes = s.wroteBytes
  buf : s'.buf = s.buf
  bwErr : s'.bwErr = s.bwErr
  out : s'.out = s.out

theorem snapped_snapshot (s : ResponseWriter) (code : Int) : Snapped s (s.snapshot code) := by
  unfold snapshot
  split
  · rename_i hwrote
    exact ⟨hwrote, by rw [pending, if_pos hwrote], fun _ => rfl, rfl, rfl, rfl, rfl, rfl, rfl, rfl,
      rfl, rfl⟩
  · rename_i hwrote
    exact ⟨rfl, by rw [pending, if_neg hwrote], fun h => absurd h hwrote, rfl, rfl, rfl, rfl, rfl,
      rfl, rfl, rfl, rfl⟩

/-- The status of a response has three digits. -/
def StatusOk (s : ResponseWriter) : Prop := s.wroteHeader = true → 100 ≤ s.status ∧ s.status ≤ 999

theorem StatusOk.snapshot (h : StatusOk s) (code : Int) (hcode : 100 ≤ code ∧ code ≤ 999) :
    100 ≤ (s.snapshot code).status ∧ (s.snapshot code).status ≤ 999 := by
  unfold ResponseWriter.snapshot
  split
  · rename_i hwrote
    exact h hwrote
  · exact hcode

/-- What sending the header changes.  The end of the stream is in the header if `e`. -/
structure Opened (env : ResponseEnv) (s s' : ResponseWriter) (e : Bool) : Prop where
  sentHeader : s'.sentHeader = true
  wroteHeader : s'.wroteHeader = s.wroteHeader
  status : s'.status = s.status
  handlerHeader : s'.handlerHeader = s.handlerHeader
  trailers : s'.trailers = declareTrailers env s.trailers s.snapHeader
  handlerDone : s'.handlerDone = s.handlerDone
  sentContentLen : s'.sentContentLen =
    ((parseUint63 (s.snapHeader.first (ascii "Content-Length"))).map Int64.ofNat).getD
      s.sentContentLen
  wroteBytes : s'.wroteBytes = s.wroteBytes
  buf : s'.buf = s.buf
  bwErr : s'.bwErr = s.bwErr
  out : ∃ w, s'.out = s.out ++ [.headers w] ∧ w.endStream = e ∧ w.httpResCode = s.status

/-- The end of the stream is in the header of a HEAD response, and of a response that is over
without a byte and without a declared trailer. -/
def endsAtHeader (env : ResponseEnv) (s : ResponseWriter) (p : Bytes) : Bool :=
  (s.handlerDone && (declareTrailers env s.trailers s.snapHeader).isEmpty && p.isEmpty) ||
    env.isHead

theorem opened_sendHeader (env : ResponseEnv) (s : ResponseWriter) (p : Bytes) :
    Opened env s (s.sendHeader env p).2 (s.endsAtHeader env p) ∧
      (s.sendHeader env p).1 =
        if s.endsAtHeader env p then some (0, frameResult env true) else none := by
  have hends : (s.headerSent env).headerEndsStream env p = s.endsAtHeader env p := by
    unfold headerEndsStream endsAtHeader hasTrailers headerSent
    cases declareTrailers env s.trailers s.snapHeader <;> cases p <;> simp
  have hframe : (s.headerFrame env p).endStream = s.endsAtHeader env p := hends
  unfold sendHeader
  dsimp only
  rw [hframe]
  unfold frameResult
  cases hend : s.endsAtHeader env p <;> cases env.closedFirst <;>
    exact ⟨⟨rfl, rfl, rfl, rfl, rfl, rfl, rfl, rfl, rfl, rfl, ⟨_, rfl, hframe.trans hend, rfl⟩⟩,
      rfl⟩

/-- The request for some bytes of the body. -/
def dataOf (p : Bytes) : List ResponseWrite := if p.isEmpty then [] else [.data p false]

theorem sendBody_of_running (h : s.handlerDone = false) (p : Bytes) :
    s.sendBody env p = (p.length, none, { s with out := s.out ++ dataOf p }) := by
  unfold sendBody sendFrames dataOf
  cases s
  subst h
  cases p <;> simp [frameResult]

/-- What a chunk of a running handler changes, in a response with a body. -/
structure ChunkSent (env : ResponseEnv) (s s' : ResponseWriter) (p : Bytes) : Prop where
  wroteHeader : s'.wroteHeader = true
  sentHeader : s'.sentHeader = true
  statusOk : 100 ≤ s'.status ∧ s'.status ≤ 999
  handlerHeader : s'.handlerHeader = s.handlerHeader
  handlerDone : s'.handlerDone = false
  wroteBytes : s'.wroteBytes = s.wroteBytes
  buf : s'.buf = s.buf
  bwErr : s'.bwErr = s.bwErr
  trailers : s'.trailers =
    if s.sentHeader then s.trailers else declareTrailers env s.trailers s.pending
  sentContentLen : s'.sentContentLen =
    if s.sentHeader then s.sentContentLen
    else ((parseUint63 (s.pending.first (ascii "Content-Length"))).map Int64.ofNat).getD
      s.sentContentLen
  out : ∃ head, s'.out = s.out ++ head ++ dataOf p ∧
    if s.sentHeader then head = []
    else ∃ w, head = [.headers w] ∧ w.endStream = false ∧ w.httpResCode = s'.status

/-- A chunk of a running handler: the header, if it has not been sent, and the bytes. -/
theorem writeChunk_of_running (hhead : env.isHead = false) (hdone : s.handlerDone = false)
    (hstatus : StatusOk s) (p : Bytes) :
    ∃ s', s.writeChunk env p = (p.length, none, s') ∧ ChunkSent env s s' p := by
  have hsnap := snapped_snapshot s 200
  have hcode := hstatus.snapshot 200 ⟨by decide, by decide⟩
  unfold writeChunk
  generalize s.snapshot 200 = t at hsnap hcode
  have htdone : t.handlerDone = false := hsnap.handlerDone.trans hdone
  have hbody (u : ResponseWriter) (hu : u.handlerDone = false) :
      (if p.length == 0 && !u.handlerDone then (0, none, u) else u.sendBody env p) =
        (p.length, none, { u with out := u.out ++ dataOf p }) := by
    rw [sendBody_of_running hu]
    unfold dataOf
    cases u
    cases p <;> simp
  dsimp only
  cases hsent : t.sentHeader with
  | true =>
    have hsent' : s.sentHeader = true := hsnap.sentHeader.symm.trans hsent
    refine ⟨{ t with out := t.out ++ dataOf p }, ?_, ?_⟩
    · simp only [if_true, hhead, Bool.false_eq_true, if_false]
      exact hbody t htdone
    · refine ⟨hsnap.wroteHeader, hsent, hcode, hsnap.handlerHeader, htdone, hsnap.wroteBytes,
        hsnap.buf, hsnap.bwErr, ?_, ?_, [], ?_, ?_⟩
      · rw [if_pos hsent']
        exact hsnap.trailers
      · rw [if_pos hsent']
        exact hsnap.sentContentLen
      · rw [append_nil, ← hsnap.out]
      · rw [if_pos hsent']
  | false =>
    have hsent' : s.sentHeader = false := hsnap.sentHeader.symm.trans hsent
    have hsent'' : ¬ s.sentHeader = true := by rw [hsent']; exact Bool.false_ne_true
    obtain ⟨hopen, hres⟩ := opened_sendHeader env t p
    have hend : t.endsAtHeader env p = false := by simp [endsAtHeader, htdone, hhead]
    rw [hend] at hopen hres
    generalize t.sendHeader env p = r at hopen hres
    have hrdone : r.2.handlerDone = false := hopen.handlerDone.trans htdone
    obtain ⟨w, hout, hwend, hwcode⟩ := hopen.out
    refine ⟨{ r.2 with out := r.2.out ++ dataOf p }, ?_, ?_⟩
    · simp only [Bool.false_eq_true, if_false, hres, hhead]
      exact hbody r.2 hrdone
    · refine ⟨hopen.wroteHeader.trans hsnap.wroteHeader, hopen.sentHeader, ?_,
        hopen.handlerHeader.trans hsnap.handlerHeader, hrdone,
        hopen.wroteBytes.trans hsnap.wroteBytes, hopen.buf.trans hsnap.buf,
        hopen.bwErr.trans hsnap.bwErr, ?_, ?_, [.headers w], ?_, ?_⟩
      · rw [hopen.status]
        exact hcode
      · rw [if_neg hsent'', ← hsnap.trailers, ← hsnap.snapHeader]
        exact hopen.trailers
      · rw [if_neg hsent'', ← hsnap.sentContentLen, ← hsnap.snapHeader]
        exact hopen.sentContentLen
      · rw [hout, hsnap.out]
      · rw [if_neg hsent'']
        exact ⟨w, rfl, hwend, hwcode.trans hopen.status.symm⟩

/-! ## A response with a body -/

/-- What a running handler has asked for: nothing before the header, and then the header and the
bytes in `asked`. -/
structure Shape (s : ResponseWriter) (asked : Bytes) : Prop where
  running : s.handlerDone = false
  noError : s.bwErr = none
  statusOk : StatusOk s
  unsent : s.sentHeader = false → s.out = [] ∧ asked = [] ∧ s.trailers = []
  sent : s.sentHeader = true → s.wroteHeader = true ∧
    ∃ (w : ResHeaders) (ps : List Bytes),
      s.out = .headers w :: ps.map (ResponseWrite.data · false) ∧
      w.endStream = false ∧ 100 ≤ w.httpResCode ∧ (∀ p ∈ ps, p ≠ []) ∧ ps.flatten = asked

theorem shape_new : Shape {} [] where
  running := rfl
  noError := rfl
  statusOk h := by cases h
  unsent _ := ⟨rfl, rfl, rfl⟩
  sent h := by cases h

/-- The pieces for some bytes: none if there are none. -/
def pieceOf (p : Bytes) : List Bytes := if p.isEmpty then [] else [p]

theorem dataOf_eq (p : Bytes) : dataOf p = (pieceOf p).map (ResponseWrite.data · false) := by
  unfold dataOf pieceOf
  split <;> rfl

theorem flatten_pieceOf (p : Bytes) : (pieceOf p).flatten = p := by
  cases p <;> simp [pieceOf]

theorem ne_nil_of_mem_pieceOf {q : Bytes} (h : q ∈ pieceOf p) : q ≠ [] := by
  cases p <;> simp_all [pieceOf]

variable {asked : Bytes}

/-- A chunk asks for its bytes. -/
theorem Shape.chunk {s' : ResponseWriter} (hs : Shape s asked) (h : ChunkSent env s s' p) :
    Shape s' (asked ++ p) := by
  refine ⟨h.handlerDone, h.bwErr.trans hs.noError, fun _ => h.statusOk, fun hno => ?_, fun _ => ?_⟩
  · rw [h.sentHeader] at hno
    cases hno
  · refine ⟨h.wroteHeader, ?_⟩
    obtain ⟨head, hout, hhead⟩ := h.out
    rw [hout, dataOf_eq]
    cases hsent : s.sentHeader with
    | false =>
      rw [hsent] at hhead
      obtain ⟨w, rfl, hend, hcode⟩ := hhead
      obtain ⟨hnil, hasked, _⟩ := hs.unsent hsent
      refine ⟨w, pieceOf p, ?_, hend, hcode ▸ h.statusOk.1,
        fun q hq => ne_nil_of_mem_pieceOf hq, ?_⟩
      · rw [hnil]
        rfl
      · rw [flatten_pieceOf, hasked]
        rfl
    | true =>
      rw [hsent] at hhead
      obtain rfl : head = [] := hhead
      obtain ⟨_, w, ps, hps, hend, hcode, hne, hflat⟩ := hs.sent hsent
      refine ⟨w, ps ++ pieceOf p, ?_, hend, hcode, fun q hq => ?_, ?_⟩
      · rw [hps, append_nil, map_append]
        rfl
      · exact (mem_append.mp hq).elim (hne q) ne_nil_of_mem_pieceOf
      · rw [flatten_append, flatten_pieceOf, hflat]

/-- The fields that the frames do not depend on. -/
theorem Shape.congr {s' : ResponseWriter} {asked : Bytes} (hs : Shape s asked)
    (hstatus : StatusOk s') (herr : s'.bwErr = s.bwErr := by rfl)
    (hwrote : s.wroteHeader = true → s'.wroteHeader = true := by exact id)
    (hdone : s'.handlerDone = s.handlerDone := by rfl)
    (hsent : s'.sentHeader = s.sentHeader := by rfl) (hout : s'.out = s.out := by rfl)
    (htrailers : s'.trailers = s.trailers := by rfl) : Shape s' asked := by
  refine ⟨hdone.trans hs.running, herr.trans hs.noError, hstatus, fun hno => ?_, fun hyes => ?_⟩
  · rw [hout, htrailers]
    exact hs.unsent (hsent.symm.trans hno)
  · rw [hout]
    obtain ⟨h, hrest⟩ := hs.sent (hsent.symm.trans hyes)
    exact ⟨hwrote h, hrest⟩

section Running

/-- `Flush` of the buffer asks for the bytes in it. -/
theorem Shape.bufioFlush (hs : Shape s asked) (hhead : env.isHead = false) :
    Shape (s.bufioFlush env) (asked ++ s.buf) ∧ (s.bufioFlush env).buf = [] := by
  unfold ResponseWriter.bufioFlush
  rw [hs.noError]
  cases hbuf : s.buf with
  | nil =>
    simp only [Option.isSome_none, length_nil, beq_self_eq_true, Bool.or_true, if_true, append_nil]
    exact ⟨hs, hbuf⟩
  | cons b buf =>
    obtain ⟨s', heq, hchunk⟩ := writeChunk_of_running hhead hs.running hs.statusOk (b :: buf)
    rw [heq]
    simp only [Option.isSome_none, Bool.false_or, length_cons, Nat.lt_irrefl, decide_false,
      Bool.false_and, Bool.false_eq_true, if_false]
    exact ⟨(hs.chunk hchunk).congr (hs.chunk hchunk).statusOk, rfl⟩

theorem available_of_nil (h : s.buf = []) : s.available = 4096 := by
  unfold available
  rw [h]
  rfl

/-- `Write` of the buffer takes all the bytes. -/
theorem Shape.bufioWrite (hhead : env.isHead = false) (direct : Bool) {fuel nn : Nat}
    (hs : Shape s asked) (hfuel : p.length + (if s.buf = [] then 0 else 1) ≤ fuel) :
    Returns (fun r => r.1 = nn + p.length ∧ r.2.1 = none ∧
        ∃ asked', Shape r.2.2 asked' ∧ asked' ++ r.2.2.buf = asked ++ s.buf ++ p)
      (bufioWrite env direct fuel s p nn) := by
  induction fuel generalizing s p nn asked with
  | zero =>
    obtain rfl : p = [] := eq_nil_of_length_eq_zero (by omega)
    unfold bufioWrite
    rw [hs.noError]
    refine ⟨rfl, rfl, asked, hs.congr hs.statusOk hs.noError.symm, ?_⟩
    simp
  | succ fuel ih =>
    unfold bufioWrite
    split
    · rename_i hmore
      obtain ⟨hlong, _⟩ := hmore
      dsimp only
      split
      · rename_i hdirect
        have hbuf : s.buf = [] := by
          simp only [Bool.and_eq_true, beq_iff_eq] at hdirect
          exact eq_nil_of_length_eq_zero hdirect.1
        obtain ⟨s', heq, hchunk⟩ := writeChunk_of_running hhead hs.running hs.statusOk p
        rw [heq]
        have hs' : Shape { s' with bwErr := none } (asked ++ p) :=
          (hs.chunk hchunk).congr (hs.chunk hchunk).statusOk (hs.chunk hchunk).noError.symm
        have hbuf' : s'.buf = [] := hchunk.buf.trans hbuf
        rw [drop_length]
        refine (ih hs' (by simp [hbuf'])).imp fun r hr => ?_
        obtain ⟨hn, herr, asked', hshape, hall⟩ := hr
        refine ⟨by rw [hn, length_nil]; omega, herr, asked', hshape, ?_⟩
        rw [hall, hbuf, hbuf']
        simp
      · have havail : min s.available p.length = s.available := Nat.min_eq_left (Nat.le_of_lt hlong)
        rw [havail]
        have hfilled : Shape { s with buf := s.buf ++ p.take s.available } asked :=
          hs.congr hs.statusOk
        obtain ⟨hflush, hempty⟩ := hfilled.bufioFlush hhead
        have hless : (p.drop s.available).length +
            (if (ResponseWriter.bufioFlush env
              { s with buf := s.buf ++ p.take s.available }).buf = [] then 0 else 1) ≤ fuel := by
          rw [hempty, if_pos rfl, length_drop]
          split at hfuel
          · rename_i hbuf
            have hall := available_of_nil hbuf
            omega
          · omega
        refine (ih hflush hless).imp fun r hr => ?_
        obtain ⟨hn, herr, asked', hshape, hall⟩ := hr
        refine ⟨?_, herr, asked', hshape, ?_⟩
        · rw [hn, length_drop]
          omega
        · rw [hall, hempty]
          simp [append_assoc]
    · rw [hs.noError]
      exact ⟨rfl, rfl, asked, hs.congr hs.statusOk hs.noError.symm, by simp⟩

theorem Shape.snapshot (hs : Shape s asked) (code : Int) (hcode : 100 ≤ code ∧ code ≤ 999) :
    Shape (s.snapshot code) asked := by
  have hsnap := snapped_snapshot s code
  exact hs.congr (fun _ => hs.statusOk.snapshot code hcode) hsnap.bwErr
    (fun _ => hsnap.wroteHeader) hsnap.handlerDone hsnap.sentHeader hsnap.out hsnap.trailers

/-- `Write` takes all the bytes or none of them. -/
theorem Shape.write (hs : Shape s asked) (hhead : env.isHead = false) (direct : Bool) (p : Bytes) :
    Returns (fun r => ((r.1 = 0 ∧ r.2.1 ≠ none ∧ Shape r.2.2 asked ∧ r.2.2.buf = s.buf) ∨
        (r.1 = p.length ∧ r.2.1 = none ∧
          ∃ asked', Shape r.2.2 asked' ∧ asked' ++ r.2.2.buf = asked ++ s.buf ++ p)))
      (s.write env direct p) := by
  have hsnap := hs.snapshot 200 ⟨by decide, by decide⟩
  have hbuf : (s.snapshot 200).buf = s.buf := (snapped_snapshot s 200).buf
  unfold ResponseWriter.write
  generalize s.snapshot 200 = t at hsnap hbuf
  dsimp only
  split
  · exact .inl ⟨rfl, by simp, hsnap, hbuf⟩
  have hcount : Shape { t with wroteBytes := t.wroteBytes + Int64.ofNat p.length } asked :=
    hsnap.congr hsnap.statusOk
  split
  · exact .inl ⟨rfl, by simp, hcount, hbuf⟩
  · refine (hcount.bufioWrite hhead direct (by split <;> omega)).imp fun r hr => ?_
    obtain ⟨hn, herr, asked', hshape, hall⟩ := hr
    refine .inr ⟨by omega, herr, asked', hshape, ?_⟩
    rw [hall, hbuf]

theorem Shape.flush (hs : Shape s asked) (hhead : env.isHead = false) :
    Shape (s.flush env) (asked ++ s.buf) ∧ (s.flush env).buf = [] := by
  unfold ResponseWriter.flush
  split
  · exact hs.bufioFlush hhead
  · have hbuf : s.buf = [] := eq_nil_of_length_eq_zero (by omega)
    obtain ⟨s', heq, hchunk⟩ := writeChunk_of_running hhead hs.running hs.statusOk []
    rw [heq, hbuf]
    exact ⟨hs.chunk hchunk, hchunk.buf.trans hbuf⟩

end Running

/-- The accepted bytes of a running handler are those asked for and those in the buffer. -/
def Progress.Holds (st : Progress) : Prop :=
  ∃ asked, Shape st.rws asked ∧ asked ++ st.rws.buf = st.accepted

/-- One call of the handler keeps the bytes. -/
theorem Progress.Holds.step {st : Progress} (h : st.Holds) (hhead : env.isHead = false) (op : Op) :
    Outcome (· ≠ .diverges) Progress.Holds (st.step env op) := by
  obtain ⟨asked, hs, hall⟩ := h
  have hwrite (direct : Bool) (p : Bytes) : Outcome (· ≠ .diverges) Progress.Holds
      ((st.rws.write env direct p).map (st.wrote p)) := by
    refine ((hs.write hhead direct p).weaken (fun _ h => h.elim)).map fun r hr => ?_
    rcases hr with ⟨hn, _, hshape, hbuf⟩ | ⟨hn, _, asked', hshape, hall'⟩
    · refine ⟨asked, hshape, ?_⟩
      dsimp only [Progress.wrote]
      rw [hn, take_zero, append_nil, hbuf, hall]
    · refine ⟨asked', hshape, ?_⟩
      dsimp only [Progress.wrote]
      rw [hn, take_length, hall', hall]
  cases op with
  | header h => exact ⟨asked, hs.congr hs.statusOk, hall⟩
  | writeHeader code =>
    show Outcome _ _ ((st.rws.writeHeader code).map _)
    unfold writeHeader
    split
    · exact ⟨asked, hs, hall⟩
    · split
      · exact nofun
      · refine ⟨asked, hs.snapshot code (by omega), ?_⟩
        rw [(snapped_snapshot st.rws code).buf]
        exact hall
  | write p => exact hwrite true p
  | writeString p => exact hwrite false p
  | flush =>
    obtain ⟨hshape, hempty⟩ := hs.flush hhead
    refine ⟨_, hshape, ?_⟩
    rw [hempty, append_nil, hall]

theorem Progress.holds_new : Progress.Holds {} := ⟨[], shape_new, rfl⟩

/-- A handler of a response with a body does not run for ever in the writer, and its bytes are
kept. -/
theorem Progress.holds_run (hhead : env.isHead = false) (ops : List Op) :
    Outcome (· ≠ .diverges) Progress.Holds (Progress.run env ops) := by
  exact Lib.Run.outcome_of_forall (fun _ op h => h.step hhead op) Progress.holds_new ops

/-! ## The end of a response with a body -/

/-- The trailers that are declared in the header of the response. -/
def declared (env : ResponseEnv) (s : ResponseWriter) : List Bytes :=
  if s.sentHeader then s.trailers else declareTrailers env s.trailers s.pending

/-- The trailers and the header map of a handler that has returned, with the keys that have
`TrailerPrefix` promoted. -/
def promoted (env : ResponseEnv) (s : ResponseWriter) : ResponseWriter :=
  promoteUndeclaredTrailers env { trailers := s.declared env, handlerHeader := s.handlerHeader }

/-- The fields of the trailers. -/
def trailerFields (env : ResponseEnv) (s : ResponseWriter) : List HeaderField :=
  encodeHeaders env (s.promoted env).handlerHeader (some (s.promoted env).trailers)

/-- The response has no body and no declared trailer, so that its header ends the stream. -/
def endsEmpty (env : ResponseEnv) (s : ResponseWriter) : Bool :=
  !s.sentHeader && s.buf.isEmpty && (s.declared env).isEmpty

/-- Promotion looks at the trailers and the header map only. -/
theorem promoteUndeclaredTrailers_eq (env : ResponseEnv) (s : ResponseWriter) :
    s.promoteUndeclaredTrailers env =
      { s with
        trailers := (promoteUndeclaredTrailers env
          { trailers := s.trailers, handlerHeader := s.handlerHeader }).trailers
        handlerHeader := (promoteUndeclaredTrailers env
          { trailers := s.trailers, handlerHeader := s.handlerHeader }).handlerHeader } := by
  have hkeys (keys : List Bytes) (trailers : List Bytes) (h : Header) :
      keys.foldl (promoteKey env) { s with trailers := trailers, handlerHeader := h } =
        { s with
          trailers :=
            (keys.foldl (promoteKey env) { trailers := trailers, handlerHeader := h }).trailers
          handlerHeader :=
            (keys.foldl (promoteKey env)
              { trailers := trailers, handlerHeader := h }).handlerHeader } := by
    induction keys generalizing trailers h with
    | nil => rfl
    | cons k keys ih =>
      simp only [foldl_cons]
      unfold promoteKey
      split
      · exact ih _ _
      · exact ih _ _
  unfold promoteUndeclaredTrailers
  rw [hkeys (env.visits s.handlerHeader) s.trailers s.handlerHeader]

/-- The frames at the end of the body: the last bytes with the end of the stream, or the last
bytes and the trailers. -/
def closing (env : ResponseEnv) (s : ResponseWriter) (p : Bytes) : List ResponseWrite :=
  if (s.promoted env).hasNonemptyTrailers then
    dataOf p ++ [.headers
      { h := (s.promoted env).handlerHeader
        trailers := some (s.promoted env).trailers
        endStream := true }]
  else [.data p true]

theorem sendFrames_of_done {t : ResponseWriter} (h : t.handlerDone = true) (p : Bytes) :
    (t.sendFrames env p).2.2.out = t.out ++
      if t.hasNonemptyTrailers then
        dataOf p ++ [.headers
          { h := t.handlerHeader, trailers := some t.trailers, endStream := true }]
      else [.data p true] := by
  obtain ⟨handlerHeader, _, trailers, _, _, _, handlerDone, _, _, _, _, _, _, _⟩ := t
  subst h
  unfold sendFrames hasNonemptyTrailers dataOf frameResult
  cases hne : trailers.any handlerHeader.has <;> cases env.closedFirst <;> cases p <;>
    simp [hne, -any_eq_true]

theorem sendBody_of_done (h : s.handlerDone = true) (hsent : s.sentHeader = true) (p : Bytes) :
    (s.sendBody env p).2.2.out = s.out ++ s.closing env p := by
  have hdeclared : s.declared env = s.trailers := if_pos hsent
  unfold sendBody closing promoted
  rw [if_pos h, promoteUndeclaredTrailers_eq, hdeclared]
  refine sendFrames_of_done ?_ p
  exact h

/-- What a response with a body has asked for in the end: the header and the body, and then the
frames that close the stream, unless the header closes it. -/
structure Closed (env : ResponseEnv) (s : ResponseWriter) (asked : Bytes)
    (out : List ResponseWrite) : Prop where
  empty : s.endsEmpty env = true → asked = [] ∧
    ∃ w : ResHeaders, out = [.headers w] ∧ w.endStream = true ∧ 100 ≤ w.httpResCode
  body : s.endsEmpty env = false →
    ∃ (w : ResHeaders) (ps : List Bytes),
      out = .headers w :: (ps.map (ResponseWrite.data · false) ++ s.closing env s.buf) ∧
      w.endStream = false ∧ 100 ≤ w.httpResCode ∧ (∀ p ∈ ps, p ≠ []) ∧ ps.flatten = asked

theorem Shape.writeChunk_done (hhead : env.isHead = false) (hs : Shape s asked) :
    Closed env s asked (writeChunk env { s with handlerDone := true } s.buf).2.2.out := by
  have hsnap := snapped_snapshot { s with handlerDone := true } 200
  have hcode : 100 ≤ (ResponseWriter.snapshot { s with handlerDone := true } 200).status :=
    (StatusOk.snapshot (s := { s with handlerDone := true }) hs.statusOk 200
      ⟨by decide, by decide⟩).1
  unfold writeChunk
  generalize ResponseWriter.snapshot { s with handlerDone := true } 200 = t at hsnap hcode
  have hdone : t.handlerDone = true := hsnap.handlerDone
  have hclosing (u : ResponseWriter) (hu : u.handlerHeader = s.handlerHeader)
      (hdecl : u.declared env = s.declared env) : u.closing env s.buf = s.closing env s.buf := by
    unfold closing promoted
    rw [hu, hdecl]
  dsimp only
  cases hsent : t.sentHeader with
  | true =>
    have hsent' : s.sentHeader = true := hsnap.sentHeader.symm.trans hsent
    obtain ⟨_, w, ps, hps, hend, hwcode, hne, hflat⟩ := hs.sent hsent'
    have hdecl : t.declared env = s.declared env := by
      unfold declared
      rw [hsent, hsent', if_pos rfl, if_pos rfl]
      exact hsnap.trailers
    refine ⟨fun h => ?_, fun _ => ⟨w, ps, ?_, hend, hwcode, hne, hflat⟩⟩
    · simp [endsEmpty, hsent'] at h
    · simp only [if_true, hhead, Bool.false_eq_true, if_false, hdone, Bool.not_true, Bool.and_false]
      rw [sendBody_of_done hdone hsent, hclosing t hsnap.handlerHeader hdecl, hsnap.out]
      rw [hps]
      rfl
  | false =>
    have hsent' : s.sentHeader = false := hsnap.sentHeader.symm.trans hsent
    obtain ⟨hnil, hasked, htrailers⟩ := hs.unsent hsent'
    obtain ⟨hopen, hres⟩ := opened_sendHeader env t s.buf
    have hdeclared : declareTrailers env t.trailers t.snapHeader = s.declared env := by
      unfold declared
      rw [hsent', if_neg Bool.false_ne_true, hsnap.trailers, hsnap.snapHeader]
      rfl
    have hend : t.endsAtHeader env s.buf = s.endsEmpty env := by
      unfold endsAtHeader endsEmpty
      rw [hdeclared, hdone, hhead, hsent']
      cases (s.declared env).isEmpty <;> cases s.buf.isEmpty <;> rfl
    rw [hend] at hopen hres
    generalize t.sendHeader env s.buf = r at hopen hres
    obtain ⟨w, hout, hwend, hwcode⟩ := hopen.out
    have hrdone : r.2.handlerDone = true := hopen.handlerDone.trans hdone
    have hwcode' : 100 ≤ w.httpResCode := hwcode ▸ hcode
    have hout' : r.2.out = [.headers w] := by
      rw [hout, hsnap.out]
      rw [hnil]
      rfl
    cases hempty : s.endsEmpty env with
    | true =>
      rw [hempty] at hres hwend
      refine ⟨fun _ => ⟨hasked, w, ?_, hwend, hwcode'⟩, fun h => by cases hempty.symm.trans h⟩
      simp only [Bool.false_eq_true, if_false, hres, if_true]
      exact hout'
    | false =>
      rw [hempty] at hres hwend
      have hdecl : r.2.declared env = s.declared env := by
        rw [← hdeclared, ← hopen.trailers]
        exact if_pos hopen.sentHeader
      refine ⟨fun h => (by cases hempty.symm.trans h), fun _ => ⟨w, [], ?_, hwend, hwcode',
        nofun, hasked.symm⟩⟩
      simp only [Bool.false_eq_true, if_false, hres, hhead, hrdone, Bool.not_true, Bool.and_false]
      rw [sendBody_of_done hrdone hopen.sentHeader,
        hclosing r.2 (hopen.handlerHeader.trans hsnap.handlerHeader) hdecl, hout']
      rfl

/-- `Flush` passes the bytes in the buffer to `writeChunk`, also if there are none. -/
theorem out_flush (herr : s.bwErr = none) :
    (s.flush env).out = (s.writeChunk env s.buf).2.2.out := by
  unfold ResponseWriter.flush ResponseWriter.bufioFlush
  rw [herr]
  cases hbuf : s.buf with
  | nil => rfl
  | cons b buf =>
    simp only [Option.isSome_none, Bool.false_or, length_cons, gt_iff_lt, Nat.zero_lt_succ,
      if_true]
    rw [if_neg (by simp)]
    generalize s.writeChunk env (b :: buf) = r
    split <;> split <;> rfl

/-- The return of the handler closes the response. -/
theorem Shape.finish (hhead : env.isHead = false) (hs : Shape s asked) :
    Closed env s asked (s.finish env).out := by
  unfold ResponseWriter.finish
  rw [out_flush (s := { s with handlerDone := true }) hs.noError]
  exact hs.writeChunk_done hhead

/-! ## A response to a HEAD request -/

/-- A response to a HEAD request asks for its header only, with the end of the stream. -/
structure HeadShape (s : ResponseWriter) : Prop where
  statusOk : StatusOk s
  unsent : s.sentHeader = false → s.out = [] ∧ s.bwErr = none
  sent : s.sentHeader = true → s.wroteHeader = true ∧
    ∃ w : ResHeaders, s.out = [.headers w] ∧ w.endStream = true ∧ 100 ≤ w.httpResCode

theorem headShape_new : HeadShape {} where
  statusOk h := by cases h
  unsent _ := ⟨rfl, rfl⟩
  sent h := by cases h

theorem HeadShape.congr {s' : ResponseWriter} (hs : HeadShape s) (hstatus : StatusOk s')
    (herr : s.sentHeader = false → s'.bwErr = s.bwErr := by exact fun _ => rfl)
    (hwrote : s.wroteHeader = true → s'.wroteHeader = true := by exact id)
    (hsent : s'.sentHeader = s.sentHeader := by rfl) (hout : s'.out = s.out := by rfl) :
    HeadShape s' := by
  refine ⟨hstatus, fun hno => ?_, fun hyes => ?_⟩
  · have hno' := hsent.symm.trans hno
    rw [hout, herr hno']
    exact hs.unsent hno'
  · rw [hout]
    obtain ⟨h, hrest⟩ := hs.sent (hsent.symm.trans hyes)
    exact ⟨hwrote h, hrest⟩

theorem HeadShape.snapshot (hs : HeadShape s) (code : Int) (hcode : 100 ≤ code ∧ code ≤ 999) :
    HeadShape (s.snapshot code) := by
  have hsnap := snapped_snapshot s code
  exact hs.congr (fun _ => hs.statusOk.snapshot code hcode) (fun _ => hsnap.bwErr)
    (fun _ => hsnap.wroteHeader) hsnap.sentHeader hsnap.out

/-- A chunk sends the header, or is dropped.  The first chunk is not taken. -/
theorem HeadShape.writeChunk (hhead : env.isHead = true) (hs : HeadShape s) (p : Bytes) :
    HeadShape (s.writeChunk env p).2.2 ∧ (s.writeChunk env p).2.2.sentHeader = true ∧
      (s.writeChunk env p).2.2.buf = s.buf ∧
      (s.sentHeader = true → (s.writeChunk env p).1 = p.length) := by
  have hsnap := snapped_snapshot s 200
  have hst := hs.snapshot 200 ⟨by decide, by decide⟩
  unfold ResponseWriter.writeChunk
  generalize s.snapshot 200 = t at hsnap hst
  dsimp only
  cases hsent : t.sentHeader with
  | true =>
    simp only [if_true, hhead, implies_true, and_true]
    exact ⟨hst, hsent, hsnap.buf⟩
  | false =>
    obtain ⟨hopen, hres⟩ := opened_sendHeader env t p
    have hend : t.endsAtHeader env p = true := by simp [endsAtHeader, hhead]
    rw [hend] at hopen hres
    generalize t.sendHeader env p = r at hopen hres
    obtain ⟨w, hout, hwend, hwcode⟩ := hopen.out
    have hstatus := hst.statusOk hsnap.wroteHeader
    simp only [Bool.false_eq_true, if_false, hres, if_true]
    refine ⟨⟨fun _ => hopen.status ▸ hstatus, fun hno => ?_, fun _ => ?_⟩, hopen.sentHeader,
      hopen.buf.trans hsnap.buf, fun hyes => ?_⟩
    · rw [hopen.sentHeader] at hno
      cases hno
    · refine ⟨hopen.wroteHeader.trans hsnap.wroteHeader, w, ?_, hwend, hwcode ▸ hstatus.1⟩
      rw [hout, (hst.unsent hsent).1]
      rfl
    · rw [← hsnap.sentHeader, hsent] at hyes
      cases hyes

theorem HeadShape.bufioFlush (hhead : env.isHead = true) (hs : HeadShape s) :
    HeadShape (s.bufioFlush env) ∧
      (s.buf ≠ [] → (s.bufioFlush env).sentHeader = true) ∧
      ((s.bufioFlush env).bwErr = none → (s.bufioFlush env).buf = []) := by
  obtain ⟨hw, hsent, _, _⟩ := hs.writeChunk hhead s.buf
  unfold ResponseWriter.bufioFlush
  split
  · rename_i hidle
    simp only [Bool.or_eq_true, beq_iff_eq] at hidle
    refine ⟨hs, fun hne => ?_, fun hnone => ?_⟩
    · rcases hidle with herr | hnil
      · cases hno : s.sentHeader with
        | true => rfl
        | false =>
          rw [(hs.unsent hno).2] at herr
          cases herr
      · exact absurd (eq_nil_of_length_eq_zero hnil) hne
    · rcases hidle with herr | hnil
      · rw [hnone] at herr
        cases herr
      · exact eq_nil_of_length_eq_zero hnil
  · generalize s.writeChunk env s.buf = r at hw hsent
    have hno (h : r.2.2.sentHeader = false) : False := Bool.noConfusion (hsent.symm.trans h)
    dsimp only
    generalize (if r.1 < s.buf.length && r.2.1.isNone then some ResponseError.errShortWrite
      else r.2.1) = err
    cases err with
    | some e => exact ⟨hw.congr hw.statusOk (fun h => (hno h).elim), fun _ => hsent, nofun⟩
    | none => exact ⟨hw.congr hw.statusOk (fun h => (hno h).elim), fun _ => hsent, fun _ => rfl⟩

/-- A buffer that has failed takes nothing. -/
theorem bufioWrite_of_error {e : ResponseError} (h : s.bwErr = some e) (direct : Bool)
    (fuel nn : Nat) : bufioWrite env direct fuel s p nn = .ok (nn, some e, s) := by
  unfold bufioWrite
  rw [if_neg (by simp [h]), h]

section

variable (hhead : env.isHead = true)

include hhead

theorem HeadShape.bufioWrite (direct : Bool) {fuel nn : Nat} (hs : HeadShape s)
    (hfuel : p.length + (if s.buf = [] then 0 else 1) + (if s.sentHeader then 0 else 1) ≤ fuel) :
    Returns (fun r => HeadShape r.2.2) (bufioWrite env direct fuel s p nn) := by
  induction fuel generalizing s p nn with
  | zero =>
    obtain rfl : p = [] := eq_nil_of_length_eq_zero (by omega)
    unfold bufioWrite
    rw [if_neg (by simp)]
    split
    · exact hs
    · exact hs.congr hs.statusOk
  | succ fuel ih =>
    unfold bufioWrite
    split
    · rename_i hmore
      obtain ⟨hlong, _⟩ := hmore
      dsimp only
      split
      · rename_i hdirect
        have hbuf : s.buf = [] := by
          simp only [Bool.and_eq_true, beq_iff_eq] at hdirect
          exact eq_nil_of_length_eq_zero hdirect.1
        obtain ⟨hw, hsent, hbuf', hlen⟩ := hs.writeChunk hhead p
        generalize s.writeChunk env p = r at hw hsent hbuf' hlen
        refine ih (hw.congr hw.statusOk fun hno => ?_) ?_
        · rw [hsent] at hno
          cases hno
        · rw [hbuf', hbuf, if_pos rfl, hsent, if_pos rfl, length_drop]
          cases hyes : s.sentHeader with
          | true =>
            rw [hlen hyes]
            omega
          | false =>
            rw [hyes, if_neg Bool.false_ne_true] at hfuel
            omega
      · have havail : min s.available p.length = s.available := Nat.min_eq_left (Nat.le_of_lt hlong)
        rw [havail]
        have hfilled : HeadShape { s with buf := s.buf ++ p.take s.available } :=
          hs.congr hs.statusOk
        obtain ⟨hflush, hsent, hempty⟩ := hfilled.bufioFlush hhead
        generalize ResponseWriter.bufioFlush env { s with buf := s.buf ++ p.take s.available } = t
          at hflush hsent hempty
        cases herr : t.bwErr with
        | some e =>
          rw [bufioWrite_of_error herr]
          exact hflush
        | none =>
          refine ih hflush ?_
          rw [hempty herr, if_pos rfl, length_drop]
          by_cases hbuf : s.buf = []
          · have hall := available_of_nil hbuf
            split <;> split at hfuel <;> omega
          · rw [if_neg hbuf] at hfuel
            have hyes := hsent (by simp [hbuf])
            rw [if_pos hyes]
            split at hfuel <;> omega
    · split
      · exact hs
      · exact hs.congr hs.statusOk

theorem HeadShape.write (hs : HeadShape s) (direct : Bool) (p : Bytes) :
    Returns (fun r => HeadShape r.2.2) (s.write env direct p) := by
  have hst := hs.snapshot 200 ⟨by decide, by decide⟩
  unfold ResponseWriter.write
  generalize s.snapshot 200 = t at hst
  dsimp only
  have hcount : HeadShape { t with wroteBytes := t.wroteBytes + Int64.ofNat p.length } :=
    hst.congr hst.statusOk
  split
  · exact hst
  · split
    · exact hcount
    · exact hcount.bufioWrite hhead direct (by split <;> split <;> omega)

/-- `Flush` sends the header. -/
theorem HeadShape.flush (hs : HeadShape s) :
    HeadShape (s.flush env) ∧ (s.flush env).sentHeader = true := by
  unfold ResponseWriter.flush
  split
  · rename_i hne
    obtain ⟨h, hsent, _⟩ := hs.bufioFlush hhead
    exact ⟨h, hsent (length_pos_iff.mp hne)⟩
  · obtain ⟨h, hsent, _⟩ := hs.writeChunk hhead []
    exact ⟨h, hsent⟩

theorem HeadShape.step {st : Progress} (hs : HeadShape st.rws) (op : Op) :
    Outcome (· ≠ .diverges) (fun st' => HeadShape st'.rws) (st.step env op) := by
  have hwrite (direct : Bool) (p : Bytes) : Outcome (· ≠ .diverges) (fun st' => HeadShape st'.rws)
      ((st.rws.write env direct p).map (st.wrote p)) :=
    ((hs.write hhead direct p).weaken (fun _ h => h.elim)).map fun r hr => hr
  cases op with
  | header h => exact hs.congr hs.statusOk
  | writeHeader code =>
    show Outcome _ _ ((st.rws.writeHeader code).map _)
    unfold writeHeader
    split
    · exact hs
    · split
      · exact nofun
      · exact hs.snapshot code (by omega)
  | write p => exact hwrite true p
  | writeString p => exact hwrite false p
  | flush => exact (hs.flush hhead).1

theorem headShape_run (ops : List Op) :
    Outcome (· ≠ .diverges) (fun st => HeadShape st.rws) (Progress.run env ops) := by
  exact Lib.Run.outcome_of_forall (fun _ op h => HeadShape.step hhead h op) headShape_new ops

/-- The response to a HEAD request is its header. -/
theorem HeadShape.finish (hs : HeadShape s) :
    ∃ w : ResHeaders, (s.finish env).out = [.headers w] ∧ w.endStream = true ∧
      100 ≤ w.httpResCode := by
  have hdone : HeadShape { s with handlerDone := true } := hs.congr hs.statusOk
  obtain ⟨h, hsent⟩ := hdone.flush hhead
  exact (h.sent hsent).2

end

/-! ## Invariants of a running writer -/

/-- An invariant of a running handler that sending the header keeps, and that is not about the
buffer or about what was asked for. -/
structure Steady (env : ResponseEnv) (I : ResponseWriter → Prop) : Prop where
  running : ∀ s, I s → s.handlerDone = false
  snapshot : ∀ s code, I s → I (s.snapshot code)
  sendHeader : ∀ s p, I s → s.sentHeader = false → I (s.sendHeader env p).2
  frame : ∀ s buf bwErr out, I s → I { s with buf := buf, bwErr := bwErr, out := out }

section Steady

variable {I : ResponseWriter → Prop}

section

variable (hI : Steady env I)

include hI

theorem Steady.writeChunk (h : I s) (p : Bytes) : I (s.writeChunk env p).2.2 := by
  have hsnap := hI.snapshot s 200 h
  unfold ResponseWriter.writeChunk
  generalize s.snapshot 200 = t at hsnap
  have hheader : I (if t.sentHeader then (none, t) else t.sendHeader env p).2 := by
    cases hsent : t.sentHeader with
    | true => exact hsnap
    | false => exact hI.sendHeader t p hsnap hsent
  dsimp only
  generalize (if t.sentHeader then (none, t) else t.sendHeader env p) = header at hheader
  cases header.1 with
  | some r => exact hheader
  | none =>
    dsimp only
    split
    · exact hheader
    · split
      · exact hheader
      · rw [sendBody_of_running (hI.running _ hheader)]
        exact hI.frame _ _ _ _ hheader

theorem Steady.bufioFlush (h : I s) : I (s.bufioFlush env) := by
  have hchunk := hI.writeChunk h s.buf
  unfold ResponseWriter.bufioFlush
  split
  · exact h
  · dsimp only
    split <;> split <;> exact hI.frame _ _ _ _ hchunk

theorem Steady.bufioWrite (direct : Bool) {fuel nn : Nat} (h : I s) :
    Yields (fun r => I r.2.2) (bufioWrite env direct fuel s p nn) := by
  induction fuel generalizing s p nn with
  | zero =>
    unfold bufioWrite
    split
    · trivial
    · split
      · exact h
      · exact hI.frame _ _ _ _ h
  | succ fuel ih =>
    unfold bufioWrite
    split
    · dsimp only
      split
      · exact ih (hI.frame _ _ _ _ (hI.writeChunk h p))
      · exact ih (hI.bufioFlush (hI.frame _ _ _ _ h))
    · split
      · exact h
      · exact hI.frame _ _ _ _ h

theorem Steady.flush (h : I s) : I (s.flush env) := by
  unfold ResponseWriter.flush
  split
  · exact hI.bufioFlush h
  · exact hI.writeChunk h []

end

end Steady

end ResponseWriter

end Fhttp.Http2
