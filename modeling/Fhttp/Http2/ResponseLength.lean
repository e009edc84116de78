import Fhttp.Http2.ResponseStream

/-!
# The declared length of a response

A handler that sets a `Content-Length` should not get more bytes through than it has declared.
`write` counts the bytes that it is given and refuses those above `sentContentLen`, which is
learned when the header is sent: `Knows` is what holds of the length from the time that the header
map is taken.  So the limit is not there for the bytes that go to the buffer before, and a length
of 0 is no limit at all.
-/

namespace Fhttp.Http2

open Hpack (Bytes ascii)
open Lib.Panic (Outcome Returns Yields)
open List

/-- The bytes of the body that a request is about. -/
def ResponseWrite.payload : ResponseWrite → Bytes
  | .headers _ => []
  | .data p _ => p

namespace ResponseWriter

/-- The header map when the header is written: at the first call that does so, or at the return of
the handler. -/
def headerAtWrite : Header → List Op → Header
  | h, [] => h
  | _, .header h :: ops => headerAtWrite h ops
  | h, _ :: _ => h

/-- The length that a header map declares. -/
def declaredLength (h : Header) : Option Nat := parseUint63 (h.first (ascii "Content-Length"))

/-- The bytes of a call of `Write` or `WriteString`, which differ in the use of the buffer. -/
def Op.written : Op → Option (Bool × Bytes)
  | .write p => some (true, p)
  | .writeString p => some (false, p)
  | _ => none

/-- A call of `Write` keeps to the length, or the limit is known. -/
def Careful (N : Nat) (st : Progress) (op : Op) : Prop :=
  ∀ direct p, op.written = some (direct, p) →
    bodyAllowedForStatus (st.rws.snapshot 200).status = true →
    st.accepted.length + p.length ≤ N ∨ st.rws.sentHeader = true ∧ N ≠ 0

/-- The counter of the bytes does not wrap. -/
def Countable (st : Progress) (op : Op) : Prop :=
  ∀ direct p, op.written = some (direct, p) → st.rws.wroteBytes.toInt + p.length < 2 ^ 63

/-- A call of `Write` that goes beyond the length returns an error. -/
def Refuses (env : ResponseEnv) (N : Nat) (st : Progress) (op : Op) : Prop :=
  ∀ direct p, op.written = some (direct, p) → N < st.accepted.length + p.length →
    Returns (fun r => r.2.1 ≠ none) (st.rws.write env direct p)

variable {env : ResponseEnv} {N : Nat} {w : Int64} {s : ResponseWriter}

/-! ## What the writer knows of the length -/

/-- The header map is taken and declares the length, which is the limit once the header is
sent.  The handler has written so many bytes. -/
structure Knows (N : Nat) (w : Int64) (s : ResponseWriter) : Prop where
  wroteHeader : s.wroteHeader = true
  running : s.handlerDone = false
  counted : s.wroteBytes = w
  sent : s.sentHeader = true → s.sentContentLen = Int64.ofNat N
  unsent : s.sentHeader = false → s.sentContentLen = 0 ∧ declaredLength s.snapHeader = some N

theorem Knows.snapshot (h : Knows N w s) (code : Int) : s.snapshot code = s := if_pos h.wroteHeader

/-- Once the header is sent, its length is the limit. -/
theorem steady_knows (env : ResponseEnv) (N : Nat) (w : Int64) : Steady env (Knows N w) where
  running _ h := h.running
  snapshot s code h := (h.snapshot code).symm ▸ h
  sendHeader s p h hsent := by
    obtain ⟨hopen, _⟩ := opened_sendHeader env s p
    obtain ⟨_, hlen⟩ := h.unsent hsent
    refine ⟨hopen.wroteHeader.trans h.wroteHeader, hopen.handlerDone.trans h.running,
      hopen.wroteBytes.trans h.counted, fun _ => ?_, fun hno => ?_⟩
    · rw [hopen.sentContentLen, show parseUint63 _ = some N from hlen]
      rfl
    · exact absurd (hopen.sentHeader.symm.trans hno) (by decide)
  frame _ _ _ _ h := ⟨h.wroteHeader, h.running, h.counted, h.sent, h.unsent⟩

/-- The count after a call of `Write`. -/
def countAfter (s : ResponseWriter) (p : Bytes) : Int64 :=
  if bodyAllowedForStatus (s.snapshot 200).status then s.wroteBytes + Int64.ofNat p.length
  else s.wroteBytes

/-- `Write` refuses the bytes above a limit that is known. -/
def OverLimit (s : ResponseWriter) (p : Bytes) : Prop :=
  s.sentContentLen ≠ 0 ∧ s.wroteBytes + Int64.ofNat p.length > s.sentContentLen

theorem wroteBytes_snapshot (s : ResponseWriter) (code : Int) :
    (s.snapshot code).wroteBytes = s.wroteBytes := (snapped_snapshot s code).wroteBytes

theorem Knows.write (env : ResponseEnv) (h : Knows N w (s.snapshot 200)) (direct : Bool)
    (p : Bytes) : Yields (fun r => Knows N (s.countAfter p) r.2.2) (s.write env direct p) := by
  unfold ResponseWriter.write countAfter
  rw [← wroteBytes_snapshot s 200]
  generalize s.snapshot 200 = t at h
  dsimp only
  cases bodyAllowedForStatus t.status with
  | false => exact ⟨h.wroteHeader, h.running, rfl, h.sent, h.unsent⟩
  | true =>
    rw [Bool.not_true, if_neg Bool.false_ne_true, if_pos rfl]
    have hcount : Knows N (t.wroteBytes + Int64.ofNat p.length)
        { t with wroteBytes := t.wroteBytes + Int64.ofNat p.length } :=
      ⟨h.wroteHeader, h.running, rfl, h.sent, h.unsent⟩
    split
    · exact hcount
    · exact (steady_knows env N _).bufioWrite direct hcount

variable {p : Bytes} {op : Op} {ops : List Op} {st : Progress}

/-- `Write` refuses the bytes that the response may not have, and those above the limit. -/
theorem write_refused (env : ResponseEnv) (direct : Bool)
    (hover : bodyAllowedForStatus (s.snapshot 200).status = true → (s.snapshot 200).OverLimit p) :
    Returns (fun r => r.1 = 0 ∧ r.2.1 ≠ none) (s.write env direct p) := by
  unfold ResponseWriter.write
  dsimp only
  cases hallowed : bodyAllowedForStatus (s.snapshot 200).status with
  | false => exact ⟨rfl, by simp⟩
  | true =>
    rw [Bool.not_true, if_neg Bool.false_ne_true, if_pos ?_]
    · exact ⟨rfl, by simp⟩
    · exact hover hallowed

/-- A response with a body refuses nothing else. -/
theorem Shape.overLimit_of_refused {asked : Bytes} (hs : Shape s asked) (hhead : env.isHead = false)
    (hallowed : bodyAllowedForStatus (s.snapshot 200).status = true) {direct : Bool}
    (h : Returns (fun r => r.2.1 ≠ none) (s.write env direct p)) :
    (s.snapshot 200).OverLimit p := by
  refine Classical.byContradiction fun hnot => ?_
  have hsnap := hs.snapshot 200 ⟨by decide, by decide⟩
  unfold ResponseWriter.write at h
  generalize s.snapshot 200 = t at hsnap hallowed hnot h
  dsimp only at h
  rw [hallowed, Bool.not_true, if_neg Bool.false_ne_true, if_neg ?_] at h
  · have hcount : Shape { t with wroteBytes := t.wroteBytes + Int64.ofNat p.length } asked :=
      hsnap.congr hsnap.statusOk
    have hwrite : Returns (fun r => r.1 = 0 + p.length ∧ r.2.1 = none ∧ _)
        (ResponseWriter.bufioWrite env direct (p.length + 2) _ p 0) :=
      hcount.bufioWrite hhead direct (by split <;> omega)
    obtain ⟨r, heq, hr⟩ := Lib.Panic.returns_iff.mp hwrite
    rw [heq] at h
    exact h hr.2.1
  · exact hnot

theorem toInt_add_ofNat {n : Nat} (hw : 0 ≤ w.toInt) (hlt : w.toInt + n < 2 ^ 63) :
    (w + Int64.ofNat n).toInt = w.toInt + n := by
  rw [Int64.toInt_add, Int64.toInt_ofNat_of_lt (by omega)]
  exact Int.bmod_eq_of_le (by omega) (by omega)

/-- There is a limit only if the header is sent and the length is not 0. -/
theorem Knows.limited (h : Knows N w s) (hover : s.OverLimit p) : s.sentHeader = true ∧ N ≠ 0 := by
  cases hsent : s.sentHeader with
  | false => exact absurd (h.unsent hsent).1 hover.1
  | true =>
    refine ⟨rfl, ?_⟩
    rintro rfl
    exact hover.1 (h.sent hsent)

/-- The limit is kept as long as the counter does not wrap. -/
theorem Knows.overLimit_iff (h : Knows N w s) (hN : N < 2 ^ 63) (hw : 0 ≤ w.toInt)
    (hcount : w.toInt + p.length < 2 ^ 63) (hsent : s.sentHeader = true) (hne : N ≠ 0) :
    s.OverLimit p ↔ (N : Int) < w.toInt + p.length := by
  unfold OverLimit
  have hlen : (Int64.ofNat N).toInt = N := Int64.toInt_ofNat_of_lt hN
  have hzero : Int64.ofNat N ≠ 0 := by
    rw [Ne, ← Int64.toInt_inj, hlen]
    simpa using hne
  rw [h.counted, h.sent hsent, gt_iff_lt, Int64.lt_iff_toInt_lt, hlen, toInt_add_ofNat hw hcount]
  exact and_iff_right hzero

/-! ## One call -/

/-- What is known of the length before some calls: the header map is not yet taken, and the
calls leave one that declares the length, or the writer knows it. -/
def Aware (N : Nat) (ops : List Op) (s : ResponseWriter) : Prop :=
  (∃ h, s = { handlerHeader := h } ∧ declaredLength (headerAtWrite h ops) = some N) ∨
    ∃ w, Knows N w s

/-- The map is taken at the first call that is about the response. -/
theorem Aware.knows (h : Aware N (op :: ops) s) (hop : ∀ m, op ≠ .header m) (code : Int) :
    Knows N s.wroteBytes (s.snapshot code) := by
  obtain ⟨m, rfl, hlen⟩ | ⟨w, hknows⟩ := h
  · refine ⟨rfl, rfl, rfl, nofun, fun _ => ⟨rfl, ?_⟩⟩
    cases op with
    | header m => exact absurd rfl (hop m)
    | _ => exact hlen
  · rw [hknows.snapshot, hknows.counted]
    exact hknows

theorem Aware.knows_flush (h : Aware N (.flush :: ops) s) : Knows N s.wroteBytes (s.flush env) := by
  have hknows := h.knows (fun m => Op.noConfusion) 200
  obtain ⟨m, rfl, _⟩ | ⟨w, hknows'⟩ := h
  · show Knows N _ ((ResponseWriter.snapshot { handlerHeader := m } 200).flush env)
    exact (steady_knows env N _).flush hknows
  · rw [hknows'.snapshot] at hknows
    exact (steady_knows env N _).flush hknows

/-- A call leaves the length known. -/
theorem Aware.step (env : ResponseEnv) (h : Aware N (op :: ops) st.rws) :
    Yields (fun st' => Aware N ops st'.rws) (st.step env op) := by
  have hwrite (direct : Bool) (p : Bytes) (hop : ∀ m, op ≠ .header m) :
      Yields (fun st' => Aware N ops st'.rws) ((st.rws.write env direct p).map (st.wrote p)) :=
    ((h.knows hop 200).write env direct p).map fun r hr => .inr ⟨_, hr⟩
  cases op with
  | header m =>
    obtain ⟨m', heq, hlen⟩ | ⟨w, hknows⟩ := h
    · exact .inl ⟨m, congrArg (fun s : ResponseWriter => { s with handlerHeader := m }) heq, hlen⟩
    · exact .inr ⟨w, hknows.wroteHeader, hknows.running, hknows.counted, hknows.sent,
        hknows.unsent⟩
  | writeHeader code =>
    have hknows := h.knows (fun m => Op.noConfusion) code
    show Outcome _ _ ((st.rws.writeHeader code).map _)
    unfold ResponseWriter.writeHeader
    split
    · rename_i hwrote
      rw [ResponseWriter.snapshot, if_pos hwrote] at hknows
      exact .inr ⟨_, hknows⟩
    · split
      · trivial
      · exact .inr ⟨_, hknows⟩
  | write p => exact hwrite true p fun m => Op.noConfusion
  | writeString p => exact hwrite false p fun m => Op.noConfusion
  | flush => exact .inr ⟨_, h.knows_flush⟩

/-- A response that keeps to its length so far. -/
structure Within (N : Nat) (st : Progress) : Prop where
  counted : (st.accepted.length : Int) ≤ st.rws.wroteBytes.toInt
  le : st.accepted.length ≤ N

/-- A call of `Write` in a response that keeps to its length: the bytes above it are refused, and
the others do not exceed it. -/
theorem Within.write (env : ResponseEnv) (h : Within N st)
    (hknows : Knows N st.rws.wroteBytes (st.rws.snapshot 200)) (hN : N < 2 ^ 63) (direct : Bool)
    (hcount : st.rws.wroteBytes.toInt + p.length < 2 ^ 63)
    (hcareful : bodyAllowedForStatus (st.rws.snapshot 200).status = true →
      st.accepted.length + p.length ≤ N ∨ st.rws.sentHeader = true ∧ N ≠ 0) :
    (N < st.accepted.length + p.length →
        Returns (fun r => r.2.1 ≠ none) (st.rws.write env direct p)) ∧
      Yields (Within N) ((st.rws.write env direct p).map (st.wrote p)) := by
  obtain ⟨hle, hleN⟩ := h
  have hafter : st.rws.wroteBytes.toInt ≤ (st.rws.countAfter p).toInt ∧
      (bodyAllowedForStatus (st.rws.snapshot 200).status = true →
        (st.rws.countAfter p).toInt = st.rws.wroteBytes.toInt + p.length) := by
    unfold countAfter
    cases bodyAllowedForStatus (st.rws.snapshot 200).status with
    | false => simp
    | true =>
      rw [if_pos rfl, toInt_add_ofNat (by omega) hcount]
      exact ⟨by omega, fun _ => rfl⟩
  have hknows' := hknows.write env direct p
  by_cases href : bodyAllowedForStatus (st.rws.snapshot 200).status = true →
      (st.rws.snapshot 200).OverLimit p
  · obtain ⟨r, heq, hn, herr⟩ := Lib.Panic.returns_iff.mp (write_refused env direct href)
    rw [heq] at hknows' ⊢
    have hcounted : r.2.2.wroteBytes = st.rws.countAfter p := hknows'.counted
    refine ⟨fun _ => herr, ?_, ?_⟩ <;> dsimp only [Progress.wrote] <;>
      rw [hn, take_zero, append_nil]
    · rw [hcounted]
      omega
    · exact hleN
  · obtain ⟨hallowed, hnot⟩ := Classical.not_imp.mp href
    have hfits : st.accepted.length + p.length ≤ N := by
      rcases hcareful hallowed with hfits | ⟨hsent, hne⟩
      · exact hfits
      · have hsent' := (snapped_snapshot st.rws 200).sentHeader.trans hsent
        have hlimit := mt (hknows.overLimit_iff hN (by omega) hcount hsent' hne).mpr hnot
        omega
    refine ⟨fun hlt => absurd hfits (by omega), hknows'.map fun r hr => ?_⟩
    have hcounted : r.2.2.wroteBytes.toInt = st.rws.wroteBytes.toInt + p.length := by
      rw [hr.counted, hafter.2 hallowed]
    constructor <;> dsimp only [Progress.wrote] <;> rw [length_append, length_take] <;>
      omega

/-- A call in a response that keeps to its length. -/
theorem Within.step (env : ResponseEnv) (h : Within N st) (haware : Aware N (op :: ops) st.rws)
    (hN : N < 2 ^ 63) (hcount : Countable st op) (hcareful : Careful N st op) :
    Refuses env N st op ∧ Yields (Within N) (st.step env op) := by
  have hwrite {direct : Bool} {p : Bytes} (hop : op.written = some (direct, p)) :=
    h.write env (haware.knows (fun m heq => by rw [heq] at hop; cases hop) 200) hN direct
      (hcount direct p hop) (hcareful direct p hop)
  refine ⟨fun direct p hop => (hwrite hop).1, ?_⟩
  cases op with
  | header m => exact ⟨h.counted, h.le⟩
  | writeHeader code =>
    show Outcome _ _ ((st.rws.writeHeader code).map _)
    unfold ResponseWriter.writeHeader
    split
    · exact h
    · split
      · trivial
      · refine ⟨?_, h.le⟩
        rw [wroteBytes_snapshot]
        exact h.counted
  | write p => exact (hwrite rfl).2
  | writeString p => exact (hwrite rfl).2
  | flush =>
    refine ⟨?_, h.le⟩
    rw [haware.knows_flush.counted]
    exact h.counted

/-! ## Whole handlers -/

theorem Within.run (h : Within N st) (haware : Aware N ops st.rws) (hN : N < 2 ^ 63)
    (halways : Lib.Run.Always (Progress.step env)
      (fun st op => Careful N st op ∧ Countable st op) st ops) :
    Lib.Run.Always (Progress.step env) (Refuses env N) st ops ∧
      Yields (Within N) (ops.foldlM (Progress.step env) st) := by
  induction ops generalizing st with
  | nil => exact ⟨trivial, h⟩
  | cons op ops ih =>
    obtain ⟨hrefuses, hwithin⟩ := h.step env haware hN halways.1.2 halways.1.1
    have haware' := haware.step env
    have hrest := halways.2
    unfold Lib.Run.Always
    rw [foldlM_cons]
    cases hstep : st.step env op with
    | error e => exact ⟨⟨hrefuses, trivial⟩, trivial⟩
    | ok st' =>
      rw [hstep] at hwithin haware' hrest
      obtain ⟨hall, hend⟩ := ih hwithin haware' hrest
      exact ⟨⟨hrefuses, hall⟩, hend⟩

/-- A response with a body that refuses the bytes above its length has been given only such
bytes after its header was sent. -/
theorem careful_of_refuses (hhead : env.isHead = false) (h : st.Holds) (haware : Aware N ops st.rws)
    (halways : Lib.Run.Always (Progress.step env) (Refuses env N) st ops) :
    Lib.Run.Always (Progress.step env) (Careful N) st ops := by
  induction ops generalizing st with
  | nil => trivial
  | cons op ops ih =>
    refine ⟨fun direct p hop hallowed => ?_, ?_⟩
    · obtain ⟨asked, hshape, _⟩ := h
      rcases Nat.lt_or_ge N (st.accepted.length + p.length) with hlt | hle
      · have hover := hshape.overLimit_of_refused hhead hallowed (halways.1 direct p hop hlt)
        have hknows := haware.knows (fun m heq => by rw [heq] at hop; cases hop) 200
        rw [← (snapped_snapshot st.rws 200).sentHeader]
        exact .inr (hknows.limited hover)
      · exact .inl hle
    · have hstep' := h.step hhead op
      have haware' := haware.step env
      have hrest := halways.2
      cases hstep : st.step env op with
      | error e => trivial
      | ok st' =>
        rw [hstep] at hstep' haware' hrest
        exact ih hstep' haware' hrest

/-- The body that is asked for. -/
theorem Closed.payload {asked : Bytes} {out : List ResponseWrite} (h : Closed env s asked out) :
    out.flatMap ResponseWrite.payload = asked ++ s.buf := by
  cases hempty : s.endsEmpty env with
  | true =>
    obtain ⟨rfl, w, rfl, _⟩ := h.empty hempty
    simp only [endsEmpty, Bool.and_eq_true, List.isEmpty_iff] at hempty
    rw [hempty.1.2]
    rfl
  | false =>
    obtain ⟨w, ps, rfl, _, _, _, rfl⟩ := h.body hempty
    have hbody : (ps.map (ResponseWrite.data · false)).flatMap ResponseWrite.payload =
        ps.flatten := by
      simp [flatMap_map, ResponseWrite.payload]
    have hclosing : (s.closing env s.buf).flatMap ResponseWrite.payload = s.buf := by
      unfold closing dataOf
      cases s.buf <;> split <;> simp [ResponseWrite.payload]
    rw [flatMap_cons, flatMap_append, hbody, hclosing]
    rfl

/-- A response with a body sends the accepted bytes. -/
theorem payload_finish (hhead : env.isHead = false) (ops : List Op)
    (hrun : Progress.run env ops = .ok st) :
    (st.rws.finish env).out.flatMap ResponseWrite.payload = st.accepted := by
  have hs := Progress.holds_run hhead ops
  rw [hrun] at hs
  obtain ⟨asked, hshape, hall⟩ := hs
  rw [(hshape.finish hhead).payload, hall]

theorem lt_of_declaredLength {h : Header} (hN : declaredLength h = some N) : N < 2 ^ 63 := by
  obtain ⟨n, _, heq⟩ := Option.bind_eq_some_iff.mp hN
  split at heq
  · cases heq
    assumption
  · cases heq

/-- A response sends no more than its declared length, and refuses the bytes above it, if every
`Write` keeps to the length or comes after the header was sent, and the length is not 0.  The
counter of the bytes must not wrap.  In a response with a body this is also necessary. -/
theorem declared_length_kept (env : ResponseEnv) (ops : List Op) (st : Progress) (N : Nat)
    (hN : declaredLength (headerAtWrite [] ops) = some N) (hrun : Progress.run env ops = .ok st) :
    (Lib.Run.Always (Progress.step env) (fun st op => Careful N st op ∧ Countable st op) {} ops →
        ((st.rws.finish env).out.flatMap ResponseWrite.payload).length ≤ N ∧
          Lib.Run.Always (Progress.step env) (Refuses env N) {} ops) ∧
      (env.isHead = false →
        ((st.rws.finish env).out.flatMap ResponseWrite.payload).length ≤ N ∧
            Lib.Run.Always (Progress.step env) (Refuses env N) {} ops →
          Lib.Run.Always (Progress.step env) (Careful N) {} ops) := by
  have haware : Aware N ops ({} : ResponseWriter) := Or.inl ⟨[], rfl, hN⟩
  have hnew : Within N {} := ⟨by decide, Nat.zero_le N⟩
  refine ⟨fun halways => ?_, fun hhead h => careful_of_refuses hhead Progress.holds_new haware h.2⟩
  obtain ⟨hrefuses, hwithin⟩ := hnew.run haware (lt_of_declaredLength hN) halways
  rw [show ops.foldlM (Progress.step env) {} = .ok st from hrun] at hwithin
  refine ⟨?_, hrefuses⟩
  cases hhead : env.isHead with
  | true =>
    have hs := headShape_run hhead ops
    rw [hrun] at hs
    obtain ⟨w, hout, _⟩ := HeadShape.finish hhead hs
    rw [hout]
    exact Nat.zero_le N
  | false =>
    rw [payload_finish hhead ops hrun]
    exact hwithin.le

/-- A handler that declares a length. -/
def lengthHandler (length : String) (ops : List Op) : List Op :=
  .header [(ascii "Content-Length", [ascii length])] :: ops

/-- A handler that writes within its length, sends the header, and then writes too much. -/
theorem declared_length_kept_after_flush :
    ∃ st, Progress.run plainEnv
        (lengthHandler "3" [.write (ascii "ab"), .flush, .write (ascii "cd")]) = .ok st ∧
      ((st.rws.finish plainEnv).out.flatMap ResponseWrite.payload).length ≤ 3 := by
  refine ⟨_, rfl, ((declared_length_kept plainEnv
    (lengthHandler "3" [.write (ascii "ab"), .flush, .write (ascii "cd")]) _ 3 (by decide)
    rfl).1 ?_).1⟩
  refine ⟨⟨fun _ _ h => (by cases h), fun _ _ h => (by cases h)⟩, ⟨?_, ?_⟩,
    ⟨fun _ _ h => (by cases h), fun _ _ h => (by cases h)⟩, ⟨?_, ?_⟩, trivial⟩
  · intro direct p h _
    cases h
    exact Or.inl (by decide)
  · intro direct p h
    cases h
    decide
  · intro direct p h _
    exact Or.inr (by decide)
  · intro direct p h
    cases h
    decide

/-- Bytes that go to the buffer before the header is sent are not limited, and a length of 0 is no
limit. -/
theorem declared_length_exceeded :
    (∃ st, Progress.run plainEnv (lengthHandler "2" [.write (ascii "hello")]) = .ok st ∧
        (st.rws.finish plainEnv).out.flatMap ResponseWrite.payload = ascii "hello") ∧
      ∃ st, Progress.run plainEnv (lengthHandler "0" [.flush, .write (ascii "hello")]) = .ok st ∧
        (st.rws.finish plainEnv).out.flatMap ResponseWrite.payload = ascii "hello" :=
  ⟨⟨_, rfl, payload_finish rfl (lengthHandler "2" [.write (ascii "hello")]) rfl⟩,
    ⟨_, rfl, payload_finish rfl (lengthHandler "0" [.flush, .write (ascii "hello")]) rfl⟩⟩

end ResponseWriter

end Fhttp.Http2
