import Fhttp.Hpack.Basic
import Fhttp.Lib.Run

/-!
# Readers that limit a body

`maxBytesReader` of `request.go`, and the `body` of `transfer.go` with a declared length, which
reads through an `io.LimitedReader`.  Both read from any other reader, and an `Answer` is what a
call of `Read` returns, together with what it got from that reader.

A limit of `math.MaxInt64` overflows when one is added to it (`maxBytesReader_lawful_iff`).  A
body whose input ends early says so once, and then that it is at its end (`body_complete_iff`).
-/

namespace Fhttp.Http

open Hpack (Bytes)
open Lib.Panic (Fault)
open Lib.Run (trace trace_cons specTrace)
open List

/-- An `io.Reader`: what it returns for a buffer of some size, no more than fits in it. -/
structure Reader (σ E : Type) where
  read : σ → Nat → (Bytes × Option E) × σ
  le : ∀ s len, (read s len).1.1.length ≤ len

/-- What a call of `Read` returns, and what it got from the underlying reader. -/
structure Answer (E E' : Type) where
  bytes : Bytes := []
  err : Option E' := none
  source : Bytes × Option E := ([], none)

variable {σ E E' : Type}

def returned (as : List (Answer E E')) : Bytes := as.flatMap Answer.bytes

def produced (as : List (Answer E E')) : Bytes := as.flatMap fun a => a.source.1

/-! ## `maxBytesReader` -/

inductive MaxBytesError (E : Type) where
  | underlying (e : E)
  | requestBodyTooLarge

/-- The remaining bytes `n` are an `int64` that is not negative. -/
structure MaxBytesReader (σ E : Type) where
  r : σ
  n : Nat
  err : Option (MaxBytesError E) := none

/-- `maxBytesReader.Read`, with a buffer of the length `len`. -/
def MaxBytesReader.read (rd : Reader σ E) (l : MaxBytesReader σ E) (len : Nat) :
    Except Fault (Answer E (MaxBytesError E) × MaxBytesReader σ E) :=
  if l.err.isSome then .ok ({ err := l.err }, l)
  else if len = 0 then .ok ({}, l)
  else
    let more := ((l.n : Int) + 1).bmod (2 ^ 64)
    if len > more ∧ more < 0 then .error (.panic "slice bounds out of range")
    else
      let res := rd.read l.r (if len > more then more.toNat else len)
      let p := res.1.1
      if p.length ≤ l.n then
        let err := res.1.2.map MaxBytesError.underlying
        .ok (⟨p, err, res.1⟩, ⟨res.2, l.n - p.length, err⟩)
      else
        let err := some MaxBytesError.requestBodyTooLarge
        .ok (⟨p.take l.n, err, res.1⟩, ⟨res.2, 0, err⟩)

/-- The first bytes up to the limit are returned.  The error is that the body is too large exactly
if there are more bytes, and otherwise that of the underlying reader; it stays. -/
structure Lawful (limit : Nat) (as : List (Answer E (MaxBytesError E))) : Prop where
  bytes : returned as = (produced as).take limit
  tooLarge : (∃ a ∈ as, a.err = some .requestBodyTooLarge) ↔ limit < (produced as).length
  passed : (produced as).length ≤ limit →
    ∀ e, (∃ a ∈ as, a.err = some (.underlying e)) ↔ ∃ a ∈ as, a.source.2 = some e
  sticky : as.Pairwise fun a b => a.err ≠ none → b = { err := a.err }

namespace MaxBytesReader

variable (rd : Reader σ E) {l : MaxBytesReader σ E}

/-- What a call does, with `n` bytes left. -/
inductive Done (n : Nat) : Answer E (MaxBytesError E) → MaxBytesReader σ E → Prop where
  | more {p : Bytes} {r : σ} (hp : p.length ≤ n) :
    Done n ⟨p, none, p, none⟩ ⟨r, n - p.length, none⟩
  | failed {p : Bytes} {e : E} {r : σ} {k : Nat} (hp : p.length ≤ n) :
    Done n ⟨p, some (.underlying e), p, some e⟩ ⟨r, k, some (.underlying e)⟩
  | tooLarge {p : Bytes} {e : Option E} {r : σ} (hp : n < p.length) :
    Done n ⟨p.take n, some .requestBodyTooLarge, p, e⟩ ⟨r, 0, some .requestBodyTooLarge⟩

theorem read_done (herr : l.err = none) (hn : l.n + 1 < 2 ^ 63) (len : Nat) :
    ∃ a l', l.read rd len = .ok (a, l') ∧ Done l.n a l' := by
  obtain ⟨r, n, err⟩ := l
  dsimp only at herr hn
  subst herr
  by_cases hzero : len = 0
  · exact ⟨{}, ⟨r, n, none⟩, by simp [read, hzero], .more (Nat.zero_le n)⟩
  have hmore : ((n : Int) + 1).bmod (2 ^ 64) = n + 1 := Int.bmod_eq_of_le (by omega) (by omega)
  simp only [read, Option.isSome_none, Bool.false_eq_true, if_false, hzero, hmore]
  rw [if_neg (by omega)]
  generalize rd.read r _ = res
  obtain ⟨⟨p, e⟩, r'⟩ := res
  by_cases hp : p.length ≤ n
  · rw [if_pos hp]
    cases e with
    | none => exact ⟨_, _, rfl, .more hp⟩
    | some e => exact ⟨_, _, rfl, .failed hp⟩
  · rw [if_neg hp]
    exact ⟨_, _, rfl, .tooLarge (Nat.lt_of_not_le hp)⟩

/-- After an error there is only the error. -/
theorem trace_of_err (herr : l.err.isSome = true) (lens : List Nat) :
    trace (read rd) l lens = .ok (lens.map fun _ => { err := l.err }, l) := by
  induction lens with
  | nil => rfl
  | cons len lens ih => exact trace_cons (if_pos herr) ih

theorem lawful_trace (herr : l.err = none) (hn : l.n + 1 < 2 ^ 63) (lens : List Nat) :
    ∃ as l', trace (read rd) l lens = .ok (as, l') ∧ Lawful l.n as := by
  induction lens generalizing l with
  | nil => exact ⟨[], l, rfl, by constructor <;> simp [returned, produced]⟩
  | cons len lens ih =>
    obtain ⟨a, l', hread, hdone⟩ := read_done rd herr hn len
    generalize l.n = n at hn hdone
    cases hdone with
    | @more p r hp =>
      obtain ⟨as, l'', htrace, hlaw⟩ := @ih ⟨r, n - p.length, none⟩ rfl (by dsimp only; omega)
      refine ⟨_, l'', trace_cons hread htrace, ?_, ?_, fun hle => ?_,
        pairwise_cons.mpr ⟨fun _ _ h => absurd rfl h, hlaw.sticky⟩⟩
      · show p ++ returned as = (p ++ produced as).take n
        rw [take_append, take_of_length_le hp, hlaw.bytes]
      · show _ ↔ n < (p ++ produced as).length
        have htooLarge := hlaw.tooLarge
        rw [length_append]
        simp only [mem_cons, exists_eq_or_imp, reduceCtorEq, false_or, htooLarge]
        omega
      · have hlength : (p ++ produced as).length ≤ n := hle
        rw [length_append] at hlength
        simpa using hlaw.passed (show _ ≤ n - p.length by omega)
    | failed hp =>
      refine ⟨_, _, trace_cons hread (trace_of_err rd rfl lens), ?_⟩
      constructor <;>
        simp [returned, produced, hp, flatMap_replicate, take_of_length_le hp]
    | tooLarge hp =>
      refine ⟨_, _, trace_cons hread (trace_of_err rd rfl lens), ?_⟩
      constructor <;> simp [returned, produced, hp, flatMap_replicate, Nat.not_le_of_lt hp]

end MaxBytesReader

/-- `maxBytesReader` keeps to its limit in every run exactly if one can be added to the limit. -/
theorem maxBytesReader_lawful_iff (rd : Reader σ E) (r : σ) (n : Fin (2 ^ 63)) :
    (∀ lens, ∃ as l, trace (MaxBytesReader.read rd) ⟨r, n, none⟩ lens = .ok (as, l) ∧ Lawful n as) ↔
      n.val + 1 < 2 ^ 63 := by
  refine ⟨fun h => ?_, fun hn => MaxBytesReader.lawful_trace rd rfl hn⟩
  refine Classical.byContradiction fun hmax => ?_
  obtain ⟨as, l, htrace, -⟩ := h [1]
  have hread : MaxBytesReader.read rd ⟨r, 2 ^ 63 - 1, none⟩ 1 =
      .error (.panic "slice bounds out of range") := by
    unfold MaxBytesReader.read
    dsimp only
    rw [if_neg nofun, if_neg Nat.one_ne_zero, if_pos (by decide)]
  rw [show n.val = 2 ^ 63 - 1 by omega, trace, hread] at htrace
  cases htrace

/-- A reader that has nothing to read. -/
def emptyReader (E : Type) (err : Option E) : Reader Unit E :=
  ⟨fun s _ => (([], err), s), fun _ len => Nat.zero_le len⟩

theorem maxBytesReader_panics :
    trace (MaxBytesReader.read (emptyReader Unit none)) ⟨(), 2 ^ 63 - 1, none⟩ [1] =
      .error (.panic "slice bounds out of range") := rfl

/-! ## A body with a declared length -/

inductive BodyError where
  | eof
  | errUnexpectedEOF
  | other (msg : String)
deriving DecidableEq

/-- `io.LimitedReader`. -/
structure LimitedReader (σ : Type) where
  r : σ
  n : Nat

def LimitedReader.read (rd : Reader σ BodyError) (l : LimitedReader σ) (len : Nat) :
    (Bytes × Option BodyError) × LimitedReader σ :=
  if l.n = 0 then (([], some .eof), l)
  else
    let res := rd.read l.r (if len > l.n then l.n else len)
    (res.1, ⟨res.2, l.n - res.1.1.length⟩)

/-- A `body` without a trailer, which reads up to a declared length and is not closed. -/
structure LimitedBody (σ : Type) where
  src : LimitedReader σ
  sawEOF : Bool := false

/-- `body.readLocked`. -/
def LimitedBody.read (rd : Reader σ BodyError) (b : LimitedBody σ) (len : Nat) :
    Answer BodyError BodyError × LimitedBody σ :=
  if b.sawEOF then ({ err := some .eof }, b)
  else
    let res := b.src.read rd len
    let p := res.1.1
    if res.1.2 = some .eof then
      (⟨p, some (if res.2.n > 0 then .errUnexpectedEOF else .eof), res.1⟩, ⟨res.2, true⟩)
    else if res.1.2 = none ∧ p.length > 0 ∧ res.2.n = 0 then (⟨p, some .eof, res.1⟩, ⟨res.2, true⟩)
    else (⟨p, res.1.2, res.1⟩, ⟨res.2, false⟩)

/-- The bytes of the input are returned, at most `n` of them, and `io.EOF` only after all `n`. -/
structure Complete (n : Nat) (as : List (Answer BodyError BodyError)) : Prop where
  bytes : returned as = produced as
  le : (returned as).length ≤ n
  eof : (∃ a ∈ as, a.err = some .eof) → (returned as).length = n

/-- No call comes after the one that noticed that the input has ended early. -/
def StopsEarly (rd : Reader σ BodyError) : LimitedBody σ → List Nat → Prop :=
  Lib.Run.Always (fun b len => .ok (b.read rd len).2) fun b _ => ¬ (b.sawEOF = true ∧ b.src.n > 0)

section

variable (rd : Reader σ BodyError) {b : LimitedBody σ} {n : Nat}

theorem LimitedBody.returned_of_sawEOF (hsaw : b.sawEOF = true) (lens : List Nat) :
    returned (specTrace (LimitedBody.read rd) b lens).1 = [] := by
  induction lens with
  | nil => rfl
  | cons len lens ih =>
    rw [specTrace, show b.read rd len = ({ err := some .eof }, b) from if_pos hsaw]
    exact ih

theorem LimitedReader.read_le (l : LimitedReader σ) (len : Nat) :
    (l.read rd len).1.1.length + (l.read rd len).2.n = l.n := by
  unfold LimitedReader.read
  split
  · exact Nat.zero_add _
  · dsimp only
    generalize hm : (if len > l.n then l.n else len) = m
    have hle := rd.le l.r m
    split at hm <;> omega

/-- A call that is not after the end: the bytes count, and `io.EOF` comes with the last one. -/
theorem LimitedBody.read_running (hsaw : b.sawEOF = false) (len : Nat) :
    (b.read rd len).1.bytes = (b.read rd len).1.source.1 ∧
      (b.read rd len).1.bytes.length + (b.read rd len).2.src.n = b.src.n ∧
      ((b.read rd len).1.err = some .eof → (b.read rd len).2.src.n = 0) := by
  have hsum := LimitedReader.read_le rd b.src len
  unfold LimitedBody.read
  rw [hsaw, if_neg Bool.false_ne_true]
  generalize b.src.read rd len = res at hsum
  dsimp only
  split
  · refine ⟨rfl, hsum, fun heof => ?_⟩
    split at heof
    · cases heof
    · exact Nat.eq_zero_of_not_pos ‹_›
  · split
    · rename_i hlast
      exact ⟨rfl, hsum, fun _ => hlast.2.2⟩
    · rename_i hmore _
      exact ⟨rfl, hsum, fun heof => absurd heof hmore⟩

theorem complete_cons {a : Answer BodyError BodyError} {as : List (Answer BodyError BodyError)}
    (hbytes : a.bytes = a.source.1) (heof : a.err = some .eof → n = 0) :
    Complete (a.bytes.length + n) (a :: as) ↔ Complete n as := by
  have hreturned : returned (a :: as) = a.bytes ++ returned as := rfl
  have hproduced : produced (a :: as) = a.bytes ++ produced as := by rw [hbytes]; rfl
  constructor
  · rintro ⟨hall, hless, hend⟩
    rw [hreturned, hproduced] at hall
    rw [hreturned, length_append] at hless hend
    refine ⟨append_cancel_left hall, by omega, fun ⟨a', ha', herr⟩ => ?_⟩
    exact Nat.add_left_cancel (hend ⟨a', mem_cons_of_mem _ ha', herr⟩)
  · rintro ⟨hall, hless, hend⟩
    refine ⟨by rw [hreturned, hproduced, hall], ?_, fun ⟨a', ha', herr⟩ => ?_⟩ <;>
      rw [hreturned, length_append]
    · omega
    · rcases mem_cons.mp ha' with rfl | ha'
      · have hzero := heof herr
        omega
      · rw [hend ⟨a', ha', herr⟩]

end

/-- A body is complete when it says so, exactly if it is not read again once its input has ended
early. -/
theorem body_complete_iff (rd : Reader σ BodyError) (r : σ) (n : Nat) (lens : List Nat) :
    Complete n (specTrace (LimitedBody.read rd) ⟨⟨r, n⟩, false⟩ lens).1 ↔
      StopsEarly rd ⟨⟨r, n⟩, false⟩ lens := by
  suffices h : ∀ b : LimitedBody σ,
      (Complete b.src.n (specTrace (LimitedBody.read rd) b lens).1 ↔ StopsEarly rd b lens) from
    h ⟨⟨r, n⟩, false⟩
  induction lens with
  | nil => exact fun b => iff_of_true ⟨rfl, Nat.zero_le _, nofun⟩ trivial
  | cons len lens ih =>
    intro b
    show Complete b.src.n ((b.read rd len).1 :: _) ↔ ¬ _ ∧ StopsEarly rd (b.read rd len).2 lens
    cases hsaw : b.sawEOF with
    | false =>
      obtain ⟨hbytes, hsum, heof⟩ := LimitedBody.read_running rd hsaw len
      rw [← hsum, complete_cons hbytes heof, ih]
      simp
    | true =>
      rw [show b.read rd len = ({ err := some .eof }, b) from if_pos hsaw]
      rcases Nat.eq_zero_or_pos b.src.n with hzero | hpos
      · have hcons : Complete (0 + b.src.n) ({ err := some .eof } :: _) ↔
          Complete b.src.n (specTrace (LimitedBody.read rd) b lens).1 :=
          complete_cons (a := { err := some .eof }) rfl fun _ => hzero
        rw [Nat.zero_add, ih] at hcons
        exact hcons.trans (and_iff_right fun h => Nat.ne_of_gt h.2 hzero).symm
      · refine iff_of_false (fun h => Nat.ne_of_gt hpos ?_) fun h => h.1 ⟨rfl, hpos⟩
        have hend : (returned (specTrace (LimitedBody.read rd) b lens).1).length = b.src.n :=
          h.eof ⟨_, mem_cons_self, rfl⟩
        rw [← hend, LimitedBody.returned_of_sawEOF rd hsaw, length_nil]

/-- The second call says that the body is at its end, which has not a byte of the three. -/
theorem body_ended_early :
    (specTrace (LimitedBody.read (emptyReader BodyError (some .eof))) ⟨⟨(), 3⟩, false⟩ [1, 1]).1.map
      Answer.err = [some .errUnexpectedEOF, some .eof] := rfl

end Fhttp.Http
