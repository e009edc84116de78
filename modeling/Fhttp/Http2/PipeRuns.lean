import Mathlib.Data.List.Induction
import Fhttp.Http2.Pipe

/-!
# Runs of a pipe

The writer and the reader of a pipe call its methods in any interleaving.  A `History` is
the pipe after some calls, with the bytes that `Write` has accepted, those that `Read` has
returned, and the attached code that has run.

`Follows` is the invariant.  It ties the two error slots to the first close and to the first
break among the calls, and it splits the accepted bytes into those returned and those in the
buffer; a break turns the second part into a count.

`pipe_conserves` says what the callers see: the bytes and their order, the error of every `Read`
that comes after them, the answer of every `Write`, and when the attached code runs.

A `Read` that has to wait leaves the history as it is.  When it is woken, it looks at the pipe
again from the start, so it takes effect as a later call.
-/

namespace Fhttp.Http2

open Hpack (Bytes)
open List

namespace Pipe

variable {ε φ : Type}

/-- A call of a method.  The errors are not nil: `closeWithError` panics on a nil error before
it looks at the pipe. -/
inductive Call (ε φ : Type) where
  | write (d : Bytes)
  | read (n : Nat)
  | closeWithError (e : ε)
  | closeWithErrorAndCode (e : ε) (fn : Option φ)
  | breakWithError (e : ε)
deriving DecidableEq

/-- The error and the code of a call that closes the pipe. -/
def Call.closing : Call ε φ → Option (ε × Option φ)
  | .closeWithError e => some (e, none)
  | .closeWithErrorAndCode e fn => some (e, fn)
  | _ => none

/-- The error of a call that breaks the pipe. -/
def Call.breaking : Call ε φ → Option ε
  | .breakWithError e => some e
  | _ => none

/-- The first close among the calls. -/
def firstClose (calls : List (Call ε φ)) : Option (ε × Option φ) := calls.findSome? Call.closing

/-- The first break among the calls. -/
def firstBreak (calls : List (Call ε φ)) : Option ε := calls.findSome? Call.breaking

/-- A pipe created with an empty buffer, and what its callers have seen of it. -/
structure History (ε φ : Type) where
  pipe : Pipe ε φ := { b := some [] }
  /-- The bytes accepted by `Write`. -/
  accepted : Bytes := []
  /-- The bytes returned by `Read`. -/
  returned : Bytes := []
  /-- The code run by `Read`. -/
  ran : List φ := []

/-- What a `Write` adds to the history. -/
def History.wrote (h : History ε φ) (d : Bytes) (r : Option WriteError × Pipe ε φ) : History ε φ :=
  if r.1.isSome then { h with pipe := r.2 }
  else { h with pipe := r.2, accepted := h.accepted ++ d }

/-- What a `Read` that returns adds to the history. -/
def History.saw (h : History ε φ) (r : ReadResult ε φ × Pipe ε φ) : History ε φ :=
  { h with
    pipe := r.2
    returned := h.returned ++ r.1.bytes
    ran := h.ran ++ r.1.ran.toList }

def History.step (h : History ε φ) : Call ε φ → History ε φ
  | .write d => h.wrote d (h.pipe.write d)
  | .read n => (h.pipe.read n).elim h h.saw
  | .closeWithError e => { h with pipe := h.pipe.closeWithError e }
  | .closeWithErrorAndCode e fn => { h with pipe := h.pipe.closeWithErrorAndCode e fn }
  | .breakWithError e => { h with pipe := h.pipe.breakWithError e }

/-- The history after some calls. -/
def History.after (calls : List (Call ε φ)) : History ε φ := calls.foldl History.step {}

/-! ## The first error of a kind -/

section FirstError

variable {calls : List (Call ε φ)} {c : Call ε φ}

theorem firstClose_append (h : c.closing = none) :
    firstClose (calls ++ [c]) = firstClose calls := by
  simp [firstClose, findSome?_append, h]

theorem firstClose_close (x : ε × Option φ) (h : c.closing = some x) :
    firstClose (calls ++ [c]) = (firstClose calls).or (some x) := by
  simp [firstClose, findSome?_append, h]

theorem firstBreak_append (h : c.breaking = none) :
    firstBreak (calls ++ [c]) = firstBreak calls := by
  simp [firstBreak, findSome?_append, h]

theorem firstBreak_break (e : ε) (h : c.breaking = some e) :
    firstBreak (calls ++ [c]) = (firstBreak calls).or (some e) := by
  simp [firstBreak, findSome?_append, h]

end FirstError

/-! ## One `Read` -/

section Read

variable {p : Pipe ε φ} {n : Nat}

theorem read_broken {e : ε} (h : p.breakErr = some e) :
    p.read n = some ({ bytes := [], err := some e }, p) := by
  unfold read
  rw [h]

theorem read_nonempty (hbreak : p.breakErr = none) (hb : p.b.getD [] ≠ []) :
    p.read n = some ({ bytes := (p.b.getD []).take n, err := none },
      { p with b := some ((p.b.getD []).drop n) }) := by
  unfold read
  rw [hbreak]
  cases hbytes : p.b.getD [] with
  | nil => exact absurd hbytes hb
  | cons b bytes => rfl

theorem read_closed {e : ε} (hbreak : p.breakErr = none) (hb : p.b.getD [] = [])
    (herr : p.err = some e) :
    p.read n = some ({ bytes := [], err := some e, ran := p.readFn },
      { p with b := none, readFn := none }) := by
  unfold read
  rw [hbreak, hb, herr]

end Read

/-! ## The invariant -/

/-- What the calls say about the history. -/
structure Follows (calls : List (Call ε φ)) (h : History ε φ) : Prop where
  err : h.pipe.err = (firstClose calls).map Prod.fst
  breakErr : h.pipe.breakErr = firstBreak calls
  /-- A pipe that is not broken still has every byte that was not returned. -/
  whole : h.pipe.breakErr = none →
    h.accepted = h.returned ++ h.pipe.b.getD [] ∧ h.pipe.unread = 0
  /-- A broken pipe has their number. -/
  broken : h.pipe.breakErr ≠ none →
    h.pipe.b = none ∧ h.returned <+: h.accepted ∧
      h.accepted.length = h.returned.length + h.pipe.unread
  /-- The attached code is that of the first close, and has not run. -/
  attached : ∀ fn, h.pipe.readFn = some fn →
    h.ran = [] ∧ ∃ e, firstClose calls = some (e, some fn)
  /-- Code runs once, when the pipe is closed. -/
  once : h.ran = [] ∨ h.ran.length = 1 ∧ h.pipe.err ≠ none
  /-- Unless the pipe is broken, the code of the first close stays attached until it runs. -/
  pending : h.pipe.breakErr = none → h.ran = [] → ∀ x, firstClose calls = some x →
    h.pipe.readFn = x.2
  /-- There is a buffer until the pipe is closed or broken. -/
  buffer : h.pipe.err = none → h.pipe.breakErr = none → h.pipe.b ≠ none

theorem follows_nil : Follows ([] : List (Call ε φ)) {} where
  err := rfl
  breakErr := rfl
  whole _ := ⟨rfl, rfl⟩
  broken h := absurd rfl h
  attached fn h := by cases h
  once := .inl rfl
  pending _ _ x hx := by cases hx
  buffer _ _ := Option.some_ne_none _

section Step

variable {calls : List (Call ε φ)} {h : History ε φ}

section

variable (hf : Follows calls h)

include hf

/-- Calls with the same first errors say the same about the history. -/
theorem Follows.congr {calls' : List (Call ε φ)} (hclose : firstClose calls' = firstClose calls)
    (hbreak : firstBreak calls' = firstBreak calls) : Follows calls' h :=
  ⟨hclose ▸ hf.err, hbreak ▸ hf.breakErr, hf.whole, hf.broken, hclose ▸ hf.attached, hf.once,
    hclose ▸ hf.pending, hf.buffer⟩

theorem Follows.write (d : Bytes) : Follows (calls ++ [.write d]) (h.wrote d (h.pipe.write d)) := by
  have hsame : Follows (calls ++ [.write d]) h :=
    hf.congr (firstClose_append rfl) (firstBreak_append rfl)
  unfold Pipe.write
  split
  · exact hsame
  split
  · rename_i hb
    have hb' : h.pipe.breakErr ≠ none := Option.isSome_iff_ne_none.mp hb
    obtain ⟨hnone, hpre, hlen⟩ := hf.broken hb'
    refine ⟨hsame.err, hsame.breakErr, fun hno => absurd hno hb', fun _ => ?_, hsame.attached,
      hsame.once, hsame.pending, hsame.buffer⟩
    refine ⟨hnone, hpre.trans (prefix_append _ _), ?_⟩
    simp only [History.wrote, Option.isSome_none, Bool.false_eq_true, if_false, length_append]
    omega
  · rename_i hb
    have hb' : h.pipe.breakErr = none := by simpa using hb
    obtain ⟨hwhole, hunread⟩ := hf.whole hb'
    split
    · exact hsame
    · rename_i bytes hbytes
      refine ⟨hsame.err, hsame.breakErr, fun _ => ⟨?_, hunread⟩, fun hne => absurd hb' hne,
        hsame.attached, hsame.once, hsame.pending, fun _ _ => Option.some_ne_none _⟩
      rw [hbytes] at hwhole
      simp only [History.wrote, Option.isSome_none, Bool.false_eq_true, if_false, hwhole,
        Option.getD_some, append_assoc]

theorem Follows.read (n : Nat) : Follows (calls ++ [.read n]) ((h.pipe.read n).elim h h.saw) := by
  have hsame : Follows (calls ++ [.read n]) h :=
    hf.congr (firstClose_append rfl) (firstBreak_append rfl)
  cases hread : h.pipe.read n with
  | none => exact hsame
  | some x =>
    obtain ⟨r, p⟩ := x
    cases read_done hread with
    | broken => simpa [History.saw] using hsame
    | closed hb hbytes herr =>
      obtain ⟨hwhole, hunread⟩ := hf.whole hb
      refine ⟨hsame.err, hsame.breakErr, fun _ => ⟨?_, hunread⟩, fun hne => absurd hb hne,
        fun fn hfn => (by cases hfn), ?_, fun _ hran x hx => ?_,
        fun hnone => absurd (herr.symm.trans hnone) nofun⟩
      · simpa [History.saw, hbytes] using hwhole
      · cases hfn : h.pipe.readFn with
        | none => simpa [History.saw, hfn] using hf.once
        | some fn =>
          have hran := (hf.attached fn hfn).1
          refine .inr ⟨?_, ?_⟩
          · simp [History.saw, hran]
          · simp [History.saw, herr]
      · obtain ⟨hran, hfn⟩ := append_eq_nil_iff.mp hran
        rw [← hsame.pending hb hran x hx]
        exact (Option.toList_eq_nil_iff.mp hfn).symm
    | filled hb =>
      obtain ⟨hwhole, hunread⟩ := hf.whole hb
      refine ⟨hsame.err, hsame.breakErr, fun _ => ⟨?_, hunread⟩, fun hne => absurd hb hne, ?_, ?_,
        ?_, fun _ _ => Option.some_ne_none _⟩
      · simp only [Option.elim_some, History.saw, Option.getD_some, append_assoc, take_append_drop]
        exact hwhole
      · simpa [History.saw] using hsame.attached
      · simpa [History.saw] using hf.once
      · simpa [History.saw] using hsame.pending

theorem Follows.close {c : Call ε φ} {e : ε} {fn : Option φ} (hc : c.closing = some (e, fn))
    (hno : c.breaking = none) :
    Follows (calls ++ [c]) { h with pipe := h.pipe.closeWithErrorAndCode e fn } := by
  have hclose : firstClose (calls ++ [c]) = (firstClose calls).or (some (e, fn)) :=
    firstClose_close _ hc
  have hbreak : firstBreak (calls ++ [c]) = firstBreak calls := firstBreak_append hno
  have herr := hf.err
  unfold closeWithErrorAndCode
  cases hfirst : firstClose calls with
  | some x =>
    rw [hfirst] at herr hclose
    rw [if_pos (by simp [herr])]
    exact hf.congr (hclose.trans hfirst.symm) hbreak
  | none =>
    rw [hfirst] at herr hclose
    have hopen : h.pipe.err = none := herr
    rw [if_neg (by simp [hopen])]
    have hran : h.ran = [] := hf.once.resolve_right (fun hone => hone.2 hopen)
    refine ⟨?_, hbreak ▸ hf.breakErr, hf.whole, hf.broken, ?_, .inl hran, fun _ _ x hx => ?_, nofun⟩
    · rw [hclose]
      rfl
    · intro fn' hfn'
      have hfn : fn = some fn' := hfn'
      exact ⟨hran, e, by rw [hclose, hfn]; rfl⟩
    · cases hclose.symm.trans hx
      rfl

theorem Follows.broke (e : ε) :
    Follows (calls ++ [.breakWithError e]) { h with pipe := h.pipe.breakWithError e } := by
  have hclose : firstClose (calls ++ [.breakWithError e]) = firstClose calls :=
    firstClose_append rfl
  have hbreak : firstBreak (calls ++ [.breakWithError e]) = (firstBreak calls).or (some e) :=
    firstBreak_break e rfl
  have hb := hf.breakErr
  unfold breakWithError
  cases hfirst : firstBreak calls with
  | some e' =>
    rw [hfirst] at hb hbreak
    rw [if_pos (by simp [hb])]
    exact hf.congr hclose (hbreak.trans hfirst.symm)
  | none =>
    rw [hfirst] at hb hbreak
    rw [if_neg (by simp [hb])]
    obtain ⟨hwhole, hunread⟩ := hf.whole hb
    refine ⟨hclose ▸ hf.err, by rw [hbreak]; rfl, nofun, fun _ => ⟨rfl, ?_, ?_⟩,
      fun fn hfn => (by cases hfn), hf.once, nofun, fun _ => nofun⟩
    · rw [hwhole]
      exact prefix_append _ _
    · rw [hwhole, length_append]
      simp only [hunread]
      omega

/-- One call keeps the invariant. -/
theorem Follows.step (c : Call ε φ) : Follows (calls ++ [c]) (h.step c) := by
  cases c with
  | write d => exact hf.write d
  | read n => exact hf.read n
  | closeWithError e => exact hf.close rfl rfl
  | closeWithErrorAndCode e fn => exact hf.close rfl rfl
  | breakWithError e => exact hf.broke e

end

end Step

/-- The invariant holds after every sequence of calls. -/
theorem follows_after (calls : List (Call ε φ)) : Follows calls (History.after calls) := by
  induction calls using reverseRecOn with
  | nil => exact follows_nil
  | append_singleton calls c ih =>
    have hafter : History.after (calls ++ [c]) = (History.after calls).step c := by
      simp [History.after]
    rw [hafter]
    exact ih.step c

/-! ## What the reader and the writer see -/

section Seen

variable {calls : List (Call ε φ)} {h : History ε φ}

theorem Follows.returned_prefix (hf : Follows calls h) : h.returned <+: h.accepted := by
  by_cases hb : h.pipe.breakErr = none
  · rw [(hf.whole hb).1]
    exact prefix_append _ _
  · exact (hf.broken hb).2.1

theorem Follows.length_accepted (hf : Follows calls h) :
    h.accepted.length = h.returned.length + h.pipe.len := by
  unfold len
  by_cases hb : h.pipe.breakErr = none
  · obtain ⟨hwhole, hunread⟩ := hf.whole hb
    rw [hwhole, length_append]
    cases h.pipe.b with
    | none => simp [hunread]
    | some bytes => rfl
  · obtain ⟨hnone, _, hlen⟩ := hf.broken hb
    rw [hnone]
    exact hlen

variable {n : Nat} {r : ReadResult ε φ} {p : Pipe ε φ}

/-- A `Read` with a close error comes after all the bytes. -/
theorem Follows.close_error (hf : Follows calls h) (hbreak : firstBreak calls = none)
    (hr : h.pipe.read n = some (r, p)) {e : ε} (he : r.err = some e) :
    r.bytes = [] ∧ h.returned = h.accepted ∧ (firstClose calls).map Prod.fst = some e ∧
      r.ran = h.pipe.readFn := by
  cases read_done hr with
  | broken hb => cases hb.symm.trans (hf.breakErr.trans hbreak)
  | filled => cases he
  | closed hb hbytes herr =>
    cases he
    have hwhole := (hf.whole hb).1
    rw [hbytes, append_nil] at hwhole
    exact ⟨rfl, hwhole.symm, hf.err ▸ herr, rfl⟩

/-- Once all the bytes are returned, a `Read` of a closed pipe returns the error of the first close,
and runs its code if that has not run. -/
theorem Follows.drained (hf : Follows calls h) (hbreak : firstBreak calls = none)
    {x : ε × Option φ} (hclose : firstClose calls = some x) (hall : h.returned = h.accepted)
    (n : Nat) :
    ∃ r p, h.pipe.read n = some (r, p) ∧ r.bytes = [] ∧ r.err = some x.1 ∧
      (h.ran = [] → r.ran = x.2) := by
  have hb : h.pipe.breakErr = none := hf.breakErr.trans hbreak
  have herr : h.pipe.err = some x.1 := by rw [hf.err, hclose]; rfl
  have hempty : h.pipe.b.getD [] = [] := by
    have hwhole := (hf.whole hb).1
    rwa [hall, self_eq_append_right] at hwhole
  exact ⟨_, _, read_closed hb hempty herr, rfl, rfl, fun hran => hf.pending hb hran x hclose⟩

/-- A `Write` is refused exactly if the pipe is closed. -/
theorem Follows.write_answer (hf : Follows calls h) (d : Bytes) :
    (h.pipe.write d).1 = (firstClose calls).map fun _ => .errClosedPipeWrite := by
  have herr := hf.err
  unfold Pipe.write
  cases hfirst : firstClose calls with
  | some x =>
    rw [hfirst] at herr
    rw [if_pos (by rw [herr]; rfl)]
    rfl
  | none =>
    rw [hfirst] at herr
    rw [if_neg (by rw [herr]; exact Bool.false_ne_true)]
    split
    · rfl
    · rename_i hb
      have hb' : h.pipe.breakErr = none := by simpa using hb
      obtain ⟨bytes, hbytes⟩ := Option.ne_none_iff_exists'.mp (hf.buffer herr hb')
      rw [hbytes]
      rfl

/-- While bytes are left, a `Read` returns some of them. -/
theorem Follows.progress (hf : Follows calls h) (hbreak : firstBreak calls = none)
    (hleft : h.returned ≠ h.accepted) (hn : 0 < n) :
    ∃ r p, h.pipe.read n = some (r, p) ∧ r.err = none ∧ r.bytes ≠ [] := by
  have hb : h.pipe.breakErr = none := hf.breakErr.trans hbreak
  obtain ⟨hwhole, _⟩ := hf.whole hb
  have hbytes : h.pipe.b.getD [] ≠ [] := by
    intro hnil
    rw [hnil, append_nil] at hwhole
    exact hleft hwhole.symm
  refine ⟨_, _, read_nonempty hb hbytes, rfl, ?_⟩
  intro htake
  rcases take_eq_nil_iff.mp htake with hzero | hnil
  · omega
  · exact hbytes hnil

/-- Code runs only with the close error. -/
theorem Follows.run_code (hf : Follows calls h) (hr : h.pipe.read n = some (r, p)) {fn : φ}
    (hran : r.ran = some fn) :
    h.ran = [] ∧ ∃ e, r.err = some e ∧ firstClose calls = some (e, some fn) := by
  cases read_done hr with
  | broken => cases hran
  | filled => cases hran
  | @closed e _ _ herr =>
    obtain ⟨hnone, e', hfirst⟩ := hf.attached fn hran
    have heq : some e = some e' := by rw [← herr, hf.err, hfirst]; rfl
    exact ⟨hnone, e', heq, hfirst⟩

end Seen

/-- The pipe conserves the bytes and their order, whatever its callers do.  The bytes returned
are the first of those accepted, and the others are counted by `Len`; a `Write` is accepted until
the pipe is closed.  Unless the pipe is broken, a `Read` gets the bytes first, and once it has got
all of them and the pipe is closed, every `Read` gets the first close error.  Once the pipe is
broken, every `Read` gets the first break error and no byte.  The attached code runs at most once,
in a `Read` that reports the close error it came with, and in the first such `Read`. -/
theorem pipe_conserves (calls : List (Call ε φ)) :
    (History.after calls).returned <+: (History.after calls).accepted ∧
    (History.after calls).accepted.length =
      (History.after calls).returned.length + (History.after calls).pipe.len ∧
    (firstBreak calls = none →
      (∀ n r p e, (History.after calls).pipe.read n = some (r, p) → r.err = some e →
        r.bytes = [] ∧ (History.after calls).returned = (History.after calls).accepted ∧
          (firstClose calls).map Prod.fst = some e) ∧
      (∀ n, 0 < n → (History.after calls).returned ≠ (History.after calls).accepted →
        ∃ r p, (History.after calls).pipe.read n = some (r, p) ∧ r.err = none ∧ r.bytes ≠ []) ∧
      (∀ e fn, firstClose calls = some (e, fn) →
        (History.after calls).returned = (History.after calls).accepted →
        ∀ n, ∃ r p, (History.after calls).pipe.read n = some (r, p) ∧ r.bytes = [] ∧
          r.err = some e ∧ ((History.after calls).ran = [] → r.ran = fn))) ∧
    (∀ d, ((History.after calls).pipe.write d).1 =
      (firstClose calls).map fun _ => .errClosedPipeWrite) ∧
    (∀ e, firstBreak calls = some e → ∀ n,
      (History.after calls).pipe.read n =
        some ({ bytes := [], err := some e }, (History.after calls).pipe)) ∧
    (History.after calls).ran.length ≤ 1 ∧
    (∀ n r p fn, (History.after calls).pipe.read n = some (r, p) → r.ran = some fn →
      (History.after calls).ran = [] ∧ firstBreak calls = none ∧
        ∃ e, r.err = some e ∧ firstClose calls = some (e, some fn)) := by
  have hf := follows_after calls
  refine ⟨hf.returned_prefix, hf.length_accepted, fun hbreak => ⟨?_, ?_, ?_⟩, hf.write_answer,
    ?_, ?_, ?_⟩
  · intro n r p e hr he
    obtain ⟨hbytes, hall, hfirst, _⟩ := hf.close_error hbreak hr he
    exact ⟨hbytes, hall, hfirst⟩
  · intro n hn hleft
    exact hf.progress hbreak hleft hn
  · intro e fn hclose hall n
    exact hf.drained hbreak hclose hall n
  · intro e hbreak n
    exact read_broken (hf.breakErr.trans hbreak)
  · rcases hf.once with hnone | ⟨hone, _⟩
    · simp [hnone]
    · omega
  · intro n r p fn hr hran
    obtain ⟨hnone, hclosed⟩ := hf.run_code hr hran
    refine ⟨hnone, ?_, hclosed⟩
    cases hbreak : firstBreak calls with
    | none => rfl
    | some e =>
      rw [read_broken (hf.breakErr.trans hbreak)] at hr
      cases hr
      cases hran

end Pipe

end Fhttp.Http2
