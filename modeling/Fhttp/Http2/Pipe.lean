import Fhttp.Hpack.Basic

/-!
# The pipe of a response body

The model of `http2/pipe.go`: the buffer between the read loop, which writes, and the
caller, which reads.  The lock is left out: every method holds it from its start to its
end, so a method is one step.  So is `donec`, which the client does not use.  The buffer
is the list of the bytes in it; the zero value of a pipe has none (`b` is nil).

A `Read` of a pipe with nothing to return waits; the model gives `none` for it.
-/

namespace Fhttp.Http2

open Hpack (Bytes)

/-- A pipe with errors in `ε`; `φ` says which code is attached to it. -/
structure Pipe (ε φ : Type) where
  /-- The buffer, which is nil when done reading. -/
  b : Option Bytes := none
  /-- The bytes unread when done. -/
  unread : Nat := 0
  /-- The read error once the buffer is empty. -/
  err : Option ε := none
  /-- The immediate read error. -/
  breakErr : Option ε := none
  /-- The code to run in `Read` before the error. -/
  readFn : Option φ := none
deriving DecidableEq

namespace Pipe

variable {ε φ : Type}

/-- `Len`. -/
def len (p : Pipe ε φ) : Nat :=
  match p.b with
  | none => p.unread
  | some bytes => bytes.length

/-- What `Read` returns, with the code that it has run. -/
structure ReadResult (ε φ : Type) where
  bytes : Bytes
  err : Option ε
  ran : Option φ := none

/-- `Read` of at most `n` bytes. -/
def read (p : Pipe ε φ) (n : Nat) : Option (ReadResult ε φ × Pipe ε φ) :=
  match p.breakErr with
  | some e => some ({ bytes := [], err := some e }, p)
  | none =>
    match p.b.getD [] with
    | b :: bytes =>
      some ({ bytes := (b :: bytes).take n, err := none },
        { p with b := some ((b :: bytes).drop n) })
    | [] =>
      match p.err with
      | some e =>
        some ({ bytes := [], err := some e, ran := p.readFn }, { p with b := none, readFn := none })
      | none => none

/-- What a `Read` that does not wait returns. -/
inductive ReadDone (p : Pipe ε φ) (n : Nat) : ReadResult ε φ → Pipe ε φ → Prop
  | broken {e : ε} (hbreak : p.breakErr = some e) : ReadDone p n { bytes := [], err := some e } p
  | filled (hbreak : p.breakErr = none) (hb : p.b.getD [] ≠ []) :
    ReadDone p n { bytes := (p.b.getD []).take n, err := none }
      { p with b := some ((p.b.getD []).drop n) }
  | closed {e : ε} (hbreak : p.breakErr = none) (hb : p.b.getD [] = []) (herr : p.err = some e) :
    ReadDone p n { bytes := [], err := some e, ran := p.readFn }
      { p with b := none, readFn := none }

theorem read_done {p p' : Pipe ε φ} {n : Nat} {r : ReadResult ε φ} (h : p.read n = some (r, p')) :
    ReadDone p n r p' := by
  unfold read at h
  split at h
  · rename_i hbreak
    cases h
    exact .broken hbreak
  rename_i hbreak
  split at h
  · rename_i hb
    cases h
    rw [← hb]
    exact .filled hbreak (by rw [hb]; exact List.cons_ne_nil _ _)
  rename_i hb
  split at h
  · rename_i herr
    cases h
    exact .closed hbreak hb herr
  · cases h

/-- The errors of `Write`. -/
inductive WriteError where
  | errClosedPipeWrite
  | errUninitializedPipeWrite
deriving DecidableEq, Repr

/-- `Write`: the error, and the pipe after it. -/
def write (p : Pipe ε φ) (d : Bytes) : Option WriteError × Pipe ε φ :=
  if p.err.isSome then (some .errClosedPipeWrite, p)
  else if p.breakErr.isSome then (none, { p with unread := p.unread + d.length })
  else
    match p.b with
    | none => (some .errUninitializedPipeWrite, p)
    | some bytes => (none, { p with b := some (bytes ++ d) })

/-- `closeWithErrorAndCode`, and `CloseWithError` when there is no code. -/
def closeWithErrorAndCode (p : Pipe ε φ) (e : ε) (fn : Option φ) : Pipe ε φ :=
  if p.err.isSome then p else { p with readFn := fn, err := some e }

def closeWithError (p : Pipe ε φ) (e : ε) : Pipe ε φ := p.closeWithErrorAndCode e none

/-- `BreakWithError`. -/
def breakWithError (p : Pipe ε φ) (e : ε) : Pipe ε φ :=
  if p.breakErr.isSome then p
  else
    { p with
      readFn := none
      unread := p.unread + (p.b.getD []).length
      b := none
      breakErr := some e }

/-- `Err`. -/
def error (p : Pipe ε φ) : Option ε :=
  match p.breakErr with
  | some e => some e
  | none => p.err

end Pipe

end Fhttp.Http2
