import Fhttp.Http2.ReadLoop

/-!
# The body of a response, and cancelling

`transportResponseBody.Read` and `Close`, and `cancelStream`.  They run in the goroutines
of the caller, at the same time as the read loop, and hold the lock of the connection only
for parts of what they do.  Each part is a function here; the parts are put together as
the steps of goroutines in `Fhttp.Http2.Client`.
-/

namespace Fhttp.Http2

open Hpack (Bytes)
open Lib.Panic (Fault)

/-- The panic of `mustUint31`. -/
def mustUint31 (v : Int32) : Except Fault UInt32 :=
  if v < 0 then .error (.panic "out of range") else .ok v.toUInt32

namespace ClientConn

/-! ## Read -/

/-- One trailer of `copyTrailers`. -/
def copyTrailer (cs : StreamRef) (cc : ClientConn) (kv : Bytes × List Bytes) :
    Except Fault ClientConn := do
  let t ← deref (cc.stream cs).resTrailer
  .ok (cc.update cs fun s => { s with resTrailer := some (t.set kv.1 kv.2) })

def copyTrailers (cc : ClientConn) (cs : StreamRef) : Except Fault ClientConn :=
  (cc.stream cs).trailer.foldlM (copyTrailer cs) cc

/-- What a `Read` of a body has got from the pipe.  There may be flow control to give
back. -/
structure BodyRead where
  bytes : Bytes
  err : Option ClientError
  tokens : Bool := false
deriving DecidableEq

/-- The part of `Read` that counts the bytes against the content length. -/
def countBody (cc : ClientConn) (cs : StreamRef) (bytes : Bytes) (err : Option ClientError) :
    BodyRead × ClientConn :=
  let bytesRemain := (cc.stream cs).bytesRemain
  if bytesRemain ≠ -1 then
    if (bytes.length : Int) > bytesRemain then
      let (e, cc) :=
        match err with
        | some e => (e, cc)
        | none =>
          (.text "net/http: server replied with more than declared Content-Length; truncated",
            cc.writeStreamReset (cc.stream cs).id .protocol)
      ({ bytes := bytes.take bytesRemain.toNat, err := some e },
        cc.update cs fun s => { s with readErr := some e })
    else
      let cc := cc.update cs fun s => { s with bytesRemain := s.bytesRemain - bytes.length }
      if err = some .eof ∧ (cc.stream cs).bytesRemain > 0 then
        ({ bytes := bytes, err := some .unexpectedEOF },
          cc.update cs fun s => { s with readErr := some .unexpectedEOF })
      else ({ bytes := bytes, err := err, tokens := !bytes.isEmpty }, cc)
  else ({ bytes := bytes, err := err, tokens := !bytes.isEmpty }, cc)

/-- `Read` of at most `n` bytes, up to the flow control.  It waits when the pipe has nothing
to return. -/
def readBody (cc : ClientConn) (cs : StreamRef) (n : Nat) :
    Except Fault (Option (BodyRead × ClientConn)) :=
  match (cc.stream cs).readErr with
  | some e => .ok (some ({ bytes := [], err := some e }, cc))
  | none =>
    match (cc.stream cs).bufPipe.read n with
    | none => .ok none
    | some (r, pipe) => do
      let cc := cc.update cs fun s => { s with bufPipe := pipe }
      let cc ← if r.ran = some .copyTrailers then cc.copyTrailers cs else .ok cc
      .ok (some (cc.countBody cs r.bytes r.err))

def transportDefaultStreamMinRefresh : Int := 4096
def aggressiveThreshold : Int := 16384

/-- What `Read` gives back to the connection. -/
def connAdd (cc : ClientConn) : Int32 :=
  if cc.inflow < (cc.connFlow / 2).toInt32 then cc.connFlow.toInt32 - cc.inflow else 0

/-- The window that the peer does not have for a stream. -/
def unsent (cc : ClientConn) (cs : StreamRef) : Int :=
  (cc.streamFlow.toNat : Int) - (Flow.available (cc.stream cs).inflow cc.inflow).toInt -
    ((cc.stream cs).bufPipe.len : Int)

/-- What `Read` gives back to the stream, after the connection. -/
def streamAdd (cc : ClientConn) (cs : StreamRef) : Int32 :=
  let isSmallWindow := cc.initialWindowSize < 1048576
  if isSmallWindow then
    if cc.unsent cs > aggressiveThreshold then Int32.ofInt (cc.unsent cs) else 0
  else if cc.unsent cs > transportDefaultStreamMinRefresh ∧
      cc.unsent cs > ((cc.streamFlow / 2).toNat : Int) then
    Int32.ofInt (cc.unsent cs)
  else 0

/-- `WriteWindowUpdate`, when there is something to give back. -/
def sendAdd (cc : ClientConn) (streamID : UInt32) (add : Int32) : Except Fault ClientConn :=
  if add ≠ 0 then do
    let incr ← mustUint31 add
    .ok (cc.send (.windowUpdate streamID incr))
  else .ok cc

/-- The flow control of a `Read` that has returned something. -/
def creditRead (cc : ClientConn) (cs : StreamRef) (err : Option ClientError) :
    Except Fault ClientConn := do
  let connAdd := cc.connAdd
  let cc := { cc with inflow := (Flow.add cc.inflow connAdd).1 }
  let streamAdd := if err.isNone then cc.streamAdd cs else 0
  let cc := cc.update cs fun s => { s with inflow := (Flow.add s.inflow streamAdd).1 }
  let cc ← cc.sendAdd 0 connAdd
  cc.sendAdd (cc.stream cs).id streamAdd

/-! ## Close -/

/-- What `Close` sees of the pipe: how much is unread, and whether the server has ended the
stream.  A body that is closed already needs nothing. -/
def closeCheck (cc : ClientConn) (cs : StreamRef) : Option (Nat × Bool) :=
  let pipe := (cc.stream cs).bufPipe
  if pipe.error = some .errClosedResponseBody then none
  else some (pipe.len, decide (pipe.error = some .eof))

/-- The part of `Close` that holds the locks. -/
def closeReset (cc : ClientConn) (cs : StreamRef) (unread : Nat) (serverSentStreamEnd : Bool) :
    ClientConn :=
  let cc :=
    if serverSentStreamEnd then cc
    else
      (cc.send (.rstStream (cc.stream cs).id .cancel)).update cs fun s =>
        { s with didReset := true }
  if unread > 0 then
    { cc with inflow := (Flow.add cc.inflow (Int32.ofNat unread)).1 }.send
      (.windowUpdate 0 (UInt32.ofNat unread))
  else cc

def closeBreak (cc : ClientConn) (cs : StreamRef) : ClientConn :=
  cc.update cs fun s => { s with bufPipe := s.bufPipe.breakWithError .errClosedResponseBody }

/-! ## Cancelling -/

/-- The part of `cancelStream` that holds the lock: whether the stream was reset before. -/
def cancelMark (cc : ClientConn) (cs : StreamRef) : Bool × ClientConn :=
  ((cc.stream cs).didReset, cc.update cs fun s => { s with didReset := true })

end ClientConn

end Fhttp.Http2
