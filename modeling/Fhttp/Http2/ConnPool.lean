import Fhttp.Lib.Multimap
import Fhttp.Lib.Run

/-!
# The pool of client connections

`clientConnPool` keeps the open connections by address (`conns`) and, for each connection,
the addresses it serves (`keys`).  A connection is made outside the lock, by a dial
(`dialCall`) or for a TLS connection that the HTTP/1 transport hands over
(`addConnCall`); its read loop runs from that moment on, and the pool inserts it in a
second step.  `MarkDead`, which a read loop calls when it ends, takes it out again.

Each event below is one critical section of the source, so that a run is an interleaving
of the goroutines.  The two maps are each other's inverse in every state.  A connection
that has been marked dead is in neither of them, and is not handed to a later request, if
no connection is marked dead between the moment it is made and the moment it is inserted.
-/

namespace Fhttp.Http2

open Lib (Multimap)
open Lib.Panic (Returns)
open Function (update update_of_ne update_self)
open List

/-- A connection: the number of connections made before it. -/
abbrev ConnRef := Nat

/-- A `dialCall` or an `addConnCall`, in the order of their creation. -/
abbrev CallRef := Nat

/-- How far the goroutine of a call has come.  The result is the connection that was made,
or none if that failed. -/
inductive CallPhase where
  | running
  | made (res : Option ConnRef)
  | finished (res : Option ConnRef)
deriving DecidableEq, Repr

/-- The connection a call has made. -/
def CallPhase.res : CallPhase → Option ConnRef
  | .running => none
  | .made res => res
  | .finished res => res

inductive CallKind where
  | dial
  | addConn
deriving DecidableEq, Repr

structure PoolCall where
  kind : CallKind
  key : String
  phase : CallPhase := .running
deriving DecidableEq, Repr

structure ClientConnPool where
  conns : Multimap String ConnRef := .empty
  dialing : String → Option CallRef := fun _ => none
  keys : Multimap ConnRef String := .empty
  addConnCalls : String → Option CallRef := fun _ => none

namespace ClientConnPool

def addConnLocked (p : ClientConnPool) (key : String) (cc : ConnRef) : ClientConnPool :=
  if cc ∈ p.conns.values key then p
  else { p with conns := p.conns.append key cc, keys := p.keys.append cc key }

/-- `MarkDead`; the body of its loop, with `filterOutClientConn`, is `Multimap.dropValue`. -/
def markDead (p : ClientConnPool) (cc : ConnRef) : ClientConnPool :=
  { p with
    conns := (p.keys.values cc).foldl (Multimap.dropValue cc) p.conns
    keys := p.keys.delete cc }

/-- The call is no longer in flight. -/
def removeCall (p : ClientConnPool) (kind : CallKind) (key : String) : ClientConnPool :=
  match kind with
  | .dial => { p with dialing := Function.update p.dialing key none }
  | .addConn => { p with addConnCalls := Function.update p.addConnCalls key none }

end ClientConnPool

/-- The pool with the goroutines that work on it: the calls that have been started, the
number of connections made, and those that have been marked dead. -/
structure PoolState where
  pool : ClientConnPool := {}
  calls : List PoolCall := []
  made : Nat := 0
  dead : List ConnRef := []

/-- What a critical section of `getClientConn` gives: a connection, an error, or a call
whose result the request waits for. -/
inductive GetResult where
  | conn (cc : ConnRef)
  | noCachedConn
  | dialError
  | wait (call : CallRef)
deriving DecidableEq, Repr

/-- What a critical section of `addConnIfNeeded` gives: the connection is not used, or the
result is that of a call, which may be another one's. -/
inductive AddResult where
  | unused
  | wait (call : CallRef) (dup : Bool)
deriving DecidableEq, Repr

inductive PoolEvent where
  /-- `takes` are the connections that can take a request now; `dialOk` is the result of
  the dial of a request that gets a connection of its own. -/
  | getClientConn (addr : String) (closeRequest dialOnMiss : Bool) (takes : ConnRef → Bool)
      (dialOk : Bool)
  | addConnIfNeeded (key : String) (takes : ConnRef → Bool)
  /-- `dialClientConn` or `NewClientConn` returns in a call. -/
  | connMade (call : CallRef) (ok : Bool)
  /-- The critical section of `dialCall.dial` or `addConnCall.run`. -/
  | insert (call : CallRef)
  | markDead (cc : ConnRef)

namespace PoolState

def startCall (s : PoolState) (kind : CallKind) (key : String) : CallRef × PoolState :=
  (s.calls.length, { s with calls := s.calls ++ [{ kind, key }] })

def getStartDialLocked (s : PoolState) (addr : String) : CallRef × PoolState :=
  match s.pool.dialing addr with
  | some call => (call, s)
  | none =>
    let (call, s) := s.startCall .dial addr
    (call, { s with
      pool := { s.pool with dialing := Function.update s.pool.dialing addr (some call) } })

def getClientConn (s : PoolState) (addr : String) (closeRequest dialOnMiss : Bool)
    (takes : ConnRef → Bool) (dialOk : Bool) : GetResult × PoolState :=
  if closeRequest && dialOnMiss then
    if dialOk then (.conn s.made, { s with made := s.made + 1 }) else (.dialError, s)
  else
    match (s.pool.conns.values addr).find? takes with
    | some cc => (.conn cc, s)
    | none =>
      if dialOnMiss then
        ((.wait (s.getStartDialLocked addr).1), (s.getStartDialLocked addr).2)
      else (.noCachedConn, s)

def addConnIfNeeded (s : PoolState) (key : String) (takes : ConnRef → Bool) :
    AddResult × PoolState :=
  if (s.pool.conns.values key).any takes then (.unused, s)
  else
    match s.pool.addConnCalls key with
    | some call => (.wait call true, s)
    | none =>
      let (call, s) := s.startCall .addConn key
      (.wait call false, { s with
        pool := { s.pool with
          addConnCalls := Function.update s.pool.addConnCalls key (some call) } })

/-- A call has made its connection, or failed to.  A `dialCall` closes `done` here, so that
the requests that wait for it go on. -/
def connMade (s : PoolState) (call : CallRef) (ok : Bool) : PoolState :=
  match s.calls[call]? with
  | some { kind, key, phase := .running } =>
    { s with
      calls := s.calls.set call { kind, key, phase := .made (if ok then some s.made else none) }
      made := if ok then s.made + 1 else s.made }
  | _ => s

/-- The rest of a call, under the lock. -/
def insert (s : PoolState) (call : CallRef) : PoolState :=
  match s.calls[call]? with
  | some { kind, key, phase := .made res } =>
    let p := s.pool.removeCall kind key
    { s with
      calls := s.calls.set call { kind, key, phase := .finished res }
      pool :=
        match res with
        | some cc => p.addConnLocked key cc
        | none => p }
  | _ => s

def markDead (s : PoolState) (cc : ConnRef) : PoolState :=
  if cc < s.made then { s with pool := s.pool.markDead cc, dead := cc :: s.dead } else s

def step (s : PoolState) : PoolEvent → PoolState
  | .getClientConn addr closeRequest dialOnMiss takes dialOk =>
    (s.getClientConn addr closeRequest dialOnMiss takes dialOk).2
  | .addConnIfNeeded key takes => (s.addConnIfNeeded key takes).2
  | .connMade call ok => s.connMade call ok
  | .insert call => s.insert call
  | .markDead cc => s.markDead cc

def run (s : PoolState) (events : List PoolEvent) : PoolState := events.foldl step s

/-! ## What a step does -/

/-- The steps, with the state each leaves. -/
inductive Stepped (s : PoolState) : PoolEvent → PoolState → Prop where
  | same {e : PoolEvent} : Stepped s e s
  | ownConn {e : PoolEvent} : Stepped s e { s with made := s.made + 1 }
  | dialStarted {e : PoolEvent} {addr : String} (hnone : s.pool.dialing addr = none) :
    Stepped s e { s with
      calls := s.calls ++ [{ kind := .dial, key := addr }]
      pool := { s.pool with
        dialing := Function.update s.pool.dialing addr (some s.calls.length) } }
  | addStarted {e : PoolEvent} {key : String} :
    Stepped s e { s with
      calls := s.calls ++ [{ kind := .addConn, key }]
      pool := { s.pool with
        addConnCalls := Function.update s.pool.addConnCalls key (some s.calls.length) } }
  | failed {e : PoolEvent} {call : CallRef} {c : PoolCall} (hc : s.calls[call]? = some c)
    (hrunning : c.phase = .running) :
    Stepped s e { s with calls := s.calls.set call { c with phase := .made none } }
  | made {e : PoolEvent} {call : CallRef} {c : PoolCall} (hc : s.calls[call]? = some c)
    (hrunning : c.phase = .running) :
    Stepped s e { s with
      calls := s.calls.set call { c with phase := .made (some s.made) }, made := s.made + 1 }
  | given {e : PoolEvent} {call : CallRef} {c : PoolCall} (hc : s.calls[call]? = some c)
    (hmade : c.phase = .made none) :
    Stepped s e { s with
      calls := s.calls.set call { c with phase := .finished none }
      pool := s.pool.removeCall c.kind c.key }
  | inserted {e : PoolEvent} {call : CallRef} {c : PoolCall} {cc : ConnRef}
    (hc : s.calls[call]? = some c) (hmade : c.phase = .made (some cc)) :
    Stepped s e { s with
      calls := s.calls.set call { c with phase := .finished (some cc) }
      pool := (s.pool.removeCall c.kind c.key).addConnLocked c.key cc }
  | dead {cc : ConnRef} (hcc : cc < s.made) :
    Stepped s (.markDead cc) { s with pool := s.pool.markDead cc, dead := cc :: s.dead }

variable {s s' : PoolState} {e : PoolEvent}

theorem stepped_getClientConn (addr : String) (closeRequest dialOnMiss : Bool)
    (takes : ConnRef → Bool) (dialOk : Bool) :
    s.Stepped e (s.getClientConn addr closeRequest dialOnMiss takes dialOk).2 := by
  unfold getClientConn
  split
  · split
    · exact .ownConn
    · exact .same
  split
  · exact .same
  · split
    · unfold getStartDialLocked
      cases hdialing : s.pool.dialing addr with
      | some call => exact .same
      | none => exact .dialStarted hdialing
    · exact .same

theorem stepped_addConnIfNeeded (key : String) (takes : ConnRef → Bool) :
    s.Stepped e (s.addConnIfNeeded key takes).2 := by
  unfold addConnIfNeeded
  split
  · exact .same
  · cases s.pool.addConnCalls key with
    | some call => exact .same
    | none => exact .addStarted

theorem stepped_connMade (call : CallRef) (ok : Bool) : s.Stepped e (s.connMade call ok) := by
  unfold connMade
  split
  · rename_i hc
    cases ok with
    | true => exact .made hc rfl
    | false => exact .failed hc rfl
  · exact .same

theorem stepped_insert (call : CallRef) : s.Stepped e (s.insert call) := by
  unfold insert
  split
  · rename_i kind key res hc
    cases res with
    | none => exact .given hc rfl
    | some cc => exact .inserted hc rfl
  · exact .same

theorem step_cases (s : PoolState) (e : PoolEvent) : s.Stepped e (s.step e) := by
  cases e with
  | getClientConn addr closeRequest dialOnMiss takes dialOk =>
    exact stepped_getClientConn addr closeRequest dialOnMiss takes dialOk
  | addConnIfNeeded key takes => exact stepped_addConnIfNeeded key takes
  | connMade call ok => exact stepped_connMade call ok
  | insert call => exact stepped_insert call
  | markDead cc =>
    show s.Stepped _ (s.markDead cc)
    unfold markDead
    split
    · rename_i hcc
      exact .dead hcc
    · exact .same

/-- An invariant of the steps holds after a run. -/
theorem invariant_of_run {I : PoolState → Prop} {cond : PoolState → PoolEvent → Prop}
    (hstep : ∀ {s s' e}, I s → cond s e → s.Stepped e s' → I s') (h : I s)
    {events : List PoolEvent}
    (halways : Lib.Run.Always (fun s e => pure (s.step e)) cond s events) : I (s.run events) := by
  have hkeeps (s : PoolState) (e : PoolEvent) (h : I s) (hcond : cond s e) :
      Returns I (pure (s.step e)) := hstep h hcond (step_cases s e)
  have hreturns := Lib.Run.outcome_of_always hkeeps h halways
  rw [List.foldlM_pure] at hreturns
  exact hreturns

/-! ## The two maps -/

/-- The call is a dial to the address and has not finished. -/
def OpenDial (c : PoolCall) (addr : String) : Prop :=
  c.kind = .dial ∧ c.key = addr ∧ ∀ res, c.phase ≠ .finished res

/-- The two maps agree, the pool knows only connections that have been made, and a call in
`dialing` has not finished. -/
structure Consistent (s : PoolState) : Prop where
  inverse : Multimap.Inverse s.pool.conns s.pool.keys
  keys_made : ∀ cc, s.pool.keys.get cc ≠ none → cc < s.made
  calls_made : ∀ c ∈ s.calls, ∀ cc, c.phase.res = some cc → cc < s.made
  dead_made : ∀ cc ∈ s.dead, cc < s.made
  dialing : ∀ addr call, s.pool.dialing addr = some call →
    ∃ c, s.calls[call]? = some c ∧ OpenDial c addr

/-- No dead connection is in the pool, or about to be inserted. -/
structure DeadOut (s : PoolState) : Prop where
  keys : ∀ cc ∈ s.dead, s.pool.keys.get cc = none
  calls : ∀ c ∈ s.calls, ∀ cc, c.phase = .made (some cc) → cc ∉ s.dead

variable {p : ClientConnPool} {cc : ConnRef} {c c' : PoolCall} {addr : String} {call : CallRef}

theorem addConnLocked_inverse (h : Multimap.Inverse p.conns p.keys) (key : String) (cc : ConnRef) :
    Multimap.Inverse (p.addConnLocked key cc).conns (p.addConnLocked key cc).keys := by
  unfold ClientConnPool.addConnLocked
  split
  · exact h
  · rename_i hcc
    exact h.append hcc

section

variable (p : ClientConnPool)

theorem keys_addConnLocked (key : String) {cc' : ConnRef} (hne : cc' ≠ cc) :
    (p.addConnLocked key cc).keys.get cc' = p.keys.get cc' := by
  unfold ClientConnPool.addConnLocked
  split
  · rfl
  · exact update_of_ne hne _ _

@[simp] theorem conns_removeCall (kind : CallKind) (key : String) :
    (p.removeCall kind key).conns = p.conns := by
  cases kind <;> rfl

@[simp] theorem keys_removeCall (kind : CallKind) (key : String) :
    (p.removeCall kind key).keys = p.keys := by
  cases kind <;> rfl

@[simp] theorem dialing_addConnLocked (key : String) (cc : ConnRef) :
    (p.addConnLocked key cc).dialing = p.dialing := by
  unfold ClientConnPool.addConnLocked
  split <;> rfl

end

/-- A call that is still in `dialing` is not the one that is removed. -/
theorem dialing_removeCall (h : (p.removeCall c.kind c.key).dialing addr = some call) :
    p.dialing addr = some call ∧ ¬ (c.kind = .dial ∧ c.key = addr) := by
  obtain ⟨kind, key, phase⟩ := c
  cases kind with
  | addConn => exact ⟨h, nofun⟩
  | dial =>
    have hupdate : update p.dialing key none addr = some call := h
    by_cases heq : addr = key
    · rw [heq, update_self] at hupdate
      cases hupdate
    · rw [update_of_ne heq] at hupdate
      exact ⟨hupdate, fun hc => heq hc.2.symm⟩

/-- A call that moves on keeps what the calls of the pool have made. -/
theorem calls_made_set (h : ∀ c ∈ s.calls, ∀ cc, c.phase.res = some cc → cc < s.made) {n : Nat}
    (hn : s.made ≤ n) (hc' : ∀ cc, c'.phase.res = some cc → cc < n) :
    ∀ c ∈ s.calls.set call c', ∀ cc, c.phase.res = some cc → cc < n := by
  intro c hc cc hres
  rcases mem_or_eq_of_mem_set hc with hmem | heq
  · exact Nat.lt_of_lt_of_le (h c hmem cc hres) hn
  · exact hc' cc (heq ▸ hres)

theorem OpenDial.set {calls : List PoolCall} {call' : CallRef} (hc : calls[call]? = some c)
    (h : ∃ c₀, calls[call']? = some c₀ ∧ OpenDial c₀ addr)
    (hkeep : OpenDial c addr → OpenDial c' addr) :
    ∃ c₀, (calls.set call c')[call']? = some c₀ ∧ OpenDial c₀ addr := by
  obtain ⟨c₀, hc₀, hopen⟩ := h
  by_cases heq : call = call'
  · rw [← heq] at hc₀ ⊢
    cases hc.symm.trans hc₀
    exact ⟨c', List.getElem?_set_self (List.getElem?_eq_some_iff.mp hc).1, hkeep hopen⟩
  · exact ⟨c₀, (List.getElem?_set_ne heq).trans hc₀, hopen⟩

namespace Consistent

theorem init : Consistent {} where
  inverse := .empty
  keys_made _ h := absurd rfl h
  calls_made _ hc := nomatch hc
  dead_made _ hcc := nomatch hcc
  dialing _ _ h := nomatch h

/-- A new call is in the place after the others. -/
theorem started (h : s.Consistent) (c : PoolCall) (hrunning : c.phase = .running) :
    (∀ c' ∈ s.calls ++ [c], ∀ cc, c'.phase.res = some cc → cc < s.made) ∧
      ∀ addr call, s.pool.dialing addr = some call →
        ∃ c', (s.calls ++ [c])[call]? = some c' ∧ OpenDial c' addr := by
  refine ⟨fun c' hc' cc hres => ?_, fun addr call hdialing => ?_⟩
  · rcases mem_append.mp hc' with hmem | hmem
    · exact h.calls_made c' hmem cc hres
    · rw [mem_singleton.mp hmem, hrunning] at hres
      cases hres
  · obtain ⟨c', hc', hopen⟩ := h.dialing addr call hdialing
    exact ⟨c', List.getElem?_append_left (List.getElem?_eq_some_iff.mp hc').1 ▸ hc', hopen⟩

theorem step (h : s.Consistent) (hstep : s.Stepped e s') : s'.Consistent := by
  cases hstep with
  | same => exact h
  | ownConn =>
    exact {
      inverse := h.inverse
      keys_made := fun cc hcc => Nat.lt_succ_of_lt (h.keys_made cc hcc)
      calls_made := fun c hc cc hres => Nat.lt_succ_of_lt (h.calls_made c hc cc hres)
      dead_made := fun cc hcc => Nat.lt_succ_of_lt (h.dead_made cc hcc)
      dialing := h.dialing }
  | @dialStarted _ addr hnone =>
    obtain ⟨hmade, hdialing⟩ := h.started { kind := .dial, key := addr } rfl
    refine { h with calls_made := hmade, dialing := fun addr' call hcall => ?_ }
    by_cases heq : addr' = addr
    · have hlast : update s.pool.dialing addr (some s.calls.length) addr' = some call :=
        hcall
      rw [heq, update_self, Option.some_inj] at hlast
      exact ⟨{ kind := .dial, key := addr }, hlast ▸ List.getElem?_concat_length, rfl, heq.symm,
        nofun⟩
    · exact hdialing addr' call ((update_of_ne heq ..).symm.trans hcall)
  | @addStarted _ key =>
    obtain ⟨hmade, hdialing⟩ := h.started { kind := .addConn, key } rfl
    exact { h with calls_made := hmade, dialing := hdialing }
  | @failed _ call c hc hrunning =>
    exact { h with
      calls_made := calls_made_set h.calls_made (Nat.le_refl _) nofun
      dialing := fun addr call' hcall =>
        OpenDial.set hc (h.dialing addr call' hcall) fun hopen => ⟨hopen.1, hopen.2.1, nofun⟩ }
  | @made _ call c hc hrunning =>
    refine {
      inverse := h.inverse
      keys_made := fun cc hcc => Nat.lt_succ_of_lt (h.keys_made cc hcc)
      calls_made := calls_made_set h.calls_made (Nat.le_succ _) fun cc hres => ?_
      dead_made := fun cc hcc => Nat.lt_succ_of_lt (h.dead_made cc hcc)
      dialing := fun addr call' hcall =>
        OpenDial.set hc (h.dialing addr call' hcall) fun hopen => ⟨hopen.1, hopen.2.1, nofun⟩ }
    cases hres
    exact Nat.lt_succ_self _
  | @given _ call c hc hmade =>
    refine {
      inverse := ?_
      keys_made := ?_
      calls_made := calls_made_set h.calls_made (Nat.le_refl _) nofun
      dead_made := h.dead_made
      dialing := fun addr call' hcall => ?_ }
    · rw [conns_removeCall, keys_removeCall]
      exact h.inverse
    · rw [keys_removeCall]
      exact h.keys_made
    · obtain ⟨hold, hother⟩ := dialing_removeCall hcall
      exact OpenDial.set hc (h.dialing addr call' hold)
        fun hopen => absurd ⟨hopen.1, hopen.2.1⟩ hother
  | @inserted _ call c cc hc hmade =>
    have hcc : cc < s.made := h.calls_made c (mem_of_getElem? hc) cc (hmade ▸ rfl)
    refine {
      inverse := addConnLocked_inverse ?_ c.key cc
      keys_made := fun cc' hcc' => ?_
      calls_made := calls_made_set h.calls_made (Nat.le_refl _) fun cc' hres => ?_
      dead_made := h.dead_made
      dialing := fun addr call' hcall => ?_ }
    · rw [conns_removeCall, keys_removeCall]
      exact h.inverse
    · by_cases hne : cc' = cc
      · exact hne ▸ hcc
      · rw [keys_addConnLocked _ _ hne, keys_removeCall] at hcc'
        exact h.keys_made cc' hcc'
    · cases hres
      exact hcc
    · rw [dialing_addConnLocked] at hcall
      obtain ⟨hold, hother⟩ := dialing_removeCall hcall
      exact OpenDial.set hc (h.dialing addr call' hold)
        fun hopen => absurd ⟨hopen.1, hopen.2.1⟩ hother
  | @dead cc hcc =>
    refine {
      inverse := h.inverse.remove cc
      keys_made := fun cc' hcc' => h.keys_made cc' fun hnone => hcc' ?_
      calls_made := h.calls_made
      dead_made := forall_mem_cons.mpr ⟨hcc, h.dead_made⟩
      dialing := h.dialing }
    by_cases heq : cc' = cc
    · rw [heq]
      exact update_self ..
    · exact (update_of_ne heq ..).trans hnone

end Consistent

/-- No connection is marked dead between its creation and its insertion. -/
def insertsFirst (s : PoolState) : PoolEvent → Bool
  | .markDead cc => s.calls.all fun c => decide (c.phase ≠ .made (some cc))
  | _ => true

namespace DeadOut

theorem init : DeadOut {} where
  keys _ hcc := nomatch hcc
  calls _ hc := nomatch hc

variable {c : PoolCall}

theorem calls_append (h : s.DeadOut) (hrunning : c.phase = .running) :
    ∀ c' ∈ s.calls ++ [c], ∀ cc, c'.phase = .made (some cc) → cc ∉ s.dead := by
  intro c' hc' cc hphase
  rcases mem_append.mp hc' with hmem | hmem
  · exact h.calls c' hmem cc hphase
  · rw [mem_singleton.mp hmem, hrunning] at hphase
    cases hphase

theorem calls_set (h : s.DeadOut) {call : CallRef}
    (hc : ∀ cc, c.phase = .made (some cc) → cc ∉ s.dead) :
    ∀ c' ∈ s.calls.set call c, ∀ cc, c'.phase = .made (some cc) → cc ∉ s.dead := by
  intro c' hc' cc hphase
  rcases mem_or_eq_of_mem_set hc' with hmem | heq
  · exact h.calls c' hmem cc hphase
  · exact hc cc (heq ▸ hphase)

theorem step (hcons : s.Consistent) (h : s.DeadOut) (hcond : s.insertsFirst e = true)
    (hstep : s.Stepped e s') : s'.DeadOut := by
  cases hstep with
  | same => exact h
  | ownConn => exact { h with }
  | dialStarted hnone => exact { h with calls := calls_append h rfl }
  | addStarted => exact { h with calls := calls_append h rfl }
  | failed hc hrunning => exact { h with calls := calls_set h nofun }
  | @made _ call c hc hrunning =>
    refine { h with calls := calls_set h fun cc hphase hdead => ?_ }
    cases hphase
    exact Nat.lt_irrefl _ (hcons.dead_made _ hdead)
  | given hc hmade =>
    refine ⟨?_, calls_set h nofun⟩
    rw [keys_removeCall]
    exact h.keys
  | @inserted _ call c cc hc hmade =>
    refine ⟨fun cc' hdead => ?_, calls_set h nofun⟩
    have hne : cc' ≠ cc := fun heq =>
      h.calls c (mem_of_getElem? hc) cc hmade (heq ▸ hdead)
    rw [keys_addConnLocked _ _ hne, keys_removeCall]
    exact h.keys cc' hdead
  | @dead cc hcc =>
    refine ⟨fun cc' hdead => ?_, fun c hc cc' hphase hdead => ?_⟩
    · by_cases heq : cc' = cc
      · rw [heq]
        exact update_self ..
      · exact (update_of_ne heq ..).trans
          (h.keys cc' ((mem_cons.mp hdead).resolve_left heq))
    · rcases mem_cons.mp hdead with heq | hold
      · exact of_decide_eq_true (all_eq_true.mp hcond c hc) (heq ▸ hphase)
      · exact h.calls c hc cc' hphase hold

end DeadOut

/-! ## Connections for requests -/

/-- The connection that a request gets, once it has one. -/
def handed (s : PoolState) : GetResult → Option ConnRef
  | .conn cc => some cc
  | .wait call => (s.calls[call]?).bind fun c => c.phase.res
  | .noCachedConn => none
  | .dialError => none

/-- At least `n` connections have been made, and the call has made none of `dead`. -/
def MakesOther (dead : List ConnRef) (n : Nat) (call : CallRef) (s : PoolState) : Prop :=
  n ≤ s.made ∧ ∃ c, s.calls[call]? = some c ∧ ∀ cc, c.phase.res = some cc → cc ∉ dead

namespace MakesOther

variable {dead : List ConnRef} {n : Nat} {call : CallRef}

theorem set (h : MakesOther dead n call s) {call' : CallRef} {c' : PoolCall} {p : ClientConnPool}
    {m : Nat} (hm : s.made ≤ m) (hc' : call' = call → ∀ cc, c'.phase.res = some cc → cc ∉ dead) :
    MakesOther dead n call { s with calls := s.calls.set call' c', made := m, pool := p } := by
  obtain ⟨hn, c, hc, hres⟩ := h
  refine ⟨Nat.le_trans hn hm, ?_⟩
  by_cases heq : call' = call
  · have hlt := (List.getElem?_eq_some_iff.mp hc).1
    exact ⟨c', heq ▸ List.getElem?_set_self (heq ▸ hlt), hc' heq⟩
  · exact ⟨c, (List.getElem?_set_ne heq).trans hc, hres⟩

theorem append (h : MakesOther dead n call s) (c' : PoolCall) (p : ClientConnPool) :
    MakesOther dead n call { s with calls := s.calls ++ [c'], pool := p } := by
  obtain ⟨hn, c, hc, hres⟩ := h
  exact ⟨hn, c, (List.getElem?_append_left (List.getElem?_eq_some_iff.mp hc).1).trans hc, hres⟩

theorem step (hdead : ∀ cc ∈ dead, cc < n) (h : MakesOther dead n call s)
    (hstep : s.Stepped e s') : MakesOther dead n call s' := by
  have hsame {call' : CallRef} {c : PoolCall} (hc : s.calls[call']? = some c) (heq : call' = call) :
      ∀ cc, c.phase.res = some cc → cc ∉ dead := by
    obtain ⟨-, c₀, hc₀, hres⟩ := h
    rw [heq] at hc
    cases hc.symm.trans hc₀
    exact hres
  cases hstep with
  | same => exact h
  | ownConn => exact ⟨Nat.le_succ_of_le h.1, h.2⟩
  | dialStarted hnone => exact h.append ..
  | addStarted => exact h.append ..
  | failed hc hrunning => exact h.set (Nat.le_refl _) fun _ => nofun
  | made hc hrunning =>
    refine h.set (Nat.le_succ _) fun _ cc hres hmem => ?_
    cases hres
    exact absurd (hdead _ hmem) (Nat.not_lt.mpr h.1)
  | given hc hmade => exact h.set (Nat.le_refl _) fun _ => nofun
  | inserted hc hmade =>
    refine h.set (Nat.le_refl _) fun heq cc hres => hsame hc heq cc ?_
    rw [hmade]
    exact hres
  | dead hcc => exact h

end MakesOther

/-- A request that waits for a call waits for one whose connection is not dead. -/
theorem makesOther_getStartDialLocked (hcons : s.Consistent) (hout : s.DeadOut) (addr : String) :
    MakesOther s.dead s.made (s.getStartDialLocked addr).1 (s.getStartDialLocked addr).2 := by
  unfold getStartDialLocked
  cases hdialing : s.pool.dialing addr with
  | none =>
    exact ⟨Nat.le_refl _, { kind := .dial, key := addr }, List.getElem?_concat_length, nofun⟩
  | some call =>
    obtain ⟨c, hc, -, -, hopen⟩ := hcons.dialing addr call hdialing
    refine ⟨Nat.le_refl _, c, hc, fun cc hres => ?_⟩
    cases hphase : c.phase with
    | running =>
      rw [hphase] at hres
      cases hres
    | made res =>
      rw [hphase] at hres
      exact hout.calls c (mem_of_getElem? hc) cc (hphase.trans (congrArg CallPhase.made hres))
    | finished res => exact absurd hphase (hopen res)

/-- A request never gets a connection that was dead when it asked. -/
theorem not_handed_dead (hcons : s.Consistent) (hout : s.DeadOut) {closeRequest dialOnMiss : Bool}
    {takes : ConnRef → Bool} {dialOk : Bool} {rest : List PoolEvent}
    (hdead : cc ∈ s.dead) :
    ((s.getClientConn addr closeRequest dialOnMiss takes dialOk).2.run rest).handed
      (s.getClientConn addr closeRequest dialOnMiss takes dialOk).1 ≠ some cc := by
  unfold getClientConn
  split
  · split
    · intro hhanded
      cases hhanded
      exact Nat.lt_irrefl _ (hcons.dead_made _ hdead)
    · exact nofun
  · cases hfind : (s.pool.conns.values addr).find? takes with
    | some cc' =>
      intro hhanded
      cases hhanded
      exact hcons.inverse.not_mem (hout.keys cc hdead) addr (mem_of_find?_eq_some hfind)
    | none =>
      dsimp only
      split
      · intro hhanded
        obtain ⟨-, c, hc, hres⟩ := invariant_of_run
          (fun h _ hstep => MakesOther.step hcons.dead_made h hstep)
          (makesOther_getStartDialLocked hcons hout addr)
          (Lib.Run.always_of_forall (fun _ _ => trivial) _ rest)
        dsimp only [handed] at hhanded
        rw [hc, Option.bind_some] at hhanded
        exact hres cc hhanded hdead
      · exact nofun

/-- In every run the two maps are each other's inverse, without repetitions.  If every
connection is inserted before it is marked dead, one that has been marked dead is in
neither map, and no request that comes later gets it. -/
theorem pool_consistent {events : List PoolEvent} (hrun : ({} : PoolState).run events = s) :
    Multimap.Inverse s.pool.conns s.pool.keys ∧
      (Lib.Run.Always (fun s e => pure (s.step e)) (insertsFirst · · = true) {} events →
        ∀ cc ∈ s.dead, s.pool.keys.get cc = none ∧ (∀ key, cc ∉ s.pool.conns.values key) ∧
          ∀ addr closeRequest dialOnMiss takes dialOk rest,
            ((s.getClientConn addr closeRequest dialOnMiss takes dialOk).2.run rest).handed
              (s.getClientConn addr closeRequest dialOnMiss takes dialOk).1 ≠ some cc) := by
  rw [← hrun]
  have hcons := invariant_of_run (fun h _ hstep => Consistent.step h hstep)
    Consistent.init (Lib.Run.always_of_forall (fun _ _ => trivial) _ events)
  refine ⟨hcons.inverse, fun halways cc hdead => ?_⟩
  obtain ⟨-, hout⟩ := invariant_of_run (I := fun s => s.Consistent ∧ s.DeadOut)
    (fun h hcond hstep => ⟨h.1.step hstep, h.2.step h.1 hcond hstep⟩)
    ⟨Consistent.init, DeadOut.init⟩ halways
  have hkeys := hout.keys cc hdead
  exact ⟨hkeys, hcons.inverse.not_mem hkeys, fun _ _ _ _ _ _ =>
    not_handed_dead hcons hout hdead⟩

/-- A request dials, and the connection is made. -/
def dialEvents : List PoolEvent :=
  [.getClientConn "a:443" false true (fun _ => true) true, .connMade 0 true]

theorem pool_consistent_dial :
    ∃ s : PoolState, ({} : PoolState).run (dialEvents ++ [.insert 0, .markDead 0]) = s ∧
      s.dead = [0] ∧ s.pool.keys.get 0 = none := by
  obtain ⟨s, hrun, hdead⟩ : ∃ s : PoolState,
      ({} : PoolState).run (dialEvents ++ [.insert 0, .markDead 0]) = s ∧ s.dead = [0] :=
    ⟨_, rfl, rfl⟩
  obtain ⟨-, hout⟩ := pool_consistent hrun
  exact ⟨s, hrun, hdead, (hout (by decide +kernel) 0 (hdead ▸ mem_singleton_self 0)).1⟩

/-- The read loop of the new connection ends before the pool has inserted it: the dead
connection is then in both maps, and a request that comes in between gets it. -/
theorem dead_inserted :
    ∃ s₁ s : PoolState, ({} : PoolState).run (dialEvents ++ [.markDead 0]) = s₁ ∧
      s₁.handed (s₁.getClientConn "a:443" false true (fun _ => true) true).1 = some 0 ∧
      s₁.run [.insert 0] = s ∧ s₁.dead = [0] ∧ s.dead = [0] ∧
      s.pool.keys.get 0 = some ["a:443"] ∧ s.pool.conns.get "a:443" = some [0] := by
  refine ⟨_, _, rfl, ?_, rfl, rfl, rfl, ?_, ?_⟩ <;> decide +kernel

end PoolState

end Fhttp.Http2
