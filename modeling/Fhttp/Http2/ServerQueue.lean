import Fhttp.Http2.ServerEventSteps

/-!
# The count of queued control frames

The server counts the control frames in the write scheduler in `queuedControlFrames`, and gives up
a connection when there are too many.  The count goes up with `Push` and down with `Pop`.  But a
scheduler discards the frames of a stream when the stream is closed, and may do so when it evicts a
node from its tree, and the server does not hear of it.

`Counted` is the account: the count is the number of control frames that are held and of those that
calls of the scheduler have discarded.
-/

namespace Fhttp.Http2

open Lib.Panic (Yields)

/-- The control frames that a call of the scheduler discards, from the state before it. -/
def WriteScheduler.discarded (W : WriteScheduler) (call : SchedulerCall × W.State) : Nat :=
  match call.1.apply W call.2 with
  | .ok ws => W.held call.2 - W.held ws
  | .error _ => 0

theorem controls_singleton (wr : FrameWriteRequest) :
    controls [wr] = if wr.isControl then 1 else 0 := List.countP_singleton

theorem controls_toList (wr : Option FrameWriteRequest) :
    controls wr.toList = if wr.any FrameWriteRequest.isControl then 1 else 0 := by
  cases wr with
  | none => rfl
  | some wr => exact controls_singleton wr

namespace ServerConn

variable {W : WriteScheduler} {Ok : W.State → Prop} {env : ServerEnv} {sc₀ sc : ServerConn W}
  {e : ServerEvent}

variable {wr : FrameWriteRequest} {ws : W.State}

/-- A DATA frame that is pushed is for a stream. -/
theorem Origin.addressed (h : Origin e sc wr) (hzero : (0 : UInt32) ∉ sc.history.created) :
    wr.Addressed := by
  cases h with
  | handler id f he hid =>
    have hne : id ≠ 0 := fun heq => hzero (heq ▸ hid)
    cases f <;> exact fun _ => hne
  | push | reset | update | settings | ping => exact fun hpos => (Nat.lt_irrefl 0 hpos).elim

/-- The account of control frames. -/
def Counted (Ok : W.State → Prop) (sc : ServerConn W) : Prop :=
  Ok sc.writeSched ∧ sc.queuedControlFrames =
    (W.held sc.writeSched + (sc.history.calls.map W.discarded).sum : Nat)

/-- A call of the scheduler that adds no frame. -/
theorem Counted.called (hsc : Counted Ok sc) {c : SchedulerCall}
    (hcall : c.apply W sc.writeSched = .ok ws) (hws : Ok ws ∧ W.Loses sc.writeSched ws) :
    Counted Ok (sc.called c ws) := by
  refine ⟨hws.1, ?_⟩
  have hdiscarded : W.discarded (c, sc.writeSched) = W.held sc.writeSched - W.held ws := by
    unfold WriteScheduler.discarded
    simp only [hcall]
  have hle := hws.2.held
  show sc.queuedControlFrames =
    (W.held ws + ((sc.history.calls ++ [(c, sc.writeSched)]).map W.discarded).sum : Nat)
  rw [hsc.2, List.map_append, List.sum_append, List.map_singleton, List.sum_singleton, hdiscarded]
  omega

theorem Counted.popped (hlaw : W.Lawful Ok) (hsc : Counted Ok sc)
    {r : Option FrameWriteRequest × Flows × W.State} (hpop : W.pop sc.writeSched sc.flows = .ok r) :
    Counted Ok (sc.popped r) := by
  have hlawful := hlaw.pop sc.flows hsc.1
  rw [hpop] at hlawful
  refine ⟨hlawful.1, ?_⟩
  have hheld := hlawful.2.held
  have hcount := hsc.2
  rw [controls_toList] at hheld
  show sc.queuedControlFrames - (if r.1.any FrameWriteRequest.isControl then 1 else 0) =
    (W.held r.2.2 + (sc.history.calls.map W.discarded).sum : Nat)
  split at hheld
  · rename_i hcontrol
    rw [if_pos hcontrol]
    omega
  · rename_i hcontrol
    rw [if_neg hcontrol]
    omega

theorem Counted.pushed (hlaw : W.Lawful Ok) (hsc : Counted Ok sc) (hwr : wr.Addressed)
    (hpush : W.push sc.writeSched wr = .ok ws) : Counted Ok (sc.pushed wr ws) := by
  have hlawful := hlaw.push hsc.1 hwr
  rw [hpush] at hlawful
  refine ⟨hlawful.1, ?_⟩
  have hheld := hlawful.2.held
  have hcount := hsc.2
  rw [controls_singleton] at hheld
  show sc.queuedControlFrames + (if wr.isControl then 1 else 0) =
    (W.held ws + (sc.history.calls.map W.discarded).sum : Nat)
  split at hheld
  · rename_i hcontrol
    rw [if_pos hcontrol]
    omega
  · rename_i hcontrol
    rw [if_neg hcontrol]
    omega

theorem Counted.step (hlaw : W.Lawful Ok) {x y : Phase × ServerConn W} (hx : Counted Ok x.2)
    (hready : x.2.Ready) (h : Step env sc₀ e x y) : Counted Ok y.2 := by
  cases h with
  | pop g sc r hidle hinner hasync hpop => exact Counted.popped hlaw hx hpop
  | push g sc wr ws horigin haccepts hpush =>
    exact Counted.pushed hlaw hx (horigin.addressed hready.nonzero) hpush
  | openStream g sc id pusherID ws hopened hid hcall =>
    have hlawful := hlaw.openStream id pusherID hx.1 hid
    rw [hcall] at hlawful
    exact Counted.called hx hcall hlawful
  | adjustStream g sc id priority ws hcall =>
    have hlawful := hlaw.adjustStream id priority hx.1
    rw [hcall] at hlawful
    exact Counted.called hx hcall hlawful
  | purge g sc mode id ws hclosing hcall =>
    have hlawful := hlaw.closeStream id hx.1
    rw [hcall] at hlawful
    exact Counted.called hx hcall hlawful
  | _ => exact hx

theorem counted_newConn (hlaw : W.Lawful Ok) : Counted Ok (newConn W) := by
  refine ⟨hlaw.new, ?_⟩
  show (0 : Int) = (W.held W.new + 0 : Nat)
  rw [hlaw.held_new]
  rfl

/-- The account holds in every run. -/
theorem counted_run (hlaw : W.Lawful Ok) {events : List ServerEvent}
    (hrun : run env W events = .ok sc) : Counted Ok sc ∧ sc.Ready :=
  (run_of_steps (I := fun x => Counted Ok x.2) (counted_newConn hlaw)
    (fun _ _ _ _ _ hx hready hstep => hx.step hlaw hready hstep) events).of_ok hrun

/-- The account holds where the limit is tested. -/
theorem Counted.serveCase (hlaw : W.Lawful Ok) (hsc : Counted Ok sc ∧ sc.Ready)
    (hpossible : sc.possible e = true) {goesOn : Bool} {sc₁ : ServerConn W}
    (hcase : serveCase env sc e = .ok (goesOn, sc₁)) : Counted Ok sc₁ := by
  have hsteps : Serves env sc e {} sc (sc.serveCase env e) := serveCase_steps hsc.2 hpossible
  have hcounted := hsteps.outcome (I := fun x => Counted Ok x.2 ∧ x.2.Ready) hsc
    fun x y hx hstep => ⟨hx.1.step hlaw hx.2 hstep, hstep.ready hx.2⟩
  exact (hcounted.of_ok hcase).1

/-- The count is right exactly if no control frame was discarded. -/
theorem Counted.eq_held_iff (hsc : Counted Ok sc) :
    sc.queuedControlFrames = W.held sc.writeSched ↔
      ∀ call ∈ sc.history.calls, W.discarded call = 0 := by
  have hsum : (sc.history.calls.map W.discarded).sum = 0 ↔
      ∀ call ∈ sc.history.calls, W.discarded call = 0 := by
    rw [List.sum_eq_zero_iff]
    exact List.forall_mem_map
  rw [← hsum, hsc.2]
  omega

/-- `serve` has returned. -/
theorem serving_stopServing (env : ServerEnv) (sc : ServerConn W) :
    Yields (fun sc' => sc'.serving = false) (stopServing env sc) := by
  have hsteps : Keeps env sc .settingsTimer {} { sc with serving := false, ranges := sc.ranges + 1 }
      (stopServing env sc) := closeAllStreams_steps rfl _
  have hserving := hsteps.outcome (I := fun x => x.2.serving = false) rfl
    fun _ _ hx hstep => serving_mono (.single hstep) hx
  exact hserving.weaken fun _ _ => trivial

/-- In every run the count is the number of control frames in the scheduler exactly when no call of
the scheduler has discarded a control frame.  The same holds after each case of the `select`, where
the loop tests the limit: exactly then the count is that number and the loop stops if that number
is above the limit. -/
theorem queuedControlFrames_eq_held_iff (k : Scheduling) (env : ServerEnv)
    {events : List ServerEvent} {sc : ServerConn k.scheduler}
    (hrun : run env k.scheduler events = .ok sc) :
    (sc.queuedControlFrames = k.scheduler.held sc.writeSched ↔
      ∀ call ∈ sc.history.calls, k.scheduler.discarded call = 0) ∧
    ∀ e goesOn sc₁, sc.possible e = true → serveCase env sc e = .ok (goesOn, sc₁) →
      ((sc₁.queuedControlFrames = k.scheduler.held sc₁.writeSched ∧
          servePass env sc e =
            if !goesOn || (k.scheduler.held sc₁.writeSched : Int) > ServerEnv.maxQueuedControlFrames
            then stopServing env sc₁ else .ok sc₁.startShutdownTimer) ↔
        ∀ call ∈ sc₁.history.calls, k.scheduler.discarded call = 0) ∧
      Yields (fun sc₂ => sc₂.serving = false) (stopServing env sc₁) := by
  obtain ⟨Ok, hlaw⟩ := k.lawful
  have hsc := counted_run hlaw hrun
  refine ⟨hsc.1.eq_held_iff, fun e goesOn sc₁ hpossible hcase => ⟨?_, serving_stopServing env sc₁⟩⟩
  have hcounted : Counted Ok sc₁ := Counted.serveCase hlaw hsc hpossible hcase
  rw [← hcounted.eq_held_iff, and_iff_left_iff_imp]
  intro heq
  have hpass : servePass env sc e =
      if !goesOn || sc₁.queuedControlFrames > ServerEnv.maxQueuedControlFrames then
        stopServing env sc₁
      else .ok sc₁.startShutdownTimer := by
    unfold servePass
    rw [hcase]
    rfl
  rw [hpass, heq]

/-- A stream is opened and reset: two control frames are counted, and held. -/
theorem queuedControlFrames_eq_held_reset :
    ∃ sc, run simpleServer simpleScheduling.scheduler
        [.settings, .headers 1 flagHeadersEndHeaders []] = .ok sc ∧
      sc.history.calls.length = 1 ∧ simpleScheduling.scheduler.held sc.writeSched = 2 ∧
      sc.queuedControlFrames = simpleScheduling.scheduler.held sc.writeSched := by
  obtain ⟨sc, hrun, hlength, hheld, hcalls⟩ : ∃ sc, run simpleServer simpleScheduling.scheduler
      [.settings, .headers 1 flagHeadersEndHeaders []] = .ok sc ∧
      sc.history.calls.length = 1 ∧ simpleScheduling.scheduler.held sc.writeSched = 2 ∧
      ∀ call ∈ sc.history.calls, simpleScheduling.scheduler.discarded call = 0 :=
    ⟨_, rfl, rfl, rfl, by decide⟩
  have hiff := (queuedControlFrames_eq_held_iff simpleScheduling simpleServer hrun).1
  exact ⟨sc, hrun, hlength, hheld, hiff.mpr hcalls⟩

/-- A stream with a bad header block is reset by the server, and then by the peer: two control
frames are counted, and one is in the scheduler. -/
theorem queuedControlFrames_ne_held :
    (run simpleServer simpleScheduling.scheduler
      [.settings, .headers 1 flagHeadersEndHeaders [], .reset 1]).map
        (fun sc => (sc.queuedControlFrames, simpleScheduling.scheduler.held sc.writeSched)) =
      .ok (2, 1) := by
  rfl

end ServerConn

end Fhttp.Http2
