import Fhttp.Http2.ServerSteps

/-!
# The small steps of the writer

The small steps of the functions of `Fhttp.Http2.Server`: `writeFrame`, `closeStream`,
`wroteFrame` and the loop of `scheduleFrameWrite`.

The functions with a parameter `schedule` are gone through once for both modes, under the
assumption that `schedule` makes small steps itself.  In the loop that is trivial, so the loop
comes next, and then the assumption holds outside of the loop as well (`outside_steps`).
-/

namespace Fhttp.Http2.ServerConn

open Lib.Steps (Stepwise)
open Relation (ReflTransGen)

variable {W : WriteScheduler} {env : ServerEnv} {sc₀ sc : ServerConn W} {e : ServerEvent}
  {g : Phase} {mode : Mode} {wr : FrameWriteRequest} {id : UInt32}

/-- A step that changes flags only. -/
theorem flags_step (g : Phase) (sc sc' : ServerConn W)
    (h : sc' = { sc with
      pushEnabled := sc'.pushEnabled, sawFirstSettings := sc'.sawFirstSettings
      needToSendSettingsAck := sc'.needToSendSettingsAck
      needsFrameFlush := sc'.needsFrameFlush
      inFrameScheduleLoop := sc'.inFrameScheduleLoop, shutdownTimer := sc'.shutdownTimer
      unackedSettings := sc'.unackedSettings, clientMaxStreams := sc'.clientMaxStreams
      writes := sc'.writes, ranges := sc'.ranges }) :
    Step env sc₀ e (g, sc) (g, sc') := by
  rw [h]
  exact .flags ..

theorem kept_closeWithErrorAndCode (p : Pipe BodyError Unit) (err : BodyError) (fn : Option Unit) :
    Kept p (p.closeWithErrorAndCode err fn) := by
  unfold Pipe.closeWithErrorAndCode
  split <;> exact ⟨rfl, rfl, rfl⟩

/-! ## Frames that are queued -/

section

variable (sc : ServerConn W) (wr : FrameWriteRequest)

theorem noteHeaders_pushed (ws : W.State) :
    (sc.noteHeaders wr).pushed wr ws = (sc.pushed wr ws).noteHeaders wr := by
  unfold noteHeaders
  split <;> rfl

theorem noteHeaders_writeSched : (sc.noteHeaders wr).writeSched = sc.writeSched := by
  unfold noteHeaders
  split <;> rfl

end

theorem noteHeaders_steps (g : Phase) (sc : ServerConn W) (wr : FrameWriteRequest) :
    ReflTransGen (Step env sc₀ e) (g, sc) (g, sc.noteHeaders wr) := by
  unfold noteHeaders
  split
  · exact .single (.touch g sc _ _ ⟨rfl, rfl, rfl⟩)
  · exact .refl

theorem accepts_of_ignoresWrite (h : sc.ignoresWrite wr = false) : sc.Accepts wr := by
  have hfirst := (Bool.or_eq_false_iff.mp h).1
  by_cases hreset : wr.isReset = true
  · exact .inl hreset
  by_cases hid : wr.streamID = 0
  · exact .inr (.inl hid)
  refine .inr (.inr fun hclosed => hreset ?_)
  simpa [hid, hclosed] using hfirst

theorem push_steps (horigin : Origin e sc wr) (haccepts : sc.Accepts wr) :
    Keeps env sc₀ e g sc ((sc.noteHeaders wr).push wr) := by
  show Stepwise _ _ _ _ (W.push (sc.noteHeaders wr).writeSched wr >>= _)
  rw [noteHeaders_writeSched]
  cases hpush : W.push sc.writeSched wr with
  | error err => exact .error (.push g sc wr err horigin haccepts hpush)
  | ok ws =>
    show ReflTransGen _ _ (g, (sc.noteHeaders wr).pushed wr ws)
    rw [noteHeaders_pushed]
    exact .head (.push g sc wr ws horigin haccepts hpush) (noteHeaders_steps g _ wr)

section Schedule

variable (hs : ∀ {g : Phase} {sc : ServerConn W}, g.Free mode →
  Keeps env sc₀ e g sc (mode.schedule env sc))

include hs

theorem writeFrame_steps (hfree : g.Free mode) (horigin : Origin e sc wr) :
    Keeps env sc₀ e g sc (sc.writeFrame (mode.schedule env) wr) := by
  unfold writeFrame
  split
  · exact (hs hfree).before (noteHeaders_steps g sc wr)
  · rename_i hignores
    exact (push_steps horigin (accepts_of_ignoresWrite (Bool.eq_false_iff.mpr hignores))).bind
      fun _ _ => hs hfree

theorem goAway_steps (hfree : g.Free mode) (code : ErrCode) :
    Keeps env sc₀ e g sc (sc.goAway (mode.schedule env) code) := by
  unfold goAway
  split
  · exact .ok rfl
  · rename_i hnot
    exact (hs hfree).step (.goAway g sc code (Bool.eq_false_iff.mpr hnot))

theorem resetStream_steps (hfree : g.Free mode) (id : UInt32) (code : ErrCode) :
    Keeps env sc₀ e g sc (sc.resetStream (mode.schedule env) id code) := by
  refine (writeFrame_steps hs hfree (.reset id code)).bind fun sc' _ => ?_
  split
  · exact .single (.touch g sc' id _ ⟨rfl, rfl, rfl⟩)
  · exact .refl

/-! ## Flow control that is given back -/

omit hs in
/-- Streams that were made are not forgotten. -/
theorem created_mono {x y : Phase × ServerConn W} (h : ReflTransGen (Step env sc₀ e) x y)
    (hid : id ∈ x.2.history.created) : id ∈ y.2.history.created := by
  induction h with
  | refl => exact hid
  | tail _ hstep ih =>
    cases hstep with
    | promise | request => exact List.mem_append_left _ ih
    | _ => exact ih

omit hs in
theorem addInflow_steps {w : InboundWindow} {n : Int32} (hn : 0 < n) {sc' : ServerConn W}
    (hadd : sc.addInflow w n = some sc') : ReflTransGen (Step env sc₀ e) (g, sc) (g, sc') := by
  cases w with
  | conn source =>
    simp only [addInflow] at hadd
    split at hadd
    · rename_i hok
      cases hadd
      exact .single (.refillConn g sc source n hn hok)
    · cases hadd
  | stream id =>
    simp only [addInflow] at hadd
    split at hadd
    · rename_i hok
      cases hadd
      exact .single (.refillStream g sc id n hn hok)
    · cases hadd

section

variable (hfree : g.Free mode)

include hfree

theorem sendWindowUpdate32_steps {w : InboundWindow} {n : Int32}
    (hw : ∀ id, w = .stream id → id ∈ sc.history.created) (hn : 0 ≤ n) :
    Keeps env sc₀ e g sc (sc.sendWindowUpdate32 (mode.schedule env) w n) := by
  unfold sendWindowUpdate32
  split
  · exact .ok rfl
  rename_i hzero
  rw [if_neg (Int32.not_lt.mpr hn)]
  refine (writeFrame_steps hs hfree (.update w _ hw)).bind fun sc' _ => ?_
  have hpos : 0 < n := Int32.lt_of_le_of_ne hn (Ne.symm hzero)
  split
  · rename_i sc'' hadd
    exact addInflow_steps hpos hadd
  · rename_i hadd
    exact .error (.tooMany g sc' w n hpos hadd)

theorem sendWindowUpdates_steps {w : InboundWindow} {ns : List Int32} (hns : ∀ n ∈ ns, 0 ≤ n)
    (hw : ∀ id, w = .stream id → id ∈ sc.history.created) :
    Keeps env sc₀ e g sc
      (ns.foldlM (fun sc n => sc.sendWindowUpdate32 (mode.schedule env) w n) sc) := by
  induction ns generalizing sc with
  | nil => exact .ok rfl
  | cons n ns ih =>
    refine (sendWindowUpdate32_steps hs hfree hw (hns n List.mem_cons_self)).bind
      fun sc' hsteps => ?_
    exact ih (fun n hn => hns n (List.mem_cons_of_mem _ hn))
      fun id hid => created_mono hsteps (hw id hid)

theorem sendWindowUpdate_steps {w : InboundWindow} (n : Nat)
    (hw : ∀ id, w = .stream id → id ∈ sc.history.created) :
    Keeps env sc₀ e g sc (sc.sendWindowUpdate (mode.schedule env) w n) := by
  have hnonneg : ∀ k ≤ maxUint31, 0 ≤ Int32.ofNat k := by
    intro k hk
    rw [Int32.le_iff_toInt_le, Int32.toInt_ofNat_of_lt (by unfold maxUint31 at hk; omega)]
    exact Int.natCast_nonneg k
  refine (sendWindowUpdates_steps hs hfree ?_ hw).bind fun sc' hsteps => ?_
  · intro k hk
    rw [List.eq_of_mem_replicate hk]
    exact hnonneg _ (Nat.le_refl _)
  · refine sendWindowUpdate32_steps hs hfree (fun id hid => created_mono hsteps (hw id hid)) ?_
    exact hnonneg _ (Nat.le_of_lt (Nat.mod_lt _ (by decide)))

/-! ## Streams that end -/

theorem closeBody_steps (id : UInt32) (err : BodyError) :
    Keeps env sc₀ e g sc (sc.closeBody (mode.schedule env) id err) := by
  unfold closeBody
  split
  · exact .ok rfl
  refine (sendWindowUpdate_steps hs hfree _ fun _ h => (by cases h)).bind fun sc' _ => ?_
  cases hbody : (sc'.stream id).body with
  | none =>
    refine .single (.touch g sc' id _ ⟨rfl, ?_, rfl⟩)
    rw [hbody]
    rfl
  | some p =>
    refine .single (.endBody g sc' id _ p (p.closeWithError err) hbody
      (kept_closeWithErrorAndCode p err none) ⟨rfl, ?_, rfl⟩)
    rw [hbody]
    rfl

theorem lastStream_steps (id : UInt32) :
    Keeps env sc₀ e g sc (lastStream env (mode.schedule env) sc id) := by
  unfold lastStream
  split
  · exact goAway_steps hs hfree .no
  · exact .ok rfl

end

theorem closeStream_steps (hcloses : Closes g sc id) (hfree : g.closing mode = none)
    (hout : mode = .outside → g.Quiet ∧ Outer sc₀ e g sc id) (err : BodyError) :
    Writes env sc₀ e g sc (sc.closeStream env (mode.schedule env) id err) := by
  unfold closeStream
  split
  · rename_i hstate
    exact .error (.closeStream g sc id hstate hcloses)
  rename_i hstate
  obtain ⟨hidle, hclosed⟩ := not_or.mp hstate
  refine .step (.forget g sc mode id hidle hclosed hcloses hfree hout) ?_
  have hclosing : (g.idle.close (some id) mode).Free mode := by
    rintro rfl
    exact ⟨rfl, (hout rfl).1⟩
  refine (lastStream_steps hs hclosing id).bind fun sc₁ _ => ?_
  refine (closeBody_steps hs hclosing id err).bind fun sc₂ _ => ?_
  refine .step (.touch _ sc₂ id (fun st => { st with cwClosed := true }) ⟨rfl, rfl, rfl⟩) ?_
  generalize sc₂.update id (fun st => { st with cwClosed := true }) = sc₃
  show Stepwise _ _ _ _ (W.closeStream sc₃.writeSched id >>= _)
  cases hcall : W.closeStream sc₃.writeSched id with
  | error err => exact .error (.purge _ _ id err hcall)
  | ok ws =>
    have hpurge : Step env sc₀ e (g.idle.close (some id) mode, sc₃)
        ((g.idle.close (some id) mode).close none mode, sc₃.called (.closeStream id) ws) :=
      .purge _ sc₃ mode id ws (Phase.closing_close ..) hcall
    have hback : (g.idle.close (some id) mode).close none mode = g.idle := by
      refine Phase.close_none ?_ _
      cases mode <;> exact hfree
    rw [hback] at hpurge
    exact .single hpurge

/-! ## Frames that are written -/

omit hs in
/-- A frame that was written and has no effect on a stream. -/
theorem writes_done (hw : g.writing = some wr) : Writes env sc₀ e g sc (.ok sc) :=
  ReflTransGen.single (.done g sc wr hw)

theorem frameDone_steps (hw : g.writing = some wr) (hflight : sc.inFlight = none)
    (hfree : g.closing mode = none) (hout : mode = .outside → g.Quiet ∧ ∀ id, Outer sc₀ e g sc id) :
    Writes env sc₀ e g sc (frameDone env (mode.schedule env) sc wr) := by
  have hidle : g.idle.Free mode := fun hmode => ⟨rfl, (hout hmode).1⟩
  have hclose : ∀ {id : UInt32}, Closes g sc id → ∀ err,
      Writes env sc₀ e g sc (sc.closeStream env (mode.schedule env) id err) :=
    fun hcloses err => closeStream_steps hs hcloses hfree
      (fun hmode => ⟨(hout hmode).1, (hout hmode).2 _⟩) err
  unfold frameDone
  split
  · rename_i hends
    split
    · rename_i hstream
      exact .error (.noStream g sc wr hw hends hstream)
    · rename_i id hstream
      split
      · rename_i hopen
        exact (resetStream_steps hs hidle id .no).step
          (.halfClose g sc wr id hw hends hstream hopen)
      · rename_i hstate
        exact hclose (.ended wr hw hends hstream hstate hflight) _
      · exact writes_done hw
  · split
    · rename_i streamID code hwrite
      split
      · rename_i hmem
        exact hclose (.reset wr code hw hwrite hmem hflight) _
      · exact writes_done hw
    · rename_i id hstream _
      split
      · rename_i hkind
        exact hclose (.panicked wr hw hkind hstream hflight) _
      · exact writes_done hw
    · exact writes_done hw

end Schedule

/-! ## The loop -/

/-- In the loop nothing is scheduled. -/
theorem inside_steps {g : Phase} {sc : ServerConn W} (_ : g.Free .inside) :
    Keeps env sc₀ e g sc (Mode.inside.schedule env sc) := .ok rfl

section

variable (hw : g.writing = some wr)

include hw

theorem beginWrite_steps (hok : wr.write.kind ≠ some .writePushPromise → sc.checkStream wr = .ok ())
    (hinner : g.inner = none) : Writes env sc₀ e g sc (beginWrite env sc wr) := by
  unfold beginWrite
  simp only
  split
  · refine .step (.begins g sc wr (sc.writes + 1) hw hok) ?_
    refine (frameDone_steps inside_steps hw rfl hinner nofun).bind fun sc' _ => ?_
    exact .ok rfl
  · exact ReflTransGen.single (.beginsAsync g sc wr (sc.writes + 1) hw hok)

/-- The small steps of `allocatePromisedID`; the phase is that of the push promise. -/
theorem allocatePromisedID_steps (hkind : wr.write.kind = some .writePushPromise)
    (hopened : g.opened = none) (parent : UInt32) :
    Stepwise (Step env sc₀ e) (Fails sc₀ e) (g, sc) (fun r => (g, r.2))
      (allocatePromisedID env sc parent) := by
  unfold allocatePromisedID
  split
  · exact .ok rfl
  split
  · exact .ok rfl
  rename_i hmax
  split
  · have hgoAway : Keeps env sc₀ e g sc (sc.goAway (Mode.inside.schedule env) .no) :=
      goAway_steps inside_steps g.free_inside .no
    exact hgoAway.bind fun _ _ => .ok rfl
  rename_i hid
  simp only
  unfold newStream
  split
  · rename_i hzero
    exact .error (.zeroStream g sc hzero)
  rename_i hne
  refine .step (.promise g sc wr hw hkind hmax hid hne) ?_
  generalize addStream env _ (sc.maxPushPromiseID + 2) _ = sc₁
  show Stepwise _ _ _ _ ((W.openStream sc₁.writeSched _ parent >>= _) >>= _)
  cases hcall : W.openStream sc₁.writeSched (sc.maxPushPromiseID + 2) parent with
  | error err => exact .error (.openStream _ sc₁ _ parent err hne hcall)
  | ok ws =>
    refine .step (.openStream _ sc₁ _ parent ws rfl hne hcall) ?_
    refine .step (.runPushed _ _ (sc.maxPushPromiseID + 2) rfl ?_) (.ok ?_)
    · intro hnone
      cases hw.symm.trans hnone
    · cases g
      cases hopened
      rfl

theorem checkStream_steps :
    Stepwise (Step env sc₀ e) (Fails sc₀ e) (g, sc) (fun _ => (g, sc)) (sc.checkStream wr) := by
  unfold checkStream
  split
  · exact .ok rfl
  rename_i id hid
  split
  · rename_i hstate
    split
    · exact .ok rfl
    · rename_i hnot
      exact .error (.halfClosed g sc wr id hw hid hstate (Bool.eq_false_iff.mpr hnot))
  · rename_i hstate
    exact .error (.closed g sc wr id hw hid hstate)
  · exact .ok rfl

theorem startFrameWrite_steps (hquiet : g.Quiet) :
    Writes env sc₀ e g sc (startFrameWrite env sc wr) := by
  unfold startFrameWrite
  split
  · rename_i hbusy
    exact .error (.busy g sc wr hw hbusy)
  have hcheck : Stepwise (Step env sc₀ e) (Fails sc₀ e) (g, sc) (fun _ => (g, sc))
      (sc.checkStream wr) := checkStream_steps hw
  cases hok : sc.checkStream wr with
  | error err =>
    rw [hok] at hcheck
    exact hcheck
  | ok u =>
    split
    · rename_i hkind
      refine (allocatePromisedID_steps hw hkind hquiet.2 wr.streamID).bind fun r _ => ?_
      obtain ⟨promised, sc'⟩ := r
      show Writes env sc₀ e g sc' (ite _ _ _)
      split
      · exact beginWrite_steps hw (fun hnot => (hnot hkind).elim) hquiet.1
      · exact ReflTransGen.single (.cancel g sc' wr hw hkind)
    · exact beginWrite_steps hw (fun _ => hok) hquiet.1

end

/-- A frame that was taken is written. -/
theorem taken_steps (hidle : g.writing = none) (hquiet : g.Quiet) :
    Stepwise (Step env sc₀ e) (Fails sc₀ e) ({ g with writing := some wr }, sc)
      (fun sc' => (g, sc')) (startFrameWrite env sc wr) := by
  have hwrites : Writes env sc₀ e { g with writing := some wr } sc (startFrameWrite env sc wr) :=
    startFrameWrite_steps rfl hquiet
  unfold Writes at hwrites
  rw [Phase.idle_set hidle] at hwrites
  exact hwrites

theorem pop_steps (hasync : sc.writingFrameAsync = false) (hidle : g.writing = none)
    (hquiet : g.Quiet) :
    Stepwise (Step env sc₀ e) (Fails sc₀ e) (g, sc) (fun r => ({ g with writing := r.1 }, r.2))
      sc.pop := by
  unfold pop
  split
  · cases hpop : W.pop sc.writeSched sc.flows with
    | error err => exact .error (.pop g sc err hpop)
    | ok r => exact ReflTransGen.single (.pop g sc r hidle hquiet.1 hasync hpop)
  · exact .ok (congrArg (fun g => (g, sc)) (Phase.idle_set hidle none))

theorem pop_writingFrameAsync {r : Option FrameWriteRequest × ServerConn W} (h : sc.pop = .ok r) :
    r.2.writingFrameAsync = sc.writingFrameAsync := by
  unfold pop at h
  split at h
  · cases hpop : W.pop sc.writeSched sc.flows with
    | error err =>
      rw [hpop] at h
      cases h
    | ok r' =>
      rw [hpop] at h
      cases h
      rfl
  · cases h
    rfl

theorem schedulePass_steps (hasync : sc.writingFrameAsync = false) (hidle : g.writing = none)
    (hquiet : g.Quiet) :
    Stepwise (Step env sc₀ e) (Fails sc₀ e) (g, sc) (fun r => (g, r.2)) (schedulePass env sc) := by
  unfold schedulePass
  split
  · rename_i hneed
    refine .step (.announce g sc hneed hidle hasync) ?_
    exact (taken_steps hidle hquiet).bind fun _ _ => .ok rfl
  split
  · refine .step (flags_step g sc { sc with needToSendSettingsAck := false } rfl) ?_
    refine .step (.control g _ .writeSettingsAck hidle hasync (.inl rfl)) ?_
    exact (taken_steps hidle hquiet).bind fun _ _ => .ok rfl
  have hsteps : Stepwise (Step env sc₀ e) (Fails sc₀ e) (g, sc) _ sc.pop :=
    pop_steps hasync hidle hquiet
  cases hpop : sc.pop with
  | error err =>
    rw [hpop] at hsteps
    exact hsteps
  | ok r =>
    rw [hpop] at hsteps
    refine .before hsteps ?_
    have hasync' := (pop_writingFrameAsync hpop).trans hasync
    obtain ⟨wr, sc'⟩ := r
    cases wr with
    | some wr => exact (taken_steps hidle hquiet).bind fun _ _ => .ok rfl
    | none =>
      have hback : ({ g with writing := none } : Phase) = g := Phase.idle_set hidle none
      show Stepwise _ _ (({ g with writing := none } : Phase), sc') _ (ite _ _ _)
      rw [hback]
      split
      · refine .step (.control g sc' .flushFrameWriter hidle hasync' (.inr rfl)) ?_
        refine (taken_steps hidle hquiet).bind fun sc'' _ => ?_
        exact ReflTransGen.single (flags_step g sc'' { sc'' with needsFrameFlush := false } rfl)
      · exact .ok rfl

theorem scheduleLoop_steps (passes : Nat) (hidle : g.writing = none) (hquiet : g.Quiet) :
    Keeps env sc₀ e g sc (scheduleLoop env passes sc) := by
  induction passes generalizing sc with
  | zero => exact .error (.diverges _)
  | succ passes ih =>
    unfold scheduleLoop
    split
    · exact .ok rfl
    rename_i hasync
    refine (schedulePass_steps (Bool.eq_false_iff.mpr hasync) hidle hquiet).bind fun r _ => ?_
    obtain ⟨goesOn, sc'⟩ := r
    cases goesOn with
    | true => exact ih
    | false => exact .ok rfl

theorem scheduleFrameWrite_steps (hidle : g.writing = none) (hquiet : g.Quiet) :
    Keeps env sc₀ e g sc (scheduleFrameWrite env sc) := by
  unfold scheduleFrameWrite
  split
  · exact .ok rfl
  refine .step (flags_step g sc { sc with inFrameScheduleLoop := true } rfl) ?_
  refine (scheduleLoop_steps env.passes hidle hquiet).bind fun sc' _ => ?_
  exact ReflTransGen.single (flags_step g sc' { sc' with inFrameScheduleLoop := false } rfl)

/-- Outside of the loop `scheduleFrameWrite` is called. -/
theorem outside_steps {g : Phase} {sc : ServerConn W} (hfree : g.Free .outside) :
    Keeps env sc₀ e g sc (Mode.outside.schedule env sc) :=
  scheduleFrameWrite_steps (hfree rfl).1 (hfree rfl).2

end Fhttp.Http2.ServerConn
