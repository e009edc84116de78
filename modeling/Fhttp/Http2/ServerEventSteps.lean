import Fhttp.Http2.ServerWriterSteps

/-!
# The small steps of an event

The small steps of the functions that process frames, and of an event as a whole
(`step_steps`).  `Ready` is what a connection needs before an event for that, and the small
steps keep it.

`run_of_steps` is the rule for runs: what holds of a new connection and is kept by the small steps
holds in every run, also in the middle of an event.
-/

namespace Fhttp.Http2.ServerConn

open Hpack (Bytes HeaderField)
open Lib.Panic (Fault Outcome)
open Lib.Steps (Stepwise)
open Relation (ReflTransGen)

variable {W : WriteScheduler} {env : ServerEnv} {sc₀ sc : ServerConn W} {e : ServerEvent}
  {g : Phase} {wr : FrameWriteRequest} {id : UInt32}

/-- What a connection needs before an event. -/
structure Ready (sc : ServerConn W) : Prop where
  window : 0 ≤ sc.initialStreamSendWindowSize
  reads : ∀ r ∈ sc.bodyReads, r.1 ∈ sc.history.created
  made : ∀ id ∈ sc.streams, id ∈ sc.history.created
  nonzero : (0 : UInt32) ∉ sc.history.created

/-- A method that processes a frame makes small steps. -/
abbrev Processes (env : ServerEnv) (sc₀ : ServerConn W) (e : ServerEvent) (g : Phase)
    (sc : ServerConn W) (x : Processed W) : Prop :=
  Stepwise (Step env sc₀ e) (Fails sc₀ e) (g, sc) (fun r => (g, r.2)) x

variable {sc' : ServerConn W} {x : Except Fault (ServerConn W)} {n : Int32} {val : UInt32}
  {f : Frame} {y : Phase × ServerConn W} {I : Phase × ServerConn W → Prop}

/-- A method that makes one small step and returns. -/
theorem processes_of_step {err : Option FrameError} (h : Step env sc₀ e (g, sc) (g, sc')) :
    Processes env sc₀ e g sc (.ok (err, sc')) :=
  ReflTransGen.single h

theorem succeeds_steps (h : Keeps env sc₀ e g sc x) : Processes env sc₀ e g sc (succeeds x) :=
  h.map fun _ => rfl

/-! ## The windows of the peer -/

/-- Small steps that change windows only. -/
structure Adjusts (env : ServerEnv) (sc₀ : ServerConn W) (e : ServerEvent) (g : Phase)
    (sc sc' : ServerConn W) : Prop where
  steps : ReflTransGen (Step env sc₀ e) (g, sc) (g, sc')
  streams : sc'.streams = sc.streams
  window : 0 ≤ sc.initialStreamSendWindowSize → 0 ≤ sc'.initialStreamSendWindowSize

theorem Adjusts.refl (g : Phase) (sc : ServerConn W) : Adjusts env sc₀ e g sc sc :=
  ⟨.refl, rfl, id⟩

theorem Adjusts.trans {sc'' : ServerConn W} (h : Adjusts env sc₀ e g sc sc')
    (h' : Adjusts env sc₀ e g sc' sc'') : Adjusts env sc₀ e g sc sc'' :=
  ⟨h.steps.trans h'.steps, h'.streams.trans h.streams, fun hw => h'.window (h.window hw)⟩

theorem addFlow_steps (hid : id ≠ 0 → id ∈ sc.streams) (hadd : sc.addFlow id n n.toInt = some sc') :
    Adjusts env sc₀ e g sc sc' := by
  unfold addFlow at hadd
  split at hadd
  · split at hadd
    · rename_i hok
      cases hadd
      exact ⟨.single (.creditConn g sc n hok), rfl, fun hw => hw⟩
    · cases hadd
  · rename_i hne
    split at hadd
    · rename_i hok
      cases hadd
      exact ⟨.single (.creditStream g sc id n hne (hid hne) hok), rfl, fun hw => hw⟩
    · cases hadd

theorem processWindowUpdate_steps (hfree : g.Free .outside) (h : FrameHeader)
    (increment : UInt32) : Processes env sc₀ e g sc (processWindowUpdate env sc h increment) := by
  unfold processWindowUpdate
  split
  · exact .ok rfl
  split
  · exact .ok rfl
  rename_i hknown
  split
  · rename_i sc' hadd
    have hid : h.streamID ≠ 0 → h.streamID ∈ sc.streams :=
      fun hne => not_not.mp fun hmem => hknown ⟨hne, hmem⟩
    have hadjusts : Adjusts env sc₀ e g sc sc' := addFlow_steps hid hadd
    exact succeeds_steps ((outside_steps hfree).before hadjusts.steps)
  · split <;> exact .ok rfl

theorem growWindows_steps {ids : List UInt32} (hids : ∀ id ∈ ids, id ∈ sc.streams) :
    Adjusts env sc₀ e g sc (growWindows n n.toInt sc ids).2 := by
  induction ids generalizing sc with
  | nil => exact .refl g sc
  | cons id ids ih =>
    unfold growWindows
    split
    · exact .refl g sc
    · rename_i sc' hadd
      have hfirst : Adjusts env sc₀ e g sc sc' :=
        addFlow_steps (fun _ => hids id List.mem_cons_self) hadd
      refine hfirst.trans (ih fun id hid => ?_)
      rw [hfirst.streams]
      exact hids id (List.mem_cons_of_mem _ hid)

/-- The difference of two window sizes does not overflow. -/
theorem toInt_window_sub (hval : ¬ val > 0x7fffffff) {old : Int32} (hold : 0 ≤ old) :
    (val.toInt32 - old).toInt = val.toNat - old.toInt ∧ 0 ≤ val.toInt32 := by
  have hlt : val.toNat < 2 ^ 31 := by
    have hle := UInt32.le_iff_toNat_le.mp (UInt32.not_lt.mp hval)
    exact Nat.lt_succ_of_le hle
  have htoInt := Flow.toInt_toInt32 hlt
  have hold' : 0 ≤ old.toInt := Int32.le_iff_toInt_le.mp hold
  have hmax := old.toInt_lt
  constructor
  · rw [Flow.toInt_sub (by omega), htoInt]
  · refine Int32.le_iff_toInt_le.mpr ?_
    rw [htoInt]
    exact Int.natCast_nonneg _

theorem processSettingInitialWindowSize_steps (hval : ¬ val > 0x7fffffff)
    (hwindow : 0 ≤ sc.initialStreamSendWindowSize) :
    Adjusts env sc₀ e g sc (processSettingInitialWindowSize env sc val).2 := by
  obtain ⟨hsub, hnonneg⟩ := toInt_window_sub hval hwindow
  unfold processSettingInitialWindowSize
  rw [← hsub]
  have hresize : Adjusts env sc₀ e g sc { sc with
      initialStreamSendWindowSize := val.toInt32, ranges := sc.ranges + 1 } :=
    ⟨.single (.resize g sc val.toInt32 hnonneg (sc.ranges + 1)), rfl, fun _ => hnonneg⟩
  exact hresize.trans (growWindows_steps fun id hid =>
    (env.rangeStreams_perm sc.ranges sc.streams).mem_iff.mp hid)

theorem valid_initialWindowSize {s : Setting} (h : s.valid = .ok ())
    (hid : s.id = SettingID.initialWindowSize) : ¬ s.val > 0x7fffffff := by
  intro hgt
  unfold Setting.valid at h
  rw [hid, if_neg (by decide), if_pos rfl, if_pos hgt] at h
  cases h

theorem processSetting_steps (hwindow : 0 ≤ sc.initialStreamSendWindowSize) (s : Setting) :
    Adjusts env sc₀ e g sc (processSetting env sc s).2 := by
  have hflags : ∀ sc' : ServerConn W, Step env sc₀ e (g, sc) (g, sc') → sc'.streams = sc.streams →
      sc'.initialStreamSendWindowSize = sc.initialStreamSendWindowSize →
      Adjusts env sc₀ e g sc sc' :=
    fun sc' hstep hstreams hsame => ⟨.single hstep, hstreams, fun hw => hsame ▸ hw⟩
  unfold processSetting
  split
  · exact .refl g sc
  · exact .refl g sc
  rename_i hvalid
  split
  · exact hflags _ (flags_step g sc _ rfl) rfl rfl
  split
  · exact hflags _ (flags_step g sc _ rfl) rfl rfl
  split
  · rename_i hid
    exact processSettingInitialWindowSize_steps (valid_initialWindowSize hvalid hid) hwindow
  split
  · exact hflags _ (.frameSize g sc s.val.toInt32) rfl rfl
  · exact .refl g sc

theorem processSettingList_steps (hwindow : 0 ≤ sc.initialStreamSendWindowSize)
    (settings : List Setting) : Adjusts env sc₀ e g sc (processSettingList env sc settings).2 := by
  induction settings generalizing sc with
  | nil => exact .refl g sc
  | cons s settings ih =>
    have hfirst : Adjusts env sc₀ e g sc (processSetting env sc s).2 :=
      processSetting_steps hwindow s
    unfold processSettingList
    split
    · rename_i hset
      rw [hset] at hfirst
      exact hfirst
    · rename_i hset
      rw [hset] at hfirst
      exact hfirst.trans (ih (hfirst.window hwindow))

theorem processSettings_steps (hfree : g.Free .outside)
    (hwindow : 0 ≤ sc.initialStreamSendWindowSize) (h : FrameHeader) (p : Bytes) :
    Processes env sc₀ e g sc (processSettings env sc h p) := by
  unfold processSettings
  split
  · exact processes_of_step (flags_step g sc _ rfl)
  split
  · exact .ok rfl
  have hlist : Adjusts env sc₀ e g sc (processSettingList env sc (settingsOf p)).2 :=
    processSettingList_steps hwindow _
  split
  · rename_i hset
    rw [hset] at hlist
    exact hlist.steps
  · rename_i sc' hset
    rw [hset] at hlist
    refine .before hlist.steps (succeeds_steps ?_)
    exact (outside_steps hfree).step
      (flags_step g sc' { sc' with needToSendSettingsAck := true } rfl)

/-! ## The body of a request -/

theorem endStream_steps (hmem : id ∈ sc.streams ∨ g.receiving = some id) :
    Keeps env sc₀ e g sc (sc.endStream id) := by
  unfold endStream
  split
  · rename_i hbody
    exact .error (.noBody g sc id hbody hmem)
  rename_i p hbody
  refine ReflTransGen.single (.endRemote g sc id _ p _ hbody ?_ hmem ⟨rfl, rfl, rfl⟩)
  split
  · exact kept_closeWithErrorAndCode p _ none
  · have hfirst := kept_closeWithErrorAndCode p .eof (some ())
    have hsecond := kept_closeWithErrorAndCode (p.closeWithErrorAndCode .eof (some ())) .eof none
    exact ⟨hsecond.1.trans hfirst.1, hsecond.2.1.trans hfirst.2.1, hsecond.2.2.trans hfirst.2.2⟩

theorem refuseData_steps (hfree : g.Free .outside) (h : FrameHeader) :
    Processes env sc₀ e g sc (refuseData env sc h) := by
  unfold refuseData
  simp only
  split
  · exact .ok rfl
  rename_i hlt
  have hle : h.length.toInt32 ≤ sc.inflow := Int32.not_lt.mp hlt
  refine .step (.takeConn g sc h hle) ?_
  exact (sendWindowUpdate_steps outside_steps hfree _ fun _ hw => (by cases hw)).bind
    fun _ _ => .ok rfl

theorem refundPadding_steps (hfree : g.Free .outside) (h : FrameHeader) (data : Bytes)
    (hid : h.streamID ∈ sc.history.created) :
    Keeps env sc₀ e g sc (refundPadding env sc h data) := by
  unfold refundPadding
  simp only
  split
  · rename_i hpos
    have hnonneg : 0 ≤ h.length.toInt32 - Int32.ofNat data.length := Int32.le_of_lt hpos
    refine (sendWindowUpdate32_steps outside_steps hfree (fun _ hw => by cases hw) hnonneg).bind
      fun sc' hsteps => sendWindowUpdate32_steps outside_steps hfree (fun id hw => ?_) hnonneg
    cases hw
    exact created_mono hsteps hid
  · exact .ok rfl

section

variable (hfree : g.Free .outside) (h : FrameHeader) {p : Pipe BodyError Unit}
  (hbody : (sc.stream h.streamID).body = some p) (data : Bytes)

include hfree hbody

theorem writeBody_steps : Processes env sc₀ e g sc (writeBody env sc h p data) := by
  unfold writeBody
  rw [← ite_not]
  split
  · exact .ok rfl
  split
  · exact (sendWindowUpdate_steps outside_steps hfree _ fun _ hw => (by cases hw)).bind
      fun _ _ => .ok rfl
  · rename_i p' hwrite
    exact processes_of_step
      (.writeBody g sc h.streamID _ p p' data hbody hwrite ⟨rfl, rfl, rfl⟩)

theorem storeData_steps (hid : h.streamID ∈ sc.history.created) :
    Processes env sc₀ e g sc (storeData env sc h p data) := by
  refine (writeBody_steps hfree h hbody data).bind fun r hsteps => ?_
  obtain ⟨err, sc'⟩ := r
  show Processes env sc₀ e g sc' (ite _ _ _)
  split
  · exact .ok rfl
  · exact succeeds_steps (refundPadding_steps hfree h data (created_mono hsteps hid))

theorem takeData_steps (hid : h.streamID ∈ sc.history.created) :
    Processes env sc₀ e g sc (takeData env sc h p data) := by
  unfold takeData
  simp only
  split
  · exact .ok rfl
  split
  · exact .ok rfl
  rename_i hlt
  rw [Flow.take_eq (Int32.not_lt.mp hlt)]
  refine .step (.takeBoth g sc h (Int32.not_lt.mp hlt)) (storeData_steps hfree h ?_ data hid)
  show (Function.update sc.stream h.streamID _ h.streamID).body = some p
  rw [Function.update_self]
  exact hbody

end

theorem acceptData_steps (hfree : g.Free .outside) (h : FrameHeader) (data : Bytes)
    (hmem : h.streamID ∈ sc.streams) (hstate : (sc.stream h.streamID).state = .stateOpen)
    (hreset : (sc.stream h.streamID).resetQueued = false)
    (hid : h.streamID ∈ sc.history.created) (hreceiving : g.receiving = some h.streamID) :
    Processes env sc₀ e g sc (acceptData env sc h data) := by
  unfold acceptData
  simp only
  split
  · rename_i hbody
    exact .error (.noPipe g sc h.streamID hmem hstate hreset hbody)
  rename_i p hbody
  split
  · exact processes_of_step (.endBody g sc h.streamID _ p _ hbody
      (kept_closeWithErrorAndCode p _ none) ⟨rfl, rfl, rfl⟩)
  refine (takeData_steps hfree h hbody data hid).bind fun r _ => ?_
  obtain ⟨err, sc'⟩ := r
  split
  · exact .ok rfl
  split
  · exact succeeds_steps (endStream_steps (.inr hreceiving))
  · exact .ok rfl

theorem processData_steps (hfree : g.Free .outside) (hready : sc.Ready)
    (hreceiving : g.receiving = none) (h : FrameHeader) (data : Bytes) :
    Processes env sc₀ e g sc (processData env sc h data) := by
  unfold processData
  split
  · exact .ok rfl
  split
  · exact .ok rfl
  split
  · exact (refuseData_steps hfree h).step (.receive g sc h)
  rename_i hrefuse
  obtain ⟨hmem, hstate, -, hreset⟩ : h.streamID ∈ sc.streams ∧ sc.state h.streamID = .stateOpen ∧
      (sc.stream h.streamID).gotTrailerHeader = false ∧
      (sc.stream h.streamID).resetQueued = false := by
    simpa [not_or] using hrefuse
  have hopen : (sc.stream h.streamID).state = .stateOpen := by
    rw [← hstate]
    exact (if_pos hmem).symm
  refine .step (.receive g sc h) (.step (.accept g _ h.streamID hmem) ?_)
  have hfree' : ({ g with receiving := some h.streamID } : Phase).Free .outside := hfree
  have haccept : Processes env sc₀ e _ (sc.noteReceived h) _ :=
    acceptData_steps hfree' h data hmem hopen hreset (hready.made _ hmem) rfl
  refine haccept.after fun r => ?_
  have haccepted : Step env sc₀ e ({ g with receiving := some h.streamID }, r.2)
      ({ g with receiving := none }, r.2) := .accepted _ r.2
  have hback : ({ g with receiving := none } : Phase) = g := by
    cases g
    cases hreceiving
    rfl
  rw [hback] at haccepted
  exact haccepted

/-! ## The other frames of a stream -/

theorem processResetStream_steps (hidle : g.writing = none) (hquiet : g.Quiet)
    (houter : g.closing .outside = none) (hreceiving : g.receiving = none) {h : FrameHeader}
    {code : ErrCode}
    (he : e = .readFrame (.ok (.rstStream h code))) :
    Processes env sc₀ e g sc₀ (processResetStream env sc₀ h code) := by
  unfold processResetStream
  split
  · exact .ok rfl
  split
  · rename_i hmem
    refine succeeds_steps (.step (.touch g sc₀ h.streamID (fun st => { st with cancelled := true })
      ⟨rfl, rfl, rfl⟩) ?_)
    generalize hsc : sc₀.update h.streamID (fun st => { st with cancelled := true }) = sc
    have hmem' : h.streamID ∈ sc.streams := hsc ▸ hmem
    have hsched : sc.writeSched = sc₀.writeSched := hsc ▸ rfl
    have hcloses : Closes g sc h.streamID := .received hmem' hidle hreceiving
    have hclose : Writes env sc₀ e g sc (sc.closeStream env (scheduleFrameWrite env) h.streamID
        (.streamError h.streamID code)) :=
      closeStream_steps outside_steps hcloses houter
        (fun _ => ⟨hquiet, .reset h code he rfl hsched⟩) _
    unfold Writes at hclose
    rw [Phase.idle_of_writing hidle] at hclose
    exact hclose
  · exact .ok rfl

theorem keepTrailers_steps (id : UInt32) (fields : List HeaderField) :
    ReflTransGen (Step env sc₀ e) (g, sc) (g, (keepTrailers env sc id fields).2) ∧
      (keepTrailers env sc id fields).2.streams = sc.streams := by
  unfold keepTrailers
  split
  · exact ⟨.refl, rfl⟩
  · simp only
    exact ⟨.single (.touch g sc id _ ⟨rfl, rfl, rfl⟩), rfl⟩

theorem processTrailerHeaders_steps (h : FrameHeader) (fields : List HeaderField)
    (hmem : h.streamID ∈ sc.streams) :
    Processes env sc₀ e g sc (processTrailerHeaders env sc h fields) := by
  unfold processTrailerHeaders
  split
  · exact .ok rfl
  simp only
  refine .step (.touch g sc h.streamID (fun st => { st with gotTrailerHeader := true })
    ⟨rfl, rfl, rfl⟩) ?_
  generalize hsc : sc.update h.streamID (fun st => { st with gotTrailerHeader := true }) = sc₁
  have hmem₁ : h.streamID ∈ sc₁.streams := hsc ▸ hmem
  split
  · exact .ok rfl
  obtain ⟨hkeep, hstreams⟩ : ReflTransGen (Step env sc₀ e) (g, sc₁)
      (g, (keepTrailers env sc₁ h.streamID fields).2) ∧
      (keepTrailers env sc₁ h.streamID fields).2.streams = sc₁.streams :=
    keepTrailers_steps h.streamID fields
  split
  · refine succeeds_steps (.before hkeep (endStream_steps (.inl ?_)))
    rw [hstreams]
    exact hmem₁
  · exact hkeep

theorem call_adjust_steps (id : UInt32) (priority : PriorityParam) :
    Keeps env sc₀ e g sc (sc.call (.adjustStream id priority)) := by
  show Stepwise _ _ _ _ (W.adjustStream sc.writeSched id priority >>= _)
  cases hcall : W.adjustStream sc.writeSched id priority with
  | error err => exact .error (.adjustStream g sc id priority err hcall)
  | ok ws => exact ReflTransGen.single (.adjustStream g sc id priority ws hcall)

section

variable (h : FrameHeader) (priority : PriorityParam)

theorem adjustNew_steps : Keeps env sc₀ e g sc (sc.adjustNew h priority) := by
  unfold adjustNew
  split
  · exact call_adjust_steps h.streamID priority
  · exact .ok rfl

theorem processPriority_steps : Processes env sc₀ e g sc (sc.processPriority h priority) := by
  unfold processPriority
  split
  · exact .ok rfl
  split
  · exact .ok rfl
  · exact succeeds_steps (call_adjust_steps h.streamID priority)

end

/-- The end of a phase in which a stream is opened. -/
theorem opened_none (hopened : g.opened = none) : ({ g with opened := none } : Phase) = g := by
  cases g
  cases hopened
  rfl

section

variable (hidle : g.writing = none) (hopened : g.opened = none) {h : FrameHeader}
  {priority : PriorityParam} {fields : List HeaderField} {truncated : Bool}
  (he : e = .readFrame (.ok (.metaHeaders h priority fields truncated)))

include hidle hopened he

theorem openRequest_steps (hgoAway : sc₀.inGoAway = false) (hodd : h.streamID % 2 = 1)
    (hnew : h.streamID ∉ sc₀.streams) (hmax : ¬ h.streamID ≤ sc₀.maxClientStreamID) :
    Processes env sc₀ e g sc₀ (openRequest env { sc₀ with maxClientStreamID := h.streamID } h
      priority fields truncated) := by
  unfold openRequest
  split
  · exact processes_of_step (.refuse g sc₀ h.streamID hgoAway hmax)
  rename_i hroom
  have hne : h.streamID ≠ 0 := by
    intro hzero
    rw [hzero] at hodd
    exact absurd hodd (by decide)
  unfold newStream
  rw [if_neg hne]
  have hstate : (if h.streamEnded then StreamState.stateHalfClosedRemote else .stateOpen) =
      .stateHalfClosedRemote ∨
      (if h.streamEnded then StreamState.stateHalfClosedRemote else .stateOpen) = .stateOpen :=
    ite_eq_or_eq ..
  refine .step (.request g h priority fields truncated _ he hgoAway hodd hnew hmax hroom hidle
    hstate) ?_
  generalize addStream env _ h.streamID _ = sc₁
  show Stepwise _ _ _ _ ((W.openStream sc₁.writeSched h.streamID 0 >>= _) >>= _)
  cases hcall : W.openStream sc₁.writeSched h.streamID 0 with
  | error err => exact .error (.openStream _ sc₁ _ 0 err hne hcall)
  | ok ws =>
    refine .step (.openStream _ sc₁ h.streamID 0 ws rfl hne hcall) ?_
    show Stepwise _ _ _ _ (ite _ _ _)
    generalize sc₁.called (.openStream h.streamID 0) ws = sc₂
    have habandon : ∀ (err : Option FrameError) (sc : ServerConn W),
        Stepwise (Step env sc₀ e) (Fails sc₀ e) ({ g with opened := some h.streamID }, sc)
          (fun r => (g, r.2)) (.ok (err, sc) : Processed W) := by
      intro err sc
      have hstep : Step env sc₀ e ({ g with opened := some h.streamID }, sc)
          ({ g with opened := none }, sc) := .abandon _ sc h.streamID rfl hidle
      rw [opened_none hopened] at hstep
      exact .single hstep
    split
    · exact habandon _ sc₂
    refine (adjustNew_steps h priority).bind fun sc₃ _ => ?_
    split
    · exact habandon _ sc₃
    · rename_i req _
      have hstep : Step env sc₀ e ({ g with opened := some h.streamID }, sc₃)
          ({ g with opened := none }, sc₃.startRequest h.streamID req truncated) :=
        .runRequest _ sc₃ h.streamID req truncated rfl hidle
      rw [opened_none hopened] at hstep
      exact .single hstep

theorem processHeaders_steps :
    Processes env sc₀ e g sc₀ (processHeaders env sc₀ h priority fields truncated) := by
  unfold processHeaders
  split
  · exact .ok rfl
  rename_i hgoAway
  split
  · exact .ok rfl
  rename_i hodd
  split
  · rename_i hmem
    split
    · exact .ok rfl
    split
    · exact .ok rfl
    · exact processTrailerHeaders_steps h fields hmem
  rename_i hnew
  split
  · exact .ok rfl
  · rename_i hmax
    exact openRequest_steps hidle hopened he (Bool.eq_false_iff.mpr hgoAway) (not_not.mp hodd) hnew
      hmax

end

/-! ## All frames -/

theorem processPing_steps (hfree : g.Free .outside) (h : FrameHeader) (data : Vector UInt8 8) :
    Processes env sc₀ e g sc (processPing env sc h data) := by
  unfold processPing
  split
  · exact .ok rfl
  split
  · exact .ok rfl
  split
  · exact .ok rfl
  · exact succeeds_steps (writeFrame_steps outside_steps hfree (.ping _))

theorem processGoAway_steps (hfree : g.Free .outside) :
    Processes env sc₀ e g sc (processGoAway env sc) := by
  exact (goAway_steps outside_steps hfree .no).bind
    fun sc' _ => processes_of_step (flags_step g sc' _ rfl)

/-- No frame is being written and no stream is being closed at the beginning of an event. -/
theorem free_empty : ({} : Phase).Free .outside := fun _ => ⟨rfl, rfl, rfl⟩

theorem dispatch_steps (hready : sc₀.Ready) (he : e = .readFrame (.ok f)) :
    Processes env sc₀ e {} sc₀ (dispatch env sc₀ f) := by
  cases f with
  | settings h p => exact processSettings_steps free_empty hready.window h p
  | metaHeaders h priority fields truncated => exact processHeaders_steps rfl rfl he
  | windowUpdate h increment => exact processWindowUpdate_steps free_empty h increment
  | ping h data => exact processPing_steps free_empty h data
  | data h data => exact processData_steps free_empty hready rfl h data
  | rstStream h code => exact processResetStream_steps rfl ⟨rfl, rfl⟩ rfl rfl he
  | priority h priority => exact processPriority_steps h priority
  | goAway => exact processGoAway_steps free_empty
  | headers => exact .ok rfl
  | pushPromise => exact .ok rfl
  | continuation => exact .ok rfl
  | unknown => exact .ok rfl
  | metaPushPromise => exact .ok rfl

theorem processFrame_steps (hready : sc₀.Ready) (he : e = .readFrame (.ok f)) :
    Processes env sc₀ e {} sc₀ (processFrame env sc₀ f) := by
  unfold processFrame
  split
  · rename_i h p
    refine .step (flags_step {} sc₀ { sc₀ with sawFirstSettings := true } rfl) ?_
    have hwindow : 0 ≤ ({ sc₀ with sawFirstSettings := true } :
        ServerConn W).initialStreamSendWindowSize := hready.window
    exact processSettings_steps free_empty hwindow h p
  · split
    · exact dispatch_steps hready he
    · exact .ok rfl

theorem handleError_steps (hfree : g.Free .outside) (err : FrameError) :
    Keeps env sc₀ e g sc (handleError env sc err) := by
  cases err with
  | streamError id code => exact resetStream_steps outside_steps hfree id code
  | connectionError code => exact goAway_steps outside_steps hfree code
  | goAwayFlowError => exact goAway_steps outside_steps hfree .flowControl

/-- A case of the `select` makes small steps. -/
abbrev Serves (env : ServerEnv) (sc₀ : ServerConn W) (e : ServerEvent) (g : Phase)
    (sc : ServerConn W) (x : Except Fault (Bool × ServerConn W)) : Prop :=
  Stepwise (Step env sc₀ e) (Fails sc₀ e) (g, sc) (fun r => (g, r.2)) x

theorem goesOn_steps (h : Keeps env sc₀ e g sc x) : Serves env sc₀ e g sc (goesOn x) :=
  h.map fun _ => rfl

theorem processFrameFromReader_steps (hready : sc₀.Ready) {r : Except Error Frame}
    (he : e = .readFrame r) : Serves env sc₀ e {} sc₀ (processFrameFromReader env sc₀ r) := by
  unfold processFrameFromReader
  split
  · refine (processFrame_steps hready he).bind fun r _ => ?_
    obtain ⟨err, sc⟩ := r
    cases err with
    | none => exact .ok rfl
    | some err => exact goesOn_steps (handleError_steps free_empty err)
  · exact goesOn_steps (goAway_steps outside_steps free_empty _)
  · exact goesOn_steps (resetStream_steps outside_steps free_empty _ _)
  · exact goesOn_steps (goAway_steps outside_steps free_empty _)
  · exact .ok rfl

/-! ## Events -/

theorem noteBodyRead_steps (hfree : g.Free .outside) (hid : id ∈ sc.history.created) (n : Nat) :
    Keeps env sc₀ e g sc (noteBodyRead env sc id n) := by
  refine (sendWindowUpdate_steps outside_steps hfree n fun _ hw => (by cases hw)).bind
    fun sc' hsteps => ?_
  split
  · refine sendWindowUpdate_steps outside_steps hfree n fun id hw => ?_
    cases hw
    exact created_mono hsteps hid
  · exact .ok rfl

theorem startPush_steps {parent : UInt32} {value : Nat} (he : e = .startPush parent value)
    (hid : parent ∈ sc₀.history.created) :
    Keeps env sc₀ e {} sc₀ (startPush env sc₀ parent value) := by
  unfold startPush
  split
  · exact .ok rfl
  split
  · exact .ok rfl
  · exact writeFrame_steps outside_steps free_empty (.push parent value he hid)

theorem wroteFrame_steps (he : e = .wroteFrame) (hflight : sc₀.inFlight = some wr) :
    Keeps env sc₀ e {} sc₀ (wroteFrame env (scheduleFrameWrite env) sc₀ wr) := by
  unfold wroteFrame
  split
  · rename_i hnot
    exact .error (.notWriting {} wr hflight (by simpa using hnot))
  rename_i hwriting
  refine .step (.wrote {} wr he hflight (by simpa using hwriting) rfl) ?_
  have hout : ∀ id, Outer sc₀ e { writing := some wr }
      { sc₀ with writingFrame := false, writingFrameAsync := false, inFlight := none } id :=
    fun id => .wrote he hflight.symm rfl
  refine (frameDone_steps outside_steps rfl rfl rfl fun _ => ⟨⟨rfl, rfl⟩, hout⟩).bind
    fun sc' _ => ?_
  exact outside_steps free_empty

theorem serveCase_steps (hready : sc₀.Ready) (hpossible : sc₀.possible e = true) :
    Serves env sc₀ e {} sc₀ (serveCase env sc₀ e) := by
  cases e with
  | wantWriteFrame id f =>
    exact goesOn_steps (writeFrame_steps outside_steps free_empty
      (.handler id f rfl (of_decide_eq_true hpossible)))
  | writeTimeout id => exact goesOn_steps (resetStream_steps outside_steps free_empty id .internal)
  | wroteFrame =>
    simp only [serveCase]
    split
    · rename_i hflight
      exact goesOn_steps (wroteFrame_steps rfl hflight)
    · exact .ok rfl
  | readFrame r => exact processFrameFromReader_steps hready rfl
  | bodyRead i =>
    simp only [serveCase]
    split
    · rename_i id n hread
      refine goesOn_steps (.step (.heard {} i rfl) (noteBodyRead_steps free_empty ?_ n))
      exact hready.reads (id, n) (List.mem_of_getElem? hread)
    · exact .ok rfl
  | settingsTimer => exact .ok rfl
  | idleTimer => exact goesOn_steps (goAway_steps outside_steps free_empty .no)
  | shutdownTimer => exact .ok rfl
  | gracefulShutdown => exact goesOn_steps (goAway_steps outside_steps free_empty .no)
  | startPush parent value =>
    have hid := (Bool.and_eq_true_iff.mp hpossible).1
    exact goesOn_steps (startPush_steps rfl (of_decide_eq_true hid))
  | handlerRead => exact .ok rfl
  | handlerClose => exact .ok rfl
  | handlerReturn => exact .ok rfl

/-- The end of the serve loop is for good. -/
theorem serving_mono {x : Phase × ServerConn W} (h : ReflTransGen (Step env sc₀ e) x y)
    (hserving : x.2.serving = false) : y.2.serving = false := by
  induction h with
  | refl => exact hserving
  | tail _ hstep ih =>
    cases hstep with
    | stop => rfl
    | _ => exact ih

theorem closeAllStreams_steps (hserving : sc.serving = false) (ids : List UInt32) :
    Keeps env sc₀ e {} sc (closeAllStreams env sc ids) := by
  induction ids generalizing sc with
  | nil => exact .ok rfl
  | cons id ids ih =>
    unfold closeAllStreams
    split
    · rename_i hmem
      have hcloses : Closes {} sc id := .received hmem rfl rfl
      have hclose : Keeps env sc₀ e {} sc
          (sc.closeStream env (scheduleFrameWrite env) id .errClientDisconnected) :=
        closeStream_steps outside_steps hcloses rfl (fun _ => ⟨⟨rfl, rfl⟩, .stopping hserving⟩) _
      exact hclose.bind fun sc' hsteps => ih (serving_mono hsteps hserving)
    · exact ih hserving

theorem stopServing_steps : Keeps env sc₀ e {} sc (stopServing env sc) := by
  refine .step (.stop {} sc) ?_
  refine .step (flags_step {} _ { sc with serving := false, ranges := sc.ranges + 1 } rfl) ?_
  exact closeAllStreams_steps rfl _

theorem servePass_steps (hready : sc₀.Ready) (hpossible : sc₀.possible e = true) :
    Keeps env sc₀ e {} sc₀ (servePass env sc₀ e) := by
  refine (serveCase_steps hready hpossible).bind fun r _ => ?_
  obtain ⟨goesOn, sc⟩ := r
  show Keeps env sc₀ e {} sc (ite _ _ _)
  split
  · exact stopServing_steps
  · unfold startShutdownTimer
    simp only
    split
    · exact ReflTransGen.single (flags_step {} sc { sc with shutdownTimer := true } rfl)
    · exact .ok rfl

theorem handlerRead_steps {n : Nat} (he : e = .handlerRead id n) (hid : id ∈ sc₀.history.created) :
    ReflTransGen (Step env sc₀ e) ({}, sc₀) ({}, sc₀.handlerRead id n) := by
  unfold handlerRead
  split
  · exact .refl
  · rename_i p hbody
    split
    · exact .refl
    · rename_i r p' hread
      exact .single (.read {} id n p p' r he hid hbody hread)

/-- An event makes small steps. -/
theorem step_steps (hready : sc₀.Ready) (e : ServerEvent) :
    Keeps env sc₀ e {} sc₀ (step env sc₀ e) := by
  unfold step
  split
  · split
    · rename_i hid
      exact handlerRead_steps rfl hid
    · exact .refl
  · rename_i id
    split
    · exact .single (.breaks {} id rfl)
    · exact .refl
  · rename_i id
    split
    · rename_i hmem
      exact .single (.returns {} id rfl hmem)
    · exact .refl
  · split
    · rename_i hpossible
      exact servePass_steps hready (Bool.and_eq_true_iff.mp hpossible).2
    · exact .ok rfl

/-! ## Runs -/

/-- The beginning of `serve` makes small steps. -/
theorem start_steps : Keeps env sc₀ e {} (newConn W) (start env W) := by
  refine (writeFrame_steps outside_steps free_empty .settings).bind fun sc _ => ?_
  refine .step (flags_step {} sc { sc with unackedSettings := sc.unackedSettings + 1 } rfl) ?_
  simp only
  split
  · exact sendWindowUpdate_steps outside_steps free_empty _ nofun
  · exact .ok rfl

theorem ready_newConn : (newConn W).Ready where
  window := by
    show (0 : Int32) ≤ ServerEnv.initialWindowSize
    decide
  reads := nofun
  made := nofun
  nonzero := nofun

theorem Step.ready {x : Phase × ServerConn W} (h : Step env sc₀ e x y) (hx : x.2.Ready) :
    y.2.Ready := by
  have hadd : ∀ {sc : ServerConn W} {id : UInt32} {state : StreamState}, sc.Ready → id ≠ 0 →
      (addStream env sc id state).Ready := by
    intro sc id state hsc hne
    refine ⟨hsc.window, fun r hr => List.mem_append_left _ (hsc.reads r hr), ?_, ?_⟩
    · intro id' hid'
      rcases List.mem_cons.mp hid' with rfl | hmem
      · exact List.mem_append_right _ List.mem_cons_self
      · exact List.mem_append_left _ (hsc.made id' hmem)
    · intro hzero
      rcases List.mem_append.mp hzero with hmem | hmem
      · exact hsc.nonzero hmem
      · exact hne (List.mem_singleton.mp hmem).symm
  cases h with
  | promise g sc wr hw hkind hmax hid hne =>
    exact hadd ⟨hx.window, hx.reads, hx.made, hx.nonzero⟩ hne
  | request g h priority fields truncated state he hgoAway hodd =>
    refine hadd ⟨hx.window, hx.reads, hx.made, hx.nonzero⟩ fun hzero => ?_
    rw [hzero] at hodd
    exact absurd hodd (by decide)
  | forget g sc mode id =>
    exact ⟨hx.window, hx.reads, fun id' hid' => hx.made id' (List.mem_of_mem_erase hid'),
      hx.nonzero⟩
  | resize g sc v hv => exact ⟨hv, hx.reads, hx.made, hx.nonzero⟩
  | heard g i =>
    exact ⟨hx.window, fun r hr => hx.reads r (List.mem_of_mem_eraseIdx hr), hx.made, hx.nonzero⟩
  | read g id n p p' r he hid =>
    refine ⟨hx.window, fun r' hr' => ?_, hx.made, hx.nonzero⟩
    unfold readBody at hr'
    simp only at hr'
    split at hr'
    · exact hx.reads r' hr'
    · rcases List.mem_append.mp hr' with hmem | hmem
      · exact hx.reads r' hmem
      · rw [List.mem_singleton.mp hmem]
        exact hid
  | _ => exact ⟨hx.window, hx.reads, hx.made, hx.nonzero⟩

/-- What holds of a new connection, and is kept by the small steps of an event that begins with
it, holds in every run, also in the middle of an event. -/
theorem run_of_steps (hnew : I ({}, newConn W))
    (hkeeps : ∀ sc₀ e x y, I ({}, sc₀) → I x → x.2.Ready → Step env sc₀ e x y → I y)
    (events : List ServerEvent) :
    Outcome (fun err => ∃ sc₀ e x, I ({}, sc₀) ∧ I x ∧ x.2.Ready ∧ Fails sc₀ e x err)
      (fun sc => I ({}, sc) ∧ sc.Ready) (run env W events) := by
  have hevent (sc₀ : ServerConn W) (e) (hsc₀ : I ({}, sc₀) ∧ sc₀.Ready) (r)
      (hr : Keeps env sc₀ e {} sc₀ r) :
      Outcome (fun err => ∃ sc₀ e x, I ({}, sc₀) ∧ I x ∧ x.2.Ready ∧ Fails sc₀ e x err)
        (fun sc => I ({}, sc) ∧ sc.Ready) r := by
    have hsteps := hr.outcome (I := fun x => I x ∧ x.2.Ready) hsc₀ fun x y hx hstep =>
      ⟨hkeeps sc₀ e x y hsc₀.1 hx.1 hx.2 hstep, hstep.ready hx.2⟩
    refine hsteps.weaken fun err ⟨x, hx, hfails⟩ => ?_
    exact ⟨sc₀, e, x, hsc₀.1, hx.1, hx.2, hfails⟩
  refine (hevent (newConn W) .settingsTimer ⟨hnew, ready_newConn⟩ _ start_steps).bind
    fun sc hsc => ?_
  exact Lib.Run.outcome_of_forall (fun sc e hsc => hevent sc e hsc _ (step_steps hsc.2 e)) hsc
    events

end Fhttp.Http2.ServerConn
