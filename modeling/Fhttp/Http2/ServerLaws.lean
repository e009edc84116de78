import Fhttp.Http2.ServerQueue

/-!
# Stream ids and send windows of a server

What every run of a server keeps, whatever the peer sends, the handlers do and the scheduler
chooses: the ids of the streams of a side grow, no stream of the client begins after GOAWAY, and
no DATA is sent that the peer does not allow.
-/

namespace Fhttp.Http2

open Lib.Panic (Fault Outcome Yields)
open List

/-- The DATA of a frame that was popped was within all limits. -/
def PoppedFrame.Fits (p : PoppedFrame) : Prop :=
  p.wr.payload ≠ [] → (p.wr.payload.length : Int) ≤ p.streamWindow.toInt ∧
    p.wr.payload.length ≤ p.connWindow.toInt ∧ p.wr.payload.length ≤ p.maxFrameSize.toInt

namespace ServerConn

variable {W : WriteScheduler} {env : ServerEnv} {sc₀ : ServerConn W} {e : ServerEvent}
  {x y : Phase × ServerConn W}

/-! ## Ids -/

/-- The last id of the kind of `id`. -/
def lastID (sc : ServerConn W) (id : UInt32) : UInt32 :=
  if id % 2 = 1 then sc.maxClientStreamID else sc.maxPushPromiseID

structure Numbered (sc : ServerConn W) : Prop where
  increasing : sc.history.created.Pairwise fun a b => a % 2 = b % 2 → a < b
  bound : ∀ id ∈ sc.history.created, id ≤ sc.lastID id
  even : sc.maxPushPromiseID % 2 = 0
  leaving : sc.needToSendGoAway = true → sc.inGoAway = true
  announced : ∀ id ∈ sc.history.announced, sc.inGoAway = true ∧ sc.maxClientStreamID = id

theorem Numbered.step (hx : x.2.Numbered) (h : Step env sc₀ e x y) : y.2.Numbered := by
  have hadd (id : UInt32) (hlt : x.2.lastID id < id) :
      (x.2.history.created ++ [id]).Pairwise fun a b => a % 2 = b % 2 → a < b := by
    refine pairwise_append.mpr ⟨hx.increasing, pairwise_singleton _ _, fun a ha b hb hkind => ?_⟩
    have hle := hx.bound a ha
    rw [mem_singleton.mp hb] at hkind ⊢
    rw [lastID, hkind] at hle
    exact UInt32.lt_of_le_of_lt hle hlt
  have hbound := hx.bound
  have heven := hx.even
  have hann := hx.announced
  cases h with
  | goAway =>
    exact ⟨hx.1, hx.2, hx.3, fun _ => rfl, fun a ha => ⟨rfl, (hann a ha).2⟩⟩
  | announce g sc hneed =>
    exact ⟨hx.1, hx.2, hx.3, nofun, fun a ha => ⟨hx.leaving hneed, Option.some.inj ha⟩⟩
  | promise =>
    refine ⟨hadd _ ?_, ?_, ?_, hx.leaving, hann⟩ <;> grind [lastID, addStream, ServerConn.promise]
  | request =>
    refine ⟨hadd _ ?_, ?_, heven, hx.leaving, ?_⟩ <;> grind [lastID, addStream]
  | refuse =>
    refine ⟨hx.increasing, ?_, heven, hx.leaving, ?_⟩ <;> grind [lastID]
  | runRequest =>
    rw [startRequest, runHandler, update, update]
    exact ⟨hx.1, hx.2, hx.3, hx.4, hx.5⟩
  | _ => exact ⟨hx.1, hx.2, hx.3, hx.4, hx.5⟩

/-- In every run the ids of the streams of a side grow, and after GOAWAY all streams of the client
are up to the announced one. -/
theorem ids_grow (env : ServerEnv) (W : WriteScheduler) (events : List ServerEvent) :
    Yields (fun sc => sc.history.created.Pairwise (fun a b => a % 2 = b % 2 → a < b) ∧
        ∀ last ∈ sc.history.announced, ∀ id ∈ sc.history.created, id % 2 = 1 → id ≤ last)
      (run env W events) := by
  have hrun : Outcome _ _ (run env W events) := run_of_steps (I := fun x => x.2.Numbered)
    ⟨.nil, nofun, rfl, nofun, nofun⟩ (fun _ _ _ _ _ hx _ h => hx.step h) events
  refine (hrun.weaken fun _ _ => trivial).imp fun sc hsc => ⟨hsc.1.increasing, ?_⟩
  intro last hlast id hid hodd
  have hle := hsc.1.bound id hid
  rwa [lastID, if_pos hodd, (hsc.1.announced last hlast).2] at hle

/-! ## Windows -/

variable {Ok : W.State → Prop}

theorem fits_step (hlaw : W.Lawful Ok) (hok : Ok x.2.writeSched)
    (hfits : ∀ p ∈ x.2.history.popped, p.Fits) (h : Step env sc₀ e x y) :
    ∀ p ∈ y.2.history.popped, p.Fits := by
  cases h with
  | pop g sc r hidle hinner hasync hpop =>
    intro p hp
    rcases mem_append.mp hp with hp | hp
    · exact hfits p hp
    obtain ⟨wr, hwr, rfl⟩ := mem_map.mp hp
    have hdrawn := ((hlaw.pop sc.flows hok).of_ok hpop).2.drawn
    rw [Option.mem_toList.mp hwr] at hdrawn
    exact fun hne => ⟨hdrawn.stream hne, hdrawn.conn hne, hdrawn.frameSize hne⟩
  | _ => exact hfits

theorem Fails.ne_tookTooMuch {err : Fault} (h : Fails sc₀ e x err) (hlaw : W.Lawful Ok)
    (hready : x.2.Ready) (hok : Ok x.2.writeSched) : err ≠ tookTooMuch := by
  cases h with
  | push g sc wr err horigin haccepts hpush =>
    exact (hlaw.push hok (horigin.addressed hready.nonzero)).of_error hpush
  | pop g sc err hpop => exact (hlaw.pop sc.flows hok).of_error hpop
  | openStream g sc id pusherID err hid hcall =>
    exact (hlaw.openStream id pusherID hok hid).of_error hcall
  | adjustStream g sc id priority err hcall =>
    exact (hlaw.adjustStream id priority hok).of_error hcall
  | purge g sc id err hcall => exact (hlaw.closeStream id hok).of_error hcall
  | closeStream g sc id hstate => rcases hstate with hs | hs <;> rw [hs] <;> decide
  | _ => decide

/-- In every run no window is taken too much of, and every DATA frame that was popped was within
the windows of its stream and of the connection and the frame size of the peer. -/
theorem popped_fits (k : Scheduling) (env : ServerEnv) (events : List ServerEvent) :
    Outcome (· ≠ tookTooMuch) (fun sc => ∀ p ∈ sc.history.popped, p.Fits)
      (run env k.scheduler events) := by
  obtain ⟨Ok, hlaw⟩ := k.lawful
  have hrun : Outcome _ _ (run env k.scheduler events) := run_of_steps
    (I := fun x => Counted Ok x.2 ∧ ∀ p ∈ x.2.history.popped, p.Fits) ⟨counted_newConn hlaw, nofun⟩
    (fun _ _ _ _ _ hx hready h => ⟨hx.1.step hlaw hready h, fits_step hlaw hx.1.1 hx.2 h⟩) events
  refine (hrun.weaken fun err ⟨_, _, x, _, hx, hready, hfails⟩ => ?_).imp fun sc hsc => hsc.1.2
  exact hfails.ne_tookTooMuch hlaw hready hx.1.1

end ServerConn

end Fhttp.Http2
