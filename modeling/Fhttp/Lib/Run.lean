import Fhttp.Lib.Panic

/-!
# Runs of a program

A run is a sequence of events, each of which is a step of a program that may panic.
`Always` says that every event of a run meets a condition in the state before it.
`outcome_of_rest` is the rule of invariants, which may speak of the events that are still to come;
`outcome_of_always` is the case of a condition: what such steps keep holds after every such run.

`trace` collects the answers of a run, and `trace_refines` is the rule of refinement: if every
step answers as a step of the abstract program does, and keeps the two states related, then
so does every run.
-/

namespace Fhttp.Lib.Run

open Panic (Fault Outcome Returns Ends ends_iff)

variable {σ α : Type}

/-- Every event meets the condition, in the state before it. -/
def Always (step : σ → α → Except Fault σ) (cond : σ → α → Prop) : σ → List α → Prop
  | _, [] => True
  | s, a :: as => cond s a ∧
      match step s a with
      | .ok s' => Always step cond s' as
      | .error _ => True

instance decidableAlways (step : σ → α → Except Fault σ) (cond : σ → α → Prop)
    [∀ s a, Decidable (cond s a)] : ∀ s as, Decidable (Always step cond s as)
  | _, [] => .isTrue trivial
  | s, a :: as =>
    @instDecidableAnd _ _ _ <|
      match step s a with
      | .ok s' => decidableAlways step cond s' as
      | .error _ => .isTrue trivial

variable {step : σ → α → Except Fault σ} {cond : σ → α → Prop} {I : σ → Prop} {F : Fault → Prop}
  {s : σ} {as : List α}

/-- A condition that always holds. -/
theorem always_of_forall (h : ∀ s a, cond s a) (s : σ) (as : List α) : Always step cond s as := by
  induction as generalizing s with
  | nil => trivial
  | cons a as ih =>
    refine ⟨h s a, ?_⟩
    cases step s a with
    | error e => trivial
    | ok s' => exact ih s'

theorem Always.rest {a : α} {s' : σ} (h : Always step cond s (a :: as))
    (hstep : step s a = .ok s') : Always step cond s' as := by
  have hrest := h.2
  rwa [hstep] at hrest

theorem Always.imp {cond' : σ → α → Prop} (himp : ∀ s a, cond s a → cond' s a)
    (h : Always step cond s as) : Always step cond' s as := by
  induction as generalizing s with
  | nil => trivial
  | cons a as ih =>
    refine ⟨himp s a h.1, ?_⟩
    cases hstep : step s a with
    | error e => trivial
    | ok s' => exact ih (h.rest hstep)

/-- An invariant of the state and of the events to come that every step keeps. -/
theorem outcome_of_rest {J : σ → List α → Prop}
    (hstep : ∀ s a as, J s (a :: as) → Outcome F (fun s' => J s' as) (step s a)) (h : J s as) :
    Outcome F (fun s' => J s' []) (as.foldlM step s) := by
  induction as generalizing s with
  | nil => exact h
  | cons a as ih =>
    rw [List.foldlM_cons]
    exact (hstep s a as h).bind fun s' hs' => ih hs'

/-- An invariant that the steps keep under a condition holds after a run of such steps. -/
theorem outcome_of_always (hstep : ∀ s a, I s → cond s a → Outcome F I (step s a)) (h : I s)
    (halways : Always step cond s as) : Outcome F I (as.foldlM step s) := by
  have hkeeps (s : σ) (a : α) (as : List α) (hs : I s ∧ Always step cond s (a :: as)) :
      Outcome F (fun s' => I s' ∧ Always step cond s' as) (step s a) := by
    have hs' := hstep s a hs.1 hs.2.1
    cases hres : step s a with
    | error e => exact hs'.of_error hres
    | ok s' => exact ⟨hs'.of_ok hres, hs.2.rest hres⟩
  have hrun := outcome_of_rest (J := fun s as => I s ∧ Always step cond s as) hkeeps ⟨h, halways⟩
  exact hrun.imp fun _ hs => hs.1

theorem ends_of_always (hstep : ∀ s a, I s → cond s a → Ends I (step s a)) (h : I s)
    (halways : Always step cond s as) : Ends I (as.foldlM step s) :=
  ends_iff.mpr (outcome_of_always (fun s a hs hc => ends_iff.mp (hstep s a hs hc)) h halways)

/-- An invariant that every step keeps. -/
theorem outcome_of_forall (hstep : ∀ s a, I s → Outcome F I (step s a)) (h : I s) (as : List α) :
    Outcome F I (as.foldlM step s) := by
  have halways : Always step (fun _ _ => True) s as := always_of_forall (fun _ _ => trivial) s as
  exact outcome_of_always (fun s a h _ => hstep s a h) h halways

variable {β τ : Type}

/-- What the events of a run leave behind, one after the other. -/
def log (step : σ → α → Except Fault σ) (f : σ → α → List β) : σ → List α → List β
  | _, [] => []
  | s, a :: as => f s a ++
      match step s a with
      | .ok s' => log step f s' as
      | .error _ => []

/-- An invariant that also speaks of what was left behind. -/
theorem outcome_of_log {f : σ → α → List β} {J : σ → List α → List β → Prop}
    (hstep : ∀ s a as l, J s (a :: as) l → Outcome F (fun s' => J s' as (l ++ f s a)) (step s a))
    {l : List β} (h : J s as l) :
    Outcome F (fun s' => J s' [] (l ++ log step f s as)) (as.foldlM step s) := by
  induction as generalizing s l with
  | nil =>
    rw [log, List.append_nil]
    exact h
  | cons a as ih =>
    have hs := hstep s a as l h
    rw [List.foldlM_cons, log, ← List.append_assoc]
    cases hres : step s a with
    | error e => exact hs.of_error hres
    | ok s' => exact ih (hs.of_ok hres)

/-! ## Refinement -/

/-- A run, with the answers of its steps. -/
def trace (step : σ → α → Except Fault (β × σ)) : σ → List α → Except Fault (List β × σ)
  | s, [] => .ok ([], s)
  | s, a :: as => do
    let r ← step s a
    let rs ← trace step r.2 as
    .ok (r.1 :: rs.1, rs.2)

section

variable {step : σ → α → Except Fault (β × σ)}

theorem trace_cons {s' s'' : σ} {a : α} {b : β} {bs : List β} (h : step s a = .ok (b, s'))
    (hs : trace step s' as = .ok (bs, s'')) : trace step s (a :: as) = .ok (b :: bs, s'') := by
  rw [trace, h]
  show (do let rs ← trace step s' as; .ok (b :: rs.1, rs.2)) = _
  rw [hs]
  rfl

/-- A run of a program that cannot panic. -/
def specTrace (spec : τ → α → β × τ) : τ → List α → List β × τ
  | t, [] => ([], t)
  | t, a :: as =>
    ((spec t a).1 :: (specTrace spec (spec t a).2 as).1, (specTrace spec (spec t a).2 as).2)

theorem trace_refines {spec : τ → α → β × τ} {R : σ → τ → Prop}
    (hstep : ∀ s t a, R s t → Returns (fun r => r.1 = (spec t a).1 ∧ R r.2 (spec t a).2) (step s a))
    {t : τ} (h : R s t) (as : List α) :
    Returns (fun r => r.1 = (specTrace spec t as).1 ∧ R r.2 (specTrace spec t as).2)
      (trace step s as) := by
  induction as generalizing s t with
  | nil => exact ⟨rfl, h⟩
  | cons a as ih =>
    refine (hstep s t a h).bind fun r hr => ?_
    refine (ih hr.2).bind fun rs hrs => ?_
    refine ⟨?_, hrs.2⟩
    rw [hr.1, hrs.1]
    rfl

end

end Fhttp.Lib.Run
