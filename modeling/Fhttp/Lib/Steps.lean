import Mathlib.Logic.Relation
import Fhttp.Lib.Panic

/-!
# Programs as sequences of steps

A program that changes a state does so in small steps.  `Stepwise Step Fails s post x` says
that the run `x` of a program is such a sequence: it begins in `s`, and if it returns `a` it ends
in `post a`; if it does not return, then some state on its way accounts for the fault.

The small steps of a program are found once, function by function, with the rules `bind`, `before`
and `step`.  Then `Stepwise.outcome` gives what the program does to every invariant that the
small steps keep.
-/

namespace Fhttp.Lib.Steps

open Panic (Fault Outcome)
open Relation (ReflTransGen)

variable {σ α β : Type} {Step : σ → σ → Prop} {Fails : σ → Fault → Prop}

/-- The run of a program is a sequence of steps. -/
def Stepwise (Step : σ → σ → Prop) (Fails : σ → Fault → Prop) (s : σ) (post : α → σ)
    (x : Except Fault α) : Prop :=
  Outcome (fun e => ∃ s', ReflTransGen Step s s' ∧ Fails s' e)
    (fun a => ReflTransGen Step s (post a)) x

namespace Stepwise

variable {s s' : σ} {post : α → σ} {x : Except Fault α}

/-- Steps that come before the program. -/
theorem before (hsteps : ReflTransGen Step s s') (h : Stepwise Step Fails s' post x) :
    Stepwise Step Fails s post x := by
  match x, h with
  | .ok a, h => exact hsteps.trans h
  | .error e, h =>
    obtain ⟨s'', hmore, hfails⟩ := h
    exact ⟨s'', hsteps.trans hmore, hfails⟩

/-- One step before the program. -/
theorem step (hstep : Step s s') (h : Stepwise Step Fails s' post x) :
    Stepwise Step Fails s post x :=
  h.before (.single hstep)

/-- The program returns at once. -/
theorem ok {a : α} (hpost : post a = s) : Stepwise Step Fails s post (.ok a) := by
  show ReflTransGen Step s (post a)
  rw [hpost]

/-- The program fails at once. -/
theorem error {e : Fault} (h : Fails s e) :
    Stepwise Step Fails s post (.error e : Except Fault α) :=
  ⟨s, .refl, h⟩

section

variable (h : Stepwise Step Fails s post x)

include h

theorem bind {post' : β → σ} {k : α → Except Fault β}
    (hk : ∀ a, ReflTransGen Step s (post a) → Stepwise Step Fails (post a) post' (k a)) :
    Stepwise Step Fails s post' (x >>= k) := by
  match x, h with
  | .ok a, h => exact (hk a h).before h
  | .error e, h => exact h

/-- One step after the program. -/
theorem after {post' : α → σ} (hstep : ∀ a, Step (post a) (post' a)) :
    Stepwise Step Fails s post' x := by
  match x, h with
  | .ok a, h => exact h.tail (hstep a)
  | .error e, h => exact h

theorem map {post' : β → σ} {f : α → β} (hpost : ∀ a, post' (f a) = post a) :
    Stepwise Step Fails s post' (x.map f) := by
  match x, h with
  | .ok a, h =>
    show ReflTransGen Step s (post' (f a))
    rw [hpost]
    exact h
  | .error e, h => exact h

/-- What the steps keep holds when the program returns, and where it fails. -/
theorem outcome {I : σ → Prop} (hs : I s) (hkeeps : ∀ s s', I s → Step s s' → I s') :
    Outcome (fun e => ∃ s', I s' ∧ Fails s' e) (fun a => I (post a)) x := by
  have hsteps : ∀ {s'}, ReflTransGen Step s s' → I s' := by
    intro s' hsteps
    induction hsteps with
    | refl => exact hs
    | tail _ hstep ih => exact hkeeps _ _ ih hstep
  match x, h with
  | .ok a, h => exact hsteps h
  | .error e, h =>
    obtain ⟨s', hmore, hfails⟩ := h
    exact ⟨s', hsteps hmore, hfails⟩

end

end Stepwise

end Fhttp.Lib.Steps
