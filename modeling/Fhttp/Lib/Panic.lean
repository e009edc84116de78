import Mathlib.Init

/-!
# Programs that may panic

A result of type `Except Fault α` is that of a program with loops: it returns a
value, it panics, or one of its loops does not end.  A loop of the program is a
recursion on a bound for the number of its passes, and gives `diverges` when the
bound is too small.

`Outcome F P` is the rule for such programs: a value that is returned has `P`, and
otherwise the fault has `F`.  Three cases have a name of their own.  `Returns P` allows no
fault.  `Ends P` allows any panic: the program ends, and if it returns, its value has `P`.
`Yields P` allows every fault.
-/

namespace Fhttp.Lib.Panic

/-- How a program fails to return. -/
inductive Fault where
  | panic (msg : String)
  | diverges
deriving DecidableEq, Repr

variable {α β : Type}

/-- A value that the program returns has `P`, and a fault has `F`. -/
def Outcome (F : Fault → Prop) (P : α → Prop) : Except Fault α → Prop
  | .ok a => P a
  | .error e => F e

/-- The program returns a value that has `P`. -/
abbrev Returns (P : α → Prop) : Except Fault α → Prop := Outcome (fun _ => False) P

variable {F : Fault → Prop} {P : α → Prop} {x : Except Fault α} {Q : β → Prop}

section

variable (h : Outcome F P x)

include h

theorem Outcome.imp {Q : α → Prop} (himp : ∀ a, P a → Q a) : Outcome F Q x := by
  match x, h with
  | .ok a, h => exact himp a h
  | .error _, h => exact h

theorem Outcome.bind {k : α → Except Fault β} (hk : ∀ a, P a → Outcome F Q (k a)) :
    Outcome F Q (x >>= k) := by
  match x, h with
  | .ok a, h => exact hk a h
  | .error _, h => exact h

theorem Outcome.map {f : α → β} (hf : ∀ a, P a → Q (f a)) : Outcome F Q (x.map f) := by
  match x, h with
  | .ok a, h => exact hf a h
  | .error _, h => exact h

theorem Outcome.weaken {G : Fault → Prop} (hfault : ∀ e, F e → G e) : Outcome G P x := by
  match x, h with
  | .ok a, h => exact h
  | .error e, h => exact hfault e h

theorem Outcome.of_ok {a : α} (hx : x = .ok a) : P a := by
  rw [hx] at h
  exact h

theorem Outcome.of_error {e : Fault} (hx : x = .error e) : F e := by
  rw [hx] at h
  exact h

end

theorem returns_iff : Returns P x ↔ ∃ a, x = .ok a ∧ P a := by
  match x with
  | .ok a => exact ⟨fun h => ⟨a, rfl, h⟩, fun ⟨_, heq, h⟩ => Except.ok.inj heq ▸ h⟩
  | .error e => exact ⟨fun h => h.elim, fun ⟨_, heq, _⟩ => by cases heq⟩

/-- If the program returns a value, the value has `P`. -/
abbrev Yields (P : α → Prop) : Except Fault α → Prop := Outcome (fun _ => True) P

theorem yields_iff : Yields P x ↔ ∀ a, x = .ok a → P a := by
  match x with
  | .ok a => exact ⟨fun h _ heq => Except.ok.inj heq ▸ h, fun h => h a rfl⟩
  | .error e => exact ⟨nofun, fun _ => trivial⟩

/-- The program ends, and a value that it returns has `P`. -/
def Ends (P : α → Prop) : Except Fault α → Prop
  | .ok a => P a
  | .error (.panic _) => True
  | .error .diverges => False

theorem ends_iff : Ends P x ↔ Outcome (fun e => e ≠ .diverges) P x := by
  match x with
  | .ok a => exact Iff.rfl
  | .error (.panic msg) => exact ⟨nofun, fun _ => trivial⟩
  | .error .diverges => exact ⟨fun h => h.elim, fun h => (h rfl).elim⟩

theorem Ends.imp {Q : α → Prop} (h : Ends P x) (himp : ∀ a, P a → Q a) : Ends Q x := by
  match x, h with
  | .ok a, h => exact himp a h
  | .error (.panic _), _ => trivial

theorem Ends.map {f : α → β} (h : Ends P x) (hf : ∀ a, P a → Q (f a)) : Ends Q (x.map f) := by
  match x, h with
  | .ok a, h => exact hf a h
  | .error (.panic _), _ => trivial

/-- What is known of a value that is returned. -/
theorem Ends.of_ok {a : α} (h : Ends P x) (hx : x = .ok a) : P a := by
  rw [hx] at h
  exact h

end Fhttp.Lib.Panic
