import Mathlib.Data.List.Basic

/-!
# Incremental readers

A reader takes a value from the front of a buffer that may still grow.  Its
outcome is one of three: the value and the rest of the buffer, an error, or
the answer that the buffer is too short.  `Stable` says that an outcome of the
first two kinds is final: bytes that arrive later change nothing.  Stability
is closed under `Read.bind`, so a parser that is put together from stable
readers is stable.

A `Stepper` is a stable reader that moves a state, and `Stepper.run` is the
loop that applies it until the buffer is empty or too short.  There are two
results about the loop.

* `Stepper.run_append`: a run over `a ++ b` is the run over `a`, continued
  with what it left over and `b`.  This is the whole content of "the way the
  input is cut into pieces does not matter".
* `Stepper.run_sim`: a relation that one step keeps is kept by a run.  A step
  keeps it when the two readers follow each other (`Follows`), which is again
  closed under `Read.bind`.

Nothing here mentions bytes, headers or a decoder.
-/

namespace Fhttp.Lib.Incremental

variable {β ε ε' α γ S T : Type}

/-- The outcome of a reader: the buffer is too short, the input is wrong, or
a value and the unread rest of the buffer. -/
inductive Read (β ε α : Type) where
  | needMore
  | fail (e : ε)
  | ok (a : α) (rest : List β)
deriving DecidableEq

namespace Read

/-- Hand the value and the rest of the buffer to the next reader. -/
def bind (r : Read β ε α) (k : α → List β → Read β ε γ) : Read β ε γ :=
  match r with
  | needMore => needMore
  | fail e => fail e
  | ok a rest => k a rest

@[simp] theorem bind_needMore (k : α → List β → Read β ε γ) :
    (needMore : Read β ε α).bind k = needMore := rfl

@[simp] theorem bind_fail (e : ε) (k : α → List β → Read β ε γ) :
    (fail e : Read β ε α).bind k = fail e := rfl

@[simp] theorem bind_ok (a : α) (rest : List β) (k : α → List β → Read β ε γ) :
    (ok a rest : Read β ε α).bind k = k a rest := rfl

/-- Change the error, for a reader whose error carries more. -/
def mapErr (f : ε → ε') : Read β ε α → Read β ε' α
  | needMore => needMore
  | fail e => fail (f e)
  | ok a rest => ok a rest

@[simp] theorem mapErr_needMore (f : ε → ε') :
    (needMore : Read β ε α).mapErr f = needMore := rfl

@[simp] theorem mapErr_fail (f : ε → ε') (e : ε) :
    (fail e : Read β ε α).mapErr f = fail (f e) := rfl

@[simp] theorem mapErr_ok (f : ε → ε') (a : α) (rest : List β) :
    (ok a rest : Read β ε α).mapErr f = ok a rest := rfl

variable {rest : List β}

theorem mapErr_eq_ok {r : Read β ε α} {f : ε → ε'} {a : α} (h : r.mapErr f = ok a rest) :
    r = ok a rest := by
  cases r with
  | needMore => simp at h
  | fail e => simp at h
  | ok a' rest' => simpa using h

/-- The outcome of a computation that does not touch the buffer. -/
def ofExcept (r : Except ε α) (rest : List β) : Read β ε α :=
  match r with
  | .error e => fail e
  | .ok a => ok a rest

@[simp] theorem ofExcept_error (e : ε) (rest : List β) :
    ofExcept (.error e : Except ε α) rest = fail e := rfl

@[simp] theorem ofExcept_ok (a : α) (rest : List β) :
    ofExcept (.ok a : Except ε α) rest = ok a rest := rfl

section

variable {r : Read β ε α} {k : α → List β → Read β ε γ}

/-- A successful `bind` is two successful reads. -/
theorem bind_eq_ok {c : γ} (h : r.bind k = ok c rest) :
    ∃ a mid, r = ok a mid ∧ k a mid = ok c rest := by
  cases r with
  | needMore => simp at h
  | fail e => simp at h
  | ok a mid => exact ⟨a, mid, rfl, h⟩

/-- A failed `bind` failed in the first read or in the second. -/
theorem bind_eq_fail {e : ε} (h : r.bind k = fail e) :
    r = fail e ∨ ∃ a mid, r = ok a mid ∧ k a mid = fail e := by
  cases r with
  | needMore => simp at h
  | fail e' => exact .inl (by simpa using h)
  | ok a mid => exact .inr ⟨a, mid, rfl, h⟩

end

end Read

/-! ## Stable readers -/

/-- More input does not change an outcome that is decided. -/
structure Stable (f : List β → Read β ε α) : Prop where
  ok : ∀ {b : List β} {a : α} {rest : List β} (more : List β),
    f b = .ok a rest → f (b ++ more) = .ok a (rest ++ more)
  fail : ∀ {b : List β} {e : ε} (more : List β),
    f b = .fail e → f (b ++ more) = .fail e

/-- A successful read takes at least one element. -/
def Consumes (f : List β → Read β ε α) : Prop :=
  ∀ b a rest, f b = .ok a rest → rest.length < b.length

/-- A successful read does not make the buffer longer. -/
def Shrinks (f : List β → Read β ε α) : Prop :=
  ∀ b a rest, f b = .ok a rest → rest.length ≤ b.length

variable {f : List β → Read β ε α} {k : α → List β → Read β ε γ} {R : α → γ → Prop} {r : Read β ε α}
  {r' : Read β ε' γ} {P : α → Prop} {Q : ε → Prop}

theorem Consumes.shrinks (h : Consumes f) : Shrinks f :=
  fun b a rest hf => Nat.le_of_lt (h b a rest hf)

theorem stable_ok (a : α) : Stable (fun b => (.ok a b : Read β ε α)) where
  ok := by
    intro b a' rest more h
    cases h
    rfl
  fail := by
    intro b e more h
    cases h

theorem stable_fail (e : ε) : Stable (fun _ => (.fail e : Read β ε α)) where
  ok := by
    intro b a' rest more h
    cases h
  fail := by
    intro b e' more h
    exact h

theorem shrinks_ok (a : α) : Shrinks (fun b => (.ok a b : Read β ε α)) := by
  intro b a' rest h
  cases h
  exact Nat.le_refl _

theorem shrinks_fail (e : ε) : Shrinks (fun _ => (.fail e : Read β ε α)) := by
  intro b a rest h
  cases h

theorem stable_ofExcept (r : Except ε α) : Stable (fun b => (Read.ofExcept r b : Read β ε α)) := by
  cases r with
  | error e => exact stable_fail e
  | ok a => exact stable_ok a

theorem shrinks_ofExcept (r : Except ε α) :
    Shrinks (fun b => (Read.ofExcept r b : Read β ε α)) := by
  cases r with
  | error e => exact shrinks_fail e
  | ok a => exact shrinks_ok a

/-- A stable reader that took all of `c ++ d` found `c` too short. -/
theorem Stable.needMore (hf : Stable f) {a : α} {c d rest : List β}
    (h : f (c ++ (d ++ rest)) = .ok a rest) (hd : d ≠ []) : f c = .needMore := by
  cases hc : f c with
  | needMore => rfl
  | fail e =>
    rw [hf.fail _ hc] at h
    cases h
  | ok a' rest' =>
    rw [hf.ok _ hc] at h
    have hlen := congrArg List.length (Read.ok.inj h).2
    have hpos := List.length_pos_iff.mpr hd
    simp only [List.length_append] at hlen
    omega

/-- A chain of stable readers is stable. -/
theorem Stable.bind (hf : Stable f) (hk : ∀ a, Stable (k a)) : Stable (fun b => (f b).bind k) where
  ok := by
    intro b c rest more h
    obtain ⟨a, mid, h1, h2⟩ := Read.bind_eq_ok h
    simp only [hf.ok more h1, Read.bind_ok]
    exact (hk a).ok more h2
  fail := by
    intro b e more h
    rcases Read.bind_eq_fail h with h1 | ⟨a, mid, h1, h2⟩
    · simp only [hf.fail more h1, Read.bind_fail]
    · simp only [hf.ok more h1, Read.bind_ok]
      exact (hk a).fail more h2

theorem Consumes.bind (hf : Consumes f) (hk : ∀ a, Shrinks (k a)) :
    Consumes (fun b => (f b).bind k) := by
  intro b c rest h
  obtain ⟨a, mid, h1, h2⟩ := Read.bind_eq_ok h
  exact Nat.lt_of_le_of_lt (hk a mid c rest h2) (hf b a mid h1)

theorem Shrinks.bind (hf : Shrinks f) (hk : ∀ a, Shrinks (k a)) :
    Shrinks (fun b => (f b).bind k) := by
  intro b c rest h
  obtain ⟨a, mid, h1, h2⟩ := Read.bind_eq_ok h
  exact Nat.le_trans (hk a mid c rest h2) (hf b a mid h1)

theorem Stable.mapErr (hf : Stable f) (g : ε → ε') :
    Stable (fun b => (f b).mapErr g) where
  ok := by
    intro b a rest more h
    cases hb : f b with
    | needMore => simp [hb] at h
    | fail e => simp [hb] at h
    | ok a' rest' =>
      simp only [hb, Read.mapErr_ok, Read.ok.injEq] at h
      simp only [hf.ok more hb, Read.mapErr_ok, h.1, h.2]
  fail := by
    intro b e more h
    cases hb : f b with
    | needMore => simp [hb] at h
    | fail e' =>
      simp only [hb, Read.mapErr_fail] at h
      simp only [hf.fail more hb, Read.mapErr_fail, h]
    | ok a rest => simp [hb] at h

theorem Shrinks.mapErr (hf : Shrinks f) (g : ε → ε') : Shrinks (fun b => (f b).mapErr g) :=
  fun b a rest h => hf b a rest (Read.mapErr_eq_ok h)

theorem Consumes.mapErr (hf : Consumes f) (g : ε → ε') : Consumes (fun b => (f b).mapErr g) :=
  fun b a rest h => hf b a rest (Read.mapErr_eq_ok h)

/-- Look at the first element and leave it in the buffer. -/
def peek (k : β → List β → Read β ε α) : List β → Read β ε α
  | [] => .needMore
  | x :: b => k x (x :: b)

@[simp] theorem peek_nil (k : β → List β → Read β ε α) : peek k [] = .needMore := rfl

@[simp] theorem peek_cons (k : β → List β → Read β ε α) (x : β) (b : List β) :
    peek k (x :: b) = k x (x :: b) := rfl

theorem Stable.peek {k : β → List β → Read β ε α} (hk : ∀ x, Stable (k x)) :
    Stable (peek k) where
  ok := by
    intro b a rest more h
    cases b with
    | nil => simp at h
    | cons x b => exact (hk x).ok more h
  fail := by
    intro b e more h
    cases b with
    | nil => simp at h
    | cons x b => exact (hk x).fail more h

theorem Consumes.peek {k : β → List β → Read β ε α} (hk : ∀ x, Consumes (k x)) :
    Consumes (peek k) := by
  intro b a rest h
  cases b with
  | nil => simp at h
  | cons x b => exact hk x _ a rest h

/-- Take `n` elements. -/
def readExactly (n : Nat) (b : List β) : Read β ε (List β) :=
  if b.length < n then .needMore else .ok (b.take n) (b.drop n)

theorem readExactly_append {n : Nat} {x : List β} (h : x.length = n) (rest : List β) :
    readExactly n (x ++ rest) = (.ok x rest : Read β ε (List β)) := by
  have hlen : ¬ (x ++ rest).length < n := by
    rw [List.length_append]
    omega
  rw [readExactly, if_neg hlen, List.take_left' h, List.drop_left' h]

theorem stable_readExactly (n : Nat) :
    Stable (readExactly n : List β → Read β ε (List β)) where
  ok := by
    intro b a rest more h
    unfold readExactly at h ⊢
    split at h
    · cases h
    · cases h
      rw [if_neg (by rw [List.length_append]; omega),
        List.take_append_of_le_length (by omega), List.drop_append_of_le_length (by omega)]
  fail := by
    intro b e more h
    unfold readExactly at h
    split at h <;> cases h

theorem shrinks_readExactly (n : Nat) : Shrinks (readExactly n : List β → Read β ε (List β)) := by
  intro b a rest h
  unfold readExactly at h
  split at h
  · cases h
  · cases h
    rw [List.length_drop]
    omega

/-! ## Readers that follow each other

Two readers go over the same bytes, and the second one accepts at least what
the first one accepts. -/

/-- Where the first outcome is a value, the second is a related value with the
same rest; where the first waits, the second waits. -/
def Follows (R : α → γ → Prop) : Read β ε α → Read β ε' γ → Prop
  | .needMore, r => r = .needMore
  | .fail _, _ => True
  | .ok a rest, r => ∃ c, r = .ok c rest ∧ R a c

theorem follows_ok {a : α} {c : γ} (h : R a c) (rest : List β) :
    Follows R (.ok a rest : Read β ε α) (.ok c rest : Read β ε' γ) := ⟨c, rfl, h⟩

theorem follows_refl {R : α → α → Prop} (hR : ∀ a, R a a) (r : Read β ε α) : Follows R r r := by
  cases r with
  | needMore => rfl
  | fail e => trivial
  | ok a rest => exact ⟨a, rfl, hR a⟩

theorem Follows.imp {R' : α → γ → Prop} (h : Follows R r r') (himp : ∀ a c, R a c → R' a c) :
    Follows R' r r' := by
  cases r with
  | needMore => exact h
  | fail e => trivial
  | ok a rest =>
    obtain ⟨c, hc, hR⟩ := h
    exact ⟨c, hc, himp a c hR⟩

theorem Follows.bind {δ ζ : Type} {R' : δ → ζ → Prop} {k : α → List β → Read β ε δ}
    {k' : γ → List β → Read β ε' ζ} (h : Follows R r r')
    (hk : ∀ a c rest, R a c → Follows R' (k a rest) (k' c rest)) :
    Follows R' (r.bind k) (r'.bind k') := by
  cases r with
  | needMore =>
    have h' : r' = .needMore := h
    rw [h']
    rfl
  | fail e => trivial
  | ok a rest =>
    obtain ⟨c, hc, hR⟩ := h
    rw [hc]
    exact hk a c rest hR

theorem Follows.mapErr {ε₁ ε₂ : Type} (h : Follows R r r') (f : ε → ε₁) (g : ε' → ε₂) :
    Follows R (r.mapErr f) (r'.mapErr g) := by
  cases r with
  | needMore =>
    have h' : r' = .needMore := h
    rw [h']
    rfl
  | fail e => trivial
  | ok a rest =>
    obtain ⟨c, hc, hR⟩ := h
    rw [hc]
    exact ⟨c, rfl, hR⟩

/-! ## Facts about every outcome -/

/-- The value of an outcome has `P`, or its error has `Q`. -/
def Read.All (P : α → Prop) (Q : ε → Prop) : Read β ε α → Prop
  | .needMore => True
  | .fail e => Q e
  | .ok a _ => P a

theorem Read.all_of_forall (hP : ∀ a, P a) (hQ : ∀ e, Q e) (r : Read β ε α) : r.All P Q := by
  cases r with
  | needMore => trivial
  | fail e => exact hQ e
  | ok a rest => exact hP a

theorem Read.All.bind {P' : γ → Prop} (h : r.All P Q) (hk : ∀ a rest, P a → (k a rest).All P' Q) :
    (r.bind k).All P' Q := by
  cases r with
  | needMore => trivial
  | fail e => exact h
  | ok a rest => exact hk a rest h

theorem Read.All.mapErr {Q' : ε' → Prop} {f : ε → ε'} (h : r.All P Q) (hf : ∀ e, Q e → Q' (f e)) :
    (r.mapErr f).All P Q' := by
  cases r with
  | needMore => trivial
  | fail e => exact hf e h
  | ok a rest => exact h

/-! ## The loop -/

/-- A stable reader that moves a state.  Its error carries the state at the
time of the error. -/
structure Stepper (S β ε : Type) where
  step : S → List β → Read β (ε × S) S
  stable : ∀ s, Stable (step s)
  consumes : ∀ s, Consumes (step s)

/-- How a run ends: it waits with an unread buffer, or it failed. -/
inductive Outcome (S β ε : Type) where
  | parked (s : S) (left : List β)
  | failed (e : ε) (s : S)

/-- The state at the end. -/
def Outcome.state : Outcome S β ε → S
  | .parked s _ => s
  | .failed _ s => s

namespace Stepper

/-- Apply the step until the buffer is empty, too short or wrong. -/
def run (p : Stepper S β ε) (s : S) (b : List β) : Outcome S β ε :=
  if b = [] then .parked s []
  else
    match _hstep : p.step s b with
    | .needMore => .parked s b
    | .fail (e, s') => .failed e s'
    | .ok s' rest => p.run s' rest
termination_by b.length
decreasing_by exact p.consumes _ _ _ _ ‹_›

@[simp] theorem run_nil (p : Stepper S β ε) (s : S) : p.run s [] = .parked s [] := by
  rw [run, if_pos rfl]

variable {s s' : S} {b : List β}

section

variable (p : Stepper S β ε)

include p

theorem run_of_needMore (h : p.step s b = .needMore) : p.run s b = .parked s b := by
  by_cases hb : b = []
  · subst hb
    exact run_nil p s
  · rw [run, if_neg hb]
    split <;> simp_all

theorem run_of_fail {e : ε} (hb : b ≠ []) (h : p.step s b = .fail (e, s')) :
    p.run s b = .failed e s' := by
  rw [run, if_neg hb]
  split <;> simp_all

theorem run_of_ok {rest : List β} (h : p.step s b = .ok s' rest) : p.run s b = p.run s' rest := by
  have hb : b ≠ [] := by
    rintro rfl
    exact absurd (p.consumes s [] s' rest h) (by simp)
  rw [run, if_neg hb]
  split <;> simp_all

/-- A run over `a ++ b` is the run over `a`, continued with what it left. -/
theorem run_append (s : S) (a b : List β) :
    p.run s (a ++ b) =
      match p.run s a with
      | .parked s' left => p.run s' (left ++ b)
      | .failed e s' => .failed e s' := by
  induction hn : a.length using Nat.strongRecOn generalizing s a with
  | ind n ih =>
    by_cases ha : a = []
    · subst ha
      simp
    cases hstep : p.step s a with
    | needMore => rw [p.run_of_needMore hstep]
    | fail es =>
      obtain ⟨e, s'⟩ := es
      rw [p.run_of_fail ha hstep, p.run_of_fail (by simp [ha]) ((p.stable s).fail b hstep)]
    | ok s' rest =>
      have hlt := p.consumes s a s' rest hstep
      rw [p.run_of_ok hstep, p.run_of_ok ((p.stable s).ok b hstep)]
      exact ih rest.length (by omega) s' rest rfl

/-- What every step keeps, a run keeps. -/
theorem run_invariant (I : S → Prop) (hstep : ∀ s b, I s → (p.step s b).All I fun es => I es.2)
    (hs : I s) (b : List β) : I (p.run s b).state := by
  induction hn : b.length using Nat.strongRecOn generalizing s b with
  | ind n ih =>
    by_cases hb : b = []
    · subst hb
      rw [run_nil]
      exact hs
    have hall := hstep s b hs
    cases hp : p.step s b with
    | needMore =>
      rw [p.run_of_needMore hp]
      exact hs
    | fail es =>
      obtain ⟨e, s'⟩ := es
      rw [p.run_of_fail hb hp]
      rw [hp] at hall
      exact hall
    | ok s' rest =>
      have hlt := p.consumes s b s' rest hp
      rw [p.run_of_ok hp]
      rw [hp] at hall
      exact ih rest.length (by omega) hall rest rfl

variable {t : T} {left : List β}

/-- Two runs that are related by `R` until some step ends in `Stop`, and by
`Stop` from then on.  The first run does not fail; the second may fail once the
runs have parted. -/
theorem run_sim_until (q : Stepper T β ε') (R Stop : S → T → Prop)
    (hstep : ∀ s t b, R s t → Follows (fun s' t' => R s' t' ∨ Stop s' t') (p.step s b) (q.step t b))
    (hstop : ∀ s t b, Stop s t → ∀ s' left, p.run s b = .parked s' left → Stop s' (q.run t b).state)
    (hR : R s t) (h : p.run s b = .parked s' left) :
    (∃ t', q.run t b = .parked t' left ∧ R s' t') ∨ Stop s' (q.run t b).state := by
  induction hn : b.length using Nat.strongRecOn generalizing s t b with
  | ind n ih =>
    by_cases hb : b = []
    · subst hb
      rw [run_nil] at h
      cases h
      exact .inl ⟨t, run_nil q t, hR⟩
    have hfollows := hstep s t b hR
    cases hp : p.step s b with
    | needMore =>
      rw [p.run_of_needMore hp] at h
      cases h
      rw [hp] at hfollows
      exact .inl ⟨t, q.run_of_needMore hfollows, hR⟩
    | fail es =>
      obtain ⟨e, s''⟩ := es
      rw [p.run_of_fail hb hp] at h
      cases h
    | ok s'' rest =>
      have hlt := p.consumes s b s'' rest hp
      rw [hp] at hfollows
      obtain ⟨t'', hq, hR' | hS⟩ := hfollows
      · rw [p.run_of_ok hp] at h
        rw [q.run_of_ok hq]
        exact ih rest.length (by omega) hR' h rfl
      · rw [p.run_of_ok hp] at h
        rw [q.run_of_ok hq]
        exact .inr (hstop s'' t'' rest hS s' left h)

/-- A relation that one step keeps is kept by a run that does not fail. -/
theorem run_sim (q : Stepper T β ε') (R : S → T → Prop)
    (hstep : ∀ s t b, R s t → Follows R (p.step s b) (q.step t b)) (hR : R s t)
    (h : p.run s b = .parked s' left) : ∃ t', q.run t b = .parked t' left ∧ R s' t' := by
  have hsim := p.run_sim_until q R (fun _ _ => False)
    (fun s t b hR => (hstep s t b hR).imp fun _ _ => .inl)
    (fun _ _ _ hfalse => hfalse.elim) hR h
  rcases hsim with ht | hfalse
  · exact ht
  · exact hfalse.elim

end

end Stepper

end Fhttp.Lib.Incremental
