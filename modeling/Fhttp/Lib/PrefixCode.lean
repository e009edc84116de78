import Mathlib.Data.List.Infix

/-!
# Prefix codes

A prefix code gives every symbol a non-empty word, and no word begins another.
`encode_append_cancel` is unique decoding in the form that a decoder with
padding needs: when a text is encoded and followed by a tail that begins with
no word, every other way to read the front of the bits as words reads the
front of that same text.
-/

namespace Fhttp.Lib.PrefixCode

open List

/-- A code over bits in which no word begins another. -/
structure BitCode (σ : Type) where
  word : σ → List Bool
  word_ne_nil : ∀ a, word a ≠ []
  word_inj_of_begins : ∀ a b, word a <+: word b → a = b

namespace BitCode

variable {σ : Type} (C : BitCode σ)

/-- The words of a text, one after the other. -/
def encode (s : List σ) : List Bool := s.flatMap C.word

@[simp] theorem encode_nil : C.encode [] = [] := rfl

@[simp] theorem encode_cons (a : σ) (s : List σ) :
    C.encode (a :: s) = C.word a ++ C.encode s := rfl

@[simp] theorem encode_append (s t : List σ) : C.encode (s ++ t) = C.encode s ++ C.encode t := by
  simp [encode]

/-- A tail that begins with no word. -/
def Unreadable (r : List Bool) : Prop := ∀ a, ¬ C.word a <+: r

variable {x r : List Bool} {s t : List σ}

/-- Two words that begin one bit string are the same word. -/
theorem eq_of_begins {a b : σ} (ha : C.word a <+: x) (hb : C.word b <+: x) : a = b := by
  rcases prefix_or_prefix_of_prefix ha hb with h | h
  · exact C.word_inj_of_begins a b h
  · exact (C.word_inj_of_begins b a h).symm

/-- Unique decoding.  What is read off the front of an encoded text with an
unreadable tail is the front of the text. -/
theorem encode_append_cancel (hr : C.Unreadable r) (h : C.encode s ++ x = C.encode t ++ r) :
    ∃ t', t = s ++ t' ∧ x = C.encode t' ++ r := by
  induction s generalizing t with
  | nil => exact ⟨t, rfl, h⟩
  | cons a s ih =>
    cases t with
    | nil =>
      refine absurd ?_ (hr a)
      rw [encode_nil, nil_append] at h
      rw [← h, encode_cons, append_assoc]
      exact prefix_append _ _
    | cons b t =>
      rw [encode_cons, encode_cons, append_assoc, append_assoc] at h
      have hab : a = b := by
        refine C.eq_of_begins (x := C.word a ++ (C.encode s ++ x)) (prefix_append _ _) ?_
        rw [h]
        exact prefix_append _ _
      subst hab
      obtain ⟨t', rfl, hx⟩ := ih (append_cancel_left h)
      exact ⟨t', rfl, hx⟩

/-- An unreadable tail and the text before it are determined by the bits. -/
theorem encode_append_inj (hx : C.Unreadable x) (hr : C.Unreadable r)
    (h : C.encode s ++ x = C.encode t ++ r) : s = t ∧ x = r := by
  obtain ⟨t', rfl, hxe⟩ := C.encode_append_cancel hr h
  cases t' with
  | nil => exact ⟨(append_nil s).symm, hxe⟩
  | cons a t' =>
    refine absurd ?_ (hx a)
    rw [hxe, encode_cons, append_assoc]
    exact prefix_append _ _

end BitCode

end Fhttp.Lib.PrefixCode
