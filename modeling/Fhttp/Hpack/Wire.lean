import Fhttp.Hpack.Decoder
import Fhttp.Hpack.Encoder
import Fhttp.Hpack.HuffmanCodec
import Mathlib.Tactic.Ring

/-!
# What the encoder writes, the decoder reads

The readers of the decoder invert the writers of the encoder, one
representation after the other: integers, strings, and the four kinds of field
representation with the size update.  Each lemma is about the written bytes
followed by arbitrary others, since the decoder meets them in the middle of a
buffer.

The decoder reads at most nine bytes after the first one of an integer, so an
integer comes back when it is less than `2 ^ 63` above what the first byte
holds.  All lengths and indices are far below that.
-/

namespace Fhttp.Hpack

open Lib.Incremental
open List (append_assoc cons_append nil_append)
open UInt64 (lt_iff_toNat_lt ofNat toNat_ofNat' toNat_toUInt8)

/-! ## Bytes -/

theorem toNat_and_127 (b : UInt8) : (b &&& 127).toNat = b.toNat % 128 := by
  exact Nat.and_two_pow_sub_one_eq_mod b.toNat 7

/-- A property of every byte, checked by a run over the 256 of them. -/
theorem forall_uint8 {P : UInt8 → Prop} (h : ∀ i : Fin 256, P (UInt8.ofNat i.val)) (c : UInt8) :
    P c := by
  have hc := h ⟨c.toNat, c.toNat_lt⟩
  rwa [UInt8.ofNat_toNat] at hc

theorem and_128_eq_zero_iff (b : UInt8) : b &&& 128 = 0 ↔ b.toNat < 128 :=
  forall_uint8 (P := fun b => b &&& 128 = 0 ↔ b.toNat < 128) (by decide +kernel) b

/-! ## Integers -/

variable {i : UInt64} {m k : Nat} {t : UInt8} {d : Decoder}

theorem appendVarIntLoop_of_ge (h : i ≥ 128) (dst : Bytes) :
    appendVarIntLoop dst i =
      appendVarIntLoop (dst ++ [(0x80 ||| (i &&& 0x7f)).toUInt8]) (i >>> 7) := by
  rw [appendVarIntLoop, if_pos h]

theorem appendVarIntLoop_of_not_ge (h : ¬ i ≥ 128) (dst : Bytes) :
    appendVarIntLoop dst i = dst ++ [i.toUInt8] := by
  rw [appendVarIntLoop, if_neg h]

variable (dst : Bytes)

theorem appendVarIntLoop_eq (i : UInt64) :
    appendVarIntLoop dst i = dst ++ appendVarIntLoop [] i := by
  induction hn : i.toNat using Nat.strongRecOn generalizing dst i with
  | ind n ih =>
    by_cases h : i ≥ 128
    · have hlt : (i >>> 7).toNat < n := by
        have hle : 128 ≤ i.toNat := UInt64.le_iff_toNat_le.mp h
        rw [toNat_shiftRight_seven]
        omega
      rw [appendVarIntLoop_of_ge h, appendVarIntLoop_of_ge h [], ih _ hlt _ _ rfl,
        ih _ hlt ([] ++ _) _ rfl, nil_append, append_assoc]
    · rw [appendVarIntLoop_of_not_ge h, appendVarIntLoop_of_not_ge h, nil_append]

/-- A byte with the continuation bit. -/
theorem toNat_continuation (i : UInt64) :
    (0x80 ||| (i &&& 0x7f)).toUInt8.toNat = 128 + i.toNat % 128 := by
  have hlow : (i &&& 0x7f).toNat = i.toNat % 128 := by
    exact Nat.and_two_pow_sub_one_eq_mod i.toNat 7
  have hor := Nat.two_pow_add_eq_or_of_lt (i := 7) (Nat.mod_lt i.toNat (by decide)) 1
  rw [toNat_toUInt8, UInt64.toNat_or, hlow]
  show (128 ||| i.toNat % 128) % 256 = _
  rw [show 128 ||| i.toNat % 128 = 128 + i.toNat % 128 from hor.symm]
  omega

/-- The number in the bytes after the first one of an integer. -/
def varIntTail : Bytes → Nat
  | [] => 0
  | b :: p => b.toNat % 128 + 128 * varIntTail p

theorem varIntTail_append (p q : Bytes) :
    varIntTail (p ++ q) = varIntTail p + varIntTail q * 128 ^ p.length := by
  induction p with
  | nil => simp [varIntTail]
  | cons b p ih =>
    rw [cons_append, varIntTail, varIntTail, ih, List.length_cons, Nat.pow_succ]
    ring

theorem varIntTail_lt (p : Bytes) : varIntTail p < 128 ^ p.length := by
  induction p with
  | nil => decide
  | cons b p ih =>
    rw [varIntTail, List.length_cons, Nat.pow_succ]
    omega

theorem shiftLeft_eq_ofNat (b : UInt8) (hm : m ≤ 8) :
    (b &&& 127).toUInt64 <<< ofNat (7 * m) = ofNat (b.toNat % 128 * 128 ^ m) := by
  apply UInt64.toNat_inj.mp
  rw [UInt64.toNat_shiftLeft, toNat_ofNat', toNat_ofNat', UInt8.toNat_toUInt64, toNat_and_127,
    Nat.mod_eq_of_lt (by omega : 7 * m < 2 ^ 64), Nat.mod_eq_of_lt (by omega : 7 * m < 64),
    Nat.shiftLeft_eq,
    Nat.pow_mul]

/-- The loop of `readVarInt` adds up the bytes that have the continuation bit,
and gives up at the ninth. -/
theorem readVarIntLoop_append {init : Bytes} (hinit : ∀ b ∈ init, 128 ≤ b.toNat) (a : UInt64)
    (hm : m ≤ 8) (p : Bytes) :
    readVarIntLoop a (ofNat (7 * m)) (init ++ p) =
      if 8 < m + init.length then .fail errVarintOverflow
      else readVarIntLoop (a + ofNat (varIntTail init * 128 ^ m)) (ofNat (7 * (m + init.length))) p
    := by
  induction init generalizing a m with
  | nil => simp [varIntTail, hm]
  | cons b init ih =>
    have hcont : ¬ b &&& 128 = 0 := by
      have hb := hinit b List.mem_cons_self
      rw [and_128_eq_zero_iff]
      omega
    have hnext : ofNat (7 * m) + 7 = ofNat (7 * (m + 1)) := by
      rw [Nat.mul_succ, UInt64.ofNat_add]
      rfl
    have hlast : ofNat (7 * (m + 1)) ≥ 63 ↔ m = 8 := by
      rw [ge_iff_le, UInt64.le_iff_toNat_le, toNat_ofNat']
      rw [Nat.mod_eq_of_lt (by omega)]
      show 63 ≤ 7 * (m + 1) ↔ m = 8
      omega
    rw [cons_append, readVarIntLoop_cons, if_neg hcont, hnext, shiftLeft_eq_ofNat b hm,
      List.length_cons]
    by_cases h8 : m = 8
    · rw [if_pos (hlast.mpr h8), if_pos (by omega)]
    · rw [if_neg (mt hlast.mp h8),
        ih (fun c hc => hinit c (List.mem_cons_of_mem _ hc)) _ (by omega),
        UInt64.add_assoc, ← UInt64.ofNat_add, varIntTail, Nat.pow_succ, Nat.add_assoc m 1,
        Nat.add_comm 1]
      congr 4
      ring

/-- The bytes that the loop of `appendVarInt` writes. -/
theorem exists_appendVarIntLoop (i : UInt64) :
    ∃ init last, appendVarIntLoop [] i = init ++ [last] ∧ (∀ b ∈ init, 128 ≤ b.toNat) ∧
      last.toNat < 128 ∧ varIntTail (init ++ [last]) = i.toNat ∧
      128 ^ init.length ≤ max 1 i.toNat := by
  induction hn : i.toNat using Nat.strongRecOn generalizing i with
  | ind n ih =>
    by_cases h : i ≥ 128
    · have hle : 128 ≤ i.toNat := UInt64.le_iff_toNat_le.mp h
      have hdiv : (i >>> 7).toNat = i.toNat / 128 := toNat_shiftRight_seven i
      obtain ⟨init, last, hbytes, hinit, hlast, hval, hlen⟩ := ih _ (by omega) (i >>> 7) rfl
      refine ⟨(0x80 ||| (i &&& 0x7f)).toUInt8 :: init, last, ?_, ?_, hlast, ?_, ?_⟩
      · rw [appendVarIntLoop_of_ge h, appendVarIntLoop_eq, hbytes]
        rfl
      · intro b hb
        rcases List.mem_cons.mp hb with rfl | hb
        · rw [toNat_continuation]
          omega
        · exact hinit b hb
      · rw [cons_append, varIntTail, hval, hdiv, toNat_continuation]
        omega
      · rw [List.length_cons, Nat.pow_succ]
        omega
    · have hlt : i.toNat < 128 := by
        exact Nat.lt_of_not_le h
      refine ⟨[], i.toUInt8, appendVarIntLoop_of_not_ge h [], by simp, ?_, ?_, ?_⟩
      · rw [toNat_toUInt8]
        omega
      · rw [nil_append, varIntTail, varIntTail, toNat_toUInt8]
        omega
      · exact Nat.le_max_left _ _

theorem appendVarInt_eq (n i : UInt64) : appendVarInt dst n i = dst ++ appendVarInt [] n i := by
  unfold appendVarInt
  by_cases h : i < (1 <<< n) - 1
  · simp only [if_pos h, nil_append]
  · simp only [if_neg h, nil_append]
    rw [appendVarIntLoop_eq, appendVarIntLoop_eq [_], append_assoc]

/-- The largest number in the first byte. -/
theorem toNat_mask (hk : k ≤ 8) : ((1 : UInt64) <<< ofNat k - 1).toNat = 2 ^ k - 1 := by
  have hall : ∀ k : Fin 9, ((1 : UInt64) <<< ofNat k.val - 1).toNat = 2 ^ k.val - 1 := by
    decide
  exact hall ⟨k, by omega⟩

/-- The bits above the first bits of an integer are masked off. -/
theorem toNat_varIntHead (hk : k ≤ 8) (b : UInt8) :
    (varIntHead (ofNat k) b).toNat = b.toNat % 2 ^ k := by
  have hk8 : ofNat k < 8 ↔ k < 8 := by
    rw [lt_iff_toNat_lt, toNat_ofNat', Nat.mod_eq_of_lt (by omega)]
    rfl
  by_cases h8 : k < 8
  · rw [varIntHead, if_pos (hk8.mpr h8), UInt64.toNat_and, toNat_mask hk, UInt8.toNat_toUInt64,
      Nat.and_two_pow_sub_one_eq_mod]
  · obtain rfl : k = 8 := by omega
    rw [varIntHead, if_neg (mt hk8.mp h8), UInt8.toNat_toUInt64]
    exact (Nat.mod_eq_of_lt b.toNat_lt).symm

theorem orAt_append (b : UInt8) (l : Bytes) (t : UInt8) :
    orAt (dst ++ b :: l) dst.length t = dst ++ (b ||| t) :: l := by
  unfold orAt
  induction dst with
  | nil => rfl
  | cons a dst ih =>
    rw [cons_append, List.length_cons, List.modify_succ_cons, ih, cons_append]

/-- An integer starts with a byte that leaves the type bits free. -/
theorem appendVarInt_head (hk : k < 8) (i : UInt64) :
    ∃ b l, appendVarInt [] (ofNat k) i = b :: l ∧ b.toNat < 2 ^ k := by
  have hpos := Nat.two_pow_pos k
  unfold appendVarInt
  by_cases hlt : i < (1 <<< ofNat k) - 1
  · simp only [if_pos hlt, nil_append]
    refine ⟨_, _, rfl, ?_⟩
    rw [lt_iff_toNat_lt, toNat_mask hk.le] at hlt
    rw [toNat_toUInt8]
    omega
  · simp only [if_neg hlt, nil_append]
    refine ⟨_, _, by rw [appendVarIntLoop_eq]; rfl, ?_⟩
    rw [toNat_toUInt8, toNat_mask hk.le]
    omega

theorem orAt_appendVarInt (hk : k < 8) (dst : Bytes) (i : UInt64) (t : UInt8) :
    orAt (appendVarInt dst (ofNat k) i) dst.length t =
      dst ++ orAt (appendVarInt [] (ofNat k) i) 0 t := by
  obtain ⟨b, l, hbl, _⟩ := appendVarInt_head hk i
  rw [appendVarInt_eq, hbl, orAt_append]
  rfl

/-- The representation of an integer by the standard, with `k` bits of it in
the first byte.  Nothing says that it is the shortest one. -/
inductive VarInt (k : Nat) : Bytes → Nat → Prop
  | short {b : UInt8} (hb : b.toNat % 2 ^ k < 2 ^ k - 1) : VarInt k [b] (b.toNat % 2 ^ k)
  | long {b : UInt8} {init : Bytes} {last : UInt8} (hb : b.toNat % 2 ^ k = 2 ^ k - 1)
      (hinit : ∀ c ∈ init, 128 ≤ c.toNat) (hlast : last.toNat < 128) :
      VarInt k (b :: (init ++ [last])) (2 ^ k - 1 + varIntTail (init ++ [last]))

theorem readVarInt_of_short (hk : k ≤ 8) {b : UInt8} (hb : b.toNat % 2 ^ k < 2 ^ k - 1)
    (p : Bytes) : readVarInt (ofNat k) (b :: p) = .ok (varIntHead (ofNat k) b) p := by
  rw [readVarInt_cons, if_pos]
  rwa [lt_iff_toNat_lt, toNat_varIntHead hk, toNat_mask hk]

/-- After a first byte of ones the loop starts, and gets as far as the last
byte of the integer or gives up. -/
theorem readVarInt_of_long (hk : k ≤ 8) {b : UInt8} (hb : ¬ b.toNat % 2 ^ k < 2 ^ k - 1)
    {init : Bytes} (hinit : ∀ c ∈ init, 128 ≤ c.toNat) (p : Bytes) :
    readVarInt (ofNat k) (b :: (init ++ p)) =
      if 8 < init.length then .fail errVarintOverflow
      else readVarIntLoop (ofNat (2 ^ k - 1 + varIntTail init)) (ofNat (7 * init.length)) p := by
  have hhead : varIntHead (ofNat k) b = ofNat (2 ^ k - 1) := by
    apply UInt64.toNat_inj.mp
    have hmask := toNat_mask hk ▸ ((1 : UInt64) <<< ofNat k - 1).toNat_lt
    rw [toNat_varIntHead hk, toNat_ofNat', Nat.mod_eq_of_lt hmask]
    omega
  have hloop := readVarIntLoop_append hinit (ofNat (2 ^ k - 1)) (Nat.zero_le 8) p
  rw [Nat.zero_add, Nat.pow_zero, Nat.mul_one, ← UInt64.ofNat_add] at hloop
  rw [readVarInt_cons, if_neg, hhead]
  · exact hloop
  · rwa [lt_iff_toNat_lt, toNat_varIntHead hk, toNat_mask hk]

/-- The last byte of an integer ends the loop. -/
theorem readVarIntLoop_last {last : UInt8} (hlast : last.toNat < 128) {init : Bytes}
    (hlen : init.length ≤ 8) (n : Nat) (rest : Bytes) :
    readVarIntLoop (ofNat (n + varIntTail init)) (ofNat (7 * init.length)) (last :: rest) =
      .ok (ofNat (n + varIntTail (init ++ [last]))) rest := by
  rw [readVarIntLoop_cons, if_pos ((and_128_eq_zero_iff last).mpr hlast),
    shiftLeft_eq_ofNat last hlen, ← UInt64.ofNat_add, varIntTail_append, varIntTail, varIntTail,
    Nat.mul_zero, Nat.add_zero, Nat.add_assoc]

/-- An integer of at most ten bytes is read, a longer one is refused. -/
theorem readVarInt_varInt (hk : k ≤ 8) {c : Bytes} {n : Nat} (h : VarInt k c n) (rest : Bytes) :
    readVarInt (ofNat k) (c ++ rest) =
      if c.length ≤ 10 then .ok (ofNat n) rest else .fail errVarintOverflow := by
  cases h with
  | @short b hb =>
    have hhead : varIntHead (ofNat k) b = ofNat (b.toNat % 2 ^ k) := by
      rw [← toNat_varIntHead hk, UInt64.ofNat_toNat]
    rw [if_pos (by simp), List.singleton_append, readVarInt_of_short hk hb, hhead]
  | @long b init last hb hinit hlast =>
    rw [cons_append, append_assoc, readVarInt_of_long hk (by omega) hinit, List.length_cons,
      List.length_append, List.length_singleton]
    by_cases hlen : 8 < init.length
    · rw [if_pos hlen, if_neg (by omega)]
    · rw [if_neg hlen, if_pos (by omega)]
      exact readVarIntLoop_last hlast (by omega) _ rest

/-- Bytes split where the continuation bit is missing for the first time. -/
theorem exists_continuation (p : Bytes) :
    ∃ init q, p = init ++ q ∧ (∀ c ∈ init, 128 ≤ c.toNat) ∧ ∀ c ∈ q.head?, c.toNat < 128 := by
  induction p with
  | nil => exact ⟨[], [], rfl, by simp, by simp⟩
  | cons b p ih =>
    by_cases hb : 128 ≤ b.toNat
    · obtain ⟨init, q, rfl, hinit, hq⟩ := ih
      exact ⟨b :: init, q, rfl, by simpa [hb] using hinit, hq⟩
    · exact ⟨[], b :: p, rfl, by simp, by simpa using hb⟩

/-- What `readVarInt` accepts is an integer, and its value does not wrap. -/
theorem exists_varInt (hk : k ≤ 8) {p rest : Bytes} (h : readVarInt (ofNat k) p = .ok i rest) :
    ∃ c, p = c ++ rest ∧ VarInt k c i.toNat := by
  obtain _ | ⟨b, p⟩ := p
  · cases h
  by_cases hb : b.toNat % 2 ^ k < 2 ^ k - 1
  · rw [readVarInt_of_short hk hb] at h
    obtain ⟨rfl, rfl⟩ := Read.ok.inj h
    exact ⟨[b], rfl, toNat_varIntHead hk b ▸ .short hb⟩
  obtain ⟨init, q, rfl, hinit, hq⟩ := exists_continuation p
  rw [readVarInt_of_long hk hb hinit] at h
  by_cases hlen : 8 < init.length
  · rw [if_pos hlen] at h
    cases h
  rw [if_neg hlen] at h
  obtain _ | ⟨last, q⟩ := q
  · cases h
  have hlast := hq last rfl
  rw [readVarIntLoop_last hlast (by omega)] at h
  obtain ⟨rfl, rfl⟩ := Read.ok.inj h
  have hmask : 2 ^ k ≤ 2 ^ 8 := Nat.pow_le_pow_right (by decide) hk
  have htail := varIntTail_lt (init ++ [last])
  have hpow : 128 ^ (init ++ [last]).length ≤ 128 ^ 9 :=
    Nat.pow_le_pow_right (by decide) (by simp; omega)
  refine ⟨b :: (init ++ [last]), by simp, ?_⟩
  rw [toNat_ofNat', Nat.mod_eq_of_lt (by omega)]
  exact .long (by omega) hinit hlast

/-- `appendVarInt` writes an integer, in at most ten bytes unless it is too
large. -/
theorem varInt_appendVarInt (hk : k ≤ 8) (i : UInt64) :
    VarInt k (appendVarInt [] (ofNat k) i) i.toNat ∧
      ((appendVarInt [] (ofNat k) i).length ≤ 10 ↔ i.toNat < 2 ^ 63 + 2 ^ k - 1) := by
  have hpos := Nat.two_pow_pos k
  have hpow : 2 ^ k ≤ 2 ^ 8 := Nat.pow_le_pow_right (by decide) hk
  have hmask := toNat_mask hk
  unfold appendVarInt
  by_cases hlt : i < (1 <<< ofNat k) - 1
  · simp only [if_pos hlt, nil_append]
    rw [lt_iff_toNat_lt, hmask] at hlt
    have hbyte : i.toUInt8.toNat % 2 ^ k = i.toNat := by
      rw [toNat_toUInt8, Nat.mod_eq_of_lt (by omega : i.toNat < 2 ^ 8), Nat.mod_eq_of_lt (by omega)]
    refine ⟨hbyte ▸ .short (by omega), ?_⟩
    simp
    omega
  · simp only [if_neg hlt, nil_append]
    generalize (1 : UInt64) <<< ofNat k - 1 = mask at hlt hmask
    have hle : mask ≤ i := UInt64.not_lt.mp hlt
    have hsub : (i - mask).toNat = i.toNat - (2 ^ k - 1) := by
      rw [UInt64.toNat_sub_of_le _ _ hle, hmask]
    rw [UInt64.le_iff_toNat_le, hmask] at hle
    obtain ⟨init, last, hbytes, hinit, hlast, hval, hmin⟩ := exists_appendVarIntLoop (i - mask)
    have htail := varIntTail_lt (init ++ [last])
    have hfirst : mask.toUInt8.toNat % 2 ^ k = 2 ^ k - 1 := by
      rw [toNat_toUInt8, hmask, Nat.mod_eq_of_lt (by omega : 2 ^ k - 1 < 2 ^ 8),
        Nat.mod_eq_of_lt (by omega)]
    have hvalue : 2 ^ k - 1 + varIntTail (init ++ [last]) = i.toNat := by omega
    rw [appendVarIntLoop_eq, hbytes, List.singleton_append]
    refine ⟨hvalue ▸ .long hfirst hinit hlast, ?_⟩
    rw [List.length_append, List.length_singleton] at htail
    rw [List.length_cons, List.length_append, List.length_singleton]
    by_cases hlen : init.length ≤ 8
    · have hle9 : 128 ^ (init.length + 1) ≤ 128 ^ 9 := Nat.pow_le_pow_right (by decide) (by omega)
      omega
    · have hge9 : 128 ^ 9 ≤ 128 ^ init.length := Nat.pow_le_pow_right (by decide) (by omega)
      omega

theorem VarInt.orAt {c : Bytes} {n : Nat} (h : VarInt k c n) (ht : t.toNat % 2 ^ k = 0) :
    VarInt k (orAt c 0 t) n := by
  have hor (b : UInt8) : (b ||| t).toNat % 2 ^ k = b.toNat % 2 ^ k := by
    rw [UInt8.toNat_or, Nat.or_mod_two_pow, ht, Nat.or_zero]
  cases h with
  | @short b hb => exact hor b ▸ .short (hor b ▸ hb)
  | @long b init last hb hinit hlast => exact .long (hor b ▸ hb) hinit hlast

theorem readVarInt_orAt (hk : k ≤ 8) (ht : t.toNat % 2 ^ k = 0) (i : UInt64) (rest : Bytes) :
    readVarInt (ofNat k) (orAt (appendVarInt [] (ofNat k) i) 0 t ++ rest) =
      if i.toNat < 2 ^ 63 + 2 ^ k - 1 then .ok i rest else .fail errVarintOverflow := by
  obtain ⟨hvar, hlen⟩ := varInt_appendVarInt hk i
  rw [readVarInt_varInt hk (hvar.orAt ht), Hpack.orAt, List.length_modify, UInt64.ofNat_toNat]
  exact if_congr hlen rfl rfl

/-- `readVarInt` reads what `appendVarInt` wrote, under any type bits. -/
theorem readVarInt_append (hk : k < 8) (ht : t.toNat % 2 ^ k = 0) (hi : i.toNat < 2 ^ 63)
    (rest : Bytes) :
    readVarInt (ofNat k) (orAt (appendVarInt [] (ofNat k) i) 0 t ++ rest) = .ok i rest := by
  rw [readVarInt_orAt hk.le ht, if_pos (by omega)]

theorem orAt_zero (i : Nat) : orAt dst i 0 = dst := by
  have hid : (fun b : UInt8 => b ||| 0) = id := by
    funext b
    exact UInt8.or_zero
  unfold orAt
  rw [hid, List.modify_id]

/-- The integers of HPACK.  What `appendVarInt` wrote is read back unless it
is too large.  What `readVarInt` accepts is the number that the bytes stand
for, and one byte less is too few. -/
theorem readVarInt_spec (hk : k ≤ 8) :
    (∀ dst i rest, readVarInt (ofNat k) ((appendVarInt dst (ofNat k) i).drop dst.length ++ rest) =
      if i.toNat < 2 ^ 63 + 2 ^ k - 1 then .ok i rest else .fail errVarintOverflow) ∧
    ∀ p i rest, readVarInt (ofNat k) p = .ok i rest →
      ∃ c, p = c ++ rest ∧ c ≠ [] ∧ VarInt k c i.toNat ∧
        ∀ c' d, c = c' ++ d → d ≠ [] → readVarInt (ofNat k) c' = .needMore := by
  constructor
  · intro dst i rest
    have hread := readVarInt_orAt hk (t := 0) (Nat.zero_mod _) i rest
    rw [orAt_zero] at hread
    rwa [appendVarInt_eq, List.drop_left]
  · intro p i rest h
    obtain ⟨c, rfl, hc⟩ := exists_varInt hk h
    refine ⟨c, rfl, ?_, hc, ?_⟩
    · rintro rfl
      cases hc
    rintro c' d rfl hd
    rw [append_assoc] at h
    exact (stable_readVarInt _).needMore h hd

/-- With five bits in the first byte, 1337 takes three bytes. -/
theorem readVarInt_1337 :
    readVarInt 5 (appendVarInt [] 5 1337 ++ [7]) = .ok 1337 [7] ∧
      ∃ c, [31, 154, 10, 7] = c ++ [7] ∧ VarInt 5 c 1337 := by
  have hspec := readVarInt_spec (k := 5) (by decide)
  obtain ⟨c, hc, -, hvar, -⟩ := hspec.2 [31, 154, 10, 7] 1337 [7] (by decide)
  exact ⟨hspec.1 [] 1337 [7], c, hc, hvar⟩

/-! ## Strings -/

/-- The length of a string on the wire, with the Huffman bit. -/
def stringHead (huff : Bool) (n : Nat) : Bytes :=
  orAt (appendVarInt [] 7 (ofNat n)) 0 (if huff then 0x80 else 0)

/-- A string is its head and its bytes, whatever stands before it. -/
theorem appendHpackString_eq (s : Bytes) :
    appendHpackString dst s =
      if huffmanEncodeLength s < s.length then
        dst ++ (stringHead true (huffmanEncodeLength s) ++ appendHuffmanString [] s)
      else dst ++ (stringHead false s.length ++ s) := by
  unfold appendHpackString
  by_cases hshort : huffmanEncodeLength s < s.length
  · simp only [if_pos hshort]
    obtain ⟨b, l, hbl, _⟩ := appendVarInt_head (k := 7) (by decide)
      (ofNat (huffmanEncodeLength s))
    have hbl' : appendVarInt [] 7 (ofNat (huffmanEncodeLength s)) = b :: l := hbl
    rw [appendHuffmanString_eq, appendVarInt_eq, hbl', append_assoc, cons_append,
      orAt_append, stringHead, hbl']
    rfl
  · simp only [if_neg hshort]
    rw [appendVarInt_eq, stringHead, if_neg (by decide), orAt_zero, append_assoc]

theorem appendHpackString_append (s : Bytes) :
    appendHpackString dst s = dst ++ appendHpackString [] s := by
  rw [appendHpackString_eq, appendHpackString_eq []]
  split <;> rw [nil_append]

/-- A length that the decoder takes. -/
def Decoder.Admits (d : Decoder) (len : Nat) : Prop :=
  d.maxStrLen = 0 ∨ (len : Int) ≤ d.maxStrLen ∧ d.maxStrLen < 2 ^ 64

theorem Decoder.Admits.mono {len len' : Nat} (h : d.Admits len) (hle : len' ≤ len) :
    d.Admits len' :=
  h.imp id fun ⟨hlen, hmax⟩ => ⟨by omega, hmax⟩

/-- The head of a string is read back, and tells the two kinds apart. -/
theorem readString_head (wantStr huff : Bool) {raw : Bytes} (hd : d.Admits raw.length)
    (hraw : raw.length < 2 ^ 63) (rest : Bytes) :
    readString d wantStr (stringHead huff raw.length ++ (raw ++ rest)) =
      .ofExcept (decodeString d wantStr huff raw) rest := by
  obtain ⟨b, l, hbl, hb⟩ := appendVarInt_head (k := 7) (by decide) (ofNat raw.length)
  have hbl' : appendVarInt [] 7 (ofNat raw.length) = b :: l := hbl
  have hlen : (ofNat raw.length).toNat = raw.length := by
    rw [toNat_ofNat', Nat.mod_eq_of_lt (by omega)]
  have ht : (if huff then 0x80 else 0 : UInt8).toNat % 2 ^ 7 = 0 := by
    cases huff <;> rfl
  have hread := readVarInt_append (by decide) ht (i := ofNat raw.length)
    (by rw [hlen]; exact hraw) (raw ++ rest)
  have hflag : ((b ||| (if huff then 0x80 else 0)) &&& 128 != 0) = huff := by
    cases huff with
    | false =>
      show ((b ||| 0) &&& 128 != 0) = false
      rw [UInt8.or_zero, (and_128_eq_zero_iff b).mpr hb]
      rfl
    | true =>
      exact forall_uint8 (P := fun b => ((b ||| 0x80) &&& 128 != 0) = true) (by decide +kernel) b
  have hhead : stringHead huff raw.length = (b ||| (if huff then 0x80 else 0)) :: l := by
    unfold stringHead
    rw [hbl']
    rfl
  have hlong : ¬ tooLong d (ofNat raw.length) := by
    rintro ⟨hne, hgt⟩
    rcases hd with hzero | ⟨hle, hmax⟩
    · exact hne hzero
    · omega
  have hread' : readVarInt 7 (stringHead huff raw.length ++ (raw ++ rest)) =
      .ok (ofNat raw.length) (raw ++ rest) := hread
  rw [hhead] at hread' ⊢
  unfold readString
  rw [cons_append, peek_cons, ← cons_append, hread']
  simp only [Read.bind_ok, if_neg hlong, hlen, hflag, readExactly_append rfl]

/-- A string that is wanted comes back. -/
theorem readString_append {s : Bytes} (hd : d.Admits s.length) (hs : s.length < 2 ^ 63)
    (rest : Bytes) : readString d true (appendHpackString [] s ++ rest) = .ok s rest := by
  rw [appendHpackString_eq]
  by_cases hshort : huffmanEncodeLength s < s.length
  · have hlen := length_appendHuffmanString s
    have hdecode : huffmanDecode 0 (appendHuffmanString [] s) = .ok s :=
      (huffmanDecode_eq_ok_iff _ s).mpr rfl
    have hlimit : huffmanDecode d.maxStrLen (appendHuffmanString [] s) = .ok s := by
      rcases hd with hzero | ⟨hle, -⟩
      · rw [hzero, hdecode]
      · exact huffmanDecode_of_le hdecode hle
    rw [if_pos hshort, nil_append, append_assoc, ← hlen,
      readString_head true true (hd.mono (by omega)) (by omega), decodeString, hlimit]
    rfl
  · rw [if_neg hshort, nil_append, append_assoc, readString_head true false hd hs]
    rfl

/-! ## Field representations -/

/-- The bits of the first byte that hold the name index of a literal. -/
def nameBits (indexing : Bool) : Nat := if indexing then 6 else 4

/-- The kind of literal that the decoder sees. -/
def indexTypeOf (indexing sensitive : Bool) : IndexType :=
  if sensitive then .indexedNever else if indexing then .indexedTrue else .indexedFalse

/-- A literal on the wire: the name index under the type bits, the name when the
index is zero, and the value. -/
def literalBytes (f : HeaderField) (i : UInt64) (indexing : Bool) : Bytes :=
  orAt (appendVarInt [] (ofNat (nameBits indexing)) i) 0
      (encodeTypeByte indexing f.sensitive) ++
    ((if i = 0 then appendHpackString [] f.name else []) ++ appendHpackString [] f.value)

theorem nameBits_lt (indexing : Bool) : nameBits indexing < 8 := by
  cases indexing <;> decide

theorem appendNewName_eq (f : HeaderField) (indexing : Bool) :
    appendNewName dst f indexing = dst ++ literalBytes f 0 indexing := by
  have hhead : orAt (appendVarInt [] (ofNat (nameBits indexing)) 0) 0
      (encodeTypeByte indexing f.sensitive) = [encodeTypeByte indexing f.sensitive] := by
    cases indexing <;> cases f.sensitive <;> rfl
  unfold appendNewName literalBytes
  rw [hhead, if_pos rfl]
  rw [appendHpackString_append, appendHpackString_append (dst ++ _), append_assoc, append_assoc]

theorem appendIndexedName_eq (f : HeaderField) (hi : i ≠ 0) (indexing : Bool) :
    appendIndexedName dst f i indexing = dst ++ literalBytes f i indexing := by
  have hbits : (if indexing then 6 else 4 : UInt64) = ofNat (nameBits indexing) := by
    cases indexing <;> rfl
  unfold appendIndexedName literalBytes
  simp only [hbits]
  rw [appendHpackString_append, orAt_appendVarInt (nameBits_lt indexing), if_neg hi,
    append_assoc, nil_append]

theorem appendIndexed_eq (i : UInt64) :
    appendIndexed dst i = dst ++ orAt (appendVarInt [] 7 i) 0 0x80 :=
  orAt_appendVarInt (k := 7) (by decide) dst i 0x80

theorem appendTableSize_eq (v : UInt32) :
    appendTableSize dst v = dst ++ orAt (appendVarInt [] 5 v.toUInt64) 0 0x20 :=
  orAt_appendVarInt (k := 5) (by decide) dst _ 0x20

namespace Decoder

variable {σ : Type} (emit : EmitFunc σ) {d : Decoder} (s : σ)

/-- The decoder after it has emitted `hf`. -/
def emitted (emit : EmitFunc σ) (d : Decoder) (s : σ) (hf : HeaderField) : Decoder × σ :=
  ({ d with emitEnabled := (emit s hf).2 }, (emit s hf).1)

theorem returnEmit_ok {hf : HeaderField} (hname : d.Admits hf.name.length)
    (hvalue : d.Admits hf.value.length) (he : d.emitEnabled = true) (rest : Bytes) :
    returnEmit emit d s hf rest = .ok (emitted emit d s hf) rest := by
  have hshort : ¬ (d.maxStrLen ≠ 0 ∧
      ((hf.name.length : Int) > d.maxStrLen ∨ (hf.value.length : Int) > d.maxStrLen)) := by
    rintro ⟨hne, hlong⟩
    have hle := (hname.resolve_left hne).1
    have hle' := (hvalue.resolve_left hne).1
    omega
  unfold returnEmit callEmit
  rw [if_neg hshort, if_pos he]
  rfl

variable {i : UInt64} {indexing : Bool} {f : HeaderField} {v : UInt32}

/-- An indexed field is looked up and emitted. -/
theorem parse_indexed (hi : i.toNat < 2 ^ 63) {g : HeaderField} (hg : d.at? i = some g)
    (rest : Bytes) :
    parseHeaderFieldRepr emit d s (orAt (appendVarInt [] 7 i) 0 0x80 ++ rest) =
      returnEmit emit d s { name := g.name, value := g.value } rest := by
  have hread : readVarInt 7 (orAt (appendVarInt [] 7 i) 0 0x80 ++ rest) = .ok i rest :=
    readVarInt_append (k := 7) (by decide) (by decide) hi rest
  obtain ⟨b, l, hbl, hb⟩ := appendVarInt_head (k := 7) (by decide) i
  have hhead : orAt (appendVarInt [] 7 i) 0 0x80 = (b ||| 0x80) :: l := by
    rw [show appendVarInt [] 7 i = b :: l from hbl]
    rfl
  have hkind : (b ||| 0x80) &&& 128 ≠ 0 :=
    forall_uint8 (P := fun b => (b ||| 0x80) &&& 128 ≠ 0) (by decide +kernel) b
  rw [hhead] at hread ⊢
  unfold parseHeaderFieldRepr
  rw [cons_append, peek_cons, if_pos hkind, ← cons_append]
  unfold parseFieldIndexed
  rw [hread]
  simp only [Read.mapErr_ok, Read.bind_ok, hg]

/-- The type bits of a literal choose the parse function. -/
theorem parse_literal_kind {sensitive : Bool} (h : ¬ (indexing ∧ sensitive)) {b : UInt8}
    (hb : b.toNat < 2 ^ nameBits indexing) (l : Bytes) :
    parseHeaderFieldRepr emit d s ((b ||| encodeTypeByte indexing sensitive) :: l) =
      parseFieldLiteral (ofNat (nameBits indexing)) (indexTypeOf indexing sensitive)
        emit d s ((b ||| encodeTypeByte indexing sensitive) :: l) := by
  unfold parseHeaderFieldRepr
  rw [peek_cons]
  cases indexing with
  | true =>
    cases sensitive with
    | true => exact absurd ⟨rfl, rfl⟩ h
    | false =>
      have hkind := forall_uint8 (P := fun b => b.toNat < 2 ^ 6 →
        (b ||| encodeTypeByte true false) &&& 128 = 0 ∧
          (b ||| encodeTypeByte true false) &&& 192 = 64) (by decide +kernel) b hb
      rw [if_neg (not_not_intro hkind.1), if_pos hkind.2]
      rfl
  | false =>
    cases sensitive with
    | true =>
      have hkind := forall_uint8 (P := fun b => b.toNat < 2 ^ 4 →
        (b ||| encodeTypeByte false true) &&& 128 = 0 ∧
          (b ||| encodeTypeByte false true) &&& 192 ≠ 64 ∧
          (b ||| encodeTypeByte false true) &&& 240 ≠ 0 ∧
          (b ||| encodeTypeByte false true) &&& 240 = 16) (by decide +kernel) b hb
      rw [if_neg (not_not_intro hkind.1), if_neg hkind.2.1, if_neg hkind.2.2.1,
        if_pos hkind.2.2.2]
      rfl
    | false =>
      have hkind := forall_uint8 (P := fun b => b.toNat < 2 ^ 4 →
        (b ||| encodeTypeByte false false) &&& 128 = 0 ∧
          (b ||| encodeTypeByte false false) &&& 192 ≠ 64 ∧
          (b ||| encodeTypeByte false false) &&& 240 = 0) (by decide +kernel) b hb
      rw [if_neg (not_not_intro hkind.1), if_neg hkind.2.1, if_pos hkind.2.2]
      rfl

/-- The decoder after a literal of `f` was read, before it is emitted. -/
def literalRead (d : Decoder) (f : HeaderField) (indexing : Bool) : Decoder :=
  if indexing then { d with dynTab := d.dynTab.add f } else d

/-- The name of a literal is read, by its index or as a string. -/
theorem readName_append (hd : d.Admits f.name.length) (hlen : f.name.length < 2 ^ 63)
    (hi : i ≠ 0 → ∃ g, d.at? i = some g ∧ g.name = f.name) (rest : Bytes) :
    readName d true i ((if i = 0 then appendHpackString [] f.name else []) ++ rest) =
      .ok f.name rest := by
  unfold readName
  by_cases hzero : i = 0
  · subst hzero
    rw [if_neg (UInt64.lt_irrefl 0), if_pos rfl, readString_append hd hlen]
  · obtain ⟨g, hg, hname⟩ := hi hzero
    rw [if_pos (UInt64.pos_iff_ne_zero.mpr hzero), if_neg hzero, hg, ← hname]
    rfl

/-- A literal is read, put into the table when it is indexed, and emitted. -/
theorem parse_literal (he : d.emitEnabled = true) (hdname : d.Admits f.name.length)
    (hdvalue : d.Admits f.value.length) (hkind : indexing = true → f.sensitive = false)
    (hname : f.name.length < 2 ^ 63) (hvalue : f.value.length < 2 ^ 63) (hi63 : i.toNat < 2 ^ 63)
    (hi : i ≠ 0 → ∃ g, d.at? i = some g ∧ g.name = f.name) (rest : Bytes) :
    parseHeaderFieldRepr emit d s (literalBytes f i indexing ++ rest) =
      returnEmit emit (literalRead d f indexing) s f rest := by
  obtain ⟨b, l, hbl, hb⟩ := appendVarInt_head (nameBits_lt indexing) i
  have hboth : ¬ (indexing ∧ f.sensitive) := by
    intro h
    rw [hkind h.1] at h
    exact Bool.false_ne_true h.2
  have ht : (encodeTypeByte indexing f.sensitive).toNat % 2 ^ nameBits indexing = 0 := by
    cases indexing with
    | true =>
      rw [hkind rfl]
      rfl
    | false => cases f.sensitive <;> rfl
  have hread := readVarInt_append (nameBits_lt indexing) ht hi63
    ((if i = 0 then appendHpackString [] f.name else []) ++ (appendHpackString [] f.value ++ rest))
  have hbytes : literalBytes f i indexing ++ rest =
      (b ||| encodeTypeByte indexing f.sensitive) :: (l ++
        ((if i = 0 then appendHpackString [] f.name else []) ++
          (appendHpackString [] f.value ++ rest))) := by
    unfold literalBytes
    rw [hbl, append_assoc, append_assoc]
    rfl
  rw [hbl] at hread
  have hread' : readVarInt (ofNat (nameBits indexing))
      ((b ||| encodeTypeByte indexing f.sensitive) :: (l ++
        ((if i = 0 then appendHpackString [] f.name else []) ++
          (appendHpackString [] f.value ++ rest)))) = .ok i
        ((if i = 0 then appendHpackString [] f.name else []) ++
          (appendHpackString [] f.value ++ rest)) := hread
  rw [hbytes, parse_literal_kind emit s hboth hb]
  unfold parseFieldLiteral
  have hwant : (d.emitEnabled || (indexTypeOf indexing f.sensitive).indexed) = true := by
    rw [he, Bool.true_or]
  simp only [hwant, hread', Read.mapErr_ok, Read.bind_ok,
    readName_append hdname hname hi, readString_append hdvalue hvalue]
  obtain ⟨name, value, sensitive⟩ := f
  cases indexing with
  | true =>
    cases hkind rfl
    rfl
  | false => cases sensitive <;> rfl

/-- The type bits of a size update. -/
theorem parse_tableSize_kind (v : UInt32) (rest : Bytes) :
    parseHeaderFieldRepr emit d s (orAt (appendVarInt [] 5 v.toUInt64) 0 0x20 ++ rest) =
      parseDynamicTableSizeUpdate d s (orAt (appendVarInt [] 5 v.toUInt64) 0 0x20 ++ rest) := by
  obtain ⟨b, l, hbl, hb⟩ := appendVarInt_head (k := 5) (by decide) v.toUInt64
  have hhead : orAt (appendVarInt [] 5 v.toUInt64) 0 0x20 = (b ||| 0x20) :: l := by
    rw [show appendVarInt [] 5 v.toUInt64 = b :: l from hbl]
    rfl
  have hkind := forall_uint8 (P := fun b => b.toNat < 2 ^ 5 →
    (b ||| 0x20) &&& 128 = 0 ∧ (b ||| 0x20) &&& 192 ≠ 64 ∧ (b ||| 0x20) &&& 240 ≠ 0 ∧
      (b ||| 0x20) &&& 240 ≠ 16 ∧ (b ||| 0x20) &&& 224 = 32) (by decide +kernel) b hb
  rw [hhead, cons_append]
  unfold parseHeaderFieldRepr
  rw [peek_cons, if_neg (not_not_intro hkind.1), if_neg hkind.2.1, if_neg hkind.2.2.1,
    if_neg hkind.2.2.2.1, if_pos hkind.2.2.2.2]

/-- A size update at the beginning of a block, or on an empty table. -/
theorem parse_tableSize (hfirst : d.firstField = true ∨ d.dynTab.size = 0)
    (hv : v ≤ d.dynTab.allowedMaxSize) (rest : Bytes) :
    parseHeaderFieldRepr emit d s (orAt (appendVarInt [] 5 v.toUInt64) 0 0x20 ++ rest) =
      .ok ({ d with dynTab := d.dynTab.setMaxSize v }, s) rest := by
  have hread : readVarInt 5 (orAt (appendVarInt [] 5 v.toUInt64) 0 0x20 ++ rest) =
      .ok v.toUInt64 rest := by
    refine readVarInt_append (k := 5) (by decide) (by decide) ?_ rest
    exact Nat.lt_trans v.toNat_lt (by decide)
  have hearly : ¬ (¬ d.firstField ∧ d.dynTab.size > 0) := by
    intro h
    rcases hfirst with hfirst | hsize
    · exact h.1 hfirst
    · rw [hsize] at h
      exact UInt32.lt_irrefl 0 h.2
  have hallowed : ¬ v.toUInt64 > d.dynTab.allowedMaxSize.toUInt64 := by
    rw [gt_iff_lt, lt_iff_toNat_lt, UInt32.toNat_toUInt64, UInt32.toNat_toUInt64]
    rw [UInt32.le_iff_toNat_le] at hv
    omega
  rw [parse_tableSize_kind]
  unfold parseDynamicTableSizeUpdate
  rw [if_neg hearly, hread]
  simp only [Read.mapErr_ok, Read.bind_ok, if_neg hallowed, UInt32.toUInt32_toUInt64]

/-- A size update behind other representations, while the table is not empty. -/
theorem parse_tableSize_late (hfirst : d.firstField = false) (hsize : d.dynTab.size > 0)
    (rest : Bytes) :
    parseHeaderFieldRepr emit d s (orAt (appendVarInt [] 5 v.toUInt64) 0 0x20 ++ rest) =
      .fail (.decodingError
        "dynamic table size update MUST occur at the beginning of a header block", (d, s)) := by
  have hlate : ¬ d.firstField ∧ d.dynTab.size > 0 := by
    rw [hfirst]
    exact ⟨Bool.false_ne_true, hsize⟩
  rw [parse_tableSize_kind]
  unfold parseDynamicTableSizeUpdate
  rw [if_pos hlate]

end Decoder

end Fhttp.Hpack
