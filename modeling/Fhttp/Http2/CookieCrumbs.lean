import Mathlib.Data.List.TakeWhile
import Fhttp.Http2.PseudoOrder
import Fhttp.Http2.ServerRequest

/-!
# Cookie crumbs

The client splits the values of `Cookie` at every `;` into fields of their own, and the
server joins the fields with `"; "`.  `cookies_joined` says what the handler gets for the
values that the request had: the spaces after a `;` are one space, and a `;` at the end of
a value is dropped with its spaces.  A value that is empty leaves nothing, not even a
separator (`empty_cookie_dropped`).
-/

namespace Fhttp.Http2

open Hpack (Bytes HeaderField ascii)
open Http (Runtime lowerAscii isAscii)
open List

/-! ## The crumbs of one value -/

/-- A value with one space after every `;`, and without a `;` at its end.  `after` tells that
the spaces in front belong to a `;` before. -/
def normaliseSpaces (after : Bool) : Bytes → Bytes
  | [] => []
  | b :: v =>
    if b = 0x3b then if v.all (· == 0x20) then [] else ascii "; " ++ normaliseSpaces true v
    else if after && b == 0x20 then normaliseSpaces true v
    else b :: normaliseSpaces false v

theorem joinCookies_cons (v : Bytes) (vs : List Bytes) :
    joinCookies (v :: vs) = v ++ if vs = [] then [] else ascii "; " ++ joinCookies vs := by
  cases vs with
  | nil => exact (append_nil v).symm
  | cons w ws =>
    rw [if_neg (cons_ne_nil w ws), ← append_assoc]
    rfl

theorem joinCookies_append {vs : List Bytes} (hvs : vs ≠ []) (ws : List Bytes) :
    joinCookies (vs ++ ws) =
      joinCookies vs ++ if ws = [] then [] else ascii "; " ++ joinCookies ws := by
  induction vs with
  | nil => exact absurd rfl hvs
  | cons v vs ih =>
    rw [cons_append, joinCookies_cons, joinCookies_cons]
    by_cases hnil : vs = []
    · rw [hnil, nil_append, if_pos rfl, append_nil]
    · rw [if_neg hnil, if_neg fun h => hnil (append_eq_nil_iff.mp h).1, ih hnil]
      simp only [append_assoc]

/-- The spaces behind a `;` are skipped. -/
theorem normaliseSpaces_true (v : Bytes) :
    normaliseSpaces true v = normaliseSpaces false (v.dropWhile (· == 0x20)) := by
  induction v with
  | nil => rfl
  | cons b v ih =>
    by_cases hb : b = 0x20
    · rw [dropWhile_cons_of_pos (by rw [hb]; decide), ← ih, hb]
      rfl
    · rw [dropWhile_cons_of_neg (by rwa [beq_iff_eq]), normaliseSpaces, normaliseSpaces,
        beq_false_of_ne hb]
      rfl

/-- The first `;` of a value. -/
theorem normaliseSpaces_append {a : Bytes} (ha : 0x3b ∉ a) (v : Bytes) :
    normaliseSpaces false (a ++ v) = a ++ normaliseSpaces false v := by
  induction a with
  | nil => rfl
  | cons b a ih =>
    rw [mem_cons, not_or] at ha
    rw [cons_append, normaliseSpaces, if_neg (Ne.symm ha.1), Bool.false_and,
      if_neg Bool.false_ne_true, ih ha.2, cons_append]

/-- The part of a value before its first `;`, and the part behind. -/
theorem split_of_idxOf? {v : Bytes} {p : Nat} (h : v.idxOf? 0x3b = some p) :
    0x3b ∉ v.take p ∧ v = v.take p ++ 0x3b :: v.drop (p + 1) := by
  obtain ⟨hp, heq, hfirst⟩ := idxOf?_eq_some_iff.mp h
  refine ⟨fun hmem => ?_, ?_⟩
  · obtain ⟨i, hi, hget⟩ := mem_take_iff_getElem.mp hmem
    exact hfirst i (by omega) (by rw [hget])
  · rw [← heq, ← drop_eq_getElem_cons hp, take_append_drop]

theorem cookieCrumbs_eq_nil {v : Bytes} : cookieCrumbs v = [] ↔ v = [] := by
  fun_cases cookieCrumbs v with
  | case1 hnone hlen => simp [length_pos_iff.mp hlen]
  | case2 hnone hlen => simp [length_eq_zero_iff.mp (Nat.eq_zero_of_not_pos hlen)]
  | case3 p hsome =>
    refine iff_of_false (cons_ne_nil _ _) ?_
    rintro rfl
    cases hsome

theorem joinCookies_cookieCrumbs (v : Bytes) :
    joinCookies (cookieCrumbs v) = normaliseSpaces false v := by
  fun_induction cookieCrumbs v with
  | case1 v hnone =>
    have hmem : 0x3b ∉ v := idxOf?_eq_none_iff.mp hnone
    have hself := normaliseSpaces_append hmem []
    rw [append_nil, normaliseSpaces, append_nil] at hself
    exact hself.symm
  | case2 v _ hlen =>
    rw [length_eq_zero_iff.mp (Nat.eq_zero_of_not_pos hlen)]
    rfl
  | case3 v p hsome ih =>
    obtain ⟨hmem, hsplit⟩ := split_of_idxOf? hsome
    have hall : ((v.drop (p + 1)).all (· == 0x20)) = true ↔
        (v.drop (p + 1)).dropWhile (· == 0x20) = [] := by
      rw [dropWhile_eq_nil_iff, all_eq_true]
    conv => rhs; rw [hsplit, normaliseSpaces_append hmem, normaliseSpaces, if_pos rfl]
    rw [joinCookies_cons, ih, normaliseSpaces_true]
    simp only [cookieCrumbs_eq_nil, hall]

/-- A crumb has no `;`. -/
theorem not_mem_of_mem_cookieCrumbs {v c : Bytes} (hc : c ∈ cookieCrumbs v) : 0x3b ∉ c := by
  fun_induction cookieCrumbs v with
  | case1 v hnone =>
    rw [mem_singleton.mp hc]
    exact idxOf?_eq_none_iff.mp hnone
  | case2 => cases hc
  | case3 v p hsome ih =>
    rcases mem_cons.mp hc with rfl | hc
    · exact (split_of_idxOf? hsome).1
    · exact ih hc

/-- The values one after another, of which the empty ones leave nothing. -/
theorem joinCookies_flatMap (values : List Bytes) :
    joinCookies (values.flatMap cookieCrumbs) =
      joinCookies ((values.filter (· ≠ [])).map (normaliseSpaces false)) := by
  induction values with
  | nil => rfl
  | cons v vs ih =>
    rw [flatMap_cons]
    by_cases hv : v = []
    · rw [cookieCrumbs_eq_nil.mpr hv, nil_append, ih, filter_cons_of_neg (by simpa using hv)]
    · have hnil : vs.flatMap cookieCrumbs = [] ↔
          (vs.filter (· ≠ [])).map (normaliseSpaces false) = [] := by
        simp [cookieCrumbs_eq_nil]
      rw [joinCookies_append (mt cookieCrumbs_eq_nil.mp hv), ih, joinCookies_cookieCrumbs,
        filter_cons_of_pos (by simpa using hv), map_cons, joinCookies_cons]
      simp only [hnil]

/-! ## The fields of a request -/

variable {rt : Runtime}

/-- The fields for the key `Cookie` are the crumbs of its values. -/
theorem keyWritten_cookie {key : Bytes} (hk : isAscii key = true)
    (hkey : lowerAscii key = ascii "cookie") (values : List Bytes) :
    keyWritten rt (key, values) =
      (values.flatMap cookieCrumbs).map fun v => { name := ascii "cookie", value := v } := by
  have hfold {t : Bytes} (ht : t ∈ specialKeys) : rt.equalFold key t = (ascii "cookie" == t) := by
    have hk : isAscii (key, values).1 = true := hk
    rw [← hkey]
    exact equalFold_special hk ht
  have hfields : (keyFields rt (key, values)).1 =
      (values.flatMap cookieCrumbs).map fun v => (ascii "cookie", v) := by
    unfold keyFields
    simp (disch := decide) only [hfold]
    split
    · rename_i hlen
      rw [length_eq_zero_iff.mp hlen]
      rfl
    · rfl
  have hmagic : (!isMagicKey (ascii "cookie")) = true := by decide
  have hlower : rt.toLower (ascii "cookie") = ascii "cookie" := by
    rw [rt.toLower_ascii _ (by decide)]
    decide
  unfold keyWritten
  rw [hfields, filter_eq_self.mpr fun f hf => ?_, map_map]
  · exact map_congr_left fun v _ => by simp [hlower]
  · obtain ⟨v, -, rfl⟩ := mem_map.mp hf
    exact hmagic

/-- What a handler gets for the cookies of a request. -/
theorem first_requestHeader (rp : RequestParam) :
    rp.requestHeader.first (ascii "Cookie") = joinCookies (rp.header.get (ascii "Cookie")) := by
  have hdel : ∀ (h : Header) (k : Bytes), ascii "Cookie" ≠ k →
      (h.del k).get (ascii "Cookie") = h.get (ascii "Cookie") := by
    intro h k hk
    exact Header.get_filter fun kv hkv => bne_iff_ne.mpr (hkv ▸ hk)
  have hexpect : (if rp.header.first (ascii "Expect") = ascii "100-continue"
      then rp.header.del (ascii "Expect") else rp.header).get (ascii "Cookie") =
        rp.header.get (ascii "Cookie") := by
    split
    · exact hdel _ _ (by decide)
    · rfl
  rw [Header.first]
  unfold RequestParam.requestHeader
  rw [hdel _ _ (by decide), hexpect]
  split
  · rw [Header.get_set, if_pos rfl]
    rfl
  · rename_i hlen
    rw [hexpect]
    rcases hvalues : rp.header.get (ascii "Cookie") with _ | ⟨v, _ | ⟨w, vs⟩⟩
    · rfl
    · rfl
    · rw [hvalues] at hlen
      exact absurd (by simp) hlen

/-- For all values of the key `Cookie`: the fields that are written for it have no `;`, and the
server joins them to the values that are not empty, with one space after each `;`. -/
theorem cookies_joined {key : Bytes} (hk : isAscii key = true)
    (hkey : lowerAscii key = ascii "cookie") (values : List Bytes) {rp : RequestParam}
    (hrp : rp.header.get (ascii "Cookie") = (keyWritten rt (key, values)).map HeaderField.value) :
    (∀ f ∈ keyWritten rt (key, values), f.name = ascii "cookie" ∧ 0x3b ∉ f.value) ∧
      rp.requestHeader.first (ascii "Cookie") =
        joinCookies ((values.filter (· ≠ [])).map (normaliseSpaces false)) := by
  rw [keyWritten_cookie hk hkey, map_map] at hrp
  rw [keyWritten_cookie hk hkey, first_requestHeader, hrp]
  refine ⟨fun f hf => ?_, ?_⟩
  · obtain ⟨c, hc, rfl⟩ := mem_map.mp hf
    obtain ⟨v, -, hv⟩ := mem_flatMap.mp hc
    exact ⟨rfl, not_mem_of_mem_cookieCrumbs hv⟩
  · rw [← joinCookies_flatMap]
    exact congrArg joinCookies (map_id _)

theorem cookies_joined_two :
    ∃ rp : RequestParam, rp.requestHeader.first (ascii "Cookie") = ascii "a=1; b=2; c" ∧
      rp.header.get (ascii "Cookie") =
        (keyWritten .plain (ascii "Cookie", [ascii "a=1;b=2;", [], ascii "c"])).map
          HeaderField.value := by
  let rp : RequestParam :=
    { method := [], scheme := [], authority := [], path := [], protocol := []
      header := [(ascii "Cookie", [ascii "a=1", ascii "b=2", ascii "c"])] }
  have hrp : rp.header.get (ascii "Cookie") =
      (keyWritten .plain (ascii "Cookie", [ascii "a=1;b=2;", [], ascii "c"])).map
        HeaderField.value := by decide +kernel
  refine ⟨rp, ?_, hrp⟩
  rw [(cookies_joined (by decide) (by decide) _ hrp).2]
  decide

/-- The first of two values is empty.  Nothing is left of it, and the values joined begin with
a separator. -/
theorem empty_cookie_dropped :
    joinCookies ((keyWritten .plain (ascii "Cookie", [[], ascii "a"])).map HeaderField.value) =
        ascii "a" ∧
      normaliseSpaces false (joinCookies [[], ascii "a"]) = ascii "; a" := by
  decide +kernel

end Fhttp.Http2
