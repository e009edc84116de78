import Fhttp.Http.Header

/-!
# Reading cookies

What `cookie.go` does to read the cookies of a request, and those that a response sets.
`ReadCookies` takes the parts of each `Cookie` line one after another, up to the next semicolon.
`cookiesOf` is what it is meant to compute: the line is split at every semicolon, and every
piece is judged on its own.

A semicolon at the front of what is left of a line does not split it (the source tests
`splitIndex > 0`).  So an empty piece hides the cookies behind it, and the two agree exactly when
there are none.
-/

namespace Fhttp.Http.Cookies

open Hpack (Bytes ascii)
open Http2 (Header HttpGuts isSpace trimString)
open List

/-! ## The source -/

/-- A `Cookie`, without its attributes. -/
structure Cookie where
  name : Bytes
  value : Bytes
  quoted : Bool
deriving DecidableEq

def validCookieValueByte (b : UInt8) : Bool :=
  0x20 ≤ b && b < 0x7f && b != 0x3b && b != 0x5c

/-- `parseCookieValue` with double quotes allowed: the value, and whether it was quoted. -/
def parseCookieValue (raw : Bytes) : Option (Bytes × Bool) :=
  let quoted := raw.length > 1 && raw.head? == some 0x22 && raw.getLast? == some 0x22
  let raw := if quoted then raw.tail.dropLast else raw
  if raw.all validCookieValueByte then some (raw, quoted) else none

/-- A name is made of the characters of a token.  A character beyond ASCII is none, and neither
are its bytes. -/
def isCookieNameValid (g : HttpGuts) (raw : Bytes) : Bool := !raw.isEmpty && raw.all g.isTokenByte

/-- The cookie in one part of a line, if the filter lets it through.  A name needs no equals
sign. -/
def readCookie (g : HttpGuts) (filter part : Bytes) : Option Cookie :=
  let name := part.takeWhile (· != 0x3d)
  let val := part.drop (name.length + 1)
  if !isCookieNameValid g name then none
  else if filter ≠ [] ∧ filter ≠ name then none
  else (parseCookieValue val).map fun (value, quoted) => { name, value, quoted }

/-- The parts of a line of `Cookie`.  A semicolon at the start of what is left does not split. -/
def cookieParts : Nat → Bytes → List Bytes
  | 0, _ => []
  | fuel + 1, line =>
    if line = [] then []
    else
      let part := line.takeWhile (· != 0x3b)
      if part ≠ [] ∧ part.length < line.length then
        part :: cookieParts fuel (line.drop (part.length + 1))
      else [line]

/-- `ReadCookies`. -/
def readCookies (g : HttpGuts) (h : Header) (filter : Bytes) : List Cookie :=
  (h.get (ascii "Cookie")).flatMap fun line =>
    let line := trimString line
    ((cookieParts line.length line).map trimString).filterMap fun part =>
      if part = [] then none else readCookie g filter part

/-- `readSetCookies`, up to the attributes. -/
def readSetCookies (g : HttpGuts) (h : Header) : List Cookie :=
  (h.get (ascii "Set-Cookie")).filterMap fun line =>
    let part := trimString ((trimString line).takeWhile (· != 0x3b))
    if part.contains 0x3d then readCookie g [] part else none

/-! ## The meaning -/

/-- The pieces of a line between semicolons. -/
def pieces (line : Bytes) : List Bytes := (line.splitOn 0x3b).map trimString

/-- The cookies of a line: those of its pieces. -/
def cookiesOf (g : HttpGuts) (filter line : Bytes) : List Cookie :=
  (pieces line).filterMap (readCookie g filter)

/-- The pieces of a trimmed line from the first empty one on. -/
def hidden (line : Bytes) : List Bytes :=
  (((trimString line).splitOn 0x3b).dropWhile (· ≠ [])).map trimString

/-! ## Blanks -/

variable {line ws : Bytes}

section

variable (hws : ∀ b ∈ ws, isSpace b = true)

include hws

theorem trimString_append_left (s : Bytes) : trimString (ws ++ s) = trimString s :=
  congrArg (fun s => (s.reverse.dropWhile isSpace).reverse) (dropWhile_append_of_pos hws)

theorem trimString_append_right (s : Bytes) : trimString (s ++ ws) = trimString s := by
  show (((s ++ ws).dropWhile isSpace).reverse.dropWhile isSpace).reverse =
    ((s.dropWhile isSpace).reverse.dropWhile isSpace).reverse
  rw [dropWhile_append]
  split
  · rename_i hnil
    have hblank : (ws ++ []).dropWhile isSpace = [] := dropWhile_append_of_pos hws
    rw [append_nil] at hblank
    rw [hblank, isEmpty_iff.mp hnil]
  · rw [reverse_append, dropWhile_append_of_pos fun b hb => hws b (mem_reverse.mp hb)]

theorem not_mem_spaces : 0x3b ∉ ws := fun hmem => absurd (hws _ hmem) (by decide)

theorem pieces_append_left (s : Bytes) : pieces (ws ++ s) = pieces s := by
  unfold pieces
  by_cases hs : 0x3b ∈ s
  · obtain ⟨first, rest, rfl, hfirst⟩ := eq_append_cons_of_mem hs
    rw [← append_assoc, splitOn_append_cons_self_of_not_mem hfirst,
      splitOn_append_cons_self_of_not_mem (not_mem_append (not_mem_spaces hws) hfirst),
      map_cons, map_cons, trimString_append_left hws]
  · rw [splitOn_eq_singleton hs, splitOn_eq_singleton (not_mem_append (not_mem_spaces hws) hs),
      map_singleton, map_singleton, trimString_append_left hws]

theorem pieces_append_right (s : Bytes) : pieces (s ++ ws) = pieces s := by
  unfold pieces
  by_cases hs : 0x3b ∈ s
  · obtain ⟨last, rest, hsplit, hlast⟩ := eq_append_cons_of_mem (mem_reverse.mpr hs)
    obtain rfl : s = rest.reverse ++ 0x3b :: last.reverse := by
      rw [← reverse_reverse s, hsplit, reverse_append, reverse_cons, append_assoc]
      rfl
    have hlast' : 0x3b ∉ last.reverse := mt mem_reverse.mp hlast
    rw [append_assoc, cons_append, splitOn_append_cons_self, splitOn_append_cons_self,
      splitOn_eq_singleton hlast', map_append, map_append,
      splitOn_eq_singleton (not_mem_append hlast' (not_mem_spaces hws)),
      map_singleton, map_singleton, trimString_append_right hws]
  · rw [splitOn_eq_singleton hs, splitOn_eq_singleton (not_mem_append hs (not_mem_spaces hws)),
      map_singleton, map_singleton, trimString_append_right hws]

end

/-- The blanks around a line do not matter. -/
theorem pieces_trimString (line : Bytes) : pieces (trimString line) = pieces line := by
  have hall (s : Bytes) : ∀ b ∈ s.takeWhile isSpace, isSpace b = true :=
    all_eq_true.mp all_takeWhile
  obtain ⟨rest, hrest⟩ : ∃ rest, line.dropWhile isSpace = rest := ⟨_, rfl⟩
  have htrim : trimString line = (rest.reverse.dropWhile isSpace).reverse := by
    rw [← hrest]
    rfl
  calc pieces (trimString line)
    _ = pieces (trimString line ++ (rest.reverse.takeWhile isSpace).reverse) :=
      (pieces_append_right (fun b hb => hall _ b (mem_reverse.mp hb)) _).symm
    _ = pieces rest := by
      rw [htrim, ← reverse_append, takeWhile_append_dropWhile, reverse_reverse]
    _ = pieces (line.takeWhile isSpace ++ rest) := (pieces_append_left (hall line) rest).symm
    _ = pieces line := by rw [← hrest, takeWhile_append_dropWhile]

/-! ## Parts -/

variable {g : HttpGuts} {filter : Bytes}

section

variable (hg : g.isTokenByte 0x3b = false)

include hg

theorem readCookie_semicolon (rest : Bytes) :
    readCookie g filter (trimString (0x3b :: rest)) = none := by
  obtain ⟨t, ht⟩ : ∃ t, trimString (0x3b :: rest) = 0x3b :: t := by
    show ∃ t, ((0x3b :: rest).reverse.dropWhile isSpace).reverse = 0x3b :: t
    rw [reverse_cons, dropWhile_append]
    split
    · exact ⟨[], rfl⟩
    · exact ⟨_, by rw [reverse_append]; rfl⟩
  have hname : isCookieNameValid g ((0x3b :: t).takeWhile (· != 0x3d)) = false := by
    show (g.isTokenByte 0x3b && _) = false
    rw [hg, Bool.false_and]
  rw [ht]
  exact if_pos (by rw [hname]; rfl)

/-- The parts are the pieces before the first empty one.  The last part may be all that is left
of the line, but then it is no cookie. -/
theorem filterMap_cookieParts {fuel : Nat} (hfuel : line.length ≤ fuel) :
    ((cookieParts fuel line).map trimString).filterMap (readCookie g filter) =
      (((line.splitOn 0x3b).takeWhile (· ≠ [])).map trimString).filterMap
        (readCookie g filter) := by
  induction fuel generalizing line with
  | zero =>
    rw [eq_nil_of_length_eq_zero (Nat.le_zero.mp hfuel)]
    rfl
  | succ fuel ih =>
    by_cases hnil : line = []
    · rw [hnil]
      rfl
    rw [cookieParts, if_neg hnil]
    have htake {part : Bytes} (hpart : 0x3b ∉ part) (rest : Bytes) :
        (part ++ rest).takeWhile (· != 0x3b) = part ++ rest.takeWhile (· != 0x3b) :=
      takeWhile_append_of_pos fun b hb => bne_iff_ne.mpr (ne_of_mem_of_not_mem hb hpart)
    by_cases hmem : 0x3b ∈ line
    · obtain ⟨part, rest, rfl, hpart⟩ := eq_append_cons_of_mem hmem
      rw [splitOn_append_cons_self_of_not_mem hpart, htake hpart,
        takeWhile_cons_of_neg (by decide), append_nil]
      rw [length_append, length_cons] at hfuel
      cases part with
      | nil => simp [readCookie_semicolon hg]
      | cons b part =>
        have hlen : (b :: part).length < (b :: part ++ 0x3b :: rest).length := by simp
        have hdrop : (b :: part ++ 0x3b :: rest).drop ((b :: part).length + 1) = rest := by
          rw [← drop_drop, drop_left]
          rfl
        rw [if_pos ⟨cons_ne_nil b part, hlen⟩, hdrop, takeWhile_cons_of_pos (by simp), map_cons,
          map_cons, filterMap_cons, filterMap_cons, ih (by omega)]
    · have hline := htake hmem []
      rw [takeWhile_nil, append_nil] at hline
      simp [splitOn_eq_singleton hmem, hline, hnil]

/-- A line gives the cookies of its pieces but the hidden ones. -/
theorem cookiesOf_eq (line : Bytes) :
    cookiesOf g filter line =
      ((cookieParts (trimString line).length (trimString line)).map trimString).filterMap
        (readCookie g filter) ++ (hidden line).filterMap (readCookie g filter) := by
  rw [filterMap_cookieParts hg (Nat.le_refl _), hidden, ← filterMap_append, ← map_append,
    takeWhile_append_dropWhile, cookiesOf, ← pieces_trimString]
  rfl

end

/-- Lists that are put together from sublists are equal when the parts are. -/
theorem flatMap_eq_iff {α β : Type} {f f' rest : α → List β} (h : ∀ a, f' a = f a ++ rest a)
    (l : List α) : l.flatMap f = l.flatMap f' ↔ ∀ a ∈ l, rest a = [] := by
  have hlen : (l.flatMap f').length = (l.flatMap f).length + (l.flatMap rest).length := by
    induction l with
    | nil => rfl
    | cons a l ih =>
      simp only [flatMap_cons, length_append, h a, ih]
      omega
  constructor
  · intro heq
    rw [heq] at hlen
    exact flatMap_eq_nil_iff.mp (length_eq_zero_iff.mp (by omega))
  · intro hrest
    refine flatMap_congr fun a ha => ?_
    rw [h, hrest a ha, append_nil]

/-- The cookies are those of the pieces exactly when no piece behind an empty one is a cookie that
the filter lets through. -/
theorem readCookies_eq_iff (hg : g.isTokenByte 0x3b = false) (h : Header) (filter : Bytes) :
    readCookies g h filter = (h.get (ascii "Cookie")).flatMap (cookiesOf g filter) ↔
      ∀ line ∈ h.get (ascii "Cookie"), ∀ piece ∈ hidden line, readCookie g filter piece = none := by
  have hread : (fun part => if part = [] then none else readCookie g filter part) =
      readCookie g filter := by
    funext part
    split
    · rename_i hnil
      rw [hnil]
      rfl
    · rfl
  unfold readCookies
  rw [hread, flatMap_eq_iff (cookiesOf_eq hg)]
  exact forall₂_congr fun line _ => filterMap_eq_nil_iff

/-- A blank piece hides nothing. -/
theorem readCookies_blank_piece :
    readCookies .tables [(ascii "Cookie", [ascii "a=1; ;b=2"])] [] =
      [ascii "a=1; ;b=2"].flatMap (cookiesOf .tables []) :=
  (readCookies_eq_iff rfl [(ascii "Cookie", [ascii "a=1; ;b=2"])] []).mpr (by decide)

/-- An empty piece does. -/
theorem readCookies_empty_piece :
    readCookies .tables [(ascii "Cookie", [ascii "a=1;;b=2"])] [] =
        [⟨ascii "a", ascii "1", false⟩] ∧
      cookiesOf .tables [] (ascii "a=1;;b=2") =
        [⟨ascii "a", ascii "1", false⟩, ⟨ascii "b", ascii "2", false⟩] := by
  decide

end Fhttp.Http.Cookies
