import Fhttp.Hpack.Basic
import Fhttp.Lib.Search
import Mathlib.Data.List.Infix
import Mathlib.Data.List.Nodup

/-!
# The request multiplexer

`ServeMux` of `server.go`: how patterns are registered and how the handler of a host and a path is
found.  The map `m` is the list of its entries, whose keys are their patterns.  The list `es` has
the entries of the patterns that end in a slash, longest first.

A pattern matches a target if it is the target, or if it ends in a slash and the target starts with
it.  `Registered` is the invariant of a multiplexer, and from it `matchPath` finds the longest of
the patterns that match.
-/

namespace Fhttp.Http

open Hpack (Bytes ascii)
open List

variable {H : Type}

structure MuxEntry (H : Type) where
  h : H
  pattern : Bytes
deriving DecidableEq

structure ServeMux (H : Type) where
  m : List (MuxEntry H) := []
  es : List (MuxEntry H) := []
  hosts : Bool := false

/-- What `Handle` panics with. -/
inductive MuxPanic where
  | invalidPattern
  | nilHandler
  | multipleRegistrations (pattern : Bytes)
deriving DecidableEq

def MuxPanic.message : MuxPanic → Bytes
  | .invalidPattern => ascii "http: invalid pattern"
  | .nilHandler => ascii "http: nil handler"
  | .multipleRegistrations pattern => ascii "http: multiple registrations for " ++ pattern

/-- The entry of the map for a key. -/
def entryFor (m : List (MuxEntry H)) (key : Bytes) : Option (MuxEntry H) :=
  m.find? fun e => e.pattern == key

def endsInSlash (p : Bytes) : Bool := p.getLast? == some 0x2f

/-- The pattern begins with a host name. -/
def namesHost (p : Bytes) : Bool := p.head? != some 0x2f

def appendSorted (es : List (MuxEntry H)) (e : MuxEntry H) : List (MuxEntry H) :=
  let i := Lib.search es.length fun i =>
    es[i]?.any fun e' => e'.pattern.length < e.pattern.length
  if i = es.length then es ++ [e] else es.take i ++ e :: es.drop i

namespace ServeMux

def handle (mux : ServeMux H) (pattern : Bytes) (handler : Option H) :
    Except MuxPanic (ServeMux H) :=
  if pattern = [] then .error .invalidPattern
  else match handler with
    | none => .error .nilHandler
    | some h =>
      if (entryFor mux.m pattern).isSome then .error (.multipleRegistrations pattern)
      else .ok {
        m := mux.m ++ [⟨h, pattern⟩]
        es := if endsInSlash pattern then appendSorted mux.es ⟨h, pattern⟩ else mux.es
        hosts := mux.hosts || namesHost pattern }

/-- `match`: an exact match, or the first pattern of `es` that the path starts with. -/
def matchPath (mux : ServeMux H) (path : Bytes) : Option (MuxEntry H) :=
  match entryFor mux.m path with
  | some e => some e
  | none => mux.es.find? fun e => e.pattern.isPrefixOf path

/-- The handler that is found and its pattern, which is empty for the handler of what is not
found. -/
def handler (mux : ServeMux H) (notFound : H) (host path : Bytes) : H × Bytes :=
  match (if mux.hosts then mux.matchPath (host ++ path) else none).or (mux.matchPath path) with
  | some e => (e.h, e.pattern)
  | none => (notFound, [])

/-- A new multiplexer in which the entries are registered one after the other. -/
def registerAll (regs : List (MuxEntry H)) : Except MuxPanic (ServeMux H) :=
  regs.foldlM (fun mux e => mux.handle e.pattern (some e.h)) {}

end ServeMux

/-! ## Matching patterns -/

def Matches (p target : Bytes) : Prop := p = target ∨ endsInSlash p = true ∧ p <+: target

variable {p target key : Bytes} {regs m regs' : List (MuxEntry H)} {mux : ServeMux H}

theorem Matches.isPrefix (h : Matches p target) : p <+: target := by
  rcases h with rfl | ⟨_, h⟩
  · exact prefix_rfl
  · exact h

/-- A pattern that matches begins as the target does. -/
theorem Matches.namesHost_eq (h : Matches p target) (hp : p ≠ []) :
    namesHost p = namesHost target := by
  obtain ⟨rest, rfl⟩ := h.isPrefix
  cases p with
  | nil => exact absurd rfl hp
  | cons b p => rfl

/-- The entry has a pattern that matches, and no other pattern that does is longer. -/
def Longest (regs : List (MuxEntry H)) (target : Bytes) (e : MuxEntry H) : Prop :=
  e ∈ regs ∧ Matches e.pattern target ∧
    ∀ e' ∈ regs, Matches e'.pattern target → e'.pattern.length ≤ e.pattern.length

def NoneMatches (regs : List (MuxEntry H)) (target : Bytes) : Prop :=
  ∀ e ∈ regs, ¬ Matches e.pattern target

/-- There is one longest pattern. -/
theorem Longest.pattern_eq {e e' : MuxEntry H} (h : Longest regs target e)
    (h' : Longest regs target e') : e.pattern = e'.pattern := by
  have hlen : e.pattern.length = e'.pattern.length :=
    Nat.le_antisymm (h'.2.2 e h.1 h.2.1) (h.2.2 e' h'.1 h'.2.1)
  exact (prefix_of_prefix_length_le h.2.1.isPrefix h'.2.1.isPrefix hlen.le).eq_of_length hlen

/-! ## The invariant -/

/-- The entries are in the map, and those of the patterns that end in a slash are in `es`, longest
first. -/
structure Registered (mux : ServeMux H) (regs : List (MuxEntry H)) : Prop where
  map : mux.m = regs
  nonempty : ∀ e ∈ regs, e.pattern ≠ []
  nodup : (regs.map MuxEntry.pattern).Nodup
  mem_es : ∀ e, e ∈ mux.es ↔ e ∈ regs ∧ endsInSlash e.pattern = true
  sorted : mux.es.Pairwise fun e e' => e'.pattern.length ≤ e.pattern.length
  hosts : mux.hosts = regs.any fun e => namesHost e.pattern

theorem entryFor_eq_none : entryFor m key = none ↔ key ∉ m.map MuxEntry.pattern := by
  simp [entryFor]

theorem entryFor_mem {e : MuxEntry H} (h : entryFor m key = some e) : e ∈ m ∧ e.pattern = key :=
  ⟨mem_of_find?_eq_some h, by simpa using find?_some h⟩

/-- The insertion keeps the order: what is before the new entry is as long, and what is after it is
shorter. -/
theorem appendSorted_split (es : List (MuxEntry H)) (e : MuxEntry H)
    (hsorted : es.Pairwise fun e e' => e'.pattern.length ≤ e.pattern.length) :
    ∃ before after, es = before ++ after ∧ appendSorted es e = before ++ e :: after ∧
      (∀ e' ∈ before, e.pattern.length ≤ e'.pattern.length) ∧
      ∀ e' ∈ after, e'.pattern.length < e.pattern.length := by
  have hdivides := Lib.divides_search (n := es.length)
    (f := fun i => es[i]?.any fun e' => e'.pattern.length < e.pattern.length) ?_
  · unfold appendSorted
    generalize Lib.search _ _ = i at hdivides ⊢
    obtain ⟨hle, hbefore, hafter⟩ := hdivides
    refine ⟨es.take i, es.drop i, (take_append_drop i es).symm, ?_, ?_, ?_⟩
    · dsimp only
      split
      · rename_i hi
        rw [hi, take_length, drop_length]
      · rfl
    · intro e' he'
      obtain ⟨k, hk, rfl⟩ := mem_take_iff_getElem.mp he'
      have := hbefore k (by omega)
      simp [getElem?_eq_getElem (show k < es.length by omega)] at this
      exact this
    · intro e' he'
      obtain ⟨k, hk, rfl⟩ := mem_drop_iff_getElem.mp he'
      have := hafter (i + k) (by omega) (by omega)
      simpa [getElem?_eq_getElem (show i + k < es.length by omega)] using this
  · intro a b hab hb ha
    have hlt : a < es.length := by omega
    simp only [getElem?_eq_getElem hlt, getElem?_eq_getElem hb, Option.any_some,
      decide_eq_true_eq] at ha ⊢
    rcases Nat.lt_or_eq_of_le hab with hab | rfl
    · exact Nat.lt_of_le_of_lt (pairwise_iff_getElem.mp hsorted a b hlt hb hab) ha
    · exact ha

/-- Registering an entry succeeds if its pattern is new, and keeps the invariant. -/
theorem Registered.handle (h : Registered mux regs) {e : MuxEntry H} (hne : e.pattern ≠ [])
    (hnew : e.pattern ∉ regs.map MuxEntry.pattern) :
    ∃ mux', mux.handle e.pattern (some e.h) = .ok mux' ∧ Registered mux' (regs ++ [e]) := by
  have hentry : entryFor mux.m e.pattern = none := entryFor_eq_none.mpr (h.map ▸ hnew)
  obtain ⟨before, after, hes, happend, hbefore, hafter⟩ := appendSorted_split mux.es e h.sorted
  refine ⟨_, by simp only [ServeMux.handle, hne, hentry]; rfl, ?_⟩
  constructor
  case map => simp [h.map]
  case nonempty => grind [h.nonempty]
  case nodup =>
    rw [map_append, nodup_append]
    refine ⟨h.nodup, by simp, ?_⟩
    rintro p hp q hq rfl
    exact hnew (mem_singleton.mp hq ▸ hp)
  case mem_es =>
    intro e'
    have hmem := h.mem_es e'
    simp only [happend]
    grind
  case sorted =>
    have hsorted := h.sorted
    simp only [happend]
    split
    · rw [pairwise_append, pairwise_cons]
      grind
    · exact hsorted
  case hosts => simp [h.hosts]

/-- The entries can be registered exactly if their patterns are distinct and not empty. -/
theorem registerAll_cases (regs : List (MuxEntry H)) :
    (∃ mux, ServeMux.registerAll regs = .ok mux ∧ Registered mux regs) ∨
      (∃ msg, ServeMux.registerAll regs = .error msg) ∧
        ¬ ((∀ e ∈ regs, e.pattern ≠ []) ∧ (regs.map MuxEntry.pattern).Nodup) := by
  induction regs using reverseRecOn with
  | nil => exact .inl ⟨{}, rfl, rfl, by simp, by simp, by simp, by simp, rfl⟩
  | append_singleton regs e ih =>
    have hstep : ServeMux.registerAll (regs ++ [e]) =
        ServeMux.registerAll regs >>= fun mux => mux.handle e.pattern (some e.h) := by
      simp [ServeMux.registerAll]
    rw [hstep]
    rcases ih with ⟨mux, hmux, hreg⟩ | ⟨⟨msg, hmsg⟩, hnot⟩
    · rw [hmux]
      by_cases hok : e.pattern ≠ [] ∧ e.pattern ∉ regs.map MuxEntry.pattern
      · exact .inl (hreg.handle hok.1 hok.2)
      refine .inr ⟨?_, fun hall => hok ⟨hall.1 e (by simp), ?_⟩⟩
      · show ∃ msg, mux.handle e.pattern (some e.h) = .error msg
        by_cases hp : e.pattern = []
        · exact ⟨_, if_pos hp⟩
        · have hentry : (entryFor mux.m e.pattern).isSome = true := by
            rw [Option.isSome_iff_ne_none, ne_eq, entryFor_eq_none, hreg.map]
            exact fun hnew => hok ⟨hp, hnew⟩
          exact ⟨_, by simp only [ServeMux.handle, hp, hentry]; rfl⟩
      · intro hmem
        have hnodup := hall.2
        rw [map_append, nodup_append] at hnodup
        exact hnodup.2.2 _ hmem _ (by simp) rfl
    · refine .inr ⟨⟨msg, by rw [hmsg]; rfl⟩, fun hall => hnot ⟨?_, ?_⟩⟩
      · intro e' he'
        exact hall.1 e' (mem_append_left _ he')
      · have hnodup := hall.2
        rw [map_append, nodup_append] at hnodup
        exact hnodup.1

theorem registered_of_registerAll (h : ServeMux.registerAll regs = .ok mux) :
    Registered mux regs := by
  rcases registerAll_cases regs with ⟨mux', hmux, hreg⟩ | ⟨⟨msg, hmsg⟩, _⟩
  · exact Except.ok.inj (hmux.symm.trans h) ▸ hreg
  · cases hmsg.symm.trans h

/-- Entries that can be registered can be registered in any other order. -/
theorem registerAll_perm (h : ServeMux.registerAll regs = .ok mux) (hperm : regs'.Perm regs) :
    ∃ mux', ServeMux.registerAll regs' = .ok mux' ∧ Registered mux' regs' := by
  have hreg := registered_of_registerAll h
  rcases registerAll_cases regs' with hok | ⟨_, hnot⟩
  · exact hok
  · refine absurd ⟨fun e he => hreg.nonempty e (hperm.mem_iff.mp he), ?_⟩ hnot
    exact (hperm.map MuxEntry.pattern).nodup_iff.mpr hreg.nodup

/-! ## Dispatch -/

section

variable {mux : ServeMux H} {regs : List (MuxEntry H)} (h : Registered mux regs)

include h

/-- The handler for a path is that of the longest pattern which matches it. -/
theorem Registered.matchPath (target : Bytes) :
    (∃ e, mux.matchPath target = some e ∧ Longest regs target e) ∨
      mux.matchPath target = none ∧ NoneMatches regs target := by
  unfold ServeMux.matchPath
  cases hexact : entryFor mux.m target with
  | some e =>
    obtain ⟨hmem, hpattern⟩ := entryFor_mem hexact
    refine .inl ⟨e, rfl, h.map ▸ hmem, .inl hpattern, fun e' _ hmatch => ?_⟩
    rw [hpattern]
    exact hmatch.isPrefix.length_le
  | none =>
    have hne : ∀ e ∈ regs, e.pattern ≠ target := by
      intro e he heq
      exact entryFor_eq_none.mp hexact (h.map ▸ mem_map.mpr ⟨e, he, heq⟩)
    have hes : ∀ e, e ∈ regs ∧ Matches e.pattern target ↔ e ∈ mux.es ∧ e.pattern <+: target := by
      intro e
      have := h.mem_es e
      grind [Matches]
    cases hfind : mux.es.find? fun e => e.pattern.isPrefixOf target with
    | none =>
      refine .inr ⟨rfl, fun e he hmatch => ?_⟩
      obtain ⟨hmem, hstarts⟩ := (hes e).mp ⟨he, hmatch⟩
      exact find?_eq_none.mp hfind e hmem (by simpa using hstarts)
    | some e =>
      obtain ⟨hstarts, before, after, hsplit, hbefore⟩ := find?_eq_some_iff_append.mp hfind
      have hmem : e ∈ mux.es := hsplit ▸ by simp
      obtain ⟨hregs, hmatch⟩ := (hes e).mpr ⟨hmem, by simpa using hstarts⟩
      refine .inl ⟨e, rfl, hregs, hmatch, fun e' he' hmatch' => ?_⟩
      obtain ⟨hmem', hstarts'⟩ := (hes e').mp ⟨he', hmatch'⟩
      have hsorted := h.sorted
      rw [hsplit, pairwise_append, pairwise_cons] at hsorted
      rw [hsplit] at hmem'
      rcases mem_append.mp hmem' with hin | hin
      · have hfalse := hbefore e' hin
        have htrue := isPrefixOf_iff_prefix.mpr hstarts'
        rw [htrue] at hfalse
        cases hfalse
      · rcases mem_cons.mp hin with rfl | hin
        · exact Nat.le_refl _
        · exact hsorted.2.1.1 e' hin

/-- The patterns that name a host. -/
def hostSpecific (regs : List (MuxEntry H)) : List (MuxEntry H) :=
  regs.filter fun e => namesHost e.pattern

/-- What the multiplexer is for: the longest pattern with a host name that matches the host and
path, or else the longest that matches the path, or else none. -/
inductive Dispatch (regs : List (MuxEntry H)) (notFound : H) (host path : Bytes) :
    H × Bytes → Prop where
  | byHost {e} : Longest (hostSpecific regs) (host ++ path) e →
      Dispatch regs notFound host path (e.h, e.pattern)
  | byPath {e} : NoneMatches (hostSpecific regs) (host ++ path) → Longest regs path e →
      Dispatch regs notFound host path (e.h, e.pattern)
  | none : NoneMatches (hostSpecific regs) (host ++ path) → NoneMatches regs path →
      Dispatch regs notFound host path (notFound, [])

variable {host : Bytes}

/-- If no pattern with a host name matches, the path decides. -/
theorem Registered.dispatch_path (notFound : H) {path : Bytes}
    (hnone : NoneMatches (hostSpecific regs) (host ++ path)) :
    Dispatch regs notFound host path
      (match mux.matchPath path with | some e => (e.h, e.pattern) | none => (notFound, [])) := by
  rcases h.matchPath path with ⟨e, he, hlongest⟩ | ⟨he, hnone'⟩
  · rw [he]
    exact .byPath hnone hlongest
  · rw [he]
    exact .none hnone hnone'

theorem Registered.handler (notFound : H) (path : Bytes) (hhost : host.head? ≠ some 0x2f) :
    Dispatch regs notFound host path (mux.handler notFound host path) := by
  have hspecific : ∀ e, e ∈ hostSpecific regs ↔ e ∈ regs ∧ namesHost e.pattern = true := by
    simp [hostSpecific]
  have hnames : ∀ e ∈ regs, Matches e.pattern (host ++ path) →
      namesHost e.pattern = namesHost (host ++ path) :=
    fun e he hmatch => hmatch.namesHost_eq (h.nonempty e he)
  unfold ServeMux.handler
  cases hhosts : mux.hosts with
  | false =>
    refine h.dispatch_path notFound fun e he _ => ?_
    have := h.hosts
    grind
  | true =>
    rcases h.matchPath (host ++ path) with ⟨e, he, hlongest⟩ | ⟨he, hnone⟩
    · simp only [if_true, he, Option.some_or]
      cases htarget : namesHost (host ++ path) with
      | true =>
        refine .byHost ⟨?_, hlongest.2.1, fun e' he' => hlongest.2.2 e' ((hspecific e').mp he').1⟩
        exact (hspecific e).mpr ⟨hlongest.1, (hnames e hlongest.1 hlongest.2.1).trans htarget⟩
      | false =>
        have hempty : host = [] := by
          cases host with
          | nil => rfl
          | cons b host => simp [namesHost] at htarget hhost; exact absurd htarget hhost
        subst hempty
        refine .byPath (fun e' he' hmatch => ?_) hlongest
        grind
    · simp only [if_true, he, Option.none_or]
      exact h.dispatch_path notFound fun e' he' => hnone e' ((hspecific e').mp he').1

end

/-- Two multiplexers with the same entries find the same. -/
theorem Registered.handler_eq {mux' : ServeMux H} (h : Registered mux regs)
    (h' : Registered mux' regs') (hperm : regs'.Perm regs) (notFound : H) (host path : Bytes) :
    mux'.handler notFound host path = mux.handler notFound host path := by
  have hfound : ∀ target, mux'.matchPath target = mux.matchPath target := by
    intro target
    rcases h.matchPath target with ⟨e, he, hlongest⟩ | ⟨he, hnone⟩
    · rcases h'.matchPath target with ⟨e', he', hlongest'⟩ | ⟨he', hnone'⟩
      · have hlongest'' : Longest regs target e' := by
          simpa only [Longest, hperm.mem_iff] using hlongest'
        have heq := inj_on_of_nodup_map h.nodup hlongest.1 hlongest''.1
          (hlongest.pattern_eq hlongest'')
        rw [he, he', heq]
      · exact absurd hlongest.2.1 (hnone' e (hperm.mem_iff.mpr hlongest.1))
    · rcases h'.matchPath target with ⟨e', he', hlongest'⟩ | ⟨he', hnone'⟩
      · exact absurd hlongest'.2.1 (hnone e' (hperm.mem_iff.mp hlongest'.1))
      · rw [he, he']
  have hhosts : mux'.hosts = mux.hosts := by
    rw [h.hosts, h'.hosts, Bool.eq_iff_iff]
    simp only [any_eq_true, hperm.mem_iff]
  simp only [ServeMux.handler, hfound, hhosts]

/-- The handler that is found is the one of the longest pattern, first with the host and then
without it, and does not depend on the order in which the patterns were registered. -/
theorem handler_longest (notFound : H) {regs : List (MuxEntry H)} {mux : ServeMux H}
    (hmux : ServeMux.registerAll regs = .ok mux) (host path : Bytes) :
    (host.head? ≠ some 0x2f →
      Dispatch regs notFound host path (mux.handler notFound host path)) ∧
    ∀ regs', regs'.Perm regs → ∃ mux', ServeMux.registerAll regs' = .ok mux' ∧
      mux'.handler notFound host path = mux.handler notFound host path := by
  have hreg := registered_of_registerAll hmux
  refine ⟨hreg.handler notFound path, fun regs' hperm => ?_⟩
  obtain ⟨mux', hmux', hreg'⟩ := registerAll_perm hmux hperm
  exact ⟨mux', hmux', hreg.handler_eq hreg' hperm notFound host path⟩

theorem handler_longest_images :
    let regs := [⟨1, ascii "/"⟩, ⟨2, ascii "/images/"⟩, ⟨3, ascii "example.com/"⟩]
    ∃ mux, ServeMux.registerAll regs = .ok mux ∧
      Dispatch regs 0 (ascii "example.com") (ascii "/images/a") (3, ascii "example.com/") ∧
      Dispatch regs 0 (ascii "other.com") (ascii "/images/a") (2, ascii "/images/") := by
  intro regs
  have hmux : ServeMux.registerAll regs = .ok _ := rfl
  exact ⟨_, hmux, (handler_longest 0 hmux (ascii "example.com") (ascii "/images/a")).1 (by decide),
    (handler_longest 0 hmux (ascii "other.com") (ascii "/images/a")).1 (by decide)⟩

/-- A host that begins with a slash is taken for the beginning of a path, once some pattern names a
host. -/
theorem handler_host_slash :
    let regs := [⟨1, ascii "example.com/"⟩, ⟨2, ascii "/a/"⟩]
    ∃ mux, ServeMux.registerAll regs = .ok mux ∧
      ¬ Dispatch regs 0 (ascii "/a") (ascii "/b") (mux.handler 0 (ascii "/a") (ascii "/b")) := by
  refine ⟨_, rfl, fun hdispatch => ?_⟩
  generalize hres : ServeMux.handler _ 0 (ascii "/a") (ascii "/b") = res at hdispatch
  have hres : res = (2, ascii "/a/") := hres.symm
  cases hdispatch with
  | @byHost e hlongest =>
    have hmem : e = ⟨1, ascii "example.com/"⟩ := mem_singleton.mp hlongest.1
    subst hmem
    exact absurd hres (by decide)
  | @byPath e _ hlongest =>
    have hpattern : e.pattern = ascii "/a/" := congrArg Prod.snd hres
    exact absurd (hpattern ▸ hlongest.2.1.isPrefix) (by decide)
  | none => exact absurd hres (by decide)

end Fhttp.Http
