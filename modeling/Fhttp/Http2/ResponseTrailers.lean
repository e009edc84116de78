import Fhttp.Http2.ResponseLength

/-!
# The trailers of a response

A handler sets a trailer under its own key, if the `Trailer` header has declared it, or under a key
with `TrailerPrefix`, which is stripped when the handler has returned.  `Entry` says what a header
map asks for in this way, and `Sets` that a handler sets a valid trailer without contradicting
itself.  A key that is left with the prefix may be stripped again, as the map changes while its keys
are visited, so `Leads` takes more than one step.

The trailers are sent as they are set (`Delivered`), unless the response has ended with its
header: this is decided before the keys with the prefix are looked at.
-/

namespace Fhttp.Http2

open Hpack (Bytes HeaderField ascii)
open Http (lowerByte lowerAscii isAscii)
open Lib.Panic (Outcome Yields)
open List

namespace Header

theorem has_set (h : Header) (k k' : Bytes) (v : List Bytes) :
    (h.set k v).has k' = (k' == k || h.has k') := by
  unfold has set
  rw [any_append, any_filter]
  by_cases heq : k' = k
  · simp [heq]
  have hany : (h.any fun a => a.1 != k && a.1 == k') = h.any (·.1 == k') := by
    congr 1
    funext a
    by_cases ha : a.1 = k'
    · simp [ha, heq]
    · simp [ha]
  rw [hany, beq_eq_false_iff_ne.mpr heq, Bool.false_or]
  simp [Ne.symm heq]

theorem get_of_not_has {h : Header} {k : Bytes} (hno : h.has k = false) : h.get k = [] := by
  have hnone : h.get? k = none := get?_eq_none.mpr fun kv hkv heq =>
    any_eq_false.mp hno kv hkv (beq_iff_eq.mpr heq)
  rw [get, hnone]
  rfl

end Header

/-! ## Canonical keys -/

theorem canonicalLetter_lowerByte (upper : Bool) (b : UInt8) :
    canonicalLetter upper (lowerByte b) = canonicalLetter upper b ∧
      lowerByte (canonicalLetter upper b) = lowerByte b :=
  Hpack.forall_uint8 (P := fun b => ∀ upper, canonicalLetter upper (lowerByte b) =
    canonicalLetter upper b ∧ lowerByte (canonicalLetter upper b) = lowerByte b)
    (by decide +kernel) b upper

/-- The canonical key does not depend on the case of the letters. -/
theorem canonicalLetters_lowerAscii (upper : Bool) (s : Bytes) :
    canonicalLetters upper (lowerAscii s) = canonicalLetters upper s ∧
      lowerAscii (canonicalLetters upper s) = lowerAscii s := by
  induction s generalizing upper with
  | nil => exact ⟨rfl, rfl⟩
  | cons b s ih =>
    obtain ⟨h₁, h₂⟩ := canonicalLetter_lowerByte upper b
    have hlower (b : UInt8) (s : Bytes) : lowerAscii (b :: s) = lowerByte b :: lowerAscii s := rfl
    simp only [hlower, canonicalLetters, h₁, h₂, (ih _).1, (ih _).2, and_self]

variable {x : Bytes}

section

variable (h : (canonicalHeaderKey x).all validHeaderFieldByte = true)

include h

theorem canonicalHeaderKey_token : canonicalHeaderKey x = canonicalLetters true x := by
  unfold canonicalHeaderKey at h ⊢
  split at h
  · rename_i hall
    rw [if_pos hall]
  · rename_i hall
    exact absurd h hall

/-- A canonical key is known by its lower case. -/
theorem canonicalHeaderKey_eq_of_lowerAscii {y : Bytes}
    (hlower : lowerAscii (canonicalHeaderKey x) = lowerAscii y) :
    canonicalHeaderKey x = canonicalLetters true y := by
  rw [canonicalHeaderKey_token h] at hlower ⊢
  rw [(canonicalLetters_lowerAscii true x).2] at hlower
  rw [← (canonicalLetters_lowerAscii true x).1, hlower, (canonicalLetters_lowerAscii true y).1]

end

namespace ResponseWriter

variable {env : ResponseEnv} {s : ResponseWriter}

/-! ## The keys of the trailers -/

/-- The key of a trailer, from a key with `TrailerPrefix`. -/
def target (key : Bytes) : Bytes := canonicalHeaderKey (key.drop trailerFront.length)

/-- Stripping `TrailerPrefix` once or more often leads from one key to another. -/
inductive Leads : Bytes → Bytes → Prop where
  | one {key : Bytes} (h : trailerFront.isPrefixOf key = true) : Leads key (target key)
  | more {key k : Bytes} (h : trailerFront.isPrefixOf key = true) (hk : Leads (target key) k) :
      Leads key k

variable {key k : Bytes} {keys vv : List Bytes} {m : Header} {f : HeaderField}

theorem Leads.snoc (h : Leads key k) (hk : trailerFront.isPrefixOf k = true) :
    Leads key (target k) := by
  induction h with
  | one hkey => exact .more hkey (.one hk)
  | more hkey _ ih => exact .more hkey (ih hk)

theorem Leads.front (h : Leads key k) : trailerFront.isPrefixOf key = true := by
  cases h with
  | one hkey => exact hkey
  | more hkey _ => exact hkey

/-- A list of keys of trailers: canonical ones that are allowed, each once. -/
structure TidyKeys (env : ResponseEnv) (keys : List Bytes) : Prop where
  nodup : keys.Nodup
  valid : ∀ k ∈ keys, env.validTrailerHeader k = true
  canonical : ∀ k ∈ keys, ∃ x, k = canonicalHeaderKey x

theorem TidyKeys.declareTrailer (h : TidyKeys env keys) (k : Bytes) :
    TidyKeys env (declareTrailer env keys k) := by
  unfold ResponseWriter.declareTrailer
  dsimp only
  split
  · exact h
  rename_i hvalid
  split
  · exact h
  rename_i hnew
  have hnot : canonicalHeaderKey k ∉ keys := by simpa using hnew
  have hmem {x : Bytes} (hx : x ∈ keys ++ [canonicalHeaderKey k]) :
      x ∈ keys ∨ x = canonicalHeaderKey k := by simpa using hx
  refine ⟨?_, fun x hx => ?_, fun x hx => ?_⟩
  · rw [nodup_append]
    exact ⟨h.nodup, nodup_singleton _, fun a ha b hb => by
      rw [mem_singleton.mp hb]
      exact fun heq => hnot (heq ▸ ha)⟩
  · rcases hmem hx with hx | rfl
    · exact h.valid x hx
    · simpa using hvalid
  · rcases hmem hx with hx | rfl
    · exact h.canonical x hx
    · exact ⟨k, rfl⟩

theorem TidyKeys.declareTrailers (h : TidyKeys env keys) (m : Header) :
    TidyKeys env (declareTrailers env keys m) := by
  unfold ResponseWriter.declareTrailers
  generalize (m.get (ascii "Trailer")).flatMap headerElements = ks
  induction ks generalizing keys with
  | nil => exact h
  | cons k ks ih => exact ih (h.declareTrailer k)

/-- The trailers of a running handler. -/
structure Tidy (env : ResponseEnv) (s : ResponseWriter) : Prop where
  running : s.handlerDone = false
  keys : TidyKeys env s.trailers

theorem steady_tidy (env : ResponseEnv) : Steady env (Tidy env) where
  running _ h := h.running
  snapshot s code h := by
    have hsnap := snapped_snapshot s code
    exact ⟨hsnap.handlerDone.trans h.running, hsnap.trailers.symm ▸ h.keys⟩
  sendHeader s p h _ := by
    obtain ⟨hopen, _⟩ := opened_sendHeader env s p
    exact ⟨hopen.handlerDone.trans h.running, hopen.trailers.symm ▸ h.keys.declareTrailers _⟩
  frame _ _ _ _ h := ⟨h.running, h.keys⟩

theorem Tidy.write (h : Tidy env s) (direct : Bool) (p : Bytes) :
    Yields (fun r => Tidy env r.2.2) (s.write env direct p) := by
  have hsnap := (steady_tidy env).snapshot s 200 h
  unfold ResponseWriter.write
  generalize s.snapshot 200 = t at hsnap
  dsimp only
  split
  · exact hsnap
  · have hcount : Tidy env { t with wroteBytes := t.wroteBytes + Int64.ofNat p.length } :=
      ⟨hsnap.running, hsnap.keys⟩
    split
    · exact hcount
    · exact (steady_tidy env).bufioWrite direct hcount

theorem Tidy.step {st : Progress} (h : Tidy env st.rws) (op : Op) :
    Yields (fun st' => Tidy env st'.rws) (st.step env op) := by
  cases op with
  | header m => exact ⟨h.running, h.keys⟩
  | writeHeader code =>
    show Outcome _ _ ((st.rws.writeHeader code).map _)
    unfold ResponseWriter.writeHeader
    split
    · exact h
    · split
      · trivial
      · exact (steady_tidy env).snapshot _ code h
  | write p => exact (h.write true p).map fun r hr => hr
  | writeString p => exact (h.write false p).map fun r hr => hr
  | flush => exact (steady_tidy env).flush h

theorem tidy_run (env : ResponseEnv) (ops : List Op) :
    Yields (fun st => Tidy env st.rws) (Progress.run env ops) := by
  refine Lib.Run.outcome_of_forall (fun _ op h => Tidy.step h op) ?_ ops
  exact ⟨rfl, nodup_nil, nofun, nofun⟩

/-- The declared trailers are in order. -/
theorem Tidy.declared (h : Tidy env s) : TidyKeys env (s.declared env) := by
  unfold ResponseWriter.declared
  split
  · exact h.keys
  · exact h.keys.declareTrailers _

/-! ## What a handler sets -/

/-- The header map asks for a trailer: it has the key of a declared one, or a key that leads to
it. -/
def Entry (env : ResponseEnv) (s : ResponseWriter) (k : Bytes) (vv : List Bytes) : Prop :=
  (k ∈ s.declared env ∧ s.handlerHeader.has k = true ∧ vv = s.handlerHeader.get k) ∨
    ∃ key, s.handlerHeader.has key = true ∧ Leads key k ∧ env.validTrailerHeader k = true ∧
      vv = s.handlerHeader.get key

/-- A valid trailer with valid values. -/
structure ValidTrailer (env : ResponseEnv) (k : Bytes) (vv : List Bytes) : Prop where
  token : k.all validHeaderFieldByte = true
  allowed : env.validTrailerHeader k = true
  wire : env.guts.validWireHeaderFieldName (env.rt.toLower k) = true
  values : ∀ v ∈ vv, env.guts.validHeaderFieldValue v = true
  nonempty : vv ≠ []

/-- The handler sets a valid trailer, under the key of a declared one or under one with
`TrailerPrefix`, and nothing else in the map is about a trailer of that name. -/
structure Sets (env : ResponseEnv) (s : ResponseWriter) (k : Bytes) (vv : List Bytes) : Prop where
  valid : ValidTrailer env k vv
  source : (k ∈ s.declared env ∧ s.handlerHeader.has k = true ∧ vv = s.handlerHeader.get k) ∨
    ∃ key, s.handlerHeader.has key = true ∧ trailerFront.isPrefixOf key = true ∧
      k = target key ∧ vv = s.handlerHeader.get key
  sole : ∀ k' vv', Entry env s k' vv' → env.rt.toLower k' = env.rt.toLower k → k' = k ∧ vv' = vv

/-- A field of the trailers. -/
def trailerField (env : ResponseEnv) (k v : Bytes) : HeaderField :=
  { name := env.rt.toLower k, value := v }

/-- What is asked for ends with a block of trailers.  It has the fields that the handler sets, with
just their values, and no field that the map does not ask for. -/
def Delivered (env : ResponseEnv) (s : ResponseWriter) (out : List ResponseWrite) : Prop :=
  ∃ (front : List ResponseWrite) (w : ResHeaders), out = front ++ [.headers w] ∧
    w.endStream = true ∧ w.httpResCode = 0 ∧
    (∀ k vv, Sets env s k vv →
      (w.fields env).filter (·.name == env.rt.toLower k) = vv.map (trailerField env k)) ∧
    ∀ f ∈ w.fields env, ∃ k vv, Entry env s k vv ∧ ∃ v ∈ vv, f = trailerField env k v

/-! ## The promotion of keys -/

/-- A value that was in the header map when the handler returned, under a key that leads here. -/
def Comes (h : Header) (k : Bytes) (vv : List Bytes) : Prop :=
  ∃ key, h.has key = true ∧ Leads key k ∧ vv = h.get key

/-- The trailers and the header map while keys are promoted. -/
structure Promoting (env : ResponseEnv) (D : List Bytes) (h : Header) (s : ResponseWriter) :
    Prop where
  tidy : TidyKeys env s.trailers
  declared : ∀ k ∈ D, k ∈ s.trailers
  keeps : ∀ k, h.has k = true → s.handlerHeader.has k = true
  origin : ∀ k, s.handlerHeader.has k = true →
    h.has k = true ∧ s.handlerHeader.get k = h.get k ∨ Comes h k (s.handlerHeader.get k)
  named : ∀ k ∈ s.trailers, k ∈ D ∨ Comes h k (s.handlerHeader.get k)

section Promotion

variable {D : List Bytes} {h : Header}

variable {k key : Bytes}

theorem mem_declareTrailer {keys : List Bytes} {x : Bytes} :
    x ∈ declareTrailer env keys k ↔
      x ∈ keys ∨ x = canonicalHeaderKey k ∧ env.validTrailerHeader x = true := by
  unfold declareTrailer
  dsimp only
  split
  · rename_i hno
    constructor
    · exact .inl
    · rintro (hx | ⟨rfl, hvalid⟩)
      · exact hx
      · simp [hvalid] at hno
  · rename_i hvalid
    split
    · rename_i hmem
      constructor
      · exact .inl
      · rintro (hx | ⟨rfl, _⟩)
        · exact hx
        · simpa using hmem
    · rw [mem_append, mem_singleton]
      refine or_congr_right ⟨?_, And.left⟩
      rintro rfl
      exact ⟨rfl, by simpa using hvalid⟩

/-- Where the value of a promoted key comes from. -/
theorem Promoting.comes (hs : Promoting env D h s) (hfront : trailerFront.isPrefixOf k = true)
    (hk : s.handlerHeader.has k = true) : Comes h (target k) (s.handlerHeader.get k) := by
  rcases hs.origin k hk with ⟨hhas, hget⟩ | ⟨key, hhas, hleads, hget⟩
  · exact ⟨k, hhas, .one hfront, hget⟩
  · exact ⟨key, hhas, hleads.snoc hfront, hget⟩

theorem Promoting.promoteKey (hs : Promoting env D h s) (k : Bytes) :
    Promoting env D h (promoteKey env s k) := by
  unfold ResponseWriter.promoteKey
  split
  · rename_i hcond
    obtain ⟨hfront, hk⟩ := Bool.and_eq_true_iff.mp hcond
    have hcomes := hs.comes hfront hk
    refine ⟨hs.tidy.declareTrailer _,
      fun x hx => mem_declareTrailer.mpr (.inl (hs.declared x hx)), fun x hx => ?_,
      fun x hx => ?_, fun x hx => ?_⟩ <;> dsimp only at *
    · rw [Header.has_set, hs.keeps x hx, Bool.or_true]
    · rw [Header.get_set]
      split
      · rename_i heq
        subst heq
        exact .inr hcomes
      · rename_i hne
        rw [Header.has_set, beq_eq_false_iff_ne.mpr hne, Bool.false_or] at hx
        exact hs.origin x hx
    · rw [Header.get_set]
      split
      · rename_i heq
        subst heq
        exact .inr hcomes
      · rename_i hne
        rcases mem_declareTrailer.mp hx with hx | ⟨heq, _⟩
        · exact hs.named x hx
        · exact absurd heq hne
  · exact hs

/-- A key stays promoted. -/
def Promoted (env : ResponseEnv) (key : Bytes) (s : ResponseWriter) : Prop :=
  s.handlerHeader.has (target key) = true ∧
    (env.validTrailerHeader (target key) = true → target key ∈ s.trailers)

theorem promoted_promoteKey (hfront : trailerFront.isPrefixOf key = true)
    (hk : s.handlerHeader.has key = true) : Promoted env key (promoteKey env s key) := by
  unfold promoteKey
  rw [hfront, hk, Bool.and_self, if_pos rfl]
  refine ⟨?_, fun hvalid => ?_⟩ <;> dsimp only
  · rw [Header.has_set]
    exact Bool.or_eq_true_iff.mpr (.inl (beq_self_eq_true _))
  · exact mem_declareTrailer.mpr (.inr ⟨rfl, hvalid⟩)

theorem Promoted.promoteKey (h : Promoted env key s) (k : Bytes) :
    Promoted env key (promoteKey env s k) := by
  unfold ResponseWriter.promoteKey
  split
  · refine ⟨?_, fun hvalid => ?_⟩ <;> dsimp only
    · rw [Header.has_set, h.1, Bool.or_true]
    · exact mem_declareTrailer.mpr (.inl (h.2 hvalid))
  · exact h

/-- All visits: the keys that were visited are promoted. -/
theorem Promoting.visits (hs : Promoting env D h s) (keys : List Bytes) :
    Promoting env D h (keys.foldl (ResponseWriter.promoteKey env) s) ∧
      ∀ key ∈ keys, h.has key = true → trailerFront.isPrefixOf key = true →
        Promoted env key (keys.foldl (ResponseWriter.promoteKey env) s) := by
  have hstays {key : Bytes} {t : ResponseWriter} (ht : Promoted env key t) (keys : List Bytes) :
      Promoted env key (keys.foldl (ResponseWriter.promoteKey env) t) := by
    induction keys generalizing t with
    | nil => exact ht
    | cons k keys ih => exact ih (ht.promoteKey k)
  induction keys generalizing s with
  | nil => exact ⟨hs, fun _ hk => by cases hk⟩
  | cons k keys ih =>
    obtain ⟨hend, hall⟩ := ih (hs.promoteKey k)
    refine ⟨hend, fun key hkey hhas hfront => ?_⟩
    rcases mem_cons.mp hkey with rfl | hkey
    · exact hstays (promoted_promoteKey hfront (hs.keeps _ hhas)) keys
    · exact hall key hkey hhas hfront

end Promotion

/-- What promotion leaves: the trailers that are set, and none that the map does not ask for. -/
structure PromotedMap (env : ResponseEnv) (s t : ResponseWriter) : Prop where
  tidy : TidyKeys env t.trailers
  sets : ∀ k vv, Sets env s k vv →
    k ∈ t.trailers ∧ t.handlerHeader.has k = true ∧ t.handlerHeader.get k = vv
  asked : ∀ k ∈ t.trailers, t.handlerHeader.has k = true → Entry env s k (t.handlerHeader.get k)

theorem Tidy.promotedMap (h : Tidy env s) : PromotedMap env s (s.promoted env) := by
  have hstart : Promoting env (s.declared env) s.handlerHeader
      { trailers := s.declared env, handlerHeader := s.handlerHeader } :=
    ⟨h.declared, fun _ hk => hk, fun _ hk => hk, fun _ hk => .inl ⟨hk, rfl⟩,
      fun _ hk => .inl hk⟩
  obtain ⟨hend, hall⟩ := hstart.visits (env.visits s.handlerHeader)
  have hpromoted : s.promoted env =
      { (env.visits s.handlerHeader).foldl (ResponseWriter.promoteKey env)
          { trailers := s.declared env, handlerHeader := s.handlerHeader } with
        trailers := sortedKeys ((env.visits s.handlerHeader).foldl (ResponseWriter.promoteKey env)
          { trailers := s.declared env, handlerHeader := s.handlerHeader }).trailers } := rfl
  rw [hpromoted]
  generalize (env.visits s.handlerHeader).foldl (ResponseWriter.promoteKey env)
    { trailers := s.declared env, handlerHeader := s.handlerHeader } = t at hend hall
  have hperm : (sortedKeys t.trailers).Perm t.trailers := mergeSort_perm _ _
  have hasked (k : Bytes) (hk : k ∈ t.trailers) (hhas : t.handlerHeader.has k = true) :
      Entry env s k (t.handlerHeader.get k) := by
    have hvalid := hend.tidy.valid k hk
    rcases hend.origin k hhas with ⟨hold, hget⟩ | ⟨key, hkey, hleads, hget⟩
    · rcases hend.named k hk with hd | ⟨key, hkey, hleads, hget'⟩
      · exact .inl ⟨hd, hold, hget⟩
      · exact .inr ⟨key, hkey, hleads, hvalid, hget'⟩
    · exact .inr ⟨key, hkey, hleads, hvalid, hget⟩
  refine ⟨⟨hperm.nodup_iff.mpr hend.tidy.nodup, fun k hk => hend.tidy.valid k (hperm.mem_iff.mp hk),
    fun k hk => hend.tidy.canonical k (hperm.mem_iff.mp hk)⟩, fun k vv hset => ?_,
    fun k hk => hasked k (hperm.mem_iff.mp hk)⟩
  rw [hperm.mem_iff]
  have hthere : k ∈ t.trailers ∧ t.handlerHeader.has k = true := by
    rcases hset.source with ⟨hd, hhas, _⟩ | ⟨key, hhas, hfront, rfl, _⟩
    · exact ⟨hend.declared k hd, hend.keeps k hhas⟩
    · have hkey : key ∈ s.handlerHeader.map Prod.fst := by
        obtain ⟨kv, hkv, heq⟩ := any_eq_true.mp hhas
        exact mem_map.mpr ⟨kv, hkv, by simpa using heq⟩
      obtain ⟨hhas', hmem⟩ := hall key (env.visits_all _ key hkey) hhas hfront
      exact ⟨hmem hset.valid.allowed, hhas'⟩
  exact ⟨hthere.1, hthere.2, (hset.sole k _ (hasked k hthere.1 hthere.2) rfl).2⟩

/-! ## The fields -/

theorem mem_encodeKey (hf : f ∈ encodeKey env m k) : ∃ v ∈ m.get k, f = trailerField env k v := by
  unfold encodeKey at hf
  dsimp only at hf
  split at hf
  · cases hf
  · obtain ⟨v, hv, rfl⟩ := mem_map.mp hf
    exact ⟨v, (mem_filter.mp hv).1, rfl⟩

theorem has_of_mem_encodeKey (hf : f ∈ encodeKey env m k) : m.has k = true := by
  obtain ⟨v, hv, _⟩ := mem_encodeKey hf
  refine Classical.byContradiction fun hno => ?_
  rw [Header.get_of_not_has (Bool.eq_false_iff.mpr hno)] at hv
  cases hv

section

variable (h : ValidTrailer env k vv) (hcanonical : ∃ x, k = canonicalHeaderKey x)

include h hcanonical

/-- No valid trailer is called `Transfer-Encoding`. -/
theorem ValidTrailer.ne_transferEncoding : env.rt.toLower k ≠ ascii "transfer-encoding" := by
  obtain ⟨x, rfl⟩ := hcanonical
  have hascii : isAscii (canonicalHeaderKey x) = true := by
    refine all_eq_true.mpr fun b hb => ?_
    have hbyte := all_eq_true.mp h.token b hb
    exact decide_eq_true (UInt8.lt_trans (validHeaderFieldByte_spec hbyte).2.1 (by decide))
  intro heq
  rw [env.rt.toLower_ascii _ hascii] at heq
  have hte : canonicalHeaderKey x = ascii "Transfer-Encoding" :=
    canonicalHeaderKey_eq_of_lowerAscii (y := ascii "transfer-encoding") h.token
      (heq.trans (by decide))
  have hallowed := h.allowed
  rw [hte, env.validTrailerHeader_te] at hallowed
  cases hallowed

/-- All values of a valid trailer are sent. -/
theorem ValidTrailer.encodeKey (hget : m.get k = vv) :
    encodeKey env m k = vv.map (trailerField env k) := by
  unfold Http2.encodeKey
  dsimp only
  rw [h.wire, Bool.not_true, if_neg Bool.false_ne_true, hget, filter_eq_self.mpr]
  · rfl
  · intro v hv
    rw [h.values v hv, beq_eq_false_iff_ne.mpr (h.ne_transferEncoding hcanonical)]
    rfl

end

/-- One key of a list gives all that is kept. -/
theorem filter_flatMap_of_mem {α β : Type} {keys : List α} {g : α → List β} {q : β → Bool} {k : α}
    (hnodup : keys.Nodup) (hk : k ∈ keys) (hother : ∀ k' ∈ keys, k' ≠ k → (g k').filter q = []) :
    (keys.flatMap g).filter q = (g k).filter q := by
  induction keys with
  | nil => cases hk
  | cons a keys ih =>
    obtain ⟨ha, hnodup⟩ := nodup_cons.mp hnodup
    have hrest (k' : α) (hk' : k' ∈ keys) := hother k' (mem_cons_of_mem _ hk')
    rw [flatMap_cons, filter_append]
    by_cases heq : a = k
    · subst heq
      have hnil : (keys.flatMap g).filter q = [] := by
        rw [filter_flatMap, flatMap_eq_nil_iff]
        exact fun k' hk' => hrest k' hk' fun h => ha (h ▸ hk')
      rw [hnil, append_nil]
    · rw [hother a mem_cons_self heq, nil_append]
      exact ih hnodup ((mem_cons.mp hk).resolve_left (Ne.symm heq)) hrest

/-- The fields of the trailers after promotion. -/
theorem PromotedMap.fields {t : ResponseWriter} (ht : PromotedMap env s t) :
    (∀ k vv, Sets env s k vv →
      (encodeHeaders env t.handlerHeader (some t.trailers)).filter
        (·.name == env.rt.toLower k) = vv.map (trailerField env k)) ∧
    ∀ f ∈ encodeHeaders env t.handlerHeader (some t.trailers),
      ∃ k vv, Entry env s k vv ∧ ∃ v ∈ vv, f = trailerField env k v := by
  refine ⟨fun k vv hset => ?_, fun f hf => ?_⟩
  · obtain ⟨hk, hhas, hget⟩ := ht.sets k vv hset
    show (t.trailers.flatMap (Http2.encodeKey env t.handlerHeader)).filter _ = _
    rw [filter_flatMap_of_mem ht.tidy.nodup hk, hset.valid.encodeKey (ht.tidy.canonical k hk) hget]
    · refine filter_eq_self.mpr fun f hf => ?_
      obtain ⟨v, _, rfl⟩ := mem_map.mp hf
      exact beq_self_eq_true _
    · intro k' hk' hne
      refine filter_eq_nil_iff.mpr fun f hf heq => hne ?_
      have hhas' := has_of_mem_encodeKey hf
      obtain ⟨v, _, rfl⟩ := mem_encodeKey hf
      exact (hset.sole k' _ (ht.asked k' hk' hhas') (beq_iff_eq.mp heq)).1
  · obtain ⟨k, hk, hf⟩ := mem_flatMap.mp hf
    obtain ⟨v, hv, rfl⟩ := mem_encodeKey hf
    exact ⟨k, _, ht.asked k hk (has_of_mem_encodeKey hf), v, hv, rfl⟩

/-! ## The end of the response -/

/-- A response that ends with its header has no trailers: its only block has a status. -/
theorem Closed.not_delivered {asked : Bytes} {out : List ResponseWrite}
    (h : Closed env s asked out) (hempty : s.endsEmpty env = true) : ¬ Delivered env s out := by
  obtain ⟨_, w, rfl, _, hcode⟩ := h.empty hempty
  rintro ⟨front, w', hout, _, hzero, _⟩
  cases front with
  | nil =>
    cases hout
    omega
  | cons r front => simp at hout

/-- A trailer that a handler sets is delivered just if the response does not end with its header:
the header is sent, or there is a byte in the buffer, or a trailer is declared. -/
theorem trailers_delivered_iff (env : ResponseEnv) (hhead : env.isHead = false) (ops : List Op)
    (st : Progress) (hrun : Progress.run env ops = .ok st) (k : Bytes) (vv : List Bytes)
    (hset : Sets env st.rws k vv) :
    Delivered env st.rws (st.rws.finish env).out ↔
      st.rws.sentHeader = true ∨ st.rws.buf ≠ [] ∨ st.rws.declared env ≠ [] := by
  have htidy := tidy_run env ops
  have hholds := Progress.holds_run hhead ops
  rw [hrun] at htidy hholds
  obtain ⟨asked, hshape, _⟩ := hholds
  have hclosed := hshape.finish hhead
  have hmap := htidy.promotedMap
  have hends : st.rws.endsEmpty env = false ↔
      st.rws.sentHeader = true ∨ st.rws.buf ≠ [] ∨ st.rws.declared env ≠ [] := by
    unfold endsEmpty
    cases st.rws.sentHeader <;> cases st.rws.buf <;> cases st.rws.declared env <;> simp
  rw [← hends]
  cases hempty : st.rws.endsEmpty env with
  | true => exact iff_of_false (hclosed.not_delivered hempty) (by decide)
  | false =>
    obtain ⟨w, ps, hout, _⟩ := hclosed.body hempty
    obtain ⟨hk, hhas, _⟩ := hmap.sets k vv hset
    have hnonempty : (st.rws.promoted env).hasNonemptyTrailers = true :=
      any_eq_true.mpr ⟨k, hk, hhas⟩
    refine iff_of_true ?_ rfl
    rw [hout, closing, if_pos hnonempty]
    refine ⟨.headers w :: (ps.map (ResponseWrite.data · false) ++ dataOf st.rws.buf),
      { h := (st.rws.promoted env).handlerHeader
        trailers := some (st.rws.promoted env).trailers
        endStream := true }, by simp, rfl, rfl, ?_⟩
    rw [fields_trailers]
    exact hmap.fields

theorem sets_trailerState :
    Sets plainEnv (trailerState [ascii "bar"]).rws (ascii "Foo") [ascii "bar"] := by
  refine ⟨⟨by decide, by decide, by decide, by decide, by decide⟩,
    .inl ⟨by decide, by decide, by decide⟩, fun k' vv' hentry _ => ?_⟩
  rcases hentry with ⟨hk, _, rfl⟩ | ⟨key, hhas, hleads, _⟩
  · cases mem_singleton.mp hk
    exact ⟨rfl, by decide⟩
  · have hfront := hleads.front
    obtain ⟨kv, hkv, heq⟩ := any_eq_true.mp hhas
    obtain rfl := beq_iff_eq.mp heq
    rcases mem_cons.mp hkv with rfl | hkv
    · exact absurd hfront (by decide)
    · cases mem_singleton.mp hkv
      exact absurd hfront (by decide)

/-- A declared trailer is delivered. -/
theorem declared_trailer_delivered :
    Delivered plainEnv (trailerState [ascii "bar"]).rws
      ((trailerState [ascii "bar"]).rws.finish plainEnv).out :=
  (trailers_delivered_iff plainEnv rfl _ _ (run_trailerHandler [ascii "bar"]) _ _
    sets_trailerState).mpr (Or.inl rfl)

/-- A handler that sets a trailer that is not declared, and does nothing else. -/
def prefixedState : Progress :=
  { rws := { handlerHeader := [(ascii "Trailer:Foo", [ascii "bar"])] } }

theorem sets_prefixedState : Sets plainEnv prefixedState.rws (ascii "Foo") [ascii "bar"] := by
  have hkey {key : Bytes} (hhas : prefixedState.rws.handlerHeader.has key = true) :
      key = ascii "Trailer:Foo" := by
    obtain ⟨kv, hkv, heq⟩ := any_eq_true.mp hhas
    obtain rfl := beq_iff_eq.mp heq
    cases mem_singleton.mp hkv
    rfl
  refine ⟨⟨by decide, by decide, by decide, by decide, by decide⟩,
    .inr ⟨ascii "Trailer:Foo", by decide, by decide, by decide, by decide⟩,
    fun k' vv' hentry _ => ?_⟩
  rcases hentry with ⟨hk, _⟩ | ⟨key, hhas, hleads, _, rfl⟩
  · cases hk
  · obtain rfl := hkey hhas
    cases hleads with
    | one _ => exact ⟨by decide, by decide⟩
    | more _ hmore => exact absurd hmore.front (by decide)

/-- The trailer of a response without a body is lost. -/
theorem undeclared_trailer_lost :
    Progress.run plainEnv [.header [(ascii "Trailer:Foo", [ascii "bar"])]] = .ok prefixedState ∧
      Sets plainEnv prefixedState.rws (ascii "Foo") [ascii "bar"] ∧
      ¬ Delivered plainEnv prefixedState.rws (prefixedState.rws.finish plainEnv).out := by
  have hshape : Shape prefixedState.rws [] :=
    shape_new.congr shape_new.statusOk
  exact ⟨rfl, sets_prefixedState, (hshape.finish rfl).not_delivered (by decide)⟩

end ResponseWriter

end Fhttp.Http2
