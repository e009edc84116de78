import Fhttp.Http2.EncodeHeaders

/-!
# The fields of a request

What `encodeHeaders` writes, key by key.  A key that has passed the checks is a token, or
`:protocol`, or one of the two magic keys; its fields have the key in lower case as their
name, and the magic keys have none (`keyWritten_spec`).  Since the header map is only
sorted, every count and every sum over the fields can be taken over the map itself
(`requestKeys_perm`, `writtenFields_eq`).
-/

namespace Fhttp.Http2

open Hpack (Bytes HeaderField ascii)
open Http (Runtime headerOrderKey lowerAscii isAscii)
open List

/-- A field as `writeHeader` gets it. -/
def plainField (f : Bytes × Bytes) : HeaderField := { name := f.1, value := f.2 }

/-- The fields that are written for one key of the map. -/
def keyWritten (rt : Runtime) (kv : Bytes × List Bytes) : List HeaderField :=
  ((keyFields rt kv).1.filter fun f => !isMagicKey f.1).map fun f =>
    { name := rt.toLower f.1, value := f.2 }

variable {rt : Runtime} {g : HttpGuts} {kv : Bytes × List Bytes}

/-! ## One key -/

variable {b : UInt8} {k key : Bytes} {f : HeaderField} {h : Header} {req : Http.Request}
  {gzip : Bool} {n : Int}

/-- The characters of a token can be seen, and are still such characters in lower case. -/
theorem validHeaderFieldByte_spec : validHeaderFieldByte b = true →
    0x20 < b ∧ b < 0x7f ∧ validHeaderFieldByte (Http.lowerByte b) = true ∧
      (!(65 ≤ Http.lowerByte b && Http.lowerByte b ≤ 90)) = true :=
  Hpack.forall_uint8 (P := fun b => validHeaderFieldByte b = true → 0x20 < b ∧ b < 0x7f ∧
    validHeaderFieldByte (Http.lowerByte b) = true ∧
      (!(65 ≤ Http.lowerByte b && Http.lowerByte b ≤ 90)) = true) (by decide +kernel) b

theorem isAscii_of_valid (hg : g.Documented) (h : g.validHeaderFieldName k = true) :
    isAscii k = true := by
  rw [HttpGuts.validHeaderFieldName, Bool.and_eq_true, all_eq_true] at h
  rw [isAscii, all_eq_true]
  intro b hb
  have hbyte := h.2 b hb
  rw [hg.token] at hbyte
  exact decide_eq_true (UInt8.lt_trans (validHeaderFieldByte_spec hbyte).2.1 (by decide))

/-- The keys that pass the checks. -/
inductive KeyKind (g : HttpGuts) (k : Bytes) : Prop where
  | magic (h : isMagicKey k = true)
  | token (h : g.validHeaderFieldName k = true)
  | protocol (h : k = ascii ":protocol")

theorem checkKey_eq_none (h : checkKey g kv = none) :
    KeyKind g kv.1 ∧ (isMagicKey kv.1 = false → ∀ v ∈ kv.2, g.validHeaderFieldValue v = true) := by
  unfold checkKey at h
  split at h
  · split at h
    · rename_i hmagic
      exact ⟨.magic hmagic, fun hnot => absurd (hmagic.symm.trans hnot) (by decide)⟩
    · cases h
  · rename_i hname
    rw [Option.map_eq_none_iff, find?_eq_none] at h
    refine ⟨?_, fun _ v hv => by simpa using h v hv⟩
    cases hvalid : g.validHeaderFieldName kv.1 with
    | true => exact .token hvalid
    | false => exact .protocol (by simpa [hvalid] using hname)

theorem KeyKind.isAscii (hg : g.Documented) (h : KeyKind g k) : isAscii k = true := by
  cases h with
  | magic h =>
    rw [isMagicKey, Bool.or_eq_true, beq_iff_eq, beq_iff_eq] at h
    rcases h with h | h <;> rw [h] <;> decide
  | token h => exact isAscii_of_valid hg h
  | protocol h =>
    rw [h]
    decide

/-- The crumbs of a cookie are made of its octets. -/
theorem mem_of_mem_cookieCrumbs {v c : Bytes} (hc : c ∈ cookieCrumbs v) (hb : b ∈ c) : b ∈ v := by
  fun_induction cookieCrumbs v with
  | case1 v => rwa [← mem_singleton.mp hc]
  | case2 v => cases hc
  | case3 v p hsome ih =>
    rcases mem_cons.mp hc with rfl | hc
    · exact mem_of_mem_take hb
    · exact mem_of_mem_drop ((dropWhile_sublist _).mem (ih hc))

/-- The keys that are treated in a special way. -/
def specialKeys : List Bytes :=
  [ascii "host", ascii "connection", ascii "proxy-connection", ascii "transfer-encoding",
    ascii "upgrade", ascii "keep-alive", ascii "cookie", ascii "user-agent"]

theorem equalFold_special (hk : isAscii kv.1 = true) {t : Bytes} (ht : t ∈ specialKeys) :
    rt.equalFold kv.1 t = (lowerAscii kv.1 == t) := by
  have hspecial : ∀ t ∈ specialKeys, isAscii t = true ∧ lowerAscii t = t := by decide
  rw [rt.equalFold_ascii _ _ hk (hspecial t ht).1, (hspecial t ht).2]

/-- Every value of another key is a field. -/
theorem keyFields_regular (hk : isAscii kv.1 = true) (h : lowerAscii kv.1 ∉ specialKeys) :
    (keyFields rt kv).1 = kv.2.map fun v => (kv.1, v) := by
  have hfold {t : Bytes} (ht : t ∈ specialKeys) : rt.equalFold kv.1 t = false := by
    rw [equalFold_special hk ht]
    exact beq_false_of_ne fun heq => h (heq ▸ ht)
  unfold keyFields
  simp (disch := decide) only [hfold, Bool.or_false, Bool.false_eq_true, if_false]
  split
  · rename_i hlen
    rw [length_eq_zero_iff.mp hlen]
    rfl
  · rfl

/-- The fields of a key: their name is the key up to its case, and their values are made
of the octets of its values. -/
theorem keyFields_spec (hk : isAscii kv.1 = true) {f : Bytes × Bytes}
    (hf : f ∈ (keyFields rt kv).1) :
    (f.1 = kv.1 ∨ f.1 = ascii "cookie" ∧ lowerAscii kv.1 = ascii "cookie") ∧
      ∀ b ∈ f.2, ∃ v ∈ kv.2, b ∈ v := by
  unfold keyFields at hf
  split at hf
  · cases hf
  split at hf
  · cases hf
  split at hf
  · cases hf
  split at hf
  · rename_i hcookie
    rw [rt.equalFold_ascii _ _ hk (by decide), beq_iff_eq] at hcookie
    obtain ⟨c, hc, rfl⟩ := mem_map.mp hf
    obtain ⟨v, hv, hcrumb⟩ := mem_flatMap.mp hc
    exact ⟨.inr ⟨rfl, hcookie⟩, fun b hb => ⟨v, hv, mem_of_mem_cookieCrumbs hcrumb hb⟩⟩
  split at hf
  · split at hf
    · cases hf
    rename_i hne
    rw [mem_singleton.mp hf]
    refine ⟨.inl rfl, fun b hb => ?_⟩
    cases hvalues : kv.2 with
    | nil =>
      rw [hvalues] at hne
      exact absurd rfl hne
    | cons v vs =>
      rw [hvalues] at hb
      exact ⟨v, mem_cons_self, hb⟩
  · obtain ⟨v, hv, rfl⟩ := mem_map.mp hf
    exact ⟨.inl rfl, fun b hb => ⟨v, hv, hb⟩⟩

section

variable (hg : g.Documented)

include hg

theorem keyWritten_spec (hkv : checkKey g kv = none) (hf : f ∈ keyWritten rt kv) :
    isMagicKey kv.1 = false ∧ f.name = lowerAscii kv.1 ∧
      g.validHeaderFieldValue f.value = true := by
  obtain ⟨hkind, hvalues⟩ := checkKey_eq_none hkv
  have hascii := hkind.isAscii hg
  obtain ⟨f₀, hf₀, rfl⟩ := mem_map.mp hf
  obtain ⟨hmem, hmagic⟩ := mem_filter.mp hf₀
  rw [Bool.not_eq_true'] at hmagic
  obtain ⟨hname, hoctets⟩ := keyFields_spec hascii hmem
  have hnot : isMagicKey kv.1 = false := by
    rcases hname with heq | ⟨-, hlower⟩
    · rwa [← heq]
    · rw [Bool.eq_false_iff]
      intro hkey
      rw [isMagicKey, Bool.or_eq_true, beq_iff_eq, beq_iff_eq] at hkey
      rcases hkey with hkey | hkey <;> rw [hkey] at hlower <;> exact absurd hlower (by decide)
  refine ⟨hnot, ?_, ?_⟩
  · rcases hname with heq | ⟨heq, hlower⟩
    · rw [heq, rt.toLower_ascii _ hascii]
    · dsimp only
      rw [heq, rt.toLower_ascii _ (by decide), hlower]
      decide
  · refine all_eq_true.mpr fun b hb => ?_
    obtain ⟨v, hv, hbv⟩ := hoctets b hb
    exact all_eq_true.mp (hvalues hnot v hv) b hbv

/-- A token in lower case is a name on the wire. -/
theorem validWire_lowerAscii (hk : g.validHeaderFieldName k = true) :
    g.validWireHeaderFieldName (lowerAscii k) = true := by
  rw [HttpGuts.validHeaderFieldName, Bool.and_eq_true, all_eq_true] at hk
  rw [HttpGuts.validWireHeaderFieldName, Bool.and_eq_true, lowerAscii, all_map, isEmpty_map]
  refine ⟨hk.1, all_eq_true.mpr fun b hb => ?_⟩
  obtain ⟨-, -, hvalid, hcase⟩ := validHeaderFieldByte_spec (hg.token b ▸ hk.2 b hb)
  rw [Function.comp_apply, hg.token, hvalid, Bool.true_and, hcase]

theorem isPseudo_of_validWire (h : g.validWireHeaderFieldName f.name = true) :
    f.isPseudo = false := by
  rw [HttpGuts.validWireHeaderFieldName, Bool.and_eq_true, all_eq_true] at h
  unfold HeaderField.isPseudo
  cases hname : f.name with
  | nil => rfl
  | cons b rest =>
    have hb := h.2 b (hname ▸ mem_cons_self)
    rw [hg.token, Bool.and_eq_true] at hb
    have hne : b ≠ 58 := by
      rintro rfl
      exact absurd hb.1 (by decide)
    rw [getElem?_cons_zero, Bool.and_eq_false_iff]
    exact .inr (beq_false_of_ne fun heq => hne (Option.some.inj heq))

/-- The fields of a key are regular ones, unless the key is `:protocol`. -/
theorem keyWritten_name (hkv : checkKey g kv = none) (hf : f ∈ keyWritten rt kv) :
    kv.1 = ascii ":protocol" ∧ f.name = ascii ":protocol" ∨
      kv.1 ≠ ascii ":protocol" ∧ g.validWireHeaderFieldName f.name = true := by
  obtain ⟨hmagic, hname, -⟩ := keyWritten_spec hg hkv hf
  by_cases hprotocol : kv.1 = ascii ":protocol"
  · refine .inl ⟨hprotocol, ?_⟩
    rw [hname, hprotocol]
    decide
  · refine .inr ⟨hprotocol, ?_⟩
    cases (checkKey_eq_none hkv).1 with
    | magic h => exact absurd (h.symm.trans hmagic) (by decide)
    | token h =>
      rw [hname]
      exact validWire_lowerAscii hg h
    | protocol h => exact absurd h hprotocol

end

/-! ## The map that is sent -/

theorem Header.mem_set {values : List Bytes} :
    kv ∈ h.set key values ↔ kv ∈ h ∧ kv.1 ≠ key ∨ kv = (key, values) := by
  unfold Header.set
  rw [mem_append, mem_filter, mem_singleton, bne_iff_ne]

theorem valid_of_token (hg : g.Documented) {s : Bytes}
    (h : s.all (fun b => validHeaderFieldByte b || b == 0x20 || b == 0x2c) = true) :
    g.validHeaderFieldValue s = true := by
  refine all_eq_true.mpr fun b hb => ?_
  have hbyte := all_eq_true.mp h b hb
  rw [hg.value]
  rw [Bool.or_eq_true, Bool.or_eq_true, beq_iff_eq, beq_iff_eq] at hbyte
  rcases hbyte with (hbyte | rfl) | rfl
  · obtain ⟨hlow, hhigh, -⟩ := validHeaderFieldByte_spec hbyte
    rw [decide_eq_false (UInt8.not_lt.mpr (UInt8.le_of_lt hlow)),
      beq_false_of_ne (UInt8.ne_of_lt hhigh)]
    rfl
  · rfl
  · rfl

theorem valid_formatInt (hg : g.Documented) (n : Int) :
    g.validHeaderFieldValue (formatInt n) = true := by
  refine valid_of_token hg ?_
  unfold formatInt
  rw [all_append, Bool.and_eq_true, all_map]
  refine ⟨by split <;> decide, all_eq_true.mpr fun c hc => ?_⟩
  have hdigit := Nat.isDigit_of_mem_toDigits (by decide) (by decide) hc
  rw [Char.isDigit, Bool.and_eq_true, decide_eq_true_eq, decide_eq_true_eq] at hdigit
  have hdigits : ∀ i : Fin 10, validHeaderFieldByte (UInt8.ofNat (48 + i.val)) = true := by decide
  have hlow : 48 ≤ c.toNat := UInt32.le_iff_toNat_le.mp hdigit.1
  have hhigh : c.toNat ≤ 57 := UInt32.le_iff_toNat_le.mp hdigit.2
  have hbyte := hdigits ⟨c.toNat - 48, by omega⟩
  rw [Nat.add_sub_cancel' hlow] at hbyte
  show (validHeaderFieldByte (UInt8.ofNat c.toNat) || _ || _) = true
  rw [hbyte, Bool.true_or, Bool.true_or]

/-- A token with valid values passes the checks. -/
theorem checkKey_of_token (hk : g.validHeaderFieldName k = true) {vs : List Bytes}
    (hvs : ∀ v ∈ vs, g.validHeaderFieldValue v = true) : checkKey g (k, vs) = none := by
  unfold checkKey
  rw [hk, if_neg (by simp), Option.map_eq_none_iff, find?_eq_none]
  intro v hv
  rw [hvs v hv]
  decide

theorem mem_outgoingHeader (h : kv ∈ outgoingHeader req gzip n) :
    kv ∈ req.header ∨ kv = (ascii "content-length", [formatInt n]) ∨
      kv = (ascii "accept-encoding", [ascii "gzip, deflate, br"]) := by
  have hset {h : Header} {add : Bool} {k : Bytes} {vs : List Bytes}
      (hmem : kv ∈ h.addMissing add k vs) : kv ∈ h ∨ kv = (k, vs) := by
    unfold Header.addMissing at hmem
    split at hmem
    · exact (Header.mem_set.mp hmem).imp And.left id
    · exact .inl hmem
  rcases hset h with hmem | heq
  · exact (hset hmem).imp id .inl
  · exact .inr (.inr heq)

/-- Every key that is sent passes the checks. -/
theorem checkKey_outgoing (hg : g.Documented) (hcheck : ∀ kv ∈ req.header, checkKey g kv = none)
    (hkv : kv ∈ outgoingHeader req gzip n) : checkKey g kv = none := by
  have htoken {k : Bytes} (hk : HttpGuts.tables.validHeaderFieldName k = true) :
      g.validHeaderFieldName k = true := by
    have heq : g.isTokenByte = HttpGuts.tables.isTokenByte := funext hg.token
    rwa [HttpGuts.validHeaderFieldName, heq]
  rcases mem_outgoingHeader hkv with hmem | rfl | rfl
  · exact hcheck kv hmem
  · exact checkKey_of_token (htoken (by decide)) (forall_mem_singleton.mpr (valid_formatInt hg n))
  · exact checkKey_of_token (htoken (by decide))
      (forall_mem_singleton.mpr (valid_of_token hg (by decide)))

/-! ## All fields -/

/-- The names of the pseudo-header fields of a request. -/
def pseudoNames : List Bytes :=
  [ascii ":authority", ascii ":method", ascii ":path", ascii ":scheme"]

/-- The names that the transport uses itself. -/
def ownNames : List Bytes := pseudoNames ++ [ascii "trailer", ascii "user-agent"]

theorem ownNames_spec : ∀ k ∈ ownNames, isMagicKey k = false ∧ isAscii k = true ∧
    lowerAscii k = k := by
  decide

/-- The fields with such a name are written as they are. -/
theorem written_ownNames {l : List (Bytes × Bytes)} (h : ∀ f ∈ l, f.1 ∈ ownNames) :
    ((l.filter fun f => !isMagicKey f.1).map fun f =>
      ({ name := rt.toLower f.1, value := f.2 } : HeaderField)) = l.map plainField := by
  have hall : ∀ f ∈ l, (!isMagicKey f.1) = true := by
    intro f hf
    rw [(ownNames_spec f.1 (h f hf)).1]
    rfl
  rw [filter_eq_self.mpr hall]
  refine map_congr_left fun f hf => ?_
  obtain ⟨-, hascii, hlower⟩ := ownNames_spec f.1 (h f hf)
  rw [rt.toLower_ascii _ hascii, hlower]
  rfl

theorem pseudoHeader_names {host path : Bytes} {order : Option (List Bytes)} :
    ∀ f ∈ pseudoHeader req host path order, f.1 ∈ pseudoNames := by
  intro f hf
  have hone {k v : Bytes} (hk : k ∈ pseudoNames) (h : f ∈ [(k, v)]) : f.1 ∈ pseudoNames := by
    rwa [mem_singleton.mp h]
  have hsome {k v : Bytes} {c : Prop} [Decidable c] (hk : k ∈ pseudoNames)
      (h : f ∈ if c then [(k, v)] else []) : f.1 ∈ pseudoNames := by
    split at h
    · exact hone hk h
    · cases h
  have hpair {k k' v v' : Bytes} (hk : k ∈ pseudoNames) (hk' : k' ∈ pseudoNames)
      (h : f ∈ [(k, v), (k', v')]) : f.1 ∈ pseudoNames := by
    rcases mem_pair.mp h with rfl | rfl
    · exact hk
    · exact hk'
  cases order with
  | some order =>
    obtain ⟨p, -, hp⟩ := mem_flatMap.mp hf
    split at hp
    · exact hone (by decide) hp
    split at hp
    · exact hone (by decide) hp
    split at hp
    · exact hsome (by decide) hp
    split at hp
    · exact hsome (by decide) hp
    · cases hp
  | none =>
    rcases mem_append.mp hf with hf | hf
    · exact hpair (by decide) (by decide) hf
    · split at hf
      · exact hpair (by decide) (by decide) hf
      · cases hf

namespace ClientConn

variable {cc : ClientConn} {req : Http.Request} {host path trailers : Bytes} {gzip : Bool} {n : Int}

/-- The keys of the map in the order of the `i`-th traversal. -/
def requestKeys (rt : Runtime) (i : Nat) (req : Http.Request) (gzip : Bool) (n : Int) :
    List (Bytes × List Bytes) :=
  Http.sortedKeyValuesBy rt i (((outgoingHeader req gzip n).get? headerOrderKey).map Http.orderOf)
    (outgoingHeader req gzip n)

theorem requestKeys_perm (i : Nat) :
    (requestKeys rt i req gzip n).Perm (outgoingHeader req gzip n) :=
  Http.sortedKeyValuesBy_perm i _

/-- The fields before those of the map. -/
def leadingFields (cc : ClientConn) (req : Http.Request) (host path trailers : Bytes) :
    List (Bytes × Bytes) :=
  pseudoHeader req host path (cc.pseudoHeaderOrder req) ++
    if trailers ≠ [] then [(ascii "trailer", trailers)] else []

/-- The user agent, if the map has none. -/
def userAgentFields (rt : Runtime) (i : Nat) (req : Http.Request) (gzip : Bool) (n : Int) :
    List (Bytes × Bytes) :=
  if (requestKeys rt i req gzip n).any fun kv => (keyFields rt kv).2 then []
  else [(ascii "user-agent", defaultUserAgent)]

theorem enumerateHeaders_eq (i : Nat) :
    cc.enumerateHeaders rt i req host path gzip trailers n =
      cc.leadingFields req host path trailers ++
        (requestKeys rt i req gzip n).flatMap (fun kv => (keyFields rt kv).1) ++
        userAgentFields rt i req gzip n := rfl

theorem leadingFields_names : ∀ f ∈ cc.leadingFields req host path trailers, f.1 ∈ ownNames := by
  intro f hf
  rcases mem_append.mp hf with hf | hf
  · exact mem_append_left _ (pseudoHeader_names f hf)
  · have htrailer : ascii "trailer" ∈ ownNames := by decide
    split at hf
    · rwa [mem_singleton.mp hf]
    · cases hf

theorem userAgentFields_names {i : Nat} :
    ∀ f ∈ userAgentFields rt i req gzip n, f.1 ∈ ownNames := by
  intro f hf
  unfold userAgentFields at hf
  split at hf
  · cases hf
  · rw [mem_singleton.mp hf]
    decide

theorem writtenFields_eq :
    cc.writtenFields rt req host path gzip trailers n =
      (cc.leadingFields req host path trailers).map plainField ++
        (requestKeys rt 2 req gzip n).flatMap (keyWritten rt) ++
        (userAgentFields rt 2 req gzip n).map plainField := by
  unfold writtenFields
  rw [enumerateHeaders_eq, filter_append, filter_append, map_append, map_append,
    written_ownNames leadingFields_names, written_ownNames userAgentFields_names, filter_flatMap,
    map_flatMap]
  rfl

theorem requestFields_eq_ok {punycodeHostPort : Bytes → Except String Bytes}
    {fields : List HeaderField} :
    cc.requestFields rt g punycodeHostPort req gzip trailers n = .ok fields ↔
      ∃ host path, requestTarget punycodeHostPort req = .ok (host, path) ∧
        (∀ kv ∈ req.header, checkKey g kv = none) ∧
        headerListSize (cc.enumerateHeaders rt 1 req host path gzip trailers n) ≤
          cc.peerMaxHeaderListSize ∧
        fields = cc.writtenFields rt req host path gzip trailers n := by
  have hrange : (rt.range 0 req.header).findSome? (checkKey g) = none ↔
      ∀ kv ∈ req.header, checkKey g kv = none := by
    rw [findSome?_eq_none_iff]
    exact forall_congr' fun kv => by rw [(rt.range_perm 0 req.header).mem_iff]
  unfold requestFields
  cases htarget : requestTarget punycodeHostPort req with
  | error e => exact ⟨nofun, fun ⟨_, _, h, _⟩ => nomatch h⟩
  | ok target =>
    obtain ⟨host, path⟩ := target
    have huniq {p : Bytes → Bytes → Prop} :
        (∃ host' path', (Except.ok (host, path) : Except EncodeError _) = .ok (host', path') ∧
          p host' path') ↔ p host path :=
      ⟨fun ⟨_, _, h, hp⟩ => by cases h; exact hp, fun hp => ⟨host, path, rfl, hp⟩⟩
    rw [huniq, ← hrange]
    cases (rt.range 0 req.header).findSome? (checkKey g) with
    | some e => exact ⟨nofun, fun ⟨h, _⟩ => nomatch h⟩
    | none =>
      rw [and_iff_right rfl]
      dsimp only
      split
      · rename_i hlarge
        exact ⟨nofun, fun ⟨h, _⟩ => absurd hlarge (UInt64.not_lt.mpr h)⟩
      · rename_i hsmall
        rw [and_iff_right (UInt64.not_lt.mp hsmall), Except.ok.injEq]
        exact eq_comm

/-- A connection that has just been made. -/
def plainConn : ClientConn where
  t := {}
  fr := Framer.new []
  singleUse := false
  connFlow := 0
  streamFlow := 0

/-- The fields of a request for the plain runtime and a host that needs no encoding. -/
def plainFields (cc : ClientConn) (req : Http.Request) (trailers : Bytes) :
    Except EncodeError (List HeaderField) :=
  cc.requestFields .plain .tables .ok req false trailers (actualContentLength req)

end ClientConn

end Fhttp.Http2
