import Mathlib.Algebra.BigOperators.Group.List.Basic
import Fhttp.Http2.RequestFields

/-!
# Lengths in the header of a request

Two results about what `encodeHeaders` counts: how many `content-length` fields a request
has, and the size of the header list, for which the peer may have set a limit.
-/

namespace Fhttp.Http2

open Hpack (Bytes HeaderField Encoder ascii)
open Http (Runtime headerOrderKey pHeaderOrderKey lowerAscii isAscii)
open List

variable {rt : Runtime} {g : HttpGuts} {kv : Bytes × List Bytes}

/-! ## The content length -/

/-- The keys of a map that are `content-length` up to their case. -/
def contentLengthKeys (h : Header) : Header :=
  h.filter fun kv => lowerAscii kv.1 == ascii "content-length"

def contentLengthFields (fields : List HeaderField) : List HeaderField :=
  fields.filter fun f => f.name == ascii "content-length"

/-- The fields with a name are those of the keys with that name. -/
theorem filter_flatMap_keyWritten (hg : g.Documented) {name : Bytes}
    {kvs : List (Bytes × List Bytes)}
    (hkvs : ∀ kv ∈ kvs, checkKey g kv = none) :
    (kvs.flatMap (keyWritten rt)).filter (fun f => f.name == name) =
      (kvs.filter fun kv => lowerAscii kv.1 == name).flatMap (keyWritten rt) := by
  induction kvs with
  | nil => rfl
  | cons kv kvs ih =>
    obtain ⟨hkv, hrest⟩ := forall_mem_cons.mp hkvs
    have hnames : ∀ f ∈ keyWritten rt kv, (f.name == name) = (lowerAscii kv.1 == name) := by
      intro f hf
      rw [(keyWritten_spec hg hkv hf).2.1]
    rw [flatMap_cons, filter_append, ih hrest, filter_cons, filter_congr hnames]
    cases lowerAscii kv.1 == name with
    | true => rw [filter_true, if_pos rfl, flatMap_cons]
    | false => rw [filter_false, nil_append, if_neg Bool.false_ne_true]

theorem length_keyWritten_contentLength {k : Bytes} {vs : List Bytes} (hascii : isAscii k = true)
    (hk : lowerAscii k = ascii "content-length") : (keyWritten rt (k, vs)).length = vs.length := by
  have hmagic : isMagicKey k = false := by
    rw [Bool.eq_false_iff]
    intro hmagic
    rw [isMagicKey, Bool.or_eq_true, beq_iff_eq, beq_iff_eq] at hmagic
    rcases hmagic with rfl | rfl <;> exact absurd hk (by decide)
  have hall : ∀ f ∈ vs.map fun v => (k, v), (!isMagicKey f.1) = true := by
    intro f hf
    obtain ⟨v, -, rfl⟩ := mem_map.mp hf
    rw [hmagic]
    rfl
  have hregular : lowerAscii k ∉ specialKeys := by
    rw [hk]
    decide
  unfold keyWritten
  rw [keyFields_regular hascii hregular, filter_eq_self.mpr hall, length_map, length_map]

theorem contentLengthKeys_outgoing (req : Http.Request) (gzip : Bool) (n : Int) :
    contentLengthKeys (outgoingHeader req gzip n) =
      contentLengthKeys req.header ++
        if (req.header.get? (ascii "content-length")).isNone &&
            shouldSendReqContentLength req.method n then
          [(ascii "content-length", [formatInt n])]
        else [] := by
  have hgzip (h : Header) (vs : List Bytes) :
      contentLengthKeys (h.addMissing gzip (ascii "accept-encoding") vs) = contentLengthKeys h := by
    unfold Header.addMissing
    split
    · have hnil : contentLengthKeys [(ascii "accept-encoding", vs)] = [] := rfl
      unfold Header.set
      rw [contentLengthKeys, filter_append, ← contentLengthKeys, ← contentLengthKeys, hnil,
        append_nil, contentLengthKeys, filter_filter]
      refine filter_congr fun kv _ => ?_
      rw [Bool.and_eq_left_iff_imp, beq_iff_eq, bne_iff_ne]
      intro hlower heq
      rw [heq] at hlower
      exact absurd hlower (by decide)
    · rfl
  unfold outgoingHeader
  rw [hgzip]
  unfold Header.addMissing
  split
  · rename_i hsend
    have hnone := (Bool.and_eq_true_iff.mp hsend).1
    rw [Option.isNone_iff_eq_none, Header.get?_eq_none] at hnone
    unfold contentLengthKeys Header.set
    rw [filter_append, filter_eq_self.mpr fun kv hkv => bne_iff_ne.mpr (hnone kv hkv)]
    rfl
  · rw [append_nil]

namespace ClientConn

variable {cc : ClientConn} {req : Http.Request} {host path trailers : Bytes} {gzip : Bool} {n : Int}

theorem length_contentLengthFields (hg : g.Documented)
    (hcheck : ∀ kv ∈ req.header, checkKey g kv = none) :
    (contentLengthFields (cc.writtenFields rt req host path gzip trailers n)).length =
      ((contentLengthKeys (outgoingHeader req gzip n)).map fun kv => kv.2.length).sum := by
  have hown {l : List (Bytes × Bytes)} (hl : ∀ f ∈ l, f.1 ∈ ownNames) :
      (l.map plainField).filter (fun f => f.name == ascii "content-length") = [] := by
    have hnames : ∀ k ∈ ownNames, (k == ascii "content-length") = false := by decide
    rw [filter_eq_nil_iff]
    intro f hf
    obtain ⟨f₀, hf₀, rfl⟩ := mem_map.mp hf
    rw [plainField, hnames f₀.1 (hl f₀ hf₀)]
    exact Bool.false_ne_true
  have hkeys : ∀ kv ∈ requestKeys rt 2 req gzip n, checkKey g kv = none := fun kv hkv =>
    checkKey_outgoing hg hcheck ((requestKeys_perm 2).mem_iff.mp hkv)
  have hperm : ((requestKeys rt 2 req gzip n).filter fun kv =>
      lowerAscii kv.1 == ascii "content-length").Perm
      (contentLengthKeys (outgoingHeader req gzip n)) := (requestKeys_perm 2).filter _
  unfold contentLengthFields
  rw [writtenFields_eq, filter_append, filter_append, hown leadingFields_names,
    hown userAgentFields_names, filter_flatMap_keyWritten hg hkeys, nil_append, append_nil,
    (hperm.flatMap_right (keyWritten rt)).length_eq, length_flatMap]
  refine congrArg sum (map_congr_left fun kv hkv => ?_)
  obtain ⟨hmem, hlower⟩ := mem_filter.mp hkv
  exact length_keyWritten_contentLength
    ((checkKey_eq_none (checkKey_outgoing hg hcheck hmem)).1.isAscii hg) (beq_iff_eq.mp hlower)

/-- For a request whose map has at most one `content-length` key, with one value: there is at
most one such field, and exactly one if the length of the body is known, if and only if
the key is in lower case whenever the transport adds the field. -/
theorem single_contentLength_iff {punycodeHostPort : Bytes → Except String Bytes}
    (hg : g.Documented)
    {fields : List HeaderField}
    (h : cc.requestFields rt g punycodeHostPort req gzip trailers (actualContentLength req) =
      .ok fields)
    (hone : contentLengthKeys req.header = [] ∨
      ∃ k v, contentLengthKeys req.header = [(k, [v])]) :
    ((contentLengthFields fields).length ≤ 1 ∧
      (req.body = true → 0 < req.contentLength → (contentLengthFields fields).length = 1)) ↔
      (shouldSendReqContentLength req.method (actualContentLength req) = true →
        ∀ kv ∈ req.header, lowerAscii kv.1 = ascii "content-length" →
          kv.1 = ascii "content-length") := by
  obtain ⟨host, path, -, hcheck, -, rfl⟩ := requestFields_eq_ok.mp h
  have hknown : req.body = true → 0 < req.contentLength →
      shouldSendReqContentLength req.method (actualContentLength req) = true := by
    intro hbody hpos
    have hactual : actualContentLength req = req.contentLength := by
      rw [actualContentLength, hbody, Bool.not_true, if_neg Bool.false_ne_true,
        if_pos (ne_of_gt hpos)]
    rw [hactual, shouldSendReqContentLength, if_pos hpos]
  have hmem {kv : Bytes × List Bytes} : kv ∈ contentLengthKeys req.header ↔
      kv ∈ req.header ∧ lowerAscii kv.1 = ascii "content-length" := by
    rw [contentLengthKeys, mem_filter, beq_iff_eq]
  have hexact {kv : Bytes × List Bytes} (hkv : kv ∈ req.header)
      (heq : kv.1 = ascii "content-length") : kv ∈ contentLengthKeys req.header := by
    refine hmem.mpr ⟨hkv, ?_⟩
    rw [heq]
    decide
  rw [length_contentLengthFields hg hcheck, contentLengthKeys_outgoing]
  generalize hsend :
      shouldSendReqContentLength req.method (actualContentLength req) = send at hknown
  rcases hone with hnone | ⟨k, v, hkey⟩
  · have habsent : (req.header.get? (ascii "content-length")).isNone = true := by
      rw [Option.isNone_iff_eq_none, Header.get?_eq_none]
      intro kv hkv heq
      have hin := hexact hkv heq
      rw [hnone] at hin
      cases hin
    have hright : ∀ kv ∈ req.header, lowerAscii kv.1 = ascii "content-length" →
        kv.1 = ascii "content-length" := by
      intro kv hkv hlower
      have hin := hmem.mpr ⟨hkv, hlower⟩
      rw [hnone] at hin
      cases hin
    rw [hnone, habsent, Bool.true_and]
    refine ⟨fun _ _ => hright, fun _ => ?_⟩
    cases send with
    | true => exact ⟨Nat.le_refl 1, fun _ _ => rfl⟩
    | false =>
      exact ⟨Nat.zero_le 1, fun hbody hpos => absurd (hknown hbody hpos) Bool.false_ne_true⟩
  · obtain ⟨hin, hlower⟩ := hmem.mp (hkey ▸ mem_singleton_self (k, [v]))
    have honly : (∀ kv ∈ req.header, lowerAscii kv.1 = ascii "content-length" →
        kv.1 = ascii "content-length") ↔ k = ascii "content-length" := by
      refine ⟨fun hall => hall _ hin hlower, fun hk kv hkv hlower' => ?_⟩
      have hin' := hmem.mpr ⟨hkv, hlower'⟩
      rw [hkey, mem_singleton] at hin'
      rw [hin', hk]
    have habsent : (req.header.get? (ascii "content-length")).isNone = true ↔
        k ≠ ascii "content-length" := by
      rw [Option.isNone_iff_eq_none, Header.get?_eq_none]
      refine ⟨fun hall => hall _ hin, fun hk kv hkv heq => hk ?_⟩
      have hin' := hexact hkv heq
      rw [hkey, mem_singleton] at hin'
      rw [← heq, hin']
    rw [hkey, honly]
    by_cases hk : k = ascii "content-length"
    · have hpresent : (req.header.get? (ascii "content-length")).isNone = false :=
        Bool.eq_false_iff.mpr fun hnone => habsent.mp hnone hk
      rw [hpresent, Bool.false_and]
      exact ⟨fun _ _ => hk, fun _ => ⟨Nat.le_refl 1, fun _ _ => rfl⟩⟩
    · rw [habsent.mpr hk, Bool.true_and]
      cases send with
      | true =>
        exact ⟨fun hle => absurd hle.1 (by simp), fun himp => absurd (himp rfl) hk⟩
      | false =>
        exact ⟨fun _ => nofun, fun _ =>
          ⟨Nat.le_refl 1, fun hbody hpos => absurd (hknown hbody hpos) Bool.false_ne_true⟩⟩

/-- A request for `https://a/` without a body. -/
def bareRequest (method : Bytes) (header : Header) (hnodup : (header.map Prod.fst).Nodup) :
    Http.Request where
  method := method
  url := { scheme := ascii "https", host := ascii "a", escapedPath := ascii "/" }
  host := []
  header := header
  header_nodup := hnodup
  contentLength := 0
  body := false

/-- A `POST` request with five octets whose map has one key, with the value `5`. -/
def postRequest (key : Bytes) : Http.Request :=
  { bareRequest (ascii "POST") [(key, [ascii "5"])] (nodup_singleton key) with
    contentLength := 5, body := true }

theorem single_contentLength_iff_lower :
    ∃ fields, plainConn.plainFields (postRequest (ascii "content-length")) [] = .ok fields ∧
      (contentLengthFields fields).length = 1 := by
  have hok : (plainConn.plainFields (postRequest (ascii "content-length")) []).toOption.isSome =
      true := by decide +kernel
  cases hfields : plainConn.plainFields (postRequest (ascii "content-length")) [] with
  | error e =>
    rw [hfields] at hok
    cases hok
  | ok fields =>
    have hiff := single_contentLength_iff HttpGuts.documented_tables hfields
      (Or.inr ⟨ascii "content-length", ascii "5", by decide⟩)
    exact ⟨fields, rfl, (hiff.mpr (by decide)).2 rfl (by decide)⟩

/-- With the key in its canonical form there are two such fields. -/
theorem two_contentLengths :
    (plainConn.plainFields (postRequest (ascii "Content-Length")) []).toOption.map
      (fun fields => (contentLengthFields fields).length) = some 2 := by
  decide +kernel

end ClientConn

/-! ## The size of the header list -/

/-- The HPACK size of a list of fields. -/
def fieldsSize (fields : List HeaderField) : Nat := (fields.map HeaderField.entrySize).sum

/-- The sum of the sizes, each as a `uint32`. -/
def wrappedSize (fields : List HeaderField) : Nat :=
  (fields.map fun f => f.entrySize % 2 ^ 32).sum

/-- The values of the magic keys, as fields. -/
def magicFields (h : Header) : List HeaderField :=
  (h.filter fun kv => isMagicKey kv.1).flatMap fun kv => kv.2.map fun v => plainField (kv.1, v)

theorem wrappedSize_append (l l' : List HeaderField) :
    wrappedSize (l ++ l') = wrappedSize l + wrappedSize l' := by
  unfold wrappedSize
  rw [map_append, sum_append]

theorem wrappedSize_of_lt {fields : List HeaderField} (h : ∀ f ∈ fields, f.entrySize < 2 ^ 32) :
    wrappedSize fields = fieldsSize fields := by
  unfold wrappedSize fieldsSize
  rw [map_congr_left fun f hf => Nat.mod_eq_of_lt (h f hf)]

theorem toNat_headerListSize (l : List (Bytes × Bytes)) :
    (headerListSize l).toNat = wrappedSize (l.map plainField) % 2 ^ 64 := by
  have hfold (l : List (Bytes × Bytes)) (a : UInt64) :
      (l.foldl (fun n f => n + (HeaderField.size { name := f.1, value := f.2 }).toUInt64) a).toNat =
        (a.toNat + wrappedSize (l.map plainField)) % 2 ^ 64 := by
    induction l generalizing a with
    | nil =>
      exact (Nat.mod_eq_of_lt a.toNat_lt).symm
    | cons f l ih =>
      have hsize : (HeaderField.size { name := f.1, value := f.2 }).toUInt64.toNat =
          (plainField f).entrySize % 2 ^ 32 := HeaderField.size_toNat _
      rw [foldl_cons, ih, UInt64.toNat_add, hsize, Nat.mod_add_mod, map_cons]
      unfold wrappedSize
      rw [map_cons, sum_cons, Nat.add_assoc]
  have h := hfold l 0
  rwa [show (0 : UInt64).toNat = 0 from rfl, Nat.zero_add] at h

/-- A magic key has its values as fields, which are not written. -/
theorem keyFields_magic {rt : Runtime} (hmagic : isMagicKey kv.1 = true) :
    (keyFields rt kv).1 = kv.2.map fun v => (kv.1, v) := by
  have hascii : isAscii kv.1 = true := (KeyKind.magic hmagic).isAscii HttpGuts.documented_tables
  have hspecial : ∀ k ∈ [pHeaderOrderKey, headerOrderKey], lowerAscii k ∉ specialKeys := by decide
  rw [isMagicKey, Bool.or_eq_true, beq_iff_eq, beq_iff_eq] at hmagic
  exact keyFields_regular hascii (hspecial kv.1 (mem_pair.mpr hmagic))

/-- What one key adds to the sum: its fields that are written, or the values of a magic
key. -/
theorem wrappedSize_keyFields (hg : g.Documented) (hkv : checkKey g kv = none) :
    wrappedSize ((keyFields rt kv).1.map plainField) =
      wrappedSize (keyWritten rt kv) + wrappedSize (magicFields [kv]) := by
  have hascii := (checkKey_eq_none hkv).1.isAscii hg
  by_cases hmagic : isMagicKey kv.1 = true
  · have hnil : keyWritten rt kv = [] := by
      rw [eq_nil_iff_forall_not_mem]
      intro f hf
      exact Bool.false_ne_true ((keyWritten_spec hg hkv hf).1.symm.trans hmagic)
    have hfields : magicFields [kv] = kv.2.map fun v => plainField (kv.1, v) := by
      unfold magicFields
      rw [filter_cons, if_pos hmagic, filter_nil, flatMap_singleton]
    rw [keyFields_magic hmagic, hnil, hfields, map_map]
    exact (Nat.zero_add _).symm
  · have hnil : magicFields [kv] = [] := by
      unfold magicFields
      rw [filter_cons, if_neg hmagic, filter_nil]
      rfl
    have hall : ∀ f ∈ (keyFields rt kv).1, isAscii f.1 = true ∧ (!isMagicKey f.1) = true := by
      intro f hf
      rcases (keyFields_spec hascii hf).1 with heq | ⟨heq, -⟩
      · rw [heq, Bool.eq_false_of_not_eq_true hmagic]
        exact ⟨hascii, rfl⟩
      · rw [heq]
        decide
    rw [hnil, keyWritten, filter_eq_self.mpr fun f hf => (hall f hf).2]
    unfold wrappedSize
    rw [map_map, map_map, map_nil, sum_nil, Nat.add_zero]
    refine congrArg sum (map_congr_left fun f hf => ?_)
    have hlen : (rt.toLower f.1).length = f.1.length := by
      rw [rt.toLower_ascii _ (hall f hf).1, lowerAscii, length_map]
    simp only [Function.comp_apply, HeaderField.entrySize, plainField, hlen]

theorem wrappedSize_flatMap {l : List (Bytes × List Bytes)}
    {f : Bytes × List Bytes → List HeaderField} :
    wrappedSize (l.flatMap f) = (l.map fun kv => wrappedSize (f kv)).sum := by
  induction l with
  | nil => rfl
  | cons kv l ih => rw [flatMap_cons, wrappedSize_append, ih, map_cons, sum_cons]

theorem wrappedSize_magicFields (h : Header) :
    wrappedSize (magicFields h) = (h.map fun kv => wrappedSize (magicFields [kv])).sum := by
  induction h with
  | nil => rfl
  | cons kv h ih =>
    have happend : magicFields (kv :: h) = magicFields [kv] ++ magicFields h := by
      unfold magicFields
      rw [← flatMap_append, ← filter_append, singleton_append]
    rw [happend, wrappedSize_append, ih, map_cons, sum_cons]

/-- The transport adds no magic key. -/
theorem magicFields_outgoing (req : Http.Request) (gzip : Bool) (n : Int) :
    magicFields (outgoingHeader req gzip n) = magicFields req.header := by
  have hadd (h : Header) {add : Bool} {key : Bytes} (vs : List Bytes)
      (hkey : isMagicKey key = false) :
      magicFields (h.addMissing add key vs) = magicFields h := by
    unfold Header.addMissing
    split
    · have hkeep : ∀ kv ∈ h, (isMagicKey kv.1 && kv.1 != key) = isMagicKey kv.1 := by
        intro kv _
        rw [Bool.and_eq_left_iff_imp]
        intro hmagic
        refine bne_iff_ne.mpr fun heq => ?_
        rw [heq, hkey] at hmagic
        cases hmagic
      have hlast : [(key, vs)].filter (fun kv => isMagicKey kv.1) = [] :=
        filter_cons_of_neg (ne_of_eq_of_ne hkey Bool.false_ne_true)
      unfold magicFields Header.set
      rw [filter_append, filter_filter, filter_congr hkeep, hlast, append_nil]
    · rfl
  unfold outgoingHeader
  rw [hadd _ _ (by decide), hadd _ _ (by decide)]

namespace ClientConn

variable {cc : ClientConn} {req : Http.Request} {host path trailers : Bytes} {gzip : Bool} {n : Int}

/-- The first traversal counts what the second one writes, and the values of the magic
keys. -/
theorem wrappedSize_enumerateHeaders (hg : g.Documented)
    (hcheck : ∀ kv ∈ req.header, checkKey g kv = none) :
    wrappedSize ((cc.enumerateHeaders rt 1 req host path gzip trailers n).map plainField) =
      wrappedSize (cc.writtenFields rt req host path gzip trailers n) +
        wrappedSize (magicFields req.header) := by
  have hagent : userAgentFields rt 1 req gzip n = userAgentFields rt 2 req gzip n := by
    have hany : ((requestKeys rt 1 req gzip n).any fun kv => (keyFields rt kv).2) =
        (requestKeys rt 2 req gzip n).any fun kv => (keyFields rt kv).2 :=
      ((requestKeys_perm 1).trans (requestKeys_perm 2).symm).any_eq
    unfold userAgentFields
    rw [hany]
  have hcounted : wrappedSize (((requestKeys rt 1 req gzip n).flatMap fun kv =>
      (keyFields rt kv).1).map plainField) =
      wrappedSize ((requestKeys rt 2 req gzip n).flatMap (keyWritten rt)) +
        wrappedSize (magicFields req.header) := by
    have hkeys {i : Nat} (w : Bytes × List Bytes → Nat) :
        ((requestKeys rt i req gzip n).map w).sum = ((outgoingHeader req gzip n).map w).sum :=
      ((requestKeys_perm i).map w).sum_eq
    have hsum : ((outgoingHeader req gzip n).map fun kv =>
        wrappedSize ((keyFields rt kv).1.map plainField)) =
        (outgoingHeader req gzip n).map fun kv =>
          wrappedSize (keyWritten rt kv) + wrappedSize (magicFields [kv]) :=
      map_congr_left fun kv hkv => wrappedSize_keyFields hg (checkKey_outgoing hg hcheck hkv)
    rw [map_flatMap, wrappedSize_flatMap, hkeys, hsum, sum_map_add, wrappedSize_flatMap,
      hkeys, ← wrappedSize_magicFields, magicFields_outgoing]
  rw [enumerateHeaders_eq, writtenFields_eq, map_append, map_append, wrappedSize_append,
    wrappedSize_append, wrappedSize_append, wrappedSize_append, hcounted, hagent]
  omega

theorem encodeHeaders?_error {punycodeHostPort : Bytes → Except String Bytes} {e : EncodeError}
    {henc : Encoder} :
    cc.encodeHeaders? rt g punycodeHostPort req gzip trailers n = some (.error e, henc) ↔
      cc.requestFields rt g punycodeHostPort req gzip trailers n = .error e ∧ henc = cc.henc := by
  unfold encodeHeaders?
  cases cc.requestFields rt g punycodeHostPort req gzip trailers n with
  | error e' =>
    simp only [Option.some.injEq, Prod.mk.injEq, Except.error.injEq]
    exact and_congr_right fun _ => eq_comm
  | ok fields =>
    simp

/-- What the first traversal counts, in a `uint64`. -/
def countedSize (written : List HeaderField) (h : Header) : Nat :=
  (wrappedSize written + wrappedSize (magicFields h)) % 2 ^ 64

theorem toNat_counted (hg : g.Documented) (hcheck : ∀ kv ∈ req.header, checkKey g kv = none) :
    (headerListSize (cc.enumerateHeaders rt 1 req host path gzip trailers n)).toNat =
      countedSize (cc.writtenFields rt req host path gzip trailers n) req.header := by
  rw [toNat_headerListSize, wrappedSize_enumerateHeaders hg hcheck, countedSize]

/-- For a request with a valid target and valid keys: the limit is exceeded by what is
written exactly when `encodeHeaders` says so, if and only if the wrapped sizes of the
written fields and of the values of the magic keys together are on the same side of it.
If no size wraps, that is the case if and only if the limit is exceeded, or the values of
the magic keys fit too.  For every request, the encoder is as before on every error. -/
theorem headerListSize_error_iff (rt : Runtime) (g : HttpGuts) (cc : ClientConn)
    (punycodeHostPort : Bytes → Except String Bytes) (req : Http.Request) (gzip : Bool)
    (trailers : Bytes) (n : Int) :
    (g.Documented → ∀ host path, requestTarget punycodeHostPort req = .ok (host, path) →
      (∀ kv ∈ req.header, checkKey g kv = none) → ∀ written limit,
      written = cc.writtenFields rt req host path gzip trailers n →
      limit = cc.peerMaxHeaderListSize.toNat →
      ((cc.encodeHeaders? rt g punycodeHostPort req gzip trailers n =
            some (.error .requestHeaderListSize, cc.henc) ↔ limit < fieldsSize written) ↔
          (limit < countedSize written req.header ↔ limit < fieldsSize written)) ∧
        ((∀ f ∈ written ++ magicFields req.header, f.entrySize < 2 ^ 32) →
          fieldsSize written + fieldsSize (magicFields req.header) < 2 ^ 64 →
          ((limit < countedSize written req.header ↔ limit < fieldsSize written) ↔
            (limit < fieldsSize written ∨
              fieldsSize written + fieldsSize (magicFields req.header) ≤ limit)))) ∧
    ∀ e henc, cc.encodeHeaders? rt g punycodeHostPort req gzip trailers n =
      some (.error e, henc) → henc = cc.henc := by
  refine ⟨?_, fun e henc herror => (encodeHeaders?_error.mp herror).2⟩
  rintro hg host path htarget hcheck written limit rfl rfl
  refine ⟨?_, fun hsizes htotal => ?_⟩
  · have hrange : (rt.range 0 req.header).findSome? (checkKey g) = none := by
      rw [findSome?_eq_none_iff]
      exact fun kv hkv => hcheck kv ((rt.range_perm 0 req.header).mem_iff.mp hkv)
    have hsize : cc.peerMaxHeaderListSize <
          headerListSize (cc.enumerateHeaders rt 1 req host path gzip trailers n) ↔
        cc.peerMaxHeaderListSize.toNat <
          countedSize (cc.writtenFields rt req host path gzip trailers n) req.header := by
      rw [UInt64.lt_iff_toNat_lt, toNat_counted hg hcheck]
    rw [encodeHeaders?_error, and_iff_left rfl, ← hsize]
    unfold requestFields
    rw [htarget]
    rw [hrange]
    dsimp only
    split
    · rename_i hlarge
      simp only [hlarge]
    · rename_i hsmall
      simp only [hsmall, reduceCtorEq]
  · have hcounted : countedSize (cc.writtenFields rt req host path gzip trailers n) req.header =
        fieldsSize (cc.writtenFields rt req host path gzip trailers n) +
          fieldsSize (magicFields req.header) := by
      rw [countedSize, wrappedSize_of_lt fun f hf => hsizes f (mem_append_left _ hf),
        wrappedSize_of_lt fun f hf => hsizes f (mem_append_right _ hf), Nat.mod_eq_of_lt htotal]
    omega

/-- A connection whose peer has a limit for the header list. -/
def limitedConn (limit : UInt64) : ClientConn := { plainConn with peerMaxHeaderListSize := limit }

/-- A request that asks for an order of its header. -/
def listRequest : Http.Request :=
  bareRequest (ascii "GET") [(headerOrderKey, [ascii "a"])] (nodup_singleton _)

def listFields : List HeaderField :=
  plainConn.writtenFields .plain listRequest (ascii "a") (ascii "/") false [] 0

theorem headerListSize_error_iff_fits :
    fieldsSize listFields = 227 ∧
      ¬ (limitedConn 300).encodeHeaders? .plain .tables .ok listRequest false [] 0 =
        some (.error .requestHeaderListSize, (limitedConn 300).henc) := by
  have hsize : fieldsSize listFields = 227 := by decide +kernel
  have hsizes : ∀ f ∈ listFields ++ magicFields listRequest.header, f.entrySize < 2 ^ 32 := by
    decide +kernel
  have htarget : requestTarget .ok listRequest = .ok (ascii "a", ascii "/") := by decide +kernel
  obtain ⟨hiff, hnowrap⟩ :=
    (headerListSize_error_iff .plain .tables (limitedConn 300) .ok listRequest false [] 0).1
      HttpGuts.documented_tables _ _ htarget (by decide +kernel) listFields 300 rfl rfl
  refine ⟨hsize, fun herror => ?_⟩
  have hfits := (hnowrap hsizes (by decide)).mpr (Or.inr (by decide))
  exact absurd ((hiff.mpr hfits).mp herror) (by decide)

/-- The fields would fit, but the values of the magic key are counted too. -/
theorem headerListSize_counts_magic :
    fieldsSize listFields = 227 ∧
      (limitedConn 250).encodeHeaders? .plain .tables .ok listRequest false [] 0 =
        some (.error .requestHeaderListSize, (limitedConn 250).henc) := by
  refine ⟨by decide +kernel, ?_⟩
  rw [encodeHeaders?_error, and_iff_left rfl]
  have hcheck : ((limitedConn 250).requestFields .plain .tables .ok listRequest false [] 0) =
      .error .requestHeaderListSize := by decide +kernel
  exact hcheck

end ClientConn

end Fhttp.Http2
