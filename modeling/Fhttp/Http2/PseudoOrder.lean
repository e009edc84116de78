import Mathlib.Data.List.Perm.Basic
import Fhttp.Http2.RequestLength

/-!
# The order of the pseudo-header

A request or a transport may ask for an order of the four pseudo-header fields.
`encodeHeaders` has one branch for requests with an order and one for the others, and the
two decide differently which fields a `CONNECT` request has.  An order that stands in the header
is also counted against the limit for the header list, though it is not sent.  `pseudo_order_iff`
says when the order changes nothing but the order.
-/

namespace Fhttp.Http2

open Hpack (Bytes HeaderField ascii)
open Http (Runtime pHeaderOrderKey isAscii)
open ClientConn (requestKeys requestKeys_perm userAgentFields)
open List

variable {rt : Runtime} {g : HttpGuts} {kv : Bytes × List Bytes}

/-- The runtime does not matter for a key that passes the checks. -/
theorem keyFields_plain (hk : isAscii kv.1 = true) : keyFields rt kv = keyFields .plain kv := by
  have hfold {t : Bytes} (ht : t ∈ specialKeys) :
      rt.equalFold kv.1 t = Runtime.plain.equalFold kv.1 t :=
    (equalFold_special hk ht).trans (equalFold_special hk ht).symm
  unfold keyFields
  simp (disch := decide) only [hfold]

theorem keyWritten_plain (hk : isAscii kv.1 = true) : keyWritten rt kv = keyWritten .plain kv := by
  unfold keyWritten
  rw [keyFields_plain hk]
  refine map_congr_left fun f hf => ?_
  have hascii : isAscii f.1 = true := by
    rcases (keyFields_spec hk (mem_filter.mp hf).1).1 with heq | ⟨heq, -⟩
    · rwa [heq]
    · rw [heq]
      decide
  rw [rt.toLower_ascii _ hascii]
  rfl

/-- The request without an order for its pseudo-header. -/
def withoutOrder (req : Http.Request) : Http.Request :=
  { req with
    header := req.header.filter fun kv => kv.1 != pHeaderOrderKey
    header_nodup := req.header_nodup.sublist (filter_sublist.map Prod.fst) }

variable (req : Http.Request)

theorem isNormalConnect_withoutOrder :
    isNormalConnect (withoutOrder req) = isNormalConnect req := by
  unfold isNormalConnect
  rw [show (withoutOrder req).header = req.header.filter fun kv => kv.1 != pHeaderOrderKey from rfl,
    Header.get_filter]
  · rfl
  · intro kv hkv
    rw [hkv]
    decide

theorem requestTarget_withoutOrder (punycodeHostPort : Bytes → Except String Bytes)
    (req : Http.Request) :
    requestTarget punycodeHostPort (withoutOrder req) = requestTarget punycodeHostPort req := by
  unfold requestTarget
  rw [isNormalConnect_withoutOrder]
  rfl

/-- Without the key in the map, the map is sent without it. -/
theorem outgoingHeader_withoutOrder (gzip : Bool) (n : Int) :
    outgoingHeader (withoutOrder req) gzip n =
      (outgoingHeader req gzip n).filter fun kv => kv.1 != pHeaderOrderKey := by
  have hadd (h : Header) {add : Bool} {key : Bytes} (vs : List Bytes)
      (hkey : (key != pHeaderOrderKey) = true) :
      Header.addMissing (h.filter fun kv => kv.1 != pHeaderOrderKey) add key vs =
        (h.addMissing add key vs).filter fun kv => kv.1 != pHeaderOrderKey := by
    unfold Header.addMissing
    rw [Header.get?_filter fun kv heq => heq ▸ hkey]
    split
    · have hlast : [(key, vs)].filter (fun kv => kv.1 != pHeaderOrderKey) = [(key, vs)] :=
        filter_cons_of_pos hkey
      unfold Header.set
      rw [filter_append, filter_filter, filter_filter, hlast]
      simp only [Bool.and_comm]
    · rfl
  unfold outgoingHeader
  dsimp only [withoutOrder]
  rw [hadd _ _ (by decide), hadd _ _ (by decide)]

/-- The magic key passes the checks. -/
theorem checkKey_order (hg : g.Documented) (vs : List Bytes) :
    checkKey g (pHeaderOrderKey, vs) = none := by
  have hname : g.validHeaderFieldName pHeaderOrderKey = false := by
    have htoken : g.isTokenByte = validHeaderFieldByte := funext hg.token
    rw [HttpGuts.validHeaderFieldName, htoken]
    decide
  unfold checkKey
  dsimp only
  rw [hname, if_pos (by decide), if_pos (by decide)]

theorem checkKey_withoutOrder (hg : g.Documented) {req : Http.Request}
    (hcheck : ∀ kv ∈ (withoutOrder req).header, checkKey g kv = none) :
    ∀ kv ∈ req.header, checkKey g kv = none := by
  intro kv hkv
  by_cases heq : kv.1 = pHeaderOrderKey
  · rw [← Prod.mk.eta (p := kv), heq]
    exact checkKey_order hg kv.2
  · exact hcheck kv (mem_filter.mpr ⟨hkv, bne_iff_ne.mpr heq⟩)

/-- The magic key is not written. -/
theorem keyWritten_order (rt : Runtime) (vs : List Bytes) :
    keyWritten rt (pHeaderOrderKey, vs) = [] := by
  rw [eq_nil_iff_forall_not_mem]
  intro f hf
  have hkey := checkKey_order HttpGuts.documented_tables vs
  have hmagic : isMagicKey pHeaderOrderKey = true := by decide
  exact Bool.false_ne_true
    ((keyWritten_spec HttpGuts.documented_tables hkey hf).1.symm.trans hmagic)

/-- The fields of the map are the same, up to their order, with and without an order for the
pseudo-header. -/
theorem written_withoutOrder (hg : g.Documented) {rt₀ : Runtime} {req : Http.Request}
    (hcheck : ∀ kv ∈ req.header, checkKey g kv = none) {gzip : Bool} {n : Int} :
    ((requestKeys rt 2 req gzip n).flatMap (keyWritten rt)).Perm
      ((requestKeys rt₀ 2 (withoutOrder req) gzip n).flatMap (keyWritten rt₀)) := by
  have hplain {rt : Runtime} {l : List (Bytes × List Bytes)}
      (hl : ∀ kv ∈ l, kv ∈ outgoingHeader req gzip n) :
      l.flatMap (keyWritten rt) = l.flatMap (keyWritten .plain) :=
    flatMap_congr fun kv hkv =>
      keyWritten_plain ((checkKey_eq_none (checkKey_outgoing hg hcheck (hl kv hkv))).1.isAscii hg)
  have hskip (l : List (Bytes × List Bytes)) :
      (l.filter fun kv => kv.1 != pHeaderOrderKey).flatMap (keyWritten .plain) =
        l.flatMap (keyWritten .plain) := by
    induction l with
    | nil => rfl
    | cons kv l ih =>
      by_cases heq : kv.1 = pHeaderOrderKey
      · have hnil : keyWritten .plain kv = [] := by
          rw [← Prod.mk.eta (p := kv), heq]
          exact keyWritten_order .plain kv.2
        rw [filter_cons, if_neg fun hne => bne_iff_ne.mp hne heq, ih, flatMap_cons, hnil,
          nil_append]
      · rw [filter_cons, if_pos (bne_iff_ne.mpr heq), flatMap_cons, ih, flatMap_cons]
  have hkeys : (requestKeys rt 2 req gzip n).Perm (outgoingHeader req gzip n) :=
    requestKeys_perm 2
  have hkeys₀ : (requestKeys rt₀ 2 (withoutOrder req) gzip n).Perm
      (outgoingHeader (withoutOrder req) gzip n) := requestKeys_perm 2
  rw [outgoingHeader_withoutOrder] at hkeys₀
  rw [hplain fun kv hkv => hkeys.mem_iff.mp hkv,
    hplain fun kv hkv => mem_of_mem_filter (hkeys₀.mem_iff.mp hkv)]
  refine (hkeys.flatMap_right _).trans ((Perm.of_eq (hskip _)).symm.trans ?_)
  exact (hkeys₀.flatMap_right _).symm

/-- With and without an order for the pseudo-header, the map has a user agent or not. -/
theorem userAgent_withoutOrder (hg : g.Documented) {rt₀ : Runtime} {req : Http.Request}
    (hcheck : ∀ kv ∈ req.header, checkKey g kv = none) {gzip : Bool} {n : Int} :
    userAgentFields rt 2 req gzip n =
      userAgentFields rt₀ 2 (withoutOrder req) gzip n := by
  have hany {l : List (Bytes × List Bytes)} {p q : Bytes × List Bytes → Bool}
      (h : ∀ kv ∈ l, p kv = q kv) : l.any p = l.any q := by
    rw [Bool.eq_iff_iff, any_eq_true, any_eq_true]
    exact exists_congr fun kv => and_congr_right fun hkv => by rw [h kv hkv]
  have hplain {rt : Runtime} {l : List (Bytes × List Bytes)}
      (hl : ∀ kv ∈ l, kv ∈ outgoingHeader req gzip n) :
      (l.any fun kv => (keyFields rt kv).2) = l.any fun kv => (keyFields .plain kv).2 := by
    refine hany fun kv hkv => ?_
    have hkind := (checkKey_eq_none (checkKey_outgoing hg hcheck (hl kv hkv))).1
    rw [keyFields_plain (hkind.isAscii hg)]
  have horder (vs : List Bytes) : (keyFields .plain (pHeaderOrderKey, vs)).2 = false := by
    cases vs <;> rfl
  have hskip : ((outgoingHeader req gzip n).filter fun kv => kv.1 != pHeaderOrderKey).any
      (fun kv => (keyFields .plain kv).2) =
      (outgoingHeader req gzip n).any fun kv => (keyFields .plain kv).2 := by
    rw [any_filter]
    refine hany fun kv _ => ?_
    by_cases heq : kv.1 = pHeaderOrderKey
    · rw [← Prod.mk.eta (p := kv), heq, horder, Bool.and_false]
    · rw [bne_iff_ne.mpr heq, Bool.true_and]
  unfold userAgentFields
  rw [(requestKeys_perm 2).any_eq, (requestKeys_perm 2).any_eq,
    outgoingHeader_withoutOrder, hplain fun _ h => h, hplain fun _ h => mem_of_mem_filter h, hskip]

theorem isPseudo_of_pseudoNames {f : HeaderField} (h : f.name ∈ pseudoNames) :
    f.isPseudo = true := by
  have hname : ∀ k ∈ pseudoNames, (k.length != 0 && k[0]? == some 58) = true := by decide
  exact hname f.name h

theorem plainField_injective : Function.Injective plainField := by
  intro f f' h
  rw [plainField, plainField, HeaderField.mk.injEq] at h
  exact Prod.ext h.1 h.2.1

/-- Whether a pseudo-header field is sent when there is an order. -/
def sentInOrder (req : Http.Request) (p : Bytes) : Bool :=
  pseudoNames.contains p && ((pseudoNames.take 2).contains p || req.method != ascii "CONNECT")

theorem pseudoHeader_order_names (host path : Bytes) (order : List Bytes) :
    (pseudoHeader req host path (some order)).map Prod.fst = order.filter (sentInOrder req) := by
  have hauthority : sentInOrder req (ascii ":authority") = true := rfl
  have hmethod : sentInOrder req (ascii ":method") = true := rfl
  have hpath : sentInOrder req (ascii ":path") = (req.method != ascii "CONNECT") := rfl
  have hscheme : sentInOrder req (ascii ":scheme") = (req.method != ascii "CONNECT") := rfl
  have hconnect (k v : Bytes) (rest : List Bytes) :
      (if req.method ≠ ascii "CONNECT" then [(k, v)] else []).map Prod.fst ++ rest =
        if (req.method != ascii "CONNECT") = true then k :: rest else rest := by
    by_cases hm : req.method = ascii "CONNECT"
    · rw [if_neg (not_not_intro hm), if_neg fun hne => bne_iff_ne.mp hne hm]
      rfl
    · rw [if_pos hm, if_pos (bne_iff_ne.mpr hm)]
      rfl
  unfold pseudoHeader
  dsimp only
  induction order with
  | nil => rfl
  | cons p order ih =>
    rw [flatMap_cons, map_append, ih, filter_cons]
    split
    · rename_i hp
      rw [hp, hauthority]
      rfl
    split
    · rename_i hp
      rw [hp, hmethod]
      rfl
    split
    · rename_i hp
      rw [hp, hpath]
      exact hconnect _ _ _
    split
    · rename_i hp
      rw [hp, hscheme]
      exact hconnect _ _ _
    · rename_i hp₁ hp₂ hp₃ hp₄
      have hnot : ¬ sentInOrder req p = true := by
        simp [sentInOrder, pseudoNames, hp₁, hp₂, hp₃, hp₄]
      rw [if_neg hnot]
      rfl

/-- A `CONNECT` request with a `:protocol`. -/
def IsExtendedConnect (req : Http.Request) : Prop :=
  req.method = ascii "CONNECT" ∧
    (req.header.get (canonicalHeaderKey (ascii ":protocol"))).headD [] ≠ []

namespace ClientConn

variable {cc : ClientConn} {req : Http.Request} {host path trailers : Bytes} {gzip : Bool} {n : Int}

/-- The transport without an order for the pseudo-header. -/
def withoutOrder (cc : ClientConn) : ClientConn :=
  { cc with t := { cc.t with pseudoHeaderOrder := [] } }

theorem pseudoHeaderOrder_withoutOrder :
    cc.withoutOrder.pseudoHeaderOrder (Http2.withoutOrder req) = none := by
  have hnone : (Http2.withoutOrder req).header.get? pHeaderOrderKey = none := by
    rw [Header.get?_eq_none]
    intro kv hkv
    exact bne_iff_ne.mp (mem_filter.mp hkv).2
  unfold pseudoHeaderOrder
  rw [hnone]
  rfl

/-- The pseudo-header fields that are written: those of the request, and those of the key
`:protocol`. -/
theorem filter_isPseudo_writtenFields :
    (cc.writtenFields rt req host path gzip trailers n).filter HeaderField.isPseudo =
      (pseudoHeader req host path (cc.pseudoHeaderOrder req)).map plainField ++
        ((requestKeys rt 2 req gzip n).flatMap (keyWritten rt)).filter HeaderField.isPseudo := by
  have hleading : ((cc.leadingFields req host path trailers).map plainField).filter
      HeaderField.isPseudo =
        (pseudoHeader req host path (cc.pseudoHeaderOrder req)).map plainField := by
    have htrailer : (map plainField
        (if trailers ≠ [] then [(ascii "trailer", trailers)] else [])).filter HeaderField.isPseudo =
        [] := by
      split <;> rfl
    unfold leadingFields
    rw [map_append, filter_append, htrailer, append_nil, filter_eq_self]
    intro f hf
    obtain ⟨f₀, hf₀, rfl⟩ := mem_map.mp hf
    exact isPseudo_of_pseudoNames (pseudoHeader_names f₀ hf₀)
  have hagent :
      ((userAgentFields rt 2 req gzip n).map plainField).filter HeaderField.isPseudo = [] := by
    unfold userAgentFields
    split <;> rfl
  rw [writtenFields_eq, filter_append, filter_append, hleading, hagent, append_nil]

variable {order : List Bytes}

/-- With and without an order, the pseudo-header fields of a request that are written are the
same up to their order. -/
theorem pseudoHeader_perm_iff (host path : Bytes) (hperm : order.Perm pseudoNames) :
    (pseudoHeader req host path (some order)).Perm (pseudoHeader req host path none) ↔
      ¬ IsExtendedConnect req := by
  have hsorted : (pseudoHeader req host path (some order)).Perm
      (pseudoHeader req host path (some pseudoNames)) := hperm.flatMap_right _
  have hsome : pseudoHeader req host path (some pseudoNames) =
      [(ascii ":authority", host),
        (ascii ":method", if req.method = [] then ascii "GET" else req.method)] ++
      if req.method ≠ ascii "CONNECT" then
        [(ascii ":path", path), (ascii ":scheme", req.url.scheme)] else [] := by
    unfold pseudoHeader
    by_cases hm : req.method = ascii "CONNECT"
    · simp only [hm, ne_eq, not_true_eq_false, if_false]
      rfl
    · simp only [hm, ne_eq, not_false_eq_true, if_true]
      rfl
  rw [hsorted.congr_left, hsome]
  have hnone : pseudoHeader req host path none =
      [(ascii ":authority", host),
        (ascii ":method", if req.method = [] then ascii "GET" else req.method)] ++
      if !isNormalConnect req then [(ascii ":path", path), (ascii ":scheme", req.url.scheme)]
      else [] := rfl
  rw [hnone, perm_append_left_iff, isNormalConnect, IsExtendedConnect]
  by_cases hm : req.method = ascii "CONNECT"
  · simp [hm]
  · simp [hm]

/-- The names of the pseudo-header fields are written in the order that was asked for. -/
theorem names_in_order (hg : g.Documented) (hcheck : ∀ kv ∈ req.header, checkKey g kv = none)
    (horder : cc.pseudoHeaderOrder req = some order) :
    ((cc.writtenFields rt req host path gzip trailers n).map HeaderField.name).filter
        (· ∈ pseudoNames) = order.filter (sentInOrder req) := by
  have hkeys : (((requestKeys rt 2 req gzip n).flatMap (keyWritten rt)).map
      HeaderField.name).filter (· ∈ pseudoNames) = [] := by
    rw [filter_eq_nil_iff]
    intro name hname
    obtain ⟨f, hf, rfl⟩ := mem_map.mp hname
    obtain ⟨kv, hkv, hf⟩ := mem_flatMap.mp hf
    have hcheck' := checkKey_outgoing hg hcheck ((requestKeys_perm 2).mem_iff.mp hkv)
    rw [decide_eq_true_eq]
    rcases keyWritten_name hg hcheck' hf with ⟨-, heq⟩ | ⟨-, hwire⟩
    · rw [heq]
      decide
    · intro hmem
      have hpseudo : f.isPseudo = true := isPseudo_of_pseudoNames hmem
      exact Bool.false_ne_true ((isPseudo_of_validWire hg hwire).symm.trans hpseudo)
  have hplain (l : List (Bytes × Bytes)) :
      (l.map plainField).map HeaderField.name = l.map Prod.fst := by
    rw [map_map]
    rfl
  have htrailer : (map Prod.fst
      (if trailers ≠ [] then [(ascii "trailer", trailers)] else [])).filter (· ∈ pseudoNames) =
        [] := by
    split <;> rfl
  have hagent : ((userAgentFields rt 2 req gzip n).map Prod.fst).filter (· ∈ pseudoNames) = [] := by
    unfold userAgentFields
    split <;> rfl
  have hpseudo : ((pseudoHeader req host path (some order)).map Prod.fst).filter (· ∈ pseudoNames) =
      order.filter (sentInOrder req) := by
    rw [← pseudoHeader_order_names req host path order, filter_eq_self]
    intro name hname
    obtain ⟨f, hf, rfl⟩ := mem_map.mp hname
    exact decide_eq_true (pseudoHeader_names f hf)
  rw [writtenFields_eq, map_append, map_append, filter_append, filter_append,
    hkeys, hplain, hplain, hagent, append_nil, append_nil, leadingFields, map_append,
    filter_append, htrailer, append_nil, horder, hpseudo]

/-- The fields are written in the order that was asked for. -/
theorem written_in_order (hg : g.Documented) (hcheck : ∀ kv ∈ req.header, checkKey g kv = none)
    (horder : cc.pseudoHeaderOrder req = some order) (hperm : order.Perm pseudoNames) :
    ((cc.writtenFields rt req host path gzip trailers n).map HeaderField.name).filter
        (· ∈ pseudoNames) =
      order.filter (· ∈ (cc.writtenFields rt req host path gzip trailers n).map
        HeaderField.name) := by
  have hnames : ((cc.writtenFields rt req host path gzip trailers n).map HeaderField.name).filter
      (· ∈ pseudoNames) = order.filter (sentInOrder req) := names_in_order hg hcheck horder
  rw [hnames]
  refine filter_congr fun p hp => ?_
  have hmem : p ∈ pseudoNames := hperm.mem_iff.mp hp
  rw [eq_comm, Bool.eq_iff_iff, decide_eq_true_eq]
  have hiff : p ∈ (cc.writtenFields rt req host path gzip trailers n).map HeaderField.name ↔
      p ∈ order.filter (sentInOrder req) := by
    rw [← hnames, mem_filter, decide_eq_true_eq, and_iff_left hmem]
  rw [hiff, mem_filter, and_iff_right hp]

theorem pseudoHeader_withoutOrder (host path : Bytes) :
    pseudoHeader (Http2.withoutOrder req) host path none = pseudoHeader req host path none := by
  unfold pseudoHeader
  rw [isNormalConnect_withoutOrder]
  rfl

section

variable {rt₀ : Runtime} (hg : g.Documented) (hperm : order.Perm pseudoNames)
  (horder : cc.pseudoHeaderOrder req = some order)
  (hcheck : ∀ kv ∈ req.header, checkKey g kv = none)

include hg hperm horder hcheck

theorem written_pseudo_perm_iff :
    ((cc.writtenFields rt req host path gzip trailers n).filter HeaderField.isPseudo).Perm
        ((cc.withoutOrder.writtenFields rt₀ (Http2.withoutOrder req) host path gzip trailers
          n).filter HeaderField.isPseudo) ↔
      ¬ IsExtendedConnect req := by
  have hrest : (((requestKeys rt 2 req gzip n).flatMap (keyWritten rt)).filter
      HeaderField.isPseudo).Perm (((requestKeys rt₀ 2 (Http2.withoutOrder req) gzip n).flatMap
      (keyWritten rt₀)).filter HeaderField.isPseudo) := (written_withoutOrder hg hcheck).filter _
  rw [filter_isPseudo_writtenFields, filter_isPseudo_writtenFields, horder,
    pseudoHeaderOrder_withoutOrder, pseudoHeader_withoutOrder,
    ← pseudoHeader_perm_iff host path hperm, ((Perm.refl _).append hrest).congr_left,
    perm_append_right_iff]
  exact map_perm_map_iff plainField_injective

/-- If the pseudo-header fields are the same up to their order, then so are all fields, and the
same is counted. -/
theorem countedSize_withoutOrder
    (hconnect : ¬ IsExtendedConnect req) :
    countedSize (cc.writtenFields rt req host path gzip trailers n) req.header =
      countedSize (cc.withoutOrder.writtenFields rt₀ (Http2.withoutOrder req) host path gzip
        trailers n) req.header := by
  have hpseudo := (pseudoHeader_perm_iff host path hperm).mpr hconnect
  have hleading : (cc.leadingFields req host path trailers).Perm
      (cc.withoutOrder.leadingFields (Http2.withoutOrder req) host path trailers) := by
    unfold leadingFields
    rw [horder, pseudoHeaderOrder_withoutOrder, pseudoHeader_withoutOrder]
    exact hpseudo.append_right _
  have hwritten : (cc.writtenFields rt req host path gzip trailers n).Perm
      (cc.withoutOrder.writtenFields rt₀ (Http2.withoutOrder req) host path gzip trailers n) := by
    rw [writtenFields_eq, writtenFields_eq, userAgent_withoutOrder hg hcheck]
    exact ((hleading.map _).append (written_withoutOrder hg hcheck)).append_right _
  have hsize := (hwritten.map fun f => f.entrySize % 2 ^ 32).sum_eq
  unfold countedSize wrappedSize
  rw [hsize]

end

/-- For every order of the four names and every request that is accepted without it: with the order
it is accepted, with the same pseudo-header fields in the order that was asked for, if and only if
it is no `CONNECT` request with a `:protocol`, and the fields and the values of the magic keys
together are within the limit of the peer.  The order is kept whenever it is accepted. -/
theorem pseudo_order_iff {punycodeHostPort : Bytes → Except String Bytes} (hg : g.Documented)
    {order : List Bytes} (hperm : order.Perm pseudoNames)
    (horder : cc.pseudoHeaderOrder req = some order) {fields₀ : List HeaderField} {rt₀ : Runtime}
    (h₀ : cc.withoutOrder.requestFields rt₀ g punycodeHostPort (Http2.withoutOrder req) gzip
      trailers n = .ok fields₀) :
    ((∃ fields, cc.requestFields rt g punycodeHostPort req gzip trailers n = .ok fields ∧
        (fields.filter HeaderField.isPseudo).Perm (fields₀.filter HeaderField.isPseudo) ∧
        (fields.map HeaderField.name).filter (· ∈ pseudoNames) =
          order.filter (· ∈ fields.map HeaderField.name)) ↔
      ¬ IsExtendedConnect req ∧
      countedSize fields₀ req.header ≤ cc.peerMaxHeaderListSize.toNat) ∧
    ∀ fields, cc.requestFields rt g punycodeHostPort req gzip trailers n = .ok fields →
      (fields.map HeaderField.name).filter (· ∈ pseudoNames) =
        order.filter (· ∈ fields.map HeaderField.name) := by
  obtain ⟨host, path, htarget, hcheck₀, -, rfl⟩ := requestFields_eq_ok.mp h₀
  rw [requestTarget_withoutOrder] at htarget
  have hcheck := checkKey_withoutOrder hg hcheck₀
  have haccepted {fields : List HeaderField} :
      cc.requestFields rt g punycodeHostPort req gzip trailers n = .ok fields ↔
        countedSize (cc.writtenFields rt req host path gzip trailers n) req.header ≤
            cc.peerMaxHeaderListSize.toNat ∧
          fields = cc.writtenFields rt req host path gzip trailers n := by
    rw [requestFields_eq_ok, ← toNat_counted hg hcheck, ← UInt64.le_iff_toNat_le]
    constructor
    · rintro ⟨host', path', htarget', -, hsize, rfl⟩
      cases htarget.symm.trans htarget'
      exact ⟨hsize, rfl⟩
    · rintro ⟨hsize, rfl⟩
      exact ⟨host, path, htarget, hcheck, hsize, rfl⟩
  refine ⟨⟨?_, ?_⟩, ?_⟩
  · rintro ⟨fields, hok, hsame, -⟩
    obtain ⟨hsize, rfl⟩ := haccepted.mp hok
    have hconnect := (written_pseudo_perm_iff hg hperm horder hcheck).mp hsame
    rw [countedSize_withoutOrder hg hperm horder hcheck hconnect] at hsize
    exact ⟨hconnect, hsize⟩
  · rintro ⟨hconnect, hsize⟩
    rw [← countedSize_withoutOrder hg hperm horder hcheck hconnect] at hsize
    exact ⟨_, haccepted.mpr ⟨hsize, rfl⟩,
      (written_pseudo_perm_iff hg hperm horder hcheck).mpr hconnect,
      written_in_order hg hcheck horder hperm⟩
  · intro fields hok
    obtain ⟨-, rfl⟩ := haccepted.mp hok
    exact written_in_order hg hcheck horder hperm

/-- A request with a `:protocol` that asks for an order. -/
def orderedRequest (method : Bytes) (order : List Bytes) : Http.Request :=
  bareRequest method [(ascii ":protocol", [ascii "websocket"]), (pHeaderOrderKey, order)]
    (by decide : [ascii ":protocol", pHeaderOrderKey].Nodup)

theorem pseudo_order_iff_get :
    ∃ fields fields₀,
      plainConn.plainFields (orderedRequest (ascii "GET") pseudoNames.reverse) [] = .ok fields ∧
      plainConn.withoutOrder.plainFields
        (Http2.withoutOrder (orderedRequest (ascii "GET") pseudoNames.reverse)) [] = .ok fields₀ ∧
      (fields.filter HeaderField.isPseudo).Perm (fields₀.filter HeaderField.isPseudo) := by
  have hok₀ : (plainConn.withoutOrder.plainFields
      (Http2.withoutOrder (orderedRequest (ascii "GET") pseudoNames.reverse)) []).toOption.any
      (fun fields₀ =>
        countedSize fields₀ (orderedRequest (ascii "GET") pseudoNames.reverse).header ≤
          plainConn.peerMaxHeaderListSize.toNat) = true := by decide +kernel
  cases h₀ : plainConn.withoutOrder.plainFields
      (Http2.withoutOrder (orderedRequest (ascii "GET") pseudoNames.reverse)) [] with
  | error e =>
    rw [h₀] at hok₀
    cases hok₀
  | ok fields₀ =>
    rw [h₀] at hok₀
    obtain ⟨fields, hok, hsame, -⟩ := (pseudo_order_iff HttpGuts.documented_tables
      (reverse_perm pseudoNames) (by decide) h₀).1.mpr
        ⟨fun hconnect => absurd hconnect.1 (by decide), of_decide_eq_true hok₀⟩
    exact ⟨fields, fields₀, hok, rfl, hsame⟩

/-- The path and the scheme of a `CONNECT` request with a `:protocol` get lost. -/
theorem pseudo_order_drops :
    (plainConn.plainFields (orderedRequest (ascii "CONNECT") pseudoNames) []).toOption.map
        (fun fields => (fields.filter HeaderField.isPseudo).map HeaderField.name) =
      some [ascii ":authority", ascii ":method", ascii ":protocol"] ∧
    (plainConn.withoutOrder.plainFields
        (Http2.withoutOrder (orderedRequest (ascii "CONNECT") pseudoNames)) []).toOption.map
        (fun fields => (fields.filter HeaderField.isPseudo).map HeaderField.name) =
      some [ascii ":authority", ascii ":method", ascii ":path", ascii ":scheme",
        ascii ":protocol"] := by
  decide +kernel

end ClientConn

end Fhttp.Http2
