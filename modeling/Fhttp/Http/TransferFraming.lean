import Fhttp.Http.TransferReader

/-!
# The framing of a message

`framing` is what a body is for: the bytes that it takes from the connection.  The main results
compare the body that `readTransfer` makes with the header of the message.  A response that is
accepted has the body that its header calls for (`readTransfer_response`).  For a request there
are exceptions (`readTransfer_request_iff`): the chunks of a `HEAD` request are not read, and some
fields that are not well formed are dropped where the message should be rejected.
-/

namespace Fhttp.Http

open Hpack (Bytes ascii)
open Http2 (Header ok_of_bind trimString decimal? parseUint63 bodyAllowedForStatus)
open TransferReader
open List

/-! ## What a header says about the body -/

/-- The bytes that a body takes from the connection. -/
inductive Framing where
  | length (n : Nat)
  | chunked
  | untilClose
deriving DecidableEq, Repr

def Body.framing : Body → Framing
  | .noBody => .length 0
  | .chunked _ => .chunked
  | .limited n _ => .length n
  | .untilClose _ => .untilClose

namespace Message

/-- The transfer codings: those of a version before 1.1 do not count. -/
def codings (m : Message) : Option (List Bytes) :=
  if atLeast m.version.1 m.version.2 1 1 then m.header.get? (ascii "Transfer-Encoding") else none

/-- The `Content-Length` values. -/
def lengths (m : Message) : List Bytes := (m.header.get (ascii "Content-Length")).map trimString

/-- All `Content-Length` values are this one. -/
def OnlyLength (m : Message) (v : Bytes) : Prop := m.lengths ≠ [] ∧ ∀ w ∈ m.lengths, w = v

/-- The coding is `chunked`, in letters of either case. -/
def IsChunked (v : Bytes) : Prop := lowerAscii (trimString v) = ascii "chunked"

/-- A message that must be rejected: its codings are not `chunked` alone, two lengths differ, or
a length is not a decimal number. -/
def Malformed (m : Message) : Prop :=
  (∃ raw, m.codings = some raw ∧ ∀ v, raw = [v] → ¬ IsChunked v) ∨
    (∃ v ∈ m.lengths, ∃ w ∈ m.lengths, v ≠ w) ∨ ∃ v ∈ m.lengths, decimal? v = none

/-- The trailers that the message announces are allowed. -/
def TrailerAllowed (m : Message) : Prop :=
  ∀ vv, m.header.get? (ascii "Trailer") = some vv →
    ∀ key ∈ trailerKeys vv, forbiddenTrailer key = false

end Message

/-! ## The steps of the reader -/

variable {rt : Runtime} {hasToken : List Bytes → Bytes → Bool}

/-- The codings that a reader takes into account. -/
def TransferReader.codings (t : TransferReader) : Option (List Bytes) :=
  if t.protoAtLeast 1 1 then t.header.get? (ascii "Transfer-Encoding") else none

/-- The reader without codings. -/
def TransferReader.plain (t : TransferReader) : TransferReader :=
  { t with header := t.header.del (ascii "Transfer-Encoding") }

/-- The reader of a chunked message. -/
def TransferReader.toChunked (t : TransferReader) : TransferReader :=
  { t with
    header := (t.header.del (ascii "Transfer-Encoding")).del (ascii "Content-Length")
    chunked := true }

namespace TransferReader

variable {t : TransferReader}

theorem parseTransferEncoding_of_none (hnone : t.codings = none) :
    t.parseTransferEncoding rt = .ok t.plain := by
  unfold codings at hnone
  unfold parseTransferEncoding
  cases hget : t.header.get? (ascii "Transfer-Encoding") with
  | none =>
    have hplain : t.plain = t := by rw [plain, del_of_get?_none hget]
    rw [hplain]
  | some raw =>
    rw [hget] at hnone
    cases hproto : t.protoAtLeast 1 1 with
    | false => rfl
    | true =>
      rw [hproto] at hnone
      cases hnone

variable {raw : List Bytes}

theorem of_codings (hsome : t.codings = some raw) :
    t.protoAtLeast 1 1 = true ∧ t.header.get? (ascii "Transfer-Encoding") = some raw := by
  unfold codings at hsome
  split at hsome
  · exact ⟨‹_›, hsome⟩
  · cases hsome

theorem parseTransferEncoding_of_chunked {v : Bytes} (hone : t.codings = some [v])
    (hchunked : rt.toLower (trimString v) = ascii "chunked") :
    t.parseTransferEncoding rt = .ok t.toChunked := by
  obtain ⟨hproto, hget⟩ := of_codings hone
  unfold parseTransferEncoding
  rw [hget]
  dsimp only
  rw [hproto, hchunked]
  rfl

theorem parseTransferEncoding_of_other (hsome : t.codings = some raw)
    (hother : ∀ v, raw = [v] → rt.toLower (trimString v) ≠ ascii "chunked") :
    ∃ e, t.parseTransferEncoding rt = .error e := by
  obtain ⟨hproto, hget⟩ := of_codings hsome
  unfold parseTransferEncoding
  rw [hget]
  rw [hproto]
  match raw, hother with
  | [], _ => exact ⟨_, rfl⟩
  | [v], hother => exact ⟨_, if_pos (hother v rfl)⟩
  | _ :: _ :: _, _ => exact ⟨_, rfl⟩

/-- What the field `Transfer-Encoding` can do. -/
theorem parseTransferEncoding_ok {t' : TransferReader} (hok : t.parseTransferEncoding rt = .ok t') :
    t.codings = none ∧ t' = t.plain ∨ t.codings.isSome = true ∧ t' = t.toChunked := by
  cases hcodings : t.codings with
  | none =>
    rw [parseTransferEncoding_of_none hcodings] at hok
    exact .inl ⟨rfl, (Except.ok.inj hok).symm⟩
  | some raw =>
    by_cases hone : ∃ v, raw = [v] ∧ rt.toLower (trimString v) = ascii "chunked"
    · obtain ⟨v, rfl, hchunked⟩ := hone
      rw [parseTransferEncoding_of_chunked hcodings hchunked] at hok
      exact .inr ⟨rfl, (Except.ok.inj hok).symm⟩
    · obtain ⟨e, he⟩ : ∃ e, t.parseTransferEncoding rt = .error e :=
        parseTransferEncoding_of_other hcodings fun v hv hchunked => hone ⟨v, hv, hchunked⟩
      rw [he] at hok
      cases hok

end TransferReader

/-- All `Content-Length` values of a header are this one. -/
def Agreed (h : Header) (v : Bytes) : Prop :=
  h.get (ascii "Content-Length") ≠ [] ∧ ∀ w ∈ h.get (ascii "Content-Length"), trimString w = v

/-- The header has no `Content-Length`, or only the one that has been trimmed to `v`. -/
def Deduped (h : Header) : Option Bytes → Prop
  | none => h.get (ascii "Content-Length") = []
  | some v => ∃ w, h.get (ascii "Content-Length") = [w] ∧ trimString w = v

section

variable {h h' : Header} {v : Bytes}

variable {k : Bytes} {b chunked : Bool} {len : Int × Header} {status : Int}

theorem get_of_get? (hsame : h'.get? k = h.get? k) : h'.get k = h.get k := by
  rw [Header.get, Header.get, hsame]

theorem dedup_of_absent (habsent : h.get (ascii "Content-Length") = []) :
    dedupContentLength h = .ok h := by
  rw [dedupContentLength, habsent]

theorem dedup_of_agreed (hagreed : Agreed h v) :
    ∃ h', dedupContentLength h = .ok h' ∧ Deduped h' (some v) ∧
      ∀ k, k ≠ ascii "Content-Length" → h'.get? k = h.get? k := by
  obtain ⟨hne, hall⟩ := hagreed
  unfold dedupContentLength
  match hget : h.get (ascii "Content-Length"), hne, hall with
  | [], hne, _ => exact absurd rfl hne
  | [w], _, hall => exact ⟨h, rfl, ⟨w, hget, hall w mem_cons_self⟩, fun _ _ => rfl⟩
  | w :: w' :: rest, _, hall =>
    have hv : trimString w = v := hall w mem_cons_self
    have hsame : (w' :: rest).all (fun ct => trimString w == trimString ct) = true := by
      rw [all_eq_true]
      intro ct hct
      rw [hv, hall ct (mem_cons_of_mem w hct)]
      exact beq_self_eq_true v
    refine ⟨_, if_pos hsame, ⟨trimString w, ?_, ?_⟩, fun k hk => ?_⟩
    · rw [Header.get, Header.append, Header.get?_set, if_pos rfl, Header.get, Header.get?_del,
        if_pos rfl]
      rfl
    · rw [trimString_trimString, hv]
    · rw [Header.append, Header.get?_set, if_neg hk, Header.get?_del, if_neg hk]

variable {w method : Bytes} {isResponse : Bool}

theorem dedup_of_conflict {w' : Bytes} (hw : w ∈ h.get (ascii "Content-Length"))
    (hw' : w' ∈ h.get (ascii "Content-Length")) (hne : trimString w ≠ trimString w') :
    ∃ e, dedupContentLength h = .error e := by
  unfold dedupContentLength
  match h.get (ascii "Content-Length"), hw, hw' with
  | [], hw, _ => cases hw
  | [u], hw, hw' =>
    rw [mem_singleton] at hw hw'
    exact absurd (by rw [hw, hw']) hne
  | u :: u' :: rest, hw, hw' =>
    refine ⟨_, if_neg fun hall => hne ?_⟩
    rw [all_eq_true] at hall
    have hfirst (x : Bytes) (hx : x ∈ u :: u' :: rest) : trimString x = trimString u := by
      rcases mem_cons.mp hx with rfl | hx
      · rfl
      · exact (beq_iff_eq.mp (hall x hx)).symm
    rw [hfirst w hw, hfirst w' hw']

/-- The lengths of a header are absent, they agree, or two of them differ. -/
theorem lengths_cases (h : Header) :
    h.get (ascii "Content-Length") = [] ∨ (∃ v, Agreed h v) ∨
      ∃ w ∈ h.get (ascii "Content-Length"), ∃ w' ∈ h.get (ascii "Content-Length"),
        trimString w ≠ trimString w' := by
  by_cases habsent : h.get (ascii "Content-Length") = []
  · exact .inl habsent
  · obtain ⟨u, rest, hget⟩ := exists_cons_of_ne_nil habsent
    have hu : u ∈ h.get (ascii "Content-Length") := by rw [hget]; exact mem_cons_self
    by_cases hall : ∀ w ∈ h.get (ascii "Content-Length"), trimString w = trimString u
    · exact .inr (.inl ⟨trimString u, habsent, hall⟩)
    · simp only [not_forall] at hall
      obtain ⟨w, hw, hne⟩ := hall
      exact .inr (.inr ⟨w, hw, u, hu, hne⟩)

theorem dedup_ok (hok : dedupContentLength h = .ok h') :
    (h.get (ascii "Content-Length") = [] ∧ h' = h ∨
      ∃ v, Agreed h v ∧ Deduped h' (some v)) ∧
      ∀ k, k ≠ ascii "Content-Length" → h'.get? k = h.get? k := by
  rcases lengths_cases h with habsent | ⟨v, hagreed⟩ | ⟨w, hw, w', hw', hne⟩
  · rw [dedup_of_absent habsent] at hok
    cases hok
    exact ⟨.inl ⟨habsent, rfl⟩, fun _ _ => rfl⟩
  · obtain ⟨h₂, hdedup, honly, hrest⟩ := dedup_of_agreed hagreed
    rw [hdedup] at hok
    cases hok
    exact ⟨.inr ⟨v, hagreed, honly⟩, hrest⟩
  · obtain ⟨e, he⟩ := dedup_of_conflict hw hw' hne
    rw [he] at hok
    cases hok

theorem lengthOf_none (honly : Deduped h none ∨ Deduped h (some [])) :
    lengthOf b h = .ok (if b then -1 else 0, h.del (ascii "Content-Length")) := by
  have hblank : onlyLength h = [] := by
    unfold onlyLength
    rcases honly with hget | ⟨w, hget, hblank⟩
    · rw [hget]
    · rw [hget]
      exact hblank
  rw [lengthOf, hblank]
  rfl

theorem lengthOf_some (honly : Deduped h (some v)) (hv : v ≠ []) :
    lengthOf b h = (parseContentLength v).map fun n => (n, h) := by
  obtain ⟨w, hget, hw⟩ := honly
  have honly : onlyLength h = v := by
    rw [onlyLength, hget]
    exact hw
  rw [lengthOf, honly, if_pos hv]

/-- A length that is accepted is a decimal number. -/
theorem parseContentLength_ok {n : Int} (hw : trimString w = v) (hv : v ≠ [])
    (hok : parseContentLength v = .ok n) : ∃ k : Nat, decimal? v = some k ∧ n = k := by
  have htrim : trimString v = v := by rw [← hw, trimString_trimString]
  unfold parseContentLength at hok
  rw [htrim, if_neg hv] at hok
  cases hparse : parseUint63 v with
  | none =>
    rw [hparse] at hok
    cases hok
  | some k =>
    rw [hparse] at hok
    cases hok
    obtain ⟨k', hk', hlt⟩ := Option.bind_eq_some_iff.mp hparse
    split at hlt
    · cases hlt
      exact ⟨k, hk', rfl⟩
    · cases hlt

theorem lengthOf_ok (honly : Deduped h (some v)) (hv : v ≠ []) (hok : lengthOf b h = .ok len) :
    ∃ n : Nat, decimal? v = some n ∧ len.1 = n := by
  rw [lengthOf_some honly hv] at hok
  obtain ⟨w, -, hw⟩ := honly
  cases hparse : parseContentLength v with
  | error e =>
    rw [hparse] at hok
    cases hok
  | ok k =>
    rw [hparse] at hok
    cases hok
    exact parseContentLength_ok hw hv hparse

theorem bodyAllowedForStatus_eq_false :
    bodyAllowedForStatus status = false ↔
      (100 ≤ status ∧ status ≤ 199) ∨ status = 204 ∨ status = 304 := by
  unfold bodyAllowedForStatus
  split
  · simp; omega
  · split
    · simp; omega
    · split
      · simp; omega
      · simp; omega

theorem tdiv_hundred_eq_one : status.tdiv 100 = 1 ↔ 100 ≤ status ∧ status ≤ 199 := by
  by_cases hpos : 0 ≤ status
  · rw [Int.tdiv_eq_ediv_of_nonneg hpos]
    omega
  · have hneg : status.tdiv 100 ≤ 0 := by
      rw [← Int.neg_neg status, Int.neg_tdiv, Int.tdiv_eq_ediv_of_nonneg (by omega)]
      omega
    omega

/-- What the length of a message can be. -/
theorem fixLengthOf_ok (hok : fixLengthOf isResponse status method h chunked = .ok len) :
    ((method = ascii "HEAD" ∨ bodyAllowedForStatus status = false) ∧ len = (0, h)) ∨
      (¬ (method = ascii "HEAD" ∨ bodyAllowedForStatus status = false) ∧
        (chunked = true ∧ len = (-1, h) ∨
          chunked = false ∧ lengthOf isResponse h = .ok len)) := by
  unfold fixLengthOf noResponseBodyExpected at hok
  rw [bodyAllowedForStatus_eq_false]
  simp only [tdiv_hundred_eq_one] at hok
  split at hok
  · rename_i hhead
    split at hok
    · cases hok
    · cases hok
      exact .inl ⟨.inl (beq_iff_eq.mp hhead), rfl⟩
  · rename_i hhead
    have hmethod : method ≠ ascii "HEAD" := fun heq => hhead (beq_iff_eq.mpr heq)
    split at hok
    · cases hok
      exact .inl ⟨.inr (.inl ‹_›), rfl⟩
    split at hok
    · cases hok
      exact .inl ⟨.inr (.inr ‹_›), rfl⟩
    refine .inr ⟨?_, ?_⟩
    · rintro (hm | hs | hs)
      · exact hmethod hm
      · contradiction
      · contradiction
    · split at hok
      · cases hok
        exact .inl ⟨‹_›, rfl⟩
      · exact .inr ⟨Bool.eq_false_iff.mpr ‹_›, hok⟩

/-- Only `Content-Length` changes. -/
theorem get?_fixLength (hok : fixLength isResponse status method h chunked = .ok len)
    (hk : k ≠ ascii "Content-Length") : len.2.get? k = h.get? k := by
  obtain ⟨h₁, hdedup, hlen⟩ := ok_of_bind hok
  rw [← (dedup_ok hdedup).2 k hk]
  rcases fixLengthOf_ok hlen with ⟨-, rfl⟩ | ⟨-, ⟨-, rfl⟩ | ⟨-, hlen⟩⟩
  · rfl
  · rfl
  · unfold lengthOf at hlen
    split at hlen
    · cases hparse : parseContentLength (onlyLength h₁) with
      | error e =>
        rw [hparse] at hlen
        cases hlen
      | ok n =>
        rw [hparse] at hlen
        cases hlen
        rfl
    · cases hlen
      rw [Header.get?_del, if_neg hk]

/-- A field that is not in the header is not in what is left of it. -/
theorem get?_fixTrailer {tr : Option Header × Header} (hok : fixTrailer h chunked = .ok tr)
    (hnone : h.get? k = none) : tr.2.get? k = none := by
  unfold fixTrailer at hok
  split at hok
  · cases hok
    exact hnone
  · split at hok
    · cases hok
      exact hnone
    · split at hok
      · cases hok
      · cases hok
        rw [Header.get?_del, hnone, ite_self]

theorem fixTrailer_plain (h : Header) : fixTrailer h false = .ok (none, h) := by
  unfold fixTrailer
  cases h.get? (ascii "Trailer") <;> rfl

end

section

variable {m : Message}

theorem get?_transferReader {k : Bytes} (hk : k ≠ ascii "Connection") :
    (transferReader hasToken m).header.get? k = m.header.get? k := by
  unfold transferReader
  split
  · unfold shouldClose
    dsimp only
    split
    · rfl
    · split
      · rfl
      · split
        · rw [Header.get?_del, if_neg hk]
        · rfl
  · rfl

theorem chunked_transferReader : (transferReader hasToken m).chunked = false := by
  unfold transferReader
  split <;> rfl

theorem codings_transferReader (hasToken : List Bytes → Bytes → Bool) (m : Message) :
    (transferReader hasToken m).codings = m.codings := by
  have hproto : (transferReader hasToken m).protoAtLeast 1 1 =
      atLeast m.version.1 m.version.2 1 1 := by
    unfold transferReader
    split <;> rfl
  unfold codings Message.codings
  rw [hproto, get?_transferReader (by decide)]

variable {r : Transferred} {status : Int} {request : Option Bytes} {h : Header} {v : Bytes}

section

variable (hok : readTransfer rt hasToken m = .ok r)

include hok

/-- What has been done when a message is accepted. -/
theorem readTransfer_ok :
    ∃ t len contentLength tr, (transferReader hasToken m).parseTransferEncoding rt = .ok t ∧
      fixLength m.isResponse t.statusCode t.requestMethod t.header t.chunked = .ok len ∧
      fixTrailer len.2 t.chunked = .ok tr ∧ r = unifyOutput m t len.1 contentLength tr := by
  obtain ⟨t, ht, hok⟩ := ok_of_bind hok
  obtain ⟨len, hlen, hok⟩ := ok_of_bind hok
  obtain ⟨contentLength, -, hok⟩ := ok_of_bind hok
  cases htr : fixTrailer len.2 t.chunked with
  | error e =>
    rw [htr] at hok
    cases hok
  | ok tr =>
    rw [htr] at hok
    cases hok
    exact ⟨t, len, contentLength, tr, ht, hlen, htr, rfl⟩

/-- `Transfer-Encoding` is always removed. -/
theorem readTransfer_removes : r.header.get? (ascii "Transfer-Encoding") = none := by
  obtain ⟨t, len, contentLength, tr, ht, hlen, htr, rfl⟩ := readTransfer_ok hok
  refine get?_fixTrailer htr ?_
  rw [get?_fixLength hlen (by decide)]
  rcases parseTransferEncoding_ok ht with ⟨-, rfl⟩ | ⟨-, rfl⟩
  · rw [plain, Header.get?_del, if_pos rfl]
  · rw [toChunked, Header.get?_del, if_neg (by decide), Header.get?_del, if_pos rfl]

/-- `Content-Length` is removed from a message with codings. -/
theorem readTransfer_removes_length (hcodings : m.codings.isSome = true) :
    r.header.get? (ascii "Content-Length") = none := by
  obtain ⟨t, len, contentLength, tr, ht, hlen, htr, rfl⟩ := readTransfer_ok hok
  refine get?_fixTrailer htr ?_
  rcases parseTransferEncoding_ok ht with ⟨hnone, -⟩ | ⟨-, rfl⟩
  · rw [codings_transferReader] at hnone
    rw [hnone] at hcodings
    cases hcodings
  have habsent : (transferReader hasToken m).toChunked.header.get? (ascii "Content-Length") =
      none := by
    rw [toChunked, Header.get?_del, if_pos rfl]
  have hget : (transferReader hasToken m).toChunked.header.get (ascii "Content-Length") = [] := by
    rw [Header.get, habsent]
    rfl
  obtain ⟨h₁, hdedup, hlen⟩ := ok_of_bind hlen
  rw [dedup_of_absent hget] at hdedup
  cases hdedup
  rcases fixLengthOf_ok hlen with ⟨-, rfl⟩ | ⟨-, ⟨-, rfl⟩ | ⟨hfalse, -⟩⟩
  · exact habsent
  · exact habsent
  · cases hfalse

end

/-! ## Responses -/

/-- A response to the method, with the status, has no body. -/
def Bodiless (status : Int) (request : Option Bytes) : Prop :=
  request = some (ascii "HEAD") ∨ (100 ≤ status ∧ status ≤ 199) ∨ status = 204 ∨ status = 304

theorem bodiless_iff :
    Bodiless status request ↔
      request.getD (ascii "GET") = ascii "HEAD" ∨ bodyAllowedForStatus status = false := by
  rw [Bodiless, bodyAllowedForStatus_eq_false]
  refine or_congr_left ?_
  cases request with
  | none => exact ⟨nofun, fun h => absurd h (by decide)⟩
  | some method => exact Option.some_inj

theorem agreed_of_onlyLength
    (hsame : h.get (ascii "Content-Length") = m.header.get (ascii "Content-Length")) :
    Agreed h v ↔ m.OnlyLength v := by
  unfold Agreed Message.OnlyLength Message.lengths
  rw [hsame, ne_eq, ne_eq, map_eq_nil_iff, forall_mem_map]

variable {len : Int × Header}

/-- The length of a message that may have a body and has no codings. -/
theorem length_of_plain {isResponse : Bool} {method : Bytes}
    (hbody : ¬ (method = ascii "HEAD" ∨ bodyAllowedForStatus status = false))
    (hlen : fixLength isResponse status method h false = .ok len) :
    (∃ v n, Agreed h v ∧ v ≠ [] ∧ decimal? v = some n ∧ len.1 = (n : Int)) ∨
      (h.get (ascii "Content-Length") = [] ∨ Agreed h []) ∧
        len.1 = if isResponse then -1 else 0 := by
  obtain ⟨h₁, hdedup, hlen₁⟩ := ok_of_bind hlen
  clear hlen
  rcases fixLengthOf_ok hlen₁ with ⟨hno, -⟩ | ⟨-, ⟨hfalse, -⟩ | ⟨-, hlen⟩⟩
  · exact absurd hno hbody
  · cases hfalse
  · rcases (dedup_ok hdedup).1 with ⟨habsent, rfl⟩ | ⟨v, hagreed, honly⟩
    · rw [lengthOf_none (.inl habsent)] at hlen
      cases hlen
      exact .inr ⟨.inl habsent, rfl⟩
    · by_cases hv : v = []
      · subst hv
        rw [lengthOf_none (.inr honly)] at hlen
        cases hlen
        exact .inr ⟨.inr hagreed, rfl⟩
      · obtain ⟨n, hn, hlen⟩ := lengthOf_ok honly hv hlen
        exact .inl ⟨v, n, hagreed, hv, hn, hlen⟩

/-- The body for a length that is not negative has that length. -/
theorem framing_prepareBody (method : Bytes) (status : Int) (n : Nat) (close : Bool) :
    (prepareBody false method status n close).framing = .length n := by
  unfold prepareBody
  rw [if_neg Bool.false_ne_true]
  split
  · rename_i hzero
    rw [Int.natCast_eq_zero.mp hzero]
    rfl
  · rw [if_pos (by omega)]
    rfl

theorem prepareBody_bodiless {chunked close : Bool} {method : Bytes}
    (hno : method = ascii "HEAD" ∨ bodyAllowedForStatus status = false) :
    prepareBody chunked method status 0 close = .noBody := by
  unfold prepareBody noResponseBodyExpected
  cases chunked with
  | false => rfl
  | true =>
    rw [if_pos rfl, if_pos]
    rcases hno with rfl | hstatus
    · rfl
    · rw [hstatus, Bool.not_false, Bool.or_true]

theorem prepareBody_chunked {close : Bool} {method : Bytes} (realLength : Int)
    (hbody : ¬ (method = ascii "HEAD" ∨ bodyAllowedForStatus status = false)) :
    prepareBody true method status realLength close = .chunked close := by
  rw [not_or, Bool.not_eq_false] at hbody
  unfold prepareBody noResponseBodyExpected
  rw [if_pos rfl, if_neg]
  rw [hbody.2, beq_eq_false_iff_ne.mpr hbody.1]
  exact Bool.false_ne_true

/-- The reader of a response keeps its method and its status. -/
theorem reader_of_response (horigin : m.origin = .response status request) {t : TransferReader}
    (ht : (transferReader hasToken m).parseTransferEncoding rt = .ok t) :
    t.requestMethod = request.getD (ascii "GET") ∧ t.statusCode = status := by
  have hmethod : (transferReader hasToken m).requestMethod = request.getD (ascii "GET") := by
    rw [transferReader, horigin]
  have hstatus : (transferReader hasToken m).statusCode = status := by
    rw [transferReader, horigin]
  rcases parseTransferEncoding_ok ht with ⟨-, rfl⟩ | ⟨-, rfl⟩
  · exact ⟨hmethod, hstatus⟩
  · exact ⟨hmethod, hstatus⟩

section

variable (horigin : m.origin = .response status request) (hok : readTransfer rt hasToken m = .ok r)

include horigin hok

theorem response_bodiless (hno : Bodiless status request) : r.body = .noBody := by
  obtain ⟨t, len, contentLength, tr, ht, hlen, -, rfl⟩ := readTransfer_ok hok
  obtain ⟨hmethod, hstatus⟩ := reader_of_response horigin ht
  rw [bodiless_iff, ← hmethod, ← hstatus] at hno
  obtain ⟨h₁, -, hlen⟩ := ok_of_bind hlen
  rcases fixLengthOf_ok hlen with ⟨-, rfl⟩ | ⟨hbody, -⟩
  · exact prepareBody_bodiless hno
  · exact absurd hno hbody

theorem response_chunked (hbody : ¬ Bodiless status request) (hcodings : m.codings.isSome = true) :
    r.body.framing = .chunked := by
  obtain ⟨t, len, contentLength, tr, ht, -, -, rfl⟩ := readTransfer_ok hok
  obtain ⟨hmethod, hstatus⟩ := reader_of_response horigin ht
  rw [bodiless_iff, ← hmethod, ← hstatus] at hbody
  rcases parseTransferEncoding_ok ht with ⟨hnone, -⟩ | ⟨-, rfl⟩
  · rw [← codings_transferReader hasToken, hnone] at hcodings
    cases hcodings
  · exact congrArg Body.framing (prepareBody_chunked len.1 hbody)

/-- Without codings, a response that may have a body has the one length, or it ends with the
connection. -/
theorem response_plain (hbody : ¬ Bodiless status request) (hcodings : m.codings = none) :
    (∃ v n, m.OnlyLength v ∧ v ≠ [] ∧ decimal? v = some n ∧ r.body.framing = .length n) ∨
      (∀ v, m.OnlyLength v → v = []) ∧ r.body.framing = .untilClose ∧ r.close = true := by
  have hresponse : m.isResponse = true := by rw [Message.isResponse, horigin]
  obtain ⟨t, len, contentLength, tr, ht, hlen, -, rfl⟩ := readTransfer_ok hok
  obtain ⟨hmethod, hstatus⟩ := reader_of_response horigin ht
  rw [bodiless_iff, ← hmethod, ← hstatus] at hbody
  rcases parseTransferEncoding_ok ht with ⟨-, rfl⟩ | ⟨hsome, -⟩
  · have hsame : (transferReader hasToken m).plain.header.get (ascii "Content-Length") =
        m.header.get (ascii "Content-Length") := by
      refine get_of_get? ?_
      rw [plain, Header.get?_del, if_neg (by decide), get?_transferReader (by decide)]
    have hchunked : (transferReader hasToken m).plain.chunked = false := chunked_transferReader
    rw [hresponse, hchunked] at hlen
    simp only [← agreed_of_onlyLength hsame]
    rcases length_of_plain hbody hlen with ⟨v, n, hagreed, hv, hn, hlen⟩ | ⟨hnone, hlen⟩
    · refine .inl ⟨v, n, hagreed, hv, hn, ?_⟩
      rw [unifyOutput, hlen, hchunked]
      exact framing_prepareBody (transferReader hasToken m).requestMethod
        (transferReader hasToken m).statusCode n _
    have hallowed : bodyAllowedForStatus (transferReader hasToken m).plain.statusCode = true :=
      Bool.eq_true_of_not_eq_false fun hfalse => hbody (.inr hfalse)
    have hclose : closeAfter m.isResponse (transferReader hasToken m).plain len.1 = true := by
      rw [closeAfter, hresponse, hlen, hchunked, hallowed]
      exact Bool.or_true _
    refine .inr ⟨fun v hagreed => ?_, ?_, hclose⟩
    · rcases hnone with habsent | hblank
      · exact absurd habsent hagreed.1
      · obtain ⟨w, hw⟩ := exists_mem_of_ne_nil _ hagreed.1
        rw [← hagreed.2 w hw, hblank.2 w hw]
    · rw [unifyOutput, hclose, hlen, hchunked]
      rfl
  · rw [codings_transferReader, hcodings] at hsome
    cases hsome

end

theorem Message.OnlyLength.eq {v' : Bytes} (hv : m.OnlyLength v) (hv' : m.OnlyLength v') :
    v = v' := by
  obtain ⟨w, hw⟩ := exists_mem_of_ne_nil _ hv.1
  rw [← hv.2 w hw, ← hv'.2 w hw]

/-- A response that is accepted has the body that its header calls for. -/
theorem readTransfer_response {status : Int} {request : Option Bytes}
    (horigin : m.origin = .response status request) {r : Transferred}
    (hok : readTransfer rt hasToken m = .ok r) :
    (Bodiless status request → r.body = .noBody) ∧
      (¬ Bodiless status request → m.codings.isSome = true →
        r.body.framing = .chunked ∧ r.header.get? (ascii "Content-Length") = none) ∧
      (¬ Bodiless status request → m.codings = none →
        (∀ v, m.OnlyLength v → v ≠ [] →
          ∃ n, decimal? v = some n ∧ r.body.framing = .length n) ∧
        ((∀ v, m.OnlyLength v → v = []) → r.body.framing = .untilClose ∧ r.close = true)) ∧
      r.header.get? (ascii "Transfer-Encoding") = none := by
  refine ⟨response_bodiless horigin hok, fun hbody hcodings => ?_, fun hbody hcodings => ?_,
    readTransfer_removes hok⟩
  · exact ⟨response_chunked horigin hok hbody hcodings, readTransfer_removes_length hok hcodings⟩
  · rcases response_plain horigin hok hbody hcodings with ⟨v, n, hv, hne, hn, hframing⟩ |
      ⟨hblank, hframing, hclose⟩
    · refine ⟨fun v' hv' _ => ?_, fun hblank => absurd (hblank v hv) hne⟩
      rw [hv'.eq hv]
      exact ⟨n, hn, hframing⟩
    · exact ⟨fun v hv hne => absurd (hblank v hv) hne, fun _ => ⟨hframing, hclose⟩⟩

/-- A response with the length 5. -/
def fiveBytes : Message where
  origin := .response 200 none
  protoMajor := 1
  protoMinor := 1
  header := [(ascii "Content-Length", [ascii "5", ascii " 5"])]
  transferEncoding := []

theorem readTransfer_response_five :
    ∃ r, readTransfer .plain (fun _ _ => false) fiveBytes = .ok r ∧ r.body.framing = .length 5 := by
  have hok : readTransfer .plain (fun _ _ => false) fiveBytes =
      .ok { header := [(ascii "Content-Length", [ascii "5"])], body := .limited 5 false,
            contentLength := 5, transferEncoding := [], close := false, trailer := none } := by
    decide
  have hbody : ¬ Bodiless 200 none := by
    rintro (h | h | h | h) <;> simp at h
  obtain ⟨n, hn, hframing⟩ := ((readTransfer_response rfl hok).2.2.1 hbody (by decide)).1
    (ascii "5") ⟨by decide, by decide⟩ (by decide)
  refine ⟨_, hok, ?_⟩
  rw [hframing, ← Option.some_inj.mp ((by decide : decimal? (ascii "5") = some 5).symm.trans hn)]

/-- A version 0.0 counts as 1.1, so that the codings of such a response are not ignored. -/
theorem readTransfer_unset_version : (∃ r, readTransfer .plain (fun _ _ => false)
        { origin := .response 200 none, protoMajor := 0, protoMinor := 0,
          header := [(ascii "Transfer-Encoding", [ascii "chunked"])], transferEncoding := [] } =
        .ok r ∧ r.body.framing = .chunked) ∧ atLeast 0 0 1 1 = false :=
  ⟨⟨_, rfl, rfl⟩, rfl⟩

/-! ## Requests -/

/-- The body that a request has by its header: a chunked one if it has codings, and otherwise its
length, which is 0 without a `Content-Length`. -/
def Message.Delimits (m : Message) (r : Transferred) : Prop :=
  (m.codings.isSome = true →
    r.body.framing = .chunked ∧ r.header.get? (ascii "Content-Length") = none) ∧
  (m.codings = none →
    (∀ v n, m.OnlyLength v → decimal? v = some n → r.body.framing = .length n) ∧
    (m.lengths = [] → r.body.framing = .length 0))

/-- A chunked request is not a `HEAD` request, and nothing else is wrong with it; the length of
another one is not blank, unless it is a `HEAD` request. -/
def Message.Guarded (rt : Runtime) (method : Bytes) (m : Message) : Prop :=
  (∀ v, m.codings = some [v] → rt.toLower (trimString v) = ascii "chunked" → m.TrailerAllowed →
    method ≠ ascii "HEAD" ∧ ¬ m.Malformed) ∧
  (m.codings = none → method ≠ ascii "HEAD" → ¬ m.OnlyLength [])

variable {method : Bytes} {close : Bool}

theorem request_of_other {raw : List Bytes} (hsome : m.codings = some raw)
    (hother : ∀ v, raw = [v] → rt.toLower (trimString v) ≠ ascii "chunked") :
    ∃ e, readTransfer rt hasToken m = .error e := by
  rw [← codings_transferReader hasToken] at hsome
  obtain ⟨e, he⟩ := parseTransferEncoding_of_other hsome hother
  refine ⟨e, ?_⟩
  rw [readTransfer, he]
  rfl

theorem fixTrailer_chunked
    (hsame : h.get? (ascii "Trailer") = m.header.get? (ascii "Trailer")) :
    (m.TrailerAllowed ∧ ∃ tr, fixTrailer h true = .ok tr) ∨
      (¬ m.TrailerAllowed ∧ ∃ e, fixTrailer h true = .error e) := by
  unfold fixTrailer Message.TrailerAllowed
  rw [hsame]
  cases hget : m.header.get? (ascii "Trailer") with
  | none => exact .inl ⟨fun vv hvv => (by cases hvv), _, rfl⟩
  | some vv =>
    dsimp only
    cases hfind : (trailerKeys vv).find? forbiddenTrailer with
    | none =>
      refine .inl ⟨fun vv' hvv' key hkey => ?_, _, rfl⟩
      cases hvv'
      exact Bool.eq_false_iff.mpr (find?_eq_none.mp hfind key hkey)
    | some key =>
      refine .inr ⟨fun hall => ?_, _, rfl⟩
      have hfalse := hall vv rfl key (mem_of_find?_eq_some hfind)
      rw [find?_some hfind] at hfalse
      cases hfalse

/-- The length of a chunked request. -/
theorem fixLength_chunked (habsent : h.get (ascii "Content-Length") = []) :
    fixLength false 200 method h true = .ok (if method = ascii "HEAD" then 0 else -1, h) := by
  rw [fixLength, dedup_of_absent habsent]
  show fixLengthOf false 200 method h true = _
  unfold fixLengthOf noResponseBodyExpected
  rw [habsent]
  by_cases hhead : method = ascii "HEAD"
  · rw [hhead]
    rfl
  · rw [if_neg (by rw [beq_iff_eq]; exact hhead), if_neg hhead]
    rfl

/-- A chunked request is accepted if its trailers are, but the body of a `HEAD` request has no
bytes. -/
theorem request_of_chunked (horigin : m.origin = .request method close)
    (hone : m.codings = some [v]) (hchunked : rt.toLower (trimString v) = ascii "chunked") :
    (m.TrailerAllowed ∧ ∃ r, readTransfer rt hasToken m = .ok r ∧
      r.body.framing = if method = ascii "HEAD" then .length 0 else .chunked) ∨
    (¬ m.TrailerAllowed ∧ ∃ e, readTransfer rt hasToken m = .error e) := by
  have hrequest : m.isResponse = false := by rw [Message.isResponse, horigin]
  have hreader : (transferReader hasToken m).requestMethod = method ∧
      (transferReader hasToken m).statusCode = 200 := by
    rw [transferReader, horigin]
    exact ⟨rfl, rfl⟩
  rw [← codings_transferReader hasToken] at hone
  have hparse := parseTransferEncoding_of_chunked hone hchunked
  generalize ht : (transferReader hasToken m).toChunked = t at hparse
  have hmethod : t.requestMethod = method := by rw [← ht, ← hreader.1]; rfl
  have hstatus : t.statusCode = 200 := by rw [← ht, ← hreader.2]; rfl
  have htrue : t.chunked = true := by rw [← ht]; rfl
  have habsent : t.header.get (ascii "Content-Length") = [] := by
    rw [← ht, Header.get, toChunked, Header.get?_del, if_pos rfl]
    rfl
  have htrailer : t.header.get? (ascii "Trailer") = m.header.get? (ascii "Trailer") := by
    rw [← ht, toChunked, Header.get?_del, if_neg (by decide), Header.get?_del,
      if_neg (by decide), get?_transferReader (by decide)]
  have hread : readTransfer rt hasToken m = (fixTrailer t.header true).map
      (unifyOutput m t (if method = ascii "HEAD" then 0 else -1)
        (if method = ascii "HEAD" then 0 else -1)) := by
    rw [readTransfer, hparse]
    show (fixLength m.isResponse t.statusCode t.requestMethod t.header t.chunked >>= _) = _
    rw [hrequest, hstatus, hmethod, htrue, fixLength_chunked habsent]
    rfl
  rw [hread]
  rcases fixTrailer_chunked htrailer with ⟨hallowed, tr, htr⟩ | ⟨hnot, e, he⟩
  · refine .inl ⟨hallowed, _, by rw [htr]; rfl, ?_⟩
    rw [unifyOutput, htrue, hmethod, hstatus]
    by_cases hhead : method = ascii "HEAD"
    · rw [if_pos hhead, if_pos hhead]
      rw [prepareBody_bodiless (.inl hhead)]
      rfl
    · rw [if_neg hhead, if_neg hhead]
      refine congrArg Body.framing (prepareBody_chunked (-1) ?_)
      rintro (h | h)
      · exact hhead h
      · cases h
  · exact .inr ⟨hnot, e, by rw [he]; rfl⟩

/-- What the length of a request without codings can be. -/
theorem length_of_request (hok : fixLength false 200 method h false = .ok len) :
    (h.get (ascii "Content-Length") = [] ∨ method ≠ ascii "HEAD" ∧ Agreed h []) ∧ len.1 = 0 ∨
      ∃ v n, Agreed h v ∧ decimal? v = some n ∧ len.1 = (n : Int) := by
  by_cases hhead : method = ascii "HEAD"
  · subst hhead
    obtain ⟨h₁, hdedup, hlen⟩ := ok_of_bind hok
    unfold fixLengthOf at hlen
    rw [if_pos (by decide)] at hlen
    split at hlen
    · cases hlen
    rename_i hlens
    cases hlen
    rcases (dedup_ok hdedup).1 with ⟨habsent, -⟩ | ⟨v, hagreed, w, hget, hw⟩
    · exact .inl ⟨.inl habsent, rfl⟩
    · have hzero : w = ascii "0" := by
        rw [hget] at hlens
        simpa using hlens
      refine .inr ⟨v, 0, hagreed, ?_, rfl⟩
      rw [← hw, hzero]
      decide
  · have hbody : ¬ (method = ascii "HEAD" ∨ bodyAllowedForStatus 200 = false) := by
      rintro (hno | hno)
      · exact hhead hno
      · cases hno
    rcases length_of_plain hbody hok with ⟨v, n, hagreed, -, hn, hlen⟩ | ⟨hnone, hlen⟩
    · exact .inr ⟨v, n, hagreed, hn, hlen⟩
    · exact .inl ⟨hnone.imp_right fun hblank => ⟨hhead, hblank⟩, hlen⟩

/-- A request without codings is accepted if its length is. -/
theorem request_of_none (horigin : m.origin = .request method close) (hcodings : m.codings = none) :
    readTransfer rt hasToken m =
      (fixLength false 200 method (m.header.del (ascii "Transfer-Encoding")) false).map fun len =>
        unifyOutput m (transferReader hasToken m).plain len.1 len.1 (none, len.2) := by
  have hrequest : m.isResponse = false := by rw [Message.isResponse, horigin]
  have hreader : (transferReader hasToken m).plain =
      { header := m.header.del (ascii "Transfer-Encoding"), statusCode := 200,
        requestMethod := method, protoMajor := m.version.1, protoMinor := m.version.2,
        chunked := false, close } := by
    rw [transferReader, horigin]
    rfl
  rw [← codings_transferReader hasToken] at hcodings
  rw [readTransfer, parseTransferEncoding_of_none hcodings, hrequest]
  simp only [hreader]
  show (fixLength false 200 method (m.header.del (ascii "Transfer-Encoding")) false >>= _) = _
  cases fixLength false 200 method (m.header.del (ascii "Transfer-Encoding")) false with
  | error e => rfl
  | ok len =>
    show (fixTrailer len.2 false).map _ = _
    rw [fixTrailer_plain]
    rfl

theorem get_del_transferEncoding (m : Message) :
    (m.header.del (ascii "Transfer-Encoding")).get (ascii "Content-Length") =
      m.header.get (ascii "Content-Length") := by
  refine get_of_get? ?_
  rw [Header.get?_del, if_neg (by decide)]

section

variable (horigin : m.origin = .request method close) (hcodings : m.codings = none)

include horigin hcodings

/-- A request without codings that is accepted has the one length, which may be blank. -/
theorem request_plain (hok : readTransfer rt hasToken m = .ok r) :
    (m.lengths = [] ∨ method ≠ ascii "HEAD" ∧ m.OnlyLength []) ∧ r.body.framing = .length 0 ∨
      ∃ v n, m.OnlyLength v ∧ decimal? v = some n ∧ r.body.framing = .length n := by
  rw [request_of_none horigin hcodings] at hok
  cases hlen : fixLength false 200 method (m.header.del (ascii "Transfer-Encoding")) false with
  | error e =>
    rw [hlen] at hok
    cases hok
  | ok len =>
    rw [hlen] at hok
    cases hok
    have hframing (n : Nat) (hn : len.1 = (n : Int)) :
        (unifyOutput m (transferReader hasToken m).plain len.1 len.1
          (none, len.2)).body.framing = .length n := by
      have hchunked : (transferReader hasToken m).plain.chunked = false := chunked_transferReader
      rw [unifyOutput, hn, hchunked]
      exact framing_prepareBody (transferReader hasToken m).requestMethod
        (transferReader hasToken m).statusCode n _
    have hsame := get_del_transferEncoding m
    have habsent : m.lengths = [] ↔
        (m.header.del (ascii "Transfer-Encoding")).get (ascii "Content-Length") = [] := by
      rw [Message.lengths, map_eq_nil_iff, hsame]
    simp only [habsent, ← agreed_of_onlyLength hsame]
    rcases length_of_request hlen with ⟨hnone, hzero⟩ | ⟨v, n, hagreed, hn, hlen⟩
    · exact .inl ⟨hnone, hframing 0 hzero⟩
    · exact .inr ⟨v, n, hagreed, hn, hframing n hlen⟩

/-- A blank length is accepted, except in a `HEAD` request. -/
theorem request_of_blank (hhead : method ≠ ascii "HEAD") (hblank : m.OnlyLength []) :
    ∃ r, readTransfer rt hasToken m = .ok r := by
  rw [request_of_none horigin hcodings]
  obtain ⟨h₁, hdedup, honly, -⟩ :=
    dedup_of_agreed ((agreed_of_onlyLength (get_del_transferEncoding m)).mpr hblank)
  have hlen : fixLengthOf false 200 method h₁ false = lengthOf false h₁ := by
    unfold fixLengthOf noResponseBodyExpected
    rw [if_neg (by rw [beq_iff_eq]; exact hhead)]
    rfl
  rw [fixLength, hdedup]
  show ∃ r, (fixLengthOf false 200 method h₁ false).map _ = .ok r
  rw [hlen, lengthOf_none (.inr honly)]
  exact ⟨_, rfl⟩

end

/-- A request with one length is not malformed. -/
theorem not_malformed (hcodings : m.codings = none)
    (hlengths : m.lengths = [] ∨ ∃ v n, m.OnlyLength v ∧ decimal? v = some n) : ¬ m.Malformed := by
  rintro (⟨raw, hraw, -⟩ | ⟨w, hw, w', hw', hne⟩ | ⟨w, hw, hnone⟩)
  · rw [hcodings] at hraw
    cases hraw
  · rcases hlengths with hnil | ⟨v, n, honly, -⟩
    · rw [hnil] at hw
      cases hw
    · exact hne ((honly.2 w hw).trans (honly.2 w' hw').symm)
  · rcases hlengths with hnil | ⟨v, n, honly, hn⟩
    · rw [hnil] at hw
      cases hw
    · rw [honly.2 w hw, hn] at hnone
      cases hnone

/-- The body of a guarded request that is accepted. -/
theorem request_of_guarded (horigin : m.origin = .request method close)
    (hguarded : m.Guarded rt method) (hok : readTransfer rt hasToken m = .ok r) :
    m.Delimits r ∧ ¬ m.Malformed := by
  obtain ⟨hchunk, hblank⟩ := hguarded
  cases hcodings : m.codings with
  | none =>
    have hlengths : (m.lengths = [] ∧ r.body.framing = .length 0) ∨
        ∃ v n, m.OnlyLength v ∧ decimal? v = some n ∧ r.body.framing = .length n := by
      rcases request_plain horigin hcodings hok with ⟨hnone | ⟨hhead, hnone⟩, hframing⟩ | hsome
      · exact .inl ⟨hnone, hframing⟩
      · exact absurd hnone (hblank hcodings hhead)
      · exact .inr hsome
    refine ⟨⟨fun hsome => ?_, fun _ => ?_⟩, not_malformed hcodings ?_⟩
    · rw [hcodings] at hsome
      cases hsome
    · rcases hlengths with ⟨hnil, hframing⟩ | ⟨v, n, honly, hn, hframing⟩
      · exact ⟨fun v n honly _ => absurd hnil honly.1, fun _ => hframing⟩
      · refine ⟨fun v' n' honly' hn' => ?_, fun hnil => absurd hnil honly.1⟩
        rw [honly'.eq honly, hn] at hn'
        rw [hframing, Option.some_inj.mp hn']
    · rcases hlengths with ⟨hnil, -⟩ | ⟨v, n, honly, hn, -⟩
      · exact .inl hnil
      · exact .inr ⟨v, n, honly, hn⟩
  | some raw =>
    by_cases hone : ∃ v, raw = [v] ∧ rt.toLower (trimString v) = ascii "chunked"
    · obtain ⟨v, rfl, hchunked⟩ := hone
      rcases request_of_chunked horigin hcodings hchunked with ⟨hallowed, r', hok', hframing⟩ |
        ⟨-, e, he⟩
      · rw [hok] at hok'
        cases hok'
        obtain ⟨hhead, hwell⟩ := hchunk v hcodings hchunked hallowed
        rw [if_neg hhead] at hframing
        refine ⟨⟨fun hsome => ⟨hframing, readTransfer_removes_length hok hsome⟩, fun hnone => ?_⟩,
          hwell⟩
        rw [hcodings] at hnone
        cases hnone
      · rw [hok] at he
        cases he
    · obtain ⟨e, he⟩ : ∃ e, readTransfer rt hasToken m = .error e :=
        request_of_other hcodings fun v hv hchunked => hone ⟨v, hv, hchunked⟩
      rw [hok] at he
      cases he

/-- A request that is accepted has the body that its header calls for, and a malformed one is
rejected, if and only if the request is guarded. -/
theorem readTransfer_request_iff (rt : Runtime) (hasToken : List Bytes → Bytes → Bool)
    (m : Message) (method : Bytes) (close : Bool) (horigin : m.origin = .request method close) :
    ((∀ r, readTransfer rt hasToken m = .ok r → m.Delimits r) ∧
      (m.Malformed → ∃ e, readTransfer rt hasToken m = .error e)) ↔ m.Guarded rt method := by
  constructor
  · rintro ⟨hdelimits, hmalformed⟩
    have hwell {r : Transferred} (hok : readTransfer rt hasToken m = .ok r) : ¬ m.Malformed := by
      intro hbad
      obtain ⟨e, he⟩ := hmalformed hbad
      rw [hok] at he
      cases he
    refine ⟨fun v hone hchunked hallowed => ?_, fun hcodings hhead hblank => ?_⟩
    · obtain ⟨-, r, hok, hframing⟩ | ⟨hnot, -⟩ :
          (m.TrailerAllowed ∧ ∃ r, readTransfer rt hasToken m = .ok r ∧ r.body.framing =
            if method = ascii "HEAD" then .length 0 else .chunked) ∨
          (¬ m.TrailerAllowed ∧ ∃ e, readTransfer rt hasToken m = .error e) :=
        request_of_chunked horigin hone hchunked
      · refine ⟨fun hhead => ?_, hwell hok⟩
        rw [((hdelimits r hok).1 (by rw [hone]; rfl)).1, if_pos hhead] at hframing
        cases hframing
      · exact absurd hallowed hnot
    · obtain ⟨r, hok⟩ : ∃ r, readTransfer rt hasToken m = .ok r :=
        request_of_blank horigin hcodings hhead hblank
      refine hwell hok (.inr (.inr ?_))
      obtain ⟨w, hw⟩ := exists_mem_of_ne_nil _ hblank.1
      exact ⟨w, hw, by rw [hblank.2 w hw]; rfl⟩
  · intro hguarded
    refine ⟨fun r hok => (request_of_guarded horigin hguarded hok).1, fun hbad => ?_⟩
    cases hread : readTransfer rt hasToken m with
    | error e => exact ⟨e, rfl⟩
    | ok r => exact absurd hbad (request_of_guarded horigin hguarded hread).2

/-- A chunked request. -/
def chunkedMessage (method : Bytes) : Message where
  origin := .request method false
  protoMajor := 1
  protoMinor := 1
  header := [(ascii "Transfer-Encoding", [ascii "chunked"])]
  transferEncoding := []

theorem readTransfer_request_iff_post :
    ¬ (chunkedMessage (ascii "POST")).Malformed ∧
      ∃ r, readTransfer .plain (fun _ _ => false) (chunkedMessage (ascii "POST")) = .ok r ∧
        r.body.framing = .chunked := by
  have hwell : ¬ (chunkedMessage (ascii "POST")).Malformed := by
    rintro (⟨raw, hraw, hother⟩ | ⟨w, hw, -⟩ | ⟨w, hw, -⟩)
    · have hchunked : Message.IsChunked (ascii "chunked") := by
        unfold Message.IsChunked
        decide
      exact hother (ascii "chunked") (Option.some_inj.mp hraw).symm hchunked
    · cases hw
    · cases hw
  obtain ⟨r, hok⟩ : ∃ r, readTransfer .plain (fun _ _ => false)
      (chunkedMessage (ascii "POST")) = .ok r := ⟨_, rfl⟩
  refine ⟨hwell, r, hok, ?_⟩
  have hguarded : (chunkedMessage (ascii "POST")).Guarded .plain (ascii "POST") :=
    ⟨fun _ _ _ _ => ⟨by decide, hwell⟩, fun hnone => absurd hnone (by decide)⟩
  exact ((((readTransfer_request_iff _ _ _ _ _ rfl).mpr hguarded).1 r hok).1 (by decide)).1

/-- The chunks of a `HEAD` request are left on the connection. -/
theorem readTransfer_head_chunked :
    ∃ r, readTransfer .plain (fun _ _ => false) (chunkedMessage (ascii "HEAD")) = .ok r ∧
      r.body = .noBody ∧ ¬ (chunkedMessage (ascii "HEAD")).Delimits r := by
  refine ⟨_, rfl, rfl, fun hdelimits => ?_⟩
  have hframing := (hdelimits.1 (by decide)).1
  cases hframing

end

end Fhttp.Http
