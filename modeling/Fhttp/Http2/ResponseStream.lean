import Fhttp.Http2.ResponseFrames
import Fhttp.Http2.RequestFields

/-!
# The frames of a response

What a handler asks for becomes frames on its stream (`Emits`).  A header block takes a
`HEADERS` frame and perhaps `CONTINUATION` frames, and it takes no frame at all if it has no
field.  DATA is cut as the flow control allows it, and only the last part keeps the end of the
stream.  The frames of one stream keep their order.

`Sequenced` says how the frames of a response should follow each other.  They do, unless the
trailers that end the stream turn out to have no field that can be sent.
-/

namespace Fhttp.Hpack

open List

/-! ## A field takes bytes -/

theorem appendVarInt_ne_nil (dst : Bytes) (n i : UInt64) : appendVarInt dst n i ≠ [] := by
  unfold appendVarInt
  dsimp only
  split
  · simp
  · rw [appendVarIntLoop_eq]
    simp

theorem orAt_ne_nil {dst : Bytes} (h : dst ≠ []) (first : Nat) (t : UInt8) :
    orAt dst first t ≠ [] := by
  intro hnil
  have hlen := congrArg length hnil
  rw [orAt, length_modify] at hlen
  exact h (eq_nil_of_length_eq_zero hlen)

theorem appendHpackString_ne_nil (dst s : Bytes) : appendHpackString dst s ≠ [] := by
  unfold appendHpackString
  dsimp only
  split
  · refine orAt_ne_nil ?_ _ _
    rw [appendHuffmanString_eq]
    exact append_ne_nil_of_left_ne_nil (appendVarInt_ne_nil _ _ _) _
  · exact append_ne_nil_of_left_ne_nil (appendVarInt_ne_nil _ _ _) _

variable {e e' : Encoder}

theorem Encoder.writeField?_ne_nil {f : HeaderField} {bytes : Bytes}
    (h : e.writeField? f = some (bytes, e')) : bytes ≠ [] := by
  obtain ⟨⟨idx, isMatch⟩, _, heq⟩ := Option.map_eq_some_iff.mp h
  dsimp only at heq
  split at heq
  · cases heq
    exact orAt_ne_nil (appendVarInt_ne_nil _ _ _) _ _
  · split at heq
    · cases heq
      exact appendHpackString_ne_nil _ _
    · cases heq
      exact appendHpackString_ne_nil _ _

/-- A block is empty only if it has no field. -/
theorem Encoder.writeFields?_eq_nil_iff {fs : List HeaderField} {block : Bytes}
    (h : e.writeFields? fs = some (block, e')) : block = [] ↔ fs = [] := by
  cases fs with
  | nil =>
    cases h
    simp
  | cons f fs =>
    obtain ⟨⟨b, e₁⟩, hb, h⟩ := Option.bind_eq_some_iff.mp h
    obtain ⟨⟨bs, e₂⟩, _, heq⟩ := Option.map_eq_some_iff.mp h
    cases heq
    simp [writeField?_ne_nil hb]

end Fhttp.Hpack

namespace Fhttp.Http2

open Hpack (Bytes HeaderField Encoder ascii)
open List

/-! ## From requests to frames -/

/-- The DATA frames for some bytes. -/
inductive DataFrames (id : UInt32) : Bytes → Bool → List WriteCall → Prop where
  | whole (p : Bytes) (endStream : Bool) : DataFrames id p endStream [.data id endStream p none]
  | cut {p q : Bytes} {endStream : Bool} {frames : List WriteCall} (hp : p ≠ []) (hq : q ≠ [])
      (h : DataFrames id q endStream frames) :
      DataFrames id (p ++ q) endStream (.data id false p none :: frames)

/-- The frames for what a handler asks for.  Other streams use the encoder in between, so each
block meets it in some state. -/
inductive Emits (env : ResponseEnv) (id : UInt32) : List ResponseWrite → List WriteCall → Prop where
  | nil : Emits env id [] []
  | headers {w : ResHeaders} {rest : List ResponseWrite} {e e' : Encoder} {block : Bytes}
      {calls frames : List WriteCall} (hblock : e.writeFields? (w.fields env) = some (block, e'))
      (hcalls : splitHeaderBlock block (writeResHeaders.writeHeaderBlock id w.endStream) =
        .ok (calls, none))
      (h : Emits env id rest frames) : Emits env id (.headers w :: rest) (calls ++ frames)
  | data {p : Bytes} {endStream : Bool} {rest : List ResponseWrite} {calls frames : List WriteCall}
      (hdata : DataFrames id p endStream calls) (h : Emits env id rest frames) :
      Emits env id (.data p endStream :: rest) (calls ++ frames)

/-- The frames carry one header block. -/
def CarriesHeaders (id : UInt32) (endStream : Bool) (calls : List WriteCall) : Prop :=
  ∃ block, CarriesBlock (writeResHeaders.writeHeaderBlock id endStream · true ·) id block calls

/-- A DATA frame with its flag. -/
def dataCall (id : UInt32) (d : Bool × Bytes) : WriteCall := .data id d.1 d.2 none

/-- The frames of a response: a header block, DATA frames with the body, and perhaps a block of
trailers.  The last of these ends the stream, and no other does. -/
def Sequenced (id : UInt32) (isHead : Bool) (body : Bytes) (frames : List WriteCall) : Prop :=
  ∃ (head tail : List WriteCall) (datas : List (Bool × Bytes)) (e e' : Bool) (n : Nat),
    frames = head ++ datas.map (dataCall id) ++ tail ∧ CarriesHeaders id e head ∧
    (tail = [] ∨ CarriesHeaders id e' tail) ∧ datas.flatMap Prod.snd = body ∧
    (isHead = true → datas = []) ∧
    e :: (datas.map Prod.fst ++ if tail = [] then [] else [e']) = replicate n false ++ [true]

/-- The frame ends the stream. -/
def WriteCall.endsStream : WriteCall → Bool
  | .data _ endStream _ _ => endStream
  | .headers p => p.endStream
  | _ => false

section Frames

variable {env : ResponseEnv} {id : UInt32}

variable {endStream : Bool} {calls : List WriteCall} {rest : List ResponseWrite}

/-- A block with a field has a frame. -/
theorem carriesHeaders_of_split (hid : validStreamID id = true) {block : Bytes} (hne : block ≠ [])
    (h : splitHeaderBlock block (writeResHeaders.writeHeaderBlock id endStream) =
      .ok (calls, none)) :
    CarriesHeaders id endStream calls := by
  obtain ⟨calls', err, heq, _, hiff⟩ := writeResHeaders.carriesBlock id endStream hne
  rw [h] at heq
  cases heq
  exact ⟨block, (hiff.mpr hid).2⟩

variable {frames : List WriteCall}

theorem emits_headers (hid : validStreamID id = true) {w : ResHeaders}
    (h : Emits env id (.headers w :: rest) frames) :
    ∃ calls frames', frames = calls ++ frames' ∧ Emits env id rest frames' ∧
      if w.fields env = [] then calls = [] else CarriesHeaders id w.endStream calls := by
  cases h with
  | headers hblock hcalls hrest =>
    refine ⟨_, _, rfl, hrest, ?_⟩
    split
    · rename_i hnil
      rw [(Encoder.writeFields?_eq_nil_iff hblock).mpr hnil] at hcalls
      cases hcalls
      rfl
    · rename_i hne
      exact carriesHeaders_of_split hid
        (fun hnil => hne ((Encoder.writeFields?_eq_nil_iff hblock).mp hnil)) hcalls

/-- The DATA frames of one request. -/
theorem DataFrames.spec {p : Bytes} (h : DataFrames id p endStream calls) :
    ∃ (ps : List Bytes) (q : Bytes),
      calls = (ps.map (false, ·) ++ [(endStream, q)]).map (dataCall id) ∧ ps.flatten ++ q = p := by
  induction h with
  | whole p endStream => exact ⟨[], p, rfl, rfl⟩
  | cut hp hq _ ih =>
    obtain ⟨ps, q, rfl, rfl⟩ := ih
    exact ⟨_ :: ps, q, rfl, by simp⟩

/-- DATA frames that do not end the stream. -/
theorem emits_data {ps : List Bytes}
    (h : Emits env id (ps.map (ResponseWrite.data · false) ++ rest) frames) :
    ∃ (qs : List Bytes) (frames' : List WriteCall),
      frames = (qs.map (false, ·)).map (dataCall id) ++ frames' ∧ Emits env id rest frames' ∧
      qs.flatten = ps.flatten := by
  induction ps generalizing frames with
  | nil => exact ⟨[], frames, rfl, h, rfl⟩
  | cons p ps ih =>
    cases h with
    | data hdata hrest =>
      obtain ⟨qs, q, rfl, hq⟩ := hdata.spec
      obtain ⟨qs', frames', rfl, hrest', hqs⟩ := ih hrest
      refine ⟨qs ++ [q] ++ qs', frames', ?_, hrest', ?_⟩
      · simp
      · rw [flatten_append, flatten_append, hqs, flatten_cons, ← hq]
        simp

/-- A response that is well sequenced ends its stream. -/
theorem Sequenced.ends {isHead : Bool} {body : Bytes} (h : Sequenced id isHead body frames) :
    ∃ c ∈ frames, c.endsStream = true := by
  obtain ⟨head, tail, datas, e, e', n, rfl, hhead, htail, _, _, hflags⟩ := h
  have hopen {b : Bool} {calls : List WriteCall} (hc : CarriesHeaders id b calls) (hb : b = true) :
      ∃ c ∈ calls, c.endsStream = true := by
    obtain ⟨block, frag, frags, rfl, _⟩ := hc
    exact ⟨_, mem_cons_self, hb⟩
  have hlast := congrArg (fun l => l.getLast?) hflags
  rw [getLast?_concat] at hlast
  by_cases hnil : tail = []
  · rw [if_pos hnil, append_nil] at hlast
    rcases eq_nil_or_concat datas with rfl | ⟨ds, d, rfl⟩
    · obtain ⟨c, hc, hend⟩ := hopen hhead (by simpa using hlast)
      exact ⟨c, by simp [hc], hend⟩
    · rw [concat_eq_append] at hlast ⊢
      refine ⟨dataCall id d, by simp, ?_⟩
      rw [map_append, map_singleton, ← cons_append, getLast?_concat] at hlast
      exact Option.some.inj hlast
  · rw [if_neg hnil, ← cons_append, getLast?_concat] at hlast
    obtain ⟨c, hc, hend⟩ := hopen (htail.resolve_left hnil) (Option.some.inj hlast)
    exact ⟨c, mem_append_right _ hc, hend⟩

end Frames

/-! ## The sequence of the frames -/

namespace ResponseWriter

variable {env : ResponseEnv} {id : UInt32}

/-- A value of the key can be sent. -/
def Sendable (env : ResponseEnv) (h : Header) (key : Bytes) : Prop :=
  env.guts.validWireHeaderFieldName (env.rt.toLower key) = true ∧
    ∃ v ∈ h.get key, env.guts.validHeaderFieldValue v = true ∧
      (env.rt.toLower key = ascii "transfer-encoding" → v = ascii "trailers")

theorem encodeKey_ne_nil_iff (h : Header) (key : Bytes) :
    encodeKey env h key ≠ [] ↔ Sendable env h key := by
  unfold encodeKey Sendable
  dsimp only
  cases env.guts.validWireHeaderFieldName (env.rt.toLower key) with
  | false => simp
  | true =>
    simp

/-- The trailers have a field if one of their keys can be sent. -/
theorem trailerFields_ne_nil_iff (s : ResponseWriter) :
    s.trailerFields env ≠ [] ↔
      ∃ k ∈ (s.promoted env).trailers, Sendable env (s.promoted env).handlerHeader k := by
  unfold trailerFields encodeHeaders
  rw [Option.getD_some, Ne, flatMap_eq_nil_iff]
  simp only [not_forall, exists_prop, ← encodeKey_ne_nil_iff, Ne]

/-- The block of the trailers. -/
theorem fields_trailers (h : Header) (keys : List Bytes) (endStream : Bool) :
    ResHeaders.fields env { h := h, trailers := some keys, endStream := endStream } =
      encodeHeaders env h (some keys) := by
  simp [ResHeaders.fields, optionalField]

variable {w : ResHeaders} {frames head : List WriteCall} {qs : List Bytes}

theorem fields_ne_nil (h : 100 ≤ w.httpResCode) : w.fields env ≠ [] := by
  have hne : w.httpResCode ≠ 0 := by omega
  unfold ResHeaders.fields
  rw [if_neg hne]
  simp

/-- A header that ends the stream is the whole response. -/
theorem sequenced_of_header (hid : validStreamID id = true) (hend : w.endStream = true)
    (hcode : 100 ≤ w.httpResCode) (h : Emits env id [.headers w] frames) (isHead : Bool) :
    Sequenced id isHead [] frames := by
  obtain ⟨calls, frames', rfl, hrest, hcalls⟩ := emits_headers hid h
  rw [if_neg (fields_ne_nil hcode), hend] at hcalls
  cases hrest
  exact ⟨calls, [], [], true, true, 0, by simp, hcalls, .inl rfl, rfl, fun _ => rfl, rfl⟩

/-- The header and the body before the end of the stream. -/
theorem emits_opening (hid : validStreamID id = true) (hend : w.endStream = false)
    (hcode : 100 ≤ w.httpResCode) {ps : List Bytes} {rest : List ResponseWrite}
    (h : Emits env id (.headers w :: (ps.map (ResponseWrite.data · false) ++ rest)) frames) :
    ∃ (head : List WriteCall) (qs : List Bytes) (frames' : List WriteCall),
      frames = head ++ (qs.map (false, ·)).map (dataCall id) ++ frames' ∧
      CarriesHeaders id false head ∧ qs.flatten = ps.flatten ∧ Emits env id rest frames' := by
  obtain ⟨head, frames', rfl, hrest, hhead⟩ := emits_headers hid h
  rw [if_neg (fields_ne_nil hcode), hend] at hhead
  obtain ⟨qs, frames', rfl, hrest, hqs⟩ := emits_data hrest
  exact ⟨head, qs, frames', (append_assoc ..).symm, hhead, hqs, hrest⟩

section

variable (hhead : CarriesHeaders id false head)

include hhead

/-- A body that ends with a DATA frame. -/
theorem sequenced_of_data {calls : List WriteCall} {p : Bytes} (h : DataFrames id p true calls) :
    Sequenced id false (qs.flatten ++ p)
      (head ++ (qs.map (false, ·)).map (dataCall id) ++ calls) := by
  obtain ⟨rs, r, rfl, hp⟩ := h.spec
  refine ⟨head, [], (qs ++ rs).map (false, ·) ++ [(true, r)], false, true, (qs ++ rs).length + 1,
    by simp, hhead, .inl rfl, ?_, nofun, ?_⟩
  · rw [← hp]
    simp [flatMap_map, flatMap_id']
  · rw [map_append, map_map, replicate_succ]
    simp only [Function.comp_def, map_const', map_singleton, if_true, append_nil]
    rfl

/-- A body that ends with trailers. -/
theorem sequenced_of_trailers {tail : List WriteCall} (htail : CarriesHeaders id true tail) :
    Sequenced id false qs.flatten (head ++ (qs.map (false, ·)).map (dataCall id) ++ tail) := by
  have hne : tail ≠ [] := by
    obtain ⟨_, _, _, rfl, _⟩ := htail
    exact cons_ne_nil _ _
  refine ⟨head, tail, qs.map (false, ·), false, true, qs.length + 1, rfl, hhead, .inr htail, ?_,
    nofun, ?_⟩
  · simp [flatMap_map, flatMap_id']
  · rw [if_neg hne]
    simp [replicate_succ, Function.comp_def, map_const']

/-- The header and the body alone do not end the stream. -/
theorem not_sequenced_of_open {isHead : Bool} {body : Bytes} :
    ¬ Sequenced id isHead body (head ++ (qs.map (false, ·)).map (dataCall id)) := by
  intro h
  obtain ⟨c, hc, hend⟩ := h.ends
  rcases mem_append.mp hc with hc | hc
  · obtain ⟨block, frag, frags, rfl, _⟩ := hhead
    rcases mem_cons.mp hc with rfl | hc
    · cases hend
    · obtain ⟨_, _, _, rfl⟩ := mem_continuations hc
      cases hend
  · obtain ⟨d, hd, rfl⟩ := mem_map.mp hc
    obtain ⟨q, _, rfl⟩ := mem_map.mp hd
    cases hend

end

/-- The frames of a response with a body. -/
theorem Closed.sequenced_iff (hid : validStreamID id = true) {s : ResponseWriter} {asked : Bytes}
    {out : List ResponseWrite} (h : Closed env s asked out) (hframes : Emits env id out frames) :
    Sequenced id false (asked ++ s.buf) frames ↔
      s.endsEmpty env = true ∨ (s.promoted env).hasNonemptyTrailers = false ∨
        s.trailerFields env ≠ [] := by
  cases hempty : s.endsEmpty env with
  | true =>
    obtain ⟨rfl, w, rfl, hend, hcode⟩ := h.empty hempty
    have hbuf : s.buf = [] := by
      simp only [endsEmpty, Bool.and_eq_true, List.isEmpty_iff] at hempty
      exact hempty.1.2
    rw [hbuf]
    exact iff_of_true (sequenced_of_header hid hend hcode hframes false) (.inl rfl)
  | false =>
    obtain ⟨w, ps, rfl, hend, hcode, _, rfl⟩ := h.body hempty
    obtain ⟨head, qs, frames', rfl, hhead, hqs, hrest⟩ := emits_opening hid hend hcode hframes
    rw [← hqs]
    unfold closing at hrest
    cases htrailers : (s.promoted env).hasNonemptyTrailers with
    | false =>
      rw [htrailers, if_neg Bool.false_ne_true] at hrest
      cases hrest with
      | data hdata hnil =>
        cases hnil
        rw [append_nil]
        exact iff_of_true (sequenced_of_data hhead hdata) (.inr (.inl rfl))
    | true =>
      rw [htrailers, if_pos rfl, dataOf_eq] at hrest
      obtain ⟨qs', frames', rfl, hrest, hqs'⟩ := emits_data hrest
      rw [flatten_pieceOf] at hqs'
      obtain ⟨tail, frames', rfl, hrest, htail⟩ := emits_headers hid hrest
      cases hrest
      rw [show ResHeaders.fields env _ = s.trailerFields env from fields_trailers _ _ _] at htail
      rw [← hqs', ← flatten_append, append_nil, ← append_assoc,
        append_assoc head, ← map_append, ← map_append]
      by_cases hnil : s.trailerFields env = []
      · rw [if_pos hnil] at htail
        rw [htail, append_nil]
        exact iff_of_false (not_sequenced_of_open hhead) (by simp [hnil])
      · rw [if_neg hnil] at htail
        exact iff_of_true (sequenced_of_trailers hhead htail) (.inr (.inr hnil))

/-- The frames of a response are a header block, DATA frames that carry the accepted bytes, and
perhaps a block of trailers, with one end of the stream on the last of them.  This fails just if
the response ends with trailers and none of them has a name and a value that can be sent. -/
theorem response_sequenced_iff (env : ResponseEnv) (id : UInt32) (hid : validStreamID id = true)
    (ops : List Op) (st : Progress) (hrun : Progress.run env ops = .ok st)
    (frames : List WriteCall) (hframes : Emits env id (st.rws.finish env).out frames) :
    Sequenced id env.isHead (if env.isHead then [] else st.accepted) frames ↔
      env.isHead = true ∨ st.rws.endsEmpty env = true ∨
        (st.rws.promoted env).hasNonemptyTrailers = false ∨
        ∃ k ∈ (st.rws.promoted env).trailers,
          Sendable env (st.rws.promoted env).handlerHeader k := by
  cases hhead : env.isHead with
  | true =>
    have hs := headShape_run hhead ops
    rw [hrun] at hs
    obtain ⟨w, hout, hend, hcode⟩ := HeadShape.finish hhead hs
    rw [hout] at hframes
    exact iff_of_true (sequenced_of_header hid hend hcode hframes true) (Or.inl rfl)
  | false =>
    have hs := Progress.holds_run hhead ops
    rw [hrun] at hs
    obtain ⟨asked, hshape, hall⟩ := hs
    rw [if_neg Bool.false_ne_true, ← hall, (hshape.finish hhead).sequenced_iff hid hframes,
      trailerFields_ne_nil_iff]
    simp

/-- A GET request whose handler visits the keys in order. -/
def plainEnv : ResponseEnv where
  rt := .plain
  guts := .tables
  validTrailerHeader k := k != ascii "Transfer-Encoding"
  validTrailerHeader_te := by decide
  detectContentType _ := []
  date := []
  isHead := false
  closedFirst := false
  visits h := h.map Prod.fst
  visits_all _ _ h := h

/-- A handler that declares a trailer, sends the header, and then sets the trailer. -/
def trailerHandler (values : List Bytes) : List Op :=
  [.header [(ascii "Trailer", [ascii "Foo"])], .flush,
    .header [(ascii "Trailer", [ascii "Foo"]), (ascii "Foo", values)]]

/-- The handler as it returns. -/
def trailerState (values : List Bytes) : Progress where
  rws :=
    { handlerHeader := [(ascii "Trailer", [ascii "Foo"]), (ascii "Foo", values)]
      snapHeader := [(ascii "Trailer", [ascii "Foo"])]
      trailers := [ascii "Foo"]
      status := 200
      wroteHeader := true
      sentHeader := true
      out := [.headers
        { httpResCode := 200, h := [(ascii "Trailer", [ascii "Foo"])], endStream := false }] }

variable (values : List Bytes)

theorem run_trailerHandler :
    Progress.run plainEnv (trailerHandler values) = .ok (trailerState values) := by
  rfl

theorem sortedKeys_singleton (k : Bytes) : sortedKeys [k] = [k] := mergeSort_singleton _

theorem promoted_trailerState :
    promoted plainEnv (trailerState values).rws =
      { handlerHeader := [(ascii "Trailer", [ascii "Foo"]), (ascii "Foo", values)]
        trailers := [ascii "Foo"] } := by
  show { handlerHeader := _, trailers := sortedKeys [ascii "Foo"] : ResponseWriter } = _
  rw [sortedKeys_singleton]
  rfl

/-- What the handler asks for. -/
theorem out_trailerState :
    ((trailerState values).rws.finish plainEnv).out =
      [.headers
        { httpResCode := 200, h := [(ascii "Trailer", [ascii "Foo"])], endStream := false },
       .headers
        { h := [(ascii "Trailer", [ascii "Foo"]), (ascii "Foo", values)]
          trailers := some [ascii "Foo"]
          endStream := true }] := by
  show (sendFrames plainEnv
    { (trailerState values).rws with
      handlerDone := true
      trailers := sortedKeys [ascii "Foo"] } []).2.2.out = _
  rw [sortedKeys_singleton]
  rfl

/-- Each block is written with a new encoder. -/
theorem exists_emits (hid : validStreamID id = true) {reqs : List ResponseWrite}
    (h : ∀ w, .headers w ∈ reqs → (Encoder.new.writeFields? (w.fields env)).isSome = true) :
    ∃ frames, Emits env id reqs frames := by
  induction reqs with
  | nil => exact ⟨[], .nil⟩
  | cons r reqs ih =>
    obtain ⟨frames, hframes⟩ := ih fun w hw => h w (mem_cons_of_mem _ hw)
    cases r with
    | data p endStream => exact ⟨_, .data (.whole p endStream) hframes⟩
    | headers w =>
      obtain ⟨⟨block, e'⟩, hblock⟩ := Option.isSome_iff_exists.mp (h w mem_cons_self)
      by_cases hnil : block = []
      · subst hnil
        exact ⟨_, .headers hblock rfl hframes⟩
      · obtain ⟨calls, err, hcalls, _, hiff⟩ := writeResHeaders.carriesBlock id w.endStream hnil
        obtain rfl := (hiff.mpr hid).1
        exact ⟨_, .headers hblock hcalls hframes⟩

theorem fields_header :
    ResHeaders.fields plainEnv
        { httpResCode := 200, h := [(ascii "Trailer", [ascii "Foo"])], endStream := false } =
      [{ name := ascii ":status", value := ascii "200" },
        { name := ascii "trailer", value := ascii "Foo" }] := by
  show _ ++ (sortedKeys [ascii "Trailer"]).flatMap _ ++ _ ++ _ ++ _ = _
  rw [sortedKeys_singleton]
  decide

/-- The frames of the handler, if the trailer has at most one value. -/
theorem emits_trailerState {values : List Bytes} (h : values = [] ∨ values = [ascii "bar"]) :
    ∃ frames, Emits plainEnv 1 ((trailerState values).rws.finish plainEnv).out frames := by
  rw [out_trailerState]
  refine exists_emits (by decide) fun w hw => ?_
  rcases mem_cons.mp hw with hw | hw
  · cases hw
    rw [fields_header]
    decide
  · cases mem_singleton.mp hw
    rcases h with rfl | rfl <;> decide

/-- A trailer with a value ends the stream. -/
theorem response_with_trailer :
    ∃ frames, Emits plainEnv 1 ((trailerState [ascii "bar"]).rws.finish plainEnv).out frames ∧
      Sequenced 1 false [] frames := by
  obtain ⟨frames, hframes⟩ := emits_trailerState (Or.inr rfl)
  refine ⟨frames, hframes, (response_sequenced_iff plainEnv 1 (by decide) _ _
    (run_trailerHandler [ascii "bar"]) frames hframes).mpr ?_⟩
  rw [promoted_trailerState]
  exact Or.inr (Or.inr (Or.inr ⟨ascii "Foo", mem_singleton_self _, by decide,
    ascii "bar", mem_singleton_self _, by decide, by decide⟩))

/-- The handler declares a trailer and sets it to no value: the stream is not ended. -/
theorem response_never_ends :
    Progress.run plainEnv (trailerHandler []) = .ok (trailerState []) ∧
      ∃ frames, Emits plainEnv 1 ((trailerState []).rws.finish plainEnv).out frames ∧
        ¬ Sequenced 1 false [] frames := by
  obtain ⟨frames, hframes⟩ := emits_trailerState (Or.inl rfl)
  refine ⟨run_trailerHandler [], frames, hframes, ?_⟩
  rw [out_trailerState] at hframes
  have hopening : Emits plainEnv 1
    (_ :: (([] : List Bytes).map (ResponseWrite.data · false) ++ _)) frames := hframes
  obtain ⟨head, qs, frames, rfl, hhead, _, hrest⟩ :=
    emits_opening (by decide) rfl (by decide) hopening
  obtain ⟨tail, frames, rfl, hrest, htail⟩ := emits_headers (by decide) hrest
  cases hrest
  rw [htail, append_nil, append_nil]
  exact not_sequenced_of_open hhead

end ResponseWriter

end Fhttp.Http2
