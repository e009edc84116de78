import Fhttp.Http.Cookies

/-!
# Redirects

The loop of `Client.do` in `client.go`, which follows the redirects of a request, with
`makeHeadersCopier`, `shouldCopyHeaderOnRedirect` and what they use of `transport.go`.  The
result of the loop is the chain of requests that it sends.

The copier is a closure: it has the header of the initial request, the cookies left of it, and
the previous request.  `Copier` is that state.

What is sent in the end is not the concern of this module: the cookies that the jar adds, the
user name and password of a URL, and what `CheckRedirect` does to a request come on top of the
headers that the redirect code puts there.
-/

namespace Fhttp.Http.Redirect

open Hpack (Bytes ascii)
open Http2 (Header HttpGuts canonicalHeaderKey isDigit)
open Cookies (Cookie readCookies readSetCookies)
open List

/-! ## Addresses -/

/-- A `url.URL`, as far as redirects depend on it. -/
structure URL where
  scheme : Bytes
  /-- The host, or the host with its port. -/
  host : Bytes
  /-- The text of `User`, if there is one. -/
  user : Option Bytes := none
  /-- The text of the URL, which is `String`. -/
  text : Bytes := []
deriving DecidableEq

/-- What is taken from `net/url` and `idna`: how a location is parsed, and how a name that is
not ASCII is written. -/
structure UrlLib where
  /-- `URL.Parse`: a location in the context of a URL. -/
  parse : URL → Bytes → Option URL
  /-- `url.Parse` gives a URL, and it is not `IsAbs`. -/
  relative : Bytes → Bool
  /-- `idna.Lookup.ToASCII`. -/
  toASCII : Bytes → Option Bytes

/-- `splitHostPort` of `net/url`. -/
def splitHostPort (hostPort : Bytes) : Bytes × Bytes :=
  let port := (hostPort.reverse.takeWhile (· != 0x3a)).reverse
  let split :=
    if hostPort.contains 0x3a && port.all isDigit then
      (hostPort.take (hostPort.length - port.length - 1), port)
    else (hostPort, [])
  if split.1.head? = some 0x5b ∧ split.1.getLast? = some 0x5d then
    (split.1.tail.dropLast, split.2)
  else split

def idnaASCII (lib : UrlLib) (v : Bytes) : Option Bytes :=
  if isAscii v then some v else lib.toASCII v

def portMap (scheme : Bytes) : Bytes :=
  if scheme = ascii "http" then ascii "80"
  else if scheme = ascii "https" then ascii "443"
  else if scheme = ascii "socks5" then ascii "1080"
  else []

/-- `net.JoinHostPort`. -/
def joinHostPort (host port : Bytes) : Bytes :=
  if host.contains 0x3a then ascii "[" ++ host ++ ascii "]:" ++ port
  else host ++ ascii ":" ++ port

/-- `canonicalAddr`: the host, always with a port. -/
def canonicalAddr (lib : UrlLib) (url : URL) : Bytes :=
  let split := splitHostPort url.host
  let addr := (idnaASCII lib split.1).getD split.1
  joinHostPort addr (if split.2 = [] then portMap url.scheme else split.2)

/-- `isDomainOrSubdomain`.  A proper suffix leaves a byte before it, so the index is in
range. -/
def isDomainOrSubdomain (sub parent : Bytes) : Bool :=
  if sub = parent then true
  else if !parent.isSuffixOf sub then false
  else sub[sub.length - parent.length - 1]? == some 0x2e

/-! ## Requests and responses -/

/-- A request, as far as redirects depend on it. -/
structure Request where
  method : Bytes
  url : URL
  header : Header := []
  /-- The `Host` field. -/
  host : Bytes := []
  /-- There is a body, and it is not `NoBody`. -/
  hasBody : Bool := false
  /-- `GetBody` is set. -/
  hasGetBody : Bool := false
  contentLength : Int := 0
deriving DecidableEq

def Request.outgoingLength (r : Request) : Int :=
  if !r.hasBody then 0 else if r.contentLength ≠ 0 then r.contentLength else -1

structure Response where
  statusCode : Nat
  header : Header := []
deriving DecidableEq

/-- What `CheckRedirect` returns. -/
inductive Verdict where
  | follow
  | errUseLastResponse
  | fail
deriving DecidableEq

/-- `Client`. -/
structure Client where
  guts : HttpGuts
  lib : UrlLib
  /-- There is a `Jar`. -/
  hasJar : Bool := false
  /-- `CheckRedirect`, if it is set. -/
  checkRedirectFn : Option (Request → List Request → Verdict) := none

def defaultCheckRedirect (_ : Request) (via : List Request) : Verdict :=
  if via.length ≥ 10 then .fail else .follow

def Client.checkRedirect (c : Client) (req : Request) (via : List Request) : Verdict :=
  c.checkRedirectFn.getD defaultCheckRedirect req via

/-- `redirectBehavior`: the method, whether to redirect, and whether to include the body. -/
def redirectBehavior (reqMethod : Bytes) (resp : Response) (ireq : Request) :
    Bytes × Bool × Bool :=
  if resp.statusCode = 301 ∨ resp.statusCode = 302 ∨ resp.statusCode = 303 then
    (if reqMethod ≠ ascii "GET" ∧ reqMethod ≠ ascii "HEAD" then ascii "GET" else reqMethod,
      true, false)
  else if resp.statusCode = 307 ∨ resp.statusCode = 308 then
    (reqMethod, !(!ireq.hasGetBody && ireq.outgoingLength != 0), true)
  else ([], false, false)

/-- `strings.Replace(s, old, "", 1)`. -/
def removeFirst (old : Bytes) : Bytes → Bytes
  | [] => []
  | b :: s => if old.isPrefixOf (b :: s) then (b :: s).drop old.length else b :: removeFirst old s

def refererForURL (lastReq newReq : URL) : Bytes :=
  if lastReq.scheme = ascii "https" ∧ newReq.scheme = ascii "http" then []
  else
    match lastReq.user with
    | none => lastReq.text
    | some user => removeFirst (user ++ ascii "@") lastReq.text

/-! ## The copier of headers -/

/-- The headers that hold credentials. -/
def isCredential (key : Bytes) : Bool :=
  [ascii "Authorization", ascii "Www-Authenticate", ascii "Cookie", ascii "Cookie2"].contains
    (canonicalHeaderKey key)

def shouldCopyHeaderOnRedirect (lib : UrlLib) (headerKey : Bytes) (initial dest : URL) : Bool :=
  if isCredential headerKey then
    isDomainOrSubdomain (canonicalAddr lib dest) (canonicalAddr lib initial)
  else true

/-- The state of the closure that `makeHeadersCopier` makes. -/
structure Copier where
  ireqhdr : Header
  /-- The cookies of the initial request that are left, if they are of interest. -/
  icookies : Option (List Cookie)
  /-- The URL of the previous request. -/
  preq : URL
deriving DecidableEq

/-- `makeHeadersCopier`. -/
def Client.makeHeadersCopier (c : Client) (ireq : Request) : Copier where
  ireqhdr := ireq.header
  icookies :=
    if c.hasJar ∧ (ireq.header.get (ascii "Cookie")).headD [] ≠ [] then
      some (readCookies c.guts ireq.header [])
    else none
  preq := ireq.url

/-- The value of `Cookie` for some cookies. -/
def cookieLine (cookies : List Cookie) : Bytes :=
  let ss := cookies.map fun c => c.name ++ ascii "=" ++ c.value
  (ascii "; ").intercalate (ss.mergeSort fun a b => decide (a ≤ b))

/-- Cookies that a response sets are taken out of the initial ones. -/
def Copier.dropCookies (s : Copier) (set : List Cookie) : Copier :=
  match s.icookies with
  | none => s
  | some cookies =>
    let names := set.map Cookie.name
    if cookies.any (names.contains ·.name) then
      let left := cookies.filter (fun c => !names.contains c.name)
      { s with
        icookies := some left
        ireqhdr := s.ireqhdr.set (ascii "Cookie") [cookieLine left] }
    else s

/-- The headers of `src` that are copied to a request. -/
def copyHeaders (lib : UrlLib) (src : Header) (preq dest : URL) (header : Header) : Header :=
  (src.map Prod.fst).foldl
    (fun h k => if shouldCopyHeaderOnRedirect lib k preq dest then h.set k (src.get k) else h)
    header

/-- A call of the copier. -/
def Copier.copy (c : Client) (s : Copier) (req : Request) (resp : Response) : Request × Copier :=
  let s := if c.hasJar then s.dropCookies (readSetCookies c.guts resp.header) else s
  ({ req with header := copyHeaders c.lib s.ireqhdr s.preq req.url req.header },
    { s with preq := req.url })

/-! ## The loop -/

/-- The answer to a request: the response, unless `send` fails, and whether a later call of
`GetBody` succeeds. -/
structure Answer where
  resp : Option Response
  getBody : Bool := true

/-- Why the loop stops. -/
inductive Stop where
  /-- The response is returned. -/
  | response
  | sendFailed
  | badLocation
  | getBodyFailed
  | checkFailed
  /-- The last request is not answered yet. -/
  | waiting
deriving DecidableEq

/-- The request after a redirect, before the headers are copied. -/
def nextRequest (lib : UrlLib) (ireq req : Request) (method loc : Bytes) (includeBody : Bool)
    (url : URL) : Request :=
  let withBody := includeBody && ireq.hasGetBody
  { method := method
    url := url
    host :=
      if req.host ≠ [] ∧ req.host ≠ req.url.host ∧ lib.relative loc then req.host else []
    hasBody := withBody
    contentLength := if withBody then ireq.contentLength else 0 }

/-- The `Referer` header. -/
def setReferer (last : URL) (req : Request) : Request :=
  let ref := refererForURL last req.url
  if ref ≠ [] ∧ !req.header.has (ascii "Referer") ∧ !req.header.has (ascii "referer") then
    { req with header := req.header.set (ascii "Referer") [ref] }
  else req

/-- The loop of `Client.do` after a request has been sent: `reqs` are the requests so far, and
`req` is the last of them. -/
def Client.doLoop (c : Client) (ireq : Request) :
    Copier → List Request → Request → List Answer → List Request × Stop
  | _, reqs, _, [] => (reqs, .waiting)
  | s, reqs, req, answer :: answers =>
    match answer.resp with
    | none => (reqs, .sendFailed)
    | some resp =>
      let behavior := redirectBehavior req.method resp ireq
      let loc := (resp.header.get (ascii "Location")).headD []
      if !behavior.2.1 || loc == [] then (reqs, .response)
      else
        match c.lib.parse req.url loc with
        | none => (reqs, .badLocation)
        | some url =>
          if behavior.2.2 && ireq.hasGetBody && !answer.getBody then (reqs, .getBodyFailed)
          else
            let next := nextRequest c.lib ireq req behavior.1 loc behavior.2.2 url
            let copied := s.copy c next resp
            let next := setReferer req.url copied.1
            match c.checkRedirect next reqs with
            | .errUseLastResponse => (reqs, .response)
            | .fail => (reqs, .checkFailed)
            | .follow => c.doLoop ireq copied.2 (reqs ++ [next]) next answers

/-- `Client.do`: the requests that are sent, and why there are no more. -/
def Client.do (c : Client) (req : Request) (answers : List Answer) : List Request × Stop :=
  c.doLoop req (c.makeHeadersCopier req) [req] req answers

/-! ## The maps -/

/-- The values that the copier puts on a request. -/
theorem get_copyHeaders (lib : UrlLib) (src : Header) (preq dest : URL) (k : Bytes) :
    (copyHeaders lib src preq dest []).get k =
      if shouldCopyHeaderOnRedirect lib k preq dest then src.get k else [] := by
  have hfold (keys : List Bytes) (h : Header) :
      (keys.foldl (fun h k =>
        if shouldCopyHeaderOnRedirect lib k preq dest then h.set k (src.get k) else h) h).get k =
        if k ∈ keys ∧ shouldCopyHeaderOnRedirect lib k preq dest then src.get k else h.get k := by
    induction keys generalizing h with
    | nil => simp
    | cons key keys ih =>
      rw [foldl_cons, ih]
      by_cases hkey : k = key
      · subst hkey
        by_cases hcopy : shouldCopyHeaderOnRedirect lib k preq dest <;> simp [hcopy, Header.get_set]
      · have hget : (if shouldCopyHeaderOnRedirect lib key preq dest then h.set key (src.get key)
            else h).get k = h.get k := by
          split
          · rw [Header.get_set, if_neg hkey]
          · rfl
        rw [hget]
        simp [hkey]
  unfold copyHeaders
  rw [hfold]
  by_cases hmem : k ∈ src.map Prod.fst
  · simp only [hmem, true_and]
    rfl
  · have hnil : src.get k = [] := by
      by_contra hne
      exact hmem (Header.mem_keys_of_get hne)
    simp only [hmem, false_and, if_false, hnil, ite_self]
    rfl

/-! ## Domains -/

theorem byte_before (init parent : Bytes) (b : UInt8) :
    (init ++ b :: parent)[(init ++ b :: parent).length - parent.length - 1]? = some b := by
  have hindex : (init ++ b :: parent).length - parent.length - 1 = init.length := by
    rw [length_append, length_cons]
    omega
  rw [hindex]
  simp

theorem isDomainOrSubdomain_iff {sub parent : Bytes} :
    isDomainOrSubdomain sub parent = true ↔ sub = parent ∨ (0x2e :: parent) <:+ sub := by
  unfold isDomainOrSubdomain
  by_cases heq : sub = parent
  · simp [heq]
  rw [if_neg heq]
  simp only [heq, false_or]
  constructor
  · intro h
    split at h
    · cases h
    rename_i hsuffix
    simp only [Bool.not_eq_true', Bool.not_eq_false, isSuffixOf_iff_suffix] at hsuffix
    obtain ⟨front, rfl⟩ := hsuffix
    have hfront : front ≠ [] := by
      rintro rfl
      exact heq rfl
    obtain ⟨init, b, rfl⟩ := (eq_nil_or_concat front).resolve_left hfront
    rw [concat_eq_append, append_assoc, singleton_append] at h ⊢
    rw [byte_before] at h
    have hb : b = 0x2e := by simpa using h
    exact ⟨init, by rw [hb]⟩
  · rintro ⟨init, rfl⟩
    have hsuffix : parent.isSuffixOf (init ++ 0x2e :: parent) = true := by
      rw [isSuffixOf_iff_suffix]
      exact ⟨init ++ [0x2e], by simp⟩
    rw [hsuffix, byte_before]
    rfl

/-- A subdomain of a subdomain. -/
theorem isDomainOrSubdomain_trans {a b c : Bytes} (hab : isDomainOrSubdomain a b = true)
    (hbc : isDomainOrSubdomain b c = true) : isDomainOrSubdomain a c = true := by
  rw [isDomainOrSubdomain_iff] at hab hbc ⊢
  rcases hab with rfl | hab
  · exact hbc
  · rcases hbc with rfl | hbc
    · exact .inr hab
    · exact .inr (hbc.trans ((suffix_cons _ _).trans hab))

/-! ## The credentials of a chain -/

/-- The header has a value for a key of credentials. -/
def Carries (h : Header) : Prop := ∃ k, isCredential k = true ∧ h.get k ≠ []

/-- The host is that of `initial` or a subdomain of it. -/
def InDomain (lib : UrlLib) (initial url : URL) : Prop :=
  isDomainOrSubdomain (canonicalAddr lib url) (canonicalAddr lib initial) = true

instance decidableInDomain (lib : UrlLib) (initial url : URL) :
    Decidable (InDomain lib initial url) :=
  inferInstanceAs (Decidable (_ = true))

/-- A hop within the domain of another host. -/
def Strays (lib : UrlLib) (initial : URL) (p n : Request) : Prop :=
  ¬ InDomain lib initial p.url ∧ ¬ InDomain lib initial n.url ∧ InDomain lib p.url n.url

/-- The copier puts credentials on a request if the previous request was for the same domain. -/
theorem carries_copyHeaders {lib : UrlLib} {src : Header} {preq dest : URL} :
    Carries (copyHeaders lib src preq dest []) ↔ Carries src ∧ InDomain lib preq dest := by
  constructor
  · rintro ⟨k, hk, hne⟩
    rw [get_copyHeaders] at hne
    split at hne
    · rename_i hcopy
      rw [shouldCopyHeaderOnRedirect, if_pos hk] at hcopy
      exact ⟨⟨k, hk, hne⟩, hcopy⟩
    · exact absurd rfl hne
  · rintro ⟨⟨k, hk, hne⟩, hdomain⟩
    refine ⟨k, hk, ?_⟩
    have hcopy : shouldCopyHeaderOnRedirect lib k preq dest = true := by
      rw [shouldCopyHeaderOnRedirect, if_pos hk]
      exact hdomain
    rw [get_copyHeaders, if_pos hcopy]
    exact hne

variable {req ireq : Request} {s : Copier} {c : Client}

theorem carries_setReferer {last : URL} :
    Carries (setReferer last req).header ↔ Carries req.header := by
  unfold setReferer
  dsimp only
  split
  · refine exists_congr fun k => and_congr_right fun hk => ?_
    have hne : k ≠ ascii "Referer" := by
      rintro rfl
      cases hk
    rw [Header.get_set, if_neg hne]
  · rfl

/-- The copier has the credentials of the initial request. -/
structure Copier.Tracks (s : Copier) (ireq : Request) : Prop where
  carries : Carries s.ireqhdr ↔ Carries ireq.header
  cookies : s.icookies.isSome = true → Carries ireq.header

theorem tracks_makeHeadersCopier (c : Client) (ireq : Request) :
    (c.makeHeadersCopier ireq).Tracks ireq := by
  refine ⟨Iff.rfl, fun hsome => ?_⟩
  unfold Client.makeHeadersCopier at hsome
  split at hsome
  · rename_i hcookie
    refine ⟨ascii "Cookie", by decide, fun hnil => ?_⟩
    rw [hnil] at hcookie
    exact hcookie.2 rfl
  · cases hsome

/-- Taking out cookies leaves a `Cookie` header. -/
theorem Copier.Tracks.dropCookies (h : s.Tracks ireq) (set : List Cookie) :
    (s.dropCookies set).Tracks ireq := by
  unfold Copier.dropCookies
  cases hcookies : s.icookies with
  | none => exact h
  | some cookies =>
    have hcarries := h.cookies (by rw [hcookies]; rfl)
    dsimp only
    split
    · refine ⟨iff_of_true ⟨ascii "Cookie", by decide, ?_⟩ hcarries, fun _ => hcarries⟩
      rw [Header.get_set, if_pos rfl]
      simp
    · exact h

theorem preq_dropCookies (s : Copier) (set : List Cookie) : (s.dropCookies set).preq = s.preq := by
  unfold Copier.dropCookies
  cases s.icookies with
  | none => rfl
  | some cookies =>
    dsimp only
    split <;> rfl

/-- One call of the copier. -/
theorem Copier.Tracks.copy (h : s.Tracks ireq) (hreq : req.header = []) (resp : Response) :
    (Carries (s.copy c req resp).1.header ↔ Carries ireq.header ∧ InDomain c.lib s.preq req.url) ∧
      (s.copy c req resp).2.Tracks ireq := by
  have hstep : (if c.hasJar then s.dropCookies (readSetCookies c.guts resp.header) else s).Tracks
      ireq ∧ (if c.hasJar then s.dropCookies (readSetCookies c.guts resp.header) else s).preq =
        s.preq := by
    split
    · exact ⟨h.dropCookies _, preq_dropCookies s _⟩
    · exact ⟨h, rfl⟩
  unfold Copier.copy
  rw [hreq, carries_copyHeaders, hstep.1.carries, hstep.2]
  exact ⟨Iff.rfl, hstep.1.carries, hstep.1.cookies⟩

/-- A request and the one after it: the credentials follow the previous request. -/
def Linked (c : Client) (ireq p n : Request) : Prop :=
  Carries n.header ↔ Carries ireq.header ∧ InDomain c.lib p.url n.url

theorem linked_stop (c : Client) (ireq : Request) (reqs : List Request) (req : Request) :
    ∃ new, reqs = reqs ++ new ∧ List.IsChain (Linked c ireq) (req :: new) :=
  ⟨[], (append_nil reqs).symm, List.IsChain.singleton req⟩

/-- The requests that the loop adds. -/
theorem linked_doLoop (c : Client) (ireq : Request) (answers : List Answer) (reqs : List Request)
    (hs : s.Tracks ireq) (hpreq : s.preq = req.url) :
    ∃ new, (c.doLoop ireq s reqs req answers).1 = reqs ++ new ∧
      List.IsChain (Linked c ireq) (req :: new) := by
  induction answers generalizing s reqs req with
  | nil => exact linked_stop c ireq reqs req
  | cons answer answers ih =>
    unfold Client.doLoop
    cases answer.resp with
    | none => exact linked_stop c ireq reqs req
    | some resp =>
      dsimp only
      split
      · exact linked_stop c ireq reqs req
      cases c.lib.parse req.url ((resp.header.get (ascii "Location")).headD []) with
      | none => exact linked_stop c ireq reqs req
      | some url =>
        dsimp only
        split
        · exact linked_stop c ireq reqs req
        generalize hnext : nextRequest c.lib ireq req _ _ _ url = next
        have hheader : next.header = [] := by rw [← hnext]; rfl
        have hcopy := hs.copy (c := c) hheader resp
        split
        · exact linked_stop c ireq reqs req
        · exact linked_stop c ireq reqs req
        · have hurl : (s.copy c next resp).2.preq =
              (setReferer req.url (s.copy c next resp).1).url := by
            unfold setReferer
            dsimp only
            split <;> rfl
          have hlink : Linked c ireq req (setReferer req.url (s.copy c next resp).1) := by
            unfold Linked
            rw [carries_setReferer, hcopy.1, hpreq, ← hurl]
            rfl
          obtain ⟨new, heq, hchain⟩ := ih (reqs ++ [_]) hcopy.2 hurl
          refine ⟨setReferer req.url (s.copy c next resp).1 :: new, ?_, hchain.cons_cons hlink⟩
          rw [heq, append_assoc]
          rfl

/-- A chain of linked requests isolates the credentials exactly if no hop strays. -/
theorem isolated_iff_of_linked {p : Request} {new : List Request} (hcarries : Carries ireq.header)
    (hchain : List.IsChain (Linked c ireq) (p :: new)) :
    (∀ r ∈ new, Carries r.header → InDomain c.lib ireq.url r.url) ↔
      List.IsChain (fun p n => ¬ Strays c.lib ireq.url p n) (p :: new) := by
  induction new generalizing p with
  | nil => simp
  | cons n new ih =>
    rw [isChain_cons_cons] at hchain ⊢
    rw [forall_mem_cons, ih hchain.2]
    refine and_congr_left fun _ => ?_
    have hlink : Carries n.header ↔ InDomain c.lib p.url n.url :=
      Iff.trans hchain.1 (and_iff_right hcarries)
    rw [hlink]
    constructor
    · rintro h ⟨_, hout, hin⟩
      exact hout (h hin)
    · intro hstay hin
      by_contra hout
      by_cases hp : InDomain c.lib ireq.url p.url
      · exact hout (isDomainOrSubdomain_trans hin hp)
      · exact hstay ⟨hp, hout, hin⟩

/-- The redirect code keeps the credentials of the initial request within its domain exactly if
there are none or no hop of the chain stays in the domain of another host: the copier compares a
request with the previous one, and not with the initial one. -/
theorem credentials_isolated_iff (c : Client) (ireq : Request) (answers : List Answer) :
    (∀ r ∈ (c.do ireq answers).1.tail, Carries r.header → InDomain c.lib ireq.url r.url) ↔
      ¬ Carries ireq.header ∨
        List.IsChain (fun p n => ¬ Strays c.lib ireq.url p n) (c.do ireq answers).1 := by
  obtain ⟨new, heq, hchain⟩ := linked_doLoop c ireq answers [ireq]
    (tracks_makeHeadersCopier c ireq) rfl
  have hdo : (c.do ireq answers).1 = ireq :: new := heq
  rw [hdo, tail_cons]
  by_cases hcarries : Carries ireq.header
  · rw [isolated_iff_of_linked hcarries hchain]
    simp [hcarries]
  refine iff_of_true (fun r hr hr' => ?_) (Or.inl hcarries)
  have hnone : ∀ p, List.IsChain (Linked c ireq) (p :: new) → ∀ r ∈ new, ¬ Carries r.header := by
    clear heq hchain hdo hr
    induction new with
    | nil => simp
    | cons n new ih =>
      intro p hchain
      rw [isChain_cons_cons] at hchain
      refine forall_mem_cons.mpr ⟨fun hn => hcarries (hchain.1.mp hn).1, ih n hchain.2⟩
  exact absurd hr' (hnone ireq hchain r hr)

/-- The URLs of the form `http://host/path`. -/
def plainLib : UrlLib where
  parse _ loc := some
    { scheme := ascii "http", host := (loc.drop 7).takeWhile (· != 0x2f), text := loc }
  relative _ := false
  toASCII _ := none

/-- A redirect to a location. -/
def redirectTo (loc : String) : Answer where
  resp := some { statusCode := 302, header := [(ascii "Location", [ascii loc])] }

/-- The chain from `a.com` to `b.com` and on to `b.com`. -/
def wanderingChain : List Request :=
  (Client.do { guts := .tables, lib := plainLib }
    { method := ascii "GET"
      url := { scheme := ascii "http", host := ascii "a.com", text := ascii "http://a.com/" }
      header := [(ascii "Authorization", [ascii "secret"])] }
    [redirectTo "http://b.com/", redirectTo "http://b.com/login"]).1

/-- The second request to the other host has the credentials that the first one lacks. -/
theorem credentials_at_other_host :
    wanderingChain.map (fun r => (r.url.host, r.header.get (ascii "Authorization"))) =
      [(ascii "a.com", [ascii "secret"]), (ascii "b.com", []), (ascii "b.com", [ascii "secret"])] ∧
    ¬ InDomain plainLib { scheme := ascii "http", host := ascii "a.com" }
      { scheme := ascii "http", host := ascii "b.com" } := by
  decide

end Fhttp.Http.Redirect
