import VyosClient.ImageReference

/-!
The requests of the VyOS client. Each carries the API key in its body, and an
`http.Client` follows redirects: it sends the body again after 307 and 308 and
drops it for good after 301, 302 and 303. The servers choose every answer after
all that was sent before. Where the key can get to follows from the check that
each redirect has to pass.
-/

namespace VyosClient.RedirectPolicy

open ImageReference

def https : Text := "https".toList

structure URL where
  scheme : Text
  host : Text
  path : Text
  rawQuery : Text
deriving DecidableEq, Repr

/-- The fields of the multipart body. -/
structure Form where
  data : Text
  key : Text
deriving DecidableEq, Repr

inductive Method
  | get
  | head
  | post
deriving DecidableEq, Repr

structure Request where
  method : Method
  url : URL
  body : Option Form
deriving DecidableEq, Repr

/-- The body is `none` when reading it fails. -/
structure Response where
  status : ℕ
  location : Text
  body : Option (List UInt8)
deriving DecidableEq, Repr

inductive Outcome
  | failed
  | response (resp : Response)
deriving DecidableEq, Repr

structure Exchange where
  request : Request
  outcome : Outcome
deriving DecidableEq, Repr

structure Envelope where
  success : Bool
  data : Text
  error : Text
deriving DecidableEq, Repr

inductive ClientError
  | buildingRequest
  | calling
  | badLocation
  | tooManyRedirects
  | differentHost
  | downgrade
  | reading
  | tooLong
  | malformed (statusCode : ℕ)
  | api (statusCode : ℕ) (message : Text)
  | decodingData
deriving DecidableEq, Repr

/-- A client with its settings, what `net/url` and `encoding/json` compute, a representative of each
class of letters under simple case folding, and the servers. -/
structure Client where
  baseURL : Text
  apiKey : Text
  parse : Text → Option URL
  resolve : URL → Text → Option URL
  decode : List UInt8 → Option Envelope
  fold : Char → Char
  peer : List Exchange → Request → Outcome

def maxRedirects : ℕ := 10

def maxResponseBodyBytes : ℕ := 67108864

/-- An optional port: nothing, or a colon and digits. -/
def validOptionalPort : Text → Bool
  | [] => true
  | c :: digits => c == ':' && digits.all Char.isDigit

/-- `Hostname`: the host of a URL without port and brackets. -/
def URL.hostname (u : URL) : Text :=
  let host :=
    match u.host.reverse.idxOf? ':' with
    | none => u.host
    | some i =>
        let colon := u.host.length - 1 - i
        if validOptionalPort (u.host.drop colon) then u.host.take colon else u.host
  if "[".toList.isPrefixOf host ∧ "]".toList.isSuffixOf host then (host.drop 1).dropLast else host

/-- What a status says about the next request: its method, and whether the body is sent again. -/
def redirectBehavior (method : Method) (status : ℕ) : Option (Method × Bool) :=
  if status = 301 ∨ status = 302 ∨ status = 303 then
    some (if method = .get ∨ method = .head then method else .get, false)
  else if status = 307 ∨ status = 308 then some (method, true)
  else none

namespace Client

variable (c : Client)

/-- `strings.EqualFold` -/
def equalFold (s t : Text) : Bool := s.map c.fold == t.map c.fold

/-- What is wrong with the next request, after the requests sent so far. -/
def refuseUnsafeRedirect (req : Request) (via : List Exchange) : Option ClientError :=
  if maxRedirects ≤ via.length then some .tooManyRedirects
  else
    match via with
    | [] => none
    | first :: _ =>
        if ¬ c.equalFold req.url.hostname first.request.url.hostname then some .differentHost
        else if first.request.url.scheme = https ∧ req.url.scheme ≠ https then some .downgrade
        else none

variable {c} in
theorem length_lt_of_allowed {req : Request} {via : List Exchange}
    (h : c.refuseUnsafeRedirect req via = none) : via.length < maxRedirects := by
  by_contra hle
  unfold refuseUnsafeRedirect at h
  rw [if_pos (Nat.le_of_not_lt hle)] at h
  cases h

/-- `http.Client.Do`: a request after those sent so far, and the redirects after it. -/
def follow (via : List Exchange) (req : Request) : Except ClientError Response × List Exchange :=
  let sent := via ++ [⟨req, c.peer via req⟩]
  match c.peer via req with
  | .failed => (.error .calling, sent)
  | .response resp =>
      match redirectBehavior req.method resp.status with
      | none => (.ok resp, sent)
      | some (method, includeBody) =>
          if resp.location = [] then (.ok resp, sent)
          else
            match c.resolve req.url resp.location with
            | none => (.error .badLocation, sent)
            | some url =>
                let next : Request := ⟨method, url, if includeBody then req.body else none⟩
                match _h : c.refuseUnsafeRedirect next sent with
                | some e => (.error e, sent)
                | none => follow sent next
termination_by maxRedirects - via.length
decreasing_by
  have hlt := length_lt_of_allowed _h
  simp only [sent, List.length_append, List.length_singleton] at hlt ⊢
  omega

/-- The body of the answer, unless it cannot be read or is too long. -/
def readBody (resp : Response) : Except ClientError (List UInt8) :=
  match resp.body with
  | none => .error .reading
  | some body => if maxResponseBodyBytes < body.length then .error .tooLong else .ok body

/-- What the caller's `out` holds after a successful answer. Decoding the data into it can fail, is
skipped where there is no data, and is not tried where the caller wants none. -/
def decodeEnvelope {α : Type*} (unmarshal : Text → α → Option α) (body : List UInt8)
    (statusCode : ℕ) (out : Option α) : Except ClientError (Option α) :=
  match c.decode body with
  | none => .error (.malformed statusCode)
  | some env =>
      if env.success then
        match out with
        | none => .ok none
        | some v =>
            if env.data = [] then .ok (some v)
            else
              match unmarshal env.data v with
              | none => .error .decodingData
              | some v' => .ok (some v')
      else .error (.api statusCode (if env.error = [] then "unknown error".toList else env.error))

/-- The first request of a call. -/
def firstRequest (base : URL) (data : Text) : Request := ⟨.post, base, some ⟨data, c.apiKey⟩⟩

/-- A call of an endpoint, with all the requests it sends. -/
def doWithClient {α : Type*} (unmarshal : Text → α → Option α) (endpoint data : Text)
    (out : Option α) : Except ClientError (Option α) × List Exchange :=
  match c.parse (c.baseURL ++ endpoint) with
  | none => (.error .buildingRequest, [])
  | some base =>
      let (result, trace) := c.follow [] (c.firstRequest base data)
      match result with
      | .error e => (.error e, trace)
      | .ok resp =>
          match readBody resp with
          | .error e => (.error e, trace)
          | .ok body => (c.decodeEnvelope unmarshal body resp.status out, trace)

end Client

open Client

/-- A request that the check lets follow a first one. -/
structure Safe (c : Client) (first req : Request) : Prop where
  host : c.equalFold req.url.hostname first.url.hostname = true
  scheme : first.url.scheme = https → req.url.scheme = https

/-- Either the body of the first request is sent again, or nothing. -/
def Carries (first req : Request) : Prop :=
  req.body = none ∧ req.method = .get ∨ req.body = first.body ∧ req.method = first.method

section Policy

variable {c : Client} {first req : Request} {via : List Exchange}

theorem safe_self (c : Client) (req : Request) : Safe c req req where
  host := beq_self_eq_true _
  scheme := id

theorem carries_self (req : Request) : Carries req req := Or.inr ⟨rfl, rfl⟩

/-- What the check asks for after the first request. -/
theorem allowed_iff {e : Exchange} {es : List Exchange} :
    c.refuseUnsafeRedirect req (e :: es) = none ↔
      (e :: es).length < maxRedirects ∧ Safe c e.request req := by
  unfold refuseUnsafeRedirect
  by_cases hlen : maxRedirects ≤ (e :: es).length
  · rw [if_pos hlen]
    exact iff_of_false (by simp) fun h => absurd h.1 (Nat.not_lt.mpr hlen)
  rw [if_neg hlen]
  dsimp only
  by_cases hhost : c.equalFold req.url.hostname e.request.url.hostname = true
  · simp only [hhost, not_true_eq_false, ↓reduceIte]
    by_cases hscheme : e.request.url.scheme = https ∧ req.url.scheme ≠ https
    · rw [if_pos hscheme]
      exact iff_of_false (by simp) fun h => hscheme.2 (h.2.scheme hscheme.1)
    · rw [if_neg hscheme]
      refine iff_of_true rfl ⟨Nat.lt_of_not_le hlen, hhost, fun hfirst => ?_⟩
      by_contra hne
      exact hscheme ⟨hfirst, hne⟩
  · rw [if_pos hhost]
    exact iff_of_false (by simp) fun h => hhost h.2.host

/-- A redirect keeps the method with the body, and else asks for the target only. -/
theorem carries_next {method : Method} {includeBody : Bool} {status : ℕ}
    (hpost : first.method = .post) (h : Carries first req)
    (hredirect : redirectBehavior req.method status = some (method, includeBody)) (url : URL) :
    Carries first ⟨method, url, if includeBody then req.body else none⟩ := by
  unfold redirectBehavior at hredirect
  split_ifs at hredirect with hdrop hget hkeep
  · cases hredirect
    rcases h with ⟨-, hmethod⟩ | ⟨-, hmethod⟩
    · exact Or.inl ⟨rfl, hmethod⟩
    · rw [hmethod, hpost] at hget
      simp at hget
  · cases hredirect
    exact Or.inl ⟨rfl, rfl⟩
  · cases hredirect
    exact h

end Policy

section Following

variable {c : Client} {first : Request} {α : Type*} {unmarshal : Text → α → Option α}
  {out result : Option α}

/-- What holds of every request of a run that starts with `first`. -/
structure Confined (c : Client) (first req : Request) : Prop extends Safe c first req where
  carries : Carries first req

/-- The requests sent so far, all of them confined, the first one at their head. -/
structure Begun (c : Client) (first : Request) (via : List Exchange) (req : Request) : Prop where
  head : via.head?.elim req Exchange.request = first
  sent : ∀ e ∈ via, Confined c first e.request
  next : Confined c first req
  short : via.length < maxRedirects

section Hops

variable {via : List Exchange} {req : Request} {outcome : Outcome}

theorem Begun.sent_all (h : Begun c first via req) :
    ∀ e ∈ via ++ [⟨req, outcome⟩], Confined c first e.request := by
  intro e he
  rcases List.mem_append.mp he with hmem | hmem
  · exact h.sent e hmem
  · rw [List.mem_singleton.mp hmem]
    exact h.next

theorem Begun.exists_cons (h : Begun c first via req) (outcome : Outcome) :
    ∃ e es, via ++ [⟨req, outcome⟩] = e :: es ∧ e.request = first := by
  have hhead := h.head
  cases via with
  | nil => exact ⟨_, _, rfl, hhead⟩
  | cons e es => exact ⟨_, _, rfl, hhead⟩

/-- The check of the next request compares it with the first one. -/
theorem Begun.allowed_iff (h : Begun c first via req) {next : Request} :
    c.refuseUnsafeRedirect next (via ++ [⟨req, outcome⟩]) = none ↔
      via.length + 1 < maxRedirects ∧ Safe c first next := by
  obtain ⟨e, es, hcons, hfirst⟩ := h.exists_cons outcome
  have hlen := congrArg List.length hcons
  rw [List.length_append, List.length_singleton] at hlen
  rw [hcons, RedirectPolicy.allowed_iff, hfirst, hlen]

theorem Begun.hop (h : Begun c first via req) (hpost : first.method = .post) {method : Method}
    {includeBody : Bool} {status : ℕ} {url : URL}
    (hredirect : redirectBehavior req.method status = some (method, includeBody))
    (hallowed : c.refuseUnsafeRedirect ⟨method, url, if includeBody then req.body else none⟩
      (via ++ [⟨req, outcome⟩]) = none) :
    Begun c first (via ++ [⟨req, outcome⟩])
      ⟨method, url, if includeBody then req.body else none⟩ := by
  obtain ⟨hshort, hsafe⟩ := h.allowed_iff.mp hallowed
  obtain ⟨e, es, hcons, hfirst⟩ := h.exists_cons outcome
  refine ⟨?_, h.sent_all, ⟨hsafe, carries_next hpost h.next.carries hredirect url⟩, ?_⟩
  · rw [hcons]
    exact hfirst
  · rw [List.length_append, List.length_singleton]
    exact hshort

end Hops

/-- All that is sent stays confined, and there is little of it. -/
theorem follow_confined (hpost : first.method = .post) (via : List Exchange) (req : Request)
    (h : Begun c first via req) :
    (c.follow via req).2.length ≤ maxRedirects ∧
      ∀ e ∈ (c.follow via req).2, Confined c first e.request := by
  have hsent : ∀ (via : List Exchange) (req : Request) (outcome : Outcome),
      Begun c first via req → (via ++ [Exchange.mk req outcome]).length ≤ maxRedirects ∧
        ∀ e ∈ via ++ [Exchange.mk req outcome], Confined c first e.request := by
    intro via req outcome h
    refine ⟨?_, h.sent_all⟩
    rw [List.length_append, List.length_singleton]
    exact h.short
  fun_induction c.follow via req with
  | case1 => exact hsent _ _ _ h
  | case2 => exact hsent _ _ _ h
  | case3 => exact hsent _ _ _ h
  | case4 => exact hsent _ _ _ h
  | case5 => exact hsent _ _ _ h
  | case6 via req sent resp hpeer method includeBody hredirect hlocation url hresolve next hallowed
      ih => exact ih (h.hop hpost hredirect hallowed)

/-- What the servers offer a client that follows every redirect: the answer at its end, and the
requests up to there. -/
inductive Offered (c : Client) : List Exchange → Request → Response → List Exchange → Prop
  | last {via : List Exchange} {req : Request} {resp : Response}
      (hpeer : c.peer via req = .response resp)
      (hlast : redirectBehavior req.method resp.status = none ∨ resp.location = []) :
      Offered c via req resp (via ++ [⟨req, .response resp⟩])
  | hop {via trace : List Exchange} {req : Request} {resp resp' : Response} {method : Method}
      {includeBody : Bool} {url : URL} (hpeer : c.peer via req = .response resp)
      (hredirect : redirectBehavior req.method resp.status = some (method, includeBody))
      (hlocation : resp.location ≠ []) (hresolve : c.resolve req.url resp.location = some url)
      (hrest : Offered c (via ++ [⟨req, .response resp⟩])
        ⟨method, url, if includeBody then req.body else none⟩ resp' trace) :
      Offered c via req resp' trace

theorem Offered.sent {via trace : List Exchange} {req : Request} {resp : Response}
    (h : Offered c via req resp trace) : ∃ outcome rest, trace = via ++ ⟨req, outcome⟩ :: rest := by
  induction h with
  | last hpeer hlast => exact ⟨_, [], rfl⟩
  | hop hpeer hredirect hlocation hresolve hrest ih =>
    obtain ⟨outcome, rest, rfl⟩ := ih
    exact ⟨_, _, List.append_assoc _ _ _⟩

theorem follow_of_offered (hpost : first.method = .post) {via trace : List Exchange}
    {req : Request} {resp : Response} (h : Begun c first via req)
    (hoffered : Offered c via req resp trace) (hlen : trace.length ≤ maxRedirects)
    (hsafe : ∀ e ∈ trace, Safe c first e.request) : c.follow via req = (.ok resp, trace) := by
  induction hoffered with
  | @last via req resp hpeer hlast =>
    rw [follow, hpeer]
    dsimp only
    cases hredirect : redirectBehavior req.method resp.status with
    | none => rfl
    | some next =>
      have hlocation : resp.location = [] :=
        hlast.resolve_left (by rw [hredirect]; exact Option.some_ne_none next)
      simp only [hlocation, ↓reduceIte]
  | @hop via trace req resp resp' method includeBody url hpeer hredirect hlocation hresolve hrest
      ih =>
    obtain ⟨outcome, rest, htrace⟩ := hrest.sent
    have hshort : via.length + 1 < maxRedirects := by
      rw [htrace] at hlen
      simp only [List.length_append, List.length_cons, List.length_nil] at hlen
      omega
    have hnext := hsafe _ (htrace ▸ List.mem_append_right _ List.mem_cons_self)
    have hallowed : c.refuseUnsafeRedirect ⟨method, url, if includeBody then req.body else none⟩
        (via ++ [⟨req, .response resp⟩]) = none := h.allowed_iff.mpr ⟨hshort, hnext⟩
    rw [follow, hpeer]
    simp only [hredirect, hlocation, ↓reduceIte, hresolve]
    split
    · rename_i e hrefused
      rw [hallowed] at hrefused
      cases hrefused
    · exact ih (h.hop hpost hredirect hallowed) hlen hsafe

/-- A run that ends with an answer took what the servers offered, all the way. -/
theorem offered_of_follow {via trace : List Exchange} {req : Request} {resp : Response}
    (h : c.follow via req = (.ok resp, trace)) : Offered c via req resp trace := by
  fun_induction c.follow via req with
  | case1 => cases h
  | case2 via req sent resp' hpeer hredirect =>
    obtain ⟨hresp, htrace⟩ := Prod.mk.inj h
    rw [← Except.ok.inj hresp, ← htrace]
    have hlast := Offered.last hpeer (Or.inl hredirect)
    rwa [← hpeer] at hlast
  | case3 via req sent resp' hpeer method includeBody hredirect hlocation =>
    obtain ⟨hresp, htrace⟩ := Prod.mk.inj h
    rw [← Except.ok.inj hresp, ← htrace]
    have hlast := Offered.last hpeer (Or.inr hlocation)
    rwa [← hpeer] at hlast
  | case4 => cases h
  | case5 => cases h
  | case6 via req sent resp' hpeer method includeBody hredirect hlocation url hresolve next hallowed
      ih =>
    refine .hop hpeer hredirect hlocation hresolve ?_
    rw [← hpeer]
    exact ih h

theorem begun_firstRequest (base : URL) (data : Text) :
    Begun c (c.firstRequest base data) [] (c.firstRequest base data) where
  head := rfl
  sent e he := absurd he List.not_mem_nil
  next := ⟨safe_self c _, carries_self _⟩
  short := by decide

theorem follow_eq_ok_iff {base : URL} {data : Text} {resp : Response} {trace : List Exchange} :
    c.follow [] (c.firstRequest base data) = (.ok resp, trace) ↔
      Offered c [] (c.firstRequest base data) resp trace ∧ trace.length ≤ maxRedirects ∧
        ∀ e ∈ trace, Safe c (c.firstRequest base data) e.request := by
  have hbegun := begun_firstRequest (c := c) base data
  constructor
  · intro h
    obtain ⟨hlen, hconfined⟩ := follow_confined rfl [] _ hbegun
    rw [h] at hlen hconfined
    exact ⟨offered_of_follow h, hlen, fun e he => (hconfined e he).toSafe⟩
  · rintro ⟨hoffered, hlen, hsafe⟩
    exact follow_of_offered rfl hbegun hoffered hlen hsafe

theorem trace_doWithClient {endpoint data : Text} {base : URL}
    (hbase : c.parse (c.baseURL ++ endpoint) = some base) :
    (c.doWithClient unmarshal endpoint data out).2 = (c.follow [] (c.firstRequest base data)).2 := by
  unfold doWithClient
  rw [hbase]
  dsimp only
  cases (c.follow [] (c.firstRequest base data)).1 with
  | error e => rfl
  | ok resp => cases hread : readBody resp <;> simp only [hread]

/-- Whatever the servers answer, and whatever comes of a call: it sends ten requests at most, all of
them to the host of the first one and none over http after one over https, and each either repeats
the call with its key or asks for its target with no body at all. -/
theorem key_confined (c : Client) (unmarshal : Text → α → Option α) (endpoint data : Text)
    (out : Option α) :
    (c.doWithClient unmarshal endpoint data out).2.length ≤ maxRedirects ∧
      ∀ base, c.parse (c.baseURL ++ endpoint) = some base →
        ∀ e ∈ (c.doWithClient unmarshal endpoint data out).2,
          Safe c (c.firstRequest base data) e.request ∧
            (e.request.body = none ∧ e.request.method = .get ∨
              e.request.body = some ⟨data, c.apiKey⟩ ∧ e.request.method = .post) := by
  cases hbase : c.parse (c.baseURL ++ endpoint) with
  | none =>
    unfold doWithClient
    rw [hbase]
    exact ⟨Nat.zero_le _, fun base h => by cases h⟩
  | some base =>
    obtain ⟨hlen, hconfined⟩ := follow_confined rfl [] _ (begun_firstRequest (c := c) base data)
    rw [trace_doWithClient hbase]
    refine ⟨hlen, fun base' h e he => ?_⟩
    cases h
    exact ⟨(hconfined e he).toSafe, (hconfined e he).carries⟩

/-- What a caller gets from the data of an envelope. -/
inductive Decoded (unmarshal : Text → α → Option α) (data : Text) : Option α → Option α → Prop
  | unwanted : Decoded unmarshal data none none
  | absent (v : α) (hdata : data = []) : Decoded unmarshal data (some v) (some v)
  | decoded {v v' : α} (hdata : data ≠ []) (hv : unmarshal data v = some v') :
      Decoded unmarshal data (some v) (some v')

theorem decodeEnvelope_eq_ok_iff {body : List UInt8} {statusCode : ℕ} :
    c.decodeEnvelope unmarshal body statusCode out = .ok result ↔
      ∃ env, c.decode body = some env ∧ env.success = true ∧
        Decoded unmarshal env.data out result := by
  unfold decodeEnvelope
  constructor
  · intro h
    split at h
    · cases h
    rename_i env henv
    split at h
    · rename_i hsuccess
      refine ⟨env, henv, hsuccess, ?_⟩
      cases out with
      | none =>
        cases h
        exact .unwanted
      | some v =>
        dsimp only at h
        by_cases hdata : env.data = []
        · rw [if_pos hdata] at h
          cases h
          exact .absent v hdata
        rw [if_neg hdata] at h
        cases hv : unmarshal env.data v with
        | none =>
          rw [hv] at h
          cases h
        | some v' =>
          rw [hv] at h
          cases h
          exact .decoded hdata hv
    · cases h
  · rintro ⟨env, henv, hsuccess, hdecoded⟩
    simp only [henv, hsuccess, ↓reduceIte]
    cases hdecoded with
    | unwanted => rfl
    | absent v hdata => simp only [hdata, ↓reduceIte]
    | decoded hdata hv => simp only [hdata, ↓reduceIte, hv]

theorem readBody_eq_ok_iff {resp : Response} {body : List UInt8} :
    readBody resp = .ok body ↔ resp.body = some body ∧ body.length ≤ maxResponseBodyBytes := by
  unfold readBody
  cases resp.body with
  | none => exact iff_of_false (fun h => nomatch h) fun h => nomatch h.1
  | some text =>
    dsimp only
    split_ifs with hlong
    · refine iff_of_false (fun h => nomatch h) fun h => ?_
      rw [Option.some.inj h.1] at hlong
      exact absurd h.2 (Nat.not_le.mpr hlong)
    · refine ⟨fun h => ?_, fun h => congrArg _ (Option.some.inj h.1)⟩
      cases h
      exact ⟨rfl, Nat.le_of_not_lt hlong⟩

theorem doWithClient_eq_ok_iff {endpoint data : Text} {base : URL}
    (hbase : c.parse (c.baseURL ++ endpoint) = some base) :
    (c.doWithClient unmarshal endpoint data out).1 = .ok result ↔
      ∃ resp trace body, c.follow [] (c.firstRequest base data) = (.ok resp, trace) ∧
        readBody resp = .ok body ∧
        c.decodeEnvelope unmarshal body resp.status out = .ok result := by
  unfold doWithClient
  rw [hbase]
  dsimp only
  generalize c.follow [] (c.firstRequest base data) = run
  obtain ⟨answer, trace⟩ := run
  cases answer with
  | error e => exact iff_of_false (fun h => nomatch h) fun ⟨_, _, _, h, _⟩ => nomatch h
  | ok resp =>
    dsimp only
    cases hbody : readBody resp with
    | error e =>
      refine iff_of_false (fun h => nomatch h) ?_
      rintro ⟨resp', trace', body, hrun, hread, -⟩
      cases hrun
      rw [hbody] at hread
      cases hread
    | ok body =>
      refine ⟨fun h => ⟨resp, trace, body, rfl, hbody, h⟩, ?_⟩
      rintro ⟨resp', trace', body', hrun, hread, henv⟩
      cases hrun
      rw [hbody] at hread
      cases hread
      exact henv

/-- A call succeeds exactly when the chain of redirects that the servers offer stays on the host,
keeps to https and ends within ten requests, with an answer that can be read, reports success and
holds no data that the caller wants and cannot take. -/
theorem call_succeeds_iff (c : Client) (unmarshal : Text → α → Option α) (endpoint data : Text)
    (out result : Option α) :
    (c.doWithClient unmarshal endpoint data out).1 = .ok result ↔
      ∃ base resp trace body env, c.parse (c.baseURL ++ endpoint) = some base ∧
        Offered c [] (c.firstRequest base data) resp trace ∧ trace.length ≤ maxRedirects ∧
        (∀ e ∈ trace, Safe c (c.firstRequest base data) e.request) ∧ resp.body = some body ∧
        body.length ≤ maxResponseBodyBytes ∧ c.decode body = some env ∧ env.success = true ∧
        Decoded unmarshal env.data out result := by
  cases hbase : c.parse (c.baseURL ++ endpoint) with
  | none =>
    unfold doWithClient
    rw [hbase]
    simp
  | some base =>
    rw [doWithClient_eq_ok_iff hbase]
    constructor
    · rintro ⟨resp, trace, body, hfollow, hbody, henv⟩
      obtain ⟨hoffered, hlen, hsafe⟩ := follow_eq_ok_iff.mp hfollow
      obtain ⟨hbody, hshort⟩ := readBody_eq_ok_iff.mp hbody
      obtain ⟨env, henv⟩ := decodeEnvelope_eq_ok_iff.mp henv
      exact ⟨base, resp, trace, body, env, rfl, hoffered, hlen, hsafe, hbody, hshort, henv⟩
    · rintro ⟨base', resp, trace, body, env, hparse, hoffered, hlen, hsafe, hbody, hshort, henv⟩
      cases hparse
      exact ⟨resp, trace, body, follow_eq_ok_iff.mpr ⟨hoffered, hlen, hsafe⟩,
        readBody_eq_ok_iff.mpr ⟨hbody, hshort⟩, decodeEnvelope_eq_ok_iff.mpr ⟨env, henv⟩⟩

end Following

end VyosClient.RedirectPolicy
