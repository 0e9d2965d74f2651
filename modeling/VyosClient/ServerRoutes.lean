import VyosClient.RollingWindow
import VyosClient.Runs
import VyosClient.UsableSession

/-!
The routes of the backend and what stands before their handlers: the session of
the request, its CSRF token and, for what commits, a limit for each user. The
requests of all clients interleave in any order, and the process may restart
with the same secret. What the server has answered and which handlers it has run
are kept beside its state.
-/

namespace VyosClient.ServerRoutes

open RollingWindow RollingWindow.RequestLimiter Runs SessionRenewal SessionRenewal.SessionManager
open UsableSession

inductive Handler
  | login | healthz | systemInfo | logout | sessionInfo
  | getConfigTree | getSetCommands | reveal
  | commit | commitConfirm | save | rollback | importConfig
  | systemResources | reboot | poweroff
  | systemImages | addSystemImage | deleteSystemImage | selfUpgradeStatus
  | interfaces | routes | dhcpLeases | logs
  | containerImages | pullContainerImage | deleteContainerImage | checkContainerImageUpdate
  | fileBrowserRoots | files
  | wanLoadBalanceStatus | haproxyStatus | vrrpStatus | conntrackSyncStatus | qosShaperStatus
  | pkiExpiry
deriving DecidableEq, Repr

/-- The handlers that change the router, its images or the cookies of a session. -/
def Handler.changes : Handler → Bool
  | .logout | .commit | .commitConfirm | .save | .rollback | .importConfig => true
  | .reboot | .poweroff => true
  | .addSystemImage | .deleteSystemImage | .pullContainerImage | .deleteContainerImage => true
  | _ => false

inductive Guard
  | anyone
  | authed
  | rateLimited
deriving DecidableEq, Repr

structure Route where
  method : String
  path : List String
  guard : Guard
  handler : Handler
deriving DecidableEq, Repr

/-- `Routes`: the segments of each pattern after its first slash. -/
def routes : List Route :=
  [⟨"POST", ["api", "auth", "login"], .anyone, .login⟩,
    ⟨"GET", ["healthz"], .anyone, .healthz⟩,
    ⟨"GET", ["api", "system", "info"], .anyone, .systemInfo⟩,
    ⟨"POST", ["api", "auth", "logout"], .authed, .logout⟩,
    ⟨"GET", ["api", "auth", "session"], .authed, .sessionInfo⟩,
    ⟨"GET", ["api", "config", "tree"], .authed, .getConfigTree⟩,
    ⟨"GET", ["api", "config", "set-commands"], .authed, .getSetCommands⟩,
    ⟨"POST", ["api", "config", "reveal"], .authed, .reveal⟩,
    ⟨"POST", ["api", "config", "commit"], .rateLimited, .commit⟩,
    ⟨"POST", ["api", "config", "commit", "confirm"], .rateLimited, .commitConfirm⟩,
    ⟨"POST", ["api", "config", "save"], .authed, .save⟩,
    ⟨"POST", ["api", "config", "rollback"], .rateLimited, .rollback⟩,
    ⟨"POST", ["api", "config", "import"], .rateLimited, .importConfig⟩,
    ⟨"GET", ["api", "system", "resources"], .authed, .systemResources⟩,
    ⟨"POST", ["api", "system", "reboot"], .authed, .reboot⟩,
    ⟨"POST", ["api", "system", "poweroff"], .authed, .poweroff⟩,
    ⟨"GET", ["api", "system", "images"], .authed, .systemImages⟩,
    ⟨"POST", ["api", "system", "images"], .authed, .addSystemImage⟩,
    ⟨"DELETE", ["api", "system", "images"], .authed, .deleteSystemImage⟩,
    ⟨"GET", ["api", "system", "self-upgrade"], .authed, .selfUpgradeStatus⟩,
    ⟨"GET", ["api", "interfaces"], .authed, .interfaces⟩,
    ⟨"GET", ["api", "routes"], .authed, .routes⟩,
    ⟨"GET", ["api", "dhcp", "leases"], .authed, .dhcpLeases⟩,
    ⟨"GET", ["api", "logs"], .authed, .logs⟩,
    ⟨"GET", ["api", "container", "images"], .authed, .containerImages⟩,
    ⟨"POST", ["api", "container", "images"], .authed, .pullContainerImage⟩,
    ⟨"DELETE", ["api", "container", "images"], .authed, .deleteContainerImage⟩,
    ⟨"POST", ["api", "container", "images", "check-update"], .authed, .checkContainerImageUpdate⟩,
    ⟨"GET", ["api", "files", "roots"], .authed, .fileBrowserRoots⟩,
    ⟨"GET", ["api", "files"], .authed, .files⟩,
    ⟨"GET", ["api", "load-balancing", "wan", "status"], .authed, .wanLoadBalanceStatus⟩,
    ⟨"GET", ["api", "load-balancing", "haproxy", "status"], .authed, .haproxyStatus⟩,
    ⟨"GET", ["api", "high-availability", "vrrp", "status"], .authed, .vrrpStatus⟩,
    ⟨"GET", ["api", "high-availability", "conntrack-sync", "status"], .authed,
      .conntrackSyncStatus⟩,
    ⟨"GET", ["api", "qos", "shaper-status"], .authed, .qosShaperStatus⟩,
    ⟨"GET", ["api", "pki", "expiry"], .authed, .pkiExpiry⟩]

/-- A pattern of `GET` takes `HEAD` as well. -/
def Route.Matches (route : Route) (method : String) (path : List String) : Prop :=
  route.path = path ∧ (route.method = method ∨ route.method = "GET" ∧ method = "HEAD")

instance (route : Route) (method : String) (path : List String) :
    Decidable (route.Matches method path) := inferInstanceAs (Decidable (_ ∧ _))

/-- The parts of a request that count before its handler. The path is in its unescaped segments, and
a header that is missing is the empty one. `credentials` is the body of a login, none when it is
malformed. -/
structure Request where
  method : String
  path : List String
  session : Option (List UInt8)
  csrfCookie : Option String
  csrfHeader : String
  credentials : Option (String × String)
deriving DecidableEq, Repr

structure Refusal where
  status : ℕ
  body : String
deriving DecidableEq, Repr

/-- `http.ServeMux` on the table above. -/
def serveMux (method : String) (path : List String) : Except Refusal Route :=
  match routes.find? (·.Matches method path) with
  | some route => .ok route
  | none =>
    if routes.any (·.path = path) then .error ⟨405, "Method Not Allowed\n"⟩
    else .error ⟨404, "404 page not found\n"⟩

/-- The session cookie that goes along with the answer, and the user. -/
def requireSession (m : SessionManager) (r : Request) (now : ℤ) :
    Except Refusal (List UInt8 × String) :=
  match r.session with
  | none => .error ⟨401, "\x7b\"error\":\"not authenticated\"\x7d"⟩
  | some cookie =>
    match m.renew cookie now with
    | .error _ => .error ⟨401, "\x7b\"error\":\"not authenticated\"\x7d"⟩
    | .ok (newToken, _, user) => .ok (newToken, user)

/-- The methods that need no token. -/
def safeMethods : List String := ["GET", "HEAD", "OPTIONS"]

def requireCSRF (r : Request) : Except Refusal Unit :=
  if r.method ∈ safeMethods then .ok ()
  else
    match r.csrfCookie with
    | none => .error ⟨403, "\x7b\"error\":\"missing csrf token\"\x7d"⟩
    | some cookie =>
      if cookie = "" then .error ⟨403, "\x7b\"error\":\"missing csrf token\"\x7d"⟩
      else if r.csrfHeader = "" ∨ r.csrfHeader ≠ cookie then
        .error ⟨403, "\x7b\"error\":\"invalid csrf token\"\x7d"⟩
      else .ok ()

/-- What the login limiter, the wait for a slot and the verifier make of a login. -/
inductive Verdict
  | blocked
  | unavailable
  | invalid
  | accepted
deriving DecidableEq, Repr

/-- The user and the session cookie of a login that goes through. -/
def handleLogin (m : SessionManager) (r : Request) (verdict : Verdict) (now : ℤ) :
    Except Refusal (String × List UInt8) :=
  match r.credentials with
  | none => .error ⟨400, "malformed request"⟩
  | some (username, password) =>
    match checkCredentials username password with
    | some message => .error ⟨400, message⟩
    | none =>
      match verdict with
      | .blocked => .error ⟨429, "too many failed login attempts, try again later"⟩
      | .unavailable =>
        .error ⟨503, "unable to verify credentials right now, try again shortly"⟩
      | .invalid => .error ⟨401, "invalid credentials"⟩
      | .accepted =>
        match m.issue username now with
        | .error _ => .error ⟨500, "internal error"⟩
        | .ok (token, _) => .ok (username, token)

/-- A request at its handler, or before the limit in front of it. `since` is when its session was
checked, for a route that has one. -/
structure Passed where
  route : Route
  request : Request
  user : Option String
  since : ℤ

/-- A user and an instant. -/
structure Mark where
  user : String
  time : ℤ
deriving DecidableEq, Repr

/-- `limiter` is the commit limiter of the process, none when there is no limit. `issued` has every
session cookie that was ever set, `logins` and `requests` when a login went through and when a
session was renewed, and `ran` the requests that reached their handlers, each with the instant. -/
structure Server where
  now : ℤ
  limiter : Option RequestLimiter
  waiting : List Passed
  issued : List (List UInt8)
  logins : List Mark
  requests : List Mark
  ran : List (Passed × ℤ)

/-- 30 commits in 5 minutes. -/
def newCommitLimiter : RequestLimiter := start 30 300000000000 10000

inductive Event
  | wait (nanoseconds : ℕ)
  | request (r : Request) (verdict : Verdict)
  | proceed (index : ℕ)
  | restart

namespace Server

def initial (now : ℤ) (limiter : Option RequestLimiter) : Server :=
  ⟨now, limiter, [], [], [], [], []⟩

variable (m : SessionManager) (server : Server)

def run (p : Passed) : Server := { server with ran := server.ran ++ [(p, server.now)] }

def loggedIn (user : String) (token : List UInt8) : Server :=
  { server with
    issued := server.issued ++ [token]
    logins := server.logins ++ [⟨user, server.now⟩] }

def renewed (user : String) (token : List UInt8) : Server :=
  { server with
    issued := server.issued ++ [token]
    requests := server.requests ++ [⟨user, server.now⟩] }

/-- A route that anyone may call. -/
def serveOpen (route : Route) (r : Request) (verdict : Verdict) : Server :=
  let server := server.run ⟨route, r, none, server.now⟩
  match route.handler with
  | .login =>
    match handleLogin m r verdict server.now with
    | .error _ => server
    | .ok (user, token) => server.loggedIn user token
  | _ => server

/-- A session is renewed before the CSRF token is looked at. -/
def serveAuthed (route : Route) (r : Request) : Server :=
  match requireSession m r server.now with
  | .error _ => server
  | .ok (newToken, user) =>
    let server := server.renewed user newToken
    match requireCSRF r with
    | .error _ => server
    | .ok () =>
      let passed : Passed := ⟨route, r, some user, server.now⟩
      if route.guard = .rateLimited then { server with waiting := server.waiting ++ [passed] }
      else server.run passed

def serve (r : Request) (verdict : Verdict) : Server :=
  match serveMux r.method r.path with
  | .error _ => server
  | .ok route =>
    if route.guard = .anyone then server.serveOpen m route r verdict
    else server.serveAuthed m route r

/-- `commitRateLimited`, for a request that has waited for its turn. -/
def commitRateLimited (index : ℕ) : Server :=
  match server.waiting[index]? with
  | none => server
  | some p =>
    let server := { server with waiting := server.waiting.eraseIdx index }
    match server.limiter with
    | none => server.run p
    | some l =>
      let (l, allowed) := l.allow (p.user.getD "") server.now
      let server := { server with limiter := some l }
      if allowed then server.run p else server

end Server

/-- A restart drops what was on its way and the counts of the limiter. -/
def step (m : SessionManager) (server : Server) : Event → Server
  | .wait nanoseconds => { server with now := server.now + nanoseconds }
  | .request r verdict => server.serve m r verdict
  | .proceed index => server.commitRateLimited index
  | .restart =>
    { server with limiter := server.limiter.map fun _ => newCommitLimiter, waiting := [] }

/-- The part of a token that is signed. -/
def payloadB64 (token : List UInt8) : Option (List UInt8) := (token.idxOf? 46).map token.take

/-- A cookie whose signature is right has a payload that the server once signed. -/
def Unforged (m : SessionManager) (server : Server) : Event → Prop
  | .request r _ => ∀ cookie c, r.session = some cookie → m.decodeAndVerify cookie = .ok c →
      ∃ token ∈ server.issued, payloadB64 token = payloadB64 cookie
  | _ => True

/-- The session of a login at `start`: it goes on with every request of the user that comes within
30 minutes of the one before, to the millisecond, and within 12 hours of the login. -/
inductive Alive (server : Server) (user : String) (start : ℤ) : ℤ → Prop
  | login (h : ⟨user, start⟩ ∈ server.logins) : Alive server user start start
  | request {s t : ℤ} (earlier : Alive server user start s) (h : ⟨user, t⟩ ∈ server.requests)
      (hle : s ≤ t) (hidle : unixMilli t ≤ unixMilli (s + sessionTTL))
      (habsolute : t < start + maxAbsoluteSessionTTL) : Alive server user start t

/-- The CSRF cookie of the request, repeated in its header. -/
def Request.Doubled (r : Request) : Prop := r.csrfCookie = some r.csrfHeader ∧ r.csrfHeader ≠ ""

/-- A request that may be at its handler: of a route it matches and, unless anyone may call it, of a
session that was alive when it was checked. -/
structure Passed.Allowed (server : Server) (p : Passed) : Prop where
  mem : p.route ∈ routes
  matches_ : p.route.Matches p.request.method p.request.path
  session : p.route.guard ≠ .anyone → ∃ user start, p.user = some user ∧
    Alive server user start p.since
  csrf : p.route.guard ≠ .anyone → p.request.method ∉ safeMethods → p.request.Doubled

section Tokens

variable {m : SessionManager} {token cookie : List UInt8} {c c' : Claims}

theorem payloadB64_encode (h : m.encode c = .ok token) :
    ∃ payload, m.marshal c = some payload ∧
      payloadB64 token = some (Base64.encodeToString payload) := by
  unfold encode at h
  cases hpayload : m.marshal c with
  | none =>
    rw [hpayload] at h
    cases h
  | some payload =>
    rw [hpayload] at h
    injection h with h
    subst h
    refine ⟨payload, rfl, ?_⟩
    unfold payloadB64
    rw [Separators.idxOf?_append_cons (Base64.dot_notMem_encodeToString payload), Option.map_some,
      List.take_left]

/-- What a cookie says is what its payload was made of. -/
theorem claims_eq_of_payloadB64 (h : m.encode c = .ok token)
    (hcookie : m.decodeAndVerify cookie = .ok c') (heq : payloadB64 token = payloadB64 cookie) :
    c' = c := by
  obtain ⟨payload, hmarshal, hpayload⟩ := payloadB64_encode h
  rw [hpayload] at heq
  unfold payloadB64 at heq
  unfold decodeAndVerify at hcookie
  split_ifs at hcookie
  cases hdot : cookie.idxOf? 46 with
  | none =>
    rw [hdot] at heq
    cases heq
  | some dot =>
    rw [hdot, Option.map_some, Option.some.injEq] at heq
    rw [hdot] at hcookie
    dsimp only at hcookie
    rw [← heq, Base64.decodeString_encodeToString, Option.bind_some,
      m.unmarshal_marshal c payload hmarshal] at hcookie
    split at hcookie
    · cases hcookie
    · split_ifs at hcookie
      exact (Except.ok.inj hcookie).symm

/-- A renewal is in time, and the new token carries the same login. -/
theorem carries_renewed {subject sub : String} {start made now exp : ℤ} {token' : List UInt8}
    (h : Carries m subject start made token c) (hdecode : m.decodeAndVerify cookie = .ok c)
    (hok : m.renew cookie now = .ok (token', exp, sub)) :
    sub = subject ∧ unixMilli now ≤ unixMilli (made + sessionTTL) ∧
      now < start + maxAbsoluteSessionTTL ∧ ∃ c', Carries m subject start now token' c' := by
  obtain ⟨c', hdecode', hexp, hnew, henc⟩ := renew_ok hok
  obtain rfl : c' = c := Except.ok.inj (hdecode'.symm.trans hdecode)
  have hsub : sub = c'.subject := by
    rw [renew_of_decode hdecode hexp hnew henc] at hok
    exact (Prod.mk.inj (Prod.mk.inj (Except.ok.inj hok)).2).2.symm
  obtain ⟨hslide, habs⟩ := newExpiry_le c' now
  have hfloor := ofUnixMilli_unixMilli_le (newExpiry c' now)
  have hstart := ofUnixMilli_unixMilli_le start
  have hmade := le_unixMilli h.sliding
  rw [h.issuedAt_eq] at habs
  refine ⟨hsub.trans h.subject_eq, by omega, by omega, _, henc, h.subject_eq, h.issuedAt_eq, ?_, ?_⟩
  · dsimp only
    omega
  · exact hfloor.trans hslide

end Tokens

section Growth

variable {server server' : Server}

/-- What `Alive` looks at only grows. -/
structure Grows (server server' : Server) : Prop where
  logins : server.logins ⊆ server'.logins
  requests : server.requests ⊆ server'.requests

theorem Alive.mono (hgrow : Grows server server') {user : String} {start t : ℤ}
    (h : Alive server user start t) : Alive server' user start t := by
  induction h with
  | login h => exact .login (hgrow.logins h)
  | request _ h hle hidle habsolute ih => exact .request ih (hgrow.requests h) hle hidle habsolute

theorem Passed.Allowed.mono (hgrow : Grows server server') {p : Passed} (h : p.Allowed server) :
    p.Allowed server' where
  mem := h.mem
  matches_ := h.matches_
  session hguard := by
    obtain ⟨user, start, huser, halive⟩ := h.session hguard
    exact ⟨user, start, huser, halive.mono hgrow⟩
  csrf := h.csrf

/-- A token that was made by now for a session that was alive then. -/
def Rooted (m : SessionManager) (server : Server) (token : List UInt8) : Prop :=
  ∃ user start made c, Alive server user start made ∧ made ≤ server.now ∧
    Carries m user start made token c

theorem Rooted.mono {m : SessionManager} (hgrow : Grows server server')
    (hnow : server.now ≤ server'.now) {token : List UInt8} (h : Rooted m server token) :
    Rooted m server' token := by
  obtain ⟨user, start, made, c, halive, hmade, hcarries⟩ := h
  exact ⟨user, start, made, c, halive.mono hgrow, hmade.trans hnow, hcarries⟩

/-- What every run keeps. -/
structure Kept (m : SessionManager) (server : Server) : Prop where
  issued : ∀ token ∈ server.issued, Rooted m server token
  waiting : ∀ p ∈ server.waiting, p.Allowed server ∧ p.since ≤ server.now
  ran : ∀ r ∈ server.ran, r.1.Allowed server ∧ r.1.since ≤ r.2

theorem kept_initial (m : SessionManager) (now : ℤ) (limiter : Option RequestLimiter) :
    Kept m (.initial now limiter) where
  issued _ h := absurd h List.not_mem_nil
  waiting _ h := absurd h List.not_mem_nil
  ran _ h := absurd h List.not_mem_nil

/-- A step keeps this when what is new of tokens and requests satisfies it. -/
theorem Kept.change {m : SessionManager} (h : Kept m server) (hgrow : Grows server server')
    (hnow : server.now ≤ server'.now)
    (hissued : ∀ token ∈ server'.issued, token ∈ server.issued ∨ Rooted m server' token)
    (hwaiting : ∀ p ∈ server'.waiting,
      p ∈ server.waiting ∨ p.Allowed server' ∧ p.since ≤ server'.now)
    (hran : ∀ r ∈ server'.ran, r ∈ server.ran ∨ r.1.Allowed server' ∧ r.1.since ≤ r.2) :
    Kept m server' where
  issued token ht := (hissued token ht).elim (fun hold => (h.issued token hold).mono hgrow hnow) id
  waiting p hp := (hwaiting p hp).elim
    (fun hold => ⟨(h.waiting p hold).1.mono hgrow, (h.waiting p hold).2.trans hnow⟩) id
  ran r hr := (hran r hr).elim
    (fun hold => ⟨(h.ran r hold).1.mono hgrow, (h.ran r hold).2⟩) id

theorem mem_append_singleton {α : Type*} (P : α → Prop) {l : List α} {a b : α} (hb : P b)
    (h : a ∈ l ++ [b]) : a ∈ l ∨ P a := by
  rcases List.mem_append.mp h with ha | ha
  · exact Or.inl ha
  · obtain rfl := List.mem_singleton.mp ha
    exact Or.inr hb

theorem Kept.run {m : SessionManager} (h : Kept m server) {p : Passed} (hp : p.Allowed server)
    (hsince : p.since ≤ server.now) : Kept m (server.run p) := by
  have hgrow : Grows server (server.run p) := ⟨List.Subset.refl _, List.Subset.refl _⟩
  exact h.change hgrow le_rfl (fun _ => Or.inl) (fun _ => Or.inl)
    fun _ => mem_append_singleton
      (fun r : Passed × ℤ => r.1.Allowed (server.run p) ∧ r.1.since ≤ r.2)
      ⟨hp.mono hgrow, hsince⟩

end Growth

section Steps

variable {m : SessionManager} {server : Server}

theorem serveMux_ok {method : String} {path : List String} {route : Route}
    (h : serveMux method path = .ok route) : route ∈ routes ∧ route.Matches method path := by
  unfold serveMux at h
  cases hfind : routes.find? (·.Matches method path) with
  | some found =>
    rw [hfind] at h
    obtain rfl := Except.ok.inj h
    have hmatches := List.find?_some hfind
    exact ⟨List.mem_of_find?_eq_some hfind, of_decide_eq_true hmatches⟩
  | none =>
    rw [hfind] at h
    dsimp only at h
    split at h <;> cases h

theorem handleLogin_ok {r : Request} {verdict : Verdict} {now : ℤ} {user : String}
    {token : List UInt8} (h : handleLogin m r verdict now = .ok (user, token)) :
    verdict = .accepted ∧ ∃ exp, m.issue user now = .ok (token, exp) := by
  unfold handleLogin at h
  split at h
  · cases h
  · split at h
    · cases h
    · split at h
      · cases h
      · cases h
      · cases h
      · split at h
        · cases h
        · rename_i hissue
          obtain ⟨rfl, rfl⟩ := Prod.mk.inj (Except.ok.inj h)
          exact ⟨rfl, _, hissue⟩

theorem requireSession_ok {r : Request} {now : ℤ} {token : List UInt8} {user : String}
    (h : requireSession m r now = .ok (token, user)) :
    ∃ cookie exp, r.session = some cookie ∧ m.renew cookie now = .ok (token, exp, user) := by
  unfold requireSession at h
  split at h
  · cases h
  · rename_i cookie hcookie
    split at h
    · cases h
    · rename_i hrenew
      obtain ⟨rfl, rfl⟩ := Prod.mk.inj (Except.ok.inj h)
      exact ⟨cookie, _, hcookie, hrenew⟩

theorem requireCSRF_ok {r : Request} (h : requireCSRF r = .ok ())
    (hmethod : r.method ∉ safeMethods) : r.Doubled := by
  unfold requireCSRF at h
  rw [if_neg hmethod] at h
  split at h
  · cases h
  · rename_i cookie hcookie
    split_ifs at h with hempty hheader
    rw [not_or, not_not] at hheader
    exact ⟨hcookie.trans (congrArg some hheader.2.symm), hheader.1⟩

theorem Kept.serveOpen (h : Kept m server) {route : Route} {r : Request} (verdict : Verdict)
    (hmem : route ∈ routes) (hmatches : route.Matches r.method r.path)
    (hguard : route.guard = .anyone) : Kept m (server.serveOpen m route r verdict) := by
  have hran : Kept m (server.run ⟨route, r, none, server.now⟩) :=
    h.run ⟨hmem, hmatches, fun hne => absurd hguard hne, fun hne => absurd hguard hne⟩ le_rfl
  unfold Server.serveOpen
  dsimp only
  split
  · split
    · exact hran
    · rename_i user token hlogin
      obtain ⟨-, exp, hissue⟩ := handleLogin_ok hlogin
      have hstart : Chain m user server.now token server.now := .issued hissue
      obtain ⟨c, hcarries⟩ := hstart.carries
      exact hran.change ⟨List.subset_append_left _ _, List.Subset.refl _⟩ le_rfl
        (fun _ => mem_append_singleton _ ⟨user, server.now, server.now, c,
          .login (List.mem_append_right _ List.mem_cons_self), le_rfl, hcarries⟩)
        (fun _ => Or.inl) (fun _ => Or.inl)
  · exact hran

/-- The session of a request that is let in was alive before, and goes on. -/
theorem Kept.renewed (h : Kept m server) {r : Request} {verdict : Verdict}
    (hunforged : Unforged m server (.request r verdict)) {token : List UInt8} {user : String}
    (hsession : requireSession m r server.now = .ok (token, user)) :
    Kept m (server.renewed user token) ∧
      ∃ start, Alive (server.renewed user token) user start server.now := by
  obtain ⟨cookie, exp, hcookie, hrenew⟩ := requireSession_ok hsession
  obtain ⟨c, hdecode, -⟩ := renew_ok hrenew
  obtain ⟨signed, hsigned, hpayload⟩ := hunforged cookie c hcookie hdecode
  obtain ⟨user', start, made, c', halive, hmade, hcarries⟩ := h.issued signed hsigned
  obtain rfl := claims_eq_of_payloadB64 hcarries.encode_eq hdecode hpayload
  obtain ⟨rfl, hidle, habsolute, c', hcarries'⟩ := carries_renewed hcarries hdecode hrenew
  have hgrow : Grows server (server.renewed user token) :=
    ⟨List.Subset.refl _, List.subset_append_left _ _⟩
  have hnow : Alive (server.renewed user token) user start server.now :=
    .request (halive.mono hgrow) (List.mem_append_right _ List.mem_cons_self) hmade hidle habsolute
  have hrooted : Rooted m (server.renewed user token) token :=
    ⟨user, start, server.now, c', hnow, le_rfl, hcarries'⟩
  exact ⟨h.change hgrow le_rfl (fun _ => mem_append_singleton _ hrooted) (fun _ => Or.inl)
    (fun _ => Or.inl), start, hnow⟩

theorem Kept.serveAuthed (h : Kept m server) {route : Route} {r : Request} {verdict : Verdict}
    (hunforged : Unforged m server (.request r verdict)) (hmem : route ∈ routes)
    (hmatches : route.Matches r.method r.path) : Kept m (server.serveAuthed m route r) := by
  unfold Server.serveAuthed
  split
  · exact h
  · rename_i token user hsession
    obtain ⟨hkept, start, halive⟩ := h.renewed hunforged hsession
    dsimp only
    split
    · exact hkept
    · rename_i hcsrf
      have hallowed : Passed.Allowed (server.renewed user token)
          ⟨route, r, some user, server.now⟩ :=
        ⟨hmem, hmatches, fun _ => ⟨user, start, rfl, halive⟩, fun _ => requireCSRF_ok hcsrf⟩
      split
      · let server' : Server := { server.renewed user token with
          waiting := server.waiting ++ [⟨route, r, some user, server.now⟩] }
        have hgrow : Grows (server.renewed user token) server' :=
          ⟨List.Subset.refl _, List.Subset.refl _⟩
        exact hkept.change hgrow le_rfl (fun _ => Or.inl)
          (fun _ => mem_append_singleton
            (fun p : Passed => p.Allowed server' ∧ p.since ≤ server.now)
            ⟨hallowed.mono hgrow, le_rfl⟩)
          (fun _ => Or.inl)
      · exact hkept.run hallowed le_rfl

theorem Kept.serve (h : Kept m server) {r : Request} {verdict : Verdict}
    (hunforged : Unforged m server (.request r verdict)) : Kept m (server.serve m r verdict) := by
  unfold Server.serve
  split
  · exact h
  · rename_i route hroute
    obtain ⟨hmem, hmatches⟩ := serveMux_ok hroute
    split
    · rename_i hguard
      exact h.serveOpen verdict hmem hmatches hguard
    · exact h.serveAuthed hunforged hmem hmatches

theorem Kept.commitRateLimited (h : Kept m server) (index : ℕ) :
    Kept m (server.commitRateLimited index) := by
  unfold Server.commitRateLimited
  cases hget : server.waiting[index]? with
  | none => exact h
  | some p =>
    obtain ⟨hallowed, hsince⟩ := h.waiting p (List.mem_of_getElem? hget)
    have hgrow (limiter : Option RequestLimiter) : Grows server
        { server with waiting := server.waiting.eraseIdx index, limiter := limiter } :=
      ⟨List.Subset.refl _, List.Subset.refl _⟩
    have hrest (limiter : Option RequestLimiter) :
        Kept m { server with waiting := server.waiting.eraseIdx index, limiter := limiter } :=
      h.change (hgrow limiter) le_rfl (fun _ => Or.inl)
        (fun _ hq => Or.inl (List.mem_of_mem_eraseIdx hq)) (fun _ => Or.inl)
    cases hlimiter : server.limiter with
    | none =>
      have hrun := (hrest server.limiter).run (hallowed.mono (hgrow server.limiter)) hsince
      rwa [hlimiter] at hrun
    | some l =>
      let l' := (l.allow (p.user.getD "") server.now).1
      dsimp only
      split
      · exact (hrest (some l')).run (hallowed.mono (hgrow (some l'))) hsince
      · exact hrest (some l')

theorem kept_step (m : SessionManager) (server : Server) (e : Event) (h : Kept m server)
    (hunforged : Unforged m server e) : Kept m (step m server e) := by
  cases e with
  | wait nanoseconds =>
    refine h.change ⟨List.Subset.refl _, List.Subset.refl _⟩ ?_ (fun _ => Or.inl)
      (fun _ => Or.inl) (fun _ => Or.inl)
    exact le_add_of_nonneg_right (Int.natCast_nonneg nanoseconds)
  | request r verdict => exact h.serve hunforged
  | proceed index => exact h.commitRateLimited index
  | restart =>
    exact h.change ⟨List.Subset.refl _, List.Subset.refl _⟩ le_rfl (fun _ => Or.inl)
      (fun _ hp => absurd hp List.not_mem_nil) (fun _ => Or.inl)

end Steps

/-- What changes something stands behind a session and under a method that needs the token. -/
theorem changes_guarded : ∀ route ∈ routes, route.handler.changes = true →
    route.guard ≠ .anyone ∧ route.method ∉ safeMethods := by decide +kernel

theorem Passed.Allowed.doubled {server : Server} {p : Passed} (h : p.Allowed server)
    (hchanges : p.route.handler.changes = true) :
    p.route.guard ≠ .anyone ∧ p.request.Doubled := by
  obtain ⟨hguard, hmethod⟩ := changes_guarded p.route h.mem hchanges
  refine ⟨hguard, h.csrf hguard ?_⟩
  rcases h.matches_.2 with heq | ⟨hget, -⟩
  · rwa [← heq]
  · rw [hget] at hmethod
    exact absurd (by decide) hmethod

/-- The session of a login at the epoch. -/
def morningClaims : Claims := ⟨"admin", 0, 1800000⟩

/-- The HMAC-SHA256 of the claims of that session, and of the ones that renew it ten minutes later,
under the secret `0123456789abcdef0123456789abcdef`. -/
def morningMac (payloadB64 : List UInt8) : Vector UInt8 32 :=
  if payloadB64 = Base64.encodeToString (ClaimsJson.marshalClaims morningClaims) then
    #v[229, 193, 252, 9, 188, 159, 15, 22, 120, 45, 174, 198, 147, 85, 220, 90, 198, 45, 239, 33,
       104, 133, 92, 133, 213, 200, 2, 176, 140, 100, 152, 187]
  else
    #v[99, 218, 18, 113, 81, 249, 165, 4, 210, 196, 75, 244, 94, 107, 69, 32, 173, 170, 210, 170,
       146, 23, 126, 122, 124, 211, 163, 47, 255, 223, 253, 1]

def morningManager : SessionManager := jsonManager morningMac

def morningCookie : List UInt8 :=
  match morningManager.issue "admin" 0 with
  | .error _ => []
  | .ok (token, _) => token

def morningLogin : Event :=
  .request ⟨"POST", ["api", "auth", "login"], none, none, "", some ("admin", "secret")⟩ .accepted

def morningCommit : Event :=
  .request ⟨"POST", ["api", "config", "commit"], some morningCookie, some "k", "k", none⟩ .invalid

/-- A login, a commit ten minutes later that waits for its turn, and its turn. -/
def morning : List Event := [morningLogin, .wait 600000000000, morningCommit, .proceed 0]

theorem morning_unforged :
    Guarded (step morningManager) (Unforged morningManager) (.initial 0 none) morning := by
  refine ⟨fun cookie c hsession => (nomatch hsession), trivial,
    fun cookie c hsession _ => ?_, trivial, trivial⟩
  obtain rfl := Option.some.inj hsession
  exact ⟨morningCookie, by decide +kernel, rfl⟩

/-- When requests of the user reached a handler that is limited. -/
def Server.commits (server : Server) (user : String) : List ℤ :=
  (server.ran.filter fun r => r.1.route.guard = .rateLimited ∧ r.1.user = some user).map Prod.snd

/-- The instants after one window before `t`, up to `t`. -/
def inWindow (window t : ℤ) (times : List ℤ) : ℕ :=
  times.countP fun s => t - window < s ∧ s ≤ t

section Window

variable {limit window t now : ℤ} {times : List ℤ}

/-- A bound on every window is kept by a new instant that the window before it has room for. -/
theorem inWindow_append (hbound : ∀ t, (inWindow window t times : ℤ) ≤ max 0 limit)
    (hroom : (times.countP (now - window < ·) : ℤ) < limit) (t : ℤ) :
    (inWindow window t (times ++ [now]) : ℤ) ≤ max 0 limit := by
  have hsplit : inWindow window t (times ++ [now]) =
      inWindow window t times + [now].countP (fun s => t - window < s ∧ s ≤ t) :=
    List.countP_append
  have hone := List.countP_le_length (p := fun s => t - window < s ∧ s ≤ t) (l := [now])
  rw [List.length_singleton] at hone
  by_cases ht : now ≤ t
  · have hle : inWindow window t times ≤ times.countP (now - window < ·) := by
      refine List.countP_mono_left fun s _ hs => ?_
      have hs := of_decide_eq_true hs
      exact decide_eq_true (by omega)
    omega
  · have hnone : [now].countP (fun s => t - window < s ∧ s ≤ t) = 0 := by
      simp [ht]
    have hold := hbound t
    omega

end Window

/-- What a run without a restart keeps: the limiter agrees with the times at which the commits of
each user ran, no window holds more of them than it may, and what waits is of a user. -/
structure Limited (limit window : ℤ) (server : Server) (l : RequestLimiter) : Prop where
  limiter : server.limiter = some l
  settings : l.max = limit ∧ l.window = window
  agrees : ∀ user, Agrees user (server.commits user) server.now l
  bound : ∀ user t, (inWindow window t (server.commits user) : ℤ) ≤ max 0 limit
  waiting : ∀ p ∈ server.waiting, p.route.guard = .rateLimited ∧ ∃ user, p.user = some user

section Limit

variable {m : SessionManager} {limit window : ℤ} {server server' : Server} {l : RequestLimiter}

/-- A step with the same limiter and commits. -/
theorem Limited.change (h : Limited limit window server l)
    (hlimiter : server'.limiter = server.limiter) (hnow : server.now ≤ server'.now)
    (hcommits : ∀ user, server'.commits user = server.commits user)
    (hwaiting : ∀ p ∈ server'.waiting, p ∈ server.waiting ∨
      p.route.guard = .rateLimited ∧ ∃ user, p.user = some user) :
    Limited limit window server' l where
  limiter := hlimiter.trans h.limiter
  settings := h.settings
  agrees user t ht := by
    rw [hcommits]
    exact h.agrees user t (hnow.trans ht)
  bound user t := by
    rw [hcommits]
    exact h.bound user t
  waiting p hp := (hwaiting p hp).elim (h.waiting p) id

theorem commits_run (server : Server) (p : Passed) (user : String) :
    (server.run p).commits user = server.commits user ++
      if p.route.guard = .rateLimited ∧ p.user = some user then [server.now] else [] := by
  unfold Server.commits Server.run
  rw [List.filter_append, List.map_append]
  congr 1
  by_cases hp : p.route.guard = .rateLimited ∧ p.user = some user
  · rw [if_pos hp, List.filter_cons_of_pos (by simpa using hp)]
    rfl
  · rw [if_neg hp, List.filter_cons_of_neg (by simpa using hp)]
    rfl

theorem Limited.run (h : Limited limit window server l) {p : Passed}
    (hguard : p.route.guard ≠ .rateLimited) : Limited limit window (server.run p) l := by
  refine h.change rfl le_rfl (fun user => ?_) fun _ => Or.inl
  rw [commits_run, if_neg fun hp => hguard hp.1, List.append_nil]

theorem Limited.serve (h : Limited limit window server l) (r : Request) (verdict : Verdict) :
    Limited limit window (server.serve m r verdict) l := by
  unfold Server.serve
  split
  · exact h
  · rename_i route _
    split
    · rename_i hopen
      have hran : Limited limit window (server.run ⟨route, r, none, server.now⟩) l :=
        h.run (by rw [hopen]; decide)
      unfold Server.serveOpen
      dsimp only
      split
      · split
        · exact hran
        · exact hran.change rfl le_rfl (fun _ => rfl) fun _ => Or.inl
      · exact hran
    · unfold Server.serveAuthed
      split
      · exact h
      · rename_i token user _
        have hrenewed : Limited limit window (server.renewed user token) l :=
          h.change rfl le_rfl (fun _ => rfl) fun _ => Or.inl
        dsimp only
        split
        · exact hrenewed
        · split
          · rename_i hguard
            exact hrenewed.change rfl le_rfl (fun _ => rfl) fun _ => mem_append_singleton
              (fun p : Passed => p.route.guard = .rateLimited ∧ ∃ user, p.user = some user)
              ⟨hguard, user, rfl⟩
          · rename_i hguard
            exact hrenewed.run hguard

/-- What the limiter answers, and what is left. -/
theorem commitRateLimited_eq {index : ℕ} {p : Passed} {user : String}
    (hget : server.waiting[index]? = some p) (huser : p.user = some user)
    (hlimiter : server.limiter = some l) :
    server.commitRateLimited index =
      let server' := { server with
        waiting := server.waiting.eraseIdx index
        limiter := some (l.allow user server.now).1 }
      if (l.allow user server.now).2 = true then server'.run p else server' := by
  unfold Server.commitRateLimited
  rw [hget]
  dsimp only
  rw [hlimiter, huser]
  rfl

theorem live_eq (h : Limited limit window server l) (user : String) :
    ((l.live user server.now).length : ℤ) =
      (server.commits user).countP (server.now - window < ·) := by
  rw [h.agrees user server.now le_rfl, h.settings.2, List.countP_eq_length_filter]

theorem Limited.commitRateLimited (h : Limited limit window server l) (index : ℕ) :
    ∃ l', Limited limit window (server.commitRateLimited index) l' := by
  cases hget : server.waiting[index]? with
  | none =>
    refine ⟨l, ?_⟩
    unfold Server.commitRateLimited
    rwa [hget]
  | some p =>
    obtain ⟨hguard, user, huser⟩ := h.waiting p (List.mem_of_getElem? hget)
    rw [commitRateLimited_eq hget huser h.limiter]
    have hsettings := settings_allow l user server.now
    have hrest (q : Passed) (hq : q ∈ server.waiting.eraseIdx index) :=
      h.waiting q (List.mem_of_mem_eraseIdx hq)
    have hagrees (user' : String) := (h.agrees user').step (c := ⟨user, server.now⟩) le_rfl
    refine ⟨(l.allow user server.now).1, ?_⟩
    dsimp only
    by_cases hallow : (l.allow user server.now).2 = true
    · have hroom := (allow_iff l user server.now).mp hallow
      rw [live_eq h, h.settings.1] at hroom
      rw [if_pos hallow]
      have hcommits (user' : String) : (Server.run { server with
          waiting := server.waiting.eraseIdx index
          limiter := some (l.allow user server.now).1 } p).commits user' =
            server.commits user' ++ if user = user' then [server.now] else [] := by
        rw [commits_run]
        congr 1
        simp only [hguard, huser, Option.some.injEq, true_and]
      refine ⟨rfl, ⟨hsettings.2.trans h.settings.1, hsettings.1.trans h.settings.2⟩,
        fun user' => ?_, fun user' t => ?_, hrest⟩
      · have hstep := hagrees user'
        simp only [hallow, and_true] at hstep
        rw [hcommits]
        exact hstep
      · rw [hcommits]
        by_cases heq : user = user'
        · subst heq
          rw [if_pos rfl]
          exact inWindow_append (h.bound user) hroom t
        · rw [if_neg heq, List.append_nil]
          exact h.bound user' t
    · rw [if_neg hallow]
      refine ⟨rfl, ⟨hsettings.2.trans h.settings.1, hsettings.1.trans h.settings.2⟩,
        fun user' => ?_, h.bound, hrest⟩
      have hstep := hagrees user'
      rw [if_neg fun hok => hallow hok.2, List.append_nil] at hstep
      exact hstep

theorem limited_step {e : Event} (h : ∃ l, Limited limit window server l) (he : e ≠ .restart) :
    ∃ l, Limited limit window (step m server e) l := by
  obtain ⟨l, h⟩ := h
  cases e with
  | wait nanoseconds =>
    exact ⟨l, h.change rfl (le_add_of_nonneg_right (Int.natCast_nonneg nanoseconds))
      (fun _ => rfl) fun _ => Or.inl⟩
  | request r verdict => exact ⟨l, h.serve r verdict⟩
  | proceed index => exact h.commitRateLimited index
  | restart => exact absurd rfl he

theorem limited_initial (limit window maxTrackedKeys now : ℤ) :
    Limited limit window (.initial now (some (start limit window maxTrackedKeys)))
      (start limit window maxTrackedKeys) where
  limiter := rfl
  settings := ⟨rfl, rfl⟩
  agrees user := agrees_start user now limit window maxTrackedKeys
  bound _ _ := le_max_left 0 limit
  waiting _ h := absurd h List.not_mem_nil

end Limit

/-- In every run of one process, however the requests of the users interleave: no window holds more
commits, confirmed commits, rollbacks and imports of a user than the limit, and one that waits for
its turn runs exactly when fewer than that many of its user have run since one window ago. -/
theorem commits_limited (m : SessionManager) (limit window maxTrackedKeys now : ℤ) (es : List Event)
    (hrestart : ∀ e ∈ es, e ≠ .restart) :
    let server := es.foldl (step m) (.initial now (some (start limit window maxTrackedKeys)))
    (∀ user t, (inWindow window t (server.commits user) : ℤ) ≤ max 0 limit) ∧
    ∀ index p, server.waiting[index]? = some p → ∃ user, p.user = some user ∧
      (step m server (.proceed index)).ran =
        if ((server.commits user).countP (server.now - window < ·) : ℤ) < limit then
          server.ran ++ [(p, server.now)]
        else server.ran := by
  intro server
  have hrun : Guarded (step m) (fun _ e => e ≠ .restart)
      (.initial now (some (start limit window maxTrackedKeys))) es :=
    guarded_of_forall (fun e he _ => hrestart e he) _
  obtain ⟨l, h⟩ : ∃ l, Limited limit window server l :=
    forall_trail_of_guarded (I := fun s => ∃ l, Limited limit window s l)
      (fun _ _ hs he => limited_step hs he)
      ⟨_, limited_initial limit window maxTrackedKeys now⟩ hrun server (foldl_mem_trail _ es)
  refine ⟨h.bound, fun index p hget => ?_⟩
  obtain ⟨hguard, user, huser⟩ := h.waiting p (List.mem_of_getElem? hget)
  have hallow := allow_iff l user server.now
  rw [live_eq h, h.settings.1] at hallow
  refine ⟨user, huser, ?_⟩
  show (server.commitRateLimited index).ran = _
  rw [commitRateLimited_eq hget huser h.limiter]
  dsimp only
  by_cases hroom : ((server.commits user).countP (server.now - window < ·) : ℤ) < limit
  · rw [if_pos (hallow.mpr hroom), if_pos hroom]
    rfl
  · rw [if_neg fun hok => hroom (hallow.mp hok), if_neg hroom]

/-- The same with 31 commits, of which 30 have had their turn. -/
def busyMorning : List Event :=
  [morningLogin, .wait 600000000000] ++ List.replicate 31 morningCommit ++
    List.replicate 30 (.proceed 0)

/-- The commits of that morning fill the window, and the last one is refused. -/
theorem busyMorning_limited :
    let server := busyMorning.foldl (step morningManager) (.initial 0 (some newCommitLimiter))
    server.commits "admin" = List.replicate 30 600000000000 ∧ server.waiting.length = 1 ∧
      (∀ t, (inWindow 300000000000 t (server.commits "admin") : ℤ) ≤ 30) ∧
      (step morningManager server (.proceed 0)).ran = server.ran := by
  intro server
  have hrestart : ∀ e ∈ busyMorning, e ≠ .restart := by
    intro e he
    simp only [busyMorning, List.mem_append, List.mem_cons, List.not_mem_nil, or_false,
      List.mem_replicate] at he
    rcases he with ((rfl | rfl) | ⟨-, rfl⟩) | ⟨-, rfl⟩ <;> exact Event.noConfusion
  have hlimited := commits_limited morningManager 30 300000000000 10000 0 busyMorning hrestart
  have hproceed : ∀ index p, server.waiting[index]? = some p → ∃ user, p.user = some user ∧
      (step morningManager server (.proceed index)).ran =
        if ((server.commits user).countP (server.now - 300000000000 < ·) : ℤ) < 30 then
          server.ran ++ [(p, server.now)]
        else server.ran := hlimited.2
  have hcommits : server.commits "admin" = List.replicate 30 600000000000 := by decide +kernel
  have hwaiting : server.waiting.map Passed.user = [some "admin"] := by decide +kernel
  have hnow : server.now = 600000000000 := by decide +kernel
  refine ⟨hcommits, ?_, hlimited.1 "admin", ?_⟩
  · rw [← List.length_map (f := Passed.user), hwaiting]
    rfl
  · obtain ⟨p, hp⟩ : ∃ p, server.waiting = [p] := by
      rw [← List.length_eq_one_iff, ← List.length_map (f := Passed.user), hwaiting]
      rfl
    obtain ⟨user, huser, hran⟩ := hproceed 0 p (by rw [hp]; rfl)
    rw [hp, List.map_singleton, huser] at hwaiting
    obtain rfl := Option.some.inj (List.cons.inj hwaiting).1
    rw [hran, if_neg]
    rw [hcommits, hnow]
    decide

end VyosClient.ServerRoutes
