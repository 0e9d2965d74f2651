import Mathlib.Tactic.Common
import VyosClient.Runs

/-!
The session cookie of one browser. The backend keeps no sessions: a token is
its signed claims, and every authenticated request is answered with a renewed
one. The cookie that goes along is the one the browser holds when the request
is sent, and a `Set-Cookie` header counts when its response arrives. The CSRF
cookie is set, renewed and cleared along with this one.
-/

namespace VyosClient.SessionCookies

open Runs

/-- Times are in milliseconds. -/
structure Claims where
  subject : String
  issuedAt : ℕ
  expiresAt : ℕ
  deriving DecidableEq, Repr

def sessionTTL : ℕ := 30 * 60 * 1000

def maxAbsoluteSessionTTL : ℕ := 12 * 60 * 60 * 1000

def issue (now : ℕ) (subject : String) : Claims := ⟨subject, now, now + sessionTTL⟩

def verify (now : ℕ) (c : Claims) : Option String :=
  if now > c.expiresAt then none else some c.subject

/-- The replacement keeps the subject and the time of the login. -/
def renew (now : ℕ) (c : Claims) : Option Claims :=
  if now > c.expiresAt then none
  else
    let absoluteCap := c.issuedAt + maxAbsoluteSessionTTL
    let newExp := min (now + sessionTTL) absoluteCap
    if newExp > now then some ⟨c.subject, c.issuedAt, newExp⟩ else none

theorem subject_renew {now : ℕ} {c c' : Claims} (h : renew now c = some c') :
    c'.subject = c.subject := by
  simp only [renew] at h
  split_ifs at h
  rw [← Option.some.inj h]

/-- A `Set-Cookie` header for the session cookie, `none` when it expires it. -/
abbrev SetCookie := Option Claims

def setSessionCookies (token : Claims) : List SetCookie := [some token]

def clearSessionCookies : List SetCookie := [none]

/-- Without a valid session the handler is not reached and no cookie is set. -/
def requireSession (now : ℕ) (cookie : Option Claims) (next : List SetCookie) : List SetCookie :=
  match cookie.bind (renew now) with
  | some newToken => some newToken :: next
  | none => []

/-- `login` is one whose credentials are accepted. -/
inductive Call
  | request
  | login (username : String)
  | logout
  deriving DecidableEq, Repr

def serve (now : ℕ) (cookie : Option Claims) : Call → List SetCookie
  | .request => requireSession now cookie []
  | .login username => setSessionCookies (issue now username)
  | .logout => requireSession now cookie clearSessionCookies

/-- Whom the call is to leave signed in, if it is a login or a logout. -/
def Call.wanted : Call → Option (Option String)
  | .request => none
  | .login username => some (some username)
  | .logout => some none

/-- A call on its way. `number` counts the logins and logouts sent until then,
this one included. -/
structure InFlight where
  call : Call
  cookie : Option Claims
  response : Option (List SetCookie)
  number : ℕ
  deriving DecidableEq, Repr

/-- `wanted` is what the last login or logout is to leave. -/
structure Browser where
  now : ℕ
  jar : Option Claims
  inFlight : List InFlight
  actions : ℕ
  wanted : Option (Option String)
  deriving DecidableEq, Repr

def Browser.initial : Browser := ⟨0, none, [], 0, none⟩

inductive Event
  | wait (milliseconds : ℕ)
  | send (call : Call)
  | serve (index : ℕ)
  | process (index : ℕ)

def Browser.send (browser : Browser) (call : Call) : Browser :=
  let actions := if call.wanted.isSome then browser.actions + 1 else browser.actions
  { browser with
    inFlight := browser.inFlight ++ [⟨call, browser.jar, none, actions⟩]
    actions := actions
    wanted := call.wanted.or browser.wanted }

/-- The headers of a response count in their order. -/
def setCookies (jar : Option Claims) (headers : List SetCookie) : Option Claims :=
  headers.foldl (fun _ header => header) jar

def step (browser : Browser) : Event → Browser
  | .wait milliseconds => { browser with now := browser.now + milliseconds }
  | .send call => browser.send call
  | .serve index =>
      match browser.inFlight[index]? with
      | some ⟨call, cookie, none, number⟩ =>
          { browser with
            inFlight := browser.inFlight.set index
              ⟨call, cookie, some (serve browser.now cookie call), number⟩ }
      | _ => browser
  | .process index =>
      match browser.inFlight[index]? with
      | some ⟨_, _, some headers, _⟩ =>
          { browser with
            jar := setCookies browser.jar headers
            inFlight := browser.inFlight.eraseIdx index }
      | _ => browser

/-- The cookie agrees with the last login or logout: it is one of that user,
which verifies until it expires, or none that verifies. -/
def Browser.Agrees (browser : Browser) : Prop :=
  match browser.wanted with
  | none => True
  | some none => ∀ c, browser.jar = some c → verify browser.now c = none
  | some (some user) => ∃ c, browser.jar = some c ∧ c.subject = user ∧
      (browser.now ≤ c.expiresAt → verify browser.now c = some user)

/-- An ordinary request that takes along no cookie of another session. -/
def InFlight.Calm (m : InFlight) (user : Option String) : Prop :=
  m.call = .request ∧ ∀ c, m.cookie = some c → user = some c.subject

/-- The last login or logout sent is answered with a cookie to set or clear,
and nothing of an earlier session is still on its way. -/
def InTurn (browser : Browser) (index : ℕ) : Prop :=
  ∃ m user headers, browser.inFlight[index]? = some m ∧ m.call.wanted = some user ∧
    m.number = browser.actions ∧ m.response = some headers ∧ headers ≠ [] ∧
    ∀ m' ∈ browser.inFlight.eraseIdx index, m'.Calm user

/-- No login or logout is sent. -/
def Event.Ordinary : Event → Prop
  | .send call => call.wanted = none
  | _ => True

/-- What every run keeps: answers are the server's, and the latest login or
logout is the one whose outcome is wanted. -/
structure Numbered (browser : Browser) : Prop where
  genuine : ∀ m ∈ browser.inFlight, ∀ headers, m.response = some headers →
    ∃ time, headers = serve time m.cookie m.call
  number : ∀ m ∈ browser.inFlight, m.number ≤ browser.actions
  latest : ∀ m ∈ browser.inFlight, m.number = browser.actions →
    ∀ user, m.call.wanted = some user → browser.wanted = some user

theorem numbered_initial : Numbered .initial where
  genuine _ h := absurd h List.not_mem_nil
  number _ h := absurd h List.not_mem_nil
  latest _ h := absurd h List.not_mem_nil

section Step

variable {browser : Browser}

theorem Numbered.send (h : Numbered browser) (call : Call) : Numbered (browser.send call) where
  genuine m hm headers hresponse := by
    rcases List.mem_append.mp hm with hm | hm
    · exact h.genuine m hm headers hresponse
    · rw [List.mem_singleton.mp hm] at hresponse
      exact absurd hresponse (by simp)
  number m hm := by
    rcases List.mem_append.mp hm with hm | hm
    · refine Nat.le_trans (h.number m hm) ?_
      simp only [Browser.send]
      split_ifs
      · exact Nat.le_succ _
      · exact Nat.le_refl _
    · rw [List.mem_singleton.mp hm]
      exact Nat.le_refl _
  latest m hm hnumber user huser := by
    rcases List.mem_append.mp hm with hm | hm
    · have hle := h.number m hm
      cases hwanted : call.wanted with
      | none =>
        simp only [Browser.send, hwanted, Option.isSome_none, Bool.false_eq_true, ↓reduceIte]
          at hnumber ⊢
        exact h.latest m hm hnumber user huser
      | some user' =>
        simp only [Browser.send, hwanted, Option.isSome_some, ↓reduceIte] at hnumber
        omega
    · rw [List.mem_singleton.mp hm] at huser
      simp only [Browser.send, huser, Option.some_or]

/-- The calls on their way after an answer to one of them has been computed. -/
theorem mem_set_response {calls : List InFlight} {index : ℕ} {call : Call} {cookie : Option Claims}
    {number : ℕ} {response : Option (List SetCookie)} {m : InFlight}
    (hget : calls[index]? = some ⟨call, cookie, none, number⟩)
    (h : m ∈ calls.set index ⟨call, cookie, response, number⟩) :
    m ∈ calls ∨ m = ⟨call, cookie, response, number⟩ ∧ ⟨call, cookie, none, number⟩ ∈ calls := by
  rcases List.mem_or_eq_of_mem_set h with hm | hm
  · exact Or.inl hm
  · exact Or.inr ⟨hm, List.mem_of_getElem? hget⟩

theorem numbered_step (browser : Browser) (e : Event) (h : Numbered browser) :
    Numbered (step browser e) := by
  cases e with
  | wait milliseconds => exact ⟨h.genuine, h.number, h.latest⟩
  | send call => exact h.send call
  | serve index =>
    simp only [step]
    split
    · rename_i call cookie number hget
      refine ⟨fun m hm headers hresponse => ?_, fun m hm => ?_, fun m hm hnumber user huser => ?_⟩
      · rcases mem_set_response hget hm with hm | ⟨rfl, _⟩
        · exact h.genuine m hm headers hresponse
        · exact ⟨browser.now, (Option.some.inj hresponse).symm⟩
      · rcases mem_set_response hget hm with hm | ⟨rfl, hold⟩
        · exact h.number m hm
        · have hle := h.number _ hold
          exact hle
      · rcases mem_set_response hget hm with hm | ⟨rfl, hold⟩
        · exact h.latest m hm hnumber user huser
        · have hwanted := h.latest _ hold hnumber user huser
          exact hwanted
    · exact h
  | process index =>
    simp only [step]
    split
    · refine ⟨fun m hm => ?_, fun m hm => ?_, fun m hm => ?_⟩
      · exact h.genuine m (List.mem_of_mem_eraseIdx hm)
      · exact h.number m (List.mem_of_mem_eraseIdx hm)
      · exact h.latest m (List.mem_of_mem_eraseIdx hm)
    · exact h

theorem numbered_run (es : List Event) : Numbered (es.foldl step .initial) := by
  have hguarded : Guarded step (fun _ _ => True) .initial es :=
    guarded_of_forall (fun _ _ _ => trivial) _
  exact forall_trail_of_guarded (fun s e hs _ => numbered_step s e hs) numbered_initial hguarded _
    (foldl_mem_trail _ es)

end Step

/-- The browser follows the last login or logout: its cookie is that user's,
and so is whatever the answers on their way will set. -/
structure Follows (browser : Browser) (user : Option String) : Prop where
  wanted : browser.wanted = some user
  jar : browser.jar.map Claims.subject = user
  calm : ∀ m ∈ browser.inFlight, m.Calm user

section Follows

variable {browser : Browser} {user : Option String}

theorem Follows.agrees (h : Follows browser user) : browser.Agrees := by
  unfold Browser.Agrees
  rw [h.wanted]
  have hjar := h.jar
  cases user with
  | none =>
    intro c hc
    rw [hc] at hjar
    exact absurd hjar (by simp)
  | some user =>
    obtain ⟨c, hc, hsubject⟩ := Option.map_eq_some_iff.mp hjar
    refine ⟨c, hc, hsubject, fun hle => ?_⟩
    rw [verify, if_neg (by omega), hsubject]

theorem setCookies_subject {jar : Option Claims} {headers : List SetCookie}
    (hjar : jar.map Claims.subject = user) (h : ∀ header ∈ headers, header.map Claims.subject = user) :
    (setCookies jar headers).map Claims.subject = user := by
  induction headers generalizing jar with
  | nil => exact hjar
  | cons header headers ih =>
    exact ih (h header List.mem_cons_self) fun h' hmem => h h' (List.mem_cons_of_mem header hmem)

/-- A calm request is answered with a cookie of the user who is signed in, or none. -/
theorem InFlight.Calm.subject_headers {m : InFlight} (h : m.Calm user) {time : ℕ}
    {header : SetCookie} (hmem : header ∈ serve time m.cookie m.call) :
    header.map Claims.subject = user := by
  rw [h.1] at hmem
  simp only [serve, requireSession] at hmem
  split at hmem
  · rename_i newToken hrenew
    obtain ⟨c, hcookie, hrenew⟩ := Option.bind_eq_some_iff.mp hrenew
    rw [List.mem_singleton.mp hmem, h.2 c hcookie, ← subject_renew hrenew]
    rfl
  · exact absurd hmem List.not_mem_nil

theorem follows_step (hn : Numbered browser) (h : Follows browser user) {e : Event}
    (hordinary : e.Ordinary) : Follows (step browser e) user := by
  cases e with
  | wait milliseconds => exact ⟨h.wanted, h.jar, h.calm⟩
  | send call =>
    have hnone : call.wanted = none := hordinary
    refine ⟨?_, h.jar, fun m hm => ?_⟩
    · simp only [step, Browser.send, hnone, Option.none_or]
      exact h.wanted
    · rcases List.mem_append.mp hm with hm | hm
      · exact h.calm m hm
      · rw [List.mem_singleton.mp hm]
        refine ⟨?_, fun c hc => ?_⟩
        · cases call with
          | request => rfl
          | login username => exact absurd hnone (by simp [Call.wanted])
          | logout => exact absurd hnone (by simp [Call.wanted])
        · have hcookie : browser.jar = some c := hc
          rw [← h.jar, hcookie]
          rfl
  | serve index =>
    simp only [step]
    split
    · rename_i call cookie number hget
      refine ⟨h.wanted, h.jar, fun m hm => ?_⟩
      rcases mem_set_response hget hm with hm | ⟨rfl, hold⟩
      · exact h.calm m hm
      · have hcalm := h.calm _ hold
        exact hcalm
    · exact h
  | process index =>
    simp only [step]
    split
    · rename_i call cookie headers number hget
      have hmem := List.mem_of_getElem? hget
      obtain ⟨time, hgenuine⟩ := hn.genuine _ hmem headers rfl
      refine ⟨h.wanted, ?_, fun m hm => h.calm m (List.mem_of_mem_eraseIdx hm)⟩
      refine setCookies_subject h.jar fun header hheader => ?_
      rw [hgenuine] at hheader
      exact (h.calm _ hmem).subject_headers hheader
    · exact h

/-- What a login or a logout that is carried out leaves in the browser. -/
theorem setCookies_serve {call : Call} (hcall : call.wanted = some user) {time : ℕ}
    {cookie : Option Claims} (hcarried : serve time cookie call ≠ []) (jar : Option Claims) :
    (setCookies jar (serve time cookie call)).map Claims.subject = user := by
  cases call with
  | request => exact absurd hcall (by simp [Call.wanted])
  | login username => exact Option.some.inj hcall
  | logout =>
    simp only [serve, requireSession] at hcarried ⊢
    split at hcarried
    · exact Option.some.inj hcall
    · exact absurd rfl hcarried

theorem follows_of_inTurn (hn : Numbered browser) {index : ℕ} (h : InTurn browser index) :
    ∃ user, Follows (step browser (.process index)) user := by
  obtain ⟨⟨call, cookie, response, number⟩, user, headers, hget, hcall, hlast, rfl, hcarried, hcalm⟩ :=
    h
  have hmem := List.mem_of_getElem? hget
  obtain ⟨time, hgenuine⟩ := hn.genuine _ hmem headers rfl
  refine ⟨user, ?_⟩
  simp only [step, hget]
  refine ⟨hn.latest _ hmem hlast user hcall, ?_, hcalm⟩
  rw [hgenuine] at hcarried ⊢
  exact setCookies_serve hcall hcarried _

end Follows

/-- Once the last login or logout is answered in its turn, the session cookie
agrees with it ever after, whatever is requested and answered meanwhile. -/
theorem agrees_of_inTurn {es fs : List Event} {index : ℕ}
    (hturn : InTurn (es.foldl step .initial) index) (hordinary : ∀ e ∈ fs, e.Ordinary) :
    ∀ t ∈ trail step (step (es.foldl step .initial) (.process index)) fs, t.Agrees := by
  have hn := numbered_run es
  obtain ⟨user, hfollows⟩ := follows_of_inTurn hn hturn
  intro t ht
  have hguarded : Guarded step (fun _ e => e.Ordinary)
      (step (es.foldl step .initial) (.process index)) fs :=
    guarded_of_forall (fun e he _ => hordinary e he) _
  have hstep : ∀ browser (e : Event), Numbered browser ∧ Follows browser user → e.Ordinary →
      Numbered (step browser e) ∧ Follows (step browser e) user :=
    fun browser e h hok => ⟨numbered_step browser e h.1, follows_step h.1 h.2 hok⟩
  exact (forall_trail_of_guarded hstep ⟨numbered_step _ _ hn, hfollows⟩ hguarded t ht).2.agrees

/-- One user after another signs in, with requests between and after. -/
def signedInTwice : List Event :=
  [.send (.login "alice"), .serve 0, .process 0, .send .request, .serve 0, .process 0,
    .send .logout, .serve 0, .process 0, .send (.login "bob"), .serve 0]

theorem signedInTwice_agrees :
    let last := [Event.send .request, .wait 1000, .serve 0, .process 0].foldl step
      (step (signedInTwice.foldl step .initial) (.process 0))
    last.inFlight = [] ∧ last.jar.map Claims.subject = some "bob" ∧ last.Agrees := by
  intro last
  have hturn : InTurn (signedInTwice.foldl step .initial) 0 := by
    refine ⟨⟨.login "bob", none, some [some ⟨"bob", 0, sessionTTL⟩], 3⟩, some "bob", _,
      by decide, rfl, rfl, rfl, by decide, fun m hm => ?_⟩
    have hnil : (signedInTwice.foldl step .initial).inFlight.eraseIdx 0 = [] := by decide
    rw [hnil] at hm
    exact absurd hm List.not_mem_nil
  have hordinary : ∀ e ∈ [Event.send .request, .wait 1000, .serve 0, .process 0], e.Ordinary := by
    intro e he
    simp only [List.mem_cons, List.not_mem_nil, or_false] at he
    rcases he with rfl | rfl | rfl | rfl
    · rfl
    · trivial
    · trivial
    · trivial
  exact ⟨by decide, by decide, agrees_of_inTurn hturn hordinary last (foldl_mem_trail _ _)⟩

/-- The answer to a request sent before the logout arrives after the logout's. -/
def renewedLate : List Event :=
  [.send (.login "alice"), .serve 0, .process 0, .send .request, .send .logout, .serve 0, .serve 1,
    .process 1, .process 0]

theorem renewedLate_stays_signed_in :
    let last := renewedLate.foldl step .initial
    last.inFlight = [] ∧ last.wanted = some none ∧
      last.jar.bind (verify last.now) = some "alice" ∧ ¬ last.Agrees := by
  intro last
  have hverify : last.jar.bind (verify last.now) = some "alice" := by decide
  refine ⟨by decide, by decide, hverify, fun hagrees => ?_⟩
  obtain ⟨c, hjar, hvalid⟩ := Option.bind_eq_some_iff.mp hverify
  have hnone : verify last.now c = none := hagrees c hjar
  rw [hnone] at hvalid
  exact absurd hvalid (by decide)

end VyosClient.SessionCookies
