import VyosClient.SessionStore

/-!
What responses do to the session of a tab when they come late. A request takes
the generation of the session along when it is sent, and a 401 counts only for
the generation it was sent under; what comes of the probe that checks for a
session, and of a logout, looks at no generation. Whether a request was sent
before the latest login is counted here beside the program's state.
-/

namespace VyosClient.SessionRaces

open SessionStore Runs

inductive Call
  | request
  | checkSession
  | login
  | logout
  deriving DecidableEq, Repr

inductive Response
  | success (user : String)
  | unauthorized
  | failure
  deriving DecidableEq, Repr

/-- A call on its way: `generation` is what `apiRequest` captured, `logins` how
many logins had succeeded when it was sent. -/
structure InFlight where
  call : Call
  generation : ℕ
  logins : ℕ
  deriving DecidableEq, Repr

structure Client where
  tab : Tab
  inFlight : List InFlight
  logins : ℕ

def Client.initial : Client := ⟨.initial, [], 0⟩

inductive Event
  | send (call : Call)
  | answer (index : ℕ) (response : Response)

/-- The 401 of a login or a probe does not reach `handleUnauthorized`; that of a logout does, before
the `finally` that every logout ends with. -/
def process (tab : Tab) (sent : InFlight) : Response → Tab
  | .success user =>
      match sent.call with
      | .request => tab
      | .checkSession => tab.checkSession (some user)
      | .login => tab.login user
      | .logout => tab.logout
  | .unauthorized =>
      match sent.call with
      | .request => tab.handleUnauthorized sent.generation
      | .checkSession => tab.checkSession none
      | .login => tab
      | .logout => (tab.handleUnauthorized sent.generation).logout
  | .failure =>
      match sent.call with
      | .request => tab
      | .checkSession => tab.checkSession none
      | .login => tab
      | .logout => tab.logout

/-- Whether a response makes a login succeed. -/
def logsIn (sent : InFlight) : Response → Bool
  | .success _ => sent.call = .login
  | _ => false

def step (client : Client) : Event → Client
  | .send call =>
      { client with
        inFlight := client.inFlight ++ [⟨call, client.tab.session.generation, client.logins⟩] }
  | .answer index response =>
      match client.inFlight[index]? with
      | none => client
      | some sent =>
          { tab := process client.tab sent response
            inFlight := client.inFlight.eraseIdx index
            logins := if logsIn sent response then client.logins + 1 else client.logins }

/-- The event is the answer to `sent`, which was sent before the latest login. -/
def AnswersStale (client : Client) (e : Event) (sent : InFlight) (response : Response) : Prop :=
  ∃ index, e = .answer index response ∧ client.inFlight[index]? = some sent ∧
    sent.logins < client.logins

/-- A stale response neither makes the session anonymous nor clears its user. -/
def KeepsSession (client : Client) (e : Event) : Prop :=
  ∀ sent response, AnswersStale client e sent response →
    ((step client e).tab.session.status = .anonymous → client.tab.session.status = .anonymous) ∧
      ((step client e).tab.session.user = none → client.tab.session.user = none)

/-- The responses that are acted upon whatever the generation: a probe that fails, and every
response to a logout. -/
def Ends : Call → Response → Prop
  | .checkSession, .unauthorized => True
  | .checkSession, .failure => True
  | .logout, _ => True
  | _, _ => False

/-- While there is a session, no stale probe fails and no stale logout is answered. -/
def NoStaleEnd (client : Client) (e : Event) : Prop :=
  ∀ sent response, AnswersStale client e sent response →
    client.tab.session.status = .authenticated → ¬ Ends sent.call response

/-- What every run keeps: nothing on its way is ahead of the session, what is
stale is behind it, and a session has a user. -/
structure Ordered (client : Client) : Prop where
  sent : ∀ m ∈ client.inFlight, m.generation ≤ client.tab.session.generation ∧
    m.logins ≤ client.logins
  stale : ∀ m ∈ client.inFlight, m.logins < client.logins →
    m.generation < client.tab.session.generation
  user : client.tab.session.status = .authenticated ↔ client.tab.session.user ≠ none
  known : 0 < client.logins → client.tab.session.status ≠ .unknown

theorem ordered_initial : Ordered .initial where
  sent m hm := absurd hm List.not_mem_nil
  stale m hm := absurd hm List.not_mem_nil
  user := by decide
  known h := absurd h (Nat.lt_irrefl 0)

theorem Ordered.send {client : Client} (h : Ordered client) (call : Call) :
    Ordered (step client (.send call)) where
  sent m hm := by
    rcases List.mem_append.mp hm with hm | hm
    · exact h.sent m hm
    · rw [List.mem_singleton.mp hm]
      exact ⟨Nat.le_refl _, Nat.le_refl _⟩
  stale m hm hlt := by
    rcases List.mem_append.mp hm with hm | hm
    · exact h.stale m hm hlt
    · rw [List.mem_singleton.mp hm] at hlt
      exact absurd hlt (Nat.lt_irrefl _)
  user := h.user
  known := h.known

/-- A response that starts no session leaves the generation. -/
theorem Ordered.keep {client : Client} (h : Ordered client) {index : ℕ} {tab : Tab}
    (hgen : client.tab.session.generation ≤ tab.session.generation)
    (huser : tab.session.status = .authenticated ↔ tab.session.user ≠ none)
    (hknown : client.tab.session.status ≠ .unknown → tab.session.status ≠ .unknown) :
    Ordered ⟨tab, client.inFlight.eraseIdx index, client.logins⟩ where
  sent m hm := by
    have hsent := h.sent m (List.mem_of_mem_eraseIdx hm)
    exact ⟨hsent.1.trans hgen, hsent.2⟩
  stale m hm hlt := (h.stale m (List.mem_of_mem_eraseIdx hm) hlt).trans_le hgen
  user := huser
  known hpos := hknown (h.known hpos)

theorem Ordered.login {client : Client} (h : Ordered client) (index : ℕ) (user : String) :
    Ordered ⟨client.tab.login user, client.inFlight.eraseIdx index, client.logins + 1⟩ where
  sent m hm := by
    have hsent := h.sent m (List.mem_of_mem_eraseIdx hm)
    exact ⟨Nat.le_succ_of_le hsent.1, Nat.le_succ_of_le hsent.2⟩
  stale m hm _ := Nat.lt_succ_of_le (h.sent m (List.mem_of_mem_eraseIdx hm)).1
  user := by simp [Tab.login]
  known _ := by simp [Tab.login]

theorem Ordered.checkSession {client : Client} (h : Ordered client) (index : ℕ)
    (response : Option String) :
    Ordered ⟨client.tab.checkSession response, client.inFlight.eraseIdx index, client.logins⟩ := by
  cases response with
  | some user =>
    refine h.keep ?_ ?_ ?_
    · exact Nat.le_succ _
    · simp [Tab.checkSession]
    · simp [Tab.checkSession]
  | none =>
    refine h.keep ?_ ?_ ?_
    · exact Nat.le_refl _
    · simp [Tab.checkSession]
    · simp [Tab.checkSession]

theorem generation_handleUnauthorized (tab : Tab) (requestGeneration : ℕ) :
    (tab.handleUnauthorized requestGeneration).session.generation = tab.session.generation := by
  unfold Tab.handleUnauthorized
  split_ifs <;> rfl

theorem Ordered.handleUnauthorized {client : Client} (h : Ordered client) (index : ℕ)
    (requestGeneration : ℕ) :
    Ordered ⟨client.tab.handleUnauthorized requestGeneration, client.inFlight.eraseIdx index,
      client.logins⟩ := by
  unfold Tab.handleUnauthorized
  split_ifs
  · exact h.keep (Nat.le_refl _) h.user id
  · refine h.keep (Nat.le_refl _) ?_ ?_
    · simp
    · simp

/-- Whatever the answer to a logout did to the tab before its `finally`. -/
theorem Ordered.logout {client : Client} (h : Ordered client) (index : ℕ) {tab : Tab}
    (hgen : client.tab.session.generation ≤ tab.session.generation) :
    Ordered ⟨tab.logout, client.inFlight.eraseIdx index, client.logins⟩ := by
  refine h.keep hgen ?_ ?_
  · simp [Tab.logout]
  · simp [Tab.logout]

theorem step_answer_none {client : Client} {index : ℕ} (h : client.inFlight[index]? = none)
    (response : Response) : step client (.answer index response) = client := by
  simp only [step, h]

theorem step_answer {client : Client} {index : ℕ} {sent : InFlight}
    (h : client.inFlight[index]? = some sent) (response : Response) :
    step client (.answer index response) =
      ⟨process client.tab sent response, client.inFlight.eraseIdx index,
        if logsIn sent response then client.logins + 1 else client.logins⟩ := by
  simp only [step, h]

theorem ordered_step (client : Client) (e : Event) (h : Ordered client) :
    Ordered (step client e) := by
  cases e with
  | send call => exact h.send call
  | answer index response =>
    cases hsent : client.inFlight[index]? with
    | none =>
      rw [step_answer_none hsent]
      exact h
    | some sent =>
      rw [step_answer hsent]
      obtain ⟨call, generation, logins⟩ := sent
      cases response with
      | success user =>
        cases call with
        | request => exact h.keep (Nat.le_refl _) h.user id
        | checkSession => exact h.checkSession index (some user)
        | login => exact h.login index user
        | logout => exact h.logout index (Nat.le_refl _)
      | unauthorized =>
        cases call with
        | request => exact h.handleUnauthorized index generation
        | checkSession => exact h.checkSession index none
        | login => exact h.keep (Nat.le_refl _) h.user id
        | logout => exact h.logout index (generation_handleUnauthorized _ _).ge
      | failure =>
        cases call with
        | request => exact h.keep (Nat.le_refl _) h.user id
        | checkSession => exact h.checkSession index none
        | login => exact h.keep (Nat.le_refl _) h.user id
        | logout => exact h.logout index (Nat.le_refl _)

/-- A stale 401 is recognized by its generation. -/
theorem handleUnauthorized_stale {client : Client} (h : Ordered client) {sent : InFlight}
    (hsent : sent ∈ client.inFlight) (hstale : sent.logins < client.logins) :
    client.tab.handleUnauthorized sent.generation = client.tab := by
  have hlt := h.stale sent hsent hstale
  have hne : sent.generation ≠ client.tab.session.generation := by omega
  rw [Tab.handleUnauthorized, if_pos hne]

theorem AnswersStale.step_eq {client : Client} {e : Event} {sent : InFlight} {response : Response}
    (h : AnswersStale client e sent response) :
    (step client e).tab = process client.tab sent response := by
  obtain ⟨index, rfl, hsent, -⟩ := h
  rw [step_answer hsent]

theorem AnswersStale.mem {client : Client} {e : Event} {sent : InFlight} {response : Response}
    (h : AnswersStale client e sent response) : sent ∈ client.inFlight := by
  obtain ⟨index, -, hsent, -⟩ := h
  exact List.mem_of_getElem? hsent

theorem AnswersStale.lt {client : Client} {e : Event} {sent : InFlight} {response : Response}
    (h : AnswersStale client e sent response) : sent.logins < client.logins := by
  obtain ⟨-, -, -, hlt⟩ := h
  exact hlt

/-- Without a session there is nothing a response could take away. -/
theorem keeps_of_not_authenticated {client : Client} (h : Ordered client)
    (hlogins : 0 < client.logins) (hstatus : client.tab.session.status ≠ .authenticated) :
    client.tab.session.status = .anonymous ∧ client.tab.session.user = none := by
  refine ⟨?_, ?_⟩
  · cases hcases : client.tab.session.status with
    | unknown => exact absurd hcases (h.known hlogins)
    | authenticated => exact absurd hcases hstatus
    | anonymous => rfl
  · by_contra huser
    exact hstatus (h.user.mpr huser)

/-- On a session such a response leaves no session. -/
theorem anonymous_of_ends {tab : Tab} {sent : InFlight} {response : Response}
    (h : Ends sent.call response) : (process tab sent response).session.status = .anonymous := by
  obtain ⟨call, generation, logins⟩ := sent
  cases call with
  | request => cases h
  | login => cases h
  | checkSession =>
    cases response with
    | success user => cases h
    | unauthorized => rfl
    | failure => rfl
  | logout => cases response <;> rfl

theorem keepsSession_iff_noStaleEnd (client : Client) (e : Event) (h : Ordered client) :
    KeepsSession client e ↔ NoStaleEnd client e := by
  constructor
  · intro hkeeps sent response hstale hauth hends
    obtain ⟨hanonymous, -⟩ := hkeeps sent response hstale
    rw [hstale.step_eq, hauth] at hanonymous
    cases hanonymous (anonymous_of_ends hends)
  · intro hnone sent response hstale
    rw [hstale.step_eq]
    by_cases hauth : client.tab.session.status = .authenticated
    · have hends := hnone sent response hstale hauth
      have hignored := handleUnauthorized_stale h hstale.mem hstale.lt
      obtain ⟨call, generation, logins⟩ := sent
      cases call with
      | request => cases response <;> simp [process, hignored]
      | checkSession =>
        cases response with
        | success user => simp [process, Tab.checkSession]
        | unauthorized => exact absurd trivial hends
        | failure => exact absurd trivial hends
      | login => cases response <;> simp [process, Tab.login]
      | logout => exact absurd trivial hends
    · obtain ⟨hanonymous, huser⟩ :=
        keeps_of_not_authenticated h (Nat.zero_lt_of_lt hstale.lt) hauth
      exact ⟨fun _ => hanonymous, fun _ => huser⟩

/-- A run of the tab keeps its sessions through all stale responses exactly when
no stale probe fails on a session and no stale logout is answered on one: the 401
of any other request is told apart by its generation. -/
theorem guarded_keepsSession_iff (es : List Event) :
    Guarded step KeepsSession .initial es ↔ Guarded step NoStaleEnd .initial es :=
  guarded_congr ordered_step keepsSession_iff_noStaleEnd ordered_initial es

/-- The probe of the page load fails after the user has logged in. -/
def lateProbeRun : List Event :=
  [.send .checkSession, .send .login, .answer 1 (.success "alice"), .answer 0 .failure]

theorem lateProbeRun_logs_out : ¬ Guarded step KeepsSession .initial lateProbeRun := by
  intro h
  have hkeeps := h.2.2.2.1 ⟨.checkSession, 0, 0⟩ .failure ⟨0, rfl, by decide, by decide⟩
  exact absurd (hkeeps.1 (by decide)) (by decide)

/-- A slow logout is answered when the user, whose session expired meanwhile, has logged in again. -/
def lateLogoutRun : List Event :=
  [.send .login, .answer 0 (.success "alice"), .send .logout, .send .request,
    .answer 1 .unauthorized, .send .login, .answer 1 (.success "alice"), .answer 0 (.success "")]

example : ¬ Guarded step KeepsSession .initial lateLogoutRun := by
  intro h
  have hkeeps := h.2.2.2.2.2.2.2.1 ⟨.logout, 1, 1⟩ (.success "") ⟨0, rfl, by decide, by decide⟩
  exact absurd (hkeeps.1 (by decide)) (by decide)

end VyosClient.SessionRaces
