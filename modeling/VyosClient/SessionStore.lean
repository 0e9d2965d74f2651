import VyosClient.PendingChanges
import VyosClient.Runs

/-!
The session store of one browser tab beside its queue of pending changes. The
session lives in memory only, the queue also in `sessionStorage`, and only
`login` compares users. The tab remembers, for the statements only, who queued
which change and who authenticated last.
-/

namespace VyosClient.SessionStore

open Configure PendingChanges PendingChangesState Runs

inductive SessionStatus
  | unknown
  | authenticated
  | anonymous
  deriving DecidableEq, Repr

structure SessionState where
  user : Option String
  lastUser : Option String
  status : SessionStatus
  sessionExpired : Bool
  generation : ℕ
  deriving DecidableEq, Repr

def SessionState.initial : SessionState := ⟨none, none, .unknown, false, 0⟩

/-- `queuedBy` and `tabUser` are not part of the program's state. -/
structure Tab where
  session : SessionState
  pending : PendingChangesState
  queuedBy : ℕ → Option String
  tabUser : Option String

def Tab.initial : Tab := ⟨.initial, .empty, fun _ => none, none⟩

/-- What can happen in a tab, each when its response is processed. A refused
login changes nothing. -/
inductive Event
  | checkSession (response : Option String)
  | login (user : String)
  | logout
  | unauthorized (requestGeneration : ℕ)
  | queue (op : ConfigOp) (label : String)
  | reload

namespace Tab

def checkSession (tab : Tab) : Option String → Tab
  | some user =>
      { tab with
        session := { tab.session with
          user := some user
          lastUser := some user
          status := .authenticated
          generation := tab.session.generation + 1 }
        tabUser := some user }
  | none => { tab with session := { tab.session with user := none, status := .anonymous } }

def login (tab : Tab) (user : String) : Tab where
  session :=
    { user := some user
      lastUser := some user
      status := .authenticated
      sessionExpired := false
      generation := tab.session.generation + 1 }
  pending :=
    if tab.session.lastUser ≠ none ∧ tab.session.lastUser ≠ some user then tab.pending.clear
    else tab.pending
  queuedBy := tab.queuedBy
  tabUser := some user

def logout (tab : Tab) : Tab :=
  { tab with
    session := { tab.session with user := none, lastUser := none, status := .anonymous }
    pending := tab.pending.clear }

def handleUnauthorized (tab : Tab) (requestGeneration : ℕ) : Tab :=
  if requestGeneration ≠ tab.session.generation then tab
  else
    { tab with
      session := { tab.session with
        user := none
        status := .anonymous
        sessionExpired := tab.session.status = .authenticated } }

/-- The pages that queue changes are shown to an authenticated user only. -/
def queue (tab : Tab) (op : ConfigOp) (label : String) : Tab :=
  if tab.session.status ≠ .authenticated then tab
  else
    { tab with
      pending := tab.pending.add op label
      queuedBy := Function.update tab.queuedBy tab.pending.issued tab.session.user }

def reload (tab : Tab) : Tab :=
  { tab with
    session := .initial
    pending := tab.pending.rehydrated }

end Tab

def step (tab : Tab) : Event → Tab
  | .checkSession response => tab.checkSession response
  | .login user => tab.login user
  | .logout => tab.logout
  | .unauthorized requestGeneration => tab.handleUnauthorized requestGeneration
  | .queue op label => tab.queue op label
  | .reload => tab.reload

/-- Every change a user sees was queued by that user. -/
def OwnChanges (tab : Tab) : Prop :=
  tab.session.status = .authenticated → ∀ user, tab.session.user = some user →
    ∀ c ∈ tab.pending.changes, tab.queuedBy c.id = some user

/-- The queue is empty or `user` is the one who authenticated last in the tab. -/
def OwnTab (tab : Tab) (user : String) : Prop :=
  tab.pending.changes = [] ∨ tab.tabUser = some user

/-- Where nobody is remembered, and wherever nothing is compared, a session
must not start on someone else's tab. -/
def SafeStep (tab : Tab) : Event → Prop
  | .checkSession (some user) => OwnTab tab user
  | .login user => tab.session.lastUser = none → OwnTab tab user
  | _ => True

/-- What the safe steps keep: the whole queue belongs to the tab's user, who is
the remembered one and the authenticated one as far as there is one. -/
structure Consistent (tab : Tab) : Prop where
  queued : ∀ c ∈ tab.pending.changes, tab.queuedBy c.id = tab.tabUser
  unowned : tab.tabUser = none → tab.pending.changes = []
  remembered : tab.session.lastUser ≠ none → tab.session.lastUser = tab.tabUser
  authenticated : tab.session.status = .authenticated →
    tab.session.user = tab.tabUser ∧ tab.tabUser ≠ none

theorem Consistent.ownChanges {tab : Tab} (h : Consistent tab) : OwnChanges tab := by
  intro hauth user huser c hc
  rw [h.queued c hc, ← (h.authenticated hauth).1, huser]

theorem consistent_initial : Consistent .initial where
  queued c hc := absurd hc (by simp [Tab.initial, PendingChangesState.empty])
  unowned _ := rfl
  remembered h := absurd rfl h
  authenticated h := absurd h (by decide)

/-- Losing entries, and losing the session, keeps a tab consistent. -/
theorem Consistent.keep {tab : Tab} (h : Consistent tab) (p : PendingChange → Bool)
    {session : SessionState} (hlast : session.lastUser ≠ none →
      session.lastUser = tab.session.lastUser) (hstatus : session.status ≠ .authenticated) :
    Consistent { tab with session := session, pending := tab.pending.keep p } where
  queued c hc := h.queued c (List.mem_filter.mp hc).1
  unowned hnone := by
    simp only [PendingChangesState.keep, h.unowned hnone, List.filter_nil]
  remembered hne := by
    have heq := hlast hne
    exact heq.trans (h.remembered (heq ▸ hne))
  authenticated hauth := absurd hauth hstatus

/-- A session that starts for the owner of the queue takes the queue over. -/
theorem Consistent.start {tab : Tab} (h : Consistent tab) {user : String}
    (hown : OwnTab tab user) {session : SessionState} (huser : session.user = some user)
    (hlast : session.lastUser = some user) :
    Consistent { tab with session := session, tabUser := some user } where
  queued c hc := by
    rcases hown with hnil | hsame
    · exact absurd hc (by simp [hnil])
    · exact (h.queued c hc).trans hsame
  unowned hnone := absurd hnone (by simp)
  remembered _ := hlast
  authenticated _ := ⟨huser, by simp⟩

theorem consistent_checkSession {tab : Tab} (h : Consistent tab) {response : Option String}
    (hsafe : SafeStep tab (.checkSession response)) : Consistent (tab.checkSession response) := by
  cases response with
  | some user => exact h.start hsafe rfl rfl
  | none =>
    refine ⟨h.queued, h.unowned, h.remembered, fun hauth => ?_⟩
    exact absurd hauth (by simp [Tab.checkSession])

theorem consistent_login {tab : Tab} (h : Consistent tab) {user : String}
    (hsafe : SafeStep tab (.login user)) : Consistent (tab.login user) := by
  unfold Tab.login
  split_ifs with hother
  · have hempty : tab.pending.clear.changes = [] := by simp [PendingChangesState.clear,
      PendingChangesState.keep]
    refine ⟨fun c hc => ?_, fun hnone => absurd hnone (by simp), fun _ => rfl,
      fun _ => ⟨rfl, by simp⟩⟩
    exact absurd hc (by simp [hempty])
  · have hown : OwnTab tab user := by
      by_cases hnone : tab.session.lastUser = none
      · exact hsafe hnone
      · have hsame : tab.session.lastUser = some user := by
          by_contra hne
          exact hother ⟨hnone, hne⟩
        exact Or.inr ((h.remembered hnone).symm.trans hsame)
    exact h.start hown rfl rfl

theorem consistent_handleUnauthorized {tab : Tab} (h : Consistent tab) (requestGeneration : ℕ) :
    Consistent (tab.handleUnauthorized requestGeneration) := by
  unfold Tab.handleUnauthorized
  split_ifs with hgen
  · exact h
  · exact ⟨h.queued, h.unowned, h.remembered, fun hauth => absurd hauth (by simp)⟩

theorem consistent_queue {tab : Tab} (h : Consistent tab) (op : ConfigOp) (label : String) :
    Consistent (tab.queue op label) := by
  unfold Tab.queue
  split_ifs with hstatus
  · exact h
  · have hauth : tab.session.status = .authenticated := by simpa using hstatus
    obtain ⟨huser, howned⟩ := h.authenticated hauth
    refine ⟨fun c hc => ?_, fun hnone => absurd hnone howned, h.remembered, h.authenticated⟩
    have hmem := (addTo_sublist _ _).subset hc
    rcases List.mem_append.mp hmem with hold | hnew
    · have hlt := tab.pending.fresh c hold
      have hne : c.id ≠ tab.pending.issued := by omega
      simpa only [Function.update_of_ne hne] using h.queued c hold
    · rw [List.mem_singleton.mp hnew]
      simpa only [Function.update_self] using huser

/-- A safe step keeps the tab consistent. -/
theorem consistent_step {tab : Tab} {e : Event} (h : Consistent tab) (hsafe : SafeStep tab e) :
    Consistent (step tab e) := by
  cases e with
  | checkSession response => exact consistent_checkSession h hsafe
  | login user => exact consistent_login h hsafe
  | logout => exact h.keep _ (fun hne => absurd rfl hne) (by simp)
  | unauthorized requestGeneration => exact consistent_handleUnauthorized h requestGeneration
  | queue op label => exact consistent_queue h op label
  | reload => exact h.keep _ (fun hne => absurd rfl hne) (by decide)

/-- After a session of someone else has started on it, the queue shows. -/
theorem not_ownChanges_start {tab next : Tab} (h : Consistent tab) {user : String}
    (hown : ¬ OwnTab tab user) (hauth : next.session.status = .authenticated)
    (huser : next.session.user = some user) (hpending : next.pending = tab.pending)
    (hqueued : next.queuedBy = tab.queuedBy) : ¬ OwnChanges next := by
  intro hall
  obtain ⟨hne, hother⟩ := not_or.mp hown
  obtain ⟨c, hc⟩ := List.exists_mem_of_ne_nil _ hne
  have hshown := hall hauth user huser c (hpending ▸ hc)
  rw [hqueued, h.queued c hc] at hshown
  exact hother hshown

theorem not_ownChanges_step {tab : Tab} {e : Event} (h : Consistent tab)
    (hnotSafe : ¬ SafeStep tab e) : ¬ OwnChanges (step tab e) := by
  cases e with
  | checkSession response =>
    cases response with
    | none => exact absurd trivial hnotSafe
    | some user => exact not_ownChanges_start h hnotSafe rfl rfl rfl rfl
  | login user =>
    obtain ⟨hnone, hown⟩ := Classical.not_imp.mp hnotSafe
    refine not_ownChanges_start h hown rfl rfl ?_ rfl
    simp only [step, Tab.login, hnone, ne_eq, not_true_eq_false, false_and, ↓reduceIte]
  | logout => exact absurd trivial hnotSafe
  | unauthorized requestGeneration => exact absurd trivial hnotSafe
  | queue op label => exact absurd trivial hnotSafe
  | reload => exact absurd trivial hnotSafe

/-- In a run of the tab a user sees only their own changes, in every state,
exactly when no session starts unremembered or unchecked on the queue of
someone else. -/
theorem ownChanges_iff_safeSteps (es : List Event) :
    (∀ tab ∈ trail step Tab.initial es, OwnChanges tab) ↔
      Guarded step SafeStep Tab.initial es :=
  (guarded_iff_forall_trail (fun _ _ h hsafe => consistent_step h hsafe)
    (fun _ h => h.ownChanges) (fun _ _ h hnotSafe => not_ownChanges_step h hnotSafe)
    consistent_initial es).symm

/-- Alice's session expires, the page is reloaded and Bob logs in. -/
def expiredRun : List Event :=
  [.login "alice", .queue ⟨.set, ["system", "host-name"], some "edge"⟩ "host name",
    .unauthorized 1, .reload, .checkSession none, .login "bob"]

theorem expiredRun_crosses :
    ¬ ∀ tab ∈ trail step Tab.initial expiredRun, OwnChanges tab := by
  intro hall
  have hlast := hall (expiredRun.foldl step Tab.initial) (by simp [trail, expiredRun])
  have hqueued := hlast (by decide +kernel) "bob" (by decide)
    ⟨0, ⟨.set, ["system", "host-name"], some "edge"⟩, "host name"⟩ (by decide +kernel)
  exact absurd hqueued (by decide +kernel)

end VyosClient.SessionStore
