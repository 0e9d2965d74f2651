import VyosClient.SessionStore

/-!
The notice that the session expired. `handleUnauthorized` computes it anew from
the status on every 401 of the active generation. Whether such a 401 ended a
session since the latest login is counted here beside the program's state.
-/

namespace VyosClient.ExpiryNotice

open SessionStore Runs

structure Watched where
  tab : Tab
  expired : Bool

def Watched.initial : Watched := ⟨.initial, false⟩

/-- A 401 of the active generation, which is the only one acted upon. -/
def Counts (tab : Tab) : Event → Prop
  | .unauthorized requestGeneration => requestGeneration = tab.session.generation
  | _ => False

instance (tab : Tab) (e : Event) : Decidable (Counts tab e) := by
  unfold Counts
  split <;> infer_instance

/-- A page load begins a run of its own. -/
def Begins : Event → Bool
  | .login _ => true
  | .reload => true
  | _ => false

def watch (w : Watched) (e : Event) : Watched where
  tab := step w.tab e
  expired :=
    if Begins e then false
    else w.expired ∨ (Counts w.tab e ∧ w.tab.session.status = .authenticated)

/-- The notice stands from the expiry to the next login. -/
def NoticeStands (w : Watched) : Prop := w.expired → w.tab.session.sessionExpired = true

/-- No second 401 of the active generation while the notice shows and there is
no session. -/
def FirstOnly (w : Watched) (e : Event) : Prop :=
  w.expired → Counts w.tab e → w.tab.session.status = .authenticated

/-- Only a 401 that counts, a login and a reload touch the notice. -/
theorem sessionExpired_step {tab : Tab} {e : Event} (hcounts : ¬ Counts tab e)
    (hbegins : Begins e = false) :
    (step tab e).session.sessionExpired = tab.session.sessionExpired := by
  cases e with
  | checkSession response => cases response <;> rfl
  | login user => exact absurd hbegins (by simp [Begins])
  | logout => rfl
  | unauthorized requestGeneration =>
    have hother : requestGeneration ≠ tab.session.generation := hcounts
    simp only [step, Tab.handleUnauthorized, if_pos hother]
  | queue op label =>
    simp only [step, Tab.queue]
    split_ifs <;> rfl
  | reload => exact absurd hbegins (by simp [Begins])

/-- A 401 that counts sets the notice to what the status was. -/
theorem sessionExpired_counts {tab : Tab} {e : Event} (hcounts : Counts tab e) :
    (step tab e).session.sessionExpired = decide (tab.session.status = .authenticated) := by
  cases e with
  | unauthorized requestGeneration =>
    have hsame : requestGeneration = tab.session.generation := hcounts
    simp only [step, Tab.handleUnauthorized, if_neg (not_not_intro hsame)]
  | checkSession response => exact absurd hcounts id
  | login user => exact absurd hcounts id
  | logout => exact absurd hcounts id
  | queue op label => exact absurd hcounts id
  | reload => exact absurd hcounts id

theorem begins_of_counts {tab : Tab} {e : Event} (hcounts : Counts tab e) : Begins e = false := by
  cases e with
  | unauthorized requestGeneration => rfl
  | checkSession response => rfl
  | login user => exact absurd hcounts id
  | logout => rfl
  | queue op label => rfl
  | reload => exact absurd hcounts id

theorem noticeStands_watch (w : Watched) (e : Event) (h : NoticeStands w) (hfirst : FirstOnly w e) :
    NoticeStands (watch w e) := by
  intro hexpired
  cases hbegins : Begins e with
  | true => simp [watch, hbegins] at hexpired
  | false =>
    have hcases : w.expired ∨ (Counts w.tab e ∧ w.tab.session.status = .authenticated) := by
      simpa [watch, hbegins] using hexpired
    show (step w.tab e).session.sessionExpired = true
    by_cases hcounts : Counts w.tab e
    · rw [sessionExpired_counts hcounts]
      rcases hcases with hbefore | ⟨-, hauth⟩
      · exact decide_eq_true (hfirst hbefore hcounts)
      · exact decide_eq_true hauth
    · rw [sessionExpired_step hcounts hbegins]
      rcases hcases with hbefore | ⟨hnow, -⟩
      · exact h hbefore
      · exact absurd hnow hcounts

/-- A second such 401 takes the notice away. -/
theorem not_noticeStands_watch (w : Watched) (e : Event) (hnot : ¬ FirstOnly w e) :
    ¬ NoticeStands (watch w e) := by
  intro hstands
  obtain ⟨hexpired, hrest⟩ := Classical.not_imp.mp hnot
  obtain ⟨hcounts, hauth⟩ := Classical.not_imp.mp hrest
  have hstill : (watch w e).expired = true := by
    simp [watch, begins_of_counts hcounts, hexpired]
  have hnotice : (step w.tab e).session.sessionExpired = true := hstands hstill
  rw [sessionExpired_counts hcounts] at hnotice
  exact hauth (of_decide_eq_true hnotice)

/-- The notice stands in every state of a run exactly when no 401 of the active
generation follows the one that ended the session. -/
theorem noticeStands_iff_firstOnly (es : List Event) :
    (∀ w ∈ trail watch Watched.initial es, NoticeStands w) ↔
      Guarded watch FirstOnly Watched.initial es :=
  (guarded_iff_forall_trail noticeStands_watch (fun _ h => h)
    (fun w e _ hnot => not_noticeStands_watch w e hnot)
    (fun h => absurd h (by decide)) es).symm

/-- Two requests of one page come back with a 401. -/
def twoRequestsRun : List Event := [.login "alice", .unauthorized 1, .unauthorized 1]

theorem twoRequestsRun_loses_notice :
    ¬ ∀ w ∈ trail watch Watched.initial twoRequestsRun, NoticeStands w := by
  intro hall
  have hlast := hall (twoRequestsRun.foldl watch Watched.initial) (by simp [trail, twoRequestsRun])
  exact absurd (hlast (by decide)) (by decide)

end VyosClient.ExpiryNotice
