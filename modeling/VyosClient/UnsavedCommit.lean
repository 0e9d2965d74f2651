import Mathlib.Logic.Function.Basic
import VyosClient.PendingChanges

/-!
The changes that are committed but not saved, as the bar and the sections of
the Power page record them. Each component waits for its own request only, so
requests of several components overlap; VyOS serves them in one order, and the
answers may arrive in another. What VyOS kept and saved is followed beside the
store.
-/

namespace VyosClient.UnsavedCommit

open PendingChanges Runs

/-- A section of the Power page starts anew at each visit. -/
inductive Origin
  | bar
  | saveSection (visit : ℕ)
  | rollbackSection (visit : ℕ)
  deriving DecidableEq, Repr

/-- What an open commit-confirm window was started for. -/
inductive Window
  | commit (pendingCommitChanges : List PendingChange) (saveAfterConfirm : Bool)
  | rollback
  deriving DecidableEq, Repr

/-- A request, with what its handler captured when it was clicked. -/
inductive Action
  | commit (committing : List PendingChange) (alsoSave : Bool)
  | save
  | rollback
  | keep (window : Window)
  deriving DecidableEq, Repr

/-- `opened` is an answer with `pendingConfirm`. -/
inductive Answer
  | refused
  | done
  | opened
  deriving DecidableEq, Repr

/-- A request under way, answered once VyOS has served it. -/
structure Call where
  action : Action
  answer : Option Answer
  deriving DecidableEq, Repr

structure Part where
  call : Option Call
  window : Option Window
  deriving DecidableEq, Repr

/-- A change of the configuration that VyOS reverts unless it is confirmed. -/
inductive Unconfirmed
  | commit (time : ℕ) (changes : List PendingChange)
  | rollback (time : ℕ)
  deriving DecidableEq, Repr

/-- What VyOS has done: the commits it kept, with the time it applied them, and
the time of the last save or kept rollback. -/
structure Router where
  served : ℕ
  saved : ℕ
  kept : List (ℕ × List PendingChange)
  unconfirmed : List Unconfirmed
  deriving DecidableEq, Repr

structure System where
  parts : Origin → Part
  committedChanges : List PendingChange
  router : Router

def System.mounted : System := ⟨fun _ => ⟨none, none⟩, [], ⟨0, 0, [], []⟩⟩

inductive Event
  | click (o : Origin) (action : Action)
  | serve (o : Origin) (answer : Answer)
  | answer (o : Origin)
  | expire (o : Origin)
  | revert

/-- Which requests a component offers while its window is open or not. -/
def offers : Origin → Option Window → Action → Bool
  | .bar, none, .commit _ _ => true
  | .bar, none, .save => true
  | .bar, none, .rollback => true
  | .saveSection _, _, .save => true
  | .rollbackSection _, none, .rollback => true
  | .bar, some open', .keep window => window = open'
  | .rollbackSection _, some open', .keep window => window = open'
  | _, _, _ => false

/-- A window that is kept after a failed attempt is not saved any more. -/
def Window.failedKeep : Window → Window
  | .commit pendingCommitChanges _ => .commit pendingCommitChanges false
  | .rollback => .rollback

def chained (alsoSave : Bool) : Option Call := if alsoSave then some ⟨.save, none⟩ else none

/-- `runCommit`, `handleKeep`, `handleSave` and `handleRollback` from the answer on:
the part they belong to and the committed changes. -/
def answered (part : Part) (committedChanges : List PendingChange) :
    Action → Answer → Part × List PendingChange
  | .commit committing alsoSave, .done =>
      (⟨chained alsoSave, part.window⟩, committedChanges ++ committing)
  | .commit committing alsoSave, .opened =>
      (⟨none, some (.commit committing alsoSave)⟩, committedChanges)
  | .save, .done => (⟨none, part.window⟩, [])
  | .rollback, .done => (⟨none, part.window⟩, [])
  | .rollback, .opened => (⟨none, some .rollback⟩, committedChanges)
  | .keep (.commit pendingCommitChanges saveAfterConfirm), .done =>
      (⟨chained saveAfterConfirm, none⟩, committedChanges ++ pendingCommitChanges)
  | .keep .rollback, .done => (⟨none, none⟩, [])
  | .keep _, _ => (⟨none, part.window.map Window.failedKeep⟩, committedChanges)
  | _, _ => (⟨none, part.window⟩, committedChanges)

def Unconfirmed.commit? : Unconfirmed → Option (ℕ × List PendingChange)
  | .commit time changes => some (time, changes)
  | .rollback _ => none

/-- Of what a confirm keeps, the rollbacks count as saved. -/
def lastRollback : ℕ → List Unconfirmed → ℕ
  | saved, [] => saved
  | saved, .commit _ _ :: rest => lastRollback saved rest
  | saved, .rollback time :: rest => lastRollback (max saved time) rest

/-- VyOS has one window for everything that is not confirmed yet. -/
def Router.serve (router : Router) : Action → Answer → Router
  | .commit committing _, .done =>
      { router with
        served := router.served + 1
        kept := router.kept ++ [(router.served + 1, committing)] }
  | .commit committing _, .opened =>
      { router with
        served := router.served + 1
        unconfirmed := router.unconfirmed ++ [.commit (router.served + 1) committing] }
  | .rollback, .opened =>
      { router with
        served := router.served + 1
        unconfirmed := router.unconfirmed ++ [.rollback (router.served + 1)] }
  | .rollback, .done => { router with served := router.served + 1, saved := router.served + 1 }
  | .save, .done => { router with served := router.served + 1, saved := router.served + 1 }
  | .keep _, .done =>
      { router with
        served := router.served + 1
        saved := lastRollback router.saved router.unconfirmed
        kept := router.kept ++ router.unconfirmed.filterMap Unconfirmed.commit?
        unconfirmed := [] }
  | _, _ => { router with served := router.served + 1 }

def System.put (sys : System) (o : Origin) (part : Part) : System :=
  { sys with parts := Function.update sys.parts o part }

def step (sys : System) : Event → System
  | .click o action =>
      if (sys.parts o).call = none ∧ offers o (sys.parts o).window action then
        sys.put o ⟨some ⟨action, none⟩, (sys.parts o).window⟩
      else sys
  | .serve o answer =>
      match (sys.parts o).call with
      | some ⟨action, none⟩ =>
          { sys.put o ⟨some ⟨action, some answer⟩, (sys.parts o).window⟩ with
            router := sys.router.serve action answer }
      | _ => sys
  | .answer o =>
      match (sys.parts o).call with
      | some ⟨action, some answer⟩ =>
          let next := answered (sys.parts o) sys.committedChanges action answer
          { sys.put o next.1 with committedChanges := next.2 }
      | _ => sys
  | .expire o => sys.put o ⟨(sys.parts o).call, none⟩
  | .revert => { sys with router := { sys.router with unconfirmed := [] } }

/-- Every answer has been processed. -/
def System.Quiet (sys : System) : Prop := ∀ o, (sys.parts o).call = none

/-- What was kept since the last save or kept rollback is recorded as unsaved. -/
def System.Sound (sys : System) : Prop :=
  ∀ time changes, (time, changes) ∈ sys.router.kept → sys.router.saved < time →
    changes ⊆ sys.committedChanges

/-- The changes that processing the answer hands to `markCommitted`. -/
def Call.marks : Call → Option (List PendingChange)
  | ⟨.commit committing _, some .done⟩ => some committing
  | ⟨.keep (.commit pendingCommitChanges _), some .done⟩ => some pendingCommitChanges
  | _ => none

/-- Whether processing the answer calls `markSaved`. -/
def Call.clears : Call → Bool
  | ⟨.save, some .done⟩ => true
  | ⟨.rollback, some .done⟩ => true
  | ⟨.keep .rollback, some .done⟩ => true
  | _ => false

/-- The changes are still to be marked by a component. -/
def System.Awaits (sys : System) (changes : List PendingChange) : Prop :=
  ∃ o call, (sys.parts o).call = some call ∧ call.marks = some changes

/-- A confirm keeps only what the window it was clicked in is about, and the
list is cleared only while no commit newer than the last save has been marked. -/
def Timely (sys : System) : Event → Prop
  | .serve o .done => ∀ window, (sys.parts o).call = some ⟨.keep window, none⟩ →
      ∀ time changes, .commit time changes ∈ sys.router.unconfirmed →
        ∃ saveAfterConfirm, window = .commit changes saveAfterConfirm
  | .answer o => ∀ call, (sys.parts o).call = some call → call.clears = true →
      ∀ time changes, (time, changes) ∈ sys.router.kept → sys.router.saved < time →
        sys.Awaits changes
  | _ => True

/-- What every timely step keeps: nothing is saved later than it is served, and
what is kept and not saved is recorded, or about to be. -/
structure Recorded (sys : System) : Prop where
  saved : sys.router.saved ≤ sys.router.served
  rollback : ∀ time, .rollback time ∈ sys.router.unconfirmed → time ≤ sys.router.served
  covered : ∀ time changes, (time, changes) ∈ sys.router.kept → sys.router.saved < time →
    changes ⊆ sys.committedChanges ∨ sys.Awaits changes

theorem recorded_mounted : Recorded .mounted where
  saved := Nat.le_refl 0
  rollback _ h := absurd h List.not_mem_nil
  covered _ _ h := absurd h List.not_mem_nil

theorem Recorded.sound {sys : System} (h : Recorded sys) (hquiet : sys.Quiet) : sys.Sound := by
  intro time changes hmem hlt
  rcases h.covered time changes hmem hlt with hsub | ⟨o, call, hcall, _⟩
  · exact hsub
  · rw [hquiet o] at hcall
    exact absurd hcall (by simp)

section Serve

variable {router : Router}

theorem le_lastRollback (saved : ℕ) (unconfirmed : List Unconfirmed) :
    saved ≤ lastRollback saved unconfirmed := by
  induction unconfirmed generalizing saved with
  | nil => exact Nat.le_refl saved
  | cons u rest ih =>
    cases u with
    | commit time changes => exact ih saved
    | rollback time => exact (Nat.le_max_left saved time).trans (ih _)

theorem lastRollback_le {saved bound : ℕ} {unconfirmed : List Unconfirmed} (hsaved : saved ≤ bound)
    (h : ∀ time, .rollback time ∈ unconfirmed → time ≤ bound) :
    lastRollback saved unconfirmed ≤ bound := by
  induction unconfirmed generalizing saved with
  | nil => exact hsaved
  | cons u rest ih =>
    have hrest : ∀ time, .rollback time ∈ rest → time ≤ bound :=
      fun time hmem => h time (List.mem_cons_of_mem u hmem)
    cases u with
    | commit time changes => exact ih hsaved hrest
    | rollback time => exact ih (Nat.max_le.mpr ⟨hsaved, h time List.mem_cons_self⟩) hrest

/-- What VyOS keeps when it serves a request. -/
theorem mem_kept_serve {action : Action} {answer : Answer} {time : ℕ}
    {changes : List PendingChange} (h : (time, changes) ∈ (router.serve action answer).kept) :
    (time, changes) ∈ router.kept ∨ answer = .done ∧
      ((∃ alsoSave, action = .commit changes alsoSave) ∨
        ∃ window, action = .keep window ∧ .commit time changes ∈ router.unconfirmed) := by
  cases action with
  | commit committing alsoSave =>
    cases answer with
    | refused => exact Or.inl h
    | opened => exact Or.inl h
    | done =>
      rcases List.mem_append.mp h with h | h
      · exact Or.inl h
      · obtain ⟨_, rfl⟩ := Prod.mk.inj (List.mem_singleton.mp h)
        exact Or.inr ⟨rfl, Or.inl ⟨alsoSave, rfl⟩⟩
  | save => cases answer <;> exact Or.inl h
  | rollback => cases answer <;> exact Or.inl h
  | keep window =>
    cases answer with
    | refused => exact Or.inl h
    | opened => exact Or.inl h
    | done =>
      rcases List.mem_append.mp h with h | h
      · exact Or.inl h
      · obtain ⟨u, hu, hcommit⟩ := List.mem_filterMap.mp h
        cases u with
        | rollback _ => exact absurd hcommit (by simp [Unconfirmed.commit?])
        | commit time' changes' =>
          obtain ⟨rfl, rfl⟩ := Prod.mk.inj (Option.some.inj hcommit)
          exact Or.inr ⟨rfl, Or.inr ⟨window, rfl, hu⟩⟩

theorem saved_serve (hsaved : router.saved ≤ router.served)
    (hrollback : ∀ time, .rollback time ∈ router.unconfirmed → time ≤ router.served)
    (action : Action) (answer : Answer) :
    router.saved ≤ (router.serve action answer).saved ∧
      (router.serve action answer).saved ≤ (router.serve action answer).served ∧
      router.served ≤ (router.serve action answer).served := by
  have hsame : router.saved ≤ router.saved ∧ router.saved ≤ router.served + 1 ∧
      router.served ≤ router.served + 1 := by omega
  have hlatest : router.saved ≤ router.served + 1 ∧ router.served + 1 ≤ router.served + 1 ∧
      router.served ≤ router.served + 1 := by omega
  cases action with
  | commit committing alsoSave => cases answer <;> exact hsame
  | save => cases answer <;> first | exact hsame | exact hlatest
  | rollback => cases answer <;> first | exact hsame | exact hlatest
  | keep window =>
    cases answer with
    | refused => exact hsame
    | opened => exact hsame
    | done =>
      exact ⟨le_lastRollback _ _, Nat.le_succ_of_le (lastRollback_le hsaved hrollback),
        Nat.le_succ _⟩

theorem rollback_mem_serve {action : Action} {answer : Answer} {time : ℕ}
    (h : .rollback time ∈ (router.serve action answer).unconfirmed) :
    .rollback time ∈ router.unconfirmed ∨ time = router.served + 1 ∧
      (router.serve action answer).served = router.served + 1 := by
  cases action with
  | commit committing alsoSave =>
    cases answer with
    | opened => exact Or.inl (by simpa using List.mem_append.mp h)
    | refused => exact Or.inl h
    | done => exact Or.inl h
  | save => cases answer <;> exact Or.inl h
  | rollback =>
    cases answer with
    | opened =>
      rcases List.mem_append.mp h with h | h
      · exact Or.inl h
      · exact Or.inr ⟨Unconfirmed.rollback.inj (List.mem_singleton.mp h), rfl⟩
    | refused => exact Or.inl h
    | done => exact Or.inl h
  | keep window =>
    cases answer with
    | done => exact absurd h List.not_mem_nil
    | refused => exact Or.inl h
    | opened => exact Or.inl h

end Serve

/-- What the handlers hand to the store once they are answered. -/
theorem answered_snd (part : Part) (committedChanges : List PendingChange) (action : Action)
    (answer : Answer) :
    (answered part committedChanges action answer).2 =
      match Call.marks ⟨action, some answer⟩ with
      | some changes => committedChanges ++ changes
      | none => if Call.clears ⟨action, some answer⟩ then [] else committedChanges := by
  cases action with
  | commit committing alsoSave => cases answer <;> rfl
  | save => cases answer <;> rfl
  | rollback => cases answer <;> rfl
  | keep window => cases window <;> cases answer <;> rfl

section Step

variable {sys : System} {o : Origin}

/-- A component that had nothing to mark may change as it likes. -/
theorem System.Awaits.put {changes : List PendingChange} (h : sys.Awaits changes) {part : Part}
    (hcall : ∀ call, (sys.parts o).call = some call → call.marks = some changes →
      part.call = some call) : (sys.put o part).Awaits changes := by
  obtain ⟨o', call, hsome, hmarks⟩ := h
  refine ⟨o', call, ?_, hmarks⟩
  show (Function.update sys.parts o part o').call = some call
  by_cases heq : o' = o
  · subst heq
    rw [Function.update_self]
    exact hcall call hsome hmarks
  · rwa [Function.update_of_ne heq]

theorem Recorded.put (h : Recorded sys) {part : Part}
    (hcall : ∀ call, (sys.parts o).call = some call → call.marks = none ∨ part.call = some call) :
    Recorded (sys.put o part) where
  saved := h.saved
  rollback := h.rollback
  covered time changes hmem hlt := by
    rcases h.covered time changes hmem hlt with hsub | hawaits
    · exact Or.inl hsub
    · refine Or.inr (hawaits.put fun call hsome hmarks => ?_)
      rcases hcall call hsome with hnone | hsame
      · rw [hnone] at hmarks
        exact absurd hmarks (by simp)
      · exact hsame

/-- Serving a request makes its component await what VyOS keeps. -/
theorem Recorded.serve (h : Recorded sys) {action : Action}
    (hcall : (sys.parts o).call = some ⟨action, none⟩) {answer : Answer}
    (htimely : Timely sys (.serve o answer)) :
    Recorded { sys.put o ⟨some ⟨action, some answer⟩, (sys.parts o).window⟩ with
      router := sys.router.serve action answer } := by
  have hserve := saved_serve h.saved h.rollback action answer
  have hawaits : ∀ changes, Call.marks ⟨action, some answer⟩ = some changes →
      (sys.put o ⟨some ⟨action, some answer⟩, (sys.parts o).window⟩).Awaits changes := by
    intro changes hmarks
    refine ⟨o, ⟨action, some answer⟩, ?_, hmarks⟩
    show (Function.update sys.parts o _ o).call = _
    rw [Function.update_self]
  refine ⟨hserve.2.1, fun time hmem => ?_, fun time changes hmem hlt => ?_⟩
  · rcases rollback_mem_serve hmem with hmem | ⟨rfl, hserved⟩
    · exact (h.rollback time hmem).trans hserve.2.2
    · exact Nat.le_of_eq hserved.symm
  · rcases mem_kept_serve hmem with hmem | ⟨rfl, ⟨alsoSave, rfl⟩ | ⟨window, rfl, hwaits⟩⟩
    · rcases h.covered time changes hmem (Nat.lt_of_le_of_lt hserve.1 hlt) with hsub | hold
      · exact Or.inl hsub
      · refine Or.inr (hold.put fun call hsome hmarks => ?_)
        rw [hcall, Option.some.injEq] at hsome
        subst hsome
        exact absurd hmarks (by simp [Call.marks])
    · exact Or.inr (hawaits changes rfl)
    · obtain ⟨saveAfterConfirm, rfl⟩ := htimely window hcall time changes hwaits
      exact Or.inr (hawaits changes rfl)

/-- Processing an answer records what it marks, and clears nothing that was
marked before it. -/
theorem Recorded.answer (h : Recorded sys) {action : Action} {answer : Answer}
    (hcall : (sys.parts o).call = some ⟨action, some answer⟩)
    (htimely : Timely sys (.answer o)) (part : Part) :
    Recorded { sys.put o part with
      committedChanges :=
        (answered (sys.parts o) sys.committedChanges action answer).2 } := by
  have hput : ∀ changes, sys.Awaits changes → Call.marks ⟨action, some answer⟩ ≠ some changes →
      (sys.put o part).Awaits changes := by
    intro changes hawaits hne
    refine hawaits.put fun call hsome hmarks => ?_
    rw [hcall, Option.some.injEq] at hsome
    subst hsome
    exact absurd hmarks hne
  refine ⟨h.saved, h.rollback, fun time changes hmem hlt => ?_⟩
  show changes ⊆ (answered _ _ action answer).2 ∨ (sys.put o part).Awaits changes
  rw [answered_snd]
  cases hmarks : Call.marks ⟨action, some answer⟩ with
  | some marked =>
    rcases h.covered time changes hmem hlt with hsub | hawaits
    · exact Or.inl (List.subset_append_of_subset_left marked hsub)
    · by_cases hsame : marked = changes
      · exact Or.inl (hsame ▸ List.subset_append_right sys.committedChanges marked)
      · exact Or.inr (hput changes hawaits (by simp [hmarks, hsame]))
  | none =>
    have hkept : sys.Awaits changes → (sys.put o part).Awaits changes :=
      fun hawaits => hput changes hawaits (by simp [hmarks])
    cases hclears : Call.clears ⟨action, some answer⟩ with
    | true => exact Or.inr (hkept (htimely _ hcall hclears time changes hmem hlt))
    | false =>
      rcases h.covered time changes hmem hlt with hsub | hawaits
      · exact Or.inl hsub
      · exact Or.inr (hkept hawaits)

theorem recorded_step (sys : System) (e : Event) (h : Recorded sys) (htimely : Timely sys e) :
    Recorded (step sys e) := by
  cases e with
  | click o action =>
    simp only [step]
    split_ifs with hguard
    · exact h.put fun call hsome => by simp [hguard.1] at hsome
    · exact h
  | serve o answer =>
    simp only [step]
    split
    · rename_i action hcall
      exact h.serve hcall htimely
    · exact h
  | answer o =>
    simp only [step]
    split
    · rename_i action answer hcall
      exact h.answer hcall htimely _
    · exact h
  | expire o => exact h.put fun call hsome => Or.inr hsome
  | revert => exact ⟨h.saved, fun _ hmem => absurd hmem List.not_mem_nil, h.covered⟩

end Step

/-- In every run whose steps are timely, whatever VyOS kept since the last save
or kept rollback is recorded as unsaved once every answer has been processed. -/
theorem sound_of_timely {es : List Event} (h : Guarded step Timely .mounted es) :
    ∀ t ∈ trail step .mounted es, t.Quiet → t.Sound := by
  intro t ht hquiet
  exact (forall_trail_of_guarded recorded_step recorded_mounted h t ht).sound hquiet

def renamed : PendingChange := ⟨0, ⟨.set, ["system", "host-name"], some "edge"⟩, "host-name"⟩

def widened : PendingChange := ⟨1, ⟨.set, ["system", "domain-name"], some "lan"⟩, "domain"⟩

/-- The Power page saves while a commit is on its way back, and a second commit
is kept in a window. -/
def savedThenKept : List Event :=
  [.click .bar (.commit [renamed] false), .serve .bar .done, .click (.saveSection 0) .save,
    .serve (.saveSection 0) .done, .answer .bar, .answer (.saveSection 0),
    .click .bar (.commit [widened] false), .serve .bar .opened, .answer .bar,
    .click .bar (.keep (.commit [widened] false)), .serve .bar .done, .answer .bar]

theorem savedThenKept_sound :
    let last := savedThenKept.foldl step .mounted
    last.Sound ∧ last.router.kept = [(1, [renamed]), (3, [widened])] ∧ last.router.saved = 2 ∧
      last.committedChanges = [widened] := by
  intro last
  have htimely : Guarded step Timely .mounted savedThenKept := by
    refine ⟨trivial, ?_, trivial, ?_, ?_, ?_, trivial, trivial, ?_, trivial, ?_, ?_, trivial⟩
    · intro window hcall
      cases hcall
    · intro window hcall
      cases hcall
    · intro call hcall hclears
      cases hcall
      exact absurd hclears (by decide)
    · intro call hcall hclears time changes hmem hlt
      obtain ⟨rfl, _⟩ := Prod.mk.inj (List.mem_singleton.mp hmem)
      exact absurd hlt (by decide)
    · intro call hcall hclears
      cases hcall
      exact absurd hclears (by decide)
    · intro window hcall time changes hmem
      obtain ⟨_, rfl⟩ := Unconfirmed.commit.inj (List.mem_singleton.mp hmem)
      cases hcall
      exact ⟨false, rfl⟩
    · intro call hcall hclears
      cases hcall
      exact absurd hclears (by decide)
  have hquiet : last.Quiet := by
    intro o
    rcases o with _ | (_ | _) | _ <;> rfl
  exact ⟨sound_of_timely htimely last (foldl_mem_trail _ _) hquiet, rfl, rfl, rfl⟩

/-- The answer to a save that VyOS served before a commit arrives after the
commit has been marked. -/
def savedLate : List Event :=
  [.click (.saveSection 0) .save, .serve (.saveSection 0) .done,
    .click .bar (.commit [renamed] false), .serve .bar .done, .answer .bar,
    .answer (.saveSection 0)]

theorem savedLate_unsound :
    let last := savedLate.foldl step .mounted
    last.Quiet ∧ last.router.kept = [(2, [renamed])] ∧ last.router.saved = 1 ∧
      last.committedChanges = [] ∧ ¬ last.Sound := by
  intro last
  refine ⟨?_, rfl, rfl, rfl, fun hsound => ?_⟩
  · intro o
    rcases o with _ | (_ | _) | _ <;> rfl
  · have hsub := hsound 2 [renamed] List.mem_cons_self (by decide)
    exact absurd (hsub List.mem_cons_self) List.not_mem_nil

end VyosClient.UnsavedCommit
