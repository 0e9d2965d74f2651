import VyosClient.PendingChanges

/-!
The bar through its commit-confirm windows. The answer to the Keep request,
the end of the countdown and the edits queued on other pages come in any
order. What a window comes to is read off beside the bar: the changes it was
opened for, what was handed to `markCommitted`, and whether a confirm succeeded.
-/

namespace VyosClient.ConfirmWindow

open PathStore ConfigTrees Configure PendingChanges PendingChangesState Runs

/-- The message of an `ApiError`, `none` for any other failure. -/
abbrev Failure := Option String

/-- What `onExpire` tells the user. -/
def expiredMessage : String :=
  "The confirm window ran out, so VyOS reverted the commit. Your changes are still pending."

def notSavedMessage (err : Failure) : String :=
  "Applied but not saved: " ++ err.getD "saving failed" ++
    ". Your change is live but will be lost on reboot unless you save."

/-- The request the bar waits for, with what its handler captured when clicked. -/
inductive Call
  | commit (committing : List PendingChange) (alsoSave : Bool)
  | confirm (pendingCommitChanges : List PendingChange) (saveAfterConfirm : Bool)
  | save

/-- What has happened since Commit was clicked. -/
structure Cycle where
  snapshot : List PendingChange
  marked : List (List PendingChange)
  confirmed : Bool
  ranOut : Bool
  takenBack : Bool

/-- The bar is busy while it waits for an answer; the window is open while
`active`. -/
structure Bar where
  pending : PendingChangesState
  committedChanges : List PendingChange
  error : Option String
  active : Bool
  pendingCommitChanges : List PendingChange
  saveAfterConfirm : Bool
  inFlight : Option Call
  cycle : Cycle

def Bar.mounted (pending : PendingChangesState) (committedChanges : List PendingChange) : Bar where
  pending := pending
  committedChanges := committedChanges
  error := none
  active := false
  pendingCommitChanges := []
  saveAfterConfirm := false
  inFlight := none
  cycle := ⟨[], [], false, false, false⟩

/-- `runCommit` is a click with Safe apply on, `answer` the outcome of the
request under way, `expire` the countdown at zero. -/
inductive Event
  | add (op : ConfigOp) (label : String)
  | runCommit (alsoSave : Bool)
  | handleKeep
  | answer (result : Except Failure Unit)
  | expire

/-- Whether an "Enable" takes back a deletion that is being committed. -/
def Bar.takesBack (bar : Bar) (op : ConfigOp) : Bool :=
  match cancelled bar.pending.ops op with
  | some i => bar.cycle.snapshot.any fun c => bar.pending.changes[i]? = some c
  | none => false

def Bar.add (bar : Bar) (op : ConfigOp) (label : String) : Bar :=
  { bar with
    pending := bar.pending.add op label
    cycle := { bar.cycle with takenBack := bar.cycle.takenBack || bar.takesBack op } }

def Bar.runCommit (bar : Bar) (alsoSave : Bool) : Bar :=
  { bar with
    error := none
    inFlight := some (.commit bar.pending.changes alsoSave)
    cycle := ⟨bar.pending.changes, [], false, false, false⟩ }

def Bar.opened (bar : Bar) (committing : List PendingChange) (alsoSave : Bool) : Bar :=
  { bar with
    active := true
    pendingCommitChanges := committing
    saveAfterConfirm := alsoSave
    inFlight := none }

def Bar.handleKeep (bar : Bar) : Bar :=
  { bar with
    error := none
    inFlight := some (.confirm bar.pendingCommitChanges bar.saveAfterConfirm) }

/-- The save follows at once when the handler captured that it should. -/
def Bar.kept (bar : Bar) (pendingCommitChanges : List PendingChange) (saveAfterConfirm : Bool) :
    Bar :=
  { bar with
    pending := bar.pending.removeMany (pendingCommitChanges.map PendingChange.id)
    committedChanges := bar.committedChanges ++ pendingCommitChanges
    active := false
    saveAfterConfirm := if saveAfterConfirm then bar.saveAfterConfirm else false
    inFlight := if saveAfterConfirm then some .save else none
    cycle := { bar.cycle with
      marked := bar.cycle.marked ++ [pendingCommitChanges]
      confirmed := true } }

def Bar.failed (bar : Bar) (message : String) (saveAfterConfirm : Bool) : Bar :=
  { bar with
    error := some message
    saveAfterConfirm := saveAfterConfirm
    inFlight := none }

def Bar.expired (bar : Bar) : Bar :=
  { bar with
    error := some expiredMessage
    active := false
    saveAfterConfirm := false
    cycle := { bar.cycle with ranOut := true } }

def Bar.answered (bar : Bar) : Call → Except Failure Unit → Bar
  | .commit committing alsoSave, .ok _ => bar.opened committing alsoSave
  | .commit _ _, .error err =>
      bar.failed (err.getD "Failed to apply changes.") bar.saveAfterConfirm
  | .confirm pendingCommitChanges saveAfterConfirm, .ok _ =>
      bar.kept pendingCommitChanges saveAfterConfirm
  | .confirm _ _, .error err => bar.failed (err.getD "Failed to confirm changes.") false
  | .save, .ok _ =>
      { bar with committedChanges := [], saveAfterConfirm := false, inFlight := none }
  | .save, .error err => bar.failed (notSavedMessage err) false

def step (bar : Bar) : Event → Bar
  | .add op label => bar.add op label
  | .runCommit alsoSave =>
      if bar.inFlight.isSome ∨ bar.active ∨ bar.pending.changes = [] then bar
      else bar.runCommit alsoSave
  | .handleKeep => if bar.inFlight.isSome ∨ bar.active = false then bar else bar.handleKeep
  | .answer result =>
      match bar.inFlight with
      | none => bar
      | some call => bar.answered call result
  | .expire => if bar.active then bar.expired else bar

/-- The one outcome of a window: what was committed is gone, marked once and
not reported as reverted, or it is pending and was not marked. -/
def Bar.Outcome (bar : Bar) : Prop :=
  if bar.cycle.confirmed then
    (∀ c ∈ bar.cycle.snapshot, c ∉ bar.pending.changes) ∧
      bar.cycle.marked = [bar.cycle.snapshot] ∧ bar.error ≠ some expiredMessage
  else (∀ c ∈ bar.cycle.snapshot, c ∈ bar.pending.changes) ∧ bar.cycle.marked = []

/-- Neither does an "Enable" take back what is being committed, unless the
confirm then succeeds, nor does the countdown run out before the answer to a
confirm that succeeds, unless the save after it fails. -/
def Timely (bar : Bar) : Event → Prop
  | .add op _ => bar.inFlight = none → bar.takesBack op = false
  | .answer result =>
      match bar.inFlight, result with
      | some (.confirm _ saveAfterConfirm), .ok _ =>
          saveAfterConfirm = true ∨ bar.cycle.ranOut = false
      | some .save, .ok _ => bar.cycle.ranOut = false
      | some .save, .error _ => True
      | some _, _ => bar.cycle.takenBack = false
      | none, _ => True
  | _ => True

/-- Where the changes being committed are. -/
structure Tracked (bar : Bar) : Prop where
  fresh : ∀ c ∈ bar.cycle.snapshot, c.id < bar.pending.issued
  gone : bar.cycle.confirmed = true → ∀ c ∈ bar.cycle.snapshot, c ∉ bar.pending.changes
  marked : bar.cycle.marked = if bar.cycle.confirmed then [bar.cycle.snapshot] else []
  pending : bar.cycle.confirmed = false → bar.cycle.takenBack = false →
    ∀ c ∈ bar.cycle.snapshot, c ∈ bar.pending.changes
  taken : bar.cycle.confirmed = false → bar.cycle.takenBack = true →
    ∃ c ∈ bar.cycle.snapshot, c ∉ bar.pending.changes

/-- The message the countdown leaves while a request is under way. -/
def Bar.countdownError (bar : Bar) : Option String :=
  if bar.cycle.ranOut then some expiredMessage else none

/-- What the bar shows and waits for fits the window it is in. -/
structure Consistent (bar : Bar) : Prop where
  tracked : Tracked bar
  active : bar.active = true → bar.pendingCommitChanges = bar.cycle.snapshot ∧
    bar.cycle.confirmed = false ∧ bar.cycle.ranOut = false
  commit : ∀ committing alsoSave, bar.inFlight = some (.commit committing alsoSave) →
    committing = bar.cycle.snapshot ∧ bar.active = false ∧ bar.cycle.confirmed = false ∧
      bar.cycle.ranOut = false
  confirm : ∀ pendingCommitChanges saveAfterConfirm,
    bar.inFlight = some (.confirm pendingCommitChanges saveAfterConfirm) →
      pendingCommitChanges = bar.cycle.snapshot ∧ bar.cycle.confirmed = false ∧
        bar.error = bar.countdownError
  save : bar.inFlight = some .save →
    bar.active = false ∧ bar.cycle.confirmed = true ∧ bar.error = bar.countdownError

/-- The outcome as far as the flags tell it. -/
def Bar.Settled (bar : Bar) : Prop :=
  if bar.cycle.confirmed then bar.error ≠ some expiredMessage else bar.cycle.takenBack = false

theorem Tracked.outcome_iff {bar : Bar} (h : Tracked bar) : bar.Outcome ↔ bar.Settled := by
  unfold Bar.Outcome Bar.Settled
  have hmarked := h.marked
  cases hconfirmed : bar.cycle.confirmed with
  | true =>
    rw [hconfirmed, if_pos rfl] at hmarked
    simp only [↓reduceIte, hmarked, true_and]
    exact and_iff_right (h.gone hconfirmed)
  | false =>
    rw [hconfirmed, if_neg (by decide)] at hmarked
    simp only [Bool.false_eq_true, ↓reduceIte, hmarked, and_true]
    constructor
    · intro hall
      refine Bool.eq_false_iff.mpr fun htaken => ?_
      obtain ⟨c, hc, hgone⟩ := h.taken hconfirmed htaken
      exact hgone (hall c hc)
    · exact h.pending hconfirmed

theorem head?_notSavedMessage (err : Failure) : (notSavedMessage err).toList.head? = some 'A' := by
  have happlied : "Applied but not saved: ".toList.head? = some 'A' := by decide
  unfold notSavedMessage
  rw [String.append_assoc, String.toList_append, List.head?_append, happlied, Option.some_or]

theorem notSavedMessage_ne (err : Failure) : notSavedMessage err ≠ expiredMessage := by
  have hexpired : expiredMessage.toList.head? = some 'T' := by decide
  refine fun h => ?_
  have hhead := head?_notSavedMessage err
  rw [h, hexpired] at hhead
  exact absurd hhead (by decide)

section Add

variable {bar : Bar} {op : ConfigOp} {label : String}

theorem takesBack_eq_true_iff :
    bar.takesBack op = true ↔ ∃ i, cancelled bar.pending.ops op = some i ∧
      ∃ c ∈ bar.cycle.snapshot, bar.pending.changes[i]? = some c := by
  unfold Bar.takesBack
  cases cancelled bar.pending.ops op with
  | none => simp
  | some i => simp

theorem Tracked.add (h : Tracked bar) (op : ConfigOp) (label : String) :
    Tracked (bar.add op label) where
  fresh c hc := Nat.lt_succ_of_lt (h.fresh c hc)
  gone hconfirmed c hc hmem := by
    rcases mem_or_fresh_of_mem_add hmem with hmem | hid
    · exact h.gone hconfirmed c hc hmem
    · exact absurd (h.fresh c hc) (by omega)
  marked := h.marked
  pending hconfirmed htaken c hc := by
    obtain ⟨hold, hnew⟩ := Bool.or_eq_false_iff.mp htaken
    refine mem_add label (h.pending hconfirmed hold c hc) fun i hi hget => ?_
    rw [takesBack_eq_true_iff.mpr ⟨i, hi, c, hc, hget⟩] at hnew
    exact absurd hnew (by decide)
  taken hconfirmed htaken := by
    rcases (Bool.or_eq_true _ _).mp htaken with hold | hnew
    · obtain ⟨c, hc, hgone⟩ := h.taken hconfirmed hold
      refine ⟨c, hc, fun hmem => ?_⟩
      rcases mem_or_fresh_of_mem_add hmem with hmem | hid
      · exact hgone hmem
      · exact absurd (h.fresh c hc) (by omega)
    · obtain ⟨i, hi, c, hc, hget⟩ := takesBack_eq_true_iff.mp hnew
      exact ⟨c, hc, not_mem_add label hi hget⟩

/-- A kept commit has nothing left that could be taken back. -/
theorem Tracked.takesBack_of_confirmed (h : Tracked bar) (hconfirmed : bar.cycle.confirmed = true)
    (op : ConfigOp) : bar.takesBack op = false := by
  refine Bool.eq_false_iff.mpr fun htakes => ?_
  obtain ⟨i, _, c, hc, hget⟩ := takesBack_eq_true_iff.mp htakes
  exact h.gone hconfirmed c hc (List.mem_of_getElem? hget)

end Add

section Step

variable {bar : Bar}

/-- The countdown, the error and the request under way do not matter. -/
theorem Tracked.congr {bar' : Bar} {ran : Bool} (h : Tracked bar)
    (hpending : bar'.pending = bar.pending)
    (hcycle : bar'.cycle = { bar.cycle with ranOut := ran }) : Tracked bar' := by
  constructor
  · rw [hcycle, hpending]
    exact h.fresh
  · rw [hcycle, hpending]
    exact h.gone
  · rw [hcycle]
    exact h.marked
  · rw [hcycle, hpending]
    exact h.pending
  · rw [hcycle, hpending]
    exact h.taken

theorem Tracked.runCommit (bar : Bar) (alsoSave : Bool) : Tracked (bar.runCommit alsoSave) where
  fresh := bar.pending.fresh
  gone h := absurd h Bool.false_ne_true
  marked := rfl
  pending _ _ _ hc := hc
  taken _ h := absurd h Bool.false_ne_true

/-- Success removes what was committed, by its identifiers. -/
theorem Tracked.kept (h : Tracked bar) (hconfirmed : bar.cycle.confirmed = false)
    (saveAfterConfirm : Bool) : Tracked (bar.kept bar.cycle.snapshot saveAfterConfirm) where
  fresh := h.fresh
  gone _ c hc hmem := by
    have hid := (List.mem_filter.mp hmem).2
    simp only [decide_eq_true_eq] at hid
    exact hid (List.mem_map_of_mem hc)
  marked := by
    show bar.cycle.marked ++ [bar.cycle.snapshot] = [bar.cycle.snapshot]
    rw [h.marked, hconfirmed]
    rfl
  pending h := absurd h.symm Bool.false_ne_true
  taken h := absurd h.symm Bool.false_ne_true

theorem Consistent.add (h : Consistent bar) (op : ConfigOp) (label : String) :
    Consistent (bar.add op label) :=
  ⟨h.tracked.add op label, h.active, h.commit, h.confirm, h.save⟩

theorem Consistent.runCommit (hactive : bar.active = false) (alsoSave : Bool) :
    Consistent (bar.runCommit alsoSave) where
  tracked := Tracked.runCommit bar alsoSave
  active h := by
    have hfalse : bar.active = true := h
    rw [hactive] at hfalse
    exact absurd hfalse (by decide)
  commit _ _ h := by
    obtain ⟨rfl, _⟩ := Call.commit.inj (Option.some.inj h)
    exact ⟨rfl, hactive, rfl, rfl⟩
  confirm _ _ h := by simp [Bar.runCommit] at h
  save h := by simp [Bar.runCommit] at h

theorem Consistent.handleKeep (h : Consistent bar) (hactive : bar.active = true) :
    Consistent bar.handleKeep where
  tracked := h.tracked.congr rfl rfl
  active := h.active
  commit _ _ h := by simp [Bar.handleKeep] at h
  confirm _ _ hcall := by
    obtain ⟨hpending, hconfirmed, hran⟩ := h.active hactive
    obtain ⟨rfl, _⟩ := Call.confirm.inj (Option.some.inj hcall)
    refine ⟨hpending, hconfirmed, ?_⟩
    show none = if bar.cycle.ranOut then some expiredMessage else none
    rw [hran]
    rfl
  save h := by simp [Bar.handleKeep] at h

theorem Consistent.expired (h : Consistent bar) (hactive : bar.active = true) :
    Consistent bar.expired where
  tracked := h.tracked.congr rfl rfl
  active h := absurd h Bool.false_ne_true
  commit _ _ hcall := absurd (h.commit _ _ hcall).2.1 (by rw [hactive]; decide)
  confirm _ _ hcall := ⟨(h.confirm _ _ hcall).1, (h.confirm _ _ hcall).2.1, rfl⟩
  save hcall := absurd (h.save hcall).1 (by rw [hactive]; decide)

/-- Once nothing is under way, only an open window is left to fit. -/
theorem Tracked.consistent (h : Tracked bar) (hnone : bar.inFlight = none)
    (hactive : bar.active = true → bar.pendingCommitChanges = bar.cycle.snapshot ∧
      bar.cycle.confirmed = false ∧ bar.cycle.ranOut = false) : Consistent bar where
  tracked := h
  active := hactive
  commit _ _ hcall := by simp [hnone] at hcall
  confirm _ _ hcall := by simp [hnone] at hcall
  save hcall := by simp [hnone] at hcall

theorem Consistent.failed (h : Consistent bar) (message : String) (saveAfterConfirm : Bool) :
    Consistent (bar.failed message saveAfterConfirm) :=
  Tracked.consistent (h.tracked.congr rfl rfl) rfl h.active

theorem Consistent.answered (h : Consistent bar) {call : Call} (hcall : bar.inFlight = some call)
    (result : Except Failure Unit) : Consistent (bar.answered call result) := by
  have htracked := h.tracked
  cases call with
  | commit committing alsoSave =>
    obtain ⟨hsnapshot, _, hconfirmed, hran⟩ := h.commit _ _ hcall
    cases result with
    | ok _ =>
      refine Tracked.consistent (htracked.congr rfl rfl) rfl fun _ => ?_
      exact ⟨hsnapshot, hconfirmed, hran⟩
    | error err => exact h.failed _ _
  | confirm pendingCommitChanges saveAfterConfirm =>
    obtain ⟨rfl, hconfirmed, herror⟩ := h.confirm _ _ hcall
    cases result with
    | ok _ =>
      have hkept := htracked.kept hconfirmed saveAfterConfirm
      cases saveAfterConfirm with
      | true =>
        refine ⟨hkept, fun h => absurd h Bool.false_ne_true, ?_, ?_, fun _ => ⟨rfl, rfl, herror⟩⟩
        · intro _ _ h
          simp [Bar.answered, Bar.kept] at h
        · intro _ _ h
          simp [Bar.answered, Bar.kept] at h
      | false => exact hkept.consistent rfl fun h => absurd h Bool.false_ne_true
    | error err => exact h.failed _ _
  | save =>
    cases result with
    | ok _ =>
      exact Tracked.consistent (htracked.congr rfl rfl) rfl h.active
    | error err => exact h.failed _ _

theorem consistent_step (bar : Bar) (e : Event) (h : Consistent bar) : Consistent (step bar e) := by
  cases e with
  | add op label => exact h.add op label
  | runCommit alsoSave =>
    simp only [step]
    split_ifs with hguard
    · exact h
    · simp only [not_or, Bool.not_eq_true] at hguard
      exact Consistent.runCommit hguard.2.1 alsoSave
  | handleKeep =>
    simp only [step]
    split_ifs with hguard
    · exact h
    · simp only [not_or, Bool.not_eq_false] at hguard
      exact h.handleKeep hguard.2
  | answer result =>
    cases hcall : bar.inFlight with
    | none =>
      simp only [step, hcall]
      exact h
    | some call =>
      simp only [step, hcall]
      exact h.answered hcall result
  | expire =>
    simp only [step]
    split_ifs with hactive
    · exact h.expired hactive
    · exact h

/-- An edit keeps the outcome settled when it takes nothing back. -/
theorem timely_add_iff (h : Consistent bar) (hquiet : bar.inFlight = none → bar.Settled)
    (op : ConfigOp) (label : String) :
    Timely bar (.add op label) ↔ ((bar.add op label).inFlight = none →
      (bar.add op label).Settled) := by
  refine forall_congr' fun hnone => ?_
  have hsettled := hquiet hnone
  cases hconfirmed : bar.cycle.confirmed with
  | true =>
    refine iff_of_true (h.tracked.takesBack_of_confirmed hconfirmed op) ?_
    simpa only [Bar.Settled, Bar.add, hconfirmed, ↓reduceIte] using hsettled
  | false =>
    simp only [Bar.Settled, hconfirmed, Bool.false_eq_true, ↓reduceIte] at hsettled
    simp [Bar.Settled, Bar.add, hconfirmed, hsettled]

/-- An answer settles the outcome exactly when it is timely. -/
theorem timely_answer_iff (h : Consistent bar) {call : Call} (hcall : bar.inFlight = some call)
    (result : Except Failure Unit) :
    Timely bar (.answer result) ↔ ((bar.answered call result).inFlight = none →
      (bar.answered call result).Settled) := by
  cases call with
  | commit committing alsoSave =>
    obtain ⟨_, _, hconfirmed, _⟩ := h.commit _ _ hcall
    cases result <;>
      simp [Timely, hcall, Bar.answered, Bar.opened, Bar.failed, Bar.Settled, hconfirmed]
  | confirm pendingCommitChanges saveAfterConfirm =>
    obtain ⟨_, hconfirmed, herror⟩ := h.confirm _ _ hcall
    cases result with
    | ok _ =>
      cases saveAfterConfirm with
      | true => simp [Timely, hcall, Bar.answered, Bar.kept]
      | false =>
        simp [Timely, hcall, Bar.answered, Bar.kept, Bar.Settled, herror, Bar.countdownError]
    | error err => simp [Timely, hcall, Bar.answered, Bar.failed, Bar.Settled, hconfirmed]
  | save =>
    obtain ⟨_, hconfirmed, herror⟩ := h.save hcall
    cases result with
    | ok _ =>
      simp [Timely, hcall, Bar.answered, Bar.Settled, hconfirmed, herror, Bar.countdownError]
    | error err =>
      simp [Timely, hcall, Bar.answered, Bar.failed, Bar.Settled, hconfirmed,
        notSavedMessage_ne]

/-- Each step that leaves nothing under way settles the outcome exactly when
it is timely. -/
theorem timely_iff (h : Consistent bar) (hquiet : bar.inFlight = none → bar.Settled) (e : Event) :
    Timely bar e ↔ ((step bar e).inFlight = none → (step bar e).Settled) := by
  cases e with
  | add op label => exact timely_add_iff h hquiet op label
  | runCommit alsoSave =>
    refine iff_of_true trivial ?_
    simp only [step]
    split_ifs with hguard
    · exact hquiet
    · simp [Bar.runCommit]
  | handleKeep =>
    refine iff_of_true trivial ?_
    simp only [step]
    split_ifs with hguard
    · exact hquiet
    · simp [Bar.handleKeep]
  | answer result =>
    cases hcall : bar.inFlight with
    | none =>
      simp only [Timely, step, hcall, true_iff]
      exact fun _ => hquiet hcall
    | some call =>
      simp only [step, hcall]
      exact timely_answer_iff h hcall result
  | expire =>
    refine iff_of_true trivial ?_
    simp only [step]
    split_ifs with hactive
    · obtain ⟨_, hconfirmed, _⟩ := h.active hactive
      intro hnone
      have hsettled := hquiet hnone
      simp only [Bar.Settled, hconfirmed, Bool.false_eq_true, ↓reduceIte] at hsettled
      simpa [Bar.Settled, Bar.expired, hconfirmed] using hsettled
    · exact hquiet

end Step

theorem consistent_mounted (pending : PendingChangesState) (committed : List PendingChange) :
    Consistent (.mounted pending committed) := by
  refine Tracked.consistent ⟨?_, ?_, rfl, ?_, ?_⟩ rfl fun h => absurd h Bool.false_ne_true
  · exact fun c hc => absurd hc List.not_mem_nil
  · exact fun h => absurd h Bool.false_ne_true
  · exact fun _ _ c hc => absurd hc List.not_mem_nil
  · exact fun _ h => absurd h Bool.false_ne_true

/-- In every run of the bar, each state in which every answer has been
processed shows one outcome for the window it is about, exactly when every
step was timely. -/
theorem guarded_timely_iff_outcome (pending : PendingChangesState)
    (committed : List PendingChange) (es : List Event) :
    Guarded step Timely (.mounted pending committed) es ↔
      ∀ t ∈ trail step (.mounted pending committed) es, t.inFlight = none → t.Outcome := by
  have hstep : ∀ bar e, Consistent bar ∧ (bar.inFlight = none → bar.Settled) → Timely bar e →
      Consistent (step bar e) ∧ ((step bar e).inFlight = none → (step bar e).Settled) :=
    fun bar e h htimely => ⟨consistent_step bar e h.1, (timely_iff h.1 h.2 e).mp htimely⟩
  refine guarded_iff_forall_trail hstep ?_ ?_ ⟨consistent_mounted pending committed, ?_⟩ es
  · exact fun bar h hnone => h.1.tracked.outcome_iff.mpr (h.2 hnone)
  · intro bar e h hnot houtcome
    refine hnot ((timely_iff h.1 h.2 e).mpr fun hnone => ?_)
    exact (consistent_step bar e h.1).tracked.outcome_iff.mp (houtcome hnone)
  · exact fun _ => rfl

/-- The countdown runs out while the confirm is on its way, and the confirm succeeds. -/
def keptLate : List Event :=
  [.runCommit false, .answer (.ok ()), .handleKeep, .expire, .answer (.ok ())]

def renamedQueue : PendingChangesState :=
  PendingChangesState.empty.add ⟨.set, ["system", "host-name"], some "edge"⟩ "host-name"

theorem keptLate_reports_revert :
    let last := keptLate.foldl step (.mounted renamedQueue [])
    last.inFlight = none ∧ last.cycle.confirmed = true ∧ last.pending.changes = [] ∧
      last.cycle.marked = [renamedQueue.changes] ∧ last.error = some expiredMessage ∧
      ¬ last.Outcome := by
  refine ⟨rfl, rfl, rfl, rfl, rfl, fun h => ?_⟩
  exact h.2.2 rfl

end VyosClient.ConfirmWindow
