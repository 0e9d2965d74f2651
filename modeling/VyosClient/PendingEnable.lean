import VyosClient.PendingChanges

/-!
What a page shows of a feature while changes are queued. The view takes the
latest queued operation on the feature's path, compared by its joined text; the
commit gives whatever the whole queue amounts to at the feature's node. The two
agree as long as every entry of the queue fitted the entries before it, and
taking a deletion back keeps the rest of the queue fitting.
-/

namespace VyosClient.PendingEnable

open PathStore ConfigTrees Configure PendingChanges PendingChangesState Runs

/-- `T extends { enabled: boolean }` -/
class HasEnabled (T : Type*) where
  enabled : T → Bool
  withEnabled : T → Bool → T
  enabled_withEnabled : ∀ parsed enabled', enabled (withEnabled parsed enabled') = enabled'

open HasEnabled

instance : HasEnabled Bool := ⟨id, fun _ b => b, fun _ _ => rfl⟩

def latestOp (queued : List ConfigOp) (path : Path) : Option ConfigOp :=
  queued.reverse.find? fun o => joined o.path = joined path

def latestPendingOp (changes : List PendingChange) (path : Path) : Option ConfigOp :=
  latestOp (changes.map PendingChange.op) path

def hasPendingSet (changes : List PendingChange) (path : Path) : Bool :=
  (latestPendingOp changes path).map ConfigOp.op = some .set

def hasPendingDelete (changes : List PendingChange) (path : Path) : Bool :=
  (latestPendingOp changes path).map ConfigOp.op = some .delete

def withPendingEnable {T : Type*} [HasEnabled T] (parsed : T) (path : Path)
    (changes : List PendingChange) : T :=
  if hasPendingDelete changes path then
    if enabled parsed then withEnabled parsed false else parsed
  else if ¬ enabled parsed ∧ hasPendingSet changes path then withEnabled parsed true
  else parsed

/-- What the view shows of a feature parsed as `enabled`. -/
def shows (enabled : Bool) (path : Path) (queued : List ConfigOp) : Bool :=
  match (latestOp queued path).map ConfigOp.op with
  | some .delete => false
  | some .set => true
  | _ => enabled

theorem enabled_withPendingEnable {T : Type*} [HasEnabled T] (parsed : T) (path : Path)
    (changes : List PendingChange) :
    enabled (withPendingEnable parsed path changes) =
      shows (enabled parsed) path (changes.map PendingChange.op) := by
  unfold withPendingEnable hasPendingDelete hasPendingSet latestPendingOp shows
  cases (latestOp (changes.map PendingChange.op) path).map ConfigOp.op with
  | none => simp
  | some kind => cases kind <;> cases h : enabled parsed <;> simp [h, enabled_withEnabled]

section Shows

variable {e : Bool} {P : Path}

@[simp] theorem shows_nil : shows e P [] = e := rfl

theorem shows_append_of_ne {op : ConfigOp} (h : joined op.path ≠ joined P)
    (queued : List ConfigOp) : shows e P (queued ++ [op]) = shows e P queued := by
  simp [shows, latestOp, h]

theorem shows_append_of_eq {op : ConfigOp} (h : joined op.path = joined P)
    (queued : List ConfigOp) :
    shows e P (queued ++ [op]) =
      match op.op with
      | .delete => false
      | .set => true
      | .comment => e := by
  unfold shows latestOp
  rw [List.reverse_append, List.reverse_singleton, List.singleton_append,
    List.find?_cons_of_pos (by simpa using h), Option.map_some]
  cases op.op <;> rfl

/-- Only the view so far and what follows decide the view. -/
theorem shows_append_congr {queued queued' : List ConfigOp}
    (h : shows e P queued = shows e P queued') (op : ConfigOp) :
    shows e P (queued ++ [op]) = shows e P (queued' ++ [op]) := by
  by_cases hjoin : joined op.path = joined P
  · rw [shows_append_of_eq hjoin, shows_append_of_eq hjoin]
  · rw [shows_append_of_ne hjoin, shows_append_of_ne hjoin, h]

end Shows

/-- A queue that nothing is left out of. -/
def append (queued : List ConfigOp) (op : ConfigOp) : List ConfigOp := queued ++ [op]

theorem foldl_append_eq (queued ops : List ConfigOp) : ops.foldl append queued = queued ++ ops := by
  induction ops generalizing queued with
  | nil => simp
  | cons op ops ih =>
    rw [List.foldl_cons, ih, append, List.append_assoc]
    rfl

/-- An entry that the view at `P` and the node `N` follow alike: a `set` of the
node itself, a deletion while the view is on, an operation below the node, a
`set` there while the view is on, or one apart from the node. -/
structure Fits (e : Bool) (P N : Path) (queued : List ConfigOp) (op : ConfigOp) : Prop where
  here : joined op.path = joined P →
    op.path = P ∧ ((op.op = .set ∧ P = N) ∨ (op.op = .delete ∧ op.sent = none))
  delete : joined op.path = joined P → op.op = .delete → op.value = none →
    shows e P queued = true
  elsewhere : joined op.path ≠ joined P →
    Apart op.path N ∨ (N <+: op.path ∧ N ≠ op.path ∧ (op.op = .set → shows e P queued = true))

/-- Every entry of the queue fitted the entries before it. -/
def Steady (e : Bool) (P N : Path) (queued : List ConfigOp) : Prop :=
  Guarded append (Fits e P N) [] queued

section Steady

variable {e : Bool} {P N : Path} {queued : List ConfigOp}

theorem Fits.congr {queued' : List ConfigOp} {op : ConfigOp} (h : Fits e P N queued op)
    (hshows : shows e P queued = shows e P queued') : Fits e P N queued' op := by
  refine ⟨h.here, ?_, ?_⟩
  · exact hshows ▸ h.delete
  · exact hshows ▸ h.elsewhere

theorem Steady.append {op : ConfigOp} (h : Steady e P N queued) (hop : Fits e P N queued op) :
    Steady e P N (queued ++ [op]) := by
  refine guarded_append.mpr ⟨h, ?_⟩
  rw [foldl_append_eq]
  exact ⟨hop, trivial⟩

/-- Entries that fitted one queue fit any other with the same view. -/
theorem guarded_fits_congr {queued' ops : List ConfigOp}
    (h : Guarded PendingEnable.append (Fits e P N) queued ops)
    (hshows : shows e P queued = shows e P queued') :
    Guarded PendingEnable.append (Fits e P N) queued' ops := by
  induction ops generalizing queued queued' with
  | nil => trivial
  | cons op ops ih => exact ⟨h.1.congr hshows, ih h.2 (shows_append_congr hshows op)⟩

/-- While the view is off only entries come that fit anywhere. -/
theorem guarded_fits_of_off {queued' ops : List ConfigOp}
    (h : Guarded PendingEnable.append (Fits e P N) queued ops) (hoff : shows e P queued = false)
    (hops : ∀ o ∈ ops, joined o.path ≠ joined P) :
    Guarded PendingEnable.append (Fits e P N) queued' ops := by
  induction ops generalizing queued queued' with
  | nil => trivial
  | cons op ops ih =>
    have hne := hops op List.mem_cons_self
    refine ⟨⟨fun heq => absurd heq hne, fun heq => absurd heq hne, fun _ => ?_⟩, ?_⟩
    · rcases h.1.elsewhere hne with hapart | ⟨habove, hnode, hset⟩
      · exact Or.inl hapart
      · refine Or.inr ⟨habove, hnode, fun hkind => absurd (hset hkind) ?_⟩
        simp [hoff]
    · refine ih h.2 ?_ fun o ho => hops o (List.mem_cons_of_mem _ ho)
      exact (shows_append_of_ne hne queued).trans hoff

/-- A deletion can be taken out of the queue: of the feature itself, because
all that followed came while the view was off, and of anything else, because
the view never depended on it. -/
theorem Steady.eraseIdx {op : ConfigOp} {i : ℕ} (h : Steady e P N queued)
    (hi : cancelled queued op = some i) : Steady e P N (queued.eraseIdx i) := by
  obtain ⟨_, _, pre, latest, post, rfl, rfl, hdelete, _, hjoin, hpost⟩ := cancelled_eq_some hi
  obtain ⟨hpre, hlatest, hrest⟩ := guarded_append.mp h
  rw [foldl_append_eq, List.nil_append] at hlatest hrest
  have herase : (pre ++ latest :: post).eraseIdx pre.length = pre ++ post := by
    simp [List.eraseIdx_append_of_length_le (Nat.le_refl _)]
  rw [herase]
  refine guarded_append.mpr ⟨hpre, ?_⟩
  rw [foldl_append_eq, List.nil_append]
  by_cases hhere : joined latest.path = joined P
  · refine guarded_fits_of_off hrest ?_ fun o ho => ?_
    · rw [PendingEnable.append, shows_append_of_eq hhere, hdelete]
    · rw [← hhere, hjoin]
      exact hpost o ho
  · exact guarded_fits_congr hrest (shows_append_of_ne hhere pre)

/-- Queueing an operation that fits, if it is not swallowed, keeps the queue steady. -/
theorem Steady.addOp {op : ConfigOp} (h : Steady e P N queued)
    (hop : repeatsLast queued op = false → cancelled queued op = none → Fits e P N queued op) :
    Steady e P N (addOp queued op) := by
  unfold PendingChanges.addOp
  split_ifs with hrep
  · exact h
  · cases hcan : cancelled queued op with
    | some i => exact h.eraseIdx hcan
    | none => exact h.append (hop (by simpa using hrep) hcan)

variable {S : Schema} {base : ConfigTree}

/-- What an entry that fits leaves of the node is what the view shows then. -/
theorem Fits.isSome_actOp {op : ConfigOp} (hP : P ≠ []) (hPN : P <+: N)
    (h : Fits e P N queued op) {x : Slot String} (hx : shows e P queued = x.isSome) :
    shows e P (queued ++ [op]) = (actOp S N x op).isSome := by
  by_cases hjoin : joined op.path = joined P
  · rw [shows_append_of_eq hjoin]
    obtain ⟨hpath, ⟨hset, rfl⟩ | ⟨hdelete, hsent⟩⟩ := h.here hjoin
    · subst hpath
      rw [hset]
      cases hvalue : op.sent with
      | none => simp [actOp, ConfigOp.toEdit, hset, hvalue, act]
      | some v => simp [actOp, ConfigOp.toEdit, hset, hvalue, act]
    · subst hpath
      simp [hdelete, actOp, ConfigOp.toEdit, hsent, hP, act, hPN]
  · rw [shows_append_of_ne hjoin, hx]
    rcases h.elsewhere hjoin with hapart | ⟨habove, hne, hset⟩
    · rw [actOp_of_apart S hapart]
    · rw [actOp_above S habove hne]
      split_ifs with hkind
      · rw [← hx, hset hkind]
        rfl
      · rfl

/-- The view of a steady queue is what committing it leaves of the node. -/
theorem Steady.shows_eq (hP : P ≠ []) (hPN : P <+: N) (h : Steady e P N queued)
    (hbase : e = (base.store N).isSome) :
    shows e P queued = ((applyOps S base queued).store N).isSome := by
  rw [store_applyOps, run_edits_apply]
  induction queued using List.reverseRecOn with
  | nil => exact hbase
  | append_singleton queued op ih =>
    obtain ⟨hbefore, hlast⟩ := guarded_append.mp h
    rw [foldl_append_eq, List.nil_append] at hlast
    rw [List.foldl_append]
    exact hlast.1.isSome_actOp hP hPN (ih hbefore)

end Steady

/-- The changes a page queues around its feature: none above it, "Enable" and
"Disable" only while the other state shows, and its settings only while it
shows as enabled. -/
structure PageChange {T : Type*} [HasEnabled T] (parsed : T) (P : Path)
    (pending : PendingChangesState) (change : NewChange) : Prop where
  notAbove : change.op.path <+: P → change.op.path = P
  disable : change.op.path = P → change.op.op = .delete → change.op.value = none →
    enabled (withPendingEnable parsed P pending.changes) = true
  enable : change.op.path = P → change.op.op = .set → change.op.value = none →
    enabled (withPendingEnable parsed P pending.changes) = false
  settings : P <+: change.op.path → P ≠ change.op.path →
    enabled (withPendingEnable parsed P pending.changes) = true

/-- What has the text of the feature's path is a `set` or a whole deletion of
the feature. -/
def PlainHere (P : Path) (_ : PendingChangesState) (change : NewChange) : Prop :=
  joined change.op.path = joined P →
    change.op.path = P ∧ (change.op.op = .set ∨ (change.op.op = .delete ∧ change.op.sent = none))

theorem fits_of_pageChange {T : Type*} [HasEnabled T] {parsed : T} {P : Path}
    {pending : PendingChangesState} {change : NewChange} (hpage : PageChange parsed P pending change)
    (hplain : PlainHere P pending change) :
    Fits (enabled parsed) P P pending.ops change.op := by
  have hshown := enabled_withPendingEnable parsed P pending.changes
  refine ⟨fun hjoin => ?_, fun hjoin hdelete hvalue => ?_, fun hjoin => ?_⟩
  · obtain ⟨hpath, hset | hdelete⟩ := hplain hjoin
    · exact ⟨hpath, Or.inl ⟨hset, rfl⟩⟩
    · exact ⟨hpath, Or.inr hdelete⟩
  · exact hshown.symm.trans (hpage.disable (hplain hjoin).1 hdelete hvalue)
  · have hne : P ≠ change.op.path := fun heq => hjoin (congrArg joined heq.symm)
    by_cases hbelow : P <+: change.op.path
    · exact Or.inr ⟨hbelow, hne, fun _ => hshown.symm.trans (hpage.settings hbelow hne)⟩
    · exact Or.inl ⟨fun habove => hne (hpage.notAbove habove).symm, hbelow⟩

/-- In every run of page changes the view of the feature is what committing the
queue leaves of its node, in every state, as long as whatever has the text of
its path sets or deletes the feature itself. -/
theorem withPendingEnable_eq_committed {T : Type*} [HasEnabled T] (parsed : T) (S : Schema)
    (base : ConfigTree) {P : Path} (hP : P ≠ [])
    (hparsed : enabled parsed = (base.store P).isSome) {changes : List NewChange}
    (h : Guarded addChange (fun pending change =>
      PageChange parsed P pending change ∧ PlainHere P pending change) .empty changes) :
    ∀ pending ∈ trail addChange .empty changes,
      enabled (withPendingEnable parsed P pending.changes) = true ↔
        ((applyOps S base pending.ops).store P).isSome = true := by
  have hsteady : ∀ pending ∈ trail addChange .empty changes,
      Steady (enabled parsed) P P pending.ops := by
    refine forall_trail_of_guarded (fun pending change hpending hok => ?_) trivial h
    rw [addChange, ops_add]
    exact hpending.addOp fun _ _ => fits_of_pageChange hok.1 hok.2
  intro pending hpending
  rw [enabled_withPendingEnable]
  exact Bool.eq_iff_iff.mp
    ((hsteady pending hpending).shows_eq hP (List.prefix_refl P) hparsed)

/-- SSH is on; it is turned off and on again. -/
def sshOn : ConfigTree := .node [("service", .node [("ssh", .node [])])]

def offAndOn : List NewChange :=
  [⟨⟨.delete, ["service", "ssh"], none⟩, "disable"⟩, ⟨⟨.set, ["service", "ssh"], none⟩, "enable"⟩]

theorem offAndOn_shows_committed :
    (["service", "ssh"] : Path) ≠ [] ∧ (sshOn.store ["service", "ssh"]).isSome = true ∧
      (enabled (withPendingEnable true ["service", "ssh"]
          (offAndOn.foldl addChange .empty).changes) = true ↔
        ((applyOps ⟨fun _ => false⟩ sshOn (offAndOn.foldl addChange .empty).ops).store
          ["service", "ssh"]).isSome = true) := by
  have hguarded : Guarded addChange (fun pending change =>
      PageChange true ["service", "ssh"] pending change ∧
        PlainHere ["service", "ssh"] pending change) .empty offAndOn := by
    refine ⟨⟨⟨fun _ => rfl, fun _ _ _ => by decide, fun _ hset => absurd hset (by decide),
      fun _ hne => absurd rfl hne⟩, fun _ => ⟨rfl, Or.inr ⟨rfl, rfl⟩⟩⟩,
      ⟨⟨fun _ => rfl, fun _ hdelete => absurd hdelete (by decide), fun _ _ _ => by decide,
        fun _ hne => absurd rfl hne⟩, fun _ => ⟨rfl, Or.inl rfl⟩⟩, trivial⟩
  exact ⟨by decide, by decide, withPendingEnable_eq_committed true ⟨fun _ => false⟩ sshOn
    (by decide) (by decide) hguarded _ (by simp [trail, offAndOn])⟩

/-- A node added to `service`, whose path has the text of the feature's. -/
def sameTextOn : List NewChange :=
  [⟨⟨.set, ["service", "dns forwarding"], none⟩, "set service dns forwarding"⟩]

theorem sameTextOn_shows_enabled :
    Guarded addChange (PageChange false ["service", "dns", "forwarding"]) .empty sameTextOn ∧
      enabled (withPendingEnable false ["service", "dns", "forwarding"]
        (sameTextOn.foldl addChange .empty).changes) = true ∧
      (sshOn.store ["service", "dns", "forwarding"]).isSome = false ∧
      ((applyOps ⟨fun _ => false⟩ sshOn (sameTextOn.foldl addChange .empty).ops).store
        ["service", "dns", "forwarding"]).isSome = false := by
  refine ⟨⟨⟨fun habove => absurd habove (by decide), fun hpath => absurd hpath (by decide),
    fun hpath => absurd hpath (by decide), fun hbelow => absurd hbelow (by decide)⟩, trivial⟩, ?_⟩
  decide

end VyosClient.PendingEnable
