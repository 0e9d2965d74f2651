import VyosClient.PendingChanges

/-!
What the queue amounts to beside what was put in. The queue leaves operations
out, those it takes for repetitions and the deletions it takes back, and it
compares paths by their joined text. As long as what it compares with has the
same path, nothing that counts is left out.
-/

namespace VyosClient.CartEffect

open PathStore ConfigTrees Configure PendingChanges PendingChangesState Runs

/-- `arrived` is everything `add` was called with, in order. -/
structure Cart where
  pending : PendingChangesState
  arrived : List ConfigOp

def Cart.empty : Cart := ⟨.empty, []⟩

def add (cart : Cart) (change : NewChange) : Cart where
  pending := cart.pending.addChange change
  arrived := cart.arrived ++ [change.op]

/-- The latest queued operation on exactly this path is a valueless `delete`. -/
def DeletedLast (queued : List ConfigOp) (path : Path) : Prop :=
  ∃ pre latest post, queued = pre ++ latest :: post ∧ latest.path = path ∧
    latest.op = .delete ∧ latest.value = none ∧ ∀ o ∈ post, o.path ≠ path

/-- No "Enable" of a path whose deletion is queued. -/
def NoneTakenBack (cart : Cart) (change : NewChange) : Prop :=
  change.op.op = .set → change.op.value = none → ¬ DeletedLast cart.pending.ops change.op.path

/-- The entry an operation is compared with, the last one or the deletion it
would take back, has its path and not only its text. -/
def ComparesPaths (cart : Cart) (change : NewChange) : Prop :=
  (repeatsLast cart.pending.ops change.op = true →
      ∀ prev ∈ cart.pending.ops.getLast?, prev.path = change.op.path) ∧
    ∀ i, cancelled cart.pending.ops change.op = some i →
      ∀ latest ∈ cart.pending.ops[i]?, latest.path = change.op.path

/-- Applying the queue gives the configuration that everything put in gives. -/
def SameEffect (cart : Cart) : Prop :=
  ∀ (S : Schema) (base : ConfigTree),
    (applyOps S base cart.pending.ops).store = (applyOps S base cart.arrived).store

theorem sameEffect_empty : SameEffect .empty := fun _ _ => rfl

theorem cancelled_eq_none {cart : Cart} {change : NewChange} (hkept : NoneTakenBack cart change)
    (hpaths : ComparesPaths cart change) : cancelled cart.pending.ops change.op = none := by
  cases hcan : cancelled cart.pending.ops change.op with
  | none => rfl
  | some i =>
    obtain ⟨hset, hvalue, pre, latest, post, hsplit, hi, hdelete, hnone, hjoin, hpost⟩ :=
      cancelled_eq_some hcan
    have hget : cart.pending.ops[i]? = some latest := by
      rw [hsplit, ← hi]
      simp
    have hpath := hpaths.2 i hcan latest (Option.mem_def.mpr hget)
    refine absurd ⟨pre, latest, post, hsplit, hpath, hdelete, hnone, ?_⟩ (hkept hset hvalue)
    intro o ho heq
    exact hpost o ho (congrArg joined heq)

theorem sameEffect_add (cart : Cart) (change : NewChange) (h : SameEffect cart)
    (hok : NoneTakenBack cart change ∧ ComparesPaths cart change) : SameEffect (add cart change) := by
  intro S base
  have hrepeat : repeatsLast cart.pending.ops change.op = true →
      cart.pending.ops.getLast? = some change.op := fun hrep =>
    getLast_eq_of_repeatsLast (fun prev hprev _ => hok.2.1 hrep prev hprev) hrep
  have hbefore : run S.multi base.store (edits cart.pending.ops) =
      run S.multi base.store (edits cart.arrived) := by
    rw [← store_applyOps, ← store_applyOps]
    exact h S base
  rw [store_applyOps, store_applyOps]
  calc run S.multi base.store (edits (add cart change).pending.ops)
      = run S.multi base.store (edits (addOp cart.pending.ops change.op)) := by
        rw [← ops_add cart.pending change.op change.label]
        rfl
    _ = run S.multi base.store (edits (cart.pending.ops ++ [change.op])) :=
        run_addOp S.multi hrepeat (cancelled_eq_none hok.1 hok.2) _
    _ = run S.multi base.store (edits (cart.arrived ++ [change.op])) := by
        rw [edits_append, run_append, hbefore, ← run_append, ← edits_append]

/-- In every run of changes of `add` that takes no deletion back, the queue keeps
the effect of everything put in, in every state, as long as equal texts are
equal paths where `add` compares them. -/
theorem sameEffect_of_comparesPaths {changes : List NewChange}
    (h : Guarded add (fun cart change => NoneTakenBack cart change ∧ ComparesPaths cart change)
      .empty changes) :
    ∀ cart ∈ trail add .empty changes, SameEffect cart :=
  forall_trail_of_guarded sameEffect_add sameEffect_empty h

/-- A service is enabled and one of its addresses is clicked twice. -/
def clickedTwice : List NewChange :=
  [⟨⟨.set, ["service", "ssh"], none⟩, "enable"⟩,
    ⟨⟨.set, ["service", "ssh", "listen-address"], some "10.0.0.1"⟩, "address"⟩,
    ⟨⟨.set, ["service", "ssh", "listen-address"], some "10.0.0.1"⟩, "address"⟩]

theorem clickedTwice_sameEffect :
    (clickedTwice.foldl add .empty).pending.ops.length = 2 ∧
      SameEffect (clickedTwice.foldl add .empty) := by
  have hguarded : Guarded add (fun cart change => NoneTakenBack cart change ∧ ComparesPaths cart change)
      .empty clickedTwice := by
    refine ⟨⟨fun _ _ hdeleted => ?_, by decide, ?_⟩, ⟨?_, by decide, ?_⟩, ⟨?_, by decide, ?_⟩, trivial⟩
    · obtain ⟨pre, latest, post, hnil, -⟩ := hdeleted
      exact absurd hnil (by simp [Cart.empty, PendingChangesState.empty, PendingChangesState.ops])
    · exact fun i hi => absurd hi (by simp [cancelled_eq_none_of_forall, Cart.empty,
        PendingChangesState.empty, PendingChangesState.ops])
    · exact fun _ hvalue => absurd hvalue (by simp)
    · exact fun i hi => absurd hi (by simp [cancelled_eq_none_of_set])
    · exact fun _ hvalue => absurd hvalue (by simp)
    · exact fun i hi => absurd hi (by simp [cancelled_eq_none_of_set])
  exact ⟨by decide, sameEffect_of_comparesPaths hguarded _ (by simp [trail, clickedTwice])⟩

/-- Dynamic DNS is on, so that both nodes can be added to the tree. -/
def dynamicDnsOn : ConfigTree :=
  .node [("service", .node [("dns", .node [("dynamic", .node [])])])]

/-- Two nodes, added to `service` and to `service dns`, whose paths have the same text. -/
def sameText : List NewChange :=
  [⟨⟨.set, ["service", "dns forwarding"], none⟩, "set service dns forwarding"⟩,
    ⟨⟨.set, ["service", "dns", "forwarding"], none⟩, "set service dns forwarding"⟩]

theorem sameText_loses_set :
    Guarded add NoneTakenBack .empty sameText ∧ ¬ SameEffect (sameText.foldl add .empty) := by
  have hnoDelete {queued : List ConfigOp} {path : Path} (hqueued : ∀ o ∈ queued, o.op = .set) :
      ¬ DeletedLast queued path := by
    rintro ⟨pre, latest, post, rfl, -, hdelete, -⟩
    have hset := hqueued latest (by simp)
    rw [hdelete] at hset
    cases hset
  refine ⟨⟨fun _ _ => hnoDelete (by decide), fun _ _ => hnoDelete (by decide), trivial⟩,
    fun h => ?_⟩
  have hslot := congrFun (h ⟨fun _ => false⟩ dynamicDnsOn) ["service", "dns", "forwarding"]
  exact absurd hslot (by decide)

end VyosClient.CartEffect
