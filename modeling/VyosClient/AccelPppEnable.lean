import VyosClient.AccelPppForm
import VyosClient.PendingEnable

/-!
The "Enable" and "Disable" buttons of the accel-ppp servers. Both act on the
server's own node, and so does the view of the queued changes, while the parser
looks for the node that holds the settings. For SSTP the two nodes are one.
-/

namespace VyosClient.AccelPppEnable

open PathStore ConfigTrees ConfigTree Configure PendingChanges PendingChangesState PendingEnable
open AccelPpp AccelPppForm Runs

instance : HasEnabled AccelPppConfig where
  enabled := AccelPppConfig.enabled
  withEnabled parsed enabled := { parsed with enabled := enabled }
  enabled_withEnabled _ _ := rfl

/-- What the page shows: the fetched section with the queued changes over it. -/
def useVpnConfig (kind : AccelPppKind) (t : ConfigTree) (pending : PendingChangesState) :
    AccelPppConfig :=
  withPendingEnable (parseAccelPppConfig kind (fetchedSection kind t)) (accelPppKindPath kind [])
    pending.changes

/-- An operation the pages queue beside the two buttons. -/
structure SettingsOp (kind : AccelPppKind) where
  action : SettingsAction
  op : ConfigOp
  mem : op ∈ action.ops kind

inductive Event (kind : AccelPppKind)
  | enable
  | disable
  | settings (o : SettingsOp kind)

/-- The page offers one button at a time. -/
def step (kind : AccelPppKind) (t : ConfigTree) (pending : PendingChangesState) :
    Event kind → PendingChangesState
  | .enable =>
      if (useVpnConfig kind t pending).enabled then pending
      else pending.add (enableAccelPppOp kind) (opLabel (enableAccelPppOp kind))
  | .disable =>
      if (useVpnConfig kind t pending).enabled then
        pending.add (disableAccelPppOp kind) (opLabel (disableAccelPppOp kind))
      else pending
  | .settings o => pending.add o.op (opLabel o.op)

/-- Once committed, the queue leaves the page as it is. -/
def Agrees (kind : AccelPppKind) (S : Schema) (t : ConfigTree) (pending : PendingChangesState) :
    Prop :=
  (useVpnConfig kind t pending).enabled =
    (parseAccelPppConfig kind (fetchedSection kind (applyOps S t pending.ops))).enabled

/-- "Enable" queues something only where the server's node holds its settings,
and nothing is set while the page shows the server as off. Taking a queued
deletion back is always fine. -/
def Safe (kind : AccelPppKind) (t : ConfigTree) (pending : PendingChangesState) :
    Event kind → Prop
  | .enable =>
      (useVpnConfig kind t pending).enabled = false →
        kind = .sstp ∨ (cancelled pending.ops (enableAccelPppOp kind)).isSome
  | .disable => True
  | .settings o =>
      o.op.op = .set → (useVpnConfig kind t pending).enabled = false →
        (cancelled pending.ops o.op).isSome

/-- The server's node, or something below the node of its settings. -/
def Ours (kind : AccelPppKind) (o : ConfigOp) : Prop :=
  (o.path = accelPppKindPath kind [] ∧ o.op ≠ .comment) ∨ Below kind o

/-- What the safe steps keep. -/
structure Consistent (kind : AccelPppKind) (t : ConfigTree) (pending : PendingChangesState) :
    Prop where
  ours : ∀ o ∈ pending.ops, Ours kind o
  steady : Steady (parseAccelPppConfig kind (fetchedSection kind t)).enabled
    (accelPppKindPath kind []) (accelPppBasePath kind []) pending.ops

theorem enabled_useVpnConfig (kind : AccelPppKind) (t : ConfigTree)
    (pending : PendingChangesState) :
    (useVpnConfig kind t pending).enabled =
      shows (parseAccelPppConfig kind (fetchedSection kind t)).enabled (accelPppKindPath kind [])
        pending.ops :=
  enabled_withPendingEnable (parseAccelPppConfig kind (fetchedSection kind t)) _ _

variable {kind : AccelPppKind} {t : ConfigTree}

theorem Consistent.agrees {pending : PendingChangesState} (h : Consistent kind t pending)
    (S : Schema) : Agrees kind S t pending := by
  unfold Agrees
  rw [enabled_useVpnConfig, enabled_parseAccelPppConfig kind (applyOps S t pending.ops)]
  exact h.steady.shows_eq (by simp [accelPppKindPath]) (accelPppKindPath_isPrefix kind)
    (enabled_parseAccelPppConfig kind t)

theorem consistent_empty : Consistent kind t .empty :=
  ⟨fun o ho => absurd ho (by simp [PendingChangesState.empty, PendingChangesState.ops]), trivial⟩

/-- Queueing an operation of the page that fits unless it is swallowed. -/
theorem Consistent.add {pending : PendingChangesState} (h : Consistent kind t pending)
    {op : ConfigOp} (hours : Ours kind op)
    (hfits : cancelled pending.ops op = none →
      Fits (parseAccelPppConfig kind (fetchedSection kind t)).enabled (accelPppKindPath kind [])
        (accelPppBasePath kind []) pending.ops op) (label : String) :
    Consistent kind t (pending.add op label) := by
  constructor
  · intro o ho
    rw [ops_add] at ho
    rcases List.mem_append.mp ((addOp_sublist _ _).subset ho) with ho | ho
    · exact h.ours o ho
    · rw [List.mem_singleton.mp ho]
      exact hours
  · rw [ops_add]
    exact h.steady.addOp fun _ hcan => hfits hcan

theorem consistent_step (pending : PendingChangesState) (e : Event kind)
    (h : Consistent kind t pending) (hsafe : Safe kind t pending e) :
    Consistent kind t (step kind t pending e) := by
  cases e with
  | enable =>
    unfold step
    split_ifs with hshown
    · exact h
    · refine h.add (Or.inl ⟨rfl, by simp [enableAccelPppOp]⟩) (fun hcan => ?_) _
      rcases hsafe (by simpa using hshown) with hsstp | hback
      · subst hsstp
        refine ⟨fun _ => ⟨rfl, Or.inl ⟨rfl, rfl⟩⟩, fun _ hdelete => ?_, fun hne => absurd rfl hne⟩
        exact absurd hdelete (by simp [enableAccelPppOp])
      · exact absurd hback (by simp [hcan])
  | disable =>
    unfold step
    split_ifs with hshown
    · refine h.add (Or.inl ⟨rfl, by simp [disableAccelPppOp]⟩) (fun _ => ?_) _
      refine ⟨fun _ => ⟨rfl, Or.inr ⟨rfl, rfl⟩⟩, fun _ _ _ => ?_, fun hne => absurd rfl hne⟩
      rwa [← enabled_useVpnConfig]
    · exact h
  | settings o =>
    have hbelow := o.action.below o.mem
    refine h.add (Or.inr hbelow) (fun hcan => ?_) _
    refine ⟨fun heq => absurd heq hbelow.joined_ne, fun heq => absurd heq hbelow.joined_ne,
      fun _ => Or.inr ⟨hbelow.isPrefix.1, hbelow.isPrefix.2, fun hset => ?_⟩⟩
    rw [← enabled_useVpnConfig]
    by_contra hoff
    exact absurd (hsafe hset (by simpa using hoff)) (by simp [hcan])

/-- While the view is off nothing that is set repeats the last entry. -/
theorem repeatsLast_eq_false {pending : PendingChangesState} (h : Consistent kind t pending)
    (hoff : (useVpnConfig kind t pending).enabled = false) {op : ConfigOp} (hset : op.op = .set) :
    repeatsLast pending.ops op = false := by
  by_contra hrep
  obtain ⟨pre, prev, hsplit, hop, _, _⟩ := repeatsLast_eq_true (by simpa using hrep)
  rw [enabled_useVpnConfig, hsplit] at hoff
  have hprev := h.steady
  rw [hsplit] at hprev
  have hfits := (guarded_append.mp hprev).2.1
  rw [foldl_append_eq, List.nil_append] at hfits
  rcases h.ours prev (by simp [hsplit]) with ⟨hpath, _⟩ | hbelow
  · rw [shows_append_of_eq (congrArg joined hpath), hop, hset] at hoff
    exact absurd hoff (by simp)
  · rw [shows_append_of_ne hbelow.joined_ne] at hoff
    rcases hfits.elsewhere hbelow.joined_ne with hapart | ⟨_, _, hon⟩
    · exact hapart.2 hbelow.isPrefix.1
    · exact absurd (hon (hop.trans hset)) (by simp [hoff])

/-- An operation that is not safe shows: it is queued, and then the view and
the parser part. -/
theorem not_agrees_step (S : Schema) (pending : PendingChangesState) (e : Event kind)
    (h : Consistent kind t pending) (hnot : ¬ Safe kind t pending e) :
    ¬ Agrees kind S t (step kind t pending e) := by
  have hagrees := h.agrees S
  unfold Agrees at hagrees ⊢
  rw [enabled_parseAccelPppConfig, store_applyOps, run_edits_apply] at hagrees ⊢
  cases e with
  | disable => exact absurd trivial hnot
  | enable =>
    obtain ⟨hoff, hrest⟩ := Classical.not_imp.mp hnot
    obtain ⟨hkind, hcan⟩ := not_or.mp hrest
    have hqueued : (step kind t pending .enable).ops = pending.ops ++ [enableAccelPppOp kind] := by
      have hnone : cancelled pending.ops (enableAccelPppOp kind) = none := by simpa using hcan
      have hfresh : repeatsLast pending.ops (enableAccelPppOp kind) = false :=
        repeatsLast_eq_false h hoff rfl
      simp only [step, hoff, Bool.false_eq_true, ↓reduceIte, ops_add, addOp, hfresh, hnone]
    have hwrapped : accelPppKindPath kind [] <+: accelPppBasePath kind [] ∧
        accelPppBasePath kind [] ≠ accelPppKindPath kind [] := by
      cases kind with
      | sstp => exact absurd rfl hkind
      | l2tp => decide
      | pptp => decide
    have hview : shows (parseAccelPppConfig kind (fetchedSection kind t)).enabled
        (accelPppKindPath kind []) (pending.ops ++ [enableAccelPppOp kind]) = true :=
      shows_append_of_eq rfl _
    have hact : ∀ x, actOp S (accelPppBasePath kind []) x (enableAccelPppOp kind) = x :=
      fun x => act_create_below S.multi hwrapped.1 hwrapped.2 x
    rw [enabled_useVpnConfig, hqueued, hview, List.foldl_append, List.foldl_cons, List.foldl_nil,
      hact, ← hagrees, hoff]
    simp
  | settings o =>
    have hbelow := o.action.below o.mem
    obtain ⟨hset, hrest⟩ := Classical.not_imp.mp hnot
    obtain ⟨hoff, hcan⟩ := Classical.not_imp.mp hrest
    have hqueued : (step kind t pending (.settings o)).ops = pending.ops ++ [o.op] := by
      have hnone : cancelled pending.ops o.op = none := by simpa using hcan
      simp only [step, ops_add, addOp, repeatsLast_eq_false h hoff hset, hnone,
        Bool.false_eq_true, ↓reduceIte]
    rw [enabled_useVpnConfig, hqueued, shows_append_of_ne hbelow.joined_ne, ← enabled_useVpnConfig,
      hoff, List.foldl_append, List.foldl_cons, List.foldl_nil,
      actOp_above S hbelow.isPrefix.1 hbelow.isPrefix.2, if_pos hset]
    simp

/-- The page keeps its state through every commit of a run exactly when every
step of the run is safe. -/
theorem agrees_iff_safe (kind : AccelPppKind) (S : Schema) (t : ConfigTree)
    (es : List (Event kind)) :
    (∀ pending ∈ trail (step kind t) .empty es, Agrees kind S t pending) ↔
      Guarded (step kind t) (Safe kind t) .empty es :=
  (guarded_iff_forall_trail consistent_step (fun _ h => h.agrees S) (not_agrees_step S)
    consistent_empty es).symm

/-- L2TP is not configured, and its button is clicked. -/
theorem enabled_l2tp_disappears :
    ¬ ∀ pending ∈ trail (step .l2tp (.node [])) .empty [.enable],
      Agrees .l2tp ⟨fun _ => false⟩ (.node []) pending := by
  intro hall
  have hlast := hall (step .l2tp (.node []) .empty .enable) (by simp [trail])
  unfold Agrees at hlast
  exact absurd hlast (by decide)

end VyosClient.AccelPppEnable
