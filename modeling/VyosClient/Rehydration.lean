import VyosClient.PendingChanges

/-!
What a page reload does to a queue. `partialize` drops the entries that carry
a value on a masked path and keeps the rest, so a replacement that was queued
as `delete` and `set` comes back as the bare `delete`. The queue survives
safely exactly when nothing queued for the leaf after its last deletion is
still there.
-/

namespace VyosClient.Rehydration

open PathStore ConfigTrees ConfigTree Configure PendingChanges PendingChangesState

/-- `p` is a leaf to an operation that names nothing below it and gives no
value to a node above it. -/
structure LeafFor (p : Path) (o : ConfigOp) : Prop where
  below : p <+: o.path → o.path = p
  above : o.path <+: p → o.path ≠ p → o.sent = none

/-- `p` is a leaf to a queue. A leaf takes values or it is a flag, never both. -/
structure LeafIn (p : Path) (ops : List ConfigOp) : Prop where
  leaf : ∀ o ∈ ops, LeafFor p o
  kind : (∀ o ∈ ops, o.path = p → o.op = .set → o.sent ≠ none) ∨
    ∀ o ∈ ops, o.path = p → o.sent = none

/-- One step of `leftSinceDelete`. -/
def sinceDelete (S : Schema) (p : Path) (st : Option (List String)) (o : ConfigOp) :
    Option (List String) :=
  match o.op, o.sent with
  | .delete, none => if o.path ≠ [] ∧ o.path <+: p then some [] else st
  | .delete, some v => if o.path = p then st.map fun vs => vs.filter (· ≠ v) else st
  | .set, some v =>
      if o.path = p then st.map fun vs => if S.multi p then addValue vs v else [v] else st
  | _, _ => st

/-- The values queued for `p` since `p` or a node above it was last queued for
deletion, less those queued for deletion one by one; `none` when no deletion
is queued. -/
def leftSinceDelete (S : Schema) (p : Path) (ops : List ConfigOp) : Option (List String) :=
  ops.foldl (sinceDelete S p) none

/-- The reloaded queue leaves `p` as the queue before the reload would, or as
it is in `t`, and does not delete what that queue would have left set. -/
def SafeAt (S : Schema) (t : ConfigTree) (s : PendingChangesState) (p : Path) : Prop :=
  ((applyOps S t s.rehydrated.ops).store p = (applyOps S t s.ops).store p ∨
      (applyOps S t s.rehydrated.ops).store p = t.store p) ∧
    ¬ (t.store p ≠ none ∧ (applyOps S t s.rehydrated.ops).store p = none ∧
      (applyOps S t s.ops).store p ≠ none)

instance (S : Schema) (t : ConfigTree) (s : PendingChangesState) (p : Path) :
    Decidable (SafeAt S t s p) := inferInstanceAs (Decidable (_ ∧ _))

/-- "Replace" on a leaf of the configuration tree. -/
def queueSet (s : PendingChangesState) (path : Path) (draft : String) : PendingChangesState :=
  s.addAll [⟨.delete, path, none⟩, ⟨.set, path, some draft⟩]

theorem persisted_eq_true_iff {o : ConfigOp} :
    persisted o = true ↔ o.sent = none ∨ Masking.isMaskedPath o.path = false := by
  unfold persisted ConfigOp.sent
  cases o.value <;> simp [Option.filter_eq_none_iff]

section Leaf

variable {S : Schema} {p : Path} {o : ConfigOp}

/-- An operation that carries a value elsewhere is apart from the leaf. -/
theorem LeafFor.apart (h : LeafFor p o) (hvalue : o.sent ≠ none) (hne : o.path ≠ p) :
    Apart o.path p :=
  ⟨fun hp => hvalue (h.above hp hne), fun hp => hne (h.below hp)⟩

/-- The slot `y` that the reloaded queue leaves at a leaf, against the slot
`x` of the whole queue and the slot `b` of the base configuration. -/
def Tracks (b : Slot String) (st : Option (List String)) (x y : Slot String) : Prop :=
  match st with
  | none => y = b
  | some vs => y = none ∧ x = if vs = [] then none else some vs

/-- An operation without a value reaches both queues. -/
theorem Tracks.step_kept {b x y : Slot String} {st : Option (List String)} (ht : Tracks b st x y)
    (h : LeafFor p o) (hkind : o.path = p → o.op = .set → o.sent ≠ none) (hsent : o.sent = none) :
    Tracks b (sinceDelete S p st o) (actOp S p x o) (actOp S p y o) := by
  obtain ⟨kind, q, value⟩ := o
  cases kind with
  | comment => simpa [sinceDelete, actOp, ConfigOp.toEdit] using ht
  | set =>
    have hq : q ≠ p := fun hq => hkind hq rfl hsent
    have hpq : ¬ p <+: q := fun hp => hq (h.below hp)
    by_cases hqp : p = q
    · exact absurd hqp.symm hq
    · simpa [sinceDelete, actOp, ConfigOp.toEdit, hsent, act, hqp, hpq] using ht
  | delete =>
    by_cases hroot : q = []
    · subst hroot
      simpa [sinceDelete, actOp, ConfigOp.toEdit, hsent] using ht
    · by_cases hq : q <+: p
      · simp [sinceDelete, actOp, ConfigOp.toEdit, hsent, act, hq, hroot, Tracks]
      · simpa [sinceDelete, actOp, ConfigOp.toEdit, hsent, act, hq, hroot] using ht

/-- An operation with a value at the leaf reaches the whole queue only. -/
theorem Tracks.step_dropped {b x y : Slot String} {st : Option (List String)}
    (ht : Tracks b st x y) (hp : p ≠ []) {v : String} (hpath : o.path = p)
    (hsent : o.sent = some v) :
    Tracks b (sinceDelete S p st o) (actOp S p x o) y := by
  obtain ⟨kind, q, value⟩ := o
  have hq : q = p := hpath
  subst hq
  cases st with
  | none =>
    have hnone : sinceDelete S q none ⟨kind, q, value⟩ = none := by
      cases kind <;> simp [sinceDelete, hsent]
    rw [hnone]
    exact ht
  | some vs =>
    obtain ⟨hy, hx⟩ := ht
    have hgetD : x.getD [] = vs := by
      rw [hx]
      split_ifs with hvs
      · exact hvs.symm
      · rfl
    cases kind with
    | comment => exact ⟨hy, hx⟩
    | set =>
      simp only [sinceDelete, hsent, ↓reduceIte, Option.map_some]
      refine ⟨hy, ?_⟩
      have hne : (if S.multi q then addValue vs v else [v]) ≠ [] := by
        unfold addValue
        split_ifs with hm hmem
        · exact List.ne_nil_of_mem hmem
        · simp
        · simp
      simp [actOp, ConfigOp.toEdit, hsent, act, hgetD, hne]
    | delete =>
      simp only [sinceDelete, hsent, ↓reduceIte, Option.map_some]
      refine ⟨hy, ?_⟩
      simp only [actOp, ConfigOp.toEdit, hsent, hp, act, ↓reduceIte, hx]
      by_cases hvs : vs = []
      · simp [hvs, dropValue]
      · rw [if_neg hvs]
        by_cases hrest : vs.filter (· ≠ v) = []
        · have hmem : v ∈ vs := by
            obtain ⟨w, hw⟩ := List.exists_mem_of_ne_nil vs hvs
            have hwv : w = v := by simpa using List.filter_eq_nil_iff.mp hrest w hw
            exact hwv ▸ hw
          simp only [dropValue, hmem, hrest, and_self, ↓reduceIte]
        · simp only [dropValue, hrest, and_false, ↓reduceIte]

/-- Elsewhere a value matters neither to the leaf nor to the scan. -/
theorem sinceDelete_of_ne {st : Option (List String)} (hvalue : o.sent ≠ none)
    (hne : o.path ≠ p) : sinceDelete S p st o = st := by
  obtain ⟨v, hv⟩ := Option.ne_none_iff_exists'.mp hvalue
  obtain ⟨kind, q, value⟩ := o
  have hq : q ≠ p := hne
  cases kind <;> simp [sinceDelete, hv, hq]

end Leaf

section Queue

variable {S : Schema} {p : Path} {ops : List ConfigOp}

theorem tracks_run (hmask : Masking.isMaskedPath p = true) (hleaf : ∀ o ∈ ops, LeafFor p o)
    (hkind : ∀ o ∈ ops, o.path = p → o.op = .set → o.sent ≠ none) {b x y : Slot String}
    {st : Option (List String)} (ht : Tracks b st x y) :
    Tracks b (ops.foldl (sinceDelete S p) st) (ops.foldl (actOp S p) x)
      ((ops.filter persisted).foldl (actOp S p) y) := by
  have hp : p ≠ [] := by
    rintro rfl
    exact absurd hmask (by decide)
  induction ops generalizing st x y with
  | nil => exact ht
  | cons o ops ih =>
    have hrest := fun {x y st} => @ih (fun o' ho' => hleaf o' (List.mem_cons_of_mem _ ho'))
      (fun o' ho' => hkind o' (List.mem_cons_of_mem _ ho')) x y st
    have ho := hleaf o List.mem_cons_self
    by_cases hsent : o.sent = none
    · have hkeep : persisted o = true := persisted_eq_true_iff.mpr (Or.inl hsent)
      rw [List.filter_cons_of_pos hkeep]
      exact hrest (ht.step_kept ho (hkind o List.mem_cons_self) hsent)
    · by_cases hpath : o.path = p
      · have hdrop : ¬ persisted o = true := by
          rw [persisted_eq_true_iff, hpath, hmask]
          simp [hsent]
        obtain ⟨v, hv⟩ := Option.ne_none_iff_exists'.mp hsent
        rw [List.filter_cons_of_neg hdrop]
        exact hrest (ht.step_dropped hp hpath hv)
      · have hsame : ∀ z, actOp S p z o = z := actOp_of_apart S (ho.apart hsent hpath)
        have hst : Tracks b (sinceDelete S p st o) (actOp S p x o) y := by
          rwa [sinceDelete_of_ne hsent hpath, hsame]
        by_cases hkeep : persisted o = true
        · rw [List.filter_cons_of_pos hkeep]
          simpa only [List.foldl_cons, hsame y] using hrest hst
        · rw [List.filter_cons_of_neg hkeep]
          exact hrest hst

/-- On a flag leaf no entry that matters is dropped. -/
theorem run_filter_flag (hleaf : ∀ o ∈ ops, LeafFor p o)
    (hflag : ∀ o ∈ ops, o.path = p → o.sent = none) (x : Slot String) :
    (ops.filter persisted).foldl (actOp S p) x = ops.foldl (actOp S p) x := by
  induction ops generalizing x with
  | nil => rfl
  | cons o ops ih =>
    have hrest := ih (fun o' ho' => hleaf o' (List.mem_cons_of_mem _ ho'))
      (fun o' ho' => hflag o' (List.mem_cons_of_mem _ ho'))
    by_cases hkeep : persisted o = true
    · rw [List.filter_cons_of_pos hkeep]
      exact hrest _
    · have hsent : o.sent ≠ none := fun h => hkeep (persisted_eq_true_iff.mpr (Or.inl h))
      have hne : o.path ≠ p := fun h => hsent (hflag o List.mem_cons_self h)
      rw [List.filter_cons_of_neg hkeep, List.foldl_cons,
        actOp_of_apart S ((hleaf o List.mem_cons_self).apart hsent hne)]
      exact hrest x

theorem leftSinceDelete_flag (hflag : ∀ o ∈ ops, o.path = p → o.sent = none) :
    leftSinceDelete S p ops = none ∨ leftSinceDelete S p ops = some [] := by
  unfold leftSinceDelete
  induction ops using List.reverseRecOn with
  | nil => exact Or.inl rfl
  | append_singleton ops o ih =>
    rw [List.foldl_append]
    have hprev := ih fun o' ho' => hflag o' (List.mem_append_left _ ho')
    by_cases hsent : o.sent = none
    · obtain ⟨kind, q, value⟩ := o
      by_cases hq : q ≠ [] ∧ q <+: p <;> cases kind <;> simp [sinceDelete, hsent, hq, hprev]
    · have hne : o.path ≠ p := fun h => hsent (hflag o (by simp) h)
      simpa only [List.foldl_cons, List.foldl_nil, sinceDelete_of_ne hsent hne] using hprev

end Queue

/-- A configuration in which the leaf is set. -/
private theorem exists_store_eq (p : Path) (v : String) :
    ∃ t : ConfigTree, t.WellFormed ∧ t.store p = some [v] := by
  have hempty : (ConfigTree.node []).WellFormed := wellFormed_node_iff.mpr ⟨by simp, by simp⟩
  refine ⟨setNested (fun _ => false) (some v) (.node []) p, WellFormed.setNested hempty _ _ _, ?_⟩
  rw [store_setNested]
  simp [PathStore.apply, act]

/-- The cart survives a reload safely at a masked leaf, whatever the base
configuration, exactly when no value queued for it after its last queued
deletion is still there. -/
theorem safe_iff_leftSinceDelete (S : Schema) (s : PendingChangesState) {p : Path}
    (hmask : Masking.isMaskedPath p = true) (hleaf : LeafIn p s.ops) :
    (∀ t : ConfigTree, t.WellFormed → SafeAt S t s p) ↔
      leftSinceDelete S p s.ops = none ∨ leftSinceDelete S p s.ops = some [] := by
  have hx : ∀ t : ConfigTree, (applyOps S t s.ops).store p =
      s.ops.foldl (actOp S p) (t.store p) := by
    intro t
    rw [store_applyOps, run_edits_apply]
  have hy : ∀ t : ConfigTree, (applyOps S t s.rehydrated.ops).store p =
      (s.ops.filter persisted).foldl (actOp S p) (t.store p) := by
    intro t
    rw [store_applyOps, run_edits_apply, ops_rehydrated]
  rcases hleaf.kind with hvalued | hflag
  · have htracks : ∀ t : ConfigTree, Tracks (t.store p) (leftSinceDelete S p s.ops)
        ((applyOps S t s.ops).store p) ((applyOps S t s.rehydrated.ops).store p) := by
      intro t
      rw [hx, hy]
      exact tracks_run hmask hleaf.leaf hvalued rfl
    constructor
    · intro hsafe
      by_contra hleft
      obtain ⟨hnone, hnil⟩ := not_or.mp hleft
      obtain ⟨vs, hvs⟩ := Option.ne_none_iff_exists'.mp hnone
      have hne : vs ≠ [] := fun h => hnil (h ▸ hvs)
      obtain ⟨t, hwf, hset⟩ := exists_store_eq p "value"
      have ht := htracks t
      rw [hvs] at ht
      obtain ⟨hreload, horig⟩ := ht
      rw [if_neg hne] at horig
      rcases (hsafe t hwf).1 with hsame | hbase
      · rw [hreload, horig] at hsame
        exact absurd hsame (by simp)
      · rw [hreload, hset] at hbase
        exact absurd hbase (by simp)
    · intro hleft t _
      have ht := htracks t
      rcases hleft with hleft | hleft
      · rw [hleft] at ht
        refine ⟨Or.inr ht, ?_⟩
        rintro ⟨hbase, hreload, _⟩
        exact hbase (ht.symm.trans hreload)
      · rw [hleft] at ht
        obtain ⟨hreload, horig⟩ := ht
        refine ⟨Or.inl (hreload.trans horig.symm), ?_⟩
        rintro ⟨_, _, hset⟩
        exact hset horig
  · have hsame : ∀ t : ConfigTree,
        (applyOps S t s.rehydrated.ops).store p = (applyOps S t s.ops).store p := by
      intro t
      rw [hx, hy]
      exact run_filter_flag hleaf.leaf hflag _
    refine ⟨fun _ => leftSinceDelete_flag hflag, fun _ t _ => ⟨Or.inl (hsame t), ?_⟩⟩
    rintro ⟨_, hreload, hset⟩
    exact hset ((hsame t).symm.trans hreload)

/-- A new password for a user, queued before the reload. -/
def passwordPath : Path :=
  ["system", "login", "user", "vyos", "authentication", "encrypted-password"]

theorem leafIn_queueSet_password (draft : String) (hdraft : draft ≠ "") :
    LeafIn passwordPath (queueSet .empty passwordPath draft).ops := by
  have hops : (queueSet .empty passwordPath draft).ops =
      [⟨.delete, passwordPath, none⟩, ⟨.set, passwordPath, some draft⟩] := by
    simp [queueSet, addAll, add, ops, addTo, repeatsLast, cancelled, PendingChangesState.empty]
  rw [hops]
  refine ⟨?_, Or.inl ?_⟩
  · intro o ho
    refine ⟨fun _ => ?_, fun _ hne => absurd ?_ hne⟩ <;>
    · rcases List.mem_pair.mp ho with rfl | rfl <;> rfl
  · intro o ho _ hset
    rcases List.mem_pair.mp ho with rfl | rfl
    · exact absurd hset (by decide)
    · simp [ConfigOp.sent, Option.filter_eq_none_iff, hdraft]

/-- The replaced password is deleted by the reloaded queue. -/
theorem queueSet_password_not_safe :
    Masking.isMaskedPath passwordPath = true ∧
      LeafIn passwordPath (queueSet .empty passwordPath "new").ops ∧
      ¬ SafeAt ⟨fun _ => false⟩
        (setNested (fun _ => false) (some "old") (.node []) passwordPath)
        (queueSet .empty passwordPath "new") passwordPath :=
  ⟨by decide, leafIn_queueSet_password "new" (by decide), by decide⟩

/-- With the new password taken back, the deletion alone is safe. -/
theorem safe_password_deleted :
    ((queueSet .empty passwordPath "new").remove 1).ops = [⟨.delete, passwordPath, none⟩] ∧
      ∀ t : ConfigTree, t.WellFormed → SafeAt ⟨fun _ => false⟩ t
        ((queueSet .empty passwordPath "new").remove 1) passwordPath := by
  have hops : ((queueSet .empty passwordPath "new").remove 1).ops =
      [⟨.delete, passwordPath, none⟩] := by decide
  have hleaf : LeafIn passwordPath ((queueSet .empty passwordPath "new").remove 1).ops := by
    have hqueued := leafIn_queueSet_password "new" (by decide)
    rw [hops]
    refine ⟨fun o ho => hqueued.leaf o ?_, Or.inr ?_⟩
    · exact List.mem_singleton.mp ho ▸ by decide
    · intro o ho _
      rw [List.mem_singleton.mp ho]
      rfl
  exact ⟨hops, (safe_iff_leftSinceDelete _ _ (by decide) hleaf).mpr (Or.inr (by decide))⟩

end VyosClient.Rehydration
