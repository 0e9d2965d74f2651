import VyosClient.PendingEnable

/-!
What a click on "Enable" comes to in any queue. It is appended, and then it
wins; or it repeats the entry queued last; or it takes back the latest deletion
of the feature and queues nothing. In the last case the feature is there only if
it showed as enabled before that deletion, and was there, and nothing queued
since removes it.
-/

namespace VyosClient.EnableClick

open PathStore ConfigTrees Configure PendingChanges PendingChangesState PendingEnable HasEnabled

/-- A valueless `set` of the feature's path. -/
def enableOp (P : Path) : ConfigOp := ⟨.set, P, none⟩

/-- The latest entry with the text of the path is a valueless deletion. -/
structure TakenBack (P : Path) (latest : ConfigOp) (post : List ConfigOp) : Prop where
  delete : latest.op = .delete
  valueless : latest.value = none
  text : joined latest.path = joined P
  last : ∀ o ∈ post, joined o.path ≠ joined P

/-- An entry with the text of an "Enable" click. -/
structure SameClick (P : Path) (prev : ConfigOp) : Prop where
  set : prev.op = .set
  valueless : prev.value = none
  text : joined prev.path = joined P

/-- An operation below a node that brings the node about. -/
def SetsBelow (P : Path) (o : ConfigOp) : Prop := P <+: o.path ∧ P ≠ o.path ∧ o.op = .set

/-- An operation above a node that takes the node away: a deletion, or a value in its place. -/
def RemovesAbove (P : Path) (o : ConfigOp) : Prop :=
  o.path <+: P ∧ o.path ≠ P ∧
    (o.op = .delete ∧ o.sent = none ∧ o.path ≠ [] ∨ o.op = .set ∧ o.sent ≠ none)

instance (P : Path) (o : ConfigOp) : Decidable (SetsBelow P o) := inferInstanceAs (Decidable (_ ∧ _))

instance (P : Path) (o : ConfigOp) : Decidable (RemovesAbove P o) :=
  inferInstanceAs (Decidable (_ ∧ _))

/-- Whether a node is there after an operation elsewhere. -/
def thereAfter (P : Path) (there : Bool) (o : ConfigOp) : Bool :=
  if SetsBelow P o then true else if RemovesAbove P o then false else there

/-- Whether a queue leaves a node in the configuration. -/
def Leaves (S : Schema) (base : ConfigTree) (P : Path) (queued : List ConfigOp) : Bool :=
  ((applyOps S base queued).store P).isSome

section Queue

variable {S : Schema} {base : ConfigTree} {P : Path} {queued : List ConfigOp} {e : Bool}

theorem leaves_append (pre post : List ConfigOp) :
    Leaves S base P (pre ++ post) =
      (post.foldl (actOp S P) ((applyOps S base pre).store P)).isSome := by
  unfold Leaves
  rw [store_applyOps, store_applyOps, run_edits_apply, run_edits_apply, List.foldl_append]

theorem leaves_root : Leaves S base [] queued = true := by
  unfold Leaves
  rw [ConfigTree.store_nil]
  rfl

/-- A set of the node itself leaves it. -/
theorem leaves_append_enableOp : Leaves S base P (queued ++ [enableOp P]) = true := by
  rw [leaves_append, List.foldl_cons, List.foldl_nil, enableOp, actOp_set_flag]
  rfl

/-- An operation that names another path. -/
theorem isSome_actOp {o : ConfigOp} (hne : o.path ≠ P) (x : Slot String) :
    (actOp S P x o).isSome = thereAfter P x.isSome o := by
  unfold thereAfter
  by_cases hbelow : P <+: o.path
  · have hnot : ¬ RemovesAbove P o := fun h => hne (h.1.eq_of_length_le hbelow.length_le)
    rw [actOp_above S hbelow (Ne.symm hne), if_neg hnot]
    by_cases hset : o.op = .set
    · rw [if_pos hset, if_pos ⟨hbelow, Ne.symm hne, hset⟩]
      rfl
    · rw [if_neg hset, if_neg fun h => hset h.2.2]
  · rw [if_neg fun h => hbelow h.1]
    by_cases habove : o.path <+: P
    · have hP : P ≠ [] := by
        rintro rfl
        exact hne (List.prefix_nil.mp habove)
      cases hop : o.op <;> cases hsent : o.sent <;> by_cases hroot : o.path = [] <;>
        simp [actOp, ConfigOp.toEdit, RemovesAbove, hop, hsent, hroot, act, habove, hne, hbelow,
          Ne.symm hne, hP]
    · rw [actOp_of_apart S ⟨habove, hbelow⟩, if_neg fun h => habove h.1]

theorem isSome_foldl_actOp {ops : List ConfigOp} (hne : ∀ o ∈ ops, o.path ≠ P) (x : Slot String) :
    (ops.foldl (actOp S P) x).isSome = ops.foldl (thereAfter P) x.isSome := by
  induction ops generalizing x with
  | nil => rfl
  | cons o ops ih =>
    rw [List.foldl_cons, List.foldl_cons, ← isSome_actOp (hne o List.mem_cons_self)]
    exact ih (fun o' ho' => hne o' (List.mem_cons_of_mem o ho')) _

theorem shows_append_of_forall {post : List ConfigOp} (h : ∀ o ∈ post, joined o.path ≠ joined P)
    (pre : List ConfigOp) : shows e P (pre ++ post) = shows e P pre := by
  induction post using List.reverseRecOn with
  | nil => rw [List.append_nil]
  | append_singleton post o ih =>
    rw [← List.append_assoc, shows_append_of_ne (h o (by simp))]
    exact ih fun o' ho' => h o' (List.mem_append_left _ ho')

theorem cancelled_of_takenBack {pre post : List ConfigOp} {latest : ConfigOp}
    (h : TakenBack P latest post) :
    cancelled (pre ++ latest :: post) (enableOp P) = some pre.length := by
  have hpost : findLastIndex (fun o : ConfigOp => joined o.path = joined P) post = none :=
    findLastIndex_eq_none_iff.mpr fun o ho => decide_eq_false (h.last o ho)
  have hfind : findLastIndex (fun o : ConfigOp => joined o.path = joined P) (pre ++ latest :: post) =
      some pre.length := by
    rw [findLastIndex_append, findLastIndex, hpost]
    simp [h.text]
  unfold cancelled enableOp
  rw [if_pos ⟨rfl, rfl⟩, hfind, Option.filter_some_pos]
  simp [h.delete, h.valueless]

theorem takenBack_of_cancelled {i : ℕ} (h : cancelled queued (enableOp P) = some i) :
    ∃ pre latest post, queued = pre ++ latest :: post ∧ TakenBack P latest post := by
  obtain ⟨-, -, pre, latest, post, hqueued, -, hdelete, hvalue, htext, hlast⟩ := cancelled_eq_some h
  exact ⟨pre, latest, post, hqueued, hdelete, hvalue, htext, hlast⟩

theorem leaves_takenBack {pre post : List ConfigOp} {latest : ConfigOp}
    (h : TakenBack P latest post) :
    Leaves S base P (pre ++ post) = post.foldl (thereAfter P) (Leaves S base P pre) := by
  rw [leaves_append]
  exact isSome_foldl_actOp (fun o ho heq => h.last o ho (congrArg joined heq)) _

/-- A click that repeats the last entry only counts as that entry does. -/
theorem leaves_sameClick {pre : List ConfigOp} {prev : ConfigOp} (h : SameClick P prev) :
    Leaves S base P (pre ++ [prev]) = true ↔ prev.path = P ∨ Leaves S base P pre = true := by
  by_cases hpath : prev.path = P
  · have hprev : prev = enableOp P := by
      obtain ⟨kind, p, value⟩ := prev
      obtain ⟨rfl, rfl, -⟩ := h
      rw [← hpath]
      rfl
    rw [hprev, leaves_append_enableOp]
    exact iff_of_true rfl (Or.inl rfl)
  · rw [or_iff_right hpath]
    by_cases hroot : P = []
    · rw [hroot, leaves_root, leaves_root]
    · have hbelow : ¬ SetsBelow P prev := by
        rintro ⟨⟨rest, hrest⟩, hne, -⟩
        have hnil : rest ≠ [] := by
          rintro rfl
          exact hne (by rw [← hrest, List.append_nil])
        exact joined_append_ne hroot hnil (by rw [hrest, h.text])
      have habove : ¬ RemovesAbove P prev := by
        rintro ⟨-, -, ⟨hdelete, -⟩ | ⟨-, hsent⟩⟩
        · rw [h.set] at hdelete
          cases hdelete
        · unfold ConfigOp.sent at hsent
          rw [h.valueless] at hsent
          exact hsent rfl
      rw [leaves_append, List.foldl_cons, List.foldl_nil, isSome_actOp hpath, thereAfter,
        if_neg hbelow, if_neg habove]
      rfl

end Queue

/-- What the page shows, and what committing the queue leaves. -/
def Wins (S : Schema) (base : ConfigTree) (e : Bool) (P : Path) (queued : List ConfigOp) : Prop :=
  shows e P queued = true ∧ Leaves S base P queued = true

/-- The deletion that a click takes back came while the feature was there and showed as enabled, and
nothing since removes it; and the entry that a click repeats is a click on the feature itself, or the
feature is there without it. -/
structure Counts (S : Schema) (base : ConfigTree) (e : Bool) (P : Path) (queued : List ConfigOp) :
    Prop where
  takenBack : ∀ pre latest post, queued = pre ++ latest :: post → TakenBack P latest post →
    shows e P pre = true ∧ post.foldl (thereAfter P) (Leaves S base P pre) = true
  repeated : ∀ pre prev, queued = pre ++ [prev] → SameClick P prev →
    prev.path = P ∨ Leaves S base P pre = true

section Click

variable {S : Schema} {base : ConfigTree} {P : Path} {queued : List ConfigOp} {e : Bool}

theorem sameClick_of_repeatsLast (h : repeatsLast queued (enableOp P) = true) :
    ∃ pre prev, queued = pre ++ [prev] ∧ SameClick P prev := by
  obtain ⟨pre, prev, hqueued, hset, hvalue, htext⟩ := repeatsLast_eq_true h
  exact ⟨pre, prev, hqueued, hset, hvalue, htext⟩

theorem repeatsLast_of_sameClick {pre : List ConfigOp} {prev : ConfigOp} (h : SameClick P prev) :
    repeatsLast (pre ++ [prev]) (enableOp P) = true := by
  unfold repeatsLast enableOp
  rw [List.getLast?_concat]
  exact decide_eq_true ⟨h.set, h.valueless, h.text⟩

/-- A queue that ends in the same click does not take a deletion back. -/
theorem wins_repeated {pre : List ConfigOp} {prev : ConfigOp} (hsame : SameClick P prev) :
    Wins S base e P (pre ++ [prev]) ↔ Counts S base e P (pre ++ [prev]) := by
  have hshows : shows e P (pre ++ [prev]) = true := by
    rw [shows_append_of_eq hsame.text, hsame.set]
  refine ⟨fun h => ⟨fun pre' latest post heq htaken => ?_, fun pre' prev' heq _ => ?_⟩,
    fun h => ⟨hshows, (leaves_sameClick hsame).mpr (h.repeated pre prev rfl hsame)⟩⟩
  · have hrepeats : repeatsLast (pre ++ [prev]) (enableOp P) = true := repeatsLast_of_sameClick hsame
    rw [heq, repeatsLast_eq_false_of_cancelled (cancelled_of_takenBack htaken)] at hrepeats
    cases hrepeats
  · obtain ⟨rfl, hlast⟩ := List.append_inj' heq rfl
    rw [← (List.cons.inj hlast).1]
    exact (leaves_sameClick hsame).mp h.2

/-- The queue splits in one way at the deletion that a click takes back. -/
theorem wins_takenBack {pre post : List ConfigOp} {latest : ConfigOp}
    (htaken : TakenBack P latest post) :
    Wins S base e P (pre ++ post) ↔ Counts S base e P (pre ++ latest :: post) := by
  have hcancelled : cancelled (pre ++ latest :: post) (enableOp P) = some pre.length :=
    cancelled_of_takenBack htaken
  unfold Wins
  rw [shows_append_of_forall htaken.last, leaves_takenBack htaken]
  refine ⟨fun h => ⟨fun pre' latest' post' heq htaken' => ?_, fun pre' prev heq hsame => ?_⟩,
    fun h => h.takenBack pre latest post rfl htaken⟩
  · rw [heq, cancelled_of_takenBack htaken'] at hcancelled
    obtain ⟨rfl, hrest⟩ := List.append_inj heq (Option.some.inj hcancelled).symm
    obtain ⟨rfl, rfl⟩ := List.cons.inj hrest
    exact h
  · have hrepeats := repeatsLast_eq_false_of_cancelled hcancelled
    rw [heq, repeatsLast_of_sameClick hsame] at hrepeats
    cases hrepeats

theorem counts_appended (hrepeats : repeatsLast queued (enableOp P) = false)
    (hcancelled : cancelled queued (enableOp P) = none) : Counts S base e P queued := by
  refine ⟨fun pre latest post heq htaken => ?_, fun pre prev heq hsame => ?_⟩
  · rw [heq, cancelled_of_takenBack htaken] at hcancelled
    cases hcancelled
  · rw [heq, repeatsLast_of_sameClick hsame] at hrepeats
    cases hrepeats

theorem wins_addOp_iff : Wins S base e P (addOp queued (enableOp P)) ↔ Counts S base e P queued := by
  unfold addOp
  cases hrepeats : repeatsLast queued (enableOp P) with
  | true =>
    obtain ⟨pre, prev, rfl, hsame⟩ := sameClick_of_repeatsLast hrepeats
    exact wins_repeated hsame
  | false =>
    rw [if_neg Bool.false_ne_true]
    cases hcancelled : cancelled queued (enableOp P) with
    | none =>
      exact iff_of_true ⟨shows_append_of_eq rfl queued, leaves_append_enableOp⟩
        (counts_appended hrepeats hcancelled)
    | some i =>
      obtain ⟨pre, latest, post, rfl, htaken⟩ := takenBack_of_cancelled hcancelled
      rw [cancelled_of_takenBack htaken] at hcancelled
      cases hcancelled
      dsimp only
      rw [List.eraseIdx_append_of_length_le (Nat.le_refl _), Nat.sub_self]
      exact wins_takenBack htaken

end Click

/-- After a click the feature shows as enabled and committing the queue leaves it, just when the click
counts in the queue it meets. -/
theorem enable_wins_iff {T : Type*} [HasEnabled T] (parsed : T) (S : Schema) (base : ConfigTree)
    (P : Path) (hparsed : enabled parsed = (base.store P).isSome) (pending : PendingChangesState)
    (label : String) :
    (enabled (withPendingEnable parsed P (pending.add (enableOp P) label).changes) = true ∧
      ((applyOps S base (pending.add (enableOp P) label).ops).store P).isSome = true) ↔
    Counts S base (base.store P).isSome P pending.ops := by
  rw [enabled_withPendingEnable, hparsed, ← wins_addOp_iff, ← ops_add pending (enableOp P) label]
  rfl

/-- The feature is absent; it is turned on and off again, and the first entry is removed. -/
def offWithoutOn : PendingChangesState :=
  ((PendingChangesState.empty.add (enableOp ["service", "ssh"]) "enable").add
    ⟨.delete, ["service", "ssh"], none⟩ "disable").remove 0

/-- The click takes the deletion back and leaves nothing in the queue. -/
theorem enable_lost :
    enabled (withPendingEnable false ["service", "ssh"]
      (offWithoutOn.add (enableOp ["service", "ssh"]) "enable").changes) = false ∧
    ((applyOps ⟨fun _ => false⟩ (.node []) (offWithoutOn.add (enableOp ["service", "ssh"])
      "enable").ops).store ["service", "ssh"]).isSome = false := by
  decide

/-- SSH is on, turned off, and turned on again. -/
theorem enable_wins_sshOn :
    enabled (withPendingEnable true ["service", "ssh"]
      ((PendingChangesState.empty.add ⟨.delete, ["service", "ssh"], none⟩ "disable").add
        (enableOp ["service", "ssh"]) "enable").changes) = true ∧
    ((applyOps ⟨fun _ => false⟩ sshOn
      ((PendingChangesState.empty.add ⟨.delete, ["service", "ssh"], none⟩ "disable").add
        (enableOp ["service", "ssh"]) "enable").ops).store ["service", "ssh"]).isSome = true := by
  refine (enable_wins_iff true ⟨fun _ => false⟩ sshOn ["service", "ssh"] (by decide)
    (PendingChangesState.empty.add ⟨.delete, ["service", "ssh"], none⟩ "disable") "enable").mpr ?_
  refine ⟨fun pre latest post heq _ => ?_, fun pre prev heq hsame => ?_⟩
  · obtain ⟨rfl, hrest⟩ | ⟨-, hrest⟩ := List.singleton_eq_append_iff.mp heq
    · obtain ⟨-, rfl⟩ := List.cons.inj hrest
      decide
    · cases hrest
  · obtain ⟨-, hrest⟩ | ⟨-, hrest⟩ := List.singleton_eq_append_iff.mp heq
    · rw [(List.cons.inj hrest).1] at hsame
      exact absurd hsame.set (by decide)
    · cases hrest

end VyosClient.EnableClick
