import VyosClient.FirewallQueue

/-!
Whether what was queued on a ruleset page composes. Each rule number that an
orderly history comes to has one owner: a reorder, the edits of one rule, or
one new rule. Below the number only the owner's operations count, so every
fetched rule and every new one is found once, with its last edits.
-/

namespace VyosClient.QueueComposition

open PathStore ConfigTrees Configure PendingChanges PendingChangesState FormDiff FirewallParse
  FirewallRuleForm RuleEditing SubtreeReplay RuleRewrite RuleReorder FirewallQueue Runs

def creation (rules : List FirewallRule) : Step → Option (String × RuleFormValues)
  | .create n values =>
      if canSubmit none (existingNumbers rules) n values then some (n, values) else none
  | _ => none

/-- The forms for new rules that were submitted. -/
def creations (rules : List FirewallRule) (steps : List Step) : List (String × RuleFormValues) :=
  steps.filterMap (creation rules)

/-- What was submitted for a fetched rule, in order. -/
def submitted (rules : List FirewallRule) (r : FirewallRule) (steps : List Step) :
    List RuleFormValues :=
  steps.filterMap fun
    | .edit n values =>
        if n = r.number ∧ canSubmit (some r) (existingNumbers rules) n values then some values
        else none
    | _ => none

/-- A rule found under the number `n`: the fields that submissions changed hold
what was entered last, and whatever has nothing to do with them is as in
`body`. -/
structure Carries (ref : RulesetRef) (n : String) (before : RuleFormValues)
    (vs : List RuleFormValues) (body s : Store String String) : Prop where
  edited : ∀ f ∈ (ruleForm ref n).fields, ∀ w, f.changedLast before vs = some w →
    f.Holds w (s f.path)
  rest : ∀ q, (∀ f ∈ (ruleForm ref n).fields, f.changedLast before vs ≠ none →
    Apart f.path (rulePath ref n q)) → s (rulePath ref n q) = body q

/-- The configuration once the whole queue is applied. -/
def applied (S : Schema) (ref : RulesetRef) (t : ConfigTree) (steps : List Step) : ConfigTree :=
  applyOps S t (queued ref (rulesAt ref t) steps).ops

/-- Each fetched rule has a place of its own, each new rule has its number, and
there is nothing else; no place holds anything but its rule, with its edits. -/
def Composes (S : Schema) (ref : RulesetRef) (t : ConfigTree) (steps : List Step) : Prop :=
  ∃ place : FirewallRule → String,
    ((rulesAt ref (applied S ref t steps)).map FirewallRule.number).Perm
        ((rulesAt ref t).map place ++ (creations (rulesAt ref t) steps).map Prod.fst) ∧
      (∀ r ∈ rulesAt ref t, Carries ref (place r) (ruleToFormValues r)
        (submitted (rulesAt ref t) r steps) (bodyOf r) (applied S ref t steps).store) ∧
      ∀ c ∈ creations (rulesAt ref t) steps, Carries ref c.1 blankRuleFormValues [c.2]
        (fun _ => none) (applied S ref t steps).store

theorem creation_eq_some {rules : List FirewallRule} {e : Step} {c : String × RuleFormValues} :
    creation rules e = some c ↔
      e = .create c.1 c.2 ∧ canSubmit none (existingNumbers rules) c.1 c.2 := by
  cases e with
  | reorder i j => simp [creation]
  | edit k values => simp [creation]
  | create k values =>
    simp only [creation, Option.ite_none_right_eq_some, Option.some.injEq, Step.create.injEq]
    constructor
    · rintro ⟨hsubmit, rfl⟩
      exact ⟨⟨rfl, rfl⟩, hsubmit⟩
    · rintro ⟨⟨rfl, rfl⟩, hsubmit⟩
      exact ⟨hsubmit, rfl⟩

theorem mem_creations {rules : List FirewallRule} {steps : List Step}
    {c : String × RuleFormValues} :
    c ∈ creations rules steps ↔ .create c.1 c.2 ∈ steps ∧
      canSubmit none (existingNumbers rules) c.1 c.2 := by
  simp only [creations, List.mem_filterMap, creation_eq_some]
  constructor
  · rintro ⟨e, he, rfl, hsubmit⟩
    exact ⟨he, hsubmit⟩
  · rintro ⟨he, hsubmit⟩
    exact ⟨_, he, rfl, hsubmit⟩

section Forms

variable {S : Schema} {ref : RulesetRef} {n : String} {before : RuleFormValues}
  {vs : List RuleFormValues} {body s s' : Store String String}

/-- Only what stands below the number counts. -/
theorem Carries.congr (h : Carries ref n before vs body s)
    (hs : ∀ q, s' (rulePath ref n q) = s (rulePath ref n q)) :
    Carries ref n before vs body s' := by
  refine ⟨fun f hf w hw => ?_, fun q hq => ?_⟩
  · have hheld := h.edited f hf w hw
    obtain ⟨p, -, hpath⟩ := path_field ref n hf
    rwa [hpath, hs, ← hpath]
  · rw [hs]
    exact h.rest q hq

/-- Without a submission the rule is as it was. -/
theorem carries_nil (hs : ∀ q, s (rulePath ref n q) = body q) :
    Carries ref n before [] body s :=
  ⟨fun _ _ _ hw => by simp [Field.changedLast] at hw, fun q _ => hs q⟩

theorem carries_saves (hsingle : (ruleForm ref n).SingleIn S)
    (hs : ∀ q, s (rulePath ref n q) = body q) :
    Carries ref n before vs body
      (run S.multi s (edits ((ruleForm ref n).saves before vs))) := by
  refine ⟨fun f hf w hw => ?_, fun q hq => ?_⟩
  · rw [Form.run_saves hsingle hf, hw]
    exact Field.holds_outcome f w _
  · rw [← hs q]
    refine run_edits_of_apart S (fun o ho => ?_) s
    obtain ⟨v, hv, f, hf, ho⟩ := Form.mem_saves.mp ho
    rw [Field.path_of_mem_diff ho]
    refine hq f hf fun hnone => ?_
    have hchanged : v ∈ vs.filter fun v => ¬ f.Same before v := by
      refine List.mem_filter.mpr ⟨hv, decide_eq_true fun hsame => ?_⟩
      rw [Field.diff_of_same hsame] at ho
      exact absurd ho List.not_mem_nil
    rw [List.getLast?_eq_none_iff.mp hnone] at hchanged
    exact absurd hchanged List.not_mem_nil

/-- A form only reaches below the rule. -/
theorem below_of_mem_saves {o : ConfigOp} (ho : o ∈ (ruleForm ref n).saves before vs) :
    rulePath ref n [] <+: o.path ∧ rulePath ref n [] ≠ o.path := by
  obtain ⟨v, hv, f, hf, ho⟩ := Form.mem_saves.mp ho
  obtain ⟨p, hp, hpath⟩ := path_of_mem_fieldDiff hf ho
  have hsplit : o.path = rulePath ref n [] ++ p := by
    rw [hpath, ← rulePath_append, List.nil_append]
  rw [hsplit]
  exact ⟨List.prefix_append _ _, by simpa using hp⟩

/-- A new rule does not take the number of a fetched one. -/
theorem notMem_of_canSubmit {numbers : List String} {values : RuleFormValues}
    (hsubmit : canSubmit none numbers n values) : n ∉ numbers := by
  simp only [canSubmit, Option.isNone_none, Bool.true_and, Bool.and_eq_true,
    Bool.not_eq_true'] at hsubmit
  have hnot := hsubmit.1.2
  rwa [List.contains_eq_mem, decide_eq_false_iff_not] at hnot

/-- A new rule has at least its action. -/
theorem exists_set_of_canSubmit (ref : RulesetRef) {numbers : List String}
    {values : RuleFormValues} (hsubmit : canSubmit none numbers n values) :
    ∃ o ∈ (ruleForm ref n).saves blankRuleFormValues [values], o.op = .set := by
  simp only [canSubmit, Bool.and_eq_true] at hsubmit
  obtain ⟨a, ha⟩ := Option.isSome_iff_exists.mp hsubmit.2
  have htext : ∀ a : RuleAction, a.text ≠ "" ∧ trim a.text ≠ "" := by
    intro a
    cases a <;> decide
  have haction : values.actionText = a.text := by
    simp [RuleFormValues.actionText, ha]
  have hblank : ¬ blankRuleFormValues.actionText = values.actionText := by
    rw [haction]
    exact (htext a).1.symm
  have hfield : Field.text (fun v : RuleFormValues => v.actionText)
      (rulePath ref n [] ++ ["action"]) ∈ (ruleForm ref n).fields := List.mem_cons_self
  refine ⟨⟨.set, rulePath ref n [] ++ ["action"], some (trim values.actionText)⟩,
    Form.mem_saves.mpr ⟨values, List.mem_singleton_self _, _, hfield, ?_⟩, rfl⟩
  rw [Field.diff, if_neg hblank, if_neg (by rw [haction]; exact (htext a).2)]
  exact List.mem_singleton_self _

end Forms

section Owners

variable {S : Schema} {ref : RulesetRef} {t : ConfigTree} {steps : List Step} {n : String}

theorem run_untouched (h : t.WellFormed) (hnum : Numbered (rulesAt ref t))
    (hsteps : ∀ e ∈ steps, ¬ Involves (rulesAt ref t) e n) (s : Store String String) (q : Path) :
    run S.multi s (edits (allOps ref (rulesAt ref t) steps)) (rulePath ref n q) =
      s (rulePath ref n q) := by
  refine run_edits_of_apart S (fun o ho => ?_) s
  obtain ⟨e, he, ho⟩ := List.mem_flatMap.mp ho
  obtain ⟨m, p, hm, hpath, -⟩ := mem_stepOps h hnum ho
  have hne : m ≠ n := by
    rintro rfl
    exact hsteps e he hm
  rw [hpath, rulePath_eq, rulePath_eq]
  exact apart_of_ne hne _ _ _

/-- Below a number that one step comes to, only this step counts. -/
theorem run_owned (h : t.WellFormed) (hnum : Numbered (rulesAt ref t))
    (horderly : Orderly (rulesAt ref t) steps) {e : Step} (he : e ∈ steps) (hedit : ¬ e.isEdit)
    (hn : Involves (rulesAt ref t) e n) (s : Store String String) (q : Path) :
    run S.multi s (edits (allOps ref (rulesAt ref t) steps)) (rulePath ref n q) =
      run S.multi s (edits (stepOps ref (rulesAt ref t) e)) (rulePath ref n q) := by
  obtain ⟨pre, post, rfl⟩ := List.append_of_mem he
  have hpairs := List.pairwise_append.mp horderly.separate
  have hpre : ∀ e' ∈ pre, ¬ Involves (rulesAt ref t) e' n := fun e' he' hn' =>
    hedit (hpairs.2.2 e' he' e List.mem_cons_self n hn' hn).2
  have hpost : ∀ e' ∈ post, ¬ Involves (rulesAt ref t) e' n := fun e' he' hn' =>
    hedit ((List.pairwise_cons.mp hpairs.2.1).1 e' he' n hn hn').1
  have hsplit : allOps ref (rulesAt ref t) (pre ++ e :: post) = allOps ref (rulesAt ref t) pre ++
      (stepOps ref (rulesAt ref t) e ++ allOps ref (rulesAt ref t) post) := by
    rw [allOps, List.flatMap_append, List.flatMap_cons]
    rfl
  rw [hsplit, edits_append, edits_append, run_append, run_append, run_untouched h hnum hpost]
  exact run_congr (run_untouched h hnum hpre s q) _

/-- Below the number of a rule that is only edited, its submissions count. -/
theorem run_edited (h : t.WellFormed) (hnum : Numbered (rulesAt ref t)) {r : FirewallRule}
    (hr : r ∈ rulesAt ref t)
    (hsteps : ∀ e ∈ steps, Involves (rulesAt ref t) e r.number → e.isEdit)
    (s : Store String String) (q : Path) :
    run S.multi s (edits (allOps ref (rulesAt ref t) steps)) (rulePath ref r.number q) =
      run S.multi s (edits ((ruleForm ref r.number).saves (ruleToFormValues r)
        (submitted (rulesAt ref t) r steps))) (rulePath ref r.number q) := by
  induction steps generalizing s with
  | nil => rfl
  | cons e steps ih =>
    have hrest := ih fun e' he' => hsteps e' (List.mem_cons_of_mem _ he')
    rw [allOps_cons, edits_append, run_append, hrest]
    by_cases hn : Involves (rulesAt ref t) e r.number
    · have hedit := hsteps e List.mem_cons_self hn
      cases e with
      | reorder i j => exact absurd hedit id
      | create k values => exact absurd hedit id
      | edit k values =>
        obtain ⟨rfl, r', -, -, hsubmit⟩ := hn
        have hsubmit' : canSubmit (some r) (existingNumbers (rulesAt ref t)) r.number values :=
          hsubmit
        have hcons : submitted (rulesAt ref t) r (.edit r.number values :: steps) =
            values :: submitted (rulesAt ref t) r steps := by
          simp [submitted, hsubmit']
        rw [hcons, stepOps_edit h hr, if_pos hsubmit', Form.saves, Form.saves,
          List.flatMap_cons, edits_append, run_append]
    · have hcons : submitted (rulesAt ref t) r (e :: steps) =
          submitted (rulesAt ref t) r steps := by
        cases e with
        | reorder i j => rfl
        | create k values => rfl
        | edit k values =>
          have hnot : ¬ (k = r.number ∧
              canSubmit (some r) (existingNumbers (rulesAt ref t)) k values) := by
            rintro ⟨rfl, hsubmit⟩
            exact hn ⟨rfl, r, hr, rfl, hsubmit⟩
          simp [submitted, hnot]
      rw [hcons]
      have hstep : run S.multi s (edits (allOps ref (rulesAt ref t) [e]))
          (rulePath ref r.number q) = s (rulePath ref r.number q) :=
        run_untouched h hnum (by simpa using hn) s q
      rw [allOps_cons, allOps, List.flatMap_nil, List.append_nil] at hstep
      exact run_congr hstep _

end Owners

section Places

variable {S : Schema} {ref : RulesetRef} {t : ConfigTree} {steps : List Step} {n m : String}
  {i j : ℤ} {r r' : FirewallRule}

/-- A reorder of the history gives the rule the number `n`. -/
def MovesTo (ref : RulesetRef) (t : ConfigTree) (steps : List Step) (r : FirewallRule)
    (n : String) : Prop :=
  ∃ i j, Step.reorder i j ∈ steps ∧ Takes (rulesAt ref t) i j r n

theorem mem_of_takes (h : t.WellFormed) (hnum : Numbered (rulesAt ref t))
    (htakes : Takes (rulesAt ref t) i j r n) : r ∈ rulesAt ref t :=
  mem_rules_of_reorderChanges h hnum ((mem_reorderChanges_iff hnum).mpr htakes)

/-- Two rules take two numbers. -/
theorem takes_unique (h : t.WellFormed) (hnum : Numbered (rulesAt ref t))
    (htakes : Takes (rulesAt ref t) i j r n) (htakes' : Takes (rulesAt ref t) i j r' n) :
    r = r' := by
  obtain ⟨assign, p, hchanges, ha, -⟩ := exists_assigns h hnum i j
  have hmem := (mem_reorderChanges_iff hnum).mpr htakes
  have hmem' := (mem_reorderChanges_iff hnum).mpr htakes'
  rw [hchanges] at hmem hmem'
  exact congrArg Prod.fst (ha.eq_of_new _ _ (List.mem_filter.mp hmem).1
    (List.mem_filter.mp hmem').1 rfl)

/-- A number that is taken belonged to no rule, or to one that is moved too. -/
theorem takes_fresh (h : t.WellFormed) (hnum : Numbered (rulesAt ref t))
    (htakes : Takes (rulesAt ref t) i j r n) (hr' : r' ∈ rulesAt ref t) (hn : r'.number = n) :
    ∃ m, Takes (rulesAt ref t) i j r' m := by
  obtain ⟨assign, p, hchanges, ha, hp, -⟩ := exists_assigns h hnum i j
  have hmem := (mem_reorderChanges_iff hnum).mpr htakes
  rw [hchanges] at hmem
  rcases ha.fresh h hp hmem with hold | hfree
  · obtain ⟨c, hc, hnumber⟩ := List.mem_map.mp hold
    have hc' := ha.mem_rules (List.mem_filter.mp hc).1
    obtain rfl : c.1 = r' := eq_of_number_eq h hc' hr' (hnumber.trans hn.symm)
    refine ⟨c.2, (mem_reorderChanges_iff hnum).mp ?_⟩
    rw [hchanges]
    exact hc
  · have htaken := (mem_numbers_iff h).mp (List.mem_map.mpr ⟨r', hr', hn⟩)
    rw [hfree []] at htaken
    cases htaken

variable (h : t.WellFormed) (hnum : Numbered (rulesAt ref t)) (hallowed : Allowed S t)
  (huniform : Uniform S ref) (horderly : Orderly (rulesAt ref t) steps)

include h hnum horderly

/-- Below the numbers of a reorder the history leaves what the reorder alone
would leave. -/
theorem applied_eq_reordered (he : Step.reorder i j ∈ steps)
    (hn : Involves (rulesAt ref t) (.reorder i j) n) (q : Path) :
    (applied S ref t steps).store (rulePath ref n q) =
      (reordered S t ref (rulesAt ref t) i j).store (rulePath ref n q) := by
  rw [applied, store_queued S h hnum horderly, run_owned h hnum horderly he id hn, reordered,
    store_applyOps]
  rfl

include hallowed huniform

/-- A moved rule is found whole under its new number. -/
theorem store_moved (hmoves : MovesTo ref t steps r n) (q : Path) :
    (applied S ref t steps).store (rulePath ref n q) = bodyOf r q := by
  obtain ⟨i, j, he, htakes⟩ := hmoves
  obtain ⟨assign, p, hchanges, ha, hp, -⟩ := exists_assigns h hnum i j
  have hmem := (mem_reorderChanges_iff hnum).mpr htakes
  rw [applied_eq_reordered h hnum horderly he ⟨r, n, htakes, Or.inr rfl⟩, reordered,
    reorderRuleOps, hchanges]
  rw [hchanges] at hmem
  refine ha.store_new h hp (fun a ha' hpa c hc => ?_) (List.mem_filter.mp hmem).1 q
  have hchange : (a.1, a.2) ∈ reorderChanges (rulesAt ref t) i j := by
    rw [hchanges]
    exact List.mem_filter.mpr ⟨ha', hpa⟩
  have hrewrite := horderly.replays _ he a.1 a.2 ((mem_reorderChanges_iff hnum).mp hchange)
  exact replayable S h hallowed huniform (ha.mem_rules ha') hrewrite.noBlank a.2 hc

/-- Nothing is left under the old number, unless another rule takes it. -/
theorem store_left (he : Step.reorder i j ∈ steps) (htakes : Takes (rulesAt ref t) i j r m)
    (hfree : ∀ r', ¬ Takes (rulesAt ref t) i j r' r.number) (q : Path) :
    (applied S ref t steps).store (rulePath ref r.number q) = none := by
  obtain ⟨assign, p, hchanges, ha, hp, -⟩ := exists_assigns h hnum i j
  have hmem := (mem_reorderChanges_iff hnum).mpr htakes
  rw [applied_eq_reordered h hnum horderly he ⟨r, m, htakes, Or.inl rfl⟩, reordered,
    reorderRuleOps, hchanges]
  rw [hchanges] at hmem
  have hchange : ∀ a ∈ assign, p a = true → Takes (rulesAt ref t) i j a.1 a.2 := by
    intro a ha' hpa
    refine (mem_reorderChanges_iff hnum).mp ?_
    rw [hchanges]
    exact List.mem_filter.mpr ⟨ha', hpa⟩
  refine ha.store_free h hp (fun a ha' hpa c hc => ?_) (fun a ha' heq => ?_) q
  · have hrewrite := horderly.replays _ he a.1 a.2 (hchange a ha' hpa)
    exact replayable S h hallowed huniform (ha.mem_rules ha') hrewrite.noBlank a.2 hc
  · by_cases hpa : p a = true
    · exact hfree a.1 (heq ▸ hchange a ha' hpa)
    · have hkept : a.1.number = a.2 := by
        by_contra hne
        exact hpa (hp a ha' hne)
      have hsame := ha.eq_of_old h ha' (List.mem_filter.mp hmem).1 (hkept.trans heq)
      exact hpa (hsame ▸ (List.mem_filter.mp hmem).2)

omit hallowed huniform horderly

/-- No reorder comes to the number of a rule that stays. -/
theorem isEdit_of_unmoved (hr : r ∈ rulesAt ref t) (hstay : ¬ ∃ n, MovesTo ref t steps r n)
    {e : Step} (he : e ∈ steps) (hn : Involves (rulesAt ref t) e r.number) : e.isEdit := by
  cases e with
  | edit k values => trivial
  | create k values =>
    obtain ⟨rfl, hsubmit⟩ := hn
    exact absurd (List.mem_map_of_mem hr) (notMem_of_canSubmit hsubmit)
  | reorder i j =>
    obtain ⟨r', m, htakes, hn⟩ := hn
    rcases hn with hn | hn
    · obtain rfl := eq_of_number_eq h hr (mem_of_takes h hnum htakes) hn
      exact absurd ⟨m, i, j, he, htakes⟩ hstay
    · obtain ⟨k, hk⟩ := takes_fresh h hnum htakes hr hn
      exact absurd ⟨k, i, j, he, hk⟩ hstay

include horderly

/-- A rule that stays has the edits of its forms. -/
theorem store_stayed (hr : r ∈ rulesAt ref t) (hstay : ¬ ∃ n, MovesTo ref t steps r n) (q : Path) :
    (applied S ref t steps).store (rulePath ref r.number q) =
      run S.multi t.store (edits ((ruleForm ref r.number).saves (ruleToFormValues r)
        (submitted (rulesAt ref t) r steps))) (rulePath ref r.number q) := by
  rw [applied, store_queued S h hnum horderly]
  exact run_edited h hnum hr (fun e he hn => isEdit_of_unmoved h hnum hr hstay he hn)
    t.store q

/-- A rule that is moved is not edited. -/
theorem submitted_eq_nil (hmoves : MovesTo ref t steps r n) :
    submitted (rulesAt ref t) r steps = [] := by
  obtain ⟨i, j, he, htakes⟩ := hmoves
  refine List.filterMap_eq_nil_iff.mpr fun e he' => ?_
  cases e with
  | reorder _ _ => rfl
  | create _ _ => rfl
  | edit k values =>
    refine if_neg ?_
    rintro ⟨rfl, hsubmit⟩
    have hn : Involves (rulesAt ref t) (.edit r.number values) r.number :=
      ⟨rfl, r, mem_of_takes h hnum htakes, rfl, hsubmit⟩
    have hsep := (horderly.eq_or_separate he he').resolve_left (by simp)
    exact (hsep r.number ⟨r, n, htakes, Or.inl rfl⟩ hn).1

/-- A new rule is all that is found under its number. -/
theorem store_created {values : RuleFormValues} (he : Step.create n values ∈ steps)
    (hsubmit : canSubmit none (existingNumbers (rulesAt ref t)) n values) (q : Path) :
    (applied S ref t steps).store (rulePath ref n q) =
      run S.multi t.store (edits ((ruleForm ref n).saves blankRuleFormValues [values]))
        (rulePath ref n q) := by
  rw [applied, store_queued S h hnum horderly,
    run_owned h hnum horderly he id ⟨rfl, hsubmit⟩, stepOps_create, if_pos hsubmit]
  simp [Form.saves]

omit h hnum in
/-- Two steps that come to one number are the same or both edits. -/
theorem eq_of_involves {e e' : Step} (he : e ∈ steps) (he' : e' ∈ steps) (hedit : ¬ e.isEdit)
    (hn : Involves (rulesAt ref t) e n) (hn' : Involves (rulesAt ref t) e' n) : e = e' :=
  (horderly.eq_or_separate he he').resolve_right fun hsep => hedit (hsep n hn hn').1

/-- The places of the fetched rules, and the numbers of the new ones, are all
different. -/
theorem places_nodup {place : FirewallRule → String}
    (hplace : ∀ r ∈ rulesAt ref t, MovesTo ref t steps r (place r) ∨
      (¬ ∃ n, MovesTo ref t steps r n) ∧ place r = r.number) :
    ((rulesAt ref t).map place ++ (creations (rulesAt ref t) steps).map Prod.fst).Nodup := by
  refine List.nodup_append.mpr ⟨?_, ?_, ?_⟩
  · refine List.Nodup.map_on (fun r hr r' hr' heq => ?_) (numbers_nodup ref h).of_map
    rcases hplace r hr with ⟨i, j, he, htakes⟩ | ⟨hstay, hkept⟩
    · rcases hplace r' hr' with ⟨i', j', he', htakes'⟩ | ⟨hstay', hkept'⟩
      · have hsame := eq_of_involves horderly he he' id ⟨r, place r, htakes, Or.inr rfl⟩
          ⟨r', place r', htakes', Or.inr heq⟩
        obtain ⟨rfl, rfl⟩ := Step.reorder.inj hsame
        exact takes_unique h hnum (heq ▸ htakes) htakes'
      · have hn : Involves (rulesAt ref t) (.reorder i j) r'.number :=
          ⟨r, place r, htakes, Or.inr (hkept'.symm.trans heq.symm)⟩
        exact absurd (isEdit_of_unmoved h hnum hr' hstay' he hn) id
    · rcases hplace r' hr' with ⟨i', j', he', htakes'⟩ | ⟨hstay', hkept'⟩
      · have hn : Involves (rulesAt ref t) (.reorder i' j') r.number :=
          ⟨r', place r', htakes', Or.inr (hkept.symm.trans heq)⟩
        exact absurd (isEdit_of_unmoved h hnum hr hstay he' hn) id
      · exact eq_of_number_eq h hr hr' (hkept.symm.trans (heq.trans hkept'))
  · refine List.pairwise_map.mpr (List.pairwise_filterMap.mpr ?_)
    refine horderly.separate.imp fun hsep c hc c' hc' heq => ?_
    obtain ⟨rfl, hsubmit⟩ := creation_eq_some.mp hc
    obtain ⟨rfl, hsubmit'⟩ := creation_eq_some.mp hc'
    exact (hsep c.1 ⟨rfl, hsubmit⟩ ⟨heq, hsubmit'⟩).1
  · rintro n hn m hm rfl
    obtain ⟨r, hr, rfl⟩ := List.mem_map.mp hn
    obtain ⟨c, hc, hcn⟩ := List.mem_map.mp hm
    obtain ⟨he, hsubmit⟩ := mem_creations.mp hc
    have hcreate : Involves (rulesAt ref t) (.create c.1 c.2) (place r) := ⟨hcn.symm, hsubmit⟩
    rcases hplace r hr with ⟨i, j, he', htakes⟩ | ⟨hstay, hkept⟩
    · have hsame := eq_of_involves horderly he he' id hcreate
        ⟨r, place r, htakes, Or.inr rfl⟩
      cases hsame
    · rw [hkept] at hcreate
      exact absurd (isEdit_of_unmoved h hnum hr hstay he hcreate) id

theorem movesTo_unique (hmoves : MovesTo ref t steps r n) (hmoves' : MovesTo ref t steps r m) :
    n = m := by
  obtain ⟨i, j, he, htakes⟩ := hmoves
  obtain ⟨i', j', he', htakes'⟩ := hmoves'
  have hsame := eq_of_involves horderly he he' id ⟨r, n, htakes, Or.inl rfl⟩
    ⟨r, m, htakes', Or.inl rfl⟩
  obtain ⟨rfl, rfl⟩ := Step.reorder.inj hsame
  obtain ⟨assign, p, hchanges, ha, -⟩ := exists_assigns h hnum i j
  have hmem := (mem_reorderChanges_iff hnum).mpr htakes
  have hmem' := (mem_reorderChanges_iff hnum).mpr htakes'
  rw [hchanges] at hmem hmem'
  exact congrArg Prod.snd (ha.eq_of_old h (List.mem_filter.mp hmem).1
    (List.mem_filter.mp hmem').1 rfl)

include hallowed huniform

/-- Where something is found, a rule has its place, or a new rule its number. -/
theorem mem_places_of_isSome {place : FirewallRule → String}
    (hplace : ∀ r ∈ rulesAt ref t, MovesTo ref t steps r (place r) ∨
      (¬ ∃ n, MovesTo ref t steps r n) ∧ place r = r.number)
    (hsome : ((applied S ref t steps).store (rulePath ref n [])).isSome) :
    n ∈ (rulesAt ref t).map place ++ (creations (rulesAt ref t) steps).map Prod.fst := by
  by_cases hmoved : ∃ r, MovesTo ref t steps r n
  · obtain ⟨r, hmoves⟩ := hmoved
    have hr : r ∈ rulesAt ref t := by
      obtain ⟨i, j, -, htakes⟩ := hmoves
      exact mem_of_takes h hnum htakes
    have hmoves' := (hplace r hr).resolve_right fun hstay => hstay.1 ⟨n, hmoves⟩
    rw [movesTo_unique h hnum horderly hmoves hmoves']
    exact List.mem_append_left _ (List.mem_map_of_mem hr)
  by_cases hold : ∃ r ∈ rulesAt ref t, r.number = n
  · obtain ⟨r, hr, rfl⟩ := hold
    rcases hplace r hr with ⟨i, j, he, htakes⟩ | ⟨-, hkept⟩
    · have hfree : ∀ r', ¬ Takes (rulesAt ref t) i j r' r.number :=
        fun r' htakes' => hmoved ⟨r', i, j, he, htakes'⟩
      rw [store_left h hnum hallowed huniform horderly he htakes hfree] at hsome
      cases hsome
    · rw [← hkept]
      exact List.mem_append_left _ (List.mem_map_of_mem hr)
  by_cases hnew : ∃ values, .create n values ∈ steps ∧
      canSubmit none (existingNumbers (rulesAt ref t)) n values
  · obtain ⟨values, he, hsubmit⟩ := hnew
    exact List.mem_append_right _ (List.mem_map.mpr
      ⟨(n, values), mem_creations.mpr ⟨he, hsubmit⟩, rfl⟩)
  have hnone : ∀ e ∈ steps, ¬ Involves (rulesAt ref t) e n := by
    intro e he hn
    cases e with
    | reorder i j =>
      obtain ⟨r, m, htakes, rfl | rfl⟩ := hn
      · exact hold ⟨r, mem_of_takes h hnum htakes, rfl⟩
      · exact hmoved ⟨r, i, j, he, htakes⟩
    | edit k values =>
      obtain ⟨rfl, r, hr, hnumber, -⟩ := hn
      exact hold ⟨r, hr, hnumber⟩
    | create k values =>
      obtain ⟨rfl, hsubmit⟩ := hn
      exact hnew ⟨values, he, hsubmit⟩
  have hfree : n ∉ (rulesAt ref t).map FirewallRule.number := by
    intro hmem
    obtain ⟨r, hr, hnumber⟩ := List.mem_map.mp hmem
    exact hold ⟨r, hr, hnumber⟩
  rw [applied, store_queued S h hnum horderly, run_untouched h hnum hnone,
    store_of_absent h hfree] at hsome
  cases hsome

/-- Where a rule has its place or a new rule its number, something is found. -/
theorem isSome_of_mem_places {place : FirewallRule → String}
    (hplace : ∀ r ∈ rulesAt ref t, MovesTo ref t steps r (place r) ∨
      (¬ ∃ n, MovesTo ref t steps r n) ∧ place r = r.number)
    (hn : n ∈ (rulesAt ref t).map place ++ (creations (rulesAt ref t) steps).map Prod.fst) :
    ((applied S ref t steps).store (rulePath ref n [])).isSome := by
  rcases List.mem_append.mp hn with hn | hn
  · obtain ⟨r, hr, rfl⟩ := List.mem_map.mp hn
    have hfetched := (mem_numbers_iff h).mp (List.mem_map_of_mem (f := FirewallRule.number) hr)
    rcases hplace r hr with hmoves | ⟨hstay, hkept⟩
    · rwa [store_moved h hnum hallowed huniform horderly hmoves, ← store_of_mem h hr]
    · rw [hkept, store_stayed h hnum horderly hr hstay]
      exact isSome_run_edits_above S (fun o ho => below_of_mem_saves ho) hfetched
  · obtain ⟨c, hc, rfl⟩ := List.mem_map.mp hn
    obtain ⟨he, hsubmit⟩ := mem_creations.mp hc
    rw [store_created h hnum horderly he hsubmit]
    exact isSome_run_of_set_below S (fun o ho => below_of_mem_saves ho)
      (exists_set_of_canSubmit ref hsubmit) t.store

/-- What an orderly history queues composes. -/
theorem composes_of_orderly (hsingle : ∀ n, (ruleForm ref n).SingleIn S) :
    Composes S ref t steps := by
  have hexists : ∀ r, ∃ n, MovesTo ref t steps r n ∨
      (¬ ∃ n, MovesTo ref t steps r n) ∧ n = r.number := by
    intro r
    by_cases hmoved : ∃ n, MovesTo ref t steps r n
    · obtain ⟨n, hmoves⟩ := hmoved
      exact ⟨n, Or.inl hmoves⟩
    · exact ⟨r.number, Or.inr ⟨hmoved, rfl⟩⟩
  choose place hplace using hexists
  have hplace' := fun r (_ : r ∈ rulesAt ref t) => hplace r
  have hwf : (applied S ref t steps).WellFormed := WellFormed.applyOps h S _
  refine ⟨place, ?_, ?_, ?_⟩
  · refine (List.perm_ext_iff_of_nodup (numbers_nodup ref hwf)
      (places_nodup h hnum horderly hplace')).mpr fun n => ?_
    rw [mem_numbers_iff hwf]
    exact ⟨mem_places_of_isSome h hnum hallowed huniform horderly hplace',
      isSome_of_mem_places h hnum hallowed huniform horderly hplace'⟩
  · intro r hr
    rcases hplace r with hmoves | ⟨hstay, hkept⟩
    · rw [submitted_eq_nil h hnum horderly hmoves]
      exact carries_nil (store_moved h hnum hallowed huniform horderly hmoves)
    · rw [hkept]
      exact (carries_saves (hsingle r.number) (store_of_mem h hr)).congr
        (store_stayed h hnum horderly hr hstay)
  · intro c hc
    obtain ⟨he, hsubmit⟩ := mem_creations.mp hc
    exact (carries_saves (hsingle c.1) (store_of_absent h (notMem_of_canSubmit hsubmit))).congr
      (store_created h hnum horderly he hsubmit)

end Places

/-- A step fits a history when it comes to no number the history came to, edits
apart, and brings over all it moves. -/
def Fits (rules : List FirewallRule) (steps : List Step) (e : Step) : Prop :=
  (∀ e' ∈ steps, Separate rules e' e) ∧ Replays rules e

theorem orderly_append {rules : List FirewallRule} {steps : List Step} {e : Step}
    (h : Orderly rules steps) (hfits : Fits rules steps e) : Orderly rules (steps ++ [e]) := by
  refine ⟨List.pairwise_append.mpr ⟨h.separate, List.pairwise_singleton _ _, ?_⟩, ?_⟩
  · intro e' he' x hx
    rw [List.mem_singleton.mp hx]
    exact hfits.1 e' he'
  · intro x hx
    rcases List.mem_append.mp hx with hx | hx
    · exact h.replays x hx
    · rw [List.mem_singleton.mp hx]
      exact hfits.2

/-- Whatever is done on the page of a ruleset before a commit, as long as every
step fits, the queue composes at every moment. -/
theorem composes_of_fits (S : Schema) {ref : RulesetRef} {t : ConfigTree} (h : t.WellFormed)
    (hnum : Numbered (rulesAt ref t)) (hallowed : Allowed S t) (huniform : Uniform S ref)
    (hsingle : ∀ n, (ruleForm ref n).SingleIn S) {steps : List Step}
    (hfits : Guarded (fun done e => done ++ [e]) (Fits (rulesAt ref t)) [] steps) :
    ∀ done ∈ trail (fun done e => done ++ [e]) [] steps, Composes S ref t done := by
  intro done hdone
  have horderly : Orderly (rulesAt ref t) done :=
    forall_trail_of_guarded (fun _ _ hprev hfit => orderly_append hprev hfit)
      ⟨List.Pairwise.nil, fun e he => absurd he List.not_mem_nil⟩ hfits done hdone
  exact composes_of_orderly h hnum hallowed huniform horderly hsingle

/-- The forward chain with rules that accept. -/
def acceptRules (numbers : List String) : ConfigTree :=
  applyOps ⟨fun _ => false⟩ (.node [])
    (numbers.map fun n => ⟨.set, rulePath forwardChain n ["action"], some "accept"⟩)

/-- Of two rules the second goes to the front, and a third is added. -/
theorem composes_front_and_new :
    Composes ⟨fun _ => false⟩ forwardChain (acceptRules ["10", "20"])
      [.reorder 1 0, .create "30" { blankRuleFormValues with action := some .drop }] := by
  have hnum : Numbered (rulesAt forwardChain (acceptRules ["10", "20"])) := by
    constructor <;> decide
  have hchanges : reorderChanges (rulesAt forwardChain (acceptRules ["10", "20"])) 1 0 =
      [(parseRule .ipv4 "20" (some (.node [("action", .leaf "accept")])), "5")] := rfl
  have htakes : ∀ r n, Takes (rulesAt forwardChain (acceptRules ["10", "20"])) 1 0 r n →
      r = parseRule .ipv4 "20" (some (.node [("action", .leaf "accept")])) ∧ n = "5" := by
    intro r n hr
    have hmem := (mem_reorderChanges_iff hnum).mpr hr
    rw [hchanges, List.mem_singleton, Prod.mk.injEq] at hmem
    exact hmem
  have hsingle : ∀ n, (ruleForm forwardChain n).SingleIn ⟨fun _ => false⟩ := by
    intro n f _
    cases f <;> trivial
  have hreplays : Replays (rulesAt forwardChain (acceptRules ["10", "20"])) (.reorder 1 0) := by
    intro r n hr
    obtain ⟨rfl, -⟩ := htakes r n hr
    refine ⟨noBlank_leaf rfl (by decide), ⟨_, _, rfl⟩, ?_⟩
    rintro c hc
    obtain rfl := Option.some.inj hc
    unfold Faithful
    decide
  have hseparate : Separate (rulesAt forwardChain (acceptRules ["10", "20"])) (.reorder 1 0)
      (.create "30" { blankRuleFormValues with action := some .drop }) := by
    rintro n ⟨r, m, hr, hn⟩ ⟨rfl, -⟩
    obtain ⟨rfl, rfl⟩ := htakes r m hr
    have hnot : ¬ ("30" = (parseRule .ipv4 "20" (some (.node [("action", .leaf "accept")]))).number ∨
        "30" = "5") := by decide
    exact absurd hn hnot
  have hfits : Guarded (fun done e => done ++ [e])
      (Fits (rulesAt forwardChain (acceptRules ["10", "20"]))) []
      [.reorder 1 0, .create "30" { blankRuleFormValues with action := some .drop }] := by
    refine ⟨⟨fun e he => absurd he List.not_mem_nil, hreplays⟩, ⟨?_, trivial⟩, trivial⟩
    intro e he
    rw [List.mem_singleton.mp he]
    exact hseparate
  exact composes_of_fits ⟨fun _ => false⟩ (by decide) hnum ((allowed_empty _).applyOps _)
    (fun _ _ _ => rfl) hsingle hfits _
    (List.mem_cons_of_mem _ (List.mem_cons_of_mem _ (mem_trail_self _ _)))

/-- Two moves find the same number, and a rule is lost. -/
theorem not_composes_two_moves :
    ¬ Composes ⟨fun _ => false⟩ forwardChain (acceptRules ["10", "20", "30", "40"])
      [.reorder 0 1, .reorder 3 2] := by
  rintro ⟨place, hperm, -⟩
  have hlength := hperm.length_eq
  simp only [List.length_map, List.length_append] at hlength
  revert hlength
  decide

end VyosClient.QueueComposition
