import VyosClient.FirewallRuleForm

/-!
The rule form of the ruleset page. Its values are set once, when it is opened,
while a submission is a difference against the rule the page holds at that
time; a rule that has changed in between gets its old values back.
-/

namespace VyosClient.RuleEditing

open PathStore ConfigTrees Configure PendingChanges PendingChangesState FormDiff FirewallParse
  FirewallRuleForm

/-- `/^[1-9][0-9]*$/` -/
def validNumber (ruleNumber : String) : Bool :=
  match ruleNumber.toList with
  | [] => false
  | c :: cs => c.isDigit && c != '0' && cs.all Char.isDigit

/-- A new rule must not take a number of the fetched ruleset. -/
def canSubmit (rule : Option FirewallRule) (existingNumbers : List String) (ruleNumber : String)
    (values : RuleFormValues) : Bool :=
  validNumber ruleNumber && !(rule.isNone && existingNumbers.contains ruleNumber) &&
    values.action.isSome

def submit (s : PendingChangesState) (ref : RulesetRef) (rule : Option FirewallRule)
    (existingNumbers : List String) (ruleNumber : String) (values : RuleFormValues) :
    PendingChangesState :=
  if canSubmit rule existingNumbers ruleNumber values then
    s.addAll (ruleFormToOps ref ruleNumber rule values)
  else s

/-- The page's rule at the time of the submission. -/
def currentRule (ref : RulesetRef) (ruleNumber : String) (t : ConfigTree) : FirewallRule :=
  parseRule ref.family ruleNumber (t.get (rulePath ref ruleNumber []))

/-- The configuration after the submission is committed. -/
def committed (S : Schema) (ref : RulesetRef) (ruleNumber : String)
    (existingNumbers : List String) (t : ConfigTree) (values : RuleFormValues) : ConfigTree :=
  applyOps S t (submit .empty ref (some (currentRule ref ruleNumber t)) existingNumbers
    ruleNumber values).ops

theorem store_committed (S : Schema) {ref : RulesetRef} {ruleNumber : String}
    {existingNumbers : List String} {t : ConfigTree} {values : RuleFormValues}
    (hsubmit : canSubmit (some (currentRule ref ruleNumber t)) existingNumbers ruleNumber values) :
    (committed S ref ruleNumber existingNumbers t values).store =
      run S.multi t.store (edits ((ruleForm ref ruleNumber).diff
        (ruleToFormValues (currentRule ref ruleNumber t)) values)) := by
  have hqueue := (ruleForm ref ruleNumber).store_queued S t
    (ruleToFormValues (currentRule ref ruleNumber t)) [values]
  have hsaves : (ruleForm ref ruleNumber).saves (ruleToFormValues (currentRule ref ruleNumber t))
      [values] = (ruleForm ref ruleNumber).diff
        (ruleToFormValues (currentRule ref ruleNumber t)) values := by
    simp [Form.saves]
  rw [hsaves] at hqueue
  rw [committed, submit, if_pos hsubmit]
  exact hqueue

/-- The form opened on `shown` and submitted while the page holds the rule of
`t`: it leaves every field outside `edited`, and all that it does not model,
as in `t`, and gives the others the typed value, if and only if each field
that was not edited still has its shown value, or has it trimmed already, and
no typed value is taken for unchanged unless it is there trimmed. -/
theorem submit_keeps_unedited_iff (S : Schema) {ref : RulesetRef} {ruleNumber : String}
    {existingNumbers : List String} (t : ConfigTree) (shown : FirewallRule)
    {values : RuleFormValues} {edited : Set Path}
    (hsubmit : canSubmit (some (currentRule ref ruleNumber t)) existingNumbers ruleNumber values)
    (hsingle : (ruleForm ref ruleNumber).SingleIn S)
    (hrest : ∀ f ∈ (ruleForm ref ruleNumber).fields, f.path ∉ edited →
      f.Same (ruleToFormValues shown) values) :
    ((∀ f ∈ (ruleForm ref ruleNumber).fields,
        (f.path ∉ edited → (committed S ref ruleNumber existingNumbers t values).store f.path =
          t.store f.path) ∧
        (f.path ∈ edited → f.Holds values
          ((committed S ref ruleNumber existingNumbers t values).store f.path))) ∧
      ∀ q, (ruleForm ref ruleNumber).Outside q →
        (committed S ref ruleNumber existingNumbers t values).store q = t.store q) ↔
      ∀ f ∈ (ruleForm ref ruleNumber).fields,
        (f.path ∉ edited →
          f.Same (ruleToFormValues (currentRule ref ruleNumber t)) (ruleToFormValues shown) ∨
            f.Holds (ruleToFormValues shown) (t.store f.path)) ∧
        (f.path ∈ edited →
          ¬ f.Same (ruleToFormValues (currentRule ref ruleNumber t)) values ∨
            f.Holds values (t.store f.path)) := by
  have houtside : ∀ q, (ruleForm ref ruleNumber).Outside q →
      (committed S ref ruleNumber existingNumbers t values).store q = t.store q := by
    intro q hq
    rw [store_committed S hsubmit]
    exact Form.run_diff_outside hq values t.store
  rw [and_iff_left houtside, store_committed S hsubmit]
  exact Form.keeps_unedited_iff hsingle hrest t.store

/-- A rule of the forward chain with a description. -/
def describedRule (description : String) : ConfigTree :=
  .node [("firewall", .node [("ipv4", .node [("forward", .node [("filter", .node
    [("rule", .node [("10", .node
      [("action", .leaf "accept"), ("description", .leaf description)])])])])])])]

/-- The same rule after another session let it reject, and took the blank after its description
away. -/
def rejectingRule : ConfigTree :=
  .node [("firewall", .node [("ipv4", .node [("forward", .node [("filter", .node
    [("rule", .node [("10", .node
      [("action", .leaf "reject"), ("description", .leaf "old")])])])])])])]

/-- The form was opened on an accepting rule with a blank after its description, and the action is
edited. Both fields have changed meanwhile: the action becomes the typed one, the description stays
as the other session left it. -/
theorem submit_keeps_description :
    let shown := currentRule forwardChain "10" (describedRule "old ")
    let values := { ruleToFormValues shown with action := some .drop }
    let t := committed ⟨fun _ => false⟩ forwardChain "10" ["10"] rejectingRule values
    ruleToFormValues shown ≠ ruleToFormValues (currentRule forwardChain "10" rejectingRule) ∧
      t.store (rulePath forwardChain "10" ["action"]) = some ["drop"] ∧
      t.store (rulePath forwardChain "10" ["description"]) = some ["old"] ∧
      ∀ q, (ruleForm forwardChain "10").Outside q → t.store q = rejectingRule.store q := by
  intro shown values t
  have hsubmit : canSubmit (some (currentRule forwardChain "10" rejectingRule)) ["10"] "10"
      values := by decide
  have hsingle : (ruleForm forwardChain "10").SingleIn ⟨fun _ => false⟩ := by
    intro f _
    cases f <;> trivial
  have hrest : ∀ f ∈ (ruleForm forwardChain "10").fields,
      f.path ∉ ({rulePath forwardChain "10" ["action"]} : Set Path) →
        f.Same (ruleToFormValues shown) values := by
    simp only [Set.mem_singleton_iff]
    decide +kernel
  have hkept : ∀ f ∈ (ruleForm forwardChain "10").fields,
      f.Same (ruleToFormValues (currentRule forwardChain "10" rejectingRule))
          (ruleToFormValues shown) ∨
        f.Holds (ruleToFormValues shown) (rejectingRule.store f.path) ∨
        f.path = rulePath forwardChain "10" ["action"] := by
    decide +kernel
  have hedited : ∀ f ∈ (ruleForm forwardChain "10").fields,
      f.path = rulePath forwardChain "10" ["action"] →
        ¬ f.Same (ruleToFormValues (currentRule forwardChain "10" rejectingRule)) values := by
    decide +kernel
  have hiff := submit_keeps_unedited_iff ⟨fun _ => false⟩ rejectingRule shown hsubmit hsingle hrest
  obtain ⟨hfields, houtside⟩ := hiff.mpr (by
    intro f hf
    refine ⟨fun hother => ?_, fun hmem => Or.inl (hedited f hf hmem)⟩
    rcases hkept f hf with hsame | hholds | haction
    · exact Or.inl hsame
    · exact Or.inr hholds
    · exact absurd haction hother)
  have hmem : ∀ x ∈ scalarFields forwardChain.family,
      .text x.1 (rulePath forwardChain "10" [] ++ x.2) ∈ (ruleForm forwardChain "10").fields :=
    fun x hx => List.mem_append_left _ (List.mem_map.mpr ⟨x, hx, rfl⟩)
  have haction := (hfields _ (hmem (RuleFormValues.actionText, ["action"])
    List.mem_cons_self)).2 rfl
  have hdescription := (hfields _ (hmem (RuleFormValues.description, ["description"])
    (by simp [scalarFields]))).1 (by decide)
  refine ⟨by decide +kernel, haction.trans ?_, hdescription.trans ?_, houtside⟩
  · decide
  · decide

/-- The rule is described anew while the form is open, the action is edited,
and the old description is back. -/
theorem submit_reverts_description :
    let shown := currentRule forwardChain "10" (describedRule "old")
    let values := { ruleToFormValues shown with action := some .drop }
    canSubmit (some (currentRule forwardChain "10" (describedRule "new"))) ["10"] "10" values ∧
      (committed ⟨fun _ => false⟩ forwardChain "10" ["10"] (describedRule "new") values).store
        (rulePath forwardChain "10" ["description"]) ≠
          (describedRule "new").store (rulePath forwardChain "10" ["description"]) := by
  decide

end VyosClient.RuleEditing
