import VyosClient.FirewallRuleForm
import VyosClient.HaVrrp
import VyosClient.LoadBalancingWan

/-!
The deletions of the VRRP group form, the WAN rule form and the firewall rule
form, each opened on what was fetched. Flags, the authentication of a group and
the limit of a rule are deleted only where they exist; a text field may delete
a leaf that is not there.
-/

namespace VyosClient.FormDeletions

open ConfigTrees ConfigTree Configure FormDiff FirewallParse FirewallRuleForm AbsentLeaves HaVrrp
  LoadBalancingWan

theorem actionText_of_none {v : Unknown} (h : v = none) :
    ((ruleActions.find? fun a => some a.text = asString v).map RuleAction.text).getD "" = "" := by
  rw [h]
  rfl

/-- The rule form deletes only what was fetched when no field of an absent leaf
holds blanks. -/
theorem deletesExist_ruleFormToOps_iff (t : ConfigTree) (ref : RulesetRef) (ruleNumber : String)
    (values : RuleFormValues) :
    DeletesExist t (ruleFormToOps ref ruleNumber
        (some (parseRule ref.family ruleNumber (t.get (rulePath ref ruleNumber [])))) values) ↔
      KeepsAbsent t (rulePath ref ruleNumber []) (FirewallRuleForm.scalarFields ref.family) (fun _ => "") values := by
  have hops : ∀ before : RuleFormValues, (ruleForm ref ruleNumber).diff before values =
      ((FirewallRuleForm.scalarFields ref.family).flatMap fun f =>
        (Field.text f.1 (rulePath ref ruleNumber [] ++ f.2)).diff before values) ++
      FirewallRuleForm.flagFields.flatMap fun f =>
        (Field.flag f.1 (rulePath ref ruleNumber [] ++ f.2)).diff before values := by
    intro before
    simp only [ruleForm, ruleFormBelow, Form.diff, fieldsBelow, List.flatMap_append,
      List.flatMap_map]
  simp only [ruleFormToOps]
  rw [hops, deletesExist_append, deletesExist_texts_iff, and_iff_left]
  · refine deletesExist_flags ?_
    simp only [FirewallRuleForm.flagFields, List.forall_mem_cons, ruleToFormValues, parseRule, isFlagPresent_eq,
      child_get]
    simp
  · simp only [FirewallRuleForm.scalarFields, List.forall_mem_cons, ruleToFormValues, matchToFormValues,
      RuleFormValues.actionText, parseRule, parseMatch, child_get, List.append_assoc,
      List.cons_append, List.nil_append]
    refine ⟨actionText_of_none, ?_⟩
    simp +contextual [asString]

/-- A form opened on what was fetched deletes only what exists, exactly when it
leaves no text field of an absent leaf blank in any other way than it showed
it: the defaults 100, 1, 0, 3, 60 and `all` may not be cleared, and an empty
field may not be filled with blanks. -/
theorem deletesExist_iff_keepsAbsent (N : Type) [JsNumber N] (t : ConfigTree) :
    (∀ name values, DeletesExist t (vrrpGroupFormToOps name
        (some (parseVRRPGroup name (t.get (vrrpGroupPath name [])) : VRRPGroup N)) values) ↔
      KeepsAbsent t (vrrpGroupPath name []) groupScalarFields
        (groupShown (t.get (vrrpGroupPath name []))) values) ∧
    (∀ ruleId values, DeletesExist t (wanRuleFormToOps ruleId
        (some (parseWANRule ruleId (t.get (wanRulePath ruleId [])) : WANRule N)) values) ↔
      KeepsAbsent t (wanRulePath ruleId []) textFields ruleShown values) ∧
    ∀ ref ruleNumber values, DeletesExist t (ruleFormToOps ref ruleNumber
        (some (parseRule ref.family ruleNumber (t.get (rulePath ref ruleNumber [])))) values) ↔
      KeepsAbsent t (rulePath ref ruleNumber []) (FirewallRuleForm.scalarFields ref.family)
        (fun _ => "") values :=
  ⟨deletesExist_vrrpGroupFormToOps_iff t, deletesExist_wanRuleFormToOps_iff t,
    deletesExist_ruleFormToOps_iff t⟩

/-- A group that leaves its priority at the default. -/
def plainGroup : ConfigTree :=
  .node [("high-availability", .node [("vrrp", .node [("group", .node [("wan", .node
    [("interface", .leaf "eth0"), ("vrid", .leaf "10")])])])])]

def plainGroupForm : VRRPGroupFormValues := groupForm ℕ plainGroup "wan"

/-- Clearing the field that shows the default deletes a leaf that is not there. -/
theorem clearedPriority_deletes_absent :
    let ops := vrrpGroupFormToOps "wan"
      (some (parseVRRPGroup "wan" (plainGroup.get (vrrpGroupPath "wan" [])) : VRRPGroup ℕ))
      { plainGroupForm with priority := "" }
    plainGroupForm.priority = "100" ∧ ops = [⟨.delete, vrrpGroupPath "wan" ["priority"], none⟩] ∧
      ¬ DeletesExist plainGroup ops := by
  intro ops
  have hops : ops = [⟨.delete, vrrpGroupPath "wan" ["priority"], none⟩] := by decide
  refine ⟨by decide, hops, fun hexist => ?_⟩
  rw [hops] at hexist
  have hsome := hexist _ List.mem_cons_self rfl
  exact absurd hsome (by decide)

end VyosClient.FormDeletions
