import VyosClient.FormTables
import VyosClient.RuleEditing

/-!
What the rule form leaves behind. After a submission the parser reads what was
entered: edited texts without the blanks around them, fields that were not edited
as they were fetched. Nothing else of the rule moves.
-/

namespace VyosClient.RuleReadback

open PathStore ConfigTrees Configure FormDiff FormTables FirewallParse FirewallRuleForm RuleEditing

def savedMatch (before values : MatchFormValues) : MatchFormValues where
  address := savedText before.address values.address
  port := savedText before.port values.port
  macAddress := savedText before.macAddress values.macAddress
  addressGroup := savedText before.addressGroup values.addressGroup
  networkGroup := savedText before.networkGroup values.networkGroup
  portGroup := savedText before.portGroup values.portGroup
  macGroup := savedText before.macGroup values.macGroup
  domainGroup := savedText before.domainGroup values.domainGroup

/-- The values of a submission with the edited texts trimmed. -/
def savedRule (before values : RuleFormValues) : RuleFormValues where
  action := values.action
  jumpTarget := savedText before.jumpTarget values.jumpTarget
  protocol := savedText before.protocol values.protocol
  description := savedText before.description values.description
  disabled := values.disabled
  log := values.log
  source := savedMatch before.source values.source
  destination := savedMatch before.destination values.destination
  inboundInterface := savedText before.inboundInterface values.inboundInterface
  outboundInterface := savedText before.outboundInterface values.outboundInterface
  icmpTypeName := savedText before.icmpTypeName values.icmpTypeName

theorem trim_actionText (v : RuleFormValues) : trim v.actionText = v.actionText := by
  unfold RuleFormValues.actionText
  cases v.action with
  | none => decide
  | some a => cases a <;> decide +kernel

theorem action_eq_of_actionText {v w : RuleFormValues} (h : v.actionText = w.actionText) :
    v.action = w.action := by
  unfold RuleFormValues.actionText at h
  revert h
  cases v.action with
  | none =>
    cases w.action with
    | none => exact fun _ => rfl
    | some b => cases b <;> decide
  | some a =>
    cases w.action with
    | none => cases a <;> decide
    | some b => cases a <;> cases b <;> decide

/-- The fields of the form and the destination's MAC address are all there is. -/
theorem eq_of_fields (family : FirewallFamily) {v w : RuleFormValues}
    (htexts : ∀ f ∈ FirewallRuleForm.scalarFields family, f.1 v = f.1 w)
    (hflags : ∀ f ∈ FirewallRuleForm.flagFields, f.1 v = f.1 w)
    (hmac : v.destination.macAddress = w.destination.macAddress) : v = w := by
  simp only [FirewallRuleForm.scalarFields, FirewallRuleForm.flagFields, List.forall_mem_cons]
    at htexts hflags
  obtain ⟨haction, htexts⟩ := htexts
  have hact := action_eq_of_actionText haction
  obtain ⟨_, _, _, _, _, _, ⟨_, _, _, _, _, _, _, _⟩, ⟨_, _, _, _, _, _, _, _⟩, _, _, _⟩ := v
  obtain ⟨_, _, _, _, _, _, ⟨_, _, _, _, _, _, _, _⟩, ⟨_, _, _, _, _, _, _, _⟩, _, _, _⟩ := w
  simp only at hact htexts hflags hmac
  simp_all

theorem text_savedRule (family : FirewallFamily) (before values : RuleFormValues) :
    ∀ f ∈ FirewallRuleForm.scalarFields family,
      f.1 (savedRule before values) = savedText (f.1 before) (f.1 values) := by
  have haction : (savedRule before values).actionText =
      savedText before.actionText values.actionText :=
    (savedText_of_trimmed (trim_actionText values)).symm
  simp only [FirewallRuleForm.scalarFields, List.forall_mem_cons, haction, true_and]
  simp [savedRule, savedMatch]

section Reads

variable {t : ConfigTree} {ref : RulesetRef} {n : String}

/-- The parser finds each text field but the action where the form stores it. -/
theorem text_currentRule (hwf : t.WellFormed) :
    ∀ f ∈ (FirewallRuleForm.scalarFields ref.family).tail,
      f.1 (ruleToFormValues (currentRule ref n t)) =
        readText (t.store (rulePath ref n [] ++ f.2)) := by
  simp only [FirewallRuleForm.scalarFields, List.tail_cons, List.forall_mem_cons, currentRule,
    ruleToFormValues, matchToFormValues, parseRule, parseMatch, ConfigTree.child_get,
    getD_asString_get hwf, List.append_assoc, List.cons_append, List.nil_append]
  simp

theorem flag_currentRule (t : ConfigTree) :
    ∀ f ∈ FirewallRuleForm.flagFields,
      f.1 (ruleToFormValues (currentRule ref n t)) =
        (t.store (rulePath ref n [] ++ f.2)).isSome := by
  simp only [FirewallRuleForm.flagFields, List.forall_mem_cons, currentRule, ruleToFormValues,
    parseRule, isFlagPresent_get]
  simp

/-- An action the pages do not know is shown as none. -/
theorem actionText_currentRule (hwf : t.WellFormed) :
    (ruleToFormValues (currentRule ref n t)).actionText =
      ((ruleActions.find? fun a =>
        some a.text = (t.store (rulePath ref n [] ++ ["action"])).map readValues).map
          RuleAction.text).getD "" := by
  simp only [currentRule, ruleToFormValues, RuleFormValues.actionText, parseRule,
    ConfigTree.child_get, asString_get hwf]

end Reads

section Submission

variable {S : Schema} {t : ConfigTree} {ref : RulesetRef} {n : String} {values : RuleFormValues}

/-- The configuration after the operations of a submission. -/
def applied (S : Schema) (ref : RulesetRef) (n : String) (t : ConfigTree)
    (values : RuleFormValues) : ConfigTree :=
  applyOps S t (ruleFormToOps ref n (some (currentRule ref n t)) values)

theorem store_applied (S : Schema) (ref : RulesetRef) (n : String) (t : ConfigTree)
    (values : RuleFormValues) :
    (applied S ref n t values).store = run S.multi t.store
      (edits ((ruleForm ref n).diff (ruleToFormValues (currentRule ref n t)) values)) :=
  store_applyOps S t _

theorem text_mem_ruleForm {f : (RuleFormValues → String) × Path}
    (hf : f ∈ FirewallRuleForm.scalarFields ref.family) :
    Field.text f.1 (rulePath ref n [] ++ f.2) ∈ (ruleForm ref n).fields :=
  List.mem_append_left _ (List.mem_map.mpr ⟨f, hf, rfl⟩)

theorem flag_mem_ruleForm {f : (RuleFormValues → Bool) × Path}
    (hf : f ∈ FirewallRuleForm.flagFields) :
    Field.flag f.1 (rulePath ref n [] ++ f.2) ∈ (ruleForm ref n).fields :=
  List.mem_append_right _ (List.mem_map.mpr ⟨f, hf, rfl⟩)

theorem wellFormed_applied (hwf : t.WellFormed) : (applied S ref n t values).WellFormed :=
  WellFormed.applyOps hwf S _

theorem slot_applied (hsingle : (ruleForm ref n).SingleIn S) (t : ConfigTree)
    (values : RuleFormValues) {f : FormDiff.Field RuleFormValues}
    (hf : f ∈ (ruleForm ref n).fields) :
    (applied S ref n t values).store f.path =
      if f.Same (ruleToFormValues (currentRule ref n t)) values then t.store f.path
      else f.outcome values (t.store f.path) := by
  rw [store_applied]
  exact Form.run_diff hsingle hf values t.store

/-- The action is always shown as entered: its texts have no blanks. -/
theorem action_saved (hwf : t.WellFormed) (hsingle : (ruleForm ref n).SingleIn S) :
    (ruleToFormValues (currentRule ref n (applied S ref n t values))).actionText =
      values.actionText := by
  have hslot : (applied S ref n t values).store (rulePath ref n [] ++ ["action"]) =
      if (ruleToFormValues (currentRule ref n t)).actionText = values.actionText then
        t.store (rulePath ref n [] ++ ["action"])
      else if trim values.actionText = "" then none else some [trim values.actionText] :=
    slot_applied hsingle t values (f := .text RuleFormValues.actionText _)
      (text_mem_ruleForm List.mem_cons_self)
  rw [actionText_currentRule (wellFormed_applied hwf)]
  show ((ruleActions.find? fun a => some a.text =
    ((applied S ref n t values).store (rulePath ref n [] ++ ["action"])).map readValues).map
      RuleAction.text).getD "" = values.actionText
  rw [hslot]
  split_ifs with hsame hblank
  · exact (actionText_currentRule hwf).symm.trans hsame
  · exact hblank.symm.trans (trim_actionText values)
  · rw [trim_actionText]
    unfold RuleFormValues.actionText
    cases values.action with
    | none => rfl
    | some a => cases a <;> rfl

theorem text_saved (hwf : t.WellFormed) (hsingle : (ruleForm ref n).SingleIn S) :
    ∀ f ∈ FirewallRuleForm.scalarFields ref.family,
      f.1 (ruleToFormValues (currentRule ref n (applied S ref n t values))) =
        savedText (f.1 (ruleToFormValues (currentRule ref n t))) (f.1 values) := by
  intro f hf
  have hslot := slot_applied hsingle t values (text_mem_ruleForm hf)
  rcases List.mem_cons.mp hf with rfl | hrest
  · rw [savedText_of_trimmed (trim_actionText values)]
    exact action_saved hwf hsingle
  · exact FormTables.Field.saved_of_slot hslot (text_currentRule hwf f hrest)
      (text_currentRule (wellFormed_applied hwf) f hrest)

theorem flag_saved (hsingle : (ruleForm ref n).SingleIn S) :
    ∀ f ∈ FirewallRuleForm.flagFields,
      f.1 (ruleToFormValues (currentRule ref n (applied S ref n t values))) = f.1 values := by
  intro f hf
  have hslot := slot_applied hsingle t values (flag_mem_ruleForm hf)
  exact FormTables.Field.saved_of_slot hslot (flag_currentRule t f hf) (flag_currentRule _ f hf)

/-- The form has no field for the destination's MAC address. -/
theorem macAddress_saved (hwf : t.WellFormed) :
    (ruleToFormValues (currentRule ref n (applied S ref n t values))).destination.macAddress =
      (ruleToFormValues (currentRule ref n t)).destination.macAddress := by
  have hread : ∀ t' : ConfigTree, t'.WellFormed →
      (ruleToFormValues (currentRule ref n t')).destination.macAddress =
        readText (t'.store (rulePath ref n [] ++ ["destination", "mac-address"])) := by
    intro t' hwf'
    simp only [currentRule, ruleToFormValues, matchToFormValues, parseRule, parseMatch,
      ConfigTree.child_get, getD_asString_get hwf', List.append_assoc, List.cons_append,
      List.nil_append]
  have hsegments : ∀ p ∈ segments ref.family, Apart p ["destination", "mac-address"] := by
    cases ref.family <;> decide
  have houtside : (ruleForm ref n).Outside (rulePath ref n [] ++ ["destination", "mac-address"]) := by
    intro f hf
    obtain ⟨p, hp, hpath⟩ := path_of_mem_fieldsBelow hf
    rw [hpath]
    exact (apart_append_left _).mpr (hsegments p hp)
  rw [hread _ (wellFormed_applied hwf), hread t hwf, store_applied,
    Form.run_diff_outside houtside]

end Submission

/-- After a submission that leaves the destination's MAC address as it is, the parser
reads the values entered, each edited text without the blanks around it, and all
paths of the rule that no changed field owns are as they were. -/
theorem applied_reads_saved (S : Schema) (ref : RulesetRef) (n : String) (t : ConfigTree)
    (values : RuleFormValues) (hwf : t.WellFormed) (hsingle : (ruleForm ref n).SingleIn S)
    (hmac : values.destination.macAddress =
      (ruleToFormValues (currentRule ref n t)).destination.macAddress) :
    ruleToFormValues (currentRule ref n (applied S ref n t values)) =
        savedRule (ruleToFormValues (currentRule ref n t)) values ∧
      Untouched (Form.Changed (ruleForm ref n) (ruleToFormValues (currentRule ref n t)) values)
        t.store (applied S ref n t values).store := by
  constructor
  · apply eq_of_fields ref.family
    · intro f hf
      rw [text_saved hwf hsingle f hf, text_savedRule ref.family _ _ f hf]
    · intro f hf
      rw [flag_saved hsingle f hf]
      simp only [FirewallRuleForm.flagFields, List.mem_cons, List.not_mem_nil, or_false] at hf
      rcases hf with rfl | rfl <;> rfl
    · rw [macAddress_saved hwf]
      show _ = savedText _ _
      rw [hmac, savedText_self]
  · rw [store_applied]
    exact Form.untouched_diff S _ _ values t.store

/-- A description is typed with blanks around it, and stored without them. -/
theorem describedRule_reads_saved :
    let before := ruleToFormValues (currentRule forwardChain "10" (describedRule "old"))
    let values := { before with description := " new " }
    (ruleToFormValues (currentRule forwardChain "10"
      (applied ⟨fun _ => false⟩ forwardChain "10" (describedRule "old") values))).description =
        "new" := by
  intro before values
  have hsingle : (ruleForm forwardChain "10").SingleIn ⟨fun _ => false⟩ := by
    intro f _
    cases f <;> trivial
  have hall := (applied_reads_saved ⟨fun _ => false⟩ forwardChain "10" (describedRule "old") values
    (by decide) hsingle rfl).1
  rw [hall]
  decide

/-- A description that was fetched with blanks around it keeps them when it is not
edited. -/
theorem unedited_keeps_blanks :
    let before := ruleToFormValues (currentRule forwardChain "10" (describedRule " old "))
    (describedRule " old ").WellFormed ∧
      (ruleToFormValues (currentRule forwardChain "10"
        (applied ⟨fun _ => false⟩ forwardChain "10" (describedRule " old ") before))).description ≠
          trim before.description := by
  decide

end VyosClient.RuleReadback
