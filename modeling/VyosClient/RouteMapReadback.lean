import VyosClient.RouteMapForm

/-!
What the form of a route-map rule leaves behind. A community that is added or put in
place by the form joins those already there, and the page goes on showing the first
one: the form does what it shows when its leaf held nothing else.
-/

namespace VyosClient.RouteMapReadback

open PathStore ConfigTrees Configure FormDiff FormTables RouteMapForm

def trimmedMatch (values : RouteMapMatchFormValues) : RouteMapMatchFormValues where
  asPath := trim values.asPath
  communityList := trim values.communityList
  communityExactMatch := values.communityExactMatch
  ipPrefixList := trim values.ipPrefixList
  ipv6PrefixList := trim values.ipv6PrefixList
  protocol := trim values.protocol
  metric := trim values.metric
  localPreference := trim values.localPreference
  tag := trim values.tag

def trimmedSet (values : RouteMapSetFormValues) : RouteMapSetFormValues where
  metric := trim values.metric
  localPreference := trim values.localPreference
  asPathPrepend := trim values.asPathPrepend
  asPathExclude := trim values.asPathExclude
  communityAdd := trim values.communityAdd
  communityReplace := trim values.communityReplace
  communityNone := values.communityNone
  communityDelete := trim values.communityDelete
  origin := trim values.origin
  tag := trim values.tag
  weight := trim values.weight

/-- The values of the form with every text trimmed. -/
def trimmedRule (values : RouteMapRuleFormValues) : RouteMapRuleFormValues where
  action := trim values.action
  description := trim values.description
  call := trim values.call
  onMatchGoto := trim values.onMatchGoto
  onMatchNext := values.onMatchNext
  «match» := trimmedMatch values.match
  set := trimmedSet values.set

theorem text_trimmedRule (values : RouteMapRuleFormValues) :
    ∀ f ∈ scalarFields, f.1 (trimmedRule values) = trim (f.1 values) := by
  simp [scalarFields, trimmedRule, trimmedMatch, trimmedSet]

theorem flag_trimmedRule (values : RouteMapRuleFormValues) :
    ∀ f ∈ flagFields, f.1 (trimmedRule values) = f.1 values := by
  simp [flagFields, trimmedRule, trimmedMatch, trimmedSet]

theorem eq_of_fields {v w : RouteMapRuleFormValues}
    (htexts : ∀ f ∈ scalarFields, f.1 v = f.1 w) (hflags : ∀ f ∈ flagFields, f.1 v = f.1 w) :
    v = w := by
  simp only [scalarFields, flagFields, List.forall_mem_cons] at htexts hflags
  obtain ⟨_, _, _, _, _, ⟨_, _, _, _, _, _, _, _, _⟩, ⟨_, _, _, _, _, _, _, _, _, _, _⟩⟩ := v
  obtain ⟨_, _, _, _, _, ⟨_, _, _, _, _, _, _, _, _⟩, ⟨_, _, _, _, _, _, _, _, _, _, _⟩⟩ := w
  simp only at htexts hflags
  simp_all

/-- The rule of a configuration. -/
def currentRule (mapName ruleNumber : String) (t : ConfigTree) : RouteMapRule :=
  parseRouteMapRule ruleNumber (t.get (routeMapRulePath mapName ruleNumber []))

/-- The values of the form when it is opened. -/
def shownRule (mapName ruleNumber : String) (t : ConfigTree) : RouteMapRuleFormValues :=
  routeMapRuleToFormValues (currentRule mapName ruleNumber t)

/-- The leaves of which the parser reads the first value. -/
def firstRead : List Path := [["set", "community", "add"], ["set", "community", "replace"]]

def reading (p : Path) : Slot String → String := if p ∈ firstRead then readFirst else readText

theorem reading_none (p : Path) : reading p none = "" := by
  unfold reading
  split_ifs <;> rfl

theorem reading_singleton (p : Path) (v : String) : reading p (some [v]) = v := by
  unfold reading
  split_ifs
  · rfl
  · exact readText_singleton v

section Reads

variable {mapName ruleNumber : String} {t : ConfigTree}

theorem text_shownRule (hwf : t.WellFormed) :
    ∀ f ∈ scalarFields, f.1 (shownRule mapName ruleNumber t) =
      reading f.2 (t.store (routeMapRulePath mapName ruleNumber [] ++ f.2)) := by
  simp only [scalarFields, List.forall_mem_cons, shownRule, currentRule, routeMapRuleToFormValues,
    matchToFormValues, setToFormValues, parseRouteMapRule, parseRouteMapMatch, parseRouteMapSet,
    ConfigTree.child_get, getD_asString_get hwf, asStringArray_get, List.append_assoc,
    List.cons_append, List.nil_append]
  simp [reading, firstRead, readFirst]

theorem flag_shownRule (t : ConfigTree) :
    ∀ f ∈ flagFields, f.1 (shownRule mapName ruleNumber t) =
      (t.store (routeMapRulePath mapName ruleNumber [] ++ f.2)).isSome := by
  simp only [flagFields, List.forall_mem_cons, shownRule, currentRule, routeMapRuleToFormValues,
    matchToFormValues, setToFormValues, parseRouteMapRule, parseRouteMapMatch, parseRouteMapSet,
    ConfigTree.child_get, isFlagPresent_get, List.append_assoc, List.cons_append, List.nil_append]
  simp

end Reads

section Submission

variable {S : Schema} {mapName ruleNumber : String} {t : ConfigTree}
  {values : RouteMapRuleFormValues}

/-- The configuration after the operations of a submission. -/
def applied (S : Schema) (mapName ruleNumber : String) (t : ConfigTree)
    (values : RouteMapRuleFormValues) : ConfigTree :=
  applyOps S t (routeMapRuleFormToOps mapName ruleNumber (some (currentRule mapName ruleNumber t))
    values)

theorem store_applied (S : Schema) (mapName ruleNumber : String) (t : ConfigTree)
    (values : RouteMapRuleFormValues) :
    (applied S mapName ruleNumber t values).store = run S.multi t.store
      (edits ((routeMapRuleForm mapName ruleNumber).diff (shownRule mapName ruleNumber t)
        values)) :=
  store_applyOps S t _

theorem wellFormed_applied (hwf : t.WellFormed) :
    (applied S mapName ruleNumber t values).WellFormed :=
  WellFormed.applyOps hwf S _

theorem text_mem_form {f : (RouteMapRuleFormValues → String) × Path} (hf : f ∈ scalarFields) :
    Field.text f.1 (routeMapRulePath mapName ruleNumber [] ++ f.2) ∈
      (routeMapRuleForm mapName ruleNumber).fields :=
  List.mem_map.mpr ⟨.text f.1 f.2, List.mem_append_left _ (List.mem_map.mpr ⟨f, hf, rfl⟩), rfl⟩

theorem flag_mem_form {f : (RouteMapRuleFormValues → Bool) × Path} (hf : f ∈ flagFields) :
    Field.flag f.1 (routeMapRulePath mapName ruleNumber [] ++ f.2) ∈
      (routeMapRuleForm mapName ruleNumber).fields :=
  List.mem_map.mpr ⟨.flag f.1 f.2, List.mem_append_right _ (List.mem_map.mpr ⟨f, hf, rfl⟩), rfl⟩

/-- A field of the form is one of the two tables'. -/
theorem mem_form_cases {f : FormDiff.Field RouteMapRuleFormValues}
    (hf : f ∈ (routeMapRuleForm mapName ruleNumber).fields) :
    (∃ g ∈ scalarFields, f = .text g.1 (routeMapRulePath mapName ruleNumber [] ++ g.2)) ∨
      ∃ g ∈ flagFields, f = .flag g.1 (routeMapRulePath mapName ruleNumber [] ++ g.2) := by
  obtain ⟨f', hf', rfl⟩ := List.mem_map.mp hf
  rcases List.mem_append.mp hf' with hf' | hf'
  · obtain ⟨g, hg, rfl⟩ := List.mem_map.mp hf'
    exact .inl ⟨g, hg, rfl⟩
  · obtain ⟨g, hg, rfl⟩ := List.mem_map.mp hf'
    exact .inr ⟨g, hg, rfl⟩

theorem slot_applied (S : Schema) (t : ConfigTree) (values : RouteMapRuleFormValues)
    {f : FormDiff.Field RouteMapRuleFormValues}
    (hf : f ∈ (routeMapRuleForm mapName ruleNumber).fields) :
    (applied S mapName ruleNumber t values).store f.path =
      if f.Same (shownRule mapName ruleNumber t) values then t.store f.path
      else f.outcomeIn S values (t.store f.path) := by
  rw [store_applied]
  exact Form.run_diff_in S hf values t.store

theorem unedited_slot {f : FormDiff.Field RouteMapRuleFormValues}
    (hf : f ∈ (routeMapRuleForm mapName ruleNumber).fields)
    (hsame : f.Same (shownRule mapName ruleNumber t) values) :
    (applied S mapName ruleNumber t values).store f.path = t.store f.path :=
  (slot_applied S t values hf).trans (if_pos hsame)

theorem edited_slot {f : FormDiff.Field RouteMapRuleFormValues}
    (hf : f ∈ (routeMapRuleForm mapName ruleNumber).fields)
    (hsame : ¬ f.Same (shownRule mapName ruleNumber t) values) :
    (applied S mapName ruleNumber t values).store f.path =
      f.outcomeIn S values (t.store f.path) :=
  (slot_applied S t values hf).trans (if_neg hsame)

/-- Each changed field holds what was entered, and nothing else. -/
def HoldsEdited (mapName ruleNumber : String) (t t' : ConfigTree)
    (values : RouteMapRuleFormValues) : Prop :=
  ∀ f ∈ (routeMapRuleForm mapName ruleNumber).fields,
    ¬ f.Same (shownRule mapName ruleNumber t) values → f.Holds values (t'.store f.path)

/-- A text that was not edited has no blanks around it, and an edited one that its
leaf takes beside others finds no other there. -/
def Alone (S : Schema) (mapName ruleNumber : String) (t : ConfigTree)
    (values : RouteMapRuleFormValues) : Prop :=
  ∀ f ∈ scalarFields,
    if f.1 (shownRule mapName ruleNumber t) = f.1 values then trim (f.1 values) = f.1 values
    else S.multi (routeMapRulePath mapName ruleNumber f.2) = true → trim (f.1 values) ≠ "" →
      ∀ v ∈ (t.store (routeMapRulePath mapName ruleNumber f.2)).getD [], v = trim (f.1 values)

theorem unedited_shown (hwf : t.WellFormed) {f : (RouteMapRuleFormValues → String) × Path}
    (hf : f ∈ scalarFields) (hsame : f.1 (shownRule mapName ruleNumber t) = f.1 values) :
    f.1 (shownRule mapName ruleNumber (applied S mapName ruleNumber t values)) = f.1 values := by
  have hslot := unedited_slot (S := S) (t := t) (text_mem_form hf) hsame
  rw [text_shownRule (wellFormed_applied hwf) f hf, ← hsame, text_shownRule hwf f hf]
  exact congrArg (reading f.2) hslot

theorem holdsEdited_of_alone (hwf : t.WellFormed)
    (halone : Alone S mapName ruleNumber t values) :
    HoldsEdited mapName ruleNumber t (applied S mapName ruleNumber t values) values := by
  intro f hf hsame
  rw [edited_slot hf hsame]
  apply (FormTables.Field.holds_outcomeIn_iff (nodup_slot hwf _)).mpr
  obtain ⟨g, hg, rfl⟩ | ⟨g, hg, rfl⟩ := mem_form_cases hf
  · have hedited : ¬ g.1 (shownRule mapName ruleNumber t) = g.1 values := hsame
    have hg' := halone g hg
    rw [if_neg hedited] at hg'
    exact hg'
  · trivial

theorem shownRule_of_alone (hwf : t.WellFormed) (halone : Alone S mapName ruleNumber t values) :
    shownRule mapName ruleNumber (applied S mapName ruleNumber t values) = trimmedRule values := by
  apply eq_of_fields
  · intro f hf
    rw [text_trimmedRule values f hf]
    by_cases hsame : f.1 (shownRule mapName ruleNumber t) = f.1 values
    · have htrim := halone f hf
      rw [if_pos hsame] at htrim
      rw [unedited_shown hwf hf hsame, htrim]
    · have hholds := holdsEdited_of_alone hwf halone _ (text_mem_form hf) hsame
      rw [text_shownRule (wellFormed_applied hwf) f hf]
      exact FormTables.Field.shown_of_holds (reading_none f.2) (reading_singleton f.2) hholds
  · intro f hf
    rw [flag_trimmedRule values f hf, flag_shownRule _ f hf]
    by_cases hsame : f.1 (shownRule mapName ruleNumber t) = f.1 values
    · have hslot := unedited_slot (S := S) (t := t) (flag_mem_form hf) hsame
      rw [← hsame, flag_shownRule t f hf]
      exact congrArg Option.isSome hslot
    · exact holdsEdited_of_alone hwf halone _ (flag_mem_form hf) hsame

theorem alone_of_shownRule (hwf : t.WellFormed)
    (hshown : shownRule mapName ruleNumber (applied S mapName ruleNumber t values) =
      trimmedRule values)
    (hholds : HoldsEdited mapName ruleNumber t (applied S mapName ruleNumber t values) values) :
    Alone S mapName ruleNumber t values := by
  intro f hf
  split_ifs with hsame
  · rw [← text_trimmedRule values f hf, ← hshown]
    exact unedited_shown hwf hf hsame
  · have hslot := hholds _ (text_mem_form hf) hsame
    rw [edited_slot (text_mem_form hf) hsame] at hslot
    exact (FormTables.Field.holds_outcomeIn_iff (nodup_slot hwf _)).mp hslot

end Submission

/-- After a submission the parser shows the trimmed values, each edited field holds only
its new value and all else is as it was, if and only if no text that was not edited has
blanks around it and each edited text finds its leaf empty where others may stand
beside it. -/
theorem applied_shows_trimmed_iff (S : Schema) (mapName ruleNumber : String) (t : ConfigTree)
    (values : RouteMapRuleFormValues) (hwf : t.WellFormed) :
    (shownRule mapName ruleNumber (applied S mapName ruleNumber t values) = trimmedRule values ∧
      HoldsEdited mapName ruleNumber t (applied S mapName ruleNumber t values) values ∧
      Untouched (Form.Changed (routeMapRuleForm mapName ruleNumber)
        (shownRule mapName ruleNumber t) values)
        t.store (applied S mapName ruleNumber t values).store) ↔
      Alone S mapName ruleNumber t values := by
  constructor
  · rintro ⟨hshown, hholds, _⟩
    exact alone_of_shownRule hwf hshown hholds
  · intro halone
    refine ⟨shownRule_of_alone hwf halone, holdsEdited_of_alone hwf halone, ?_⟩
    rw [store_applied]
    exact Form.untouched_diff S _ _ values t.store

/-- The leaves that take several values in VyOS. -/
def communitySchema (mapName ruleNumber : String) : Schema :=
  ⟨fun p => p ∈ firstRead.map (routeMapRulePath mapName ruleNumber)⟩

/-- The rule 10 of the map EXPORT, with a metric and a community to add. -/
def exportRule (metric community : String) : ConfigTree :=
  .node [("policy", .node [("route-map", .node [("EXPORT", .node [("rule", .node [("10", .node
    [("set", .node [("metric", .leaf metric),
      ("community", .node [("add", .leaf community)])])])])])])])]

/-- The metric is edited, and a community to replace by, whose leaf takes several values, is put
where there was none. -/
theorem exportRule_shows_trimmed :
    let t := exportRule "5" "65000:1"
    let values := { shownRule "EXPORT" "10" t with
      set.metric := " 10 "
      set.communityReplace := " 65000:2" }
    let t' := applied (communitySchema "EXPORT" "10") "EXPORT" "10" t values
    shownRule "EXPORT" "10" t' = trimmedRule values ∧
      t'.store (routeMapRulePath "EXPORT" "10" ["set", "community", "replace"]) =
        some ["65000:2"] := by
  intro t values t'
  have halone : Alone (communitySchema "EXPORT" "10") "EXPORT" "10" t values := by
    unfold Alone
    decide +kernel
  have hall := (applied_shows_trimmed_iff (communitySchema "EXPORT" "10") "EXPORT" "10" t values
    (by decide)).mpr halone
  exact ⟨hall.1, by decide +kernel⟩

/-- The community to add is edited: the new one joins the old one, which the page
goes on showing. -/
theorem edited_community_joins :
    let t := exportRule "5" "65000:1"
    let values := { shownRule "EXPORT" "10" t with set.communityAdd := "65000:2" }
    let t' := applied (communitySchema "EXPORT" "10") "EXPORT" "10" t values
    t.WellFormed ∧ t'.store (routeMapRulePath "EXPORT" "10" ["set", "community", "add"]) =
        some ["65000:1", "65000:2"] ∧
      shownRule "EXPORT" "10" t' ≠ trimmedRule values := by
  decide +kernel

end VyosClient.RouteMapReadback
