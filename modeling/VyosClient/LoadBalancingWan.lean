import VyosClient.AbsentLeaves

/-!
Rules of the WAN load balancing: what the page reads of one, and what its form
queues. The limit of a rule is one node, replaced as a whole when any of its
fields changes.
-/

namespace VyosClient.LoadBalancingWan

open ConfigTrees ConfigTree Configure FormDiff AbsentLeaves

def wanPath (rest : Path) : Path := "load-balancing" :: "wan" :: rest

def wanRulePath (ruleId : String) (rest : Path) : Path := wanPath ["rule"] ++ ruleId :: rest

structure WANMatch where
  address : Option String := none
  port : Option String := none
  addressGroup : Option String := none
  networkGroup : Option String := none
  portGroup : Option String := none
  domainGroup : Option String := none
  deriving DecidableEq, Repr

structure WANRuleLimit (N : Type) where
  rate : N
  period : String
  burst : N
  threshold : String

structure WANRule (N : Type) where
  id : String
  description : Option String
  source : WANMatch
  destination : WANMatch
  exclude : Bool
  failover : Bool
  inboundInterface : Option String
  limit : Option (WANRuleLimit N)
  perPacketBalancing : Bool
  protocol : String

def parseWANMatch (raw : Unknown) : WANMatch :=
  let groupRoot := child raw "group"
  { address := asString (child raw "address")
    port := asString (child raw "port")
    addressGroup := asString (child groupRoot "address-group")
    networkGroup := asString (child groupRoot "network-group")
    portGroup := asString (child groupRoot "port-group")
    domainGroup := asString (child groupRoot "domain-group") }

section Parse

variable {N : Type} [JsNumber N]

def parseWANRuleLimit (raw : Unknown) : Option (WANRuleLimit N) :=
  if isRecord raw then
    some
      { rate := (numberOrUndefined (child raw "rate")).getD (JsNumber.nat 5)
        period := (asString (child raw "period")).getD "second"
        burst := (numberOrUndefined (child raw "burst")).getD (JsNumber.nat 5)
        threshold := (asString (child raw "threshold")).getD "below" }
  else none

def parseWANRule (id : String) (raw : Unknown) : WANRule N where
  id := id
  description := asString (child raw "description")
  source := parseWANMatch (child raw "source")
  destination := parseWANMatch (child raw "destination")
  exclude := isFlagPresent raw "exclude"
  failover := isFlagPresent raw "failover"
  inboundInterface := asString (child raw "inbound-interface")
  limit := parseWANRuleLimit (child raw "limit")
  perPacketBalancing := isFlagPresent raw "per-packet-balancing"
  protocol := (asString (child raw "protocol")).getD "all"

end Parse

structure WANRuleFormValues where
  description : String := ""
  source : WANMatch := {}
  destination : WANMatch := {}
  exclude : Bool := false
  failover : Bool := false
  inboundInterface : String := ""
  perPacketBalancing : Bool := false
  protocol : String := "all"
  limitRate : String := ""
  limitPeriod : String := "second"
  limitBurst : String := ""
  limitThreshold : String := "below"
  deriving DecidableEq, Repr

def blankWANRuleFormValues : WANRuleFormValues := {}

def flagFields : List ((WANRuleFormValues → Bool) × Path) :=
  [((·.exclude), ["exclude"]),
    ((·.failover), ["failover"]),
    ((·.perPacketBalancing), ["per-packet-balancing"])]

def scalarFields : List ((WANRuleFormValues → String) × Path) :=
  [((·.description), ["description"]),
    ((·.inboundInterface), ["inbound-interface"]),
    ((·.protocol), ["protocol"])]

def matchFields : List ((WANMatch → Option String) × Path) :=
  [((·.address), ["address"]),
    ((·.port), ["port"]),
    ((·.addressGroup), ["group", "address-group"]),
    ((·.networkGroup), ["group", "network-group"]),
    ((·.portGroup), ["group", "port-group"]),
    ((·.domainGroup), ["group", "domain-group"])]

/-- The fields of one side, with the paths below the rule. -/
def sideFields (side : WANRuleFormValues → WANMatch) (key : String) :
    List ((WANRuleFormValues → String) × Path) :=
  matchFields.map fun f => (fun values => (f.1 (side values)).getD "", key :: f.2)

/-- All text fields outside the limit. -/
def textFields : List ((WANRuleFormValues → String) × Path) :=
  scalarFields ++ sideFields (·.source) "source" ++ sideFields (·.destination) "destination"

/-- The limit is replaced as a whole: deleted first, so that a cleared field of
it falls back to its default. -/
def limitOps (base : Path) (hadLimit : Bool) (beforeValues values : WANRuleFormValues) :
    List ConfigOp :=
  let limitFields : List (String × String) :=
    [("rate", trim values.limitRate), ("period", values.limitPeriod),
      ("burst", trim values.limitBurst), ("threshold", values.limitThreshold)]
  let hasLimit := trim values.limitRate ≠ "" || trim values.limitBurst ≠ ""
  let limitChanged := beforeValues.limitRate ≠ values.limitRate ||
    beforeValues.limitPeriod ≠ values.limitPeriod ||
    beforeValues.limitBurst ≠ values.limitBurst ||
    beforeValues.limitThreshold ≠ values.limitThreshold
  if hasLimit != hadLimit || limitChanged then
    let limitPath := base ++ ["limit"]
    let removed := if hadLimit then [⟨.delete, limitPath, none⟩] else []
    if !hasLimit then removed
    else removed ++ [⟨.set, limitPath, none⟩] ++
      (limitFields.filter fun f => f.2 ≠ "").map fun f => ⟨.set, limitPath ++ [f.1], some f.2⟩
  else []

section Form

variable {N : Type} [JsNumber N]

def wanRuleToFormValues (rule : WANRule N) : WANRuleFormValues where
  description := rule.description.getD ""
  source := rule.source
  destination := rule.destination
  exclude := rule.exclude
  failover := rule.failover
  inboundInterface := rule.inboundInterface.getD ""
  perPacketBalancing := rule.perPacketBalancing
  protocol := rule.protocol
  limitRate := (rule.limit.map fun limit => JsNumber.text limit.rate).getD ""
  limitPeriod := (rule.limit.map WANRuleLimit.period).getD "second"
  limitBurst := (rule.limit.map fun limit => JsNumber.text limit.burst).getD ""
  limitThreshold := (rule.limit.map WANRuleLimit.threshold).getD "below"

/-- `before` is the rule as last fetched, `none` when one is created. -/
def wanRuleFormToOps (ruleId : String) (before : Option (WANRule N))
    (values : WANRuleFormValues) : List ConfigOp :=
  let base := wanRulePath ruleId []
  let beforeValues := match before with
    | some rule => wanRuleToFormValues rule
    | none => blankWANRuleFormValues
  let hadLimit := (before.bind WANRule.limit).isSome
  (if before.isNone then [⟨.set, base, none⟩] else []) ++
    (flagFields.flatMap fun f =>
      (Field.flag f.1 (base ++ f.2)).diff beforeValues values) ++
    (textFields.flatMap fun f =>
      (Field.text f.1 (base ++ f.2)).diff beforeValues values) ++
    limitOps base hadLimit beforeValues values

end Form

/-- What the form shows for an absent leaf of a rule. -/
def ruleShown (leaf : Path) : String := if leaf = ["protocol"] then "all" else ""

section Deletes

variable {N : Type} [JsNumber N]

/-- The limit is deleted only where there is one. -/
theorem deletesExist_limitOps {t : ConfigTree} {base : Path} {hadLimit : Bool}
    (hread : hadLimit = true → (t.get (base ++ ["limit"])).isSome)
    (beforeValues values : WANRuleFormValues) :
    DeletesExist t (limitOps base hadLimit beforeValues values) := by
  have hremoved : DeletesExist t
      (if hadLimit then [⟨.delete, base ++ ["limit"], none⟩] else []) := by
    split_ifs with hhad
    · intro o ho _
      rw [List.mem_singleton.mp ho]
      exact hread hhad
    · exact fun o ho => absurd ho List.not_mem_nil
  unfold limitOps
  simp only
  generalize (if hadLimit then ([⟨.delete, base ++ ["limit"], none⟩] : List ConfigOp) else []) =
    removed at hremoved ⊢
  split_ifs with hchanged hnone
  · exact hremoved
  · refine deletesExist_append.mpr ⟨deletesExist_append.mpr ⟨hremoved, ?_⟩, ?_⟩
    · refine deletesExist_of_set fun o ho => ?_
      rw [List.mem_singleton.mp ho]
    · refine deletesExist_of_set fun o ho => ?_
      obtain ⟨f, _, rfl⟩ := List.mem_map.mp ho
      rfl
  · exact fun o ho => absurd ho List.not_mem_nil

theorem match_of_none (t : ConfigTree) (base : Path) (key : String) : ∀ f ∈ matchFields,
    t.get (base ++ key :: f.2) = none → (f.1 (parseWANMatch (t.get (base ++ [key])))).getD "" = "" := by
  simp only [matchFields, List.forall_mem_cons, parseWANMatch, child_get, List.append_assoc,
    List.cons_append, List.nil_append]
  exact ⟨getD_asString_of_none, getD_asString_of_none, getD_asString_of_none,
    getD_asString_of_none, getD_asString_of_none, getD_asString_of_none,
    fun _ h => absurd h List.not_mem_nil⟩

theorem shown_of_none (t : ConfigTree) (ruleId : String) :
    ∀ f ∈ textFields, t.get (wanRulePath ruleId [] ++ f.2) = none →
      f.1 (wanRuleToFormValues (parseWANRule ruleId (t.get (wanRulePath ruleId [])) :
        WANRule N)) = ruleShown f.2 := by
  intro f hf hnone
  rcases List.mem_append.mp hf with hf | hf
  · rcases List.mem_append.mp hf with hf | hf
    · simp only [scalarFields, List.mem_cons, List.not_mem_nil, or_false] at hf
      rcases hf with rfl | rfl | rfl
      · have hread := getD_asString_of_none hnone
        rwa [← child_get] at hread
      · have hread := getD_asString_of_none hnone
        rwa [← child_get] at hread
      · show (asString (child (t.get (wanRulePath ruleId [])) "protocol")).getD "all" = "all"
        rw [child_get, hnone]
        rfl
    · obtain ⟨g, hg, rfl⟩ := List.mem_map.mp hf
      have hmatch := match_of_none t (wanRulePath ruleId []) "source" g hg hnone
      have hshown : ruleShown ("source" :: g.2) = "" := if_neg (by simp)
      rwa [← child_get, ← hshown] at hmatch
  · obtain ⟨g, hg, rfl⟩ := List.mem_map.mp hf
    have hmatch := match_of_none t (wanRulePath ruleId []) "destination" g hg hnone
    have hshown : ruleShown ("destination" :: g.2) = "" := if_neg (by simp)
    rwa [← child_get, ← hshown] at hmatch

/-- The rule form deletes only what was fetched when no field of an absent leaf
is left blank, unless it showed nothing and still does. -/
theorem deletesExist_wanRuleFormToOps_iff (t : ConfigTree) (ruleId : String)
    (values : WANRuleFormValues) :
    DeletesExist t (wanRuleFormToOps ruleId
        (some (parseWANRule ruleId (t.get (wanRulePath ruleId [])) : WANRule N)) values) ↔
      KeepsAbsent t (wanRulePath ruleId []) textFields ruleShown values := by
  simp only [wanRuleFormToOps, Option.isNone_some, Bool.false_eq_true, ↓reduceIte,
    List.nil_append]
  rw [deletesExist_append, deletesExist_append, deletesExist_texts_iff, and_iff_left,
    and_iff_right]
  · refine deletesExist_flags ?_
    simp only [flagFields, List.forall_mem_cons, wanRuleToFormValues, parseWANRule,
      isFlagPresent_eq, child_get]
    simp
  · refine deletesExist_limitOps (fun hlimit => ?_) _ _
    simp only [Option.bind_some, parseWANRule, parseWANRuleLimit, child_get] at hlimit
    split_ifs at hlimit with hrecord
    · cases hget : t.get (wanRulePath ruleId [] ++ ["limit"]) with
      | none => rw [hget] at hrecord; exact absurd hrecord (by decide)
      | some c => rfl
    · exact absurd hlimit Bool.false_ne_true
  · exact shown_of_none t ruleId

end Deletes

end VyosClient.LoadBalancingWan
