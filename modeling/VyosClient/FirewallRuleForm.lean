import VyosClient.FirewallParse
import VyosClient.FormDiff

/-!
The rule form and the reordering of rules. VyOS evaluates rules by ascending
number and cannot move one, so a reorder deletes every rule whose number has
to change and replays its subtree under the new number.
-/

namespace VyosClient.FirewallRuleForm

open PathStore ConfigTrees Configure PendingChanges FormDiff FirewallParse

structure MatchFormValues where
  address : String
  port : String
  macAddress : String
  addressGroup : String
  networkGroup : String
  portGroup : String
  macGroup : String
  domainGroup : String
  deriving DecidableEq, Repr

/-- An action of `none` is the form's empty choice. -/
structure RuleFormValues where
  action : Option RuleAction
  jumpTarget : String
  protocol : String
  description : String
  disabled : Bool
  log : Bool
  source : MatchFormValues
  destination : MatchFormValues
  inboundInterface : String
  outboundInterface : String
  icmpTypeName : String
  deriving DecidableEq, Repr

def RuleFormValues.actionText (v : RuleFormValues) : String := (v.action.map RuleAction.text).getD ""

def blankMatch : MatchFormValues := ⟨"", "", "", "", "", "", "", ""⟩

def blankRuleFormValues : RuleFormValues where
  action := none
  jumpTarget := ""
  protocol := ""
  description := ""
  disabled := false
  log := false
  source := blankMatch
  destination := blankMatch
  inboundInterface := ""
  outboundInterface := ""
  icmpTypeName := ""

def matchToFormValues (m : FirewallMatch) : MatchFormValues where
  address := m.address.getD ""
  port := m.port.getD ""
  macAddress := m.macAddress.getD ""
  addressGroup := m.addressGroup.getD ""
  networkGroup := m.networkGroup.getD ""
  portGroup := m.portGroup.getD ""
  macGroup := m.macGroup.getD ""
  domainGroup := m.domainGroup.getD ""

def ruleToFormValues (rule : FirewallRule) : RuleFormValues where
  action := rule.action
  jumpTarget := rule.jumpTarget.getD ""
  protocol := rule.protocol.getD ""
  description := rule.description.getD ""
  disabled := rule.disabled
  log := rule.log
  source := matchToFormValues rule.source
  destination := matchToFormValues rule.destination
  inboundInterface := rule.inboundInterface.getD ""
  outboundInterface := rule.outboundInterface.getD ""
  icmpTypeName := rule.icmpTypeName.getD ""

/-- The text fields with their segments below the rule. There is none for the
destination's MAC address. -/
def scalarFields (family : FirewallFamily) : List ((RuleFormValues → String) × Path) :=
  [((·.actionText), ["action"]),
    ((·.jumpTarget), ["jump-target"]),
    ((·.protocol), ["protocol"]),
    ((·.description), ["description"]),
    ((·.source.address), ["source", "address"]),
    ((·.source.port), ["source", "port"]),
    ((·.source.macAddress), ["source", "mac-address"]),
    ((·.source.addressGroup), ["source", "group", "address-group"]),
    ((·.source.networkGroup), ["source", "group", "network-group"]),
    ((·.source.portGroup), ["source", "group", "port-group"]),
    ((·.source.macGroup), ["source", "group", "mac-group"]),
    ((·.source.domainGroup), ["source", "group", "domain-group"]),
    ((·.destination.address), ["destination", "address"]),
    ((·.destination.port), ["destination", "port"]),
    ((·.destination.addressGroup), ["destination", "group", "address-group"]),
    ((·.destination.networkGroup), ["destination", "group", "network-group"]),
    ((·.destination.portGroup), ["destination", "group", "port-group"]),
    ((·.destination.macGroup), ["destination", "group", "mac-group"]),
    ((·.destination.domainGroup), ["destination", "group", "domain-group"]),
    ((·.inboundInterface), ["inbound-interface", "name"]),
    ((·.outboundInterface), ["outbound-interface", "name"]),
    ((·.icmpTypeName), [icmpNodeName family, "type-name"])]

def flagFields : List ((RuleFormValues → Bool) × Path) :=
  [((·.disabled), ["disable"]), ((·.log), ["log"])]

/-- The fields of a rule, with the paths below `pre`. -/
def fieldsBelow (pre : Path) (family : FirewallFamily) : List (FormDiff.Field RuleFormValues) :=
  (scalarFields family).map (fun f => .text f.1 (pre ++ f.2)) ++
    flagFields.map fun f => .flag f.1 (pre ++ f.2)

/-- Where the fields of a rule are stored. -/
def segments (family : FirewallFamily) : List Path :=
  (scalarFields family).map Prod.snd ++ flagFields.map Prod.snd

theorem paths_fieldsBelow (pre : Path) (family : FirewallFamily) :
    (fieldsBelow pre family).map Field.path = (segments family).map (pre ++ ·) := by
  simp only [fieldsBelow, segments, List.map_append, List.map_map]
  rfl

theorem path_of_mem_fieldsBelow {pre : Path} {family : FirewallFamily}
    {f : FormDiff.Field RuleFormValues} (hf : f ∈ fieldsBelow pre family) :
    ∃ p ∈ segments family, f.path = pre ++ p := by
  have hmem := List.mem_map_of_mem (f := Field.path) hf
  rw [paths_fieldsBelow] at hmem
  obtain ⟨p, hp, hpath⟩ := List.mem_map.mp hmem
  exact ⟨p, hp, hpath.symm⟩

theorem segments_apart (family : FirewallFamily) : (segments family).Pairwise Apart := by
  cases family <;> decide

theorem segments_ne_nil (family : FirewallFamily) : ∀ p ∈ segments family, p ≠ [] := by
  cases family <;> decide

theorem segments_joined_nodup (family : FirewallFamily) :
    ((segments family).map joined).Nodup := by
  cases family <;> decide

/-- The rule form, for the rule stored at `pre`. -/
def ruleFormBelow (pre : Path) (family : FirewallFamily) : Form RuleFormValues where
  fields := fieldsBelow pre family
  apart := by
    have hpaths : ((fieldsBelow pre family).map Field.path).Pairwise Apart := by
      rw [paths_fieldsBelow, List.pairwise_map]
      exact (segments_apart family).imp (apart_append_left pre).mpr
    exact List.pairwise_map.mp hpaths
  distinct := by
    have htexts : ((fieldsBelow pre family).map Field.path).map joined =
        (segments family).map fun p => joined (pre ++ p) := by
      rw [paths_fieldsBelow, List.map_map]
      rfl
    have hnodup : ((segments family).map fun p => joined (pre ++ p)).Nodup := by
      have hinj := List.inj_on_of_nodup_map (segments_joined_nodup family)
      refine List.Nodup.map_on (fun p hp q hq hpq => hinj hp hq ?_)
        (segments_joined_nodup family).of_map
      exact (joined_append_inj pre (segments_ne_nil family p hp)
        (segments_ne_nil family q hq)).mp hpq
    rwa [← htexts, List.map_map] at hnodup
  named := by
    intro f hf
    obtain ⟨p, hp, hpath⟩ := path_of_mem_fieldsBelow hf
    rw [hpath]
    simp [segments_ne_nil family p hp]

def ruleForm (ref : RulesetRef) (ruleNumber : String) : Form RuleFormValues :=
  ruleFormBelow (rulePath ref ruleNumber []) ref.family

/-- `before` is the rule as last fetched, `none` when a rule is created. -/
def ruleFormToOps (ref : RulesetRef) (ruleNumber : String) (before : Option FirewallRule)
    (values : RuleFormValues) : List ConfigOp :=
  let beforeValues := match before with
    | some rule => ruleToFormValues rule
    | none => blankRuleFormValues
  (ruleForm ref ruleNumber).diff beforeValues values

/-- A number strictly between two neighbours, if there is one. -/
def idealNumberBetween (prev next : Option ℕ) : Option ℕ :=
  match prev, next with
  | none, none => none
  | none, some n => if n ≤ 1 then none else some (n / 2)
  | some p, none => some (p + 10)
  | some p, some n => if n - p ≤ 1 then none else some (p + (n - p) / 2)

/-- The position JavaScript's `splice` starts at. -/
def spliceIndex (length : ℕ) (i : ℤ) : ℕ :=
  if i < 0 then (length + i).toNat else min i.toNat length

/-- One element is spliced out and in again. Where there is none, `undefined`
goes in. -/
def moveItem {α : Type*} (arr : List α) (fromIndex toIndex : ℤ) : List (Option α) :=
  let start := spliceIndex arr.length fromIndex
  let copy := (arr.map some).eraseIdx start
  copy.insertIdx (spliceIndex copy.length toIndex) arr[start]?

/-- Every leaf of a subtree as one `set`. -/
def subtreeToSetOps (path : Path) : ConfigTree → List ConfigOp
  | .multi vs => vs.map fun v => ⟨.set, path, some v⟩
  | .leaf v => [⟨.set, path, some v⟩]
  | .node [] => [⟨.set, path, none⟩]
  | .node (e :: es) => entriesToSetOps path (e :: es)
where
  entriesToSetOps (path : Path) : List (String × ConfigTree) → List ConfigOp
    | [] => []
    | (k, c) :: es => subtreeToSetOps (path ++ [k]) c ++ entriesToSetOps path es

/-- The rules whose number a move changes, with their new numbers: the moved
one if there is a number between its new neighbours, else all that are not yet
at their multiple of ten. -/
def reorderChanges (rules : List FirewallRule) (fromIndex toIndex : ℤ) :
    List (FirewallRule × String) :=
  if fromIndex = toIndex ∨ fromIndex < 0 ∨ fromIndex ≥ rules.length ∨ toIndex < 0 ∨
      toIndex ≥ rules.length then []
  else
    -- the guard leaves nothing undefined
    let reordered := (moveItem rules fromIndex toIndex).filterMap id
    let i := toIndex.toNat
    let prevNumber := if i = 0 then none else reordered[i - 1]?.bind fun r => number r.number
    let nextNumber := reordered[i + 1]?.bind fun r => number r.number
    match idealNumberBetween prevNumber nextNumber with
    | some n => reordered[i]?.toList.map fun r => (r, toString n)
    | none =>
        (reordered.zipIdx.map fun (r, i) => (r, toString ((i + 1) * 10))).filter
          fun c => c.1.number ≠ c.2

/-- All deletions come before all sets. -/
def changeOps (ref : RulesetRef) (changes : List (FirewallRule × String)) : List ConfigOp :=
  (changes.map fun c => ⟨.delete, rulePath ref c.1.number [], none⟩) ++
    changes.flatMap fun c =>
      match c.1.raw with
      | some raw => subtreeToSetOps (rulePath ref c.2 []) raw
      | none => ruleFormToOps ref c.2 none (ruleToFormValues c.1)

def reorderRuleOps (ref : RulesetRef) (rules : List FirewallRule) (fromIndex toIndex : ℤ) :
    List ConfigOp :=
  changeOps ref (reorderChanges rules fromIndex toIndex)

example : (moveItem [1, 2, 3] 0 2, moveItem [1, 2, 3] (-1) 0, moveItem [1, 2] 0 5) =
    ([some 2, some 3, some 1], [some 3, some 1, some 2], [some 2, some 1]) := by decide

end VyosClient.FirewallRuleForm
