import Mathlib.Data.List.Sort
import VyosClient.ConfigTrees

/-!
Firewall rulesets as the pages read them from the configuration tree. A rule
keeps the subtree it was parsed from, and the rules of a ruleset are sorted by
the number their tag stands for.
-/

namespace VyosClient.FirewallParse

open ConfigTrees

inductive FirewallFamily
  | ipv4
  | ipv6
  deriving DecidableEq, Repr

def FirewallFamily.text : FirewallFamily → String
  | ipv4 => "ipv4"
  | ipv6 => "ipv6"

def firewallFamilies : List FirewallFamily := [.ipv4, .ipv6]

def baseChains : List String := ["forward", "input", "output"]

inductive RulesetKind
  | base
  | custom
  deriving DecidableEq, Repr

structure RulesetRef where
  id : String
  kind : RulesetKind
  family : FirewallFamily
  deriving DecidableEq, Repr

def forwardChain : RulesetRef := ⟨"forward", .base, .ipv4⟩

/-- Everything up to, but not including, a ruleset's own fields. -/
def rulesetPath (ref : RulesetRef) (rest : Path) : Path :=
  match ref.kind with
  | .base => ["firewall", ref.family.text, ref.id, "filter"] ++ rest
  | .custom => ["firewall", ref.family.text, "name", ref.id] ++ rest

def rulePath (ref : RulesetRef) (ruleNumber : String) (rest : Path) : Path :=
  rulesetPath ref ("rule" :: ruleNumber :: rest)

inductive RuleAction
  | accept
  | drop
  | reject
  | continue
  | jump
  | queue
  | return
  | synproxy
  deriving DecidableEq, Repr

def RuleAction.text : RuleAction → String
  | .accept => "accept"
  | .drop => "drop"
  | .reject => "reject"
  | .continue => "continue"
  | .jump => "jump"
  | .queue => "queue"
  | .return => "return"
  | .synproxy => "synproxy"

def ruleActions : List RuleAction :=
  [.accept, .drop, .reject, .continue, .jump, .queue, .return, .synproxy]

structure FirewallMatch where
  address : Option String
  port : Option String
  macAddress : Option String
  addressGroup : Option String
  networkGroup : Option String
  portGroup : Option String
  macGroup : Option String
  domainGroup : Option String
  deriving DecidableEq, Repr

structure FirewallRule where
  number : String
  action : Option RuleAction
  jumpTarget : Option String
  protocol : Option String
  description : Option String
  disabled : Bool
  log : Bool
  source : FirewallMatch
  destination : FirewallMatch
  inboundInterface : Option String
  outboundInterface : Option String
  icmpTypeName : Option String
  raw : Unknown
  deriving Repr

structure FirewallRuleset where
  id : String
  kind : RulesetKind
  family : FirewallFamily
  defaultAction : Option String
  description : Option String
  rules : List FirewallRule
  deriving Repr

def FirewallRuleset.ref (rs : FirewallRuleset) : RulesetRef := ⟨rs.id, rs.kind, rs.family⟩

/-- `Number(s)` of a decimal numeral. Anything else counts as `NaN`. -/
def number (s : String) : Option ℕ :=
  if s.toList ≠ [] ∧ s.toList.all Char.isDigit then some (Nat.ofDigitChars 10 s.toList 0) else none

/-- The comparison `Number(a.number) - Number(b.number)`, which finds nothing
out of order about `NaN`. -/
def numberLe (a b : FirewallRule) : Prop :=
  match number a.number, number b.number with
  | some m, some n => m ≤ n
  | _, _ => True

instance : DecidableRel numberLe := fun a b =>
  match h : number a.number, h' : number b.number with
  | some m, some n => decidable_of_iff (m ≤ n) (by simp [numberLe, h, h'])
  | none, _ => isTrue (by simp [numberLe, h])
  | some _, none => isTrue (by simp [numberLe, h, h'])

def parseMatch (raw : Unknown) : FirewallMatch :=
  let groupRoot := child raw "group"
  { address := asString (child raw "address")
    port := asString (child raw "port")
    macAddress := asString (child raw "mac-address")
    addressGroup := asString (child groupRoot "address-group")
    networkGroup := asString (child groupRoot "network-group")
    portGroup := asString (child groupRoot "port-group")
    macGroup := asString (child groupRoot "mac-group")
    domainGroup := asString (child groupRoot "domain-group") }

def icmpNodeName : FirewallFamily → String
  | .ipv6 => "icmpv6"
  | .ipv4 => "icmp"

def parseRule (family : FirewallFamily) (number : String) (raw : Unknown) : FirewallRule :=
  let actionRaw := asString (child raw "action")
  { number := number
    action := ruleActions.find? fun a => some a.text = actionRaw
    jumpTarget := asString (child raw "jump-target")
    protocol := asString (child raw "protocol")
    description := asString (child raw "description")
    disabled := isFlagPresent raw "disable"
    log := isFlagPresent raw "log"
    source := parseMatch (child raw "source")
    destination := parseMatch (child raw "destination")
    inboundInterface := asString (child (child raw "inbound-interface") "name")
    outboundInterface := asString (child (child raw "outbound-interface") "name")
    icmpTypeName := asString (child (child raw (icmpNodeName family)) "type-name")
    raw := raw }

def parseRules (family : FirewallFamily) (raw : Unknown) : List FirewallRule :=
  match child raw "rule" with
  | some (.node es) =>
      (es.map fun e => parseRule family e.1 (some e.2)).insertionSort numberLe
  | _ => []

/-- The base chains of a family, then its custom chains. -/
def parseFamily (firewall : Unknown) (family : FirewallFamily) : List FirewallRuleset :=
  let familyRoot := child firewall family.text
  let base := baseChains.filterMap fun chain =>
    let filterRoot := child (child familyRoot chain) "filter"
    if isRecord filterRoot then
      some
        { id := chain
          kind := .base
          family := family
          defaultAction := asString (child filterRoot "default-action")
          description := none
          rules := parseRules family filterRoot }
    else none
  let custom := match child familyRoot "name" with
    | some (.node es) => es.map fun e =>
        { id := e.1
          kind := .custom
          family := family
          defaultAction := asString (child (some e.2) "default-action")
          description := asString (child (some e.2) "description")
          rules := parseRules family (some e.2) }
    | _ => []
  base ++ custom

def parseRulesets (firewall : Unknown) : List FirewallRuleset :=
  firewallFamilies.flatMap (parseFamily firewall)

theorem rulesetPath_append (ref : RulesetRef) (p q : Path) :
    rulesetPath ref (p ++ q) = rulesetPath ref p ++ q := by
  unfold rulesetPath
  cases ref.kind <;> simp

theorem rulePath_append (ref : RulesetRef) (ruleNumber : String) (p q : Path) :
    rulePath ref ruleNumber (p ++ q) = rulePath ref ruleNumber p ++ q :=
  rulesetPath_append ref ("rule" :: ruleNumber :: p) q

theorem rulePath_eq (ref : RulesetRef) (ruleNumber : String) (rest : Path) :
    rulePath ref ruleNumber rest = rulesetPath ref ["rule"] ++ ruleNumber :: rest :=
  rulesetPath_append ref ["rule"] (ruleNumber :: rest)

theorem rulePath_ne_nil (ref : RulesetRef) (ruleNumber : String) (rest : Path) :
    rulePath ref ruleNumber rest ≠ [] := by
  rw [rulePath_eq]
  simp

theorem number_toString (n : ℕ) : number (toString n) = some n := by
  have hlist : (toString n).toList = Nat.toDigits 10 n := by
    rw [Nat.toString_eq_repr, Nat.toList_repr]
  have hdigits : (Nat.toDigits 10 n).all Char.isDigit = true := by
    rw [List.all_eq_true]
    intro c hc
    exact Nat.isDigit_of_mem_toDigits (by omega) (by omega) hc
  unfold number
  rw [hlist, if_pos ⟨Nat.toDigits_ne_nil, hdigits⟩, Nat.ofDigitChars_ten_toDigits]

section Rules

variable {family : FirewallFamily}

@[simp] theorem number_parseRule (n : String) (raw : Unknown) :
    (parseRule family n raw).number = n := rfl

@[simp] theorem raw_parseRule (n : String) (raw : Unknown) :
    (parseRule family n raw).raw = raw := rfl

/-- The rules are the entries of the `rule` node, whatever their order. -/
theorem parseRules_perm (family : FirewallFamily) {raw : Unknown}
    {es : List (String × ConfigTree)} (h : child raw "rule" = some (.node es)) :
    (parseRules family raw).Perm (es.map fun e => parseRule family e.1 (some e.2)) := by
  simp only [parseRules, h]
  exact List.perm_insertionSort _ _

end Rules

/-- Every parsed ruleset holds the rules found under its own path. -/
theorem rules_of_mem_parseRulesets {t : ConfigTree} {rs : FirewallRuleset}
    (hkeys : ∀ p es, t.get p = some (.node es) → (es.map Prod.fst).Nodup)
    (hrs : rs ∈ parseRulesets (t.get ["firewall"])) :
    rs.rules = parseRules rs.family (t.get (rulesetPath rs.ref [])) := by
  obtain ⟨family, _, hrs⟩ := List.mem_flatMap.mp hrs
  have hfamily : child (t.get ["firewall"]) family.text = t.get ["firewall", family.text] :=
    t.child_get _ _
  rcases List.mem_append.mp hrs with hbase | hcustom
  · obtain ⟨chain, _, hchain⟩ := List.mem_filterMap.mp hbase
    simp only [Option.ite_none_right_eq_some, Option.some.injEq] at hchain
    obtain ⟨_, rfl⟩ := hchain
    rw [hfamily, t.child_get, t.child_get]
    rfl
  · have hnamed : child (child (t.get ["firewall"]) family.text) "name" =
        t.get ["firewall", family.text, "name"] := by
      rw [hfamily, t.child_get]
      rfl
    rw [hnamed] at hcustom
    cases hname : t.get ["firewall", family.text, "name"] with
    | none => simp [hname] at hcustom
    | some c =>
      cases c with
      | leaf v => simp [hname] at hcustom
      | multi vs => simp [hname] at hcustom
      | node es =>
        simp only [hname, List.mem_map] at hcustom
        obtain ⟨e, he, rfl⟩ := hcustom
        have hlookup := lookup_eq_some_of_mem (hkeys _ es hname) he
        have hget : t.get (["firewall", family.text, "name"] ++ [e.1]) = some e.2 := by
          rw [← t.child_get, hname]
          exact hlookup
        have hpath : rulesetPath ⟨e.1, .custom, family⟩ [] =
            ["firewall", family.text, "name"] ++ [e.1] := rfl
        simp only [FirewallRuleset.ref, hpath, hget]

end VyosClient.FirewallParse
