import VyosClient.FormTables

/-!
Rules of a route map: what the pages read of one, and what the rule form queues.
The communities that a rule adds or puts in place take several values in VyOS; the
form shows the first one and sets what was typed beside it.
-/

namespace VyosClient.RouteMapForm

open PathStore ConfigTrees Configure PendingChanges FormDiff FormTables

def routeMapPath (name : String) (rest : Path) : Path := ["policy", "route-map", name] ++ rest

def routeMapRulePath (name number : String) (rest : Path) : Path :=
  routeMapPath name (["rule", number] ++ rest)

structure RouteMapMatch where
  asPath : Option String := none
  communityList : Option String := none
  communityExactMatch : Bool := false
  ipPrefixList : Option String := none
  ipv6PrefixList : Option String := none
  protocol : Option String := none
  metric : Option String := none
  localPreference : Option String := none
  tag : Option String := none
  deriving DecidableEq, Repr

structure RouteMapSet where
  metric : Option String := none
  localPreference : Option String := none
  asPathPrepend : Option String := none
  asPathExclude : Option String := none
  communityAdd : Option String := none
  communityReplace : Option String := none
  communityNone : Bool := false
  communityDelete : Option String := none
  origin : Option String := none
  tag : Option String := none
  weight : Option String := none
  deriving DecidableEq, Repr

/-- The parser takes any text for an action or an origin. -/
structure RouteMapRule where
  number : String
  action : Option String
  description : Option String
  call : Option String
  onMatchGoto : Option String
  onMatchNext : Bool
  «match» : RouteMapMatch
  set : RouteMapSet
  deriving DecidableEq, Repr

def parseRouteMapMatch (raw : Unknown) : RouteMapMatch :=
  let communityRoot := child raw "community"
  { asPath := asString (child raw "as-path")
    communityList := asString (child communityRoot "community-list")
    communityExactMatch := isFlagPresent communityRoot "exact-match"
    ipPrefixList := asString (child (child (child raw "ip") "address") "prefix-list")
    ipv6PrefixList := asString (child (child (child raw "ipv6") "address") "prefix-list")
    protocol := asString (child raw "protocol")
    metric := asString (child raw "metric")
    localPreference := asString (child raw "local-preference")
    tag := asString (child raw "tag") }

def parseRouteMapSet (raw : Unknown) : RouteMapSet :=
  let asPathRoot := child raw "as-path"
  let communityRoot := child raw "community"
  { metric := asString (child raw "metric")
    localPreference := asString (child raw "local-preference")
    asPathPrepend := asString (child asPathRoot "prepend")
    asPathExclude := asString (child asPathRoot "exclude")
    communityAdd := (asStringArray (child communityRoot "add"))[0]?
    communityReplace := (asStringArray (child communityRoot "replace"))[0]?
    communityNone := isFlagPresent communityRoot "none"
    communityDelete := asString (child communityRoot "delete")
    origin := asString (child raw "origin")
    tag := asString (child raw "tag")
    weight := asString (child raw "weight") }

def parseRouteMapRule (number : String) (raw : Unknown) : RouteMapRule :=
  let onMatchRoot := child raw "on-match"
  { number := number
    action := asString (child raw "action")
    description := asString (child raw "description")
    call := asString (child raw "call")
    onMatchGoto := asString (child onMatchRoot "goto")
    onMatchNext := isFlagPresent onMatchRoot "next"
    «match» := parseRouteMapMatch (child raw "match")
    set := parseRouteMapSet (child raw "set") }

structure RouteMapMatchFormValues where
  asPath : String := ""
  communityList : String := ""
  communityExactMatch : Bool := false
  ipPrefixList : String := ""
  ipv6PrefixList : String := ""
  protocol : String := ""
  metric : String := ""
  localPreference : String := ""
  tag : String := ""
  deriving DecidableEq, Repr

structure RouteMapSetFormValues where
  metric : String := ""
  localPreference : String := ""
  asPathPrepend : String := ""
  asPathExclude : String := ""
  communityAdd : String := ""
  communityReplace : String := ""
  communityNone : Bool := false
  communityDelete : String := ""
  origin : String := ""
  tag : String := ""
  weight : String := ""
  deriving DecidableEq, Repr

structure RouteMapRuleFormValues where
  action : String := ""
  description : String := ""
  call : String := ""
  onMatchGoto : String := ""
  onMatchNext : Bool := false
  «match» : RouteMapMatchFormValues := {}
  set : RouteMapSetFormValues := {}
  deriving DecidableEq, Repr

def blankRouteMapRuleFormValues : RouteMapRuleFormValues := {}

def matchToFormValues (m : RouteMapMatch) : RouteMapMatchFormValues where
  asPath := m.asPath.getD ""
  communityList := m.communityList.getD ""
  communityExactMatch := m.communityExactMatch
  ipPrefixList := m.ipPrefixList.getD ""
  ipv6PrefixList := m.ipv6PrefixList.getD ""
  protocol := m.protocol.getD ""
  metric := m.metric.getD ""
  localPreference := m.localPreference.getD ""
  tag := m.tag.getD ""

def setToFormValues (set : RouteMapSet) : RouteMapSetFormValues where
  metric := set.metric.getD ""
  localPreference := set.localPreference.getD ""
  asPathPrepend := set.asPathPrepend.getD ""
  asPathExclude := set.asPathExclude.getD ""
  communityAdd := set.communityAdd.getD ""
  communityReplace := set.communityReplace.getD ""
  communityNone := set.communityNone
  communityDelete := set.communityDelete.getD ""
  origin := set.origin.getD ""
  tag := set.tag.getD ""
  weight := set.weight.getD ""

def routeMapRuleToFormValues (rule : RouteMapRule) : RouteMapRuleFormValues where
  action := rule.action.getD ""
  description := rule.description.getD ""
  call := rule.call.getD ""
  onMatchGoto := rule.onMatchGoto.getD ""
  onMatchNext := rule.onMatchNext
  «match» := matchToFormValues rule.match
  set := setToFormValues rule.set

def scalarFields : List ((RouteMapRuleFormValues → String) × Path) :=
  [((·.action), ["action"]),
    ((·.description), ["description"]),
    ((·.call), ["call"]),
    ((·.onMatchGoto), ["on-match", "goto"]),
    ((·.match.asPath), ["match", "as-path"]),
    ((·.match.communityList), ["match", "community", "community-list"]),
    ((·.match.ipPrefixList), ["match", "ip", "address", "prefix-list"]),
    ((·.match.ipv6PrefixList), ["match", "ipv6", "address", "prefix-list"]),
    ((·.match.protocol), ["match", "protocol"]),
    ((·.match.metric), ["match", "metric"]),
    ((·.match.localPreference), ["match", "local-preference"]),
    ((·.match.tag), ["match", "tag"]),
    ((·.set.metric), ["set", "metric"]),
    ((·.set.localPreference), ["set", "local-preference"]),
    ((·.set.asPathPrepend), ["set", "as-path", "prepend"]),
    ((·.set.asPathExclude), ["set", "as-path", "exclude"]),
    ((·.set.communityAdd), ["set", "community", "add"]),
    ((·.set.communityReplace), ["set", "community", "replace"]),
    ((·.set.communityDelete), ["set", "community", "delete"]),
    ((·.set.origin), ["set", "origin"]),
    ((·.set.tag), ["set", "tag"]),
    ((·.set.weight), ["set", "weight"])]

def flagFields : List ((RouteMapRuleFormValues → Bool) × Path) :=
  [((·.onMatchNext), ["on-match", "next"]),
    ((·.match.communityExactMatch), ["match", "community", "exact-match"]),
    ((·.set.communityNone), ["set", "community", "none"])]

def fields : List (FormDiff.Field RouteMapRuleFormValues) :=
  scalarFields.map (fun f => .text f.1 f.2) ++ flagFields.map fun f => .flag f.1 f.2

/-- The form of a rule. -/
def routeMapRuleForm (mapName ruleNumber : String) : Form RouteMapRuleFormValues :=
  Form.below (routeMapRulePath mapName ruleNumber []) fields (by decide) (by decide)
    (by decide +kernel)

/-- `before` is the rule as last fetched, `none` when one is created. -/
def routeMapRuleFormToOps (mapName ruleNumber : String) (before : Option RouteMapRule)
    (values : RouteMapRuleFormValues) : List ConfigOp :=
  let beforeValues := match before with
    | some rule => routeMapRuleToFormValues rule
    | none => blankRouteMapRuleFormValues
  (routeMapRuleForm mapName ruleNumber).diff beforeValues values

end VyosClient.RouteMapForm
