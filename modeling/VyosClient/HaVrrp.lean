import VyosClient.AbsentLeaves

/-!
VRRP groups: what the page reads of one, and what its form queues. Counters
and intervals that VyOS leaves out are shown with its defaults, those of the
health check only when the group has one.
-/

namespace VyosClient.HaVrrp

open ConfigTrees ConfigTree Configure FormDiff AbsentLeaves

def haPath (rest : Path) : Path := "high-availability" :: rest

def vrrpPath (rest : Path) : Path := haPath ("vrrp" :: rest)

def vrrpGroupPath (name : String) (rest : Path) : Path := vrrpPath ["group"] ++ name :: rest

structure VRRPHealthCheck (N : Type) where
  failureCount : N
  interval : N
  ping : Option String
  script : Option String
  timeout : Option N

structure VRRPTransitionScripts where
  master : Option String
  backup : Option String
  fault : Option String
  stop : Option String

structure VRRPGroup (N : Type) where
  name : String
  interface : Option String
  vrid : Option String
  priority : N
  advertiseInterval : N
  description : Option String
  disabled : Bool
  noPreempt : Bool
  preemptDelay : N
  rfc3768Compatibility : Bool
  helloSourceAddress : Option String
  hasAuthenticationPassword : Bool
  authenticationType : Option String
  healthCheck : Option (VRRPHealthCheck N)
  excludeVrrpInterface : Bool
  transitionScripts : VRRPTransitionScripts

section Parse

variable {N : Type} [JsNumber N]

def parseVRRPHealthCheck (raw : Unknown) : Option (VRRPHealthCheck N) :=
  if isRecord raw then
    some
      { failureCount := (numberOrUndefined (child raw "failure-count")).getD (JsNumber.nat 3)
        interval := (numberOrUndefined (child raw "interval")).getD (JsNumber.nat 60)
        ping := asString (child raw "ping")
        script := asString (child raw "script")
        timeout := numberOrUndefined (child raw "timeout") }
  else none

def parseTransitionScripts (raw : Unknown) : VRRPTransitionScripts where
  master := asString (child raw "master")
  backup := asString (child raw "backup")
  fault := asString (child raw "fault")
  stop := asString (child raw "stop")

def parseVRRPGroup (name : String) (raw : Unknown) : VRRPGroup N :=
  let auth := child raw "authentication"
  let track := child raw "track"
  { name := name
    interface := asString (child raw "interface")
    vrid := asString (child raw "vrid")
    priority := (numberOrUndefined (child raw "priority")).getD (JsNumber.nat 100)
    advertiseInterval := (numberOrUndefined (child raw "advertise-interval")).getD (JsNumber.nat 1)
    description := asString (child raw "description")
    disabled := isFlagPresent raw "disable"
    noPreempt := isFlagPresent raw "no-preempt"
    preemptDelay := (numberOrUndefined (child raw "preempt-delay")).getD (JsNumber.nat 0)
    rfc3768Compatibility := isFlagPresent raw "rfc3768-compatibility"
    helloSourceAddress := asString (child raw "hello-source-address")
    hasAuthenticationPassword := (child auth "password").isSome
    authenticationType := asString (child auth "type")
    healthCheck := parseVRRPHealthCheck (child raw "health-check")
    excludeVrrpInterface := isFlagPresent track "exclude-vrrp-interface"
    transitionScripts := parseTransitionScripts (child raw "transition-script") }

end Parse

/-- The password is write-only: blank leaves it unchanged. -/
structure VRRPGroupFormValues where
  interface : String := ""
  vrid : String := ""
  priority : String := ""
  advertiseInterval : String := ""
  description : String := ""
  disabled : Bool := false
  noPreempt : Bool := false
  preemptDelay : String := ""
  rfc3768Compatibility : Bool := false
  helloSourceAddress : String := ""
  authenticationPassword : String := ""
  authenticationType : String := ""
  excludeVrrpInterface : Bool := false
  healthCheckPing : String := ""
  healthCheckScript : String := ""
  healthCheckFailureCount : String := ""
  healthCheckInterval : String := ""
  healthCheckTimeout : String := ""
  transitionMaster : String := ""
  transitionBackup : String := ""
  transitionFault : String := ""
  transitionStop : String := ""
  deriving DecidableEq, Repr

def blankVRRPGroupFormValues : VRRPGroupFormValues := {}

def groupFlagFields : List ((VRRPGroupFormValues → Bool) × Path) :=
  [((·.disabled), ["disable"]),
    ((·.noPreempt), ["no-preempt"]),
    ((·.rfc3768Compatibility), ["rfc3768-compatibility"]),
    ((·.excludeVrrpInterface), ["track", "exclude-vrrp-interface"])]

def groupScalarFields : List ((VRRPGroupFormValues → String) × Path) :=
  [((·.interface), ["interface"]),
    ((·.vrid), ["vrid"]),
    ((·.priority), ["priority"]),
    ((·.advertiseInterval), ["advertise-interval"]),
    ((·.description), ["description"]),
    ((·.preemptDelay), ["preempt-delay"]),
    ((·.helloSourceAddress), ["hello-source-address"]),
    ((·.healthCheckPing), ["health-check", "ping"]),
    ((·.healthCheckScript), ["health-check", "script"]),
    ((·.healthCheckFailureCount), ["health-check", "failure-count"]),
    ((·.healthCheckInterval), ["health-check", "interval"]),
    ((·.healthCheckTimeout), ["health-check", "timeout"]),
    ((·.transitionMaster), ["transition-script", "master"]),
    ((·.transitionBackup), ["transition-script", "backup"]),
    ((·.transitionFault), ["transition-script", "fault"]),
    ((·.transitionStop), ["transition-script", "stop"])]

section Form

variable {N : Type} [JsNumber N]

def vrrpGroupToFormValues (group : VRRPGroup N) : VRRPGroupFormValues where
  interface := group.interface.getD ""
  vrid := group.vrid.getD ""
  priority := JsNumber.text group.priority
  advertiseInterval := JsNumber.text group.advertiseInterval
  description := group.description.getD ""
  disabled := group.disabled
  noPreempt := group.noPreempt
  preemptDelay := JsNumber.text group.preemptDelay
  rfc3768Compatibility := group.rfc3768Compatibility
  helloSourceAddress := group.helloSourceAddress.getD ""
  authenticationPassword := ""
  authenticationType := group.authenticationType.getD ""
  excludeVrrpInterface := group.excludeVrrpInterface
  healthCheckPing := (group.healthCheck.bind VRRPHealthCheck.ping).getD ""
  healthCheckScript := (group.healthCheck.bind VRRPHealthCheck.script).getD ""
  healthCheckFailureCount :=
    (group.healthCheck.map fun check => JsNumber.text check.failureCount).getD ""
  healthCheckInterval := (group.healthCheck.map fun check => JsNumber.text check.interval).getD ""
  healthCheckTimeout :=
    ((group.healthCheck.bind VRRPHealthCheck.timeout).map JsNumber.text).getD ""
  transitionMaster := group.transitionScripts.master.getD ""
  transitionBackup := group.transitionScripts.backup.getD ""
  transitionFault := group.transitionScripts.fault.getD ""
  transitionStop := group.transitionScripts.stop.getD ""

/-- The password and the type are set together, and deleted together. -/
def authenticationOps (base : Path) (hadPassword : Bool) (beforeType : String)
    (values : VRRPGroupFormValues) : List ConfigOp :=
  let authPath := base ++ ["authentication"]
  let hadAuth := hadPassword && beforeType ≠ ""
  let typedPassword := trim values.authenticationPassword
  let newType := trim values.authenticationType
  if newType = "" then
    if hadAuth then [⟨.delete, authPath, none⟩] else []
  else if typedPassword ≠ "" then
    [⟨.set, authPath ++ ["password"], some typedPassword⟩,
      ⟨.set, authPath ++ ["type"], some newType⟩]
  else if hadPassword && newType ≠ beforeType then
    [⟨.set, authPath ++ ["type"], some newType⟩]
  else []

/-- `before` is the group as last fetched, `none` when one is created. -/
def vrrpGroupFormToOps (name : String) (before : Option (VRRPGroup N))
    (values : VRRPGroupFormValues) : List ConfigOp :=
  let base := vrrpGroupPath name []
  let beforeValues := match before with
    | some group => vrrpGroupToFormValues group
    | none => blankVRRPGroupFormValues
  let hadPassword := (before.map VRRPGroup.hasAuthenticationPassword).getD false
  (if before.isNone then [⟨.set, base, none⟩] else []) ++
    (groupFlagFields.flatMap fun f =>
      (Field.flag f.1 (base ++ f.2)).diff beforeValues values) ++
    (groupScalarFields.flatMap fun f =>
      (Field.text f.1 (base ++ f.2)).diff beforeValues values) ++
    authenticationOps base hadPassword beforeValues.authenticationType values

end Form

/-- What the form shows for an absent leaf of a group. -/
def groupShown (raw : Unknown) : Path → String
  | ["priority"] => "100"
  | ["advertise-interval"] => "1"
  | ["preempt-delay"] => "0"
  | ["health-check", "failure-count"] => if isRecord (child raw "health-check") then "3" else ""
  | ["health-check", "interval"] => if isRecord (child raw "health-check") then "60" else ""
  | _ => ""

section Deletes

variable {N : Type} [JsNumber N]

theorem text_numberOrUndefined {v : Unknown} (h : v = none) {n : ℕ} (hn : n ≤ maxSafeInteger) :
    JsNumber.text ((numberOrUndefined v).getD (JsNumber.nat n : N)) = toString n := by
  rw [h]
  exact JsNumber.text_nat n hn

/-- Authentication is deleted only where there is a password. -/
theorem deletesExist_authenticationOps {t : ConfigTree} {base : Path} {hadPassword : Bool}
    (hread : hadPassword = true → (t.get (base ++ ["authentication"])).isSome)
    (beforeType : String) (values : VRRPGroupFormValues) :
    DeletesExist t (authenticationOps base hadPassword beforeType values) := by
  unfold authenticationOps
  simp only
  split_ifs with hblank hauth htyped hretyped
  · intro o ho _
    rw [List.mem_singleton.mp ho]
    exact hread (Bool.and_eq_true_iff.mp hauth).1
  · exact fun o ho => absurd ho List.not_mem_nil
  · refine deletesExist_of_set ?_
    simp
  · refine deletesExist_of_set ?_
    simp
  · exact fun o ho => absurd ho List.not_mem_nil

section Shown

variable (N) (t : ConfigTree) (name : String)

/-- The form of a fetched group. -/
def groupForm : VRRPGroupFormValues :=
  vrrpGroupToFormValues (parseVRRPGroup name (t.get (vrrpGroupPath name [])) : VRRPGroup N)

theorem shown_of_none : ∀ f ∈ groupScalarFields, t.get (vrrpGroupPath name [] ++ f.2) = none →
    f.1 (groupForm N t name) = groupShown (t.get (vrrpGroupPath name [])) f.2 := by
  simp only [groupScalarFields, List.forall_mem_cons, groupForm, vrrpGroupToFormValues,
    parseVRRPGroup, parseTransitionScripts, child_get, List.append_assoc, List.cons_append,
    List.nil_append]
  refine ⟨getD_asString_of_none, getD_asString_of_none, fun h => text_numberOrUndefined h (by decide),
    fun h => text_numberOrUndefined h (by decide), getD_asString_of_none,
    fun h => text_numberOrUndefined h (by decide), getD_asString_of_none, ?_, ?_, ?_, ?_, ?_,
    getD_asString_of_none, getD_asString_of_none, getD_asString_of_none, getD_asString_of_none,
    fun _ h => absurd h List.not_mem_nil⟩
  all_goals
    intro h
    unfold parseVRRPHealthCheck
    split_ifs with hrecord
  · simp [child_get, h, asString, groupShown]
  · rfl
  · simp [child_get, h, asString, groupShown]
  · rfl
  · simp only [Option.map_some, Option.getD_some, groupShown, child_get, hrecord, ↓reduceIte,
      List.append_assoc, List.cons_append, List.nil_append]
    exact text_numberOrUndefined h (by decide)
  · simp [child_get, groupShown, hrecord]
  · simp only [Option.map_some, Option.getD_some, groupShown, child_get, hrecord, ↓reduceIte,
      List.append_assoc, List.cons_append, List.nil_append]
    exact text_numberOrUndefined h (by decide)
  · simp [child_get, groupShown, hrecord]
  · simp [child_get, h, numberOrUndefined, asString, groupShown]
  · rfl

end Shown

/-- The group form deletes only what was fetched when no field of an absent
leaf is left blank, unless it showed nothing and still does. -/
theorem deletesExist_vrrpGroupFormToOps_iff (t : ConfigTree) (name : String)
    (values : VRRPGroupFormValues) :
    DeletesExist t (vrrpGroupFormToOps name
        (some (parseVRRPGroup name (t.get (vrrpGroupPath name [])) : VRRPGroup N)) values) ↔
      KeepsAbsent t (vrrpGroupPath name []) groupScalarFields
        (groupShown (t.get (vrrpGroupPath name []))) values := by
  simp only [vrrpGroupFormToOps, Option.isNone_some, Bool.false_eq_true, ↓reduceIte,
    List.nil_append]
  rw [deletesExist_append, deletesExist_append, deletesExist_texts_iff, and_iff_left,
    and_iff_right]
  · refine deletesExist_flags ?_
    simp only [groupFlagFields, List.forall_mem_cons, vrrpGroupToFormValues, parseVRRPGroup,
      isFlagPresent_eq, child_get, List.append_assoc, List.cons_append, List.nil_append]
    simp
  · refine deletesExist_authenticationOps (fun hpassword => ?_) _ _
    rw [← child_get]
    exact isSome_of_child hpassword
  · exact shown_of_none N t name

end Deletes

end VyosClient.HaVrrp
