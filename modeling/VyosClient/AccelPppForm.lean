import VyosClient.AccelPpp
import VyosClient.FormDiff

/-!
What the pages of an accel-ppp server queue: the buttons that turn the server
on and off, the settings form, and the lists of users, servers and pools. All
but the two buttons stay below the node that holds the settings.
-/

namespace VyosClient.AccelPppForm

open PathStore ConfigTrees Configure PendingChanges FormDiff AccelPpp

def enableAccelPppOp (kind : AccelPppKind) : ConfigOp := ⟨.set, accelPppKindPath kind [], none⟩

def disableAccelPppOp (kind : AccelPppKind) : ConfigOp := ⟨.delete, accelPppKindPath kind [], none⟩

/-- A `set` of what was typed, left out when nothing was. -/
def setTyped (path : Path) (typed : String) : List ConfigOp :=
  if trim typed = "" then [] else [⟨.set, path, some (trim typed)⟩]

structure AccelPppLocalUserFormOptions where
  password : String
  staticIp : String
  rateLimitUpload : String
  rateLimitDownload : String
  deriving DecidableEq, Repr

def addAccelPppLocalUserOps (kind : AccelPppKind) (username : String)
    (options : AccelPppLocalUserFormOptions) : List ConfigOp :=
  [⟨.set, accelPppLocalUserPath kind username [], none⟩] ++
    setTyped (accelPppLocalUserPath kind username ["password"]) options.password ++
    setTyped (accelPppLocalUserPath kind username ["static-ip"]) options.staticIp ++
    setTyped (accelPppLocalUserPath kind username ["rate-limit", "upload"])
      options.rateLimitUpload ++
    setTyped (accelPppLocalUserPath kind username ["rate-limit", "download"])
      options.rateLimitDownload

def removeAccelPppLocalUserOp (kind : AccelPppKind) (username : String) : ConfigOp :=
  ⟨.delete, accelPppLocalUserPath kind username [], none⟩

def toggleAccelPppLocalUserDisabledOp (kind : AccelPppKind) (username : String)
    (disabled : Bool) : ConfigOp :=
  ⟨if disabled then .set else .delete, accelPppLocalUserPath kind username ["disable"], none⟩

def addAccelPppRadiusServerOps (kind : AccelPppKind) (address key port : String) :
    List ConfigOp :=
  [⟨.set, accelPppRadiusServerPath kind address [], none⟩] ++
    setTyped (accelPppRadiusServerPath kind address ["key"]) key ++
    setTyped (accelPppRadiusServerPath kind address ["port"]) port

def removeAccelPppRadiusServerOp (kind : AccelPppKind) (address : String) : ConfigOp :=
  ⟨.delete, accelPppRadiusServerPath kind address [], none⟩

def addAccelPppClientIpPoolOps (kind : AccelPppKind) (name : String) (ranges : List String)
    (nextPool : String) : List ConfigOp :=
  [⟨.set, accelPppClientIpPoolPath kind name [], none⟩] ++
    (ranges.map fun range => ⟨.set, accelPppClientIpPoolPath kind name ["range"], some range⟩) ++
    setTyped (accelPppClientIpPoolPath kind name ["next-pool"]) nextPool

def removeAccelPppClientIpPoolOp (kind : AccelPppKind) (name : String) : ConfigOp :=
  ⟨.delete, accelPppClientIpPoolPath kind name [], none⟩

def removeAccelPppClientIpv6PoolOp (kind : AccelPppKind) (name : String) : ConfigOp :=
  ⟨.delete, accelPppClientIpv6PoolPath kind name [], none⟩

def addAccelPppClientIpv6PoolPrefixOps (kind : AccelPppKind) (poolName poolPrefix mask : String) :
    List ConfigOp :=
  [⟨.set, accelPppClientIpv6PoolPrefixPath kind poolName poolPrefix [], none⟩] ++
    setTyped (accelPppClientIpv6PoolPrefixPath kind poolName poolPrefix ["mask"]) mask

def removeAccelPppClientIpv6PoolPrefixOp (kind : AccelPppKind) (poolName poolPrefix : String) :
    ConfigOp :=
  ⟨.delete, accelPppClientIpv6PoolPrefixPath kind poolName poolPrefix [], none⟩

structure AccelPppSettingsFormValues where
  description : String
  authMode : String
  authProtocols : List String
  defaultPool : String
  defaultIpv6Pool : String
  gatewayAddress : String
  connectionLimit : String
  burst : String
  limitsTimeout : String
  maxConcurrentSessions : String
  mtu : String
  minMtu : String
  mru : String
  disableCcp : Bool
  mppe : String
  lcpEchoInterval : String
  lcpEchoFailure : String
  lcpEchoTimeout : String
  ipv4 : String
  ipv6 : String
  shaperFwmark : String
  snmpMasterAgent : Bool
  threadCount : String
  logLevel : String
  onPreUp : String
  onUp : String
  onDown : String
  onChange : String
  radiusAccountingInterimInterval : String
  radiusTimeout : String
  radiusNasIdentifier : String
  outsideAddress : String
  ipsecAuthMode : String
  hasIpsecPresharedSecret : String
  ikeLifetime : String
  espLifetime : String
  hasLnsSharedSecret : String
  lnsHostName : String
  caCertificate : String
  certificate : String
  port : String
  sstpHostName : String

def accelPppConfigToSettingsFormValues (config : AccelPppConfig) : AccelPppSettingsFormValues where
  description := config.description.getD ""
  authMode := config.authentication.mode.getD ""
  authProtocols := config.authentication.protocols
  defaultPool := config.defaultPool.getD ""
  defaultIpv6Pool := config.defaultIpv6Pool.getD ""
  gatewayAddress := config.gatewayAddress.getD ""
  connectionLimit := config.limits.connectionLimit.getD ""
  burst := config.limits.burst.getD ""
  limitsTimeout := config.limits.timeout.getD ""
  maxConcurrentSessions := config.maxConcurrentSessions.getD ""
  mtu := config.mtu.getD ""
  minMtu := config.pppOptions.minMtu.getD ""
  mru := config.pppOptions.mru.getD ""
  disableCcp := config.pppOptions.disableCcp
  mppe := config.pppOptions.mppe.getD ""
  lcpEchoInterval := config.pppOptions.lcpEchoInterval.getD ""
  lcpEchoFailure := config.pppOptions.lcpEchoFailure.getD ""
  lcpEchoTimeout := config.pppOptions.lcpEchoTimeout.getD ""
  ipv4 := config.pppOptions.ipv4.getD ""
  ipv6 := config.pppOptions.ipv6.getD ""
  shaperFwmark := config.shaperFwmark.getD ""
  snmpMasterAgent := config.snmpMasterAgent
  threadCount := config.threadCount.getD ""
  logLevel := config.logLevel.getD ""
  onPreUp := config.extendedScripts.onPreUp.getD ""
  onUp := config.extendedScripts.onUp.getD ""
  onDown := config.extendedScripts.onDown.getD ""
  onChange := config.extendedScripts.onChange.getD ""
  radiusAccountingInterimInterval :=
    config.authentication.radius.accountingInterimInterval.getD ""
  radiusTimeout := config.authentication.radius.timeout.getD ""
  radiusNasIdentifier := config.authentication.radius.nasIdentifier.getD ""
  outsideAddress := config.outsideAddress.getD ""
  ipsecAuthMode := config.ipsecSettings.authMode.getD ""
  hasIpsecPresharedSecret := ""
  ikeLifetime := config.ipsecSettings.ikeLifetime.getD ""
  espLifetime := config.ipsecSettings.lifetime.getD ""
  hasLnsSharedSecret := ""
  lnsHostName := config.lns.hostName.getD ""
  caCertificate := config.ssl.caCertificate.getD ""
  certificate := config.ssl.certificate.getD ""
  port := config.port.getD ""
  sstpHostName := config.hostName.getD ""

def flagFields (kind : AccelPppKind) : List (FormDiff.Field AccelPppSettingsFormValues) :=
  [.flag (·.disableCcp) (accelPppBasePath kind ["ppp-options", "disable-ccp"]),
    .flag (·.snmpMasterAgent) (accelPppBasePath kind ["snmp", "master-agent"])]

def scalarFields (kind : AccelPppKind) : List (FormDiff.Field AccelPppSettingsFormValues) :=
  let base := accelPppBasePath kind
  let authBase := accelPppAuthPath kind
  ([.text (·.description) (base ["description"]),
    .text (·.authMode) (authBase ["mode"]),
    .text (·.defaultPool) (base ["default-pool"]),
    .text (·.defaultIpv6Pool) (base ["default-ipv6-pool"]),
    .text (·.gatewayAddress) (base ["gateway-address"]),
    .text (·.connectionLimit) (base ["limits", "connection-limit"]),
    .text (·.burst) (base ["limits", "burst"]),
    .text (·.limitsTimeout) (base ["limits", "timeout"]),
    .text (·.maxConcurrentSessions) (base ["max-concurrent-sessions"]),
    .text (·.mtu) (base ["mtu"]),
    .text (·.minMtu) (base ["ppp-options", "min-mtu"]),
    .text (·.mru) (base ["ppp-options", "mru"]),
    .text (·.mppe) (base ["ppp-options", "mppe"]),
    .text (·.lcpEchoInterval) (base ["ppp-options", "lcp-echo-interval"]),
    .text (·.lcpEchoFailure) (base ["ppp-options", "lcp-echo-failure"]),
    .text (·.lcpEchoTimeout) (base ["ppp-options", "lcp-echo-timeout"]),
    .text (·.ipv4) (base ["ppp-options", "ipv4"]),
    .text (·.ipv6) (base ["ppp-options", "ipv6"]),
    .text (·.shaperFwmark) (base ["shaper", "fwmark"]),
    .text (·.threadCount) (base ["thread-count"]),
    .text (·.logLevel) (base ["log", "level"]),
    .text (·.onPreUp) (base ["extended-scripts", "on-pre-up"]),
    .text (·.onUp) (base ["extended-scripts", "on-up"]),
    .text (·.onDown) (base ["extended-scripts", "on-down"]),
    .text (·.onChange) (base ["extended-scripts", "on-change"]),
    .text (·.radiusAccountingInterimInterval) (authBase ["radius", "accounting-interim-interval"]),
    .text (·.radiusTimeout) (authBase ["radius", "timeout"]),
    .text (·.radiusNasIdentifier) (authBase ["radius", "nas-identifier"])] :
    List (FormDiff.Field AccelPppSettingsFormValues)) ++
  (if kind ≠ .sstp then [.text (·.outsideAddress) (base ["outside-address"])] else []) ++
  (if kind = .l2tp then
    [.text (·.ipsecAuthMode) (l2tpIpsecAuthPath ["mode"]),
      .text (·.ikeLifetime) (l2tpIpsecSettingsPath ["ike-lifetime"]),
      .text (·.espLifetime) (l2tpIpsecSettingsPath ["lifetime"]),
      .text (·.lnsHostName) (l2tpLnsPath ["host-name"])] else []) ++
  (if kind = .sstp then
    [.text (·.caCertificate) (sstpSslPath ["ca-certificate"]),
      .text (·.certificate) (sstpSslPath ["certificate"]),
      .text (·.port) (base ["port"]),
      .text (·.sstpHostName) (base ["host-name"])] else [])

/-- `set` for each value that is new, `delete` for each that is gone. -/
def multiValueDiffOps (path : Path) (oldValues newValues : List String) : List ConfigOp :=
  ((newValues.eraseDups.filter (· ∉ oldValues)).map fun v => ⟨.set, path, some v⟩) ++
    ((oldValues.eraseDups.filter (· ∉ newValues)).map fun v => ⟨.delete, path, some v⟩)

def accelPppSettingsFormToOps (kind : AccelPppKind) (before : AccelPppConfig)
    (values : AccelPppSettingsFormValues) : List ConfigOp :=
  let beforeValues := accelPppConfigToSettingsFormValues before
  let protocolsPath := accelPppAuthPath kind ["protocols"]
  (flagFields kind ++ scalarFields kind).flatMap (Field.diff beforeValues values) ++
    (if values.authProtocols = [] ∧ beforeValues.authProtocols ≠ [] then
      [⟨.delete, protocolsPath, none⟩]
    else multiValueDiffOps protocolsPath beforeValues.authProtocols values.authProtocols) ++
    (if kind = .l2tp then
      setTyped (l2tpIpsecAuthPath ["pre-shared-secret"]) values.hasIpsecPresharedSecret ++
        setTyped (l2tpLnsPath ["shared-secret"]) values.hasLnsSharedSecret
    else [])

/-- Everything else the pages of a server can queue. `addServer` and
`removeServer` are the chips of the two address lists. -/
inductive SettingsAction
  | saveSettings (before : AccelPppConfig) (values : AccelPppSettingsFormValues)
  | addLocalUser (username : String) (options : AccelPppLocalUserFormOptions)
  | removeLocalUser (username : String)
  | toggleLocalUserDisabled (username : String) (disabled : Bool)
  | addRadiusServer (address key port : String)
  | removeRadiusServer (address : String)
  | addClientIpPool (name : String) (ranges : List String) (nextPool : String)
  | removeClientIpPool (name : String)
  | addClientIpv6Pool (name : String)
  | removeClientIpv6Pool (name : String)
  | addClientIpv6PoolPrefix (poolName poolPrefix mask : String)
  | removeClientIpv6PoolPrefix (poolName poolPrefix : String)
  | addNameServer (value : String)
  | removeNameServer (value : String)
  | addWinsServer (value : String)
  | removeWinsServer (value : String)

def SettingsAction.ops (kind : AccelPppKind) : SettingsAction → List ConfigOp
  | saveSettings before values => accelPppSettingsFormToOps kind before values
  | addLocalUser username options => addAccelPppLocalUserOps kind username options
  | removeLocalUser username => [removeAccelPppLocalUserOp kind username]
  | toggleLocalUserDisabled username disabled =>
      [toggleAccelPppLocalUserDisabledOp kind username disabled]
  | addRadiusServer address key port => addAccelPppRadiusServerOps kind address key port
  | removeRadiusServer address => [removeAccelPppRadiusServerOp kind address]
  | addClientIpPool name ranges nextPool => addAccelPppClientIpPoolOps kind name ranges nextPool
  | removeClientIpPool name => [removeAccelPppClientIpPoolOp kind name]
  | addClientIpv6Pool name => [⟨.set, accelPppClientIpv6PoolPath kind name [], none⟩]
  | removeClientIpv6Pool name => [removeAccelPppClientIpv6PoolOp kind name]
  | addClientIpv6PoolPrefix poolName poolPrefix mask =>
      addAccelPppClientIpv6PoolPrefixOps kind poolName poolPrefix mask
  | removeClientIpv6PoolPrefix poolName poolPrefix =>
      [removeAccelPppClientIpv6PoolPrefixOp kind poolName poolPrefix]
  | addNameServer value => [⟨.set, accelPppBasePath kind ["name-server"], some value⟩]
  | removeNameServer value => [⟨.delete, accelPppBasePath kind ["name-server"], some value⟩]
  | addWinsServer value => [⟨.set, accelPppBasePath kind ["wins-server"], some value⟩]
  | removeWinsServer value => [⟨.delete, accelPppBasePath kind ["wins-server"], some value⟩]

/-- An operation that leaves the node of the settings itself alone. -/
def Below (kind : AccelPppKind) (o : ConfigOp) : Prop :=
  ∃ rest, rest ≠ [] ∧ o.path = accelPppBasePath kind rest

theorem Below.joined_ne {kind : AccelPppKind} {o : ConfigOp} (h : Below kind o) :
    joined o.path ≠ joined (accelPppKindPath kind []) := by
  obtain ⟨rest, hrest, hpath⟩ := h
  rw [hpath]
  cases kind with
  | sstp => exact joined_append_ne (by simp) hrest
  | l2tp => exact joined_append_ne (p := ["vpn", "l2tp"]) (by simp) (by simp)
  | pptp => exact joined_append_ne (p := ["vpn", "pptp"]) (by simp) (by simp)

theorem Below.isPrefix {kind : AccelPppKind} {o : ConfigOp} (h : Below kind o) :
    accelPppBasePath kind [] <+: o.path ∧ accelPppBasePath kind [] ≠ o.path := by
  obtain ⟨rest, hrest, hpath⟩ := h
  rw [hpath, accelPppBasePath_append kind rest]
  refine ⟨List.prefix_append _ _, fun heq => hrest ?_⟩
  exact List.self_eq_append_right.mp heq

theorem below_of_mem_setTyped {kind : AccelPppKind} {path rest : Path} (hrest : rest ≠ [])
    (hpath : path = accelPppBasePath kind rest) {typed : String} {o : ConfigOp}
    (ho : o ∈ setTyped path typed) : Below kind o := by
  unfold setTyped at ho
  split_ifs at ho with hblank
  · exact absurd ho List.not_mem_nil
  · rw [List.mem_singleton.mp ho]
    exact ⟨rest, hrest, hpath⟩

theorem below_of_mem_fields {kind : AccelPppKind} {f : FormDiff.Field AccelPppSettingsFormValues}
    (hf : f ∈ flagFields kind ++ scalarFields kind) {before values : AccelPppSettingsFormValues}
    {o : ConfigOp} (ho : o ∈ f.diff before values) : Below kind o := by
  have hpaths : ∀ p ∈ (flagFields kind ++ scalarFields kind).map Field.path,
      accelPppBasePath kind [] <+: p ∧ p ≠ accelPppBasePath kind [] := by
    cases kind <;> decide
  obtain ⟨⟨rest, hrest⟩, hne⟩ := hpaths f.path (List.mem_map_of_mem hf)
  refine ⟨rest, ?_, ?_⟩
  · rintro rfl
    exact hne (by rw [← hrest, List.append_nil])
  · rw [Field.path_of_mem_diff ho, ← hrest, accelPppBasePath_append kind rest]

theorem below_of_mem_multiValueDiffOps {kind : AccelPppKind} {path rest : Path}
    (hrest : rest ≠ []) (hpath : path = accelPppBasePath kind rest)
    {oldValues newValues : List String} {o : ConfigOp}
    (ho : o ∈ multiValueDiffOps path oldValues newValues) : Below kind o := by
  refine ⟨rest, hrest, ?_⟩
  rcases List.mem_append.mp ho with ho | ho <;> obtain ⟨v, _, rfl⟩ := List.mem_map.mp ho <;>
    exact hpath

theorem below_of_mem_settingsForm {kind : AccelPppKind} {before : AccelPppConfig}
    {values : AccelPppSettingsFormValues} {o : ConfigOp}
    (ho : o ∈ accelPppSettingsFormToOps kind before values) : Below kind o := by
  unfold accelPppSettingsFormToOps at ho
  simp only [List.append_assoc, List.mem_append] at ho
  rcases ho with ho | ho | ho
  · obtain ⟨f, hf, ho⟩ := List.mem_flatMap.mp ho
    exact below_of_mem_fields (by simpa using hf) ho
  · split_ifs at ho
    · rw [List.mem_singleton.mp ho]
      exact ⟨["authentication", "protocols"], by simp, rfl⟩
    · exact below_of_mem_multiValueDiffOps (by simp) rfl ho
  · split_ifs at ho with hkind
    · subst hkind
      rcases List.mem_append.mp ho with ho | ho
      · exact below_of_mem_setTyped (by simp) rfl ho
      · exact below_of_mem_setTyped (by simp) rfl ho
    · exact absurd ho List.not_mem_nil

/-- All the pages queue beside the two buttons stays below the settings' node. -/
theorem SettingsAction.below {kind : AccelPppKind} {action : SettingsAction} {o : ConfigOp}
    (ho : o ∈ action.ops kind) : Below kind o := by
  cases action with
  | saveSettings before values => exact below_of_mem_settingsForm ho
  | addLocalUser username options =>
    simp only [ops, addAccelPppLocalUserOps, List.append_assoc, List.mem_append] at ho
    rcases ho with ho | ho | ho | ho | ho
    · rw [List.mem_singleton.mp ho]
      exact ⟨_, by simp, rfl⟩
    · exact below_of_mem_setTyped (by simp) rfl ho
    · exact below_of_mem_setTyped (by simp) rfl ho
    · exact below_of_mem_setTyped (by simp) rfl ho
    · exact below_of_mem_setTyped (by simp) rfl ho
  | addRadiusServer address key port =>
    simp only [ops, addAccelPppRadiusServerOps, List.append_assoc, List.mem_append] at ho
    rcases ho with ho | ho | ho
    · rw [List.mem_singleton.mp ho]
      exact ⟨_, by simp, rfl⟩
    · exact below_of_mem_setTyped (by simp) rfl ho
    · exact below_of_mem_setTyped (by simp) rfl ho
  | addClientIpPool name ranges nextPool =>
    simp only [ops, addAccelPppClientIpPoolOps, List.append_assoc, List.mem_append] at ho
    rcases ho with ho | ho | ho
    · rw [List.mem_singleton.mp ho]
      exact ⟨_, by simp, rfl⟩
    · obtain ⟨range, _, rfl⟩ := List.mem_map.mp ho
      exact ⟨_, by simp, rfl⟩
    · exact below_of_mem_setTyped (by simp) rfl ho
  | addClientIpv6PoolPrefix poolName poolPrefix mask =>
    simp only [ops, addAccelPppClientIpv6PoolPrefixOps, List.mem_append] at ho
    rcases ho with ho | ho
    · rw [List.mem_singleton.mp ho]
      exact ⟨_, by simp, rfl⟩
    · exact below_of_mem_setTyped (by simp) rfl ho
  | removeLocalUser username | toggleLocalUserDisabled username disabled
  | removeRadiusServer address | removeClientIpPool name | addClientIpv6Pool name
  | removeClientIpv6Pool name | removeClientIpv6PoolPrefix poolName poolPrefix
  | addNameServer value | removeNameServer value | addWinsServer value
  | removeWinsServer value =>
    rw [List.mem_singleton.mp ho]
    exact ⟨_, by simp, rfl⟩

end VyosClient.AccelPppForm
