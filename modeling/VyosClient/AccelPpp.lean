import VyosClient.ConfigTrees

/-!
The three remote-access servers built on accel-ppp, as the pages read them. L2TP
and PPTP keep everything below a `remote-access` node, SSTP does not, and a
server counts as configured when the node that holds its settings exists. Kept
here is what the settings form reads.
-/

namespace VyosClient.AccelPpp

open ConfigTrees ConfigTree

inductive AccelPppKind
  | l2tp
  | pptp
  | sstp
  deriving DecidableEq, Repr

def AccelPppKind.text : AccelPppKind → String
  | l2tp => "l2tp"
  | pptp => "pptp"
  | sstp => "sstp"

structure AccelPppRadius where
  accountingInterimInterval : Option String := none
  timeout : Option String := none
  nasIdentifier : Option String := none
  deriving DecidableEq, Repr

structure AccelPppAuthentication where
  mode : Option String := none
  protocols : List String := []
  radius : AccelPppRadius := {}
  deriving DecidableEq, Repr

structure AccelPppLimits where
  connectionLimit : Option String := none
  burst : Option String := none
  timeout : Option String := none
  deriving DecidableEq, Repr

structure AccelPppPppOptions where
  minMtu : Option String := none
  mru : Option String := none
  disableCcp : Bool := false
  mppe : Option String := none
  lcpEchoInterval : Option String := none
  lcpEchoFailure : Option String := none
  lcpEchoTimeout : Option String := none
  ipv4 : Option String := none
  ipv6 : Option String := none
  deriving DecidableEq, Repr

structure AccelPppExtendedScripts where
  onPreUp : Option String := none
  onUp : Option String := none
  onDown : Option String := none
  onChange : Option String := none
  deriving DecidableEq, Repr

structure L2tpIpsecSettings where
  authMode : Option String := none
  ikeLifetime : Option String := none
  lifetime : Option String := none
  deriving DecidableEq, Repr

structure L2tpLns where
  hostName : Option String := none
  deriving DecidableEq, Repr

structure SstpSsl where
  caCertificate : Option String := none
  certificate : Option String := none
  deriving DecidableEq, Repr

structure AccelPppConfig where
  enabled : Bool
  description : Option String := none
  authentication : AccelPppAuthentication := {}
  defaultPool : Option String := none
  defaultIpv6Pool : Option String := none
  extendedScripts : AccelPppExtendedScripts := {}
  gatewayAddress : Option String := none
  limits : AccelPppLimits := {}
  maxConcurrentSessions : Option String := none
  mtu : Option String := none
  pppOptions : AccelPppPppOptions := {}
  shaperFwmark : Option String := none
  snmpMasterAgent : Bool := false
  threadCount : Option String := none
  logLevel : Option String := none
  outsideAddress : Option String := none
  ipsecSettings : L2tpIpsecSettings := {}
  lns : L2tpLns := {}
  ssl : SstpSsl := {}
  port : Option String := none
  hostName : Option String := none
  deriving DecidableEq, Repr

def blankAccelPppConfig : AccelPppConfig := { enabled := false }

def parseRadius (raw : Unknown) : AccelPppRadius :=
  match child raw "radius" with
  | none => {}
  | some root =>
      { accountingInterimInterval := asString (child (some root) "accounting-interim-interval")
        timeout := asString (child (some root) "timeout")
        nasIdentifier := asString (child (some root) "nas-identifier") }

def parseAuthentication (raw : Unknown) : AccelPppAuthentication :=
  let root := child raw "authentication"
  { mode := asString (child root "mode")
    protocols := asStringArray (child root "protocols")
    radius := parseRadius root }

def parsePppOptions (raw : Unknown) : AccelPppPppOptions :=
  match child raw "ppp-options" with
  | none => {}
  | some root =>
      { minMtu := asString (child (some root) "min-mtu")
        mru := asString (child (some root) "mru")
        disableCcp := isFlagPresent (some root) "disable-ccp"
        mppe := asString (child (some root) "mppe")
        lcpEchoInterval := asString (child (some root) "lcp-echo-interval")
        lcpEchoFailure := asString (child (some root) "lcp-echo-failure")
        lcpEchoTimeout := asString (child (some root) "lcp-echo-timeout")
        ipv4 := asString (child (some root) "ipv4")
        ipv6 := asString (child (some root) "ipv6") }

def parseLimits (raw : Unknown) : AccelPppLimits :=
  let root := child raw "limits"
  { connectionLimit := asString (child root "connection-limit")
    burst := asString (child root "burst")
    timeout := asString (child root "timeout") }

def parseExtendedScripts (raw : Unknown) : AccelPppExtendedScripts :=
  let root := child raw "extended-scripts"
  { onPreUp := asString (child root "on-pre-up")
    onUp := asString (child root "on-up")
    onDown := asString (child root "on-down")
    onChange := asString (child root "on-change") }

def parseL2tpIpsecSettings (raw : Unknown) : L2tpIpsecSettings :=
  match child raw "ipsec-settings" with
  | none => {}
  | some root =>
      let auth := child (some root) "authentication"
      { authMode := asString (child auth "mode")
        ikeLifetime := asString (child (some root) "ike-lifetime")
        lifetime := asString (child (some root) "lifetime") }

def parseL2tpLns (raw : Unknown) : L2tpLns :=
  match child raw "lns" with
  | none => {}
  | some root => { hostName := asString (child (some root) "host-name") }

def parseSstpSsl (raw : Unknown) : SstpSsl :=
  match child raw "ssl" with
  | none => {}
  | some root =>
      { caCertificate := asString (child (some root) "ca-certificate")
        certificate := asString (child (some root) "certificate") }

def parseAccelPppConfig (kind : AccelPppKind) (top : Unknown) : AccelPppConfig :=
  -- an absent `top` has no child either
  let root := if kind = .sstp then top else child top "remote-access"
  match root with
  | none => blankAccelPppConfig
  | some root =>
      { enabled := true
        description := asString (child (some root) "description")
        authentication := parseAuthentication (some root)
        defaultPool := asString (child (some root) "default-pool")
        defaultIpv6Pool := asString (child (some root) "default-ipv6-pool")
        extendedScripts := parseExtendedScripts (some root)
        gatewayAddress := asString (child (some root) "gateway-address")
        limits := parseLimits (some root)
        maxConcurrentSessions := asString (child (some root) "max-concurrent-sessions")
        mtu := asString (child (some root) "mtu")
        pppOptions := parsePppOptions (some root)
        shaperFwmark := asString (child (child (some root) "shaper") "fwmark")
        snmpMasterAgent := isFlagPresent (child (some root) "snmp") "master-agent"
        threadCount := asString (child (some root) "thread-count")
        logLevel := asString (child (child (some root) "log") "level")
        outsideAddress :=
          if kind = .sstp then none else asString (child (some root) "outside-address")
        ipsecSettings := if kind = .l2tp then parseL2tpIpsecSettings (some root) else {}
        lns := if kind = .l2tp then parseL2tpLns (some root) else {}
        ssl := if kind = .sstp then parseSstpSsl (some root) else {}
        port := if kind = .sstp then asString (child (some root) "port") else none
        hostName := if kind = .sstp then asString (child (some root) "host-name") else none }

/-- Root of the entire protocol's configuration. -/
def accelPppKindPath (kind : AccelPppKind) (rest : Path) : Path := ["vpn", kind.text] ++ rest

/-- Root of the settings, with the `remote-access` wrapper that SSTP lacks. -/
def accelPppBasePath (kind : AccelPppKind) (rest : Path) : Path :=
  match kind with
  | .sstp => accelPppKindPath kind rest
  | _ => accelPppKindPath kind ("remote-access" :: rest)

def accelPppAuthPath (kind : AccelPppKind) (rest : Path) : Path :=
  accelPppBasePath kind ("authentication" :: rest)

def accelPppLocalUserPath (kind : AccelPppKind) (username : String) (rest : Path) : Path :=
  accelPppAuthPath kind ("local-users" :: "username" :: username :: rest)

def accelPppRadiusServerPath (kind : AccelPppKind) (address : String) (rest : Path) : Path :=
  accelPppAuthPath kind ("radius" :: "server" :: address :: rest)

def accelPppClientIpPoolPath (kind : AccelPppKind) (name : String) (rest : Path) : Path :=
  accelPppBasePath kind ("client-ip-pool" :: name :: rest)

def accelPppClientIpv6PoolPath (kind : AccelPppKind) (name : String) (rest : Path) : Path :=
  accelPppBasePath kind ("client-ipv6-pool" :: name :: rest)

def accelPppClientIpv6PoolPrefixPath (kind : AccelPppKind) (name poolPrefix : String)
    (rest : Path) : Path :=
  accelPppClientIpv6PoolPath kind name ("prefix" :: poolPrefix :: rest)

def l2tpIpsecSettingsPath (rest : Path) : Path := accelPppBasePath .l2tp ("ipsec-settings" :: rest)

def l2tpIpsecAuthPath (rest : Path) : Path := l2tpIpsecSettingsPath ("authentication" :: rest)

def l2tpLnsPath (rest : Path) : Path := accelPppBasePath .l2tp ("lns" :: rest)

def sstpSslPath (rest : Path) : Path := accelPppBasePath .sstp ("ssl" :: rest)

theorem accelPppBasePath_append (kind : AccelPppKind) (rest : Path) :
    accelPppBasePath kind rest = accelPppBasePath kind [] ++ rest := by
  cases kind <;> rfl

theorem accelPppKindPath_isPrefix (kind : AccelPppKind) :
    accelPppKindPath kind [] <+: accelPppBasePath kind [] := by
  cases kind <;> decide

/-- The server's section of the fetched `vpn` tree. -/
def fetchedSection (kind : AccelPppKind) (t : ConfigTree) : Unknown :=
  child (t.get ["vpn"]) kind.text

/-- The parser takes the node that holds the settings for being enabled. -/
theorem enabled_parseAccelPppConfig (kind : AccelPppKind) (t : ConfigTree) :
    (parseAccelPppConfig kind (fetchedSection kind t)).enabled =
      (t.store (accelPppBasePath kind [])).isSome := by
  have hparse : ∀ top : Unknown, (parseAccelPppConfig kind top).enabled =
      (if kind = .sstp then top else child top "remote-access").isSome := by
    intro top
    simp only [parseAccelPppConfig]
    cases (if kind = .sstp then top else child top "remote-access") <;> rfl
  rw [hparse, fetchedSection, child_get, store_apply, Option.isSome_map]
  cases kind with
  | sstp => rfl
  | l2tp => exact congrArg Option.isSome (child_get t _ _)
  | pptp => exact congrArg Option.isSome (child_get t _ _)

end VyosClient.AccelPpp
