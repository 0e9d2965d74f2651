import VyosClient.FormDiff

/-!
The SSH settings form. The section is parsed into a typed configuration, the
form edits twelve of its fields, and every Save is a difference against the
fetched configuration, so the last of several Saves does not always win.
-/

namespace VyosClient.ServiceSsh

open PathStore ConfigTrees Configure PendingChanges PendingChangesState FormDiff

structure SSHConfig where
  enabled : Bool
  allowGroups : List String
  allowUsers : List String
  denyGroups : List String
  denyUsers : List String
  ciphers : List String
  hostkeyAlgorithms : List String
  pubkeyAcceptedAlgorithms : List String
  keyExchangeAlgorithms : List String
  macAlgorithms : List String
  disableHostValidation : Bool
  disablePasswordAuthentication : Bool
  fidoPinRequired : Bool
  fidoTouchRequired : Bool
  dynamicProtectionBlockTime : Option String := none
  dynamicProtectionDetectTime : Option String := none
  dynamicProtectionThreshold : Option String := none
  dynamicProtectionAllowFrom : List String
  listenAddresses : List String
  loglevel : Option String := none
  ports : List String
  rekeyData : Option String := none
  rekeyTime : Option String := none
  clientKeepaliveInterval : Option String := none
  trustedUserCA : Option String := none
  vrfs : List String
  deriving DecidableEq, Repr

def blankSSHConfig : SSHConfig where
  enabled := false
  allowGroups := []
  allowUsers := []
  denyGroups := []
  denyUsers := []
  ciphers := []
  hostkeyAlgorithms := []
  pubkeyAcceptedAlgorithms := []
  keyExchangeAlgorithms := []
  macAlgorithms := []
  disableHostValidation := false
  disablePasswordAuthentication := false
  fidoPinRequired := false
  fidoTouchRequired := false
  dynamicProtectionAllowFrom := []
  listenAddresses := []
  ports := []
  vrfs := []

def parseSSHConfig : Unknown → SSHConfig
  | none => blankSSHConfig
  | some ssh =>
      let accessControl := child (some ssh) "access-control"
      let allow := child accessControl "allow"
      let deny := child accessControl "deny"
      let dynamicProtection := child (some ssh) "dynamic-protection"
      let fido := child (some ssh) "fido"
      { enabled := true
        allowGroups := asStringArray (child allow "group")
        allowUsers := asStringArray (child allow "user")
        denyGroups := asStringArray (child deny "group")
        denyUsers := asStringArray (child deny "user")
        ciphers := asStringArray (child (some ssh) "cipher")
        hostkeyAlgorithms := asStringArray (child (some ssh) "hostkey-algorithm")
        pubkeyAcceptedAlgorithms := asStringArray (child (some ssh) "pubkey-accepted-algorithm")
        keyExchangeAlgorithms := asStringArray (child (some ssh) "key-exchange")
        macAlgorithms := asStringArray (child (some ssh) "mac")
        disableHostValidation := isFlagPresent (some ssh) "disable-host-validation"
        disablePasswordAuthentication := isFlagPresent (some ssh) "disable-password-authentication"
        fidoPinRequired := isFlagPresent fido "pin-required"
        fidoTouchRequired := isFlagPresent fido "touch-required"
        dynamicProtectionBlockTime := asString (child dynamicProtection "block-time")
        dynamicProtectionDetectTime := asString (child dynamicProtection "detect-time")
        dynamicProtectionThreshold := asString (child dynamicProtection "threshold")
        dynamicProtectionAllowFrom := asStringArray (child dynamicProtection "allow-from")
        listenAddresses := asStringArray (child (some ssh) "listen-address")
        loglevel := asString (child (some ssh) "loglevel")
        ports := asStringArray (child (some ssh) "port")
        rekeyData := asString (child (child (some ssh) "rekey") "data")
        rekeyTime := asString (child (child (some ssh) "rekey") "time")
        clientKeepaliveInterval := asString (child (some ssh) "client-keepalive-interval")
        trustedUserCA := asString (child (some ssh) "trusted-user-ca")
        vrfs := asStringArray (child (some ssh) "vrf") }

def sshPath (rest : Path) : Path := ["service", "ssh"] ++ rest

def sshDynamicProtectionPath (rest : Path) : Path := sshPath ("dynamic-protection" :: rest)

def sshRekeyPath (rest : Path) : Path := sshPath ("rekey" :: rest)

structure SSHFormValues where
  disableHostValidation : Bool
  disablePasswordAuthentication : Bool
  fidoPinRequired : Bool
  fidoTouchRequired : Bool
  dynamicProtectionBlockTime : String
  dynamicProtectionDetectTime : String
  dynamicProtectionThreshold : String
  loglevel : String
  rekeyData : String
  rekeyTime : String
  clientKeepaliveInterval : String
  trustedUserCA : String
  deriving DecidableEq, Repr

def sshConfigToFormValues (config : SSHConfig) : SSHFormValues where
  disableHostValidation := config.disableHostValidation
  disablePasswordAuthentication := config.disablePasswordAuthentication
  fidoPinRequired := config.fidoPinRequired
  fidoTouchRequired := config.fidoTouchRequired
  dynamicProtectionBlockTime := config.dynamicProtectionBlockTime.getD ""
  dynamicProtectionDetectTime := config.dynamicProtectionDetectTime.getD ""
  dynamicProtectionThreshold := config.dynamicProtectionThreshold.getD ""
  loglevel := config.loglevel.getD ""
  rekeyData := config.rekeyData.getD ""
  rekeyTime := config.rekeyTime.getD ""
  clientKeepaliveInterval := config.clientKeepaliveInterval.getD ""
  trustedUserCA := config.trustedUserCA.getD ""

def flagFields : List (FormDiff.Field SSHFormValues) :=
  [.flag (·.disableHostValidation) (sshPath ["disable-host-validation"]),
    .flag (·.disablePasswordAuthentication) (sshPath ["disable-password-authentication"]),
    .flag (·.fidoPinRequired) (sshPath ["fido", "pin-required"]),
    .flag (·.fidoTouchRequired) (sshPath ["fido", "touch-required"])]

def scalarFields : List (FormDiff.Field SSHFormValues) :=
  [.text (·.dynamicProtectionBlockTime) (sshDynamicProtectionPath ["block-time"]),
    .text (·.dynamicProtectionDetectTime) (sshDynamicProtectionPath ["detect-time"]),
    .text (·.dynamicProtectionThreshold) (sshDynamicProtectionPath ["threshold"]),
    .text (·.loglevel) (sshPath ["loglevel"]),
    .text (·.rekeyData) (sshRekeyPath ["data"]),
    .text (·.rekeyTime) (sshRekeyPath ["time"]),
    .text (·.clientKeepaliveInterval) (sshPath ["client-keepalive-interval"]),
    .text (·.trustedUserCA) (sshPath ["trusted-user-ca"])]

def sshForm : Form SSHFormValues where
  fields := flagFields ++ scalarFields
  apart := by
    have hpaths : ((flagFields ++ scalarFields).map Field.path).Pairwise Apart := by decide
    exact List.pairwise_map.mp hpaths
  distinct := by decide
  named := by
    have hpaths : ∀ p ∈ (flagFields ++ scalarFields).map Field.path, p ≠ [] := by decide
    exact fun f hf => hpaths f.path (List.mem_map_of_mem hf)

def sshFormToOps (before : SSHConfig) (values : SSHFormValues) : List ConfigOp :=
  sshForm.diff (sshConfigToFormValues before) values

/-- Save: the operations are queued one by one. -/
def save (s : PendingChangesState) (config : SSHConfig) (values : SSHFormValues) :
    PendingChangesState :=
  s.addAll (sshFormToOps config values)

/-- What the form shows of a configuration. -/
def shown (t : ConfigTree) : SSHFormValues :=
  sshConfigToFormValues (parseSSHConfig (t.get (sshPath [])))

theorem shown_eq {t : ConfigTree} (h : t.WellFormed) (hssh : (t.get (sshPath [])).isSome) :
    shown t =
      { disableHostValidation := (t.store (sshPath ["disable-host-validation"])).isSome
        disablePasswordAuthentication :=
          (t.store (sshPath ["disable-password-authentication"])).isSome
        fidoPinRequired := (t.store (sshPath ["fido", "pin-required"])).isSome
        fidoTouchRequired := (t.store (sshPath ["fido", "touch-required"])).isSome
        dynamicProtectionBlockTime :=
          ((t.store (sshDynamicProtectionPath ["block-time"])).map readValues).getD ""
        dynamicProtectionDetectTime :=
          ((t.store (sshDynamicProtectionPath ["detect-time"])).map readValues).getD ""
        dynamicProtectionThreshold :=
          ((t.store (sshDynamicProtectionPath ["threshold"])).map readValues).getD ""
        loglevel := ((t.store (sshPath ["loglevel"])).map readValues).getD ""
        rekeyData := ((t.store (sshRekeyPath ["data"])).map readValues).getD ""
        rekeyTime := ((t.store (sshRekeyPath ["time"])).map readValues).getD ""
        clientKeepaliveInterval :=
          ((t.store (sshPath ["client-keepalive-interval"])).map readValues).getD ""
        trustedUserCA := ((t.store (sshPath ["trusted-user-ca"])).map readValues).getD "" } := by
  obtain ⟨c, hc⟩ := Option.isSome_iff_exists.mp hssh
  have hparse : shown t = sshConfigToFormValues (parseSSHConfig (some c)) := by rw [shown, hc]
  rw [hparse]
  simp only [sshConfigToFormValues, parseSSHConfig, ← hc, ConfigTree.child_get, isFlagPresent_get,
    asString_get h]
  rfl

theorem reads_shown {t : ConfigTree} (h : t.WellFormed) (hssh : (t.get (sshPath [])).isSome) :
    ∀ f ∈ sshForm.fields, f.Reads (shown t) (t.store f.path) := by
  rw [shown_eq h hssh]
  intro f hf
  simp only [sshForm, flagFields, scalarFields, List.cons_append, List.nil_append,
    List.mem_cons, List.not_mem_nil, or_false] at hf
  rcases hf with rfl | rfl | rfl | rfl | rfl | rfl | rfl | rfl | rfl | rfl | rfl | rfl <;> rfl

/-- The values with every text trimmed. -/
def SSHFormValues.trimmed (v : SSHFormValues) : SSHFormValues :=
  { v with
    dynamicProtectionBlockTime := trim v.dynamicProtectionBlockTime
    dynamicProtectionDetectTime := trim v.dynamicProtectionDetectTime
    dynamicProtectionThreshold := trim v.dynamicProtectionThreshold
    loglevel := trim v.loglevel
    rekeyData := trim v.rekeyData
    rekeyTime := trim v.rekeyTime
    clientKeepaliveInterval := trim v.clientKeepaliveInterval
    trustedUserCA := trim v.trustedUserCA }

theorem eq_trimmed_iff {v w : SSHFormValues} :
    w = v.trimmed ↔ ∀ f ∈ sshForm.fields, f.Shows v w := by
  obtain ⟨w1, w2, w3, w4, w5, w6, w7, w8, w9, w10, w11, w12⟩ := w
  simp only [sshForm, flagFields, scalarFields, List.cons_append, List.nil_append,
    List.forall_mem_cons, Field.Shows, SSHFormValues.trimmed, SSHFormValues.mk.injEq]
  simp

/-- The queue that Saves of `vs` build, all against the fetched `t`. -/
def saveAll (t : ConfigTree) (vs : List SSHFormValues) : PendingChangesState :=
  vs.foldl (fun s v => save s (parseSSHConfig (t.get (sshPath []))) v) .empty

theorem saveAll_eq (t : ConfigTree) (vs : List SSHFormValues) :
    saveAll t vs = sshForm.queued (shown t) vs := rfl

/-- Committing all Saves leaves the configuration with exactly the values of
the last one, and everything outside the form as it was, if and only if every
field is settled by the last Save that changed it. -/
theorem lastSave_wins_iff (S : Schema) {t : ConfigTree} (h : t.WellFormed)
    (hssh : (t.get (sshPath [])).isSome) (hsingle : sshForm.SingleIn S)
    (vs : List SSHFormValues) (v : SSHFormValues) :
    (shown (applyOps S t (saveAll t (vs ++ [v])).ops) = v.trimmed ∧
        ∀ q, sshForm.Outside q →
          (applyOps S t (saveAll t (vs ++ [v])).ops).store q = t.store q) ↔
      ∀ f ∈ sshForm.fields, f.SettledBy (shown t) (vs ++ [v]) v := by
  have hstore := sshForm.store_queued S t (shown t) (vs ++ [v])
  rw [saveAll_eq]
  have hresult := WellFormed.applyOps h S (sshForm.queued (shown t) (vs ++ [v])).ops
  have hkept : ((applyOps S t (sshForm.queued (shown t) (vs ++ [v])).ops).get
      (sshPath [])).isSome := by
    have habove : ∀ o ∈ sshForm.saves (shown t) (vs ++ [v]),
        sshPath [] <+: o.path ∧ sshPath [] ≠ o.path := by
      have hpaths : ∀ p ∈ sshForm.fields.map Field.path, sshPath [] <+: p ∧ sshPath [] ≠ p := by
        decide
      intro o ho
      obtain ⟨_, _, f, hf, ho⟩ := Form.mem_saves.mp ho
      rw [Field.path_of_mem_diff ho]
      exact hpaths f.path (List.mem_map_of_mem hf)
    have hsome := isSome_run_edits_above S habove (s := t.store)
      (by rwa [ConfigTree.store_apply, Option.isSome_map])
    rwa [← hstore, ConfigTree.store_apply, Option.isSome_map] at hsome
  have houtside : ∀ q, sshForm.Outside q →
      (applyOps S t (sshForm.queued (shown t) (vs ++ [v])).ops).store q = t.store q := by
    intro q hq
    rw [hstore]
    exact Form.run_saves_outside hq _ _
  rw [eq_trimmed_iff]
  have hfield : ∀ f ∈ sshForm.fields,
      (f.Shows v (shown (applyOps S t (sshForm.queued (shown t) (vs ++ [v])).ops)) ↔
        f.SettledBy (shown t) (vs ++ [v]) v) := by
    intro f hf
    refine Field.shows_iff_settledBy (reads_shown h hssh f hf) (reads_shown hresult hkept f hf)
      ?_ (by simp)
    rw [hstore]
    exact Form.run_saves hsingle hf _ _
  constructor
  · intro hall f hf
    exact (hfield f hf).mp (hall.1 f hf)
  · intro hall
    exact ⟨fun f hf => (hfield f hf).mpr (hall f hf), houtside⟩

/-- SSH with its log level set and nothing else. -/
def verboseSsh : ConfigTree :=
  .node [("service", .node [("ssh", .node [("loglevel", .leaf "verbose")])])]

/-- A log level and a rekey time are saved, then another log level and a key, with blanks around its
name: the commit leaves what the second Save shows, without them. -/
theorem verboseSsh_saved_twice :
    let noisy := { shown verboseSsh with loglevel := "info", rekeyTime := "60" }
    let quiet := { noisy with loglevel := "quiet", trustedUserCA := " ca " }
    sshForm.SingleIn ⟨fun _ => false⟩ ∧
      shown (applyOps ⟨fun _ => false⟩ verboseSsh (saveAll verboseSsh [noisy, quiet]).ops) =
        { shown verboseSsh with loglevel := "quiet", rekeyTime := "60", trustedUserCA := "ca" } := by
  intro noisy quiet
  have hsingle : sshForm.SingleIn ⟨fun _ => false⟩ := by
    intro f hf
    cases f <;> trivial
  have hsettled : ∀ f ∈ sshForm.fields,
      f.SettledBy (shown verboseSsh) ([noisy] ++ [quiet]) quiet := by
    intro f hf
    simp only [sshForm, flagFields, scalarFields, List.cons_append, List.nil_append,
      List.mem_cons, List.not_mem_nil, or_false] at hf
    rcases hf with rfl | rfl | rfl | rfl | rfl | rfl | rfl | rfl | rfl | rfl | rfl | rfl <;>
      trivial
  have hshown := ((lastSave_wins_iff _ (by decide : verboseSsh.WellFormed) rfl hsingle [noisy]
    quiet).mpr hsettled).1
  exact ⟨hsingle, hshown.trans (by decide)⟩

/-- The log level is changed and saved, then put back and saved again. -/
theorem verboseSsh_put_back :
    shown (applyOps ⟨fun _ => false⟩ verboseSsh
        (saveAll verboseSsh [{ shown verboseSsh with loglevel := "quiet" }, shown verboseSsh]).ops) ≠
      (shown verboseSsh).trimmed := by
  decide

end VyosClient.ServiceSsh
