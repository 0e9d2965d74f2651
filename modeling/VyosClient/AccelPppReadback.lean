import VyosClient.AccelPppForm
import VyosClient.FormTables
import VyosClient.TreeKeys

/-!
The settings form of an accel-ppp server against its parser, for the three kinds of
server alike. Each field of the kind is read from the path it is stored under. The
protocols are a list of values and the secrets are never read back, so both are
followed beside the fields.
-/

namespace VyosClient.AccelPppReadback

open PathStore ConfigTrees Configure FormDiff FormTables AccelPpp AccelPppForm

theorem paths_settings (kind : AccelPppKind) :
    ((flagFields kind ++ scalarFields kind).map Field.path).Pairwise Apart ∧
      ∀ p ∈ (flagFields kind ++ scalarFields kind).map Field.path,
        p ≠ [] ∧ ∀ k ∈ p, ' ' ∉ k.toList := by
  cases kind <;> decide +kernel

/-- The fields that are compared one by one. -/
def settingsForm (kind : AccelPppKind) : Form AccelPppSettingsFormValues where
  fields := flagFields kind ++ scalarFields kind
  apart := List.pairwise_map.mp (paths_settings kind).1
  distinct := by
    have htexts := joined_nodup (paths_settings kind).1 (paths_settings kind).2
    rwa [List.map_map] at htexts
  named f hf := ((paths_settings kind).2 f.path (List.mem_map_of_mem hf)).1

/-- The secrets of a server. They can be typed but are never shown. -/
def secretFields (kind : AccelPppKind) : List ((AccelPppSettingsFormValues → String) × Path) :=
  if kind = .l2tp then
    [((·.hasIpsecPresharedSecret), l2tpIpsecAuthPath ["pre-shared-secret"]),
      ((·.hasLnsSharedSecret), l2tpLnsPath ["shared-secret"])]
  else []

def protocolsPath (kind : AccelPppKind) : Path := accelPppAuthPath kind ["protocols"]

/-- What the form writes beside its fields. -/
def besidePaths (kind : AccelPppKind) : List Path :=
  protocolsPath kind :: (secretFields kind).map Prod.snd

/-- The lists of users, RADIUS servers, pools and name servers. -/
def listPaths (kind : AccelPppKind) : List Path :=
  [accelPppAuthPath kind ["local-users"], accelPppAuthPath kind ["radius", "server"],
    accelPppBasePath kind ["client-ip-pool"], accelPppBasePath kind ["client-ipv6-pool"],
    accelPppBasePath kind ["name-server"], accelPppBasePath kind ["wins-server"]]

/-- What belongs to the other kinds: their whole sections, and the leaves and nodes that
only they have. -/
def foreignPaths : AccelPppKind → List Path
  | .l2tp => [accelPppKindPath .pptp [], accelPppKindPath .sstp []] ++
      [["ssl"], ["port"], ["host-name"]].map (accelPppBasePath .l2tp)
  | .pptp => [accelPppKindPath .l2tp [], accelPppKindPath .sstp []] ++
      [["ipsec-settings"], ["lns"], ["ssl"], ["port"], ["host-name"]].map (accelPppBasePath .pptp)
  | .sstp => [accelPppKindPath .l2tp [], accelPppKindPath .pptp []] ++
      [["outside-address"], ["ipsec-settings"], ["lns"]].map (accelPppBasePath .sstp)

theorem apart_settings (kind : AccelPppKind) :
    (∀ p ∈ (settingsForm kind).fields.map Field.path ++ besidePaths kind,
      ∀ q ∈ listPaths kind ++ foreignPaths kind, Apart p q) ∧
    (∀ p ∈ (settingsForm kind).fields.map Field.path, ∀ q ∈ besidePaths kind, Apart p q) ∧
    (besidePaths kind).Pairwise Apart := by
  cases kind <;> decide +kernel

section Reads

variable {kind : AccelPppKind} {t : ConfigTree}

/-- The server of a configuration. -/
def fetchedConfig (kind : AccelPppKind) (t : ConfigTree) : AccelPppConfig :=
  parseAccelPppConfig kind (fetchedSection kind t)

/-- The values of the form when it is opened. -/
def shownSettings (kind : AccelPppKind) (t : ConfigTree) : AccelPppSettingsFormValues :=
  accelPppConfigToSettingsFormValues (fetchedConfig kind t)

theorem enabled_iff : (fetchedConfig kind t).enabled = true ↔
    ∃ root, t.get (accelPppBasePath kind []) = some root := by
  rw [fetchedConfig, enabled_parseAccelPppConfig, ConfigTree.store_apply, Option.isSome_map,
    Option.isSome_iff_exists]

theorem settingsRoot_eq (kind : AccelPppKind) (t : ConfigTree) :
    (if kind = .sstp then fetchedSection kind t
      else child (fetchedSection kind t) "remote-access") =
      t.get (accelPppBasePath kind []) := by
  simp only [fetchedSection, ConfigTree.child_get]
  cases kind <;> rfl

/-! An absent section reads like an empty one. -/

theorem parseRadius_eq (raw : Unknown) :
    parseRadius raw =
      { accountingInterimInterval :=
          asString (child (child raw "radius") "accounting-interim-interval")
        timeout := asString (child (child raw "radius") "timeout")
        nasIdentifier := asString (child (child raw "radius") "nas-identifier") } := by
  unfold parseRadius
  cases child raw "radius" <;> rfl

theorem parsePppOptions_eq (raw : Unknown) :
    parsePppOptions raw =
      { minMtu := asString (child (child raw "ppp-options") "min-mtu")
        mru := asString (child (child raw "ppp-options") "mru")
        disableCcp := isFlagPresent (child raw "ppp-options") "disable-ccp"
        mppe := asString (child (child raw "ppp-options") "mppe")
        lcpEchoInterval := asString (child (child raw "ppp-options") "lcp-echo-interval")
        lcpEchoFailure := asString (child (child raw "ppp-options") "lcp-echo-failure")
        lcpEchoTimeout := asString (child (child raw "ppp-options") "lcp-echo-timeout")
        ipv4 := asString (child (child raw "ppp-options") "ipv4")
        ipv6 := asString (child (child raw "ppp-options") "ipv6") } := by
  unfold parsePppOptions
  cases child raw "ppp-options" <;> rfl

theorem parseL2tpIpsecSettings_eq (raw : Unknown) :
    parseL2tpIpsecSettings raw =
      { authMode := asString (child (child (child raw "ipsec-settings") "authentication") "mode")
        ikeLifetime := asString (child (child raw "ipsec-settings") "ike-lifetime")
        lifetime := asString (child (child raw "ipsec-settings") "lifetime") } := by
  unfold parseL2tpIpsecSettings
  cases child raw "ipsec-settings" <;> rfl

theorem parseL2tpLns_eq (raw : Unknown) :
    parseL2tpLns raw = { hostName := asString (child (child raw "lns") "host-name") } := by
  unfold parseL2tpLns
  cases child raw "lns" <;> rfl

theorem parseSstpSsl_eq (raw : Unknown) :
    parseSstpSsl raw =
      { caCertificate := asString (child (child raw "ssl") "ca-certificate")
        certificate := asString (child (child raw "ssl") "certificate") } := by
  unfold parseSstpSsl
  cases child raw "ssl" <;> rfl

/-- Each field of the kind is read from where the form stores it. -/
theorem reads_shownSettings (hwf : t.WellFormed)
    (henabled : (fetchedConfig kind t).enabled = true) :
    ∀ f ∈ (settingsForm kind).fields, f.Reads (shownSettings kind t) (t.store f.path) := by
  obtain ⟨root, hroot⟩ := enabled_iff.mp henabled
  simp only [shownSettings, fetchedConfig, parseAccelPppConfig, settingsRoot_eq, hroot]
  rw [← hroot]
  cases kind <;>
    simp [accelPppConfigToSettingsFormValues, parseAuthentication, parseRadius_eq,
      parsePppOptions_eq, parseLimits, parseExtendedScripts, parseL2tpIpsecSettings_eq,
      parseL2tpLns_eq, parseSstpSsl_eq, ConfigTree.child_get, isFlagPresent_get, asString_get hwf,
      settingsForm, flagFields, scalarFields, FormDiff.Field.Reads, Field.path, accelPppBasePath,
      accelPppKindPath, accelPppAuthPath, l2tpIpsecAuthPath, l2tpIpsecSettingsPath, l2tpLnsPath,
      sstpSslPath]

end Reads

/-! The values of a leaf after several are set and others are deleted. -/

section Values

variable {S : Schema} {p : Path}

theorem getD_dropValue (v : String) (x : Slot String) :
    (dropValue v x).getD [] = (x.getD []).filter (· ≠ v) := by
  cases x with
  | none => rfl
  | some vs =>
    simp only [dropValue, Option.getD_some]
    split_ifs with h
    · exact h.2.symm
    · rfl

theorem mem_actOp_set (hmulti : S.multi p = true) (v : String) (x : Slot String) (n : String) :
    n ∈ (actOp S p x ⟨.set, p, some v⟩).getD [] ↔ n ∈ x.getD [] ∨ n = v ∧ n ≠ "" := by
  by_cases hv : v = ""
  · subst hv
    have hset : actOp S p x ⟨.set, p, some ""⟩ = some (x.getD []) := by
      simp [actOp, ConfigOp.toEdit, ConfigOp.sent, Option.filter, act]
    rw [hset, Option.getD_some]
    exact (or_iff_left fun h => h.2 h.1).symm
  · rw [actOp_set_value S p x hv, if_pos hmulti, Option.getD_some]
    unfold addValue
    split_ifs with hmem
    · refine ⟨Or.inl, fun h => h.elim id fun hn => ?_⟩
      rw [hn.1]
      exact hmem
    · rw [List.mem_append, List.mem_singleton]
      refine or_congr_right ⟨fun hn => ⟨hn, ?_⟩, And.left⟩
      rw [hn]
      exact hv

theorem mem_foldl_sets (hmulti : S.multi p = true) (vs : List String) (x : Slot String)
    (n : String) :
    n ∈ ((vs.map fun v => (⟨.set, p, some v⟩ : ConfigOp)).foldl (actOp S p) x).getD [] ↔
      n ∈ x.getD [] ∨ n ∈ vs ∧ n ≠ "" := by
  induction vs generalizing x with
  | nil => simp
  | cons v vs ih =>
    rw [List.map_cons, List.foldl_cons, ih, mem_actOp_set hmulti, List.mem_cons]
    tauto

theorem mem_foldl_deletes (hp : p ≠ []) {vs : List String} (hvs : "" ∉ vs) (x : Slot String)
    (n : String) :
    n ∈ ((vs.map fun v => (⟨.delete, p, some v⟩ : ConfigOp)).foldl (actOp S p) x).getD [] ↔
      n ∈ x.getD [] ∧ n ∉ vs := by
  induction vs generalizing x with
  | nil => simp
  | cons v vs ih =>
    obtain ⟨hv, hvs⟩ := not_or.mp (mt List.mem_cons.mpr hvs)
    have hdelete : actOp S p x ⟨.delete, p, some v⟩ = dropValue v x := by
      simp [actOp, ConfigOp.toEdit, ConfigOp.sent, Option.filter, act, hp, Ne.symm hv]
    rw [List.map_cons, List.foldl_cons, ih hvs, hdelete, getD_dropValue, List.mem_filter,
      List.mem_cons, not_or, and_assoc, decide_eq_true_eq]

/-- The values of the leaf become the new ones; an empty one is none. -/
theorem mem_multiValueDiffOps (hmulti : S.multi p = true) (hp : p ≠ []) {x : Slot String}
    (hx : "" ∉ x.getD []) (newValues : List String) (n : String) :
    n ∈ ((multiValueDiffOps p (x.getD []) newValues).foldl (actOp S p) x).getD [] ↔
      n ∈ newValues ∧ n ≠ "" := by
  have hgone : "" ∉ (x.getD []).eraseDups.filter (· ∉ newValues) := by
    intro hmem
    exact hx (List.mem_eraseDups.mp (List.mem_of_mem_filter hmem))
  unfold multiValueDiffOps
  rw [List.foldl_append, mem_foldl_deletes hp hgone, mem_foldl_sets hmulti]
  simp only [List.mem_filter, List.mem_eraseDups, decide_eq_true_eq]
  by_cases hold : n ∈ x.getD []
  · have hne : n ≠ "" := fun h => hx (h ▸ hold)
    simp [hold, hne]
  · simp [hold]

end Values

section Submission

variable {S : Schema} {kind : AccelPppKind} {t : ConfigTree}
  {values : AccelPppSettingsFormValues}

/-- The configuration after the operations of a submission. -/
def applied (S : Schema) (kind : AccelPppKind) (t : ConfigTree)
    (values : AccelPppSettingsFormValues) : ConfigTree :=
  applyOps S t (accelPppSettingsFormToOps kind (fetchedConfig kind t) values)

def protocolOps (kind : AccelPppKind) (oldValues newValues : List String) : List ConfigOp :=
  if newValues = [] ∧ oldValues ≠ [] then [⟨.delete, protocolsPath kind, none⟩]
  else multiValueDiffOps (protocolsPath kind) oldValues newValues

def secretOps (kind : AccelPppKind) (values : AccelPppSettingsFormValues) : List ConfigOp :=
  (secretFields kind).flatMap fun f => setTyped f.2 (f.1 values)

/-- What a submission queues beside the fields. -/
def besideOps (kind : AccelPppKind) (before values : AccelPppSettingsFormValues) :
    List ConfigOp :=
  protocolOps kind before.authProtocols values.authProtocols ++ secretOps kind values

theorem ops_eq (kind : AccelPppKind) (t : ConfigTree) (values : AccelPppSettingsFormValues) :
    accelPppSettingsFormToOps kind (fetchedConfig kind t) values =
      (settingsForm kind).diff (shownSettings kind t) values ++
        besideOps kind (shownSettings kind t) values := by
  have hsecrets : secretOps kind values =
      if kind = .l2tp then
        setTyped (l2tpIpsecAuthPath ["pre-shared-secret"]) values.hasIpsecPresharedSecret ++
          setTyped (l2tpLnsPath ["shared-secret"]) values.hasLnsSharedSecret
      else [] := by
    cases kind <;> simp [secretOps, secretFields]
  rw [besideOps, hsecrets, ← List.append_assoc]
  rfl

theorem path_of_mem_setTyped {p : Path} {v : String} {o : ConfigOp} (h : o ∈ setTyped p v) :
    o.path = p := by
  unfold setTyped at h
  split_ifs at h
  · exact absurd h List.not_mem_nil
  · rw [List.mem_singleton.mp h]

theorem path_of_mem_protocolOps {oldValues newValues : List String} {o : ConfigOp}
    (h : o ∈ protocolOps kind oldValues newValues) : o.path = protocolsPath kind := by
  unfold protocolOps at h
  split_ifs at h
  · rw [List.mem_singleton.mp h]
  · rcases List.mem_append.mp h with h | h
    · obtain ⟨v, _, rfl⟩ := List.mem_map.mp h
      rfl
    · obtain ⟨v, _, rfl⟩ := List.mem_map.mp h
      rfl

theorem path_of_mem_secretOps {o : ConfigOp} (h : o ∈ secretOps kind values) :
    o.path ∈ (secretFields kind).map Prod.snd := by
  obtain ⟨f, hf, ho⟩ := List.mem_flatMap.mp h
  rw [path_of_mem_setTyped ho]
  exact List.mem_map_of_mem hf

theorem path_of_mem_besideOps {before : AccelPppSettingsFormValues} {o : ConfigOp}
    (h : o ∈ besideOps kind before values) : o.path ∈ besidePaths kind := by
  rcases List.mem_append.mp h with h | h
  · rw [path_of_mem_protocolOps h]
    exact List.mem_cons_self
  · exact List.mem_cons_of_mem _ (path_of_mem_secretOps h)

/-- Every operation names a field, the protocols or a secret. -/
theorem path_of_mem_ops {o : ConfigOp}
    (h : o ∈ accelPppSettingsFormToOps kind (fetchedConfig kind t) values) :
    o.path ∈ (settingsForm kind).fields.map Field.path ++ besidePaths kind := by
  rw [ops_eq] at h
  rcases List.mem_append.mp h with h | h
  · obtain ⟨f, hf, ho⟩ := Form.mem_diff.mp h
    rw [Field.path_of_mem_diff ho]
    exact List.mem_append_left _ (List.mem_map_of_mem hf)
  · exact List.mem_append_right _ (path_of_mem_besideOps h)

theorem wellFormed_applied (hwf : t.WellFormed) : (applied S kind t values).WellFormed :=
  WellFormed.applyOps hwf S _

theorem store_applied (S : Schema) (kind : AccelPppKind) (t : ConfigTree)
    (values : AccelPppSettingsFormValues) :
    (applied S kind t values).store = run S.multi t.store
      (edits ((settingsForm kind).diff (shownSettings kind t) values ++
        besideOps kind (shownSettings kind t) values)) := by
  rw [applied, store_applyOps, ops_eq]

theorem enabled_applied (henabled : (fetchedConfig kind t).enabled = true) :
    (fetchedConfig kind (applied S kind t values)).enabled = true := by
  rw [fetchedConfig, enabled_parseAccelPppConfig] at henabled ⊢
  rw [applied, store_applyOps]
  apply isSome_run_edits_above S (fun o ho => ?_) henabled
  exact (below_of_mem_settingsForm ho).isPrefix

theorem slot_field (hsingle : (settingsForm kind).SingleIn S)
    {f : FormDiff.Field AccelPppSettingsFormValues} (hf : f ∈ (settingsForm kind).fields) :
    (applied S kind t values).store f.path =
      if f.Same (shownSettings kind t) values then t.store f.path
      else f.outcome values (t.store f.path) := by
  rw [store_applied]
  apply Form.run_diff_append (hsingle f hf) hf
  intro o ho
  exact ((apart_settings kind).2.1 f.path (List.mem_map_of_mem hf) o.path
    (path_of_mem_besideOps ho)).symm

/-- Beside the fields only the operations beside them count. -/
theorem slot_beside (S : Schema) {q : Path} (hq : q ∈ besidePaths kind) :
    (applied S kind t values).store q =
      (secretOps kind values).foldl (actOp S q)
        ((protocolOps kind (shownSettings kind t).authProtocols values.authProtocols).foldl
          (actOp S q) (t.store q)) := by
  have houtside : (settingsForm kind).Outside q := by
    intro f hf
    exact (apart_settings kind).2.1 f.path (List.mem_map_of_mem hf) q hq
  rw [store_applied, Form.run_diff_append_outside S houtside, run_edits_apply, besideOps,
    List.foldl_append]

theorem protocols_shownSettings (henabled : (fetchedConfig kind t).enabled = true) :
    (shownSettings kind t).authProtocols = (t.store (protocolsPath kind)).getD [] := by
  obtain ⟨root, hroot⟩ := enabled_iff.mp henabled
  simp only [shownSettings, fetchedConfig, parseAccelPppConfig, settingsRoot_eq, hroot]
  rw [← hroot]
  show asStringArray (child (child (t.get (accelPppBasePath kind [])) "authentication")
    "protocols") = _
  rw [ConfigTree.child_get, ConfigTree.child_get, asStringArray_get, protocolsPath,
    accelPppAuthPath, accelPppBasePath_append kind ["authentication", "protocols"], List.append_assoc]
  rfl

/-- The protocols are those of the form; an empty name is none. -/
theorem mem_protocols_applied (henabled : (fetchedConfig kind t).enabled = true)
    (hmulti : S.multi (protocolsPath kind) = true)
    (hvalued : "" ∉ (shownSettings kind t).authProtocols) (name : String) :
    name ∈ (shownSettings kind (applied S kind t values)).authProtocols ↔
      name ∈ values.authProtocols ∧ name ≠ "" := by
  have hpath : protocolsPath kind ≠ [] := by cases kind <;> decide
  have hsecrets : ∀ x, (secretOps kind values).foldl (actOp S (protocolsPath kind)) x = x := by
    intro x
    apply foldl_actOp_of_forall
    intro o ho
    have hpairs := (apart_settings kind).2.2
    exact actOp_of_apart S ((List.pairwise_cons.mp hpairs).1 _ (path_of_mem_secretOps ho)).symm x
  rw [protocols_shownSettings (enabled_applied henabled), slot_beside S List.mem_cons_self,
    hsecrets]
  rw [protocols_shownSettings henabled] at hvalued ⊢
  unfold protocolOps
  split_ifs with hcleared
  · rw [List.foldl_cons, List.foldl_nil, actOp_delete S hpath, if_pos (List.prefix_refl _),
      hcleared.1]
    simp
  · exact mem_multiValueDiffOps hmulti hpath hvalued values.authProtocols name

theorem foldl_setTyped {p : Path} (hsingle : S.multi p = false) (v : String) (x : Slot String) :
    (setTyped p v).foldl (actOp S p) x = if trim v = "" then x else some [trim v] := by
  unfold setTyped
  split_ifs with hblank
  · rfl
  · rw [List.foldl_cons, List.foldl_nil, actOp_set_value S p x hblank, hsingle]
    rfl

theorem foldl_typed_of_apart {fields : List ((AccelPppSettingsFormValues → String) × Path)}
    {q : Path} (h : ∀ g ∈ fields, Apart g.2 q) (x : Slot String) :
    (fields.flatMap fun g => setTyped g.2 (g.1 values)).foldl (actOp S q) x = x := by
  apply foldl_actOp_of_forall
  intro o ho
  obtain ⟨g, hg, ho⟩ := List.mem_flatMap.mp ho
  apply actOp_of_apart S
  rw [path_of_mem_setTyped ho]
  exact h g hg

/-- A secret is what was typed, or stays what it was. -/
theorem slot_secret {f : (AccelPppSettingsFormValues → String) × Path} (hf : f ∈ secretFields kind)
    (hsingle : S.multi f.2 = false) :
    (applied S kind t values).store f.2 =
      if trim (f.1 values) = "" then t.store f.2 else some [trim (f.1 values)] := by
  have hmem : f.2 ∈ (secretFields kind).map Prod.snd := List.mem_map_of_mem hf
  have hpairs := List.pairwise_cons.mp (apart_settings kind).2.2
  have hprotocols : ∀ x, (protocolOps kind (shownSettings kind t).authProtocols
      values.authProtocols).foldl (actOp S f.2) x = x := by
    intro x
    apply foldl_actOp_of_forall
    intro o ho
    apply actOp_of_apart S
    rw [path_of_mem_protocolOps ho]
    exact hpairs.1 f.2 hmem
  rw [slot_beside S (List.mem_cons_of_mem _ hmem), hprotocols]
  unfold secretOps
  obtain ⟨pre, post, hsplit⟩ := List.append_of_mem hf
  have hsecrets := hpairs.2
  rw [hsplit, List.map_append, List.map_cons, List.pairwise_append, List.pairwise_cons] at hsecrets
  obtain ⟨_, ⟨hpost, _⟩, hpre⟩ := hsecrets
  have hleft : ∀ g ∈ pre, Apart g.2 f.2 :=
    fun g hg => hpre g.2 (List.mem_map_of_mem hg) f.2 List.mem_cons_self
  have hright : ∀ g ∈ post, Apart g.2 f.2 :=
    fun g hg => (hpost g.2 (List.mem_map_of_mem hg)).symm
  rw [hsplit, List.flatMap_append, List.flatMap_cons, List.foldl_append, List.foldl_append,
    foldl_typed_of_apart hleft, foldl_typed_of_apart hright, foldl_setTyped hsingle]

/-- What VyOS takes at the leaves of the form: one value for each text and each secret,
several protocols. -/
structure TakesSettings (S : Schema) (kind : AccelPppKind) : Prop where
  texts : (settingsForm kind).SingleIn S
  secrets : ∀ f ∈ secretFields kind, S.multi f.2 = false
  protocols : S.multi (protocolsPath kind) = true

/-- What a submission of the settings does to a configuration. -/
structure SettingsReplaced (kind : AccelPppKind) (t t' : ConfigTree)
    (values : AccelPppSettingsFormValues) : Prop where
  enabled : (fetchedConfig kind t').enabled = true
  fields : ∀ f ∈ (settingsForm kind).fields,
    FormTables.Field.Saved (shownSettings kind t) values (shownSettings kind t') f
  protocols : ∀ name, name ∈ (shownSettings kind t').authProtocols ↔
    name ∈ values.authProtocols ∧ name ≠ ""
  secrets : ∀ f ∈ secretFields kind, t'.store f.2 =
    if trim (f.1 values) = "" then t.store f.2 else some [trim (f.1 values)]
  lists : ∀ q ∈ listPaths kind, t'.get q = t.get q
  foreign : ∀ q ∈ foreignPaths kind, t'.get q = t.get q
  untouched : Untouched (fun p => p ∈ besidePaths kind ∨
    Form.Changed (settingsForm kind) (shownSettings kind t) values p) t.store t'.store

/-- After a submission the page shows each setting of the kind as it was entered: an edited
text without the blanks around it, the others as they were fetched. -/
theorem applied_replaces_settings (S : Schema) (kind : AccelPppKind) (t : ConfigTree)
    (values : AccelPppSettingsFormValues) (hwf : t.WellFormed)
    (henabled : (fetchedConfig kind t).enabled = true) (htakes : TakesSettings S kind)
    (hvalued : "" ∉ (shownSettings kind t).authProtocols) :
    SettingsReplaced kind t (applied S kind t values) values := by
  have henabled' : (fetchedConfig kind (applied S kind t values)).enabled = true :=
    enabled_applied henabled
  have hkept : ∀ q ∈ listPaths kind ++ foreignPaths kind,
      (applied S kind t values).get q = t.get q := by
    intro q hq
    apply TreeKeys.get_applyOps_of_apart
    intro o ho
    exact (apart_settings kind).1 o.path (path_of_mem_ops ho) q hq
  refine ⟨henabled', ?_, mem_protocols_applied henabled htakes.protocols hvalued, ?_,
    fun q hq => hkept q (List.mem_append_left _ hq),
    fun q hq => hkept q (List.mem_append_right _ hq), ?_⟩
  · intro f hf
    exact FormTables.Field.saved_of_slot (slot_field htakes.texts hf)
      (reads_shownSettings hwf henabled f hf)
      (reads_shownSettings (wellFormed_applied hwf) henabled' f hf)
  · intro f hf
    exact slot_secret hf (htakes.secrets f hf)
  · rw [store_applied]
    apply (untouched_run S _ t.store).mono
    rintro p ⟨o, ho, rfl⟩
    rcases List.mem_append.mp ho with ho | ho
    · exact .inr (Form.changed_of_mem_diff ho)
    · exact .inl (path_of_mem_besideOps ho)

end Submission

/-- An L2TP server with a stored secret and a protocol. -/
def l2tpServer (description : String) : ConfigTree :=
  .node [("vpn", .node [("l2tp", .node [("remote-access", .node
    [("description", .leaf description),
      ("authentication", .node [("protocols", .leaf "chap")]),
      ("lns", .node [("shared-secret", .leaf "stored")])])])])]

/-- Only the protocols of VyOS take several values here. -/
def protocolSchema (kind : AccelPppKind) : Schema := ⟨fun p => p = protocolsPath kind⟩

theorem takesSettings_protocolSchema (kind : AccelPppKind) :
    TakesSettings (protocolSchema kind) kind := by
  have hne : ∀ p, Apart p (protocolsPath kind) → (protocolSchema kind).multi p = false := by
    intro p hp
    apply decide_eq_false
    rintro rfl
    exact hp.1 (List.prefix_refl _)
  refine ⟨?_, ?_, by simp [protocolSchema]⟩
  · intro f hf
    have hapart := (apart_settings kind).2.1 f.path (List.mem_map_of_mem hf) _ List.mem_cons_self
    cases f with
    | text get p => exact hne p hapart
    | flag get p => trivial
  · intro f hf
    have hpairs := List.pairwise_cons.mp (apart_settings kind).2.2
    exact hne f.2 (hpairs.1 f.2 (List.mem_map_of_mem hf)).symm

/-- A new secret is stored without the blanks around it, and the protocols are exchanged. -/
theorem l2tpServer_replaced :
    let values := { shownSettings .l2tp (l2tpServer "office") with
      authProtocols := ["pap"], hasLnsSharedSecret := " typed " }
    let t' := applied (protocolSchema .l2tp) .l2tp (l2tpServer "office") values
    (∀ name, name ∈ (shownSettings .l2tp t').authProtocols ↔ name ∈ ["pap"] ∧ name ≠ "") ∧
      t'.store (l2tpLnsPath ["shared-secret"]) = some ["typed"] := by
  intro values t'
  have hreplaced := applied_replaces_settings (protocolSchema .l2tp) .l2tp (l2tpServer "office")
    values (by decide) (by decide +kernel) (takesSettings_protocolSchema .l2tp) (by decide +kernel)
  refine ⟨hreplaced.protocols, ?_⟩
  have hsecret := hreplaced.secrets ((·.hasLnsSharedSecret), l2tpLnsPath ["shared-secret"])
    (List.mem_cons_of_mem _ List.mem_cons_self)
  have htrim : trim " typed " = "typed" := by decide +kernel
  simpa [values, htrim] using hsecret

/-- A description that was fetched with blanks around it keeps them when it is not edited, and
an empty protocol name is not stored. -/
theorem l2tpServer_keeps_blanks :
    let fetched := l2tpServer " office "
    let values := shownSettings .l2tp fetched
    let named := { values with authProtocols := [""] }
    fetched.WellFormed ∧ (fetchedConfig .l2tp fetched).enabled = true ∧
      (shownSettings .l2tp (applied (protocolSchema .l2tp) .l2tp fetched values)).description ≠
        trim values.description ∧
      "" ∉ (shownSettings .l2tp
        (applied (protocolSchema .l2tp) .l2tp fetched named)).authProtocols := by
  decide +kernel

end VyosClient.AccelPppReadback
