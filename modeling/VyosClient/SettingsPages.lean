import VyosClient.ConfigApi
import VyosClient.FormTables
import VyosClient.MaskTree

/-!
The settings pages of the frontend whose forms are plain tables of fields. Each
page parses its section of the masked configuration, shows it in a form, and
queues on every Save the operations for the fields that differ from what was
fetched. A session saves any of the pages in any order; its queue goes through
the backend to the router, and the pages are parsed again.
-/

namespace VyosClient.SettingsPages

open PathStore ConfigTrees ConfigTree Configure PendingChanges PendingChangesState FormDiff
open ConfigApi Mask MaskTree

inductive Kind
  | text
  | flag
deriving DecidableEq, Repr

/-- A property of the form values, and where it is stored below the section. -/
structure Entry where
  name : String
  kind : Kind
  segments : Path
deriving DecidableEq, Repr

structure Page where
  root : Path
  entries : List Entry
deriving DecidableEq, Repr

/-- The form values of a page, by property. -/
structure FormValues where
  text : String → String
  flag : String → Bool

def descend (node : Unknown) (segments : Path) : Unknown := segments.foldl child node

def isFlagAt (node : Unknown) (segments : Path) : Bool :=
  isFlagPresent (descend node segments.dropLast) (segments.getLast?.getD "")

namespace Page

variable (page : Page)

/-- The properties of a name have one entry. -/
def entry (name : String) : Option Entry := page.entries.find? (·.name = name)

/-- The parsed section, as form values. -/
def toFormValues (node : Unknown) : FormValues where
  text name := match page.entry name with
    | some e => (asString (descend node e.segments)).getD ""
    | none => ""
  flag name := match page.entry name with
    | some e => isFlagAt node e.segments
    | none => false

def field (e : Entry) : FormDiff.Field FormValues :=
  match e.kind with
  | .text => .text (·.text e.name) (page.root ++ e.segments)
  | .flag => .flag (·.flag e.name) (page.root ++ e.segments)

/-- The operations of a Save, in the order of the entries. -/
def formToOps (before values : FormValues) : List ConfigOp :=
  page.entries.flatMap fun e => (page.field e).diff before values

end Page

section Pages

def text (name : String) (segments : Path) : Entry := ⟨name, .text, segments⟩

def flag (name : String) (segments : Path) : Entry := ⟨name, .flag, segments⟩

/-- `generalFormToOps`. -/
def systemGeneral : Page where
  root := ["system"]
  entries := [text "hostName" ["host-name"], text "domainName" ["domain-name"],
    text "timeZone" ["time-zone"]]

/-- `x509DefaultsFormToOps`. -/
def x509Defaults : Page where
  root := ["pki", "x509", "default"]
  entries := [text "country" ["country"], text "state" ["state"], text "locality" ["locality"],
    text "organization" ["organization"]]

/-- `lldpGeneralFormToOps`. -/
def lldpGeneral : Page where
  root := ["service", "lldp"]
  entries := [flag "legacyCdp" ["legacy-protocols", "cdp"],
    flag "legacyEdp" ["legacy-protocols", "edp"], flag "legacyFdp" ["legacy-protocols", "fdp"],
    flag "legacySonmp" ["legacy-protocols", "sonmp"], flag "snmp" ["snmp"]]

/-- `mdnsRepeaterFormToOps`. -/
def mdnsRepeater : Page where
  root := ["service", "mdns", "repeater"]
  entries := [flag "disabled" ["disable"], flag "vrrpDisable" ["vrrp-disable"],
    text "ipVersion" ["ip-version"], text "cacheEntries" ["cache-entries"]]

/-- `tftpServerFormToOps`. -/
def tftpServer : Page where
  root := ["service", "tftp-server"]
  entries := [text "directory" ["directory"], flag "allowUpload" ["allow-upload"],
    text "port" ["port"]]

/-- `ntpGeneralFormToOps`. -/
def ntpGeneral : Page where
  root := ["service", "ntp"]
  entries := [text "interface" ["interface"], text "sourceInterface" ["source-interface"],
    text "vrf" ["vrf"], text "leapSecond" ["leap-second"], text "localStratum" ["local-stratum"]]

/-- `dnsForwardingSettingsFormToOps`. -/
def dnsForwarding : Page where
  root := ["service", "dns", "forwarding"]
  entries := [flag "ignoreHostsFile" ["ignore-hosts-file"],
    flag "noServeRfc1918" ["no-serve-rfc1918"], flag "useSystemNameServers" ["system"],
    text "cacheSize" ["cache-size"], text "dnssec" ["dnssec"],
    text "negativeTtl" ["negative-ttl"], text "port" ["port"]]

/-- `snmpSettingsFormToOps`. -/
def snmpSettings : Page where
  root := ["service", "snmp"]
  entries := [text "contact" ["contact"], text "location" ["location"],
    text "description" ["description"], text "trapSource" ["trap-source"],
    text "protocol" ["protocol"]]

/-- `dhcpRelaySettingsFormToOps`. -/
def dhcpRelay : Page where
  root := ["service", "dhcp-relay"]
  entries := [flag "disabled" ["disable"], text "hopCount" ["relay-options", "hop-count"],
    text "maxSize" ["relay-options", "max-size"],
    text "relayAgentsPackets" ["relay-options", "relay-agents-packets"]]

/-- `dhcpv6RelaySettingsFormToOps`. -/
def dhcpv6Relay : Page where
  root := ["service", "dhcpv6-relay"]
  entries := [flag "disabled" ["disable"], flag "useInterfaceIdOption" ["use-interface-id-option"],
    text "maxHopCount" ["max-hop-count"]]

/-- `dhcpv6GlobalFormToOps`. -/
def dhcpv6Server : Page where
  root := ["service", "dhcpv6-server"]
  entries := [flag "disabled" ["disable"],
    flag "disableRouteAutoinstall" ["disable-route-autoinstall"],
    text "preference" ["preference"], text "logLevel" ["log-level"]]

/-- `ndpProxyGlobalFormToOps`. -/
def ndpProxy : Page where
  root := ["service", "ndp-proxy"]
  entries := [text "routeRefresh" ["route-refresh"]]

/-- `nodeExporterFormToOps`. -/
def nodeExporter : Page where
  root := ["service", "monitoring", "prometheus", "node-exporter"]
  entries := [flag "collectTextfile" ["collectors", "textfile"], text "port" ["port"],
    text "vrf" ["vrf"]]

/-- `frrExporterFormToOps`. -/
def frrExporter : Page where
  root := ["service", "monitoring", "prometheus", "frr-exporter"]
  entries := [
    flag "collectBgpAcceptFilteredPrefixes" ["collector", "bgp", "accept-filtered-prefixes"],
    flag "collectBgpAdvertisedPrefixes" ["collector", "bgp", "advertised-prefixes"],
    flag "collectBgpPeerGroup" ["collector", "bgp", "peer-group"],
    flag "collectBgpPeerHostname" ["collector", "bgp", "peer-hostname"],
    flag "collectBgpPeerType" ["collector", "bgp", "peer-type"],
    flag "collectBgpL2Vpn" ["collector", "bgp-l2-vpn"],
    flag "collectPim" ["collector", "pim"],
    flag "collectDetailedRoutes" ["collector", "detailed-routes"],
    text "port" ["port"], text "vrf" ["vrf"],
    text "collectBgpPeerDescription" ["collector", "bgp", "peer-description"]]

/-- `networkEventFormToOps`. -/
def networkEvent : Page where
  root := ["service", "monitoring", "network-event"]
  entries := [flag "eventRoute" ["event", "route"], flag "eventLink" ["event", "link"],
    flag "eventAddr" ["event", "addr"], flag "eventNeigh" ["event", "neigh"],
    flag "eventRule" ["event", "rule"], text "queueSize" ["queue-size"],
    text "logLevel" ["log-level"]]

/-- `globalFormToOps` of BGP. -/
def bgpGlobal : Page where
  root := ["protocols", "bgp"]
  entries := [text "systemAs" ["system-as"], text "routerId" ["parameters", "router-id"]]

/-- The fields of the OSPF form for both protocols; the name of the protocol is in the paths too. -/
def ospfEntries (protocol : String) : List Entry :=
  [text "routerId" ["parameters", "router-id"],
    text "autoCostReferenceBandwidth" ["auto-cost", "reference-bandwidth"],
    text "distanceGlobal" ["distance", "global"],
    text "distanceExternal" ["distance", protocol, "external"],
    text "distanceInterArea" ["distance", protocol, "inter-area"],
    text "distanceIntraArea" ["distance", protocol, "intra-area"],
    text "defaultInformationOriginateMetric" ["default-information", "originate", "metric"],
    text "defaultInformationOriginateMetricType"
      ["default-information", "originate", "metric-type"],
    flag "defaultInformationOriginateAlways" ["default-information", "originate", "always"]]

/-- `globalFormToOps` of OSPFv2, which has a default metric. -/
def ospfGlobal : Page where
  root := ["protocols", "ospf"]
  entries := ospfEntries "ospf" ++ [text "defaultMetric" ["default-metric"]]

/-- `globalFormToOps` of OSPFv3. -/
def ospfv3Global : Page where
  root := ["protocols", "ospfv3"]
  entries := ospfEntries "ospfv3"

def pages : List Page :=
  [systemGeneral, x509Defaults, lldpGeneral, mdnsRepeater, tftpServer, ntpGeneral, dnsForwarding,
    snmpSettings, dhcpRelay, dhcpv6Relay, dhcpv6Server, ndpProxy, nodeExporter, frrExporter,
    networkEvent, bgpGlobal, ospfGlobal, ospfv3Global]

end Pages

/-- What a page shows of a router: the section arrives masked. -/
def Page.shown (page : Page) (r : Router) : FormValues :=
  page.toFormValues (ConfigHandlers.handleGetConfigTree r.running page.root)

/-- The queue that Saves of the pages build, each against what was fetched of its page. -/
def saveAll (fetched : Page → FormValues) (saves : List (Page × FormValues)) :
    PendingChangesState :=
  saves.foldl (fun s x => s.addAll (x.1.formToOps (fetched x.1) x.2)) .empty

/-- The Saves of one page. -/
def savesOf (page : Page) (saves : List (Page × FormValues)) : List FormValues :=
  (saves.filter (·.1 = page)).map Prod.snd

/-- No entry shares its name with another of its page, and none is stored behind the mask. -/
theorem entry_of_mem : ∀ page ∈ pages, ∀ e ∈ page.entries, page.entry e.name = some e ∧
    e.segments ≠ [] ∧ isMaskedPath (page.root ++ e.segments) = false := by
  decide +kernel

section Reading

variable {t : ConfigTree} {page : Page} {e : Entry}

theorem descend_get (t : ConfigTree) (p segments : Path) :
    descend (t.get p) segments = t.get (p ++ segments) := by
  unfold descend
  induction segments generalizing p with
  | nil => rw [List.foldl_nil, List.append_nil]
  | cons k segments ih =>
    rw [List.foldl_cons, child_get, ih, List.append_assoc]
    rfl

theorem isFlagAt_get (t : ConfigTree) (p : Path) {segments : Path} (h : segments ≠ []) :
    isFlagAt (t.get p) segments = (t.store (p ++ segments)).isSome := by
  unfold isFlagAt
  rw [descend_get, isFlagPresent_get, List.getLast?_eq_some_getLast h, Option.getD_some,
    List.append_assoc, List.dropLast_append_getLast h]

/-- Where nothing is masked, a text is read as it is. -/
theorem asString_tree {p : Path} (h : isMaskedPath p = false) :
    asString ((tree t []).get p) = asString (t.get p) := by
  rw [get_tree, List.nil_append]
  cases t.get p with
  | none => rfl
  | some c => cases c <;> simp [tree, h, asString]

/-- A page shows what is stored, where nothing is masked. -/
theorem shown_eq {r : Router} (hwf : r.running.WellFormed) (hpage : page ∈ pages) :
    page.shown r =
      { text := fun name => match page.entry name with
          | some e => FormTables.readText (r.running.store (page.root ++ e.segments))
          | none => ""
        flag := fun name => match page.entry name with
          | some e => (r.running.store (page.root ++ e.segments)).isSome
          | none => false } := by
  have hmem {name : String} {e : Entry} (h : page.entry name = some e) : e ∈ page.entries :=
    List.mem_of_find?_eq_some h
  have hview := handleGetConfigTree_eq_view r.running page.root
  unfold Page.shown Page.toFormValues
  rw [hview]
  congr 1
  · funext name
    cases hentry : page.entry name with
    | none => rfl
    | some e =>
      obtain ⟨-, -, hmask⟩ := entry_of_mem page hpage e (hmem hentry)
      dsimp only
      rw [descend_get, asString_tree hmask, asString_get hwf]
      rfl
  · funext name
    cases hentry : page.entry name with
    | none => rfl
    | some e =>
      obtain ⟨-, hne, hmask⟩ := entry_of_mem page hpage e (hmem hentry)
      dsimp only
      rw [isFlagAt_get _ _ hne, store_tree_of_not r.running (by simpa using hmask)]

/-- A page reads its fields from the paths they are stored at. -/
theorem reads_shown {r : Router} (hwf : r.running.WellFormed) (hpage : page ∈ pages)
    (he : e ∈ page.entries) :
    (page.field e).Reads (page.shown r) (r.running.store (page.field e).path) := by
  obtain ⟨hentry, -, -⟩ := entry_of_mem page hpage e he
  rw [shown_eq hwf hpage]
  unfold Page.field
  cases e.kind with
  | text =>
    show (match page.entry e.name with | some e => _ | none => "") = _
    rw [hentry]
    rfl
  | flag =>
    show (match page.entry e.name with | some e => _ | none => false) = _
    rw [hentry]
    rfl

end Reading

/-- The forms of all pages as one. -/
abbrev Workbench := Page → FormValues

def Page.onBench (page : Page) (e : Entry) : FormDiff.Field Workbench :=
  match e.kind with
  | .text => .text (fun w => (w page).text e.name) (page.root ++ e.segments)
  | .flag => .flag (fun w => (w page).flag e.name) (page.root ++ e.segments)

def benchFields : List (FormDiff.Field Workbench) :=
  pages.flatMap fun page => page.entries.map page.onBench

/-- Where the fields of all pages are stored. -/
def storedAt : List Path :=
  pages.flatMap fun page => page.entries.map fun e => page.root ++ e.segments

theorem path_field (page : Page) (e : Entry) : (page.field e).path = page.root ++ e.segments := by
  unfold Page.field
  cases e.kind <;> rfl

theorem path_onBench (page : Page) (e : Entry) :
    (page.onBench e).path = page.root ++ e.segments := by
  unfold Page.onBench
  cases e.kind <;> rfl

theorem map_path_benchFields : benchFields.map Field.path = storedAt := by
  unfold benchFields storedAt
  rw [List.map_flatMap]
  refine List.flatMap_congr fun page _ => ?_
  rw [List.map_map]
  exact List.map_congr_left fun e _ => path_onBench page e

/-- The sections of the pages lie apart, and so do the fields of a page. -/
theorem apart_pages : pages.Pairwise (fun page page' => Apart page.root page'.root) ∧
    ∀ page ∈ pages, page.entries.Pairwise fun e e' => Apart e.segments e'.segments := by
  decide +kernel

theorem apart_storedAt : storedAt.Pairwise Apart := by
  obtain ⟨hroots, hentries⟩ := apart_pages
  refine List.pairwise_flatMap.mpr ⟨fun page hpage => ?_, hroots.imp fun {page page'} h => ?_⟩
  · rw [List.pairwise_map]
    exact (hentries page hpage).imp fun {e e'} h => (apart_append_left page.root).mpr h
  · intro p hp q hq
    obtain ⟨e, -, rfl⟩ := List.mem_map.mp hp
    obtain ⟨e', -, rfl⟩ := List.mem_map.mp hq
    exact h.append e.segments e'.segments

theorem words_storedAt : ∀ p ∈ storedAt, p ≠ [] ∧ ∀ k ∈ p, ' ' ∉ k.toList := by
  decide +kernel

/-- The fields of all pages. -/
def workbench : Form Workbench where
  fields := benchFields
  apart := by
    have hpaths := apart_storedAt
    rw [← map_path_benchFields, List.pairwise_map] at hpaths
    exact hpaths
  distinct := by
    have hpaths := FormTables.joined_nodup apart_storedAt words_storedAt
    rwa [← map_path_benchFields, List.map_map] at hpaths
  named := by
    intro f hf
    refine (words_storedAt f.path ?_).1
    rw [← map_path_benchFields]
    exact List.mem_map_of_mem hf

theorem mem_workbench {f : FormDiff.Field Workbench} :
    f ∈ workbench.fields ↔ ∃ page ∈ pages, ∃ e ∈ page.entries, page.onBench e = f := by
  show f ∈ benchFields ↔ _
  simp only [benchFields, List.mem_flatMap, List.mem_map]

section Saves

variable {fetched : Page → FormValues} {page : Page} {values : FormValues}

/-- A Save of one page changes its values on the bench. -/
def benchValues (fetched : Page → FormValues) (x : Page × FormValues) : Workbench :=
  Function.update fetched x.1 x.2

theorem same_onBench_iff (e : Entry) (v w : Workbench) :
    (page.onBench e).Same v w ↔ (page.field e).Same (v page) (w page) := by
  unfold Page.onBench Page.field
  cases e.kind <;> exact Iff.rfl

theorem diff_onBench (e : Entry) (v w : Workbench) :
    (page.onBench e).diff v w = (page.field e).diff (v page) (w page) := by
  unfold Page.onBench Page.field
  cases e.kind <;> rfl

theorem outcome_onBench (e : Entry) (w : Workbench) (x : Slot String) :
    (page.onBench e).outcome w x = (page.field e).outcome (w page) x := by
  unfold Page.onBench Page.field
  cases e.kind <;> rfl

theorem flatMap_eq_of_others {α β : Type*} {l : List α} (hnodup : l.Nodup) {a : α} (ha : a ∈ l)
    {f : α → List β} (h : ∀ b ∈ l, b ≠ a → f b = []) : l.flatMap f = f a := by
  obtain ⟨pre, post, rfl⟩ := List.append_of_mem ha
  have hapart := List.nodup_append.mp hnodup
  have hpre : pre.flatMap f = [] := List.flatMap_eq_nil_iff.mpr fun b hb =>
    h b (List.mem_append_left _ hb) (hapart.2.2 b hb a List.mem_cons_self)
  have hpost : post.flatMap f = [] := List.flatMap_eq_nil_iff.mpr fun b hb =>
    h b (List.mem_append_right _ (List.mem_cons_of_mem a hb))
      (fun heq => (List.nodup_cons.mp hapart.2.1).1 (heq ▸ hb))
  rw [List.flatMap_append, List.flatMap_cons, hpre, hpost, List.nil_append, List.append_nil]

/-- What a Save of one page queues is what the bench queues for it. -/
theorem formToOps_eq (hpage : page ∈ pages) (values : FormValues) :
    page.formToOps (fetched page) values =
      workbench.diff fetched (benchValues fetched (page, values)) := by
  have hnodup : pages.Nodup := by
    refine apart_pages.1.imp fun {page page'} h heq => h.1 ?_
    rw [heq]
  have hbench : workbench.diff fetched (benchValues fetched (page, values)) =
      pages.flatMap fun other => other.entries.flatMap fun e =>
        (other.onBench e).diff fetched (benchValues fetched (page, values)) := by
    show (pages.flatMap fun other => other.entries.map other.onBench).flatMap _ = _
    rw [List.flatMap_assoc]
    exact List.flatMap_congr fun other _ => List.flatMap_map _ _ _
  rw [hbench, flatMap_eq_of_others hnodup hpage]
  · refine List.flatMap_congr fun e _ => ?_
    rw [diff_onBench]
    unfold benchValues
    rw [Function.update_self]
  · intro other _ hne
    refine List.flatMap_eq_nil_iff.mpr fun e _ => ?_
    refine Field.diff_of_same ((same_onBench_iff e _ _).mpr ?_)
    unfold benchValues
    rw [Function.update_of_ne hne]
    exact Field.same_refl _ _

theorem saveAll_eq {saves : List (Page × FormValues)} (hpages : ∀ x ∈ saves, x.1 ∈ pages) :
    saveAll fetched saves = workbench.queued fetched (saves.map (benchValues fetched)) := by
  unfold saveAll Form.queued
  rw [List.foldl_map]
  refine List.foldl_ext _ _ _ fun s x hx => ?_
  rw [formToOps_eq (hpages x hx)]

/-- Of the Saves only those of its own page change a field. -/
theorem changedLast_onBench (e : Entry) (saves : List (Page × FormValues)) :
    ((page.onBench e).changedLast fetched (saves.map (benchValues fetched))).map (· page) =
      (page.field e).changedLast (fetched page) (savesOf page saves) := by
  unfold Field.changedLast savesOf
  rw [← List.getLast?_map]
  congr 1
  induction saves with
  | nil => rfl
  | cons x saves ih =>
    rw [List.map_cons, List.filter_cons, List.filter_cons]
    by_cases hx : x.1 = page
    · subst hx
      have hsame : (x.1.onBench e).Same fetched (benchValues fetched x) ↔
          (x.1.field e).Same (fetched x.1) x.2 := by
        rw [same_onBench_iff]
        unfold benchValues
        rw [Function.update_self]
      rw [if_pos (decide_eq_true rfl), List.map_cons, List.filter_cons]
      by_cases h : (x.1.field e).Same (fetched x.1) x.2
      · rw [if_neg (by simpa using hsame.mpr h), if_neg (by simpa using h)]
        exact ih
      · rw [if_pos (by simpa using fun hb => h (hsame.mp hb)), if_pos (by simpa using h),
          List.map_cons, ih]
        unfold benchValues
        rw [Function.update_self]
    · have hsame : (page.onBench e).Same fetched (benchValues fetched x) := by
        rw [same_onBench_iff]
        unfold benchValues
        rw [Function.update_of_ne fun heq => hx heq.symm]
        exact Field.same_refl _ _
      rw [if_neg (by simpa using hsame), if_neg (by simpa using hx)]
      exact ih

end Saves

/-- VyOS takes one value for every text of the pages. -/
def SingleValues (S : Schema) : Prop :=
  ∀ page ∈ pages, ∀ e ∈ page.entries, (page.field e).SingleIn S

/-- Nobody types the text that stands for a masked value. -/
def FormValues.Typed (values : FormValues) : Prop :=
  ∀ name, trim (values.text name) ≠ maskPlaceholder

section Session

variable {S : Schema} {r : Router} {saves : List (Page × FormValues)}

theorem singleIn_workbench (h : SingleValues S) : workbench.SingleIn S := by
  intro f hf
  obtain ⟨page, hpage, e, he, rfl⟩ := mem_workbench.mp hf
  have hsingle := h page hpage e he
  unfold Page.field at hsingle
  unfold Page.onBench
  cases hkind : e.kind with
  | text =>
    rw [hkind] at hsingle
    exact hsingle
  | flag => trivial

/-- What a field holds when the queue has been applied. -/
theorem store_saveAll (hsingle : SingleValues S) {f : Page → FormValues} (t : ConfigTree)
    (hpages : ∀ x ∈ saves, x.1 ∈ pages) {page : Page} (hpage : page ∈ pages) {e : Entry}
    (he : e ∈ page.entries) :
    (applyOps S t (saveAll f saves).ops).store (page.field e).path =
      match (page.field e).changedLast (f page) (savesOf page saves) with
      | some w => (page.field e).outcome w (t.store (page.field e).path)
      | none => t.store (page.field e).path := by
  have hpath : (page.field e).path = (page.onBench e).path := by
    rw [path_field, path_onBench]
  rw [saveAll_eq hpages, Form.store_queued, hpath,
    Form.run_saves (singleIn_workbench hsingle) (mem_workbench.mpr ⟨page, hpage, e, he, rfl⟩),
    ← changedLast_onBench]
  cases (page.onBench e).changedLast f (saves.map (benchValues f)) with
  | none => rfl
  | some w => exact outcome_onBench e w _

theorem store_saveAll_outside {fetched : Page → FormValues} (t : ConfigTree)
    (hpages : ∀ x ∈ saves, x.1 ∈ pages) {q : Path} (hq : ∀ p ∈ storedAt, Apart p q) :
    (applyOps S t (saveAll fetched saves).ops).store q = t.store q := by
  rw [saveAll_eq hpages, Form.store_queued]
  refine Form.run_saves_outside (fun f hf => hq f.path ?_) _ _
  rw [← map_path_benchFields]
  exact List.mem_map_of_mem hf

/-- What is queued names a field, and sets no placeholder. -/
theorem op_of_saveAll {fetched : Page → FormValues} (htyped : ∀ x ∈ saves, x.2.Typed)
    {o : ConfigOp} (ho : o ∈ (saveAll fetched saves).ops) (hpages : ∀ x ∈ saves, x.1 ∈ pages) :
    o.path ≠ [] ∧ (o.op = .set → o.value ≠ some maskPlaceholder) := by
  have hall (s : PendingChangesState) (xs : List (Page × FormValues)) (hxs : xs ⊆ saves)
      (ho : o ∈ (xs.foldl (fun s x => s.addAll (x.1.formToOps (fetched x.1) x.2)) s).ops) :
      o ∈ s.ops ∨ ∃ x ∈ saves, o ∈ x.1.formToOps (fetched x.1) x.2 := by
    induction xs generalizing s with
    | nil => exact Or.inl ho
    | cons x xs ih =>
      rcases ih _ (List.cons_subset.mp hxs).2 ho with hs | hx
      · rcases List.mem_append.mp (ops_addAll_subset s _ hs) with hs | hx
        · exact Or.inl hs
        · exact Or.inr ⟨x, (List.cons_subset.mp hxs).1, hx⟩
      · exact Or.inr hx
  rcases hall .empty saves (List.Subset.refl _) ho with hempty | ⟨x, hx, ho⟩
  · exact absurd hempty List.not_mem_nil
  · obtain ⟨e, he, ho⟩ := List.mem_flatMap.mp ho
    have hpath := Field.path_of_mem_diff ho
    have hstored : x.1.root ++ e.segments ∈ storedAt :=
      List.mem_flatMap.mpr ⟨x.1, hpages x hx, List.mem_map_of_mem he⟩
    unfold Page.field at ho hpath
    cases hkind : e.kind with
    | text =>
      rw [hkind] at ho hpath
      refine ⟨hpath ▸ (words_storedAt _ hstored).1, fun hset => ?_⟩
      simp only [Field.diff] at ho
      split_ifs at ho
      · exact absurd ho List.not_mem_nil
      · rw [List.mem_singleton.mp ho] at hset
        cases hset
      · rw [List.mem_singleton.mp ho]
        exact fun heq => htyped x hx e.name (Option.some.inj heq)
    | flag =>
      rw [hkind] at ho hpath
      refine ⟨hpath ▸ (words_storedAt _ hstored).1, fun _ => ?_⟩
      simp only [Field.diff] at ho
      split_ifs at ho
      · exact absurd ho List.not_mem_nil
      · rw [List.mem_singleton.mp ho]
        intro heq
        cases heq
      · rw [List.mem_singleton.mp ho]
        intro heq
        cases heq

/-- A session over the settings pages, from the masked tree they show to the masked tree they show
again. Whichever pages are saved in whichever order, the queue is accepted; a page that was saved
shows the values of its last Save in exactly the fields that are settled by the last Save that
changed them, one that was not saved shows what it did, and no other setting changes. -/
theorem saved_pages_shown (hwf : r.running.WellFormed) (hsingle : SingleValues S)
    (hpages : ∀ x ∈ saves, x.1 ∈ pages) (htyped : ∀ x ∈ saves, x.2.Typed) {queue : List ConfigOp}
    (hqueue : queue = (saveAll (·.shown r) saves).ops) (hne : queue ≠ []) {confirmSeconds : ℤ}
    (hwindow : confirmSeconds = 0 ∨ ConfigHandlers.minConfirmSeconds ≤ confirmSeconds ∧
      confirmSeconds ≤ ConfigHandlers.maxConfirmSeconds) :
    ∃ r' response, r.handleCommit S queue confirmSeconds none = (r', .commit response) ∧
      (∀ page ∈ pages, savesOf page saves = [] → page.shown r' = page.shown r) ∧
      (∀ page ∈ pages, ∀ v ∈ (savesOf page saves).getLast?, ∀ e ∈ page.entries,
        (page.field e).Shows v (page.shown r') ↔
          (page.field e).SettledBy (page.shown r) (savesOf page saves) v) ∧
      ∀ q, (∀ p ∈ storedAt, Apart p q) → r'.running.store q = r.running.store q := by
  subst hqueue
  obtain ⟨minutes, hminutes⟩ :=
    handleCommit_ok hne (fun o ho => op_of_saveAll htyped ho hpages) hwindow
  let r' := r.load (applyOps S r.running (saveAll (·.shown r) saves).ops) minutes
  have hrunning : r'.running = applyOps S r.running (saveAll (·.shown r) saves).ops := rfl
  have hwf' : r'.running.WellFormed := WellFormed.applyOps hwf S _
  refine ⟨r', WireCommit.newCommitResponse minutes, ?_, fun page hpage hnone => ?_,
    fun page hpage v hv e he => ?_, fun q hq => store_saveAll_outside r.running hpages hq⟩
  · unfold Router.handleCommit
    rw [hminutes]
    rfl
  · have hsame {name : String} {e : Entry} (hentry : page.entry name = some e) :
        r'.running.store (page.root ++ e.segments) =
          r.running.store (page.root ++ e.segments) := by
      have hstore := store_saveAll (f := (·.shown r)) hsingle r.running hpages hpage
        (List.mem_of_find?_eq_some hentry)
      rw [hnone, path_field] at hstore
      exact hstore
    rw [shown_eq hwf hpage, shown_eq hwf' hpage]
    congr 1
    · funext name
      cases hentry : page.entry name with
      | none => rfl
      | some e => exact congrArg FormTables.readText (hsame hentry)
    · funext name
      cases hentry : page.entry name with
      | none => rfl
      | some e => exact congrArg Option.isSome (hsame hentry)
  · refine Field.shows_iff_settledBy (reads_shown hwf hpage he) (reads_shown hwf' hpage he) ?_
      (List.mem_of_getLast? hv)
    rw [hrunning, store_saveAll hsingle r.running hpages hpage he]
    cases (page.field e).changedLast (page.shown r) (savesOf page saves) <;> rfl

end Session

/-- A router with a host name, which another page renames after TFTP got a port. -/
def named : Router :=
  ⟨.node [("system", .node [("host-name", .leaf "r1")])],
    .node [("system", .node [("host-name", .leaf "r1")])], none⟩

def filled (name value : String) : FormValues :=
  ⟨fun property => if property = name then value else "", fun _ => false⟩

def renames : List (Page × FormValues) :=
  [(systemGeneral, filled "hostName" "r3"), (tftpServer, filled "port" " 69 "),
    (systemGeneral, filled "hostName" "r2")]

theorem typed_filled {name value : String} (h : trim value ≠ maskPlaceholder) :
    (filled name value).Typed := by
  intro property
  unfold filled
  dsimp only
  split_ifs
  · exact h
  · decide +kernel

theorem renamed_shown :
    ∃ r' response,
      named.handleCommit ⟨fun _ => false⟩ (saveAll (·.shown named) renames).ops 60 none =
        (r', .commit response) ∧
      (systemGeneral.shown r').text "hostName" = trim "r2" := by
  have hsingle : SingleValues ⟨fun _ => false⟩ := by
    intro page _ e _
    unfold Page.field
    cases e.kind <;> trivial
  have htyped : ∀ x ∈ renames, x.2.Typed := by
    intro x hx
    simp only [renames, List.mem_cons, List.not_mem_nil, or_false] at hx
    rcases hx with rfl | rfl | rfl <;> exact typed_filled (by decide +kernel)
  have hwindow : (60 : ℤ) = 0 ∨ ConfigHandlers.minConfirmSeconds ≤ 60 ∧
      60 ≤ ConfigHandlers.maxConfirmSeconds := by decide
  obtain ⟨r', response, hcommit, -, hshown, -⟩ := saved_pages_shown (r := named)
    (by decide : named.running.WellFormed) hsingle (by decide +kernel) htyped rfl
    (by decide +kernel) hwindow
  refine ⟨r', response, hcommit, (hshown systemGeneral (by decide +kernel) (filled "hostName" "r2")
    ?_ (text "hostName" ["host-name"]) List.mem_cons_self).mpr ?_⟩
  · rfl
  · rfl

end VyosClient.SettingsPages
