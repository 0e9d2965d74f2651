import VyosClient.FormTables

/-!
Entries of the dynamic DNS service: what the page reads of one, what its form queues,
and what a submission leaves. The address of an entry is taken from an interface or
from a web service; the form deletes it and sets the fields of the chosen mode, as
they were typed.
-/

namespace VyosClient.DynamicDns

open PathStore ConfigTrees Configure FormDiff FormTables

def dynamicDnsPath (rest : Path) : Path := ["service", "dns", "dynamic"] ++ rest

def dynamicDnsEntryPath (name : String) (rest : Path) : Path :=
  dynamicDnsPath (["name", name] ++ rest)

inductive AddressMode
  | interface
  | web
  deriving DecidableEq, Repr

structure DynamicDNSEntry where
  name : String
  description : Option String
  protocol : Option String
  addressMode : Option AddressMode
  addressInterface : Option String
  addressWebUrl : Option String
  addressWebSkip : Option String
  ipVersion : Option String
  hostNames : List String
  server : Option String
  zone : Option String
  username : Option String
  hasPassword : Bool
  hasKey : Bool
  ttl : Option String
  waitTime : Option String
  expiryTime : Option String
  deriving DecidableEq, Repr

def parseEntry (name : String) (raw : Unknown) : DynamicDNSEntry :=
  let addressRoot := child raw "address"
  let webRoot := child addressRoot "web"
  let interfaceValue := asString (child addressRoot "interface")
  { name := name
    description := asString (child raw "description")
    protocol := asString (child raw "protocol")
    addressMode :=
      if interfaceValue.isSome then some .interface
      else if webRoot.isSome then some .web
      else none
    addressInterface := interfaceValue
    addressWebUrl := asString (child webRoot "url")
    addressWebSkip := asString (child webRoot "skip")
    ipVersion := asString (child raw "ip-version")
    hostNames := asStringArray (child raw "host-name")
    server := asString (child raw "server")
    zone := asString (child raw "zone")
    username := asString (child raw "username")
    hasPassword := (child raw "password").isSome
    hasKey := (child raw "key").isSome
    ttl := asString (child raw "ttl")
    waitTime := asString (child raw "wait-time")
    expiryTime := asString (child raw "expiry-time") }

/-- `none` stands for the empty mode, neither of the two. The password and the key are
write-only: blank leaves them unchanged. -/
structure DynamicDNSEntryFormValues where
  description : String := ""
  protocol : String := ""
  addressMode : Option AddressMode := none
  addressInterface : String := ""
  addressWebUrl : String := ""
  addressWebSkip : String := ""
  ipVersion : String := ""
  server : String := ""
  zone : String := ""
  username : String := ""
  password : String := ""
  key : String := ""
  ttl : String := ""
  waitTime : String := ""
  expiryTime : String := ""
  deriving DecidableEq, Repr

def blankDynamicDNSEntryFormValues : DynamicDNSEntryFormValues := {}

def dynamicDNSEntryToFormValues (entry : DynamicDNSEntry) : DynamicDNSEntryFormValues where
  description := entry.description.getD ""
  protocol := entry.protocol.getD ""
  addressMode := entry.addressMode
  addressInterface := entry.addressInterface.getD ""
  addressWebUrl := entry.addressWebUrl.getD ""
  addressWebSkip := entry.addressWebSkip.getD ""
  ipVersion := entry.ipVersion.getD ""
  server := entry.server.getD ""
  zone := entry.zone.getD ""
  username := entry.username.getD ""
  ttl := entry.ttl.getD ""
  waitTime := entry.waitTime.getD ""
  expiryTime := entry.expiryTime.getD ""

def scalarFields : List ((DynamicDNSEntryFormValues → String) × Path) :=
  [((·.description), ["description"]),
    ((·.protocol), ["protocol"]),
    ((·.ipVersion), ["ip-version"]),
    ((·.server), ["server"]),
    ((·.zone), ["zone"]),
    ((·.username), ["username"]),
    ((·.ttl), ["ttl"]),
    ((·.waitTime), ["wait-time"]),
    ((·.expiryTime), ["expiry-time"])]

/-- The part of the form that is compared field by field. -/
def entryForm (name : String) : Form DynamicDNSEntryFormValues :=
  Form.below (dynamicDnsEntryPath name []) (scalarFields.map fun f => .text f.1 f.2) (by decide)
    (by decide) (by decide +kernel)

def addressChanged (beforeValues values : DynamicDNSEntryFormValues) : Bool :=
  beforeValues.addressMode ≠ values.addressMode ||
    (values.addressMode = some .interface &&
      beforeValues.addressInterface ≠ values.addressInterface) ||
    (values.addressMode = some .web &&
      (beforeValues.addressWebUrl ≠ values.addressWebUrl ||
        beforeValues.addressWebSkip ≠ values.addressWebSkip))

def addressSetOps (addressPath : Path) (values : DynamicDNSEntryFormValues) : List ConfigOp :=
  match values.addressMode with
  | some .interface => setText (addressPath ++ ["interface"]) values.addressInterface
  | some .web =>
      setText (addressPath ++ ["web", "url"]) values.addressWebUrl ++
        setText (addressPath ++ ["web", "skip"]) values.addressWebSkip
  | none => []

def addressClearOps (addressPath : Path) (beforeValues : DynamicDNSEntryFormValues) :
    List ConfigOp :=
  if beforeValues.addressMode ≠ none then [⟨.delete, addressPath, none⟩] else []

def addressOps (addressPath : Path) (beforeValues values : DynamicDNSEntryFormValues) :
    List ConfigOp :=
  if addressChanged beforeValues values then
    addressClearOps addressPath beforeValues ++ addressSetOps addressPath values
  else []

def secretOps (base : Path) (values : DynamicDNSEntryFormValues) : List ConfigOp :=
  setText (base ++ ["password"]) (trim values.password) ++
    setText (base ++ ["key"]) (trim values.key)

/-- `before` is the entry as last fetched, `none` when one is created. -/
def dynamicDNSEntryFormToOps (name : String) (before : Option DynamicDNSEntry)
    (values : DynamicDNSEntryFormValues) : List ConfigOp :=
  let beforeValues := match before with
    | some entry => dynamicDNSEntryToFormValues entry
    | none => blankDynamicDNSEntryFormValues
  let base := dynamicDnsEntryPath name []
  (entryForm name).diff beforeValues values ++
    (addressOps (base ++ ["address"]) beforeValues values ++ secretOps base values)

/-- The values of the form when it is opened. -/
def shownEntry (name : String) (t : ConfigTree) : DynamicDNSEntryFormValues :=
  dynamicDNSEntryToFormValues (parseEntry name (t.get (dynamicDnsEntryPath name [])))

/-- The configuration after the operations of a submission. -/
def applied (S : Schema) (name : String) (t : ConfigTree) (values : DynamicDNSEntryFormValues) :
    ConfigTree :=
  applyOps S t (dynamicDNSEntryFormToOps name
    (some (parseEntry name (t.get (dynamicDnsEntryPath name [])))) values)

/-- An address is configured when one of the two variants is there. -/
def Configured (name : String) (t : ConfigTree) : Prop :=
  (t.store (dynamicDnsEntryPath name ["address", "interface"])).isSome ∨
    (t.store (dynamicDnsEntryPath name ["address", "web"])).isSome

def AtMostOne (name : String) (t : ConfigTree) : Prop :=
  t.store (dynamicDnsEntryPath name ["address", "interface"]) = none ∨
    t.store (dynamicDnsEntryPath name ["address", "web"]) = none

section Reads

variable {name : String} {t : ConfigTree}

theorem text_shownEntry (hwf : t.WellFormed) :
    ∀ f ∈ scalarFields,
      f.1 (shownEntry name t) = readText (t.store (dynamicDnsEntryPath name [] ++ f.2)) := by
  simp only [scalarFields, List.forall_mem_cons, shownEntry, dynamicDNSEntryToFormValues,
    parseEntry, ConfigTree.child_get, getD_asString_get hwf]
  simp

theorem mode_shownEntry (hwf : t.WellFormed) :
    (shownEntry name t).addressMode =
      if (t.store (dynamicDnsEntryPath name ["address"] ++ ["interface"])).isSome then
        some .interface
      else if (t.store (dynamicDnsEntryPath name ["address"] ++ ["web"])).isSome then some .web
      else none := by
  simp only [shownEntry, dynamicDNSEntryToFormValues, parseEntry, ConfigTree.child_get,
    asString_get hwf, Option.isSome_map, List.append_assoc, List.cons_append, List.nil_append]
  simp only [ConfigTree.store_apply, Option.isSome_map]
  rfl

theorem address_shownEntry (name : String) (hwf : t.WellFormed) :
    (shownEntry name t).addressInterface =
        readText (t.store (dynamicDnsEntryPath name ["address"] ++ ["interface"])) ∧
      (shownEntry name t).addressWebUrl =
        readText (t.store (dynamicDnsEntryPath name ["address"] ++ ["web", "url"])) ∧
      (shownEntry name t).addressWebSkip =
        readText (t.store (dynamicDnsEntryPath name ["address"] ++ ["web", "skip"])) := by
  simp only [shownEntry, dynamicDNSEntryToFormValues, parseEntry, ConfigTree.child_get,
    getD_asString_get hwf, List.append_assoc, List.cons_append, List.nil_append]
  exact ⟨rfl, rfl, rfl⟩

end Reads

section Submission

variable {S : Schema} {name : String} {t : ConfigTree} {values : DynamicDNSEntryFormValues}

theorem wellFormed_applied (hwf : t.WellFormed) : (applied S name t values).WellFormed :=
  WellFormed.applyOps hwf S _

theorem store_applied (S : Schema) (name : String) (t : ConfigTree)
    (values : DynamicDNSEntryFormValues) :
    (applied S name t values).store = run S.multi t.store
      (edits ((entryForm name).diff (shownEntry name t) values ++
        (addressOps (dynamicDnsEntryPath name ["address"]) (shownEntry name t) values ++
          secretOps (dynamicDnsEntryPath name []) values))) :=
  store_applyOps S t _

/-- The texts lie apart from the address and the secrets. -/
theorem outside_entryForm (name : String) {key : String}
    (hkey : key ∈ ["address", "password", "key"]) (r : Path) :
    (entryForm name).Outside (dynamicDnsEntryPath name [key] ++ r) := by
  apply Form.outside_below (dynamicDnsEntryPath name []) (key :: r)
  simp only [List.mem_cons, List.not_mem_nil, or_false] at hkey
  rcases hkey with rfl | rfl | rfl <;> simp [scalarFields, Field.path, Apart]

theorem path_of_mem_secretOps {base : Path} {o : ConfigOp} (h : o ∈ secretOps base values) :
    o.path = base ++ ["password"] ∨ o.path = base ++ ["key"] :=
  (List.mem_append.mp h).imp path_of_mem_setText path_of_mem_setText

theorem prefix_of_mem_addressOps {addressPath : Path} {before : DynamicDNSEntryFormValues}
    {o : ConfigOp} (h : o ∈ addressOps addressPath before values) : addressPath <+: o.path := by
  unfold addressOps at h
  split at h
  · rcases List.mem_append.mp h with h | h
    · rw [path_of_mem_clear h]
    · unfold addressSetOps at h
      split at h
      · exact prefix_of_mem_setText h
      · exact (List.mem_append.mp h).elim prefix_of_mem_setText prefix_of_mem_setText
      · exact absurd h List.not_mem_nil
  · exact absurd h List.not_mem_nil

/-- At the address only its own operations count. -/
theorem slot_address (S : Schema) (name : String) (t : ConfigTree)
    (values : DynamicDNSEntryFormValues) (r : Path) :
    (applied S name t values).store (dynamicDnsEntryPath name ["address"] ++ r) =
      (addressOps (dynamicDnsEntryPath name ["address"]) (shownEntry name t) values).foldl
        (actOp S (dynamicDnsEntryPath name ["address"] ++ r))
        (t.store (dynamicDnsEntryPath name ["address"] ++ r)) := by
  rw [store_applied, Form.run_diff_append_outside S (outside_entryForm name (by simp) r),
    edits_append, run_append, run_edits_of_apart S, run_edits_apply]
  intro o ho
  have hapart : ∀ key ∈ ["password", "key"],
      Apart (dynamicDnsEntryPath name [] ++ [key])
        (dynamicDnsEntryPath name [] ++ "address" :: r) := by
    intro key hkey
    apply (apart_append_left _).mpr
    simp only [List.mem_cons, List.not_mem_nil, or_false] at hkey
    rcases hkey with rfl | rfl <;> simp [Apart]
  rcases path_of_mem_secretOps ho with hpath | hpath
  · rw [hpath]
    exact hapart "password" (by simp)
  · rw [hpath]
    exact hapart "key" (by simp)

theorem slot_address_unchanged (hsame : addressChanged (shownEntry name t) values = false)
    (r : Path) :
    (applied S name t values).store (dynamicDnsEntryPath name ["address"] ++ r) =
      t.store (dynamicDnsEntryPath name ["address"] ++ r) := by
  rw [slot_address, addressOps, if_neg (by simp [hsame])]
  rfl

/-- Where the page reads no address there is none. -/
theorem store_of_mode_none (hwf : t.WellFormed) (hmode : (shownEntry name t).addressMode = none)
    {key : String} (hkey : key ∈ ["interface", "web"]) (r : Path) :
    t.store (dynamicDnsEntryPath name ["address"] ++ key :: r) = none := by
  rw [mode_shownEntry hwf] at hmode
  split_ifs at hmode with hinterface hweb
  have hnone : t.get (dynamicDnsEntryPath name ["address"] ++ [key]) = none := by
    simp only [List.mem_cons, List.not_mem_nil, or_false] at hkey
    rcases hkey with rfl | rfl
    · exact Option.map_eq_none_iff.mp (Option.not_isSome_iff_eq_none.mp hinterface)
    · exact Option.map_eq_none_iff.mp (Option.not_isSome_iff_eq_none.mp hweb)
  rw [List.append_cons, ConfigTree.store_append, hnone]
  rfl

/-- A changed address is built from nothing. -/
theorem slot_address_changed (hwf : t.WellFormed)
    (hchanged : addressChanged (shownEntry name t) values = true) {key : String}
    (hkey : key ∈ ["interface", "web"]) (r : Path) :
    (applied S name t values).store (dynamicDnsEntryPath name ["address"] ++ key :: r) =
      (addressSetOps (dynamicDnsEntryPath name ["address"]) values).foldl
        (actOp S (dynamicDnsEntryPath name ["address"] ++ key :: r)) none := by
  rw [slot_address, addressOps, if_pos hchanged, List.foldl_append]
  congr 1
  unfold addressClearOps
  split_ifs with hmode
  · have hroot : dynamicDnsEntryPath name ["address"] ≠ [] := by simp [dynamicDnsEntryPath,
      dynamicDnsPath]
    rw [List.foldl_cons, List.foldl_nil, actOp_delete S hroot, if_pos (List.prefix_append _ _)]
  · exact store_of_mode_none hwf (not_not.mp hmode) hkey r

/-- What the fields of the chosen mode leave where nothing was. -/
theorem foldl_addressSetOps (S : Schema) (pre : Path) (values : DynamicDNSEntryFormValues) :
    (addressSetOps pre values).foldl (actOp S (pre ++ ["interface"])) none =
        (if values.addressMode = some .interface ∧ values.addressInterface ≠ "" then
          some [values.addressInterface] else none) ∧
      (addressSetOps pre values).foldl (actOp S (pre ++ ["web"])) none =
        (if values.addressMode = some .web ∧
          (values.addressWebUrl ≠ "" ∨ values.addressWebSkip ≠ "") then some [] else none) ∧
      (addressSetOps pre values).foldl (actOp S (pre ++ ["web", "url"])) none =
        (if values.addressMode = some .web ∧ values.addressWebUrl ≠ "" then
          some [values.addressWebUrl] else none) ∧
      (addressSetOps pre values).foldl (actOp S (pre ++ ["web", "skip"])) none =
        (if values.addressMode = some .web ∧ values.addressWebSkip ≠ "" then
          some [values.addressWebSkip] else none) := by
  unfold addressSetOps
  match values.addressMode with
  | none => simp
  | some .interface => simp [foldl_setText, addValue]
  | some .web =>
    simp only [List.foldl_append, foldl_setText]
    by_cases hurl : values.addressWebUrl = "" <;> by_cases hskip : values.addressWebSkip = "" <;>
      simp [hurl, hskip, addValue]

theorem same_of_unchanged {before : DynamicDNSEntryFormValues}
    (h : addressChanged before values = false) :
    before.addressMode = values.addressMode ∧
      (values.addressMode = some .interface →
        before.addressInterface = values.addressInterface) ∧
      (values.addressMode = some .web → before.addressWebUrl = values.addressWebUrl ∧
        before.addressWebSkip = values.addressWebSkip) := by
  simp only [addressChanged, Bool.or_eq_false_iff, Bool.and_eq_false_imp, decide_eq_true_eq,
    ne_eq, decide_not, Bool.not_eq_false'] at h
  exact ⟨h.1.1, h.1.2, h.2⟩

/-- The chosen mode has something to be stored. -/
def AddressEntered (values : DynamicDNSEntryFormValues) : Prop :=
  match values.addressMode with
  | none => True
  | some .interface => values.addressInterface ≠ ""
  | some .web => values.addressWebUrl ≠ "" ∨ values.addressWebSkip ≠ ""

/-- The page reads the chosen mode unless a changed address has nothing to be stored. -/
theorem mode_applied_iff (hwf : t.WellFormed) :
    (shownEntry name (applied S name t values)).addressMode = values.addressMode ↔
      (addressChanged (shownEntry name t) values = true → AddressEntered values) := by
  rw [mode_shownEntry (wellFormed_applied hwf)]
  cases hchanged : addressChanged (shownEntry name t) values with
  | false =>
    rw [slot_address_unchanged hchanged, slot_address_unchanged hchanged, ← mode_shownEntry hwf]
    exact iff_of_true (same_of_unchanged hchanged).1 fun h => absurd h Bool.false_ne_true
  | true =>
    obtain ⟨hinterface, hweb, _⟩ :=
      foldl_addressSetOps S (dynamicDnsEntryPath name ["address"]) values
    rw [slot_address_changed hwf hchanged (by simp), slot_address_changed hwf hchanged (by simp),
      hinterface, hweb]
    unfold AddressEntered
    match values.addressMode with
    | none => simp
    | some .interface => by_cases hv : values.addressInterface = "" <;> simp [hv]
    | some .web =>
      by_cases hurl : values.addressWebUrl = "" <;> by_cases hskip : values.addressWebSkip = "" <;>
        simp [hurl, hskip]

/-- The fields of the chosen mode are read as they were typed. -/
theorem fields_applied (S : Schema) (name : String) (values : DynamicDNSEntryFormValues)
    (hwf : t.WellFormed) :
    (values.addressMode = some .interface →
        (shownEntry name (applied S name t values)).addressInterface = values.addressInterface) ∧
      (values.addressMode = some .web →
        (shownEntry name (applied S name t values)).addressWebUrl = values.addressWebUrl ∧
          (shownEntry name (applied S name t values)).addressWebSkip = values.addressWebSkip) := by
  obtain ⟨hinterface, hurl, hskip⟩ :=
    address_shownEntry name
      (wellFormed_applied hwf : (applied S name t values).WellFormed)
  rw [hinterface, hurl, hskip]
  cases hchanged : addressChanged (shownEntry name t) values with
  | false =>
    obtain ⟨_, hinterface', hweb'⟩ := same_of_unchanged hchanged
    obtain ⟨hbefore, hbeforeUrl, hbeforeSkip⟩ := address_shownEntry name hwf
    simp only [slot_address_unchanged hchanged, ← hbefore, ← hbeforeUrl, ← hbeforeSkip]
    exact ⟨hinterface', hweb'⟩
  | true =>
    obtain ⟨hslot, _, hslotUrl, hslotSkip⟩ :=
      foldl_addressSetOps S (dynamicDnsEntryPath name ["address"]) values
    rw [slot_address_changed hwf hchanged (by simp), slot_address_changed hwf hchanged (by simp),
      slot_address_changed hwf hchanged (by simp), hslot, hslotUrl, hslotSkip]
    constructor
    · intro hmode
      by_cases hv : values.addressInterface = "" <;> simp [hmode, hv]
    · intro hmode
      constructor
      · by_cases hv : values.addressWebUrl = "" <;> simp [hmode, hv]
      · by_cases hv : values.addressWebSkip = "" <;> simp [hmode, hv]

theorem atMostOne_applied (hwf : t.WellFormed) (hone : AtMostOne name t) :
    AtMostOne name (applied S name t values) := by
  show (applied S name t values).store (dynamicDnsEntryPath name ["address"] ++ ["interface"]) =
      none ∨ (applied S name t values).store (dynamicDnsEntryPath name ["address"] ++ ["web"]) = none
  cases hchanged : addressChanged (shownEntry name t) values with
  | false =>
    rw [slot_address_unchanged hchanged, slot_address_unchanged hchanged]
    exact hone
  | true =>
    obtain ⟨hslot, hweb, _⟩ :=
      foldl_addressSetOps S (dynamicDnsEntryPath name ["address"]) values
    rw [slot_address_changed hwf hchanged (by simp), slot_address_changed hwf hchanged (by simp),
      hslot, hweb]
    match values.addressMode with
    | none => simp
    | some .interface => simp
    | some .web => simp

/-- A blank password or key is no operation at all. -/
theorem slot_secret (S : Schema) (name : String) (t : ConfigTree)
    (values : DynamicDNSEntryFormValues) :
    (trim values.password = "" → (applied S name t values).store
        (dynamicDnsEntryPath name ["password"]) = t.store (dynamicDnsEntryPath name ["password"])) ∧
      (trim values.key = "" → (applied S name t values).store
        (dynamicDnsEntryPath name ["key"]) = t.store (dynamicDnsEntryPath name ["key"])) := by
  have hframe : ∀ key ∈ ["password", "key"],
      (∀ o ∈ secretOps (dynamicDnsEntryPath name []) values,
        Apart o.path (dynamicDnsEntryPath name [key])) →
      (applied S name t values).store (dynamicDnsEntryPath name [key]) =
        t.store (dynamicDnsEntryPath name [key]) := by
    intro key hkey hsecrets
    have houtside := outside_entryForm name (List.mem_cons_of_mem "address" hkey) []
    rw [List.append_nil] at houtside
    rw [store_applied, Form.run_diff_append_outside S houtside]
    apply run_edits_of_apart
    intro o ho
    rcases List.mem_append.mp ho with ho | ho
    · have hapart :
          Apart (dynamicDnsEntryPath name ["address"]) (dynamicDnsEntryPath name [key]) := by
        apply (apart_append_left (dynamicDnsEntryPath name [])).mpr
        simp only [List.mem_cons, List.not_mem_nil, or_false] at hkey
        rcases hkey with rfl | rfl <;> simp [Apart]
      obtain ⟨r, hr⟩ := prefix_of_mem_addressOps ho
      rw [← hr, ← List.append_nil (dynamicDnsEntryPath name [key])]
      exact hapart.append r []
    · exact hsecrets o ho
  have hpair : Apart (dynamicDnsEntryPath name ["password"]) (dynamicDnsEntryPath name ["key"]) :=
    (apart_append_left (dynamicDnsEntryPath name [])).mpr (by decide)
  constructor
  · intro hblank
    refine hframe "password" (by simp) fun o ho => ?_
    rcases List.mem_append.mp ho with ho | ho
    · simp [setText, hblank] at ho
    · rw [path_of_mem_setText ho]
      exact hpair.symm
  · intro hblank
    refine hframe "key" (by simp) fun o ho => ?_
    rcases List.mem_append.mp ho with ho | ho
    · rw [path_of_mem_setText ho]
      exact hpair
    · simp [setText, hblank] at ho

/-- The address and the secrets lie beside the texts. -/
theorem path_of_mem_rest {before : DynamicDNSEntryFormValues} {o : ConfigOp}
    (h : o ∈ addressOps (dynamicDnsEntryPath name ["address"]) before values ++
      secretOps (dynamicDnsEntryPath name []) values) :
    ∃ key ∈ ["address", "password", "key"], ∃ r, o.path = dynamicDnsEntryPath name [key] ++ r := by
  rcases List.mem_append.mp h with h | h
  · obtain ⟨r, hr⟩ := prefix_of_mem_addressOps h
    exact ⟨"address", by simp, r, hr.symm⟩
  · rcases path_of_mem_secretOps h with hpath | hpath
    · exact ⟨"password", by simp, [], hpath⟩
    · exact ⟨"key", by simp, [], hpath⟩

/-- VyOS takes one value for each text of the form. -/
def SingleTexts (S : Schema) (name : String) : Prop :=
  ∀ f ∈ scalarFields, S.multi (dynamicDnsEntryPath name f.2) = false

theorem text_applied (values : DynamicDNSEntryFormValues) (hwf : t.WellFormed)
    (hsingle : SingleTexts S name) :
    ∀ f ∈ scalarFields, f.1 (shownEntry name (applied S name t values)) =
      savedText (f.1 (shownEntry name t)) (f.1 values) := by
  intro f hf
  have hmem : Field.text f.1 (dynamicDnsEntryPath name [] ++ f.2) ∈ (entryForm name).fields :=
    List.mem_map.mpr ⟨.text f.1 f.2, List.mem_map.mpr ⟨f, hf, rfl⟩, rfl⟩
  have hsingle' : (Field.text f.1 (dynamicDnsEntryPath name [] ++ f.2)).SingleIn S := hsingle f hf
  have hrest : ∀ o ∈ addressOps (dynamicDnsEntryPath name ["address"]) (shownEntry name t) values ++
      secretOps (dynamicDnsEntryPath name []) values,
      Apart o.path (dynamicDnsEntryPath name [] ++ f.2) := by
    intro o ho
    obtain ⟨key, hkey, r, hr⟩ := path_of_mem_rest ho
    rw [hr]
    exact (outside_entryForm name hkey r _ hmem).symm
  have hslot : (applied S name t values).store (dynamicDnsEntryPath name [] ++ f.2) =
      if f.1 (shownEntry name t) = f.1 values then t.store (dynamicDnsEntryPath name [] ++ f.2)
      else if trim (f.1 values) = "" then none else some [trim (f.1 values)] := by
    rw [store_applied]
    exact Form.run_diff_append hsingle' hmem hrest t.store
  exact FormTables.Field.saved_of_slot
    (f := Field.text f.1 (dynamicDnsEntryPath name [] ++ f.2)) hslot (text_shownEntry hwf f hf)
    (text_shownEntry (wellFormed_applied hwf) f hf)

end Submission

/-- The entry of `t'` is the one of `t` with the values of the form in place. -/
structure Replaced (name : String) (t t' : ConfigTree) (values : DynamicDNSEntryFormValues) :
    Prop where
  mode : (shownEntry name t').addressMode = values.addressMode
  interface : values.addressMode = some .interface →
    (shownEntry name t').addressInterface = trim values.addressInterface
  web : values.addressMode = some .web →
    (shownEntry name t').addressWebUrl = trim values.addressWebUrl ∧
      (shownEntry name t').addressWebSkip = trim values.addressWebSkip
  exclusive : AtMostOne name t'
  texts : ∀ f ∈ scalarFields, f.1 (shownEntry name t') = trim (f.1 values)
  password : trim values.password = "" →
    t'.store (dynamicDnsEntryPath name ["password"]) =
      t.store (dynamicDnsEntryPath name ["password"])
  key : trim values.key = "" →
    t'.store (dynamicDnsEntryPath name ["key"]) = t.store (dynamicDnsEntryPath name ["key"])
  kept : Configured name t → values.addressMode ≠ none → Configured name t'

/-- What the form has to be given: no blanks around a text that is not trimmed, and a
changed address that has something to be stored. -/
structure WellEntered (before values : DynamicDNSEntryFormValues) : Prop where
  texts : ∀ f ∈ scalarFields, f.1 before = f.1 values → trim (f.1 values) = f.1 values
  interface : values.addressMode = some .interface →
    trim values.addressInterface = values.addressInterface
  web : values.addressMode = some .web → trim values.addressWebUrl = values.addressWebUrl ∧
    trim values.addressWebSkip = values.addressWebSkip
  address : addressChanged before values = true → AddressEntered values

theorem configured_of_mode {name : String} {t : ConfigTree} (hwf : t.WellFormed)
    (h : (shownEntry name t).addressMode ≠ none) : Configured name t := by
  rw [mode_shownEntry hwf] at h
  split_ifs at h with hinterface hweb
  · exact .inl hinterface
  · exact .inr hweb
  · exact absurd rfl h

/-- A submission replaces the entry by the values of the form if and only if they are
well entered. -/
theorem applied_replaced_iff (S : Schema) (name : String) (t : ConfigTree)
    (values : DynamicDNSEntryFormValues) (hwf : t.WellFormed) (hsingle : SingleTexts S name)
    (hone : AtMostOne name t) :
    Replaced name t (applied S name t values) values ↔ WellEntered (shownEntry name t) values := by
  have htexts := text_applied values hwf hsingle
  obtain ⟨hinterface, hweb⟩ := fields_applied S name values hwf
  constructor
  · intro h
    refine ⟨fun f hf => ?_, fun hmode => ?_, fun hmode => ?_, (mode_applied_iff hwf).mp h.mode⟩
    · exact savedText_eq_trim_iff.mp ((htexts f hf).symm.trans (h.texts f hf))
    · exact (h.interface hmode).symm.trans (hinterface hmode)
    · obtain ⟨hurl, hskip⟩ := h.web hmode
      exact ⟨hurl.symm.trans (hweb hmode).1, hskip.symm.trans (hweb hmode).2⟩
  · intro h
    have hmode := (mode_applied_iff (S := S) hwf).mpr h.address
    obtain ⟨hpassword, hkey⟩ := slot_secret S name t values
    refine ⟨hmode, fun hm => ?_, fun hm => ?_, atMostOne_applied hwf hone, fun f hf => ?_,
      hpassword, hkey, fun _ hm => ?_⟩
    · exact (hinterface hm).trans (h.interface hm).symm
    · exact ⟨(hweb hm).1.trans (h.web hm).1.symm, (hweb hm).2.trans (h.web hm).2.symm⟩
    · exact (htexts f hf).trans (savedText_eq_trim_iff.mpr (h.texts f hf))
    · exact configured_of_mode (wellFormed_applied hwf) (hmode.symm ▸ hm)

/-- An entry that takes its address from an interface. -/
def homeEntry (interface : String) : ConfigTree :=
  .node [("service", .node [("dns", .node [("dynamic", .node [("name", .node [("home", .node
    [("address", .node [("interface", .leaf interface)]),
      ("protocol", .leaf "dyndns2")])])])])])]

theorem homeEntry_replaced :
    let values := { shownEntry "home" (homeEntry "eth0") with
      addressMode := some .web, addressWebUrl := "https://ip.example", server := " ns " }
    (shownEntry "home" (applied ⟨fun _ => false⟩ "home" (homeEntry "eth0") values)).addressMode =
      some .web := by
  intro values
  have hentered : WellEntered (shownEntry "home" (homeEntry "eth0")) values :=
    ⟨by decide, by decide, by decide, fun _ => .inl (by decide)⟩
  have hall := (applied_replaced_iff ⟨fun _ => false⟩ "home" (homeEntry "eth0") values (by decide)
    (fun _ _ => rfl) (.inr (by decide))).mpr hentered
  exact hall.mode

/-- The web mode is chosen and its fields are left empty: the address is deleted. -/
theorem emptyWeb_deletes_address :
    let values := { shownEntry "home" (homeEntry "eth0") with addressMode := some .web }
    (homeEntry "eth0").WellFormed ∧ AtMostOne "home" (homeEntry "eth0") ∧
      ¬ Replaced "home" (homeEntry "eth0")
        (applied ⟨fun _ => false⟩ "home" (homeEntry "eth0") values) values := by
  intro values
  refine ⟨by decide, .inr (by decide), fun h => ?_⟩
  exact absurd h.mode (by decide)

end VyosClient.DynamicDns
