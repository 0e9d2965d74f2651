import VyosClient.FormTables
import VyosClient.OspfArea
import VyosClient.TreeKeys

/-!
Interfaces of OSPF and OSPFv3: what the pages read of one, and what the interface form
queues. The authentication of an interface is one of three modes. VyOS may hold several
MD5 keys; the page shows the first one in the order of `localeCompare`, which is a
parameter here. A mode or key that changes is built from nothing, and the secrets are
write-only, so the form asks for the secret before it queues such a change.
-/

namespace VyosClient.OspfInterface

open PathStore ConfigTrees Configure FormDiff FormTables OspfArea TreeKeys

inductive OSPFInterfaceAuthMode
  | plaintextPassword
  | md5
  | null
  deriving DecidableEq, Repr

def ospfInterfacePath (protocol : OSPFProtocol) (name : String) (rest : Path) : Path :=
  ospfPath protocol (["interface", name] ++ rest)

structure InterfaceAuth where
  authMode : Option OSPFInterfaceAuthMode := none
  hasPlaintextPassword : Bool := false
  md5KeyId : Option String := none
  hasMd5Key : Bool := false
  deriving DecidableEq, Repr

/-- The four fields of the authentication stand together. -/
structure OSPFInterface where
  name : String
  area : Option String
  cost : Option String
  priority : Option String
  deadInterval : Option String
  helloInterval : Option String
  passive : Bool
  networkType : Option String
  mtuIgnore : Bool
  bfd : Bool
  auth : InterfaceAuth
  deriving DecidableEq, Repr

section Parse

variable (localeLe : String → String → Prop) [DecidableRel localeLe]

/-- The first entry of a node, sorted by name. -/
def firstEntry (root : Unknown) : Option (String × ConfigTree) :=
  match root with
  | some (.node es) => (es.insertionSort fun a b => localeLe a.1 b.1).head?
  | _ => none

def parseInterfaceAuth (protocol : OSPFProtocol) (raw : Unknown) : InterfaceAuth :=
  if protocol ≠ .ospf then {}
  else
    let authRoot := child raw "authentication"
    if isFlagPresent authRoot "null" then { authMode := some .null }
    else if isFlagPresent authRoot "plaintext-password" then
      { authMode := some .plaintextPassword, hasPlaintextPassword := true }
    else
      match firstEntry localeLe (child (child authRoot "md5") "key-id") with
      | some (firstKeyId, firstKeyRaw) =>
          { authMode := some .md5
            md5KeyId := some firstKeyId
            hasMd5Key := isFlagPresent (some firstKeyRaw) "md5-key" }
      | none => {}

def parseInterface (protocol : OSPFProtocol) (name : String) (raw : Unknown) : OSPFInterface where
  name := name
  area := asString (child raw "area")
  cost := asString (child raw "cost")
  priority := asString (child raw "priority")
  deadInterval := asString (child raw "dead-interval")
  helloInterval := asString (child raw "hello-interval")
  passive := isFlagPresent raw "passive"
  networkType := asString (child raw "network")
  mtuIgnore := isFlagPresent raw "mtu-ignore"
  bfd := isFlagPresent raw "bfd"
  auth := parseInterfaceAuth localeLe protocol raw

end Parse

/-- `none` stands for no authentication. The password and the key are write-only. -/
structure OSPFInterfaceFormValues where
  area : String := ""
  cost : String := ""
  priority : String := ""
  deadInterval : String := ""
  helloInterval : String := ""
  passive : Bool := false
  networkType : String := ""
  mtuIgnore : Bool := false
  bfd : Bool := false
  authMode : Option OSPFInterfaceAuthMode := none
  plaintextPassword : String := ""
  md5KeyId : String := ""
  md5Key : String := ""
  deriving DecidableEq, Repr

def blankInterfaceFormValues : OSPFInterfaceFormValues := {}

def interfaceToFormValues (iface : OSPFInterface) : OSPFInterfaceFormValues where
  area := iface.area.getD ""
  cost := iface.cost.getD ""
  priority := iface.priority.getD ""
  deadInterval := iface.deadInterval.getD ""
  helloInterval := iface.helloInterval.getD ""
  passive := iface.passive
  networkType := iface.networkType.getD ""
  mtuIgnore := iface.mtuIgnore
  bfd := iface.bfd
  authMode := iface.auth.authMode
  md5KeyId := iface.auth.md5KeyId.getD ""

def scalarFields : List ((OSPFInterfaceFormValues → String) × Path) :=
  [((·.area), ["area"]),
    ((·.cost), ["cost"]),
    ((·.priority), ["priority"]),
    ((·.deadInterval), ["dead-interval"]),
    ((·.helloInterval), ["hello-interval"]),
    ((·.networkType), ["network"])]

def flagFields : List ((OSPFInterfaceFormValues → Bool) × Path) :=
  [((·.passive), ["passive"]),
    ((·.mtuIgnore), ["mtu-ignore"]),
    ((·.bfd), ["bfd"])]

/-- The part of the form that is compared field by field. -/
def interfaceForm (protocol : OSPFProtocol) (name : String) : Form OSPFInterfaceFormValues :=
  Form.below (ospfInterfacePath protocol name [])
    (scalarFields.map (fun f => .text f.1 f.2) ++ flagFields.map fun f => .flag f.1 f.2)
    (by decide) (by decide) (by decide +kernel)

/-- The mode changes, or the key that is shown in it. -/
def authChanged (beforeValues values : OSPFInterfaceFormValues) : Bool :=
  beforeValues.authMode ≠ values.authMode ||
    (values.authMode = some .md5 && beforeValues.md5KeyId ≠ values.md5KeyId)

def formerValues (before : Option OSPFInterface) : OSPFInterfaceFormValues :=
  match before with
  | some iface => interfaceToFormValues iface
  | none => blankInterfaceFormValues

/-- A change of mode or key is about to be queued without the secret it needs. -/
def authSecretMissing (protocol : OSPFProtocol) (before : Option OSPFInterface)
    (values : OSPFInterfaceFormValues) : Bool :=
  if protocol ≠ .ospf then false
  else if !authChanged (formerValues before) values then false
  else
    match values.authMode with
    | some .plaintextPassword => trim values.plaintextPassword = ""
    | some .md5 => trim values.md5KeyId = "" || trim values.md5Key = ""
    | _ => false

def authClearOps (authPath : Path) (beforeValues : OSPFInterfaceFormValues) : List ConfigOp :=
  if beforeValues.authMode ≠ none then [⟨.delete, authPath, none⟩] else []

/-- The mode is built with its secret. -/
def authSetOps (authPath : Path) (values : OSPFInterfaceFormValues) : List ConfigOp :=
  match values.authMode with
  | some .plaintextPassword =>
      setText (authPath ++ ["plaintext-password"]) (trim values.plaintextPassword)
  | some .md5 =>
      let keyId := trim values.md5KeyId
      if keyId = "" then []
      else
        [⟨.set, authPath ++ ["md5", "key-id", keyId], none⟩] ++
          setText (authPath ++ ["md5", "key-id", keyId, "md5-key"]) (trim values.md5Key)
  | some .null => [⟨.set, authPath ++ ["null"], none⟩]
  | none => []

/-- The mode stays, and a typed secret takes the place of the old one. -/
def secretOps (authPath : Path) (values : OSPFInterfaceFormValues) : List ConfigOp :=
  match values.authMode with
  | some .plaintextPassword =>
      setText (authPath ++ ["plaintext-password"]) (trim values.plaintextPassword)
  | some .md5 =>
      setText (authPath ++ ["md5", "key-id", trim values.md5KeyId, "md5-key"]) (trim values.md5Key)
  | _ => []

def authenticationOps (authPath : Path) (beforeValues values : OSPFInterfaceFormValues) :
    List ConfigOp :=
  if authChanged beforeValues values then
    authClearOps authPath beforeValues ++ authSetOps authPath values
  else secretOps authPath values

/-- `before` is the interface as last fetched, `none` when one is created. -/
def interfaceFormToOps (protocol : OSPFProtocol) (name : String) (before : Option OSPFInterface)
    (values : OSPFInterfaceFormValues) : List ConfigOp :=
  let base := ospfInterfacePath protocol name []
  (interfaceForm protocol name).diff (formerValues before) values ++
    if protocol = .ospf then
      authenticationOps (base ++ ["authentication"]) (formerValues before) values
    else []

section Shown

variable (localeLe : String → String → Prop) [DecidableRel localeLe]

/-- The values of the form when it is opened. -/
def shownInterface (name : String) (t : ConfigTree) : OSPFInterfaceFormValues :=
  interfaceToFormValues
    (parseInterface localeLe .ospf name (t.get (ospfInterfacePath .ospf name [])))

/-- The configuration after the operations of a submission. -/
def applied (S : Schema) (name : String) (t : ConfigTree) (values : OSPFInterfaceFormValues) :
    ConfigTree :=
  applyOps S t (interfaceFormToOps .ospf name
    (some (parseInterface localeLe .ospf name (t.get (ospfInterfacePath .ospf name [])))) values)

/-- The key that the page shows. -/
def firstKey (name : String) (t : ConfigTree) : Option String :=
  ((keysAt t (ospfInterfacePath .ospf name ["authentication"] ++ ["md5", "key-id"])).insertionSort
    localeLe).head?

/-- The mode and the key that are read from what is there. -/
def authOf (hasNull hasPassword : Bool) (firstKeyId : Option String) :
    Option OSPFInterfaceAuthMode × String :=
  if hasNull then (some .null, "")
  else if hasPassword then (some .plaintextPassword, "")
  else (firstKeyId.map fun _ => .md5, firstKeyId.getD "")

section AuthOf

variable {hasNull hasPassword : Bool} {firstKeyId : Option String}

theorem nothing_of_authOf (h : (authOf hasNull hasPassword firstKeyId).1 = none) :
    hasNull = false ∧ hasPassword = false ∧ firstKeyId = none := by
  cases hasNull <;> cases hasPassword <;> cases firstKeyId <;> simp [authOf] at h ⊢

theorem hasPassword_of_authOf
    (h : (authOf hasNull hasPassword firstKeyId).1 = some .plaintextPassword) :
    hasPassword = true := by
  cases hasNull <;> cases hasPassword <;> cases firstKeyId <;> simp [authOf] at h ⊢

theorem firstKeyId_of_authOf {k : String}
    (h : authOf hasNull hasPassword firstKeyId = (some .md5, k)) : firstKeyId = some k := by
  cases hasNull <;> cases hasPassword <;> cases firstKeyId <;> simp [authOf] at h ⊢
  exact h

end AuthOf

variable {t : ConfigTree} {name : String}

theorem firstEntry_eq (p : Path) :
    (firstEntry localeLe (t.get p)).map Prod.fst = ((keysAt t p).insertionSort localeLe).head? := by
  unfold firstEntry keysAt
  cases t.get p with
  | none => rfl
  | some c =>
    cases c with
    | leaf v => rfl
    | multi vs => rfl
    | node es =>
      simp only [Option.map_some, Option.getD_some, entries_node]
      rw [← List.head?_map, List.map_insertionSort _ localeLe _ _ fun _ _ _ _ => Iff.rfl]

theorem auth_shownInterface (name : String) (t : ConfigTree) :
    ((shownInterface localeLe name t).authMode, (shownInterface localeLe name t).md5KeyId) =
      authOf (t.store (ospfInterfacePath .ospf name ["authentication"] ++ ["null"])).isSome
        (t.store (ospfInterfacePath .ospf name ["authentication"] ++ ["plaintext-password"])).isSome
        (firstKey localeLe name t) := by
  have hauth : ∀ r, t.get (ospfInterfacePath .ospf name [] ++ "authentication" :: r) =
      t.get (ospfInterfacePath .ospf name ["authentication"] ++ r) := fun r => rfl
  unfold authOf firstKey
  rw [← firstEntry_eq]
  simp only [shownInterface, interfaceToFormValues, parseInterface, parseInterfaceAuth,
    ConfigTree.child_get, isFlagPresent_get, List.append_assoc, List.cons_append, List.nil_append,
    hauth, ne_eq, not_true_eq_false, ↓reduceIte]
  split_ifs with hnull hpassword
  · rfl
  · rfl
  · cases firstEntry localeLe
      (t.get (ospfInterfacePath .ospf name ["authentication"] ++ ["md5", "key-id"])) <;> rfl

end Shown

section Submission

variable {localeLe : String → String → Prop} [DecidableRel localeLe] {S : Schema} {name : String}
  {t : ConfigTree} {values : OSPFInterfaceFormValues}

theorem prefix_of_mem_authenticationOps {authPath : Path} {before : OSPFInterfaceFormValues}
    {o : ConfigOp} (h : o ∈ authenticationOps authPath before values) : authPath <+: o.path := by
  unfold authenticationOps at h
  split at h
  · rcases List.mem_append.mp h with h | h
    · rw [path_of_mem_clear h]
    · unfold authSetOps at h
      split at h
      · exact prefix_of_mem_setText h
      · simp only at h
        split_ifs at h
        · exact absurd h List.not_mem_nil
        · rcases List.mem_append.mp h with h | h
          · rw [List.mem_singleton.mp h]
            exact List.prefix_append _ _
          · exact prefix_of_mem_setText h
      · rw [List.mem_singleton.mp h]
        exact List.prefix_append _ _
      · exact absurd h List.not_mem_nil
  · unfold secretOps at h
    split at h
    · exact prefix_of_mem_setText h
    · exact prefix_of_mem_setText h
    · exact absurd h List.not_mem_nil

/-- The fields that are compared one by one lie apart from the authentication. -/
theorem outside_interfaceForm (name : String) (r : Path) :
    (interfaceForm .ospf name).Outside (ospfInterfacePath .ospf name ["authentication"] ++ r) := by
  apply Form.outside_below (ospfInterfacePath .ospf name []) ("authentication" :: r)
  simp [scalarFields, flagFields, Field.path, Apart]

/-- The configuration once the other fields are in place. -/
def besideAuth (localeLe : String → String → Prop) [DecidableRel localeLe] (S : Schema)
    (name : String) (t : ConfigTree) (values : OSPFInterfaceFormValues) : ConfigTree :=
  applyOps S t ((interfaceForm .ospf name).diff (shownInterface localeLe name t) values)

theorem get_besideAuth (r : Path) :
    (besideAuth localeLe S name t values).get
        (ospfInterfacePath .ospf name ["authentication"] ++ r) =
      t.get (ospfInterfacePath .ospf name ["authentication"] ++ r) := by
  apply get_applyOps_of_apart
  intro o ho
  obtain ⟨f, hf, ho⟩ := Form.mem_diff.mp ho
  rw [Field.path_of_mem_diff ho]
  exact outside_interfaceForm name r f hf

theorem applied_eq (S : Schema) (name : String) (t : ConfigTree)
    (values : OSPFInterfaceFormValues) :
    applied localeLe S name t values = applyOps S (besideAuth localeLe S name t values)
      (authenticationOps (ospfInterfacePath .ospf name ["authentication"])
        (shownInterface localeLe name t) values) :=
  List.foldl_append

theorem slot_applyOps (S : Schema) (u : ConfigTree) (ops : List ConfigOp) (q : Path) :
    (applyOps S u ops).store q = ops.foldl (actOp S q) (u.store q) := by
  rw [store_applyOps, run_edits_apply]

theorem keysAt_besideAuth (r : Path) :
    keysAt (besideAuth localeLe S name t values)
        (ospfInterfacePath .ospf name ["authentication"] ++ r) =
      keysAt t (ospfInterfacePath .ospf name ["authentication"] ++ r) := by
  unfold keysAt
  rw [get_besideAuth]

theorem slot_besideAuth (r : Path) :
    (besideAuth localeLe S name t values).store
        (ospfInterfacePath .ospf name ["authentication"] ++ r) =
      t.store (ospfInterfacePath .ospf name ["authentication"] ++ r) := by
  rw [ConfigTree.store_apply, get_besideAuth, ← ConfigTree.store_apply]

/-- Where the page reads no mode there is none. -/
theorem nothing_of_mode_none (hmode : (shownInterface localeLe name t).authMode = none) :
    t.store (ospfInterfacePath .ospf name ["authentication"] ++ ["null"]) = none ∧
      t.store (ospfInterfacePath .ospf name ["authentication"] ++ ["plaintext-password"]) = none ∧
      keysAt t (ospfInterfacePath .ospf name ["authentication"] ++ ["md5", "key-id"]) = [] := by
  have hread := congrArg Prod.fst (auth_shownInterface localeLe name t)
  obtain ⟨hnull, hpassword, hfirst⟩ := nothing_of_authOf (hread.symm.trans hmode)
  refine ⟨Option.isSome_eq_false_iff.mp hnull |> Option.isNone_iff_eq_none.mp,
    Option.isSome_eq_false_iff.mp hpassword |> Option.isNone_iff_eq_none.mp, ?_⟩
  unfold firstKey at hfirst
  rw [List.head?_eq_none_iff] at hfirst
  have hperm := List.perm_insertionSort localeLe
    (keysAt t (ospfInterfacePath .ospf name ["authentication"] ++ ["md5", "key-id"]))
  rw [hfirst] at hperm
  exact List.nil_perm.mp hperm

/-- The configuration a changed mode or key is built in. -/
def cleared (localeLe : String → String → Prop) [DecidableRel localeLe] (S : Schema)
    (name : String) (t : ConfigTree) (values : OSPFInterfaceFormValues) : ConfigTree :=
  applyOps S (besideAuth localeLe S name t values)
    (authClearOps (ospfInterfacePath .ospf name ["authentication"])
      (shownInterface localeLe name t))

theorem nothing_in_cleared (localeLe : String → String → Prop) [DecidableRel localeLe]
    (S : Schema) (name : String) (t : ConfigTree) (values : OSPFInterfaceFormValues) :
    (cleared localeLe S name t values).store
        (ospfInterfacePath .ospf name ["authentication"] ++ ["null"]) = none ∧
      (cleared localeLe S name t values).store
        (ospfInterfacePath .ospf name ["authentication"] ++ ["plaintext-password"]) = none ∧
      keysAt (cleared localeLe S name t values)
        (ospfInterfacePath .ospf name ["authentication"] ++ ["md5", "key-id"]) = [] := by
  unfold cleared authClearOps
  split_ifs with hmode
  · have hroot : ospfInterfacePath .ospf name ["authentication"] ≠ [] := by
      simp [ospfInterfacePath, ospfPath]
    have hnone : ∀ r, (applyOps S (besideAuth localeLe S name t values)
        [⟨.delete, ospfInterfacePath .ospf name ["authentication"], none⟩]).store
          (ospfInterfacePath .ospf name ["authentication"] ++ r) = none := by
      intro r
      rw [slot_applyOps, List.foldl_cons, List.foldl_nil, actOp_delete S hroot,
        if_pos (List.prefix_append _ _)]
    exact ⟨hnone _, hnone _, keysAt_of_store_none (hnone _)⟩
  · obtain ⟨hnull, hpassword, hkeys⟩ := nothing_of_mode_none (not_not.mp hmode)
    exact ⟨(slot_besideAuth _).trans hnull, (slot_besideAuth _).trans hpassword,
      (keysAt_besideAuth _).trans hkeys⟩

theorem applied_changed (hchanged : authChanged (shownInterface localeLe name t) values = true) :
    applied localeLe S name t values = applyOps S (cleared localeLe S name t values)
      (authSetOps (ospfInterfacePath .ospf name ["authentication"]) values) := by
  rw [applied_eq, authenticationOps, if_pos hchanged]
  exact List.foldl_append

theorem applied_unchanged (hsame : authChanged (shownInterface localeLe name t) values = false) :
    applied localeLe S name t values = applyOps S (besideAuth localeLe S name t values)
      (secretOps (ospfInterfacePath .ospf name ["authentication"]) values) := by
  rw [applied_eq, authenticationOps, if_neg (by simp [hsame])]

/-- Where the secret of the chosen mode is stored. -/
def secretPath (name : String) (values : OSPFInterfaceFormValues) : Option Path :=
  match values.authMode with
  | some .plaintextPassword =>
      some (ospfInterfacePath .ospf name ["authentication"] ++ ["plaintext-password"])
  | some .md5 =>
      some (ospfInterfacePath .ospf name ["authentication"] ++
        ["md5", "key-id", trim values.md5KeyId, "md5-key"])
  | _ => none

/-- The secret typed for the chosen mode. -/
def typedSecret (values : OSPFInterfaceFormValues) : String :=
  match values.authMode with
  | some .plaintextPassword => trim values.plaintextPassword
  | some .md5 => trim values.md5Key
  | _ => ""

/-- The form asked for what a change needs. -/
theorem secret_of_changed {before : OSPFInterface}
    (hchanged : authChanged (interfaceToFormValues before) values = true)
    (hsecret : authSecretMissing .ospf (some before) values = false) :
    (values.authMode = some .plaintextPassword → trim values.plaintextPassword ≠ "") ∧
      (values.authMode = some .md5 → trim values.md5KeyId ≠ "" ∧ trim values.md5Key ≠ "") := by
  simp only [authSecretMissing, formerValues, hchanged, ne_eq, not_true_eq_false, ↓reduceIte,
    Bool.not_true, Bool.false_eq_true] at hsecret
  constructor
  · intro hmode
    simpa [hmode] using hsecret
  · intro hmode
    simpa [hmode] using hsecret

section Changed

variable (hchanged : authChanged (shownInterface localeLe name t) values = true)
  (hneeds : (values.authMode = some .plaintextPassword → trim values.plaintextPassword ≠ "") ∧
    (values.authMode = some .md5 → trim values.md5KeyId ≠ "" ∧ trim values.md5Key ≠ ""))

include hchanged hneeds

/-- A changed mode is the only one there. -/
theorem auth_changed :
    authOf ((applied localeLe S name t values).store
        (ospfInterfacePath .ospf name ["authentication"] ++ ["null"])).isSome
      ((applied localeLe S name t values).store
        (ospfInterfacePath .ospf name ["authentication"] ++ ["plaintext-password"])).isSome
      (firstKey localeLe name (applied localeLe S name t values)) =
      (values.authMode, if values.authMode = some .md5 then trim values.md5KeyId else "") := by
  obtain ⟨hnull, hpassword, hkeys⟩ := nothing_in_cleared localeLe S name t values
  unfold firstKey
  rw [applied_changed hchanged, slot_applyOps, slot_applyOps, hnull, hpassword]
  unfold authSetOps
  match hmode : values.authMode with
  | none =>
    rw [show applyOps S (cleared localeLe S name t values) [] = cleared localeLe S name t values
      from rfl, hkeys]
    rfl
  | some .null => simp [actOp_create_below, authOf]
  | some .plaintextPassword => simp [foldl_setText, hneeds.1 hmode, authOf]
  | some .md5 =>
    obtain ⟨hkeyId, hkey⟩ := hneeds.2 hmode
    simp only [hkeyId, ↓reduceIte]
    have hset : keysAt (applyOps S (cleared localeLe S name t values)
        ([⟨.set, ospfInterfacePath .ospf name ["authentication"] ++
            ["md5", "key-id", trim values.md5KeyId], none⟩] ++
          setText (ospfInterfacePath .ospf name ["authentication"] ++
            ["md5", "key-id", trim values.md5KeyId, "md5-key"]) (trim values.md5Key)))
        (ospfInterfacePath .ospf name ["authentication"] ++ ["md5", "key-id"]) =
          [trim values.md5KeyId] := by
      have hcreate : keysAt (applyOp S (cleared localeLe S name t values)
          ⟨.set, ospfInterfacePath .ospf name ["authentication"] ++ ["md5", "key-id"] ++
            [trim values.md5KeyId], none⟩)
          (ospfInterfacePath .ospf name ["authentication"] ++ ["md5", "key-id"]) =
            [trim values.md5KeyId] := by
        rw [keysAt_applyOp_set, hkeys]
        rfl
      have hpath : ospfInterfacePath .ospf name ["authentication"] ++ ["md5", "key-id"] ++
          [trim values.md5KeyId] = ospfInterfacePath .ospf name ["authentication"] ++
            ["md5", "key-id", trim values.md5KeyId] := List.append_assoc _ _ _
      have hrest := keysAt_applyOps_set S (k := trim values.md5KeyId)
        (setText (ospfInterfacePath .ospf name ["authentication"] ++
          ["md5", "key-id", trim values.md5KeyId, "md5-key"]) (trim values.md5Key))
        (fun o ho => ⟨op_of_mem_setText ho, path_of_mem_setText ho ▸ ⟨["md5-key"], by simp⟩⟩)
        (hcreate.symm ▸ List.mem_singleton_self _)
      rw [hcreate, hpath] at hrest
      rw [applyOps, List.foldl_append]
      exact hrest
    rw [hset]
    simp [foldl_setText, actOp_create_below, authOf, hkey]

/-- It holds the typed secret. -/
theorem secret_changed {p : Path} (hp : secretPath name values = some p)
    (hsingle : S.multi p = false) :
    (applied localeLe S name t values).store p = some [typedSecret values] ∧
      typedSecret values ≠ "" := by
  rw [applied_changed hchanged, slot_applyOps]
  unfold secretPath at hp
  unfold authSetOps typedSecret
  match hmode : values.authMode with
  | none => simp [hmode] at hp
  | some .null => simp [hmode] at hp
  | some .plaintextPassword =>
    simp only [hmode, Option.some.injEq] at hp
    subst hp
    simp [foldl_setText, hneeds.1 hmode, hsingle]
  | some .md5 =>
    obtain ⟨hkeyId, hkey⟩ := hneeds.2 hmode
    simp only [hmode, Option.some.injEq] at hp
    subst hp
    simp [hkeyId, hkey, foldl_setText, actOp_create_below, hsingle]

end Changed

section Unchanged

variable (hsame : authChanged (shownInterface localeLe name t) values = false)

include hsame

theorem same_of_unchanged : (shownInterface localeLe name t).authMode = values.authMode ∧
    (values.authMode = some .md5 →
      (shownInterface localeLe name t).md5KeyId = values.md5KeyId) := by
  simp only [authChanged, Bool.or_eq_false_iff, Bool.and_eq_false_imp, decide_eq_true_eq, ne_eq,
    decide_not, Bool.not_eq_false'] at hsame
  exact hsame

/-- The key that is shown is one of those there. -/
theorem shownKey_mem (hmode : values.authMode = some .md5) :
    values.md5KeyId ∈
      keysAt t (ospfInterfacePath .ospf name ["authentication"] ++ ["md5", "key-id"]) := by
  obtain ⟨hbefore, hkey⟩ := same_of_unchanged hsame
  have hread := auth_shownInterface localeLe name t
  rw [hbefore, hkey hmode, hmode] at hread
  exact (List.mem_insertionSort localeLe).mp (List.mem_of_head? (firstKeyId_of_authOf hread.symm))

theorem null_unchanged :
    (applied localeLe S name t values).store
        (ospfInterfacePath .ospf name ["authentication"] ++ ["null"]) =
      t.store (ospfInterfacePath .ospf name ["authentication"] ++ ["null"]) := by
  rw [applied_unchanged hsame, slot_applyOps, slot_besideAuth]
  unfold secretOps
  split <;> simp [foldl_setText]

theorem password_unchanged :
    ((applied localeLe S name t values).store
        (ospfInterfacePath .ospf name ["authentication"] ++ ["plaintext-password"])).isSome =
      (t.store (ospfInterfacePath .ospf name ["authentication"] ++
        ["plaintext-password"])).isSome := by
  rw [applied_unchanged hsame, slot_applyOps, slot_besideAuth]
  unfold secretOps
  split
  · rename_i hmode
    have hread := congrArg Prod.fst (auth_shownInterface localeLe name t)
    have hpassword := hasPassword_of_authOf
      (hread.symm.trans ((same_of_unchanged hsame).1.trans hmode))
    rw [foldl_setText, hpassword, if_pos rfl]
    by_cases hblank : trim values.plaintextPassword = ""
    · rw [if_pos hblank]
      exact hpassword
    · rw [if_neg hblank]
      rfl
  · simp [foldl_setText]
  · rfl

theorem keys_unchanged (hkeys : ∀ k ∈ keysAt t
      (ospfInterfacePath .ospf name ["authentication"] ++ ["md5", "key-id"]), trim k = k) :
    keysAt (applied localeLe S name t values)
        (ospfInterfacePath .ospf name ["authentication"] ++ ["md5", "key-id"]) =
      keysAt t (ospfInterfacePath .ospf name ["authentication"] ++ ["md5", "key-id"]) := by
  have hbeside : keysAt (besideAuth localeLe S name t values)
        (ospfInterfacePath .ospf name ["authentication"] ++ ["md5", "key-id"]) =
      keysAt t (ospfInterfacePath .ospf name ["authentication"] ++ ["md5", "key-id"]) :=
    keysAt_besideAuth ["md5", "key-id"]
  rw [applied_unchanged hsame, ← hbeside]
  unfold secretOps
  split
  · unfold keysAt
    rw [get_applyOps_of_apart]
    intro o ho
    rw [path_of_mem_setText ho]
    exact (apart_append_left _).mpr (by decide)
  · rename_i hmode
    have hmem := shownKey_mem hsame hmode
    refine keysAt_applyOps_set S (k := values.md5KeyId) _ (fun o ho => ⟨op_of_mem_setText ho, ?_⟩)
      (hbeside.symm ▸ hmem)
    rw [path_of_mem_setText ho, hkeys _ hmem]
    exact ⟨["md5-key"], by simp⟩
  · rfl

/-- A mode and a key that stay are read again. -/
theorem auth_unchanged (hkeys : ∀ k ∈ keysAt t
      (ospfInterfacePath .ospf name ["authentication"] ++ ["md5", "key-id"]), trim k = k) :
    ((shownInterface localeLe name (applied localeLe S name t values)).authMode,
        (shownInterface localeLe name (applied localeLe S name t values)).md5KeyId) =
      ((shownInterface localeLe name t).authMode, (shownInterface localeLe name t).md5KeyId) := by
  rw [auth_shownInterface, auth_shownInterface, null_unchanged hsame, password_unchanged hsame,
    firstKey, keys_unchanged hsame hkeys, firstKey]

theorem secret_unchanged {p : Path} (hp : secretPath name values = some p)
    (hsingle : S.multi p = false) :
    (applied localeLe S name t values).store p =
      if typedSecret values = "" then t.store p else some [typedSecret values] := by
  rw [applied_unchanged hsame, slot_applyOps]
  unfold secretPath at hp
  unfold secretOps typedSecret
  match hmode : values.authMode with
  | none => simp [hmode] at hp
  | some .null => simp [hmode] at hp
  | some .plaintextPassword =>
    simp only [hmode, Option.some.injEq] at hp
    subst hp
    simp [slot_besideAuth, foldl_setText, hsingle]
  | some .md5 =>
    simp only [hmode, Option.some.injEq] at hp
    subst hp
    simp [slot_besideAuth, foldl_setText, hsingle]

end Unchanged

theorem store_applied (S : Schema) (name : String) (t : ConfigTree)
    (values : OSPFInterfaceFormValues) :
    (applied localeLe S name t values).store = run S.multi t.store
      (edits ((interfaceForm .ospf name).diff (shownInterface localeLe name t) values ++
        authenticationOps (ospfInterfacePath .ospf name ["authentication"])
          (shownInterface localeLe name t) values)) :=
  store_applyOps S t _

/-- Each other field holds its value or is left alone. -/
theorem slot_applied (hsingle : (interfaceForm .ospf name).SingleIn S)
    {f : FormDiff.Field OSPFInterfaceFormValues} (hf : f ∈ (interfaceForm .ospf name).fields) :
    (applied localeLe S name t values).store f.path =
      if f.Same (shownInterface localeLe name t) values then t.store f.path
      else f.outcome values (t.store f.path) := by
  rw [store_applied]
  have houtside := outside_interfaceForm name []
  rw [List.append_nil] at houtside
  exact Form.run_diff_append_below (hsingle f hf) hf houtside
    (fun o ho => prefix_of_mem_authenticationOps ho) t.store

theorem mem_secretOps {o : ConfigOp}
    (h : o ∈ secretOps (ospfInterfacePath .ospf name ["authentication"]) values) :
    secretPath name values = some o.path := by
  unfold secretOps at h
  unfold secretPath
  split at h
  · rw [path_of_mem_setText h]
  · rw [path_of_mem_setText h]
  · exact absurd h List.not_mem_nil

/-- The mode and the key of the form are read, whether they changed or not. -/
theorem auth_applied
    (htrim : ∀ k ∈ keysAt t (ospfInterfacePath .ospf name ["authentication"] ++
      ["md5", "key-id"]), trim k = k)
    (hasked : authSecretMissing .ospf
      (some (parseInterface localeLe .ospf name (t.get (ospfInterfacePath .ospf name [])))) values =
        false) :
    (shownInterface localeLe name (applied localeLe S name t values)).authMode = values.authMode ∧
      (values.authMode = some .md5 →
        (shownInterface localeLe name (applied localeLe S name t values)).md5KeyId =
          trim values.md5KeyId) := by
  cases hchanged : authChanged (shownInterface localeLe name t) values with
  | true =>
    have hauth := (auth_shownInterface localeLe name (applied localeLe S name t values)).trans
      (auth_changed hchanged (secret_of_changed hchanged hasked))
    exact ⟨congrArg Prod.fst hauth, fun hmode => (congrArg Prod.snd hauth).trans (if_pos hmode)⟩
  | false =>
    obtain ⟨hmode, hkey⟩ := same_of_unchanged hchanged
    have hauth := auth_unchanged (S := S) hchanged htrim
    refine ⟨(congrArg Prod.fst hauth).trans hmode, fun hmd5 => ?_⟩
    rw [htrim _ (shownKey_mem hchanged hmd5)]
    exact (congrArg Prod.snd hauth).trans (hkey hmd5)

/-- The secret of the form is the one that was typed, else the one that was there. -/
theorem secret_applied {p : Path} (hp : secretPath name values = some p)
    (hsingle : S.multi p = false)
    (hasked : authSecretMissing .ospf
      (some (parseInterface localeLe .ospf name (t.get (ospfInterfacePath .ospf name [])))) values =
        false) :
    (applied localeLe S name t values).store p =
        (if typedSecret values = "" then t.store p else some [typedSecret values]) ∧
      ((applied localeLe S name t values).store p = none →
        (shownInterface localeLe name t).authMode = values.authMode ∧ t.store p = none) := by
  cases hchanged : authChanged (shownInterface localeLe name t) values with
  | true =>
    obtain ⟨hstored, htyped⟩ :=
      secret_changed hchanged (secret_of_changed hchanged hasked) hp hsingle
    rw [if_neg htyped, hstored]
    exact ⟨rfl, fun hnone => absurd hnone (by simp)⟩
  | false =>
    have hstored := secret_unchanged hchanged hp hsingle
    refine ⟨hstored, fun hnone => ?_⟩
    rw [hnone] at hstored
    split_ifs at hstored
    exact ⟨(same_of_unchanged hchanged).1, hstored.symm⟩

end Submission

/-- What a submission does to an interface. -/
structure Kept (localeLe : String → String → Prop) [DecidableRel localeLe] (name : String)
    (t t' : ConfigTree) (values : OSPFInterfaceFormValues) : Prop where
  mode : (shownInterface localeLe name t').authMode = values.authMode
  keyId : values.authMode = some .md5 →
    (shownInterface localeLe name t').md5KeyId = trim values.md5KeyId
  secret : ∀ p, secretPath name values = some p →
    t'.store p = if typedSecret values = "" then t.store p else some [typedSecret values]
  lacking : ∀ p, secretPath name values = some p → t'.store p = none →
    (shownInterface localeLe name t).authMode = values.authMode ∧ t.store p = none
  fields : ∀ f ∈ (interfaceForm .ospf name).fields,
    f.Holds values (t'.store f.path) ∨
      f.Same (shownInterface localeLe name t) values ∧ t'.store f.path = t.store f.path
  untouched : Untouched (fun p => p = ospfInterfacePath .ospf name ["authentication"] ∨
    Form.Changed (interfaceForm .ospf name) (shownInterface localeLe name t) values p)
    t.store t'.store
  sameMode : authChanged (shownInterface localeLe name t) values = false →
    Untouched (fun p => secretPath name values = some p ∨
      Form.Changed (interfaceForm .ospf name) (shownInterface localeLe name t) values p)
      t.store t'.store

/-- Where the form asks for no secret, a submission leaves the mode, the key and the secret
of the form: the secret that was typed, else the one that was there. The names of nodes
have no blanks around them in VyOS. -/
theorem applied_keeps_authentication (localeLe : String → String → Prop) [DecidableRel localeLe]
    (S : Schema) (name : String) (t : ConfigTree) (values : OSPFInterfaceFormValues)
    (htrim : ∀ k ∈ keysAt t (ospfInterfacePath .ospf name ["authentication"] ++
      ["md5", "key-id"]), trim k = k)
    (hsingle : (interfaceForm .ospf name).SingleIn S)
    (hsecret : ∀ p, secretPath name values = some p → S.multi p = false)
    (hasked : authSecretMissing .ospf
      (some (parseInterface localeLe .ospf name (t.get (ospfInterfacePath .ospf name [])))) values =
        false) :
    Kept localeLe name t (applied localeLe S name t values) values := by
  obtain ⟨hmode, hkey⟩ := auth_applied (S := S) htrim hasked
  constructor
  case mode => exact hmode
  case keyId => exact hkey
  case secret => exact fun p hp => (secret_applied hp (hsecret p hp) hasked).1
  case lacking => exact fun p hp => (secret_applied hp (hsecret p hp) hasked).2
  case fields =>
    intro f hf
    have hslot : (applied localeLe S name t values).store f.path =
        if f.Same (shownInterface localeLe name t) values then t.store f.path
        else f.outcome values (t.store f.path) := slot_applied hsingle hf
    split_ifs at hslot with hsame
    · exact .inr ⟨hsame, hslot⟩
    · rw [hslot]
      exact .inl (Field.holds_outcome f values _)
  case untouched =>
    rw [store_applied]
    exact Form.untouched_diff_append S _ _ values
      (fun o ho => prefix_of_mem_authenticationOps ho) t.store
  case sameMode =>
    intro hsame
    rw [store_applied]
    refine (untouched_run S _ t.store).mono ?_
    rintro p ⟨o, ho, rfl⟩
    rcases List.mem_append.mp ho with ho | ho
    · exact .inr (Form.changed_of_mem_diff ho)
    · rw [authenticationOps, if_neg (by simp [hsame])] at ho
      exact .inl (mem_secretOps ho)

/-- An interface with two MD5 keys. -/
def twoKeys : ConfigTree :=
  .node [("protocols", .node [("ospf", .node [("interface", .node [("eth0", .node
    [("authentication", .node [("md5", .node [("key-id", .node
      [("2", .node [("md5-key", .leaf "new")]), ("1", .node [("md5-key", .leaf "old")])])])]),
      ("cost", .leaf "10")])])])])]

/-- The mode changes to a password, with the order of strings for `localeCompare`. -/
theorem twoKeys_kept :
    let values := { shownInterface (· ≤ ·) "eth0" twoKeys with
      authMode := some .plaintextPassword, plaintextPassword := " secret " }
    (applied (· ≤ ·) ⟨fun _ => false⟩ "eth0" twoKeys values).store
      (ospfInterfacePath .ospf "eth0" ["authentication", "plaintext-password"]) =
        some ["secret"] := by
  intro values
  have hsingle : (interfaceForm .ospf "eth0").SingleIn ⟨fun _ => false⟩ := by
    intro f _
    cases f <;> trivial
  have hkept := applied_keeps_authentication (· ≤ ·) ⟨fun _ => false⟩ "eth0" twoKeys values
    (by decide +kernel) hsingle (fun _ _ => rfl) (by decide +kernel)
  have hsecret := hkept.secret _ rfl
  exact hsecret.trans (by decide +kernel)

end VyosClient.OspfInterface
