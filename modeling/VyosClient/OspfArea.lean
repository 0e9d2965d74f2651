import VyosClient.FormTables

/-!
Areas of OSPF and OSPFv3: what the pages read of one, and what the area form queues.
The type of an area is a node of its own. The form clears it when another type is
chosen and compares its fields one by one when the type stays. Kept here is what the
form reads.
-/

namespace VyosClient.OspfArea

open PathStore ConfigTrees Configure FormDiff FormTables

inductive OSPFProtocol
  | ospf
  | ospfv3
  deriving DecidableEq, Repr

def OSPFProtocol.text : OSPFProtocol → String
  | ospf => "ospf"
  | ospfv3 => "ospfv3"

inductive OSPFAreaType
  | stub
  | nssa
  deriving DecidableEq, Repr

def OSPFAreaType.text : OSPFAreaType → String
  | stub => "stub"
  | nssa => "nssa"

def ospfPath (protocol : OSPFProtocol) (rest : Path) : Path :=
  ["protocols", protocol.text] ++ rest

def ospfAreaPath (protocol : OSPFProtocol) (areaId : String) (rest : Path) : Path :=
  ospfPath protocol (["area", areaId] ++ rest)

structure OSPFArea where
  id : String
  areaType : Option OSPFAreaType
  noSummary : Bool
  defaultCost : Option String
  nssaTranslate : Option String
  nssaDefaultInformationOriginate : Bool
  authentication : Option String
  deriving DecidableEq, Repr

def parseAreaType (areaTypeRoot : Unknown) : Option OSPFAreaType :=
  if isRecord (child areaTypeRoot "nssa") then some .nssa
  else if isRecord (child areaTypeRoot "stub") then some .stub
  else none

def parseArea (protocol : OSPFProtocol) (id : String) (raw : Unknown) : OSPFArea :=
  let areaTypeRoot := child raw "area-type"
  let areaType := parseAreaType areaTypeRoot
  let activeTypeNode := areaType.bind fun type => child areaTypeRoot type.text
  let nssa := child areaTypeRoot "nssa"
  { id := id
    areaType := areaType
    noSummary := isFlagPresent activeTypeNode "no-summary"
    defaultCost := asString (child activeTypeNode "default-cost")
    nssaTranslate :=
      if protocol = .ospf ∧ areaType = some .nssa then asString (child nssa "translate") else none
    nssaDefaultInformationOriginate :=
      if protocol = .ospfv3 ∧ areaType = some .nssa then
        isFlagPresent nssa "default-information-originate"
      else false
    authentication :=
      if protocol = .ospf then asString (child raw "authentication") else none }

/-- `none` stands for the empty area type, a normal area. -/
structure OSPFAreaFormValues where
  areaType : Option OSPFAreaType := none
  noSummary : Bool := false
  defaultCost : String := ""
  nssaTranslate : String := ""
  nssaDefaultInformationOriginate : Bool := false
  authentication : String := ""
  deriving DecidableEq, Repr

def blankAreaFormValues : OSPFAreaFormValues := {}

def areaToFormValues (area : OSPFArea) : OSPFAreaFormValues where
  areaType := area.areaType
  noSummary := area.noSummary
  defaultCost := area.defaultCost.getD ""
  nssaTranslate := area.nssaTranslate.getD ""
  nssaDefaultInformationOriginate := area.nssaDefaultInformationOriginate
  authentication := area.authentication.getD ""

/-- The fields of a type, which are compared one by one while the type stays. -/
def typeFields (protocol : OSPFProtocol) :
    Option OSPFAreaType → List (FormDiff.Field OSPFAreaFormValues)
  | none => []
  | some type =>
      [.flag (·.noSummary) ["area-type", type.text, "no-summary"],
        .text (·.defaultCost) ["area-type", type.text, "default-cost"]] ++
      (if type = .nssa ∧ protocol = .ospf then
        [.text (·.nssaTranslate) ["area-type", type.text, "translate"]]
      else []) ++
      if type = .nssa ∧ protocol = .ospfv3 then
        [.flag (·.nssaDefaultInformationOriginate)
          ["area-type", type.text, "default-information-originate"]]
      else []

def authenticationFields (protocol : OSPFProtocol) : List (FormDiff.Field OSPFAreaFormValues) :=
  if protocol = .ospf then [.text (·.authentication) ["authentication"]] else []

/-- What is compared field by field while the type stays. -/
def areaForm (protocol : OSPFProtocol) (areaId : String) (type : Option OSPFAreaType) :
    Form OSPFAreaFormValues :=
  Form.below (ospfAreaPath protocol areaId [])
    (typeFields protocol type ++ authenticationFields protocol)
    (by rcases type with _ | _ | _ <;> cases protocol <;> decide)
    (by rcases type with _ | _ | _ <;> cases protocol <;> decide)
    (by rcases type with _ | _ | _ <;> cases protocol <;> decide +kernel)

/-- A type is set with all its fields. -/
def typeSetOps (protocol : OSPFProtocol) (areaTypePath : Path) (values : OSPFAreaFormValues) :
    List ConfigOp :=
  match values.areaType with
  | none => []
  | some type =>
      [⟨.set, areaTypePath ++ [type.text], none⟩] ++
        setFlag (areaTypePath ++ [type.text, "no-summary"]) values.noSummary ++
        setText (areaTypePath ++ [type.text, "default-cost"]) values.defaultCost ++
        if type = .nssa then
          (if protocol = .ospf then
            setText (areaTypePath ++ [type.text, "translate"]) values.nssaTranslate
          else []) ++
          (if protocol = .ospfv3 then
            setFlag (areaTypePath ++ [type.text, "default-information-originate"])
              values.nssaDefaultInformationOriginate
          else [])
        else []

def typeClearOps (areaTypePath : Path) (beforeValues : OSPFAreaFormValues) : List ConfigOp :=
  if beforeValues.areaType ≠ none then [⟨.delete, areaTypePath, none⟩] else []

/-- `before` is the area as last fetched, `none` when one is created. -/
def areaFormToOps (protocol : OSPFProtocol) (areaId : String) (before : Option OSPFArea)
    (values : OSPFAreaFormValues) : List ConfigOp :=
  let beforeValues := match before with
    | some area => areaToFormValues area
    | none => blankAreaFormValues
  let base := ospfAreaPath protocol areaId []
  let areaTypePath := base ++ ["area-type"]
  (if beforeValues.areaType ≠ values.areaType then
    typeClearOps areaTypePath beforeValues ++ typeSetOps protocol areaTypePath values
  else
    (typeFields protocol values.areaType).flatMap fun f =>
      (Field.under base f).diff beforeValues values) ++
  (authenticationFields protocol).flatMap fun f => (Field.under base f).diff beforeValues values

/-- The values of the form when it is opened. -/
def shownArea (protocol : OSPFProtocol) (areaId : String) (t : ConfigTree) : OSPFAreaFormValues :=
  areaToFormValues (parseArea protocol areaId (t.get (ospfAreaPath protocol areaId [])))

/-- The configuration after the operations of a submission. -/
def applied (S : Schema) (protocol : OSPFProtocol) (areaId : String) (t : ConfigTree)
    (values : OSPFAreaFormValues) : ConfigTree :=
  applyOps S t (areaFormToOps protocol areaId
    (some (parseArea protocol areaId (t.get (ospfAreaPath protocol areaId [])))) values)

/-- At most one type is there, and as a node. -/
def AtMostOneType (protocol : OSPFProtocol) (areaId : String) (t : ConfigTree) : Prop :=
  ∃ active : Option OSPFAreaType, ∀ type : OSPFAreaType,
    t.store (ospfAreaPath protocol areaId ["area-type"] ++ [type.text]) =
      if active = some type then some [] else none

/-- The fields that have a meaning for the type and the protocol; the others blank. -/
def applicable (protocol : OSPFProtocol) (values : OSPFAreaFormValues) : OSPFAreaFormValues where
  areaType := values.areaType
  noSummary := values.areaType.isSome && values.noSummary
  defaultCost := if values.areaType.isSome then values.defaultCost else ""
  nssaTranslate :=
    if protocol = .ospf ∧ values.areaType = some .nssa then values.nssaTranslate else ""
  nssaDefaultInformationOriginate :=
    if protocol = .ospfv3 ∧ values.areaType = some .nssa then
      values.nssaDefaultInformationOriginate
    else false
  authentication := if protocol = .ospf then values.authentication else ""

/-- What the form can hold: the selections are those of the page, the cost is a numeral
or empty. -/
structure WellTyped (values : OSPFAreaFormValues) : Prop where
  defaultCost : values.defaultCost = "" ∨ (FirewallParse.number values.defaultCost).isSome
  nssaTranslate : values.nssaTranslate ∈ ["", "always", "candidate", "never"]
  authentication : values.authentication ∈ ["", "plaintext-password", "md5"]

section Reads

variable {protocol : OSPFProtocol} {areaId : String} {t : ConfigTree}

theorem areaType_shownArea (hwf : t.WellFormed) {active : Option OSPFAreaType}
    (h : ∀ type : OSPFAreaType,
      t.store (ospfAreaPath protocol areaId ["area-type"] ++ [type.text]) =
        if active = some type then some [] else none) :
    (shownArea protocol areaId t).areaType = active := by
  have hrecord : ∀ type : OSPFAreaType,
      isRecord (t.get (ospfAreaPath protocol areaId [] ++ ["area-type"] ++ [type.text])) = true ↔
        active = some type := by
    intro type
    refine (isRecord_get hwf _).trans ?_
    rw [show t.store (ospfAreaPath protocol areaId [] ++ ["area-type"] ++ [type.text]) = _ from
      h type]
    split_ifs with hactive <;> simp [hactive]
  have hnssa := hrecord .nssa
  have hstub := hrecord .stub
  simp only [OSPFAreaType.text] at hnssa hstub
  simp only [shownArea, areaToFormValues, parseArea, parseAreaType, ConfigTree.child_get]
  split_ifs with hn hs
  · exact (hnssa.mp hn).symm
  · exact (hstub.mp hs).symm
  · match active with
    | none => rfl
    | some .nssa => exact absurd (hnssa.mpr rfl) hn
    | some .stub => exact absurd (hstub.mpr rfl) hs

theorem reads_type (hwf : t.WellFormed) :
    ∀ f ∈ typeFields protocol (shownArea protocol areaId t).areaType,
      (Field.under (ospfAreaPath protocol areaId []) f).Reads (shownArea protocol areaId t)
        (t.store (ospfAreaPath protocol areaId [] ++ f.path)) := by
  have hmode : (shownArea protocol areaId t).areaType =
      parseAreaType (t.get (ospfAreaPath protocol areaId [] ++ ["area-type"])) := by
    rw [← ConfigTree.child_get]
    rfl
  rw [hmode]
  cases htype : parseAreaType (t.get (ospfAreaPath protocol areaId [] ++ ["area-type"])) with
  | none => exact fun f hf => absurd hf List.not_mem_nil
  | some type =>
    simp only [shownArea, areaToFormValues, parseArea, ConfigTree.child_get, htype,
      Option.bind_some, asString_get hwf, isFlagPresent_get]
    cases type <;> cases protocol <;>
      simp [typeFields, OSPFAreaType.text, Field.under, FormDiff.Field.Reads, Field.path]

theorem reads_authentication (hwf : t.WellFormed) :
    ∀ f ∈ authenticationFields protocol,
      (Field.under (ospfAreaPath protocol areaId []) f).Reads (shownArea protocol areaId t)
        (t.store (ospfAreaPath protocol areaId [] ++ f.path)) := by
  cases protocol with
  | ospfv3 => exact fun f hf => absurd hf List.not_mem_nil
  | ospf =>
    intro f hf
    rw [List.mem_singleton.mp hf]
    simp only [shownArea, areaToFormValues, parseArea, ↓reduceIte, ConfigTree.child_get,
      asString_get hwf]
    rfl

/-- Each field is read from where the form stores it. -/
theorem reads_shownArea (protocol : OSPFProtocol) (areaId : String) (hwf : t.WellFormed) :
    ∀ f ∈ typeFields protocol (shownArea protocol areaId t).areaType ++
        authenticationFields protocol,
      (Field.under (ospfAreaPath protocol areaId []) f).Reads (shownArea protocol areaId t)
        (t.store (Field.under (ospfAreaPath protocol areaId []) f).path) := by
  intro f hf
  rw [FormTables.Field.path_under]
  rcases List.mem_append.mp hf with hf | hf
  · exact reads_type hwf f hf
  · exact reads_authentication hwf f hf

end Reads

section Submission

variable {S : Schema} {protocol : OSPFProtocol} {areaId : String} {t : ConfigTree}
  {values : OSPFAreaFormValues}

theorem wellFormed_applied (hwf : t.WellFormed) :
    (applied S protocol areaId t values).WellFormed :=
  WellFormed.applyOps hwf S _

theorem path_of_mem_typeFields {type : OSPFAreaType} :
    ∀ f ∈ typeFields protocol (some type), ∃ r, f.path = "area-type" :: type.text :: r := by
  cases type <;> cases protocol <;> simp [typeFields, Field.path]

/-- A type that is set brings its own node about, and nothing of another. -/
theorem foldl_typeSetOps_type (S : Schema) (protocol : OSPFProtocol) (pre : Path)
    (values : OSPFAreaFormValues) (type : OSPFAreaType) :
    (typeSetOps protocol pre values).foldl (actOp S (pre ++ [type.text])) none =
      if values.areaType = some type then some [] else none := by
  unfold typeSetOps
  match values.areaType with
  | none => rfl
  | some active =>
    cases active <;> cases type <;> cases protocol <;>
      simp [OSPFAreaType.text, List.foldl_append, foldl_setText, foldl_setFlag, actOp_create_below]

/-- Each field of a type that is set holds its value. -/
theorem holds_typeSetOps (S : Schema) (protocol : OSPFProtocol) (areaId : String)
    {type : OSPFAreaType} (htype : values.areaType = some type)
    (htrim : ∀ f ∈ typeFields protocol (some type), FormTables.Field.Trimmed values f) :
    ∀ f ∈ typeFields protocol (some type), f.Holds values
      ((typeSetOps protocol (ospfAreaPath protocol areaId ["area-type"]) values).foldl
        (actOp S (ospfAreaPath protocol areaId [] ++ f.path)) none) := by
  have hpath : ∀ r : Path, ospfAreaPath protocol areaId [] ++ "area-type" :: r =
      ospfAreaPath protocol areaId ["area-type"] ++ r := fun r => rfl
  unfold typeSetOps
  rw [htype]
  cases type <;> cases protocol <;>
    simp [typeFields, OSPFAreaType.text, FormDiff.Field.Holds, Field.path, hpath, foldl_setText,
      foldl_setFlag, actOp_create_below, FormTables.Field.Trimmed, addValue] at htrim ⊢ <;> grind

theorem diff_areaForm (protocol : OSPFProtocol) (areaId : String) (type : Option OSPFAreaType)
    (before values : OSPFAreaFormValues) :
    (areaForm protocol areaId type).diff before values =
      ((typeFields protocol type).flatMap fun f =>
        (Field.under (ospfAreaPath protocol areaId []) f).diff before values) ++
      (authenticationFields protocol).flatMap fun f =>
        (Field.under (ospfAreaPath protocol areaId []) f).diff before values := by
  simp only [Form.diff, areaForm, Form.below, List.flatMap_map, List.flatMap_append]

theorem store_stayed (hstay : (shownArea protocol areaId t).areaType = values.areaType) :
    (applied S protocol areaId t values).store = run S.multi t.store
      (edits ((areaForm protocol areaId values.areaType).diff (shownArea protocol areaId t)
        values)) := by
  have hops : areaFormToOps protocol areaId
      (some (parseArea protocol areaId (t.get (ospfAreaPath protocol areaId [])))) values =
      (areaForm protocol areaId values.areaType).diff (shownArea protocol areaId t) values := by
    rw [diff_areaForm]
    exact congrArg (· ++ _) (if_neg (not_not.mpr hstay))
  rw [applied, store_applyOps, hops]

theorem store_switched (hswitch : (shownArea protocol areaId t).areaType ≠ values.areaType) :
    (applied S protocol areaId t values).store =
      run S.multi (run S.multi t.store
        (edits (typeClearOps (ospfAreaPath protocol areaId ["area-type"])
          (shownArea protocol areaId t) ++
          typeSetOps protocol (ospfAreaPath protocol areaId ["area-type"]) values)))
        (edits ((areaForm protocol areaId none).diff (shownArea protocol areaId t) values)) := by
  have hops : areaFormToOps protocol areaId
      (some (parseArea protocol areaId (t.get (ospfAreaPath protocol areaId [])))) values =
      (typeClearOps (ospfAreaPath protocol areaId ["area-type"]) (shownArea protocol areaId t) ++
        typeSetOps protocol (ospfAreaPath protocol areaId ["area-type"]) values) ++
      (areaForm protocol areaId none).diff (shownArea protocol areaId t) values := by
    rw [diff_areaForm]
    exact congrArg (· ++ _) (if_pos hswitch)
  rw [applied, store_applyOps, hops, edits_append, run_append]

/-- VyOS takes one value for each text of the form. -/
def SingleTexts (S : Schema) (protocol : OSPFProtocol) (areaId : String) : Prop :=
  ∀ type, (areaForm protocol areaId type).SingleIn S

theorem mem_areaForm {type : Option OSPFAreaType} {f : FormDiff.Field OSPFAreaFormValues}
    (hf : f ∈ typeFields protocol type ++ authenticationFields protocol) :
    Field.under (ospfAreaPath protocol areaId []) f ∈ (areaForm protocol areaId type).fields :=
  List.mem_map_of_mem hf

/-- What the fields of a type leave alone at the nodes of the types. -/
theorem type_beside_fields (protocol : OSPFProtocol) (active : Option OSPFAreaType)
    (type : OSPFAreaType) :
    ∀ f ∈ typeFields protocol active ++ authenticationFields protocol,
      ¬ f.path <+: ["area-type", type.text] ∧
        (active ≠ some type → ∀ r, Apart f.path ("area-type" :: type.text :: r)) := by
  rcases active with _ | _ | _ <;> cases protocol <;> cases type <;>
    simp [typeFields, authenticationFields, OSPFAreaType.text, Field.path, Apart]

theorem outside_areaForm {active : Option OSPFAreaType} {type : OSPFAreaType}
    (h : active ≠ some type) (r : Path) :
    (areaForm protocol areaId active).Outside
      (ospfAreaPath protocol areaId ["area-type"] ++ type.text :: r) := by
  apply Form.outside_below (ospfAreaPath protocol areaId []) ("area-type" :: type.text :: r)
  intro p hp
  obtain ⟨f, hf, rfl⟩ := List.mem_map.mp hp
  exact (type_beside_fields protocol active type f hf).2 h r

/-- Another type is built from nothing. -/
theorem slot_switched (hwf : t.WellFormed) (hone : AtMostOneType protocol areaId t)
    (hswitch : (shownArea protocol areaId t).areaType ≠ values.areaType) (type : OSPFAreaType)
    (r : Path) :
    (applied S protocol areaId t values).store
        (ospfAreaPath protocol areaId ["area-type"] ++ type.text :: r) =
      (typeSetOps protocol (ospfAreaPath protocol areaId ["area-type"]) values).foldl
        (actOp S (ospfAreaPath protocol areaId ["area-type"] ++ type.text :: r)) none := by
  obtain ⟨active, hactive⟩ := hone
  have hshown := areaType_shownArea hwf hactive
  rw [store_switched hswitch, Form.run_diff_outside (outside_areaForm (by simp) r),
    run_edits_apply, List.foldl_append]
  congr 1
  unfold typeClearOps
  split_ifs with hhad
  · have hroot : ospfAreaPath protocol areaId ["area-type"] ≠ [] := by
      simp [ospfAreaPath, ospfPath]
    rw [List.foldl_cons, List.foldl_nil, actOp_delete S hroot, if_pos (List.prefix_append _ _)]
  · rw [not_not.mp hhad] at hshown
    have hnone : t.get (ospfAreaPath protocol areaId ["area-type"] ++ [type.text]) = none := by
      have hslot := hactive type
      rw [← hshown, if_neg (by simp)] at hslot
      exact Option.map_eq_none_iff.mp hslot
    rw [List.append_cons, List.foldl_nil, ConfigTree.store_append, hnone]
    rfl

/-- The type of the form is the only one there. -/
theorem types_applied (hwf : t.WellFormed) (hone : AtMostOneType protocol areaId t)
    (type : OSPFAreaType) :
    (applied S protocol areaId t values).store
        (ospfAreaPath protocol areaId ["area-type"] ++ [type.text]) =
      if values.areaType = some type then some [] else none := by
  by_cases hstay : (shownArea protocol areaId t).areaType = values.areaType
  · obtain ⟨active, hactive⟩ := hone
    have hslot := hactive type
    rw [← areaType_shownArea hwf hactive, hstay] at hslot
    rw [store_stayed hstay]
    by_cases htype : values.areaType = some type
    · rw [if_pos htype] at hslot ⊢
      apply (Form.untouched_diff S _ _ values t.store).node _ _ hslot
      rintro p ⟨f, hf, _, rfl⟩
      obtain ⟨g, hg, rfl⟩ := List.mem_map.mp hf
      rw [FormTables.Field.path_under]
      intro hprefix
      exact (type_beside_fields protocol values.areaType type g hg).1
        ((List.prefix_append_right_inj (ospfAreaPath protocol areaId [])).mp hprefix)
    · rw [Form.run_diff_outside (outside_areaForm htype []), hslot]
  · rw [slot_switched hwf hone hstay type [], foldl_typeSetOps_type]

theorem areaType_applied (hwf : t.WellFormed) (hone : AtMostOneType protocol areaId t) :
    (shownArea protocol areaId (applied S protocol areaId t values)).areaType = values.areaType :=
  areaType_shownArea (wellFormed_applied hwf) (types_applied hwf hone)

theorem prefix_of_mem_switch {areaTypePath : Path} {before : OSPFAreaFormValues} {o : ConfigOp}
    (h : o ∈ typeClearOps areaTypePath before ++ typeSetOps protocol areaTypePath values) :
    areaTypePath <+: o.path := by
  rcases List.mem_append.mp h with h | h
  · rw [path_of_mem_clear h]
  · unfold typeSetOps at h
    split at h
    · exact absurd h List.not_mem_nil
    · simp only [List.mem_append, List.mem_singleton] at h
      rcases h with ((rfl | h) | h) | h
      · exact List.prefix_append _ _
      · exact prefix_of_mem_setFlag h
      · exact prefix_of_mem_setText h
      · split_ifs at h
        all_goals simp only [List.append_nil, List.nil_append, List.mem_append,
          List.not_mem_nil] at h
        · exact h.elim prefix_of_mem_setText prefix_of_mem_setFlag
        · exact prefix_of_mem_setText h
        · exact prefix_of_mem_setFlag h

/-- The operations on the type leave the authentication alone. -/
theorem authentication_switched (hsingle : SingleTexts S protocol areaId)
    (hswitch : (shownArea protocol areaId t).areaType ≠ values.areaType)
    {f : FormDiff.Field OSPFAreaFormValues} (hf : f ∈ authenticationFields protocol) :
    (applied S protocol areaId t values).store
        (Field.under (ospfAreaPath protocol areaId []) f).path =
      if (Field.under (ospfAreaPath protocol areaId []) f).Same (shownArea protocol areaId t) values
      then t.store (Field.under (ospfAreaPath protocol areaId []) f).path
      else (Field.under (ospfAreaPath protocol areaId []) f).outcome values
        (t.store (Field.under (ospfAreaPath protocol areaId []) f).path) := by
  have hapart : Apart (ospfAreaPath protocol areaId ["area-type"])
      (Field.under (ospfAreaPath protocol areaId []) f).path := by
    unfold authenticationFields at hf
    split_ifs at hf
    · rw [List.mem_singleton.mp hf]
      have hkeys : Apart ["area-type"] ["authentication"] := by decide
      exact (apart_append_left (ospfAreaPath protocol areaId [])).mpr hkeys
    · exact absurd hf List.not_mem_nil
  have hmem : Field.under (ospfAreaPath protocol areaId []) f ∈
      (areaForm protocol areaId none).fields := mem_areaForm (List.mem_append_right _ hf)
  rw [store_switched hswitch, Form.run_diff (hsingle none) hmem, run_edits_of_apart S]
  intro o ho
  obtain ⟨r, hr⟩ := prefix_of_mem_switch ho
  have happend := hapart.append r []
  rwa [List.append_nil, hr] at happend

/-- Each field that has a meaning is read as it was entered. -/
theorem same_applied (hwf : t.WellFormed) (hone : AtMostOneType protocol areaId t)
    (hsingle : SingleTexts S protocol areaId)
    (htrim : ∀ f ∈ typeFields protocol values.areaType ++ authenticationFields protocol,
      FormTables.Field.Trimmed values f) :
    ∀ f ∈ typeFields protocol values.areaType ++ authenticationFields protocol,
      f.Same values (shownArea protocol areaId (applied S protocol areaId t values)) := by
  have hbefore := reads_shownArea protocol areaId hwf
  have hshown := reads_shownArea protocol areaId
    (wellFormed_applied hwf : (applied S protocol areaId t values).WellFormed)
  rw [areaType_applied hwf hone] at hshown
  intro f hf
  have htrim' := (FormTables.Field.trimmed_under (ospfAreaPath protocol areaId [])).mpr (htrim f hf)
  apply (FormTables.Field.same_under (ospfAreaPath protocol areaId [])).mp
  by_cases hstay : (shownArea protocol areaId t).areaType = values.areaType
  · rw [hstay] at hbefore
    have hslot : (applied S protocol areaId t values).store
          (Field.under (ospfAreaPath protocol areaId []) f).path =
        if (Field.under (ospfAreaPath protocol areaId []) f).Same (shownArea protocol areaId t)
          values then t.store (Field.under (ospfAreaPath protocol areaId []) f).path
        else (Field.under (ospfAreaPath protocol areaId []) f).outcome values
          (t.store (Field.under (ospfAreaPath protocol areaId []) f).path) := by
      rw [store_stayed hstay]
      exact Form.run_diff (hsingle values.areaType) (mem_areaForm hf) values t.store
    exact FormTables.Field.same_of_saved
      (FormTables.Field.saved_of_slot hslot (hbefore f hf) (hshown f hf)) htrim'
  · rcases List.mem_append.mp hf with htype | hauth
    · cases hactive : values.areaType with
      | none =>
        rw [hactive] at htype
        exact absurd htype List.not_mem_nil
      | some type =>
        rw [hactive] at htype htrim
        have hholds := holds_typeSetOps S protocol areaId hactive
          (fun g hg => htrim g (List.mem_append_left _ hg)) f htype
        obtain ⟨r, hr⟩ := path_of_mem_typeFields f htype
        have hslot := slot_switched (S := S) hwf hone hstay type r
        rw [hr] at hholds
        have hread := hshown f hf
        rw [FormTables.Field.path_under, hr] at hread
        exact FormTables.Field.same_of_holds hread
          (FormTables.Field.holds_under.mpr (hslot ▸ hholds)) htrim'
    · exact FormTables.Field.same_of_saved (FormTables.Field.saved_of_slot
        (authentication_switched hsingle hstay hauth)
        (hbefore f (List.mem_append_right _ hauth)) (hshown f hf)) htrim'

end Submission

section Results

variable {protocol : OSPFProtocol}

theorem applicable_congr {v w : OSPFAreaFormValues} (htype : v.areaType = w.areaType)
    (h : ∀ f ∈ typeFields protocol v.areaType ++ authenticationFields protocol, f.Same v w) :
    applicable protocol v = applicable protocol w := by
  unfold applicable
  rw [← htype]
  rcases hactive : v.areaType with _ | _ | _ <;> rw [hactive] at h <;> cases protocol <;>
    simp [typeFields, authenticationFields, FormDiff.Field.Same] at h ⊢ <;> simp_all

/-- The parser reads nothing that has no meaning. -/
theorem applicable_shownArea (protocol : OSPFProtocol) (areaId : String) (t : ConfigTree) :
    applicable protocol (shownArea protocol areaId t) = shownArea protocol areaId t := by
  have hflag : ∀ key, isFlagPresent none key = false := fun _ => rfl
  have htext : ∀ key, asString (child none key) = none := fun _ => rfl
  rcases htype : parseAreaType (child (t.get (ospfAreaPath protocol areaId [])) "area-type") with
    _ | _ | _ <;> cases protocol <;>
    simp [applicable, shownArea, areaToFormValues, parseArea, htype, hflag, htext]

theorem trimmed_of_wellTyped {values : OSPFAreaFormValues} (h : WellTyped values)
    (type : Option OSPFAreaType) :
    ∀ f ∈ typeFields protocol type ++ authenticationFields protocol,
      FormTables.Field.Trimmed values f := by
  have hcost : trim values.defaultCost = values.defaultCost := by
    rcases h.defaultCost with hcost | hcost
    · rw [hcost]
      decide
    · exact trim_of_number hcost
  have hchoice : ∀ v : String, ∀ choices : List String, v ∈ choices →
      (∀ w ∈ choices, trim w = w) → trim v = v := fun v choices hv hall => hall v hv
  have htranslate := hchoice _ _ h.nssaTranslate (by decide +kernel)
  have hauthentication := hchoice _ _ h.authentication (by decide +kernel)
  rcases type with _ | _ | _ <;> cases protocol <;>
    simp [typeFields, authenticationFields, FormTables.Field.Trimmed, hcost, htranslate,
      hauthentication]

/-- The nodes of an area that its form may write. -/
def Owned (protocol : OSPFProtocol) (areaId : String) (p : Path) : Prop :=
  p = ospfAreaPath protocol areaId ["area-type"] ∨
    protocol = .ospf ∧ p = ospfAreaPath protocol areaId ["authentication"]

theorem owned_of_mem_ops {areaId : String} {area : OSPFArea} {values : OSPFAreaFormValues}
    {o : ConfigOp} (h : o ∈ areaFormToOps protocol areaId (some area) values) :
    ∃ p, Owned protocol areaId p ∧ p <+: o.path := by
  have hfields : ∀ fields : List (FormDiff.Field OSPFAreaFormValues),
      (∀ f ∈ fields, ∃ p, Owned protocol areaId p ∧
        p <+: ospfAreaPath protocol areaId [] ++ f.path) →
      o ∈ (fields.flatMap fun f => (Field.under (ospfAreaPath protocol areaId []) f).diff
        (areaToFormValues area) values) → ∃ p, Owned protocol areaId p ∧ p <+: o.path := by
    intro fields hall ho
    obtain ⟨f, hf, ho⟩ := List.mem_flatMap.mp ho
    rw [FormDiff.Field.path_of_mem_diff ho, FormTables.Field.path_under]
    exact hall f hf
  rcases List.mem_append.mp h with h | h
  · split_ifs at h
    · exact ⟨_, .inl rfl, prefix_of_mem_switch h⟩
    · refine hfields _ (fun f hf => ?_) h
      cases htype : values.areaType with
      | none =>
        rw [htype] at hf
        exact absurd hf List.not_mem_nil
      | some type =>
        rw [htype] at hf
        obtain ⟨r, hr⟩ := path_of_mem_typeFields f hf
        rw [hr]
        exact ⟨_, .inl rfl, List.prefix_append (ospfAreaPath protocol areaId ["area-type"]) _⟩
  · refine hfields _ (fun f hf => ?_) h
    unfold authenticationFields at hf
    split_ifs at hf with hospf
    · rw [List.mem_singleton.mp hf]
      exact ⟨_, .inr ⟨hospf, rfl⟩, List.prefix_refl _⟩
    · exact absurd hf List.not_mem_nil

end Results

/-- After a submission the parser reads the type of the form and exactly the fields that
have a meaning for it, at most one type is there, and all else of the area is as it was:
the rest of the type's node, too, while the type stays. -/
theorem applied_reads_applicable (S : Schema) (protocol : OSPFProtocol) (areaId : String)
    (t : ConfigTree) (values : OSPFAreaFormValues) (hwf : t.WellFormed)
    (hone : AtMostOneType protocol areaId t) (hsingle : SingleTexts S protocol areaId)
    (htyped : WellTyped values) :
    shownArea protocol areaId (applied S protocol areaId t values) = applicable protocol values ∧
      AtMostOneType protocol areaId (applied S protocol areaId t values) ∧
      Untouched (Owned protocol areaId) t.store (applied S protocol areaId t values).store ∧
      ((shownArea protocol areaId t).areaType = values.areaType →
        Untouched (Form.Changed (areaForm protocol areaId values.areaType)
          (shownArea protocol areaId t) values) t.store
          (applied S protocol areaId t values).store) := by
  refine ⟨?_, ⟨values.areaType, types_applied hwf hone⟩, ?_, fun hstay => ?_⟩
  · rw [← applicable_shownArea]
    exact (applicable_congr (areaType_applied hwf hone).symm
      (same_applied hwf hone hsingle (trimmed_of_wellTyped htyped values.areaType))).symm
  · rw [applied, store_applyOps]
    refine (untouched_run S _ t.store).of_below ?_
    rintro p ⟨o, ho, rfl⟩
    exact owned_of_mem_ops ho
  · rw [store_stayed hstay]
    exact Form.untouched_diff S _ _ values t.store

/-- A stub area with a cost. -/
def stubArea (cost : String) : ConfigTree :=
  .node [("protocols", .node [("ospf", .node [("area", .node [("1", .node
    [("area-type", .node [("stub", .node [("default-cost", .leaf cost)])]),
      ("network", .multi ["10.0.0.0/8"])])])])])]

/-- The area becomes an NSSA; the cost of the form goes with it. -/
theorem stubArea_reads_applicable :
    let values : OSPFAreaFormValues :=
      { areaType := some .nssa, defaultCost := "20", nssaTranslate := "always" }
    shownArea .ospf "1" (applied ⟨fun p => p.getLast? = some "network"⟩ .ospf "1" (stubArea "10")
      values) = values := by
  intro values
  have hone : AtMostOneType .ospf "1" (stubArea "10") := by
    refine ⟨some .stub, fun type => ?_⟩
    cases type <;> decide
  have hsingle : SingleTexts ⟨fun p => p.getLast? = some "network"⟩ .ospf "1" := by
    intro type
    rcases type with _ | _ | _ <;> simp [Form.SingleIn, areaForm, Form.below, typeFields,
      authenticationFields, Field.under, FormDiff.Field.SingleIn, ospfAreaPath, ospfPath]
  have hall := (applied_reads_applicable _ .ospf "1" (stubArea "10") values (by decide) hone hsingle
    ⟨.inr (by decide), by decide, by decide⟩).1
  exact hall.trans (by decide)

end VyosClient.OspfArea
