import VyosClient.FormTables
import VyosClient.HaVrrp

/-!
The authentication of a VRRP group has a type and a password, and VyOS takes only both
or neither. The password is write-only, so the form cannot compare it: it keeps the pair
whole by what it knows of the fetched one.
-/

namespace VyosClient.VrrpAuthentication

open PathStore ConfigTrees Configure FormDiff FormTables AbsentLeaves HaVrrp

/-- The part of the form that is compared field by field. -/
def groupFieldForm (name : String) : Form VRRPGroupFormValues :=
  Form.below (vrrpGroupPath name [])
    (groupFlagFields.map (fun f => .flag f.1 f.2) ++ groupScalarFields.map fun f => .text f.1 f.2)
    (by decide) (by decide) (by decide +kernel)

def authPath (name : String) : Path := vrrpGroupPath name [] ++ ["authentication"]

section Submission

variable {N : Type} [JsNumber N] {S : Schema} {name : String} {t : ConfigTree}
  {values : VRRPGroupFormValues}

/-- The configuration after the operations of a submission. -/
def applied (N : Type) [JsNumber N] (S : Schema) (name : String) (t : ConfigTree)
    (values : VRRPGroupFormValues) : ConfigTree :=
  applyOps S t (vrrpGroupFormToOps name
    (some (parseVRRPGroup name (t.get (vrrpGroupPath name [])) : VRRPGroup N)) values)

/-- The part of a submission that the authentication is made of. -/
def authOps (t : ConfigTree) (name : String) (values : VRRPGroupFormValues) : List ConfigOp :=
  authenticationOps (vrrpGroupPath name []) (t.store (authPath name ++ ["password"])).isSome
    (readText (t.store (authPath name ++ ["type"]))) values

theorem ops_eq (hwf : t.WellFormed) :
    vrrpGroupFormToOps name
        (some (parseVRRPGroup name (t.get (vrrpGroupPath name [])) : VRRPGroup N)) values =
      (groupFieldForm name).diff (groupForm N t name) values ++ authOps t name values := by
  have hpassword : (parseVRRPGroup name (t.get (vrrpGroupPath name [])) :
      VRRPGroup N).hasAuthenticationPassword =
        (t.store (authPath name ++ ["password"])).isSome := by
    rw [ConfigTree.store_apply, Option.isSome_map]
    simp only [parseVRRPGroup, ConfigTree.child_get, authPath]
  have htype : (groupForm N t name).authenticationType =
      readText (t.store (authPath name ++ ["type"])) := by
    simp only [groupForm, vrrpGroupToFormValues, parseVRRPGroup, ConfigTree.child_get, authPath,
      getD_asString_get hwf]
  unfold authOps
  rw [← hpassword, ← htype]
  simp only [vrrpGroupFormToOps, Form.diff, groupFieldForm, Form.below, List.flatMap_map,
    List.flatMap_append, Option.isNone_some, Bool.false_eq_true, ↓reduceIte, List.nil_append]
  rfl

theorem store_applied (hwf : t.WellFormed) :
    (applied N S name t values).store = run S.multi t.store
      (edits ((groupFieldForm name).diff (groupForm N t name) values ++
        authOps t name values)) := by
  rw [applied, store_applyOps, ops_eq hwf]

theorem outside_groupFieldForm (name : String) (r : Path) :
    (groupFieldForm name).Outside (authPath name ++ r) := by
  rw [authPath, List.append_assoc]
  apply Form.outside_below
  simp [groupFlagFields, groupScalarFields, Field.path, Apart]

theorem slot_authentication (hwf : t.WellFormed) (r : Path) :
    (applied N S name t values).store (authPath name ++ r) =
      (authOps t name values).foldl (actOp S (authPath name ++ r))
        (t.store (authPath name ++ r)) := by
  rw [store_applied hwf, Form.run_diff_append_outside S (outside_groupFieldForm name r),
    run_edits_apply]

theorem prefix_of_mem_authOps {o : ConfigOp} (h : o ∈ authOps t name values) :
    authPath name <+: o.path := by
  unfold authOps authenticationOps at h
  simp only at h
  split_ifs at h
  · rw [List.mem_singleton.mp h]
    exact List.prefix_refl _
  · exact absurd h List.not_mem_nil
  · simp only [List.mem_cons, List.not_mem_nil, or_false] at h
    rcases h with rfl | rfl
    · exact List.prefix_append _ _
    · exact List.prefix_append _ _
  · rw [List.mem_singleton.mp h]
    exact List.prefix_append _ _
  · exact absurd h List.not_mem_nil

theorem slot_applied (values : VRRPGroupFormValues) (hwf : t.WellFormed)
    (hsingle : (groupFieldForm name).SingleIn S)
    {f : FormDiff.Field VRRPGroupFormValues} (hf : f ∈ (groupFieldForm name).fields) :
    (applied N S name t values).store f.path =
      if f.Same (groupForm N t name) values then t.store f.path
      else f.outcome values (t.store f.path) := by
  rw [store_applied hwf]
  have houtside := outside_groupFieldForm name []
  rw [List.append_nil] at houtside
  exact Form.run_diff_append_below (hsingle f hf) hf houtside (fun o ho => prefix_of_mem_authOps ho)
    t.store

/-- VyOS takes one password and one type. -/
def SinglePair (S : Schema) (name : String) : Prop :=
  S.multi (authPath name ++ ["password"]) = false ∧ S.multi (authPath name ++ ["type"]) = false

theorem authOps_eq (t : ConfigTree) (name : String) (values : VRRPGroupFormValues) :
    authOps t name values =
      if trim values.authenticationType = "" then
        if (t.store (authPath name ++ ["password"])).isSome ∧
            readText (t.store (authPath name ++ ["type"])) ≠ "" then
          [⟨.delete, authPath name, none⟩]
        else []
      else if trim values.authenticationPassword ≠ "" then
        [⟨.set, authPath name ++ ["password"], some (trim values.authenticationPassword)⟩,
          ⟨.set, authPath name ++ ["type"], some (trim values.authenticationType)⟩]
      else if (t.store (authPath name ++ ["password"])).isSome ∧
          trim values.authenticationType ≠ readText (t.store (authPath name ++ ["type"])) then
        [⟨.set, authPath name ++ ["type"], some (trim values.authenticationType)⟩]
      else [] := by
  simp only [authOps, authenticationOps, Bool.and_eq_true, decide_eq_true_eq]
  rfl

theorem password_applied (values : VRRPGroupFormValues) (hwf : t.WellFormed)
    (hsingle : SinglePair S name) :
    (applied N S name t values).store (authPath name ++ ["password"]) =
      if trim values.authenticationType = "" then
        if (t.store (authPath name ++ ["password"])).isSome ∧
            readText (t.store (authPath name ++ ["type"])) ≠ "" then none
        else t.store (authPath name ++ ["password"])
      else if trim values.authenticationPassword ≠ "" then
        some [trim values.authenticationPassword]
      else t.store (authPath name ++ ["password"]) := by
  have hroot : authPath name ≠ [] := by simp [authPath]
  rw [slot_authentication hwf, authOps_eq]
  split_ifs with hblank hauth htyped hretyped <;>
    simp_all [actOp_set_below, actOp_delete S hroot, hsingle.1]

theorem type_applied (values : VRRPGroupFormValues) (hwf : t.WellFormed)
    (hsingle : SinglePair S name) :
    (applied N S name t values).store (authPath name ++ ["type"]) =
      if trim values.authenticationType = "" then
        if (t.store (authPath name ++ ["password"])).isSome ∧
            readText (t.store (authPath name ++ ["type"])) ≠ "" then none
        else t.store (authPath name ++ ["type"])
      else if trim values.authenticationPassword ≠ "" ∨
          (t.store (authPath name ++ ["password"])).isSome ∧
            trim values.authenticationType ≠ readText (t.store (authPath name ++ ["type"])) then
        some [trim values.authenticationType]
      else t.store (authPath name ++ ["type"]) := by
  have hroot : authPath name ≠ [] := by simp [authPath]
  rw [slot_authentication hwf, authOps_eq]
  split_ifs with hblank hauth htyped hretyped <;>
    simp_all [actOp_set_below, actOp_delete S hroot, hsingle.2]

/-- The password and the type are both there or both absent. -/
def Whole (name : String) (t : ConfigTree) : Prop :=
  (t.store (authPath name ++ ["password"])).isSome = (t.store (authPath name ++ ["type"])).isSome

theorem blank_applied (hwf : t.WellFormed) (hpair : SinglePair S name) (hwhole : Whole name t)
    (hvalue : "" ∉ (t.store (authPath name ++ ["type"])).getD [])
    (hblank : trim values.authenticationType = "") :
    (applied N S name t values).store (authPath name ++ ["password"]) = none ∧
      (applied N S name t values).store (authPath name ++ ["type"]) = none := by
  -- A type that is there reads as a text that is not empty.
  have hread : readText (t.store (authPath name ++ ["type"])) = "" →
      t.store (authPath name ++ ["type"]) = none := readText_eq_blank hvalue
  unfold Whole at hwhole
  rw [password_applied values hwf hpair, type_applied values hwf hpair, if_pos hblank,
    if_pos hblank]
  split_ifs with hauth
  · exact ⟨rfl, rfl⟩
  · cases hstored : t.store (authPath name ++ ["type"]) with
    | none =>
      rw [hstored] at hwhole
      exact ⟨Option.not_isSome_iff_eq_none.mp (by simp [hwhole]), rfl⟩
    | some vs =>
      rw [hstored] at hwhole hread hauth
      exact absurd ⟨hwhole, fun h => absurd (hread h) (by simp)⟩ hauth

theorem typed_applied (hwf : t.WellFormed) (hpair : SinglePair S name)
    (hblank : trim values.authenticationType ≠ "")
    (htyped : trim values.authenticationPassword ≠ "") :
    (applied N S name t values).store (authPath name ++ ["password"]) =
        some [trim values.authenticationPassword] ∧
      (applied N S name t values).store (authPath name ++ ["type"]) =
        some [trim values.authenticationType] := by
  rw [password_applied values hwf hpair, type_applied values hwf hpair, if_neg hblank,
    if_neg hblank, if_pos htyped, if_pos (.inl htyped)]
  exact ⟨rfl, rfl⟩

theorem kept_applied (hwf : t.WellFormed) (hpair : SinglePair S name)
    (hblank : trim values.authenticationType ≠ "")
    (htyped : trim values.authenticationPassword = "") :
    (applied N S name t values).store (authPath name ++ ["password"]) =
        t.store (authPath name ++ ["password"]) ∧
      ((t.store (authPath name ++ ["password"])).isSome →
        readText ((applied N S name t values).store (authPath name ++ ["type"])) =
          trim values.authenticationType) := by
  rw [password_applied values hwf hpair, type_applied values hwf hpair, if_neg hblank,
    if_neg hblank, if_neg (not_not.mpr htyped)]
  refine ⟨rfl, fun hhad => ?_⟩
  split_ifs with hretyped
  · exact readText_singleton _
  · by_contra hne
    exact hretyped (.inr ⟨hhad, Ne.symm hne⟩)

theorem Whole.applied (hwf : t.WellFormed) (hpair : SinglePair S name) (hwhole : Whole name t)
    (hvalue : "" ∉ (t.store (authPath name ++ ["type"])).getD []) :
    Whole name (applied N S name t values) := by
  unfold Whole
  by_cases hblank : trim values.authenticationType = ""
  · obtain ⟨h, h'⟩ := blank_applied (N := N) hwf hpair hwhole hvalue hblank
    rw [h, h']
  · rw [password_applied values hwf hpair, type_applied values hwf hpair, if_neg hblank,
      if_neg hblank]
    split_ifs with htyped hretyped hretyped
    · rfl
    · exact absurd (.inl htyped) hretyped
    · rcases hretyped with h | h
      · exact absurd h htyped
      · exact h.1
    · exact hwhole

end Submission

/-- What a submission does to a group. -/
structure PairKept (N : Type) [JsNumber N] (name : String) (t t' : ConfigTree)
    (values : VRRPGroupFormValues) : Prop where
  whole : Whole name t'
  blank : trim values.authenticationType = "" →
    t'.store (authPath name ++ ["password"]) = none ∧ t'.store (authPath name ++ ["type"]) = none
  typed : trim values.authenticationType ≠ "" → trim values.authenticationPassword ≠ "" →
    t'.store (authPath name ++ ["password"]) = some [trim values.authenticationPassword] ∧
      t'.store (authPath name ++ ["type"]) = some [trim values.authenticationType]
  kept : trim values.authenticationType ≠ "" → trim values.authenticationPassword = "" →
    t'.store (authPath name ++ ["password"]) = t.store (authPath name ++ ["password"]) ∧
      ((t.store (authPath name ++ ["password"])).isSome →
        readText (t'.store (authPath name ++ ["type"])) = trim values.authenticationType)
  fields : ∀ f ∈ (groupFieldForm name).fields, ¬ f.Same (groupForm N t name) values →
    f.Holds values (t'.store f.path)
  untouched : Untouched (fun p => p = authPath name ∨
    Form.Changed (groupFieldForm name) (groupForm N t name) values p) t.store t'.store

/-- A group whose authentication is whole has it whole after every submission: a blank type
removes both, a typed password is stored with the type, and a blank one leaves the
stored password under the type of the form. No value that VyOS holds is empty. -/
theorem applied_keeps_pair (N : Type) [JsNumber N] (S : Schema) (name : String) (t : ConfigTree)
    (values : VRRPGroupFormValues) (hwf : t.WellFormed) (hwhole : Whole name t)
    (hvalue : "" ∉ (t.store (authPath name ++ ["type"])).getD [])
    (hsingle : (groupFieldForm name).SingleIn S) (hpair : SinglePair S name) :
    PairKept N name t (applied N S name t values) values := by
  constructor
  case whole => exact hwhole.applied hwf hpair hvalue
  case blank => exact blank_applied hwf hpair hwhole hvalue
  case typed => exact typed_applied hwf hpair
  case kept => exact kept_applied hwf hpair
  case fields =>
    intro f hf hchanged
    have hslot := slot_applied (N := N) values hwf hsingle hf
    rw [if_neg hchanged] at hslot
    rw [hslot]
    exact Field.holds_outcome f values _
  case untouched =>
    rw [store_applied hwf]
    exact Form.untouched_diff_append S _ _ values (fun o ho => prefix_of_mem_authOps ho) t.store

/-- A group with a password. -/
def securedGroup : ConfigTree :=
  .node [("high-availability", .node [("vrrp", .node [("group", .node [("wan", .node
    [("authentication", .node [("password", .leaf "secret"), ("type", .leaf "ah")]),
      ("vrid", .leaf "10")])])])])]

/-- The type changes and the password stays. -/
theorem securedGroup_keeps_pair :
    let values := { groupForm ℕ securedGroup "wan" with authenticationType := "plaintext-password" }
    (applied ℕ ⟨fun _ => false⟩ "wan" securedGroup values).store (authPath "wan" ++ ["password"]) =
      some ["secret"] := by
  intro values
  have hsingle : (groupFieldForm "wan").SingleIn ⟨fun _ => false⟩ := by
    intro f _
    cases f <;> trivial
  have hkept := applied_keeps_pair ℕ ⟨fun _ => false⟩ "wan" securedGroup values (by decide)
    (by unfold Whole; decide) (by decide) hsingle ⟨rfl, rfl⟩
  exact (hkept.kept (by decide +kernel) (by decide +kernel)).1.trans (by decide)

end VyosClient.VrrpAuthentication
