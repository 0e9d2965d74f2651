import VyosClient.FormTables
import VyosClient.LoadBalancingWan
import VyosClient.TreeKeys

/-!
The limit of a WAN rule. VyOS has defaults for all its leaves, the parser shows them,
and the form writes the node as a whole when any of its fields changes. What the parser
then reads are the values of the form again, with the defaults where a field is empty.
-/

namespace VyosClient.WanLimit

open PathStore ConfigTrees Configure FormDiff FormTables AbsentLeaves LoadBalancingWan

/-- `Number(String(n))` is `n` for every finite number, where -0 counts as 0, and no number
is written with blanks. -/
class LawfulJsNumber (N : Type) [JsNumber N] : Prop where
  number_text : ∀ n : N, JsNumber.number (JsNumber.text n) = some n
  trim_text : ∀ n : N, trim (JsNumber.text n) = JsNumber.text n
  text_ne : ∀ n : N, JsNumber.text n ≠ ""

instance lawfulNumerals : LawfulJsNumber ℕ where
  number_text n := FirewallParse.number_toString n
  trim_text n := trim_of_number (by
    show (FirewallParse.number (toString n)).isSome
    rw [FirewallParse.number_toString]
    rfl)
  text_ne n h := by
    have hnumber := FirewallParse.number_toString n
    rw [show toString n = "" from h] at hnumber
    exact absurd hnumber (by simp [FirewallParse.number])

/-- The part of the form that is compared field by field. -/
def ruleFieldForm (ruleId : String) : Form WANRuleFormValues :=
  Form.below (wanRulePath ruleId [])
    (flagFields.map (fun f => .flag f.1 f.2) ++ textFields.map fun f => .text f.1 f.2)
    (by decide) (by decide) (by decide +kernel)

def limitPath (ruleId : String) : Path := wanRulePath ruleId [] ++ ["limit"]

section Limit

variable {N : Type} [JsNumber N]

/-- What the parser reads from the leaves of a limit. -/
def limitOf (rate period burst threshold : Slot String) : WANRuleLimit N where
  rate := ((rate.map readValues).bind JsNumber.number).getD (JsNumber.nat 5)
  period := (period.map readValues).getD "second"
  burst := ((burst.map readValues).bind JsNumber.number).getD (JsNumber.nat 5)
  threshold := (threshold.map readValues).getD "below"

/-- The rule of a configuration. -/
def currentRule (N : Type) [JsNumber N] (ruleId : String) (t : ConfigTree) : WANRule N :=
  parseWANRule ruleId (t.get (wanRulePath ruleId []))

theorem limit_currentRule {t : ConfigTree} (ruleId : String) (hwf : t.WellFormed) :
    (currentRule N ruleId t).limit =
      if t.store (limitPath ruleId) = some [] then
        some (limitOf (t.store (limitPath ruleId ++ ["rate"]))
          (t.store (limitPath ruleId ++ ["period"])) (t.store (limitPath ruleId ++ ["burst"]))
          (t.store (limitPath ruleId ++ ["threshold"])))
      else none := by
  simp only [currentRule, parseWANRule, parseWANRuleLimit, isRecord_get hwf, numberOrUndefined,
    ConfigTree.child_get, asString_get hwf, limitPath, limitOf]
  rfl

end Limit

/-- A rate or a burst is entered. -/
def hasLimit (values : WANRuleFormValues) : Bool :=
  trim values.limitRate ≠ "" || trim values.limitBurst ≠ ""

def limitChanged (beforeValues values : WANRuleFormValues) : Bool :=
  beforeValues.limitRate ≠ values.limitRate || beforeValues.limitPeriod ≠ values.limitPeriod ||
    beforeValues.limitBurst ≠ values.limitBurst ||
    beforeValues.limitThreshold ≠ values.limitThreshold

/-- The node of the limit with the fields that are not empty. -/
def limitSetOps (path : Path) (values : WANRuleFormValues) : List ConfigOp :=
  [⟨.set, path, none⟩] ++ setText (path ++ ["rate"]) (trim values.limitRate) ++
    setText (path ++ ["period"]) values.limitPeriod ++
    setText (path ++ ["burst"]) (trim values.limitBurst) ++
    setText (path ++ ["threshold"]) values.limitThreshold

def limitClearOps (path : Path) (hadLimit : Bool) : List ConfigOp :=
  if hadLimit then [⟨.delete, path, none⟩] else []

theorem limitOps_eq (ruleId : String) (hadLimit : Bool) (beforeValues values : WANRuleFormValues) :
    limitOps (wanRulePath ruleId []) hadLimit beforeValues values =
      if hasLimit values != hadLimit || limitChanged beforeValues values then
        limitClearOps (limitPath ruleId) hadLimit ++
          if hasLimit values then limitSetOps (limitPath ruleId) values else []
      else [] := by
  have hfields : ∀ fields : List (String × String),
      ((fields.filter fun f => f.2 ≠ "").map fun f =>
        (⟨.set, limitPath ruleId ++ [f.1], some f.2⟩ : ConfigOp)) =
      fields.flatMap fun f => setText (limitPath ruleId ++ [f.1]) f.2 := by
    intro fields
    induction fields with
    | nil => rfl
    | cons f fields ih =>
      rw [List.flatMap_cons, ← ih, setText]
      split_ifs with hf <;> simp [hf]
  have hshape : limitOps (wanRulePath ruleId []) hadLimit beforeValues values =
      if hasLimit values != hadLimit || limitChanged beforeValues values then
        if !hasLimit values then limitClearOps (limitPath ruleId) hadLimit
        else limitClearOps (limitPath ruleId) hadLimit ++ [⟨.set, limitPath ruleId, none⟩] ++
          (([("rate", trim values.limitRate), ("period", values.limitPeriod),
            ("burst", trim values.limitBurst), ("threshold", values.limitThreshold)] :
              List (String × String)).filter fun f => f.2 ≠ "").map
                fun f => ⟨.set, limitPath ruleId ++ [f.1], some f.2⟩
      else [] := rfl
  rw [hshape, hfields]
  cases hasLimit values <;> simp [limitSetOps]

section Submission

variable {N : Type} [JsNumber N] {S : Schema} {ruleId : String} {t : ConfigTree}
  {values : WANRuleFormValues}

/-- The values of the form when it is opened. -/
def shownRule (N : Type) [JsNumber N] (ruleId : String) (t : ConfigTree) : WANRuleFormValues :=
  wanRuleToFormValues (currentRule N ruleId t)

/-- The configuration after the operations of a submission. -/
def applied (N : Type) [JsNumber N] (S : Schema) (ruleId : String) (t : ConfigTree)
    (values : WANRuleFormValues) : ConfigTree :=
  applyOps S t (wanRuleFormToOps ruleId (some (currentRule N ruleId t)) values)

def hadLimit (N : Type) [JsNumber N] (ruleId : String) (t : ConfigTree) : Bool :=
  (currentRule N ruleId t).limit.isSome

theorem wellFormed_applied (hwf : t.WellFormed) : (applied N S ruleId t values).WellFormed :=
  WellFormed.applyOps hwf S _

theorem ops_eq (ruleId : String) (t : ConfigTree) (values : WANRuleFormValues) :
    wanRuleFormToOps ruleId (some (currentRule N ruleId t)) values =
      (ruleFieldForm ruleId).diff (shownRule N ruleId t) values ++
        limitOps (wanRulePath ruleId []) (hadLimit N ruleId t) (shownRule N ruleId t) values := by
  simp only [wanRuleFormToOps, Form.diff, ruleFieldForm, Form.below, List.flatMap_map,
    List.flatMap_append, Option.isNone_some, Bool.false_eq_true, ↓reduceIte, List.nil_append]
  rfl

theorem store_applied (S : Schema) (ruleId : String) (t : ConfigTree)
    (values : WANRuleFormValues) :
    (applied N S ruleId t values).store = run S.multi t.store
      (edits ((ruleFieldForm ruleId).diff (shownRule N ruleId t) values ++
        limitOps (wanRulePath ruleId []) (hadLimit N ruleId t) (shownRule N ruleId t) values)) := by
  rw [applied, store_applyOps, ops_eq]

theorem outside_ruleFieldForm (ruleId : String) {key : String}
    (hkey : key ∈ ["limit", "interface"]) (r : Path) :
    (ruleFieldForm ruleId).Outside (wanRulePath ruleId [] ++ key :: r) := by
  apply Form.outside_below
  simp only [List.mem_cons, List.not_mem_nil, or_false] at hkey
  rcases hkey with rfl | rfl <;>
    simp [flagFields, textFields, scalarFields, sideFields, matchFields, Field.path, Apart]

theorem prefix_of_mem_limitOps {hadLimit : Bool} {before : WANRuleFormValues} {o : ConfigOp}
    (h : o ∈ limitOps (wanRulePath ruleId []) hadLimit before values) :
    limitPath ruleId <+: o.path := by
  rw [limitOps_eq] at h
  split at h
  · rcases List.mem_append.mp h with h | h
    · rw [path_of_mem_clear h]
    · split_ifs at h
      · simp only [limitSetOps, List.mem_append, List.mem_singleton] at h
        rcases h with (((rfl | h) | h) | h) | h
        · exact List.prefix_refl _
        all_goals exact prefix_of_mem_setText h
      · exact absurd h List.not_mem_nil
  · exact absurd h List.not_mem_nil

/-- The limit is written. -/
def limitWritten (N : Type) [JsNumber N] (ruleId : String) (t : ConfigTree)
    (values : WANRuleFormValues) : Bool :=
  hasLimit values != hadLimit N ruleId t || limitChanged (shownRule N ruleId t) values

theorem slot_limit (S : Schema) (ruleId : String) (t : ConfigTree) (values : WANRuleFormValues)
    (r : Path) :
    (applied N S ruleId t values).store (limitPath ruleId ++ r) =
      (if limitWritten N ruleId t values then
        limitClearOps (limitPath ruleId) (hadLimit N ruleId t) ++
          if hasLimit values then limitSetOps (limitPath ruleId) values else []
      else []).foldl (actOp S (limitPath ruleId ++ r)) (t.store (limitPath ruleId ++ r)) := by
  have houtside : (ruleFieldForm ruleId).Outside (limitPath ruleId ++ r) := by
    rw [limitPath, ← List.append_cons]
    exact outside_ruleFieldForm ruleId List.mem_cons_self r
  rw [store_applied, Form.run_diff_append_outside S houtside, run_edits_apply, limitOps_eq]
  rfl

/-- A limit that is there is a node. -/
def LimitIsNode (ruleId : String) (t : ConfigTree) : Prop :=
  t.store (limitPath ruleId) = none ∨ t.store (limitPath ruleId) = some []

theorem hadLimit_eq (hwf : t.WellFormed) (hnode : LimitIsNode ruleId t) :
    t.store (limitPath ruleId) = if hadLimit N ruleId t then some [] else none := by
  unfold hadLimit
  rw [limit_currentRule ruleId hwf]
  rcases hnode with h | h <;> simp [h]

/-- A limit that is written is built from nothing. -/
theorem slot_written (hwf : t.WellFormed) (hnode : LimitIsNode ruleId t)
    (hwritten : limitWritten N ruleId t values = true) (r : Path) :
    (applied N S ruleId t values).store (limitPath ruleId ++ r) =
      (if hasLimit values then limitSetOps (limitPath ruleId) values else []).foldl
        (actOp S (limitPath ruleId ++ r)) none := by
  have hslot := hadLimit_eq (N := N) hwf hnode
  have hcleared : (limitClearOps (limitPath ruleId) (hadLimit N ruleId t)).foldl
      (actOp S (limitPath ruleId ++ r)) (t.store (limitPath ruleId ++ r)) = none := by
    unfold limitClearOps
    split_ifs with hhad
    · have hroot : limitPath ruleId ≠ [] := by simp [limitPath]
      rw [List.foldl_cons, List.foldl_nil, actOp_delete S hroot, if_pos (List.prefix_append _ _)]
    · rw [if_neg hhad] at hslot
      rw [List.foldl_nil, ConfigTree.store_append, Option.map_eq_none_iff.mp hslot]
      rfl
  rw [slot_limit, if_pos hwritten, List.foldl_append, hcleared]

theorem slot_unwritten (hwritten : limitWritten N ruleId t values = false) (r : Path) :
    (applied N S ruleId t values).store (limitPath ruleId ++ r) =
      t.store (limitPath ruleId ++ r) := by
  rw [slot_limit, if_neg (by simp [hwritten])]
  rfl

/-- The leaf that an entered text leaves. -/
def entered (v : String) : Slot String := if v = "" then none else some [v]

/-- What a limit that is written holds. -/
theorem foldl_limitSetOps (S : Schema) (pre : Path) (values : WANRuleFormValues) :
    (limitSetOps pre values).foldl (actOp S (pre ++ [])) none = some [] ∧
      (limitSetOps pre values).foldl (actOp S (pre ++ ["rate"])) none =
        entered (trim values.limitRate) ∧
      (limitSetOps pre values).foldl (actOp S (pre ++ ["period"])) none =
        entered values.limitPeriod ∧
      (limitSetOps pre values).foldl (actOp S (pre ++ ["burst"])) none =
        entered (trim values.limitBurst) ∧
      (limitSetOps pre values).foldl (actOp S (pre ++ ["threshold"])) none =
        entered values.limitThreshold := by
  have hcreate : ∀ q x, actOp S (pre ++ q) x ⟨.set, pre, none⟩ =
      if q = [] then some (x.getD []) else x := by
    intro q x
    have h := actOp_create_below S pre [] q x
    rw [List.append_nil] at h
    rw [h]
    cases q <;> simp
  unfold limitSetOps entered
  simp only [List.foldl_append, List.foldl_cons, List.foldl_nil, foldl_setText, hcreate]
  refine ⟨?_, ?_, ?_, ?_, ?_⟩
  · simp
  · simp [addValue]
  · simp [addValue]
  · simp [addValue]
  · simp [addValue]

/-- The limit of the form, with the defaults of VyOS where a field is empty. A text that is
no number counts as empty. -/
def enteredLimit (values : WANRuleFormValues) : WANRuleLimit N where
  rate :=
    if trim values.limitRate = "" then JsNumber.nat 5
    else (JsNumber.number (trim values.limitRate)).getD (JsNumber.nat 5)
  period := if values.limitPeriod = "" then "second" else values.limitPeriod
  burst :=
    if trim values.limitBurst = "" then JsNumber.nat 5
    else (JsNumber.number (trim values.limitBurst)).getD (JsNumber.nat 5)
  threshold := if values.limitThreshold = "" then "below" else values.limitThreshold

theorem limitOf_entered (values : WANRuleFormValues) :
    limitOf (entered (trim values.limitRate)) (entered values.limitPeriod)
      (entered (trim values.limitBurst)) (entered values.limitThreshold) =
        (enteredLimit values : WANRuleLimit N) := by
  unfold limitOf enteredLimit entered
  rw [WANRuleLimit.mk.injEq]
  refine ⟨?_, ?_, ?_, ?_⟩ <;> split_ifs <;> simp [readValues]

/-- A limit that is left alone is the one of the form. -/
theorem enteredLimit_of_unwritten [LawfulJsNumber N] {limit : WANRuleLimit N}
    (hlimit : (currentRule N ruleId t).limit = some limit)
    (hsame : limitChanged (shownRule N ruleId t) values = false)
    (hperiod : limit.period ≠ "") (hthreshold : limit.threshold ≠ "") :
    enteredLimit values = limit := by
  have hshown : (shownRule N ruleId t).limitRate = JsNumber.text limit.rate ∧
      (shownRule N ruleId t).limitPeriod = limit.period ∧
      (shownRule N ruleId t).limitBurst = JsNumber.text limit.burst ∧
      (shownRule N ruleId t).limitThreshold = limit.threshold := by
    simp [shownRule, wanRuleToFormValues, hlimit]
  simp only [limitChanged, Bool.or_eq_false_iff, decide_eq_false_iff_not, ne_eq, not_not] at hsame
  obtain ⟨⟨⟨hrate, hper⟩, hburst⟩, hthr⟩ := hsame
  have htext : ∀ n : N, trim (JsNumber.text n) ≠ "" := by
    intro n
    rw [LawfulJsNumber.trim_text]
    exact LawfulJsNumber.text_ne n
  unfold enteredLimit
  rw [← hrate, ← hper, ← hburst, ← hthr, hshown.1, hshown.2.1, hshown.2.2.1, hshown.2.2.2,
    if_neg (htext _), if_neg (htext _), if_neg hperiod, if_neg hthreshold,
    LawfulJsNumber.trim_text, LawfulJsNumber.trim_text, LawfulJsNumber.number_text,
    LawfulJsNumber.number_text]
  rfl

/-- The leaves of a limit hold no empty value. -/
def LimitValued (ruleId : String) (t : ConfigTree) : Prop :=
  ∀ key ∈ ["period", "threshold"], "" ∉ (t.store (limitPath ruleId ++ [key])).getD []

theorem limit_valued {limit : WANRuleLimit N} (hwf : t.WellFormed) (hvalued : LimitValued ruleId t)
    (hlimit : (currentRule N ruleId t).limit = some limit) :
    limit.period ≠ "" ∧ limit.threshold ≠ "" := by
  rw [limit_currentRule ruleId hwf] at hlimit
  split_ifs at hlimit
  have heq := Option.some.inj hlimit
  have hread : ∀ {x : Slot String} {d : String}, d ≠ "" → "" ∉ x.getD [] →
      (x.map readValues).getD d ≠ "" := by
    intro x d hd hx hblank
    cases x with
    | none => exact hd hblank
    | some vs => exact absurd (readText_eq_blank hx hblank) (by simp)
  rw [← heq]
  exact ⟨hread (by decide) (hvalued "period" (by simp)),
    hread (by decide) (hvalued "threshold" (by simp))⟩

/-- After a submission there is a limit exactly when a rate or a burst is entered, and the
parser reads it as it was entered. -/
theorem limit_applied [LawfulJsNumber N] (values : WANRuleFormValues) (hwf : t.WellFormed)
    (hnode : LimitIsNode ruleId t) (hvalued : LimitValued ruleId t) :
    (applied N S ruleId t values).store (limitPath ruleId) =
        (if hasLimit values then some [] else none) ∧
      (currentRule N ruleId (applied N S ruleId t values)).limit =
        if hasLimit values then some (enteredLimit values) else none := by
  have hread := limit_currentRule (N := N) ruleId
    (wellFormed_applied hwf : (applied N S ruleId t values).WellFormed)
  cases hwritten : limitWritten N ruleId t values with
  | true =>
    have hslot := slot_written (S := S) hwf hnode hwritten
    have hnil := hslot []
    rw [List.append_nil] at hnil
    cases hhas : hasLimit values with
    | false =>
      rw [hhas] at hnil
      refine ⟨hnil, ?_⟩
      rw [hread, hnil]
      rfl
    | true =>
      obtain ⟨hset, hrate, hperiod, hburst, hthreshold⟩ :=
        foldl_limitSetOps S (limitPath ruleId) values
      rw [List.append_nil] at hset
      rw [hhas] at hnil
      refine ⟨hnil.trans hset, ?_⟩
      rw [hread, hnil.trans hset, if_pos rfl, hslot, hslot, hslot, hslot, hhas]
      simp only [↓reduceIte]
      rw [hrate, hperiod, hburst, hthreshold, limitOf_entered]
  | false =>
    have hslot := slot_unwritten (S := S) hwritten
    have hnil := hslot []
    rw [List.append_nil] at hnil
    have hbefore := limit_currentRule (N := N) ruleId hwf
    rw [hnil, hslot, hslot, hslot, hslot, ← hbefore] at hread
    simp only [limitWritten, Bool.or_eq_false_iff, bne_eq_false_iff_eq] at hwritten
    obtain ⟨hhas, hsame⟩ := hwritten
    rw [hnil, hread, hadLimit_eq (N := N) hwf hnode, hhas]
    refine ⟨rfl, ?_⟩
    cases hlimit : (currentRule N ruleId t).limit with
    | none => simp [hadLimit, hlimit]
    | some limit =>
      obtain ⟨hperiod, hthreshold⟩ := limit_valued hwf hvalued hlimit
      have hentered := enteredLimit_of_unwritten hlimit hsame hperiod hthreshold
      simp [hadLimit, hlimit, hentered]

/-- What a submission makes of a text whose leaf reads as `shown` when it is absent. -/
def savedOr (shown before value : String) : String :=
  if before = value then value else if trim value = "" then shown else trim value

/-- The parser finds each text where the form stores it. -/
theorem text_shownRule (hwf : t.WellFormed) :
    ∀ f ∈ textFields, f.1 (shownRule N ruleId t) =
      ((t.store (wanRulePath ruleId [] ++ f.2)).map readValues).getD (ruleShown f.2) := by
  simp only [textFields, scalarFields, sideFields, matchFields, List.map_cons, List.map_nil,
    List.cons_append, List.nil_append, List.forall_mem_cons, shownRule, currentRule,
    wanRuleToFormValues, parseWANRule, parseWANMatch, ConfigTree.child_get, asString_get hwf,
    List.append_assoc]
  simp [ruleShown]

theorem flag_shownRule (ruleId : String) (t : ConfigTree) :
    ∀ f ∈ flagFields, f.1 (shownRule N ruleId t) =
      (t.store (wanRulePath ruleId [] ++ f.2)).isSome := by
  simp only [flagFields, List.forall_mem_cons, shownRule, currentRule, wanRuleToFormValues,
    parseWANRule, isFlagPresent_get]
  simp

theorem slot_applied (hsingle : (ruleFieldForm ruleId).SingleIn S)
    {f : FormDiff.Field WANRuleFormValues} (hf : f ∈ (ruleFieldForm ruleId).fields) :
    (applied N S ruleId t values).store f.path =
      if f.Same (shownRule N ruleId t) values then t.store f.path
      else f.outcome values (t.store f.path) := by
  rw [store_applied]
  have houtside : (ruleFieldForm ruleId).Outside (limitPath ruleId) :=
    outside_ruleFieldForm ruleId List.mem_cons_self []
  exact Form.run_diff_append_below (hsingle f hf) hf houtside
    (fun o ho => prefix_of_mem_limitOps ho) t.store

theorem text_applied (hwf : t.WellFormed) (hsingle : (ruleFieldForm ruleId).SingleIn S) :
    ∀ f ∈ textFields, f.1 (shownRule N ruleId (applied N S ruleId t values)) =
      savedOr (ruleShown f.2) (f.1 (shownRule N ruleId t)) (f.1 values) := by
  intro f hf
  have hmem : Field.text f.1 (wanRulePath ruleId [] ++ f.2) ∈ (ruleFieldForm ruleId).fields :=
    List.mem_map.mpr ⟨.text f.1 f.2, List.mem_append_right _ (List.mem_map.mpr ⟨f, hf, rfl⟩), rfl⟩
  have hslot : (applied N S ruleId t values).store (wanRulePath ruleId [] ++ f.2) =
      if f.1 (shownRule N ruleId t) = f.1 values then t.store (wanRulePath ruleId [] ++ f.2)
      else if trim (f.1 values) = "" then none else some [trim (f.1 values)] :=
    slot_applied (N := N) hsingle hmem
  rw [text_shownRule (wellFormed_applied hwf) f hf, hslot]
  unfold savedOr
  split_ifs with hsame hblank
  · exact (text_shownRule (N := N) hwf f hf).symm.trans hsame
  · rfl
  · simp [readValues]

theorem flag_applied (hsingle : (ruleFieldForm ruleId).SingleIn S) :
    ∀ f ∈ flagFields, f.1 (shownRule N ruleId (applied N S ruleId t values)) = f.1 values := by
  intro f hf
  have hmem : Field.flag f.1 (wanRulePath ruleId [] ++ f.2) ∈ (ruleFieldForm ruleId).fields :=
    List.mem_map.mpr ⟨.flag f.1 f.2, List.mem_append_left _ (List.mem_map.mpr ⟨f, hf, rfl⟩), rfl⟩
  exact FormTables.Field.saved_of_slot (slot_applied (N := N) (t := t) hsingle hmem)
    (flag_shownRule ruleId t f hf) (flag_shownRule ruleId _ f hf)

/-- The interfaces of the rule, with their order. -/
theorem interfaces_applied (S : Schema) (ruleId : String) (t : ConfigTree)
    (values : WANRuleFormValues) :
    (applied N S ruleId t values).get (wanRulePath ruleId [] ++ ["interface"]) =
      t.get (wanRulePath ruleId [] ++ ["interface"]) := by
  rw [applied, ops_eq]
  apply TreeKeys.get_applyOps_of_apart
  intro o ho
  rcases List.mem_append.mp ho with ho | ho
  · obtain ⟨f, hf, ho⟩ := Form.mem_diff.mp ho
    rw [Field.path_of_mem_diff ho]
    exact outside_ruleFieldForm ruleId (List.mem_cons_of_mem _ List.mem_cons_self) [] f hf
  · obtain ⟨r, hr⟩ := prefix_of_mem_limitOps ho
    have hkeys : Apart ["limit"] ["interface"] := by decide
    have happend := ((apart_append_left (wanRulePath ruleId [])).mpr hkeys).append r []
    rw [List.append_nil] at happend
    rw [← hr]
    exact happend

end Submission

/-- What a submission does to a rule. -/
structure LimitReplaced (N : Type) [JsNumber N] (ruleId : String) (t t' : ConfigTree)
    (values : WANRuleFormValues) : Prop where
  present : (t'.store (limitPath ruleId)).isSome ↔
    trim values.limitRate ≠ "" ∨ trim values.limitBurst ≠ ""
  limit : (currentRule N ruleId t').limit =
    if trim values.limitRate ≠ "" ∨ trim values.limitBurst ≠ "" then some (enteredLimit values)
    else none
  texts : ∀ f ∈ textFields, f.1 (shownRule N ruleId t') =
    savedOr (ruleShown f.2) (f.1 (shownRule N ruleId t)) (f.1 values)
  flags : ∀ f ∈ flagFields, f.1 (shownRule N ruleId t') = f.1 values
  interfaces : t'.get (wanRulePath ruleId [] ++ ["interface"]) =
    t.get (wanRulePath ruleId [] ++ ["interface"])
  untouched : Untouched (fun p => p = limitPath ruleId ∨
    Form.Changed (ruleFieldForm ruleId) (shownRule N ruleId t) values p) t.store t'.store

/-- After a submission a rule has a limit exactly when a rate or a burst is entered, it reads
as it was entered, with the defaults for what is empty, and the other fields are those
entered: an edited text without the blanks around it, the others as they were fetched. -/
theorem applied_replaces_limit (N : Type) [JsNumber N] [LawfulJsNumber N] (S : Schema)
    (ruleId : String) (t : ConfigTree) (values : WANRuleFormValues) (hwf : t.WellFormed)
    (hnode : LimitIsNode ruleId t) (hvalued : LimitValued ruleId t)
    (hsingle : (ruleFieldForm ruleId).SingleIn S) :
    LimitReplaced N ruleId t (applied N S ruleId t values) values := by
  have hhas : (trim values.limitRate ≠ "" ∨ trim values.limitBurst ≠ "") ↔
      hasLimit values = true := by
    simp [hasLimit]
  obtain ⟨hslot, hlimit⟩ := limit_applied (N := N) (S := S) values hwf hnode hvalued
  refine ⟨?_, ?_, text_applied hwf hsingle, flag_applied hsingle,
    interfaces_applied S ruleId t values, ?_⟩
  · rw [hhas, hslot]
    cases hasLimit values <;> simp
  · rw [hlimit]
    simp only [hhas]
  · rw [store_applied]
    exact Form.untouched_diff_append S _ _ values (fun o ho => prefix_of_mem_limitOps ho) t.store

/-- A rule with a limit that leaves the burst to its default. -/
def limitedRule (description : String) : ConfigTree :=
  .node [("load-balancing", .node [("wan", .node [("rule", .node [("10", .node
    [("description", .leaf description), ("limit", .node [("rate", .leaf "10")]),
      ("interface", .node [("eth0", .node [])])])])])])]

/-- The rate is cleared, and the burst keeps the limit. -/
theorem limitedRule_replaced :
    let values := { shownRule ℕ "10" (limitedRule "uplink") with limitRate := "" }
    ((applied ℕ ⟨fun _ => false⟩ "10" (limitedRule "uplink") values).store
      (limitPath "10")).isSome := by
  intro values
  have hsingle : (ruleFieldForm "10").SingleIn ⟨fun _ => false⟩ := by
    intro f _
    cases f <;> trivial
  have hreplaced := applied_replaces_limit ℕ ⟨fun _ => false⟩ "10" (limitedRule "uplink") values
    (by decide) (.inr (by decide)) (by unfold LimitValued; decide) hsingle
  exact hreplaced.present.mpr (.inr (by decide +kernel))

/-- A description that was fetched with blanks around it keeps them when it is not edited. -/
theorem unedited_description_keeps_blanks :
    let values := shownRule ℕ "10" (limitedRule " uplink ")
    (limitedRule " uplink ").WellFormed ∧
      (shownRule ℕ "10" (applied ℕ ⟨fun _ => false⟩ "10" (limitedRule " uplink ")
        values)).description ≠ trim values.description := by
  decide +kernel

end VyosClient.WanLimit
