import VyosClient.FirewallParse
import VyosClient.FormDiff

/-!
Forms whose fields stand in a table, with their paths below one node, and what
such a form leaves in a configuration: each field at its own path, and all other
paths as they were. What a parser then reads is what was entered, without the
blanks around a text that was edited.
-/

namespace VyosClient.FormTables

open PathStore ConfigTrees Configure PendingChanges FormDiff

/-- What a submission makes of a text field: one that was not edited is left as it
was fetched. -/
def savedText (before value : String) : String := if before = value then value else trim value

theorem savedText_self (value : String) : savedText value value = value := if_pos rfl

theorem savedText_of_trimmed {before value : String} (h : trim value = value) :
    savedText before value = value := by
  unfold savedText
  split_ifs
  · rfl
  · exact h

theorem savedText_eq_trim_iff {before value : String} :
    savedText before value = trim value ↔ (before = value → trim value = value) := by
  unfold savedText
  split_ifs with h
  · exact ⟨fun heq _ => heq.symm, fun heq => (heq h).symm⟩
  · exact ⟨fun _ heq => absurd heq h, fun _ => rfl⟩

theorem trim_eq_self {s : String} (h : ∀ c ∈ s.toList, isSpace c = false) : trim s = s := by
  unfold trim
  have hleft : s.toList.dropWhile isSpace = s.toList := by
    apply List.dropWhile_eq_self_iff.mpr
    intro hlength
    simpa using h _ (List.getElem_mem hlength)
  have hright : s.toList.rdropWhile isSpace = s.toList := by
    apply List.rdropWhile_eq_self_iff.mpr
    intro hne
    simpa using h _ (List.getLast_mem hne)
  rw [hleft, hright, String.ofList_toList]

theorem isSpace_of_isDigit {c : Char} (h : c.isDigit = true) : isSpace c = false := by
  by_contra hspace
  have hmem := of_decide_eq_true (Bool.not_eq_false _ ▸ hspace : isSpace c = true)
  simp only [List.mem_cons, List.not_mem_nil, or_false] at hmem
  revert h
  rcases hmem with rfl | rfl | rfl | rfl | rfl | rfl | rfl | rfl | rfl | rfl | rfl | rfl | rfl |
    rfl | rfl | rfl | rfl | rfl | rfl | rfl | rfl | rfl | rfl | rfl | rfl <;> decide

theorem trim_of_number {s : String} (h : (FirewallParse.number s).isSome) : trim s = s := by
  unfold FirewallParse.number at h
  split_ifs at h with hdigits
  · exact trim_eq_self fun c hc => isSpace_of_isDigit (List.all_eq_true.mp hdigits.2 c hc)
  · exact absurd h (by simp)

/-- The text a parser makes of an optional leaf, in a form. -/
def readText (x : Slot String) : String := (x.map readValues).getD ""

@[simp] theorem readText_none : readText none = "" := rfl

@[simp] theorem readText_singleton (v : String) : readText (some [v]) = v := by
  simp [readText, readValues]

/-- Only an empty value is read as an empty text. -/
theorem readText_eq_blank {x : Slot String} (hblank : "" ∉ x.getD []) (h : readText x = "") :
    x = none := by
  cases x with
  | none => rfl
  | some vs =>
    simp only [readText, Option.map_some, Option.getD_some] at h hblank
    match vs with
    | [] => exact absurd h (by decide)
    | [v] =>
      have hv : v = "" := by simpa [readValues] using h
      simp [hv] at hblank
    | v :: w :: vs =>
      have hcomma : ',' ∈ (readValues (v :: w :: vs)).toList := by
        simp [readValues, String.toList_intercalate, List.intercalate]
      rw [h] at hcomma
      exact absurd hcomma (by decide)

/-- The text a parser makes of the first value of a leaf, in a form. -/
def readFirst (x : Slot String) : String := ((x.getD [])[0]?).getD ""

@[simp] theorem readFirst_none : readFirst none = "" := rfl

@[simp] theorem readFirst_singleton (v : String) : readFirst (some [v]) = v := rfl

section Reading

variable {t : ConfigTree}

theorem getD_asString_get (h : t.WellFormed) (p : Path) :
    (asString (t.get p)).getD "" = readText (t.store p) := by
  rw [asString_get h]
  rfl

theorem asStringArray_get (t : ConfigTree) (p : Path) :
    asStringArray (t.get p) = (t.store p).getD [] := by
  rw [ConfigTree.store_apply]
  cases hp : t.get p with
  | none => rfl
  | some c => cases c <;> rfl

theorem nodup_slot (h : t.WellFormed) (p : Path) : ((t.store p).getD []).Nodup := by
  rw [ConfigTree.store_apply]
  cases hp : t.get p with
  | none => exact List.nodup_nil
  | some c => exact (h.get hp).values_nodup'

/-- A node is a present path without values. -/
theorem isRecord_get (h : t.WellFormed) (p : Path) :
    isRecord (t.get p) = true ↔ t.store p = some [] := by
  rw [ConfigTree.store_apply]
  cases hp : t.get p with
  | none => simp [isRecord]
  | some c =>
    cases c with
    | leaf v => simp [isRecord, ConfigTree.values]
    | multi vs => simpa [isRecord, ConfigTree.values] using h.values_ne_nil p vs hp
    | node es => simp [isRecord, ConfigTree.values]

end Reading

namespace Field

variable {F : Type}

def under (pre : Path) : FormDiff.Field F → FormDiff.Field F
  | .text get p => .text get (pre ++ p)
  | .flag get p => .flag get (pre ++ p)

theorem path_under (pre : Path) (f : FormDiff.Field F) : (under pre f).path = pre ++ f.path := by
  cases f <;> rfl

theorem same_under (pre : Path) {f : FormDiff.Field F} {v w : F} :
    (under pre f).Same v w ↔ f.Same v w := by
  cases f <;> exact Iff.rfl

theorem holds_under {pre : Path} {f : FormDiff.Field F} {values : F} {x : Slot String} :
    (under pre f).Holds values x ↔ f.Holds values x := by
  cases f <;> exact Iff.rfl

/-- What is shown of a field after a submission. -/
def Saved (before values shown : F) : FormDiff.Field F → Prop
  | .text get _ => get shown = savedText (get before) (get values)
  | .flag get _ => get shown = get values

/-- A parser that reads the field where it is stored shows what was saved. -/
theorem saved_of_slot {f : FormDiff.Field F} {before values shown : F} {x y : Slot String}
    (hy : y = if f.Same before values then x else f.outcome values x)
    (hbefore : f.Reads before x) (hshown : f.Reads shown y) : Saved before values shown f := by
  subst hy
  cases f with
  | text get p =>
    have hread : get before = readText x := hbefore
    by_cases hsame : get before = get values
    · have hslot : get shown = readText x := by
        rw [if_pos (show (Field.text get p).Same before values from hsame)] at hshown
        exact hshown
      show get shown = savedText (get before) (get values)
      rw [hslot, ← hread, hsame, savedText_self]
    · rw [if_neg (show ¬ (Field.text get p).Same before values from hsame)] at hshown
      have hslot : get shown =
          readText (if trim (get values) = "" then none else some [trim (get values)]) := hshown
      show get shown = savedText (get before) (get values)
      rw [hslot, savedText, if_neg hsame]
      split_ifs with hblank
      · exact hblank.symm
      · exact readText_singleton _
  | flag get p =>
    have hread : get before = x.isSome := hbefore
    by_cases hsame : get before = get values
    · rw [if_pos (show (Field.flag get p).Same before values from hsame)] at hshown
      have hslot : get shown = x.isSome := hshown
      exact hslot.trans (hread.symm.trans hsame)
    · rw [if_neg (show ¬ (Field.flag get p).Same before values from hsame)] at hshown
      have hslot : get shown =
          ((if get values then some (x.getD []) else none) : Slot String).isSome := hshown
      show get shown = get values
      rw [hslot]
      cases get values <;> rfl

/-- A text without blanks around it. -/
def Trimmed (values : F) : FormDiff.Field F → Prop
  | .text get _ => trim (get values) = get values
  | .flag _ _ => True

theorem trimmed_under (pre : Path) {f : FormDiff.Field F} {values : F} :
    Trimmed values (under pre f) ↔ Trimmed values f := by
  cases f <;> exact Iff.rfl

theorem same_of_saved {f : FormDiff.Field F} {before values shown : F}
    (h : Saved before values shown f) (htrim : Trimmed values f) : f.Same values shown := by
  cases f with
  | text get p =>
    have hshown : get shown = savedText (get before) (get values) := h
    exact (hshown.trans (savedText_of_trimmed htrim)).symm
  | flag get p => exact Eq.symm h

theorem same_of_holds {f : FormDiff.Field F} {values shown : F} {x : Slot String}
    (hshown : f.Reads shown x) (h : f.Holds values x) (htrim : Trimmed values f) :
    f.Same values shown := by
  cases f with
  | text get p =>
    have hslot : x = if trim (get values) = "" then none else some [trim (get values)] := h
    have hread : get shown = readText x := hshown
    have htext : trim (get values) = get values := htrim
    show get values = get shown
    rw [hread, hslot, htext]
    split_ifs with hblank
    · exact hblank
    · exact (readText_singleton _).symm
  | flag get p => exact Eq.trans (Eq.symm h) (Eq.symm hshown)

/-- Where a leaf takes several values, nothing but the entered text may be there
already. -/
def AloneIn (S : Schema) (values : F) (x : Slot String) : FormDiff.Field F → Prop
  | .text get p =>
      S.multi p = true → trim (get values) ≠ "" → ∀ v ∈ x.getD [], v = trim (get values)
  | .flag _ _ => True

theorem addValue_eq_singleton_iff {vs : List String} (hnodup : vs.Nodup) (v : String) :
    addValue vs v = [v] ↔ ∀ w ∈ vs, w = v := by
  constructor
  · intro h w hw
    have hmem : w ∈ addValue vs v := by
      unfold addValue
      split_ifs
      · exact hw
      · exact List.mem_append_left _ hw
    rw [h] at hmem
    exact List.mem_singleton.mp hmem
  · intro h
    match vs with
    | [] => simp [addValue]
    | [w] => simp [addValue, h w]
    | w :: w' :: vs =>
      have hw : w = w' := (h w (by simp)).trans (h w' (by simp)).symm
      simp [hw] at hnodup

/-- The exact condition under which a changed field holds what was entered. -/
theorem holds_outcomeIn_iff {f : FormDiff.Field F} {S : Schema} {values : F} {x : Slot String}
    (hnodup : (x.getD []).Nodup) :
    f.Holds values (f.outcomeIn S values x) ↔ AloneIn S values x f := by
  cases f with
  | text get p =>
    simp only [FormDiff.Field.Holds, FormDiff.Field.outcomeIn, AloneIn]
    by_cases hblank : trim (get values) = ""
    · simp [hblank]
    · by_cases hmulti : S.multi p = true
      · simp [hblank, hmulti, addValue_eq_singleton_iff hnodup]
      · simp [hblank, hmulti]
  | flag get p =>
    have hholds := FormDiff.Field.holds_outcome (.flag get p) values x
    exact iff_of_true hholds trivial

/-- What a parser shows of a text that its leaf holds. -/
theorem shown_of_holds {get : F → String} {p : Path} {values : F} {x : Slot String}
    {read : Slot String → String} (hnone : read none = "") (hone : ∀ v, read (some [v]) = v)
    (h : (Field.text get p).Holds values x) : read x = trim (get values) := by
  have hx : x = if trim (get values) = "" then none else some [trim (get values)] := h
  rw [hx]
  split_ifs with hblank
  · exact hnone.trans hblank.symm
  · exact hone _

end Field

section Below

variable (S : Schema) (pre : Path)

theorem actOp_set_below {p q : Path} {v : String} (hv : v ≠ "") (x : Slot String) :
    actOp S (pre ++ q) x ⟨.set, pre ++ p, some v⟩ =
      if q = p then some (if S.multi (pre ++ p) then addValue (x.getD []) v else [v])
      else if q <+: p then some [] else if p <+: q then none else x := by
  have hsent : ConfigOp.sent ⟨.set, pre ++ p, some v⟩ = some v := by simp [ConfigOp.sent, hv]
  simp [actOp, ConfigOp.toEdit, hsent, act, List.prefix_append_right_inj]

theorem actOp_create_below (p q : Path) (x : Slot String) :
    actOp S (pre ++ q) x ⟨.set, pre ++ p, none⟩ =
      if q = p then some (x.getD []) else if q <+: p then some [] else x := by
  simp [actOp, ConfigOp.toEdit, ConfigOp.sent, act, List.prefix_append_right_inj]

/-- A text that is set as it is, unless it is empty. -/
def setText (path : Path) (value : String) : List ConfigOp :=
  if value = "" then [] else [⟨.set, path, some value⟩]

def setFlag (path : Path) (value : Bool) : List ConfigOp :=
  if value then [⟨.set, path, none⟩] else []

theorem path_of_mem_setText {p : Path} {v : String} {o : ConfigOp} (h : o ∈ setText p v) :
    o.path = p := by
  unfold setText at h
  split_ifs at h
  · exact absurd h List.not_mem_nil
  · rw [List.mem_singleton.mp h]

theorem op_of_mem_setText {p : Path} {v : String} {o : ConfigOp} (h : o ∈ setText p v) :
    o.op = .set := by
  unfold setText at h
  split_ifs at h
  · exact absurd h List.not_mem_nil
  · rw [List.mem_singleton.mp h]

theorem path_of_mem_setFlag {p : Path} {v : Bool} {o : ConfigOp} (h : o ∈ setFlag p v) :
    o.path = p := by
  unfold setFlag at h
  split_ifs at h
  · rw [List.mem_singleton.mp h]
  · exact absurd h List.not_mem_nil

theorem prefix_of_mem_setText {pre p : Path} {v : String} {o : ConfigOp}
    (h : o ∈ setText (pre ++ p) v) : pre <+: o.path := by
  rw [path_of_mem_setText h]
  exact List.prefix_append pre p

theorem prefix_of_mem_setFlag {pre p : Path} {v : Bool} {o : ConfigOp}
    (h : o ∈ setFlag (pre ++ p) v) : pre <+: o.path := by
  rw [path_of_mem_setFlag h]
  exact List.prefix_append pre p

/-- What is deleted first where something was. -/
theorem path_of_mem_clear {had : Prop} [Decidable had] {p : Path} {o : ConfigOp}
    (h : o ∈ if had then [(⟨.delete, p, none⟩ : ConfigOp)] else []) : o.path = p := by
  split_ifs at h
  · rw [List.mem_singleton.mp h]
  · exact absurd h List.not_mem_nil

theorem foldl_setText {p q : Path} {v : String} (x : Slot String) :
    (setText (pre ++ p) v).foldl (actOp S (pre ++ q)) x =
      if v = "" then x
      else if q = p then some (if S.multi (pre ++ p) then addValue (x.getD []) v else [v])
      else if q <+: p then some [] else if p <+: q then none else x := by
  unfold setText
  split_ifs with hv <;> simp [actOp_set_below, *]

theorem foldl_setFlag {p q : Path} {v : Bool} (x : Slot String) :
    (setFlag (pre ++ p) v).foldl (actOp S (pre ++ q)) x =
      if v = false then x
      else if q = p then some (x.getD []) else if q <+: p then some [] else x := by
  unfold setFlag
  cases v <;> simp [actOp_create_below]

end Below

section Frame

variable (S : Schema)

/-- What stays as it was: each path that has nothing to do with the owned ones, and
each node that is not below one of them. -/
structure Untouched (owned : Path → Prop) (s s' : Store String String) : Prop where
  apart : ∀ q, (∀ p, owned p → Apart p q) → s' q = s q
  node : ∀ q, (∀ p, owned p → ¬ p <+: q) → s q = some [] → s' q = some []

theorem Untouched.mono {owned owned' : Path → Prop} {s s' : Store String String}
    (h : Untouched owned s s') (hsub : ∀ p, owned p → owned' p) : Untouched owned' s s' :=
  ⟨fun q hq => h.apart q fun p hp => hq p (hsub p hp),
    fun q hq => h.node q fun p hp => hq p (hsub p hp)⟩

theorem Untouched.of_below {owned owned' : Path → Prop} {s s' : Store String String}
    (h : Untouched owned s s') (hbelow : ∀ p, owned p → ∃ p', owned' p' ∧ p' <+: p) :
    Untouched owned' s s' where
  apart q hq := by
    apply h.apart q
    intro p hp
    obtain ⟨p', hp', r, rfl⟩ := hbelow p hp
    have hapart := (hq p' hp').append r []
    rwa [List.append_nil] at hapart
  node q hq := by
    apply h.node q
    intro p hp hpq
    obtain ⟨p', hp', hpp⟩ := hbelow p hp
    exact hq p' hp' (hpp.trans hpq)

/-- A node stays one while nothing above it is named. -/
theorem actOp_node {q : Path} {o : ConfigOp} (h : ¬ o.path <+: q) :
    actOp S q (some []) o = some [] := by
  by_cases habove : q <+: o.path
  · have hne : q ≠ o.path := by
      intro heq
      exact h (heq ▸ List.prefix_refl q)
    rw [actOp_above S habove hne]
    split_ifs <;> rfl
  · exact actOp_of_apart S ⟨h, habove⟩ (some [])

theorem untouched_run (ops : List ConfigOp) (s : Store String String) :
    Untouched (fun p => ∃ o ∈ ops, o.path = p) s (run S.multi s (edits ops)) where
  apart q hq := run_edits_of_apart S (fun o ho => hq o.path ⟨o, ho, rfl⟩) s
  node q hq hs := by
    rw [run_edits_apply, hs]
    exact foldl_actOp_of_forall S fun o ho => actOp_node S (hq o.path ⟨o, ho, rfl⟩)

end Frame

/-- Paths that lie apart, with names without blanks, differ as texts. -/
theorem joined_nodup {ps : List Path} (hapart : ps.Pairwise Apart)
    (hwords : ∀ p ∈ ps, p ≠ [] ∧ ∀ k ∈ p, ' ' ∉ k.toList) : (ps.map joined).Nodup := by
  have hnodup : ps.Nodup := by
    apply hapart.imp
    intro p q hpq heq
    exact hpq.1 (heq ▸ List.prefix_refl p)
  apply List.Nodup.map_on _ hnodup
  intro p hp q hq hpq
  exact joined_inj (hwords p hp).1 (hwords q hq).1 (hwords p hp).2 (hwords q hq).2 hpq

namespace Form

variable {F : Type}

/-- The form with the fields of a table below a node. -/
def below (pre : Path) (fields : List (FormDiff.Field F))
    (hapart : (fields.map Field.path).Pairwise Apart)
    (hnamed : ∀ p ∈ fields.map Field.path, p ≠ [])
    (hjoined : ((fields.map Field.path).map joined).Nodup) : Form F where
  fields := fields.map (Field.under pre)
  apart := by
    rw [List.pairwise_map] at hapart ⊢
    refine hapart.imp fun {f g} hfg => ?_
    rw [Field.path_under, Field.path_under]
    exact (apart_append_left pre).mpr hfg
  distinct := by
    rw [List.map_map]
    have hmap : ((fun f : FormDiff.Field F => joined f.path) ∘ Field.under pre) =
        (fun p => joined (pre ++ p)) ∘ Field.path := by
      funext f
      simp only [Function.comp_apply, Field.path_under]
    rw [hmap, ← List.map_map]
    have hinj := List.inj_on_of_nodup_map hjoined
    refine List.Nodup.map_on (fun p hp q hq hpq => hinj hp hq ?_) hjoined.of_map
    exact (joined_append_inj pre (hnamed p hp) (hnamed q hq)).mp hpq
  named := by
    intro f hf
    obtain ⟨g, hg, rfl⟩ := List.mem_map.mp hf
    rw [Field.path_under]
    exact fun hnil => hnamed g.path (List.mem_map_of_mem hg) (List.append_eq_nil_iff.mp hnil).2

/-- A path below the node that is apart from the fields of the table. -/
theorem outside_below (pre q : Path) {fields : List (FormDiff.Field F)}
    {hapart : (fields.map Field.path).Pairwise Apart}
    {hnamed : ∀ p ∈ fields.map Field.path, p ≠ []}
    {hjoined : ((fields.map Field.path).map joined).Nodup}
    (h : ∀ p ∈ fields.map Field.path, Apart p q) :
    (below pre fields hapart hnamed hjoined).Outside (pre ++ q) := by
  intro f hf
  obtain ⟨g, hg, rfl⟩ := List.mem_map.mp hf
  rw [Field.path_under]
  exact (apart_append_left pre).mpr (h g.path (List.mem_map_of_mem hg))

variable {form : Form F} {S : Schema} {before values : F}

/-- The paths of the fields that differ from what was fetched. -/
def Changed (form : Form F) (before values : F) (p : Path) : Prop :=
  ∃ f ∈ form.fields, ¬ f.Same before values ∧ f.path = p

theorem changed_of_mem_diff {o : ConfigOp} (ho : o ∈ form.diff before values) :
    Changed form before values o.path := by
  obtain ⟨f, hf, ho⟩ := Form.mem_diff.mp ho
  refine ⟨f, hf, fun hsame => ?_, (Field.path_of_mem_diff ho).symm⟩
  rw [Field.diff_of_same hsame] at ho
  exact absurd ho List.not_mem_nil

theorem untouched_diff (S : Schema) (form : Form F) (before values : F)
    (s : Store String String) :
    Untouched (Changed form before values) s
      (run S.multi s (edits (form.diff before values))) := by
  refine (untouched_run S _ s).mono ?_
  rintro p ⟨o, ho, rfl⟩
  exact changed_of_mem_diff ho

/-- Operations that stay away from a field do not disturb it. -/
theorem run_diff_append_in (S : Schema) {f : FormDiff.Field F} (hf : f ∈ form.fields)
    {extra : List ConfigOp} (hextra : ∀ o ∈ extra, Apart o.path f.path)
    (s : Store String String) :
    run S.multi s (edits (form.diff before values ++ extra)) f.path =
      if f.Same before values then s f.path else f.outcomeIn S values (s f.path) := by
  rw [edits_append, run_append, run_edits_of_apart S hextra, Form.run_diff_in S hf]

theorem run_diff_append {f : FormDiff.Field F} (hsingle : f.SingleIn S) (hf : f ∈ form.fields)
    {extra : List ConfigOp} (hextra : ∀ o ∈ extra, Apart o.path f.path)
    (s : Store String String) :
    run S.multi s (edits (form.diff before values ++ extra)) f.path =
      if f.Same before values then s f.path else f.outcome values (s f.path) := by
  rw [run_diff_append_in S hf hextra, Field.outcomeIn_eq hsingle]

/-- So do operations below a path outside the form. -/
theorem run_diff_append_below {f : FormDiff.Field F} (hsingle : f.SingleIn S)
    (hf : f ∈ form.fields) {q : Path} (hq : form.Outside q) {extra : List ConfigOp}
    (hextra : ∀ o ∈ extra, q <+: o.path) (s : Store String String) :
    run S.multi s (edits (form.diff before values ++ extra)) f.path =
      if f.Same before values then s f.path else f.outcome values (s f.path) := by
  apply run_diff_append hsingle hf
  intro o ho
  obtain ⟨r, hr⟩ := hextra o ho
  have happend := (hq f hf).symm.append r []
  rwa [List.append_nil, hr] at happend

theorem untouched_diff_append (S : Schema) (form : Form F) (before values : F) {q : Path}
    {extra : List ConfigOp} (hextra : ∀ o ∈ extra, q <+: o.path) (s : Store String String) :
    Untouched (fun p => p = q ∨ Changed form before values p) s
      (run S.multi s (edits (form.diff before values ++ extra))) := by
  apply (untouched_run S _ s).of_below
  rintro p ⟨o, ho, rfl⟩
  rcases List.mem_append.mp ho with ho | ho
  · exact ⟨o.path, .inr (changed_of_mem_diff ho), List.prefix_refl _⟩
  · exact ⟨q, .inl rfl, hextra o ho⟩

/-- Outside the fields only the other operations count. -/
theorem run_diff_append_outside (S : Schema) {q : Path} (hq : form.Outside q)
    (extra : List ConfigOp) (s : Store String String) :
    run S.multi s (edits (form.diff before values ++ extra)) q =
      run S.multi s (edits extra) q := by
  rw [edits_append, run_append]
  exact run_congr (Form.run_diff_outside hq values s) _

end Form

end VyosClient.FormTables
