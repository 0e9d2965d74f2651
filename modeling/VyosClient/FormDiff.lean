import Mathlib.Data.List.DropRight
import VyosClient.PendingChanges

/-!
Settings forms. A form is a list of fields, each with the path it is stored
under; submitting it queues, for every field that differs from the values the
form was opened with, the operation that makes the path match. The fields of a
form lie apart from one another, so each can be followed on its own.
-/

namespace VyosClient.FormDiff

open PathStore ConfigTrees Configure PendingChanges PendingChangesState Runs

/-- The white space and line terminators that JavaScript's `trim` removes. -/
def isSpace (c : Char) : Bool :=
  c ∈ ['\t', '\n', '\u000B', '\u000C', '\r', ' ', '\u00A0', '\u1680', '\u2000', '\u2001', '\u2002',
    '\u2003', '\u2004', '\u2005', '\u2006', '\u2007', '\u2008', '\u2009', '\u200A', '\u2028',
    '\u2029', '\u202F', '\u205F', '\u3000', '\uFEFF']

def trim (s : String) : String :=
  String.ofList ((s.toList.dropWhile isSpace).rdropWhile isSpace)

inductive Field (F : Type)
  | text (get : F → String) (path : Path)
  | flag (get : F → Bool) (path : Path)

namespace Field

variable {F : Type}

def path : Field F → Path
  | text _ p => p
  | flag _ p => p

/-- The operations one field contributes to a submission. -/
def diff (before values : F) : Field F → List ConfigOp
  | text get p =>
      if get before = get values then []
      else if trim (get values) = "" then [⟨.delete, p, none⟩]
      else [⟨.set, p, some (trim (get values))⟩]
  | flag get p =>
      if get before = get values then []
      else if get values then [⟨.set, p, none⟩]
      else [⟨.delete, p, none⟩]

def Same (before values : F) : Field F → Prop
  | text get _ => get before = get values
  | flag get _ => get before = get values

instance (before values : F) : (f : Field F) → Decidable (f.Same before values)
  | text get _ => inferInstanceAs (Decidable (get before = get values))
  | flag get _ => inferInstanceAs (Decidable (get before = get values))

/-- What a submission leaves at the path of a field that changed. -/
def outcome (values : F) (x : Slot String) : Field F → Slot String
  | text get _ => if trim (get values) = "" then none else some [trim (get values)]
  | flag get _ => if get values then some (x.getD []) else none

/-- What a parser reads from the path of a field. -/
def Reads (values : F) (x : Slot String) : Field F → Prop
  | text get _ => get values = (x.map readValues).getD ""
  | flag get _ => get values = x.isSome

/-- The field shows what was entered, text without surrounding blanks. -/
def Shows (entered shown : F) : Field F → Prop
  | text get _ => get shown = trim (get entered)
  | flag get _ => get shown = get entered

/-- VyOS takes one value where the form has a text field. -/
def SingleIn (S : Schema) : Field F → Prop
  | text _ p => S.multi p = false
  | flag _ _ => True

/-- The slot holds what was entered, text without surrounding blanks. -/
def Holds (values : F) (x : Slot String) : Field F → Prop
  | text get _ => x = if trim (get values) = "" then none else some [trim (get values)]
  | flag get _ => x.isSome = get values

instance (values : F) (x : Slot String) : (f : Field F) → Decidable (f.Holds values x)
  | text get _ =>
    inferInstanceAs (Decidable (x = if trim (get values) = "" then none else some [trim (get values)]))
  | flag get _ => inferInstanceAs (Decidable (x.isSome = get values))

theorem holds_outcome (f : Field F) (values : F) (x : Slot String) :
    f.Holds values (f.outcome values x) := by
  cases f with
  | text get p => rfl
  | flag get p =>
    show (if get values then some (x.getD []) else none).isSome = get values
    cases get values <;> rfl

/-- A submission changes nothing where the slot holds the value already. -/
theorem outcome_eq_self_iff (f : Field F) (values : F) (x : Slot String) :
    f.outcome values x = x ↔ f.Holds values x := by
  cases f with
  | text get p => exact eq_comm
  | flag get p =>
    show (if get values then some (x.getD []) else none) = x ↔ x.isSome = get values
    cases get values <;> cases x <;> simp

theorem same_refl (f : Field F) (v : F) : f.Same v v := by
  cases f <;> exact rfl

theorem same_congr {f : Field F} {before v w : F} (h : f.Same v w) :
    f.Same before v ↔ f.Same before w := by
  cases f with
  | text get p => exact ⟨fun hv => hv.trans h, fun hw => hw.trans (Eq.symm h)⟩
  | flag get p => exact ⟨fun hv => hv.trans h, fun hw => hw.trans (Eq.symm h)⟩

theorem holds_congr {f : Field F} {v w : F} {x : Slot String} (h : f.Same v w) :
    f.Holds v x ↔ f.Holds w x := by
  cases f with
  | text get p =>
    have heq : get v = get w := h
    simp only [Holds, heq]
  | flag get p =>
    have heq : get v = get w := h
    simp only [Holds, heq]

theorem path_of_mem_diff {f : Field F} {before values : F} {o : ConfigOp}
    (h : o ∈ f.diff before values) : o.path = f.path := by
  cases f <;> simp only [diff] at h <;> split_ifs at h <;> simp_all [path]

/-- A field never queues a valueless `set` against one fetched value and a
valueless `delete` against the same. -/
theorem not_set_and_delete {f : Field F} {before values values' : F} {o o' : ConfigOp}
    (h : o ∈ f.diff before values) (h' : o' ∈ f.diff before values')
    (hset : o.op = .set ∧ o.value = none) (hdelete : o'.op = .delete) : False := by
  cases f with
  | text get p =>
    simp only [diff] at h
    split_ifs at h <;> simp_all
  | flag get p =>
    simp only [diff] at h h'
    split_ifs at h h' <;> simp_all

theorem diff_of_same {f : Field F} {before values : F} (h : f.Same before values) :
    f.diff before values = [] := by
  cases f <;> exact if_pos h

/-- What a submission leaves at the path of a field that changed, where the leaf
may take several values. -/
def outcomeIn (S : Schema) (values : F) (x : Slot String) : Field F → Slot String
  | text get p =>
      if trim (get values) = "" then none
      else some (if S.multi p then addValue (x.getD []) (trim (get values))
        else [trim (get values)])
  | flag get _ => if get values then some (x.getD []) else none

theorem outcomeIn_eq {f : Field F} {S : Schema} (hsingle : f.SingleIn S) (values : F)
    (x : Slot String) : f.outcomeIn S values x = f.outcome values x := by
  cases f with
  | text get p =>
    have hmulti : S.multi p = false := hsingle
    simp [outcomeIn, outcome, hmulti]
  | flag get p => rfl

theorem run_diff_in (S : Schema) {f : Field F} (hnamed : f.path ≠ []) (before values : F)
    (s : Store String String) :
    run S.multi s (edits (f.diff before values)) f.path =
      if f.Same before values then s f.path else f.outcomeIn S values (s f.path) := by
  by_cases hsame : f.Same before values
  · rw [diff_of_same hsame, if_pos hsame]
    rfl
  · rw [if_neg hsame, run_edits_apply]
    cases f with
    | text get p =>
      have hne : ¬ get before = get values := hsame
      have hp : p ≠ [] := hnamed
      simp only [diff, if_neg hne, outcomeIn, path]
      split_ifs with hblank hmulti
      · simpa using actOp_delete S hp p (s p)
      · simpa [hmulti] using actOp_set_value S p (s p) hblank
      · simpa [hmulti] using actOp_set_value S p (s p) hblank
    | flag get p =>
      have hne : ¬ get before = get values := hsame
      have hp : p ≠ [] := hnamed
      simp only [diff, if_neg hne, outcomeIn, path]
      split_ifs with hvalue
      · exact actOp_set_flag S p (s p)
      · simpa using actOp_delete S hp p (s p)

/-- Of two changes of a field only the second remains. -/
theorem outcome_outcome {f : Field F} {before w v : F} (hw : ¬ f.Same before w)
    (hv : ¬ f.Same before v) (x : Slot String) :
    f.outcome v (f.outcome w x) = f.outcome v x := by
  cases f with
  | text get p => rfl
  | flag get p =>
    have hwv : get w = get v := by
      have hw' : get before ≠ get w := hw
      have hv' : get before ≠ get v := hv
      revert hw' hv'
      cases get before <;> cases get w <;> cases get v <;> simp
    unfold outcome
    cases hvalue : get v <;> simp [hwv, hvalue]

/-- The values of the last of several submissions that changed the field. -/
def changedLast (f : Field F) (before : F) (vs : List F) : Option F :=
  (vs.filter fun v => ¬ f.Same before v).getLast?

theorem foldl_outcome (f : Field F) (before : F) (vs : List F) (x : Slot String) :
    vs.foldl (fun x v => if f.Same before v then x else f.outcome v x) x =
      match f.changedLast before vs with
      | some w => f.outcome w x
      | none => x := by
  induction vs using List.reverseRecOn with
  | nil => rfl
  | append_singleton vs v ih =>
    rw [List.foldl_append, ih]
    unfold changedLast
    rw [List.filter_append]
    by_cases hsame : f.Same before v
    · simp [hsame]
    · cases hlast : (vs.filter fun v => ¬ f.Same before v).getLast? with
      | none => simp [hsame]
      | some w =>
        have hw : ¬ f.Same before w := by
          have hmem := List.mem_of_getLast? hlast
          simpa using (List.mem_filter.mp hmem).2
        simp [hsame, outcome_outcome hw hsame]

/-- The last submission that changed the field entered what the last submission
of all entered; a text that no submission changed has no blanks around it. -/
def SettledBy (before : F) (vs : List F) (last : F) : Field F → Prop
  | text get p =>
      match changedLast (text get p) before vs with
      | some w => trim (get w) = trim (get last)
      | none => trim (get before) = get before
  | flag get p =>
      match changedLast (flag get p) before vs with
      | some w => get w = get last
      | none => True

/-- When a parser shows the values of the last submission. -/
theorem shows_iff_settledBy {f : Field F} {before shown last : F} {vs : List F}
    {x y : Slot String} (hbefore : f.Reads before x) (hshown : f.Reads shown y)
    (hy : y = match f.changedLast before vs with
      | some w => f.outcome w x
      | none => x)
    (hlast : last ∈ vs) : f.Shows last shown ↔ f.SettledBy before vs last := by
  cases hchanged : f.changedLast before vs with
  | none =>
    have hsame : f.Same before last := by
      by_contra hne
      have hmem : last ∈ vs.filter fun v => ¬ f.Same before v :=
        List.mem_filter.mpr ⟨hlast, by simpa using hne⟩
      rw [List.getLast?_eq_none_iff.mp hchanged] at hmem
      exact absurd hmem List.not_mem_nil
    rw [hchanged] at hy
    subst hy
    cases f with
    | text get p =>
      have heq : get before = get last := hsame
      have hread : get shown = get before := hshown.trans hbefore.symm
      simp only [Shows, SettledBy, hchanged, hread, heq]
      exact eq_comm
    | flag get p =>
      have heq : get before = get last := hsame
      have hread : get shown = get before := hshown.trans hbefore.symm
      simp only [Shows, SettledBy, hchanged, hread, heq]
  | some w =>
    simp only [hchanged] at hy
    subst hy
    cases f with
    | text get p =>
      have hread : get shown = trim (get w) := by
        have hslot : get shown =
            (((if trim (get w) = "" then none else some [trim (get w)]) : Slot String).map
              readValues).getD "" := hshown
        rw [hslot]
        split_ifs with hblank
        · exact hblank.symm
        · simp [readValues]
      simp only [Shows, SettledBy, hchanged, hread]
    | flag get p =>
      have hread : get shown = get w := by
        have hslot : get shown =
            ((if get w then some (x.getD []) else none) : Slot String).isSome := hshown
        rw [hslot]
        cases get w <;> rfl
      simp only [Shows, SettledBy, hchanged, hread]

end Field

/-- The fields lie apart, and so do the texts `add` compares paths by. -/
structure Form (F : Type) where
  fields : List (Field F)
  apart : fields.Pairwise fun f g => Apart f.path g.path
  distinct : (fields.map fun f => joined f.path).Nodup
  named : ∀ f ∈ fields, f.path ≠ []

namespace Form

variable {F : Type} (form : Form F)

/-- The operations a submission queues. -/
def diff (before values : F) : List ConfigOp := form.fields.flatMap (Field.diff before values)

def SingleIn (S : Schema) : Prop := ∀ f ∈ form.fields, f.SingleIn S

/-- A path that has nothing to do with any field. -/
def Outside (q : Path) : Prop := ∀ f ∈ form.fields, Apart f.path q

/-- Submitting `vs` one after another, each against the same fetched values. -/
def saves (before : F) (vs : List F) : List ConfigOp := vs.flatMap (form.diff before)

/-- The queue that the submissions build. -/
def queued (before : F) (vs : List F) : PendingChangesState :=
  vs.foldl (fun s v => s.addAll (form.diff before v)) .empty

variable {form} {S : Schema} {before : F}

theorem mem_diff {values : F} {o : ConfigOp} :
    o ∈ form.diff before values ↔ ∃ f ∈ form.fields, o ∈ f.diff before values :=
  List.mem_flatMap

theorem mem_saves {vs : List F} {o : ConfigOp} :
    o ∈ form.saves before vs ↔ ∃ v ∈ vs, ∃ f ∈ form.fields, o ∈ f.diff before v := by
  simp only [saves, List.mem_flatMap, mem_diff]

theorem run_diff_in (S : Schema) {f : Field F} (hf : f ∈ form.fields) (values : F)
    (s : Store String String) :
    run S.multi s (edits (form.diff before values)) f.path =
      if f.Same before values then s f.path else f.outcomeIn S values (s f.path) := by
  obtain ⟨pre, post, hsplit⟩ := List.append_of_mem hf
  have hpairs := form.apart
  rw [hsplit, List.pairwise_append, List.pairwise_cons] at hpairs
  obtain ⟨_, ⟨hpost, _⟩, hpre⟩ := hpairs
  have hdiff : form.diff before values = pre.flatMap (Field.diff before values) ++
      (f.diff before values ++ post.flatMap (Field.diff before values)) := by
    rw [diff, hsplit, List.flatMap_append, List.flatMap_cons]
  have hleft : ∀ t : Store String String,
      run S.multi t (edits (pre.flatMap (Field.diff before values))) f.path = t f.path := by
    intro t
    refine run_edits_of_apart S (fun o ho => ?_) t
    obtain ⟨g, hg, ho⟩ := List.mem_flatMap.mp ho
    rw [Field.path_of_mem_diff ho]
    exact hpre g hg f List.mem_cons_self
  have hright : ∀ t : Store String String,
      run S.multi t (edits (post.flatMap (Field.diff before values))) f.path = t f.path := by
    intro t
    refine run_edits_of_apart S (fun o ho => ?_) t
    obtain ⟨g, hg, ho⟩ := List.mem_flatMap.mp ho
    rw [Field.path_of_mem_diff ho]
    exact (hpost g hg).symm
  rw [hdiff, edits_append, edits_append, run_append, run_append, hright,
    Field.run_diff_in S (form.named f hf), hleft]

theorem run_diff (hsingle : form.SingleIn S) {f : Field F} (hf : f ∈ form.fields) (values : F)
    (s : Store String String) :
    run S.multi s (edits (form.diff before values)) f.path =
      if f.Same before values then s f.path else f.outcome values (s f.path) := by
  rw [run_diff_in S hf, Field.outcomeIn_eq (hsingle f hf)]

theorem run_diff_outside {q : Path} (hq : form.Outside q) (values : F)
    (s : Store String String) : run S.multi s (edits (form.diff before values)) q = s q := by
  refine run_edits_of_apart S (fun o ho => ?_) s
  obtain ⟨f, hf, ho⟩ := mem_diff.mp ho
  rw [Field.path_of_mem_diff ho]
  exact hq f hf

/-- A form opened on `opened` and submitted as `values` against `before` keeps
the fields that were not edited and gives the others what was typed. The exact
condition: a field that was not edited has not changed in the meantime, or the
slot holds the stale value already; an edited one differs from what is there
now, or the slot holds the typed value already. -/
theorem keeps_unedited_iff (hsingle : form.SingleIn S) {opened values : F} {edited : Set Path}
    (hrest : ∀ f ∈ form.fields, f.path ∉ edited → f.Same opened values)
    (s : Store String String) :
    (∀ f ∈ form.fields,
        (f.path ∉ edited →
          run S.multi s (edits (form.diff before values)) f.path = s f.path) ∧
        (f.path ∈ edited →
          f.Holds values (run S.multi s (edits (form.diff before values)) f.path))) ↔
      ∀ f ∈ form.fields,
        (f.path ∉ edited → f.Same before opened ∨ f.Holds opened (s f.path)) ∧
        (f.path ∈ edited → ¬ f.Same before values ∨ f.Holds values (s f.path)) := by
  refine forall₂_congr fun f hf => and_congr (imp_congr_right fun hout => ?_)
    (imp_congr_right fun _ => ?_)
  · have hsame := hrest f hf hout
    rw [run_diff hsingle hf, Field.same_congr hsame, Field.holds_congr hsame]
    by_cases h : f.Same before values
    · simp [h]
    · simpa [h] using Field.outcome_eq_self_iff f values (s f.path)
  · rw [run_diff hsingle hf]
    by_cases h : f.Same before values
    · simp [h]
    · simpa [h] using Field.holds_outcome f values (s f.path)

/-- Each field follows its own changes through the submissions. -/
theorem run_saves (hsingle : form.SingleIn S) {f : Field F} (hf : f ∈ form.fields) (vs : List F)
    (s : Store String String) :
    run S.multi s (edits (form.saves before vs)) f.path =
      match f.changedLast before vs with
      | some w => f.outcome w (s f.path)
      | none => s f.path := by
  rw [← Field.foldl_outcome]
  induction vs generalizing s with
  | nil => rfl
  | cons v vs ih =>
    rw [saves, List.flatMap_cons, ← saves, edits_append, run_append, ih, run_diff hsingle hf]
    rfl

theorem run_saves_outside {q : Path} (hq : form.Outside q) (vs : List F)
    (s : Store String String) : run S.multi s (edits (form.saves before vs)) q = s q := by
  refine run_edits_of_apart S (fun o ho => ?_) s
  obtain ⟨_, _, f, hf, ho⟩ := mem_saves.mp ho
  rw [Field.path_of_mem_diff ho]
  exact hq f hf

theorem eq_of_joined_eq {f g : Field F} (hf : f ∈ form.fields) (hg : g ∈ form.fields)
    (h : joined f.path = joined g.path) : f = g :=
  List.inj_on_of_nodup_map form.distinct hf hg h

theorem faithful_saves (vs : List F) : Faithful (form.saves before vs) := by
  intro o ho o' ho' hjoin
  obtain ⟨_, _, f, hf, ho⟩ := mem_saves.mp ho
  obtain ⟨_, _, g, hg, ho'⟩ := mem_saves.mp ho'
  rw [Field.path_of_mem_diff ho, Field.path_of_mem_diff ho'] at hjoin ⊢
  rw [eq_of_joined_eq hf hg hjoin]

/-- Submissions against the same fetched values never take anything back. -/
theorem not_cancelled_saves (vs : List F) :
    NoneCancelled (form.saves before vs) := by
  intro o ho o' ho' hset hvalue hdelete hvalue' hjoin
  obtain ⟨v, _, f, hf, ho⟩ := mem_saves.mp ho
  obtain ⟨v', _, g, hg, ho'⟩ := mem_saves.mp ho'
  rw [Field.path_of_mem_diff ho, Field.path_of_mem_diff ho'] at hjoin
  have hfg := eq_of_joined_eq hg hf hjoin
  subst hfg
  exact Field.not_set_and_delete ho ho' ⟨hset, hvalue⟩ hdelete

theorem ops_queued (before : F) (vs : List F) :
    (form.queued before vs).ops = (form.saves before vs).foldl addOp [] := by
  have hall : ∀ s : PendingChangesState,
      (vs.foldl (fun s v => s.addAll (form.diff before v)) s).ops =
        (form.saves before vs).foldl addOp s.ops := by
    induction vs with
    | nil => intro s; rfl
    | cons v vs ih =>
      intro s
      have hcons : form.saves before (v :: vs) =
          form.diff before v ++ form.saves before vs := List.flatMap_cons
      rw [List.foldl_cons, ih, ops_addAll, hcons, List.foldl_append]
  exact hall .empty

theorem store_queued (S : Schema) (t : ConfigTree) (before : F) (vs : List F) :
    (applyOps S t (form.queued before vs).ops).store =
      run S.multi t.store (edits (form.saves before vs)) := by
  rw [store_applyOps, ops_queued]
  exact run_foldl_addOp S.multi (by simpa using faithful_saves vs)
    (guarded_of_noneCancelled (by simpa using not_cancelled_saves vs)) t.store

end Form

end VyosClient.FormDiff
