import VyosClient.Configure
import VyosClient.Mask

/-!
Masking and the operations of a commit. Masking a configuration commutes with
an operation unless the operation compares its value with those behind the
mask: then the number of values that are left tells them apart, and no other
operation does.
-/

namespace VyosClient.MaskedOperations

open ConfigTrees ConfigTree Configure Mask

/-- A value as a masked view shows it. -/
def maskedValue (path : Path) (value : Option String) : Option String :=
  value.map fun v => if isMaskedPath path then maskPlaceholder else v

/-- An operation at a masked leaf that depends on the values there: one value taken out, or one more
value for a leaf with several. -/
def Compares (S : Schema) (o : ConfigOp) : Prop :=
  isMaskedPath o.path = true ∧ o.sent ≠ none ∧
    (o.op = .delete ∨ o.op = .set ∧ S.multi o.path = true)

instance (S : Schema) (o : ConfigOp) : Decidable (Compares S o) :=
  inferInstanceAs (Decidable (_ ∧ _))

/-- The operation on a masked view that an operation on the configuration amounts to. -/
def maskedOp (o : ConfigOp) : ConfigOp := { o with value := maskedValue o.path o.sent }

section Entries

variable {es : List (String × ConfigTree)} {path : Path}

theorem treeEntries_upsert (k : String) (c : ConfigTree) :
    treeEntries (upsert k c es) path = upsert k (tree c (path ++ [k])) (treeEntries es path) := by
  induction es with
  | nil => rfl
  | cons e es ih =>
    obtain ⟨l, d⟩ := e
    by_cases hk : l = k
    · subst hk
      simp [upsert, treeEntries]
    · simp only [upsert, hk, ↓reduceIte, treeEntries, ih]

theorem treeEntries_filter (k : String) :
    treeEntries (es.filter fun e => e.1 ≠ k) path =
      (treeEntries es path).filter fun e => e.1 ≠ k := by
  induction es with
  | nil => rfl
  | cons e es ih =>
    obtain ⟨l, d⟩ := e
    by_cases hk : l = k
    · simpa [treeEntries, hk] using ih
    · simpa [treeEntries, hk] using ih

theorem entries_tree (t : ConfigTree) : entries (tree t path) = treeEntries (entries t) path := by
  cases t with
  | leaf v =>
    unfold tree
    split <;> rfl
  | multi vs =>
    unfold tree
    split <;> rfl
  | node es => rfl

theorem tree_ofValues (vs : List String) (h : isMaskedPath path = false) :
    tree (ofValues vs) path = ofValues vs := by
  unfold ofValues
  split <;> simp [tree, h]

end Entries

section Operations

/-- Setting a value and masking commute, unless the value joins others behind the mask. -/
theorem tree_setNested (multi : Path → Bool) (value : Option String) (t : ConfigTree)
    (path p : Path)
    (h : isMaskedPath (path ++ p) = true → value ≠ none → multi p = false) :
    tree (setNested multi value t p) path =
      setNested multi (maskedValue (path ++ p) value) (tree t path) p := by
  induction p generalizing t path multi with
  | nil =>
    rw [List.append_nil] at h ⊢
    cases value with
    | none => rfl
    | some v =>
      by_cases hmask : isMaskedPath path = true
      · simp [setNested, maskedValue, hmask, h hmask (Option.some_ne_none v), tree]
      · have hplain : isMaskedPath path = false := Bool.eq_false_iff.mpr hmask
        by_cases hmulti : multi [] = true
        · simp [setNested, maskedValue, hplain, hmulti, values_tree_of_not, tree_ofValues]
        · simp [setNested, maskedValue, hplain, hmulti, tree]
  | cons k p ih =>
    have hsplit : path ++ k :: p = path ++ [k] ++ p := by simp
    have hchild : ((entries (tree t path)).lookup k).getD (.node []) =
        tree (((entries t).lookup k).getD (.node [])) (path ++ [k]) := by
      rw [entries_tree, lookup_treeEntries]
      cases (entries t).lookup k <;> rfl
    simp only [setNested, tree]
    rw [treeEntries_upsert, entries_tree, hsplit,
      ih (fun q => multi (k :: q)) _ (path ++ [k]) (by rwa [← hsplit]), ← hchild, entries_tree]

theorem takeOut_tree (value : Option String) (c : ConfigTree) {path : Path}
    (h : isMaskedPath path = true → value = none) :
    takeOut (maskedValue path value) (tree c path) = (takeOut value c).map fun d => tree d path := by
  cases value with
  | none => cases c <;> rfl
  | some v =>
    have hplain : isMaskedPath path = false :=
      Bool.eq_false_iff.mpr fun hmask => Option.some_ne_none v (h hmask)
    cases c with
    | node es => rfl
    | leaf w =>
      simp only [maskedValue, Option.map_some, hplain, Bool.false_eq_true, ↓reduceIte, tree, takeOut]
      split_ifs
      · rfl
      · rw [Option.map_some, tree_ofValues _ hplain]
    | multi vs =>
      simp only [maskedValue, Option.map_some, hplain, Bool.false_eq_true, ↓reduceIte, tree, takeOut]
      split_ifs
      · rfl
      · rw [Option.map_some, tree_ofValues _ hplain]

theorem tree_deleteNested (value : Option String) (t : ConfigTree) (path p : Path)
    (h : isMaskedPath (path ++ p) = true → value = none) :
    tree (deleteNested value t p) path =
      deleteNested (maskedValue (path ++ p) value) (tree t path) p := by
  induction p generalizing t path with
  | nil => cases t <;> simp [deleteNested, tree]
  | cons k p ih =>
    have hsplit : path ++ k :: p = path ++ [k] ++ p := by simp
    cases t with
    | leaf v => simp only [deleteNested, tree]; split <;> rfl
    | multi vs => simp only [deleteNested, tree]; split <;> rfl
    | node es =>
      cases p with
      | nil =>
        have hout : ((treeEntries es path).lookup k).bind (takeOut (maskedValue (path ++ [k]) value)) =
            ((es.lookup k).bind (takeOut value)).map fun d => tree d (path ++ [k]) := by
          rw [lookup_treeEntries]
          cases es.lookup k with
          | none => rfl
          | some c => exact takeOut_tree value c h
        simp only [tree, deleteNested, hout]
        cases (es.lookup k).bind (takeOut value) with
        | none => simp only [Option.map_none, tree, treeEntries_filter]
        | some c => simp only [Option.map_some, tree, treeEntries_upsert]
      | cons k' p =>
        simp only [tree, deleteNested, lookup_treeEntries]
        cases es.lookup k with
        | none => rfl
        | some c =>
          simp only [Option.map_some, tree, treeEntries_upsert]
          rw [ih c (path ++ [k]) (by rwa [← hsplit]), ← hsplit]

variable {S : Schema} {o : ConfigOp}

theorem sent_maskedOp (o : ConfigOp) : (maskedOp o).sent = maskedValue o.path o.sent := by
  unfold maskedOp maskedValue
  cases h : o.sent with
  | none => rfl
  | some v =>
    have hv := ConfigOp.ne_blank_of_sent h
    by_cases hmask : isMaskedPath o.path = true
    · simp only [hmask, ↓reduceIte, Option.map_some, ConfigOp.sent]
      decide
    · simp [hmask, ConfigOp.sent, hv]

/-- Masking a configuration commutes with an operation that compares nothing. -/
theorem tree_applyOp (t : ConfigTree) (h : ¬ Compares S o) :
    tree (applyOp S t o) [] = applyOp S (tree t []) (maskedOp o) := by
  have hsame : (maskedOp o).op = o.op := rfl
  unfold applyOp
  rw [sent_maskedOp, hsame]
  cases hop : o.op with
  | comment => rfl
  | set =>
    refine tree_setNested S.multi o.sent t [] o.path fun hmask hsent => ?_
    exact Bool.eq_false_iff.mpr fun hmulti => h ⟨hmask, hsent, Or.inr ⟨hop, hmulti⟩⟩
  | delete =>
    refine tree_deleteNested o.sent t [] o.path fun hmask => ?_
    by_contra hsent
    exact h ⟨hmask, hsent, Or.inl hop⟩

theorem tree_applyOps (t : ConfigTree) {ops : List ConfigOp} (h : ∀ o ∈ ops, ¬ Compares S o) :
    tree (applyOps S t ops) [] = applyOps S (tree t []) (ops.map maskedOp) := by
  induction ops generalizing t with
  | nil => rfl
  | cons o ops ih =>
    show tree (applyOps S (applyOp S t o) ops) [] =
      applyOps S (applyOp S (tree t []) (maskedOp o)) (ops.map maskedOp)
    rw [ih _ fun o' ho' => h o' (List.mem_cons_of_mem o ho'),
      tree_applyOp t (h o List.mem_cons_self)]

end Operations

section Leaks

/-- A configuration with a single leaf. -/
def lone (p : Path) (v : String) : ConfigTree := setNested (fun _ => false) (some v) (.node []) p

theorem store_lone (p : Path) (v : String) : (lone p v).store p = some [v] := by
  rw [lone, store_setNested]
  simp [PathStore.apply, PathStore.act]

theorem tree_lone {p : Path} (h : isMaskedPath p = true) (v : String) :
    tree (lone p v) [] = lone p maskPlaceholder := by
  rw [lone, tree_setNested _ _ _ _ _ fun _ _ => rfl]
  simp [maskedValue, h, lone, tree, treeEntries]

/-- A masked view shows how many values a leaf has. -/
theorem length_store_of_tree_eq {t t' : ConfigTree} {p : Path} (hmask : isMaskedPath p = true)
    (h : tree t [] = tree t' []) :
    (t.store p).map List.length = (t'.store p).map List.length := by
  have hview : ∀ u : ConfigTree,
      ((tree u []).store p).map List.length = (u.store p).map List.length := by
    intro u
    rw [store_apply, store_apply, get_tree, List.nil_append]
    cases u.get p with
    | none => rfl
    | some c => simp [values_tree c hmask]
  rw [← hview t, ← hview t', h]

theorem store_applyOp_self (S : Schema) (t : ConfigTree) (o : ConfigOp) :
    (applyOp S t o).store o.path = actOp S o.path (t.store o.path) o := by
  rw [store_applyOp, run_edits_apply]
  rfl

/-- Which operations keep masked views apart: an operation leaves configurations with the same
masked view with the same masked view, whatever they hold, unless it compares a value with those
behind the mask. -/
theorem masked_view_kept_iff (S : Schema) (o : ConfigOp) :
    (∀ t t', tree t [] = tree t' [] → tree (applyOp S t o) [] = tree (applyOp S t' o) []) ↔
      ¬ Compares S o := by
  constructor
  · rintro hkept ⟨hmask, hsent, hkind⟩
    obtain ⟨v, hv⟩ := Option.ne_none_iff_exists'.mp hsent
    have hpath : o.path ≠ [] := by
      intro hnil
      rw [hnil] at hmask
      exact absurd hmask (by decide)
    have hne : v ++ "x" ≠ v := by
      intro heq
      simpa using congrArg String.length heq
    have hviews : tree (lone o.path v) [] = tree (lone o.path (v ++ "x")) [] := by
      rw [tree_lone hmask, tree_lone hmask]
    have hlength := length_store_of_tree_eq hmask (hkept _ _ hviews)
    rw [store_applyOp_self, store_applyOp_self, store_lone, store_lone] at hlength
    rcases hkind with hdelete | ⟨hset, hmulti⟩
    · simp [actOp, ConfigOp.toEdit, hdelete, hv, hpath, PathStore.act, PathStore.dropValue, hne,
        hne.symm] at hlength
    · simp [actOp, ConfigOp.toEdit, hset, hv, PathStore.act, hmulti, PathStore.addValue,
        hne.symm] at hlength
  · intro h t t' hview
    rw [tree_applyOp t h, tree_applyOp t' h, hview]

end Leaks

end VyosClient.MaskedOperations
