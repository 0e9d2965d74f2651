import VyosClient.ConfigApi
import VyosClient.MaskingAgreement
import VyosClient.Rehydration

/-!
The editable configuration tree. It is rendered from a masked view, and its
buttons queue operations for the configuration behind that view. What they
delete exists, what a press does to the configuration is what the row says,
and revealing every row gives back all but the lists that stay masked.
-/

namespace VyosClient.TreeEditor

open PathStore ConfigTrees ConfigTree Configure PendingChanges PendingChangesState
open MaskedOperations

/-- The buttons of a row, with what the row knows. -/
inductive Button
  | remove (path : Path) (deleteValue : Option String)
  | replace (path : Path)
  | reveal (path : Path)
  | addValue (path : Path) (existingValues : List String)
  | addChild (path : Path)
  deriving DecidableEq, Repr

def Button.path : Button → Path
  | remove p _ => p
  | replace p => p
  | reveal p => p
  | addValue p _ => p
  | addChild p => p

/-- The operations a press queues, with the text typed into the fields of its row. -/
def Button.press (text value : String) : Button → List ConfigOp
  | remove path deleteValue => [⟨.delete, path, deleteValue⟩]
  | replace path => if text = "" then [] else [⟨.delete, path, none⟩, ⟨.set, path, some text⟩]
  | reveal _ => []
  | addValue path existingValues =>
      if text = "" ∨ text ∈ existingValues then [] else [⟨.set, path, some text⟩]
  | addChild path =>
      if text = "" then []
      else [⟨.set, path ++ [text], if value = "" then none else some value⟩]

/-- The buttons of one value. The invisible root has none. -/
def row : ConfigTree → Path → ℕ → List Button
  | .node es, path, depth =>
      if depth = 0 then []
      else if es = [] then [.remove path none]
      else [.addChild path, .remove path none]
  | .multi values, path, _ =>
      (if Masking.isMaskedPath path then if values = [] then [] else [.remove path none]
        else values.map fun item => .remove path (some item)) ++
        [.addValue path values]
  | .leaf _, path, _ =>
      (if Masking.isMaskedPath path then [.reveal path] else []) ++
        [.replace path, .remove path none]

mutual
/-- The buttons of a value and of everything below it. -/
def treeNode : ConfigTree → Path → ℕ → List Button
  | .node es, path, depth => row (.node es) path depth ++ children es path depth
  | value, path, depth => row value path depth

def children : List (String × ConfigTree) → Path → ℕ → List Button
  | [], _, _ => []
  | (key, child) :: es, path, depth =>
      treeNode child (path ++ [key]) (depth + 1) ++ children es path depth
end

/-- What a button on a masked view stands for in the configuration `t` behind it. -/
inductive Placed (t : ConfigTree) : Button → Prop
  | remove {path : Path} (hpath : path ≠ []) (h : (t.get path).isSome) : Placed t (.remove path none)
  | item {path : Path} {values : List String} {item : String} (hpath : path ≠ [])
      (h : t.get path = some (.multi values)) (hplain : Masking.isMaskedPath path = false)
      (hitem : item ∈ (Mask.tree (.multi values) path).values) : Placed t (.remove path (some item))
  | replace {path : Path} {value : String} (hpath : path ≠ [])
      (h : t.get path = some (.leaf value)) : Placed t (.replace path)
  | reveal {path : Path} {value : String} (h : t.get path = some (.leaf value))
      (hmask : Masking.isMaskedPath path = true) : Placed t (.reveal path)
  | addValue {path : Path} {values : List String} (hpath : path ≠ [])
      (h : t.get path = some (.multi values)) :
      Placed t (.addValue path (Mask.tree (.multi values) path).values)
  | addChild {path : Path} {es : List (String × ConfigTree)} (hpath : path ≠ [])
      (h : t.get path = some (.node es)) : Placed t (.addChild path)

section Rendering

variable {t : ConfigTree} {b : Button}

theorem placed_of_mem_row {c : ConfigTree} {path : Path} (hpath : path ≠ [])
    (hget : t.get path = some c) (hb : b ∈ row (Mask.tree c path) path path.length) :
    Placed t b := by
  have hsome : (t.get path).isSome := by rw [hget]; rfl
  have hlength : path.length ≠ 0 := fun h => hpath (List.length_eq_zero_iff.mp h)
  cases c with
  | leaf v =>
    have hrow : row (Mask.tree (.leaf v) path) path path.length =
        (if Masking.isMaskedPath path then [.reveal path] else []) ++
          [.replace path, .remove path none] := by
      unfold Mask.tree
      split <;> rfl
    rw [hrow] at hb
    rcases List.mem_append.mp hb with hb | hb
    · split_ifs at hb with hmask
      · rw [List.mem_singleton.mp hb]
        exact .reveal hget hmask
      · exact absurd hb (by simp)
    · rcases List.mem_pair.mp hb with rfl | rfl
      · exact .replace hpath hget
      · exact .remove hpath hsome
  | multi vs =>
    obtain ⟨ws, hws⟩ : ∃ ws, Mask.tree (.multi vs) path = .multi ws := by
      unfold Mask.tree
      split <;> exact ⟨_, rfl⟩
    rw [hws, row] at hb
    rcases List.mem_append.mp hb with hb | hb
    · split_ifs at hb with hmask hnil
      · exact absurd hb (by simp)
      · rw [List.mem_singleton.mp hb]
        exact .remove hpath hsome
      · obtain ⟨item, hitem, rfl⟩ := List.mem_map.mp hb
        refine .item hpath hget (Bool.eq_false_iff.mpr hmask) ?_
        rw [hws]
        exact hitem
    · rw [List.mem_singleton.mp hb]
      have hvalue := Placed.addValue hpath hget
      rwa [hws] at hvalue
  | node es =>
    rw [Mask.tree, row, if_neg hlength] at hb
    split_ifs at hb
    · rw [List.mem_singleton.mp hb]
      exact .remove hpath hsome
    · rcases List.mem_pair.mp hb with rfl | rfl
      · exact .addChild hpath hget
      · exact .remove hpath hsome

mutual
theorem placed_of_mem_treeNode : (c : ConfigTree) → (path : Path) → path ≠ [] →
    t.get path = some c → c.WellFormed → b ∈ treeNode (Mask.tree c path) path path.length →
    Placed t b
  | .leaf v, path, hpath, hget, _, hb => by
    refine placed_of_mem_row hpath hget ?_
    unfold Mask.tree at hb ⊢
    split at hb <;> simpa only [treeNode, *, ↓reduceIte, Bool.false_eq_true] using hb
  | .multi vs, path, hpath, hget, _, hb => by
    refine placed_of_mem_row hpath hget ?_
    unfold Mask.tree at hb ⊢
    split at hb <;> simpa only [treeNode, *, ↓reduceIte, Bool.false_eq_true] using hb
  | .node es, path, hpath, hget, hwf, hb => by
    rw [Mask.tree, treeNode] at hb
    rcases List.mem_append.mp hb with hb | hb
    · exact placed_of_mem_row hpath hget hb
    · obtain ⟨hkeys, hchildren⟩ := wellFormed_node_iff.mp hwf
      refine placed_of_mem_children es path ?_ hb
      intro e he
      have hlookup := lookup_eq_some_of_mem hkeys he
      exact ⟨by rw [get_append, hget]; simp [hlookup], hchildren e.1 e.2 hlookup⟩

theorem placed_of_mem_children : (es : List (String × ConfigTree)) → (path : Path) →
    (∀ e ∈ es, t.get (path ++ [e.1]) = some e.2 ∧ e.2.WellFormed) →
    b ∈ children (Mask.treeEntries es path) path path.length → Placed t b
  | [], _, _, hb => absurd hb (by simp [Mask.treeEntries, children])
  | (key, child) :: es, path, hes, hb => by
    rw [Mask.treeEntries, children] at hb
    rcases List.mem_append.mp hb with hb | hb
    · obtain ⟨hget, hwf⟩ := hes (key, child) List.mem_cons_self
      exact placed_of_mem_treeNode child (path ++ [key]) (by simp) hget hwf (by simpa using hb)
    · exact placed_of_mem_children es path (fun e he => hes e (List.mem_cons_of_mem _ he)) hb
end

/-- Every button of the rendered tree stands at a place of the configuration. -/
theorem placed_of_mem {es : List (String × ConfigTree)} (hwf : (ConfigTree.node es).WellFormed)
    (hb : b ∈ treeNode (Mask.tree (.node es) []) [] 0) : Placed (.node es) b := by
  rw [Mask.tree, treeNode] at hb
  rcases List.mem_append.mp hb with hb | hb
  · exact absurd hb (by simp [row])
  · obtain ⟨hkeys, hchildren⟩ := wellFormed_node_iff.mp hwf
    refine placed_of_mem_children es [] (fun e he => ?_) hb
    have hlookup := lookup_eq_some_of_mem hkeys he
    exact ⟨by simp [hlookup], hchildren e.1 e.2 hlookup⟩

end Rendering

/-- What the row says a press does: to the values of a node, of everything below it and of a node
added to it. -/
def Button.meaning (multi : Path → Bool) (text value : String) (s : Store String String) :
    Button → Store String String
  | remove path none => fun q => if path <+: q then none else s q
  | remove path (some item) => fun q => if q = path then dropValue item (s q) else s q
  | replace path =>
      if text = "" then s
      else fun q => if q = path then some [text] else if path <+: q then none else s q
  | reveal _ => s
  | addValue path existingValues =>
      if text = "" ∨ text ∈ existingValues then s
      else fun q => if q = path then (s q).map fun values => PathStore.addValue values text else s q
  | addChild path =>
      if text = "" then s
      else fun q =>
        if q = path ++ [text] then
          some (if value = "" then (s q).getD []
            else if multi q then PathStore.addValue ((s q).getD []) value else [value])
        else if value ≠ "" ∧ path ++ [text] <+: q then none
        else s q

section Pressing

variable {S : Schema} {t : ConfigTree} {path q : Path}

theorem store_eq_of_above (hle : q <+: path) (hne : q ≠ path) (h : (t.get path).isSome) :
    t.store q = some [] :=
  store_above hle hne h

theorem store_remove (hpath : path ≠ []) (s : Store String String) :
    run S.multi s (edits [⟨.delete, path, none⟩]) q = if path <+: q then none else s q := by
  rw [run_edits_apply]
  exact actOp_delete S hpath q (s q)

/-- A value put at a path, seen from a path that is neither it nor above it. -/
theorem actOp_set_beside {v : String} (hv : v ≠ "") (hne : q ≠ path) (habove : ¬ q <+: path)
    (x : Slot String) : actOp S q x ⟨.set, path, some v⟩ = if path <+: q then none else x := by
  have hsent : ConfigOp.sent ⟨.set, path, some v⟩ = some v := by simp [ConfigOp.sent, hv]
  simp [actOp, ConfigOp.toEdit, hsent, act, hne, habove]

theorem actOp_set_above {o : ConfigOp} (hset : o.op = .set) (hle : q <+: o.path)
    (hne : q ≠ o.path) (x : Slot String) : actOp S q x o = some [] := by
  rw [actOp_above S hle hne, if_pos hset]

theorem store_replace {v text : String} (hpath : path ≠ []) (hget : t.get path = some (.leaf v))
    (htext : text ≠ "") :
    run S.multi t.store (edits [⟨.delete, path, none⟩, ⟨.set, path, some text⟩]) q =
      if q = path then some [text] else if path <+: q then none else t.store q := by
  rw [run_edits_apply, List.foldl_cons, List.foldl_cons, List.foldl_nil, actOp_delete S hpath]
  by_cases hq : q = path
  · subst hq
    rw [if_pos (List.prefix_refl q), actOp_set_value S q none htext, if_pos rfl]
    simp [PathStore.addValue]
  · rw [if_neg hq]
    by_cases habove : q <+: path
    · have hnot : ¬ path <+: q := fun h => hq (List.IsPrefix.eq_of_length habove
        (Nat.le_antisymm habove.length_le h.length_le))
      rw [if_neg hnot, actOp_set_above rfl habove hq,
        store_eq_of_above habove hq (by rw [hget]; rfl)]
    · rw [actOp_set_beside htext hq habove]
      split_ifs <;> rfl

theorem store_addValue {values : List String} {text : String}
    (hget : t.get path = some (.multi values)) (hmulti : S.multi path = true) (htext : text ≠ "") :
    run S.multi t.store (edits [⟨.set, path, some text⟩]) q =
      if q = path then (t.store q).map fun values => PathStore.addValue values text
      else t.store q := by
  have hstore : t.store path = some values := by rw [store_apply, hget]; rfl
  rw [run_edits_apply, List.foldl_cons, List.foldl_nil]
  by_cases hq : q = path
  · subst hq
    rw [actOp_set_value S q _ htext, if_pos hmulti, if_pos rfl, hstore]
    rfl
  · rw [if_neg hq]
    by_cases habove : q <+: path
    · rw [actOp_set_above rfl habove hq, store_eq_of_above habove hq (by rw [hget]; rfl)]
    · rw [actOp_set_beside htext hq habove]
      split_ifs with hbelow
      · obtain ⟨rest, rfl⟩ := hbelow
        have hrest : rest ≠ [] := fun hnil => hq (by rw [hnil, List.append_nil])
        obtain ⟨k, rest, rfl⟩ := List.exists_cons_of_ne_nil hrest
        rw [store_append, hget]
        rfl
      · rfl

theorem store_addChild {es : List (String × ConfigTree)} {name value : String}
    (hget : t.get path = some (.node es)) :
    run S.multi t.store
        (edits [⟨.set, path ++ [name], if value = "" then none else some value⟩]) q =
      if q = path ++ [name] then
        some (if value = "" then (t.store q).getD []
          else if S.multi q then PathStore.addValue ((t.store q).getD []) value else [value])
      else if value ≠ "" ∧ path ++ [name] <+: q then none
      else t.store q := by
  rw [run_edits_apply, List.foldl_cons, List.foldl_nil]
  by_cases hq : q = path ++ [name]
  · rw [if_pos hq, ← hq]
    by_cases hvalue : value = ""
    · rw [if_pos hvalue, if_pos hvalue, actOp_set_flag]
    · rw [if_neg hvalue, if_neg hvalue, actOp_set_value S q _ hvalue]
  · rw [if_neg hq]
    by_cases habove : q <+: path ++ [name]
    · have hle : q <+: path := by
        rcases List.prefix_concat_iff.mp habove with heq | hle
        · exact absurd heq hq
        · exact hle
      have hstore : t.store q = some [] := by
        by_cases hpath : q = path
        · rw [hpath, store_apply, hget]
          rfl
        · exact store_eq_of_above hle hpath (by rw [hget]; rfl)
      have hnot : ¬ path ++ [name] <+: q := fun h => hq (List.IsPrefix.eq_of_length habove
        (Nat.le_antisymm habove.length_le h.length_le))
      rw [actOp_set_above rfl habove hq, if_neg (fun h => hnot h.2), hstore]
    · by_cases hvalue : value = ""
      · rw [if_pos hvalue, if_neg (fun h => h.1 hvalue)]
        simp [actOp, ConfigOp.toEdit, ConfigOp.sent, act, hq, habove]
      · rw [if_neg hvalue, actOp_set_beside hvalue hq habove]
        simp [hvalue]

/-- An operation deletes only what is there. -/
def DeletesThere (t : ConfigTree) (o : ConfigOp) : Prop :=
  o.op = .delete → ∃ values, t.store o.path = some values ∧ ∀ v ∈ o.value, v ∈ values

theorem deletesThere_node {o : ConfigOp} (h : (t.get o.path).isSome) (hvalue : o.value = none) :
    DeletesThere t o := by
  obtain ⟨c, hc⟩ := Option.isSome_iff_exists.mp h
  exact fun _ => ⟨c.values, by rw [store_apply, hc]; rfl, by simp [hvalue]⟩

theorem deletesThere_set {o : ConfigOp} (h : o.op = .set) : DeletesThere t o := by
  intro hdelete
  rw [h] at hdelete
  cases hdelete

/-- Where both halves mask alike, the values of a list that the frontend does not mask are shown. -/
theorem values_of_item {values : List String} (hplain : Masking.isMaskedPath path = false)
    (hund : MaskingAgreement.Undotted path) :
    (Mask.tree (.multi values) path).values = values := by
  have hmask : Mask.isMaskedPath path = false := by
    rw [(MaskingAgreement.isMaskedPath_eq_iff path).mpr hund, hplain]
  rw [Mask.values_tree_of_not _ hmask]
  rfl

/-- A press on the masked tree does to the configuration behind it what its row says, and nothing
else, and deletes only nodes and values that are there. -/
theorem press_on_masked_tree {es : List (String × ConfigTree)} (ht : t = .node es)
    (hwf : t.WellFormed) (hmulti : ∀ p values, t.get p = some (.multi values) → S.multi p = true)
    (hblank : ∀ p values, t.store p = some values → "" ∉ values) {b : Button}
    (hb : b ∈ treeNode (Mask.tree t []) [] 0) (hund : MaskingAgreement.Undotted b.path)
    (text value : String) :
    (∀ o ∈ b.press text value, DeletesThere t o) ∧
      (applyOps S t (b.press text value)).store = b.meaning S.multi text value t.store := by
  subst ht
  have hplaced := placed_of_mem hwf hb
  rw [store_applyOps]
  cases hplaced with
  | @remove path hpath h =>
    refine ⟨fun o ho => ?_, funext fun q => store_remove hpath _⟩
    rw [List.mem_singleton.mp ho]
    exact deletesThere_node h rfl
  | @item path values item hpath h hplain hitem =>
    rw [values_of_item hplain hund] at hitem
    have hstore : (ConfigTree.node es).store path = some values := by rw [store_apply, h]; rfl
    have hne : item ≠ "" := fun hnil => hblank path values hstore (hnil ▸ hitem)
    have hsent : ConfigOp.sent ⟨.delete, path, some item⟩ = some item := by
      simp [ConfigOp.sent, hne]
    refine ⟨fun o ho => ?_, funext fun q => ?_⟩
    · rw [List.mem_singleton.mp ho]
      exact fun _ => ⟨values, hstore, by simpa using hitem⟩
    · rw [Button.press, run_edits_apply, List.foldl_cons, List.foldl_nil]
      simp only [actOp, ConfigOp.toEdit, hsent, hpath, ↓reduceIte, act, Button.meaning]
  | @replace path v hpath h =>
    simp only [Button.press, Button.meaning]
    split_ifs with htext
    · exact ⟨by simp, rfl⟩
    · refine ⟨fun o ho => ?_, funext fun q => store_replace hpath h htext⟩
      rcases List.mem_pair.mp ho with rfl | rfl
      · exact deletesThere_node (by rw [h]; rfl) rfl
      · exact deletesThere_set rfl
  | reveal h hmask => exact ⟨by simp [Button.press], rfl⟩
  | @addValue path values hpath h =>
    simp only [Button.press, Button.meaning]
    split_ifs with htext
    · exact ⟨by simp, rfl⟩
    · refine ⟨fun o ho => ?_, funext fun q => ?_⟩
      · rw [List.mem_singleton.mp ho]
        exact deletesThere_set rfl
      · exact store_addValue h (hmulti path values h) fun hnil => htext (Or.inl hnil)
  | @addChild path es' hpath h =>
    simp only [Button.press, Button.meaning]
    by_cases htext : text = ""
    · rw [if_pos htext, if_pos htext]
      exact ⟨by simp, rfl⟩
    · rw [if_neg htext, if_neg htext]
      refine ⟨fun o ho => ?_, funext fun q => store_addChild h⟩
      rw [List.mem_singleton.mp ho]
      exact deletesThere_set rfl

end Pressing

def passwordPath : Path :=
  ["system", "login", "user", "vyos", "authentication", "encrypted-password"]

/-- A host name, and a user whose password is masked. -/
def loginUser : ConfigTree :=
  .node [("system", .node [("host-name", .leaf "r1"), ("login", .node [("user", .node [("vyos",
    .node [("authentication", .node [("encrypted-password", .leaf "$6$ab")])])])])])]

/-- A new password is typed over the placeholder. -/
theorem press_on_password :
    (Mask.tree loginUser []).store passwordPath = some [Mask.maskPlaceholder] ∧
      (∀ o ∈ (Button.replace passwordPath).press "$6$cd" "", DeletesThere loginUser o) ∧
      (applyOps ⟨fun _ => true⟩ loginUser
          ((Button.replace passwordPath).press "$6$cd" "")).store =
        (Button.replace passwordPath).meaning (fun _ => true) "$6$cd" "" loginUser.store := by
  have hund : MaskingAgreement.Undotted passwordPath :=
    (MaskingAgreement.isMaskedPath_eq_iff _).mp (by decide +kernel)
  have hmade : loginUser = applyOps ⟨fun _ => false⟩ (.node [])
      [⟨.set, ["system", "host-name"], some "r1"⟩, ⟨.set, passwordPath, some "$6$ab"⟩] := by
    rfl
  have hblank : ∀ p values, loginUser.store p = some values → "" ∉ values := by
    intro p values h hmem
    rw [hmade, store_applyOps, run_edits_apply] at h
    refine blank_notMem_foldl_actOp ⟨fun _ => false⟩ p _ (x := (ConfigTree.node []).store p) ?_
      (by rwa [h])
    cases p <;> simp [store, ConfigTree.values]
  exact ⟨by decide +kernel, press_on_masked_tree (S := ⟨fun _ => true⟩)
    (b := .replace passwordPath) rfl ((check_iff loginUser).mp (by decide +kernel))
    (fun _ _ _ => rfl) hblank (by decide +kernel) hund "$6$cd" ""⟩

/-- What happens to the queue between two commits. -/
inductive Event
  | press (t : ConfigTree) (b : Button) (text value : String)
  | remove (id : ℕ)
  | removeMany (ids : List ℕ)
  | reload

def step (s : PendingChangesState) : Event → PendingChangesState
  | .press _ b text value => s.addAll (b.press text value)
  | .remove id => s.remove id
  | .removeMany ids => s.removeMany ids
  | .reload => s.rehydrated

/-- A press is on the masked view of some configuration, and nobody types the placeholder. -/
def Event.Real : Event → Prop
  | .press t b text value => isRecord (some t) ∧ t.WellFormed ∧
      b ∈ treeNode (Mask.tree t []) [] 0 ∧ text ≠ Mask.maskPlaceholder ∧
      value ≠ Mask.maskPlaceholder
  | _ => True

section Runs

theorem ops_keep_subset (s : PendingChangesState) (p : PendingChange → Bool) :
    (s.keep p).ops ⊆ s.ops := by
  intro o ho
  obtain ⟨c, hc, rfl⟩ := List.mem_map.mp ho
  exact List.mem_map_of_mem (List.mem_filter.mp hc).1

/-- All that is queued was pressed. -/
theorem mem_ops_run {o : ConfigOp} (es : List Event) (s : PendingChangesState)
    (h : o ∈ (es.foldl step s).ops) :
    o ∈ s.ops ∨ ∃ t b text value, Event.press t b text value ∈ es ∧ o ∈ b.press text value := by
  induction es generalizing s with
  | nil => exact Or.inl h
  | cons e es ih =>
    rcases ih (step s e) h with hmem | ⟨t, b, text, value, he, ho⟩
    · cases e with
      | press t b text value =>
        rcases List.mem_append.mp (ops_addAll_subset s _ hmem) with hs | ho
        · exact Or.inl hs
        · exact Or.inr ⟨t, b, text, value, List.mem_cons_self, ho⟩
      | remove id => exact Or.inl (ops_keep_subset s _ hmem)
      | removeMany ids => exact Or.inl (ops_keep_subset s _ hmem)
      | reload => exact Or.inl (ops_keep_subset s _ hmem)
    · exact Or.inr ⟨t, b, text, value, List.mem_cons_of_mem e he, ho⟩

/-- What is known of an operation that a button queued. -/
structure Queued (b : Button) (o : ConfigOp) : Prop where
  path_ne_nil : o.path ≠ []
  below : b.path <+: o.path
  value : o.op = .set → o.value ≠ some Mask.maskPlaceholder
  plain : o.op = .delete → o.sent ≠ none → Masking.isMaskedPath o.path = false

theorem queued_of_placed {t : ConfigTree} {b : Button} (hb : Placed t b) {text value : String}
    (htext : text ≠ Mask.maskPlaceholder) (hvalue : value ≠ Mask.maskPlaceholder) {o : ConfigOp}
    (ho : o ∈ b.press text value) : Queued b o := by
  cases hb with
  | @remove path hpath h =>
    rw [List.mem_singleton.mp ho]
    exact ⟨hpath, List.prefix_refl path, by simp, fun _ hsent => absurd rfl hsent⟩
  | @item path values item hpath h hplain hitem =>
    rw [List.mem_singleton.mp ho]
    exact ⟨hpath, List.prefix_refl path, by simp, fun _ _ => hplain⟩
  | @replace path v hpath h =>
    simp only [Button.press] at ho
    split_ifs at ho with hnil
    · exact absurd ho (by simp)
    · rcases List.mem_pair.mp ho with rfl | rfl
      · exact ⟨hpath, List.prefix_refl path, by simp, fun _ hsent => absurd rfl hsent⟩
      · exact ⟨hpath, List.prefix_refl path, fun _ => by simpa using htext, by simp⟩
  | reveal h hmask => exact absurd ho (by simp [Button.press])
  | @addValue path values hpath h =>
    simp only [Button.press] at ho
    split_ifs at ho with hnil
    · exact absurd ho (by simp)
    · rw [List.mem_singleton.mp ho]
      exact ⟨hpath, List.prefix_refl path, fun _ => by simpa using htext, by simp⟩
  | @addChild path es hpath h =>
    simp only [Button.press] at ho
    by_cases hnil : text = ""
    · rw [if_pos hnil] at ho
      exact absurd ho (by simp)
    · rw [if_neg hnil] at ho
      rw [List.mem_singleton.mp ho]
      refine ⟨by simp, List.prefix_append path [text], fun _ => ?_, by simp⟩
      show (if value = "" then none else some value) ≠ _
      split_ifs <;> simp [hvalue]

theorem queued_of_run {es : List Event} (hes : ∀ e ∈ es, e.Real) {o : ConfigOp}
    (ho : o ∈ (es.foldl step .empty).ops) :
    ∃ t b text value, Event.press t b text value ∈ es ∧ Queued b o := by
  rcases mem_ops_run es .empty ho with hempty | ⟨t, b, text, value, he, ho⟩
  · exact absurd hempty (by simp [PendingChangesState.ops, PendingChangesState.empty])
  · obtain ⟨hrecord, hwf, hb, htext, hvalue⟩ := hes _ he
    cases t with
    | leaf v => simp [isRecord] at hrecord
    | multi vs => simp [isRecord] at hrecord
    | node entries =>
      exact ⟨_, b, text, value, he, queued_of_placed (placed_of_mem hwf hb) htext hvalue ho⟩

/-- Whatever is pressed on masked trees, taken back or reloaded, in whatever order: the queue that
results is accepted with every confirm window, nothing it deletes is compared with a value behind
the mask, and what lies apart from all rows that were pressed stays as it is. -/
theorem edited_queue {es : List Event} (hes : ∀ e ∈ es, e.Real) {queue : List ConfigOp}
    (hqueue : queue = (es.foldl step .empty).ops) (hne : queue ≠ []) :
    (∀ confirmSeconds, confirmSeconds = 0 ∨ ConfigHandlers.minConfirmSeconds ≤ confirmSeconds ∧
        confirmSeconds ≤ ConfigHandlers.maxConfirmSeconds →
      ∃ minutes, ConfigHandlers.handleCommit queue confirmSeconds = .ok (queue, minutes)) ∧
    (∀ S, ∀ o ∈ queue, o.op = .delete → MaskingAgreement.Undotted o.path → ¬ Compares S o) ∧
      ∀ S base q, (∀ t b text value, Event.press t b text value ∈ es → Apart b.path q) →
        (applyOps S base queue).store q = base.store q := by
  subst hqueue
  refine ⟨fun confirmSeconds hwindow => ?_, fun S o ho hdelete hund => ?_, fun S base q hq => ?_⟩
  · refine ConfigApi.handleCommit_ok hne (fun o ho => ?_) hwindow
    obtain ⟨t, b, text, value, -, hqueued⟩ := queued_of_run hes ho
    exact ⟨hqueued.path_ne_nil, hqueued.value⟩
  · rintro ⟨hmask, hsent, -⟩
    obtain ⟨t, b, text, value, -, hqueued⟩ := queued_of_run hes ho
    rw [(MaskingAgreement.isMaskedPath_eq_iff o.path).mpr hund, hqueued.plain hdelete hsent] at hmask
    cases hmask
  · rw [store_applyOps]
    refine run_edits_of_apart S (fun o ho => ?_) _
    obtain ⟨t, b, text, value, he, hqueued⟩ := queued_of_run hes ho
    obtain ⟨rest, hrest⟩ := hqueued.below
    have hapart := (hq t b text value he).append rest []
    rwa [hrest, List.append_nil] at hapart

end Runs

/-- The host name is replaced, a domain name added beside it, the user with the masked password
removed, and the page reloaded. -/
def renamed : List Event :=
  [.press loginUser (.replace ["system", "host-name"]) "r2" "",
    .press loginUser (.addChild ["system"]) "domain-name" "lan",
    .press loginUser (.remove ["system", "login", "user", "vyos"] none) "" "", .reload]

theorem renamed_accepted :
    (∀ confirmSeconds, confirmSeconds = 0 ∨ ConfigHandlers.minConfirmSeconds ≤ confirmSeconds ∧
        confirmSeconds ≤ ConfigHandlers.maxConfirmSeconds →
      ∃ minutes, ConfigHandlers.handleCommit (renamed.foldl step .empty).ops confirmSeconds =
        .ok ((renamed.foldl step .empty).ops, minutes)) ∧
    (∀ S, ∀ o ∈ (renamed.foldl step .empty).ops, o.op = .delete →
      MaskingAgreement.Undotted o.path → ¬ Compares S o) ∧
      ∀ S base q, (∀ t b text value, Event.press t b text value ∈ renamed → Apart b.path q) →
        (applyOps S base (renamed.foldl step .empty).ops).store q = base.store q := by
  have hwf : loginUser.WellFormed := (check_iff loginUser).mp (by decide +kernel)
  have hreal : ∀ e ∈ renamed, e.Real := by
    intro e he
    simp only [renamed, List.mem_cons, List.not_mem_nil, or_false] at he
    rcases he with rfl | rfl | rfl | rfl
    · exact ⟨rfl, hwf, by decide +kernel, by decide, by decide⟩
    · exact ⟨rfl, hwf, by decide +kernel, by decide, by decide⟩
    · exact ⟨rfl, hwf, by decide +kernel, by decide, by decide⟩
    · trivial
  exact edited_queue hreal rfl (by decide +kernel)

mutual
/-- The tree as its rows show it once every Reveal has been pressed and answered. -/
def revealAll (answer : Path → Option String) : ConfigTree → Path → ConfigTree
  | .node es, path => .node (revealEntries answer es path)
  | .multi values, path =>
      if Masking.isMaskedPath path then .multi (values.map fun _ => Mask.maskPlaceholder)
      else .multi values
  | .leaf v, path =>
      if Masking.isMaskedPath path then .leaf ((answer path).getD Mask.maskPlaceholder) else .leaf v

def revealEntries (answer : Path → Option String) :
    List (String × ConfigTree) → Path → List (String × ConfigTree)
  | [], _ => []
  | (k, c) :: es, path => (k, revealAll answer c (path ++ [k])) :: revealEntries answer es path
end

mutual
/-- What no Reveal shows: masked lists, and the leaves that only the backend masks. -/
def residue : ConfigTree → Path → ConfigTree
  | .node es, path => .node (residues es path)
  | .multi values, path =>
      if Mask.isMaskedPath path then .multi (values.map fun _ => Mask.maskPlaceholder)
      else .multi values
  | .leaf v, path =>
      if Mask.isMaskedPath path ∧ ¬ Masking.isMaskedPath path then .leaf Mask.maskPlaceholder
      else .leaf v

def residues : List (String × ConfigTree) → Path → List (String × ConfigTree)
  | [], _ => []
  | (k, c) :: es, path => (k, residue c (path ++ [k])) :: residues es path
end

/-- The value a browser gets for a path, with a VyOS that answers. -/
def revealed (r : ConfigApi.Router) (path : Path) : Option String :=
  match (r.handleReveal path none).2 with
  | .value v => some v
  | _ => none

section Reveals

variable {r : ConfigApi.Router} {path : Path}

/-- The frontend masks nothing that the backend does not. -/
theorem isMaskedPath_of_masking (h : Masking.isMaskedPath path = true) :
    Mask.isMaskedPath path = true := by
  rw [MaskingAgreement.masking_isMaskedPath_eq] at h
  rw [Mask.isMaskedPath_eq]
  rcases List.eq_nil_or_concat' path with rfl | ⟨init, leafName, rfl⟩
  · rw [Mask.maskedBy_nil] at h
    cases h
  · rcases List.eq_nil_or_concat' init with rfl | ⟨pre, identifier, rfl⟩
    · rw [List.nil_append, Mask.maskedBy_singleton] at h ⊢
      exact ((MaskingAgreement.masking_isSensitiveLeaf_iff leafName).mp h).2
    · rw [List.append_assoc, List.singleton_append, Mask.maskedBy_append_pair] at h ⊢
      simp only [Bool.or_eq_true, Bool.and_eq_true] at h ⊢
      rcases h with hleaf | ⟨hvalue, hidentifier⟩
      · exact Or.inl ((MaskingAgreement.masking_isSensitiveLeaf_iff leafName).mp hleaf).2
      · obtain ⟨part, hpart, -, hsensitive⟩ :=
          (MaskingAgreement.masking_isSensitiveIdentifier_iff identifier).mp hidentifier
        exact Or.inr ⟨hvalue, MaskingAgreement.isSensitiveIdentifier_mono hpart hsensitive⟩

theorem revealed_leaf {v : String} (hget : r.running.get path = some (.leaf v))
    (hmask : Mask.isMaskedPath path = true) : revealed r path = some v := by
  have hpath : path ≠ [] := by
    rintro rfl
    rw [Mask.isMaskedPath_nil] at hmask
    cases hmask
  have hvalue : ConfigApi.returnValue r.running path = .ok v := by
    rw [ConfigApi.returnValue, hget]
  rw [revealed, ConfigApi.Router.handleReveal, if_neg hpath, if_neg (not_not.mpr hmask), hvalue]

mutual
theorem revealAll_tree_at : (c : ConfigTree) → (path : Path) → c.WellFormed →
    r.running.get path = some c →
    revealAll (revealed r) (Mask.tree c path) path = residue c path
  | .leaf v, path, _, hget => by
    by_cases hmask : Mask.isMaskedPath path = true
    · by_cases hfront : Masking.isMaskedPath path = true
      · simp [Mask.tree, revealAll, residue, hmask, hfront, revealed_leaf hget hmask]
      · simp [Mask.tree, revealAll, residue, hmask, hfront]
    · have hfront : ¬ Masking.isMaskedPath path = true := fun h => hmask (isMaskedPath_of_masking h)
      simp [Mask.tree, revealAll, residue, hmask, hfront]
  | .multi vs, path, _, _ => by
    by_cases hmask : Mask.isMaskedPath path = true
    · by_cases hfront : Masking.isMaskedPath path = true
      · simp [Mask.tree, revealAll, residue, hmask, hfront]
      · simp [Mask.tree, revealAll, residue, hmask, hfront]
    · have hfront : ¬ Masking.isMaskedPath path = true := fun h => hmask (isMaskedPath_of_masking h)
      simp [Mask.tree, revealAll, residue, hmask, hfront]
  | .node es, path, hwf, hget => by
    obtain ⟨hkeys, hchildren⟩ := wellFormed_node_iff.mp hwf
    have hentries := revealEntries_treeEntries es path fun e he => by
      have hlookup := lookup_eq_some_of_mem hkeys he
      exact ⟨hchildren e.1 e.2 hlookup, by rw [get_append, hget]; simp [hlookup]⟩
    simp only [Mask.tree, revealAll, residue, hentries]

theorem revealEntries_treeEntries : (es : List (String × ConfigTree)) → (path : Path) →
    (∀ e ∈ es, e.2.WellFormed ∧ r.running.get (path ++ [e.1]) = some e.2) →
    revealEntries (revealed r) (Mask.treeEntries es path) path = residues es path
  | [], _, _ => rfl
  | (k, c) :: es, path, hes => by
    obtain ⟨hwf, hget⟩ := hes (k, c) List.mem_cons_self
    have hchild := revealAll_tree_at c (path ++ [k]) hwf hget
    have hrest := revealEntries_treeEntries es path fun e he => hes e (List.mem_cons_of_mem _ he)
    simp only [Mask.treeEntries, revealEntries, residues, hchild, hrest]
end

/-- Pressing every Reveal of the masked tree shows the running configuration, all but masked lists
and the leaves that only the backend masks. -/
theorem revealAll_tree (r : ConfigApi.Router) (hwf : r.running.WellFormed) :
    revealAll (revealed r) (Mask.tree r.running []) [] = residue r.running [] :=
  revealAll_tree_at r.running [] hwf (by simp)

end Reveals

theorem revealAll_keyed :
    revealAll (revealed (ConfigApi.keyed "a" "b")) (Mask.tree (lone ConfigApi.keyPath "a") []) [] =
      residue (lone ConfigApi.keyPath "a") [] :=
  revealAll_tree (ConfigApi.keyed "a" "b") (by decide +kernel)

end VyosClient.TreeEditor
