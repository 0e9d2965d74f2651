import VyosClient.ConfigTrees

/-!
Configuration operations and what VyOS makes of them. The reference server
walks nested maps (`setNested`, `deleteNested`); VyOS itself also accumulates
the values of a multi-valued leaf and deletes single values, and which leaves
are multi-valued is a parameter here. Every operation on a tree is an edit of
its store, so a queue of operations is a run of edits.
-/

namespace VyosClient.Configure

open PathStore ConfigTrees ConfigTree

inductive ConfigOpKind
  | set
  | delete
  | comment
  deriving DecidableEq, Repr

def ConfigOpKind.text : ConfigOpKind → String
  | set => "set"
  | delete => "delete"
  | comment => "comment"

structure ConfigOp where
  op : ConfigOpKind
  path : Path
  value : Option String := none
  deriving DecidableEq, Repr

/-- VyOS's interface definitions, as far as a commit depends on them: which
leaves take several values. -/
structure Schema where
  multi : Path → Bool

namespace ConfigOp

/-- The backend leaves an empty value out of its request (`omitempty`), so
VyOS reads it as no value at all. -/
def sent (o : ConfigOp) : Option String := o.value.filter (· ≠ "")

/-- The edit an operation makes; no deletion reaches the root. -/
def toEdit (o : ConfigOp) : Option (Edit String String) :=
  match o.op, o.sent with
  | .set, some v => some (.put o.path v)
  | .set, none => some (.create o.path)
  | .delete, some v => if o.path = [] then none else some (.drop o.path v)
  | .delete, none => if o.path = [] then none else some (.erase o.path)
  | .comment, _ => none

theorem toEdit_path {o : ConfigOp} {e : Edit String String} (h : o.toEdit = some e) :
    e.path = o.path := by
  unfold toEdit at h
  split at h
  · exact Option.some.inj h ▸ rfl
  · exact Option.some.inj h ▸ rfl
  · split_ifs at h
    exact Option.some.inj h ▸ rfl
  · split_ifs at h
    exact Option.some.inj h ▸ rfl
  · cases h

theorem ne_blank_of_sent {o : ConfigOp} {v : String} (h : o.sent = some v) : v ≠ "" :=
  of_decide_eq_true (Option.filter_eq_some_iff.mp h).2

theorem sent_of_toEdit_put {o : ConfigOp} {p : Path} {v : String}
    (h : o.toEdit = some (.put p v)) : o.sent = some v := by
  unfold toEdit at h
  split at h
  · rename_i w hw
    rw [hw, (Edit.put.inj (Option.some.inj h)).2]
  · cases h
  · split_ifs at h
    cases h
  · split_ifs at h
    cases h
  · cases h

end ConfigOp

def entries : ConfigTree → List (String × ConfigTree)
  | .node es => es
  | _ => []

def upsert (k : String) (c : ConfigTree) : List (String × ConfigTree) → List (String × ConfigTree)
  | [] => [(k, c)]
  | e :: es => if e.1 = k then (k, c) :: es else e :: upsert k c es

/-- VyOS spells a leaf with one value as a plain string. -/
def ofValues : List String → ConfigTree
  | [v] => .leaf v
  | vs => .multi vs

/-- Nodes missing on the way are created, and a value in the way gives way to
a node, as in the reference server's `setNested`. -/
def setNested (multi : Path → Bool) (value : Option String) : ConfigTree → Path → ConfigTree
  | t, [] =>
      match value with
      | none => t
      | some v => if multi [] then ofValues (addValue t.values v) else .leaf v
  | t, k :: p =>
      .node (upsert k (setNested (fun q => multi (k :: q)) value
        (((entries t).lookup k).getD (.node [])) p) (entries t))

/-- What a deletion leaves of the node it names. -/
def takeOut (value : Option String) (c : ConfigTree) : Unknown :=
  match value, c with
  | none, _ => none
  | some _, .node es => some (.node es)
  | some v, c =>
      if v ∈ c.values ∧ c.values.filter (· ≠ v) = [] then none
      else some (ofValues (c.values.filter (· ≠ v)))

def deleteNested (value : Option String) : ConfigTree → Path → ConfigTree
  | .node es, [k] =>
      match (es.lookup k).bind (takeOut value) with
      | none => .node (es.filter fun e => e.1 ≠ k)
      | some c => .node (upsert k c es)
  | .node es, k :: p =>
      match es.lookup k with
      | none => .node es
      | some c => .node (upsert k (deleteNested value c p) es)
  | t, _ => t

def applyOp (S : Schema) (t : ConfigTree) (o : ConfigOp) : ConfigTree :=
  match o.op with
  | .set => setNested S.multi o.sent t o.path
  | .delete => deleteNested o.sent t o.path
  | .comment => t

/-- Applying a whole queue, in order. -/
def applyOps (S : Schema) (t : ConfigTree) (ops : List ConfigOp) : ConfigTree :=
  ops.foldl (applyOp S) t

def edits (ops : List ConfigOp) : List (Edit String String) := ops.filterMap ConfigOp.toEdit

@[simp] theorem edits_nil : edits [] = [] := rfl

@[simp] theorem edits_append (ops ops' : List ConfigOp) :
    edits (ops ++ ops') = edits ops ++ edits ops' := List.filterMap_append

theorem mem_edits {e : Edit String String} {ops : List ConfigOp} :
    e ∈ edits ops ↔ ∃ o ∈ ops, o.toEdit = some e := List.mem_filterMap

/-- What an operation leaves at the path `q`. -/
def actOp (S : Schema) (q : Path) (x : Slot String) (o : ConfigOp) : Slot String :=
  match o.toEdit with
  | some e => act S.multi e q x
  | none => x

/-- A queue can be read one slot at a time. -/
theorem run_edits_apply (S : Schema) (s : Store String String) (ops : List ConfigOp) (q : Path) :
    run S.multi s (edits ops) q = ops.foldl (actOp S q) (s q) := by
  rw [run_apply, edits, List.foldl_filterMap]
  congr 1
  funext x o
  unfold actOp
  cases o.toEdit <;> rfl

theorem actOp_of_apart (S : Schema) {q : Path} {o : ConfigOp} (h : Apart o.path q)
    (x : Slot String) : actOp S q x o = x := by
  unfold actOp
  cases he : o.toEdit with
  | none => rfl
  | some e => exact act_of_apart S.multi (by rwa [ConfigOp.toEdit_path he]) x

/-- Frame: a queue leaves a path alone when all it names is apart from it. -/
theorem run_edits_of_apart (S : Schema) {ops : List ConfigOp} {q : Path}
    (h : ∀ o ∈ ops, Apart o.path q) (s : Store String String) :
    run S.multi s (edits ops) q = s q := by
  refine run_of_apart (fun e he => ?_) s
  obtain ⟨o, ho, hoe⟩ := mem_edits.mp he
  exact ConfigOp.toEdit_path hoe ▸ h o ho

/-- What an operation below a path does to the node there. -/
theorem actOp_above (S : Schema) {q : Path} {o : ConfigOp} (habove : q <+: o.path)
    (hne : q ≠ o.path) (x : Slot String) : actOp S q x o = if o.op = .set then some [] else x := by
  obtain ⟨kind, p, value⟩ := o
  have hbelow := fun v => act_above S.multi habove hne v x
  have hroot : p ≠ [] := by
    rintro rfl
    exact hne (List.prefix_nil.mp habove)
  cases kind with
  | comment => rfl
  | set =>
    cases hsent : ConfigOp.sent ⟨.set, p, value⟩ with
    | none => simpa only [actOp, ConfigOp.toEdit, hsent, ↓reduceIte] using (hbelow "").2.1
    | some v => simpa only [actOp, ConfigOp.toEdit, hsent, ↓reduceIte] using (hbelow v).1
  | delete =>
    cases hsent : ConfigOp.sent ⟨.delete, p, value⟩ with
    | none =>
      simpa only [actOp, ConfigOp.toEdit, hsent, if_neg hroot, reduceCtorEq, ↓reduceIte]
        using (hbelow "").2.2.1
    | some v =>
      simpa only [actOp, ConfigOp.toEdit, hsent, if_neg hroot, reduceCtorEq, ↓reduceIte]
        using (hbelow v).2.2.2

/-- A node stays as long as only paths below it are named. -/
theorem isSome_run_edits_above (S : Schema) {ops : List ConfigOp} {q : Path}
    (h : ∀ o ∈ ops, q <+: o.path ∧ q ≠ o.path) {s : Store String String} (hs : (s q).isSome) :
    (run S.multi s (edits ops) q).isSome := by
  rw [run_edits_apply]
  revert hs
  generalize s q = x
  intro hx
  induction ops generalizing x with
  | nil => exact hx
  | cons o ops ih =>
    refine ih (fun o' ho' => h o' (List.mem_cons_of_mem _ ho')) _ ?_
    obtain ⟨habove, hne⟩ := h o List.mem_cons_self
    rw [actOp_above S habove hne]
    split_ifs
    · rfl
    · exact hx

/-- What is set below a node brings the node about. -/
theorem isSome_run_of_set_below (S : Schema) {ops : List ConfigOp} {q : Path}
    (h : ∀ o ∈ ops, q <+: o.path ∧ q ≠ o.path) (hset : ∃ o ∈ ops, o.op = .set)
    (s : Store String String) : (run S.multi s (edits ops) q).isSome := by
  obtain ⟨o, ho, hkind⟩ := hset
  obtain ⟨pre, post, rfl⟩ := List.append_of_mem ho
  have hpost : ∀ o' ∈ post, q <+: o'.path ∧ q ≠ o'.path :=
    fun o' ho' => h o' (List.mem_append_right _ (List.mem_cons_of_mem _ ho'))
  rw [List.append_cons, edits_append, run_append]
  refine isSome_run_edits_above S hpost ?_
  obtain ⟨habove, hne⟩ := h o ho
  rw [run_edits_apply, List.foldl_append, List.foldl_cons, List.foldl_nil,
    actOp_above S habove hne, if_pos hkind]
  rfl

theorem actOp_set_value (S : Schema) (p : Path) (x : Slot String) {v : String} (hv : v ≠ "") :
    actOp S p x ⟨.set, p, some v⟩ = some (if S.multi p then addValue (x.getD []) v else [v]) := by
  have hsent : ConfigOp.sent ⟨.set, p, some v⟩ = some v := by simp [ConfigOp.sent, hv]
  simp [actOp, ConfigOp.toEdit, hsent, act]

theorem actOp_set_flag (S : Schema) (p : Path) (x : Slot String) :
    actOp S p x ⟨.set, p, none⟩ = some (x.getD []) := by
  simp [actOp, ConfigOp.toEdit, ConfigOp.sent, act]

theorem actOp_delete (S : Schema) {p : Path} (hp : p ≠ []) (q : Path) (x : Slot String) :
    actOp S q x ⟨.delete, p, none⟩ = if p <+: q then none else x := by
  simp [actOp, ConfigOp.toEdit, ConfigOp.sent, act, hp]

/-- No operation leaves an empty value where there was none. -/
theorem blank_notMem_foldl_actOp (S : Schema) (q : Path) (ops : List ConfigOp) {x : Slot String}
    (hx : "" ∉ x.getD []) : "" ∉ (ops.foldl (actOp S q) x).getD [] := by
  induction ops generalizing x with
  | nil => exact hx
  | cons o ops ih =>
    refine ih fun hmem => ?_
    unfold actOp at hmem
    cases he : o.toEdit with
    | none =>
      rw [he] at hmem
      exact hx hmem
    | some e =>
      rw [he] at hmem
      rcases mem_act S.multi hmem with hold | rfl
      · exact hx hold
      · exact ConfigOp.ne_blank_of_sent (ConfigOp.sent_of_toEdit_put he) rfl

/-- Operations that leave a slot alone one by one leave it alone together. -/
theorem foldl_actOp_of_forall (S : Schema) {q : Path} {ops : List ConfigOp} {x : Slot String}
    (h : ∀ o ∈ ops, actOp S q x o = x) : ops.foldl (actOp S q) x = x := by
  induction ops with
  | nil => rfl
  | cons o ops ih =>
    rw [List.foldl_cons, h o List.mem_cons_self]
    exact ih fun o' ho' => h o' (List.mem_cons_of_mem _ ho')

section Lookup

variable {es : List (String × ConfigTree)} {k l : String} {c : ConfigTree}

theorem lookup_upsert_self : (upsert k c es).lookup k = some c := by
  induction es with
  | nil => simp [upsert]
  | cons e es ih =>
    unfold upsert
    split_ifs with hk
    · simp
    · rw [List.lookup_cons, beq_false_of_ne (Ne.symm hk)]
      exact ih

theorem lookup_upsert_of_ne (h : l ≠ k) : (upsert k c es).lookup l = es.lookup l := by
  induction es with
  | nil =>
    rw [upsert, List.lookup_cons, beq_false_of_ne h]
  | cons e es ih =>
    unfold upsert
    split_ifs with hk
    · subst hk
      rw [List.lookup_cons, List.lookup_cons, beq_false_of_ne h]
    · rw [List.lookup_cons, List.lookup_cons, ih]

theorem lookup_filter_self : (es.filter fun e => e.1 ≠ k).lookup k = none := by
  rw [lookup_eq_none_iff]
  simp

theorem lookup_filter_of_ne (h : l ≠ k) :
    (es.filter fun e => e.1 ≠ k).lookup l = es.lookup l := by
  induction es with
  | nil => rfl
  | cons e es ih =>
    by_cases hk : e.1 = k
    · have hle : l ≠ e.1 := fun hl => h (hl.trans hk)
      rw [List.filter_cons_of_neg (by simpa using hk), List.lookup_cons, beq_false_of_ne hle]
      exact ih
    · rw [List.filter_cons_of_pos (by simpa using hk), List.lookup_cons, List.lookup_cons, ih]

theorem mem_keys_upsert {x : String} :
    x ∈ (upsert k c es).map Prod.fst ↔ x = k ∨ x ∈ es.map Prod.fst := by
  induction es with
  | nil => simp [upsert]
  | cons e es ih =>
    unfold upsert
    split_ifs with hk
    · simp [← hk]
    · simp only [List.map_cons, List.mem_cons, ih]
      tauto

theorem nodup_keys_upsert (h : (es.map Prod.fst).Nodup) :
    ((upsert k c es).map Prod.fst).Nodup := by
  induction es with
  | nil => simp [upsert]
  | cons e es ih =>
    rw [List.map_cons, List.nodup_cons] at h
    unfold upsert
    split_ifs with hk
    · rw [List.map_cons, List.nodup_cons]
      exact ⟨hk ▸ h.1, h.2⟩
    · rw [List.map_cons, List.nodup_cons, mem_keys_upsert]
      exact ⟨fun hmem => hmem.elim hk h.1, ih h.2⟩

end Lookup

/-! The tree operations are edits of the store. -/

theorem values_ofValues (vs : List String) : (ofValues vs).values = vs := by
  unfold ofValues
  split <;> rfl

theorem store_ofValues (vs : List String) (p : Path) :
    (ofValues vs).store p = if p = [] then some vs else none := by
  cases p with
  | nil => simp [values_ofValues]
  | cons k p =>
    unfold ofValues
    split <;> rfl

theorem store_eq_entries (t : ConfigTree) (k : String) (p : Path) :
    t.store (k :: p) = ((entries t).lookup k).bind fun c => c.store p := by
  rw [store_cons]
  cases t <;> rfl

theorem act_put_none_eq (multi : Path → Bool) (p : Path) (v : String) :
    act multi (.put p v) [] none = act multi (.put p v) [] (some []) := by
  cases p <;> rfl

theorem act_create_none_eq (multi : Path → Bool) (p : Path) :
    act (V := String) multi (.create p) [] none = act multi (.create p) [] (some []) := by
  cases p <;> rfl

/-- An absent child and a fresh empty node take the same edit. -/
private theorem act_fresh {multi : Path → Bool} {e : Edit String String}
    (he : act multi e [] none = act multi e [] (some [])) (c : Unknown) (q : Path) :
    act multi e q ((c.getD (.node [])).store q) = act multi e q (c.bind fun c => c.store q) := by
  cases c with
  | some c => rfl
  | none =>
    cases q with
    | nil => exact he.symm
    | cons l q => rfl

theorem store_setNested (multi : Path → Bool) (value : Option String) (t : ConfigTree)
    (p : Path) :
    (setNested multi value t p).store =
      apply multi t.store (match value with | some v => .put p v | none => .create p) := by
  induction p generalizing t multi with
  | nil =>
    funext q
    cases value with
    | none => cases q <;> simp [setNested, apply, act]
    | some v =>
      have hput : setNested multi (some v) t [] =
          ofValues (if multi [] then addValue t.values v else [v]) := by
        unfold setNested
        split_ifs <;> rfl
      rw [hput, store_ofValues]
      cases q <;> simp [apply, act]
  | cons k p ih =>
    funext q
    cases q with
    | nil => cases value <;> simp [setNested, values, apply, act]
    | cons l q =>
      rw [setNested, store_eq_entries]
      by_cases hl : l = k
      · subst hl
        simp only [entries, lookup_upsert_self, Option.bind_some, ih, apply, store_eq_entries t]
        cases value with
        | some v =>
          rw [act_fresh (act_put_none_eq _ p v)]
          exact (act_shift multi [l] (.put p v) q _).symm
        | none =>
          rw [act_fresh (act_create_none_eq _ p)]
          exact (act_shift multi [l] (.create p) q _).symm
      · simp only [entries, lookup_upsert_of_ne hl, apply, store_eq_entries t]
        have hap : Apart (k :: p) (l :: q) := apart_of_ne (Ne.symm hl) [] p q
        cases value with
        | some v => exact (act_of_apart multi (e := .put (k :: p) v) hap _).symm
        | none => exact (act_of_apart multi (e := .create (k :: p)) hap _).symm

theorem map_takeOut (v : String) (c : ConfigTree) (q : Path) :
    ((takeOut (some v) c).bind fun c => c.store q) =
      if q = [] then dropValue v (c.store q) else c.store q := by
  have hleaf : ∀ c : ConfigTree, (∀ k p, c.store (k :: p) = none) →
      takeOut (some v) c = (if v ∈ c.values ∧ c.values.filter (· ≠ v) = [] then none
        else some (ofValues (c.values.filter (· ≠ v)))) →
      ((takeOut (some v) c).bind fun c => c.store q) =
        if q = [] then dropValue v (c.store q) else c.store q := by
    intro c hbelow hout
    rw [hout]
    by_cases h : v ∈ c.values ∧ c.values.filter (· ≠ v) = []
    · cases q with
      | nil => simp only [if_pos h, Option.bind_none, ↓reduceIte, store_nil, dropValue]
      | cons k q => simp only [if_pos h, Option.bind_none, hbelow]; simp
    · cases q with
      | nil =>
        simp only [if_neg h, Option.bind_some, ↓reduceIte, store_nil, dropValue, values_ofValues]
      | cons k q =>
        simp only [if_neg h, Option.bind_some, hbelow, store_ofValues]
        simp
  cases c with
  | node es => cases q <;> simp [takeOut, dropValue, values]
  | leaf w => exact hleaf (.leaf w) (fun _ _ => rfl) rfl
  | multi ws => exact hleaf (.multi ws) (fun _ _ => rfl) rfl

/-- The entry a deletion names, before and after. -/
private theorem store_delete_last (value : Option String) (es : List (String × ConfigTree))
    (k l : String) (q : Path) :
    (deleteNested value (.node es) [k]).store (l :: q) =
      if l = k then ((es.lookup k).bind (takeOut value)).bind fun c => c.store q
      else (es.lookup l).bind fun c => c.store q := by
  unfold deleteNested
  cases h : (es.lookup k).bind (takeOut value) with
  | none =>
    simp only [store_eq_entries, entries]
    split_ifs with hl
    · rw [hl, lookup_filter_self]
    · rw [lookup_filter_of_ne hl]
  | some c =>
    simp only [store_eq_entries, entries]
    split_ifs with hl
    · rw [hl, lookup_upsert_self]
    · rw [lookup_upsert_of_ne hl]

/-- A deletion at an entry itself. -/
private theorem store_deleteNested_entry (multi : Path → Bool) (value : Option String)
    (es : List (String × ConfigTree)) (k : String) :
    (deleteNested value (.node es) [k]).store =
      apply multi (ConfigTree.node es).store
        (value.elim (.erase [k]) (.drop [k])) := by
  funext q
  cases q with
  | nil =>
    unfold deleteNested
    cases (es.lookup k).bind (takeOut value) <;>
      cases value <;> simp [apply, act, values]
  | cons l q =>
    rw [store_delete_last, apply, store_eq_entries]
    by_cases hl : l = k
    · subst hl
      cases value with
      | none => cases es.lookup l <;> simp [act, takeOut]
      | some v =>
        cases h : es.lookup l with
        | none => cases q <;> simp [act, entries, h, dropValue]
        | some c =>
          simp only [entries, h, Option.bind_some, ↓reduceIte, map_takeOut, Option.elim_some, act,
            List.cons.injEq, true_and]
    · rw [if_neg hl]
      cases value <;> simp [act, entries, hl, Ne.symm hl]

/-- A deletion inside an entry acts on that entry alone. -/
private theorem store_deleteNested_inside (multi : Path → Bool) (value : Option String)
    (es : List (String × ConfigTree)) (k k' : String) (p : Path)
    (ih : ∀ c, (deleteNested value c (k' :: p)).store =
      apply (fun q => multi (k :: q)) c.store
        (value.elim (.erase (k' :: p)) (.drop (k' :: p)))) :
    (deleteNested value (.node es) (k :: k' :: p)).store =
      apply multi (ConfigTree.node es).store
        (value.elim (.erase (k :: k' :: p)) (.drop (k :: k' :: p))) := by
  funext q
  cases q with
  | nil =>
    unfold deleteNested
    cases es.lookup k <;> cases value <;> simp [apply, act, values]
  | cons l q =>
    by_cases hl : l = k
    · subst hl
      unfold deleteNested
      simp only [apply, store_eq_entries (.node es)]
      cases h : es.lookup l with
      | none =>
        cases value <;> simp [store_eq_entries, entries, h, act, dropValue]
      | some c =>
        have hstep := congrFun (ih c) q
        simp only [store_eq_entries, entries, lookup_upsert_self, Option.bind_some, h,
          hstep]
        cases value with
        | some v => exact (act_shift multi [l] (.drop (k' :: p) v) q _).symm
        | none => exact (act_shift multi [l] (.erase (k' :: p)) q _).symm
    · have hap : Apart (k :: k' :: p) (l :: q) := apart_of_ne (Ne.symm hl) [] _ q
      have hleft : (deleteNested value (.node es) (k :: k' :: p)).store (l :: q) =
          (ConfigTree.node es).store (l :: q) := by
        unfold deleteNested
        cases es.lookup k with
        | none => rfl
        | some c => simp only [store_eq_entries, entries, lookup_upsert_of_ne hl]
      rw [hleft]
      cases value with
      | some v => exact (act_of_apart multi (e := .drop (k :: k' :: p) v) hap _).symm
      | none => exact (act_of_apart multi (e := .erase (k :: k' :: p)) hap _).symm

theorem store_deleteNested (multi : Path → Bool) (value : Option String) (t : ConfigTree)
    {p : Path} (hp : p ≠ []) :
    (deleteNested value t p).store =
      apply multi t.store (value.elim (.erase p) (.drop p)) := by
  induction p generalizing t multi with
  | nil => exact absurd rfl hp
  | cons k p ih =>
    cases t with
    | leaf w =>
      funext q
      cases q <;> cases value <;> simp [deleteNested, apply, act, store, dropValue]
    | multi ws =>
      funext q
      cases q <;> cases value <;> simp [deleteNested, apply, act, store, dropValue]
    | node es =>
      cases p with
      | nil => exact store_deleteNested_entry multi value es k
      | cons k' p =>
        exact store_deleteNested_inside multi value es k k' p fun c =>
          ih (fun q => multi (k :: q)) c (List.cons_ne_nil k' p)

/-- Applying an operation to the tree is applying its edit to the store. -/
theorem store_applyOp (S : Schema) (t : ConfigTree) (o : ConfigOp) :
    (applyOp S t o).store = run S.multi t.store (edits [o]) := by
  unfold applyOp
  obtain ⟨kind, p, value⟩ := o
  cases kind with
  | comment => rfl
  | set =>
    rw [store_setNested]
    cases h : ConfigOp.sent ⟨.set, p, value⟩ <;> simp [edits, ConfigOp.toEdit, h]
  | delete =>
    by_cases hp : p = []
    · subst hp
      have hroot : deleteNested (ConfigOp.sent ⟨.delete, [], value⟩) t [] = t := by
        cases t <;> rfl
      rw [hroot]
      cases h : ConfigOp.sent ⟨.delete, [], value⟩ <;> simp [edits, ConfigOp.toEdit, h]
    · rw [store_deleteNested S.multi _ _ hp]
      cases h : ConfigOp.sent ⟨.delete, p, value⟩ <;> simp [edits, ConfigOp.toEdit, h, hp]

theorem store_applyOps (S : Schema) (t : ConfigTree) (ops : List ConfigOp) :
    (applyOps S t ops).store = run S.multi t.store (edits ops) := by
  induction ops generalizing t with
  | nil => rfl
  | cons o ops ih =>
    rw [applyOps, List.foldl_cons, ← applyOps, ih, store_applyOp, ← run_append, ← edits_append]
    rfl

/-! The trees VyOS returns stay well formed. -/

theorem WellFormed.entries {t : ConfigTree} (h : t.WellFormed) :
    (ConfigTree.node (entries t)).WellFormed := by
  cases t with
  | node es => exact h
  | leaf v => exact wellFormed_node_iff.mpr ⟨by simp [Configure.entries], by simp [Configure.entries]⟩
  | multi vs =>
    exact wellFormed_node_iff.mpr ⟨by simp [Configure.entries], by simp [Configure.entries]⟩

theorem wellFormed_ofValues {vs : List String} (hnodup : vs.Nodup) (hne : vs ≠ []) :
    (ofValues vs).WellFormed := by
  unfold ofValues
  split
  · exact wellFormed_leaf _
  · exact wellFormed_multi hnodup hne

theorem addValue_nodup {vs : List String} (h : vs.Nodup) (v : String) :
    (addValue vs v).Nodup ∧ addValue vs v ≠ [] := by
  unfold addValue
  split_ifs with hv
  · exact ⟨h, List.ne_nil_of_mem hv⟩
  · refine ⟨List.nodup_append.mpr ⟨h, List.nodup_singleton v, ?_⟩, by simp⟩
    intro a ha b hb
    rw [List.mem_singleton.mp hb]
    exact fun heq => hv (heq ▸ ha)

theorem WellFormed.upsert {es : List (String × ConfigTree)} {k : String} {c : ConfigTree}
    (h : (ConfigTree.node es).WellFormed) (hc : c.WellFormed) :
    (ConfigTree.node (upsert k c es)).WellFormed := by
  obtain ⟨hkeys, hchildren⟩ := wellFormed_node_iff.mp h
  refine wellFormed_node_iff.mpr ⟨nodup_keys_upsert hkeys, fun l d hd => ?_⟩
  by_cases hl : l = k
  · subst hl
    rw [lookup_upsert_self, Option.some.injEq] at hd
    exact hd ▸ hc
  · rw [lookup_upsert_of_ne hl] at hd
    exact hchildren l d hd

theorem WellFormed.setNested {t : ConfigTree} (h : t.WellFormed) (multi : Path → Bool)
    (value : Option String) (p : Path) : (setNested multi value t p).WellFormed := by
  induction p generalizing t multi with
  | nil =>
    cases value with
    | none => exact h
    | some v =>
      obtain ⟨hnodup, hne⟩ := addValue_nodup h.values_nodup' v
      unfold Configure.setNested
      split_ifs
      · exact wellFormed_ofValues hnodup hne
      · exact wellFormed_leaf v
  | cons k p ih =>
    refine WellFormed.upsert (WellFormed.entries h) (ih ?_ _)
    cases hk : (Configure.entries t).lookup k with
    | none => exact wellFormed_node_iff.mpr ⟨by simp, by simp⟩
    | some c => exact (wellFormed_node_iff.mp (WellFormed.entries h)).2 k c hk

theorem WellFormed.takeOut {c d : ConfigTree} (h : c.WellFormed) {value : Option String}
    (hd : takeOut value c = some d) : d.WellFormed := by
  cases value with
  | none => simp [Configure.takeOut] at hd
  | some v =>
    have hleaf : ∀ vs : List String, vs.Nodup → vs ≠ [] →
        (if v ∈ vs ∧ vs.filter (· ≠ v) = [] then none
          else some (ofValues (vs.filter (· ≠ v)))) = some d → d.WellFormed := by
      intro vs hnodup hne hif
      split_ifs at hif with hlast
      rw [Option.some.injEq] at hif
      refine hif ▸ wellFormed_ofValues (hnodup.filter _) fun hnil => ?_
      by_cases hv : v ∈ vs
      · exact hlast ⟨hv, hnil⟩
      · refine hne (List.eq_nil_iff_forall_not_mem.mpr fun w hw => ?_)
        have hwv : w = v := by simpa using List.filter_eq_nil_iff.mp hnil w hw
        exact hv (hwv ▸ hw)
    cases c with
    | node es =>
      rw [Configure.takeOut, Option.some.injEq] at hd
      exact hd ▸ h
    | leaf w => exact hleaf [w] (by simp) (by simp) hd
    | multi ws => exact hleaf ws (h.values_nodup [] ws rfl) (h.values_ne_nil [] ws rfl) hd

theorem WellFormed.deleteNested {t : ConfigTree} (h : t.WellFormed) (value : Option String)
    (p : Path) : (deleteNested value t p).WellFormed := by
  induction p generalizing t with
  | nil => cases t <;> exact h
  | cons k p ih =>
    cases t with
    | leaf v => exact h
    | multi vs => exact h
    | node es =>
      obtain ⟨hkeys, hchildren⟩ := wellFormed_node_iff.mp h
      cases p with
      | nil =>
        cases hk : (es.lookup k).bind (Configure.takeOut value) with
        | none =>
          simp only [Configure.deleteNested, hk]
          refine wellFormed_node_iff.mpr ⟨?_, fun l c hc => ?_⟩
          · exact hkeys.sublist (List.filter_sublist.map _)
          · have hmem := (List.mem_filter.mp (mem_of_lookup_eq_some hc)).1
            exact hchildren l c (lookup_eq_some_of_mem hkeys hmem)
        | some c =>
          obtain ⟨d, hd, hout⟩ := Option.bind_eq_some_iff.mp hk
          simp only [Configure.deleteNested, hk]
          exact WellFormed.upsert h (WellFormed.takeOut (hchildren k d hd) hout)
      | cons k' p =>
        cases hk : es.lookup k with
        | none => simpa only [Configure.deleteNested, hk] using h
        | some c =>
          simp only [Configure.deleteNested, hk]
          exact WellFormed.upsert h (ih (hchildren k c hk))

theorem WellFormed.applyOps {t : ConfigTree} (h : t.WellFormed) (S : Schema)
    (ops : List ConfigOp) : (applyOps S t ops).WellFormed := by
  induction ops generalizing t with
  | nil => exact h
  | cons o ops ih =>
    refine ih ?_
    unfold applyOp
    cases o.op with
    | set => exact WellFormed.setNested h _ _ _
    | delete => exact WellFormed.deleteNested h _ _
    | comment => exact h

end VyosClient.Configure
