import VyosClient.Configure

/-!
The order in which a node holds its entries. A store knows which paths there are but
not their order, and a parser that takes the first entry of a node depends on it.
An operation leaves the subtrees apart from its path exactly as they were, and a `set`
below a node keeps its entries in place, a new one coming last.
-/

namespace VyosClient.TreeKeys

open PathStore ConfigTrees ConfigTree Configure

/-- The names of the entries at a path. -/
def keysAt (t : ConfigTree) (p : Path) : List String :=
  (((t.get p).map entries).getD []).map Prod.fst

@[simp] theorem entries_node (es : List (String × ConfigTree)) : entries (.node es) = es := rfl

theorem keysAt_cons (t : ConfigTree) (k : String) (p : Path) :
    keysAt t (k :: p) = keysAt (((entries t).lookup k).getD (.node [])) p := by
  have hget : t.get (k :: p) = ((entries t).lookup k).bind fun c => c.get p := by
    cases t <;> rfl
  unfold keysAt
  rw [hget]
  cases (entries t).lookup k with
  | some c => rfl
  | none => cases p <;> rfl

theorem keys_upsert (k : String) (c : ConfigTree) (es : List (String × ConfigTree)) :
    (upsert k c es).map Prod.fst =
      if k ∈ es.map Prod.fst then es.map Prod.fst else es.map Prod.fst ++ [k] := by
  induction es with
  | nil => rfl
  | cons e es ih =>
    unfold upsert
    split_ifs with hk hmem hmem
    · simp [hk]
    · simp [hk] at hmem
    · have htail : k ∈ es.map Prod.fst := by simpa [Ne.symm hk] using hmem
      simp [ih, htail]
    · have htail : k ∉ es.map Prod.fst := fun h => hmem (List.mem_cons_of_mem _ h)
      simp [ih, htail]

section Apart

theorem get_cons_eq (t : ConfigTree) (k : String) (p : Path) :
    t.get (k :: p) = ((entries t).lookup k).bind fun c => c.get p := by
  cases t <;> rfl

/-- What is not on the way to the path of a `set` is what it was. -/
theorem get_setNested_of_apart (multi : Path → Bool) (value : Option String) {t : ConfigTree}
    {p q : Path} (h : Apart p q) : (setNested multi value t p).get q = t.get q := by
  induction p generalizing t multi q with
  | nil => exact absurd List.nil_prefix h.1
  | cons k p ih =>
    cases q with
    | nil => exact absurd List.nil_prefix h.2
    | cons l q =>
      rw [setNested, get_cons_eq, get_cons_eq t]
      by_cases hl : l = k
      · subst hl
        have hapart : Apart p q := (apart_append_left [l]).mp h
        simp only [entries_node, lookup_upsert_self, Option.bind_some]
        rw [ih _ hapart]
        cases hc : (entries t).lookup l with
        | some c => rfl
        | none =>
          cases q with
          | nil => exact absurd List.nil_prefix hapart.2
          | cons l' q => rfl
      · simp only [entries_node, lookup_upsert_of_ne hl]

theorem get_deleteNested_of_apart (value : Option String) {t : ConfigTree} {p q : Path}
    (h : Apart p q) : (deleteNested value t p).get q = t.get q := by
  induction p generalizing t q with
  | nil => exact absurd List.nil_prefix h.1
  | cons k p ih =>
    cases t with
    | leaf v => rfl
    | multi vs => rfl
    | node es =>
      cases q with
      | nil => exact absurd List.nil_prefix h.2
      | cons l q =>
        cases p with
        | nil =>
          have hl : l ≠ k := by
            rintro rfl
            exact h.1 (List.cons_prefix_cons.mpr ⟨rfl, List.nil_prefix⟩)
          unfold deleteNested
          cases (es.lookup k).bind (takeOut value) with
          | none => simp only [get_node_cons, lookup_filter_of_ne hl]
          | some c => simp only [get_node_cons, lookup_upsert_of_ne hl]
        | cons k' p =>
          unfold deleteNested
          cases hk : es.lookup k with
          | none => rfl
          | some c =>
            by_cases hl : l = k
            · subst hl
              have hapart : Apart (k' :: p) q := (apart_append_left [l]).mp h
              simp only [get_node_cons, lookup_upsert_self, Option.bind_some, hk, ih hapart]
            · simp only [get_node_cons, lookup_upsert_of_ne hl]

theorem get_applyOp_of_apart (S : Schema) {t : ConfigTree} {o : ConfigOp} {q : Path}
    (h : Apart o.path q) : (applyOp S t o).get q = t.get q := by
  unfold applyOp
  cases o.op with
  | set => exact get_setNested_of_apart S.multi o.sent h
  | delete => exact get_deleteNested_of_apart o.sent h
  | comment => rfl

theorem get_applyOps_of_apart (S : Schema) {t : ConfigTree} {ops : List ConfigOp} {q : Path}
    (h : ∀ o ∈ ops, Apart o.path q) : (applyOps S t ops).get q = t.get q := by
  induction ops generalizing t with
  | nil => rfl
  | cons o ops ih =>
    have hrest := ih (t := applyOp S t o) fun o' ho' => h o' (List.mem_cons_of_mem _ ho')
    exact hrest.trans (get_applyOp_of_apart S (h o List.mem_cons_self))

end Apart

section Below

/-- A `set` below a node keeps its entries in place. -/
theorem keysAt_setNested (multi : Path → Bool) (value : Option String) (t : ConfigTree)
    (p : Path) (k : String) (r : Path) :
    keysAt (setNested multi value t (p ++ k :: r)) p =
      if k ∈ keysAt t p then keysAt t p else keysAt t p ++ [k] := by
  induction p generalizing t multi with
  | nil =>
    have hkeys : ∀ u : ConfigTree, keysAt u [] = (entries u).map Prod.fst := by
      intro u
      unfold keysAt
      rw [get_nil]
      rfl
    rw [hkeys, hkeys]
    exact keys_upsert k _ (entries t)
  | cons l p ih =>
    rw [List.cons_append, setNested, keysAt_cons, keysAt_cons t]
    simp only [entries_node, lookup_upsert_self, Option.getD_some]
    exact ih _ _

theorem keysAt_applyOp_set (S : Schema) (t : ConfigTree) (p : Path) (k : String) (r : Path)
    (value : Option String) :
    keysAt (applyOp S t ⟨.set, p ++ k :: r, value⟩) p =
      if k ∈ keysAt t p then keysAt t p else keysAt t p ++ [k] :=
  keysAt_setNested S.multi _ t p k r

/-- Below an entry that is there everything may be set. -/
theorem keysAt_applyOps_set (S : Schema) {t : ConfigTree} {p : Path} {k : String}
    (ops : List ConfigOp) (hops : ∀ o ∈ ops, o.op = .set ∧ p ++ [k] <+: o.path)
    (hk : k ∈ keysAt t p) : keysAt (applyOps S t ops) p = keysAt t p := by
  induction ops generalizing t with
  | nil => rfl
  | cons o ops ih =>
    obtain ⟨hset, r, hr⟩ := hops o List.mem_cons_self
    have hpath : o.path = p ++ k :: r := by rw [← hr, ← List.append_cons]
    have hstep : keysAt (applyOp S t o) p = keysAt t p := by
      obtain ⟨op, path, value⟩ := o
      simp only at hset hpath
      subst hset hpath
      rw [keysAt_applyOp_set, if_pos hk]
    have hrest := ih (t := applyOp S t o) (fun o' ho' => hops o' (List.mem_cons_of_mem _ ho'))
      (hstep ▸ hk)
    exact hrest.trans hstep

/-- Where nothing is, nothing has entries. -/
theorem keysAt_of_store_none {t : ConfigTree} {p : Path} (h : t.store p = none) :
    keysAt t p = [] := by
  unfold keysAt
  rw [Option.map_eq_none_iff.mp h]
  rfl

end Below

end VyosClient.TreeKeys
