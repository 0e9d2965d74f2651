import VyosClient.FirewallRuleForm

/-!
Replaying a subtree. One `set` per leaf rebuilds, on a path where nothing is
left, exactly the subtree the operations were read from, provided no value is
empty and VyOS accumulates values wherever the subtree lists several.
-/

namespace VyosClient.SubtreeReplay

open PathStore ConfigTrees Configure FirewallRuleForm

/-- What replaying `c` at `path` depends on. -/
structure Replayable (S : Schema) (path : Path) (c : ConfigTree) : Prop where
  wellFormed : c.WellFormed
  no_blank : ∀ p d, c.get p = some d → "" ∉ d.values
  multi : ∀ p vs, c.get p = some (.multi vs) → 2 ≤ vs.length → S.multi (path ++ p) = true

theorem Replayable.child {S : Schema} {path : Path} {es : List (String × ConfigTree)}
    (h : Replayable S path (.node es)) {e : String × ConfigTree} (he : e ∈ es) :
    Replayable S (path ++ [e.1]) e.2 := by
  have hkeys := (ConfigTree.wellFormed_node_iff.mp h.wellFormed).1
  have hlookup : es.lookup e.1 = some e.2 := lookup_eq_some_of_mem hkeys he
  have hget : ∀ p, (ConfigTree.node es).get (e.1 :: p) = e.2.get p := by
    intro p
    rw [ConfigTree.get_node_cons, hlookup, Option.bind_some]
  refine ⟨(ConfigTree.wellFormed_node_iff.mp h.wellFormed).2 e.1 e.2 hlookup, ?_, ?_⟩
  · intro p d hd
    exact h.no_blank (e.1 :: p) d ((hget p).trans hd)
  · intro p vs hvs hlen
    simpa using h.multi (e.1 :: p) vs ((hget p).trans hvs) hlen

mutual
theorem mem_subtreeToSetOps : (c : ConfigTree) → (path : Path) → (o : ConfigOp) →
    o ∈ subtreeToSetOps path c → o.op = .set ∧ path <+: o.path
  | .leaf v, path, o, ho => by
    rw [subtreeToSetOps, List.mem_singleton] at ho
    subst ho
    exact ⟨rfl, List.prefix_refl _⟩
  | .multi vs, path, o, ho => by
    rw [subtreeToSetOps, List.mem_map] at ho
    obtain ⟨v, _, rfl⟩ := ho
    exact ⟨rfl, List.prefix_refl _⟩
  | .node [], path, o, ho => by
    rw [subtreeToSetOps, List.mem_singleton] at ho
    subst ho
    exact ⟨rfl, List.prefix_refl _⟩
  | .node (e :: es), path, o, ho => by
    rw [subtreeToSetOps] at ho
    obtain ⟨hset, e', _, hpath⟩ := mem_entriesToSetOps (e :: es) path o ho
    exact ⟨hset, (List.prefix_append _ _).trans hpath⟩

theorem mem_entriesToSetOps : (es : List (String × ConfigTree)) → (path : Path) →
    (o : ConfigOp) → o ∈ subtreeToSetOps.entriesToSetOps path es →
    o.op = .set ∧ ∃ e ∈ es, path ++ [e.1] <+: o.path
  | [], path, o, ho => by
    rw [subtreeToSetOps.entriesToSetOps] at ho
    exact absurd ho List.not_mem_nil
  | (k, c) :: es, path, o, ho => by
    rw [subtreeToSetOps.entriesToSetOps, List.mem_append] at ho
    rcases ho with ho | ho
    · obtain ⟨hset, hpath⟩ := mem_subtreeToSetOps c (path ++ [k]) o ho
      exact ⟨hset, (k, c), List.mem_cons_self, hpath⟩
    · obtain ⟨hset, e, he, hpath⟩ := mem_entriesToSetOps es path o ho
      exact ⟨hset, e, List.mem_cons_of_mem _ he, hpath⟩
end

mutual
/-- A replay below a longer path is the replay with its paths prolonged. -/
theorem subtreeToSetOps_append (pre : Path) : (c : ConfigTree) → (path : Path) →
    subtreeToSetOps (pre ++ path) c =
      (subtreeToSetOps path c).map fun o => { o with path := pre ++ o.path }
  | .leaf v, path => by simp [subtreeToSetOps]
  | .multi vs, path => by simp [subtreeToSetOps, Function.comp_def]
  | .node [], path => by simp [subtreeToSetOps]
  | .node (e :: es), path => by
    rw [subtreeToSetOps, subtreeToSetOps]
    exact entriesToSetOps_append pre (e :: es) path

theorem entriesToSetOps_append (pre : Path) : (es : List (String × ConfigTree)) → (path : Path) →
    subtreeToSetOps.entriesToSetOps (pre ++ path) es =
      (subtreeToSetOps.entriesToSetOps path es).map fun o => { o with path := pre ++ o.path }
  | [], path => rfl
  | (k, c) :: es, path => by
    rw [subtreeToSetOps.entriesToSetOps, subtreeToSetOps.entriesToSetOps, List.map_append,
      entriesToSetOps_append pre es path, List.append_assoc,
      subtreeToSetOps_append pre c (path ++ [k])]
end

theorem mem_entriesToSetOps_of_lookup {es : List (String × ConfigTree)} {path : Path} {k : String}
    {c : ConfigTree} (hk : es.lookup k = some c) {o : ConfigOp}
    (ho : o ∈ subtreeToSetOps (path ++ [k]) c) : o ∈ subtreeToSetOps.entriesToSetOps path es := by
  induction es with
  | nil => cases hk
  | cons e es ih =>
    obtain ⟨l, d⟩ := e
    rw [subtreeToSetOps.entriesToSetOps, List.mem_append]
    rw [List.lookup_cons] at hk
    by_cases hkl : k = l
    · subst hkl
      rw [beq_self_eq_true] at hk
      exact Or.inl (Option.some.inj hk ▸ ho)
    · rw [beq_false_of_ne hkl] at hk
      exact Or.inr (ih hk)

/-- Every value of the subtree is replayed. -/
theorem set_mem_subtreeToSetOps {c d : ConfigTree} {path q : Path} {v : String}
    (hd : c.get q = some d) (hv : v ∈ d.values) :
    (⟨.set, path ++ q, some v⟩ : ConfigOp) ∈ subtreeToSetOps path c := by
  induction q generalizing c path with
  | nil =>
    rw [ConfigTree.get_nil, Option.some.injEq] at hd
    subst hd
    rw [List.append_nil]
    cases c with
    | leaf w =>
      rw [subtreeToSetOps, List.mem_singleton, List.mem_singleton.mp hv]
    | multi ws =>
      rw [subtreeToSetOps]
      exact List.mem_map_of_mem hv
    | node es => simp [ConfigTree.values] at hv
  | cons k q ih =>
    cases c with
    | leaf w => cases hd
    | multi ws => cases hd
    | node es =>
      obtain ⟨c', hk, hc'⟩ := Option.bind_eq_some_iff.mp hd
      have hmem : (⟨.set, path ++ [k] ++ q, some v⟩ : ConfigOp) ∈
          subtreeToSetOps (path ++ [k]) c' := ih hc'
      rw [List.append_assoc, List.singleton_append] at hmem
      cases es with
      | nil => cases hk
      | cons e es =>
        rw [subtreeToSetOps]
        exact mem_entriesToSetOps_of_lookup hk hmem

mutual
/-- Nothing but values of the subtree is replayed. -/
theorem value_of_mem_subtreeToSetOps : (c : ConfigTree) → (path : Path) → c.WellFormed →
    (o : ConfigOp) → o ∈ subtreeToSetOps path c → (v : String) → o.value = some v →
    ∃ q d, c.get q = some d ∧ v ∈ d.values
  | .leaf w, path, _, o, ho, v, hv => by
    rw [subtreeToSetOps, List.mem_singleton] at ho
    subst ho
    have hwv : w = v := Option.some.inj hv
    exact ⟨[], .leaf w, rfl, by simp [ConfigTree.values, hwv]⟩
  | .multi ws, path, _, o, ho, v, hv => by
    rw [subtreeToSetOps, List.mem_map] at ho
    obtain ⟨w, hw, rfl⟩ := ho
    have hwv : w = v := Option.some.inj hv
    exact ⟨[], .multi ws, rfl, hwv ▸ hw⟩
  | .node [], path, _, o, ho, v, hv => by
    rw [subtreeToSetOps, List.mem_singleton] at ho
    subst ho
    cases hv
  | .node (e :: es), path, h, o, ho, v, hv => by
    rw [subtreeToSetOps] at ho
    have hnode := ConfigTree.wellFormed_node_iff.mp h
    obtain ⟨k, c, hk, q, d, hd, hvd⟩ := value_of_mem_entriesToSetOps (e :: es) path hnode.1
      (fun e he => hnode.2 e.1 e.2 (lookup_eq_some_of_mem hnode.1 he)) o ho v hv
    refine ⟨k :: q, d, ?_, hvd⟩
    rw [ConfigTree.get_node_cons, hk, Option.bind_some, hd]

theorem value_of_mem_entriesToSetOps : (es : List (String × ConfigTree)) → (path : Path) →
    (es.map Prod.fst).Nodup → (∀ e ∈ es, e.2.WellFormed) → (o : ConfigOp) →
    o ∈ subtreeToSetOps.entriesToSetOps path es → (v : String) → o.value = some v →
    ∃ k c, es.lookup k = some c ∧ ∃ q d, c.get q = some d ∧ v ∈ d.values
  | [], path, _, _, o, ho, v, hv => by
    rw [subtreeToSetOps.entriesToSetOps] at ho
    exact absurd ho List.not_mem_nil
  | (k, c) :: es, path, hkeys, h, o, ho, v, hv => by
    rw [List.map_cons, List.nodup_cons] at hkeys
    rw [subtreeToSetOps.entriesToSetOps, List.mem_append] at ho
    rcases ho with ho | ho
    · refine ⟨k, c, by simp, ?_⟩
      exact value_of_mem_subtreeToSetOps c (path ++ [k]) (h (k, c) List.mem_cons_self) o ho v hv
    · obtain ⟨l, d, hl, hd⟩ := value_of_mem_entriesToSetOps es path hkeys.2
        (fun e he => h e (List.mem_cons_of_mem _ he)) o ho v hv
      have hne : l ≠ k := by
        rintro rfl
        exact hkeys.1 (List.mem_map.mpr ⟨(l, d), mem_of_lookup_eq_some hl, rfl⟩)
      refine ⟨l, d, ?_, hd⟩
      rw [List.lookup_cons, beq_false_of_ne hne]
      exact hl
end

mutual
theorem subtreeToSetOps_ne_nil : (c : ConfigTree) → (path : Path) → c.WellFormed →
    subtreeToSetOps path c ≠ []
  | .leaf v, path, _ => by simp [subtreeToSetOps]
  | .multi vs, path, h => by
    rw [subtreeToSetOps, ne_eq, List.map_eq_nil_iff]
    exact h.values_ne_nil [] vs rfl
  | .node [], path, _ => by simp [subtreeToSetOps]
  | .node (e :: es), path, h => by
    rw [subtreeToSetOps]
    exact entriesToSetOps_ne_nil (e :: es) path (by simp)
      (ConfigTree.wellFormed_node_iff.mp h).1 (ConfigTree.wellFormed_node_iff.mp h).2

theorem entriesToSetOps_ne_nil : (es : List (String × ConfigTree)) → (path : Path) → es ≠ [] →
    (es.map Prod.fst).Nodup → (∀ k c, es.lookup k = some c → c.WellFormed) →
    subtreeToSetOps.entriesToSetOps path es ≠ []
  | [], _, hne, _, _ => absurd rfl hne
  | (k, c) :: es, path, _, hkeys, h => by
    rw [subtreeToSetOps.entriesToSetOps, ne_eq, List.append_eq_nil_iff, not_and_or]
    exact Or.inl (subtreeToSetOps_ne_nil c (path ++ [k]) (h k c (by simp)))
end

/-- Every node above what is set becomes a plain node. -/
theorem run_sets_above (S : Schema) {ops : List ConfigOp} {q : Path} (hne : ops ≠ [])
    (h : ∀ o ∈ ops, o.op = .set ∧ q <+: o.path ∧ q ≠ o.path) (s : Store String String) :
    run S.multi s (edits ops) q = some [] := by
  induction ops using List.reverseRecOn with
  | nil => exact absurd rfl hne
  | append_singleton ops o _ =>
    obtain ⟨hset, habove, hneq⟩ := h o (by simp)
    rw [run_edits_apply, List.foldl_append, List.foldl_cons, List.foldl_nil,
      actOp_above S habove hneq, if_pos hset]

/-- The values of one leaf, set one after another. -/
theorem run_set_values (S : Schema) {p : Path} {vs : List String} (hnodup : vs.Nodup)
    (hblank : "" ∉ vs) (hmulti : 2 ≤ vs.length → S.multi p = true) {s : Store String String}
    (hs : s p = none) :
    run S.multi s (edits (vs.map fun v => ⟨.set, p, some v⟩)) p =
      if vs = [] then none else some vs := by
  induction vs using List.reverseRecOn with
  | nil => exact hs
  | append_singleton vs v ih =>
    obtain ⟨hnodup', _, hnot⟩ := List.nodup_append.mp hnodup
    have hv : v ≠ "" := fun h => hblank (by simp [h])
    have hvs : v ∉ vs := fun hmem => hnot v hmem v (by simp) rfl
    have hprev := ih hnodup' (fun hmem => hblank (List.mem_append_left _ hmem)) fun hlen =>
      hmulti (by simp only [List.length_append, List.length_singleton]; omega)
    rw [List.map_append, edits_append, run_append, run_edits_apply, hprev]
    simp only [List.map_cons, List.map_nil, List.foldl_cons, List.foldl_nil]
    rw [actOp_set_value S p _ hv]
    by_cases hnil : vs = []
    · subst hnil
      simp [addValue]
    · have hlen : 0 < vs.length := List.length_pos_iff.mpr hnil
      have hm : S.multi p = true :=
        hmulti (by simp only [List.length_append, List.length_singleton]; omega)
      simp [hm, hnil, addValue, hvs]

/-- Setting the values of a leaf leaves nothing below it. -/
theorem run_set_values_below (S : Schema) {p q : Path} (hpq : p <+: q) (hne : q ≠ p)
    {vs : List String} (hblank : "" ∉ vs) {s : Store String String} (hs : s q = none) :
    run S.multi s (edits (vs.map fun v => ⟨.set, p, some v⟩)) q = none := by
  induction vs using List.reverseRecOn with
  | nil => exact hs
  | append_singleton vs v ih =>
    have hv : v ≠ "" := fun h => hblank (by simp [h])
    have hqp : ¬ q <+: p := fun hq => hne (hq.eq_of_length_le hpq.length_le)
    have hsent : ConfigOp.sent ⟨.set, p, some v⟩ = some v := by simp [ConfigOp.sent, hv]
    rw [List.map_append, edits_append, run_append, run_edits_apply]
    simp [actOp, ConfigOp.toEdit, hsent, act, hne, hqp, hpq]

theorem run_set_values_slots (S : Schema) {p : Path} {vs : List String} (hne : vs ≠ [])
    (hnodup : vs.Nodup) (hblank : "" ∉ vs) (hmulti : 2 ≤ vs.length → S.multi p = true)
    {s : Store String String} (hs : ∀ q, s (p ++ q) = none) (q : Path) :
    run S.multi s (edits (vs.map fun v => ⟨.set, p, some v⟩)) (p ++ q) =
      if q = [] then some vs else none := by
  cases q with
  | nil =>
    have hself : s p = none := by simpa using hs []
    rw [List.append_nil, run_set_values S hnodup hblank hmulti hself, if_neg hne, if_pos rfl]
  | cons k q =>
    rw [if_neg (List.cons_ne_nil k q)]
    exact run_set_values_below S (List.prefix_append _ _) (by simp) hblank (hs (k :: q))

mutual
/-- The replayed subtree is the original, slot by slot. -/
theorem run_subtreeToSetOps (S : Schema) : (c : ConfigTree) → (path : Path) →
    (s : Store String String) → Replayable S path c → (∀ q, s (path ++ q) = none) → ∀ q,
    run S.multi s (edits (subtreeToSetOps path c)) (path ++ q) = c.store q
  | .leaf v, path, s, h, hs, q => by
    have hblank : "" ∉ [v] := h.no_blank [] (.leaf v) rfl
    have hops : subtreeToSetOps path (.leaf v) = [v].map fun v => ⟨.set, path, some v⟩ := rfl
    rw [hops, run_set_values_slots S (by simp) (by simp) hblank (by simp) hs]
    cases q <;> rfl
  | .multi vs, path, s, h, hs, q => by
    have hblank : "" ∉ vs := h.no_blank [] (.multi vs) rfl
    have hmulti : 2 ≤ vs.length → S.multi path = true := by
      simpa using h.multi [] vs rfl
    rw [subtreeToSetOps, run_set_values_slots S (h.wellFormed.values_ne_nil [] vs rfl)
      (h.wellFormed.values_nodup [] vs rfl) hblank hmulti hs]
    cases q <;> rfl
  | .node [], path, s, h, hs, q => by
    have hfresh := hs q
    rw [subtreeToSetOps, run_edits_apply]
    cases q with
    | nil =>
      rw [List.append_nil] at hfresh ⊢
      simp only [List.foldl_cons, List.foldl_nil, actOp_set_flag, hfresh]
      rfl
    | cons k q =>
      rw [hfresh]
      have hbelow := act_create_below S.multi (List.prefix_append path (k :: q)) (by simp)
        (none : Slot String)
      have hempty : (ConfigTree.node []).store (k :: q) = none := rfl
      rw [hempty]
      simpa [actOp, ConfigOp.toEdit, ConfigOp.sent] using hbelow
  | .node (e :: es), path, s, h, hs, q => by
    rw [subtreeToSetOps]
    cases q with
    | nil =>
      have hkeys := ConfigTree.wellFormed_node_iff.mp h.wellFormed
      rw [List.append_nil, run_sets_above S (entriesToSetOps_ne_nil (e :: es) path (by simp)
        hkeys.1 hkeys.2) ?_ s]
      · simp [ConfigTree.values]
      · intro o ho
        obtain ⟨hset, e', _, hpath⟩ := mem_entriesToSetOps (e :: es) path o ho
        refine ⟨hset, (List.prefix_append _ _).trans hpath, fun heq => ?_⟩
        have hlen := hpath.length_le
        rw [← heq, List.length_append, List.length_singleton] at hlen
        omega
    | cons k q =>
      rw [run_entriesToSetOps S (e :: es) path s
        (ConfigTree.wellFormed_node_iff.mp h.wellFormed).1 (fun _ he => h.child he)
        (fun k _ q => hs (k :: q)) k q, hs (k :: q), store_eq_entries]
      show _ = ((e :: es).lookup k).bind fun c => c.store q
      cases (e :: es).lookup k <;> rfl

theorem run_entriesToSetOps (S : Schema) : (es : List (String × ConfigTree)) → (path : Path) →
    (s : Store String String) → (es.map Prod.fst).Nodup →
    (∀ e ∈ es, Replayable S (path ++ [e.1]) e.2) →
    (∀ k ∈ es.map Prod.fst, ∀ q, s (path ++ k :: q) = none) → ∀ k q,
    run S.multi s (edits (subtreeToSetOps.entriesToSetOps path es)) (path ++ k :: q) =
      match es.lookup k with
      | some c => c.store q
      | none => s (path ++ k :: q)
  | [], path, s, _, _, _, k, q => rfl
  | (l, c) :: es, path, s, hkeys, hall, hs, k, q => by
    rw [List.map_cons, List.nodup_cons] at hkeys
    rw [subtreeToSetOps.entriesToSetOps, edits_append, run_append]
    by_cases hk : k = l
    · subst hk
      have happart : ∀ o ∈ subtreeToSetOps.entriesToSetOps path es,
          Apart o.path (path ++ k :: q) := by
        intro o ho
        obtain ⟨_, e, he, hpath⟩ := mem_entriesToSetOps es path o ho
        have hne : e.1 ≠ k := by
          rintro rfl
          exact hkeys.1 (List.mem_map.mpr ⟨e, he, rfl⟩)
        obtain ⟨rest, hrest⟩ := hpath
        rw [← hrest, List.append_assoc]
        exact apart_of_ne hne path rest q
      have hsplit : path ++ k :: q = path ++ [k] ++ q := by simp
      rw [run_edits_of_apart S happart, hsplit,
        run_subtreeToSetOps S c (path ++ [k]) s (hall (k, c) List.mem_cons_self)
          (fun q' => by simpa using hs k (by simp) q') q]
      simp
    · have hfirst : ∀ k' q', k' ≠ l →
          run S.multi s (edits (subtreeToSetOps (path ++ [l]) c)) (path ++ k' :: q') =
            s (path ++ k' :: q') := by
        intro k' q' hne
        refine run_edits_of_apart S (fun o ho => ?_) s
        obtain ⟨rest, hrest⟩ := (mem_subtreeToSetOps c (path ++ [l]) o ho).2
        rw [← hrest, List.append_assoc]
        exact apart_of_ne (Ne.symm hne) path rest q'
      rw [run_entriesToSetOps S es path _ hkeys.2
        (fun e he => hall e (List.mem_cons_of_mem _ he)) ?_ k q, hfirst k q hk,
        List.lookup_cons, beq_false_of_ne hk]
      intro k' hk' q'
      have hne : k' ≠ l := fun heq => hkeys.1 (heq ▸ hk')
      rw [hfirst k' q' hne]
      exact hs k' (List.mem_cons_of_mem _ hk') q'
end

end VyosClient.SubtreeReplay
