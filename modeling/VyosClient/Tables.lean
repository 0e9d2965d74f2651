import Mathlib.Data.List.AList

/-!
Tables read by key, with one pass that rewrites or drops every entry. The pass
acts on each key by itself: what a key holds afterwards is read off what it
held before.
-/

namespace VyosClient.Tables

/-- A table holds at most one value for a key. -/
abbrev Table (K V : Type*) := AList (fun _ : K => V)

variable {K V : Type*}

def size (t : Table K V) : ℕ := t.entries.length

/-- The entries a pass leaves: each value is replaced, or dropped with its key. -/
def sweepEntries (f : V → Option V) (es : List (Sigma fun _ : K => V)) :
    List (Sigma fun _ : K => V) :=
  es.filterMap fun e => (f e.2).map (Sigma.mk e.1)

theorem sweepEntries_cons_none {f : V → Option V} {e : Sigma fun _ : K => V}
    (es : List (Sigma fun _ : K => V)) (h : f e.2 = none) :
    sweepEntries f (e :: es) = sweepEntries f es :=
  List.filterMap_cons_none (by rw [h]; rfl)

theorem sweepEntries_cons_some {f : V → Option V} {e : Sigma fun _ : K => V} {v : V}
    (es : List (Sigma fun _ : K => V)) (h : f e.2 = some v) :
    sweepEntries f (e :: es) = ⟨e.1, v⟩ :: sweepEntries f es :=
  List.filterMap_cons_some (by rw [h]; rfl)

theorem keys_sweepEntries_sublist (f : V → Option V) (es : List (Sigma fun _ : K => V)) :
    (sweepEntries f es).keys.Sublist es.keys := by
  induction es with
  | nil => exact List.Sublist.refl []
  | cons e es ih =>
    cases h : f e.2 with
    | none =>
      rw [sweepEntries_cons_none es h]
      exact ih.cons e.1
    | some v =>
      rw [sweepEntries_cons_some es h]
      exact ih.cons_cons e.1

def sweep (f : V → Option V) (t : Table K V) : Table K V where
  entries := sweepEntries f t.entries
  nodupKeys := (keys_sweepEntries_sublist f t.entries).nodup t.nodupKeys

theorem size_eq_length_keys (t : Table K V) : size t = t.keys.length := by
  unfold size AList.keys List.keys
  rw [List.length_map]

/-- The keys of a table that meet a condition. -/
def sizeWhere (live : K → Prop) [DecidablePred live] (t : Table K V) : ℕ := t.keys.countP live

theorem size_le_sizeWhere {live : K → Prop} [DecidablePred live] {t : Table K V}
    (h : ∀ k ∈ t, live k) : size t ≤ sizeWhere live t := by
  rw [size_eq_length_keys]
  apply le_of_eq
  apply Eq.symm
  apply List.countP_eq_length.mpr
  intro k hk
  exact decide_eq_true (h k (AList.mem_keys.mpr hk))

/-- A table whose keys are all in another one is no larger. -/
theorem size_le_of_subset {t t' : Table K V} (h : ∀ k ∈ t, k ∈ t') : size t ≤ size t' := by
  rw [size_eq_length_keys, size_eq_length_keys]
  apply List.Subperm.length_le
  apply List.subperm_of_subset t.keys_nodup
  intro k hk
  exact AList.mem_keys.mp (h k (AList.mem_keys.mpr hk))

variable [DecidableEq K]

theorem size_insert_le (t : Table K V) (k : K) (v : V) : size (t.insert k v) ≤ size t + 1 := by
  rw [size_eq_length_keys, size_eq_length_keys, AList.keys_insert, List.length_cons]
  exact Nat.succ_le_succ List.length_erase_le

theorem mem_iff_lookup {t : Table K V} {k : K} : k ∈ t ↔ ∃ v, t.lookup k = some v := by
  rw [← AList.lookup_isSome, Option.isSome_iff_exists]

theorem dlookup_sweepEntries (f : V → Option V) (k : K) {es : List (Sigma fun _ : K => V)}
    (hes : es.NodupKeys) :
    (sweepEntries f es).dlookup k = (es.dlookup k).bind f := by
  induction es with
  | nil => rfl
  | cons e es ih =>
    obtain ⟨hnot, hrest⟩ := List.nodupKeys_cons.mp hes
    have ih := ih hrest
    by_cases hk : e.1 = k
    · subst hk
      have hgone : (sweepEntries f es).dlookup e.1 = none := by
        rw [ih, List.dlookup_eq_none.mpr hnot]
        rfl
      rw [List.dlookup_cons_eq]
      cases h : f e.2 with
      | none =>
        rw [Option.bind_some, h, sweepEntries_cons_none es h]
        exact hgone
      | some v =>
        rw [Option.bind_some, h, sweepEntries_cons_some es h]
        exact List.dlookup_cons_eq _ _ _
    · have hne : k ≠ e.1 := fun h => hk h.symm
      rw [List.dlookup_cons_ne _ _ hne, ← ih]
      cases h : f e.2 with
      | none =>
        rw [sweepEntries_cons_none es h]
      | some v =>
        rw [sweepEntries_cons_some es h]
        exact List.dlookup_cons_ne _ _ hne

/-- A pass acts on every key by itself. -/
theorem lookup_sweep (f : V → Option V) (t : Table K V) (k : K) :
    (sweep f t).lookup k = (t.lookup k).bind f :=
  dlookup_sweepEntries f k t.nodupKeys

theorem lookup_insert_apply (t : Table K V) (k k' : K) (v : V) :
    (t.insert k v).lookup k' = if k' = k then some v else t.lookup k' := by
  by_cases h : k' = k
  · rw [if_pos h, h, AList.lookup_insert]
  · rw [if_neg h, AList.lookup_insert_ne h]

theorem lookup_erase_apply (t : Table K V) (k k' : K) :
    (t.erase k).lookup k' = if k' = k then none else t.lookup k' := by
  by_cases h : k' = k
  · rw [if_pos h, h, AList.lookup_erase]
  · rw [if_neg h, AList.lookup_erase_ne h]

/-- A pass that sets the key to what it finds in each item leaves the last finding there. -/
theorem lookup_foldl {X : Type*} {step : Table K V → X → Table K V} {found : X → List V} {k : K}
    (hstep : ∀ t x, (step t x).lookup k = (found x).getLast?.or (t.lookup k)) (xs : List X)
    (t : Table K V) :
    (xs.foldl step t).lookup k = (xs.flatMap found).getLast?.or (t.lookup k) := by
  induction xs generalizing t with
  | nil => rfl
  | cons x xs ih =>
    rw [List.foldl_cons, ih, hstep, List.flatMap_cons, List.getLast?_append, Option.or_assoc]

end VyosClient.Tables
