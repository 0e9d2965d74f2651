import Mathlib.Data.List.Nodup
import VyosClient.PathStore

/-!
The JSON tree VyOS returns for a configuration section, and the helpers every
parser walks it with. A single-valued leaf arrives as a bare string, a
multi-valued leaf as an array and a valueless flag node as an empty object.
`ConfigTree.store` reads a tree as a store over paths; two trees with the same
store differ in key order and in the spelling of one-element arrays only.
-/

namespace VyosClient.ConfigTrees

open PathStore

/-- The entries of a node stand in the order `Object.entries` lists them. -/
inductive ConfigTree
  | leaf (value : String)
  | multi (values : List String)
  | node (entries : List (String × ConfigTree))
  deriving Repr

abbrev Path := List String

/-- An `unknown` of the parsers: `none` is `undefined`. -/
abbrev Unknown := Option ConfigTree

def isRecord : Unknown → Bool
  | some (.node _) => true
  | _ => false

/-- `String(v)`: an array joins its elements with commas. -/
def asString : Unknown → Option String
  | none => none
  | some (.leaf v) => some v
  | some (.multi vs) => some (",".intercalate vs)
  | some (.node _) => some "[object Object]"

def asStringArray : Unknown → List String
  | some (.multi vs) => vs
  | some (.leaf v) => [v]
  | _ => []

def child (node : Unknown) (key : String) : Unknown :=
  match node with
  | some (.node es) => es.lookup key
  | _ => none

def isFlagPresent (node : Unknown) (key : String) : Bool :=
  match node with
  | some (.node es) => (es.lookup key).isSome
  | _ => false

namespace ConfigTree

def get : ConfigTree → Path → Unknown
  | t, [] => some t
  | .node es, k :: p => (es.lookup k).bind fun c => c.get p
  | _, _ :: _ => none

def values : ConfigTree → List String
  | .leaf v => [v]
  | .multi vs => vs
  | .node _ => []

def store (t : ConfigTree) : Store String String := fun p => (t.get p).map values

@[simp] theorem get_nil (t : ConfigTree) : t.get [] = some t := by
  cases t <;> rfl

@[simp] theorem get_node_cons (es : List (String × ConfigTree)) (k : String) (p : Path) :
    (node es).get (k :: p) = (es.lookup k).bind fun c => c.get p := rfl

@[simp] theorem get_leaf_cons (v k : String) (p : Path) : (leaf v).get (k :: p) = none := rfl

@[simp] theorem get_multi_cons (vs : List String) (k : String) (p : Path) :
    (multi vs).get (k :: p) = none := rfl

theorem get_cons (t : ConfigTree) (k : String) (p : Path) :
    t.get (k :: p) = (child (some t) k).bind fun c => c.get p := by
  cases t <;> rfl

theorem get_append (t : ConfigTree) (p q : Path) :
    t.get (p ++ q) = (t.get p).bind fun c => c.get q := by
  induction p generalizing t with
  | nil => simp
  | cons k p ih =>
    rw [List.cons_append, get_cons, get_cons, Option.bind_assoc]
    exact Option.bind_congr fun c _ => ih c

theorem child_get (t : ConfigTree) (p : Path) (k : String) :
    child (t.get p) k = t.get (p ++ [k]) := by
  rw [get_append]
  cases h : t.get p with
  | none => rfl
  | some c => simp [get_cons]

theorem store_apply (t : ConfigTree) (p : Path) : t.store p = (t.get p).map values := rfl

@[simp] theorem store_nil (t : ConfigTree) : t.store [] = some t.values := by
  simp [store]

theorem store_cons (t : ConfigTree) (k : String) (p : Path) :
    t.store (k :: p) = (child (some t) k).bind fun c => c.store p := by
  simp only [store, get_cons, Option.map_bind, Function.comp_def]

theorem store_append (t : ConfigTree) (p q : Path) :
    t.store (p ++ q) = (t.get p).bind fun c => c.store q := by
  simp only [store, get_append, Option.map_bind, Function.comp_def]

/-- Only plain nodes have anything below them. -/
theorem store_above {t : ConfigTree} {p q : Path} (hle : p <+: q) (hne : p ≠ q)
    (hq : (t.get q).isSome) : t.store p = some [] := by
  obtain ⟨rest, rfl⟩ := hle
  rw [get_append] at hq
  rw [store_apply]
  cases rest with
  | nil => exact absurd (List.append_nil p).symm hne
  | cons k rest =>
    cases hp : t.get p with
    | none => simp [hp] at hq
    | some c =>
      cases c with
      | node es => rfl
      | leaf v => simp [hp] at hq
      | multi vs => simp [hp] at hq

theorem restrict_store {t c : ConfigTree} {p : Path} (h : t.get p = some c) :
    restrict t.store p = c.store := by
  funext q
  simp only [restrict_apply, store_append, h, Option.bind_some]

/-- What every tree VyOS returns satisfies: the keys of an object are
distinct, and an array holds at least one value and none twice. -/
structure WellFormed (t : ConfigTree) : Prop where
  keys_nodup : ∀ p es, t.get p = some (node es) → (es.map Prod.fst).Nodup
  values_nodup : ∀ p vs, t.get p = some (multi vs) → vs.Nodup
  values_ne_nil : ∀ p vs, t.get p = some (multi vs) → vs ≠ []

theorem WellFormed.get {t c : ConfigTree} (h : t.WellFormed) {p : Path}
    (hc : t.get p = some c) : c.WellFormed where
  keys_nodup q es hq := h.keys_nodup (p ++ q) es (by rw [get_append, hc]; exact hq)
  values_nodup q vs hq := h.values_nodup (p ++ q) vs (by rw [get_append, hc]; exact hq)
  values_ne_nil q vs hq := h.values_ne_nil (p ++ q) vs (by rw [get_append, hc]; exact hq)

theorem wellFormed_leaf (v : String) : (leaf v).WellFormed := by
  constructor <;> intro p _ hp <;> cases p <;> simp at hp

theorem wellFormed_multi {vs : List String} (hnodup : vs.Nodup) (hne : vs ≠ []) :
    (multi vs).WellFormed := by
  constructor <;> intro p ws hp <;> cases p with
  | nil => simp_all
  | cons k p => simp at hp

theorem wellFormed_node_iff {es : List (String × ConfigTree)} :
    (node es).WellFormed ↔
      (es.map Prod.fst).Nodup ∧ ∀ k c, es.lookup k = some c → c.WellFormed := by
  constructor
  · intro h
    refine ⟨h.keys_nodup [] es rfl, fun k c hc => h.get (p := [k]) ?_⟩
    simp [hc]
  · rintro ⟨hkeys, hchildren⟩
    have hbelow : ∀ k p t, (node es).get (k :: p) = some t →
        ∃ c : ConfigTree, c.WellFormed ∧ c.get p = some t := by
      intro k p t ht
      obtain ⟨c, hc, hct⟩ := Option.bind_eq_some_iff.mp ht
      exact ⟨c, hchildren k c hc, hct⟩
    constructor
    · intro p es' hp
      cases p with
      | nil =>
        simp only [get_nil, Option.some.injEq, node.injEq] at hp
        exact hp ▸ hkeys
      | cons k p =>
        obtain ⟨c, hc, hct⟩ := hbelow k p _ hp
        exact hc.keys_nodup p es' hct
    · intro p vs hp
      cases p with
      | nil => simp at hp
      | cons k p =>
        obtain ⟨c, hc, hct⟩ := hbelow k p _ hp
        exact hc.values_nodup p vs hct
    · intro p vs hp
      cases p with
      | nil => simp at hp
      | cons k p =>
        obtain ⟨c, hc, hct⟩ := hbelow k p _ hp
        exact hc.values_ne_nil p vs hct

theorem WellFormed.values_nodup' {t : ConfigTree} (h : t.WellFormed) : t.values.Nodup := by
  cases t with
  | leaf v => simp [values]
  | multi vs => exact h.values_nodup [] vs rfl
  | node es => simp [values]

end ConfigTree

open ConfigTree

/-- The text a parser reads from a slot with these values. -/
def readValues : List String → String
  | [] => "[object Object]"
  | v :: vs => ",".intercalate (v :: vs)

theorem asString_eq {t : ConfigTree} (h : t.WellFormed) :
    asString (some t) = some (readValues t.values) := by
  cases t with
  | leaf v => simp [asString, values, readValues]
  | multi vs =>
    cases vs with
    | nil => exact absurd rfl (h.values_ne_nil [] [] rfl)
    | cons v vs => rfl
  | node es => rfl

/-- A leaf reads the same from the tree and from its store. -/
theorem asString_get {t : ConfigTree} (h : t.WellFormed) (p : Path) :
    asString (t.get p) = (t.store p).map readValues := by
  rw [store_apply]
  cases hp : t.get p with
  | none => rfl
  | some c => simpa using asString_eq (h.get hp)

theorem isFlagPresent_eq (node : Unknown) (k : String) :
    isFlagPresent node k = (child node k).isSome := by
  match node with
  | none | some (.leaf _) | some (.multi _) | some (.node _) => rfl

theorem isFlagPresent_get (t : ConfigTree) (p : Path) (k : String) :
    isFlagPresent (t.get p) k = (t.store (p ++ [k])).isSome := by
  rw [isFlagPresent_eq, child_get, store_apply, Option.isSome_map]

section Entries

variable {es : List (String × ConfigTree)} {k : String} {c : ConfigTree}

theorem lookup_eq_some_of_mem (h : (es.map Prod.fst).Nodup) (hmem : (k, c) ∈ es) :
    es.lookup k = some c := by
  induction es with
  | nil => simp at hmem
  | cons e es ih =>
    rw [List.map_cons, List.nodup_cons] at h
    rcases List.mem_cons.mp hmem with rfl | hmem
    · simp
    · have hne : k ≠ e.1 := fun heq => h.1 (heq ▸ List.mem_map_of_mem hmem)
      rw [List.lookup_cons, beq_false_of_ne hne]
      exact ih h.2 hmem

theorem mem_of_lookup_eq_some (h : es.lookup k = some c) : (k, c) ∈ es := by
  induction es with
  | nil => simp at h
  | cons e es ih =>
    rw [List.lookup_cons] at h
    by_cases hk : k = e.1
    · subst hk
      simp only [BEq.rfl, Option.some.injEq] at h
      exact h ▸ List.mem_cons_self
    · rw [beq_false_of_ne hk] at h
      exact List.mem_cons_of_mem _ (ih h)

theorem lookup_eq_none_iff : es.lookup k = none ↔ k ∉ es.map Prod.fst := by
  induction es with
  | nil => simp
  | cons e es ih =>
    rw [List.lookup_cons]
    by_cases hk : k = e.1
    · simp [hk]
    · rw [beq_false_of_ne hk]
      simpa [hk] using ih

end Entries

/-! Being well formed can be checked. -/

mutual
def ConfigTree.check : ConfigTree → Bool
  | .leaf _ => true
  | .multi vs => decide (vs.Nodup ∧ vs ≠ [])
  | .node es => decide (es.map Prod.fst).Nodup && checkEntries es

def checkEntries : List (String × ConfigTree) → Bool
  | [] => true
  | (_, c) :: es => c.check && checkEntries es
end

mutual
theorem check_iff : (t : ConfigTree) → (t.check = true ↔ t.WellFormed)
  | .leaf v => ⟨fun _ => wellFormed_leaf v, fun _ => rfl⟩
  | .multi vs => by
    rw [ConfigTree.check, decide_eq_true_iff]
    exact ⟨fun h => wellFormed_multi h.1 h.2,
      fun h => ⟨h.values_nodup [] vs rfl, h.values_ne_nil [] vs rfl⟩⟩
  | .node es => by
    rw [ConfigTree.check, Bool.and_eq_true, decide_eq_true_iff, checkEntries_iff es,
      wellFormed_node_iff]
    refine and_congr_right fun hkeys => ⟨fun h k c hc => h (k, c) (mem_of_lookup_eq_some hc), ?_⟩
    exact fun h e he => h e.1 e.2 (lookup_eq_some_of_mem hkeys he)

theorem checkEntries_iff : (es : List (String × ConfigTree)) →
    (checkEntries es = true ↔ ∀ e ∈ es, e.2.WellFormed)
  | [] => by simp [checkEntries]
  | (k, c) :: es => by
    rw [checkEntries, Bool.and_eq_true, check_iff c, checkEntries_iff es, List.forall_mem_cons]
end

instance (t : ConfigTree) : Decidable t.WellFormed := decidable_of_iff _ (check_iff t)

end VyosClient.ConfigTrees
