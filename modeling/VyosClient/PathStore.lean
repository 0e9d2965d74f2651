import Mathlib.Data.List.Infix
import Mathlib.Data.List.Induction
import Mathlib.Tactic.Common

/-!
Stores addressed by paths. A path is a list of keys; an absent path reads
`none` and a present one reads the list of its values, empty for a node that
only exists. Every edit acts slot by slot: what it leaves at a path depends on
what stood at that path only. Runs of edits, frame conditions and the
restriction of a store to a subtree all follow from this one fact.
-/

namespace VyosClient.PathStore

variable {K V : Type*}

abbrev Slot (V : Type*) := Option (List V)

abbrev Store (K V : Type*) := List K → Slot V

/-- `put` writes a value, `create` makes a bare node, `erase` removes a
subtree and `drop` takes one value out of a leaf. -/
inductive Edit (K V : Type*)
  | put (path : List K) (value : V)
  | create (path : List K)
  | erase (path : List K)
  | drop (path : List K) (value : V)
  deriving DecidableEq

namespace Edit

def path : Edit K V → List K
  | put p _ => p
  | create p => p
  | erase p => p
  | drop p _ => p

def shift (pre : List K) : Edit K V → Edit K V
  | put p v => put (pre ++ p) v
  | create p => create (pre ++ p)
  | erase p => erase (pre ++ p)
  | drop p v => drop (pre ++ p) v

end Edit

/-- Two paths are apart when neither lies above the other. -/
def Apart (p q : List K) : Prop := ¬ p <+: q ∧ ¬ q <+: p

theorem Apart.symm {p q : List K} (h : Apart p q) : Apart q p := ⟨h.2, h.1⟩

theorem apart_append_left {p q : List K} (pre : List K) :
    Apart (pre ++ p) (pre ++ q) ↔ Apart p q := by
  simp only [Apart, List.prefix_append_right_inj]

/-- Paths that part at some key stay apart however they go on. -/
theorem apart_of_ne {k l : K} (h : k ≠ l) (pre p q : List K) :
    Apart (pre ++ k :: p) (pre ++ l :: q) := by
  rw [apart_append_left]
  exact ⟨fun hp => h (List.cons_prefix_cons.mp hp).1,
    fun hp => h (List.cons_prefix_cons.mp hp).1.symm⟩

theorem Apart.append {p q : List K} (h : Apart p q) (p' q' : List K) :
    Apart (p ++ p') (q ++ q') := by
  constructor
  · intro hp
    rcases List.prefix_or_prefix_of_prefix ((List.prefix_append p p').trans hp)
      (List.prefix_append q q') with hpq | hqp
    · exact h.1 hpq
    · exact h.2 hqp
  · intro hq
    rcases List.prefix_or_prefix_of_prefix ((List.prefix_append q q').trans hq)
      (List.prefix_append p p') with hqp | hpq
    · exact h.2 hqp
    · exact h.1 hpq

/-- The subtree of a store below a path, as a store of its own. -/
def restrict (s : Store K V) (pre : List K) : Store K V := fun q => s (pre ++ q)

@[simp] theorem restrict_apply (s : Store K V) (pre q : List K) :
    restrict s pre q = s (pre ++ q) := rfl

variable [DecidableEq K] [DecidableEq V]

instance (p q : List K) : Decidable (Apart p q) := inferInstanceAs (Decidable (_ ∧ _))

/-- A leaf with several values keeps them in the order of arrival. -/
def addValue (values : List V) (v : V) : List V :=
  if v ∈ values then values else values ++ [v]

/-- Taking out the last value takes the leaf with it. -/
def dropValue (v : V) : Slot V → Slot V
  | none => none
  | some values =>
      if v ∈ values ∧ values.filter (· ≠ v) = [] then none
      else some (values.filter (· ≠ v))

/-- What an edit leaves at the path `q`. A value replaces the subtree below
it, and a path above an edited one becomes a plain node. -/
def act (multi : List K → Bool) (e : Edit K V) (q : List K) (x : Slot V) : Slot V :=
  match e with
  | .put p v =>
      if q = p then some (if multi p then addValue (x.getD []) v else [v])
      else if q <+: p then some []
      else if p <+: q then none
      else x
  | .create p =>
      if q = p then some (x.getD [])
      else if q <+: p then some []
      else x
  | .erase p => if p <+: q then none else x
  | .drop p v => if q = p then dropValue v x else x

def apply (multi : List K → Bool) (s : Store K V) (e : Edit K V) : Store K V :=
  fun q => act multi e q (s q)

def run (multi : List K → Bool) (s : Store K V) (es : List (Edit K V)) : Store K V :=
  es.foldl (apply multi) s

section Slots

variable (multi : List K → Bool)

theorem act_of_apart {e : Edit K V} {q : List K} (h : Apart e.path q) (x : Slot V) :
    act multi e q x = x := by
  obtain ⟨hpq, hqp⟩ := h
  have hne : q ≠ e.path := fun heq => hqp (heq ▸ List.prefix_refl q)
  cases e <;> simp_all [act, Edit.path]

/-- Below a bare node or a value taken out, nothing moves. -/
theorem act_create_below {p q : List K} (h : p <+: q) (hne : q ≠ p) (x : Slot V) :
    act multi (.create p) q x = x := by
  have hqp : ¬ q <+: p := fun hq => hne (hq.eq_of_length_le h.length_le)
  simp [act, hne, hqp]

theorem act_idem (e : Edit K V) (q : List K) (x : Slot V) :
    act multi e q (act multi e q x) = act multi e q x := by
  cases e with
  | put p v =>
    by_cases hq : q = p
    · subst hq
      by_cases hm : multi q
      · simp only [act, hm, ↓reduceIte, Option.getD_some, Option.some.injEq]
        by_cases hv : v ∈ x.getD [] <;> simp [addValue, hv]
      · simp [act, hm]
    · simp only [act, hq, ↓reduceIte]
      split_ifs <;> rfl
  | create p =>
    simp only [act]
    split_ifs <;> simp
  | erase p =>
    simp only [act]
    split_ifs <;> rfl
  | drop p v =>
    simp only [act]
    split_ifs with hq
    · cases x with
      | none => rfl
      | some values =>
        by_cases hv : v ∈ values ∧ values.filter (· ≠ v) = []
        · simp only [dropValue, if_pos hv]
        · simp only [dropValue, if_neg hv]
          have hnot : v ∉ values.filter (· ≠ v) := by simp
          rw [if_neg (fun hc => hnot hc.1), List.filter_filter]
          simp
    · rfl

/-- An edit is the same inside a subtree as on the whole store. -/
theorem act_shift (pre : List K) (e : Edit K V) (q : List K) (x : Slot V) :
    act multi (e.shift pre) (pre ++ q) x = act (fun p => multi (pre ++ p)) e q x := by
  cases e <;> simp [act, Edit.shift, List.prefix_append_right_inj]

/-- What an edit inside a subtree does to the nodes above the subtree. -/
theorem act_above {p q : List K} (h : q <+: p) (hne : q ≠ p) (v : V) (x : Slot V) :
    act multi (.put p v) q x = some [] ∧ act multi (.create p) q x = some [] ∧
      act multi (.erase p) q x = x ∧ act multi (.drop p v) q x = x := by
  have hpq : ¬ p <+: q := fun hp => hne (h.eq_of_length_le hp.length_le)
  simp [act, h, hne, hpq]

/-- An edit brings no value but the one it puts. -/
theorem mem_act {e : Edit K V} {q : List K} {x : Slot V} {v : V}
    (h : v ∈ (act multi e q x).getD []) : v ∈ x.getD [] ∨ e = .put q v := by
  cases e with
  | put p w =>
    simp only [act] at h
    split_ifs at h with hq hmulti
    · subst hq
      simp only [addValue, Option.getD_some] at h
      split_ifs at h with hw
      · exact Or.inl h
      · rcases List.mem_append.mp h with hv | hv
        · exact Or.inl hv
        · exact Or.inr (by rw [List.mem_singleton.mp hv])
    · exact Or.inr (by rw [hq, List.mem_singleton.mp h])
    · exact absurd h List.not_mem_nil
    · exact absurd h List.not_mem_nil
    · exact Or.inl h
  | create p =>
    simp only [act] at h
    split_ifs at h
    · exact Or.inl h
    · exact absurd h List.not_mem_nil
    · exact Or.inl h
  | erase p =>
    simp only [act] at h
    split_ifs at h
    · exact absurd h List.not_mem_nil
    · exact Or.inl h
  | drop p w =>
    simp only [act] at h
    split_ifs at h
    · cases x with
      | none => exact absurd h List.not_mem_nil
      | some values =>
        simp only [dropValue] at h
        split_ifs at h
        · exact absurd h List.not_mem_nil
        · exact Or.inl (List.mem_filter.mp h).1
    · exact Or.inl h

/-- Only where values add up does an edit leave two, unless they were there. -/
theorem multi_of_act {e : Edit K V} {q : List K} {x : Slot V} {values : List V}
    (h : act multi e q x = some values) (hlen : 2 ≤ values.length) :
    multi q = true ∨ ∃ old, x = some old ∧ 2 ≤ old.length := by
  have hnone : ¬ 2 ≤ ([] : List V).length := by simp
  cases e with
  | put p v =>
    simp only [act] at h
    split_ifs at h with hq hmulti
    · exact Or.inl (hq ▸ hmulti)
    · obtain rfl := Option.some.inj h
      simp at hlen
    · exact absurd (Option.some.inj h ▸ hlen) hnone
    · exact Or.inr ⟨values, h, hlen⟩
  | create p =>
    simp only [act] at h
    split_ifs at h
    · obtain rfl := Option.some.inj h
      cases x with
      | none => exact absurd hlen hnone
      | some old => exact Or.inr ⟨old, rfl, hlen⟩
    · exact absurd (Option.some.inj h ▸ hlen) hnone
    · exact Or.inr ⟨values, h, hlen⟩
  | erase p =>
    simp only [act] at h
    split_ifs at h
    exact Or.inr ⟨values, h, hlen⟩
  | drop p v =>
    simp only [act] at h
    split_ifs at h
    · cases x with
      | none => cases h
      | some old =>
        simp only [dropValue] at h
        split_ifs at h
        obtain rfl := Option.some.inj h
        exact Or.inr ⟨old, rfl, hlen.trans (List.length_filter_le _ _)⟩
    · exact Or.inr ⟨values, h, hlen⟩

end Slots

section Runs

variable {multi : List K → Bool}

@[simp] theorem run_nil (s : Store K V) : run multi s [] = s := rfl

@[simp] theorem run_cons (s : Store K V) (e : Edit K V) (es : List (Edit K V)) :
    run multi s (e :: es) = run multi (apply multi s e) es := rfl

@[simp] theorem run_append (s : Store K V) (es fs : List (Edit K V)) :
    run multi s (es ++ fs) = run multi (run multi s es) fs := List.foldl_append ..

/-- A run can be read one slot at a time. -/
theorem run_apply (s : Store K V) (es : List (Edit K V)) (q : List K) :
    run multi s es q = es.foldl (fun x e => act multi e q x) (s q) := by
  induction es generalizing s with
  | nil => rfl
  | cons e es ih => exact ih (apply multi s e)

theorem run_congr {s t : Store K V} {q : List K} (h : s q = t q) (es : List (Edit K V)) :
    run multi s es q = run multi t es q := by
  rw [run_apply, run_apply, h]

theorem apply_apply_self (s : Store K V) (e : Edit K V) :
    apply multi (apply multi s e) e = apply multi s e :=
  funext fun q => act_idem multi e q (s q)

/-- Frame: a run leaves a path alone when all its edits are apart from it. -/
theorem run_of_apart {es : List (Edit K V)} {q : List K} (h : ∀ e ∈ es, Apart e.path q)
    (s : Store K V) : run multi s es q = s q := by
  induction es generalizing s with
  | nil => rfl
  | cons e es ih =>
    rw [run_cons, ih (fun f hf => h f (List.mem_cons_of_mem _ hf))]
    exact act_of_apart multi (h e List.mem_cons_self) (s q)

/-- A run inside a subtree is a run on the subtree. -/
theorem restrict_run_shift (s : Store K V) (pre : List K) (es : List (Edit K V)) :
    restrict (run multi s (es.map (Edit.shift pre))) pre =
      run (fun p => multi (pre ++ p)) (restrict s pre) es := by
  induction es generalizing s with
  | nil => rfl
  | cons e es ih =>
    rw [List.map_cons, run_cons, run_cons, ih]
    congr 1
    exact funext fun q => act_shift multi pre e q (s (pre ++ q))

end Runs

end VyosClient.PathStore
