import Mathlib.Data.List.Basic

/-!
First and last positions of a separator in a list, and the two parts between
which it stands. A block without the separator lies in one of them.
-/

namespace VyosClient.Separators

variable {α : Type*}

theorem infix_of_notMem {a : α} {p xs ys : List α} (ha : a ∉ p) (h : p <:+: xs ++ a :: ys) :
    p <:+: xs ∨ p <:+: ys := by
  obtain ⟨before, after, heq⟩ := h
  rcases List.append_eq_append_iff.mp heq with ⟨mid, hxs, -⟩ | ⟨mid, hfront, hback⟩
  · exact Or.inl ⟨before, mid, hxs.symm⟩
  · cases mid with
    | nil =>
      rw [List.append_nil] at hfront
      exact Or.inl ⟨before, [], by rw [List.append_nil, hfront]⟩
    | cons b mid =>
      obtain ⟨rfl, rfl⟩ := List.cons.inj hback
      rcases List.append_eq_append_iff.mp hfront with ⟨rest, -, hp⟩ | ⟨rest, -, hp⟩
      · exact absurd (hp ▸ List.mem_append_right rest List.mem_cons_self) ha
      · cases rest with
        | nil =>
          have hmem : a ∈ p := by
            rw [← List.nil_append p, ← hp]
            exact List.mem_cons_self
          exact absurd hmem ha
        | cons b rest =>
          obtain ⟨-, rfl⟩ := List.cons.inj hp
          exact Or.inr ⟨rest, after, rfl⟩

/-- The pieces of a split hold what is no separator, and nothing that was not there. -/
theorem mem_splitOnP {f : α → Bool} {xs piece : List α} (h : piece ∈ xs.splitOnP f) {x : α}
    (hx : x ∈ piece) : x ∈ xs ∧ f x = false := by
  induction xs generalizing piece with
  | nil =>
    rw [List.splitOnP_nil, List.mem_singleton] at h
    exact absurd (h ▸ hx) List.not_mem_nil
  | cons y xs ih =>
    have htail : ∀ p ∈ xs.splitOnP f, x ∈ p → x ∈ y :: xs ∧ f x = false := fun p hp hxp =>
      ⟨List.mem_cons_of_mem y (ih hp hxp).1, (ih hp hxp).2⟩
    rw [List.splitOnP_cons_eq_if_modifyHead] at h
    split at h
    · rcases List.mem_cons.mp h with rfl | h
      · exact absurd hx List.not_mem_nil
      · exact htail piece h hx
    · rename_i hy
      cases hsplit : xs.splitOnP f with
      | nil => exact absurd hsplit (List.splitOnP_ne_nil f xs)
      | cons first pieces =>
        rw [hsplit] at h htail
        rcases List.mem_cons.mp h with rfl | h
        · rcases List.mem_cons.mp hx with rfl | hx
          · exact ⟨List.mem_cons_self, Bool.eq_false_iff.mpr hy⟩
          · exact htail first List.mem_cons_self hx
        · exact htail piece (List.mem_cons_of_mem _ h) hx

theorem mem_intercalate {sep : List α} {ls : List (List α)} {l : List α} (hl : l ∈ ls) {x : α}
    (hx : x ∈ l) : x ∈ sep.intercalate ls := by
  induction ls with
  | nil => exact absurd hl List.not_mem_nil
  | cons first ls ih =>
    cases ls with
    | nil =>
      rw [List.intercalate_singleton]
      exact List.mem_singleton.mp hl ▸ hx
    | cons second ls =>
      rw [List.intercalate_cons_cons, List.mem_append, List.mem_append]
      rcases List.mem_cons.mp hl with rfl | hl
      · exact Or.inl (Or.inl hx)
      · exact Or.inr (ih hl)

theorem mem_of_mem_intercalate {sep : List α} {ls : List (List α)} {x : α}
    (h : x ∈ sep.intercalate ls) : x ∈ sep ∨ ∃ l ∈ ls, x ∈ l := by
  induction ls with
  | nil => exact absurd h List.not_mem_nil
  | cons first ls ih =>
    cases ls with
    | nil =>
      rw [List.intercalate_singleton] at h
      exact Or.inr ⟨first, List.mem_cons_self, h⟩
    | cons second ls =>
      rw [List.intercalate_cons_cons, List.mem_append, List.mem_append] at h
      rcases h with (h | h) | h
      · exact Or.inr ⟨first, List.mem_cons_self, h⟩
      · exact Or.inl h
      · rcases ih h with h | ⟨l, hl, hx⟩
        · exact Or.inl h
        · exact Or.inr ⟨l, List.mem_cons_of_mem _ hl, hx⟩

variable [DecidableEq α]

/-- Lines that each end with the separator split into the pieces of each and what follows. -/
theorem splitOn_terminated (a : α) (lines : List (List α)) (rest : List α) :
    (lines.flatMap (· ++ [a]) ++ rest).splitOn a = lines.flatMap (List.splitOn a) ++ rest.splitOn a := by
  induction lines with
  | nil => rfl
  | cons line lines ih =>
    rw [List.flatMap_cons, List.append_assoc, List.append_assoc, List.singleton_append,
      List.splitOn_append_cons_self, ih, List.flatMap_cons, List.append_assoc]

/-- The last position of an element, counted from the front. -/
def lastIdxOf? (a : α) (l : List α) : Option ℕ :=
  (l.reverse.idxOf? a).map fun i => l.length - 1 - i

theorem idxOf?_append_cons {xs : List α} {a : α} (h : a ∉ xs) (ys : List α) :
    (xs ++ a :: ys).idxOf? a = some xs.length := by
  induction xs with
  | nil => simp [List.idxOf?_cons]
  | cons x xs ih =>
    have hne : ¬ x = a := fun hx => h (hx ▸ List.mem_cons_self)
    have hrest := ih fun hmem => h (List.mem_cons_of_mem x hmem)
    rw [List.cons_append, List.idxOf?_cons, hrest]
    simp [hne]

theorem lastIdxOf?_append_cons (xs : List α) {a : α} {ys : List α} (h : a ∉ ys) :
    lastIdxOf? a (xs ++ a :: ys) = some xs.length := by
  have hrev : (xs ++ a :: ys).reverse = ys.reverse ++ a :: xs.reverse := by
    rw [List.reverse_append, List.reverse_cons, List.append_assoc]
    rfl
  have hnot : a ∉ ys.reverse := fun hmem => h (List.mem_reverse.mp hmem)
  unfold lastIdxOf?
  rw [hrev, idxOf?_append_cons hnot, Option.map_some, List.length_append, List.length_cons,
    List.length_reverse]
  congr 1
  omega

theorem lastIdxOf?_eq_none {a : α} {l : List α} : lastIdxOf? a l = none ↔ a ∉ l := by
  unfold lastIdxOf?
  rw [Option.map_eq_none_iff, List.idxOf?_eq_none_iff, List.mem_reverse]

theorem exists_idxOf? {a : α} {l : List α} (h : a ∈ l) :
    ∃ xs ys, l = xs ++ a :: ys ∧ a ∉ xs ∧ l.idxOf? a = some xs.length := by
  obtain ⟨xs, ys, rfl, hnot⟩ := List.eq_append_cons_of_mem h
  exact ⟨xs, ys, rfl, hnot, idxOf?_append_cons hnot ys⟩

/-- An element that occurs has a last position: nothing after it is the element again. -/
theorem exists_lastIdxOf? {a : α} {l : List α} (h : a ∈ l) :
    ∃ xs ys, l = xs ++ a :: ys ∧ a ∉ ys ∧ lastIdxOf? a l = some xs.length := by
  obtain ⟨ys, xs, hrev, hnot⟩ := List.eq_append_cons_of_mem (List.mem_reverse.mpr h)
  have hl : l = xs.reverse ++ a :: ys.reverse := by
    have hback := congrArg List.reverse hrev
    rw [List.reverse_reverse, List.reverse_append, List.reverse_cons, List.append_assoc] at hback
    exact hback
  have hnot' : a ∉ ys.reverse := fun hmem => hnot (List.mem_reverse.mp hmem)
  refine ⟨xs.reverse, ys.reverse, hl, hnot', ?_⟩
  rw [hl]
  exact lastIdxOf?_append_cons _ hnot'

end VyosClient.Separators
