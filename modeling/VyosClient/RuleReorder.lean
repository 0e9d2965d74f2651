import Mathlib.Data.List.InsertIdx
import Mathlib.Data.List.Perm.Basic
import VyosClient.RuleRewrite

/-!
Reordering one rule. Whichever way the new numbers are found, they ascend in
the order of the moved list, so the ruleset reads back as that list; a position
outside the list leaves the ruleset alone.
-/

namespace VyosClient.RuleReorder

open PathStore ConfigTrees Configure FirewallParse FirewallRuleForm SubtreeReplay RuleRewrite

/-- Both positions lie in a list of this length. -/
def InRange (length : ℕ) (fromIndex toIndex : ℤ) : Prop :=
  (0 ≤ fromIndex ∧ fromIndex < length) ∧ 0 ≤ toIndex ∧ toIndex < length

instance (length : ℕ) (fromIndex toIndex : ℤ) : Decidable (InRange length fromIndex toIndex) :=
  inferInstanceAs (Decidable (_ ∧ _))

theorem spliceIndex_of_lt {length : ℕ} {i : ℤ} (h : 0 ≤ i) (h' : i ≤ length) :
    spliceIndex length i = i.toNat := by
  unfold spliceIndex
  rw [if_neg (by omega)]
  omega

/-- Outside the list, or in place, there is nothing to change. -/
theorem reorderChanges_eq_nil {rules : List FirewallRule} {fromIndex toIndex : ℤ}
    (h : ¬ (InRange rules.length fromIndex toIndex ∧ fromIndex ≠ toIndex)) :
    reorderChanges rules fromIndex toIndex = [] := by
  have hguard : fromIndex = toIndex ∨ fromIndex < 0 ∨ fromIndex ≥ rules.length ∨
      toIndex < 0 ∨ toIndex ≥ rules.length := by
    unfold InRange at h
    omega
  rw [reorderChanges, if_pos hguard]

theorem insertIdx_eq_append {α : Type*} (xs : List α) (x : α) {i : ℕ} (h : i ≤ xs.length) :
    xs.insertIdx i x = xs.take i ++ x :: xs.drop i := by
  induction xs generalizing i with
  | nil =>
    obtain rfl : i = 0 := by simpa using h
    rfl
  | cons y ys ih =>
    cases i with
    | zero => rfl
    | succ i =>
      rw [List.insertIdx_succ_cons, ih (by simpa using h)]
      rfl

theorem moveItem_map {α β : Type*} (f : α → β) (arr : List α) (fromIndex toIndex : ℤ) :
    moveItem (arr.map f) fromIndex toIndex =
      (moveItem arr fromIndex toIndex).map (Option.map f) := by
  unfold moveItem
  simp only [List.length_map, List.getElem?_map, List.eraseIdx_map, List.map_insertIdx,
    List.map_map]
  rfl

theorem moveItem_self {α : Type*} {arr : List α} {i : ℤ} (h : 0 ≤ i) (h' : i < arr.length) :
    moveItem arr i i = arr.map some := by
  have hlt : i.toNat < (arr.map some).length := by
    rw [List.length_map]
    omega
  have hlen : ((arr.map some).eraseIdx i.toNat).length = arr.length - 1 := by
    rw [List.length_eraseIdx_of_lt hlt, List.length_map]
  have hitem : arr[i.toNat]? = (arr.map some)[i.toNat] := by
    rw [List.getElem_map, List.getElem?_eq_getElem]
  unfold moveItem
  simp only [spliceIndex_of_lt h h'.le, hlen]
  rw [spliceIndex_of_lt h (by omega), hitem, List.insertIdx_eraseIdx_getElem hlt]

/-- Inside the list, the moved element stands at its new position and the
others keep their order. -/
theorem exists_moveItem {α : Type*} {arr : List α} {fromIndex toIndex : ℤ}
    (h : InRange arr.length fromIndex toIndex) :
    ∃ left x right, moveItem arr fromIndex toIndex = (left ++ x :: right).map some ∧
      left.length = toIndex.toNat ∧ left ++ right = arr.eraseIdx fromIndex.toNat ∧
      (left ++ x :: right).Perm arr := by
  obtain ⟨⟨hfrom, hfrom'⟩, hto, hto'⟩ := h
  have hlt : fromIndex.toNat < arr.length := by omega
  have hlen : ((arr.map some).eraseIdx fromIndex.toNat).length = arr.length - 1 := by
    rw [List.length_eraseIdx_of_lt (by simpa using hlt), List.length_map]
  have herased : (arr.map some).eraseIdx fromIndex.toNat =
      (arr.eraseIdx fromIndex.toNat).map some := by
    rw [List.eraseIdx_map]
  refine ⟨(arr.eraseIdx fromIndex.toNat).take toIndex.toNat, arr[fromIndex.toNat],
    (arr.eraseIdx fromIndex.toNat).drop toIndex.toNat, ?_, ?_, List.take_append_drop _ _, ?_⟩
  · unfold moveItem
    simp only [spliceIndex_of_lt hfrom hfrom'.le, hlen]
    rw [spliceIndex_of_lt hto (by omega), insertIdx_eq_append _ _ (by omega), herased,
      List.getElem?_eq_getElem hlt, List.map_append, List.map_cons, List.map_take, List.map_drop]
  · rw [List.length_take, List.length_eraseIdx_of_lt hlt]
    omega
  · refine List.perm_middle.trans ?_
    rw [List.take_append_drop]
    exact List.getElem_cons_eraseIdx_perm hlt

/-- A free number lies strictly between its neighbours. -/
theorem idealNumberBetween_spec {prev next : Option ℕ} {n : ℕ}
    (h : idealNumberBetween prev next = some n) :
    0 < n ∧ (∀ p ∈ prev, p < n) ∧ ∀ q ∈ next, n < q := by
  unfold idealNumberBetween at h
  split at h
  · cases h
  · rename_i q
    split_ifs at h with hq
    obtain rfl := Option.some.inj h
    simp only [Option.mem_def, reduceCtorEq, false_imp_iff, implies_true, Option.some.injEq,
      forall_eq', true_and]
    omega
  · rename_i p
    obtain rfl := Option.some.inj h
    simp
  · rename_i p q
    split_ifs at h with hgap
    obtain rfl := Option.some.inj h
    simp only [Option.mem_def, Option.some.injEq, forall_eq']
    omega

/-- Where no number is found, there is none. -/
theorem idealNumberBetween_none {prev next : Option ℕ} (h : idealNumberBetween prev next = none)
    (hne : prev ≠ none ∨ next ≠ none) {n : ℕ} (hn : 0 < n) (hprev : ∀ p ∈ prev, p < n) :
    ∃ q ∈ next, q ≤ n := by
  unfold idealNumberBetween at h
  split at h
  · exact absurd rfl (hne.resolve_left fun hne => hne rfl)
  · rename_i q
    split_ifs at h with hq
    exact ⟨q, rfl, by omega⟩
  · cases h
  · rename_i p q
    split_ifs at h with hgap
    have hp : p < n := hprev p rfl
    exact ⟨q, rfl, by omega⟩

/-- A positive number above all numbers on the left and below all on the
right. -/
def Between (left right : List FirewallRule) (n : ℕ) : Prop :=
  0 < n ∧ (∀ r ∈ left, rank r.number < n) ∧ ∀ r ∈ right, n < rank r.number

/-- The number a move finds between its neighbours. -/
def freeNumber (left right : List FirewallRule) : Option ℕ :=
  idealNumberBetween (left.getLast?.map fun r => rank r.number)
    (right.head?.map fun r => rank r.number)

section Strategies

variable {ref : RulesetRef} {t : ConfigTree} {left right : List FirewallRule} {x : FirewallRule}

/-- Of an ascending list only the neighbours matter. -/
theorem between_iff (hrules : (left ++ right).Pairwise fun a b => rank a.number < rank b.number)
    {n : ℕ} : Between left right n ↔ 0 < n ∧ (∀ p ∈ left.getLast?.map fun r => rank r.number, p < n) ∧
      ∀ q ∈ right.head?.map fun r => rank r.number, n < q := by
  obtain ⟨hpl, hpr, -⟩ := List.pairwise_append.mp hrules
  refine and_congr_right fun _ => and_congr ?_ ?_
  · rcases left.eq_nil_or_concat' with rfl | ⟨init, l, rfl⟩
    · simp
    · constructor
      · intro h
        simpa using h l (by simp)
      · intro h r hr
        have hl : rank l.number < n := h _ (by simp)
        rcases List.mem_append.mp hr with hr | hr
        · exact lt_trans ((List.pairwise_append.mp hpl).2.2 r hr l (by simp)) hl
        · rwa [List.mem_singleton.mp hr]
  · cases right with
    | nil => simp
    | cons b rest =>
      constructor
      · intro h
        simpa using h b (by simp)
      · intro h r hr
        have hb : n < rank b.number := h _ (by simp)
        rcases List.mem_cons.mp hr with rfl | hr
        · exact hb
        · exact lt_trans hb ((List.pairwise_cons.mp hpr).1 r hr)

theorem between_of_freeNumber
    (hrules : (left ++ right).Pairwise fun a b => rank a.number < rank b.number) {n : ℕ}
    (h : freeNumber left right = some n) : Between left right n :=
  (between_iff hrules).mpr (idealNumberBetween_spec h)

/-- No number is missed, unless the moved rule stands alone. -/
theorem not_between_of_freeNumber
    (hrules : (left ++ right).Pairwise fun a b => rank a.number < rank b.number)
    (hne : left ++ right ≠ []) (h : freeNumber left right = none) (n : ℕ) :
    ¬ Between left right n := by
  intro hn
  obtain ⟨hpos, hprev, hnext⟩ := (between_iff hrules).mp hn
  have hsome : (left.getLast?.map fun r => rank r.number) ≠ none ∨
      (right.head?.map fun r => rank r.number) ≠ none := by
    by_cases hleft : left = []
    · have hright : right ≠ [] := fun hright => hne (by rw [hleft, hright, List.nil_append])
      exact Or.inr (by simpa using hright)
    · exact Or.inl (by simpa using hleft)
  obtain ⟨q, hq, hle⟩ := idealNumberBetween_none h hsome hpos hprev
  exact absurd (hnext q hq) (by omega)

/-- The neighbours of the moved rule, read by position. -/
theorem idealNumberBetween_neighbours
    (hnumber : ∀ r ∈ left ++ x :: right, number r.number = some (rank r.number)) :
    idealNumberBetween
        (if left.length = 0 then none
          else (left ++ x :: right)[left.length - 1]?.bind fun r => number r.number)
        ((left ++ x :: right)[left.length + 1]?.bind fun r => number r.number) =
      freeNumber left right := by
  have hprev : (if left.length = 0 then none else
      (left ++ x :: right)[left.length - 1]?.bind fun r => number r.number) =
        left.getLast?.map fun r => rank r.number := by
    rcases left.eq_nil_or_concat' with rfl | ⟨init, l, rfl⟩
    · rfl
    · simp [hnumber l (by simp)]
  have hnext : ((left ++ x :: right)[left.length + 1]?.bind fun r => number r.number) =
      right.head?.map fun r => rank r.number := by
    cases right with
    | nil => simp
    | cons b rest => simp [hnumber b (by simp)]
  rw [hprev, hnext]
  rfl

/-- The moved rule alone takes a number between its neighbours. -/
theorem assigns_between (hrules : (left ++ right).Pairwise fun a b => rank a.number < rank b.number)
    (hperm : (left ++ x :: right).Perm (rulesAt ref t)) (hnum : Numbered (rulesAt ref t)) {n : ℕ}
    (hn : Between left right n) :
    Assigns ref t (left.map (fun r => (r, r.number)) ++ (x, toString n) ::
      right.map fun r => (r, r.number)) := by
  have hpos : ∀ r ∈ left ++ x :: right, 0 < rank r.number :=
    fun r hr => hnum.positive r (hperm.mem_iff.mp hr)
  obtain ⟨hpl, hpr, hplr⟩ := List.pairwise_append.mp hrules
  obtain ⟨hn, hbelow, habove⟩ := hn
  refine ⟨?_, ?_, ?_⟩
  · simpa [Function.comp_def] using hperm
  · intro a ha
    simp only [List.mem_append, List.mem_map, List.mem_cons] at ha
    rcases ha with ⟨r, hr, rfl⟩ | rfl | ⟨r, hr, rfl⟩
    · exact hpos r (by simp [hr])
    · rwa [rank_toString]
    · exact hpos r (by simp [hr])
  · refine List.pairwise_append.mpr ⟨List.pairwise_map.mpr hpl, ?_, ?_⟩
    · refine List.pairwise_cons.mpr ⟨?_, List.pairwise_map.mpr hpr⟩
      intro a ha
      obtain ⟨r, hr, rfl⟩ := List.mem_map.mp ha
      rw [rank_toString]
      exact habove r hr
    · intro a ha b hb
      obtain ⟨r, hr, rfl⟩ := List.mem_map.mp ha
      rcases List.mem_cons.mp hb with rfl | hb
      · rw [rank_toString]
        exact hbelow r hr
      · obtain ⟨r', hr', rfl⟩ := List.mem_map.mp hb
        exact hplr r hr r' hr'

/-- All rules take multiples of ten. -/
theorem assigns_tens {rules : List FirewallRule} (hperm : rules.Perm (rulesAt ref t)) :
    Assigns ref t (rules.zipIdx.map fun c => (c.1, toString ((c.2 + 1) * 10))) := by
  refine ⟨?_, ?_, ?_⟩
  · rw [List.map_map]
    show (rules.zipIdx.map Prod.fst).Perm _
    rwa [List.zipIdx_map_fst]
  · intro a ha
    obtain ⟨c, _, rfl⟩ := List.mem_map.mp ha
    rw [rank_toString]
    omega
  · rw [List.pairwise_iff_getElem]
    intro i j hi hj hij
    simp only [List.getElem_map, List.getElem_zipIdx, rank_toString]
    omega

/-- Nothing moves when every rule keeps its number. -/
theorem assigns_self (hnum : Numbered (rulesAt ref t)) :
    Assigns ref t ((rulesAt ref t).map fun r => (r, r.number)) := by
  refine ⟨by simp [Function.comp_def], ?_, List.pairwise_map.mpr hnum.ascending⟩
  intro a ha
  obtain ⟨r, hr, rfl⟩ := List.mem_map.mp ha
  exact hnum.positive r hr

theorem filterMap_id_map_some {α : Type*} (xs : List α) : (xs.map some).filterMap id = xs := by
  rw [List.filterMap_map]
  exact List.filterMap_some

/-- A list with one element taken out and put in again. -/
structure Moves (rules : List FirewallRule) (fromIndex toIndex : ℤ) (left : List FirewallRule)
    (x : FirewallRule) (right : List FirewallRule) : Prop where
  moved : moveItem rules fromIndex toIndex = (left ++ x :: right).map some
  length_left : left.length = toIndex.toNat
  rest : left ++ right = rules.eraseIdx fromIndex.toNat
  perm : (left ++ x :: right).Perm rules

/-- The multiples of ten in the order of a list, where they are new. -/
def tens (rules : List FirewallRule) : List (FirewallRule × String) :=
  (rules.zipIdx.map fun c => (c.1, toString ((c.2 + 1) * 10))).filter fun c => c.1.number ≠ c.2

theorem mem_tens {rules : List FirewallRule} {r : FirewallRule} {n : String} :
    (r, n) ∈ tens rules ↔
      ∃ i, rules[i]? = some r ∧ n = toString ((i + 1) * 10) ∧ r.number ≠ n := by
  simp only [tens, List.mem_filter, List.mem_map, decide_eq_true_eq]
  constructor
  · rintro ⟨⟨c, hc, heq⟩, hne⟩
    obtain ⟨rfl, rfl⟩ := Prod.mk.injEq .. ▸ heq
    exact ⟨c.2, List.mem_zipIdx_iff_getElem?.mp hc, rfl, hne⟩
  · rintro ⟨i, hi, rfl, hne⟩
    exact ⟨⟨(r, i), List.mem_zipIdx_iff_getElem?.mpr hi, rfl⟩, hne⟩

/-- The two strategies of a reorder. -/
theorem reorderChanges_cases (hnum : Numbered (rulesAt ref t)) {fromIndex toIndex : ℤ}
    (hin : InRange (rulesAt ref t).length fromIndex toIndex) (hne : fromIndex ≠ toIndex) :
    ∃ left x right, Moves (rulesAt ref t) fromIndex toIndex left x right ∧
      ((left ++ right).Pairwise fun a b => rank a.number < rank b.number) ∧
      ((∃ n, Between left right n ∧ freeNumber left right = some n ∧
          reorderChanges (rulesAt ref t) fromIndex toIndex = [(x, toString n)]) ∨
        (¬ ∃ n, Between left right n) ∧ freeNumber left right = none ∧
          reorderChanges (rulesAt ref t) fromIndex toIndex = tens (left ++ x :: right)) := by
  obtain ⟨left, x, right, hmove, hlen, hrest, hperm⟩ := exists_moveItem hin
  have hsorted : (left ++ right).Pairwise fun a b => rank a.number < rank b.number := by
    rw [hrest]
    exact hnum.ascending.sublist (List.eraseIdx_sublist _ _)
  refine ⟨left, x, right, ⟨hmove, hlen, hrest, hperm⟩, hsorted, ?_⟩
  have hnumber : ∀ r ∈ left ++ x :: right, number r.number = some (rank r.number) :=
    fun r hr => number_eq_rank (hnum.positive r (hperm.mem_iff.mp hr))
  have hguard : ¬ (fromIndex = toIndex ∨ fromIndex < 0 ∨ fromIndex ≥ (rulesAt ref t).length ∨
      toIndex < 0 ∨ toIndex ≥ (rulesAt ref t).length) := by
    obtain ⟨⟨h1, h2⟩, h3, h4⟩ := hin
    omega
  have hat : (left ++ x :: right)[left.length]? = some x := by simp
  have hothers : left ++ right ≠ [] := by
    have hlength := hperm.length_eq
    rw [List.perm_middle.length_eq, List.length_cons] at hlength
    obtain ⟨⟨h1, h2⟩, h3, h4⟩ := hin
    exact List.ne_nil_of_length_pos (by omega)
  unfold reorderChanges
  rw [if_neg hguard, hmove]
  simp only [filterMap_id_map_some, ← hlen, hat, idealNumberBetween_neighbours hnumber]
  cases hideal : freeNumber left right with
  | some n => exact Or.inl ⟨n, between_of_freeNumber hsorted hideal, rfl, rfl⟩
  | none =>
    refine Or.inr ⟨?_, rfl, rfl⟩
    rintro ⟨n, hn⟩
    exact not_between_of_freeNumber hsorted hothers hideal n hn

/-- Of the numbers around the moved rule only its own changes. -/
theorem filter_moved (hother : ∀ r ∈ left ++ right, r.number ≠ x.number) (n : String) :
    (left.map (fun r => (r, r.number)) ++ (x, n) :: right.map fun r => (r, r.number)).filter
      (fun a => decide (a.1.number = x.number)) = [(x, n)] := by
  have hnone : ∀ rest ⊆ left ++ right, (rest.map fun r => (r, r.number)).filter
      (fun a => decide (a.1.number = x.number)) = [] := by
    intro rest hsub
    refine List.filter_eq_nil_iff.mpr fun a ha => ?_
    obtain ⟨r, hr, rfl⟩ := List.mem_map.mp ha
    simpa using hother r (hsub hr)
  rw [List.filter_append, List.filter_cons_of_pos (by simp),
    hnone left (List.subset_append_left _ _), hnone right (List.subset_append_right _ _)]
  rfl

theorem Moves.number_ne {rules : List FirewallRule} {fromIndex toIndex : ℤ}
    (hmoves : Moves rules fromIndex toIndex left x right)
    (hnodup : (rules.map FirewallRule.number).Nodup) :
    ∀ r ∈ left ++ right, r.number ≠ x.number := by
  intro r hr heq
  have hmoved := (hmoves.perm.map FirewallRule.number).nodup_iff.mpr hnodup
  rw [(List.perm_middle.map _).nodup_iff, List.map_cons, List.nodup_cons] at hmoved
  exact hmoved.1 (heq ▸ List.mem_map_of_mem hr)

/-- Every reorder assigns numbers in the order of the moved list, and leaves out
rules at most that keep theirs. -/
theorem exists_assigns (h : t.WellFormed) (hnum : Numbered (rulesAt ref t))
    (fromIndex toIndex : ℤ) :
    ∃ assign p, reorderChanges (rulesAt ref t) fromIndex toIndex = assign.filter p ∧
      Assigns ref t assign ∧ (∀ a ∈ assign, a.1.number ≠ a.2 → p a = true) ∧
      (assign.map Prod.fst).map some =
        if InRange (rulesAt ref t).length fromIndex toIndex then
          moveItem (rulesAt ref t) fromIndex toIndex
        else (rulesAt ref t).map some := by
  by_cases hmoves : InRange (rulesAt ref t).length fromIndex toIndex ∧ fromIndex ≠ toIndex
  swap
  · refine ⟨_, fun _ => false, by simp [reorderChanges_eq_nil hmoves], assigns_self hnum, ?_, ?_⟩
    · intro a ha hne
      obtain ⟨r, hr, rfl⟩ := List.mem_map.mp ha
      exact absurd rfl hne
    · have hself : ((rulesAt ref t).map fun r => (r, r.number)).map Prod.fst = rulesAt ref t := by
        simp [Function.comp_def]
      rw [hself]
      split_ifs with hin
      · obtain rfl : fromIndex = toIndex := by
          by_contra hne
          exact hmoves ⟨hin, hne⟩
        rw [moveItem_self hin.1.1 hin.1.2]
      · rfl
  obtain ⟨hin, hne⟩ := hmoves
  rw [if_pos hin]
  obtain ⟨left, x, right, hmoves, hsorted, ⟨n, hn, -, hchanges⟩ | ⟨-, -, hchanges⟩⟩ :=
    reorderChanges_cases hnum hin hne
  · have hother := hmoves.number_ne (numbers_nodup ref h)
    refine ⟨_, fun a => decide (a.1.number = x.number),
      hchanges.trans (filter_moved hother _).symm,
      assigns_between hsorted hmoves.perm hnum hn, ?_, ?_⟩
    · intro a ha hne
      simp only [List.mem_append, List.mem_map, List.mem_cons] at ha
      rcases ha with ⟨r, _, rfl⟩ | rfl | ⟨r, _, rfl⟩
      · exact absurd rfl hne
      · exact decide_eq_true rfl
      · exact absurd rfl hne
    · rw [hmoves.moved]
      simp [Function.comp_def]
  · refine ⟨_, fun c => decide (c.1.number ≠ c.2), hchanges, assigns_tens hmoves.perm, ?_, ?_⟩
    · intro a _ hne
      simpa using hne
    · have hfst : (left ++ x :: right).zipIdx.map Prod.fst = left ++ x :: right :=
        List.zipIdx_map_fst 0 _
      rw [hmoves.moved, List.map_map, List.map_map]
      show (left ++ x :: right).zipIdx.map (some ∘ Prod.fst) = _
      rw [← List.map_map, hfst]

/-- The rules a reorder inside the list renumbers, in terms of the rules and
the two positions: the moved one where a number is free for it, else all that
do not stand at their multiple of ten. -/
def Renumbered (rules : List FirewallRule) (fromIndex toIndex : ℤ) (r : FirewallRule) : Prop :=
  InRange rules.length fromIndex toIndex ∧ fromIndex ≠ toIndex ∧
    ∃ left x right, Moves rules fromIndex toIndex left x right ∧
      ((∃ n, Between left right n) ∧ r = x ∨
        (¬ ∃ n, Between left right n) ∧
          ∃ i, (left ++ x :: right)[i]? = some r ∧ r.number ≠ toString ((i + 1) * 10))

theorem Moves.unique {rules left' right' : List FirewallRule} {x' : FirewallRule}
    {fromIndex toIndex : ℤ} (h : Moves rules fromIndex toIndex left x right)
    (h' : Moves rules fromIndex toIndex left' x' right') :
    left = left' ∧ x = x' ∧ right = right' := by
  have hlists : left ++ x :: right = left' ++ x' :: right' :=
    List.map_injective_iff.mpr (Option.some_injective _) (h.moved.symm.trans h'.moved)
  obtain ⟨hleft, hright⟩ := List.append_inj hlists (h.length_left.trans h'.length_left.symm)
  rw [List.cons.injEq] at hright
  exact ⟨hleft, hright.1, hright.2⟩

/-- The rules a reorder renumbers and the numbers they take: the moved rule
takes the number found for it, and where there is none, each rule takes the
multiple of ten of its new position. -/
def Takes (rules : List FirewallRule) (fromIndex toIndex : ℤ) (r : FirewallRule) (n : String) :
    Prop :=
  InRange rules.length fromIndex toIndex ∧ fromIndex ≠ toIndex ∧
    ∃ left x right, Moves rules fromIndex toIndex left x right ∧
      ((∃ k, freeNumber left right = some k ∧ r = x ∧ n = toString k) ∨
        freeNumber left right = none ∧
          ∃ i, (left ++ x :: right)[i]? = some r ∧ n = toString ((i + 1) * 10) ∧ r.number ≠ n)

theorem mem_reorderChanges_iff (hnum : Numbered (rulesAt ref t)) {fromIndex toIndex : ℤ}
    {r : FirewallRule} {n : String} :
    (r, n) ∈ reorderChanges (rulesAt ref t) fromIndex toIndex ↔
      Takes (rulesAt ref t) fromIndex toIndex r n := by
  by_cases hguard : InRange (rulesAt ref t).length fromIndex toIndex ∧ fromIndex ≠ toIndex
  · obtain ⟨hin, hne⟩ := hguard
    obtain ⟨left, x, right, hmoves, -, hcases⟩ := reorderChanges_cases hnum hin hne
    have htakes : Takes (rulesAt ref t) fromIndex toIndex r n ↔
        (∃ k, freeNumber left right = some k ∧ r = x ∧ n = toString k) ∨
          freeNumber left right = none ∧
            ∃ i, (left ++ x :: right)[i]? = some r ∧ n = toString ((i + 1) * 10) ∧
              r.number ≠ n := by
      constructor
      · rintro ⟨-, -, left', x', right', hmoves', hr⟩
        obtain ⟨rfl, rfl, rfl⟩ := hmoves.unique hmoves'
        exact hr
      · exact fun hr => ⟨hin, hne, left, x, right, hmoves, hr⟩
    rw [htakes]
    rcases hcases with ⟨k, -, hfree, hchanges⟩ | ⟨-, hfree, hchanges⟩
    · simp [hchanges, hfree]
    · simp [hchanges, hfree, mem_tens]
  · rw [reorderChanges_eq_nil hguard]
    constructor
    · exact fun hn => absurd hn List.not_mem_nil
    · exact fun hr => absurd ⟨hr.1, hr.2.1⟩ hguard

theorem renumbered_iff (hnum : Numbered (rulesAt ref t)) {fromIndex toIndex : ℤ}
    {r : FirewallRule} :
    Renumbered (rulesAt ref t) fromIndex toIndex r ↔
      ∃ n, (r, n) ∈ reorderChanges (rulesAt ref t) fromIndex toIndex := by
  constructor
  · rintro ⟨hin, hne, left, x, right, hmoves, hr⟩
    obtain ⟨left', x', right', hmoves', -, hcases⟩ := reorderChanges_cases hnum hin hne
    obtain ⟨rfl, rfl, rfl⟩ := hmoves.unique hmoves'
    rcases hcases with ⟨k, hk, -, hchanges⟩ | ⟨hnone, -, hchanges⟩
    · obtain rfl := (hr.resolve_right fun h => h.1 ⟨k, hk⟩).2
      exact ⟨toString k, by simp [hchanges]⟩
    · obtain ⟨i, hi, hne'⟩ := (hr.resolve_left fun h => hnone h.1).2
      exact ⟨_, by rw [hchanges, mem_tens]; exact ⟨i, hi, rfl, hne'⟩⟩
  · rintro ⟨n, hn⟩
    obtain ⟨hin, hne, -⟩ := (mem_reorderChanges_iff hnum).mp hn
    obtain ⟨left, x, right, hmoves, -, hcases⟩ := reorderChanges_cases hnum hin hne
    refine ⟨hin, hne, left, x, right, hmoves, ?_⟩
    rcases hcases with ⟨k, hk, -, hchanges⟩ | ⟨hnone, -, hchanges⟩
    · rw [hchanges, List.mem_singleton, Prod.mk.injEq] at hn
      exact Or.inl ⟨⟨k, hk⟩, hn.1⟩
    · rw [hchanges, mem_tens] at hn
      obtain ⟨i, hi, rfl, hne'⟩ := hn
      exact Or.inr ⟨hnone, i, hi, hne'⟩

end Strategies

/-- The configuration after a reorder is committed. -/
def reordered (S : Schema) (t : ConfigTree) (ref : RulesetRef) (rules : List FirewallRule)
    (fromIndex toIndex : ℤ) : ConfigTree :=
  applyOps S t (reorderRuleOps ref rules fromIndex toIndex)

section Reordered

variable {S : Schema} {ref : RulesetRef} {t : ConfigTree} {fromIndex toIndex : ℤ}

theorem mem_rules_of_reorderChanges (h : t.WellFormed) (hnum : Numbered (rulesAt ref t))
    {c : FirewallRule × String} (hc : c ∈ reorderChanges (rulesAt ref t) fromIndex toIndex) :
    c.1 ∈ rulesAt ref t := by
  obtain ⟨assign, p, hchanges, ha, -⟩ := exists_assigns h hnum fromIndex toIndex
  rw [hchanges] at hc
  exact ha.mem_rules (List.mem_filter.mp hc).1

/-- What is not below a number that a reorder names stays. -/
theorem reordered_frame (h : t.WellFormed) (hnum : Numbered (rulesAt ref t)) {p : Path}
    (hp : ∀ c ∈ reorderChanges (rulesAt ref t) fromIndex toIndex,
      ¬ rulePath ref c.1.number [] <+: p ∧ ¬ rulePath ref c.2 [] <+: p) :
    (reordered S t ref (rulesAt ref t) fromIndex toIndex).store p = t.store p := by
  have hchanges : ∀ c ∈ reorderChanges (rulesAt ref t) fromIndex toIndex, c.1 ∈ rulesAt ref t :=
    fun c hc => mem_rules_of_reorderChanges h hnum hc
  rw [reordered, reorderRuleOps, store_applyOps]
  cases hlist : reorderChanges (rulesAt ref t) fromIndex toIndex with
  | nil => rfl
  | cons c rest =>
    rw [hlist] at hp hchanges
    refine run_changeOps_outside S (fun c' hc' => raw_isSome h (hchanges c' hc')) hp ?_
    intro habove
    obtain ⟨d, hd, -⟩ := (mem_rulesAt h).mp (hchanges c List.mem_cons_self)
    have hbelow : p <+: rulePath ref c.1.number [] := by
      rw [rulePath_eq]
      exact habove.trans (List.prefix_append _ _)
    have hne : p ≠ rulePath ref c.1.number [] := by
      rintro rfl
      exact (hp c List.mem_cons_self).1 (List.prefix_refl _)
    exact ConfigTree.store_above hbelow hne (by rw [hd]; rfl)

end Reordered

/-- A reorder inside the ruleset is exactly a list move, and one outside it
does nothing. The numbers stay positive integers in ascending order, and only
what is below an old or a new number of a changed rule can differ. -/
theorem reorder_moves (S : Schema) {t : ConfigTree} (h : t.WellFormed) {rs : FirewallRuleset}
    (hrs : rs ∈ parseRulesets (t.get ["firewall"])) (hnum : Numbered rs.rules)
    (hblank : ∀ r ∈ rs.rules, NoBlank r) (hallowed : Allowed S t) (huniform : Uniform S rs.ref)
    (fromIndex toIndex : ℤ) :
    (rulesAt rs.ref (reordered S t rs.ref rs.rules fromIndex toIndex)).map (some ∘ bodyOf) =
        (if InRange rs.rules.length fromIndex toIndex then
          moveItem (rs.rules.map bodyOf) fromIndex toIndex
        else rs.rules.map (some ∘ bodyOf)) ∧
      Numbered (rulesAt rs.ref (reordered S t rs.ref rs.rules fromIndex toIndex)) ∧
      ∀ p, (∀ c ∈ reorderChanges rs.rules fromIndex toIndex,
          ¬ rulePath rs.ref c.1.number [] <+: p ∧ ¬ rulePath rs.ref c.2 [] <+: p) →
        (reordered S t rs.ref rs.rules fromIndex toIndex).store p = t.store p := by
  have hrules : rs.rules = rulesAt rs.ref t := rules_of_mem_parseRulesets h.keys_nodup hrs
  rw [hrules] at hnum hblank ⊢
  obtain ⟨assign, p, hchanges, ha, hp, hmoved⟩ := exists_assigns h hnum fromIndex toIndex
  have hread : (rulesAt rs.ref (reordered S t rs.ref (rulesAt rs.ref t) fromIndex toIndex)).map
      (fun r => (r.number, bodyOf r)) = assign.map fun a => (a.2, bodyOf a.1) := by
    rw [reordered, reorderRuleOps, hchanges]
    refine ha.rulesAt_applyOps h hp fun a hmem _ c hc => ?_
    have hr := ha.mem_rules hmem
    exact replayable S h hallowed huniform hr (hblank a.1 hr) a.2 hc
  have hnumbers : ∀ f : String → ℕ,
      (rulesAt rs.ref (reordered S t rs.ref (rulesAt rs.ref t) fromIndex toIndex)).map
        (fun r => f r.number) = assign.map fun a => f a.2 := by
    intro f
    simpa only [List.map_map, Function.comp_def] using congrArg (List.map fun a => f a.1) hread
  refine ⟨?_, ⟨?_, ?_⟩, fun q hq => reordered_frame h hnum hq⟩
  · have hright : (if InRange (rulesAt rs.ref t).length fromIndex toIndex then
        moveItem ((rulesAt rs.ref t).map bodyOf) fromIndex toIndex
        else (rulesAt rs.ref t).map (some ∘ bodyOf)) =
          assign.map fun a => some (bodyOf a.1) := by
      split_ifs at hmoved ⊢
      · rw [moveItem_map, ← hmoved, List.map_map, List.map_map]
        rfl
      · have hself : assign.map Prod.fst = rulesAt rs.ref t :=
          List.map_injective_iff.mpr (Option.some_injective _) hmoved
        rw [← hself, List.map_map]
        rfl
    rw [hright]
    simpa [Function.comp_def] using congrArg (List.map fun a => some a.2) hread
  · intro r hr
    have hrank : rank r.number ∈ assign.map fun a => rank a.2 := by
      rw [← hnumbers rank]
      exact List.mem_map_of_mem hr
    obtain ⟨a, hmem, heq⟩ := List.mem_map.mp hrank
    exact heq ▸ ha.positive a hmem
  · rw [hnumbers rank]
    exact List.pairwise_map.mpr (ha.ascending.imp ne_of_lt)

/-- Two rules of the forward chain, the first with the given leaves. -/
def twoRules (first : List (String × ConfigTree)) : ConfigTree :=
  .node [("firewall", .node [("ipv4", .node [("forward", .node [("filter", .node
    [("rule", .node [("10", .node first), ("20", .node [("action", .leaf "drop")])])])])])])]

theorem store_oneLeaf {k v : String} {q : Path} {vs : List String}
    (h : (ConfigTree.node [(k, .leaf v)]).store q = some vs) :
    q = [] ∧ vs = [] ∨ q = [k] ∧ vs = [v] := by
  cases q with
  | nil =>
    rw [ConfigTree.store_nil, Option.some.injEq] at h
    exact Or.inl ⟨rfl, h.symm⟩
  | cons l q =>
    rw [ConfigTree.store_cons] at h
    obtain ⟨c, hc, hcq⟩ := Option.bind_eq_some_iff.mp h
    obtain ⟨rfl, rfl⟩ : l = k ∧ c = .leaf v := by
      simpa using mem_of_lookup_eq_some hc
    cases q with
    | nil => exact Or.inr ⟨rfl, (Option.some.inj hcq).symm⟩
    | cons m q => cases hcq

theorem noBlank_leaf {r : FirewallRule} {k v : String} (hr : r.raw = some (.node [(k, .leaf v)]))
    (hv : v ≠ "") : NoBlank r := by
  intro q vs hq
  simp only [bodyOf, hr] at hq
  rcases store_oneLeaf hq with ⟨-, rfl⟩ | ⟨-, rfl⟩
  · exact List.not_mem_nil
  · simpa using hv.symm

/-- The second of two rules goes to the front. -/
theorem reorder_moves_second :
    ∃ rs ∈ parseRulesets ((twoRules [("action", .leaf "accept")]).get ["firewall"]),
      (rulesAt rs.ref (reordered ⟨fun _ => true⟩ (twoRules [("action", .leaf "accept")]) rs.ref
        rs.rules 1 0)).map (some ∘ bodyOf) = moveItem (rs.rules.map bodyOf) 1 0 := by
  have hmem := List.head_mem (l := parseRulesets
    ((twoRules [("action", .leaf "accept")]).get ["firewall"])) (by decide)
  refine ⟨_, hmem, ?_⟩
  have hblank : ∀ r ∈ [parseRule .ipv4 "10" (some (.node [("action", .leaf "accept")])),
      parseRule .ipv4 "20" (some (.node [("action", .leaf "drop")]))], NoBlank r := by
    intro r hr
    rcases List.mem_cons.mp hr with rfl | hr
    · exact noBlank_leaf rfl (by decide)
    · rw [List.mem_singleton.mp hr]
      exact noBlank_leaf rfl (by decide)
  exact (reorder_moves ⟨fun _ => true⟩ (by decide) hmem (by constructor <;> decide) hblank
    (fun _ _ _ _ => rfl) (fun _ _ _ => rfl) 1 0).1

/-- Outside the list `moveItem` moves and the reorder does not; and an empty
value is replayed as no value. -/
theorem reorder_not_moveItem :
    (rulesAt forwardChain (reordered ⟨fun _ => true⟩ (twoRules [("action", .leaf "accept")])
        forwardChain (rulesAt forwardChain (twoRules [("action", .leaf "accept")])) 0 5)).map
          (some ∘ bodyOf) ≠
        moveItem ((rulesAt forwardChain (twoRules [("action", .leaf "accept")])).map bodyOf) 0 5 ∧
      (rulesAt forwardChain (reordered ⟨fun _ => true⟩ (twoRules [("description", .leaf "")])
        forwardChain (rulesAt forwardChain (twoRules [("description", .leaf "")])) 0 1)).map
          (some ∘ bodyOf) ≠
        moveItem ((rulesAt forwardChain (twoRules [("description", .leaf "")])).map bodyOf) 0
          1 := by
  constructor
  · intro heq
    have hread := congrArg (List.map (Option.map fun s : Store String String => s ["action"])) heq
    revert hread
    decide
  · intro heq
    have hread := congrArg (List.map (Option.map fun s : Store String String =>
      s ["description"])) heq
    revert hread
    decide

end VyosClient.RuleReorder
