import Mathlib.Data.List.Infix

/-!
Borders of the prefixes of a list: the shorter prefixes that are also suffixes.
The borders of a prefix are nested, so the next shorter one is a border of the
longer; and a border of the prefix one letter longer extends one that is
followed by the same letter. The overlaps of two lists are the borders of both,
joined by a separator.
-/

namespace VyosClient.Borders

variable {α : Type*} {w : List α} {n k m : ℕ}

/-- The prefix of length `k` is a proper border of that of length `n`. -/
def Border (w : List α) (n k : ℕ) : Prop := k < n ∧ w.take k <:+ w.take n

structure LongestBorder (w : List α) (n k : ℕ) : Prop where
  border : Border w n k
  longest : ∀ m, Border w n m → m ≤ k

theorem border_zero (w : List α) (hn : 0 < n) : Border w n 0 := by
  refine ⟨hn, ?_⟩
  rw [List.take_zero]
  exact List.nil_suffix

theorem longestBorder_one (w : List α) : LongestBorder w 1 0 :=
  ⟨border_zero w Nat.one_pos, fun _ hm => Nat.le_of_lt_succ hm.1⟩

theorem border_trans (hk : Border w n k) (hm : Border w k m) : Border w n m :=
  ⟨Nat.lt_trans hm.1 hk.1, hm.2.trans hk.2⟩

/-- Of two borders of a prefix the shorter is a border of the longer. -/
theorem border_of_lt (hk : Border w n k) (hm : Border w n m) (hlt : m < k) : Border w k m := by
  refine ⟨hlt, List.suffix_of_suffix_length_le hm.2 hk.2 ?_⟩
  rw [List.length_take, List.length_take]
  omega

theorem take_succ_of_getElem? {c : α} (h : w[n]? = some c) : w.take (n + 1) = w.take n ++ [c] := by
  rw [List.take_add_one, h]
  rfl

/-- A border of the next prefix extends a border that is followed by the same letter. -/
theorem border_succ (hn : n < w.length) :
    Border w (n + 1) (k + 1) ↔ Border w n k ∧ w[k]? = w[n]? := by
  have hlast : w.take (n + 1) = w.take n ++ [w[n]] :=
    take_succ_of_getElem? (List.getElem?_eq_getElem hn)
  constructor
  · rintro ⟨hlt, hsuffix⟩
    have hk : k < w.length := by omega
    have hnext : w.take (k + 1) = w.take k ++ [w[k]] :=
      take_succ_of_getElem? (List.getElem?_eq_getElem hk)
    rw [hlast, hnext] at hsuffix
    obtain ⟨p, hp⟩ := hsuffix
    rw [← List.append_assoc] at hp
    obtain ⟨hinit, hletter⟩ := List.append_inj' hp rfl
    refine ⟨⟨by omega, p, hinit⟩, ?_⟩
    rw [List.getElem?_eq_getElem hk, List.getElem?_eq_getElem hn]
    exact congrArg some (List.cons.inj hletter).1
  · rintro ⟨⟨hlt, p, hp⟩, hletter⟩
    refine ⟨by omega, p, ?_⟩
    rw [List.getElem?_eq_getElem hn] at hletter
    rw [hlast, take_succ_of_getElem? hletter, ← List.append_assoc, hp]

/-- The step of the search for the longest border of the next prefix: a border after which no longer
one can be extended either extends itself, or it is empty and so is the next one. -/
theorem longestBorder_succ (hn : n < w.length) (hk : Border w n k)
    (hlongest : ∀ m, Border w (n + 1) (m + 1) → m ≤ k) :
    (w[k]? = w[n]? → LongestBorder w (n + 1) (k + 1)) ∧
      (k = 0 → w[k]? ≠ w[n]? → LongestBorder w (n + 1) 0) := by
  refine ⟨fun hletter => ⟨(border_succ hn).mpr ⟨hk, hletter⟩, fun m hm => ?_⟩,
    fun hzero hletter => ⟨border_zero w (Nat.succ_pos n), fun m hm => ?_⟩⟩
  · cases m with
    | zero => exact Nat.zero_le _
    | succ m => exact Nat.succ_le_succ (hlongest m hm)
  · cases m with
    | zero => exact Nat.le_refl 0
    | succ m =>
      have hm0 : m = k := by
        have hle := hlongest m hm
        omega
      rw [hm0] at hm
      exact absurd ((border_succ hn).mp hm).2 hletter

/-- A border that cannot be extended gives way to its own longest border. -/
theorem le_of_longestBorder {j : ℕ} (hn : n < w.length) (hk : Border w n k)
    (hlongest : ∀ m, Border w (n + 1) (m + 1) → m ≤ k) (hletter : w[k]? ≠ w[n]?)
    (hj : LongestBorder w k j) : ∀ m, Border w (n + 1) (m + 1) → m ≤ j := by
  intro m hm
  obtain ⟨hborder, hsame⟩ := (border_succ hn).mp hm
  have hne : m ≠ k := by
    rintro rfl
    exact hletter hsame
  have hle := hlongest m hm
  exact hj.longest m (border_of_lt hk hborder (by omega))

/-- With a separator that neither part has, the borders of the joined list are the overlaps of the
second part with the first. -/
theorem border_separated {sep : α} {front back : List α} (hfront : sep ∉ front)
    (hback : sep ∉ back) :
    Border (front ++ sep :: back) (front ++ sep :: back).length k ↔
      k ≤ front.length ∧ front.take k <:+ back := by
  have hback_suffix : back <:+ front ++ sep :: back := ⟨front ++ [sep], by simp⟩
  unfold Border
  rw [List.take_length]
  constructor
  · rintro ⟨hlt, hsuffix⟩
    rw [List.length_append, List.length_cons] at hlt
    have hle : k ≤ front.length := by
      by_contra hgt
      -- the separator of the prefix would stand inside the second part
      obtain ⟨j, rfl⟩ : ∃ j, k = front.length + (j + 1) := ⟨k - front.length - 1, by omega⟩
      rw [List.take_length_add_append, List.take_succ_cons] at hsuffix
      have hrest : sep :: back.take j <:+ back := by
        refine List.suffix_of_suffix_length_le ((List.suffix_append _ _).trans hsuffix)
          hback_suffix ?_
        rw [List.length_cons, List.length_take]
        omega
      exact hback (hrest.subset List.mem_cons_self)
    rw [List.take_append_of_le_length hle] at hsuffix
    refine ⟨hle, List.suffix_of_suffix_length_le hsuffix hback_suffix ?_⟩
    by_contra hlong
    have hsep : sep :: back <:+ front.take k := by
      refine List.suffix_of_suffix_length_le (List.suffix_append _ _) hsuffix ?_
      rw [List.length_cons]
      omega
    exact hfront (List.mem_of_mem_take (hsep.subset List.mem_cons_self))
  · rintro ⟨hle, hsuffix⟩
    rw [List.take_append_of_le_length hle, List.length_append, List.length_cons]
    exact ⟨by omega, hsuffix.trans hback_suffix⟩

/-- The longest prefix of the second list that is a suffix of the first. -/
structure LongestOverlap (previous next : List α) (k : ℕ) : Prop where
  le_length : k ≤ next.length
  suffix : next.take k <:+ previous
  longest : ∀ m ≤ next.length, next.take m <:+ previous → m ≤ k

theorem LongestOverlap.length_le {previous next s : List α} {k : ℕ}
    (h : LongestOverlap previous next k) (hsuffix : s <:+ previous) (hpre : s <+: next) :
    s.length ≤ k := by
  apply h.longest s.length hpre.length_le
  rwa [← List.prefix_iff_eq_take.mp hpre]

theorem map_some_suffix {xs ys : List α} : xs.map some <:+ ys.map some ↔ xs <:+ ys :=
  ⟨fun h => by simpa using h.filterMap id, fun h => h.map some⟩

theorem none_notMem_map_some (xs : List α) : none ∉ xs.map some := by
  intro h
  obtain ⟨x, -, hx⟩ := List.mem_map.mp h
  cases hx

/-- Only the end of the first list can overlap the second. -/
theorem take_suffix_tail {previous next : List α} {k : ℕ} (hk : k ≤ next.length) :
    next.take k <:+ previous.drop (previous.length - min previous.length next.length) ↔
      next.take k <:+ previous := by
  refine ⟨fun h => h.trans (List.drop_suffix _ _), fun h => ?_⟩
  refine List.suffix_of_suffix_length_le h (List.drop_suffix _ _) ?_
  have hle := h.length_le
  rw [List.length_take] at hle ⊢
  rw [List.length_drop]
  omega

end VyosClient.Borders
