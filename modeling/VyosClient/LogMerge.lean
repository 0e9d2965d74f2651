import VyosClient.Borders

/-!
The merge of a polled log window onto the lines on display. The longest overlap
is read off a failure function over the window, a separator and the end of the
display; the pass is shown to compute the longest border of every prefix, so the
merge appends exactly what follows the longest overlap.
-/

namespace VyosClient.LogMerge

open Borders

variable {α : Type*} [DecidableEq α]

/-- The loop `while (j > 0 && combined[i] !== combined[j]) j = failure[j - 1]`. -/
def fallBack (combined : List (Option α)) (failure : List ℕ) (i : ℕ) : ℕ → ℕ → ℕ
  | 0, j => j
  | fuel + 1, j =>
    if 0 < j ∧ combined[i]? ≠ combined[j]? then
      fallBack combined failure i fuel (failure.getD (j - 1) 0)
    else j

/-- The value of `failure[i]`; the loop turns at most as often as it starts above zero. -/
def nextFailure (combined : List (Option α)) (failure : List ℕ) (i : ℕ) : ℕ :=
  let j := failure.getD (i - 1) 0
  let j := fallBack combined failure i j j
  if combined[i]? = combined[j]? then j + 1 else j

def failureFunction (combined : List (Option α)) : List ℕ :=
  (List.range' 1 (combined.length - 1)).foldl
    (fun failure i => failure.set i (nextFailure combined failure i))
    (List.replicate combined.length 0)

def longestSuffixPrefixOverlap (previous next : List α) : ℕ :=
  let bound := min previous.length next.length
  if bound = 0 then 0
  else
    let tailOfPrevious := previous.drop (previous.length - bound)
    -- `none` is the separator, which no line equals
    let combined := next.map some ++ none :: tailOfPrevious.map some
    (failureFunction combined).getD (combined.length - 1) 0

def mergeLogLines (previous next : List α) : List α :=
  if previous.length = 0 ∨ next.length = 0 then next
  else
    let overlap := longestSuffixPrefixOverlap previous next
    if overlap = 0 then next else previous ++ next.drop overlap

section FailureFunction

variable {w : List (Option α)} {failure : List ℕ} {i j : ℕ}

/-- The loop stops at a border that either is empty or is followed by the letter at `i`; it drops only
borders that cannot be extended. -/
theorem fallBack_spec (hi : i < w.length)
    (hfailure : ∀ m < i, LongestBorder w (m + 1) (failure.getD m 0)) (fuel : ℕ) (hfuel : j ≤ fuel)
    (hj : Border w i j) (hlongest : ∀ m, Border w (i + 1) (m + 1) → m ≤ j) :
    Border w i (fallBack w failure i fuel j) ∧
      (∀ m, Border w (i + 1) (m + 1) → m ≤ fallBack w failure i fuel j) ∧
      (fallBack w failure i fuel j = 0 ∨ w[i]? = w[fallBack w failure i fuel j]?) := by
  induction fuel generalizing j with
  | zero => exact ⟨hj, hlongest, Or.inl (Nat.le_zero.mp hfuel)⟩
  | succ fuel ih =>
    unfold fallBack
    by_cases hloop : 0 < j ∧ w[i]? ≠ w[j]?
    · rw [if_pos hloop]
      obtain ⟨hpos, hletter⟩ := hloop
      have hj' : LongestBorder w j (failure.getD (j - 1) 0) := by
        have h := hfailure (j - 1) (by have := hj.1; omega)
        rwa [Nat.sub_add_cancel hpos] at h
      have hlt := hj'.border.1
      exact ih (by omega) (border_trans hj hj'.border)
        (le_of_longestBorder hi hj hlongest (Ne.symm hletter) hj')
    · rw [if_neg hloop]
      refine ⟨hj, hlongest, ?_⟩
      by_cases hzero : j = 0
      · exact Or.inl hzero
      · exact Or.inr (not_not.mp fun hletter => hloop ⟨Nat.pos_of_ne_zero hzero, hletter⟩)

/-- Each pass of the outer loop finds the longest border of one prefix more. -/
theorem nextFailure_spec (hi : i < w.length) (hpos : 0 < i)
    (hfailure : ∀ m < i, LongestBorder w (m + 1) (failure.getD m 0)) :
    LongestBorder w (i + 1) (nextFailure w failure i) := by
  have hlast : LongestBorder w i (failure.getD (i - 1) 0) := by
    have h := hfailure (i - 1) (by omega)
    rwa [Nat.sub_add_cancel hpos] at h
  have hall : ∀ m, Border w (i + 1) (m + 1) → m ≤ failure.getD (i - 1) 0 :=
    fun m hm => hlast.longest m ((border_succ hi).mp hm).1
  obtain ⟨hborder, hlongest, hstop⟩ :=
    fallBack_spec hi hfailure (failure.getD (i - 1) 0) le_rfl hlast.border hall
  obtain ⟨hextend, hempty⟩ := longestBorder_succ hi hborder hlongest
  unfold nextFailure
  dsimp only
  by_cases hletter : w[i]? = w[fallBack w failure i (failure.getD (i - 1) 0)
      (failure.getD (i - 1) 0)]?
  · rw [if_pos hletter]
    exact hextend hletter.symm
  · rw [if_neg hletter]
    obtain hzero | hsame := hstop
    · have hnone := hempty hzero (Ne.symm hletter)
      rwa [hzero]
    · exact absurd hsame hletter

theorem failureFunction_pass (w : List (Option α)) (n : ℕ) (hn : n < w.length) :
    ((List.range' 1 n).foldl (fun failure i => failure.set i (nextFailure w failure i))
        (List.replicate w.length 0)).length = w.length ∧
      ∀ m < n + 1, LongestBorder w (m + 1)
        (((List.range' 1 n).foldl (fun failure i => failure.set i (nextFailure w failure i))
          (List.replicate w.length 0)).getD m 0) := by
  induction n with
  | zero =>
    refine ⟨List.length_replicate, fun m hm => ?_⟩
    rw [Nat.lt_one_iff.mp hm, List.range'_zero, List.foldl_nil, List.getD_eq_getElem?_getD,
      List.getElem?_replicate_of_lt hn]
    exact longestBorder_one w
  | succ n ih =>
    obtain ⟨hlen, hfailure⟩ := ih (by omega)
    rw [List.range'_1_concat, List.foldl_append, List.foldl_cons, List.foldl_nil, Nat.add_comm 1 n]
    refine ⟨by rw [List.length_set, hlen], fun m hm => ?_⟩
    by_cases hnew : m = n + 1
    · rw [hnew, List.getD_eq_getElem?_getD, List.getElem?_set_self (by omega)]
      exact nextFailure_spec hn (Nat.succ_pos n) hfailure
    · rw [List.getD_eq_getElem?_getD, List.getElem?_set_ne (Ne.symm hnew),
        ← List.getD_eq_getElem?_getD]
      exact hfailure m (by omega)

theorem failureFunction_last (h : w ≠ []) :
    LongestBorder w w.length ((failureFunction w).getD (w.length - 1) 0) := by
  have hpos := List.length_pos_of_ne_nil h
  have hlast := (failureFunction_pass w (w.length - 1) (by omega)).2 (w.length - 1) (by omega)
  rwa [Nat.sub_add_cancel hpos] at hlast

end FailureFunction

theorem longestSuffixPrefixOverlap_spec (previous next : List α) :
    LongestOverlap previous next (longestSuffixPrefixOverlap previous next) := by
  unfold longestSuffixPrefixOverlap
  dsimp only
  by_cases hbound : min previous.length next.length = 0
  · rw [if_pos hbound]
    refine ⟨Nat.zero_le _, List.nil_suffix, fun m hm hsuffix => ?_⟩
    have hle := hsuffix.length_le
    rw [List.length_take] at hle
    omega
  · rw [if_neg hbound]
    have hseparated : ∀ k, Border (next.map some ++ none ::
        (previous.drop (previous.length - min previous.length next.length)).map some)
          (next.map some ++ none ::
            (previous.drop (previous.length - min previous.length next.length)).map some).length k ↔
        k ≤ next.length ∧ next.take k <:+ previous := by
      intro k
      rw [border_separated (none_notMem_map_some _) (none_notMem_map_some _), List.length_map,
        ← List.map_take, map_some_suffix]
      exact and_congr_right fun hk => take_suffix_tail hk
    have hlast := @failureFunction_last α _ (next.map some ++ none ::
      (previous.drop (previous.length - min previous.length next.length)).map some) (by simp)
    obtain ⟨hle, hsuffix⟩ := (hseparated _).mp hlast.border
    exact ⟨hle, hsuffix, fun m hm hm' => hlast.longest m ((hseparated m).mpr ⟨hm, hm'⟩)⟩

/-- What the merge is for, without its failure function: the window, or the display followed by what
the longest suffix of it that begins the window leaves of the window. -/
inductive NaiveMerge (previous next : List α) : List α → Prop
  | next (h : previous = [] ∨ next = [] ∨ ∀ s, s ≠ [] → s <:+ previous → ¬ s <+: next) :
      NaiveMerge previous next next
  | append {s : List α} (hne : s ≠ []) (hsuffix : s <:+ previous) (hpre : s <+: next)
      (hlongest : ∀ t, t <:+ previous → t <+: next → t.length ≤ s.length) :
      NaiveMerge previous next (previous ++ next.drop s.length)

theorem mergeLogLines_naive (previous next : List α) :
    NaiveMerge previous next (mergeLogLines previous next) := by
  unfold mergeLogLines
  by_cases hempty : previous.length = 0 ∨ next.length = 0
  · rw [if_pos hempty]
    obtain hprevious | hnext := hempty
    · exact .next (Or.inl (List.length_eq_zero_iff.mp hprevious))
    · exact .next (Or.inr (Or.inl (List.length_eq_zero_iff.mp hnext)))
  · rw [if_neg hempty]
    have hspec := longestSuffixPrefixOverlap_spec previous next
    dsimp only
    by_cases hzero : longestSuffixPrefixOverlap previous next = 0
    · rw [if_pos hzero]
      refine .next (Or.inr (Or.inr fun s hne hsuffix hpre => ?_))
      have hle := hspec.length_le hsuffix hpre
      exact hne (List.length_eq_zero_iff.mp (by omega))
    · rw [if_neg hzero]
      have hlen : (next.take (longestSuffixPrefixOverlap previous next)).length =
          longestSuffixPrefixOverlap previous next := List.length_take_of_le hspec.le_length
      have happend : NaiveMerge previous next (previous ++ next.drop
          (next.take (longestSuffixPrefixOverlap previous next)).length) := by
        refine .append ?_ hspec.suffix (List.take_prefix _ next) fun t hsuffix hpre => ?_
        · exact List.ne_nil_of_length_pos (by omega)
        · rw [hlen]
          exact hspec.length_le hsuffix hpre
      rwa [hlen] at happend

/-- The merge appends what follows an overlap, or starts again from the window. -/
theorem mergeLogLines_cases (previous next : List α) :
    mergeLogLines previous next = next ∨
      ∃ k, 0 < k ∧ k ≤ next.length ∧ next.take k <:+ previous ∧
        mergeLogLines previous next = previous ++ next.drop k := by
  have h := mergeLogLines_naive previous next
  generalize mergeLogLines previous next = r at h ⊢
  cases h with
  | next => exact Or.inl rfl
  | @append s hne hsuffix hpre =>
    refine Or.inr ⟨s.length, List.length_pos_iff.mpr hne, hpre.length_le, ?_, rfl⟩
    rwa [← List.prefix_iff_eq_take.mp hpre]

omit [DecidableEq α] in
/-- Two longest overlaps of one display and one window are equally long. -/
theorem NaiveMerge.unique {previous next r r' : List α} (h : NaiveMerge previous next r)
    (h' : NaiveMerge previous next r') : r = r' := by
  have hdisjoint : ∀ s : List α, s ≠ [] → s <:+ previous → s <+: next →
      ¬ (previous = [] ∨ next = [] ∨ ∀ s, s ≠ [] → s <:+ previous → ¬ s <+: next) := by
    rintro s hne hsuffix hpre (hprevious | hnext | hnone)
    · exact hne (List.suffix_nil.mp (hprevious ▸ hsuffix))
    · exact hne (List.prefix_nil.mp (hnext ▸ hpre))
    · exact hnone s hne hsuffix hpre
  cases h with
  | next hnext =>
    cases h' with
    | next => rfl
    | append hne hsuffix hpre => exact absurd hnext (hdisjoint _ hne hsuffix hpre)
  | append hne hsuffix hpre hlongest =>
    cases h' with
    | next hnext => exact absurd hnext (hdisjoint _ hne hsuffix hpre)
    | append hne' hsuffix' hpre' hlongest' =>
      rw [Nat.le_antisymm (hlongest' _ hsuffix hpre) (hlongest _ hsuffix' hpre')]

/-- The merge returns what the naive description does, and nothing else meets that description. -/
theorem mergeLogLines_eq_iff (previous next r : List α) :
    mergeLogLines previous next = r ↔ NaiveMerge previous next r := by
  constructor
  · intro h
    rw [← h]
    exact mergeLogLines_naive previous next
  · exact (mergeLogLines_naive previous next).unique

example : mergeLogLines ["x", "a", "b", "a", "b"] ["a", "b", "a", "b", "c"] =
    ["x", "a", "b", "a", "b", "c"] := by
  decide

end VyosClient.LogMerge
