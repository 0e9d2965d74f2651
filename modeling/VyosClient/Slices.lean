import Mathlib.Data.List.Basic
import Mathlib.Tactic.Common

/-!
Slices that grow by `append`. A slice is the front part of an array: appending
writes into the array where there is room behind the slice, and copies the slice
into a new array where there is none. Slices that grew out of the same one may
share their array, so what stands behind a slice is never its own.
-/

namespace VyosClient.Slices

variable {α : Type*}

/-- The arrays allocated so far. The length of an array is its capacity. -/
abbrev Heap (α : Type*) := List (List α)

structure Slice where
  array : ℕ
  len : ℕ
  deriving DecidableEq, Repr

def cells (h : Heap α) (i : ℕ) : List α := (h[i]?).getD []

def read (h : Heap α) (s : Slice) : List α := (cells h s.array).take s.len

structure Valid (h : Heap α) (s : Slice) : Prop where
  allocated : s.array < h.length
  fits : s.len ≤ (cells h s.array).length

/-- `append(s, x)`; `spare` is the room a new array is given beyond the slice. -/
def append (spare : Slice → List α) (h : Heap α) (s : Slice) (x : α) : Heap α × Slice :=
  if s.len < (cells h s.array).length then
    (h.set s.array ((cells h s.array).set s.len x), ⟨s.array, s.len + 1⟩)
  else (h ++ [read h s ++ x :: spare s], ⟨h.length, s.len + 1⟩)

/-- All that may change while a slice is in use: cells behind it, and new arrays. -/
structure Behind (s : Slice) (h h' : Heap α) : Prop where
  grows : h.length ≤ h'.length
  capacity : ∀ i < h.length, (cells h' i).length = (cells h i).length
  front : read h' s = read h s
  others : ∀ i < h.length, i ≠ s.array → cells h' i = cells h i

section Cells

variable {h : Heap α} {i : ℕ} {a : List α}

theorem cells_set (hi : i < h.length) (j : ℕ) :
    cells (h.set i a) j = if i = j then a else cells h j := by
  unfold cells
  by_cases hj : i = j
  · subst hj
    simp [hi]
  · simp [hj]

theorem cells_append (hi : i < h.length) : cells (h ++ [a]) i = cells h i := by
  unfold cells
  rw [List.getElem?_append_left hi]

theorem cells_append_length : cells (h ++ [a]) h.length = a := by
  simp [cells]

end Cells

theorem Behind.refl (s : Slice) (h : Heap α) : Behind s h h :=
  ⟨Nat.le_refl _, fun _ _ => rfl, rfl, fun _ _ _ => rfl⟩

theorem Behind.trans {s : Slice} {h h' h'' : Heap α} (hab : Behind s h h')
    (hbc : Behind s h' h'') : Behind s h h'' where
  grows := Nat.le_trans hab.grows hbc.grows
  capacity i hi := (hbc.capacity i (Nat.lt_of_lt_of_le hi hab.grows)).trans (hab.capacity i hi)
  front := hbc.front.trans hab.front
  others i hi hne := (hbc.others i (Nat.lt_of_lt_of_le hi hab.grows) hne).trans (hab.others i hi hne)

/-- A slice stays usable whatever happens behind it. -/
theorem Valid.behind {s : Slice} {h h' : Heap α} (hv : Valid h s) (hb : Behind s h h') :
    Valid h' s := by
  refine ⟨Nat.lt_of_lt_of_le hv.allocated hb.grows, ?_⟩
  rw [hb.capacity s.array hv.allocated]
  exact hv.fits

theorem length_read {h : Heap α} {s : Slice} (hv : Valid h s) : (read h s).length = s.len := by
  have hfits := hv.fits
  simp only [read, List.length_take]
  omega

section Append

variable (spare : Slice → List α) {h : Heap α} {s : Slice}

theorem read_append (hv : Valid h s) (x : α) :
    read (append spare h s x).1 (append spare h s x).2 = read h s ++ [x] := by
  unfold append
  split_ifs with hroom
  · have hset : cells (h.set s.array ((cells h s.array).set s.len x)) s.array =
        (cells h s.array).set s.len x := by
      rw [cells_set hv.allocated, if_pos rfl]
    simp only [read, hset]
    rw [List.take_add_one, List.getElem?_set_self hroom, List.take_set_of_le (Nat.le_refl _)]
    rfl
  · have hsplit : read h s ++ x :: spare s = (read h s ++ [x]) ++ spare s := by simp
    have hlen : s.len + 1 = (read h s ++ [x]).length := by simp [length_read hv]
    show (cells (h ++ [read h s ++ x :: spare s]) h.length).take (s.len + 1) = read h s ++ [x]
    rw [cells_append_length, hsplit, hlen, List.take_left]

theorem valid_append (hv : Valid h s) (x : α) :
    Valid (append spare h s x).1 (append spare h s x).2 := by
  unfold append
  split_ifs with hroom
  · refine ⟨by simpa using hv.allocated, ?_⟩
    rw [cells_set hv.allocated, if_pos rfl, List.length_set]
    exact hroom
  · refine ⟨by simp, ?_⟩
    have hfits := hv.fits
    simp only [cells_append_length, read, List.length_append, List.length_take, List.length_cons]
    omega

/-- Appending, and all that is done with the longer slice, happens behind the
shorter one. -/
theorem Behind.of_append (hv : Valid h s) (x : α) {h' : Heap α}
    (hb : Behind (append spare h s x).2 (append spare h s x).1 h') : Behind s h h' := by
  have hread := read_append spare hv x
  unfold append at hb hread
  split_ifs at hb hread with hroom
  · simp only at hb hread
    have hset := fun j => cells_set (a := (cells h s.array).set s.len x) hv.allocated j
    have hgrows : h.length ≤ h'.length := by simpa using hb.grows
    refine ⟨hgrows, fun i hi => ?_, ?_, fun i hi hne => ?_⟩
    · rw [hb.capacity i (by simpa using hi), hset]
      split_ifs with hij
      · rw [List.length_set, hij]
      · rfl
    · have hfront := congrArg (List.take s.len) (hb.front.trans hread)
      have hlen := length_read hv
      rw [List.take_append_of_le_length (Nat.le_of_eq hlen.symm), List.take_of_length_le
        (Nat.le_of_eq hlen)] at hfront
      rw [← hfront]
      simp only [read, List.take_take]
      congr 1
      omega
    · rw [hb.others i (by simpa using hi) hne, hset, if_neg (Ne.symm hne)]
  · simp only at hb hread
    have hgrows : h.length ≤ h'.length := by
      have hlonger := hb.grows
      rw [List.length_append] at hlonger
      omega
    have hcells : ∀ i < h.length, cells h' i = cells h i := by
      intro i hi
      rw [hb.others i (by rw [List.length_append]; omega) (by simp only; omega), cells_append hi]
    refine ⟨hgrows, fun i hi => by rw [hcells i hi], ?_, fun i hi _ => hcells i hi⟩
    simp only [read, hcells s.array hv.allocated]

end Append

end VyosClient.Slices
