import Mathlib.Data.List.InsertIdx
import Mathlib.Data.List.Nodup
import VyosClient.Masking
import VyosClient.Runs

/-!
The changeset every editable page queues its operations in. The log is
append-only apart from two cases: an operation equal to the one queued just
before is ignored, and a valueless `set` cancels a valueless `delete` that is
the latest entry for its path. Paths are compared by their joined text.
-/

namespace VyosClient.PendingChanges

open PathStore ConfigTrees Configure Runs

structure PendingChange where
  id : ℕ
  op : ConfigOp
  label : String
  deriving DecidableEq, Repr

/-- `Omit<PendingChange, 'id'>`, what a page hands to `add`. -/
structure NewChange where
  op : ConfigOp
  label : String
  deriving DecidableEq, Repr

/-- `path.join(' ')` -/
def joined (path : Path) : String := " ".intercalate path

theorem joined_append_head (a b : String) (p : Path) :
    joined ((a ++ b) :: p) = a ++ joined (b :: p) := by
  induction p generalizing b with
  | nil => rfl
  | cons c p ih =>
    show joined ((a ++ b ++ " " ++ c) :: p) = a ++ joined ((b ++ " " ++ c) :: p)
    rw [String.append_assoc, String.append_assoc, ih, String.append_assoc]

theorem joined_cons (a : String) {p : Path} (hp : p ≠ []) :
    joined (a :: p) = a ++ " " ++ joined p := by
  cases p with
  | nil => exact absurd rfl hp
  | cons b p => exact joined_append_head (a ++ " ") b p

theorem joined_append {p q : Path} (hp : p ≠ []) (hq : q ≠ []) :
    joined (p ++ q) = joined p ++ " " ++ joined q := by
  induction p with
  | nil => exact absurd rfl hp
  | cons a p ih =>
    by_cases hnil : p = []
    · subst hnil
      exact joined_cons a hq
    · rw [List.cons_append, joined_cons a (by simp [hnil]), ih hnil, joined_cons a hnil]
      simp only [String.append_assoc]

/-- A path reads longer than every path above it. -/
theorem joined_append_ne {p q : Path} (hp : p ≠ []) (hq : q ≠ []) : joined (p ++ q) ≠ joined p := by
  intro heq
  have hlength := congrArg String.length heq
  rw [joined_append hp hq, String.length_append, String.length_append] at hlength
  have hspace : " ".length = 1 := rfl
  omega

/-- Below a common path only the rest counts. -/
theorem joined_append_inj (pre : Path) {p q : Path} (hp : p ≠ []) (hq : q ≠ []) :
    joined (pre ++ p) = joined (pre ++ q) ↔ joined p = joined q := by
  induction pre with
  | nil => rfl
  | cons a pre ih =>
    rw [List.cons_append, List.cons_append, joined_cons a (by simp [hp]),
      joined_cons a (by simp [hq]), String.append_right_inj, ih]

/-- Paths whose names have no blanks are told apart by their texts. -/
theorem joined_inj {p q : Path} (hp : p ≠ []) (hq : q ≠ []) (hpblank : ∀ k ∈ p, ' ' ∉ k.toList)
    (hqblank : ∀ k ∈ q, ' ' ∉ k.toList) (h : joined p = joined q) : p = q := by
  have hsplit : ∀ {r : Path}, r ≠ [] → (∀ k ∈ r, ' ' ∉ k.toList) →
      (joined r).toList.splitOn ' ' = r.map String.toList := by
    intro r hr hblank
    rw [joined, String.toList_intercalate]
    apply List.splitOn_intercalate
    · intro l hl
      obtain ⟨k, hk, rfl⟩ := List.mem_map.mp hl
      exact hblank k hk
    · simpa using hr
  have heq := congrArg (fun s : String => s.toList.splitOn ' ') h
  simp only [hsplit hp hpblank, hsplit hq hqblank] at heq
  exact List.map_injective_iff.mpr (fun _ _ => String.toList_injective) heq

/-- The label the forms give an operation. -/
def opLabel (o : ConfigOp) : String :=
  o.op.text ++ " " ++ joined o.path ++
    match o.sent with
    | some v => " '" ++ v ++ "'"
    | none => ""

/-- The position JavaScript's `findLastIndex` returns, `none` for `-1`. -/
def findLastIndex {α : Type*} (p : α → Bool) : List α → Option ℕ
  | [] => none
  | a :: as =>
      match findLastIndex p as with
      | some i => some (i + 1)
      | none => if p a then some 0 else none

theorem findLastIndex_eq_none_iff {α : Type*} {p : α → Bool} {l : List α} :
    findLastIndex p l = none ↔ ∀ a ∈ l, p a = false := by
  induction l with
  | nil => simp [findLastIndex]
  | cons a as ih =>
    simp only [findLastIndex, List.forall_mem_cons]
    cases h : findLastIndex p as with
    | some i => simp [← ih, h]
    | none => simp [← ih, h]

/-- The list splits at the last entry that satisfies the predicate. -/
theorem findLastIndex_eq_some {α : Type*} {p : α → Bool} {l : List α} {i : ℕ}
    (h : findLastIndex p l = some i) :
    ∃ pre a post, l = pre ++ a :: post ∧ pre.length = i ∧ p a = true ∧
      ∀ b ∈ post, p b = false := by
  induction l generalizing i with
  | nil => simp [findLastIndex] at h
  | cons a as ih =>
    unfold findLastIndex at h
    cases hrest : findLastIndex p as with
    | some j =>
      obtain ⟨pre, b, post, rfl, hlen, hb, hpost⟩ := ih hrest
      simp only [hrest, Option.some.injEq] at h
      exact ⟨a :: pre, b, post, rfl, by simp [hlen, h], hb, hpost⟩
    | none =>
      simp only [hrest, Option.ite_none_right_eq_some, Option.some.injEq] at h
      exact ⟨[], a, as, rfl, h.2, h.1, findLastIndex_eq_none_iff.mp hrest⟩

/-- A click repeated on the entry queued just before. -/
def repeatsLast (queued : List ConfigOp) (op : ConfigOp) : Bool :=
  match queued.getLast? with
  | none => false
  | some prev => prev.op = op.op ∧ prev.value = op.value ∧ joined prev.path = joined op.path

/-- The position of the `delete` that an "Enable" click takes back. -/
def cancelled (queued : List ConfigOp) (op : ConfigOp) : Option ℕ :=
  if op.op = .set ∧ op.value = none then
    (findLastIndex (fun o : ConfigOp => joined o.path = joined op.path) queued).filter fun i =>
      match queued[i]? with
      | some latest => latest.op = .delete ∧ latest.value = none
      | none => false
  else none

/-- What `add` makes of the list, for a change that has its identifier. -/
def addTo (changes : List PendingChange) (c : PendingChange) : List PendingChange :=
  if repeatsLast (changes.map PendingChange.op) c.op then changes
  else match cancelled (changes.map PendingChange.op) c.op with
    | some i => changes.eraseIdx i
    | none => changes ++ [c]

/-- `addTo` as far as the operations go. -/
def addOp (queued : List ConfigOp) (op : ConfigOp) : List ConfigOp :=
  if repeatsLast queued op then queued
  else match cancelled queued op with
    | some i => queued.eraseIdx i
    | none => queued ++ [op]

/-- `issued` counts the identifiers handed out so far: `crypto.randomUUID`
hands none out twice. -/
structure PendingChangesState where
  changes : List PendingChange
  issued : ℕ
  fresh : ∀ c ∈ changes, c.id < issued
  nodup : (changes.map PendingChange.id).Nodup

section Queued

variable {queued : List ConfigOp} {op : ConfigOp}

theorem findLastIndex_append {α : Type*} (p : α → Bool) (l l' : List α) :
    findLastIndex p (l ++ l') =
      match findLastIndex p l' with
      | some i => some (l.length + i)
      | none => findLastIndex p l := by
  induction l with
  | nil =>
    cases h : findLastIndex p l' <;> simp [findLastIndex, h]
  | cons a as ih =>
    rw [List.cons_append, findLastIndex, ih]
    cases h : findLastIndex p l' with
    | some i => simp [Nat.add_right_comm]
    | none => rfl

theorem repeatsLast_eq_true (h : repeatsLast queued op = true) :
    ∃ pre prev, queued = pre ++ [prev] ∧ prev.op = op.op ∧ prev.value = op.value ∧
      joined prev.path = joined op.path := by
  unfold repeatsLast at h
  cases hlast : queued.getLast? with
  | none => simp [hlast] at h
  | some prev =>
    obtain ⟨pre, hpre⟩ := List.getLast?_eq_some_iff.mp hlast
    simp only [hlast, decide_eq_true_eq] at h
    exact ⟨pre, prev, hpre, h⟩

/-- Only the end of the queue decides whether an operation repeats it. -/
theorem repeatsLast_append (older : List ConfigOp) (hne : queued ≠ []) :
    repeatsLast (older ++ queued) op = repeatsLast queued op := by
  unfold repeatsLast
  rw [List.getLast?_append_of_ne_nil _ hne]

theorem cancelled_eq_some {i : ℕ} (h : cancelled queued op = some i) :
    op.op = .set ∧ op.value = none ∧ ∃ pre latest post, queued = pre ++ latest :: post ∧
      pre.length = i ∧ latest.op = .delete ∧ latest.value = none ∧
      joined latest.path = joined op.path ∧ ∀ b ∈ post, joined b.path ≠ joined op.path := by
  unfold cancelled at h
  split_ifs at h with hop
  obtain ⟨hfind, hlatest⟩ := Option.filter_eq_some_iff.mp h
  obtain ⟨pre, latest, post, rfl, rfl, hjoin, hpost⟩ := findLastIndex_eq_some hfind
  have hget : (pre ++ latest :: post)[pre.length]? = some latest := by simp
  simp only [hget, decide_eq_true_eq] at hlatest
  refine ⟨hop.1, hop.2, pre, latest, post, rfl, rfl, hlatest.1, hlatest.2, ?_, ?_⟩
  · simpa using hjoin
  · intro b hb
    simpa using hpost b hb

theorem cancelled_eq_none_of_set (h : op.op ≠ .set ∨ op.value ≠ none) :
    cancelled queued op = none := by
  unfold cancelled
  rw [if_neg]
  rintro ⟨hset, hvalue⟩
  exact h.elim (fun h => h hset) (fun h => h hvalue)

theorem cancelled_eq_none_of_forall (h : ∀ o ∈ queued, joined o.path ≠ joined op.path) :
    cancelled queued op = none := by
  cases hcan : cancelled queued op with
  | none => rfl
  | some i =>
    obtain ⟨_, _, pre, latest, post, rfl, _, _, _, hjoin, _⟩ := cancelled_eq_some hcan
    exact absurd hjoin (h latest (by simp))

theorem cancelled_lt_length {i : ℕ} (h : cancelled queued op = some i) : i < queued.length := by
  obtain ⟨_, _, pre, latest, post, rfl, rfl, _⟩ := cancelled_eq_some h
  simp

/-- The entry that is taken back is a deletion, so it is not the one repeated. -/
theorem repeatsLast_eq_false_of_cancelled {i : ℕ} (h : cancelled queued op = some i) :
    repeatsLast queued op = false := by
  obtain ⟨hset, _, pre, latest, post, rfl, _, hdelete, _, _, hpost⟩ := cancelled_eq_some h
  refine Bool.eq_false_iff.mpr fun hrep => ?_
  obtain ⟨pre', prev, heq, hop, _, hjoin⟩ := repeatsLast_eq_true hrep
  have hlast : (latest :: post).getLast? = some prev := by
    rw [← List.getLast?_append_of_ne_nil pre (List.cons_ne_nil latest post), heq]
    simp
  rcases List.mem_cons.mp (List.mem_of_getLast? hlast) with rfl | hmem
  · rw [hdelete, hset] at hop
    exact absurd hop (by decide)
  · exact hpost prev hmem hjoin

/-- Older entries count only when no later one has the path. -/
theorem cancelled_append (older queued : List ConfigOp) (op : ConfigOp) :
    cancelled (older ++ queued) op =
      if ∃ o ∈ queued, joined o.path = joined op.path then
        (cancelled queued op).map (older.length + ·)
      else cancelled older op := by
  unfold cancelled
  rw [findLastIndex_append]
  by_cases hop : op.op = .set ∧ op.value = none
  · rw [if_pos hop, if_pos hop, if_pos hop]
    cases hfind : findLastIndex (fun o : ConfigOp => joined o.path = joined op.path) queued with
    | none =>
      have hnot : ¬ ∃ o ∈ queued, joined o.path = joined op.path := by
        rintro ⟨o, ho, hjoin⟩
        have hfalse := findLastIndex_eq_none_iff.mp hfind o ho
        simp [hjoin] at hfalse
      rw [if_neg hnot]
      cases hold : findLastIndex (fun o : ConfigOp => joined o.path = joined op.path) older with
      | none => rfl
      | some i =>
        obtain ⟨pre, latest, post, rfl, rfl, _, _⟩ := findLastIndex_eq_some hold
        simp [Option.filter]
    | some i =>
      obtain ⟨pre, latest, post, rfl, rfl, hjoin, _⟩ := findLastIndex_eq_some hfind
      have hex : ∃ o ∈ pre ++ latest :: post, joined o.path = joined op.path :=
        ⟨latest, by simp, by simpa using hjoin⟩
      have hget : (older ++ (pre ++ latest :: post))[older.length + pre.length]? =
          (pre ++ latest :: post)[pre.length]? := by
        rw [List.getElem?_append_right (Nat.le_add_right _ _), Nat.add_sub_cancel_left]
      rw [if_pos hex]
      simp only [Option.filter, hget]
      split_ifs <;> rfl
  · simp [hop]

/-- An "Enable" that takes back no older entry acts on the later ones alone. -/
theorem cancelled_append_of_le {older : List ConfigOp}
    (h : ∀ i, cancelled (older ++ queued) op = some i → older.length ≤ i) :
    cancelled (older ++ queued) op = (cancelled queued op).map (older.length + ·) := by
  rw [cancelled_append] at h ⊢
  by_cases hex : ∃ o ∈ queued, joined o.path = joined op.path
  · rw [if_pos hex]
  · rw [if_neg hex] at h ⊢
    rw [cancelled_eq_none_of_forall fun o ho hjoin => hex ⟨o, ho, hjoin⟩, Option.map_none]
    cases hcan : cancelled older op with
    | none => rfl
    | some i =>
      have hlt := cancelled_lt_length hcan
      have hbound := h i hcan
      omega

theorem addOp_sublist (queued : List ConfigOp) (op : ConfigOp) :
    (addOp queued op).Sublist (queued ++ [op]) := by
  unfold addOp
  split_ifs
  · exact List.sublist_append_left _ _
  · split
    · exact (List.eraseIdx_sublist _ _).trans (List.sublist_append_left _ _)
    · exact List.Sublist.refl _

theorem addOp_append_subset (queued : List ConfigOp) (op : ConfigOp) (ops : List ConfigOp) :
    addOp queued op ++ ops ⊆ queued ++ op :: ops := by
  intro o ho
  rcases List.mem_append.mp ho with ho | ho
  · have hmem := (addOp_sublist queued op).subset ho
    simp only [List.mem_append, List.mem_singleton] at hmem
    rcases hmem with hmem | rfl
    · exact List.mem_append_left _ hmem
    · simp
  · simp [ho]

theorem addTo_sublist (changes : List PendingChange) (c : PendingChange) :
    (addTo changes c).Sublist (changes ++ [c]) := by
  unfold addTo
  split_ifs
  · exact List.sublist_append_left _ _
  · split
    · exact (List.eraseIdx_sublist _ _).trans (List.sublist_append_left _ _)
    · exact List.Sublist.refl _

theorem map_addTo (changes : List PendingChange) (c : PendingChange) :
    (addTo changes c).map PendingChange.op = addOp (changes.map PendingChange.op) c.op := by
  unfold addTo addOp
  split_ifs
  · rfl
  · split
    · exact (List.eraseIdx_map _ _ _).symm
    · rw [List.map_append]
      rfl

end Queued

/-! What the queue amounts to once it is applied. -/

/-- Different paths have different joined texts, as they do when no segment
holds a space. -/
def Faithful (ops : List ConfigOp) : Prop :=
  ∀ o ∈ ops, ∀ o' ∈ ops, joined o.path = joined o'.path → o.path = o'.path

theorem Faithful.subset {ops ops' : List ConfigOp} (h : Faithful ops) (hsub : ops' ⊆ ops) :
    Faithful ops' :=
  fun o ho o' ho' => h o (hsub ho) o' (hsub ho')

/-- A repeated operation is the last one queued when its path is that one's. -/
theorem getLast_eq_of_repeatsLast {queued : List ConfigOp} {op : ConfigOp}
    (hpath : ∀ prev ∈ queued.getLast?, joined prev.path = joined op.path → prev.path = op.path)
    (h : repeatsLast queued op = true) : queued.getLast? = some op := by
  obtain ⟨pre, prev, rfl, hop, hvalue, htext⟩ := repeatsLast_eq_true h
  have hlast : (pre ++ [prev]).getLast? = some prev := by simp
  have hsame := hpath prev (Option.mem_def.mpr hlast) htext
  obtain ⟨kind, p, value⟩ := op
  obtain ⟨kind', p', value'⟩ := prev
  simp_all

theorem Faithful.getLast_eq {queued : List ConfigOp} {op : ConfigOp}
    (hjoin : Faithful (queued ++ [op])) (h : repeatsLast queued op = true) :
    queued.getLast? = some op := by
  refine getLast_eq_of_repeatsLast (fun prev hprev htext => ?_) h
  have hmem := List.mem_of_getLast? (Option.mem_def.mp hprev)
  exact hjoin prev (List.mem_append_left _ hmem) op (by simp) htext

/-- No "Enable" among the operations could take back a deletion among them. -/
def NoneCancelled (ops : List ConfigOp) : Prop :=
  ∀ o ∈ ops, ∀ o' ∈ ops, o.op = .set → o.value = none → o'.op = .delete → o'.value = none →
    joined o'.path ≠ joined o.path

theorem guarded_of_noneCancelled {queued ops : List ConfigOp}
    (h : NoneCancelled (queued ++ ops)) :
    Guarded addOp (fun queued op => cancelled queued op = none) queued ops := by
  induction ops generalizing queued with
  | nil => trivial
  | cons op ops ih =>
    have hsub := addOp_append_subset queued op ops
    refine ⟨?_, ih fun o ho o' ho' => h o (hsub ho) o' (hsub ho')⟩
    show cancelled queued op = none
    cases hcan : cancelled queued op with
    | none => rfl
    | some i =>
      obtain ⟨hset, hvalue, pre, latest, post, rfl, _, hdelete, hnone, hjoin, _⟩ :=
        cancelled_eq_some hcan
      exact absurd hjoin (h op (by simp) latest (by simp) hset hvalue hdelete hnone)

section Effect

variable (multi : Path → Bool)

/-- An operation queued again right away changes nothing. -/
theorem run_repeated {queued : List ConfigOp} {op : ConfigOp} (h : queued.getLast? = some op)
    (s : Store String String) :
    run multi s (edits (queued ++ [op])) = run multi s (edits queued) := by
  obtain ⟨pre, rfl⟩ := List.getLast?_eq_some_iff.mp h
  simp only [edits_append, run_append]
  cases he : op.toEdit with
  | none => simp [edits, he]
  | some e =>
    simp only [edits, List.filterMap_cons, he, List.filterMap_nil, run_cons, run_nil]
    exact apply_apply_self _ e

theorem run_addOp {queued : List ConfigOp} {op : ConfigOp}
    (hrepeat : repeatsLast queued op = true → queued.getLast? = some op)
    (hcancel : cancelled queued op = none) (s : Store String String) :
    run multi s (edits (addOp queued op)) = run multi s (edits (queued ++ [op])) := by
  unfold addOp
  rw [hcancel]
  cases hrep : repeatsLast queued op with
  | true => exact (run_repeated multi (hrepeat hrep) s).symm
  | false => rfl

/-- As long as no "Enable" takes a deletion back, queueing is appending. -/
theorem run_foldl_addOp {queued ops : List ConfigOp} (hjoin : Faithful (queued ++ ops))
    (hcancel : Guarded addOp (fun queued op => cancelled queued op = none) queued ops)
    (s : Store String String) :
    run multi s (edits (ops.foldl addOp queued)) = run multi s (edits (queued ++ ops)) := by
  induction ops generalizing queued with
  | nil => simp
  | cons op ops ih =>
    have hsub := addOp_append_subset queued op ops
    have hhead : Faithful (queued ++ [op]) := hjoin.subset fun o ho => by
      simp only [List.mem_append, List.mem_singleton] at ho
      rcases ho with ho | rfl
      · exact List.mem_append_left _ ho
      · simp
    rw [List.foldl_cons, ih (hjoin.subset hsub) hcancel.2, edits_append, run_append,
      run_addOp multi hhead.getLast_eq hcancel.1, ← run_append, ← edits_append, List.append_assoc]
    rfl

end Effect

namespace PendingChangesState

def empty : PendingChangesState := ⟨[], 0, by simp, by simp⟩

def ops (s : PendingChangesState) : List ConfigOp := s.changes.map PendingChange.op

theorem fresh_append (s : PendingChangesState) (op : ConfigOp) (label : String) :
    (∀ c ∈ s.changes ++ [PendingChange.mk s.issued op label], c.id < s.issued + 1) ∧
      ((s.changes ++ [PendingChange.mk s.issued op label]).map PendingChange.id).Nodup := by
  constructor
  · intro c hc
    rcases List.mem_append.mp hc with hc | hc
    · exact Nat.lt_succ_of_lt (s.fresh c hc)
    · rw [List.mem_singleton.mp hc]
      exact Nat.lt_succ_self _
  · rw [List.map_append, List.nodup_append]
    refine ⟨s.nodup, by simp, ?_⟩
    intro i hi j hj
    obtain ⟨c, hc, rfl⟩ := List.mem_map.mp hi
    have hlt := s.fresh c hc
    simp only [List.map_cons, List.map_nil, List.mem_singleton] at hj
    omega

def add (s : PendingChangesState) (op : ConfigOp) (label : String) : PendingChangesState where
  changes := addTo s.changes ⟨s.issued, op, label⟩
  issued := s.issued + 1
  fresh c hc := (s.fresh_append op label).1 c ((addTo_sublist _ _).subset hc)
  nodup := ((addTo_sublist _ _).map _).nodup (s.fresh_append op label).2

theorem ops_add (s : PendingChangesState) (op : ConfigOp) (label : String) :
    (s.add op label).ops = addOp s.ops op := map_addTo _ _

theorem mem_or_fresh_of_mem_add {s : PendingChangesState} {op : ConfigOp} {label : String}
    {c : PendingChange} (h : c ∈ (s.add op label).changes) : c ∈ s.changes ∨ c.id = s.issued := by
  rcases List.mem_append.mp ((addTo_sublist _ _).subset h) with h | h
  · exact Or.inl h
  · exact Or.inr (by rw [List.mem_singleton.mp h])

theorem mem_add {s : PendingChangesState} {op : ConfigOp} (label : String) {c : PendingChange}
    (hc : c ∈ s.changes) (hkept : ∀ i, cancelled s.ops op = some i → s.changes[i]? ≠ some c) :
    c ∈ (s.add op label).changes := by
  show c ∈ addTo s.changes _
  unfold addTo
  split_ifs
  · exact hc
  · split
    · rename_i i hi
      obtain ⟨j, hj⟩ := List.mem_iff_getElem?.mp hc
      refine List.mem_eraseIdx_iff_getElem?.mpr ⟨j, ?_, hj⟩
      rintro rfl
      exact hkept j hi hj
    · exact List.mem_append_left _ hc

/-- The deletion an "Enable" takes back leaves the queue. -/
theorem not_mem_add {s : PendingChangesState} {op : ConfigOp} (label : String) {c : PendingChange}
    {i : ℕ} (hi : cancelled s.ops op = some i) (hc : s.changes[i]? = some c) :
    c ∉ (s.add op label).changes := by
  have hadd : (s.add op label).changes = s.changes.eraseIdx i := by
    show addTo s.changes _ = _
    unfold ops at hi
    simp only [addTo, hi, repeatsLast_eq_false_of_cancelled hi, Bool.false_eq_true, ↓reduceIte]
  rw [hadd]
  intro hmem
  obtain ⟨j, hne, hj⟩ := List.mem_eraseIdx_iff_getElem?.mp hmem
  obtain ⟨hlt, _⟩ := List.getElem?_eq_some_iff.mp hj
  exact hne ((List.getElem?_inj hlt s.nodup.of_map).mp (hj.trans hc.symm))

/-- One call of `add`, as a step of the queue. -/
def addChange (s : PendingChangesState) (change : NewChange) : PendingChangesState :=
  s.add change.op change.label

/-- Only `add` brings entries in; everything else keeps a selection. -/
def keep (s : PendingChangesState) (p : PendingChange → Bool) : PendingChangesState where
  changes := s.changes.filter p
  issued := s.issued
  fresh c hc := s.fresh c (List.mem_filter.mp hc).1
  nodup := (List.filter_sublist.map _).nodup s.nodup

def remove (s : PendingChangesState) (id : ℕ) : PendingChangesState := s.keep fun c => c.id ≠ id

def removeMany (s : PendingChangesState) (ids : List ℕ) : PendingChangesState :=
  s.keep fun c => c.id ∉ ids

def clear (s : PendingChangesState) : PendingChangesState := s.keep fun _ => false

/-- Whether `partialize` writes a change to `sessionStorage`. -/
def persisted (o : ConfigOp) : Bool :=
  o.value = none ∨ o.value = some "" ∨ Masking.isMaskedPath o.path = false

/-- What a page reload finds: the part of the queue `partialize` wrote. -/
def rehydrated (s : PendingChangesState) : PendingChangesState := s.keep fun c => persisted c.op

theorem ops_rehydrated (s : PendingChangesState) : s.rehydrated.ops = s.ops.filter persisted := by
  simp only [rehydrated, keep, ops, List.filter_map, Function.comp_def]

/-- A form queues its operations one `add` at a time. -/
def addAll (s : PendingChangesState) (ops : List ConfigOp) : PendingChangesState :=
  ops.foldl (fun s op => s.add op (opLabel op)) s

theorem ops_addAll (s : PendingChangesState) (ops : List ConfigOp) :
    (s.addAll ops).ops = ops.foldl addOp s.ops := by
  induction ops generalizing s with
  | nil => rfl
  | cons op ops ih =>
    rw [addAll, List.foldl_cons, ← addAll, ih, ops_add]
    rfl

theorem ops_addAll_subset (s : PendingChangesState) (ops : List ConfigOp) :
    (s.addAll ops).ops ⊆ s.ops ++ ops := by
  rw [ops_addAll]
  generalize s.ops = queued
  induction ops generalizing queued with
  | nil => simp
  | cons op ops ih => exact fun o ho => addOp_append_subset queued op ops (ih _ ho)

end PendingChangesState

end VyosClient.PendingChanges
