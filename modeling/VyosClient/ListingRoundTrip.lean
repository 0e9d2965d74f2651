import VyosClient.ShowFile

/-!
What `ls` prints for the entries of a directory, and what is read back from it. Each line is read
by the fields before the name, which are words between blanks; the rest of the line is the name
with an indicator, or the name, an arrow and the target of a link. An entry comes back exactly when
nothing in that rest can be taken for an indicator, an arrow, a blank or a header.
-/

namespace VyosClient.ListingRoundTrip

open Separators ShowFile

/-- A field of one byte or more of a class. -/
structure Run (f : UInt8 → Bool) where
  bytes : Bytes
  nonempty : bytes ≠ []
  all_eq_true : bytes.all f = true

/-- A field of a fixed length. -/
structure Times (n : ℕ) (f : UInt8 → Bool) where
  bytes : Bytes
  length_eq : bytes.length = n
  all_eq_true : bytes.all f = true

/-- The size of a file, or the two numbers of a device in its place. -/
inductive Size
  | size (text : Run isNotSpace)
  | device (major minor : Run isDigit)

def Size.bytes : Size → Bytes
  | .size text => text.bytes
  | .device major minor => major.bytes ++ ascii ", " ++ minor.bytes

/-- The indicators of `-F`. -/
inductive Indicator
  | none
  | directory
  | executable
  | socket
  | fifo
deriving DecidableEq, Repr

def Indicator.bytes : Indicator → Bytes
  | .none => []
  | .directory => ascii "/"
  | .executable => ascii "*"
  | .socket => ascii "="
  | .fifo => ascii "|"

/-- The blanks between two fields: one, and more where a column is wider. -/
def gap (more : ℕ) : Bytes := List.replicate (more + 1) 32

/-- An entry of a directory as `ls -hlFGL` prints it, with how wide its columns are. -/
structure LsEntry where
  permissions : Times 10 isPermByte
  accessMark : Option { b : UInt8 // b ∈ ascii ".+@" }
  links : Run isDigit
  owner : Run isNotSpace
  size : Size
  month : Times 3 isLetter
  day : Run isDigit
  timeOrYear : Run isTimeByte
  wider : Fin 6 → ℕ
  name : Bytes
  name_ne_nil : name ≠ []
  newline_notMem_name : 10 ∉ name
  slash_notMem_name : 47 ∉ name
  target : Option Bytes
  indicator : Indicator

namespace LsEntry

/-- The fields before the name. -/
def fields (e : LsEntry) : Bytes :=
  e.permissions.bytes ++ (e.accessMark.toList.map Subtype.val ++ (gap (e.wider 0) ++
    (e.links.bytes ++ (gap (e.wider 1) ++ (e.owner.bytes ++ (gap (e.wider 2) ++
    (e.size.bytes ++ (gap (e.wider 3) ++ (e.month.bytes ++ (gap (e.wider 4) ++
    (e.day.bytes ++ (gap (e.wider 5) ++ e.timeOrYear.bytes))))))))))))

/-- The name with its indicator, or with the target of the link and the indicator of that. -/
def shown (e : LsEntry) : Bytes :=
  match e.target with
  | none => e.name ++ e.indicator.bytes
  | some target => e.name ++ (ascii " -> " ++ (target ++ e.indicator.bytes))

def line (e : LsEntry) : Bytes := e.fields ++ 32 :: e.shown

/-- The entry that the line stands for. -/
def entry (e : LsEntry) : FileEntry where
  name := e.name
  isDir := (ascii "d").isPrefixOf e.permissions.bytes
  permissions := e.permissions.bytes
  size := e.size.bytes
  modified := e.month.bytes ++ ascii " " ++ e.day.bytes ++ ascii " " ++ e.timeOrYear.bytes
  linkTarget := e.target.getD []

end LsEntry

/-- What `show file` prints for a directory. -/
def renderListing (path total : { text : Bytes // 10 ∉ text }) (entries : List LsEntry) : Bytes :=
  (directoryListingHeader :: (ascii "Path:\t " ++ path.val) :: (ascii "total " ++ total.val) ::
    entries.map LsEntry.line).flatMap (· ++ [10])

section Fields

theorem Run.all {f : UInt8 → Bool} (field : Run f) : ∀ b ∈ field.bytes, f b = true :=
  List.all_eq_true.mp field.all_eq_true

theorem Times.all {n : ℕ} {f : UInt8 → Bool} (field : Times n f) : ∀ b ∈ field.bytes, f b = true :=
  List.all_eq_true.mp field.all_eq_true

theorem run_append {f : UInt8 → Bool} (field : Run f) {b : UInt8} (hb : f b = false) (s : Bytes) :
    run f (field.bytes ++ b :: s) = some (field.bytes, b :: s) := by
  have htake : (field.bytes ++ b :: s).takeWhile f = field.bytes := by
    rw [List.takeWhile_append_of_pos field.all, List.takeWhile_cons_of_neg (by simp [hb]),
      List.append_nil]
  have hdrop : (field.bytes ++ b :: s).dropWhile f = b :: s := by
    rw [List.dropWhile_append_of_pos field.all, List.dropWhile_cons_of_neg (by simp [hb])]
  unfold run
  rw [htake, hdrop, if_neg field.nonempty]

theorem run_field {f : UInt8 → Bool} (field : Run f) (hf : f 32 = false) (more : ℕ) (s : Bytes) :
    run f (field.bytes ++ (gap more ++ s)) = some (field.bytes, gap more ++ s) :=
  run_append field hf _

/-- What starts with a byte that is no blank. -/
def Unspaced (s : Bytes) : Prop := ∃ b t, s = b :: t ∧ isRegexpSpace b = false

/-- The blanks before a field are read as one run. -/
theorem run_gap (more : ℕ) {field : Bytes} (hfield : Unspaced field) (s : Bytes) :
    run isRegexpSpace (gap more ++ (field ++ s)) = some (gap more, field ++ s) := by
  obtain ⟨b, t, rfl, hb⟩ := hfield
  exact run_append ⟨gap more, List.cons_ne_nil _ _, List.all_eq_true.mpr fun c hc => by
    rw [List.eq_of_mem_replicate hc]
    rfl⟩ hb _

theorem times_append {n : ℕ} {f : UInt8 → Bool} (field : Times n f) {g : UInt8 → Bool}
    (hg : ∀ b, f b = true → g b = true) (s : Bytes) :
    times n g (field.bytes ++ s) = some (field.bytes, s) := by
  have htake : (field.bytes ++ s).take n = field.bytes := by
    rw [List.take_append_of_le_length field.length_eq.ge, List.take_of_length_le field.length_eq.le]
  have hdrop : (field.bytes ++ s).drop n = s := by
    rw [List.drop_append_of_le_length field.length_eq.ge, List.drop_of_length_le field.length_eq.le,
      List.nil_append]
  unfold times
  rw [htake, hdrop, if_pos ⟨field.length_eq, List.all_eq_true.mpr fun b hb => hg b (field.all b hb)⟩]

theorem isRegexpSpace_eq_false {f : UInt8 → Bool}
    (hf : ([9, 10, 12, 13, 32] : Bytes).all (fun b => !f b) = true) {b : UInt8} (h : f b = true) :
    isRegexpSpace b = false := by
  by_contra hspace
  have hmem : b ∈ ([9, 10, 12, 13, 32] : Bytes) :=
    of_decide_eq_true (Bool.eq_true_of_not_eq_false hspace)
  have hnot := List.all_eq_true.mp hf b hmem
  rw [h] at hnot
  cases hnot

theorem Run.unspaced {f : UInt8 → Bool} (field : Run f)
    (hf : ([9, 10, 12, 13, 32] : Bytes).all (fun b => !f b) = true) : Unspaced field.bytes := by
  cases hbytes : field.bytes with
  | nil => exact absurd hbytes field.nonempty
  | cons b t =>
    exact ⟨b, t, rfl, isRegexpSpace_eq_false hf (field.all b (hbytes ▸ List.mem_cons_self))⟩

theorem Times.unspaced {n : ℕ} {f : UInt8 → Bool} (field : Times (n + 1) f)
    (hf : ([9, 10, 12, 13, 32] : Bytes).all (fun b => !f b) = true) : Unspaced field.bytes := by
  obtain ⟨b, t, hbytes⟩ := List.exists_cons_of_length_eq_add_one field.length_eq
  exact ⟨b, t, hbytes, isRegexpSpace_eq_false hf (field.all b (hbytes ▸ List.mem_cons_self))⟩

theorem unspaced_append {s : Bytes} (h : Unspaced s) (t : Bytes) : Unspaced (s ++ t) := by
  obtain ⟨b, s, rfl, hb⟩ := h
  exact ⟨b, s ++ t, rfl, hb⟩

theorem Size.unspaced (size : Size) : Unspaced size.bytes := by
  cases size with
  | size text => exact text.unspaced (by decide)
  | device major minor =>
    exact unspaced_append (unspaced_append (major.unspaced (by decide)) _) _

theorem run_eq_none {f : UInt8 → Bool} {b : UInt8} (hb : f b = false) (s : Bytes) :
    run f (b :: s) = none := by
  unfold run
  rw [List.takeWhile_cons_of_neg (by simp [hb]), if_pos rfl]

theorem optional_accessMark (mark : Option { b : UInt8 // b ∈ ascii ".+@" }) (more : ℕ)
    (s : Bytes) :
    optional (· ∈ ascii ".+@") (mark.toList.map Subtype.val ++ (gap more ++ s)) =
      gap more ++ s := by
  cases mark with
  | none => rfl
  | some b => exact if_pos (decide_eq_true b.property)

/-- The fields from the month on. -/
def LsEntry.dateFields (e : LsEntry) (s : Bytes) : Bytes :=
  gap (e.wider 3) ++ (e.month.bytes ++ (gap (e.wider 4) ++ (e.day.bytes ++ (gap (e.wider 5) ++
    (e.timeOrYear.bytes ++ s)))))

/-- The fields before the size are read as they were printed. -/
theorem lsLineRE_start (e : LsEntry) (s : Bytes) :
    lsLineRE (e.fields ++ s) =
      (do
        let (size, s) ← run isNotSpace (e.size.bytes ++ e.dateFields s)
        let (_, s) ← run isRegexpSpace s
        let (month, s) ← times 3 isWordByte s
        let (_, s) ← run isRegexpSpace s
        let (day, s) ← run isDigit s
        let (_, s) ← run isRegexpSpace s
        let (timeOrYear, s) ← run isTimeByte s
        let name ← lastField s
        return ⟨e.permissions.bytes, size, month, day, timeOrYear, name⟩) := by
  unfold lsLineRE LsEntry.fields LsEntry.dateFields
  simp only [List.append_assoc, Option.bind_eq_bind]
  rw [times_append e.permissions fun _ h => h, Option.bind_some, optional_accessMark,
    run_gap _ (e.links.unspaced (by decide)), Option.bind_some, run_field e.links (by decide),
    Option.bind_some, run_gap _ (e.owner.unspaced (by decide)), Option.bind_some,
    run_field e.owner (by decide), Option.bind_some, run_gap _ e.size.unspaced, Option.bind_some]

theorem isWordByte_of_isLetter {b : UInt8} (h : isLetter b = true) : isWordByte b = true := by
  unfold isWordByte
  rw [h]
  rfl

/-- A line with the size of a file is read up to the name. -/
theorem lsLineRE_size (e : LsEntry) {text : Run isNotSpace} (hsize : e.size = .size text)
    (s : Bytes) :
    lsLineRE (e.fields ++ 32 :: s) = (lastField (32 :: s)).map fun name =>
      ⟨e.permissions.bytes, text.bytes, e.month.bytes, e.day.bytes, e.timeOrYear.bytes, name⟩ := by
  rw [lsLineRE_start, hsize]
  unfold LsEntry.dateFields
  simp only [Size.bytes, Option.bind_eq_bind]
  rw [run_field text (by decide), Option.bind_some, run_gap _ (e.month.unspaced (by decide)),
    Option.bind_some, times_append e.month fun _ => isWordByte_of_isLetter, Option.bind_some,
    run_gap _ (e.day.unspaced (by decide)), Option.bind_some, run_field e.day (by decide),
    Option.bind_some, run_gap _ (e.timeOrYear.unspaced (by decide)), Option.bind_some,
    run_append e.timeOrYear (by decide), Option.bind_some]
  cases lastField (32 :: s) with
  | none => rfl
  | some name => rfl

theorem times_eq_none {n : ℕ} {f : UInt8 → Bool} {s : Bytes} {b : UInt8} (hb : f b = false)
    (h : b ∈ s.take n) : times n f s = none := by
  refine if_neg fun hall => ?_
  rw [List.all_eq_true.mp hall.2 b h] at hb
  cases hb

theorem isNotSpace_of_isDigit {b : UInt8} (h : isDigit b = true) : isNotSpace b = true := by
  unfold isNotSpace
  rw [isRegexpSpace_eq_false (by decide) h]
  rfl

theorem isWordByte_of_isDigit {b : UInt8} (h : isDigit b = true) : isWordByte b = true := by
  unfold isWordByte
  rw [h, Bool.or_true]
  rfl

theorem not_isDigit_of_isLetter {b : UInt8} (h : isLetter b = true) : isDigit b = false := by
  simp only [isLetter, isDigit, decide_eq_true_eq, decide_eq_false_iff_not,
    UInt8.le_iff_toNat_le] at h ⊢
  simp at h ⊢
  omega

theorem Times.exists_cons {n : ℕ} {f : UInt8 → Bool} (field : Times (n + 1) f) :
    ∃ b t, field.bytes = b :: t ∧ f b = true := by
  obtain ⟨b, t, hbytes⟩ := List.exists_cons_of_length_eq_add_one field.length_eq
  exact ⟨b, t, hbytes, field.all b (hbytes ▸ List.mem_cons_self)⟩

theorem drop_of_times {n : ℕ} {f : UInt8 → Bool} {s : Bytes} {parts : Bytes × Bytes}
    (h : times n f s = some parts) : parts.2 = s.drop n := by
  unfold times at h
  split at h
  · rw [← Option.some.inj h]
  · cases h

/-- The second number of a device stands where the month is looked for, and no date follows. -/
theorem lsLineRE_device (e : LsEntry) {major minor : Run isDigit}
    (hsize : e.size = .device major minor) (s : Bytes) : lsLineRE (e.fields ++ s) = none := by
  rw [lsLineRE_start, hsize]
  have hmajor : run isNotSpace (major.bytes ++ ascii ", " ++ minor.bytes ++ e.dateFields s) =
      some (major.bytes ++ [44], gap 0 ++ (minor.bytes ++ e.dateFields s)) := by
    have hword : (major.bytes ++ [44]).all isNotSpace = true := by
      refine List.all_eq_true.mpr fun b hb => ?_
      rcases List.mem_append.mp hb with hb | hb
      · exact isNotSpace_of_isDigit (major.all b hb)
      · rw [List.mem_singleton.mp hb]
        rfl
    have hread := run_field ⟨major.bytes ++ [44], List.append_ne_nil_of_right_ne_nil _ (by simp),
      hword⟩ (by decide) 0 (minor.bytes ++ e.dateFields s)
    rw [← hread]
    congr 1
    simp only [List.append_assoc]
    rfl
  simp only [Size.bytes, Option.bind_eq_bind]
  rw [hmajor, Option.bind_some, run_gap _ (minor.unspaced (by decide)), Option.bind_some]
  unfold LsEntry.dateFields
  rcases Nat.lt_trichotomy minor.bytes.length 3 with hlen | hlen | hlen
  · -- a blank is among the next three bytes
    rw [times_eq_none (b := 32) (by decide), Option.bind_none]
    rw [List.take_append, List.mem_append]
    obtain ⟨k, hk⟩ := Nat.exists_eq_succ_of_ne_zero (Nat.sub_ne_zero_of_lt hlen)
    rw [hk]
    exact Or.inr List.mem_cons_self
  · rw [times_append ⟨minor.bytes, hlen, minor.all_eq_true⟩ fun _ => isWordByte_of_isDigit,
      Option.bind_some, run_gap _ (e.month.unspaced (by decide)), Option.bind_some]
    obtain ⟨b, t, hmonth, hb⟩ := e.month.exists_cons
    rw [hmonth, List.cons_append, run_eq_none (not_isDigit_of_isLetter hb), Option.bind_none]
  · -- no blank follows the first three digits
    cases htimes : times 3 isWordByte (minor.bytes ++ (gap (e.wider 3) ++ (e.month.bytes ++
        (gap (e.wider 4) ++ (e.day.bytes ++ (gap (e.wider 5) ++ (e.timeOrYear.bytes ++ s))))))) with
    | none => rfl
    | some parts =>
      rw [Option.bind_some, drop_of_times htimes, List.drop_append_of_le_length hlen.le]
      cases hrest : minor.bytes.drop 3 with
      | nil => exact absurd (List.drop_eq_nil_iff.mp hrest) (Nat.not_le.mpr hlen)
      | cons b t =>
        have hb : isDigit b = true :=
          minor.all b (List.mem_of_mem_drop (hrest ▸ List.mem_cons_self))
        rw [List.cons_append, run_eq_none (isRegexpSpace_eq_false (by decide) hb), Option.bind_none]

end Fields

section Names

theorem cut_spec {sep s before after : Bytes} (h : cut sep s = some (before, after)) :
    s = before ++ (sep ++ after) := by
  induction s generalizing before with
  | nil =>
    unfold cut at h
    split at h
    · rename_i hsep
      obtain ⟨rfl, rfl⟩ := Prod.mk.inj (Option.some.inj h)
      rw [hsep]
      rfl
    · cases h
  | cons b s ih =>
    unfold cut at h
    split at h
    · rename_i hpre
      obtain ⟨rfl, rfl⟩ := Prod.mk.inj (Option.some.inj h)
      obtain ⟨t, ht⟩ := List.isPrefixOf_iff_prefix.mp hpre
      rw [← ht, List.drop_left, List.nil_append]
    · cases hcut : cut sep s with
      | none =>
        rw [hcut] at h
        cases h
      | some parts =>
        rw [hcut] at h
        obtain ⟨rfl, rfl⟩ := Prod.mk.inj (Option.some.inj h)
        rw [ih hcut]
        rfl

theorem cut_eq_none {sep : Bytes} (hsep : sep ≠ []) {s : Bytes} :
    cut sep s = none ↔ ¬ sep <:+: s := by
  induction s with
  | nil =>
    unfold cut
    rw [if_neg hsep, List.infix_nil]
    exact ⟨fun _ => hsep, fun _ => rfl⟩
  | cons b s ih =>
    unfold cut
    rw [List.infix_cons_iff]
    split
    · rename_i hpre
      have hfound := Or.inl (b := sep <:+: s) (List.isPrefixOf_iff_prefix.mp hpre)
      constructor
      · intro h
        cases h
      · exact fun h => absurd hfound h
    · rename_i hpre
      rw [Option.map_eq_none_iff, ih, not_or, ← List.isPrefixOf_iff_prefix]
      exact ⟨fun h => ⟨hpre, h⟩, fun h => h.2⟩

/-- The cut is at a separator exactly when none starts before it. -/
theorem cut_append_iff {sep : Bytes} (hsep : sep ≠ []) (before after : Bytes) :
    cut sep (before ++ (sep ++ after)) = some (before, after) ↔
      ¬ sep <:+: before ++ sep.dropLast := by
  have hlen : sep.dropLast.length + 1 = sep.length := by
    have := List.length_pos_iff.mpr hsep
    rw [List.length_dropLast]
    omega
  induction before with
  | nil =>
    have hcut : cut sep ([] ++ (sep ++ after)) = some ([], after) := by
      cases sep with
      | nil => exact absurd rfl hsep
      | cons c sep =>
        have hpre := List.isPrefixOf_iff_prefix.mpr (List.prefix_append (c :: sep) after)
        have hdrop : (c :: sep ++ after).drop (c :: sep).length = after := List.drop_left
        exact (if_pos hpre).trans (congrArg (fun rest => some ([], rest)) hdrop)
    refine ⟨fun _ h => ?_, fun _ => hcut⟩
    have hle := h.length_le
    rw [List.nil_append] at hle
    omega
  | cons b before ih =>
    have hpre : sep <+: b :: (before ++ (sep ++ after)) ↔
        sep <+: b :: (before ++ sep.dropLast) := by
      have hlong : b :: (before ++ sep.dropLast) <+: b :: (before ++ (sep ++ after)) :=
        List.cons_prefix_cons.mpr ⟨rfl, (List.prefix_append_right_inj before).mpr
          ((List.dropLast_prefix sep).trans (List.prefix_append sep after))⟩
      refine ⟨fun h => List.prefix_of_prefix_length_le h hlong ?_, fun h => h.trans hlong⟩
      rw [List.length_cons, List.length_append]
      omega
    rw [List.cons_append, cut, List.cons_append, List.infix_cons_iff, ← hpre]
    by_cases hfirst : sep <+: b :: (before ++ (sep ++ after))
    · rw [if_pos (List.isPrefixOf_iff_prefix.mpr hfirst)]
      refine ⟨fun h => ?_, fun h => absurd (Or.inl hfirst) h⟩
      cases (Prod.mk.inj (Option.some.inj h)).1
    · rw [if_neg fun h => hfirst (List.isPrefixOf_iff_prefix.mp h), not_or]
      constructor
      · intro h
        obtain ⟨parts, hparts, heq⟩ := Option.map_eq_some_iff.mp h
        obtain ⟨hbefore, rfl⟩ := Prod.mk.inj heq
        obtain rfl := (List.cons.inj hbefore).2
        exact ⟨hfirst, ih.mp hparts⟩
      · rintro ⟨-, h⟩
        rw [ih.mpr h]
        rfl

theorem lastField_unspaced {s : Bytes} (h : Unspaced s) (hbreak : 10 ∉ s) :
    lastField (32 :: s) = some s := by
  have hrun := run_gap 0 h []
  rw [List.append_nil] at hrun
  have hne : s ≠ [] := by
    obtain ⟨b, t, rfl, -⟩ := h
    exact List.cons_ne_nil b t
  unfold lastField
  rw [show 32 :: s = gap 0 ++ s from rfl, hrun]
  dsimp only
  have hlast : ¬ (s = [] ∧ 2 ≤ (gap 0).length) := fun h => hne h.1
  rw [if_neg hlast, if_neg (not_or.mpr ⟨hne, hbreak⟩)]

theorem unspaced_dropWhile {s : Bytes} (h : s.dropWhile isRegexpSpace ≠ []) :
    Unspaced (s.dropWhile isRegexpSpace) := by
  have hhead := List.head_dropWhile_not isRegexpSpace h
  obtain ⟨b, t, hrest⟩ := List.exists_cons_of_ne_nil h
  simp only [hrest, List.head_cons] at hhead
  exact ⟨b, t, hrest, hhead⟩

/-- The last field is an end of the rest that starts with no blank, or one blank of a blank rest. -/
theorem lastField_spec {s name : Bytes} (h : lastField (32 :: s) = some name) :
    10 ∉ name ∧ name <:+ s ∧ (Unspaced name ∨
      (∃ b, name = [b] ∧ isRegexpSpace b = true) ∧ ∀ b ∈ s, isRegexpSpace b = true) := by
  have hrun : run isRegexpSpace (32 :: s) =
      some (32 :: s.takeWhile isRegexpSpace, s.dropWhile isRegexpSpace) := rfl
  unfold lastField at h
  rw [hrun] at h
  dsimp only at h
  by_cases hblank : s.dropWhile isRegexpSpace = []
  · have hall : ∀ b ∈ s, isRegexpSpace b = true := List.dropWhile_eq_nil_iff.mp hblank
    rw [hblank, List.takeWhile_eq_self_iff.mpr hall] at h
    cases s using List.reverseRecOn with
    | nil => cases h
    | append_singleton s b =>
      have hlen : ([] : Bytes) = [] ∧ 2 ≤ (32 :: (s ++ [b])).length := by
        refine ⟨rfl, ?_⟩
        rw [List.length_cons, List.length_append, List.length_singleton]
        omega
      have hdrop : (32 :: (s ++ [b])).drop ((32 :: (s ++ [b])).length - 1) = [b] := by
        rw [← List.cons_append, List.length_append, List.length_singleton, Nat.add_sub_cancel,
          List.drop_left]
      rw [if_pos hlen, hdrop] at h
      split at h
      · cases h
      · rename_i hname
        obtain rfl := Option.some.inj h
        exact ⟨fun hbreak => hname (Or.inr hbreak), ⟨s, rfl⟩,
          Or.inr ⟨⟨b, rfl, hall b (by simp)⟩, hall⟩⟩
  · have hlast : ¬ (s.dropWhile isRegexpSpace = [] ∧
        2 ≤ (32 :: s.takeWhile isRegexpSpace).length) := fun h => hblank h.1
    rw [if_neg hlast] at h
    split at h
    · cases h
    · rename_i hname
      obtain rfl := Option.some.inj h
      exact ⟨fun hbreak => hname (Or.inr hbreak), List.dropWhile_suffix _,
        Or.inl (unspaced_dropWhile hblank)⟩

theorem trimRight_eq_self {cutset s : Bytes} :
    trimRight cutset s = s ↔ ∀ b, s.getLast? = some b → b ∉ cutset := by
  unfold trimRight
  rw [List.rdropWhile_eq_self_iff]
  constructor
  · intro h b hb hmem
    obtain ⟨t, rfl⟩ := List.getLast?_eq_some_iff.mp hb
    have hlast := h (List.append_ne_nil_of_right_ne_nil t (List.cons_ne_nil b []))
    rw [List.getLast_append_singleton] at hlast
    exact hlast (decide_eq_true hmem)
  · exact fun h hne hmem => h _ (List.getLast?_eq_some_getLast hne) (of_decide_eq_true hmem)

/-- The name and the target that are read from the rest of a line after the date. -/
def readName (s : Bytes) : Option (Bytes × Bytes) :=
  (lastField (32 :: s)).map fun name =>
    (trimRight (ascii "/*=|") (splitArrow name).1, (splitArrow name).2)

theorem Unspaced.of_prefix {s t : Bytes} (h : Unspaced t) (hne : s ≠ []) (hpre : s <+: t) :
    Unspaced s := by
  obtain ⟨b, t, rfl, hb⟩ := h
  cases s with
  | nil => exact absurd rfl hne
  | cons c s =>
    obtain ⟨rfl, -⟩ := List.cons_prefix_cons.mp hpre
    exact ⟨c, s, rfl, hb⟩

theorem splitArrow_isPrefix (name : Bytes) : trimRight (ascii "/*=|") (splitArrow name).1 <+: name := by
  unfold splitArrow
  cases hcut : cut (ascii " -> ") name with
  | none => exact List.rdropWhile_prefix _ _
  | some parts =>
    have hparts := cut_spec hcut
    rw [hparts]
    exact (List.rdropWhile_prefix _ _).trans (List.prefix_append _ _)

/-- A name that is read starts with no blank, or is one blank and nothing else was there. -/
theorem readName_start {s name link : Bytes} (h : readName s = some (name, link))
    (hne : name ≠ []) :
    Unspaced name ∨ name.length = 1 ∧ ∀ b ∈ s, isRegexpSpace b = true := by
  obtain ⟨field, hfield, hparts⟩ := Option.map_eq_some_iff.mp h
  have hpre := splitArrow_isPrefix field
  rw [(Prod.mk.inj hparts).1] at hpre
  obtain ⟨-, -, hstart | ⟨⟨b, rfl, -⟩, hblank⟩⟩ := lastField_spec hfield
  · exact Or.inl (hstart.of_prefix hne hpre)
  · have hle := hpre.length_le
    have hpos := List.length_pos_iff.mpr hne
    exact Or.inr ⟨Nat.le_antisymm hle hpos, hblank⟩

theorem readName_unspaced {s : Bytes} (h : Unspaced s) (hbreak : 10 ∉ s) :
    readName s = some (trimRight (ascii "/*=|") (splitArrow s).1, (splitArrow s).2) := by
  unfold readName
  rw [lastField_unspaced h hbreak, Option.map_some]

/-- An indicator is one byte that ends a name, or nothing. -/
theorem Indicator.bytes_cases (indicator : Indicator) : indicator = .none ∨
    ∃ b, indicator.bytes = [b] ∧ b ∈ ascii "/*=|" ∧ b ∉ ascii " -> " ∧ isRegexpSpace b = false ∧
      b ≠ 10 ∧ b ≠ 13 := by
  cases indicator with
  | none => exact Or.inl rfl
  | directory => exact Or.inr ⟨47, rfl, by decide, by decide, by decide, by decide, by decide⟩
  | executable => exact Or.inr ⟨42, rfl, by decide, by decide, by decide, by decide, by decide⟩
  | socket => exact Or.inr ⟨61, rfl, by decide, by decide, by decide, by decide, by decide⟩
  | fifo => exact Or.inr ⟨124, rfl, by decide, by decide, by decide, by decide, by decide⟩

theorem Indicator.length_bytes_le (indicator : Indicator) : indicator.bytes.length ≤ 1 := by
  rcases indicator.bytes_cases with rfl | ⟨b, hbytes, -⟩
  · exact Nat.zero_le 1
  · rw [hbytes, List.length_singleton]

theorem Indicator.newline_notMem (indicator : Indicator) : 10 ∉ indicator.bytes := by
  rcases indicator.bytes_cases with rfl | ⟨b, hbytes, -, -, -, hb, -⟩
  · exact List.not_mem_nil
  · rw [hbytes]
    exact fun h => hb (List.mem_singleton.mp h).symm

theorem trimRight_indicator (name : Bytes) (indicator : Indicator) :
    trimRight (ascii "/*=|") (name ++ indicator.bytes) = trimRight (ascii "/*=|") name := by
  rcases indicator.bytes_cases with rfl | ⟨b, hbytes, hb, -⟩
  · exact congrArg _ (List.append_nil name)
  · rw [hbytes]
    exact List.rdropWhile_concat_pos _ _ _ (decide_eq_true hb)

theorem arrow_infix_indicator (name : Bytes) (indicator : Indicator) :
    ascii " -> " <:+: name ++ indicator.bytes ↔ ascii " -> " <:+: name := by
  rcases indicator.bytes_cases with rfl | ⟨b, hbytes, -, hb, -⟩
  · rw [show Indicator.none.bytes = [] from rfl, List.append_nil]
  · rw [hbytes]
    refine ⟨fun h => ?_, fun h => h.trans (List.prefix_append _ _).isInfix⟩
    rcases infix_of_notMem hb h with h | h
    · exact h
    · exact absurd h (by decide)

/-- A name without an arrow in it ends with none of the indicators. -/
theorem readName_file_iff {name : Bytes} (hname : Unspaced name) (hbreak : 10 ∉ name)
    (indicator : Indicator) :
    readName (name ++ indicator.bytes) = some (name, []) ↔
      ¬ ascii " -> " <:+: name ∧ ∀ b, name.getLast? = some b → b ∉ ascii "/*=|" := by
  have hshown : 10 ∉ name ++ indicator.bytes := fun h =>
    (List.mem_append.mp h).elim hbreak indicator.newline_notMem
  rw [readName_unspaced (unspaced_append hname _) hshown, ← trimRight_eq_self,
    ← arrow_infix_indicator name indicator, ← trimRight_indicator name indicator,
    ← cut_eq_none (by decide)]
  unfold splitArrow
  cases hcut : cut (ascii " -> ") (name ++ indicator.bytes) with
  | none => simp
  | some parts =>
    -- what stands before an arrow is too short
    have hlen := congrArg List.length (cut_spec hcut)
    have hind := indicator.length_bytes_le
    have harrow : (ascii " -> ").length = 4 := rfl
    simp only [List.length_append, harrow] at hlen
    constructor
    · intro h
      have hparts := (List.rdropWhile_prefix (· ∈ ascii "/*=|") parts.1).length_le
      rw [show parts.1.rdropWhile (· ∈ ascii "/*=|") = name from
        (Prod.mk.inj (Option.some.inj h)).1] at hparts
      omega
    · rintro ⟨h, -⟩
      cases h

theorem trimSuffix_slash_iff (target : Bytes) (indicator : Indicator) :
    trimSuffix (ascii "/") (target ++ indicator.bytes) = target ↔
      indicator = .directory ∨ indicator = .none ∧ ¬ ascii "/" <:+ target := by
  have hother {b : UInt8} (hb : b ≠ 47) : trimSuffix (ascii "/") (target ++ [b]) ≠ target := by
    have hend : ¬ ascii "/" <:+ target ++ [b] := by
      rintro ⟨s, hs⟩
      exact hb (List.cons.inj (List.append_inj_right' hs rfl)).1.symm
    rw [trimSuffix, if_neg hend]
    exact fun h => by simpa using congrArg List.length h
  cases indicator with
  | none =>
    rw [show Indicator.none.bytes = [] from rfl, List.append_nil, trimSuffix]
    by_cases hend : ascii "/" <:+ target
    · have hlen := hend.length_le
      rw [if_pos hend]
      constructor
      · intro h
        have htake := congrArg List.length h
        rw [List.length_take] at htake
        simp only [show (ascii "/").length = 1 from rfl] at hlen htake
        omega
      · rintro (h | ⟨-, h⟩)
        · cases h
        · exact absurd hend h
    · rw [if_neg hend]
      exact ⟨fun _ => Or.inr ⟨rfl, hend⟩, fun _ => rfl⟩
  | directory =>
    refine ⟨fun _ => Or.inl rfl, fun _ => ?_⟩
    rw [show Indicator.directory.bytes = ascii "/" from rfl, trimSuffix,
      if_pos (List.suffix_append target _), List.length_append, Nat.add_sub_cancel]
    exact List.take_left
  | executable | socket | fifo =>
    refine ⟨fun h => absurd h (hother (by decide)), ?_⟩
    rintro (h | ⟨h, -⟩)
    · cases h
    · cases h

theorem trimSuffix_isPrefix (suffix s : Bytes) : trimSuffix suffix s <+: s := by
  unfold trimSuffix
  split
  · exact List.take_prefix _ _
  · exact List.prefix_rfl

/-- Where the name and the target come back, the text was cut between them. -/
theorem cut_of_readBack {name target before after : Bytes} {indicator : Indicator}
    (hcut : name ++ (ascii " -> " ++ (target ++ indicator.bytes)) =
      before ++ (ascii " -> " ++ after))
    (hname : trimRight (ascii "/*=|") before = name)
    (htarget : trimSuffix (ascii "/") after = target) :
    before = name ∧ after = target ++ indicator.bytes := by
  obtain ⟨more, rfl⟩ : name <+: before := hname ▸ List.rdropWhile_prefix _ _
  rw [List.append_assoc, List.append_cancel_left_eq] at hcut
  have hlen := congrArg List.length hcut
  have hind := indicator.length_bytes_le
  have hafter : target.length ≤ after.length := htarget ▸ (trimSuffix_isPrefix _ after).length_le
  simp only [List.length_append] at hlen
  cases more with
  | nil =>
    rw [List.nil_append, List.append_cancel_left_eq] at hcut
    exact ⟨List.append_nil name, hcut.symm⟩
  | cons b more =>
    cases more with
    | nil =>
      obtain rfl : 32 = b := (List.cons.inj hcut).1
      have hkeep : trimRight (ascii "/*=|") (name ++ [32]) = name ++ [32] :=
        List.rdropWhile_concat_neg _ _ _ (by decide)
      rw [hkeep] at hname
      simpa using congrArg List.length hname
    | cons c more =>
      simp only [List.length_cons] at hlen
      omega

/-- The target of a link comes back when the first arrow is the one before it, and the indicator is
the one that is taken off. -/
theorem readName_link_iff {name : Bytes} (hname : Unspaced name) (hbreak : 10 ∉ name)
    {target : Bytes} (htarget : 10 ∉ target) (indicator : Indicator) :
    readName (name ++ (ascii " -> " ++ (target ++ indicator.bytes))) = some (name, target) ↔
      ¬ ascii " -> " <:+: name ++ ascii " ->" ∧
        (∀ b, name.getLast? = some b → b ∉ ascii "/*=|") ∧
        (indicator = .directory ∨ indicator = .none ∧ ¬ ascii "/" <:+ target) := by
  have hshown : 10 ∉ name ++ (ascii " -> " ++ (target ++ indicator.bytes)) := by
    simp only [List.mem_append, not_or]
    exact ⟨hbreak, by decide, htarget, indicator.newline_notMem⟩
  rw [readName_unspaced (unspaced_append hname _) hshown, ← trimRight_eq_self,
    ← trimSuffix_slash_iff, show ascii " ->" = (ascii " -> ").dropLast from rfl,
    ← cut_append_iff (by decide) name (target ++ indicator.bytes)]
  unfold splitArrow
  cases hcut : cut (ascii " -> ") (name ++ (ascii " -> " ++ (target ++ indicator.bytes))) with
  | none => exact absurd (List.infix_append' _ _ _) ((cut_eq_none (by decide)).mp hcut)
  | some parts =>
    obtain ⟨before, after⟩ := parts
    simp only [Option.some.injEq, Prod.mk.injEq]
    constructor
    · rintro ⟨hbefore, hafter⟩
      obtain ⟨rfl, rfl⟩ := cut_of_readBack (cut_spec hcut) hbefore hafter
      exact ⟨⟨rfl, rfl⟩, hbefore, hafter⟩
    · rintro ⟨⟨rfl, rfl⟩, hbefore, hafter⟩
      exact ⟨hbefore, hafter⟩

/-- An arrow that starts in the name but ends after it starts with the last three bytes. -/
theorem arrow_infix_append (name : Bytes) : ascii " -> " <:+: name ++ ascii " ->" ↔
    ascii " -> " <:+: name ∨ ascii " ->" <:+ name := by
  constructor
  · rintro ⟨before, after, h⟩
    rcases List.append_eq_append_iff.mp h with ⟨mid, hname, -⟩ | ⟨mid, hname, hmid⟩
    · exact Or.inl ⟨before, mid, hname.symm⟩
    · -- of the bytes after the name only the first can end an arrow
      rcases mid with - | ⟨a, - | ⟨b, mid⟩⟩
      · rw [List.append_nil] at hname
        exact Or.inl ⟨before, [], by rw [List.append_nil, hname]⟩
      · obtain rfl : 32 = a := (List.cons.inj hmid).1
        refine Or.inr ⟨before, ?_⟩
        have hspace : (before ++ ascii " ->") ++ [32] = name ++ [32] := by
          rw [← hname, List.append_assoc]
          rfl
        exact List.append_cancel_right hspace
      · have hlast := congrArg List.getLast? hname
        have htwo : ([32, 45, 62] : Bytes) = a :: b :: (mid ++ after) := hmid
        obtain ⟨rfl, hone⟩ := List.cons.inj htwo
        obtain ⟨rfl, hrest⟩ := List.cons.inj hone
        rw [List.getLast?_append_of_ne_nil _ (by decide),
          List.getLast?_append_of_ne_nil _ (List.cons_ne_nil _ _)] at hlast
        rcases mid with - | ⟨c, mid⟩
        · exact absurd hlast (by decide)
        · obtain ⟨rfl, hnil⟩ := List.cons.inj hrest
          rw [(List.append_eq_nil_iff.mp hnil.symm).1] at hlast
          exact absurd hlast (by decide)
  · rintro (h | ⟨before, rfl⟩)
    · exact h.trans (List.prefix_append _ _).isInfix
    · refine ⟨before, ascii "->", ?_⟩
      rw [List.append_assoc, List.append_assoc]
      rfl

theorem readName_blank {b : UInt8} (h : isRegexpSpace b = true) (hbreak : b ≠ 10) :
    readName [b] = some ([b], []) := by
  have hmem : b ∈ ([9, 10, 12, 13, 32] : Bytes) := of_decide_eq_true h
  simp only [List.mem_cons, List.not_mem_nil, or_false, hbreak, false_or] at hmem
  rcases hmem with rfl | rfl | rfl | rfl
  all_goals rfl

/-- An entry that reads back from the end of its line. -/
structure PlainName (e : LsEntry) : Prop where
  start : Unspaced e.name ∨ e.name.length = 1 ∧ e.target = none ∧ e.indicator = .none
  last : ∀ b, e.name.getLast? = some b → b ∉ ascii "/*=|"
  arrow : ¬ ascii " -> " <:+: e.name
  arrow_last : e.target ≠ none → ¬ ascii " ->" <:+ e.name
  link : ∀ target, e.target = some target →
    e.indicator = .directory ∨ e.indicator = .none ∧ ¬ ascii "/" <:+ target

theorem readName_shown_of_blank (e : LsEntry) (hstart : ¬ Unspaced e.name) :
    readName e.shown = some (e.name, e.target.getD []) ↔ PlainName e := by
  -- one blank is read as a name when it stands alone
  have hone {b : UInt8} (hname : e.name = [b]) : isRegexpSpace b = true := by
    by_contra hb
    exact hstart ⟨b, [], hname, Bool.eq_false_iff.mpr hb⟩
  constructor
  · intro h
    obtain ⟨hlen, hblank⟩ := (readName_start h e.name_ne_nil).resolve_left hstart
    have hlink : e.target = none := by
      cases hlink : e.target with
      | none => rfl
      | some target =>
        have harrow := hblank 45 (by simp [LsEntry.shown, hlink, ascii])
        cases harrow
    have hind : e.indicator = .none := by
      rcases e.indicator.bytes_cases with hind | ⟨b, hbytes, -, -, hb, -⟩
      · exact hind
      · rw [hblank b (by simp [LsEntry.shown, hlink, hbytes])] at hb
        cases hb
    obtain ⟨b, hname⟩ := List.length_eq_one_iff.mp hlen
    have hb := hone hname
    refine ⟨Or.inr ⟨hlen, hlink, hind⟩, fun c hc hmem => ?_, fun harrow => ?_,
      fun hsome => absurd hlink hsome, fun target hsome => ?_⟩
    · rw [hname] at hc
      obtain rfl : b = c := Option.some.inj hc
      rw [isRegexpSpace_eq_false (f := (· ∈ ascii "/*=|")) (by decide) (decide_eq_true hmem)] at hb
      cases hb
    · have hle := harrow.length_le
      rw [hlen] at hle
      exact absurd hle (by decide)
    · rw [hlink] at hsome
      cases hsome
  · intro h
    obtain ⟨hlen, hlink, hind⟩ := h.start.resolve_left hstart
    obtain ⟨b, hname⟩ := List.length_eq_one_iff.mp hlen
    have hshown : e.shown = [b] := by
      rw [LsEntry.shown, hlink, hind, hname]
      rfl
    have hbreak : b ≠ 10 := fun h => e.newline_notMem_name (by rw [hname, h]; exact List.mem_cons_self)
    rw [hshown, hlink, hname]
    exact readName_blank (hone hname) hbreak

theorem readName_shown_iff (e : LsEntry) (htarget : ∀ target, e.target = some target → 10 ∉ target) :
    readName e.shown = some (e.name, e.target.getD []) ↔ PlainName e := by
  by_cases hstart : Unspaced e.name
  · cases hlink : e.target with
    | none =>
      rw [LsEntry.shown, hlink, Option.getD_none,
        readName_file_iff hstart e.newline_notMem_name e.indicator]
      constructor
      · rintro ⟨harrow, hlast⟩
        exact ⟨Or.inl hstart, hlast, harrow, fun h => absurd hlink h,
          fun target h => by rw [hlink] at h; cases h⟩
      · exact fun h => ⟨h.arrow, h.last⟩
    | some target =>
      rw [LsEntry.shown, hlink, Option.getD_some,
        readName_link_iff hstart e.newline_notMem_name (htarget target hlink) e.indicator,
        arrow_infix_append, not_or]
      constructor
      · rintro ⟨⟨harrow, hend⟩, hlast, hslash⟩
        exact ⟨Or.inl hstart, hlast, harrow, fun _ => hend,
          fun t h => Option.some.inj (hlink.symm.trans h) ▸ hslash⟩
      · exact fun h => ⟨⟨h.arrow, h.arrow_last (by rw [hlink]; exact Option.some_ne_none _)⟩, h.last,
          h.link target hlink⟩
  · exact readName_shown_of_blank e hstart

theorem parseLsLine_size (e : LsEntry) {text : Run isNotSpace} (hsize : e.size = .size text)
    (s : Bytes) :
    parseLsLine (e.fields ++ 32 :: s) = (readName s).map fun parts =>
      { e.entry with name := parts.1, linkTarget := parts.2 } := by
  unfold parseLsLine readName LsEntry.entry
  rw [lsLineRE_size e hsize, hsize]
  cases lastField (32 :: s) with
  | none => rfl
  | some name => rfl

/-- A name and a target that are read take no more bytes than there are. -/
theorem readName_length {s name link : Bytes} (h : readName s = some (name, link)) :
    name.length ≤ s.length ∧ (link ≠ [] → name.length + 4 + link.length ≤ s.length) := by
  obtain ⟨field, hfield, hparts⟩ := Option.map_eq_some_iff.mp h
  obtain ⟨-, hsuffix, -⟩ := lastField_spec hfield
  have hle := hsuffix.length_le
  obtain ⟨rfl, rfl⟩ := Prod.mk.inj hparts
  refine ⟨(splitArrow_isPrefix field).length_le.trans hle, ?_⟩
  unfold splitArrow
  cases hcut : cut (ascii " -> ") field with
  | none => exact fun h => absurd rfl h
  | some parts =>
    intro _
    have hlen := congrArg List.length (cut_spec hcut)
    have hbefore : (trimRight (ascii "/*=|") parts.1).length ≤ parts.1.length :=
      (List.rdropWhile_prefix _ _).length_le
    have hafter := (trimSuffix_isPrefix (ascii "/") parts.2).length_le
    have harrow : (ascii " -> ").length = 4 := rfl
    simp only [List.length_append, harrow] at hlen
    dsimp only
    omega

end Names

section Lines

/-- The entry of a line of the body. -/
def readLine (line : Bytes) : Option FileEntry :=
  if directoryListingHeader <:+: trimRight [13] line then none
  else if ascii "Path:" <+: trimRight [13] line ∨ ascii "total " <+: trimRight [13] line ∨
      trimSpace (trimRight [13] line) = [] then none
  else parseLsLine (trimRight [13] line)

theorem listingEntries_body (lines : List Bytes) :
    listingEntries true lines = lines.filterMap readLine := by
  induction lines with
  | nil => rfl
  | cons line lines ih =>
    rw [listingEntries, List.filterMap_cons, ← ih]
    unfold readLine
    split
    · rfl
    · rw [if_neg (not_not_intro rfl)]
      split
      · rfl
      · cases parseLsLine (trimRight [13] line) with
        | none => rfl
        | some entry => rfl

theorem mem_trimLeft {blanks : List Bytes} {b : UInt8} (hb : ∀ blank ∈ blanks, b ∉ blank) {s : Bytes}
    (h : b ∈ s) : b ∈ trimLeft blanks s := by
  induction s using trimLeft.induct blanks with
  | case1 s hblank ih =>
    rw [trimLeft, if_pos hblank]
    have htake : b ∉ s.take (spaceLength blanks s) := by
      unfold spaceLength
      cases hfind : blanks.find? (·.isPrefixOf s) with
      | none => exact List.not_mem_nil
      | some blank =>
        obtain ⟨t, rfl⟩ := List.isPrefixOf_iff_prefix.mp (List.find?_some (p := fun blank : Bytes => blank.isPrefixOf s) hfind)
        rw [Option.map_some, Option.getD_some, List.take_left]
        exact hb blank (List.mem_of_find?_eq_some hfind)
    refine ih ((List.mem_append.mp ?_).resolve_left htake)
    rw [List.take_append_drop]
    exact h
  | case2 s hblank =>
    rw [trimLeft, if_neg hblank]
    exact h

theorem trimSpace_ne_nil {b : UInt8} (hb : isPermByte b = true) {s : Bytes} (h : b ∈ s) :
    trimSpace s ≠ [] := by
  have hnone : (spaces.flatten.all fun c => !isPermByte c) = true := by decide
  have hspaces : ∀ blank ∈ spaces, b ∉ blank := fun blank hblank hmem => by
    have hnot := List.all_eq_true.mp hnone b (List.mem_flatten.mpr ⟨blank, hblank, hmem⟩)
    rw [Bool.not_eq_true'] at hnot
    rw [hnot] at hb
    cases hb
  have hreverse : ∀ blank ∈ spaces.map List.reverse, b ∉ blank := fun blank hblank hmem => by
    obtain ⟨space, hspace, rfl⟩ := List.mem_map.mp hblank
    exact hspaces space hspace (List.mem_reverse.mp hmem)
  have hleft := List.mem_reverse.mpr (mem_trimLeft hspaces h)
  unfold trimSpace
  exact List.reverse_ne_nil_iff.mpr (List.ne_nil_of_mem (mem_trimLeft hreverse hleft))

/-- A line of an entry starts with nothing that has a byte which is not for permissions. -/
theorem not_prefix_fields (e : LsEntry) (s : Bytes) {start : Bytes} (hlen : start.length ≤ 10)
    {b : UInt8} (hb : b ∈ start) (hperm : isPermByte b = false) : ¬ start <+: e.fields ++ s := by
  intro h
  rw [LsEntry.fields, List.append_assoc] at h
  have hpre := List.prefix_of_prefix_length_le h (List.prefix_append _ _)
    (hlen.trans e.permissions.length_eq.ge)
  rw [e.permissions.all b (hpre.subset hb)] at hperm
  cases hperm

theorem trimRight_line (e : LsEntry) :
    trimRight [13] e.line = e.fields ++ 32 :: trimRight [13] e.shown := by
  have hstart : trimRight [13] (e.fields ++ [32]) = e.fields ++ [32] :=
    List.rdropWhile_concat_neg _ _ _ (by decide)
  unfold LsEntry.line
  rw [List.append_cons, trimRight_append hstart, List.append_assoc]
  rfl

theorem readLine_line (e : LsEntry) :
    readLine e.line =
      if directoryListingHeader <:+: trimRight [13] e.line then none
      else parseLsLine (e.fields ++ 32 :: trimRight [13] e.shown) := by
  obtain ⟨b, t, hperm, hb⟩ := e.permissions.exists_cons
  have hmem : b ∈ e.fields ++ 32 :: trimRight [13] e.shown := by
    rw [LsEntry.fields, hperm]
    exact List.mem_cons_self
  unfold readLine
  rw [trimRight_line]
  have hbody : ¬ (ascii "Path:" <+: e.fields ++ 32 :: trimRight [13] e.shown ∨
      ascii "total " <+: e.fields ++ 32 :: trimRight [13] e.shown ∨
      trimSpace (e.fields ++ 32 :: trimRight [13] e.shown) = []) := by
    rintro (h | h | h)
    · exact not_prefix_fields e _ (by decide) (b := 58) (by decide) (by decide) h
    · exact not_prefix_fields e _ (by decide) (b := 32) (by decide) (by decide) h
    · exact trimSpace_ne_nil hb hmem h
  rw [if_neg hbody]

/-- An entry whose line reads back. -/
structure Plain (e : LsEntry) : Prop extends PlainName e where
  size : ∃ text, e.size = .size text
  newline_notMem : ∀ target, e.target = some target → 10 ∉ target
  header : ¬ directoryListingHeader <:+: e.line
  last_byte : ∀ b, e.shown.getLast? = some b → b ∉ ([13] : Bytes)

theorem trimRight_concat {cutset : Bytes} {b : UInt8} (hb : b ∉ cutset) (s : Bytes) :
    trimRight cutset (s ++ [b]) = s ++ [b] :=
  List.rdropWhile_concat_neg _ _ _ (by simpa using hb)

/-- When the end of a line is trimmed away, the rest is too short for the name and the target. -/
theorem readName_trimmed (e : LsEntry) (h : trimRight [13] e.shown ≠ e.shown) :
    readName (trimRight [13] e.shown) ≠ some (e.name, e.target.getD []) := by
  intro hread
  obtain ⟨hname, hlink⟩ := readName_length hread
  have hpre : trimRight [13] e.shown <+: e.shown := List.rdropWhile_prefix _ _
  have hlen : (trimRight [13] e.shown).length < e.shown.length :=
    Nat.lt_of_le_of_ne hpre.length_le fun heq => h (hpre.eq_of_length heq)
  cases htarget : e.target with
  | none =>
    have hshown : e.shown = e.name ++ e.indicator.bytes := by
      rw [LsEntry.shown, htarget]
    rcases e.indicator.bytes_cases with hind | ⟨b, hbytes, -, -, -, -, hb⟩
    · have htotal : e.shown.length = e.name.length := by
        rw [hshown, hind, show Indicator.none.bytes = [] from rfl, List.append_nil]
      omega
    · rw [hshown, hbytes] at h
      exact h (trimRight_concat (by simpa using hb) _)
  | some target =>
    have hshown : e.shown = e.name ++ (ascii " -> " ++ (target ++ e.indicator.bytes)) := by
      rw [LsEntry.shown, htarget]
    rw [htarget, Option.getD_some] at hlink
    rcases e.indicator.bytes_cases with hind | ⟨b, hbytes, -, -, -, -, hb⟩
    · rw [hind, show Indicator.none.bytes = [] from rfl, List.append_nil] at hshown
      by_cases hempty : target = []
      · have hblank : e.shown = e.name ++ ascii " ->" ++ [32] := by
          rw [hshown, hempty, List.append_assoc]
          rfl
        rw [hblank] at h
        exact h (trimRight_concat (by decide) _)
      · have hmore := hlink hempty
        have htotal := congrArg List.length hshown
        have harrow : (ascii " -> ").length = 4 := rfl
        simp only [List.length_append, harrow] at htotal
        omega
    · rw [hshown, hbytes] at h
      refine h ?_
      rw [← List.append_assoc, ← List.append_assoc]
      exact trimRight_concat (by simpa using hb) _

theorem readLine_iff (e : LsEntry) (htarget : ∀ target, e.target = some target → 10 ∉ target) :
    readLine e.line = some e.entry ↔ Plain e := by
  rw [readLine_line]
  have hread (s : Bytes) : ((readName s).map fun parts =>
      ({ e.entry with name := parts.1, linkTarget := parts.2 } : FileEntry)) = some e.entry ↔
        readName s = some (e.name, e.target.getD []) := by
    cases readName s with
    | none => exact ⟨(nomatch ·), (nomatch ·)⟩
    | some parts =>
      rw [Option.map_some, Option.some_inj, Option.some_inj, FileEntry.mk.injEq, Prod.ext_iff]
      simp [LsEntry.entry]
  cases hsize : e.size with
  | device major minor =>
    have hnone : parseLsLine (e.fields ++ 32 :: trimRight [13] e.shown) = none := by
      rw [parseLsLine, lsLineRE_device e hsize, Option.map_none]
    rw [hnone, ite_self]
    constructor
    · intro h
      cases h
    · intro h
      obtain ⟨text, htext⟩ := h.size
      rw [hsize] at htext
      cases htext
  | size text =>
    rw [parseLsLine_size e hsize]
    by_cases htrim : trimRight [13] e.shown = e.shown
    · have hline : trimRight [13] e.line = e.line := by
        rw [trimRight_line, htrim]
        rfl
      rw [hline, htrim]
      by_cases hheader : directoryListingHeader <:+: e.line
      · rw [if_pos hheader]
        exact ⟨(nomatch ·), fun h => absurd hheader h.header⟩
      · rw [if_neg hheader, hread, readName_shown_iff e htarget]
        exact ⟨fun h => ⟨h, ⟨text, hsize⟩, htarget, hheader, trimRight_eq_self.mp htrim⟩,
          fun h => h.toPlainName⟩
    · refine ⟨fun h => ?_, fun h => absurd (trimRight_eq_self.mpr h.last_byte) htrim⟩
      split at h
      · cases h
      · exact absurd ((hread _).mp h) (readName_trimmed e htrim)

theorem newline_notMem_lastField {s name : Bytes} (h : lastField s = some name) : 10 ∉ name := by
  unfold lastField at h
  cases hrun : run isRegexpSpace s with
  | none =>
    rw [hrun] at h
    cases h
  | some parts =>
    rw [hrun] at h
    dsimp only at h
    generalize (if parts.2 = [] ∧ 2 ≤ parts.1.length then parts.1.drop (parts.1.length - 1)
      else parts.2) = last at h
    split at h
    · cases h
    · rename_i hname
      obtain rfl := Option.some.inj h
      exact fun hbreak => hname (Or.inr hbreak)

theorem newline_notMem_lsLineRE {line : Bytes} {m : LsFields} (h : lsLineRE line = some m) :
    10 ∉ m.name := by
  simp only [lsLineRE, Option.bind_eq_bind, Option.bind_eq_some_iff] at h
  obtain ⟨_, -, _, -, _, -, _, -, _, -, _, -, _, -, _, -, _, -, _, -, _, -, _, -, _, -, name, hname,
    heq⟩ := h
  rw [← Option.some.inj heq]
  exact newline_notMem_lastField hname

/-- No entry is read with a line break in the target. -/
theorem newline_notMem_linkTarget {line : Bytes} {entry : FileEntry}
    (h : readLine line = some entry) : 10 ∉ entry.linkTarget := by
  unfold readLine at h
  split at h
  · cases h
  · split at h
    · cases h
    · obtain ⟨m, hm, rfl⟩ := Option.map_eq_some_iff.mp h
      have hname := newline_notMem_lsLineRE hm
      dsimp only
      unfold splitArrow
      cases hcut : cut (ascii " -> ") m.name with
      | none => exact List.not_mem_nil
      | some parts =>
        intro hmem
        rw [cut_spec hcut] at hname
        exact hname (List.mem_append_right _ (List.mem_append_right _
          ((trimSuffix_isPrefix _ _).subset hmem)))

theorem filterMap_eq_map_iff {α β : Type*} {f : α → Option β} {g : α → β} {l : List α} :
    l.filterMap f = l.map g ↔ ∀ a ∈ l, f a = some (g a) := by
  induction l with
  | nil => simp
  | cons a l ih =>
    rw [List.forall_mem_cons, ← ih, List.map_cons]
    cases hf : f a with
    | none =>
      rw [List.filterMap_cons_none hf]
      refine ⟨fun h => ?_, fun h => nomatch h.1⟩
      have hlen := congrArg List.length h
      have hle := List.length_filterMap_le f l
      rw [List.length_cons, List.length_map] at hlen
      omega
    | some b => rw [List.filterMap_cons_some hf, List.cons.injEq, Option.some_inj]

theorem notMem_of_all {f : UInt8 → Bool} {s : Bytes} (hall : ∀ b ∈ s, f b = true) {b : UInt8}
    (hb : f b = false) : b ∉ s := fun h => by
  rw [hall b h] at hb
  cases hb

theorem newline_notMem_fields (e : LsEntry) : 10 ∉ e.fields := by
  have hmark : 10 ∉ e.accessMark.toList.map Subtype.val := by
    cases e.accessMark with
    | none => exact List.not_mem_nil
    | some b => exact notMem_of_all (f := (· ∈ ascii ".+@")) (by simp [b.property]) (by decide)
  have hgap (more : ℕ) : 10 ∉ gap more := fun h => absurd (List.eq_of_mem_replicate h) (by decide)
  have hsize : 10 ∉ e.size.bytes := by
    cases e.size with
    | size text => exact notMem_of_all text.all (by decide)
    | device major minor =>
      simp only [Size.bytes, List.mem_append, not_or]
      exact ⟨⟨notMem_of_all major.all (by decide), by decide⟩, notMem_of_all minor.all (by decide)⟩
  simp only [LsEntry.fields, List.mem_append, not_or]
  exact ⟨notMem_of_all e.permissions.all (by decide), hmark, hgap _,
    notMem_of_all e.links.all (by decide), hgap _, notMem_of_all e.owner.all (by decide), hgap _,
    hsize, hgap _, notMem_of_all e.month.all (by decide), hgap _,
    notMem_of_all e.day.all (by decide), hgap _, notMem_of_all e.timeOrYear.all (by decide)⟩

theorem newline_notMem_line (e : LsEntry) (h : ∀ target, e.target = some target → 10 ∉ target) :
    10 ∉ e.line := by
  have hshown : 10 ∉ e.shown := by
    unfold LsEntry.shown
    cases htarget : e.target with
    | none =>
      exact fun hmem => (List.mem_append.mp hmem).elim e.newline_notMem_name
        e.indicator.newline_notMem
    | some target =>
      simp only [List.mem_append, not_or]
      exact ⟨e.newline_notMem_name, by decide, h target htarget, e.indicator.newline_notMem⟩
  simp only [LsEntry.line, List.mem_append, List.mem_cons, not_or]
  exact ⟨newline_notMem_fields e, by decide, hshown⟩

/-- A line above the entries is no entry, whatever follows its label. -/
theorem readLine_label {label : Bytes} (htrim : trimRight [13] label = label)
    (hlabel : ascii "Path:" <+: label ∨ ascii "total " <+: label) (text : Bytes) :
    readLine (label ++ text) = none := by
  unfold readLine
  rw [trimRight_append htrim]
  have hskip : ascii "Path:" <+: label ++ trimRight [13] text ∨
      ascii "total " <+: label ++ trimRight [13] text ∨
      trimSpace (label ++ trimRight [13] text) = [] :=
    hlabel.imp (fun h => h.trans (List.prefix_append _ _))
      fun h => Or.inl (h.trans (List.prefix_append _ _))
  rw [if_pos hskip, ite_self]

/-- The entries of a listing are those that are read from its lines, piece by piece. -/
theorem parseDirectoryListing_render (path : Bytes) (shownPath total : { text : Bytes // 10 ∉ text })
    (entries : List LsEntry) :
    parseDirectoryListing path (renderListing shownPath total entries) =
      ⟨path, ((entries.map LsEntry.line).flatMap (List.splitOn 10)).filterMap readLine⟩ := by
  have hbreak {label : Bytes} (hlabel : 10 ∉ label) (text : { text : Bytes // 10 ∉ text }) :
      (label ++ text.val).splitOn 10 = [label ++ text.val] :=
    List.splitOn_eq_singleton fun h => (List.mem_append.mp h).elim hlabel text.property
  have hheaderLine : directoryListingHeader.splitOn 10 = [directoryListingHeader] :=
    List.splitOn_eq_singleton (by decide)
  have hheader (rest : List Bytes) : listingEntries false (directoryListingHeader :: rest) =
      listingEntries true rest := by
    have hin : directoryListingHeader <:+: trimRight [13] directoryListingHeader := by
      decide +kernel
    rw [listingEntries, if_pos hin]
  have hempty : readLine [] = none := by
    decide +kernel
  unfold parseDirectoryListing renderListing
  rw [← List.append_nil (List.flatMap _ _), splitOn_terminated, List.flatMap_cons, List.flatMap_cons,
    List.flatMap_cons, hheaderLine, hbreak (by decide), hbreak (by decide)]
  simp only [List.cons_append, List.nil_append]
  rw [hheader, listingEntries_body,
    List.filterMap_cons_none (readLine_label (by decide +kernel) (Or.inl (by decide)) _),
    List.filterMap_cons_none (readLine_label (by decide +kernel) (Or.inr (by decide)) _),
    List.splitOn_nil, List.filterMap_append, List.filterMap_cons_none hempty, List.filterMap_nil,
    List.append_nil]

/-- A listing reads back exactly when every line of it does. -/
theorem listing_roundTrip_iff (path : Bytes) (shownPath total : { text : Bytes // 10 ∉ text })
    (entries : List LsEntry) :
    parseShowFile path (renderListing shownPath total entries) =
      .ok (.directory ⟨path, entries.map LsEntry.entry⟩) ↔ ∀ e ∈ entries, Plain e := by
  have hfirst : trimRight [13] ((renderListing shownPath total entries).takeWhile (· ≠ 10)) =
      directoryListingHeader := rfl
  unfold parseShowFile
  rw [hfirst, if_pos rfl, parseDirectoryListing_render, Except.ok.injEq, Shown.directory.injEq,
    DirectoryListing.mk.injEq, eq_self_iff_true, true_and]
  by_cases hbreak : ∀ e ∈ entries, ∀ target, e.target = some target → 10 ∉ target
  · have hlines : (entries.map LsEntry.line).flatMap (List.splitOn 10) =
        entries.map LsEntry.line := by
      rw [List.flatMap_map, List.map_eq_flatMap]
      exact List.flatMap_congr fun e he =>
        List.splitOn_eq_singleton (newline_notMem_line e (hbreak e he))
    rw [hlines, List.filterMap_map, filterMap_eq_map_iff]
    exact forall₂_congr fun e he => readLine_iff e (hbreak e he)
  · -- the pieces of a broken line give other entries
    refine ⟨fun h => absurd (fun e he target htarget hmem => ?_) hbreak,
      fun h => absurd (fun e he => (h e he).newline_notMem) hbreak⟩
    have hentry : e.entry ∈ entries.map LsEntry.entry := List.mem_map_of_mem he
    rw [← h] at hentry
    obtain ⟨line, -, hline⟩ := List.mem_filterMap.mp hentry
    have hlink := newline_notMem_linkTarget hline
    rw [LsEntry.entry, htarget] at hlink
    exact hlink hmem

/-- An executable file `job*`. -/
def jobEntry : LsEntry where
  permissions := ⟨ascii "-rwxr-xr-x", by decide, by decide⟩
  accessMark := none
  links := ⟨ascii "1", by decide, by decide⟩
  owner := ⟨ascii "root", by decide, by decide⟩
  size := .size ⟨ascii "456", by decide, by decide⟩
  month := ⟨ascii "Jan", by decide, by decide⟩
  day := ⟨ascii "2", by decide, by decide⟩
  timeOrYear := ⟨ascii "12:34", by decide, by decide⟩
  wider _ := 0
  name := ascii "job*"
  name_ne_nil := by decide
  newline_notMem_name := by decide
  slash_notMem_name := by decide
  target := none
  indicator := .executable

/-- Both stars at the end of a name are taken off, of which one is the indicator. -/
theorem job_loses_star : jobEntry.entry.name = ascii "job*" ∧
    parseShowFile (ascii "/config/scripts")
        (renderListing ⟨ascii "/config/scripts", by decide⟩ ⟨ascii "4", by decide⟩ [jobEntry]) =
      .ok (.directory ⟨ascii "/config/scripts", [{ jobEntry.entry with name := ascii "job" }]⟩) := by
  decide +kernel

end Lines

end VyosClient.ListingRoundTrip
