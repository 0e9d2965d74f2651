import VyosClient.ImageReference
import Mathlib.Algebra.Order.Ring.Int

/-!
Image tags as versions: an optional leading `v`, two or three numbers and an
optional suffix. Only tags of one flavor are compared, and of these the newest
one is taken.
-/

namespace VyosClient.ImageTag

open ImageReference

/-- The five groups of `tagPattern`. -/
structure TagMatch where
  leadingV : Text
  major : Text
  minor : Text
  patch : Text
  suffix : Text
deriving DecidableEq, Repr

/-- `(?:\.(\d+))?`, with what follows it. -/
def patchGroup (s : Text) : Text × Text :=
  match s with
  | '.' :: rest =>
    if rest.takeWhile Char.isDigit = [] then ([], s)
    else (rest.takeWhile Char.isDigit, rest.dropWhile Char.isDigit)
  | _ => ([], s)

/-- `(-.+)?$`: the dot is any letter but a line feed. -/
def suffixGroup (s : Text) : Option Text :=
  match s with
  | [] => some []
  | '-' :: rest => if rest ≠ [] ∧ '\n' ∉ rest then some s else none
  | _ => none

/-- What follows the leading `v` in `^(v?)(\d+)\.(\d+)(?:\.(\d+))?(-.+)?$`. -/
def tagPatternCore (leadingV s : Text) : Option TagMatch :=
  let major := s.takeWhile Char.isDigit
  match s.dropWhile Char.isDigit with
  | '.' :: rest =>
    let minor := rest.takeWhile Char.isDigit
    let (patch, rest) := patchGroup (rest.dropWhile Char.isDigit)
    if major = [] ∨ minor = [] then none
    else (suffixGroup rest).map fun suffix => ⟨leadingV, major, minor, patch, suffix⟩
  | _ => none

def tagPattern : Text → Option TagMatch
  | 'v' :: rest => tagPatternCore ['v'] rest
  | raw => tagPatternCore [] raw

/-- `strconv.Atoi` of a text of digits: the number, when an `int` holds it. -/
def atoi (digits : Text) : Option ℤ :=
  let n : ℕ := digits.foldl (fun n c => 10 * n + (c.toNat - 48)) 0
  if n ≤ 9223372036854775807 then some n else none

structure ParsedTag where
  raw : Text
  major : ℤ
  minor : ℤ
  patch : ℤ
  hasPatch : Bool
  hasLeadingV : Bool
  suffix : Text
deriving DecidableEq, Repr

def parseTag (raw : Text) : Option ParsedTag :=
  match tagPattern raw with
  | none => none
  | some m =>
    match atoi m.major, atoi m.minor with
    | some major, some minor =>
      if m.patch ≠ [] then
        match atoi m.patch with
        | none => none
        | some patch => some ⟨raw, major, minor, patch, true, m.leadingV == ['v'], m.suffix⟩
      else some ⟨raw, major, minor, -1, false, m.leadingV == ['v'], m.suffix⟩
    | _, _ => none

/-- `cmp.Compare`. -/
def cmpCompare (a b : ℤ) : ℤ := if a < b then -1 else if a > b then 1 else 0

def ParsedTag.compare (a b : ParsedTag) : ℤ :=
  if a.major ≠ b.major then cmpCompare a.major b.major
  else if a.minor ≠ b.minor then cmpCompare a.minor b.minor
  else if a.hasPatch && b.hasPatch then cmpCompare a.patch b.patch
  else 0

def sameFlavor (a b : ParsedTag) : Bool :=
  a.hasLeadingV == b.hasLeadingV && a.suffix == b.suffix && a.hasPatch == b.hasPatch

/-- One candidate against the best one so far. -/
def better (curTag : ParsedTag) (best : Option ParsedTag) (raw : Text) : Option ParsedTag :=
  match parseTag raw with
  | none => best
  | some cand =>
    if ¬ sameFlavor cand curTag then best
    else if cand.compare curTag ≤ 0 then best
    else
      match best with
      | none => some cand
      | some b => if cand.compare b > 0 then some cand else best

/-- `none` when the current tag is no version, the empty text when nothing newer was found. -/
def newestMatching (candidates : List Text) (current : Text) : Option Text :=
  match parseTag current with
  | none => none
  | some curTag =>
    match candidates.foldl (better curTag) none with
    | none => some []
    | some best => some best.raw

/-- The text the groups are read from. -/
def TagMatch.text (m : TagMatch) : Text :=
  m.leadingV ++ (m.major ++ '.' :: (m.minor ++
    ((if m.patch = [] then [] else '.' :: m.patch) ++ m.suffix)))

/-- What the groups can hold. -/
structure TagMatch.Valid (m : TagMatch) : Prop where
  leadingV : m.leadingV = [] ∨ m.leadingV = ['v']
  major : m.major ≠ [] ∧ ∀ c ∈ m.major, c.isDigit = true
  minor : m.minor ≠ [] ∧ ∀ c ∈ m.minor, c.isDigit = true
  patch : ∀ c ∈ m.patch, c.isDigit = true
  suffix : m.suffix = [] ∨ ∃ rest, m.suffix = '-' :: rest ∧ rest ≠ [] ∧ '\n' ∉ rest

theorem patchGroup_eq (s : Text) :
    s = (if (patchGroup s).1 = [] then [] else '.' :: (patchGroup s).1) ++ (patchGroup s).2 ∧
      ∀ c ∈ (patchGroup s).1, c.isDigit = true := by
  unfold patchGroup
  split
  · rename_i rest
    by_cases hnil : rest.takeWhile Char.isDigit = []
    · rw [if_pos hnil]
      exact ⟨rfl, fun c hc => (nomatch hc)⟩
    · rw [if_neg hnil, if_neg hnil]
      refine ⟨?_, fun c hc => List.mem_takeWhile_imp hc⟩
      rw [List.cons_append, List.takeWhile_append_dropWhile]
  · exact ⟨rfl, fun c hc => (nomatch hc)⟩

theorem suffixGroup_eq {s t : Text} (h : suffixGroup s = some t) :
    t = s ∧ (t = [] ∨ ∃ rest, t = '-' :: rest ∧ rest ≠ [] ∧ '\n' ∉ rest) := by
  unfold suffixGroup at h
  split at h
  · cases h
    exact ⟨rfl, Or.inl rfl⟩
  · rename_i rest
    split at h
    · rename_i hrest
      cases h
      exact ⟨rfl, Or.inr ⟨rest, rfl, hrest⟩⟩
    · cases h
  · cases h

theorem tagPatternCore_eq {leadingV s : Text} {m : TagMatch} (hv : leadingV = [] ∨ leadingV = ['v'])
    (h : tagPatternCore leadingV s = some m) :
    m.Valid ∧ m.leadingV = leadingV ∧ leadingV ++ s = m.text := by
  unfold tagPatternCore at h
  dsimp only at h
  split at h
  · rename_i rest hdot
    obtain ⟨hpatch, hdigits⟩ := patchGroup_eq (rest.dropWhile Char.isDigit)
    by_cases hempty : s.takeWhile Char.isDigit = [] ∨ rest.takeWhile Char.isDigit = []
    · rw [if_pos hempty] at h
      cases h
    · rw [if_neg hempty] at h
      obtain ⟨suffix, hsuffix, hm⟩ := Option.map_eq_some_iff.mp h
      obtain ⟨rfl, hshape⟩ := suffixGroup_eq hsuffix
      push Not at hempty
      subst hm
      refine ⟨⟨hv, ⟨hempty.1, fun c hc => List.mem_takeWhile_imp hc⟩,
        ⟨hempty.2, fun c hc => List.mem_takeWhile_imp hc⟩, hdigits, hshape⟩, rfl, ?_⟩
      unfold TagMatch.text
      dsimp only
      rw [← hpatch, List.takeWhile_append_dropWhile, ← hdot, List.takeWhile_append_dropWhile]
  · cases h

/-- A match splits the whole text into its groups. -/
theorem tagPattern_sound {raw : Text} {m : TagMatch} (h : tagPattern raw = some m) :
    m.Valid ∧ raw = m.text := by
  unfold tagPattern at h
  split at h
  · obtain ⟨hvalid, -, htext⟩ := tagPatternCore_eq (Or.inr rfl) h
    exact ⟨hvalid, htext⟩
  · obtain ⟨hvalid, -, htext⟩ := tagPatternCore_eq (Or.inl rfl) h
    exact ⟨hvalid, htext⟩

/-- A run of digits ends before the first letter that is none. -/
theorem takeWhile_digits {digits rest : Text} (hdigits : ∀ c ∈ digits, c.isDigit = true)
    (hrest : ∀ c ∈ rest.head?, c.isDigit = false) :
    (digits ++ rest).takeWhile Char.isDigit = digits ∧
      (digits ++ rest).dropWhile Char.isDigit = rest := by
  rw [List.takeWhile_append_of_pos hdigits, List.dropWhile_append_of_pos hdigits]
  cases rest with
  | nil => exact ⟨List.append_nil digits, rfl⟩
  | cons c rest =>
    have hc := hrest c rfl
    rw [List.takeWhile_cons, List.dropWhile_cons, hc]
    exact ⟨List.append_nil digits, rfl⟩

theorem TagMatch.Valid.suffix_head {m : TagMatch} (h : m.Valid) :
    ∀ c ∈ m.suffix.head?, c = '-' := by
  intro c hc
  rcases h.suffix with hnil | ⟨rest, hrest, -, -⟩
  · rw [hnil] at hc
    cases hc
  · rw [hrest] at hc
    cases hc
    rfl

theorem patchGroup_text {m : TagMatch} (h : m.Valid) :
    patchGroup ((if m.patch = [] then [] else '.' :: m.patch) ++ m.suffix) = (m.patch, m.suffix) := by
  by_cases hnil : m.patch = []
  · rw [if_pos hnil, hnil, List.nil_append]
    rcases h.suffix with hs | ⟨rest, hs, -, -⟩ <;> rw [hs] <;> rfl
  · have hend : ∀ c ∈ m.suffix.head?, c.isDigit = false := by
      intro c hc
      rw [h.suffix_head c hc]
      rfl
    obtain ⟨htake, hdrop⟩ := takeWhile_digits h.patch hend
    rw [if_neg hnil, List.cons_append]
    simp only [patchGroup, htake, hdrop, if_neg hnil]

theorem suffixGroup_self {m : TagMatch} (h : m.Valid) : suffixGroup m.suffix = some m.suffix := by
  rcases h.suffix with hs | ⟨rest, hs, hrest⟩
  · rw [hs]
    rfl
  · rw [hs]
    exact if_pos hrest

theorem tagPatternCore_text {m : TagMatch} (h : m.Valid) :
    tagPatternCore m.leadingV (m.major ++ '.' :: (m.minor ++
      ((if m.patch = [] then [] else '.' :: m.patch) ++ m.suffix))) = some m := by
  have hmajor := @takeWhile_digits m.major ('.' :: (m.minor ++
    ((if m.patch = [] then [] else '.' :: m.patch) ++ m.suffix))) h.major.2
    fun c hc => by cases hc; rfl
  have hend : ∀ c ∈ ((if m.patch = [] then [] else '.' :: m.patch) ++ m.suffix).head?,
      c.isDigit = false := by
    intro c hc
    by_cases hnil : m.patch = []
    · rw [if_pos hnil, List.nil_append] at hc
      rw [h.suffix_head c hc]
      rfl
    · rw [if_neg hnil] at hc
      cases hc
      rfl
  have hminor := takeWhile_digits h.minor.2 hend
  unfold tagPatternCore
  dsimp only
  rw [hmajor.1, hmajor.2]
  simp only
  rw [hminor.1, hminor.2, patchGroup_text h, if_neg (not_or.mpr ⟨h.major.1, h.minor.1⟩),
    suffixGroup_self h]
  rfl

/-- The groups of a text are the one way to split it so: the pattern leaves no choice. -/
theorem tagPattern_eq_some_iff {raw : Text} {m : TagMatch} :
    tagPattern raw = some m ↔ m.Valid ∧ raw = m.text := by
  refine ⟨tagPattern_sound, ?_⟩
  rintro ⟨h, rfl⟩
  have hcore := tagPatternCore_text h
  unfold TagMatch.text
  rcases h.leadingV with hv | hv
  · rw [hv] at hcore ⊢
    rw [List.nil_append]
    obtain ⟨c, rest, hmajor⟩ := List.exists_cons_of_ne_nil h.major.1
    have hc : c.isDigit = true := h.major.2 c (hmajor ▸ List.mem_cons_self)
    have hne : c ≠ 'v' := by
      rintro rfl
      exact absurd hc (by decide)
    rw [hmajor, List.cons_append] at hcore ⊢
    unfold tagPattern
    split
    · rename_i heq
      injection heq with heq _
      exact absurd heq hne
    · exact hcore
  · rw [hv] at hcore ⊢
    exact hcore

/-- The version of the first tag is later: the numbers are compared in order, the third one only
when both tags have it. -/
def Newer (a b : ParsedTag) : Prop :=
  b.major < a.major ∨ (a.major = b.major ∧ (b.minor < a.minor ∨
    (a.minor = b.minor ∧ a.hasPatch = true ∧ b.hasPatch = true ∧ b.patch < a.patch)))

theorem cmpCompare_pos {a b : ℤ} : 0 < cmpCompare a b ↔ b < a := by
  unfold cmpCompare
  split
  · omega
  · split <;> omega

theorem compare_pos_iff {a b : ParsedTag} : 0 < a.compare b ↔ Newer a b := by
  unfold ParsedTag.compare Newer
  by_cases hmajor : a.major = b.major
  · rw [if_neg (not_not_intro hmajor)]
    by_cases hminor : a.minor = b.minor
    · rw [if_neg (not_not_intro hminor)]
      by_cases hpatch : (a.hasPatch && b.hasPatch) = true
      · rw [if_pos hpatch, cmpCompare_pos]
        rw [Bool.and_eq_true] at hpatch
        exact ⟨fun h => Or.inr ⟨hmajor, Or.inr ⟨hminor, hpatch.1, hpatch.2, h⟩⟩,
          fun h => by omega⟩
      · rw [if_neg hpatch]
        rw [Bool.and_eq_true] at hpatch
        refine ⟨fun h => absurd h (lt_irrefl 0), ?_⟩
        rintro (h | ⟨-, h | ⟨-, ha, hb, -⟩⟩)
        · omega
        · omega
        · exact absurd ⟨ha, hb⟩ hpatch
    · rw [if_pos hminor, cmpCompare_pos]
      exact ⟨fun h => Or.inr ⟨hmajor, Or.inl h⟩, fun h => by omega⟩
  · rw [if_pos hmajor, cmpCompare_pos]
    exact ⟨Or.inl, fun h => by omega⟩

/-- A tag that parses matches the pattern; its flavor is read off the groups. -/
theorem parseTag_eq_some {raw : Text} {t : ParsedTag} (h : parseTag raw = some t) :
    t.raw = raw ∧ ∃ m : TagMatch, m.Valid ∧ raw = m.text ∧ t.suffix = m.suffix := by
  unfold parseTag at h
  cases hm : tagPattern raw with
  | none =>
    rw [hm] at h
    cases h
  | some m =>
    obtain ⟨hvalid, htext⟩ := tagPattern_sound hm
    rw [hm] at h
    dsimp only at h
    split at h
    · split at h
      · split at h
        · cases h
        · cases h
          exact ⟨rfl, m, hvalid, htext, rfl⟩
      · cases h
        exact ⟨rfl, m, hvalid, htext, rfl⟩
    · cases h

/-- A candidate that may be suggested: of the current flavor, and newer. -/
structure Suggested (candidates : List Text) (curTag t : ParsedTag) : Prop where
  mem : t.raw ∈ candidates
  parse : parseTag t.raw = some t
  flavor : sameFlavor t curTag = true
  newer : Newer t curTag

theorem better_cases (curTag : ParsedTag) (best : Option ParsedTag) (raw : Text) :
    better curTag best raw = best ∨
      ∃ cand, better curTag best raw = some cand ∧ parseTag raw = some cand ∧
        sameFlavor cand curTag = true ∧ Newer cand curTag := by
  unfold better
  cases hparse : parseTag raw with
  | none => exact Or.inl rfl
  | some cand =>
    dsimp only
    by_cases hflavor : sameFlavor cand curTag = true
    · rw [if_neg (not_not_intro hflavor)]
      by_cases holder : cand.compare curTag ≤ 0
      · rw [if_pos holder]
        exact Or.inl rfl
      · rw [if_neg holder]
        have hnewer : Newer cand curTag := compare_pos_iff.mp (not_le.mp holder)
        cases best with
        | none => exact Or.inr ⟨cand, rfl, rfl, hflavor, hnewer⟩
        | some b =>
          dsimp only
          split
          · exact Or.inr ⟨cand, rfl, rfl, hflavor, hnewer⟩
          · exact Or.inl rfl
    · rw [if_pos hflavor]
      exact Or.inl rfl

/-- The best candidate of a list is a suggested one: by induction, each step keeps it or takes a
suggested candidate. -/
theorem suggested_foldl {curTag t : ParsedTag} (candidates rest : List Text)
    {best : Option ParsedTag} (hbest : ∀ b ∈ best, Suggested candidates curTag b)
    (hrest : ∀ raw ∈ rest, raw ∈ candidates) (h : rest.foldl (better curTag) best = some t) :
    Suggested candidates curTag t := by
  induction rest generalizing best with
  | nil => exact hbest t h
  | cons raw rest ih =>
    refine ih ?_ (fun r hr => hrest r (List.mem_cons_of_mem raw hr)) h
    rcases better_cases curTag best raw with hkeep | ⟨cand, hcand, hparse, hflavor, hnewer⟩
    · rw [hkeep]
      exact hbest
    · rw [hcand]
      intro b hb
      cases hb
      have hraw := (parseTag_eq_some hparse).1
      exact ⟨hraw ▸ hrest raw List.mem_cons_self, hraw ▸ hparse, hflavor, hnewer⟩

/-- A newest tag that is reported is a candidate of the current flavor, and newer than the current
tag. -/
theorem newestMatching_eq_some {candidates : List Text} {current newest : Text}
    (h : newestMatching candidates current = some newest) (hne : newest ≠ []) :
    ∃ curTag t, parseTag current = some curTag ∧ t.raw = newest ∧
      Suggested candidates curTag t := by
  unfold newestMatching at h
  cases hcur : parseTag current with
  | none =>
    rw [hcur] at h
    cases h
  | some curTag =>
    rw [hcur] at h
    dsimp only at h
    cases hbest : candidates.foldl (better curTag) none with
    | none =>
      rw [hbest] at h
      cases h
      exact absurd rfl hne
    | some t =>
      rw [hbest] at h
      cases h
      have hnone : ∀ b ∈ (none : Option ParsedTag), Suggested candidates curTag b :=
        fun b hb => absurd hb (Option.not_mem_none b)
      exact ⟨curTag, t, rfl, rfl,
        suggested_foldl candidates candidates hnone (fun _ hr => hr) hbest⟩

end VyosClient.ImageTag
