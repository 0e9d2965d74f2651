import VyosClient.ImageTag

/-!
The newest tag among the candidates of a registry. Within one flavor the versions are ordered
by their numbers, and the fold over the candidates keeps a tag that none of those seen so far
is newer than. What it ends with depends on their order only between equal versions.
-/

namespace VyosClient.NewestTag

open ImageReference ImageTag

/-- The numbers of both versions are the same. -/
def SameVersion (a b : ParsedTag) : Prop :=
  a.major = b.major ∧ a.minor = b.minor ∧ a.patch = b.patch

/-- No candidate of the flavor is newer than the tag. -/
def Newest (candidates : List Text) (curTag t : ParsedTag) : Prop :=
  ∀ raw ∈ candidates, ∀ u, parseTag raw = some u → sameFlavor u curTag = true → ¬ Newer u t

theorem newer_trans {a b c : ParsedTag} (h : Newer a b) (h' : Newer b c) : Newer a c := by
  unfold Newer at h h' ⊢
  rcases h with hmajor | ⟨hmajor, hminor | ⟨hminor, ha, hb, hpatch⟩⟩
  · rcases h' with hmajor' | ⟨hmajor', -⟩
    · exact Or.inl (hmajor'.trans hmajor)
    · exact Or.inl (hmajor' ▸ hmajor)
  · rcases h' with hmajor' | ⟨hmajor', hminor' | ⟨hminor', -⟩⟩
    · exact Or.inl (hmajor ▸ hmajor')
    · exact Or.inr ⟨hmajor.trans hmajor', Or.inl (hminor'.trans hminor)⟩
    · exact Or.inr ⟨hmajor.trans hmajor', Or.inl (hminor' ▸ hminor)⟩
  · rcases h' with hmajor' | ⟨hmajor', hminor' | ⟨hminor', -, hc, hpatch'⟩⟩
    · exact Or.inl (hmajor ▸ hmajor')
    · exact Or.inr ⟨hmajor.trans hmajor', Or.inl (hminor ▸ hminor')⟩
    · exact Or.inr ⟨hmajor.trans hmajor',
        Or.inr ⟨hminor.trans hminor', ha, hc, hpatch'.trans hpatch⟩⟩

theorem not_newer_self (a : ParsedTag) : ¬ Newer a a := by
  unfold Newer
  rintro (h | ⟨-, h | ⟨-, -, -, h⟩⟩)
  · exact lt_irrefl _ h
  · exact lt_irrefl _ h
  · exact lt_irrefl _ h

theorem patch_of_not_hasPatch {raw : Text} {t : ParsedTag} (h : parseTag raw = some t)
    (hpatch : t.hasPatch = false) : t.patch = -1 := by
  unfold parseTag at h
  split at h
  · cases h
  · split at h
    · split at h
      · split at h
        · cases h
        · cases h
          cases hpatch
      · cases h
        rfl
    · cases h

theorem sameFlavor_eq_true {a b : ParsedTag} : sameFlavor a b = true ↔
    a.hasLeadingV = b.hasLeadingV ∧ a.suffix = b.suffix ∧ a.hasPatch = b.hasPatch := by
  simp only [sameFlavor, Bool.and_eq_true, beq_iff_eq, and_assoc]

theorem sameFlavor_of_current {a b curTag : ParsedTag} (ha : sameFlavor a curTag = true)
    (hb : sameFlavor b curTag = true) : sameFlavor a b = true := by
  rw [sameFlavor_eq_true] at ha hb ⊢
  exact ⟨ha.1.trans hb.1.symm, ha.2.1.trans hb.2.1.symm, ha.2.2.trans hb.2.2.symm⟩

/-- Within a flavor, versions neither of which is newer are equal. -/
theorem sameVersion_of_not_newer {a b : ParsedTag} (ha : parseTag a.raw = some a)
    (hb : parseTag b.raw = some b) (hflavor : sameFlavor a b = true) (hab : ¬ Newer a b)
    (hba : ¬ Newer b a) : SameVersion a b := by
  have hpatch := (sameFlavor_eq_true.mp hflavor).2.2
  unfold Newer at hab hba
  have hmajor : a.major = b.major := by omega
  have hminor : a.minor = b.minor := by omega
  refine ⟨hmajor, hminor, ?_⟩
  cases hhas : b.hasPatch with
  | false =>
    rw [patch_of_not_hasPatch ha (hpatch.trans hhas), patch_of_not_hasPatch hb hhas]
  | true =>
    rw [hhas] at hpatch
    have hle : ¬ b.patch < a.patch := fun h => hab (Or.inr ⟨hmajor, Or.inr ⟨hminor, hpatch, hhas, h⟩⟩)
    have hge : ¬ a.patch < b.patch :=
      fun h => hba (Or.inr ⟨hmajor.symm, Or.inr ⟨hminor.symm, hhas, hpatch, h⟩⟩)
    omega

/-- The best of the candidates seen: the tag none of them is newer than, or that none is newer than
the current one. -/
def Best (seen : List Text) (curTag : ParsedTag) : Option ParsedTag → Prop
  | none => ∀ t, ¬ Suggested seen curTag t
  | some b => Suggested seen curTag b ∧ Newest seen curTag b

theorem suggested_of_append {seen : List Text} {raw : Text} {curTag t : ParsedTag}
    (h : Suggested (seen ++ [raw]) curTag t) :
    Suggested seen curTag t ∨ parseTag raw = some t := by
  rcases List.mem_append.mp h.mem with hmem | hmem
  · exact Or.inl ⟨hmem, h.parse, h.flavor, h.newer⟩
  · have hraw := h.parse
    rw [List.mem_singleton.mp hmem] at hraw
    exact Or.inr hraw

theorem suggested_append {seen : List Text} {curTag t : ParsedTag} (h : Suggested seen curTag t)
    (raw : Text) : Suggested (seen ++ [raw]) curTag t :=
  ⟨List.mem_append_left _ h.mem, h.parse, h.flavor, h.newer⟩

theorem newest_append {seen : List Text} {raw : Text} {curTag t : ParsedTag}
    (h : Newest seen curTag t)
    (hraw : ∀ u, parseTag raw = some u → sameFlavor u curTag = true → ¬ Newer u t) :
    Newest (seen ++ [raw]) curTag t := by
  intro raw' hraw' u hu hflavor
  rcases List.mem_append.mp hraw' with hmem | hmem
  · exact h raw' hmem u hu hflavor
  · rw [List.mem_singleton.mp hmem] at hu
    exact hraw u hu hflavor

/-- A candidate that is passed over: it does not parse, has another flavor or is not newer than the
current tag. -/
theorem Best.skip {seen : List Text} {curTag : ParsedTag} {best : Option ParsedTag}
    (h : Best seen curTag best) {raw : Text}
    (hraw : ∀ u, parseTag raw = some u → sameFlavor u curTag = true → ¬ Newer u curTag) :
    Best (seen ++ [raw]) curTag best := by
  cases best with
  | none =>
    intro t ht
    rcases suggested_of_append ht with hold | hparse
    · exact h t hold
    · exact hraw t hparse ht.flavor ht.newer
  | some b =>
    refine ⟨suggested_append h.1 raw, newest_append h.2 fun u hu hflavor hnewer => ?_⟩
    exact hraw u hu hflavor (newer_trans hnewer h.1.newer)

/-- A candidate that is newer than the current tag and than the best one so far. -/
theorem Best.take {seen : List Text} {curTag : ParsedTag} {best : Option ParsedTag}
    (h : Best seen curTag best) {raw : Text} {cand : ParsedTag} (hparse : parseTag raw = some cand)
    (hflavor : sameFlavor cand curTag = true) (hnewer : Newer cand curTag)
    (hbest : ∀ b, best = some b → Newer cand b) : Best (seen ++ [raw]) curTag (some cand) := by
  have hraw := (parseTag_eq_some hparse).1
  have hcand : Suggested (seen ++ [raw]) curTag cand :=
    ⟨List.mem_append_right _ (hraw ▸ List.mem_singleton_self _), hraw ▸ hparse, hflavor, hnewer⟩
  have hself : ∀ u, parseTag raw = some u → sameFlavor u curTag = true → ¬ Newer u cand := by
    intro u hu _
    rw [hparse] at hu
    rw [← Option.some.inj hu]
    exact not_newer_self cand
  refine ⟨hcand, newest_append (fun raw' hmem u hu hsame hlater => ?_) hself⟩
  cases best with
  | none =>
    have huraw := (parseTag_eq_some hu).1
    exact h u ⟨huraw ▸ hmem, huraw ▸ hu, hsame, newer_trans hlater hnewer⟩
  | some b => exact h.2 raw' hmem u hu hsame (newer_trans hlater (hbest b rfl))

/-- Each candidate keeps the best tag, or takes its place when it is newer. -/
theorem Best.better {seen : List Text} {curTag : ParsedTag} {best : Option ParsedTag}
    (h : Best seen curTag best) (raw : Text) :
    Best (seen ++ [raw]) curTag (ImageTag.better curTag best raw) := by
  unfold ImageTag.better
  cases hparse : parseTag raw with
  | none => exact h.skip fun u hu => by rw [hparse] at hu; cases hu
  | some cand =>
    have hown : ∀ u, parseTag raw = some u → u = cand := by
      intro u hu
      rw [hparse] at hu
      exact (Option.some.inj hu).symm
    dsimp only
    by_cases hflavor : sameFlavor cand curTag = true
    · rw [if_neg (not_not_intro hflavor)]
      by_cases holder : cand.compare curTag ≤ 0
      · rw [if_pos holder]
        refine h.skip fun u hu _ hnewer => ?_
        rw [hown u hu] at hnewer
        exact absurd (compare_pos_iff.mpr hnewer) (not_lt.mpr holder)
      · rw [if_neg holder]
        have hnewer : Newer cand curTag := compare_pos_iff.mp (not_le.mp holder)
        cases best with
        | none => exact h.take hparse hflavor hnewer fun b hb => by cases hb
        | some b =>
          dsimp only
          by_cases hlater : cand.compare b > 0
          · rw [if_pos hlater]
            refine h.take hparse hflavor hnewer fun b' hb' => ?_
            rw [← Option.some.inj hb']
            exact compare_pos_iff.mp hlater
          · rw [if_neg hlater]
            refine ⟨suggested_append h.1 raw, newest_append h.2 fun u hu _ hu' => ?_⟩
            rw [hown u hu] at hu'
            exact hlater (compare_pos_iff.mpr hu')
    · rw [if_pos hflavor]
      refine h.skip fun u hu hsame => ?_
      rw [hown u hu] at hsame
      exact absurd hsame hflavor

theorem Best.foldl {curTag : ParsedTag} (rest : List Text) {seen : List Text}
    {best : Option ParsedTag} (h : Best seen curTag best) :
    Best (seen ++ rest) curTag (rest.foldl (ImageTag.better curTag) best) := by
  induction rest generalizing seen best with
  | nil =>
    rw [List.append_nil]
    exact h
  | cons raw rest ih =>
    have hstep := ih (h.better raw)
    rw [List.append_assoc] at hstep
    exact hstep

theorem best_foldl (candidates : List Text) (curTag : ParsedTag) :
    Best candidates curTag (candidates.foldl (better curTag) none) := by
  have hnone : Best [] curTag none := fun t ht => (nomatch ht.mem)
  exact hnone.foldl candidates

theorem suggested_perm {candidates candidates' : List Text} {curTag t : ParsedTag}
    (h : Suggested candidates curTag t) (hperm : candidates.Perm candidates') :
    Suggested candidates' curTag t :=
  ⟨hperm.mem_iff.mp h.mem, h.parse, h.flavor, h.newer⟩

theorem raw_ne_nil {t : ParsedTag} (h : parseTag t.raw = some t) : t.raw ≠ [] := by
  intro hnil
  rw [hnil] at h
  cases h

/-- What the newest matching tag is: empty when nothing is to be suggested, else a suggested tag
that no candidate of the flavor is newer than. -/
inductive Chosen (candidates : List Text) (curTag : ParsedTag) : Text → Prop
  | empty (h : ∀ t, ¬ Suggested candidates curTag t) : Chosen candidates curTag []
  | tag (t : ParsedTag) (h : Suggested candidates curTag t) (hnewest : Newest candidates curTag t) :
      Chosen candidates curTag t.raw

theorem chosen_newestMatching {current : Text} {curTag : ParsedTag}
    (hcur : parseTag current = some curTag) (candidates : List Text) :
    ∃ newest, newestMatching candidates current = some newest ∧
      Chosen candidates curTag newest := by
  have hbest := best_foldl candidates curTag
  unfold newestMatching
  rw [hcur]
  dsimp only
  cases hfold : candidates.foldl (better curTag) none with
  | none =>
    rw [hfold] at hbest
    exact ⟨[], rfl, .empty hbest⟩
  | some b =>
    rw [hfold] at hbest
    exact ⟨b.raw, rfl, .tag b hbest.1 hbest.2⟩

theorem Chosen.empty_iff {candidates : List Text} {curTag : ParsedTag} {newest : Text}
    (h : Chosen candidates curTag newest) :
    newest = [] ↔ ∀ t, ¬ Suggested candidates curTag t := by
  cases h with
  | empty h => exact iff_of_true rfl h
  | tag t h hnewest => exact iff_of_false (raw_ne_nil h.parse) fun hnone => hnone t h

/-- For every list of candidates and every current tag that parses there is a result. It is empty
if and only if no candidate has the current flavor and a newer version; else it is such a candidate,
and none of that flavor is newer. In another order of the candidates the result is empty too, or a
tag of the same flavor and version. -/
theorem newestMatching_optimal {current : Text} {curTag : ParsedTag}
    (hcur : parseTag current = some curTag) (candidates : List Text) :
    ∃ newest, newestMatching candidates current = some newest ∧
      (newest = [] ↔ ∀ t, ¬ Suggested candidates curTag t) ∧
      (newest ≠ [] → ∃ t, t.raw = newest ∧ Suggested candidates curTag t ∧
        Newest candidates curTag t) ∧
      ∀ candidates', candidates.Perm candidates' →
        ∃ newest', newestMatching candidates' current = some newest' ∧
          (newest = [] ∧ newest' = [] ∨ ∃ t t', parseTag newest = some t ∧
            parseTag newest' = some t' ∧ sameFlavor t t' = true ∧ SameVersion t t') := by
  obtain ⟨newest, hnewest, hchosen⟩ := chosen_newestMatching hcur candidates
  refine ⟨newest, hnewest, hchosen.empty_iff, fun hne => ?_, fun candidates' hperm => ?_⟩
  · cases hchosen with
    | empty h => exact absurd rfl hne
    | tag t h hbest => exact ⟨t, rfl, h, hbest⟩
  · obtain ⟨newest', hnewest', hchosen'⟩ := chosen_newestMatching hcur candidates'
    refine ⟨newest', hnewest', ?_⟩
    cases hchosen with
    | empty h =>
      refine Or.inl ⟨rfl, hchosen'.empty_iff.mpr fun t ht => ?_⟩
      exact h t (suggested_perm ht hperm.symm)
    | tag t h hbest =>
      cases hchosen' with
      | empty h' => exact absurd (suggested_perm h hperm) (h' t)
      | tag t' h' hbest' =>
        have hflavor := sameFlavor_of_current h.flavor h'.flavor
        refine Or.inr ⟨t, t', h.parse, h'.parse, hflavor, ?_⟩
        apply sameVersion_of_not_newer h.parse h'.parse hflavor
        · exact hbest' t.raw (hperm.mem_iff.mp h.mem) t h.parse h.flavor
        · exact hbest t'.raw (hperm.mem_iff.mpr h'.mem) t' h'.parse h'.flavor

/-- Two spellings of one version, among tags that are older or of another flavor. -/
theorem newestMatching_spellings :
    ∃ newest, newestMatching ["1.27.3-alpine".toList, "1.26.0".toList, "1.026.0".toList,
        "latest".toList] "1.25.3".toList = some newest ∧ newest ≠ [] := by
  have hcur : parseTag "1.25.3".toList = some ⟨"1.25.3".toList, 1, 25, 3, true, false, []⟩ := by
    decide
  obtain ⟨newest, hnewest, hempty, -⟩ := newestMatching_optimal hcur
    ["1.27.3-alpine".toList, "1.26.0".toList, "1.026.0".toList, "latest".toList]
  refine ⟨newest, hnewest, fun hnil => hempty.mp hnil ⟨"1.26.0".toList, 1, 26, 0, true, false, []⟩ ?_⟩
  exact ⟨by decide, by decide, by decide, Or.inr ⟨rfl, Or.inl (by decide)⟩⟩

end VyosClient.NewestTag
