import VyosClient.Masking
import VyosClient.Separators

/-!
Where the two copies of the masking rules agree. They differ in the lower case
of the dotted capital I alone: the backend reads an `i`, the frontend an `i`
with a combining dot, which no shared name or pattern has. So the frontend masks
no more than the backend, and it misses just what is recognised only through a
dotted capital I.
-/

namespace VyosClient.MaskingAgreement

open ConfigTrees Mask

/-- What a letter of a name is for the backend. -/
def letter (c : Char) : Char := toLower (if c = '_' then '-' else c)

/-- What a letter of a name is for the frontend. -/
def spelling (c : Char) : List Char := (Masking.toLowerCase c).map fun c => if c = '_' then '-' else c

theorem toList_normalize (s : String) : (Mask.normalize s).toList = s.toList.map letter := by
  unfold Mask.normalize
  rw [String.toList_ofList, List.map_map]
  rfl

theorem toList_normalize' (s : String) :
    (Masking.normalize s).toList = s.toList.flatMap spelling := by
  unfold Masking.normalize
  rw [String.toList_ofList, List.map_flatMap]
  rfl

theorem eq_underscore_of_toLower {c : Char} (h : c.toLower = '_') : c = '_' := by
  unfold Char.toLower at h
  split at h
  · rename_i hupper
    have hlow : 65 ≤ c.val.toNat := UInt32.le_iff_toNat_le.mp hupper.1
    have hhigh : c.val.toNat ≤ 90 := UInt32.le_iff_toNat_le.mp hupper.2
    have hval : c.val + ('a'.val - 'A'.val) = '_'.val := congrArg Char.val h
    have hsum : (c.val.toNat + 32) % 2 ^ 32 = 95 := by
      simpa [UInt32.toNat_add] using congrArg UInt32.toNat hval
    omega
  · exact h

theorem spelling_of_ne {c : Char} (h : c ≠ '\u0130') : spelling c = [letter c] := by
  unfold spelling letter Masking.toLowerCase
  rw [if_neg h]
  by_cases hunder : c = '_'
  · rw [hunder]
    rfl
  · rw [if_neg hunder]
    unfold toLower
    rw [if_neg h]
    by_cases hkelvin : c = '\u212A'
    · rw [if_pos hkelvin, if_pos hkelvin]
      rfl
    · rw [if_neg hkelvin, if_neg hkelvin, List.map_singleton,
        if_neg fun hlower => hunder (eq_underscore_of_toLower hlower)]

theorem flatMap_spelling {l : List Char} (h : '\u0130' ∉ l) : l.flatMap spelling = l.map letter := by
  induction l with
  | nil => rfl
  | cons c l ih =>
    rw [List.flatMap_cons, List.map_cons, ih fun hmem => h (List.mem_cons_of_mem c hmem),
      spelling_of_ne fun hc => h (hc ▸ List.mem_cons_self)]
    rfl

/-- A block that the frontend finds, if it has no combining dot and does not end in an `i`, is there
without the dotted capital I. -/
theorem exists_plain_part {p : List Char} (hdot : '\u0307' ∉ p) (hlast : p.getLast? ≠ some 'i')
    (l : List Char) (h : p <:+: l.flatMap spelling) :
    ∃ part, part <:+: l ∧ '\u0130' ∉ part ∧ p <:+: part.map letter := by
  by_cases hmem : '\u0130' ∈ l
  · obtain ⟨xs, ys, rfl, hxs⟩ := List.eq_append_cons_of_mem hmem
    have hspelled : (xs ++ '\u0130' :: ys).flatMap spelling =
        (xs.map letter ++ ['i']) ++ '\u0307' :: ys.flatMap spelling := by
      rw [List.flatMap_append, List.flatMap_cons, flatMap_spelling hxs, List.append_assoc]
      rfl
    rw [hspelled] at h
    rcases Separators.infix_of_notMem hdot h with hfront | hback
    · refine ⟨xs, List.infix_append' [] xs _, hxs, ?_⟩
      rcases List.infix_concat_iff.mp hfront with ⟨before, hsuffix⟩ | hinfix
      · cases hp : p with
        | nil => exact List.nil_infix
        | cons c p =>
          have hend := congrArg List.getLast? hsuffix
          rw [List.getLast?_append_of_ne_nil _ (by rw [hp]; exact List.cons_ne_nil c p),
            List.getLast?_concat] at hend
          exact absurd hend hlast
      · exact hinfix
    · obtain ⟨part, hpart, hplain, hinfix⟩ := exists_plain_part hdot hlast ys hback
      exact ⟨part, hpart.trans (List.infix_append' (xs ++ ['\u0130']) ys [] |>.trans (by simp)),
        hplain, hinfix⟩
  · rw [flatMap_spelling hmem] at h
    exact ⟨l, List.infix_rfl, hmem, h⟩
termination_by l.length

theorem normalize_eq {s : String} (h : '\u0130' ∉ s.toList) : Masking.normalize s = Mask.normalize s := by
  have hlist : (Masking.normalize s).toList = (Mask.normalize s).toList := by
    rw [toList_normalize', toList_normalize, flatMap_spelling h]
  exact String.toList_inj.mp hlist

theorem dot_mem_normalize {s : String} (h : '\u0130' ∈ s.toList) :
    '\u0307' ∈ (Masking.normalize s).toList := by
  rw [toList_normalize']
  exact List.mem_flatMap.mpr ⟨'\u0130', h, by decide⟩

/-- No shared name or pattern has a dotted capital I or a combining dot, and no pattern ends in an
`i`. -/
theorem dotless :
    (∀ name ∈ sensitiveLeafNames, '\u0130' ∉ name.toList ∧ '\u0307' ∉ name.toList) ∧
      ∀ pattern ∈ sensitiveKeyPatterns, '\u0130' ∉ pattern.toList ∧ '\u0307' ∉ pattern.toList ∧
        pattern.toList.getLast? ≠ some 'i' := by
  decide +kernel

theorem masking_normalize_sensitiveLeafNames :
    sensitiveLeafNames.map Masking.normalize = sensitiveLeafNames := by
  rw [List.map_congr_left fun name hname => normalize_eq (dotless.1 name hname).1,
    normalize_sensitiveLeafNames]

theorem normalize_sensitiveKeyPatterns :
    sensitiveKeyPatterns.map Mask.normalize = sensitiveKeyPatterns := by
  decide +kernel

theorem masking_normalize_sensitiveKeyPatterns :
    sensitiveKeyPatterns.map Masking.normalize = sensitiveKeyPatterns := by
  rw [List.map_congr_left fun pattern hpattern => normalize_eq (dotless.2 pattern hpattern).1,
    normalize_sensitiveKeyPatterns]

theorem masking_isSensitiveLeaf_iff (leafName : String) :
    Masking.isSensitiveLeaf leafName = true ↔
      '\u0130' ∉ leafName.toList ∧ isSensitiveLeaf leafName = true := by
  unfold Masking.isSensitiveLeaf
  rw [masking_normalize_sensitiveLeafNames, isSensitiveLeaf_eq]
  by_cases hdotted : '\u0130' ∈ leafName.toList
  · refine iff_of_false (fun hmem => ?_) fun h => h.1 hdotted
    exact (dotless.1 _ (List.contains_iff_mem.mp hmem)).2 (dot_mem_normalize hdotted)
  · rw [normalize_eq hdotted]
    exact (and_iff_right hdotted).symm

theorem isSensitiveIdentifier_iff (name : String) :
    isSensitiveIdentifier name = true ↔
      ∃ pattern ∈ sensitiveKeyPatterns, pattern.toList <:+: name.toList.map letter := by
  unfold isSensitiveIdentifier contains
  rw [normalize_sensitiveKeyPatterns, List.any_eq_true, toList_normalize]
  simp only [decide_eq_true_eq]

/-- The frontend recognises what a part without the dotted capital I gives away. -/
theorem masking_isSensitiveIdentifier_iff (name : String) :
    Masking.isSensitiveIdentifier name = true ↔
      ∃ part : String, part.toList <:+: name.toList ∧ '\u0130' ∉ part.toList ∧
        isSensitiveIdentifier part = true := by
  unfold Masking.isSensitiveIdentifier contains
  rw [masking_normalize_sensitiveKeyPatterns, List.any_eq_true, toList_normalize']
  simp only [decide_eq_true_eq]
  constructor
  · rintro ⟨pattern, hmem, hinfix⟩
    obtain ⟨-, hdot, hlast⟩ := dotless.2 pattern hmem
    obtain ⟨part, hpart, hplain, hfound⟩ := exists_plain_part hdot hlast name.toList hinfix
    refine ⟨String.ofList part, ?_, ?_, (isSensitiveIdentifier_iff _).mpr ⟨pattern, hmem, ?_⟩⟩
    · rwa [String.toList_ofList]
    · rwa [String.toList_ofList]
    · rwa [String.toList_ofList]
  · rintro ⟨part, hpart, hplain, hsensitive⟩
    obtain ⟨pattern, hmem, hinfix⟩ := (isSensitiveIdentifier_iff part).mp hsensitive
    rw [← flatMap_spelling hplain] at hinfix
    exact ⟨pattern, hmem, hinfix.trans (hpart.flatMap spelling)⟩

theorem isSensitiveIdentifier_mono {part name : String} (h : part.toList <:+: name.toList)
    (hpart : isSensitiveIdentifier part = true) : isSensitiveIdentifier name = true := by
  obtain ⟨pattern, hmem, hinfix⟩ := (isSensitiveIdentifier_iff part).mp hpart
  exact (isSensitiveIdentifier_iff name).mpr ⟨pattern, hmem, hinfix.trans (h.map letter)⟩

/-- Nothing is recognised through a dotted capital I alone: not the leaf, and not the identifier of a
`value` leaf. -/
def Undotted (path : Path) : Prop :=
  (∀ leafName ∈ path.getLast?, '\u0130' ∈ leafName.toList → isSensitiveLeaf leafName = false) ∧
    ∀ pre identifier, path = pre ++ [identifier, "value"] → isSensitiveIdentifier identifier = true →
      ∃ part : String, part.toList <:+: identifier.toList ∧ '\u0130' ∉ part.toList ∧
        isSensitiveIdentifier part = true

theorem masking_isSensitivePath_eq (path : Path) :
    Masking.isSensitivePath path = path.getLast?.elim false Masking.isSensitiveLeaf := by
  unfold Masking.isSensitivePath
  cases path.getLast? <;> simp only [Option.elim_none, Option.elim_some]

theorem masking_isMaskedPath_eq (path : Path) : Masking.isMaskedPath path =
    maskedBy Masking.isSensitiveLeaf Masking.isSensitiveIdentifier path := by
  unfold Masking.isMaskedPath maskedBy
  rw [masking_isSensitivePath_eq]
  cases path[path.length - 2]? <;> simp only [Option.elim_none, Option.elim_some]

theorem isSensitiveLeaf_eq_iff (leafName : String) :
    isSensitiveLeaf leafName = Masking.isSensitiveLeaf leafName ↔
      ('\u0130' ∈ leafName.toList → isSensitiveLeaf leafName = false) := by
  rw [Bool.eq_iff_iff, masking_isSensitiveLeaf_iff]
  cases isSensitiveLeaf leafName <;> simp

theorem isSensitiveIdentifier_eq_iff (identifier : String) :
    isSensitiveIdentifier identifier = Masking.isSensitiveIdentifier identifier ↔
      (isSensitiveIdentifier identifier = true → ∃ part : String,
        part.toList <:+: identifier.toList ∧ '\u0130' ∉ part.toList ∧
          isSensitiveIdentifier part = true) := by
  rw [Bool.eq_iff_iff, masking_isSensitiveIdentifier_iff]
  refine ⟨Iff.mp, fun h => ⟨h, ?_⟩⟩
  rintro ⟨part, hpart, -, hsensitive⟩
  exact isSensitiveIdentifier_mono hpart hsensitive

theorem undotted_append_pair (pre : Path) (identifier leafName : String) :
    Undotted (pre ++ [identifier, leafName]) ↔
      isSensitiveLeaf leafName = Masking.isSensitiveLeaf leafName ∧
        (leafName = "value" →
          isSensitiveIdentifier identifier = Masking.isSensitiveIdentifier identifier) := by
  have hsplit : pre ++ [identifier, leafName] = (pre ++ [identifier]) ++ [leafName] := by simp
  have hlast : (pre ++ [identifier, leafName]).getLast? = some leafName := by
    rw [hsplit, List.getLast?_concat]
  unfold Undotted
  rw [hlast, isSensitiveLeaf_eq_iff, isSensitiveIdentifier_eq_iff]
  refine and_congr ⟨fun h => h leafName rfl, fun h name hname => ?_⟩
    ⟨fun h hvalue => h pre identifier (by rw [hvalue]), fun h pre' identifier' heq => ?_⟩
  · cases hname
    exact h
  · obtain ⟨-, hpair⟩ := List.append_inj' heq rfl
    obtain ⟨rfl, hvalue⟩ := List.cons.inj hpair
    exact h (List.cons.inj hvalue).1

theorem undotted_singleton (leafName : String) :
    Undotted [leafName] ↔ isSensitiveLeaf leafName = Masking.isSensitiveLeaf leafName := by
  rw [isSensitiveLeaf_eq_iff]
  refine ⟨fun h => h.1 leafName rfl, fun h => ⟨fun name hname => ?_, fun pre identifier heq => ?_⟩⟩
  · cases hname
    exact h
  · have hlen := congrArg List.length heq
    simp at hlen

theorem value_not_sensitive :
    isSensitiveLeaf "value" = false ∧ Masking.isSensitiveLeaf "value" = false := by
  have hbackend : isSensitiveLeaf "value" = false := by
    rw [isSensitiveLeaf_eq]
    decide
  exact ⟨hbackend, ((isSensitiveLeaf_eq_iff "value").mpr fun _ => hbackend).symm.trans hbackend⟩

/-- Both copies give the same answer for a path just when it gives nothing away through a dotted
capital I alone. -/
theorem isMaskedPath_eq_iff (path : Path) :
    isMaskedPath path = Masking.isMaskedPath path ↔ Undotted path := by
  rw [isMaskedPath_eq, masking_isMaskedPath_eq]
  rcases List.eq_nil_or_concat' path with rfl | ⟨init, leafName, rfl⟩
  · rw [maskedBy_nil, maskedBy_nil]
    refine iff_of_true rfl ⟨fun name hname => (nomatch hname), fun pre identifier heq => ?_⟩
    exact absurd heq.symm (List.append_ne_nil_of_right_ne_nil pre (List.cons_ne_nil _ _))
  · rcases List.eq_nil_or_concat' init with rfl | ⟨pre, identifier, rfl⟩
    · rw [List.nil_append, maskedBy_singleton, maskedBy_singleton]
      exact (undotted_singleton leafName).symm
    · rw [List.append_assoc, List.singleton_append, maskedBy_append_pair, maskedBy_append_pair,
        undotted_append_pair]
      by_cases hvalue : leafName = "value"
      · rw [hvalue, value_not_sensitive.1, value_not_sensitive.2]
        simp
      · rw [beq_false_of_ne hvalue]
        simp [hvalue]

/-- An environment variable that only the backend takes for a secret. -/
theorem dotted_identifier :
    isMaskedPath ["container", "name", "app", "environment", "PR\u0130VATE", "value"] = true ∧
      Masking.isMaskedPath ["container", "name", "app", "environment", "PR\u0130VATE", "value"] =
        false := by
  decide +kernel

end VyosClient.MaskingAgreement
