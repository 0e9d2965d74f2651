import VyosClient.ImageTag

/-!
The check for a newer image tag: what the backend suggests for an image name it
accepted, whatever tags the registry lists. The numbers of a suggested tag are
the registry's, everything else stands in the submitted text.
-/

namespace VyosClient.ImageUpdate

open Separators ImageReference ImageTag

structure CheckResponse where
  enabled : Bool := false
  currentTag : Text := []
  recognized : Bool := false
  latestTag : Text := []
  updateAvailable : Bool := false
  newImageRef : Text := []
  majorUpdate : Bool := false
deriving DecidableEq, Repr

inductive Reply
  | json (resp : CheckResponse)
  | error (status : ℕ) (message : String)
deriving DecidableEq, Repr

/-- The server with what VyOS and the registries answer it: a lookup that fails gives the status and
the text of the error reply, a failed listing is `none`. -/
structure Server (Credentials : Type) where
  containerUpdateChecksEnabled : Bool
  lookupRegistryCredentials : Text → Except (ℕ × String) (Option Credentials × Bool)
  listTags : Reference → Option Credentials → Bool → Option (List Text)

/-- `cur.Major != next.Major`, when both tags parse. -/
def majorUpdate (currentTag newest : Text) : Bool :=
  match parseTag currentTag, parseTag newest with
  | some cur, some next => cur.major != next.major
  | _, _ => false

/-- The reply to the tags of a registry. -/
def suggest (image : Text) (ref : Reference) (tags : List Text) : Reply :=
  let resp : CheckResponse := { enabled := true, currentTag := ref.tag }
  match newestMatching tags ref.tag with
  | none => .json resp
  | some newest =>
    let resp := { resp with recognized := true }
    if newest = [] then .json resp
    else
      match replaceTag image newest with
      | .error _ => .error 500 "internal error building the new image reference"
      | .ok newRef =>
        .json { resp with
          latestTag := newest
          updateAvailable := true
          newImageRef := newRef
          majorUpdate := majorUpdate ref.tag newest }

/-- The request is `none` when its body does not decode. -/
def handleCheckContainerImageUpdate {Credentials : Type} (s : Server Credentials) :
    Option Text → Reply
  | none => if ¬ s.containerUpdateChecksEnabled then .json {} else .error 400 "malformed request"
  | some image =>
    if ¬ s.containerUpdateChecksEnabled then .json {}
    else if ¬ validateContainerImageName image then .error 400 "invalid or missing image name"
    else
      match parseReference image with
      | .error _ => .error 400 "could not parse image reference"
      | .ok ref =>
        if ref.hasDigest then .json { enabled := true, currentTag := ref.tag }
        else
          match s.lookupRegistryCredentials ref.registryName with
          | .error (status, message) => .error status message
          | .ok (creds, insecure) =>
            match s.listTags ref creds insecure with
            | none => .error 502 "failed checking the registry for available tags"
            | some tags => suggest image ref tags

theorem mem_text {m : TagMatch} (h : m.Valid) {c : Char} (hc : c ∈ m.text) :
    c = 'v' ∨ c.isDigit = true ∨ c = '.' ∨ c ∈ m.suffix := by
  unfold TagMatch.text at hc
  simp only [List.mem_append, List.mem_cons] at hc
  rcases hc with hv | hmajor | hdot | hminor | hpatch | hsuffix
  · rcases h.leadingV with hnil | hone
    · rw [hnil] at hv
      cases hv
    · rw [hone] at hv
      exact Or.inl (List.mem_singleton.mp hv)
  · exact Or.inr (Or.inl (h.major.2 c hmajor))
  · exact Or.inr (Or.inr (Or.inl hdot))
  · exact Or.inr (Or.inl (h.minor.2 c hminor))
  · by_cases hnil : m.patch = []
    · rw [if_pos hnil] at hpatch
      cases hpatch
    · rw [if_neg hnil] at hpatch
      rcases List.mem_cons.mp hpatch with hdot | hdigit
      · exact Or.inr (Or.inr (Or.inl hdot))
      · exact Or.inr (Or.inl (h.patch c hdigit))
  · exact Or.inr (Or.inr (Or.inr hsuffix))

theorem suffix_subset_text (m : TagMatch) {c : Char} (hc : c ∈ m.suffix) : c ∈ m.text := by
  unfold TagMatch.text
  simp only [List.mem_append, List.mem_cons]
  exact Or.inr (Or.inr (Or.inr (Or.inr (Or.inr hc))))

/-- A tag ends with its suffix, or with a digit when it has none. -/
theorem getLast?_text {m : TagMatch} (h : m.Valid) :
    if m.suffix = [] then ∃ c, m.text.getLast? = some c ∧ c.isDigit = true
    else m.text.getLast? = m.suffix.getLast? := by
  have hsplit : m.text = (m.leadingV ++ (m.major ++ '.' :: (m.minor ++
      (if m.patch = [] then [] else '.' :: m.patch)))) ++ m.suffix := by
    unfold TagMatch.text
    simp only [List.append_assoc, List.cons_append]
  have hlast : ∀ {s : Text}, s ≠ [] → (∀ c ∈ s, c.isDigit = true) →
      ∃ c, s.getLast? = some c ∧ c.isDigit = true := by
    intro s hne hall
    exact ⟨s.getLast hne, List.getLast?_eq_some_getLast hne, hall _ (List.getLast_mem hne)⟩
  by_cases hsuffix : m.suffix = []
  · rw [if_pos hsuffix]
    rw [hsplit, hsuffix, List.append_nil, List.getLast?_append, List.getLast?_append,
      List.getLast?_cons, List.getLast?_append]
    by_cases hpatch : m.patch = []
    · obtain ⟨c, hc, hdigit⟩ := hlast h.minor.1 h.minor.2
      exact ⟨c, by rw [if_pos hpatch, hc]; rfl, hdigit⟩
    · obtain ⟨c, hc, hdigit⟩ := hlast hpatch h.patch
      exact ⟨c, by rw [if_neg hpatch, List.getLast?_cons, hc]; rfl, hdigit⟩
  · rw [if_neg hsuffix]
    rw [hsplit, List.getLast?_append, List.getLast?_eq_some_getLast hsuffix]
    rfl

theorem isAlnum_of_isDigit {c : Char} (h : c.isDigit = true) : isAlnum c = true := by
  have hrange : '0' ≤ c ∧ c ≤ '9' := by
    simp only [Char.isDigit, Bool.and_eq_true, decide_eq_true_eq, ge_iff_le] at h
    exact h
  unfold isAlnum
  rw [decide_eq_true hrange.1, decide_eq_true hrange.2]
  exact Bool.or_true _

/-- A tag of the same suffix as a name's tag fits into the name: it adds no letter but digits, dots and
a leading `v`, and ends as the name ends or with a digit. -/
theorem pattern_replace {pathPart tag newTag : Text}
    (himage : containerImageNamePattern (pathPart ++ ':' :: tag) = true)
    {m m' : TagMatch} (hm : m.Valid) (hm' : m'.Valid) (htag : tag = m.text)
    (hnew : newTag = m'.text) (hsuffix : m'.suffix = m.suffix) :
    containerImageNamePattern (pathPart ++ ':' :: newTag) = true := by
  obtain ⟨⟨first, hfirst, hfirstAlnum⟩, ⟨last, hlast, hlastAlnum⟩, hall⟩ :=
    containerImageNamePattern_iff.mp himage
  have hchars : ∀ c ∈ newTag, isNameChar c = true := by
    intro c hc
    rw [hnew] at hc
    rcases mem_text hm' hc with rfl | hdigit | rfl | hsuf
    · decide
    · exact isNameChar_of_isAlnum (isAlnum_of_isDigit hdigit)
    · decide
    · refine hall c (List.mem_append_right _ (List.mem_cons_of_mem _ ?_))
      rw [htag]
      exact suffix_subset_text m (hsuffix ▸ hsuf)
  refine containerImageNamePattern_iff.mpr ⟨?_, ?_, ?_⟩
  · cases pathPart with
    | nil =>
      cases hfirst
      exact absurd hfirstAlnum (by decide)
    | cons c rest => exact ⟨first, hfirst, hfirstAlnum⟩
  · rw [List.getLast?_append, List.getLast?_cons, hnew]
    have hold := getLast?_text hm
    have hend := getLast?_text hm'
    rw [hsuffix] at hend
    by_cases hnone : m.suffix = []
    · rw [if_pos hnone] at hend
      obtain ⟨c, hc, hdigit⟩ := hend
      exact ⟨c, by rw [hc]; rfl, isAlnum_of_isDigit hdigit⟩
    · rw [if_neg hnone] at hend hold
      refine ⟨last, ?_, hlastAlnum⟩
      rw [hend, ← hold, ← htag, ← hlast, List.getLast?_append, List.getLast?_cons]
  · intro c hc
    rcases List.mem_append.mp hc with hpath | htail
    · exact hall c (List.mem_append_left _ hpath)
    · rcases List.mem_cons.mp htail with rfl | hmem
      · decide
      · exact hchars c hmem

theorem notMem_text {m m' : TagMatch} (hm' : m'.Valid) (hsuffix : m'.suffix = m.suffix) {c : Char}
    (hplain : c ≠ 'v' ∧ c.isDigit = false ∧ c ≠ '.') (hc : c ∉ m.text) : c ∉ m'.text := by
  intro hmem
  rcases mem_text hm' hmem with hv | hdigit | hdot | hsuf
  · exact hplain.1 hv
  · rw [hplain.2.1] at hdigit
    cases hdigit
  · exact hplain.2.2 hdot
  · exact hc (suffix_subset_text m (hsuffix ▸ hsuf))

/-- The parts of a suggested reference: the submitted name and the new one share the path, and the
new tag is of the current flavor and newer. -/
structure OnlyVersion (image : Text) (ref : Reference) (newRef newTag : Text) : Prop where
  accepted : containerImageNamePattern newRef = true
  parses : parseReference newRef = .ok { ref with tag := newTag }
  newer : ∃ cur next, parseTag ref.tag = some cur ∧ parseTag newTag = some next ∧
    next.hasLeadingV = cur.hasLeadingV ∧ next.hasPatch = cur.hasPatch ∧ next.suffix = cur.suffix ∧
    Newer next cur

theorem sameFlavor_iff {a b : ParsedTag} : sameFlavor a b = true ↔
    a.hasLeadingV = b.hasLeadingV ∧ a.hasPatch = b.hasPatch ∧ a.suffix = b.suffix := by
  unfold sameFlavor
  rw [Bool.and_eq_true, Bool.and_eq_true, beq_iff_eq, beq_iff_eq, beq_iff_eq]
  exact ⟨fun ⟨⟨hv, hs⟩, hp⟩ => ⟨hv, hp, hs⟩, fun ⟨hv, hp, hs⟩ => ⟨⟨hv, hs⟩, hp⟩⟩

theorem hasDigest_eq {image : Text} {ref : Reference} (hname : containerImageNamePattern image = true)
    (href : parseReference image = .ok ref) (hdigest : ref.hasDigest = false) : '@' ∉ image := by
  intro hat
  obtain ⟨⟨c, hhead, -⟩, -, hall⟩ := containerImageNamePattern_iff.mp hname
  have hne : image ≠ [] := by
    rintro rfl
    cases hhead
  obtain ⟨xs, ys, -, -, hidx⟩ := exists_idxOf? hat
  unfold parseReference at href
  rw [trimSpace_eq hall] at href
  dsimp only at href
  rw [if_neg hne, hidx] at href
  dsimp only at href
  split at href
  · cases href
  · rw [(tag_referenceOf href).2] at hdigest
    cases hdigest

/-- `latest` is no version: a name with a version for its tag has it written out. -/
theorem tag_written {image pathPart tag : Text} {ref : Reference} {cur : ParsedTag}
    (href : referenceOf image pathPart tag false = .ok ref) (hcur : parseTag ref.tag = some cur) :
    tag ≠ [] ∧ ref.tag = tag := by
  have hread := (tag_referenceOf href).1
  have hlatest : parseTag "latest".toList = none := by decide
  by_cases hnil : tag = []
  · rw [if_pos hnil] at hread
    rw [hread, hlatest] at hcur
    cases hcur
  · rw [if_neg hnil] at hread
    exact ⟨hnil, hread⟩

/-- The new tag in the place of the current one. -/
theorem onlyVersion_of_suggested {image pathPart tag : Text} {ref : Reference} {tags : List Text}
    {cur next : ParsedTag} (hname : containerImageNamePattern image = true) (hat : '@' ∉ image)
    (hsplit : splitTag image = (pathPart, tag)) (href : parseReference image = .ok ref)
    (hcur : parseTag ref.tag = some cur) (hnext : Suggested tags cur next) :
    OnlyVersion image ref (pathPart ++ ':' :: next.raw) next.raw := by
  have hflavor := sameFlavor_iff.mp hnext.flavor
  obtain ⟨-, m, hm, htext, hsuf⟩ := parseTag_eq_some hcur
  obtain ⟨-, m', hm', htext', hsuf'⟩ := parseTag_eq_some hnext.parse
  have hsuffix : m'.suffix = m.suffix := by rw [← hsuf', ← hsuf, hflavor.2.2]
  rw [parseReference_eq hname hat, hsplit] at href
  dsimp only at href
  obtain ⟨hne, hread⟩ := tag_written href hcur
  rw [hread] at htext
  obtain ⟨rfl, hcolon, hslash⟩ := splitTag_ne_nil hsplit hne
  rw [htext] at hcolon hslash
  have hnewColon : ':' ∉ next.raw := by
    rw [htext']
    exact notMem_text hm' hsuffix (by decide) hcolon
  have hnewSlash : '/' ∉ next.raw := by
    rw [htext']
    exact notMem_text hm' hsuffix (by decide) hslash
  have hnewAt : '@' ∉ next.raw := by
    rw [htext']
    refine notMem_text hm' hsuffix (by decide) fun hmem => hat ?_
    exact List.mem_append_right _ (List.mem_cons_of_mem _ (htext ▸ hmem))
  have haccepted := pattern_replace hname hm hm' htext htext' hsuffix
  have hnewRef : '@' ∉ pathPart ++ ':' :: next.raw := by
    intro hmem
    rcases List.mem_append.mp hmem with hpath | htail
    · exact hat (List.mem_append_left _ hpath)
    · rcases List.mem_cons.mp htail with hc | htag
      · exact absurd hc (by decide)
      · exact hnewAt htag
  have hnewNe : next.raw ≠ [] := by
    rw [htext']
    intro hnil
    have hdot : '.' ∈ m'.text := by
      unfold TagMatch.text
      simp only [List.mem_append, List.mem_cons, true_or, or_true]
    rw [hnil] at hdot
    cases hdot
  refine ⟨haccepted, ?_, cur, next, hcur, hnext.parse, hflavor.1, hflavor.2.1, hflavor.2.2,
    hnext.newer⟩
  rw [parseReference_eq haccepted hnewRef, splitTag_append pathPart hnewColon hnewSlash]
  exact referenceOf_tag href hnewNe

theorem suggest_only_version {image : Text} {ref : Reference} {tags : List Text}
    {resp : CheckResponse} (hname : containerImageNamePattern image = true)
    (href : parseReference image = .ok ref) (hdigest : ref.hasDigest = false)
    (h : suggest image ref tags = .json resp) (hreport : resp.newImageRef ≠ []) :
    OnlyVersion image ref resp.newImageRef resp.latestTag := by
  have hat := hasDigest_eq hname href hdigest
  obtain ⟨pathPart, tag, hsplit⟩ : ∃ p t, splitTag image = (p, t) := ⟨_, _, rfl⟩
  unfold suggest at h
  dsimp only at h
  cases hnewest : newestMatching tags ref.tag with
  | none =>
    rw [hnewest] at h
    cases h
    exact absurd rfl hreport
  | some newest =>
    rw [hnewest] at h
    dsimp only at h
    by_cases hempty : newest = []
    · rw [if_pos hempty] at h
      cases h
      exact absurd rfl hreport
    · have hreplace : replaceTag image newest = .ok (pathPart ++ ':' :: newest) := by
        unfold replaceTag
        rw [if_neg hat, hsplit]
      rw [if_neg hempty, hreplace] at h
      cases h
      obtain ⟨cur, next, hcur, rfl, hnext⟩ := newestMatching_eq_some hnewest hempty
      exact onlyVersion_of_suggested hname hat hsplit href hcur hnext

/-- Whatever the registry lists, a new image reference that is reported is accepted by the allowlist,
reads as the submitted one but for its tag, and the new tag is of the same flavor and strictly
newer. -/
theorem newImageRef_only_version {Credentials : Type} (s : Server Credentials) (image : Text)
    (resp : CheckResponse) (h : handleCheckContainerImageUpdate s (some image) = .json resp)
    (hreport : resp.newImageRef ≠ []) :
    validateContainerImageName image = true ∧ ∃ ref, parseReference image = .ok ref ∧
      OnlyVersion image ref resp.newImageRef resp.latestTag := by
  unfold handleCheckContainerImageUpdate at h
  dsimp only at h
  by_cases henabled : s.containerUpdateChecksEnabled = true
  · rw [if_neg (not_not_intro henabled)] at h
    by_cases hvalid : validateContainerImageName image = true
    · rw [if_neg (not_not_intro hvalid)] at h
      have hname : containerImageNamePattern image = true := by
        unfold validateContainerImageName at hvalid
        exact (Bool.and_eq_true_iff.mp hvalid).2
      cases href : parseReference image with
      | error err =>
        rw [href] at h
        cases h
      | ok ref =>
        rw [href] at h
        dsimp only at h
        by_cases hdigest : ref.hasDigest = true
        · rw [if_pos hdigest] at h
          cases h
          exact absurd rfl hreport
        · rw [if_neg hdigest] at h
          refine ⟨hvalid, ref, rfl, ?_⟩
          split at h
          · cases h
          · split at h
            · cases h
            · exact suggest_only_version hname href (Bool.eq_false_iff.mpr hdigest) h hreport
    · rw [if_pos hvalid] at h
      cases h
  · rw [if_pos henabled] at h
    cases h
    exact absurd rfl hreport

/-- A registry that also lists a shell command, a line break and a number no `int` holds. -/
def hostileServer : Server Unit where
  containerUpdateChecksEnabled := true
  lookupRegistryCredentials _ := .ok (none, false)
  listTags _ _ _ := some ["latest".toList, "v1.10.0-alpine".toList, "v1.9.0".toList,
    "v3.0.0-$(reboot)".toList, "v4.0.0-alpine\n".toList, "v99999999999999999999.0.0-alpine".toList]

theorem hostileServer_reply :
    handleCheckContainerImageUpdate hostileServer (some "ghcr.io/org/app:v1.2.3-alpine".toList) =
      .json {
        enabled := true
        currentTag := "v1.2.3-alpine".toList
        recognized := true
        latestTag := "v1.10.0-alpine".toList
        updateAvailable := true
        newImageRef := "ghcr.io/org/app:v1.10.0-alpine".toList } := by
  decide

theorem hostileServer_only_version :
    validateContainerImageName "ghcr.io/org/app:v1.2.3-alpine".toList = true ∧
      ∃ ref, parseReference "ghcr.io/org/app:v1.2.3-alpine".toList = .ok ref ∧
        OnlyVersion "ghcr.io/org/app:v1.2.3-alpine".toList ref
          "ghcr.io/org/app:v1.10.0-alpine".toList "v1.10.0-alpine".toList :=
  newImageRef_only_version hostileServer _ _ hostileServer_reply (by decide)

end VyosClient.ImageUpdate
