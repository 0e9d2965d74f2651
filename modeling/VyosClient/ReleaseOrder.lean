import VyosClient.ImageTag
import Mathlib.Data.Prod.Lex
import Mathlib.Data.Sum.Order
import Mathlib.Order.RelClasses

/-!
The releases of this application, newest first. The comparator of the sort sets versions that
parse before all others, these by their numbers and the others by their dates: it compares one
key in a linear order. The status handler reads the newest version and the newer ones off the
sorted list.
-/

namespace VyosClient.ReleaseOrder

open ImageReference ImageTag

/-- The whole match of `^v?(\d+)\.(\d+)\.(\d+)` and its groups. -/
structure SemverMatch where
  whole : Text
  major : Text
  minor : Text
  patch : Text
deriving DecidableEq, Repr

/-- What follows the optional `v`. -/
def semverPatternCore (leadingV s : Text) : Option SemverMatch :=
  let major := s.takeWhile Char.isDigit
  match s.dropWhile Char.isDigit with
  | '.' :: rest =>
    let minor := rest.takeWhile Char.isDigit
    match rest.dropWhile Char.isDigit with
    | '.' :: rest =>
      let patch := rest.takeWhile Char.isDigit
      if major = [] ∨ minor = [] ∨ patch = [] then none
      else some ⟨leadingV ++ major ++ '.' :: minor ++ '.' :: patch, major, minor, patch⟩
    | _ => none
  | _ => none

def semverPattern : Text → Option SemverMatch
  | 'v' :: rest => semverPatternCore ['v'] rest
  | raw => semverPatternCore [] raw

structure Semver where
  major : ℤ
  minor : ℤ
  patch : ℤ
deriving DecidableEq, Repr

def parseSemver (raw : Text) : Option Semver :=
  match semverPattern (trimSpace raw) with
  | none => none
  | some m =>
    match atoi m.major, atoi m.minor, atoi m.patch with
    | some major, some minor, some patch => some ⟨major, minor, patch⟩
    | _, _, _ => none

def Semver.compare (v other : Semver) : ℤ :=
  if v.major ≠ other.major then cmpCompare v.major other.major
  else if v.minor ≠ other.minor then cmpCompare v.minor other.minor
  else cmpCompare v.patch other.patch

/-- `strings.TrimPrefix(s, "v")`. -/
def trimV : Text → Text
  | 'v' :: rest => rest
  | s => s

/-- The version of a tag that is exactly one, else the empty text. -/
def normalizeVersion (tag : Text) : Text :=
  let core := trimV (trimSpace tag)
  match semverPattern core with
  | none => []
  | some m => if m.whole ≠ core then [] else m.major ++ '.' :: m.minor ++ '.' :: m.patch

structure RawRelease where
  tagName : Text
  name : String
  body : String
  draft : Bool
  prerelease : Bool
  publishedAt : String
  htmlURL : String

/-- The publish date is an instant in nanoseconds since the zero time. -/
structure Release where
  tag : Text
  version : Text
  name : String
  body : String
  publishedAt : ℤ
  htmlURL : String
deriving DecidableEq, Repr

/-- The releases of the pages that were fetched, as they came. `timeParse` reads an RFC 3339 date; a
date it does not read is the zero time. -/
def kept (timeParse : String → Option ℤ) (raw : List RawRelease) : List Release :=
  raw.filterMap fun r =>
    if r.draft || r.prerelease then none
    else some ⟨r.tagName, normalizeVersion r.tagName, r.name, r.body,
      (timeParse r.publishedAt).getD 0, r.htmlURL⟩

/-- The comparator of the sort. -/
def less (a b : Release) : Bool :=
  match parseSemver a.version, parseSemver b.version with
  | some va, some vb => va.compare vb > 0
  | some _, none => true
  | none, some _ => false
  | none, none => a.publishedAt > b.publishedAt

/-- `sort.Slice`: some order of the elements in which none comes after one it is less than. -/
structure SortSlice {α : Type} (less : α → α → Bool) (input output : List α) : Prop where
  perm : output.Perm input
  sorted : output.Pairwise fun a b => less b a = false

/-- `none` when the current version does not parse. -/
def newerThan (releases : List Release) (current : Text) : Option (List Release) :=
  match parseSemver current with
  | none => none
  | some curSV =>
    some (releases.filter fun r =>
      match parseSemver r.version with
      | none => false
      | some rv => rv.compare curSV > 0)

structure ReleaseResponse where
  version : Text
  name : String
  body : String
  publishedAt : Option ℤ
  htmlURL : String
  imageExists : Bool
deriving DecidableEq, Repr

structure StatusResponse where
  enabled : Bool := false
  containerName : String := ""
  imageRepo : String := ""
  currentVersion : Text := []
  latestVersion : Text := []
  currentVersionRecognized : Bool := false
  updateAvailable : Bool := false
  releases : List ReleaseResponse := []
deriving DecidableEq, Repr

inductive Reply
  | json (resp : StatusResponse)
  | error (status : ℕ) (message : String)
deriving DecidableEq, Repr

/-- The server; without a GitHub client there is no repository. `imageExists` is what the registry
answers for a version. -/
structure Server where
  selfUpgradeEnabled : Bool
  selfUpgradeContainerName : String
  repo : Option String
  version : Text
  imageExists : Text → Bool

/-- A date that was not read is left out. -/
def releaseResponse (imageExists : Bool) (rel : Release) : ReleaseResponse where
  version := rel.version
  name := rel.name
  body := rel.body
  publishedAt := if rel.publishedAt = 0 then none else some rel.publishedAt
  htmlURL := rel.htmlURL
  imageExists := imageExists

/-- Only the image of the first one is looked for. -/
def releaseResponses (imageExists : Text → Bool) : List Release → List ReleaseResponse
  | [] => []
  | rel :: rest => releaseResponse (imageExists rel.version) rel :: rest.map (releaseResponse false)

/-- The first version that is not empty. -/
def latestVersion (releases : List Release) : Text :=
  ((releases.find? fun rel => rel.version ≠ []).map Release.version).getD []

/-- The releases are those the client lists, `none` when it fails. -/
def handleSelfUpgradeStatus (s : Server) (releases : Option (List Release)) : Reply :=
  if ¬ s.selfUpgradeEnabled then .json {}
  else
    match s.repo with
    | none => .error 500 "self-upgrade is misconfigured; contact your administrator"
    | some repo =>
      match releases with
      | none => .error 502 "failed checking for updates on GitHub"
      | some releases =>
        let resp : StatusResponse :=
          { enabled := true
            containerName := s.selfUpgradeContainerName
            imageRepo := "ghcr.io/" ++ repo
            currentVersion := s.version
            latestVersion := latestVersion releases }
        match newerThan releases s.version with
        | none => .json resp
        | some newer =>
          .json { resp with
            currentVersionRecognized := true
            updateAvailable := newer.length > 0
            releases := releaseResponses s.imageExists newer }

/-- The numbers of a version, in the order in which they count. -/
def Semver.numbers (v : Semver) : ℤ ×ₗ ℤ ×ₗ ℤ := toLex (v.major, toLex (v.minor, v.patch))

theorem numbers_injective : Function.Injective Semver.numbers := by
  intro v w h
  have hlex := toLex.injective h
  rw [Prod.mk.injEq] at hlex
  have hrest := toLex.injective hlex.2
  rw [Prod.mk.injEq] at hrest
  cases v
  cases w
  rw [Semver.mk.injEq]
  exact ⟨hlex.1, hrest.1, hrest.2⟩

instance : LinearOrder Semver := LinearOrder.lift' Semver.numbers numbers_injective

theorem lt_iff_numbers {v w : Semver} : v < w ↔ v.major < w.major ∨ v.major = w.major ∧
    (v.minor < w.minor ∨ v.minor = w.minor ∧ v.patch < w.patch) := by
  show v.numbers < w.numbers ↔ _
  rw [Semver.numbers, Semver.numbers, Prod.Lex.toLex_lt_toLex, Prod.Lex.toLex_lt_toLex]

theorem compare_pos_iff {v w : Semver} : v.compare w > 0 ↔ w < v := by
  unfold Semver.compare
  rw [lt_iff_numbers]
  by_cases hmajor : v.major = w.major
  · rw [if_neg (not_not_intro hmajor)]
    by_cases hminor : v.minor = w.minor
    · rw [if_neg (not_not_intro hminor)]
      have hpatch := cmpCompare_pos (a := v.patch) (b := w.patch)
      omega
    · rw [if_pos hminor]
      have hlater := cmpCompare_pos (a := v.minor) (b := w.minor)
      omega
  · rw [if_pos hmajor]
    have hlater := cmpCompare_pos (a := v.major) (b := w.major)
    omega

/-- Where a release stands: by its version, or below all versions by its date. -/
def rank (r : Release) : ℤ ⊕ₗ Semver :=
  match parseSemver r.version with
  | some v => toLex (.inr v)
  | none => toLex (.inl r.publishedAt)

theorem rank_of_parse {r : Release} {v : Semver} (h : parseSemver r.version = some v) :
    rank r = toLex (.inr v) := by
  simp only [rank, h]

theorem rank_of_not_parse {r : Release} (h : parseSemver r.version = none) :
    rank r = toLex (.inl r.publishedAt) := by
  simp only [rank, h]

/-- The comparator compares ranks. -/
theorem less_iff (a b : Release) : less a b = true ↔ rank b < rank a := by
  unfold less
  cases ha : parseSemver a.version with
  | some va =>
    rw [rank_of_parse ha]
    cases hb : parseSemver b.version with
    | some vb =>
      rw [rank_of_parse hb, Sum.Lex.inr_lt_inr_iff, decide_eq_true_iff, compare_pos_iff]
    | none =>
      rw [rank_of_not_parse hb]
      exact iff_of_true rfl (Sum.Lex.inl_lt_inr _ _)
  | none =>
    rw [rank_of_not_parse ha]
    cases hb : parseSemver b.version with
    | some vb =>
      rw [rank_of_parse hb]
      exact iff_of_false Bool.false_ne_true Sum.Lex.not_inr_lt_inl
    | none =>
      rw [rank_of_not_parse hb, Sum.Lex.inl_lt_inl_iff, decide_eq_true_iff]

theorem isStrictWeakOrder_less : IsStrictWeakOrder Release fun a b => less a b = true := by
  have hrank : (fun a b => less a b = true) = fun a b => rank b < rank a := by
    funext a b
    exact propext (less_iff a b)
  rw [hrank]
  exact {
    irrefl := fun a => lt_irrefl (rank a)
    trans := fun a b c hab hbc => hbc.trans hab
    incomp_trans := fun a b c hab hbc => by
      have hba : rank a = rank b := le_antisymm (not_lt.mp hab.1) (not_lt.mp hab.2)
      have hcb : rank b = rank c := le_antisymm (not_lt.mp hbc.1) (not_lt.mp hbc.2)
      rw [hba, hcb]
      exact ⟨lt_irrefl _, lt_irrefl _⟩ }

/-- In a sorted list the ranks do not rise. -/
theorem rank_pairwise {releases input : List Release} (h : SortSlice less input releases) :
    releases.Pairwise fun a b => rank b ≤ rank a := by
  refine h.sorted.imp fun {a b} hnot => ?_
  by_contra hlt
  rw [(less_iff b a).mpr (not_le.mp hlt)] at hnot
  cases hnot

/-- The version parses. -/
def Versioned (r : Release) : Prop := (parseSemver r.version).isSome = true

instance : DecidablePred Versioned := fun _ => inferInstanceAs (Decidable (_ = true))

theorem versioned_iff {r : Release} : Versioned r ↔ ∃ v, parseSemver r.version = some v :=
  Option.isSome_iff_exists

theorem versioned_of_rank_le {a b : Release} (h : rank b ≤ rank a) (hb : Versioned b) :
    Versioned a := by
  obtain ⟨v, hv⟩ := versioned_iff.mp hb
  rw [rank_of_parse hv] at h
  by_contra hnot
  rw [rank_of_not_parse (Option.not_isSome_iff_eq_none.mp hnot)] at h
  exact Sum.Lex.not_inr_le_inl h

/-- Releases with a version come before those without. -/
theorem versions_first {releases : List Release}
    (h : releases.Pairwise fun a b => rank b ≤ rank a) :
    releases = releases.filter (Versioned ·) ++ releases.filter (¬ Versioned ·) := by
  induction releases with
  | nil => rfl
  | cons r rest ih =>
    obtain ⟨hle, hrest⟩ := List.pairwise_cons.mp h
    by_cases hr : Versioned r
    · rw [List.filter_cons_of_pos (by simpa using hr), List.filter_cons_of_neg (by simpa using hr),
        List.cons_append, ← ih hrest]
    · have hnone : ∀ r' ∈ rest, ¬ Versioned r' := fun r' hr' hv =>
        hr (versioned_of_rank_le (hle r' hr') hv)
      have hfront : rest.filter (Versioned ·) = [] :=
        List.filter_eq_nil_iff.mpr fun r' hr' => by simpa using hnone r' hr'
      have hback : rest.filter (¬ Versioned ·) = rest :=
        List.filter_eq_self.mpr fun r' hr' => by simpa using hnone r' hr'
      rw [List.filter_cons_of_neg (by simpa using hr), List.filter_cons_of_pos (by simpa using hr),
        hfront, hback, List.nil_append]

/-- The list in two parts: versions that do not rise, then dates that do not rise. -/
structure NewestFirst (releases versions rest : List Release) : Prop where
  split : releases = versions ++ rest
  versioned : ∀ r ∈ versions, Versioned r
  versions_le : versions.Pairwise fun a b =>
    ∀ v w, parseSemver a.version = some v → parseSemver b.version = some w → w ≤ v
  unversioned : ∀ r ∈ rest, ¬ Versioned r
  dates_le : rest.Pairwise fun a b => b.publishedAt ≤ a.publishedAt

theorem newestFirst {releases : List Release} (h : releases.Pairwise fun a b => rank b ≤ rank a) :
    NewestFirst releases (releases.filter (Versioned ·)) (releases.filter (¬ Versioned ·)) := by
  constructor
  case split => exact versions_first h
  case versioned => exact fun r hr => of_decide_eq_true (List.mem_filter.mp hr).2
  case versions_le =>
    refine (h.filter _).imp fun {a b} hle v w hv hw => ?_
    rw [rank_of_parse hv, rank_of_parse hw, Sum.Lex.inr_le_inr_iff] at hle
    exact hle
  case unversioned => exact fun r hr => of_decide_eq_true (List.mem_filter.mp hr).2
  case dates_le =>
    refine List.Pairwise.imp_of_mem ?_ (h.filter _)
    intro a b ha hb hle
    have hnone : ∀ {r}, r ∈ releases.filter (¬ Versioned ·) → parseSemver r.version = none :=
      fun hr => Option.not_isSome_iff_eq_none.mp (of_decide_eq_true (List.mem_filter.mp hr).2)
    rw [rank_of_not_parse (hnone ha), rank_of_not_parse (hnone hb), Sum.Lex.inl_le_inl_iff] at hle
    exact hle

/-- The version of the release is later than the current one. -/
def LaterThan (cur : Semver) (r : Release) : Prop :=
  ∃ v, parseSemver r.version = some v ∧ cur < v

instance (cur : Semver) : DecidablePred (LaterThan cur) := fun r =>
  match h : parseSemver r.version with
  | none => isFalse fun ⟨v, hv, _⟩ => by rw [h] at hv; cases hv
  | some v =>
    if hlt : cur < v then isTrue ⟨v, h, hlt⟩
    else isFalse fun ⟨w, hw, hcur⟩ => by rw [h] at hw; cases hw; exact hlt hcur

theorem newerThan_eq (releases : List Release) (current : Text) :
    newerThan releases current =
      (parseSemver current).map fun cur => releases.filter (LaterThan cur ·) := by
  unfold newerThan
  cases parseSemver current with
  | none => rfl
  | some cur =>
    rw [Option.map_some]
    refine congrArg some (List.filter_congr fun r _ => ?_)
    cases hr : parseSemver r.version with
    | none =>
      apply Eq.symm
      apply decide_eq_false
      rintro ⟨v, hv, -⟩
      rw [hr] at hv
      cases hv
    | some v =>
      apply decide_eq_decide.mpr
      rw [compare_pos_iff]
      refine ⟨fun hlt => ⟨v, hr, hlt⟩, ?_⟩
      rintro ⟨w, hw, hlt⟩
      rw [hr] at hw
      cases hw
      exact hlt

theorem version_ne_nil {r : Release} (h : Versioned r) : r.version ≠ [] := by
  intro hnil
  unfold Versioned at h
  rw [hnil] at h
  cases h

/-- When any version parses, the version reported as the latest is that of the first release, and no
other one is later. -/
theorem latestVersion_eq {releases : List Release}
    (h : releases.Pairwise fun a b => rank b ≤ rank a) {r : Release} (hr : r ∈ releases)
    (hversioned : Versioned r) :
    ∃ newest ∈ releases.head?, latestVersion releases = newest.version ∧
      ∃ v, parseSemver newest.version = some v ∧
        ∀ r' ∈ releases, ∀ w, parseSemver r'.version = some w → w ≤ v := by
  cases releases with
  | nil => cases hr
  | cons newest rest =>
    have hle := (List.pairwise_cons.mp h).1
    have hnewest : Versioned newest := by
      rcases List.mem_cons.mp hr with rfl | hr
      · exact hversioned
      · exact versioned_of_rank_le (hle r hr) hversioned
    obtain ⟨v, hv⟩ := versioned_iff.mp hnewest
    refine ⟨newest, rfl, ?_, v, hv, fun r' hr' w hw => ?_⟩
    · unfold latestVersion
      rw [List.find?_cons_of_pos (by simpa using version_ne_nil hnewest)]
      rfl
    · rcases List.mem_cons.mp hr' with rfl | hr'
      · rw [hv] at hw
        cases hw
        exact le_refl _
      · have hrank := hle r' hr'
        rw [rank_of_parse hv, rank_of_parse hw, Sum.Lex.inr_le_inr_iff] at hrank
        exact hrank

theorem parseSemver_latestVersion_of_none {releases : List Release}
    (h : ∀ r ∈ releases, ¬ Versioned r) : parseSemver (latestVersion releases) = none := by
  unfold latestVersion
  cases hfind : releases.find? (fun rel => rel.version ≠ []) with
  | none => rfl
  | some r => exact Option.not_isSome_iff_eq_none.mp (h r (List.mem_of_find?_eq_some hfind))

/-- What a reply says of the releases it was made from. -/
structure Reports (releases : List Release) (version : Text) (resp : StatusResponse) : Prop where
  latest : (∃ r ∈ releases, Versioned r) →
    ∃ newest ∈ releases.head?, resp.latestVersion = newest.version ∧
      ∃ v, parseSemver newest.version = some v ∧
        ∀ r ∈ releases, ∀ w, parseSemver r.version = some w → w ≤ v
  unversioned : (∀ r ∈ releases, ¬ Versioned r) → parseSemver resp.latestVersion = none
  unrecognized : parseSemver version = none →
    resp.currentVersionRecognized = false ∧ resp.updateAvailable = false ∧ resp.releases = []
  recognized : ∀ cur, parseSemver version = some cur →
    resp.currentVersionRecognized = true ∧
      resp.releases.map (fun r => { r with imageExists := false }) =
        (releases.filter (LaterThan cur ·)).map (releaseResponse false) ∧
      (resp.updateAvailable = true ↔
        ∃ v, parseSemver resp.latestVersion = some v ∧ cur < v)

theorem map_releaseResponses (imageExists : Text → Bool) (newer : List Release) :
    (releaseResponses imageExists newer).map (fun r => { r with imageExists := false }) =
      newer.map (releaseResponse false) := by
  cases newer with
  | nil => rfl
  | cons rel rest =>
    rw [releaseResponses, List.map_cons, List.map_map, List.map_cons]
    rfl

/-- There is an update when the latest version is later than the current one. -/
theorem exists_later_iff {releases : List Release}
    (h : releases.Pairwise fun a b => rank b ≤ rank a) (cur : Semver) :
    (releases.filter (LaterThan cur ·)).length > 0 ↔
      ∃ v, parseSemver (latestVersion releases) = some v ∧ cur < v := by
  constructor
  · intro hpos
    obtain ⟨r, hr⟩ := List.exists_mem_of_length_pos hpos
    obtain ⟨hmem, hlater⟩ := List.mem_filter.mp hr
    obtain ⟨w, hw, hlt⟩ := of_decide_eq_true hlater
    obtain ⟨newest, -, heq, v, hv, hgreatest⟩ :=
      latestVersion_eq h hmem (versioned_iff.mpr ⟨w, hw⟩)
    exact ⟨v, heq ▸ hv, hlt.trans_le (hgreatest r hmem w hw)⟩
  · rintro ⟨v, hv, hlt⟩
    by_cases hany : ∃ r ∈ releases, Versioned r
    · obtain ⟨r, hr, hversioned⟩ := hany
      obtain ⟨newest, hnewest, heq, -⟩ := latestVersion_eq h hr hversioned
      rw [heq] at hv
      exact List.length_pos_of_mem (List.mem_filter.mpr
        ⟨List.mem_of_mem_head? hnewest, decide_eq_true ⟨v, hv, hlt⟩⟩)
    · have hnone : ∀ r ∈ releases, ¬ Versioned r := fun r hr hv => hany ⟨r, hr, hv⟩
      rw [parseSemver_latestVersion_of_none hnone] at hv
      cases hv

theorem reports_handler {s : Server} {repo : String} {releases : List Release}
    (hrank : releases.Pairwise fun a b => rank b ≤ rank a) (henabled : s.selfUpgradeEnabled = true)
    (hrepo : s.repo = some repo) :
    ∃ resp, handleSelfUpgradeStatus s (some releases) = .json resp ∧
      Reports releases s.version resp := by
  have hlatest : (∃ r ∈ releases, Versioned r) → _ := fun ⟨_, hr, hv⟩ =>
    latestVersion_eq hrank hr hv
  unfold handleSelfUpgradeStatus
  rw [if_neg (not_not_intro henabled), hrepo]
  dsimp only
  rw [newerThan_eq]
  cases hcur : parseSemver s.version with
  | none =>
    refine ⟨_, rfl, hlatest, parseSemver_latestVersion_of_none, fun _ => ⟨rfl, rfl, rfl⟩,
      fun cur h => ?_⟩
    rw [hcur] at h
    cases h
  | some cur =>
    refine ⟨_, rfl, hlatest, parseSemver_latestVersion_of_none, fun h => ?_, fun cur' h => ?_⟩
    · rw [hcur] at h
      cases h
    · rw [hcur] at h
      cases h
      exact ⟨rfl, map_releaseResponses s.imageExists _,
        decide_eq_true_iff.trans (exists_later_iff hrank cur)⟩

/-- The comparator is a strict weak order. Whatever order `sort.Slice` makes with it of the releases
that are kept, these come newest first, and the status handler reports what follows from that order,
for every current version. -/
theorem releases_newest_first (timeParse : String → Option ℤ) (raw : List RawRelease)
    {releases : List Release} (h : SortSlice less (kept timeParse raw) releases) :
    IsStrictWeakOrder Release (fun a b => less a b = true) ∧
    releases.Perm (kept timeParse raw) ∧
    (∃ versions rest, NewestFirst releases versions rest) ∧
    ∀ (s : Server) (repo : String), s.selfUpgradeEnabled = true → s.repo = some repo →
      ∃ resp, handleSelfUpgradeStatus s (some releases) = .json resp ∧
        Reports releases s.version resp := by
  have hrank := rank_pairwise h
  exact ⟨isStrictWeakOrder_less, h.perm, ⟨_, _, newestFirst hrank⟩,
    fun s repo henabled hrepo => reports_handler hrank henabled hrepo⟩

/-- Releases as GitHub lists them: one with a number too large for an `int`, and a draft. -/
def fourReleases : List RawRelease :=
  [⟨"v1.9.0".toList, "", "", false, false, "2024-05-01T00:00:00Z", ""⟩,
    ⟨"v99999999999999999999.0.0".toList, "", "", false, false, "2024-06-01T00:00:00Z", ""⟩,
    ⟨"v1.10.0".toList, "", "", false, false, "2024-04-01T00:00:00Z", ""⟩,
    ⟨"v2.0.0".toList, "", "", true, false, "2024-07-01T00:00:00Z", ""⟩]

/-- The dates above, in seconds since the zero time. -/
def datesOf2024 (date : String) : Option ℤ :=
  if date = "2024-04-01T00:00:00Z" then some 63847526400
  else if date = "2024-05-01T00:00:00Z" then some 63850118400
  else if date = "2024-06-01T00:00:00Z" then some 63852796800 else none

theorem fourReleases_newest_first :
    ∃ versions rest, NewestFirst
      [⟨"v1.10.0".toList, "1.10.0".toList, "", "", 63847526400, ""⟩,
        ⟨"v1.9.0".toList, "1.9.0".toList, "", "", 63850118400, ""⟩,
        ⟨"v99999999999999999999.0.0".toList, "99999999999999999999.0.0".toList, "", "",
          63852796800, ""⟩] versions rest := by
  apply (releases_newest_first datesOf2024 fourReleases ⟨?_, ?_⟩).2.2.1
  · decide +kernel
  · decide +kernel

end VyosClient.ReleaseOrder
