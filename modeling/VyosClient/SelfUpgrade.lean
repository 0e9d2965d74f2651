import Mathlib.Data.List.Perm.Basic
import VyosClient.ImageReference
import VyosClient.PendingEnable
import VyosClient.RegistryClient
import VyosClient.ReleaseCache
import VyosClient.ReleaseOrder

/-!
A self-upgrade from GitHub to the queue. The client follows the pages of
releases, sorts and caches them for concurrent requests; the status handler
picks what is newer and has the newest image looked for; the page pulls that
image on a click and queues it when the pull has ended. Requests and pulls end
late and in any order, so what is queued may rest on an older answer, but every
image that is queued was the newest release of a fetch of this run. What the
fetches have read is kept beside the state for that.
-/

namespace VyosClient.SelfUpgrade

open ConfigTrees Configure PendingChanges PendingEnable ReleaseOrder ReleaseCache Runs
open ImageReference (Text validateContainerImageName)
open RegistryClient (linkNextPattern)

/-- A page of releases that was read and decoded, with its `Link` header. -/
structure PageResponse where
  raw : List RawRelease
  link : Text

/-- What a GET of a URL ends with; `none` for every failure. -/
abbrev GitHub := Text → Option PageResponse

def PageResponse.next (page : PageResponse) : Text := (linkNextPattern page.link).getD []

def maxPages : ℕ := 5

/-- What a walk along the pages has read, `none` when one of them failed, and what it asked for. -/
structure Walk where
  raw : Option (List RawRelease)
  requests : List Text

def fetchPages (github : GitHub) : ℕ → Text → Walk
  | 0, _ => ⟨some [], []⟩
  | turns + 1, url =>
    if url = [] then ⟨some [], []⟩
    else
      match github url with
      | none => ⟨none, [url]⟩
      | some page =>
        let rest := fetchPages github turns page.next
        ⟨rest.raw.map (page.raw ++ ·), url :: rest.requests⟩

def releasesURL (baseURL repo : Text) : Text :=
  baseURL ++ "/repos/".toList ++ repo ++ "/releases?per_page=100".toList

/-- How the app is deployed, and the GitHub it asks. -/
structure Deployment where
  enabled : Bool
  containerName : String
  repo : String
  version : Text
  baseURL : Text
  timeParse : String → Option ℤ

namespace Deployment

variable (d : Deployment)

def walk (github : GitHub) : Walk := fetchPages github maxPages (releasesURL d.baseURL d.repo.toList)

/-- The releases that `fetchReleases` can end with. -/
def FetchReleases (github : GitHub) (releases : List Release) : Prop :=
  ∃ raw, (d.walk github).raw = some raw ∧ SortSlice less (kept d.timeParse raw) releases

def server (imageExists : Text → Bool) : Server where
  selfUpgradeEnabled := d.enabled
  selfUpgradeContainerName := d.containerName
  repo := some d.repo
  version := d.version
  imageExists := imageExists

end Deployment

/-- What a click on "Upgrade" has set off: the mount of the page it was made on, and what to queue
once the image is pulled. -/
structure Upgrade where
  mount : ℕ
  path : Path
  imageRef : String
deriving DecidableEq, Repr

def Upgrade.op (u : Upgrade) : ConfigOp := ⟨.set, u.path, some u.imageRef⟩

def containerNamePath (name : String) (rest : List String) : Path :=
  "container" :: "name" :: name :: rest

/-- What the page holds while it is mounted, and the pulls that are under way, its own and those of
earlier mounts. -/
structure UpgradesPage where
  mount : ℕ
  status : Option StatusResponse
  pullingVersion : Option Text
  pulls : List Upgrade

/-- The server, the page and the queue. `read` is what the fetches that have succeeded read from
GitHub, `confirmed` are the versions whose image the registry has answered for. -/
structure System (E : Type*) where
  callers : Callers Release E
  page : UpgradesPage
  cart : PendingChangesState
  read : List (List RawRelease)
  confirmed : List Text

inductive Event (E : Type*)
  | backend (e : ReleaseCache.Event Release E)
  /-- The fetch of this call succeeds: GitHub has answered, and sorting ended with these releases. -/
  | fetched (i : ℕ) (github : GitHub) (releases : List Release) (now : ℤ)
  /-- The status request of this call is answered, with what the registry says of images, to the
  query or to "Refresh". -/
  | answered (i : ℕ) (imageExists : Text → Bool) (refresh : Bool)
  | upgrade
  /-- A pull ends, and whether VyOS has done it. -/
  | pulled (k : ℕ) (done : Bool)
  | remount
  /-- The other pages and the pending changes bar. -/
  | elsewhere (cart : PendingChangesState)

section System

variable {E : Type*} (d : Deployment)

namespace System

def initial (cacheTTL negativeCacheTTL : ℤ) (cart : PendingChangesState) : System E where
  callers := Callers.new cacheTTL negativeCacheTTL
  page := ⟨0, none, none, []⟩
  cart := cart
  read := []
  confirmed := []

/-- The end of a fetch that succeeds, kept as what it read if its call is waiting for it. -/
def fetched (s : System E) (i : ℕ) (github : GitHub) (releases : List Release) (now : ℤ) :
    System E :=
  let e := ReleaseCache.Event.endFetch i (.ok releases) now
  { s with
    callers := s.callers.step e
    read := s.read ++ ((s.callers.stored e).bind fun _ => (d.walk github).raw).toList }

/-- The image that is looked for is that of the first release. -/
def confirmedVersions (imageExists : Text → Bool) (resp : StatusResponse) : List Text :=
  (resp.releases.head?.toList.map ReleaseResponse.version).filter imageExists

def releasesOf : Except E (Snapshot Release) → Option (List Release)
  | .ok snapshot => some snapshot.releases
  | .error _ => none

def answeredWith (s : System E) (imageExists : Text → Bool) (resp : StatusResponse) : System E :=
  { s with
    page := { s.page with status := some resp }
    confirmed := s.confirmed ++ confirmedVersions imageExists resp }

def answered (s : System E) (i : ℕ) (imageExists : Text → Bool) (refresh : Bool) : System E :=
  match s.callers.calls[i]? with
  | some (.returned result) =>
    match handleSelfUpgradeStatus (d.server imageExists) (releasesOf result) with
    | .json resp => s.answeredWith imageExists resp
    | .error _ _ => if refresh then s else { s with page := { s.page with status := none } }
  | _ => s

/-- The button of the first release, when there is one and it can be clicked. -/
def upgrade (s : System E) : System E :=
  match s.page.status with
  | none => s
  | some status =>
    let imagePath := containerNamePath status.containerName ["image"]
    match status.releases with
    | [] => s
    | release :: _ =>
      if ¬ status.enabled ∨ s.page.pullingVersion ≠ none ∨ hasPendingSet s.cart.changes imagePath ∨
          ¬ release.imageExists then s
      else
        { s with page :=
          { s.page with
            pullingVersion := some release.version
            pulls := s.page.pulls ++ [⟨s.page.mount, imagePath,
              status.imageRepo ++ ":" ++ String.ofList release.version⟩] } }

/-- `pullContainerImage` refuses a name that is not one of an image. A page that is no longer
mounted still queues, but the button of the page that is stays as it was. -/
def pulled (s : System E) (k : ℕ) (done : Bool) : System E :=
  match s.page.pulls[k]? with
  | none => s
  | some u =>
    { s with
      page :=
        { s.page with
          pullingVersion := if u.mount = s.page.mount then none else s.page.pullingVersion
          pulls := s.page.pulls.eraseIdx k }
      cart :=
        if validateContainerImageName u.imageRef.toList ∧ done then s.cart.add u.op (opLabel u.op)
        else s.cart }

def remount (s : System E) : System E :=
  { s with page := { s.page with mount := s.page.mount + 1, pullingVersion := none } }

def step (s : System E) : Event E → System E
  | .backend e => { s with callers := s.callers.step e }
  | .fetched i github releases now => s.fetched d i github releases now
  | .answered i imageExists refresh => s.answered d i imageExists refresh
  | .upgrade => s.upgrade
  | .pulled k done => s.pulled k done
  | .remount => s.remount
  | .elsewhere cart => { s with cart := cart }

end System

/-- A fetch that succeeds does so with the releases that its walk has read. -/
def Fetched (_ : System E) : Event E → Prop
  | .backend (.endFetch _ (.ok _) _) => False
  | .fetched _ github releases _ => d.FetchReleases github releases
  | _ => True

/-- A version newer than the one that runs, of a stable release, with no later one among these. -/
def Newest (raw : List RawRelease) (version : Text) : Prop :=
  ∃ cur v, parseSemver d.version = some cur ∧ parseSemver version = some v ∧ cur < v ∧
    (∃ r ∈ raw, r.draft = false ∧ r.prerelease = false ∧ normalizeVersion r.tagName = version) ∧
    ∀ r ∈ raw, r.draft = false → r.prerelease = false →
      ∀ w, parseSemver (normalizeVersion r.tagName) = some w → w ≤ v

/-- The image of the newest release that a fetch has read, which the registry has answered for. -/
def Verified (s : System E) (u : Upgrade) : Prop :=
  ∃ raw ∈ s.read, ∃ version ∈ s.confirmed, Newest d raw version ∧
    u.path = containerNamePath d.containerName ["image"] ∧
    u.imageRef = "ghcr.io/" ++ d.repo ++ ":" ++ String.ofList version

/-- The end of a fetch with what it has read. -/
def Reads (raw : List RawRelease) (e : Event E) : Prop :=
  ∃ i github releases now, e = .fetched i github releases now ∧ (d.walk github).raw = some raw

section Releases

variable {d}

/-- However the pages link to each other, the walk asks for no more than its turns. -/
theorem length_requests_le (github : GitHub) (turns : ℕ) (url : Text) :
    (fetchPages github turns url).requests.length ≤ turns := by
  induction turns generalizing url with
  | zero => exact le_refl _
  | succ turns ih =>
    unfold fetchPages
    by_cases hurl : url = []
    · rw [if_pos hurl]
      exact Nat.zero_le _
    · rw [if_neg hurl]
      cases hpage : github url with
      | none => exact Nat.succ_le_succ (Nat.zero_le _)
      | some page => exact Nat.succ_le_succ (ih page.next)

theorem mem_kept {timeParse : String → Option ℤ} {raw : List RawRelease} {rel : Release}
    (h : rel ∈ kept timeParse raw) :
    ∃ r ∈ raw, r.draft = false ∧ r.prerelease = false ∧ normalizeVersion r.tagName = rel.version := by
  obtain ⟨r, hr, hrel⟩ := List.mem_filterMap.mp h
  split at hrel
  · exact nomatch hrel
  · rename_i hstable
    obtain rfl := Option.some.inj hrel
    simp only [Bool.or_eq_true, not_or, Bool.not_eq_true] at hstable
    exact ⟨r, hr, hstable.1, hstable.2, rfl⟩

theorem exists_mem_kept (timeParse : String → Option ℤ) {raw : List RawRelease} {r : RawRelease}
    (hr : r ∈ raw) (hdraft : r.draft = false) (hprerelease : r.prerelease = false) :
    ∃ rel ∈ kept timeParse raw, rel.version = normalizeVersion r.tagName :=
  ⟨_, List.mem_filterMap.mpr ⟨r, hr, by rw [hdraft, hprerelease]; rfl⟩, rfl⟩

/-- The first of the releases that are newer than the running version is the newest of all. -/
theorem newest_of_filter {raw : List RawRelease} {releases more : List Release} {newest : Release}
    {cur : Semver} (hsort : SortSlice less (kept d.timeParse raw) releases)
    (hcur : parseSemver d.version = some cur)
    (hnewer : releases.filter (LaterThan cur ·) = newest :: more) :
    Newest d raw newest.version := by
  have hfirst : newest ∈ releases.filter (LaterThan cur ·) := hnewer ▸ List.mem_cons_self
  obtain ⟨hmem, hlater⟩ := List.mem_filter.mp hfirst
  obtain ⟨v, hv, hlt⟩ := of_decide_eq_true hlater
  have hrank := (rank_pairwise hsort).filter (LaterThan cur ·)
  rw [hnewer] at hrank
  refine ⟨cur, v, hcur, hv, hlt, mem_kept (hsort.perm.mem_iff.mp hmem),
    fun r hr hdraft hprerelease w hw => ?_⟩
  obtain ⟨rel, hrel, hversion⟩ := exists_mem_kept d.timeParse hr hdraft hprerelease
  rw [← hversion] at hw
  by_cases hwlater : cur < w
  · have hrelmem : rel ∈ newest :: more := hnewer ▸ List.mem_filter.mpr
      ⟨hsort.perm.mem_iff.mpr hrel, decide_eq_true ⟨w, hw, hwlater⟩⟩
    rcases List.mem_cons.mp hrelmem with rfl | hmore
    · rw [hv] at hw
      exact le_of_eq (Option.some.inj hw).symm
    · have hle := (List.pairwise_cons.mp hrank).1 rel hmore
      rwa [rank_of_parse hv, rank_of_parse hw, Sum.Lex.inr_le_inr_iff] at hle
  · exact (not_lt.mp hwlater).trans hlt.le

/-- The releases in an answer are the newer ones of what the client listed. -/
theorem status_releases {imageExists : Text → Bool} {listed : Option (List Release)}
    {resp : StatusResponse} {release : ReleaseResponse} {rest : List ReleaseResponse}
    (h : handleSelfUpgradeStatus (d.server imageExists) listed = .json resp)
    (hreleases : resp.releases = release :: rest) :
    ∃ releases cur newest more, listed = some releases ∧ parseSemver d.version = some cur ∧
      releases.filter (LaterThan cur ·) = newest :: more ∧
      release = releaseResponse (imageExists newest.version) newest ∧
      resp.containerName = d.containerName ∧ resp.imageRepo = "ghcr.io/" ++ d.repo := by
  unfold handleSelfUpgradeStatus at h
  split at h
  · obtain rfl := Reply.json.inj h
    exact nomatch hreleases
  · cases listed with
    | none => exact nomatch h
    | some releases =>
      dsimp only [Deployment.server] at h
      rw [newerThan_eq] at h
      cases hcur : parseSemver d.version with
      | none =>
        rw [hcur] at h
        obtain rfl := Reply.json.inj h
        exact nomatch hreleases
      | some cur =>
        rw [hcur] at h
        obtain rfl := Reply.json.inj h
        dsimp only at hreleases
        cases hnewer : releases.filter (LaterThan cur ·) with
        | nil =>
          rw [hnewer] at hreleases
          exact nomatch hreleases
        | cons newest more =>
          rw [hnewer, releaseResponses] at hreleases
          exact ⟨releases, cur, newest, more, rfl, rfl, hnewer, (List.cons.inj hreleases).1.symm,
            rfl, rfl⟩

end Releases

/-- A snapshot holds what a fetch has read, sorted. -/
def FromGitHub (s : System E) (snap : Snapshot Release) : Prop :=
  ∃ raw ∈ s.read, SortSlice less (kept d.timeParse raw) snap.releases

/-- What every run keeps. -/
structure Sound (s : System E) : Prop where
  cached : ∀ snap ∈ s.callers.snapshot, FromGitHub d s snap
  returned : ∀ i snap, s.callers.Returned i (.ok snap) → FromGitHub d s snap
  offers : ∀ status ∈ s.page.status, ∀ release ∈ status.releases.head?,
    release.imageExists = true → ∀ mount, Verified d s
      ⟨mount, containerNamePath status.containerName ["image"],
        status.imageRepo ++ ":" ++ String.ofList release.version⟩
  pulls : ∀ u ∈ s.page.pulls, Verified d s u
  mounts : ∀ u ∈ s.page.pulls, u.mount ≤ s.page.mount
  single : s.page.pulls.countP (·.mount = s.page.mount) ≤
    if s.page.pullingVersion = none then 0 else 1

section Steps

variable {d} {s : System E}

theorem countP_eraseIdx {α : Type*} (p : α → Bool) {l : List α} {k : ℕ} {x : α}
    (h : l[k]? = some x) : l.countP p = (l.eraseIdx k).countP p + if p x then 1 else 0 := by
  obtain ⟨hk, rfl⟩ := List.getElem?_eq_some_iff.mp h
  rw [← List.Perm.countP_eq p (List.getElem_cons_eraseIdx_perm hk), List.countP_cons]

/-- What has been read and confirmed stays so. -/
structure Grows (s s' : System E) : Prop where
  read : s.read ⊆ s'.read
  confirmed : s.confirmed ⊆ s'.confirmed

theorem FromGitHub.mono {s' : System E} {snap : Snapshot Release} (h : FromGitHub d s snap)
    (hgrows : Grows s s') : FromGitHub d s' snap := by
  obtain ⟨raw, hraw, hsort⟩ := h
  exact ⟨raw, hgrows.read hraw, hsort⟩

theorem Verified.mono {s' : System E} {u : Upgrade} (h : Verified d s u) (hgrows : Grows s s') :
    Verified d s' u := by
  obtain ⟨raw, hraw, version, hversion, hnewest, hpath, href⟩ := h
  exact ⟨raw, hgrows.read hraw, version, hgrows.confirmed hversion, hnewest, hpath, href⟩

theorem sound_initial (cacheTTL negativeCacheTTL : ℤ) (cart : PendingChangesState) :
    Sound d (System.initial cacheTTL negativeCacheTTL cart : System E) where
  cached _ h := nomatch h
  returned _ _ h := nomatch h
  offers _ h := nomatch h
  pulls _ h := nomatch h
  mounts _ h := nomatch h
  single := le_refl _

/-- A step of the client, when what it puts into its cache has been read from GitHub. -/
theorem sound_callers (h : Sound d s) {s' : System E} {e : ReleaseCache.Event Release E}
    (hcallers : s'.callers = s.callers.step e) (hpage : s'.page = s.page) (hgrows : Grows s s')
    (hstored : ∀ snap ∈ s.callers.stored e, FromGitHub d s' snap) : Sound d s' := by
  have hcached : ∀ snap ∈ (s.callers.step e).snapshot, FromGitHub d s' snap := by
    intro snap hsnap
    rw [snapshot_step] at hsnap
    rcases Option.or_eq_some_iff.mp hsnap with hnew | ⟨-, hold⟩
    · exact hstored snap hnew
    · exact (h.cached snap hold).mono hgrows
  refine ⟨hcallers ▸ hcached, fun i snap hret => ?_, ?_, ?_, ?_, ?_⟩
  · rw [hcallers] at hret
    rcases returned_step hret with hold | hgives
    · exact (h.returned i snap hold).mono hgrows
    · unfold Gives at hgives
      cases hsnap : (s.callers.step e).snapshot with
      | none =>
        rw [hsnap] at hgives
        obtain ⟨err, herr⟩ := hgives
        exact nomatch herr
      | some cached =>
        rw [hsnap] at hgives
        obtain rfl := Except.ok.inj hgives
        exact hcached snap hsnap
  · rw [hpage]
    exact fun status hstatus release hrelease hexists mount =>
      (h.offers status hstatus release hrelease hexists mount).mono hgrows
  · rw [hpage]
    exact fun u hu => (h.pulls u hu).mono hgrows
  · rw [hpage]
    exact h.mounts
  · rw [hpage]
    exact h.single

theorem sound_backend (h : Sound d s) {e : ReleaseCache.Event Release E}
    (hfetched : Fetched d s (.backend e)) : Sound d (s.step d (.backend e)) := by
  refine sound_callers h rfl rfl ⟨List.Subset.refl _, List.Subset.refl _⟩ fun snap hsnap => ?_
  cases e with
  | endFetch i outcome now =>
    cases outcome with
    | error err => exact nomatch hsnap
    | ok releases => exact hfetched.elim
  | _ => exact nomatch hsnap

theorem sound_fetched (h : Sound d s) {i : ℕ} {github : GitHub} {releases : List Release}
    (hreleases : d.FetchReleases github releases) (now : ℤ) :
    Sound d (s.fetched d i github releases now) := by
  obtain ⟨raw, hraw, hsort⟩ := hreleases
  refine sound_callers (e := .endFetch i (.ok releases) now) h rfl rfl
    ⟨List.subset_append_left _ _, List.Subset.refl _⟩ fun snap hsnap => ?_
  have hsnap' : s.callers.stored (.endFetch i (.ok releases) now) = some snap := hsnap
  refine ⟨raw, ?_, ?_⟩
  · refine List.mem_append_right _ ?_
    rw [hsnap', Option.bind_some, hraw]
    exact List.mem_singleton_self raw
  · simp only [Callers.stored] at hsnap
    split at hsnap
    · obtain rfl := Option.some.inj hsnap
      exact hsort
    · exact nomatch hsnap

theorem sound_answered (h : Sound d s) (i : ℕ) (imageExists : Text → Bool) (refresh : Bool) :
    Sound d (s.answered d i imageExists refresh) := by
  unfold System.answered
  split
  · rename_i result hcall
    split
    · rename_i resp hresp
      have hgrows : Grows s (s.answeredWith imageExists resp) :=
        ⟨List.Subset.refl _, List.subset_append_left _ _⟩
      refine ⟨fun snap hsnap => (h.cached snap hsnap).mono hgrows,
        fun j snap hret => (h.returned j snap hret).mono hgrows,
        fun status hstatus release hrelease hexists mount => ?_,
        fun u hu => (h.pulls u hu).mono hgrows, h.mounts, h.single⟩
      obtain rfl := Option.some.inj hstatus
      cases hreleases : resp.releases with
      | nil =>
        rw [hreleases] at hrelease
        exact nomatch hrelease
      | cons first rest =>
        rw [hreleases] at hrelease
        obtain rfl := Option.some.inj hrelease
        obtain ⟨releases, cur, newest, more, hlisted, hcur, hnewer, hfirst, hname, hrepo⟩ :=
          status_releases hresp hreleases
        have hfrom : ∃ raw ∈ s.read, SortSlice less (kept d.timeParse raw) releases := by
          cases result with
          | error err => exact nomatch hlisted
          | ok snap =>
            obtain rfl := Option.some.inj hlisted
            exact h.returned i snap hcall
        obtain ⟨raw, hraw, hsort⟩ := hfrom
        have hversion : first.version = newest.version := by rw [hfirst]; rfl
        have hconfirmed : imageExists newest.version = true := by
          rw [hfirst] at hexists
          exact hexists
        refine ⟨raw, hraw, newest.version, ?_, newest_of_filter hsort hcur hnewer, ?_, ?_⟩
        · refine List.mem_append_right _ (List.mem_filter.mpr ⟨?_, hconfirmed⟩)
          rw [hreleases, ← hversion]
          exact List.mem_singleton_self _
        · rw [hname]
        · rw [hrepo, hversion]
    · split
      · exact h
      · exact ⟨h.cached, h.returned, fun _ hnone => (nomatch hnone), h.pulls, h.mounts, h.single⟩
  · exact h

theorem sound_upgrade (h : Sound d s) : Sound d s.upgrade := by
  unfold System.upgrade
  split
  · exact h
  · rename_i status hstatus
    dsimp only
    split
    · exact h
    · rename_i release rest hreleases
      split
      · exact h
      · rename_i hclick
        push Not at hclick
        obtain ⟨-, hidle, -, hexists⟩ := hclick
        have hverified := h.offers status hstatus release (by rw [hreleases]; rfl) hexists
        refine ⟨h.cached, h.returned, h.offers, fun u hu => ?_, fun u hu => ?_, ?_⟩
        · rcases List.mem_append.mp hu with hu | hu
          · exact h.pulls u hu
          · exact List.mem_singleton.mp hu ▸ hverified s.page.mount
        · rcases List.mem_append.mp hu with hu | hu
          · exact h.mounts u hu
          · exact le_of_eq (by rw [List.mem_singleton.mp hu])
        · have hsingle := h.single
          rw [if_pos hidle] at hsingle
          dsimp only
          rw [List.countP_append, if_neg (Option.some_ne_none _)]
          simpa using hsingle

theorem sound_pulled (h : Sound d s) (k : ℕ) (done : Bool) : Sound d (s.pulled k done) := by
  unfold System.pulled
  split
  · exact h
  · rename_i u hu
    refine ⟨h.cached, h.returned, h.offers, fun u' hu' => h.pulls u' (List.mem_of_mem_eraseIdx hu'),
      fun u' hu' => h.mounts u' (List.mem_of_mem_eraseIdx hu'), ?_⟩
    have hcount := countP_eraseIdx (fun u' : Upgrade => decide (u'.mount = s.page.mount)) hu
    have hsingle := h.single
    dsimp only
    by_cases hmount : u.mount = s.page.mount
    · rw [if_pos (decide_eq_true hmount)] at hcount
      rw [if_pos hmount, if_pos rfl]
      split at hsingle <;> omega
    · rw [if_neg (by simpa using hmount)] at hcount
      rw [if_neg hmount]
      omega

theorem sound_remount (h : Sound d s) : Sound d s.remount := by
  refine ⟨h.cached, h.returned, h.offers, h.pulls, fun u hu => (h.mounts u hu).trans (Nat.le_succ _),
    ?_⟩
  have hnone : s.page.pulls.countP (·.mount = s.page.mount + 1) = 0 :=
    List.countP_eq_zero.mpr fun u hu => by
      have hle := h.mounts u hu
      simp only [decide_eq_true_eq]
      omega
  exact le_of_eq hnone

theorem sound_step (s : System E) (e : Event E) (h : Sound d s) (hfetched : Fetched d s e) :
    Sound d (s.step d e) := by
  cases e with
  | backend e => exact sound_backend h hfetched
  | fetched i github releases now => exact sound_fetched h hfetched now
  | answered i imageExists refresh => exact sound_answered h i imageExists refresh
  | upgrade => exact sound_upgrade h
  | pulled k done => exact sound_pulled h k done
  | remount => exact sound_remount h
  | elsewhere cart => exact ⟨h.cached, h.returned, h.offers, h.pulls, h.mounts, h.single⟩

/-- An answer leaves the queue alone, and what has been read. -/
theorem answered_frame (s : System E) (i : ℕ) (imageExists : Text → Bool) (refresh : Bool) :
    (s.answered d i imageExists refresh).cart = s.cart ∧
      (s.answered d i imageExists refresh).read = s.read := by
  unfold System.answered
  split
  · split
    · exact ⟨rfl, rfl⟩
    · split
      · exact ⟨rfl, rfl⟩
      · exact ⟨rfl, rfl⟩
  · exact ⟨rfl, rfl⟩

/-- So does a click on "Upgrade". -/
theorem upgrade_frame (s : System E) : s.upgrade.cart = s.cart ∧ s.upgrade.read = s.read := by
  unfold System.upgrade
  split
  · exact ⟨rfl, rfl⟩
  · dsimp only
    split
    · exact ⟨rfl, rfl⟩
    · split
      · exact ⟨rfl, rfl⟩
      · exact ⟨rfl, rfl⟩

theorem read_pulled (s : System E) (k : ℕ) (done : Bool) : (s.pulled k done).read = s.read := by
  unfold System.pulled
  split
  · rfl
  · rfl

theorem mem_cart_add {cart : PendingChangesState} {op : ConfigOp} {label : String} {c : PendingChange}
    (h : c ∈ (cart.add op label).changes) : c ∈ cart.changes ∨ c.op = op := by
  rcases List.mem_append.mp ((addTo_sublist _ _).subset h) with h | h
  · exact Or.inl h
  · exact Or.inr (by rw [List.mem_singleton.mp h])

/-- Only the end of a pull that VyOS has done queues anything. -/
theorem mem_cart_step {e : Event E} (helsewhere : ∀ cart, e ≠ .elsewhere cart) {c : PendingChange}
    (hc : c ∈ (s.step d e).cart.changes) :
    c ∈ s.cart.changes ∨ ∃ k u, e = .pulled k true ∧ s.page.pulls[k]? = some u ∧ c.op = u.op ∧
      validateContainerImageName u.imageRef.toList = true := by
  cases e with
  | backend e => exact Or.inl hc
  | fetched i github releases now => exact Or.inl hc
  | answered i imageExists refresh => exact Or.inl ((answered_frame s i imageExists refresh).1 ▸ hc)
  | upgrade => exact Or.inl ((upgrade_frame s).1 ▸ hc)
  | pulled k done =>
    simp only [System.step, System.pulled] at hc
    split at hc
    · exact Or.inl hc
    · rename_i u hu
      dsimp only at hc
      split at hc
      · rename_i hdone
        obtain ⟨hvalid, rfl⟩ := hdone
        rcases mem_cart_add hc with hold | hnew
        · exact Or.inl hold
        · exact Or.inr ⟨k, u, rfl, hu, hnew, hvalid⟩
      · exact Or.inl hc
  | remount => exact Or.inl hc
  | elsewhere cart => exact absurd rfl (helsewhere cart)

/-- What a step adds to what has been read is what its fetch has read. -/
theorem read_step {e : Event E} {raw : List RawRelease} (h : raw ∈ (s.step d e).read) :
    raw ∈ s.read ∨ Reads d raw e := by
  cases e with
  | fetched i github releases now =>
    refine (List.mem_append.mp h).imp id fun hnew => ?_
    obtain ⟨snap, -, hraw⟩ := Option.bind_eq_some_iff.mp (Option.mem_toList.mp hnew)
    exact ⟨i, github, releases, now, rfl, hraw⟩
  | backend e => exact Or.inl h
  | answered i imageExists refresh => exact Or.inl ((answered_frame s i imageExists refresh).2 ▸ h)
  | upgrade => exact Or.inl ((upgrade_frame s).2 ▸ h)
  | pulled k done => exact Or.inl (read_pulled s k done ▸ h)
  | remount => exact Or.inl h
  | elsewhere cart => exact Or.inl h

/-- All that a run has read comes from the walks of its own fetches. -/
theorem read_run {events : List (Event E)} {raw : List RawRelease}
    (h : raw ∈ (events.foldl (System.step d) s).read) :
    raw ∈ s.read ∨ ∃ e ∈ events, Reads d raw e := by
  induction events generalizing s with
  | nil => exact Or.inl h
  | cons e events ih =>
    rcases ih h with hread | ⟨e', he', hreads⟩
    · exact (read_step hread).imp id fun hreads => ⟨e, List.mem_cons_self, hreads⟩
    · exact Or.inr ⟨e', List.mem_cons_of_mem e he', hreads⟩

end Steps

end System

section Examples

def exampleDeployment : Deployment where
  enabled := true
  containerName := "client"
  repo := "owner/client"
  version := "1.0.0".toList
  baseURL := "https://api.github.com".toList
  timeParse _ := some 1

/-- A release, and a later one that is a prerelease. -/
def exampleRaw : List RawRelease :=
  [⟨"v1.1.0".toList, "", "", false, false, "", ""⟩, ⟨"v1.2.0".toList, "", "", false, true, "", ""⟩]

def exampleGitHub : GitHub := fun url =>
  if url = releasesURL "https://api.github.com".toList "owner/client".toList then
    some ⟨exampleRaw, []⟩
  else none

def exampleReleases : List Release := [⟨"v1.1.0".toList, "1.1.0".toList, "", "", 1, ""⟩]

theorem fetchReleases_example : exampleDeployment.FetchReleases exampleGitHub exampleReleases := by
  refine ⟨exampleRaw, rfl, ?_, List.pairwise_singleton _ _⟩
  have hkept : kept exampleDeployment.timeParse exampleRaw = exampleReleases := by decide +kernel
  rw [hkept]

def exampleEvents : List (Event String) :=
  [.backend .listReleases, .backend (.consult 0 10), .backend (.beginFetch 0),
    .fetched 0 exampleGitHub exampleReleases 20, .answered 0 (fun _ => true) false, .upgrade]

end Examples

end VyosClient.SelfUpgrade
