import Mathlib.Algebra.Order.Ring.Int
import VyosClient.Runs

/-!
The release cache of the self-upgrade client under concurrent calls. A call of
`ListReleases` first consults the cache, one of `ForceRefresh` does not; a live
fetch runs without the lock, and what it ends with reaches the cache later, in
any order with the steps of other calls. Fetches are numbered in the order in
which they start, and a snapshot keeps the number of its fetch.
-/

namespace VyosClient.ReleaseCache

open Runs

/-- The releases that a fetch gave. -/
structure Snapshot (R : Type*) where
  fetch : ℕ
  releases : List R
deriving DecidableEq, Repr

/-- `cached` with `cachedAt`, and `lastErr` with `lastErrAt`, each pair set and cleared together. -/
structure Client (R E : Type*) where
  cacheTTL : ℤ
  negativeCacheTTL : ℤ
  cached : Option (Snapshot R × ℤ)
  lastErr : Option (E × ℤ)

/-- A call before its first lock, on its way to a fetch, during its fetch, and returned. -/
inductive CallState (R E : Type*)
  | listing
  | refreshing
  | fetching (fetch : ℕ)
  | returned (result : Except E (Snapshot R))

inductive Event (R E : Type*)
  | listReleases
  | forceRefresh
  | consult (i : ℕ) (now : ℤ)
  | beginFetch (i : ℕ)
  | endFetch (i : ℕ) (outcome : Except E (List R)) (now : ℤ)

/-- The client and its calls, in the order in which they started. -/
structure Callers (R E : Type*) where
  client : Client R E
  calls : List (CallState R E)
  fetches : ℕ

variable {R E : Type*}

namespace Client

def new (cacheTTL negativeCacheTTL : ℤ) : Client R E := ⟨cacheTTL, negativeCacheTTL, none, none⟩

/-- What `ListReleases` finds under its lock: a result, or that a fetch is needed. -/
def consult (c : Client R E) (now : ℤ) : Option (Except E (Snapshot R)) :=
  match c.cached.filter fun cached => now - cached.2 < c.cacheTTL with
  | some (cached, _) => some (.ok cached)
  | none =>
    (c.lastErr.filter fun last => now - last.2 < c.negativeCacheTTL).map fun (err, _) =>
      match c.cached with
      | some (cached, _) => .ok cached
      | none => .error err

/-- What `fetchAndCache` does under its lock with the outcome of its fetch. -/
def fetchAndCache (c : Client R E) (fetch : ℕ) (outcome : Except E (List R)) (now : ℤ) :
    Client R E × Except E (Snapshot R) :=
  match outcome with
  | .error err =>
    ({ c with lastErr := some (err, now) },
      match c.cached with
      | some (cached, _) => .ok cached
      | none => .error err)
  | .ok releases =>
    ({ c with lastErr := none, cached := some (⟨fetch, releases⟩, now) }, .ok ⟨fetch, releases⟩)

end Client

namespace Callers

def new (cacheTTL negativeCacheTTL : ℤ) : Callers R E :=
  ⟨Client.new cacheTTL negativeCacheTTL, [], 0⟩

def step (s : Callers R E) : Event R E → Callers R E
  | .listReleases => { s with calls := s.calls ++ [.listing] }
  | .forceRefresh => { s with calls := s.calls ++ [.refreshing] }
  | .consult i now =>
    match s.calls[i]? with
    | some .listing =>
      { s with calls := s.calls.set i ((s.client.consult now).elim .refreshing .returned) }
    | _ => s
  | .beginFetch i =>
    match s.calls[i]? with
    | some .refreshing =>
      { s with calls := s.calls.set i (.fetching s.fetches), fetches := s.fetches + 1 }
    | _ => s
  | .endFetch i outcome now =>
    match s.calls[i]? with
    | some (.fetching fetch) =>
      let (client, result) := s.client.fetchAndCache fetch outcome now
      { s with client, calls := s.calls.set i (.returned result) }
    | _ => s

/-- A call has returned with a result. -/
def Returned (s : Callers R E) (i : ℕ) (result : Except E (Snapshot R)) : Prop :=
  s.calls[i]? = some (.returned result)

def snapshot (s : Callers R E) : Option (Snapshot R) := s.client.cached.map Prod.fst

/-- The snapshot that a step puts into the cache. -/
def stored (s : Callers R E) : Event R E → Option (Snapshot R)
  | .endFetch i (.ok releases) _ =>
    match s.calls[i]? with
    | some (.fetching fetch) => some ⟨fetch, releases⟩
    | _ => none
  | _ => none

end Callers

open Callers

/-- What a call can return with under the lock: the cached snapshot, an error while there is none. -/
def Gives (snapshot : Option (Snapshot R)) (result : Except E (Snapshot R)) : Prop :=
  match snapshot with
  | some snap => result = .ok snap
  | none => ∃ err, result = .error err

theorem consult_gives {c : Client R E} {now : ℤ} {result : Except E (Snapshot R)}
    (h : c.consult now = some result) : Gives (c.cached.map Prod.fst) result := by
  unfold Client.consult at h
  cases hcached : c.cached with
  | none =>
    rw [hcached] at h
    obtain ⟨last, -, rfl⟩ := Option.map_eq_some_iff.mp h
    exact ⟨last.1, rfl⟩
  | some cached =>
    rw [hcached] at h
    by_cases hfresh : now - cached.2 < c.cacheTTL
    · rw [Option.filter_some_pos (by simpa using hfresh)] at h
      cases h
      rfl
    · rw [Option.filter_some_neg (by simpa using hfresh)] at h
      obtain ⟨last, -, rfl⟩ := Option.map_eq_some_iff.mp h
      rfl

theorem fetchAndCache_gives (c : Client R E) (fetch : ℕ) (outcome : Except E (List R)) (now : ℤ) :
    Gives ((c.fetchAndCache fetch outcome now).1.cached.map Prod.fst)
      (c.fetchAndCache fetch outcome now).2 := by
  unfold Client.fetchAndCache
  cases outcome with
  | ok releases => exact rfl
  | error err =>
    dsimp only
    cases c.cached with
    | none => exact ⟨err, rfl⟩
    | some cached => exact rfl

/-- A step that stores no snapshot leaves the cached one. -/
theorem snapshot_step (s : Callers R E) (e : Event R E) :
    (s.step e).snapshot = (s.stored e).or s.snapshot := by
  cases e with
  | listReleases => rfl
  | forceRefresh => rfl
  | consult i now =>
    unfold step
    dsimp only
    split <;> rfl
  | beginFetch i =>
    unfold step
    dsimp only
    split <;> rfl
  | endFetch i outcome now =>
    unfold step
    cases outcome with
    | error err =>
      dsimp only
      split <;> rfl
    | ok releases =>
      unfold stored
      dsimp only
      cases s.calls[i]? with
      | none => rfl
      | some call => cases call <;> rfl

theorem returned_set {calls : List (CallState R E)} {i j : ℕ} {call : CallState R E}
    {result : Except E (Snapshot R)}
    (h : (calls.set j call)[i]? = some (.returned result)) :
    calls[i]? = some (.returned result) ∨ call = .returned result := by
  by_cases hij : j = i
  · subst hij
    rw [List.getElem?_set_self'] at h
    obtain ⟨_, -, hcall⟩ := Option.map_eq_some_iff.mp h
    exact Or.inr hcall
  · rw [List.getElem?_set_ne hij] at h
    exact Or.inl h

theorem returned_append {calls : List (CallState R E)} {i : ℕ} {call : CallState R E}
    {result : Except E (Snapshot R)} (hcall : call ≠ .returned result)
    (h : (calls ++ [call])[i]? = some (.returned result)) :
    calls[i]? = some (.returned result) := by
  rcases Nat.lt_trichotomy i calls.length with hlt | heq | hgt
  · rwa [List.getElem?_append_left hlt] at h
  · rw [heq, List.getElem?_concat_length] at h
    exact absurd (Option.some.inj h) hcall
  · rw [List.getElem?_eq_none] at h
    · cases h
    · rw [List.length_append, List.length_singleton]
      omega

/-- A call that returns does so with what the cache then holds. -/
theorem returned_step {s : Callers R E} {e : Event R E} {i : ℕ} {result : Except E (Snapshot R)}
    (h : (s.step e).Returned i result) :
    s.Returned i result ∨ Gives (s.step e).snapshot result := by
  unfold Returned at h ⊢
  cases e with
  | listReleases => exact Or.inl (returned_append (fun hcall => by cases hcall) h)
  | forceRefresh => exact Or.inl (returned_append (fun hcall => by cases hcall) h)
  | consult j now =>
    unfold step at h ⊢
    dsimp only at h ⊢
    split at h
    · rcases returned_set h with hold | hnew
      · exact Or.inl hold
      · cases hconsult : s.client.consult now with
        | none =>
          rw [hconsult] at hnew
          cases hnew
        | some found =>
          rw [hconsult] at hnew
          cases hnew
          exact Or.inr (consult_gives hconsult)
    · exact Or.inl h
  | beginFetch j =>
    unfold step at h ⊢
    dsimp only at h ⊢
    split at h
    · rcases returned_set h with hold | hnew
      · exact Or.inl hold
      · cases hnew
    · exact Or.inl h
  | endFetch j outcome now =>
    unfold step at h ⊢
    dsimp only at h ⊢
    split at h
    · rcases returned_set h with hold | hnew
      · exact Or.inl hold
      · cases hnew
        exact Or.inr (fetchAndCache_gives s.client _ outcome now)
    · exact Or.inl h

/-- A step stores nothing below the cached snapshot. -/
def Stores (rel : Snapshot R → Snapshot R → Prop) (s : Callers R E) (e : Event R E) : Prop :=
  ∀ new ∈ s.stored e, ∀ cached ∈ s.snapshot, rel cached new

section Order

variable {rel : Snapshot R → Snapshot R → Prop} (hrefl : ∀ a, rel a a)
  (htrans : ∀ a b c, rel a b → rel b c → rel a c)

include hrefl in
theorem snapshot_rises {s : Callers R E} {e : Event R E} (h : Stores rel s e) {cached : Snapshot R}
    (hcached : s.snapshot = some cached) :
    ∃ next, (s.step e).snapshot = some next ∧ rel cached next := by
  rw [snapshot_step, hcached]
  cases hstored : s.stored e with
  | none => exact ⟨cached, rfl, hrefl cached⟩
  | some new => exact ⟨new, rfl, h new hstored cached hcached⟩

/-- The cache is above everything that has been returned. -/
def Above (rel : Snapshot R → Snapshot R → Prop) (s : Callers R E) : Prop :=
  ∀ i snap, s.Returned i (.ok snap) → ∃ cached, s.snapshot = some cached ∧ rel snap cached

theorem above_new (cacheTTL negativeCacheTTL : ℤ) :
    Above rel (Callers.new cacheTTL negativeCacheTTL : Callers R E) := by
  intro i snap h
  cases h

include hrefl htrans in
theorem above_step (s : Callers R E) (e : Event R E) (habove : Above rel s) (h : Stores rel s e) :
    Above rel (s.step e) := by
  intro i snap hret
  rcases returned_step hret with hold | hgives
  · obtain ⟨cached, hcached, hrel⟩ := habove i snap hold
    obtain ⟨next, hnext, hrel'⟩ := snapshot_rises hrefl h hcached
    exact ⟨next, hnext, htrans _ _ _ hrel hrel'⟩
  · unfold Gives at hgives
    cases hsnap : (s.step e).snapshot with
    | none =>
      rw [hsnap] at hgives
      obtain ⟨err, herr⟩ := hgives
      cases herr
    | some cached =>
      rw [hsnap] at hgives
      cases hgives
      exact ⟨snap, rfl, hrefl snap⟩

/-- The cache is above a snapshot, and so is what each of some calls has returned with. -/
def Passed (rel : Snapshot R → Snapshot R → Prop) (newer : Snapshot R) (later : ℕ → Prop)
    (s : Callers R E) : Prop :=
  (∃ cached, s.snapshot = some cached ∧ rel newer cached) ∧
    ∀ i, later i → ∀ result, s.Returned i result → ∃ snap, result = .ok snap ∧ rel newer snap

include hrefl htrans in
theorem passed_step {newer : Snapshot R} {later : ℕ → Prop} (s : Callers R E) (e : Event R E)
    (hpassed : Passed rel newer later s) (h : Stores rel s e) :
    Passed rel newer later (s.step e) := by
  obtain ⟨⟨cached, hcached, hrel⟩, hlater⟩ := hpassed
  obtain ⟨next, hnext, hrel'⟩ := snapshot_rises hrefl h hcached
  refine ⟨⟨next, hnext, htrans _ _ _ hrel hrel'⟩, fun i hi result hret => ?_⟩
  rcases returned_step hret with hold | hgives
  · exact hlater i hi result hold
  · rw [hnext] at hgives
    exact ⟨next, hgives, htrans _ _ _ hrel hrel'⟩

include hrefl htrans in
/-- A call that had not returned when another one returned with a snapshot never fails, and returns
with nothing below that snapshot. -/
theorem result_above {s : Callers R E} {es₁ es₂ : List (Event R E)} (hnew : Above rel s)
    (h : Guarded Callers.step (Stores rel) s (es₁ ++ es₂)) {j i : ℕ} {newer : Snapshot R}
    (hj : (es₁.foldl Callers.step s).Returned j (.ok newer))
    (hi : ∀ result, ¬ (es₁.foldl Callers.step s).Returned i result)
    {result : Except E (Snapshot R)}
    (hret : ((es₁ ++ es₂).foldl Callers.step s).Returned i result) :
    ∃ snap, result = .ok snap ∧ rel newer snap := by
  obtain ⟨hbefore, hafter⟩ := guarded_append.mp h
  have habove : Above rel (es₁.foldl Callers.step s) :=
    forall_trail_of_guarded (above_step hrefl htrans) hnew hbefore _ (foldl_mem_trail s es₁)
  have hpassed : Passed rel newer (· = i) (es₁.foldl Callers.step s) :=
    ⟨habove j newer hj, fun i' hi' result' hret' => absurd (hi' ▸ hret') (hi result')⟩
  rw [List.foldl_append] at hret
  exact (forall_trail_of_guarded (passed_step hrefl htrans) hpassed hafter _
    (foldl_mem_trail _ es₂)).2 i rfl result hret

end Order

/-- Once a call has returned with releases, one that had not returned fails no more. -/
def ErrorFree (s s' : Callers R E) : Prop :=
  ∀ j snap, s.Returned j (.ok snap) → ∀ i, (∀ result, ¬ s.Returned i result) →
    ∀ err, ¬ s'.Returned i (.error err)

/-- Once a call has returned with a snapshot, none that starts later returns with one whose fetch had
started before. -/
def NoOlder (s s' : Callers R E) : Prop :=
  ∀ j newer, s.Returned j (.ok newer) → ∀ i older, s.calls.length ≤ i →
    s'.Returned i (.ok older) → newer.fetch ≤ older.fetch

/-- A fetch is not stored over the snapshot of one that started later. -/
def StoresForward : Callers R E → Event R E → Prop := Stores fun cached new => cached.fetch ≤ new.fetch

/-- No call fails after a fetch has succeeded, in whatever order the calls go on; and the releases never
go backwards while no fetch is stored over one that started later. -/
theorem never_backwards (cacheTTL negativeCacheTTL : ℤ) (es₁ es₂ : List (Event R E)) :
    ErrorFree (es₁.foldl Callers.step (Callers.new cacheTTL negativeCacheTTL))
      ((es₁ ++ es₂).foldl Callers.step (Callers.new cacheTTL negativeCacheTTL)) ∧
    (Guarded Callers.step StoresForward (Callers.new cacheTTL negativeCacheTTL) (es₁ ++ es₂) →
      NoOlder (es₁.foldl Callers.step (Callers.new cacheTTL negativeCacheTTL))
        ((es₁ ++ es₂).foldl Callers.step (Callers.new cacheTTL negativeCacheTTL))) := by
  refine ⟨fun j snap hj i hi err hret => ?_, fun h j newer hj i older hi hret => ?_⟩
  · have hany : Guarded Callers.step (Stores fun _ _ => True)
        (Callers.new cacheTTL negativeCacheTTL : Callers R E) (es₁ ++ es₂) :=
      guarded_of_forall (fun _ _ _ _ _ _ _ => trivial) _
    obtain ⟨snap', hresult, -⟩ := result_above (fun _ => trivial) (fun _ _ _ _ _ => trivial)
      (above_new cacheTTL negativeCacheTTL) hany hj hi hret
    cases hresult
  · have hlater : ∀ result, ¬ (es₁.foldl Callers.step
        (Callers.new cacheTTL negativeCacheTTL)).Returned i result := by
      intro result hmem
      unfold Returned at hmem
      rw [List.getElem?_eq_none hi] at hmem
      cases hmem
    obtain ⟨snap, hresult, hle⟩ := @result_above R E (fun a b => a.fetch ≤ b.fetch)
      (fun a => Nat.le_refl a.fetch) (fun _ _ _ hab hbc => Nat.le_trans hab hbc) _ _ _
      (above_new cacheTTL negativeCacheTTL) h _ _ _ hj hlater _ hret
    cases hresult
    exact hle

/-- Two refreshes, the second of which ends first, and a call that starts when both have returned. -/
def overtaken : List (Event String String) :=
  [.forceRefresh, .forceRefresh, .beginFetch 0, .beginFetch 1, .endFetch 1 (.ok ["v2"]) 10]

def overwritten : List (Event String String) :=
  [.endFetch 0 (.ok ["v1"]) 20, .listReleases, .consult 2 30]

/-- The slower fetch is stored over the later one, and served for as long as it counts as fresh. -/
theorem older_after_newer :
    (overtaken.foldl step (Callers.new 1800 120)).Returned 1 (.ok ⟨1, ["v2"]⟩) ∧
      (overtaken.foldl step (Callers.new 1800 120)).calls.length = 2 ∧
      ((overtaken ++ overwritten).foldl step (Callers.new 1800 120)).Returned 2 (.ok ⟨0, ["v1"]⟩) ∧
      ¬ NoOlder (overtaken.foldl step (Callers.new 1800 120))
        ((overtaken ++ overwritten).foldl step (Callers.new 1800 120)) := by
  refine ⟨rfl, rfl, rfl, fun h => ?_⟩
  exact absurd (h 1 ⟨1, ["v2"]⟩ rfl 2 ⟨0, ["v1"]⟩ (Nat.le_refl 2) rfl) (by decide)

def refreshed (i : ℕ) (tag : String) (now : ℤ) : List (Event String String) :=
  [.forceRefresh, .beginFetch i, .endFetch i (.ok [tag]) now]

/-- A refresh after another one. -/
theorem newer_after_newer :
    NoOlder ((refreshed 0 "v1" 10).foldl Callers.step (Callers.new 1800 120))
      ((refreshed 0 "v1" 10 ++ refreshed 1 "v2" 20).foldl Callers.step (Callers.new 1800 120)) := by
  refine (never_backwards 1800 120 (refreshed 0 "v1" 10) (refreshed 1 "v2" 20)).2 ?_
  refine ⟨?_, ?_, ?_, ?_, ?_, ?_, trivial⟩
  all_goals
    unfold StoresForward Stores
    decide

end VyosClient.ReleaseCache
