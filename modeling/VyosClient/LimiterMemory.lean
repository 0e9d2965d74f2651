import VyosClient.LoginBackoff
import VyosClient.RollingWindow
import VyosClient.Runs

/-!
The memory of both limiters over whole runs. Keys that expired are swept out only when a key
is about to be added to a full table. Each tracked key has the instant of its last counted
attempt stored, so what a sweep leaves was counted within the window; between the sweeps
nothing grows and nothing goes that the window still covers.
-/

namespace VyosClient.LimiterMemory

open Tables

section Login

open RateLimit LoginLimiter LoginBackoff

/-- No attempt yet, whatever the limiter is set to. -/
def noAttempts (limits : Limits) : LoginLimiter := ⟨limits, ∅⟩

/-- An attempt on the key was counted at most a window before the instant. -/
def Recent (window now : ℤ) (attempts : String → List ℤ) (key : String) : Prop :=
  ∃ t ∈ attempts key, now - t ≤ window

instance (window now : ℤ) (attempts : String → List ℤ) :
    DecidablePred (Recent window now attempts) :=
  fun key => inferInstanceAs (Decidable (∃ t ∈ attempts key, now - t ≤ window))

/-- The granted attempts of a run of a new limiter, by key. -/
def attempts (limits : Limits) (run : List Call) (key : String) : List ℤ :=
  grants key (noAttempts limits) run

/-- The limiter after a run. -/
def reached (limits : Limits) (run : List Call) : LoginLimiter :=
  run.foldl LoginBackoff.step (noAttempts limits)

/-- A `Reserve` that is granted: the one call that adds a key. -/
def Adds (l : LoginLimiter) : Call → Prop
  | .reserve key c => (l.reserve key c).2.1 = true
  | _ => False

/-- Every tracked key stores the last of its counted attempts. -/
structure Stored (limits : Limits) (counted : String → List ℤ) (now : ℤ) (l : LoginLimiter) :
    Prop where
  limits_eq : l.toLimits = limits
  past : ∀ key, ∀ t ∈ counted key, t ≤ now
  last : ∀ key s, l.attempts.lookup key = some s →
    s.lastAttempt ∈ counted key ∧ ∀ t ∈ counted key, t ≤ s.lastAttempt

variable {limits : Limits} {counted : String → List ℤ} {now : ℤ} {l m : LoginLimiter}

theorem stored_noAttempts (limits : Limits) (now : ℤ) :
    Stored limits (fun _ => []) now (noAttempts limits) :=
  ⟨rfl, fun _ _ h => (nomatch h), fun _ _ h => (nomatch h)⟩

/-- Time passes and entries go, or keep their last attempt. -/
theorem Stored.pass (h : Stored limits counted now l) {now' : ℤ} (hnow : now ≤ now')
    (hlimits : m.toLimits = l.toLimits)
    (hlookup : ∀ key s', m.attempts.lookup key = some s' →
      ∃ s, l.attempts.lookup key = some s ∧ s'.lastAttempt = s.lastAttempt) :
    Stored limits counted now' m := by
  refine ⟨hlimits.trans h.limits_eq, fun key t ht => (h.past key t ht).trans hnow,
    fun key s' hs' => ?_⟩
  obtain ⟨s, hs, heq⟩ := hlookup key s' hs'
  rw [heq]
  exact h.last key s hs

theorem lookup_of_faded {t : ℤ} (h : Faded l m t) {key : String} {s : AttemptState}
    (hs : m.attempts.lookup key = some s) : l.attempts.lookup key = some s := by
  rcases h.lookup key with hkeep | ⟨s', -, -, hgone⟩
  · exact hkeep.symm.trans hs
  · rw [hgone] at hs
    cases hs

theorem Stored.faded (h : Stored limits counted now l) {t now' : ℤ} (hnow : now ≤ now')
    (hfade : Faded l m t) : Stored limits counted now' m :=
  h.pass hnow hfade.limits fun _ s hs => ⟨s, lookup_of_faded hfade hs, rfl⟩

/-- A granted attempt ran on what the first check and the sweep left. -/
theorem reserve_swept {key : String} {c : ReserveClock} (h : (l.reserve key c).2.1 = true) :
    ∃ l', Faded l l' c.since ∧ (l.reserve key c).1 = (l'.makeRoom c.sweep).record key c := by
  unfold reserve at h ⊢
  cases hcheck : l.firstCheck key c with
  | error wait =>
    rw [hcheck] at h
    cases h
  | ok l' => exact ⟨l', (firstCheck_ok hcheck).1, rfl⟩

/-- The counted attempts with those of one more call. -/
def withGrant (counted : String → List ℤ) (l : LoginLimiter) (e : Call) (key : String) : List ℤ :=
  counted key ++ (e.grant l key).toList

theorem withGrant_of_none {e : Call} (h : ∀ key, e.grant l key = none) :
    withGrant counted l e = counted := by
  funext key
  rw [withGrant, h key]
  exact List.append_nil _

theorem Stored.reserve (h : Stored limits counted now l) {key : String} {c : ReserveClock}
    (hclock : now ≤ c.since) (hgrant : (l.reserve key c).2.1 = true) :
    Stored limits (withGrant counted l (.reserve key c)) c.block (l.reserve key c).1 := by
  obtain ⟨l', hfirst, heq⟩ := reserve_swept hgrant
  have hroom := faded_makeRoom l' c.sweep
  have hsweep : now ≤ c.sweep := hclock.trans (c.since_le.trans c.wait_le)
  have hattempt : now ≤ c.attempt := hsweep.trans (c.sweep_le.trans c.renew_le)
  have hm := (h.faded hclock hfirst).faded (c.since_le.trans c.wait_le) hroom
  have hgrants : ∀ k, (Call.reserve key c).grant l k = if key = k then some c.attempt else none := by
    intro k
    simp only [Call.grant, hgrant, and_true]
  have hcounted : ∀ k t, t ∈ withGrant counted l (.reserve key c) k ↔
      t ∈ counted k ∨ (key = k ∧ t = c.attempt) := by
    intro k t
    rw [withGrant, hgrants, List.mem_append]
    by_cases hk : key = k
    · simp [hk]
    · simp [hk]
  rw [heq]
  refine ⟨hm.limits_eq, fun k t ht => ?_, fun k s hs => ?_⟩
  · rcases (hcounted k t).mp ht with hold | ⟨-, rfl⟩
    · exact (h.past k t hold).trans (hattempt.trans c.attempt_le)
    · exact c.attempt_le
  · have hlookup : ((l'.makeRoom c.sweep).record key c).attempts.lookup k =
        if k = key then some ((l'.makeRoom c.sweep).count
          ((l'.makeRoom c.sweep).current key c.renew) c)
        else (l'.makeRoom c.sweep).attempts.lookup k := lookup_insert_apply _ key k _
    rw [hlookup] at hs
    by_cases hk : k = key
    · subst hk
      rw [if_pos rfl] at hs
      cases hs
      rw [Limits.lastAttempt_count]
      refine ⟨(hcounted k c.attempt).mpr (Or.inr ⟨rfl, rfl⟩), fun t ht => ?_⟩
      rcases (hcounted k t).mp ht with hold | ⟨-, rfl⟩
      · exact (h.past k t hold).trans hattempt
      · exact Int.le_refl _
    · rw [if_neg hk] at hs
      obtain ⟨hlast, hlater⟩ := hm.last k s hs
      refine ⟨(hcounted k _).mpr (Or.inl hlast), fun t ht => ?_⟩
      rcases (hcounted k t).mp ht with hold | ⟨hkey, -⟩
      · exact hlater t hold
      · exact absurd hkey.symm hk

theorem Stored.step (h : Stored limits counted now l) {e : Call} (hclock : e.After now) :
    Stored limits (withGrant counted l e) (e.done now) (LoginBackoff.step l e) := by
  cases e with
  | reserve key c =>
    have hblock : c.since ≤ c.block := c.since_le.trans (c.wait_le.trans
      (c.sweep_le.trans (c.renew_le.trans c.attempt_le)))
    cases hgrant : (l.reserve key c).2.1 with
    | true => exact h.reserve hclock hgrant
    | false =>
      have hnone : ∀ k, (Call.reserve key c).grant l k = none := by
        intro k
        simp only [Call.grant, hgrant, Bool.false_eq_true, and_false, ↓reduceIte]
      rw [withGrant_of_none hnone, LoginBackoff.step, reserve_denied hgrant]
      exact h.faded (hclock.trans hblock) (Faded.refl l now)
  | allow key c =>
    rw [withGrant_of_none fun _ => rfl]
    exact h.faded (hclock.trans c.since_le) (faded_allow l key c)
  | refund key =>
    rw [withGrant_of_none fun _ => rfl]
    refine h.pass (Int.le_refl now) (toLimits_refund l key) fun k s hs => ?_
    have hlookup := lookup_refund l key k
    rw [show (LoginBackoff.step l (.refund key)).attempts.lookup k = _ from hlookup] at hs
    by_cases hk : k = key
    · rw [if_pos hk, ← hk] at hs
      obtain ⟨s₀, hs₀, huncount⟩ := Option.bind_eq_some_iff.mp hs
      exact ⟨s₀, hs₀, (Limits.uncount_some huncount).2.1⟩
    · rw [if_neg hk] at hs
      exact ⟨s, hs, rfl⟩
  | recordSuccess key =>
    rw [withGrant_of_none fun _ => rfl]
    refine h.pass (Int.le_refl now) rfl fun k s hs => ⟨s, ?_, rfl⟩
    have hlookup := lookup_recordSuccess l key k
    rw [show (LoginBackoff.step l (.recordSuccess key)).attempts.lookup k = _ from hlookup] at hs
    by_cases hk : k = key
    · rw [if_pos hk] at hs
      cases hs
    · rw [if_neg hk] at hs
      exact hs

/-- The clock after a run. -/
def clock (now : ℤ) (run : List Call) : ℤ := run.foldl Call.done now

theorem Stored.run (h : Stored limits counted now l) {run : List Call}
    (hclock : Nondecreasing now run) :
    Stored limits (fun key => counted key ++ grants key l run) (clock now run)
      (run.foldl LoginBackoff.step l) := by
  induction run generalizing counted now l with
  | nil =>
    have hnone : (fun key => counted key ++ grants key l []) = counted := by
      funext key
      exact List.append_nil _
    rw [hnone]
    exact h
  | cons e es ih =>
    have hrest := ih (h.step hclock.1) hclock.2
    have hgrants : (fun key => counted key ++ grants key l (e :: es)) =
        fun key => withGrant counted l e key ++ grants key (LoginBackoff.step l e) es := by
      funext key
      rw [withGrant, grants, List.append_assoc]
    rw [hgrants]
    exact hrest

theorem stored_reached (limits : Limits) {run : List Call} (hclock : Nondecreasing now run) :
    Stored limits (attempts limits run) (clock now run) (reached limits run) :=
  (stored_noAttempts limits now).run hclock

theorem nondecreasing_append {run run' : List Call} (h : Nondecreasing now (run ++ run')) :
    Nondecreasing now run ∧ Nondecreasing (clock now run) run' := by
  induction run generalizing now with
  | nil => exact ⟨trivial, h⟩
  | cons e es ih =>
    obtain ⟨hes, hrun'⟩ := ih h.2
    exact ⟨⟨h.1, hes⟩, hrun'⟩

/-- What a sweep leaves was counted within the window. -/
theorem recent_of_evictExpired (h : Stored limits counted now l) {t : ℤ} {k : String}
    (hk : k ∈ (l.evictExpired t).attempts) :
    Recent limits.window t counted k := by
  obtain ⟨s, hs⟩ := mem_iff_lookup.mp hk
  have hsweep : (l.evictExpired t).attempts.lookup k =
      (l.attempts.lookup k).bind fun s => if l.expired t s then none else some s :=
    lookup_sweep _ l.attempts k
  rw [hsweep] at hs
  obtain ⟨s₀, hs₀, hlive⟩ := Option.bind_eq_some_iff.mp hs
  have hfresh : ¬ l.expired t s₀ := by
    intro hexp
    rw [if_pos hexp] at hlive
    cases hlive
  unfold Limits.expired at hfresh
  rw [h.limits_eq] at hfresh
  exact ⟨_, (h.last k s₀ hs₀).1, not_lt.mp hfresh⟩

/-- A call other than a granted `Reserve` adds no key. -/
theorem mem_of_not_adds {e : Call} (hadds : ¬ Adds l e) {k : String}
    (hk : k ∈ (LoginBackoff.step l e).attempts) : k ∈ l.attempts := by
  obtain ⟨s, hs⟩ := mem_iff_lookup.mp hk
  rw [mem_iff_lookup]
  cases e with
  | reserve key c =>
    have hdenied : (l.reserve key c).2.1 = false := Bool.eq_false_iff.mpr hadds
    rw [LoginBackoff.step, reserve_denied hdenied] at hs
    exact ⟨s, hs⟩
  | allow key c => exact ⟨s, lookup_of_faded (faded_allow l key c) hs⟩
  | refund key =>
    rw [show (LoginBackoff.step l (.refund key)).attempts.lookup k = _ from
      lookup_refund l key k] at hs
    by_cases hk : k = key
    · rw [if_pos hk, ← hk] at hs
      obtain ⟨s₀, hs₀, -⟩ := Option.bind_eq_some_iff.mp hs
      exact ⟨s₀, hs₀⟩
    · rw [if_neg hk] at hs
      exact ⟨s, hs⟩
  | recordSuccess key =>
    rw [show (LoginBackoff.step l (.recordSuccess key)).attempts.lookup k = _ from
      lookup_recordSuccess l key k] at hs
    by_cases hk : k = key
    · rw [if_pos hk] at hs
      cases hs
    · rw [if_neg hk] at hs
      exact ⟨s, hs⟩

/-- Without a granted `Reserve` the limiter does not grow. -/
theorem size_run_le {run : List Call} (hquiet : Runs.Guarded LoginBackoff.step (¬ Adds · ·) l run) :
    size (run.foldl LoginBackoff.step l).attempts ≤ size l.attempts := by
  induction run generalizing l with
  | nil => exact Nat.le_refl _
  | cons e es ih =>
    exact (ih hquiet.2).trans (size_le_of_subset fun k hk => mem_of_not_adds hquiet.1 hk)

/-- A window that is negative has passed for every attempt. -/
theorem size_evictExpired_eq_zero (h : Stored limits counted now l) {t : ℤ} (ht : now ≤ t)
    (hwindow : limits.window < 0) : size (l.evictExpired t).attempts = 0 := by
  rw [size_eq_length_keys, List.length_eq_zero_iff, List.eq_nil_iff_forall_not_mem]
  intro k hk
  obtain ⟨last, hlast, hnear⟩ := recent_of_evictExpired h (AList.mem_keys.mpr hk)
  have hpast := h.past k last hlast
  omega

/-- After a granted `Reserve` the table was not full, or every key in it was counted within the
window before the sweep. -/
theorem size_reserve_le (h : Stored limits counted now l) {key : String} {c : ReserveClock}
    (hclock : now ≤ c.since) (hgrant : (l.reserve key c).2.1 = true)
    (hsane : 0 ≤ limits.window ∨ 1 ≤ limits.maxTrackedSources) :
    (size (l.reserve key c).1.attempts : ℤ) ≤ max limits.maxTrackedSources
      (sizeWhere (Recent limits.window c.sweep (withGrant counted l (.reserve key c)))
        (l.reserve key c).1.attempts) := by
  obtain ⟨l', hfirst, heq⟩ := reserve_swept hgrant
  have hl' := h.faded hclock hfirst
  have hinsert : size (l.reserve key c).1.attempts ≤ size (l'.makeRoom c.sweep).attempts + 1 := by
    rw [heq]
    exact size_insert_le _ _ _
  by_cases hfull : (size l'.attempts : ℤ) ≥ l'.maxTrackedSources
  · have hroom : l'.makeRoom c.sweep = l'.evictExpired c.sweep := if_pos hfull
    rcases le_or_gt 0 limits.window with hwindow | hwindow
    · apply le_max_of_le_right
      apply Int.ofNat_le.mpr
      apply size_le_sizeWhere
      intro k hk
      by_cases hkey : k = key
      · subst hkey
        refine ⟨c.attempt, List.mem_append_right _ ?_, ?_⟩
        · simp only [Call.grant, hgrant, and_self, ↓reduceIte, Option.toList_some,
            List.mem_singleton]
        · have hattempt := c.sweep_le.trans c.renew_le
          omega
      · rw [heq, hroom] at hk
        have hold : k ∈ (l'.evictExpired c.sweep).attempts :=
          (AList.mem_insert _).mp hk |>.resolve_left hkey
        obtain ⟨last, hlast, hnear⟩ := recent_of_evictExpired hl' hold
        exact ⟨last, List.mem_append_left _ hlast, hnear⟩
    · have hempty := size_evictExpired_eq_zero hl' (c.since_le.trans c.wait_le) hwindow
      apply le_max_of_le_left
      rw [hroom, hempty] at hinsert
      have hmax := hsane.resolve_left (not_le.mpr hwindow)
      omega
  · have hroom : l'.makeRoom c.sweep = l' := if_neg hfull
    apply le_max_of_le_left
    rw [hroom] at hinsert
    rw [hl'.limits_eq] at hfull
    omega

/-- A tracked key that was counted within the window is not expired. -/
theorem Stored.not_expired (h : Stored limits counted now l) {key : String} {t : ℤ}
    (hrecent : Recent limits.window t counted key) {s : AttemptState}
    (hs : l.attempts.lookup key = some s) : ¬ l.expired t s := by
  obtain ⟨last, hlast, hnear⟩ := hrecent
  have hlater := (h.last key s hs).2 last hlast
  unfold Limits.expired
  rw [h.limits_eq]
  omega

theorem mem_of_faded (h : Stored limits counted now l) {t : ℤ} (hfade : Faded l m t) {key : String}
    (hkey : key ∈ l.attempts) (hrecent : Recent limits.window t counted key) :
    key ∈ m.attempts := by
  obtain ⟨s, hs⟩ := mem_iff_lookup.mp hkey
  rw [mem_iff_lookup]
  rcases hfade.lookup key with hkeep | ⟨s', hs', hexp, -⟩
  · exact ⟨s, hkeep.trans hs⟩
  · exact absurd hexp (h.not_expired hrecent hs')

theorem mem_reserve (h : Stored limits counted now l) {key : String} (c : ReserveClock)
    {k : String} (hk : k ∈ l.attempts) (hrecent : Recent limits.window c.sweep counted k) :
    k ∈ (l.reserve key c).1.attempts := by
  rcases reserve_cases l key c with ⟨s, -, -, heq⟩ | ⟨m, hfade, -, heq⟩
  · rw [heq]
    exact hk
  · rw [heq]
    exact (AList.mem_insert _).mpr (Or.inr (mem_of_faded h hfade hk hrecent))

theorem reached_append (limits : Limits) (run run' : List Call) :
    reached limits (run ++ run') = run'.foldl LoginBackoff.step (reached limits run) :=
  List.foldl_append

/-- The memory of a login limiter in all runs from a new one. Since the last granted `Reserve` it
has at most as many keys as it may, or as were counted within the window before that call's sweep;
what `Reserve` and `Allow` drop was not counted within the window. -/
structure LoginMemory (limits : Limits) (now : ℤ) : Prop where
  size_le : ∀ (before after : List Call) (key : String) (c : ReserveClock),
    Nondecreasing now (before ++ .reserve key c :: after) →
    ((reached limits before).reserve key c).2.1 = true →
    Runs.Guarded LoginBackoff.step (¬ Adds · ·) (reached limits (before ++ [.reserve key c])) after →
    (size (reached limits (before ++ .reserve key c :: after)).attempts : ℤ) ≤
      max limits.maxTrackedSources (sizeWhere
        (Recent limits.window c.sweep (attempts limits (before ++ [.reserve key c])))
        (reached limits (before ++ [.reserve key c])).attempts)
  empty : ∀ run, Runs.Guarded LoginBackoff.step (¬ Adds · ·) (noAttempts limits) run →
    size (reached limits run).attempts = 0
  reserve_keeps : ∀ (run : List Call) (key : String) (c : ReserveClock),
    Nondecreasing now (run ++ [.reserve key c]) →
    ∀ k ∈ (reached limits run).attempts, Recent limits.window c.sweep (attempts limits run) k →
      k ∈ ((reached limits run).reserve key c).1.attempts
  allow_keeps : ∀ (run : List Call) (key : String) (c : AllowClock),
    Nondecreasing now (run ++ [.allow key c]) →
    ∀ k ∈ (reached limits run).attempts, Recent limits.window c.since (attempts limits run) k →
      k ∈ ((reached limits run).allow key c).1.attempts

theorem attempts_append (limits : Limits) (run : List Call) (e : Call) :
    attempts limits (run ++ [e]) = withGrant (attempts limits run) (reached limits run) e := by
  funext key
  have happend : ∀ (l : LoginLimiter) (es : List Call), grants key l (es ++ [e]) =
      grants key l es ++ (e.grant (es.foldl LoginBackoff.step l) key).toList := by
    intro l es
    induction es generalizing l with
    | nil => exact List.append_nil _
    | cons e' es ih =>
      rw [List.cons_append, grants, ih, grants, List.append_assoc]
      rfl
  exact happend (noAttempts limits) run

theorem loginMemory (limits : Limits) (now : ℤ)
    (hsane : 0 ≤ limits.window ∨ 1 ≤ limits.maxTrackedSources) : LoginMemory limits now := by
  constructor
  case size_le =>
    intro before after key c hclock hgrant hquiet
    obtain ⟨hbefore, hrest⟩ := nondecreasing_append hclock
    have hstored := stored_reached limits hbefore
    have hbound := size_reserve_le hstored hrest.1 hgrant hsane
    have hlast : reached limits (before ++ [.reserve key c]) =
        ((reached limits before).reserve key c).1 := by
      rw [reached_append]
      rfl
    have hall : reached limits (before ++ .reserve key c :: after) =
        after.foldl LoginBackoff.step (reached limits (before ++ [.reserve key c])) := by
      rw [← reached_append, List.append_assoc]
      rfl
    rw [attempts_append, hall, hlast]
    rw [hlast] at hquiet
    have hshrink := size_run_le hquiet
    exact (Int.ofNat_le.mpr hshrink).trans hbound
  case empty =>
    intro run hquiet
    exact Nat.le_zero.mp (size_run_le hquiet)
  case reserve_keeps =>
    intro run key c hclock k hk hrecent
    exact mem_reserve (stored_reached limits (nondecreasing_append hclock).1) c hk hrecent
  case allow_keeps =>
    intro run key c hclock k hk hrecent
    exact mem_of_faded (stored_reached limits (nondecreasing_append hclock).1)
      (faded_allow _ key c) hk hrecent

end Login

section Request

open RollingWindow RequestLimiter

variable {l : RequestLimiter} {history : String → List ℤ} {now : ℤ}

/-- A request of the key was granted after the cutoff. -/
def RecentHit (cutoff : ℤ) (hits : String → List ℤ) (key : String) : Prop :=
  ∃ t ∈ hits key, cutoff < t

instance (cutoff : ℤ) (hits : String → List ℤ) : DecidablePred (RecentHit cutoff hits) :=
  fun key => inferInstanceAs (Decidable (∃ t ∈ hits key, cutoff < t))

/-- What a call finds of a key after the cutoff is what was granted then. -/
def AgreesOn (history : String → List ℤ) (now : ℤ) (l : RequestLimiter) : Prop :=
  ∀ key, Agrees key (history key) now l

/-- After a sweep every tracked key has a hit after the cutoff. -/
theorem recentHit_of_evictExpired (h : AgreesOn history now l) {t : ℤ} (ht : now ≤ t) {k : String}
    (hk : k ∈ (l.evictExpired (t - l.window)).hits) :
    RecentHit (t - l.window) history k := by
  obtain ⟨kept, hkept⟩ := mem_iff_lookup.mp hk
  have hsweep : (l.evictExpired (t - l.window)).hits.lookup k =
      (l.hits.lookup k).bind (trimmed (t - l.window)) := lookup_sweep _ l.hits k
  rw [hsweep] at hkept
  obtain ⟨ts, hts, htrim⟩ := Option.bind_eq_some_iff.mp hkept
  have hlive : l.live k t = ts.filter (t - l.window < ·) := by
    unfold live times
    rw [hts]
    rfl
  unfold trimmed at htrim
  rw [filterAfter_eq, ← hlive] at htrim
  have hne : (l.live k t).length ≠ 0 := by
    intro hzero
    rw [if_pos hzero] at htrim
    cases htrim
  rw [h k t ht] at hne
  obtain ⟨u, hu⟩ := List.exists_mem_of_length_pos (Nat.pos_of_ne_zero hne)
  obtain ⟨hmem, hlate⟩ := List.mem_filter.mp hu
  exact ⟨u, hmem, of_decide_eq_true hlate⟩

/-- A key with a hit after the cutoff stays through a sweep. -/
theorem mem_makeRoom (h : AgreesOn history now l) {t : ℤ} (ht : now ≤ t) {k : String}
    (hk : k ∈ l.hits) (hrecent : RecentHit (t - l.window) history k) :
    k ∈ (l.makeRoom (t - l.window)).hits := by
  unfold makeRoom
  split
  · obtain ⟨ts, hts⟩ := mem_iff_lookup.mp hk
    have hlive : l.live k t = ts.filter (t - l.window < ·) := by
      unfold live times
      rw [hts]
      rfl
    obtain ⟨u, hu, hlate⟩ := hrecent
    have hmem : u ∈ ts.filter (t - l.window < ·) := by
      rw [← hlive, h k t ht]
      exact List.mem_filter.mpr ⟨hu, decide_eq_true hlate⟩
    rw [mem_iff_lookup]
    have hsweep : (l.evictExpired (t - l.window)).hits.lookup k =
        (l.hits.lookup k).bind (trimmed (t - l.window)) := lookup_sweep _ l.hits k
    refine ⟨ts.filter (t - l.window < ·), hsweep.trans ?_⟩
    rw [hts, Option.bind_some, trimmed, filterAfter_eq]
    exact if_neg (List.ne_nil_iff_length_pos.mp (List.ne_nil_of_mem hmem)).ne'
  · exact hk

/-- The granted requests with that of one more call. -/
def withHit (history : String → List ℤ) (l : RequestLimiter) (c : Call) (key : String) : List ℤ :=
  history key ++ if c.key = key ∧ (l.allow c.key c.now).2 = true then [c.now] else []

/-- What a call leaves: the swept table with its own key. -/
theorem allow_hits (l : RequestLimiter) (key : String) (t : ℤ) :
    ∃ ts, (l.allow key t).1.hits = (l.makeRoom (t - l.window)).hits.insert key ts := by
  unfold allow
  dsimp only
  split
  · exact ⟨_, rfl⟩
  · exact ⟨_, rfl⟩

/-- A call is granted, or finds a hit after its cutoff. -/
theorem recentHit_self (h : AgreesOn history now l) {c : Call} (hclock : now ≤ c.now)
    (hmax : 1 ≤ l.max) (hwindow : 0 < l.window) :
    RecentHit (c.now - l.window) (withHit history l c) c.key := by
  cases hgrant : (l.allow c.key c.now).2 with
  | true =>
    refine ⟨c.now, List.mem_append_right _ ?_, by omega⟩
    rw [if_pos ⟨rfl, hgrant⟩]
    exact List.mem_singleton_self _
  | false =>
    have hfull : ¬ (l.allow c.key c.now).2 = true := Bool.eq_false_iff.mp hgrant
    rw [allow_iff, h c.key c.now hclock] at hfull
    obtain ⟨u, hu⟩ := List.exists_mem_of_length_pos
      (l := (history c.key).filter (c.now - l.window < ·)) (by omega)
    obtain ⟨hmem, hlate⟩ := List.mem_filter.mp hu
    exact ⟨u, List.mem_append_left _ hmem, of_decide_eq_true hlate⟩

/-- After a call the table was not full, or every key in it has a hit within the window. -/
theorem size_allow_le (h : AgreesOn history now l) (hpast : ∀ key, ∀ t ∈ history key, t ≤ now)
    {c : Call} (hclock : now ≤ c.now) (hmax : 1 ≤ l.max)
    (hsane : 0 < l.window ∨ 1 ≤ l.maxTrackedKeys) :
    (size (l.allow c.key c.now).1.hits : ℤ) ≤ max l.maxTrackedKeys
      (sizeWhere (RecentHit (c.now - l.window) (withHit history l c))
        (l.allow c.key c.now).1.hits) := by
  obtain ⟨ts, hhits⟩ := allow_hits l c.key c.now
  have hinsert := size_insert_le (l.makeRoom (c.now - l.window)).hits c.key ts
  rw [hhits]
  by_cases hfull : (size l.hits : ℤ) ≥ l.maxTrackedKeys
  · have hroom : l.makeRoom (c.now - l.window) = l.evictExpired (c.now - l.window) := if_pos hfull
    rw [hroom] at hinsert ⊢
    rcases lt_or_ge 0 l.window with hwindow | hwindow
    · apply le_max_of_le_right
      apply Int.ofNat_le.mpr
      apply size_le_sizeWhere
      intro k hk
      by_cases hkey : k = c.key
      · rw [hkey]
        exact recentHit_self h hclock hmax hwindow
      · have hold := (AList.mem_insert _).mp hk |>.resolve_left hkey
        obtain ⟨u, hu, hlate⟩ := recentHit_of_evictExpired h hclock hold
        exact ⟨u, List.mem_append_left _ hu, hlate⟩
    · have hempty : size (l.evictExpired (c.now - l.window)).hits = 0 := by
        rw [size_eq_length_keys, List.length_eq_zero_iff, List.eq_nil_iff_forall_not_mem]
        intro k hk
        obtain ⟨u, hu, hlate⟩ := recentHit_of_evictExpired h hclock (AList.mem_keys.mpr hk)
        have hle := hpast k u hu
        omega
      apply le_max_of_le_left
      have hone := hsane.resolve_left (not_lt.mpr hwindow)
      omega
  · have hroom : l.makeRoom (c.now - l.window) = l := if_neg hfull
    apply le_max_of_le_left
    rw [hroom] at hinsert ⊢
    omega

/-- The granted requests of a run of a new limiter, by key. -/
def hits (max window maxTrackedKeys : ℤ) (run : List Call) (key : String) : List ℤ :=
  granted key (RollingWindow.start max window maxTrackedKeys) run

/-- The limiter after a run. -/
def ran (max window maxTrackedKeys : ℤ) (run : List Call) : RequestLimiter :=
  run.foldl RollingWindow.step (RollingWindow.start max window maxTrackedKeys)

/-- The memory of a request limiter in all runs from a new one: after every call it has at most as
many keys as it may, or as have a hit within the window; what a call drops has none. -/
structure RequestMemory (max window maxTrackedKeys now : ℤ) : Prop where
  size_le : ∀ (run : List Call) (c : Call), RollingWindow.Nondecreasing now (run ++ [c]) →
    (size (ran max window maxTrackedKeys (run ++ [c])).hits : ℤ) ≤ Max.max maxTrackedKeys (sizeWhere
      (RecentHit (c.now - window) (hits max window maxTrackedKeys (run ++ [c])))
      (ran max window maxTrackedKeys (run ++ [c])).hits)
  keeps : ∀ (run : List Call) (c : Call), RollingWindow.Nondecreasing now (run ++ [c]) →
    ∀ k ∈ (ran max window maxTrackedKeys run).hits,
      RecentHit (c.now - window) (hits max window maxTrackedKeys run) k →
        k ∈ (ran max window maxTrackedKeys (run ++ [c])).hits

/-- What holds of the history of each key in every run, with the settings of the limiter. -/
structure Followed (max window maxTrackedKeys : ℤ) (history : String → List ℤ) (now : ℤ)
    (l : RequestLimiter) : Prop where
  max_eq : l.max = max
  window_eq : l.window = window
  maxTrackedKeys_eq : l.maxTrackedKeys = maxTrackedKeys
  agrees : AgreesOn history now l
  past : ∀ key, ∀ t ∈ history key, t ≤ now

variable {max window maxTrackedKeys : ℤ}

theorem maxTrackedKeys_allow (l : RequestLimiter) (key : String) (t : ℤ) :
    (l.allow key t).1.maxTrackedKeys = l.maxTrackedKeys := by
  have hroom : (l.makeRoom (t - l.window)).maxTrackedKeys = l.maxTrackedKeys := by
    unfold makeRoom
    split <;> rfl
  unfold allow
  dsimp only
  split
  · exact hroom
  · exact hroom

theorem Followed.step (h : Followed max window maxTrackedKeys history now l) {c : Call}
    (hclock : now ≤ c.now) :
    Followed max window maxTrackedKeys (withHit history l c) c.now (RollingWindow.step l c) := by
  obtain ⟨hwindow, hmax⟩ := settings_allow l c.key c.now
  refine ⟨hmax.trans h.max_eq, hwindow.trans h.window_eq,
    (maxTrackedKeys_allow l c.key c.now).trans h.maxTrackedKeys_eq,
    fun key => (h.agrees key).step hclock, fun key t ht => ?_⟩
  rcases List.mem_append.mp ht with hold | hnew
  · exact (h.past key t hold).trans hclock
  · split at hnew
    · rw [List.mem_singleton.mp hnew]
    · cases hnew

/-- The clock after a run. -/
def lastReading (now : ℤ) (run : List Call) : ℤ := run.foldl (fun _ c => c.now) now

theorem Followed.run (h : Followed max window maxTrackedKeys history now l) {run : List Call}
    (hclock : RollingWindow.Nondecreasing now run) :
    Followed max window maxTrackedKeys (fun key => history key ++ granted key l run)
      (lastReading now run) (run.foldl RollingWindow.step l) := by
  induction run generalizing history now l with
  | nil =>
    have hnone : (fun key => history key ++ granted key l []) = history := by
      funext key
      exact List.append_nil _
    rw [hnone]
    exact h
  | cons c cs ih =>
    have hrest := ih (h.step hclock.1) hclock.2
    have hgranted : (fun key => history key ++ granted key l (c :: cs)) =
        fun key => withHit history l c key ++ granted key (RollingWindow.step l c) cs := by
      funext key
      rw [withHit, granted, List.append_assoc]
    rw [hgranted]
    exact hrest

theorem followed_ran {run : List Call} (hclock : RollingWindow.Nondecreasing now run) :
    Followed max window maxTrackedKeys (hits max window maxTrackedKeys run) (lastReading now run)
      (ran max window maxTrackedKeys run) := by
  have hstart : Followed max window maxTrackedKeys (fun _ => []) now
      (RollingWindow.start max window maxTrackedKeys) :=
    ⟨rfl, rfl, rfl, fun key => agrees_start key now max window maxTrackedKeys,
      fun _ _ h => (nomatch h)⟩
  exact hstart.run hclock

theorem nondecreasing_concat {run : List Call} {c : Call}
    (h : RollingWindow.Nondecreasing now (run ++ [c])) :
    RollingWindow.Nondecreasing now run ∧ lastReading now run ≤ c.now := by
  induction run generalizing now with
  | nil => exact ⟨trivial, h.1⟩
  | cons c' cs ih =>
    obtain ⟨hcs, hle⟩ := ih h.2
    exact ⟨⟨h.1, hcs⟩, hle⟩

theorem hits_concat (run : List Call) (c : Call) :
    hits max window maxTrackedKeys (run ++ [c]) = withHit (hits max window maxTrackedKeys run)
      (ran max window maxTrackedKeys run) c := by
  funext key
  have happend : ∀ (l : RequestLimiter) (cs : List Call), granted key l (cs ++ [c]) =
      granted key l cs ++ if c.key = key ∧
        ((cs.foldl RollingWindow.step l).allow c.key c.now).2 = true then [c.now] else [] := by
    intro l cs
    induction cs generalizing l with
    | nil => exact List.append_nil _
    | cons c' cs ih =>
      rw [List.cons_append, granted, ih, granted, List.append_assoc]
      rfl
  exact happend _ run

theorem ran_concat (run : List Call) (c : Call) :
    ran max window maxTrackedKeys (run ++ [c]) =
      ((ran max window maxTrackedKeys run).allow c.key c.now).1 :=
  List.foldl_append

theorem requestMemory (now : ℤ) (hmax : 1 ≤ max) (hsane : 0 < window ∨ 1 ≤ maxTrackedKeys) :
    RequestMemory max window maxTrackedKeys now := by
  constructor
  case size_le =>
    intro run c hclock
    obtain ⟨hrun, hlast⟩ := nondecreasing_concat hclock
    have hfollowed : Followed max window maxTrackedKeys _ _ _ := followed_ran hrun
    have hbound := size_allow_le hfollowed.agrees hfollowed.past hlast
    rw [hfollowed.max_eq, hfollowed.window_eq, hfollowed.maxTrackedKeys_eq] at hbound
    rw [hits_concat, ran_concat]
    exact hbound hmax hsane
  case keeps =>
    intro run c hclock k hk hrecent
    obtain ⟨hrun, hlast⟩ := nondecreasing_concat hclock
    have hfollowed : Followed max window maxTrackedKeys _ _ _ := followed_ran hrun
    have hroom := mem_makeRoom hfollowed.agrees hlast hk
    rw [hfollowed.window_eq] at hroom
    obtain ⟨ts, hhits⟩ := allow_hits (ran max window maxTrackedKeys run) c.key c.now
    rw [hfollowed.window_eq] at hhits
    rw [ran_concat, hhits]
    exact (AList.mem_insert _).mpr (Or.inr (hroom hrecent))

end Request

/-- In all runs of both limiters the clock of which never goes back, the memory is bounded. The
limiters may be set to anything that leaves room for one key, or keeps an attempt for some time; a
`RequestLimiter` allows at least one request. -/
theorem memory_bounded (limits : RateLimit.Limits) (max window maxTrackedKeys now : ℤ)
    (hlogin : 0 ≤ limits.window ∨ 1 ≤ limits.maxTrackedSources) (hmax : 1 ≤ max)
    (hrequest : 0 < window ∨ 1 ≤ maxTrackedKeys) :
    LoginMemory limits now ∧ RequestMemory max window maxTrackedKeys now :=
  ⟨loginMemory limits now hlogin, requestMemory now hmax hrequest⟩

/-- The settings of both limiters as they are constructed. -/
theorem newLimiters_bounded :
    LoginMemory RateLimit.newLoginLimiter.toLimits 0 ∧ RequestMemory 30 300000000000 10000 0 :=
  memory_bounded _ 30 300000000000 10000 0 (by decide) (by decide) (by decide)

/-- Room for one source. -/
def oneSource : RateLimit.Limits where
  maxAttempts := 5
  baseDelay := 1
  maxDelay := 8
  window := 10
  maxTrackedSources := 1

/-- Two sources at once, and much later a question about a third. -/
def quietKeys : List LoginBackoff.Call :=
  [.reserve "192.0.2.7" (.at 0), .reserve "192.0.2.8" (.at 0),
    .allow "192.0.2.9" ⟨20, 20, Int.le_refl 20⟩]

/-- The call that adds no key sweeps none out: two sources stay, with room for one and no attempt
within the window. -/
theorem quietKeys_stay :
    LoginBackoff.Nondecreasing 0 quietKeys ∧ clock 0 quietKeys = 20 ∧
      (∀ key, ¬ Recent oneSource.window 20 (attempts oneSource quietKeys) key) ∧
      oneSource.maxTrackedSources < size (reached oneSource quietKeys).attempts := by
  refine ⟨?_, rfl, fun key => ?_, by decide⟩
  · simp [LoginBackoff.Nondecreasing, quietKeys, LoginBackoff.Call.After, LoginBackoff.Call.done,
      RateLimit.ReserveClock.at]
  · have hzero : ∀ t ∈ attempts oneSource quietKeys key, t = 0 := by
      intro t ht
      simp only [attempts, quietKeys, LoginBackoff.grants, LoginBackoff.Call.grant,
        List.mem_append, Option.toList_none, List.not_mem_nil, or_false] at ht
      rcases ht with ht | ht
      · split at ht
        · exact List.mem_singleton.mp ht
        · cases ht
      · split at ht
        · exact List.mem_singleton.mp ht
        · cases ht
    rintro ⟨t, ht, hnear⟩
    rw [hzero t ht] at hnear
    exact absurd hnear (by decide)

end VyosClient.LimiterMemory
