import VyosClient.LoginBackoff

/-!
What a refund gives back. The limiter answers from the live entries, those whose window
has not passed, and of a block that is over it does not matter when it ended. Limiters
that look alike in this sense answer every later call alike. A refunded `Reserve` leaves
such a limiter where it had counted in a new entry; an older one keeps the attempt as its
last, and above `MaxAttempts` the longer block.
-/

namespace VyosClient.LoginRefund

open Tables RateLimit LoginLimiter LoginBackoff

variable {l m : LoginLimiter} {key : String} {now : ℤ}

/-- The entry of a key, unless its window has passed. -/
def live (l : LoginLimiter) (key : String) (now : ℤ) : Option AttemptState :=
  (l.attempts.lookup key).filter fun s => ¬ l.expired now s

/-- A block that is over ends now. -/
def forget (now : ℤ) (s : AttemptState) : AttemptState :=
  { s with blockedTill := max s.blockedTill now }

/-- What later calls can see of a key. -/
def seen (l : LoginLimiter) (key : String) (now : ℤ) : Option AttemptState :=
  (live l key now).map (forget now)

/-- The answer an entry gives. -/
def verdict (wait : ℤ) : Option AttemptState → Bool × ℤ
  | none => (true, 0)
  | some s => if s.blockedTill - wait > 0 then (false, s.blockedTill - wait) else (true, 0)

theorem live_eq_some_iff {s : AttemptState} :
    live l key now = some s ↔ l.attempts.lookup key = some s ∧ ¬ l.expired now s := by
  rw [live, Option.filter_eq_some_iff, decide_eq_true_eq]

theorem live_eq_none_iff :
    live l key now = none ↔ ∀ s, l.attempts.lookup key = some s → l.expired now s := by
  simp [live, Option.filter_eq_none_iff]

section Answers

theorem answer_allow (l : LoginLimiter) (key : String) (c : AllowClock) :
    (l.allow key c).2 = verdict c.wait (live l key c.since) := by
  unfold allow live
  cases l.attempts.lookup key with
  | none => rfl
  | some s =>
    by_cases hexp : l.expired c.since s
    · simp [hexp, Option.filter, verdict]
    · simp only [hexp, Option.filter, verdict, not_false_eq_true, decide_true, ↓reduceIte]
      split <;> rfl

theorem answer_reserve (l : LoginLimiter) (key : String) (c : ReserveClock) :
    (l.reserve key c).2 = verdict c.wait (live l key c.since) := by
  unfold reserve firstCheck live
  cases l.attempts.lookup key with
  | none => rfl
  | some s =>
    by_cases hexp : l.expired c.since s
    · simp [hexp, Option.filter, verdict]
    · simp only [hexp, Option.filter, verdict, not_false_eq_true, decide_true, ↓reduceIte]
      by_cases hwait : s.blockedTill - c.wait > 0
      · simp only [if_pos hwait]
      · simp only [if_neg hwait]

/-- An answer depends on nothing but what is seen. -/
theorem verdict_seen (l : LoginLimiter) (key : String) {t wait : ℤ} (h : t ≤ wait) :
    verdict wait (seen l key t) = verdict wait (live l key t) := by
  unfold seen
  cases live l key t with
  | none => rfl
  | some s =>
    simp only [Option.map_some, verdict, forget]
    by_cases hwait : s.blockedTill - wait > 0
    · have hmax : max s.blockedTill t = s.blockedTill := max_eq_left (by omega)
      rw [hmax]
    · rw [if_neg hwait, if_neg (by omega)]

end Answers

section Effects

/-- Time only takes entries away. -/
theorem live_of_le {t t' : ℤ} (h : t ≤ t') :
    live l key t' = (live l key t).filter fun s => ¬ l.expired t' s := by
  unfold live
  cases l.attempts.lookup key with
  | none => rfl
  | some s =>
    by_cases hexp : l.expired t s
    · have hexp' := Limits.expired_mono hexp h
      simp [hexp, hexp', Option.filter]
    · simp [hexp, Option.filter]

theorem seen_of_le {t t' : ℤ} (h : t ≤ t') :
    seen l key t' = ((seen l key t).filter fun s => ¬ l.expired t' s).map (forget t') := by
  unfold seen
  rw [live_of_le h]
  cases live l key t with
  | none => rfl
  | some s =>
    have hexp : l.expired t' (forget t s) ↔ l.expired t' s := Iff.rfl
    simp only [Option.map_some, Option.filter, hexp]
    split
    · simp [forget, max_assoc, max_eq_right h]
    · rfl

/-- What fades was not seen any more. -/
theorem live_faded {t : ℤ} (h : Faded l m t) (ht : t ≤ now) : live m key now = live l key now := by
  unfold live
  rw [h.limits]
  rcases h.lookup key with hkeep | ⟨s, hs, hexp, hgone⟩
  · rw [hkeep]
  · rw [hgone, hs]
    simp [Option.filter, Limits.expired_mono hexp ht]

theorem live_allow (l : LoginLimiter) (key k : String) {c : AllowClock} {t : ℤ}
    (ht : c.since ≤ t) : live (l.allow key c).1 k t = live l k t :=
  live_faded (faded_allow l key c) ht

theorem live_recordSuccess (l : LoginLimiter) (key k : String) (t : ℤ) :
    live (l.recordSuccess key) k t = if k = key then none else live l k t := by
  unfold live
  rw [lookup_recordSuccess]
  split
  · rfl
  · rfl

theorem live_refund (l : LoginLimiter) (key k : String) (t : ℤ) :
    live (l.refund key) k t =
      if k = key then (live l key t).bind l.uncount else live l k t := by
  unfold live
  rw [lookup_refund, toLimits_refund]
  split
  · cases l.attempts.lookup key with
    | none => rfl
    | some s =>
      have hexp : ∀ s', l.uncount s = some s' → (l.expired t s' ↔ l.expired t s) := by
        intro s' hs'
        unfold Limits.expired
        rw [(Limits.uncount_some hs').2.1]
      cases hs' : l.uncount s with
      | none => by_cases hlive : l.expired t s <;> simp [Option.filter, hs', hlive]
      | some s' => by_cases hlive : l.expired t s <;> simp [Option.filter, hs', hlive, hexp s' hs']
  · rfl

theorem current_eq (l : LoginLimiter) (key : String) (t : ℤ) :
    l.current key t = (live l key t).getD {} := by
  unfold current live
  cases l.attempts.lookup key with
  | none => rfl
  | some s => by_cases hexp : l.expired t s <;> simp [hexp, Option.filter]

/-- A granted attempt is counted in the entry that is live, or in a new one. -/
theorem live_reserve {c : ReserveClock} (hgrant : (l.reserve key c).2.1 = true) {t : ℤ}
    (ht : c.sweep ≤ t) (k : String) :
    live (l.reserve key c).1 k t =
      if k = key then
        (some (l.count ((live l key c.renew).getD {}) c)).filter fun s => ¬ l.expired t s
      else live l k t := by
  rcases reserve_cases l key c with ⟨s, -, -, heq⟩ | ⟨m, hfade, -, heq⟩
  · rw [heq] at hgrant
    cases hgrant
  · have hlookup : (m.record key c).attempts.lookup k =
        if k = key then some (m.count (m.current key c.renew) c) else m.attempts.lookup k :=
      lookup_insert_apply m.attempts key k _
    have hlive : live (m.record key c) k t = ((m.record key c).attempts.lookup k).filter
        fun s => ¬ m.expired t s := rfl
    rw [heq, hlive, hlookup, current_eq, live_faded hfade c.sweep_le, hfade.limits]
    split
    · rfl
    · have hother : live m k t = live l k t := live_faded hfade ht
      unfold live at hother
      rw [hfade.limits] at hother
      exact hother

/-- When a block ended leaves no trace in an entry that counts on. -/
theorem forget_count {r t : ℤ} (h : r ≤ t) (s : AttemptState) (c : ReserveClock) :
    forget t (l.count (forget r s) c) = forget t (l.count s c) := by
  unfold Limits.count forget
  dsimp only
  split
  · rfl
  · simp [max_assoc, max_eq_right h]

theorem seen_reserve {c : ReserveClock} (hgrant : (l.reserve key c).2.1 = true) {t : ℤ}
    (ht : c.block ≤ t) (k : String) :
    seen (l.reserve key c).1 k t =
      if k = key then
        ((some (l.count ((seen l key c.renew).getD {}) c)).filter fun s =>
          ¬ l.expired t s).map (forget t)
      else seen l k t := by
  have hrenew : c.renew ≤ t := c.renew_le.trans (c.attempt_le.trans ht)
  unfold seen
  rw [live_reserve hgrant (c.sweep_le.trans hrenew) k]
  split
  · cases live l key c.renew with
    | none => rfl
    | some s =>
      have hexp : l.expired t (l.count (forget c.renew s) c) ↔ l.expired t (l.count s c) := by
        unfold Limits.expired
        rw [Limits.lastAttempt_count, Limits.lastAttempt_count]
      simp only [Option.map_some, Option.getD_some, Option.filter, hexp]
      split
      · rw [Option.map_some, Option.map_some, forget_count hrenew]
      · rfl
  · rfl

theorem uncount_forget (t : ℤ) (s : AttemptState) :
    (l.uncount (forget t s)).map (forget t) = (l.uncount s).map (forget t) := by
  unfold Limits.uncount forget
  dsimp only
  split
  · rfl
  · split
    · rfl
    · simp

theorem seen_refund (l : LoginLimiter) (key k : String) (t : ℤ) :
    seen (l.refund key) k t =
      if k = key then ((seen l key t).bind l.uncount).map (forget t) else seen l k t := by
  unfold seen
  rw [live_refund]
  split
  · cases live l key t with
    | none => rfl
    | some s => exact (uncount_forget t s).symm
  · rfl

end Effects

/-- No later call tells the limiters apart. -/
structure Indistinct (l m : LoginLimiter) (now : ℤ) : Prop where
  limits : m.toLimits = l.toLimits
  seen : ∀ k, LoginRefund.seen m k now = LoginRefund.seen l k now

section Runs

theorem Indistinct.mono (h : Indistinct l m now) {t : ℤ} (ht : now ≤ t) : Indistinct l m t := by
  refine ⟨h.limits, fun k => ?_⟩
  rw [seen_of_le ht, seen_of_le ht, h.seen, h.limits]

/-- What `Reserve` and `Allow` answer. -/
def answer (l : LoginLimiter) : Call → Option (Bool × ℤ)
  | .reserve key c => some (l.reserve key c).2
  | .allow key c => some (l.allow key c).2
  | .refund _ => none
  | .recordSuccess _ => none

def answers : LoginLimiter → List Call → List (Option (Bool × ℤ))
  | _, [] => []
  | l, e :: es => answer l e :: answers (step l e) es

theorem answers_append (l : LoginLimiter) (es fs : List Call) :
    answers l (es ++ fs) = answers l es ++ answers (es.foldl step l) fs := by
  induction es generalizing l with
  | nil => rfl
  | cons e es ih => exact congrArg (answer l e :: ·) (ih (step l e))

theorem Indistinct.answer_reserve (h : Indistinct l m now) (key : String) {c : ReserveClock}
    (hclock : now ≤ c.since) : (m.reserve key c).2 = (l.reserve key c).2 := by
  rw [LoginRefund.answer_reserve, LoginRefund.answer_reserve, ← verdict_seen m key c.since_le,
    ← verdict_seen l key c.since_le, (h.mono hclock).seen key]

theorem Indistinct.answer_allow (h : Indistinct l m now) (key : String) {c : AllowClock}
    (hclock : now ≤ c.since) : (m.allow key c).2 = (l.allow key c).2 := by
  rw [LoginRefund.answer_allow, LoginRefund.answer_allow, ← verdict_seen m key c.since_le,
    ← verdict_seen l key c.since_le, (h.mono hclock).seen key]

theorem Indistinct.answer_eq (h : Indistinct l m now) {e : Call} (hclock : e.After now) :
    answer m e = answer l e := by
  cases e with
  | reserve key c => exact congrArg some (h.answer_reserve key hclock)
  | allow key c => exact congrArg some (h.answer_allow key hclock)
  | refund key => rfl
  | recordSuccess key => rfl

theorem Indistinct.reserve (h : Indistinct l m now) (key : String) {c : ReserveClock}
    (hclock : now ≤ c.since) : Indistinct (l.reserve key c).1 (m.reserve key c).1 c.block := by
  have hwait : now ≤ c.wait := hclock.trans c.since_le
  have hsweep : now ≤ c.sweep := hwait.trans c.wait_le
  have hrenew : now ≤ c.renew := hsweep.trans c.sweep_le
  have hblock : now ≤ c.block := hrenew.trans (c.renew_le.trans c.attempt_le)
  have hanswer := h.answer_reserve key hclock
  cases hgrant : (l.reserve key c).2.1 with
  | false =>
    have hgrant' : (m.reserve key c).2.1 = false := hanswer ▸ hgrant
    rw [reserve_denied hgrant, reserve_denied hgrant']
    exact h.mono hblock
  | true =>
    have hgrant' : (m.reserve key c).2.1 = true := hanswer ▸ hgrant
    refine ⟨?_, fun k => ?_⟩
    · rw [toLimits_reserve, toLimits_reserve]
      exact h.limits
    · rw [seen_reserve hgrant le_rfl, seen_reserve hgrant' le_rfl, (h.mono hrenew).seen,
        (h.mono hblock).seen, h.limits]

/-- Each call keeps the limiters indistinct. -/
theorem Indistinct.step (h : Indistinct l m now) {e : Call} (hclock : e.After now) :
    Indistinct (step l e) (step m e) (e.done now) := by
  cases e with
  | reserve key c => exact h.reserve key hclock
  | allow key c =>
    have hmono := h.mono (hclock.trans c.since_le)
    refine ⟨?_, fun k => ?_⟩
    · exact (faded_allow m key c).limits.trans (h.limits.trans (faded_allow l key c).limits.symm)
    · have hseen := hmono.seen k
      unfold LoginRefund.seen at hseen ⊢
      rw [LoginBackoff.step, LoginBackoff.step, Call.done, live_allow m key k c.since_le,
        live_allow l key k c.since_le]
      exact hseen
  | refund key =>
    refine ⟨?_, fun k => ?_⟩
    · exact (toLimits_refund m key).trans (h.limits.trans (toLimits_refund l key).symm)
    · rw [LoginBackoff.step, LoginBackoff.step, Call.done, seen_refund, seen_refund, h.seen,
        h.seen, h.limits]
  | recordSuccess key =>
    refine ⟨h.limits, fun k => ?_⟩
    have hseen := h.seen k
    unfold LoginRefund.seen at hseen ⊢
    rw [LoginBackoff.step, LoginBackoff.step, Call.done, live_recordSuccess, live_recordSuccess]
    split
    · rfl
    · exact hseen

/-- They answer every later run alike. -/
theorem Indistinct.answers_eq {run : List Call} (h : Indistinct l m now)
    (hclock : Nondecreasing now run) : answers m run = answers l run := by
  induction run generalizing l m now with
  | nil => rfl
  | cons e es ih => exact congrArg₂ List.cons (h.answer_eq hclock.1) (ih (h.step hclock.1) hclock.2)

end Runs

section Reached

/-- The states of a limiter with any settings, and the instants they are reached at. -/
def Reachable (l : LoginLimiter) (now : ℤ) : Prop :=
  ∃ (limits : Limits) (run : List Call), Nondecreasing zeroTime run ∧
    l = run.foldl step ⟨limits, ∅⟩ ∧ now = run.foldl (fun t e => e.done t) zeroTime

/-- Entries count something, and nothing that is still to come. -/
structure Counted (l : LoginLimiter) (now : ℤ) : Prop where
  clock : zeroTime ≤ now
  entry : ∀ k s, l.attempts.lookup k = some s → 0 < s.failures ∧ s.lastAttempt ≤ now

theorem Counted.faded (h : Counted l now) {t t' : ℤ} (hfade : Faded l m t) (ht : now ≤ t') :
    Counted m t' := by
  refine ⟨h.clock.trans ht, fun k s hs => ?_⟩
  rcases hfade.lookup k with hkeep | ⟨_, _, _, hgone⟩
  · obtain ⟨hfailures, hlast⟩ := h.entry k s (hkeep ▸ hs)
    exact ⟨hfailures, hlast.trans ht⟩
  · rw [hgone] at hs
    cases hs

theorem Counted.reserve (h : Counted l now) (key : String) {c : ReserveClock}
    (hclock : now ≤ c.since) : Counted (l.reserve key c).1 c.block := by
  have horder := c.since_le.trans (c.wait_le.trans (c.sweep_le.trans c.renew_le))
  have hblock : now ≤ c.block := hclock.trans (horder.trans c.attempt_le)
  cases hgrant : (l.reserve key c).2.1 with
  | false =>
    rw [reserve_denied hgrant]
    exact h.faded (Faded.refl l now) hblock
  | true =>
    refine ⟨h.clock.trans hblock, fun k s hs => ?_⟩
    by_cases hk : k = key
    · subst hk
      obtain ⟨s₀, hnew, hold⟩ := reserve_granted hgrant
      rw [hnew] at hs
      cases hs
      rw [Limits.failures_count, Limits.lastAttempt_count]
      refine ⟨?_, c.attempt_le⟩
      rcases hold with ⟨hs₀, _⟩ | ⟨rfl, _⟩
      · have hfailures := (h.entry k s₀ hs₀).1
        omega
      · decide
    · rcases lookup_reserve_of_ne hk c with hkeep | ⟨_, _, _, hgone⟩
      · obtain ⟨hfailures, hlast⟩ := h.entry k s (hkeep ▸ hs)
        exact ⟨hfailures, hlast.trans hblock⟩
      · rw [hgone] at hs
        cases hs

theorem Counted.step (h : Counted l now) {e : Call} (hclock : e.After now) :
    Counted (step l e) (e.done now) := by
  cases e with
  | reserve key c => exact h.reserve key hclock
  | allow key c => exact h.faded (faded_allow l key c) (hclock.trans c.since_le)
  | refund key =>
    refine ⟨h.clock, fun k s hs => ?_⟩
    rw [LoginBackoff.step, lookup_refund] at hs
    split at hs
    · obtain ⟨s₀, hs₀, hs⟩ := Option.bind_eq_some_iff.mp hs
      obtain ⟨_, hlast, hfailures⟩ := Limits.uncount_some hs
      refine ⟨hfailures, ?_⟩
      rw [hlast]
      exact (h.entry key s₀ hs₀).2
    · exact h.entry k s hs
  | recordSuccess key =>
    refine ⟨h.clock, fun k s hs => ?_⟩
    rw [LoginBackoff.step, lookup_recordSuccess] at hs
    split at hs
    · cases hs
    · exact h.entry k s hs

theorem Counted.run {run : List Call} (h : Counted l now) (hclock : Nondecreasing now run) :
    Counted (run.foldl LoginBackoff.step l) (run.foldl (fun t e => e.done t) now) := by
  induction run generalizing l now with
  | nil => exact h
  | cons e es ih => exact ih (h.step hclock.1) hclock.2

theorem Reachable.counted (h : Reachable l now) : Counted l now := by
  obtain ⟨limits, run, hclock, rfl, rfl⟩ := h
  apply Counted.run _ hclock
  refine ⟨le_rfl, fun k s hs => ?_⟩
  have hnone : (⟨limits, ∅⟩ : LoginLimiter).attempts.lookup k = none := rfl
  rw [hnone] at hs
  cases hs

end Reached

section Refunded

/-- What a refund leaves of the entry that a granted attempt was counted in. -/
def refunded (l : LoginLimiter) (c : ReserveClock) (s : AttemptState) : AttemptState where
  failures := s.failures
  lastAttempt := c.attempt
  blockedTill :=
    if s.failures < l.maxAttempts then zeroTime else c.block + l.backoff (s.failures + 1)

theorem uncount_count_new (l : Limits) (c : ReserveClock) : l.uncount (l.count {} c) = none := by
  unfold Limits.uncount
  rw [Limits.failures_count]
  rfl

theorem uncount_count {s : AttemptState} (hs : 0 < s.failures) (c : ReserveClock) :
    l.uncount (l.count s c) = some (refunded l c s) := by
  unfold Limits.uncount refunded
  rw [Limits.failures_count, Limits.lastAttempt_count, add_sub_cancel_right, if_neg (by omega)]
  by_cases hfew : s.failures < l.maxAttempts
  · rw [if_pos hfew, if_pos hfew]
  · rw [if_neg hfew, if_neg hfew, Limits.blockedTill_count (by omega)]

/-- A new entry goes with its attempt, an older one is kept with the attempt as its last. -/
theorem live_refunded (hcounted : Counted l now) {c : ReserveClock}
    (hgrant : (l.reserve key c).2.1 = true) {t : ℤ} (ht : c.sweep ≤ t) (k : String) :
    live ((l.reserve key c).1.refund key) k t =
      if k = key then
        ((live l key c.renew).map (refunded l c)).filter fun s => ¬ l.expired t s
      else live l k t := by
  rw [live_refund, live_reserve hgrant ht, live_reserve hgrant ht, if_pos rfl, toLimits_reserve]
  split
  · cases hlive : live l key c.renew with
    | none =>
      simp only [Option.getD_none, Option.filter]
      split
      · exact uncount_count_new l.toLimits c
      · rfl
    | some s =>
      have hfailures := (hcounted.entry key s (live_eq_some_iff.mp hlive).1).1
      have hexp : l.expired t (l.count s c) ↔ l.expired t (refunded l c s) := by
        unfold Limits.expired
        rw [Limits.lastAttempt_count]
        rfl
      simp only [Option.getD_some, Option.map_some, Option.filter, hexp]
      split
      · exact uncount_count hfailures c
      · rfl
  · rfl

theorem blockedTill_le {c : ReserveClock} (hgrant : (l.reserve key c).2.1 = true)
    {s : AttemptState} (hs : live l key c.renew = some s) : s.blockedTill ≤ c.wait := by
  obtain ⟨hlookup, hrenew⟩ := live_eq_some_iff.mp hs
  have hsince : live l key c.since = some s := by
    apply live_eq_some_iff.mpr
    refine ⟨hlookup, fun hexp => hrenew ?_⟩
    exact Limits.expired_mono hexp (c.since_le.trans (c.wait_le.trans c.sweep_le))
  rw [answer_reserve, hsince] at hgrant
  by_contra hblocked
  simp only [verdict, if_pos (show s.blockedTill - c.wait > 0 by omega)] at hgrant
  cases hgrant

/-- When the attempt that is refunded counts, nothing of the key is live; or its entry is
below `MaxAttempts` and its last attempt was made at the same instant; or the window passes
again before the call ends. -/
def Unaffected (l : LoginLimiter) (key : String) (c : ReserveClock) : Prop :=
  ∀ s, live l key c.renew = some s →
    (s.failures < l.maxAttempts ∧ s.lastAttempt = c.attempt) ∨ l.window < c.block - c.attempt

theorem Unaffected.indistinct {c : ReserveClock} (h : Unaffected l key c)
    (hcounted : Counted l now) (hclock : now ≤ c.since)
    (hgrant : (l.reserve key c).2.1 = true) :
    Indistinct l ((l.reserve key c).1.refund key) c.block := by
  have hwait : c.wait ≤ c.block :=
    c.wait_le.trans (c.sweep_le.trans (c.renew_le.trans c.attempt_le))
  have hsweep : c.sweep ≤ c.block := c.sweep_le.trans (c.renew_le.trans c.attempt_le)
  refine ⟨(toLimits_refund _ key).trans (toLimits_reserve l key c), fun k => ?_⟩
  unfold seen
  rw [live_refunded hcounted hgrant hsweep]
  by_cases hk : k = key
  · subst hk
    rw [if_pos rfl, live_of_le (c.renew_le.trans c.attempt_le)]
    cases hlive : live l k c.renew with
    | none => rfl
    | some s =>
      have hblocked := blockedTill_le hgrant hlive
      have hlast := (hcounted.entry k s (live_eq_some_iff.mp hlive).1).2
      have horder := c.since_le.trans (c.wait_le.trans (c.sweep_le.trans c.renew_le))
      have hzero : zeroTime ≤ c.block := by
        have hstart := hcounted.clock
        have hend := c.attempt_le
        omega
      rcases h s hlive with ⟨hfew, hsame⟩ | hpassed
      · have hexp : l.expired c.block (refunded l c s) ↔ l.expired c.block s := by
          unfold Limits.expired
          rw [hsame]
          rfl
        simp only [Option.map_some, Option.filter, hexp]
        split
        · simp only [Option.map_some, forget, refunded, if_pos hfew, hsame,
            max_eq_right (hblocked.trans hwait), max_eq_right hzero]
        · rfl
      · have hexp : l.expired c.block (refunded l c s) := hpassed
        have hexp' : l.expired c.block s := by
          unfold Limits.expired
          omega
        simp [Option.filter, hexp, hexp']
  · rw [if_neg hk]

end Refunded

section Burst

/-- Nothing blocks the key at the instant. -/
def Open (l : LoginLimiter) (key : String) (t : ℤ) : Prop :=
  ∀ s, live l key t = some s → s.blockedTill ≤ t

/-- The failures that are live at the instant. -/
def tally (l : LoginLimiter) (key : String) (t : ℤ) : ℤ :=
  ((live l key t).getD {}).failures

/-- Both readings of an `Allow` at the same instant. -/
def askedAt (t : ℤ) : AllowClock := ⟨t, t, Int.le_refl t⟩

/-- Attempts at one instant, and a question at the end. -/
def burst (key : String) (t : ℤ) (n : ℕ) : List Call :=
  List.replicate n (.reserve key (.at t)) ++ [.allow key (askedAt t)]

theorem nondecreasing_burst {t : ℤ} (h : now ≤ t) (n : ℕ) :
    Nondecreasing now (burst key t n) := by
  induction n generalizing now with
  | zero => exact ⟨h, trivial⟩
  | succ n ih => exact ⟨h, ih le_rfl⟩

theorem verdict_open {t : ℤ} (h : Open l key t) : verdict t (live l key t) = (true, 0) := by
  cases hlive : live l key t with
  | none => rfl
  | some s =>
    have hpast := h s hlive
    exact if_neg (by omega)

theorem live_at {t : ℤ} (hopen : Open l key t) (hwindow : 0 ≤ l.window) :
    live (l.reserve key (.at t)).1 key t =
      some (l.count ((live l key t).getD {}) (.at t)) := by
  have hgrant : (l.reserve key (.at t)).2.1 = true := by
    rw [answer_reserve]
    exact congrArg Prod.fst (verdict_open hopen)
  have hlive := live_reserve (t := t) hgrant le_rfl key
  have hfresh : ¬ l.expired t (l.count ((live l key t).getD {}) (.at t)) := by
    unfold Limits.expired
    rw [Limits.lastAttempt_count]
    show ¬ t - t > l.window
    omega
  rw [hlive, if_pos rfl]
  exact Option.filter_eq_some_iff.mpr ⟨rfl, decide_eq_true hfresh⟩

theorem tally_at {t : ℤ} (hopen : Open l key t) (hwindow : 0 ≤ l.window) :
    tally (l.reserve key (.at t)).1 key t = tally l key t + 1 := by
  rw [tally, live_at hopen hwindow]
  exact Limits.failures_count _ _

/-- Below `MaxAttempts` an attempt blocks nothing. -/
theorem open_at {t : ℤ} (hopen : Open l key t) (hwindow : 0 ≤ l.window) (hzero : zeroTime ≤ t)
    (hfew : tally l key t + 1 < l.maxAttempts) : Open (l.reserve key (.at t)).1 key t := by
  intro s hs
  rw [live_at hopen hwindow] at hs
  cases hs
  unfold Limits.count
  rw [if_neg (by unfold tally at hfew; omega)]
  cases hlive : live l key t with
  | none => exact hzero
  | some s => exact hopen s hlive

theorem open_burst {t : ℤ} (hzero : zeroTime ≤ t) {n : ℕ} (hopen : Open l key t)
    (hwindow : 0 ≤ l.window) (hfew : tally l key t + n < l.maxAttempts) :
    let l' := (List.replicate n (.reserve key (.at t))).foldl step l
    Open l' key t ∧ tally l' key t = tally l key t + n ∧ l'.toLimits = l.toLimits := by
  induction n generalizing l with
  | zero => exact ⟨hopen, (add_zero _).symm, rfl⟩
  | succ n ih =>
    have hlimits := toLimits_reserve l key (.at t)
    have htally := tally_at hopen hwindow
    push_cast at hfew ⊢
    have hopen' := open_at hopen hwindow hzero (by omega)
    obtain ⟨hlast, hcount, hkept⟩ := ih hopen' (by rw [hlimits]; exact hwindow)
      (by rw [hlimits, htally]; omega)
    refine ⟨hlast, ?_, hkept.trans hlimits⟩
    have htotal := hcount
    rw [htally] at htotal
    exact htotal.trans (by omega)

theorem backoff_pos {limits : Limits} (h : 0 < limits.maxDelay) (f : ℤ) :
    0 < limits.backoff f := by
  unfold Limits.backoff
  dsimp only
  split
  · exact h
  · omega

/-- The attempt that reaches `MaxAttempts` blocks the next one. -/
theorem denied_at {t : ℤ} (hopen : Open l key t) (hwindow : 0 ≤ l.window)
    (hdelay : 0 < l.maxDelay) (hmany : l.maxAttempts ≤ tally l key t + 1) :
    (verdict t (live (l.reserve key (.at t)).1 key t)).1 = false := by
  rw [live_at hopen hwindow]
  have hblocked := Limits.blockedTill_count (l := l.toLimits) (s := (live l key t).getD {})
    hmany (.at t)
  have hpos := backoff_pos hdelay (((live l key t).getD {}).failures + 1)
  have hlate : (l.count ((live l key t).getD {}) (.at t)).blockedTill - t > 0 := by
    rw [hblocked]
    show t + l.backoff (((live l key t).getD {}).failures + 1) - t > 0
    omega
  simp only [verdict, if_pos hlate]

/-- A burst that fills up to `MaxAttempts` blocks the next attempt. -/
theorem denied_burst {t : ℤ} (hzero : zeroTime ≤ t) {n : ℕ} (hopen : Open l key t)
    (hwindow : 0 ≤ l.window) (hdelay : 0 < l.maxDelay)
    (hfull : tally l key t + n + 1 = l.maxAttempts) :
    (verdict t (live ((List.replicate (n + 1) (.reserve key (.at t))).foldl step l) key t)).1 =
      false := by
  obtain ⟨hopen', hcount, hlimits⟩ := open_burst hzero (n := n) hopen hwindow (by omega)
  have hsucc : (List.replicate (n + 1) (.reserve key (.at t))).foldl step l =
      (((List.replicate n (.reserve key (.at t))).foldl step l).reserve key (.at t)).1 := by
    rw [List.replicate_succ', List.foldl_append]
    rfl
  rw [hsucc]
  apply denied_at hopen'
  · rw [hlimits]
    exact hwindow
  · rw [hlimits]
    exact hdelay
  · rw [hlimits, hcount]
    omega

/-- The question of a burst is answered like its attempts. -/
theorem verdict_of_answers {l m : LoginLimiter} {t : ℤ} {n : ℕ}
    (h : answers m (burst key t n) = answers l (burst key t n)) :
    verdict t (live ((List.replicate n (.reserve key (.at t))).foldl step m) key t) =
      verdict t (live ((List.replicate n (.reserve key (.at t))).foldl step l) key t) := by
  unfold burst at h
  rw [answers_append, answers_append] at h
  have hlast := (List.append_inj' h rfl).2
  simp only [answers, answer, answer_allow, List.cons.injEq, Option.some.injEq, and_true] at hlast
  exact hlast

end Burst

/-- Every later run is answered as if the attempt had not been made. -/
def Undone (l : LoginLimiter) (key : String) (c : ReserveClock) : Prop :=
  ∀ run, Nondecreasing c.block run →
    answers ((l.reserve key c).1.refund key) run = answers l run

section Traces

variable {c : ReserveClock} {s : AttemptState}

theorem live_refunded_of_le (hcounted : Counted l now)
    (hgrant : (l.reserve key c).2.1 = true) (hs : live l key c.renew = some s) {t : ℤ}
    (ht : c.block ≤ t) (hwindow : t - c.attempt ≤ l.window) :
    live ((l.reserve key c).1.refund key) key t = some (refunded l c s) := by
  have hsweep : c.sweep ≤ t := c.sweep_le.trans (c.renew_le.trans (c.attempt_le.trans ht))
  rw [live_refunded hcounted hgrant hsweep, if_pos rfl, hs]
  have hfresh : ¬ l.expired t (refunded l c s) := not_lt.mpr hwindow
  exact Option.filter_eq_some_iff.mpr ⟨rfl, decide_eq_true hfresh⟩

/-- From `MaxAttempts` on the longer block is kept. -/
theorem few_of_undone (h : Undone l key c) (hcounted : Counted l now)
    (hdelay : 0 < l.maxDelay) (hgrant : (l.reserve key c).2.1 = true)
    (hs : live l key c.renew = some s) (hwindow : c.block - c.attempt ≤ l.window) :
    s.failures < l.maxAttempts := by
  by_contra hmany
  have hafter := live_refunded_of_le hcounted hgrant hs le_rfl hwindow
  have hopen : Open l key c.block := by
    intro s' hs'
    rw [live_of_le (c.renew_le.trans c.attempt_le), hs] at hs'
    obtain ⟨heq, _⟩ := Option.filter_eq_some_iff.mp hs'
    cases heq
    exact (blockedTill_le hgrant hs).trans
      (c.wait_le.trans (c.sweep_le.trans (c.renew_le.trans c.attempt_le)))
  have hasked := verdict_of_answers (n := 0) (h (burst key c.block 0) (nondecreasing_burst le_rfl 0))
  simp only [List.replicate_zero, List.foldl_nil] at hasked
  have hpos := backoff_pos hdelay (s.failures + 1)
  have hlate : (refunded l c s).blockedTill - c.block > 0 := by
    simp only [refunded, if_neg hmany]
    omega
  rw [hafter, verdict_open hopen] at hasked
  simp only [verdict, if_pos hlate] at hasked
  cases hasked

/-- Below `MaxAttempts` the entry is kept for longer. -/
theorem sameInstant_of_undone (h : Undone l key c) (hcounted : Counted l now)
    (hdelay : 0 < l.maxDelay) (hclock : now ≤ c.since)
    (hgrant : (l.reserve key c).2.1 = true) (hs : live l key c.renew = some s)
    (hwindow : c.block - c.attempt ≤ l.window) (hfew : s.failures < l.maxAttempts) :
    s.lastAttempt = c.attempt := by
  by_contra hne
  obtain ⟨hlookup, hrenew⟩ := live_eq_some_iff.mp hs
  obtain ⟨hfailures, hlast⟩ := hcounted.entry key s hlookup
  have horder := c.since_le.trans (c.wait_le.trans (c.sweep_le.trans c.renew_le))
  have hlive : c.renew - s.lastAttempt ≤ l.window := not_lt.mp hrenew
  have hsince := c.since_le.trans (c.wait_le.trans c.sweep_le)
  have hblock := c.attempt_le
  have hstart := hcounted.clock
  -- by now the window has passed since the old last attempt, but not since the refunded one
  obtain ⟨t, ht, hgone, hkept⟩ : ∃ t, c.block ≤ t ∧ l.window < t - s.lastAttempt ∧
      t - c.attempt ≤ l.window := ⟨max c.block (s.lastAttempt + l.window + 1), by omega⟩
  have hafter := live_refunded_of_le hcounted hgrant hs ht hkept
  have hbefore : live l key t = none := by
    apply live_eq_none_iff.mpr
    intro s' hs'
    rw [hlookup] at hs'
    cases hs'
    exact hgone
  have hzero : zeroTime ≤ t := by omega
  have hlimits : ((l.reserve key c).1.refund key).toLimits = l.toLimits :=
    (toLimits_refund _ key).trans (toLimits_reserve l key c)
  have htally : tally ((l.reserve key c).1.refund key) key t = s.failures := by
    rw [tally, hafter]
    rfl
  have hnone : tally l key t = 0 := by
    rw [tally, hbefore]
    rfl
  have hopen : Open ((l.reserve key c).1.refund key) key t := by
    intro s' hs'
    rw [hafter] at hs'
    cases hs'
    simpa only [refunded, if_pos hfew] using hzero
  have hfree : Open l key t := by
    intro s' hs'
    rw [hbefore] at hs'
    cases hs'
  obtain ⟨n, hn⟩ : ∃ n : ℕ, s.failures + n + 1 = l.maxAttempts :=
    ⟨(l.maxAttempts - s.failures - 1).toNat, by omega⟩
  have hdenied := denied_burst hzero (n := n) hopen (by rw [hlimits]; omega)
    (by rw [hlimits]; exact hdelay) (by rw [hlimits, htally]; exact hn)
  obtain ⟨hfree', _, _⟩ := open_burst hzero (n := n + 1) hfree (by omega)
    (by rw [hnone]; push_cast; omega)
  have hasked := verdict_of_answers (h (burst key t (n + 1)) (nondecreasing_burst ht (n + 1)))
  rw [verdict_open hfree'] at hasked
  rw [hasked] at hdenied
  cases hdenied

end Traces

/-- A granted `Reserve` followed at once by its `Refund` leaves no trace in later answers
exactly when it is unaffected: its key has no live entry, or one below `MaxAttempts` with a
last attempt at the same instant, or the window passes before the call ends. -/
theorem undone_iff (hreach : Reachable l now) (hdelay : 0 < l.maxDelay) (key : String)
    (c : ReserveClock) (hclock : now ≤ c.since) (hgrant : (l.reserve key c).2.1 = true) :
    Undone l key c ↔ Unaffected l key c := by
  have hcounted := hreach.counted
  constructor
  · intro h s hs
    by_cases hwindow : l.window < c.block - c.attempt
    · exact .inr hwindow
    · have hfew := few_of_undone h hcounted hdelay hgrant hs (not_lt.mp hwindow)
      exact .inl ⟨hfew,
        sameInstant_of_undone h hcounted hdelay hclock hgrant hs (not_lt.mp hwindow) hfew⟩
  · intro h run hrun
    exact (h.indistinct hcounted hclock hgrant).answers_eq hrun

/-- A first attempt on a key is undone, whatever another key has done. -/
theorem firstAttempt_undone :
    Undone (newLoginLimiter.reserve "192.0.2.7" (.at 0)).1 "198.51.100.4" (.at 5) := by
  have hreach : Reachable (newLoginLimiter.reserve "192.0.2.7" (.at 0)).1 0 :=
    ⟨newLoginLimiter.toLimits, [.reserve "192.0.2.7" (.at 0)], ⟨le_rfl, trivial⟩, rfl, rfl⟩
  refine (undone_iff hreach (by decide) "198.51.100.4" (.at 5) (by decide) (by decide)).mpr ?_
  intro s hs
  have hnone : live (newLoginLimiter.reserve "192.0.2.7" (.at 0)).1 "198.51.100.4" 5 = none := by
    decide
  rw [show (ReserveClock.at 5).renew = 5 from rfl, hnone] at hs
  cases hs

/-- A sixth attempt when the block of the fifth is over. Refunded, it blocks the key for two
seconds; without it the key may try again at once. -/
theorem sixthAttempt_blocks :
    let l := (List.replicate 5 (Call.reserve "192.0.2.7" (.at 0))).foldl step newLoginLimiter
    let later := [Call.allow "192.0.2.7" (askedAt 1000000000)]
    Reachable l 0 ∧ (l.reserve "192.0.2.7" (.at 1000000000)).2 = (true, 0) ∧
      answers ((l.reserve "192.0.2.7" (.at 1000000000)).1.refund "192.0.2.7") later =
        [some (false, 2000000000)] ∧
      answers l later = [some (true, 0)] := by
  intro l later
  refine ⟨⟨newLoginLimiter.toLimits, List.replicate 5 (.reserve "192.0.2.7" (.at 0)), ?_, rfl, rfl⟩,
    by decide, by decide, by decide⟩
  simp [Nondecreasing, List.replicate, Call.After, Call.done, ReserveClock.at, zeroTime]

end VyosClient.LoginRefund
