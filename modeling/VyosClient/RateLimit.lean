import VyosClient.Tables
import Mathlib.Tactic.Common
import Mathlib.Tactic.Linarith

/-!
The login limiter of the backend: a table from source keys to attempt states,
read and written by four operations under one lock. Instants are integers, the
nanoseconds since the zero time, and durations are their differences. An operation
reads the clock several times; the readings come with the call, in the order in
which the source takes them.
-/

namespace VyosClient.RateLimit

open Tables

/-- `time.Time{}`. -/
def zeroTime : ℤ := 0

structure AttemptState where
  failures : ℤ := 0
  lastAttempt : ℤ := zeroTime
  blockedTill : ℤ := zeroTime
deriving DecidableEq, Repr

/-- The exported fields: what the limiter is set to. -/
structure Limits where
  maxAttempts : ℤ
  baseDelay : ℤ
  maxDelay : ℤ
  window : ℤ
  maxTrackedSources : ℤ

structure LoginLimiter extends Limits where
  attempts : Table String AttemptState

/-- Five free attempts, one second doubling up to five minutes, a window of fifteen minutes. -/
def newLoginLimiter : LoginLimiter where
  maxAttempts := 5
  baseDelay := 1000000000
  maxDelay := 300000000000
  window := 900000000000
  maxTrackedSources := 10000
  attempts := ∅

/-- The readings one `Reserve` takes of the clock: for `time.Since` and `time.Until` of the first
check, for the sweep, for the second `time.Since`, for `lastAttempt` and for `blockedTill`. A call
takes those its branches reach. -/
structure ReserveClock where
  since : ℤ
  wait : ℤ
  sweep : ℤ
  renew : ℤ
  attempt : ℤ
  block : ℤ
  since_le : since ≤ wait
  wait_le : wait ≤ sweep
  sweep_le : sweep ≤ renew
  renew_le : renew ≤ attempt
  attempt_le : attempt ≤ block

/-- All readings of one call at the same instant. -/
def ReserveClock.at (t : ℤ) : ReserveClock :=
  ⟨t, t, t, t, t, t, le_rfl, le_rfl, le_rfl, le_rfl, le_rfl⟩

/-- The readings one `Allow` takes of the clock. -/
structure AllowClock where
  since : ℤ
  wait : ℤ
  since_le : since ≤ wait

namespace Limits

variable (l : Limits)

/-- `time.Since(s.lastAttempt) > l.Window`. -/
def expired (now : ℤ) (s : AttemptState) : Prop := now - s.lastAttempt > l.window

instance (now : ℤ) (s : AttemptState) : Decidable (l.expired now s) :=
  inferInstanceAs (Decidable (_ > _))

/-- The shift is one of 64-bit integers: what leaves the word is lost, and the top bit is the sign. -/
def shl (d : ℤ) (k : ℕ) : ℤ := (d <<< k).bmod 18446744073709551616

/-- The backoff after a number of failures that reached `MaxAttempts`. -/
def backoff (failures : ℤ) : ℤ :=
  let delay := shl l.baseDelay (failures - l.maxAttempts).toNat
  if delay > l.maxDelay ∨ delay ≤ 0 then l.maxDelay else delay

/-- One more failure, at the instants the clock gives. -/
def count (s : AttemptState) (c : ReserveClock) : AttemptState :=
  if s.failures + 1 ≥ l.maxAttempts then
    ⟨s.failures + 1, c.attempt, c.block + l.backoff (s.failures + 1)⟩
  else ⟨s.failures + 1, c.attempt, s.blockedTill⟩

/-- One failure less: the entry goes with its last one, and below `MaxAttempts` nothing blocks. -/
def uncount (s : AttemptState) : Option AttemptState :=
  if s.failures - 1 ≤ 0 then none
  else if s.failures - 1 < l.maxAttempts then some ⟨s.failures - 1, s.lastAttempt, zeroTime⟩
  else some ⟨s.failures - 1, s.lastAttempt, s.blockedTill⟩

variable {l}

theorem expired_mono {t t' : ℤ} {s : AttemptState} (h : l.expired t s) (ht : t ≤ t') :
    l.expired t' s := by
  unfold expired at h ⊢
  omega

theorem failures_count (s : AttemptState) (c : ReserveClock) :
    (l.count s c).failures = s.failures + 1 := by
  unfold count
  split <;> rfl

theorem lastAttempt_count (s : AttemptState) (c : ReserveClock) :
    (l.count s c).lastAttempt = c.attempt := by
  unfold count
  split <;> rfl

theorem blockedTill_count {s : AttemptState} (h : l.maxAttempts ≤ s.failures + 1)
    (c : ReserveClock) :
    (l.count s c).blockedTill = c.block + l.backoff (s.failures + 1) := by
  unfold count
  rw [if_pos h]

theorem uncount_some {e e' : AttemptState} (h : l.uncount e = some e') :
    e'.failures = e.failures - 1 ∧ e'.lastAttempt = e.lastAttempt ∧ 0 < e'.failures := by
  unfold Limits.uncount at h
  by_cases hgone : e.failures - 1 ≤ 0
  · rw [if_pos hgone] at h
    cases h
  · rw [if_neg hgone] at h
    split at h <;> cases h <;> exact ⟨rfl, rfl, by simp only; omega⟩

theorem uncount_none {e : AttemptState} (h : l.uncount e = none) :
    e.failures ≤ 1 := by
  unfold Limits.uncount at h
  by_cases hgone : e.failures - 1 ≤ 0
  · omega
  · rw [if_neg hgone] at h
    split at h <;> cases h

end Limits

namespace LoginLimiter

variable (l : LoginLimiter) (key : String)

def allow (c : AllowClock) : LoginLimiter × Bool × ℤ :=
  match l.attempts.lookup key with
  | none => (l, true, 0)
  | some s =>
    if l.expired c.since s then ({ l with attempts := l.attempts.erase key }, true, 0)
    else if s.blockedTill - c.wait > 0 then (l, false, s.blockedTill - c.wait)
    else (l, true, 0)

/-- The first check of `Reserve`: an expired entry is dropped, a blocked one refuses the attempt
with the time to wait. -/
def firstCheck (c : ReserveClock) : Except ℤ LoginLimiter :=
  match l.attempts.lookup key with
  | none => .ok l
  | some s =>
    if l.expired c.since s then .ok { l with attempts := l.attempts.erase key }
    else if s.blockedTill - c.wait > 0 then .error (s.blockedTill - c.wait)
    else .ok l

def evictExpired (now : ℤ) : LoginLimiter :=
  { l with attempts := sweep (fun s => if l.expired now s then none else some s) l.attempts }

/-- The sweep before the table grows further. -/
def makeRoom (now : ℤ) : LoginLimiter :=
  if (size l.attempts : ℤ) ≥ l.maxTrackedSources then l.evictExpired now else l

/-- The state the attempt is counted in: the stored one, or a new one. -/
def current (now : ℤ) : AttemptState :=
  match l.attempts.lookup key with
  | none => {}
  | some s => if l.expired now s then {} else s

/-- The attempt is counted under its key. -/
def record (c : ReserveClock) : LoginLimiter :=
  { l with attempts := l.attempts.insert key (l.count (l.current key c.renew) c) }

def reserve (c : ReserveClock) : LoginLimiter × Bool × ℤ :=
  match l.firstCheck key c with
  | .error wait => (l, false, wait)
  | .ok l => ((l.makeRoom c.sweep).record key c, true, 0)

def refund : LoginLimiter :=
  match l.attempts.lookup key with
  | none => l
  | some s =>
    match l.uncount s with
    | none => { l with attempts := l.attempts.erase key }
    | some s => { l with attempts := l.attempts.insert key s }

def recordSuccess : LoginLimiter := { l with attempts := l.attempts.erase key }

variable {l key}

/-- The second limiter holds what the first one held, but for entries expired by then. -/
structure Faded (l m : LoginLimiter) (now : ℤ) : Prop where
  limits : m.toLimits = l.toLimits
  lookup : ∀ k, m.attempts.lookup k = l.attempts.lookup k ∨
    ∃ s, l.attempts.lookup k = some s ∧ l.expired now s ∧ m.attempts.lookup k = none

theorem Faded.refl (l : LoginLimiter) (now : ℤ) : Faded l l now :=
  ⟨rfl, fun _ => Or.inl rfl⟩

theorem Faded.trans {l m n : LoginLimiter} {t t' : ℤ} (h : Faded l m t) (h' : Faded m n t')
    (ht : t ≤ t') : Faded l n t' := by
  refine ⟨h'.limits.trans h.limits, fun k => ?_⟩
  rcases h.lookup k with hm | ⟨s, hs, hexp, hm⟩
  · rcases h'.lookup k with hn | ⟨s, hs, hexp, hn⟩
    · exact Or.inl (hn.trans hm)
    · exact Or.inr ⟨s, hm ▸ hs, h.limits ▸ hexp, hn⟩
  · rcases h'.lookup k with hn | ⟨s', hs', -, -⟩
    · exact Or.inr ⟨s, hs, Limits.expired_mono hexp ht, hn.trans hm⟩
    · rw [hm] at hs'
      cases hs'

theorem faded_erase {now : ℤ} {s : AttemptState} (hs : l.attempts.lookup key = some s)
    (hexp : l.expired now s) : Faded l { l with attempts := l.attempts.erase key } now := by
  refine ⟨rfl, fun k => ?_⟩
  have herase : (l.attempts.erase key).lookup k = if k = key then none else l.attempts.lookup k :=
    lookup_erase_apply l.attempts key k
  by_cases hk : k = key
  · subst hk
    exact Or.inr ⟨s, hs, hexp, herase.trans (if_pos rfl)⟩
  · exact Or.inl (herase.trans (if_neg hk))

theorem faded_allow (l : LoginLimiter) (key : String) (c : AllowClock) :
    Faded l (l.allow key c).1 c.since := by
  unfold allow
  cases hs : l.attempts.lookup key with
  | none => exact Faded.refl l _
  | some s =>
    by_cases hexp : l.expired c.since s
    · simp only [if_pos hexp]
      exact faded_erase hs hexp
    · simp only [if_neg hexp]
      split <;> exact Faded.refl l _

theorem faded_makeRoom (l : LoginLimiter) (now : ℤ) : Faded l (l.makeRoom now) now := by
  unfold makeRoom
  by_cases hfull : (size l.attempts : ℤ) ≥ l.maxTrackedSources
  · rw [if_pos hfull]
    refine ⟨rfl, fun k => ?_⟩
    have hsweep : (l.evictExpired now).attempts.lookup k =
        (l.attempts.lookup k).bind fun s => if l.expired now s then none else some s :=
      lookup_sweep _ l.attempts k
    cases hs : l.attempts.lookup k with
    | none => exact Or.inl (by rw [hsweep, hs]; rfl)
    | some s =>
      by_cases hexp : l.expired now s
      · exact Or.inr ⟨s, rfl, hexp, by rw [hsweep, hs, Option.bind_some, if_pos hexp]⟩
      · exact Or.inl (by rw [hsweep, hs, Option.bind_some, if_neg hexp])
  · rw [if_neg hfull]
    exact Faded.refl l now

/-- A refused attempt met an entry that blocks it. -/
theorem firstCheck_error {c : ReserveClock} {wait : ℤ} (h : l.firstCheck key c = .error wait) :
    ∃ s, l.attempts.lookup key = some s ∧ c.wait < s.blockedTill ∧
      wait = s.blockedTill - c.wait := by
  unfold firstCheck at h
  cases hs : l.attempts.lookup key with
  | none =>
    rw [hs] at h
    cases h
  | some s =>
    simp only [hs] at h
    by_cases hexp : l.expired c.since s
    · rw [if_pos hexp] at h
      cases h
    · rw [if_neg hexp] at h
      by_cases hwait : s.blockedTill - c.wait > 0
      · rw [if_pos hwait] at h
        injection h with h
        exact ⟨s, rfl, by omega, h.symm⟩
      · rw [if_neg hwait] at h
        cases h

/-- An attempt passes the first check when the entry it finds has expired, and goes, or does not
block it. -/
theorem firstCheck_ok {c : ReserveClock} {l' : LoginLimiter} (h : l.firstCheck key c = .ok l') :
    Faded l l' c.since ∧
      ∀ s, l'.attempts.lookup key = some s → s.blockedTill ≤ c.wait := by
  unfold firstCheck at h
  cases hs : l.attempts.lookup key with
  | none =>
    simp only [hs] at h
    injection h with h
    subst h
    refine ⟨Faded.refl l _, fun s hs' => ?_⟩
    rw [hs] at hs'
    cases hs'
  | some s =>
    simp only [hs] at h
    by_cases hexp : l.expired c.since s
    · rw [if_pos hexp] at h
      injection h with h
      subst h
      refine ⟨faded_erase hs hexp, fun s' hs' => ?_⟩
      rw [AList.lookup_erase] at hs'
      cases hs'
    · rw [if_neg hexp] at h
      by_cases hwait : s.blockedTill - c.wait > 0
      · rw [if_pos hwait] at h
        cases h
      · rw [if_neg hwait] at h
        injection h with h
        subst h
        refine ⟨Faded.refl l _, fun s' hs' => ?_⟩
        rw [hs] at hs'
        cases hs'
        omega

/-- The attempt is counted in the entry found, or in a new one when that has expired. -/
theorem current_cases (l : LoginLimiter) (key : String) (now : ℤ) :
    l.attempts.lookup key = some (l.current key now) ∨
      (l.current key now = {} ∧ ∀ s, l.attempts.lookup key = some s → l.expired now s) := by
  unfold current
  cases hs : l.attempts.lookup key with
  | none => exact Or.inr ⟨rfl, fun s hs' => by cases hs'⟩
  | some s =>
    by_cases hexp : l.expired now s
    · exact Or.inr ⟨if_pos hexp, fun s' hs' => by cases hs'; exact hexp⟩
    · exact Or.inl (congrArg some (if_neg hexp).symm)

/-- What `Reserve` does: it refuses and leaves the limiter alone, or records the attempt in a limiter
that lost nothing but expired entries, and where the key's entry does not block. -/
theorem reserve_cases (l : LoginLimiter) (key : String) (c : ReserveClock) :
    (∃ s, l.attempts.lookup key = some s ∧ c.wait < s.blockedTill ∧
        l.reserve key c = (l, false, s.blockedTill - c.wait)) ∨
      ∃ m, Faded l m c.sweep ∧ (∀ s, m.attempts.lookup key = some s → s.blockedTill ≤ c.wait) ∧
        l.reserve key c = (m.record key c, true, 0) := by
  unfold reserve
  cases h : l.firstCheck key c with
  | error wait =>
    obtain ⟨s, hs, hblock, hwait⟩ := firstCheck_error h
    exact Or.inl ⟨s, hs, hblock, by rw [hwait]⟩
  | ok l' =>
    obtain ⟨hfade, hpass⟩ := firstCheck_ok h
    have hroom := faded_makeRoom l' c.sweep
    refine Or.inr ⟨l'.makeRoom c.sweep,
      hfade.trans hroom (c.since_le.trans c.wait_le), fun s hs => hpass s ?_, rfl⟩
    rcases hroom.lookup key with hkeep | ⟨s', -, -, hgone⟩
    · exact hkeep ▸ hs
    · rw [hgone] at hs
      cases hs

theorem toLimits_reserve (l : LoginLimiter) (key : String) (c : ReserveClock) :
    (l.reserve key c).1.toLimits = l.toLimits := by
  rcases reserve_cases l key c with ⟨s, -, -, heq⟩ | ⟨m, hfade, -, heq⟩
  · rw [heq]
  · rw [heq]
    exact hfade.limits

/-- A denied `Reserve` leaves the limiter as it is. -/
theorem reserve_denied {c : ReserveClock} (h : (l.reserve key c).2.1 = false) :
    (l.reserve key c).1 = l := by
  rcases reserve_cases l key c with ⟨s, -, -, heq⟩ | ⟨m, -, -, heq⟩
  · rw [heq]
  · rw [heq] at h
    cases h

/-- A granted `Reserve` counts the attempt in the key's entry, which no longer blocks, or in a new
one, where whatever was stored had expired. -/
theorem reserve_granted {c : ReserveClock} (h : (l.reserve key c).2.1 = true) :
    ∃ s₀, (l.reserve key c).1.attempts.lookup key = some (l.count s₀ c) ∧
      ((l.attempts.lookup key = some s₀ ∧ s₀.blockedTill ≤ c.wait) ∨
        (s₀ = {} ∧ ∀ s, l.attempts.lookup key = some s → l.expired c.renew s)) := by
  rcases reserve_cases l key c with ⟨s, -, -, heq⟩ | ⟨m, hfade, hpass, heq⟩
  · rw [heq] at h
    cases h
  · refine ⟨m.current key c.renew, ?_, ?_⟩
    · rw [heq, ← hfade.limits]
      exact AList.lookup_insert _
    · rcases current_cases m key c.renew with hlive | ⟨hnew, hgone⟩
      · rcases hfade.lookup key with hkeep | ⟨s, -, -, hnone⟩
        · exact Or.inl ⟨hkeep ▸ hlive, hpass _ hlive⟩
        · rw [hnone] at hlive
          cases hlive
      · refine Or.inr ⟨hnew, fun s hs => ?_⟩
        rcases hfade.lookup key with hkeep | ⟨s', hs', hexp, -⟩
        · exact hfade.limits ▸ hgone s (hkeep.trans hs)
        · rw [hs] at hs'
          cases hs'
          exact Limits.expired_mono hexp c.sweep_le

/-- A `Reserve` on another key keeps an entry that has not expired. -/
theorem lookup_reserve_of_ne {k : String} (hk : k ≠ key) (c : ReserveClock) :
    (l.reserve key c).1.attempts.lookup k = l.attempts.lookup k ∨
      ∃ s, l.attempts.lookup k = some s ∧ l.expired c.sweep s ∧
        (l.reserve key c).1.attempts.lookup k = none := by
  rcases reserve_cases l key c with ⟨s, -, -, heq⟩ | ⟨m, hfade, -, heq⟩
  · exact Or.inl (by rw [heq])
  · have hrec : (l.reserve key c).1.attempts.lookup k = m.attempts.lookup k := by
      rw [heq]
      exact AList.lookup_insert_ne hk
    rw [hrec]
    exact hfade.lookup k

theorem lookup_recordSuccess (l : LoginLimiter) (key k : String) :
    (l.recordSuccess key).attempts.lookup k =
      if k = key then none else l.attempts.lookup k :=
  lookup_erase_apply l.attempts key k

theorem lookup_refund (l : LoginLimiter) (key k : String) :
    (l.refund key).attempts.lookup k =
      if k = key then (l.attempts.lookup key).bind l.uncount else l.attempts.lookup k := by
  unfold refund
  cases hs : l.attempts.lookup key with
  | none =>
    by_cases hk : k = key
    · rw [if_pos hk, hk, hs]
      rfl
    · rw [if_neg hk]
  | some s =>
    rw [Option.bind_some]
    cases hu : l.uncount s with
    | none => simpa only [hu] using lookup_erase_apply l.attempts key k
    | some s' => simpa only [hu] using lookup_insert_apply l.attempts key k s'

theorem toLimits_refund (l : LoginLimiter) (key : String) :
    (l.refund key).toLimits = l.toLimits := by
  unfold refund
  split
  · rfl
  · split <;> rfl

end LoginLimiter
end VyosClient.RateLimit
