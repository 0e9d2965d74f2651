import VyosClient.RateLimit
import VyosClient.Runs

/-!
Login attempts in flight against one limiter. An attempt reserves, its check
runs without the lock, and its outcome reaches the limiter later, in any order
with the steps of other attempts. `RecordSuccess` forgets the attempts that
reserved before it; a refund of one of these takes its failure from an attempt
that reserved after it.
-/

namespace VyosClient.LoginAccounting

open RateLimit Runs

/-- What `check` returns to `Verify`: an error, a mismatch or a match. -/
inductive Outcome
  | failed
  | refused
  | accepted
deriving DecidableEq, Repr

/-- How `Verify` ends: the limiter hears of errors and of matches, a mismatch stays counted. -/
def settle (l : LoginLimiter) (sourceKey : String) : Outcome → LoginLimiter
  | .failed => l.refund sourceKey
  | .refused => l
  | .accepted => l.recordSuccess sourceKey

/-- A granted attempt: its key, its outcome once there is one, and whether a `RecordSuccess` on its
key came after it reserved. -/
structure Attempt where
  key : String
  outcome : Option Outcome
  cleared : Bool
deriving DecidableEq, Repr

namespace Attempt

/-- Reserved after the last `RecordSuccess` on its key, and not refunded. -/
def counts (key : String) (a : Attempt) : Bool :=
  a.key == key && !a.cleared && a.outcome != some .failed

def clear (key : String) (a : Attempt) : Attempt :=
  if a.key = key then { a with cleared := true } else a

theorem counts_clear (k key : String) (a : Attempt) :
    (a.clear key).counts k = (a.counts k && k != key) := by
  unfold clear counts
  by_cases h : a.key = key
  · rw [if_pos h]
    by_cases hk : a.key = k
    · simp [hk, ← h]
    · simp [hk]
  · rw [if_neg h]
    by_cases hk : a.key = k
    · have hne : k ≠ key := fun hkk => h (hk.trans hkk)
      simp [hk, hne]
    · simp [hk]

end Attempt

/-- The limiter and the attempts it granted, oldest first. -/
structure Logins where
  limiter : LoginLimiter
  attempts : List Attempt

/-- Steps inside one window: a `Reserve` whose readings all lie in it, or the outcome of the granted
attempt at an index. -/
inductive Event (start window : ℤ)
  | reserve (key : String) (c : ReserveClock) (after : start ≤ c.since)
      (before : c.block ≤ start + window)
  | settle (i : ℕ) (o : Outcome)

namespace Logins

/-- The failures the limiter counts against a key. -/
def failures (s : Logins) (key : String) : ℤ :=
  (s.limiter.attempts.lookup key).elim 0 AttemptState.failures

/-- The granted attempts on a key that reserved after its last `RecordSuccess` and have not been
refunded. -/
def counted (s : Logins) (key : String) : ℕ := s.attempts.countP (Attempt.counts key)

/-- Attempts with an outcome: a success clears every attempt that reserved on its key so far. -/
def settled (attempts : List Attempt) (i : ℕ) (a : Attempt) (o : Outcome) : List Attempt :=
  let attempts := attempts.set i { a with outcome := some o }
  if o = .accepted then attempts.map (Attempt.clear a.key) else attempts

/-- An attempt settles once. -/
def step {start window : ℤ} (s : Logins) : Event start window → Logins
  | .reserve key c _ _ =>
    match s.limiter.reserve key c with
    | (l, granted, _) => ⟨l, if granted then s.attempts ++ [⟨key, none, false⟩] else s.attempts⟩
  | .settle i o =>
    match s.attempts[i]? with
    | some a =>
      if a.outcome = none then ⟨settle s.limiter a.key o, settled s.attempts i a o⟩ else s
    | none => s

end Logins

/-- No attempt on any key, in a limiter set to anything. -/
def start (limits : Limits) : Logins := ⟨⟨limits, ∅⟩, []⟩

/-- A refund of an attempt that reserved before its key's last `RecordSuccess` finds no attempt
counted on that key. -/
def RefundsOwn {start window : ℤ} (s : Logins) : Event start window → Prop
  | .settle i .failed => ∀ a, s.attempts[i]? = some a → a.outcome = none → a.cleared = true →
      s.counted a.key = 0
  | _ => True

/-- Every counted attempt is among the failures of its key. -/
def Covered (s : Logins) : Prop := ∀ key, (s.counted key : ℤ) ≤ s.failures key

/-- While no refund takes a failure it did not count, a key has an entry when attempts are counted
on it, with just that many failures. -/
structure Exact (begun : ℤ) (limits : Limits) (s : Logins) : Prop where
  limits_eq : s.limiter.toLimits = limits
  recent : ∀ key e, s.limiter.attempts.lookup key = some e → begun ≤ e.lastAttempt
  entry : ∀ key, (s.limiter.attempts.lookup key = none ∧ s.counted key = 0) ∨
    ∃ e, s.limiter.attempts.lookup key = some e ∧ e.failures = s.counted key ∧
      0 < s.counted key

variable {begun : ℤ} {limits : Limits} {s : Logins}

theorem Exact.failures_eq (h : Exact begun limits s) (key : String) :
    s.failures key = s.counted key := by
  unfold Logins.failures
  rcases h.entry key with ⟨hnone, hcount⟩ | ⟨e, he, hcount, -⟩
  · rw [hnone, hcount]
    rfl
  · rw [he]
    exact hcount

theorem Exact.covered (h : Exact begun limits s) : Covered s :=
  fun key => (h.failures_eq key).ge

theorem exact_start (begun : ℤ) (limits : Limits) : Exact begun limits (start limits) := by
  refine ⟨rfl, fun key e he => ?_, fun key => Or.inl ⟨rfl, rfl⟩⟩
  have hnone : (start limits).limiter.attempts.lookup key = none := rfl
  rw [hnone] at he
  cases he

/-- Inside the window nothing expires. -/
theorem Exact.not_expired (h : Exact begun limits s) {key : String} {e : AttemptState}
    (he : s.limiter.attempts.lookup key = some e) {now : ℤ} (hnow : now ≤ begun + limits.window) :
    ¬ s.limiter.expired now e := by
  have hrecent := h.recent key e he
  unfold Limits.expired
  rw [h.limits_eq]
  omega

theorem counted_append (s : Logins) (l : LoginLimiter) (key k : String) :
    (Logins.mk l (s.attempts ++ [⟨key, none, false⟩])).counted k =
      s.counted k + if k = key then 1 else 0 := by
  unfold Logins.counted
  rw [List.countP_append]
  congr 1
  by_cases hk : k = key
  · subst hk
    simp [Attempt.counts]
  · have hne : key ≠ k := fun h => hk h.symm
    simp [Attempt.counts, hk, hne]

/-- A denied attempt changes nothing, a granted one adds one failure and one counted attempt. -/
theorem Exact.reserve (h : Exact begun limits s) (key : String) (c : ReserveClock)
    (after : begun ≤ c.since) (before : c.block ≤ begun + limits.window) :
    Exact begun limits (s.step (Event.reserve key c after before)) := by
  have hstep : s.step (Event.reserve key c after before) =
      ⟨(s.limiter.reserve key c).1, if (s.limiter.reserve key c).2.1 then
        s.attempts ++ [⟨key, none, false⟩] else s.attempts⟩ := rfl
  have hrenew : c.renew ≤ begun + limits.window := c.renew_le.trans (c.attempt_le.trans before)
  rw [hstep]
  cases hgrant : (s.limiter.reserve key c).2.1 with
  | false =>
    rw [LoginLimiter.reserve_denied hgrant]
    exact h
  | true =>
    rw [if_pos rfl]
    obtain ⟨s₀, hnew, hold⟩ := LoginLimiter.reserve_granted hgrant
    have hothers : ∀ k, k ≠ key → (s.limiter.reserve key c).1.attempts.lookup k =
        s.limiter.attempts.lookup k := by
      intro k hk
      rcases LoginLimiter.lookup_reserve_of_ne (l := s.limiter) hk c with hkeep | ⟨e, he, hexp, -⟩
      · exact hkeep
      · exact absurd hexp (h.not_expired he (c.sweep_le.trans hrenew))
    have hfailures : s₀.failures = s.counted key := by
      rcases hold with ⟨he, -⟩ | ⟨rfl, hgone⟩
      · rcases h.entry key with ⟨hnone, -⟩ | ⟨e, he', hcount, -⟩
        · rw [hnone] at he
          cases he
        · rw [he] at he'
          cases he'
          exact hcount
      · rcases h.entry key with ⟨-, hcount⟩ | ⟨e, he, -, -⟩
        · rw [hcount]
          rfl
        · exact absurd (hgone e he) (h.not_expired he hrenew)
    refine ⟨(LoginLimiter.toLimits_reserve _ _ _).trans h.limits_eq, fun k e he => ?_, fun k => ?_⟩
    · by_cases hk : k = key
      · subst hk
        rw [hnew] at he
        cases he
        rw [Limits.lastAttempt_count]
        exact after.trans (c.since_le.trans
          (c.wait_le.trans (c.sweep_le.trans c.renew_le)))
      · exact h.recent k e ((hothers k hk).symm.trans he)
    · rw [counted_append]
      by_cases hk : k = key
      · subst hk
        refine Or.inr ⟨_, hnew, ?_, by rw [if_pos rfl]; omega⟩
        rw [Limits.failures_count, hfailures, if_pos rfl]
        omega
      · rw [if_neg hk, hothers k hk]
        exact h.entry k

/-- An attempt gets an outcome; the attempts counted on a key change by it alone. -/
theorem countP_set (attempts : List Attempt) {i : ℕ} {a : Attempt} (ha : attempts[i]? = some a)
    (ho : a.outcome = none) (o : Outcome) (k : String) :
    (attempts.set i { a with outcome := some o }).countP (Attempt.counts k) +
        (if o = .failed ∧ a.cleared = false ∧ a.key = k then 1 else 0) =
      attempts.countP (Attempt.counts k) := by
  obtain ⟨hi, rfl⟩ := List.getElem?_eq_some_iff.mp ha
  rw [List.countP_set hi]
  have hle : (if (attempts[i]).counts k then 1 else 0) ≤ attempts.countP (Attempt.counts k) := by
    split
    · rename_i hcounts
      exact List.countP_pos_iff.mpr ⟨_, List.getElem_mem hi, hcounts⟩
    · exact Nat.zero_le _
  unfold Attempt.counts at hle ⊢
  rw [ho] at hle ⊢
  by_cases hk : (attempts[i]).key = k
  · cases hc : (attempts[i]).cleared <;> cases o <;> simp_all
  · simp [hk]

theorem countP_clear (attempts : List Attempt) (key k : String) :
    (attempts.map (Attempt.clear key)).countP (Attempt.counts k) =
      if k = key then 0 else attempts.countP (Attempt.counts k) := by
  rw [List.countP_map]
  by_cases hk : k = key
  · rw [if_pos hk, List.countP_eq_zero]
    intro a _
    simp [Attempt.counts_clear, hk]
  · rw [if_neg hk]
    refine List.countP_congr fun a _ => ?_
    simp [Attempt.counts_clear, hk]

/-- What the outcome of a waiting attempt does. -/
theorem step_settle (s : Logins) {start window : ℤ} {i : ℕ} {a : Attempt} (o : Outcome)
    (ha : s.attempts[i]? = some a) (ho : a.outcome = none) :
    s.step (.settle i o : Event start window) =
      ⟨settle s.limiter a.key o, Logins.settled s.attempts i a o⟩ := by
  simp only [Logins.step, ha, if_pos ho]

/-- An index without a waiting attempt: the step is none. -/
theorem step_settle_self (s : Logins) {start window : ℤ} {i : ℕ} (o : Outcome)
    (h : ∀ a, s.attempts[i]? = some a → a.outcome ≠ none) :
    s.step (.settle i o : Event start window) = s := by
  cases ha : s.attempts[i]? with
  | none => simp only [Logins.step, ha]
  | some a => simp only [Logins.step, ha, if_neg (h a ha)]

theorem Exact.refused (h : Exact begun limits s) {i : ℕ} {a : Attempt}
    (ha : s.attempts[i]? = some a) (ho : a.outcome = none) :
    Exact begun limits ⟨settle s.limiter a.key .refused, Logins.settled s.attempts i a .refused⟩ := by
  have hcounted : ∀ k, (Logins.mk (settle s.limiter a.key .refused)
      (Logins.settled s.attempts i a .refused)).counted k = s.counted k := by
    intro k
    exact countP_set s.attempts ha ho .refused k
  exact ⟨h.limits_eq, h.recent, fun k => by rw [hcounted]; exact h.entry k⟩

theorem Exact.accepted (h : Exact begun limits s) {i : ℕ} {a : Attempt}
    (ha : s.attempts[i]? = some a) (ho : a.outcome = none) :
    Exact begun limits
      ⟨settle s.limiter a.key .accepted, Logins.settled s.attempts i a .accepted⟩ := by
  have hcounted : ∀ k, (Logins.mk (settle s.limiter a.key .accepted)
      (Logins.settled s.attempts i a .accepted)).counted k =
        if k = a.key then 0 else s.counted k := by
    intro k
    have hset : (s.attempts.set i { a with outcome := some .accepted }).countP
        (Attempt.counts k) = s.counted k := countP_set s.attempts ha ho .accepted k
    refine (countP_clear _ a.key k).trans ?_
    rw [hset]
  have hlookup := LoginLimiter.lookup_recordSuccess s.limiter a.key
  refine ⟨h.limits_eq, fun k e he => ?_, fun k => ?_⟩
  · by_cases hk : k = a.key
    · rw [show settle s.limiter a.key .accepted = s.limiter.recordSuccess a.key from rfl,
        hlookup, if_pos hk] at he
      cases he
    · exact h.recent k e (((hlookup k).trans (if_neg hk)).symm.trans he)
  · rw [hcounted]
    by_cases hk : k = a.key
    · exact Or.inl ⟨(hlookup k).trans (if_pos hk), if_pos hk⟩
    · rw [if_neg hk, show (settle s.limiter a.key .accepted).attempts.lookup k =
        s.limiter.attempts.lookup k from (hlookup k).trans (if_neg hk)]
      exact h.entry k

theorem counted_failed (s : Logins) {i : ℕ} {a : Attempt} (ha : s.attempts[i]? = some a)
    (ho : a.outcome = none) (k : String) :
    (Logins.mk (settle s.limiter a.key .failed) (Logins.settled s.attempts i a .failed)).counted k +
      (if a.cleared = false ∧ a.key = k then 1 else 0) = s.counted k := by
  have hset := countP_set s.attempts ha ho .failed k
  simp only [true_and] at hset
  exact hset

/-- A refund that finds its own failure, or none. -/
theorem Exact.failed (h : Exact begun limits s) {i : ℕ} {a : Attempt}
    (ha : s.attempts[i]? = some a) (ho : a.outcome = none)
    (hown : a.cleared = true → s.counted a.key = 0) :
    Exact begun limits ⟨settle s.limiter a.key .failed, Logins.settled s.attempts i a .failed⟩ := by
  have hlookup := LoginLimiter.lookup_refund s.limiter a.key
  refine ⟨(LoginLimiter.toLimits_refund _ _).trans h.limits_eq, fun k e he => ?_, fun k => ?_⟩
  · by_cases hk : k = a.key
    · rw [show settle s.limiter a.key .failed = s.limiter.refund a.key from rfl,
        hlookup, if_pos hk] at he
      obtain ⟨e₀, he₀, hun⟩ := Option.bind_eq_some_iff.mp he
      rw [(Limits.uncount_some hun).2.1]
      exact h.recent a.key e₀ he₀
    · exact h.recent k e (((hlookup k).trans (if_neg hk)).symm.trans he)
  · have hcounted := counted_failed s ha ho k
    by_cases hk : k = a.key
    · subst hk
      have hnow : (settle s.limiter a.key .failed).attempts.lookup a.key =
          (s.limiter.attempts.lookup a.key).bind s.limiter.uncount := (hlookup a.key).trans (if_pos rfl)
      rcases h.entry a.key with ⟨hnone, hzero⟩ | ⟨e, he, hcount, hpos⟩
      · exact Or.inl ⟨by rw [hnow, hnone]; rfl, by omega⟩
      · have hfresh : a.cleared = false := by
          cases hc : a.cleared with
          | false => rfl
          | true => have := hown hc; omega
        rw [if_pos ⟨hfresh, rfl⟩] at hcounted
        cases hun : s.limiter.uncount e with
        | none =>
          have hlast := Limits.uncount_none hun
          exact Or.inl ⟨by rw [hnow, he]; exact hun, by omega⟩
        | some e' =>
          obtain ⟨hless, -, hpos'⟩ := Limits.uncount_some hun
          exact Or.inr ⟨e', by rw [hnow, he]; exact hun, by omega, by omega⟩
    · have hne : ¬ (a.cleared = false ∧ a.key = k) := fun h => hk h.2.symm
      rw [if_neg hne, Nat.add_zero] at hcounted
      rw [hcounted, show (settle s.limiter a.key .failed).attempts.lookup k =
        s.limiter.attempts.lookup k from (hlookup k).trans (if_neg hk)]
      exact h.entry k

theorem Exact.step (h : Exact begun limits s) (e : Event begun limits.window)
    (hok : RefundsOwn s e) : Exact begun limits (s.step e) := by
  cases e with
  | reserve key c after before => exact h.reserve key c after before
  | settle i o =>
    by_cases hwait : ∃ a, s.attempts[i]? = some a ∧ a.outcome = none
    · obtain ⟨a, ha, ho⟩ := hwait
      rw [step_settle s o ha ho]
      cases o with
      | failed => exact h.failed ha ho (hok a ha ho)
      | refused => exact h.refused ha ho
      | accepted => exact h.accepted ha ho
    · rw [step_settle_self s o fun a ha ho => hwait ⟨a, ha, ho⟩]
      exact h

/-- A refund that takes another attempt's failure shows at once. -/
theorem Exact.uncovered (h : Exact begun limits s) (e : Event begun limits.window)
    (hbad : ¬ RefundsOwn s e) : ¬ Covered (s.step e) := by
  cases e with
  | reserve key c after before => exact absurd trivial hbad
  | settle i o =>
    cases o with
    | refused => exact absurd trivial hbad
    | accepted => exact absurd trivial hbad
    | failed =>
      unfold RefundsOwn at hbad
      push Not at hbad
      obtain ⟨a, ha, ho, hcleared, hcount⟩ := hbad
      intro hcovered
      rw [step_settle s .failed ha ho] at hcovered
      have hkey := hcovered a.key
      have hsame := counted_failed s ha ho a.key
      have hstale : ¬ (a.cleared = false ∧ a.key = a.key) := by simp [hcleared]
      rw [if_neg hstale, Nat.add_zero] at hsame
      have hnow : (settle s.limiter a.key .failed).attempts.lookup a.key =
          (s.limiter.attempts.lookup a.key).bind s.limiter.uncount :=
        (LoginLimiter.lookup_refund s.limiter a.key a.key).trans (if_pos rfl)
      rw [hsame] at hkey
      unfold Logins.failures at hkey
      rw [hnow] at hkey
      rcases h.entry a.key with ⟨-, hzero⟩ | ⟨e, he, hfail, hpos⟩
      · exact hcount hzero
      · rw [he, Option.bind_some] at hkey
        cases hun : s.limiter.uncount e with
        | none =>
          rw [hun] at hkey
          simp only [Option.elim_none] at hkey
          omega
        | some e' =>
          have hless := (Limits.uncount_some hun).1
          rw [hun] at hkey
          simp only [Option.elim_some] at hkey
          omega

/-- In a run inside one window the limiter counts every attempt it should just when every refund of
an attempt that reserved before its key's last `RecordSuccess` finds no attempt counted there. -/
theorem covered_iff_refundsOwn (begun : ℤ) (limits : Limits)
    (run : List (Event begun limits.window)) :
    (∀ s ∈ trail Logins.step (start limits) run, Covered s) ↔
      Guarded Logins.step RefundsOwn (start limits) run :=
  (guarded_iff_forall_trail (fun _ e h hok => h.step e hok) (fun _ h => h.covered)
    (fun _ e h hbad => h.uncovered e hbad) (exact_start begun limits) run).symm

/-- Two attempts reserve, the first succeeds, a third reserves, and the second is refunded: the third
one's failure is gone. -/
theorem refund_after_success_uncovers :
    ∃ run : List (Event 0 newLoginLimiter.window),
      ¬ Covered (run.foldl Logins.step (start newLoginLimiter.toLimits)) := by
  refine ⟨[.reserve "192.0.2.7" (.at 0) (by decide) (by decide),
    .reserve "192.0.2.7" (.at 0) (by decide) (by decide), .settle 0 .accepted,
    .reserve "192.0.2.7" (.at 1) (by decide) (by decide), .settle 1 .failed], fun h => ?_⟩
  exact absurd (h "192.0.2.7") (by decide)

end VyosClient.LoginAccounting
