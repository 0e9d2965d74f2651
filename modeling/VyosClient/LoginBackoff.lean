import VyosClient.RateLimit
import Mathlib.Data.List.Chain
import Mathlib.Tactic.Ring
import Mathlib.Tactic.NormNum

/-!
The backoff of the login limiter over whole runs. A run is any sequence of
calls on any keys whose clock readings never go back. The grants of a key are
listed at the instants the limiter stores as its last attempt; the entry knows
their number and blocks the next one, unless the window has passed since.
-/

namespace VyosClient.LoginBackoff

open RateLimit LoginLimiter

/-- A call on the limiter, with the readings it takes of the clock. -/
inductive Call
  | reserve (key : String) (c : ReserveClock)
  | allow (key : String) (c : AllowClock)
  | refund (key : String)
  | recordSuccess (key : String)

namespace Call

/-- The clock has not gone back before the call. -/
def After (now : ℤ) : Call → Prop
  | reserve _ c => now ≤ c.since
  | allow _ c => now ≤ c.since
  | refund _ => True
  | recordSuccess _ => True

/-- The clock after the call. -/
def done (now : ℤ) : Call → ℤ
  | reserve _ c => c.block
  | allow _ c => c.wait
  | refund _ => now
  | recordSuccess _ => now

/-- The call takes no failure from the key. -/
def Keeps (key : String) : Call → Prop
  | reserve _ _ => True
  | allow _ _ => True
  | refund k => k ≠ key
  | recordSuccess k => k ≠ key

/-- The instant at which the call grants an attempt on the key. -/
def grant (l : LoginLimiter) (key : String) : Call → Option ℤ
  | reserve k c => if k = key ∧ (l.reserve k c).2.1 = true then some c.attempt else none
  | _ => none

end Call

def step (l : LoginLimiter) : Call → LoginLimiter
  | .reserve key c => (l.reserve key c).1
  | .allow key c => (l.allow key c).1
  | .refund key => l.refund key
  | .recordSuccess key => l.recordSuccess key

/-- The readings of a run never go back. -/
def Nondecreasing : ℤ → List Call → Prop
  | _, [] => True
  | now, e :: es => e.After now ∧ Nondecreasing (e.done now) es

/-- The instants of the granted attempts on a key, oldest first. -/
def grants (key : String) : LoginLimiter → List Call → List ℤ
  | _, [] => []
  | l, e :: es => (e.grant l key).toList ++ grants key (step l e) es

/-- The delay after the `i`-th grant: the base delay doubled for each grant beyond the free ones, up
to the maximum. -/
def leastDelay (l : Limits) (i : ℤ) : ℤ :=
  min (l.baseDelay * 2 ^ (i - l.maxAttempts).toNat) l.maxDelay

/-- From the `MaxAttempts`-th grant on, the next one keeps its distance. -/
def Spaced (l : Limits) (instants : List ℤ) : Prop :=
  ∀ (i : ℕ) (a b : ℤ), l.maxAttempts ≤ i → instants[i - 1]? = some a → instants[i]? = some b →
    leastDelay l i ≤ b - a

/-- Up to 33 doublings the shift is exact. -/
theorem shl_of_le {k : ℕ} (hk : k ≤ 33) :
    Limits.shl newLoginLimiter.baseDelay k = newLoginLimiter.baseDelay * 2 ^ k := by
  have hle : (2 : ℤ) ^ k ≤ 2 ^ 33 := pow_le_pow_right₀ (by norm_num) hk
  have hpos : (0 : ℤ) < 2 ^ k := by positivity
  have hbase : newLoginLimiter.baseDelay = 1000000000 := rfl
  norm_num at hle
  unfold Limits.shl
  rw [Int.shiftLeft_eq, hbase]
  apply Int.bmod_eq_of_le
  · push_cast
    omega
  · push_cast
    omega

/-- From 34 doublings on the word holds zero, a negative number or one beyond the maximum. -/
theorem shl_of_ge {k : ℕ} (hk : 34 ≤ k) :
    Limits.shl newLoginLimiter.baseDelay k ≤ 0 ∨
      newLoginLimiter.maxDelay < Limits.shl newLoginLimiter.baseDelay k := by
  have hbase : newLoginLimiter.baseDelay = 1000000000 := rfl
  have hmax : newLoginLimiter.maxDelay = 300000000000 := rfl
  have hdvd : (8796093022208 : ℤ) ∣ newLoginLimiter.baseDelay <<< k := by
    obtain ⟨j, rfl⟩ := Nat.exists_eq_add_of_le hk
    refine ⟨1953125 * 2 ^ j, ?_⟩
    rw [Int.shiftLeft_eq, hbase, pow_add]
    norm_num
    ring
  have hword : (8796093022208 : ℤ) ∣
      newLoginLimiter.baseDelay <<< k - Limits.shl newLoginLimiter.baseDelay k :=
    Dvd.dvd.trans (by norm_num) Int.dvd_self_sub_bmod
  have hshl : (8796093022208 : ℤ) ∣ Limits.shl newLoginLimiter.baseDelay k :=
    (Int.dvd_iff_dvd_of_dvd_sub hword).mp hdvd
  rw [hmax]
  obtain ⟨m, hm⟩ := hshl
  omega

theorem leastDelay_le_backoff {f : ℤ} :
    leastDelay newLoginLimiter.toLimits f ≤ newLoginLimiter.backoff f := by
  unfold leastDelay Limits.backoff
  rcases Nat.lt_or_ge (f - newLoginLimiter.maxAttempts).toNat 34 with hk | hk
  · rw [shl_of_le (by omega)]
    dsimp only
    split
    · exact min_le_right _ _
    · exact min_le_left _ _
  · rw [if_pos ((shl_of_ge hk).symm)]
    exact min_le_right _ _

/-- What the limiter knows of the grants of a key: their number, the last one, and how long it blocks
the next, or nothing once the window has passed since the last one. -/
structure Held (key : String) (instants : List ℤ) (now : ℤ) (l : LoginLimiter) : Prop where
  limits : l.toLimits = newLoginLimiter.toLimits
  past : ∀ a ∈ instants.getLast?, a ≤ now
  none_of_nil : instants = [] → l.attempts.lookup key = none
  entry : ∀ a ∈ instants.getLast?, now - a > newLoginLimiter.window ∨
    ∃ e, l.attempts.lookup key = some e ∧ e.failures = instants.length ∧ e.lastAttempt = a ∧
      (newLoginLimiter.maxAttempts ≤ instants.length →
        a + leastDelay newLoginLimiter.toLimits instants.length ≤ e.blockedTill)

variable {key : String} {instants : List ℤ} {now : ℤ} {l : LoginLimiter}

theorem held_newLoginLimiter (key : String) (now : ℤ) : Held key [] now newLoginLimiter :=
  ⟨rfl, fun _ h => (nomatch h), fun _ => rfl, fun _ h => (nomatch h)⟩

/-- Time passes, other keys change, and entries that have expired go. -/
theorem Held.pass (h : Held key instants now l) {m : LoginLimiter} {t now' : ℤ}
    (hlimits : m.toLimits = l.toLimits) (ht : t ≤ now') (hnow : now ≤ now')
    (hlookup : m.attempts.lookup key = l.attempts.lookup key ∨
      ∃ e, l.attempts.lookup key = some e ∧ l.expired t e ∧ m.attempts.lookup key = none) :
    Held key instants now' m := by
  refine ⟨hlimits.trans h.limits, fun a ha => (h.past a ha).trans hnow, fun hnil => ?_,
    fun a ha => ?_⟩
  · rcases hlookup with hkeep | ⟨e, -, -, hgone⟩
    · exact hkeep.trans (h.none_of_nil hnil)
    · exact hgone
  · rcases h.entry a ha with hlost | ⟨e, he, hlen, hlast, hblock⟩
    · exact Or.inl (by omega)
    · rcases hlookup with hkeep | ⟨e', he', hexp, -⟩
      · exact Or.inr ⟨e, hkeep.trans he, hlen, hlast, hblock⟩
      · rw [he] at he'
        cases he'
        unfold Limits.expired at hexp
        rw [h.limits, hlast] at hexp
        exact Or.inl (by omega)

/-- The entry in which a granted call counts has one failure for each grant and no longer blocks. -/
theorem Held.found (h : Held key instants now l) {c : ReserveClock} (hclock : now ≤ c.since)
    {e : AttemptState}
    (hold : (l.attempts.lookup key = some e ∧ e.blockedTill ≤ c.wait) ∨
      (e = {} ∧ ∀ s, l.attempts.lookup key = some s → l.expired c.renew s))
    (hnear : ∀ a ∈ instants.getLast?, c.attempt - a ≤ newLoginLimiter.window) :
    e.failures = instants.length ∧ ∀ a ∈ instants.getLast?,
      newLoginLimiter.maxAttempts ≤ instants.length →
        a + leastDelay newLoginLimiter.toLimits instants.length ≤ c.wait := by
  cases hlast : instants.getLast? with
  | none =>
    obtain rfl : instants = [] := List.getLast?_eq_none_iff.mp hlast
    refine ⟨?_, fun a ha => (nomatch ha)⟩
    rcases hold with ⟨he, -⟩ | ⟨rfl, -⟩
    · rw [h.none_of_nil rfl] at he
      cases he
    · rfl
  | some a =>
    have hfar := hnear a hlast
    have horder := c.wait_le.trans (c.sweep_le.trans c.renew_le)
    rcases h.entry a hlast with hlost | ⟨e', he', hlen, hlast', hblock⟩
    · have := c.since_le
      omega
    · rcases hold with ⟨he, hpass⟩ | ⟨-, hgone⟩
      · rw [he] at he'
        cases he'
        refine ⟨hlen, fun a' ha' hmax => ?_⟩
        cases ha'
        exact (hblock hmax).trans hpass
      · have hexp := hgone e' he'
        unfold Limits.expired at hexp
        rw [h.limits, hlast'] at hexp
        have := c.renew_le
        omega

/-- A granted call counts one more grant, not before the entry stopped blocking. -/
theorem Held.grant (h : Held key instants now l) {c : ReserveClock} (hclock : now ≤ c.since)
    (hgrant : (l.reserve key c).2.1 = true)
    (hnear : ∀ a ∈ instants.getLast?, c.attempt - a ≤ newLoginLimiter.window) :
    Held key (instants ++ [c.attempt]) c.block (l.reserve key c).1 ∧
      ∀ a ∈ instants.getLast?, newLoginLimiter.maxAttempts ≤ instants.length →
        leastDelay newLoginLimiter.toLimits instants.length ≤ c.attempt - a := by
  obtain ⟨e, hnew, hold⟩ := LoginLimiter.reserve_granted hgrant
  obtain ⟨hfailures, hpassed⟩ := h.found hclock hold hnear
  refine ⟨⟨(LoginLimiter.toLimits_reserve l key c).trans h.limits, fun a ha => ?_, fun hnil => ?_,
    fun a ha => ?_⟩, fun a ha hmax => ?_⟩
  · rw [List.getLast?_concat] at ha
    cases ha
    exact c.attempt_le
  · exact absurd hnil (by simp)
  · rw [List.getLast?_concat] at ha
    cases ha
    refine Or.inr ⟨_, hnew, ?_, Limits.lastAttempt_count _ _, fun hmax => ?_⟩
    · rw [Limits.failures_count, hfailures, List.length_append]
      rfl
    · have hmax' : l.maxAttempts ≤ e.failures + 1 := by
        rw [h.limits, hfailures]
        simpa only [List.length_append, List.length_singleton, Nat.cast_add, Nat.cast_one]
          using hmax
      have hdelay := leastDelay_le_backoff (f := e.failures + 1)
      rw [Limits.blockedTill_count hmax', h.limits, hfailures, List.length_append,
        List.length_singleton, Nat.cast_add, Nat.cast_one]
      rw [hfailures] at hdelay
      have := c.attempt_le
      omega
  · have hwait := hpassed a ha hmax
    have horder := c.wait_le.trans (c.sweep_le.trans c.renew_le)
    omega

/-- Each call keeps what is held, with its grant added to the list; a grant keeps its distance. -/
theorem Held.step (h : Held key instants now l) {e : Call} (hclock : e.After now)
    (hkeeps : e.Keeps key)
    (hnear : ∀ a ∈ instants.getLast?, ∀ b ∈ e.grant l key, b - a ≤ newLoginLimiter.window) :
    Held key (instants ++ (e.grant l key).toList) (e.done now) (LoginBackoff.step l e) ∧
      ∀ a ∈ instants.getLast?, ∀ b ∈ e.grant l key,
        newLoginLimiter.maxAttempts ≤ instants.length →
          leastDelay newLoginLimiter.toLimits instants.length ≤ b - a := by
  have hquiet : ∀ {m : LoginLimiter}, e.grant l key = none → Held key instants (e.done now) m →
      Held key (instants ++ (e.grant l key).toList) (e.done now) m ∧
        ∀ a ∈ instants.getLast?, ∀ b ∈ e.grant l key,
          newLoginLimiter.maxAttempts ≤ instants.length →
            leastDelay newLoginLimiter.toLimits instants.length ≤ b - a := by
    intro m hnone hm
    rw [hnone]
    exact ⟨by simpa only [Option.toList_none, List.append_nil] using hm, fun _ _ _ hb => (nomatch hb)⟩
  cases e with
  | reserve k c =>
    have hblock : c.since ≤ c.block := c.since_le.trans (c.wait_le.trans
      (c.sweep_le.trans (c.renew_le.trans c.attempt_le)))
    have hsweep : c.sweep ≤ c.block := c.sweep_le.trans (c.renew_le.trans c.attempt_le)
    by_cases hk : k = key
    · subst hk
      cases hgrant : (l.reserve k c).2.1 with
      | false =>
        refine hquiet (if_neg fun hand => ?_) ?_
        · rw [hgrant] at hand
          exact nomatch hand.2
        · exact h.pass (congrArg _ (LoginLimiter.reserve_denied hgrant)) le_rfl
            (hclock.trans hblock)
            (Or.inl (by rw [LoginBackoff.step, LoginLimiter.reserve_denied hgrant]))
      | true =>
        have hsome : (Call.reserve k c).grant l k = some c.attempt := if_pos ⟨rfl, hgrant⟩
        rw [hsome] at hnear ⊢
        obtain ⟨hheld, hspace⟩ := h.grant hclock hgrant fun a ha => hnear a ha _ rfl
        refine ⟨hheld, fun a ha b hb hmax => ?_⟩
        cases hb
        exact hspace a ha hmax
    · refine hquiet (if_neg fun hand => hk hand.1) ?_
      exact h.pass (LoginLimiter.toLimits_reserve l k c) hsweep (hclock.trans hblock)
        (LoginLimiter.lookup_reserve_of_ne (fun hkk => hk hkk.symm) c)
  | allow k c =>
    have hfade := LoginLimiter.faded_allow l k c
    exact hquiet rfl (h.pass hfade.limits c.since_le (hclock.trans c.since_le) (hfade.lookup key))
  | refund k =>
    refine hquiet rfl (h.pass (LoginLimiter.toLimits_refund l k) le_rfl le_rfl (Or.inl ?_))
    exact (LoginLimiter.lookup_refund l k key).trans (if_neg fun hkk => hkeeps hkk.symm)
  | recordSuccess k =>
    refine hquiet rfl (h.pass rfl le_rfl le_rfl (Or.inl ?_))
    exact (LoginLimiter.lookup_recordSuccess l k key).trans (if_neg fun hkk => hkeeps hkk.symm)

theorem spaced_append {l : Limits} (hmax : 0 < l.maxAttempts) (h : Spaced l instants) {b : ℤ}
    (hlast : ∀ a ∈ instants.getLast?, l.maxAttempts ≤ instants.length →
      leastDelay l instants.length ≤ b - a) : Spaced l (instants ++ [b]) := by
  intro i x y hi hx hy
  rcases Nat.lt_trichotomy i instants.length with hlt | heq | hgt
  · rw [List.getElem?_append_left (by omega)] at hx
    rw [List.getElem?_append_left hlt] at hy
    exact h i x y hi hx hy
  · subst heq
    rw [List.getElem?_concat_length] at hy
    cases hy
    rw [List.getElem?_append_left (by omega), ← List.getLast?_eq_getElem?] at hx
    exact hlast x hx hi
  · rw [List.getElem?_eq_none (by simp only [List.length_append, List.length_singleton]; omega)]
      at hy
    cases hy

theorem Held.run {run : List Call} (h : Held key instants now l)
    (hspaced : Spaced newLoginLimiter.toLimits instants) (hclock : Nondecreasing now run) (hkeeps : ∀ e ∈ run, e.Keeps key)
    (hnear : (instants ++ grants key l run).IsChain
      fun a b => b - a ≤ newLoginLimiter.window) :
    Spaced newLoginLimiter.toLimits (instants ++ grants key l run) := by
  induction run generalizing instants now l with
  | nil => simpa only [grants, List.append_nil] using hspaced
  | cons e es ih =>
    obtain ⟨hafter, hclock⟩ := hclock
    have hgrants : instants ++ grants key l (e :: es) =
        (instants ++ (e.grant l key).toList) ++ grants key (LoginBackoff.step l e) es := by
      rw [grants, List.append_assoc]
    rw [hgrants] at hnear ⊢
    have hfirst : ∀ a ∈ instants.getLast?, ∀ b ∈ e.grant l key,
        b - a ≤ newLoginLimiter.window := by
      intro a ha b hb
      have hchain := hnear.left_of_append
      rw [Option.mem_def.mp hb] at hchain
      exact (List.isChain_append.mp hchain).2.2 a ha b rfl
    obtain ⟨hheld, hspace⟩ := h.step hafter (hkeeps e List.mem_cons_self) hfirst
    refine ih hheld ?_ hclock (fun e' he' => hkeeps e' (List.mem_cons_of_mem e he')) hnear
    cases hgrant : e.grant l key with
    | none => simpa only [Option.toList_none, List.append_nil] using hspaced
    | some b => exact spaced_append (by decide) hspaced fun a ha hmax => hspace a ha b hgrant hmax

/-- In every run of a new limiter whose clock never goes back, the grants of a key that is neither
refunded nor cleared, and never quiet for longer than the window, keep the doubled distance from the
`MaxAttempts`-th on; a denied `Reserve` leaves every limiter as it is. -/
theorem grants_spaced (key : String) :
    (∀ (now : ℤ) (run : List Call), Nondecreasing now run → (∀ e ∈ run, e.Keeps key) →
      (grants key newLoginLimiter run).IsChain (fun a b => b - a ≤ newLoginLimiter.window) →
      Spaced newLoginLimiter.toLimits (grants key newLoginLimiter run)) ∧
    ∀ (l : LoginLimiter) (c : ReserveClock), (l.reserve key c).2.1 = false →
      (l.reserve key c).1 = l := by
  refine ⟨fun now run hclock hkeeps hnear => ?_, fun l c h => LoginLimiter.reserve_denied h⟩
  have hempty : Spaced newLoginLimiter.toLimits [] := fun i a b _ ha => by cases ha
  exact (held_newLoginLimiter key now).run hempty hclock hkeeps hnear

/-- A run on one key: five free attempts, one refused, two granted when the delay is over. -/
def sevenGrants : List Call :=
  [.reserve "192.0.2.7" (.at 0), .reserve "192.0.2.7" (.at 0), .reserve "192.0.2.7" (.at 0),
    .reserve "192.0.2.7" (.at 0), .reserve "192.0.2.7" (.at 0), .reserve "192.0.2.7" (.at 5),
    .reserve "192.0.2.7" (.at 1000000000), .reserve "192.0.2.7" (.at 3000000000)]

theorem grants_sevenGrants :
    grants "192.0.2.7" newLoginLimiter sevenGrants = [0, 0, 0, 0, 0, 1000000000, 3000000000] := by
  decide

theorem sevenGrants_spaced :
    Spaced newLoginLimiter.toLimits [0, 0, 0, 0, 0, 1000000000, 3000000000] ∧
      (((sevenGrants.take 5).foldl step newLoginLimiter).reserve "192.0.2.7" (.at 5)).1 =
        (sevenGrants.take 5).foldl step newLoginLimiter := by
  have hclock : Nondecreasing 0 sevenGrants := by
    simp [Nondecreasing, sevenGrants, Call.After, Call.done, ReserveClock.at]
  have hkeeps : ∀ e ∈ sevenGrants, e.Keeps "192.0.2.7" := by
    simp [sevenGrants, Call.Keeps]
  have hnear : (grants "192.0.2.7" newLoginLimiter sevenGrants).IsChain
      (fun a b => b - a ≤ newLoginLimiter.window) := by
    rw [grants_sevenGrants]
    decide
  refine ⟨?_, (grants_spaced "192.0.2.7").2 _ (.at 5) (by decide)⟩
  rw [← grants_sevenGrants]
  exact (grants_spaced "192.0.2.7").1 0 sevenGrants hclock hkeeps hnear

end VyosClient.LoginBackoff
