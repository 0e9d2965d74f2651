import VyosClient.Tables
import Mathlib.Algebra.Order.Ring.Int
import Mathlib.Tactic.Common

/-!
The request limiter of the backend: a flat cap on the requests of a key within
a rolling window. Each key has the times of its granted requests, trimmed in
place when the key is looked at and in sweeps over all keys. The trimmed times
answer every later request as the full history of the key would. Instants and the
window are integers, in nanoseconds.
-/

namespace VyosClient.RollingWindow

open Tables

/-- The loop of `filterAfter`. The kept times are written to the front of the array the loop still
reads: `read` is the next index to look at, `write` the number of times kept. -/
def filterAfterLoop (cutoff : ℤ) : ℕ → List ℤ → ℕ → ℕ → List ℤ
  | 0, times, _, write => times.take write
  | n + 1, times, read, write =>
    match times[read]? with
    | none => times.take write
    | some t =>
      if t > cutoff then filterAfterLoop cutoff n (times.set write t) (read + 1) (write + 1)
      else filterAfterLoop cutoff n times (read + 1) write

def filterAfter (times : List ℤ) (cutoff : ℤ) : List ℤ :=
  filterAfterLoop cutoff times.length times 0 0

structure RequestLimiter where
  hits : Table String (List ℤ)
  max : ℤ
  window : ℤ
  maxTrackedKeys : ℤ

/-- What a sweep leaves of a key: nothing when no hit is after the cutoff. -/
def trimmed (cutoff : ℤ) (times : List ℤ) : Option (List ℤ) :=
  let kept := filterAfter times cutoff
  if kept.length = 0 then none else some kept

namespace RequestLimiter

variable (l : RequestLimiter)

def evictExpired (cutoff : ℤ) : RequestLimiter :=
  { l with hits := sweep (trimmed cutoff) l.hits }

def makeRoom (cutoff : ℤ) : RequestLimiter :=
  if (size l.hits : ℤ) ≥ l.maxTrackedKeys then l.evictExpired cutoff else l

/-- `l.hits[key]`: nil for a key that is not there. -/
def times (key : String) : List ℤ := (l.hits.lookup key).getD []

def allow (key : String) (now : ℤ) : RequestLimiter × Bool :=
  let cutoff := now - l.window
  let l := l.makeRoom cutoff
  let kept := filterAfter (l.times key) cutoff
  if (kept.length : ℤ) ≥ l.max then ({ l with hits := l.hits.insert key kept }, false)
  else ({ l with hits := l.hits.insert key (kept ++ [now]) }, true)

end RequestLimiter

/-- The loop never writes past the index it reads: what is left to read is what was there before. -/
theorem filterAfterLoop_eq (cutoff : ℤ) (orig : List ℤ) (n : ℕ) {times : List ℤ} {read write : ℕ}
    (hlen : times.length = orig.length) (hn : read + n = orig.length) (hwrite : write ≤ read)
    (hkept : times.take write = (orig.take read).filter (cutoff < ·))
    (hrest : times.drop read = orig.drop read) :
    filterAfterLoop cutoff n times read write = orig.filter (cutoff < ·) := by
  induction n generalizing times read write with
  | zero =>
    have hread : read = orig.length := by omega
    rw [filterAfterLoop, hkept, hread, List.take_length]
  | succ n ih =>
    have hlt : read < orig.length := by omega
    have hget : times[read]? = some orig[read] := by
      have hhead : (times.drop read)[0]? = (orig.drop read)[0]? := by rw [hrest]
      rw [List.getElem?_drop, List.getElem?_drop, Nat.add_zero,
        List.getElem?_eq_getElem hlt] at hhead
      exact hhead
    have htake : (orig.take (read + 1)).filter (cutoff < ·) =
        (orig.take read).filter (cutoff < ·) ++ [orig[read]].filter (cutoff < ·) := by
      rw [List.take_add_one, List.getElem?_eq_getElem hlt, Option.toList_some, List.filter_append]
    have hdrop : times.drop (read + 1) = orig.drop (read + 1) := by
      rw [← List.drop_drop, ← List.drop_drop, hrest]
    rw [filterAfterLoop, hget]
    dsimp only
    by_cases hafter : orig[read] > cutoff
    · rw [if_pos hafter]
      refine ih (by rw [List.length_set]; exact hlen) (by omega) (by omega) ?_ ?_
      · rw [List.take_add_one, List.take_set_of_le le_rfl, List.getElem?_set_self (by omega),
          Option.toList_some, htake, hkept]
        simp [hafter]
      · rw [List.drop_set_of_lt (by omega)]
        exact hdrop
    · rw [if_neg hafter]
      refine ih hlen (by omega) (by omega) ?_ hdrop
      rw [htake, hkept, List.filter_singleton]
      simp [hafter]

theorem filterAfter_eq (times : List ℤ) (cutoff : ℤ) :
    filterAfter times cutoff = times.filter (cutoff < ·) :=
  filterAfterLoop_eq cutoff times times.length rfl (Nat.zero_add _) le_rfl rfl rfl

theorem filter_filter_of_le {c d : ℤ} (h : c ≤ d) (ts : List ℤ) :
    (ts.filter (c < ·)).filter (d < ·) = ts.filter (d < ·) := by
  rw [List.filter_filter]
  refine List.filter_congr fun u _ => ?_
  by_cases hu : d < u
  · simp [hu, h.trans_lt hu]
  · simp [hu]

namespace RequestLimiter

variable {l : RequestLimiter}

/-- A sweep trims the times of every key. -/
theorem times_makeRoom (l : RequestLimiter) (cutoff : ℤ) (key : String) :
    (l.makeRoom cutoff).times key = l.times key ∨
      (l.makeRoom cutoff).times key = (l.times key).filter (cutoff < ·) := by
  unfold makeRoom
  by_cases hfull : (size l.hits : ℤ) ≥ l.maxTrackedKeys
  · rw [if_pos hfull]
    have hsweep : (l.evictExpired cutoff).hits.lookup key =
        (l.hits.lookup key).bind (trimmed cutoff) := lookup_sweep _ l.hits key
    refine Or.inr ?_
    unfold times
    rw [hsweep]
    cases hs : l.hits.lookup key with
    | none => rfl
    | some ts =>
      rw [Option.bind_some, Option.getD_some, trimmed, filterAfter_eq]
      by_cases hnone : (ts.filter (cutoff < ·)).length = 0
      · rw [if_pos hnone, List.eq_nil_of_length_eq_zero hnone]
        rfl
      · rw [if_neg hnone]
        rfl
  · rw [if_neg hfull]
    exact Or.inl rfl

theorem window_makeRoom (l : RequestLimiter) (cutoff : ℤ) :
    (l.makeRoom cutoff).window = l.window ∧ (l.makeRoom cutoff).max = l.max := by
  unfold makeRoom
  split <;> exact ⟨rfl, rfl⟩

theorem filter_makeRoom (l : RequestLimiter) {cutoff later : ℤ} (hle : cutoff ≤ later)
    (key : String) :
    ((l.makeRoom cutoff).times key).filter (later < ·) = (l.times key).filter (later < ·) := by
  rcases times_makeRoom l cutoff key with h | h
  · rw [h]
  · rw [h, filter_filter_of_le hle]

/-- The hits of a key after the cutoff of a request at an instant. -/
def live (l : RequestLimiter) (key : String) (now : ℤ) : List ℤ :=
  (l.times key).filter (now - l.window < ·)

theorem filterAfter_times (l : RequestLimiter) (key : String) (now : ℤ) :
    filterAfter ((l.makeRoom (now - l.window)).times key) (now - l.window) = l.live key now := by
  rw [filterAfter_eq]
  exact filter_makeRoom l le_rfl key

theorem allow_denied {key : String} {now : ℤ} (h : l.max ≤ (l.live key now).length) :
    (l.allow key now).2 = false ∧ (l.allow key now).1.times key = l.live key now := by
  unfold allow
  dsimp only
  rw [if_pos (by rw [filterAfter_times, (window_makeRoom l _).2]; exact h), filterAfter_times]
  refine ⟨rfl, ?_⟩
  unfold times
  rw [AList.lookup_insert]
  rfl

theorem allow_granted {key : String} {now : ℤ} (h : (l.live key now).length < l.max) :
    (l.allow key now).2 = true ∧ (l.allow key now).1.times key = l.live key now ++ [now] := by
  unfold allow
  dsimp only
  rw [if_neg (by rw [filterAfter_times, (window_makeRoom l _).2]; exact not_le.mpr h),
    filterAfter_times]
  refine ⟨rfl, ?_⟩
  unfold times
  rw [AList.lookup_insert]
  rfl

/-- A request is granted when fewer than `Max` hits of its key are after the cutoff. -/
theorem allow_iff (l : RequestLimiter) (key : String) (now : ℤ) :
    (l.allow key now).2 = true ↔ (l.live key now).length < l.max := by
  rcases lt_or_ge ((l.live key now).length : ℤ) l.max with h | h
  · exact iff_of_true (allow_granted h).1 h
  · rw [(allow_denied h).1]
    exact iff_of_false Bool.false_ne_true (not_lt.mpr h)

theorem allow_other (l : RequestLimiter) {key k : String} (hk : k ≠ key) (now : ℤ) :
    (l.allow key now).1.times k = (l.makeRoom (now - l.window)).times k := by
  unfold allow
  dsimp only
  split
  · exact congrArg (Option.getD · []) (AList.lookup_insert_ne hk)
  · exact congrArg (Option.getD · []) (AList.lookup_insert_ne hk)

theorem settings_allow (l : RequestLimiter) (key : String) (now : ℤ) :
    (l.allow key now).1.window = l.window ∧ (l.allow key now).1.max = l.max := by
  unfold allow
  dsimp only
  split
  · exact window_makeRoom l _
  · exact window_makeRoom l _

end RequestLimiter

open RequestLimiter

/-- A call of `Allow` and the reading it takes of the clock. -/
structure Call where
  key : String
  now : ℤ

def step (l : RequestLimiter) (c : Call) : RequestLimiter := (l.allow c.key c.now).1

/-- The limiter before its first call. -/
def start (max window maxTrackedKeys : ℤ) : RequestLimiter := ⟨∅, max, window, maxTrackedKeys⟩

/-- The instants of the granted calls on a key, oldest first. -/
def granted (key : String) : RequestLimiter → List Call → List ℤ
  | _, [] => []
  | l, c :: cs =>
    (if c.key = key ∧ (l.allow c.key c.now).2 = true then [c.now] else []) ++
      granted key (step l c) cs

/-- The readings of a run never go back. -/
def Nondecreasing : ℤ → List Call → Prop
  | _, [] => True
  | now, c :: cs => now ≤ c.now ∧ Nondecreasing c.now cs

/-- For every later instant the stored times of a key and its history agree on the window. -/
def Agrees (key : String) (history : List ℤ) (now : ℤ) (l : RequestLimiter) : Prop :=
  ∀ t, now ≤ t → l.live key t = history.filter (t - l.window < ·)

theorem Agrees.step {key : String} {history : List ℤ} {now : ℤ} {l : RequestLimiter}
    (h : Agrees key history now l) {c : Call} (hclock : now ≤ c.now) :
    Agrees key (history ++ if c.key = key ∧ (l.allow c.key c.now).2 = true then [c.now] else [])
      c.now (step l c) := by
  intro t ht
  have hwindow : (RollingWindow.step l c).window = l.window := (settings_allow l c.key c.now).1
  have hcut : c.now - l.window ≤ t - l.window := by omega
  unfold live
  rw [hwindow]
  by_cases hk : c.key = key
  · subst hk
    have hlive : (l.live c.key c.now).filter (t - l.window < ·) =
        history.filter (t - l.window < ·) :=
      (filter_filter_of_le hcut _).trans (h t (hclock.trans ht))
    rcases lt_or_ge ((l.live c.key c.now).length : ℤ) l.max with hlt | hge
    · obtain ⟨hgrant, htimes⟩ := allow_granted hlt
      rw [if_pos ⟨rfl, hgrant⟩, show (RollingWindow.step l c).times c.key = _ from htimes,
        List.filter_append, hlive, List.filter_append]
    · obtain ⟨hdeny, htimes⟩ := allow_denied hge
      rw [if_neg (by simp [hdeny]), show (RollingWindow.step l c).times c.key = _ from htimes,
        hlive, List.append_nil]
  · rw [if_neg (fun hand => hk hand.1), List.append_nil,
      show (RollingWindow.step l c).times key = _ from allow_other l (fun hkk => hk hkk.symm) c.now,
      filter_makeRoom l hcut key]
    exact h t (hclock.trans ht)

/-- What a call finds after a run: the full history of its key, as far as the window reaches. -/
theorem Agrees.run {key : String} {history : List ℤ} {now : ℤ} {l : RequestLimiter}
    (h : Agrees key history now l) {calls : List Call} {c : Call}
    (hclock : Nondecreasing now (calls ++ [c])) :
    (calls.foldl RollingWindow.step l).live key c.now =
      (history ++ granted key l calls).filter (c.now - l.window < ·) := by
  induction calls generalizing history now l with
  | nil =>
    rw [granted, List.append_nil]
    exact h c.now hclock.1
  | cons c' cs ih =>
    have hwindow : (RollingWindow.step l c').window = l.window := (settings_allow l c'.key c'.now).1
    rw [List.foldl_cons, ih (h.step hclock.1) hclock.2, hwindow, granted, List.append_assoc]

theorem max_foldl_step (l : RequestLimiter) (calls : List Call) :
    (calls.foldl step l).max = l.max := by
  induction calls generalizing l with
  | nil => rfl
  | cons c cs ih =>
    rw [List.foldl_cons, ih]
    exact (settings_allow l c.key c.now).2

theorem agrees_start (key : String) (now max window maxTrackedKeys : ℤ) :
    Agrees key [] now (start max window maxTrackedKeys) := fun _ _ => rfl

/-- A plain counter over the full history of one key: a call at `t` is granted, and joins the
history, when fewer than `max` granted calls lie strictly after `t - window`. -/
def slidingWindow (max window : ℤ) : List ℤ → List ℤ → List ℤ
  | history, [] => history
  | history, t :: ts =>
    slidingWindow max window
      (if (history.countP (t - window < ·) : ℤ) < max then history ++ [t] else history) ts

/-- The instants of the calls on a key. -/
def instants (key : String) (calls : List Call) : List ℤ :=
  (calls.filter (·.key = key)).map Call.now

theorem Agrees.granted_eq {key : String} {history : List ℤ} {now : ℤ} {l : RequestLimiter}
    (h : Agrees key history now l) {calls : List Call} (hclock : Nondecreasing now calls) :
    history ++ granted key l calls = slidingWindow l.max l.window history (instants key calls) := by
  induction calls generalizing history now l with
  | nil => exact List.append_nil history
  | cons c cs ih =>
    obtain ⟨hwindow, hmax⟩ := settings_allow l c.key c.now
    have hrest := ih (h.step hclock.1) hclock.2
    rw [show (RollingWindow.step l c).max = l.max from hmax,
      show (RollingWindow.step l c).window = l.window from hwindow] at hrest
    rw [granted, ← List.append_assoc, hrest]
    by_cases hk : c.key = key
    · subst hk
      have hown : instants c.key (c :: cs) = c.now :: instants c.key cs := by
        simp [instants]
      have hcount : (l.allow c.key c.now).2 = true ↔
          ((history.countP (c.now - l.window < ·) : ℕ) : ℤ) < l.max := by
        rw [allow_iff, h c.now hclock.1, List.countP_eq_length_filter]
      rw [hown, slidingWindow]
      by_cases hgrant : (l.allow c.key c.now).2 = true
      · rw [if_pos ⟨rfl, hgrant⟩, if_pos (hcount.mp hgrant)]
      · rw [if_neg (fun hand => hgrant hand.2), if_neg (fun hlt => hgrant (hcount.mpr hlt)),
          List.append_nil]
    · have hown : instants key (c :: cs) = instants key cs := by
        simp [instants, hk]
      rw [hown, if_neg (fun hand => hk hand.1), List.append_nil]

/-- In every run whose clock never goes back a call is granted just when fewer than `Max` earlier
granted calls on its key lie strictly after the instant one window ago. The grants of a key are those
of a plain counter that sees the calls on this key alone. -/
theorem allow_iff_sliding_window (max window maxTrackedKeys now : ℤ) (calls : List Call) (c : Call)
    (hclock : Nondecreasing now (calls ++ [c])) :
    (((calls.foldl step (start max window maxTrackedKeys)).allow c.key c.now).2 = true ↔
      (((granted c.key (start max window maxTrackedKeys) calls).countP
        (c.now - window < ·) : ℕ) : ℤ) < max) ∧
    granted c.key (start max window maxTrackedKeys) (calls ++ [c]) =
      slidingWindow max window [] (instants c.key (calls ++ [c])) := by
  constructor
  · have hlive := (agrees_start c.key now max window maxTrackedKeys).run hclock
    rw [allow_iff, hlive, max_foldl_step, List.nil_append, List.countP_eq_length_filter]
    rfl
  · exact (agrees_start c.key now max window maxTrackedKeys).granted_eq hclock

/-- Two requests a minute: the third within the window is refused, whatever another key does, and
one after it is granted. -/
def minuteCalls : List Call :=
  [⟨"alice", 0⟩, ⟨"bob", 1⟩, ⟨"alice", 20⟩, ⟨"alice", 30⟩]

theorem minuteCalls_allow :
    ((minuteCalls.foldl step (start 2 60 1)).allow "alice" 61).2 = true ∧
      granted "alice" (start 2 60 1) minuteCalls = [0, 20] := by
  have hclock : Nondecreasing 0 (minuteCalls ++ [⟨"alice", 61⟩]) := by
    simp [minuteCalls, Nondecreasing]
  exact ⟨(allow_iff_sliding_window 2 60 1 0 minuteCalls ⟨"alice", 61⟩ hclock).1.mpr (by decide),
    by decide⟩

end VyosClient.RollingWindow
