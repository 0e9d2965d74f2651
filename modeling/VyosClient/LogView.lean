import Mathlib.Algebra.Order.Ring.Int
import Mathlib.Data.List.Nodup
import VyosClient.LogMerge
import VyosClient.Runs

/-!
The log view of a page that polls. Each poll fetches the last lines of a log
that only grows, and merges them onto the display, which keeps a bounded number
of lines; the reader may clear it between polls. When no line of the log occurs
twice, the display is after each poll an end of the log.
-/

namespace VyosClient.LogView

open LogMerge Runs

abbrev Line := List Char

structure LogLines where
  lines : List Line
  truncated : Bool
deriving DecidableEq, Repr

/-- One newline at the end of the output ends its last line. -/
def splitLogLines (text : List Char) : List Line :=
  let text := if text.getLast? = some '\n' then text.dropLast else text
  if text = [] then [] else text.splitOn '\n'

/-- The truncation of `ShowLogTail`, on what its command printed. -/
def showLogTail (text : List Char) (maxLines : ℤ) : LogLines :=
  let lines := splitLogLines text
  if maxLines ≤ 0 then ⟨[], decide (0 < lines.length)⟩
  else if maxLines < lines.length then ⟨lines.drop (lines.length - maxLines.toNat), true⟩
  else ⟨lines, false⟩

def maxDisplayLines : ℕ := 5000

/-- `slice(-n)`. -/
def lastLines (n : ℕ) (lines : List Line) : List Line := lines.drop (lines.length - n)

/-- What `useLogs` shows, with the lines of the log when it was last polled. -/
structure View where
  log : List Line
  displayLines : List Line

/-- A poll that finds this output of the log command, or a click on clear. -/
inductive Event
  | poll (text : List Char)
  | clear

def View.initial : View := ⟨[], []⟩

def step (maxLines : ℤ) (view : View) : Event → View
  | .poll text =>
    { log := splitLogLines text
      displayLines :=
        lastLines maxDisplayLines (mergeLogLines view.displayLines (showLogTail text maxLines).lines) }
  | .clear => { view with displayLines := [] }

/-- The log has kept its lines since the last poll, and no line occurs twice. -/
def Appends (view : View) : Event → Prop
  | .poll text => view.log <+: splitLogLines text ∧ (splitLogLines text).Nodup
  | .clear => True

instance (view : View) (e : Event) : Decidable (Appends view e) :=
  match e with
  | .poll text => inferInstanceAs (Decidable (view.log <+: splitLogLines text ∧
      (splitLogLines text).Nodup))
  | .clear => inferInstanceAs (Decidable True)

/-- An end of the log with its newest line, without repetitions and not too long. -/
structure LiveTail (log shown : List Line) : Prop where
  suffix : shown <:+ log
  newest : shown.getLast? = log.getLast?
  nodup : shown.Nodup
  length_le : shown.length ≤ maxDisplayLines

theorem getLast?_of_suffix {α : Type*} {xs ys : List α} (h : xs <:+ ys) (hne : xs = [] → ys = []) :
    xs.getLast? = ys.getLast? := by
  obtain ⟨p, rfl⟩ := h
  cases hlast : xs.getLast? with
  | none =>
    rw [hne (List.getLast?_eq_none_iff.mp hlast)]
    rfl
  | some x => rw [List.getLast?_append, hlast, Option.some_or]

/-- A poll finds an end of the log, with at least its newest line. -/
theorem showLogTail_suffix (text : List Char) (maxLines : ℤ) (hwindow : 1 ≤ maxLines) :
    (showLogTail text maxLines).lines <:+ splitLogLines text ∧
      ((showLogTail text maxLines).lines = [] → splitLogLines text = []) := by
  unfold showLogTail
  dsimp only
  rw [if_neg (by omega)]
  by_cases hlong : maxLines < (splitLogLines text).length
  · rw [if_pos hlong]
    refine ⟨List.drop_suffix _ _, fun hnil => ?_⟩
    have hle := List.drop_eq_nil_iff.mp hnil
    omega
  · rw [if_neg hlong]
    exact ⟨List.suffix_rfl, id⟩

/-- Where a block stands in a list without repetitions is fixed by its first element. -/
theorem eq_of_nodup_append {α : Type*} {xs xs' ys ys' zs : List α} (hzs : zs ≠ [])
    (hnodup : (xs ++ (zs ++ ys)).Nodup) (h : xs ++ (zs ++ ys) = xs' ++ (zs ++ ys')) :
    ys = ys' := by
  obtain ⟨z, zs, rfl⟩ := List.exists_cons_of_ne_nil hzs
  rw [List.cons_append, List.cons_append] at h
  rw [List.cons_append] at hnodup
  have hz : z ∉ xs ∧ z ∉ zs ++ ys := by
    have hcons := List.nodup_middle.mp hnodup
    have hnot := (List.nodup_cons.mp hcons).1
    exact ⟨fun hmem => hnot (List.mem_append_left _ hmem),
      fun hmem => hnot (List.mem_append_right _ hmem)⟩
  obtain ⟨-, -, hrest⟩ := (List.append_cons_inj_of_notMem hz.1 hz.2).mp h
  exact List.append_cancel_left hrest

/-- The merge of an end of the log as it was with an end of the log as it is. -/
theorem mergeLogLines_suffix {log log' previous next : List Line} (hprevious : previous <:+ log)
    (hgrows : log <+: log') (hnodup : log'.Nodup) (hnext : next <:+ log')
    (hnewest : next = [] → log' = []) :
    mergeLogLines previous next <:+ log' ∧ (mergeLogLines previous next = [] → log' = []) := by
  rcases mergeLogLines_cases previous next with hmerge | ⟨k, hpos, hk, hoverlap, hmerge⟩
  · rw [hmerge]
    exact ⟨hnext, hnewest⟩
  · obtain ⟨front, hfront⟩ := hprevious
    obtain ⟨added, hadded⟩ := hgrows
    obtain ⟨older, holder⟩ := hnext
    obtain ⟨above, habove⟩ := hoverlap
    have hne : next.take k ≠ [] := by
      intro hnil
      have hlen := congrArg List.length hnil
      rw [List.length_take, List.length_nil] at hlen
      omega
    have hsplit : log' = (front ++ above) ++ (next.take k ++ added) := by
      rw [← hadded, ← hfront, ← habove]
      simp only [List.append_assoc]
    have hsplit' : log' = older ++ (next.take k ++ next.drop k) := by
      rw [List.take_append_drop, holder]
    have hrest : added = next.drop k :=
      eq_of_nodup_append hne (hsplit ▸ hnodup) (hsplit.symm.trans hsplit')
    rw [hmerge, ← hrest]
    refine ⟨⟨front, ?_⟩, fun hnil => ?_⟩
    · rw [← hadded, ← hfront, List.append_assoc]
    · rw [← habove] at hnil
      exact absurd (List.append_eq_nil_iff.mp (List.append_eq_nil_iff.mp hnil).1).2 hne

theorem lastLines_suffix (n : ℕ) (lines : List Line) : lastLines n lines <:+ lines :=
  List.drop_suffix _ _

theorem length_lastLines_le (n : ℕ) (lines : List Line) : (lastLines n lines).length ≤ n := by
  unfold lastLines
  rw [List.length_drop]
  omega

theorem eq_nil_of_lastLines {n : ℕ} {lines : List Line} (hn : 0 < n) (h : lastLines n lines = []) :
    lines = [] := by
  have hle := List.drop_eq_nil_iff.mp h
  exact List.eq_nil_of_length_eq_zero (by omega)

theorem maxDisplayLines_pos : 0 < maxDisplayLines := by decide

theorem displayLines_poll (maxLines : ℤ) (view : View) (text : List Char) :
    (step maxLines view (.poll text)).displayLines = lastLines maxDisplayLines
      (mergeLogLines view.displayLines (showLogTail text maxLines).lines) := by
  simp only [step]

/-- What every run keeps: the display is an end of the log as it was last polled. -/
def Tails (view : View) : Prop := view.displayLines <:+ view.log

theorem liveTail_poll {maxLines : ℤ} (hwindow : 1 ≤ maxLines) {view : View} {text : List Char}
    (h : Tails view) (happends : Appends view (.poll text)) :
    LiveTail (splitLogLines text) (step maxLines view (.poll text)).displayLines := by
  obtain ⟨hgrows, hnodup⟩ := happends
  obtain ⟨hnext, hnewest⟩ := showLogTail_suffix text maxLines hwindow
  obtain ⟨hmerge, hmerged⟩ := mergeLogLines_suffix h hgrows hnodup hnext hnewest
  have hsuffix := (lastLines_suffix maxDisplayLines _).trans hmerge
  rw [displayLines_poll]
  refine ⟨hsuffix, ?_, hnodup.sublist hsuffix.sublist, length_lastLines_le _ _⟩
  exact getLast?_of_suffix hsuffix fun hnil => hmerged (eq_nil_of_lastLines maxDisplayLines_pos hnil)

theorem tails_step {maxLines : ℤ} (hwindow : 1 ≤ maxLines) (view : View) (e : Event) (h : Tails view)
    (happends : Appends view e) : Tails (step maxLines view e) := by
  cases e with
  | poll text => exact (liveTail_poll hwindow h happends).suffix
  | clear => exact List.nil_suffix

/-- After every poll of a log that only grows the display is an end of the log. -/
theorem displayLines_liveTail {maxLines : ℤ} (hwindow : 1 ≤ maxLines) (events : List Event)
    (text : List Char)
    (h : Guarded (step maxLines) Appends View.initial (events ++ [Event.poll text])) :
    LiveTail (splitLogLines text)
      ((events ++ [Event.poll text]).foldl (step maxLines) View.initial).displayLines := by
  obtain ⟨hbefore, happends, -⟩ := guarded_append.mp h
  have hinitial : Tails View.initial := List.nil_suffix
  have htails : Tails (events.foldl (step maxLines) View.initial) :=
    forall_trail_of_guarded (tails_step hwindow) hinitial hbefore _ (foldl_mem_trail _ events)
  rw [List.foldl_append]
  exact liveTail_poll hwindow htails happends

/-- A log that outruns a window of two lines, and one more poll. -/
theorem displayLines_window_two :
    LiveTail ["a".toList, "b".toList, "c".toList, "d".toList, "e".toList]
      (([Event.poll "a\n".toList, .poll "a\nb\nc\nd\n".toList] ++
        [Event.poll "a\nb\nc\nd\ne\n".toList]).foldl (step 2) View.initial).displayLines :=
  displayLines_liveTail (by decide) [.poll "a\n".toList, .poll "a\nb\nc\nd\n".toList]
    "a\nb\nc\nd\ne\n".toList ⟨by decide, by decide, by decide, trivial⟩

end VyosClient.LogView
