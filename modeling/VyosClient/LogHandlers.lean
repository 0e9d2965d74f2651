import Mathlib.Data.Int.Basic
import VyosClient.LogView
import VyosClient.Separators
import VyosClient.WireCommit

/-!
The logs endpoint. The query names one of a closed set of log commands and how
many lines it wants; the command either is bounded by VyOS, and then prints its
newest line first, or prints its whole log, which is cut here. Either way the
answer is the end of the log in the order it was written. A container may not be
there, and then VyOS refuses the command.
-/

namespace VyosClient.LogHandlers

open LogView
open WireCommit (VyosError Refusal handleVyOSError)

def logFacilities : List String :=
  ["kern", "user", "mail", "daemon", "auth", "syslog", "lpr", "news", "uucp", "cron", "authpriv",
    "ftp", "local0", "local1", "local2", "local3", "local4", "local5", "local6", "local7"]

def logPriorities : List String :=
  ["emerg", "alert", "crit", "err", "warning", "notice", "info", "debug"]

def fixedLogSources : List (String × List String) :=
  [("firewall", ["log", "firewall"]),
    ("ssh", ["log", "ssh"]),
    ("https", ["log", "https"]),
    ("dhcp-server", ["log", "dhcp", "server"]),
    ("vpn", ["log", "vpn"]),
    ("frr", ["log", "frr"])]

def defaultLogLines : ℤ := 500

def maxLogLines : ℤ := 5000

/-- The number of a text of digits, when an `int` holds it. -/
def signed (negative : Bool) (digits : List Char) : Option ℤ :=
  let n := Nat.ofDigitChars 10 digits 0
  if digits = [] ∨ ¬ digits.all Char.isDigit then none
  else if negative then if n ≤ 9223372036854775808 then some (-n) else none
  else if n ≤ 9223372036854775807 then some n else none

/-- `strconv.Atoi`. -/
def atoi : List Char → Option ℤ
  | '-' :: digits => signed true digits
  | '+' :: digits => signed false digits
  | digits => signed false digits

def parseLogLines (raw : String) : ℤ :=
  if raw = "" then defaultLogLines
  else
    match atoi raw.toList with
    | none => defaultLogLines
    | some n =>
        if n < 1 then defaultLogLines
        else if maxLogLines < n then maxLogLines
        else n

/-- The op-mode commands of the router: what each prints. -/
abbrev Show := List String → Except VyosError (List Char)

/-- `s[i], s[j] = s[j], s[i]`. -/
def swap {α : Type*} (s : List α) (i j : ℕ) : List α :=
  match s[i]?, s[j]? with
  | some x, some y => (s.set i y).set j x
  | _, _ => s

/-- The loop of `reverseInPlace`. -/
def reverseLoop {α : Type*} (s : List α) (i j : ℕ) : List α :=
  if i < j then reverseLoop (swap s i j) (i + 1) (j - 1) else s
termination_by j - i

def reverseInPlace {α : Type*} (s : List α) : List α := reverseLoop s 0 (s.length - 1)

/-- `ShowLogTail`, over the command that prints the log. -/
def showLogTailOf (run : Show) (path : List String) (maxLines : ℤ) : Except VyosError LogLines :=
  match run path with
  | .error e => .error e
  | .ok text => .ok (showLogTail text maxLines)

def showLogTailBounded (run : Show) (maxLines : ℤ) : Except VyosError LogLines :=
  match run ["log", "tail", toString maxLines] with
  | .error e => .error e
  | .ok text =>
      let lines := reverseInPlace (splitLogLines text)
      .ok ⟨lines, decide (0 < maxLines ∧ maxLines ≤ lines.length)⟩

/-- The parameters of a request, in the order they came in. -/
abbrev Query := List (String × String)

/-- `url.Values.Get`. -/
def Query.get (query : Query) (key : String) : String := (query.lookup key).getD ""

def answered : Except VyosError LogLines → Except Refusal LogLines
  | .error e => .error (handleVyOSError "fetching logs" e)
  | .ok result => .ok result

def badRequest (message : String) : Except Refusal LogLines := .error ⟨400, message⟩

def handleLogs (run : Show) (query : Query) : Except Refusal LogLines :=
  let source := query.get "source"
  let lines := parseLogLines (query.get "lines")
  if source = "system" then answered (showLogTailBounded run lines)
  else if source = "facility" then
    let facility := query.get "facility"
    if facility ∉ logFacilities then badRequest "unknown or missing facility"
    else answered (showLogTailOf run ["log", "facility", facility] lines)
  else if source = "priority" then
    let priority := query.get "priority"
    if priority ∉ logPriorities then badRequest "unknown or missing priority"
    else answered (showLogTailOf run ["log", "priority", priority] lines)
  else if source = "container" then
    let container := query.get "container"
    if container = "" then badRequest "container is required for source=container"
    else answered (showLogTailOf run ["container", "log", container] lines)
  else
    match fixedLogSources.lookup source with
    | none => badRequest "unknown log source"
    | some path => answered (showLogTailOf run path lines)

/-! What a query asks for, and what the router has. -/

/-- The log a query names, by the command that prints it. -/
inductive Names (query : Query) : List String → Prop
  | system (hsource : query.get "source" = "system") : Names query ["log"]
  | facility (hsource : query.get "source" = "facility")
      (hfacility : query.get "facility" ∈ logFacilities) :
      Names query ["log", "facility", query.get "facility"]
  | priority (hsource : query.get "source" = "priority")
      (hpriority : query.get "priority" ∈ logPriorities) :
      Names query ["log", "priority", query.get "priority"]
  | container (hsource : query.get "source" = "container")
      (hcontainer : query.get "container" ≠ "") :
      Names query ["container", "log", query.get "container"]
  | fixed {path : List String} (hfixed : (query.get "source", path) ∈ fixedLogSources) :
      Names query path

/-- How many lines a query asks for. -/
def Query.lines (query : Query) : ℕ := (parseLogLines (query.get "lines")).toNat

def printed (lines : List Line) : List Char := lines.flatMap (· ++ ['\n'])

/-- A log of one blank line prints like one without lines but for the newline that is dropped. -/
def readable (lines : List Line) : List Line := if lines = [[]] then [] else lines

/-- The journals of a router, by the command that prints each. -/
abbrev Journals := List String → Option (List Line)

/-- A router whose commands print the journals it has, and are refused for others, such as that of
a container that does not exist. The system journal is always there; each of its lines starts with
its time, so none is blank. Nothing is assumed of commands the endpoint has no name for. -/
structure Prints (run : Show) (journals : Journals) : Prop where
  noNewline : ∀ path log, journals path = some log → ∀ line ∈ log, '\n' ∉ line
  system : ∃ log, journals ["log"] = some log ∧ [] ∉ log ∧
    ∀ n : ℤ, 1 ≤ n → n ≤ maxLogLines →
      run ["log", "tail", toString n] = .ok (printed (lastLines n.toNat log).reverse)
  whole : ∀ query path log, Names query path → path ≠ ["log"] → journals path = some log →
    run path = .ok (printed log)
  missing : ∀ query path, Names query path → journals path = none → ∃ e, run path = .error e

/-- The end of a log, and whether it may not be all of it. -/
structure EndOf (log : List Line) (n : ℕ) (shown : LogLines) : Prop where
  lines_eq : shown.lines = lastLines n (readable log)
  complete : shown.truncated = false → shown.lines = readable log
  full : shown.truncated = true → shown.lines.length = n

section ReverseInPlace

variable {α : Type*}

theorem length_swap (s : List α) (i j : ℕ) : (swap s i j).length = s.length := by
  unfold swap
  split
  · rw [List.length_set, List.length_set]
  · rfl

theorem getElem?_swap {s : List α} {i j : ℕ} (hij : i < j) (hj : j < s.length) (k : ℕ) :
    (swap s i j)[k]? = if k = i then s[j]? else if k = j then s[i]? else s[k]? := by
  have hi : i < s.length := by omega
  unfold swap
  rw [List.getElem?_eq_getElem hi, List.getElem?_eq_getElem hj]
  dsimp only
  rw [List.getElem?_set, List.getElem?_set, List.length_set]
  by_cases hki : k = i
  · subst hki
    rw [if_neg (by omega), if_pos rfl, if_pos hi, if_pos rfl]
  · rw [if_neg (Ne.symm hki), if_neg hki]
    by_cases hkj : k = j
    · subst hkj
      rw [if_pos rfl, if_pos hj, if_pos rfl]
    · rw [if_neg (Ne.symm hkj), if_neg hkj]

/-- The loop has turned around what lies outside of its two indices, which stand opposite each
other, and has still to turn around the rest. -/
def Turned (s t : List α) (i j : ℕ) : Prop :=
  t.length = s.length ∧ ∀ k < s.length,
    t[k]? = if i ≤ k ∧ k ≤ j then s[k]? else s[s.length - 1 - k]?

theorem turned_swap {s t : List α} {i j : ℕ} (hij : i < j) (hsum : i + j + 1 = s.length)
    (h : Turned s t i j) : Turned s (swap t i j) (i + 1) (j - 1) := by
  obtain ⟨hlength, hget⟩ := h
  refine ⟨(length_swap t i j).trans hlength, fun k hk => ?_⟩
  rw [getElem?_swap hij (by omega)]
  by_cases hki : k = i
  · subst hki
    rw [if_pos rfl, if_neg (by omega), hget j (by omega), if_pos (by omega)]
    congr 1
    omega
  · rw [if_neg hki]
    by_cases hkj : k = j
    · subst hkj
      rw [if_pos rfl, if_neg (by omega), hget i (by omega), if_pos (by omega)]
      congr 1
      omega
    · rw [if_neg hkj, hget k hk]
      by_cases hmid : i ≤ k ∧ k ≤ j
      · rw [if_pos hmid, if_pos (by omega)]
      · rw [if_neg hmid, if_neg (by omega)]

theorem reverseLoop_eq {s t : List α} {i j : ℕ} (hsum : i + j + 1 = s.length) (h : Turned s t i j) :
    reverseLoop t i j = s.reverse := by
  induction t, i, j using reverseLoop.induct with
  | case1 t i j hij ih =>
    rw [reverseLoop, if_pos hij]
    exact ih (by omega) (turned_swap hij hsum h)
  | case2 t i j hij =>
    rw [reverseLoop, if_neg hij]
    obtain ⟨hlength, hget⟩ := h
    refine List.ext_getElem? fun k => ?_
    by_cases hk : k < s.length
    · rw [hget k hk, List.getElem?_reverse hk]
      by_cases hmid : i ≤ k ∧ k ≤ j
      · rw [if_pos hmid]
        congr 1
        omega
      · rw [if_neg hmid]
    · rw [List.getElem?_eq_none (by omega),
        List.getElem?_eq_none (by rw [List.length_reverse]; omega)]

/-- The swapping loop ends, and with the list in the other order. -/
theorem reverseInPlace_eq (s : List α) : reverseInPlace s = s.reverse := by
  cases s with
  | nil => rw [reverseInPlace, reverseLoop]; rfl
  | cons x xs =>
    refine reverseLoop_eq (s := x :: xs) (by rw [List.length_cons]; omega) ⟨rfl, fun k hk => ?_⟩
    rw [if_pos ⟨Nat.zero_le k, by omega⟩]

end ReverseInPlace

section Printed

theorem splitOn_line {line : Line} (h : '\n' ∉ line) : line.splitOn '\n' = [line] :=
  List.splitOn_eq_singleton h

/-- Splitting what was printed gives the lines back, up to a log of one blank line. -/
theorem splitLogLines_printed {lines : List Line} (h : ∀ line ∈ lines, '\n' ∉ line) :
    splitLogLines (printed lines) = readable lines := by
  rcases List.eq_nil_or_concat lines with rfl | ⟨before, last, rfl⟩
  · decide
  · rw [List.concat_eq_append] at h ⊢
    have hprinted : printed (before ++ [last]) = (printed before ++ last) ++ ['\n'] := by
      unfold printed
      rw [List.flatMap_append, List.flatMap_cons, List.flatMap_nil, List.append_nil,
        List.append_assoc]
    have hlast : '\n' ∉ last := h last (List.mem_append_right _ List.mem_cons_self)
    have hpieces : (printed before ++ last).splitOn '\n' = before ++ [last] := by
      rw [printed, Separators.splitOn_terminated, splitOn_line hlast]
      congr 1
      rw [List.flatMap_congr fun line hline => splitOn_line (h line (List.mem_append_left _ hline)),
        List.flatMap_singleton']
    unfold splitLogLines readable
    rw [hprinted]
    dsimp only
    rw [if_pos List.getLast?_concat, List.dropLast_concat, hpieces]
    by_cases hnil : printed before ++ last = []
    · rw [hnil, List.splitOn_nil] at hpieces
      rw [if_pos hnil, if_pos hpieces.symm]
    · rw [if_neg hnil, if_neg fun hblank => hnil ?_]
      obtain ⟨rfl, hlast⟩ := List.append_inj' (hblank.trans (List.nil_append [[]]).symm) rfl
      rw [(List.cons.inj hlast).1]
      rfl

theorem readable_of_notMem {lines : List Line} (h : [] ∉ lines) : readable lines = lines :=
  if_neg fun hblank => by
    rw [hblank] at h
    exact h List.mem_cons_self

end Printed

theorem lastLines_eq_self {n : ℕ} {lines : List Line} (h : lines.length ≤ n) :
    lastLines n lines = lines := by
  rw [lastLines, Nat.sub_eq_zero_of_le h, List.drop_zero]

theorem length_lastLines {n : ℕ} {lines : List Line} (h : n ≤ lines.length) :
    (lastLines n lines).length = n := by
  rw [lastLines, List.length_drop]
  omega

/-- However many lines a query asks for, the command is run for at least one and for no more than
the endpoint allows. -/
theorem parseLogLines_mem (raw : String) :
    1 ≤ parseLogLines raw ∧ parseLogLines raw ≤ maxLogLines := by
  have hdefault : 1 ≤ defaultLogLines ∧ defaultLogLines ≤ maxLogLines := by decide
  unfold parseLogLines
  split
  · exact hdefault
  · split
    · exact hdefault
    · split
      · exact hdefault
      · rename_i n _ hn
        split
        · exact ⟨by decide, le_refl _⟩
        · exact ⟨by omega, by omega⟩

section Journals

variable {run : Show} {journals : Journals} {n : ℤ}

/-- A command that prints its whole log: the end of it is cut off here. -/
theorem showLogTail_endOf {log : List Line} (hlog : ∀ line ∈ log, '\n' ∉ line) (hn : 1 ≤ n) :
    EndOf log n.toNat (showLogTail (printed log) n) := by
  unfold showLogTail
  dsimp only
  rw [splitLogLines_printed hlog, if_neg (by omega)]
  by_cases hlong : n < (readable log).length
  · rw [if_pos hlong]
    exact ⟨rfl, fun h => (nomatch h), fun _ => length_lastLines (by omega)⟩
  · rw [if_neg hlong]
    have hall : readable log = lastLines n.toNat (readable log) :=
      (lastLines_eq_self (by omega)).symm
    exact ⟨hall, fun _ => rfl, fun h => (nomatch h)⟩

/-- The command that VyOS bounds prints the end of the log backwards. -/
theorem showLogTailBounded_endOf (h : Prints run journals) {log : List Line}
    (hlog : journals ["log"] = some log) (hn : 1 ≤ n) (hmax : n ≤ maxLogLines) :
    ∃ shown, showLogTailBounded run n = .ok shown ∧ EndOf log n.toNat shown := by
  obtain ⟨log', hlog', hstamped, htail⟩ := h.system
  obtain rfl := Option.some.inj (hlog'.symm.trans hlog)
  have hblank : [] ∉ (lastLines n.toNat log').reverse := fun hmem =>
    hstamped ((lastLines_suffix _ _).subset (List.mem_reverse.mp hmem))
  have hnewline : ∀ line ∈ (lastLines n.toNat log').reverse, '\n' ∉ line :=
    fun line hmem =>
      h.noNewline _ _ hlog line ((lastLines_suffix _ _).subset (List.mem_reverse.mp hmem))
  have hlines : reverseInPlace (splitLogLines (printed (lastLines n.toNat log').reverse)) =
      lastLines n.toNat log' := by
    rw [splitLogLines_printed hnewline, readable_of_notMem hblank, reverseInPlace_eq,
      List.reverse_reverse]
  refine ⟨⟨lastLines n.toNat log',
    decide (0 < n ∧ n ≤ (lastLines n.toNat log').length)⟩, ?_, ?_⟩
  · rw [showLogTailBounded, htail n hn hmax]
    dsimp only
    rw [hlines]
  · have hwhole := readable_of_notMem hstamped
    refine ⟨by rw [hwhole], fun hcomplete => ?_, fun hfull => ?_⟩
    · have hshort := of_decide_eq_false hcomplete
      rw [hwhole]
      refine lastLines_eq_self (Nat.le_of_lt (Nat.not_le.mp fun hlong => hshort ?_))
      rw [length_lastLines hlong]
      omega
    · have hlong := (of_decide_eq_true hfull).2
      have hle := length_lastLines_le n.toNat log'
      dsimp only
      omega

end Journals

/-- The names with a command of their own are none of the names with a parameter. -/
theorem fixedLogSources_names : ∀ entry ∈ fixedLogSources,
    entry.1 ≠ "system" ∧ entry.1 ≠ "facility" ∧ entry.1 ≠ "priority" ∧ entry.1 ≠ "container" ∧
      entry.2 ≠ ["log"] ∧ fixedLogSources.lookup entry.1 = some entry.2 := by
  decide

theorem mem_of_lookup_fixed {name : String} {path : List String}
    (h : fixedLogSources.lookup name = some path) : (name, path) ∈ fixedLogSources := by
  obtain ⟨before, after, heq, -⟩ := List.lookup_eq_some_iff.mp h
  rw [heq]
  exact List.mem_append_right before List.mem_cons_self

section Answers

variable {run : Show} {journals : Journals} {query : Query} {path : List String}

theorem one_le_lines (query : Query) : 1 ≤ query.lines ∧ query.lines ≤ maxLogLines.toNat := by
  obtain ⟨hpos, hmax⟩ := parseLogLines_mem (query.get "lines")
  unfold Query.lines
  omega

/-- The paths with a command that prints the whole log. -/
theorem handleLogs_of_whole (hnames : Names query path) (hpath : path ≠ ["log"]) (run : Show) :
    handleLogs run query =
      answered (showLogTailOf run path (parseLogLines (query.get "lines"))) := by
  unfold handleLogs
  dsimp only
  cases hnames with
  | system hsource => exact absurd rfl hpath
  | facility hsource hfacility =>
    rw [if_neg (by rw [hsource]; decide), if_pos hsource, if_neg (not_not_intro hfacility)]
  | priority hsource hpriority =>
    rw [if_neg (by rw [hsource]; decide), if_neg (by rw [hsource]; decide), if_pos hsource,
      if_neg (not_not_intro hpriority)]
  | container hsource hcontainer =>
    rw [if_neg (by rw [hsource]; decide), if_neg (by rw [hsource]; decide),
      if_neg (by rw [hsource]; decide), if_pos hsource, if_neg hcontainer]
  | fixed hfixed =>
    obtain ⟨hsystem, hfacility, hpriority, hcontainer, -, hlookup⟩ :=
      fixedLogSources_names _ hfixed
    rw [if_neg hsystem, if_neg hfacility, if_neg hpriority, if_neg hcontainer, hlookup]

theorem source_of_names_log (hnames : Names query ["log"]) : query.get "source" = "system" := by
  generalize hpath : ["log"] = path at hnames
  cases hnames with
  | system hsource => exact hsource
  | facility => simp at hpath
  | priority => simp at hpath
  | container => simp at hpath
  | fixed hfixed =>
    obtain ⟨-, -, -, -, hne, -⟩ := fixedLogSources_names _ hfixed
    exact absurd hpath.symm hne

/-- A query that names a log the router has is answered with the end of that log. -/
theorem handleLogs_of_names (h : Prints run journals) {log : List Line}
    (hnames : Names query path) (hlog : journals path = some log) :
    ∃ shown, handleLogs run query = .ok shown ∧ EndOf log query.lines shown := by
  obtain ⟨hpos, hmax⟩ := parseLogLines_mem (query.get "lines")
  by_cases hpath : path = ["log"]
  · subst hpath
    obtain ⟨shown, hshown, hend⟩ := showLogTailBounded_endOf h hlog hpos hmax
    refine ⟨shown, ?_, hend⟩
    rw [handleLogs, if_pos (source_of_names_log hnames), hshown]
    rfl
  · refine ⟨_, ?_, showLogTail_endOf (h.noNewline path log hlog) hpos⟩
    rw [handleLogs_of_whole hnames hpath, showLogTailOf, h.whole query path log hnames hpath hlog]
    rfl

/-- A query for a log the router has not gets what VyOS refuses the command with. -/
theorem handleLogs_of_missing (h : Prints run journals) (hnames : Names query path)
    (hlog : journals path = none) :
    ∃ e, run path = .error e ∧ handleLogs run query = .error (handleVyOSError "fetching logs" e) := by
  obtain ⟨e, he⟩ := h.missing query path hnames hlog
  have hpath : path ≠ ["log"] := by
    rintro rfl
    obtain ⟨log, hsystem, -⟩ := h.system
    rw [hlog] at hsystem
    cases hsystem
  refine ⟨e, he, ?_⟩
  rw [handleLogs_of_whole hnames hpath, showLogTailOf, he]
  rfl

/-- A query that names no log is refused without a command being run: whatever they would print. -/
theorem handleLogs_of_not_names (hnone : ∀ path, ¬ Names query path) (run : Show) :
    ∃ message, handleLogs run query = .error ⟨400, message⟩ := by
  unfold handleLogs
  dsimp only
  split
  · rename_i hsource
    exact absurd (.system hsource) (hnone _)
  · split
    · rename_i hsource
      rw [if_pos fun hfacility => hnone _ (.facility hsource hfacility)]
      exact ⟨_, rfl⟩
    · split
      · rename_i hsource
        rw [if_pos fun hpriority => hnone _ (.priority hsource hpriority)]
        exact ⟨_, rfl⟩
      · split
        · rename_i hsource
          rw [if_pos (not_not.mp fun hcontainer => hnone _ (.container hsource hcontainer))]
          exact ⟨_, rfl⟩
        · cases hlookup : fixedLogSources.lookup (query.get "source") with
          | none => exact ⟨_, rfl⟩
          | some path => exact absurd (.fixed (mem_of_lookup_fixed hlookup)) (hnone path)

/-- When VyOS refuses the command the answer is a refusal. -/
theorem handleLogs_of_error (e : VyosError) (query : Query) :
    ∃ refusal, handleLogs (fun _ => .error e) query = .error refusal := by
  unfold handleLogs
  dsimp only
  split
  · exact ⟨_, rfl⟩
  · split
    · split
      · exact ⟨_, rfl⟩
      · exact ⟨_, rfl⟩
    · split
      · split
        · exact ⟨_, rfl⟩
        · exact ⟨_, rfl⟩
      · split
        · split
          · exact ⟨_, rfl⟩
          · exact ⟨_, rfl⟩
        · cases fixedLogSources.lookup (query.get "source") with
          | none => exact ⟨_, rfl⟩
          | some path => exact ⟨_, rfl⟩

end Answers

/-- Over a router that prints its journals, the logs endpoint answers exactly the queries that name
a log of the closed set which the router has, whichever command it takes: with the last lines of
that log, at least one and no more than the maximum, in the order they were written. An answer that
is not marked as truncated is the whole log, and one that is fills the window. A query for a log the
router has not is answered with the refusal of VyOS. -/
theorem logs_answered {run : Show} {journals : Journals} (h : Prints run journals)
    (query : Query) :
    (1 ≤ query.lines ∧ query.lines ≤ 5000) ∧
      (∀ path log, Names query path → journals path = some log →
        ∃ shown, handleLogs run query = .ok shown ∧ EndOf log query.lines shown) ∧
      (∀ path, Names query path → journals path = none →
        ∃ e, run path = .error e ∧
          handleLogs run query = .error (handleVyOSError "fetching logs" e)) ∧
      ((∀ path, ¬ Names query path) → ∃ message, handleLogs run query = .error ⟨400, message⟩) :=
  ⟨one_le_lines query, fun _ _ hnames hlog => handleLogs_of_names h hnames hlog,
    fun _ hnames hlog => handleLogs_of_missing h hnames hlog,
    fun hnone => handleLogs_of_not_names hnone run⟩

/-- A number as it is written, read again. -/
theorem atoi_toString {n : ℕ} (h : n ≤ 9223372036854775807) :
    atoi (toString (n : ℤ)).toList = some (n : ℤ) := by
  have hdigits : ∀ c ∈ Nat.toDigits 10 n, c.isDigit = true := fun c hc =>
    Nat.isDigit_of_mem_toDigits (by decide) (by decide) hc
  have hsigned : signed false (Nat.toDigits 10 n) = some (n : ℤ) := by
    unfold signed
    dsimp only
    rw [Nat.ofDigitChars_ten_toDigits, if_neg, if_neg Bool.false_ne_true, if_pos h]
    rintro (hnil | hother)
    · exact Nat.toDigits_ne_nil hnil
    · exact hother (List.all_eq_true.mpr hdigits)
  have htext : (toString (n : ℤ)).toList = Nat.toDigits 10 n := Nat.toList_repr
  rw [htext]
  unfold atoi
  split
  · rename_i hminus
    exact absurd (hdigits '-' (hminus ▸ List.mem_cons_self)) (by decide)
  · rename_i hplus
    exact absurd (hdigits '+' (hplus ▸ List.mem_cons_self)) (by decide)
  · exact hsigned

theorem parseLogLines_toString {n : ℕ} (hn : 1 ≤ n) (hmax : n ≤ 5000) :
    parseLogLines (toString (n : ℤ)) = n := by
  have hatoi : atoi (toString (n : ℤ)).toList = some (n : ℤ) := atoi_toString (by omega)
  unfold parseLogLines
  rw [if_neg, hatoi]
  · dsimp only
    rw [if_neg (by omega), if_neg (by unfold maxLogLines; omega)]
  · intro hempty
    rw [hempty] at hatoi
    have hnone : atoi "".toList = none := by decide
    exact nomatch hnone.symm.trans hatoi

def printJournal : Option (List Line) → Except VyosError (List Char)
  | none => .error (.api 400 "no such container")
  | some log => .ok (printed log)

/-- The commands of a router with these journals. -/
def printJournals (journals : Journals) : Show
  | ["log", "tail", n] =>
      .ok (printed (lastLines ((atoi n.toList).getD 0).toNat
        ((journals ["log"]).getD [])).reverse)
  | path => printJournal (journals path)

theorem printJournals_of_names {query : Query} {path : List String} (hnames : Names query path)
    (journals : Journals) : printJournals journals path = printJournal (journals path) := by
  have htail : ∀ n, path ≠ ["log", "tail", n] := by
    intro n
    cases hnames with
    | fixed hfixed =>
      have hpaths : ∀ entry ∈ fixedLogSources, ∀ n, entry.2 ≠ ["log", "tail", n] := by
        simp [fixedLogSources]
      exact hpaths _ hfixed n
    | _ => simp
  unfold printJournals
  split
  · exact absurd rfl (htail _)
  · rfl

theorem prints_printJournals {journals : Journals} {log : List Line}
    (hnewline : ∀ path log, journals path = some log → ∀ line ∈ log, '\n' ∉ line)
    (hlog : journals ["log"] = some log) (hstamped : [] ∉ log) :
    Prints (printJournals journals) journals where
  noNewline := hnewline
  system := by
    refine ⟨log, hlog, hstamped, fun n hn hmax => ?_⟩
    obtain ⟨m, rfl⟩ := Int.eq_ofNat_of_zero_le (by omega : 0 ≤ n)
    have hatoi : atoi (toString (m : ℤ)).toList = some (m : ℤ) :=
      atoi_toString (by unfold maxLogLines at hmax; omega)
    rw [printJournals, hatoi, hlog]
    rfl
  whole query path log hnames hpath hlog := by
    rw [printJournals_of_names hnames, hlog]
    rfl
  missing query path hnames hlog := by
    rw [printJournals_of_names hnames, hlog]
    exact ⟨_, rfl⟩

/-- A router with three lines in the journal of its SSH service, none in the system journal, and no
container. -/
def sshJournals : Journals
  | ["log"] => some []
  | ["log", "ssh"] => some ["Jan 1 start".toList, "Jan 2 login".toList, "Jan 3 logout".toList]
  | _ => none

/-- Two of the three lines are asked for, and the log of a container that does not exist. -/
theorem logs_answered_ssh :
    (∃ shown, handleLogs (printJournals sshJournals) [("source", "ssh"), ("lines", "2")] =
        .ok shown ∧ shown.lines = ["Jan 2 login".toList, "Jan 3 logout".toList]) ∧
      handleLogs (printJournals sshJournals) [("source", "container"), ("container", "web")] =
        .error ⟨422, "no such container"⟩ := by
  have hprints : Prints (printJournals sshJournals) sshJournals := by
    refine prints_printJournals (fun path log hlog => ?_) rfl List.not_mem_nil
    unfold sshJournals at hlog
    split at hlog
    · obtain rfl := Option.some.inj hlog
      decide
    · obtain rfl := Option.some.inj hlog
      decide
    · cases hlog
  obtain ⟨shown, hshown, hend⟩ := (logs_answered hprints
    [("source", "ssh"), ("lines", "2")]).2.1 ["log", "ssh"] _ (.fixed (by decide)) rfl
  obtain ⟨e, he, hrefused⟩ := (logs_answered hprints
    [("source", "container"), ("container", "web")]).2.2.1 ["container", "log", "web"]
      (.container rfl (by decide)) rfl
  refine ⟨⟨shown, hshown, hend.lines_eq.trans (by decide)⟩, ?_⟩
  cases he
  exact hrefused

end VyosClient.LogHandlers
