import VyosClient.LogHandlers

/-!
The logs page over the logs endpoint. The reader picks a log, the page asks for
its end again and again and merges each answer onto what it shows, and keeps the
last answer for every pick it has shown. An answer is read from the journals at
one instant and arrives at a later one; journals grow all the time, and no line
is written twice. The lines on display are always a block of the log that is
picked, and an answer to the current pick makes them an end of that log as it
was when the answer was read.
-/

namespace VyosClient.LogsPage

open LogView LogMerge LogHandlers Runs
open WireCommit (VyosError Refusal)

structure GetLogsParams where
  source : String
  facility : Option String
  priority : Option String
  container : Option String
  lines : Option ℕ
deriving DecidableEq, Repr

/-- The query string of a request: parameters that are `undefined` are left out. -/
def buildUrl (query : List (String × Option String)) : Query :=
  query.filterMap fun (key, value) => value.map fun v => (key, v)

def getLogs (params : GetLogsParams) : Query :=
  buildUrl [("source", some params.source),
    ("facility", params.facility),
    ("priority", params.priority),
    ("container", params.container),
    ("lines", params.lines.map fun n => toString (n : ℤ))]

/-- What the controls of the page hold. -/
structure Pick where
  source : String
  facility : String
  priority : String
  containerName : Option String
  lineCount : ℕ

def fixedSources : List String :=
  ["system", "firewall", "ssh", "https", "dhcp-server", "vpn", "frr"]

def lineCountOptions : List ℕ := [100, 500, 1000, 2000]

/-- The parameters the page asks with, given the names of the configured containers. -/
def Pick.params (pick : Pick) (containers : List String) : GetLogsParams where
  source := pick.source
  facility := if pick.source = "facility" then some pick.facility else none
  priority := if pick.source = "priority" then some pick.priority else none
  container :=
    if pick.source = "container" then pick.containerName <|> containers.head? else none
  lines := some pick.lineCount

/-- The controls offer no other values. -/
structure Pick.Offered (pick : Pick) (containers : List String) : Prop where
  source : pick.source ∈ fixedSources ++ ["facility", "priority", "container"]
  facility : pick.facility ∈ logFacilities
  priority : pick.priority ∈ logPriorities
  container : ∀ name ∈ pick.containerName, name ∈ containers
  named : "" ∉ containers
  lineCount : pick.lineCount ∈ lineCountOptions

/-- The journals of the router, what the page asks for, the answer on its way to each request, with
the journals it was read from, the last answer the page holds for each of the things it has asked
for, and the lines it shows. A page asks for one thing once at a time. -/
structure Page where
  journals : Journals
  params : GetLogsParams
  underway : GetLogsParams → Option (Journals × LogLines)
  cache : GetLogsParams → Option LogLines
  displayLines : List Line

inductive Event
  | written (path : List String) (lines : List Line)
  /-- Other controls or other containers; whether the last answer for them is still held. -/
  | picked (params : GetLogsParams) (kept : Bool)
  /-- The endpoint serves a request with these parameters, or VyOS refuses it. -/
  | served (params : GetLogsParams) (refusal : Option VyosError)
  /-- The answer to it arrives. -/
  | delivered (params : GetLogsParams)
  | clear

variable (commands : Journals → Show)

/-- The merge that an answer sets off. -/
def shownAfter (displayLines : List Line) (data : LogLines) : List Line :=
  lastLines maxDisplayLines (mergeLogLines displayLines data.lines)

/-- What a page that was just cleared shows of the answer it holds. -/
def shownFrom : Option LogLines → List Line
  | none => []
  | some data => shownAfter [] data

/-- What has been written of a log, if only to nothing yet. -/
def linesOf (journals : Journals) (path : List String) : List Line := (journals path).getD []

namespace Page

def initial (journals : Journals) (params : GetLogsParams) : Page :=
  ⟨journals, params, fun _ => none, fun _ => none, []⟩

def picked (page : Page) (params : GetLogsParams) (kept : Bool) : Page :=
  if params = page.params then page
  else
    let held := if kept then page.cache params else none
    { page with
      params := params
      cache := Function.update page.cache params held
      displayLines := shownFrom held }

/-- What the endpoint answers a request with now. -/
def fetch (page : Page) (params : GetLogsParams) (refusal : Option VyosError) :
    Except Refusal LogLines :=
  match refusal with
  | none => handleLogs (commands page.journals) (getLogs params)
  | some e => handleLogs (fun _ => .error e) (getLogs params)

/-- A refusal changes nothing on the page. -/
def served (page : Page) (params : GetLogsParams) (refusal : Option VyosError) : Page :=
  match page.fetch commands params refusal with
  | .error _ => { page with underway := Function.update page.underway params none }
  | .ok data =>
      { page with underway := Function.update page.underway params (some (page.journals, data)) }

/-- An answer to an earlier pick is held for when it is picked again, and not shown. -/
def delivered (page : Page) (params : GetLogsParams) : Page :=
  match page.underway params with
  | none => page
  | some (_, data) =>
      { page with
        underway := Function.update page.underway params none
        cache := Function.update page.cache params (some data)
        displayLines :=
          if params = page.params then shownAfter page.displayLines data else page.displayLines }

def step (page : Page) : Event → Page
  | .written path lines =>
      { page with
        journals := Function.update page.journals path (some (linesOf page.journals path ++ lines)) }
  | .picked params kept => page.picked params kept
  | .served params refusal => page.served commands params refusal
  | .delivered params => page.delivered params
  | .clear => { page with displayLines := [] }

end Page

/-- Each line of a journal starts with its time, so none is blank, and no two are the same. -/
structure Journal (log : List Line) : Prop where
  noNewline : ∀ line ∈ log, '\n' ∉ line
  stamped : [] ∉ log
  nodup : log.Nodup

theorem journal_nil : Journal [] := ⟨fun _ h => (nomatch h), List.not_mem_nil, List.nodup_nil⟩

/-- The journals of a router, the one of the system among them. -/
structure Stamped (journals : Journals) : Prop where
  system : ∃ log, journals ["log"] = some log
  journal : ∀ path log, journals path = some log → Journal log

/-- What is written leaves the journal one, and may start it. -/
def Writes (page : Page) : Event → Prop
  | .written path lines => Journal (linesOf page.journals path ++ lines)
  | _ => True

/-- Lines that were the end of this log at some earlier time. -/
def Block (shown log : List Line) : Prop := ∃ seen, shown <:+ seen ∧ seen <+: log

/-- The same, with at least the newest line of that time. -/
def Window (shown log : List Line) : Prop :=
  ∃ seen, shown <:+ seen ∧ (shown = [] → seen = []) ∧ seen <+: log

/-- The data of an answer: the end of the log that is asked for. -/
def Answers (journals : Journals) (params : GetLogsParams) (data : LogLines) : Prop :=
  ∀ path, Names (getLogs params) path → ∃ log, journals path = some log ∧
    data.lines = lastLines (getLogs params).lines log

/-- An answer on its way was read after everything that the page holds or shows of its log. -/
structure Underway (page : Page) (params : GetLogsParams) (journals : Journals) (data : LogLines) :
    Prop where
  stamped : Stamped journals
  grows : ∀ path, linesOf journals path <+: linesOf page.journals path
  answers : Answers journals params data
  cached : ∀ cached, page.cache params = some cached → ∀ path, Names (getLogs params) path →
    Window cached.lines (linesOf journals path)
  display : params = page.params → ∀ path, Names (getLogs params) path →
    Block page.displayLines (linesOf journals path)

/-- What every run keeps. -/
structure Shows (page : Page) : Prop where
  stamped : Stamped page.journals
  display : ∀ path, Names (getLogs page.params) path →
    Block page.displayLines (linesOf page.journals path)
  cached : ∀ params data, page.cache params = some data → ∀ path, Names (getLogs params) path →
    Window data.lines (linesOf page.journals path)
  underway : ∀ params journals data, page.underway params = some (journals, data) →
    Underway page params journals data

section Blocks

variable {shown log log' : List Line}

theorem block_nil (log : List Line) : Block [] log := ⟨[], List.suffix_rfl, List.nil_prefix⟩

theorem Block.isInfix (h : Block shown log) : shown <:+: log := by
  obtain ⟨seen, hshown, hseen⟩ := h
  exact hshown.isInfix.trans hseen.isInfix

theorem Block.mono (h : Block shown log) (hgrows : log <+: log') : Block shown log' := by
  obtain ⟨seen, hshown, hseen⟩ := h
  exact ⟨seen, hshown, hseen.trans hgrows⟩

theorem Window.mono (h : Window shown log) (hgrows : log <+: log') : Window shown log' := by
  obtain ⟨seen, hshown, hnewest, hseen⟩ := h
  exact ⟨seen, hshown, hnewest, hseen.trans hgrows⟩

/-- Merged onto a block that was shown earlier, the end of the log is shown live. -/
theorem shownAfter_suffix {data : LogLines} (hblock : Block shown log) (hnodup : log.Nodup)
    (hend : data.lines <:+ log) (hnewest : data.lines = [] → log = []) :
    LiveTail log (shownAfter shown data) := by
  obtain ⟨seen, hshown, hseen⟩ := hblock
  obtain ⟨hmerge, hmerged⟩ := mergeLogLines_suffix hshown hseen hnodup hend hnewest
  have hsuffix := (lastLines_suffix maxDisplayLines _).trans hmerge
  refine ⟨hsuffix, ?_, hnodup.sublist hsuffix.sublist, length_lastLines_le _ _⟩
  exact getLast?_of_suffix hsuffix fun hnil =>
    hmerged (eq_nil_of_lastLines maxDisplayLines_pos hnil)

theorem block_shownAfter {data : LogLines} (hwindow : Window data.lines log) (hnodup : log.Nodup) :
    Block (shownAfter [] data) log := by
  obtain ⟨seen, hend, hnewest, hseen⟩ := hwindow
  exact ⟨seen, (shownAfter_suffix (block_nil seen) (hnodup.sublist hseen.sublist) hend
    hnewest).suffix, hseen⟩

theorem block_shownFrom {held : Option LogLines}
    (hwindow : ∀ data, held = some data → Window data.lines log) (hnodup : log.Nodup) :
    Block (shownFrom held) log := by
  cases held with
  | none => exact block_nil log
  | some data => exact block_shownAfter (hwindow data rfl) hnodup

/-- A merge loses no line of the answer. -/
theorem length_le_mergeLogLines (previous next : List Line) :
    next.length ≤ (mergeLogLines previous next).length := by
  rcases mergeLogLines_cases previous next with hmerge | ⟨k, -, hk, hoverlap, hmerge⟩
  · rw [hmerge]
  · have hle := hoverlap.length_le
    rw [List.length_take] at hle
    rw [hmerge, List.length_append, List.length_drop]
    omega

theorem length_shownAfter {data : LogLines} (h : data.lines.length ≤ maxDisplayLines)
    (shown : List Line) : data.lines.length ≤ (shownAfter shown data).length := by
  have hmerge := length_le_mergeLogLines shown data.lines
  unfold shownAfter
  rw [lastLines, List.length_drop]
  omega

end Blocks

section Steps

variable {commands} {page : Page} {journals : Journals} {params : GetLogsParams} {data : LogLines}

/-- What the commands of the router print. -/
def PrintsJournals (commands : Journals → Show) : Prop :=
  ∀ journals, Stamped journals → Prints (commands journals) journals

theorem linesOf_eq {path : List String} {log : List Line} (h : journals path = some log) :
    linesOf journals path = log := by
  rw [linesOf, h]
  rfl

theorem Stamped.lines (h : Stamped journals) (path : List String) :
    Journal (linesOf journals path) := by
  cases hlog : journals path with
  | none =>
    rw [linesOf, hlog]
    exact journal_nil
  | some log =>
    rw [linesOf_eq hlog]
    exact h.journal path log hlog

/-- An answer is an end of the log it was read from, with its newest line. -/
theorem Answers.suffix (h : Answers journals params data) {path : List String}
    (hnames : Names (getLogs params) path) :
    data.lines <:+ linesOf journals path ∧ (data.lines = [] → linesOf journals path = []) := by
  obtain ⟨log, hlog, hlines⟩ := h path hnames
  rw [linesOf_eq hlog, hlines]
  exact ⟨lastLines_suffix _ _, eq_nil_of_lastLines (one_le_lines _).1⟩

theorem shows_initial (hstamped : Stamped journals) (params : GetLogsParams) :
    Shows (Page.initial journals params) where
  stamped := hstamped
  display _ _ := block_nil _
  cached _ _ h := nomatch h
  underway _ _ _ h := nomatch h

theorem linesOf_written (page : Page) (path : List String) (lines : List Line)
    (path' : List String) : linesOf (page.step commands (.written path lines)).journals path' =
      if path' = path then linesOf page.journals path ++ lines else linesOf page.journals path' := by
  show (Function.update page.journals path _ path').getD [] = _
  by_cases hpath : path' = path
  · subst hpath
    rw [Function.update_self, if_pos rfl]
    rfl
  · rw [Function.update_of_ne hpath, if_neg hpath]
    rfl

theorem prefix_written (page : Page) (path : List String) (lines : List Line)
    (path' : List String) : linesOf page.journals path' <+:
      linesOf (page.step commands (.written path lines)).journals path' := by
  rw [linesOf_written]
  split
  · rename_i hpath
    rw [hpath]
    exact List.prefix_append _ _
  · exact List.prefix_rfl

theorem stamped_written (h : Stamped page.journals) (path : List String) {lines : List Line}
    (hwrites : Journal (linesOf page.journals path ++ lines)) :
    Stamped (page.step commands (.written path lines)).journals where
  system := by
    show ∃ log, Function.update page.journals path _ ["log"] = some log
    by_cases hpath : ["log"] = path
    · exact ⟨_, by rw [hpath, Function.update_self]⟩
    · rw [Function.update_of_ne hpath]
      exact h.system
  journal path' log hlog := by
    by_cases hpath : path' = path
    · subst hpath
      rw [← linesOf_eq hlog, linesOf_written, if_pos rfl]
      exact hwrites
    · refine h.journal path' log ?_
      rw [← hlog]
      exact (Function.update_of_ne hpath _ _).symm

theorem shows_written (h : Shows page) (path : List String) {lines : List Line}
    (hwrites : Journal (linesOf page.journals path ++ lines)) :
    Shows (page.step commands (.written path lines)) := by
  have hgrows (path' : List String) : linesOf page.journals path' <+:
      linesOf (page.step commands (.written path lines)).journals path' :=
    prefix_written page path lines path'
  refine ⟨stamped_written h.stamped path hwrites,
    fun path' hnames => (h.display path' hnames).mono (hgrows path'),
    fun params data hdata path' hnames =>
      (h.cached params data hdata path' hnames).mono (hgrows path'),
    fun params journals data hdata => ?_⟩
  obtain ⟨hstamped, hread, hanswers, hcached, hdisplay⟩ := h.underway params journals data hdata
  exact ⟨hstamped, fun path' => (hread path').trans (hgrows path'), hanswers, hcached, hdisplay⟩

/-- What is held of a pick was held before. -/
theorem cache_picked {kept : Bool} {held : Option LogLines}
    (hheld : held = if kept then page.cache params else none) {params' : GetLogsParams}
    (hdata : Function.update page.cache params held params' = some data) :
    page.cache params' = some data := by
  by_cases hparams : params' = params
  · subst hparams
    rw [Function.update_self, hheld] at hdata
    split at hdata
    · exact hdata
    · exact nomatch hdata
  · rwa [Function.update_of_ne hparams] at hdata

theorem shows_picked (h : Shows page) (params : GetLogsParams) (kept : Bool) :
    Shows (page.picked params kept) := by
  unfold Page.picked
  split
  · exact h
  rename_i hother
  dsimp only
  generalize hkept : (if kept then page.cache params else none) = held
  have hcached {params' : GetLogsParams} {data : LogLines}
      (hdata : Function.update page.cache params held params' = some data) :
      page.cache params' = some data := cache_picked hkept.symm hdata
  have hheld {data : LogLines} (hsome : held = some data) : page.cache params = some data :=
    hcached (hsome ▸ Function.update_self _ _ _)
  refine ⟨h.stamped, fun path hnames => ?_,
    fun params' data hdata path hnames => h.cached params' data (hcached hdata) path hnames,
    fun params' journals data hdata => ?_⟩
  · exact block_shownFrom (fun data hsome => h.cached params data (hheld hsome) path hnames)
      (h.stamped.lines path).nodup
  · have hunderway := h.underway params' journals data hdata
    refine ⟨hunderway.stamped, hunderway.grows, hunderway.answers,
      fun cached hc path hnames => hunderway.cached cached (hcached hc) path hnames,
      fun hcurrent path hnames => ?_⟩
    obtain rfl : params' = params := hcurrent
    exact block_shownFrom (fun data hsome => hunderway.cached data (hheld hsome) path hnames)
      (hunderway.stamped.lines path).nodup

/-- What the endpoint answers is read from the journals as they are now. -/
theorem fetch_ok (hcommands : PrintsJournals commands) (h : Stamped page.journals)
    {refusal : Option VyosError} (hdata : page.fetch commands params refusal = .ok data) :
    Answers page.journals params data := by
  intro path hnames
  have hprints := hcommands page.journals h
  cases refusal with
  | some e =>
    obtain ⟨refusal, hrefusal⟩ := handleLogs_of_error e (getLogs params)
    exact nomatch hrefusal.symm.trans hdata
  | none =>
    cases hlog : page.journals path with
    | none =>
      obtain ⟨e, -, hrefused⟩ := handleLogs_of_missing hprints hnames hlog
      exact nomatch hrefused.symm.trans hdata
    | some log =>
      obtain ⟨shown, hshown, hend⟩ := handleLogs_of_names hprints hnames hlog
      obtain rfl := Except.ok.inj (hshown.symm.trans hdata)
      have hlines := hend.lines_eq
      rw [readable_of_notMem (h.journal path log hlog).stamped] at hlines
      exact ⟨log, rfl, hlines⟩

theorem shows_served (hcommands : PrintsJournals commands) (h : Shows page)
    (params : GetLogsParams) (refusal : Option VyosError) :
    Shows (page.served commands params refusal) := by
  have hrest {answer : Option (Journals × LogLines)}
      (hnew : ∀ journals data, answer = some (journals, data) → Underway page params journals data) :
      Shows { page with underway := Function.update page.underway params answer } := by
    refine ⟨h.stamped, h.display, h.cached, fun params' journals data hdata => ?_⟩
    dsimp only at hdata
    have hunderway : Underway page params' journals data := by
      by_cases hparams : params' = params
      · subst hparams
        rw [Function.update_self] at hdata
        exact hnew journals data hdata
      · rw [Function.update_of_ne hparams] at hdata
        exact h.underway params' journals data hdata
    exact ⟨hunderway.stamped, hunderway.grows, hunderway.answers, hunderway.cached,
      hunderway.display⟩
  unfold Page.served
  cases hfetch : page.fetch commands params refusal with
  | error e => exact hrest fun _ _ hnone => nomatch hnone
  | ok data =>
    refine hrest fun journals data' hsome => ?_
    obtain ⟨rfl, rfl⟩ := Prod.mk.inj (Option.some.inj hsome)
    refine ⟨h.stamped, fun path => List.prefix_rfl, fetch_ok hcommands h.stamped hfetch,
      fun cached hcached path hnames => h.cached params cached hcached path hnames, ?_⟩
    rintro rfl
    exact h.display

/-- Merged onto what is shown, an answer to the current pick is shown live, as of when it was
read. -/
theorem Underway.liveTail (h : Underway page page.params journals data) {path : List String}
    (hnames : Names (getLogs page.params) path) :
    LiveTail (linesOf journals path) (shownAfter page.displayLines data) := by
  obtain ⟨hend, hnewest⟩ := h.answers.suffix hnames
  exact shownAfter_suffix (h.display rfl path hnames) (h.stamped.lines path).nodup hend hnewest

theorem shows_delivered (h : Shows page) (params : GetLogsParams) :
    Shows (page.delivered params) := by
  unfold Page.delivered
  split
  · exact h
  rename_i journals data hdata
  have hunderway := h.underway params journals data hdata
  refine ⟨h.stamped, fun path hnames => ?_, fun params' data' hdata' path hnames => ?_,
    fun params' journals' data' hdata' => ?_⟩
  · dsimp only at hnames ⊢
    split
    · rename_i hparams
      subst hparams
      exact ⟨_, (hunderway.liveTail hnames).suffix, hunderway.grows path⟩
    · exact h.display path hnames
  · dsimp only at hdata'
    by_cases hparams : params' = params
    · subst hparams
      rw [Function.update_self] at hdata'
      obtain rfl := Option.some.inj hdata'
      obtain ⟨hend, hnewest⟩ := hunderway.answers.suffix hnames
      exact ⟨_, hend, hnewest, hunderway.grows path⟩
    · rw [Function.update_of_ne hparams] at hdata'
      exact h.cached params' data' hdata' path hnames
  · dsimp only at hdata'
    by_cases hparams : params' = params
    · subst hparams
      rw [Function.update_self] at hdata'
      exact nomatch hdata'
    rw [Function.update_of_ne hparams] at hdata'
    have hother := h.underway params' journals' data' hdata'
    refine ⟨hother.stamped, hother.grows, hother.answers, fun cached hcached => ?_,
      fun hcurrent => ?_⟩
    · dsimp only at hcached
      rw [Function.update_of_ne hparams] at hcached
      exact hother.cached cached hcached
    · dsimp only at hcurrent ⊢
      rw [if_neg fun heq => hparams (hcurrent.trans heq.symm)]
      exact hother.display hcurrent

theorem shows_clear (h : Shows page) : Shows (page.step commands .clear) := by
  refine ⟨h.stamped, fun path _ => block_nil _, h.cached, fun params journals data hdata => ?_⟩
  have hunderway := h.underway params journals data hdata
  exact ⟨hunderway.stamped, hunderway.grows, hunderway.answers, hunderway.cached,
    fun _ _ _ => block_nil _⟩

theorem shows_step (hcommands : PrintsJournals commands) (page : Page) (e : Event) (h : Shows page)
    (hwrites : Writes page e) : Shows (page.step commands e) := by
  cases e with
  | written path lines => exact shows_written h path hwrites
  | picked params kept => exact shows_picked h params kept
  | served params refusal => exact shows_served hcommands h params refusal
  | delivered params => exact shows_delivered h params
  | clear => exact shows_clear h

end Steps

section Picks

/-- The endpoint reads each parameter as the page gave it, and one left out as empty. -/
theorem get_getLogs (params : GetLogsParams) :
    (getLogs params).get "source" = params.source ∧
      (getLogs params).get "facility" = params.facility.getD "" ∧
      (getLogs params).get "priority" = params.priority.getD "" ∧
      (getLogs params).get "container" = params.container.getD "" ∧
      (getLogs params).get "lines" = (params.lines.map fun n => toString (n : ℤ)).getD "" := by
  obtain ⟨source, facility, priority, container, lines⟩ := params
  cases facility <;> cases priority <;> cases container <;> cases lines <;>
    exact ⟨rfl, rfl, rfl, rfl, rfl⟩

variable {pick : Pick} {containers : List String}

/-- Everything the controls offer names a log, unless there is no container to name. -/
theorem names_params (h : pick.Offered containers)
    (hcontainer : pick.source = "container" → containers ≠ []) :
    ∃ path, Names (getLogs (pick.params containers)) path := by
  obtain ⟨hsource, hfacility, hpriority, hname, -⟩ := get_getLogs (pick.params containers)
  have hsource : (getLogs (pick.params containers)).get "source" = pick.source := hsource
  rcases List.mem_append.mp h.source with hfixed | hnamed
  · have hpaths : ∀ name ∈ fixedSources, name = "system" ∨ ∃ entry ∈ fixedLogSources,
        entry.1 = name := by decide
    rcases hpaths _ hfixed with hsystem | ⟨⟨name, path⟩, hentry, rfl⟩
    · exact ⟨_, .system (hsource.trans hsystem)⟩
    · exact ⟨path, .fixed (by rw [hsource]; exact hentry)⟩
  · simp only [List.mem_cons, List.not_mem_nil, or_false] at hnamed
    rcases hnamed with hby | hby | hby
    · refine ⟨_, .facility (hsource.trans hby) ?_⟩
      rw [hfacility, Pick.params, if_pos hby]
      exact h.facility
    · refine ⟨_, .priority (hsource.trans hby) ?_⟩
      rw [hpriority, Pick.params, if_pos hby]
      exact h.priority
    · refine ⟨_, .container (hsource.trans hby) ?_⟩
      rw [hname, Pick.params, if_pos hby]
      cases hpicked : pick.containerName with
      | some name => exact fun hempty => h.named (hempty ▸ h.container name hpicked)
      | none =>
        obtain ⟨first, rest, hfirst⟩ := List.exists_cons_of_ne_nil (hcontainer hby)
        rw [hfirst]
        exact fun hempty => h.named (by rw [hfirst, ← hempty]; exact List.mem_cons_self)

/-- A pick is answered with as many lines as it asks for. -/
theorem lines_params (h : pick.Offered containers) :
    (getLogs (pick.params containers)).lines = pick.lineCount := by
  have hbounds : ∀ n ∈ lineCountOptions, 1 ≤ n ∧ n ≤ 5000 := by decide
  obtain ⟨hpos, hmax⟩ := hbounds _ h.lineCount
  obtain ⟨-, -, -, -, hlines⟩ := get_getLogs (pick.params containers)
  have hlines : (getLogs (pick.params containers)).get "lines" = toString (pick.lineCount : ℤ) :=
    hlines
  rw [Query.lines, hlines, parseLogLines_toString hpos hmax, Int.toNat_natCast]

end Picks

section Runs

variable {commands} {page : Page} {path : List String} {log : List Line}

/-- An answer to the current pick makes the display an end of its log as it was when the answer was
read, with all lines that were asked for. -/
theorem liveTail_delivered (h : Shows page) (hnames : Names (getLogs page.params) path)
    {journals : Journals} {data : LogLines}
    (hdata : page.underway page.params = some (journals, data)) :
    ∃ log, journals path = some log ∧ log <+: linesOf page.journals path ∧
      LiveTail log (page.delivered page.params).displayLines ∧
      min (getLogs page.params).lines log.length ≤
        (page.delivered page.params).displayLines.length := by
  have hunderway := h.underway _ _ _ hdata
  obtain ⟨log, hlog, hlines⟩ := hunderway.answers path hnames
  have hlive := hunderway.liveTail hnames
  have hgrows := hunderway.grows path
  rw [linesOf_eq hlog] at hlive hgrows
  have hshown : (page.delivered page.params).displayLines = shownAfter page.displayLines data := by
    rw [Page.delivered, hdata]
    exact if_pos rfl
  have hlength : data.lines.length = min (getLogs page.params).lines log.length := by
    rw [hlines, lastLines, List.length_drop]
    omega
  have hwindow : data.lines.length ≤ maxDisplayLines := by
    have hmax : (getLogs page.params).lines ≤ maxDisplayLines := (one_le_lines _).2
    omega
  rw [hshown]
  exact ⟨log, hlog, hgrows, hlive, hlength ▸ length_shownAfter hwindow page.displayLines⟩

/-- The endpoint serves a log that the router has, from its journals as they are. -/
theorem underway_served (hcommands : PrintsJournals commands) (h : Shows page)
    {params : GetLogsParams} (hnames : Names (getLogs params) path)
    (hlog : page.journals path = some log) :
    ∃ data, (page.served commands params none).underway params = some (page.journals, data) := by
  obtain ⟨data, hdata, -⟩ :=
    handleLogs_of_names (hcommands page.journals h.stamped) hnames hlog
  have hfetch : page.fetch commands params none = .ok data := hdata
  refine ⟨data, ?_⟩
  rw [Page.served, hfetch]
  exact Function.update_self _ _ _

/-- Of a log the router has not, no answer is on its way. -/
theorem underway_missing (hcommands : PrintsJournals commands) (h : Shows page)
    {params : GetLogsParams} (hnames : Names (getLogs params) path)
    (hlog : page.journals path = none) (refusal : Option VyosError) :
    (page.served commands params refusal).underway params = none := by
  unfold Page.served
  cases hfetch : page.fetch commands params refusal with
  | error e => exact Function.update_self _ _ _
  | ok data =>
    obtain ⟨log, hsome, -⟩ := fetch_ok hcommands h.stamped hfetch path hnames
    rw [hlog] at hsome
    exact nomatch hsome

/-- However journals grow that never hold a line twice or a blank one, controls are used, requests
are served and answers arrive, late or not at all: what the page shows is a block of the log that is
picked. For all that the controls offer, an answer to the current pick makes it an end of the log as
it was when the answer was read, with as many lines as were asked for; the endpoint gives such an
answer for each log that the router has, and none for a container that does not exist. -/
theorem page_shows_log (hcommands : PrintsJournals commands) {journals : Journals}
    (hjournals : Stamped journals) (params : GetLogsParams) (events : List Event)
    (h : Guarded (Page.step commands) Writes (Page.initial journals params) events) :
    let page := events.foldl (Page.step commands) (Page.initial journals params)
    (∀ path, Names (getLogs page.params) path →
      page.displayLines <:+: linesOf page.journals path) ∧
      ∀ (pick : Pick) (containers : List String), pick.Offered containers →
        (pick.source = "container" → containers ≠ []) → page.params = pick.params containers →
        ∃ path, Names (getLogs page.params) path ∧
          (∀ journals data, page.underway page.params = some (journals, data) →
            ∃ log, journals path = some log ∧ log <+: linesOf page.journals path ∧
              LiveTail log (page.step commands (.delivered page.params)).displayLines ∧
              min pick.lineCount log.length ≤
                (page.step commands (.delivered page.params)).displayLines.length) ∧
          (∀ log, page.journals path = some log → ∃ data,
            (page.step commands (.served page.params none)).underway page.params =
              some (page.journals, data)) ∧
          (page.journals path = none → ∀ refusal,
            (page.step commands (.served page.params refusal)).underway page.params = none) := by
  intro page
  have hshows : Shows page := forall_trail_of_guarded (shows_step hcommands)
    (shows_initial hjournals params) h _ (foldl_mem_trail _ events)
  refine ⟨fun path hnames => (hshows.display path hnames).isInfix,
    fun pick containers hoffered hcontainer hparams => ?_⟩
  obtain ⟨path, hnames⟩ := names_params hoffered hcontainer
  have hlines := lines_params hoffered
  rw [← hparams] at hnames hlines
  exact ⟨path, hnames, fun _ _ hdata => hlines ▸ liveTail_delivered hshows hnames hdata,
    fun log hlog => underway_served hcommands hshows hnames hlog,
    fun hlog => underway_missing hcommands hshows hnames hlog⟩

end Runs

theorem printsJournals_printJournals : PrintsJournals printJournals := by
  intro journals h
  obtain ⟨log, hlog⟩ := h.system
  exact prints_printJournals (fun path log hlog => (h.journal path log hlog).noNewline) hlog
    (h.journal _ log hlog).stamped

def sshPick : Pick := ⟨"ssh", "kern", "emerg", none, 100⟩

def sshEvents : List Event :=
  [.written ["log", "ssh"] ["Jan 1 start".toList],
    .served (sshPick.params []) none, .delivered (sshPick.params []),
    .picked (sshPick.params []) true,
    .written ["log", "ssh"] ["Jan 2 login".toList],
    .served (sshPick.params []) none,
    .written ["log", "ssh"] ["Jan 3 logout".toList]]

theorem path_of_sshPick {path : List String} (h : Names (getLogs (sshPick.params [])) path) :
    path = ["log", "ssh"] := by
  have hsource : (getLogs (sshPick.params [])).get "source" = "ssh" := rfl
  cases h with
  | fixed hfixed =>
    rw [hsource] at hfixed
    simpa [fixedLogSources] using hfixed
  | system hother => exact absurd (hsource.symm.trans hother) (by decide)
  | facility hother => exact absurd (hsource.symm.trans hother) (by decide)
  | priority hother => exact absurd (hsource.symm.trans hother) (by decide)
  | container hother => exact absurd (hsource.symm.trans hother) (by decide)

/-- No journal but that of the system, which is empty. -/
def bootJournals : Journals
  | ["log"] => some []
  | _ => none

theorem stamped_bootJournals : Stamped bootJournals where
  system := ⟨[], rfl⟩
  journal path log h := by
    unfold bootJournals at h
    split at h
    · obtain rfl := Option.some.inj h
      exact journal_nil
    · cases h

/-- The page of the session below, which starts with the system log. -/
def bootPage : Page := Page.initial bootJournals ⟨"system", none, none, none, some 500⟩

/-- The page turns to the SSH log with an answer it holds. The next answer is read, and a line is
written before it arrives: two of the three lines are shown. -/
theorem page_shows_ssh :
    let page := sshEvents.foldl (Page.step printJournals) bootPage
    page.displayLines = ["Jan 1 start".toList] ∧
      LiveTail ["Jan 1 start".toList, "Jan 2 login".toList]
        (page.step printJournals (.delivered (sshPick.params []))).displayLines := by
  intro page
  have hshown := page_shows_log printsJournals_printJournals stamped_bootJournals
    ⟨"system", none, none, none, some 500⟩ sshEvents
    ⟨⟨by decide, by decide, by decide⟩, trivial, trivial, trivial,
      ⟨by decide, by decide, by decide⟩, trivial, ⟨by decide, by decide, by decide⟩, trivial⟩
  obtain ⟨path, hnames, hlive, -⟩ := hshown.2 sshPick []
    ⟨by decide, by decide, by decide, by simp [sshPick], by decide, by decide⟩
    (fun h => absurd h (by decide)) rfl
  obtain rfl := path_of_sshPick hnames
  obtain ⟨log, hlog, -, htail, -⟩ := hlive _ _ rfl
  obtain rfl := Option.some.inj hlog
  exact ⟨by decide +kernel, htail⟩

end VyosClient.LogsPage
