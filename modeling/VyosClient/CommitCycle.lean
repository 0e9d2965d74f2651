import VyosClient.PendingChanges

/-!
Committing a snapshot of the queue while more is being queued. The request
may be answered at once or open a window in which the commit has to be kept;
either way the snapshot leaves the queue by its identifiers and joins the
committed changes. What the edits queued meanwhile amount to is measured
against the queue they would have built on their own.
-/

namespace VyosClient.CommitCycle

open PathStore ConfigTrees ConfigTree Configure PendingChanges PendingChangesState Runs

/-- The commit that is under way, with the snapshot it was started for. -/
inductive Phase
  | idle
  | inFlight (committing : List PendingChange)
  | window (pendingCommitChanges : List PendingChange)
  deriving DecidableEq, Repr

structure Bar where
  pending : PendingChangesState
  committedChanges : List PendingChange
  phase : Phase

/-- `answered` and `refused` are the two outcomes of the commit request,
`keep` those of the request that confirms it. -/
inductive Event
  | add (op : ConfigOp) (label : String)
  | runCommit
  | answered (pendingConfirm : Bool)
  | refused
  | keep (confirmed : Bool)
  | expired

/-- Only what was committed leaves the queue. -/
def Bar.finish (bar : Bar) (committed : List PendingChange) : Bar where
  pending := bar.pending.removeMany (committed.map PendingChange.id)
  committedChanges := bar.committedChanges ++ committed
  phase := .idle

def step (bar : Bar) : Event → Bar
  | .add op label => { bar with pending := bar.pending.add op label }
  | .runCommit =>
      match bar.phase with
      | .idle =>
          if bar.pending.changes = [] then bar
          else { bar with phase := .inFlight bar.pending.changes }
      | _ => bar
  | .answered pendingConfirm =>
      match bar.phase with
      | .inFlight committing =>
          if pendingConfirm then { bar with phase := .window committing }
          else bar.finish committing
      | _ => bar
  | .refused =>
      match bar.phase with
      | .inFlight _ => { bar with phase := .idle }
      | _ => bar
  | .keep confirmed =>
      match bar.phase with
      | .window pendingCommitChanges =>
          if confirmed then bar.finish pendingCommitChanges else bar
      | _ => bar
  | .expired =>
      match bar.phase with
      | .window _ => { bar with phase := .idle }
      | _ => bar

def Event.added : Event → Option ConfigOp
  | .add op _ => some op
  | _ => none

def addedOps (es : List Event) : List ConfigOp := es.filterMap Event.added

/-- The events that leave a commit under way. -/
def Event.Waits : Event → Prop
  | .add _ _ => True
  | .answered pendingConfirm => pendingConfirm = true
  | .keep confirmed => confirmed = false
  | _ => False

/-- The event that ends the commit under way with success. -/
def Completes : Phase → Event → Prop
  | .inFlight _, .answered pendingConfirm => pendingConfirm = false
  | .window _, .keep confirmed => confirmed = true
  | _, _ => False

/-- No "Enable" takes back a deletion that is being committed. -/
def SparesSnapshot (snapshot : List PendingChange) (bar : Bar) : Event → Prop
  | .add op _ => ∀ i, cancelled bar.pending.ops op = some i →
      ∀ c ∈ snapshot, bar.pending.changes[i]? ≠ some c
  | _ => True

/-- The queue `own` that the later edits build alone, against the part `later`
of the real queue behind the snapshot: it may begin with one more entry, a
repetition of the last committed one. -/
def Lags (snapshot later own : List ConfigOp) : Prop :=
  ∃ older lead, snapshot = older ++ lead ∧ lead.length ≤ 1 ∧ own = lead ++ later

theorem lags_nil (snapshot : List ConfigOp) : Lags snapshot [] [] :=
  ⟨snapshot, [], by simp, by simp, rfl⟩

section Add

variable {snapshot later : List PendingChange} {own : List ConfigOp} {c : PendingChange}

theorem Lags.addTo (h : Lags (snapshot.map PendingChange.op) (later.map PendingChange.op) own)
    (hjoin : Faithful ((snapshot ++ later).map PendingChange.op ++ [c.op]))
    (hspare : ∀ i, cancelled ((snapshot ++ later).map PendingChange.op) c.op = some i →
      snapshot.length ≤ i) :
    ∃ later', addTo (snapshot ++ later) c = snapshot ++ later' ∧
      Lags (snapshot.map PendingChange.op) (later'.map PendingChange.op) (addOp own c.op) := by
  obtain ⟨older, lead, hsnap, hlead, rfl⟩ := h
  have hreal : (snapshot ++ later).map PendingChange.op =
      older ++ (lead ++ later.map PendingChange.op) := by
    rw [List.map_append, hsnap, List.append_assoc]
  have hlen : snapshot.length = older.length + lead.length := by
    simpa using congrArg List.length hsnap
  unfold PendingChanges.addTo addOp
  cases hrep : repeatsLast ((snapshot ++ later).map PendingChange.op) c.op with
  | true =>
    refine ⟨later, rfl, ?_⟩
    by_cases hown : lead ++ later.map PendingChange.op = []
    · obtain ⟨hnil, hlater⟩ := List.append_eq_nil_iff.mp hown
      subst hnil
      rw [hlater] at hreal ⊢
      rw [hreal] at hrep hjoin
      simp only [List.append_nil] at hrep hjoin hsnap
      obtain ⟨pre, hsplit⟩ := List.getLast?_eq_some_iff.mp (hjoin.getLast_eq hrep)
      refine ⟨pre, [c.op], by rw [hsnap, hsplit], by simp, ?_⟩
      simp [repeatsLast, cancelled, findLastIndex]
    · rw [hreal, repeatsLast_append older hown] at hrep
      rw [hrep]
      exact ⟨older, lead, hsnap, hlead, rfl⟩
  | false =>
    have hown : repeatsLast (lead ++ later.map PendingChange.op) c.op = false := by
      by_cases hne : lead ++ later.map PendingChange.op = []
      · rw [hne]
        rfl
      · rwa [hreal, repeatsLast_append older hne] at hrep
    rw [hown]
    simp only [Bool.false_eq_true, ↓reduceIte]
    have hspared : cancelled ((snapshot ++ later).map PendingChange.op) c.op =
        (cancelled (lead ++ later.map PendingChange.op) c.op).map (older.length + ·) := by
      rw [hreal] at hspare ⊢
      exact cancelled_append_of_le fun i hi => by
        have hbound := hspare i hi
        omega
    rw [hspared] at hspare ⊢
    cases hcan : cancelled (lead ++ later.map PendingChange.op) c.op with
    | none => exact ⟨later ++ [c], by simp, older, lead, hsnap, hlead, by simp⟩
    | some j =>
      have hbound := hspare (older.length + j) (by simp [hcan])
      have hj : lead.length ≤ j := by omega
      have hsub : older.length + j - snapshot.length = j - lead.length := by omega
      refine ⟨later.eraseIdx (j - lead.length), ?_, older, lead, hsnap, hlead, ?_⟩
      · simp only [Option.map_some]
        rw [List.eraseIdx_append_of_length_le hbound, hsub]
      · simp only
        rw [List.eraseIdx_append_of_length_le hj, List.eraseIdx_map]

end Add

/-- What the queue that the later edits build on their own amounts to. -/
theorem Lags.run_eq {snapshot later own : List ConfigOp} (h : Lags snapshot later own)
    (multi : Path → Bool) (s : Store String String) :
    run multi s (edits (snapshot ++ later)) = run multi s (edits (snapshot ++ own)) := by
  obtain ⟨older, lead, rfl, hlead, rfl⟩ := h
  have htwice : ∀ t : Store String String,
      run multi (run multi t (edits lead)) (edits lead) = run multi t (edits lead) := by
    intro t
    match lead, hlead with
    | [], _ => rfl
    | [op], _ =>
      cases he : op.toEdit with
      | none => simp [edits, he]
      | some e =>
        simp only [edits, List.filterMap_cons, he, List.filterMap_nil, run_cons, run_nil]
        exact apply_apply_self t e
  simp only [edits_append, run_append, htwice]

/-- A commit of `snapshot` is under way, and `added` was queued meanwhile. -/
structure UnderWay (snapshot committed : List PendingChange) (added : List ConfigOp)
    (bar : Bar) : Prop where
  phase : bar.phase = .inFlight snapshot ∨ bar.phase = .window snapshot
  committedChanges : bar.committedChanges = committed
  changes : ∃ later, bar.pending.changes = snapshot ++ later ∧
    Lags (snapshot.map PendingChange.op) (later.map PendingChange.op) (added.foldl addOp [])

section UnderWay

variable {snapshot committed : List PendingChange} {added : List ConfigOp} {bar : Bar}

theorem UnderWay.add (h : UnderWay snapshot committed added bar) {op : ConfigOp} {label : String}
    (hspare : SparesSnapshot snapshot bar (.add op label))
    (hjoin : Faithful (bar.pending.ops ++ [op])) :
    UnderWay snapshot committed (added ++ [op]) (step bar (.add op label)) := by
  obtain ⟨later, hchanges, hlags⟩ := h.changes
  have hops : bar.pending.ops = (snapshot ++ later).map PendingChange.op := by
    rw [PendingChangesState.ops, hchanges]
  have hbound : ∀ i, cancelled ((snapshot ++ later).map PendingChange.op) op = some i →
      snapshot.length ≤ i := by
    intro i hi
    by_contra hlt
    rw [← hops] at hi
    have hi' : i < snapshot.length := by omega
    have hget : bar.pending.changes[i]? = some snapshot[i] := by
      rw [hchanges, List.getElem?_append_left hi', List.getElem?_eq_getElem hi']
    exact hspare i hi _ (List.getElem_mem hi') hget
  obtain ⟨later', hadd, hlags'⟩ :=
    hlags.addTo (c := ⟨bar.pending.issued, op, label⟩) (hops ▸ hjoin) hbound
  refine ⟨h.phase, h.committedChanges, later', ?_, ?_⟩
  · rw [← hadd, ← hchanges]
    rfl
  · rw [List.foldl_append]
    exact hlags'

theorem Event.Waits.cases {e : Event} (hwait : e.Waits) :
    (∃ op label, e = .add op label) ∨ e = .answered true ∨ e = .keep false := by
  cases e with
  | add op label => exact Or.inl ⟨op, label, rfl⟩
  | answered pendingConfirm =>
    have htrue : pendingConfirm = true := hwait
    exact Or.inr (Or.inl (by rw [htrue]))
  | keep confirmed =>
    have hfalse : confirmed = false := hwait
    exact Or.inr (Or.inr (by rw [hfalse]))
  | runCommit => exact absurd hwait id
  | refused => exact absurd hwait id
  | expired => exact absurd hwait id

theorem ops_step_subset (bar : Bar) {e : Event} (hwait : e.Waits) :
    (step bar e).pending.ops ⊆ bar.pending.ops ++ e.added.toList := by
  obtain ⟨op, label, rfl⟩ | rfl | rfl := hwait.cases
  · intro o ho
    exact (addOp_sublist _ _).subset (ops_add bar.pending op label ▸ ho)
  · unfold step
    cases bar.phase <;> simp
  · unfold step
    cases bar.phase <;> simp

/-- What waiting keeps. -/
theorem UnderWay.preserved (h : UnderWay snapshot committed added bar) {e : Event} (hwait : e.Waits)
    (hspare : SparesSnapshot snapshot bar e)
    (hjoin : Faithful (bar.pending.ops ++ e.added.toList)) :
    UnderWay snapshot committed (added ++ e.added.toList) (step bar e) := by
  obtain ⟨op, label, rfl⟩ | rfl | rfl := hwait.cases
  · exact h.add hspare hjoin
  · rcases h.phase with hphase | hphase
    · refine ⟨?_, ?_, ?_⟩ <;> simp [step, hphase, Event.added, h.committedChanges,
        h.changes]
    · simpa [step, hphase, Event.added] using h
  · rcases h.phase with hphase | hphase <;>
      simpa [step, hphase, Event.added] using h

theorem UnderWay.after (h : UnderWay snapshot committed added bar) {es : List Event}
    (hwait : ∀ e ∈ es, e.Waits) (hspare : Guarded step (SparesSnapshot snapshot) bar es)
    (hjoin : Faithful (bar.pending.ops ++ addedOps es)) :
    UnderWay snapshot committed (added ++ addedOps es) (es.foldl step bar) := by
  induction es generalizing bar added with
  | nil => simpa [addedOps] using h
  | cons e es ih =>
    have hadded : addedOps (e :: es) = e.added.toList ++ addedOps es := by
      unfold addedOps
      rw [List.filterMap_cons]
      cases e.added <;> rfl
    rw [hadded] at hjoin ⊢
    have hhead : Faithful (bar.pending.ops ++ e.added.toList) := hjoin.subset (by simp)
    have hnext := h.preserved (hwait e List.mem_cons_self) hspare.1 hhead
    have hsub : (step bar e).pending.ops ++ addedOps es ⊆
        bar.pending.ops ++ (e.added.toList ++ addedOps es) := by
      intro o ho
      rcases List.mem_append.mp ho with ho | ho
      · have hmem := ops_step_subset bar (hwait e List.mem_cons_self) ho
        rw [← List.append_assoc]
        exact List.mem_append_left _ hmem
      · simp [ho]
    rw [← List.append_assoc]
    exact ih hnext (fun e' he' => hwait e' (List.mem_cons_of_mem _ he')) hspare.2
      (hjoin.subset hsub)

/-- Success hands over exactly the snapshot and keeps exactly the rest. -/
theorem UnderWay.completed (h : UnderWay snapshot committed added bar) {last : Event}
    (hdone : Completes bar.phase last) :
    (step bar last).committedChanges = committed ++ snapshot ∧
      Lags (snapshot.map PendingChange.op) (step bar last).pending.ops
        (added.foldl addOp []) := by
  have hstep : step bar last = bar.finish snapshot := by
    rcases h.phase with hphase | hphase <;> rw [hphase] at hdone <;>
      cases last <;> first | exact absurd hdone id | simp_all [step, Completes]
  obtain ⟨later, hchanges, hlags⟩ := h.changes
  have hids : ((snapshot ++ later).map PendingChange.id).Nodup := hchanges ▸ bar.pending.nodup
  rw [List.map_append, List.nodup_append] at hids
  have hrest : (bar.finish snapshot).pending.changes = later := by
    have hgone : snapshot.filter (fun c => c.id ∉ snapshot.map PendingChange.id) = [] := by
      rw [List.filter_eq_nil_iff]
      intro c hc
      simpa using ⟨c, hc, rfl⟩
    have hkept : later.filter (fun c => c.id ∉ snapshot.map PendingChange.id) = later := by
      rw [List.filter_eq_self]
      intro c hc
      have hnot : c.id ∉ snapshot.map PendingChange.id := fun hmem =>
        hids.2.2 c.id hmem c.id (List.mem_map_of_mem hc) rfl
      simpa using hnot
    simp only [Bar.finish, removeMany, keep, hchanges, List.filter_append, hgone, hkept,
      List.nil_append]
  rw [hstep]
  refine ⟨by rw [← h.committedChanges]; rfl, ?_⟩
  rwa [PendingChangesState.ops, hrest]

end UnderWay

/-- Commit the queue, let any edits be queued until it succeeds (at once, or
when the window it opened is confirmed), and apply what is left on top of the
committed configuration. The result is that of the committed queue followed by
the queue the edits would have built on their own: the edits in order, without
the deletions that a later "Enable" took back. Every committed change is
recorded once. -/
theorem commit_keeps_edits (S : Schema) (base : ConfigTree) {bar : Bar}
    (hidle : bar.phase = .idle) (hqueued : bar.pending.changes ≠ []) {es : List Event}
    (last : Event) (hwait : ∀ e ∈ es, e.Waits)
    (hdone : Completes (es.foldl step (step bar .runCommit)).phase last)
    (hspare : Guarded step (SparesSnapshot bar.pending.changes) (step bar .runCommit) es)
    (hjoin : Faithful (bar.pending.ops ++ addedOps es)) :
    let done := step (es.foldl step (step bar .runCommit)) last
    let result := applyOps S (applyOps S base bar.pending.ops) done.pending.ops
    done.committedChanges = bar.committedChanges ++ bar.pending.changes ∧
      result.store =
        (applyOps S base (bar.pending.ops ++ (addedOps es).foldl addOp [])).store ∧
      (Guarded addOp (fun queued op => cancelled queued op = none) [] (addedOps es) →
        result.store = (applyOps S base (bar.pending.ops ++ addedOps es)).store) := by
  intro done result
  have hstart : step bar .runCommit = { bar with phase := .inFlight bar.pending.changes } := by
    simp [step, hidle, hqueued]
  have hunder : UnderWay bar.pending.changes bar.committedChanges [] (step bar .runCommit) := by
    rw [hstart]
    exact ⟨Or.inl rfl, rfl, [], by simp, lags_nil _⟩
  have hpending : (step bar .runCommit).pending = bar.pending := by rw [hstart]
  have hafter := hunder.after hwait hspare (hpending.symm ▸ hjoin)
  obtain ⟨hcommitted, hlags⟩ := hafter.completed hdone
  have hresult : result.store =
      (applyOps S base (bar.pending.ops ++ (addedOps es).foldl addOp [])).store := by
    have hsplit : result = applyOps S base (bar.pending.ops ++ done.pending.ops) := by
      simp only [result, applyOps, List.foldl_append]
    rw [hsplit, store_applyOps, store_applyOps]
    exact hlags.run_eq S.multi base.store
  refine ⟨hcommitted, hresult, fun hnone => ?_⟩
  have hown := run_foldl_addOp S.multi (hjoin.subset (by simp)) hnone
  rw [hresult, store_applyOps, store_applyOps, edits_append, edits_append, run_append, run_append]
  exact hown _

/-- One change is queued and nothing is under way. -/
def renamed : Bar :=
  ⟨PendingChangesState.empty.addAll [⟨.set, ["system", "host-name"], some "edge"⟩], [], .idle⟩

/-- A domain name is queued before a confirmed commit is kept. -/
def keptRun : List Event :=
  [.add ⟨.set, ["system", "domain-name"], some "lan"⟩ "domain", .answered true, .keep false]

theorem renamed_keeps_domain :
    (step (keptRun.foldl step (step renamed .runCommit)) (.keep true)).committedChanges =
        renamed.pending.changes ∧
      ∀ S base, (applyOps S (applyOps S base renamed.pending.ops)
        (step (keptRun.foldl step (step renamed .runCommit)) (.keep true)).pending.ops).store =
          (applyOps S base (renamed.pending.ops ++ addedOps keptRun)).store := by
  have hidle : renamed.phase = .idle := rfl
  have hqueued : renamed.pending.changes ≠ [] := by decide
  have hwait : ∀ e ∈ keptRun, e.Waits := by
    intro e he
    simp only [keptRun, List.mem_cons, List.not_mem_nil, or_false] at he
    rcases he with rfl | rfl | rfl
    · trivial
    · rfl
    · rfl
  have hspare : Guarded step (SparesSnapshot renamed.pending.changes)
      (step renamed .runCommit) keptRun := by
    refine ⟨fun i hi => ?_, trivial, trivial, trivial⟩
    have hnone : cancelled (step renamed .runCommit).pending.ops
        ⟨.set, ["system", "domain-name"], some "lan"⟩ = none := by decide
    exact absurd (hnone.symm.trans hi) (by simp)
  have hjoin : Faithful (renamed.pending.ops ++ addedOps keptRun) := by
    unfold Faithful
    decide
  have hnone : Guarded addOp (fun queued op => cancelled queued op = none) []
      (addedOps keptRun) := ⟨by decide, trivial⟩
  have hcycle := fun S base => commit_keeps_edits S base hidle hqueued (.keep true)
    hwait rfl hspare hjoin
  exact ⟨(hcycle ⟨fun _ => false⟩ (.node [])).1, fun S base => (hcycle S base).2.2 hnone⟩

/-- SSH is switched off and on again while the commit is in flight. -/
def switchedRun : List Event :=
  [.add ⟨.delete, ["service", "ssh"], none⟩ "off", .add ⟨.set, ["service", "ssh"], none⟩ "on"]

/-- The "Enable" takes the deletion back, so the port survives: that is what
`add` is for, but it is not the edits in order. -/
theorem switchedRun_not_in_order :
    let done := step (switchedRun.foldl step (step renamed .runCommit)) (.answered false)
    let base := setNested (fun _ => false) (some "2222") (.node []) ["service", "ssh", "port"]
    let S : Schema := ⟨fun _ => false⟩
    Completes (switchedRun.foldl step (step renamed .runCommit)).phase (.answered false) ∧
      (applyOps S (applyOps S base renamed.pending.ops) done.pending.ops).store ≠
        (applyOps S base (renamed.pending.ops ++ addedOps switchedRun)).store := by
  intro done base S
  refine ⟨rfl, fun hsame => ?_⟩
  have hport := congrFun hsame ["service", "ssh", "port"]
  exact absurd hport (by decide)

end VyosClient.CommitCycle
