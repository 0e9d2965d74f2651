import VyosClient.ConfigHandlers
import VyosClient.MaskedOperations
import VyosClient.WireCommit

/-!
The endpoints of the backend that read and change the configuration, over the
router they talk to. A run is any sequence of their calls, with the answers of
VyOS where it does not do what it is asked, and of confirm windows that end.
What such a run answers is compared for routers that only differ behind the
mask.
-/

namespace VyosClient.ConfigApi

open ConfigTrees ConfigTree Configure Mask ConfigHandlers MaskedOperations
open WireCommit (VyosError Refusal CommitResponse handleVyOSError newCommitResponse)

/-- The running and the saved configuration, and while a confirm window is open the one that comes
back when it ends. -/
structure Router where
  running : ConfigTree
  saved : ConfigTree
  revert : Option ConfigTree

inductive Call
  | getConfigTree (path : Path)
  | commit (ops : List ConfigOp) (confirmSeconds : ℤ)
  | commitConfirm
  | save (file : String)
  | rollback (confirmSeconds : ℤ)
  | reveal (path : Path)

/-- A call comes with what VyOS answers when it refuses it or cannot be reached. -/
inductive Event
  | call (c : Call) (refusal : Option VyosError)
  | windowEnds

inductive Answer
  | data (tree : Unknown)
  | commit (response : CommitResponse)
  | noContent
  | value (v : String)
  | refused (refusal : Refusal)

/-- VyOS's answer for a path that nothing is configured under. -/
def isEmptyPath : VyosError → Bool
  | .unreachable => false
  | .api statusCode message => statusCode = 400 ∧ contains message "is empty"

def badRequest (message : String) : Answer := .refused ⟨400, message⟩

/-- The value of a leaf. A list or a node does not decode into a string. -/
def returnValue (t : ConfigTree) (path : Path) : Except VyosError String :=
  match t.get path with
  | none => .error (.api 400 "Configuration under specified path is empty")
  | some (.leaf v) => .ok v
  | some _ => .error .unreachable

namespace Router

variable (S : Schema) (r : Router)

/-- A new running configuration, which a confirm window may take back. -/
def load (t : ConfigTree) (confirmMinutes : ℤ) : Router where
  running := t
  saved := r.saved
  revert := if 0 < confirmMinutes then some (r.revert.getD r.running) else r.revert

def windowEnds : Router := ⟨r.revert.getD r.running, r.saved, none⟩

/-- What is done when VyOS does what it is asked, and the message when it does not. -/
def request (refusal : Option VyosError) (action : String) (next : Router) (answer : Answer) :
    Router × Answer :=
  match refusal with
  | some e => (r, .refused (handleVyOSError action e))
  | none => (next, answer)

def handleGetConfigTree (path : Path) (refusal : Option VyosError) : Router × Answer :=
  match refusal with
  | some e =>
      if isEmptyPath e then (r, .data none)
      else (r, .refused (handleVyOSError "fetching configuration" e))
  | none => (r, .data (ConfigHandlers.handleGetConfigTree r.running path))

def handleCommit (ops : List ConfigOp) (confirmSeconds : ℤ) (refusal : Option VyosError) :
    Router × Answer :=
  match ConfigHandlers.handleCommit ops confirmSeconds with
  | .error message => (r, badRequest message)
  | .ok (ops, confirmMinutes) =>
      r.request refusal "applying configuration" (r.load (applyOps S r.running ops) confirmMinutes)
        (.commit (newCommitResponse confirmMinutes))

def handleCommitConfirm (refusal : Option VyosError) : Router × Answer :=
  r.request refusal "confirming configuration" { r with revert := none } .noContent

def handleSave (file : String) (refusal : Option VyosError) : Router × Answer :=
  if file ≠ "" then (r, badRequest "file must not be set")
  else r.request refusal "saving configuration" { r with saved := r.running } .noContent

def handleRollback (confirmSeconds : ℤ) (refusal : Option VyosError) : Router × Answer :=
  match confirmMinutesFromSeconds confirmSeconds with
  | .error message => (r, badRequest message)
  | .ok confirmMinutes =>
      r.request refusal "rolling back configuration" (r.load r.saved confirmMinutes)
        (.commit (newCommitResponse confirmMinutes))

def handleReveal (path : Path) (refusal : Option VyosError) : Router × Answer :=
  if path = [] then (r, badRequest "path must not be empty")
  else if ¬ isMaskedPath path then
    (r, badRequest "this endpoint only reveals sensitive config leaves")
  else
    match refusal with
    | some e => (r, .refused (handleVyOSError "revealing value" e))
    | none =>
        match returnValue r.running path with
        | .error e => (r, .refused (handleVyOSError "revealing value" e))
        | .ok v => (r, .value v)

def handle (c : Call) (refusal : Option VyosError) : Router × Answer :=
  match c with
  | .getConfigTree path => r.handleGetConfigTree path refusal
  | .commit ops confirmSeconds => r.handleCommit S ops confirmSeconds refusal
  | .commitConfirm => r.handleCommitConfirm refusal
  | .save file => r.handleSave file refusal
  | .rollback confirmSeconds => r.handleRollback confirmSeconds refusal
  | .reveal path => r.handleReveal path refusal

def step (e : Event) : Router :=
  match e with
  | .call c refusal => (r.handle S c refusal).1
  | .windowEnds => r.windowEnds

/-- The answers of a run, in order. -/
def answers : Router → List Event → List Answer
  | _, [] => []
  | r, .call c refusal :: es => (r.handle S c refusal).2 :: answers (r.step S (.call c refusal)) es
  | r, .windowEnds :: es => answers r.windowEnds es

/-- All that is in a router, masked. -/
def view : Router := ⟨tree r.running [], tree r.saved [], r.revert.map fun t => tree t []⟩

end Router

open Router

/-- An answer without the value it may reveal. -/
def Answer.withoutValue : Answer → Answer
  | .value _ => .value ""
  | a => a

/-- No operation of a commit compares a value with those behind the mask. -/
def Event.Blind (S : Schema) : Event → Prop
  | .call (.commit ops _) _ => ∀ o ∈ ops, ¬ Compares S o
  | _ => True

instance (S : Schema) : (e : Event) → Decidable (e.Blind S)
  | .call (.commit ops _) _ => inferInstanceAs (Decidable (∀ o ∈ ops, ¬ Compares S o))
  | .call (.getConfigTree _) _ => isTrue trivial
  | .call .commitConfirm _ => isTrue trivial
  | .call (.save _) _ => isTrue trivial
  | .call (.rollback _) _ => isTrue trivial
  | .call (.reveal _) _ => isTrue trivial
  | .windowEnds => isTrue trivial

theorem confirmMinutes_ok {confirmSeconds : ℤ} (h : confirmSeconds = 0 ∨
    ConfigHandlers.minConfirmSeconds ≤ confirmSeconds ∧
      confirmSeconds ≤ ConfigHandlers.maxConfirmSeconds) :
    ∃ minutes, confirmMinutesFromSeconds confirmSeconds = .ok minutes := by
  unfold confirmMinutesFromSeconds
  rcases h with rfl | ⟨hmin, hmax⟩
  · exact ⟨0, rfl⟩
  · split_ifs with hzero hout
    · exact ⟨0, rfl⟩
    · omega
    · exact ⟨_, rfl⟩

/-- A commit of named paths without placeholders is passed on with every window. -/
theorem handleCommit_ok {ops : List ConfigOp} (hne : ops ≠ [])
    (hops : ∀ o ∈ ops, o.path ≠ [] ∧ (o.op = .set → o.value ≠ some maskPlaceholder))
    {confirmSeconds : ℤ} (h : confirmSeconds = 0 ∨
      ConfigHandlers.minConfirmSeconds ≤ confirmSeconds ∧
        confirmSeconds ≤ ConfigHandlers.maxConfirmSeconds) :
    ∃ minutes, ConfigHandlers.handleCommit ops confirmSeconds = .ok (ops, minutes) := by
  obtain ⟨minutes, hminutes⟩ := confirmMinutes_ok h
  have hok : ops.findSome? opError = none := by
    refine List.findSome?_eq_none_iff.mpr fun o ho => ?_
    obtain ⟨hpath, hset⟩ := hops o ho
    have hvalue : ¬ (o.op = .set ∧ o.value.getD "" = maskPlaceholder) := by
      rintro ⟨hop, hplaceholder⟩
      refine hset hop ?_
      cases hv : o.value with
      | none =>
        rw [hv] at hplaceholder
        exact absurd hplaceholder (by decide)
      | some v => rw [← hplaceholder, hv]; rfl
    rw [opError, if_neg hpath, if_neg hvalue]
  refine ⟨minutes, ?_⟩
  unfold ConfigHandlers.handleCommit
  rw [if_neg hne, hminutes, hok]

section Views

variable {S : Schema} {r r' : Router}

theorem view_load (r : Router) (t : ConfigTree) (confirmMinutes : ℤ) :
    (r.load t confirmMinutes).view = r.view.load (tree t []) confirmMinutes := by
  unfold load view
  split
  · cases r.revert <;> rfl
  · rfl

theorem view_windowEnds (r : Router) : r.windowEnds.view = r.view.windowEnds := by
  unfold windowEnds view
  cases r.revert <;> rfl

/-- A tree is read from the masked running configuration. -/
theorem handleGetConfigTree_eq_view (t : ConfigTree) (path : Path) :
    ConfigHandlers.handleGetConfigTree t path = (tree t []).get path := by
  rw [get_tree]
  rfl

/-- The operations of a commit are passed on as they are. -/
theorem ops_of_handleCommit {ops ops' : List ConfigOp} {confirmSeconds confirmMinutes : ℤ}
    (h : ConfigHandlers.handleCommit ops confirmSeconds = .ok (ops', confirmMinutes)) :
    ops' = ops := by
  unfold ConfigHandlers.handleCommit at h
  split_ifs at h
  cases hminutes : confirmMinutesFromSeconds confirmSeconds with
  | error message => simp [hminutes] at h
  | ok minutes =>
    cases herror : ops.findSome? opError with
    | some message => simp [hminutes, herror] at h
    | none =>
      simp only [hminutes, herror, Except.ok.injEq, Prod.mk.injEq] at h
      exact h.1.symm

theorem running_of_view (h : r.view = r'.view) : tree r.running [] = tree r'.running [] :=
  congrArg running h

theorem saved_of_view (h : r.view = r'.view) : tree r.saved [] = tree r'.saved [] :=
  congrArg saved h

theorem request_view (h : r.view = r'.view) {next next' : Router} (hnext : next.view = next'.view)
    (refusal : Option VyosError) (action : String) (answer : Answer) :
    (r.request refusal action next answer).1.view =
        (r'.request refusal action next' answer).1.view ∧
      (r.request refusal action next answer).2 = (r'.request refusal action next' answer).2 := by
  cases refusal with
  | none => exact ⟨hnext, rfl⟩
  | some e => exact ⟨h, rfl⟩

theorem load_view (h : r.view = r'.view) {t t' : ConfigTree} (ht : tree t [] = tree t' [])
    (confirmMinutes : ℤ) : (r.load t confirmMinutes).view = (r'.load t' confirmMinutes).view := by
  rw [view_load, view_load, h, ht]

theorem returnValue_view (h : r.view = r'.view) {path : Path} (hmask : isMaskedPath path = true) :
    (∃ v w, returnValue r.running path = .ok v ∧ returnValue r'.running path = .ok w) ∨
      ∃ e, returnValue r.running path = .error e ∧ returnValue r'.running path = .error e := by
  have hget := congrArg (fun t => t.get path) (running_of_view h)
  simp only [get_tree, List.nil_append] at hget
  unfold returnValue
  cases hpath : r.running.get path with
  | none =>
    cases hpath' : r'.running.get path with
    | none => exact Or.inr ⟨_, rfl, rfl⟩
    | some c' => simp [hpath, hpath'] at hget
  | some c =>
    cases hpath' : r'.running.get path with
    | none => simp [hpath, hpath'] at hget
    | some c' =>
      simp only [hpath, hpath', Option.map_some, Option.some.injEq] at hget
      cases c <;> cases c' <;> simp [tree, hmask] at hget ⊢

/-- Where nothing is compared, a call leaves routers with the same view with the same view, and is
answered alike but for the value that it reveals. -/
theorem handle_view (h : r.view = r'.view) {c : Call} {refusal : Option VyosError}
    (hc : (Event.call c refusal).Blind S) :
    (r.handle S c refusal).1.view = (r'.handle S c refusal).1.view ∧
      (r.handle S c refusal).2.withoutValue = (r'.handle S c refusal).2.withoutValue := by
  cases c with
  | getConfigTree path =>
    cases refusal with
    | none =>
      refine ⟨h, ?_⟩
      show Answer.data _ = Answer.data _
      rw [handleGetConfigTree_eq_view, handleGetConfigTree_eq_view, running_of_view h]
    | some e =>
      simp only [handle, Router.handleGetConfigTree]
      split
      · exact ⟨h, rfl⟩
      · exact ⟨h, rfl⟩
  | commit ops confirmSeconds =>
    simp only [handle, Router.handleCommit]
    cases hcommit : ConfigHandlers.handleCommit ops confirmSeconds with
    | error message => exact ⟨h, rfl⟩
    | ok passed =>
      obtain ⟨ops', confirmMinutes⟩ := passed
      have hops := ops_of_handleCommit hcommit
      subst hops
      have htree : tree (applyOps S r.running ops') [] = tree (applyOps S r'.running ops') [] := by
        rw [tree_applyOps _ hc, tree_applyOps _ hc, running_of_view h]
      have hview := request_view h (load_view h htree confirmMinutes) refusal
        "applying configuration" (.commit (newCommitResponse confirmMinutes))
      exact ⟨hview.1, congrArg Answer.withoutValue hview.2⟩
  | commitConfirm =>
    have hnext : (Router.mk r.running r.saved none).view = (Router.mk r'.running r'.saved none).view :=
      congrArg (fun v : Router => Router.mk v.running v.saved none) h
    have hview := request_view h hnext refusal "confirming configuration" .noContent
    exact ⟨hview.1, congrArg Answer.withoutValue hview.2⟩
  | save file =>
    simp only [handle, Router.handleSave]
    split
    · exact ⟨h, rfl⟩
    · have hnext : (Router.mk r.running r.running r.revert).view =
          (Router.mk r'.running r'.running r'.revert).view :=
        congrArg (fun v : Router => Router.mk v.running v.running v.revert) h
      have hview := request_view h hnext refusal "saving configuration" .noContent
      exact ⟨hview.1, congrArg Answer.withoutValue hview.2⟩
  | rollback confirmSeconds =>
    simp only [handle, Router.handleRollback]
    cases confirmMinutesFromSeconds confirmSeconds with
    | error message => exact ⟨h, rfl⟩
    | ok confirmMinutes =>
      have hview := request_view h (load_view h (saved_of_view h) confirmMinutes) refusal
        "rolling back configuration" (.commit (newCommitResponse confirmMinutes))
      exact ⟨hview.1, congrArg Answer.withoutValue hview.2⟩
  | reveal path =>
    simp only [handle, Router.handleReveal]
    by_cases hpath : path = []
    · rw [if_pos hpath, if_pos hpath]
      exact ⟨h, rfl⟩
    rw [if_neg hpath, if_neg hpath]
    by_cases hmask : isMaskedPath path = true
    · rw [if_neg (not_not.mpr hmask), if_neg (not_not.mpr hmask)]
      cases refusal with
      | some e => exact ⟨h, rfl⟩
      | none =>
        rcases returnValue_view h hmask with ⟨v, w, hv, hw⟩ | ⟨e, hv, hw⟩
        · rw [hv, hw]
          exact ⟨h, rfl⟩
        · rw [hv, hw]
          exact ⟨h, rfl⟩
    · rw [if_pos hmask, if_pos hmask]
      exact ⟨h, rfl⟩

theorem view_step (h : r.view = r'.view) {e : Event} (he : e.Blind S) :
    (r.step S e).view = (r'.step S e).view := by
  cases e with
  | call c refusal => exact (handle_view h he).1
  | windowEnds =>
    show r.windowEnds.view = r'.windowEnds.view
    rw [view_windowEnds, view_windowEnds, h]

/-- Up to the values that are revealed, the answers of a run follow from the masked views it starts
with. -/
theorem answers_of_view (h : r.view = r'.view) {es : List Event} (hes : ∀ e ∈ es, e.Blind S) :
    (answers S r es).map Answer.withoutValue = (answers S r' es).map Answer.withoutValue ∧
      (es.foldl (step S) r).view = (es.foldl (step S) r').view := by
  induction es generalizing r r' with
  | nil => exact ⟨rfl, h⟩
  | cons e es ih =>
    have hrest := ih (view_step h (hes e List.mem_cons_self))
      fun e' he' => hes e' (List.mem_cons_of_mem e he')
    refine ⟨?_, hrest.2⟩
    cases e with
    | call c refusal =>
      simp only [answers, List.map_cons]
      rw [(handle_view h (hes _ List.mem_cons_self)).2, hrest.1]
    | windowEnds => exact hrest.1

end Views

def keyPath : Path := ["service", "https", "api", "keys", "id", "web", "key"]

/-- A router whose API key is `key`, with another one in its saved configuration. -/
def keyed (key saved : String) : Router :=
  ⟨lone keyPath key, lone keyPath saved, none⟩

/-- The key is replaced for a minute, looked at and rolled back to the saved one. -/
def replaced : List Event :=
  [.call (.getConfigTree []) none,
    .call (.commit [⟨.delete, keyPath, none⟩, ⟨.set, keyPath, some "new"⟩] 60) none,
    .call (.reveal keyPath) none, .call (.save "") (some .unreachable), .windowEnds,
    .call (.rollback 0) none, .call (.getConfigTree keyPath) none]

theorem isMaskedPath_keyPath : isMaskedPath keyPath = true := by
  decide +kernel

theorem keyed_answers :
    (answers ⟨fun _ => false⟩ (keyed "a" "b") replaced).map Answer.withoutValue =
        (answers ⟨fun _ => false⟩ (keyed "c" "d") replaced).map Answer.withoutValue ∧
      (replaced.foldl (step ⟨fun _ => false⟩) (keyed "a" "b")).view =
        (replaced.foldl (step ⟨fun _ => false⟩) (keyed "c" "d")).view := by
  refine answers_of_view ?_ ?_
  · simp only [keyed, view, tree_lone isMaskedPath_keyPath]
  · decide +kernel

end VyosClient.ConfigApi
