import VyosClient.Mask

/-!
The backend's handlers for the configuration: what a page receives of it and
which requests to change it are passed on to VyOS.
-/

namespace VyosClient.ConfigHandlers

open ConfigTrees Configure Mask

/-- The tree below `path`, masked. Nothing configured there is no error. -/
def handleGetConfigTree (t : ConfigTree) (path : Path) : Unknown :=
  (t.get path).map fun c => tree c path

def minConfirmSeconds : ℤ := 10

def maxConfirmSeconds : ℤ := 600

/-- Whole minutes, rounded up. -/
def confirmMinutesFromSeconds (seconds : ℤ) : Except String ℤ :=
  if seconds = 0 then .ok 0
  else if seconds < minConfirmSeconds ∨ maxConfirmSeconds < seconds then
    .error s!"confirmSeconds must be 0 (disabled) or between {minConfirmSeconds} and {maxConfirmSeconds}"
  else .ok ((seconds + 59) / 60)

def maskedPlaceholderError : String := "value is a masked placeholder, not a real value"

/-- What is wrong with one operation. The kinds themselves are checked by the
type. -/
def opError (o : ConfigOp) : Option String :=
  if o.path = [] then some "every operation must have a non-empty path"
  else if o.op = .set ∧ o.value.getD "" = maskPlaceholder then some maskedPlaceholderError
  else none

/-- The operations and the confirm window passed on to VyOS. -/
def handleCommit (ops : List ConfigOp) (confirmSeconds : ℤ) : Except String (List ConfigOp × ℤ) :=
  if ops = [] then .error "no operations to apply"
  else
    match confirmMinutesFromSeconds confirmSeconds with
    | .error message => .error message
    | .ok confirmMinutes =>
        match ops.findSome? opError with
        | some message => .error message
        | none => .ok (ops, confirmMinutes)

/-- A queue is refused for a placeholder only if it sets one. -/
theorem handleCommit_ne_masked {ops : List ConfigOp}
    (h : ∀ o ∈ ops, o.op = .set → o.value ≠ some maskPlaceholder) (confirmSeconds : ℤ) :
    handleCommit ops confirmSeconds ≠ .error maskedPlaceholderError := by
  have hops : ops.findSome? opError ≠ some maskedPlaceholderError := by
    intro hfound
    obtain ⟨o, ho, herror⟩ := List.exists_of_findSome?_eq_some hfound
    unfold opError at herror
    split_ifs at herror with hpath hset
    · revert herror
      decide
    · refine h o ho hset.1 ?_
      cases hvalue : o.value with
      | none =>
        rw [hvalue] at hset
        exact absurd hset.2 (by decide)
      | some v =>
        rw [hvalue] at hset
        exact congrArg some hset.2
  have hchecked : ∀ confirmMinutes : ℤ,
      (match ops.findSome? opError with
        | some message => Except.error message
        | none => Except.ok (ops, confirmMinutes)) ≠ Except.error maskedPlaceholderError := by
    intro confirmMinutes
    cases hfound : ops.findSome? opError with
    | none => simp
    | some message =>
      intro heq
      injection heq with heq
      exact hops (heq ▸ hfound)
  unfold handleCommit confirmMinutesFromSeconds
  split_ifs with hnil hzero hrange
  · decide
  · exact hchecked 0
  · show Except.error _ ≠ Except.error _
    decide
  · exact hchecked _

end VyosClient.ConfigHandlers
