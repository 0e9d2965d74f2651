import Mathlib.Tactic.Common

/-!
Runs of a deterministic system whose steps meet a condition. An invariant that
every such step keeps holds in all states of the run; when a step that breaks
the condition always shows in the next state, the states tell which runs met
it.
-/

namespace VyosClient.Runs

variable {S E : Type*} (step : S → E → S)

/-- The states a run goes through, its first and its last included. -/
def trail : S → List E → List S
  | s, [] => [s]
  | s, e :: es => s :: trail (step s e) es

/-- Every step of the run meets the condition in the state it starts from. -/
def Guarded (ok : S → E → Prop) : S → List E → Prop
  | _, [] => True
  | s, e :: es => ok s e ∧ Guarded ok (step s e) es

variable {step} {ok : S → E → Prop} {I P : S → Prop}

theorem mem_trail_self (s : S) (es : List E) : s ∈ trail step s es := by
  cases es <;> simp [trail]

theorem foldl_mem_trail (s : S) (es : List E) : es.foldl step s ∈ trail step s es := by
  induction es generalizing s with
  | nil => exact List.mem_singleton_self s
  | cons e es ih => exact List.mem_cons_of_mem s (ih (step s e))

theorem guarded_append {s : S} {es fs : List E} :
    Guarded step ok s (es ++ fs) ↔ Guarded step ok s es ∧ Guarded step ok (es.foldl step s) fs := by
  induction es generalizing s with
  | nil => exact (iff_of_eq (true_and _)).symm
  | cons e es ih =>
    show ok s e ∧ Guarded step ok (step s e) (es ++ fs) ↔ _
    rw [ih, ← and_assoc]
    rfl

theorem guarded_of_forall {es : List E} (h : ∀ e ∈ es, ∀ s, ok s e) (s : S) :
    Guarded step ok s es := by
  induction es generalizing s with
  | nil => trivial
  | cons e es ih =>
    exact ⟨h e List.mem_cons_self s, ih (fun e' he' => h e' (List.mem_cons_of_mem e he')) _⟩

theorem forall_trail_of_guarded (hstep : ∀ s e, I s → ok s e → I (step s e)) {s : S} {es : List E}
    (hs : I s) (h : Guarded step ok s es) : ∀ t ∈ trail step s es, I t := by
  induction es generalizing s with
  | nil =>
    intro t ht
    rwa [List.mem_singleton.mp ht]
  | cons e es ih =>
    intro t ht
    rcases List.mem_cons.mp ht with rfl | ht
    · exact hs
    · exact ih (hstep s e hs h.1) h.2 t ht

/-- The condition is the exact one: a run whose states all satisfy `P` met it
at every step. -/
theorem guarded_iff_forall_trail (hstep : ∀ s e, I s → ok s e → I (step s e))
    (himp : ∀ s, I s → P s) (hbreak : ∀ s e, I s → ¬ ok s e → ¬ P (step s e)) {s : S}
    (hs : I s) (es : List E) : Guarded step ok s es ↔ ∀ t ∈ trail step s es, P t := by
  constructor
  · intro h t ht
    exact himp t (forall_trail_of_guarded hstep hs h t ht)
  · induction es generalizing s with
    | nil => exact fun _ => trivial
    | cons e es ih =>
      intro h
      have hok : ok s e := by
        by_contra hnot
        exact hbreak s e hs hnot (h _ (List.mem_cons_of_mem _ (mem_trail_self _ es)))
      exact ⟨hok, ih (hstep s e hs hok) fun t ht => h t (List.mem_cons_of_mem _ ht)⟩

/-- Two conditions that agree in every state the system can be in agree on its runs. -/
theorem guarded_congr {ok' : S → E → Prop} (hstep : ∀ s e, I s → I (step s e))
    (hiff : ∀ s e, I s → (ok s e ↔ ok' s e)) {s : S} (hs : I s) (es : List E) :
    Guarded step ok s es ↔ Guarded step ok' s es := by
  induction es generalizing s with
  | nil => exact Iff.rfl
  | cons e es ih => exact and_congr (hiff s e hs) (ih (hstep s e hs))

end VyosClient.Runs
