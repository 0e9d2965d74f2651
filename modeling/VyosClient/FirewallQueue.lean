import Mathlib.Data.List.Pairwise
import VyosClient.RuleEditing
import VyosClient.RuleReorder

/-!
The ruleset page before a commit. Reorders, edits and new rules are all
computed from the fetched ruleset and queued one after another. As long as no
two of them involve the same rule number, `add` appends what each of them
queues, and the queue amounts to their operations in order.
-/

namespace VyosClient.FirewallQueue

open PathStore ConfigTrees Configure PendingChanges PendingChangesState FormDiff FirewallParse
  FirewallRuleForm RuleEditing SubtreeReplay RuleRewrite RuleReorder

/-- What a user does on the page of a ruleset. -/
inductive Step
  | reorder (fromIndex toIndex : ℤ)
  | edit (ruleNumber : String) (values : RuleFormValues)
  | create (ruleNumber : String) (values : RuleFormValues)

def existingNumbers (rules : List FirewallRule) : List String := rules.map FirewallRule.number

/-- Every step starts from the fetched rules. -/
def queue (ref : RulesetRef) (rules : List FirewallRule) (s : PendingChangesState) :
    Step → PendingChangesState
  | .reorder fromIndex toIndex => s.addAll (reorderRuleOps ref rules fromIndex toIndex)
  | .edit ruleNumber values =>
      match rules.find? fun r => r.number = ruleNumber with
      | some rule => submit s ref (some rule) (existingNumbers rules) ruleNumber values
      | none => s
  | .create ruleNumber values => submit s ref none (existingNumbers rules) ruleNumber values

def queued (ref : RulesetRef) (rules : List FirewallRule) (steps : List Step) :
    PendingChangesState :=
  steps.foldl (queue ref rules) .empty

/-- What a step asks `add` to queue. -/
def stepOps (ref : RulesetRef) (rules : List FirewallRule) : Step → List ConfigOp
  | .reorder fromIndex toIndex => reorderRuleOps ref rules fromIndex toIndex
  | .edit ruleNumber values =>
      match rules.find? fun r => r.number = ruleNumber with
      | some rule =>
          if canSubmit (some rule) (existingNumbers rules) ruleNumber values then
            ruleFormToOps ref ruleNumber (some rule) values
          else []
      | none => []
  | .create ruleNumber values =>
      if canSubmit none (existingNumbers rules) ruleNumber values then
        ruleFormToOps ref ruleNumber none values
      else []

def allOps (ref : RulesetRef) (rules : List FirewallRule) (steps : List Step) : List ConfigOp :=
  steps.flatMap (stepOps ref rules)

theorem ops_queue (ref : RulesetRef) (rules : List FirewallRule) (s : PendingChangesState)
    (e : Step) : (queue ref rules s e).ops = (stepOps ref rules e).foldl addOp s.ops := by
  cases e with
  | reorder i j => exact ops_addAll s _
  | edit n values =>
    simp only [queue, stepOps, submit]
    cases rules.find? fun r => r.number = n with
    | none => rfl
    | some rule =>
      dsimp only
      split_ifs
      · exact ops_addAll s _
      · rfl
  | create n values =>
    simp only [queue, stepOps, submit]
    split_ifs
    · exact ops_addAll s _
    · rfl

theorem allOps_cons (ref : RulesetRef) (rules : List FirewallRule) (e : Step)
    (steps : List Step) :
    allOps ref rules (e :: steps) = stepOps ref rules e ++ allOps ref rules steps :=
  List.flatMap_cons

theorem ops_queued (ref : RulesetRef) (rules : List FirewallRule) (steps : List Step) :
    (queued ref rules steps).ops = (allOps ref rules steps).foldl addOp [] := by
  have hall : ∀ s : PendingChangesState, (steps.foldl (queue ref rules) s).ops =
      (allOps ref rules steps).foldl addOp s.ops := by
    induction steps with
    | nil => exact fun s => rfl
    | cons e steps ih =>
      intro s
      rw [List.foldl_cons, ih, ops_queue, allOps_cons, List.foldl_append]
  exact hall .empty

/-- The rule numbers a step has to do with: the old and the new ones of a
reorder, and the number of a form that can be submitted. -/
def Involves (rules : List FirewallRule) (e : Step) (n : String) : Prop :=
  match e with
  | .reorder fromIndex toIndex =>
      ∃ r m, Takes rules fromIndex toIndex r m ∧ (n = r.number ∨ n = m)
  | .edit ruleNumber values =>
      n = ruleNumber ∧ ∃ rule ∈ rules, rule.number = ruleNumber ∧
        canSubmit (some rule) (existingNumbers rules) ruleNumber values
  | .create ruleNumber values =>
      n = ruleNumber ∧ canSubmit none (existingNumbers rules) ruleNumber values

def Step.isEdit : Step → Prop
  | .edit _ _ => True
  | _ => False

/-- Only edits may come to a number twice. -/
def Separate (rules : List FirewallRule) (e e' : Step) : Prop :=
  ∀ n, Involves rules e n → Involves rules e' n → e.isEdit ∧ e'.isEdit

/-- A rule that the queue can bring over whole: it has a subtree, no leaf of it
is empty and the texts of their paths are different. -/
structure Rewritable (r : FirewallRule) : Prop where
  noBlank : NoBlank r
  nonempty : ∃ e es, r.raw = some (.node (e :: es))
  faithful : ∀ c, r.raw = some c → Faithful (subtreeToSetOps [] c)

/-- A reorder only renumbers rules that can be brought over. -/
def Replays (rules : List FirewallRule) : Step → Prop
  | .reorder fromIndex toIndex => ∀ r n, Takes rules fromIndex toIndex r n → Rewritable r
  | _ => True

section Texts

theorem split_at_first {α : Type*} {a : α} {xs ys zs ws : List α} (hx : a ∉ xs) (hy : a ∉ ys)
    (h : xs ++ a :: zs = ys ++ a :: ws) : xs = ys ∧ zs = ws := by
  induction xs generalizing ys with
  | nil =>
    cases ys with
    | nil => exact ⟨rfl, (List.cons.inj h).2⟩
    | cons b ys => exact absurd ((List.cons.inj h).1 ▸ List.mem_cons_self) hy
  | cons b xs ih =>
    cases ys with
    | nil => exact absurd ((List.cons.inj h).1 ▸ List.mem_cons_self) hx
    | cons c ys =>
      obtain ⟨rfl, hrest⟩ := List.cons.inj h
      obtain ⟨rfl, rfl⟩ := ih (fun hm => hx (List.mem_cons_of_mem _ hm))
        (fun hm => hy (List.mem_cons_of_mem _ hm)) hrest
      exact ⟨rfl, rfl⟩

/-- The text of a path below a rule tells the number, as long as numbers hold
no space. -/
theorem eq_of_joined_rulePath {ref : RulesetRef} {n m : String} {p q : Path}
    (hn : ' ' ∉ n.toList) (hm : ' ' ∉ m.toList)
    (h : joined (rulePath ref n p) = joined (rulePath ref m q)) :
    n = m ∧ (p = [] ↔ q = []) ∧ joined p = joined q := by
  rw [rulePath_eq, rulePath_eq, joined_append_inj _ (by simp) (by simp)] at h
  have hspace : ∀ a b : String, (a ++ " " ++ b).toList = a.toList ++ ' ' :: b.toList := by
    intro a b
    simp
  by_cases hp : p = [] <;> by_cases hq : q = []
  · subst hp hq
    exact ⟨h, Iff.rfl, rfl⟩
  · subst hp
    rw [joined_cons m hq] at h
    have hmem : ' ' ∈ n.toList := by
      have hlist : n.toList = _ := (congrArg String.toList h).trans (hspace m (joined q))
      simp [hlist]
    exact absurd hmem hn
  · subst hq
    rw [joined_cons n hp] at h
    have hmem : ' ' ∈ m.toList := by
      have hlist : m.toList = _ := (congrArg String.toList h.symm).trans (hspace n (joined p))
      simp [hlist]
    exact absurd hmem hm
  · rw [joined_cons n hp, joined_cons m hq] at h
    have hlist := congrArg String.toList h
    rw [hspace, hspace] at hlist
    obtain ⟨hnm, hrest⟩ := split_at_first hn hm hlist
    exact ⟨String.toList_injective hnm, iff_of_false hp hq, String.toList_injective hrest⟩

theorem space_notMem_of_digits {s : String} (h : s.toList.all Char.isDigit = true) :
    ' ' ∉ s.toList := by
  intro hmem
  have hdigit := List.all_eq_true.mp h ' ' hmem
  revert hdigit
  decide

theorem space_notMem_of_rank {s : String} (h : 0 < rank s) : ' ' ∉ s.toList := by
  have hnumber := number_eq_rank h
  unfold number at hnumber
  split_ifs at hnumber with hdigits
  exact space_notMem_of_digits hdigits.2

theorem space_notMem_of_canSubmit {rule : Option FirewallRule} {numbers : List String}
    {n : String} {values : RuleFormValues} (h : canSubmit rule numbers n values) :
    ' ' ∉ n.toList := by
  simp only [canSubmit, Bool.and_eq_true, validNumber] at h
  obtain ⟨⟨hvalid, -⟩, -⟩ := h
  split at hvalid
  · cases hvalid
  · rename_i c cs hlist
    simp only [Bool.and_eq_true] at hvalid
    exact space_notMem_of_digits (by rw [hlist, List.all_cons, hvalid.1.1, hvalid.2]; rfl)

end Texts

section Operations

variable {ref : RulesetRef} {t : ConfigTree} {e e' : Step} {o o' : ConfigOp} {n : String}

/-- The rule an edit form is opened on. -/
theorem find_rule (h : t.WellFormed) {r : FirewallRule} (hr : r ∈ rulesAt ref t) :
    (rulesAt ref t).find? (fun r' => r'.number = r.number) = some r := by
  have hsome : ((rulesAt ref t).find? fun r' => decide (r'.number = r.number)).isSome := by
    rw [List.find?_isSome]
    exact ⟨r, hr, by simp⟩
  obtain ⟨r', hfound⟩ := Option.isSome_iff_exists.mp hsome
  have hnumber : r'.number = r.number := by
    simpa using List.find?_some hfound
  rw [hfound, eq_of_number_eq h (List.mem_of_find?_eq_some hfound) hr hnumber]

theorem stepOps_edit (h : t.WellFormed) {r : FirewallRule} (hr : r ∈ rulesAt ref t)
    (values : RuleFormValues) :
    stepOps ref (rulesAt ref t) (.edit r.number values) =
      if canSubmit (some r) (existingNumbers (rulesAt ref t)) r.number values then
        (ruleForm ref r.number).diff (ruleToFormValues r) values
      else [] := by
  simp only [stepOps, find_rule h hr]
  rfl

theorem stepOps_create (ref : RulesetRef) (rules : List FirewallRule) (n : String)
    (values : RuleFormValues) :
    stepOps ref rules (.create n values) =
      if canSubmit none (existingNumbers rules) n values then
        (ruleForm ref n).diff blankRuleFormValues values
      else [] := rfl

/-- The operations of a form that some step submits for the number `n`, against
the values `before`. -/
def Submits (ref : RulesetRef) (t : ConfigTree) (e : Step) (n : String)
    (before values : RuleFormValues) : Prop :=
  (∃ r ∈ rulesAt ref t, e = .edit r.number values ∧ n = r.number ∧ before = ruleToFormValues r) ∨
    e = .create n values ∧ before = blankRuleFormValues

/-- The operations of a reorder, at the path `p` below the number `n`: a deletion
of the whole rule, or a leaf replayed from the rule that takes the number. -/
def Moved (ref : RulesetRef) (t : ConfigTree) (e : Step) (n : String) (p : Path) (o : ConfigOp) :
    Prop :=
  ∃ i j r m, e = .reorder i j ∧ (r, m) ∈ reorderChanges (rulesAt ref t) i j ∧
    (n = r.number ∧ p = [] ∧ o.op = .delete ∨
      n = m ∧ ∃ c, r.raw = some c ∧ ∃ o' ∈ subtreeToSetOps [] c, p = o'.path ∧ o.op = .set)

theorem path_field (ref : RulesetRef) (n : String) {f : FormDiff.Field RuleFormValues}
    (hf : f ∈ (ruleForm ref n).fields) : ∃ p ≠ [], f.path = rulePath ref n p := by
  obtain ⟨p, hp, hpath⟩ := path_of_mem_fieldsBelow hf
  refine ⟨p, segments_ne_nil ref.family p hp, ?_⟩
  rw [hpath, ← rulePath_append, List.nil_append]

/-- A field of the rule form only reaches below the rule. -/
theorem path_of_mem_fieldDiff {n : String} {f : FormDiff.Field RuleFormValues}
    (hf : f ∈ (ruleForm ref n).fields) {before values : RuleFormValues}
    (ho : o ∈ f.diff before values) : ∃ p ≠ [], o.path = rulePath ref n p := by
  rw [Field.path_of_mem_diff ho]
  exact path_field ref n hf

/-- Every operation of a step lies below a number that the step involves. -/
theorem mem_stepOps (h : t.WellFormed) (hnum : Numbered (rulesAt ref t))
    (ho : o ∈ stepOps ref (rulesAt ref t) e) :
    ∃ n p, Involves (rulesAt ref t) e n ∧ o.path = rulePath ref n p ∧ (Moved ref t e n p o ∨
      p ≠ [] ∧ ∃ before values, Submits ref t e n before values ∧
        o ∈ (ruleForm ref n).diff before values) := by
  have hform : ∀ {n : String} {before values : RuleFormValues},
      o ∈ (ruleForm ref n).diff before values → ∃ p ≠ [], o.path = rulePath ref n p := by
    intro n before values ho
    obtain ⟨f, hf, ho⟩ := Form.mem_diff.mp ho
    exact path_of_mem_fieldDiff hf ho
  cases e with
  | reorder i j =>
    have htakes : ∀ c ∈ reorderChanges (rulesAt ref t) i j,
        Takes (rulesAt ref t) i j c.1 c.2 := fun c hc => (mem_reorderChanges_iff hnum).mp hc
    rcases List.mem_append.mp ho with ho | ho
    · obtain ⟨c, hc, rfl⟩ := List.mem_map.mp ho
      exact ⟨c.1.number, [], ⟨c.1, c.2, htakes c hc, Or.inl rfl⟩, rfl,
        Or.inl ⟨i, j, c.1, c.2, rfl, hc, Or.inl ⟨rfl, rfl, rfl⟩⟩⟩
    · obtain ⟨c, hc, ho⟩ := List.mem_flatMap.mp ho
      obtain ⟨raw, hraw⟩ := Option.isSome_iff_exists.mp
        (raw_isSome h (mem_rules_of_reorderChanges h hnum hc))
      have hshift := subtreeToSetOps_append (rulePath ref c.2 []) raw []
      rw [List.append_nil] at hshift
      rw [hraw] at ho
      simp only [hshift, List.mem_map] at ho
      obtain ⟨o', ho', rfl⟩ := ho
      have hset := (mem_subtreeToSetOps raw [] o' ho').1
      refine ⟨c.2, o'.path, ⟨c.1, c.2, htakes c hc, Or.inr rfl⟩, ?_,
        Or.inl ⟨i, j, c.1, c.2, rfl, hc, Or.inr ⟨rfl, raw, hraw, o', ho', rfl, hset⟩⟩⟩
      exact (rulePath_append ref c.2 [] o'.path).symm
  | edit k values =>
    simp only [stepOps] at ho
    cases hfound : (rulesAt ref t).find? fun r => r.number = k with
    | none =>
      rw [hfound] at ho
      exact absurd ho List.not_mem_nil
    | some r =>
      rw [hfound] at ho
      have hr := List.mem_of_find?_eq_some hfound
      obtain rfl : r.number = k := by simpa using List.find?_some hfound
      dsimp only at ho
      split_ifs at ho with hsubmit
      · obtain ⟨p, hp, hpath⟩ := hform ho
        exact ⟨r.number, p, ⟨rfl, r, hr, rfl, hsubmit⟩, hpath,
          Or.inr ⟨hp, _, values, Or.inl ⟨r, hr, rfl, rfl, rfl⟩, ho⟩⟩
      · exact absurd ho List.not_mem_nil
  | create k values =>
    simp only [stepOps] at ho
    split_ifs at ho with hsubmit
    · obtain ⟨p, hp, hpath⟩ := hform ho
      exact ⟨k, p, ⟨rfl, hsubmit⟩, hpath, Or.inr ⟨hp, _, values, Or.inr ⟨rfl, rfl⟩, ho⟩⟩
    · exact absurd ho List.not_mem_nil

theorem space_notMem_of_involves (h : t.WellFormed) (hnum : Numbered (rulesAt ref t))
    (hn : Involves (rulesAt ref t) e n) : ' ' ∉ n.toList := by
  cases e with
  | reorder i j =>
    obtain ⟨r, m, htakes, hn⟩ := hn
    have hchange := (mem_reorderChanges_iff hnum).mpr htakes
    rcases hn with rfl | rfl
    · exact space_notMem_of_rank (hnum.positive r (mem_rules_of_reorderChanges h hnum hchange))
    · obtain ⟨assign, p, hchanges, ha, -⟩ := exists_assigns h hnum i j
      rw [hchanges] at hchange
      have hpositive := ha.positive (r, n) (List.mem_filter.mp hchange).1
      exact space_notMem_of_rank hpositive
  | edit k values =>
    obtain ⟨rfl, r, -, -, hsubmit⟩ := hn
    exact space_notMem_of_canSubmit hsubmit
  | create k values =>
    obtain ⟨rfl, hsubmit⟩ := hn
    exact space_notMem_of_canSubmit hsubmit

/-- A reorder that comes to a number comes to it alone. -/
theorem eq_of_moved {p : Path} (hsep : e = e' ∨ Separate (rulesAt ref t) e e')
    (hmoved : Moved ref t e n p o) (hn : Involves (rulesAt ref t) e n)
    (hn' : Involves (rulesAt ref t) e' n) : e = e' := by
  refine hsep.resolve_right fun h => ?_
  obtain ⟨i, j, r, m, rfl, -⟩ := hmoved
  exact (h n hn hn').1

theorem not_submits_of_moved {p : Path} {before values : RuleFormValues}
    (hmoved : Moved ref t e n p o) : ¬ Submits ref t e n before values := by
  obtain ⟨i, j, r, m, rfl, -⟩ := hmoved
  rintro (⟨r, _, heq, _⟩ | ⟨heq, _⟩) <;> cases heq

/-- The leaves that a reorder replays to one number come from one rule. -/
theorem moved_path_eq {p p' : Path} (h : t.WellFormed) (hnum : Numbered (rulesAt ref t))
    (hrep : Replays (rulesAt ref t) e) (hmoved : Moved ref t e n p o)
    (hmoved' : Moved ref t e n p' o') (hnil : p = [] ↔ p' = []) (hjoin : joined p = joined p') :
    p = p' ∧ (o.op = .set → o'.op = .set) := by
  obtain ⟨i, j, r, m, rfl, hchange, hcase⟩ := hmoved
  obtain ⟨i', j', r', m', heq, hchange', hcase'⟩ := hmoved'
  obtain ⟨rfl, rfl⟩ := Step.reorder.inj heq
  have hreplayed : ∀ {r : FirewallRule} {c : ConfigTree} {a : ConfigOp},
      (r, n) ∈ reorderChanges (rulesAt ref t) i j → r.raw = some c →
      a ∈ subtreeToSetOps [] c → a.path ≠ [] ∧ Faithful (subtreeToSetOps [] c) := by
    intro r c a hchange hc ha
    have hrewrite : Rewritable r := hrep r n ((mem_reorderChanges_iff hnum).mp hchange)
    obtain ⟨x, es, hnode⟩ := hrewrite.nonempty
    refine ⟨?_, hrewrite.faithful c hc⟩
    obtain rfl : c = .node (x :: es) := Option.some.inj (hc.symm.trans hnode)
    rw [subtreeToSetOps] at ha
    obtain ⟨-, e', -, hprefix⟩ := mem_entriesToSetOps _ _ _ ha
    intro hempty
    rw [hempty] at hprefix
    simp at hprefix
  rcases hcase with ⟨-, rfl, hop⟩ | ⟨rfl, c, hc, a, ha, rfl, hop⟩
  · refine ⟨(hnil.mp rfl).symm, fun hset => ?_⟩
    rw [hop] at hset
    cases hset
  · rcases hcase' with ⟨-, rfl, -⟩ | ⟨rfl, c', hc', a', ha', rfl, hop'⟩
    · exact absurd (hnil.mpr rfl) (hreplayed hchange hc ha).1
    · have hsame : r = r' := by
        obtain ⟨assign, q, hchanges, hassigns, -⟩ := exists_assigns h hnum i j
        rw [hchanges] at hchange hchange'
        have hpair := hassigns.eq_of_new _ _ (List.mem_filter.mp hchange).1
          (List.mem_filter.mp hchange').1 rfl
        exact congrArg Prod.fst hpair
      subst hsame
      obtain rfl : c = c' := Option.some.inj (hc.symm.trans hc')
      exact ⟨(hreplayed hchange hc ha).2 a ha a' ha' hjoin, fun _ => hop'⟩

/-- Forms submitted for one number start from the same values. -/
theorem before_unique (h : t.WellFormed) (hsep : e = e' ∨ Separate (rulesAt ref t) e e')
    (hn : Involves (rulesAt ref t) e n) (hn' : Involves (rulesAt ref t) e' n)
    {before values before' values' : RuleFormValues} (hs : Submits ref t e n before values)
    (hs' : Submits ref t e' n before' values') : before = before' := by
  rcases hs with ⟨r, hr, rfl, hnr, rfl⟩ | ⟨rfl, rfl⟩
  · rcases hs' with ⟨r', hr', rfl, hnr', rfl⟩ | ⟨rfl, rfl⟩
    · rw [eq_of_number_eq h hr hr' (hnr.symm.trans hnr')]
    · exact absurd (hsep.resolve_left (by simp) n hn hn').2 id
  · rcases hs' with ⟨r', hr', rfl, hnr', rfl⟩ | ⟨rfl, rfl⟩
    · exact absurd (hsep.resolve_left (by simp) n hn hn').1 id
    · rfl

/-- Paths that `add` takes for one are one, and no valueless `set` meets a
valueless `delete` on it. -/
theorem path_eq_of_joined (h : t.WellFormed) (hnum : Numbered (rulesAt ref t))
    (hsep : e = e' ∨ Separate (rulesAt ref t) e e') (hrep : Replays (rulesAt ref t) e)
    (ho : o ∈ stepOps ref (rulesAt ref t) e) (ho' : o' ∈ stepOps ref (rulesAt ref t) e')
    (hjoin : joined o.path = joined o'.path) :
    o.path = o'.path ∧
      ¬ (o.op = .set ∧ o.value = none ∧ o'.op = .delete ∧ o'.value = none) := by
  obtain ⟨n, p, hn, hp, hkind⟩ := mem_stepOps h hnum ho
  obtain ⟨n', p', hn', hp', hkind'⟩ := mem_stepOps h hnum ho'
  have hjoin' := hjoin
  rw [hp, hp'] at hjoin'
  obtain ⟨rfl, hnil, hrest⟩ := eq_of_joined_rulePath (space_notMem_of_involves h hnum hn)
    (space_notMem_of_involves h hnum hn') hjoin'
  have hsep' : e' = e ∨ Separate (rulesAt ref t) e' e :=
    hsep.imp Eq.symm fun hs m hm hm' => (hs m hm' hm).symm
  rcases hkind with hmoved | ⟨hne, before, values, hs, hform⟩
  · obtain rfl := eq_of_moved hsep hmoved hn hn'
    have hmoved' := hkind'.resolve_right fun hk => by
      obtain ⟨-, before, values, hs, -⟩ := hk
      exact not_submits_of_moved hmoved hs
    obtain ⟨rfl, hset⟩ := moved_path_eq h hnum hrep hmoved hmoved' hnil hrest
    refine ⟨hp.trans hp'.symm, fun hboth => ?_⟩
    have hdelete := hset hboth.1
    rw [hboth.2.2.1] at hdelete
    cases hdelete
  · rcases hkind' with hmoved' | ⟨-, before', values', hs', hform'⟩
    · obtain rfl := eq_of_moved hsep' hmoved' hn' hn
      exact absurd hs (not_submits_of_moved hmoved')
    · obtain rfl := before_unique h hsep hn hn' hs hs'
      have hmem : o ∈ (ruleForm ref n).saves before [values, values'] := by
        simp [Form.saves, hform]
      have hmem' : o' ∈ (ruleForm ref n).saves before [values, values'] := by
        simp [Form.saves, hform']
      refine ⟨Form.faithful_saves _ o hmem o' hmem' hjoin, fun hboth => ?_⟩
      exact Form.not_cancelled_saves _ o hmem o' hmem' hboth.1 hboth.2.1 hboth.2.2.1 hboth.2.2.2
        hjoin.symm

end Operations

/-- A history whose steps keep apart, and whose reorders bring over all they
move. -/
structure Orderly (rules : List FirewallRule) (steps : List Step) : Prop where
  separate : steps.Pairwise (Separate rules)
  replays : ∀ e ∈ steps, Replays rules e

theorem Separate.symm {rules : List FirewallRule} {e e' : Step} (h : Separate rules e e') :
    Separate rules e' e :=
  fun n hn hn' => (h n hn' hn).symm

theorem Orderly.eq_or_separate {rules : List FirewallRule} {steps : List Step}
    (h : Orderly rules steps) {e e' : Step} (he : e ∈ steps) (he' : e' ∈ steps) :
    e = e' ∨ Separate rules e e' := by
  by_cases heq : e = e'
  · exact Or.inl heq
  · have : Std.Symm (Separate rules) := ⟨fun _ _ => Separate.symm⟩
    exact Or.inr (h.separate.forall he he' heq)

/-- What the queue of an orderly history amounts to. -/
theorem store_queued (S : Schema) {ref : RulesetRef} {t : ConfigTree} (h : t.WellFormed)
    (hnum : Numbered (rulesAt ref t)) {steps : List Step}
    (horderly : Orderly (rulesAt ref t) steps) :
    (applyOps S t (queued ref (rulesAt ref t) steps).ops).store =
      run S.multi t.store (edits (allOps ref (rulesAt ref t) steps)) := by
  have hpairs : ∀ o ∈ allOps ref (rulesAt ref t) steps, ∀ o' ∈ allOps ref (rulesAt ref t) steps,
      joined o.path = joined o'.path → o.path = o'.path ∧
        ¬ (o.op = .set ∧ o.value = none ∧ o'.op = .delete ∧ o'.value = none) := by
    intro o ho o' ho'
    obtain ⟨e, he, ho⟩ := List.mem_flatMap.mp ho
    obtain ⟨e', he', ho'⟩ := List.mem_flatMap.mp ho'
    exact path_eq_of_joined h hnum (horderly.eq_or_separate he he') (horderly.replays e he) ho ho'
  have hfaithful : Faithful (allOps ref (rulesAt ref t) steps) :=
    fun o ho o' ho' hjoin => (hpairs o ho o' ho' hjoin).1
  have hcancel : NoneCancelled (allOps ref (rulesAt ref t) steps) :=
    fun o ho o' ho' hset hvalue hdelete hvalue' hjoin =>
      (hpairs o ho o' ho' hjoin.symm).2 ⟨hset, hvalue, hdelete, hvalue'⟩
  rw [store_applyOps, ops_queued]
  exact run_foldl_addOp S.multi hfaithful (guarded_of_noneCancelled hcancel) t.store

end VyosClient.FirewallQueue
