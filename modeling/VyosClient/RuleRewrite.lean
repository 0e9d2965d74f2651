import VyosClient.SubtreeReplay

/-!
Rewriting rules under new numbers. What a list of changes leaves under every
number is computed once; a full assignment of new numbers to the rules of a
ruleset then reads back as the assigned rules in ascending order of number.
-/

namespace VyosClient.RuleRewrite

open PathStore ConfigTrees Configure FirewallParse FirewallRuleForm SubtreeReplay

/-- The numeric value of a rule number, 0 where it has none. -/
def rank (ruleNumber : String) : ℕ := (number ruleNumber).getD 0

/-- The rule numbers are positive integers, none of them twice. -/
structure Numbered (rules : List FirewallRule) : Prop where
  positive : ∀ r ∈ rules, 0 < rank r.number
  distinct : (rules.map fun r => rank r.number).Nodup

/-- What the configuration holds below the number of a rule. -/
def bodyOf (r : FirewallRule) : Store String String :=
  match r.raw with
  | some c => c.store
  | none => fun _ => none

/-- The rules of a ruleset, as parsed from a tree. -/
def rulesAt (ref : RulesetRef) (t : ConfigTree) : List FirewallRule :=
  parseRules ref.family (t.get (rulesetPath ref []))

/-- Several values only stand where VyOS accumulates them. -/
def Allowed (S : Schema) (t : ConfigTree) : Prop :=
  ∀ p vs, t.store p = some vs → 2 ≤ vs.length → S.multi p = true

/-- The rules of a ruleset share their definition, whatever their number. -/
def Uniform (S : Schema) (ref : RulesetRef) : Prop :=
  ∀ m n q, S.multi (rulePath ref m q) = S.multi (rulePath ref n q)

/-- No leaf of a rule holds the empty string. -/
def NoBlank (r : FirewallRule) : Prop := ∀ q vs, bodyOf r q = some vs → "" ∉ vs

theorem allowed_empty (S : Schema) : Allowed S (.node []) := by
  intro p vs hp hlen
  cases p with
  | nil =>
    obtain rfl : [] = vs := by simpa [ConfigTree.values] using hp
    simp at hlen
  | cons k p => cases hp

/-- VyOS keeps to its own definitions. -/
theorem Allowed.applyOps {S : Schema} {t : ConfigTree} (h : Allowed S t) (ops : List ConfigOp) :
    Allowed S (applyOps S t ops) := by
  intro p
  have hstep : ∀ x : Slot String, (∀ vs, x = some vs → 2 ≤ vs.length → S.multi p = true) →
      ∀ o vs, actOp S p x o = some vs → 2 ≤ vs.length → S.multi p = true := by
    intro x hx o vs hvs hlen
    unfold actOp at hvs
    cases he : o.toEdit with
    | none =>
      rw [he] at hvs
      exact hx vs hvs hlen
    | some e =>
      rw [he] at hvs
      rcases multi_of_act S.multi hvs hlen with hmulti | ⟨old, hold, hlen'⟩
      · exact hmulti
      · exact hx old hold hlen'
  rw [store_applyOps, run_edits_apply]
  have hstart := h p
  generalize t.store p = x at hstart
  induction ops generalizing x with
  | nil => exact hstart
  | cons o ops ih => exact ih _ fun vs hvs => hstep x hstart o vs hvs

theorem number_eq_rank {n : String} (h : 0 < rank n) : number n = some (rank n) := by
  unfold rank at h ⊢
  cases hn : number n with
  | none =>
    rw [hn, Option.getD_none] at h
    omega
  | some m => rw [Option.getD_some]

theorem rank_toString (n : ℕ) : rank (toString n) = n := by
  rw [rank, number_toString, Option.getD_some]

/-- In a list that ascends by rank, the rank tells the elements apart. -/
theorem eq_of_rank_eq {α : Type*} {f : α → ℕ} {L : List α} (h : L.Pairwise fun a b => f a < f b)
    {a b : α} (ha : a ∈ L) (hb : b ∈ L) (hab : f a = f b) : a = b := by
  have hnodup : (L.map f).Nodup := List.pairwise_map.mpr (h.imp ne_of_lt)
  exact List.inj_on_of_nodup_map hnodup ha hb hab

section Reading

variable {ref : RulesetRef} {t : ConfigTree}

theorem child_rule (ref : RulesetRef) (t : ConfigTree) :
    ConfigTrees.child (t.get (rulesetPath ref [])) "rule" = t.get (rulesetPath ref ["rule"]) := by
  rw [t.child_get, ← rulesetPath_append]
  rfl

/-- The rules of a ruleset are the sorted entries of its `rule` node, if it
has one. -/
theorem rulesAt_cases (ref : RulesetRef) (t : ConfigTree) :
    (∃ es, t.get (rulesetPath ref ["rule"]) = some (.node es) ∧ rulesAt ref t =
      (es.map fun e => parseRule ref.family e.1 (some e.2)).insertionSort numberLe) ∨
      rulesAt ref t = [] ∧ ∀ n, t.get (rulePath ref n []) = none := by
  have hget : ∀ n, t.get (rulePath ref n []) =
      ConfigTrees.child (t.get (rulesetPath ref ["rule"])) n := by
    intro n
    rw [t.child_get, rulePath_eq]
  simp only [rulesAt, parseRules, child_rule, hget]
  cases t.get (rulesetPath ref ["rule"]) with
  | none => exact Or.inr ⟨rfl, fun _ => rfl⟩
  | some d =>
    cases d with
    | leaf v => exact Or.inr ⟨rfl, fun _ => rfl⟩
    | multi vs => exact Or.inr ⟨rfl, fun _ => rfl⟩
    | node es => exact Or.inl ⟨es, rfl, rfl⟩

/-- The rules of a ruleset are the nodes below `rule`. -/
theorem mem_rulesAt (h : t.WellFormed) {r : FirewallRule} :
    r ∈ rulesAt ref t ↔
      ∃ c, t.get (rulePath ref r.number []) = some c ∧
        r = parseRule ref.family r.number (some c) := by
  rcases rulesAt_cases ref t with ⟨es, hnode, hrules⟩ | ⟨hrules, hnone⟩
  · have hkeys := h.keys_nodup _ es hnode
    have hget : t.get (rulePath ref r.number []) = es.lookup r.number := by
      rw [rulePath_eq, ← t.child_get, hnode]
      rfl
    rw [hrules, List.mem_insertionSort, List.mem_map, hget]
    constructor
    · rintro ⟨e, he, rfl⟩
      exact ⟨e.2, lookup_eq_some_of_mem hkeys he, rfl⟩
    · rintro ⟨c, hc, hr⟩
      exact ⟨(r.number, c), mem_of_lookup_eq_some hc, hr.symm⟩
  · simp [hrules, hnone]

theorem numbers_nodup (ref : RulesetRef) (h : t.WellFormed) :
    ((rulesAt ref t).map FirewallRule.number).Nodup := by
  rcases rulesAt_cases ref t with ⟨es, hnode, hrules⟩ | ⟨hrules, -⟩
  · rw [hrules, ((List.perm_insertionSort _ _).map _).nodup_iff, List.map_map]
    exact h.keys_nodup _ es hnode
  · simp [hrules]

/-- A parsed rule keeps the whole subtree of its number. -/
theorem store_of_mem (h : t.WellFormed) {r : FirewallRule} (hr : r ∈ rulesAt ref t) (q : Path) :
    t.store (rulePath ref r.number q) = bodyOf r q := by
  obtain ⟨c, hc, hrule⟩ := (mem_rulesAt h).mp hr
  have hbody : bodyOf r = c.store := by
    rw [hrule]
    rfl
  have hsplit : rulePath ref r.number q = rulePath ref r.number [] ++ q :=
    rulePath_append ref r.number [] q
  rw [hsplit, t.store_append, hc, Option.bind_some, hbody]

/-- A number is taken when there is something at it. -/
theorem mem_numbers_iff (h : t.WellFormed) {n : String} :
    n ∈ (rulesAt ref t).map FirewallRule.number ↔ (t.store (rulePath ref n [])).isSome := by
  rw [t.store_apply, Option.isSome_map]
  constructor
  · intro hn
    obtain ⟨r, hr, rfl⟩ := List.mem_map.mp hn
    obtain ⟨c, hc, -⟩ := (mem_rulesAt h).mp hr
    rw [hc]
    rfl
  · intro hsome
    obtain ⟨c, hc⟩ := Option.isSome_iff_exists.mp hsome
    have hmem : parseRule ref.family n (some c) ∈ rulesAt ref t := (mem_rulesAt h).mpr ⟨c, hc, rfl⟩
    exact List.mem_map.mpr ⟨_, hmem, rfl⟩

/-- Where there is no rule, there is nothing below its number. -/
theorem store_of_absent (h : t.WellFormed) {n : String}
    (hn : n ∉ (rulesAt ref t).map FirewallRule.number) (q : Path) :
    t.store (rulePath ref n q) = none := by
  rw [mem_numbers_iff h, t.store_apply, Option.isSome_map, Option.not_isSome_iff_eq_none] at hn
  have hsplit : rulePath ref n q = rulePath ref n [] ++ q := rulePath_append ref n [] q
  rw [hsplit, t.store_append, hn, Option.bind_none]

/-- Rules numbered with integers stand in ascending order. -/
theorem rulesAt_pairwise (hnum : ∀ r ∈ rulesAt ref t, 0 < rank r.number) :
    (rulesAt ref t).Pairwise fun a b => rank a.number ≤ rank b.number := by
  rcases rulesAt_cases ref t with ⟨es, -, hrules⟩ | ⟨hrules, -⟩
  · rw [hrules] at hnum ⊢
    generalize es.map (fun e => parseRule ref.family e.1 (some e.2)) = rules at hnum ⊢
    have hle : ∀ a ∈ rules, ∀ b ∈ rules, numberLe a b ↔ rank a.number ≤ rank b.number := by
      intro a ha b hb
      have hm := number_eq_rank (hnum a ((List.mem_insertionSort _).mpr ha))
      have hn := number_eq_rank (hnum b ((List.mem_insertionSort _).mpr hb))
      simp only [numberLe, hm, hn]
    have hmap := List.map_insertionSort numberLe (fun m n : ℕ => m ≤ n)
      (fun r => rank r.number) rules hle
    have hsorted := List.pairwise_insertionSort (fun m n : ℕ => m ≤ n)
      (rules.map fun r => rank r.number)
    rw [← hmap] at hsorted
    exact List.pairwise_map.mp hsorted
  · simp [hrules]

theorem Numbered.ascending (hnum : Numbered (rulesAt ref t)) :
    (rulesAt ref t).Pairwise fun a b => rank a.number < rank b.number := by
  have hdistinct := List.pairwise_map.mp hnum.distinct
  exact ((rulesAt_pairwise hnum.positive).and hdistinct).imp fun hab => lt_of_le_of_ne hab.1 hab.2

/-- The parser reads a body under its number as soon as the tree holds it there. -/
theorem mem_bodies_iff (h : t.WellFormed) {L : List (String × Store String String)}
    (hstore : ∀ n, n ∉ L.map Prod.fst → t.store (rulePath ref n []) = none)
    (hbody : ∀ a ∈ L, (a.2 []).isSome ∧ ∀ q, t.store (rulePath ref a.1 q) = a.2 q)
    (a : String × Store String String) :
    a ∈ (rulesAt ref t).map (fun r => (r.number, bodyOf r)) ↔ a ∈ L := by
  constructor
  · intro ha
    obtain ⟨r, hr, rfl⟩ := List.mem_map.mp ha
    by_cases hn : r.number ∈ L.map Prod.fst
    · obtain ⟨b, hb, hnumber⟩ := List.mem_map.mp hn
      have hsame : bodyOf r = b.2 := by
        funext q
        rw [← store_of_mem h hr, ← hnumber]
        exact (hbody b hb).2 q
      rwa [hsame, ← hnumber]
    · obtain ⟨c, hc, -⟩ := (mem_rulesAt h).mp hr
      have hnone := hstore _ hn
      rw [t.store_apply, hc] at hnone
      cases hnone
  · intro ha
    obtain ⟨hsome, hq⟩ := hbody a ha
    have hroot := hq []
    rw [t.store_apply] at hroot
    cases hget : t.get (rulePath ref a.1 []) with
    | none =>
      rw [hget, Option.map_none] at hroot
      rw [← hroot] at hsome
      cases hsome
    | some c =>
      have hr : parseRule ref.family a.1 (some c) ∈ rulesAt ref t :=
        (mem_rulesAt h).mpr ⟨c, hget, rfl⟩
      refine List.mem_map.mpr ⟨_, hr, ?_⟩
      have hsame : bodyOf (parseRule ref.family a.1 (some c)) = a.2 := by
        funext q
        rw [← hq q]
        exact (store_of_mem h hr q).symm
      rw [hsame, number_parseRule]

/-- A list of numbered bodies in ascending order is what the parser reads, as
soon as it is what the tree holds below `rule`. -/
theorem rulesAt_eq (h : t.WellFormed) {L : List (String × Store String String)}
    (hnum : ∀ a ∈ L, 0 < rank a.1) (hsorted : L.Pairwise fun a b => rank a.1 < rank b.1)
    (hstore : ∀ n, n ∉ L.map Prod.fst → t.store (rulePath ref n []) = none)
    (hbody : ∀ a ∈ L, (a.2 []).isSome ∧ ∀ q, t.store (rulePath ref a.1 q) = a.2 q) :
    (rulesAt ref t).map (fun r => (r.number, bodyOf r)) = L := by
  have hmem := mem_bodies_iff h hstore hbody
  have hnodup : ((rulesAt ref t).map fun r => (r.number, bodyOf r)).Nodup := by
    refine List.Nodup.of_map Prod.fst ?_
    rw [List.map_map]
    exact numbers_nodup ref h
  have hnodup' : L.Nodup := hsorted.imp fun hab => by
    rintro rfl
    exact absurd hab (lt_irrefl _)
  have hperm := (List.perm_ext_iff_of_nodup hnodup hnodup').mpr hmem
  have hparsed : ((rulesAt ref t).map fun r => (r.number, bodyOf r)).Pairwise
      fun a b => rank a.1 ≤ rank b.1 := by
    refine List.pairwise_map.mpr (rulesAt_pairwise fun r hr => ?_)
    exact hnum (r.number, bodyOf r) ((hmem _).mp (List.mem_map_of_mem hr))
  refine List.Perm.eq_of_pairwise (fun a b ha hb hab hba => ?_) hparsed
    (hsorted.imp le_of_lt) hperm
  exact eq_of_rank_eq hsorted ((hmem a).mp ha) hb (le_antisymm hab hba)

end Reading

/-- The subtrees that are replayed, under their new numbers. -/
def replayed (changes : List (FirewallRule × String)) : List (String × ConfigTree) :=
  changes.filterMap fun c => c.1.raw.map fun raw => (c.2, raw)

def oldNumbers (changes : List (FirewallRule × String)) : List String :=
  changes.map fun c => c.1.number

section Changes

variable {ref : RulesetRef} {changes : List (FirewallRule × String)}

theorem mem_replayed {e : String × ConfigTree} :
    e ∈ replayed changes ↔ ∃ c ∈ changes, c.2 = e.1 ∧ c.1.raw = some e.2 := by
  simp only [replayed, List.mem_filterMap, Option.map_eq_some_iff]
  constructor
  · rintro ⟨c, hc, raw, hraw, rfl⟩
    exact ⟨c, hc, rfl, hraw⟩
  · rintro ⟨c, hc, hnumber, hraw⟩
    exact ⟨c, hc, e.2, hraw, by rw [hnumber]⟩

theorem replayed_cons {c : FirewallRule × String} {raw : ConfigTree} (hc : c.1.raw = some raw) :
    replayed (c :: changes) = (c.2, raw) :: replayed changes := by
  simp [replayed, hc]

theorem keys_replayed (hraw : ∀ c ∈ changes, c.1.raw.isSome) :
    (replayed changes).map Prod.fst = changes.map Prod.snd := by
  induction changes with
  | nil => rfl
  | cons c changes ih =>
    obtain ⟨raw, hc⟩ := Option.isSome_iff_exists.mp (hraw c List.mem_cons_self)
    rw [replayed_cons hc, List.map_cons, List.map_cons]
    rw [ih fun c' hc' => hraw c' (List.mem_cons_of_mem _ hc')]

/-- The changes of rules that were parsed replay entries of the `rule` node. -/
theorem changeOps_eq (ref : RulesetRef) (hraw : ∀ c ∈ changes, c.1.raw.isSome) :
    changeOps ref changes =
      (changes.map fun c => (⟨.delete, rulePath ref c.1.number [], none⟩ : ConfigOp)) ++
        subtreeToSetOps.entriesToSetOps (rulesetPath ref ["rule"]) (replayed changes) := by
  unfold changeOps
  congr 1
  induction changes with
  | nil => rfl
  | cons c changes ih =>
    obtain ⟨raw, hc⟩ := Option.isSome_iff_exists.mp (hraw c List.mem_cons_self)
    have hrest := ih fun c' hc' => hraw c' (List.mem_cons_of_mem _ hc')
    rw [List.flatMap_cons, hrest, replayed_cons hc, subtreeToSetOps.entriesToSetOps, hc,
      ← rulePath_eq]

/-- Deleting rules empties what stood at their numbers. -/
theorem run_deletes (S : Schema) (ref : RulesetRef) (numbers : List String)
    (s : Store String String) (p : Path) :
    run S.multi s (edits (numbers.map fun n => ⟨.delete, rulePath ref n [], none⟩)) p =
      if ∃ n ∈ numbers, rulePath ref n [] <+: p then none else s p := by
  rw [run_edits_apply]
  generalize s p = x
  induction numbers generalizing x with
  | nil => simp
  | cons n numbers ih =>
    rw [List.map_cons, List.foldl_cons, actOp_delete S (rulePath_ne_nil ref n []), ih]
    by_cases hn : rulePath ref n [] <+: p
    · simp [hn]
    · simp [hn]

theorem rulePath_prefix_iff {m n : String} {q : Path} :
    rulePath ref m [] <+: rulePath ref n q ↔ m = n := by
  rw [rulePath_eq, rulePath_eq, List.prefix_append_right_inj, List.cons_prefix_cons]
  exact and_iff_left (List.nil_prefix)

/-- What a list of changes leaves below the number `n`: the subtree replayed
there, or else what stood there unless it was deleted. -/
theorem run_changeOps (S : Schema) (hraw : ∀ c ∈ changes, c.1.raw.isSome)
    (hnew : (changes.map Prod.snd).Nodup)
    (hreplay : ∀ e ∈ replayed changes, Replayable S (rulePath ref e.1 []) e.2)
    {s : Store String String}
    (hfresh : ∀ c ∈ changes, c.2 ∈ oldNumbers changes ∨ ∀ q, s (rulePath ref c.2 q) = none)
    (n : String) (q : Path) :
    run S.multi s (edits (changeOps ref changes)) (rulePath ref n q) =
      match (replayed changes).lookup n with
      | some c => c.store q
      | none => if n ∈ oldNumbers changes then none else s (rulePath ref n q) := by
  have hdeletes : (changes.map fun c => (⟨.delete, rulePath ref c.1.number [], none⟩ : ConfigOp)) =
      (oldNumbers changes).map fun n => ⟨.delete, rulePath ref n [], none⟩ := by
    rw [oldNumbers, List.map_map]
    rfl
  have hslot : ∀ n q, run S.multi s (edits ((oldNumbers changes).map
      fun n => ⟨.delete, rulePath ref n [], none⟩)) (rulePath ref n q) =
        if n ∈ oldNumbers changes then none else s (rulePath ref n q) := by
    intro n q
    rw [run_deletes]
    simp only [rulePath_prefix_iff, exists_eq_right]
  rw [changeOps_eq ref hraw, edits_append, run_append, hdeletes, rulePath_eq]
  refine (run_entriesToSetOps S (replayed changes) (rulesetPath ref ["rule"]) _ ?_ ?_ ?_ n q).trans ?_
  · rw [keys_replayed hraw]
    exact hnew
  · intro e he
    rw [← rulePath_eq]
    exact hreplay e he
  · intro k hk q'
    rw [keys_replayed hraw] at hk
    obtain ⟨c, hc, rfl⟩ := List.mem_map.mp hk
    rw [← rulePath_eq, hslot]
    by_cases hold : c.2 ∈ oldNumbers changes
    · rw [if_pos hold]
    · rw [if_neg hold]
      exact (hfresh c hc).resolve_left hold q'
  · rw [← rulePath_eq]
    cases (replayed changes).lookup n with
    | some c => rfl
    | none => exact hslot n q

/-- Changes only reach below the numbers they name. -/
theorem run_changeOps_outside (S : Schema) (hraw : ∀ c ∈ changes, c.1.raw.isSome) {p : Path}
    (hp : ∀ c ∈ changes, ¬ rulePath ref c.1.number [] <+: p ∧ ¬ rulePath ref c.2 [] <+: p)
    {s : Store String String} (habove : p <+: rulesetPath ref ["rule"] → s p = some []) :
    run S.multi s (edits (changeOps ref changes)) p = s p := by
  rw [changeOps_eq ref hraw, edits_append, run_append, run_edits_apply]
  have hdeletes : run S.multi s (edits (changes.map fun c =>
      (⟨.delete, rulePath ref c.1.number [], none⟩ : ConfigOp))) p = s p := by
    have hrun := run_deletes S ref (oldNumbers changes) s p
    rw [oldNumbers, List.map_map, if_neg] at hrun
    · exact hrun
    · rintro ⟨n, hn, hprefix⟩
      obtain ⟨c, hc, rfl⟩ := List.mem_map.mp hn
      exact (hp c hc).1 hprefix
  rw [hdeletes]
  refine foldl_actOp_of_forall S fun o ho => ?_
  obtain ⟨hkind, e, he, hpath⟩ := mem_entriesToSetOps _ _ _ ho
  obtain ⟨c, hc, hnumber, -⟩ := mem_replayed.mp he
  have hbelow : ¬ rulesetPath ref ["rule"] ++ [e.1] <+: p := by
    rw [← rulePath_eq, ← hnumber]
    exact (hp c hc).2
  by_cases hprefix : p <+: o.path
  · have hcases := List.prefix_or_prefix_of_prefix hprefix hpath
    have habove' : p <+: rulesetPath ref ["rule"] := by
      rcases List.prefix_concat_iff.mp (hcases.resolve_right hbelow) with heq | hle
      · exact absurd (heq ▸ List.prefix_refl _) hbelow
      · exact hle
    have hne : p ≠ o.path := fun heq => hbelow (heq ▸ hpath)
    rw [habove habove', actOp_above S hprefix hne, if_pos hkind]
  · exact actOp_of_apart S ⟨fun hle => hbelow (hpath.trans hle), hprefix⟩ _

end Changes

section Assignment

variable {ref : RulesetRef} {t : ConfigTree}

theorem raw_isSome (h : t.WellFormed) {r : FirewallRule} (hr : r ∈ rulesAt ref t) :
    r.raw.isSome := by
  obtain ⟨c, -, hrule⟩ := (mem_rulesAt h).mp hr
  rw [hrule]
  rfl

/-- A parsed rule keeps the subtree that was fetched at its number. -/
theorem get_of_raw (h : t.WellFormed) {r : FirewallRule} (hr : r ∈ rulesAt ref t) {c : ConfigTree}
    (hc : r.raw = some c) : t.get (rulePath ref r.number []) = some c := by
  obtain ⟨d, hd, hrule⟩ := (mem_rulesAt h).mp hr
  rw [hrule, raw_parseRule] at hc
  exact hd.trans hc

/-- Parsed rules can be replayed under any number. -/
theorem replayable (S : Schema) (h : t.WellFormed) (hallowed : Allowed S t)
    (huniform : Uniform S ref) {r : FirewallRule} (hr : r ∈ rulesAt ref t) (hblank : NoBlank r)
    (n : String) {c : ConfigTree} (hc : r.raw = some c) :
    Replayable S (rulePath ref n []) c := by
  have hget := get_of_raw h hr hc
  refine ⟨h.get hget, fun p e he => hblank p e.values ?_, fun p vs hvs hlen => ?_⟩
  · simp only [bodyOf, hc]
    rw [c.store_apply, he, Option.map_some]
  · have hstore : t.store (rulePath ref r.number [] ++ p) = some vs := by
      rw [t.store_append, hget, Option.bind_some, c.store_apply, hvs]
      rfl
    have hmulti := hallowed _ vs hstore hlen
    rw [← rulePath_append, List.nil_append] at hmulti ⊢
    rw [← hmulti]
    exact huniform n r.number p

/-- Two rules of one number are one rule. -/
theorem eq_of_number_eq (h : t.WellFormed) {r r' : FirewallRule} (hr : r ∈ rulesAt ref t)
    (hr' : r' ∈ rulesAt ref t) (hnumber : r.number = r'.number) : r = r' :=
  List.inj_on_of_nodup_map (numbers_nodup ref h) hr hr' hnumber

/-- Every rule of the ruleset gets one number, and no two the same. -/
structure Assigns (ref : RulesetRef) (t : ConfigTree) (assign : List (FirewallRule × String)) :
    Prop where
  perm : (assign.map Prod.fst).Perm (rulesAt ref t)
  positive : ∀ a ∈ assign, 0 < rank a.2
  ascending : assign.Pairwise fun a b => rank a.2 < rank b.2

namespace Assigns

variable {assign : List (FirewallRule × String)} (ha : Assigns ref t assign)

include ha

theorem mem_rules {a : FirewallRule × String} (hmem : a ∈ assign) : a.1 ∈ rulesAt ref t :=
  ha.perm.mem_iff.mp (List.mem_map_of_mem hmem)

theorem eq_of_new (a b : FirewallRule × String) (hmem : a ∈ assign) (hmem' : b ∈ assign)
    (hab : a.2 = b.2) : a = b :=
  eq_of_rank_eq ha.ascending hmem hmem' (by rw [hab])

theorem eq_of_old (h : t.WellFormed) {a b : FirewallRule × String} (hmem : a ∈ assign)
    (hmem' : b ∈ assign) (hab : a.1.number = b.1.number) : a = b := by
  have hrules : (assign.map Prod.fst).Nodup := by
    rw [ha.perm.nodup_iff]
    exact (numbers_nodup ref h).of_map
  exact List.inj_on_of_nodup_map hrules hmem hmem'
    (eq_of_number_eq h (ha.mem_rules hmem) (ha.mem_rules hmem') hab)

theorem exists_of_number {n : String} (hn : n ∈ (rulesAt ref t).map FirewallRule.number) :
    ∃ a ∈ assign, a.1.number = n := by
  obtain ⟨r, hr, rfl⟩ := List.mem_map.mp hn
  obtain ⟨a, hmem, rfl⟩ := List.mem_map.mp (ha.perm.mem_iff.mpr hr)
  exact ⟨a, hmem, rfl⟩

end Assigns

section Carried

variable {S : Schema} {assign : List (FirewallRule × String)} {p : FirewallRule × String → Bool}

/-- The numbers a change frees are old numbers; a rule outside them keeps its
number. -/
theorem Assigns.kept (hp : ∀ a ∈ assign, a.1.number ≠ a.2 → p a = true) {a : FirewallRule × String}
    (hmem : a ∈ assign) (hnot : a.1.number ∉ oldNumbers (assign.filter p)) :
    a.1.number = a.2 := by
  by_contra hne
  exact hnot (List.mem_map.mpr ⟨a, List.mem_filter.mpr ⟨hmem, hp a hmem hne⟩, rfl⟩)

theorem Assigns.keys_replayed (h : t.WellFormed) (ha : Assigns ref t assign) :
    (replayed (assign.filter p)).map Prod.fst = (assign.filter p).map Prod.snd ∧
      ((assign.filter p).map Prod.snd).Nodup := by
  refine ⟨RuleRewrite.keys_replayed fun c hc => ?_, ?_⟩
  · exact raw_isSome h (ha.mem_rules (List.mem_filter.mp hc).1)
  · refine List.pairwise_map.mpr ((ha.ascending.sublist List.filter_sublist).imp fun hab heq => ?_)
    rw [heq] at hab
    exact lt_irrefl _ hab

/-- Nothing is left under a new number once the old ones are deleted. -/
theorem Assigns.fresh (h : t.WellFormed) (ha : Assigns ref t assign)
    (hp : ∀ a ∈ assign, a.1.number ≠ a.2 → p a = true) {c : FirewallRule × String}
    (hc : c ∈ assign.filter p) :
    c.2 ∈ oldNumbers (assign.filter p) ∨ ∀ q, t.store (rulePath ref c.2 q) = none := by
  by_cases hold : c.2 ∈ oldNumbers (assign.filter p)
  · exact Or.inl hold
  · refine Or.inr fun q => store_of_absent h (fun hrule => ?_) q
    obtain ⟨a, hmem, hnumber⟩ := ha.exists_of_number hrule
    have hkept := kept hp hmem (hnumber ▸ hold)
    have hac : a = c :=
      ha.eq_of_new a c hmem (List.mem_filter.mp hc).1 (hkept.symm.trans hnumber)
    subst hac
    exact hold (List.mem_map.mpr ⟨a, hc, hnumber⟩)

/-- Carrying out changes of an assignment, number by number. The rules that
keep their number may be left out. -/
theorem Assigns.store_applyOps (h : t.WellFormed) (ha : Assigns ref t assign)
    (hp : ∀ a ∈ assign, a.1.number ≠ a.2 → p a = true)
    (hreplay : ∀ a ∈ assign, p a = true → ∀ c, a.1.raw = some c →
      Replayable S (rulePath ref a.2 []) c) (n : String) (q : Path) :
    (applyOps S t (changeOps ref (assign.filter p))).store (rulePath ref n q) =
      match (replayed (assign.filter p)).lookup n with
      | some c => c.store q
      | none =>
          if n ∈ oldNumbers (assign.filter p) then none else t.store (rulePath ref n q) := by
  have hmem : ∀ c ∈ assign.filter p, c ∈ assign ∧ p c = true := fun c hc => List.mem_filter.mp hc
  rw [Configure.store_applyOps]
  refine run_changeOps S (fun c hc => raw_isSome h (ha.mem_rules (hmem c hc).1))
    (ha.keys_replayed h).2 ?_ (fun c hc => ha.fresh h hp hc) n q
  intro e he
  obtain ⟨c, hc, hnumber, hce⟩ := mem_replayed.mp he
  rw [← hnumber]
  exact hreplay c (hmem c hc).1 (hmem c hc).2 e.2 hce

/-- Every rule ends up under the number assigned to it. -/
theorem Assigns.store_new (h : t.WellFormed) (ha : Assigns ref t assign)
    (hp : ∀ a ∈ assign, a.1.number ≠ a.2 → p a = true)
    (hreplay : ∀ a ∈ assign, p a = true → ∀ c, a.1.raw = some c →
      Replayable S (rulePath ref a.2 []) c) {a : FirewallRule × String} (hmem : a ∈ assign)
    (q : Path) :
    (applyOps S t (changeOps ref (assign.filter p))).store (rulePath ref a.2 q) = bodyOf a.1 q := by
  obtain ⟨hkeys, hnodup⟩ := ha.keys_replayed (p := p) h
  obtain ⟨c, hc⟩ := Option.isSome_iff_exists.mp (raw_isSome h (ha.mem_rules hmem))
  rw [ha.store_applyOps h hp hreplay]
  by_cases hpa : p a = true
  · have hentry : (a.2, c) ∈ replayed (assign.filter p) :=
      mem_replayed.mpr ⟨a, List.mem_filter.mpr ⟨hmem, hpa⟩, rfl, hc⟩
    have hbody : bodyOf a.1 = c.store := by
      simp only [bodyOf, hc]
    rw [lookup_eq_some_of_mem (by rwa [hkeys]) hentry, hbody]
  · have hkept : a.1.number = a.2 := by
      by_contra hne
      exact hpa (hp a hmem hne)
    have hlookup : (replayed (assign.filter p)).lookup a.2 = none := by
      rw [lookup_eq_none_iff, hkeys]
      intro hkey
      obtain ⟨c', hc', hnumber⟩ := List.mem_map.mp hkey
      have hac := ha.eq_of_new c' a (List.mem_filter.mp hc').1 hmem hnumber
      exact hpa (hac ▸ (List.mem_filter.mp hc').2)
    have hold : a.2 ∉ oldNumbers (assign.filter p) := by
      intro hold
      obtain ⟨c', hc', hnumber⟩ := List.mem_map.mp hold
      have hac := ha.eq_of_old h (List.mem_filter.mp hc').1 hmem (hnumber.trans hkept.symm)
      exact hpa (hac ▸ (List.mem_filter.mp hc').2)
    rw [hlookup]
    show (if a.2 ∈ oldNumbers (assign.filter p) then none else _) = _
    rw [if_neg hold, ← hkept]
    exact store_of_mem h (ha.mem_rules hmem) q

/-- A number that is assigned to no rule ends up free. -/
theorem Assigns.store_free (h : t.WellFormed) (ha : Assigns ref t assign)
    (hp : ∀ a ∈ assign, a.1.number ≠ a.2 → p a = true)
    (hreplay : ∀ a ∈ assign, p a = true → ∀ c, a.1.raw = some c →
      Replayable S (rulePath ref a.2 []) c) {n : String} (hn : ∀ a ∈ assign, a.2 ≠ n) (q : Path) :
    (applyOps S t (changeOps ref (assign.filter p))).store (rulePath ref n q) = none := by
  have hlookup : (replayed (assign.filter p)).lookup n = none := by
    rw [lookup_eq_none_iff, (ha.keys_replayed h).1]
    intro hkey
    obtain ⟨c, hc, hnumber⟩ := List.mem_map.mp hkey
    exact hn c (List.mem_filter.mp hc).1 hnumber
  rw [ha.store_applyOps h hp hreplay, hlookup]
  by_cases hold : n ∈ oldNumbers (assign.filter p)
  · exact if_pos hold
  · refine (if_neg hold).trans (store_of_absent h (fun hrule => ?_) q)
    obtain ⟨a, hmem, rfl⟩ := ha.exists_of_number hrule
    exact hn a hmem (kept hp hmem hold).symm

/-- The ruleset reads back as the assigned rules, in ascending order. -/
theorem Assigns.rulesAt_applyOps (h : t.WellFormed) (ha : Assigns ref t assign)
    (hp : ∀ a ∈ assign, a.1.number ≠ a.2 → p a = true)
    (hreplay : ∀ a ∈ assign, p a = true → ∀ c, a.1.raw = some c →
      Replayable S (rulePath ref a.2 []) c) :
    (rulesAt ref (applyOps S t (changeOps ref (assign.filter p)))).map
        (fun r => (r.number, bodyOf r)) =
      assign.map fun a => (a.2, bodyOf a.1) := by
  refine rulesAt_eq (WellFormed.applyOps h S _) ?_ ?_ ?_ ?_
  · intro b hb
    obtain ⟨a, hmem, rfl⟩ := List.mem_map.mp hb
    exact ha.positive a hmem
  · exact List.pairwise_map.mpr ha.ascending
  · intro n hn
    refine ha.store_free h hp hreplay (fun a hmem heq => hn ?_) []
    exact List.mem_map.mpr ⟨_, List.mem_map_of_mem hmem, heq⟩
  · intro b hb
    obtain ⟨a, hmem, rfl⟩ := List.mem_map.mp hb
    obtain ⟨c, hc⟩ := Option.isSome_iff_exists.mp (raw_isSome h (ha.mem_rules hmem))
    refine ⟨?_, ha.store_new h hp hreplay hmem⟩
    simp [bodyOf, hc]

end Carried

end Assignment

end VyosClient.RuleRewrite
