import VyosClient.ConfigHandlers
import VyosClient.RuleReorder

/-!
Reordering rules that were fetched masked. The page parses the masked tree, so
a rule keeps masked values in the subtree it replays; a reorder is safe exactly
when no rule it renumbers has a masked leaf.
-/

namespace VyosClient.MaskedReorder

open PathStore ConfigTrees Configure Mask ConfigHandlers FirewallParse FirewallRuleForm
  SubtreeReplay RuleRewrite RuleReorder

/-- The firewall as the pages fetch it. -/
def fetched (t : ConfigTree) : Unknown := handleGetConfigTree t ["firewall"]

/-- A rule of the configuration as the page knows it. -/
def maskedRule (ref : RulesetRef) (r : FirewallRule) : FirewallRule :=
  parseRule ref.family r.number (r.raw.map fun c => tree c (rulePath ref r.number []))

@[simp] theorem number_maskedRule (ref : RulesetRef) (r : FirewallRule) :
    (maskedRule ref r).number = r.number := rfl

theorem fetched_eq (t : ConfigTree) : fetched t = (tree t []).get ["firewall"] := by
  rw [fetched, handleGetConfigTree, get_tree]
  rfl

theorem keys_nodup_tree {t : ConfigTree} (h : t.WellFormed) (path p : Path)
    (es : List (String × ConfigTree)) (hes : (tree t path).get p = some (.node es)) :
    (es.map Prod.fst).Nodup := by
  rw [get_tree] at hes
  obtain ⟨c, hc, hnode⟩ := Option.map_eq_some_iff.mp hes
  cases c with
  | leaf v =>
    unfold tree at hnode
    split_ifs at hnode
  | multi vs =>
    unfold tree at hnode
    split_ifs at hnode
  | node es' =>
    rw [tree, ConfigTree.node.injEq] at hnode
    rw [← hnode, keys_treeEntries]
    exact h.keys_nodup p es' hc

/-- The fetched rules are the real ones, masked. -/
theorem rulesAt_tree (ref : RulesetRef) (t : ConfigTree) :
    rulesAt ref (tree t []) = (rulesAt ref t).map (maskedRule ref) := by
  rw [rulesAt, rulesAt, parseRules, parseRules, child_rule, child_rule, get_tree, List.nil_append]
  cases t.get (rulesetPath ref ["rule"]) with
  | none => rfl
  | some c =>
    cases c with
    | leaf v =>
      simp only [Option.map_some, tree]
      split_ifs <;> rfl
    | multi vs =>
      simp only [Option.map_some, tree]
      split_ifs <;> rfl
    | node es =>
      simp only [Option.map_some, tree]
      rw [List.map_insertionSort numberLe numberLe (maskedRule ref) _ fun _ _ _ _ => Iff.rfl]
      congr 1
      induction es with
      | nil => rfl
      | cons e es ih =>
        obtain ⟨k, d⟩ := e
        rw [treeEntries, List.map_cons, List.map_cons, List.map_cons, ih, ← rulePath_eq]
        rfl

/-- The page's rules of a ruleset, in terms of the configuration. -/
theorem rules_of_mem_fetched {t : ConfigTree} (h : t.WellFormed) {rs : FirewallRuleset}
    (hrs : rs ∈ parseRulesets (fetched t)) :
    rs.rules = (rulesAt rs.ref t).map (maskedRule rs.ref) := by
  rw [fetched_eq] at hrs
  rw [← rulesAt_tree]
  exact rules_of_mem_parseRulesets (keys_nodup_tree h []) hrs

/-- Which rules a reorder renumbers depends on the numbers only. -/
theorem reorderChanges_map {g : FirewallRule → FirewallRule} (hg : ∀ r, (g r).number = r.number)
    (rules : List FirewallRule) (fromIndex toIndex : ℤ) :
    reorderChanges (rules.map g) fromIndex toIndex =
      (reorderChanges rules fromIndex toIndex).map fun c => (g c.1, c.2) := by
  unfold reorderChanges
  rw [List.length_map]
  split_ifs with hguard
  · rfl
  · have hmoved : (moveItem (rules.map g) fromIndex toIndex).filterMap id =
        ((moveItem rules fromIndex toIndex).filterMap id).map g := by
      rw [moveItem_map, List.filterMap_map, List.map_filterMap]
      rfl
    have hnumber : ∀ x : Option FirewallRule, ((x.map g).bind fun r => number r.number) =
        x.bind fun r => number r.number := by
      intro x
      cases x with
      | none => rfl
      | some r => exact congrArg number (hg r)
    rw [hmoved]
    generalize (moveItem rules fromIndex toIndex).filterMap id = moved
    simp only [List.getElem?_map, hnumber]
    split
    · cases moved[toIndex.toNat]? <;> rfl
    · simp only [List.zipIdx_map, List.map_map, List.filter_map, Function.comp_def, Prod.map, id, hg]

section Values

variable {ref : RulesetRef} {t : ConfigTree} {r : FirewallRule} {changes : List (FirewallRule × String)}

/-- What a real rule must not hold to be renumbered from its masked copy. -/
def Unmasked (ref : RulesetRef) (t : ConfigTree) (ruleNumber : String) : Prop :=
  ∀ q vs, t.store (rulePath ref ruleNumber q) = some vs → vs ≠ [] →
    isMaskedPath (rulePath ref ruleNumber q) = false ∧ maskPlaceholder ∉ vs ∧ "" ∉ vs

/-- A leaf of a rule, found in the subtree that the rule keeps. -/
theorem store_of_raw (h : t.WellFormed) (hr : r ∈ rulesAt ref t) {c : ConfigTree}
    (hc : r.raw = some c) (q : Path) : t.store (rulePath ref r.number q) = c.store q := by
  rw [store_of_mem h hr]
  simp only [bodyOf, hc]

/-- Without a masked leaf the page knows the real rule. -/
theorem maskedRule_eq_self (h : t.WellFormed) (hr : r ∈ rulesAt ref t)
    (hclean : Unmasked ref t r.number) : maskedRule ref r = r := by
  obtain ⟨c, hc, hrule⟩ := (mem_rulesAt h).mp hr
  have hraw : r.raw = some c := by
    rw [hrule]
    rfl
  have htree : tree c (rulePath ref r.number []) = c := by
    refine tree_eq_self c _ (h.get hc) fun q d hd hvalues => ?_
    have hstore : t.store (rulePath ref r.number q) = some d.values := by
      rw [store_of_raw h hr hraw, c.store_apply, hd, Option.map_some]
    rw [← rulePath_append, List.nil_append]
    exact (hclean q d.values hstore hvalues).1
  rw [maskedRule, hraw, Option.map_some, htree]
  exact hrule.symm

/-- The values a list of changes sets are values of the rules it renumbers. -/
theorem value_of_mem_changeOps (h : t.WellFormed) (hchanges : ∀ c ∈ changes, c.1 ∈ rulesAt ref t)
    {o : ConfigOp} (ho : o ∈ changeOps ref changes) (hset : o.op = .set) {v : String}
    (hv : o.value = some v) :
    ∃ c ∈ changes, ∃ q vs, t.store (rulePath ref c.1.number q) = some vs ∧ v ∈ vs := by
  rw [changeOps, List.mem_append] at ho
  rcases ho with ho | ho
  · obtain ⟨c, _, rfl⟩ := List.mem_map.mp ho
    cases hset
  · obtain ⟨c, hc, hmem⟩ := List.mem_flatMap.mp ho
    have hr := hchanges c hc
    obtain ⟨raw, hraw⟩ := Option.isSome_iff_exists.mp (raw_isSome h hr)
    rw [hraw] at hmem
    have hwf : raw.WellFormed := h.get (get_of_raw h hr hraw)
    obtain ⟨q, d, hd, hvd⟩ := value_of_mem_subtreeToSetOps raw _ hwf o hmem v hv
    refine ⟨c, hc, q, d.values, ?_, hvd⟩
    rw [store_of_raw h hr hraw, raw.store_apply, hd, Option.map_some]

/-- Every masked value of a renumbered rule is set. -/
theorem masked_mem_changeOps {c : FirewallRule × String} (hc : c ∈ changes) {raw d : ConfigTree}
    (hraw : c.1.raw = some raw) {q : Path} (hd : raw.get q = some d) {v : String}
    (hv : v ∈ (tree d (rulePath ref c.1.number q)).values) :
    ∃ p, (⟨.set, p, some v⟩ : ConfigOp) ∈
      changeOps ref (changes.map fun c => (maskedRule ref c.1, c.2)) := by
  have hmasked : (tree raw (rulePath ref c.1.number [])).get q =
      some (tree d (rulePath ref c.1.number q)) := by
    rw [get_tree, hd, Option.map_some, ← rulePath_append, List.nil_append]
  refine ⟨rulePath ref c.2 [] ++ q, List.mem_append_right _ (List.mem_flatMap.mpr
    ⟨_, List.mem_map_of_mem hc, ?_⟩)⟩
  simp only [maskedRule, raw_parseRule, hraw, Option.map_some]
  exact set_mem_subtreeToSetOps hmasked hv

end Values

section Changes

variable {S : Schema} {ref : RulesetRef} {t : ConfigTree} {assign : List (FirewallRule × String)}
  {p : FirewallRule × String → Bool}

/-- Replaying masked copies is harmless where nothing is masked. -/
theorem keeps_of_unmasked (h : t.WellFormed) (hallowed : Allowed S t) (huniform : Uniform S ref)
    (ha : Assigns ref t assign) (hp : ∀ a ∈ assign, a.1.number ≠ a.2 → p a = true)
    (hclean : ∀ c ∈ assign.filter p, Unmasked ref t c.1.number) :
    (∀ o ∈ changeOps ref (assign.filter p), o.op = .set → o.value ≠ some maskPlaceholder) ∧
      ∀ c ∈ assign.filter p, ∀ q,
        (applyOps S t (changeOps ref (assign.filter p))).store (rulePath ref c.2 q) =
          t.store (rulePath ref c.1.number q) := by
  have hmem : ∀ c ∈ assign.filter p, c.1 ∈ rulesAt ref t :=
    fun c hc => ha.mem_rules (List.mem_filter.mp hc).1
  constructor
  · intro o ho hset hvalue
    obtain ⟨c, hc, q, vs, hstore, hvs⟩ := value_of_mem_changeOps h hmem ho hset hvalue
    exact (hclean c hc q vs hstore (List.ne_nil_of_mem hvs)).2.1 hvs
  · intro c hc q
    have hr := hmem c hc
    rw [store_of_mem h hr]
    refine ha.store_new h hp (fun a ha' hpa d hd => ?_) (List.mem_filter.mp hc).1 q
    have hc' : a ∈ assign.filter p := List.mem_filter.mpr ⟨ha', hpa⟩
    refine replayable S h hallowed huniform (hmem a hc') (fun q vs hq => ?_) a.2 hd
    by_cases hvs : vs = []
    · simp [hvs]
    · rw [← store_of_mem h (hmem a hc')] at hq
      exact (hclean a hc' q vs hq hvs).2.2

/-- A masked or empty leaf of a renumbered rule does not come through. -/
theorem unmasked_of_keeps (h : t.WellFormed) (ha : Assigns ref t assign)
    (hp : ∀ a ∈ assign, a.1.number ≠ a.2 → p a = true)
    (hsets : ∀ o ∈ changeOps ref ((assign.filter p).map fun c => (maskedRule ref c.1, c.2)),
      o.op = .set → o.value ≠ some maskPlaceholder)
    (hkeeps : ∀ c ∈ assign.filter p, ∀ q vs, t.store (rulePath ref c.1.number q) = some vs →
      (applyOps S t (changeOps ref ((assign.filter p).map fun c =>
        (maskedRule ref c.1, c.2)))).store (rulePath ref c.2 q) = some vs)
    {c : FirewallRule × String} (hc : c ∈ assign.filter p) : Unmasked ref t c.1.number := by
  have hr : c.1 ∈ rulesAt ref t := ha.mem_rules (List.mem_filter.mp hc).1
  obtain ⟨raw, hraw⟩ := Option.isSome_iff_exists.mp (raw_isSome h hr)
  intro q vs hstore hvs
  obtain ⟨d, hd, hvalues⟩ : ∃ d, raw.get q = some d ∧ d.values = vs := by
    rw [store_of_raw h hr hraw, raw.store_apply] at hstore
    exact Option.map_eq_some_iff.mp hstore
  have hnot : maskPlaceholder ∉ (tree d (rulePath ref c.1.number q)).values := by
    intro hmem
    obtain ⟨path, hop⟩ := masked_mem_changeOps hc hraw hd hmem
    exact hsets _ hop rfl rfl
  have hpath : isMaskedPath (rulePath ref c.1.number q) = false := by
    rw [← Bool.not_eq_true]
    intro hmasked
    rw [values_tree d hmasked, hvalues] at hnot
    obtain ⟨v, hv⟩ := List.exists_mem_of_ne_nil vs hvs
    exact hnot (List.mem_map.mpr ⟨v, hv, rfl⟩)
  refine ⟨hpath, ?_, ?_⟩
  · rwa [values_tree_of_not d hpath, hvalues] at hnot
  · have hfinal := hkeeps c hc q vs hstore
    rw [store_applyOps, changeOps, edits_append, run_append, run_edits_apply] at hfinal
    have hfree : run S.multi t.store (edits (((assign.filter p).map fun c =>
        (maskedRule ref c.1, c.2)).map fun c => (⟨.delete, rulePath ref c.1.number [], none⟩ :
          ConfigOp))) (rulePath ref c.2 q) = none := by
      have hrun := run_deletes S ref (oldNumbers (assign.filter p)) t.store (rulePath ref c.2 q)
      simp only [oldNumbers, List.map_map, rulePath_prefix_iff, exists_eq_right] at hrun
      rw [List.map_map]
      refine hrun.trans ?_
      split_ifs with hold
      · rfl
      · exact (ha.fresh h hp hc).resolve_left hold q
    rw [hfree] at hfinal
    have hread := congrArg (fun x : Slot String => "" ∉ x.getD []) hfinal
    exact hread.mp (blank_notMem_foldl_actOp S _ _ (by simp))

end Changes

section Fetched

variable {t : ConfigTree} {rs : FirewallRuleset}

/-- Masking leaves the numbers as they are. -/
theorem numbered_rulesAt (h : t.WellFormed) (hrs : rs ∈ parseRulesets (fetched t))
    (hnum : Numbered rs.rules) : Numbered (rulesAt rs.ref t) := by
  rw [rules_of_mem_fetched h hrs] at hnum
  refine ⟨fun r hr => hnum.positive (maskedRule rs.ref r) (List.mem_map_of_mem hr), ?_⟩
  simpa only [List.map_map, Function.comp_def, number_maskedRule] using hnum.distinct

theorem reorderChanges_fetched (h : t.WellFormed) (hrs : rs ∈ parseRulesets (fetched t))
    (fromIndex toIndex : ℤ) :
    reorderChanges rs.rules fromIndex toIndex =
      (reorderChanges (rulesAt rs.ref t) fromIndex toIndex).map
        fun c => (maskedRule rs.ref c.1, c.2) := by
  rw [rules_of_mem_fetched h hrs, reorderChanges_map (number_maskedRule rs.ref)]

/-- The rules renumbered in what was fetched are those renumbered on the device. -/
theorem unmasked_renumbered_iff (h : t.WellFormed) (hrs : rs ∈ parseRulesets (fetched t))
    (hnum : Numbered rs.rules) (fromIndex toIndex : ℤ) :
    (∀ r, Renumbered rs.rules fromIndex toIndex r → Unmasked rs.ref t r.number) ↔
      ∀ c ∈ reorderChanges (rulesAt rs.ref t) fromIndex toIndex, Unmasked rs.ref t c.1.number := by
  have hmem : ∀ r, Renumbered rs.rules fromIndex toIndex r ↔
      ∃ n, (r, n) ∈ reorderChanges rs.rules fromIndex toIndex := by
    intro r
    have hrules := rules_of_mem_fetched h hrs
    rw [← rulesAt_tree] at hrules
    rw [hrules] at hnum ⊢
    exact renumbered_iff hnum
  have hchanges := reorderChanges_fetched h hrs fromIndex toIndex
  constructor
  · intro hr c hc
    refine hr (maskedRule rs.ref c.1) ((hmem _).mpr ⟨c.2, ?_⟩)
    rw [hchanges]
    exact List.mem_map_of_mem hc
  · intro hc r hr
    obtain ⟨n, hn⟩ := (hmem r).mp hr
    rw [hchanges] at hn
    obtain ⟨c, hc', heq⟩ := List.mem_map.mp hn
    have hnumber : c.1.number = r.number := congrArg (fun a => a.1.number) heq
    exact hnumber ▸ hc c hc'

end Fetched

/-- A reorder of the fetched rules sets no placeholder, is not refused for
one, and leaves every renumbered rule with what it really held, if and only if
no rule it renumbers has a masked leaf or a leaf that holds the placeholder or
nothing. -/
theorem reorder_unmasked_iff (S : Schema) {t : ConfigTree} (h : t.WellFormed) {rs : FirewallRuleset}
    (hrs : rs ∈ parseRulesets (fetched t)) (hnum : Numbered rs.rules) (hallowed : Allowed S t)
    (huniform : Uniform S rs.ref) (fromIndex toIndex : ℤ) :
    ((∀ o ∈ reorderRuleOps rs.ref rs.rules fromIndex toIndex, o.op = .set →
          o.value ≠ some maskPlaceholder) ∧
        (∀ confirmSeconds, handleCommit (reorderRuleOps rs.ref rs.rules fromIndex toIndex)
          confirmSeconds ≠ .error maskedPlaceholderError) ∧
        ∀ c ∈ reorderChanges rs.rules fromIndex toIndex, ∀ q vs,
          t.store (rulePath rs.ref c.1.number q) = some vs →
            (reordered S t rs.ref rs.rules fromIndex toIndex).store (rulePath rs.ref c.2 q) =
              some vs) ↔
      ∀ r, Renumbered rs.rules fromIndex toIndex r → Unmasked rs.ref t r.number := by
  have hnum' := numbered_rulesAt h hrs hnum
  rw [unmasked_renumbered_iff h hrs hnum, reordered, reorderRuleOps, reorderChanges_fetched h hrs]
  obtain ⟨assign, p, hfilter, ha, hp, -⟩ := exists_assigns h hnum' fromIndex toIndex
  rw [hfilter]
  constructor
  · rintro ⟨hsets, -, hkeeps⟩ c hc
    refine unmasked_of_keeps (S := S) h ha hp hsets (fun c hc q vs hstore => ?_) hc
    exact hkeeps _ (List.mem_map_of_mem hc) q vs hstore
  · intro hclean
    have hself : (assign.filter p).map (fun c => (maskedRule rs.ref c.1, c.2)) =
        assign.filter p := by
      refine (List.map_congr_left fun c hc => ?_).trans (List.map_id _)
      have hr := ha.mem_rules (List.mem_filter.mp hc).1
      rw [maskedRule_eq_self h hr (hclean c hc)]
      rfl
    rw [hself]
    obtain ⟨hsets, hkeeps⟩ := keeps_of_unmasked h hallowed huniform ha hp hclean
    refine ⟨hsets, handleCommit_ne_masked hsets, fun c hc q vs hstore => ?_⟩
    rw [hkeeps c hc q, hstore]

theorem unmasked_twoRules (n : String) :
    Unmasked forwardChain (twoRules [("action", .leaf "accept")]) n := by
  intro q vs hstore hvs
  have hget : (twoRules [("action", .leaf "accept")]).get (rulesetPath forwardChain ["rule"]) =
      some (.node [("10", .node [("action", .leaf "accept")]),
        ("20", .node [("action", .leaf "drop")])]) := rfl
  rw [rulePath_eq, ConfigTree.store_append, hget, Option.bind_some, ConfigTree.store_cons] at hstore
  obtain ⟨c, hc, hcq⟩ := Option.bind_eq_some_iff.mp hstore
  obtain ⟨v, rfl, hv⟩ : ∃ v, c = .node [("action", .leaf v)] ∧ v ∈ ["accept", "drop"] := by
    have hmem := mem_of_lookup_eq_some hc
    simp only [List.mem_cons, Prod.mk.injEq, List.not_mem_nil, or_false] at hmem
    rcases hmem with ⟨-, rfl⟩ | ⟨-, rfl⟩
    · exact ⟨"accept", rfl, by simp⟩
    · exact ⟨"drop", rfl, by simp⟩
  rcases store_oneLeaf hcq with ⟨-, rfl⟩ | ⟨rfl, rfl⟩
  · exact absurd rfl hvs
  · refine ⟨?_, ?_⟩
    · show isMaskedPath (["firewall", "ipv4", "forward", "filter", "rule"] ++ [n, "action"]) = false
      rw [isMaskedPath_append_pair]
      have hleaf : isSensitiveLeaf "action" = false := by
        rw [isSensitiveLeaf_eq]
        decide
      simp [hleaf]
    · have hvalues : ∀ v ∈ ["accept", "drop"], maskPlaceholder ∉ [v] ∧ "" ∉ [v] := by decide
      exact hvalues v hv

/-- Two rules without a masked leaf can be exchanged. -/
theorem reorder_unmasked_second :
    ∃ rs ∈ parseRulesets (fetched (twoRules [("action", .leaf "accept")])),
      ∀ o ∈ reorderRuleOps rs.ref rs.rules 1 0, o.op = .set → o.value ≠ some maskPlaceholder := by
  have hmem := List.head_mem (l := parseRulesets
    (fetched (twoRules [("action", .leaf "accept")]))) (by decide)
  refine ⟨_, hmem, ?_⟩
  exact ((reorder_unmasked_iff ⟨fun _ => true⟩ (by decide) hmem (by constructor <;> decide)
    (fun _ _ _ _ => rfl) (fun _ _ _ => rfl) 1 0).mpr fun r _ => unmasked_twoRules r.number).1

/-- A rule that matches a GRE key. -/
def greRules : ConfigTree :=
  .node [("firewall", .node [("ipv4", .node [("forward", .node [("filter", .node
    [("rule", .node [("10", .node [("action", .leaf "drop")]), ("20", .node
      [("action", .leaf "accept"), ("protocol", .leaf "gre"),
        ("gre", .node [("key", .leaf "100")])])])])])])])]

/-- The key comes masked, moving its rule sets the placeholder, and the commit
is refused. -/
theorem reorder_sets_placeholder :
    ∃ rs ∈ parseRulesets (fetched greRules),
      (∃ o ∈ reorderRuleOps rs.ref rs.rules 1 0, o.op = .set ∧ o.value = some maskPlaceholder) ∧
      handleCommit (reorderRuleOps rs.ref rs.rules 1 0) 0 = .error maskedPlaceholderError ∧
      (reordered ⟨fun _ => false⟩ greRules rs.ref rs.rules 1 0).store
        (rulePath rs.ref "5" ["gre", "key"]) ≠ some ["100"] := by
  refine ⟨_, List.head_mem (l := parseRulesets (fetched greRules)) (by decide), ?_⟩
  decide +kernel

end VyosClient.MaskedReorder
