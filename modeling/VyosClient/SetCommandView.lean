import VyosClient.SetCommands

/-!
The set commands of a configuration tree, one line for every value, against the
masked tree. The redacted text shows the values of the masked tree, and hides
the name after `snmp community` besides, except below that name: there the
placeholder stands where the leaf or its identifier was, and a secret passes.
-/

namespace VyosClient.SetCommandView

open ConfigTrees Mask SetCommands

mutual
/-- Every value of a tree with the path of its leaf. -/
def leafValues : ConfigTree → Path → List (Path × String)
  | .leaf v, path => [(path, v)]
  | .multi vs, path => vs.map fun v => (path, v)
  | .node es, path => leafValuesEntries es path

def leafValuesEntries : List (String × ConfigTree) → Path → List (Path × String)
  | [], _ => []
  | (k, c) :: es, path => leafValues c (path ++ [k]) ++ leafValuesEntries es path
end

mutual
/-- The masked tree has the placeholder for the values of masked leaves and the
other values as they are. -/
theorem leafValues_tree : (t : ConfigTree) → (path : Path) →
    leafValues (tree t path) path =
      (leafValues t path).map fun e => (e.1, if isMaskedPath e.1 then maskPlaceholder else e.2)
  | .leaf v, path => by
    cases hmasked : isMaskedPath path <;> simp [tree, leafValues, hmasked]
  | .multi vs, path => by
    cases hmasked : isMaskedPath path with
    | true =>
      simp only [tree, hmasked, if_true, leafValues, List.map_map]
      refine List.map_congr_left fun v _ => ?_
      simp [hmasked]
    | false =>
      simp only [tree, hmasked, Bool.false_eq_true, if_false, leafValues, List.map_map]
      refine List.map_congr_left fun v _ => ?_
      simp [hmasked]
  | .node es, path => by
    rw [tree, leafValues, leafValues]
    exact leafValuesEntries_tree es path

theorem leafValuesEntries_tree : (es : List (String × ConfigTree)) → (path : Path) →
    leafValuesEntries (treeEntries es path) path =
      (leafValuesEntries es path).map fun e =>
        (e.1, if isMaskedPath e.1 then maskPlaceholder else e.2)
  | [], _ => rfl
  | (k, c) :: es, path => by
    rw [treeEntries, leafValuesEntries, leafValuesEntries, List.map_append,
      leafValues_tree c (path ++ [k]), leafValuesEntries_tree es path]
end

/-- A line `set <names> '<value>'`. -/
structure SetLine where
  names : List Word
  value : Word
  quoted : value.quoted = true

namespace SetLine

def words (l : SetLine) : List Word := l.names ++ [l.value]

def chars (l : SetLine) : List Char := lineChars l.words

def path (l : SetLine) : Path := pathOf l.names

/-- No line break in a name or in the value. -/
def Unbroken (l : SetLine) : Prop := ∀ w ∈ l.words, '\n' ∉ w.text.toList

end SetLine

/-- Lines in any quoting that set the values of a tree. -/
def Renders (t : ConfigTree) (lines : List SetLine) : Prop :=
  lines.map (fun l => (l.path, l.value.text)) = leafValues t []

def textOf (lines : List SetLine) : String :=
  String.ofList (['\n'].intercalate (lines.map SetLine.chars))

/-- The text shows what the masked tree shows, in the same lines and quoting,
and hides the name after `snmp community`. -/
def Agrees (t : ConfigTree) (lines : List SetLine) (text : String) : Prop :=
  ∃ shown : List SetLine, text = textOf shown ∧
    shown.map SetLine.names = lines.map (fun l => hideCommunity l.names) ∧
    shown.map (fun l => l.value.text) = (leafValues (tree t []) []).map Prod.snd

/-- No `snmp` with `community` after it. -/
def Pairless (p : Path) : Prop := ¬ ["snmp", "community"] <:+: p

/-- The first `snmp` and `community` leave no more than a sensitive leaf after them,
or a sensitive identifier and its `value`. -/
def Exposed (p : Path) : Prop :=
  ∃ pre rest, p = pre ++ "snmp" :: "community" :: rest ∧ Pairless pre ∧
    ((∃ leaf, rest = [leaf] ∧ isSensitiveLeaf leaf = true) ∨
      ∃ name, rest = [name, "value"] ∧ isSensitiveIdentifier name = true)

theorem pairless_nil : Pairless [] := by
  intro h
  have hlength := h.length_le
  exact absurd hlength (by decide)

theorem Pairless.of_cons {k : String} {p : Path} (h : Pairless (k :: p)) : Pairless p :=
  fun hp => h (List.infix_cons_iff.mpr (Or.inr hp))

theorem Pairless.of_append {p q : Path} (h : Pairless (p ++ q)) : Pairless p :=
  fun hp => h (hp.trans (List.prefix_append p q).isInfix)

/-- A path without the pair, or up to its first pair. -/
theorem pairless_or_first (p : Path) :
    Pairless p ∨ ∃ pre rest, p = pre ++ "snmp" :: "community" :: rest ∧ Pairless pre := by
  induction p with
  | nil => exact Or.inl pairless_nil
  | cons k p ih =>
    by_cases hfirst : ["snmp", "community"] <+: k :: p
    · obtain ⟨rest, hrest⟩ := hfirst
      exact Or.inr ⟨[], rest, hrest.symm, pairless_nil⟩
    rcases ih with hp | ⟨pre, rest, rfl, hpre⟩
    · refine Or.inl fun h => ?_
      rcases List.infix_cons_iff.mp h with h | h
      · exact hfirst h
      · exact hp h
    · refine Or.inr ⟨k :: pre, rest, rfl, fun h => ?_⟩
      rcases List.infix_cons_iff.mp h with h | h
      · exact hfirst (h.trans (List.prefix_append (k :: pre) _))
      · exact hpre h

theorem length_le_of_first_pair {pre pre' rest rest' : Path} (hpre' : Pairless pre')
    (h : pre ++ "snmp" :: "community" :: rest = pre' ++ "snmp" :: "community" :: rest') :
    pre'.length ≤ pre.length := by
  rcases List.append_eq_append_iff.mp h with ⟨between, rfl, hbetween⟩ | ⟨between, rfl, -⟩
  · match between, hbetween with
    | [], _ => simp
    | [k], hbetween => simp at hbetween
    | k :: l :: between, hbetween =>
      simp only [List.cons_append, List.cons.injEq] at hbetween
      obtain ⟨rfl, rfl, -⟩ := hbetween
      exact absurd ⟨pre, between, by simp⟩ hpre'
  · simp

/-- There is one first pair. -/
theorem first_pair_unique {pre pre' rest rest' : Path} (hpre : Pairless pre) (hpre' : Pairless pre')
    (h : pre ++ "snmp" :: "community" :: rest = pre' ++ "snmp" :: "community" :: rest') :
    rest = rest' := by
  have hlength := Nat.le_antisymm (length_le_of_first_pair hpre h.symm)
    (length_le_of_first_pair hpre' h)
  have hrest := (List.append_inj h hlength).2
  simpa using hrest

theorem exposed_iff {pre rest : Path} (hpre : Pairless pre) :
    Exposed (pre ++ "snmp" :: "community" :: rest) ↔
      (∃ leaf, rest = [leaf] ∧ isSensitiveLeaf leaf = true) ∨
        ∃ name, rest = [name, "value"] ∧ isSensitiveIdentifier name = true := by
  constructor
  · rintro ⟨pre', rest', h, hpre', hrest⟩
    rwa [first_pair_unique hpre hpre' h]
  · intro h
    exact ⟨pre, rest, rfl, hpre, h⟩

theorem Pairless.not_exposed {p : Path} (h : Pairless p) : ¬ Exposed p := by
  rintro ⟨pre, rest, rfl, -⟩
  exact h ⟨pre, rest, by simp⟩

/-- Without a name after the pair nothing is hidden. -/
theorem hideCommunity_of_pairless {ws : List Word} (h : Pairless (pathOf ws.dropLast)) :
    hideCommunity ws = ws := by
  induction ws with
  | nil => rfl
  | cons a ws ih =>
    match ws, ih, h with
    | [], _, _ => rfl
    | [b], _, _ => rfl
    | b :: name :: ws, ih, h =>
      have hpair : ¬ (b.text = "community" ∧ a.text = "snmp") := by
        rintro ⟨hb, ha⟩
        refine h ⟨[], pathOf (name :: ws).dropLast, ?_⟩
        simp [pathOf, ha, hb]
      rw [hideCommunity, if_neg hpair, ih h.of_cons]

theorem hideCommunity_of_pair {pre : List Word} {a b : Word} (hpre : Pairless (pathOf pre))
    (ha : a.text = "snmp") (hb : b.text = "community") (name : Word) (ws : List Word) :
    hideCommunity (pre ++ a :: b :: name :: ws) = pre ++ a :: b :: placeholder :: ws := by
  induction pre with
  | nil => rw [List.nil_append, hideCommunity, if_pos ⟨hb, ha⟩, List.nil_append]
  | cons c pre ih =>
    have hrest := ih hpre.of_cons
    cases pre with
    | nil =>
      have hpair : ¬ (a.text = "community" ∧ c.text = "snmp") := by
        rintro ⟨hcommunity, -⟩
        rw [ha] at hcommunity
        exact absurd hcommunity (by decide +kernel)
      rw [List.nil_append] at hrest
      rw [List.cons_append, List.nil_append, hideCommunity, if_neg hpair, hrest]
      rfl
    | cons d pre =>
      have hpair : ¬ (d.text = "community" ∧ c.text = "snmp") := by
        rintro ⟨hd, hc⟩
        refine hpre ⟨[], pathOf pre, ?_⟩
        simp [pathOf, hc, hd]
      obtain ⟨e, ws', hws⟩ : ∃ e ws', pre ++ a :: b :: name :: ws = e :: ws' :=
        List.exists_cons_of_ne_nil (by simp)
      rw [List.cons_append, hws] at hrest
      rw [List.cons_append, List.cons_append, hws, hideCommunity, if_neg hpair, hrest]
      rfl

theorem pathOf_append (ws ws' : List Word) : pathOf (ws ++ ws') = pathOf ws ++ pathOf ws' :=
  List.map_append

/-- Words without the pair, or up to their first pair. -/
theorem words_pairless_or_first (ws : List Word) :
    Pairless (pathOf ws) ∨ ∃ pre a b rest, ws = pre ++ a :: b :: rest ∧ Pairless (pathOf pre) ∧
      a.text = "snmp" ∧ b.text = "community" := by
  rcases pairless_or_first (pathOf ws) with h | ⟨pre, rest, h, hpre⟩
  · exact Or.inl h
  · obtain ⟨pre', ws', rfl, rfl, hws⟩ := List.map_eq_append_iff.mp h
    obtain ⟨a, ws'', rfl, ha, hws⟩ := List.map_eq_cons_iff.mp hws
    obtain ⟨b, rest', rfl, hb, -⟩ := List.map_eq_cons_iff.mp hws
    exact Or.inr ⟨pre', a, b, rest', rfl, hpre, ha, hb⟩

theorem Pairless.append_snmp {p : Path} (h : Pairless p) : Pairless (p ++ ["snmp"]) := by
  intro hinfix
  rw [List.infix_concat_iff] at hinfix
  rcases hinfix with hinfix | hinfix
  · obtain ⟨pre, hpre⟩ := hinfix
    rw [show (["snmp", "community"] : Path) = ["snmp"] ++ ["community"] from rfl,
      ← List.append_assoc] at hpre
    exact absurd (List.append_inj_right' hpre rfl) (by decide)
  · exact h hinfix

/-- Words that end in their first pair keep their names. -/
theorem hideCommunity_pair_last {pre : List Word} {a b : Word} (hpre : Pairless (pathOf pre))
    (ha : a.text = "snmp") : hideCommunity (pre ++ [a, b]) = pre ++ [a, b] := by
  refine hideCommunity_of_pairless ?_
  have hlast : (pre ++ [a, b]).dropLast = pre ++ [a] := by
    rw [List.dropLast_append_of_ne_nil (by simp)]
    rfl
  have hpath : pathOf (pre ++ [a]) = pathOf pre ++ ["snmp"] := by
    rw [pathOf_append, ← ha]
    rfl
  rw [hlast, hpath]
  exact hpre.append_snmp

theorem isMaskedPath_community {pre : List Word} {a b : Word} (ha : a.text = "snmp")
    (hb : b.text = "community") : isMaskedPath (pathOf (pre ++ [a, b])) = true := by
  have hpath : pathOf (pre ++ [a, b]) = pathOf pre ++ ["snmp", "community"] := by
    rw [pathOf_append, ← ha, ← hb]
    rfl
  have hsensitive : isSensitiveLeaf "community" = true := by
    rw [isSensitiveLeaf_eq]
    decide +kernel
  rw [hpath, isMaskedPath_append_pair, hsensitive, Bool.true_or]

/-- What becomes of a line: the name goes, and the value when the names that
are left end a masked path. -/
def SetLine.redacted (l : SetLine) : SetLine where
  names := hideCommunity l.names
  value := if isMaskedPath (pathOf (hideCommunity l.names)) then placeholder else l.value
  quoted := by
    split_ifs
    · rfl
    · exact l.quoted

theorem redactSetLine_eq (line : List Char) :
    redactSetLine line =
      redactLastValue (redactSNMPCommunityName line (tokenizeSetLine line))
        (tokenizeSetLine (redactSNMPCommunityName line (tokenizeSetLine line))) := by
  unfold redactSetLine
  by_cases h : redactSNMPCommunityName line (tokenizeSetLine line) = line
  · simp [h]
  · simp [h]

theorem redactSetLine_chars (l : SetLine) : redactSetLine l.chars = l.redacted.chars := by
  have hvalue := l.quoted
  show redactSetLine (lineChars (l.names ++ [l.value])) =
    lineChars (hideCommunity l.names ++
      [if isMaskedPath (pathOf (hideCommunity l.names)) then placeholder else l.value])
  rw [redactSetLine_eq, redactSNMPCommunityName_lineChars]
  rcases words_pairless_or_first l.names with hpair | ⟨pre, a, b, rest, hnames, hpre, ha, hb⟩
  · have hkept : hideCommunity l.names = l.names :=
      hideCommunity_of_pairless (Pairless.of_append (q := pathOf (l.names.drop (l.names.length - 1)))
        (by rwa [← pathOf_append, List.dropLast_eq_take, List.take_append_drop]))
    have hline : hideCommunity (l.names ++ [l.value]) = l.names ++ [l.value] := by
      refine hideCommunity_of_pairless ?_
      rwa [List.dropLast_concat]
    rw [hline, hkept, redactLastValue_lineChars l.names hvalue]
  · cases rest with
    | nil =>
      have hmasked : isMaskedPath (pathOf l.names) = true := by
        rw [hnames]
        exact isMaskedPath_community ha hb
      have hkept : hideCommunity l.names = l.names := by
        rw [hnames]
        exact hideCommunity_pair_last hpre ha
      have hline : hideCommunity (l.names ++ [l.value]) = l.names ++ [placeholder] := by
        rw [hnames, List.append_assoc]
        exact (hideCommunity_of_pair hpre ha hb l.value []).trans (by simp)
      rw [hline, hkept, redactLastValue_lineChars l.names rfl, hmasked, if_pos rfl, if_pos rfl]
    | cons name rest =>
      have hline : hideCommunity (l.names ++ [l.value]) = hideCommunity l.names ++ [l.value] := by
        rw [hnames, hideCommunity_of_pair hpre ha hb, List.append_assoc]
        exact (hideCommunity_of_pair hpre ha hb name (rest ++ [l.value])).trans (by simp)
      rw [hline, redactLastValue_lineChars _ hvalue]

/-- What the pair exposes the tree masks. -/
theorem Exposed.isMaskedPath {p : Path} (h : Exposed p) : Mask.isMaskedPath p = true := by
  obtain ⟨pre, rest, rfl, -, ⟨leaf, rfl, hleaf⟩ | ⟨name, rfl, hname⟩⟩ := h
  · have hsplit : pre ++ ["snmp", "community", leaf] = (pre ++ ["snmp"]) ++ ["community", leaf] := by
      rw [List.append_assoc]
      rfl
    rw [hsplit, isMaskedPath_append_pair, hleaf, Bool.true_or]
  · have hsplit : pre ++ ["snmp", "community", name, "value"] =
        (pre ++ ["snmp", "community"]) ++ [name, "value"] := by
      rw [List.append_assoc]
      rfl
    rw [hsplit, isMaskedPath_append_pair, hname]
    simp

theorem exists_last_two (k l : String) (ws : Path) : ∃ q x y, k :: l :: ws = q ++ [x, y] := by
  induction ws generalizing k l with
  | nil => exact ⟨[], k, l, rfl⟩
  | cons m ws ih =>
    obtain ⟨q, x, y, hq⟩ := ih l m
    exact ⟨k :: q, x, y, by rw [hq, List.cons_append]⟩

/-- After the pair, too, only the last two segments count. -/
theorem isMaskedPath_pair_append (p q : Path) (k l : String) :
    isMaskedPath (p ++ "snmp" :: "community" :: (q ++ [k, l])) =
      (isSensitiveLeaf l || (l == "value" && isSensitiveIdentifier k)) := by
  rw [← isMaskedPath_append_pair (p ++ "snmp" :: "community" :: q), List.append_assoc]
  rfl

theorem isMaskedPath_pair_singleton (p : Path) (k : String) :
    isMaskedPath (p ++ ["snmp", "community", k]) = isSensitiveLeaf k := by
  have hcommunity : isSensitiveIdentifier "community" = false := by decide +kernel
  have hpair := isMaskedPath_append_pair (p ++ ["snmp"]) "community" k
  rwa [List.append_assoc, hcommunity, Bool.and_false, Bool.or_false] at hpair

/-- The placeholder in the place of the name takes the masking away where the
name itself made it. -/
theorem isMaskedPath_placeholder (p : Path) (name : String) (rest : Path) :
    isMaskedPath (p ++ "snmp" :: "community" :: maskPlaceholder :: rest) = true ↔
      isMaskedPath (p ++ "snmp" :: "community" :: name :: rest) = true ∧
        ¬ ((∃ leaf, name :: rest = [leaf] ∧ isSensitiveLeaf leaf = true) ∨
          ∃ k, name :: rest = [k, "value"] ∧ isSensitiveIdentifier k = true) := by
  match rest with
  | [] =>
    have hplaceholder : isSensitiveLeaf maskPlaceholder = false := by
      rw [isSensitiveLeaf_eq]
      decide +kernel
    rw [isMaskedPath_pair_singleton, isMaskedPath_pair_singleton, hplaceholder]
    simp
  | [leaf] =>
    have hplaceholder : isSensitiveIdentifier maskPlaceholder = false := by decide +kernel
    have hgeneric : isSensitiveLeaf "value" = false := by
      rw [isSensitiveLeaf_eq]
      decide +kernel
    have hlast := fun k => isMaskedPath_pair_append p [] k leaf
    simp only [List.nil_append] at hlast
    rw [hlast, hlast, hplaceholder]
    by_cases hvalue : leaf = "value"
    · simp [hvalue, hgeneric]
    · simp [hvalue]
  | k :: l :: rest =>
    obtain ⟨q, x, y, hq⟩ := exists_last_two k l rest
    have hnot : ¬ ((∃ leaf, name :: k :: l :: rest = [leaf] ∧ isSensitiveLeaf leaf = true) ∨
        ∃ i, name :: k :: l :: rest = [i, "value"] ∧ isSensitiveIdentifier i = true) := by
      rintro (⟨leaf, h, -⟩ | ⟨i, h, -⟩)
      · cases h
      · cases h
    have hlast := fun m => isMaskedPath_pair_append p (m :: q) x y
    simp only [List.cons_append] at hlast
    rw [and_iff_left hnot, hq, hlast, hlast]

/-- Hiding the name takes nothing but the exposed values out of the masking. -/
theorem isMaskedPath_hideCommunity (ws : List Word) :
    isMaskedPath (pathOf (hideCommunity ws)) = true ↔
      isMaskedPath (pathOf ws) = true ∧ ¬ Exposed (pathOf ws) := by
  rcases words_pairless_or_first ws with hpair | ⟨pre, a, b, rest, rfl, hpre, ha, hb⟩
  · have hkept : hideCommunity ws = ws := by
      refine hideCommunity_of_pairless (Pairless.of_append (q := pathOf (ws.drop (ws.length - 1))) ?_)
      rwa [← pathOf_append, List.dropLast_eq_take, List.take_append_drop]
    rw [hkept]
    exact ⟨fun h => ⟨h, hpair.not_exposed⟩, And.left⟩
  have hpath : ∀ ws', pathOf (pre ++ a :: b :: ws') =
      pathOf pre ++ "snmp" :: "community" :: pathOf ws' := by
    intro ws'
    rw [pathOf_append, ← ha, ← hb]
    rfl
  rw [hpath, exposed_iff hpre]
  cases rest with
  | nil =>
    rw [hideCommunity_pair_last hpre ha, hpath]
    simp [pathOf]
  | cons name rest =>
    rw [hideCommunity_of_pair hpre ha hb, hpath]
    exact isMaskedPath_placeholder (pathOf pre) name.text (pathOf rest)

theorem newline_mem_word {w : Word} (h : '\n' ∈ w.chars) : '\n' ∈ w.text.toList := by
  unfold Word.chars at h
  split_ifs at h
  · simp only [List.cons_append, List.mem_cons, List.mem_append, List.not_mem_nil, or_false] at h
    rcases h with h | h | h
    · exact absurd h (by decide)
    · exact h
    · exact absurd h (by decide)
  · exact h

theorem SetLine.Unbroken.newline_notMem {l : SetLine} (h : l.Unbroken) : '\n' ∉ l.chars := by
  intro hmem
  rcases List.mem_append.mp hmem with hset | hwords
  · exact absurd hset (by decide)
  · obtain ⟨w, hw, hchar⟩ := List.mem_flatMap.mp hwords
    rcases List.mem_cons.mp hchar with hchar | hchar
    · exact absurd hchar (by decide)
    · exact h w hw (newline_mem_word hchar)

theorem splitOn_textOf {lines : List SetLine} (hlines : ∀ l ∈ lines, l.Unbroken) (h : lines ≠ []) :
    (textOf lines).toList.splitOn '\n' = lines.map SetLine.chars := by
  have hclean : ∀ l ∈ lines.map SetLine.chars, '\n' ∉ l := by
    intro l hl
    obtain ⟨line, hline, rfl⟩ := List.mem_map.mp hl
    exact (hlines line hline).newline_notMem
  rw [textOf, String.toList_ofList, List.splitOn_intercalate '\n' hclean (by simpa using h)]

theorem redactSetCommands_textOf {lines : List SetLine} (hlines : ∀ l ∈ lines, l.Unbroken) :
    redactSetCommands (textOf lines) = textOf (lines.map SetLine.redacted) := by
  by_cases h : lines = []
  · subst h
    have htokens : tokenizeSetLine [] = [] := tokenizeFrom_of_none rfl
    have hline : redactSetLine [] = [] := by
      simp [redactSetLine, htokens, redactSNMPCommunityName, redactLastValue]
    simp [redactSetCommands, textOf, hline]
  · rw [redactSetCommands, splitOn_textOf hlines h, textOf, List.map_map, List.map_map]
    congr 3
    funext l
    exact redactSetLine_chars l

theorem mem_hideCommunity {w : Word} {ws : List Word} (h : w ∈ hideCommunity ws) :
    w ∈ ws ∨ w = placeholder := by
  induction ws with
  | nil => exact Or.inl h
  | cons a ws ih =>
    match ws, ih, h with
    | [], _, h => exact Or.inl h
    | [b], _, h => exact Or.inl h
    | b :: name :: ws, ih, h =>
      rw [hideCommunity] at h
      split_ifs at h
      · simp only [List.mem_cons] at h ⊢
        tauto
      · rcases List.mem_cons.mp h with rfl | h
        · exact Or.inl List.mem_cons_self
        · rcases ih h with h | h
          · exact Or.inl (List.mem_cons_of_mem _ h)
          · exact Or.inr h

theorem SetLine.unbroken_iff {l : SetLine} :
    l.Unbroken ↔ (∀ w ∈ l.names, '\n' ∉ w.text.toList) ∧ '\n' ∉ l.value.text.toList := by
  constructor
  · intro h
    exact ⟨fun w hw => h w (List.mem_append_left _ hw), h l.value (by simp [SetLine.words])⟩
  · rintro ⟨hnames, hvalue⟩ w hw
    rcases List.mem_append.mp hw with hw | hw
    · exact hnames w hw
    · rw [List.mem_singleton.mp hw]
      exact hvalue

theorem newline_notMem_placeholder : '\n' ∉ maskPlaceholder.toList := by decide

theorem newline_notMem_hideCommunity {l : SetLine} (h : l.Unbroken) :
    ∀ w ∈ hideCommunity l.names, '\n' ∉ w.text.toList := by
  intro w hw
  rcases mem_hideCommunity hw with hw | rfl
  · exact (SetLine.unbroken_iff.mp h).1 w hw
  · exact newline_notMem_placeholder

theorem value_redacted (l : SetLine) :
    l.redacted.value.text =
      if isMaskedPath (pathOf (hideCommunity l.names)) then maskPlaceholder else l.value.text := by
  show (if isMaskedPath (pathOf (hideCommunity l.names)) then placeholder else l.value).text = _
  split_ifs <;> rfl

theorem SetLine.Unbroken.redacted {l : SetLine} (h : l.Unbroken) : l.redacted.Unbroken := by
  refine SetLine.unbroken_iff.mpr ⟨newline_notMem_hideCommunity h, ?_⟩
  rw [value_redacted]
  split_ifs
  · exact newline_notMem_placeholder
  · exact (SetLine.unbroken_iff.mp h).2

theorem SetLine.chars_eq (l : SetLine) :
    l.chars = lineChars l.names ++ (' ' :: '\'' :: l.value.text.toList ++ ['\'']) := by
  rw [SetLine.chars, SetLine.words, lineChars_append, spaced_cons, spaced_nil, List.append_nil,
    Word.chars, if_pos l.quoted]
  rfl

/-- Lines with the same names and the same text have the same values. -/
theorem value_text_of_chars {l l' : SetLine} (hnames : l.names = l'.names)
    (hchars : l.chars = l'.chars) : l.value.text = l'.value.text := by
  rw [l.chars_eq, l'.chars_eq, hnames] at hchars
  have htext := List.append_cancel_left hchars
  simp only [List.cons_append, List.cons.injEq, true_and] at htext
  exact String.toList_inj.mp (List.append_cancel_right htext)

theorem values_eq_of_chars {lines lines' : List SetLine}
    (hnames : lines.map SetLine.names = lines'.map SetLine.names)
    (hchars : lines.map SetLine.chars = lines'.map SetLine.chars) :
    lines.map (fun l => l.value.text) = lines'.map (fun l => l.value.text) := by
  induction lines generalizing lines' with
  | nil =>
    rw [List.map_nil, eq_comm, List.map_eq_nil_iff] at hnames
    rw [hnames]
  | cons l lines ih =>
    cases lines' with
    | nil => simp at hnames
    | cons l' lines' =>
      simp only [List.map_cons, List.cons.injEq] at hnames hchars ⊢
      exact ⟨value_text_of_chars hnames.1 hchars.1, ih hnames.2 hchars.2⟩

theorem values_eq_of_textOf {lines lines' : List SetLine} (hlines : ∀ l ∈ lines, l.Unbroken)
    (hlines' : ∀ l ∈ lines', l.Unbroken)
    (hnames : lines.map SetLine.names = lines'.map SetLine.names)
    (htext : textOf lines = textOf lines') :
    lines.map (fun l => l.value.text) = lines'.map (fun l => l.value.text) := by
  have hlength : lines.length = lines'.length := by
    have h := congrArg List.length hnames
    rwa [List.length_map, List.length_map] at h
  by_cases hnil : lines = []
  · subst hnil
    rw [List.length_nil, eq_comm, List.length_eq_zero_iff] at hlength
    rw [hlength]
  · have hnil' : lines' ≠ [] := by
      intro h
      rw [h, List.length_nil, List.length_eq_zero_iff] at hlength
      exact hnil hlength
    refine values_eq_of_chars hnames ?_
    rw [← splitOn_textOf hlines hnil, ← splitOn_textOf hlines' hnil', htext]

/-- The value left in a line is the one of the masked tree, unless a secret is exposed. -/
theorem value_redacted_eq_iff (l : SetLine) :
    l.redacted.value.text = (if isMaskedPath l.path then maskPlaceholder else l.value.text) ↔
      (Exposed l.path → l.value.text = maskPlaceholder) := by
  have hhidden := isMaskedPath_hideCommunity l.names
  rw [value_redacted]
  by_cases hexposed : Exposed l.path
  · have hkept : ¬ isMaskedPath (pathOf (hideCommunity l.names)) = true :=
      fun h => (hhidden.mp h).2 hexposed
    rw [if_neg hkept, if_pos hexposed.isMaskedPath]
    exact ⟨fun h _ => h, fun h => h hexposed⟩
  · have hsame : isMaskedPath (pathOf (hideCommunity l.names)) = true ↔
        isMaskedPath l.path = true := by
      rw [hhidden]
      exact ⟨And.left, fun h => ⟨h, hexposed⟩⟩
    simp only [hsame, true_iff]
    exact fun h => absurd h hexposed

theorem leafValues_tree_eq {t : ConfigTree} {lines : List SetLine} (h : Renders t lines) :
    (leafValues (tree t []) []).map Prod.snd =
      lines.map fun l => if isMaskedPath l.path then maskPlaceholder else l.value.text := by
  rw [leafValues_tree, ← h, List.map_map, List.map_map]
  rfl

/-- The redacted lines are the only ones that can agree. -/
theorem values_of_agrees {t : ConfigTree} {lines : List SetLine} (h : Renders t lines)
    (hlines : ∀ l ∈ lines, l.Unbroken)
    (hagrees : Agrees t lines (redactSetCommands (textOf lines))) :
    lines.map (fun l => l.redacted.value.text) =
      lines.map fun l => if isMaskedPath l.path then maskPlaceholder else l.value.text := by
  obtain ⟨shown, htext, hnames, hvalues⟩ := hagrees
  rw [leafValues_tree_eq h] at hvalues
  have hshown : ∀ l ∈ shown, l.Unbroken := by
    intro l hl
    refine SetLine.unbroken_iff.mpr ⟨?_, ?_⟩
    · have hmem : l.names ∈ lines.map fun l => hideCommunity l.names := by
        rw [← hnames]
        exact List.mem_map_of_mem hl
      obtain ⟨line, hline, heq⟩ := List.mem_map.mp hmem
      rw [← heq]
      exact newline_notMem_hideCommunity (hlines line hline)
    · have hmem : l.value.text ∈
          lines.map fun l => if isMaskedPath l.path then maskPlaceholder else l.value.text := by
        rw [← hvalues]
        exact List.mem_map_of_mem hl
      obtain ⟨line, hline, heq⟩ := List.mem_map.mp hmem
      rw [← heq]
      split_ifs
      · exact newline_notMem_placeholder
      · exact (SetLine.unbroken_iff.mp (hlines line hline)).2
  have hredacted : ∀ l ∈ lines.map SetLine.redacted, l.Unbroken := by
    intro l hl
    obtain ⟨line, hline, rfl⟩ := List.mem_map.mp hl
    exact (hlines line hline).redacted
  have hnames' : (lines.map SetLine.redacted).map SetLine.names = shown.map SetLine.names := by
    rw [hnames, List.map_map]
    rfl
  rw [redactSetCommands_textOf hlines] at htext
  rw [← hvalues, ← values_eq_of_textOf hredacted hshown hnames' htext, List.map_map]
  rfl

/-- The redacted text agrees with the masked tree as long as the pair exposes
nothing but placeholders. -/
theorem redactSetCommands_agrees_iff {t : ConfigTree} {lines : List SetLine}
    (h : Renders t lines) (hlines : ∀ l ∈ lines, l.Unbroken) :
    Agrees t lines (redactSetCommands (textOf lines)) ↔
      ∀ e ∈ leafValues t [], Exposed e.1 → e.2 = maskPlaceholder := by
  have hall : (∀ e ∈ leafValues t [], Exposed e.1 → e.2 = maskPlaceholder) ↔
      ∀ l ∈ lines, Exposed l.path → l.value.text = maskPlaceholder := by
    rw [← h]
    simp
  rw [hall]
  constructor
  · intro hagrees l hl
    exact (value_redacted_eq_iff l).mp
      (List.map_inj_left.mp (values_of_agrees h hlines hagrees) l hl)
  · intro hexposed
    refine ⟨lines.map SetLine.redacted, redactSetCommands_textOf hlines, ?_, ?_⟩
    · rw [List.map_map]
      rfl
    · rw [leafValues_tree_eq h, List.map_map]
      exact List.map_congr_left fun l hl => (value_redacted_eq_iff l).mpr (hexposed l hl)

def bare (text : String) (h : Clean text ∧ Plain text) : Word := ⟨text, false, h.1, fun _ => h.2⟩

def quoted (text : String) (h : Clean text) : Word := ⟨text, true, h, fun h => by cases h⟩

def namedCommunity (name : String) (h : Clean name) : SetLine :=
  ⟨[bare "service" (by decide), bare "snmp" (by decide), bare "community" (by decide),
    quoted name h, bare "authorization" (by decide)], quoted "ro" (by decide), rfl⟩

def pskOf (secret : String) (h : Clean secret) : SetLine :=
  ⟨[bare "vpn" (by decide), bare "psk" (by decide)], quoted secret h, rfl⟩

def communityLine : SetLine := namedCommunity "public" (by decide)

def pskLine : SetLine := pskOf "it is secret" (by decide)

/-- A community and a key: the name goes and the key does. -/
theorem redactSetCommands_agrees_community :
    Agrees (.node [("service", .node [("snmp", .node [("community", .node [("public",
        .node [("authorization", .leaf "ro")])])])]), ("vpn", .node [("psk", .leaf "it is secret")])])
      [communityLine, pskLine] (redactSetCommands (textOf [communityLine, pskLine])) := by
  have hlines : Renders (.node [("service", .node [("snmp", .node [("community", .node [("public",
      .node [("authorization", .leaf "ro")])])])]), ("vpn", .node [("psk", .leaf "it is secret")])])
      [communityLine, pskLine] := rfl
  refine (redactSetCommands_agrees_iff hlines (by unfold SetLine.Unbroken; decide +kernel)).mpr ?_
  have hpre : Pairless ["service"] := by
    rintro h
    exact absurd h.length_le (by decide)
  have hpsk : Pairless ["vpn", "psk"] := by
    rintro h
    exact absurd (h.eq_of_length rfl) (by decide)
  intro e he hexposed
  have he' : e ∈ [(["service", "snmp", "community", "public", "authorization"], "ro"),
      (["vpn", "psk"], "it is secret")] := he
  rcases List.mem_cons.mp he' with rfl | he'
  · have hsplit : Exposed (["service"] ++ "snmp" :: "community" :: ["public", "authorization"]) :=
      hexposed
    rcases (exposed_iff hpre).mp hsplit with ⟨leaf, h, -⟩ | ⟨name, h, -⟩
    · cases h
    · simp at h
  · rw [List.mem_singleton.mp he'] at hexposed
    exact absurd hexposed hpsk.not_exposed

def passwordLine : SetLine :=
  ⟨[bare "service" (by decide), bare "snmp" (by decide), bare "community" (by decide),
    bare "password" (by decide)], quoted "hunter2" (by decide), rfl⟩

/-- Right after the pair the leaf is taken for a name, and its value stays. -/
theorem redactSetCommands_not_agrees_password :
    ¬ Agrees (.node [("service", .node [("snmp", .node [("community",
        .node [("password", .leaf "hunter2")])])])])
      [passwordLine] (redactSetCommands (textOf [passwordLine])) := by
  intro h
  have hlines : Renders (.node [("service", .node [("snmp", .node [("community",
      .node [("password", .leaf "hunter2")])])])]) [passwordLine] := rfl
  have hshown := values_of_agrees hlines (by unfold SetLine.Unbroken; decide +kernel) h
  revert hshown
  decide +kernel

end VyosClient.SetCommandView
