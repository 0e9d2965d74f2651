import VyosClient.Separators
import VyosClient.SetCommandView

/-!
What the redacted text tells of the secrets of a configuration: the values of
masked leaves and the names of the communities. Two configurations that differ
in secrets only read the same as long as the lines they differ in are whole and
expose nothing. A line break in a secret starts a line of its own, which is not
taken for a part of the secret.
-/

namespace VyosClient.SetCommandSecrecy

open ConfigTrees Mask SetCommands SetCommandView

/-- The same names, up to the one below `service snmp community`. -/
def SameNames (ws ws' : List Word) : Prop :=
  ws = ws' ∨ ∃ a b c name name' rest, a.text = "service" ∧ b.text = "snmp" ∧
    c.text = "community" ∧ ws = a :: b :: c :: name :: rest ∧ ws' = a :: b :: c :: name' :: rest

/-- Two lines that differ in secrets only. -/
structure SameButSecrets (l l' : SetLine) : Prop where
  names : SameNames l.names l'.names
  value : l.value.text = l'.value.text ∨ isMaskedPath l.path = true ∨ isMaskedPath l'.path = true

/-- Two lines whose difference does not show: they are whole, and if the pair
exposes their values, these are the same. -/
def Quiet (l l' : SetLine) : Prop :=
  l = l' ∨ l.Unbroken ∧ l'.Unbroken ∧
    (Exposed l.path ∨ Exposed l'.path → l.value.text = l'.value.text)

theorem pairless_singleton (k : String) : Pairless [k] := by
  intro h
  have hlength := h.length_le
  rw [List.length_cons, List.length_singleton, List.length_singleton] at hlength
  omega

theorem SameNames.hideCommunity_eq {ws ws' : List Word} (h : SameNames ws ws') :
    hideCommunity ws = hideCommunity ws' := by
  rcases h with rfl | ⟨a, b, c, name, name', rest, -, hb, hc, rfl, rfl⟩
  · rfl
  · have hpre : Pairless (pathOf [a]) := pairless_singleton a.text
    have hname := hideCommunity_of_pair hpre hb hc name rest
    have hname' := hideCommunity_of_pair hpre hb hc name' rest
    rw [List.singleton_append] at hname hname'
    rw [hname, hname']

theorem SameButSecrets.names_redacted {l l' : SetLine} (h : SameButSecrets l l') :
    l.redacted.names = l'.redacted.names := h.names.hideCommunity_eq

/-- A masked value is hidden or exposed. -/
theorem exposed_of_shown {l : SetLine} (hmasked : isMaskedPath l.path = true)
    (hshown : isMaskedPath (pathOf (hideCommunity l.names)) = false) : Exposed l.path := by
  by_contra hexposed
  have hhidden := (isMaskedPath_hideCommunity l.names).mpr ⟨hmasked, hexposed⟩
  rw [hshown] at hhidden
  cases hhidden

theorem shown_of_exposed {l : SetLine} (h : Exposed l.path) :
    isMaskedPath (pathOf (hideCommunity l.names)) = false := by
  by_contra hhidden
  rw [Bool.not_eq_false] at hhidden
  exact ((isMaskedPath_hideCommunity l.names).mp hhidden).2 h

/-- Of two lines that differ in secrets the redacted values are the same exactly
when nothing exposed differs. -/
theorem value_redacted_eq {l l' : SetLine} (h : SameButSecrets l l') :
    l.redacted.value.text = l'.redacted.value.text ↔
      (Exposed l.path ∨ Exposed l'.path → l.value.text = l'.value.text) := by
  have hnames : pathOf (hideCommunity l.names) = pathOf (hideCommunity l'.names) := by
    rw [h.names.hideCommunity_eq]
  rw [value_redacted, value_redacted, ← hnames]
  cases hshown : isMaskedPath (pathOf (hideCommunity l.names)) with
  | true =>
    have hnot : ¬ (Exposed l.path ∨ Exposed l'.path) := by
      rintro (hexposed | hexposed)
      · rw [shown_of_exposed hexposed] at hshown
        cases hshown
      · rw [hnames, shown_of_exposed hexposed] at hshown
        cases hshown
    simp [hnot]
  | false =>
    simp only [Bool.false_eq_true, if_false]
    refine ⟨fun heq _ => heq, fun hexposed => ?_⟩
    rcases h.value with heq | hmasked | hmasked
    · exact heq
    · exact hexposed (Or.inl (exposed_of_shown hmasked hshown))
    · exact hexposed (Or.inr (exposed_of_shown hmasked (hnames ▸ hshown)))

/-- The lines a text is read as. -/
def physical (lines : List SetLine) : List (List Char) :=
  lines.flatMap fun l => l.chars.splitOn '\n'

theorem splitOn_intercalate_flatMap {ls : List (List Char)} (h : ls ≠ []) :
    (['\n'].intercalate ls).splitOn '\n' = ls.flatMap (List.splitOn '\n') := by
  induction ls with
  | nil => exact absurd rfl h
  | cons l ls ih =>
    cases ls with
    | nil => simp
    | cons l' ls =>
      have hrest := ih (List.cons_ne_nil _ _)
      rw [List.intercalate_cons_cons, List.append_assoc, List.singleton_append,
        List.splitOn_append_cons_self, hrest, List.flatMap_cons, List.flatMap_cons, List.flatMap_cons]

theorem redactSetCommands_physical {lines : List SetLine} (h : lines ≠ []) :
    redactSetCommands (textOf lines) =
      String.ofList (['\n'].intercalate ((physical lines).map redactSetLine)) := by
  have hne : lines.map SetLine.chars ≠ [] := by simpa using h
  rw [redactSetCommands, textOf, String.toList_ofList, splitOn_intercalate_flatMap hne,
    List.flatMap_map]
  rfl

theorem splitOn_of_unbroken {l : SetLine} (h : l.Unbroken) : l.chars.splitOn '\n' = [l.chars] :=
  List.splitOn_eq_singleton h.newline_notMem

/-- Quiet lines come out of the redaction the same. -/
theorem map_redactSetLine_of_quiet {l l' : SetLine} (h : SameButSecrets l l') (hquiet : Quiet l l') :
    (l.chars.splitOn '\n').map redactSetLine = (l'.chars.splitOn '\n').map redactSetLine := by
  rcases hquiet with rfl | ⟨hl, hl', hexposed⟩
  · rfl
  · have hvalue := (value_redacted_eq h).mpr hexposed
    have hchars : l.redacted.chars = l'.redacted.chars := by
      rw [l.redacted.chars_eq, l'.redacted.chars_eq, h.names_redacted, hvalue]
    rw [splitOn_of_unbroken hl, splitOn_of_unbroken hl', List.map_singleton, List.map_singleton,
      redactSetLine_chars, redactSetLine_chars, hchars]

theorem redactSetCommands_of_quiet {lines lines' : List SetLine}
    (h : List.Forall₂ SameButSecrets lines lines') (hquiet : List.Forall₂ Quiet lines lines') :
    redactSetCommands (textOf lines) = redactSetCommands (textOf lines') := by
  have hphysical : (physical lines).map redactSetLine = (physical lines').map redactSetLine := by
    unfold physical
    induction h with
    | nil => rfl
    | cons hline _ ih =>
      cases hquiet with
      | cons hq hrest =>
        rw [List.flatMap_cons, List.flatMap_cons, List.map_append, List.map_append, ih hrest,
          map_redactSetLine_of_quiet hline hq]
  cases h with
  | nil => rfl
  | cons _ _ =>
    rw [redactSetCommands_physical (List.cons_ne_nil _ _),
      redactSetCommands_physical (List.cons_ne_nil _ _), hphysical]

theorem newline_notMem_splitOn (text : List Char) : ∀ piece ∈ text.splitOn '\n', '\n' ∉ piece := by
  intro piece hpiece hmem
  rw [List.splitOn_eq_splitOnP] at hpiece
  have hnot := (Separators.mem_splitOnP hpiece hmem).2
  rw [beq_self_eq_true] at hnot
  cases hnot

/-- The redaction brings no line break into a line. -/
theorem newline_notMem_redactSetLine {line : List Char} (h : '\n' ∉ line) :
    '\n' ∉ redactSetLine line := by
  have hplaceholder : '\n' ∉ quotedPlaceholder := by decide
  have hname : ∀ (l : List Char) (tokens : List SetLineToken), '\n' ∉ l →
      '\n' ∉ redactSNMPCommunityName l tokens := by
    intro l tokens hl
    fun_induction redactSNMPCommunityName l tokens with
    | case1 before token name tokens hpair =>
      simp only [List.mem_append, not_or]
      exact ⟨⟨fun hmem => hl (List.mem_of_mem_take hmem), hplaceholder⟩,
        fun hmem => hl (List.mem_of_mem_drop hmem)⟩
    | case2 before token name tokens hpair ih => exact ih
    | case3 => exact hl
  have hvalue : ∀ (l : List Char) (tokens : List SetLineToken), '\n' ∉ l →
      '\n' ∉ redactLastValue l tokens := by
    intro l tokens hl
    unfold redactLastValue
    split_ifs
    · exact hl
    · split
      · split_ifs
        · exact hl
        · exact hl
        · simp only [List.mem_append, not_or]
          exact ⟨fun hmem => hl (List.mem_of_mem_take hmem), hplaceholder⟩
      · exact hl
  rw [redactSetLine_eq]
  exact hvalue _ _ (hname _ _ h)

theorem newline_notMem_physical {lines : List SetLine} :
    ∀ line ∈ (physical lines).map redactSetLine, '\n' ∉ line := by
  intro line hline
  obtain ⟨piece, hpiece, rfl⟩ := List.mem_map.mp hline
  obtain ⟨l, -, hmem⟩ := List.mem_flatMap.mp hpiece
  exact newline_notMem_redactSetLine (newline_notMem_splitOn l.chars piece hmem)

/-- A word's line break is one of its line. -/
theorem unbroken_of_notMem {l : SetLine} (h : '\n' ∉ l.chars) : l.Unbroken := by
  intro w hw hmem
  refine h (List.mem_append_right _ (List.mem_flatMap.mpr ⟨w, hw, List.mem_cons_of_mem _ ?_⟩))
  unfold Word.chars
  split_ifs
  · exact List.mem_append_left _ (List.mem_cons_of_mem _ hmem)
  · exact hmem

theorem length_splitOn_pos (text : List Char) : 1 ≤ (text.splitOn '\n').length :=
  List.length_pos_iff.mpr (List.splitOn_ne_nil '\n' text)

theorem unbroken_of_length {l : SetLine} (h : (l.chars.splitOn '\n').length = 1) : l.Unbroken := by
  obtain ⟨piece, hpiece⟩ := List.length_eq_one_iff.mp h
  have htext : ['\n'].intercalate (l.chars.splitOn '\n') = l.chars := List.intercalate_splitOn '\n'
  rw [hpiece, List.intercalate_singleton] at htext
  have hclean := newline_notMem_splitOn l.chars piece (by rw [hpiece]; exact List.mem_singleton_self _)
  rw [htext] at hclean
  exact unbroken_of_notMem hclean

theorem length_le_physical (lines : List SetLine) : lines.length ≤ (physical lines).length := by
  induction lines with
  | nil => exact Nat.le_refl 0
  | cons l lines ih =>
    have hl := length_splitOn_pos l.chars
    rw [physical, List.flatMap_cons, List.length_append, List.length_cons]
    exact (Nat.add_comm _ _).le.trans (Nat.add_le_add hl ih)

/-- As many lines read as written: no line is broken. -/
theorem unbroken_of_length_physical {lines : List SetLine}
    (h : (physical lines).length ≤ lines.length) : ∀ l ∈ lines, l.Unbroken := by
  induction lines with
  | nil => simp
  | cons l lines ih =>
    have hl := length_splitOn_pos l.chars
    have hrest := length_le_physical lines
    have htotal : (physical (l :: lines)).length =
        (l.chars.splitOn '\n').length + (physical lines).length := by
      rw [physical, List.flatMap_cons, List.length_append]
      rfl
    rw [htotal, List.length_cons] at h
    intro line hline
    rcases List.mem_cons.mp hline with rfl | hline
    · exact unbroken_of_length (by omega)
    · exact ih (by omega) line hline

theorem physical_of_unbroken {lines : List SetLine} (h : ∀ l ∈ lines, l.Unbroken) :
    physical lines = lines.map SetLine.chars := by
  induction lines with
  | nil => rfl
  | cons l lines ih =>
    have hrest := ih fun line hline => h line (List.mem_cons_of_mem _ hline)
    rw [physical, List.flatMap_cons, splitOn_of_unbroken (h l List.mem_cons_self), List.map_cons,
      List.singleton_append, ← hrest]
    rfl

theorem physical_ne_nil {lines : List SetLine} (h : lines ≠ []) : physical lines ≠ [] := by
  intro hnil
  have hlength := length_le_physical lines
  rw [hnil, List.length_nil] at hlength
  exact h (List.length_eq_zero_iff.mp (by omega))

/-- The same text comes from the same lines. -/
theorem physical_eq_of_text {lines lines' : List SetLine} (hne : lines ≠ []) (hne' : lines' ≠ [])
    (h : redactSetCommands (textOf lines) = redactSetCommands (textOf lines')) :
    (physical lines).map redactSetLine = (physical lines').map redactSetLine := by
  rw [redactSetCommands_physical hne, redactSetCommands_physical hne'] at h
  have hchars := congrArg (fun text : String => text.toList.splitOn '\n') h
  simp only [String.toList_ofList] at hchars
  rwa [List.splitOn_intercalate '\n' newline_notMem_physical (by simpa using physical_ne_nil hne),
    List.splitOn_intercalate '\n' newline_notMem_physical (by simpa using physical_ne_nil hne')]
    at hchars

/-- Against lines that are whole, lines with the same redacted text are whole and
expose nothing that differs. -/
theorem quiet_of_redactSetCommands {lines lines' : List SetLine}
    (h : List.Forall₂ SameButSecrets lines lines') (hlines' : ∀ l ∈ lines', l.Unbroken)
    (htext : redactSetCommands (textOf lines) = redactSetCommands (textOf lines')) :
    List.Forall₂ Quiet lines lines' := by
  by_cases hnil : lines = []
  · subst hnil
    cases h
    exact List.Forall₂.nil
  have hlength := h.length_eq
  have hnil' : lines' ≠ [] := by
    intro hnil'
    rw [hnil', List.length_nil, List.length_eq_zero_iff] at hlength
    exact hnil hlength
  have hphysical := physical_eq_of_text hnil hnil' htext
  have hlines : ∀ l ∈ lines, l.Unbroken := by
    refine unbroken_of_length_physical ?_
    have hcount := congrArg List.length hphysical
    rw [List.length_map, List.length_map, physical_of_unbroken hlines', List.length_map] at hcount
    omega
  rw [physical_of_unbroken hlines, physical_of_unbroken hlines', List.map_map, List.map_map]
    at hphysical
  clear hlength hnil hnil' htext
  induction h with
  | nil => exact List.Forall₂.nil
  | @cons l l' ls ls' hline _ ih =>
    rw [List.map_cons, List.map_cons, List.cons.injEq] at hphysical
    have hchars := hphysical.1
    rw [Function.comp_apply, Function.comp_apply, redactSetLine_chars, redactSetLine_chars] at hchars
    have hvalue := value_text_of_chars hline.names_redacted hchars
    refine List.Forall₂.cons (Or.inr ⟨hlines l List.mem_cons_self, hlines' l' List.mem_cons_self,
      (value_redacted_eq hline).mp hvalue⟩) ?_
    exact ih (fun line hmem => hlines' line (List.mem_cons_of_mem _ hmem)) hphysical.2
      fun line hmem => hlines line (List.mem_cons_of_mem _ hmem)

/-- Two configurations that differ in secrets only read the same when every
difference is quiet, and against a configuration without line breaks only then. -/
theorem redactSetCommands_secret {lines lines' : List SetLine}
    (h : List.Forall₂ SameButSecrets lines lines') :
    (List.Forall₂ Quiet lines lines' →
      redactSetCommands (textOf lines) = redactSetCommands (textOf lines')) ∧
    ((∀ l ∈ lines', l.Unbroken) →
      redactSetCommands (textOf lines) = redactSetCommands (textOf lines') →
      List.Forall₂ Quiet lines lines') :=
  ⟨redactSetCommands_of_quiet h, quiet_of_redactSetCommands h⟩

theorem sameButSecrets_pskOf (secret secret' : String) (h : Clean secret) (h' : Clean secret') :
    SameButSecrets (pskOf secret h) (pskOf secret' h') := by
  have hleaf : isSensitiveLeaf "psk" = true := by
    rw [isSensitiveLeaf_eq]
    decide
  have hmasked := isMaskedPath_append_pair [] "vpn" "psk"
  rw [List.nil_append, hleaf, Bool.true_or] at hmasked
  exact ⟨Or.inl rfl, Or.inr (Or.inl hmasked)⟩

/-- Other communities and other keys, the same text. -/
theorem redactSetCommands_secret_community :
    redactSetCommands (textOf [namedCommunity "public" (by decide), pskOf "it is secret" (by decide)]) =
      redactSetCommands (textOf [namedCommunity "my key" (by decide), pskOf "" (by decide)]) := by
  have hcommunity : SameButSecrets (namedCommunity "public" (by decide))
      (namedCommunity "my key" (by decide)) := by
    refine ⟨Or.inr ⟨_, _, _, _, _, [bare "authorization" (by decide)], ?_, ?_, ?_, rfl, rfl⟩,
      Or.inl rfl⟩ <;> rfl
  have hnot : ∀ name, ¬ Exposed ["service", "snmp", "community", name, "authorization"] := by
    intro name hexposed
    have hsplit : Exposed (["service"] ++ "snmp" :: "community" :: [name, "authorization"]) := hexposed
    rcases (exposed_iff (pairless_singleton "service")).mp hsplit with
      ⟨leaf, h, -⟩ | ⟨identifier, h, -⟩
    · simp at h
    · simp at h
  have hpsk : ¬ Exposed ["vpn", "psk"] := by
    refine Pairless.not_exposed fun h => ?_
    exact absurd (h.eq_of_length rfl) (by decide)
  refine (redactSetCommands_secret (.cons hcommunity (.cons (sameButSecrets_pskOf _ _ _ _) .nil))).1
    (.cons (Or.inr ⟨by unfold SetLine.Unbroken; decide, by unfold SetLine.Unbroken; decide, ?_⟩)
      (.cons (Or.inr ⟨by unfold SetLine.Unbroken; decide, by unfold SetLine.Unbroken; decide, ?_⟩)
        .nil))
  · rintro (h | h)
    · exact absurd h (hnot "public")
    · exact absurd h (hnot "my key")
  · rintro (h | h) <;> exact absurd h hpsk

/-- What stands after a line break of a key is left in the text. -/
theorem redactSetCommands_not_secret_break :
    List.Forall₂ SameButSecrets [pskOf "hunter\n2" (by decide)] [pskOf "hunter" (by decide)] ∧
      redactSetCommands (textOf [pskOf "hunter\n2" (by decide)]) ≠
        redactSetCommands (textOf [pskOf "hunter" (by decide)]) := by
  have hsame := sameButSecrets_pskOf "hunter\n2" "hunter" (by decide) (by decide)
  refine ⟨.cons hsame .nil, fun htext => ?_⟩
  have hwhole : (pskOf "hunter" (by decide)).Unbroken := by
    unfold SetLine.Unbroken
    decide
  have hbroken : ¬ (pskOf "hunter\n2" (by decide)).Unbroken := by
    unfold SetLine.Unbroken
    decide
  have hquiet := quiet_of_redactSetCommands (.cons hsame .nil)
    (fun l hl => List.mem_singleton.mp hl ▸ hwhole) htext
  rw [List.forall₂_cons] at hquiet
  rcases hquiet.1 with heq | ⟨hwhole', -⟩
  · exact absurd (congrArg (fun l => l.value.text) heq) (by decide)
  · exact hbroken hwhole'

end VyosClient.SetCommandSecrecy
