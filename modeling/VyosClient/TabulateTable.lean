import VyosClient.ImageReference
import VyosClient.Tables
import Mathlib.Data.List.DropRight
import Mathlib.Data.List.Forall2

/-!
Tables as Python's `tabulate` prints them: a row of headers, a row of dashes under them, and the
rows below, each column as wide as its widest cell. The columns are found by the runs of dashes and
cut out of every line by position; a cell is what is left of its part without the blanks around it.
-/

namespace VyosClient.TabulateTable

open ImageReference Separators Tables

/-- The columns of a line from one position up to another; the last column is open. -/
structure ColRange where
  start : ℕ
  stop : Option ℕ
deriving DecidableEq, Repr

def isTabulateSeparatorLine (line : Text) : Bool :=
  trimSpace line ≠ [] ∧ (line.all fun r => r = '-' ∨ r = ' ') ∧ '-' ∈ line

/-- The runs of dashes from a position on, where a run may be going on since an earlier one. -/
def columnRuns (i : ℕ) (run : Option ℕ) : Text → List ColRange
  | [] =>
    match run with
    | some start => [⟨start, some i⟩]
    | none => []
  | r :: rest =>
    if r = '-' then columnRuns (i + 1) (some (run.getD i)) rest
    else match run with
      | some start => ⟨start, some i⟩ :: columnRuns (i + 1) none rest
      | none => columnRuns (i + 1) none rest

def openLast : List ColRange → List ColRange
  | [] => []
  | [c] => [{ c with stop := none }]
  | c :: cols => c :: openLast cols

def tabulateColumnRanges (sepLine : Text) : List ColRange := openLast (columnRuns 0 none sepLine)

def sliceTabulateColumn (line : Text) (c : ColRange) : Text :=
  let start := min c.start line.length
  let stop := match c.stop with
    | some stop => min stop line.length
    | none => line.length
  let stop := if stop < start then start else stop
  trimSpace ((line.take stop).drop start)

def sliceTabulateColumns (line : Text) (cols : List ColRange) : List Text :=
  cols.map (sliceTabulateColumn line)

/-- A row by its headers. -/
def tableRow (headers values : List Text) : Table Text Text :=
  (headers.zip values).foldl (fun row cell => row.insert cell.1 cell.2) ∅

def parseTabulateTable (text : Text) : List (Table Text Text) :=
  let lines := text.splitOn '\n'
  match lines.findIdx? isTabulateSeparatorLine with
  | none => []
  | some sepIdx =>
    if sepIdx < 1 then []
    else
      let cols := tabulateColumnRanges (lines.getD sepIdx [])
      if cols = [] then []
      else
        let headers := sliceTabulateColumns (lines.getD (sepIdx - 1) []) cols
        ((lines.drop (sepIdx + 1)).filter fun line => trimSpace line ≠ []).map fun line =>
          tableRow headers (sliceTabulateColumns line cols)

/-- A table of cells without line breaks and without blanks around them; no row is blank, and the
headers are distinct and not empty. -/
structure SimpleTable where
  headers : List Text
  rows : List (List Text)
  headers_nodup : headers.Nodup
  headers_ne_nil : ∀ h ∈ headers, h ≠ []
  length_eq : ∀ row ∈ rows, row.length = headers.length
  rows_nonblank : ∀ row ∈ rows, ∃ cell ∈ row, cell ≠ []
  newline_notMem : ∀ row ∈ headers :: rows, ∀ cell ∈ row, '\n' ∉ cell
  trimmed : ∀ row ∈ headers :: rows, ∀ cell ∈ row, trimSpace cell = cell

/-- The longest cell of each column, the header among them. -/
def columnLengths (t : SimpleTable) : List ℕ :=
  t.rows.foldl (fun ws row => List.zipWith max ws (row.map List.length)) (t.headers.map List.length)

def padRight (w : ℕ) (cell : Text) : Text := cell ++ List.replicate (w - cell.length) ' '

/-- The cells of a row side by side, left-aligned. -/
def rowLine (ws : List ℕ) (cells : List Text) : Text :=
  [' ', ' '].intercalate (List.zipWith padRight ws cells)

def dashLine (ws : List ℕ) : Text := [' ', ' '].intercalate (ws.map (List.replicate · '-'))

/-- A line with the blanks at its end kept or stripped. -/
def shown (stripped : Bool) (line : Text) : Text :=
  if stripped then line.rdropWhile (· = ' ') else line

/-- The lines of the table in columns of these widths, and lines that are empty after it. -/
def tableLines (t : SimpleTable) (ws : List ℕ) (stripped : Bool) (emptyLines : ℕ) : List Text :=
  shown stripped (rowLine ws t.headers) :: dashLine ws ::
    ((t.rows.map fun row => shown stripped (rowLine ws row)) ++ List.replicate emptyLines [])

/-- The table as it is printed, in columns that are wider than their cells by `extra`. -/
def render (t : SimpleTable) (extra : ℕ → ℕ) (stripped : Bool) (emptyLines : ℕ) : Text :=
  ['\n'].intercalate
    (tableLines t ((columnLengths t).mapIdx fun j w => w + extra j) stripped emptyLines)

section Blanks

theorem isSpace_blank : isSpace ' ' = true := by decide

/-- Blanks at the end of a text make no difference to it once it is trimmed. -/
theorem trimSpace_append_blanks (s : Text) {blanks : Text} (h : ∀ c ∈ blanks, c = ' ') :
    trimSpace (s ++ blanks) = trimSpace s := by
  have hall : ∀ c ∈ blanks, isSpace c = true := fun c hc => by
    rw [h c hc]
    exact isSpace_blank
  unfold trimSpace
  rw [List.dropWhile_append]
  split
  · rename_i hempty
    rw [List.isEmpty_iff.mp hempty, List.dropWhile_eq_nil_iff.mpr hall]
  · have hreverse : ∀ c ∈ blanks.reverse, isSpace c = true := fun c hc =>
      hall c (List.mem_reverse.mp hc)
    rw [List.reverse_append, List.dropWhile_append_of_pos hreverse]

theorem mem_dropWhile {s : Text} {c : Char} (hc : c ∈ s) (hspace : isSpace c = false) :
    c ∈ s.dropWhile isSpace := by
  rw [← List.takeWhile_append_dropWhile (p := isSpace) (l := s)] at hc
  refine (List.mem_append.mp hc).resolve_left fun htake => ?_
  rw [List.mem_takeWhile_imp htake] at hspace
  cases hspace

theorem trimSpace_ne_nil {s : Text} {c : Char} (hc : c ∈ s) (hspace : isSpace c = false) :
    trimSpace s ≠ [] := by
  have hleft := List.mem_reverse.mpr (mem_dropWhile hc hspace)
  unfold trimSpace
  exact List.reverse_ne_nil_iff.mpr (List.ne_nil_of_mem (mem_dropWhile hleft hspace))

/-- A cell that is not empty has a character that is no space. -/
theorem exists_not_isSpace {cell : Text} (hne : cell ≠ []) (htrim : trimSpace cell = cell) :
    ∃ c ∈ cell, isSpace c = false := by
  by_contra hall
  push Not at hall
  have hdrop : cell.dropWhile isSpace = [] :=
    List.dropWhile_eq_nil_iff.mpr fun c hc => Bool.not_eq_false _ ▸ hall c hc
  unfold trimSpace at htrim
  rw [hdrop] at htrim
  exact hne htrim.symm

theorem trimSpace_padRight {cell : Text} (htrim : trimSpace cell = cell) (w : ℕ) :
    trimSpace (padRight w cell) = cell := by
  unfold padRight
  rw [trimSpace_append_blanks cell fun c hc => List.eq_of_mem_replicate hc, htrim]

theorem length_padRight {cell : Text} {w : ℕ} (h : cell.length ≤ w) :
    (padRight w cell).length = w := by
  unfold padRight
  rw [List.length_append, List.length_replicate]
  omega

end Blanks

section Columns

/-- The positions of columns of these widths, two blanks apart. -/
def spans (start : ℕ) : List ℕ → List ColRange
  | [] => []
  | w :: ws => ⟨start, some (start + w)⟩ :: spans (start + w + 2) ws

theorem columnRuns_replicate (i : ℕ) (start : ℕ) (w : ℕ) (rest : Text) :
    columnRuns i (some start) (List.replicate w '-' ++ rest) =
      columnRuns (i + w) (some start) rest := by
  induction w generalizing i with
  | zero => rfl
  | succ w ih =>
    rw [List.replicate_succ, List.cons_append, columnRuns, if_pos rfl, Option.getD_some, ih]
    congr 1
    omega

/-- The dashes are found where the columns are. -/
theorem columnRuns_dashLine (i : ℕ) {ws : List ℕ} (h : ∀ w ∈ ws, 0 < w) :
    columnRuns i none (dashLine ws) = spans i ws := by
  induction ws generalizing i with
  | nil => rfl
  | cons w ws ih =>
    obtain ⟨v, rfl⟩ := Nat.exists_eq_succ_of_ne_zero (h w List.mem_cons_self).ne'
    have hrun (rest : Text) : columnRuns i none (List.replicate (v + 1) '-' ++ rest) =
        columnRuns (i + (v + 1)) (some i) rest := by
      rw [List.replicate_succ, List.cons_append, columnRuns, if_pos rfl, Option.getD_none,
        columnRuns_replicate]
      congr 1
      omega
    have hrest := ih (i + (v + 1) + 2) fun w hw => h w (List.mem_cons_of_mem _ hw)
    unfold dashLine at hrest ⊢
    cases ws with
    | nil =>
      rw [List.map_singleton, List.intercalate_singleton, ← List.append_nil (List.replicate _ _), hrun]
      rfl
    | cons w' ws =>
      rw [List.map_cons, List.map_cons, List.intercalate_cons_cons, List.append_assoc, hrun, spans,
        ← hrest]
      rfl

theorem sliceTabulateColumn_eq (line : Text) {start stop : ℕ} (h : start ≤ stop) :
    sliceTabulateColumn line ⟨start, some stop⟩ = trimSpace ((line.take stop).drop start) := by
  have hnot : ¬ min stop line.length < min start line.length := by omega
  have htake : line.take (min stop line.length) = line.take stop := by
    rw [← List.take_take, List.take_length]
  unfold sliceTabulateColumn
  dsimp only
  rw [if_neg hnot, htake]
  rcases Nat.le_total start line.length with hstart | hstart
  · rw [min_eq_left hstart]
  · rw [min_eq_right hstart, List.drop_of_length_le (List.length_take_le' _ _),
      List.drop_of_length_le ((List.length_take_le' _ _).trans hstart)]

theorem sliceTabulateColumn_open (line : Text) (start : ℕ) :
    sliceTabulateColumn line ⟨start, none⟩ = trimSpace (line.drop start) := by
  unfold sliceTabulateColumn
  dsimp only
  rw [if_neg (Nat.not_lt.mpr (min_le_right _ _)), List.take_length]
  rcases Nat.le_total start line.length with hstart | hstart
  · rw [min_eq_left hstart]
  · rw [min_eq_right hstart, List.drop_length, List.drop_of_length_le hstart]

/-- A column does not end before it starts. -/
def Ordered (c : ColRange) : Prop := ∀ stop, c.stop = some stop → c.start ≤ stop

/-- Blanks at the end of a line make no difference to its columns. -/
theorem sliceTabulateColumn_append_blanks (line : Text) {blanks : Text} (h : ∀ c ∈ blanks, c = ' ')
    {c : ColRange} (hc : Ordered c) :
    sliceTabulateColumn (line ++ blanks) c = sliceTabulateColumn line c := by
  obtain ⟨start, stop⟩ := c
  cases stop with
  | none =>
    rw [sliceTabulateColumn_open, sliceTabulateColumn_open, List.drop_append]
    exact trimSpace_append_blanks _ fun c hc => h c (List.mem_of_mem_drop hc)
  | some stop =>
    have hle := hc stop rfl
    rw [sliceTabulateColumn_eq _ hle, sliceTabulateColumn_eq _ hle, List.take_append, List.drop_append]
    exact trimSpace_append_blanks _ fun c hc => h c (List.mem_of_mem_take (List.mem_of_mem_drop hc))

theorem ordered_openLast_spans (start : ℕ) (ws : List ℕ) :
    ∀ c ∈ openLast (spans start ws), Ordered c := by
  induction ws generalizing start with
  | nil => exact List.forall_mem_nil _
  | cons w ws ih =>
    cases ws with
    | nil =>
      intro c hc stop hstop
      rw [List.mem_singleton.mp hc] at hstop
      cases hstop
    | cons w' ws =>
      intro c hc
      rcases List.mem_cons.mp hc with rfl | hc
      · exact fun stop hstop => Option.some.inj hstop ▸ Nat.le_add_right start w
      · exact ih (start + w + 2) c hc

/-- The cells of a row are no longer than the columns are wide. -/
abbrev Fits (cells : List Text) (ws : List ℕ) : Prop :=
  List.Forall₂ (fun cell w => cell.length ≤ w) cells ws

/-- What stands in a column of a line is the cell of the row. -/
theorem slice_rowLine {cells : List Text} {ws : List ℕ} (h : Fits cells ws)
    (htrim : ∀ cell ∈ cells, trimSpace cell = cell) (before : Text) :
    sliceTabulateColumns (before ++ rowLine ws cells) (openLast (spans before.length ws)) = cells := by
  induction h generalizing before with
  | nil => rfl
  | @cons cell w cells ws hfit hrest ih =>
    have hcell := trimSpace_padRight (htrim cell List.mem_cons_self) w
    have hlen := length_padRight hfit
    cases hrest with
    | nil =>
      unfold rowLine
      rw [List.zipWith_cons_cons, List.zipWith_nil_left, List.intercalate_singleton]
      refine congrArg (fun value => [value]) ?_
      rw [sliceTabulateColumn_open, List.drop_left, hcell]
    | @cons cell' w' cells ws hfit' hrest =>
      have hline : rowLine (w :: w' :: ws) (cell :: cell' :: cells) =
          padRight w cell ++ ([' ', ' '] ++ rowLine (w' :: ws) (cell' :: cells)) := by
        unfold rowLine
        rw [List.zipWith_cons_cons, List.zipWith_cons_cons, List.intercalate_cons_cons,
          List.append_assoc]
      have hstart : (before ++ padRight w cell ++ [' ', ' ']).length = before.length + w + 2 := by
        rw [List.length_append, List.length_append, hlen]
        rfl
      have hrest := ih (fun c hc => htrim c (List.mem_cons_of_mem _ hc))
        (before ++ padRight w cell ++ [' ', ' '])
      rw [hstart, List.append_assoc, List.append_assoc] at hrest
      rw [hline]
      refine congrArg₂ List.cons ?_ hrest
      have htake : (before ++ (padRight w cell ++
          ([' ', ' '] ++ rowLine (w' :: ws) (cell' :: cells)))).take (before.length + w) =
          before ++ padRight w cell := by
        rw [← List.append_assoc]
        exact List.take_left' (by rw [List.length_append, hlen])
      rw [sliceTabulateColumn_eq _ (Nat.le_add_right _ _), htake, List.drop_left, hcell]

end Columns

section Lines

theorem mem_shown {stripped : Bool} {line : Text} {c : Char} (h : c ∈ shown stripped line) :
    c ∈ line := by
  unfold shown at h
  split at h
  · exact (List.rdropWhile_prefix _ line).subset h
  · exact h

/-- What is stripped from a line is blanks. -/
theorem shown_append (stripped : Bool) (line : Text) :
    ∃ blanks : Text, shown stripped line ++ blanks = line ∧ ∀ c ∈ blanks, c = ' ' := by
  cases stripped with
  | false => exact ⟨[], List.append_nil line, List.forall_mem_nil _⟩
  | true =>
    exact ⟨line.rtakeWhile (· = ' '), List.rdropWhile_append_rtakeWhile, fun c hc =>
      of_decide_eq_true (List.mem_rtakeWhile_imp (p := fun c : Char => decide (c = ' ')) hc)⟩

theorem mem_shown_of_ne {stripped : Bool} {line : Text} {c : Char} (h : c ∈ line) (hc : c ≠ ' ') :
    c ∈ shown stripped line := by
  obtain ⟨blanks, hline, hblanks⟩ := shown_append stripped line
  rw [← hline] at h
  exact (List.mem_append.mp h).resolve_right fun h => hc (hblanks c h)

theorem slice_shown {cells : List Text} {ws : List ℕ} (h : Fits cells ws)
    (htrim : ∀ cell ∈ cells, trimSpace cell = cell) (stripped : Bool) :
    sliceTabulateColumns (shown stripped (rowLine ws cells)) (openLast (spans 0 ws)) = cells := by
  obtain ⟨blanks, hline, hblanks⟩ := shown_append stripped (rowLine ws cells)
  have hslice : sliceTabulateColumns (rowLine ws cells) (openLast (spans 0 ws)) = cells :=
    slice_rowLine h htrim []
  conv_rhs => rw [← hslice]
  unfold sliceTabulateColumns
  refine List.map_congr_left fun c hc => ?_
  conv_rhs => rw [← hline]
  exact (sliceTabulateColumn_append_blanks _ hblanks (ordered_openLast_spans 0 ws c hc)).symm

theorem mem_rowLine {cells : List Text} {ws : List ℕ} (h : Fits cells ws) {cell : Text}
    (hcell : cell ∈ cells) {c : Char} (hc : c ∈ cell) : c ∈ rowLine ws cells := by
  have hpadded : ∃ w, padRight w cell ∈ List.zipWith padRight ws cells := by
    induction h with
    | nil => exact absurd hcell List.not_mem_nil
    | @cons cell' w cells ws _ _ ih =>
      rw [List.zipWith_cons_cons]
      rcases List.mem_cons.mp hcell with rfl | hcell
      · exact ⟨w, List.mem_cons_self⟩
      · obtain ⟨v, hv⟩ := ih hcell
        exact ⟨v, List.mem_cons_of_mem _ hv⟩
  obtain ⟨w, hw⟩ := hpadded
  exact mem_intercalate hw (List.mem_append_left _ hc)

theorem of_mem_rowLine {cells : List Text} {ws : List ℕ} {c : Char} (h : c ∈ rowLine ws cells) :
    c = ' ' ∨ ∃ cell ∈ cells, c ∈ cell := by
  rcases mem_of_mem_intercalate h with h | ⟨part, hpart, h⟩
  · left
    simpa using h
  · rw [← List.map_uncurry_zip_eq_zipWith] at hpart
    obtain ⟨⟨w, cell⟩, hmem, rfl⟩ := List.mem_map.mp hpart
    rcases List.mem_append.mp h with h | h
    · exact Or.inr ⟨cell, (List.of_mem_zip hmem).2, h⟩
    · exact Or.inl (List.eq_of_mem_replicate h)

theorem of_mem_dashLine {ws : List ℕ} {c : Char} (h : c ∈ dashLine ws) : c = '-' ∨ c = ' ' := by
  rcases mem_of_mem_intercalate h with h | ⟨run, hrun, h⟩
  · right
    simpa using h
  · obtain ⟨w, -, rfl⟩ := List.mem_map.mp hrun
    exact Or.inl (List.eq_of_mem_replicate h)

theorem isTabulateSeparatorLine_dashLine {ws : List ℕ} (hne : ws ≠ []) (hpos : ∀ w ∈ ws, 0 < w) :
    isTabulateSeparatorLine (dashLine ws) = true := by
  obtain ⟨w, ws, rfl⟩ := List.exists_cons_of_ne_nil hne
  have hdash : '-' ∈ dashLine (w :: ws) :=
    mem_intercalate (l := List.replicate w '-') List.mem_cons_self
      (List.mem_replicate.mpr ⟨(hpos w List.mem_cons_self).ne', rfl⟩)
  have hall : (dashLine (w :: ws)).all (fun r => r = '-' ∨ r = ' ') = true :=
    List.all_eq_true.mpr fun c hc => decide_eq_true (of_mem_dashLine hc)
  exact decide_eq_true ⟨trimSpace_ne_nil hdash (by decide), hall, hdash⟩

end Lines

section Widths

theorem forall₂_le_trans {us vs ws : List ℕ} (h : List.Forall₂ (· ≤ ·) us vs)
    (h' : List.Forall₂ (· ≤ ·) vs ws) : List.Forall₂ (· ≤ ·) us ws := by
  induction h generalizing ws with
  | nil => exact h'
  | cons hle _ ih =>
    cases h' with
    | cons hle' hrest => exact List.Forall₂.cons (hle.trans hle') (ih hrest)

theorem forall₂_le_zipWith_max {ws vs : List ℕ} (h : ws.length = vs.length) :
    List.Forall₂ (· ≤ ·) ws (List.zipWith max ws vs) ∧
      List.Forall₂ (· ≤ ·) vs (List.zipWith max ws vs) := by
  constructor
  · refine List.forall₂_iff_get.mpr ⟨by rw [List.length_zipWith, h, min_self], fun i _ _ => ?_⟩
    rw [List.get_eq_getElem, List.get_eq_getElem, List.getElem_zipWith]
    exact le_max_left _ _
  · refine List.forall₂_iff_get.mpr ⟨by rw [List.length_zipWith, h, min_self], fun i _ _ => ?_⟩
    rw [List.get_eq_getElem, List.get_eq_getElem, List.getElem_zipWith]
    exact le_max_right _ _

/-- The widths grow with every row, and every row fits what they end with. -/
theorem foldl_max_le {n : ℕ} {rows : List (List Text)} (hrows : ∀ row ∈ rows, row.length = n)
    {ws : List ℕ} (hws : ws.length = n) :
    List.Forall₂ (· ≤ ·) ws
        (rows.foldl (fun ws row => List.zipWith max ws (row.map List.length)) ws) ∧
      ∀ row ∈ rows, List.Forall₂ (· ≤ ·) (row.map List.length)
        (rows.foldl (fun ws row => List.zipWith max ws (row.map List.length)) ws) := by
  induction rows generalizing ws with
  | nil => exact ⟨List.forall₂_same.mpr fun w _ => Nat.le_refl w, List.forall_mem_nil _⟩
  | cons row rows ih =>
    have hrow : ws.length = (row.map List.length).length := by
      rw [List.length_map, hws, hrows row List.mem_cons_self]
    have hmax := forall₂_le_zipWith_max hrow
    have hlen : (List.zipWith max ws (row.map List.length)).length = n := by
      rw [List.length_zipWith, ← hrow, min_self, hws]
    obtain ⟨hgrow, hfit⟩ := ih (fun r hr => hrows r (List.mem_cons_of_mem _ hr)) hlen
    rw [List.foldl_cons]
    refine ⟨forall₂_le_trans hmax.1 hgrow, fun r hr => ?_⟩
    rcases List.mem_cons.mp hr with rfl | hr
    · exact forall₂_le_trans hmax.2 hgrow
    · exact hfit r hr

theorem forall₂_le_mapIdx (ws : List ℕ) (extra : ℕ → ℕ) :
    List.Forall₂ (· ≤ ·) ws (ws.mapIdx fun j w => w + extra j) := by
  refine List.forall₂_iff_get.mpr ⟨(List.length_mapIdx ..).symm, fun i _ _ => ?_⟩
  simp

/-- The headers and every row fit the columns. -/
theorem fits_columnLengths (t : SimpleTable) (extra : ℕ → ℕ) :
    ∀ row ∈ t.headers :: t.rows, Fits row ((columnLengths t).mapIdx fun j w => w + extra j) := by
  obtain ⟨hheaders, hrows⟩ := foldl_max_le t.length_eq (List.length_map List.length)
  have hextra := forall₂_le_mapIdx (columnLengths t) extra
  intro row hrow
  rw [Fits, ← List.forall₂_map_left_iff (R := fun n w : ℕ => n ≤ w)]
  rcases List.mem_cons.mp hrow with rfl | hrow
  · exact forall₂_le_trans hheaders hextra
  · exact forall₂_le_trans (hrows row hrow) hextra

theorem pos_of_fits {cells : List Text} {ws : List ℕ} (h : Fits cells ws)
    (hne : ∀ cell ∈ cells, cell ≠ []) : ∀ w ∈ ws, 0 < w := by
  induction h with
  | nil => exact List.forall_mem_nil _
  | cons hfit _ ih =>
    intro w hw
    rcases List.mem_cons.mp hw with rfl | hw
    · exact (List.length_pos_iff.mpr (hne _ List.mem_cons_self)).trans_le hfit
    · exact ih (fun c hc => hne c (List.mem_cons_of_mem _ hc)) w hw

end Widths

/-- A row has the cell of each header. -/
theorem lookup_tableRow {headers : List Text} (hnodup : headers.Nodup) (values : List Text)
    (h : Text) : (tableRow headers values).lookup h = (headers.zip values).lookup h := by
  have hfold (row : Table Text Text) : ((headers.zip values).foldl
      (fun row cell => row.insert cell.1 cell.2) row).lookup h =
        ((headers.zip values).lookup h).or (row.lookup h) := by
    induction headers generalizing values row with
    | nil => rfl
    | cons header headers ih =>
      cases values with
      | nil => rfl
      | cons value values =>
        obtain ⟨hnot, hnodup⟩ := List.nodup_cons.mp hnodup
        rw [List.zip_cons_cons, List.foldl_cons, ih hnodup, lookup_insert_apply, List.lookup_cons]
        by_cases heq : h = header
        · have hnone : (headers.zip values).lookup h = none :=
            List.lookup_eq_none_iff.mpr fun cell hcell => by
              have hmem := (List.of_mem_zip (a := cell.1) (b := cell.2) hcell).1
              simpa [heq] using fun hfst : header = cell.1 => hnot (hfst ▸ hmem)
          rw [hnone, if_pos heq, beq_iff_eq.mpr heq]
          rfl
        · rw [if_neg heq, beq_eq_false_iff_ne.mpr heq]
  unfold tableRow
  rw [hfold, AList.lookup_empty, Option.or_none]

theorem newline_notMem_tableLines (t : SimpleTable) (ws : List ℕ) (stripped : Bool)
    (emptyLines : ℕ) : ∀ line ∈ tableLines t ws stripped emptyLines, '\n' ∉ line := by
  have hrow : ∀ row ∈ t.headers :: t.rows, '\n' ∉ shown stripped (rowLine ws row) := by
    intro row hrow hmem
    rcases of_mem_rowLine (mem_shown hmem) with h | ⟨cell, hcell, h⟩
    · exact absurd h (by decide)
    · exact t.newline_notMem row hrow cell hcell h
  intro line hline hmem
  rcases List.mem_cons.mp hline with rfl | hline
  · exact hrow t.headers List.mem_cons_self hmem
  rcases List.mem_cons.mp hline with rfl | hline
  · rcases of_mem_dashLine hmem with h | h
    · exact absurd h (by decide)
    · exact absurd h (by decide)
  rcases List.mem_append.mp hline with hline | hline
  · obtain ⟨row, hmemrow, rfl⟩ := List.mem_map.mp hline
    exact hrow row (List.mem_cons_of_mem _ hmemrow) hmem
  · rw [List.eq_of_mem_replicate hline] at hmem
    exact List.not_mem_nil hmem

/-- The lines below the dashes that are no rows are those that are empty. -/
theorem filter_body (t : SimpleTable) {ws : List ℕ} (hfits : ∀ row ∈ t.rows, Fits row ws)
    (stripped : Bool) (emptyLines : ℕ) :
    ((t.rows.map fun row => shown stripped (rowLine ws row)) ++
        List.replicate emptyLines []).filter (fun line => trimSpace line ≠ []) =
      t.rows.map fun row => shown stripped (rowLine ws row) := by
  have hrows : ∀ line ∈ t.rows.map fun row => shown stripped (rowLine ws row),
      decide (trimSpace line ≠ []) = true := by
    intro line hline
    obtain ⟨row, hrow, rfl⟩ := List.mem_map.mp hline
    obtain ⟨cell, hcell, hne⟩ := t.rows_nonblank row hrow
    obtain ⟨c, hc, hspace⟩ :=
      exists_not_isSpace hne (t.trimmed row (List.mem_cons_of_mem _ hrow) cell hcell)
    have hblank : c ≠ ' ' := fun h => by
      rw [h, isSpace_blank] at hspace
      cases hspace
    exact decide_eq_true
      (trimSpace_ne_nil (mem_shown_of_ne (mem_rowLine (hfits row hrow) hcell hc) hblank) hspace)
  rw [List.filter_append, List.filter_eq_self.mpr hrows, List.filter_replicate]
  exact List.append_nil _

/-- A text whose second line is the first one of dashes. -/
theorem parseTabulateTable_lines {text header dashes : Text} {body : List Text}
    (hsplit : text.splitOn '\n' = header :: dashes :: body)
    (hheader : isTabulateSeparatorLine header = false)
    (hdashes : isTabulateSeparatorLine dashes = true) (hcols : tabulateColumnRanges dashes ≠ []) :
    parseTabulateTable text = (body.filter fun line => trimSpace line ≠ []).map fun line =>
      tableRow (sliceTabulateColumns header (tabulateColumnRanges dashes))
        (sliceTabulateColumns line (tabulateColumnRanges dashes)) := by
  have hfind : (header :: dashes :: body).findIdx? isTabulateSeparatorLine = some 1 := by
    rw [List.findIdx?_cons, hheader, if_neg Bool.false_ne_true, List.findIdx?_cons, hdashes,
      if_pos rfl]
    rfl
  unfold parseTabulateTable
  rw [hsplit]
  dsimp only
  rw [hfind]
  exact if_neg hcols

/-- The rows of a printed table come back in order, each cell under its header. -/
theorem parseTabulateTable_render (t : SimpleTable)
    (hheader : ∃ header ∈ t.headers, ∃ c ∈ header, c ≠ '-' ∧ c ≠ ' ') (extra : ℕ → ℕ)
    (stripped : Bool) (emptyLines : ℕ) :
    (parseTabulateTable (render t extra stripped emptyLines)).map (fun row h => row.lookup h) =
      t.rows.map fun cells h => (t.headers.zip cells).lookup h := by
  have hfits := fits_columnLengths t extra
  unfold render
  generalize (columnLengths t).mapIdx (fun j w => w + extra j) = ws at hfits ⊢
  have hfit := hfits t.headers List.mem_cons_self
  have hpos := pos_of_fits hfit t.headers_ne_nil
  obtain ⟨header, hmem, c, hc, hdash, hblank⟩ := hheader
  obtain ⟨w, ws, rfl⟩ : ∃ w ws', ws = w :: ws' := by
    refine List.exists_cons_of_ne_nil ?_
    rintro rfl
    rw [List.forall₂_nil_right_iff.mp hfit] at hmem
    exact List.not_mem_nil hmem
  -- the first line has a character of a header, so the line of dashes is the second
  have hfirst : isTabulateSeparatorLine (shown stripped (rowLine (w :: ws) t.headers)) = false :=
    decide_eq_false fun h => (of_decide_eq_true (List.all_eq_true.mp h.2.1 c
      (mem_shown_of_ne (mem_rowLine hfit hmem hc) hblank))).elim hdash hblank
  have hcols : tabulateColumnRanges (dashLine (w :: ws)) = openLast (spans 0 (w :: ws)) := by
    rw [tabulateColumnRanges, columnRuns_dashLine 0 hpos]
  have hcols_ne : openLast (spans 0 (w :: ws)) ≠ [] := by
    cases ws with
    | nil => exact List.cons_ne_nil _ _
    | cons w' ws => exact List.cons_ne_nil _ _
  have hsplit := List.splitOn_intercalate '\n'
    (newline_notMem_tableLines t (w :: ws) stripped emptyLines) (List.cons_ne_nil _ _)
  have hslice : ∀ row ∈ t.headers :: t.rows, sliceTabulateColumns
      (shown stripped (rowLine (w :: ws) row)) (openLast (spans 0 (w :: ws))) = row :=
    fun row hrow => slice_shown (hfits row hrow) (t.trimmed row hrow) stripped
  rw [parseTabulateTable_lines hsplit hfirst
    (isTabulateSeparatorLine_dashLine (List.cons_ne_nil _ _) hpos) (hcols ▸ hcols_ne), hcols,
    filter_body t (fun row hrow => hfits row (List.mem_cons_of_mem _ hrow)),
    hslice _ List.mem_cons_self, List.map_map, List.map_map]
  refine List.map_congr_left fun row hrow => funext fun h => ?_
  dsimp only [Function.comp_apply]
  rw [hslice row (List.mem_cons_of_mem _ hrow), lookup_tableRow t.headers_nodup]

/-- A table with an empty cell, and cells with dashes and two blanks. -/
def leases : SimpleTable where
  headers := ["IP Address".toList, "Pool".toList, "Hostname".toList]
  rows := [["10.0.0.1".toList, [], "a  b".toList], ["-".toList, "--".toList, []]]
  headers_nodup := by decide +kernel
  headers_ne_nil := by decide +kernel
  length_eq := by decide +kernel
  rows_nonblank := by decide +kernel
  newline_notMem := by decide +kernel
  trimmed := by decide +kernel

theorem leases_come_back :
    (parseTabulateTable (render leases (fun _ => 0) true 1)).map (fun row h => row.lookup h) =
      leases.rows.map fun cells h => (leases.headers.zip cells).lookup h :=
  parseTabulateTable_render leases
    ⟨"Pool".toList, by decide +kernel, 'P', by decide +kernel, by decide, by decide⟩ _ _ _

/-- One header of dashes and a blank. -/
def dashes : SimpleTable where
  headers := ["- -".toList]
  rows := [["x".toList]]
  headers_nodup := by decide +kernel
  headers_ne_nil := by decide +kernel
  length_eq := by decide +kernel
  rows_nonblank := by decide +kernel
  newline_notMem := by decide +kernel
  trimmed := by decide +kernel

/-- A header of dashes and blanks is taken for the line of dashes. -/
theorem dashes_do_not_come_back : (∃ header ∈ dashes.headers, ∃ c ∈ header, c ≠ '-') ∧
    (parseTabulateTable (render dashes (fun _ => 0) false 0)).map (fun row h => row.lookup h) ≠
      dashes.rows.map fun cells h => (dashes.headers.zip cells).lookup h := by
  refine ⟨⟨"- -".toList, by decide +kernel, ' ', by decide +kernel, by decide⟩, fun h => ?_⟩
  have hnone : (parseTabulateTable (render dashes (fun _ => 0) false 0)).length = 0 := by
    decide +kernel
  have hlen := congrArg List.length h
  rw [List.length_map, hnone] at hlen
  cases hlen

end VyosClient.TabulateTable
