import VyosClient.Separators
import Mathlib.Data.List.DropRight
import Mathlib.Data.List.Find
import Mathlib.Data.List.Infix
import Mathlib.Tactic.Common

/-!
The output of `show file`, byte by byte: a directory listing or the view of a file, told apart by
the first line. A view has a block of metadata up to the header of its data, then the content of
the file, which is cut into lines and joined again; only its first bytes are kept.
-/

namespace VyosClient.ShowFile

open Separators

abbrev Bytes := List UInt8

/-- The bytes of a text whose characters are all ASCII. -/
def ascii (text : String) : Bytes := text.toList.map fun c => UInt8.ofNat c.toNat

structure FileEntry where
  name : Bytes
  isDir : Bool
  permissions : Bytes
  size : Bytes
  modified : Bytes
  linkTarget : Bytes
deriving DecidableEq, Repr

structure DirectoryListing where
  path : Bytes
  entries : List FileEntry
deriving DecidableEq, Repr

structure FileView where
  path : Bytes
  type : Bytes
  owner : Bytes
  permissions : Bytes
  modified : Bytes
  isBinary : Bool
  content : Bytes
  truncated : Bool
deriving DecidableEq, Repr

inductive Shown
  | directory (listing : DirectoryListing)
  | file (view : FileView)
deriving DecidableEq, Repr

/-- Both errors name the path. -/
inductive ShowFileError
  | unrecognized (path : Bytes)
  | noFileData (path : Bytes)
deriving DecidableEq, Repr

def directoryListingHeader : Bytes := ascii "########## DIRECTORY LISTING ##########"

def fileInfoHeader : Bytes := ascii "########## FILE INFO ##########"

def fileDataHeader : Bytes := ascii "########## FILE DATA ##########"

def maxFileViewContentBytes : ℕ := 2 * 1024 * 1024

/-- `strings.TrimRight`. -/
def trimRight (cutset s : Bytes) : Bytes := s.rdropWhile (· ∈ cutset)

/-- The characters that `unicode.IsSpace` holds of, in UTF-8. -/
def spaces : List Bytes :=
  [[9], [10], [11], [12], [13], [32], [0xC2, 0x85], [0xC2, 0xA0], [0xE1, 0x9A, 0x80],
    [0xE2, 0x80, 0x80], [0xE2, 0x80, 0x81], [0xE2, 0x80, 0x82], [0xE2, 0x80, 0x83],
    [0xE2, 0x80, 0x84], [0xE2, 0x80, 0x85], [0xE2, 0x80, 0x86], [0xE2, 0x80, 0x87],
    [0xE2, 0x80, 0x88], [0xE2, 0x80, 0x89], [0xE2, 0x80, 0x8A], [0xE2, 0x80, 0xA8],
    [0xE2, 0x80, 0xA9], [0xE2, 0x80, 0xAF], [0xE2, 0x81, 0x9F], [0xE3, 0x80, 0x80]]

/-- The bytes of the space at the front, none when there is none. -/
def spaceLength (spaces : List Bytes) (s : Bytes) : ℕ :=
  ((spaces.find? (·.isPrefixOf s)).map List.length).getD 0

def trimLeft (spaces : List Bytes) (s : Bytes) : Bytes :=
  if 0 < spaceLength spaces s ∧ s ≠ [] then trimLeft spaces (s.drop (spaceLength spaces s)) else s
termination_by s.length
decreasing_by
  rename_i h
  have hpos := List.length_pos_iff.mpr h.2
  rw [List.length_drop]
  omega

/-- `strings.TrimSpace`. No space of several bytes ends in another one, so the end is read
backwards. -/
def trimSpace (s : Bytes) : Bytes :=
  (trimLeft (spaces.map List.reverse) (trimLeft spaces s).reverse).reverse

section Listing

/-- `\s` of a Go regexp. -/
def isRegexpSpace (b : UInt8) : Bool := b ∈ [9, 10, 12, 13, 32]

def isDigit (b : UInt8) : Bool := 48 ≤ b ∧ b ≤ 57

def isLetter (b : UInt8) : Bool := (65 ≤ b ∧ b ≤ 90) ∨ (97 ≤ b ∧ b ≤ 122)

def isNotSpace (b : UInt8) : Bool := !isRegexpSpace b

def isPermByte (b : UInt8) : Bool := isLetter b || b ∈ ascii "?-"

def isWordByte (b : UInt8) : Bool := isLetter b || isDigit b || b ∈ ascii "_"

def isTimeByte (b : UInt8) : Bool := isDigit b || b ∈ ascii ":"

/-- A repeated class of `lsLineRE`: one byte or more. Each class excludes what follows it, so the
longest run is the only one that can match. -/
def run (f : UInt8 → Bool) (s : Bytes) : Option (Bytes × Bytes) :=
  if s.takeWhile f = [] then none else some (s.takeWhile f, s.dropWhile f)

/-- A class that is repeated a fixed number of times. -/
def times (n : ℕ) (f : UInt8 → Bool) (s : Bytes) : Option (Bytes × Bytes) :=
  if (s.take n).length = n ∧ (s.take n).all f then some (s.take n, s.drop n) else none

/-- An optional byte of a class. -/
def optional (f : UInt8 → Bool) : Bytes → Bytes
  | [] => []
  | b :: s => if f b then s else b :: s

/-- `\s+(.+)$`. When there are only spaces left, the name is the last of them. -/
def lastField (s : Bytes) : Option Bytes :=
  match run isRegexpSpace s with
  | none => none
  | some (blank, name) =>
    let name := if name = [] ∧ 2 ≤ blank.length then blank.drop (blank.length - 1) else name
    if name = [] ∨ 10 ∈ name then none else some name

/-- The submatches of `lsLineRE` that are used. -/
structure LsFields where
  perm : Bytes
  size : Bytes
  month : Bytes
  day : Bytes
  timeOrYear : Bytes
  name : Bytes
deriving DecidableEq, Repr

/-- `lsLineRE`. -/
def lsLineRE (line : Bytes) : Option LsFields := do
  let (perm, s) ← times 10 isPermByte line
  let (_, s) ← run isRegexpSpace (optional (· ∈ ascii ".+@") s)
  let (_, s) ← run isDigit s
  let (_, s) ← run isRegexpSpace s
  let (_, s) ← run isNotSpace s
  let (_, s) ← run isRegexpSpace s
  let (size, s) ← run isNotSpace s
  let (_, s) ← run isRegexpSpace s
  let (month, s) ← times 3 isWordByte s
  let (_, s) ← run isRegexpSpace s
  let (day, s) ← run isDigit s
  let (_, s) ← run isRegexpSpace s
  let (timeOrYear, s) ← run isTimeByte s
  let name ← lastField s
  return ⟨perm, size, month, day, timeOrYear, name⟩

/-- The parts before and after the first `sep`. -/
def cut (sep : Bytes) : Bytes → Option (Bytes × Bytes)
  | [] => if sep = [] then some ([], []) else none
  | b :: s =>
    if sep.isPrefixOf (b :: s) then some ([], (b :: s).drop sep.length)
    else (cut sep s).map fun parts => (b :: parts.1, parts.2)

/-- `strings.TrimSuffix`. -/
def trimSuffix (suffix s : Bytes) : Bytes :=
  if suffix <:+ s then s.take (s.length - suffix.length) else s

/-- The name and the target of a link; a name without an arrow has none. -/
def splitArrow (name : Bytes) : Bytes × Bytes :=
  match cut (ascii " -> ") name with
  | some (before, target) => (before, trimSuffix (ascii "/") target)
  | none => (name, [])

def parseLsLine (line : Bytes) : Option FileEntry :=
  (lsLineRE line).map fun m =>
    let (name, linkTarget) := splitArrow m.name
    { permissions := m.perm
      size := m.size
      modified := m.month ++ ascii " " ++ m.day ++ ascii " " ++ m.timeOrYear
      isDir := (ascii "d").isPrefixOf m.perm
      linkTarget := linkTarget
      name := trimRight (ascii "/*=|") name }

/-- The entries of the lines from one on. -/
def listingEntries (inBody : Bool) : List Bytes → List FileEntry
  | [] => []
  | line :: lines =>
    let line := trimRight [13] line
    if directoryListingHeader <:+: line then listingEntries true lines
    else if ¬ inBody then listingEntries inBody lines
    else if ascii "Path:" <+: line ∨ ascii "total " <+: line ∨ trimSpace line = [] then
      listingEntries inBody lines
    else match parseLsLine line with
      | some entry => entry :: listingEntries inBody lines
      | none => listingEntries inBody lines

def parseDirectoryListing (path raw : Bytes) : DirectoryListing :=
  ⟨path, listingEntries false (raw.splitOn 10)⟩

end Listing

/-- The labels of the metadata that is read, with the field each is for. -/
def infoLabels : List (Bytes × (FileView → Bytes → FileView)) :=
  [(ascii "Type:", fun fv value => { fv with type := value }),
    (ascii "Owner:", fun fv value => { fv with owner := value }),
    (ascii "Permissions:", fun fv value => { fv with permissions := value }),
    (ascii "Modified:", fun fv value => { fv with modified := value })]

/-- The view after a line with one of the labels. -/
def readInfo (fv : FileView) (line : Bytes) : Option FileView :=
  (infoLabels.find? fun label => label.1.isPrefixOf line).map fun label =>
    label.2 fv (trimSpace (line.drop label.1.length))

/-- The loop of `parseFileView`: the metadata, and the lines after the header of the data. -/
def scanInfo (fv : FileView) : List Bytes → Option (FileView × List Bytes)
  | [] => none
  | line :: lines =>
    let line := trimRight [13] line
    match readInfo fv line with
    | some fv => scanInfo fv lines
    | none => if fileDataHeader <:+: line then some (fv, lines) else scanInfo fv lines

def parseFileView (path raw : Bytes) : Except ShowFileError FileView :=
  match scanInfo ⟨path, [], [], [], [], false, [], false⟩ (raw.splitOn 10) with
  | none => .error (.noFileData path)
  | some (fv, lines) =>
    let content := [10].intercalate lines
    .ok { fv with
      isBinary := !decide (ascii "text" <:+: fv.type)
      content :=
        if maxFileViewContentBytes < content.length then content.take maxFileViewContentBytes
        else content
      truncated := decide (maxFileViewContentBytes < content.length) }

def parseShowFile (path raw : Bytes) : Except ShowFileError Shown :=
  let firstLine := trimRight [13] (raw.takeWhile (· ≠ 10))
  if firstLine = directoryListingHeader then .ok (.directory (parseDirectoryListing path raw))
  else if firstLine = fileInfoHeader then (parseFileView path raw).map .file
  else .error (.unrecognized path)

section FileView

/-- A value of the metadata: part of one line, without any of the headers. -/
structure InfoText where
  bytes : Bytes
  newline_notMem : 10 ∉ bytes
  directory_not_infix : ¬ directoryListingHeader <:+: bytes
  info_not_infix : ¬ fileInfoHeader <:+: bytes
  data_not_infix : ¬ fileDataHeader <:+: bytes

structure Metadata where
  path : InfoText
  type : InfoText
  owner : InfoText
  permissions : InfoText
  modified : InfoText

/-- The lines of a view before the header of the data. -/
def infoLines (m : Metadata) : List Bytes :=
  [fileInfoHeader, ascii "Path:\t\t" ++ m.path.bytes, ascii "Type:\t\t" ++ m.type.bytes,
    ascii "Owner:\t\t" ++ m.owner.bytes, ascii "Permissions:\t" ++ m.permissions.bytes,
    ascii "Modified:\t" ++ m.modified.bytes, []]

/-- What `show file` prints for a file. -/
def renderFileView (m : Metadata) (content : Bytes) : Bytes :=
  (infoLines m ++ [fileDataHeader]).flatMap (· ++ [10]) ++ content

/-- The field for a value of the metadata. -/
def infoField (text : InfoText) : Bytes := trimSpace (trimRight [13] text.bytes)

theorem trimRight_append {cutset s : Bytes} (h : trimRight cutset s = s) (t : Bytes) :
    trimRight cutset (s ++ t) = s ++ trimRight cutset t := by
  induction t using List.reverseRecOn with
  | nil => rw [List.append_nil, h]; exact (List.append_nil s).symm
  | append_singleton t b ih =>
    unfold trimRight at ih ⊢
    rw [← List.append_assoc, List.rdropWhile_concat, List.rdropWhile_concat, ih]
    split
    · rfl
    · rw [List.append_assoc]

theorem trimSpace_tab (s : Bytes) : trimSpace (9 :: s) = trimSpace s := by
  have hleft : trimLeft spaces (9 :: s) = trimLeft spaces s := by
    rw [trimLeft]
    exact if_pos ⟨Nat.one_pos, List.cons_ne_nil _ _⟩
  unfold trimSpace
  rw [hleft]

theorem splitOn_lines {lines : List Bytes} (h : ∀ line ∈ lines, 10 ∉ line) (rest : Bytes) :
    (lines.flatMap (· ++ [10]) ++ rest).splitOn 10 = lines ++ rest.splitOn 10 := by
  have hlines : lines.flatMap (List.splitOn 10) = lines.flatMap fun line => [line] :=
    List.flatMap_congr fun line hline => List.splitOn_eq_singleton (h line hline)
  rw [splitOn_terminated, hlines, List.flatMap_singleton']

/-- The view after a line that is not the header of the data. -/
def addInfo (fv : FileView) (line : Bytes) : FileView :=
  (readInfo fv (trimRight [13] line)).getD fv

/-- The metadata is read from the lines before the first one with the header of the data. -/
theorem scanInfo_append {lines : List Bytes} (h : ∀ line ∈ lines, ¬ fileDataHeader <:+: line)
    (fv : FileView) (rest : List Bytes) :
    scanInfo fv (lines ++ fileDataHeader :: rest) = some (lines.foldl addInfo fv, rest) := by
  induction lines generalizing fv with
  | nil => rfl
  | cons line lines ih =>
    have hline : ¬ fileDataHeader <:+: trimRight [13] line := fun hin =>
      h line List.mem_cons_self (hin.trans (List.rdropWhile_prefix _ line).isInfix)
    have hrest := ih fun l hl => h l (List.mem_cons_of_mem _ hl)
    rw [List.cons_append, scanInfo, List.foldl_cons, addInfo]
    cases readInfo fv (trimRight [13] line) with
    | none => exact (if_neg hline).trans (hrest fv)
    | some fv' => exact hrest fv'

theorem isPrefixOf_append {p q : Bytes} (h : p.isPrefixOf q = true ∨ q.isPrefixOf p = false)
    (s : Bytes) : p.isPrefixOf (q ++ s) = p.isPrefixOf q := by
  rw [Bool.eq_iff_iff, List.isPrefixOf_iff_prefix, List.isPrefixOf_iff_prefix]
  constructor
  · intro hpre
    rcases List.prefix_or_prefix_of_prefix hpre (List.prefix_append q s) with hpq | hqp
    · exact hpq
    · rcases h with h | h
      · exact List.isPrefixOf_iff_prefix.mp h
      · rw [List.isPrefixOf_iff_prefix.mpr hqp] at h
        cases h
  · exact fun hpre => hpre.trans (List.prefix_append q s)

/-- A line is read by what it starts with, which no label goes beyond. -/
theorem addInfo_append (fv : FileView) {start : Bytes} (hstart : trimRight [13] start = start)
    (h : ∀ label ∈ infoLabels, label.1.isPrefixOf start = true ∨ start.isPrefixOf label.1 = false)
    (value : Bytes) :
    addInfo fv (start ++ value) =
      match infoLabels.find? fun label => label.1.isPrefixOf start with
      | some label =>
        label.2 fv (trimSpace ((start ++ trimRight [13] value).drop label.1.length))
      | none => fv := by
  unfold addInfo readInfo
  rw [trimRight_append hstart]
  have hfind : (infoLabels.find? fun label => label.1.isPrefixOf (start ++ trimRight [13] value)) =
      infoLabels.find? fun label => label.1.isPrefixOf start :=
    List.find?_congr fun label hlabel => isPrefixOf_append (h label hlabel) _
  rw [hfind]
  cases infoLabels.find? fun label => label.1.isPrefixOf start with
  | none => rfl
  | some label => rfl

/-- The tabs before a value are trimmed away. -/
theorem trimSpace_tabs (text : InfoText) :
    trimSpace (9 :: trimRight [13] text.bytes) = infoField text ∧
      trimSpace (9 :: 9 :: trimRight [13] text.bytes) = infoField text := by
  rw [trimSpace_tab, trimSpace_tab, trimSpace_tab]
  exact ⟨rfl, rfl⟩

theorem foldl_infoLines (m : Metadata) (fv : FileView) :
    (infoLines m).foldl addInfo fv =
      { fv with
        type := infoField m.type
        owner := infoField m.owner
        permissions := infoField m.permissions
        modified := infoField m.modified } := by
  have hheader (fv : FileView) : addInfo fv fileInfoHeader = fv := rfl
  have hempty (fv : FileView) : addInfo fv [] = fv := rfl
  have hpath (fv : FileView) : addInfo fv (ascii "Path:\t\t" ++ m.path.bytes) = fv :=
    addInfo_append fv (by decide +kernel) (by decide +kernel) m.path.bytes
  have htype (fv : FileView) : addInfo fv (ascii "Type:\t\t" ++ m.type.bytes) =
      { fv with type := infoField m.type } := by
    rw [addInfo_append fv (by decide +kernel) (by decide +kernel), ← (trimSpace_tabs _).2]
    rfl
  have howner (fv : FileView) : addInfo fv (ascii "Owner:\t\t" ++ m.owner.bytes) =
      { fv with owner := infoField m.owner } := by
    rw [addInfo_append fv (by decide +kernel) (by decide +kernel), ← (trimSpace_tabs _).2]
    rfl
  have hpermissions (fv : FileView) :
      addInfo fv (ascii "Permissions:\t" ++ m.permissions.bytes) =
        { fv with permissions := infoField m.permissions } := by
    rw [addInfo_append fv (by decide +kernel) (by decide +kernel), ← (trimSpace_tabs _).1]
    rfl
  have hmodified (fv : FileView) : addInfo fv (ascii "Modified:\t" ++ m.modified.bytes) =
      { fv with modified := infoField m.modified } := by
    rw [addInfo_append fv (by decide +kernel) (by decide +kernel), ← (trimSpace_tabs _).1]
    rfl
  simp only [infoLines, List.foldl_cons, List.foldl_nil, hheader, hempty, hpath, htype, howner,
    hpermissions, hmodified]

/-- A label that ends with a tab is too short for the header, which has no tab to go on behind it. -/
theorem data_not_infix_append {label : Bytes} (htab : label.getLast? = some 9)
    (hshort : label.length ≤ fileDataHeader.length) (text : InfoText) :
    ¬ fileDataHeader <:+: label ++ text.bytes := by
  intro hin
  have hlabel : label.dropLast ++ [9] = label := List.dropLast_append_getLast? 9 htab
  rw [← hlabel, List.append_assoc] at hin
  rcases infix_of_notMem (by decide) hin with hin | hin
  · have hle := hin.length_le
    rw [← hlabel, List.length_append, List.length_singleton] at hshort
    omega
  · exact text.data_not_infix hin

/-- No line before the content breaks, and only the last one has the header of the data. -/
theorem infoLines_lines (m : Metadata) :
    (∀ line ∈ infoLines m ++ [fileDataHeader], 10 ∉ line) ∧
      ∀ line ∈ infoLines m, ¬ fileDataHeader <:+: line := by
  have hbreak {start : Bytes} (hstart : 10 ∉ start) (text : InfoText) :
      10 ∉ start ++ text.bytes := fun hmem =>
    (List.mem_append.mp hmem).elim hstart text.newline_notMem
  constructor
  · simp only [infoLines, List.cons_append, List.nil_append, List.forall_mem_cons]
    exact ⟨by decide +kernel, hbreak (by decide +kernel) _, hbreak (by decide +kernel) _,
      hbreak (by decide +kernel) _, hbreak (by decide +kernel) _, hbreak (by decide +kernel) _,
      by decide +kernel, by decide +kernel, List.forall_mem_nil _⟩
  · simp only [infoLines, List.forall_mem_cons]
    exact ⟨by decide +kernel, data_not_infix_append (by decide +kernel) (by decide +kernel) _,
      data_not_infix_append (by decide +kernel) (by decide +kernel) _,
      data_not_infix_append (by decide +kernel) (by decide +kernel) _,
      data_not_infix_append (by decide +kernel) (by decide +kernel) _,
      data_not_infix_append (by decide +kernel) (by decide +kernel) _,
      by decide +kernel, List.forall_mem_nil _⟩

/-- The view that a file is shown as: its metadata, and its content up to the limit. -/
theorem parseShowFile_renderFileView (path : Bytes) (m : Metadata) (content : Bytes) :
    parseShowFile path (renderFileView m content) =
      .ok (.file
        { path := path
          type := infoField m.type
          owner := infoField m.owner
          permissions := infoField m.permissions
          modified := infoField m.modified
          isBinary := !decide (ascii "text" <:+: infoField m.type)
          content :=
            if content.length ≤ maxFileViewContentBytes then content
            else content.take maxFileViewContentBytes
          truncated := decide (maxFileViewContentBytes < content.length) }) := by
  have hsplit := splitOn_lines (infoLines_lines m).1 content
  have hfirst : trimRight [13] ((renderFileView m content).takeWhile (· ≠ 10)) = fileInfoHeader :=
    rfl
  have hscan (fv : FileView) : scanInfo fv ((renderFileView m content).splitOn 10) =
      some ((infoLines m).foldl addInfo fv, content.splitOn 10) := by
    unfold renderFileView
    rw [hsplit, List.append_assoc]
    exact scanInfo_append (infoLines_lines m).2 fv (content.splitOn 10)
  unfold parseShowFile parseFileView
  rw [hfirst, if_neg (by decide +kernel), if_pos rfl, hscan, foldl_infoLines]
  dsimp only
  rw [List.intercalate_splitOn]
  simp only [Except.map, ← not_lt, ite_not]

/-- A text that is none of the headers and has no line break. -/
def infoText (text : String) (h : 10 ∉ ascii text ∧ ¬ directoryListingHeader <:+: ascii text ∧
    ¬ fileInfoHeader <:+: ascii text ∧ ¬ fileDataHeader <:+: ascii text) : InfoText :=
  ⟨ascii text, h.1, h.2.1, h.2.2.1, h.2.2.2⟩

def notesMetadata : Metadata where
  path := infoText "/config/notes" (by decide +kernel)
  type := infoText "ASCII text" (by decide +kernel)
  owner := infoText "vyos:users" (by decide +kernel)
  permissions := infoText "-rw-r--r--" (by decide +kernel)
  modified := infoText "Sep  1 12:00" (by decide +kernel)

/-- A file that looks like the output of the command itself. -/
def notesContent : Bytes :=
  ascii "########## FILE DATA ##########\nOwner:\troot\r\n########## DIRECTORY LISTING ##########\n\n"

/-- The headers and labels in the content are content. -/
theorem parseShowFile_notes :
    parseShowFile (ascii "/config/notes") (renderFileView notesMetadata notesContent) =
      .ok (.file
        { path := ascii "/config/notes"
          type := ascii "ASCII text"
          owner := ascii "vyos:users"
          permissions := ascii "-rw-r--r--"
          modified := ascii "Sep  1 12:00"
          isBinary := false
          content := notesContent
          truncated := false }) := by
  rw [parseShowFile_renderFileView]
  decide +kernel

end FileView

end VyosClient.ShowFile
