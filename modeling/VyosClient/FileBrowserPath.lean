import VyosClient.ImageReference
import Mathlib.Data.List.Infix

/-!
The paths of the file browser. `path.Clean` reads a path against the output it has built so far;
on a rooted path this resolves the segments one by one on a stack. What is checked is the cleaned
path, which VyOS reads as a word of an op-mode command. A byte that is no part of UTF-8 is the
replacement character here, as in the JSON that VyOS is sent.
-/

namespace VyosClient.FileBrowserPath

open ImageReference Separators

/-- The output of `path.Clean` is held from its end here. `..` takes bytes back from it up to and
including the last slash. -/
def backtrack (dotdot : ℕ) : Text → Text
  | [] => []
  | c :: out => if dotdot < out.length ∧ c ≠ '/' then backtrack dotdot out else out

/-- The loop of `path.Clean`. -/
def cleanLoop (rooted : Bool) (dotdot : ℕ) (out : Text) : Text → Text
  | [] => out
  | c :: rest =>
    if c = '/' then cleanLoop rooted dotdot out rest
    else if c = '.' ∧ (rest = [] ∨ rest.head? = some '/') then cleanLoop rooted dotdot out rest
    else if c = '.' ∧ rest.head? = some '.' ∧ (rest.tail = [] ∨ rest.tail.head? = some '/') then
      if dotdot < out.length then cleanLoop rooted dotdot (backtrack dotdot out) rest.tail
      else if rooted then cleanLoop rooted dotdot out rest.tail
      else
        let parent := '.' :: '.' :: if out = [] then out else '/' :: out
        cleanLoop rooted parent.length parent rest.tail
    else
      let out := if (rooted ∧ out.length ≠ 1) ∨ (¬ rooted ∧ out.length ≠ 0) then '/' :: out else out
      cleanLoop rooted dotdot (((c :: rest).takeWhile (· ≠ '/')).reverse ++ out)
        ((c :: rest).dropWhile (· ≠ '/'))
termination_by p => p.length
decreasing_by
  · exact Nat.lt_succ_self rest.length
  · exact Nat.lt_succ_self rest.length
  · exact Nat.lt_succ_of_le (List.length_tail ▸ Nat.sub_le rest.length 1)
  · exact Nat.lt_succ_of_le (List.length_tail ▸ Nat.sub_le rest.length 1)
  · exact Nat.lt_succ_of_le (List.length_tail ▸ Nat.sub_le rest.length 1)
  · rename_i hc _ _
    rw [List.dropWhile_cons_of_pos (by simpa using hc)]
    exact Nat.lt_succ_of_le (List.dropWhile_suffix _).length_le

/-- `path.Clean`. -/
def clean (p : Text) : Text :=
  if p = [] then ['.']
  else
    let out := if p.head? = some '/' then cleanLoop true 1 ['/'] p.tail else cleanLoop false 0 [] p
    if out = [] then ['.'] else out.reverse

def fileBrowserRoots : List Text := ["/config".toList, "/var/log".toList]

/-- The characters that are refused anywhere in a path. -/
def refusedChars : Text := " \t*?[:".toList

def validateFileBrowserPath (p : Text) : Bool :=
  if p = [] ∨ ¬ ['/'] <+: p ∨ p.any (· ∈ refusedChars) then false
  else if ".boot".toList <:+ clean p ∨ clean p = "/config/archive".toList ∨
      "/config/archive/".toList <+: clean p then false
  else fileBrowserRoots.any fun root => clean p == root || (root ++ ['/']).isPrefixOf (clean p)

/-- What a request for a file comes to before VyOS answers. -/
inductive FilesOutcome
  | disabled
  | badRequest (message : String)
  | showFile (path : Text)
deriving DecidableEq, Repr

def handleFiles (fileBrowserEnabled : Bool) (path : Text) : FilesOutcome :=
  if ¬ fileBrowserEnabled then .disabled
  else
    let reqPath := if path = [] then "/config".toList else path
    if validateFileBrowserPath reqPath then .showFile (clean reqPath)
    else .badRequest "path is outside the browsable roots"

section Segments

/-- A segment of a path resolved on a stack that has the last one first. -/
def resolve (stack : List Text) (segment : Text) : List Text :=
  if segment = [] ∨ segment = ['.'] then stack
  else if segment = ['.', '.'] then stack.tail
  else segment :: stack

/-- The output for a stack of segments. -/
def output : List Text → Text
  | [] => ['/']
  | segment :: stack => segment.reverse ++ '/' :: if stack = [] then [] else output stack

/-- A segment that names something. -/
structure Name (segment : Text) : Prop where
  nonempty : segment ≠ []
  not_dot : segment ≠ ['.']
  not_parent : segment ≠ ['.', '.']
  slash_notMem : '/' ∉ segment

theorem resolve_of_name {segment : Text} (h : Name segment) (stack : List Text) :
    resolve stack segment = segment :: stack := by
  unfold resolve
  rw [if_neg (not_or.mpr ⟨h.nonempty, h.not_dot⟩), if_neg h.not_parent]

theorem resolve_names {stack : List Text} (h : ∀ s ∈ stack, Name s) {segment : Text}
    (hslash : '/' ∉ segment) : ∀ s ∈ resolve stack segment, Name s := by
  unfold resolve
  split
  · exact h
  · rename_i hdot
    push Not at hdot
    split
    · exact fun s hs => h s (List.mem_of_mem_tail hs)
    · rename_i hparent
      intro s hs
      rcases List.mem_cons.mp hs with rfl | hs
      · exact ⟨hdot.1, hdot.2, hparent, hslash⟩
      · exact h s hs

theorem foldl_resolve_names {segments : List Text} (hslash : ∀ s ∈ segments, '/' ∉ s)
    {stack : List Text} (h : ∀ s ∈ stack, Name s) : ∀ s ∈ segments.foldl resolve stack, Name s := by
  induction segments generalizing stack with
  | nil => exact h
  | cons segment segments ih =>
    exact ih (fun s hs => hslash s (List.mem_cons_of_mem _ hs))
      (resolve_names h (hslash segment List.mem_cons_self))

theorem output_ne_nil (stack : List Text) : output stack ≠ [] := by
  cases stack with
  | nil => exact List.cons_ne_nil _ _
  | cons segment stack => exact List.append_ne_nil_of_right_ne_nil _ (List.cons_ne_nil _ _)

/-- Only the output `/` is one byte long. -/
theorem length_output_cons {segment : Text} (h : segment ≠ []) (stack : List Text) :
    1 < (output (segment :: stack)).length := by
  have hpos := List.length_pos_iff.mpr h
  simp only [output, List.length_append, List.length_reverse, List.length_cons]
  omega

theorem backtrack_append {segment : Text} (hne : segment ≠ []) (hslash : '/' ∉ segment)
    (out : Text) :
    backtrack 1 (segment ++ '/' :: out) = if out = [] then ['/'] else out := by
  induction segment with
  | nil => exact absurd rfl hne
  | cons c segment ih =>
    have hc : c ≠ '/' := fun h => hslash (h ▸ List.mem_cons_self)
    cases segment with
    | nil =>
      by_cases hout : out = []
      · subst hout
        rfl
      · have hlen := List.length_pos_iff.mpr hout
        have hmore : 1 < ('/' :: out).length ∧ c ≠ '/' := ⟨by rw [List.length_cons]; omega, hc⟩
        rw [List.cons_append, List.nil_append, backtrack, if_pos hmore, backtrack,
          if_neg fun h => h.2 rfl, if_neg hout]
    | cons d segment =>
      have hmore : 1 < (d :: segment ++ '/' :: out).length ∧ c ≠ '/' := by
        refine ⟨?_, hc⟩
        simp only [List.length_append, List.length_cons]
        omega
      rw [List.cons_append, backtrack, if_pos hmore]
      exact ih (List.cons_ne_nil _ _) fun h => hslash (List.mem_cons_of_mem _ h)

theorem backtrack_output {segment : Text} (h : Name segment) (stack : List Text) :
    backtrack 1 (output (segment :: stack)) = output stack := by
  have hne : segment.reverse ≠ [] := List.reverse_ne_nil_iff.mpr h.nonempty
  have hslash : '/' ∉ segment.reverse := fun hmem => h.slash_notMem (List.mem_reverse.mp hmem)
  rw [output, backtrack_append hne hslash]
  cases stack with
  | nil => rfl
  | cons next stack => rw [if_neg (List.cons_ne_nil _ _), if_neg (output_ne_nil _)]

/-- A segment and what follows its end: the segment is resolved first. -/
theorem foldl_splitOn_append (segment : Text) (hslash : '/' ∉ segment) {rest : Text}
    (hrest : rest = [] ∨ rest.head? = some '/') (stack : List Text) :
    ((segment ++ rest).splitOn '/').foldl resolve stack =
      (rest.splitOn '/').foldl resolve (resolve stack segment) := by
  cases rest with
  | nil =>
    rw [List.append_nil, List.splitOn_eq_singleton hslash, List.splitOn_nil]
    rfl
  | cons c rest =>
    obtain rfl : c = '/' := by simpa using hrest
    rw [List.splitOn_append_cons_self_of_not_mem hslash, ← List.nil_append ('/' :: rest),
      List.splitOn_append_cons_self_of_not_mem List.not_mem_nil]
    rfl

theorem separated_output {stack : List Text} (h : ∀ s ∈ stack, Name s) :
    (if ((true : Bool) ∧ (output stack).length ≠ 1) ∨
        (¬ (true : Bool) ∧ (output stack).length ≠ 0) then '/' :: output stack else output stack) =
      '/' :: if stack = [] then [] else output stack := by
  cases stack with
  | nil => rfl
  | cons segment stack =>
    have hlen := length_output_cons (h segment List.mem_cons_self).nonempty stack
    rw [if_pos (Or.inl ⟨rfl, hlen.ne'⟩), if_neg (List.cons_ne_nil _ _)]

theorem dropWhile_slash (p : Text) :
    p.dropWhile (· ≠ '/') = [] ∨ (p.dropWhile (· ≠ '/')).head? = some '/' := by
  cases h : p.dropWhile (· ≠ '/') with
  | nil => exact Or.inl rfl
  | cons c rest =>
    have hc := List.head_dropWhile_not (· ≠ '/') (l := p) (by rw [h]; exact List.cons_ne_nil _ _)
    simp only [h, List.head_cons] at hc
    exact Or.inr (congrArg some (by simpa using hc))

/-- What is read as a segment at the head of the rest names something, and ends at a slash. -/
theorem head_segment {c : Char} {rest : Text} (hslash : c ≠ '/')
    (hdot : ¬ (c = '.' ∧ (rest = [] ∨ rest.head? = some '/')))
    (hparent : ¬ (c = '.' ∧ rest.head? = some '.' ∧
      (rest.tail = [] ∨ rest.tail.head? = some '/'))) :
    ∃ segment rem, (c :: rest).takeWhile (· ≠ '/') = segment ∧
      (c :: rest).dropWhile (· ≠ '/') = rem ∧ segment ++ rem = c :: rest ∧ Name segment ∧
      (rem = [] ∨ rem.head? = some '/') ∧ rem.length < (c :: rest).length := by
  obtain ⟨segment, hseg⟩ : ∃ segment, (c :: rest).takeWhile (· ≠ '/') = segment := ⟨_, rfl⟩
  obtain ⟨rem, hrem⟩ : ∃ rem, (c :: rest).dropWhile (· ≠ '/') = rem := ⟨_, rfl⟩
  have happ : segment ++ rem = c :: rest := by
    rw [← hseg, ← hrem, List.takeWhile_append_dropWhile]
  have hend : rem = [] ∨ rem.head? = some '/' := hrem ▸ dropWhile_slash (c :: rest)
  have hpos : 0 < segment.length := by
    rw [← hseg, List.takeWhile_cons_of_pos (by simpa using hslash)]
    exact Nat.succ_pos _
  have hinside : '/' ∉ segment := by
    rw [← hseg]
    exact fun hmem => by simpa using List.mem_takeWhile_imp hmem
  have hlen : rem.length < (c :: rest).length := by
    rw [← happ, List.length_append]
    omega
  refine ⟨segment, rem, hseg, hrem, happ, ⟨List.ne_nil_of_length_pos hpos, ?_, ?_, hinside⟩, hend, hlen⟩
  · rintro rfl
    obtain ⟨rfl, rfl⟩ := List.cons.inj happ
    exact hdot ⟨rfl, hend⟩
  · rintro rfl
    obtain ⟨rfl, rfl⟩ := List.cons.inj happ
    exact hparent ⟨rfl, rfl, hend⟩

/-- On a rooted path the loop resolves the segments in order. -/
theorem cleanLoop_output (rest : Text) {stack : List Text} (h : ∀ s ∈ stack, Name s) :
    cleanLoop true 1 (output stack) rest = output ((rest.splitOn '/').foldl resolve stack) := by
  induction hn : rest.length using Nat.strong_induction_on generalizing rest stack with
  | _ n ih =>
  subst hn
  cases rest with
  | nil =>
    rw [cleanLoop, List.splitOn_nil]
    rfl
  | cons c rest =>
    rw [cleanLoop]
    by_cases hslash : c = '/'
    · subst hslash
      rw [if_pos rfl, ih rest.length (Nat.lt_succ_self _) rest h rfl, ← List.nil_append ('/' :: rest),
        List.splitOn_append_cons_self_of_not_mem List.not_mem_nil]
      rfl
    rw [if_neg hslash]
    by_cases hdot : c = '.' ∧ (rest = [] ∨ rest.head? = some '/')
    · obtain ⟨rfl, hend⟩ := hdot
      have hsplit := foldl_splitOn_append ['.'] (by decide) hend stack
      rw [if_pos ⟨rfl, hend⟩, ih rest.length (Nat.lt_succ_self _) rest h rfl]
      exact congrArg output hsplit.symm
    rw [if_neg hdot]
    by_cases hparent : c = '.' ∧ rest.head? = some '.' ∧
        (rest.tail = [] ∨ rest.tail.head? = some '/')
    · rw [if_pos hparent]
      obtain ⟨rfl, hdot, hend⟩ := hparent
      cases rest with
      | nil => cases hdot
      | cons d rest =>
        obtain rfl : d = '.' := by simpa using hdot
        have hlen : rest.length < ('.' :: '.' :: rest).length := by
          simp only [List.length_cons]
          omega
        have hsplit := foldl_splitOn_append ['.', '.'] (by decide) hend stack
        refine Eq.trans ?_ (congrArg output hsplit.symm)
        cases stack with
        | nil => exact ih rest.length hlen rest h rfl
        | cons segment stack =>
          have hname := h segment List.mem_cons_self
          rw [if_pos (length_output_cons hname.nonempty stack), backtrack_output hname]
          exact ih rest.length hlen rest (fun s hs => h s (List.mem_cons_of_mem _ hs)) rfl
    -- the segment at the head, none of `` and the dots
    obtain ⟨segment, rem, hseg, hrem, happ, hname, hend, hlen⟩ := head_segment hslash hdot hparent
    rw [if_neg hparent, separated_output h, hseg, hrem, ← happ,
      foldl_splitOn_append _ hname.slash_notMem hend, resolve_of_name hname]
    exact ih rem.length hlen rem (List.forall_mem_cons.mpr ⟨hname, h⟩) rfl

theorem clean_rooted (p : Text) :
    clean ('/' :: p) = (output ((p.splitOn '/').foldl resolve [])).reverse := by
  unfold clean
  rw [if_neg (List.cons_ne_nil _ _), if_pos List.head?_cons, List.tail_cons]
  dsimp only
  rw [show ['/'] = output [] from rfl, cleanLoop_output p (List.forall_mem_nil _),
    if_neg (output_ne_nil _)]

example : clean "/var//log/../log/./messages".toList = "/var/log/messages".toList := by
  decide +kernel

theorem splitOn_output {stack : List Text} (h : ∀ s ∈ stack, Name s) (hne : stack ≠ []) :
    (output stack).reverse.splitOn '/' = [] :: stack.reverse := by
  induction stack with
  | nil => exact absurd rfl hne
  | cons segment stack ih =>
    have hslash := (h segment List.mem_cons_self).slash_notMem
    rw [output, List.reverse_append, List.reverse_cons, List.reverse_reverse, List.append_assoc,
      List.singleton_append, List.splitOn_append_cons_self, List.splitOn_eq_singleton hslash,
      List.reverse_cons]
    by_cases hstack : stack = []
    · subst hstack
      rfl
    · rw [if_neg hstack, ih (fun s hs => h s (List.mem_cons_of_mem _ hs)) hstack]
      rfl

theorem mem_output {stack : List Text} {c : Char} (h : c ∈ output stack) :
    c = '/' ∨ ∃ s ∈ stack, c ∈ s := by
  induction stack with
  | nil => exact Or.inl (List.mem_singleton.mp h)
  | cons segment stack ih =>
    rcases List.mem_append.mp h with h | h
    · exact Or.inr ⟨segment, List.mem_cons_self, List.mem_reverse.mp h⟩
    · rcases List.mem_cons.mp h with h | h
      · exact Or.inl h
      · split at h
        · exact absurd h List.not_mem_nil
        · rcases ih h with h | ⟨s, hs, h⟩
          · exact Or.inl h
          · exact Or.inr ⟨s, List.mem_cons_of_mem _ hs, h⟩

theorem foldl_resolve_subset (segments stack : List Text) {s : Text}
    (h : s ∈ segments.foldl resolve stack) : s ∈ segments ∨ s ∈ stack := by
  induction segments generalizing stack with
  | nil => exact Or.inr h
  | cons segment segments ih =>
    rcases ih _ h with h | h
    · exact Or.inl (List.mem_cons_of_mem _ h)
    · unfold resolve at h
      split at h
      · exact Or.inr h
      · split at h
        · exact Or.inr (List.mem_of_mem_tail h)
        · rcases List.mem_cons.mp h with rfl | h
          · exact Or.inl List.mem_cons_self
          · exact Or.inr h

theorem resolved_names (p : Text) : ∀ s ∈ (p.splitOn '/').foldl resolve [], Name s :=
  foldl_resolve_names (fun s hs hmem => by simpa using (mem_splitOnP hs hmem).2)
    (List.forall_mem_nil _)

/-- A cleaned path is `/`, or every segment of it after the first slash names something. -/
theorem segments_clean (p : Text) : clean ('/' :: p) = ['/'] ∨
    ∃ segments : List Text, (∀ s ∈ segments, Name s) ∧
      (clean ('/' :: p)).splitOn '/' = [] :: segments := by
  have hnames := resolved_names p
  rw [clean_rooted]
  generalize (p.splitOn '/').foldl resolve [] = stack at hnames
  by_cases hstack : stack = []
  · subst hstack
    exact Or.inl rfl
  · exact Or.inr ⟨stack.reverse, fun s hs => hnames s (List.mem_reverse.mp hs),
      splitOn_output hnames hstack⟩

theorem parent_notMem_clean (p : Text) : ['.', '.'] ∉ (clean ('/' :: p)).splitOn '/' := by
  intro hmem
  rcases segments_clean p with h | ⟨segments, hnames, h⟩
  · rw [h] at hmem
    revert hmem
    decide
  · rw [h] at hmem
    rcases List.mem_cons.mp hmem with h | h
    · cases h
    · exact (hnames _ h).not_parent rfl

theorem mem_of_mem_clean {p : Text} {c : Char} (h : c ∈ clean ('/' :: p)) : c ∈ '/' :: p := by
  rw [clean_rooted] at h
  rcases mem_output (List.mem_reverse.mp h) with rfl | ⟨s, hs, hc⟩
  · exact List.mem_cons_self
  · rcases foldl_resolve_subset _ _ hs with hs | hs
    · exact List.mem_cons_of_mem _ (mem_splitOnP hs hc).1
    · exact absurd hs List.not_mem_nil

end Segments

section Words

/-- What Python takes for whitespace in a text. -/
def pythonWhitespace : List Char :=
  ['\t', '\n', '\x0b', '\x0c', '\r', '\x1c', '\x1d', '\x1e', '\x1f', ' ', '\x85', '\xa0', '\u1680',
    '\u2000', '\u2001', '\u2002', '\u2003', '\u2004', '\u2005', '\u2006', '\u2007', '\u2008',
    '\u2009', '\u200a', '\u2028', '\u2029', '\u202f', '\u205f', '\u3000']

/-- `str.split` of Python. -/
def words (text : Text) : List Text :=
  (text.splitOnP (· ∈ pythonWhitespace)).filter (· ≠ [])

/-- The words of the op-mode command for a path. -/
def showFileWords (path : Text) : List Text := words ("show file ".toList ++ path)

theorem words_append_space (text text' : Text) :
    words (text ++ ' ' :: text') = words text ++ words text' := by
  unfold words
  rw [List.splitOnP_append_cons _ _ (by decide), List.filter_append]

theorem words_of_unspaced {text : Text} (hne : text ≠ []) (h : ∀ c ∈ text, c ∉ pythonWhitespace) :
    words text = [text] := by
  unfold words
  rw [List.splitOnP_eq_singleton fun c hc => decide_eq_false (h c hc)]
  exact List.filter_cons_of_pos (by simpa using hne)

/-- A path reaches VyOS as it is exactly when it has no whitespace. -/
theorem showFileWords_eq_iff {path : Text} (hne : path ≠ []) :
    showFileWords path = ["show".toList, "file".toList, path] ↔
      ∀ c ∈ path, c ∉ pythonWhitespace := by
  constructor
  · intro h c hc hspace
    have hmem : path ∈ showFileWords path := by
      rw [h]
      simp
    have hpiece := (mem_splitOnP (List.mem_of_mem_filter hmem) hc).2
    exact absurd hspace (of_decide_eq_false hpiece)
  · intro h
    unfold showFileWords
    rw [show "show file ".toList ++ path = "show".toList ++ ' ' :: ("file".toList ++ ' ' :: path)
      from rfl, words_append_space, words_append_space, words_of_unspaced hne h]
    rfl

end Words

/-- The whitespace that a path may have. -/
def unrefusedWhitespace : List Char := pythonWhitespace.filter (· ∉ refusedChars)

/-- The cleaned path stays where it may be looked at, and VyOS reads the path and the cleaned path
as one word each. -/
structure Confined (p : Text) : Prop where
  under : ∃ root ∈ fileBrowserRoots, clean p = root ∨ root ++ ['/'] <+: clean p
  parent_notMem : ['.', '.'] ∉ (clean p).splitOn '/'
  not_configBoot : clean p ≠ "/config/config.boot".toList
  not_archive : clean p ≠ "/config/archive".toList
  not_inArchive : ¬ "/config/archive/".toList <+: clean p
  words_eq : showFileWords p = ["show".toList, "file".toList, p]
  words_clean : showFileWords (clean p) = ["show".toList, "file".toList, clean p]

/-- An accepted path starts with a slash, has no character that is refused, and its cleaned path is
below a root without being one of those that hold secrets. -/
theorem of_validateFileBrowserPath {p : Text} (h : validateFileBrowserPath p = true) :
    (∃ rest, p = '/' :: rest) ∧ (∀ c ∈ p, c ∉ refusedChars) ∧
      ¬ (".boot".toList <:+ clean p ∨ clean p = "/config/archive".toList ∨
        "/config/archive/".toList <+: clean p) ∧
      ∃ root ∈ fileBrowserRoots, clean p = root ∨ root ++ ['/'] <+: clean p := by
  unfold validateFileBrowserPath at h
  split at h
  · cases h
  · rename_i hform
    push Not at hform
    split at h
    · cases h
    · rename_i hsecret
      obtain ⟨-, ⟨rest, hrest⟩, hany⟩ := hform
      have hrefused : ∀ c ∈ p, c ∉ refusedChars := fun c hc hmem =>
        hany (List.any_eq_true.mpr ⟨c, hc, decide_eq_true hmem⟩)
      refine ⟨⟨rest, hrest.symm⟩, hrefused, hsecret, ?_⟩
      simpa using h

/-- What VyOS is asked for is at or under a root and has no parent segment. -/
theorem asked_under_roots {fileBrowserEnabled : Bool} {path asked : Text}
    (h : handleFiles fileBrowserEnabled path = .showFile asked) :
    (∃ root ∈ fileBrowserRoots, asked = root ∨ root ++ ['/'] <+: asked) ∧
      ['.', '.'] ∉ asked.splitOn '/' := by
  unfold handleFiles at h
  split at h
  · cases h
  · dsimp only at h
    generalize (if path = [] then "/config".toList else path) = reqPath at h
    split at h
    · rename_i haccepted
      obtain rfl : clean reqPath = asked := FilesOutcome.showFile.inj h
      obtain ⟨⟨rest, rfl⟩, -, -, hunder⟩ := of_validateFileBrowserPath haccepted
      exact ⟨hunder, parent_notMem_clean rest⟩
    · cases h

end VyosClient.FileBrowserPath
