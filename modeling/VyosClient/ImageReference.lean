import VyosClient.Separators
import Mathlib.Algebra.GroupWithZero.Nat
import Mathlib.Data.List.TakeWhile
import Mathlib.Tactic.Common

/-!
Container image references as the backend reads them: the allowlist for image
names, the split into registry, repository, tag and digest, and the replacement
of the tag in the text as it was written.
-/

namespace VyosClient.ImageReference

open Separators

abbrev Text := List Char

def dockerHubRegistryName : Text := "docker.io".toList

def dockerHubAPIHost : Text := "registry-1.docker.io".toList

def dockerHubImplicitNamespace : Text := "library/".toList

structure Reference where
  registryName : Text
  apiHost : Text
  repository : Text
  tag : Text
  hasDigest : Bool
deriving DecidableEq, Repr

/-- The errors of `ParseReference` and `ReplaceTag`. -/
inductive ReferenceError
  | empty
  | digestWithoutPath
  | noRepositoryPath (image : Text)
  | digestPinned (image : Text)
deriving DecidableEq, Repr

/-- `unicode.IsSpace`. -/
def isSpace (c : Char) : Bool :=
  c.toNat ∈ [9, 10, 11, 12, 13, 32, 0x85, 0xA0, 0x1680, 0x2028, 0x2029, 0x202F, 0x205F, 0x3000] ||
    (0x2000 ≤ c.toNat && c.toNat ≤ 0x200A)

def trimSpace (s : Text) : Text := ((s.dropWhile isSpace).reverse.dropWhile isSpace).reverse

/-- Only a colon after the last slash separates a tag. -/
def splitTag (image : Text) : Text × Text :=
  let (pre, tail) := match lastIdxOf? '/' image with
    | some lastSlash => (image.take (lastSlash + 1), image.drop (lastSlash + 1))
    | none => ([], image)
  match lastIdxOf? ':' tail with
  | some idx => (pre ++ tail.take idx, tail.drop (idx + 1))
  | none => (image, [])

def looksLikeHost (s : Text) : Bool :=
  s == "localhost".toList || s.any fun c => c == '.' || c == ':'

def splitHost (pathPart : Text) : Text × Text :=
  match pathPart.idxOf? '/' with
  | none => ([], pathPart)
  | some firstSlash =>
    let candidate := pathPart.take firstSlash
    if looksLikeHost candidate then (candidate, pathPart.drop (firstSlash + 1)) else ([], pathPart)

/-- The reference of a path part and a tag; `image` is the text the error names. -/
def referenceOf (image pathPart tag : Text) (hasDigest : Bool) : Except ReferenceError Reference :=
  let tag := if tag = [] then "latest".toList else tag
  let (host, repoPath) := splitHost pathPart
  if repoPath = [] then .error (.noRepositoryPath image)
  else if host = [] ∨ host = dockerHubRegistryName then
    .ok {
      registryName := dockerHubRegistryName
      apiHost := dockerHubAPIHost
      repository := if '/' ∈ repoPath then repoPath else dockerHubImplicitNamespace ++ repoPath
      tag
      hasDigest }
  else .ok { registryName := host, apiHost := host, repository := repoPath, tag, hasDigest }

def parseReference (image : Text) : Except ReferenceError Reference :=
  let image := trimSpace image
  if image = [] then .error .empty
  else
    let (image, hasDigest) := match image.idxOf? '@' with
      | some idx => (image.take idx, true)
      | none => (image, false)
    if image = [] then .error .digestWithoutPath
    else
      let (pathPart, tag) := splitTag image
      referenceOf image pathPart tag hasDigest

def replaceTag (image newTag : Text) : Except ReferenceError Text :=
  if '@' ∈ image then .error (.digestPinned image)
  else
    let (pathPart, _) := splitTag image
    .ok (pathPart ++ ':' :: newTag)

/-- `[a-zA-Z0-9]`. -/
def isAlnum (c : Char) : Bool :=
  ('a' ≤ c && c ≤ 'z') || ('A' ≤ c && c ≤ 'Z') || ('0' ≤ c && c ≤ '9')

/-- `[a-zA-Z0-9._/:@-]`. -/
def isNameChar (c : Char) : Bool := isAlnum c || c ∈ ['.', '_', '/', ':', '@', '-']

/-- `^[a-zA-Z0-9]([a-zA-Z0-9._/:@-]*[a-zA-Z0-9])?$`: after the first letter nothing, or letters of the
wider class with one of the narrower class at the end. -/
def containerImageNamePattern : Text → Bool
  | [] => false
  | c :: rest =>
    isAlnum c && match rest.getLast? with
      | none => true
      | some last => rest.dropLast.all isNameChar && isAlnum last

def maxContainerImageNameLength : ℕ := 255

/-- The length is that of the UTF-8 encoding. -/
def validateContainerImageName (name : Text) : Bool :=
  name != [] && (name.map Char.utf8Size).sum ≤ maxContainerImageNameLength &&
    containerImageNamePattern name

theorem slash_notMem {s tag : Text} (hs : '/' ∉ s) (htag : '/' ∉ tag) : '/' ∉ s ++ ':' :: tag := by
  intro hmem
  rcases List.mem_append.mp hmem with h | h
  · exact hs h
  · rcases List.mem_cons.mp h with hc | h
    · exact absurd hc (by decide)
    · exact htag h

/-- A text ends in a tag when nothing after a colon is a colon or a slash. -/
theorem splitTag_append (pathPart : Text) {tag : Text} (hcolon : ':' ∉ tag) (hslash : '/' ∉ tag) :
    splitTag (pathPart ++ ':' :: tag) = (pathPart, tag) := by
  unfold splitTag
  by_cases h : '/' ∈ pathPart
  · obtain ⟨xs, ys, rfl, hnot, -⟩ := exists_lastIdxOf? h
    have htext : (xs ++ '/' :: ys) ++ ':' :: tag = xs ++ '/' :: (ys ++ ':' :: tag) := by
      rw [List.append_assoc, List.cons_append]
    have hrest : '/' ∉ ys ++ ':' :: tag := slash_notMem hnot hslash
    have htake : (xs ++ '/' :: (ys ++ ':' :: tag)).take (xs.length + 1) = xs ++ ['/'] := by
      rw [List.take_length_add_append]
      rfl
    have hdrop : (xs ++ '/' :: (ys ++ ':' :: tag)).drop (xs.length + 1) = ys ++ ':' :: tag := by
      rw [List.drop_length_add_append]
      rfl
    rw [htext, lastIdxOf?_append_cons xs hrest]
    dsimp only
    rw [htake, hdrop, lastIdxOf?_append_cons ys hcolon]
    simp
  · rw [lastIdxOf?_eq_none.mpr (slash_notMem h hslash)]
    dsimp only
    rw [lastIdxOf?_append_cons pathPart hcolon]
    simp

/-- A tag that was found stands at the end of the text, after a colon. -/
theorem splitTag_ne_nil {image pathPart tag : Text} (h : splitTag image = (pathPart, tag))
    (htag : tag ≠ []) : image = pathPart ++ ':' :: tag ∧ ':' ∉ tag ∧ '/' ∉ tag := by
  have hsplit : ∀ pre tail : Text, image = pre ++ tail → '/' ∉ tail →
      (match lastIdxOf? ':' tail with
        | some idx => (pre ++ tail.take idx, tail.drop (idx + 1))
        | none => (image, [])) = (pathPart, tag) →
      image = pathPart ++ ':' :: tag ∧ ':' ∉ tag ∧ '/' ∉ tag := by
    intro pre tail himage hslash heq
    by_cases hcolon : ':' ∈ tail
    · obtain ⟨xs, ys, rfl, hnot, hidx⟩ := exists_lastIdxOf? hcolon
      rw [hidx] at heq
      simp only [List.take_left, Prod.mk.injEq] at heq
      obtain ⟨rfl, hdrop⟩ := heq
      have hys : ys = tag := by
        rw [← hdrop]
        simp
      subst hys
      refine ⟨by rw [himage, List.append_assoc], hnot, fun hmem => hslash ?_⟩
      exact List.mem_append_right xs (List.mem_cons_of_mem _ hmem)
    · rw [lastIdxOf?_eq_none.mpr hcolon] at heq
      simp only [Prod.mk.injEq] at heq
      exact absurd heq.2.symm htag
  unfold splitTag at h
  by_cases hslash : '/' ∈ image
  · obtain ⟨xs, ys, himage, hnot, hidx⟩ := exists_lastIdxOf? hslash
    rw [hidx] at h
    refine hsplit (image.take (xs.length + 1)) (image.drop (xs.length + 1))
      (List.take_append_drop _ _).symm ?_ h
    rw [himage]
    simpa using hnot
  · rw [lastIdxOf?_eq_none.mpr hslash] at h
    exact hsplit [] image rfl hslash h

/-- The tag is all that a reference takes from its tag. -/
theorem referenceOf_tag {image image' pathPart tag tag' : Text} {hasDigest : Bool} {ref : Reference}
    (h : referenceOf image pathPart tag hasDigest = .ok ref) (htag : tag' ≠ []) :
    referenceOf image' pathPart tag' hasDigest = .ok { ref with tag := tag' } := by
  unfold referenceOf at h ⊢
  dsimp only at h ⊢
  rw [if_neg htag]
  by_cases hpath : (splitHost pathPart).2 = []
  · rw [if_pos hpath] at h
    cases h
  · rw [if_neg hpath] at h ⊢
    by_cases hhub : (splitHost pathPart).1 = [] ∨ (splitHost pathPart).1 = dockerHubRegistryName
    · rw [if_pos hhub] at h ⊢
      injection h with h
      rw [← h]
    · rw [if_neg hhub] at h ⊢
      injection h with h
      rw [← h]

theorem tag_referenceOf {image pathPart tag : Text} {hasDigest : Bool} {ref : Reference}
    (h : referenceOf image pathPart tag hasDigest = .ok ref) :
    ref.tag = (if tag = [] then "latest".toList else tag) ∧ ref.hasDigest = hasDigest := by
  unfold referenceOf at h
  dsimp only at h
  split at h
  · cases h
  · split at h <;> injection h with h <;> rw [← h] <;> exact ⟨rfl, rfl⟩

theorem isNameChar_of_isAlnum {c : Char} (h : isAlnum c = true) : isNameChar c = true := by
  unfold isNameChar
  rw [h, Bool.true_or]

/-- A name matches when its first and its last letter are of the narrower class and all are of the
wider one. -/
theorem containerImageNamePattern_iff {s : Text} :
    containerImageNamePattern s = true ↔
      (∃ c, s.head? = some c ∧ isAlnum c = true) ∧ (∃ c, s.getLast? = some c ∧ isAlnum c = true) ∧
        ∀ c ∈ s, isNameChar c = true := by
  cases s with
  | nil => simp [containerImageNamePattern]
  | cons c rest =>
    cases hlast : rest.getLast? with
    | none =>
      have hnil : rest = [] := List.getLast?_eq_none_iff.mp hlast
      subst hnil
      simp only [containerImageNamePattern, List.getLast?_nil, Bool.and_true, List.head?_cons,
        List.getLast?_singleton, Option.some.injEq, exists_eq_left', List.mem_singleton, forall_eq]
      exact ⟨fun h => ⟨h, h, isNameChar_of_isAlnum h⟩, fun h => h.1⟩
    | some last =>
      have hrest : rest.dropLast ++ [last] = rest := List.dropLast_append_getLast? last hlast
      have hend : (c :: rest).getLast? = some last := by
        rw [List.getLast?_cons, hlast]
        rfl
      simp only [containerImageNamePattern, hlast, hend, List.head?_cons, Option.some.injEq,
        exists_eq_left', Bool.and_eq_true, List.all_eq_true, List.mem_cons, forall_eq_or_imp]
      refine and_congr_right fun hc => ⟨fun ⟨hmid, hl⟩ => ⟨hl, isNameChar_of_isAlnum hc, ?_⟩,
        fun ⟨hl, _, hall⟩ => ⟨fun x hx => hall x (List.dropLast_subset rest hx), hl⟩⟩
      intro x hx
      rw [← hrest] at hx
      rcases List.mem_append.mp hx with hx | hx
      · exact hmid x hx
      · rw [List.mem_singleton.mp hx]
        exact isNameChar_of_isAlnum hl

theorem toNat_of_isNameChar {c : Char} (h : isNameChar c = true) :
    33 ≤ c.toNat ∧ c.toNat ≤ 126 := by
  have hle : ∀ a b : Char, a ≤ b ↔ a.toNat ≤ b.toNat := fun a b => Iff.rfl
  simp only [isNameChar, isAlnum, Bool.or_eq_true, Bool.and_eq_true, decide_eq_true_eq, hle,
    List.mem_cons, List.not_mem_nil, or_false] at h
  have hletters : 'a'.toNat = 97 ∧ 'z'.toNat = 122 ∧ 'A'.toNat = 65 ∧ 'Z'.toNat = 90 ∧
      '0'.toNat = 48 ∧ '9'.toNat = 57 := by decide
  rcases h with h | rfl | rfl | rfl | rfl | rfl | rfl
  · omega
  all_goals decide

theorem not_isSpace_of_isNameChar {c : Char} (h : isNameChar c = true) : isSpace c = false := by
  obtain ⟨hlow, hhigh⟩ := toNat_of_isNameChar h
  simp only [isSpace, List.mem_cons, List.not_mem_nil, or_false, Bool.or_eq_false_iff,
    decide_eq_false_iff_not, Bool.and_eq_false_iff]
  omega

theorem trimSpace_eq {s : Text} (h : ∀ c ∈ s, isNameChar c = true) : trimSpace s = s := by
  have hkeep : ∀ t : Text, (∀ c ∈ t, isNameChar c = true) → t.dropWhile isSpace = t := by
    intro t ht
    rw [List.dropWhile_eq_self_iff]
    intro hlen
    rw [not_isSpace_of_isNameChar (ht _ (List.getElem_mem hlen))]
    exact Bool.false_ne_true
  unfold trimSpace
  rw [hkeep s h, hkeep s.reverse fun c hc => h c (List.mem_reverse.mp hc), List.reverse_reverse]

/-- A name without a digest is read by its tag and its path. -/
theorem parseReference_eq {image : Text} (h : containerImageNamePattern image = true)
    (hat : '@' ∉ image) :
    parseReference image =
      referenceOf image (splitTag image).1 (splitTag image).2 false := by
  obtain ⟨⟨c, hhead, -⟩, -, hall⟩ := containerImageNamePattern_iff.mp h
  have hne : image ≠ [] := by
    rintro rfl
    cases hhead
  unfold parseReference
  rw [trimSpace_eq hall]
  dsimp only
  rw [if_neg hne, List.idxOf?_eq_none_iff.mpr hat]
  exact if_neg hne

end VyosClient.ImageReference
