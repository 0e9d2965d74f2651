import VyosClient.Configure

/-!
The backend's masking rules. A leaf is masked by its own name, matched exactly
against the shared list, or as the generic `value` leaf below an identifier
that contains one of the key patterns. Names are compared in lower case with
underscores read as hyphens. `tree` blanks out every masked value and keeps
the shape of the configuration.
-/

namespace VyosClient.Mask

open ConfigTrees ConfigTree

def sensitiveLeafNames : List String :=
  ["password", "plaintext-password", "encrypted-password", "passphrase", "pre-shared-key",
    "preshared-key", "pre-shared-secret", "private-key", "secret", "secret-key", "api-key",
    "community", "credential", "credentials", "pin", "token", "key", "md5-key", "psk", "cak",
    "md5", "client-secret", "cisco-authentication"]

def sensitiveKeyPatterns : List String :=
  ["pass", "secret", "token", "key", "credential", "pwd", "private", "auth"]

def maskPlaceholder : String := "••••••••"

/-- Go's `unicode.ToLower` as far as the lists above can tell: besides the
ASCII letters, exactly the dotted capital I and the Kelvin sign have an ASCII
lower case. Every other letter keeps outside ASCII and stands for itself. -/
def toLower (c : Char) : Char :=
  if c = '\u0130' then 'i' else if c = '\u212A' then 'k' else c.toLower

def normalize (s : String) : String :=
  String.ofList ((s.toList.map fun c => if c = '_' then '-' else c).map toLower)

def isSensitiveLeaf (leafName : String) : Bool :=
  (sensitiveLeafNames.map normalize).contains (normalize leafName)

def isSensitivePath (path : Path) : Bool :=
  match path.getLast? with
  | none => false
  | some leafName => isSensitiveLeaf leafName

/-- `strings.Contains` -/
def contains (s pattern : String) : Bool := decide (pattern.toList <:+: s.toList)

def isSensitiveIdentifier (name : String) : Bool :=
  (sensitiveKeyPatterns.map normalize).any fun pattern => contains (normalize name) pattern

def isMaskedPath (path : Path) : Bool :=
  if isSensitivePath path then true
  else if path.length < 2 ∨ path[path.length - 1]? ≠ some "value" then false
  else match path[path.length - 2]? with
    | none => false
    | some identifier => isSensitiveIdentifier identifier

mutual
/-- A deep copy with the values of all masked leaves replaced. -/
def tree : ConfigTree → Path → ConfigTree
  | .node es, path => .node (treeEntries es path)
  | .multi vs, path =>
      if isMaskedPath path then .multi (vs.map fun _ => maskPlaceholder) else .multi vs
  | .leaf v, path => if isMaskedPath path then .leaf maskPlaceholder else .leaf v

def treeEntries : List (String × ConfigTree) → Path → List (String × ConfigTree)
  | [], _ => []
  | (k, c) :: es, path => (k, tree c (path ++ [k])) :: treeEntries es path
end

/-- The shared names are spelled as `normalize` spells them. -/
theorem normalize_sensitiveLeafNames : sensitiveLeafNames.map normalize = sensitiveLeafNames := by
  decide +kernel

theorem isSensitiveLeaf_eq (leafName : String) :
    isSensitiveLeaf leafName = sensitiveLeafNames.contains (normalize leafName) := by
  rw [isSensitiveLeaf, normalize_sensitiveLeafNames]

@[simp] theorem isMaskedPath_nil : isMaskedPath [] = false := rfl

/-- The rule for paths, over what counts as a sensitive leaf and a sensitive identifier. -/
def maskedBy (leaf identifier : String → Bool) (path : Path) : Bool :=
  if (path.getLast?.elim false leaf) = true then true
  else if path.length < 2 ∨ path[path.length - 1]? ≠ some "value" then false
  else path[path.length - 2]?.elim false identifier

theorem maskedBy_append_pair (leaf identifier : String → Bool) (pre : Path) (name leafName : String) :
    maskedBy leaf identifier (pre ++ [name, leafName]) =
      (leaf leafName || (leafName == "value" && identifier name)) := by
  have hsplit : pre ++ [name, leafName] = (pre ++ [name]) ++ [leafName] := by simp
  have hleaf : (pre ++ [name, leafName]).getLast? = some leafName := by
    rw [hsplit, List.getLast?_concat]
  have hlast : (pre ++ [name, leafName])[pre.length + 2 - 1]? = some leafName := by
    rw [List.getElem?_append_right (by omega), show pre.length + 2 - 1 - pre.length = 1 by omega]
    rfl
  have hname : (pre ++ [name, leafName])[pre.length]? = some name := by
    rw [List.getElem?_append_right (Nat.le_refl _), Nat.sub_self]
    rfl
  unfold maskedBy
  simp only [hleaf, List.length_append, List.length_cons, List.length_nil, Nat.zero_add,
    Nat.reduceAdd, hlast, Nat.add_sub_cancel, hname, Option.elim_some]
  cases leaf leafName with
  | true => simp
  | false =>
    by_cases hv : leafName = "value"
    · simp [hv]
    · simp [hv]

theorem maskedBy_nil (leaf identifier : String → Bool) : maskedBy leaf identifier [] = false := rfl

theorem maskedBy_singleton (leaf identifier : String → Bool) (leafName : String) :
    maskedBy leaf identifier [leafName] = leaf leafName := by
  unfold maskedBy
  cases h : leaf leafName <;> simp [h]

theorem isSensitivePath_eq (path : Path) :
    isSensitivePath path = path.getLast?.elim false isSensitiveLeaf := by
  unfold isSensitivePath
  cases path.getLast? <;> simp only [Option.elim_none, Option.elim_some]

theorem isMaskedPath_eq (path : Path) :
    isMaskedPath path = maskedBy isSensitiveLeaf isSensitiveIdentifier path := by
  unfold isMaskedPath maskedBy
  rw [isSensitivePath_eq]
  cases path[path.length - 2]? <;> simp only [Option.elim_none, Option.elim_some]

theorem isMaskedPath_singleton (leafName : String) :
    isMaskedPath [leafName] = isSensitiveLeaf leafName := by
  rw [isMaskedPath_eq, maskedBy_singleton]

/-- Only the last two segments of a path count. -/
theorem isMaskedPath_append_pair (pre : Path) (identifier leafName : String) :
    isMaskedPath (pre ++ [identifier, leafName]) =
      (isSensitiveLeaf leafName || (leafName == "value" && isSensitiveIdentifier identifier)) := by
  rw [isMaskedPath_eq, maskedBy_append_pair]

theorem lookup_treeEntries (es : List (String × ConfigTree)) (path : Path) (k : String) :
    (treeEntries es path).lookup k = (es.lookup k).map fun c => tree c (path ++ [k]) := by
  induction es with
  | nil => rfl
  | cons e es ih =>
    obtain ⟨l, c⟩ := e
    by_cases hk : k = l
    · subst hk
      simp [treeEntries]
    · rw [treeEntries, List.lookup_cons, List.lookup_cons, beq_false_of_ne hk]
      exact ih

theorem keys_treeEntries (es : List (String × ConfigTree)) (path : Path) :
    (treeEntries es path).map Prod.fst = es.map Prod.fst := by
  induction es with
  | nil => rfl
  | cons e es ih =>
    obtain ⟨l, c⟩ := e
    simp only [treeEntries, List.map_cons, ih]

/-- Masking commutes with walking down the tree. -/
theorem get_tree (t : ConfigTree) (path p : Path) :
    (tree t path).get p = (t.get p).map fun c => tree c (path ++ p) := by
  induction p generalizing t path with
  | nil => simp
  | cons k p ih =>
    cases t with
    | leaf v =>
      unfold tree
      split_ifs <;> rfl
    | multi vs =>
      unfold tree
      split_ifs <;> rfl
    | node es =>
      rw [tree, get_node_cons, get_node_cons, lookup_treeEntries]
      cases es.lookup k with
      | none => rfl
      | some c => simp [ih]

mutual
/-- A tree without a masked value is left as it is. -/
theorem tree_eq_self : (c : ConfigTree) → (path : Path) → c.WellFormed →
    (∀ q d, c.get q = some d → d.values ≠ [] → isMaskedPath (path ++ q) = false) →
    tree c path = c
  | .leaf v, path, _, h => by
    have hpath := h [] (.leaf v) rfl (by simp [values])
    rw [List.append_nil] at hpath
    rw [tree, hpath, if_neg Bool.false_ne_true]
  | .multi vs, path, hwf, h => by
    have hpath := h [] (.multi vs) rfl (hwf.values_ne_nil [] vs rfl)
    rw [List.append_nil] at hpath
    rw [tree, hpath, if_neg Bool.false_ne_true]
  | .node es, path, hwf, h => by
    have hnode := wellFormed_node_iff.mp hwf
    rw [tree, treeEntries_eq_self es path hnode.1
      (fun e he => hnode.2 e.1 e.2 (lookup_eq_some_of_mem hnode.1 he))]
    intro e he q d hd hvalues
    refine h (e.1 :: q) d ?_ hvalues
    rw [get_node_cons, lookup_eq_some_of_mem hnode.1 he, Option.bind_some, hd]

theorem treeEntries_eq_self : (es : List (String × ConfigTree)) → (path : Path) →
    (es.map Prod.fst).Nodup → (∀ e ∈ es, e.2.WellFormed) →
    (∀ e ∈ es, ∀ q d, e.2.get q = some d → d.values ≠ [] →
      isMaskedPath (path ++ e.1 :: q) = false) →
    treeEntries es path = es
  | [], _, _, _, _ => rfl
  | (k, c) :: es, path, hkeys, hwf, h => by
    rw [List.map_cons, List.nodup_cons] at hkeys
    have hrest := treeEntries_eq_self es path hkeys.2
      (fun e he => hwf e (List.mem_cons_of_mem _ he))
      (fun e he => h e (List.mem_cons_of_mem _ he))
    rw [treeEntries, hrest, tree_eq_self c (path ++ [k]) (hwf (k, c) List.mem_cons_self)]
    intro q d hd hvalues
    rw [List.append_assoc, List.singleton_append]
    exact h (k, c) List.mem_cons_self q d hd hvalues
end

/-- A masked leaf reads as placeholders only. -/
theorem values_tree (c : ConfigTree) {path : Path} (h : isMaskedPath path = true) :
    (tree c path).values = c.values.map fun _ => maskPlaceholder := by
  cases c with
  | leaf v => simp [tree, h, values]
  | multi vs => simp [tree, h, values]
  | node es => simp [tree, values]

theorem values_tree_of_not (c : ConfigTree) {path : Path} (h : isMaskedPath path = false) :
    (tree c path).values = c.values := by
  cases c <;> simp [tree, h, values]

end VyosClient.Mask
