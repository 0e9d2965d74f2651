import VyosClient.ConfigHandlers
import VyosClient.Slices

/-!
The masking pass as the backend runs it. The path of a node is a slice that grows
by `append`, so siblings may write their keys into the same array one after
another; what a call reads of its path is its own all the same. A fetched subtree
is masked under the path it was fetched at, after VyOS's wrapping is removed.
-/

namespace VyosClient.MaskTree

open ConfigTrees ConfigTree Mask Slices

def maskSlice (n : ℕ) : List String := List.replicate n maskPlaceholder

/-- `Value`: also what `Tree` makes of a string. -/
def value (path : Path) (v : String) : String :=
  if isMaskedPath path then maskPlaceholder else v

section Tree

variable (spare : Slice → List String)

mutual
/-- `Tree`. The heap is threaded through the calls in the order in which they run. -/
def treeAt : ConfigTree → Heap String → Slice → ConfigTree × Heap String
  | .node es, h, path =>
      let out := childrenAt es h path
      (.node out.1, out.2)
  | .multi vs, h, path =>
      if isMaskedPath (read h path) then (.multi (maskSlice vs.length), h)
      else (.multi (vs.map (value (read h path))), h)
  | .leaf v, h, path => (.leaf (value (read h path) v), h)

/-- The loop over a map: every child is masked under `append(path, k)`. -/
def childrenAt : List (String × ConfigTree) → Heap String → Slice →
    List (String × ConfigTree) × Heap String
  | [], h, _ => ([], h)
  | (k, c) :: es, h, path =>
      let longer := append spare h path k
      let child := treeAt c longer.1 longer.2
      let rest := childrenAt es child.2 path
      ((k, child.1) :: rest.1, rest.2)
end

mutual
/-- A call masks what `tree` masks under the path it reads, and works behind its slice. -/
theorem treeAt_spec : (t : ConfigTree) → (h : Heap String) → (path : Slice) → Valid h path →
    (treeAt spare t h path).1 = tree t (read h path) ∧ Behind path h (treeAt spare t h path).2
  | .leaf v, h, path, _ => by
    refine ⟨?_, Behind.refl path h⟩
    simp only [treeAt, tree, value]
    split <;> rfl
  | .multi vs, h, path, _ => by
    simp only [treeAt, tree]
    split_ifs with hmasked
    · refine ⟨?_, Behind.refl path h⟩
      simp [maskSlice]
    · refine ⟨?_, Behind.refl path h⟩
      have hvalue : value (read h path) = id := funext fun v => if_neg hmasked
      rw [hvalue, List.map_id]
  | .node es, h, path, hv => by
    obtain ⟨hout, hbehind⟩ := childrenAt_spec es h path hv
    exact ⟨congrArg ConfigTree.node hout, hbehind⟩

theorem childrenAt_spec : (es : List (String × ConfigTree)) → (h : Heap String) →
    (path : Slice) → Valid h path →
    (childrenAt spare es h path).1 = treeEntries es (read h path) ∧
      Behind path h (childrenAt spare es h path).2
  | [], h, path, _ => ⟨rfl, Behind.refl path h⟩
  | (k, c) :: es, h, path, hv => by
    obtain ⟨hchild, hbelow⟩ := treeAt_spec c (append spare h path k).1 (append spare h path k).2
      (valid_append spare hv k)
    -- the sibling still reads the path it shares
    have hbehind := Behind.of_append spare hv k hbelow
    obtain ⟨hrest, hafter⟩ := childrenAt_spec es _ path (hv.behind hbehind)
    rw [read_append spare hv] at hchild
    rw [hbehind.front] at hrest
    refine ⟨?_, hbehind.trans hafter⟩
    simp only [childrenAt, treeEntries, hchild, hrest]
end

end Tree

/-- VyOS's answer for a path: what stands there under the last segment, and no
answer where nothing is configured. -/
def showConfig (t : ConfigTree) (path : Path) : Unknown :=
  (t.get path).map fun c =>
    match path.getLast? with
    | none => c
    | some last => .node [(last, c)]

def unwrapShowConfig (node : ConfigTree) (path : Path) : ConfigTree :=
  match path.getLast?, node with
  | some last, .node [e] => if e.1 = last then e.2 else node
  | _, _ => node

/-- One level is removed, even from a node whose only child has its own name. -/
theorem unwrapShowConfig_showConfig (t : ConfigTree) (path : Path) :
    (showConfig t path).map (fun node => unwrapShowConfig node path) = t.get path := by
  unfold showConfig
  rw [Option.map_map]
  cases hget : t.get path with
  | none => rfl
  | some c =>
    simp only [Option.map_some, Function.comp_apply, Option.some.injEq, unwrapShowConfig]
    cases path.getLast? with
    | none => rfl
    | some last => simp

/-- The handler, with its path as the slice it passes on. -/
def handleGetConfigTree (spare : Slice → List String) (t : ConfigTree) (h : Heap String)
    (path : Slice) : Unknown :=
  (showConfig t (read h path)).map fun node =>
    (treeAt spare (unwrapShowConfig node (read h path)) h path).1

theorem handleGetConfigTree_eq (spare : Slice → List String) (t : ConfigTree) {h : Heap String}
    {path : Slice} (hv : Valid h path) :
    handleGetConfigTree spare t h path = ConfigHandlers.handleGetConfigTree t (read h path) := by
  have hmask : ∀ node, (treeAt spare (unwrapShowConfig node (read h path)) h path).1 =
      tree (unwrapShowConfig node (read h path)) (read h path) :=
    fun node => (treeAt_spec spare _ h path hv).1
  simp only [handleGetConfigTree, hmask, ConfigHandlers.handleGetConfigTree]
  rw [← unwrapShowConfig_showConfig t (read h path), Option.map_map]
  rfl

/-! A tree without its values keeps the keys, the flags and the lengths of its lists. -/

mutual
def skeleton : ConfigTree → ConfigTree
  | .leaf _ => .leaf ""
  | .multi vs => .multi (vs.map fun _ => "")
  | .node es => .node (skeletons es)

def skeletons : List (String × ConfigTree) → List (String × ConfigTree)
  | [] => []
  | (k, c) :: es => (k, skeleton c) :: skeletons es
end

mutual
theorem skeleton_tree : (t : ConfigTree) → (path : Path) → skeleton (tree t path) = skeleton t
  | .leaf v, path => by
    unfold tree
    split <;> rfl
  | .multi vs, path => by
    unfold tree
    split
    · simp [skeleton]
    · rfl
  | .node es, path => by
    simp only [tree, skeleton, skeletons_treeEntries es path]

theorem skeletons_treeEntries : (es : List (String × ConfigTree)) → (path : Path) →
    skeletons (treeEntries es path) = skeletons es
  | [], _ => rfl
  | (k, c) :: es, path => by
    simp only [treeEntries, skeletons, skeleton_tree c, skeletons_treeEntries es]
end

mutual
theorem tree_tree : (t : ConfigTree) → (path : Path) → tree (tree t path) path = tree t path
  | .leaf v, path => by
    simp only [tree]
    split_ifs with hmasked <;> simp [tree, hmasked]
  | .multi vs, path => by
    simp only [tree]
    split_ifs with hmasked <;> simp [tree, hmasked]
  | .node es, path => by
    simp only [tree, treeEntries_treeEntries es path]

theorem treeEntries_treeEntries : (es : List (String × ConfigTree)) → (path : Path) →
    treeEntries (treeEntries es path) path = treeEntries es path
  | [], _ => rfl
  | (k, c) :: es, path => by
    simp only [treeEntries, tree_tree c, treeEntries_treeEntries es]
end

theorem store_tree_of_not (t : ConfigTree) {path q : Path}
    (hmasked : isMaskedPath (path ++ q) = false) : (tree t path).store q = t.store q := by
  rw [store_apply, store_apply, get_tree, Option.map_map]
  cases t.get q with
  | none => rfl
  | some c => exact congrArg some (values_tree_of_not c hmasked)

/-- Masking a fetched subtree gives the subtree of the masked tree. A second pass
changes nothing; no pass changes a key, a flag, the length of a list or a value
that is not masked. -/
theorem masking_compositional (spare : Slice → List String) (t : ConfigTree) (h : Heap String)
    (root path : Slice) (hroot : Valid h root) (hempty : read h root = []) (hpath : Valid h path) :
    handleGetConfigTree spare t h path = (treeAt spare t h root).1.get (read h path) ∧
      ∀ c : ConfigTree,
        (treeAt spare (treeAt spare c h path).1 (treeAt spare c h path).2 path).1 =
            (treeAt spare c h path).1 ∧
          skeleton (treeAt spare c h path).1 = skeleton c ∧
          ∀ q, isMaskedPath (read h path ++ q) = false →
            (treeAt spare c h path).1.store q = c.store q := by
  refine ⟨?_, fun c => ?_⟩
  · rw [handleGetConfigTree_eq spare t hpath, (treeAt_spec spare t h root hroot).1, hempty, get_tree]
    rfl
  · obtain ⟨hout, hbehind⟩ := treeAt_spec spare c h path hpath
    refine ⟨?_, ?_, fun q hq => ?_⟩
    · rw [(treeAt_spec spare _ _ path (hpath.behind hbehind)).1, hbehind.front, hout, tree_tree]
    · rw [hout, skeleton_tree]
    · rw [hout, store_tree_of_not c hq]

/-- Two variables of a container, the second one of them in the room the first
one leaves behind the path. -/
def environment : ConfigTree :=
  .node [("environment", .node [("DB_PASSWORD", .node [("value", .leaf "hunter2")]),
    ("MODE", .node [("value", .leaf "fast")])])]

theorem environment_compositional :
    handleGetConfigTree (fun _ => [""]) environment [["environment", "", ""], []] ⟨0, 1⟩ =
        (treeAt (fun _ => [""]) environment [["environment", "", ""], []] ⟨1, 0⟩).1.get
          ["environment"] ∧
      skeleton (treeAt (fun _ => [""]) environment [["environment", "", ""], []] ⟨0, 1⟩).1 =
        skeleton environment := by
  have hall := masking_compositional (fun _ => [""]) environment [["environment", "", ""], []]
    ⟨1, 0⟩ ⟨0, 1⟩ ⟨by decide, by decide⟩ rfl ⟨by decide, by decide⟩
  exact ⟨hall.1, (hall.2 environment).2.1⟩

end VyosClient.MaskTree
