import VyosClient.Mask

/-!
The frontend's copy of the masking rules, over the same shared lists. It
lowers names with JavaScript's `toLowerCase`, which spells the lower case of
the dotted capital I with a combining dot.
-/

namespace VyosClient.Masking

open ConfigTrees Mask

/-- `toLowerCase`, one letter at a time; see `Mask.toLower` for the letters
outside ASCII. -/
def toLowerCase (c : Char) : List Char :=
  if c = '\u0130' then ['i', '\u0307'] else if c = '\u212A' then ['k'] else [c.toLower]

def normalize (name : String) : String :=
  String.ofList ((name.toList.flatMap toLowerCase).map fun c => if c = '_' then '-' else c)

def isSensitiveLeaf (leafName : String) : Bool :=
  (sensitiveLeafNames.map normalize).contains (normalize leafName)

def isSensitivePath (path : Path) : Bool :=
  match path.getLast? with
  | none => false
  | some leafName => isSensitiveLeaf leafName

def isSensitiveIdentifier (name : String) : Bool :=
  (sensitiveKeyPatterns.map normalize).any fun pattern => contains (normalize name) pattern

def isMaskedPath (path : Path) : Bool :=
  if isSensitivePath path then true
  else if path.length < 2 ∨ path[path.length - 1]? ≠ some "value" then false
  else match path[path.length - 2]? with
    | none => false
    | some identifier => isSensitiveIdentifier identifier

end VyosClient.Masking
