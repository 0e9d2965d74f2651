import VyosClient.FirewallParse
import VyosClient.FormDiff

/-!
What a settings form deletes. VyOS rejects a commit that deletes a node that is
not there, and a form is opened on what a parser made of the fetched tree, with
defaults in place of absent leaves. A form that shows an absent leaf as a known
text deletes only what was fetched exactly when it leaves no such field blank
in any other way.
-/

namespace VyosClient.AbsentLeaves

open ConfigTrees ConfigTree Configure FormDiff

/-- `Number.MAX_SAFE_INTEGER`. -/
def maxSafeInteger : ℕ := 9007199254740991

/-- JavaScript's finite numbers: `number` is `Number(s)` where that is finite,
`text` is `String(n)`, which writes whole numbers as decimal numerals. -/
class JsNumber (N : Type) where
  number : String → Option N
  text : N → String
  nat : ℕ → N
  text_nat : ∀ n ≤ maxSafeInteger, text (nat n) = toString n

/-- The numerals VyOS writes. -/
instance numerals : JsNumber ℕ where
  number := FirewallParse.number
  text := toString
  nat := id
  text_nat _ _ := rfl

def numberOrUndefined {N : Type} [JsNumber N] (v : Unknown) : Option N :=
  (asString v).bind JsNumber.number

/-- Every deletion targets a path of the fetched tree. -/
def DeletesExist (t : ConfigTree) (ops : List ConfigOp) : Prop :=
  ∀ o ∈ ops, o.op = .delete → (t.get o.path).isSome

section Table

variable {F : Type} {t : ConfigTree} {base : Path} {before values : F}

/-- A text field whose leaf is absent is left blank only as the form showed it. -/
def KeepsAbsent (t : ConfigTree) (base : Path) (table : List ((F → String) × Path))
    (shown : Path → String) (values : F) : Prop :=
  ∀ f ∈ table, t.get (base ++ f.2) = none → trim (f.1 values) = "" → f.1 values = shown f.2

theorem deletesExist_append {ops ops' : List ConfigOp} :
    DeletesExist t (ops ++ ops') ↔ DeletesExist t ops ∧ DeletesExist t ops' :=
  List.forall_mem_append

theorem deletesExist_of_set {ops : List ConfigOp} (h : ∀ o ∈ ops, o.op = .set) :
    DeletesExist t ops := by
  intro o ho hdelete
  rw [h o ho] at hdelete
  exact absurd hdelete (by decide)

theorem deletesExist_flatMap {α : Type} {l : List α} {ops : α → List ConfigOp} :
    DeletesExist t (l.flatMap ops) ↔ ∀ a ∈ l, DeletesExist t (ops a) := by
  constructor
  · intro h a ha o ho
    exact h o (List.mem_flatMap.mpr ⟨a, ha, ho⟩)
  · intro h o ho
    obtain ⟨a, ha, ho⟩ := List.mem_flatMap.mp ho
    exact h a ha o ho

theorem deletesExist_text {get : F → String} {p : Path} :
    DeletesExist t ((Field.text get p).diff before values) ↔
      (get before ≠ get values → trim (get values) = "" → (t.get p).isSome) := by
  simp only [Field.diff]
  split_ifs with hsame hblank
  · exact iff_of_true (fun o ho => absurd ho List.not_mem_nil) fun hne => absurd hsame hne
  · constructor
    · intro h _ _
      exact h _ List.mem_cons_self rfl
    · intro h o ho _
      rw [List.mem_singleton.mp ho]
      exact h hsame hblank
  · refine iff_of_true (deletesExist_of_set fun o ho => ?_) fun _ hblank' => absurd hblank' hblank
    rw [List.mem_singleton.mp ho]

theorem deletesExist_texts_iff {table : List ((F → String) × Path)} {shown : Path → String}
    (hread : ∀ f ∈ table, t.get (base ++ f.2) = none → f.1 before = shown f.2) :
    DeletesExist t (table.flatMap fun f => (Field.text f.1 (base ++ f.2)).diff before values) ↔
      KeepsAbsent t base table shown values := by
  rw [deletesExist_flatMap]
  refine forall₂_congr fun f hf => deletesExist_text.trans ?_
  cases hget : t.get (base ++ f.2) with
  | some c => exact iff_of_true (fun _ _ => rfl) fun hnone => absurd hnone (by simp)
  | none =>
    have hshown := hread f hf hget
    constructor
    · intro h _ hblank
      by_contra hne
      have hchanged : f.1 before ≠ f.1 values := fun hsame => hne (hsame.symm.trans hshown)
      exact absurd (h hchanged hblank) (by decide)
    · intro h hchanged hblank
      exact absurd (hshown.trans (h rfl hblank).symm) hchanged

/-- A flag is on only when its node is there, so it is safe to switch off. -/
theorem deletesExist_flags {table : List ((F → Bool) × Path)}
    (hread : ∀ f ∈ table, f.1 before = (t.get (base ++ f.2)).isSome) :
    DeletesExist t (table.flatMap fun f => (Field.flag f.1 (base ++ f.2)).diff before values) := by
  refine deletesExist_flatMap.mpr fun f hf => ?_
  simp only [Field.diff]
  split_ifs with hsame hvalue
  · exact fun o ho => absurd ho List.not_mem_nil
  · refine deletesExist_of_set fun o ho => ?_
    rw [List.mem_singleton.mp ho]
  · intro o ho _
    rw [List.mem_singleton.mp ho, ← hread f hf]
    cases hbefore : f.1 before with
    | true => rfl
    | false => exact absurd (hbefore.trans (Bool.eq_false_iff.mpr hvalue).symm) hsame

end Table

/-- A field without a default shows nothing for an absent leaf. -/
theorem getD_asString_of_none {v : Unknown} (h : v = none) : (asString v).getD "" = "" := by
  rw [h]
  rfl

theorem isSome_of_child {v : Unknown} {key : String} (h : (child v key).isSome) : v.isSome := by
  cases v with
  | none => exact absurd h (by simp [child])
  | some c => rfl

end VyosClient.AbsentLeaves
