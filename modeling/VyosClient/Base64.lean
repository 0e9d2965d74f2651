import Mathlib.Tactic.Common

/-!
The unpadded URL alphabet of base64. Three bytes become four letters of six
bits each, a rest of one or two bytes becomes two or three. Decoding skips line
breaks and reads the letters back.
-/

namespace VyosClient.Base64

/-- The letter of a number below 64. -/
def letter (i : ℕ) : UInt8 :=
  if i < 26 then UInt8.ofNat (65 + i)
  else if i < 52 then UInt8.ofNat (71 + i)
  else if i < 62 then UInt8.ofNat (i - 4)
  else if i = 62 then 45
  else 95

def sextet (c : UInt8) : Option ℕ :=
  if 65 ≤ c.toNat ∧ c.toNat ≤ 90 then some (c.toNat - 65)
  else if 97 ≤ c.toNat ∧ c.toNat ≤ 122 then some (c.toNat - 71)
  else if 48 ≤ c.toNat ∧ c.toNat ≤ 57 then some (c.toNat + 4)
  else if c = 45 then some 62
  else if c = 95 then some 63
  else none

/-- Three bytes in four numbers of six bits; what is missing in the last group counts as zero. -/
def sextets : List UInt8 → List ℕ
  | a :: b :: c :: rest =>
    let n := a.toNat * 65536 + b.toNat * 256 + c.toNat
    n / 262144 :: n / 4096 % 64 :: n / 64 % 64 :: n % 64 :: sextets rest
  | [a, b] =>
    let n := a.toNat * 65536 + b.toNat * 256
    [n / 262144, n / 4096 % 64, n / 64 % 64]
  | [a] =>
    let n := a.toNat * 65536
    [n / 262144, n / 4096 % 64]
  | [] => []

/-- Four numbers in three bytes; a last group of one number is an error. -/
def bytes : List ℕ → Option (List UInt8)
  | i :: j :: k :: l :: rest =>
    let n := i * 262144 + j * 4096 + k * 64 + l
    (bytes rest).map fun out =>
      UInt8.ofNat (n / 65536) :: UInt8.ofNat (n / 256 % 256) :: UInt8.ofNat (n % 256) :: out
  | [i, j, k] =>
    let n := i * 262144 + j * 4096 + k * 64
    some [UInt8.ofNat (n / 65536), UInt8.ofNat (n / 256 % 256)]
  | [i, j] =>
    let n := i * 262144 + j * 4096
    some [UInt8.ofNat (n / 65536)]
  | [_] => none
  | [] => some []

def encodeToString (src : List UInt8) : List UInt8 := (sextets src).map letter

/-- `\n` and `\r` are skipped. -/
def decodeString (s : List UInt8) : Option (List UInt8) :=
  ((s.filter fun c => c ≠ 10 ∧ c ≠ 13).mapM sextet).bind bytes

theorem sextet_letter {i : ℕ} (hi : i < 64) : sextet (letter i) = some i := by
  have hall : ∀ i < 64, sextet (letter i) = some i := by decide
  exact hall i hi

/-- No letter is a dot or a line break. -/
theorem letter_ne {i : ℕ} (hi : i < 64) : letter i ≠ 46 ∧ letter i ≠ 10 ∧ letter i ≠ 13 := by
  have hall : ∀ i < 64, letter i ≠ 46 ∧ letter i ≠ 10 ∧ letter i ≠ 13 := by decide
  exact hall i hi

theorem sextets_lt (src : List UInt8) : ∀ i ∈ sextets src, i < 64 := by
  induction src using sextets.induct with
  | case1 a b c rest ih =>
    have ha := a.toNat_lt
    have hb := b.toNat_lt
    have hc := c.toNat_lt
    intro i hi
    rw [sextets] at hi
    simp only [List.mem_cons] at hi
    rcases hi with rfl | rfl | rfl | rfl | hi
    · omega
    · exact Nat.mod_lt _ (by omega)
    · exact Nat.mod_lt _ (by omega)
    · exact Nat.mod_lt _ (by omega)
    · exact ih i hi
  | case2 a b =>
    have ha := a.toNat_lt
    have hb := b.toNat_lt
    intro i hi
    rw [sextets] at hi
    simp only [List.mem_cons, List.not_mem_nil, or_false] at hi
    omega
  | case3 a =>
    have ha := a.toNat_lt
    intro i hi
    rw [sextets] at hi
    simp only [List.mem_cons, List.not_mem_nil, or_false] at hi
    omega
  | case4 =>
    intro i hi
    cases hi

theorem ofNat_eq {n : ℕ} {a : UInt8} (h : n = a.toNat) : UInt8.ofNat n = a := by
  rw [h, UInt8.ofNat_toNat]

theorem bytes_sextets (src : List UInt8) : bytes (sextets src) = some src := by
  induction src using sextets.induct with
  | case1 a b c rest ih =>
    have ha := a.toNat_lt
    have hb := b.toNat_lt
    have hc := c.toNat_lt
    rw [sextets, bytes, ih, Option.map_some]
    congr 1
    refine congrArg₂ _ (ofNat_eq ?_) (congrArg₂ _ (ofNat_eq ?_) (congrArg₂ _ (ofNat_eq ?_) rfl))
    · omega
    · omega
    · omega
  | case2 a b =>
    have ha := a.toNat_lt
    have hb := b.toNat_lt
    rw [sextets, bytes]
    congr 1
    refine congrArg₂ _ (ofNat_eq ?_) (congrArg₂ _ (ofNat_eq ?_) rfl)
    · omega
    · omega
  | case3 a =>
    have ha := a.toNat_lt
    rw [sextets, bytes]
    congr 1
    refine congrArg₂ _ (ofNat_eq ?_) rfl
    omega
  | case4 => rfl

theorem mapM_sextet_letter {is : List ℕ} (h : ∀ i ∈ is, i < 64) :
    (is.map letter).mapM sextet = some is := by
  induction is with
  | nil => rfl
  | cons i is ih =>
    have hi := sextet_letter (h i List.mem_cons_self)
    have hrest := ih fun j hj => h j (List.mem_cons_of_mem i hj)
    rw [List.map_cons, List.mapM_cons, hi, hrest]
    rfl

/-- What was encoded is read back. -/
theorem decodeString_encodeToString (src : List UInt8) :
    decodeString (encodeToString src) = some src := by
  unfold decodeString encodeToString
  have hlt := sextets_lt src
  have hfilter : ((sextets src).map letter).filter (fun c => c ≠ 10 ∧ c ≠ 13) =
      (sextets src).map letter := by
    rw [List.filter_eq_self]
    intro c hc
    obtain ⟨i, hi, rfl⟩ := List.mem_map.mp hc
    simp only [ne_eq, decide_eq_true_eq]
    exact (letter_ne (hlt i hi)).2
  rw [hfilter, mapM_sextet_letter hlt, Option.bind_some, bytes_sextets]

theorem dot_notMem_encodeToString (src : List UInt8) : 46 ∉ encodeToString src := by
  intro h
  obtain ⟨i, hi, hdot⟩ := List.mem_map.mp h
  exact (letter_ne (sextets_lt src i hi)).1 hdot

theorem length_sextets (src : List UInt8) : (sextets src).length = (4 * src.length + 2) / 3 := by
  induction src using sextets.induct with
  | case1 a b c rest ih =>
    simp only [sextets, List.length_cons, ih]
    omega
  | case2 a b => simp only [sextets, List.length_cons, List.length_nil]
  | case3 a => simp only [sextets, List.length_cons, List.length_nil]
  | case4 => simp only [sextets, List.length_nil]

/-- Without padding, every three bytes take four letters and a rest takes no more than it needs. -/
theorem length_encodeToString (src : List UInt8) :
    (encodeToString src).length = (4 * src.length + 2) / 3 := by
  unfold encodeToString
  rw [List.length_map, length_sextets]

theorem length_encodeToString_le (src : List UInt8) :
    (encodeToString src).length ≤ 2 * src.length := by
  rw [length_encodeToString]
  omega

end VyosClient.Base64
