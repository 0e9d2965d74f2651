import VyosClient.SessionRenewal

/-!
The JSON text of session claims. Quotes, backslashes, control characters and what HTML could take
for markup are escaped in the subject, so one character may take six bytes. The text is read back
by its layout: the subject up to the first quote that is not escaped, then the two instants.
-/

namespace VyosClient.ClaimsJson

open SessionRenewal

/-- The characters that are escaped with one letter. -/
def shortEscapes : List (Char × Char) :=
  [('"', '"'), ('\\', '\\'), ('\x08', 'b'), ('\x0c', 'f'), ('\n', 'n'), ('\r', 'r'), ('\t', 't')]

def hexDigit (n : ℕ) : Char := "0123456789abcdef".toList.getD n '0'

def hexValue (c : Char) : ℕ := "0123456789abcdef".toList.idxOf c

/-- A character of a JSON string as `json.Marshal` writes it. -/
def escapeChar (c : Char) : List Char :=
  match shortEscapes.lookup c with
  | some e => ['\\', e]
  | none =>
    if c.toNat < 0x20 ∨ c ∈ ['<', '>', '&'] then
      ['\\', 'u', '0', '0', hexDigit (c.toNat / 16), hexDigit (c.toNat % 16)]
    else if c ∈ ['\u2028', '\u2029'] then ['\\', 'u', '2', '0', '2', hexDigit (c.toNat % 16)]
    else [c]

/-- A character at the front of the rest of a string. -/
def readChar : List Char → Option (Char × List Char)
  | [] => none
  | c :: s =>
    if c ≠ '\\' then some (c, s)
    else
      match s with
      | [] => none
      | e :: s =>
        if e = 'u' then
          let code := (s.take 4).foldl (fun n d => n * 16 + hexValue d) 0
          some (Char.ofNat code, s.drop 4)
        else (shortEscapes.find? fun pair => pair.2 == e).map fun pair => (pair.1, s)

/-- The characters up to the quote that ends a string, and what follows it. -/
def readString : ℕ → List Char → Option (List Char × List Char)
  | 0, _ => none
  | n + 1, s =>
    if s.head? = some '"' then some ([], s.tail)
    else (readChar s).bind fun first =>
      (readString n first.2).map fun rest => (first.1 :: rest.1, rest.2)

def intText : ℤ → List Char
  | .ofNat n => Nat.toDigits 10 n
  | .negSucc n => '-' :: Nat.toDigits 10 (n + 1)

def readNat (s : List Char) : ℕ × List Char :=
  (Nat.ofDigitChars 10 (s.takeWhile Char.isDigit) 0, s.dropWhile Char.isDigit)

def readInt (s : List Char) : ℤ × List Char :=
  if s.head? = some '-' then
    let (n, s) := readNat s.tail
    (-n, s)
  else
    let (n, s) := readNat s
    (n, s)

def escaped (subject : String) : List Char := subject.toList.flatMap escapeChar

/-- `json.Marshal` of claims, as a text. -/
def claimsText (c : Claims) : List Char :=
  "\x7b\"sub\":\"".toList ++ (escaped c.subject ++ ('"' :: ",\"iat\":".toList ++
    (intText c.issuedAt ++ (",\"exp\":".toList ++ (intText c.expiresAt ++ ['\x7d'])))))

def skip (lit s : List Char) : Option (List Char) :=
  if lit.isPrefixOf s then some (s.drop lit.length) else none

def readClaims (text : List Char) : Option Claims := do
  let s ← skip "\x7b\"sub\":\"".toList text
  let (subject, s) ← readString s.length s
  let s ← skip ",\"iat\":".toList s
  let (issuedAt, s) := readInt s
  let s ← skip ",\"exp\":".toList s
  let (expiresAt, s) := readInt s
  if s = ['\x7d'] then return ⟨String.ofList subject, issuedAt, expiresAt⟩ else none

/-- `json.Marshal` of claims. -/
def marshalClaims (c : Claims) : List UInt8 := (claimsText c).flatMap String.utf8EncodeChar

/-- `json.Unmarshal` on what was marshalled. -/
def unmarshalClaims (payload : List UInt8) : Option Claims :=
  payload.toByteArray.utf8Decode?.bind fun chars => readClaims chars.toList

section Strings

theorem hexValue_hexDigit : ∀ n < 16, hexValue (hexDigit n) = n := by decide

theorem shortEscapes_spec : ∀ pair ∈ shortEscapes, pair.2 ≠ 'u' ∧
    shortEscapes.find? (fun other => other.2 == pair.2) = some pair := by decide

theorem mem_of_lookup {c e : Char} (h : shortEscapes.lookup c = some e) : (c, e) ∈ shortEscapes := by
  obtain ⟨before, after, hsplit, -⟩ := List.lookup_eq_some_iff.mp h
  rw [hsplit]
  exact List.mem_append_right _ List.mem_cons_self

theorem readChar_plain {c : Char} (hc : c ≠ '\\') (s : List Char) :
    readChar (c :: s) = some (c, s) := if_pos hc

theorem readChar_unicode (digits s : List Char) (h : digits.length = 4) :
    readChar ('\\' :: 'u' :: (digits ++ s)) =
      some (Char.ofNat (digits.foldl (fun n d => n * 16 + hexValue d) 0), s) := by
  have htake : (digits ++ s).take 4 = digits := List.take_left' h
  have hdrop : (digits ++ s).drop 4 = s := List.drop_left' h
  have hread : readChar ('\\' :: 'u' :: (digits ++ s)) =
      some (Char.ofNat (((digits ++ s).take 4).foldl (fun n d => n * 16 + hexValue d) 0),
        (digits ++ s).drop 4) := rfl
  rw [hread, htake, hdrop]

/-- Every character is read back from what it is written as, whatever follows. -/
theorem readChar_escapeChar (c : Char) (s : List Char) :
    readChar (escapeChar c ++ s) = some (c, s) := by
  unfold escapeChar
  cases hshort : shortEscapes.lookup c with
  | some e =>
    obtain ⟨hu, hfind⟩ := shortEscapes_spec _ (mem_of_lookup hshort)
    have hread : readChar ('\\' :: e :: s) =
        (shortEscapes.find? fun pair => pair.2 == e).map fun pair => (pair.1, s) := if_neg hu
    exact hread.trans (by rw [hfind]; rfl)
  | none =>
    dsimp only
    split
    · rename_i hcontrol
      have hlt : c.toNat < 256 := by
        rcases hcontrol with h | h
        · omega
        · simp only [List.mem_cons, List.not_mem_nil, or_false] at h
          rcases h with rfl | rfl | rfl <;> decide
      have hhigh := hexValue_hexDigit (c.toNat / 16) (by omega)
      have hlow := hexValue_hexDigit (c.toNat % 16) (by omega)
      refine (readChar_unicode ['0', '0', hexDigit (c.toNat / 16), hexDigit (c.toNat % 16)] s
        rfl).trans ?_
      simp only [List.foldl_cons, List.foldl_nil, hhigh, hlow,
        show hexValue '0' = 0 from by decide]
      rw [show ((0 * 16 + 0) * 16 + 0) * 16 + c.toNat / 16 = c.toNat / 16 by omega,
        Nat.div_add_mod', Char.ofNat_toNat]
    · split
      · rename_i hsep
        simp only [List.mem_cons, List.not_mem_nil, or_false] at hsep
        rcases hsep with rfl | rfl
        · rfl
        · rfl
      · refine readChar_plain (fun h => ?_) s
        rw [h] at hshort
        exact absurd hshort (by decide)

theorem head?_escapeChar (c : Char) (s : List Char) : (escapeChar c ++ s).head? ≠ some '"' := by
  unfold escapeChar
  cases hshort : shortEscapes.lookup c with
  | some e => exact (by decide : some '\\' ≠ some '"')
  | none =>
    dsimp only
    split
    · exact (by decide : some '\\' ≠ some '"')
    · split
      · exact (by decide : some '\\' ≠ some '"')
      · intro h
        rw [Option.some.inj h] at hshort
        exact absurd hshort (by decide)

theorem readString_escaped (cs s : List Char) {n : ℕ} (hn : cs.length < n) :
    readString n (cs.flatMap escapeChar ++ '"' :: s) = some (cs, s) := by
  induction cs generalizing n with
  | nil =>
    obtain ⟨n, rfl⟩ := Nat.exists_eq_succ_of_ne_zero hn.ne'
    exact if_pos rfl
  | cons c cs ih =>
    rw [List.length_cons] at hn
    obtain ⟨n, rfl⟩ := Nat.exists_eq_succ_of_ne_zero (Nat.ne_zero_of_lt hn)
    rw [List.flatMap_cons, List.append_assoc, readString, if_neg (head?_escapeChar c _),
      readChar_escapeChar, Option.bind_some, ih (by omega)]
    rfl

end Strings

section Numbers

theorem readNat_toDigits (n : ℕ) {d : Char} (hd : d.isDigit = false) (s : List Char) :
    readNat (Nat.toDigits 10 n ++ d :: s) = (n, d :: s) := by
  have hdigits : ∀ c ∈ Nat.toDigits 10 n, c.isDigit = true := fun c hc =>
    Nat.isDigit_of_mem_toDigits (by decide) (by decide) hc
  unfold readNat
  rw [List.takeWhile_append_of_pos hdigits, List.takeWhile_cons_of_neg (by simp [hd]),
    List.dropWhile_append_of_pos hdigits, List.dropWhile_cons_of_neg (by simp [hd]), List.append_nil,
    Nat.ofDigitChars_ten_toDigits]

theorem readInt_intText (z : ℤ) {d : Char} (hd : d.isDigit = false) (s : List Char) :
    readInt (intText z ++ d :: s) = (z, d :: s) := by
  cases z with
  | ofNat n =>
    have hhead : (Nat.toDigits 10 n ++ d :: s).head? ≠ some '-' := by
      obtain ⟨c, t, hct⟩ := List.exists_cons_of_ne_nil (Nat.toDigits_ne_nil (n := n) (b := 10))
      have hdigit : c.isDigit = true := by
        apply Nat.isDigit_of_mem_toDigits (b := 10) (n := n) (by decide) (by decide)
        rw [hct]
        exact List.mem_cons_self
      rw [hct]
      intro hminus
      rw [Option.some.inj hminus] at hdigit
      exact absurd hdigit (by decide)
    unfold readInt intText
    dsimp only
    rw [if_neg hhead, readNat_toDigits n hd]
    rfl
  | negSucc n =>
    unfold readInt intText
    dsimp only
    rw [List.cons_append, List.head?_cons, if_pos rfl, List.tail_cons, readNat_toDigits (n + 1) hd]
    rfl

end Numbers

theorem skip_append (lit s : List Char) : skip lit (lit ++ s) = some s := by
  unfold skip
  rw [if_pos (List.isPrefixOf_iff_prefix.mpr (List.prefix_append lit s)), List.drop_left]

theorem escapeChar_ne_nil (c : Char) : escapeChar c ≠ [] := by
  intro h
  have hread := readChar_escapeChar c []
  rw [h] at hread
  cases hread

theorem length_le_escaped (subject : String) : subject.toList.length ≤ (escaped subject).length := by
  unfold escaped
  induction subject.toList with
  | nil => exact Nat.le_refl 0
  | cons c cs ih =>
    have hpos := List.length_pos_iff.mpr (escapeChar_ne_nil c)
    rw [List.flatMap_cons, List.length_append, List.length_cons]
    omega

theorem readClaims_claimsText (c : Claims) : readClaims (claimsText c) = some c := by
  have hiat : readInt (intText c.issuedAt ++ (",\"exp\":".toList ++ (intText c.expiresAt ++ ['\x7d']))) =
      (c.issuedAt, ",\"exp\":".toList ++ (intText c.expiresAt ++ ['\x7d'])) :=
    readInt_intText c.issuedAt (d := ',') (by decide) _
  have hexp : readInt (intText c.expiresAt ++ ['\x7d']) = (c.expiresAt, ['\x7d']) :=
    readInt_intText c.expiresAt (by decide) []
  have hsubject (s : List Char) : readString (escaped c.subject ++ '"' :: s).length
      (escaped c.subject ++ '"' :: s) = some (c.subject.toList, s) := by
    refine readString_escaped _ _ ?_
    have hle := length_le_escaped c.subject
    rw [List.length_append, List.length_cons]
    omega
  unfold readClaims claimsText
  simp only [Option.bind_eq_bind]
  rw [skip_append, Option.bind_some, List.cons_append, hsubject, Option.bind_some]
  dsimp only
  rw [skip_append, Option.bind_some, hiat]
  dsimp only
  rw [skip_append, Option.bind_some, hexp]
  dsimp only
  rw [if_pos rfl, String.ofList_toList]
  rfl

/-- Claims are read back from their JSON. -/
theorem unmarshalClaims_marshalClaims (c : Claims) :
    unmarshalClaims (marshalClaims c) = some c := by
  unfold unmarshalClaims marshalClaims
  rw [show ((claimsText c).flatMap String.utf8EncodeChar).toByteArray = (claimsText c).utf8Encode from
    rfl, List.utf8Decode?_utf8Encode, Option.bind_some, readClaims_claimsText]

section Sizes

/-- The bytes of a text. -/
def textSize (text : List Char) : ℕ := (text.map Char.utf8Size).sum

theorem length_utf8 (text : List Char) : (text.flatMap String.utf8EncodeChar).length = textSize text := by
  unfold textSize
  rw [List.length_flatMap]
  congr 1
  exact List.map_congr_left fun c _ => String.length_utf8EncodeChar c

theorem textSize_append (s t : List Char) : textSize (s ++ t) = textSize s + textSize t := by
  unfold textSize
  rw [List.map_append, List.sum_append]

theorem textSize_eq_length {text : List Char} (h : ∀ c ∈ text, c.utf8Size = 1) :
    textSize text = text.length := by
  induction text with
  | nil => rfl
  | cons c text ih =>
    have hrest := ih fun d hd => h d (List.mem_cons_of_mem c hd)
    unfold textSize at hrest ⊢
    rw [List.map_cons, List.sum_cons, hrest, h c List.mem_cons_self, List.length_cons, Nat.add_comm]

/-- A number takes a byte for each character. -/
theorem textSize_intText (z : ℤ) : textSize (intText z) = (intText z).length := by
  have hone (c : Char) (h : c.isDigit = true) : c.utf8Size = 1 := by
    rw [Char.utf8Size_eq_one_iff]
    simp only [Char.isDigit, Bool.and_eq_true, decide_eq_true_eq] at h
    exact UInt32.le_trans h.2 (by decide)
  have hdigits (n : ℕ) : ∀ c ∈ Nat.toDigits 10 n, c.utf8Size = 1 := fun c hc =>
    hone c (Nat.isDigit_of_mem_toDigits (by decide) (by decide) hc)
  cases z with
  | ofNat n => exact textSize_eq_length (hdigits n)
  | negSucc n =>
    refine textSize_eq_length fun c hc => ?_
    rcases List.mem_cons.mp hc with rfl | hc
    · rfl
    · exact hdigits (n + 1) c hc

theorem utf8Size_hexDigit (n : ℕ) : (hexDigit n).utf8Size = 1 := by
  have hdigits : ("0123456789abcdef".toList.all fun c => decide (c.utf8Size = 1)) = true := by decide
  unfold hexDigit
  rw [List.getD_eq_getElem?_getD]
  cases hget : "0123456789abcdef".toList[n]? with
  | none => rfl
  | some c => exact of_decide_eq_true (List.all_eq_true.mp hdigits c (List.mem_of_getElem? hget))

/-- An escape has six characters at most. -/
theorem textSize_escapeChar_le (c : Char) : textSize (escapeChar c) ≤ 6 * c.utf8Size := by
  have hpos := Char.utf8Size_pos c
  have hletters : ∀ pair ∈ shortEscapes, textSize ['\\', pair.2] = 2 := by decide
  have hunicode (p q a b : Char) (hp : p.utf8Size = 1) (hq : q.utf8Size = 1) (ha : a.utf8Size = 1)
      (hb : b.utf8Size = 1) : textSize ['\\', 'u', p, q, a, b] = 6 := by
    unfold textSize
    simp only [List.map_cons, List.map_nil, List.sum_cons, List.sum_nil, hp, hq, ha, hb]
    rfl
  unfold escapeChar
  cases hshort : shortEscapes.lookup c with
  | some e =>
    have hsize := hletters _ (mem_of_lookup hshort)
    dsimp only at hsize ⊢
    omega
  | none =>
    dsimp only
    split
    · rw [hunicode _ _ _ _ rfl rfl (utf8Size_hexDigit _) (utf8Size_hexDigit _)]
      omega
    · split
      · rw [hunicode _ _ _ _ rfl rfl rfl (utf8Size_hexDigit _)]
        omega
      · exact (Nat.le_refl c.utf8Size).trans (by omega)

theorem textSize_escaped_le (subject : String) :
    textSize (escaped subject) ≤ 6 * textSize subject.toList := by
  unfold escaped
  induction subject.toList with
  | nil => exact Nat.le_refl 0
  | cons c cs ih =>
    have hchar := textSize_escapeChar_le c
    have hcons : textSize (c :: cs) = c.utf8Size + textSize cs := rfl
    rw [List.flatMap_cons, textSize_append, hcons]
    omega

/-- What a subject takes in JSON, and the digits of the two instants, come on top of 24 bytes. -/
theorem length_marshalClaims (c : Claims) : (marshalClaims c).length =
    24 + textSize (escaped c.subject) + (intText c.issuedAt).length +
      (intText c.expiresAt).length := by
  unfold marshalClaims claimsText
  rw [length_utf8]
  simp only [textSize_append, textSize_intText]
  rw [show textSize "\x7b\"sub\":\"".toList = 8 from by decide,
    show textSize ('"' :: ",\"iat\":".toList) = 8 from by decide,
    show textSize ",\"exp\":".toList = 7 from by decide, show textSize ['\x7d'] = 1 from by decide]
  omega

/-- The longest decimal text between two instants is that of one of them. -/
theorem length_intText_le {a b z : ℤ} (ha : a ≤ z) (hb : z ≤ b) :
    (intText z).length ≤ max (intText a).length (intText b).length := by
  have hmono {m n : ℕ} (h : m ≤ n) : (Nat.toDigits 10 m).length ≤ (Nat.toDigits 10 n).length :=
    (Nat.length_toDigits_le_iff (by decide) Nat.length_toDigits_pos).mpr
      (h.trans_lt ((Nat.length_toDigits_le_iff (by decide) Nat.length_toDigits_pos).mp
        (Nat.le_refl _)))
  cases z with
  | ofNat n =>
    obtain ⟨m, rfl⟩ := Int.eq_ofNat_of_zero_le ((Int.natCast_nonneg n).trans hb)
    exact le_max_of_le_right (hmono (Int.ofNat_le.mp hb))
  | negSucc n =>
    cases a with
    | ofNat m =>
      have hneg := ha.trans_lt (Int.negSucc_lt_zero n)
      exact absurd hneg (Int.not_lt.mpr (Int.natCast_nonneg m))
    | negSucc m =>
      refine le_max_of_le_left ?_
      have hle : n + 1 ≤ m + 1 := by
        rw [Int.negSucc_eq, Int.negSucc_eq] at ha
        omega
      exact Nat.succ_le_succ (hmono hle)

end Sizes

end VyosClient.ClaimsJson
