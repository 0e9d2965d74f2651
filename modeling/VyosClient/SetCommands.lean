import Mathlib.Data.List.Infix
import VyosClient.Mask

/-!
The redaction of the text `show configuration commands` prints. Every line is
cut into tokens, each with its place in the line: a quoted span is one token,
whatever it holds, and other tokens end at a blank. The name after `snmp community`
goes first. The line that leaves is cut again, and its value goes when the two
tokens before it end a masked path.
-/

namespace VyosClient.SetCommands

open ConfigTrees Mask

structure SetLineToken where
  text : String
  quoted : Bool
  /-- Where the token begins, at the opening quote of a quoted one. -/
  start : Nat
  /-- Just past the token, past the closing quote of a quoted one. -/
  stop : Nat
  deriving Repr, DecidableEq

def isBlank (c : Char) : Bool := c == ' ' || c == '\t'

def isQuote (c : Char) : Bool := c == '\''

/-- A round of the loop of `tokenizeSetLine` at the place `i`, where `rest`
stands: the next token and what is left after it. -/
def nextToken (i : Nat) (rest : List Char) : Option (SetLineToken × List Char) :=
  let start := i + (rest.takeWhile isBlank).length
  match rest.dropWhile isBlank with
  | [] => none
  | c :: cs =>
    if isQuote c then
      let content := cs.takeWhile (!isQuote ·)
      match cs.dropWhile (!isQuote ·) with
      -- no closing quote: the rest of the line is the token
      | [] => some (⟨String.ofList cs, true, start, start + 1 + cs.length⟩, [])
      | _ :: after => some (⟨String.ofList content, true, start, start + content.length + 2⟩, after)
    else
      let word := c :: cs.takeWhile (!isBlank ·)
      some (⟨String.ofList word, false, start, start + word.length⟩, cs.dropWhile (!isBlank ·))

/-- Every round gets further. -/
theorem length_lt_of_nextToken {i : Nat} {rest after : List Char} {token : SetLineToken}
    (h : nextToken i rest = some (token, after)) : after.length < rest.length := by
  have hle : ∀ (p : Char → Bool) (l : List Char), (l.dropWhile p).length ≤ l.length :=
    fun p l => (List.dropWhile_sublist p).length_le
  unfold nextToken at h
  have hskip := hle isBlank rest
  cases hrest : rest.dropWhile isBlank with
  | nil => simp [hrest] at h
  | cons c cs =>
    rw [hrest, List.length_cons] at hskip
    simp only [hrest] at h
    split_ifs at h
    · cases hclose : cs.dropWhile (!isQuote ·) with
      | nil =>
        simp only [hclose, Option.some.injEq, Prod.mk.injEq] at h
        rw [← h.2, List.length_nil]
        omega
      | cons q after' =>
        have hquote := hle (!isQuote ·) cs
        rw [hclose, List.length_cons] at hquote
        simp only [hclose, Option.some.injEq, Prod.mk.injEq] at h
        rw [← h.2]
        omega
    · have hword := hle (!isBlank ·) cs
      simp only [Option.some.injEq, Prod.mk.injEq] at h
      rw [← h.2]
      omega

def tokenizeFrom (i : Nat) (rest : List Char) : List SetLineToken :=
  match _h : nextToken i rest with
  | none => []
  | some (token, after) => token :: tokenizeFrom token.stop after
termination_by rest.length
decreasing_by exact length_lt_of_nextToken ‹_›

def tokenizeSetLine (line : List Char) : List SetLineToken := tokenizeFrom 0 line

def quotedPlaceholder : List Char := '\'' :: maskPlaceholder.toList ++ ['\'']

/-- The name after the first adjacent `snmp` and `community`. -/
def redactSNMPCommunityName (line : List Char) : List SetLineToken → List Char
  | before :: token :: name :: tokens =>
    if token.text = "community" ∧ before.text = "snmp" then
      line.take name.start ++ quotedPlaceholder ++ line.drop name.stop
    else redactSNMPCommunityName line (token :: name :: tokens)
  | _ => line

/-- What `redactSetLine` does after the community name. -/
def redactLastValue (line : List Char) (tokens : List SetLineToken) : List Char :=
  if tokens.length < 3 then line
  else match tokens[tokens.length - 1]?, tokens[tokens.length - 2]?, tokens[tokens.length - 3]? with
    | some last, some leaf, some identifier =>
      if !last.quoted then line
      else if !isMaskedPath [identifier.text, leaf.text] then line
      else line.take last.start ++ quotedPlaceholder
    | _, _, _ => line

def redactSetLine (line : List Char) : List Char :=
  let tokens := tokenizeSetLine line
  let redacted := redactSNMPCommunityName line tokens
  if redacted ≠ line then redactLastValue redacted (tokenizeSetLine redacted)
  else redactLastValue line tokens

def redactSetCommands (text : String) : String :=
  String.ofList (['\n'].intercalate ((text.toList.splitOn '\n').map redactSetLine))

/-- VyOS refuses the single quote in a value. -/
def Clean (s : String) : Prop := '\'' ∉ s.toList

/-- What may stand in a line without quotes. -/
def Plain (s : String) : Prop := s ≠ "" ∧ ∀ c ∈ s.toList, isBlank c = false

instance : DecidablePred Clean := fun _ => instDecidableNot

instance : DecidablePred Plain := fun s =>
  @instDecidableAnd _ _ instDecidableNot (List.decidableBAll _ s.toList)

/-- A name or a value of a line, in quotes or not. -/
structure Word where
  text : String
  quoted : Bool
  clean : Clean text
  plain : quoted = false → Plain text

def Word.chars (w : Word) : List Char :=
  if w.quoted then '\'' :: w.text.toList ++ ['\''] else w.text.toList

def Word.token (w : Word) (i : Nat) : SetLineToken :=
  ⟨w.text, w.quoted, i, i + w.chars.length⟩

@[simp] theorem token_text (w : Word) (i : Nat) : (w.token i).text = w.text := rfl

/-- The placeholder as it comes into a line. -/
def placeholder : Word := ⟨maskPlaceholder, true, by decide, fun h => by cases h⟩

theorem chars_placeholder : placeholder.chars = quotedPlaceholder := rfl

def spaced (ws : List Word) : List Char := ws.flatMap fun w => ' ' :: w.chars

/-- The line `set` and the words make. -/
def lineChars (ws : List Word) : List Char := "set".toList ++ spaced ws

@[simp] theorem spaced_nil : spaced [] = [] := rfl

@[simp] theorem spaced_cons (w : Word) (ws : List Word) :
    spaced (w :: ws) = ' ' :: w.chars ++ spaced ws := rfl

@[simp] theorem spaced_append (ws ws' : List Word) : spaced (ws ++ ws') = spaced ws ++ spaced ws' :=
  List.flatMap_append

theorem lineChars_append (ws ws' : List Word) :
    lineChars (ws ++ ws') = lineChars ws ++ spaced ws' := by
  rw [lineChars, spaced_append, ← List.append_assoc, lineChars]

/-- The tokens of words that stand from the place `i` on, a blank before each. -/
def tokensAt : Nat → List Word → List SetLineToken
  | _, [] => []
  | i, w :: ws => w.token (i + 1) :: tokensAt (i + 1 + w.chars.length) ws

theorem tokensAt_append (i : Nat) (ws ws' : List Word) :
    tokensAt i (ws ++ ws') = tokensAt i ws ++ tokensAt (i + (spaced ws).length) ws' := by
  induction ws generalizing i with
  | nil => rfl
  | cons w ws ih =>
    have hplace : i + 1 + w.chars.length + (spaced ws).length =
        i + (spaced (w :: ws)).length := by
      rw [spaced_cons, List.length_append, List.length_cons]
      omega
    rw [List.cons_append, tokensAt, ih, hplace, tokensAt, List.cons_append]

theorem tokenizeFrom_of_none {i : Nat} {rest : List Char} (h : nextToken i rest = none) :
    tokenizeFrom i rest = [] := by
  rw [tokenizeFrom]
  split
  · rfl
  · simp_all

theorem tokenizeFrom_of_some {i : Nat} {rest after : List Char} {token : SetLineToken}
    (h : nextToken i rest = some (token, after)) :
    tokenizeFrom i rest = token :: tokenizeFrom token.stop after := by
  rw [tokenizeFrom]
  split
  · simp_all
  · simp_all

theorem nextToken_blank (i : Nat) (rest : List Char) :
    nextToken i (' ' :: rest) = nextToken (i + 1) rest := by
  have hblank : isBlank ' ' = true := rfl
  have hplace : i + ((rest.takeWhile isBlank).length + 1) =
      i + 1 + (rest.takeWhile isBlank).length := by omega
  simp only [nextToken, List.takeWhile_cons_of_pos hblank, List.dropWhile_cons_of_pos hblank,
    List.length_cons, hplace]

/-- A quoted span is one token, blanks and all. -/
theorem nextToken_quoted (i : Nat) {content : List Char} (h : '\'' ∉ content) (rest : List Char) :
    nextToken i ('\'' :: (content ++ '\'' :: rest)) =
      some (⟨String.ofList content, true, i, i + content.length + 2⟩, rest) := by
  have hcontent : ∀ c ∈ content, (!isQuote c) = true := by
    intro c hc
    have hne : c ≠ '\'' := fun heq => h (heq ▸ hc)
    simp [isQuote, hne]
  have htake : (content ++ '\'' :: rest).takeWhile (!isQuote ·) = content := by
    rw [List.takeWhile_append_of_pos hcontent]
    simp [isQuote]
  have hdrop : (content ++ '\'' :: rest).dropWhile (!isQuote ·) = '\'' :: rest := by
    rw [List.dropWhile_append_of_pos hcontent]
    simp [isQuote]
  have hblank : ¬ isBlank '\'' = true := by decide
  have hopen : isQuote '\'' = true := rfl
  simp only [nextToken, List.takeWhile_cons_of_neg hblank, List.dropWhile_cons_of_neg hblank, hopen,
    if_true, hdrop, htake, List.length_nil, Nat.add_zero]

/-- A token without quotes ends at the blank before the next word. -/
theorem nextToken_plain (i : Nat) {c : Char} {cs : List Char} (hc : isQuote c = false)
    (h : ∀ d ∈ c :: cs, isBlank d = false) (ws : List Word) :
    nextToken i (c :: cs ++ spaced ws) =
      some (⟨String.ofList (c :: cs), false, i, i + (c :: cs).length⟩, spaced ws) := by
  have hword : ∀ d ∈ cs, (!isBlank d) = true := by
    intro d hd
    simp [h d (List.mem_cons_of_mem _ hd)]
  have hblank : ¬ isBlank c = true := by simp [h c List.mem_cons_self]
  have hopen : ¬ isQuote c = true := by simp [hc]
  have hrest : (spaced ws).takeWhile (!isBlank ·) = [] ∧
      (spaced ws).dropWhile (!isBlank ·) = spaced ws := by
    cases ws with
    | nil => exact ⟨rfl, rfl⟩
    | cons w ws => exact ⟨rfl, rfl⟩
  have htake : (cs ++ spaced ws).takeWhile (!isBlank ·) = cs := by
    rw [List.takeWhile_append_of_pos hword, hrest.1, List.append_nil]
  have hdrop : (cs ++ spaced ws).dropWhile (!isBlank ·) = spaced ws := by
    rw [List.dropWhile_append_of_pos hword, hrest.2]
  rw [List.cons_append]
  simp only [nextToken, List.takeWhile_cons_of_neg hblank, List.dropWhile_cons_of_neg hblank, hopen,
    Bool.false_eq_true, if_false, hdrop, htake, List.length_nil, Nat.add_zero]

/-- A word is read as one token, whatever words follow. -/
theorem nextToken_word (i : Nat) (w : Word) (ws : List Word) :
    nextToken i (w.chars ++ spaced ws) = some (w.token i, spaced ws) := by
  cases hquoted : w.quoted with
  | true =>
    have hchars : w.chars = '\'' :: w.text.toList ++ ['\''] := by rw [Word.chars, if_pos hquoted]
    have hstop : i + w.chars.length = i + w.text.toList.length + 2 := by
      rw [hchars, List.length_append, List.length_cons, List.length_singleton]
      omega
    rw [Word.token, hquoted, hstop, hchars, List.append_assoc, List.singleton_append,
      List.cons_append, nextToken_quoted i w.clean, String.ofList_toList]
  | false =>
    obtain ⟨hne, hplain⟩ := w.plain hquoted
    have hchars : w.chars = w.text.toList := by
      rw [Word.chars, hquoted, if_neg Bool.false_ne_true]
    rw [Word.token, hquoted, hchars]
    cases htext : w.text.toList with
    | nil => exact absurd (String.toList_eq_nil_iff.mp htext) hne
    | cons c cs =>
      rw [htext] at hplain
      have hc : isQuote c = false := by
        have hne : c ≠ '\'' := by
          intro heq
          refine w.clean ?_
          rw [htext, heq]
          exact List.mem_cons_self
        simp [isQuote, hne]
      rw [nextToken_plain i hc hplain, ← htext, String.ofList_toList]

theorem tokenizeFrom_spaced (i : Nat) (ws : List Word) :
    tokenizeFrom i (spaced ws) = tokensAt i ws := by
  induction ws generalizing i with
  | nil => exact tokenizeFrom_of_none rfl
  | cons w ws ih =>
    have hnext : nextToken i (spaced (w :: ws)) = some (w.token (i + 1), spaced ws) := by
      rw [spaced_cons, List.cons_append, nextToken_blank, nextToken_word]
    rw [tokenizeFrom_of_some hnext, ih, tokensAt]
    rfl

/-- The token every line begins with. -/
def setToken : SetLineToken := ⟨"set", false, 0, 3⟩

/-- A line is cut into its words. -/
theorem tokenizeSetLine_lineChars (ws : List Word) :
    tokenizeSetLine (lineChars ws) = setToken :: tokensAt 3 ws := by
  have hplain : ∀ d ∈ ['s', 'e', 't'], isBlank d = false := by simp [isBlank]
  have hnext : nextToken 0 (lineChars ws) = some (setToken, spaced ws) :=
    nextToken_plain 0 rfl hplain ws
  rw [tokenizeSetLine, tokenizeFrom_of_some hnext, tokenizeFrom_spaced]
  rfl

/-- Words with the name after the first adjacent `snmp` and `community` replaced. -/
def hideCommunity : List Word → List Word
  | a :: b :: name :: ws =>
    if b.text = "community" ∧ a.text = "snmp" then a :: b :: placeholder :: ws
    else a :: hideCommunity (b :: name :: ws)
  | ws => ws

/-- A word is replaced where its token says it stands. -/
theorem replace_token (line : List Char) (w : Word) (ws : List Word) :
    (line ++ spaced (w :: ws)).take (w.token (line.length + 1)).start ++ quotedPlaceholder ++
      (line ++ spaced (w :: ws)).drop (w.token (line.length + 1)).stop =
      line ++ spaced (placeholder :: ws) := by
  have hline : line ++ spaced (w :: ws) = (line ++ [' ']) ++ (w.chars ++ spaced ws) := by
    rw [spaced_cons, List.append_assoc, List.singleton_append, List.cons_append]
  have hstart : (w.token (line.length + 1)).start = (line ++ [' ']).length := by
    rw [List.length_append, List.length_singleton]
    rfl
  have hstop : (w.token (line.length + 1)).stop = (line ++ [' ']).length + w.chars.length := by
    rw [← hstart]
    rfl
  rw [hstop, hstart, hline, List.take_left, ← List.drop_drop, List.drop_left, List.drop_left,
    spaced_cons, chars_placeholder, List.cons_append, List.append_assoc, List.append_assoc,
    List.singleton_append]

theorem redactSNMPCommunityName_spaced (line : List Char) (ws : List Word) :
    redactSNMPCommunityName (line ++ spaced ws) (tokensAt line.length ws) =
      line ++ spaced (hideCommunity ws) := by
  induction ws generalizing line with
  | nil => rfl
  | cons a ws ih =>
    match ws, ih with
    | [], _ => rfl
    | [b], _ => rfl
    | b :: name :: ws, ih =>
      have hnext : ∀ (l : List Char) (w : Word), (l ++ ' ' :: w.chars).length =
          l.length + 1 + w.chars.length := by
        intro l w
        rw [List.length_append, List.length_cons]
        omega
      have hspaced : ∀ (l : List Char) (w : Word) (ws : List Word),
          l ++ spaced (w :: ws) = (l ++ ' ' :: w.chars) ++ spaced ws := by
        intro l w ws
        rw [spaced_cons, List.append_assoc]
      by_cases hpair : b.text = "community" ∧ a.text = "snmp"
      · have hreplace := replace_token ((line ++ ' ' :: a.chars) ++ ' ' :: b.chars) name ws
        rw [hnext, hnext] at hreplace
        rw [hideCommunity, if_pos hpair, tokensAt, tokensAt, tokensAt, redactSNMPCommunityName,
          token_text, token_text, if_pos hpair, hspaced line a (b :: placeholder :: ws),
          hspaced _ b (placeholder :: ws), hspaced line a (b :: name :: ws), hspaced _ b (name :: ws)]
        exact hreplace
      · have hrest := ih (line ++ ' ' :: a.chars)
        rw [hnext] at hrest
        rw [hideCommunity, if_neg hpair, hspaced line a, hspaced line a, ← hrest, tokensAt,
          tokensAt, tokensAt, redactSNMPCommunityName, token_text, token_text, if_neg hpair]

/-- The name is replaced among the words of a line. -/
theorem redactSNMPCommunityName_lineChars (ws : List Word) :
    redactSNMPCommunityName (lineChars ws) (tokenizeSetLine (lineChars ws)) =
      lineChars (hideCommunity ws) := by
  have hwords := redactSNMPCommunityName_spaced "set".toList ws
  rw [tokenizeSetLine_lineChars]
  match ws, hwords with
  | [], _ => rfl
  | [a], _ => rfl
  | a :: b :: ws, hwords =>
    have hset : ¬ (a.text = "community" ∧ setToken.text = "snmp") := fun h => absurd h.2 (by decide)
    rw [tokensAt, tokensAt, redactSNMPCommunityName, token_text, if_neg hset]
    exact hwords

def pathOf (ws : List Word) : Path := ws.map Word.text

/-- With the word `set` before them, words end the same masked path. -/
theorem isMaskedPath_set (w : Word) : isMaskedPath ["set", w.text] = isMaskedPath [w.text] := by
  have hset : isSensitiveIdentifier "set" = false := by decide
  have hpair := isMaskedPath_append_pair [] "set" w.text
  rw [List.nil_append, hset, Bool.and_false, Bool.or_false] at hpair
  rw [hpair, isMaskedPath_singleton]

theorem redactLastValue_append (line : List Char) (tokens : List SetLineToken)
    (identifier leaf last : SetLineToken) :
    redactLastValue line (tokens ++ [identifier, leaf, last]) =
      if last.quoted && isMaskedPath [identifier.text, leaf.text] then
        line.take last.start ++ quotedPlaceholder
      else line := by
  have hlength : (tokens ++ [identifier, leaf, last]).length = tokens.length + 3 := by
    rw [List.length_append]
    rfl
  have hat : ∀ k < 3, (tokens ++ [identifier, leaf, last])[tokens.length + k]? =
      [identifier, leaf, last][k]? := by
    intro k _
    rw [List.getElem?_append_right (by omega), Nat.add_sub_cancel_left]
  have hshort : ¬ tokens.length + 3 < 3 := by omega
  unfold redactLastValue
  rw [hlength, if_neg hshort, show tokens.length + 3 - 1 = tokens.length + 2 by omega,
    show tokens.length + 3 - 2 = tokens.length + 1 by omega,
    show tokens.length + 3 - 3 = tokens.length + 0 by omega, hat 2 (by omega), hat 1 (by omega),
    hat 0 (by omega)]
  cases hquoted : last.quoted <;> cases hmasked : isMaskedPath [identifier.text, leaf.text] <;>
    simp [hquoted, hmasked]

/-- The value of a line is decided by the two tokens before it. -/
theorem redactLastValue_of_tokens {ws : List Word} {value : Word} (hvalue : value.quoted = true)
    {tokens : List SetLineToken} {identifier leaf : SetLineToken}
    (htokens : setToken :: tokensAt 3 ws = tokens ++ [identifier, leaf]) :
    redactLastValue (lineChars (ws ++ [value])) (tokenizeSetLine (lineChars (ws ++ [value]))) =
      lineChars (ws ++ [if isMaskedPath [identifier.text, leaf.text] then placeholder else value]) := by
  have hline : ∀ w, lineChars (ws ++ [w]) = (lineChars ws ++ [' ']) ++ w.chars := by
    intro w
    rw [lineChars_append, List.append_assoc, spaced_cons, spaced_nil, List.append_nil]
    rfl
  have hstart : 3 + (spaced ws).length + 1 = (lineChars ws ++ [' ']).length := by
    rw [List.length_append, lineChars, List.length_append]
    rfl
  have hall : setToken :: tokensAt 3 (ws ++ [value]) =
      tokens ++ [identifier, leaf, value.token (3 + (spaced ws).length + 1)] := by
    rw [tokensAt_append, ← List.cons_append, htokens, List.append_assoc]
    rfl
  have hquoted : (value.token (3 + (spaced ws).length + 1)).quoted = true := hvalue
  have hreplace : (lineChars (ws ++ [value])).take (value.token (3 + (spaced ws).length + 1)).start ++
      quotedPlaceholder = lineChars (ws ++ [placeholder]) := by
    show (lineChars (ws ++ [value])).take (3 + (spaced ws).length + 1) ++ quotedPlaceholder = _
    rw [hstart, hline, List.take_left, hline, chars_placeholder]
  rw [tokenizeSetLine_lineChars, hall, redactLastValue_append, hquoted, Bool.true_and, hreplace]
  split_ifs <;> rfl

/-- The value of a line is replaced exactly when the words before it end a masked path. -/
theorem redactLastValue_lineChars (ws : List Word) {value : Word} (hvalue : value.quoted = true) :
    redactLastValue (lineChars (ws ++ [value])) (tokenizeSetLine (lineChars (ws ++ [value]))) =
      lineChars (ws ++ [if isMaskedPath (pathOf ws) then placeholder else value]) := by
  rcases List.eq_nil_or_concat ws with rfl | ⟨ws', leaf, rfl⟩
  · rw [tokenizeSetLine_lineChars]
    rfl
  rcases List.eq_nil_or_concat ws' with rfl | ⟨ws'', identifier, rfl⟩
  · have htokens : setToken :: tokensAt 3 [leaf] = [] ++ [setToken, leaf.token 4] := rfl
    have hpath : pathOf [leaf] = [leaf.text] := rfl
    have hmasked : isMaskedPath [setToken.text, (leaf.token 4).text] = isMaskedPath [leaf.text] :=
      isMaskedPath_set leaf
    rw [List.concat_eq_append, List.nil_append, hpath, redactLastValue_of_tokens hvalue htokens,
      hmasked]
  · rw [List.concat_eq_append, List.concat_eq_append, List.append_assoc ws'']
    have htokens : setToken :: tokensAt 3 (ws'' ++ ([identifier] ++ [leaf])) =
        (setToken :: tokensAt 3 ws'') ++ tokensAt (3 + (spaced ws'').length) [identifier, leaf] := by
      rw [tokensAt_append]
      rfl
    have hpath : pathOf (ws'' ++ ([identifier] ++ [leaf])) =
        pathOf ws'' ++ [identifier.text, leaf.text] := by
      rw [pathOf, List.map_append]
      rfl
    have hpair := isMaskedPath_append_pair [] identifier.text leaf.text
    rw [List.nil_append, ← isMaskedPath_append_pair (pathOf ws''), ← hpath] at hpair
    rw [redactLastValue_of_tokens hvalue htokens, ← hpair]
    rfl

end VyosClient.SetCommands
