import VyosClient.Separators
import Mathlib.Data.List.GetD
import Mathlib.Data.List.TakeWhile

/-!
IP addresses and their texts, as the standard library reads and writes them. An address is a list of
4 or 16 bytes; the 16 bytes of an IPv4 address start with `::ffff`. Decimal octets and hexadecimal
groups are read one at a time, and at most one `::` stands for the groups that are left out.
-/

namespace VyosClient.IpText

abbrev Text := List Char

abbrev IP := List UInt8

def v4InV6Prefix : IP := List.replicate 10 0 ++ [255, 255]

/-- `IP.To4`: the 4 bytes of an IPv4 address in either form. -/
def to4 (ip : IP) : Option IP :=
  if ip.length = 4 then some ip
  else if ip.length = 16 ∧ ip.take 12 = v4InV6Prefix then some (ip.drop 12)
  else none

section Read

/-- The octets of an IPv4 address, after those already read and the digits of the current one. -/
def parseIPv4Fields (fields : List UInt8) (val digLen : ℕ) : Text → Option (List UInt8)
  | [] => if fields.length < 3 then none else some (fields ++ [UInt8.ofNat val])
  | c :: s =>
    if c.isDigit then
      if digLen = 1 ∧ val = 0 then none
      else
        let val := val * 10 + (c.toNat - '0'.toNat)
        if val > 255 then none else parseIPv4Fields fields val (digLen + 1) s
    else if c = '.' then
      if digLen = 0 ∨ s = [] then none
      else if fields.length = 3 then none
      else parseIPv4Fields (fields ++ [UInt8.ofNat val]) 0 0 s
    else none

/-- An IPv4 address, in its 16 bytes. -/
def parseIPv4 (s : Text) : Option IP := (parseIPv4Fields [] 0 0 s).map (v4InV6Prefix ++ ·)

def hexValue (c : Char) : Option ℕ :=
  if '0' ≤ c ∧ c ≤ '9' then some (c.toNat - '0'.toNat)
  else if 'a' ≤ c ∧ c ≤ 'f' then some (c.toNat - 'a'.toNat + 10)
  else if 'A' ≤ c ∧ c ≤ 'F' then some (c.toNat - 'A'.toNat + 10)
  else none

def isHex (c : Char) : Bool := (hexValue c).isSome

def hexNumber (digits : Text) : ℕ := digits.foldl (fun acc c => acc * 16 + (hexValue c).getD 0) 0

/-- The two bytes of a group. -/
def groupBytes (acc : ℕ) : List UInt8 := [UInt8.ofNat (acc / 256), UInt8.ofNat acc]

/-- The groups that follow, while there is room for `n` of them: the bytes read so far, the place of
the ellipsis among them, and the text that is left. -/
def parseGroups : ℕ → IP → Option ℕ → Text → Option (IP × Option ℕ × Text)
  | 0, ip, ellipsis, s => some (ip, ellipsis, s)
  | n + 1, ip, ellipsis, s =>
    let digits := s.takeWhile isHex
    if digits.length > 4 ∨ digits.length = 0 then none
    else
      match s.dropWhile isHex with
      | [] => some (ip ++ groupBytes (hexNumber digits), ellipsis, [])
      | c :: rest =>
        if c = '.' then
          -- an embedded IPv4 address
          if ellipsis = none ∧ ip.length ≠ 12 then none
          else if ip.length + 4 > 16 then none
          else (parseIPv4Fields [] 0 0 s).map fun fields => (ip ++ fields, ellipsis, [])
        else
          let ip := ip ++ groupBytes (hexNumber digits)
          if c ≠ ':' then none
          else
            match rest with
            | [] => none
            | d :: rest' =>
              if d = ':' then
                if ellipsis.isSome then none
                else if rest' = [] then some (ip, some ip.length, [])
                else parseGroups n ip (some ip.length) rest'
              else parseGroups n ip ellipsis (d :: rest')

/-- Zeros for the groups that the ellipsis stands for. -/
def expand : IP × Option ℕ × Text → Option IP
  | (ip, ellipsis, s) =>
    if s ≠ [] then none
    else if ip.length < 16 then
      ellipsis.map fun e => ip.take e ++ List.replicate (16 - ip.length) 0 ++ ip.drop e
    else if ellipsis.isSome then none
    else some ip

/-- An IPv6 address and its zone. -/
def parseIPv6 (text : Text) : Option (IP × Text) :=
  let s := text.takeWhile (· ≠ '%')
  let zone := (text.dropWhile (· ≠ '%')).tail
  if '%' ∈ text ∧ zone = [] then none
  else
    let ip :=
      if [':', ':'].isPrefixOf s then
        if s.drop 2 = [] then some (List.replicate 16 0)
        else (parseGroups 8 [] (some 0) (s.drop 2)).bind expand
      else (parseGroups 8 [] none s).bind expand
    ip.map fun ip => (ip, zone)

/-- The first of the three characters decides which kind of address is read. -/
def parseAddr (s : Text) : Option (IP × Text) :=
  match s.find? (· ∈ ['.', ':', '%']) with
  | some '.' => (parseIPv4 s).map fun ip => (ip, [])
  | some ':' => parseIPv6 s
  | _ => none

/-- `net.ParseIP`, which takes no zone. -/
def parseIP (s : Text) : Option IP :=
  match parseAddr s with
  | some (ip, []) => some ip
  | _ => none

end Read

section Write

/-- The octets with dots between them. -/
def string4 (ip : IP) : Text :=
  [ '.' ].intercalate (ip.map fun b => Nat.toDigits 10 b.toNat)

/-- The 16-bit groups of an address. -/
def groups : IP → List ℕ
  | hi :: lo :: ip => (hi.toNat * 256 + lo.toNat) :: groups ip
  | _ => []

def appendHex (g : ℕ) : Text := Nat.toDigits 16 g

/-- The first of the longest runs of two or more zero groups, as its start and end; 255 is none. -/
def zeroRun (gs : List ℕ) : ℕ × ℕ :=
  (List.range 8).foldl (fun (zeroStart, zeroEnd) i =>
    let j := i + ((gs.drop i).takeWhile (· = 0)).length
    if j - i ≥ 2 ∧ j - i > zeroEnd - zeroStart then (i, j) else (zeroStart, zeroEnd)) (255, 255)

/-- The groups from `i` on, in at most `n` rounds. -/
def writeGroups (gs : List ℕ) (zeroStart zeroEnd : ℕ) : ℕ → ℕ → Text
  | 0, _ => []
  | n + 1, i =>
    if i ≥ 8 then []
    else if i = zeroStart then
      ':' :: ':' :: (if zeroEnd ≥ 8 then []
        else appendHex (gs.getD zeroEnd 0) ++ writeGroups gs zeroStart zeroEnd n (zeroEnd + 1))
    else
      (if i > 0 then [':'] else []) ++ appendHex (gs.getD i 0) ++
        writeGroups gs zeroStart zeroEnd n (i + 1)

def appendTo6 (ip : IP) : Text :=
  let (zeroStart, zeroEnd) := zeroRun (groups ip)
  writeGroups (groups ip) zeroStart zeroEnd 8 0

/-- `IP.String`, of an address of 4 or 16 bytes. -/
def string (ip : IP) : Text :=
  match to4 ip with
  | some p4 => string4 p4
  | none => appendTo6 ip

end Write

example : string [0x20, 1, 0xd, 0xb8, 0, 0, 0, 0, 0, 1, 0, 0, 0, 0, 0, 1] = "2001:db8::1:0:0:1".toList := by
  decide +kernel

section Accepted

theorem parseIPv4Fields_digit {fields : List UInt8} {val digLen : ℕ} {c : Char} {s : Text}
    (hc : c.isDigit = true) (hlead : ¬(digLen = 1 ∧ val = 0))
    (hval : val * 10 + (c.toNat - '0'.toNat) ≤ 255) :
    parseIPv4Fields fields val digLen (c :: s) =
      parseIPv4Fields fields (val * 10 + (c.toNat - '0'.toNat)) (digLen + 1) s := by
  rw [parseIPv4Fields, if_pos hc, if_neg hlead]
  exact if_neg (Nat.not_lt.mpr hval)

theorem parseIPv4Fields_dot {fields : List UInt8} {val digLen : ℕ} {s : Text} (hdig : digLen ≠ 0)
    (hs : s ≠ []) (hfields : fields.length ≠ 3) :
    parseIPv4Fields fields val digLen ('.' :: s) =
      parseIPv4Fields (fields ++ [UInt8.ofNat val]) 0 0 s := by
  rw [parseIPv4Fields, if_neg (by decide), if_pos rfl, if_neg (not_or.mpr ⟨hdig, hs⟩), if_neg hfields]

/-- What is read as an IPv4 address has digits and dots only, and gives four octets. -/
theorem parseIPv4Fields_some {fields ip : List UInt8} {val digLen : ℕ} {s : Text}
    (h : parseIPv4Fields fields val digLen s = some ip) (hfields : fields.length ≤ 3) :
    ip.length = 4 ∧ ∀ c ∈ s, c.isDigit = true ∨ c = '.' := by
  induction s generalizing fields val digLen with
  | nil =>
    rw [parseIPv4Fields] at h
    split at h
    · cases h
    · rename_i hshort
      rw [← Option.some.inj h, List.length_append, List.length_singleton]
      exact ⟨by omega, fun c hc => absurd hc List.not_mem_nil⟩
  | cons c s ih =>
    rw [parseIPv4Fields] at h
    by_cases hdigit : c.isDigit = true
    · rw [if_pos hdigit] at h
      split at h
      · cases h
      · dsimp only at h
        split at h
        · cases h
        · obtain ⟨hlen, hchars⟩ := ih h hfields
          exact ⟨hlen, List.forall_mem_cons.mpr ⟨Or.inl hdigit, hchars⟩⟩
    · rw [if_neg hdigit] at h
      by_cases hdot : c = '.'
      · rw [if_pos hdot] at h
        split at h
        · cases h
        · split at h
          · cases h
          · obtain ⟨hlen, hchars⟩ := ih h (by
              rw [List.length_append, List.length_singleton]
              omega)
            exact ⟨hlen, List.forall_mem_cons.mpr ⟨Or.inr hdot, hchars⟩⟩
      · rw [if_neg hdot] at h
        cases h

/-- The characters of an address. -/
def AddrChar (c : Char) : Prop := isHex c = true ∨ c = '.' ∨ c = ':'

theorem AddrChar.of_field {c : Char} (h : c.isDigit = true ∨ c = '.') : AddrChar c := by
  rcases h with hdigit | hdot
  · left
    simp only [Char.isDigit, Bool.and_eq_true, decide_eq_true_eq] at hdigit
    have hrange : '0' ≤ c ∧ c ≤ '9' := hdigit
    unfold isHex hexValue
    rw [if_pos hrange]
    rfl
  · exact Or.inr (Or.inl hdot)

/-- One round: a group that ends the text, an IPv4 address that does, or a group with one colon or
two behind it, and after two colons the text may end as well. -/
theorem parseGroups_cases {n : ℕ} {ip : IP} {ellipsis : Option ℕ} {s : Text}
    {out : IP × Option ℕ × Text} (h : parseGroups (n + 1) ip ellipsis s = some out) :
    (∃ fields, parseIPv4Fields [] 0 0 s = some fields ∧ ip.length + 4 ≤ 16 ∧
      out = (ip ++ fields, ellipsis, [])) ∨
    ∃ digits rest, s = digits ++ rest ∧ (∀ c ∈ digits, isHex c = true) ∧
      let ip' := ip ++ groupBytes (hexNumber digits)
      (rest = [] ∧ out = (ip', ellipsis, [])) ∨
      (rest = [':', ':'] ∧ out = (ip', some ip'.length, [])) ∨
      ∃ ellipsis' t, (rest = ':' :: ':' :: t ∨ rest = ':' :: t) ∧
        parseGroups n ip' ellipsis' t = some out := by
  rw [parseGroups] at h
  dsimp only at h
  have hsplit := (List.takeWhile_append_dropWhile (p := isHex) (l := s)).symm
  have hhex : ∀ c ∈ s.takeWhile isHex, isHex c = true := fun c hc => List.mem_takeWhile_imp hc
  generalize s.takeWhile isHex = digits at h hsplit hhex
  generalize s.dropWhile isHex = rest at h hsplit
  split at h
  · cases h
  · cases rest with
    | nil =>
      exact Or.inr ⟨digits, [], hsplit, hhex, Or.inl ⟨rfl, (Option.some.inj h).symm⟩⟩
    | cons c rest =>
      dsimp only at h
      by_cases hdot : c = '.'
      · rw [if_pos hdot] at h
        split at h
        · cases h
        · split at h
          · cases h
          · obtain ⟨fields, hfields, hout⟩ := Option.map_eq_some_iff.mp h
            exact Or.inl ⟨fields, hfields, by omega, hout.symm⟩
      · rw [if_neg hdot] at h
        by_cases hcolon : c = ':'
        · subst hcolon
          rw [if_neg (by decide)] at h
          cases rest with
          | nil => cases h
          | cons d rest =>
            dsimp only at h
            by_cases hd : d = ':'
            · subst hd
              rw [if_pos rfl] at h
              split at h
              · cases h
              · split at h
                · rename_i hend
                  subst hend
                  exact Or.inr ⟨digits, _, hsplit, hhex,
                    Or.inr (Or.inl ⟨rfl, (Option.some.inj h).symm⟩)⟩
                · exact Or.inr ⟨digits, _, hsplit, hhex,
                    Or.inr (Or.inr ⟨_, rest, Or.inl rfl, h⟩)⟩
            · rw [if_neg hd] at h
              exact Or.inr ⟨digits, _, hsplit, hhex,
                Or.inr (Or.inr ⟨_, d :: rest, Or.inr rfl, h⟩)⟩
        · rw [if_pos hcolon] at h
          cases h

theorem length_groupBytes (acc : ℕ) : (groupBytes acc).length = 2 := rfl

theorem parseGroups_some {n : ℕ} {ip : IP} {ellipsis : Option ℕ} {s : Text}
    {out : IP × Option ℕ × Text} (h : parseGroups n ip ellipsis s = some out)
    (hlen : ip.length + 2 * n ≤ 16) :
    out.1.length ≤ 16 ∧ ∀ c ∈ s, AddrChar c ∨ c ∈ out.2.2 := by
  induction n generalizing ip ellipsis s with
  | zero =>
    obtain rfl := Option.some.inj h
    exact ⟨by omega, fun c hc => Or.inr hc⟩
  | succ n ih =>
    have hcolon : AddrChar ':' := Or.inr (Or.inr rfl)
    rcases parseGroups_cases h with ⟨fields, hfields, hroom, rfl⟩ |
      ⟨digits, rest, rfl, hhex, hrest⟩
    · obtain ⟨hfour, hchars⟩ := parseIPv4Fields_some hfields (Nat.zero_le 3)
      dsimp only
      rw [List.length_append, hfour]
      exact ⟨hroom, fun c hc => Or.inl (.of_field (hchars c hc))⟩
    · have hlen' : (ip ++ groupBytes (hexNumber digits)).length = ip.length + 2 := by
        rw [List.length_append, length_groupBytes]
      rcases hrest with ⟨rfl, rfl⟩ | ⟨rfl, rfl⟩ | ⟨ellipsis', t, ht, hnext⟩
      · refine ⟨by dsimp only; omega, fun c hc => Or.inl (Or.inl (hhex c ?_))⟩
        rwa [List.append_nil] at hc
      · refine ⟨by dsimp only; omega, fun c hc => Or.inl ?_⟩
        rcases List.mem_append.mp hc with hc | hc
        · exact Or.inl (hhex c hc)
        · simp only [List.mem_cons, List.not_mem_nil, or_false, or_self] at hc
          exact hc ▸ hcolon
      · obtain ⟨hout, hchars⟩ := ih hnext (by omega)
        refine ⟨hout, fun c hc => ?_⟩
        rcases List.mem_append.mp hc with hc | hc
        · exact Or.inl (Or.inl (hhex c hc))
        · rcases ht with rfl | rfl
          · rcases List.mem_cons.mp hc with rfl | hc
            · exact Or.inl hcolon
            · rcases List.mem_cons.mp hc with rfl | hc
              · exact Or.inl hcolon
              · exact hchars c hc
          · rcases List.mem_cons.mp hc with rfl | hc
            · exact Or.inl hcolon
            · exact hchars c hc

theorem expand_some {ip out : IP} {ellipsis : Option ℕ} {s : Text}
    (h : expand (ip, ellipsis, s) = some out) (hlen : ip.length ≤ 16) :
    s = [] ∧ out.length = 16 := by
  unfold expand at h
  dsimp only at h
  by_cases hs : s = []
  · rw [if_neg (not_not_intro hs)] at h
    refine ⟨hs, ?_⟩
    split at h
    · obtain ⟨e, -, rfl⟩ := Option.map_eq_some_iff.mp h
      simp only [List.length_append, List.length_take, List.length_drop, List.length_replicate]
      omega
    · split at h
      · cases h
      · obtain rfl := Option.some.inj h
        omega
  · rw [if_pos hs] at h
    cases h

theorem parseGroups_expand {ellipsis : Option ℕ} {s : Text} {out : IP}
    (h : (parseGroups 8 [] ellipsis s).bind expand = some out) :
    out.length = 16 ∧ ∀ c ∈ s, AddrChar c := by
  obtain ⟨⟨ip, ellipsis', rest⟩, hscan, hexpand⟩ := Option.bind_eq_some_iff.mp h
  obtain ⟨hlen, hchars⟩ := parseGroups_some hscan (Nat.le_refl 16)
  obtain ⟨rfl, hout⟩ := expand_some hexpand hlen
  exact ⟨hout, fun c hc => (hchars c hc).resolve_right List.not_mem_nil⟩

theorem parseIPv6_eq {s : Text} (hzone : '%' ∉ s) : parseIPv6 s =
    (if [':', ':'].isPrefixOf s then
        if s.drop 2 = [] then some (List.replicate 16 0)
        else (parseGroups 8 [] (some 0) (s.drop 2)).bind expand
      else (parseGroups 8 [] none s).bind expand).map fun ip => (ip, []) := by
  have hkeep : ∀ c ∈ s, decide (c ≠ '%') = true := fun c hc =>
    decide_eq_true fun heq => hzone (heq ▸ hc)
  unfold parseIPv6
  dsimp only
  rw [List.takeWhile_eq_self_iff.mpr hkeep, List.dropWhile_eq_nil_iff.mpr hkeep,
    if_neg fun h => hzone h.1]
  rfl

theorem parseIPv6_some {s : Text} {ip : IP} (h : parseIPv6 s = some (ip, [])) :
    ip.length = 16 ∧ ∀ c ∈ s, AddrChar c := by
  have hzone : '%' ∉ s := by
    intro hmem
    unfold parseIPv6 at h
    dsimp only at h
    split at h
    · cases h
    · rename_i hnot
      obtain ⟨_, _, hpair⟩ := Option.map_eq_some_iff.mp h
      exact hnot ⟨hmem, (Prod.mk.inj hpair).2⟩
  rw [parseIPv6_eq hzone] at h
  obtain ⟨ip', hread, hpair⟩ := Option.map_eq_some_iff.mp h
  obtain rfl := (Prod.mk.inj hpair).1
  by_cases hellipsis : [':', ':'].isPrefixOf s = true
  · rw [if_pos hellipsis] at hread
    obtain ⟨rest, rfl⟩ := List.isPrefixOf_iff_prefix.mp hellipsis
    have hcolon : AddrChar ':' := Or.inr (Or.inr rfl)
    have hstart (hrest : ∀ c ∈ rest, AddrChar c) : ∀ c ∈ [':', ':'] ++ rest, AddrChar c :=
      List.forall_mem_cons.mpr ⟨hcolon, List.forall_mem_cons.mpr ⟨hcolon, hrest⟩⟩
    rw [show ([':', ':'] ++ rest).drop 2 = rest from rfl] at hread
    by_cases hend : rest = []
    · rw [if_pos hend] at hread
      obtain rfl := Option.some.inj hread
      subst hend
      exact ⟨List.length_replicate, hstart fun c hc => absurd hc List.not_mem_nil⟩
    · rw [if_neg hend] at hread
      obtain ⟨hlen, hchars⟩ := parseGroups_expand hread
      exact ⟨hlen, hstart hchars⟩
  · rw [if_neg hellipsis] at hread
    exact parseGroups_expand hread

theorem to4_v4InV6 {v4 : IP} (h : v4.length = 4) : to4 (v4InV6Prefix ++ v4) = some v4 := by
  have hlen : (v4InV6Prefix ++ v4).length = 16 := by
    rw [List.length_append, h]
    rfl
  have htake : (v4InV6Prefix ++ v4).take 12 = v4InV6Prefix := List.take_left' rfl
  have hdrop : (v4InV6Prefix ++ v4).drop 12 = v4 := List.drop_left' rfl
  unfold to4
  rw [if_neg (by omega), if_pos ⟨hlen, htake⟩, hdrop]

/-- What `ParseIP` accepts: 16 bytes, from the characters of an address, and a colon among them in
an IPv6 address. -/
theorem parseIP_some {s : Text} {ip : IP} (h : parseIP s = some ip) :
    ip.length = 16 ∧ (∀ c ∈ s, AddrChar c) ∧ s ≠ [] ∧ (to4 ip = none → ':' ∈ s) := by
  unfold parseIP at h
  cases haddr : parseAddr s with
  | none =>
    rw [haddr] at h
    cases h
  | some out =>
    obtain ⟨ip', zone⟩ := out
    rw [haddr] at h
    cases zone with
    | cons c zone => cases h
    | nil =>
      obtain rfl := Option.some.inj h
      unfold parseAddr at haddr
      split at haddr
      · rename_i hfind
        obtain ⟨ip, hread, hpair⟩ := Option.map_eq_some_iff.mp haddr
        obtain rfl := (Prod.mk.inj hpair).1
        obtain ⟨fields, hfields, rfl⟩ := Option.map_eq_some_iff.mp hread
        obtain ⟨hfour, hchars⟩ := parseIPv4Fields_some hfields (Nat.zero_le 3)
        refine ⟨by rw [List.length_append, hfour]; rfl, fun c hc => .of_field (hchars c hc),
          List.ne_nil_of_mem (List.mem_of_find?_eq_some hfind), fun hnone => ?_⟩
        rw [to4_v4InV6 hfour] at hnone
        cases hnone
      · rename_i hfind
        have hcolon := List.mem_of_find?_eq_some hfind
        obtain ⟨hlen, hchars⟩ := parseIPv6_some haddr
        exact ⟨hlen, hchars, List.ne_nil_of_mem hcolon, fun _ => hcolon⟩
      · cases haddr

end Accepted

section Decimal

/-- The digits of an octet: by induction on them, no digit but the last one can be the only zero. -/
theorem parseIPv4Fields_octet {fields : List UInt8} (n : ℕ) (hn : n ≤ 255) (s : Text) :
    parseIPv4Fields fields 0 0 (Nat.toDigits 10 n ++ s) =
      parseIPv4Fields fields n (Nat.toDigits 10 n).length s := by
  have hdigit (d : ℕ) (hd : d < 10) :
      d.digitChar.isDigit = true ∧ d.digitChar.toNat - '0'.toNat = d :=
    ⟨by rw [Nat.isDigit_digitChar]; exact decide_eq_true hd, Nat.toNat_digitChar_sub_48_of_lt_ten hd⟩
  induction n using Nat.strong_induction_on generalizing s with
  | _ n ih =>
    rw [Nat.toDigits_eq_if (by decide)]
    by_cases hlt : n < 10
    · obtain ⟨hisDigit, hvalue⟩ := hdigit n hlt
      rw [if_pos hlt]
      exact (parseIPv4Fields_digit hisDigit (by decide) (by omega)).trans (by
        rw [hvalue, Nat.zero_mul, Nat.zero_add]
        rfl)
    · obtain ⟨hisDigit, hvalue⟩ := hdigit (n % 10) (Nat.mod_lt n (by decide))
      rw [if_neg hlt, List.append_assoc, ih (n / 10) (by omega) (by omega), List.singleton_append,
        parseIPv4Fields_digit hisDigit (by omega) (by omega), hvalue, List.length_append,
        show n / 10 * 10 + n % 10 = n by omega]
      rfl

theorem parseIPv4Fields_octet_dot (fields : List UInt8) (b : UInt8) {s : Text} (hs : s ≠ [])
    (hfields : fields.length ≠ 3) :
    parseIPv4Fields fields 0 0 (Nat.toDigits 10 b.toNat ++ '.' :: s) =
      parseIPv4Fields (fields ++ [b]) 0 0 s := by
  have hlen : (Nat.toDigits 10 b.toNat).length ≠ 0 := Nat.length_toDigits_pos.ne'
  rw [parseIPv4Fields_octet b.toNat (Nat.le_of_lt_succ b.toNat_lt), parseIPv4Fields_dot hlen hs hfields,
    UInt8.ofNat_toNat]

theorem string4_eq (a b c d : UInt8) : string4 [a, b, c, d] =
    Nat.toDigits 10 a.toNat ++ '.' :: (Nat.toDigits 10 b.toNat ++ '.' ::
      (Nat.toDigits 10 c.toNat ++ '.' :: Nat.toDigits 10 d.toNat)) := by
  simp [string4, List.intercalate]

theorem parseIPv4_string4 (a b c d : UInt8) :
    parseIPv4 (string4 [a, b, c, d]) = some (v4InV6Prefix ++ [a, b, c, d]) := by
  have hne (b : UInt8) (s : Text) : Nat.toDigits 10 b.toNat ++ s ≠ [] :=
    List.append_ne_nil_of_left_ne_nil Nat.toDigits_ne_nil s
  have hlast : parseIPv4Fields [a, b, c] 0 0 (Nat.toDigits 10 d.toNat) = some [a, b, c, d] := by
    have hend : parseIPv4Fields [a, b, c] d.toNat (Nat.toDigits 10 d.toNat).length [] =
        some [a, b, c, UInt8.ofNat d.toNat] := rfl
    rw [← List.append_nil (Nat.toDigits 10 d.toNat),
      parseIPv4Fields_octet d.toNat (Nat.le_of_lt_succ d.toNat_lt), hend,
      UInt8.ofNat_toNat]
  have hfirst := parseIPv4Fields_octet_dot [] a (hne b ('.' :: (Nat.toDigits 10 c.toNat ++
    '.' :: Nat.toDigits 10 d.toNat))) (show 0 ≠ 3 by decide)
  have hsecond := parseIPv4Fields_octet_dot [a] b (hne c ('.' :: Nat.toDigits 10 d.toNat))
    (show 1 ≠ 3 by decide)
  have hthird := parseIPv4Fields_octet_dot [a, b] c (Nat.toDigits_ne_nil (n := d.toNat) (b := 10))
    (show 2 ≠ 3 by decide)
  have hread : parseIPv4Fields [] 0 0 (string4 [a, b, c, d]) = some [a, b, c, d] := by
    rw [string4_eq]
    exact hfirst.trans (hsecond.trans (hthird.trans hlast))
  unfold parseIPv4
  rw [hread]
  rfl

/-- The character that decides, when no other of the three is there. -/
theorem find?_of_only {s : Text} {c : Char} (hc : c ∈ s) (hkind : c ∈ ['.', ':', '%'])
    (honly : ∀ d ∈ s, d ∈ ['.', ':', '%'] → d = c) : s.find? (· ∈ ['.', ':', '%']) = some c := by
  cases hfind : s.find? (· ∈ ['.', ':', '%']) with
  | none => exact absurd (decide_eq_true hkind) (List.find?_eq_none.mp hfind c hc)
  | some d =>
    have hd := List.find?_some hfind
    rw [honly d (List.mem_of_find?_eq_some hfind) (of_decide_eq_true hd)]

theorem parseIP_string4 {v4 : IP} (h : v4.length = 4) :
    parseIP (string4 v4) = some (v4InV6Prefix ++ v4) := by
  obtain ⟨a, b, c, d, rfl⟩ : ∃ a b c d, v4 = [a, b, c, d] := by
    rcases v4 with - | ⟨a, - | ⟨b, - | ⟨c, - | ⟨d, - | ⟨e, v4⟩⟩⟩⟩⟩ <;> simp_all
  have hread := parseIPv4_string4 a b c d
  obtain ⟨fields, hfields, -⟩ := Option.map_eq_some_iff.mp hread
  have hchars := (parseIPv4Fields_some hfields (Nat.zero_le 3)).2
  have hdot : '.' ∈ string4 [a, b, c, d] := by
    rw [string4_eq]
    exact List.mem_append_right _ List.mem_cons_self
  have hfind := find?_of_only hdot (by decide) fun e he hkind => by
    rcases hchars e he with hdigit | hdot
    · simp only [List.mem_cons, List.not_mem_nil, or_false] at hkind
      rcases hkind with rfl | rfl | rfl
      · rfl
      · exact absurd hdigit (by decide)
      · exact absurd hdigit (by decide)
    · exact hdot
  unfold parseIP parseAddr
  rw [hfind, hread]
  rfl

end Decimal

section Hexadecimal

theorem hexValue_digitChar : ∀ d < 16, hexValue d.digitChar = some d := by decide

theorem appendHex_eq (g : ℕ) : appendHex g =
    if g < 16 then [g.digitChar] else appendHex (g / 16) ++ [(g % 16).digitChar] :=
  Nat.toDigits_eq_if (by decide)

theorem isHex_of_mem_appendHex (g : ℕ) : ∀ c ∈ appendHex g, isHex c = true := by
  have hdigit (d : ℕ) (hd : d < 16) : isHex d.digitChar = true := by
    unfold isHex
    rw [hexValue_digitChar d hd]
    rfl
  induction g using Nat.strong_induction_on with
  | _ g ih =>
    rw [appendHex_eq]
    by_cases hlt : g < 16
    · rw [if_pos hlt]
      exact List.forall_mem_singleton.mpr (hdigit g hlt)
    · rw [if_neg hlt]
      intro c hc
      rcases List.mem_append.mp hc with hc | hc
      · exact ih (g / 16) (by omega) c hc
      · rw [List.mem_singleton.mp hc]
        exact hdigit _ (Nat.mod_lt g (by decide))

theorem hexNumber_appendHex (g : ℕ) : hexNumber (appendHex g) = g := by
  induction g using Nat.strong_induction_on with
  | _ g ih =>
    rw [appendHex_eq]
    by_cases hlt : g < 16
    · have hone : hexNumber [g.digitChar] = 0 * 16 + (hexValue g.digitChar).getD 0 := rfl
      rw [if_pos hlt, hone, hexValue_digitChar g hlt]
      exact (congrArg (· + g) (Nat.zero_mul 16)).trans (Nat.zero_add g)
    · have hlast : hexNumber (appendHex (g / 16) ++ [(g % 16).digitChar]) =
          hexNumber (appendHex (g / 16)) * 16 + (hexValue (g % 16).digitChar).getD 0 :=
        List.foldl_append
      rw [if_neg hlt, hlast, ih (g / 16) (by omega), hexValue_digitChar _ (Nat.mod_lt g (by decide))]
      exact Nat.div_add_mod' g 16

theorem appendHex_ne_nil (g : ℕ) : appendHex g ≠ [] := Nat.toDigits_ne_nil

/-- The digits of a group are not too many, and end at the end of the text or at a colon. -/
theorem scan_appendHex {g : ℕ} (hg : g < 65536) (rest : Text)
    (hrest : ∀ c, rest.head? = some c → c = ':') :
    (appendHex g ++ rest).takeWhile isHex = appendHex g ∧
      (appendHex g ++ rest).dropWhile isHex = rest ∧
      ¬((appendHex g).length > 4 ∨ (appendHex g).length = 0) := by
  have hhex := isHex_of_mem_appendHex g
  have hlen : (appendHex g).length ≤ 4 :=
    (Nat.length_toDigits_le_iff (by decide) (by decide)).mpr hg
  have hpos := List.length_pos_iff.mpr (appendHex_ne_nil g)
  have hcount : ¬((appendHex g).length > 4 ∨ (appendHex g).length = 0) := by omega
  rw [List.takeWhile_append_of_pos hhex, List.dropWhile_append_of_pos hhex]
  cases rest with
  | nil => exact ⟨List.append_nil _, rfl, hcount⟩
  | cons c rest =>
    obtain rfl := hrest c rfl
    exact ⟨List.append_nil _, rfl, hcount⟩

theorem parseGroups_end (n : ℕ) (ip : IP) (ellipsis : Option ℕ) {g : ℕ} (hg : g < 65536) :
    parseGroups (n + 1) ip ellipsis (appendHex g) = some (ip ++ groupBytes g, ellipsis, []) := by
  obtain ⟨htake, hdrop, hcount⟩ := scan_appendHex hg [] (fun c h => by cases h)
  rw [List.append_nil] at htake hdrop
  rw [parseGroups]
  dsimp only
  rw [htake, hdrop, if_neg hcount, hexNumber_appendHex]

theorem parseGroups_colon (n : ℕ) (ip : IP) (ellipsis : Option ℕ) {g : ℕ} (hg : g < 65536) {c : Char}
    (hc : isHex c = true) (s : Text) :
    parseGroups (n + 1) ip ellipsis (appendHex g ++ ':' :: c :: s) =
      parseGroups n (ip ++ groupBytes g) ellipsis (c :: s) := by
  obtain ⟨htake, hdrop, hcount⟩ := scan_appendHex hg (':' :: c :: s)
    (fun d h => (Option.some.inj h).symm)
  have hcolon : c ≠ ':' := fun heq => by
    rw [heq] at hc
    exact absurd hc (by decide)
  rw [parseGroups]
  dsimp only
  rw [htake, hdrop, if_neg hcount, hexNumber_appendHex]
  dsimp only
  rw [if_neg (by decide), if_neg (by decide), if_neg hcolon]

theorem parseGroups_ellipsis (n : ℕ) (ip : IP) {g : ℕ} (hg : g < 65536) (s : Text) :
    parseGroups (n + 1) ip none (appendHex g ++ ':' :: ':' :: s) =
      if s = [] then some (ip ++ groupBytes g, some (ip ++ groupBytes g).length, [])
      else parseGroups n (ip ++ groupBytes g) (some (ip ++ groupBytes g).length) s := by
  obtain ⟨htake, hdrop, hcount⟩ := scan_appendHex hg (':' :: ':' :: s)
    (fun d h => (Option.some.inj h).symm)
  rw [parseGroups]
  dsimp only
  rw [htake, hdrop, if_neg hcount, hexNumber_appendHex]
  dsimp only
  rw [if_neg (by decide), if_neg (by decide), if_pos rfl, if_neg (by decide)]

/-- Groups with colons between them. -/
def colons : List ℕ → Text
  | [] => []
  | g :: gs => appendHex g ++ gs.flatMap fun g => ':' :: appendHex g

theorem colons_cons_cons (g h : ℕ) (gs : List ℕ) :
    colons (g :: h :: gs) = appendHex g ++ ':' :: colons (h :: gs) := rfl

/-- The groups before the last one, whatever follows it. -/
theorem parseGroups_run (n : ℕ) (ip : IP) (ellipsis : Option ℕ) (gs : List ℕ) (g : ℕ)
    (hgs : ∀ x ∈ gs, x < 65536) (tail : Text) :
    parseGroups (n + gs.length) ip ellipsis (colons (gs ++ [g]) ++ tail) =
      parseGroups n (ip ++ gs.flatMap groupBytes) ellipsis (appendHex g ++ tail) := by
  induction gs generalizing ip with
  | nil => rw [List.nil_append, List.flatMap_nil, List.append_nil, colons, List.flatMap_nil,
      List.append_nil, List.length_nil, Nat.add_zero]
  | cons h gs ih =>
    obtain ⟨hh, hgs⟩ := List.forall_mem_cons.mp hgs
    obtain ⟨g', gs', hnext⟩ := List.exists_cons_of_ne_nil
      (List.append_ne_nil_of_right_ne_nil gs (List.cons_ne_nil g []))
    obtain ⟨c, digits, hc⟩ := List.exists_cons_of_ne_nil (appendHex_ne_nil g')
    have hhex := isHex_of_mem_appendHex g' c (hc ▸ List.mem_cons_self)
    have hstart : ∃ s, colons (g' :: gs') ++ tail = c :: s := ⟨_, by
      rw [colons, hc, List.cons_append, List.cons_append]⟩
    obtain ⟨s, hs⟩ := hstart
    rw [List.cons_append, hnext, colons_cons_cons, List.append_assoc, List.cons_append, hs,
      List.length_cons, ← Nat.add_assoc, parseGroups_colon _ ip ellipsis hh hhex, ← hs, ← hnext,
      ih _ hgs, List.flatMap_cons, List.append_assoc]

end Hexadecimal

section Groups

theorem groupBytes_group (hi lo : UInt8) : groupBytes (hi.toNat * 256 + lo.toNat) = [hi, lo] := by
  have hlo := lo.toNat_lt
  have hhigh : (hi.toNat * 256 + lo.toNat) / 256 = hi.toNat := by omega
  have hlow : UInt8.ofNat (hi.toNat * 256 + lo.toNat) = lo := by
    apply UInt8.toNat_inj.mp
    rw [UInt8.toNat_ofNat']
    omega
  unfold groupBytes
  rw [hhigh, hlow, UInt8.ofNat_toNat]

/-- The groups of an address give back its bytes. -/
theorem groups_spec {n : ℕ} {ip : IP} (h : ip.length = 2 * n) :
    (groups ip).length = n ∧ (∀ g ∈ groups ip, g < 65536) ∧ (groups ip).flatMap groupBytes = ip := by
  induction n generalizing ip with
  | zero =>
    obtain rfl := List.eq_nil_of_length_eq_zero h
    exact ⟨rfl, fun g hg => absurd hg List.not_mem_nil, rfl⟩
  | succ n ih =>
    rcases ip with - | ⟨hi, - | ⟨lo, ip⟩⟩
    · rw [List.length_nil] at h
      omega
    · rw [List.length_singleton] at h
      omega
    · rw [List.length_cons, List.length_cons] at h
      have hshort : ip.length = 2 * n := by omega
      obtain ⟨hlen, hbound, hbytes⟩ := ih hshort
      have hhi := hi.toNat_lt
      have hlo := lo.toNat_lt
      refine ⟨by rw [groups, List.length_cons, hlen], ?_, ?_⟩
      · exact List.forall_mem_cons.mpr ⟨by omega, hbound⟩
      · rw [groups, List.flatMap_cons, groupBytes_group, hbytes]
        rfl

theorem length_flatMap_groupBytes (gs : List ℕ) : (gs.flatMap groupBytes).length = 2 * gs.length := by
  induction gs with
  | nil => rfl
  | cons g gs ih =>
    rw [List.flatMap_cons, List.length_append, ih, length_groupBytes, List.length_cons]
    omega

variable {gs : List ℕ}

/-- A run is none, or at least two zero groups. -/
structure ZeroRun (gs : List ℕ) (zeroStart zeroEnd : ℕ) : Prop where
  long : zeroStart + 2 ≤ zeroEnd
  end_le : zeroEnd ≤ 8
  zeros : gs = gs.take zeroStart ++ List.replicate (zeroEnd - zeroStart) 0 ++ gs.drop zeroEnd

theorem zeroRun_spec (hlen : gs.length = 8) :
    zeroRun gs = (255, 255) ∨ ZeroRun gs (zeroRun gs).1 (zeroRun gs).2 := by
  unfold zeroRun
  refine List.foldlRecOn (motive := fun run => run = (255, 255) ∨ ZeroRun gs run.1 run.2)
    (List.range 8) _ (Or.inl rfl) ?_
  rintro ⟨zeroStart, zeroEnd⟩ hrun i hi
  dsimp only
  split
  · rename_i hlong
    right
    have hi := List.mem_range.mp hi
    have hzeros : (gs.drop i).takeWhile (· = 0) =
        List.replicate ((gs.drop i).takeWhile (· = 0)).length 0 :=
      List.eq_replicate_of_mem fun g hg =>
        of_decide_eq_true (List.mem_takeWhile_imp (p := fun g => decide (g = 0)) hg)
    have hle := (List.takeWhile_sublist (l := gs.drop i) (fun g => decide (g = 0))).length_le
    have hrest := List.takeWhile_append_dropWhile (p := fun g => decide (g = 0)) (l := gs.drop i)
    have hdrop := congrArg (List.drop ((gs.drop i).takeWhile (· = 0)).length) hrest
    rw [List.drop_left, List.drop_drop] at hdrop
    rw [List.length_drop, hlen] at hle
    refine ⟨by dsimp only; omega, by dsimp only; omega, ?_⟩
    dsimp only
    rw [Nat.add_sub_cancel_left, ← hzeros, ← hdrop, List.append_assoc, hrest, List.take_append_drop]
  · exact hrun

/-- Past the run, or without one, each group has a colon before it. -/
theorem writeGroups_after (hlen : gs.length = 8) {zeroStart zeroEnd : ℕ} (n i : ℕ) (hi : 0 < i)
    (hrun : zeroStart < i ∨ 8 ≤ zeroStart) (hn : 8 ≤ n + i) :
    writeGroups gs zeroStart zeroEnd n i = (gs.drop i).flatMap fun g => ':' :: appendHex g := by
  induction n generalizing i with
  | zero =>
    rw [List.drop_eq_nil_of_le (by omega)]
    rfl
  | succ n ih =>
    rw [writeGroups]
    by_cases hend : i ≥ 8
    · rw [if_pos hend, List.drop_eq_nil_of_le (by omega)]
      rfl
    · have hget : i < gs.length := by omega
      rw [if_neg hend, if_neg (by omega), if_pos hi, ih (i + 1) (by omega) (by omega) (by omega),
        List.drop_eq_getElem_cons hget, List.flatMap_cons, List.getD_eq_getElem _ _ hget]
      rfl

/-- The rest of the text from the run on. -/
theorem writeGroups_run (hlen : gs.length = 8) {zeroStart zeroEnd : ℕ} (hstart : zeroStart < 8)
    (hle : zeroStart < zeroEnd) (n : ℕ) (hn : 8 ≤ n + zeroEnd) :
    writeGroups gs zeroStart zeroEnd (n + 1) zeroStart =
      ':' :: ':' :: colons (gs.drop zeroEnd) := by
  rw [writeGroups, if_neg (Nat.not_le.mpr hstart), if_pos rfl]
  by_cases hend : zeroEnd ≥ 8
  · rw [if_pos hend, List.drop_eq_nil_of_le (by omega)]
    rfl
  · have hget : zeroEnd < gs.length := by omega
    rw [if_neg hend, writeGroups_after hlen n (zeroEnd + 1) (by omega) (by omega) (by omega),
      List.drop_eq_getElem_cons hget, List.getD_eq_getElem _ _ hget]
    rfl

theorem writeGroups_before (hlen : gs.length = 8) {zeroStart zeroEnd : ℕ} (hstart : zeroStart < 8)
    (hle : zeroStart < zeroEnd) (n i : ℕ) (hi : 0 < i) (his : i ≤ zeroStart) (hn : 8 ≤ n + i) :
    writeGroups gs zeroStart zeroEnd n i =
      ((gs.take zeroStart).drop i).flatMap (fun g => ':' :: appendHex g) ++
        ':' :: ':' :: colons (gs.drop zeroEnd) := by
  induction n generalizing i with
  | zero => omega
  | succ n ih =>
    by_cases heq : i = zeroStart
    · subst heq
      have hnone : (gs.take i).drop i = [] :=
        List.drop_eq_nil_of_le (List.length_take_le i gs)
      rw [writeGroups_run hlen hstart hle n (by omega), hnone]
      rfl
    · have hget : i < (gs.take zeroStart).length := by
        rw [List.length_take]
        omega
      rw [writeGroups, if_neg (by omega), if_neg heq, if_pos hi,
        ih (i + 1) (by omega) (by omega) (by omega), List.drop_eq_getElem_cons hget,
        List.flatMap_cons, List.getElem_take, List.getD_eq_getElem _ _ (by omega),
        List.append_assoc, List.append_assoc]
      rfl

/-- The text of an address: all groups, or those before and after a run of zeros. -/
theorem appendTo6_eq {ip : IP} (h : ip.length = 16) : appendTo6 ip = colons (groups ip) ∨
    ∃ zeroStart zeroEnd, ZeroRun (groups ip) zeroStart zeroEnd ∧
      appendTo6 ip = colons ((groups ip).take zeroStart) ++
        ':' :: ':' :: colons ((groups ip).drop zeroEnd) := by
  have hlen := (groups_spec (n := 8) h).1
  unfold appendTo6
  generalize groups ip = gs at hlen ⊢
  obtain ⟨g, rest, rfl⟩ := List.exists_cons_of_ne_nil (List.ne_nil_of_length_eq_add_one hlen)
  rcases zeroRun_spec hlen with hrun | hrun
  · left
    rw [hrun]
    dsimp only
    rw [writeGroups, if_neg (by decide), if_neg (by decide),
      writeGroups_after hlen 7 1 (by decide) (by decide) (by decide)]
    rfl
  · right
    refine ⟨_, _, hrun, ?_⟩
    obtain ⟨hlong, hend, -⟩ := hrun
    dsimp only
    generalize (zeroRun (g :: rest)).1 = zeroStart at hlong ⊢
    generalize (zeroRun (g :: rest)).2 = zeroEnd at hlong hend ⊢
    cases zeroStart with
    | zero => exact writeGroups_run hlen (by decide) (by omega) 7 (by omega)
    | succ zeroStart =>
      rw [writeGroups, if_neg (by decide), if_neg (Nat.succ_ne_zero _).symm,
        writeGroups_before hlen (by omega) (by omega) 7 1 (by decide) (by omega) (by decide)]
      exact (List.append_assoc _ _ _).symm

end Groups

section RoundTrip

variable {gs : List ℕ}

theorem parseGroups_colons {n : ℕ} {ip : IP} {ellipsis : Option ℕ} (hne : gs ≠ [])
    (hgs : ∀ g ∈ gs, g < 65536) (hn : gs.length ≤ n) :
    parseGroups n ip ellipsis (colons gs) = some (ip ++ gs.flatMap groupBytes, ellipsis, []) := by
  obtain ⟨before, g, rfl⟩ := (List.eq_nil_or_concat' gs).resolve_left hne
  obtain ⟨hbefore, hg⟩ := List.forall_mem_append.mp hgs
  rw [List.length_append, List.length_singleton] at hn
  have hrun := parseGroups_run (n - before.length - 1 + 1) ip ellipsis before g hbefore []
  rw [List.append_nil, List.append_nil, show n - before.length - 1 + 1 + before.length = n by omega,
    parseGroups_end _ _ _ (hg g List.mem_cons_self)] at hrun
  rw [hrun, List.flatMap_append, List.append_assoc]
  rfl

theorem parseGroups_colons_ellipsis {n : ℕ} (hne : gs ≠ []) (hgs : ∀ g ∈ gs, g < 65536)
    (hn : gs.length ≤ n) (s : Text) :
    parseGroups n [] none (colons gs ++ ':' :: ':' :: s) =
      if s = [] then some (gs.flatMap groupBytes, some (gs.flatMap groupBytes).length, [])
      else parseGroups (n - gs.length) (gs.flatMap groupBytes)
        (some (gs.flatMap groupBytes).length) s := by
  obtain ⟨before, g, rfl⟩ := (List.eq_nil_or_concat' gs).resolve_left hne
  obtain ⟨hbefore, hg⟩ := List.forall_mem_append.mp hgs
  rw [List.length_append, List.length_singleton] at hn
  have hbytes : (before ++ [g]).flatMap groupBytes = before.flatMap groupBytes ++ groupBytes g := by
    rw [List.flatMap_append]
    rfl
  have hrun := parseGroups_run (n - (before.length + 1) + 1) [] none before g hbefore
    (':' :: ':' :: s)
  rw [show n - (before.length + 1) + 1 + before.length = n by omega, List.nil_append,
    parseGroups_ellipsis _ _ (hg g List.mem_cons_self)] at hrun
  have hcount : (before ++ [g]).length = before.length + 1 := List.length_append
  rw [hrun, hbytes, hcount]

/-- The ellipsis is expanded to the run of zeros that it stands for. -/
theorem expand_zeroRun {ip : IP} (h : ip.length = 16) {zeroStart zeroEnd : ℕ}
    (hrun : ZeroRun (groups ip) zeroStart zeroEnd) :
    expand (((groups ip).take zeroStart).flatMap groupBytes ++
        ((groups ip).drop zeroEnd).flatMap groupBytes,
      some (((groups ip).take zeroStart).flatMap groupBytes).length, []) = some ip := by
  obtain ⟨hlen, -, hbytes⟩ := groups_spec (n := 8) h
  obtain ⟨hlong, hend, hzeros⟩ := hrun
  have hzero (k : ℕ) : (List.replicate k 0).flatMap groupBytes = List.replicate (2 * k) 0 := by
    induction k with
    | zero => rfl
    | succ k ih =>
      rw [List.replicate_succ, List.flatMap_cons, ih]
      rfl
  rw [hzeros, List.flatMap_append, List.flatMap_append, hzero] at hbytes
  have hbefore : (((groups ip).take zeroStart).flatMap groupBytes).length = 2 * zeroStart := by
    rw [length_flatMap_groupBytes, List.length_take]
    omega
  have hafter : (((groups ip).drop zeroEnd).flatMap groupBytes).length = 2 * (8 - zeroEnd) := by
    rw [length_flatMap_groupBytes, List.length_drop, hlen]
  unfold expand
  dsimp only
  rw [if_neg (not_not_intro rfl), if_pos (by rw [List.length_append]; omega), Option.map_some,
    List.take_left, List.drop_left, List.length_append, hbefore, hafter,
    show 16 - (2 * zeroStart + 2 * (8 - zeroEnd)) = 2 * (zeroEnd - zeroStart) by omega, hbytes]

theorem colons_ne_nil (hne : gs ≠ []) : ∃ c s, colons gs = c :: s ∧ isHex c = true := by
  obtain ⟨g, gs, rfl⟩ := List.exists_cons_of_ne_nil hne
  obtain ⟨c, digits, hc⟩ := List.exists_cons_of_ne_nil (appendHex_ne_nil g)
  exact ⟨c, _, by rw [colons, hc, List.cons_append], isHex_of_mem_appendHex g c (hc ▸ List.mem_cons_self)⟩

theorem not_ellipsis_colons (hne : gs ≠ []) (s : Text) :
    ¬ [':', ':'].isPrefixOf (colons gs ++ s) = true := by
  obtain ⟨c, rest, hcolons, hhex⟩ := colons_ne_nil hne
  intro h
  obtain ⟨t, ht⟩ := List.isPrefixOf_iff_prefix.mp h
  rw [hcolons] at ht
  rw [← (List.cons.inj ht).1] at hhex
  exact absurd hhex (by decide)

theorem mem_colons : ∀ c ∈ colons gs, isHex c = true ∨ c = ':' := by
  intro c hc
  cases gs with
  | nil => cases hc
  | cons g gs =>
    rcases List.mem_append.mp hc with hc | hc
    · exact Or.inl (isHex_of_mem_appendHex g c hc)
    · obtain ⟨g', -, hc⟩ := List.mem_flatMap.mp hc
      rcases List.mem_cons.mp hc with rfl | hc
      · exact Or.inr rfl
      · exact Or.inl (isHex_of_mem_appendHex g' c hc)

/-- The characters of a written address. -/
theorem mem_appendTo6 {ip : IP} (h : ip.length = 16) :
    ':' ∈ appendTo6 ip ∧ ∀ c ∈ appendTo6 ip, isHex c = true ∨ c = ':' := by
  rcases appendTo6_eq h with heq | ⟨zeroStart, zeroEnd, -, heq⟩
  · have hlen := (groups_spec (n := 8) h).1
    rw [heq]
    refine ⟨?_, mem_colons⟩
    generalize groups ip = gs at hlen
    rcases gs with - | ⟨g, - | ⟨g', gs⟩⟩
    · cases hlen
    · cases hlen
    · rw [colons_cons_cons]
      exact List.mem_append_right _ List.mem_cons_self
  · rw [heq]
    refine ⟨List.mem_append_right _ List.mem_cons_self, fun c hc => ?_⟩
    rcases List.mem_append.mp hc with hc | hc
    · exact mem_colons c hc
    · rcases List.mem_cons.mp hc with rfl | hc
      · exact Or.inr rfl
      · rcases List.mem_cons.mp hc with rfl | hc
        · exact Or.inr rfl
        · exact mem_colons c hc

/-- What follows the ellipsis: nothing, or the groups up to the end. -/
theorem expand_after {n : ℕ} {ip : IP} {e : ℕ} (hgs : ∀ g ∈ gs, g < 65536) (hn : gs.length ≤ n) :
    (if colons gs = [] then expand (ip, some e, [])
      else (parseGroups n ip (some e) (colons gs)).bind expand) =
      expand (ip ++ gs.flatMap groupBytes, some e, []) := by
  by_cases hnil : gs = []
  · subst hnil
    rw [colons, if_pos rfl, List.flatMap_nil, List.append_nil]
  · obtain ⟨c, s, hc, -⟩ := colons_ne_nil hnil
    have hne : colons gs ≠ [] := hc ▸ List.cons_ne_nil c s
    rw [if_neg hne, parseGroups_colons hnil hgs hn, Option.bind_some]

/-- A written address is read back. -/
theorem parseIPv6_appendTo6 {ip : IP} (h : ip.length = 16) :
    parseIPv6 (appendTo6 ip) = some (ip, []) := by
  obtain ⟨hlen, hbound, hbytes⟩ := groups_spec (n := 8) h
  have hchars := (mem_appendTo6 h).2
  have hzone : '%' ∉ appendTo6 ip := fun hmem => by
    rcases hchars _ hmem with hhex | hcolon
    · exact absurd hhex (by decide)
    · exact absurd hcolon (by decide)
  rw [parseIPv6_eq hzone]
  rcases appendTo6_eq h with heq | ⟨zeroStart, zeroEnd, hrun, heq⟩
  · have hne : groups ip ≠ [] := List.ne_nil_of_length_eq_add_one hlen
    have hstart := not_ellipsis_colons hne []
    rw [List.append_nil] at hstart
    rw [heq, if_neg hstart, parseGroups_colons hne hbound hlen.le, hbytes, List.nil_append,
      Option.bind_some]
    unfold expand
    dsimp only
    rw [if_neg (not_not_intro rfl), if_neg (by omega)]
    rfl
  · have hexpand := expand_zeroRun h hrun
    obtain ⟨hlong, hend, -⟩ := hrun
    have hbefore : ∀ g ∈ (groups ip).take zeroStart, g < 65536 := fun g hg =>
      hbound g (List.mem_of_mem_take hg)
    have hafter : ∀ g ∈ (groups ip).drop zeroEnd, g < 65536 := fun g hg =>
      hbound g (List.mem_of_mem_drop hg)
    have hlenBefore := List.length_take_le zeroStart (groups ip)
    have hlenAfter : ((groups ip).drop zeroEnd).length = 8 - zeroEnd := by
      rw [List.length_drop, hlen]
    rw [heq]
    generalize (groups ip).take zeroStart = before at *
    generalize (groups ip).drop zeroEnd = after at *
    by_cases hfirst : before = []
    · subst hfirst
      have hstart : [':', ':'].isPrefixOf (':' :: ':' :: colons after) = true := rfl
      have hdrop : (':' :: ':' :: colons after).drop 2 = colons after := rfl
      have hzeros : expand ([], some 0, []) = some (List.replicate 16 0) := rfl
      rw [colons, List.nil_append, if_pos hstart, hdrop, ← hzeros, expand_after hafter (by omega)]
      exact congrArg (Option.map fun ip => (ip, [])) hexpand
    · rw [if_neg (not_ellipsis_colons hfirst _),
        parseGroups_colons_ellipsis hfirst hbefore (by omega),
        apply_ite (Option.bind · expand), Option.bind_some, expand_after hafter (by omega), hexpand]
      rfl

theorem to4_eq_none_of_length {ip : IP} (h : to4 ip = none) (hlen : ip.length = 4 ∨ ip.length = 16) :
    ip.length = 16 := by
  rcases hlen with hfour | hlen
  · unfold to4 at h
    rw [if_pos hfour] at h
    cases h
  · exact hlen

/-- The 16 bytes of an address. -/
def to16 (ip : IP) : IP := if ip.length = 4 then v4InV6Prefix ++ ip else ip

theorem to4_some {ip v4 : IP} (h : to4 ip = some v4) : v4.length = 4 ∧ to16 ip = v4InV6Prefix ++ v4 := by
  unfold to4 at h
  unfold to16
  by_cases hfour : ip.length = 4
  · rw [if_pos hfour] at h ⊢
    obtain rfl := Option.some.inj h
    exact ⟨hfour, rfl⟩
  · rw [if_neg hfour] at h ⊢
    split at h
    · rename_i hmapped
      obtain rfl := Option.some.inj h
      refine ⟨by rw [List.length_drop]; omega, ?_⟩
      nth_rewrite 1 [← List.take_append_drop 12 ip]
      rw [hmapped.2]
    · cases h

/-- `ParseIP` reads what `String` writes. -/
theorem parseIP_string {ip : IP} (hlen : ip.length = 4 ∨ ip.length = 16) :
    parseIP (string ip) = some (to16 ip) := by
  unfold string
  cases hto4 : to4 ip with
  | some v4 =>
    obtain ⟨hfour, hip⟩ := to4_some hto4
    rw [hip]
    exact parseIP_string4 hfour
  | none =>
    have hlen := to4_eq_none_of_length hto4 hlen
    obtain ⟨hcolon, hchars⟩ := mem_appendTo6 hlen
    have hfind := find?_of_only hcolon (by decide) fun e he hkind => by
      rcases hchars e he with hhex | hcolon
      · simp only [List.mem_cons, List.not_mem_nil, or_false] at hkind
        rcases hkind with rfl | rfl | rfl
        · exact absurd hhex (by decide)
        · rfl
        · exact absurd hhex (by decide)
      · exact hcolon
    unfold parseIP parseAddr to16
    dsimp only
    rw [hfind, parseIPv6_appendTo6 hlen, if_neg (by omega)]
    rfl

end RoundTrip

end VyosClient.IpText
