import VyosClient.IpText

/-!
The key under which the login attempts of a client are counted. `RemoteAddr` is an address and a
port; the key is the IPv4 address, or the /64 of an IPv6 address. An address with a zone is no IP to
the standard library, and the text before its port is the key.
-/

namespace VyosClient.SourceKey

open IpText Separators

/-- `net.JoinHostPort`. -/
def joinHostPort (host port : Text) : Text :=
  if ':' ∈ host then '[' :: (host ++ ']' :: ':' :: port) else host ++ ':' :: port

def lastIndexByte (s : Text) (c : Char) : Option ℕ :=
  (s.reverse.idxOf? c).map fun i => s.length - 1 - i

/-- `net.SplitHostPort`. -/
def splitHostPort (hostport : Text) : Option (Text × Text) :=
  match lastIndexByte hostport ':' with
  | none => none
  | some i =>
    if hostport.head? = some '[' then
      match hostport.idxOf? ']' with
      | none => none
      | some last =>
        -- the first bracket that closes stands just before the last colon
        if last + 1 ≠ i then none
        else if '[' ∈ hostport.drop 1 then none
        else if ']' ∈ hostport.drop (last + 1) then none
        else some ((hostport.take last).drop 1, hostport.drop (i + 1))
    else
      let host := hostport.take i
      if ':' ∈ host then none
      else if '[' ∈ hostport then none
      else if ']' ∈ hostport then none
      else some (host, hostport.drop (i + 1))

/-- `net.CIDRMask`, of whole bytes. -/
def cidrMask (ones bits : ℕ) : List UInt8 :=
  List.replicate (ones / 8) 255 ++ List.replicate ((bits - ones) / 8) 0

/-- `IP.Mask`, of an address and a mask of one length. -/
def mask (ip : IP) (m : List UInt8) : IP := List.zipWith (· &&& ·) ip m

def sourceKey (remoteAddr : Text) : Text :=
  match splitHostPort remoteAddr with
  | none => remoteAddr
  | some (host, _) =>
    match parseIP host with
    | none => host
    | some ip =>
      match to4 ip with
      | some v4 => string v4
      | none => string (mask ip (cidrMask 64 128))

/-- A peer by any text that denotes its address. Only an IPv6 address can have a zone. -/
structure Peer where
  host : Text
  ip : IP
  parse_host : parseIP host = some ip
  zone : Text
  zone_v6 : zone ≠ [] → to4 ip = none
  port : ℕ

/-- The text of an address and its zone, which is empty where there is none. -/
def zoned (host zone : Text) : Text := if zone = [] then host else host ++ '%' :: zone

def Peer.remoteAddr (p : Peer) : Text := joinHostPort (zoned p.host p.zone) (Nat.toDigits 10 p.port)

/-- The address of a connection, with 4 or 16 bytes. -/
structure TCPAddr where
  ip : IP
  length_ip : ip.length = 4 ∨ ip.length = 16
  zone : Text
  zone_v6 : zone ≠ [] → to4 ip = none
  port : ℕ

/-- `TCPAddr.String`, which the server takes for `RemoteAddr`. -/
def TCPAddr.string (a : TCPAddr) : Text :=
  let host := IpText.string a.ip
  if a.zone ≠ [] then joinHostPort (host ++ '%' :: a.zone) (Nat.toDigits 10 a.port)
  else joinHostPort host (Nat.toDigits 10 a.port)

/-- The same IPv4 address, or IPv6 addresses in the same /64. -/
def SameHost (ip ip' : IP) : Prop :=
  (to4 ip ≠ none ∧ to4 ip' = to4 ip) ∨
    (to4 ip = none ∧ to4 ip' = none ∧ ip.take 8 = ip'.take 8)

instance (ip ip' : IP) : Decidable (SameHost ip ip') := inferInstanceAs (Decidable (_ ∨ _))

section Split

theorem lastIndexByte_append_cons (s : Text) {c : Char} {t : Text} (h : c ∉ t) :
    lastIndexByte (s ++ c :: t) c = some s.length := by
  have hrev : (s ++ c :: t).reverse = t.reverse ++ c :: s.reverse := by
    rw [List.reverse_append, List.reverse_cons, List.append_assoc]
    rfl
  have hmem : c ∉ t.reverse := fun hmem => h (List.mem_reverse.mp hmem)
  unfold lastIndexByte
  rw [hrev, idxOf?_append_cons hmem, Option.map_some, List.length_reverse, List.length_append,
    List.length_cons]
  congr 1
  omega

variable {host port : Text}

theorem lastIndexByte_brackets (host : Text) (hport : ':' ∉ port) :
    lastIndexByte ('[' :: (host ++ ']' :: ':' :: port)) ':' = some (host.length + 2) := by
  have hsplit : '[' :: (host ++ ']' :: ':' :: port) = ('[' :: (host ++ [']'])) ++ ':' :: port := by
    rw [List.cons_append, List.append_assoc]
    rfl
  rw [hsplit, lastIndexByte_append_cons _ hport, List.length_cons, List.length_append]
  rfl

/-- A bracket that closes before the last one stops the split. -/
theorem splitHostPort_closing (host : Text) (hport : ':' ∉ port) (hclose : ']' ∈ host) :
    splitHostPort ('[' :: (host ++ ']' :: ':' :: port)) = none := by
  unfold splitHostPort
  rw [lastIndexByte_brackets host hport]
  dsimp only
  rw [List.head?_cons, if_pos rfl]
  obtain ⟨before, after, rfl, hfirst⟩ := List.eq_append_cons_of_mem hclose
  have hnot : ']' ∉ '[' :: before := List.not_mem_cons_of_ne_of_not_mem (by decide) hfirst
  have hidx := idxOf?_append_cons hnot (after ++ ']' :: ':' :: port)
  rw [List.append_assoc, List.cons_append, ← List.cons_append, hidx]
  refine if_pos ?_
  simp only [List.length_cons, List.length_append]
  omega

/-- In brackets, what is before the port comes back when it has no bracket of its own. -/
theorem splitHostPort_brackets (host : Text) (hport : ∀ c ∈ [':', '[', ']'], c ∉ port) :
    splitHostPort ('[' :: (host ++ ']' :: ':' :: port)) =
      if ']' ∈ host ∨ '[' ∈ host then none else some (host, port) := by
  have hcolonPort := hport ':' (by decide)
  have hopenPort := hport '[' (by decide)
  have hclosePort := hport ']' (by decide)
  by_cases hclose : ']' ∈ host
  · rw [splitHostPort_closing host hcolonPort hclose, if_pos (Or.inl hclose)]
  · have hnot : ']' ∉ '[' :: host := List.not_mem_cons_of_ne_of_not_mem (by decide) hclose
    have hidx := idxOf?_append_cons hnot (':' :: port)
    have htake : ('[' :: host ++ ']' :: ':' :: port).take ('[' :: host).length = '[' :: host :=
      List.take_left
    have hafter : ('[' :: host ++ ']' :: ':' :: port).drop (('[' :: host).length + 1) =
        ':' :: port := by
      rw [← List.drop_drop, List.drop_left]
      rfl
    have hrest : ('[' :: host ++ ']' :: ':' :: port).drop (host.length + 2 + 1) = port := by
      have hlen : host.length + 2 + 1 = ('[' :: host).length + 1 + 1 := rfl
      rw [hlen, ← List.drop_drop, hafter]
      rfl
    have hmem : '[' ∈ ('[' :: host ++ ']' :: ':' :: port).drop 1 ↔ '[' ∈ host := by
      have hdrop : ('[' :: host ++ ']' :: ':' :: port).drop 1 = host ++ ']' :: ':' :: port := rfl
      rw [hdrop, List.mem_append, List.mem_cons, List.mem_cons]
      exact ⟨fun h => h.resolve_right fun h => h.elim (by decide) fun h => h.elim (by decide) hopenPort,
        Or.inl⟩
    have hplace : ('[' :: host).length + 1 = host.length + 2 := rfl
    unfold splitHostPort
    rw [lastIndexByte_brackets host hcolonPort]
    dsimp only
    rw [List.head?_cons, if_pos rfl, ← List.cons_append, hidx]
    dsimp only
    rw [if_neg (not_not_intro hplace), htake, hafter, hrest]
    by_cases hopen : '[' ∈ host
    · rw [if_pos (hmem.mpr hopen), if_pos (Or.inr hopen)]
    · have hdone : ']' ∉ ':' :: port := List.not_mem_cons_of_ne_of_not_mem (by decide) hclosePort
      rw [if_neg fun h => hopen (hmem.mp h), if_neg hdone, if_neg (not_or.mpr ⟨hclose, hopen⟩)]
      rfl

theorem splitHostPort_plain (hcolon : ':' ∉ host) (hopen : '[' ∉ host) (hclose : ']' ∉ host)
    (hport : ∀ c ∈ [':', '[', ']'], c ∉ port) :
    splitHostPort (host ++ ':' :: port) = some (host, port) := by
  have hlast := lastIndexByte_append_cons host (hport ':' (by decide))
  have hnot (c : Char) (hhost : c ∉ host) (hne : c ≠ ':') (hc : c ∉ port) : c ∉ host ++ ':' :: port :=
    fun hmem => (List.mem_append.mp hmem).elim hhost
      (List.not_mem_cons_of_ne_of_not_mem hne hc)
  have hnotOpen := hnot '[' hopen (by decide) (hport '[' (by decide))
  have hnotClose := hnot ']' hclose (by decide) (hport ']' (by decide))
  have hrest : (host ++ ':' :: port).drop (host.length + 1) = port := by
    rw [← List.drop_drop, List.drop_left]
    rfl
  have hhead : (host ++ ':' :: port).head? ≠ some '[' := fun h => hnotOpen (List.mem_of_mem_head? h)
  unfold splitHostPort
  rw [hlast]
  dsimp only
  rw [if_neg hhead, List.take_left, hrest, if_neg hcolon,
    if_neg hnotOpen, if_neg hnotClose]

/-- A host without brackets is split off again. -/
theorem splitHostPort_joinHostPort (hopen : '[' ∉ host) (hclose : ']' ∉ host)
    (hport : ∀ c ∈ [':', '[', ']'], c ∉ port) :
    splitHostPort (joinHostPort host port) = some (host, port) := by
  unfold joinHostPort
  by_cases hcolon : ':' ∈ host
  · rw [if_pos hcolon, splitHostPort_brackets host hport, if_neg (not_or.mpr ⟨hclose, hopen⟩)]
  · rw [if_neg hcolon, splitHostPort_plain hcolon hopen hclose hport]

theorem notMem_port (port : ℕ) : ∀ c ∈ [':', '[', ']'], c ∉ Nat.toDigits 10 port := by
  intro c hc hmem
  have hdigit := Nat.isDigit_of_mem_toDigits (by decide) (by decide) hmem
  simp only [List.mem_cons, List.not_mem_nil, or_false] at hc
  rcases hc with rfl | rfl | rfl
  · exact absurd hdigit (by decide)
  · exact absurd hdigit (by decide)
  · exact absurd hdigit (by decide)

end Split

section HostKey

/-- What is counted for an address without a zone. -/
def hostKey (ip : IP) : Text :=
  match to4 ip with
  | some v4 => string v4
  | none => string (mask ip (cidrMask 64 128))

/-- The address that a key without a zone denotes. -/
def network (ip : IP) : IP :=
  match to4 ip with
  | some v4 => v4InV6Prefix ++ v4
  | none => ip.take 8 ++ List.replicate 8 0

theorem mask_cidrMask {ip : IP} (h : ip.length = 16) :
    mask ip (cidrMask 64 128) = ip.take 8 ++ List.replicate 8 0 := by
  have hones (bytes : IP) : List.zipWith (· &&& ·) bytes (List.replicate bytes.length 255) = bytes := by
    induction bytes with
    | nil => rfl
    | cons b bytes ih =>
      rw [List.length_cons, List.replicate_succ, List.zipWith_cons_cons, ih]
      exact congrArg (· :: bytes) UInt8.and_neg_one
  have hzeros (bytes : IP) : List.zipWith (· &&& ·) bytes (List.replicate bytes.length 0) =
      List.replicate bytes.length 0 := by
    induction bytes with
    | nil => rfl
    | cons b bytes ih =>
      rw [List.length_cons, List.replicate_succ, List.zipWith_cons_cons, ih, UInt8.and_zero]
  have hfirst : (ip.take 8).length = 8 := by
    rw [List.length_take]
    omega
  have hlast : (ip.drop 8).length = 8 := by
    rw [List.length_drop]
    omega
  unfold mask cidrMask
  nth_rewrite 1 [← List.take_append_drop 8 ip]
  rw [List.zipWith_append (by rw [hfirst]; rfl)]
  have hfront := hones (ip.take 8)
  have hback := hzeros (ip.drop 8)
  rw [hfirst] at hfront
  rw [hlast] at hback
  exact congrArg₂ (· ++ ·) hfront hback

theorem to4_network64 (front : IP) (h : front.length = 8) :
    to4 (front ++ List.replicate 8 0) = none := by
  have hlen : (front ++ List.replicate 8 0).length = 16 := by
    rw [List.length_append, h]
    rfl
  unfold to4
  rw [if_neg (by omega), if_neg]
  intro hmapped
  have hten : ((front ++ List.replicate 8 0).take 12)[10]? = v4InV6Prefix[10]? := by
    rw [hmapped.2]
  rw [List.getElem?_take_of_lt (by decide), List.getElem?_append_right (by omega), h] at hten
  exact absurd hten (by decide)

theorem length_network {ip : IP} (h : ip.length = 16) : (network ip).length = 16 := by
  unfold network
  cases hto4 : to4 ip with
  | some v4 =>
    dsimp only
    rw [List.length_append, (to4_some hto4).1]
    rfl
  | none =>
    dsimp only
    rw [List.length_append, List.length_take, List.length_replicate]
    omega

theorem to4_network {ip : IP} (h : ip.length = 16) : to4 (network ip) = to4 ip := by
  unfold network
  cases hto4 : to4 ip with
  | some v4 => exact to4_v4InV6 (to4_some hto4).1
  | none =>
    refine to4_network64 (ip.take 8) ?_
    rw [List.length_take]
    omega

/-- A key is the text of the network that it is for. -/
theorem hostKey_eq {ip : IP} (h : ip.length = 16) : hostKey ip = string (network ip) := by
  have hnetwork := to4_network h
  unfold hostKey
  cases hto4 : to4 ip with
  | some v4 =>
    have hfour : to4 v4 = some v4 := if_pos (to4_some hto4).1
    rw [hto4] at hnetwork
    unfold string
    rw [hnetwork]
    dsimp only
    rw [hfour]
  | none =>
    unfold network
    rw [hto4]
    exact congrArg string (mask_cidrMask h)

theorem parseIP_string16 {ip : IP} (h : ip.length = 16) : parseIP (string ip) = some ip := by
  rw [parseIP_string (Or.inr h), to16, if_neg (by omega)]

theorem string_inj {ip ip' : IP} (h : ip.length = 16) (h' : ip'.length = 16)
    (heq : string ip = string ip') : ip = ip' := by
  have hread := parseIP_string16 h
  rw [heq, parseIP_string16 h'] at hread
  exact (Option.some.inj hread).symm

theorem network_eq_iff {ip ip' : IP} (h : ip.length = 16) (h' : ip'.length = 16) :
    network ip = network ip' ↔ SameHost ip ip' := by
  constructor
  · intro heq
    have hto4 : to4 ip' = to4 ip := by rw [← to4_network h, heq, to4_network h']
    cases hsome : to4 ip with
    | some v4 => exact Or.inl ⟨Option.ne_none_iff_exists'.mpr ⟨v4, hsome⟩, hto4⟩
    | none =>
      unfold network at heq
      rw [hto4, hsome] at heq
      exact Or.inr ⟨hsome, hto4.trans hsome, List.append_cancel_right heq⟩
  · intro hsame
    unfold network
    rcases hsame with ⟨hv4, hto4⟩ | ⟨hnone, hnone', hfront⟩
    · obtain ⟨v4, hsome⟩ := Option.ne_none_iff_exists'.mp hv4
      rw [hto4, hsome]
    · rw [hnone, hnone', hfront]

/-- Two addresses have one key exactly when they are one host. -/
theorem hostKey_eq_iff {ip ip' : IP} (h : ip.length = 16) (h' : ip'.length = 16) :
    hostKey ip = hostKey ip' ↔ SameHost ip ip' := by
  rw [hostKey_eq h, hostKey_eq h', ← network_eq_iff h h']
  exact ⟨string_inj (length_network h) (length_network h'), congrArg string⟩

end HostKey

section Peers

instance (c : Char) : Decidable (AddrChar c) := inferInstanceAs (Decidable (_ ∨ _ ∨ _))

namespace Peer

variable (p : Peer)

theorem addrChar_host : ∀ c ∈ p.host, AddrChar c := (parseIP_some p.parse_host).2.1

theorem notMem_host {c : Char} (hc : ¬AddrChar c) : c ∉ p.host := fun hmem => hc (p.addrChar_host c hmem)

theorem sourceKey_of_split {host : Text} (hopen : '[' ∉ host) (hclose : ']' ∉ host) :
    sourceKey (joinHostPort host (Nat.toDigits 10 p.port)) = (parseIP host).elim host hostKey := by
  unfold sourceKey
  rw [splitHostPort_joinHostPort hopen hclose (notMem_port p.port)]
  dsimp only
  cases parseIP host with
  | none => rfl
  | some ip => rfl

/-- Without a zone the key is that of the address. -/
theorem sourceKey_plain (hzone : p.zone = []) : sourceKey p.remoteAddr = hostKey p.ip := by
  unfold remoteAddr zoned
  rw [if_pos hzone]
  rw [p.sourceKey_of_split (p.notMem_host (by decide)) (p.notMem_host (by decide)), p.parse_host]
  rfl

/-- Whether `SplitHostPort` stops at a bracket of the zone. -/
def Bracketed (zone : Text) : Prop := ']' ∈ zone ∨ '[' ∈ zone

instance (zone : Text) : Decidable (Bracketed zone) := inferInstanceAs (Decidable (_ ∨ _))

theorem parseIP_zoned : parseIP (p.host ++ '%' :: p.zone) = none := by
  cases hread : parseIP (p.host ++ '%' :: p.zone) with
  | none => rfl
  | some ip =>
    have hchar := (parseIP_some hread).2.1 '%' (List.mem_append_right _ List.mem_cons_self)
    exact absurd hchar (by decide)

theorem mem_zoned {c : Char} (hc : ¬AddrChar c) (hne : c ≠ '%') :
    c ∈ p.host ++ '%' :: p.zone ↔ c ∈ p.zone := by
  rw [List.mem_append, List.mem_cons]
  exact ⟨fun h => (h.resolve_left (p.notMem_host hc)).resolve_left hne, fun h => Or.inr (Or.inr h)⟩

/-- With a zone the key is the text before the port. -/
theorem sourceKey_zoned (hzone : p.zone ≠ []) (hbracket : ¬Bracketed p.zone) :
    sourceKey p.remoteAddr = p.host ++ '%' :: p.zone := by
  obtain ⟨hclose, hopen⟩ := not_or.mp hbracket
  unfold remoteAddr zoned
  rw [if_neg hzone, p.sourceKey_of_split (fun h => hopen ((p.mem_zoned (by decide) (by decide)).mp h))
    (fun h => hclose ((p.mem_zoned (by decide) (by decide)).mp h)), p.parseIP_zoned]
  rfl

theorem remoteAddr_zoned (hzone : p.zone ≠ []) : p.remoteAddr =
    '[' :: ((p.host ++ '%' :: p.zone) ++ ']' :: ':' :: Nat.toDigits 10 p.port) := by
  have hcolon := (parseIP_some p.parse_host).2.2.2 (p.zone_v6 hzone)
  unfold remoteAddr zoned joinHostPort
  rw [if_neg hzone, if_pos (List.mem_append_left _ hcolon)]

/-- A zone with a bracket makes the whole text the key, with its port. -/
theorem sourceKey_bracketed (hzone : p.zone ≠ []) (hbracket : Bracketed p.zone) :
    sourceKey p.remoteAddr = p.remoteAddr := by
  have hmem : ']' ∈ p.host ++ '%' :: p.zone ∨ '[' ∈ p.host ++ '%' :: p.zone := by
    rw [p.mem_zoned (by decide) (by decide), p.mem_zoned (by decide) (by decide)]
    exact hbracket
  have hsplit := splitHostPort_brackets (p.host ++ '%' :: p.zone) (notMem_port p.port)
  rw [if_pos hmem, ← p.remoteAddr_zoned hzone] at hsplit
  unfold sourceKey
  rw [hsplit]

theorem percent_notMem_hostKey : '%' ∉ hostKey p.ip := by
  have hlen := (parseIP_some p.parse_host).1
  intro hmem
  rw [hostKey_eq hlen] at hmem
  have hread := parseIP_string16 (length_network hlen)
  exact absurd ((parseIP_some hread).2.1 '%' hmem) (by decide)

theorem percent_mem_sourceKey (hzone : p.zone ≠ []) : '%' ∈ sourceKey p.remoteAddr := by
  have hmem : '%' ∈ p.host ++ '%' :: p.zone := List.mem_append_right _ List.mem_cons_self
  by_cases hbracket : Bracketed p.zone
  · rw [p.sourceKey_bracketed hzone hbracket, p.remoteAddr_zoned hzone]
    exact List.mem_cons_of_mem _ (List.mem_append_left _ hmem)
  · rw [p.sourceKey_zoned hzone hbracket]
    exact hmem

end Peer

variable {a b : Peer}

theorem zoned_inj : a.host ++ '%' :: a.zone = b.host ++ '%' :: b.zone ↔
    a.host = b.host ∧ a.zone = b.zone := by
  constructor
  · intro heq
    have hindex := congrArg (List.idxOf? '%') heq
    rw [idxOf?_append_cons (a.notMem_host (by decide)),
      idxOf?_append_cons (b.notMem_host (by decide))] at hindex
    obtain ⟨hhost, hzone⟩ := List.append_inj heq (Option.some.inj hindex)
    exact ⟨hhost, (List.cons.inj hzone).2⟩
  · rintro ⟨hhost, hzone⟩
    rw [hhost, hzone]

theorem remoteAddr_inj (ha : a.zone ≠ []) (hb : b.zone ≠ []) : a.remoteAddr = b.remoteAddr ↔
    a.host = b.host ∧ a.zone = b.zone ∧ a.port = b.port := by
  rw [a.remoteAddr_zoned ha, b.remoteAddr_zoned hb]
  constructor
  · intro heq
    have hsplit (s : Text) (port : ℕ) : s ++ ']' :: ':' :: Nat.toDigits 10 port =
        (s ++ [']']) ++ ':' :: Nat.toDigits 10 port := by
      rw [List.append_assoc]
      rfl
    have htext := (List.cons.inj heq).2
    rw [hsplit, hsplit] at htext
    have hindex := congrArg (lastIndexByte · ':') htext
    rw [lastIndexByte_append_cons _ (notMem_port a.port ':' (by decide)),
      lastIndexByte_append_cons _ (notMem_port b.port ':' (by decide))] at hindex
    obtain ⟨hfront, hback⟩ := List.append_inj htext (Option.some.inj hindex)
    obtain ⟨hhost, hzone⟩ := zoned_inj.mp (List.append_cancel_right hfront)
    have hport : Nat.ofDigitChars 10 (Nat.toDigits 10 a.port) 0 =
        Nat.ofDigitChars 10 (Nat.toDigits 10 b.port) 0 := by
      rw [(List.cons.inj hback).2]
    rw [Nat.ofDigitChars_ten_toDigits, Nat.ofDigitChars_ten_toDigits] at hport
    exact ⟨hhost, hzone, hport⟩
  · rintro ⟨hhost, hzone, hport⟩
    rw [hhost, hzone, hport]

theorem remoteAddr_ne_zoned (ha : a.zone ≠ []) : a.remoteAddr ≠ b.host ++ '%' :: b.zone := by
  rw [a.remoteAddr_zoned ha]
  intro heq
  obtain ⟨c, host, hhost⟩ := List.exists_cons_of_ne_nil (parseIP_some b.parse_host).2.2.1
  rw [hhost] at heq
  have hchar := b.addrChar_host c (hhost ▸ List.mem_cons_self)
  rw [← (List.cons.inj heq).1] at hchar
  exact absurd hchar (by decide)

/-- What two addresses must share for one key where a zone is part of it. -/
def SameText (a b : Peer) : Prop :=
  a.host = b.host ∧ a.zone = b.zone ∧ (Peer.Bracketed a.zone → a.port = b.port)

theorem sourceKey_eq_iff_zoned (ha : a.zone ≠ []) (hb : b.zone ≠ []) :
    sourceKey a.remoteAddr = sourceKey b.remoteAddr ↔ SameText a b := by
  unfold SameText
  by_cases hbracketA : Peer.Bracketed a.zone
  · rw [a.sourceKey_bracketed ha hbracketA]
    by_cases hbracketB : Peer.Bracketed b.zone
    · rw [b.sourceKey_bracketed hb hbracketB, remoteAddr_inj ha hb, imp_iff_right hbracketA]
    · rw [b.sourceKey_zoned hb hbracketB]
      exact ⟨fun heq => absurd heq (remoteAddr_ne_zoned ha),
        fun h => absurd (h.2.1 ▸ hbracketA) hbracketB⟩
  · rw [a.sourceKey_zoned ha hbracketA]
    by_cases hbracketB : Peer.Bracketed b.zone
    · rw [b.sourceKey_bracketed hb hbracketB]
      exact ⟨fun heq => absurd heq.symm (remoteAddr_ne_zoned hb),
        fun h => absurd (h.2.1 ▸ hbracketB) hbracketA⟩
    · rw [b.sourceKey_zoned hb hbracketB, zoned_inj]
      exact ⟨fun h => ⟨h.1, h.2, fun hbracket => absurd hbracket hbracketA⟩, fun h => ⟨h.1, h.2.1⟩⟩

/-- When two peers are counted under one key. -/
theorem sourceKey_eq_iff : sourceKey a.remoteAddr = sourceKey b.remoteAddr ↔
    (a.zone = [] ∧ b.zone = [] ∧ SameHost a.ip b.ip) ∨ (a.zone ≠ [] ∧ SameText a b) := by
  by_cases ha : a.zone = []
  · by_cases hb : b.zone = []
    · rw [a.sourceKey_plain ha, b.sourceKey_plain hb,
        hostKey_eq_iff (parseIP_some a.parse_host).1 (parseIP_some b.parse_host).1]
      exact ⟨fun h => Or.inl ⟨ha, hb, h⟩, fun h => h.elim (·.2.2) fun h => absurd ha h.1⟩
    · rw [a.sourceKey_plain ha]
      constructor
      · exact fun heq => absurd (heq ▸ b.percent_mem_sourceKey hb) a.percent_notMem_hostKey
      · rintro (⟨-, hb', -⟩ | ⟨ha', -⟩)
        · exact absurd hb' hb
        · exact absurd ha ha'
  · by_cases hb : b.zone = []
    · rw [b.sourceKey_plain hb]
      constructor
      · exact fun heq => absurd (heq ▸ a.percent_mem_sourceKey ha) b.percent_notMem_hostKey
      · rintro (⟨ha', -⟩ | ⟨-, h⟩)
        · exact absurd ha' ha
        · exact absurd (h.2.1.trans hb) ha
    · rw [sourceKey_eq_iff_zoned ha hb]
      exact ⟨fun h => Or.inr ⟨ha, h⟩, fun h => h.elim (fun h => absurd h.1 ha) (·.2)⟩

theorem SameHost.refl (ip : IP) : SameHost ip ip := by
  by_cases hnone : to4 ip = none
  · exact Or.inr ⟨hnone, hnone, rfl⟩
  · exact Or.inl ⟨hnone, rfl⟩

/-- Keys identify hosts between two peers exactly when, if they are one host, neither has a zone or
both are written with the same address and zone, and the same port if the zone has a bracket. -/
theorem key_identifies_host_iff (a b : Peer) :
    (sourceKey a.remoteAddr = sourceKey b.remoteAddr ↔ SameHost a.ip b.ip) ↔
      (SameHost a.ip b.ip → (a.zone = [] ∧ b.zone = []) ∨ SameText a b) := by
  rw [sourceKey_eq_iff]
  constructor
  · intro hiff hsame
    rcases hiff.mpr hsame with ⟨ha, hb, -⟩ | ⟨-, htext⟩
    · exact Or.inl ⟨ha, hb⟩
    · exact Or.inr htext
  · intro hcond
    constructor
    · rintro (⟨-, -, hsame⟩ | ⟨-, htext⟩)
      · exact hsame
      · have hip := a.parse_host
        rw [htext.1, b.parse_host] at hip
        rw [Option.some.inj hip]
        exact SameHost.refl a.ip
    · intro hsame
      rcases hcond hsame with ⟨ha, hb⟩ | htext
      · exact Or.inl ⟨ha, hb, hsame⟩
      · by_cases ha : a.zone = []
        · exact Or.inl ⟨ha, htext.2.1 ▸ ha, hsame⟩
        · exact Or.inr ⟨ha, htext⟩

/-- The peer that the server names by the address of a connection. -/
def TCPAddr.peer (a : TCPAddr) : Peer where
  host := IpText.string a.ip
  ip := to16 a.ip
  parse_host := parseIP_string a.length_ip
  zone := a.zone
  zone_v6 hzone := by
    have hnone := a.zone_v6 hzone
    unfold to16
    rw [if_neg (by have := to4_eq_none_of_length hnone a.length_ip; omega)]
    exact hnone
  port := a.port

theorem TCPAddr.remoteAddr_peer (a : TCPAddr) : a.peer.remoteAddr = a.string := by
  unfold TCPAddr.string Peer.remoteAddr zoned
  by_cases hzone : a.zone = []
  · have hpeer : a.peer.zone = [] := hzone
    rw [if_pos hpeer, if_neg (not_not_intro hzone)]
    rfl
  · have hpeer : a.peer.zone ≠ [] := hzone
    rw [if_neg hpeer, if_pos hzone]
    rfl

end Peers

/-- A host that moves to another address of its /64, on the same interface. -/
def linkLocal (last : UInt8) (port : ℕ) : TCPAddr where
  ip := [0xfe, 0x80, 0, 0, 0, 0, 0, 0, 0, 0, 0, 0, 0, 0, 0, last]
  length_ip := Or.inr rfl
  zone := "eth0".toList
  zone_v6 := fun _ => rfl
  port := port

/-- The two addresses are in one /64, but each is a key of its own. -/
theorem linkLocal_two_keys :
    (linkLocal 1 40000).string = "[fe80::1%eth0]:40000".toList ∧
    (linkLocal 2 40001).string = "[fe80::2%eth0]:40001".toList ∧
    SameHost (linkLocal 1 40000).ip (linkLocal 2 40001).ip ∧
    sourceKey (linkLocal 1 40000).string ≠ sourceKey (linkLocal 2 40001).string := by
  decide +kernel

end VyosClient.SourceKey
