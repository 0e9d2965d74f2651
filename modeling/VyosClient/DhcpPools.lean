import Mathlib.Data.Finset.Card
import Mathlib.Order.Interval.Finset.Nat
import VyosClient.FormTables
import VyosClient.Separators

/-!
The dynamic ranges of a DHCP pool. The page shows how large a pool is by adding
up its ranges, and warns of static addresses that lie in one and are not
excluded. The sum counts the excluded ones as well, and those in two ranges
twice: it is the number of addresses that the warning knows of exactly when
there are none of either kind.
-/

namespace VyosClient.DhcpPools

open FormDiff FormTables

/-- One turn of the loop of `ipv4ToInt`; the test is `/^\d{1,3}$/`. -/
def addOctet (result : ℕ) (part : List Char) : Option ℕ :=
  if part = [] ∨ 3 < part.length ∨ ¬ part.all Char.isDigit then none
  else
    let octet := Nat.ofDigitChars 10 part 0
    if 255 < octet then none else some (result * 256 + octet)

def ipv4ToInt (address : String) : Option ℕ :=
  let parts := (trim address).toList.splitOn '.'
  if parts.length ≠ 4 then none else parts.foldlM addOctet 0

def ipv4RangeSize (start stop : String) : ℕ :=
  match ipv4ToInt start, ipv4ToInt stop with
  | some startInt, some stopInt => if stopInt < startInt then 0 else stopInt - startInt + 1
  | _, _ => 0

def isValidIpv4 (address : String) : Bool := (ipv4ToInt address).isSome

def isIpv4InRange (address start stop : String) : Bool :=
  match ipv4ToInt address, ipv4ToInt start, ipv4ToInt stop with
  | some addrInt, some startInt, some stopInt => startInt ≤ addrInt ∧ addrInt ≤ stopInt
  | _, _, _ => false

structure DHCPRange where
  id : String
  start : Option String
  stop : Option String
deriving DecidableEq, Repr

structure DHCPSubnet where
  cidr : String
  ranges : List DHCPRange
  excludes : List String
deriving DecidableEq, Repr

structure DHCPSharedNetwork where
  name : String
  subnets : List DHCPSubnet
deriving DecidableEq, Repr

structure DHCPLease where
  ipAddress : String
  pool : String
deriving DecidableEq, Repr

/-- The percentage, which is rounded from a floating point quotient, is not part of it. -/
structure PoolUtilization where
  size : ℕ
  leased : ℕ
  available : ℕ
deriving DecidableEq, Repr

/-- The term of one range in the sum. -/
def rangeSize (range : DHCPRange) : ℕ :=
  match range.start, range.stop with
  | some start, some stop => if start = "" ∨ stop = "" then 0 else ipv4RangeSize start stop
  | _, _ => 0

def totalSize (ranges : List DHCPRange) : ℕ :=
  ranges.foldl (fun sum range => sum + rangeSize range) 0

def computePoolUtilization (network : DHCPSharedNetwork) (leases : List DHCPLease) :
    PoolUtilization :=
  let size := totalSize (network.subnets.flatMap DHCPSubnet.ranges)
  let leased := (leases.filter (·.pool = network.name)).length
  { size := size, leased := leased, available := max (size - leased) 0 }

def inRange (address : String) (range : DHCPRange) : Bool :=
  match range.start, range.stop with
  | some start, some stop => isIpv4InRange address start stop
  | _, _ => false

def isAddressInDynamicRange (address : String) (subnet : DHCPSubnet) : Bool :=
  let trimmed := trim address
  if trimmed = "" ∨ subnet.excludes.any (fun ex => trim ex = trimmed) then false
  else subnet.ranges.any (inRange trimmed)

def octets (a : ℕ) : List ℕ := [a / 16777216 % 256, a / 65536 % 256, a / 256 % 256, a % 256]

/-- An address in dotted decimals. -/
def dotted (a : ℕ) : String :=
  String.ofList (['.'].intercalate ((octets a).map (Nat.toDigits 10)))

/-- The addresses in the ranges of a network. -/
def Ranged (network : DHCPSharedNetwork) (a : ℕ) : Prop :=
  a < 2 ^ 32 ∧ ∃ subnet ∈ network.subnets, ∃ range ∈ subnet.ranges, inRange (dotted a) range = true

/-- The addresses that the warning finds in a network. -/
def Dynamic (network : DHCPSharedNetwork) (a : ℕ) : Prop :=
  a < 2 ^ 32 ∧ ∃ subnet ∈ network.subnets, isAddressInDynamicRange (dotted a) subnet = true

/-- The addresses that each subnet excludes which has them in a range. -/
def Excluded (network : DHCPSharedNetwork) (a : ℕ) : Prop :=
  Ranged network a ∧ ∀ subnet ∈ network.subnets,
    (∃ range ∈ subnet.ranges, inRange (dotted a) range = true) →
      ∃ ex ∈ subnet.excludes, trim ex = dotted a

/-- No address lies in both ranges. -/
def Separate (r r' : DHCPRange) : Prop :=
  ∀ a < 2 ^ 32, ¬ (inRange (dotted a) r = true ∧ inRange (dotted a) r' = true)

/-- The leases of the pool, which the count is of. -/
def leasesOf (network : DHCPSharedNetwork) (leases : List DHCPLease) : List DHCPLease :=
  leases.filter (·.pool = network.name)

/-- Each lease of the pool has an address of its own in the ranges, excluded or not. -/
structure Leased (network : DHCPSharedNetwork) (leases : List DHCPLease) : Prop where
  nodup : ((leasesOf network leases).map fun l => ipv4ToInt l.ipAddress).Nodup
  ranged : ∀ l ∈ leasesOf network leases, ∃ a, ipv4ToInt l.ipAddress = some a ∧ Ranged network a

/-- The addresses of one range, by their numbers. -/
def addresses (range : DHCPRange) : Finset ℕ :=
  match range.start.bind ipv4ToInt, range.stop.bind ipv4ToInt with
  | some startInt, some stopInt => Finset.Icc startInt stopInt
  | _, _ => ∅

/-- The addresses of some ranges together. -/
def covered : List DHCPRange → Finset ℕ
  | [] => ∅
  | range :: rest => addresses range ∪ covered rest

section Texts

theorem addOctet_toDigits (result : ℕ) {n : ℕ} (h : n < 256) :
    addOctet result (Nat.toDigits 10 n) = some (result * 256 + n) := by
  have hlength : (Nat.toDigits 10 n).length ≤ 3 :=
    (Nat.length_toDigits_le_iff (by decide) (by decide)).mpr (by omega)
  have hdigits : (Nat.toDigits 10 n).all Char.isDigit = true :=
    List.all_eq_true.mpr fun c hc => Nat.isDigit_of_mem_toDigits (by decide) (by decide) hc
  unfold addOctet
  rw [if_neg, Nat.ofDigitChars_ten_toDigits]
  · exact if_neg (by omega)
  · rintro (hnil | hlong | hother)
    · exact Nat.toDigits_ne_nil hnil
    · omega
    · exact hother hdigits

theorem addOctet_lt {result n : ℕ} {part : List Char} (h : addOctet result part = some n) :
    n < (result + 1) * 256 := by
  unfold addOctet at h
  split_ifs at h with hpart
  dsimp only at h
  split_ifs at h with hoctet
  obtain rfl := Option.some.inj h
  omega

theorem ipv4ToInt_lt {address : String} {n : ℕ} (h : ipv4ToInt address = some n) : n < 2 ^ 32 := by
  unfold ipv4ToInt at h
  dsimp only at h
  split_ifs at h with hparts
  obtain ⟨a, b, c, d, hparts⟩ := List.length_eq_four.mp (not_not.mp hparts)
  rw [hparts] at h
  simp only [List.foldlM_cons, List.foldlM_nil, Option.bind_eq_bind, Option.bind_eq_some_iff] at h
  obtain ⟨na, ha, nb, hb, nc, hc, nd, hd, hn⟩ := h
  obtain rfl := Option.some.inj hn
  have hna := addOctet_lt ha
  have hnb := addOctet_lt hb
  have hnc := addOctet_lt hc
  have hnd := addOctet_lt hd
  omega

theorem isDigit_of_mem_octets {a : ℕ} : ∀ l ∈ (octets a).map (Nat.toDigits 10), ∀ c ∈ l,
    c.isDigit = true := by
  intro l hl c hc
  obtain ⟨n, -, rfl⟩ := List.mem_map.mp hl
  exact Nat.isDigit_of_mem_toDigits (by decide) (by decide) hc

theorem trim_dotted (a : ℕ) : trim (dotted a) = dotted a := by
  refine trim_eq_self fun c hc => ?_
  rw [dotted, String.toList_ofList] at hc
  rcases Separators.mem_of_mem_intercalate hc with hdot | ⟨l, hl, hcl⟩
  · rw [List.mem_singleton.mp hdot]
    decide
  · exact isSpace_of_isDigit (isDigit_of_mem_octets l hl c hcl)

/-- What `dotted` writes is read back. -/
theorem ipv4ToInt_dotted {a : ℕ} (h : a < 2 ^ 32) : ipv4ToInt (dotted a) = some a := by
  have hsplit : (dotted a).toList.splitOn '.' = (octets a).map (Nat.toDigits 10) := by
    rw [dotted, String.toList_ofList]
    refine List.splitOn_intercalate '.' (fun l hl hmem => ?_) (by simp [octets])
    exact absurd (isDigit_of_mem_octets l hl '.' hmem) (by decide)
  unfold ipv4ToInt
  rw [trim_dotted, hsplit]
  simp only [octets, List.map_cons, List.map_nil, List.foldlM_cons, List.foldlM_nil,
    addOctet_toDigits _ (Nat.mod_lt _ (by decide : 0 < 256)), Option.bind_eq_bind, Option.bind_some]
  refine (if_neg (by simp)).trans (congrArg some ?_)
  omega

end Texts

section Ranges

variable {range : DHCPRange}

theorem ipv4RangeSize_eq_card {startInt stopInt : ℕ} {start stop : String}
    (hstart : ipv4ToInt start = some startInt) (hstop : ipv4ToInt stop = some stopInt) :
    ipv4RangeSize start stop = (Finset.Icc startInt stopInt).card := by
  unfold ipv4RangeSize
  rw [hstart, hstop, Nat.card_Icc]
  dsimp only
  split_ifs <;> omega

theorem ipv4ToInt_empty : ipv4ToInt "" = none := by decide

/-- The size of a range is how many addresses it has. -/
theorem card_addresses (range : DHCPRange) : (addresses range).card = rangeSize range := by
  unfold addresses rangeSize
  cases range.start with
  | none => rfl
  | some start =>
    cases range.stop with
    | none =>
      rw [Option.bind_none]
      cases (some start).bind ipv4ToInt <;> rfl
    | some stop =>
      rw [Option.bind_some, Option.bind_some]
      dsimp only
      cases hstart : ipv4ToInt start with
      | none =>
        have hsize : ipv4RangeSize start stop = 0 := by
          unfold ipv4RangeSize
          rw [hstart]
        rw [hsize, ite_self]
        rfl
      | some startInt =>
        cases hstop : ipv4ToInt stop with
        | none =>
          have hsize : ipv4RangeSize start stop = 0 := by
            unfold ipv4RangeSize
            rw [hstart, hstop]
          rw [hsize, ite_self]
          rfl
        | some stopInt =>
          rw [if_neg, ipv4RangeSize_eq_card hstart hstop]
          rintro (rfl | rfl)
          · exact nomatch ipv4ToInt_empty.symm.trans hstart
          · exact nomatch ipv4ToInt_empty.symm.trans hstop

/-- Its addresses are those that the warning finds in it. -/
theorem mem_addresses {a : ℕ} (h : a < 2 ^ 32) :
    a ∈ addresses range ↔ inRange (dotted a) range = true := by
  unfold addresses inRange
  cases range.start with
  | none => simp
  | some start =>
    cases range.stop with
    | none =>
      rw [Option.bind_none]
      cases (some start).bind ipv4ToInt <;> simp
    | some stop =>
      rw [Option.bind_some, Option.bind_some]
      dsimp only
      unfold isIpv4InRange
      rw [ipv4ToInt_dotted h]
      cases ipv4ToInt start with
      | none => simp
      | some startInt =>
        cases ipv4ToInt stop with
        | none => simp
        | some stopInt => simp

theorem lt_of_mem_addresses {a : ℕ} (h : a ∈ addresses range) : a < 2 ^ 32 := by
  unfold addresses at h
  split at h
  · rename_i hstop
    obtain ⟨stop, -, hstop⟩ := Option.bind_eq_some_iff.mp hstop
    exact (Finset.mem_Icc.mp h).2.trans_lt (ipv4ToInt_lt hstop)
  · exact absurd h (Finset.notMem_empty a)

theorem mem_covered {ranges : List DHCPRange} {a : ℕ} :
    a ∈ covered ranges ↔ ∃ range ∈ ranges, a ∈ addresses range := by
  induction ranges with
  | nil => simp [covered]
  | cons range rest ih =>
    rw [covered, Finset.mem_union, ih]
    simp

theorem foldl_rangeSize (ranges : List DHCPRange) (n : ℕ) :
    ranges.foldl (fun sum range => sum + rangeSize range) n = n + totalSize ranges := by
  unfold totalSize
  induction ranges generalizing n with
  | nil => rfl
  | cons range rest ih =>
    rw [List.foldl_cons, List.foldl_cons, ih, ih (0 + rangeSize range)]
    omega

theorem totalSize_cons (range : DHCPRange) (rest : List DHCPRange) :
    totalSize (range :: rest) = rangeSize range + totalSize rest := by
  rw [totalSize, List.foldl_cons, foldl_rangeSize, Nat.zero_add]

/-- Ranges together have no more addresses than their sizes say, and as many only when no two
overlap. -/
theorem card_covered (ranges : List DHCPRange) :
    (covered ranges).card ≤ totalSize ranges ∧
      ((covered ranges).card = totalSize ranges ↔
        ranges.Pairwise fun r r' => Disjoint (addresses r) (addresses r')) := by
  induction ranges with
  | nil => simp [covered, totalSize]
  | cons range rest ih =>
    obtain ⟨hle, hiff⟩ := ih
    have hcard := Finset.card_union_add_card_inter (addresses range) (covered rest)
    rw [card_addresses] at hcard
    have hinter : Disjoint (addresses range) (covered rest) ↔
        ∀ r ∈ rest, Disjoint (addresses range) (addresses r) := by
      constructor
      · intro hdisjoint r hr
        exact hdisjoint.mono_right fun a ha => mem_covered.mpr ⟨r, hr, ha⟩
      · intro hall
        refine Finset.disjoint_left.mpr fun a ha hrest => ?_
        obtain ⟨r, hr, har⟩ := mem_covered.mp hrest
        exact Finset.disjoint_left.mp (hall r hr) ha har
    rw [totalSize_cons, List.pairwise_cons, ← hiff, ← hinter, covered,
      Finset.disjoint_iff_inter_eq_empty, ← Finset.card_eq_zero]
    omega

theorem disjoint_addresses_iff {r r' : DHCPRange} :
    Disjoint (addresses r) (addresses r') ↔ Separate r r' := by
  rw [Finset.disjoint_left]
  constructor
  · rintro h a ha ⟨hr, hr'⟩
    exact h ((mem_addresses ha).mpr hr) ((mem_addresses ha).mpr hr')
  · intro h a hr hr'
    have ha := lt_of_mem_addresses hr
    exact h a ha ⟨(mem_addresses ha).mp hr, (mem_addresses ha).mp hr'⟩

end Ranges

section Pools

variable {network : DHCPSharedNetwork}

theorem dotted_ne_empty {a : ℕ} (h : a < 2 ^ 32) : dotted a ≠ "" := by
  intro hempty
  have hread := ipv4ToInt_dotted h
  rw [hempty, ipv4ToInt_empty] at hread
  exact nomatch hread

theorem mem_covered_iff (network : DHCPSharedNetwork) (a : ℕ) :
    a ∈ covered (network.subnets.flatMap DHCPSubnet.ranges) ↔ Ranged network a := by
  rw [mem_covered]
  constructor
  · rintro ⟨range, hrange, ha⟩
    obtain ⟨subnet, hsubnet, hmem⟩ := List.mem_flatMap.mp hrange
    have hlt := lt_of_mem_addresses ha
    exact ⟨hlt, subnet, hsubnet, range, hmem, (mem_addresses hlt).mp ha⟩
  · rintro ⟨hlt, subnet, hsubnet, range, hmem, ha⟩
    exact ⟨range, List.mem_flatMap.mpr ⟨subnet, hsubnet, hmem⟩, (mem_addresses hlt).mpr ha⟩

/-- The warning looks at the ranges of a subnet, unless the address is excluded. -/
theorem isAddressInDynamicRange_iff {a : ℕ} (h : a < 2 ^ 32) (subnet : DHCPSubnet) :
    isAddressInDynamicRange (dotted a) subnet = true ↔
      (∃ range ∈ subnet.ranges, inRange (dotted a) range = true) ∧
        ¬ ∃ ex ∈ subnet.excludes, trim ex = dotted a := by
  have hexcluded : subnet.excludes.any (fun ex => trim ex = dotted a) = true ↔
      ∃ ex ∈ subnet.excludes, trim ex = dotted a := by
    simp
  unfold isAddressInDynamicRange
  dsimp only
  rw [trim_dotted]
  by_cases hex : ∃ ex ∈ subnet.excludes, trim ex = dotted a
  · rw [if_pos (Or.inr (hexcluded.mpr hex))]
    exact iff_of_false Bool.false_ne_true fun hfound => hfound.2 hex
  · rw [if_neg (not_or.mpr ⟨dotted_ne_empty h, fun hany => hex (hexcluded.mp hany)⟩),
      List.any_eq_true]
    exact (and_iff_left hex).symm

/-- The addresses in the ranges are those that the warning finds and those that are excluded. -/
theorem ranged_and_not_dynamic_iff {a : ℕ} :
    Ranged network a ∧ ¬ Dynamic network a ↔ Excluded network a := by
  constructor
  · rintro ⟨hranged, hdynamic⟩
    refine ⟨hranged, fun subnet hsubnet hrange => ?_⟩
    by_contra hex
    exact hdynamic ⟨hranged.1, subnet, hsubnet,
      (isAddressInDynamicRange_iff hranged.1 subnet).mpr ⟨hrange, hex⟩⟩
  · rintro ⟨hranged, hexcluded⟩
    refine ⟨hranged, ?_⟩
    rintro ⟨hlt, subnet, hsubnet, hfound⟩
    obtain ⟨hrange, hex⟩ := (isAddressInDynamicRange_iff hlt subnet).mp hfound
    exact hex (hexcluded subnet hsubnet hrange)

theorem Dynamic.ranged {a : ℕ} (h : Dynamic network a) : Ranged network a := by
  obtain ⟨hlt, subnet, hsubnet, hfound⟩ := h
  exact ⟨hlt, subnet, hsubnet, ((isAddressInDynamicRange_iff hlt subnet).mp hfound).1⟩

/-- Whether the warning finds an address. -/
def warned (network : DHCPSharedNetwork) (a : ℕ) : Bool :=
  network.subnets.any (isAddressInDynamicRange (dotted a))

/-- The addresses that the warning finds, among those of the ranges. -/
def dynamicAddresses (network : DHCPSharedNetwork) : Finset ℕ :=
  (covered (network.subnets.flatMap DHCPSubnet.ranges)).filter (warned network · = true)

/-- The others. -/
def excludedAddresses (network : DHCPSharedNetwork) : Finset ℕ :=
  (covered (network.subnets.flatMap DHCPSubnet.ranges)).filter (¬ warned network · = true)

theorem dynamic_iff_warned {a : ℕ} (h : Ranged network a) :
    Dynamic network a ↔ warned network a = true := by
  unfold Dynamic warned
  rw [List.any_eq_true]
  exact and_iff_right h.1

theorem mem_dynamicAddresses (network : DHCPSharedNetwork) (a : ℕ) :
    a ∈ dynamicAddresses network ↔ Dynamic network a := by
  rw [dynamicAddresses, Finset.mem_filter, mem_covered_iff]
  constructor
  · exact fun ⟨hranged, hfound⟩ => (dynamic_iff_warned hranged).mpr hfound
  · exact fun h => ⟨h.ranged, (dynamic_iff_warned h.ranged).mp h⟩

theorem mem_excludedAddresses (network : DHCPSharedNetwork) (a : ℕ) :
    a ∈ excludedAddresses network ↔ Excluded network a := by
  rw [excludedAddresses, Finset.mem_filter, mem_covered_iff, ← ranged_and_not_dynamic_iff]
  exact and_congr_right fun hranged => not_congr (dynamic_iff_warned hranged).symm

theorem card_dynamic_add_card_excluded (network : DHCPSharedNetwork) :
    (dynamicAddresses network).card + (excludedAddresses network).card =
      (covered (network.subnets.flatMap DHCPSubnet.ranges)).card :=
  Finset.card_filter_add_card_filter_not _

/-- The addresses that are leased, by their numbers. -/
def leasedAddresses (network : DHCPSharedNetwork) (leases : List DHCPLease) : Finset ℕ :=
  ((leasesOf network leases).filterMap fun l => ipv4ToInt l.ipAddress).toFinset

theorem mem_leasedAddresses {leases : List DHCPLease} {a : ℕ} :
    a ∈ leasedAddresses network leases ↔
      ∃ l ∈ leases, l.pool = network.name ∧ ipv4ToInt l.ipAddress = some a := by
  unfold leasedAddresses leasesOf
  simp [and_assoc]

/-- As many as there are leases. -/
theorem card_leasedAddresses {leases : List DHCPLease} (h : Leased network leases) :
    (leasedAddresses network leases).card = (leasesOf network leases).length := by
  have hmap : ((leasesOf network leases).filterMap fun l => ipv4ToInt l.ipAddress).map some =
      (leasesOf network leases).map fun l => ipv4ToInt l.ipAddress := by
    have hranged := h.ranged
    generalize leasesOf network leases = ls at hranged ⊢
    induction ls with
    | nil => rfl
    | cons l ls ih =>
      obtain ⟨a, ha, -⟩ := hranged l List.mem_cons_self
      rw [List.filterMap_cons_some (f := fun l : DHCPLease => ipv4ToInt l.ipAddress) ha,
        List.map_cons, List.map_cons, ha, ih fun l' hl' => hranged l' (List.mem_cons_of_mem l hl')]
  have hnodup := h.nodup
  rw [← hmap] at hnodup
  unfold leasedAddresses
  rw [List.toFinset_card_of_nodup hnodup.of_map, ← List.length_map (f := some), hmap,
    List.length_map]

/-- What is shown as available, when no address is counted twice: the addresses without a lease,
excluded or not. -/
theorem available_eq {leases : List DHCPLease} (hleased : Leased network leases)
    (hsize : (covered (network.subnets.flatMap DHCPSubnet.ranges)).card =
      (computePoolUtilization network leases).size) :
    let u := computePoolUtilization network leases
    u.leased + u.available = u.size ∧
      u.available = ((covered (network.subnets.flatMap DHCPSubnet.ranges)).filter fun a =>
        ∀ l ∈ leases, l.pool = network.name → ipv4ToInt l.ipAddress ≠ some a).card := by
  intro u
  have hsubset : leasedAddresses network leases ⊆
      covered (network.subnets.flatMap DHCPSubnet.ranges) := by
    intro a ha
    obtain ⟨l, hl, hpool, haddr⟩ := mem_leasedAddresses.mp ha
    obtain ⟨a', ha', hranged⟩ := hleased.ranged l
      (List.mem_filter.mpr ⟨hl, decide_eq_true hpool⟩)
    obtain rfl := Option.some.inj (haddr.symm.trans ha')
    exact (mem_covered_iff network a).mpr hranged
  have hfree : (covered (network.subnets.flatMap DHCPSubnet.ranges)).filter (fun a =>
      ∀ l ∈ leases, l.pool = network.name → ipv4ToInt l.ipAddress ≠ some a) =
        covered (network.subnets.flatMap DHCPSubnet.ranges) \ leasedAddresses network leases := by
    ext a
    rw [Finset.mem_filter, Finset.mem_sdiff, mem_leasedAddresses]
    simp only [not_exists, not_and]
  have hleasedCount : u.leased = (leasedAddresses network leases).card :=
    (card_leasedAddresses hleased).symm
  have hcount := Finset.card_sdiff_add_card_eq_card hsubset
  have havailable : u.available = u.size - u.leased := Nat.max_zero _
  have husize : u.size = (computePoolUtilization network leases).size := rfl
  rw [hfree]
  omega

theorem card_free_split (network : DHCPSharedNetwork) (free : ℕ → Prop) [DecidablePred free] :
    ((covered (network.subnets.flatMap DHCPSubnet.ranges)).filter free).card =
      ((dynamicAddresses network).filter free).card +
        ((excludedAddresses network).filter free).card := by
  unfold dynamicAddresses excludedAddresses
  rw [Finset.filter_comm, Finset.filter_comm (p := fun a => ¬ warned network a = true),
    Finset.card_filter_add_card_filter_not]

/-- The size that the page shows of a pool is never below the number of addresses that the warning
finds in it, and is that number exactly when no address lies in two ranges and none in a range is
excluded. When no address lies in two ranges it counts the excluded ones too; then, while each lease
of the pool has an address of its own in the ranges, what is shown as available are the addresses
without a lease, the excluded ones among them. -/
theorem available_counts (network : DHCPSharedNetwork) (leases : List DHCPLease) :
    let u := computePoolUtilization network leases
    let ranges := network.subnets.flatMap DHCPSubnet.ranges
    ∃ dynamic excluded : Finset ℕ, (∀ a, a ∈ dynamic ↔ Dynamic network a) ∧
      (∀ a, a ∈ excluded ↔ Excluded network a) ∧ dynamic.card ≤ u.size ∧
      (dynamic.card = u.size ↔ ranges.Pairwise Separate ∧ ∀ a, ¬ Excluded network a) ∧
      (ranges.Pairwise Separate → u.size = dynamic.card + excluded.card ∧
        (Leased network leases → u.leased + u.available = u.size ∧
          u.available =
            (dynamic.filter fun a =>
              ∀ l ∈ leases, l.pool = network.name → ipv4ToInt l.ipAddress ≠ some a).card +
            (excluded.filter fun a =>
              ∀ l ∈ leases, l.pool = network.name → ipv4ToInt l.ipAddress ≠ some a).card)) := by
  intro u ranges
  obtain ⟨hle, hiff⟩ := card_covered ranges
  have hseparate : (covered ranges).card = u.size ↔ ranges.Pairwise Separate :=
    hiff.trans (by simp only [disjoint_addresses_iff])
  have hsum : (dynamicAddresses network).card + (excludedAddresses network).card =
      (covered ranges).card := card_dynamic_add_card_excluded network
  have hnone : (excludedAddresses network).card = 0 ↔ ∀ a, ¬ Excluded network a := by
    rw [Finset.card_eq_zero, Finset.eq_empty_iff_forall_notMem]
    simp only [mem_excludedAddresses]
  have hsize : (covered ranges).card ≤ u.size := hle
  refine ⟨dynamicAddresses network, excludedAddresses network, mem_dynamicAddresses network,
    mem_excludedAddresses network, by omega, ?_, fun hranges => ⟨?_, fun hleased => ?_⟩⟩
  · rw [← hseparate, ← hnone]
    omega
  · have hall := hseparate.mpr hranges
    omega
  · rw [← card_free_split]
    exact available_eq hleased (hseparate.mpr hranges)

end Pools

section Examples

/-- Two ranges of four addresses, one of them leased and another excluded. -/
def exampleNetwork : DHCPSharedNetwork :=
  ⟨"LAN", [⟨"192.0.2.0/24", [⟨"0", some "192.0.2.10", some "192.0.2.13"⟩,
    ⟨"1", some "192.0.2.20", some "192.0.2.23"⟩], ["192.0.2.11"]⟩]⟩

theorem separate_example : Separate ⟨"0", some "192.0.2.10", some "192.0.2.13"⟩
    ⟨"1", some "192.0.2.20", some "192.0.2.23"⟩ := by
  refine disjoint_addresses_iff.mp (Finset.disjoint_left.mpr fun a ha ha' => ?_)
  have hfirst : a ∈ Finset.Icc 3221225994 3221225997 := ha
  have hsecond : a ∈ Finset.Icc 3221226004 3221226007 := ha'
  rw [Finset.mem_Icc] at hfirst hsecond
  omega

theorem available_example :
    let u := computePoolUtilization exampleNetwork [⟨"192.0.2.12", "LAN"⟩]
    ∃ dynamic excluded : Finset ℕ, (∀ a, a ∈ dynamic ↔ Dynamic exampleNetwork a) ∧
      (∀ a, a ∈ excluded ↔ Excluded exampleNetwork a) ∧ 3221225995 ∈ excluded ∧ u.size = 8 ∧
      dynamic.card + excluded.card = 8 ∧ u.available = 7 ∧
      (dynamic.filter fun a => ∀ l ∈ [(⟨"192.0.2.12", "LAN"⟩ : DHCPLease)],
          l.pool = exampleNetwork.name → ipv4ToInt l.ipAddress ≠ some a).card +
        (excluded.filter fun a => ∀ l ∈ [(⟨"192.0.2.12", "LAN"⟩ : DHCPLease)],
          l.pool = exampleNetwork.name → ipv4ToInt l.ipAddress ≠ some a).card = 7 := by
  intro u
  obtain ⟨dynamic, excluded, hdynamic, hexcluded, -, -, hcounts⟩ :=
    available_counts exampleNetwork [⟨"192.0.2.12", "LAN"⟩]
  have hranges : (exampleNetwork.subnets.flatMap DHCPSubnet.ranges).Pairwise Separate :=
    List.pairwise_pair.mpr separate_example
  have hleased : Leased exampleNetwork [⟨"192.0.2.12", "LAN"⟩] := by
    refine ⟨by decide, fun l hl => ?_⟩
    obtain rfl := List.mem_singleton.mp (List.mem_filter.mp hl).1
    refine ⟨3221225996, by decide +kernel, ?_⟩
    refine (mem_covered_iff _ _).mp (mem_covered.mpr ⟨_, List.mem_cons_self, ?_⟩)
    exact Finset.mem_Icc.mpr ⟨by decide, by decide⟩
  have hsize : u.size = 8 := by decide +kernel
  have havailable : u.available = 7 := by decide +kernel
  obtain ⟨hcard, hfree⟩ := hcounts hranges
  refine ⟨dynamic, excluded, hdynamic, hexcluded, (hexcluded _).mpr ⟨?_, ?_⟩, hsize,
    hcard.symm.trans hsize, havailable, (hfree hleased).2.symm.trans havailable⟩
  · refine (mem_covered_iff _ _).mp (mem_covered.mpr ⟨_, List.mem_cons_self, ?_⟩)
    exact Finset.mem_Icc.mpr ⟨by decide, by decide⟩
  · intro subnet hsubnet _
    rw [List.mem_singleton.mp hsubnet]
    exact ⟨_, List.mem_singleton_self _, by decide +kernel⟩

end Examples

end VyosClient.DhcpPools
